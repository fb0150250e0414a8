import OsdCore.Disp.Text
import OsdCore.Prog.Machine

/-!
# Fonts that are loaded

* `platformDispLoadfont`, `platformDispSetfont` : a font file gets a free slot, and a slot is selected.
* `FontInfo.Loaded`, `Fonts.Good` : the data of a font are as long as its glyphs together.
* `GlyphInside` : a glyph is one of the loaded data, or the blank one.
* `FontInfo.Fits` : the fonts for which every glyph is; `FontInfo.size` is a `u8`, and the blank glyph
  has 32 bytes.
* `glyph_lookup` : what this means for a sequence of calls.
-/

namespace OsdCore

/-! ### `platform_disp_loadfont`, `platform_disp_setfont` -/

/-- `FontFileInfo`, which is packed. -/
structure FontFileInfo where
  width : UInt8
  height : UInt8
  type : UInt8
  start : UInt16
  stop : UInt16
deriving DecidableEq, Repr

/-- `sizeof(FontFileInfo)`. -/
def FontFileInfo.sizeof : ℕ := 7

/-- The beginning of a file. -/
def fontFileInfo (b : Bytes) : FontFileInfo :=
  ⟨b.getD 0 0, b.getD 1 0, b.getD 2 0, UInt16.ofNat (le16 (b.drop 3)), UInt16.ofNat (le16 (b.drop 5))⟩

/-- `load_file_data`: `none` is a file that does not exist, or no memory for it; a size is an `int`. -/
def loadFileData : Option Bytes → Bytes
  | some file => file.take (u32 file.length).toNat
  | none => []

/-- `charsize`. -/
def FontFileInfo.charsize (info : FontFileInfo) : ℤ :=
  u32 (((info.width.toNat : ℤ) + 7) / 8 * info.height.toNat)

/-- The checks of `platform_disp_loadfont`, and the font that is stored; the errors are its `retcode`s.
-/
def fontOfFile (buf : Bytes) : Except ℤ FontInfo :=
  let info := fontFileInfo buf
  if buf.length ≤ FontFileInfo.sizeof then .error (-1)
  else if info.type ≠ 0 then .error (-2)
  else if info.stop < info.start then .error (-3)
  else if u32 (info.charsize * ((info.stop : ℤ) - info.start + 1)) ≠ u32 (buf.length - FontFileInfo.sizeof) then
    .error (-4)
  else .ok {
    width := info.width
    height := info.height
    size := UInt8.ofNat info.charsize.toNat
    start := info.start
    stop := info.stop
    data := some ⟨buf.length - FontFileInfo.sizeof, Ptr.ofBytes (buf.drop FontFileInfo.sizeof)⟩ }

/-- The first slot without data. -/
def Fonts.free (fonts : Fonts) : Option (Fin MAX_FONTS) :=
  (List.finRange MAX_FONTS).find? fun i => (fonts.dispFonts i).data.isNone

/-- The slot that a file gets; the last `retcode` is that there is none. -/
def Fonts.install (fonts : Fonts) (file : Option Bytes) : Except ℤ (Fin MAX_FONTS × FontInfo) :=
  match fontOfFile (loadFileData file) with
  | .error retcode => .error retcode
  | .ok info =>
    match fonts.free with
    | none => .error (-5)
    | some i => .ok (i, info)

/-- `platform_disp_loadfont`. -/
def platformDispLoadfont (fonts : Fonts) (file : Option Bytes) : ℤ × Fonts :=
  match fonts.install file with
  | .error _ => (-1, fonts)
  | .ok (i, info) => ((i : ℕ), { fonts with dispFonts := Function.update fonts.dispFonts i info })

/-- `platform_disp_setfont`. -/
def platformDispSetfont (fonts : Fonts) (id : ℤ) : ℤ × Fonts :=
  if h : 0 ≤ id ∧ id.toNat < MAX_FONTS then
    if (fonts.dispFonts ⟨id.toNat, h.2⟩).data.isNone then (-1, fonts)
    else ((fonts.currFontId : ℕ), { fonts with currFontId := ⟨id.toNat, h.2⟩ })
  else (-1, fonts)

/-- `sansFont16`, with `sansFont16Data`. -/
def sansFont16 (data : Ptr) : FontInfo := ⟨8, 16, 8 * 16 / 8, 0x20, 0x7E, some ⟨1520, data⟩⟩

/-- A slot without a font. -/
def FontInfo.null : FontInfo := ⟨0, 0, 0, 0, 0, none⟩

/-- The fonts after `fontInit`. -/
def fontInit (sansFont16Data : Ptr) (sansHzFont16 : FontInfo) (sansHzFont16ExtData : Block) : Fonts where
  dispFonts := Function.update (fun _ => .null) ⟨0, by decide⟩ (sansFont16 sansFont16Data)
  currFontId := ⟨0, by decide⟩
  dispHzFont := sansHzFont16
  blankChar := ⟨16 * 16 / 8, fun _ => 0⟩
  sansHzFont16ExtData := sansHzFont16ExtData

/-- A call. -/
inductive FontCall where
  | loadfont (file : Option Bytes)
  | setfont (id : ℤ)

/-- What a call does. -/
def fontStep (fonts : Fonts) : FontCall → Option Fonts
  | .loadfont file => some (platformDispLoadfont fonts file).2
  | .setfont id => some (platformDispSetfont fonts id).2

/-! ### Glyphs -/

/-- The bytes of a glyph. -/
def FontInfo.glyphBytes (info : FontInfo) : ℤ := ((info.width.toNat : ℤ) + 7) / 8 * info.height.toNat

/-- The font that is selected. -/
def Fonts.current (fonts : Fonts) : FontInfo := fonts.dispFonts fonts.currFontId

/-- The code is one of the font. -/
def FontInfo.Has (info : FontInfo) (charcode : UInt16) : Prop :=
  info.start ≤ charcode ∧ charcode ≤ info.stop

instance FontInfo.decidableHas (info : FontInfo) (charcode : UInt16) : Decidable (info.Has charcode) :=
  inferInstanceAs (Decidable (_ ∧ _))

/-- The bitmap of a character is a whole glyph: its own in the data of the font, or the blank one. -/
structure GlyphInside (fonts : Fonts) (charcode : UInt16) : Prop where
  bytes : (getFontBitmap fonts charcode).rowBytes * (getFontBitmap fonts charcode).height =
    fonts.current.glyphBytes
  loaded : fonts.current.Has charcode → fonts.current.data = some (getFontBitmap fonts charcode).data ∧
    (getFontBitmap fonts charcode).offset =
      ((charcode : ℤ) - fonts.current.start) * fonts.current.glyphBytes ∧
    (getFontBitmap fonts charcode).offset + fonts.current.glyphBytes ≤
      (getFontBitmap fonts charcode).data.size
  blank : ¬ fonts.current.Has charcode → (getFontBitmap fonts charcode).data = fonts.blankChar ∧
    0 ≤ (getFontBitmap fonts charcode).offset ∧
    (getFontBitmap fonts charcode).offset + fonts.current.glyphBytes ≤ fonts.blankChar.size

/-- So it is for every character of one byte, and for the codes below those of the Chinese font. -/
def GlyphsInside (fonts : Fonts) : Prop :=
  ∀ charcode : UInt16, charcode < 0xA0A0 → GlyphInside fonts charcode

/-- The fonts for which it is: a blank glyph is not longer than 32 bytes, or it is never used, and the
size of a glyph is a `u8`. -/
def FontInfo.Fits (info : FontInfo) : Prop :=
  info.glyphBytes ≤ 32 ∨ (info.glyphBytes < 2 ^ 8 ∧ info.start = 0 ∧ 0xA09F ≤ info.stop)

/-- A call selects such a font, if it selects one. -/
def SelectsFitting (fonts : Fonts) : FontCall → Prop
  | .loadfont _ => True
  | .setfont id => ∀ i : Fin MAX_FONTS, ((i : ℕ) : ℤ) = id → (fonts.dispFonts i).data ≠ none →
      (fonts.dispFonts i).Fits

/-! ### The invariant -/

/-- A font and its data. -/
structure FontInfo.Loaded (info : FontInfo) (data : Block) : Prop where
  size : (info.size.toNat : ℤ) = info.glyphBytes % 2 ^ 8
  order : info.start ≤ info.stop
  length : (data.size : ℤ) = info.glyphBytes * ((info.stop : ℤ) - info.start + 1)

/-- Every slot with data holds a font, and so does the one that is selected. -/
structure Fonts.Good (fonts : Fonts) : Prop where
  blank : fonts.blankChar.size = 32
  slots : ∀ i data, (fonts.dispFonts i).data = some data → (fonts.dispFonts i).Loaded data
  current : ∃ data, fonts.current.data = some data

section

variable {fonts fonts' : Fonts} {info : FontInfo} {data : Block} {charcode : UInt16} {buf : Bytes}
  {file : Option Bytes} {id : ℤ} {i : Fin MAX_FONTS}

/-- A glyph has at most 8160 bytes. -/
theorem glyphBytes_range (width height : UInt8) :
    0 ≤ ((width.toNat : ℤ) + 7) / 8 * height.toNat ∧
      ((width.toNat : ℤ) + 7) / 8 * height.toNat ≤ 8160 := by
  have hwidth := width.toNat_lt
  have hheight := height.toNat_lt
  refine ⟨Int.mul_nonneg (by omega) (by omega), ?_⟩
  calc ((width.toNat : ℤ) + 7) / 8 * height.toNat ≤ 32 * 255 :=
        Int.mul_le_mul (by omega) (by omega) (by omega) (by decide)
    _ = 8160 := by decide

theorem FontFileInfo.charsize_eq (info : FontFileInfo) :
    info.charsize = ((info.width.toNat : ℤ) + 7) / 8 * info.height.toNat := by
  obtain ⟨hpos, hle⟩ := glyphBytes_range info.width info.height
  exact u32_of_range hpos (by omega)

theorem length_loadFileData (file : Option Bytes) : (loadFileData file).length < 2 ^ 32 := by
  cases file with
  | none => decide
  | some file =>
    have hsize := u32_range file.length
    rw [loadFileData, List.length_take]
    omega

/-- **A file that is accepted** is a font with its data. -/
theorem loaded_of_fontOfFile (hlen : buf.length < 2 ^ 32) (h : fontOfFile buf = .ok info) :
    ∃ data, info.data = some data ∧ info.Loaded data := by
  unfold fontOfFile at h
  dsimp only at h
  split_ifs at h with hheader htype horder hsize
  obtain rfl := Except.ok.inj h
  obtain ⟨hpos, hle⟩ := glyphBytes_range (fontFileInfo buf).width (fontFileInfo buf).height
  rw [← FontFileInfo.charsize_eq] at hpos hle
  refine ⟨_, rfl, ?_, UInt16.not_lt.1 horder, ?_⟩
  · dsimp only [FontInfo.glyphBytes]
    rw [← FontFileInfo.charsize_eq, UInt8.toNat_ofNat']
    omega
  · have hcount : 0 ≤ ((fontFileInfo buf).stop : ℤ) - (fontFileInfo buf).start + 1 ∧
        ((fontFileInfo buf).stop : ℤ) - (fontFileInfo buf).start + 1 ≤ 2 ^ 16 := by
      have horder' := UInt16.le_iff_toNat_le.1 (UInt16.not_lt.1 horder)
      have hstop := (fontFileInfo buf).stop.toNat_lt
      omega
    have hbytes : (fontFileInfo buf).charsize *
        (((fontFileInfo buf).stop : ℤ) - (fontFileInfo buf).start + 1) ≤ 8160 * 2 ^ 16 :=
      Int.mul_le_mul hle hcount.2 hcount.1 (by decide)
    have hbytes₀ := Int.mul_nonneg hpos hcount.1
    -- nothing is reduced in the comparison
    rw [not_not, u32_of_range hbytes₀ (by omega), u32_of_range (by omega) (by omega)] at hsize
    dsimp only [FontInfo.glyphBytes]
    rw [← FontFileInfo.charsize_eq, hsize]
    omega

/-- **A slot that is filled was free.** -/
theorem install_ok (h : fonts.install file = .ok (i, info)) :
    (fonts.dispFonts i).data = none ∧ ∃ data, info.data = some data ∧ info.Loaded data := by
  unfold Fonts.install at h
  cases hfile : fontOfFile (loadFileData file) with
  | error retcode =>
    rw [hfile] at h
    cases h
  | ok font =>
    rw [hfile] at h
    cases hfree : fonts.free with
    | none =>
      rw [hfree] at h
      cases h
    | some k =>
      rw [hfree] at h
      obtain ⟨rfl, rfl⟩ := Prod.mk.inj (Except.ok.inj h)
      have hnone := List.find?_some (p := fun i => (fonts.dispFonts i).data.isNone) hfree
      exact ⟨Option.isNone_iff_eq_none.1 hnone, loaded_of_fontOfFile (length_loadFileData file) hfile⟩

/-- Loading a font: the font that is selected stays what it is. -/
theorem loadfont_cases (fonts : Fonts) (file : Option Bytes) :
    (platformDispLoadfont fonts file).2 = fonts ∨
      ∃ i info, (fonts.dispFonts i).data = none ∧ (∃ data, info.data = some data ∧ info.Loaded data) ∧
        (platformDispLoadfont fonts file).2 =
          { fonts with dispFonts := Function.update fonts.dispFonts i info } := by
  unfold platformDispLoadfont
  cases h : fonts.install file with
  | error retcode => exact .inl rfl
  | ok slot =>
    obtain ⟨hfree, hloaded⟩ := install_ok h
    exact .inr ⟨slot.1, slot.2, hfree, hloaded, rfl⟩

/-- Selecting a font. -/
theorem setfont_cases (fonts : Fonts) (id : ℤ) :
    (platformDispSetfont fonts id).2 = fonts ∧
        (∀ i : Fin MAX_FONTS, ((i : ℕ) : ℤ) = id → (fonts.dispFonts i).data = none) ∨
      ∃ i : Fin MAX_FONTS, ((i : ℕ) : ℤ) = id ∧ (fonts.dispFonts i).data ≠ none ∧
        (platformDispSetfont fonts id).2 = { fonts with currFontId := i } := by
  unfold platformDispSetfont
  split_ifs with hid hnone
  · refine .inl ⟨rfl, ?_⟩
    rintro i rfl
    exact Option.isNone_iff_eq_none.1 hnone
  · refine .inr ⟨⟨id.toNat, hid.2⟩, Int.toNat_of_nonneg hid.1, ?_, rfl⟩
    intro hno
    rw [hno] at hnone
    exact hnone rfl
  · refine .inl ⟨rfl, ?_⟩
    rintro i rfl
    exact absurd ⟨Int.natCast_nonneg _, i.isLt⟩ hid

/-- 95 glyphs of 16 bytes. -/
theorem sansFont16_loaded (data : Ptr) : (sansFont16 data).Loaded ⟨1520, data⟩ := by
  have hsize : ((16 : UInt8).toNat : ℤ) =
      (((8 : UInt8).toNat : ℤ) + 7) / 8 * (16 : UInt8).toNat % 2 ^ 8 := by
    decide
  have horder : (0x20 : UInt16) ≤ 0x7E := by decide
  have hlength : (1520 : ℤ) = (((8 : UInt8).toNat : ℤ) + 7) / 8 * (16 : UInt8).toNat *
      (((0x7E : UInt16) : ℤ) - (0x20 : UInt16) + 1) := by decide
  exact ⟨hsize, horder, hlength⟩

namespace Fonts.Good

theorem init (sansFont16Data : Ptr) (sansHzFont16 : FontInfo) (sansHzFont16ExtData : Block) :
    (fontInit sansFont16Data sansHzFont16 sansHzFont16ExtData).Good := by
  refine ⟨rfl, ?_, ⟨_, rfl⟩⟩
  intro i data hdata
  by_cases hi : i = ⟨0, by decide⟩
  · subst hi
    obtain rfl := Option.some.inj hdata
    exact sansFont16_loaded sansFont16Data
  · unfold fontInit at hdata
    dsimp only at hdata
    rw [Function.update_of_ne hi] at hdata
    cases hdata

/-- The font that is selected is not in a free slot. -/
theorem ne_of_free (h : fonts.Good) (hfree : (fonts.dispFonts i).data = none) : fonts.currFontId ≠ i := by
  obtain ⟨now, hnow⟩ := h.current
  rintro rfl
  rw [Fonts.current, hfree] at hnow
  cases hnow

/-- Loading a font does not change the one that is selected. -/
theorem current_loadfont (h : fonts.Good) (file : Option Bytes) :
    (platformDispLoadfont fonts file).2.current = fonts.current := by
  rcases loadfont_cases fonts file with hsame | ⟨i, info, hfree, -, hfonts⟩
  · rw [hsame]
  · rw [hfonts]
    exact Function.update_of_ne (h.ne_of_free hfree) ..

/-- A call keeps it. -/
theorem step {call : FontCall} (h : fonts.Good) (hstep : fontStep fonts call = some fonts') :
    fonts'.Good := by
  cases call with
  | loadfont file =>
    obtain rfl := Option.some.inj hstep
    rcases loadfont_cases fonts file with hsame | ⟨i, info, hfree, ⟨data, hdata, hloaded⟩, hfonts⟩
    · rw [hsame]
      exact h
    · have hcurrent := h.current_loadfont file
      rw [hfonts] at hcurrent ⊢
      refine ⟨h.blank, ?_, hcurrent ▸ h.current⟩
      · intro k data' hdata'
        dsimp only at hdata' ⊢
        by_cases hk : k = i
        · subst hk
          rw [Function.update_self] at hdata' ⊢
          obtain rfl := Option.some.inj (hdata.symm.trans hdata')
          exact hloaded
        · rw [Function.update_of_ne hk] at hdata' ⊢
          exact h.slots k data' hdata'
  | setfont id =>
    obtain rfl := Option.some.inj hstep
    rcases setfont_cases fonts id with ⟨hsame, -⟩ | ⟨i, -, hdata, hfonts⟩
    · rw [hsame]
      exact h
    · rw [hfonts]
      exact ⟨h.blank, h.slots, Option.ne_none_iff_exists'.1 hdata⟩

/-- In every sequence of calls. -/
theorem run {ok : Fonts → FontCall → Prop} (h : fonts.Good) (hrun : Steps fontStep ok fonts fonts') :
    fonts'.Good :=
  hrun.invariant h fun _ _ _ hgood _ hstep => hgood.step hstep

end Fonts.Good

/-! ### The bitmap of a character -/

theorem getFontBitmap_of_has (hdata : fonts.current.data = some data) (h : fonts.current.Has charcode) :
    getFontBitmap fonts charcode = ⟨fonts.current.width.toUInt16, fonts.current.height.toUInt16, 1, data,
      ((charcode : ℤ) - fonts.current.start) * fonts.current.size.toNat⟩ := by
  unfold Fonts.current at hdata
  simp only [getFontBitmap, hdata]
  exact if_pos h

theorem getFontBitmap_of_not_has (h : ¬ fonts.current.Has charcode) :
    getFontBitmap fonts charcode = ⟨fonts.current.width.toUInt16, fonts.current.height.toUInt16, 1,
      fonts.blankChar, 0⟩ := by
  cases hdata : fonts.current.data with
  | none =>
    unfold Fonts.current at hdata
    simp only [getFontBitmap, hdata]
    rfl
  | some data =>
    unfold Fonts.current at hdata
    simp only [getFontBitmap, hdata]
    exact if_neg h

/-- The rows of a glyph. -/
theorem bytes_getFontBitmap (fonts : Fonts) (charcode : UInt16) :
    (getFontBitmap fonts charcode).rowBytes * (getFontBitmap fonts charcode).height =
      fonts.current.glyphBytes := by
  have hsize : (getFontBitmap fonts charcode).width = fonts.current.width.toUInt16 ∧
      (getFontBitmap fonts charcode).height = fonts.current.height.toUInt16 := by
    unfold getFontBitmap Fonts.current
    dsimp only
    split
    · split_ifs <;> exact ⟨rfl, rfl⟩
    · exact ⟨rfl, rfl⟩
  rw [DispBitmap.rowBytes, hsize.1, hsize.2, UInt8.toNat_toUInt16, UInt8.toNat_toUInt16]
  rfl

/-- A font has every code below those of the Chinese font, or there is one that it has not. -/
theorem exists_not_has (h : ¬ (info.start = 0 ∧ 0xA09F ≤ info.stop)) :
    ∃ charcode : UInt16, charcode < 0xA0A0 ∧ ¬ info.Has charcode := by
  by_cases hstart : info.start = 0
  · exact ⟨0xA09F, by decide, fun hhas => h ⟨hstart, hhas.2⟩⟩
  · refine ⟨0, by decide, fun hhas => hstart ?_⟩
    exact UInt16.le_antisymm hhas.1 (UInt16.zero_le)

/-- The glyphs of a font that fits. -/
theorem glyphInside_of_fits (h : fonts.Good) (hfits : fonts.current.Fits) (hcode : charcode < 0xA0A0) :
    GlyphInside fonts charcode := by
  obtain ⟨data, hdata⟩ := h.current
  obtain ⟨hsize, horder, hlength⟩ := h.slots _ _ hdata
  have hpos : 0 ≤ fonts.current.glyphBytes :=
    (glyphBytes_range fonts.current.width fonts.current.height).1
  have hsmall : fonts.current.glyphBytes < 2 ^ 8 := by
    rcases hfits with h32 | hfull
    · omega
    · exact hfull.1
  refine ⟨bytes_getFontBitmap fonts charcode, fun hhas => ?_, fun hno => ?_⟩
  · have hsame : (fonts.current.size.toNat : ℤ) = fonts.current.glyphBytes :=
      hsize.trans (Int.emod_eq_of_lt hpos hsmall)
    have hlow := UInt16.le_iff_toNat_le.1 hhas.1
    have hhigh := UInt16.le_iff_toNat_le.1 hhas.2
    have hend : ((charcode : ℤ) - fonts.current.start + 1) * fonts.current.glyphBytes ≤
        ((fonts.current.stop : ℤ) - fonts.current.start + 1) * fonts.current.glyphBytes :=
      Int.mul_le_mul_of_nonneg_right (by omega) hpos
    rw [getFontBitmap_of_has hdata hhas]
    dsimp only
    rw [hsame]
    refine ⟨hdata, rfl, ?_⟩
    calc ((charcode : ℤ) - fonts.current.start) * fonts.current.glyphBytes + fonts.current.glyphBytes
        = ((charcode : ℤ) - fonts.current.start + 1) * fonts.current.glyphBytes := by ring
      _ ≤ ((fonts.current.stop : ℤ) - fonts.current.start + 1) * fonts.current.glyphBytes := hend
      _ = data.size := by rw [hlength, Int.mul_comm]; rfl
  · rw [getFontBitmap_of_not_has hno, h.blank]
    refine ⟨rfl, le_refl _, ?_⟩
    rcases hfits with h32 | ⟨-, hstart, hstop⟩
    · dsimp only
      omega
    · -- every code is one of the font
      have hlast : charcode ≤ 0xA09F := UInt16.le_iff_toNat_le.2 (Nat.le_of_lt_succ hcode)
      refine absurd ⟨?_, UInt16.le_trans hlast hstop⟩ hno
      rw [hstart]
      exact UInt16.zero_le

/-- **Which fonts have their glyphs inside.** -/
theorem glyphsInside_iff (h : fonts.Good) : GlyphsInside fonts ↔ fonts.current.Fits := by
  refine ⟨fun hall => ?_, fun hfits charcode hcode => glyphInside_of_fits h hfits hcode⟩
  by_contra hnot
  rw [FontInfo.Fits, not_or, not_le] at hnot
  obtain ⟨hlong, hrest⟩ := hnot
  by_cases hfull : fonts.current.start = 0 ∧ 0xA09F ≤ fonts.current.stop
  · -- the size of a glyph is not a byte, and that is where the second one begins
    obtain ⟨data, hdata⟩ := h.current
    have hhas : fonts.current.Has 1 := by
      refine ⟨?_, UInt16.le_trans (by decide) hfull.2⟩
      rw [hfull.1]
      exact UInt16.zero_le
    have hoffset := ((hall 1 (by decide)).loaded hhas).2.1
    rw [getFontBitmap_of_has hdata hhas, hfull.1] at hoffset
    have hbyte := fonts.current.size.toNat_lt
    have hlarge : ¬ fonts.current.glyphBytes < 2 ^ 8 := fun hlt => hrest ⟨hlt, hfull⟩
    have hone : ((1 : UInt16) : ℤ) - (0 : UInt16) = 1 := by decide
    dsimp only at hoffset
    rw [hone] at hoffset
    omega
  · obtain ⟨charcode, hcode, hno⟩ := exists_not_has hfull
    have hblank := ((hall charcode hcode).blank hno).2.2
    rw [getFontBitmap_of_not_has hno, h.blank] at hblank
    dsimp only at hblank
    omega

/-! ### A sequence of calls -/

/-- **A call keeps the glyphs inside** if it does not select a font that does not fit. -/
theorem glyphsInside_step {call : FontCall} (h : fonts.Good) (hinside : GlyphsInside fonts)
    (hstep : fontStep fonts call = some fonts') : GlyphsInside fonts' ↔ SelectsFitting fonts call := by
  have hfits := (glyphsInside_iff h).1 hinside
  rw [glyphsInside_iff (h.step hstep)]
  cases call with
  | loadfont file =>
    obtain rfl := Option.some.inj hstep
    rw [h.current_loadfont file]
    exact ⟨fun _ => trivial, fun _ => hfits⟩
  | setfont id =>
    obtain rfl := Option.some.inj hstep
    rcases setfont_cases fonts id with ⟨hsame, hnone⟩ | ⟨i, hid, hdata, hfonts⟩
    · rw [hsame]
      exact ⟨fun _ i hi hdata => absurd (hnone i hi) hdata, fun _ => hfits⟩
    · rw [hfonts]
      refine ⟨fun hnew k hk _ => ?_, fun hselect => hselect i hid hdata⟩
      obtain rfl : k = i := Fin.ext (Int.ofNat.inj (hk.trans hid.symm))
      exact hnew

/-- **The glyphs are inside** after every sequence of calls that selects fonts that fit; and from there
on, until one is selected that does not. -/
theorem glyph_lookup (sansFont16Data : Ptr) (sansHzFont16 : FontInfo) (sansHzFont16ExtData : Block) :
    (∀ fonts, Steps fontStep SelectsFitting (fontInit sansFont16Data sansHzFont16 sansHzFont16ExtData) fonts →
        GlyphsInside fonts) ∧
      ∀ fonts call fonts', Steps fontStep (fun _ _ => True)
          (fontInit sansFont16Data sansHzFont16 sansHzFont16ExtData) fonts → GlyphsInside fonts →
        fontStep fonts call = some fonts' → (GlyphsInside fonts' ↔ SelectsFitting fonts call) := by
  have hgood := Fonts.Good.init sansFont16Data sansHzFont16 sansHzFont16ExtData
  constructor
  · intro fonts hrun
    have hinit : GlyphsInside (fontInit sansFont16Data sansHzFont16 sansHzFont16ExtData) := by
      refine (glyphsInside_iff hgood).2 (.inl ?_)
      have h16 : (((8 : UInt8).toNat : ℤ) + 7) / 8 * (16 : UInt8).toNat ≤ 32 := by decide
      exact h16
    have hboth : fonts.Good ∧ GlyphsInside fonts := by
      refine hrun.invariant (I := fun fonts => fonts.Good ∧ GlyphsInside fonts) ⟨hgood, hinit⟩ ?_
      intro fonts call fonts' h hselect hstep
      exact ⟨h.1.step hstep, (glyphsInside_step h.1 h.2 hstep).2 hselect⟩
    exact hboth.2
  · intro fonts call fonts' hrun hinside hstep
    exact glyphsInside_step (hgood.run hrun) hinside hstep

end

/-- A font of one character, "A", with a glyph of 24 by 24 pixels. -/
def font24File : Bytes := [24, 24, 0, 0x41, 0, 0x41, 0] ++ List.replicate 72 0

/-- It is loaded into slot 1 and selected; "B" gets 72 bytes of the 32 of the blank glyph. -/
theorem not_glyph_lookup :
    ¬ ∀ (sansFont16Data : Ptr) (sansHzFont16 : FontInfo) (sansHzFont16ExtData : Block) (fonts : Fonts),
      Steps fontStep (fun _ _ => True) (fontInit sansFont16Data sansHzFont16 sansHzFont16ExtData) fonts →
        ∀ charcode : UInt16, charcode < 0xA0A0 → GlyphInside fonts charcode := by
  intro h
  have hrun : Steps fontStep (fun _ _ => True) (fontInit (fun _ => 0) .null ⟨0, fun _ => 0⟩) _ :=
    (Steps.refl.tail (a := .loadfont (some font24File)) trivial rfl).tail (a := .setfont 1) trivial rfl
  have hB := ((h _ _ _ _ hrun 0x42 (by decide)).blank (by decide)).2.2
  exact absurd hB (by decide)

end OsdCore
