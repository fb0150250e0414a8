import OsdCore.Json.Token

/-!
# The decoder: `lua_cjson.c`

A table is the list of its entries; in what order `lua_next` would give them is not said. `lua_checkstack`
always finds room.

* `jsonProcessValue` : a value, whose tables may be nested to a depth.
* `jsonDecode` : the call.
-/

namespace OsdCore

namespace Json

/-- `lua_rawset`, of a value that is not nil. -/
def rawset : List (Key × Value) → Key → Value → List (Key × Value)
  | [], key, v => [(key, v)]
  | e :: entries, key, v => if e.1 = key then (key, v) :: entries else e :: rawset entries key v

/-- `arr[i] = value`, and the next `i`. -/
def storeElement (arr : ℕ × List (Key × Value)) (v : Value) : ℕ × List (Key × Value) :=
  (arr.1 + 1, rawset arr.2 (intKey arr.1) v)

/-- The key and the value are set. -/
def storeMember (object : List (Key × Value)) (member : Bytes × Value) : List (Key × Value) :=
  rawset object (.string member.1) member.2

/-- The error of `json_decode_descend`. -/
def decodeNesting (json : Parse) (ptr : Bytes) : Stop :=
  .raise (.decodeNesting (json.cfg.decodeMaxDepth + 1) (json.index ptr))

/-- What `json_decode` begins with. `strbuf_new` makes `tmp` one byte longer than the text, or as long as the
default. -/
def Parse.init (cfg : Config) (data : Bytes) : Parse :=
  ⟨cfg, data.length, if data.length = 0 then 1023 else data.length + 1⟩

end Json

end OsdCore
