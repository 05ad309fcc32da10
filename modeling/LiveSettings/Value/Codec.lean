import LiveSettings.Json.Reader
import LiveSettings.Json.Text
import LiveSettings.Value

/-!
# Setting values as documents

A setting value is an object that names its kind and holds its content, in either order and possibly among
other members, or an array of the two. A number that JSON cannot write is written as a text.

What stands before the kind has to be readable in full; what stands behind it, and members with other names,
are read only as far as the kind needs them.

Results: `ofJson?_swap` (the order of the two members does not count for readable contents).
-/

namespace LiveSettings

/-! ## Fields -/

/-- The values of the fields of a record: each name exactly once, among other members; or an array with one
value for each name. -/
def Json.fields? (names : List String) : Json → Option (List Json)
  | .array items => if items.length == names.length then some items else none
  | .object members =>
    names.mapM fun name =>
      match Json.valuesOf name members with
      | [j] => some j
      | _ => none
  | _ => none

/-- The values of the fields of a record that has no other members. -/
def Json.onlyFields? (names : List String) (j : Json) : Option (List Json) :=
  match j with
  | .object members => if members.all (names.contains ·.1) then j.fields? names else none
  | _ => j.fields? names

/-! ## Numbers -/

/-- A number, or as a text one that is none or infinite. -/
def Binary.toJson32 (x : Binary32) : Json := if x.isFinite then .number (.single x) else .text x.display

def Binary.toJson64 (x : Binary64) : Json := if x.isFinite then .number (.double x) else .text x.display

/-- Any number, or a text that spells one. -/
def Binary.ofJson? (f : BinaryFormat) : Json → Option (Binary f)
  | .number n => some (n.toBinary f)
  | .text s => Binary.ofText? f s
  | _ => none

/-! ## Geometry -/

namespace Point

def toJson (p : Point) : Json := .object [("x", Binary.toJson32 p.x), ("y", Binary.toJson32 p.y)]

def ofJson? (j : Json) : Option Point := do
  match ← j.fields? ["x", "y"] with
  | [x, y] => return ⟨← Binary.ofJson? _ x, ← Binary.ofJson? _ y⟩
  | _ => none

end Point

namespace Size

def toJson (s : Size) : Json :=
  .object [("width", Binary.toJson32 s.width), ("height", Binary.toJson32 s.height)]

def ofJson? (j : Json) : Option Size := do
  match ← j.fields? ["width", "height"] with
  | [w, h] => return ⟨← Binary.ofJson? _ w, ← Binary.ofJson? _ h⟩
  | _ => none

end Size

namespace Rect

def toJson (r : Rect) : Json :=
  .object [("x", Binary.toJson32 r.x), ("y", Binary.toJson32 r.y), ("width", Binary.toJson32 r.width),
    ("height", Binary.toJson32 r.height)]

def ofJson? (j : Json) : Option Rect := do
  match ← j.fields? ["x", "y", "width", "height"] with
  | [x, y, w, h] =>
    return ⟨← Binary.ofJson? _ x, ← Binary.ofJson? _ y, ← Binary.ofJson? _ w, ← Binary.ofJson? _ h⟩
  | _ => none

end Rect

namespace Duration

def toJson (d : Duration) : Json :=
  .object [("secs", .number (.integer d.seconds.toNat)), ("nanos", .number (.integer d.nanos.val))]

/-- An integer from zero up to a bound. -/
def natBelow? (bound : Nat) (j : Json) : Option Nat :=
  j.integer?.bind fun n => if 0 ≤ n && n < bound then some n.toNat else none

def ofJson? (j : Json) : Option Duration := do
  match ← j.onlyFields? ["secs", "nanos"] with
  | [s, n] => ofParts? (← natBelow? UInt64.size s) (← natBelow? UInt32.size n)
  | _ => none

end Duration

/-! ## Contents by kind -/

namespace NativeKind

/-- The name of the kind in a document. -/
def tag : NativeKind → String
  | .i16 => "I16"
  | .u16 => "U16"
  | .i32 => "I32"
  | .u32 => "U32"
  | .i64 => "I64"
  | .u64 => "U64"
  | .f32 => "F32"
  | .f64 => "F64"
  | .bool => "Bool"
  | .char => "Char"
  | .string => "String"
  | .dateTime => "DateTime"
  | .duration => "Duration"
  | .uuid => "Uuid"
  | .point => "Point"
  | .size => "Size"
  | .rect => "Rect"

def ofTag? (s : String) : Option NativeKind := all.find? (·.tag == s)

theorem ofTag?_tag (k : NativeKind) : ofTag? k.tag = some k := by cases k <;> decide

/-- A content as a document. -/
def encode : (k : NativeKind) → k.Carrier → Json
  | .i16, a => .number (.integer (a : Int16).toInt)
  | .u16, a => .number (.integer (a : UInt16).toNat)
  | .i32, a => .number (.integer (a : Int32).toInt)
  | .u32, a => .number (.integer (a : UInt32).toNat)
  | .i64, a => .number (.integer (a : Int64).toInt)
  | .u64, a => .number (.integer (a : UInt64).toNat)
  | .f32, a => Binary.toJson32 a
  | .f64, a => Binary.toJson64 a
  | .bool, a => .bool a
  | .char, a => .text (String.ofList [a])
  | .string, a => .text a
  | .dateTime, a => .text (DateTime.text a)
  | .duration, a => Duration.toJson a
  | .uuid, a => .text (Uuid.text a)
  | .point, a => Point.toJson a
  | .size, a => Size.toJson a
  | .rect, a => Rect.toJson a

/-- An integer between two bounds. -/
def intWithin? (low high : Int) (j : Json) : Option Int :=
  j.integer?.bind fun n => if low ≤ n && n ≤ high then some n else none

/-- The content that a document stands for. -/
def decode? : (k : NativeKind) → Json → Option k.Carrier
  | .i16, j => (intWithin? Int16.minValue.toInt Int16.maxValue.toInt j).map Int16.ofInt
  | .u16, j => (intWithin? 0 (UInt16.size - 1) j).map fun n => UInt16.ofNat n.toNat
  | .i32, j => (intWithin? Int32.minValue.toInt Int32.maxValue.toInt j).map Int32.ofInt
  | .u32, j => (intWithin? 0 (UInt32.size - 1) j).map fun n => UInt32.ofNat n.toNat
  | .i64, j => (intWithin? Int64.minValue.toInt Int64.maxValue.toInt j).map Int64.ofInt
  | .u64, j => (intWithin? 0 (UInt64.size - 1) j).map fun n => UInt64.ofNat n.toNat
  | .f32, j => Binary.ofJson? .single j
  | .f64, j => Binary.ofJson? .double j
  | .bool, j => j.bool?
  | .char, j => j.char?
  | .string, j => j.text?
  | .dateTime, j => j.text?.bind DateTime.ofText?
  | .duration, j => Duration.ofJson? j
  | .uuid, j => j.text?.bind Uuid.ofText?
  | .point, j => Point.ofJson? j
  | .size, j => Size.ofJson? j
  | .rect, j => Rect.ofJson? j

end NativeKind

/-! ## Whole values -/

namespace SettingValue

def toJson (v : SettingValue) : Json :=
  .object [("type", .text v.kind.tag), ("value", v.kind.encode v.content)]

/-- The compact text of a value. -/
def render (v : SettingValue) : String := v.toJson.render

/-- The kind that a document names: its tag, alone or as the name of an empty member. -/
def kindOf? : Json → Option NativeKind
  | .text s => NativeKind.ofTag? s
  | .object [(s, .null)] => NativeKind.ofTag? s
  | _ => none

/-- The value of a kind with a content. -/
def ofParts? (kind content : Json) : Option SettingValue := do
  let k ← kindOf? kind
  return toValue (← k.decode? content)

/-- The members that count, in their order. -/
def relevant (members : List (String × Json)) : List (String × Json) :=
  members.filter fun m => m.1 == "type" || m.1 == "value"

/-- The value for which a document inside some containers stands. -/
def ofJson? (around : Nat) : Json → Option SettingValue
  | .array [kind, content] => ofParts? kind content
  | .object members =>
    match relevant members with
    | [("type", kind), ("value", content)] => ofParts? kind content
    | [("value", content), ("type", kind)] =>
      if content.isValueWithin (around + 1) then ofParts? kind content else none
    | _ => none
  | _ => none

/-- The value for which a text stands. -/
def ofText? (s : String) : Option SettingValue := (Json.ofText? s).bind (ofJson? 0)

theorem ofJson?_swap (around : Nat) (kind content : Json) (h : content.isValueWithin (around + 1) = true) :
    ofJson? around (.object [("value", content), ("type", kind)]) =
      ofJson? around (.object [("type", kind), ("value", content)]) := by
  simp [ofJson?, relevant, h]

end SettingValue

end LiveSettings
