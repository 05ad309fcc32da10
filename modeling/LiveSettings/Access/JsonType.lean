import LiveSettings.Access.DocumentType
import LiveSettings.Value.Codec

/-!
# Documents of common types

The types that settings mostly have when they are kept as documents: plain ones, lists, optional values, pairs,
maps, and a record as user code declares it.

Results: `encode?_byteTable` (a map whose keys are no texts cannot be written unless it is empty).
-/

namespace LiveSettings

/-- The size of a window and whether it fills the screen: a record as user code declares it. -/
structure Window where
  width : UInt32
  height : UInt32
  maximized : Bool
  deriving DecidableEq, Repr, Inhabited

/-- A map from byte strings. -/
abbrev ByteTable := List (List UInt8 × Int32)

namespace ByteTable

/-- Whether one byte string comes before another. -/
def before : List UInt8 → List UInt8 → Bool
  | _, [] => false
  | [], _ :: _ => true
  | a :: as, b :: bs => a < b || (a == b && before as bs)

/-- Puts an entry in its place, over an entry with the same key. -/
def insert (key : List UInt8) (value : Int32) : ByteTable → ByteTable
  | [] => [(key, value)]
  | (k, v) :: rest =>
    if before key k then (key, value) :: (k, v) :: rest
    else if k == key then (key, value) :: rest
    else (k, v) :: insert key value rest

def ofList (entries : List (List UInt8 × Int32)) : ByteTable :=
  entries.foldl (fun t (k, v) => insert k v t) []

end ByteTable

/-- The code of a common type. -/
inductive JsonType where
  | bool
  | u8
  | i32
  | i64
  | u64
  | f32
  | f64
  | char
  | string
  | point
  | window
  | value
  | byteTable
  | list (item : JsonType)
  | option (inner : JsonType)
  | pair (first second : JsonType)
  | map (value : JsonType)
  deriving DecidableEq, Repr, Inhabited

namespace JsonType

/-- The name of a type as a declaration spells it. -/
def name : JsonType → String
  | .bool => "bool"
  | .u8 => "u8"
  | .i32 => "i32"
  | .i64 => "i64"
  | .u64 => "u64"
  | .f32 => "f32"
  | .f64 => "f64"
  | .char => "char"
  | .string => "String"
  | .point => "Point"
  | .window => "Window"
  | .value => "Value"
  | .byteTable => "BTreeMap<Vec<u8>, i32>"
  | .list t => "Vec<" ++ t.name ++ ">"
  | .option t => "Option<" ++ t.name ++ ">"
  | .pair t u => "(" ++ t.name ++ ", " ++ u.name ++ ")"
  | .map t => "BTreeMap<String, " ++ t.name ++ ">"

/-- The values of a type. -/
abbrev Carrier : JsonType → Type
  | .bool => Bool
  | .u8 => UInt8
  | .i32 => Int32
  | .i64 => Int64
  | .u64 => UInt64
  | .f32 => Binary32
  | .f64 => Binary64
  | .char => Char
  | .string => String
  | .point => Point
  | .window => Window
  | .value => Json
  | .byteTable => ByteTable
  | .list t => List t.Carrier
  | .option t => Option t.Carrier
  | .pair t u => t.Carrier × u.Carrier
  | .map t => List (String × t.Carrier)

/-! ## Writing -/

/-- Writes each item, if all can be written. -/
def encodeAll (f : α → Option Json) : List α → Option (List Json)
  | [] => some []
  | a :: as =>
    match f a, encodeAll f as with
    | some j, some js => some (j :: js)
    | _, _ => none

/-- Writes each member, if all can be written. -/
def encodeMembers (f : α → Option Json) : List (String × α) → Option (List (String × Json))
  | [] => some []
  | (k, a) :: as =>
    match f a, encodeMembers f as with
    | some j, some js => some ((k, j) :: js)
    | _, _ => none

/-- The document of a value; absent if it cannot be written. A number that is none is null. -/
def encode? : (t : JsonType) → t.Carrier → Option Json
  | .bool, a => some (.bool a)
  | .u8, a => some (.number (.integer (a : UInt8).toNat))
  | .i32, a => some (.number (.integer (a : Int32).toInt))
  | .i64, a => some (.number (.integer (a : Int64).toInt))
  | .u64, a => some (.number (.integer (a : UInt64).toNat))
  | .f32, a => some (if Binary.isFinite a then .number (.single a) else .null)
  | .f64, a => some (if Binary.isFinite a then .number (.double a) else .null)
  | .char, a => some (.text (String.ofList [a]))
  | .string, a => some (.text a)
  | .point, a => some (Point.toJson a)
  | .window, a =>
    some (.object [("width", .number (.integer (a : Window).width.toNat)),
      ("height", .number (.integer (a : Window).height.toNat)), ("maximized", .bool (a : Window).maximized)])
  | .value, a => some a
  | .byteTable, a => if (a : ByteTable).isEmpty then some (.object []) else none
  | .list t, as => (encodeAll t.encode? as).map .array
  | .option t, a => (a : Option t.Carrier).elim (some .null) t.encode?
  | .pair t u, a =>
    match t.encode? a.1, u.encode? a.2 with
    | some i, some j => some (.array [i, j])
    | _, _ => none
  | .map t, as => (encodeMembers t.encode? as).map .object

/-! ## Reading -/

/-- Reads each item, if all can be read. -/
def decodeAll (f : Json → Option α) : List Json → Option (List α)
  | [] => some []
  | j :: js =>
    match f j, decodeAll f js with
    | some a, some as => some (a :: as)
    | _, _ => none

/-- Reads each member, if all can be read. -/
def decodeMembers (f : Json → Option α) : List (String × Json) → Option (List (String × α))
  | [] => some []
  | (k, j) :: js =>
    match f j, decodeMembers f js with
    | some a, some as => some ((k, a) :: as)
    | _, _ => none

/-- A number of a binary format. -/
def number? (f : BinaryFormat) : Json → Option (Binary f)
  | .number n => some (n.toBinary f)
  | _ => none

/-- The value that a sorted document stands for. -/
def decode? : (t : JsonType) → Json → Option t.Carrier
  | .bool, j => j.bool?
  | .u8, j => (NativeKind.intWithin? 0 (UInt8.size - 1) j).map fun n => UInt8.ofNat n.toNat
  | .i32, j => NativeKind.decode? .i32 j
  | .i64, j => NativeKind.decode? .i64 j
  | .u64, j => NativeKind.decode? .u64 j
  | .f32, j => number? .single j
  | .f64, j => number? .double j
  | .char, j => j.char?
  | .string, j => j.text?
  | .point, j => Point.ofJson? j
  | .window, j =>
    match j.fields? ["width", "height", "maximized"] with
    | some [w, h, m] =>
      match NativeKind.decode? .u32 w, NativeKind.decode? .u32 h, m.bool? with
      | some w, some h, some m => some ⟨w, h, m⟩
      | _, _, _ => none
    | _ => none
  | .value, j => some j
  | .byteTable, j =>
    match j with
    | .object [] => some []
    | _ => none
  | .list t, j => j.items?.bind (decodeAll t.decode?)
  | .option t, j => if j.isNull then some none else (t.decode? j).map some
  | .pair t u, j =>
    match j with
    | .array [i, j] =>
      match t.decode? i, u.decode? j with
      | some a, some b => some (a, b)
      | _, _ => none
    | _ => none
  | .map t, j =>
    match j with
    | .object members => decodeMembers t.decode? members
    | _ => none

/-! ## Equality -/

/-- Equality item by item. -/
def equalAll (f : α → α → Bool) : List α → List α → Bool
  | [], [] => true
  | a :: as, b :: bs => f a b && equalAll f as bs
  | _, _ => false

/-- Equality member by member. -/
def equalMembers (f : α → α → Bool) : List (String × α) → List (String × α) → Bool
  | [], [] => true
  | (k, a) :: as, (l, b) :: bs => k == l && f a b && equalMembers f as bs
  | _, _ => false

/-- The plain equality of a type, in which a number that is none differs from itself. -/
def equal : (t : JsonType) → t.Carrier → t.Carrier → Bool
  | .bool, a, b => (a : Bool) == b
  | .u8, a, b => (a : UInt8) == b
  | .i32, a, b => (a : Int32) == b
  | .i64, a, b => (a : Int64) == b
  | .u64, a, b => (a : UInt64) == b
  | .f32, a, b => Binary.equal a b
  | .f64, a, b => Binary.equal a b
  | .char, a, b => (a : Char) == b
  | .string, a, b => (a : String) == b
  | .point, a, b => Point.equal a b
  | .window, a, b => (a : Window) == b
  | .value, a, b => Json.equal a b
  | .byteTable, a, b => (a : ByteTable) == b
  | .list t, as, bs => equalAll t.equal as bs
  | .option t, a, b =>
    match (a : Option t.Carrier), (b : Option t.Carrier) with
    | some a, some b => t.equal a b
    | none, none => true
    | _, _ => false
  | .pair t u, a, b => t.equal a.1 b.1 && u.equal a.2 b.2
  | .map t, as, bs => equalMembers t.equal as bs

instance : DocumentType JsonType := ⟨Carrier, encode?, decode?, equal⟩

/-! ## Laws -/

theorem encode?_byteTable (t : ByteTable) : encode? .byteTable t = none ↔ t ≠ [] := by
  cases t <;> simp [encode?]

end JsonType

end LiveSettings
