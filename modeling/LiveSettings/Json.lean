import LiveSettings.Binary.Decimal
import LiveSettings.KeyMap

/-!
# JSON documents

A document keeps its members in the order and number in which they are written. A part that is well formed
but stands for no value (a number beyond all doubles, half of a surrogate pair) is `unreadable`; it may
occur where a reader ignores it. `value?` gives the value of a document: members sorted, the last of equal
names, nothing unreadable, and not nested too deep.
-/

namespace LiveSettings

/-- A number: an integer of at most 64 bits, or a number of a binary format. What is read is never `single`. -/
inductive Json.Number where
  | integer (n : Int)
  | double (x : Binary64)
  | single (x : Binary32)
  deriving DecidableEq, Repr

namespace Json.Number

instance : Inhabited Number := ⟨.integer 0⟩

/-- The nearest number of a binary format. A number that is no integer is a double first. -/
def toBinary (f : BinaryFormat) : Number → Binary f
  | .integer n => .ofInt f n
  | .double x => x.convert f
  | .single x => x.convert f

/-- Equality of numbers; numbers of two kinds differ. -/
def equal : Number → Number → Bool
  | .integer m, .integer n => m == n
  | .double x, .double y => x.equal y
  | .single x, .single y => x.equal y
  | _, _ => false

end Json.Number

/-- A document. -/
inductive Json where
  | null
  | bool (b : Bool)
  | number (x : Json.Number)
  | text (s : String)
  | array (items : List Json)
  | object (members : List (String × Json))
  | unreadable
  deriving Repr, Inhabited

namespace Json

/-- Values nest less deep than this. -/
def depthLimit : Nat := 128

mutual

/-- How many containers lie around the innermost value. -/
def depth : Json → Nat
  | .array items => itemsDepth items + 1
  | .object members => membersDepth members + 1
  | _ => 0

def itemsDepth : List Json → Nat
  | [] => 0
  | j :: js => max (depth j) (itemsDepth js)

def membersDepth : List (String × Json) → Nat
  | [] => 0
  | (_, j) :: ms => max (depth j) (membersDepth ms)

end

mutual

/-- The document with members sorted and the last of equal names, if it has no unreadable part. -/
def sorted? : Json → Option Json
  | .unreadable => none
  | .array items => (sortedItems? items).map .array
  | .object members => (sortedMembers? members).map fun ms => .object (KeyMap.ofList ms).entries
  | j => some j

def sortedItems? : List Json → Option (List Json)
  | [] => some []
  | j :: js =>
    match sorted? j, sortedItems? js with
    | some j, some js => some (j :: js)
    | _, _ => none

def sortedMembers? : List (String × Json) → Option (List (String × Json))
  | [] => some []
  | (k, j) :: ms =>
    match sorted? j, sortedMembers? ms with
    | some j, some ms => some ((k, j) :: ms)
    | _, _ => none

end

/-- Whether a document stands for a value when it lies inside a number of containers. -/
def isValueWithin (around : Nat) (j : Json) : Bool := around + j.depth < depthLimit && j.sorted?.isSome

/-- The value for which a document stands. -/
def value? (j : Json) : Option Json := if j.depth < depthLimit then j.sorted? else none

mutual

/-- Equality of values. -/
def equal : Json → Json → Bool
  | .null, .null => true
  | .bool a, .bool b => a == b
  | .number x, .number y => x.equal y
  | .text s, .text t => s == t
  | .array as, .array bs => equalItems as bs
  | .object as, .object bs => equalMembers as bs
  | _, _ => false

def equalItems : List Json → List Json → Bool
  | [], [] => true
  | a :: as, b :: bs => equal a b && equalItems as bs
  | _, _ => false

def equalMembers : List (String × Json) → List (String × Json) → Bool
  | [], [] => true
  | (k, a) :: as, (l, b) :: bs => k == l && equal a b && equalMembers as bs
  | _, _ => false

end

/-! ## Queries -/

/-- The values of the members with a name. -/
def valuesOf (name : String) (members : List (String × Json)) : List Json :=
  (members.filter (·.1 == name)).map (·.2)

/-- The member of an object with a name, the last if several have it. -/
def member? (j : Json) (name : String) : Option Json :=
  match j with
  | .object members => (valuesOf name members).getLast?
  | _ => none

def text? : Json → Option String
  | .text s => some s
  | _ => none

def bool? : Json → Option Bool
  | .bool b => some b
  | _ => none

/-- An integer; a double is none, even if it is whole. -/
def integer? : Json → Option Int
  | .number (.integer n) => some n
  | _ => none

def items? : Json → Option (List Json)
  | .array items => some items
  | _ => none

/-- A text of one character. -/
def char? : Json → Option Char
  | .text s =>
    match s.toList with
    | [c] => some c
    | _ => none
  | _ => none

def isNull : Json → Bool
  | .null => true
  | _ => false

def ofNat (n : Nat) : Json := .number (.integer n)

/-- Null, or the value. -/
def ofOption (f : α → Json) : Option α → Json
  | none => .null
  | some a => f a

end Json

end LiveSettings
