import LiveSettings.Json

/-!
# Types kept as documents

The values that a store keeps as the text of a document are of types of user code. What is asked of such a type
is how a value is written as a document, how one is read from a document, and when two values are equal. Nothing
ties the three together: a value may be written without some of its parts, a document may be read as another
value than it was written for, and a value may differ from itself.
-/

namespace LiveSettings

/-- Types kept as documents, each of which has a code. -/
class DocumentType (D : Type) where
  /-- The values of a type. -/
  Carrier : D → Type
  /-- The document of a value; absent if it cannot be written. -/
  encode? : (t : D) → Carrier t → Option Json
  /-- The value that a sorted document stands for. -/
  decode? : (t : D) → Json → Option (Carrier t)
  /-- The plain equality of the type. -/
  equal : (t : D) → Carrier t → Carrier t → Bool

namespace DocumentType

variable {D : Type} [DocumentType D]

/-- The document of a value that may be absent. -/
def encodeOptional? (t : D) (x : Option (Carrier t)) : Option Json := x.elim (some .null) (encode? t)

/-- The plain equality of values that may be absent. -/
def equalOptional (t : D) : Option (Carrier t) → Option (Carrier t) → Bool
  | some x, some y => equal t x y
  | none, none => true
  | _, _ => false

end DocumentType

end LiveSettings
