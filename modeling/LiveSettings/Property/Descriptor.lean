import LiveSettings.Journal
import LiveSettings.Native

/-!
# The type of a property

A field's type, with one layer of `Option` taken off. Types that name no value of their own, such as `_`,
describe no property.

Results: `ofTy?_paren` (parentheses around the type do not count).
-/

namespace LiveSettings

namespace Ty

/-- Whether the type names values that can be kept. -/
def isDescribable : Ty → Bool
  | .shaped .inferred _ | .shaped .someImplementor _ | .shaped .macroCall _ | .shaped .never _ |
    .shaped .traitObject _ | .shaped .bound _ | .shaped .verbatim _ => false
  | _ => true

/-- The accepted paths of `Option`. -/
def optionPatterns : List PathPattern :=
  [.mk ["std", "option", "Option"] [] false, .mk ["core", "option", "Option"] [] false]

/-- The segments of a path, the last without its arguments. -/
def bareLast : List Segment → List Segment
  | [] => []
  | [s] => [.mk s.name .none]
  | s :: ss => s :: bareLast ss

/-- The type inside an `Option`. -/
def optionInner? : Ty → Option Ty
  | .path absolute segments =>
    match PathPattern.lastArgs segments with
    | .angle _ [.ty inner] _ =>
      if optionPatterns.any (·.Matches (.path absolute (bareLast segments))) then some inner else none
    | _ => none
  | _ => none

end Ty

/-- The type of a property: as declared, and without its layer of `Option`. -/
structure Descriptor where
  declared : Ty
  inner : Ty
  nullable : Bool
  deriving Inhabited

namespace Descriptor

/-- The descriptor of a field's type, if the type describes a value. -/
def ofTy? (t : Ty) : Option Descriptor :=
  let t := t.peel
  if t.isDescribable then
    match t.optionInner? with
    | some inner =>
      if inner.peel.isDescribable then some ⟨t, inner.peel, true⟩ else none
    | none => some ⟨t, t, false⟩
  else none

theorem ofTy?_paren (t : Ty) : ofTy? (.paren t) = ofTy? t := by
  unfold ofTy?
  rw [Ty.peel_paren]

/-- The declared type as one text without the blanks around path marks, brackets and commas. -/
def qualifiedName (d : Descriptor) : String :=
  [(" :: ", "::"), (" <", "<"), ("< ", "<"), (" >", ">"), (" ,", ",")].foldl
    (fun text p => text.replace p.1 p.2) (Token.render d.declared.tokens)

/-- The native type that the property is of. -/
def native? (d : Descriptor) : Option NativeKind := NativeKind.lookup? d.inner

/-- Native types are kept as they are. -/
def strategy (d : Descriptor) : Strategy := if d.native?.isSome then .native else .json

/-- What choosing the strategy reports. -/
def journal (d : Descriptor) : Journal :=
  match d.native? with
  | some k => [⟨.trace, .natives, "native setting", [("ty", d.qualifiedName), ("native", k.typeName)]⟩]
  | none => []

end Descriptor

end LiveSettings
