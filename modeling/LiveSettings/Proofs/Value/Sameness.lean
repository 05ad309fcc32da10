import Mathlib.Data.List.Forall2
import LiveSettings.Access

/-!
# When setting values are the same

Two comparisons decide whether an assignment changes a setting: one of whole setting values, which singles out
pairs of floating point kinds, and one for each native type, some of which replace plain equality. Both are
described here by the parts of a value, which are single numbers, texts and the like: the same kind, and parts
that are pairwise equal or both no number.

Plain equality is the finer relation. It is symmetric and transitive, but reflexive only where no part is a
number that is none.

Results:
* `same_iff_parts`, `equal_iff_parts`: both relations of values, part by part.
* `equal_iff_same`: equal values are the same ones without a part that is no number, so `equal_self_iff`.
* `comparisons_agree`: sameness is an equivalence, decided by kind and parts, and the comparison of each native
  type and of its optional values is the one of the wrapped values; unwrapping inverts wrapping and refuses
  every other kind.
-/

namespace LiveSettings

/-- A number that equals something is a number. -/
theorem Binary.ne_nan_of_equal {f : BinaryFormat} {x y : Binary f} (h : x.equal y = true) : x ≠ .nan := by
  rintro rfl
  cases y <;> simp [Binary.equal] at h

namespace NativeKind

open SettingValue in
/-- What the values of a kind are compared by. A point, a size and a rectangle are made of single precision
numbers; any other value is a part by itself. -/
def parts : (k : NativeKind) → k.Carrier → List SettingValue
  | .point, p => [toValue (k := .f32) (p : Point).x, toValue (k := .f32) (p : Point).y]
  | .size, s => [toValue (k := .f32) (s : Size).width, toValue (k := .f32) (s : Size).height]
  | .rect, r =>
    [toValue (k := .f32) (r : Rect).x, toValue (k := .f32) (r : Rect).y, toValue (k := .f32) (r : Rect).width,
      toValue (k := .f32) (r : Rect).height]
  | _, x => [toValue x]

/-- Whether a value is the floating point number that is none. -/
def isNan : (k : NativeKind) → k.Carrier → Bool
  | .f32, x => (x : Binary32) == .nan
  | .f64, x => (x : Binary64) == .nan
  | _, _ => false

end NativeKind

namespace SettingValue

def parts (v : SettingValue) : List SettingValue := v.kind.parts v.content

def isNan (v : SettingValue) : Bool := v.kind.isNan v.content

/-- Parts match if they are equal or both no number. -/
def PartsMatch (p q : SettingValue) : Prop := p.equal q = true ∨ p.isNan = true ∧ q.isNan = true

@[simp]
theorem parts_toValue {k : NativeKind} (x : k.Carrier) : (toValue x).parts = k.parts x := rfl

@[simp]
theorem isNan_toValue {k : NativeKind} (x : k.Carrier) : (toValue x).isNan = k.isNan x := rfl

@[simp]
theorem partsMatch_toValue {k : NativeKind} (x y : k.Carrier) :
    PartsMatch (toValue x) (toValue y) ↔ k.equal x y = true ∨ k.isNan x = true ∧ k.isNan y = true := by
  simp [PartsMatch]

end SettingValue

/-! ## Values of one kind -/

namespace NativeKind

open SettingValue

/-- The comparison of a kind is the one of its parts. A kind whose comparison is plain equality is a part by
itself and never a number that is none. -/
theorem same_iff_parts (k : NativeKind) (x y : k.Carrier) :
    k.same x y = true ↔ List.Forall₂ PartsMatch (k.parts x) (k.parts y) := by
  cases k
  case f32 | f64 => simp [same, parts, equal, isNan, Binary.same]
  case point => simp [same, parts, equal, isNan, Point.same, Binary.same]
  case size => simp [same, parts, equal, isNan, Size.same, Binary.same]
  case rect =>
    simp [same, parts, equal, isNan, Rect.same, Rect.origin, Rect.size, Point.same, Size.same, Binary.same,
      and_assoc]
  all_goals simp [same, parts, isNan]

theorem equal_iff_parts (k : NativeKind) (x y : k.Carrier) :
    k.equal x y = true ↔ List.Forall₂ (fun p q => p.equal q = true) (k.parts x) (k.parts y) := by
  cases k
  case point => simp [equal, parts, Point.equal]
  case size => simp [equal, parts, Size.equal]
  case rect => simp [equal, parts, Rect.equal, Rect.origin, Rect.size, Point.equal, Size.equal, and_assoc]
  all_goals simp [parts]

end NativeKind

namespace SettingValue

/-! ## All values -/

theorem isNan_of_equal {p q : SettingValue} (h : p.equal q = true) : p.isNan = false := by
  obtain ⟨k, x, y, rfl, rfl⟩ := exists_of_kind_eq (kind_eq_of_equal h)
  rw [equal_toValue] at h
  cases k
  case f32 | f64 => exact beq_eq_false_iff_ne.2 (Binary.ne_nan_of_equal h)
  all_goals rfl

theorem equal_iff_partsMatch (p q : SettingValue) :
    p.equal q = true ↔ p.isNan = false ∧ PartsMatch p q := by
  constructor
  · exact fun h => ⟨isNan_of_equal h, .inl h⟩
  · rintro ⟨number, h | ⟨none, -⟩⟩
    · exact h
    · simp [number] at none

/-- A relation of values of one kind, which compares their parts, is a relation of kinds and parts. -/
theorem related_iff_parts {r s : SettingValue → SettingValue → Prop} (kinds : ∀ v w, r v w → v.kind = w.kind)
    (ofKind : ∀ (k : NativeKind) (x y : k.Carrier),
      r (toValue x) (toValue y) ↔ List.Forall₂ s (k.parts x) (k.parts y)) (v w : SettingValue) :
    r v w ↔ v.kind = w.kind ∧ List.Forall₂ s v.parts w.parts := by
  constructor
  · intro h
    obtain ⟨k, x, y, rfl, rfl⟩ := exists_of_kind_eq (kinds v w h)
    exact ⟨rfl, (ofKind k x y).1 h⟩
  · rintro ⟨oneKind, h⟩
    obtain ⟨k, x, y, rfl, rfl⟩ := exists_of_kind_eq oneKind
    exact (ofKind k x y).2 h

theorem same_iff_parts (v w : SettingValue) :
    v.same w = true ↔ v.kind = w.kind ∧ List.Forall₂ PartsMatch v.parts w.parts :=
  related_iff_parts (fun _ _ => kind_eq_of_same) (fun k x y => by rw [same_toValue, k.same_iff_parts]) v w

-- the parts alone would not tell the formats apart
example : PartsMatch ⟨.f32, .nan⟩ ⟨.f64, .nan⟩ ∧ same ⟨.f32, .nan⟩ ⟨.f64, .nan⟩ = false :=
  ⟨.inr ⟨rfl, rfl⟩, rfl⟩

theorem equal_iff_parts (v w : SettingValue) :
    v.equal w = true ↔ v.kind = w.kind ∧ List.Forall₂ (fun p q => p.equal q = true) v.parts w.parts :=
  related_iff_parts (fun _ _ => kind_eq_of_equal) (fun k x y => by rw [equal_toValue, k.equal_iff_parts]) v w

/-- Plain equality misses only the values with a part that is no number: it holds of the same values, if none of
their parts is one. -/
theorem equal_iff_same (v w : SettingValue) :
    v.equal w = true ↔ v.same w = true ∧ ∀ p ∈ v.parts, p.isNan = false := by
  rw [equal_iff_parts, same_iff_parts]
  simp only [equal_iff_partsMatch, List.forall₂_and_left]
  rw [and_assoc, and_comm (b := List.Forall₂ _ _ _)]

theorem equal_self_iff (v : SettingValue) : v.equal v = true ↔ ∀ p ∈ v.parts, p.isNan = false := by
  simp [equal_iff_same, same_refl]

theorem same_equivalence : Equivalence fun v w : SettingValue => v.same w = true :=
  ⟨same_refl, same_symm, same_trans⟩

/-! ## Both comparisons -/

theorem ofValue?_eq_some_iff {k : NativeKind} {v : SettingValue} {x : k.Carrier} :
    ofValue? k v = some x ↔ v = toValue x :=
  ⟨toValue_of_ofValue?, fun h => h ▸ ofValue?_toValue x⟩

theorem ofValue?_eq_none_iff {k : NativeKind} {v : SettingValue} : ofValue? k v = none ↔ v.kind ≠ k := by
  refine ⟨fun h e => ?_, ofValue?_eq_none⟩
  obtain ⟨l, x⟩ := v
  subst e
  simp [ofValue?] at h

variable {D : Type} [DocumentType D]

/-- The comparison of optional values of a kind lifts the one of the wrapped values. -/
theorem unchanged_optional_iff (k : NativeKind) (x y : Option k.Carrier) :
    (SettingType.optionalNative k : SettingType D).unchanged x y = true ↔
      Option.Rel (fun x y : k.Carrier => (toValue x).same (toValue y) = true) x y := by
  cases x <;> cases y <;> simp [SettingType.unchanged]

theorem comparisons_agree :
    Equivalence (fun v w : SettingValue => v.same w = true) ∧
    (∀ v w : SettingValue, v.same w = true ↔ v.kind = w.kind ∧ List.Forall₂ PartsMatch v.parts w.parts) ∧
    ∀ k : NativeKind,
      (∀ x y : k.Carrier, (SettingType.native k : SettingType D).unchanged x y = true ↔
        (toValue x).same (toValue y) = true) ∧
      (∀ x y : Option k.Carrier, (SettingType.optionalNative k : SettingType D).unchanged x y = true ↔
        Option.Rel (fun x y : k.Carrier => (toValue x).same (toValue y) = true) x y) ∧
      (∀ (v : SettingValue) (x : k.Carrier), ofValue? k v = some x ↔ v = toValue x) ∧
      ∀ v : SettingValue, ofValue? k v = none ↔ v.kind ≠ k := by
  refine ⟨same_equivalence, same_iff_parts, fun k => ⟨fun x y => ?_, unchanged_optional_iff k, ?_, ?_⟩⟩
  · rw [same_toValue, SettingType.unchanged]
  · exact fun _ _ => ofValue?_eq_some_iff
  · exact fun _ => ofValue?_eq_none_iff

end SettingValue

end LiveSettings
