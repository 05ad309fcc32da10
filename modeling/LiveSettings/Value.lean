import LiveSettings.Native
import LiveSettings.Text.Escape
import LiveSettings.Value.DateTime
import LiveSettings.Value.Duration
import LiveSettings.Value.Geometry
import LiveSettings.Value.Uuid

/-!
# Setting values

What a store holds: a native kind and a value of that kind. Typed access is by the kind, so a value of one
kind is never taken for another.

Results: `ofValue?_toValue` and `toValue_of_ofValue?` (typed access inverts wrapping), `same_toValue`
(comparing wrapped values is comparing the values), and `same` is an equivalence (`same_refl`, `same_symm`,
`same_trans`).
-/

namespace LiveSettings

namespace NativeKind

/-- The values of a kind. -/
abbrev Carrier : NativeKind → Type
  | .i16 => Int16
  | .u16 => UInt16
  | .i32 => Int32
  | .u32 => UInt32
  | .i64 => Int64
  | .u64 => UInt64
  | .f32 => Binary32
  | .f64 => Binary64
  | .bool => Bool
  | .char => Char
  | .string => String
  | .dateTime => DateTime
  | .duration => Duration
  | .uuid => Uuid
  | .point => Point
  | .size => Size
  | .rect => Rect

/-- The plain equality of a kind. -/
def equal : (k : NativeKind) → k.Carrier → k.Carrier → Bool
  | .i16, a, b => (a : Int16) == b
  | .u16, a, b => (a : UInt16) == b
  | .i32, a, b => (a : Int32) == b
  | .u32, a, b => (a : UInt32) == b
  | .i64, a, b => (a : Int64) == b
  | .u64, a, b => (a : UInt64) == b
  | .f32, a, b => Binary.equal a b
  | .f64, a, b => Binary.equal a b
  | .bool, a, b => (a : Bool) == b
  | .char, a, b => (a : Char) == b
  | .string, a, b => (a : String) == b
  | .dateTime, a, b => DateTime.same a b
  | .duration, a, b => (a : Duration) == b
  | .uuid, a, b => (a : Uuid) == b
  | .point, a, b => Point.equal a b
  | .size, a, b => Size.equal a b
  | .rect, a, b => Rect.equal a b

/-- Equality as settings: plain equality, except that a part that is no number equals itself. -/
def same : (k : NativeKind) → k.Carrier → k.Carrier → Bool
  | .f32, a, b => Binary.same a b
  | .f64, a, b => Binary.same a b
  | .point, a, b => Point.same a b
  | .size, a, b => Size.same a b
  | .rect, a, b => Rect.same a b
  | k, a, b => k.equal a b

/-- The text of a value for people. -/
def display : (k : NativeKind) → k.Carrier → String
  | .i16, a => toString (a : Int16).toInt
  | .u16, a => toString (a : UInt16).toNat
  | .i32, a => toString (a : Int32).toInt
  | .u32, a => toString (a : UInt32).toNat
  | .i64, a => toString (a : Int64).toInt
  | .u64, a => toString (a : UInt64).toNat
  | .f32, a => Binary.display a
  | .f64, a => Binary.display a
  | .bool, a => if a then "true" else "false"
  | .char, a => String.ofList (['\''] ++ Text.Escape.char '\'' a ++ ['\''])
  | .string, a => Text.Escape.debug a
  | .dateTime, a => DateTime.display a
  | .duration, a => Duration.display a
  | .uuid, a => Uuid.text a
  | .point, a => Point.display a
  | .size, a => Size.display a
  | .rect, a => Rect.display a

end NativeKind

/-- A value of some native kind. -/
structure SettingValue where
  kind : NativeKind
  content : kind.Carrier

namespace SettingValue

/-- A value of a kind, wrapped. -/
def toValue {k : NativeKind} (x : k.Carrier) : SettingValue := ⟨k, x⟩

/-- The value of a kind, if the setting value is of that kind. -/
def ofValue? (k : NativeKind) (v : SettingValue) : Option k.Carrier :=
  if h : v.kind = k then some (h ▸ v.content) else none

/-- A text. -/
def ofString (s : String) : SettingValue := ⟨.string, s⟩

instance : Inhabited SettingValue := ⟨ofString ""⟩

def typeName (v : SettingValue) : String := v.kind.typeName

def display (v : SettingValue) : String := v.kind.display v.content

/-- The text of a value that is one. -/
def text? (v : SettingValue) : Option String := ofValue? .string v

/-- Plain equality. -/
def equal (v w : SettingValue) : Bool := (ofValue? v.kind w).any (v.kind.equal v.content)

/-- Equality as settings. The kinds that hold floating point numbers are told apart here and by the comparison
of each kind. -/
def same (v w : SettingValue) : Bool :=
  match v, w with
  | ⟨.f32, a⟩, ⟨.f32, b⟩ => Binary.same a b
  | ⟨.f64, a⟩, ⟨.f64, b⟩ => Binary.same a b
  | ⟨.point, a⟩, ⟨.point, b⟩ => Point.same a b
  | ⟨.size, a⟩, ⟨.size, b⟩ => Size.same a b
  | ⟨.rect, a⟩, ⟨.rect, b⟩ => Rect.same a b
  | v, w => v.equal w

@[simp]
theorem kind_toValue {k : NativeKind} (x : k.Carrier) : (toValue x).kind = k := rfl

@[simp]
theorem ofValue?_toValue {k : NativeKind} (x : k.Carrier) : ofValue? k (toValue x) = some x := by
  simp [ofValue?, toValue]

theorem toValue_of_ofValue? {k : NativeKind} {v : SettingValue} {x : k.Carrier}
    (h : ofValue? k v = some x) : v = toValue x := by
  obtain ⟨l, y⟩ := v
  by_cases e : l = k
  · subst e
    simp only [ofValue?, dite_true, Option.some.injEq] at h
    simp [toValue, h]
  · simp [ofValue?, e] at h

theorem ofValue?_eq_none {k : NativeKind} {v : SettingValue} (h : v.kind ≠ k) : ofValue? k v = none := by
  simp [ofValue?, h]

@[simp]
theorem equal_toValue {k : NativeKind} (x y : k.Carrier) : (toValue x).equal (toValue y) = k.equal x y := by
  show (ofValue? k (toValue y)).any (k.equal x) = _
  simp

/-- The comparison of whole values takes up the floating point kinds that the comparisons of the kinds take up,
and leaves the others to plain equality as they do. -/
@[simp]
theorem same_toValue {k : NativeKind} (x y : k.Carrier) : (toValue x).same (toValue y) = k.same x y := by
  cases k
  case f32 | f64 | point | size | rect => rfl
  all_goals exact equal_toValue x y

/-- Values of different kinds are not equal. -/
theorem equal_of_kind_ne {v w : SettingValue} (h : v.kind ≠ w.kind) : v.equal w = false := by
  simp [equal, ofValue?_eq_none (Ne.symm h)]

theorem same_of_kind_ne {v w : SettingValue} (h : v.kind ≠ w.kind) : v.same w = false := by
  have differ := equal_of_kind_ne h
  obtain ⟨k, x⟩ := v
  obtain ⟨l, y⟩ := w
  unfold same
  split <;> simp_all

end SettingValue

namespace NativeKind

theorem same_refl (k : NativeKind) (x : k.Carrier) : k.same x x = true := by
  cases k <;> simp only [same, equal, DateTime.same, Point.same, Size.same, Rect.same] <;>
    simp [Binary.Same.refl]

theorem same_symm (k : NativeKind) {x y : k.Carrier} (h : k.same x y = true) : k.same y x = true := by
  cases k <;> simp only [same, equal] at h ⊢
  case f32 | f64 => exact Binary.Same.symm h
  case point | size =>
    simp only [Point.same, Size.same, Bool.and_eq_true] at h ⊢
    exact ⟨Binary.Same.symm h.1, Binary.Same.symm h.2⟩
  case rect =>
    simp only [Rect.same, Point.same, Size.same, Bool.and_eq_true] at h ⊢
    exact ⟨⟨Binary.Same.symm h.1.1, Binary.Same.symm h.1.2⟩,
      ⟨Binary.Same.symm h.2.1, Binary.Same.symm h.2.2⟩⟩
  case dateTime =>
    simp only [DateTime.same, Bool.and_eq_true, beq_iff_eq] at h ⊢
    exact ⟨h.1.symm, h.2.symm⟩
  all_goals exact beq_iff_eq.2 (beq_iff_eq.1 h).symm

theorem same_trans (k : NativeKind) {x y z : k.Carrier} (h : k.same x y = true) (h' : k.same y z = true) :
    k.same x z = true := by
  cases k <;> simp only [same, equal] at h h' ⊢
  case f32 | f64 => exact Binary.Same.trans h h'
  case point | size =>
    simp only [Point.same, Size.same, Bool.and_eq_true] at h h' ⊢
    exact ⟨Binary.Same.trans h.1 h'.1, Binary.Same.trans h.2 h'.2⟩
  case rect =>
    simp only [Rect.same, Point.same, Size.same, Bool.and_eq_true] at h h' ⊢
    exact ⟨⟨Binary.Same.trans h.1.1 h'.1.1, Binary.Same.trans h.1.2 h'.1.2⟩,
      ⟨Binary.Same.trans h.2.1 h'.2.1, Binary.Same.trans h.2.2 h'.2.2⟩⟩
  case dateTime =>
    simp only [DateTime.same, Bool.and_eq_true, beq_iff_eq] at h h' ⊢
    exact ⟨h.1.trans h'.1, h.2.trans h'.2⟩
  all_goals exact beq_iff_eq.2 ((beq_iff_eq.1 h).trans (beq_iff_eq.1 h'))

end NativeKind

namespace SettingValue

theorem exists_of_kind_eq {v w : SettingValue} (h : v.kind = w.kind) :
    ∃ (k : NativeKind) (x y : k.Carrier), v = toValue x ∧ w = toValue y := by
  obtain ⟨k, x⟩ := v
  obtain ⟨l, y⟩ := w
  obtain rfl : k = l := h
  exact ⟨k, x, y, rfl, rfl⟩

theorem kind_eq_of_equal {v w : SettingValue} (h : v.equal w = true) : v.kind = w.kind :=
  Decidable.byContradiction fun differ => by simp [equal_of_kind_ne differ] at h

theorem kind_eq_of_same {v w : SettingValue} (h : v.same w = true) : v.kind = w.kind :=
  Decidable.byContradiction fun differ => by simp [same_of_kind_ne differ] at h

theorem exists_of_same {v w : SettingValue} (h : v.same w = true) :
    ∃ (k : NativeKind) (x y : k.Carrier), v = toValue x ∧ w = toValue y ∧ k.same x y = true := by
  obtain ⟨k, x, y, rfl, rfl⟩ := exists_of_kind_eq (kind_eq_of_same h)
  exact ⟨k, x, y, rfl, rfl, by simpa using h⟩

theorem same_refl (v : SettingValue) : v.same v = true := by
  rw [show v = toValue v.content from rfl, same_toValue]
  exact v.kind.same_refl _

theorem same_symm {v w : SettingValue} (h : v.same w = true) : w.same v = true := by
  obtain ⟨k, x, y, rfl, rfl, hk⟩ := exists_of_same h
  simpa using k.same_symm hk

theorem same_trans {u v w : SettingValue} (h : u.same v = true) (h' : v.same w = true) :
    u.same w = true := by
  obtain ⟨k, x, y, rfl, rfl, hk⟩ := exists_of_same h
  obtain ⟨l, z⟩ := w
  obtain rfl : k = l := kind_eq_of_same h'
  rw [← toValue, same_toValue] at h' ⊢
  exact k.same_trans hk h'

end SettingValue

end LiveSettings
