import LiveSettings.Proofs.Json.Rendering
import LiveSettings.Proofs.Value.Uuid
import LiveSettings.Value.Codec

/-!
# Setting values survive their text

A value is written as an object of its tag and its content. The text of a finite number and of a date and
time may lose something when it is read, so `Survives` asks of these, value by value, that it does not; all
else survives.

Results:
* `Binary.ofText?_display`: the names of the numbers that are not finite are read back.
* `NativeKind.decode_reread_encode`: a content that survives is read back from what its text stands for.
* `SettingValue.text_round_trip`: reading the text of a value gives the value, and so does every text of an
  object with the same tag and content, in either order and among other members.
-/

namespace LiveSettings

/-! ## Numbers -/

namespace Binary

/-- The names of the numbers that are not finite are read back. -/
theorem ofText?_display {f : BinaryFormat} {x : Binary f} (h : x.isFinite = false) :
    ofText? f x.display = some x := by
  cases x with
  | nan => simp [display, text, ofText?, ofUnsigned?]
  | infinite s => cases s <;> simp [display, text, ofText?, ofUnsigned?]
  | finite s r => cases h

/-- A finite number is what its own text gives. -/
def Survives32 (x : Binary32) : Prop :=
  x.isFinite = true → (Json.ofText? (Json.number (.single x)).render).bind (ofJson? .single) = some x

def Survives64 (x : Binary64) : Prop :=
  x.isFinite = true → (Json.ofText? (Json.number (.double x)).render).bind (ofJson? .double) = some x

theorem ofJson?_reread32 {x : Binary32} (h : Survives32 x) : ofJson? .single (toJson32 x).reread = some x := by
  cases hx : x.isFinite with
  | true =>
    have read := h hx
    rw [Json.ofText?_render] at read
    simpa [toJson32, hx] using read
  | false =>
    simp only [toJson32, hx, Bool.false_eq_true, if_false]
    exact ofText?_display hx

theorem ofJson?_reread64 {x : Binary64} (h : Survives64 x) : ofJson? .double (toJson64 x).reread = some x := by
  cases hx : x.isFinite with
  | true =>
    have read := h hx
    rw [Json.ofText?_render] at read
    simpa [toJson64, hx] using read
  | false =>
    simp only [toJson64, hx, Bool.false_eq_true, if_false]
    exact ofText?_display hx

end Binary

namespace NativeKind

/-- An integer within bounds is read back. -/
theorem intWithin?_reread {low high n : Int} (hl : low ≤ n) (hh : n ≤ high)
    (low64 : Int64.minValue.toInt ≤ low) (high64 : high < UInt64.size) :
    intWithin? low high (Json.number (.integer n)).reread = some n := by
  have same : (Json.number (.integer n)).reread = .number (.integer n) :=
    Json.reread_integer (by omega) (by omega)
  simp [same, intWithin?, Json.integer?, hl, hh]

theorem intWithin?_reread_natural {n size : Nat} (h : n < size) (h64 : size ≤ UInt64.size) :
    intWithin? 0 (size - 1) (Json.number (.integer n)).reread = some (n : Int) :=
  intWithin?_reread (by omega) (by omega) (by decide) (by omega)

end NativeKind

/-! ## Documents of at most one level -/

namespace Json

/-- A document without parts that stands for itself. -/
def IsScalar (j : Json) : Prop := j.depth = 0 ∧ j.sorted? = some j

theorem isScalar_number (x : Number) : (number x).IsScalar := ⟨rfl, rfl⟩

theorem isScalar_text (s : String) : (text s).IsScalar := ⟨rfl, rfl⟩

theorem isScalar_bool (b : Bool) : (bool b).IsScalar := ⟨rfl, rfl⟩

/-- What a number is read from is a number or a text. -/
theorem isScalar_of_ofJson? {f : BinaryFormat} {j : Json} {x : Binary f} (h : Binary.ofJson? f j = some x) :
    j.IsScalar := by
  cases j with
  | number n => exact isScalar_number n
  | text s => exact isScalar_text s
  | _ => cases h

theorem isScalar_reread32 {x : Binary32} (h : Binary.Survives32 x) : (Binary.toJson32 x).reread.IsScalar :=
  isScalar_of_ofJson? (Binary.ofJson?_reread32 h)

theorem isScalar_reread_integer {n : Int} (low : Int64.minValue.toInt ≤ n) (high : n < UInt64.size) :
    (number (.integer n)).reread.IsScalar := by
  rw [show (number (.integer n)).reread = number (.integer n) from reread_integer low high]
  exact isScalar_number _

theorem isScalar_reread_natural {n : Nat} (h : n < UInt64.size) : (number (.integer n)).reread.IsScalar := by
  rw [show (number (.integer n)).reread = number (.integer n) from reread_natural h]
  exact isScalar_number _

theorem IsScalar.isValueWithin {j : Json} (h : j.IsScalar) {around : Nat} (ha : around + 1 < depthLimit) :
    j.isValueWithin around = true := by
  simp only [Json.isValueWithin, h.1, h.2, Option.isSome_some, Bool.and_true, decide_eq_true_eq]
  omega

theorem membersDepth_scalars {ms : List (String × Json)} (h : ∀ m ∈ ms, m.2.IsScalar) :
    membersDepth ms = 0 := by
  induction ms with
  | nil => rfl
  | cons m ms ih =>
    obtain ⟨k, j⟩ := m
    have first : j.depth = 0 := (h _ List.mem_cons_self).1
    have rest := ih fun m hm => h m (List.mem_cons_of_mem _ hm)
    simp [membersDepth, first, rest]

theorem sortedMembers?_scalars {ms : List (String × Json)} (h : ∀ m ∈ ms, m.2.IsScalar) :
    sortedMembers? ms = some ms := by
  induction ms with
  | nil => rfl
  | cons m ms ih =>
    obtain ⟨k, j⟩ := m
    have first : j.sorted? = some j := (h _ List.mem_cons_self).2
    have rest := ih fun m hm => h m (List.mem_cons_of_mem _ hm)
    simp [sortedMembers?, first, rest]

theorem isValueWithin_object {ms : List (String × Json)} (h : ∀ m ∈ ms, m.2.IsScalar) {around : Nat}
    (ha : around + 1 < depthLimit) : (object ms).isValueWithin around = true := by
  simp only [isValueWithin, depth, sorted?, membersDepth_scalars h, sortedMembers?_scalars h, Option.map_some,
    Option.isSome_some, Bool.and_true, decide_eq_true_eq]
  omega

end Json

/-! ## Records -/

namespace Duration

theorem reread_toJson (d : Duration) : d.toJson.reread = d.toJson := by
  have secs := Json.reread_natural d.seconds.toNat_lt_size
  have nanos := Json.reread_natural (Nat.lt_trans d.nanos.isLt (by decide))
  simp [toJson, Json.reread, Json.rereadMembers, secs, nanos]

theorem ofParts?_parts (d : Duration) : ofParts? d.seconds.toNat d.nanos.val = some d := by
  obtain ⟨seconds, nanos, lt⟩ := d
  have whole : nanos / 1000000000 = 0 := Nat.div_eq_of_lt lt
  have rest : nanos % 1000000000 = nanos := Nat.mod_eq_of_lt lt
  have bound := seconds.toNat_lt_size
  simp [ofParts?, whole, rest, bound]

theorem natBelow?_natCast {bound n : Nat} (h : n < bound) :
    natBelow? bound (.number (.integer n)) = some n := by
  have within : ((n : Int) < (bound : Int)) := Int.ofNat_lt.2 h
  simp [natBelow?, Json.integer?, within]

theorem ofJson?_of_fields {j s n : Json} {seconds nanos : Nat}
    (h : j.onlyFields? ["secs", "nanos"] = some [s, n]) (hs : natBelow? UInt64.size s = some seconds)
    (hn : natBelow? UInt32.size n = some nanos) : ofJson? j = ofParts? seconds nanos := by
  rw [ofJson?, h]
  show ((natBelow? UInt64.size s).bind fun a => (natBelow? UInt32.size n).bind fun b => ofParts? a b) = _
  rw [hs, hn]
  rfl

theorem ofJson?_reread (d : Duration) : ofJson? d.toJson.reread = some d := by
  have parts : d.toJson.onlyFields? ["secs", "nanos"] =
      some [.number (.integer d.seconds.toNat), .number (.integer d.nanos.val)] := by
    simp [toJson, Json.onlyFields?, Json.fields?, Json.valuesOf]
  have short : d.nanos.val < UInt32.size := Nat.lt_trans d.nanos.isLt (by decide)
  rw [reread_toJson, ofJson?_of_fields parts (natBelow?_natCast d.seconds.toNat_lt_size) (natBelow?_natCast short)]
  exact ofParts?_parts d

end Duration

namespace Point

theorem reread_toJson (p : Point) :
    p.toJson.reread = .object [("x", (Binary.toJson32 p.x).reread), ("y", (Binary.toJson32 p.y).reread)] := rfl

theorem ofJson?_reread {p : Point} (hx : Binary.Survives32 p.x) (hy : Binary.Survives32 p.y) :
    ofJson? p.toJson.reread = some p := by
  have parts : p.toJson.reread.fields? ["x", "y"] =
      some [(Binary.toJson32 p.x).reread, (Binary.toJson32 p.y).reread] := rfl
  rw [ofJson?, parts]
  simp [Binary.ofJson?_reread32 hx, Binary.ofJson?_reread32 hy]

theorem isValueWithin_reread {p : Point} (hx : Binary.Survives32 p.x) (hy : Binary.Survives32 p.y)
    {around : Nat} (ha : around + 1 < Json.depthLimit) : p.toJson.reread.isValueWithin around = true := by
  rw [reread_toJson]
  refine Json.isValueWithin_object (fun m hm => ?_) ha
  simp only [List.mem_cons, List.not_mem_nil, or_false] at hm
  rcases hm with rfl | rfl
  · exact Json.isScalar_reread32 hx
  · exact Json.isScalar_reread32 hy

end Point

namespace Size

theorem reread_toJson (s : Size) : s.toJson.reread =
    .object [("width", (Binary.toJson32 s.width).reread), ("height", (Binary.toJson32 s.height).reread)] := rfl

theorem ofJson?_reread {s : Size} (hw : Binary.Survives32 s.width) (hh : Binary.Survives32 s.height) :
    ofJson? s.toJson.reread = some s := by
  have parts : s.toJson.reread.fields? ["width", "height"] =
      some [(Binary.toJson32 s.width).reread, (Binary.toJson32 s.height).reread] := rfl
  rw [ofJson?, parts]
  simp [Binary.ofJson?_reread32 hw, Binary.ofJson?_reread32 hh]

theorem isValueWithin_reread {s : Size} (hw : Binary.Survives32 s.width) (hh : Binary.Survives32 s.height)
    {around : Nat} (ha : around + 1 < Json.depthLimit) : s.toJson.reread.isValueWithin around = true := by
  rw [reread_toJson]
  refine Json.isValueWithin_object (fun m hm => ?_) ha
  simp only [List.mem_cons, List.not_mem_nil, or_false] at hm
  rcases hm with rfl | rfl
  · exact Json.isScalar_reread32 hw
  · exact Json.isScalar_reread32 hh

end Size

namespace Rect

/-- All four numbers survive. -/
def Survives (r : Rect) : Prop :=
  Binary.Survives32 r.x ∧ Binary.Survives32 r.y ∧ Binary.Survives32 r.width ∧ Binary.Survives32 r.height

theorem reread_toJson (r : Rect) : r.toJson.reread =
    .object [("x", (Binary.toJson32 r.x).reread), ("y", (Binary.toJson32 r.y).reread),
      ("width", (Binary.toJson32 r.width).reread), ("height", (Binary.toJson32 r.height).reread)] := rfl

theorem ofJson?_reread {r : Rect} (h : r.Survives) : ofJson? r.toJson.reread = some r := by
  obtain ⟨hx, hy, hw, hh⟩ := h
  have parts : r.toJson.reread.fields? ["x", "y", "width", "height"] =
      some [(Binary.toJson32 r.x).reread, (Binary.toJson32 r.y).reread, (Binary.toJson32 r.width).reread,
        (Binary.toJson32 r.height).reread] := rfl
  rw [ofJson?, parts]
  simp [Binary.ofJson?_reread32 hx, Binary.ofJson?_reread32 hy, Binary.ofJson?_reread32 hw,
    Binary.ofJson?_reread32 hh]

theorem isValueWithin_reread {r : Rect} (h : r.Survives) {around : Nat}
    (ha : around + 1 < Json.depthLimit) : r.toJson.reread.isValueWithin around = true := by
  obtain ⟨hx, hy, hw, hh⟩ := h
  rw [reread_toJson]
  refine Json.isValueWithin_object (fun m hm => ?_) ha
  simp only [List.mem_cons, List.not_mem_nil, or_false] at hm
  rcases hm with rfl | rfl | rfl | rfl
  · exact Json.isScalar_reread32 hx
  · exact Json.isScalar_reread32 hy
  · exact Json.isScalar_reread32 hw
  · exact Json.isScalar_reread32 hh

end Rect

/-! ## Contents by kind -/

namespace NativeKind

/-- Whether the text of a content gives it back: asked of finite numbers and of dates and times. -/
def Survives : (k : NativeKind) → k.Carrier → Prop
  | .f32, x => Binary.Survives32 x
  | .f64, x => Binary.Survives64 x
  | .dateTime, t => DateTime.ofText? (DateTime.text t) = some t
  | .point, p => Binary.Survives32 (Point.x p) ∧ Binary.Survives32 (Point.y p)
  | .size, s => Binary.Survives32 (Size.width s) ∧ Binary.Survives32 (Size.height s)
  | .rect, r => Rect.Survives r
  | _, _ => True

/-- A content that survives is read back from what its text stands for. -/
theorem decode_reread_encode {k : NativeKind} {x : k.Carrier} (h : k.Survives x) :
    k.decode? (k.encode x).reread = some x := by
  cases k with
  | i16 =>
    simp only [decode?, encode]
    rw [intWithin?_reread (Int16.minValue_le_toInt x) (Int16.toInt_le x) (by decide) (by decide)]
    simp
  | u16 =>
    simp only [decode?, encode]
    rw [intWithin?_reread_natural (UInt16.toNat_lt_size x) (by decide)]
    simp
  | i32 =>
    simp only [decode?, encode]
    rw [intWithin?_reread (Int32.minValue_le_toInt x) (Int32.toInt_le x) (by decide) (by decide)]
    simp
  | u32 =>
    simp only [decode?, encode]
    rw [intWithin?_reread_natural (UInt32.toNat_lt_size x) (by decide)]
    simp
  | i64 =>
    simp only [decode?, encode]
    rw [intWithin?_reread (Int64.minValue_le_toInt x) (Int64.toInt_le x) (by decide) (by decide)]
    simp
  | u64 =>
    simp only [decode?, encode]
    rw [intWithin?_reread_natural (UInt64.toNat_lt_size x) (by decide)]
    simp
  | f32 => exact Binary.ofJson?_reread32 h
  | f64 => exact Binary.ofJson?_reread64 h
  | bool => rfl
  | char => simp [decode?, encode, Json.reread, Json.char?]
  | string => rfl
  | dateTime =>
    have read : DateTime.ofText? (DateTime.text x) = some x := h
    simp only [decode?, encode, Json.reread, Json.text?, Option.bind_some]
    exact read
  | duration =>
    show Duration.ofJson? (Duration.toJson x).reread = some x
    exact Duration.ofJson?_reread x
  | uuid =>
    simp only [decode?, encode, Json.reread, Json.text?, Option.bind_some]
    exact Uuid.ofText?_text x
  | point => exact Point.ofJson?_reread h.1 h.2
  | size => exact Size.ofJson?_reread h.1 h.2
  | rect => exact Rect.ofJson?_reread h

/-- A content that survives is read also where its kind is not known yet. -/
theorem isValueWithin_encode {k : NativeKind} {x : k.Carrier} (h : k.Survives x) {around : Nat}
    (ha : around + 1 < Json.depthLimit) : (k.encode x).reread.isValueWithin around = true := by
  cases k with
  | i16 =>
    have low := Int.le_trans (show Int64.minValue.toInt ≤ _ by decide) (Int16.minValue_le_toInt x)
    have high := Int.lt_of_le_of_lt (Int16.toInt_le x) (show _ < (UInt64.size : Int) by decide)
    exact (Json.isScalar_reread_integer low high).isValueWithin ha
  | u16 =>
    have high := Nat.lt_of_lt_of_le (UInt16.toNat_lt_size x) (show _ ≤ UInt64.size by decide)
    exact (Json.isScalar_reread_natural high).isValueWithin ha
  | i32 =>
    have low := Int.le_trans (show Int64.minValue.toInt ≤ _ by decide) (Int32.minValue_le_toInt x)
    have high := Int.lt_of_le_of_lt (Int32.toInt_le x) (show _ < (UInt64.size : Int) by decide)
    exact (Json.isScalar_reread_integer low high).isValueWithin ha
  | u32 =>
    have high := Nat.lt_of_lt_of_le (UInt32.toNat_lt_size x) (show _ ≤ UInt64.size by decide)
    exact (Json.isScalar_reread_natural high).isValueWithin ha
  | i64 =>
    have high := Int.lt_of_le_of_lt (Int64.toInt_le x) (show _ < (UInt64.size : Int) by decide)
    exact (Json.isScalar_reread_integer (Int64.minValue_le_toInt x) high).isValueWithin ha
  | u64 =>
    exact (Json.isScalar_reread_natural (UInt64.toNat_lt_size x)).isValueWithin ha
  | f32 => exact (Json.isScalar_reread32 h).isValueWithin ha
  | f64 => exact (Json.isScalar_of_ofJson? (Binary.ofJson?_reread64 h)).isValueWithin ha
  | bool => exact (Json.isScalar_bool _).isValueWithin ha
  | char | string | dateTime | uuid => exact (Json.isScalar_text _).isValueWithin ha
  | duration =>
    show (Duration.toJson x).reread.isValueWithin around = true
    rw [Duration.reread_toJson]
    exact Json.isValueWithin_object (by simp [Json.isScalar_number]) ha
  | point => exact Point.isValueWithin_reread h.1 h.2 ha
  | size => exact Size.isValueWithin_reread h.1 h.2 ha
  | rect => exact Rect.isValueWithin_reread h ha

end NativeKind

/-! ## Whole values -/

namespace SettingValue

/-- Whether the text of the content gives the content back. -/
def Survives (v : SettingValue) : Prop := v.kind.Survives v.content

/-- A text of an object with the tag of a value and with its content as it is written, in either order and
among members with other names. -/
def Respells (v : SettingValue) (s : Json.Spelling) : Prop :=
  ∃ members content, s.document = .object members ∧
    Json.ofText? (v.kind.encode v.content).render = some content ∧
    (relevant members = [("type", .text v.kind.tag), ("value", content)] ∨
      relevant members = [("value", content), ("type", .text v.kind.tag)])

theorem ofParts?_reread {v : SettingValue} (h : v.Survives) :
    ofParts? (.text v.kind.tag) (v.kind.encode v.content).reread = some v := by
  have read : v.kind.decode? (v.kind.encode v.content).reread = some v.content :=
    NativeKind.decode_reread_encode h
  simp [ofParts?, kindOf?, NativeKind.ofTag?_tag, read, toValue]

/-- The order of tag and content does not count, nor do other members. -/
theorem ofJson?_members {v : SettingValue} (h : v.Survives) {around : Nat}
    (ha : around + 2 < Json.depthLimit) {members : List (String × Json)}
    (hm : relevant members = [("type", .text v.kind.tag), ("value", (v.kind.encode v.content).reread)] ∨
      relevant members = [("value", (v.kind.encode v.content).reread), ("type", .text v.kind.tag)]) :
    ofJson? around (.object members) = some v := by
  rcases hm with tagFirst | contentFirst
  · simp only [ofJson?, tagFirst]
    exact ofParts?_reread h
  · simp only [ofJson?, contentFirst]
    rw [if_pos (NativeKind.isValueWithin_encode h ha)]
    exact ofParts?_reread h

/-- The document that the text of a value is read as gives the value. -/
theorem ofJson?_reread {v : SettingValue} (h : v.Survives) {around : Nat}
    (ha : around + 2 < Json.depthLimit) : ofJson? around v.toJson.reread = some v :=
  ofJson?_members h ha (.inl rfl)

/-- Reading the text of a value, or any text of an object with the same tag and content, gives a value of the
same kind that equals it. -/
theorem text_round_trip (v : SettingValue) (h : v.Survives) :
    (∃ w, ofText? v.render = some w ∧ w.kind = v.kind ∧ v.same w = true) ∧
      ∀ s, v.Respells s → ∃ w, ofText? s.string = some w ∧ w.kind = v.kind ∧ v.same w = true := by
  refine ⟨⟨v, ?_, rfl, v.same_refl⟩, fun s respelled => ⟨v, ?_, rfl, v.same_refl⟩⟩
  · rw [ofText?, render, Json.ofText?_render, Option.bind_some]
    exact ofJson?_reread h (by decide)
  · obtain ⟨members, content, hdoc, hcontent, hm⟩ := respelled
    rw [Json.ofText?_render] at hcontent
    cases hcontent
    rw [ofText?, Json.ofText?_spelling, hdoc, Option.bind_some]
    exact ofJson?_members h (by decide) hm

/-- A half more than one, behind a member that nobody knows and before its tag. -/
theorem text_round_trip_oneAndAHalf :
    let v := toValue (k := .f32) (.nearest .single false 3 2)
    v.Survives ∧
      (∃ s, v.Respells s ∧ s.string = "\x7b\"note\":null,\"value\":1.5,\"type\":\"F32\"\x7d" ∧
        ∃ w, ofText? s.string = some w ∧ w.kind = .f32 ∧ v.same w = true) ∧
      ∃ w, ofText? v.render = some w ∧ w.kind = .f32 ∧ v.same w = true := by
  intro v
  have survives : v.Survives := fun _ => by decide +kernel
  obtain ⟨plain, respelled⟩ := text_round_trip v survives
  let j : Json := .object [("note", .null), ("value", v.kind.encode v.content), ("type", .text "F32")]
  obtain ⟨s, hchars, hdoc⟩ := Json.exists_spelling none j
  have hs : v.Respells s := ⟨_, _, hdoc, Json.ofText?_render _, .inr rfl⟩
  refine ⟨survives, ⟨s, hs, ?_, respelled s hs⟩, plain⟩
  rw [Json.Spelling.string, hchars]
  decide +kernel

end SettingValue

end LiveSettings
