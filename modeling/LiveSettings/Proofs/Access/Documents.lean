import LiveSettings.Access
import LiveSettings.Access.JsonType
import LiveSettings.Proofs.Store.Document

/-!
# Documents are read back

A setting that is kept as a document is written as a text and read from it. A finite number may lose its last
bit there, and a number that is not finite is written as null, so `JsonType.Survives` asks of a value, part by
part, that neither happens to it.

Results:
* `Json.depth_reread`: what is read from the text of a document is nested as deep as the document.
* `Json.sorted?_reread`: a document that is a value is read back as itself.
* `JsonType.decode?_encode?`: a value that survives is read back from what its text stands for.
* `SettingType.readDocument?_render`: what is read from a store, unless the document is null or nested too deep.
* `SettingType.readDocument?_of_survives`: a value that survives is then read back.
-/

namespace LiveSettings

namespace Json

/-! ## Depth -/

/-- A number is read as a number, unless its text is null or stands for none. -/
theorem reread_number (x : Number) :
    (∃ n, (number x).reread = number n) ∨ (number x).reread = unreadable ∨ (number x).reread = null := by
  simp only [reread, Number.reread]
  cases numberText? x.render with
  | none => exact .inr (.inr rfl)
  | some r =>
    simp only [Option.map_some, Option.getD_some, ofNumberText]
    cases r.1.value? with
    | none => exact .inr (.inl rfl)
    | some n => exact .inl ⟨n, rfl⟩

mutual

theorem depth_reread : (j : Json) → j.reread.depth = j.depth
  | .null | .bool _ | .text _ | .unreadable => rfl
  | .number x => by
    rcases reread_number x with ⟨n, read⟩ | read | read <;> rw [read] <;> rfl
  | .array items => by simp only [reread, depth, itemsDepth_reread items]
  | .object members => by simp only [reread, depth, membersDepth_reread members]

theorem itemsDepth_reread : (js : List Json) → itemsDepth (rereadItems js) = itemsDepth js
  | [] => rfl
  | j :: js => by simp only [rereadItems, itemsDepth, depth_reread j, itemsDepth_reread js]

theorem membersDepth_reread : (ms : List (String × Json)) → membersDepth (rereadMembers ms) = membersDepth ms
  | [] => rfl
  | (_, j) :: ms => by simp only [rereadMembers, membersDepth, depth_reread j, membersDepth_reread ms]

end

/-! ## Values -/

/-- Whether a number is one of a value: an integer of at most 64 bits, or a double that its own text gives. -/
def Number.IsValue : Number → Prop
  | .integer n => Int64.minValue.toInt ≤ n ∧ n < UInt64.size
  | .double x => ofText? (number (.double x)).render = some (number (.double x))
  | .single _ => False

mutual

/-- Whether a document is a value: its numbers are, and the names of its members increase. -/
def IsValue : Json → Prop
  | .number x => x.IsValue
  | .array items => ItemsAreValues items
  | .object members => members.Pairwise (·.1 < ·.1) ∧ MembersAreValues members
  | .unreadable => False
  | _ => True

def ItemsAreValues : List Json → Prop
  | [] => True
  | j :: js => j.IsValue ∧ ItemsAreValues js

def MembersAreValues : List (String × Json) → Prop
  | [] => True
  | (_, j) :: ms => j.IsValue ∧ MembersAreValues ms

end

theorem reread_of_isValue {x : Number} (h : x.IsValue) : (number x).reread = number x := by
  cases x with
  | integer n => exact reread_integer h.1 h.2
  | double x =>
    have read : ofText? (number (.double x)).render = some (number (.double x)) := h
    rw [ofText?_render] at read
    exact Option.some.inj read
  | single x => exact h.elim

/-- Members whose names increase keep their order. -/
theorem ofList_of_pairwise {α : Type} {es : List (String × α)} (h : es.Pairwise (·.1 < ·.1)) :
    (KeyMap.ofList es).entries = es :=
  congrArg KeyMap.entries (KeyMap.ofList_entries (m := ⟨es⟩) h)

mutual

/-- A document that is a value is read back as itself. -/
theorem sorted?_reread : (j : Json) → j.IsValue → j.reread.sorted? = some j
  | .null, _ | .bool _, _ | .text _, _ => rfl
  | .number x, h => by
    rw [reread_of_isValue h]
    rfl
  | .array items, h => by simp only [reread, sorted?, sortedItems?_reread items h, Option.map_some]
  | .object members, h => by
    simp only [reread, sorted?, sortedMembers?_reread members h.2, Option.map_some, ofList_of_pairwise h.1]
  | .unreadable, h => h.elim

theorem sortedItems?_reread : (js : List Json) → ItemsAreValues js → sortedItems? (rereadItems js) = some js
  | [], _ => rfl
  | j :: js, h => by simp only [rereadItems, sortedItems?, sorted?_reread j h.1, sortedItems?_reread js h.2]

theorem sortedMembers?_reread : (ms : List (String × Json)) → MembersAreValues ms →
    sortedMembers? (rereadMembers ms) = some ms
  | [], _ => rfl
  | (_, j) :: ms, h => by
    simp only [rereadMembers, sortedMembers?, sorted?_reread j h.1, sortedMembers?_reread ms h.2]

end

end Json

namespace JsonType

/-- Whether the text of a value gives it back: asked of its numbers, of which all have to be finite, and of
values that may be absent, of which no present one may be written as null. -/
def Survives : (t : JsonType) → t.Carrier → Prop
  | .f32, x => Binary.isFinite x = true ∧ Binary.Survives32 x
  | .f64, x => Binary.isFinite x = true ∧ Binary.Survives64 x
  | .point, p => Binary.Survives32 (Point.x p) ∧ Binary.Survives32 (Point.y p)
  | .value, j => Json.IsValue j
  | .list t, as => ∀ a ∈ (as : List t.Carrier), t.Survives a
  | .option t, a => ∀ b ∈ (a : Option t.Carrier), t.Survives b ∧ t.encode? b ≠ some .null
  | .pair t u, a => t.Survives a.1 ∧ u.Survives a.2
  | .map t, as =>
    (as : List (String × t.Carrier)).Pairwise (·.1 < ·.1) ∧ ∀ a ∈ (as : List (String × t.Carrier)), t.Survives a.2
  | _, _ => True

/-- Whether a document is written for a value and another one read back. What is read as null is null. -/
structure ReadAs (t : JsonType) (a : t.Carrier) (j k : Json) : Prop where
  sorted : j.reread.sorted? = some k
  decoded : t.decode? k = some a
  null : k.isNull = true → j = .null

/-! ## Values without parts -/

theorem readAs_scalar {t : JsonType} {a : t.Carrier} {j : Json} (scalar : j.reread.IsScalar)
    (decoded : t.decode? j.reread = some a) (present : j.reread.isNull = false) : t.ReadAs a j j.reread := by
  refine ⟨scalar.2, decoded, fun null => ?_⟩
  rw [present] at null
  cases null

theorem readAs_text {t : JsonType} {a : t.Carrier} {s : String} (decoded : t.decode? (.text s) = some a) :
    t.ReadAs a (.text s) (.text s) :=
  readAs_scalar (Json.isScalar_text s) decoded rfl

theorem readAs_integer {t : JsonType} {a : t.Carrier} {n : Int} (low : Int64.minValue.toInt ≤ n)
    (high : n < UInt64.size) (decoded : t.decode? (Json.number (.integer n)).reread = some a) :
    t.ReadAs a (.number (.integer n)) (Json.number (.integer n)).reread := by
  have same : (Json.number (.integer n)).reread = .number (.integer n) := Json.reread_integer low high
  refine readAs_scalar (Json.isScalar_reread_integer low high) decoded ?_
  rw [same]
  rfl

theorem readAs_natural {t : JsonType} {a : t.Carrier} {n : Nat} (high : n < UInt64.size)
    (decoded : t.decode? (Json.number (.integer n)).reread = some a) :
    t.ReadAs a (.number (.integer n)) (Json.number (.integer n)).reread :=
  readAs_integer (Int.le_trans (by decide) (Int.natCast_nonneg n)) (Int.ofNat_lt.2 high) decoded

/-- A finite number that its text gives back is read as a number. -/
theorem readAs_number {t : JsonType} {f : BinaryFormat} {a : t.Carrier} {x : Json.Number} {y : Binary f}
    (survives : Binary.ofJson? f (Json.number x).reread = some y)
    (decoded : ∀ j, number? f j = some y → t.decode? j = some a) :
    t.ReadAs a (.number x) (Json.number x).reread := by
  rcases Json.reread_number x with ⟨n, read⟩ | read | read
  · rw [read] at survives
    have decoded : t.decode? (Json.number x).reread = some a := read ▸ decoded (.number n) survives
    refine readAs_scalar ?_ decoded ?_ <;> rw [read]
    · exact Json.isScalar_number n
    · rfl
  · rw [read] at survives
    cases survives
  · rw [read] at survives
    cases survives

/-! ## Records -/

theorem readAs_point {p : Point} (hx : Binary.Survives32 p.x) (hy : Binary.Survives32 p.y) :
    ReadAs .point p p.toJson p.toJson.reread := by
  refine ⟨?_, Point.ofJson?_reread hx hy, fun null => absurd null Bool.false_ne_true⟩
  have x := (Json.isScalar_reread32 hx).2
  have y := (Json.isScalar_reread32 hy).2
  rw [Point.reread_toJson]
  simp only [Json.sorted?, Json.sortedMembers?, x, y, Option.map_some]
  rfl

/-- The members of a record are read in the order of their names. -/
theorem readAs_window (w : Window) : ReadAs .window w
    (.object [("width", .number (.integer w.width.toNat)), ("height", .number (.integer w.height.toNat)),
      ("maximized", .bool w.maximized)])
    (.object [("height", .number (.integer w.height.toNat)), ("maximized", .bool w.maximized),
      ("width", .number (.integer w.width.toNat))]) := by
  have same (n : UInt32) : (Json.Number.integer n.toNat).reread = .number (.integer n.toNat) :=
    Json.reread_natural (Nat.lt_of_lt_of_le n.toNat_lt_size (by decide))
  have width := NativeKind.decode_reread_encode (k := .u32) (x := w.width) trivial
  have height := NativeKind.decode_reread_encode (k := .u32) (x := w.height) trivial
  simp only [NativeKind.encode, Json.reread, same] at width height
  refine ⟨?_, ?_, fun null => absurd null Bool.false_ne_true⟩
  · simp only [Json.reread, Json.rereadMembers, same, Json.sorted?, Json.sortedMembers?]
    rfl
  · simp [decode?, Json.fields?, Json.valuesOf, width, height, Json.bool?]

/-! ## Lists, absent values, pairs and maps -/

section
variable {t u : JsonType}

theorem decodeAll_encodeAll {as : List t.Carrier} {js : List Json}
    (each : ∀ a ∈ as, ∀ j, t.encode? a = some j → ∃ k, t.ReadAs a j k)
    (written : encodeAll t.encode? as = some js) :
    ∃ ks, Json.sortedItems? (Json.rereadItems js) = some ks ∧ decodeAll t.decode? ks = some as := by
  induction as generalizing js with
  | nil =>
    cases written
    exact ⟨[], rfl, rfl⟩
  | cons a as ih =>
    simp only [encodeAll] at written
    split at written
    · rename_i j js' first rest
      cases written
      obtain ⟨k, read⟩ := each a List.mem_cons_self j first
      obtain ⟨ks, sorted, decoded⟩ := ih (fun b hb => each b (List.mem_cons_of_mem a hb)) rest
      refine ⟨k :: ks, ?_, ?_⟩
      · simp only [Json.rereadItems, Json.sortedItems?, read.sorted, sorted]
      · simp only [decodeAll, read.decoded, decoded]
    · cases written

theorem decodeMembers_encodeMembers {as : List (String × t.Carrier)} {js : List (String × Json)}
    (each : ∀ a ∈ as, ∀ j, t.encode? a.2 = some j → ∃ k, t.ReadAs a.2 j k)
    (written : encodeMembers t.encode? as = some js) :
    ∃ ks, Json.sortedMembers? (Json.rereadMembers js) = some ks ∧ decodeMembers t.decode? ks = some as ∧
      ks.map (·.1) = as.map (·.1) := by
  induction as generalizing js with
  | nil =>
    cases written
    exact ⟨[], rfl, rfl, rfl⟩
  | cons a as ih =>
    obtain ⟨name, a⟩ := a
    simp only [encodeMembers] at written
    split at written
    · rename_i j js' first rest
      cases written
      obtain ⟨k, read⟩ := each (name, a) List.mem_cons_self j first
      obtain ⟨ks, sorted, decoded, names⟩ := ih (fun b hb => each b (List.mem_cons_of_mem _ hb)) rest
      refine ⟨(name, k) :: ks, ?_, ?_, ?_⟩
      · simp only [Json.rereadMembers, Json.sortedMembers?, read.sorted, sorted]
      · simp only [decodeMembers, read.decoded, decoded]
      · simp only [List.map_cons, names]
    · cases written

theorem readAs_list {as : List t.Carrier} {j : Json}
    (each : ∀ a ∈ as, ∀ j, t.encode? a = some j → ∃ k, t.ReadAs a j k)
    (written : encode? (.list t) as = some j) : ∃ k, ReadAs (.list t) as j k := by
  simp only [encode?, Option.map_eq_some_iff] at written
  obtain ⟨js, written, rfl⟩ := written
  obtain ⟨ks, sorted, decoded⟩ := decodeAll_encodeAll each written
  refine ⟨.array ks, ?_, ?_, fun null => absurd null Bool.false_ne_true⟩
  · simp only [Json.reread, Json.sorted?, sorted, Option.map_some]
  · simp only [decode?, Json.items?, Option.bind_some, decoded]

/-- A value that is present is read as present unless it is written as null. -/
theorem readAs_some {a : t.Carrier} {j : Json} (read : ∃ k, t.ReadAs a j k) (present : j ≠ .null) :
    ∃ k, ReadAs (.option t) (some a) j k := by
  obtain ⟨k, read⟩ := read
  refine ⟨k, read.sorted, ?_, read.null⟩
  cases null : k.isNull with
  | true => exact absurd (read.null null) present
  | false => simp [decode?, null, read.decoded]

theorem readAs_pair {a : t.Carrier} {b : u.Carrier} {j : Json}
    (first : ∀ j, t.encode? a = some j → ∃ k, t.ReadAs a j k)
    (second : ∀ j, u.encode? b = some j → ∃ k, u.ReadAs b j k)
    (written : encode? (.pair t u) (a, b) = some j) : ∃ k, ReadAs (.pair t u) (a, b) j k := by
  simp only [encode?] at written
  split at written
  · rename_i i j left right
    cases written
    obtain ⟨k, readFirst⟩ := first i left
    obtain ⟨l, readSecond⟩ := second j right
    refine ⟨.array [k, l], ?_, ?_, fun null => absurd null Bool.false_ne_true⟩
    · simp only [Json.reread, Json.rereadItems, Json.sorted?, Json.sortedItems?, readFirst.sorted,
        readSecond.sorted, Option.map_some]
    · simp only [decode?, readFirst.decoded, readSecond.decoded]
  · cases written

theorem readAs_map {as : List (String × t.Carrier)} {j : Json} (increasing : as.Pairwise (·.1 < ·.1))
    (each : ∀ a ∈ as, ∀ j, t.encode? a.2 = some j → ∃ k, t.ReadAs a.2 j k)
    (written : encode? (.map t) as = some j) : ∃ k, ReadAs (.map t) as j k := by
  simp only [encode?, Option.map_eq_some_iff] at written
  obtain ⟨js, written, rfl⟩ := written
  obtain ⟨ks, sorted, decoded, names⟩ := decodeMembers_encodeMembers each written
  have increasing : ks.Pairwise (·.1 < ·.1) := by
    rw [← List.pairwise_map, names, List.pairwise_map]
    exact increasing
  refine ⟨.object ks, ?_, ?_, fun null => absurd null Bool.false_ne_true⟩
  · simp only [Json.reread, Json.sorted?, sorted, Option.map_some, Json.ofList_of_pairwise increasing]
  · simp only [decode?, decoded]

end

/-! ## All types -/

/-- A value that survives is read back from what its text stands for. -/
theorem decode?_encode? {t : JsonType} {a : t.Carrier} {j : Json} (survives : t.Survives a)
    (written : t.encode? a = some j) : ∃ k, t.ReadAs a j k := by
  induction t generalizing j with
  | bool =>
    cases written
    exact ⟨_, readAs_scalar (Json.isScalar_bool _) rfl rfl⟩
  | u8 =>
    cases written
    have high : UInt8.toNat a < UInt64.size := Nat.lt_of_lt_of_le (UInt8.toNat_lt_size a) (by decide)
    refine ⟨_, readAs_natural high ?_⟩
    simp only [decode?]
    rw [NativeKind.intWithin?_reread_natural (UInt8.toNat_lt_size a) (by decide)]
    simp
  | i32 =>
    cases written
    have low := Int.le_trans (show Int64.minValue.toInt ≤ _ by decide) (Int32.minValue_le_toInt a)
    have high := Int.lt_of_le_of_lt (Int32.toInt_le a) (show _ < (UInt64.size : Int) by decide)
    exact ⟨_, readAs_integer low high (NativeKind.decode_reread_encode (k := .i32) trivial)⟩
  | i64 =>
    cases written
    have low := Int64.minValue_le_toInt a
    have high := Int.lt_of_le_of_lt (Int64.toInt_le a) (show _ < (UInt64.size : Int) by decide)
    exact ⟨_, readAs_integer low high (NativeKind.decode_reread_encode (k := .i64) trivial)⟩
  | u64 =>
    cases written
    exact ⟨_, readAs_natural (UInt64.toNat_lt_size a) (NativeKind.decode_reread_encode (k := .u64) trivial)⟩
  | f32 =>
    obtain ⟨finite, survives⟩ := survives
    have read := Binary.ofJson?_reread32 survives
    simp only [Binary.toJson32, finite, if_true] at read
    simp only [encode?, finite, if_true, Option.some.injEq] at written
    subst written
    exact ⟨_, readAs_number read fun _ decoded => decoded⟩
  | f64 =>
    obtain ⟨finite, survives⟩ := survives
    have read := Binary.ofJson?_reread64 survives
    simp only [Binary.toJson64, finite, if_true] at read
    simp only [encode?, finite, if_true, Option.some.injEq] at written
    subst written
    exact ⟨_, readAs_number read fun _ decoded => decoded⟩
  | char =>
    cases written
    exact ⟨_, readAs_text (NativeKind.decode_reread_encode (k := .char) trivial)⟩
  | string =>
    cases written
    exact ⟨_, readAs_text rfl⟩
  | point =>
    cases written
    exact ⟨_, readAs_point survives.1 survives.2⟩
  | window =>
    cases written
    exact ⟨_, readAs_window a⟩
  | value =>
    cases written
    refine ⟨a, Json.sorted?_reread a survives, rfl, fun null => ?_⟩
    change Json at a
    cases a with
    | null => rfl
    | _ => cases null
  | byteTable =>
    simp only [encode?] at written
    split at written
    · rename_i empty
      cases written
      obtain rfl := List.isEmpty_iff.1 empty
      exact ⟨.object [], rfl, rfl, fun null => absurd null Bool.false_ne_true⟩
    · cases written
  | list t ih => exact readAs_list (fun a ha _ => ih (survives a ha)) written
  | option t ih =>
    change Option t.Carrier at a
    cases a with
    | none =>
      cases written
      exact ⟨.null, rfl, rfl, fun _ => rfl⟩
    | some b =>
      obtain ⟨survives, present⟩ := survives b rfl
      have written : t.encode? b = some j := written
      exact readAs_some (ih survives written) fun null => present (null ▸ written)
  | pair t u first second =>
    exact readAs_pair (fun _ => first survives.1) (fun _ => second survives.2) written
  | map t ih => exact readAs_map survives.1 (fun a ha _ => ih (survives.2 a ha)) written

end JsonType

/-! ## In a store -/

namespace SettingType

/-- What a stored text stands for. -/
theorem storedDocument?_render {j k : Json} (shallow : j.depth < Json.depthLimit)
    (sorted : j.reread.sorted? = some k) :
    storedDocument? (.ofString j.render) = if k.isNull then none else some k := by
  have text : SettingValue.text? (.ofString j.render) = some j.render := SettingValue.ofValue?_toValue _
  have value : (Json.ofText? j.render).bind Json.value? = some k := by
    rw [Json.ofText?_render, Option.bind_some, Json.value?, if_pos (by rwa [Json.depth_reread]), sorted]
  simp only [storedDocument?, text, value]
  cases k <;> rfl

section

variable {D : Type} [DocumentType D]

/-- A null is read as nothing. -/
theorem readDocument?_null (t : D) : readDocument? t (.ofString Json.null.render) = none := by
  rw [readDocument?, storedDocument?_render (by decide) rfl]
  rfl

/-- A document that is nested too deep is read as nothing. -/
theorem readDocument?_deep (t : D) {j : Json} (deep : Json.depthLimit ≤ j.depth) :
    readDocument? t (.ofString j.render) = none := by
  have text : SettingValue.text? (.ofString j.render) = some j.render := SettingValue.ofValue?_toValue _
  have tooDeep : ¬ j.reread.depth < Json.depthLimit := by
    rw [Json.depth_reread]
    omega
  have value : (Json.ofText? j.render).bind Json.value? = none := by
    rw [Json.ofText?_render, Option.bind_some, Json.value?, if_neg tooDeep]
  simp only [readDocument?, storedDocument?, text, value, Option.bind_none]

/-- Any other document is read as what the type makes of it. -/
theorem readDocument?_render (t : D) {j k : Json} (shallow : j.depth < Json.depthLimit)
    (sorted : j.reread.sorted? = some k) (present : k ≠ .null) :
    readDocument? t (.ofString j.render) = DocumentType.decode? t k := by
  have notNull : k.isNull = false := by
    cases k with
    | null => exact absurd rfl present
    | _ => rfl
  rw [readDocument?, storedDocument?_render shallow sorted, notNull]
  rfl

end

/-- A value that survives is read back from a store, unless its document is null or nested too deep. -/
theorem readDocument?_of_survives {t : JsonType} {a : t.Carrier} {j : Json} (survives : t.Survives a)
    (written : t.encode? a = some j) (present : j ≠ .null) (shallow : j.depth < Json.depthLimit) :
    readDocument? t (.ofString j.render) = some a := by
  obtain ⟨k, read⟩ := JsonType.decode?_encode? survives written
  have notNull : k ≠ .null := fun null => present (read.null (null ▸ rfl))
  exact (readDocument?_render t shallow read.sorted notNull).trans read.decoded

end SettingType

end LiveSettings
