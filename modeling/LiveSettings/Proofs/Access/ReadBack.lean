import LiveSettings.Proofs.Session.Repeat

/-!
# Documents that are set are read back

A value that is kept as a document goes through a text, a document and a second decoder before it is read. It
comes back unless it was written as null, which is no value to a reader, or is nested deeper than a document may
be. Numbers that are not finite are written as null too, so a type has to keep them out of its parts.

Results:
* `JsonType.survives_of_present`: what is not written as null survives its text.
* `JsonType.render_eq_null_iff`: which values have the text of a null.
* `Storage.document_round_trip`: what is read from a store after a value was set.

Limitations: that the text of a finite number gives the number back is asked of each one in a value.
-/

namespace LiveSettings

namespace JsonType

/-- Whether a value of the type may be written as null. -/
def mayBeNull : JsonType → Bool
  | .f32 | .f64 | .value | .option _ => true
  | _ => false

/-- Whether a value of the type is told from its document wherever it stands: it holds no number that may be
written as null, and nothing present that may be. -/
def isExact : JsonType → Bool
  | .f32 | .f64 | .byteTable => false
  | .list t | .map t => t.isExact
  | .pair t u => t.isExact && u.isExact
  | .option t => t.isExact && !t.mayBeNull
  | _ => true

/-- Whether a value of the type is told from its document unless that is null. -/
def isFaithful : JsonType → Bool
  | .f32 | .f64 => true
  | .option t => t.isFaithful
  | t => t.isExact

/-- Whether the maps and documents in a value are sorted, and each finite number is what its text gives. -/
def Sound : (t : JsonType) → t.Carrier → Prop
  | .f32, x => Binary.Survives32 x
  | .f64, x => Binary.Survives64 x
  | .point, p => Binary.Survives32 (Point.x p) ∧ Binary.Survives32 (Point.y p)
  | .value, j => Json.IsValue j
  | .list t, as => ∀ a ∈ (as : List t.Carrier), t.Sound a
  | .option t, a => ∀ b ∈ (a : Option t.Carrier), t.Sound b
  | .pair t u, a => t.Sound a.1 ∧ u.Sound a.2
  | .map t, as =>
    (as : List (String × t.Carrier)).Pairwise (·.1 < ·.1) ∧ ∀ a ∈ (as : List (String × t.Carrier)), t.Sound a.2
  | _, _ => True

variable {t : JsonType}

/-! ## Writing -/

theorem exists_encodeAll {α : Type} {f : α → Option Json} {as : List α} (each : ∀ a ∈ as, ∃ j, f a = some j) :
    ∃ js, encodeAll f as = some js := by
  induction as with
  | nil => exact ⟨[], rfl⟩
  | cons a as ih =>
    obtain ⟨j, first⟩ := each a List.mem_cons_self
    obtain ⟨js, rest⟩ := ih fun b mem => each b (List.mem_cons_of_mem a mem)
    exact ⟨j :: js, by simp only [encodeAll, first, rest]⟩

theorem exists_encodeMembers {α : Type} {f : α → Option Json} {as : List (String × α)}
    (each : ∀ a ∈ as, ∃ j, f a.2 = some j) : ∃ js, encodeMembers f as = some js := by
  induction as with
  | nil => exact ⟨[], rfl⟩
  | cons a as ih =>
    obtain ⟨j, first⟩ := each a List.mem_cons_self
    obtain ⟨js, rest⟩ := ih fun b mem => each b (List.mem_cons_of_mem a mem)
    exact ⟨(a.1, j) :: js, by simp only [encodeMembers, first, rest]⟩

/-- A value of a type that tells its values apart can be written. -/
theorem exists_encode_of_isExact (exact : t.isExact = true) (a : t.Carrier) : ∃ j, t.encode? a = some j := by
  induction t with
  | bool | u8 | i32 | i64 | u64 | f32 | f64 | char | string | point | window | value => exact ⟨_, rfl⟩
  | byteTable => cases exact
  | list t ih =>
    obtain ⟨js, written⟩ := exists_encodeAll fun b (_ : b ∈ (a : List t.Carrier)) => ih exact b
    exact ⟨.array js, by simp only [encode?, written, Option.map_some]⟩
  | option t ih =>
    change Option t.Carrier at a
    cases a with
    | none => exact ⟨.null, rfl⟩
    | some b => exact ih (Bool.and_eq_true_iff.1 exact).1 b
  | pair t u first second =>
    obtain ⟨exactFirst, exactSecond⟩ := Bool.and_eq_true_iff.1 exact
    obtain ⟨i, left⟩ := first exactFirst a.1
    obtain ⟨j, right⟩ := second exactSecond a.2
    exact ⟨.array [i, j], by simp only [encode?, left, right]⟩
  | map t ih =>
    obtain ⟨js, written⟩ := exists_encodeMembers fun b (_ : b ∈ (a : List (String × t.Carrier))) => ih exact b.2
    exact ⟨.object js, by simp only [encode?, written, Option.map_some]⟩

theorem exists_encode (faithful : t.isFaithful = true) (a : t.Carrier) : ∃ j, t.encode? a = some j := by
  induction t with
  | f32 | f64 => exact ⟨_, rfl⟩
  | option t ih =>
    change Option t.Carrier at a
    cases a with
    | none => exact ⟨.null, rfl⟩
    | some b => exact ih faithful b
  | bool | u8 | i32 | i64 | u64 | char | string | point | window | value | byteTable | list _ _ | pair _ _ _ _
  | map _ _ => exact exists_encode_of_isExact faithful a

/-- Whether a value is written as null: an absent one, a null, and a plain number that is not finite. -/
def IsNull : (t : JsonType) → t.Carrier → Prop
  | .f32, x | .f64, x => Binary.isFinite x = false
  | .value, j => (j : Json) = .null
  | .option t, a => ∀ b ∈ (a : Option t.Carrier), t.IsNull b
  | _, _ => False

theorem encode?_eq_null_iff {a : t.Carrier} : t.encode? a = some .null ↔ t.IsNull a := by
  induction t with
  | bool | u8 | i32 | i64 | u64 | char | string | point | window =>
    refine iff_of_false (fun null => ?_) id
    cases null
  | f32 | f64 =>
    simp only [encode?, IsNull, Option.some.injEq]
    cases Binary.isFinite a <;> simp
  | value => exact Option.some_inj
  | byteTable =>
    refine iff_of_false (fun null => ?_) id
    simp only [encode?] at null
    split at null <;> cases null
  | list t | map t =>
    refine iff_of_false (fun null => ?_) id
    obtain ⟨js, -, null⟩ := Option.map_eq_some_iff.1 null
    cases null
  | option t ih =>
    change Option t.Carrier at a
    cases a with
    | none =>
      refine iff_of_true rfl fun b same => ?_
      cases same
    | some b => exact ih.trans ⟨fun null c same => Option.some.inj same ▸ null, fun null => null b rfl⟩
  | pair t u =>
    refine iff_of_false (fun null => ?_) id
    simp only [encode?] at null
    split at null <;> cases null

theorem encode?_ne_null (present : t.mayBeNull = false) (a : t.Carrier) : t.encode? a ≠ some .null := by
  rw [Ne, encode?_eq_null_iff]
  cases t with
  | f32 | f64 | value | option t => cases present
  | _ => exact id

/-! ## Surviving -/

/-- A value that is told from its document wherever it stands survives its text. -/
theorem survives_of_isExact (exact : t.isExact = true) {a : t.Carrier} (sound : t.Sound a) : t.Survives a := by
  induction t with
  | bool | u8 | i32 | i64 | u64 | char | string | window => trivial
  | f32 | f64 | byteTable => cases exact
  | point | value => exact sound
  | list t ih => exact fun b mem => ih exact (sound b mem)
  | option t ih =>
    obtain ⟨inner, present⟩ := Bool.and_eq_true_iff.1 exact
    rw [Bool.not_eq_true'] at present
    exact fun b here => ⟨ih inner (sound b here), encode?_ne_null present b⟩
  | pair t u first second =>
    obtain ⟨exactFirst, exactSecond⟩ := Bool.and_eq_true_iff.1 exact
    exact ⟨first exactFirst sound.1, second exactSecond sound.2⟩
  | map t ih => exact ⟨sound.1, fun b mem => ih exact (sound.2 b mem)⟩

/-- What is not written as null survives its text. -/
theorem survives_of_present (faithful : t.isFaithful = true) {a : t.Carrier} {j : Json} (sound : t.Sound a)
    (written : t.encode? a = some j) (present : j ≠ .null) : t.Survives a := by
  induction t with
  | f32 | f64 =>
    refine ⟨?_, sound⟩
    simp only [encode?, Option.some.injEq] at written
    split at written
    · assumption
    · exact absurd written.symm present
  | option t ih =>
    intro b here
    obtain rfl : a = some b := here
    have inner : t.encode? b = some j := written
    exact ⟨ih faithful (sound b rfl) inner, fun null => present (Option.some.inj (inner.symm.trans null))⟩
  | bool | u8 | i32 | i64 | u64 | char | string | point | window | value | byteTable | list _ _ | pair _ _ _ _
  | map _ _ => exact survives_of_isExact faithful sound

/-- No other text than that of a null is null. -/
theorem render_eq_null (faithful : t.isFaithful = true) {a : t.Carrier} {j : Json} (sound : t.Sound a)
    (written : t.encode? a = some j) : j.render = "null" ↔ j = .null := by
  refine ⟨fun text => ?_, fun null => by rw [null]; rfl⟩
  by_cases null : j = .null
  · exact null
  · obtain ⟨k, read⟩ := decode?_encode? (survives_of_present faithful sound written null) written
    have same : some j.reread = some .null := by
      rw [← Json.ofText?_render, text]
      exact Json.ofText?_render .null
    have sorted := read.sorted
    rw [Option.some.inj same] at sorted
    cases sorted
    exact read.null rfl

/-- The text of a value is null just if the value is absent, a null, or a plain number that is not finite. -/
theorem render_eq_null_iff (faithful : t.isFaithful = true) {a : t.Carrier} {j : Json} (sound : t.Sound a)
    (written : t.encode? a = some j) : j.render = "null" ↔ t.IsNull a := by
  rw [render_eq_null faithful sound written, ← encode?_eq_null_iff, written, Option.some_inj]

end JsonType

/-! ## In a store -/

namespace Storage

open SettingType

/-- What is read after a value was set: its text lies under the key; read from there are the value, as one that
may be absent or not, if its text is not null and nested less deep than a document may be, and the defaults if it
is null. No other key is touched. -/
theorem document_round_trip {t : JsonType} (faithful : t.isFaithful = true) (s : Storage) (key : String)
    {v : t.Carrier} (sound : t.Sound v) (default : t.Carrier) (absent : Option t.Carrier) :
    let s' := s.setSetting (.document t) key v
    ∃ j, t.encode? v = some j ∧ s'.find? key = some (.ofString j.render) ∧
      s.setSetting (.optionalDocument t) key (some v) = s' ∧
      (j.render ≠ "null" → j.depth < Json.depthLimit →
        (s'.getSetting (.document t) key default).2 = v ∧
          (s'.getSetting (.optionalDocument t) key absent).2 = some v) ∧
      (j.render = "null" →
        (s'.getSetting (.document t) key default).2 = default ∧
          (s'.getSetting (.optionalDocument t) key absent).2 = absent) ∧
      ∀ other, other ≠ key → s'.find? other = s.find? other := by
  intro s'
  obtain ⟨j, written⟩ := JsonType.exists_encode faithful v
  have change : write (.document t) v = .put (.ofString j.render) := congrArg putDocument written
  have stored : s'.find? key = some (.ofString j.render) := by
    have found := find?_setSetting_self (t := .document t) (x := v) s key (by simp [change])
    rw [stored?, change] at found
    exact found
  have reads (found : Option t.Carrier) (reading : readDocument? t (.ofString j.render) = found) :
      (s'.getSetting (.document t) key default).2 = found.getD default ∧
        (s'.getSetting (.optionalDocument t) key absent).2 = found.or absent := by
    simp only [getSetting, SettingType.read, stored, Option.bind_some, reading]
    cases found <;> exact ⟨trivial, rfl⟩
  refine ⟨j, written, stored, rfl, ?_, ?_, ?_⟩
  · intro text shallow
    have present : j ≠ .null := fun null => text ((JsonType.render_eq_null faithful sound written).2 null)
    have survives := JsonType.survives_of_present faithful sound written present
    exact reads _ (readDocument?_of_survives survives written present shallow)
  · intro text
    obtain rfl := (JsonType.render_eq_null faithful sound written).1 text
    exact reads _ (readDocument?_null t)
  · intro other apart
    exact find?_apply s key other _ (beq_eq_false_iff_ne.2 (Ne.symm apart))

/-- A map is written over a number and read back; the types that settings of user code have are all faithful. -/
theorem document_round_trip_volumes :
    let types : List JsonType := [.bool, .u8, .i32, .u64, .f64, .f32, .char, .string, .list .i32, .option .i32,
      .pair .u8 .string, .map .i64, .window, .point, .value]
    let s : Storage := .memory (.ofList [("theme", .ofString "dark"), ("volumes", ⟨.i32, 3⟩)])
    let volumes : List (String × Int64) := [("left \"L\"", -4), ("right", 9007199254740993)]
    let s' := s.setSetting (.document (JsonType.map .i64)) "volumes" volumes
    (∀ t ∈ types, t.isFaithful = true) ∧ JsonType.Sound (.map .i64) volumes ∧
      (s'.getSetting (.document (JsonType.map .i64)) "volumes" []).2 = volumes ∧
      (s'.getSetting (.optionalDocument (JsonType.map .i64)) "volumes" none).2 = some volumes ∧
      s'.find? "theme" = s.find? "theme" := by
  intro types s volumes s'
  have sound : JsonType.Sound (.map .i64) volumes := ⟨by decide, fun _ _ => trivial⟩
  obtain ⟨j, written, -, -, present, -, others⟩ :=
    document_round_trip (t := .map .i64) rfl s "volumes" sound [] none
  cases written
  obtain ⟨plain, optional⟩ := present (by decide +kernel) (by decide)
  exact ⟨by decide, sound, plain, optional, others "theme" (by decide)⟩

end Storage

end LiveSettings
