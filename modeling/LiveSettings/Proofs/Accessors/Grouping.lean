import LiveSettings.Accessors.Generator

/-!
# Properties by type

A generation collects the candidates of all types in one list, drops those that repeat an earlier one, resolves
the rest to properties and parts these by type. Here what comes of one type is told from the candidates of that
type alone.

Results:
* `Property.group_eq`: the groups are those of the types in the order of their first properties, each with its
  properties in order.
* `eraseDups_filter`, `eraseDups_map`: dropping what is repeated goes with picking and with renaming.
* `Accessors.properties_ofType`: the properties of a type come of its own candidates.
* `Accessors.mem_units`: a unit is what is emitted for the target of its type and the properties of its type.
-/

namespace LiveSettings

/-! ## Without repetition -/

theorem nodup_eraseDups {α : Type} [BEq α] [LawfulBEq α] : (as : List α) → as.eraseDups.Nodup
  | [] => List.nodup_nil
  | a :: as => by
    rw [List.eraseDups_cons, List.nodup_cons]
    refine ⟨?_, nodup_eraseDups _⟩
    simp [List.mem_eraseDups]
termination_by as => as.length
decreasing_by
  exact Nat.lt_succ_of_le (List.length_filter_le _ as)

theorem eraseDups_filter {α : Type} [BEq α] [LawfulBEq α] (p : α → Bool) :
    (as : List α) → (as.filter p).eraseDups = as.eraseDups.filter p
  | [] => rfl
  | a :: as => by
    have rest := eraseDups_filter p (as.filter fun b => !b == a)
    rw [List.eraseDups_cons]
    cases own : p a with
    | true =>
      rw [List.filter_cons_of_pos own, List.filter_cons_of_pos own, List.eraseDups_cons, ← rest, List.filter_filter,
        List.filter_filter]
      simp only [Bool.and_comm]
    | false =>
      have other : ¬ p a = true := by simp only [own, Bool.false_eq_true, not_false_eq_true]
      rw [List.filter_cons_of_neg other, List.filter_cons_of_neg other, ← rest, List.filter_filter]
      congr 1
      refine List.filter_congr fun b _ => ?_
      cases picked : p b with
      | false => rfl
      | true =>
        have apart : (b == a) = false := beq_eq_false_iff_ne.2 fun same => other (same ▸ picked)
        rw [apart]
        rfl
termination_by as => as.length
decreasing_by
  exact Nat.lt_succ_of_le (List.length_filter_le _ as)

theorem eraseDups_map {α β : Type} [BEq α] [LawfulBEq α] [BEq β] [LawfulBEq β] {f : α → β} :
    (as : List α) → (∀ a ∈ as, ∀ b ∈ as, f a = f b → a = b) → (as.map f).eraseDups = as.eraseDups.map f
  | [], _ => rfl
  | a :: as, apart => by
    have others : (as.map f).filter (fun y => !y == f a) = (as.filter fun b => !b == a).map f := by
      rw [List.filter_map]
      congr 1
      refine List.filter_congr fun b mem => ?_
      have same : (f b == f a) = (b == a) := by
        rw [Bool.eq_iff_iff, beq_iff_eq, beq_iff_eq]
        exact ⟨apart b (List.mem_cons_of_mem a mem) a List.mem_cons_self, congrArg f⟩
      rw [Function.comp_apply, same]
    have later : ∀ b ∈ as.filter (fun b => !b == a), ∀ c ∈ as.filter (fun b => !b == a), f b = f c → b = c :=
      fun b hb c hc => apart b (List.mem_cons_of_mem a (List.mem_filter.1 hb).1) c
        (List.mem_cons_of_mem a (List.mem_filter.1 hc).1)
    rw [List.map_cons, List.eraseDups_cons, List.eraseDups_cons, List.map_cons, others, eraseDups_map _ later]
termination_by as => as.length
decreasing_by
  exact Nat.lt_succ_of_le (List.length_filter_le _ as)

theorem eraseDups_of_nodup {α : Type} [BEq α] [LawfulBEq α] {as : List α} (nodup : as.Nodup) :
    as.eraseDups = as := by
  induction as with
  | nil => rfl
  | cons a as ih =>
    obtain ⟨new, nodup⟩ := List.nodup_cons.1 nodup
    have others : as.filter (fun b => !b == a) = as :=
      List.filter_eq_self.2 fun b mem => by
        have other : b ≠ a := fun same => new (same ▸ mem)
        rw [beq_eq_false_iff_ne.2 other, Bool.not_false]
    rw [List.eraseDups_cons, others, ih nodup]

/-! ## Groups -/

namespace Property

/-- The types of properties, each at its first occurrence. -/
def types (ps : List Property) : List TypeId := (ps.map (·.enclosing)).eraseDups

/-- The properties of one type. -/
def ofType (id : TypeId) (ps : List Property) : List Property := ps.filter (·.enclosing = id)

theorem mem_types {ps : List Property} {id : TypeId} : id ∈ types ps ↔ ∃ p ∈ ps, p.enclosing = id := by
  simp [types, List.mem_eraseDups]

theorem nodup_types (ps : List Property) : (types ps).Nodup := nodup_eraseDups _

theorem types_append_singleton (ps : List Property) (p : Property) :
    types (ps ++ [p]) = if p.enclosing ∈ types ps then types ps else types ps ++ [p.enclosing] := by
  have seen : p.enclosing ∈ types ps ↔ (ps.map (·.enclosing)).elem p.enclosing = true := by
    rw [List.elem_iff]
    exact List.mem_eraseDups
  rw [types, List.map_append, List.eraseDups_append, List.removeAll, List.map_cons, List.map_nil]
  split
  · rename_i known
    have found := seen.1 known
    rw [List.filter_cons_of_neg (by simp only [found, Bool.not_true, Bool.false_eq_true, not_false_eq_true])]
    exact List.append_nil _
  · rename_i unknown
    have missing := Bool.eq_false_iff.2 fun found => unknown (seen.2 found)
    rw [List.filter_cons_of_pos (by simp only [missing, Bool.not_false])]
    rfl

/-- Where no type has properties in both lists, the types of the second follow those of the first. -/
theorem types_append_of_apart {ps qs : List Property} (apart : ∀ p ∈ ps, ∀ q ∈ qs, q.enclosing ≠ p.enclosing) :
    types (ps ++ qs) = types ps ++ types qs := by
  have others : (qs.map (·.enclosing)).removeAll (ps.map (·.enclosing)) = qs.map (·.enclosing) := by
    refine List.filter_eq_self.2 fun id mem => ?_
    obtain ⟨q, hq, rfl⟩ := List.mem_map.1 mem
    have absent : q.enclosing ∉ ps.map (·.enclosing) := by
      intro both
      obtain ⟨p, hp, same⟩ := List.mem_map.1 both
      exact apart p hp q hq same.symm
    rw [Bool.not_eq_true', List.elem_eq_mem, decide_eq_false absent]
  rw [types, List.map_append, List.eraseDups_append, others]
  rfl

/-- The types of the properties of some types. -/
theorem types_filter (p : TypeId → Bool) (ps : List Property) :
    types (ps.filter (p ·.enclosing)) = (types ps).filter p := by
  have ids : (ps.filter (p ·.enclosing)).map (·.enclosing) = (ps.map (·.enclosing)).filter p :=
    List.filter_map.symm
  rw [types, ids, eraseDups_filter]
  rfl

/-- Properties of one type. -/
theorem types_of_one {ps : List Property} {id : TypeId} (all : ∀ p ∈ ps, p.enclosing = id) (some : ps ≠ []) :
    types ps = [id] := by
  obtain ⟨p, rest, rfl⟩ := List.exists_cons_of_ne_nil some
  have none : (rest.map (·.enclosing)).filter (fun other => !other == p.enclosing) = [] := by
    rw [List.filter_eq_nil_iff]
    intro other mem
    obtain ⟨q, hq, rfl⟩ := List.mem_map.1 mem
    simp [all q (List.mem_cons_of_mem p hq), all p List.mem_cons_self]
  rw [types, List.map_cons, List.eraseDups_cons, none, all p List.mem_cons_self]
  rfl

theorem ofType_append (id : TypeId) (ps qs : List Property) :
    ofType id (ps ++ qs) = ofType id ps ++ ofType id qs := List.filter_append _ _

/-- A property of a type that has a group is added to it. -/
theorem insertGroup_known (p : Property) {ids : List TypeId} (f : TypeId → List Property) (nodup : ids.Nodup)
    (known : p.enclosing ∈ ids) :
    p.insertGroup (ids.map fun id => (id, f id)) =
      ids.map fun id => (id, if id = p.enclosing then f id ++ [p] else f id) := by
  induction ids with
  | nil => cases known
  | cons id ids ih =>
    obtain ⟨fresh, nodup⟩ := List.nodup_cons.1 nodup
    by_cases same : id = p.enclosing
    · -- the types behind this one are others
      have rest : ∀ other ∈ ids, other ≠ p.enclosing := by
        rintro other mem rfl
        exact fresh (same ▸ mem)
      simp only [List.map_cons, insertGroup, if_pos same]
      congr 1
      refine List.map_congr_left fun other mem => ?_
      rw [if_neg (rest other mem)]
    · have known : p.enclosing ∈ ids := by
        rcases List.mem_cons.1 known with head | tail
        · exact absurd head.symm same
        · exact tail
      simp only [List.map_cons, insertGroup, if_neg same, ih nodup known]

/-- A property of a new type makes a group. -/
theorem insertGroup_new (p : Property) {ids : List TypeId} (f : TypeId → List Property)
    (new : p.enclosing ∉ ids) :
    p.insertGroup (ids.map fun id => (id, f id)) = (ids.map fun id => (id, f id)) ++ [(p.enclosing, [p])] := by
  induction ids with
  | nil => rfl
  | cons id ids ih =>
    have other : id ≠ p.enclosing := fun same => new (same ▸ List.mem_cons_self)
    have new : p.enclosing ∉ ids := fun mem => new (List.mem_cons_of_mem _ mem)
    simp only [List.map_cons, insertGroup, if_neg other, ih new, List.cons_append]

/-- The groups of the properties so far, and of one more. -/
theorem insertGroup_types (ps : List Property) (p : Property) :
    p.insertGroup ((types ps).map fun id => (id, ofType id ps)) =
      (types (ps ++ [p])).map fun id => (id, ofType id (ps ++ [p])) := by
  have appended (id : TypeId) :
      ofType id (ps ++ [p]) = if id = p.enclosing then ofType id ps ++ [p] else ofType id ps := by
    rw [ofType_append]
    by_cases same : id = p.enclosing
    · rw [if_pos same]
      simp [ofType, same]
    · rw [if_neg same]
      simp [ofType, Ne.symm same]
  rw [types_append_singleton]
  split
  · rename_i known
    rw [insertGroup_known p _ (nodup_types ps) known]
    exact List.map_congr_left fun id _ => by rw [appended]
  · rename_i unknown
    have none : ofType p.enclosing ps = [] := by
      refine List.filter_eq_nil_iff.2 fun q mem => ?_
      simp only [decide_eq_true_eq]
      intro same
      exact unknown (mem_types.2 ⟨q, mem, same⟩)
    rw [insertGroup_new p _ unknown, List.map_append]
    congr 1
    · refine List.map_congr_left fun id mem => ?_
      have other : id ≠ p.enclosing := fun same => unknown (same ▸ mem)
      rw [appended, if_neg other]
    · simp only [List.map_cons, List.map_nil, appended, if_pos, none, List.nil_append]

/-- Each type has one group, in the order of first occurrence, with the properties of the type in order. -/
theorem group_eq (ps : List Property) : group ps = (types ps).map fun id => (id, ofType id ps) := by
  have loop (done ps : List Property) :
      ps.foldl (fun groups p => p.insertGroup groups) ((types done).map fun id => (id, ofType id done)) =
        (types (done ++ ps)).map fun id => (id, ofType id (done ++ ps)) := by
    induction ps generalizing done with
    | nil => rw [List.append_nil]; rfl
    | cons p ps ih =>
      rw [List.foldl_cons, insertGroup_types, ih, List.append_assoc]
      rfl
  exact loop [] ps

end Property

/-! ## Candidates -/

namespace Candidate

/-- The properties that a candidate declares; none if its marker cannot be read. -/
def resolved (c : Candidate) : List Property := c.resolve.toOption.getD []

/-- The candidates of one type. -/
def ofType (id : TypeId) (cs : List Candidate) : List Candidate := cs.filter (·.enclosing = id)

theorem dedup_filter (p : Candidate → Bool) (cs : List Candidate) : (dedup cs).filter p = dedup (cs.filter p) :=
  (eraseDups_filter p cs).symm

/-- Candidates that repeat earlier ones add nothing, whatever follows. -/
theorem dedup_insert {as bs : List Candidate} (cs : List Candidate) (old : bs ⊆ as) :
    dedup (as ++ (bs ++ cs)) = dedup (as ++ cs) := by
  have known : bs.removeAll as = [] :=
    List.filter_eq_nil_iff.2 fun b mem => by simpa using old mem
  rw [dedup, dedup, List.eraseDups_append, List.eraseDups_append, List.removeAll, List.filter_append,
    ← List.removeAll, known, List.nil_append, ← List.removeAll]

/-- Candidates that repeat earlier ones add nothing. -/
theorem dedup_append_of_subset {as bs : List Candidate} (old : bs ⊆ as) : dedup (as ++ bs) = dedup as := by
  have inserted := dedup_insert [] old
  rwa [List.append_nil, List.append_nil] at inserted

/-- Where no candidate occurs in both lists, repeated ones are dropped in each by itself. -/
theorem dedup_append_of_disjoint {as bs : List Candidate} (apart : ∀ b ∈ bs, b ∉ as) :
    dedup (as ++ bs) = dedup as ++ dedup bs := by
  have new : bs.removeAll as = bs :=
    List.filter_eq_self.2 fun b mem => by simpa using apart b mem
  rw [dedup, List.eraseDups_append, new]
  rfl

/-- A candidate with a property has a marker that could be read. -/
theorem mem_properties_of_resolved {c : Candidate} {p : Property} (h : p ∈ c.resolved) :
    ∃ s, Marker.find c.attrs = .ok (some s) ∧ p ∈ c.properties s := by
  unfold resolved resolve at h
  cases found : Marker.find c.attrs with
  | error e => simp [found, bind, Except.bind, Except.toOption] at h
  | ok marker =>
    cases marker with
    | none => simp [found, bind, Except.bind, pure, Except.pure, Except.toOption] at h
    | some s => exact ⟨s, rfl, by simpa [found, bind, Except.bind, pure, Except.pure, Except.toOption] using h⟩

/-- The properties of a candidate are of its type. -/
theorem enclosing_of_mem_resolved {c : Candidate} {p : Property} (h : p ∈ c.resolved) :
    p.enclosing = c.enclosing := by
  obtain ⟨s, -, mem⟩ := mem_properties_of_resolved h
  obtain ⟨v, -, made⟩ := List.mem_filterMap.1 mem
  obtain ⟨d, -, rfl⟩ := Option.map_eq_some_iff.1 made
  rfl

/-- The properties of some types among those of candidates. -/
theorem filter_flatMap_resolved (p : TypeId → Bool) (cs : List Candidate) :
    (cs.flatMap resolved).filter (p ·.enclosing) = (cs.filter (p ·.enclosing)).flatMap resolved := by
  induction cs with
  | nil => rfl
  | cons c cs ih =>
    rw [List.flatMap_cons, List.filter_append, ih]
    cases own : p c.enclosing with
    | true =>
      have all : c.resolved.filter (p ·.enclosing) = c.resolved :=
        List.filter_eq_self.2 fun q mem => by rw [enclosing_of_mem_resolved mem, own]
      have picked : (c :: cs).filter (p ·.enclosing) = c :: cs.filter (p ·.enclosing) :=
        List.filter_cons_of_pos own
      rw [picked, all, List.flatMap_cons]
    | false =>
      have none : c.resolved.filter (p ·.enclosing) = [] :=
        List.filter_eq_nil_iff.2 fun q mem => by
          simp only [enclosing_of_mem_resolved mem, own, Bool.false_eq_true, not_false_eq_true]
      have dropped : (c :: cs).filter (p ·.enclosing) = cs.filter (p ·.enclosing) :=
        List.filter_cons_of_neg (by simp only [own, Bool.false_eq_true, not_false_eq_true])
      rw [dropped, none, List.nil_append]

end Candidate

/-! ## Outcomes -/

namespace Accessors

/-- The properties of some types come of their own candidates. -/
theorem properties_filter (findings : List Finding) (p : TypeId → Bool) :
    (properties findings).filter (p ·.enclosing) =
      (Candidate.dedup ((findings.flatMap Finding.candidates).filter (p ·.enclosing))).flatMap
        Candidate.resolved := by
  rw [← Candidate.dedup_filter]
  exact Candidate.filter_flatMap_resolved p _

/-- The properties of a type come of its own candidates. -/
theorem properties_ofType (findings : List Finding) (id : TypeId) :
    Property.ofType id (properties findings) =
      (Candidate.dedup (Candidate.ofType id (findings.flatMap Finding.candidates))).flatMap
        Candidate.resolved :=
  properties_filter findings fun own => decide (own = id)

theorem outcomes_eq (findings : List Finding) :
    outcomes findings = (Property.types (properties findings)).filterMap fun id =>
      outcome findings id (Property.ofType id (properties findings)) := by
  unfold outcomes
  rw [Property.group_eq, List.filterMap_map]
  rfl

theorem outcome_unit {findings : List Finding} {id : TypeId} {ps : List Property} {u : GeneratedUnit}
    (h : outcome findings id ps = some (.inl u)) :
    u.id = id ∧ ∃ t, findTarget? findings id = some t ∧ emit t ps = .ok (some u.emitted) := by
  obtain ⟨t, found, made⟩ := Option.map_eq_some_iff.1 h
  split at made
  · rename_i e emitted
    cases made
    exact ⟨rfl, t, found, emitted⟩
  · cases made
  · cases made
  · cases made

/-- A unit is what is emitted for the target and the properties of its type. -/
theorem mem_units {findings : List Finding} {u : GeneratedUnit} (h : u ∈ (generateFrom findings).units) :
    u.id ∈ Property.types (properties findings) ∧ ∃ t, findTarget? findings u.id = some t ∧
      emit t (Property.ofType u.id (properties findings)) = .ok (some u.emitted) := by
  obtain ⟨outcome, mem, left⟩ := List.mem_filterMap.1 h
  rw [outcomes_eq] at mem
  obtain ⟨id, known, made⟩ := List.mem_filterMap.1 mem
  cases outcome with
  | inr d => cases left
  | inl v =>
    cases left
    obtain ⟨rfl, written⟩ := outcome_unit made
    exact ⟨known, written⟩

end Accessors

end LiveSettings
