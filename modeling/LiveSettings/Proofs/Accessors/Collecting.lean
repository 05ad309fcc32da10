import LiveSettings.Proofs.Accessors.FrontEnds
import LiveSettings.Proofs.Accessors.Reports
import Mathlib.Data.List.Forall2

/-!
# Collecting properties

Collecting takes each candidate once. Where the marker of one cannot be read, there is an error for each of these and
no property; else there is a property for each variable whose type describes a value. Grouping parts the properties
by their types and loses none.

Results:
* `dedup_eq_firsts`: the candidates that are taken, by their places.
* `resolve_eq_ok_iff`, `resolve_eq_error_iff`: one candidate.
* `combine_eq_ok_iff`, `combine_eq_error_iff`: several attempts.
* `perm_group`: the groups hold every property once.
* `collects_each`: what is collected, and how it is grouped.
-/

namespace LiveSettings

/-! ## What is taken of a candidate -/

def Attr.isMarker (a : Attr) : Bool := a.path.isName Marker.markerName

namespace Candidate

/-- The attributes that are markers. -/
def markers (c : Candidate) : List Attr := c.attrs.filter Attr.isMarker

/-- There are several markers, or one that cannot be read. -/
def isUnreadable (c : Candidate) : Bool :=
  2 ≤ c.markers.length || c.markers.any fun a => (Marker.ofAttr a).toOption.isNone

/-- What is reported of a candidate whose marker cannot be read. -/
inductive Refuses (c : Candidate) : Marker.MarkerError → Prop where
  | several (h : 2 ≤ c.markers.length) : Refuses c .duplicateMarker
  | malformed {a : Attr} {e : Marker.MarkerError} (one : c.markers = [a]) (h : Marker.ofAttr a = .error e) :
    Refuses c e

/-- The property of a variable, if its type describes a value. -/
def record? (c : Candidate) (s : Marker.Settings) (documentation : Option String) (v : String × Ty) :
    Option Property :=
  (Descriptor.ofTy? v.2).map fun d => ⟨v.1, d, c.enclosing, documentation, s.key, s.raiseEvent, s.strategy⟩

/-- The properties of a candidate with a marker, of which the one of the first variable has the documentation. -/
def records (c : Candidate) : List Property :=
  match c.markers.map Marker.ofAttr, c.variables with
  | [.ok s], v :: vs => (c.record? s (Marker.documentation? c.attrs) v).toList ++ vs.filterMap (c.record? s none)
  | _, _ => []

/-- The candidate at this place is none of those before it. -/
def isFirst (cs : List Candidate) (place : Candidate × Nat) : Bool := place.1 ∉ cs.take place.2

/-- The candidates that repeat no earlier one. -/
def firsts (cs : List Candidate) : List Candidate := (cs.zipIdx.filter (isFirst cs)).map (·.1)

/-! ## First places -/

theorem isFirst_append (before : List Candidate) (c : Candidate) (cs : List Candidate) :
    isFirst (before ++ c :: cs) (c, before.length) = decide (c ∉ before) := by
  rw [isFirst, List.take_left]

/-- Of the candidates, those that repeat no earlier one are kept. -/
theorem dedup_eq_firsts (cs : List Candidate) : dedup cs = firsts cs := by
  -- behind some candidates, those are kept that are not among these
  have loop (before cs : List Candidate) : cs.eraseDups.filter (· ∉ before) =
      ((cs.zipIdx before.length).filter (isFirst (before ++ cs))).map (·.1) := by
    induction cs generalizing before with
    | nil => rfl
    | cons c cs ih =>
      have later := ih (before ++ [c])
      rw [List.append_assoc, List.length_append, List.singleton_append, List.length_singleton] at later
      have others : (cs.eraseDups.filter fun b => !b == c).filter (· ∉ before) =
          cs.eraseDups.filter (· ∉ before ++ [c]) := by
        rw [List.filter_filter]
        refine List.filter_congr fun b _ => ?_
        simp [beq_eq_decide]
      rw [List.eraseDups_cons, eraseDups_filter, List.zipIdx_cons]
      by_cases old : c ∈ before
      · rw [List.filter_cons_of_neg (by simpa using old), List.filter_cons_of_neg (by simpa [isFirst_append] using old),
          others, later]
      · rw [List.filter_cons_of_pos (by simpa using old), List.filter_cons_of_pos (by simpa [isFirst_append] using old),
          others, later, List.map_cons]
  have all := loop [] cs
  rwa [List.filter_eq_self.2 fun c _ => by simp] at all

theorem mem_firsts {cs : List Candidate} {c : Candidate} : c ∈ firsts cs ↔ c ∈ cs := by
  rw [← dedup_eq_firsts, mem_dedup]

/-! ## One candidate -/

theorem isUnreadable_eq (c : Candidate) : c.isUnreadable =
    (decide (2 ≤ (c.markers.map Marker.ofAttr).length) || (c.markers.map Marker.ofAttr).any (·.toOption.isNone)) := by
  rw [List.length_map, List.any_map]
  rfl

theorem resolve_eq (c : Candidate) : c.resolve =
    match c.markers.map Marker.ofAttr with
    | [] => .ok []
    | [r] => c.properties <$> r
    | _ => .error .duplicateMarker := by
  have own : c.attrs.filter (·.path.isName Marker.markerName) = c.markers := rfl
  rw [resolve, Marker.find, own]
  generalize c.markers = as
  obtain - | ⟨a, - | ⟨b, as⟩⟩ := as
  · rfl
  · cases read : Marker.ofAttr a <;> simp [read, bind, Except.bind, pure, Except.pure, Functor.map, Except.map]
  · rfl

theorem records_eq_properties {c : Candidate} {s : Marker.Settings} (marked : c.markers.map Marker.ofAttr = [.ok s]) :
    c.records = c.properties s := by
  have later (n : Nat) (vs : List (String × Ty)) : vs.filterMap (c.record? s none) =
      (vs.zipIdx (n + 1)).filterMap fun (v, i) =>
        c.record? s (if i = 0 then Marker.documentation? c.attrs else none) v := by
    induction vs generalizing n with
    | nil => rfl
    | cons v vs ih => simp only [List.zipIdx_cons, List.filterMap_cons, ih (n + 1), Nat.succ_ne_zero, if_false]
  have all : c.properties s = c.variables.zipIdx.filterMap fun (v, i) =>
      c.record? s (if i = 0 then Marker.documentation? c.attrs else none) v := rfl
  rw [records, marked, all]
  cases c.variables with
  | nil => rfl
  | cons v vs =>
    simp only [List.zipIdx_cons, List.filterMap_cons, ← later 0, if_true]
    cases c.record? s (Marker.documentation? c.attrs) v <;> rfl

theorem resolve_eq_ok_iff {c : Candidate} {ps : List Property} :
    c.resolve = .ok ps ↔ c.isUnreadable = false ∧ ps = c.records := by
  rw [isUnreadable_eq, resolve_eq]
  match found : c.markers.map Marker.ofAttr with
  | [] => simp [records, found, eq_comm]
  | [.ok s] => simp [records_eq_properties found, Except.toOption, eq_comm]
  | [.error e] => simp [Except.toOption]
  | a :: b :: rest => simp

theorem resolve_eq_error_iff {c : Candidate} {e : Marker.MarkerError} : c.resolve = .error e ↔ c.Refuses e := by
  rw [resolve_eq]
  constructor
  · match found : c.markers with
    | [] => intro h; cases h
    | [a] =>
      intro h
      cases read : Marker.ofAttr a with
      | ok s => simp [read, Functor.map, Except.map] at h
      | error e' =>
        obtain rfl : e' = e := by simpa [read, Functor.map, Except.map] using h
        exact .malformed found read
    | a :: b :: rest =>
      intro h
      cases h
      exact .several (by simp [found])
  · intro refused
    cases refused with
    | several many =>
      match found : c.markers with
      | [] | [_] => simp [found] at many
      | a :: b :: rest => rfl
    | malformed one read => simp [one, read, Functor.map, Except.map]

/-- A candidate is refused just if its marker cannot be read. -/
theorem isNone_resolve (c : Candidate) : c.resolve.toOption.isNone = c.isUnreadable := by
  cases resolved : c.resolve with
  | ok ps => simp [Except.toOption, (resolve_eq_ok_iff.1 resolved).1]
  | error e =>
    cases readable : c.isUnreadable with
    | true => rfl
    | false =>
      have fine : c.resolve = .ok c.records := resolve_eq_ok_iff.2 ⟨readable, rfl⟩
      rw [resolved] at fine
      cases fine

/-! ## Several attempts -/

variable {ε α : Type} {rs : List (Except ε (List α))}

theorem combine_eq_ok_iff {as : List α} :
    combine rs = .ok as ↔ ∃ ass : List (List α), rs = ass.map .ok ∧ as = ass.flatten := by
  refine ⟨combine_ok, ?_⟩
  rintro ⟨ass, rfl, rfl⟩
  induction ass with
  | nil => rfl
  | cons bs ass ih => simp [combine, ih]

/-- Attempts of which some fail give an error for each of these. -/
theorem combine_eq_error_iff {es : List ε} : combine rs = .error es ↔
    (∃ r ∈ rs, r.toOption.isNone = true) ∧
      List.Forall₂ (fun r e => r = .error e) (rs.filter (·.toOption.isNone)) es := by
  induction rs generalizing es with
  | nil => simp [combine]
  | cons r rs ih =>
    cases r with
    | ok as =>
      have same : combine (.ok as :: rs) = .error es ↔ combine rs = .error es := by
        simp only [combine]
        cases combine rs <;> simp
      rw [same, ih, List.filter_cons_of_neg (by simp [Except.toOption])]
      simp [Except.toOption]
    | error e =>
      rw [List.filter_cons_of_pos (by simp [Except.toOption])]
      simp only [combine]
      cases others : combine rs with
      | ok bs =>
        obtain ⟨ass, rfl, -⟩ := combine_eq_ok_iff.1 others
        have none : (ass.map (.ok : List α → Except ε (List α))).filter (·.toOption.isNone) = [] :=
          List.filter_eq_nil_iff.2 (by simp [Except.toOption])
        simp only [none]
        constructor
        · intro h
          cases h
          exact ⟨⟨.error e, List.mem_cons_self, rfl⟩, .cons rfl .nil⟩
        · rintro ⟨-, all⟩
          cases all with
          | cons first rest =>
            cases first
            cases rest
            rfl
      | error es' =>
        obtain ⟨some, each⟩ := ih.1 others
        constructor
        · intro h
          cases h
          exact ⟨⟨.error e, List.mem_cons_self, rfl⟩, .cons rfl each⟩
        · rintro ⟨-, all⟩
          cases all with
          | cons first rest =>
            cases first
            have later := ih.2 ⟨some, rest⟩
            rw [others] at later
            cases later
            rfl

/-! ## All candidates -/

theorem collect_eq_ok_iff {cs : List Candidate} {ps : List Property} :
    collect cs = .ok ps ↔ (∀ c ∈ cs, c.isUnreadable = false) ∧ ps = (firsts cs).flatMap records := by
  rw [← dedup_eq_firsts]
  constructor
  · intro h
    obtain ⟨each, rfl⟩ := collect_ok h
    have known (c : Candidate) (mem : c ∈ dedup cs) := resolve_eq_ok_iff.1 (each c mem)
    exact ⟨fun c mem => (known c (mem_dedup.2 mem)).1, List.flatMap_congr fun c mem => (known c mem).2⟩
  · rintro ⟨fine, rfl⟩
    refine combine_eq_ok_iff.2 ⟨(dedup cs).map records, ?_, List.flatMap_def⟩
    rw [List.map_map]
    exact List.map_congr_left fun c mem => resolve_eq_ok_iff.2 ⟨fine c (mem_dedup.1 mem), rfl⟩

theorem collect_eq_error_iff {cs : List Candidate} {es : List Marker.MarkerError} :
    collect cs = .error es ↔ (∃ c ∈ cs, c.isUnreadable = true) ∧
      List.Forall₂ Refuses ((firsts cs).filter isUnreadable) es := by
  have bad : ((fun r : Except Marker.MarkerError (List Property) => r.toOption.isNone) ∘ resolve) = isUnreadable :=
    funext isNone_resolve
  rw [collect, dedup_eq_firsts, combine_eq_error_iff, List.filter_map, bad, List.forall₂_map_left_iff]
  simp only [List.mem_map, exists_exists_and_eq_and, isNone_resolve, resolve_eq_error_iff, mem_firsts]

/-- A candidate that repeats an earlier one changes nothing. -/
theorem collect_insert (c : Candidate) (front middle back : List Candidate) :
    collect (front ++ c :: (middle ++ c :: back)) = collect (front ++ c :: (middle ++ back)) := by
  have old : [c] ⊆ front ++ c :: middle := by simp
  have inserted := dedup_insert back old
  simp only [List.append_assoc, List.cons_append, List.nil_append] at inserted
  rw [collect, collect, inserted]

end Candidate

/-! ## Groups -/

namespace Property

theorem perm_insertGroup (p : Property) (groups : List (TypeId × List Property)) :
    ((p.insertGroup groups).flatMap (·.2)).Perm (p :: groups.flatMap (·.2)) := by
  induction groups with
  | nil => exact .refl _
  | cons g groups ih =>
    obtain ⟨t, ps⟩ := g
    unfold insertGroup
    split
    · simp only [List.flatMap_cons, List.append_assoc]
      exact List.perm_middle
    · simp only [List.flatMap_cons]
      exact (ih.append_left ps).trans List.perm_middle

/-- The groups hold every property once. -/
theorem perm_group (ps : List Property) : ((group ps).flatMap (·.2)).Perm ps := by
  have loop (groups : List (TypeId × List Property)) :
      ((ps.foldl (fun groups p => p.insertGroup groups) groups).flatMap (·.2)).Perm (groups.flatMap (·.2) ++ ps) := by
    induction ps generalizing groups with
    | nil => rw [List.append_nil]; exact .refl _
    | cons p ps ih =>
      exact (ih _).trans (((perm_insertGroup p groups).append_right ps).trans List.perm_middle.symm)
  exact loop []

theorem map_fst_group (ps : List Property) : (group ps).map (·.1) = (ps.map (·.enclosing)).eraseDups := by
  rw [group_eq, List.map_map]
  exact List.map_id _

theorem eq_of_mem_group {ps qs : List Property} {id : TypeId} (h : (id, qs) ∈ group ps) :
    qs = ps.filter (·.enclosing = id) := by
  rw [group_eq] at h
  obtain ⟨_, -, same⟩ := List.mem_map.1 h
  cases same
  rfl

end Property

namespace Candidate

/-- Collecting fails just if the marker of some candidate cannot be read, with an error for each of these; else it
gives the properties of each candidate. A candidate that repeats an earlier one changes nothing. Grouping keeps every
property once, in order within its type, and the types in the order of their first properties. -/
theorem collects_each :
    (∀ cs es, collect cs = .error es ↔ (∃ c ∈ cs, c.isUnreadable = true) ∧
      List.Forall₂ Refuses ((firsts cs).filter isUnreadable) es) ∧
    (∀ cs ps, collect cs = .ok ps ↔ (∀ c ∈ cs, c.isUnreadable = false) ∧ ps = (firsts cs).flatMap records) ∧
    (∀ cs, (firsts cs).Nodup ∧ ∀ c, c ∈ firsts cs ↔ c ∈ cs) ∧
    (∀ c front middle back,
      collect (front ++ c :: (middle ++ c :: back)) = collect (front ++ c :: (middle ++ back))) ∧
    ∀ ps, ((Property.group ps).flatMap (·.2)).Perm ps ∧
      (Property.group ps).map (·.1) = (ps.map (·.enclosing)).eraseDups ∧ ((Property.group ps).map (·.1)).Nodup ∧
      ∀ id qs, (id, qs) ∈ Property.group ps → qs = ps.filter (·.enclosing = id) := by
  refine ⟨fun cs es => collect_eq_error_iff, fun cs ps => collect_eq_ok_iff, fun cs => ?distinct,
    collect_insert, fun ps => ?groups⟩
  case distinct =>
    refine ⟨?_, fun c => mem_firsts⟩
    rw [← dedup_eq_firsts]
    exact nodup_eraseDups cs
  case groups =>
    refine ⟨Property.perm_group ps, Property.map_fst_group ps, ?_, fun id qs => Property.eq_of_mem_group⟩
    rw [Property.map_fst_group]
    exact nodup_eraseDups _

/-- A field with two markers, once and twice, and another twice. -/
theorem collects_each_twice :
    let marker : Attr := ⟨⟨false, [Marker.markerName]⟩, .none⟩
    let width : Candidate := .single ⟨["app"], "Window"⟩ [marker] "width" (.named ["i32"])
    let height : Candidate := .single ⟨["app"], "Window"⟩ [marker, marker] "height" (.named ["i32"])
    collect [width, width] = .ok width.records ∧ width.records.map (·.field) = ["width"] ∧
      collect [height, width, height] = .error [.duplicateMarker] := by
  intro marker width height
  obtain ⟨fails, succeeds, -, repeated, -⟩ := collects_each
  refine ⟨?_, rfl, (fails _ _).2 ⟨⟨height, by simp, rfl⟩, ?_⟩⟩
  · have once := repeated width [] [] []
    refine Eq.trans once ((succeeds _ _).2 ⟨?_, rfl⟩)
    rintro c mem
    obtain rfl := List.mem_singleton.1 mem
    rfl
  · have kept : (firsts [height, width, height]).filter isUnreadable = [height] := rfl
    rw [kept]
    exact .cons (.several (Nat.le_refl 2)) .nil

end Candidate

end LiveSettings
