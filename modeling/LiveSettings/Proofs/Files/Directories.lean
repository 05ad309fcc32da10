import LiveSettings.Proofs.Files.Ways

/-!
# Making directories

The directories on the way to a path are made from the deepest one that is there already. That only ever adds
directories where nothing lay, and it gets through if no file is in the way.

Results:
* `adds_makeDirectories`: what is added are directories at the places that the paths name.
* `open_of_makeDirectoryAll`: afterwards the way is open.
* `makeDirectoryAll_isOk`: no file in the way and no name that is too long, and the way can be made.
-/

namespace LiveSettings

namespace FileTree

open FilePath (descend trail full isEmptyPiece Names)

/-! ## What is added -/

/-- Whether a tree differs from another only in directories at some places where nothing lay. -/
def Adds (t t' : FileTree) (places : List Place) : Prop :=
  ∀ place, t'.find? place = t.find? place ∨
    t.find? place = none ∧ t'.find? place = some .directory ∧ place ∈ places

section

variable {t t' : FileTree} {places : List Place}

theorem Adds.refl (t : FileTree) (places : List Place) : t.Adds t places := fun _ => .inl rfl

theorem Adds.trans {t'' : FileTree} (h : t.Adds t' places) (h' : t'.Adds t'' places) : t.Adds t'' places := by
  intro place
  rcases h place with same | ⟨free, made, mem⟩
  · rcases h' place with same' | ⟨free', made', mem'⟩
    · exact .inl (same'.trans same)
    · exact .inr ⟨same ▸ free', made', mem'⟩
  · rcases h' place with same' | ⟨free', -, -⟩
    · exact .inr ⟨free, same'.trans made, mem⟩
    · rw [made] at free'
      cases free'

theorem Adds.mono {more : List Place} (h : t.Adds t' places) (sub : places ⊆ more) : t.Adds t' more :=
  fun place => (h place).imp_right fun ⟨free, made, mem⟩ => ⟨free, made, sub mem⟩

theorem Adds.grows (h : t.Adds t' places) : t.Grows t' := by
  intro place node found
  rcases h place with same | ⟨free, -, -⟩
  · rw [same, found]
  · rw [found] at free
    cases free

theorem adds_put {place : Place} (free : t.find? place = none) (mem : place ∈ places) :
    t.Adds (t.put place .directory) places := by
  intro other
  by_cases same : place = other
  · subst same
    have below : place ≠ [] := fun root => by
      rw [root] at free
      cases free
    exact .inr ⟨free, by rw [find?_put _ _ _ _ below, if_pos rfl], mem⟩
  · exact .inl (find?_put_of_ne same)

/-! ## One directory -/

variable {p : FilePath}

/-- A slot of a path is the place that it names. -/
theorem Leads.place_eq {slot : Slot} (h : t.Leads p slot) :
    slot.place = p.target ∧ ∃ before last, t.Open [] before ∧ IsShort last ∧ p.steps = full (before ++ [last]) := by
  obtain ⟨-, ⟨last, before, ends, walked, dot, up, name⟩, directory, short, -⟩ := h
  have letters : last.isEmpty = false := by
    have := List.head?_dropWhile_not (·.isEmpty) p.pieces.reverse
    simpa [ends] using this
  have names : Names last := by
    refine ⟨?_, up⟩
    rw [isEmptyPiece, letters]
    exact beq_eq_false_iff_ne.2 dot
  have pieces : p.pieces = before.reverse ++ [last] ++ (p.pieces.reverse.takeWhile (·.isEmpty)).reverse := by
    have parts := congrArg List.reverse (@List.takeWhile_append_dropWhile _ (·.isEmpty) p.pieces.reverse)
    rw [ends, List.reverse_append, List.reverse_cons, List.reverse_reverse] at parts
    exact parts.symm
  have silent : ∀ b ∈ (p.pieces.reverse.takeWhile (·.isEmpty)).reverse, isEmptyPiece b = true := by
    intro b mem
    have empty := (List.all_eq_true.1 List.all_takeWhile) b (List.mem_reverse.1 mem)
    rw [isEmptyPiece, empty]
    rfl
  have steps : p.steps = full (before.reverse ++ [last]) := by
    rw [FilePath.steps]
    conv => lhs; rw [pieces, FilePath.full_append, FilePath.full_of_empty silent, List.append_nil]
  refine ⟨?_, before.reverse, last, open_of_walk walked directory, by rwa [IsShort, ← name], steps⟩
  rw [FilePath.target, steps, FilePath.foldl_descend_full, List.foldl_append, ← eq_of_walk walked, List.foldl_cons,
    List.foldl_nil, descend_of_names names, ← name]
  rfl

theorem Open.concat {here : Place} {pieces : List (List Char)} {piece : List Char} (way : t.Open here pieces)
    (short : IsShort piece) (there : t.find? (descend (pieces.foldl descend here) piece) = some .directory) :
    t.Open here (pieces ++ [piece]) := by
  refine ⟨fun place mem => ?_, fun other mem => ?_⟩
  · rw [FilePath.trail_concat] at mem
    rcases List.mem_append.1 mem with before | last
    · exact way.directories place before
    · rw [List.mem_singleton.1 last]
      exact there
  · rcases List.mem_append.1 mem with before | last
    · exact way.short other before
    · rw [List.mem_singleton.1 last]
      exact short

/-- A directory that is made lies at a place where nothing lay, with an open way to it. -/
theorem makeDirectory_spec (h : t.makeDirectory p = .ok t') :
    t.find? p.target = none ∧ t' = t.put p.target .directory ∧ t'.Open [] p.steps := by
  unfold makeDirectory at h
  split at h
  · cases h
  · cases h
  · rename_i slot found
    obtain ⟨place, before, last, way, short, steps⟩ := (leads_of_resolveSlot found).place_eq
    rw [place] at h
    split at h
    · cases h
    · rename_i free
      have free : t.find? p.target = none := by simpa using free
      cases h
      refine ⟨free, rfl, ?_⟩
      have grows := (adds_put free List.mem_cons_self : t.Adds _ [p.target]).grows
      rw [steps, open_full_iff]
      refine (way.keeps grows.keeps).concat short ?_
      have target : descend (before.foldl descend []) last = p.target := by
        rw [FilePath.target, steps, FilePath.foldl_descend_full, List.foldl_append]
        rfl
      rw [target, find?_put _ _ _ _ (fun root => by rw [root] at free; cases free), if_pos rfl]

theorem open_of_isDirectory (h : t.isDirectory p = true) : t.Open [] p.steps := by
  unfold isDirectory at h
  cases resolved : t.resolve p with
  | error e => simp [resolved] at h
  | ok place =>
    simp only [resolved, beq_iff_eq] at h
    rw [FilePath.steps, open_full_iff]
    exact open_of_walk (resolve_eq_ok_iff.1 resolved).2 h

theorem isDirectory_of_open (valid : pathError? p = none) (way : t.Open [] p.steps) : t.isDirectory p = true := by
  rw [FilePath.steps, open_full_iff] at way
  have resolved : t.resolve p = .ok (p.pieces.foldl descend []) := resolve_eq_ok_iff.2 ⟨valid, walk_of_open way⟩
  simp only [isDirectory, resolved, way.finish, beq_self_eq_true]

end

/-! ## Directories above one another -/

/-- What becomes of a call that makes no directory: there may be one already. -/
def settle (t : FileTree) (p : FilePath) (e : IoError) : FileTree × Except IoError Unit :=
  if t.isDirectory p then (t, .ok ()) else (t, .error e)

theorem settle_fst (t : FileTree) (p : FilePath) (e : IoError) : (t.settle p e).1 = t := by
  unfold settle
  split <;> rfl

/-- Directories above one another, where the deepest is made, settles or has to wait for those above. -/
theorem makeDirectories_cons (t : FileTree) (p : FilePath) (above : List FilePath) :
    (∃ made, t.makeDirectory p = .ok made ∧ t.makeDirectories (p :: above) = (made, .ok ())) ∨
    (∃ e, t.makeDirectory p = .error e ∧ e ≠ .notFound ∧ t.makeDirectories (p :: above) = t.settle p e) ∨
    t.makeDirectory p = .error .notFound ∧
      ((∃ upper e, t.makeDirectories above = (upper, .error e) ∧
          t.makeDirectories (p :: above) = (upper, .error e)) ∨
        ∃ upper, t.makeDirectories above = (upper, .ok ()) ∧
          ((∃ made, upper.makeDirectory p = .ok made ∧ t.makeDirectories (p :: above) = (made, .ok ())) ∨
            ∃ e, upper.makeDirectory p = .error e ∧ t.makeDirectories (p :: above) = upper.settle p e)) := by
  unfold settle
  rw [makeDirectories]
  cases first : t.makeDirectory p with
  | ok made => exact .inl ⟨made, rfl, rfl⟩
  | error e =>
    by_cases missing : e = .notFound
    · subst missing
      refine .inr (.inr ⟨rfl, ?_⟩)
      rcases upper : t.makeDirectories above with ⟨t₁, e | ⟨⟩⟩
      · exact .inl ⟨t₁, e, rfl, rfl⟩
      · refine .inr ⟨t₁, rfl, ?_⟩
        cases second : t₁.makeDirectory p with
        | ok made => exact .inl ⟨made, rfl, by simp only [second]⟩
        | error e => exact .inr ⟨e, rfl, by simp only [second]⟩
    · refine .inr (.inl ⟨e, rfl, missing, ?_⟩)
      split
      · rename_i same
        cases same
      · rename_i same
        exact absurd (Except.error.inj same) missing
      · rename_i other same
        cases same
        rfl

/-- What is added are directories at the places that the paths name. -/
theorem adds_makeDirectories (t : FileTree) (ps : List FilePath) :
    t.Adds (t.makeDirectories ps).1 (ps.map (·.target)) := by
  induction ps with
  | nil => exact .refl t _
  | cons p above ih =>
    have later : t.Adds (t.makeDirectories above).1 ((p :: above).map (·.target)) :=
      ih.mono (List.subset_cons_self _ _)
    have adds {u u' : FileTree} (made : u.makeDirectory p = .ok u') : u.Adds u' ((p :: above).map (·.target)) := by
      obtain ⟨free, rfl, -⟩ := makeDirectory_spec made
      exact adds_put free List.mem_cons_self
    rcases t.makeDirectories_cons p above with ⟨made, first, run⟩ | ⟨e, -, -, run⟩ |
      ⟨-, ⟨upper, e, before, run⟩ | ⟨upper, before, ⟨made, second, run⟩ | ⟨e, -, run⟩⟩⟩
    · rw [run]
      exact adds first
    · rw [run, settle_fst]
      exact .refl t _
    · rw [run]
      rwa [before] at later
    · rw [run]
      rw [before] at later
      exact later.trans (adds second)
    · rw [run, settle_fst]
      rwa [before] at later

/-! ## A path and those above it -/

section

variable {t t' : FileTree} {p q : FilePath}

theorem missingPaths_of_parent? (h : q.parent? = some p) : missingPaths q = q :: missingPaths p := by
  have letters : q.text.isEmpty = false := by
    have shorter := FilePath.length_of_parent? h
    rw [Bool.eq_false_iff]
    intro empty
    rw [String.isEmpty_iff.1 empty] at shorter
    exact Nat.not_lt_zero _ shorter
  rw [missingPaths, FilePath.ancestors_of_parent? h, List.takeWhile_cons_of_pos (by rw [letters, h]; rfl)]
  rfl

theorem missingPaths_of_parent?_none (h : q.parent? = none) : missingPaths q = [] := by
  obtain ⟨rest, ancestors⟩ : ∃ rest, q.ancestors = q :: rest := by
    unfold FilePath.ancestors FilePath.ancestorsLoop
    split <;> exact ⟨_, rfl⟩
  rw [missingPaths, ancestors, List.takeWhile_cons_of_neg (by simp [h])]

/-- Paths are taken from the shortest on, so what is made lies on the way to the longest. -/
theorem target_mem_trail_of_mem_missingPaths (h : p ∈ missingPaths q) : p.target ∈ trail [] q.steps := by
  induction q using FilePath.parent_induction with
  | top q parent =>
    rw [missingPaths_of_parent?_none parent] at h
    cases h
  | below q r parent ih =>
    rw [missingPaths_of_parent? parent] at h
    rcases List.mem_cons.1 h with rfl | above
    · exact FilePath.mem_trail_end [] p.steps
    · obtain ⟨tail, steps, -⟩ := FilePath.steps_of_parent? parent
      rw [steps]
      exact FilePath.mem_trail_append (ih above) tail

/-- What is added on the way to a path are directories on that way, whether all of them are made or not. -/
theorem adds_of_suffix {ps : List FilePath} (h : ps <:+ missingPaths q) :
    t.Adds (t.makeDirectories ps).1 (trail [] q.steps) := by
  refine (t.adds_makeDirectories ps).mono fun place mem => ?_
  obtain ⟨p, made, rfl⟩ := List.mem_map.1 mem
  exact target_mem_trail_of_mem_missingPaths (h.subset made)

theorem adds_makeDirectoryAll (t : FileTree) (q : FilePath) :
    t.Adds (t.makeDirectoryAll q).1 (trail [] q.steps) :=
  adds_of_suffix (List.suffix_refl _)

theorem open_of_settle {e : IoError} (h : t.settle q e = (t', .ok ())) : t'.Open [] q.steps := by
  unfold settle at h
  split at h
  · rename_i there
    cases h
    exact open_of_isDirectory there
  · cases h

/-- Where a directory and those above it are made, the way to it is open. -/
theorem open_of_makeDirectoryAll (h : t.makeDirectoryAll q = (t', .ok ())) : t'.Open [] q.steps := by
  cases parent : q.parent? with
  | none =>
    rw [FilePath.steps_of_parent?_none parent]
    exact t'.open_nil
  | some r =>
    rw [makeDirectoryAll, missingPaths_of_parent? parent] at h
    rcases t.makeDirectories_cons q (missingPaths r) with ⟨made, first, run⟩ | ⟨e, -, -, run⟩ |
      ⟨-, ⟨upper, e, -, run⟩ | ⟨upper, -, ⟨made, second, run⟩ | ⟨e, -, run⟩⟩⟩
    all_goals rw [run] at h
    · cases h
      exact (makeDirectory_spec first).2.2
    · exact open_of_settle h
    · cases h
    · cases h
      exact (makeDirectory_spec second).2.2
    · exact open_of_settle h

/-! ## Getting through -/

/-- Whether no file lies at any of some places. -/
def Clear (t : FileTree) (places : List Place) : Prop := ∀ place ∈ places, ∀ bytes, t.find? place ≠ some (.file bytes)

theorem Clear.adds {places made : List Place} (clear : t.Clear places) (h : t.Adds t' made) : t'.Clear places := by
  intro place mem bytes file
  rcases h place with same | ⟨-, directory, -⟩
  · exact clear place mem bytes (same.symm.trans file)
  · rw [directory] at file
    cases file

/-- Where no file is in the way and no name is too long, a walk only ever misses something. -/
theorem open_of_clear {pieces : List (List Char)} (clear : t.Clear (trail [] pieces))
    (short : ∀ piece ∈ pieces, IsShort piece) : t.Open [] pieces ∨ t.walk [] pieces = .error .notFound := by
  induction pieces using List.reverseRecOn with
  | nil => exact .inl t.open_nil
  | append_singleton before last ih =>
    have shortLast : IsShort last := short last (by simp)
    rw [FilePath.trail_concat] at clear
    rcases ih (fun place mem => clear place (List.mem_append_left _ mem))
      (fun piece mem => short piece (List.mem_append_left _ mem)) with way | missing
    · by_cases named : Names last
      · cases found : t.find? (descend (before.foldl descend []) last) with
        | none =>
          refine .inr ?_
          rw [walk_append, walk_of_open way]
          simp only [walk, walkStep_of_names way.finish named, found]
          rw [if_neg shortLast]
          rfl
        | some node =>
          cases node with
          | directory => exact .inl (way.concat shortLast found)
          | file bytes => exact absurd found (clear _ (by simp) bytes)
      · exact .inl (way.concat shortLast (way.directories _ (descend_mem_trail named before)))
    · refine .inr ?_
      rw [walk_append, missing]

/-- One directory is made where the way to it is open and no file is there, or it is there already. -/
theorem settles_of_open (tidy : q.Tidy) (parent : q.parent? = some p) (valid : pathError? q = none)
    (way : t.Open [] p.steps) (clear : t.Clear [q.target]) (short : ∀ piece ∈ q.steps, IsShort piece) :
    (∃ made, t.makeDirectory q = .ok made) ∨ t.isDirectory q = true := by
  obtain ⟨before, last, pieces, -, steps⟩ := tidy.exists_pieces parent
  have shortLast : IsShort last := isShort_full_iff.1 short last (by simp [pieces])
  have wayBefore : t.Open [] before := by rwa [steps, open_full_iff] at way
  have target : q.target = descend (before.foldl descend []) last := by
    rw [FilePath.target_eq, pieces, List.foldl_append]
    rfl
  have there (found : t.find? q.target = some .directory) : t.isDirectory q = true := by
    refine isDirectory_of_open valid ?_
    rw [FilePath.steps, pieces, open_full_iff]
    exact wayBefore.concat shortLast (target ▸ found)
  by_cases named : Names last
  · have slot := (resolveSlot_iff pieces named).2 ⟨valid, wayBefore, shortLast, rfl⟩
    rw [descend_of_names named] at target
    cases found : t.find? q.target with
    | none =>
      refine .inl ⟨t.put q.target .directory, ?_⟩
      simp only [makeDirectory, slot, Slot.place, ← target, found]
      rfl
    | some node =>
      cases node with
      | directory => exact .inr (there found)
      | file bytes => exact absurd found (clear _ List.mem_cons_self bytes)
  · exact .inr (there (target ▸ wayBefore.directories _ (descend_mem_trail named before)))

/-- A directory is missed below one that is missing. -/
theorem makeDirectory_of_missing {before : List (List Char)} {last : List Char} (pieces : q.pieces = before ++ [last])
    (letters : last ≠ []) (valid : pathError? q = none) (missing : t.walk [] before = .error .notFound) :
    t.makeDirectory q = .error .notFound := by
  have reversed : q.pieces.reverse.dropWhile (·.isEmpty) = last :: before.reverse := by simp [pieces, letters]
  simp only [makeDirectory, resolveSlot, valid, reversed, List.reverse_reverse, missing]

theorem pathError?_of_parent? (parent : q.parent? = some p) (valid : pathError? q = none) (filled : p.text ≠ "") :
    pathError? p = none := by
  obtain ⟨c, more, text⟩ := FilePath.text_of_parent? parent
  have written : q.text = p.text ++ String.ofList (c :: more) :=
    String.toList_inj.1 (by rw [text, String.toList_append, String.toList_ofList])
  unfold pathError? at valid ⊢
  rw [text, written, String.utf8ByteSize_append] at valid
  have letters : p.text.isEmpty = false := Bool.eq_false_iff.2 fun empty => filled (String.isEmpty_iff.1 empty)
  rw [letters]
  grind

/-- Where no file is in the way and no name is too long, a directory and those above it can be made. -/
theorem makeDirectoryAll_isOk (tidy : q.Tidy) (valid : q.text ≠ "" → pathError? q = none)
    (clear : t.Clear (trail [] q.steps)) (short : ∀ piece ∈ q.steps, IsShort piece) :
    ∃ t', t.makeDirectoryAll q = (t', .ok ()) := by
  induction q using FilePath.parent_induction with
  | top q parent => exact ⟨t, by rw [makeDirectoryAll, missingPaths_of_parent?_none parent, makeDirectories]⟩
  | below q r parent ih =>
    have valid : pathError? q = none := valid fun empty => by
      have shorter := FilePath.length_of_parent? parent
      rw [empty] at shorter
      exact Nat.not_lt_zero _ shorter
    obtain ⟨tail, steps, -⟩ := FilePath.steps_of_parent? parent
    have clearAbove : t.Clear (trail [] r.steps) := fun place mem =>
      clear place (steps ▸ FilePath.mem_trail_append mem tail)
    have shortAbove : ∀ piece ∈ r.steps, IsShort piece := fun piece mem =>
      short piece (steps ▸ List.mem_append_left _ mem)
    have clearHere : t.Clear [q.target] := fun place mem =>
      clear place (List.mem_singleton.1 mem ▸ FilePath.mem_trail_end [] q.steps)
    obtain ⟨upper, made⟩ : ∃ upper, t.makeDirectoryAll r = (upper, .ok ()) :=
      ih (FilePath.tidy_of_parent? parent) (pathError?_of_parent? parent valid) clearAbove shortAbove
    have added : t.Adds upper (trail [] r.steps) := by simpa [made] using t.adds_makeDirectoryAll r
    have settles {u : FileTree} (way : u.Open [] r.steps) (clear : u.Clear [q.target]) :=
      settles_of_open tidy parent valid way clear short
    have settled {u : FileTree} {e : IoError} (there : u.isDirectory q = true) : u.settle q e = (u, .ok ()) :=
      if_pos there
    rw [makeDirectoryAll, missingPaths_of_parent? parent]
    rw [makeDirectoryAll] at made
    rcases t.makeDirectories_cons q (missingPaths r) with ⟨made, -, run⟩ | ⟨e, first, other, run⟩ |
      ⟨-, ⟨upper', e, failed, -⟩ | ⟨upper', above, ⟨made, -, run⟩ | ⟨e, second, run⟩⟩⟩
    · exact ⟨made, run⟩
    · -- what is not missed has an open way to it
      obtain ⟨before, last, pieces, letters, stepsBefore⟩ := tidy.exists_pieces parent
      have way : t.Open [] r.steps := by
        rw [stepsBefore] at clearAbove shortAbove ⊢
        rw [open_full_iff]
        refine (open_of_clear (fun place mem => clearAbove place (FilePath.mem_trail_full.2 mem))
          (isShort_full_iff.1 shortAbove)).resolve_right fun missing => other ?_
        rw [makeDirectory_of_missing pieces letters valid missing] at first
        exact (Except.error.inj first).symm
      rcases settles way clearHere with ⟨made, again⟩ | there
      · rw [first] at again
        cases again
      · exact ⟨t, run.trans (settled there)⟩
    · rw [made] at failed
      cases failed
    · exact ⟨made, run⟩
    · rw [made] at above
      cases above
      rcases settles (open_of_makeDirectoryAll made) (clearHere.adds added) with ⟨made, again⟩ | there
      · rw [second] at again
        cases again
      · exact ⟨upper, run.trans (settled there)⟩

end

end FileTree

end LiveSettings
