import LiveSettings.Proofs.Files.Directories

/-!
# Trees that hang together

In a file system everything lies in a directory, and every call on files keeps it so. Then nothing lies below a
place where nothing lies. A path that leads only down behind the directories on its way is therefore missing for
good until its own place is taken.

Results:
* `grounded_makeDirectories`, `grounded_write`, `grounded_rename`: the calls keep a tree grounded.
* `read_of_adds`: directories on the way to a missing file do not let it appear.
* `Straight.directory_of_mem_trail`: where something lies at the end of such a path, directories lead to it.

Limitations: the tree has no links, so a place is known by its names.
-/

namespace LiveSettings

namespace FileTree

open FilePath (descend trail full isEmptyPiece Names)

/-- Whether all that lies somewhere lies in a directory. -/
def Grounded (t : FileTree) : Prop :=
  ∀ place name node, t.find? (place ++ [name]) = some node → t.find? place = some .directory

section

variable {t t' : FileTree} {place : Place}

theorem grounded_empty : Grounded .empty := by
  intro place name node found
  have free : empty.find? (place ++ [name]) = none := by simp [find?, empty, lookup]
  rw [free] at found
  cases found

theorem Grounded.above (h : t.Grounded) {more : Place} {node : Node} (found : t.find? (place ++ more) = some node)
    (below : more ≠ []) : t.find? place = some .directory := by
  induction more using List.reverseRecOn generalizing node with
  | nil => exact absurd rfl below
  | append_singleton more name ih =>
    rw [← List.append_assoc] at found
    have around := h _ name node found
    rcases eq_or_ne more [] with rfl | deeper
    · rwa [List.append_nil] at around
    · exact ih around deeper

theorem Grounded.put (h : t.Grounded) {node : Node} (around : t.find? place.dropLast = some .directory)
    (keeps : t.Keeps (t.put place node)) : (t.put place node).Grounded := by
  intro other name found there
  refine keeps other ?_
  rw [find?_put _ _ _ _ (by simp)] at there
  split at there
  · rename_i same
    rwa [same, List.dropLast_concat] at around
  · exact h other name found there

theorem Grounded.remove (h : t.Grounded) (file : t.find? place ≠ some .directory) : (t.remove place).Grounded := by
  intro other name found there
  refine keeps_remove file other ?_
  rw [find?_remove _ _ _ (by simp)] at there
  split at there
  · cases there
  · exact h other name found there

/-! ## Calls -/

variable {p source : FilePath} {bytes : ByteArray}

theorem grounded_makeDirectory (h : t.Grounded) (made : t.makeDirectory p = .ok t') : t'.Grounded := by
  obtain ⟨free, rfl, way⟩ := makeDirectory_spec made
  have around : (t.put p.target .directory).find? p.target.dropLast = some .directory :=
    way.directories _ (FilePath.dropLast_mem_trail (FilePath.mem_trail_end [] p.steps))
  have keeps : t.Keeps (t.put p.target .directory) := keeps_put _ (by simp [free])
  refine h.put ?_ keeps
  by_cases root : p.target.dropLast = []
  · rw [root]
    rfl
  · rw [find?_put _ _ _ _ root] at around
    split at around
    · rename_i same
      have shorter := congrArg List.length same
      have below : p.target ≠ [] := fun bare => root (by rw [bare]; rfl)
      have := List.length_pos_iff.2 below
      rw [List.length_dropLast] at shorter
      omega
    · exact around

theorem grounded_makeDirectories (h : t.Grounded) (ps : List FilePath) : (t.makeDirectories ps).1.Grounded := by
  induction ps with
  | nil => exact h
  | cons p above ih =>
    rcases t.makeDirectories_cons p above with ⟨made, first, run⟩ | ⟨e, -, -, run⟩ |
      ⟨-, ⟨upper, e, before, run⟩ | ⟨upper, before, ⟨made, second, run⟩ | ⟨e, -, run⟩⟩⟩
    all_goals rw [run]
    · exact grounded_makeDirectory h first
    · rwa [settle_fst]
    · rwa [before] at ih
    · rw [before] at ih
      exact grounded_makeDirectory ih second
    · rw [settle_fst]
      rwa [before] at ih

theorem dropLast_place (slot : Slot) : slot.place.dropLast = slot.directory := List.dropLast_concat

theorem grounded_write (h : t.Grounded) (written : t.write p bytes = .ok t') : t'.Grounded := by
  obtain ⟨slot, leads, -, rfl, keeps⟩ := exists_of_write written
  exact h.put (by rw [dropLast_place]; exact (leads_of_resolveSlot leads).directory) keeps

theorem grounded_rename (h : t.Grounded) (moved : t.rename source p = .ok t') : t'.Grounded := by
  obtain ⟨old, new, bytes, -, there, -, file, free, rfl⟩ := exists_of_rename moved
  have other : t.find? old.place ≠ some .directory := by simp [file]
  refine (h.remove other).put ?_ (keeps_put _ (remove_ne_directory free))
  rw [dropLast_place]
  exact keeps_remove other _ (leads_of_resolveSlot there).directory

/-! ## Missing for good -/

variable {here : Place} {pieces : List (List Char)}

theorem foldl_descend_of_names (names : ∀ piece ∈ pieces, Names piece) (here : Place) :
    pieces.foldl descend here = here ++ pieces.map String.ofList := by
  induction pieces generalizing here with
  | nil => exact (List.append_nil here).symm
  | cons piece rest ih =>
    rw [List.foldl_cons, descend_of_names (names piece List.mem_cons_self),
      ih fun piece mem => names piece (List.mem_cons_of_mem _ mem), List.append_assoc]
    rfl

/-- Steps that lead down pass the places on the way down. -/
theorem exists_of_mem_trail (names : ∀ piece ∈ pieces, Names piece) (mem : place ∈ trail here pieces) :
    ∃ taken left, pieces = taken ++ left ∧ place = here ++ taken.map String.ofList := by
  induction pieces generalizing here with
  | nil => exact ⟨[], [], rfl, by rw [List.mem_singleton.1 mem]; exact (List.append_nil here).symm⟩
  | cons piece rest ih =>
    rcases List.mem_cons.1 mem with rfl | mem
    · exact ⟨[], piece :: rest, rfl, (List.append_nil place).symm⟩
    · obtain ⟨taken, left, rfl, ends⟩ := ih (fun piece mem => names piece (List.mem_cons_of_mem _ mem)) mem
      refine ⟨piece :: taken, left, rfl, ?_⟩
      rw [ends, descend_of_names (names piece List.mem_cons_self), List.append_assoc]
      rfl

theorem Grounded.dropLast (h : t.Grounded) (found : t.find? here = some .directory) :
    t.find? here.dropLast = some .directory := by
  rcases List.eq_nil_or_concat here with rfl | ⟨around, name, ends⟩
  · exact found
  · rw [List.concat_eq_append] at ends
    rw [ends] at found ⊢
    rw [List.dropLast_concat]
    exact h around name _ found

/-- A step comes to something. -/
theorem Grounded.find?_of_walkStep (h : t.Grounded) {piece : List Char} {next : Place}
    (step : t.walkStep here piece = .ok next) : t.find? next ≠ none := by
  obtain ⟨start, -, rfl, reaches⟩ := walkStep_eq_ok_iff.1 step
  by_cases named : Names piece
  · exact Option.isSome_iff_ne_none.1 (reaches named)
  · unfold descend
    split
    · simp [start]
    · rename_i silent
      split
      · simp [h.dropLast start]
      · rename_i up
        exact absurd ⟨Bool.eq_false_iff.2 silent, fun same => up (beq_iff_eq.2 same)⟩ named

theorem Grounded.find?_of_walk (h : t.Grounded) (start : t.find? here ≠ none) (walked : t.walk here pieces = .ok place) :
    t.find? place ≠ none := by
  induction pieces generalizing here with
  | nil =>
    cases walked
    exact start
  | cons piece rest ih =>
    simp only [walk] at walked
    split at walked
    · rename_i next step
      exact ih (h.find?_of_walkStep step) walked
    · cases walked

/-- What a walk misses is a name in a directory. -/
theorem Grounded.exists_of_walk (h : t.Grounded) (start : t.find? here ≠ none)
    (missing : t.walk here pieces = .error .notFound) :
    ∃ before last after, full pieces = before ++ last :: after ∧ t.Open here before ∧ Names last ∧
      t.find? (descend (before.foldl descend here) last) = none := by
  induction pieces generalizing here with
  | nil => cases missing
  | cons piece rest ih =>
    simp only [walk] at missing
    split at missing
    · rename_i next step
      obtain ⟨directory, short, leads, -⟩ := walkStep_eq_ok_iff.1 step
      obtain ⟨before, last, after, parts, way, named, free⟩ := ih (h.find?_of_walkStep step) missing
      cases silent : isEmptyPiece piece with
      | true =>
        rw [FilePath.descend_of_empty silent] at leads
        rw [FilePath.full_cons_of_empty silent]
        exact ⟨before, last, after, parts, leads ▸ way, named, leads ▸ free⟩
      | false =>
        rw [FilePath.full_cons_of_full silent, parts]
        rw [leads] at way free
        refine ⟨piece :: before, last, after, rfl, ⟨fun place mem => ?_, fun other mem => ?_⟩, named, free⟩
        · rcases List.mem_cons.1 mem with rfl | mem
          · exact directory
          · exact way.directories place mem
        · rcases List.mem_cons.1 mem with rfl | mem
          · exact short
          · exact way.short other mem
    · rename_i e step
      cases missing
      cases found : t.find? here with
      | none => exact absurd found start
      | some node =>
        cases node with
        | file bytes => simp [walkStep, found] at step
        | directory =>
          by_cases named : Names piece
          · have free : t.find? (descend here piece) = none := by
              rw [walkStep_of_names found named] at step
              split at step
              · cases step
              · split at step
                · cases step
                · rename_i free
                  simpa using free
            refine ⟨[], piece, full rest, FilePath.full_cons_of_full named.full rest,
              ⟨fun place mem => ?_, List.forall_mem_nil _⟩, named, free⟩
            rw [List.mem_singleton.1 mem]
            exact found
          · rw [walkStep_of_not_names found named] at step
            cases step

/-- Whether a path only leads down behind the directories on its way. -/
def Straight (t : FileTree) (p : FilePath) : Prop :=
  ∃ known rest, p.steps = known ++ rest ∧ t.Open [] known ∧ ∀ piece ∈ rest, Names piece

theorem Straight.keeps (h : t.Straight p) (keeps : t.Keeps t') : t'.Straight p := by
  obtain ⟨known, rest, steps, way, down⟩ := h
  exact ⟨known, rest, steps, way.keeps keeps, down⟩

/-- Where something lies at the end of a path that leads down, all else on it are directories. -/
theorem Straight.directory_of_mem_trail (straight : t.Straight p) (h : t.Grounded) {node : Node}
    (found : t.find? p.target = some node) (mem : place ∈ trail [] p.steps) :
    place = p.target ∨ t.find? place = some .directory := by
  obtain ⟨known, rest, steps, way, down⟩ := straight
  rw [steps, FilePath.mem_trail_append_iff] at mem
  rcases mem with mem | mem
  · exact .inr (way.directories place mem)
  · obtain ⟨taken, left, rfl, ends⟩ := exists_of_mem_trail down mem
    have target : p.target = place ++ left.map String.ofList := by
      rw [FilePath.target, steps, List.foldl_append, foldl_descend_of_names down, List.map_append, ends,
        List.append_assoc]
    rcases eq_or_ne left [] with rfl | more
    · exact .inl (by rw [target]; exact (List.append_nil place).symm)
    · exact .inr (h.above (target ▸ found) (by simpa using more))

/-- What is missed on a path that leads down, with all that is behind it. -/
structure Missing (t : FileTree) (p : FilePath) (before : List (List Char)) (last : List Char)
    (after : List (List Char)) : Prop where
  steps : p.steps = before ++ last :: after
  way : t.Open [] before
  down : ∀ piece ∈ last :: after, Names piece
  free : t.find? (descend (before.foldl descend []) last) = none

theorem Straight.exists_missing (straight : t.Straight p) (h : t.Grounded)
    (missing : t.walk [] p.pieces = .error .notFound) : ∃ before last after, t.Missing p before last after := by
  obtain ⟨known, rest, steps, way, down⟩ := straight
  obtain ⟨before, last, after, parts, open', named, free⟩ := h.exists_of_walk (by simp [find?]) missing
  have same : known ++ rest = before ++ last :: after := steps.symm.trans parts
  refine ⟨before, last, after, parts, open', ?_, free⟩
  rcases List.append_eq_append_iff.1 same with ⟨more, rfl, rfl⟩ | ⟨more, known, parts⟩
  · exact fun piece mem => down piece (List.mem_append_right _ mem)
  · cases more with
    | nil =>
      rw [List.nil_append] at parts
      rwa [parts]
    | cons first more =>
      -- what is missed is no directory on the way that is open
      obtain ⟨rfl, -⟩ := List.cons.inj parts
      have there := way.directories (descend (before.foldl descend []) last) (by
        rw [known, FilePath.mem_trail_append_iff]
        exact .inr (List.mem_cons_of_mem _ (FilePath.mem_trail_start _ _)))
      rw [free] at there
      cases there

namespace Missing

variable {before after : List (List Char)} {last : List Char}

/-- Nothing lies below what is missed. -/
theorem below (m : t.Missing p before last after) (h : t.Grounded) (more : Place) :
    t.find? (before.foldl descend [] ++ String.ofList last :: more) = none := by
  have free := m.free
  rw [descend_of_names (m.down last List.mem_cons_self)] at free
  rw [List.append_cons]
  cases found : t.find? (before.foldl descend [] ++ [String.ofList last] ++ more) with
  | none => rfl
  | some node =>
    rcases eq_or_ne more [] with rfl | deeper
    · rw [List.append_nil, free] at found
      cases found
    · rw [h.above found deeper] at free
      cases free

theorem target_eq (m : t.Missing p before last after) :
    p.target = before.foldl descend [] ++ (last :: after).map String.ofList := by
  rw [FilePath.target, m.steps, List.foldl_append, foldl_descend_of_names m.down]

theorem target_free (m : t.Missing p before last after) (h : t.Grounded) : t.find? p.target = none := by
  rw [m.target_eq]
  exact m.below h _

theorem clear (m : t.Missing p before last after) (h : t.Grounded) : t.Clear (trail [] p.steps) := by
  intro place mem bytes file
  rw [m.steps, FilePath.mem_trail_append_iff] at mem
  rcases mem with mem | mem
  · rw [m.way.directories place mem] at file
    cases file
  · obtain ⟨taken, left, parts, rfl⟩ := exists_of_mem_trail m.down mem
    cases taken with
    | nil =>
      rw [List.map_nil, List.append_nil, m.way.finish] at file
      cases file
    | cons first taken =>
      obtain ⟨rfl, -⟩ := List.cons.inj parts
      rw [List.map_cons, m.below h] at file
      cases file

/-- The way to what is above a missing path does not pass its place. -/
theorem target_not_mem (m : t.Missing p before last after) (h : t.Grounded) {above tail : List (List Char)}
    (steps : p.steps = above ++ tail) (more : tail ≠ []) : p.target ∉ trail [] above := by
  have target := m.target_free h
  have same : above ++ tail = before ++ last :: after := steps.symm.trans m.steps
  intro mem
  have apart (mem : p.target ∈ trail [] before) : False := by
    rw [m.way.directories _ mem] at target
    cases target
  rcases List.append_eq_append_iff.1 same with ⟨between, rfl, -⟩ | ⟨taken, rfl, parts⟩
  · exact apart (FilePath.mem_trail_append mem between)
  · rcases FilePath.mem_trail_append_iff.1 mem with mem | mem
    · exact apart mem
    · obtain ⟨some, left, split, ends⟩ := exists_of_mem_trail
        (fun piece mem => m.down piece (parts ▸ List.mem_append_left _ mem)) mem
      -- the way down to the place is longer than the way to what is above
      rw [m.target_eq, parts, split] at ends
      have length := congrArg List.length ends
      have := List.length_pos_iff.2 more
      simp only [List.length_append, List.length_map] at length
      omega

end Missing

/-- A file that is missed at the end of a path that leads down is missed still where there are more directories on
the way to what is above it. -/
theorem read_of_adds (h : t.Grounded) (straight : t.Straight p) (short : ∀ piece ∈ p.steps, IsShort piece)
    {above tail : List (List Char)} (steps : p.steps = above ++ tail) (more : tail ≠ [])
    (adds : t.Adds t' (trail [] above)) (missing : t.read p = .error .notFound) : t'.read p = .error .notFound := by
  unfold read resolve at missing ⊢
  cases valid : pathError? p with
  | some e =>
    rw [valid] at missing
    exact missing
  | none =>
    simp only [valid] at missing ⊢
    have walked : t.walk [] p.pieces = .error .notFound := by
      cases walked : t.walk [] p.pieces with
      | error e =>
        rw [walked] at missing
        cases missing
        rfl
      | ok place =>
        have there := h.find?_of_walk (by simp [find?]) walked
        rw [walked] at missing
        simp only at missing
        split at missing
        · cases missing
        · cases missing
        · rename_i free
          exact absurd free there
    obtain ⟨before, last, after, m⟩ := straight.exists_missing h walked
    have free : t'.find? p.target = none := by
      rcases adds p.target with same | ⟨-, -, mem⟩
      · exact same.trans (m.target_free h)
      · exact absurd mem (m.target_not_mem h steps more)
    have clear : t'.Clear (trail [] p.pieces) := fun place mem =>
      (m.clear h).adds adds place (FilePath.mem_trail_full.2 mem)
    rcases open_of_clear clear (isShort_full_iff.1 short) with way | again
    · have there := way.finish
      rw [← FilePath.target_eq, free] at there
      cases there
    · rw [again]

end

end FileTree

end LiveSettings
