import LiveSettings.Proofs.Files.Steps
import LiveSettings.Proofs.Files.Writing

/-!
# Ways through a tree

A way is open if all that it passes are directories and no name on it is too long. Then it is walked to its end,
and nothing else decides where a path leads in a tree.

Results:
* `walk_of_open`, `open_of_walk`: what is open is walked, and what is walked to a directory is open.
* `resolveSlot_iff`: where the last name of a path is to be found.
* `read_eq_ok_iff`, `write_eq_ok_iff`, `rename_eq_ok_iff`: a file is read, written and moved where its path reaches.
* `read_congr`: what is read at a path depends on nothing but what lies on its way.
* `read_of_grows`: what more there is in a tree is only seen where something was not found.
-/

namespace LiveSettings

namespace FileTree

open FilePath (descend trail full isEmptyPiece EndsIn Names)

/-- Whether a stretch is no longer than a name may be. -/
def IsShort (piece : List Char) : Prop := ¬longestName < (String.ofList piece).utf8ByteSize

instance : DecidablePred IsShort := fun _ => inferInstanceAs (Decidable ¬_)

/-- Whether stretches can be walked from a place. -/
structure Open (t : FileTree) (here : Place) (pieces : List (List Char)) : Prop where
  directories : ∀ place ∈ trail here pieces, t.find? place = some .directory
  short : ∀ piece ∈ pieces, IsShort piece

instance (t : FileTree) (here : Place) (pieces : List (List Char)) : Decidable (t.Open here pieces) :=
  decidable_of_iff (_ ∧ _) ⟨fun h => ⟨h.1, h.2⟩, fun h => ⟨h.directories, h.short⟩⟩

section

variable {t : FileTree} {here place : Place} {pieces : List (List Char)}

/-! ## Walking -/

theorem isShort_of_not_names {piece : List Char} (h : ¬Names piece) : IsShort piece := by
  by_cases empty : isEmptyPiece piece = true
  · rcases Bool.or_eq_true_iff.1 empty with none | dot
    · rw [List.isEmpty_iff.1 none, IsShort]
      decide
    · rw [beq_iff_eq.1 dot, IsShort]
      decide
  · have up : piece = ['.', '.'] := by
      by_contra other
      exact h ⟨Bool.eq_false_iff.2 empty, other⟩
    rw [up, IsShort]
    decide

theorem descend_of_names {piece : List Char} (h : Names piece) (here : Place) :
    descend here piece = here ++ [String.ofList piece] := by
  rw [descend, if_neg (Bool.eq_false_iff.1 h.full), if_neg fun up => h.proper (beq_iff_eq.1 up)]

/-- From a directory, only a name can be too long or missing. -/
theorem walkStep_of_not_names {piece : List Char} (hd : t.find? here = some .directory) (h : ¬Names piece) :
    t.walkStep here piece = .ok (descend here piece) := by
  unfold descend
  simp only [walkStep, hd]
  split
  · rfl
  · rename_i empty
    split
    · rfl
    · rename_i up
      exact absurd ⟨Bool.eq_false_iff.2 empty, fun same => up (beq_iff_eq.2 same)⟩ h

theorem walkStep_of_names {piece : List Char} (hd : t.find? here = some .directory) (h : Names piece) :
    t.walkStep here piece =
      if longestName < (String.ofList piece).utf8ByteSize then .error .nameTooLong
      else if (t.find? (descend here piece)).isSome then .ok (descend here piece) else .error .notFound := by
  rw [descend_of_names h]
  simp only [walkStep, hd]
  rw [if_neg (Bool.eq_false_iff.1 h.full), if_neg fun up => h.proper (beq_iff_eq.1 up)]

/-- What a step takes: a directory to leave, a name that is short, and something to come to. -/
theorem walkStep_eq_ok_iff {piece : List Char} :
    t.walkStep here piece = .ok place ↔ t.find? here = some .directory ∧ IsShort piece ∧
      place = descend here piece ∧ (Names piece → (t.find? place).isSome = true) := by
  by_cases hd : t.find? here = some .directory
  · by_cases named : Names piece
    · rw [walkStep_of_names hd named]
      unfold IsShort
      grind
    · rw [walkStep_of_not_names hd named]
      have short := isShort_of_not_names named
      grind
  · exact ⟨fun h => absurd (directory_of_walkStep h) hd, fun h => absurd h.1 hd⟩

/-- A walk ends where the stretches lead. -/
theorem eq_of_walk (h : t.walk here pieces = .ok place) : place = pieces.foldl descend here := by
  induction pieces generalizing here with
  | nil =>
    cases h
    rfl
  | cons piece rest ih =>
    simp only [walk] at h
    split at h
    · rename_i next step
      rw [List.foldl_cons, ← (walkStep_eq_ok_iff.1 step).2.2.1]
      exact ih h
    · cases h

/-- What is open is walked to its end. -/
theorem walk_of_open (h : t.Open here pieces) : t.walk here pieces = .ok (pieces.foldl descend here) := by
  induction pieces generalizing here with
  | nil => rfl
  | cons piece rest ih =>
    have later : t.Open (descend here piece) rest :=
      ⟨fun place mem => h.directories place (List.mem_cons_of_mem here mem),
        fun piece mem => h.short piece (List.mem_cons_of_mem _ mem)⟩
    have there : t.find? (descend here piece) = some .directory :=
      later.directories _ (FilePath.mem_trail_start _ rest)
    have step : t.walkStep here piece = .ok (descend here piece) :=
      walkStep_eq_ok_iff.2 ⟨h.directories here List.mem_cons_self, h.short piece List.mem_cons_self, rfl,
        fun _ => by rw [there]; rfl⟩
    simp only [walk, step, List.foldl_cons, ih later]

/-- What is walked to a directory is open. -/
theorem open_of_walk (h : t.walk here pieces = .ok place) (hd : t.find? place = some .directory) :
    t.Open here pieces := by
  induction pieces generalizing here with
  | nil =>
    cases h
    refine ⟨fun place mem => ?_, fun piece mem => nomatch mem⟩
    rw [List.mem_singleton.1 mem]
    exact hd
  | cons piece rest ih =>
    simp only [walk] at h
    split at h
    · rename_i next step
      obtain ⟨directories, short⟩ := ih h
      obtain ⟨start, shortStep, leads, -⟩ := walkStep_eq_ok_iff.1 step
      rw [leads] at directories
      refine ⟨fun place mem => ?_, fun other mem => ?_⟩
      · rcases List.mem_cons.1 mem with rfl | mem
        · exact start
        · exact directories place mem
      · rcases List.mem_cons.1 mem with rfl | mem
        · exact shortStep
        · exact short other mem
    · cases h

theorem isShort_full_iff : (∀ piece ∈ full pieces, IsShort piece) ↔ ∀ piece ∈ pieces, IsShort piece := by
  refine ⟨fun h piece mem => ?_, fun h piece mem => h piece (List.mem_filter.1 mem).1⟩
  cases empty : isEmptyPiece piece with
  | true => exact isShort_of_not_names fun named => Bool.eq_false_iff.1 named.full empty
  | false => exact h piece (List.mem_filter.2 ⟨mem, by simp [empty]⟩)

/-- Stretches that say nothing are walked by themselves. -/
theorem open_full_iff : t.Open here (full pieces) ↔ t.Open here pieces :=
  ⟨fun h => ⟨fun place mem => h.directories place (FilePath.mem_trail_full.2 mem), isShort_full_iff.1 h.short⟩,
    fun h => ⟨fun place mem => h.directories place (FilePath.mem_trail_full.1 mem), isShort_full_iff.2 h.short⟩⟩

theorem Open.start (h : t.Open here pieces) : t.find? here = some .directory :=
  h.directories here (FilePath.mem_trail_start here pieces)

theorem Open.finish (h : t.Open here pieces) : t.find? (pieces.foldl descend here) = some .directory :=
  h.directories _ (FilePath.mem_trail_end here pieces)

theorem open_nil (t : FileTree) : t.Open [] [] := by
  refine ⟨fun place mem => ?_, nofun⟩
  rw [List.mem_singleton.1 mem]
  rfl

theorem Open.keeps {t' : FileTree} (way : t.Open here pieces) (h : t.Keeps t') : t'.Open here pieces :=
  ⟨fun place mem => h _ (way.directories place mem), way.short⟩

/-- What leads up to a last step is open if that is taken. -/
theorem open_of_walk_concat {piece : List Char} (h : t.walk here (pieces ++ [piece]) = .ok place) :
    t.Open here pieces ∧ t.walkStep (pieces.foldl descend here) piece = .ok place := by
  rw [walk_append] at h
  split at h
  · rename_i next walked
    simp only [walk] at h
    split at h
    · rename_i last step
      cases h
      refine ⟨open_of_walk walked (directory_of_walkStep step), ?_⟩
      rw [← eq_of_walk walked]
      exact step
    · cases h
  · cases h

end

/-! ## Last names -/

section

variable {t : FileTree} {p : FilePath} {before : List (List Char)} {last : List Char}

/-- Where the last name of a path is to be found, if nothing stands behind it. -/
theorem resolveSlot_iff (pieces : p.pieces = before ++ [last]) (named : Names last) {slot : Slot} :
    t.resolveSlot p = .ok (some slot) ↔ pathError? p = none ∧ t.Open [] before ∧ IsShort last ∧
      slot = ⟨before.foldl descend [], String.ofList last, false⟩ := by
  have letters : last.isEmpty = false := (Bool.or_eq_false_iff.1 named.full).1
  have dot : last ≠ ['.'] := beq_eq_false_iff_ne.1 (Bool.or_eq_false_iff.1 named.full).2
  have reversed : p.pieces.reverse = last :: before.reverse := by simp [pieces]
  have bare : p.pieces.reverse.takeWhile (·.isEmpty) = [] := by simp [reversed, letters]
  have rest : p.pieces.reverse.dropWhile (·.isEmpty) = last :: before.reverse := by simp [reversed, letters]
  constructor
  · intro h
    obtain ⟨valid, ⟨last', before', ends, walked, -, -, name⟩, directory, short, slashes⟩ := leads_of_resolveSlot h
    rw [rest] at ends
    cases ends
    rw [List.reverse_reverse] at walked
    obtain ⟨place, found, asDirectory⟩ := slot
    obtain rfl : place = _ := eq_of_walk walked
    obtain rfl : found = _ := name
    obtain rfl : asDirectory = false := by simpa [bare] using slashes
    exact ⟨valid, open_of_walk walked directory, short, rfl⟩
  · rintro ⟨valid, way, short, rfl⟩
    refine Leads.resolveSlot ⟨valid, ⟨last, before.reverse, rest, ?_, dot, named.proper, rfl⟩, way.finish, short,
      by simp [bare]⟩
    rw [List.reverse_reverse]
    exact walk_of_open way

/-- A path that leads to a slot which is no directory's ends in the name of it. -/
theorem exists_of_resolveSlot {slot : Slot} (h : t.resolveSlot p = .ok (some slot)) (plain : slot.asDirectory = false) :
    ∃ before last, p.pieces = before ++ [last] ∧ Names last := by
  obtain ⟨-, ⟨last, before, ends, -, dot, up, -⟩, -, -, slashes⟩ := leads_of_resolveSlot h
  have bare : p.pieces.reverse.takeWhile (·.isEmpty) = [] := by simpa [plain] using slashes
  have all : p.pieces.reverse = last :: before := by
    have parts := @List.takeWhile_append_dropWhile _ (·.isEmpty) p.pieces.reverse
    rw [bare, ends] at parts
    exact parts.symm
  have letters : last.isEmpty = false := by
    have := List.head?_dropWhile_not (·.isEmpty) p.pieces.reverse
    simpa [ends] using this
  refine ⟨before.reverse, last, ?_, ?_, up⟩
  · rw [← List.reverse_reverse p.pieces, all, List.reverse_cons]
  · rw [isEmptyPiece, letters]
    exact beq_eq_false_iff_ne.2 dot

/-- A path of which nothing but its last name is at the end ends in that name. -/
theorem endsIn_of_pieces (pieces : p.pieces = before ++ [last]) (named : Names last) :
    ∃ q, p.EndsIn (String.ofList last) q before [] := by
  have steps : p.steps = full before ++ [last] := by
    rw [FilePath.steps, pieces, FilePath.full_append, FilePath.full_cons_of_full named.full]
    rfl
  cases found : p.fileName? with
  | none =>
    rcases FilePath.steps_of_fileName?_none found with none | ⟨front, ends⟩
    · rw [none] at steps
      exact absurd steps.symm (List.append_ne_nil_of_right_ne_nil _ (List.cons_ne_nil _ _))
    · rw [ends] at steps
      exact absurd (List.singleton_inj.1 (List.append_inj' steps rfl).2).symm named.proper
  | some name =>
    obtain ⟨q, before', blanks, ends⟩ := FilePath.exists_of_fileName? found
    have written := ends.pieces
    rw [pieces] at written
    rcases List.eq_nil_or_concat blanks with rfl | ⟨front, blank, behind⟩
    · obtain ⟨rfl, same⟩ := List.append_inj' written rfl
      rw [List.singleton_inj.1 same, String.ofList_toList]
      exact ⟨q, ends⟩
    · rw [behind, List.concat_eq_append, ← List.cons_append, ← List.append_assoc] at written
      have same := List.singleton_inj.1 (List.append_inj' written rfl).2
      have empty := ends.blanks blank (by simp [behind])
      rw [← same, named.full] at empty
      cases empty

end

/-! ## Reaching files -/

/-- Whether a path can be that of a file: it ends in a name, in a directory that can be walked to. -/
structure Reaches (t : FileTree) (p : FilePath) (name : String) (q : FilePath) : Prop where
  ends : ∃ before, p.EndsIn name q before []
  valid : pathError? p = none
  way : t.Open [] q.steps
  short : IsShort name.toList

section

variable {t t' : FileTree} {p q : FilePath} {name : String} {bytes : ByteArray}

/-- The place that a path names is that of its name in the directory that its parent names. -/
theorem target_of_endsIn {before blanks : List (List Char)} (h : p.EndsIn name q before blanks) :
    p.target = q.target ++ [name] := by
  rw [FilePath.target, h.steps_eq, List.foldl_append, List.foldl_cons, List.foldl_nil, descend_of_names h.names,
    String.ofList_toList]
  rfl

/-- A stretch that is no name leads back on a trail from the root. -/
theorem descend_mem_trail {piece : List Char} (h : ¬Names piece) (pieces : List (List Char)) :
    descend (pieces.foldl descend []) piece ∈ trail [] pieces := by
  have last : pieces.foldl descend [] ∈ trail [] pieces := FilePath.mem_trail_end [] pieces
  unfold descend
  split
  · exact last
  · rename_i empty
    split
    · exact FilePath.dropLast_mem_trail last
    · rename_i up
      exact absurd ⟨Bool.eq_false_iff.2 empty, fun same => up (beq_iff_eq.2 same)⟩ h

theorem Reaches.target (h : t.Reaches p name q) : p.target = q.target ++ [name] := by
  obtain ⟨before, ends⟩ := h.ends
  exact target_of_endsIn ends

theorem Reaches.keeps (h : t.Reaches p name q) (keeps : t.Keeps t') : t'.Reaches p name q :=
  ⟨h.ends, h.valid, h.way.keeps keeps, h.short⟩

/-- The slot of a file is where its path can be a file's. -/
theorem Reaches.resolveSlot (h : t.Reaches p name q) : t.resolveSlot p = .ok (some ⟨q.target, name, false⟩) := by
  obtain ⟨before, ends⟩ := h.ends
  refine (resolveSlot_iff ends.pieces ends.names).2 ⟨h.valid, ?_, h.short, ?_⟩
  · rw [← open_full_iff, ← ends.steps]
    exact h.way
  · rw [String.ofList_toList, FilePath.target, ends.steps, FilePath.foldl_descend_full]

/-- A path that reaches something names the place where it lies. -/
theorem Reaches.resolve (h : t.Reaches p name q) (found : (t.find? p.target).isSome = true) :
    t.resolve p = .ok p.target := by
  have place : (⟨q.target, name, false⟩ : Slot).place = p.target := h.target.symm
  rw [← place] at found ⊢
  exact resolve_of_slot h.resolveSlot rfl found

theorem exists_reaches {slot : Slot} (h : t.resolveSlot p = .ok (some slot)) (plain : slot.asDirectory = false) :
    ∃ name q, t.Reaches p name q ∧ slot.place = p.target := by
  obtain ⟨before, last, pieces, named⟩ := exists_of_resolveSlot h plain
  obtain ⟨q, ends⟩ := endsIn_of_pieces pieces named
  obtain ⟨valid, way, short, -⟩ := (resolveSlot_iff pieces named).1 h
  have reaches : t.Reaches p (String.ofList last) q := by
    refine ⟨⟨before, ends⟩, valid, ?_, by rwa [String.toList_ofList]⟩
    rw [ends.steps, open_full_iff]
    exact way
  refine ⟨_, q, reaches, ?_⟩
  rw [reaches.resolveSlot] at h
  cases h
  exact reaches.target.symm

/-- A name below a path reaches what is in the directory that the path names. -/
theorem reaches_join_iff (named : Names name.toList) (plain : FilePath.IsName name) :
    (∃ name' q', t.Reaches (p.join name) name' q') ↔
      pathError? (p.join name) = none ∧ t.Open [] p.steps ∧ IsShort name.toList := by
  obtain ⟨before, pieces, steps⟩ := p.exists_join plain
  constructor
  · rintro ⟨name', q', reaches⟩
    obtain ⟨before', ends⟩ := reaches.ends
    have written := ends.pieces
    rw [pieces] at written
    obtain ⟨rfl, last⟩ := List.append_inj' written rfl
    obtain rfl : name = name' := String.toList_inj.1 (List.singleton_inj.1 last)
    exact ⟨reaches.valid, by rw [← steps, ← ends.steps]; exact reaches.way, reaches.short⟩
  · rintro ⟨valid, way, short⟩
    obtain ⟨q', ends⟩ := endsIn_of_pieces pieces named
    rw [String.ofList_toList] at ends
    exact ⟨name, q', ⟨before, ends⟩, valid, by rwa [ends.steps, steps], short⟩

theorem target_join (named : Names name.toList) (plain : FilePath.IsName name) :
    (p.join name).target = p.target ++ [name] := by
  obtain ⟨before, pieces, steps⟩ := p.exists_join plain
  rw [FilePath.target_eq, pieces, List.foldl_append, List.foldl_cons, List.foldl_nil, descend_of_names named,
    String.ofList_toList, FilePath.target, ← steps, FilePath.foldl_descend_full]

theorem resolve_eq_ok_iff {place : Place} :
    t.resolve p = .ok place ↔ pathError? p = none ∧ t.walk [] p.pieces = .ok place := by
  unfold resolve
  cases pathError? p <;> simp

/-- A file is read where its path reaches it. -/
theorem read_eq_ok_iff :
    t.read p = .ok bytes ↔ (∃ name q, t.Reaches p name q) ∧ t.find? p.target = some (.file bytes) := by
  constructor
  · intro h
    unfold read at h
    cases resolved : t.resolve p with
    | error e => simp [resolved] at h
    | ok place =>
      have file : t.find? place = some (.file bytes) := by
        simp only [resolved] at h
        split at h <;> simp_all
      obtain ⟨valid, walked⟩ := resolve_eq_ok_iff.1 resolved
      have target : place = p.target := by rw [FilePath.target_eq, ← eq_of_walk walked]
      obtain ⟨before, last, pieces⟩ : ∃ before last, p.pieces = before ++ [last] := by
        obtain ⟨first, rest, pieces⟩ := p.exists_pieces
        have := List.eq_nil_or_concat p.pieces
        simpa [pieces] using this
      rw [pieces] at walked
      obtain ⟨way, step⟩ := open_of_walk_concat walked
      obtain ⟨-, short, leads, -⟩ := walkStep_eq_ok_iff.1 step
      by_cases named : Names last
      · have slot := (resolveSlot_iff pieces named).2 ⟨valid, way, short, rfl⟩
        obtain ⟨name, q, reaches, -⟩ := exists_reaches slot rfl
        exact ⟨⟨name, q, reaches⟩, target ▸ file⟩
      · have back := way.directories _ (descend_mem_trail named before)
        rw [← leads, file] at back
        cases back
  · rintro ⟨⟨name, q, reaches⟩, file⟩
    have resolved := reaches.resolve (by rw [file]; rfl)
    simp only [read, resolved, file]

/-- A file is written where its path reaches it and no directory is. -/
theorem write_eq_ok_iff :
    t.write p bytes = .ok t' ↔ (∃ name q, t.Reaches p name q) ∧ t.find? p.target ≠ some .directory ∧
      t' = t.put p.target (.file bytes) := by
  constructor
  · intro h
    unfold write at h
    cases written : t.writeSlot p with
    | error e => simp [written, Except.map] at h
    | ok slot =>
      obtain ⟨found, free⟩ := writeSlot_spec written
      obtain ⟨name, q, reaches, place⟩ := exists_reaches found (asDirectory_of_writeSlot written)
      simp only [written, Except.map, Except.ok.injEq] at h
      rw [place] at free h
      exact ⟨⟨name, q, reaches⟩, free, h.symm⟩
  · rintro ⟨⟨name, q, reaches⟩, free, rfl⟩
    have place : (⟨q.target, name, false⟩ : Slot).place = p.target := reaches.target.symm
    have slot : t.writeSlot p = .ok ⟨q.target, name, false⟩ := by
      simp only [writeSlot, reaches.resolveSlot, place]
      split
      · exact absurd ‹_› free
      · rfl
      · rfl
    simp only [write, slot, Except.map, place]

/-- A file is moved to where a path reaches and no directory is. -/
theorem rename_eq_ok_iff {target : FilePath} {name' : String} {q' : FilePath} (here : t.Reaches p name' q')
    (file : t.find? p.target = some (.file bytes)) :
    t.rename p target = .ok t' ↔ (∃ name q, t.Reaches target name q) ∧ t.find? target.target ≠ some .directory ∧
      t' = (t.remove p.target).put target.target (.file bytes) := by
  have source : (⟨q'.target, name', false⟩ : Slot).place = p.target := here.target.symm
  constructor
  · intro h
    obtain ⟨old, new, held, from', found, plain, there, free, rfl⟩ := exists_of_rename h
    rw [here.resolveSlot] at from'
    cases from'
    obtain ⟨name, q, reaches, place⟩ := exists_reaches found plain
    rw [source, file] at there
    cases there
    rw [place] at free
    exact ⟨⟨name, q, reaches⟩, free, by rw [source, place]⟩
  · rintro ⟨⟨name, q, reaches⟩, free, rfl⟩
    have place : (⟨q.target, name, false⟩ : Slot).place = target.target := reaches.target.symm
    simp only [rename, here.resolveSlot, reaches.resolveSlot, source, place, file]
    simp [free]

end

/-! ## Trees that look alike -/

section

variable {t t' : FileTree}

theorem walk_congr {here : Place} {pieces : List (List Char)}
    (alike : ∀ place ∈ trail here pieces, t'.find? place = t.find? place) : t'.walk here pieces = t.walk here pieces := by
  induction pieces generalizing here with
  | nil => rfl
  | cons piece rest ih =>
    have start : t'.find? here = t.find? here := alike here List.mem_cons_self
    have later : ∀ place ∈ trail (descend here piece) rest, t'.find? place = t.find? place := fun place mem =>
      alike place (List.mem_cons_of_mem here mem)
    have step : t'.walkStep here piece = t.walkStep here piece := by
      by_cases directory : t.find? here = some .directory
      · by_cases named : Names piece
        · rw [walkStep_of_names directory named, walkStep_of_names (start.trans directory) named,
            later _ (FilePath.mem_trail_start _ rest)]
        · rw [walkStep_of_not_names directory named, walkStep_of_not_names (start.trans directory) named]
      · unfold walkStep
        rw [start]
        split
        · exact absurd ‹_› directory
        · rfl
        · rfl
    simp only [walk, step]
    cases next : t.walkStep here piece with
    | error e => rfl
    | ok place =>
      rw [(walkStep_eq_ok_iff.1 next).2.2.1]
      exact ih later

/-- What is read at a path depends on nothing but what lies on its way. -/
theorem read_congr {p : FilePath} (alike : ∀ place ∈ trail [] p.steps, t'.find? place = t.find? place) :
    t'.read p = t.read p := by
  have alike : ∀ place ∈ trail [] p.pieces, t'.find? place = t.find? place := fun place mem =>
    alike place (FilePath.mem_trail_full.2 mem)
  unfold read resolve
  cases pathError? p with
  | some e => rfl
  | none =>
    simp only [walk_congr alike]
    cases walked : t.walk [] p.pieces with
    | error e => rfl
    | ok place => simp only [eq_of_walk walked, alike _ (FilePath.mem_trail_end [] p.pieces)]

end

/-! ## Trees that hold more -/

/-- Whether all that lies in a tree lies in another. -/
def Grows (t t' : FileTree) : Prop := ∀ place node, t.find? place = some node → t'.find? place = some node

section

variable {t t' : FileTree}

theorem Grows.refl (t : FileTree) : t.Grows t := fun _ _ h => h

theorem Grows.trans {t'' : FileTree} (h : t.Grows t') (h' : t'.Grows t'') : t.Grows t'' :=
  fun place node found => h' place node (h place node found)

theorem Grows.keeps (h : t.Grows t') : t.Keeps t' := fun place => h place .directory

theorem walkStep_of_grows (h : t.Grows t') {here : Place} {piece : List Char}
    (seen : t.walkStep here piece ≠ .error .notFound) : t'.walkStep here piece = t.walkStep here piece := by
  cases found : t.find? here with
  | none => simp [walkStep, found] at seen
  | some node =>
    have found' := h _ _ found
    cases node with
    | file bytes => simp only [walkStep, found, found']
    | directory =>
      by_cases named : Names piece
      · rw [walkStep_of_names found named] at seen ⊢
        rw [walkStep_of_names found' named]
        split
        · rfl
        · rename_i short
          rw [if_neg short] at seen
          cases next : t.find? (descend here piece) with
          | none => simp [next] at seen
          | some node => rw [h _ _ next]
      · rw [walkStep_of_not_names found named, walkStep_of_not_names found' named]

theorem walk_of_grows (h : t.Grows t') {here : Place} {pieces : List (List Char)}
    (seen : t.walk here pieces ≠ .error .notFound) : t'.walk here pieces = t.walk here pieces := by
  induction pieces generalizing here with
  | nil => rfl
  | cons piece rest ih =>
    simp only [walk] at seen ⊢
    cases step : t.walkStep here piece with
    | ok next =>
      rw [walkStep_of_grows h (by simp [step]), step]
      rw [step] at seen
      exact ih seen
    | error e =>
      rw [step] at seen
      rw [walkStep_of_grows h (by rw [step]; exact seen), step]

/-- What more there is in a tree is only seen where something was not found. -/
theorem read_of_grows (h : t.Grows t') {p : FilePath} (seen : t.read p ≠ .error .notFound) : t'.read p = t.read p := by
  unfold read resolve at seen ⊢
  cases valid : pathError? p with
  | some e => rfl
  | none =>
    simp only [valid] at seen ⊢
    cases walked : t.walk [] p.pieces with
    | error e =>
      rw [walked] at seen
      have other : (.error e : Except IoError Place) ≠ .error .notFound := fun same => seen (by cases same; rfl)
      rw [walk_of_grows h (walked ▸ other), walked]
    | ok place =>
      rw [walk_of_grows h (by rw [walked]; nofun), walked]
      rw [walked] at seen
      cases found : t.find? place with
      | none => simp [found] at seen
      | some node => simp only [found, h _ _ found]

end

end FileTree

end LiveSettings
