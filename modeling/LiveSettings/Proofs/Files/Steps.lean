import LiveSettings.Files.FileTree
import Mathlib.Data.List.DropRight

/-!
# Paths step by step

A path is a list of steps, each to a directory below, to the one above, or nowhere. Where no names are links, the
steps alone say which places a path passes and where it ends, whatever lies there.

Results:
* `dropLast_mem_trail`: a trail from the root passes the directory around each place that it passes.
* `steps_of_parent?`, `text_of_parent?`: what a path has more than its parent, in steps and in writing.
* `parent_induction`: induction from a path to those below it.
* `exists_of_fileName?`, `steps_of_fileName?_none`: how a path is written that ends in a name, and one that does
  not.
* `exists_join`: the steps to a name below a path.
-/

namespace LiveSettings

namespace FilePath

/-- Whether a stretch is the name of something below. -/
structure Names (piece : List Char) : Prop where
  full : isEmptyPiece piece = false
  proper : piece ≠ ['.', '.']

instance (piece : List Char) : Decidable (Names piece) :=
  decidable_of_iff (isEmptyPiece piece = false ∧ piece ≠ ['.', '.']) ⟨fun h => ⟨h.1, h.2⟩, fun h => ⟨h.1, h.2⟩⟩

/-- The stretches that say something. -/
def full (pieces : List (List Char)) : List (List Char) := pieces.filter fun piece => !isEmptyPiece piece

/-- The steps that a path is made of. -/
def steps (p : FilePath) : List (List Char) := full p.pieces

/-- Where a stretch leads, whatever lies there. -/
def descend (here : Place) (piece : List Char) : Place :=
  if isEmptyPiece piece then here
  else if piece == ['.', '.'] then here.dropLast
  else here ++ [String.ofList piece]

/-- The places that stretches pass, from the first to the last. -/
def trail (here : Place) : List (List Char) → List Place
  | [] => [here]
  | piece :: rest => here :: trail (descend here piece) rest

/-- The place that a path names, whatever lies on the way. -/
def target (p : FilePath) : Place := p.steps.foldl descend []

/-! ## Trails -/

theorem descend_of_empty {piece : List Char} (h : isEmptyPiece piece = true) (here : Place) :
    descend here piece = here := by
  rw [descend, if_pos h]

theorem mem_trail_start (here : Place) (pieces : List (List Char)) : here ∈ trail here pieces := by
  cases pieces <;> exact List.mem_cons_self

theorem trail_concat (here : Place) (pieces : List (List Char)) (piece : List Char) :
    trail here (pieces ++ [piece]) = trail here pieces ++ [descend (pieces.foldl descend here) piece] := by
  induction pieces generalizing here with
  | nil => rfl
  | cons first rest ih =>
    simp only [List.cons_append, trail, List.foldl_cons, ih]

theorem mem_trail_end (here : Place) (pieces : List (List Char)) :
    pieces.foldl descend here ∈ trail here pieces := by
  induction pieces generalizing here with
  | nil => exact List.mem_cons_self
  | cons first rest ih => exact List.mem_cons_of_mem _ (ih _)

theorem mem_trail_append_iff {here place : Place} {pieces more : List (List Char)} :
    place ∈ trail here (pieces ++ more) ↔ place ∈ trail here pieces ∨ place ∈ trail (pieces.foldl descend here) more := by
  induction pieces generalizing here with
  | nil =>
    refine ⟨Or.inr, fun h => h.elim (fun start => ?_) id⟩
    rw [List.mem_singleton.1 start]
    exact mem_trail_start here more
  | cons first rest ih => simp only [List.cons_append, trail, List.mem_cons, ih, List.foldl_cons, or_assoc]

theorem mem_trail_append {here place : Place} {pieces : List (List Char)} (h : place ∈ trail here pieces)
    (more : List (List Char)) : place ∈ trail here (pieces ++ more) :=
  mem_trail_append_iff.2 (.inl h)

/-- A trail from the root passes the directory around each place that it passes. -/
theorem dropLast_mem_trail {place : Place} {pieces : List (List Char)} (h : place ∈ trail [] pieces) :
    place.dropLast ∈ trail [] pieces := by
  induction pieces using List.reverseRecOn generalizing place with
  | nil =>
    rw [List.mem_singleton.1 h]
    exact List.mem_cons_self
  | append_singleton pieces piece ih =>
    rw [trail_concat] at h ⊢
    have last : pieces.foldl descend [] ∈ trail [] pieces := mem_trail_end [] pieces
    refine List.mem_append_left _ ?_
    rcases List.mem_append.1 h with before | new
    · exact ih before
    · rw [List.mem_singleton.1 new, descend]
      split
      · exact ih last
      · split
        · exact ih (ih last)
        · rwa [List.dropLast_concat]

/-! Stretches that say nothing lead nowhere. -/

theorem full_append (pieces more : List (List Char)) : full (pieces ++ more) = full pieces ++ full more :=
  List.filter_append ..

theorem full_cons_of_empty {piece : List Char} (h : isEmptyPiece piece = true) (rest : List (List Char)) :
    full (piece :: rest) = full rest :=
  List.filter_cons_of_neg (by simp [h])

theorem full_cons_of_full {piece : List Char} (h : isEmptyPiece piece = false) (rest : List (List Char)) :
    full (piece :: rest) = piece :: full rest :=
  List.filter_cons_of_pos (by simp [h])

theorem full_of_empty {blanks : List (List Char)} (h : ∀ b ∈ blanks, isEmptyPiece b = true) : full blanks = [] :=
  List.filter_eq_nil_iff.2 fun b mem => by simp [h b mem]

theorem foldl_descend_full (here : Place) (pieces : List (List Char)) :
    (full pieces).foldl descend here = pieces.foldl descend here := by
  induction pieces generalizing here with
  | nil => rfl
  | cons piece rest ih =>
    cases empty : isEmptyPiece piece with
    | true =>
      rw [full_cons_of_empty empty, List.foldl_cons, descend_of_empty empty]
      exact ih here
    | false =>
      rw [full_cons_of_full empty, List.foldl_cons, List.foldl_cons]
      exact ih _

theorem mem_trail_full {here place : Place} {pieces : List (List Char)} :
    place ∈ trail here (full pieces) ↔ place ∈ trail here pieces := by
  induction pieces generalizing here with
  | nil => exact Iff.rfl
  | cons piece rest ih =>
    cases empty : isEmptyPiece piece with
    | true =>
      rw [full_cons_of_empty empty, trail, descend_of_empty empty, ih, List.mem_cons]
      refine ⟨Or.inr, fun h => h.elim (fun same => same ▸ mem_trail_start here rest) id⟩
    | false =>
      rw [full_cons_of_full empty, trail, trail, List.mem_cons, List.mem_cons, ih]

theorem target_eq (p : FilePath) : p.target = p.pieces.foldl descend [] := foldl_descend_full [] p.pieces

/-! ## Stretches and their text -/

/-- Whether a text can be the name of a file: there is something in it, and no separator. -/
def IsName (name : String) : Prop := name.toList ≠ [] ∧ separator ∉ name.toList

/-- A stretch of three characters or more is a name. -/
theorem names_of_length {piece : List Char} (long : 2 < piece.length) : Names piece := by
  refine ⟨Bool.or_eq_false_iff.2 ⟨List.isEmpty_eq_false_iff.2 ?_, beq_eq_false_iff_ne.2 ?_⟩, ?_⟩
  all_goals
    rintro rfl
    exact absurd long (by decide)

theorem isName_append {name ending : String} (plain : separator ∉ name.toList) (h : IsName ending) :
    IsName (name ++ ending) := by
  rw [IsName, String.toList_append]
  exact ⟨List.append_ne_nil_of_right_ne_nil _ h.1, List.not_mem_append plain h.2⟩

theorem split_ne_nil (cs : List Char) : split cs ≠ [] := by
  cases cs with
  | nil => exact nofun
  | cons c cs =>
    simp only [split]
    split
    · exact nofun
    · split <;> exact nofun

/-- What holds no separator is one stretch. -/
theorem split_of_not_mem {cs : List Char} (h : separator ∉ cs) : split cs = [cs] := by
  induction cs with
  | nil => rfl
  | cons c cs ih =>
    obtain ⟨here, later⟩ := not_or.1 fun mem => h (List.mem_cons.2 mem)
    have other : (c == separator) = false := beq_eq_false_iff_ne.2 (Ne.symm here)
    simp only [split, other, ih later, Bool.false_eq_true, if_false]

/-- Behind a separator the stretches go on by themselves. -/
theorem split_append_separator (cs rest : List Char) :
    split (cs ++ separator :: rest) = split cs ++ split rest := by
  induction cs with
  | nil => rfl
  | cons c cs ih =>
    simp only [List.cons_append, split, ih]
    split
    · rfl
    · cases pieces : split cs with
      | nil => exact absurd pieces (split_ne_nil cs)
      | cons p ps => rfl

/-- No stretch holds a separator. -/
theorem not_mem_of_mem_split {cs piece : List Char} (h : piece ∈ split cs) : separator ∉ piece := by
  induction cs generalizing piece with
  | nil =>
    rw [List.mem_singleton.1 h]
    exact List.not_mem_nil
  | cons c cs ih =>
    simp only [split] at h
    split at h
    · rcases List.mem_cons.1 h with rfl | h
      · exact List.not_mem_nil
      · exact ih h
    · rename_i other
      have apart : separator ≠ c := fun same => other (beq_iff_eq.2 same.symm)
      cases pieces : split cs with
      | nil => exact absurd pieces (split_ne_nil cs)
      | cons p ps =>
        rw [pieces] at h ih
        rcases List.mem_cons.1 h with rfl | h
        · exact List.not_mem_cons_of_ne_of_not_mem apart (ih List.mem_cons_self)
        · exact ih (List.mem_cons_of_mem p h)

theorem joinPieces_cons (p q : List Char) (qs : List (List Char)) :
    joinPieces (p :: q :: qs) = p ++ separator :: joinPieces (q :: qs) := rfl

theorem split_joinPieces {ps : List (List Char)} (some : ps ≠ []) (plain : ∀ piece ∈ ps, separator ∉ piece) :
    split (joinPieces ps) = ps := by
  induction ps with
  | nil => exact absurd rfl some
  | cons p ps ih =>
    have first : separator ∉ p := plain p List.mem_cons_self
    cases ps with
    | nil => exact split_of_not_mem first
    | cons q qs =>
      have rest := ih (List.cons_ne_nil q qs) fun piece mem => plain piece (List.mem_cons_of_mem p mem)
      rw [joinPieces_cons, split_append_separator, split_of_not_mem first, rest, List.singleton_append]

theorem joinPieces_split (cs : List Char) : joinPieces (split cs) = cs := by
  induction cs with
  | nil => rfl
  | cons c cs ih =>
    obtain ⟨p, ps, pieces⟩ := List.exists_cons_of_ne_nil (split_ne_nil cs)
    simp only [split, pieces] at ih ⊢
    split
    · rename_i sep
      rw [joinPieces_cons, ih, List.nil_append, beq_iff_eq.1 sep]
    · rw [← ih]
      cases ps <;> rfl

/-- What leads up to some stretches is written in front of what they are. -/
theorem joinPieces_append {ps qs : List (List Char)} (some : ps ≠ []) (more : qs ≠ []) :
    joinPieces (ps ++ qs) = joinPieces ps ++ separator :: joinPieces qs := by
  induction ps with
  | nil => exact absurd rfl some
  | cons p ps ih =>
    cases ps with
    | nil =>
      obtain ⟨q, qs, rfl⟩ := List.exists_cons_of_ne_nil more
      rfl
    | cons p' ps =>
      rw [List.cons_append, List.cons_append, joinPieces_cons, joinPieces_cons, ← List.cons_append,
        ih (List.cons_ne_nil p' ps), List.append_assoc, List.cons_append]

/-- Stretches end in those that say nothing. -/
theorem exists_trimPieces (rest : List (List Char)) :
    ∃ blanks, rest = trimPieces rest ++ blanks ∧ ∀ b ∈ blanks, isEmptyPiece b = true := by
  refine ⟨(rest.reverse.takeWhile isEmptyPiece).reverse, ?_, ?_⟩
  · rw [trimPieces, ← List.reverse_append, List.takeWhile_append_dropWhile, List.reverse_reverse]
  · intro b mem
    exact (List.all_eq_true.1 List.all_takeWhile) b (List.mem_reverse.1 mem)

/-- The last of trimmed stretches says something. -/
theorem isEmptyPiece_getLast_trimPieces {rest front : List (List Char)} {last : List Char}
    (h : trimPieces rest = front ++ [last]) : isEmptyPiece last = false := by
  have reversed : rest.reverse.dropWhile isEmptyPiece = last :: front.reverse := by
    rw [← List.reverse_reverse (List.dropWhile _ _), ← trimPieces, h, List.reverse_append]
    rfl
  have first := List.head?_dropWhile_not isEmptyPiece rest.reverse
  simpa [reversed] using first

theorem trimPieces_trimPieces (rest : List (List Char)) : trimPieces (trimPieces rest) = trimPieces rest :=
  List.rdropWhile_idempotent isEmptyPiece rest

theorem full_trimPieces (rest : List (List Char)) : full (trimPieces rest) = full rest := by
  obtain ⟨blanks, split, empty⟩ := exists_trimPieces rest
  conv => rhs; rw [split, full_append, full_of_empty empty, List.append_nil]

theorem exists_pieces (p : FilePath) : ∃ first rest, p.pieces = first :: rest :=
  List.exists_cons_of_ne_nil (split_ne_nil p.text.toList)

theorem text_eq (p : FilePath) : p.text.toList = joinPieces p.pieces := (joinPieces_split p.text.toList).symm

theorem plain_of_mem_pieces {p : FilePath} {piece : List Char} (h : piece ∈ p.pieces) : separator ∉ piece :=
  not_mem_of_mem_split h

/-- Only stretches without characters are written as nothing. -/
theorem eq_nil_of_joinPieces {ps : List (List Char)} (h : joinPieces ps = []) {piece : List Char}
    (mem : piece ∈ ps) : piece = [] := by
  cases ps with
  | nil => cases mem
  | cons p ps =>
    cases ps with
    | nil => rw [List.mem_singleton.1 mem]; exact h
    | cons q qs =>
      rw [joinPieces_cons] at h
      exact absurd (List.append_eq_nil_iff.1 h).2 (List.cons_ne_nil _ _)

/-- Whether a path is the root alone, or nothing at its end says nothing. -/
def Tidy (p : FilePath) : Prop := p.text = "/" ∨ ∃ first rest, p.pieces = first :: rest ∧ trimPieces rest = rest

/-- The parent of a path that ends in a step behind its first stretch: it is what is written before that step,
and has the steps before it. -/
theorem parent?_of_trimPieces {p : FilePath} {first last : List Char} {rest front : List (List Char)}
    (pieces : p.pieces = first :: rest) (ends : trimPieces rest = front ++ [last]) :
    ∃ q, p.parent? = some q ∧ q.steps = full (first :: front) ∧ q.Tidy ∧
      ∃ c more, p.text.toList = q.text.toList ++ c :: more := by
  obtain ⟨blanks, behind, -⟩ := exists_trimPieces rest
  obtain ⟨gap, before, -⟩ := exists_trimPieces front
  have text : p.text.toList = joinPieces (first :: trimPieces front) ++
      separator :: joinPieces (gap ++ last :: blanks) := by
    have whole : first :: rest = (first :: trimPieces front) ++ (gap ++ last :: blanks) := by
      rw [behind, ends]
      conv => lhs; rw [before]
      simp
    rw [text_eq, pieces, whole, joinPieces_append (List.cons_ne_nil _ _) (by simp)]
  have parent : p.parent? = if first.isEmpty && (trimPieces front).isEmpty then some ⟨"/"⟩
      else some ⟨String.ofList (joinPieces (first :: trimPieces front))⟩ := by
    obtain ⟨head, tail, shown⟩ := List.exists_cons_of_ne_nil (l := front ++ [last]) (by simp)
    simp only [parent?, pieces, ends, shown]
    rw [← shown, List.dropLast_concat]
  by_cases root : (first.isEmpty && (trimPieces front).isEmpty) = true
  · rw [if_pos root] at parent
    rw [Bool.and_eq_true, List.isEmpty_iff, List.isEmpty_iff] at root
    obtain ⟨rfl, bare⟩ := root
    have silent : full ([] :: front) = [] := by
      rw [full_cons_of_empty rfl, ← full_trimPieces, bare]
      rfl
    have further : joinPieces (gap ++ last :: blanks) ≠ [] := by
      intro nothing
      have empty : last = [] := eq_nil_of_joinPieces nothing (List.mem_append_right gap List.mem_cons_self)
      have full := isEmptyPiece_getLast_trimPieces ends
      rw [empty] at full
      cases full
    obtain ⟨c, more, written⟩ := List.exists_cons_of_ne_nil further
    refine ⟨_, parent, by rw [silent]; decide, .inl rfl, c, more, ?_⟩
    rw [text, bare, written]
    rfl
  · rw [if_neg root] at parent
    have plain : ∀ piece ∈ first :: trimPieces front, separator ∉ piece := by
      intro piece mem
      refine plain_of_mem_pieces (p := p) ?_
      rw [pieces, behind, ends, before]
      rcases List.mem_cons.1 mem with rfl | mem
      · exact List.mem_cons_self
      · simp [mem]
    have shown : (⟨String.ofList (joinPieces (first :: trimPieces front))⟩ : FilePath).pieces =
        first :: trimPieces front := by
      rw [FilePath.pieces, String.toList_ofList, split_joinPieces (List.cons_ne_nil _ _) plain]
    refine ⟨_, parent, ?_, .inr ⟨_, _, shown, trimPieces_trimPieces front⟩, separator, _,
      by rw [text, String.toList_ofList]⟩
    rw [steps, shown, ← List.singleton_append, full_append, full_trimPieces, ← full_append, List.singleton_append]

/-- A path without a step behind its first stretch has no parent but the path that says nothing. -/
theorem parent?_of_trimPieces_nil {p : FilePath} {first : List Char} {rest : List (List Char)}
    (pieces : p.pieces = first :: rest) (ends : trimPieces rest = []) :
    p.parent? = if first.isEmpty then none else some ⟨""⟩ := by
  simp only [parent?, pieces, ends]

/-- A path with a parent is one stretch below nothing, or ends in a step below its parent. -/
theorem parent?_cases {p q : FilePath} (h : p.parent? = some q) : ∃ first rest, p.pieces = first :: rest ∧
    (trimPieces rest = [] ∧ first ≠ [] ∧ q = ⟨""⟩ ∨
      ∃ front last, trimPieces rest = front ++ [last] ∧ q.steps = full (first :: front) ∧ q.Tidy ∧
        ∃ c more, p.text.toList = q.text.toList ++ c :: more) := by
  obtain ⟨first, rest, pieces⟩ := p.exists_pieces
  refine ⟨first, rest, pieces, ?_⟩
  rcases List.eq_nil_or_concat (trimPieces rest) with bare | ⟨front, last, ends⟩
  · rw [parent?_of_trimPieces_nil pieces bare] at h
    split at h
    · cases h
    · rename_i letters
      cases h
      exact .inl ⟨bare, fun empty => letters (by rw [empty]; rfl), rfl⟩
  · rw [List.concat_eq_append] at ends
    obtain ⟨q', parent, spec⟩ := parent?_of_trimPieces pieces ends
    rw [h] at parent
    cases parent
    exact .inr ⟨front, last, ends, spec⟩

/-- The steps of a path are those of its parent and at most one more. -/
theorem steps_of_parent? {p q : FilePath} (h : p.parent? = some q) :
    ∃ tail, p.steps = q.steps ++ tail ∧ (tail = [] → q.text = "") := by
  obtain ⟨first, rest, pieces, ⟨-, -, rfl⟩ | ⟨front, last, ends, steps, -⟩⟩ := parent?_cases h
  · exact ⟨p.steps, rfl, fun _ => rfl⟩
  · refine ⟨[last], ?_, fun bare => absurd bare (List.cons_ne_nil last [])⟩
    rw [FilePath.steps, pieces, ← List.singleton_append, full_append, ← full_trimPieces rest, ends, full_append,
      full_cons_of_full (isEmptyPiece_getLast_trimPieces ends), steps, ← List.singleton_append (l := front),
      full_append, List.append_assoc]
    rfl

theorem tidy_of_parent? {p q : FilePath} (h : p.parent? = some q) : q.Tidy := by
  obtain ⟨first, rest, -, ⟨-, -, rfl⟩ | ⟨front, last, -, -, tidy, -⟩⟩ := parent?_cases h
  · exact .inr ⟨[], [], rfl, rfl⟩
  · exact tidy

/-- A tidy path that has a parent ends in a step below it. -/
theorem Tidy.exists_pieces {p q : FilePath} (tidy : p.Tidy) (h : p.parent? = some q) :
    ∃ before last, p.pieces = before ++ [last] ∧ last ≠ [] ∧ q.steps = full before := by
  rcases tidy with root | ⟨first, rest, pieces, trimmed⟩
  · have none : p.parent? = none := by
      obtain rfl : p = ⟨"/"⟩ := congrArg FilePath.mk root
      decide
    rw [h] at none
    cases none
  · obtain ⟨first', rest', pieces', spec⟩ := parent?_cases h
    obtain ⟨rfl, rfl⟩ := List.cons.inj (pieces.symm.trans pieces')
    rw [trimmed] at spec
    obtain ⟨rfl, letters, rfl⟩ | ⟨front, last, rfl, steps, -⟩ := spec
    · exact ⟨[], first, pieces, letters, by decide⟩
    · refine ⟨first :: front, last, by rw [pieces]; rfl, fun empty => ?_, steps⟩
      have full := isEmptyPiece_getLast_trimPieces trimmed
      rw [empty] at full
      cases full

/-- The parent of a path is written before its end. -/
theorem text_of_parent? {p q : FilePath} (h : p.parent? = some q) :
    ∃ c more, p.text.toList = q.text.toList ++ c :: more := by
  obtain ⟨first, rest, pieces, ⟨-, letters, rfl⟩ | ⟨front, last, -, -, -, text⟩⟩ := parent?_cases h
  · obtain ⟨c, cs, rfl⟩ := List.exists_cons_of_ne_nil letters
    rw [text_eq, pieces]
    cases rest with
    | nil => exact ⟨c, cs, rfl⟩
    | cons _ _ => exact ⟨c, _, rfl⟩
  · exact text

/-- A path without a parent has no steps. -/
theorem steps_of_parent?_none {p : FilePath} (h : p.parent? = none) : p.steps = [] := by
  obtain ⟨first, rest, pieces⟩ := p.exists_pieces
  rcases List.eq_nil_or_concat (trimPieces rest) with bare | ⟨front, last, ends⟩
  · rw [parent?_of_trimPieces_nil pieces bare] at h
    split at h
    · rename_i empty
      rw [steps, pieces, full_cons_of_empty (by rw [isEmptyPiece, empty]; rfl), ← full_trimPieces, bare]
      rfl
    · cases h
  · rw [List.concat_eq_append] at ends
    obtain ⟨q, parent, -⟩ := parent?_of_trimPieces pieces ends
    rw [h] at parent
    cases parent

theorem length_of_parent? {p q : FilePath} (h : p.parent? = some q) : q.text.length < p.text.length := by
  obtain ⟨c, more, text⟩ := text_of_parent? h
  have length := congrArg List.length text
  simp only [String.length_toList, List.length_append, List.length_cons] at length
  omega

/-- What holds of a path with no parent, and of a path where it holds of the parent, holds of all paths. -/
@[elab_as_elim]
theorem parent_induction {motive : FilePath → Prop} (top : ∀ p : FilePath, p.parent? = none → motive p)
    (below : ∀ p q : FilePath, p.parent? = some q → motive q → motive p) (p : FilePath) : motive p := by
  obtain ⟨n, length⟩ : ∃ n, p.text.length = n := ⟨_, rfl⟩
  induction n using Nat.strongRecOn generalizing p with
  | ind n ih =>
    cases parent : p.parent? with
    | none => exact top p parent
    | some q => exact below p q parent (ih _ (length ▸ length_of_parent? parent) q rfl)

/-! Leaving out components ends before the characters do. -/

theorem ancestorsLoop_of_parent?_none {p : FilePath} (h : p.parent? = none) (fuel : Nat) :
    ancestorsLoop fuel p = [p] := by
  cases fuel with
  | zero => rfl
  | succ fuel => rw [ancestorsLoop, h, Option.elim_none]

theorem ancestorsLoop_of_le {fuel : Nat} {p : FilePath} (enough : p.text.length ≤ fuel) :
    ancestorsLoop fuel p = p.ancestors := by
  induction fuel using Nat.strongRecOn generalizing p with
  | ind fuel ih =>
    rw [ancestors]
    cases parent : p.parent? with
    | none => rw [ancestorsLoop_of_parent?_none parent, ancestorsLoop_of_parent?_none parent]
    | some q =>
      have shorter := length_of_parent? parent
      obtain ⟨n, rfl⟩ : ∃ n, fuel = n + 1 := ⟨fuel - 1, by omega⟩
      obtain ⟨m, length⟩ : ∃ m, p.text.length = m + 1 := ⟨p.text.length - 1, by omega⟩
      rw [length, ancestorsLoop, ancestorsLoop, parent, Option.elim_some, Option.elim_some,
        ih n (by omega) (by omega), ih m (by omega) (by omega)]

theorem ancestors_of_parent? {p q : FilePath} (h : p.parent? = some q) : p.ancestors = p :: q.ancestors := by
  have shorter := length_of_parent? h
  rw [← ancestorsLoop_of_le (Nat.le_succ p.text.length), ancestorsLoop, h, Option.elim_some,
    ancestorsLoop_of_le shorter.le]

/-- How a path is written that ends in a name. -/
structure EndsIn (p : FilePath) (name : String) (q : FilePath) (before blanks : List (List Char)) : Prop where
  fileName : p.fileName? = some name
  parent : p.parent? = some q
  steps : q.steps = full before
  pieces : p.pieces = before ++ name.toList :: blanks
  blanks : ∀ b ∈ blanks, isEmptyPiece b = true
  names : Names name.toList

theorem EndsIn.isName {p q : FilePath} {name : String} {before blanks : List (List Char)}
    (h : p.EndsIn name q before blanks) : IsName name := by
  refine ⟨fun empty => ?_, plain_of_mem_pieces (p := p) (by rw [h.pieces]; simp)⟩
  have full := h.names.full
  rw [empty] at full
  cases full

/-- The steps of a path that ends in a name are those of its parent and the name. -/
theorem EndsIn.steps_eq {p q : FilePath} {name : String} {before blanks : List (List Char)}
    (h : p.EndsIn name q before blanks) : p.steps = q.steps ++ [name.toList] := by
  rw [FilePath.steps, h.pieces, full_append, full_cons_of_full h.names.full, full_of_empty h.blanks, h.steps]

theorem EndsIn.mem_trail_iff {p q : FilePath} {name : String} {before blanks : List (List Char)} {place : Place}
    (h : p.EndsIn name q before blanks) : place ∈ trail [] p.steps ↔ place ∈ trail [] q.steps ∨ place = p.target := by
  have target : p.target = descend (q.steps.foldl descend []) name.toList := by
    rw [FilePath.target, h.steps_eq, List.foldl_append]
    rfl
  rw [target, h.steps_eq, trail_concat, List.mem_append, List.mem_singleton]

theorem ofPiece_eq_normal {piece : List Char} {name : String} (h : ofPiece piece = .normal name) :
    piece = name.toList ∧ name.toList ≠ ['.', '.'] := by
  unfold ofPiece at h
  split at h
  · cases h
  · rename_i other
    cases h
    rw [String.toList_ofList]
    exact ⟨rfl, fun same => other (beq_iff_eq.2 same)⟩

theorem getLast?_components_of_fileName? {p : FilePath} {name : String} (h : p.fileName? = some name) :
    p.components.getLast? = some (.normal name) := by
  unfold fileName? at h
  split at h
  · rename_i found
    cases h
    exact found
  · cases h

/-- A path that ends in a name has a parent. -/
theorem exists_of_fileName? {p : FilePath} {name : String} (h : p.fileName? = some name) :
    ∃ q before blanks, p.EndsIn name q before blanks := by
  obtain ⟨first, rest, pieces⟩ := p.exists_pieces
  obtain ⟨blanks, behind, empty⟩ := exists_trimPieces rest
  have last := getLast?_components_of_fileName? h
  simp only [components, pieces] at last
  change (_ ++ (full rest).map ofPiece).getLast? = _ at last
  rw [← full_trimPieces] at last
  rcases List.eq_nil_or_concat (trimPieces rest) with bare | ⟨front, step, ends⟩
  · rw [bare] at last behind
    have named : first.isEmpty = false ∧ (first == ['.']) = false ∧ ofPiece first = .normal name := by
      simp only [full, List.filter_nil, List.map_nil, List.append_nil] at last
      split at last
      · split at last <;> simp at last
      · split at last
        · simp at last
        · rename_i letters dot
          exact ⟨by simpa using letters, by simpa using dot, by simpa using last⟩
    obtain ⟨rfl, proper⟩ := ofPiece_eq_normal named.2.2
    refine ⟨⟨""⟩, [], blanks, h, ?_, by decide, by rw [pieces, behind]; rfl, empty, ⟨?_, proper⟩⟩
    · rw [parent?_of_trimPieces_nil pieces bare, named.1, if_neg Bool.false_ne_true]
    · rw [isEmptyPiece, named.1, named.2.1]
      rfl
  · rw [List.concat_eq_append] at ends
    have filled : isEmptyPiece step = false := isEmptyPiece_getLast_trimPieces ends
    obtain ⟨q, parent, steps, -⟩ := parent?_of_trimPieces pieces ends
    rw [ends, full_append, full_cons_of_full filled, List.map_append, ← List.append_assoc] at last
    have named : ofPiece step = .normal name := by simpa [full] using last
    obtain ⟨rfl, proper⟩ := ofPiece_eq_normal named
    refine ⟨q, first :: front, blanks, h, parent, steps, ?_, empty, filled, proper⟩
    rw [pieces, behind, ends]
    simp

/-- A path that ends in no name has no steps, or leads up at its end. -/
theorem steps_of_fileName?_none {p : FilePath} (h : p.fileName? = none) :
    p.steps = [] ∨ ∃ front, p.steps = front ++ [['.', '.']] := by
  obtain ⟨first, rest, pieces⟩ := p.exists_pieces
  rcases List.eq_nil_or_concat p.steps with bare | ⟨front, step, ends⟩
  · exact .inl bare
  · rw [List.concat_eq_append] at ends
    refine .inr ⟨front, ?_⟩
    suffices up : step = ['.', '.'] by rw [ends, up]
    have last : p.components.getLast? = some (ofPiece step) := by
      rw [steps, pieces, ← List.singleton_append, full_append] at ends
      simp only [components, pieces]
      change (_ ++ (full rest).map ofPiece).getLast? = _
      rcases List.eq_nil_or_concat (full rest) with bare | ⟨inner, final, behind⟩
      · -- the first stretch is the only step
        rw [bare, List.append_nil] at ends
        cases empty : isEmptyPiece first with
        | true =>
          rw [full_cons_of_empty empty] at ends
          exact absurd ends.symm (List.append_ne_nil_of_right_ne_nil front (List.cons_ne_nil step []))
        | false =>
          rw [full_cons_of_full empty] at ends
          change [] ++ [first] = front ++ [step] at ends
          have same : first = step := List.singleton_inj.1 (List.append_inj' ends rfl).2
          rw [isEmptyPiece, Bool.or_eq_false_iff] at empty
          rw [bare, empty.1, if_neg Bool.false_ne_true, empty.2, if_neg Bool.false_ne_true, same]
          rfl
      · rw [behind, List.concat_eq_append, ← List.append_assoc] at ends
        have same : final = step := List.singleton_inj.1 (List.append_inj' ends rfl).2
        rw [behind, List.concat_eq_append, List.map_append, ← List.append_assoc, same]
        exact List.getLast?_concat
    by_contra other
    have normal : ofPiece step = .normal (String.ofList step) := if_neg (by simpa using other)
    rw [fileName?, last, normal] at h
    cases h

/-- The steps to a name below a path. -/
theorem exists_join (p : FilePath) {name : String} (h : IsName name) :
    ∃ before, (p.join name).pieces = before ++ [name.toList] ∧ full before = p.steps := by
  have relative : (⟨name⟩ : FilePath).isAbsolute = false := by
    refine beq_eq_false_iff_ne.2 fun first => h.2 ?_
    exact List.mem_of_mem_head? first
  unfold join
  rw [relative, if_neg Bool.false_ne_true]
  split
  · rename_i front
    rcases Bool.or_eq_true_iff.1 front with empty | slash
    · have bare : p.text = "" := String.isEmpty_iff.1 empty
      refine ⟨[], by rw [pieces, bare, String.empty_append, split_of_not_mem h.2, List.nil_append], ?_⟩
      rw [steps, pieces, bare]
      decide
    · obtain ⟨before, last⟩ : ∃ before, p.text.toList = before ++ [separator] :=
        List.getLast?_eq_some_iff.1 (beq_iff_eq.1 slash)
      refine ⟨split before, ?_, ?_⟩
      · rw [pieces, String.toList_append, last, List.append_assoc, List.singleton_append, split_append_separator,
          split_of_not_mem h.2]
      · rw [steps, pieces, last, split_append_separator, full_append]
        exact (List.append_nil _).symm
  · refine ⟨p.pieces, ?_, rfl⟩
    have text : (p.text ++ "/" ++ name).toList = p.text.toList ++ separator :: name.toList := by
      rw [String.toList_append, String.toList_append, List.append_assoc]
      rfl
    rw [pieces, text, split_append_separator, split_of_not_mem h.2]
    rfl

/-- Two names give two paths. -/
theorem join_inj {dir : FilePath} {a b : String} (ha : IsName a) (hb : IsName b)
    (same : dir.join a = dir.join b) : a = b := by
  obtain ⟨before, endsA, -⟩ := dir.exists_join ha
  obtain ⟨before', endsB, -⟩ := dir.exists_join hb
  rw [same, endsB] at endsA
  have last := (List.append_inj' endsA rfl).2
  exact String.toList_inj.1 (List.singleton_inj.1 last).symm

end FilePath

end LiveSettings
