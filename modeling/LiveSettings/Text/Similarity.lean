/-!
# Similar names

How alike two names are, from 0 to 1: letters of one that occur nearby in the other count, letters out of
order count less, and a common start counts more. Used to suggest the name that was meant.

Results: `matchLetter_length` (a match is marked in a list of the same length).
-/

namespace LiveSettings.Text

/-- Marks the first free place at or behind `low`, and before `high`, that holds the letter. `place` counts the
places passed. -/
def matchLetter (c : Char) (low high place : Nat) : List (Char × Bool) → Option (List (Char × Bool))
  | [] => none
  | (d, used) :: rest =>
    if high ≤ place then none
    else if low ≤ place ∧ c = d ∧ used = false then some ((d, true) :: rest)
    else (matchLetter c low high (place + 1) rest).map ((d, used) :: ·)

theorem matchLetter_length {c : Char} {low high place : Nat} {l l' : List (Char × Bool)}
    (h : matchLetter c low high place l = some l') : l'.length = l.length := by
  induction l generalizing place l' with
  | nil => simp [matchLetter] at h
  | cons p rest ih =>
    obtain ⟨d, used⟩ := p
    simp only [matchLetter] at h
    split at h
    · cases h
    · split at h
      · cases h; rfl
      · cases hr : matchLetter c low high (place + 1) rest with
        | none => simp [hr] at h
        | some r =>
          simp [hr] at h
          subst h
          simp [ih hr]

/-- Matches the letters of a name in turn: the matched letters, and the marked letters of the other name. -/
def matchLetters (range : Nat) : Nat → List Char → List (Char × Bool) →
    List Char × List (Char × Bool)
  | _, [], other => ([], other)
  | i, c :: cs, other =>
    match matchLetter c (i - range) (i + range + 1) 0 other with
    | some other =>
      let (matched, other) := matchLetters range (i + 1) cs other
      (c :: matched, other)
    | none => matchLetters range (i + 1) cs other

/-- How alike two names are, without regard to a common start. -/
def similarity (a b : List Char) : Float :=
  if a.isEmpty && b.isEmpty then 1.0
  else if a.isEmpty || b.isEmpty then 0.0
  else
    let range := max a.length b.length / 2 - 1
    let (matched, marked) := matchLetters range 0 a (b.map (·, false))
    let other := (marked.filter (·.2)).map (·.1)
    let swapped := ((matched.zip other).filter fun p => p.1 ≠ p.2).length / 2
    let n := matched.length
    if n = 0 then 0.0
    else (n.toFloat / a.length.toFloat + n.toFloat / b.length.toFloat +
      (n - swapped).toFloat / n.toFloat) / 3.0

/-- The letters, at most four, that both names start with. -/
def commonStart (a b : List Char) : Nat :=
  (((a.take 4).zip b).takeWhile fun p => p.1 = p.2).length

/-- How alike two names are; a common start brings similar names closer. -/
def likeness (a b : String) : Float :=
  let s := similarity a.toList b.toList
  if s > 0.7 then s + 0.1 * (commonStart a.toList b.toList).toFloat * (1.0 - s) else s

end LiveSettings.Text
