import LiveSettings.Proofs.Json.NumberSpelling

/-!
# The texts of a document

A `Spelling` is a document as it may be written in JSON, with its blanks, its escapes and the digits of its
numbers. `document` is what it stands for.

Results:
* `units?_spelling`: a text is read up to its closing quote.
* `value_spelling`: a document is read to its end, with fuel for twice as many steps as it has characters.
* `ofText?_spelling`: reading the text of a spelling gives its document.
-/

namespace LiveSettings.Json

/-! ## Texts -/

/-- A hexadecimal digit with its value. -/
structure HexDigit where
  char : Char
  value : Nat
  reads : hexDigit? char = some value

/-- A unit of a text as it is written. -/
inductive UnitSpelling where
  | plain (c : Char) (allowed : c ≠ '"' ∧ c ≠ '\\' ∧ 32 ≤ c.toNat)
  | escape (letter c : Char) (means : unescape? letter = some c)
  | code (a b c d : HexDigit)

namespace UnitSpelling

def chars : UnitSpelling → List Char
  | .plain c _ => [c]
  | .escape letter _ _ => ['\\', letter]
  | .code a b c d => ['\\', 'u', a.char, b.char, c.char, d.char]

def unit : UnitSpelling → TextUnit
  | .plain c _ => .char c
  | .escape _ c _ => .char c
  | .code a b c d => .code (((a.value * 16 + b.value) * 16 + c.value) * 16 + d.value)

end UnitSpelling

/-- The characters of units and the quote behind them. -/
def quotedTail (us : List UnitSpelling) : List Char := us.flatMap (·.chars) ++ ['"']

theorem units?_unit (u : UnitSpelling) (rest : List Char) :
    units? (u.chars ++ rest) = (units? rest).map fun r => (u.unit :: r.1, r.2) := by
  cases u with
  | plain c allowed =>
    obtain ⟨quote, slash, low⟩ := allowed
    have hlow : ¬c.toNat < 32 := by omega
    simp only [UnitSpelling.chars, UnitSpelling.unit, List.cons_append, List.nil_append]
    rw [units?.eq_5]
    · simp [slash, hlow]
    all_goals simp_all
  | escape letter c means =>
    have hu : letter ≠ 'u' := by rintro rfl; simp [unescape?] at means
    simp only [UnitSpelling.chars, UnitSpelling.unit, List.cons_append, List.nil_append]
    rw [units?.eq_4 _ _ (by simp_all)]
    rw [means]
    cases units? rest <;> rfl
  | code a b c d =>
    simp only [UnitSpelling.chars, UnitSpelling.unit, List.cons_append, List.nil_append, units?, a.reads,
      b.reads, c.reads, d.reads]
    cases units? rest <;> rfl

theorem units?_spelling (us : List UnitSpelling) (rest : List Char) :
    units? (quotedTail us ++ rest) = some (us.map (·.unit), rest) := by
  induction us with
  | nil => rfl
  | cons u us ih =>
    have : quotedTail (u :: us) ++ rest = u.chars ++ (quotedTail us ++ rest) := by simp [quotedTail]
    rw [this, units?_unit, ih]
    rfl

/-! ## Documents -/

/-- Blanks between the parts of a document. -/
structure Blanks where
  chars : List Char
  blank : ∀ c ∈ chars, isBlank c = true

def Blanks.none : Blanks := ⟨[], by simp⟩

/-- The name of a member with the blanks around it. -/
structure NameSpelling where
  before : Blanks
  units : List UnitSpelling
  behind : Blanks

namespace NameSpelling

def chars (n : NameSpelling) : List Char :=
  n.before.chars ++ '"' :: (quotedTail n.units ++ (n.behind.chars ++ [':']))

/-- The name, if its units stand for characters. -/
def name? (n : NameSpelling) : Option (List Char) := unitsChars? (n.units.map (·.unit))

end NameSpelling

mutual

/-- A document as it is written. -/
inductive Spelling where
  | null
  | bool (b : Bool)
  | number (n : NumberSpelling)
  | text (us : List UnitSpelling)
  | emptyArray (gap : Blanks)
  | array (items : ItemSpellings)
  | emptyObject (gap : Blanks)
  | object (members : MemberSpellings)

/-- Items with blanks around them and commas between them. -/
inductive ItemSpellings where
  | last (before : Blanks) (item : Spelling) (behind : Blanks)
  | more (before : Blanks) (item : Spelling) (behind : Blanks) (rest : ItemSpellings)

/-- Members with blanks around their values and commas between them. -/
inductive MemberSpellings where
  | last (name : NameSpelling) (before : Blanks) (value : Spelling) (behind : Blanks)
  | more (name : NameSpelling) (before : Blanks) (value : Spelling) (behind : Blanks) (rest : MemberSpellings)

end

mutual

def Spelling.chars : Spelling → List Char
  | .null => "null".toList
  | .bool b => (if b then "true" else "false").toList
  | .number n => n.chars
  | .text us => '"' :: quotedTail us
  | .emptyArray gap => '[' :: (gap.chars ++ [']'])
  | .array items => '[' :: (items.chars ++ [']'])
  | .emptyObject gap => '\x7b' :: (gap.chars ++ ['\x7d'])
  | .object members => '\x7b' :: (members.chars ++ ['\x7d'])

def ItemSpellings.chars : ItemSpellings → List Char
  | .last before item behind => before.chars ++ (item.chars ++ behind.chars)
  | .more before item behind rest => before.chars ++ (item.chars ++ (behind.chars ++ ',' :: rest.chars))

def MemberSpellings.chars : MemberSpellings → List Char
  | .last name before value behind => name.chars ++ (before.chars ++ (value.chars ++ behind.chars))
  | .more name before value behind rest =>
    name.chars ++ (before.chars ++ (value.chars ++ (behind.chars ++ ',' :: rest.chars)))

end

mutual

/-- What is written. -/
def Spelling.document : Spelling → Json
  | .null => .null
  | .bool b => .bool b
  | .number n => ofNumberText n.text
  | .text us => ofUnits (us.map (·.unit))
  | .emptyArray _ => .array []
  | .array items => .array items.documents
  | .emptyObject _ => .object []
  | .object members => ofMembers members.documents

def ItemSpellings.documents : ItemSpellings → List Json
  | .last _ item _ => [item.document]
  | .more _ item _ rest => item.document :: rest.documents

def MemberSpellings.documents : MemberSpellings → List (Option (List Char) × Json)
  | .last name _ value _ => [(name.name?, value.document)]
  | .more name _ value _ rest => (name.name?, value.document) :: rest.documents

end

def Spelling.string (s : Spelling) : String := String.ofList s.chars

/-! ## Reading -/

theorem skipBlanks_gap (gap : Blanks) (rest : List Char) : skipBlanks (gap.chars ++ rest) = skipBlanks rest :=
  List.dropWhile_append_of_pos gap.blank

theorem skipBlanks_cons {c : Char} {rest : List Char} (h : isBlank c = false) :
    skipBlanks (c :: rest) = c :: rest := by
  simp [skipBlanks, h]

theorem skipBlanks_skipBlanks (cs : List Char) : skipBlanks (skipBlanks cs) = skipBlanks cs := by
  induction cs with
  | nil => rfl
  | cons c cs ih =>
    cases h : isBlank c with
    | true => simpa [skipBlanks, h] using ih
    | false => rw [skipBlanks_cons h, skipBlanks_cons h]

theorem value_skipBlanks (fuel : Nat) (cs : List Char) : value fuel (skipBlanks cs) = value fuel cs := by
  cases fuel with
  | zero => rfl
  | succ fuel => rw [value, value, skipBlanks_skipBlanks]

theorem items_skipBlanks (fuel : Nat) (cs : List Char) : items fuel (skipBlanks cs) = items fuel cs := by
  cases fuel with
  | zero => rfl
  | succ fuel => rw [items, items, value_skipBlanks]

theorem members_skipBlanks (fuel : Nat) (cs : List Char) : members fuel (skipBlanks cs) = members fuel cs := by
  cases fuel with
  | zero => rfl
  | succ fuel => rw [members, members, skipBlanks_skipBlanks]

/-- The marks behind a value. -/
def isCloser (c : Char) : Bool := c == ',' || c == ']' || c == '\x7d'

theorem endsNumber_gap (gap : Blanks) {c : Char} (h : isCloser c = true) (rest : List Char) :
    EndsNumber (gap.chars ++ c :: rest) := by
  intro d hd
  have : isBlank d = true ∨ isCloser d = true := by
    cases hg : gap.chars with
    | nil => right; simp_all
    | cons b bs =>
      left
      simp only [hg, List.cons_append, List.head?_cons, Option.some.injEq] at hd
      exact hd ▸ gap.blank b (by simp [hg])
  rcases this with hb | hb
  · simp only [isBlank, Bool.or_eq_true, beq_iff_eq] at hb
    rcases hb with ((rfl | rfl) | rfl) | rfl <;> decide
  · simp only [isCloser, Bool.or_eq_true, beq_iff_eq] at hb
    rcases hb with (rfl | rfl) | rfl <;> decide

theorem skipBlanks_closer (gap : Blanks) {c : Char} (h : isCloser c = true) (rest : List Char) :
    skipBlanks (gap.chars ++ c :: rest) = c :: rest := by
  rw [skipBlanks_gap, skipBlanks_cons]
  simp only [isCloser, Bool.or_eq_true, beq_iff_eq] at h
  rcases h with (rfl | rfl) | rfl <;> rfl

theorem NumberSpelling.exists_cons (n : NumberSpelling) :
    ∃ c cs, n.chars = c :: cs ∧ (c == '-' || c.isDigit) = true := by
  obtain ⟨c, cs, hc, hd⟩ := n.whole.toDigits.exists_cons
  unfold NumberSpelling.chars
  split
  · exact ⟨_, _, rfl, rfl⟩
  · exact ⟨c, _, by rw [NumberSpelling.unsigned, hc, List.cons_append], by simp [hd]⟩

/-- A document begins with a character that is no blank and closes nothing. -/
theorem Spelling.exists_cons (s : Spelling) :
    ∃ c cs, s.chars = c :: cs ∧ isBlank c = false ∧ isCloser c = false := by
  cases s with
  | bool b => cases b <;> exact ⟨_, _, rfl, rfl, rfl⟩
  | number n =>
    obtain ⟨c, cs, hc, hd⟩ := n.exists_cons
    have ne (d : Char) (h : (d == '-' || d.isDigit) = false) : c ≠ d := by rintro rfl; simp [h] at hd
    refine ⟨c, cs, hc, ?_, ?_⟩
    · simp [isBlank, ne ' ' rfl, ne '\n' rfl, ne '\t' rfl, ne '\r' rfl]
    · simp [isCloser, ne ',' rfl, ne ']' rfl, ne '\x7d' rfl]
  | _ => exact ⟨_, _, rfl, rfl, rfl⟩

theorem skipBlanks_spelling (s : Spelling) (rest : List Char) :
    skipBlanks (s.chars ++ rest) = s.chars ++ rest := by
  obtain ⟨c, cs, hc, hb, -⟩ := s.exists_cons
  rw [hc, List.cons_append, skipBlanks_cons hb]

theorem skipBlanks_name (n : NameSpelling) (rest : List Char) :
    skipBlanks (n.chars ++ rest) = '"' :: (quotedTail n.units ++ (n.behind.chars ++ ':' :: rest)) := by
  simp only [NameSpelling.chars, List.append_assoc, List.cons_append, List.nil_append, skipBlanks_gap]
  exact skipBlanks_cons rfl

theorem value_number (n : NumberSpelling) {rest : List Char} (hr : EndsNumber rest) (fuel : Nat) :
    value (fuel + 1) (n.chars ++ rest) = some (ofNumberText n.text, rest) := by
  obtain ⟨c, cs, hc, hd⟩ := n.exists_cons
  have read := numberText?_spelling n hr
  have skip := skipBlanks_spelling (.number n) rest
  simp only [Spelling.chars] at skip
  rw [value, skip]
  rw [hc, List.cons_append] at read ⊢
  have ne (d : Char) (h : (d == '-' || d.isDigit) = false) : c ≠ d := by rintro rfl; simp [h] at hd
  split
  · rename_i e
    cases e
  · rename_i e
    exact absurd (List.cons.inj e).1 (ne '"' rfl)
  · rename_i e
    exact absurd (List.cons.inj e).1 (ne '[' rfl)
  · rename_i e
    exact absurd (List.cons.inj e).1 (ne '\x7b' rfl)
  · rename_i e
    obtain ⟨rfl, rfl⟩ := List.cons.inj e
    simp [hd, read]

theorem value_quote (fuel : Nat) (cs : List Char) :
    value (fuel + 1) ('"' :: cs) = (units? cs).map fun r => (ofUnits r.1, r.2) := rfl

theorem value_bracket (fuel : Nat) (cs : List Char) :
    value (fuel + 1) ('[' :: cs) =
      match skipBlanks cs with
      | ']' :: rest => some (.array [], rest)
      | cs => (items fuel cs).map fun r => (.array r.1, r.2) := rfl

theorem value_brace (fuel : Nat) (cs : List Char) :
    value (fuel + 1) ('\x7b' :: cs) =
      match skipBlanks cs with
      | '\x7d' :: rest => some (.object [], rest)
      | cs => (members fuel cs).map fun r => (ofMembers r.1, r.2) := rfl

/-- An array whose first character behind the blanks does not close it has items. -/
theorem value_items (fuel : Nat) (cs : List Char) (h : (skipBlanks cs).head? ≠ some ']') :
    value (fuel + 1) ('[' :: cs) = (items fuel cs).map fun r => (.array r.1, r.2) := by
  rw [value_bracket, ← items_skipBlanks]
  split
  · rename_i e
    exact absurd (congrArg List.head? e) h
  · rfl

theorem value_members (fuel : Nat) (cs : List Char) (h : (skipBlanks cs).head? ≠ some '\x7d') :
    value (fuel + 1) ('\x7b' :: cs) = (members fuel cs).map fun r => (ofMembers r.1, r.2) := by
  rw [value_brace, ← members_skipBlanks]
  split
  · rename_i e
    exact absurd (congrArg List.head? e) h
  · rfl

theorem head?_items (is : ItemSpellings) (rest : List Char) :
    (skipBlanks (is.chars ++ rest)).head? ≠ some ']' := by
  have key (before : Blanks) (item : Spelling) (cs : List Char) :
      (skipBlanks (before.chars ++ (item.chars ++ cs))).head? ≠ some ']' := by
    obtain ⟨c, ds, hc, -, hcl⟩ := item.exists_cons
    rw [skipBlanks_gap, skipBlanks_spelling, hc]
    rintro e
    simp only [List.cons_append, List.head?_cons, Option.some.injEq] at e
    subst e
    exact absurd hcl (by decide)
  cases is <;> simp only [ItemSpellings.chars, List.append_assoc] <;> exact key _ _ _

theorem head?_members (ms : MemberSpellings) (rest : List Char) :
    (skipBlanks (ms.chars ++ rest)).head? ≠ some '\x7d' := by
  cases ms <;> simp only [MemberSpellings.chars, List.append_assoc, skipBlanks_name] <;> simp

theorem value_gap (before : Blanks) (s : Spelling) (behind : Blanks) (c : Char) (hc : isCloser c = true)
    (rest : List Char) {fuel : Nat}
    (read : ∀ rest, EndsNumber rest → value fuel (s.chars ++ rest) = some (s.document, rest)) :
    value fuel (before.chars ++ (s.chars ++ (behind.chars ++ c :: rest))) =
      some (s.document, behind.chars ++ c :: rest) := by
  rw [← value_skipBlanks, skipBlanks_gap, value_skipBlanks]
  exact read _ (endsNumber_gap behind hc rest)

theorem skipBlanks_colon (n : NameSpelling) (rest : List Char) :
    skipBlanks (n.behind.chars ++ ':' :: rest) = ':' :: rest := by
  rw [skipBlanks_gap, skipBlanks_cons rfl]

mutual

/-- A document is read to its end: each of its characters takes two steps at most. -/
theorem value_spelling : (s : Spelling) → (fuel : Nat) → 2 * s.chars.length ≤ fuel → (rest : List Char) →
    EndsNumber rest → value fuel (s.chars ++ rest) = some (s.document, rest)
  | s, 0, hf, _, _ => by
    obtain ⟨c, cs, hc, -⟩ := s.exists_cons
    simp [hc] at hf
  | .null, fuel + 1, _, _, _ => rfl
  | .bool b, fuel + 1, _, _, _ => by cases b <;> rfl
  | .number n, fuel + 1, _, rest, hr => value_number n hr fuel
  | .text us, fuel + 1, _, rest, _ => by
    simp only [Spelling.chars, Spelling.document, List.cons_append, value_quote, units?_spelling]
    rfl
  | .emptyArray gap, fuel + 1, _, rest, _ => by
    simp only [Spelling.chars, Spelling.document, List.cons_append, List.append_assoc, List.nil_append]
    rw [value_bracket, skipBlanks_closer gap rfl]
    rfl
  | .emptyObject gap, fuel + 1, _, rest, _ => by
    simp only [Spelling.chars, Spelling.document, List.cons_append, List.append_assoc, List.nil_append]
    rw [value_brace, skipBlanks_closer gap rfl]
    rfl
  | .array is, fuel + 1, hf, rest, _ => by
    have read := items_spelling is fuel (by simp [Spelling.chars] at hf; omega) rest
    simp only [Spelling.chars, Spelling.document, List.cons_append, List.append_assoc, List.nil_append]
    rw [value_items _ _ (head?_items is _), read]
    rfl
  | .object ms, fuel + 1, hf, rest, _ => by
    have read := members_spelling ms fuel (by simp [Spelling.chars] at hf; omega) rest
    simp only [Spelling.chars, Spelling.document, List.cons_append, List.append_assoc, List.nil_append]
    rw [value_members _ _ (head?_members ms _), read]
    rfl

theorem items_spelling : (is : ItemSpellings) → (fuel : Nat) → 2 * is.chars.length + 1 ≤ fuel →
    (rest : List Char) → items fuel (is.chars ++ ']' :: rest) = some (is.documents, rest)
  | .last before item behind, fuel + 1, hf, rest => by
    simp only [ItemSpellings.chars, List.length_append] at hf
    have read := value_spelling item fuel (by omega)
    simp only [ItemSpellings.chars, ItemSpellings.documents, List.append_assoc]
    simp only [items, value_gap before item behind ']' rfl rest read]
    rw [skipBlanks_closer behind rfl]
    rfl
  | .more before item behind more, fuel + 1, hf, rest => by
    simp only [ItemSpellings.chars, List.length_append, List.length_cons] at hf
    have read := value_spelling item fuel (by omega)
    have readMore := items_spelling more fuel (by omega) rest
    simp only [ItemSpellings.chars, ItemSpellings.documents, List.append_assoc, List.cons_append]
    simp only [items, value_gap before item behind ',' rfl _ read]
    rw [skipBlanks_closer behind rfl]
    show Option.map _ (items fuel _) = _
    rw [readMore]
    rfl

theorem members_spelling : (ms : MemberSpellings) → (fuel : Nat) → 2 * ms.chars.length + 1 ≤ fuel →
    (rest : List Char) → members fuel (ms.chars ++ '\x7d' :: rest) = some (ms.documents, rest)
  | .last name before v behind, fuel + 1, hf, rest => by
    simp only [MemberSpellings.chars, List.length_append] at hf
    have read := value_spelling v fuel (by omega)
    simp only [MemberSpellings.chars, MemberSpellings.documents, List.append_assoc]
    simp only [members, skipBlanks_name, units?_spelling, skipBlanks_colon,
      value_gap before v behind '\x7d' rfl rest read]
    rw [skipBlanks_closer behind rfl]
    rfl
  | .more name before v behind more, fuel + 1, hf, rest => by
    simp only [MemberSpellings.chars, List.length_append, List.length_cons] at hf
    have read := value_spelling v fuel (by omega)
    have readMore := members_spelling more fuel (by omega) rest
    simp only [MemberSpellings.chars, MemberSpellings.documents, List.append_assoc, List.cons_append]
    simp only [members, skipBlanks_name, units?_spelling, skipBlanks_colon,
      value_gap before v behind ',' rfl _ read]
    rw [skipBlanks_closer behind rfl]
    show Option.map _ (members fuel _) = _
    rw [readMore]
    rfl

end

theorem ofText?_spelling (s : Spelling) : ofText? s.string = some s.document := by
  have read := value_spelling s (2 * s.chars.length + 2) (by omega) [] endsNumber_nil
  rw [List.append_nil] at read
  simp [ofText?, Spelling.string, read, skipBlanks]

end LiveSettings.Json
