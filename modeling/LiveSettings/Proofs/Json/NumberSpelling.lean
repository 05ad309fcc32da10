import LiveSettings.Json.Reader

/-!
# The texts of a number

A `NumberSpelling` is a number as it is written in JSON: a sign, digits before and behind a point, an exponent.

Results:
* `exponent?_spelling`, `unsigned?_spelling`: each part is read to its end.
* `numberText?_spelling`: a number is read to its end, whatever follows it that cannot belong to it.
-/

namespace LiveSettings.Json

/-! ## Parts of a number -/

/-- Digits, at least one. -/
structure Digits where
  chars : List Char
  digit : ∀ c ∈ chars, c.isDigit = true
  nonempty : chars ≠ []

/-- The digits before a point: a zero stands alone. -/
structure WholeDigits extends Digits where
  plain : chars.head? = some '0' → chars = ['0']

/-- The digit zero. -/
def WholeDigits.zero : WholeDigits := ⟨⟨['0'], by simp [Char.isDigit], by simp⟩, fun _ => rfl⟩

@[simp]
theorem WholeDigits.chars_zero : WholeDigits.zero.chars = ['0'] := rfl

inductive ExponentSign where
  | none
  | plus
  | minus

def ExponentSign.chars : ExponentSign → List Char
  | .none => []
  | .plus => ['+']
  | .minus => ['-']

structure ExponentSpelling where
  capital : Bool
  sign : ExponentSign
  digits : Digits

namespace ExponentSpelling

def chars (e : ExponentSpelling) : List Char :=
  (if e.capital then 'E' else 'e') :: (e.sign.chars ++ e.digits.chars)

def value (e : ExponentSpelling) : Int :=
  match e.sign with
  | .minus => -(Binary.digitsValue e.digits.chars : Int)
  | _ => Binary.digitsValue e.digits.chars

end ExponentSpelling

structure NumberSpelling where
  negative : Bool
  whole : WholeDigits
  fraction : Option Digits
  exponent : Option ExponentSpelling

namespace NumberSpelling

/-- The point and the digits behind it. -/
@[simp]
def fractionChars : Option Digits → List Char
  | none => []
  | some d => '.' :: d.chars

@[simp]
def exponentChars : Option ExponentSpelling → List Char
  | none => []
  | some e => e.chars

def unsigned (n : NumberSpelling) : List Char :=
  n.whole.chars ++ (fractionChars n.fraction ++ exponentChars n.exponent)

def chars (n : NumberSpelling) : List Char := if n.negative then '-' :: n.unsigned else n.unsigned

def text (n : NumberSpelling) : NumberText :=
  ⟨n.negative, n.whole.chars, n.fraction.map (·.chars), n.exponent.map (·.value)⟩

end NumberSpelling

/-! ## What follows a number -/

/-- What follows does not begin with a digit. -/
def EndsDigits (rest : List Char) : Prop := ∀ c, rest.head? = some c → c.isDigit = false

/-- What follows cannot belong to a number. -/
def EndsNumber (rest : List Char) : Prop :=
  ∀ c, rest.head? = some c → c.isDigit = false ∧ c ≠ '.' ∧ c ≠ 'e' ∧ c ≠ 'E'

theorem EndsNumber.endsDigits {rest : List Char} (h : EndsNumber rest) : EndsDigits rest :=
  fun c hc => (h c hc).1

theorem endsNumber_nil : EndsNumber [] := by
  intro c h
  simp at h

theorem Digits.exists_cons (d : Digits) : ∃ c cs, d.chars = c :: cs ∧ c.isDigit = true := by
  obtain ⟨chars, digit, nonempty⟩ := d
  cases chars with
  | nil => exact absurd rfl nonempty
  | cons c cs => exact ⟨c, cs, rfl, digit c List.mem_cons_self⟩

/-! ## Reading -/

theorem takeWhile_digits {ds rest : List Char} (h : ∀ c ∈ ds, c.isDigit = true) (hr : EndsDigits rest) :
    (ds ++ rest).takeWhile Char.isDigit = ds ∧ (ds ++ rest).dropWhile Char.isDigit = rest := by
  rw [List.takeWhile_append_of_pos h, List.dropWhile_append_of_pos h]
  cases rest with
  | nil => simp
  | cons c rest => simp [hr c rfl]

theorem digits?_spelling (d : Digits) {rest : List Char} (hr : EndsDigits rest) :
    digits? (d.chars ++ rest) = some (d.chars, rest) := by
  obtain ⟨ht, hd⟩ := takeWhile_digits d.digit hr
  simp [digits?, ht, hd, d.nonempty]

theorem whole?_spelling (w : WholeDigits) {rest : List Char} (hr : EndsDigits rest) :
    whole? (w.chars ++ rest) = some (w.chars, rest) := by
  obtain ⟨c, cs, hc, -⟩ := w.toDigits.exists_cons
  by_cases h0 : c = '0'
  · subst h0
    rw [w.plain (by simp [hc])]
    have : rest.head?.all (fun c => !c.isDigit) = true := by
      cases rest with
      | nil => rfl
      | cons c rest => simp [hr c rfl]
    simp only [List.cons_append, List.nil_append, whole?, this, if_true]
  · rw [← digits?_spelling w.toDigits hr, hc]
    simp only [List.cons_append]
    rw [whole?]
    rintro ds e
    exact h0 (by simpa using congrArg List.head? e)

theorem fraction?_spelling (f : Option Digits) {rest : List Char} (hr : EndsDigits rest)
    (hp : rest.head? ≠ some '.') :
    fraction? (NumberSpelling.fractionChars f ++ rest) = some (f.map (·.chars), rest) := by
  cases f with
  | none =>
    simp only [NumberSpelling.fractionChars, List.nil_append, Option.map_none]
    rw [fraction?]
    rintro cs rfl
    exact hp rfl
  | some d => simp [NumberSpelling.fractionChars, fraction?, digits?_spelling d hr]

theorem exponent?_absent {rest : List Char} (h : EndsNumber rest) : exponent? rest = some (none, rest) := by
  cases rest with
  | nil => rfl
  | cons c rest =>
    obtain ⟨-, -, he, hE⟩ := h c rfl
    simp [exponent?, he, hE]

theorem exponent?_present (e : ExponentSpelling) {rest : List Char} (hr : EndsDigits rest) :
    exponent? (e.chars ++ rest) = some (some e.value, rest) := by
  obtain ⟨capital, sign, d⟩ := e
  have hd := digits?_spelling d hr
  have mark : ((if capital then 'E' else 'e') == 'e' || (if capital then 'E' else 'e') == 'E') = true := by
    cases capital <;> rfl
  simp only [ExponentSpelling.chars, ExponentSpelling.value, List.cons_append, exponent?, mark, if_true]
  cases sign with
  | plus => simp [ExponentSign.chars, hd]
  | minus => simp [ExponentSign.chars, hd]
  | none =>
    obtain ⟨c, cs, hc, hdigit⟩ := d.exists_cons
    rw [hc, List.cons_append] at hd
    simp only [ExponentSign.chars, List.nil_append, hc, List.cons_append]
    have hp : c ≠ '+' := by rintro rfl; exact absurd hdigit (by decide)
    have hm : c ≠ '-' := by rintro rfl; exact absurd hdigit (by decide)
    split
    · rename_i eq
      exact absurd (List.cons.inj eq).1 hp
    · rename_i eq
      exact absurd (List.cons.inj eq).1 hm
    · simp [hd]

theorem exponent?_spelling (e : Option ExponentSpelling) {rest : List Char} (hr : EndsNumber rest) :
    exponent? (NumberSpelling.exponentChars e ++ rest) = some (e.map (·.value), rest) := by
  cases e with
  | none => simpa [NumberSpelling.exponentChars] using exponent?_absent hr
  | some e => simpa [NumberSpelling.exponentChars] using exponent?_present e hr.endsDigits

/-- What follows the digits in a number begins with a mark. -/
theorem head?_exponentChars (e : Option ExponentSpelling) {rest : List Char} (hr : EndsNumber rest) (c : Char)
    (h : (NumberSpelling.exponentChars e ++ rest).head? = some c) : c.isDigit = false ∧ c ≠ '.' := by
  cases e with
  | none => exact ⟨(hr c h).1, (hr c h).2.1⟩
  | some e =>
    obtain ⟨capital, sign, d⟩ := e
    cases capital <;> simp [NumberSpelling.exponentChars, ExponentSpelling.chars] at h <;> subst h <;> decide

theorem endsDigits_fraction (f : Option Digits) {rest : List Char} (hr : EndsDigits rest) :
    EndsDigits (NumberSpelling.fractionChars f ++ rest) := by
  cases f with
  | none => exact hr
  | some d =>
    intro c h
    simp only [NumberSpelling.fractionChars, List.cons_append, List.head?_cons, Option.some.injEq] at h
    subst h
    decide

theorem unsigned?_spelling (n : NumberSpelling) {rest : List Char} (hr : EndsNumber rest) :
    unsigned? n.negative (n.unsigned ++ rest) = some (n.text, rest) := by
  have hx := head?_exponentChars n.exponent hr
  have hw := whole?_spelling n.whole (endsDigits_fraction n.fraction fun c hc => (hx c hc).1)
  have hf := fraction?_spelling n.fraction (fun c hc => (hx c hc).1) fun hc => (hx _ hc).2 rfl
  have he := exponent?_spelling n.exponent hr
  simp only [NumberSpelling.unsigned, unsigned?, List.append_assoc, hw, hf, he, Option.bind_eq_bind,
    Option.bind_some, NumberSpelling.text]

theorem numberText?_spelling (n : NumberSpelling) {rest : List Char} (hr : EndsNumber rest) :
    numberText? (n.chars ++ rest) = some (n.text, rest) := by
  have h := unsigned?_spelling n hr
  unfold NumberSpelling.chars
  cases hn : n.negative with
  | true => simpa [numberText?, hn] using h
  | false =>
    obtain ⟨c, cs, hc, hdigit⟩ := n.whole.toDigits.exists_cons
    rw [hn] at h
    rw [if_neg Bool.false_ne_true, numberText?, h]
    rintro ds e
    simp only [NumberSpelling.unsigned, hc, List.cons_append, List.cons.injEq] at e
    rw [e.1] at hdigit
    exact absurd hdigit (by decide)

end LiveSettings.Json
