import Mathlib.Tactic.IntervalCases
import LiveSettings.Text.Escape
import LiveSettings.Token.Literal

/-!
# String literals read back

Every text has a string literal, and the literal stands for that text again, whatever characters the text
holds: what has a letter of its own is read from it, what has no visible form from its code point.

Results:
* `text?_literal`: a string literal in front of other characters is read to its closing quote.
* `stringValue?_literal`: the text that a string literal stands for.
-/

namespace LiveSettings.Literal

open Text

/-! ## Code points -/

theorem hexValue?_digitChar {d : Nat} (h : d < 16) : hexValue? d.digitChar = some d := by
  interval_cases d <;> decide

theorem codePointDigits_digitChar {d count : Nat} (value : Nat) (h : d < 16) (room : count < 6)
    (cs : List Char) :
    codePointDigits value count (d.digitChar :: cs) = codePointDigits (value * 16 + d) (count + 1) cs := by
  have closing : d.digitChar ≠ '\x7d' := by interval_cases d <;> decide
  have gap : d.digitChar ≠ '_' := by interval_cases d <;> decide
  rw [codePointDigits, if_neg fun both => closing both.1, if_neg fun both => gap both.1, hexValue?_digitChar h]
  exact if_pos room

theorem codePointDigits_toDigits (value count n : Nat) (room : count + (Nat.toDigits 16 n).length ≤ 6)
    (cs : List Char) :
    codePointDigits value count (Nat.toDigits 16 n ++ cs) =
      codePointDigits (value * 16 ^ (Nat.toDigits 16 n).length + n) (count + (Nat.toDigits 16 n).length) cs := by
  induction n using Nat.strongRecOn generalizing cs with
  | ind n ih =>
    rw [Nat.toDigits_eq_if (by decide)] at room ⊢
    split at room
    · rename_i small
      rw [if_pos small]
      exact codePointDigits_digitChar value small (Nat.lt_of_succ_le (by simpa using room)) cs
    · rename_i large
      rw [List.length_append, List.length_singleton] at room
      rw [if_neg large, List.append_assoc, ih (n / 16) (by omega) (by omega), List.singleton_append,
        codePointDigits_digitChar _ (by omega) (by omega), List.length_append, List.length_singleton]
      congr 1
      rw [Nat.pow_succ, Nat.add_mul, Nat.mul_assoc, Nat.add_assoc]
      congr 1
      omega

theorem escape?_codePoint {r : Rules} {c : Char} (allowed : r.codePoint c = true) (cs : List Char) :
    escape? r (['u', '\x7b'] ++ Nat.toDigits 16 c.toNat ++ ['\x7d'] ++ cs) = some (c, cs) := by
  have valid : c.toNat.isValidChar := c.valid
  have short : (Nat.toDigits 16 c.toNat).length ≤ 6 :=
    (Nat.length_toDigits_le_iff (by decide) (by decide)).2 (by rcases valid with low | high <;> omega)
  have some_digit : 0 < (Nat.toDigits 16 c.toNat).length := Nat.length_toDigits_pos
  have read : codePointDigits 0 0 (Nat.toDigits 16 c.toNat ++ ('\x7d' :: cs)) = some (c, cs) := by
    rw [codePointDigits_toDigits 0 0 c.toNat (by omega), codePointDigits, if_pos ⟨rfl, by omega⟩, Nat.zero_mul,
      Nat.zero_add, charOf?, if_pos valid, Char.ofNat_toNat]
    rfl
  simp only [List.append_assoc, List.cons_append, List.nil_append, escape?, read, Option.bind_eq_bind,
    Option.bind_some, allowed, if_true]

/-! ## Texts -/

theorem quotedLoop_codePoint (fuel : Nat) (c : Char) (cs : List Char) :
    quotedLoop textRules (fuel + 1) (Escape.codePoint c ++ cs) =
      (quotedLoop textRules fuel cs).map fun p => (c :: p.1, p.2) := by
  have read := escape?_codePoint (r := textRules) (c := c) rfl cs
  simp only [List.append_assoc, List.cons_append, List.nil_append] at read
  simp only [Escape.codePoint, List.append_assoc, List.cons_append, List.nil_append]
  show (escape? textRules ('u' :: '\x7b' :: (Nat.toDigits 16 c.toNat ++ '\x7d' :: cs))).bind _ = _
  rw [read]
  rfl

/-- A character as it is written between quotes is read as that character. -/
theorem quotedLoop_char (fuel : Nat) (c : Char) (cs : List Char) :
    quotedLoop textRules (fuel + 1) (Escape.char '"' c ++ cs) =
      (quotedLoop textRules fuel cs).map fun p => (c :: p.1, p.2) := by
  unfold Escape.char
  split
  · rfl
  · rfl
  · rfl
  · rfl
  · rfl
  · rename_i nul tab back line slash
    split
    · rename_i quote
      subst quote
      rfl
    · rename_i quote
      split
      · exact quotedLoop_codePoint fuel c cs
      · split
        · show quotedLoop textRules (fuel + 1) (c :: cs) = _
          rw [quotedLoop]
          · rfl
          all_goals simp_all
        · exact quotedLoop_codePoint fuel c cs

theorem quotedLoop_literalChars {fuel : Nat} {cs : List Char} (enough : cs.length < fuel) (rest : List Char) :
    quotedLoop textRules fuel (Escape.literalChars cs ++ '"' :: rest) = some (cs, rest) := by
  induction cs generalizing fuel with
  | nil =>
    obtain ⟨fuel, rfl⟩ := Nat.exists_eq_succ_of_ne_zero (Nat.ne_of_gt enough)
    rfl
  | cons c cs ih =>
    obtain ⟨fuel, rfl⟩ := Nat.exists_eq_succ_of_ne_zero (Nat.ne_of_gt (Nat.zero_lt_of_lt enough))
    have read := ih (Nat.lt_of_succ_lt_succ enough)
    simp only [Escape.literalChars]
    split
    · rename_i nul
      obtain ⟨rfl, -⟩ : c = '\x00' ∧ _ := by simpa using nul
      show (quotedLoop textRules fuel (Escape.literalChars cs ++ '"' :: rest)).map _ = _
      rw [read]
      rfl
    · rw [List.append_assoc, quotedLoop_char, read]
      rfl

theorem length_le_literalChars (cs : List Char) : cs.length ≤ (Escape.literalChars cs).length := by
  have written (c : Char) : 0 < (Escape.char '"' c).length := by
    unfold Escape.char
    repeat' split
    all_goals simp [Escape.codePoint]
  induction cs with
  | nil => exact Nat.le_refl 0
  | cons c cs ih =>
    simp only [Escape.literalChars, List.length_append, List.length_cons]
    split
    · simp only [List.length_cons]
      omega
    · have := written c
      omega

/-- A string literal in front of other characters is read to its closing quote. -/
theorem text?_literal (s : String) (rest : List Char) :
    text? ((Escape.literal s).toList ++ rest) = some (s.toList, rest) := by
  have enough := length_le_literalChars s.toList
  simp only [Escape.literal, String.toList_ofList, List.cons_append, List.nil_append, List.append_assoc, text?,
    quoted?]
  refine quotedLoop_literalChars ?_ rest
  simp only [List.length_append, List.length_cons]
  omega

/-- The text that a string literal stands for. -/
theorem stringValue?_literal (s : String) : stringValue? (Escape.literal s) = some s := by
  have read := text?_literal s []
  rw [List.append_nil] at read
  rw [stringValue?, read, Option.map_some, String.ofList_toList]

end LiveSettings.Literal
