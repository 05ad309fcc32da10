import LiveSettings.Json.Text
import LiveSettings.Proofs.Binary.Shortest
import LiveSettings.Proofs.Json.Spelling

/-!
# Reading what was written

Both renderers write JSON texts: of every document, also of one with numbers of single precision, which are
doubles when they are read again, and of one with parts that stand for nothing, which are written as null.
`reread` is the document that reading gives back.

Results:
* `exists_numberSpelling`: a number is written as a JSON number, or as null.
* `reread_integer`: an integer of at most 64 bits is read as itself.
* `exists_quote`: the escaped characters between quotes stand for the text.
* `exists_spelling`: a document is written as JSON in either layout.
* `ofText?_render`, `ofText?_renderPretty`: reading either text of a document gives `reread`.
-/

namespace LiveSettings.Json

open LiveSettings.Binary (trimZeros layOut)

/-! ## Digits -/

theorem isDigit_toDigits (n : Nat) (c : Char) (h : c ∈ Nat.toDigits 10 n) : c.isDigit = true :=
  Nat.isDigit_of_mem_toDigits (by decide) (by decide) h

/-- The digits of a number. -/
def Digits.ofNat (n : Nat) : Digits := ⟨Nat.toDigits 10 n, isDigit_toDigits n, Nat.toDigits_ne_nil⟩

theorem digitsValue_toDigits (n : Nat) : Binary.digitsValue (Nat.toDigits 10 n) = n := by
  have h := @Nat.ofDigitChars_ten_toDigits n
  simp only [Nat.ofDigitChars_eq_foldl, Nat.mul_comm 10] at h
  exact h

theorem head?_toDigits {n : Nat} (h : 0 < n) : (Nat.toDigits 10 n).head? ≠ some '0' := by
  induction n using Nat.strongRecOn with
  | ind n ih =>
    rw [Nat.toDigits_eq_if (by decide)]
    split
    · rename_i lt
      have : ∀ d < 10, 0 < d → Nat.digitChar d ≠ '0' := by decide
      simpa using this n lt h
    · have high := ih (n / 10) (Nat.div_lt_self h (by decide)) (by omega)
      cases e : Nat.toDigits 10 (n / 10) with
      | nil => exact absurd e Nat.toDigits_ne_nil
      | cons d ds => simpa [e] using high

/-- The digits of a number, as they stand before a point. -/
def WholeDigits.ofNat (n : Nat) : WholeDigits :=
  ⟨Digits.ofNat n, fun zero => by
    by_cases h : n = 0
    · subst h
      exact Nat.toDigits_zero 10
    · exact absurd zero (head?_toDigits (Nat.pos_of_ne_zero h))⟩

/-- Zeros at the end go, the first digit stays. -/
theorem exists_trimZeros {c : Char} (h : c ≠ '0') (cs : List Char) :
    ∃ ds, trimZeros (c :: cs) = c :: ds ∧ ∀ d ∈ ds, d ∈ cs := by
  unfold trimZeros
  rw [List.reverse_cons, List.dropWhile_append]
  split
  · exact ⟨[], by simp [h], by simp⟩
  · refine ⟨(cs.reverse.dropWhile (· == '0')).reverse, by simp, fun d hd => ?_⟩
    exact List.mem_reverse.1 ((List.dropWhile_sublist _).mem (List.mem_reverse.1 hd))

/-! ## Numbers -/

/-- A number below one: a zero, the point, and zeros before the digits. -/
theorem exists_below_one {cs : List Char} (hd : ∀ d ∈ cs, d.isDigit = true) (hc : cs ≠ []) (k : Nat) :
    ∃ n : NumberSpelling, n.unsigned = "0.".toList ++ List.replicate k '0' ++ cs := by
  refine ⟨⟨false, .zero, some ⟨List.replicate k '0' ++ cs, fun d mem => ?_, by simp [hc]⟩, none⟩, by
    simp [NumberSpelling.unsigned]⟩
  rcases List.mem_append.1 mem with mem | mem
  · rw [(List.mem_replicate.1 mem).2]
    rfl
  · exact hd d mem

section
variable {c : Char} {cs : List Char} (h0 : c ≠ '0') (hd : ∀ d ∈ c :: cs, d.isDigit = true)
include h0 hd

/-- Digits whose first is no zero may stand before a point. -/
theorem exists_whole {ds : List Char} (h : ∀ d ∈ ds, d.isDigit = true) : ∃ w : WholeDigits, w.chars = c :: ds := by
  have all : ∀ d ∈ c :: ds, d.isDigit = true := by
    intro d mem
    rcases List.mem_cons.1 mem with rfl | mem
    · exact hd d List.mem_cons_self
    · exact h d mem
  exact ⟨⟨⟨c :: ds, all, by simp⟩, fun zero => absurd (Option.some.inj zero) h0⟩, rfl⟩

/-- A whole number: the digits, zeros up to the point, and a zero behind it. -/
theorem exists_whole_number (k : Nat) :
    ∃ n : NumberSpelling, n.unsigned = c :: cs ++ List.replicate k '0' ++ ".0".toList := by
  have all : ∀ d ∈ cs ++ List.replicate k '0', d.isDigit = true := by
    intro d mem
    rcases List.mem_append.1 mem with mem | mem
    · exact hd d (List.mem_cons_of_mem _ mem)
    · rw [(List.mem_replicate.1 mem).2]
      rfl
  obtain ⟨w, hw⟩ := exists_whole h0 hd all
  exact ⟨⟨false, w, some WholeDigits.zero.toDigits, none⟩, by simp [NumberSpelling.unsigned, hw]⟩

/-- The point stands between two digits. -/
theorem exists_fraction {k : Nat} (short : k < cs.length) :
    ∃ n : NumberSpelling, n.unsigned = (c :: cs).take (k + 1) ++ '.' :: (c :: cs).drop (k + 1) := by
  have before : ∀ d ∈ cs.take k, d.isDigit = true := fun d mem =>
    hd d (List.mem_cons_of_mem _ (List.mem_of_mem_take mem))
  obtain ⟨w, hw⟩ := exists_whole h0 hd before
  refine ⟨⟨false, w, some ⟨cs.drop k, fun d mem => ?_, ?_⟩, none⟩, by simp [NumberSpelling.unsigned, hw]⟩
  · exact hd d (List.mem_cons_of_mem _ (List.mem_of_mem_drop mem))
  · simpa using short

/-- One digit before the point, the others behind it, and an exponent. -/
theorem exists_scientific (e : ExponentSpelling) :
    ∃ n : NumberSpelling, n.unsigned =
      (match c :: cs with
        | [] => []
        | [d] => [d]
        | d :: ds => d :: '.' :: ds) ++ e.chars := by
  obtain ⟨w, hw⟩ := exists_whole h0 hd fun d mem => absurd mem List.not_mem_nil
  cases cs with
  | nil => exact ⟨⟨false, w, none, some e⟩, by simp [NumberSpelling.unsigned, hw]⟩
  | cons d ds =>
    have behind : ∀ b ∈ d :: ds, b.isDigit = true := fun b mem => hd b (List.mem_cons_of_mem _ mem)
    exact ⟨⟨false, w, some ⟨d :: ds, behind, by simp⟩, some e⟩, by simp [NumberSpelling.unsigned, hw]⟩

/-- Digits whose first is no zero are laid out as a number. -/
theorem exists_layOut (l : DecimalLayout) (hl : l.wholeSuffix = ".0") (leading : Int) :
    ∃ n : NumberSpelling, n.unsigned = layOut l (c :: cs) leading := by
  unfold layOut
  simp only [hl]
  split
  · split
    · exact exists_below_one hd (by simp) _
    · split
      · exact exists_whole_number h0 hd _
      · rename_i long
        exact exists_fraction h0 hd (by simp only [List.length_cons] at long; omega)
  · obtain ⟨e, he⟩ : ∃ e : ExponentSpelling,
        e.chars = (if leading < 0 then ['e', '-'] else ['e', '+']) ++ Nat.toDigits 10 leading.natAbs := by
      split
      · exact ⟨⟨false, .minus, .ofNat leading.natAbs⟩, rfl⟩
      · exact ⟨⟨false, .plus, .ofNat leading.natAbs⟩, rfl⟩
    rw [List.append_assoc, ← he]
    exact exists_scientific h0 hd e

end

/-- The shortest digits of a positive magnitude are laid out as a JSON number. -/
theorem exists_magnitude {f : BinaryFormat} (hf : 0 < f.precision) (l : DecimalLayout)
    (hl : l.wholeSuffix = ".0") {rank : Nat} (h : 0 < rank) (leading : Int) :
    ∃ n : NumberSpelling, n.unsigned =
      layOut l (trimZeros (Nat.toDigits 10 (Binary.shortest f rank).1)) leading := by
  have head := head?_toDigits (Binary.shortest_pos f h hf)
  have digit := isDigit_toDigits (Binary.shortest f rank).1
  cases hds : Nat.toDigits 10 (Binary.shortest f rank).1 with
  | nil => exact absurd hds Nat.toDigits_ne_nil
  | cons c cs =>
    rw [hds] at head digit
    have h0 : c ≠ '0' := fun e => head (by rw [e]; rfl)
    obtain ⟨ds, trim, mem⟩ := exists_trimZeros h0 cs
    rw [trim]
    refine exists_layOut h0 (fun d hd => digit d ?_) l hl _
    rcases List.mem_cons.1 hd with rfl | hd
    · exact List.mem_cons_self
    · exact List.mem_cons_of_mem _ (mem d hd)

/-- A finite number is written as a JSON number. -/
theorem exists_floatSpelling {f : BinaryFormat} (hf : 0 < f.precision) (l : DecimalLayout)
    (hl : l.wholeSuffix = ".0") {x : Binary f} (hx : x.isFinite = true) :
    ∃ n : NumberSpelling, n.chars = (x.text l).toList := by
  cases x with
  | nan => cases hx
  | infinite s => cases hx
  | finite s r =>
    by_cases zero : r.val = 0
    · refine ⟨⟨s, .zero, some WholeDigits.zero.toDigits, none⟩, ?_⟩
      simp [Binary.text, zero, hl, NumberSpelling.chars, NumberSpelling.unsigned]
    · obtain ⟨n, eq⟩ := exists_magnitude hf l hl (Nat.pos_of_ne_zero zero)
        ((Binary.shortest f r).2 + (Nat.toDigits 10 (Binary.shortest f r).1).length - 1)
      refine ⟨{ n with negative := s }, ?_⟩
      simp only [Binary.text, String.toList_ofList, beq_iff_eq, zero, if_false, ← eq]
      rfl

/-- What reading the text of a number gives. -/
def Number.reread (x : Number) : Json := ((numberText? x.render).map fun r => ofNumberText r.1).getD .null

/-- The digits of an integer, behind its sign. -/
def NumberSpelling.ofInt (n : Int) : NumberSpelling := ⟨n < 0, .ofNat n.natAbs, none, none⟩

theorem NumberSpelling.chars_ofInt (n : Int) : (ofInt n).chars = (Number.integer n).render := by
  simp [ofInt, chars, unsigned, fractionChars, exponentChars, Number.render, WholeDigits.ofNat, Digits.ofNat]

/-- A number is written as a JSON number, or as null if it is none or infinite. -/
theorem exists_numberSpelling (x : Number) :
    (∃ n : NumberSpelling, n.chars = x.render) ∨ x.render = "null".toList := by
  cases x with
  | integer n => exact .inl ⟨.ofInt n, NumberSpelling.chars_ofInt n⟩
  | double x | single x =>
    cases h : x.isFinite with
    | true =>
      simp only [Number.render, h, if_true]
      exact .inl (exists_floatSpelling (by decide) _ rfl h)
    | false => exact .inr (by simp [Number.render, h])

theorem exists_rereadNumber (x : Number) : ∃ s : Spelling, s.chars = x.render ∧ s.document = x.reread := by
  rcases exists_numberSpelling x with ⟨n, hn⟩ | null
  · have read := numberText?_spelling n endsNumber_nil
    rw [List.append_nil, hn] at read
    exact ⟨.number n, hn, by simp [Number.reread, read, Spelling.document]⟩
  · exact ⟨.null, null.symm, by rw [Number.reread, null]; rfl⟩

/-- An integer of at most 64 bits is read as itself. -/
theorem reread_integer {n : Int} (low : Int64.minValue.toInt ≤ n) (high : n < UInt64.size) :
    (Number.integer n).reread = .number (.integer n) := by
  have read := numberText?_spelling (NumberSpelling.ofInt n) endsNumber_nil
  rw [List.append_nil, NumberSpelling.chars_ofInt] at read
  simp only [Number.reread, read, Option.map_some, Option.getD_some, ofNumberText, NumberText.value?,
    NumberSpelling.ofInt, NumberSpelling.text, WholeDigits.ofNat, Digits.ofNat, digitsValue_toDigits]
  by_cases neg : n < 0
  · have h1 : 0 < n.natAbs := by omega
    have h2 : -(n.natAbs : Int) = n := by omega
    simp only [neg, decide_true, h1, h2, low]
    rfl
  · have h1 : n.natAbs < UInt64.size := by omega
    have h2 : (n.natAbs : Int) = n := by omega
    simp only [neg, decide_false, h1, h2]
    rfl

theorem reread_natural {n : Nat} (h : n < UInt64.size) : (Number.integer n).reread = .number (.integer n) :=
  reread_integer (Int.le_trans (by decide) (Int.natCast_nonneg n)) (Int.ofNat_lt.2 h)

/-! ## Texts -/

theorem hexDigit?_digitChar : ∀ d < 16, hexDigit? (Nat.digitChar d) = some d := by decide

/-- A character is written as itself, behind a backslash, or by its code if it is a control character. -/
theorem exists_escapeChar (c : Char) : ∃ u : UnitSpelling, u.chars = escapeChar c ∧
    (u.unit = .char c ∨ u.unit = .code c.toNat ∧ c.toNat < 32) := by
  unfold escapeChar
  by_cases quote : c = '"'
  · subst quote
    exact ⟨.escape '"' '"' rfl, rfl, .inl rfl⟩
  by_cases slash : c = '\\'
  · subst slash
    exact ⟨.escape '\\' '\\' rfl, rfl, .inl rfl⟩
  by_cases line : c = '\n'
  · subst line
    exact ⟨.escape 'n' '\n' rfl, rfl, .inl rfl⟩
  by_cases ret : c = '\r'
  · subst ret
    exact ⟨.escape 'r' '\r' rfl, rfl, .inl rfl⟩
  by_cases tab : c = '\t'
  · subst tab
    exact ⟨.escape 't' '\t' rfl, rfl, .inl rfl⟩
  simp only [beq_iff_eq, quote, slash, line, ret, tab, if_false]
  by_cases back : c.toNat = 8
  · obtain rfl : c = Char.ofNat 8 := by rw [← back, Char.ofNat_toNat]
    exact ⟨.escape 'b' _ rfl, rfl, .inl rfl⟩
  by_cases feed : c.toNat = 12
  · obtain rfl : c = Char.ofNat 12 := by rw [← feed, Char.ofNat_toNat]
    exact ⟨.escape 'f' _ rfl, rfl, .inl rfl⟩
  by_cases low : c.toNat < 32
  · refine ⟨.code ⟨'0', 0, rfl⟩ ⟨'0', 0, rfl⟩
      ⟨Nat.digitChar (c.toNat / 16), c.toNat / 16, hexDigit?_digitChar _ (by omega)⟩
      ⟨Nat.digitChar (c.toNat % 16), c.toNat % 16, hexDigit?_digitChar _ (by omega)⟩,
      by simp [back, feed, low, UnitSpelling.chars], .inr ⟨?_, low⟩⟩
    simp only [UnitSpelling.unit, TextUnit.code.injEq]
    omega
  · exact ⟨.plain c ⟨quote, slash, by omega⟩, by simp [back, feed, low, UnitSpelling.chars], .inl rfl⟩

theorem unitsChars?_code {n : Nat} (h : n < 0xD800) (us : List TextUnit) :
    unitsChars? (.code n :: us) = (unitsChars? us).map (Char.ofNat n :: ·) := by
  have h1 : ¬0xD800 ≤ n := by omega
  have h2 : ¬0xDC00 ≤ n := by omega
  cases us with
  | nil => simp [unitsChars?, h1]
  | cons u us => cases u <;> simp [unitsChars?, h1, h2]

theorem exists_units (cs : List Char) : ∃ us : List UnitSpelling,
    us.flatMap (·.chars) = cs.flatMap escapeChar ∧ unitsChars? (us.map (·.unit)) = some cs := by
  induction cs with
  | nil => exact ⟨[], rfl, rfl⟩
  | cons c cs ih =>
    obtain ⟨us, hchars, hunits⟩ := ih
    obtain ⟨u, hu, plain | ⟨code, low⟩⟩ := exists_escapeChar c
    · exact ⟨u :: us, by simp [hu, hchars], by simp [plain, unitsChars?, hunits]⟩
    · refine ⟨u :: us, by simp [hu, hchars], ?_⟩
      rw [List.map_cons, code, unitsChars?_code (by omega), hunits, Char.ofNat_toNat]
      rfl

/-- The escaped characters between quotes stand for the text. -/
theorem exists_quote (s : String) : ∃ us : List UnitSpelling,
    '"' :: quotedTail us = quote s ∧ unitsChars? (us.map (·.unit)) = some s.toList := by
  obtain ⟨us, hchars, hunits⟩ := exists_units s.toList
  exact ⟨us, by simp [quotedTail, quote, hchars], hunits⟩

theorem exists_text (s : String) : ∃ t : Spelling, t.chars = quote s ∧ t.document = .text s := by
  obtain ⟨us, hchars, hunits⟩ := exists_quote s
  exact ⟨.text us, hchars, by simp [Spelling.document, ofUnits, hunits]⟩

/-! ## Documents -/

mutual

/-- What reading the text of a document gives. -/
def reread : Json → Json
  | .number x => x.reread
  | .array items => .array (rereadItems items)
  | .object members => .object (rereadMembers members)
  | .unreadable => .null
  | j => j

def rereadItems : List Json → List Json
  | [] => []
  | j :: js => reread j :: rereadItems js

def rereadMembers : List (String × Json) → List (String × Json)
  | [] => []
  | (k, j) :: ms => (k, reread j) :: rereadMembers ms

end

theorem mapM_named (ms : List (String × Json)) : (ms.map fun m => (some m.1.toList, m.2)).mapM
    (fun ((k, j) : Option (List Char) × Json) => k.map fun k => (String.ofList k, j)) = some ms := by
  induction ms with
  | nil => rfl
  | cons m ms ih => simp [List.mapM_cons, ih]

/-- Members whose names stand for characters. -/
theorem ofMembers_named (ms : List (String × Json)) :
    ofMembers (ms.map fun m => (some m.1.toList, m.2)) = .object ms := by
  rw [ofMembers, mapM_named]
  rfl

/-- The name of a member, behind blanks. -/
theorem exists_name (before : Blanks) (k : String) : ∃ n : NameSpelling,
    n.chars = before.chars ++ (quote k ++ [':']) ∧ n.name? = some k.toList := by
  obtain ⟨us, hchars, hunits⟩ := exists_quote k
  refine ⟨⟨before, us, .none⟩, ?_, hunits⟩
  simp [NameSpelling.chars, Blanks.none, ← hchars]

/-! ## Both layouts -/

def Blanks.newLine (level : Nat) : Blanks :=
  ⟨Json.newLine level, fun c h => by
    rcases List.mem_cons.1 h with rfl | h
    · rfl
    · rw [(List.mem_replicate.1 h).2]
      rfl⟩

def Blanks.space : Blanks := ⟨[' '], by simp [isBlank]⟩

/-- How a document is laid out: compact, or with lines from a level on. -/
abbrev Layout := Option Nat

namespace Layout

def inner (l : Layout) : Layout := l.map (· + 1)

/-- The blanks in front of an item or a member. -/
def front : Layout → Blanks
  | none => .none
  | some level => .newLine (level + 1)

/-- The blanks behind the last item or member. -/
def back : Layout → Blanks
  | none => .none
  | some level => .newLine level

/-- The blanks behind the colon of a member. -/
def behindColon : Layout → Blanks
  | none => .none
  | some _ => .space

def chars : Layout → Json → List Char
  | none, j => j.chars
  | some level, j => j.prettyChars level

def itemsChars : Layout → List Json → List Char
  | none, js => Json.itemsChars js
  | some level, js => prettyItems level js

def membersChars : Layout → List (String × Json) → List Char
  | none, ms => Json.membersChars ms
  | some level, ms => prettyMembers level ms

theorem itemsChars_single (l : Layout) (j : Json) :
    l.itemsChars [j] = l.front.chars ++ (l.inner.chars j ++ (l.back.chars ++ [']'])) := by
  cases l <;>
    simp [itemsChars, Json.itemsChars, moreItemsChars, prettyItems, prettyMoreItems, front, back, inner, chars,
      Blanks.none, Blanks.newLine]

theorem itemsChars_cons (l : Layout) (j k : Json) (ks : List Json) :
    l.itemsChars (j :: k :: ks) = l.front.chars ++ (l.inner.chars j ++ ',' :: l.itemsChars (k :: ks)) := by
  cases l <;>
    simp [itemsChars, Json.itemsChars, moreItemsChars, prettyItems, prettyMoreItems, front, inner, chars,
      Blanks.none, Blanks.newLine]

theorem membersChars_single (l : Layout) (k : String) (j : Json) :
    l.membersChars [(k, j)] = l.front.chars ++
      (quote k ++ ':' :: (l.behindColon.chars ++ (l.inner.chars j ++ (l.back.chars ++ ['\x7d'])))) := by
  cases l <;>
    simp [membersChars, Json.membersChars, moreMembersChars, prettyMembers, prettyMoreMembers, front, back,
      behindColon, inner, chars, Blanks.none, Blanks.newLine, Blanks.space]

theorem membersChars_cons (l : Layout) (k : String) (j : Json) (m : String × Json) (ms : List (String × Json)) :
    l.membersChars ((k, j) :: m :: ms) = l.front.chars ++
      (quote k ++ ':' :: (l.behindColon.chars ++ (l.inner.chars j ++ ',' :: l.membersChars (m :: ms)))) := by
  cases l <;>
    simp [membersChars, Json.membersChars, moreMembersChars, prettyMembers, prettyMoreMembers, front,
      behindColon, inner, chars, Blanks.none, Blanks.newLine, Blanks.space]

end Layout

mutual

/-- In either layout a document is written as JSON. -/
theorem exists_spelling (l : Layout) : (j : Json) → ∃ s : Spelling, s.chars = l.chars j ∧ s.document = j.reread
  | .null => ⟨.null, by cases l <;> rfl, rfl⟩
  | .bool b => ⟨.bool b, by cases l <;> cases b <;> rfl, rfl⟩
  | .number x => by
    obtain ⟨s, hchars, hdoc⟩ := exists_rereadNumber x
    exact ⟨s, by cases l <;> exact hchars, hdoc⟩
  | .text t => by
    obtain ⟨s, hchars, hdoc⟩ := exists_text t
    exact ⟨s, by cases l <;> exact hchars, hdoc⟩
  | .unreadable => ⟨.null, by cases l <;> rfl, rfl⟩
  | .array [] => ⟨.emptyArray .none, by cases l <;> rfl, rfl⟩
  | .object [] => ⟨.emptyObject .none, by cases l <;> rfl, rfl⟩
  | .array (j :: js) => by
    obtain ⟨is, hchars, hdoc⟩ := exists_itemSpellings l (j :: js) (by simp)
    refine ⟨.array is, ?_, by simp [Spelling.document, reread, hdoc]⟩
    rw [Spelling.chars, hchars]
    cases l <;> rfl
  | .object (m :: ms) => by
    obtain ⟨is, hchars, hdoc⟩ := exists_memberSpellings l (m :: ms) (by simp)
    refine ⟨.object is, ?_, by simp [Spelling.document, reread, hdoc, ofMembers_named]⟩
    rw [Spelling.chars, hchars]
    cases l <;> rfl

theorem exists_itemSpellings (l : Layout) : (js : List Json) → js ≠ [] → ∃ is : ItemSpellings,
    is.chars ++ [']'] = l.itemsChars js ∧ is.documents = rereadItems js
  | [], h => absurd rfl h
  | [j], _ => by
    obtain ⟨s, hchars, hdoc⟩ := exists_spelling l.inner j
    exact ⟨.last l.front s l.back, by simp [ItemSpellings.chars, hchars, Layout.itemsChars_single],
      by simp [ItemSpellings.documents, hdoc, rereadItems]⟩
  | j :: k :: ks, _ => by
    obtain ⟨s, hchars, hdoc⟩ := exists_spelling l.inner j
    obtain ⟨is, hmore, hdocs⟩ := exists_itemSpellings l (k :: ks) (by simp)
    refine ⟨.more l.front s .none is, ?_, by simp [ItemSpellings.documents, hdoc, hdocs, rereadItems]⟩
    simp [ItemSpellings.chars, Blanks.none, hchars, hmore, Layout.itemsChars_cons]

theorem exists_memberSpellings (l : Layout) : (ms : List (String × Json)) → ms ≠ [] → ∃ is : MemberSpellings,
    is.chars ++ ['\x7d'] = l.membersChars ms ∧
      is.documents = (rereadMembers ms).map fun m => (some m.1.toList, m.2)
  | [], h => absurd rfl h
  | [(k, j)], _ => by
    obtain ⟨n, hname, hunits⟩ := exists_name l.front k
    obtain ⟨s, hchars, hdoc⟩ := exists_spelling l.inner j
    exact ⟨.last n l.behindColon s l.back,
      by simp [MemberSpellings.chars, hname, hchars, Layout.membersChars_single],
      by simp [MemberSpellings.documents, hunits, hdoc, rereadMembers]⟩
  | (k, j) :: m :: ms, _ => by
    obtain ⟨n, hname, hunits⟩ := exists_name l.front k
    obtain ⟨s, hchars, hdoc⟩ := exists_spelling l.inner j
    obtain ⟨is, hmore, hdocs⟩ := exists_memberSpellings l (m :: ms) (by simp)
    refine ⟨.more n l.behindColon s .none is, ?_,
      by simp [MemberSpellings.documents, hunits, hdoc, hdocs, rereadMembers]⟩
    simp [MemberSpellings.chars, Blanks.none, hname, hchars, hmore, Layout.membersChars_cons]

end

theorem ofText?_layout (l : Layout) (j : Json) : ofText? (String.ofList (l.chars j)) = some j.reread := by
  obtain ⟨s, hchars, hdoc⟩ := exists_spelling l j
  rw [← hchars, ← hdoc]
  exact ofText?_spelling s

/-- Reading the compact text of a document. -/
theorem ofText?_render (j : Json) : ofText? j.render = some j.reread := ofText?_layout none j

/-- Reading the text of a document with a line for each item and member. -/
theorem ofText?_renderPretty (j : Json) : ofText? j.renderPretty = some j.reread := ofText?_layout (some 0) j

end LiveSettings.Json
