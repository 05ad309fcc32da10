import LiveSettings.Proofs.Token.Identifiers
import LiveSettings.Proofs.Token.TextLiteral

/-!
# Tokens read back

The lexer reads the text of a list of tokens as that list again, if every token can be written: an identifier
is spelled like one, a joint mark stands before the mark or the name that it is joined to, and no two marks
make the start of a comment. The fixed spacing keeps all other neighbours apart.

Results:
* `leaf?_ident`, `leaf?_literal`, `leaf?_mark`: a single token in front of what may follow it.
* `lexLoop_render`: the tokens of a text.
* `written_append`, `written_group`: what is put together from tokens that can be written.
-/

namespace LiveSettings.Token

open Text Literal

/-! ## Words -/

/-- The characters start neither a quoted nor a raw text. -/
def Unquoted (cs : List Char) : Prop := ∀ c ∈ cs.head?, c ≠ '"' ∧ c ≠ '\'' ∧ c ≠ '#'

theorem unquoted_word {w cs : List Char} (parts : ∀ c ∈ w, isIdentPart c = true) (ends : Ends cs) :
    Unquoted (w ++ cs) := by
  intro c first
  cases w with
  | nil =>
    have char := ends c first
    simp only [List.mem_cons, List.not_mem_nil, or_false] at char
    rcases char with rfl | rfl | rfl | rfl <;> decide
  | cons d w =>
    cases first
    have part := parts c List.mem_cons_self
    refine ⟨?_, ?_, ?_⟩ <;> rintro rfl <;> revert part <;> decide

theorem raw?_unquoted {cs : List Char} (h : Unquoted cs) (r : Rules) : raw? r cs = none := by
  cases cs with
  | nil => rfl
  | cons c cs =>
    obtain ⟨quote, -, sign⟩ := h c rfl
    simp [raw?, sign, quote]

theorem raw?_sign {cs : List Char} (h : Unquoted cs) (r : Rules) : raw? r ('#' :: cs) = none := by
  cases cs with
  | nil => rfl
  | cons c cs =>
    obtain ⟨quote, -, sign⟩ := h c rfl
    simp [raw?, sign, quote]

/-- What starts with no digit is no number. -/
theorem number?_none {c : Char} (digit : isAsciiDigit c = false) (cs : List Char) :
    floatRest? (c :: cs) = none ∧ intRest? (c :: cs) = none := by
  have zero : c ≠ '0' := by
    rintro rfl
    revert digit
    decide
  have digits : digitsRest? 10 true (c :: cs) = none := by
    rw [digitsRest?]
    split
    · rfl
    · split
      · rename_i d value
        have large : ¬d < 10 := by
          unfold hexValue? at value
          split at value
          · rename_i bounds
            rw [isAsciiDigit, decide_eq_true bounds.1, decide_eq_true bounds.2] at digit
            cases digit
          · split at value
            · cases value
              omega
            · split at value
              · cases value
                omega
              · cases value
        rw [if_neg large, if_neg (by rw [digit]; decide)]
        rfl
      · rfl
  constructor
  · simp [floatRest?, digit]
  · unfold intRest?
    split
    · rename_i same
      exact absurd (List.cons.inj same).1 zero
    · rename_i same
      exact absurd (List.cons.inj same).1 zero
    · rename_i same
      exact absurd (List.cons.inj same).1 zero
    · rw [digits]
      rfl

theorem exists_digit {c : Char} (h : isAsciiDigit c = true) : ∃ n, 48 ≤ n ∧ n ≤ 57 ∧ c = Char.ofNat n := by
  have bounds : 48 ≤ c.toNat ∧ c.toNat ≤ 57 := by
    simpa [isAsciiDigit, Char.le_def, UInt32.le_iff_toNat_le] using h
  exact ⟨c.toNat, bounds.1, bounds.2, (Char.ofNat_toNat c).symm⟩

theorem not_isAsciiDigit_of_isIdentStart {c : Char} (start : isIdentStart c = true) : isAsciiDigit c = false := by
  cases digit : isAsciiDigit c with
  | false => rfl
  | true =>
    obtain ⟨n, low, high, rfl⟩ := exists_digit digit
    revert start
    interval_cases n <;> decide

theorem singleRest?_none {c : Char} {cs : List Char} (quote : c ≠ '\'') (next : Unquoted cs) :
    singleRest? (c :: cs) = none := by
  unfold singleRest?
  split
  · rename_i same
    obtain ⟨-, rfl⟩ := List.cons.inj same
    exact absurd rfl (next '\'' rfl).2.1
  · rename_i same
    exact absurd (List.cons.inj same).1 quote
  · rfl

/-- Where a word starts and no quote or number sign follows soon, no literal starts. -/
theorem literalRest?_start {c : Char} {cs : List Char} (start : isIdentStart c = true)
    (text : quotedRest? (c :: cs) = none) (next : singleRest? (c :: cs) = none) :
    literalRest? (c :: cs) = none := by
  obtain ⟨float, int⟩ := number?_none (not_isAsciiDigit_of_isIdentStart start) cs
  simp [literalRest?, text, next, float, int]

theorem quotedRest?_word {c : Char} {w cs : List Char} (start : isIdentStart c = true)
    (parts : ∀ d ∈ w, isIdentPart d = true) (ends : Ends cs) : quotedRest? (c :: (w ++ cs)) = none := by
  have next := unquoted_word parts ends
  have quote : c ≠ '"' := by
    rintro rfl
    revert start
    decide
  -- the letters of a raw text may stand in a word, but no quote stands behind them
  have raw {r : Rules} {rest : List Char} (same : w ++ cs = 'r' :: rest) : raw? r rest = none := by
    cases w with
    | nil =>
      rw [List.nil_append] at same
      exact absurd (ends 'r' (same ▸ rfl)) (by decide)
    | cons d w =>
      obtain ⟨-, rfl⟩ := List.cons.inj same
      exact raw?_unquoted (unquoted_word (fun d mem => parts d (List.mem_cons_of_mem _ mem)) ends) r
  unfold quotedRest?
  split
  · rename_i same
    exact absurd rfl (next '"' ((List.cons.inj same).2 ▸ rfl)).1
  · rename_i same
    rw [raw (List.cons.inj same).2]
    rfl
  · rename_i same
    exact absurd rfl (next '"' ((List.cons.inj same).2 ▸ rfl)).1
  · rename_i same
    rw [raw (List.cons.inj same).2]
    rfl
  · unfold text?
    split
    · rename_i same
      exact absurd (List.cons.inj same).1 quote
    · rename_i same
      rw [← (List.cons.inj same).2, raw?_unquoted next]
      rfl
    · rfl

/-- No literal starts where an identifier stands. -/
theorem literalRest?_spelled {name : String} (h : Spelled name) {cs : List Char} (ends : Ends cs) :
    literalRest? (name.toList ++ cs) = none := by
  rcases spelled_cases h with word | ⟨w, rfl, word, -⟩
  · obtain ⟨c, w, same⟩ : ∃ c w, name.toList = c :: w := by
      cases same : name.toList with
      | nil => rw [same] at word; cases word
      | cons c w => exact ⟨c, w, rfl⟩
    rw [same] at word ⊢
    obtain ⟨start, parts⟩ := Bool.and_eq_true_iff.1 word
    have parts : ∀ d ∈ w, isIdentPart d = true := List.all_eq_true.1 parts
    have quote : c ≠ '\'' := by
      rintro rfl
      revert start
      decide
    exact literalRest?_start start (quotedRest?_word start parts ends)
      (singleRest?_none quote (unquoted_word parts ends))
  · rw [String.toList_ofList]
    have next := unquoted_word (fun d mem => isIdentPart_of_isWord word mem) ends
    refine literalRest?_start (by decide) ?_ rfl
    show (raw? textRules ('#' :: (w ++ cs))).map _ = none
    rw [raw?_sign next]
    rfl

/-! ## Single tokens -/

/-- What a token starts with that is no bracket. -/
structure StartsLeaf (c : Char) : Prop where
  gap : isGap c = false
  opening : openingOf? c = none
  closing : closingOf? c = none

instance (c : Char) : Decidable (StartsLeaf c) :=
  decidable_of_iff (isGap c = false ∧ openingOf? c = none ∧ closingOf? c = none)
    ⟨fun ⟨a, b, c⟩ => ⟨a, b, c⟩, fun ⟨a, b, c⟩ => ⟨a, b, c⟩⟩

/-- What a mark is not. -/
structure IsMark (c : Char) : Prop where
  start : isIdentStart c = false
  digit : isAsciiDigit c = false
  quote : c ≠ '"'
  leaf : StartsLeaf c

instance (c : Char) : Decidable (IsMark c) :=
  decidable_of_iff (isIdentStart c = false ∧ isAsciiDigit c = false ∧ c ≠ '"' ∧ StartsLeaf c)
    ⟨fun ⟨a, b, c, d⟩ => ⟨a, b, c, d⟩, fun ⟨a, b, c, d⟩ => ⟨a, b, c, d⟩⟩

theorem markChars_eq : markChars =
    ['~', '!', '@', '#', '$', '%', '^', '&', '*', '-', '=', '+', '|', ';', ':', ',', '<', '.', '>', '/', '?', '\''] :=
  rfl

theorem isMark_of_mem {c : Char} (h : markChars.contains c = true) : IsMark c := by
  have mem := List.contains_iff_mem.1 h
  simp only [markChars_eq, List.mem_cons, List.not_mem_nil, or_false] at mem
  -- one small decision for each mark: the whole list at once recurses too deep
  rcases mem with rfl | rfl | rfl | rfl | rfl | rfl | rfl | rfl | rfl | rfl | rfl | rfl | rfl | rfl | rfl | rfl | rfl |
    rfl | rfl | rfl | rfl | rfl <;> decide

/-- No mark starts where an identifier stands. -/
theorem mark?_start {c : Char} (start : isIdentStart c = true) (cs : List Char) : mark? (c :: cs) = none := by
  have quote : c ≠ '\'' := by
    rintro rfl
    exact absurd start (by decide)
  have mark : markChars.contains c = false := by
    cases mark : markChars.contains c with
    | false => rfl
    | true =>
      rw [(isMark_of_mem mark).start] at start
      cases start
  unfold mark?
  split
  · rename_i same
    exact absurd (List.cons.inj same).1 quote
  · rename_i same
    cases same
    rw [if_neg]
    unfold startsMark
    split <;> simp_all
  · rfl

theorem quotedStarts_eq : quotedStarts =
    [['r', '"'], ['r', '#', '"'], ['r', '#', '#'], ['b', '"'], ['b', '\''], ['b', 'r', '"'], ['b', 'r', '#'],
      ['c', '"'], ['c', 'r', '"'], ['c', 'r', '#']] := by
  decide

/-- A word is no start of a quoted literal. -/
theorem quotedStarts_word (c : Char) {cs : List Char} (next : Unquoted cs)
    (later : ∀ rest, cs = 'r' :: rest → Unquoted rest) : quotedStarts.any (·.isPrefixOf (c :: cs)) = false := by
  cases cs with
  | nil => simp [quotedStarts_eq, List.isPrefixOf]
  | cons d cs =>
    obtain ⟨quote, single, sign⟩ := next d rfl
    cases cs with
    | nil => simp [quotedStarts_eq, List.isPrefixOf, quote.symm, single.symm]
    | cons e cs =>
      by_cases raw : d = 'r'
      · subst raw
        obtain ⟨quote', -, sign'⟩ := later (e :: cs) rfl e rfl
        simp [quotedStarts_eq, List.isPrefixOf, quote'.symm, sign'.symm]
      · simp [quotedStarts_eq, List.isPrefixOf, quote.symm, single.symm, sign.symm, Ne.symm raw]

theorem quotedStarts_spelled {name : String} (h : Spelled name) {cs : List Char} (ends : Ends cs) :
    quotedStarts.any (·.isPrefixOf (name.toList ++ cs)) = false := by
  rcases spelled_cases h with word | ⟨w, rfl, word, -⟩
  · cases same : name.toList with
    | nil =>
      rw [same] at word
      cases word
    | cons c w =>
      rw [same] at word
      have parts : ∀ d ∈ w, isIdentPart d = true := List.all_eq_true.1 (Bool.and_eq_true_iff.1 word).2
      refine quotedStarts_word c (unquoted_word parts ends) fun rest raw => ?_
      cases w with
      | nil => exact absurd (ends 'r' ((show cs = 'r' :: rest from raw) ▸ rfl)) (by decide)
      | cons d w =>
        obtain ⟨-, rfl⟩ := List.cons.inj raw
        exact unquoted_word (fun d mem => parts d (List.mem_cons_of_mem _ mem)) ends
  · rw [String.toList_ofList]
    have next := unquoted_word (fun d mem => isIdentPart_of_isWord word mem) ends
    cases same : w ++ cs with
    | nil => simp [quotedStarts_eq, List.isPrefixOf, same]
    | cons c rest =>
      obtain ⟨quote, -, sign⟩ := next c (same ▸ rfl)
      simp [quotedStarts_eq, List.isPrefixOf, same, quote.symm, sign.symm]

theorem exists_start {name : String} (h : Spelled name) :
    ∃ c cs, name.toList = c :: cs ∧ isIdentStart c = true := by
  rcases spelled_cases h with word | ⟨w, rfl, -⟩
  · cases same : name.toList with
    | nil =>
      rw [same] at word
      cases word
    | cons c w =>
      rw [same] at word
      exact ⟨c, w, rfl, (Bool.and_eq_true_iff.1 word).1⟩
  · exact ⟨'r', '#' :: w, String.toList_ofList, by decide⟩

theorem leaf?_ident {name : String} (h : Spelled name) {cs : List Char} (ends : Ends cs) :
    leaf? (name.toList ++ cs) = some (.ident name, cs) := by
  have literal := literalRest?_spelled h ends
  have quoted := quotedStarts_spelled h ends
  have read := identifier?_of_spelled h ends
  obtain ⟨c, w, same, start⟩ := exists_start h
  rw [same] at literal quoted read ⊢
  have bracket : errorLiteral.toList.isPrefixOf (c :: w ++ cs) = false := by
    have other : '(' ≠ c := by
      rintro rfl
      exact absurd start (by decide)
    have text : errorLiteral.toList = '(' :: "/*ERROR*/)".toList := by decide
    simp [text, List.isPrefixOf, other]
  rw [leaf?, literal, List.cons_append, mark?_start start, ← List.cons_append]
  simp only [bracket, quoted, read, Bool.false_eq_true, if_false, Option.map_some]

/-- A literal that the lexer reads as itself wherever it ends. -/
structure IsLiteral (text : String) : Prop where
  read : ∀ cs, Ends cs → literalRest? (text.toList ++ cs) = some cs
  start : ∀ c ∈ text.toList.head?, c ∈ ['"', '\''] ∨ isIdentStart c = true ∨ isAsciiDigit c = true

theorem isLiteral_literal (s : String) : IsLiteral (Escape.literal s) where
  read cs ends := by
    have text := text?_literal s cs
    have quoted : quotedRest? ((Escape.literal s).toList ++ cs) = some cs := by
      rw [Escape.literal, String.toList_ofList] at text ⊢
      exact congrArg (Option.map Prod.snd) text
    rw [literalRest?, quoted, Option.map_some, ends.afterSuffix]
    rfl
  start c first := by
    rw [Escape.literal, String.toList_ofList] at first
    cases first
    exact .inl (by decide)

theorem hexValue?_digit {c : Char} (digit : isAsciiDigit c = true) : ∃ d < 10, hexValue? c = some d := by
  obtain ⟨n, low, high, rfl⟩ := exists_digit digit
  exact ⟨n - 48, by omega, by interval_cases n <;> rfl⟩

theorem ne_gap_of_digit {c : Char} (digit : isAsciiDigit c = true) : c ≠ '_' := by
  rintro rfl
  exact absurd digit (by decide)

/-- Decimal digits are read up to where a literal ends. -/
theorem digitsRest?_decimal {ds cs : List Char} (digits : ∀ d ∈ ds, isAsciiDigit d = true) (ends : Ends cs) :
    digitsRest? 10 false (ds ++ cs) = some cs := by
  induction ds with
  | nil => refine ends.elim ?_ ?_ ?_ ?_ ?_ <;> intros <;> rfl
  | cons d ds ih =>
    have here := digits d List.mem_cons_self
    obtain ⟨value, small, read⟩ := hexValue?_digit here
    rw [List.cons_append, digitsRest?, if_neg (ne_gap_of_digit here), read]
    exact (if_pos small).trans (ih fun e mem => digits e (List.mem_cons_of_mem _ mem))

theorem numberEnd?_of_ends {cs : List Char} (ends : Ends cs) : numberEnd? cs = some cs := by
  rw [numberEnd?, ends.afterSuffix, wordBreak?]
  refine if_neg fun part => ?_
  obtain ⟨c, first, part⟩ := (Option.any_eq_true _ _).1 part
  rw [ends.not_isIdentPart first] at part
  cases part

/-- Decimal digits alone have neither a point nor an exponent. -/
theorem floatRest?_decimal {ds cs : List Char} (digits : ∀ d ∈ ds, isAsciiDigit d = true) (ends : Ends cs) :
    floatRest? (ds ++ cs) = none := by
  have last : (ds ++ cs).dropWhile isDigitOrGap = cs := by
    rw [List.dropWhile_append_of_pos fun d mem => by simp [isDigitOrGap, digits d mem]]
    refine ends.elim ?_ ?_ ?_ ?_ ?_ <;> intros <;> rfl
  unfold floatRest?
  rw [last]
  split
  · refine ends.elim ?_ ?_ ?_ ?_ ?_ <;> intros <;> rfl
  · rfl

theorem isLiteral_decimal {ds : List Char} (some : ds ≠ []) (digits : ∀ d ∈ ds, isAsciiDigit d = true) :
    IsLiteral (String.ofList ds) where
  read cs ends := by
    obtain ⟨d, ds, rfl⟩ := List.exists_cons_of_ne_nil some
    have float := floatRest?_decimal digits ends
    have here := digits d List.mem_cons_self
    have later := digitsRest?_decimal (fun e mem => digits e (List.mem_cons_of_mem d mem)) ends
    have whole : digitsRest? 10 true (d :: (ds ++ cs)) = .some cs := by
      obtain ⟨value, small, read⟩ := hexValue?_digit here
      rw [digitsRest?, if_neg (ne_gap_of_digit here), read]
      exact (if_pos small).trans later
    have base {c : Char} (letter : isAsciiDigit c = false) (ended : c ∉ [' ', ')', ']', '\n']) (rest : List Char) :
        ds ++ cs ≠ c :: rest := by
      intro same
      cases ds with
      | nil => exact ended (ends c (by rw [show cs = _ from same]; rfl))
      | cons e ds =>
        obtain ⟨rfl, -⟩ := List.cons.inj same
        rw [digits e (by simp)] at letter
        cases letter
    have int : intRest? (d :: (ds ++ cs)) = .some cs := by
      unfold intRest?
      split
      case h_1 same | h_2 same | h_3 same => exact absurd (List.cons.inj same).2 (base (by decide) (by decide) _)
      rw [whole]
      exact numberEnd?_of_ends ends
    have quoted : quotedRest? (d :: (ds ++ cs)) = none ∧ singleRest? (d :: (ds ++ cs)) = none := by
      obtain ⟨n, low, high, rfl⟩ := exists_digit here
      interval_cases n <;> exact ⟨rfl, rfl⟩
    rw [String.toList_ofList, literalRest?, List.cons_append, quoted.1, quoted.2, ← List.cons_append, float,
      List.cons_append, int]
    rfl
  start c first := by
    rw [String.toList_ofList] at first
    exact .inr (.inr (digits c (List.mem_of_head? first)))

theorem leaf?_literal {text : String} (h : IsLiteral text) {cs : List Char} (ends : Ends cs) :
    leaf? (text.toList ++ cs) = some (.literal text, cs) := by
  have count : (text.toList ++ cs).length - cs.length = text.toList.length := by
    rw [List.length_append]
    omega
  rw [leaf?, h.read cs ends]
  simp only [count, List.take_left', String.ofList_toList]

/-- No literal starts with a character that is no letter, no digit and no quote. -/
theorem literalRest?_none {c : Char} (start : isIdentStart c = false) (digit : isAsciiDigit c = false)
    (quote : c ≠ '"') {cs : List Char} (single : singleRest? (c :: cs) = none) : literalRest? (c :: cs) = none := by
  obtain ⟨float, int⟩ := number?_none digit cs
  have letter {d : Char} (h : isIdentStart d = true) : c ≠ d := by
    rintro rfl
    rw [h] at start
    cases start
  have text : quotedRest? (c :: cs) = none := by
    unfold quotedRest?
    split
    · rename_i same
      exact absurd (List.cons.inj same).1 (letter (by decide))
    · rename_i same
      exact absurd (List.cons.inj same).1 (letter (by decide))
    · rename_i same
      exact absurd (List.cons.inj same).1 (letter (by decide))
    · rename_i same
      exact absurd (List.cons.inj same).1 (letter (by decide))
    · unfold text?
      split
      · rename_i same
        exact absurd (List.cons.inj same).1 quote
      · rename_i same
        exact absurd (List.cons.inj same).1 (letter (by decide))
      · rfl
  simp [literalRest?, text, single, float, int]

theorem leaf?_mark {c : Char} (mark : markChars.contains c = true) (quote : c ≠ '\'') {cs : List Char}
    (starts : startsMark (c :: cs) = true) : leaf? (c :: cs) = some (.mark c (startsMark cs), cs) := by
  have is := isMark_of_mem mark
  have single : singleRest? (c :: cs) = none := by
    unfold singleRest?
    split
    · rename_i same
      have start := is.start
      rw [(List.cons.inj same).1] at start
      exact absurd start (by decide)
    · rename_i same
      exact absurd (List.cons.inj same).1 quote
    · rfl
  have read : mark? (c :: cs) = some (.mark c (startsMark cs), cs) := by
    unfold mark?
    split
    · rename_i same
      exact absurd (List.cons.inj same).1 quote
    · rename_i same
      cases same
      exact if_pos starts
    · rename_i same
      cases same
  rw [leaf?, literalRest?_none is.start is.digit is.quote single, read]

/-- No quote follows the first character of an identifier. -/
theorem not_quote_second {name : String} (h : Spelled name) {c : Char} {w cs : List Char}
    (same : name.toList = c :: w) (ends : Ends cs) : ∀ d ∈ (w ++ cs).head?, d ≠ '\'' := by
  rcases spelled_cases h with word | ⟨v, rfl, -⟩
  · rw [same] at word
    have parts : ∀ d ∈ w, isIdentPart d = true := List.all_eq_true.1 (Bool.and_eq_true_iff.1 word).2
    exact fun d first => (unquoted_word parts ends d first).2.1
  · rw [String.toList_ofList] at same
    cases same
    rintro d ⟨⟩
    decide

/-- A quote is a mark in front of a name that no quote ends. -/
theorem leaf?_lifetime {name : String} (h : Spelled name) {cs : List Char} (ends : Ends cs) :
    leaf? ('\'' :: (name.toList ++ cs)) = some (.mark '\'' true, name.toList ++ cs) := by
  have read := identifier?_of_spelled h ends
  have single : singleRest? ('\'' :: (name.toList ++ cs)) = none := by
    obtain ⟨c, w, same, start⟩ := exists_start h
    have second := not_quote_second h same ends
    have slash : c ≠ '\\' := by
      rintro rfl
      exact absurd start (by decide)
    rw [same]
    show oneCharRest? textRules (c :: (w ++ cs)) = none
    generalize w ++ cs = rest at second
    simp only [oneCharRest?, textRules, if_true, Option.bind_eq_bind, Option.bind_some]
    split
    · exact absurd rfl (second '\'' rfl)
    · rfl
  have mark : mark? ('\'' :: (name.toList ++ cs)) = some (.mark '\'' true, name.toList ++ cs) := by
    simp only [mark?, read]
    cases cs with
    | nil => rfl
    | cons d cs =>
      have char := ends d rfl
      simp only [List.mem_cons, List.not_mem_nil, or_false] at char
      rcases char with rfl | rfl | rfl | rfl <;> rfl
  rw [leaf?, literalRest?_none (by decide) (by decide) (by decide) single, mark]

/-! ## Tokens that can be written -/

/-- The token can be written in front of the tokens. -/
def Fits : Token → List Token → Prop
  | .ident name, _ => Spelled name
  | .literal text, _ => IsLiteral text
  | .mark c false, _ => markChars.contains c = true ∧ c ≠ '\''
  | .mark c true, .ident _ :: _ => c = '\''
  | .mark c true, .mark d _ :: _ => c ≠ '\'' ∧ startsMark [c, d] = true
  | .mark _ true, _ => False
  | .opening _, _ | .closing _, _ => True

/-- Each of the tokens can be written in front of those behind it. -/
def Written : List Token → Prop
  | [] => True
  | t :: ts => Fits t ts ∧ Written ts

theorem fits_append {t : Token} {ts : List Token} (us : List Token) (h : Fits t ts) : Fits t (ts ++ us) := by
  cases t with
  | mark c joint =>
    cases joint with
    | false => exact h
    | true =>
      cases ts with
      | nil => exact h.elim
      | cons u ts => cases u <;> exact h
  | ident _ | literal _ | opening _ | closing _ => exact h

theorem written_append {ts us : List Token} (first : Written ts) (second : Written us) : Written (ts ++ us) := by
  induction ts with
  | nil => exact second
  | cons t ts ih => exact ⟨fits_append us first.1, ih first.2⟩

theorem written_group (d : Delimiter) {ts : List Token} (h : Written ts) : Written (group d ts) :=
  ⟨trivial, written_append h ⟨trivial, trivial⟩⟩

/-! ## Gaps -/

theorem skipGapsLoop_none {cs : List Char} (h : gapRest? cs = none) (fuel : Nat) : skipGapsLoop fuel cs = cs := by
  cases fuel with
  | zero => rfl
  | succ fuel => rw [skipGapsLoop, h]

theorem skipGaps_none {cs : List Char} (h : gapRest? cs = none) : skipGaps cs = cs := skipGapsLoop_none h _

theorem skipGaps_blank {cs : List Char} (h : gapRest? cs = none) : skipGaps (' ' :: cs) = cs :=
  skipGapsLoop_none h cs.length

/-- A character that may continue a word is no gap. -/
theorem not_isGap_of_isIdentPart {c : Char} (part : isIdentPart c = true) : isGap c = false := by
  have none : ∀ r ∈ (0x200e, 0x200f) :: blankRanges, ∀ n ∈ List.range' r.1 (r.2 + 1 - r.1),
      isIdentPart (Char.ofNat n) = false := by
    decide +kernel
  refine Bool.eq_false_iff.2 fun gap => ?_
  have inside : ∃ r ∈ (0x200e, 0x200f) :: blankRanges, r.1 ≤ c.toNat ∧ c.toNat ≤ r.2 := by
    simp only [isGap, Bool.or_eq_true, beq_iff_eq] at gap
    rcases gap with (blank | rfl) | rfl
    · obtain ⟨r, mem, bounds⟩ := (Ranges.contains_iff _ _).1 blank
      exact ⟨r, List.mem_cons_of_mem _ mem, bounds⟩
    · exact ⟨_, List.mem_cons_self, by decide⟩
    · exact ⟨_, List.mem_cons_self, by decide⟩
  obtain ⟨r, mem, low, high⟩ := inside
  have other := none r mem c.toNat (List.mem_range'_1.2 (by omega))
  rw [Char.ofNat_toNat, part] at other
  cases other

theorem startsLeaf_of_isIdentPart {c : Char} (part : isIdentPart c = true) : StartsLeaf c where
  gap := not_isGap_of_isIdentPart part
  opening := by
    unfold openingOf?
    split
    · exact absurd part (by decide)
    · exact absurd part (by decide)
    · exact absurd part (by decide)
    · rfl
  closing := by
    unfold closingOf?
    split
    · exact absurd part (by decide)
    · exact absurd part (by decide)
    · exact absurd part (by decide)
    · rfl

/-- Neither a gap nor a comment starts here. -/
def Solid (cs : List Char) : Prop := gapRest? cs = none ∧ docComment? cs = none

theorem solid_of_start {c : Char} (gap : isGap c = false) {cs : List Char}
    (comment : c = '/' → startsMark (c :: cs) = true) : Solid (c :: cs) := by
  have plain : ∀ d rest, c :: cs = '/' :: d :: rest → d ≠ '/' ∧ d ≠ '*' := by
    intro d rest same
    obtain ⟨rfl, rfl⟩ := List.cons.inj same
    have starts := comment rfl
    constructor <;> rintro rfl <;> cases starts
  constructor
  · unfold gapRest?
    split <;> rename_i same
    all_goals first
      | exact absurd rfl (plain _ _ same).1
      | exact absurd rfl (plain _ _ same).2
      | skip
    · cases same
      rw [gap]
      rfl
    · rfl
  · have none : docText? (c :: cs) = none := by
      unfold docText?
      split <;> rename_i same
      all_goals first
        | exact absurd rfl (plain _ _ same).1
        | exact absurd rfl (plain _ _ same).2
        | rfl
    rw [docComment?, none]

/-! ## What stands behind a token -/

section

variable {tail : List Char}

/-- The characters behind a token. -/
def after (tail : List Char) (t : Token) (ts : List Token) : List Char := (renderAfter t ts).toList ++ tail

@[simp]
theorem after_nil (t : Token) : after tail t [] = tail := rfl

theorem after_cons (t u : Token) (us : List Token) :
    after tail t (u :: us) = (if spaced t u then [' '] else []) ++ (u.text.toList ++ after tail u us) := by
  simp only [after, renderAfter, String.toList_append, List.append_assoc]
  split <;> rfl

@[simp]
theorem text_mark (c : Char) (joint : Bool) : (mark c joint).text.toList = [c] := String.toList_singleton c

@[simp]
theorem text_opening (d : Delimiter) : (opening d).text.toList = [d.openChar] := String.toList_singleton _

@[simp]
theorem text_closing (d : Delimiter) : (closing d).text.toList = [d.closeChar] := String.toList_singleton _

theorem after_joint_ident (c : Char) (name : String) (us : List Token) :
    after tail (.mark c true) (.ident name :: us) = name.toList ++ after tail (.ident name) us :=
  after_cons _ _ us

theorem after_joint_mark (c d : Char) (joint : Bool) (us : List Token) :
    after tail (.mark c true) (.mark d joint :: us) = d :: after tail (.mark d joint) us := by
  rw [after_cons, text_mark]
  rfl

/-- A token that is neither a joint mark nor an opening bracket ends where its text does. -/
def Settles : Token → Prop
  | .mark _ true | .opening _ => False
  | _ => True

theorem ends_after (ends : Ends tail) {t : Token} (settles : Settles t) (ts : List Token) :
    Ends (after tail t ts) := by
  cases ts with
  | nil => exact ends
  | cons u us =>
    rw [after_cons]
    have blank : ∀ cs, Ends (' ' :: cs) := fun cs c first => by cases first; decide
    cases t with
    | opening _ => exact settles.elim
    | mark c joint =>
      cases joint with
      | true => exact settles.elim
      | false =>
        cases u with
        | closing d => cases d <;> first | exact blank _ | exact fun c first => by cases first; decide
        | _ => exact blank _
    | ident _ | literal _ | closing _ =>
      cases u with
      | closing d => cases d <;> first | exact blank _ | exact fun c first => by cases first; decide
      | _ => exact blank _

theorem not_startsMark_of_ends {cs : List Char} (h : Ends cs) : startsMark cs = false := by
  refine h.elim ?_ ?_ ?_ ?_ ?_ <;> intros <;> rfl

theorem startsMark_cons_cons (c d : Char) (cs : List Char) : startsMark (c :: d :: cs) = startsMark [c, d] := by
  by_cases slash : c = '/'
  · subst slash
    by_cases line : d = '/'
    · subst line
      rfl
    · by_cases block : d = '*'
      · subst block
        rfl
      · simp [startsMark, line, block]
  · simp [startsMark, slash]

theorem contains_of_startsMark {c : Char} {cs : List Char} (h : startsMark (c :: cs) = true) :
    markChars.contains c = true := by
  unfold startsMark at h
  split at h
  · cases h
  · cases h
  · rename_i same
    cases same
    exact h
  · rename_i same
    cases same

/-- A mark that fits is one with what stands behind it. -/
theorem startsMark_after (ends : Ends tail) {c : Char} {joint : Bool} {ts : List Token}
    (fits : Fits (.mark c joint) ts) : startsMark (c :: after tail (.mark c joint) ts) = true := by
  cases joint with
  | false =>
    obtain ⟨mark, -⟩ := fits
    have ends := ends_after ends (t := .mark c false) trivial ts
    generalize after tail (.mark c false) ts = cs at ends
    cases cs with
    | nil => simpa [startsMark] using mark
    | cons d cs =>
      have char := ends d rfl
      simp only [List.mem_cons, List.not_mem_nil, or_false] at char
      rw [startsMark_cons_cons]
      rcases char with rfl | rfl | rfl | rfl <;> simpa [startsMark] using mark
  | true =>
    cases ts with
    | nil => exact fits.elim
    | cons u us =>
      cases u with
      | ident name =>
        obtain rfl : c = '\'' := fits
        rfl
      | mark d joint =>
        rw [after_joint_mark, startsMark_cons_cons]
        exact fits.2
      | literal _ | opening _ | closing _ => exact fits.elim

theorem leaf?_after (ends : Ends tail) {t : Token} {ts : List Token} (fits : Fits t ts) (written : Written ts)
    (leaf : ∀ d, t ≠ .opening d ∧ t ≠ .closing d) :
    leaf? (t.text.toList ++ after tail t ts) = some (t, after tail t ts) := by
  cases t with
  | ident name => exact leaf?_ident fits (ends_after ends (t := .ident name) trivial ts)
  | literal text => exact leaf?_literal fits (ends_after ends (t := .literal text) trivial ts)
  | opening d => exact absurd rfl (leaf d).1
  | closing d => exact absurd rfl (leaf d).2
  | mark c joint =>
    have starts := startsMark_after ends fits
    rw [text_mark, List.singleton_append]
    cases joint with
    | false =>
      rw [leaf?_mark fits.1 fits.2 starts]
      rw [not_startsMark_of_ends (ends_after ends (t := .mark c false) trivial ts)]
    | true =>
      cases ts with
      | nil => exact fits.elim
      | cons u us =>
        cases u with
        | ident name =>
          obtain rfl : c = '\'' := fits
          rw [after_joint_ident]
          exact leaf?_lifetime written.1 (ends_after ends (t := .ident name) trivial us)
        | mark d joint =>
          have mark : markChars.contains c = true := contains_of_startsMark starts
          have next := startsMark_after ends written.1
          rw [leaf?_mark mark fits.1 starts, after_joint_mark, next]
        | literal _ | opening _ | closing _ => exact fits.elim

/-- The first character of a token that is no bracket. -/
theorem exists_first {t : Token} {ts : List Token} (fits : Fits t ts)
    (leaf : ∀ d, t ≠ .opening d ∧ t ≠ .closing d) :
    ∃ c cs, t.text.toList = c :: cs ∧ StartsLeaf c ∧ (c = '/' → ∃ joint, t = .mark c joint) := by
  cases t with
  | ident name =>
    obtain ⟨c, cs, same, start⟩ := exists_start fits
    refine ⟨c, cs, same, startsLeaf_of_isIdentPart (isIdentPart_of_start start), ?_⟩
    rintro rfl
    exact absurd start (by decide)
  | literal text =>
    cases same : text.toList with
    | nil =>
      have read := fits.read [] ends_nil
      rw [same] at read
      cases read
    | cons c cs =>
      have start := fits.start c (same ▸ rfl)
      refine ⟨c, cs, same, ?_, ?_⟩
      · rcases start with quote | word | digit
        · simp only [List.mem_cons, List.not_mem_nil, or_false] at quote
          rcases quote with rfl | rfl <;> decide
        · exact startsLeaf_of_isIdentPart (isIdentPart_of_start word)
        · obtain ⟨n, low, high, rfl⟩ := exists_digit digit
          interval_cases n <;> decide
      · rintro rfl
        exact absurd start (by decide)
  | mark c joint =>
    have mark := contains_of_startsMark (startsMark_after ends_nil fits)
    exact ⟨c, [], text_mark c joint, (isMark_of_mem mark).leaf, fun _ => ⟨joint, rfl⟩⟩
  | opening d => exact absurd rfl (leaf d).1
  | closing d => exact absurd rfl (leaf d).2

theorem text_ne_nil {t : Token} {ts : List Token} (fits : Fits t ts) : t.text.toList ≠ [] := by
  by_cases leaf : ∀ d, t ≠ .opening d ∧ t ≠ .closing d
  · obtain ⟨c, cs, same, -⟩ := exists_first fits leaf
    rw [same]
    exact List.cons_ne_nil c cs
  · cases t with
    | opening d => simp
    | closing d => simp
    | ident _ | literal _ | mark _ _ => exact absurd (fun d => ⟨nofun, nofun⟩) leaf

/-- No gap and no comment starts at the text of a token. -/
theorem solid_after (ends : Ends tail) {t : Token} {ts : List Token} (fits : Fits t ts) :
    Solid (t.text.toList ++ after tail t ts) := by
  by_cases leaf : ∀ d, t ≠ .opening d ∧ t ≠ .closing d
  · obtain ⟨c, cs, same, start, slash⟩ := exists_first fits leaf
    rw [same, List.cons_append]
    refine solid_of_start start.gap fun is => ?_
    obtain ⟨joint, rfl⟩ := slash is
    rw [text_mark] at same
    cases same
    exact startsMark_after ends fits
  · cases t with
    | opening d =>
      rw [text_opening]
      cases d <;> exact solid_of_start (by decide) fun slash => absurd slash (by decide)
    | closing d =>
      rw [text_closing]
      cases d <;> exact solid_of_start (by decide) fun slash => absurd slash (by decide)
    | ident _ | literal _ | mark _ _ => exact absurd (fun d => ⟨nofun, nofun⟩) leaf

/-! ## Whole texts -/

/-- One round of the lexer at a token that is no bracket. -/
theorem lexLoop_leaf (ends : Ends tail) {t : Token} {ts : List Token} (fits : Fits t ts) (written : Written ts)
    (leaf : ∀ d, t ≠ .opening d ∧ t ≠ .closing d) (fuel : Nat) (stack : List Delimiter) :
    lexLoop (fuel + 1) stack (t.text.toList ++ after tail t ts) =
      (lexLoop fuel stack (after tail t ts)).map (t :: ·) := by
  have read := leaf?_after ends fits written leaf
  obtain ⟨gap, comment⟩ := solid_after ends fits
  obtain ⟨c, cs, same, start, -⟩ := exists_first fits leaf
  rw [same, List.cons_append] at read gap comment ⊢
  rw [lexLoop]
  simp only [skipGaps_none gap, comment, start.opening, start.closing, leafThen, read]

/-- No comment starts behind a token that can be written. -/
theorem not_comment_after (ends : Ends tail) {t : Token} {ts : List Token} (fits : Fits t ts) (cs : List Char) :
    t.text.toList ++ after tail t ts ≠ '/' :: '*' :: cs := by
  intro same
  by_cases leaf : ∀ d, t ≠ .opening d ∧ t ≠ .closing d
  · obtain ⟨c, w, text, -, slash⟩ := exists_first fits leaf
    obtain ⟨joint, rfl⟩ := slash (List.cons.inj (text ▸ same : c :: (w ++ _) = '/' :: '*' :: cs)).1
    rw [text_mark, List.singleton_append] at same
    have starts := startsMark_after ends fits
    rw [same] at starts
    cases starts
  · cases t with
    | opening d =>
      rw [text_opening] at same
      cases d <;> exact absurd (List.cons.inj same).1 (by decide)
    | closing d =>
      rw [text_closing] at same
      cases d <;> exact absurd (List.cons.inj same).1 (by decide)
    | ident _ | literal _ | mark _ _ => exact absurd (fun d => ⟨nofun, nofun⟩) leaf

theorem errorLiteral_after (ends : Ends tail) (d : Delimiter) {ts : List Token} (written : Written ts) :
    errorLiteral.toList.isPrefixOf (d.openChar :: after tail (.opening d) ts) = false := by
  have text : errorLiteral.toList = '(' :: '/' :: '*' :: "ERROR*/)".toList := by decide
  cases is : errorLiteral.toList.isPrefixOf (d.openChar :: after tail (.opening d) ts) with
  | false => rfl
  | true =>
    exfalso
    obtain ⟨cs, same⟩ := List.isPrefixOf_iff_prefix.1 is
    rw [text] at same
    have comment := (List.cons.inj same).2.symm
    cases ts with
    | nil => exact absurd (ends '/' (by rw [after_nil] at comment; rw [comment]; rfl)) (by decide)
    | cons t ts =>
      rw [after_cons] at comment
      split at comment
      · exact absurd (List.cons.inj comment).1 (by decide)
      · exact not_comment_after ends written.1 _ comment

theorem lexLoop_opening (ends : Ends tail) (d : Delimiter) {ts : List Token} (written : Written ts) (fuel : Nat)
    (stack : List Delimiter) :
    lexLoop (fuel + 1) stack (d.openChar :: after tail (.opening d) ts) =
      (lexLoop fuel (d :: stack) (after tail (.opening d) ts)).map (.opening d :: ·) := by
  have plain : isGap d.openChar = false ∧ d.openChar ≠ '/' ∧ openingOf? d.openChar = some d := by
    cases d <;> decide
  obtain ⟨gap, slash, opening⟩ := plain
  obtain ⟨gap, comment⟩ : Solid (d.openChar :: after tail (.opening d) ts) :=
    solid_of_start gap fun is => absurd is slash
  rw [lexLoop]
  simp only [skipGaps_none gap, comment, opening, errorLiteral_after ends d written, Bool.false_eq_true, if_false]

theorem lexLoop_closing (d : Delimiter) (cs : List Char) (fuel : Nat) (stack : List Delimiter) :
    lexLoop (fuel + 1) (d :: stack) (d.closeChar :: cs) = (lexLoop fuel stack cs).map (.closing d :: ·) := by
  have plain : isGap d.closeChar = false ∧ d.closeChar ≠ '/' ∧ openingOf? d.closeChar = none ∧
      closingOf? d.closeChar = some d := by
    cases d <;> decide
  obtain ⟨gap, slash, opening, closing⟩ := plain
  obtain ⟨gap, comment⟩ : Solid (d.closeChar :: cs) := solid_of_start gap fun is => absurd is slash
  rw [lexLoop]
  simp only [skipGaps_none gap, comment, opening, closing, if_true]

theorem lexLoop_congr {cs ds : List Char} (same : skipGaps cs = skipGaps ds) (fuel : Nat)
    (stack : List Delimiter) : lexLoop fuel stack cs = lexLoop fuel stack ds := by
  cases fuel with
  | zero => rfl
  | succ fuel => rw [lexLoop, lexLoop, same]

theorem render_cons (t : Token) (ts : List Token) :
    (render (t :: ts)).toList ++ tail = t.text.toList ++ after tail t ts := by
  rw [render, String.toList_append, List.append_assoc]
  rfl

theorem skipGaps_after (ends : Ends tail) (t : Token) {ts : List Token} (written : Written ts) :
    skipGaps (after tail t ts) = skipGaps ((render ts).toList ++ tail) := by
  cases ts with
  | nil => rfl
  | cons u us =>
    have gap := (solid_after ends written.1).1
    rw [after_cons, render_cons, skipGaps_none gap]
    split
    · exact skipGaps_blank gap
    · exact skipGaps_none gap

theorem length_after (t : Token) (ts : List Token) :
    ((render ts).toList ++ tail).length ≤ (after tail t ts).length := by
  cases ts with
  | nil => exact Nat.le_refl _
  | cons u us =>
    rw [after_cons, render_cons]
    simp only [List.length_append]
    omega

/-- The tokens of a text, in front of blanks. Every group is closed, those of `stack` too. -/
theorem lexLoop_render (ends : Ends tail) (blank : skipGaps tail = []) {ts : List Token} (written : Written ts)
    {stack : List Delimiter} (closed : openGroups stack ts = some []) {fuel : Nat}
    (enough : ((render ts).toList ++ tail).length < fuel) :
    lexLoop fuel stack ((render ts).toList ++ tail) = some ts := by
  induction ts generalizing stack fuel with
  | nil =>
    obtain ⟨fuel, rfl⟩ := Nat.exists_eq_succ_of_ne_zero (Nat.ne_zero_of_lt enough)
    obtain rfl : stack = [] := Option.some.inj closed
    have gaps : skipGaps ((render []).toList ++ tail) = [] := blank
    rw [lexLoop, gaps]
    rfl
  | cons t ts ih =>
    obtain ⟨fuel, rfl⟩ := Nat.exists_eq_succ_of_ne_zero (Nat.ne_zero_of_lt enough)
    have next (stack : List Delimiter) (closed : openGroups stack ts = some []) :
        lexLoop fuel stack (after tail t ts) = some ts := by
      rw [lexLoop_congr (skipGaps_after ends t written.2)]
      refine ih written.2 closed ?_
      have shorter : ((render ts).toList ++ tail).length ≤ (after tail t ts).length := length_after t ts
      have some_char := List.length_pos_iff.2 (text_ne_nil written.1)
      rw [render_cons, List.length_append] at enough
      omega
    rw [render_cons]
    cases t with
    | opening d =>
      rw [text_opening, List.singleton_append, lexLoop_opening ends d written.2, next (d :: stack) closed]
      rfl
    | closing d =>
      cases stack with
      | nil => cases closed
      | cons e stack =>
        simp only [openGroups] at closed
        split at closed
        · rename_i same
          subst same
          rw [text_closing, List.singleton_append, lexLoop_closing, next stack closed]
          rfl
        · cases closed
    | ident _ | literal _ | mark _ _ =>
      rw [lexLoop_leaf ends written.1 written.2 fun d => by simp, next stack ?_]
      · rfl
      · cases stack <;> exact closed

end

/-! ## Files -/

/-- More open groups around the tokens make no difference to them. -/
theorem openGroups_append_stack {ts : List Token} {stack rest : List Delimiter} (around : List Delimiter)
    (h : openGroups stack ts = some rest) : openGroups (stack ++ around) ts = some (rest ++ around) := by
  induction ts generalizing stack with
  | nil =>
    cases h
    rfl
  | cons t ts ih =>
    cases t with
    | opening d =>
      have later : openGroups (d :: stack) ts = some rest := by cases stack <;> exact h
      exact ih later
    | closing d =>
      cases stack with
      | nil => cases h
      | cons e stack =>
        simp only [openGroups, List.cons_append] at h ⊢
        split at h
        · rename_i same
          rw [if_pos same]
          exact ih h
        · cases h
    | ident _ | literal _ | mark _ _ =>
      have here : openGroups stack ts = some rest := by cases stack <;> exact h
      have later := ih here
      cases stack <;> cases around <;> exact later

/-- Tokens that can be written, with every group closed. -/
structure Printable (ts : List Token) : Prop where
  written : Written ts
  balanced : Balanced ts

theorem printable_nil : Printable [] := ⟨trivial, rfl⟩

theorem Printable.append {ts us : List Token} (first : Printable ts) (second : Printable us) :
    Printable (ts ++ us) :=
  ⟨written_append first.written second.written, balanced_append first.balanced second.balanced⟩

theorem Printable.group (d : Delimiter) {ts : List Token} (h : Printable ts) : Printable (group d ts) where
  written := written_group d h.written
  balanced := by
    have inside : openGroups [d] ts = some [d] := openGroups_append_stack [d] h.balanced
    show openGroups [d] (ts ++ [.closing d]) = some []
    rw [openGroups_append, inside]
    exact if_pos rfl

theorem line_of_not_mem {cs : List Char} (h : '\n' ∉ cs) (rest : List Char) :
    (line (cs ++ '\n' :: rest)).2 = '\n' :: rest := by
  induction cs with
  | nil => rfl
  | cons c cs ih =>
    obtain ⟨first, later⟩ := not_or.1 (mt List.mem_cons.2 h)
    have first : c ≠ '\n' := Ne.symm first
    cases cs with
    | nil =>
      by_cases back : c = '\r'
      · subst back
        rfl
      · simp [line, back]
    | cons d cs =>
      obtain ⟨second, -⟩ := not_or.1 (mt List.mem_cons.2 later)
      have second : d ≠ '\n' := Ne.symm second
      rw [List.cons_append, List.cons_append, line]
      · exact ih later
      all_goals simp_all

/-- The tokens of a file that starts with a comment of one line. -/
theorem ofFile?_heading {heading code : String} (oneLine : '\n' ∉ heading.toList) {t : Token} {ts : List Token}
    (rendered : code = render (t :: ts)) (h : Printable (t :: ts)) :
    ofFile? ("// " ++ heading ++ "\n\n" ++ code ++ "\n") = some (t :: ts) := by
  have blank : Ends ['\n'] := fun c first => by cases first; decide
  have gap := (solid_after blank h.written.1).1
  rw [← render_cons] at gap
  obtain ⟨body, same⟩ : ∃ body, (render (t :: ts)).toList ++ ['\n'] = body := ⟨_, rfl⟩
  have text : ("// " ++ heading ++ "\n\n" ++ code ++ "\n").toList =
      '/' :: '/' :: (' ' :: heading.toList ++ '\n' :: '\n' :: body) := by
    simp [rendered, ← same, String.toList_append]
  rw [same] at gap
  have plain : '\n' ∉ ' ' :: heading.toList := by simpa using oneLine
  have behind := line_of_not_mem plain ('\n' :: body)
  have skipped : skipGaps ('/' :: '/' :: (' ' :: heading.toList ++ '\n' :: '\n' :: body)) = body := by
    have ends (fuel : Nat) : skipGapsLoop (fuel + 2) ('\n' :: '\n' :: body) = body := skipGapsLoop_none gap fuel
    show skipGapsLoop _ (line (' ' :: heading.toList ++ '\n' :: '\n' :: body)).2 = body
    rw [behind]
    simp only [List.length_append, List.length_cons]
    exact ends _
  rw [ofFile?, text]
  show lexLoop _ [] ('/' :: '/' :: (' ' :: heading.toList ++ '\n' :: '\n' :: body)) = some (t :: ts)
  rw [lexLoop_congr (skipped.trans (skipGaps_none gap).symm), ← same]
  refine lexLoop_render blank rfl h.written h.balanced ?_
  rw [same]
  show body.length < ('/' :: '/' :: (' ' :: heading.toList ++ '\n' :: '\n' :: body)).length + 1
  simp only [List.length_cons, List.length_append]
  omega

end LiveSettings.Token
