import LiveSettings.Token.Lexer

/-!
# Identifiers

An identifier is a word, or a word behind `r#`. The lexer makes no other ones, and reads an identifier as
itself wherever a blank or a closing bracket follows it.

Results:
* `identifier?_of_mem_lexLoop`: the identifiers among the tokens of a text.
* `isIdentifier_of_ofFile?`, `spelled_of_ofFile?`: how they are spelled.
* `identifier?_of_spelled`: an identifier in front of what may follow it.
-/

namespace LiveSettings

namespace Text

/-- A word, or a word behind `r#`. -/
def isIdentifier (name : String) : Bool :=
  isWord name.toList || (name.toList.take 2 == ['r', '#'] && isWord (name.toList.drop 2))

theorem isIdentPart_of_isWord {cs : List Char} (h : isWord cs = true) {c : Char} (mem : c ∈ cs) :
    isIdentPart c = true := by
  cases cs with
  | nil => cases mem
  | cons d cs =>
    obtain ⟨first, rest⟩ := Bool.and_eq_true_iff.1 h
    rcases List.mem_cons.1 mem with rfl | mem
    · exact isIdentPart_of_start first
    · exact List.all_eq_true.1 rest c mem

/-- Apart from a number sign an identifier holds characters of words alone. -/
theorem isIdentPart_of_isIdentifier {name : String} (h : isIdentifier name = true) {c : Char}
    (mem : c ∈ name.toList) : isIdentPart c = true ∨ c = '#' := by
  rcases Bool.or_eq_true_iff.1 h with word | raw
  · exact .inl (isIdentPart_of_isWord word mem)
  · obtain ⟨mark, word⟩ := Bool.and_eq_true_iff.1 raw
    rw [← List.take_append_drop 2 name.toList, eq_of_beq mark] at mem
    rcases List.mem_append.1 mem with marked | inside
    · rcases List.mem_cons.1 marked with rfl | sign
      · exact .inl (by decide)
      · exact .inr (List.mem_singleton.1 sign)
    · exact .inl (isIdentPart_of_isWord word inside)

/-- A character that is neither part of words nor a number sign stands in no identifier. -/
theorem not_mem_of_isIdentifier {name : String} (h : isIdentifier name = true) {c : Char}
    (other : isIdentPart c = false) (sign : c ≠ '#') : c ∉ name.toList := by
  intro mem
  rcases isIdentPart_of_isIdentifier h mem with part | isSign
  · rw [other] at part
    cases part
  · exact sign isSign

end Text

namespace Token

open Text Literal

/-! ## Words in front of other characters -/

/-- What may follow a word or a literal: nothing, a blank or a closing bracket. -/
def Ends (cs : List Char) : Prop := ∀ c ∈ cs.head?, c ∈ [' ', ')', ']', '\n']

theorem ends_nil : Ends [] := fun _ first => nomatch first

namespace Ends

variable {cs : List Char}

@[elab_as_elim]
theorem elim {P : List Char → Prop} (h : Ends cs) (nil : P []) (blank : ∀ rest, P (' ' :: rest))
    (paren : ∀ rest, P (')' :: rest)) (bracket : ∀ rest, P (']' :: rest)) (line : ∀ rest, P ('\n' :: rest)) : P cs := by
  cases cs with
  | nil => exact nil
  | cons c rest =>
    have char := h c rfl
    simp only [List.mem_cons, List.not_mem_nil, or_false] at char
    rcases char with rfl | rfl | rfl | rfl
    · exact blank rest
    · exact paren rest
    · exact bracket rest
    · exact line rest

theorem not_isIdentPart (h : Ends cs) {c : Char} (first : c ∈ cs.head?) : isIdentPart c = false := by
  have char := h c first
  simp only [List.mem_cons, List.not_mem_nil, or_false] at char
  rcases char with rfl | rfl | rfl | rfl <;> decide

theorem afterSuffix (h : Ends cs) : afterSuffix cs = cs := by
  cases cs with
  | nil => rfl
  | cons c cs =>
    have start : isIdentStart c = false := by
      have part := h.not_isIdentPart (c := c) rfl
      cases start : isIdentStart c with
      | false => rfl
      | true =>
        rw [isIdentPart_of_start start] at part
        cases part
    simp [Literal.afterSuffix, wordRest?, start]

end Ends

theorem take_length_sub_dropWhile (p : Char → Bool) (c : Char) (cs : List Char) :
    (c :: cs).take ((c :: cs).length - (cs.dropWhile p).length) = c :: cs.takeWhile p := by
  have parts : (cs.takeWhile p).length + (cs.dropWhile p).length = cs.length := by
    rw [← List.length_append, List.takeWhile_append_dropWhile]
  have count : (c :: cs).length - (cs.dropWhile p).length = (cs.takeWhile p).length + 1 := by
    rw [List.length_cons]
    omega
  rw [count, List.take_succ_cons]
  congr 1
  calc cs.take (cs.takeWhile p).length
      = (cs.takeWhile p ++ cs.dropWhile p).take (cs.takeWhile p).length := by
        rw [List.takeWhile_append_dropWhile]
    _ = cs.takeWhile p := List.take_left' rfl

theorem isWord_of_word? {cs rest : List Char} {word : String} (h : identifier?.word? cs = some (word, rest)) :
    isWord word.toList = true := by
  obtain ⟨after, found, same⟩ := Option.map_eq_some_iff.1 h
  obtain ⟨rfl, rfl⟩ := Prod.mk.inj same
  cases cs with
  | nil => cases found
  | cons c cs =>
    simp only [wordRest?] at found
    split at found
    · rename_i start
      cases found
      rw [take_length_sub_dropWhile, String.toList_ofList, isWord, start, Bool.true_and]
      exact List.all_takeWhile
    · cases found

theorem word?_of_isWord {w cs : List Char} (word : isWord w = true) (ends : Ends cs) :
    identifier?.word? (w ++ cs) = some (String.ofList w, cs) := by
  cases w with
  | nil => cases word
  | cons c w =>
    obtain ⟨start, parts⟩ := Bool.and_eq_true_iff.1 word
    have parts : ∀ d ∈ w, isIdentPart d = true := List.all_eq_true.1 parts
    have stop : cs.dropWhile isIdentPart = cs := by
      cases cs with
      | nil => rfl
      | cons d cs => rw [List.dropWhile_cons_of_neg]; simp [ends.not_isIdentPart (c := d) rfl]
    have none : cs.takeWhile isIdentPart = [] := by
      have whole := List.takeWhile_append_dropWhile (p := isIdentPart) (l := cs)
      rw [stop] at whole
      exact List.append_left_eq_self.1 whole
    have rest : (w ++ cs).dropWhile isIdentPart = cs := by
      rw [List.dropWhile_append_of_pos parts, stop]
    have here : (w ++ cs).takeWhile isIdentPart = w := by
      rw [List.takeWhile_append_of_pos parts, none, List.append_nil]
    rw [identifier?.word?, List.cons_append, wordRest?, if_pos start, Option.map_some,
      take_length_sub_dropWhile, here, rest]

/-! ## Spelling -/

/-- An identifier as the lexer reads it. -/
def Spelled (name : String) : Prop := identifier? name.toList = some (name, [])

instance (name : String) : Decidable (Spelled name) := inferInstanceAs (Decidable (_ = _))

/-- A word is not raw: its second character is no number sign. -/
theorem identifier?_of_isWord {w : List Char} (word : isWord w = true) (cs : List Char) (ends : Ends cs) :
    identifier? (w ++ cs) = some (String.ofList w, cs) := by
  rw [← word?_of_isWord word ends]
  unfold identifier?
  split
  · rename_i rest same
    -- the second character would be part of a word or end it
    obtain _ | ⟨c, _ | ⟨d, w⟩⟩ := w
    · cases word
    · obtain ⟨rfl, rfl⟩ := List.cons.inj same
      exact absurd (ends '#' rfl) (by decide)
    · obtain ⟨-, same⟩ := List.cons.inj same
      obtain ⟨rfl, -⟩ := List.cons.inj same
      exact absurd (isIdentPart_of_isWord word (List.mem_cons_of_mem _ List.mem_cons_self)) (by decide)
  · rfl

theorem identifier?_raw {w : List Char} (word : isWord w = true)
    (allowed : neverRaw.contains (String.ofList w) = false) (cs : List Char) (ends : Ends cs) :
    identifier? ('r' :: '#' :: (w ++ cs)) = some (String.ofList ('r' :: '#' :: w), cs) := by
  simp only [identifier?, word?_of_isWord word ends, Option.bind_eq_bind, Option.bind_some, allowed,
    Bool.false_eq_true, if_false, Option.some.injEq, Prod.mk.injEq, and_true]
  rw [← String.toList_inj]
  simp

/-- A word, or a word behind `r#` that may be raw. -/
theorem spelled_cases {cs rest : List Char} {name : String} (h : identifier? cs = some (name, rest)) :
    isWord name.toList = true ∨
      ∃ w, name = String.ofList ('r' :: '#' :: w) ∧ isWord w = true ∧ neverRaw.contains (String.ofList w) = false := by
  unfold identifier? at h
  split at h
  · obtain ⟨⟨word, after⟩, found, made⟩ := Option.bind_eq_some_iff.1 h
    dsimp only at made
    split at made
    · cases made
    · rename_i allowed
      cases made
      refine .inr ⟨word.toList, ?_, isWord_of_word? found, ?_⟩
      · rw [← String.toList_inj]
        simp
      · rw [String.ofList_toList]
        exact Bool.eq_false_iff.2 allowed
  · exact .inl (isWord_of_word? h)

theorem spelled_of_isWord {name : String} (h : isWord name.toList = true) : Spelled name := by
  have read := identifier?_of_isWord h [] ends_nil
  rwa [List.append_nil, String.ofList_toList] at read

theorem spelled_of_identifier? {cs rest : List Char} {name : String}
    (h : identifier? cs = some (name, rest)) : Spelled name := by
  rcases spelled_cases h with word | ⟨w, rfl, word, allowed⟩
  · exact spelled_of_isWord word
  · have read := identifier?_raw word allowed [] ends_nil
    rw [List.append_nil] at read
    rw [Spelled, String.toList_ofList]
    exact read

theorem isIdentifier_of_identifier? {cs rest : List Char} {name : String}
    (h : identifier? cs = some (name, rest)) : isIdentifier name = true := by
  rcases spelled_cases h with word | ⟨w, rfl, word, -⟩
  · rw [isIdentifier, word, Bool.true_or]
  · simp [isIdentifier, word]

/-- An identifier in front of what may follow it. -/
theorem identifier?_of_spelled {name : String} (h : Spelled name) {cs : List Char} (ends : Ends cs) :
    identifier? (name.toList ++ cs) = some (name, cs) := by
  rcases spelled_cases h with word | ⟨w, rfl, word, allowed⟩
  · rw [identifier?_of_isWord word cs ends, String.ofList_toList]
  · rw [String.toList_ofList]
    exact identifier?_raw word allowed cs ends

/-! ## The identifiers of a text -/

theorem identifier?_of_leaf? {cs rest : List Char} {name : String} (h : leaf? cs = some (.ident name, rest)) :
    identifier? cs = some (name, rest) := by
  unfold leaf? at h
  split at h
  · cases h
  · split at h
    · rename_i mark
      cases h
      unfold mark? at mark
      split at mark
      · split at mark
        · cases mark
        · cases (Option.ite_none_left_eq_some.1 mark).2
      · split at mark
        · cases mark
        · cases mark
      · cases mark
    · split at h
      · cases h
      · split at h
        · cases h
        · obtain ⟨⟨word, after⟩, found, made⟩ := Option.map_eq_some_iff.1 h
          cases made
          exact found

theorem identifier?_of_docComment? {cs rest : List Char} {ts : List Token} {name : String}
    (h : docComment? cs = some (ts, rest)) (mem : .ident name ∈ ts) :
    ∃ cs rest, identifier? cs = some (name, rest) := by
  have doc : name = "doc" := by
    unfold docComment? at h
    split at h
    · split at h
      · cases h
        split at mem <;> simpa [group] using mem
      · cases h
    · cases h
  rw [doc]
  exact ⟨"doc".toList, [], by decide⟩

theorem identifier?_of_leafThen {next : List Char → Option (List Token)} {cs : List Char} {ts : List Token}
    {name : String}
    (later : ∀ rest ts', next rest = some ts' → .ident name ∈ ts' → ∃ cs rest, identifier? cs = some (name, rest))
    (h : leafThen next cs = some ts) (mem : .ident name ∈ ts) : ∃ cs rest, identifier? cs = some (name, rest) := by
  unfold leafThen at h
  split at h
  · rename_i t rest leaf
    obtain ⟨ts', read, rfl⟩ := Option.map_eq_some_iff.1 h
    rcases List.mem_cons.1 mem with rfl | mem
    · exact ⟨_, _, identifier?_of_leaf? leaf⟩
    · exact later rest ts' read mem
  · cases h

/-- The identifiers among the tokens of a text. -/
theorem identifier?_of_mem_lexLoop {fuel : Nat} {stack : List Delimiter} {cs : List Char} {ts : List Token}
    {name : String} (h : lexLoop fuel stack cs = some ts) (mem : .ident name ∈ ts) :
    ∃ cs rest, identifier? cs = some (name, rest) := by
  induction fuel generalizing stack cs ts with
  | zero => cases h
  | succ fuel ih =>
    have bracket {t : Token} {stack : List Delimiter} {rest : List Char} (other : ∀ n, t ≠ .ident n)
        (h : (lexLoop fuel stack rest).map (t :: ·) = some ts) : ∃ cs rest, identifier? cs = some (name, rest) := by
      obtain ⟨ts', read, rfl⟩ := Option.map_eq_some_iff.1 h
      rcases List.mem_cons.1 mem with same | mem
      · exact absurd same.symm (other name)
      · exact ih read mem
    simp only [lexLoop] at h
    split at h
    · rename_i doc
      obtain ⟨ts', read, rfl⟩ := Option.map_eq_some_iff.1 h
      rcases List.mem_append.1 mem with here | later
      · exact identifier?_of_docComment? doc here
      · exact ih read later
    · split at h
      · split at h
        · cases h
          cases mem
        · cases h
      · split at h
        · split at h
          · exact identifier?_of_leafThen (fun _ _ read later => ih read later) h mem
          · exact bracket (by simp) h
        · split at h
          · split at h
            · exact bracket (by simp) h
            · cases h
          · cases h
        · exact identifier?_of_leafThen (fun _ _ read later => ih read later) h mem

theorem isIdentifier_of_ofFile? {text : String} {ts : List Token} {name : String}
    (h : ofFile? text = some ts) (mem : .ident name ∈ ts) : isIdentifier name = true := by
  obtain ⟨cs, rest, read⟩ := identifier?_of_mem_lexLoop h mem
  exact isIdentifier_of_identifier? read

theorem spelled_of_ofFile? {text : String} {ts : List Token} {name : String}
    (h : ofFile? text = some ts) (mem : .ident name ∈ ts) : Spelled name := by
  obtain ⟨cs, rest, read⟩ := identifier?_of_mem_lexLoop h mem
  exact spelled_of_identifier? read

end Token

end LiveSettings
