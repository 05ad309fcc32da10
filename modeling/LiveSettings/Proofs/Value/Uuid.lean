import LiveSettings.Value.Uuid

/-!
# The text of an identifier

Results: `ofText?_text` (an identifier is read back from its five groups).
-/

namespace LiveSettings.Uuid

theorem exists_digitChar (n : Nat) : ∀ c ∈ Nat.toDigits 16 n, ∃ d < 16, c = Nat.digitChar d := by
  induction n using Nat.strongRecOn with
  | ind n ih =>
    intro c hc
    rw [Nat.toDigits_eq_if (by decide)] at hc
    split at hc
    · rename_i lt
      exact ⟨n, lt, by simpa using hc⟩
    · rcases List.mem_append.1 hc with hc | hc
      · exact ih (n / 16) (Nat.div_lt_self (by omega) (by decide)) c hc
      · exact ⟨n % 16, Nat.mod_lt _ (by decide), by simpa using hc⟩

theorem exists_digit (u : Uuid) : ∀ c ∈ u.digits, ∃ d < 16, c = Nat.digitChar d := by
  intro c hc
  rcases List.mem_append.1 hc with hc | hc
  · exact ⟨0, by decide, (List.mem_replicate.1 hc).2⟩
  · exact exists_digitChar _ c hc

theorem length_digits (u : Uuid) : u.digits.length = 32 := by
  have := (@Nat.length_toDigits_le_iff 16 u.bits.val 32 (by decide) (by decide)).2
    (Nat.lt_of_lt_of_eq u.bits.isLt (by decide))
  simp only [digits, List.length_append, List.length_replicate]
  omega

/-! ## The number of the digits -/

theorem hexNumber?_append (n : Nat) (cs ds : List Char) :
    hexNumber? n (cs ++ ds) = (hexNumber? n cs).bind fun m => hexNumber? m ds := by
  induction cs generalizing n with
  | nil => rfl
  | cons c cs ih =>
    simp only [List.cons_append, hexNumber?]
    cases hexValue? c with
    | none => rfl
    | some d => exact ih _

theorem hexValue?_digitChar : ∀ d < 16, hexValue? (Nat.digitChar d) = some d := by decide

theorem hexNumber?_toDigits (n : Nat) : hexNumber? 0 (Nat.toDigits 16 n) = some n := by
  induction n using Nat.strongRecOn with
  | ind n ih =>
    rw [Nat.toDigits_eq_if (by decide)]
    split
    · rename_i lt
      simp [hexNumber?, hexValue?_digitChar n lt]
    · rw [hexNumber?_append, ih (n / 16) (Nat.div_lt_self (by omega) (by decide))]
      simp only [Option.bind_some, hexNumber?, hexValue?_digitChar (n % 16) (Nat.mod_lt _ (by decide))]
      congr 1
      omega

theorem hexNumber?_zeros (k : Nat) (cs : List Char) :
    hexNumber? 0 (List.replicate k '0' ++ cs) = hexNumber? 0 cs := by
  induction k with
  | zero => rfl
  | succ k ih => simpa [List.replicate_succ, hexNumber?, hexValue?] using ih

theorem ofDigits?_digits (u : Uuid) : ofDigits? u.digits = some u := by
  have read : hexNumber? 0 u.digits = some u.bits.val := by
    rw [digits, hexNumber?_zeros, hexNumber?_toDigits]
  simp [ofDigits?, length_digits, read]

/-! ## The groups -/

/-- The characters of the text. -/
def groups (ds : List Char) : List Char :=
  ds.take 8 ++ '-' :: ((ds.drop 8).take 4 ++ '-' :: ((ds.drop 12).take 4 ++ '-' ::
    ((ds.drop 16).take 4 ++ '-' :: (ds.drop 20).take 12)))

theorem toList_text (u : Uuid) : u.text.toList = groups u.digits := by
  simp [text, groups]

theorem filter_groups {ds : List Char} (hl : ds.length = 32) (h : ∀ c ∈ ds, c ≠ '-') :
    (groups ds).filter (· != '-') = ds := by
  have keep (cs : List Char) (sub : ∀ c ∈ cs, c ∈ ds) : cs.filter (· != '-') = cs :=
    List.filter_eq_self.2 fun c hc => by simpa using h c (sub c hc)
  have part (n k : Nat) : ((ds.drop n).take k).filter (· != '-') = (ds.drop n).take k :=
    keep _ fun c hc => List.mem_of_mem_drop (List.mem_of_mem_take hc)
  have glue (n k : Nat) : (ds.drop n).take k ++ ds.drop (n + k) = ds.drop n := by
    rw [← List.drop_drop, List.take_append_drop]
  have all : ds.take 8 ++ ds.drop 8 = ds := List.take_append_drop 8 ds
  have last : (ds.drop 20).take 12 = ds.drop 20 := List.take_of_length_le (by simp [hl])
  have g8 := glue 8 4
  have g12 := glue 12 4
  have g16 := glue 16 4
  simp only [Nat.reduceAdd] at g8 g12 g16
  simp [groups, List.filter_append, part, keep (ds.take 8) fun c => List.mem_of_mem_take,
    keep (ds.drop 20) fun c => List.mem_of_mem_drop, last, g8, g12, g16, all]

theorem ofGroups?_groups (u : Uuid) : ofGroups? (groups u.digits) = some u := by
  have hl := length_digits u
  have plain : ∀ c ∈ u.digits, c ≠ '-' := by
    intro c hc
    obtain ⟨d, lt, rfl⟩ := exists_digit u c hc
    exact (by decide : ∀ d < 16, Nat.digitChar d ≠ '-') d lt
  have shape : ((groups u.digits).length == 36 && (groups u.digits)[8]? == some '-' &&
      (groups u.digits)[13]? == some '-' && (groups u.digits)[18]? == some '-' &&
      (groups u.digits)[23]? == some '-') = true := by
    simp [groups, hl]
  rw [ofGroups?]
  simp only [shape, if_true, filter_groups hl plain]
  exact ofDigits?_digits u

theorem ofText?_text (u : Uuid) : ofText? u.text = some u := by
  have hl := length_digits u
  obtain ⟨c, cs, hc⟩ : ∃ c cs, u.digits = c :: cs := List.exists_cons_of_length_pos (by omega)
  obtain ⟨d, lt, hd⟩ := exists_digit u c (by simp [hc])
  obtain ⟨rest, hrest⟩ : ∃ rest, groups u.digits = c :: rest := ⟨_, by simp [groups, hc]; rfl⟩
  have brace : c ≠ '\x7b' := hd ▸ (by decide : ∀ d < 16, Nat.digitChar d ≠ '\x7b') d lt
  have word : c.toLower ≠ 'u' := hd ▸ (by decide : ∀ d < 16, (Nat.digitChar d).toLower ≠ 'u') d lt
  have long : (groups u.digits).length = 36 := by simp [groups, hl]
  have noWord : ((groups u.digits).take 9).map Char.toLower ≠ "urn:uuid:".toList := by
    rw [hrest]
    simp [word]
  rw [ofText?, toList_text]
  split
  · rename_i e
    exact absurd (List.cons.inj (hrest ▸ e)).1 brace
  · simp only [beq_iff_eq, noWord, if_false, long]
    exact ofGroups?_groups u

end LiveSettings.Uuid
