import LiveSettings.Proofs.Files.Replacement
import LiveSettings.Proofs.Value.RoundTrip
import LiveSettings.Store

/-!
# The document of a file store

Results:
* `FileStore.ofText?_document`: entries whose values survive are read back from their document, compact or
  with lines.
* `FileStore.readText_of_save`: a save that succeeds leaves the document at the path.
* `FileStore.openOn_of_save`: opening the path after it gives the entries.
-/

namespace LiveSettings

theorem Text.trimBlanks_ne_empty {s : String} {c : Char} {cs : List Char} (hs : s.toList = c :: cs)
    (hc : isBlank c = false) : (trimBlanks s).isEmpty = false := by
  have front : s.toList.dropWhile isBlank = c :: cs := by
    rw [hs]
    exact List.dropWhile_cons_of_neg (by simp [hc])
  have stays : (c :: cs).reverse.dropWhile isBlank ≠ [] := by
    rw [List.reverse_cons, List.dropWhile_append]
    split <;> simp [hc]
  rw [trimBlanks, front]
  simpa using stays

namespace KeyMap

variable {α : Type}

theorem lookup_foldl_insert (es : List (String × α)) (h : es.Pairwise (·.1 < ·.1)) (m : KeyMap α)
    (key : String) :
    (es.foldl (fun m (k, v) => m.insert k v) m).find? key = (lookup key es <|> m.find? key) := by
  induction es generalizing m with
  | nil => simp [lookup]
  | cons e es ih =>
    obtain ⟨k, v⟩ := e
    obtain ⟨above, rest⟩ := List.pairwise_cons.1 h
    simp only [List.foldl_cons, ih rest, find?_insert, lookup]
    by_cases same : k = key
    · subst same
      simp [lookup_eq_none_of_lt above]
    · simp [same]

/-- A map is the map of its entries. -/
theorem ofList_entries {m : KeyMap α} (h : m.Sorted) : ofList m.entries = m := by
  refine eq_of_find? (sorted_ofList _) h fun key => ?_
  rw [ofList, lookup_foldl_insert m.entries h, find?_empty]
  simp [find?]

end KeyMap

namespace FileStore

/-- Every value survives its text. -/
def Survive (entries : KeyMap SettingValue) : Prop := ∀ e ∈ entries.entries, e.2.Survives

theorem survive_empty : Survive .empty := by
  intro e he
  cases he

theorem survive_insert {entries : KeyMap SettingValue} (h : Survive entries) (key : String)
    {v : SettingValue} (hv : v.Survives) : Survive (entries.insert key v) := by
  intro e he
  rcases KeyMap.mem_insertEntry he with rfl | old
  · exact hv
  · exact h e old

theorem survive_erase {entries : KeyMap SettingValue} (h : Survive entries) (key : String) :
    Survive (entries.erase key) :=
  fun e he => h e (List.mem_filter.1 he).1

/-! ## Reading the document -/

theorem decode_members {es : List (String × SettingValue)} (h : ∀ e ∈ es, e.2.Survives) :
    (Json.rereadMembers (es.map fun (k, v) => (k, v.toJson))).mapM
      (fun ((k, j) : String × Json) => (SettingValue.ofJson? 1 j).map fun v => (k, v)) = some es := by
  induction es with
  | nil => rfl
  | cons e es ih =>
    obtain ⟨k, v⟩ := e
    have first : SettingValue.ofJson? 1 v.toJson.reread = some v :=
      SettingValue.ofJson?_reread (h _ List.mem_cons_self) (by decide)
    have rest := ih fun e he => h e (List.mem_cons_of_mem _ he)
    simp only [List.map_cons, Json.rereadMembers, List.mapM_cons, first, rest, Option.map_some]
    rfl

theorem ofDocument?_reread {entries : KeyMap SettingValue} (sorted : entries.Sorted)
    (survive : Survive entries) : ofDocument? (toJson entries).reread = some entries := by
  simp only [toJson, Json.reread, ofDocument?, decode_members survive, Option.map_some]
  rw [KeyMap.ofList_entries sorted]

theorem exists_document (s : FileStore) : ∃ cs, s.document.toList = '\x7b' :: cs := by
  unfold document toJson
  split
  · exact ⟨_, String.toList_ofList⟩
  · exact ⟨_, String.toList_ofList⟩

theorem ofText?_of_brace {text : String} {cs : List Char} (h : text.toList = '\x7b' :: cs) :
    ofText? text = (Json.ofText? text).bind ofDocument? := by
  rw [ofText?, Text.trimBlanks_ne_empty h (by decide)]
  rfl

/-- Entries whose values survive are read back from their document. -/
theorem ofText?_document {s : FileStore} (sorted : s.entries.Sorted) (survive : Survive s.entries) :
    ofText? s.document = some s.entries := by
  obtain ⟨cs, brace⟩ := exists_document s
  have read : Json.ofText? s.document = some (toJson s.entries).reread := by
    unfold document
    split
    · exact Json.ofText?_renderPretty _
    · exact Json.ofText?_render _
  rw [ofText?_of_brace brace, read, Option.bind_some]
  exact ofDocument?_reread sorted survive

/-! ## Saving and opening -/

/-- A save that succeeds leaves the document at the path. -/
theorem readText_of_save {s : FileStore} {d d' : Disk} (h : s.save d = (d', .ok ())) :
    d'.readText s.config.path = .ok s.document := by
  simp only [save] at h
  split at h
  · cases h
  · rename_i d₀ prepared
    split at h
    · cases h
    · rename_i d₁ written
      split at h
      · cases h
      · rename_i d₂ moved
        cases h
        have text : String.fromUTF8? s.document.toUTF8 = some s.document :=
          dif_pos s.document.isValidUTF8
        simp only [Disk.readText, Disk.read_of_replace written moved, text]

/-- Opening the path after a save gives the entries, however the document is laid out. -/
theorem openOn_of_save {s : FileStore} {d d' : Disk} (sorted : s.entries.Sorted)
    (survive : Survive s.entries) (h : s.save d = (d', .ok ())) {config : FileConfig}
    (hp : config.path = s.config.path) : openOn config d' = .ok ⟨config, s.entries⟩ := by
  simp only [openOn, hp, readText_of_save h, ofText?_document sorted survive]

/-- Opening a path where nothing is gives no entries. -/
theorem openOn_of_missing {config : FileConfig} {d : Disk} (h : d.readText config.path = .error .notFound) :
    openOn config d = .ok ⟨config, .empty⟩ := by
  simp only [openOn, h]

end FileStore

end LiveSettings
