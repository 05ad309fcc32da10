/-!
# Maps from texts

A map is a list of entries in increasing order of their keys, so that two maps with the same entries are the
same list.

Results: `find?_insert`, `find?_erase` (one equation per operation), `sorted_insert`, `sorted_erase`,
`sorted_ofList` (every operation keeps the order), `eq_of_find?` (a map is determined by what it answers).
-/

namespace LiveSettings

/-- Entries in increasing order of their keys. -/
structure KeyMap (α : Type) where
  entries : List (String × α)
  deriving Repr, DecidableEq

namespace KeyMap

variable {α : Type}

instance : Inhabited (KeyMap α) := ⟨⟨[]⟩⟩

def empty : KeyMap α := ⟨[]⟩

def keys (m : KeyMap α) : List String := m.entries.map (·.1)

def size (m : KeyMap α) : Nat := m.entries.length

/-- The value in a list of entries. -/
def lookup (key : String) : List (String × α) → Option α
  | [] => none
  | (k, v) :: rest => if k == key then some v else lookup key rest

def find? (m : KeyMap α) (key : String) : Option α := lookup key m.entries

def contains (m : KeyMap α) (key : String) : Bool := (m.find? key).isSome

/-- Puts an entry in its place, over an entry with the same key. -/
def insertEntry (key : String) (value : α) : List (String × α) → List (String × α)
  | [] => [(key, value)]
  | (k, v) :: rest =>
    if key < k then (key, value) :: (k, v) :: rest
    else if k == key then (key, value) :: rest
    else (k, v) :: insertEntry key value rest

def insert (m : KeyMap α) (key : String) (value : α) : KeyMap α := ⟨insertEntry key value m.entries⟩

def erase (m : KeyMap α) (key : String) : KeyMap α := ⟨m.entries.filter (·.1 != key)⟩

/-- The map of a list of entries, in which the last entry of a key counts. -/
def ofList (entries : List (String × α)) : KeyMap α :=
  entries.foldl (fun m (k, v) => m.insert k v) empty

/-- The keys increase. -/
def Sorted (m : KeyMap α) : Prop := m.entries.Pairwise (·.1 < ·.1)

@[simp]
theorem find?_empty (key : String) : (empty : KeyMap α).find? key = none := rfl

theorem lookup_insertEntry (key other : String) (value : α) (es : List (String × α)) :
    lookup other (insertEntry key value es) = if key == other then some value else lookup other es := by
  induction es with
  | nil => simp [insertEntry, lookup]
  | cons e es ih =>
    obtain ⟨k, v⟩ := e
    simp only [insertEntry]
    split
    · simp [lookup]
    · split
      · simp_all [lookup]
      · simp only [lookup, ih, beq_iff_eq] at *
        grind

@[simp]
theorem find?_insert (m : KeyMap α) (key other : String) (value : α) :
    (m.insert key value).find? other = if key == other then some value else m.find? other :=
  lookup_insertEntry key other value m.entries

theorem lookup_filter (key other : String) (es : List (String × α)) :
    lookup other (es.filter (·.1 != key)) = if key == other then none else lookup other es := by
  induction es with
  | nil => simp [lookup]
  | cons e es ih =>
    obtain ⟨k, v⟩ := e
    by_cases h : k = key <;> by_cases h' : k = other <;> simp_all [lookup]
    grind

@[simp]
theorem find?_erase (m : KeyMap α) (key other : String) :
    (m.erase key).find? other = if key == other then none else m.find? other :=
  lookup_filter key other m.entries

/-- Taking away a key that is not there leaves a map. -/
theorem erase_of_not_contains {m : KeyMap α} {key : String} (h : m.contains key = false) : m.erase key = m := by
  have absent {es : List (String × α)} (missing : lookup key es = none) : ∀ e ∈ es, e.1 ≠ key := by
    induction es with
    | nil => exact nofun
    | cons e es ih =>
      obtain ⟨k, v⟩ := e
      simp only [lookup] at missing
      split at missing
      · cases missing
      · rename_i other
        intro e mem
        rcases List.mem_cons.1 mem with rfl | mem
        · simpa using other
        · exact ih missing e mem
  have missing : lookup key m.entries = none := by simpa [contains, find?] using h
  exact congrArg KeyMap.mk (List.filter_eq_self.2 fun e mem => by simpa using absent missing e mem)

theorem mem_insertEntry {key : String} {value : α} {es : List (String × α)} {e : String × α}
    (h : e ∈ insertEntry key value es) : e = (key, value) ∨ e ∈ es := by
  induction es with
  | nil => simpa [insertEntry] using h
  | cons d es ih =>
    obtain ⟨k, v⟩ := d
    simp only [insertEntry] at h
    split at h
    · simpa using h
    · split at h
      · simp only [List.mem_cons] at h ⊢
        grind
      · simp only [List.mem_cons] at h ⊢
        grind

theorem pairwise_insertEntry (key : String) (value : α) (es : List (String × α))
    (h : es.Pairwise (·.1 < ·.1)) : (insertEntry key value es).Pairwise (·.1 < ·.1) := by
  induction es with
  | nil => simp [insertEntry]
  | cons e es ih =>
    obtain ⟨k, v⟩ := e
    obtain ⟨above, rest⟩ := List.pairwise_cons.1 h
    simp only [insertEntry]
    split
    · rename_i lt
      refine List.pairwise_cons.2 ⟨fun d hd => ?_, h⟩
      cases List.mem_cons.1 hd with
      | inl eq => subst eq; exact lt
      | inr hd => exact String.lt_trans lt (above d hd)
    · split
      · rename_i _ eq
        have eq : k = key := by simpa using eq
        exact List.pairwise_cons.2 ⟨eq ▸ above, rest⟩
      · rename_i nlt ne
        have ne : k ≠ key := by simpa using ne
        refine List.pairwise_cons.2 ⟨fun d hd => ?_, ih rest⟩
        cases mem_insertEntry hd with
        | inl eq =>
          subst eq
          have le : k ≤ key := String.not_lt.1 nlt
          exact String.not_le.1 fun ge => ne (String.le_antisymm le ge)
        | inr hd => exact above d hd

theorem sorted_insert {m : KeyMap α} (key : String) (value : α) (h : m.Sorted) :
    (m.insert key value).Sorted :=
  pairwise_insertEntry key value m.entries h

theorem sorted_erase {m : KeyMap α} (key : String) (h : m.Sorted) : (m.erase key).Sorted :=
  List.Pairwise.filter _ h

theorem sorted_empty : (empty : KeyMap α).Sorted := List.Pairwise.nil

theorem sorted_ofList (entries : List (String × α)) : (ofList entries).Sorted := by
  have step (es : List (String × α)) (m : KeyMap α) (h : m.Sorted) :
      (es.foldl (fun m (k, v) => m.insert k v) m).Sorted := by
    induction es generalizing m with
    | nil => exact h
    | cons e es ih => exact ih _ (sorted_insert _ _ h)
  exact step entries empty sorted_empty

theorem lookup_eq_none_of_lt {key : String} {es : List (String × α)} (h : ∀ e ∈ es, key < e.1) :
    lookup key es = none := by
  induction es with
  | nil => rfl
  | cons e es ih =>
    have ne : e.1 ≠ key := fun eq => String.lt_irrefl key (eq ▸ h e List.mem_cons_self)
    simp [lookup, ne, ih fun d hd => h d (List.mem_cons_of_mem _ hd)]

/-- The first keys of two sorted lists that answer alike are not one before the other. -/
theorem not_lt_of_lookup_eq {k l : String} {v w : α} {es fs : List (String × α)}
    (above : ∀ e ∈ fs, l < e.1) (h : lookup k ((k, v) :: es) = lookup k ((l, w) :: fs)) : ¬ k < l := by
  intro lt
  have missing : lookup k ((l, w) :: fs) = none :=
    lookup_eq_none_of_lt fun e he => by
      cases List.mem_cons.1 he with
      | inl eq => exact eq ▸ lt
      | inr he => exact String.lt_trans lt (above e he)
  rw [missing] at h
  simp [lookup] at h

theorem eq_of_lookup {es fs : List (String × α)} (hes : es.Pairwise (·.1 < ·.1))
    (hfs : fs.Pairwise (·.1 < ·.1)) (h : ∀ key, lookup key es = lookup key fs) : es = fs := by
  induction es generalizing fs with
  | nil =>
    cases fs with
    | nil => rfl
    | cons f fs => simpa [lookup] using h f.1
  | cons e es ih =>
    cases fs with
    | nil => simpa [lookup] using h e.1
    | cons f fs =>
      obtain ⟨k, v⟩ := e
      obtain ⟨l, w⟩ := f
      obtain ⟨aboveK, sortedEs⟩ := List.pairwise_cons.1 hes
      obtain ⟨aboveL, sortedFs⟩ := List.pairwise_cons.1 hfs
      have eq : k = l :=
        String.le_antisymm (String.not_lt.1 (not_lt_of_lookup_eq aboveK (h l).symm))
          (String.not_lt.1 (not_lt_of_lookup_eq aboveL (h k)))
      subst eq
      have value : v = w := by simpa [lookup] using h k
      have rest : es = fs := by
        refine ih sortedEs sortedFs fun key => ?_
        by_cases e : k = key
        · subst e
          rw [lookup_eq_none_of_lt aboveK, lookup_eq_none_of_lt aboveL]
        · simpa [lookup, e] using h key
      rw [value, rest]

theorem eq_of_find? {m n : KeyMap α} (hm : m.Sorted) (hn : n.Sorted) (h : ∀ key, m.find? key = n.find? key) :
    m = n := by
  cases m
  cases n
  exact congrArg KeyMap.mk (eq_of_lookup hm hn h)

end KeyMap

end LiveSettings
