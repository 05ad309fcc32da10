import LiveSettings.Proofs.Command.Output
import Mathlib.Data.List.Count
import Mathlib.Data.List.Induction

/-!
# The module of a file and how its path is written

A dot, or a name that is left again at once, does not change the file that a path means. Whether a file lies
below a root is told from the components as they are written, and the names among what is left are taken as they
stand. So the module comes out right where the file is written with the root in front and no parent behind it,
and else only for a file right in the root. In every other writing the file counts as one outside the root, or a
directory that is left again counts as a module.

Results:
* `direct_current`, `direct_detour`: the direct way skips dots and detours.
* `length_names_direct`: each detour that is cut takes one name.
* `modulePath_eq_iff`: the writings for which the module of a file comes out right.
* `modulePath_ne_of_detour`: writings of one file with three different modules.
-/

namespace LiveSettings

namespace FilePath

/-! ## The direct way -/

/-- A way with one more component: a dot stays, and a parent leaves the directory entered last. -/
def follow (way : List Component) : Component → List Component
  | .current => way
  | .parent =>
    match way.getLast? with
    | some (.normal _) => way.dropLast
    | _ => way ++ [.parent]
  | .root => way ++ [.root]
  | .normal name => way ++ [.normal name]

/-- The way without dots and without directories that are left again. -/
def direct (cs : List Component) : List Component := cs.foldl follow []

theorem direct_append (cs more : List Component) : direct (cs ++ more) = more.foldl follow (direct cs) :=
  List.foldl_append

theorem direct_concat (cs : List Component) (c : Component) : direct (cs ++ [c]) = follow (direct cs) c :=
  direct_append cs [c]

theorem follow_detour (way : List Component) (name : String) : follow (follow way (.normal name)) .parent = way := by
  simp [follow]

theorem direct_current (cs more : List Component) : direct (cs ++ .current :: more) = direct (cs ++ more) := by
  rw [direct_append, direct_append, List.foldl_cons, follow]

theorem direct_detour (cs more : List Component) (name : String) :
    direct (cs ++ .normal name :: .parent :: more) = direct (cs ++ more) := by
  rw [direct_append, direct_append, List.foldl_cons, List.foldl_cons, follow_detour]

/-- Where nothing is left again, the direct way goes on as it is written, but for dots. -/
theorem direct_append_of_not_mem {more : List Component} (h : .parent ∉ more) (cs : List Component) :
    direct (cs ++ more) = direct cs ++ more.filter (· ≠ .current) := by
  induction more generalizing cs with
  | nil => simp
  | cons c more ih =>
    have later := ih (fun mem => h (List.mem_cons_of_mem c mem)) (cs ++ [c])
    rw [List.append_assoc, List.singleton_append, direct_concat] at later
    rw [later]
    cases c with
    | parent => exact absurd List.mem_cons_self h
    | current => simp [follow]
    | root => simp [follow]
    | normal name => simp [follow]

/-! ## Names on the way -/

theorem names_append (cs more : List Component) : names (cs ++ more) = names cs ++ names more :=
  List.filterMap_append

theorem names_map_normal (segments : List String) : names (segments.map .normal) = segments := by
  simp [names, List.filterMap_map]

theorem names_filter_current (cs : List Component) : names (cs.filter (· ≠ .current)) = names cs := by
  induction cs with
  | nil => rfl
  | cons c cs ih => cases c <;> simp_all [names]

/-- What one component does to the number of names and of parents. -/
theorem length_names_follow (way : List Component) (c : Component) :
    (names (follow way c)).length + way.count .parent + [c].count .parent =
      (names way).length + (names [c]).length + (follow way c).count .parent := by
  cases c with
  | current => simp [follow, names]
  | root => simp [follow, names]
  | normal name => simp [follow, names, Nat.add_right_comm]
  | parent =>
    rcases way.eq_nil_or_concat' with rfl | ⟨front, last, rfl⟩
    · simp [follow, names]
    · cases last <;> simp [follow, names] <;> omega

/-- Each detour that is cut takes one name: what the direct way has fewer parents, it has fewer names. -/
theorem length_names_direct (cs : List Component) :
    (names (direct cs)).length + cs.count .parent = (names cs).length + (direct cs).count .parent := by
  induction cs using List.reverseRecOn with
  | nil => rfl
  | append_singleton cs c ih =>
    have step := length_names_follow (direct cs) c
    rw [direct_concat, names_append, List.length_append, List.count_append]
    omega

theorem length_names_direct_le (cs : List Component) : (names (direct cs)).length ≤ (names cs).length := by
  induction cs using List.reverseRecOn with
  | nil => exact Nat.le_refl 0
  | append_singleton cs c ih =>
    have step : (names (follow (direct cs) c)).length ≤ (names (direct cs)).length + (names [c]).length := by
      cases c with
      | current => exact Nat.le_add_right ..
      | root => simp [follow, names]
      | normal name => simp [follow, names]
      | parent =>
        rcases (direct cs).eq_nil_or_concat' with nothing | ⟨front, last, same⟩
        · simp [follow, names, nothing]
        · cases last <;> simp [follow, names, same]
    rw [direct_concat, names_append, List.length_append]
    exact step.trans (Nat.add_le_add_right ih _)

/-- A way that is left at its end and still has a name there has been one directory further. -/
theorem length_names_of_left {cs way : List Component} {name : String}
    (h : direct (cs ++ [.parent]) = way ++ [.normal name]) : (names way).length + 2 ≤ (names cs).length := by
  have fewer := length_names_direct_le cs
  rw [direct_concat] at h
  rcases (direct cs).eq_nil_or_concat' with nothing | ⟨front, last, same⟩
  · rw [nothing] at h
    cases (List.append_inj' (h : [] ++ [_] = _) rfl).2
  · rw [same] at h fewer
    cases last with
    | normal entered =>
      simp only [follow, List.getLast?_concat, List.dropLast_concat] at h
      simpa [h, names] using fewer
    | root | current | parent =>
      simp only [follow, List.getLast?_concat] at h
      cases (List.append_inj' h rfl).2

/-- A way that goes on in names is as much longer in writing as it leaves directories again. -/
theorem length_names_of_direct {cs more : List Component} {segments : List String}
    (h : direct (cs ++ more) = direct cs ++ segments.map .normal) :
    (names more).length = segments.length + more.count .parent := by
  have whole := length_names_direct (cs ++ more)
  have front := length_names_direct cs
  have none : (segments.map Component.normal).count .parent = 0 := by
    simp [List.count_eq_zero]
  simp only [h, names_append, names_map_normal, List.length_append, List.count_append, none] at whole
  omega

/-! ## Components as they are written -/

/-- A dot is a component only at the very front. -/
theorem not_mem_tail_components (p : FilePath) : .current ∉ p.components.tail := by
  have later {pieces : List (List Char)} : .current ∉ pieces.map ofPiece := by
    intro mem
    obtain ⟨piece, -, same⟩ := List.mem_map.1 mem
    unfold ofPiece at same
    split at same <;> cases same
  unfold components
  split
  · simp
  · dsimp only
    split_ifs
    · exact fun mem => later (List.mem_of_mem_tail mem)
    · exact later
    · exact later
    · exact later

theorem stripPrefix?_eq_some_iff {front cs rest : List Component} :
    stripPrefix? front cs = some rest ↔ cs = front ++ rest := by
  induction front generalizing cs with
  | nil => simp [stripPrefix?, eq_comm]
  | cons c front ih =>
    cases cs with
    | nil => simp [stripPrefix?]
    | cons d cs => by_cases same : c = d <;> simp [stripPrefix?, same, ih, eq_comm]

theorem stripPrefix?_eq_none_iff {front cs : List Component} :
    stripPrefix? front cs = none ↔ ¬ front <+: cs := by
  rw [Option.eq_none_iff_forall_ne_some]
  exact ⟨fun none ⟨rest, same⟩ => none rest (stripPrefix?_eq_some_iff.2 same.symm),
    fun outside rest found => outside ⟨rest, (stripPrefix?_eq_some_iff.1 found).symm⟩⟩

/-! ## The module of a file -/

/-- The module of a file with a name in directories below the root. -/
def moduleOf (dirs : List String) (name : String) : List String :=
  dirs ++ if directoryStems.contains (stem name) then [] else [stem name]

theorem length_moduleOf_le (dirs : List String) (name : String) : (moduleOf dirs name).length ≤ dirs.length + 1 := by
  unfold moduleOf
  split <;> simp

theorem moduleOf_inj {dirs dirs' : List String} {name : String} :
    moduleOf dirs name = moduleOf dirs' name ↔ dirs = dirs' :=
  List.append_left_inj _

theorem modulePath_of_concat {root file : FilePath} {front : List Component} {name : String}
    (h : relativeTo root file = front ++ [.normal name]) : modulePath root file = moduleOf (names front) name := by
  simp [modulePath, moduleOf, h]

theorem modulePath_of_nameless {root file : FilePath}
    (h : ∀ name, (relativeTo root file).getLast? ≠ some (.normal name)) :
    modulePath root file = names (relativeTo root file) := by
  rcases (relativeTo root file).eq_nil_or_concat' with nothing | ⟨front, last, same⟩
  · simp [modulePath, nothing]
  · rw [same, List.getLast?_concat] at h
    cases last with
    | normal name => exact absurd rfl (h name)
    | root => simp [modulePath, same, names]
    | current => simp [modulePath, same, names]
    | parent => simp [modulePath, same, names]

theorem relativeTo_of_append {root file : FilePath} {rest : List Component}
    (h : file.components = root.components ++ rest) : relativeTo root file = rest := by
  rw [relativeTo, stripPrefix?_eq_some_iff.2 h]

/-- Whether a file is written with a root in front and no parent behind it. -/
def WrittenBelow (root file : FilePath) : Prop :=
  ∃ rest, file.components = root.components ++ rest ∧ .parent ∉ rest

section Below

variable {root file : FilePath} {dirs : List String} {name : String}

/-- The name of a file is the last component of its direct way. -/
theorem name_eq_of_direct {front : List Component} {last : String}
    (below : direct file.components = direct root.components ++ (dirs ++ [name]).map .normal)
    (h : file.components = front ++ [.normal last]) : last = name := by
  have ends := congrArg List.getLast? below
  simp only [h, direct_concat, follow, List.map_append, List.map_singleton, ← List.append_assoc,
    List.getLast?_concat, Option.some.injEq, Component.normal.injEq] at ends
  exact ends

/-- What is written behind the root without a parent are the directories and the name. -/
theorem exists_front_of_direct {rest : List Component} (h : file.components = root.components ++ rest)
    (plain : .parent ∉ rest)
    (below : direct file.components = direct root.components ++ (dirs ++ [name]).map .normal) :
    ∃ front, rest = front ++ [.normal name] ∧ names front = dirs := by
  rw [h, direct_append_of_not_mem plain, List.append_cancel_left_eq, List.map_append, List.map_singleton] at below
  rcases rest.eq_nil_or_concat' with rfl | ⟨front, last, rfl⟩
  · simp at below
  · rw [List.filter_append] at below
    by_cases dot : last = .current
    · subst dot
      have filled : front ≠ [] := by
        rintro rfl
        simp at below
      have later : .current ∈ file.components.tail := by
        rw [h, ← List.append_assoc, List.tail_append_of_ne_nil (by simp [filled])]
        exact List.mem_append_right _ List.mem_cons_self
      exact absurd later (not_mem_tail_components file)
    · rw [List.filter_singleton, decide_eq_true dot, cond_true] at below
      obtain ⟨dirs_eq, last_eq⟩ := List.append_inj' below rfl
      cases last_eq
      refine ⟨front, rfl, ?_⟩
      rw [← names_filter_current, dirs_eq, names_map_normal]

/-- A file whose last component is no name has been one directory further before its end. -/
theorem length_names_of_fileName? (nameless : file.fileName? = none)
    (below : direct file.components = direct root.components ++ (dirs ++ [name]).map .normal) :
    dirs.length + 2 ≤ (names file.components).length := by
  rw [List.map_append, List.map_singleton, ← List.append_assoc] at below
  rcases file.components.eq_nil_or_concat' with nothing | ⟨front, last, same⟩
  · rw [nothing] at below
    simp [direct] at below
  · rw [same, direct_concat] at below
    cases last with
    | normal name => simp [fileName?, same] at nameless
    | root => cases (List.append_inj' below rfl).2
    | current =>
      have first : front = [] := by
        by_contra filled
        refine not_mem_tail_components file ?_
        rw [same, List.tail_append_of_ne_nil filled]
        exact List.mem_append_right _ List.mem_cons_self
      rw [first] at below
      simp [direct, follow] at below
    | parent =>
      have longer := length_names_of_left (direct_concat .. ▸ below)
      simp only [names_append, names_map_normal, List.length_append] at longer
      rw [same, names_append, List.length_append]
      omega

/-- If a file outside the root ends in no name, all names on its way count, and they are too many. -/
theorem modulePath_ne_of_fileName? (nameless : file.fileName? = none)
    (outside : ¬ root.components <+: file.components)
    (below : direct file.components = direct root.components ++ (dirs ++ [name]).map .normal) :
    modulePath root file ≠ moduleOf dirs name := by
  have relative : relativeTo root file = file.components := by
    rw [relativeTo, stripPrefix?_eq_none_iff.2 outside, nameless]
  have last_ne : ∀ name, (relativeTo root file).getLast? ≠ some (.normal name) := by
    intro name found
    rw [fileName?, ← relative, found] at nameless
    cases nameless
  have many := length_names_of_fileName? nameless below
  have few := length_moduleOf_le dirs name
  intro same
  rw [← same, modulePath_of_nameless last_ne, relative] at few
  omega

/-- Where the file is written with the root in front, no parent may be behind it. -/
theorem modulePath_eq_iff_of_append {rest : List Component} (h : file.components = root.components ++ rest)
    (below : direct file.components = direct root.components ++ (dirs ++ [name]).map .normal) :
    modulePath root file = moduleOf dirs name ↔ .parent ∉ rest := by
  have relative := relativeTo_of_append h
  constructor
  · intro right left
    have longer := length_names_of_direct (h ▸ below)
    have once := List.count_pos_iff.2 left
    rw [List.length_append, List.length_singleton] at longer
    by_cases named : ∃ last, rest.getLast? = some (.normal last)
    · obtain ⟨last, ends⟩ := named
      obtain ⟨front, rfl⟩ := List.getLast?_eq_some_iff.1 ends
      cases name_eq_of_direct below (h.trans (List.append_assoc ..).symm)
      rw [modulePath_of_concat relative, moduleOf_inj] at right
      rw [names_append, right, List.length_append] at longer
      simp only [names, List.filterMap_cons, List.filterMap_nil, List.length_cons, List.length_nil] at longer
      omega
    · have few := length_moduleOf_le dirs name
      rw [← right, modulePath_of_nameless (by simpa [relative] using named), relative] at few
      omega
  · intro plain
    obtain ⟨front, rfl, rfl⟩ := exists_front_of_direct h plain below
    exact modulePath_of_concat relative

/-- The module of a file comes out right just if the file is written with the root in front and no parent behind
it, or else if it lies right in the root and its name is written last. -/
theorem modulePath_eq_iff (root file : FilePath) (dirs : List String) (name : String)
    (below : direct file.components = direct root.components ++ (dirs ++ [name]).map .normal) :
    modulePath root file = moduleOf dirs name ↔
      WrittenBelow root file ∨
        ¬ root.components <+: file.components ∧ dirs = [] ∧ file.fileName? = some name := by
  by_cases inside : root.components <+: file.components
  · obtain ⟨rest, same⟩ := inside
    rw [modulePath_eq_iff_of_append same.symm below]
    constructor
    · exact fun plain => .inl ⟨rest, same.symm, plain⟩
    · rintro (⟨rest', same', plain⟩ | ⟨outside, -, -⟩)
      · rwa [List.append_cancel_left (same.trans same')]
      · exact absurd ⟨rest, same⟩ outside
  · have written : ¬ WrittenBelow root file := fun ⟨rest, same, _⟩ => inside ⟨rest, same.symm⟩
    cases found : file.fileName? with
    | none => simpa [written] using modulePath_ne_of_fileName? found inside below
    | some last =>
      obtain ⟨front, ends⟩ := List.getLast?_eq_some_iff.1 (getLast?_components_of_fileName? found)
      cases name_eq_of_direct below ends
      have alone : relativeTo root file = [] ++ [.normal name] := by
        rw [relativeTo, stripPrefix?_eq_none_iff.2 inside, found, List.nil_append]
      rw [modulePath_of_concat alone, moduleOf_inj]
      simp [written, inside, names, eq_comm]

end Below

/-- A detour in the root does no harm if the file is written with the same one. -/
theorem modulePath_eq_iff_common :
    direct (⟨"app/../src/net/./proxy.rs"⟩ : FilePath).components =
      direct (⟨"app/../src"⟩ : FilePath).components ++ (["net"] ++ ["proxy.rs"]).map .normal ∧
    modulePath ⟨"app/../src"⟩ ⟨"app/../src/net/./proxy.rs"⟩ = ["net", "proxy"] :=
  have below : direct (⟨"app/../src/net/./proxy.rs"⟩ : FilePath).components =
      direct (⟨"app/../src"⟩ : FilePath).components ++ (["net"] ++ ["proxy.rs"]).map .normal := by decide +kernel
  ⟨below, ((modulePath_eq_iff _ _ _ _ below).2 (.inl ⟨[.normal "net", .normal "proxy.rs"], by decide +kernel,
    by decide +kernel⟩)).trans (by decide +kernel)⟩

/-- Three writings of one file below `src` with three modules: as it is, with a dot in front, and by way of
another directory. -/
theorem modulePath_ne_of_detour :
    direct (⟨"./src/net/proxy.rs"⟩ : FilePath).components = direct (⟨"src/net/proxy.rs"⟩ : FilePath).components ∧
    direct (⟨"src/ui/../net/proxy.rs"⟩ : FilePath).components =
      direct (⟨"src/net/proxy.rs"⟩ : FilePath).components ∧
    modulePath ⟨"src"⟩ ⟨"src/net/proxy.rs"⟩ = ["net", "proxy"] ∧
    modulePath ⟨"src"⟩ ⟨"./src/net/proxy.rs"⟩ = ["proxy"] ∧
    modulePath ⟨"src"⟩ ⟨"src/ui/../net/proxy.rs"⟩ = ["ui", "net", "proxy"] := by
  decide +kernel

end FilePath

end LiveSettings
