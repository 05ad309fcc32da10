import LiveSettings.Proofs.Command.Output
import LiveSettings.Proofs.Files.Directories

/-!
# What a run leaves alone

A run takes in the path of the runtime library and all its files before it makes or writes anything. Whatever is
wrong with them is told at once, the path first and then the files in their order, and the disk is as it was. A run
that gets through puts the files that it lists right into its directory, and adds nothing else but the directories
on the way there.

Results:
* `readSources_eq_error_iff`: reading stops at the first file that is faulty.
* `prepare_eq_error_iff`, `exists_refused_iff`: why a run is refused, and when it is.
* `confined_of_writeUnits`: what units that were written into a directory leave of a tree.
* `run_confined`: what a run does to the disk, whether it is refused or succeeds.

Limitations: the tree has directories and regular files only, each in one place; through a link in the directory,
a unit would be written to where the link leads. Nobody else changes the tree during a run.
-/

namespace LiveSettings

namespace Command

open LiveSettings.Accessors
open FilePath (trail)

/-! ## What a run takes in -/

/-- Whether a text is a path of code. -/
def IsPath (text : String) : Prop := (parseText? (fun g => g.path false) text).isSome = true

/-- What is wrong with a file: it cannot be read, or what is read cannot be parsed. -/
inductive Faulty (root : FilePath) (read : ReadText) (file : FilePath) : RunError → Prop where
  | unreadable {e : IoError} (unread : read file = .error e) : Faulty root read file (.unreadable file e)
  | unparsable {text : String} (found : read file = .ok text)
      (unparsed : SourceFile.ofText? (FilePath.modulePath root file) text = none) :
      Faulty root read file (.unparsable file)

/-- Why a run is refused: the path of the runtime library is none, or it is one and a file is faulty, the first. -/
inductive Refused (a : Arguments) (read : ReadText) : RunError → Prop where
  | path (bad : ¬IsPath a.cratePath) : Refused a read (.badPath a.cratePath)
  | file {before after : List FilePath} {file : FilePath} {e : RunError} (good : IsPath a.cratePath)
      (split : a.files = before ++ file :: after) (first : ∀ f ∈ before, ∀ e, ¬Faulty a.root read f e)
      (faulty : Faulty a.root read file e) : Refused a read e

section

variable {root : FilePath} {read : ReadText} {e : RunError}

theorem readSource_eq_error_iff {file : FilePath} : readSource root read file = .error e ↔ Faulty root read file e := by
  unfold readSource
  constructor
  · intro h
    split at h
    · rename_i unread
      cases h
      exact .unreadable unread
    · rename_i text found
      split at h
      · cases h
      · rename_i unparsed
        cases h
        exact .unparsable found unparsed
  · rintro (unread | ⟨found, unparsed⟩)
    · rw [unread]
    · simp only [found, unparsed]

theorem exists_source {file : FilePath} (fine : ∀ e, ¬Faulty root read file e) :
    ∃ source, readSource root read file = .ok source := by
  cases here : readSource root read file with
  | error e => exact absurd (readSource_eq_error_iff.1 here) (fine e)
  | ok source => exact ⟨source, rfl⟩

theorem readSources_of_first {before after : List FilePath} {file : FilePath}
    (first : ∀ f ∈ before, ∀ e, ¬Faulty root read f e) (faulty : Faulty root read file e) :
    readSources root read (before ++ file :: after) = .error e := by
  induction before with
  | nil => rw [List.nil_append, readSources, readSource_eq_error_iff.2 faulty]
  | cons f before ih =>
    obtain ⟨fine, others⟩ := List.forall_mem_cons.1 first
    obtain ⟨source, here⟩ := exists_source fine
    simp only [List.cons_append, readSources, here, ih others]
    rfl

theorem exists_first_of_readSources {files : List FilePath} (h : readSources root read files = .error e) :
    ∃ before file after, files = before ++ file :: after ∧ (∀ f ∈ before, ∀ e, ¬Faulty root read f e) ∧
      Faulty root read file e := by
  induction files with
  | nil => cases h
  | cons f files ih =>
    unfold readSources at h
    cases here : readSource root read f with
    | error e' =>
      rw [here] at h
      cases h
      exact ⟨[], f, files, rfl, fun g mem => absurd mem List.not_mem_nil, readSource_eq_error_iff.1 here⟩
    | ok source =>
      have fine : ∀ e, ¬Faulty root read f e := fun e faulty => by
        rw [readSource_eq_error_iff.2 faulty] at here
        cases here
      cases later : readSources root read files with
      | ok sources =>
        rw [here, later] at h
        cases h
      | error e' =>
        rw [here, later] at h
        cases h
        obtain ⟨before, file, after, rfl, first, faulty⟩ := ih later
        exact ⟨f :: before, file, after, rfl, List.forall_mem_cons.2 ⟨fine, first⟩, faulty⟩

/-- Reading stops at the first file that is faulty. -/
theorem readSources_eq_error_iff {files : List FilePath} : readSources root read files = .error e ↔
    ∃ before file after, files = before ++ file :: after ∧ (∀ f ∈ before, ∀ e, ¬Faulty root read f e) ∧
      Faulty root read file e := by
  refine ⟨exists_first_of_readSources, ?_⟩
  rintro ⟨before, file, after, rfl, first, faulty⟩
  exact readSources_of_first first faulty

theorem exists_readSources_error {files : List FilePath} (h : ∃ file ∈ files, ∃ e, Faulty root read file e) :
    ∃ e, readSources root read files = .error e := by
  obtain ⟨file, mem, e, faulty⟩ := h
  cases found : readSources root read files with
  | error e => exact ⟨e, rfl⟩
  | ok sources =>
    obtain ⟨f, -, made⟩ := (readSources_spec found).2 file mem
    rw [readSource_eq_error_iff.2 faulty] at made
    cases made

theorem runtimePath_eq_error_iff {text : String} :
    runtimePath text = .error e ↔ ¬IsPath text ∧ e = .badPath text := by
  unfold runtimePath IsPath
  cases parseText? (fun g => g.path false) text <;> simp [eq_comm]

variable {a : Arguments}

/-- A run is refused just for what it tries to take in. -/
theorem prepare_eq_error_iff : prepare a read = .error e ↔ Refused a read e := by
  unfold prepare
  cases path : runtimePath a.cratePath with
  | error e' =>
    obtain ⟨bad, rfl⟩ := runtimePath_eq_error_iff.1 path
    constructor
    · rintro ⟨⟩
      exact .path bad
    · rintro (_ | ⟨good⟩)
      · rfl
      · exact absurd good bad
  | ok runtime =>
    have good : IsPath a.cratePath := by
      by_contra bad
      rw [runtimePath_eq_error_iff.2 ⟨bad, rfl⟩] at path
      cases path
    have later : (do let sources ← readSources a.root read a.files; return (runtime, sources)) = .error e ↔
        readSources a.root read a.files = .error e := by
      cases readSources a.root read a.files <;> simp [bind, Except.bind, pure, Except.pure]
    refine later.trans (readSources_eq_error_iff.trans ⟨?_, ?_⟩)
    · rintro ⟨before, file, after, split, first, faulty⟩
      exact .file good split first faulty
    · rintro (bad | ⟨-, split, first, faulty⟩)
      · exact absurd good bad
      · exact ⟨_, _, _, split, first, faulty⟩

/-- A run is refused for a bad path and for each faulty file. -/
theorem exists_refused_iff :
    (∃ e, Refused a read e) ↔ ¬IsPath a.cratePath ∨ ∃ file ∈ a.files, ∃ e, Faulty a.root read file e := by
  constructor
  · rintro ⟨e, bad | ⟨-, split, -, faulty⟩⟩
    · exact .inl bad
    · exact .inr ⟨_, split ▸ List.mem_append_right _ List.mem_cons_self, e, faulty⟩
  · intro h
    by_cases good : IsPath a.cratePath
    · obtain ⟨e, failed⟩ := exists_readSources_error (h.resolve_left (not_not_intro good))
      obtain ⟨before, file, after, split, first, faulty⟩ := readSources_eq_error_iff.1 failed
      exact ⟨e, .file good split first faulty⟩
    · exact ⟨_, .path good⟩

/-- A run that is refused leaves everything as it was. -/
theorem run_of_refused {d : Disk} (h : Refused a d.readText e) : run a d = (⟨d, "", []⟩, .error e) := by
  unfold run
  rw [prepare_eq_error_iff.2 h]

end

/-! ## What a run leaves -/

/-- What a run that succeeds leaves of a tree: the files that it lists, each right in the directory, and beside them
at most new directories on the way there. -/
structure Confined (t t' : FileTree) (dir : FilePath) (written : List FilePath) : Prop where
  way : t'.walk [] dir.pieces = .ok dir.target
  directory : t'.find? dir.target = some .directory
  files : ∀ p ∈ written, ∃ name bytes, t'.resolve p = .ok (dir.target ++ [name]) ∧
    t'.find? (dir.target ++ [name]) = some (.file bytes)
  others : ∀ place, (∀ p ∈ written, t'.resolve p ≠ .ok place) →
    t'.find? place = t.find? place ∨
      t.find? place = none ∧ t'.find? place = some .directory ∧ place ∈ trail [] dir.steps

section

variable {dir : FilePath} {runtime : List Token} {s s' : RunState} {units : List GeneratedUnit} {written : List FilePath}

/-- The path of a unit that was written leads right into the directory, and a file lies there. -/
theorem resolve_of_writeUnits (wrote : writeUnits dir runtime s units = (s', .ok written)) {u : GeneratedUnit}
    (mem : u ∈ units) (named : FilePath.IsName u.id.unitFile) :
    s'.disk.tree.resolve (dir.join u.id.unitFile) = .ok (dir.target ++ [u.id.unitFile]) ∧
      ∃ bytes, s'.disk.tree.find? (dir.target ++ [u.id.unitFile]) = some (.file bytes) := by
  obtain ⟨-, tree, -, reached⟩ := writeUnits_spec wrote
  have target := TypeId.target_unitFile named dir
  -- a later unit may have been written over this one, so the file need not hold the unit itself
  obtain ⟨bytes, file⟩ : ∃ bytes, s'.disk.tree.find? (dir.target ++ [u.id.unitFile]) = some (.file bytes) := by
    rw [tree]
    refine FileTree.find?_putFiles_of_mem ?_ (List.append_ne_nil_of_right_ne_nil _ (List.cons_ne_nil _ _))
    rw [List.map_map, ← target]
    exact List.mem_map_of_mem mem
  obtain ⟨name, q, reaches⟩ := reached u mem
  refine ⟨?_, bytes, file⟩
  rw [← target] at file ⊢
  exact reaches.resolve (by rw [file]; rfl)

/-- Units that are written into a directory that is made leave nothing elsewhere. -/
theorem confined_of_writeUnits {d : Disk} (made : d.makeDirectoryAll dir = (s.disk, .ok ()))
    (wrote : writeUnits dir runtime s units = (s', .ok written))
    (named : ∀ u ∈ units, FilePath.IsName u.id.unitFile) : Confined d.tree s'.disk.tree dir written := by
  have made := Disk.tree_of_makeDirectoryAll made
  have adds : d.tree.Adds s.disk.tree (trail [] dir.steps) := by
    have all := d.tree.adds_makeDirectoryAll dir
    rwa [made] at all
  have resolved {u : GeneratedUnit} (mem : u ∈ units) := resolve_of_writeUnits wrote mem (named u mem)
  obtain ⟨rfl, tree, keeps, -⟩ := writeUnits_spec wrote
  have way : s'.disk.tree.Open [] dir.pieces :=
    FileTree.open_full_iff.1 ((FileTree.open_of_makeDirectoryAll made).keeps keeps)
  refine ⟨?_, ?_, List.forall_mem_map.2 fun u mem => ?_, fun place other => ?_⟩
  · rw [FilePath.target_eq]
    exact FileTree.walk_of_open way
  · rw [FilePath.target_eq]
    exact way.finish
  · obtain ⟨leads, bytes, file⟩ := resolved mem
    exact ⟨u.id.unitFile, bytes, leads, file⟩
  · have elsewhere : s'.disk.tree.find? place = s.disk.tree.find? place := by
      rw [tree]
      refine FileTree.find?_putFiles_of_other (List.forall_mem_map.2 fun u mem same => ?_)
      refine other _ (List.mem_map_of_mem mem) ?_
      rw [(resolved mem).1, ← TypeId.target_unitFile (named u mem)]
      exact congrArg Except.ok same
    rw [elsewhere]
    exact adds place

end

/-- A run that is refused tells the bad path or else the first faulty file, changes nothing and prints nothing. A run
that succeeds changes nothing if it has no directory to write into. If it has one, the files that it lists lie right
in there, in the order of the units and each with the text of the last unit of its name, and nothing else is new but
directories on the way there. -/
theorem run_confined (a : Arguments) (d : Disk) :
    ((¬IsPath a.cratePath ∨ ∃ file ∈ a.files, ∃ e, Faulty a.root d.readText file e) →
      ∃ e, Refused a d.readText e ∧ run a d = (⟨d, "", []⟩, .error e)) ∧
    ∀ o, (run a d).2 = .ok o →
      (a.outDir = none → (run a d).1.disk = d ∧ o.written = []) ∧
      ∀ dir, a.outDir = some dir → ∃ runtime sources, prepare a d.readText = .ok (runtime, sources) ∧
        let units := (generate sources).units
        o.written = units.map (fun u => dir.join u.id.unitFile) ∧
          Confined d.tree (run a d).1.disk.tree dir o.written ∧
          ∀ before u after, units = before ++ u :: after → (∀ v ∈ after, v.id.unitFile ≠ u.id.unitFile) →
            (run a d).1.disk.readText (dir.join u.id.unitFile) = .ok (u.text runtime) := by
  refine ⟨fun h => ?_, fun o ok => ⟨fun out => ?_, fun dir out => ?_⟩⟩
  · obtain ⟨e, refused⟩ := exists_refused_iff.2 h
    exact ⟨e, refused, run_of_refused refused⟩
  · unfold run at ok ⊢
    split at ok
    · cases ok
    · rename_i runtime sources prepared
      simp only [emitUnits, out] at ok ⊢
      cases ok
      exact ⟨rfl, rfl⟩
  · obtain ⟨runtime, sources, s, s', prepared, made, wrote, disk, -, -⟩ := run_ok out ok
    have named : ∀ u ∈ (generate sources).units, FilePath.IsName u.id.unitFile := fun u => isName_of_unit prepared
    rw [disk]
    exact ⟨runtime, sources, prepared, (writeUnits_spec wrote).1, confined_of_writeUnits made wrote named,
      fun before u after split last => readText_of_last wrote named split last⟩

set_option maxRecDepth 100000 in
/-- A file that is fine, one that cannot be parsed and one that is missing: the second is told. The first alone is
written into directories that are made for it. -/
theorem run_confined_threeFiles :
    let volume : String := "struct Audio { #[observable_setting] _volume: f64, context: SettingsContext }"
    let d : Disk := .ofTree ⟨[(["src"], .directory), (["src", "app.rs"], .file volume.toUTF8),
      (["src", "open.rs"], .file "struct Audio \x7b".toUTF8)]⟩
    let a (files : List FilePath) : Arguments :=
      ⟨⟨"src"⟩, some ⟨"gen/units"⟩, "::observable_settings_core", .warn, .compact, files⟩
    let all := a [⟨"src/app.rs"⟩, ⟨"src/open.rs"⟩, ⟨"src/missing.rs"⟩]
    let first := a [⟨"src/app.rs"⟩]
    let file : FilePath := ⟨"gen/units/app.Audio_observable_settings.g.rs"⟩
    run all d = (⟨d, "", []⟩, .error (.unparsable ⟨"src/open.rs"⟩)) ∧ (run first d).2 = .ok ⟨[file], 1, 0⟩ ∧
      Confined d.tree (run first d).1.disk.tree ⟨"gen/units"⟩ [file] := by
  intro volume d a all first file
  have missing : Faulty all.root d.readText ⟨"src/missing.rs"⟩ (.unreadable ⟨"src/missing.rs"⟩ .notFound) :=
    .unreadable (by decide +kernel)
  have told : (run all d).2 = .error (.unparsable ⟨"src/open.rs"⟩) := by decide +kernel
  have ok : (run first d).2 = .ok ⟨[file], 1, 0⟩ := by decide +kernel
  refine ⟨?_, ok, ?_⟩
  · obtain ⟨e, -, refused⟩ := (run_confined all d).1 (.inr ⟨⟨"src/missing.rs"⟩, by simp [all, a], _, missing⟩)
    rw [refused] at told ⊢
    rw [Except.error.inj told]
  · obtain ⟨runtime, sources, -, -, confined, -⟩ := ((run_confined first d).2 _ ok).2 ⟨"gen/units"⟩ rfl
    exact confined

end Command

end LiveSettings
