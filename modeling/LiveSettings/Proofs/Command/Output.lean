import LiveSettings.Command
import LiveSettings.Proofs.Accessors.TypeNames
import LiveSettings.Proofs.Files.Ways

/-!
# What a run leaves in its directory

The file of a unit is named by the modules and the name of its type, joined by points. Where no module holds a
point itself, two types have two files, and a run that succeeds leaves every unit in the directory that it would
have printed. A file or directory whose name holds a point may give its module the name that another path has
once it is joined, and then the later unit is written over the earlier one.

Results:
* `FilePath.not_mem_of_modulePath`: modules of files hold no separator.
* `writeUnits_spec`: what is left of units that were written one after the other.
* `readText_of_last`: of the units that are written to a file, the last is read from it.
* `run_writes_units`: what a run leaves in its directory.
* `run_overwrites`: two files whose units get one name.

Limitations: the tree has directories and regular files only, each in one place; two units whose files are links to
one place would be written one over the other.
-/

namespace LiveSettings

/-! ## Modules of files -/

namespace FilePath

theorem not_mem_of_component {p : FilePath} {name : String} (h : .normal name ∈ p.components) :
    separator ∉ name.toList := by
  have ofPiece {piece : List Char} (listed : piece ∈ p.pieces) (same : .normal name = ofPiece piece) :
      separator ∉ name.toList := by
    unfold FilePath.ofPiece at same
    split at same
    · cases same
    · cases same
      rw [String.toList_ofList]
      exact not_mem_of_mem_split listed
  unfold components at h
  split at h
  · cases h
  · rename_i first rest pieces
    rw [pieces] at ofPiece
    rcases List.mem_append.1 h with front | later
    · split at front
      · split at front
        · cases front
        · cases List.mem_singleton.1 front
      · split at front
        · cases List.mem_singleton.1 front
        · exact ofPiece List.mem_cons_self (List.mem_singleton.1 front)
    · obtain ⟨piece, listed, same⟩ := List.mem_map.1 later
      exact ofPiece (List.mem_cons_of_mem first (List.mem_of_mem_filter listed)) same.symm

theorem suffix_of_stripPrefix? {front cs rest : List Component} (h : stripPrefix? front cs = some rest) :
    rest <:+ cs := by
  induction front generalizing cs with
  | nil =>
    cases h
    exact List.suffix_rfl
  | cons c front ih =>
    cases cs with
    | nil => cases h
    | cons d cs =>
      unfold stripPrefix? at h
      split at h
      · exact (ih h).trans (List.suffix_cons d cs)
      · cases h

theorem not_mem_of_relativeTo {root file : FilePath} {name : String} (h : .normal name ∈ relativeTo root file) :
    separator ∉ name.toList := by
  unfold relativeTo at h
  split at h
  · rename_i rest stripped
    exact not_mem_of_component ((suffix_of_stripPrefix? stripped).subset h)
  · split at h
    · rename_i last named
      cases List.mem_singleton.1 h
      unfold fileName? at named
      split at named
      · rename_i found
        cases named
        exact not_mem_of_component (List.mem_of_getLast? found)
      · cases named
    · exact not_mem_of_component h

theorem subset_of_stem (name : String) : (stem name).toList ⊆ name.toList := by
  unfold stem
  dsimp only
  split
  · exact List.Subset.refl _
  · rw [String.toList_ofList]
    intro c mem
    rw [List.mem_reverse] at mem
    exact List.mem_reverse.1 ((List.dropWhile_sublist _).subset (List.drop_subset 1 _ mem))

/-- Modules of files hold no separator. -/
theorem not_mem_of_modulePath {root file : FilePath} {segment : String} (h : segment ∈ modulePath root file) :
    separator ∉ segment.toList := by
  unfold modulePath at h
  rcases List.mem_append.1 h with front | last
  · obtain ⟨c, listed, named⟩ := List.mem_filterMap.1 front
    cases c <;> cases named
    exact not_mem_of_relativeTo ((List.dropLast_sublist _).subset listed)
  · split at last
    · rename_i name found
      split at last
      · cases last
      · rw [List.mem_singleton.1 last]
        exact fun mem => not_mem_of_relativeTo (List.mem_of_getLast? found) (subset_of_stem name mem)
    · cases last

end FilePath

/-! ## Names of unit files -/

namespace TypeId

theorem names_unitFile (t : TypeId) : FilePath.Names t.unitFile.toList := by
  have ending : unitEnding.toList.length = 25 := rfl
  apply FilePath.names_of_length
  rw [unitFile, String.toList_append, List.length_append, ending]
  omega

theorem isName_unitFile {t : TypeId} (plain : ∀ s ∈ t.segments, FilePath.separator ∉ s.toList) :
    FilePath.IsName t.unitFile :=
  FilePath.isName_append (not_mem_joined (by decide) plain) (by unfold FilePath.IsName; decide)

theorem target_unitFile {t : TypeId} (named : FilePath.IsName t.unitFile) (dir : FilePath) :
    (dir.join t.unitFile).target = dir.target ++ [t.unitFile] :=
  FileTree.target_join t.names_unitFile named

end TypeId

namespace Command

open LiveSettings.Accessors

/-! ## Reading -/

section

variable {root : FilePath} {read : ReadText} {files : List FilePath} {sources : List SourceFile}

theorem readSource_spec {file : FilePath} {f : SourceFile} (h : readSource root read file = .ok f) :
    f.Named ∧ f.modulePath = FilePath.modulePath root file := by
  unfold readSource at h
  split at h
  · cases h
  · split at h
    · rename_i text _ _ parsed
      cases h
      exact ⟨SourceFile.named_ofText? parsed, (SourceFile.items_ofText? parsed).1⟩
    · cases h

/-- What is read is what the files are read as, and all of them are. -/
theorem readSources_spec (h : readSources root read files = .ok sources) :
    (∀ f ∈ sources, ∃ file ∈ files, readSource root read file = .ok f) ∧
      ∀ file ∈ files, ∃ f ∈ sources, readSource root read file = .ok f := by
  induction files generalizing sources with
  | nil =>
    cases h
    exact ⟨fun f mem => absurd mem List.not_mem_nil, fun file mem => absurd mem List.not_mem_nil⟩
  | cons file files ih =>
    unfold readSources at h
    split at h
    · cases h
    · rename_i source here
      cases later : readSources root read files with
      | error e =>
        rw [later] at h
        cases h
      | ok rest =>
        rw [later] at h
        cases h
        obtain ⟨origin, all⟩ := ih later
        refine ⟨List.forall_mem_cons.2 ⟨⟨file, List.mem_cons_self, here⟩, fun f mem => ?_⟩,
          List.forall_mem_cons.2 ⟨⟨source, List.mem_cons_self, here⟩, fun file' mem => ?_⟩⟩
        · obtain ⟨file', listed, read⟩ := origin f mem
          exact ⟨file', List.mem_cons_of_mem file listed, read⟩
        · obtain ⟨f, made, read⟩ := all file' mem
          exact ⟨f, List.mem_cons_of_mem source made, read⟩

/-- A run that reads everything knows its files by their modules. -/
theorem prepare_spec {a : Arguments} {runtime : List Token} (h : prepare a read = .ok (runtime, sources)) :
    ∀ f ∈ sources, f.Named ∧ ∃ file ∈ a.files, f.modulePath = FilePath.modulePath a.root file := by
  unfold prepare at h
  cases path : runtimePath a.cratePath with
  | error e =>
    rw [path] at h
    cases h
  | ok tokens =>
    cases found : readSources a.root read a.files with
    | error e =>
      rw [path, found] at h
      cases h
    | ok files =>
      rw [path, found] at h
      cases h
      intro f mem
      obtain ⟨file, listed, made⟩ := (readSources_spec found).1 f mem
      obtain ⟨named, modules⟩ := readSource_spec made
      exact ⟨named, file, listed, modules⟩

end

/-- Units of files that were read have names for their files. -/
theorem isName_of_unit {a : Arguments} {read : ReadText} {runtime : List Token} {sources : List SourceFile}
    (prepared : prepare a read = .ok (runtime, sources)) {u : GeneratedUnit} (mem : u ∈ (generate sources).units) :
    FilePath.IsName u.id.unitFile := by
  have read := prepare_spec prepared
  refine TypeId.isName_unitFile (not_mem_segments_of_unit (by decide) (by decide) (by decide)
    (fun f listed => (read f listed).1) (fun f listed segment part => ?_) mem)
  obtain ⟨-, file, -, path⟩ := read f listed
  exact FilePath.not_mem_of_modulePath (path ▸ part)

/-! ## Writing -/

/-- Where the file of a unit is to lie, and what is to be in it. -/
def unitContent (dir : FilePath) (runtime : List Token) (u : GeneratedUnit) : Place × ByteArray :=
  ((dir.join u.id.unitFile).target, (u.text runtime).toUTF8)

section

variable {dir : FilePath} {runtime : List Token} {s s' : RunState} {units : List GeneratedUnit} {files : List FilePath}

/-- What is left of units that were written one after the other: their files, each where its path reaches. -/
theorem writeUnits_spec (h : writeUnits dir runtime s units = (s', .ok files)) :
    files = units.map (fun u => dir.join u.id.unitFile) ∧
      s'.disk.tree = s.disk.tree.putFiles (units.map (unitContent dir runtime)) ∧
      s.disk.tree.Keeps s'.disk.tree ∧
      ∀ u ∈ units, ∃ name q, s'.disk.tree.Reaches (dir.join u.id.unitFile) name q := by
  induction units generalizing s files with
  | nil =>
    cases h
    exact ⟨rfl, rfl, fun place directory => directory, fun u mem => absurd mem List.not_mem_nil⟩
  | cons u units ih =>
    unfold writeUnits at h
    dsimp only at h
    split at h
    · cases h
    · rename_i disk written
      split at h
      · cases h
      · rename_i s₁ later rest
        cases h
        obtain ⟨⟨name, q, reaches⟩, free, put⟩ := FileTree.write_eq_ok_iff.1 (Disk.tree_of_write written)
        have step : s.disk.tree.Keeps disk.tree := put ▸ FileTree.keeps_put _ free
        obtain ⟨listed, tree, keeps, others⟩ := ih rest
        refine ⟨by rw [listed, List.map_cons], ?_, step.trans keeps, List.forall_mem_cons.2 ⟨?_, others⟩⟩
        · rw [tree, put]
          rfl
        · exact ⟨name, q, reaches.keeps (step.trans keeps)⟩

/-- Of the units that are written to a file, the last is read from it. -/
theorem readText_of_last (h : writeUnits dir runtime s units = (s', .ok files))
    (named : ∀ u ∈ units, FilePath.IsName u.id.unitFile) {before after : List GeneratedUnit} {u : GeneratedUnit}
    (split : units = before ++ u :: after) (last : ∀ v ∈ after, v.id.unitFile ≠ u.id.unitFile) :
    s'.disk.readText (dir.join u.id.unitFile) = .ok (u.text runtime) := by
  obtain ⟨-, tree, -, reached⟩ := writeUnits_spec h
  have target {v : GeneratedUnit} (mem : v ∈ u :: after) :
      (dir.join v.id.unitFile).target = dir.target ++ [v.id.unitFile] :=
    TypeId.target_unitFile (named v (split ▸ List.mem_append_right before mem)) dir
  have placed : units.map (unitContent dir runtime) = before.map (unitContent dir runtime) ++
      ((dir.join u.id.unitFile).target, (u.text runtime).toUTF8) :: after.map (unitContent dir runtime) := by
    rw [split, List.map_append, List.map_cons]
    rfl
  apply Disk.readText_of_read
  refine FileTree.read_eq_ok_iff.2 ⟨reached u (split ▸ List.mem_append_right before List.mem_cons_self), ?_⟩
  rw [tree]
  refine FileTree.find?_putFiles_of_last placed ?_ (List.forall_mem_map.2 fun v mem same => last v mem ?_)
  · rw [target List.mem_cons_self]
    exact List.append_ne_nil_of_right_ne_nil _ (List.cons_ne_nil _ _)
  · rw [unitContent, target (List.mem_cons_of_mem u mem), target List.mem_cons_self] at same
    exact List.singleton_inj.1 (List.append_cancel_left same)

end

/-! ## Runs -/

variable {dir : FilePath} {runtime : List Token}

/-- What a run that succeeds did. -/
theorem run_ok {a : Arguments} {d : Disk} {o : Outcome} (out : a.outDir = some dir)
    (h : (run a d).2 = .ok o) : ∃ runtime sources s s', prepare a d.readText = .ok (runtime, sources) ∧
      d.makeDirectoryAll dir = (s.disk, .ok ()) ∧
      writeUnits dir runtime s (generate sources).units = (s', .ok o.written) ∧ (run a d).1.disk = s'.disk ∧
      o.units = (generate sources).units.length ∧ o.diagnostics = (generate sources).diagnostics.length := by
  unfold run at h ⊢
  split at h
  · cases h
  · rename_i runtime sources prepared
    simp only [prepared, emitUnits, out] at h ⊢
    split at h
    · cases h
    · rename_i s' written into
      cases h
      unfold writeInto at into
      split at into
      · cases into
      · rename_i disk made
        exact ⟨runtime, sources, _, s', rfl, made, into, rfl, rfl, rfl⟩

/-- The same run with its units printed. -/
theorem run_printed {a : Arguments} {d : Disk} {sources : List SourceFile}
    (prepared : prepare a d.readText = .ok (runtime, sources)) :
    (run { a with outDir := none } d).2 =
        .ok ⟨[], (generate sources).units.length, (generate sources).diagnostics.length⟩ ∧
      (run { a with outDir := none } d).1.printed =
        String.join ((generate sources).units.map fun u => u.text runtime ++ "\n") := by
  have prepared : prepare { a with outDir := none } d.readText = .ok (runtime, sources) := prepared
  unfold run
  simp only [prepared, emitUnits, printUnits, String.empty_append, and_self]

/-- Where no module of a file holds a point, a run that succeeds leaves each unit that the same run prints, in
their order, in a file of its own. -/
theorem run_writes_units {a : Arguments} {d : Disk} {o : Outcome} (out : a.outDir = some dir)
    (ok : (run a d).2 = .ok o)
    (undotted : ∀ file ∈ a.files, ∀ segment ∈ FilePath.modulePath a.root file, '.' ∉ segment.toList) :
    ∃ runtime sources, prepare a d.readText = .ok (runtime, sources) ∧
      let units := (generate sources).units
      let printed := run { a with outDir := none } d
      printed.2 = .ok ⟨[], units.length, o.diagnostics⟩ ∧
        printed.1.printed = String.join (units.map fun u => u.text runtime ++ "\n") ∧
        o.written = units.map (fun u => dir.join u.id.unitFile) ∧
        (∀ u ∈ units, (run a d).1.disk.readText (dir.join u.id.unitFile) = .ok (u.text runtime)) ∧
        o.written.Nodup ∧ o.units = units.length ∧ o.written.length = o.units := by
  obtain ⟨runtime, sources, s, s', prepared, -, wrote, disk, count, skipped⟩ := run_ok out ok
  have read := prepare_spec prepared
  have segments {u : GeneratedUnit} (mem : u ∈ (generate sources).units) : ∀ s ∈ u.id.segments, '.' ∉ s.toList := by
    refine not_mem_segments_of_unit (by decide) (by decide) (by decide) (fun f listed => (read f listed).1)
      (fun f listed segment part => ?_) mem
    obtain ⟨-, file, given, path⟩ := read f listed
    exact undotted file given segment (path ▸ part)
  have names : ∀ u ∈ (generate sources).units, FilePath.IsName u.id.unitFile := fun u => isName_of_unit prepared
  -- the types of units differ, so their files do, and so do the paths of these
  have units : (generate sources).units.Nodup := (nodup_units sources).of_map _
  have types := List.inj_on_of_nodup_map (nodup_units sources)
  have files : ∀ u ∈ (generate sources).units, ∀ v ∈ (generate sources).units,
      u.id.unitFile = v.id.unitFile → u = v :=
    fun u hu v hv same => types hu hv (TypeId.unitFile_inj (segments hu) (segments hv) same)
  obtain ⟨written, -, -, -⟩ := writeUnits_spec wrote
  obtain ⟨result, text⟩ := run_printed prepared
  refine ⟨runtime, sources, prepared, skipped ▸ result, text, written, fun u mem => ?_, ?_, count, ?_⟩
  · obtain ⟨before, after, split⟩ := List.append_of_mem mem
    have later : (u :: after).Nodup := (split ▸ units).of_append_right
    rw [disk]
    refine readText_of_last wrote names split fun v behind same => (List.nodup_cons.1 later).1 ?_
    exact files v (split ▸ List.mem_append_right before (List.mem_cons_of_mem u behind)) u mem same ▸ behind
  · rw [written]
    exact units.map_on fun u hu v hv same =>
      files u hu v hv (FilePath.join_inj (names u hu) (names v hv) same)
  · rw [written, List.length_map, count]

set_option maxRecDepth 100000 in
/-- Two files below `src`, in modules of one and of two segments. -/
theorem run_writes_units_two :
    let volume : String := "struct Audio { #[observable_setting] _volume: f64, context: SettingsContext }"
    let speed : String := "struct Link { #[observable_setting] _speed: u32, context: SettingsContext }"
    let d : Disk := .ofTree ⟨[(["src"], .directory), (["src", "app.rs"], .file volume.toUTF8),
      (["src", "net"], .directory), (["src", "net", "link.rs"], .file speed.toUTF8)]⟩
    let a : Arguments := ⟨⟨"src"⟩, some ⟨"gen"⟩, "::observable_settings_core", .warn, .compact,
      [⟨"src/app.rs"⟩, ⟨"src/net/link.rs"⟩]⟩
    let files : List FilePath := [⟨"gen/app.Audio_observable_settings.g.rs"⟩,
      ⟨"gen/net.link.Link_observable_settings.g.rs"⟩]
    (run a d).2 = .ok ⟨files, 2, 0⟩ ∧ ∃ runtime sources, prepare a d.readText = .ok (runtime, sources) ∧
      ∀ u ∈ (generate sources).units,
        (run a d).1.disk.readText (FilePath.join ⟨"gen"⟩ u.id.unitFile) = .ok (u.text runtime) := by
  intro volume speed d a files
  have ok : (run a d).2 = .ok ⟨files, 2, 0⟩ := by decide +kernel
  obtain ⟨runtime, sources, prepared, -, -, -, held, -⟩ := run_writes_units rfl ok (by decide)
  exact ⟨ok, runtime, sources, prepared, held⟩

set_option maxRecDepth 100000 in
/-- Two files below `src`, one of which has a point in its name: the units of both go to one file, and that of the
first is lost. -/
theorem run_overwrites :
    let volume : String := "struct Audio { #[observable_setting] _volume: f64, context: SettingsContext }"
    let pan : String := "struct Audio { #[observable_setting] _pan: f32, context: SettingsContext }"
    let d : Disk := .ofTree ⟨[(["src"], .directory), (["src", "a"], .directory),
      (["src", "a", "b.rs"], .file volume.toUTF8), (["src", "a.b.rs"], .file pan.toUTF8)]⟩
    let a : Arguments := ⟨⟨"src"⟩, some ⟨"gen"⟩, "::observable_settings_core", .warn, .compact,
      [⟨"src/a/b.rs"⟩, ⟨"src/a.b.rs"⟩]⟩
    let file : FilePath := ⟨"gen/a.b.Audio_observable_settings.g.rs"⟩
    (run a d).2 = .ok ⟨[file, file], 2, 0⟩ ∧
      (run a d).1.disk.tree.files.map (·.1) = [["gen", "a.b.Audio_observable_settings.g.rs"],
        ["src", "a", "b.rs"], ["src", "a.b.rs"]] := by
  decide +kernel

end Command

end LiveSettings
