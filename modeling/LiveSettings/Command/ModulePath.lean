import LiveSettings.Files.FilePath

/-!
# Module paths of files

The module of a file follows from where it lies below a root: the directories on the way and the name of the
file, unless the file is that of its directory.

Results: `modulePath_of_not_below` (a file that does not lie below the root counts as lying right in it).
-/

namespace LiveSettings

/-- The stems of files that stand for their directory. -/
def directoryStems : List String := ["lib", "main", "mod"]

namespace FilePath

/-- The components of a file below a root, or its name alone if it does not lie below. -/
def relativeTo (root file : FilePath) : List Component :=
  match stripPrefix? root.components file.components with
  | some rest => rest
  | none =>
    match file.fileName? with
    | some name => [.normal name]
    | none => file.components

/-- The names among components. -/
def names (cs : List Component) : List String :=
  cs.filterMap fun
    | .normal name => some name
    | .root | .current | .parent => none

/-- The module of a file below a root. -/
def modulePath (root file : FilePath) : List String :=
  let relative := relativeTo root file
  let last :=
    match relative.getLast? with
    | some (.normal name) => if directoryStems.contains (stem name) then [] else [stem name]
    | _ => []
  names relative.dropLast ++ last

theorem modulePath_of_not_below (root file : FilePath) (name : String)
    (h : stripPrefix? root.components file.components = none) (h' : file.fileName? = some name) :
    modulePath root file = if directoryStems.contains (stem name) then [] else [stem name] := by
  simp [modulePath, relativeTo, h, h', names]

end FilePath

end LiveSettings
