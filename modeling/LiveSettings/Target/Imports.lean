import LiveSettings.Code.Item
import LiveSettings.Journal
import LiveSettings.Native

/-!
# Imports

The names that a module binds, and the qualifying of types by them: a path that starts with an imported
name is written in full, so that the storage of its values can be chosen. A name that only a glob could
bring is qualified where that gives a native type.

Results: `qualify_of_isEmpty` (without imports nothing changes), `bindings_group` (a group binds what its
members bind).
-/

namespace LiveSettings

/-- What an import binds. -/
inductive Binding where
  | name (name : String) (path : NamePath)
  | glob (path : NamePath)
  deriving DecidableEq, Repr, Inhabited

mutual

/-- The bindings of an import below a path. -/
def UseTree.bindings (path : NamePath) : UseTree → List Binding
  | .path name tree => tree.bindings (path.push name)
  | .name name =>
    if name = "self" then (path.names.getLast?.map fun last => Binding.name last path).toList
    else [.name name (path.push name)]
  | .rename name newName =>
    if newName = "_" then []
    else [.name newName (if name = "self" then path else path.push name)]
  | .glob => [.glob path]
  | .group trees => treeBindings path trees

def treeBindings (path : NamePath) : List UseTree → List Binding
  | [] => []
  | t :: ts => t.bindings path ++ treeBindings path ts

end

theorem bindings_group (path : NamePath) (trees : List UseTree) :
    (UseTree.group trees).bindings path = trees.flatMap (·.bindings path) := by
  simp only [UseTree.bindings]
  induction trees with
  | nil => simp [treeBindings]
  | cons t ts ih => simp [treeBindings, ih]

/-- What a module binds and which types it declares. -/
structure Imports where
  bindings : List Binding
  declared : List String
  deriving Inhabited

namespace Imports

/-- The imports and declared types among the items of one module. -/
def ofItems (items : List Item) : Imports where
  bindings := items.flatMap fun
    | .imports absolute tree => tree.bindings ⟨absolute, []⟩
    | _ => []
  declared := items.filterMap fun
    | .struct decl => some decl.name
    | .typeName name => some name
    | _ => none

/-- The last binding of a name. -/
def find? (imports : Imports) (name : String) : Option NamePath :=
  imports.bindings.reverse.findSome? fun
    | .name n path => if n = name then some path else none
    | .glob _ => none

def globs (imports : Imports) : List NamePath :=
  imports.bindings.filterMap fun
    | .glob path => some path
    | .name _ _ => none

def isEmpty (imports : Imports) : Bool := imports.bindings.isEmpty

/-- The segments of an imported path, the last with the arguments of the name that it replaces. -/
def headSegments (args : Args) : List String → List Segment
  | [] => []
  | [n] => [.mk n args]
  | n :: ns => .mk n .none :: headSegments args ns

/-- A path whose first name is replaced by an imported path. -/
def splice (head : NamePath) : List Segment → List Segment
  | [] => headSegments .none head.names
  | s :: ss => headSegments s.args head.names ++ ss

/-- The path that the first name of a written path stands for. Type parameters and declared types stand for
themselves. -/
def head? (imports : Imports) (params : List String) (absolute : Bool) (segments : List Segment) :
    Option NamePath :=
  if absolute then none
  else match segments with
    | [] => none
    | s :: ss =>
      if s.name ∈ params ∨ s.name ∈ imports.declared then none
      else match imports.find? s.name with
        | some path => some path
        | none =>
          if ss.isEmpty then
            (imports.globs.map (·.push s.name)).find? fun path =>
              (NativeKind.lookup? (.path path.absolute (splice path [s]))).isSome
          else none

end Imports

mutual

/-- A type in which the first names of paths are replaced. -/
def Ty.mapHeads (f : Bool → List Segment → Option NamePath) : Ty → Ty
  | .path absolute segments =>
    match f absolute segments with
    | some head => .path head.absolute (Imports.splice head (segmentsMapHeads f segments))
    | none => .path absolute (segmentsMapHeads f segments)
  | .projection self depth absolute segments =>
    .projection (self.mapHeads f) depth absolute (segmentsMapHeads f segments)
  | .paren inner => .paren (inner.mapHeads f)
  | .shaped shape parts => .shaped shape (partsMapHeads f parts)

def segmentsMapHeads (f : Bool → List Segment → Option NamePath) : List Segment → List Segment
  | [] => []
  | s :: ss => s.mapHeads f :: segmentsMapHeads f ss

def Segment.mapHeads (f : Bool → List Segment → Option NamePath) : Segment → Segment
  | .mk name args => .mk name (args.mapHeads f)

def Args.mapHeads (f : Bool → List Segment → Option NamePath) : Args → Args
  | .none => .none
  | .angle turbofish args trailing => .angle turbofish (argsMapHeads f args) trailing
  | .call parts => .call (partsMapHeads f parts)

def argsMapHeads (f : Bool → List Segment → Option NamePath) : List Arg → List Arg
  | [] => []
  | a :: as => a.mapHeads f :: argsMapHeads f as

def Arg.mapHeads (f : Bool → List Segment → Option NamePath) : Arg → Arg
  | .lifetime name => .lifetime name
  | .ty t => .ty (t.mapHeads f)
  | .other parts => .other (partsMapHeads f parts)

def partsMapHeads (f : Bool → List Segment → Option NamePath) : List Part → List Part
  | [] => []
  | p :: ps => p.mapHeads f :: partsMapHeads f ps

def Part.mapHeads (f : Bool → List Segment → Option NamePath) : Part → Part
  | .token t => .token t
  | .ty t => .ty (t.mapHeads f)
  | .segment s => .segment (s.mapHeads f)
  | .embedded kind parts => .embedded kind (partsMapHeads f parts)

end

mutual

/-- The paths whose first names are replaced, as written and in full, outermost first. -/
def Ty.headChanges (f : Bool → List Segment → Option NamePath) : Ty → List (Path × Path)
  | .path absolute segments =>
    (match f absolute segments with
      | some head => [(⟨absolute, segments⟩, ⟨head.absolute, Imports.splice head segments⟩)]
      | none => []) ++ segmentsHeadChanges f segments
  | .projection self _ _ segments => self.headChanges f ++ segmentsHeadChanges f segments
  | .paren inner => inner.headChanges f
  | .shaped _ parts => partsHeadChanges f parts

def segmentsHeadChanges (f : Bool → List Segment → Option NamePath) :
    List Segment → List (Path × Path)
  | [] => []
  | s :: ss => s.headChanges f ++ segmentsHeadChanges f ss

def Segment.headChanges (f : Bool → List Segment → Option NamePath) : Segment → List (Path × Path)
  | .mk _ args => args.headChanges f

def Args.headChanges (f : Bool → List Segment → Option NamePath) : Args → List (Path × Path)
  | .none => []
  | .angle _ args _ => argsHeadChanges f args
  | .call parts => partsHeadChanges f parts

def argsHeadChanges (f : Bool → List Segment → Option NamePath) : List Arg → List (Path × Path)
  | [] => []
  | a :: as => a.headChanges f ++ argsHeadChanges f as

def Arg.headChanges (f : Bool → List Segment → Option NamePath) : Arg → List (Path × Path)
  | .lifetime _ => []
  | .ty t => t.headChanges f
  | .other parts => partsHeadChanges f parts

def partsHeadChanges (f : Bool → List Segment → Option NamePath) : List Part → List (Path × Path)
  | [] => []
  | p :: ps => p.headChanges f ++ partsHeadChanges f ps

def Part.headChanges (f : Bool → List Segment → Option NamePath) : Part → List (Path × Path)
  | .token _ => []
  | .ty t => t.headChanges f
  | .segment s => s.headChanges f
  | .embedded _ parts => partsHeadChanges f parts

end

namespace Imports

/-- A type with its imported names written in full. -/
def qualify (imports : Imports) (params : List String) (t : Ty) : Ty :=
  if imports.isEmpty then t else t.mapHeads (imports.head? params)

/-- What qualifying reports. -/
def journal (imports : Imports) (params : List String) (t : Ty) : Journal :=
  if imports.isEmpty then []
  else (t.headChanges (imports.head? params)).map fun (written, full) =>
    ⟨.trace, .imports, "qualified field type through import",
      [("from", Token.render written.tokens), ("to", Token.render full.tokens)]⟩

theorem qualify_of_isEmpty {imports : Imports} (params : List String) (t : Ty)
    (h : imports.isEmpty = true) : imports.qualify params t = t := by
  simp [qualify, h]

end Imports

end LiveSettings
