import LiveSettings.Code.Expr

/-!
# Items

Declarations as far as settings need them: attributes, generic parameters, fields, imports, functions and
implementations. Code that is not looked into keeps the items that are declared inside it.

`Item.structs` lists every struct declared in an item, at any depth.
-/

namespace LiveSettings

/-! ## Names and attributes -/

/-- A path of plain names. -/
structure NamePath where
  absolute : Bool
  names : List String
  deriving DecidableEq, Repr, Inhabited

namespace NamePath

/-- A path that is one given name. -/
def isName (p : NamePath) (name : String) : Bool := !p.absolute && p.names == [name]

def tokens (p : NamePath) : List Token :=
  absoluteMark p.absolute ++ joinSegments (p.names.map fun n => [.ident n])

/-- The path with one more name at its end. -/
def push (p : NamePath) (name : String) : NamePath := { p with names := p.names ++ [name] }

end NamePath

/-- A path with arguments, such as the name of a trait. -/
structure Path where
  absolute : Bool
  segments : List Segment
  deriving Inhabited

namespace Path

def ofNames (p : NamePath) : Path := ⟨p.absolute, p.names.map fun n => .mk n .none⟩

def toTy (p : Path) : Ty := .path p.absolute p.segments

def tokens (p : Path) : List Token := p.toTy.tokens

/-- The same path, piece by piece. -/
def same (a b : Path) : Bool := a.absolute == b.absolute && segmentsSame a.segments b.segments

theorem same_iff (a b : Path) : a.same b = true ↔ a = b := by
  cases a
  cases b
  simp [same, segmentsSame_iff]

/-- The path whose last name is given the arguments of a call. -/
def called (p : Path) (parts : List Part) : Path :=
  match p.segments.getLast? with
  | some s => ⟨p.absolute, p.segments.dropLast ++ [.mk s.name (.call parts)]⟩
  | none => p

/-- The name of the last segment. -/
def lastName? (p : Path) : Option String := p.segments.getLast?.map Segment.name

end Path

/-- What follows the path of an attribute. -/
inductive AttrArgs where
  | none
  | list (d : Delimiter) (tokens : List Token)
  | value (e : Expr)
  deriving DecidableEq, Inhabited

/-- An outer attribute. -/
structure Attr where
  path : NamePath
  args : AttrArgs
  deriving DecidableEq, Inhabited

namespace Attr

/-- The tokens between the brackets. -/
def content (a : Attr) : List Token :=
  a.path.tokens ++
    match a.args with
    | .none => []
    | .list d ts => Token.group d ts
    | .value e => [.mark '=' false] ++ Part.tokens e.code

/-- An attribute as it is written. -/
def tokens (a : Attr) : List Token := .mark '#' false :: Token.group .bracket a.content

end Attr

/-! ## Generic parameters -/

/-- A generic parameter with its attributes. -/
inductive Param where
  | lifetime (attrs : List Attr) (name : String) (bounds : List Part)
  | ty (attrs : List Attr) (name : String) (bounds : List Part) (default : Option Ty)
  | const (attrs : List Attr) (name : String) (ty : Ty) (default : List Part)
  deriving Inhabited

/-- The generic parameters of a declaration and its `where` clause, which holds no tokens if it is absent. -/
structure Generics where
  params : List Param
  trailing : Bool
  clause : List Part
  deriving Inhabited

namespace Param

def isLifetime : Param → Bool
  | .lifetime .. => true
  | _ => false

/-- The name of a type parameter. -/
def typeName? : Param → Option String
  | .ty _ name _ _ => some name
  | _ => none

def attrTokens (attrs : List Attr) : List Token := attrs.flatMap Attr.tokens

def boundTokens (bounds : List Part) : List Token :=
  if bounds.isEmpty then [] else .mark ':' false :: Part.tokens bounds

/-- A parameter without its default. -/
def declaration : Param → List Token
  | .lifetime attrs name bounds => attrTokens attrs ++ Token.lifetime name ++ boundTokens bounds
  | .ty attrs name bounds _ => attrTokens attrs ++ [.ident name] ++ boundTokens bounds
  | .const attrs name type _ =>
    attrTokens attrs ++ [.ident "const", .ident name, .mark ':' false] ++ type.tokens

/-- A parameter with its default. -/
def tokens (p : Param) : List Token :=
  p.declaration ++
    match p with
    | .ty _ _ _ (some type) => .mark '=' false :: type.tokens
    | .const _ _ _ (t :: ts) => .mark '=' false :: Part.tokens (t :: ts)
    | _ => []

/-- A parameter as an argument. -/
def argument : Param → List Token
  | .lifetime _ name _ => Token.lifetime name
  | .ty _ name .. => [.ident name]
  | .const _ name .. => [.ident name]

end Param

namespace Generics

/-- The parameters between angle brackets, each written by `f`; nothing without parameters. -/
def bracketed (g : Generics) (f : Param → List Token) : List Token :=
  if g.params.isEmpty then []
  else [.mark '<' false] ++ arrange true g.trailing (g.params.map fun p => (p.isLifetime, f p)) ++
    [.mark '>' false]

/-- The parameters as declared. -/
def tokens (g : Generics) : List Token := g.bracketed Param.tokens

/-- The parameters in front of an implementation. -/
def declaration (g : Generics) : List Token := g.bracketed Param.declaration

/-- The parameters as arguments of the type. -/
def arguments (g : Generics) : List Token := g.bracketed Param.argument

def clauseTokens (g : Generics) : List Token := Part.tokens g.clause

/-- The names of the type parameters. -/
def typeNames (g : Generics) : List String := g.params.filterMap Param.typeName?

end Generics

/-! ## Fields and structs -/

/-- A named field. -/
structure Field where
  attrs : List Attr
  name : String
  ty : Ty
  deriving Inhabited

/-- The fields of a struct. -/
inductive Fields where
  | named (fields : List Field)
  | unnamed (fields : List (List Attr × Ty))
  | unit
  deriving Inhabited

/-- A struct. -/
structure Struct where
  attrs : List Attr
  name : String
  generics : Generics
  fields : Fields
  deriving Inhabited

/-! ## Items -/

/-- What an import names. -/
inductive UseTree where
  | path (name : String) (tree : UseTree)
  | name (name : String)
  | rename (name newName : String)
  | glob
  | group (trees : List UseTree)
  deriving Inhabited

/-- What an implementation implements. -/
inductive ImplHead where
  | inherent
  | positive (trait : Path)
  | negative (trait : Path)
  deriving Inhabited

/-- An item. `inner` holds the items declared in nested code that is not looked into: blocks inside
expressions, initial values, default methods. -/
inductive Item where
  | struct (decl : Struct)
  | typeName (name : String)
  | module (name : String) (items : List Item)
  | function (name : String) (body inner : List Item)
  | implementation (head : ImplHead) (self : Ty) (members : List Item)
  | imports (absolute : Bool) (tree : UseTree)
  | other (inner : List Item)
  deriving Inhabited

mutual

/-- Every struct declared in an item, at any depth. -/
def Item.structs : Item → List Struct
  | .struct decl => [decl]
  | .typeName _ => []
  | .module _ items => itemStructs items
  | .function _ body inner => itemStructs body ++ itemStructs inner
  | .implementation _ _ members => itemStructs members
  | .imports _ _ => []
  | .other inner => itemStructs inner

def itemStructs : List Item → List Struct
  | [] => []
  | i :: is => i.structs ++ itemStructs is

end

/-- What a settings type may be declared as. -/
inductive Declaration where
  | struct (decl : Struct)
  | enum
  | union
  deriving Inhabited

end LiveSettings
