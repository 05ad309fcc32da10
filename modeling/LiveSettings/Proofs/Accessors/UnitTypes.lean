import LiveSettings.Proofs.Accessors.UnitText
import LiveSettings.Proofs.Code.RereadGenerics
import LiveSettings.Proofs.Code.RereadImports

/-!
# Types that are read back

The types in a unit are those of the fields of its structs, with their paths in full and without parentheses around
them; its parameters and conditions are those of its first struct. Whatever form they have, they were read once and are
read back from the unit: the names, references, pointers, slices, arrays, tuples, functions, bounds and paths into types
that they are made of, the parameters of any kind, and the conditions on them. What a struct has to see to is that its
parameters have names, that the paths of its types start no path that is none of a type when they are in full, and that
code of other kinds, such as the length of an array, is read back itself.

Results:
* `Emitted.legible_of_sites`: the types and the head of a unit of files that were read.
* `Ty.legible_of_foreign`: in a module with plain imports only code of other kinds matters.
* `legibleCode_literal`, `legibleCode_names`: a literal and a path of names are such code.
-/

namespace LiveSettings

open LiveSettings.Parser LiveSettings.Grammar LiveSettings.Token

namespace Accessors

/-- The paths of the types of a struct stay paths of types when they are written in full, its parameters have names, and
code of other kinds than types is read back. -/
structure Site.Legible (s : Site) : Prop where
  generics : s.decl.generics.Legible
  named : "_" ∉ s.decl.generics.typeNames
  types : ∀ fields, s.decl.fields = .named fields → ∀ f ∈ fields, f.isMarked = true →
    f.ty.Legible (s.imports.head? s.decl.generics.typeNames)

/-! ## What was read from a file -/

section

variable {text : String} {ts : List Token} (lexed : Token.ofFile? text = some ts) {s : Site} (site : SiteIn ts s)

include lexed site

/-- The paths that names are replaced by are of words that may stand in a path. -/
theorem SiteIn.heads : Heads (s.imports.head? s.decl.generics.typeNames) := by
  refine heads_of_imported _ fun b mem => ?_
  obtain ⟨absolute, tree, imported, bound⟩ := site.imports b mem
  exact tree.forall_bindings nofun (imported.words lexed) b bound

/-- The type of a field is read again. -/
theorem SiteIn.tyReread {fields : List Field} (same : s.decl.fields = .named fields) {f : Field} (mem : f ∈ fields)
    (named : f.name ≠ "_") : ∃ before after,
      TyReread (s.imports.head? s.decl.generics.typeNames) true before f.ty after := by
  obtain ⟨-, depth, given⟩ := (site.decl.fields fields same f mem).resolve_left named
  exact given.exists_of_ensures lexed ((rereads_deep (site.heads lexed) depth).ty true)

/-- The parameters and conditions of a struct are read again. -/
theorem SiteIn.genericsReread (named : "_" ∉ s.decl.generics.typeNames) : GenericsReread s.decl.generics := by
  have heads : Heads unchanged := nofun
  obtain ⟨depth, ps, given, same⟩ := site.decl.params
  obtain ⟨_, _, params⟩ := given.exists_of_ensures lexed fun _ => ensures_generics (rereads_deep heads depth)
  obtain ⟨depth, given⟩ := site.decl.clause
  obtain ⟨_, _, clause⟩ := given.exists_of_ensures lexed fun _ => ensures_clause (rereads_deep heads depth)
  exact ⟨same ▸ params, clause, named⟩

end

/-! ## What a unit is written with -/

theorem legibleTy_of_tyTokens {before after ts : List Token} {t : Ty} (h : TyTokens true before after t ts) :
    LegibleTy ts where
  printable := h.printable
  reads _ deep _ ends := (h.reads_field deep (follows_of_endsTy ends)).takes

theorem legibleHead_of_reread {name : String} (plain : name ∉ keywords) {g : Generics} (reread : GenericsReread g)
    (legible : g.Legible) : LegibleHead name g := by
  obtain ⟨declaration, arguments, clause⟩ := reread.printable legible
  exact ⟨⟨declaration, arguments, clause⟩, fun depth below => isHead_of_reread plain reread legible below⟩

/-- A property is of the type that is declared, without parentheses around it. -/
theorem Descriptor.declared_of_ofTy? {t : Ty} {d : Descriptor} (h : Descriptor.ofTy? t = some d) :
    d.declared = t.peel := by
  unfold Descriptor.ofTy? at h
  dsimp only at h
  split at h
  · split at h
    · split at h
      · cases h
        rfl
      · cases h
    · cases h
      rfl
  · cases h

/-- The types and the head of a unit of files that were read are read back, whatever form they have. -/
theorem Emitted.legible_of_sites {sources : List SourceFile} (read : ∀ f ∈ sources, f.Read) {u : GeneratedUnit}
    (mem : u ∈ (generate sources).units) (context : u.emitted.contextField ≠ "_")
    (legible : ∀ s ∈ structsOf sources u.id, s.Legible) : u.emitted.Legible where
  head := by
    obtain ⟨s, _, _, _, structs, -, name, generics, -⟩ := structs_of_unit mem
    have first : s ∈ structsOf sources u.id := structs ▸ List.mem_cons_self
    obtain ⟨text, ts, lexed, site⟩ := siteIn_of_site read (List.mem_filter.1 first).1
    rw [name, generics]
    exact legibleHead_of_reread site.decl.name.2 (site.genericsReread lexed (legible s first).named)
      (legible s first).generics
  types g listed := by
    obtain ⟨s, own, fields, same, f, among, marked, p, made, field, described⟩ := exists_field_of_group mem listed
    obtain ⟨text, ts, lexed, site⟩ := siteIn_of_site read (List.mem_filter.1 own).1
    obtain ⟨given, -, type, -⟩ := groupOf_ok made
    obtain ⟨before, after, reread⟩ := site.tyReread lexed same among (field ▸ given)
    obtain ⟨_, _, _, tokens⟩ := reread.peeled rfl ((legible s own).types fields same f among marked)
    rw [type, Descriptor.declared_of_ofTy? described, Imports.qualify_eq_mapHeads]
    exact legibleTy_of_tyTokens tokens
  context := context

end Accessors

/-! ## Code of other kinds -/

mutual

/-- The code of other kinds in a type. -/
def Ty.foreign : Ty → List (Embedded × List Part)
  | .path _ ss => segmentsForeign ss
  | .projection self _ _ ss => self.foreign ++ segmentsForeign ss
  | .paren inner => inner.foreign
  | .shaped _ parts => partsForeign parts

def segmentsForeign : List Segment → List (Embedded × List Part)
  | [] => []
  | s :: ss => s.foreign ++ segmentsForeign ss

def Segment.foreign : Segment → List (Embedded × List Part)
  | .mk _ args => args.foreign

def Args.foreign : Args → List (Embedded × List Part)
  | .none => []
  | .angle _ args _ => argsForeign args
  | .call parts => partsForeign parts

def argsForeign : List Arg → List (Embedded × List Part)
  | [] => []
  | a :: as => a.foreign ++ argsForeign as

def Arg.foreign : Arg → List (Embedded × List Part)
  | .lifetime _ => []
  | .ty t => t.foreign
  | .other parts => partsForeign parts

def partsForeign : List Part → List (Embedded × List Part)
  | [] => []
  | p :: ps => p.foreign ++ partsForeign ps

def Part.foreign : Part → List (Embedded × List Part)
  | .token _ => []
  | .ty t => t.foreign
  | .segment s => s.foreign
  | .embedded kind parts => [(kind, parts)]

end

section

variable {f : Bool → List Segment → Option NamePath}

mutual

/-- Where the paths of types stay such paths, only code of other kinds matters. -/
theorem Ty.legible_of_foreign (leads : ∀ absolute ss, Leads f absolute ss) : (t : Ty) →
    (∀ e ∈ t.foreign, LegibleCode e.1 (Part.written f e.2)) → t.Legible f
  | .path absolute ss, each => ⟨leads absolute ss, segmentsLegible_of_foreign leads ss each⟩
  | .projection self _ _ ss, each =>
    ⟨self.legible_of_foreign leads (List.forall_mem_append.1 each).1,
      segmentsLegible_of_foreign leads ss (List.forall_mem_append.1 each).2⟩
  | .paren inner, each => inner.legible_of_foreign leads each
  | .shaped _ parts, each => held_of_foreign leads parts each

theorem segmentsLegible_of_foreign (leads : ∀ absolute ss, Leads f absolute ss) : (ss : List Segment) →
    (∀ e ∈ segmentsForeign ss, LegibleCode e.1 (Part.written f e.2)) → segmentsHold f (Leads f) LegibleCode ss
  | [], _ => trivial
  | s :: ss, each =>
    ⟨s.legible_of_foreign leads (List.forall_mem_append.1 each).1,
      segmentsLegible_of_foreign leads ss (List.forall_mem_append.1 each).2⟩

theorem Segment.legible_of_foreign (leads : ∀ absolute ss, Leads f absolute ss) : (s : Segment) →
    (∀ e ∈ s.foreign, LegibleCode e.1 (Part.written f e.2)) → s.Legible f
  | .mk _ .none, _ => trivial
  | .mk _ (.angle _ args _), each => argsLegible_of_foreign leads args each
  | .mk _ (.call parts), each => held_of_foreign leads parts each

theorem argsLegible_of_foreign (leads : ∀ absolute ss, Leads f absolute ss) : (as : List Arg) →
    (∀ e ∈ argsForeign as, LegibleCode e.1 (Part.written f e.2)) → argsHold f (Leads f) LegibleCode as
  | [], _ => trivial
  | a :: as, each =>
    ⟨a.legible_of_foreign leads (List.forall_mem_append.1 each).1,
      argsLegible_of_foreign leads as (List.forall_mem_append.1 each).2⟩

theorem Arg.legible_of_foreign (leads : ∀ absolute ss, Leads f absolute ss) : (a : Arg) →
    (∀ e ∈ a.foreign, LegibleCode e.1 (Part.written f e.2)) → a.Legible f
  | .lifetime _, _ => trivial
  | .ty t, each => t.legible_of_foreign leads each
  | .other parts, each => held_of_foreign leads parts each

theorem held_of_foreign (leads : ∀ absolute ss, Leads f absolute ss) : (ps : List Part) →
    (∀ e ∈ partsForeign ps, LegibleCode e.1 (Part.written f e.2)) → Held f ps
  | [], _ => trivial
  | p :: ps, each =>
    ⟨p.legible_of_foreign leads (List.forall_mem_append.1 each).1,
      held_of_foreign leads ps (List.forall_mem_append.1 each).2⟩

theorem Part.legible_of_foreign (leads : ∀ absolute ss, Leads f absolute ss) : (p : Part) →
    (∀ e ∈ p.foreign, LegibleCode e.1 (Part.written f e.2)) → p.Holds f (Leads f) LegibleCode
  | .token _, _ => trivial
  | .ty t, each => t.legible_of_foreign leads each
  | .segment s, each => s.legible_of_foreign leads each
  | .embedded kind parts, each => each (kind, parts) (List.mem_singleton_self _)

end

end

/-- With plain imports only code of other kinds matters to the types, parameters and conditions of a struct. -/
theorem Accessors.Site.legible_of_foreign {s : Site}
    (plain : ∀ name path, .name name path ∈ s.imports.bindings → path.IsPlain)
    (named : "_" ∉ s.decl.generics.typeNames)
    (params : ∀ p ∈ s.decl.generics.params, ∀ e ∈ partsForeign (paramCode p.bare),
      LegibleCode e.1 (Part.written unchanged e.2))
    (clause : ∀ e ∈ partsForeign s.decl.generics.clause, LegibleCode e.1 (Part.written unchanged e.2))
    (types : ∀ fields, s.decl.fields = .named fields → ∀ f ∈ fields, f.isMarked = true → ∀ e ∈ f.ty.foreign,
      LegibleCode e.1 (Part.written (s.imports.head? s.decl.generics.typeNames) e.2)) : s.Legible where
  generics := by
    have leads (absolute : Bool) (ss : List Segment) : Leads unchanged absolute ss := fun _ _ found => nomatch found
    exact ⟨fun p mem => held_of_foreign leads _ (params p mem), held_of_foreign leads _ clause⟩
  named := named
  types fields same f mem marked :=
    f.ty.legible_of_foreign (leads_of_plain plain _) (types fields same f mem marked)

/-! ## Lengths -/

/-- A literal is a length, as is a path of names. -/
theorem legibleCode_of_isAtom {ts : List Token} (printable : Printable ts) (atom : ∀ depth, IsAtom true depth ts) :
    LegibleCode .expression ts where
  printable := printable
  reads depth enough d rest := by
    obtain ⟨depth, rfl⟩ : ∃ n, depth = n + 2 := ⟨depth - 2, by unfold Enough at enough; omega⟩
    have operand : IsOperand true (depth + 1) (ts ++ []) := isOperand_of_isAtom (atom _) isTrailers_nil
    rw [List.append_nil] at operand
    exact takes_fullExpr (isExpr_of_isOperand operand) _ rfl

theorem legibleCode_literal {text : String} (literal : IsLiteral text) : LegibleCode .expression [.literal text] :=
  legibleCode_of_isAtom ⟨⟨literal, trivial⟩, rfl⟩ fun _ => isAtom_literal text

theorem legibleCode_names {p : NamePath} (path : Accessors.CodePath p) : LegibleCode .expression p.tokens :=
  legibleCode_of_isAtom path.printable fun _ => isAtom_path path.path

end LiveSettings
