import LiveSettings.Accessors.Generator
import LiveSettings.Proofs.Code.Ensuring

/-!
# Names in source files

The grammar takes every name of a module, a function, a struct and a field from the tokens of the file, so that
each is an identifier and holds no point, no bracket and no blank. The types of fields, the parameters of structs and
what is imported are what the rules give somewhere among the tokens. What holds of an item if it holds of the items
in it, given all this, holds of all that is read.

Results:
* `Grammar.givesItems_deep`: what is inherited holds of the items that are read from the tokens.
* `SourceFile.named_ofText?`: the names in a file that was read.
-/

namespace LiveSettings

/-! ## What parsers give -/

namespace Parser

variable {α β : Type} {ts : List Token}

/-- On any end of the tokens, what the parser gives is as said. -/
def Gives (ts : List Token) (p : Parser α) (Q : α → Prop) : Prop :=
  ∀ s a s', s.rest <:+ ts → p.run s = some (a, s') → Q a

/-- What the parser gives on some end of the tokens. -/
def Yields (ts : List Token) (p : Parser α) (a : α) : Prop := ∃ s s', s.rest <:+ ts ∧ p.run s = some (a, s')

theorem gives_itself {p : Parser α} : p.Gives ts (p.Yields ts) := fun s _ s' within run => ⟨s, s', within, run⟩

/-- What a parser ensures holds of what it gives on the tokens of a file. -/
theorem Yields.exists_of_ensures {text : String} (lexed : Token.ofFile? text = some ts) {p : Parser α}
    {R : List Token → α → List Token → Prop} (ensures : ∀ us, p.Ensures us (R us)) {a : α} (given : p.Yields ts a) :
    ∃ us vs, R us a vs := by
  obtain ⟨s, s', within, run⟩ := given
  have words : Worded s.rest := fun name mem => Token.spelled_of_ofFile? lexed (within.subset mem)
  exact ⟨s.rest, s'.rest, ensures s.rest words s.found a s' run⟩

theorem gives_trivial {p : Parser α} : p.Gives ts fun _ => True := fun _ _ _ _ _ => trivial

theorem gives_pure {a : α} {Q : α → Prop} (h : Q a) : (pure a : Parser α).Gives ts Q := by
  intro s b s' _ run
  cases run
  exact h

theorem gives_failure {Q : α → Prop} : (failure : Parser α).Gives ts Q := by
  intro s b s' _ run
  cases run

theorem gives_bind {p : Parser α} {f : α → Parser β} {R : α → Prop} {Q : β → Prop} (first : p.Gives ts R)
    (second : ∀ a, R a → (f a).Gives ts Q) : (p >>= f).Gives ts Q := by
  intro s b s'' within run
  rw [run_bind] at run
  obtain ⟨⟨a, s'⟩, here, later⟩ := Option.bind_eq_some_iff.1 run
  exact second a (first s a s' within here) s' b s'' ((suffix_of_run here).trans within) later

/-- What the parser in front gives does not matter. -/
theorem gives_after {p : Parser α} {f : α → Parser β} {Q : β → Prop} (second : ∀ a, (f a).Gives ts Q) :
    (p >>= f).Gives ts Q :=
  gives_bind gives_trivial fun a _ => second a

theorem gives_ite {c : Prop} [Decidable c] {p q : Parser α} {Q : α → Prop} (first : p.Gives ts Q)
    (second : q.Gives ts Q) : (if c then p else q).Gives ts Q := by
  split
  · exact first
  · exact second

/-- Nor does it matter whether a parser runs in front. -/
theorem gives_when {c : Prop} [Decidable c] {p : Parser Unit} {f : Unit → Parser β} {Q : β → Prop}
    (second : ∀ a, (f a).Gives ts Q) : (if c then p >>= f else f ()).Gives ts Q := by
  split
  · exact gives_after second
  · exact second ()

/-- An identifier is none of the keywords. -/
theorem gives_ident : ident.Gives ts fun name => .ident name ∈ ts ∧ name ∉ keywords := by
  intro s name s' within run
  obtain ⟨rest, found⟩ := s
  unfold ident at run
  rw [run_bind, Option.bind_eq_some_iff] at run
  obtain ⟨⟨here, s₁⟩, seen, run⟩ := run
  cases seen
  rw [run_bind, Option.bind_eq_some_iff] at run
  obtain ⟨⟨_, s₂⟩, checked, run⟩ := run
  have same : s₂ = ⟨rest, found⟩ ∧ isIdent rest = true := by
    unfold guarded at checked
    split at checked <;> cases checked
    exact ⟨rfl, ‹_›⟩
  obtain ⟨rfl, identifier⟩ := same
  cases rest with
  | nil => cases run
  | cons t rest =>
    cases t with
    | ident n =>
      cases run
      exact ⟨within.subset List.mem_cons_self, by simpa [isIdent] using identifier⟩
    | mark _ _ | literal _ | opening _ | closing _ => cases run

theorem gives_anyWord : anyWord.Gives ts fun name => .ident name ∈ ts := by
  intro s name s' within run
  obtain ⟨rest, found⟩ := s
  cases rest with
  | nil => cases run
  | cons t rest =>
    cases t with
    | ident n =>
      cases run
      exact within.subset List.mem_cons_self
    | mark _ _ | literal _ | opening _ | closing _ => cases run

/-- A word in front is the one that was looked for. -/
theorem gives_wordAhead {w : String} {f : String → Parser β} {q : Parser β} {Q : β → Prop} (first : (f w).Gives ts Q)
    (second : q.Gives ts Q) : (do
      if ← peek (isWord w) then
        let name ← anyWord
        f name
      else q).Gives ts Q := by
  intro s b s' within run
  obtain ⟨rest, found⟩ := s
  rw [run_bind, Option.bind_eq_some_iff] at run
  obtain ⟨⟨here, s₁⟩, seen, run⟩ := run
  cases seen
  dsimp only at run
  split at run
  · rename_i word
    cases rest with
    | nil => cases word
    | cons t rest =>
      cases t with
      | ident n =>
        obtain rfl : n = w := beq_iff_eq.1 word
        rw [run_bind, Option.bind_eq_some_iff] at run
        obtain ⟨⟨m, s₂⟩, taken, run⟩ := run
        cases taken
        exact first _ b s' ((List.suffix_cons _ rest).trans within) run
      | mark _ _ | literal _ | opening _ | closing _ => cases word
  · exact second _ b s' within run

theorem gives_inside {d : Delimiter} {p : Parser α} {Q : α → Prop} (h : p.Gives ts Q) :
    (inside d p).Gives ts Q := by
  unfold inside
  refine gives_after fun _ => gives_after fun _ => gives_after fun _ => gives_bind h fun a ha => ?_
  refine gives_after fun t => ?_
  split
  · split
    · exact gives_pure ha
    · exact gives_failure
  · exact gives_failure

theorem gives_manyLoop {look : List Token → Bool} {p : Parser α} {Q : α → Prop} (h : p.Gives ts Q)
    (fuel : Nat) : (manyLoop look p fuel).Gives ts fun as => ∀ a ∈ as, Q a := by
  induction fuel with
  | zero => exact gives_failure
  | succ fuel ih =>
    unfold manyLoop
    refine gives_after fun more => ?_
    split
    · refine gives_bind h fun a ha => gives_bind ih fun as has => gives_pure ?_
      exact List.forall_mem_cons.2 ⟨ha, has⟩
    · exact gives_pure fun a mem => absurd mem List.not_mem_nil

theorem gives_many {look : List Token → Bool} {p : Parser α} {Q : α → Prop} (h : p.Gives ts Q) :
    (many look p).Gives ts fun as => ∀ a ∈ as, Q a :=
  gives_after fun rest => gives_manyLoop h (rest.length + 1)

theorem gives_collecting {p : Parser α} {Q : α → Prop} (h : p.Gives ts Q) :
    (collecting p).Gives ts fun r => Q r.1 := by
  unfold collecting
  exact gives_after fun _ => gives_bind h fun a ha => gives_after fun _ => gives_pure ha

theorem of_runAll {p : Parser α} {Q : α → Prop} {a : α} (h : p.Gives ts Q) (run : p.runAll ts = some a) :
    Q a := by
  obtain ⟨⟨b, s⟩, here, whole⟩ := Option.bind_eq_some_iff.1 run
  dsimp only at whole
  split at whole
  · cases whole
    exact h ⟨ts, []⟩ _ s List.suffix_rfl here
  · cases whole

end Parser

/-! ## Names of items -/

mutual

/-- The names of the modules, functions and structs in an item, as far as a scan looks into it. -/
def Item.names : Item → List String
  | .struct decl => [decl.name]
  | .module name items => name :: itemNames items
  | .function name body _ => name :: itemNames body
  | .implementation _ _ members => itemNames members
  | .typeName _ | .imports _ _ | .other _ => []

def itemNames : List Item → List String
  | [] => []
  | i :: is => i.names ++ itemNames is

end

theorem mem_itemNames {name : String} {items : List Item} :
    name ∈ itemNames items ↔ ∃ i ∈ items, name ∈ i.names := by
  induction items with
  | nil => simp [itemNames]
  | cons i items ih => simp [itemNames, ih]

namespace Grammar

open LiveSettings.Parser

/-- An identifier among the tokens. -/
def IsName (ts : List Token) (name : String) : Prop := .ident name ∈ ts ∧ name ∉ keywords

/-- The field has no name, or an identifier among the tokens and a type that the rules give on them. -/
def FieldIn (ts : List Token) (f : Field) : Prop :=
  f.name = "_" ∨ (IsName ts f.name ∧ ∃ depth, (deep depth).fullTy.Yields ts f.ty)

/-- The name of the struct is an identifier among the tokens, and what it is made of is what the rules give on them. -/
structure DeclaredIn (ts : List Token) (d : Struct) : Prop where
  name : IsName ts d.name
  fields : ∀ fields, d.fields = .named fields → ∀ f ∈ fields, FieldIn ts f
  params : ∃ depth ps, (deep depth).generics.Yields ts ps ∧ d.generics.params = ps.params
  clause : ∃ depth, (deep depth).clause.Yields ts d.generics.clause

/-- The rules give what is imported on the tokens. -/
def ImportedIn (ts : List Token) (tree : UseTree) : Prop := ∃ fuel roots, (useTreeLoop fuel roots).Yields ts (some tree)

/-- What holds of an item that is read from the tokens, if it holds of the items in it. -/
structure Inherited (ts : List Token) (P : Item → Prop) : Prop where
  struct : ∀ d, DeclaredIn ts d → P (.struct d)
  typeName : ∀ name, P (.typeName name)
  module : ∀ name items, .ident name ∈ ts → (∀ i ∈ items, P i) → P (.module name items)
  function : ∀ name body inner, .ident name ∈ ts → (∀ i ∈ body, P i) → P (.function name body inner)
  implementation : ∀ head self members, (∀ i ∈ members, P i) → P (.implementation head self members)
  imports : ∀ absolute tree, ImportedIn ts tree → P (.imports absolute tree)
  other : ∀ inner, P (.other inner)

variable {ts : List Token} {P : Item → Prop} {g : Grammar}

/-- What a grammar has to give for the rules over it to give it too. -/
structure GivesItems (ts : List Token) (P : Item → Prop) (g : Grammar) : Prop where
  deep : ∃ depth, g = deep depth
  item : g.item.Gives ts P
  statements : g.statements.Gives ts fun r => ∀ i ∈ r.2, P i

theorem gives_namedField (deep : ∃ depth, g = deep depth) : g.namedField.Gives ts (FieldIn ts) := by
  obtain ⟨depth, rfl⟩ := deep
  unfold namedField
  refine gives_after fun attrs => gives_after fun _ => gives_wordAhead ?_ ?_
  · refine gives_after fun _ => gives_after fun _ => gives_ite (gives_after fun _ => gives_pure (.inl rfl)) ?_
    exact gives_after fun _ => gives_pure (.inl rfl)
  · refine gives_bind gives_ident fun name hname => gives_after fun _ => gives_bind gives_itself fun type given => ?_
    exact gives_pure (.inr ⟨hname, depth, given⟩)

theorem gives_separatedLoop {α : Type} {stop more : List Token → Bool} {sep : Parser (List Part)} {p : Parser α}
    {Q : α → Prop} (h : p.Gives ts Q) (fuel : Nat) :
    (separatedLoop stop more sep p fuel).Gives ts fun r => ∀ a ∈ r.1, Q a := by
  induction fuel with
  | zero => exact gives_failure
  | succ fuel ih =>
    unfold separatedLoop
    refine gives_after fun stopped => gives_ite (gives_pure fun _ mem => absurd mem List.not_mem_nil) (gives_bind h fun a ha => ?_)
    refine gives_after fun further => gives_ite (gives_after fun _ => gives_bind ih fun r hr => ?_) ?_
    · exact gives_pure (List.forall_mem_cons.2 ⟨ha, hr⟩)
    · exact gives_pure fun b mem => List.mem_singleton.1 mem ▸ ha

theorem gives_namedFields (deep : ∃ depth, g = deep depth) :
    g.namedFields.Gives ts fun fields => ∀ f ∈ fields, FieldIn ts f := by
  unfold namedFields
  refine gives_inside ?_
  have loop : (separated isEnd "," g.namedField).Gives ts fun r => ∀ f ∈ r.1, FieldIn ts f :=
    gives_after fun rest => gives_separatedLoop (gives_namedField deep) _
  exact gives_bind loop fun r fields => gives_pure fields

theorem gives_structRest (deep : ∃ depth, g = deep depth) (attrs : List Attr) :
    (g.structRest attrs).Gives ts (DeclaredIn ts) := by
  have fields : g.namedFields.Gives ts fun fields => ∀ f ∈ fields, FieldIn ts f := gives_namedFields deep
  obtain ⟨depth, rfl⟩ := deep
  unfold structRest
  refine gives_after fun _ => gives_bind gives_ident fun name hname => gives_bind gives_itself fun params given => ?_
  have declared {members : Fields} {clause : List Part} (behind : (Grammar.deep depth).clause.Yields ts clause)
      (each : ∀ fields, members = .named fields → ∀ f ∈ fields, FieldIn ts f) :
      DeclaredIn ts ⟨attrs, name, { params with clause }, members⟩ :=
    ⟨hname, each, ⟨depth, params, given, rfl⟩, ⟨depth, behind⟩⟩
  refine gives_after fun _ => gives_bind gives_itself fun clause behind => gives_after fun _ => ?_
  refine gives_ite (gives_after fun _ => gives_bind gives_itself fun clause behind => gives_after fun _ =>
    gives_pure (declared behind nofun)) ?_
  refine gives_ite (gives_bind fields fun fields each => gives_pure (declared behind ?_))
    (gives_after fun _ => gives_pure (declared behind nofun))
  rintro _ ⟨⟩
  exact each

theorem gives_skipped (h : Inherited ts P) {α : Type} (p : Parser α) : (skipped p).Gives ts P :=
  gives_after fun _ => gives_pure (h.other _)

theorem gives_functionHead : g.functionHead.Gives ts fun r => .ident r.1 ∈ ts := by
  unfold functionHead
  refine gives_after fun _ => gives_bind gives_ident fun name hname => ?_
  exact gives_after fun _ => gives_after fun _ => gives_after fun _ => gives_pure hname.1

theorem gives_functionBody (given : g.GivesItems ts P) : g.functionBody.Gives ts fun body => ∀ i ∈ body, P i :=
  gives_inside (gives_after fun _ => gives_bind given.statements fun _ items => gives_pure items)

theorem gives_functionItem (h : Inherited ts P) (given : g.GivesItems ts P) : g.functionItem.Gives ts P := by
  have head : ((do
      let head ← g.functionHead
      if ← peek (isOp ";") then
        discard (op ";")
        return (head.1, none)
      return (head.1, some (← g.functionBody))) : Parser (String × Option (List Item))).Gives ts fun r =>
        .ident r.1 ∈ ts ∧ ∀ body ∈ r.2, ∀ i ∈ body, P i := by
    refine gives_bind gives_functionHead fun r hname => gives_after fun _ => ?_
    split
    · exact gives_after fun _ => gives_pure ⟨hname, fun _ none => by cases none⟩
    · refine gives_bind (gives_functionBody given) fun body hbody => gives_pure ⟨hname, fun b mem => ?_⟩
      cases mem
      exact hbody
  refine gives_bind (gives_collecting head) fun r hr => ?_
  obtain ⟨⟨name, body⟩, inner⟩ := r
  cases body with
  | none => exact gives_pure (h.other inner)
  | some body => exact gives_pure (h.function name body inner hr.1 (hr.2 body rfl))

theorem gives_implMember (h : Inherited ts P) (given : g.GivesItems ts P) : g.implMember.Gives ts P := by
  unfold implMember
  refine gives_after fun _ => gives_after fun _ => gives_after fun _ => gives_when fun _ => gives_after fun _ => ?_
  split
  · exact gives_functionItem h given
  · split
    · exact gives_skipped h _
    · split
      · exact gives_skipped h _
      · split
        · exact gives_skipped h _
        · exact gives_failure

theorem gives_implementationRest (h : Inherited ts P) (given : g.GivesItems ts P) (visible : Bool) :
    (g.implementationRest visible).Gives ts P := by
  unfold implementationRest
  refine gives_after fun _ => gives_after fun _ => gives_when fun _ => gives_after fun _ => gives_when fun _ => ?_
  refine gives_after fun _ => gives_after fun _ => gives_when fun _ => gives_after fun _ => ?_
  refine gives_after fun _ => gives_after fun _ => gives_ite (gives_after fun _ => gives_after ?members)
    (gives_ite (gives_after ?members) (gives_after ?members))
  intro self
  have members : g.implMembers.Gives ts fun members => ∀ i ∈ members, P i := by
    unfold implMembers
    exact gives_after fun _ => gives_inside (gives_after fun _ => gives_many (gives_implMember h given))
  refine gives_bind members fun members all => gives_ite (gives_pure (h.other members)) ?_
  split
  · exact gives_pure (h.implementation _ _ _ all)
  · exact gives_pure (h.implementation _ _ _ all)

theorem gives_moduleRest (h : Inherited ts P) (given : g.GivesItems ts P) : g.moduleRest.Gives ts P := by
  have module (name : String) (hname : .ident name ∈ ts) : (do
      if ← peek (isOp ";") then
        discard (op ";")
        return .other []
      let items ← inside .brace do
        discard g.innerAttrs
        many (fun ts => !isEnd ts) g.item
      return .module name items : Parser Item).Gives ts P := by
    refine gives_after fun _ => gives_ite (gives_after fun _ => gives_pure (h.other [])) ?_
    exact gives_bind (gives_inside (gives_after fun _ => gives_many given.item)) fun items all =>
      gives_pure (h.module name items hname all)
  unfold moduleRest
  refine gives_after fun _ => gives_after fun _ => ?_
  exact gives_ite (gives_bind gives_anyWord module) (gives_bind gives_ident fun name hname => module name hname.1)

theorem gives_importsRest (h : Inherited ts P) : importsRest.Gives ts P := by
  unfold importsRest
  refine gives_after fun _ => gives_after fun _ => gives_after fun _ => gives_after fun _ => ?_
  refine gives_bind gives_itself fun tree given => gives_after fun _ => ?_
  cases tree with
  | none => exact gives_pure (h.other [])
  | some tree => exact gives_pure (h.imports _ tree ⟨_, _, given⟩)

theorem gives_itemRest (h : Inherited ts P) (given : g.GivesItems ts P) (attrs : List Attr) :
    (g.itemRest attrs).Gives ts P := by
  have skip {α : Type} (p : Parser α) : (skipped p).Gives ts P := gives_skipped h p
  have implementation (visible : Bool) := gives_implementationRest h given visible
  unfold itemRest
  refine gives_after fun visible => gives_after fun rest => ?_
  refine gives_ite (gives_functionItem h given) (gives_ite ?foreign (gives_ite (gives_importsRest h) ?_))
  case foreign => exact gives_ite (skip _) (skip _)
  refine gives_ite (skip _) (gives_ite (skip _) (gives_ite ?guarded ?_))
  case guarded =>
    refine gives_ite (skip _) (gives_ite (implementation _) ?_)
    exact gives_ite (skip _) (gives_ite (gives_moduleRest h given) gives_failure)
  refine gives_ite (gives_moduleRest h given) (gives_ite ?typeAlias (gives_ite ?struct ?_))
  case typeAlias =>
    refine gives_after fun _ => gives_pure ?_
    split
    · exact h.typeName _
    · exact h.other []
  case struct => exact gives_bind (gives_structRest given.deep attrs) fun decl named => gives_pure (h.struct decl named)
  refine gives_ite (gives_after fun _ => gives_pure (h.typeName _)) (gives_ite (gives_after fun _ =>
    gives_pure (h.typeName _)) ?_)
  refine gives_ite (skip _) (gives_ite (implementation _) ?_)
  exact gives_ite (skip _) (gives_ite (skip _) gives_failure)

theorem gives_statement (h : Inherited ts P) (given : g.GivesItems ts P) :
    g.statement.Gives ts fun r => ∀ i ∈ r.2.1, P i := by
  have none : ∀ i ∈ ([] : List Item), P i := fun _ mem => nomatch mem
  unfold statement
  refine gives_after fun _ => gives_after fun attrs => gives_after fun _ => gives_after fun _ => ?_
  refine gives_ite (gives_after fun _ => gives_pure none) (gives_ite (gives_after fun _ => gives_pure none) ?_)
  refine gives_ite ?item (gives_after fun _ => gives_after fun _ => gives_pure none)
  refine gives_bind (gives_itemRest h given attrs) fun i holds => gives_after fun _ => gives_pure ?_
  exact fun j only => List.mem_singleton.1 only ▸ holds

theorem gives_statementsLoop (h : Inherited ts P) (given : g.GivesItems ts P) (fuel : Nat) :
    (g.statementsLoop fuel).Gives ts fun r => ∀ i ∈ r.2, P i := by
  induction fuel with
  | zero => exact gives_failure
  | succ fuel ih =>
    unfold statementsLoop
    refine gives_after fun _ => gives_ite (gives_pure fun _ mem => nomatch mem) (gives_ite ?_ ?_)
    · exact gives_after fun _ => gives_bind ih fun r all => gives_pure all
    · refine gives_bind (gives_statement h given) fun r here => gives_after fun _ => gives_after fun _ => ?_
      refine gives_bind ih fun r' later => gives_pure fun i mem => ?_
      rcases List.mem_append.1 mem with first | rest
      · exact here i first
      · exact later i rest

/-- What is inherited holds of the items that are read from the tokens, whatever the depth. -/
theorem givesItems_deep (h : Inherited ts P) (depth : Nat) : (deep depth).GivesItems ts P := by
  unfold deep
  induction depth with
  | zero => exact ⟨⟨0, rfl⟩, gives_failure, gives_failure⟩
  | succ depth ih =>
    exact ⟨⟨depth + 1, rfl⟩, gives_after fun attrs => gives_itemRest h ih attrs,
      gives_after fun _ => gives_statementsLoop h ih _⟩

/-- The names in an item are identifiers among the tokens it is read from. -/
theorem inherited_names : Inherited ts fun i => ∀ name ∈ i.names, .ident name ∈ ts where
  struct d named name mem := List.mem_singleton.1 mem ▸ named.name.1
  typeName _ _ mem := nomatch mem
  module name items here all n mem := by
    rcases List.mem_cons.1 mem with rfl | mem
    · exact here
    · obtain ⟨i, inside, mem⟩ := mem_itemNames.1 mem
      exact all i inside n mem
  function name body inner here all n mem := by
    rcases List.mem_cons.1 mem with rfl | mem
    · exact here
    · obtain ⟨i, inside, mem⟩ := mem_itemNames.1 mem
      exact all i inside n mem
  implementation head self members all n mem := by
    obtain ⟨i, inside, mem⟩ := mem_itemNames.1 mem
    exact all i inside n mem
  imports _ _ _ _ mem := nomatch mem
  other _ _ mem := nomatch mem

end Grammar

namespace Accessors.SourceFile

/-- The names in a file are identifiers. -/
def Named (f : SourceFile) : Prop := ∀ name ∈ itemNames f.items, Text.isIdentifier name = true

/-- What is inherited from the tokens of a file holds of its items. -/
theorem items_ofText? {modulePath : List String} {text : String} {f : SourceFile}
    (h : ofText? modulePath text = some f) : f.modulePath = modulePath ∧ ∃ ts, Token.ofFile? text = some ts ∧
      ∀ P : Item → Prop, Grammar.Inherited ts P → ∀ i ∈ f.items, P i := by
  obtain ⟨ts, lexed, h⟩ := Option.bind_eq_some_iff.1 h
  obtain ⟨items, parsed, made⟩ := Option.bind_eq_some_iff.1 h
  cases made
  refine ⟨rfl, ts, lexed, fun P inherited => ?_⟩
  have given : (Grammar.deep (8 * (ts.length + 4))).GivesItems ts P := Grammar.givesItems_deep inherited _
  exact Parser.of_runAll (Parser.gives_after fun _ => Parser.gives_many given.item) parsed

/-- The names in a file that was read are identifiers. -/
theorem named_ofText? {modulePath : List String} {text : String} {f : SourceFile}
    (h : ofText? modulePath text = some f) : f.Named := by
  obtain ⟨-, ts, lexed, items⟩ := items_ofText? h
  intro name mem
  obtain ⟨i, inFile, mem⟩ := mem_itemNames.1 mem
  exact Token.isIdentifier_of_ofFile? lexed (items _ Grammar.inherited_names i inFile name mem)

/-- The file was read from a text. -/
def Read (f : SourceFile) : Prop := ∃ text, ofText? f.modulePath text = some f

theorem read_of_ofText? {modulePath : List String} {text : String} {f : SourceFile}
    (h : ofText? modulePath text = some f) : f.Read :=
  ⟨text, by rw [(items_ofText? h).1, h]⟩

theorem Read.named {f : SourceFile} (read : f.Read) : f.Named := by
  obtain ⟨text, read⟩ := read
  exact named_ofText? read

end Accessors.SourceFile

end LiveSettings
