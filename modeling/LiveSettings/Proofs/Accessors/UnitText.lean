import LiveSettings.Proofs.Accessors.Nesting
import LiveSettings.Proofs.Accessors.UnitTable
import LiveSettings.Proofs.Code.Rereading

/-!
# The text of a unit

The text of a unit is a file with two or three implementations for the type: its table of properties, the
notification trait unless the type declares it, and the functions of its properties. The table holds the name and
the key of each property, whatever characters these are of.

Results:
* `Emitted.printable_tokens`: the code of a unit can be written.
* `Emitted.parse_tokens`: the code is read as the implementations.
* `Emitted.table_tokens`: the table is read from the code.
-/

namespace LiveSettings.Accessors

open LiveSettings.Parser LiveSettings.Grammar LiveSettings.Token

/-! ## Implementations -/

/-- The functions of a property with their names. -/
def Group.members (runtime : List Token) (context : String) (g : Group) : List (String × List Token) :=
  [(g.getter, g.getterTokens runtime context), (g.setter, g.setterTokens runtime context)] ++
    if g.raisesEvent then [(g.event, g.eventTokens runtime context)] else []

theorem Group.forall_mem_members {g : Group} {runtime : List Token} {context : String} {P : String × List Token → Prop}
    (getter : P (g.getter, g.getterTokens runtime context)) (setter : P (g.setter, g.setterTokens runtime context))
    (event : P (g.event, g.eventTokens runtime context)) : ∀ m ∈ g.members runtime context, P m := by
  refine List.forall_mem_append.2 ⟨forall_mem_pair.2 ⟨getter, setter⟩, ?_⟩
  split
  · exact List.forall_mem_singleton.2 event
  · exact nofun

namespace Emitted

/-- The implementations of a unit: the trait of each, and its functions. -/
def implementations (runtime : NamePath) (e : Emitted) : List (Option NamePath × List (String × List Token)) :=
  [(some (runtime.push "ObservableSettings"),
    [("settings_context", contextFunction runtime.tokens e.contextField),
      ("setting_properties", tableFunction runtime.tokens e.rows)])] ++
  (if e.notifies then
    [(some (runtime.push notifyTrait), [("property_changed", notificationFunction runtime.tokens e.contextField)])]
  else []) ++
  [(none, e.groups.flatMap (·.members runtime.tokens e.contextField))]

theorem implHead_trait {runtime : NamePath} (path : IsPath runtime) (e : Emitted) (trait : String)
    (members : List (String × List Token)) :
    e.implHead (below runtime.tokens [trait]) ++ brace (members.flatMap (·.2)) =
      implementationTokens (some (runtime.push trait)) e.name e.generics members := by
  have some : (below runtime.tokens [trait]).isEmpty = false := by simp [below, Token.op, Token.marks]
  rw [implHead, some, below_one path]
  simp [implementationTokens, traitTokens, membersTokens, word, brace]

theorem implHead_inherent (e : Emitted) (members : List (String × List Token)) :
    e.implHead [] ++ brace (members.flatMap (·.2)) = implementationTokens none e.name e.generics members := by
  simp [implHead, implementationTokens, traitTokens, membersTokens, word, brace]

theorem tableTokens_eq {runtime : NamePath} (path : IsPath runtime) (e : Emitted) : e.tableTokens runtime.tokens =
    implementationTokens (some (runtime.push "ObservableSettings")) e.name e.generics
      [("settings_context", contextFunction runtime.tokens e.contextField),
        ("setting_properties", tableFunction runtime.tokens e.rows)] := by
  rw [← implHead_trait path, tableTokens, ← listed_eq]
  simp [contextFunction, tableFunction, functionTokens, constantTokens, resultTokens, receiverTokens, word, paren,
    brace, selfRef]

theorem notifyTokens_eq {runtime : NamePath} (path : IsPath runtime) (e : Emitted) : e.notifyTokens runtime.tokens =
    implementationTokens (some (runtime.push notifyTrait)) e.name e.generics
      [("property_changed", notificationFunction runtime.tokens e.contextField)] := by
  rw [← implHead_trait path, notifyTokens]
  simp [notificationFunction, functionTokens, resultTokens, receiverTokens, word, paren, brace, selfRef, member,
    arguments, listed]

theorem accessorTokens_eq (runtime : List Token) (e : Emitted) : e.accessorTokens runtime =
    implementationTokens none e.name e.generics (e.groups.flatMap (·.members runtime e.contextField)) := by
  have each (g : Group) : g.tokens runtime e.contextField =
      (g.members runtime e.contextField).flatMap fun m => m.2 := by
    unfold Group.tokens Group.members
    split <;> simp
  rw [← implHead_inherent, accessorTokens, List.flatMap_assoc]
  simp only [each]

/-- The tokens of a unit are those of its implementations. -/
theorem tokens_eq {runtime : NamePath} (path : IsPath runtime) (e : Emitted) : e.tokens runtime.tokens =
    (e.implementations runtime).flatMap fun i => implementationTokens i.1 e.name e.generics i.2 := by
  rw [tokens, tableTokens_eq path, notifyTokens_eq path, accessorTokens_eq, implementations]
  split <;> simp

end Emitted

/-! ## What is legible -/

/-- Tokens that are read back from their text as a type. -/
structure LegibleTy (ts : List Token) : Prop where
  printable : Printable ts
  reads : ReadsTy (8 * ts.length + 8) ts

/-- The parameters of a type that can be written. -/
structure PrintableHead (g : Generics) : Prop where
  declaration : Printable g.declaration
  arguments : Printable g.arguments
  clause : Printable g.clauseTokens

/-- The name and the parameters of a type that are read back from the text of an implementation. -/
structure LegibleHead (name : String) (g : Generics) : Prop extends PrintableHead g where
  reads : ∀ depth, Below depth (g.declaration ++ g.arguments ++ g.clauseTokens) → IsHead depth name g

/-- The types and the head of a unit can be written, and its context has a name. -/
structure Emitted.Printable (e : Emitted) : Prop where
  head : PrintableHead e.generics
  types : ∀ g ∈ e.groups, Token.Printable g.type.tokens
  context : e.contextField ≠ "_"

/-- The types and the head of a unit are read back, and its context has a name. -/
structure Emitted.Legible (e : Emitted) : Prop where
  head : LegibleHead e.name e.generics
  types : ∀ g ∈ e.groups, LegibleTy g.type.tokens
  context : e.contextField ≠ "_"

theorem Emitted.Legible.toPrintable {e : Emitted} (h : e.Legible) : e.Printable where
  head := h.head.toPrintableHead
  types g mem := (h.types g mem).printable
  context := h.context

/-! ## Printing -/

theorem printable_word {name : String} (h : Spelled name) : Printable (word name) := ⟨⟨h, trivial⟩, rfl⟩

theorem printable_text (s : String) : Printable (text s) := ⟨⟨isLiteral_literal s, trivial⟩, rfl⟩

theorem printable_truth (b : Bool) : Printable (truth b) := printable_word (by cases b <;> decide)

/-- A path of names that can be written, such as that of the library. -/
structure CodePath (runtime : NamePath) : Prop where
  path : IsPath runtime
  spelled : ∀ n ∈ runtime.names, Spelled n

theorem CodePath.printable {runtime : NamePath} (library : CodePath runtime) : Printable runtime.tokens := by
  refine .append ?_ (printable_intercalate (printable_op (by decide)) fun ts piece => ?_)
  · cases runtime.absolute with
    | true => exact printable_op (by decide)
    | false => exact printable_nil
  · obtain ⟨n, mem, rfl⟩ := List.mem_map.1 piece
    exact printable_word (library.spelled n mem)

section

variable {runtime : List Token} (library : Printable runtime)

include library

theorem printable_below {names : List String} (spelled : ∀ n ∈ names, Spelled n) : Printable (below runtime names) :=
  library.append (printable_flatMap fun n mem => (printable_op (by decide)).append (printable_word (spelled n mem)))

theorem printable_row (r : Row) : Printable (r.tokens runtime) := by
  have strategy : Spelled r.strategy.name := by cases r.strategy <;> decide
  have chosen : Printable (below runtime ["StorageStrategy", r.strategy.name]) :=
    printable_below library (forall_mem_pair.2 ⟨by decide, strategy⟩)
  unfold Row.tokens brace
  repeat' first | with_reducible apply Printable.group | with_reducible apply Printable.append
  all_goals with_reducible first
    | exact chosen
    | exact printable_text _
    | exact printable_truth _
    | exact printable_op (by decide)
    | exact printable_word (by decide)
    | exact printable_below library (by decide)

/-- The functions of a property. -/
theorem printable_group {context : String} (owner : Spelled context) {g : Group} (named : g.Named)
    (type : Printable g.type.tokens) : Printable (g.tokens runtime context) := by
  have access {function : String} (name : CodeName function) : Printable (below runtime ["access", function]) :=
    printable_below library (forall_mem_pair.2 ⟨by decide, name.spelled⟩)
  have event : Printable (if g.raisesEvent then g.raiseTokens runtime else []) := by
    split
    · unfold Group.raiseTokens selfField paren
      repeat' first | with_reducible apply Printable.group | with_reducible apply Printable.append
      all_goals with_reducible first
        | exact printable_nil
        | exact printable_word named.event.spelled
        | exact printable_op (by decide)
        | exact printable_word (by decide)
        | exact printable_below library (by decide)
    · exact printable_nil
  have last : Printable (if g.raisesEvent then g.eventTokens runtime context else []) := by
    split
    · unfold Group.eventTokens selfField selfRef paren brace doc
      repeat' first | with_reducible apply Printable.group | with_reducible apply Printable.append
      all_goals with_reducible first
        | exact type
        | exact printable_nil
        | exact printable_text _
        | exact printable_word owner
        | exact printable_word named.event.spelled
        | exact printable_op (by decide)
        | exact printable_word (by decide)
        | exact printable_below library (by decide)
    · exact printable_nil
  unfold Group.tokens Group.getterTokens Group.setterTokens Group.storeArgs selfField selfRef paren brace doc
  repeat' first | with_reducible apply Printable.group | with_reducible apply Printable.append
  all_goals with_reducible first
    | exact type
    | exact event
    | exact last
    | exact printable_nil
    | exact printable_text _
    | exact access named.read
    | exact access named.write
    | exact access named.unchanged
    | exact printable_word owner
    | exact printable_word named.field.spelled
    | exact printable_word named.getter.spelled
    | exact printable_word named.setter.spelled
    | exact printable_op (by decide)
    | exact printable_word (by decide)
    | exact printable_below library (by decide)

end

namespace Group

/-- No function starts like an attribute of what it stands in. -/
theorem bare_members (g : Group) (runtime : List Token) (context : String) : ∀ m ∈ g.members runtime context,
    ∀ rest, (isOp "#" (m.2 ++ rest) && second (isOp "!") (m.2 ++ rest)) = false := by
  have documented (s : String) (ts : List Token) :
      (isOp "#" (doc s ++ ts) && second (isOp "!") (doc s ++ ts)) = false := rfl
  have getter (rest : List Token) : (isOp "#" (g.getterTokens runtime context ++ rest) &&
      second (isOp "!") (g.getterTokens runtime context ++ rest)) = false := by
    simp only [getterTokens, List.append_assoc]
    exact documented _ _
  have setter (rest : List Token) : (isOp "#" (g.setterTokens runtime context ++ rest) &&
      second (isOp "!") (g.setterTokens runtime context ++ rest)) = false := by
    simp only [setterTokens, List.append_assoc]
    exact documented _ _
  have event (rest : List Token) : (isOp "#" (g.eventTokens runtime context ++ rest) &&
      second (isOp "!") (g.eventTokens runtime context ++ rest)) = false := by
    unfold eventTokens
    simp only [List.append_assoc]
    exact documented _ _
  exact forall_mem_members getter setter event

theorem isMember_members {runtime : NamePath} (path : IsPath runtime) {context : String} (plain : context ∉ keywords)
    {g : Group} (named : g.Named) {d : Nat} (type : ReadsTy (d + 1) g.type.tokens) :
    ∀ m ∈ g.members runtime.tokens context, IsMember (d + 10) m.1 m.2 := by
  have getter : IsMember (d + 4 + 6) g.getter (g.getterTokens runtime.tokens context) :=
    isMember_getter path plain named (type _ (by omega))
  have setter : IsMember (d + 1 + 9) g.setter (g.setterTokens runtime.tokens context) :=
    isMember_setter path plain named (type _ (by omega))
  have event : IsMember (d + 4 + 6) g.event (g.eventTokens runtime.tokens context) :=
    isMember_event path plain named fun d' deep => type d' (by omega)
  exact forall_mem_members getter setter event

end Group

namespace Emitted

variable {runtime : NamePath} (library : CodePath runtime) {e : Emitted} (named : e.Named)

include library named in
/-- The code of a unit can be written wherever its types and its head can. -/
theorem printable_tokens (printable : e.Printable) : Token.Printable (e.tokens runtime.tokens) := by
  have owner : Spelled e.contextField := (named.context.resolve_left printable.context).spelled
  have listed : Token.Printable ((Token.op ",").intercalate (e.rows.map (·.tokens runtime.tokens))) := by
    refine printable_intercalate (printable_op (by decide)) fun ts mem => ?_
    obtain ⟨r, -, rfl⟩ := List.mem_map.1 mem
    exact printable_row library.printable r
  have groups : Token.Printable (e.groups.flatMap (·.tokens runtime.tokens e.contextField)) :=
    printable_flatMap fun g mem => printable_group library.printable owner (named.groups g mem) (printable.types g mem)
  have head {trait : List Token} (given : Token.Printable trait) : Token.Printable (e.implHead trait) := by
    have given : Token.Printable (if trait.isEmpty then [] else trait ++ word "for") := by
      split
      · exact printable_nil
      · exact given.append (printable_word (by decide))
    exact (((((printable_word (by decide)).append printable.head.declaration).append given).append
      (printable_word named.name.spelled)).append printable.head.arguments).append printable.head.clause
  have notification : Token.Printable (if e.notifies then e.notifyTokens runtime.tokens else []) := by
    split
    · unfold notifyTokens selfField selfRef paren brace
      repeat' first | with_reducible apply Token.Printable.group | with_reducible apply Token.Printable.append
      all_goals with_reducible first
        | exact printable_nil
        | exact head (printable_below library.printable (by decide))
        | exact printable_word owner
        | exact printable_op (by decide)
        | exact printable_word (by decide)
        | exact printable_below library.printable (by decide)
    · exact printable_nil
  unfold tokens tableTokens accessorTokens selfField selfRef paren brace
  repeat' first | with_reducible apply Token.Printable.group | with_reducible apply Token.Printable.append
  all_goals with_reducible first
    | exact listed
    | exact groups
    | exact notification
    | exact printable_nil
    | exact head printable_nil
    | exact head (printable_below library.printable (by decide))
    | exact printable_word owner
    | exact printable_lifetime (by decide)
    | exact printable_op (by decide)
    | exact printable_word (by decide)
    | exact printable_below library.printable (by decide)

/-! ## Reading -/

variable (legible : e.Legible)

include named legible in
theorem codeName_context : CodeName e.contextField := named.context.resolve_left legible.context

theorem length_type_le {g : Group} (mem : g ∈ e.groups) (runtime : List Token) :
    g.type.tokens.length ≤ (e.tokens runtime).length := by
  obtain ⟨before, after, split⟩ := List.append_of_mem mem
  simp only [tokens, accessorTokens, Group.tokens, Group.getterTokens, brace, Token.group, split, List.flatMap_append,
    List.flatMap_cons, List.length_append, List.length_cons]
  omega

theorem length_head_le (e : Emitted) (runtime : List Token) :
    (e.generics.declaration ++ e.generics.arguments ++ e.generics.clauseTokens).length ≤ (e.tokens runtime).length := by
  simp only [tokens, accessorTokens, implHead, List.length_append]
  omega

include library named legible in
/-- Each implementation is read as one, by rules that are deep enough for the types in it. -/
theorem isItem_implementations {d : Nat} (types : ∀ g ∈ e.groups, Below d g.type.tokens)
    (head : Below d (e.generics.declaration ++ e.generics.arguments ++ e.generics.clauseTokens)) :
    ∀ i ∈ e.implementations runtime, IsItem (d + 11) (Implements (traitHead i.1) e.name (i.2.map (·.1)))
      (implementationTokens i.1 e.name e.generics i.2) := by
  have owner := (codeName_context named legible).plain
  have reads : IsHead (d + 10) e.name e.generics := legible.head.reads _ (by unfold Below at *; omega)
  have pushed (name : String) (plain : name ∉ keywords) : ∀ p ∈ some (runtime.push name), IsPath p :=
    fun p mem => Option.mem_some.1 mem ▸ library.path.push plain
  intro i mem
  simp only [implementations, List.mem_append, List.mem_singleton] at mem
  rcases mem with (rfl | notifies) | rfl
  · refine isItem_implementation named.name.plain (pushed _ (by decide)) reads ?_ ?_
    · exact forall_mem_pair.2 ⟨fun _ => rfl, fun _ => rfl⟩
    · exact forall_mem_pair.2 ⟨isMember_context library.path owner, isMember_table library.path e.rows⟩
  · split at notifies
    · rw [List.mem_singleton.1 notifies]
      refine isItem_implementation named.name.plain (pushed _ (by decide)) reads ?_ ?_
      · exact List.forall_mem_singleton.2 fun _ => rfl
      · exact List.forall_mem_singleton.2 (isMember_notification library.path owner)
    · cases notifies
  · refine isItem_implementation named.name.plain (fun p mem => absurd mem (Option.not_mem_none p)) reads ?_ ?_
    · intro m mem
      obtain ⟨g, -, mem⟩ := List.mem_flatMap.1 mem
      exact g.bare_members _ _ m mem
    · intro m mem
      obtain ⟨g, listed, mem⟩ := List.mem_flatMap.1 mem
      have type : ReadsTy (d + 1) g.type.tokens := fun d' deep =>
        (legible.types g listed).reads d' ((types g listed).trans (by omega))
      exact Group.isMember_members library.path owner (named.groups g listed) type m mem

/-- The implementations of a unit: what each of them implements, and the names of its functions. -/
def outline (runtime : NamePath) (e : Emitted) : List (ImplHead × List String) :=
  [(.positive (Path.ofNames (runtime.push "ObservableSettings")), ["settings_context", "setting_properties"])] ++
  (if e.notifies then [(.positive (Path.ofNames (runtime.push notifyTrait)), ["property_changed"])] else []) ++
  [(.inherent, e.groups.flatMap fun g => [g.getter, g.setter] ++ if g.raisesEvent then [g.event] else [])]

theorem outline_eq (runtime : NamePath) (e : Emitted) :
    (e.implementations runtime).map (fun i => (traitHead i.1, i.2.map (·.1))) = e.outline runtime := by
  have functions (g : Group) (ts : List Token) (context : String) : (g.members ts context).map (·.1) =
      [g.getter, g.setter] ++ if g.raisesEvent then [g.event] else [] := by
    unfold Group.members
    split <;> rfl
  unfold implementations outline
  split <;> simp [traitHead, List.map_flatMap, functions]

include library named legible in
/-- The code of a unit is read as its implementations. -/
theorem parse_tokens : ∃ items, parseTokens? (fun g => do
      discard g.innerAttrs
      many (fun ts => !isEnd ts) g.item) (e.tokens runtime.tokens) = some items ∧
    List.Forall₂ (fun i item => Implements i.1 e.name i.2 item) (e.outline runtime) items := by
  have tokens := tokens_eq library.path e
  have types (g) (mem : g ∈ e.groups) := length_type_le mem runtime.tokens
  have head := length_head_le e runtime.tokens
  rw [tokens] at types head ⊢
  generalize length : ((e.implementations runtime).flatMap fun i =>
    implementationTokens i.1 e.name e.generics i.2).length = n at types head
  have each := isItem_implementations library named legible (d := 8 * n + 21)
    (fun g mem => by have := types g mem; unfold Below; omega) (by unfold Below; omega)
  rw [show 8 * n + 21 + 11 = 8 * (n + 4) by omega, ← length] at each
  obtain ⟨items, parsed, same⟩ := parse_items each
  refine ⟨items, parsed, ?_⟩
  rw [← outline_eq, List.forall₂_map_left_iff]
  exact same

include library named legible in
/-- The table of a unit is read from its code. -/
theorem table_tokens : ∃ behind, (tableRule (forTokens (e.tokens runtime.tokens))).run ⟨e.tokens runtime.tokens, []⟩ =
    some (e.rows, behind) := by
  have owner := (codeName_context named legible).plain
  have trait : IsPath (runtime.push "ObservableSettings") := library.path.push (by decide)
  have length := length_head_le e runtime.tokens
  obtain ⟨rest, tokens⟩ : ∃ rest, e.tokens runtime.tokens =
      implementationTokens (some (runtime.push "ObservableSettings")) e.name e.generics
        [("settings_context", contextFunction runtime.tokens e.contextField),
        ("setting_properties", tableFunction runtime.tokens e.rows)] ++ rest :=
    ⟨_, by rw [Emitted.tokens, tableTokens_eq library.path, List.append_assoc]⟩
  obtain ⟨d, depth, deeper⟩ : ∃ d, 8 * ((e.tokens runtime.tokens).length + 4) = d + 3 + 3 ∧
      Below (d + 3 + 3) (e.tokens runtime.tokens) :=
    ⟨8 * (e.tokens runtime.tokens).length + 26, by omega, by unfold Below; omega⟩
  have head : IsHead (d + 3 + 3) e.name e.generics := legible.head.reads _ (deeper.of_le length)
  have first : IsMember (d + 3 + 3) "settings_context" (contextFunction runtime.tokens e.contextField) :=
    isMember_context library.path owner
  rw [forTokens, depth, tokens]
  obtain ⟨rows, found, read, same⟩ := reads_table library.path named.name.plain trait head
    ("settings_context", contextFunction runtime.tokens e.contextField) first e.rows rest []
  exact ⟨_, same ▸ read⟩

end Emitted

end LiveSettings.Accessors
