import LiveSettings.Proofs.Accessors.UnitNames
import LiveSettings.Proofs.Code.ReadItems

/-!
# The code of a unit

Each function of a unit is read back as a function of its name, whatever the texts in it are, if the types in it
are read back as types.

Results:
* `isMember_getter`, `isMember_setter`, `isMember_event`: the functions of a property.
* `isMember_context`, `isMember_table`, `isMember_notification`: the functions of the traits.
-/

namespace LiveSettings.Accessors

open LiveSettings.Parser LiveSettings.Grammar

/-! ## Paths below the path of the library -/

/-- Names that may go on a path. -/
def Plain (names : List String) : Prop := ∀ n ∈ names, n ∉ keywords

instance (names : List String) : Decidable (Plain names) := inferInstanceAs (Decidable (∀ n ∈ names, n ∉ keywords))

theorem below_eq {p : NamePath} (h : IsPath p) (names : List String) (plain : Plain names) :
    IsPath (names.foldl .push p) ∧ below p.tokens names = (names.foldl .push p).tokens := by
  induction names generalizing p with
  | nil => exact ⟨h, List.append_nil _⟩
  | cons n names ih =>
    have first : n ∉ keywords := plain n List.mem_cons_self
    obtain ⟨path, tokens⟩ := ih (h.push first) fun n mem => plain n (List.mem_cons_of_mem _ mem)
    refine ⟨path, Eq.trans ?_ tokens⟩
    rw [tokens_push h.some]
    simp [below, further, word]

theorem forall_mem_pair {α : Type} {P : α → Prop} {a b : α} : (∀ x ∈ [a, b], P x) ↔ P a ∧ P b := by simp

theorem plain_access {function : String} (known : function ∉ keywords) : Plain ["access", function] :=
  forall_mem_pair.2 ⟨by decide, known⟩

theorem below_one {p : NamePath} (h : IsPath p) (name : String) : below p.tokens [name] = (p.push name).tokens := by
  rw [tokens_push h.some]
  simp [below, further, word]

/-- A path with names behind it is more than one name. -/
theorem names_below_ne {p : NamePath} (h : IsPath p) {names : List String} (some : names ≠ []) {single : String} :
    (names.foldl .push p).names ≠ [single] := by
  have all (names : List String) (p : NamePath) : (names.foldl NamePath.push p).names = p.names ++ names := by
    induction names generalizing p with
    | nil => exact (List.append_nil _).symm
    | cons n names ih => simp [ih, NamePath.push]
  intro same
  have length : p.names.length + names.length = 1 := by simpa [all] using congrArg List.length same
  have first := List.length_pos_iff.2 h.some
  have second := List.length_pos_iff.2 some
  omega

/-- No path starts like a lifetime or a qualifier of a reference. -/
theorem unqualified_path {p : NamePath} (h : IsPath p) (rest : List Token) :
    isLifetime (p.tokens ++ rest) = false ∧ Parser.isWord "mut" (p.tokens ++ rest) = false := by
  obtain ⟨first, more, named, start⟩ := h.exists_tokens
  rw [start]
  cases p.absolute with
  | true => exact ⟨rfl, rfl⟩
  | false => exact ⟨rfl, isWord_inPath (h.words first (named ▸ List.mem_cons_self)) (by decide) (by decide) _⟩

section

variable {records : Bool} {depth : Nat} {runtime : NamePath}

/-! ## Operands -/

theorem isAtom_word {name : String} (h : InPath name) : IsAtom records depth (word name) :=
  isAtom_path (p := ⟨false, [name]⟩) ⟨List.cons_ne_nil _ _, fun _ mem => List.mem_singleton.1 mem ▸ h⟩

theorem isOperand_atom {ts : List Token} (h : IsAtom records depth ts) : IsOperand records (depth + 1) ts := by
  have operand := isOperand_of_isAtom h isTrailers_nil
  rwa [List.append_nil] at operand

theorem isOperand_word {name : String} (h : InPath name) : IsOperand records (depth + 1) (word name) :=
  isOperand_atom (isAtom_word h)

theorem isOperand_call {p : NamePath} (h : IsPath p) {args : List (List Token)}
    (each : ∀ a ∈ args, IsExpr true depth a) : IsOperand records (depth + 1) (p.tokens ++ arguments args) := by
  have trailers : IsTrailers records depth (arguments args ++ []) := isTrailers_call each isTrailers_nil
  rw [List.append_nil] at trailers
  exact isOperand_of_isAtom (isAtom_path h) trailers

theorem isOperand_text (s : String) : IsOperand records (depth + 1) (text s) :=
  isOperand_atom (isAtom_literal _)

theorem isOperand_ofField {field : String} (plain : field ∉ keywords) {ts : List Token}
    (uncalled : ∀ rest, endsExpr records rest = true → isOpening .paren (ts ++ rest) = false)
    (later : IsTrailers records depth ts) : IsOperand records (depth + 1) (selfField field ++ ts) := by
  have tokens : selfField field ++ ts = word "self" ++ (member field ++ ts) := by simp [selfField, member, word]
  rw [tokens]
  exact isOperand_of_isAtom (isAtom_word (by decide)) (isTrailers_field plain uncalled later)

theorem isOperand_selfField {field : String} (plain : field ∉ keywords) :
    IsOperand records (depth + 1) (selfField field) := by
  have operand : IsOperand records (depth + 1) (selfField field ++ []) :=
    isOperand_ofField plain (fun rest ends => (endsExpr_spec ends).call) isTrailers_nil
  rwa [List.append_nil] at operand

theorem isTrailers_methodCall {name : String} (plain : name ∉ keywords) {args : List (List Token)}
    (each : ∀ a ∈ args, IsExpr true depth a) {ts : List Token} (later : IsTrailers records depth ts) :
    IsTrailers records depth (member name ++ (arguments args ++ ts)) := by
  have trailers := isTrailers_method plain (fun a mem => absurd mem (Option.not_mem_none a)) each later
  rwa [typeArgument, List.nil_append, List.append_assoc] at trailers

/-- A reference to a value. -/
theorem isOperand_refWord {name : String} (h : InPath name) (other : name ≠ "mut" ∧ name ≠ "raw") :
    IsOperand records (depth + 2) (Token.op "&" ++ word name) :=
  isOperand_reference (isOperand_word h) fun _ _ => by simp [startsQualifier, word, Parser.isWord, other]

/-- A reference to a field. -/
theorem isOperand_refField {field : String} (plain : field ∉ keywords) :
    IsOperand records (depth + 2) (Token.op "&" ++ selfField field) :=
  isOperand_reference (isOperand_selfField plain) fun _ _ => rfl

/-- A method of the value itself. -/
theorem isOperand_selfMethod {name : String} (plain : name ∉ keywords) {ts : List Token}
    (later : IsTrailers records depth ts) :
    IsOperand records (depth + 1) (word "self" ++ (member name ++ (arguments [] ++ ts))) :=
  isOperand_of_isAtom (isAtom_word (by decide))
    (isTrailers_methodCall plain (fun _ mem => absurd mem List.not_mem_nil) later)

theorem startsStatement_self (name : String) (rest : List Token) :
    StartsStatement (word "self" ++ (member name ++ rest)) :=
  startsStatement_path (p := ⟨false, ["self"]⟩) ⟨List.cons_ne_nil _ _, by decide⟩ (by decide) rfl rfl rfl

/-- The statement that a function ends with where a value has not changed. -/
theorem isBody_return : IsBody (depth + 2) (word "return" ++ Token.op ";") := by
  have starts (rest : List Token) (ends : endsExpr true rest = true) : StartsStatement (word "return" ++ rest) := by
    have path : namePath.Reads (word "return" ++ rest) rest (· = ⟨false, ["return"]⟩) :=
      reads_namePath (p := ⟨false, ["return"]⟩) (List.cons_ne_nil _ _) (endsExpr_spec ends).path
    exact ⟨rfl, reads_behindBang path (endsAtom_spec (endsAtom_of_endsExpr ends)).bang, rfl, rfl, fun _ => rfl, rfl,
      rfl⟩
  have body : IsBody (depth + 2) (word "return" ++ Token.op ";" ++ []) :=
    isBody_statement starts isOperand_return isBody_nil
  rwa [List.append_nil] at body

/-! ## The arguments of the library functions -/

theorem storeArgs_eq (context : String) (g : Group) (value : List Token) : g.storeArgs context value =
    arguments [selfField context ++ (member "store" ++ (arguments [] ++ [])), text g.key, value] := by
  simp [Group.storeArgs, arguments, listed, member, word, paren]

variable {runtime : NamePath} (path : IsPath runtime)

include path

/-- A function of the library that is called with the context and the key. -/
theorem isOperand_access {function context : String} (known : function ∉ keywords) (plain : context ∉ keywords)
    (g : Group) {value : List Token} (given : IsExpr true (depth + 3) value) :
    IsOperand true (depth + 4) (below runtime.tokens ["access", function] ++ g.storeArgs context value) := by
  obtain ⟨isPath, tokens⟩ := below_eq path _ (plain_access known)
  have store : IsOperand true (depth + 2) (selfField context ++ (member "store" ++ (arguments [] ++ []))) :=
    isOperand_ofField plain (fun _ _ => rfl)
      (isTrailers_methodCall (by decide) (fun _ mem => absurd mem List.not_mem_nil) isTrailers_nil)
  rw [tokens, storeArgs_eq]
  refine isOperand_call isPath fun a mem => ?_
  simp only [List.mem_cons, List.not_mem_nil, or_false] at mem
  rcases mem with rfl | rfl | rfl
  · exact isExpr_of_isOperand store
  · exact isExpr_of_isOperand (isOperand_text g.key)
  · exact given

/-- A statement that starts with a function of the library. -/
theorem startsStatement_below {names : List String} (plain : Plain names) (some : names ≠ []) {rest : List Token}
    (called : isOpening .paren rest = true) : StartsStatement (below runtime.tokens names ++ rest) := by
  obtain ⟨isPath, tokens⟩ := below_eq path _ plain
  obtain ⟨us, rfl⟩ := exists_of_isOpening called
  rw [tokens]
  exact startsStatement_path isPath (names_below_ne path some) rfl rfl rfl

/-- A reference to a call of a function of the library. -/
theorem isOperand_refBelow {names : List String} (plain : Plain names) (some : names ≠ []) {args : List (List Token)}
    (each : ∀ a ∈ args, IsExpr true depth a) :
    IsOperand records (depth + 2) (Token.op "&" ++ (below runtime.tokens names ++ arguments args)) := by
  obtain ⟨isPath, tokens⟩ := below_eq path _ plain
  rw [tokens]
  refine isOperand_reference (isOperand_call isPath each) fun rest _ => ?_
  obtain ⟨first, more, named, start⟩ := isPath.exists_tokens
  have long : more ≠ [] := fun none => names_below_ne path some (none ▸ named)
  rw [start]
  cases (names.foldl NamePath.push runtime).absolute with
  | true => rfl
  | false =>
    cases more with
    | nil => exact absurd rfl long
    | cons n more =>
      have shared (us : List Token) : Parser.isWord "mut" (.ident first :: us) = false :=
        isWord_inPath (isPath.words first (named ▸ List.mem_cons_self)) (by decide) (by decide) us
      show (Parser.isWord "mut" (.ident first :: _) || (Parser.isWord "raw" (.ident first :: _) && false)) = false
      rw [shared, Bool.and_false]
      rfl

/-! ## The functions of a property -/

/-- The type is read back wherever rules are deep enough. -/
def ReadsTy (depth : Nat) (ts : List Token) : Prop := ∀ d, depth ≤ d → IsTy true d ts

theorem isFunctionBody_getter {context : String} (plain : context ∉ keywords) {g : Group} (named : g.Named) :
    IsFunctionBody (depth + 5)
      (below runtime.tokens ["access", g.access.read] ++ g.storeArgs context (Token.op "&" ++ selfField g.field)) := by
  have default : IsExpr true (depth + 3) (Token.op "&" ++ selfField g.field) :=
    isExpr_of_isOperand (isOperand_refField named.field.plain)
  have value := isOperand_access path named.read.plain plain g default
  have starts (rest : List Token) : StartsStatement (below runtime.tokens ["access", g.access.read] ++
      g.storeArgs context (Token.op "&" ++ selfField g.field) ++ rest) := by
    rw [List.append_assoc]
    exact startsStatement_below path (plain_access named.read.plain) nofun rfl
  exact ⟨fun rest => (starts _).attrs, isBody_value (fun rest _ => starts rest) value⟩

theorem isMember_getter {context : String} (plain : context ∉ keywords) {g : Group} (named : g.Named)
    (type : IsTy true (depth + 6) g.type.tokens) :
    IsMember (depth + 6) g.getter (g.getterTokens runtime.tokens context) := by
  have content : IsFunctionBody (depth + 5) (below runtime.tokens ["access", g.access.read] ++
      g.storeArgs context (Token.op "&" ++ selfField g.field)) := isFunctionBody_getter path plain named
  have member := isMember_documented (Text.Escape.literal g.getterDoc) named.getter.plain isParams_receiver
    (fun t mem => Option.mem_some.1 mem ▸ type) content
  have tokens : g.getterTokens runtime.tokens context = docTokens (Text.Escape.literal g.getterDoc) ++ .ident "pub" ::
      functionTokens g.getter receiverTokens (some g.type.tokens) (below runtime.tokens ["access", g.access.read] ++
        g.storeArgs context (Token.op "&" ++ selfField g.field)) := by
    simp [Group.getterTokens, doc, docTokens, functionTokens, resultTokens, word, text, paren, brace, selfRef,
      receiverTokens]
  rwa [tokens]

/-- Raises an event with a value of the library that is made by a call. -/
def raised (runtime : List Token) (type : String) (args : List (List Token)) : List Token :=
  member "raise" ++ (arguments [Token.op "&" ++ (below runtime [type, "new"] ++ arguments args)] ++ [])

theorem isTrailers_raised {type : String} (known : type ∉ keywords) {args : List (List Token)}
    (each : ∀ a ∈ args, IsExpr true depth a) : IsTrailers true (depth + 3) (raised runtime.tokens type args) := by
  have names : Plain [type, "new"] := forall_mem_pair.2 ⟨known, by decide⟩
  have value : IsExpr true (depth + 3) (Token.op "&" ++ (below runtime.tokens [type, "new"] ++ arguments args)) :=
    isExpr_of_isOperand (isOperand_refBelow path names (List.cons_ne_nil _ _) each)
  exact isTrailers_methodCall (by decide) (List.forall_mem_singleton.2 value) isTrailers_nil

/-- The statements of a setter that raise the event of the property, if it has one. -/
theorem isBody_raise {g : Group} (named : g.Named) :
    IsBody (depth + 8) (if g.raisesEvent then g.raiseTokens runtime.tokens else []) := by
  split
  · have each : ∀ a ∈ [word "old", word "value"], IsExpr true (depth + 3) a := by
      exact forall_mem_pair.2 ⟨isExpr_of_isOperand (isOperand_word (.inl (by decide))),
        isExpr_of_isOperand (isOperand_word (.inl (by decide)))⟩
    have raise : IsTrailers true (depth + 6) (raised runtime.tokens "SettingValueChanged" [word "old", word "value"]) :=
      isTrailers_raised path (by decide) each
    have body := isBody_statement (fun _ _ => startsStatement_self _ _)
      (isOperand_selfMethod named.event.plain raise) isBody_nil
    have tokens : g.raiseTokens runtime.tokens = word "self" ++ (member g.event ++ (arguments [] ++
        raised runtime.tokens "SettingValueChanged" [word "old", word "value"])) ++ Token.op ";" ++ [] := by
      simp [Group.raiseTokens, raised, selfField, member, arguments, listed, word, paren]
    rwa [tokens]
  · exact isBody_nil

/-- The statements of a setter that store the value and tell of it. -/
def changeTokens (runtime : List Token) (context : String) (g : Group) : List Token :=
  below runtime ["access", g.access.write] ++ g.storeArgs context (Token.op "&" ++ word "value") ++ Token.op ";" ++
  (below runtime [notifyTrait, "property_changed"] ++ (arguments [word "self"] ++
    raised runtime "PropertyChangedEventArgs" [text g.name]) ++ Token.op ";" ++
  (if g.raisesEvent then g.raiseTokens runtime else []))

theorem isBody_change {context : String} (plain : context ∉ keywords) {g : Group} (named : g.Named) :
    IsBody (depth + 8) (changeTokens runtime.tokens context g) := by
  have names : Plain [notifyTrait, "property_changed"] := by decide
  obtain ⟨isPath, tokens⟩ := below_eq path _ names
  have value : IsExpr true (depth + 6) (Token.op "&" ++ word "value") :=
    isExpr_of_isOperand (isOperand_refWord (.inl (by decide)) (by decide))
  have stored := isOperand_access path named.write.plain plain g value
  have name : IsExpr true (depth + 3) (text g.name) := isExpr_of_isOperand (isOperand_text g.name)
  have raise : IsTrailers true (depth + 6) (raised runtime.tokens "PropertyChangedEventArgs" [text g.name]) :=
    isTrailers_raised path (by decide) (List.forall_mem_singleton.2 name)
  have self : IsExpr true (depth + 6) (word "self") := isExpr_of_isOperand (isOperand_word (by decide))
  have told : IsOperand true (depth + 7) (below runtime.tokens [notifyTrait, "property_changed"] ++
      (arguments [word "self"] ++ raised runtime.tokens "PropertyChangedEventArgs" [text g.name])) := by
    rw [tokens]
    exact isOperand_of_isAtom (isAtom_path isPath) (isTrailers_call (List.forall_mem_singleton.2 self) raise)
  refine isBody_statement (fun rest _ => ?_) stored (isBody_statement (fun rest _ => ?_) told (isBody_raise path named))
  · rw [List.append_assoc]
    exact startsStatement_below path (plain_access named.write.plain) (List.cons_ne_nil _ _) rfl
  · rw [List.append_assoc]
    exact startsStatement_below path names (List.cons_ne_nil _ _) rfl

/-- The statements of a setter that return where the value is the old one. -/
def checkTokens (runtime : List Token) (g : Group) : List Token :=
  conditionalTokens (below runtime ["access", g.access.unchanged] ++
    arguments [Token.op "&" ++ word "old", Token.op "&" ++ word "value"]) (word "return" ++ Token.op ";")

theorem isBody_check {g : Group} (named : g.Named) {names : List String} (plain : Plain names)
    {ts : List Token} (later : IsBody (depth + 8) (below runtime.tokens names ++ ts)) :
    IsBody (depth + 8) (checkTokens runtime.tokens g ++ (below runtime.tokens names ++ ts)) := by
  obtain ⟨isPath, tokens⟩ := below_eq path _ (plain_access named.unchanged.plain)
  obtain ⟨next, follows⟩ := below_eq path _ plain
  have ref {name : String} (inPath : InPath name) (other : name ≠ "mut" ∧ name ≠ "raw") :
      IsExpr true (depth + 5) (Token.op "&" ++ word name) := isExpr_of_isOperand (isOperand_refWord inPath other)
  have condition : IsOperand false (depth + 6) (below runtime.tokens ["access", g.access.unchanged] ++
      arguments [Token.op "&" ++ word "old", Token.op "&" ++ word "value"]) := by
    rw [tokens]
    exact isOperand_call isPath
      (forall_mem_pair.2 ⟨ref (.inl (by decide)) (by decide), ref (.inl (by decide)) (by decide)⟩)
  refine isBody_conditional (fun rest => ?_) (isExpr_of_isOperand condition) isBody_return (fun rest => ?_) later
  · rw [tokens, List.append_assoc]
    exact reads_behindBang_word "if" isPath rfl rfl
  · rw [follows, List.append_assoc]
    exact followsBlock_path next _

theorem isFunctionBody_setter {context : String} (plain : context ∉ keywords) {g : Group} (named : g.Named) :
    IsFunctionBody (depth + 8) (bindingTokens "old" (word "self" ++ (member g.getter ++ (arguments [] ++ []))) ++
      (checkTokens runtime.tokens g ++ changeTokens runtime.tokens context g)) := by
  have change : IsBody (depth + 8) (changeTokens runtime.tokens context g) := isBody_change path plain named
  have check : IsBody (depth + 8) (checkTokens runtime.tokens g ++ changeTokens runtime.tokens context g) := by
    rw [changeTokens, List.append_assoc, List.append_assoc] at change ⊢
    exact isBody_check path named (plain_access named.write.plain) change
  have old : IsOperand true (depth + 7) (word "self" ++ (member g.getter ++ (arguments [] ++ []))) :=
    isOperand_selfMethod named.getter.plain isTrailers_nil
  exact ⟨fun _ => rfl, isBody_binding (by decide) (isExpr_of_isOperand old) check⟩

theorem isMember_setter {context : String} (plain : context ∉ keywords) {g : Group} (named : g.Named)
    (type : IsTy true (depth + 9) g.type.tokens) :
    IsMember (depth + 9) g.setter (g.setterTokens runtime.tokens context) := by
  have param := isParams_argument "value" (by decide) type
  have result : ∀ t ∈ (none : Option (List Token)), IsTy true (depth + 9) t :=
    fun t mem => absurd mem (Option.not_mem_none t)
  have content : IsFunctionBody (depth + 8)
      (bindingTokens "old" (word "self" ++ (member g.getter ++ (arguments [] ++ []))) ++
      (checkTokens runtime.tokens g ++ changeTokens runtime.tokens context g)) := isFunctionBody_setter path plain named
  have member := isMember_documented (Text.Escape.literal g.setterDoc) named.setter.plain param result content
  have tokens : g.setterTokens runtime.tokens context = docTokens (Text.Escape.literal g.setterDoc) ++ .ident "pub" ::
      functionTokens g.setter (receiverTokens ++ Token.op "," ++ .ident "value" :: (Token.op ":" ++ g.type.tokens)) none
        (bindingTokens "old" (word "self" ++ (Grammar.member g.getter ++ (arguments [] ++ []))) ++
          (checkTokens runtime.tokens g ++ changeTokens runtime.tokens context g)) := by
    simp [Group.setterTokens, doc, docTokens, functionTokens, resultTokens, word, text, paren, brace, selfRef,
      receiverTokens, bindingTokens, checkTokens, conditionalTokens, changeTokens, raised, selfField, Grammar.member,
      arguments, listed]
  rwa [tokens]

/-- The type of the event of a property. -/
def eventTy (runtime : List Token) (type : List Token) : List Token :=
  Token.op "::" ++ word "std" ++ Token.op "::" ++ word "sync" ++ Token.op "::" ++ word "Arc" ++ Token.op "<" ++
    below runtime ["Event"] ++ Token.op "<" ++ below runtime ["SettingValueChanged"] ++ Token.op "<" ++ type ++
      Token.op ">>" ++ Token.op ">"

theorem isTy_event {type : List Token} (typed : IsTy true (depth + 1) type) :
    IsTy true (depth + 4) (eventTy runtime.tokens type) := by
  have std : IsPath ⟨true, ["std", "sync"]⟩ := ⟨List.cons_ne_nil _ _, by decide⟩
  have change := isTy_generic true path "SettingValueChanged" (by decide) true (isArg_of_isTy typed)
  have event := isTy_generic true path "Event" (by decide) false (isArg_of_isTy change)
  have shared := isTy_generic true std "Arc" (by decide) false (isArg_of_isTy event)
  have tokens : eventTy runtime.tokens type = ((NamePath.mk true ["std", "sync"]).push "Arc").tokens ++
      angleTokens false false false
      [(runtime.push "Event").tokens ++ angleTokens false false false
        [(runtime.push "SettingValueChanged").tokens ++ angleTokens false false true [type]]] := by
    have arc : ((NamePath.mk true ["std", "sync"]).push "Arc").tokens = Token.op "::" ++ word "std" ++ Token.op "::" ++
        word "sync" ++ Token.op "::" ++ word "Arc" := rfl
    have closing : Token.op ">>" ++ Token.op ">" = [.mark '>' true] ++ ([.mark '>' false] ++ [.mark '>' false]) := rfl
    simp only [eventTy, List.append_assoc, closing]
    simp [below_one path, arc, angleTokens, listed, absoluteMark]
  rwa [tokens]

theorem isMember_event {context : String} (plain : context ∉ keywords) {g : Group} (named : g.Named)
    (type : ReadsTy depth g.type.tokens) :
    IsMember (depth + 6) g.event (g.eventTokens runtime.tokens context) := by
  have name : IsExpr true (depth + 3) (text g.name) := isExpr_of_isOperand (isOperand_text g.name)
  have typed : ∀ a ∈ some g.type.tokens, IsArg (depth + 3) a := fun a mem =>
    Option.mem_some.1 mem ▸ isArg_of_isTy (type _ (Nat.le_add_right _ _))
  have call : IsTrailers true (depth + 3) (member "value_changed" ++ (typeArgument (some g.type.tokens) ++
      arguments [text g.name]) ++ []) :=
    isTrailers_method (by decide) typed (List.forall_mem_singleton.2 name) isTrailers_nil
  have value := isOperand_ofField plain (fun _ _ => rfl) call
  have starts (rest : List Token) := startsStatement_self context (member "value_changed" ++
    (typeArgument (some g.type.tokens) ++ arguments [text g.name]) ++ [] ++ rest)
  have content : IsFunctionBody (depth + 5) (selfField context ++ (member "value_changed" ++
      (typeArgument (some g.type.tokens) ++ arguments [text g.name]) ++ [])) :=
    ⟨fun _ => rfl, isBody_value (fun rest _ => starts rest) value⟩
  have result : IsTy true (depth + 6) (eventTy runtime.tokens g.type.tokens) :=
    isTy_event path (type (depth + 3) (Nat.le_add_right _ _))
  have member := isMember_documented (Text.Escape.literal g.eventDoc) named.event.plain isParams_receiver
    (fun t mem => Option.mem_some.1 mem ▸ result) content
  have tokens : g.eventTokens runtime.tokens context = docTokens (Text.Escape.literal g.eventDoc) ++ .ident "pub" ::
      functionTokens g.event receiverTokens (some (eventTy runtime.tokens g.type.tokens)) (selfField context ++
        (Grammar.member "value_changed" ++ (typeArgument (some g.type.tokens) ++ arguments [text g.name]) ++ [])) := by
    unfold Group.eventTokens
    simp only [doc, docTokens, functionTokens, resultTokens, word, text, paren, brace, selfRef,
      receiverTokens, eventTy, selfField, Grammar.member, typeArgument, arguments, listed, List.append_assoc,
      List.cons_append, List.nil_append]
    rfl
  rwa [tokens]

/-! ## The functions of the traits -/

/-- The function that gives the context of a value. -/
def contextFunction (runtime : List Token) (context : String) : List Token :=
  functionTokens "settings_context" receiverTokens (some (Token.op "&" ++ below runtime ["SettingsContext"]))
    (Token.op "&" ++ selfField context)

theorem isMember_context {context : String} (plain : context ∉ keywords) :
    IsMember (depth + 6) "settings_context" (contextFunction runtime.tokens context) := by
  obtain ⟨isPath, tokens⟩ := below_eq path ["SettingsContext"] (by decide)
  have type : IsTy true (depth + 6) (Token.op "&" ++ below runtime.tokens ["SettingsContext"]) := by
    rw [tokens]
    exact isTy_reference none (isTy_path false (depth + 4) isPath) (unqualified_path isPath)
  have value : IsOperand true (depth + 4) (Token.op "&" ++ selfField context) := isOperand_refField plain
  have content : IsFunctionBody (depth + 5) (Token.op "&" ++ selfField context) :=
    ⟨fun _ => rfl, isBody_value (fun rest _ => startsStatement_reference _) value⟩
  exact isMember_function (by decide) isParams_receiver (fun t mem => Option.mem_some.1 mem ▸ type) content

/-- The fields of a row. -/
def Row.values (runtime : List Token) (r : Row) : List (String × List Token) :=
  [("name", text r.name), ("key", text r.key), ("strategy", below runtime ["StorageStrategy", r.strategy.name]),
    ("nullable", truth r.nullable), ("raises_event", truth r.raisesEvent)]

theorem isAtom_row (r : Row) : IsAtom true (depth + 3) (r.tokens runtime.tokens) := by
  obtain ⟨isPath, tokens⟩ := below_eq path ["SettingProperty"] (by decide)
  have strategy : Plain ["StorageStrategy", r.strategy.name] :=
    forall_mem_pair.2 ⟨by decide, by cases r.strategy <;> decide⟩
  obtain ⟨choice, chosen⟩ := below_eq path _ strategy
  have values : ∀ f ∈ r.values runtime.tokens, IsExpr true (depth + 3) f.2 := by
    simp only [Row.values, List.forall_mem_cons, chosen]
    refine ⟨isExpr_of_isOperand (isOperand_text _), isExpr_of_isOperand (isOperand_text _), ?_, ?_, ?_, nofun⟩
    · exact isExpr_of_isOperand (isOperand_atom (isAtom_path choice))
    · exact isExpr_of_isOperand (isOperand_atom (isAtom_truth _))
    · exact isExpr_of_isOperand (isOperand_atom (isAtom_truth _))
  have names : ∀ f ∈ r.values runtime.tokens, f.1 ∉ keywords := by
    simp only [Row.values, List.forall_mem_cons]
    exact ⟨by decide, by decide, by decide, by decide, by decide, nofun⟩
  have fields : r.tokens runtime.tokens = below runtime.tokens ["SettingProperty"] ++
      Token.group .brace ((r.values runtime.tokens).flatMap fun f => fieldValueTokens f.1 f.2) := by
    simp [Row.tokens, Row.values, fieldValueTokens, brace, word]
  rw [fields, tokens]
  exact isAtom_record isPath names values

/-- The function that gives the table of properties. -/
def tableFunction (runtime : List Token) (rows : List Row) : List Token :=
  functionTokens "setting_properties" receiverTokens
    (some (Token.op "&" ++ (Token.lifetime "static" ++ Token.group .bracket (below runtime ["SettingProperty"]))))
    (constantTokens "PROPERTIES" (Token.op "&" ++ Token.group .bracket (below runtime ["SettingProperty"]))
      (Token.op "&" ++ Token.group .bracket (listed "," false (rows.map (·.tokens runtime)))) ++ word "PROPERTIES")

theorem isTy_row : IsTy true (depth + 1) (below runtime.tokens ["SettingProperty"]) := by
  obtain ⟨isPath, tokens⟩ := below_eq path ["SettingProperty"] (by decide)
  rw [tokens]
  exact isTy_path true depth isPath

/-- The type of the function, and that of the constant in front of its value. -/
theorem isTy_table : IsTy true (depth + 3) (Token.op "&" ++ (Token.lifetime "static" ++
    Token.group .bracket (below runtime.tokens ["SettingProperty"]))) :=
  isTy_reference (some "static") (isTy_slice (isTy_row path)) fun _ => ⟨rfl, rfl⟩

theorem takes_rowsTy (rest : List Token) : ((deep (depth + 3)).ty true).Takes (Token.op "&" ++
    Token.group .bracket (below runtime.tokens ["SettingProperty"]) ++ (Token.op "=" ++ rest)) (Token.op "=" ++ rest) :=
  takes_referenceTy none (takes_sliceTy (isTy_row path) _) rfl rfl

theorem isMember_table (rows : List Row) :
    IsMember (depth + 9) "setting_properties" (tableFunction runtime.tokens rows) := by
  have each : ∀ r ∈ rows.map (·.tokens runtime.tokens), IsExpr true (depth + 5) r := by
    intro ts mem
    obtain ⟨r, -, rfl⟩ := List.mem_map.1 mem
    exact isExpr_of_isOperand (isOperand_atom (isAtom_row path r))
  have array : IsOperand true (depth + 7) (Token.op "&" ++
      Token.group .bracket (listed "," false (rows.map (·.tokens runtime.tokens)))) :=
    isOperand_reference (isOperand_atom (isAtom_array each)) fun _ _ => rfl
  have starts (rest : List Token) (ends : endsExpr true rest = true) : StartsStatement (word "PROPERTIES" ++ rest) :=
    startsStatement_path (p := ⟨false, ["PROPERTIES"]⟩) ⟨List.cons_ne_nil _ _, by decide⟩ (by decide)
      (endsExpr_spec ends).path (endsAtom_spec (endsAtom_of_endsExpr ends)).bang
      (endsAtom_spec (endsAtom_of_endsExpr ends)).word
  have named : IsBody (depth + 8) (word "PROPERTIES") := isBody_value starts (isOperand_word (.inl (by decide)))
  have content := isBody_constant "PROPERTIES" (by decide) (takes_rowsTy path) (isExpr_of_isOperand array) named
  exact isMember_function (by decide) isParams_receiver (fun t mem => Option.mem_some.1 mem ▸ isTy_table path)
    ⟨fun _ => rfl, content⟩

/-- The function that gives the event of a notifying type. -/
def notificationFunction (runtime : List Token) (context : String) : List Token :=
  functionTokens "property_changed" receiverTokens
    (some (Token.op "&" ++ (below runtime ["Event"] ++ Token.op "<" ++ below runtime ["PropertyChangedEventArgs"] ++
      Token.op ">")))
    (selfField context ++ (member "property_changed" ++ (arguments [] ++ [])))

theorem isMember_notification {context : String} (plain : context ∉ keywords) :
    IsMember (depth + 6) "property_changed" (notificationFunction runtime.tokens context) := by
  have args : IsTy true (depth + 4) (runtime.push "PropertyChangedEventArgs").tokens :=
    isTy_path true (depth + 3) (path.push (by decide))
  have event : IsTy false (depth + 5) (below runtime.tokens ["Event"] ++ Token.op "<" ++
      below runtime.tokens ["PropertyChangedEventArgs"] ++ Token.op ">") := by
    have generic := isTy_generic false path "Event" (by decide) false (isArg_of_isTy args)
    have closing : Token.op ">" = [.mark '>' false] := rfl
    simpa only [below_one path, angleTokens, absoluteMark, listed, closing, Bool.false_eq_true, if_false,
      List.append_nil, List.nil_append, List.append_assoc] using generic
  have plainly (rest : List Token) : isLifetime (below runtime.tokens ["Event"] ++ Token.op "<" ++
      below runtime.tokens ["PropertyChangedEventArgs"] ++ Token.op ">" ++ rest) = false ∧
      Parser.isWord "mut" (below runtime.tokens ["Event"] ++ Token.op "<" ++
        below runtime.tokens ["PropertyChangedEventArgs"] ++ Token.op ">" ++ rest) = false := by
    rw [below_one path, List.append_assoc, List.append_assoc, List.append_assoc]
    exact unqualified_path (path.push (by decide)) _
  have type : IsTy true (depth + 6) (Token.op "&" ++ (below runtime.tokens ["Event"] ++ Token.op "<" ++
      below runtime.tokens ["PropertyChangedEventArgs"] ++ Token.op ">")) := isTy_reference none event plainly
  have value : IsOperand true (depth + 4) (selfField context ++ (member "property_changed" ++ (arguments [] ++ []))) :=
    isOperand_ofField plain (fun _ _ => rfl)
      (isTrailers_methodCall (by decide) (fun _ mem => absurd mem List.not_mem_nil) isTrailers_nil)
  have content : IsFunctionBody (depth + 5)
      (selfField context ++ (member "property_changed" ++ (arguments [] ++ []))) :=
    ⟨fun _ => rfl, isBody_value (fun rest _ => startsStatement_self _ _) value⟩
  exact isMember_function (by decide) isParams_receiver (fun t mem => Option.mem_some.1 mem ▸ type) content

end

end LiveSettings.Accessors
