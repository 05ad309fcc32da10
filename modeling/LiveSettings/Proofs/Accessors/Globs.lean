import LiveSettings.Proofs.Accessors.Units
import LiveSettings.Proofs.Target.Bindings
import LiveSettings.Proofs.Target.Qualifying
import LiveSettings.Proofs.Target.Spellings

/-!
# A name by itself or by all its path holds

A module may import a native type by its name, or all that its path holds. The name then stands for the same type,
but it is not found in the same way: below an opened path a name is tried with its arguments as they are written,
while an imported name is replaced whatever its arguments are. So the two imports choose the same storage, but where
the arguments of the type that is kept make a native type only in full.

Results:
* `Beside.head?_agrees`, `Beside.head?_named`, `Beside.head?_opened`: what names stand for with either import.
* `Beside.native_iff`: when a type is native with both imports or with neither.
* `Accessors.Site.map_strategy`, `Accessors.Site.strategy?_eq`: the strategies of a struct's properties, field by field.
* `Accessors.stored_alike`: when a field is stored alike with both imports.
* `Accessors.stored_apart`: a field that is not.
-/

namespace LiveSettings

/-! ## Native types and their last names -/

namespace NativeKind

/-- The last names of native types. -/
def lastNames : List String := allPatterns.filterMap (·.names.getLast?)

/-- The pattern for the argument of a date. -/
def offsetPattern : PathPattern := .mk ["chrono", "FixedOffset"] [] false

theorem args_of_pattern {p : PathPattern} (h : p ∈ allPatterns) : p.args = [] ∨ p.args = [offsetPattern] := by
  have each (k : NativeKind) : ∀ p ∈ k.patterns, p.args = [] ∨ p.args = [offsetPattern] := by
    cases k <;> simp [patterns, runtimePatterns, PathPattern.args, offsetPattern]
  obtain ⟨k, -, own⟩ := List.mem_flatMap.1 h
  exact each k p own

/-- Native types of one last name take arguments, or none of them does. -/
theorem args_of_last : ∀ p ∈ allPatterns, ∀ q ∈ allPatterns, p.names.getLast? = q.names.getLast? →
    p.args.isEmpty = q.args.isEmpty := by
  decide +kernel

theorem args_of_other : ∀ p ∈ allPatterns, p.names.getLast? ≠ some "DateTime" → p.args.isEmpty = true := by
  decide +kernel

/-- A path of one name is that of a native type without arguments. -/
theorem args_of_single : ∀ p ∈ allPatterns, (p.exact = true → p.names.length ≠ 1) ∧
    (p.exact = false → p.args.isEmpty = true) := by
  decide +kernel

/-- The last name of a native type is none of the other names of accepted paths. -/
theorem apart_of_lastNames : ∀ n ∈ lastNames, (∀ p ∈ allPatterns, n ∉ p.names.dropLast) ∧
    n ∉ offsetPattern.names ∧ (∀ p ∈ Ty.optionPatterns, n ∉ p.names) ∧ n ≠ "self" := by
  decide +kernel

end NativeKind

/-- A name that is the last of a native type, below a path. -/
def Listed (path : NamePath) (name : String) : Prop := ∃ args, NativeBelow path (.mk name args)

/-- The pattern of a native type below a path. -/
theorem nativeBelow_iff_exists {path : NamePath} {s : Segment} : NativeBelow path s ↔
    ∃ p ∈ NativeKind.allPatterns, path.names ++ [s.name] <:+ p.names ∧
      (p.exact = true → path.names ++ [s.name] = p.names) ∧ PathPattern.matchLast p.args s.args = true := by
  have names : (path.names.map (Segment.mk · .none) ++ [s]).map Segment.name = path.names ++ [s.name] := by
    simp [Segment.name, Function.comp_def]
  have last (front : List String) : PathPattern.lastArgs (front.map (Segment.mk · .none) ++ [s]) = s.args := by
    induction front with
    | nil => rfl
    | cons n front ih => cases front <;> exact ih
  rw [NativeBelow, NativeKind.isSome_lookup?_iff]
  refine exists_congr fun p => and_congr_right fun _ => ?_
  rw [PathPattern.matches_path_iff, names, last, List.dropLast_concat]
  simp [Segment.args, Args.isNone]

theorem Listed.of_nativeBelow {path : NamePath} {s : Segment} (h : NativeBelow path s) : Listed path s.name := by
  obtain ⟨name, args⟩ := s
  exact ⟨args, h⟩

theorem Listed.mem_lastNames {path : NamePath} {name : String} (h : Listed path name) :
    name ∈ NativeKind.lastNames := by
  obtain ⟨args, native⟩ := h
  obtain ⟨p, known, ⟨front, names⟩, -, -⟩ := nativeBelow_iff_exists.1 native
  refine List.mem_filterMap.2 ⟨p, known, ?_⟩
  rw [← names, ← List.append_assoc, List.getLast?_concat]
  rfl

/-! ## The two imports -/

/-- The import of what stands below a path. -/
def importing (path : NamePath) (leaf : UseTree) : Item := .imports path.absolute (path.names.foldr .path leaf)

theorem bindings_importing (path : NamePath) (leaf : UseTree) :
    (importing path leaf).bindings = leaf.bindings path := by
  have below (names : List String) (front : NamePath) : (names.foldr UseTree.path leaf).bindings front =
      leaf.bindings { front with names := front.names ++ names } := by
    induction names generalizing front with
    | nil => rw [List.append_nil]; rfl
    | cons n names ih =>
      rw [List.foldr_cons, UseTree.bindings, ih]
      simp [NamePath.push]
  exact below path.names ⟨path.absolute, []⟩

/-- Items beside which a native type is imported, by its name or by all that its path holds: they declare no type of
this name, and they import other names, each by itself. -/
structure Beside (before after : List Item) (path : NamePath) (name : String) : Prop where
  listed : Listed path name
  undeclared : name ∉ (Imports.ofItems (before ++ after)).declared
  others : ∀ b ∈ (Imports.ofItems (before ++ after)).bindings, ∃ n path, b = .name n path ∧ n ≠ name

namespace Beside

variable {before after : List Item} {path : NamePath} {name : String}

/-- What a module imports that imports the type by its name. -/
def named (before after : List Item) (path : NamePath) (name : String) : Imports :=
  .ofItems (before ++ importing path (.name name) :: after)

/-- What a module imports that imports all that the path holds. -/
def opened (before after : List Item) (path : NamePath) : Imports :=
  .ofItems (before ++ importing path .glob :: after)

theorem ofItems_beside (leaf : UseTree) : Imports.ofItems (before ++ importing path leaf :: after) =
    ⟨before.flatMap Item.bindings ++ (leaf.bindings path ++ after.flatMap Item.bindings),
      (Imports.ofItems (before ++ after)).declared⟩ := by
  have bindings : (before ++ importing path leaf :: after).flatMap Item.bindings =
      before.flatMap Item.bindings ++ (leaf.bindings path ++ after.flatMap Item.bindings) := by
    rw [List.flatMap_append, List.flatMap_cons, bindings_importing]
  have declared : (before ++ importing path leaf :: after).filterMap Item.declared? =
      (before ++ after).filterMap Item.declared? := by
    rw [List.filterMap_append, List.filterMap_append]
    rfl
  exact congrArg₂ Imports.mk bindings declared

/-- The last binding of a name, before, in and behind some bindings. -/
theorem find?_append (front middle back : List Binding) (declared : List String) (n : String) :
    (⟨front ++ (middle ++ back), declared⟩ : Imports).find? n =
      (back.reverse.findSome? (Binding.pathOf? n)).or ((middle.reverse.findSome? (Binding.pathOf? n)).or
        (front.reverse.findSome? (Binding.pathOf? n))) := by
  show (front ++ (middle ++ back)).reverse.findSome? (Binding.pathOf? n) = _
  rw [List.reverse_append, List.reverse_append, List.findSome?_append, List.findSome?_append, Option.or_assoc]

theorem exists_name (h : Beside before after path name) {items : List Item} (own : items = before ∨ items = after)
    {b : Binding} (mem : b ∈ items.flatMap Item.bindings) : ∃ n other, b = .name n other ∧ n ≠ name := by
  refine h.others b ?_
  rw [Imports.bindings_ofItems, List.flatMap_append]
  rcases own with rfl | rfl
  · exact List.mem_append_left _ mem
  · exact List.mem_append_right _ mem

theorem findSome?_others (h : Beside before after path name) {items : List Item}
    (own : items = before ∨ items = after) :
    (items.flatMap Item.bindings).reverse.findSome? (Binding.pathOf? name) = none := by
  refine List.findSome?_eq_none_iff.2 fun b mem => ?_
  obtain ⟨n, other, rfl, different⟩ := h.exists_name own (List.mem_reverse.1 mem)
  exact if_neg different

theorem named_eq (h : Beside before after path name) : named before after path name =
    ⟨before.flatMap Item.bindings ++ ([.name name (path.push name)] ++ after.flatMap Item.bindings),
      (Imports.ofItems (before ++ after)).declared⟩ := by
  have own : (UseTree.name name).bindings path = [.name name (path.push name)] :=
    if_neg (NativeKind.apart_of_lastNames name h.listed.mem_lastNames).2.2.2
  rw [named, ofItems_beside, own]

theorem opened_eq : opened before after path =
    ⟨before.flatMap Item.bindings ++ ([.glob path] ++ after.flatMap Item.bindings),
      (Imports.ofItems (before ++ after)).declared⟩ :=
  ofItems_beside .glob

theorem declared_eq (h : Beside before after path name) :
    (named before after path name).declared = (opened before after path).declared := by
  rw [h.named_eq, opened_eq]

theorem find?_named (h : Beside before after path name) :
    (named before after path name).find? name = some (path.push name) := by
  have found : (Binding.name name (path.push name)).pathOf? name = some (path.push name) := if_pos rfl
  rw [h.named_eq, find?_append, h.findSome?_others (.inr rfl), h.findSome?_others (.inl rfl), List.reverse_singleton,
    List.findSome?_cons, found]
  rfl

theorem find?_opened (h : Beside before after path name) (n : String) : (opened before after path).find? n =
    if n = name then none else (named before after path name).find? n := by
  have glob : (Binding.glob path).pathOf? n = none := rfl
  rw [h.named_eq, opened_eq, find?_append, find?_append, List.reverse_singleton, List.reverse_singleton,
    List.findSome?_cons, List.findSome?_cons, glob]
  by_cases same : n = name
  · subst same
    rw [if_pos rfl, h.findSome?_others (.inr rfl), h.findSome?_others (.inl rfl)]
    rfl
  · have other : (Binding.name name (path.push name)).pathOf? n = none := if_neg (Ne.symm same)
    rw [if_neg same, other]

theorem globs_others (h : Beside before after path name) (middle : List Binding) (declared : List String) :
    (⟨before.flatMap Item.bindings ++ (middle ++ after.flatMap Item.bindings), declared⟩ : Imports).globs =
      middle.filterMap Binding.opened? := by
  have silent {items : List Item} (own : items = before ∨ items = after) :
      (items.flatMap Item.bindings).filterMap Binding.opened? = [] := by
    refine List.filterMap_eq_nil_iff.2 fun b mem => ?_
    obtain ⟨n, other, rfl, -⟩ := h.exists_name own mem
    rfl
  show (before.flatMap Item.bindings ++ (middle ++ after.flatMap Item.bindings)).filterMap Binding.opened? = _
  rw [List.filterMap_append, List.filterMap_append, silent (.inl rfl), silent (.inr rfl), List.nil_append,
    List.append_nil]

theorem globs_named (h : Beside before after path name) : (named before after path name).globs = [] := by
  rw [h.named_eq, h.globs_others]
  rfl

theorem globs_opened (h : Beside before after path name) : (opened before after path).globs = [path] := by
  rw [opened_eq, h.globs_others]
  rfl

/-! ## What names stand for with either import -/

/-- A path starts with the name, and the name is no type parameter. -/
def StartsWith (params : List String) (name : String) (absolute : Bool) (ss : List Segment) : Prop :=
  absolute = false ∧ ∃ s rest, ss = s :: rest ∧ s.name = name ∧ s.name ∉ params

variable {params : List String}

/-- What is tried below one opened path. -/
theorem tried (s : Segment) : (([path] : List NamePath).map (·.push s.name)).find? (fun path =>
    (NativeKind.lookup? (.path path.absolute (Imports.splice path [s]))).isSome) =
      if NativeBelow path s then some (path.push s.name) else none := by
  rw [List.map_singleton]
  split
  · rename_i native
    exact List.find?_cons_of_pos (Imports.nativeBelow_iff.1 native)
  · rename_i other
    exact List.find?_cons_of_neg fun native => other (Imports.nativeBelow_iff.2 native)

theorem notMem_declared (h : Beside before after path name) : name ∉ (named before after path name).declared := by
  rw [h.named_eq]
  exact h.undeclared

/-- Imported by its name, the type is meant wherever a path starts with the name. -/
theorem head?_named (h : Beside before after path name) {s : Segment} (same : s.name = name) (free : s.name ∉ params)
    (ss : List Segment) : (named before after path name).head? params false (s :: ss) = some (path.push name) := by
  refine Imports.head?_bound ?_ (same ▸ h.find?_named)
  rintro (own | declared)
  · exact free own
  · exact h.notMem_declared (same ▸ declared)

/-- Below the opened path, it is meant where the name stands alone and is a native type with its arguments. -/
theorem head?_opened (h : Beside before after path name) {s : Segment} (same : s.name = name) (free : s.name ∉ params)
    {ss : List Segment} {head : NamePath} : (opened before after path).head? params false (s :: ss) = some head ↔
      ss = [] ∧ NativeBelow path s ∧ head = path.push name := by
  have other : ¬(s.name ∈ params ∨ s.name ∈ (opened before after path).declared) := by
    rintro (own | declared)
    · exact free own
    · exact h.notMem_declared (h.declared_eq ▸ same ▸ declared)
  have unbound : (opened before after path).find? s.name = none := by rw [h.find?_opened, if_pos same]
  rw [Imports.head?_unbound other unbound, h.globs_opened, tried]
  cases ss with
  | cons s' ss => exact iff_of_false nofun fun h => nomatch h.1
  | nil =>
    rw [List.isEmpty_nil, if_pos rfl, eq_self_iff_true, true_and, same]
    by_cases native : NativeBelow path s
    · rw [if_pos native, Option.some.injEq, eq_comm]
      exact (and_iff_right native).symm
    · rw [if_neg native]
      exact iff_of_false nofun fun h => native h.1

/-- Any other path starts alike with either import. -/
theorem head?_agrees (h : Beside before after path name) {absolute : Bool} {ss : List Segment}
    (elsewhere : ¬StartsWith params name absolute ss)
    (quiet : ∀ s, absolute = false → ss = [s] → s.name ≠ name → ¬Listed path s.name) :
    (named before after path name).head? params absolute ss = (opened before after path).head? params absolute ss := by
  cases absolute with
  | true => rfl
  | false =>
    cases ss with
    | nil => rfl
    | cons s ss =>
      by_cases own : s.name ∈ params ∨ s.name ∈ (named before after path name).declared
      · rw [Imports.head?_own own, Imports.head?_own (h.declared_eq ▸ own)]
      · have different : s.name ≠ name := fun same =>
          elsewhere ⟨rfl, s, ss, rfl, same, fun mem => own (.inl mem)⟩
        have found := h.find?_opened s.name
        rw [if_neg different] at found
        cases bound : (named before after path name).find? s.name with
        | some other =>
          rw [Imports.head?_bound own bound, Imports.head?_bound (h.declared_eq ▸ own) (found.trans bound)]
        | none =>
          rw [Imports.head?_unbound own bound, Imports.head?_unbound (h.declared_eq ▸ own) (found.trans bound),
            h.globs_named, h.globs_opened]
          cases ss with
          | cons s' ss => rfl
          | nil =>
            have unlisted : ¬NativeBelow path s := fun native =>
              quiet s rfl rfl different (.of_nativeBelow native)
            rw [tried, if_neg unlisted]
            rfl

end Beside

/-! ## Native types with either import -/

/-- The name of a path that is no more than one name. -/
def alone (absolute : Bool) : List Segment → List Segment
  | [s] => if absolute then [] else [s]
  | _ => []

mutual

/-- The names in a type that stand alone, with their arguments, at any depth. -/
def Ty.bare : Ty → List Segment
  | .path absolute ss => alone absolute ss ++ segmentsBare ss
  | .projection self _ _ ss => self.bare ++ segmentsBare ss
  | .paren inner => inner.bare
  | .shaped _ parts => partsBare parts

def segmentsBare : List Segment → List Segment
  | [] => []
  | s :: ss => s.bare ++ segmentsBare ss

def Segment.bare : Segment → List Segment
  | .mk _ .none => []
  | .mk _ (.angle _ as _) => argsBare as
  | .mk _ (.call parts) => partsBare parts

def argsBare : List Arg → List Segment
  | [] => []
  | a :: as => a.bare ++ argsBare as

def Arg.bare : Arg → List Segment
  | .lifetime _ => []
  | .ty t => t.bare
  | .other parts => partsBare parts

def partsBare : List Part → List Segment
  | [] => []
  | p :: ps => p.bare ++ partsBare ps

def Part.bare : Part → List Segment
  | .token _ => []
  | .ty t => t.bare
  | .segment s => s.bare
  | .embedded _ parts => partsBare parts

end

theorem subset_segmentsBare {ss : List Segment} {turbofish trailing : Bool} {t : Ty}
    (last : PathPattern.lastArgs ss = .angle turbofish [.ty t] trailing) : t.bare ⊆ segmentsBare ss := by
  induction ss with
  | nil => cases last
  | cons s ss ih =>
    rw [segmentsBare]
    cases ss with
    | nil =>
      obtain ⟨name, args⟩ := s
      obtain rfl : args = .angle turbofish [.ty t] trailing := last
      simp [Segment.bare, argsBare, Arg.bare]
    | cons s' ss => exact fun b mem => List.mem_append_right _ (ih last mem)

theorem Ty.bare_peel : (t : Ty) → t.peel.bare = t.bare
  | .paren inner => inner.bare_peel
  | .path _ _ | .projection _ _ _ _ | .shaped _ _ => rfl

/-- The names that stand alone in the type that is kept do so in the type as written. -/
theorem Ty.bare_kept (f : Bool → List Segment → Option NamePath) (t : Ty) : (t.kept f).bare ⊆ t.bare := by
  rw [kept, bare_peel]
  cases found : (t.peel.headed f).optionInner? with
  | none => rw [Option.getD_none, bare_peel]; exact List.Subset.refl _
  | some inner =>
    obtain ⟨absolute, ss, turbofish, trailing, same, last⟩ := exists_of_optionInner? found
    rw [Option.getD_some, ← bare_peel t, same, bare]
    exact fun b mem => List.mem_append_right _ (subset_segmentsBare last mem)

namespace Beside

variable {before after : List Item} {path : NamePath} {name : String} {params : List String}

/-- Of the names that stand alone, none but this one is that of a native type below the path. -/
def Quiet (path : NamePath) (name : String) (bare : List Segment) : Prop :=
  ∀ s ∈ bare, s.name ≠ name → ¬Listed path s.name

theorem quiet_of_lastNames {bare : List Segment}
    (others : ∀ s ∈ bare, s.name = name ∨ s.name ∉ NativeKind.lastNames) : Quiet path name bare :=
  fun s mem different listed => (others s mem).elim different fun other => other listed.mem_lastNames

theorem Quiet.single {absolute : Bool} {ss : List Segment} (quiet : Quiet path name (Ty.path absolute ss).bare)
    (s : Segment) (relative : absolute = false) (one : ss = [s]) (other : s.name ≠ name) : ¬Listed path s.name := by
  subst relative one
  exact quiet s (by simp [Ty.bare, alone]) other

/-- A path that holds a name which the pattern lacks is not written like it. -/
theorem not_matches_of_mem {p : PathPattern} {absolute : Bool} {ss : List Segment}
    (mem : name ∈ ss.map Segment.name) (apart : name ∉ p.names) : p.Matches (.path absolute ss) = false := by
  refine Bool.eq_false_iff.2 fun matched => apart ?_
  exact (PathPattern.matches_path_iff.1 matched).2.1.subset mem

/-- The name is in a path that starts with it, with either import. -/
theorem mem_names_of_headed {f : Bool → List Segment → Option NamePath} {s : Segment} {ss ss' : List Segment}
    {absolute' : Bool} (same : s.name = name)
    (meant : f false (s :: ss) = none ∨ f false (s :: ss) = some (path.push name))
    (headed : (Ty.path false (s :: ss)).headed f = .path absolute' ss') : name ∈ ss'.map Segment.name := by
  rw [Ty.headed] at headed
  rcases meant with found | found
  · rw [found] at headed
    cases headed
    exact List.mem_cons.2 (.inl same.symm)
  · rw [found] at headed
    cases headed
    rw [Imports.map_name_splice]
    exact List.mem_append_left _ (List.mem_append_right _ List.mem_cons_self)

/-- What the name stands for with either import. -/
theorem head?_either (h : Beside before after path name) {s : Segment} (same : s.name = name) (free : s.name ∉ params)
    (ss : List Segment) {imports : Imports}
    (either : imports = named before after path name ∨ imports = opened before after path) :
    imports.head? params false (s :: ss) = none ∨ imports.head? params false (s :: ss) = some (path.push name) := by
  rcases either with rfl | rfl
  · exact .inr (h.head?_named same free ss)
  · cases found : (opened before after path).head? params false (s :: ss) with
    | none => exact .inl rfl
    | some head => exact .inr (congrArg some ((h.head?_opened same free).1 found).2.2)

/-- A path that starts with the name is not written like a pattern that lacks it. -/
theorem not_matches_of_startsWith (h : Beside before after path name) {p : PathPattern} (apart : name ∉ p.names)
    {absolute : Bool} {ss : List Segment} (starts : StartsWith params name absolute ss) {imports : Imports}
    (either : imports = named before after path name ∨ imports = opened before after path) :
    p.Matches ((Ty.path absolute ss).mapHeads (imports.head? params)) = false := by
  obtain ⟨rfl, s, rest, rfl, same, free⟩ := starts
  obtain ⟨absolute', ss', headed, full⟩ := Ty.exists_headed (imports.head? params) false (s :: rest)
  rw [full]
  refine not_matches_of_mem ?_ apart
  have mem := mem_names_of_headed same (h.head?_either same free rest either) headed
  simpa [Function.comp_def] using mem

/-- A pattern without arguments that lacks the name is matched with both imports or with neither. -/
theorem simple_agrees (h : Beside before after path name) (params : List String) {p : PathPattern}
    (simple : p.args = []) (apart : name ∉ p.names) {t : Ty} (quiet : Quiet path name t.bare) :
    p.Matches (t.mapHeads ((named before after path name).head? params)) =
      p.Matches (t.mapHeads ((opened before after path).head? params)) := by
  cases t with
  | projection _ _ _ _ | paren _ | shaped _ _ => obtain ⟨_, _, _⟩ := p; rfl
  | path absolute ss =>
    by_cases starts : StartsWith params name absolute ss
    · rw [h.not_matches_of_startsWith apart starts (.inl rfl), h.not_matches_of_startsWith apart starts (.inr rfl)]
    · obtain ⟨absolute', ss', headed, full⟩ :=
        Ty.exists_headed ((named before after path name).head? params) absolute ss
      obtain ⟨_, _, headed', full'⟩ := Ty.exists_headed ((opened before after path).head? params) absolute ss
      have same : (Ty.path absolute ss).headed ((named before after path name).head? params) =
          (Ty.path absolute ss).headed ((opened before after path).head? params) := by
        rw [Ty.headed, Ty.headed, h.head?_agrees starts quiet.single]
      rw [← same, headed] at headed'
      cases headed'
      rw [full, full', PathPattern.matches_mapHeads simple, PathPattern.matches_mapHeads simple]

/-- The name that native types end in is none of those before it. -/
theorem apart (h : Beside before after path name) : (∀ p ∈ NativeKind.allPatterns, name ∉ p.names.dropLast) ∧
    name ∉ NativeKind.offsetPattern.names ∧ (∀ p ∈ Ty.optionPatterns, name ∉ p.names) :=
  have all := NativeKind.apart_of_lastNames name h.listed.mem_lastNames
  ⟨all.1, all.2.1, all.2.2.1⟩

/-- The arguments of a last name fit a native type with both imports or with neither. -/
theorem last_agrees (h : Beside before after path name) (params : List String) {p : PathPattern}
    (known : p ∈ NativeKind.allPatterns) {args : Args}
    (quiet : ∀ turbofish t trailing, args = .angle turbofish [.ty t] trailing → Quiet path name t.bare) :
    PathPattern.matchLast p.args (args.mapHeads ((named before after path name).head? params)) =
      PathPattern.matchLast p.args (args.mapHeads ((opened before after path).head? params)) := by
  rcases NativeKind.args_of_pattern known with none | one
  · rw [none, PathPattern.matchLast_nil_mapHeads, PathPattern.matchLast_nil_mapHeads]
  · rw [one]
    match args with
    | .none | .call _ => rfl
    | .angle _ [] _ | .angle _ (.lifetime _ :: _) _ | .angle _ (.other _ :: _) _ => rfl
    | .angle turbofish [.ty t] trailing =>
      have inside := h.simple_agrees params rfl h.apart.2.1 (quiet turbofish t trailing rfl)
      simp only [Args.mapHeads, argsMapHeads, Arg.mapHeads, PathPattern.matchLast, PathPattern.matchArgs, inside]
    | .angle _ (.ty _ :: _ :: _) _ =>
      simp only [Args.mapHeads, argsMapHeads, Arg.mapHeads, PathPattern.matchLast, PathPattern.matchArgs,
        Bool.and_false]

theorem Quiet.last {absolute : Bool} {ss : List Segment} (quiet : Quiet path name (Ty.path absolute ss).bare)
    {turbofish trailing : Bool} {t : Ty} (last : PathPattern.lastArgs ss = .angle turbofish [.ty t] trailing) :
    Quiet path name t.bare := fun s mem =>
  quiet s (List.mem_append_right _ (subset_segmentsBare last mem))

/-- A type whose path does not start with the name is native with both imports or with neither. -/
theorem native_agrees (h : Beside before after path name) {absolute : Bool} {ss : List Segment}
    (elsewhere : ¬StartsWith params name absolute ss) (quiet : Quiet path name (Ty.path absolute ss).bare) :
    (NativeKind.lookup? ((Ty.path absolute ss).mapHeads ((named before after path name).head? params))).isSome = true ↔
      (NativeKind.lookup? ((Ty.path absolute ss).mapHeads ((opened before after path).head? params))).isSome = true := by
  obtain ⟨absolute', ss', headed, full⟩ := Ty.exists_headed ((named before after path name).head? params) absolute ss
  obtain ⟨_, _, headed', full'⟩ := Ty.exists_headed ((opened before after path).head? params) absolute ss
  have same : (Ty.path absolute ss).headed ((named before after path name).head? params) =
      (Ty.path absolute ss).headed ((opened before after path).head? params) := by
    rw [Ty.headed, Ty.headed, h.head?_agrees elsewhere quiet.single]
  rw [← same, headed] at headed'
  cases headed'
  rw [full, full', NativeKind.isSome_lookup?_iff, NativeKind.isSome_lookup?_iff]
  refine exists_congr fun p => and_congr_right fun known => ?_
  have last : PathPattern.matchLast p.args
      (PathPattern.lastArgs (ss'.map (·.mapHeads ((named before after path name).head? params)))) =
        PathPattern.matchLast p.args
          (PathPattern.lastArgs (ss'.map (·.mapHeads ((opened before after path).head? params)))) := by
    rw [PathPattern.lastArgs_map, PathPattern.lastArgs_map]
    refine h.last_agrees params known fun turbofish t trailing found => ?_
    have written : PathPattern.lastArgs ss' = PathPattern.lastArgs ss := by
      refine (Ty.lastArgs_of_headed headed).resolve_right fun none => ?_
      cases found.symm.trans none
    exact quiet.last (written ▸ found)
  rw [PathPattern.matches_congr (by simp) (by simp) last]

/-- A path with the name in front of others is of no native type. -/
theorem not_native_of_mem (h : Beside before after path name) {absolute : Bool} {ss : List Segment}
    (mem : name ∈ (ss.map Segment.name).dropLast) : ¬(NativeKind.lookup? (.path absolute ss)).isSome = true := by
  intro native
  obtain ⟨p, known, matched⟩ := NativeKind.isSome_lookup?_iff.1 native
  obtain ⟨front, names⟩ := (PathPattern.matches_path_iff.1 matched).2.1
  refine h.apart.1 p known ?_
  rw [← names, List.dropLast_append_of_ne_nil (List.ne_nil_of_mem ((List.dropLast_sublist _).mem mem))]
  exact List.mem_append_right _ mem

/-- A path that goes on behind the name is of no native type, with either import. -/
theorem not_native_of_longer (h : Beside before after path name) {s : Segment} (same : s.name = name)
    (free : s.name ∉ params) {ss : List Segment} (longer : ss ≠ []) {imports : Imports}
    (either : imports = named before after path name ∨ imports = opened before after path) :
    ¬(NativeKind.lookup? ((Ty.path false (s :: ss)).mapHeads (imports.head? params))).isSome = true := by
  have behind : ss.map Segment.name ≠ [] := by simpa using longer
  rw [Ty.mapHeads, segmentsMapHeads_eq_map]
  rcases h.head?_either same free ss either with found | found
  · rw [found]
    refine h.not_native_of_mem ?_
    simp only [List.map_cons, List.map_map, Function.comp_def, Segment.name_mapHeads, same]
    rw [List.dropLast_cons_of_ne_nil behind]
    exact List.mem_cons_self
  · rw [found]
    refine h.not_native_of_mem ?_
    rw [List.map_cons, Imports.map_name_splice, List.map_map]
    simp only [Function.comp_def, Segment.name_mapHeads]
    rw [List.dropLast_append_of_ne_nil behind]
    exact List.mem_append_left _ (List.mem_append_right _ List.mem_cons_self)

/-- Where the name stands alone and is meant, it is native if it is with its arguments in full. -/
theorem native_of_meant {f : Bool → List Segment → Option NamePath} {s : Segment} (same : s.name = name)
    (meant : f false [s] = some (path.push name)) :
    (NativeKind.lookup? ((Ty.path false [s]).mapHeads f)).isSome = true ↔ NativeBelow path (s.mapHeads f) := by
  subst same
  rw [Ty.mapHeads, meant, segmentsMapHeads_eq_map, Imports.nativeBelow_iff, Segment.name_mapHeads]
  rfl

/-- The name with its arguments in full is native below the path with both imports or with neither. -/
theorem nativeBelow_agrees (h : Beside before after path name) {s : Segment}
    (quiet : Quiet path name (Ty.path false [s]).bare) :
    NativeBelow path (s.mapHeads ((named before after path name).head? params)) ↔
      NativeBelow path (s.mapHeads ((opened before after path).head? params)) := by
  have inside (turbofish : Bool) (t : Ty) (trailing : Bool) (found : s.args = .angle turbofish [.ty t] trailing) :
      Quiet path name t.bare := by
    have last : PathPattern.lastArgs [s] = .angle turbofish [.ty t] trailing := found
    exact quiet.last last
  rw [nativeBelow_iff_exists, nativeBelow_iff_exists]
  refine exists_congr fun p => and_congr_right fun known => ?_
  rw [Segment.name_mapHeads, Segment.name_mapHeads, Segment.args_mapHeads, Segment.args_mapHeads,
    h.last_agrees params known inside]

/-- A name that is not native below the path is not native by itself either. -/
theorem not_native_alone (h : Beside before after path name) {s : Segment} (same : s.name = name)
    (other : ¬NativeBelow path s) (f : Bool → List Segment → Option NamePath) :
    ¬(NativeKind.lookup? (.path false [s.mapHeads f])).isSome = true := by
  intro native
  obtain ⟨p, known, matched⟩ := NativeKind.isSome_lookup?_iff.1 native
  obtain ⟨-, ⟨front, names⟩, exact, -, last⟩ := PathPattern.matches_path_iff.1 matched
  rw [List.map_singleton, Segment.name_mapHeads, same] at names exact
  -- a pattern of one name takes no arguments, and so do the native types of this name below the path
  have loose : p.exact = false := Bool.eq_false_iff.2 fun own =>
    (NativeKind.args_of_single p known).1 own (by rw [← exact own]; rfl)
  have none : p.args = [] := List.isEmpty_iff.1 ((NativeKind.args_of_single p known).2 loose)
  obtain ⟨args, listed⟩ := h.listed
  obtain ⟨q, known', ⟨front', names'⟩, exact', last'⟩ := nativeBelow_iff_exists.1 listed
  have lasts : p.names.getLast? = q.names.getLast? := by
    rw [← names, ← names', ← List.append_assoc, List.getLast?_concat, List.getLast?_concat]
    rfl
  have none' : q.args = [] := by
    have alike := NativeKind.args_of_last p known q known' lasts
    rw [none] at alike
    exact List.isEmpty_iff.1 alike.symm
  refine other (nativeBelow_iff_exists.2 ⟨q, known', ?_⟩)
  rw [same, none']
  refine ⟨⟨front', names'⟩, exact', ?_⟩
  have own : PathPattern.lastArgs [s.mapHeads f] = s.args.mapHeads f := s.args_mapHeads
  rwa [none, own, PathPattern.matchLast_nil_mapHeads] at last

/-- A native type other than a date is native with its arguments as written. -/
theorem nativeBelow_of_full {s : Segment} {f : Bool → List Segment → Option NamePath} (other : s.name ≠ "DateTime")
    (full : NativeBelow path (s.mapHeads f)) : NativeBelow path s := by
  obtain ⟨p, known, ⟨front, names⟩, exact, last⟩ := nativeBelow_iff_exists.1 full
  rw [Segment.name_mapHeads] at names exact
  have own : p.names.getLast? = some s.name := by
    rw [← names, ← List.append_assoc, List.getLast?_concat]
  have none : p.args = [] := List.isEmpty_iff.1 (NativeKind.args_of_other p known fun date =>
    other (Option.some.inj (own.symm.trans date)))
  rw [none, Segment.args_mapHeads, PathPattern.matchLast_nil_mapHeads, ← none] at last
  exact nativeBelow_iff_exists.2 ⟨p, known, ⟨front, names⟩, exact, last⟩

/-- Where the type is the name by itself, it is native with its arguments as written if it is with them in full. -/
def Settled (imports : Imports) (params : List String) (path : NamePath) (name : String) (t : Ty) : Prop :=
  ∀ s, t = .path false [s] → s.name = name → s.name ∉ params →
    NativeBelow path (s.mapHeads (imports.head? params)) → NativeBelow path s

/-- The name by itself is native with both imports or with neither, just if its arguments as written are as good as
in full. -/
theorem native_iff_alone (h : Beside before after path name) {s : Segment} (same : s.name = name)
    (free : s.name ∉ params) (quiet : Quiet path name (Ty.path false [s]).bare) :
    ((NativeKind.lookup? ((Ty.path false [s]).mapHeads ((named before after path name).head? params))).isSome = true ↔
      (NativeKind.lookup? ((Ty.path false [s]).mapHeads ((opened before after path).head? params))).isSome = true) ↔
      (NativeBelow path (s.mapHeads ((named before after path name).head? params)) → NativeBelow path s) := by
  rw [native_of_meant same (h.head?_named same free [])]
  by_cases native : NativeBelow path s
  · have tried := (h.head?_opened same free).2 ⟨rfl, native, rfl⟩
    rw [native_of_meant same tried]
    exact iff_of_true (h.nativeBelow_agrees quiet) fun _ => native
  · have untried : (opened before after path).head? params false [s] = none :=
      Option.eq_none_iff_forall_ne_some.2 fun head found => native ((h.head?_opened same free).1 found).2.1
    have alone : (Ty.path false [s]).mapHeads ((opened before after path).head? params) =
        .path false [s.mapHeads ((opened before after path).head? params)] := by
      rw [Ty.mapHeads, untried, segmentsMapHeads_eq_map]
      rfl
    rw [alone, iff_false_right (h.not_native_alone same native _)]
    exact ⟨fun none full => absurd full none, fun own full => native (own full)⟩

/-- A type is native with both imports or with neither, just if its arguments as written are as good as in full. -/
theorem native_iff (h : Beside before after path name) {t : Ty} (quiet : Quiet path name t.bare) :
    ((NativeKind.lookup? (t.mapHeads ((named before after path name).head? params))).isSome = true ↔
      (NativeKind.lookup? (t.mapHeads ((opened before after path).head? params))).isSome = true) ↔
      Settled (named before after path name) params path name t := by
  cases t with
  | projection _ _ _ _ | paren _ | shaped _ _ => exact iff_of_true .rfl nofun
  | path absolute ss =>
    by_cases starts : StartsWith params name absolute ss
    · obtain ⟨rfl, s, rest, rfl, same, free⟩ := starts
      cases rest with
      | cons s' rest =>
        have longer : s' :: rest ≠ [] := List.cons_ne_nil s' rest
        refine iff_of_true (iff_of_false ?_ ?_) ?_
        · exact h.not_native_of_longer same free longer (.inl rfl)
        · exact h.not_native_of_longer same free longer (.inr rfl)
        rintro _ ⟨⟩
      | nil =>
        rw [h.native_iff_alone same free quiet]
        constructor
        · rintro own _ ⟨⟩ _ _
          exact own
        · exact fun all => all s rfl same free
    · refine iff_of_true (h.native_agrees starts quiet) ?_
      rintro s ⟨⟩ same free
      exact absurd ⟨rfl, s, [], rfl, same, free⟩ starts

/-- A path that holds the name is no `Option`. -/
theorem optionInner?_of_mem (h : Beside before after path name) {absolute : Bool} {ss : List Segment}
    (mem : name ∈ ss.map Segment.name) : (Ty.path absolute ss).optionInner? = none := by
  have names (ss : List Segment) : (Ty.bareLast ss).map Segment.name = ss.map Segment.name := by
    induction ss with
    | nil => rfl
    | cons s ss ih =>
      cases ss with
      | nil => rfl
      | cons s' ss => exact congrArg (List.cons s.name) ih
  have other : (Ty.optionPatterns.any fun p => p.Matches (.path absolute (Ty.bareLast ss))) = false := by
    refine List.any_eq_false.2 fun p known => ?_
    rw [not_matches_of_mem (names ss ▸ mem) (h.apart.2.2 p known)]
    exact Bool.false_ne_true
  rw [Ty.optionInner?]
  split
  · rw [other]
    rfl
  · rfl

/-- The same type is kept with both imports. -/
theorem kept_agrees (h : Beside before after path name) {t : Ty} (quiet : Quiet path name t.bare) :
    t.kept ((named before after path name).head? params) = t.kept ((opened before after path).head? params) := by
  rw [← Ty.bare_peel] at quiet
  have inside : (t.peel.headed ((named before after path name).head? params)).optionInner? =
      (t.peel.headed ((opened before after path).head? params)).optionInner? := by
    cases peeled : t.peel with
    | projection _ _ _ _ | paren _ | shaped _ _ => rfl
    | path absolute ss =>
      rw [peeled] at quiet
      by_cases starts : StartsWith params name absolute ss
      · obtain ⟨rfl, s, rest, rfl, same, free⟩ := starts
        have none {imports : Imports}
            (either : imports = named before after path name ∨ imports = opened before after path) :
            ((Ty.path false (s :: rest)).headed (imports.head? params)).optionInner? = none := by
          obtain ⟨absolute', ss', headed, -⟩ := Ty.exists_headed (imports.head? params) false (s :: rest)
          rw [headed]
          exact h.optionInner?_of_mem (mem_names_of_headed same (h.head?_either same free rest either) headed)
        rw [none (.inl rfl), none (.inr rfl)]
      · rw [Ty.headed, Ty.headed, h.head?_agrees starts quiet.single]
  rw [Ty.kept, Ty.kept, inside]

theorem isDescribable_of_kept {f : Bool → List Segment → Option NamePath} {t : Ty}
    (h : (t.kept f).isDescribable = true) : t.peel.isDescribable = true := by
  rw [Ty.kept] at h
  cases same : t.peel with
  | path _ _ | projection _ _ _ _ | paren _ => rfl
  | shaped shape parts =>
    rw [same] at h
    exact h

/-- The strategy for a type is the same with both imports just if the arguments of what is kept are as good as in
full. -/
theorem strategy_iff (h : Beside before after path name) (params : List String) {t : Ty} (quiet : Quiet path name t.bare) :
    (Descriptor.ofTy? ((named before after path name).qualify params t)).map Descriptor.strategy =
      (Descriptor.ofTy? ((opened before after path).qualify params t)).map Descriptor.strategy ↔
    Settled (named before after path name) params path name
      (t.kept ((named before after path name).head? params)) := by
  rw [Imports.qualify_eq_mapHeads, Imports.qualify_eq_mapHeads, Descriptor.strategy_mapHeads,
    Descriptor.strategy_mapHeads, ← h.kept_agrees quiet,
    ← h.native_iff fun s mem => quiet s (Ty.bare_kept _ t mem)]
  by_cases described : (t.kept ((named before after path name).head? params)).isDescribable = true
  · have both := And.intro (isDescribable_of_kept described) described
    rw [if_pos both, if_pos both, Option.some.injEq]
    split <;> split <;> simp_all
  · have silent (f : Bool → List Segment → Option NamePath) : ¬(NativeKind.lookup?
        ((t.kept ((named before after path name).head? params)).mapHeads f)).isSome = true := by
      intro native
      obtain ⟨p, -, matched⟩ := NativeKind.isSome_lookup?_iff.1 native
      obtain ⟨absolute, ss, same⟩ := PathPattern.exists_path_of_matches matched
      rw [← Ty.isDescribable_mapHeads (f := f), same] at described
      exact described rfl
    rw [if_neg fun h => described h.2, if_neg fun h => described h.2]
    exact iff_of_true rfl (iff_of_false (silent _) (silent _))

end Beside

/-! ## The storage of a field -/

namespace Accessors

/-- The strategy for a field of the struct at a site, if the field gives a property. -/
def Site.strategy? (s : Site) (f : Field) : Option Strategy :=
  (fieldProperty? s.id { f with ty := s.imports.qualify s.decl.generics.typeNames f.ty }).map Property.strategy

/-- The strategies for the properties of a struct. -/
theorem Site.map_strategy {s : Site} {fields : List Field} (named : s.decl.fields = .named fields) :
    s.fieldProperties.map Property.strategy = fields.filterMap s.strategy? := by
  rw [fieldProperties, Struct.qualified, named]
  simp only [List.filterMap_map, List.map_filterMap]
  rfl

/-- A marker that names no strategy leaves the choice to the type in full. -/
theorem Site.strategy?_eq (s : Site) {f : Field} {m : Marker.Settings} (marked : Marker.find f.attrs = .ok (some m))
    (silent : m.strategy = none) : s.strategy? f =
      (Descriptor.ofTy? (s.imports.qualify s.decl.generics.typeNames f.ty)).map Descriptor.strategy := by
  rw [strategy?, fieldProperty?, marked]
  simp only [Option.map_map, silent]
  rfl

/-- Whether a module imports a native type by its name or by all that its path holds, a field is stored alike just if
what is kept of it is not the name with arguments that make a native type only in full. No type but a date has such
arguments. -/
theorem stored_alike {before after : List Item} {path : NamePath} {name : String} (h : Beside before after path name)
    (scope : List String) (container : Container) (decl : Struct) {f : Field} {m : Marker.Settings}
    (marked : Marker.find f.attrs = .ok (some m)) (silent : m.strategy = none)
    (quiet : Beside.Quiet path name f.ty.bare) :
    let named := Beside.named before after path name
    let opened := Beside.opened before after path
    let params := decl.generics.typeNames
    ((⟨named, scope, container, decl⟩ : Site).strategy? f =
        (⟨opened, scope, container, decl⟩ : Site).strategy? f ↔
      Beside.Settled named params path name (f.ty.kept (named.head? params))) ∧
    (name ≠ "DateTime" →
      (⟨named, scope, container, decl⟩ : Site).strategy? f =
        (⟨opened, scope, container, decl⟩ : Site).strategy? f) := by
  intro named opened params
  have agree := h.strategy_iff params quiet
  rw [Site.strategy?_eq _ marked silent, Site.strategy?_eq _ marked silent]
  exact ⟨agree, fun other => agree.2 fun s _ same _ =>
    Beside.nativeBelow_of_full fun date => other (same.symm.trans date)⟩

/-- A setting that may be missing, and a length of time, in a module that imports other names besides. -/
theorem stored_alike_duration :
    let before : List Item := [.imports false (.path "std" (.path "option" (.rename "Option" "Maybe")))]
    let time : NamePath := ⟨false, ["std", "time"]⟩
    let ty : Ty := .path false [.mk "Maybe" (.angle false [.ty (.named ["Duration"])] false)]
    let f : Field := ⟨[⟨⟨false, [Marker.markerName]⟩, .none⟩], "_delay", ty⟩
    let audio : Struct := ⟨[], "Audio", ⟨[], false, []⟩, .named [f]⟩
    let site (imports : Imports) : Site := ⟨imports, ["app"], .module, audio⟩
    Beside before [.struct audio] time "Duration" ∧ Beside.Quiet time "Duration" ty.bare ∧
      (site (Beside.named before [.struct audio] time "Duration")).strategy? f =
        (site (Beside.opened before [.struct audio] time)).strategy? f ∧
      (site (Beside.opened before [.struct audio] time)).strategy? f = some .native := by
  intro before time ty f audio site
  have beside : Beside before [.struct audio] time "Duration" := by
    refine ⟨⟨.none, by decide⟩, by decide, fun b mem => ?_⟩
    rw [List.mem_singleton.1 mem]
    exact ⟨"Maybe", _, rfl, by decide⟩
  have quiet : Beside.Quiet time "Duration" ty.bare := Beside.quiet_of_lastNames (by decide +kernel)
  have marked : Marker.find f.attrs = .ok (some ⟨none, true, none⟩) := by decide +kernel
  have alike := (stored_alike beside ["app"] .module audio marked rfl quiet).2 (by decide)
  exact ⟨beside, quiet, alike, by decide +kernel⟩

/-- A date whose offset goes by another name: it is native only in full, and is not looked for below an opened
path. -/
theorem stored_apart :
    let before : List Item := [.imports false (.path "chrono" (.rename "FixedOffset" "Offset"))]
    let chrono : NamePath := ⟨false, ["chrono"]⟩
    let ty : Ty := .path false [.mk "DateTime" (.angle false [.ty (.named ["Offset"])] false)]
    let f : Field := ⟨[⟨⟨false, [Marker.markerName]⟩, .none⟩], "_since", ty⟩
    let audio : Struct := ⟨[], "Audio", ⟨[], false, []⟩, .named [f]⟩
    let site (imports : Imports) : Site := ⟨imports, ["app"], .module, audio⟩
    Beside before [.struct audio] chrono "DateTime" ∧ Beside.Quiet chrono "DateTime" ty.bare ∧
      (site (Beside.named before [.struct audio] chrono "DateTime")).strategy? f = some .native ∧
      (site (Beside.opened before [.struct audio] chrono)).strategy? f = some .json := by
  intro before chrono ty f audio site
  have beside : Beside before [.struct audio] chrono "DateTime" := by
    refine ⟨⟨.angle false [.ty (.named ["FixedOffset"])] false, by decide⟩, by decide, fun b mem => ?_⟩
    rw [List.mem_singleton.1 mem]
    exact ⟨"Offset", _, rfl, by decide⟩
  exact ⟨beside, Beside.quiet_of_lastNames (by decide +kernel), by decide +kernel, by decide +kernel⟩

end Accessors

end LiveSettings
