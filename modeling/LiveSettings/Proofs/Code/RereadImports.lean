import LiveSettings.Proofs.Code.Names
import LiveSettings.Proofs.Code.Rereading
import LiveSettings.Proofs.Target.Qualifying
import LiveSettings.Proofs.Target.Spellings

/-!
# Imported paths that are read again

What the first name of a path stands for is an imported path or one of a native type. Its names are words that may stand
in a path, since an import is read from tokens too. It may be no path of a type for all that: `self` under another name
has no names at all, and a module such as `crate` takes no arguments.

Results:
* `heads_of_imported`: names are replaced by paths of words that may stand in a path.
* `leads_of_plain`: plain imports have the paths of types stay such paths.
-/

namespace LiveSettings

open LiveSettings.Parser LiveSettings.Grammar
open LiveSettings.Token (Spelled)

/-! ## The words of an import -/

mutual

/-- The words in an import, without the names that it gives. -/
def UseTree.words : UseTree → List String
  | .path name tree => name :: tree.words
  | .name name | .rename name _ => [name]
  | .glob => []
  | .group trees => treeWords trees

def treeWords : List UseTree → List String
  | [] => []
  | t :: ts => t.words ++ treeWords ts

end

theorem mem_treeWords {n : String} {trees : List UseTree} : n ∈ treeWords trees ↔ ∃ t ∈ trees, n ∈ t.words := by
  induction trees with
  | nil => simp [treeWords]
  | cons t ts ih => simp [treeWords, ih]

theorem NamePath.forall_push {P : String → Prop} {path : NamePath} {name : String} (before : ∀ n ∈ path.names, P n)
    (last : P name) : ∀ n ∈ (path.push name).names, P n :=
  List.forall_mem_append.2 ⟨before, List.forall_mem_singleton.2 last⟩

/-- The path that a name is bound to, or that is opened. -/
def Binding.path : Binding → NamePath
  | .name _ path | .glob path => path

mutual

/-- The paths of an import are of its words. -/
theorem UseTree.forall_bindings {P : String → Prop} {front : NamePath} (before : ∀ n ∈ front.names, P n) :
    (tree : UseTree) → (∀ n ∈ tree.words, P n) → ∀ b ∈ tree.bindings front, ∀ n ∈ b.path.names, P n
  | .path name tree, own, b, mem => by
    obtain ⟨here, later⟩ := List.forall_mem_cons.1 own
    exact tree.forall_bindings (NamePath.forall_push before here) later b mem
  | .name name, own, b, mem => by
    have here := own name List.mem_cons_self
    rw [UseTree.bindings] at mem
    split at mem
    · obtain ⟨last, -, rfl⟩ := Option.map_eq_some_iff.1 (Option.mem_toList.1 mem)
      exact before
    · rw [List.mem_singleton.1 mem]
      exact NamePath.forall_push before here
  | .rename name newName, own, b, mem => by
    have here := own name List.mem_cons_self
    rw [UseTree.bindings] at mem
    split at mem
    · cases mem
    · rw [List.mem_singleton.1 mem]
      dsimp only [Binding.path]
      split
      · exact before
      · exact NamePath.forall_push before here
  | .glob, _, b, mem => by
    rw [List.mem_singleton.1 mem]
    exact before
  | .group trees, own, b, mem => forall_treeBindings before trees own b mem

theorem forall_treeBindings {P : String → Prop} {front : NamePath} (before : ∀ n ∈ front.names, P n) :
    (trees : List UseTree) → (∀ n ∈ treeWords trees, P n) → ∀ b ∈ treeBindings front trees, ∀ n ∈ b.path.names, P n
  | [], _, b, mem => nomatch mem
  | t :: ts, own, b, mem => by
    obtain ⟨here, later⟩ := List.forall_mem_append.1 own
    rcases List.mem_append.1 mem with first | rest
    · exact t.forall_bindings before here b first
    · exact forall_treeBindings before ts later b rest

end

theorem mem_of_mapM_id {α : Type} {as : List α} {os : List (Option α)} (all : os.mapM id = some as) :
    ∀ a ∈ as, some a ∈ os := by
  induction os generalizing as with
  | nil =>
    cases all
    exact nofun
  | cons o os ih =>
    simp only [List.mapM_cons, Option.bind_eq_bind, Option.bind_eq_some_iff, id_eq, Option.pure_def] at all
    obtain ⟨a, rfl, as', later, all⟩ := all
    cases all
    exact List.forall_mem_cons.2 ⟨List.mem_cons_self, fun b mem => List.mem_cons_of_mem _ (ih later b mem)⟩

namespace Grammar

/-- A word that may stand in a path. -/
def IsStep (name : String) : Prop := Spelled name ∧ InSegment name

theorem isStep_of_ahead {name : String} {us : List Token} (spelled : Spelled name)
    (ahead : (isIdent (.ident name :: us) || isSelfWord (.ident name :: us)) = true) : IsStep name := by
  refine ⟨spelled, ?_⟩
  rcases Bool.or_eq_true_iff.1 ahead with identifier | own
  · exact .inl (.inl (by simpa [isIdent] using identifier))
  · have all : ∀ n ∈ selfWords, InSegment n := by decide
    exact all name (List.contains_iff_mem.1 own)

/-- The words of an import may stand in a path. -/
theorem ensures_useTreeLoop (fuel : Nat) (roots : Bool) (ts : List Token) :
    (useTreeLoop fuel roots).Ensures ts fun tree _ => ∀ t ∈ tree, ∀ n ∈ t.words, IsStep n := by
  induction fuel generalizing roots ts with
  | zero => exact ensures_failure
  | succ fuel ih =>
    unfold useTreeLoop
    refine ensures_ahead_bind.2 (ensures_ite (fun ahead => ?_) fun _ => ensures_ite (fun _ => ?_) fun _ =>
      ensures_ite (fun _ => ?_) fun _ => ensures_failure)
    · refine ensures_bind ensures_anyWord fun name us found => ?_
      obtain ⟨rfl, spelled⟩ := found
      have here : IsStep name := isStep_of_ahead spelled ahead
      refine ensures_peek_bind.2 (ensures_ite (fun _ => ?_) fun _ => ensures_peek_bind.2 (ensures_ite (fun _ => ?_)
        fun _ => ensures_pure ?_))
      · refine ensures_after fun _ us => ensures_bind (ih false us) fun tree vs later => ensures_pure ?_
        rintro t made
        obtain ⟨inner, rfl, rfl⟩ := Option.map_eq_some_iff.1 made
        exact List.forall_mem_cons.2 ⟨here, later inner rfl⟩
      · refine ensures_after fun _ us => ensures_after fun _ us => ensures_after fun _ us => ensures_after fun _ us => ?_
        refine ensures_after fun newName vs => ensures_pure ?_
        rintro t ⟨⟩
        exact List.forall_mem_singleton.2 here
      · rintro t ⟨⟩
        exact List.forall_mem_singleton.2 here
    · refine ensures_after fun _ us => ensures_pure ?_
      rintro t ⟨⟩
      exact nofun
    · have member (us : List Token) : (do
          if ← peek fun ts => roots && isOp "::" ts then
            discard (op "::")
            discard (useTreeLoop fuel false)
            return none
          else useTreeLoop fuel roots : Parser (Option UseTree)).Ensures us fun tree _ =>
            ∀ t ∈ tree, ∀ n ∈ t.words, IsStep n := by
        refine ensures_peek_bind.2 (ensures_ite (fun _ => ?_) fun _ => ih roots us)
        exact ensures_after fun _ us => ensures_after fun _ us => ensures_pure nofun
      refine ensures_bind (ensures_inside fun us _ => (ensures_separated fun us _ => member us).mono
        fun r vs listing _ _ => listing.forall fun _ _ _ words => words) fun r vs each => ensures_pure ?_
      rintro t made
      obtain ⟨trees, all, rfl⟩ := Option.map_eq_some_iff.1 made
      intro n mem
      obtain ⟨t, inside, mem⟩ := mem_treeWords.1 mem
      exact each (some t) (mem_of_mapM_id all t inside) t rfl n mem

/-- The words of what is imported may stand in a path. -/
theorem ImportedIn.words {text : String} {ts : List Token} (lexed : Token.ofFile? text = some ts) {tree : UseTree}
    (imported : ImportedIn ts tree) : ∀ n ∈ tree.words, IsStep n := by
  obtain ⟨fuel, roots, given⟩ := imported
  obtain ⟨_, _, words⟩ := given.exists_of_ensures lexed (ensures_useTreeLoop fuel roots)
  exact words tree rfl

end Grammar

/-! ## What first names stand for -/

/-- The first name of a path stands for a path that it is bound to, or for one of a native type. -/
theorem Imports.bound_or_native {imports : Imports} {params : List String} {absolute : Bool} {ss : List Segment}
    {head : NamePath} (h : imports.head? params absolute ss = some head) :
    (∃ name, .name name head ∈ imports.bindings) ∨
      head.names ≠ [] ∧ ∃ p ∈ NativeKind.allPatterns, ∀ n ∈ head.names, n ∈ p.names := by
  cases absolute with
  | true => cases h
  | false =>
    cases ss with
    | nil => cases h
    | cons s ss =>
      by_cases own : s.name ∈ params ∨ s.name ∈ imports.declared
      · rw [head?_own own] at h
        cases h
      · cases bound : imports.find? s.name with
        | some path =>
          rw [head?_bound own bound] at h
          cases h
          obtain ⟨b, mem, same⟩ := List.exists_of_findSome?_eq_some bound
          obtain rfl := Binding.pathOf?_eq_some_iff.1 same
          exact .inl ⟨s.name, List.mem_reverse.1 mem⟩
        | none =>
          rw [head?_unbound own bound] at h
          split at h
          · have native := List.find?_some h
            obtain ⟨p, known, matched⟩ := NativeKind.isSome_lookup?_iff.1 native
            obtain ⟨some, names, -⟩ := PathPattern.matches_path_iff.1 matched
            rw [splice, List.append_nil, map_name_headSegments] at names
            refine .inr ⟨fun none => some ?_, p, known, fun n mem => names.subset mem⟩
            rw [splice, none]
            rfl
          · cases h

namespace Grammar

variable {imports : Imports} (params : List String)

/-- Names are replaced by paths of words that may stand in a path. -/
theorem heads_of_imported (words : ∀ b ∈ imports.bindings, ∀ n ∈ b.path.names, IsStep n) :
    Heads (imports.head? params) := by
  intro absolute ss head found
  rcases Imports.bound_or_native found with ⟨name, bound⟩ | ⟨-, p, known, names⟩
  · exact words _ bound
  · have native : ∀ p ∈ NativeKind.allPatterns, ∀ n ∈ p.names, Spelled n ∧ InSegment n := by decide
    exact fun n mem => native p known n (names n mem)

end Grammar

/-- The path starts a path of a type, with arguments behind its last name. -/
structure NamePath.IsPlain (path : NamePath) : Prop where
  some : path.names ≠ []
  last : ∀ n ∈ path.names.getLast?, n ∉ selfWords
  first : path.absolute = false → ∀ n ∈ path.names.head?, n ≠ "try"

namespace Grammar

theorem isRooted_splice {head : NamePath} (plain : head.IsPlain) {s : Segment} {ss : List Segment}
    (bare : ∀ t ∈ ss, t.name ∈ selfWords → t.args.isNone = true) :
    IsRooted head.absolute (Imports.splice head (s :: ss)) := by
  obtain ⟨absolute, names⟩ := head
  obtain ⟨front, last, rfl⟩ := (List.eq_nil_or_concat' names).resolve_left plain.some
  obtain ⟨name, args⟩ := s
  rw [Imports.splice_mk]
  refine ⟨by simp, fun t mem own => ?_, fun relative t first => ?_⟩
  · rcases List.mem_append.1 mem with before | rest
    · obtain ⟨n, -, rfl⟩ := List.mem_map.1 before
      rfl
    · rcases List.mem_cons.1 rest with rfl | later
      · exact absurd own (plain.last last (by simp))
      · exact bare t later own
  · refine plain.first relative t.name ?_
    cases front with
    | nil =>
      cases first
      rfl
    | cons n front =>
      cases first
      rfl

/-- Where names are bound to plain paths, the paths of types stay such paths. -/
theorem leads_of_plain {imports : Imports} (plain : ∀ name path, .name name path ∈ imports.bindings → path.IsPlain)
    (params : List String) (absolute : Bool) (ss : List Segment) : Leads (imports.head? params) absolute ss := by
  intro rooted head found
  obtain ⟨s, ss, rfl⟩ := List.exists_cons_of_ne_nil rooted.some
  have bare (t) (mem : t ∈ ss) := rooted.bare t (List.mem_cons_of_mem _ mem)
  rcases Imports.bound_or_native found with ⟨name, bound⟩ | ⟨some, p, known, names⟩
  · exact isRooted_splice (plain name head bound) bare
  · have native : ∀ p ∈ NativeKind.allPatterns, ∀ n ∈ p.names, n ∉ selfWords := by decide
    have word (n) (mem : n ∈ head.names) : n ∉ selfWords := native p known n (names n mem)
    refine isRooted_splice ⟨some, fun n last => word n (List.mem_of_getLast? last), fun _ n first same => ?_⟩ bare
    exact word n (List.mem_of_head? first) (same ▸ by decide)

end Grammar

end LiveSettings
