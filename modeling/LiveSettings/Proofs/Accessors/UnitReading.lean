import LiveSettings.Proofs.Accessors.TypeNames
import LiveSettings.Proofs.Accessors.UnitTypes

/-!
# Units are read back

A unit is a file of its own: what was written for a type can be read again. The names in it come from the files
that were read, the texts in it may hold any characters, and the types of its fields are written as they were
declared, with their paths in full.

Results:
* `unit_reads_back`: the implementations, their functions and the table of properties, from the text of a unit.
* `unit_of_self_unread`: the text of a unit for a field of a type that is imported as `self`.
-/

namespace LiveSettings.Accessors

open LiveSettings.Parser LiveSettings.Grammar LiveSettings.Token

/-! ## Texts -/

/-- The line that a unit starts with. -/
def heading (id : TypeId) : String := "@generated by settings-gen for `" ++ id.qualifiedName ++ "`. Do not edit."

theorem text_eq (runtime : List Token) (u : GeneratedUnit) : u.text runtime =
    "// " ++ heading u.id ++ "\n\n" ++ Token.render (u.emitted.tokens runtime) ++ "\n" := by
  have start : "// @generated by settings-gen for `" = "// " ++ "@generated by settings-gen for `" := by decide
  have ends : "`. Do not edit.\n\n" = "`. Do not edit." ++ "\n\n" := by decide
  unfold GeneratedUnit.text TypeId.unitText heading
  rw [start, ends]
  simp only [String.append_assoc]

/-- The first line of a unit is one line. -/
theorem not_mem_heading {sources : List SourceFile} (read : ∀ f ∈ sources, f.Read)
    (lines : ∀ f ∈ sources, ∀ segment ∈ f.modulePath, '\n' ∉ segment.toList) {u : GeneratedUnit}
    (mem : u ∈ (generate sources).units) : '\n' ∉ (heading u.id).toList := by
  have segments := not_mem_segments_of_unit (c := '\n') (by decide) (by decide) (by decide)
    (fun f listed => (read f listed).named) lines mem
  have name : '\n' ∉ u.id.qualifiedName.toList := TypeId.not_mem_joined (by decide) segments
  unfold heading
  rw [String.toList_append, String.toList_append]
  exact List.not_mem_append (List.not_mem_append (by decide) name) (by decide)

/-- The tokens of a unit are those of its code, wherever these can be written. -/
theorem ofFile?_text {sources : List SourceFile} (read : ∀ f ∈ sources, f.Read)
    (lines : ∀ f ∈ sources, ∀ segment ∈ f.modulePath, '\n' ∉ segment.toList) {runtime : NamePath}
    (library : CodePath runtime) {u : GeneratedUnit} (mem : u ∈ (generate sources).units)
    (printable : u.emitted.Printable) :
    Token.ofFile? (u.text runtime.tokens) = some (u.emitted.tokens runtime.tokens) := by
  have printable := Emitted.printable_tokens library (named_of_unit read mem) printable
  obtain ⟨ts, start⟩ : ∃ ts, u.emitted.tokens runtime.tokens = .ident "impl" :: ts := ⟨_, rfl⟩
  rw [text_eq, start]
  rw [start] at printable
  exact ofFile?_heading (not_mem_heading read lines mem) rfl printable

/-! ## Units -/

/-- The text of a unit is a file with the table of the type, the notification trait unless the type declares it, and
the functions of each property; the table gives the properties back. -/
theorem unit_reads_back {sources : List SourceFile} (read : ∀ f ∈ sources, f.Read)
    (lines : ∀ f ∈ sources, ∀ segment ∈ f.modulePath, '\n' ∉ segment.toList) {runtime : NamePath}
    (library : CodePath runtime) {u : GeneratedUnit} (mem : u ∈ (generate sources).units)
    (context : u.emitted.contextField ≠ "_") (legible : ∀ s ∈ structsOf sources u.id, s.Legible) :
    ∃ t, findTarget? (scan sources) u.id = some t ∧ u.emitted.notifies = !t.declares notifyTrait ∧
      u.emitted.Describes (Property.ofType u.id (properties (scan sources))) ∧
      (∃ items, SourceFile.ofText? [] (u.text runtime.tokens) = some ⟨[], items⟩ ∧
        List.Forall₂ (fun i item => Implements i.1 u.emitted.name i.2 item) (u.emitted.outline runtime) items) ∧
      propertyTable? (u.text runtime.tokens) = some ((Property.ofType u.id (properties (scan sources))).map rowOf) := by
  have named := named_of_unit read mem
  have legible := Emitted.legible_of_sites read mem context legible
  have lexed := ofFile?_text read lines library mem legible.toPrintable
  obtain ⟨-, t, found, written⟩ := mem_units mem
  obtain ⟨-, -, -, -, notifies, describes⟩ := emit_ok written
  obtain ⟨items, parsed, same⟩ := Emitted.parse_tokens library named legible
  obtain ⟨behind, table⟩ := Emitted.table_tokens library named legible
  refine ⟨t, found, notifies, describes, ⟨items, ?_, same⟩, ?_⟩
  · rw [SourceFile.ofText?, lexed, Option.bind_eq_bind, Option.bind_some, parsed]
    rfl
  · rw [propertyTable?, lexed, ← describes.rows]
    exact congrArg (Option.map (·.1)) table

/-- A file with one property, which has a key with a quote and a line break. -/
def levelsText : String :=
  "use geometry::Point; struct Audio<'a, T: Clone> where T: Copy + 'a \x7b
    #[observable_setting(key = \"L\\\"R\\n\")] _levels: Vec<(fn(&'a T) -> Point, [f64; 4])>,
    context: SettingsContext \x7d"

/-- What is read from that text. -/
def levelsFile : SourceFile :=
  let borrowed : Ty := .shaped .reference (code (Token.op "&" ++ Token.lifetime "a") ++ [.ty (Ty.named ["T"])])
  let function : Ty := .shaped .function (code [.ident "fn", .opening .paren] ++ [.ty borrowed] ++
    code (.closing .paren :: Token.op "->") ++ [.ty (Ty.named ["Point"])])
  let array : Ty := .shaped .array (code [.opening .bracket] ++ ([.ty (Ty.named ["f64"])] ++ code (Token.op ";") ++
    [.embedded .expression (code [.literal "4"])]) ++ code [.closing .bracket])
  let pair : Ty := .shaped .tuple (code [.opening .paren] ++ .ty function :: (code (Token.op ",") ++
    joinCode "," ([array].map fun t => [.ty t]) false) ++ code [.closing .paren])
  let marker : Attr := ⟨⟨false, ["observable_setting"]⟩, .list .paren
    [.ident "key", .mark '=' false, .literal "\"L\\\"R\\n\""]⟩
  let clause : List Part := code [.ident "where"] ++ joinCode "," [[.ty (Ty.named ["T"])] ++ code (Token.op ":") ++
    joinCode "+" [[.segment (.mk "Copy" .none)], code (Token.lifetime "a")] false] false
  ⟨["app"], [.imports false (.path "geometry" (.name "Point")),
    .struct ⟨[], "Audio", ⟨[.lifetime [] "a" [], .ty [] "T" [.segment (.mk "Clone" .none)] none], false, clause⟩, .named [
      ⟨[marker], "_levels", .path false [.mk "Vec" (.angle false ([pair].map .ty) false)]⟩,
      ⟨[], "context", Ty.named ["SettingsContext"]⟩]⟩]⟩

set_option maxRecDepth 100000 in
theorem ofText?_levels : SourceFile.ofText? ["app"] levelsText = some levelsFile := by rfl

theorem legible_levels : ∀ s ∈ sites [levelsFile], s.Legible := by
  have four : LegibleCode .expression [.literal "4"] :=
    legibleCode_literal (isLiteral_decimal (List.cons_ne_nil '4' []) (List.forall_mem_singleton.2 rfl))
  intro s mem
  cases List.mem_singleton.1 mem
  refine Site.legible_of_foreign (fun name path bound => ?_) (by decide) (forall_mem_pair.2 ⟨nofun, nofun⟩) nofun
    fun fields same => ?_
  · cases List.mem_singleton.1 bound
    exact ⟨nofun, by decide, by decide⟩
  · cases same
    refine forall_mem_pair.2 ⟨fun _ => List.forall_mem_singleton.2 four, nofun⟩

set_option maxRecDepth 100000 in
theorem unit_reads_back_levels : SourceFile.ofText? ["app"] levelsText = some levelsFile ∧
    ∃ u, (generate [levelsFile]).units = [u] ∧
      (∃ items, SourceFile.ofText? [] (u.text [.ident "rt"]) = some ⟨[], items⟩) ∧
      propertyTable? (u.text [.ident "rt"]) = some [⟨"Levels", "L\"R\n", .json, false, true⟩] := by
  obtain ⟨u, units, context, rows⟩ : ∃ u, (generate [levelsFile]).units = [u] ∧ u.emitted.contextField = "context" ∧
      u.emitted.rows = [⟨"Levels", "L\"R\n", .json, false, true⟩] := ⟨_, rfl, rfl, rfl⟩
  have library : CodePath ⟨false, ["rt"]⟩ := ⟨⟨nofun, by decide⟩, by decide⟩
  have named : u.emitted.contextField ≠ "_" := context ▸ by decide
  obtain ⟨t, -, -, describes, ⟨items, parsed, -⟩, table⟩ := unit_reads_back
    (List.forall_mem_singleton.2 ⟨_, ofText?_levels⟩) (List.forall_mem_singleton.2 (by decide)) library
    (units ▸ List.mem_singleton_self u) named fun s mem => legible_levels s (List.mem_filter.1 mem).1
  rw [← describes.rows, rows] at table
  exact ⟨ofText?_levels, u, units, ⟨items, parsed⟩, table⟩

/-- A file that imports its own module under another name, of which there is a field. -/
def selfFile : SourceFile := ⟨["app"], [.imports false (.rename "self" "s"), .struct ⟨[], "A", ⟨[], false, []⟩, .named [
  ⟨[⟨⟨false, ["observable_setting"]⟩, .none⟩], "x", Ty.named ["s"]⟩, ⟨[], "context", Ty.named ["SettingsContext"]⟩]⟩]⟩

set_option maxRecDepth 100000 in
/-- No token is left of the type of that field, and the unit cannot be read. -/
theorem unit_of_self_unread : SourceFile.ofText? ["app"]
      "use self as s; struct A { #[observable_setting] x: s, context: SettingsContext }" = some selfFile ∧
    ∃ u, (generate [selfFile]).units = [u] ∧ u.emitted.groups.map (·.type.tokens) = [[]] ∧
      SourceFile.ofText? [] (u.text [.ident "rt"]) = none := by
  have read : SourceFile.ofText? ["app"]
      "use self as s; struct A { #[observable_setting] x: s, context: SettingsContext }" = some selfFile := by rfl
  obtain ⟨u, units, generics, types, context⟩ : ∃ u, (generate [selfFile]).units = [u] ∧
      u.emitted.generics = ⟨[], false, []⟩ ∧ u.emitted.groups.map (·.type.tokens) = [[]] ∧
      u.emitted.contextField = "context" := ⟨_, rfl, rfl, rfl, rfl⟩
  have unparsed : ∀ u ∈ (generate [selfFile]).units, (parseTokens? (fun g => do
      discard g.innerAttrs
      many (fun ts => !isEnd ts) g.item) (u.emitted.tokens [.ident "rt"])).isNone = true := by decide +kernel
  have library : CodePath ⟨false, ["rt"]⟩ := ⟨⟨nofun, by decide⟩, by decide⟩
  have mem : u ∈ (generate [selfFile]).units := units ▸ List.mem_singleton_self u
  have printable : u.emitted.Printable := by
    refine ⟨?_, fun g mem => ?_, by rw [context]; decide⟩
    · rw [generics]
      exact ⟨printable_nil, printable_nil, printable_nil⟩
    · have type : g.type.tokens ∈ [[]] := types ▸ List.mem_map_of_mem mem
      rw [List.mem_singleton.1 type]
      exact printable_nil
  have lexed : Token.ofFile? (u.text [.ident "rt"]) = some (u.emitted.tokens [.ident "rt"]) :=
    ofFile?_text (List.forall_mem_singleton.2 ⟨_, read⟩) (List.forall_mem_singleton.2 (by decide)) library mem printable
  refine ⟨read, u, units, types, ?_⟩
  rw [SourceFile.ofText?, lexed, Option.bind_eq_bind, Option.bind_some, Option.isNone_iff_eq_none.1 (unparsed u mem)]
  rfl

end LiveSettings.Accessors
