/-!
# Tokens

Source text as a flat list of tokens. A group stands in the list as an opening token, its content and
a closing token of the same kind; `Balanced` says that every group is closed. `render` writes tokens
back as text in one fixed spacing.

Results: `openGroups_append` (groups are counted list by list), `balanced_append` (balanced lists may be
joined).
-/

namespace LiveSettings

/-- The brackets that make a group. -/
inductive Delimiter where
  | paren
  | bracket
  | brace
  deriving DecidableEq, Repr, Inhabited

namespace Delimiter

def openChar : Delimiter → Char
  | .paren => '('
  | .bracket => '['
  | .brace => '\x7b'

def closeChar : Delimiter → Char
  | .paren => ')'
  | .bracket => ']'
  | .brace => '\x7d'

end Delimiter

/-- A token. Identifiers and literals keep their spelling, a raw identifier its `r#`. A mark is joint
if the next token is a mark that follows it without a gap. -/
inductive Token where
  | ident (name : String)
  | mark (char : Char) (joint : Bool)
  | literal (text : String)
  | opening (d : Delimiter)
  | closing (d : Delimiter)
  deriving DecidableEq, Repr, Inhabited

namespace Token

/-- The marks of an operator: all but the last are joint. -/
def marks : List Char → List Token
  | [] => []
  | [c] => [.mark c false]
  | c :: cs => .mark c true :: marks cs

/-- An operator by its spelling. -/
def op (spelling : String) : List Token := marks spelling.toList

/-- A lifetime: a quote joined to a name. -/
def lifetime (name : String) : List Token := [.mark '\'' true, .ident name]

/-- Content between an opening and a closing token. -/
def group (d : Delimiter) (content : List Token) : List Token :=
  .opening d :: content ++ [.closing d]

/-- The groups that are open after the tokens, innermost first; `none` if a closing token does not fit. -/
def openGroups : List Delimiter → List Token → Option (List Delimiter)
  | stack, [] => some stack
  | stack, .opening d :: ts => openGroups (d :: stack) ts
  | d :: stack, .closing e :: ts => if d = e then openGroups stack ts else none
  | [], .closing _ :: _ => none
  | stack, _ :: ts => openGroups stack ts

/-- Every group is closed by a token of its own kind. -/
def Balanced (ts : List Token) : Prop := openGroups [] ts = some []

instance (ts : List Token) : Decidable (Balanced ts) := inferInstanceAs (Decidable (_ = _))

theorem openGroups_append (stack : List Delimiter) (a b : List Token) :
    openGroups stack (a ++ b) = (openGroups stack a).bind fun s => openGroups s b := by
  induction a generalizing stack with
  | nil => simp [openGroups]
  | cons t a ih =>
    cases t with
    | closing d =>
      cases stack with
      | nil => simp [openGroups]
      | cons e stack =>
        simp only [List.cons_append, openGroups]
        split
        · exact ih stack
        · rfl
    | opening d => simpa [openGroups] using ih (d :: stack)
    | ident _ => cases stack <;> simpa [openGroups] using ih _
    | mark _ _ => cases stack <;> simpa [openGroups] using ih _
    | literal _ => cases stack <;> simpa [openGroups] using ih _

theorem balanced_append {a b : List Token} (ha : Balanced a) (hb : Balanced b) :
    Balanced (a ++ b) := by
  unfold Balanced at *
  simp [openGroups_append, ha, hb]

/-! ## Text -/

/-- The text of one token. -/
def text : Token → String
  | .ident name => name
  | .mark c _ => String.singleton c
  | .literal text => text
  | .opening d => String.singleton d.openChar
  | .closing d => String.singleton d.closeChar

/-- Whether a blank stands between two neighbours: always inside braces, never inside parentheses and
brackets, never after a joint mark, and between all other tokens. -/
def spaced : Token → Token → Bool
  | _, .closing .brace => true
  | _, .closing _ => false
  | .opening .brace, _ => true
  | .opening _, _ => false
  | .mark _ joint, _ => !joint
  | _, _ => true

/-- The text of the tokens after a first one. -/
def renderAfter : Token → List Token → String
  | _, [] => ""
  | prev, t :: ts => (if spaced prev t then " " else "") ++ t.text ++ renderAfter t ts

/-- Tokens as text in the fixed spacing. -/
def render : List Token → String
  | [] => ""
  | t :: ts => t.text ++ renderAfter t ts

/-- The tokens after the group that opens with the first token, or after the first token. -/
def skipTree : List Token → List Token
  | [] => []
  | .opening _ :: ts => closeGroup 0 ts
  | _ :: ts => ts
where
  closeGroup : Nat → List Token → List Token
    | _, [] => []
    | depth, .opening _ :: ts => closeGroup (depth + 1) ts
    | 0, .closing _ :: ts => ts
    | depth + 1, .closing _ :: ts => closeGroup depth ts
    | depth, _ :: ts => closeGroup depth ts

end Token

end LiveSettings
