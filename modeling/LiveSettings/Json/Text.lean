import LiveSettings.Json

/-!
# The text of a JSON document

`render` writes a document without spaces, `renderPretty` with a line for every item and member. Numbers have
the fewest digits that read back; control characters, quotes and backslashes in texts are escaped.
-/

namespace LiveSettings.Json

/-- A double has an exponent below 10⁻⁵ and from 10¹⁶ on. -/
def doubleLayout : DecimalLayout := ⟨some (-5, 15), ".0"⟩

/-- A single has an exponent below 10⁻⁶ and from 10¹³ on. -/
def singleLayout : DecimalLayout := ⟨some (-6, 12), ".0"⟩

def Number.render : Number → List Char
  | .integer n => if n < 0 then '-' :: Nat.toDigits 10 n.natAbs else Nat.toDigits 10 n.natAbs
  | .double x => if x.isFinite then (x.text doubleLayout).toList else "null".toList
  | .single x => if x.isFinite then (x.text singleLayout).toList else "null".toList

/-- A character inside quotes. -/
def escapeChar (c : Char) : List Char :=
  if c == '"' then ['\\', '"']
  else if c == '\\' then ['\\', '\\']
  else if c == '\n' then ['\\', 'n']
  else if c == '\r' then ['\\', 'r']
  else if c == '\t' then ['\\', 't']
  else if c.toNat == 8 then ['\\', 'b']
  else if c.toNat == 12 then ['\\', 'f']
  else if c.toNat < 32 then
    ['\\', 'u', '0', '0', Nat.digitChar (c.toNat / 16), Nat.digitChar (c.toNat % 16)]
  else [c]

/-- A text in quotes. -/
def quote (s : String) : List Char := '"' :: s.toList.flatMap escapeChar ++ ['"']

mutual

/-- The characters of a document. -/
def chars : Json → List Char
  | .null => "null".toList
  | .bool b => (if b then "true" else "false").toList
  | .number x => x.render
  | .text s => quote s
  | .array items => '[' :: itemsChars items
  | .object members => '\x7b' :: membersChars members
  | .unreadable => "null".toList

/-- The items of an array and what closes it. -/
def itemsChars : List Json → List Char
  | [] => [']']
  | j :: js => chars j ++ moreItemsChars js

/-- The items behind the first. -/
def moreItemsChars : List Json → List Char
  | [] => [']']
  | j :: js => ',' :: chars j ++ moreItemsChars js

/-- The members of an object and what closes it. -/
def membersChars : List (String × Json) → List Char
  | [] => ['\x7d']
  | (k, j) :: ms => quote k ++ ':' :: chars j ++ moreMembersChars ms

/-- The members behind the first. -/
def moreMembersChars : List (String × Json) → List Char
  | [] => ['\x7d']
  | (k, j) :: ms => ',' :: quote k ++ ':' :: chars j ++ moreMembersChars ms

end

def render (j : Json) : String := String.ofList j.chars

/-- A new line, indented. -/
def newLine (level : Nat) : List Char := '\n' :: List.replicate (2 * level) ' '

mutual

/-- The characters of a document whose items and members stand on lines of their own. -/
def prettyChars (level : Nat) : Json → List Char
  | .array items => '[' :: prettyItems level items
  | .object members => '\x7b' :: prettyMembers level members
  | j => chars j

def prettyItems (level : Nat) : List Json → List Char
  | [] => [']']
  | j :: js => newLine (level + 1) ++ prettyChars (level + 1) j ++ prettyMoreItems level js

def prettyMoreItems (level : Nat) : List Json → List Char
  | [] => newLine level ++ [']']
  | j :: js => ',' :: newLine (level + 1) ++ prettyChars (level + 1) j ++ prettyMoreItems level js

def prettyMembers (level : Nat) : List (String × Json) → List Char
  | [] => ['\x7d']
  | (k, j) :: ms =>
    newLine (level + 1) ++ quote k ++ ':' :: ' ' :: prettyChars (level + 1) j ++ prettyMoreMembers level ms

def prettyMoreMembers (level : Nat) : List (String × Json) → List Char
  | [] => newLine level ++ ['\x7d']
  | (k, j) :: ms =>
    ',' :: newLine (level + 1) ++ quote k ++ ':' :: ' ' :: prettyChars (level + 1) j ++
      prettyMoreMembers level ms

end

def renderPretty (j : Json) : String := String.ofList (j.prettyChars 0)

end LiveSettings.Json
