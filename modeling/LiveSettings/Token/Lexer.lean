import LiveSettings.Token
import LiveSettings.Text.CodePoint
import LiveSettings.Text.Escape
import LiveSettings.Token.Literal

/-!
# Reading tokens

Blanks and comments stand between tokens; a documentation comment is read as an attribute. `ofText?` reads
a whole text and fails on an unknown character, an unfinished literal or a bracket without its partner.

`ofChars?` reads a list of characters, `ofText?` a text, `ofFile?` a file with its first-line
command and byte order mark.
-/

namespace LiveSettings.Token

open LiveSettings.Text LiveSettings.Literal

/-! ## Blanks and comments -/

/-- Blank for the reader: white space, or a mark of writing direction. -/
def isGap (c : Char) : Bool := isBlank c || c == '\u200e' || c == '\u200f'

/-- The characters after a comment that may hold comments, read inside `depth` of them. -/
def blockEnd : Nat → List Char → Option (List Char)
  | _, [] => none
  | depth, '/' :: '*' :: cs => blockEnd (depth + 1) cs
  | 0, '*' :: '/' :: cs => some cs
  | depth + 1, '*' :: '/' :: cs => blockEnd depth cs
  | depth, _ :: cs => blockEnd depth cs

/-- A line without its end, and the characters from its end on. -/
def line : List Char → List Char × List Char
  | [] => ([], [])
  | '\n' :: cs => ([], '\n' :: cs)
  | '\r' :: '\n' :: cs => ([], '\n' :: cs)
  | c :: cs => let (l, rest) := line cs; (c :: l, rest)

/-- The characters after one blank or plain comment. -/
def gapRest? : List Char → Option (List Char)
  | '/' :: '/' :: '/' :: '/' :: cs => some (line cs).2
  | '/' :: '/' :: '/' :: _ => none
  | '/' :: '/' :: '!' :: _ => none
  | '/' :: '/' :: cs => some (line cs).2
  | '/' :: '*' :: '*' :: '/' :: cs => some cs
  | '/' :: '*' :: '*' :: '*' :: cs => blockEnd 0 ('*' :: '*' :: cs)
  | '/' :: '*' :: '*' :: _ => none
  | '/' :: '*' :: '!' :: _ => none
  | '/' :: '*' :: cs => blockEnd 0 cs
  | c :: cs => if isGap c then some cs else none
  | [] => none

/-- Skips blanks and comments; every round takes a character. -/
def skipGapsLoop : Nat → List Char → List Char
  | 0, cs => cs
  | fuel + 1, cs =>
    match gapRest? cs with
    | some rest => skipGapsLoop fuel rest
    | none => cs

def skipGaps (cs : List Char) : List Char := skipGapsLoop cs.length cs

/-- Whether every carriage return stands before a line feed. -/
def pairedReturns : List Char → Bool
  | [] => true
  | '\r' :: '\n' :: cs => pairedReturns cs
  | '\r' :: _ => false
  | _ :: cs => pairedReturns cs

/-- The text of a documentation comment, and whether it documents what encloses it. -/
def docText? : List Char → Option (List Char × Bool × List Char)
  | '/' :: '/' :: '!' :: cs => let (l, rest) := line cs; some (l, true, rest)
  | '/' :: '*' :: '!' :: cs => (blockEnd 0 cs).map fun rest => (content cs rest, true, rest)
  | '/' :: '/' :: '/' :: '/' :: _ => none
  | '/' :: '/' :: '/' :: cs => let (l, rest) := line cs; some (l, false, rest)
  | '/' :: '*' :: '*' :: '*' :: _ => none
  | '/' :: '*' :: '*' :: cs => (blockEnd 0 cs).map fun rest => (content cs rest, false, rest)
  | _ => none
where
  /-- The characters before `rest`, without the two that end the comment. -/
  content (cs rest : List Char) : List Char := cs.take (cs.length - rest.length - 2)

/-- A documentation comment as the tokens of an attribute. -/
def docComment? (cs : List Char) : Option (List Token × List Char) :=
  match docText? cs with
  | some (doc, inner, rest) =>
    if pairedReturns doc then
      some (.mark '#' false :: (if inner then [.mark '!' false] else []) ++
        group .bracket [.ident "doc", .mark '=' false, .literal (Escape.literal (String.ofList doc))], rest)
    else none
  | none => none

/-! ## Single tokens -/

/-- The characters that are marks. -/
def markChars : List Char := "~!@#$%^&*-=+|;:,<.>/?'".toList

/-- Whether a mark starts here; a comment does not. -/
def startsMark : List Char → Bool
  | '/' :: '/' :: _ => false
  | '/' :: '*' :: _ => false
  | c :: _ => markChars.contains c
  | [] => false

/-- Words that may not be written raw. -/
def neverRaw : List String := ["_", "super", "self", "Self", "crate"]

/-- The identifier that starts here, with its `r#` if it is raw. -/
def identifier? (cs : List Char) : Option (String × List Char) :=
  match cs with
  | 'r' :: '#' :: rest => do
    let (word, rest) ← word? rest
    if neverRaw.contains word then none else some ("r#" ++ word, rest)
  | cs => word? cs
where
  word? (cs : List Char) : Option (String × List Char) :=
    (wordRest? cs).map fun rest => (String.ofList (cs.take (cs.length - rest.length)), rest)

/-- Starts of quoted literals. Where one of them stands and no literal could be read, there is no
identifier either. -/
def quotedStarts : List (List Char) :=
  ["r\"", "r#\"", "r##", "b\"", "b'", "br\"", "br#", "c\"", "cr\"", "cr#"].map String.toList

/-- The mark that starts here. A single quote is a mark only before a name that no second quote ends. -/
def mark? : List Char → Option (Token × List Char)
  | '\'' :: cs =>
    match identifier? cs with
    | none => none
    | some (name, rest) =>
      let spoiled := match rest with
        | '\'' :: _ => true
        | '#' :: _ => !name.startsWith "r#"
        | _ => false
      if spoiled then none else some (.mark '\'' true, cs)
  | c :: cs => if startsMark (c :: cs) then some (.mark c (startsMark cs), cs) else none
  | [] => none

/-- Stands for a literal that could not be written. -/
def errorLiteral : String := "(/*ERROR*/)"

/-- The token that starts here, brackets apart. -/
def leaf? (cs : List Char) : Option (Token × List Char) :=
  match literalRest? cs with
  | some rest => some (.literal (String.ofList (cs.take (cs.length - rest.length))), rest)
  | none =>
    match mark? cs with
    | some r => some r
    | none =>
      if errorLiteral.toList.isPrefixOf cs then
        some (.literal errorLiteral, cs.drop errorLiteral.length)
      else if quotedStarts.any (·.isPrefixOf cs) then none
      else (identifier? cs).map fun (name, rest) => (.ident name, rest)

def openingOf? : Char → Option Delimiter
  | '(' => some .paren
  | '[' => some .bracket
  | '\x7b' => some .brace
  | _ => none

def closingOf? : Char → Option Delimiter
  | ')' => some .paren
  | ']' => some .bracket
  | '\x7d' => some .brace
  | _ => none

/-! ## Whole texts -/

/-- The token that starts here, brackets apart, and what `next` reads behind it. -/
def leafThen (next : List Char → Option (List Token)) (cs : List Char) : Option (List Token) :=
  match leaf? cs with
  | some (t, rest) => (next rest).map (t :: ·)
  | none => none

/-- Reads tokens inside the groups of `stack`, innermost first. Every round takes a character. -/
def lexLoop : Nat → List Delimiter → List Char → Option (List Token)
  | 0, _, _ => none
  | fuel + 1, stack, cs =>
    let cs := skipGaps cs
    match docComment? cs with
    | some (ts, rest) => (lexLoop fuel stack rest).map (ts ++ ·)
    | none =>
      match cs with
      | [] => if stack.isEmpty then some [] else none
      | c :: rest =>
        match openingOf? c, closingOf? c with
        | some d, _ =>
          if errorLiteral.toList.isPrefixOf cs then leafThen (lexLoop fuel stack) cs
          else (lexLoop fuel (d :: stack) rest).map (.opening d :: ·)
        | _, some d =>
          match stack with
          | e :: stack =>
            if d = e then (lexLoop fuel stack rest).map (.closing d :: ·) else none
          | [] => none
        | none, none => leafThen (lexLoop fuel stack) cs

/-- The tokens of a list of characters. -/
def ofChars? (cs : List Char) : Option (List Token) := lexLoop (cs.length + 1) [] cs

/-- The characters without a leading byte order mark. -/
def dropByteOrderMark : List Char → List Char
  | '\ufeff' :: cs => cs
  | cs => cs

/-- The tokens of a text. -/
def ofText? (s : String) : Option (List Token) := ofChars? (dropByteOrderMark s.toList)

/-- Drops a first line that starts with `#!`, unless an inner attribute starts there. -/
def dropCommandLine : List Char → List Char
  | '#' :: '!' :: cs =>
    match skipGaps cs with
    | '[' :: _ => '#' :: '!' :: cs
    | _ => cs.dropWhile (· ≠ '\n')
  | cs => cs

/-- The tokens of a file: one byte order mark may stand before its command line and one after it. -/
def ofFile? (s : String) : Option (List Token) :=
  ofChars? (dropByteOrderMark (dropCommandLine (dropByteOrderMark s.toList)))

end LiveSettings.Token
