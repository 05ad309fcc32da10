import LiveSettings.Text.Identifier

/-!
# Literals

Where a literal ends, and which text a string literal stands for. Every reader takes the characters from
the start of a literal and gives the characters after it, or `none` where no such literal starts.

`stringValue?` reads the text of a string literal; `literalRest?` tries all kinds of literals.
-/

namespace LiveSettings.Literal

open LiveSettings.Text

/-! ## Escapes -/

/-- The value of a hexadecimal digit. -/
def hexValue? (c : Char) : Option Nat :=
  if '0' ≤ c ∧ c ≤ '9' then some (c.toNat - '0'.toNat)
  else if 'a' ≤ c ∧ c ≤ 'f' then some (10 + (c.toNat - 'a'.toNat))
  else if 'A' ≤ c ∧ c ≤ 'F' then some (10 + (c.toNat - 'A'.toNat))
  else none

/-- The code point as a character, unless it is a surrogate or too large. -/
def charOf? (n : Nat) : Option Char :=
  if n.isValidChar then some (Char.ofNat n) else none

/-- What one kind of quoted literal allows. -/
structure Rules where
  /-- Which code points two hexadecimal digits may give. -/
  hex : Nat → Bool
  /-- Which characters an escape of a code point may give. -/
  codePoint : Char → Bool
  /-- Whether `\0` is an escape. -/
  nul : Bool
  /-- Which characters may stand for themselves. -/
  plain : Char → Bool

def textRules : Rules := ⟨(· < 128), fun _ => true, true, fun _ => true⟩

def byteRules : Rules := ⟨fun _ => true, fun _ => false, true, (·.toNat < 128)⟩

/-- A text that a NUL ends holds no NUL itself. -/
def terminatedRules : Rules := ⟨(· ≠ 0), (· ≠ '\x00'), false, (· ≠ '\x00')⟩

/-- Up to six hexadecimal digits and a closing brace; underscores may follow the first digit. -/
def codePointDigits (value count : Nat) : List Char → Option (Char × List Char)
  | [] => none
  | c :: cs =>
    if c = '\x7d' ∧ 0 < count then (charOf? value).map (·, cs)
    else if c = '_' ∧ 0 < count then codePointDigits value count cs
    else match hexValue? c with
      | some d => if count < 6 then codePointDigits (value * 16 + d) (count + 1) cs else none
      | none => none

/-- The character that an escape stands for, read from behind the backslash. -/
def escape? (r : Rules) : List Char → Option (Char × List Char)
  | 'n' :: cs => some ('\n', cs)
  | 'r' :: cs => some ('\r', cs)
  | 't' :: cs => some ('\t', cs)
  | '\\' :: cs => some ('\\', cs)
  | '\'' :: cs => some ('\'', cs)
  | '"' :: cs => some ('"', cs)
  | '0' :: cs => if r.nul then some ('\x00', cs) else none
  | 'x' :: a :: b :: cs => do
    let n := (← hexValue? a) * 16 + (← hexValue? b)
    if r.hex n then some (Char.ofNat n, cs) else none
  | 'u' :: '\x7b' :: cs => do
    let (c, rest) ← codePointDigits 0 0 cs
    if r.codePoint c then some (c, rest) else none
  | _ => none

/-- The characters after a line end that a backslash hides, with the blanks that follow it. A carriage
return has to stand before a line feed, and some character has to follow. -/
def afterHiddenBreak : List Char → Option (List Char)
  | [] => none
  | '\r' :: '\n' :: cs => afterHiddenBreak cs
  | '\r' :: _ => none
  | c :: cs => if c = ' ' ∨ c = '\t' ∨ c = '\n' then afterHiddenBreak cs else some (c :: cs)

/-! ## Quoted literals -/

/-- The value of a quoted text and the characters after its closing quote. Each round takes at least one
character, so that the length of the input is fuel enough. -/
def quotedLoop (r : Rules) : Nat → List Char → Option (List Char × List Char)
  | 0, _ => none
  | fuel + 1, cs =>
    match cs with
    | [] => none
    | '"' :: rest => some ([], rest)
    | '\r' :: '\n' :: rest => (quotedLoop r fuel rest).map fun p => ('\n' :: p.1, p.2)
    | '\r' :: _ => none
    | '\\' :: '\n' :: rest => afterHiddenBreak rest >>= quotedLoop r fuel
    | '\\' :: '\r' :: rest => afterHiddenBreak ('\r' :: rest) >>= quotedLoop r fuel
    | '\\' :: rest => do
      let (c, rest) ← escape? r rest
      (quotedLoop r fuel rest).map fun p => (c :: p.1, p.2)
    | c :: rest =>
      if r.plain c then (quotedLoop r fuel rest).map fun p => (c :: p.1, p.2) else none

/-- A quoted text, read from behind its opening quote. -/
def quoted? (r : Rules) (cs : List Char) : Option (List Char × List Char) :=
  quotedLoop r (cs.length + 1) cs

/-- The characters after `n` number signs. -/
def dropSigns : Nat → List Char → Option (List Char)
  | 0, cs => some cs
  | n + 1, '#' :: cs => dropSigns n cs
  | _ + 1, _ => none

/-- The content of a raw text up to a quote with as many number signs as stand before its opening quote. -/
def rawContent (r : Rules) (signs : Nat) : List Char → Option (List Char × List Char)
  | [] => none
  | '\r' :: '\n' :: cs => (rawContent r signs cs).map fun p => ('\r' :: '\n' :: p.1, p.2)
  | '\r' :: _ => none
  | c :: cs =>
    let closed := if c = '"' then dropSigns signs cs else none
    match closed with
    | some rest => some ([], rest)
    | none => if r.plain c then (rawContent r signs cs).map fun p => (c :: p.1, p.2) else none

/-- A raw text, read from behind its letters: at most 255 number signs, a quote and the content. -/
def raw? (r : Rules) (cs : List Char) : Option (List Char × List Char) :=
  let signs := (cs.takeWhile (· = '#')).length
  match cs.drop signs with
  | '"' :: rest => if signs ≤ 255 then rawContent r signs rest else none
  | _ => none

/-- The characters after a word; an identifier that is not raw. -/
def wordRest? : List Char → Option (List Char)
  | [] => none
  | c :: cs => if isIdentStart c then some (cs.dropWhile isIdentPart) else none

/-- A word may follow a literal without a gap, as its suffix. -/
def afterSuffix (cs : List Char) : List Char := (wordRest? cs).getD cs

/-- A text in double quotes, raw or not. -/
def text? : List Char → Option (List Char × List Char)
  | '"' :: cs => quoted? textRules cs
  | 'r' :: cs => raw? textRules cs
  | _ => none

/-- The text that a string literal stands for; `none` for any other literal. -/
def stringValue? (literal : String) : Option String :=
  (text? literal.toList).map fun p => String.ofList p.1

/-- Any literal in double quotes: a text, bytes or a terminated text. -/
def quotedRest? : List Char → Option (List Char)
  | 'b' :: '"' :: cs => (quoted? byteRules cs).map (·.2)
  | 'b' :: 'r' :: cs => (raw? byteRules cs).map (·.2)
  | 'c' :: '"' :: cs => (quoted? terminatedRules cs).map (·.2)
  | 'c' :: 'r' :: cs => (raw? terminatedRules cs).map (·.2)
  | cs => (text? cs).map (·.2)

/-- One character and a closing quote. -/
def oneCharRest? (r : Rules) (cs : List Char) : Option (List Char) := do
  let rest ← match cs with
    | '\\' :: cs => (escape? r cs).map (·.2)
    | c :: cs => if r.plain c then some cs else none
    | [] => none
  match rest with
  | '\'' :: rest => some rest
  | _ => none

/-- A character or a byte in single quotes. -/
def singleRest? : List Char → Option (List Char)
  | 'b' :: '\'' :: cs => oneCharRest? byteRules cs
  | '\'' :: cs => oneCharRest? textRules cs
  | _ => none

/-! ## Numbers -/

/-- No character of a word follows. -/
def wordBreak? (cs : List Char) : Option (List Char) :=
  if cs.head?.any isIdentPart then none else some cs

/-- The end of a number: its suffix, and no character of a word after it. -/
def numberEnd? (cs : List Char) : Option (List Char) := wordBreak? (afterSuffix cs)

def isDigitOrGap (c : Char) : Bool := isAsciiDigit c || c == '_'

/-- The digits of an exponent, read from behind its letter; a sign may stand before the first digit. A
second sign spoils it, as does an exponent without digits. -/
def exponentRest? (signed digits : Bool) : List Char → Option (List Char)
  | c :: cs =>
    if c = '+' ∨ c = '-' then
      if digits then some (c :: cs)
      else if signed then none
      else exponentRest? true digits cs
    else if isAsciiDigit c then exponentRest? signed true cs
    else if c = '_' then exponentRest? signed digits cs
    else if digits then some (c :: cs) else none
  | [] => if digits then some [] else none

/-- An exponent, if one starts here; `whole` holds the characters from its letter. -/
def withExponent? (whole : List Char) (optional : Bool) : Option (List Char) :=
  match whole with
  | c :: cs =>
    if c = 'e' ∨ c = 'E' then
      match exponentRest? false false cs with
      | some rest => some rest
      | none => if optional then some whole else none
    else if optional then some whole else none
  | [] => if optional then some [] else none

/-- A number with a point, an exponent or both. A point belongs to the number unless a second point or a
word follows it. -/
def floatRest? (cs : List Char) : Option (List Char) :=
  if cs.head?.any isAsciiDigit then
    match cs.dropWhile isDigitOrGap with
    | '.' :: rest =>
      if rest.head?.any fun c => c == '.' || isIdentStart c then none
      else withExponent? (rest.dropWhile isDigitOrGap) true >>= numberEnd?
    | rest => withExponent? rest false >>= numberEnd?
  else none

/-- The digits of a whole number in a base. A decimal digit that is too large for the base spoils the
number; a letter ends it. -/
def digitsRest? (base : Nat) (empty : Bool) : List Char → Option (List Char)
  | [] => if empty then none else some []
  | c :: cs =>
    if c = '_' then
      if empty && base == 10 then none else digitsRest? base empty cs
    else match hexValue? c with
      | some d =>
        if d < base then digitsRest? base false cs
        else if isAsciiDigit c then none
        else if empty then none else some (c :: cs)
      | none => if empty then none else some (c :: cs)

def intRest? (cs : List Char) : Option (List Char) :=
  (match cs with
    | '0' :: 'x' :: rest => digitsRest? 16 true rest
    | '0' :: 'o' :: rest => digitsRest? 8 true rest
    | '0' :: 'b' :: rest => digitsRest? 2 true rest
    | cs => digitsRest? 10 true cs) >>= numberEnd?

/-! ## All literals -/

/-- The characters after the literal that starts here. -/
def literalRest? (cs : List Char) : Option (List Char) :=
  ((quotedRest? cs).map afterSuffix
    <|> (singleRest? cs).map afterSuffix
    <|> floatRest? cs
    <|> intRest? cs)

end LiveSettings.Literal
