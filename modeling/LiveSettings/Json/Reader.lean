import LiveSettings.Json

/-!
# Reading JSON documents

`Json.ofText?` reads a whole text as one document. A number is an integer if it is spelled as one and fits 64
bits. Every other number is the double that its first digits, as many as fit 64 bits, give when they are
scaled by a power of ten, so the last bit may differ from the nearest double.
-/

namespace LiveSettings.Json

def isBlank (c : Char) : Bool := c == ' ' || c == '\n' || c == '\t' || c == '\r'

def skipBlanks (cs : List Char) : List Char := cs.dropWhile isBlank

/-! ## Numbers -/

/-- Appends digits to a significand as long as it fits 64 bits, and counts the digits left out. -/
def significand (n : Nat) : List Char → Nat × Nat
  | [] => (n, 0)
  | c :: cs =>
    let next := n * 10 + (c.toNat - '0'.toNat)
    if next < UInt64.size then significand next cs else (n, cs.length + 1)

/-- The largest power of ten by which a number is scaled in one step. -/
def scaleStep : Nat := 308

/-- Scales a double by a power of ten in steps; absent if the result is too large. -/
def scale? (x : Binary64) (exponent : Int) : Option Binary64 :=
  if exponent.natAbs ≤ scaleStep then
    if 0 ≤ exponent then
      let y := x.timesPowerOfTen exponent.toNat
      if y.isFinite then some y else none
    else some (x.overPowerOfTen exponent.natAbs)
  else if x.equal (Binary.zero .double) then some x
  else if 0 ≤ exponent then none
  else scale? (x.overPowerOfTen scaleStep) (exponent + scaleStep)
termination_by exponent.natAbs
decreasing_by simp only [scaleStep] at *; omega

/-- The spelling of a number: digits before the point, behind it, and an exponent. -/
structure NumberText where
  negative : Bool
  whole : List Char
  fraction : Option (List Char)
  exponent : Option Int
  deriving DecidableEq, Repr

namespace NumberText

/-- The double of a number that is no integer of 64 bits. -/
def double? (t : NumberText) : Option Binary64 :=
  let (n, leftOut) := significand 0 t.whole
  let digits := t.fraction.getD []
  let (n, leftOutBehind) := significand n digits
  let exponent : Int := leftOut - (digits.length - leftOutBehind) + t.exponent.getD 0
  (scale? (.ofInt .double n) exponent).map fun x => if t.negative then x.negate else x

/-- The number; absent if it is beyond all doubles. A negative zero is no integer. -/
def value? (t : NumberText) : Option Number :=
  let n := Binary.digitsValue t.whole
  let plain := t.fraction.isNone && t.exponent.isNone
  if plain && !t.negative && n < UInt64.size then some (.integer n)
  else if plain && t.negative && 0 < n && Int64.minValue.toInt ≤ -n then some (.integer (-n))
  else t.double?.map .double

end NumberText

/-- Digits, at least one, and what follows. -/
def digits? (cs : List Char) : Option (List Char × List Char) :=
  let ds := cs.takeWhile Char.isDigit
  if ds.isEmpty then none else some (ds, cs.dropWhile Char.isDigit)

/-- The digits before a point: no zero stands before another digit. -/
def whole? : List Char → Option (List Char × List Char)
  | '0' :: cs => if (cs.head?.all fun c => !c.isDigit) then some (['0'], cs) else none
  | cs => digits? cs

def fraction? : List Char → Option (Option (List Char) × List Char)
  | '.' :: cs => (digits? cs).map fun (ds, rest) => (some ds, rest)
  | cs => some (none, cs)

def exponent? : List Char → Option (Option Int × List Char)
  | [] => some (none, [])
  | c :: cs =>
    if c == 'e' || c == 'E' then
      let (negative, cs) :=
        match cs with
        | '+' :: r => (false, r)
        | '-' :: r => (true, r)
        | r => (false, r)
      (digits? cs).map fun (ds, rest) =>
        let e : Int := Binary.digitsValue ds
        (some (if negative then -e else e), rest)
    else some (none, c :: cs)

/-- A number without its sign. -/
def unsigned? (negative : Bool) (cs : List Char) : Option (NumberText × List Char) := do
  let (whole, cs) ← whole? cs
  let (fraction, cs) ← fraction? cs
  let (exponent, cs) ← exponent? cs
  some (⟨negative, whole, fraction, exponent⟩, cs)

def numberText? : List Char → Option (NumberText × List Char)
  | '-' :: cs => unsigned? true cs
  | cs => unsigned? false cs

/-! ## Texts -/

/-- A unit of a text as it is spelled: a character, or sixteen bits of one in hexadecimal. -/
inductive TextUnit where
  | char (c : Char)
  | code (n : Nat)
  deriving DecidableEq, Repr

def hexDigit? (c : Char) : Option Nat :=
  if '0' ≤ c && c ≤ '9' then some (c.toNat - '0'.toNat)
  else if 'a' ≤ c && c ≤ 'f' then some (c.toNat - 'a'.toNat + 10)
  else if 'A' ≤ c && c ≤ 'F' then some (c.toNat - 'A'.toNat + 10)
  else none

/-- What a letter behind a backslash stands for. -/
def unescape? (c : Char) : Option Char :=
  if c == '"' || c == '\\' || c == '/' then some c
  else if c == 'b' then some (Char.ofNat 8)
  else if c == 'f' then some (Char.ofNat 12)
  else if c == 'n' then some '\n'
  else if c == 'r' then some '\r'
  else if c == 't' then some '\t'
  else none

/-- The units up to the closing quote, and what follows it. -/
def units? : List Char → Option (List TextUnit × List Char)
  | [] => none
  | '"' :: rest => some ([], rest)
  | '\\' :: 'u' :: a :: b :: c :: d :: rest =>
    match hexDigit? a, hexDigit? b, hexDigit? c, hexDigit? d, units? rest with
    | some a, some b, some c, some d, some (us, rest) =>
      some (.code (((a * 16 + b) * 16 + c) * 16 + d) :: us, rest)
    | _, _, _, _, _ => none
  | '\\' :: c :: rest =>
    match unescape? c, units? rest with
    | some c, some (us, rest) => some (.char c :: us, rest)
    | _, _ => none
  | c :: rest =>
    if c == '\\' || c.toNat < 32 then none
    else (units? rest).map fun (us, rest) => (.char c :: us, rest)

/-- The characters of units. Two halves of a surrogate pair make one; a half alone makes none. -/
def unitsChars? : List TextUnit → Option (List Char)
  | [] => some []
  | .char c :: us => (unitsChars? us).map (c :: ·)
  | [.code n] => if 0xD800 ≤ n && n < 0xE000 then none else some [Char.ofNat n]
  | .code n :: .code m :: us =>
    if 0xD800 ≤ n && n < 0xDC00 then
      if 0xDC00 ≤ m && m < 0xE000 then
        (unitsChars? us).map (Char.ofNat (0x10000 + (n - 0xD800) * 0x400 + (m - 0xDC00)) :: ·)
      else none
    else if 0xDC00 ≤ n && n < 0xE000 then none
    else (unitsChars? (.code m :: us)).map (Char.ofNat n :: ·)
  | .code n :: us =>
    if 0xD800 ≤ n && n < 0xE000 then none else (unitsChars? us).map (Char.ofNat n :: ·)

/-! ## Documents -/

/-- The value of a word at the start, and what follows. -/
def word? (cs : List Char) : Option (Json × List Char) :=
  if "null".toList.isPrefixOf cs then some (.null, cs.drop 4)
  else if "true".toList.isPrefixOf cs then some (.bool true, cs.drop 4)
  else if "false".toList.isPrefixOf cs then some (.bool false, cs.drop 5)
  else none

/-- A text or number is unreadable if it stands for nothing. -/
def ofUnits (us : List TextUnit) : Json := ((unitsChars? us).map fun cs => .text (String.ofList cs)).getD .unreadable

def ofNumberText (t : NumberText) : Json := (t.value?.map .number).getD .unreadable

/-- An object with a name that stands for nothing is unreadable. -/
def ofMembers (members : List (Option (List Char) × Json)) : Json :=
  let named := members.mapM fun ((k, j) : Option (List Char) × Json) => k.map fun k => (String.ofList k, j)
  (named.map .object).getD .unreadable

mutual

/-- One value, read with fuel for its nested values, and what follows it. -/
def value (fuel : Nat) (cs : List Char) : Option (Json × List Char) :=
  match fuel with
  | 0 => none
  | fuel + 1 =>
    match skipBlanks cs with
    | [] => none
    | '"' :: cs => (units? cs).map fun (us, rest) => (ofUnits us, rest)
    | '[' :: cs =>
      match skipBlanks cs with
      | ']' :: rest => some (.array [], rest)
      | cs => (items fuel cs).map fun (js, rest) => (.array js, rest)
    | '\x7b' :: cs =>
      match skipBlanks cs with
      | '\x7d' :: rest => some (.object [], rest)
      | cs => (members fuel cs).map fun (ms, rest) => (ofMembers ms, rest)
    | c :: cs =>
      if c == '-' || c.isDigit then (numberText? (c :: cs)).map fun (t, rest) => (ofNumberText t, rest)
      else word? (c :: cs)

/-- The items up to the closing bracket. -/
def items (fuel : Nat) (cs : List Char) : Option (List Json × List Char) :=
  match fuel with
  | 0 => none
  | fuel + 1 =>
    match value fuel cs with
    | none => none
    | some (j, rest) =>
      match skipBlanks rest with
      | ',' :: rest => (items fuel rest).map fun (js, rest) => (j :: js, rest)
      | ']' :: rest => some ([j], rest)
      | _ => none

/-- The members up to the closing brace. -/
def members (fuel : Nat) (cs : List Char) : Option (List (Option (List Char) × Json) × List Char) :=
  match fuel with
  | 0 => none
  | fuel + 1 =>
    match skipBlanks cs with
    | '"' :: cs =>
      match units? cs with
      | none => none
      | some (us, rest) =>
        match skipBlanks rest with
        | ':' :: rest =>
          match value fuel rest with
          | none => none
          | some (j, rest) =>
            match skipBlanks rest with
            | ',' :: rest => (members fuel rest).map fun (ms, rest) => ((unitsChars? us, j) :: ms, rest)
            | '\x7d' :: rest => some ([(unitsChars? us, j)], rest)
            | _ => none
        | _ => none
    | _ => none

end

/-- Reads a text as one document. -/
def ofText? (s : String) : Option Json :=
  let cs := s.toList
  match value (2 * cs.length + 2) cs with
  | some (j, rest) => if (skipBlanks rest).isEmpty then some j else none
  | none => none

end LiveSettings.Json
