import LiveSettings.Binary

/-!
# Decimal text of binary numbers

`Binary.text` writes the shortest digits that read back as the number, of two equally short ones the nearer,
in a layout that says when an exponent is written. `Binary.ofText?` reads digits to the nearest number.
-/

namespace LiveSettings

/-- How the digits of a number are laid out. -/
structure DecimalLayout where
  /-- The exponents of the first digit that are written without an exponent, all if absent. -/
  positional : Option (Int × Int)
  /-- What follows a number without a fraction. -/
  wholeSuffix : String
  deriving DecidableEq, Repr, Inhabited

namespace DecimalLayout

/-- Positional at any size, a whole number without a point. -/
def plain : DecimalLayout := ⟨none, ""⟩

end DecimalLayout

namespace Binary

variable {f : BinaryFormat}

/-- How many decimal digits a positive number has. -/
def digitCount (n : Nat) : Nat := (Nat.toDigits 10 n).length

/-- The exponent of the first decimal digit of a positive quotient. -/
def leadingExponent (num den : Nat) : Int :=
  let e : Int := (digitCount num : Int) - (digitCount den : Int)
  let reached := if 0 ≤ e then den * Nat.pow 10 e.toNat ≤ num else den ≤ num * Nat.pow 10 (-e).toNat
  if reached then e else e - 1

/-- The interval of quotients that are read as the magnitude, over one denominator: its ends, the magnitude
itself, the denominator, and whether the ends belong to it. -/
structure Rounding where
  low : Nat
  value : Nat
  high : Nat
  den : Nat
  closed : Bool
  deriving DecidableEq, Repr

/-- The interval of a positive magnitude. Below a power of two the next magnitude is half as far. -/
def rounding (f : BinaryFormat) (rank : Nat) : Rounding :=
  let (m, e) := f.parts rank
  let (scale, den) := if f.depth ≤ e then (Nat.pow 2 (e - f.depth), 4) else (1, 4 * Nat.pow 2 (f.depth - e))
  let below := if m == f.half && 0 < e then 1 else 2
  ⟨(4 * m - below) * scale, 4 * m * scale, (4 * m + 2) * scale, den, m % 2 == 0⟩

/-- Whether a quotient lies in the interval. -/
def Rounding.contains (r : Rounding) (num den : Nat) : Bool :=
  if r.closed then r.low * den ≤ num * r.den && num * r.den ≤ r.high * den
  else r.low * den < num * r.den && num * r.den < r.high * den

/-- The neighbour of the magnitude on the grid of multiples of a power of ten that lies in the interval, the
nearer one if both do, the even one if they are equally near. -/
def Rounding.onGrid? (r : Rounding) (grid : Int) : Option Nat :=
  let up := Nat.pow 10 grid.toNat
  let down := Nat.pow 10 (-grid).toNat
  let unit := r.den * up
  let below := r.value * down / unit
  let rest := r.value * down % unit
  let hit (n : Nat) := r.contains (n * up) down
  if rest == 0 then some below
  else
    match hit below, hit (below + 1) with
    | true, true =>
      some (if 2 * rest < unit || (2 * rest == unit && below % 2 == 0) then below else below + 1)
    | true, false => some below
    | false, true => some (below + 1)
    | false, false => none

/-- The coarsest hit among the grids from a given one on, as a whole number of units and the exponent of the
unit. -/
def Rounding.shortest (r : Rounding) (leading : Int) : (digits : Nat) → (fuel : Nat) → Nat × Int
  | n, 0 => (r.value / r.den, leading - n)
  | n, fuel + 1 =>
    match r.onGrid? (leading - n) with
    | some units => (units, leading - n)
    | none => r.shortest leading (n + 1) fuel

/-- The shortest digits of a positive magnitude and the exponent of the last of them. -/
def shortest (f : BinaryFormat) (rank : Nat) : Nat × Int :=
  let r := rounding f rank
  r.shortest (leadingExponent r.value r.den) 0 (f.precision + 2)

/-- The digits without the zeros at their end. -/
def trimZeros (cs : List Char) : List Char := (cs.reverse.dropWhile (· == '0')).reverse

/-- Lays out digits: the point stands behind the digit with exponent zero. -/
def layOut (l : DecimalLayout) (digits : List Char) (leading : Int) : List Char :=
  let positional := l.positional.all fun (lowest, highest) => lowest ≤ leading && leading ≤ highest
  if positional then
    if leading < 0 then
      "0.".toList ++ List.replicate (-leading - 1).toNat '0' ++ digits
    else
      let whole := leading.toNat + 1
      if digits.length ≤ whole then
        digits ++ List.replicate (whole - digits.length) '0' ++ l.wholeSuffix.toList
      else digits.take whole ++ '.' :: digits.drop whole
  else
    let mantissa :=
      match digits with
      | [] => []
      | [d] => [d]
      | d :: ds => d :: '.' :: ds
    let mark := if leading < 0 then ['e', '-'] else ['e', '+']
    mantissa ++ mark ++ Nat.toDigits 10 leading.natAbs

/-- The text of a number in a layout. -/
def text (l : DecimalLayout) : Binary f → String
  | .nan => "NaN"
  | .infinite s => if s then "-inf" else "inf"
  | .finite s r =>
    let body :=
      if r.val == 0 then "0".toList ++ l.wholeSuffix.toList
      else
        let (units, grid) := shortest f r
        let all := Nat.toDigits 10 units
        layOut l (trimZeros all) (grid + all.length - 1)
    String.ofList (if s then '-' :: body else body)

/-- The text of a number for people. -/
def display (x : Binary f) : String := x.text .plain

/-! ## Reading -/

/-- The number nearest to digits with an exponent. An exponent far beyond all magnitudes decides alone. -/
def ofDecimal (f : BinaryFormat) (negative : Bool) (digits : Nat) (exponent : Int) : Binary f :=
  if digits == 0 then nearest f negative 0 1
  else
    let leading := exponent + digitCount digits
    if leading < -1100 then nearest f negative 0 1
    else if 1100 < leading then .infinite negative
    else nearest f negative (digits * Nat.pow 10 exponent.toNat) (Nat.pow 10 (-exponent).toNat)

/-- The value of decimal digits. -/
def digitsValue (cs : List Char) : Nat := cs.foldl (fun n c => n * 10 + (c.toNat - '0'.toNat)) 0

/-- An exponent: nothing, or a mark, an optional sign and digits. -/
def exponent? : List Char → Option Int
  | [] => some 0
  | c :: cs =>
    if c == 'e' || c == 'E' then
      let (negative, ds) :=
        match cs with
        | '-' :: r => (true, r)
        | '+' :: r => (false, r)
        | r => (false, r)
      if ds.isEmpty || !ds.all Char.isDigit then none
      else some (if negative then -(digitsValue ds : Int) else digitsValue ds)
    else none

/-- A number without its sign: a name of a value that is no finite number, or digits with an optional point
and exponent. One side of the point may be empty. -/
def ofUnsigned? (f : BinaryFormat) (negative : Bool) (cs : List Char) : Option (Binary f) :=
  let name := String.ofList (cs.map Char.toLower)
  if name == "nan" then some .nan
  else if name == "inf" || name == "infinity" then some (.infinite negative)
  else
    let whole := cs.takeWhile Char.isDigit
    let (fraction, rest) :=
      match cs.dropWhile Char.isDigit with
      | '.' :: r => (r.takeWhile Char.isDigit, r.dropWhile Char.isDigit)
      | r => ([], r)
    if whole.isEmpty && fraction.isEmpty then none
    else
      (exponent? rest).map fun e =>
        ofDecimal f negative (digitsValue (whole ++ fraction)) (e - fraction.length)

/-- Reads a number with an optional sign. -/
def ofText? (f : BinaryFormat) (s : String) : Option (Binary f) :=
  match s.toList with
  | '-' :: cs => ofUnsigned? f true cs
  | '+' :: cs => ofUnsigned? f false cs
  | cs => ofUnsigned? f false cs

end Binary

end LiveSettings
