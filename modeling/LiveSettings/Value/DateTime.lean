import LiveSettings.Text.CodePoint

/-!
# Dates and times with an offset

A local date and time of the proleptic Gregorian calendar with its offset from universal time. A leap second
is kept as the second before it with a fraction of one or more. Two values are equal if they name the same
instant.

Texts follow RFC 3339. What is read may be looser: numbers without leading zeros, blanks around the marks,
any sign in front of the year.

Results: `same_iff_instant` (the offset does not count).
-/

namespace LiveSettings

/-- A local date and time, and how far it is ahead of universal time. -/
structure DateTime where
  year : Int
  month : Nat
  day : Nat
  secondOfDay : Nat
  nanosecond : Nat
  offsetMinutes : Int
  deriving DecidableEq, Repr, Inhabited

namespace DateTime

open LiveSettings.Text

/-! ## The calendar -/

def isLeapYear (year : Int) : Bool := (year % 4 == 0 && year % 100 != 0) || year % 400 == 0

def daysInMonth (year : Int) (month : Nat) : Nat :=
  if month == 2 then (if isLeapYear year then 29 else 28)
  else if month == 4 || month == 6 || month == 9 || month == 11 then 30
  else 31

def secondsPerDay : Nat := 86400

def nanosPerSecond : Nat := 1000000000

/-- The days from the first of January of year 0 to the first of January of a year. -/
def daysBeforeYear (year : Int) : Int := 365 * year + (year + 3) / 4 - (year + 99) / 100 + (year + 399) / 400

/-- The days of a year before a month. -/
def daysBeforeMonth (year : Int) : Nat → Nat
  | 0 => 0
  | month + 1 => if month == 0 then 0 else daysBeforeMonth year month + daysInMonth year month

/-- The days from the first of January of year 0. -/
def dayNumber (year : Int) (month day : Nat) : Int :=
  daysBeforeYear year + daysBeforeMonth year month + day - 1

/-- The seconds of universal time from the first of January of year 0. -/
def instant (t : DateTime) : Int :=
  dayNumber t.year t.month t.day * secondsPerDay + t.secondOfDay - t.offsetMinutes * 60

/-- Whether two values name the same instant. -/
def same (a b : DateTime) : Bool := a.instant == b.instant && a.nanosecond == b.nanosecond

theorem same_iff_instant (a b : DateTime) :
    a.same b = true ↔ a.instant = b.instant ∧ a.nanosecond = b.nanosecond := by
  simp [same]

def firstYear : Int := -262143

def lastYear : Int := 262142

/-- Whether the local date and time exists and the instant is in range. -/
def IsValid (t : DateTime) : Prop :=
  firstYear ≤ t.year ∧ t.year ≤ lastYear ∧ 1 ≤ t.month ∧ t.month ≤ 12 ∧ 1 ≤ t.day ∧
    t.day ≤ daysInMonth t.year t.month ∧ t.secondOfDay < secondsPerDay ∧
    t.nanosecond < 2 * nanosPerSecond ∧ -1440 < t.offsetMinutes ∧ t.offsetMinutes < 1440 ∧
    dayNumber firstYear 1 1 * secondsPerDay ≤ t.instant ∧
    t.instant < dayNumber (lastYear + 1) 1 1 * secondsPerDay

instance (t : DateTime) : Decidable t.IsValid := by unfold IsValid; infer_instance

/-! ## Writing -/

/-- A number with zeros in front up to a width. -/
def padded (width n : Nat) : List Char :=
  let ds := Nat.toDigits 10 n
  List.replicate (width - ds.length) '0' ++ ds

/-- A year of four digits, or with a sign and at least four digits. -/
def yearText (year : Int) : List Char :=
  if 0 ≤ year && year ≤ 9999 then padded 4 year.toNat
  else (if year < 0 then '-' else '+') :: padded 4 year.natAbs

/-- A fraction of a second in groups of three digits, nothing if it is zero. -/
def fractionText (nanos : Nat) : List Char :=
  if nanos == 0 then []
  else if nanos % 1000000 == 0 then '.' :: padded 3 (nanos / 1000000)
  else if nanos % 1000 == 0 then '.' :: padded 6 (nanos / 1000)
  else '.' :: padded 9 nanos

def offsetText (minutes : Int) : List Char :=
  (if minutes < 0 then '-' else '+') :: padded 2 (minutes.natAbs / 60) ++ ':' :: padded 2 (minutes.natAbs % 60)

/-- The date and time without the offset. -/
def localText (t : DateTime) : List Char :=
  let leap := t.nanosecond / nanosPerSecond
  yearText t.year ++ '-' :: padded 2 t.month ++ '-' :: padded 2 t.day ++
    'T' :: padded 2 (t.secondOfDay / 3600) ++ ':' :: padded 2 (t.secondOfDay / 60 % 60) ++
    ':' :: padded 2 (t.secondOfDay % 60 + leap) ++ fractionText (t.nanosecond % nanosPerSecond)

/-- The text for people, always with digits for the offset. -/
def display (t : DateTime) : String := String.ofList (t.localText ++ offsetText t.offsetMinutes)

/-- The text for documents: an offset of zero is written as a letter. -/
def text (t : DateTime) : String :=
  String.ofList (t.localText ++ if t.offsetMinutes == 0 then ['Z'] else offsetText t.offsetMinutes)

/-! ## Reading -/

def skipBlanks (cs : List Char) : List Char := cs.dropWhile isBlank

def digitsValue (ds : List Char) : Nat := ds.foldl (fun n c => n * 10 + (c.toNat - '0'.toNat)) 0

/-- A number of at most some digits behind blanks. -/
def number? (width : Nat) (cs : List Char) : Option (Nat × List Char) :=
  let cs := skipBlanks cs
  let ds := (cs.take width).takeWhile Char.isDigit
  if ds.isEmpty then none else some (digitsValue ds, cs.drop ds.length)

/-- A year behind blanks: four digits at most, or any number of them behind a sign. -/
def year? (cs : List Char) : Option (Int × List Char) :=
  let signed (cs : List Char) : Option (Nat × List Char) :=
    let ds := cs.takeWhile Char.isDigit
    if ds.isEmpty then none else some (digitsValue ds, cs.drop ds.length)
  match skipBlanks cs with
  | '-' :: cs => (signed cs).map fun (n, rest) => (-(n : Int), rest)
  | '+' :: cs => (signed cs).map fun (n, rest) => ((n : Int), rest)
  | cs => (number? 4 cs).map fun (n, rest) => ((n : Int), rest)

/-- A mark behind blanks. -/
def mark? (c : Char) (cs : List Char) : Option (List Char) :=
  match skipBlanks cs with
  | d :: rest => if d == c then some rest else none
  | [] => none

/-- A fraction of a second in nanoseconds; digits behind the ninth do not count. -/
def fraction? : List Char → Option (Nat × List Char)
  | '.' :: cs =>
    let ds := cs.takeWhile Char.isDigit
    if ds.isEmpty then none
    else
      let counted := ds.take 9
      some (digitsValue counted * Nat.pow 10 (9 - counted.length), cs.drop ds.length)
  | cs => some (0, cs)

/-- The word for universal time, in any case. -/
def isUniversal (cs : List Char) : Bool := (cs.take 3).map Char.toUpper == ['U', 'T', 'C']

/-- Two digits. -/
def twoDigits? : List Char → Option (Nat × List Char)
  | a :: b :: rest => if a.isDigit && b.isDigit then some (digitsValue [a, b], rest) else none
  | _ => none

/-- An offset in minutes: a letter, a word, or a sign with hours and minutes, which colons or blanks may
separate. -/
def offset? (cs : List Char) : Option (Int × List Char) :=
  let cs := skipBlanks cs
  if isUniversal cs then some (0, cs.drop 3)
  else
    let hoursAndMinutes (negative : Bool) (cs : List Char) : Option (Int × List Char) := do
      let (hours, cs) ← twoDigits? cs
      let (minutes, cs) ← twoDigits? (cs.dropWhile fun c => c == ':' || isBlank c)
      if 60 ≤ minutes then none
      else
        let total : Int := hours * 60 + minutes
        some (if negative then -total else total, cs)
    match cs with
    | [] => none
    | c :: rest =>
      if c == 'Z' || c == 'z' then some (0, rest)
      else if c == '+' then hoursAndMinutes false rest
      else if c == '-' || c == '\u2212' then hoursAndMinutes true rest
      else none

/-- The mark between date and time. -/
def separator? : List Char → Option (List Char)
  | c :: rest => if c == 'T' || c == 't' || c == ' ' then some rest else none
  | [] => none

/-- Reads a date, a time and an offset. Second 60 is the leap second behind second 59. -/
def ofText? (s : String) : Option DateTime := do
  let (year, cs) ← year? s.toList
  let cs ← mark? '-' cs
  let (month, cs) ← number? 2 cs
  let cs ← mark? '-' cs
  let (day, cs) ← number? 2 cs
  let cs ← separator? cs
  let (hour, cs) ← number? 2 cs
  let cs ← mark? ':' cs
  let (minute, cs) ← number? 2 cs
  let cs ← mark? ':' cs
  let (second, cs) ← number? 2 cs
  let (nanos, cs) ← fraction? cs
  let (offset, cs) ← offset? cs
  if !(skipBlanks cs).isEmpty || 23 < hour || 59 < minute || 60 < second then none
  else
    let leap := second == 60
    let t : DateTime :=
      { year, month, day
        secondOfDay := hour * 3600 + minute * 60 + (if leap then 59 else second)
        nanosecond := nanos + (if leap then nanosPerSecond else 0)
        offsetMinutes := offset }
    if t.IsValid then some t else none

end DateTime

end LiveSettings
