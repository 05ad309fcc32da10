/-!
# Binary floating point numbers

A number of a binary format is written as its sign and the rank of its magnitude among the finite
magnitudes of the format, in increasing order. Ranks are dense, so the next larger magnitude has the next
rank, also across powers of two.

Powers are written as `Nat.pow`, since what `^` stands for depends on what is imported.

Results: `Same` is an equivalence (`Same.refl`, `Same.symm`, `Same.trans`), and `equal` is `Same` but for the
number that equals nothing (`equal_iff_same`).
-/

namespace LiveSettings

/-- A binary format: how many bits a significand has, and how many an exponent. -/
structure BinaryFormat where
  precision : Nat
  exponentBits : Nat
  deriving DecidableEq, Repr, Inhabited

namespace BinaryFormat

def single : BinaryFormat := ⟨24, 8⟩

def double : BinaryFormat := ⟨53, 11⟩

variable (f : BinaryFormat)

/-- The least significand of a magnitude that uses the whole precision. -/
def half : Nat := Nat.pow 2 (f.precision - 1)

/-- The exponent, negated, of the power of two that is the least positive magnitude. -/
def depth : Nat := Nat.pow 2 (f.exponentBits - 1) + f.precision - 3

/-- How many finite magnitudes there are. -/
def ranks : Nat := (Nat.pow 2 f.exponentBits - 1) * f.half

/-- The significand of the magnitude of a rank, and how often it is to be doubled in units of the least
positive magnitude. -/
def parts (rank : Nat) : Nat × Nat :=
  if rank < f.half then (rank, 0) else (f.half + rank % f.half, rank / f.half - 1)

/-- The rank of the magnitude nearest to a quotient, of two equally near ones the one with the even
significand. It may lie beyond all ranks. -/
def nearestRank (num den : Nat) : Nat :=
  let n := num * Nat.pow 2 f.depth
  let whole := n / den
  let e := if whole < 2 * f.half then 0 else whole.log2 - (f.precision - 1)
  let unit := den * Nat.pow 2 e
  let m := n / unit
  let rest := n % unit
  let up := unit < 2 * rest || (unit == 2 * rest && m % 2 == 1)
  e * f.half + m + (if up then 1 else 0)

end BinaryFormat

/-- A number of a binary format. -/
inductive Binary (f : BinaryFormat) where
  | nan
  | infinite (negative : Bool)
  | finite (negative : Bool) (rank : Fin f.ranks)
  deriving DecidableEq, Repr

abbrev Binary32 := Binary .single

abbrev Binary64 := Binary .double

namespace Binary

variable {f : BinaryFormat}

/-- The number nearest to a quotient; a quotient beyond the largest magnitude gives an infinite one. -/
def nearest (f : BinaryFormat) (negative : Bool) (num den : Nat) : Binary f :=
  let rank := f.nearestRank num den
  if h : rank < f.ranks then .finite negative ⟨rank, h⟩ else .infinite negative

def zero (f : BinaryFormat) : Binary f := nearest f false 0 1

instance : Inhabited (Binary f) := ⟨.nan⟩

def ofInt (f : BinaryFormat) (n : Int) : Binary f := nearest f (n < 0) n.natAbs 1

def isFinite : Binary f → Bool
  | .finite .. => true
  | _ => false

def negate : Binary f → Binary f
  | .nan => .nan
  | .infinite s => .infinite !s
  | .finite s r => .finite (!s) r

/-- The magnitude of a rank as a quotient. -/
def ratio (f : BinaryFormat) (rank : Nat) : Nat × Nat :=
  let (m, e) := f.parts rank
  if f.depth ≤ e then (m * Nat.pow 2 (e - f.depth), 1) else (m, Nat.pow 2 (f.depth - e))

/-- The number of another format that is nearest. -/
def convert (g : BinaryFormat) : Binary f → Binary g
  | .nan => .nan
  | .infinite s => .infinite s
  | .finite s r =>
    let (n, d) := ratio f r
    nearest g s n d

/-- A finite number times a power of ten, which is itself taken as the nearest number. -/
def timesPowerOfTen (x : Binary f) (k : Nat) : Binary f :=
  match x, nearest f false (Nat.pow 10 k) 1 with
  | .finite s r, .finite _ p =>
    let (n, d) := ratio f r
    let (n', d') := ratio f p
    nearest f s (n * n') (d * d')
  | x, _ => x

/-- A finite number divided by a power of ten, which is itself taken as the nearest number. -/
def overPowerOfTen (x : Binary f) (k : Nat) : Binary f :=
  match x, nearest f false (Nat.pow 10 k) 1 with
  | .finite s r, .finite _ p =>
    let (n, d) := ratio f r
    let (n', d') := ratio f p
    nearest f s (n * d') (d * n')
  | x, _ => x

/-- Whether two numbers are equal. Both zeros are equal; `nan` equals nothing. -/
def equal : Binary f → Binary f → Bool
  | .infinite s, .infinite t => s == t
  | .finite s r, .finite t q => r == q && (s == t || r.val == 0)
  | _, _ => false

/-- Equal, or both no number at all. -/
def same (x y : Binary f) : Bool := x.equal y || (x == .nan && y == .nan)

/-- The proposition that `same` decides. -/
abbrev Same (x y : Binary f) : Prop := x.same y = true

namespace Same

theorem refl (x : Binary f) : Same x x := by
  cases x <;> simp [Same, same, equal]

theorem symm {x y : Binary f} (h : Same x y) : Same y x := by
  cases x <;> cases y <;> grind [same, equal]

theorem trans {x y z : Binary f} (h : Same x y) (k : Same y z) : Same x z := by
  cases x <;> cases y <;> cases z <;> grind [same, equal]

end Same

theorem equal_iff_same {x y : Binary f} : x.equal y = true ↔ Same x y ∧ ¬(x = .nan ∧ y = .nan) := by
  cases x <;> cases y <;> simp [Same, same, equal]

end Binary

end LiveSettings
