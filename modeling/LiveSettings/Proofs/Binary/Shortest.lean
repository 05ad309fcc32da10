import Mathlib.Algebra.Group.Nat.Defs
import LiveSettings.Binary.Decimal

/-!
# The shortest digits of a number

Among the grids of multiples of a power of ten there is one, no finer than the format's precision asks for, on
which a neighbour of the magnitude lies in its rounding interval.

Results:
* `pow_leadingExponent_le`: the power of ten of the leading exponent does not exceed the quotient.
* `isSome_onGrid?`: a grid no coarser than a quarter of the last place has a hit.
* `shortest_pos`: the shortest digits of a positive magnitude are those of a positive number.
-/

namespace LiveSettings.Binary

/-! ## Counting digits -/

theorem lt_pow_digitCount (n : Nat) : n < 10 ^ digitCount n :=
  (Nat.length_toDigits_le_iff (by decide) Nat.length_toDigits_pos).1 (Nat.le_refl _)

theorem digitCount_pos (n : Nat) : 0 < digitCount n := Nat.length_toDigits_pos

theorem pow_digitCount_le {n : Nat} (h : 0 < n) : 10 ^ (digitCount n - 1) ≤ n := by
  by_cases one : digitCount n = 1
  · rw [one]
    exact h
  · have pos := digitCount_pos n
    refine Nat.not_lt.1 fun lt => ?_
    have := (Nat.length_toDigits_le_iff (by decide) (show 0 < digitCount n - 1 by omega)).2 lt
    simp only [digitCount] at *
    omega

theorem pow_leadingExponent_le {num : Nat} (h : 0 < num) (den : Nat) :
    den * 10 ^ (leadingExponent num den).toNat ≤ num * 10 ^ (-leadingExponent num den).toNat := by
  have hn := pow_digitCount_le h
  have hd := Nat.le_of_lt (lt_pow_digitCount den)
  have hnpos := digitCount_pos num
  have hdpos := digitCount_pos den
  unfold leadingExponent
  generalize digitCount num = a at *
  generalize digitCount den = b at *
  -- with one digit less the power of ten is at most the quotient of the bounds
  have below : den * 10 ^ ((a : Int) - b - 1).toNat ≤ num * 10 ^ (-((a : Int) - b - 1)).toNat := by
    have split : b + ((a : Int) - b - 1).toNat = a - 1 + (-((a : Int) - b - 1)).toNat := by omega
    calc den * 10 ^ ((a : Int) - b - 1).toNat
        ≤ 10 ^ b * 10 ^ ((a : Int) - b - 1).toNat := Nat.mul_le_mul_right _ hd
      _ = 10 ^ (a - 1) * 10 ^ (-((a : Int) - b - 1)).toNat := by rw [← Nat.pow_add, ← Nat.pow_add, split]
      _ ≤ num * 10 ^ (-((a : Int) - b - 1)).toNat := Nat.mul_le_mul_right _ hn
  by_cases e : 0 ≤ (a : Int) - b
  · simp only [e, if_true]
    split
    · rename_i reached
      have zero : (-((a : Int) - b)).toNat = 0 := by omega
      rw [zero, Nat.pow_zero, Nat.mul_one]
      exact reached
    · exact below
  · simp only [e, if_false]
    split
    · rename_i reached
      have zero : ((a : Int) - b).toNat = 0 := by omega
      rw [zero, Nat.pow_zero, Nat.mul_one]
      exact reached
    · exact below

/-! ## Rounding intervals -/

section
variable (f : BinaryFormat) {rank : Nat}

theorem half_pos : 0 < f.half := Nat.pow_pos (by decide)

theorem significand_bounds (h : 0 < rank) : 0 < (f.parts rank).1 ∧ (f.parts rank).1 < 2 * f.half := by
  have hp := half_pos f
  unfold BinaryFormat.parts
  split
  · simp only
    omega
  · have := Nat.mod_lt rank hp
    simp only
    omega

/-- The interval of a magnitude in units of a quarter of its last place: `scale` is the unit over `den`, and
the magnitude is at least one such unit above the lower end. -/
theorem rounding_bounds (h : 0 < rank) :
    ∃ scale, 0 < scale ∧ 0 < (rounding f rank).den ∧ 0 < (rounding f rank).low ∧
      (rounding f rank).low + scale ≤ (rounding f rank).value ∧
      (rounding f rank).value < (rounding f rank).high ∧
      (rounding f rank).value < 8 * f.half * scale := by
  obtain ⟨pos, lt⟩ := significand_bounds f h
  unfold rounding
  generalize f.parts rank = p at *
  obtain ⟨m, e⟩ := p
  simp only at pos lt ⊢
  obtain ⟨scale, den, hs, hd, eq⟩ : ∃ scale den, 0 < scale ∧ 0 < den ∧
      (if f.depth ≤ e then (Nat.pow 2 (e - f.depth), 4) else (1, 4 * Nat.pow 2 (f.depth - e))) = (scale, den) := by
    split
    · exact ⟨_, _, Nat.pow_pos (by decide), by decide, rfl⟩
    · exact ⟨_, _, by decide, Nat.mul_pos (by decide) (Nat.pow_pos (by decide)), rfl⟩
  rw [eq]
  generalize hb : (if (m == f.half && decide (0 < e)) = true then 1 else 2) = below
  have hb' : 1 ≤ below ∧ below ≤ 2 := by
    subst hb
    split <;> omega
  refine ⟨scale, hs, hd, Nat.mul_pos (by omega) hs, ?_, ?_, ?_⟩
  · calc (4 * m - below) * scale + scale = (4 * m - below + 1) * scale := by rw [Nat.add_mul, Nat.one_mul]
      _ ≤ 4 * m * scale := Nat.mul_le_mul_right _ (by omega)
  · exact Nat.mul_lt_mul_of_pos_right (by omega) hs
  · exact Nat.mul_lt_mul_of_pos_right (by omega) hs

end

/-! ## Hits -/

section
variable {r : Rounding}

/-- Nothing that the interval of a positive magnitude contains is zero. -/
theorem not_contains_zero (hlow : 0 < r.low) {den : Nat} (hden : 0 < den) : r.contains 0 den = false := by
  have : 0 < r.low * den := Nat.mul_pos hlow hden
  unfold Rounding.contains
  split <;> simp only [Nat.zero_mul, Bool.and_eq_false_iff, decide_eq_false_iff_not] <;> omega

theorem onGrid?_pos (hlow : 0 < r.low) (hvalue : 0 < r.value) {grid : Int} {units : Nat}
    (h : r.onGrid? grid = some units) : 0 < units := by
  have hdown : 0 < Nat.pow 10 (-grid).toNat := Nat.pow_pos (by decide)
  unfold Rounding.onGrid? at h
  simp only at h
  generalize Nat.pow 10 grid.toNat = up at h
  generalize Nat.pow 10 (-grid).toNat = down at h hdown
  have miss := not_contains_zero hlow hdown
  generalize hb : r.value * down / (r.den * up) = below at h
  by_cases zero : below = 0
  · subst zero
    have rest : r.value * down % (r.den * up) = r.value * down := by
      have := Nat.div_add_mod (r.value * down) (r.den * up)
      rwa [hb, Nat.mul_zero, Nat.zero_add] at this
    have ne : r.value * down ≠ 0 := Nat.ne_of_gt (Nat.mul_pos hvalue hdown)
    simp only [rest, beq_iff_eq, ne, if_false, Nat.zero_mul, miss] at h
    cases next : r.contains ((0 + 1) * up) down with
    | false =>
      rw [next] at h
      cases h
    | true =>
      rw [next] at h
      cases h
      decide
  · split at h
    · simp only [Option.some.injEq] at h
      omega
    · split at h <;> simp at h <;> try omega
      split at h <;> omega

/-- A grid whose step is at most the distance to the lower end has a hit: the neighbour below. -/
theorem isSome_onGrid? {scale : Nat} {grid : Int} (hlow : r.low + scale ≤ r.value) (hhigh : r.value < r.high)
    (hden : 0 < r.den) (step : r.den * 10 ^ grid.toNat ≤ scale * 10 ^ (-grid).toNat) :
    (r.onGrid? grid).isSome = true := by
  have hup : 0 < Nat.pow 10 grid.toNat := Nat.pow_pos (by decide)
  have hdown : 0 < Nat.pow 10 (-grid).toNat := Nat.pow_pos (by decide)
  change r.den * Nat.pow 10 grid.toNat ≤ scale * Nat.pow 10 (-grid).toNat at step
  unfold Rounding.onGrid?
  simp only
  generalize Nat.pow 10 grid.toNat = up at *
  generalize Nat.pow 10 (-grid).toNat = down at *
  have hunit : 0 < r.den * up := Nat.mul_pos hden hup
  have eq := Nat.div_add_mod (r.value * down) (r.den * up)
  have lt := Nat.mod_lt (r.value * down) hunit
  generalize hb : r.value * down / (r.den * up) = below at *
  have units : below * up * r.den = r.den * up * below := by ac_rfl
  have above : r.low * down < below * up * r.den := by
    have := Nat.mul_le_mul_right down hlow
    rw [Nat.add_mul] at this
    omega
  have under : below * up * r.den < r.high * down := by
    have := Nat.mul_lt_mul_of_pos_right hhigh hdown
    omega
  have hit : r.contains (below * up) down = true := by
    unfold Rounding.contains
    split <;> simp <;> omega
  rw [hit]
  split
  · rfl
  · cases r.contains ((below + 1) * up) down <;> rfl

end

/-! ## The search -/

/-- Up to one digit more than the precision there is a hit. -/
theorem isSome_onGrid?_last (f : BinaryFormat) {rank : Nat} (h : 0 < rank) (hp : 0 < f.precision) :
    ((rounding f rank).onGrid? (leadingExponent (rounding f rank).value (rounding f rank).den -
      (f.precision + 1 : Nat))).isSome = true := by
  obtain ⟨scale, hs, hden, -, hlow, hhigh, hvalue⟩ := rounding_bounds f h
  have lead := pow_leadingExponent_le (show 0 < (rounding f rank).value by omega) (rounding f rank).den
  generalize rounding f rank = r at *
  generalize leadingExponent r.value r.den = e at *
  generalize hn : f.precision + 1 = n
  refine isSome_onGrid? hlow hhigh hden ?_
  have small : 8 * f.half ≤ 10 ^ n := by
    have e8 : 8 * f.half = 2 ^ (n + 1) := by
      rw [BinaryFormat.half, ← hn, Nat.pow_eq, show 8 = 2 ^ 3 from rfl, ← Nat.pow_add]
      congr 1
      omega
    calc 8 * f.half = 2 ^ n * 2 := by rw [e8, Nat.pow_succ]
      _ ≤ 2 ^ n * 5 ^ n := Nat.mul_le_mul_left _ (by
        calc 2 ≤ 5 ^ 1 := by decide
          _ ≤ 5 ^ n := Nat.pow_le_pow_right (by decide) (by omega))
      _ = 10 ^ n := by rw [← Nat.mul_pow]
  have exponents : (e - n).toNat + ((-e).toNat + n) = e.toNat + (-(e - n)).toNat := by omega
  -- both sides times the power of ten by which the grid is finer than the leading digit
  refine Nat.le_of_mul_le_mul_right ?_ (show 0 < 10 ^ ((-e).toNat + n) from Nat.pow_pos (by decide))
  calc r.den * 10 ^ (e - n).toNat * 10 ^ ((-e).toNat + n)
      = r.den * 10 ^ e.toNat * 10 ^ (-(e - n)).toNat := by
        rw [Nat.mul_assoc, ← Nat.pow_add, exponents, Nat.pow_add, Nat.mul_assoc]
    _ ≤ r.value * 10 ^ (-e).toNat * 10 ^ (-(e - n)).toNat := Nat.mul_le_mul_right _ lead
    _ ≤ 10 ^ n * scale * 10 ^ (-e).toNat * 10 ^ (-(e - n)).toNat :=
        Nat.mul_le_mul_right _ (Nat.mul_le_mul_right _
          (Nat.le_trans (Nat.le_of_lt hvalue) (Nat.mul_le_mul_right _ small)))
    _ = scale * 10 ^ (-(e - n)).toNat * 10 ^ ((-e).toNat + n) := by
        rw [Nat.pow_add]
        simp only [Nat.mul_comm, Nat.mul_left_comm, Nat.mul_assoc]

/-- The search ends with a hit if there is one before its fuel ends. -/
theorem Rounding.shortest_pos {r : Rounding} {leading : Int} (hlow : 0 < r.low) (hvalue : 0 < r.value)
    {last : Nat} (hit : (r.onGrid? (leading - last)).isSome = true) (fuel n : Nat) (reach : n ≤ last)
    (enough : last < n + fuel) : 0 < (r.shortest leading n fuel).1 := by
  induction fuel generalizing n with
  | zero => omega
  | succ fuel ih =>
    simp only [Rounding.shortest]
    split
    · rename_i units found
      exact onGrid?_pos hlow hvalue found
    · rename_i miss
      have : n ≠ last := by
        rintro rfl
        simp [miss] at hit
      exact ih (n + 1) (by omega) (by omega)

theorem shortest_pos (f : BinaryFormat) {rank : Nat} (h : 0 < rank) (hp : 0 < f.precision) :
    0 < (shortest f rank).1 := by
  obtain ⟨scale, -, -, hlow, le, -, -⟩ := rounding_bounds f h
  exact Rounding.shortest_pos hlow (by omega) (isSome_onGrid?_last f h hp) _ 0 (by omega) (by omega)

end LiveSettings.Binary
