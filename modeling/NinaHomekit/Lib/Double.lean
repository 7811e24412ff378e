import Mathlib

/-!
# Binary floating point

The numbers of the type `double`: a whole number of at most 53 bits times a power of two, or an
infinity.  A result that is none of them is rounded to the nearest, and to the even one of two.

* `roundShift` — the division by a power of two, rounded.
* `Double`, `Double.round` — the numbers, and the one nearest to a whole number times a power.
* `Double.sub` — the difference to a whole number.
* `Double.trunc` — the part in front of the point.
* `Double.trunc_sub_ofInt` — **with whole numbers of at most 53 bits it is all exact.**
-/

/-- `n / 2 ^ k`, rounded to the nearest whole number, and half way to the even one. -/
def roundShift (n : Int) (k : Nat) : Int :=
  let q := n / 2 ^ k
  let r := n % 2 ^ k
  if 2 * r < 2 ^ k ∨ 2 * r = 2 ^ k ∧ q % 2 = 0 then q else q + 1

theorem roundShift_zero (n : Int) : roundShift n 0 = n := by
  simp [roundShift]

/-- Rounding does not leave a range that ends in whole numbers. -/
theorem natAbs_roundShift_le {n : Int} {k b : Nat} (h : n.natAbs < b * 2 ^ k) :
    (roundShift n k).natAbs ≤ b := by
  have hpos : (0 : Int) < 2 ^ k := by positivity
  have habs : (n.natAbs : Int) < b * 2 ^ k := by exact_mod_cast h
  have hlow : -(b : Int) ≤ n / 2 ^ k := by
    rw [Int.le_ediv_iff_mul_le hpos]
    have := neg_abs_le n
    rw [Int.natCast_natAbs] at habs
    linarith
  have hhigh : n / 2 ^ k < b := by
    rw [Int.ediv_lt_iff_lt_mul hpos]
    have := le_abs_self n
    rw [Int.natCast_natAbs] at habs
    linarith
  unfold roundShift
  dsimp only
  split <;> omega

/-- A `double` that is no NaN. -/
inductive Double where
  /-- `mant * 2 ^ exp`. -/
  | finite (mant exp : Int)
    (fits : mant.natAbs ≤ 2 ^ 53 ∧ -1074 ≤ exp ∧ mant.natAbs * 2 ^ exp.toNat < 2 ^ 1024)
  | infinity (negative : Bool)
  deriving DecidableEq

namespace Double

/-- The bits of `n` beyond 53. -/
def excess (n : Int) : Nat := Nat.log2 n.natAbs - 52

theorem natAbs_lt_excess (n : Int) : n.natAbs < 2 ^ 53 * 2 ^ excess n := by
  rw [← pow_add]
  refine lt_of_lt_of_le Nat.lt_log2_self (Nat.pow_le_pow_right (by decide) ?_)
  unfold excess
  omega

theorem excess_of_lt {n : Int} (h : n.natAbs < 2 ^ 53) : excess n = 0 := by
  unfold excess
  by_cases h0 : n.natAbs = 0
  · rw [h0]
    rfl
  · have := (Nat.log2_lt h0).2 h
    omega

/-- The number nearest to `n * 2 ^ exp`. -/
def round (n exp : Int) (h : -1074 ≤ exp) : Double :=
  let mant := roundShift n (excess n)
  if hfin : mant.natAbs * 2 ^ (exp + excess n).toNat < 2 ^ 1024 then
    finite mant (exp + excess n)
      ⟨natAbs_roundShift_le (natAbs_lt_excess n), by omega, hfin⟩
  else infinity (n < 0)

/-- The number nearest to a whole number. -/
def ofInt (n : Int) : Double := round n 0 (by decide)

/-- The difference to a whole number. -/
def sub (x : Double) (n : Int) : Double :=
  match x with
  | finite mant exp fits =>
    if 0 ≤ exp then ofInt (mant * 2 ^ exp.toNat - n)
    else round (mant - n * 2 ^ (-exp).toNat) exp fits.2.1
  | infinity negative => infinity negative

/-- The part in front of the point. -/
def trunc : Double → Option Int
  | finite mant exp _ =>
    if 0 ≤ exp then some (mant * 2 ^ exp.toNat) else some (mant.tdiv (2 ^ (-exp).toNat))
  | infinity _ => none

theorem ofInt_of_lt {n : Int} (h : n.natAbs < 2 ^ 53) :
    ∃ fits, ofInt n = finite n 0 fits := by
  have hfin : n.natAbs * 2 ^ (0 : Int).toNat < 2 ^ 1024 := by
    rw [Int.toNat_zero, pow_zero, Nat.mul_one]
    exact h.trans_le (pow_le_pow_right₀ one_le_two (show 53 ≤ 1024 by decide))
  refine ⟨⟨h.le, by decide, hfin⟩, ?_⟩
  unfold ofInt round
  simp only [excess_of_lt h, roundShift_zero]
  exact dif_pos hfin

theorem trunc_ofInt {n : Int} (h : n.natAbs < 2 ^ 53) : (ofInt n).trunc = some n := by
  obtain ⟨fits, hfin⟩ := ofInt_of_lt h
  rw [hfin]
  simp [trunc]

/-- **Differences of whole numbers are exact.** -/
theorem trunc_sub_ofInt {m n : Int} (hm : m.natAbs < 2 ^ 53) (h : (m - n).natAbs < 2 ^ 53) :
    ((ofInt m).sub n).trunc = some (m - n) := by
  obtain ⟨fits, hfin⟩ := ofInt_of_lt hm
  rw [hfin]
  simpa [sub] using trunc_ofInt h

/-- The `double` next to `10 ^ -20` is lost beside 1. -/
example : ((finite 6646139978924579 (-119) (by decide +kernel)).sub 1).trunc = some (-1) := by
  decide +kernel

end Double
