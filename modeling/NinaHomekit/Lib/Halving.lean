import Mathlib

/-!
# Averages by halving

A running average in whole numbers that takes each sample half and half with what came before,
and starts at 0.  The last sample weighs a half, the one before a quarter, and what is missing of
the weights goes to the 0 at the start.

* `halved` — the running average; `halved_eq` is its closed form, a quotient of base-2 digits.
* `least`, `largest`, `Between` — the range of the samples, up to 1.
* `halved_le` — the average is never above the samples.
* `between_halved_iff` — **it is in their range exactly if the least of them is made up for**, by
  the excess of the others over it or by the number of samples.
-/

namespace Halving

variable {xs : List Nat} {x b r : Nat}

/-! ## The running average -/

/-- The running average of some samples. -/
def halved (xs : List Nat) : Nat := xs.foldl (fun avg x => (avg + x) / 2) 0

@[simp] theorem halved_nil : halved [] = 0 := rfl

@[simp] theorem halved_concat (xs : List Nat) (x : Nat) :
    halved (xs ++ [x]) = (halved xs + x) / 2 := by
  simp [halved]

/-- **The closed form**: the sample `i` has the weight `2 ^ i`.  Induction from the last sample. -/
theorem halved_eq (xs : List Nat) : halved xs = Nat.ofDigits 2 xs / 2 ^ xs.length := by
  induction xs using List.reverseRecOn with
  | nil => rfl
  | append_singleton xs x ih =>
    have hpos : 0 < 2 ^ xs.length := Nat.two_pow_pos _
    rw [halved_concat, ih, Nat.ofDigits_append, Nat.ofDigits_singleton, List.length_append,
      List.length_singleton, pow_succ, ← Nat.div_div_eq_div_mul, Nat.add_mul_div_left _ _ hpos]

theorem halved_le (h : ∀ x ∈ xs, x ≤ b) : halved xs ≤ b := by
  induction xs using List.reverseRecOn with
  | nil => exact Nat.zero_le b
  | append_singleton xs x ih =>
    obtain ⟨hxs, hx⟩ := List.forall_mem_append.1 h
    have hle := ih hxs
    have hlast := hx x (List.mem_singleton_self x)
    rw [halved_concat]
    omega

/-- The weights of `n` samples are `2 ^ n - 1` together: what the samples have over a lower bound
is what is over it. -/
theorem ofDigits_sub (h : ∀ x ∈ xs, b ≤ x) :
    Nat.ofDigits 2 xs + b = Nat.ofDigits 2 (xs.map (· - b)) + b * 2 ^ xs.length := by
  induction xs with
  | nil => simp
  | cons x xs ih =>
    obtain ⟨hx, hxs⟩ := List.forall_mem_cons.1 h
    have hrest := ih hxs
    rw [List.map_cons, Nat.ofDigits_cons, Nat.ofDigits_cons, List.length_cons, pow_succ,
      ← Nat.mul_assoc]
    omega

/-- A lower bound of the samples is one of the average, up to 1, exactly if it is made up for. -/
theorem le_halved_add_one_iff (h : ∀ x ∈ xs, b ≤ x) :
    b ≤ halved xs + 1 ↔ b ≤ 2 ^ xs.length + Nat.ofDigits 2 (xs.map (· - b)) := by
  have hsub := ofDigits_sub h
  have hpos : 0 < 2 ^ xs.length := Nat.two_pow_pos _
  rw [halved_eq, ← Nat.sub_le_iff_le_add, Nat.le_div_iff_mul_le hpos, Nat.sub_mul, Nat.one_mul]
  omega

/-! ## The range of the samples -/

/-- The least of some samples, and the largest. -/
def least (xs : List Nat) : Nat := xs.min?.getD 0

def largest (xs : List Nat) : Nat := xs.max?.getD 0

theorem least_le (h : x ∈ xs) : least xs ≤ x := by
  obtain ⟨b, hb⟩ : ∃ b, xs.min? = some b :=
    Option.isSome_iff_exists.1 (List.isSome_min?_iff.2 (List.ne_nil_of_mem h))
  rw [least, hb]
  exact (List.min?_eq_some_iff.1 hb).2 x h

theorem le_largest (h : x ∈ xs) : x ≤ largest xs := by
  obtain ⟨b, hb⟩ : ∃ b, xs.max? = some b :=
    Option.isSome_iff_exists.1 (List.isSome_max?_iff.2 (List.ne_nil_of_mem h))
  rw [largest, hb]
  exact (List.max?_eq_some_iff.1 hb).2 x h

/-- A number is between the least of the samples and the largest, up to 1. -/
def Between (xs : List Nat) (r : Nat) : Prop := least xs ≤ r + 1 ∧ r ≤ largest xs + 1

instance (xs : List Nat) (r : Nat) : Decidable (Between xs r) :=
  inferInstanceAs (Decidable (_ ∧ _))

/-- **The running average is in the range of the samples** exactly if the least of them is made up
for. -/
theorem between_halved_iff (xs : List Nat) : Between xs (halved xs) ↔
    least xs ≤ 2 ^ xs.length + Nat.ofDigits 2 (xs.map (· - least xs)) := by
  have hle : halved xs ≤ largest xs := halved_le fun x hx => le_largest hx
  rw [Between, and_iff_left (by omega), le_halved_add_one_iff fun x hx => least_le hx]

end Halving
