import Mathlib

/-!
# Cutting a string with `strsep`

* `strsep` — the token in front of the first delimiter, and what is behind it.
* `pairs` — tokens that end at the delimiters `d` and `e` in turns, until nothing is left.
* `pairs_ok_iff` — **every second token is there exactly if no `e` follows the last `d`.**
* `pairs_join` — **pairs that were joined are cut into the same pairs.**
-/

namespace Strsep

variable {α : Type*} {d e : α}

/-- Pairs, as a text. -/
def join (d e : α) : List (List α × List α) → List α
  | [] => []
  | [(p, q)] => p ++ d :: q
  | (p, q) :: ps => p ++ d :: (q ++ e :: join d e ps)

theorem length_le_join {ps : List (List α × List α)} : ps.length ≤ (join d e ps).length := by
  induction ps with
  | nil => exact Nat.zero_le _
  | cons p ps ih =>
    cases ps with
    | nil =>
      simp only [join, List.length_append, List.length_cons, List.length_nil]
      omega
    | cons q ps =>
      simp only [join, List.length_append, List.length_cons] at ih ⊢
      omega

variable [DecidableEq α] {s p r : List α} {fuel : Nat}

/-- `strsep`, with one delimiter: the token, and where the next one starts. -/
def strsep (d : α) : Option (List α) → Option (List α) × Option (List α)
  | none => (none, none)
  | some s => (some (s.takeWhile (· ≠ d)),
      if d ∈ s then some (s.dropWhile (· ≠ d)).tail else none)

theorem strsep_of_not_mem (h : d ∉ s) : strsep d (some s) = (some s, none) := by
  have hall : ∀ c ∈ s, decide (c ≠ d) = true := fun c hc => by
    rw [decide_eq_true_eq]
    rintro rfl
    exact h hc
  rw [strsep, if_neg h, List.takeWhile_eq_self_iff.2 hall]

theorem strsep_append (h : d ∉ p) : strsep d (some (p ++ d :: r)) = (some p, some r) := by
  have hall : ∀ c ∈ p, decide (c ≠ d) = true := fun c hc => by
    rw [decide_eq_true_eq]
    rintro rfl
    exact h hc
  rw [strsep, if_pos (by simp), List.takeWhile_append_of_pos hall, List.dropWhile_append_of_pos hall]
  simp

/-- The pairs of tokens, and whether each first token had a second one. -/
def pairs (d e : α) : Nat → Option (List α) → List (List α × List α) × Bool
  | 0, _ => ([], true)
  | fuel + 1, s =>
    match strsep d s with
    | (none, _) => ([], true)
    | (some p, rest) =>
      match strsep e rest with
      | (none, _) => ([], false)
      | (some q, rest) => ((p, q) :: (pairs d e fuel rest).1, (pairs d e fuel rest).2)

@[simp] theorem pairs_none : pairs d e fuel none = ([], true) := by
  cases fuel <;> rfl

/-- Without a `d` there is no second token. -/
theorem pairs_of_not_mem (h : d ∉ s) : pairs d e (fuel + 1) (some s) = ([], false) := by
  rw [pairs, strsep_of_not_mem h]
  rfl

/-- The last pair. -/
theorem pairs_last (hp : d ∉ p) (hr : e ∉ r) :
    pairs d e (fuel + 1) (some (p ++ d :: r)) = ([(p, r)], true) := by
  simp only [pairs, strsep_append hp, strsep_of_not_mem hr, pairs_none]

/-- A pair in front of others. -/
theorem pairs_cons {q : List α} (hp : d ∉ p) (hq : e ∉ q) :
    pairs d e (fuel + 1) (some (p ++ d :: (q ++ e :: r))) =
      ((p, q) :: (pairs d e fuel (some r)).1, (pairs d e fuel (some r)).2) := by
  simp only [pairs, strsep_append hp, strsep_append hq]

theorem pairs_ne_nil (h : (pairs d e (fuel + 1) (some s)).2 = true) :
    (pairs d e (fuel + 1) (some s)).1 ≠ [] := by
  by_cases hd : d ∈ s
  · obtain ⟨p, r, rfl, hp⟩ := List.eq_append_cons_of_mem hd
    by_cases he : e ∈ r
    · obtain ⟨q, r, rfl, hq⟩ := List.eq_append_cons_of_mem he
      rw [pairs_cons hp hq]
      simp
    · rw [pairs_last hp he]
      simp
  · rw [pairs_of_not_mem hd] at h
    cases h

/-- There are no more pairs than tokens between the `e`s. -/
theorem length_pairs_le : (pairs d e fuel (some s)).1.length ≤ s.count e + 1 := by
  induction fuel generalizing s with
  | zero => exact Nat.zero_le _
  | succ fuel ih =>
    by_cases hd : d ∈ s
    · obtain ⟨p, r, rfl, hp⟩ := List.eq_append_cons_of_mem hd
      by_cases he : e ∈ r
      · obtain ⟨q, r, rfl, hq⟩ := List.eq_append_cons_of_mem he
        rw [pairs_cons hp hq]
        have := ih (s := r)
        simp only [List.length_cons, List.count_append, List.count_cons, BEq.rfl, if_true]
        omega
      · rw [pairs_last hp he]
        simp
    · rw [pairs_of_not_mem hd]
      exact Nat.zero_le _

/-- **Every first token has a second one** exactly if no `e` follows the last `d`.  Induction on the
pairs. -/
theorem pairs_ok_iff (hde : d ≠ e) (hfuel : s.length < fuel) :
    (pairs d e fuel (some s)).2 = true ↔ ∃ l r, s = l ++ d :: r ∧ e ∉ r := by
  induction fuel generalizing s with
  | zero => omega
  | succ fuel ih =>
    by_cases hd : d ∈ s
    · obtain ⟨p, r, rfl, hp⟩ := List.eq_append_cons_of_mem hd
      by_cases he : e ∈ r
      · obtain ⟨q, r, rfl, hq⟩ := List.eq_append_cons_of_mem he
        rw [pairs_cons hp hq, ih (by simp at hfuel ⊢; omega)]
        constructor
        · rintro ⟨l, t, rfl, ht⟩
          exact ⟨p ++ d :: (q ++ e :: l), t, by simp, ht⟩
        · rintro ⟨l, t, heq, ht⟩
          have hcut : (p ++ d :: q) ++ e :: r = l ++ d :: t := by simpa using heq
          obtain ⟨a, -, ha⟩ | ⟨a, -, ha⟩ := List.append_eq_append_iff.1 hcut
          · cases a with
            | nil => exact absurd (List.cons.inj ha).1.symm hde
            | cons b a => exact ⟨a, t, (List.cons.inj ha).2, ht⟩
          · -- the `e` would be behind the last `d`
            cases a with
            | nil => exact absurd (List.cons.inj ha).1 hde
            | cons b a =>
              obtain ⟨-, rfl⟩ := List.cons.inj ha
              simp at ht
      · rw [pairs_last hp he]
        exact iff_of_true rfl ⟨p, r, rfl, he⟩
    · rw [pairs_of_not_mem hd]
      refine iff_of_false Bool.false_ne_true ?_
      rintro ⟨l, r, rfl, -⟩
      exact hd (by simp)

/-- **Pairs that were joined are cut into the same pairs.** -/
theorem pairs_join {ps : List (List α × List α)} (hne : ps ≠ []) (h : ∀ p ∈ ps, d ∉ p.1 ∧ e ∉ p.2)
    (hfuel : ps.length ≤ fuel) : pairs d e fuel (some (join d e ps)) = (ps, true) := by
  induction ps generalizing fuel with
  | nil => exact absurd rfl hne
  | cons p ps ih =>
    obtain ⟨⟨hd, he⟩, hps⟩ := List.forall_mem_cons.1 h
    cases fuel with
    | zero => simp at hfuel
    | succ fuel =>
      cases ps with
      | nil => exact pairs_last hd he
      | cons q ps =>
        rw [join, pairs_cons hd he, ih (by simp) hps (by simpa using hfuel)]
        simp

end Strsep
