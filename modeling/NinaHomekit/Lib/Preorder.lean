import Mathlib

/-!
# Trees in preorder

Nodes in an array, each with the index of its parent, in the order in which a walk from the roots
meets them: a parent comes first, and then its children, each with all that is below it.

* `Anc` — the ancestors of a node, itself included.
* `IsPreorder` — the order; `Anc.interval` says that what is below a node is an interval.
* `IsLast` — the last node below a node.
* `behind` — the children of a node behind another one; `behind_step` takes off the first.
* `skip_spec` — **a walk that only counts children finds the last node below.**
* `IsPreorder.snoc`, `behind_snoc` — one more node, below an ancestor of the last one.
-/

namespace PreorderForest

/-- `a` is on the way from the root of `b` to `b`. -/
inductive Anc (par : Nat → Option Nat) (a : Nat) : Nat → Prop
  | refl : Anc par a a
  | up {b p : Nat} (hp : par b = some p) (h : Anc par a p) : Anc par a b

/-- A parent is an ancestor of the node right before its child. -/
def IsPreorder (par : Nat → Option Nat) (n : Nat) : Prop :=
  ∀ k < n, ∀ p, par k = some p → ∃ l, k = l + 1 ∧ Anc par p l

variable {par : Nat → Option Nat} {n a b c i j k l p : Nat}

/-! ## Ancestors -/

theorem Anc.trans (hab : Anc par a b) (hbc : Anc par b c) : Anc par a c := by
  induction hbc with
  | refl => exact hab
  | up hp _ ih => exact ih.up hp

/-- An ancestor other than the node itself is one of its parent. -/
theorem Anc.parent (h : Anc par a b) (hne : a ≠ b) : ∃ p, par b = some p ∧ Anc par a p := by
  cases h with
  | refl => exact absurd rfl hne
  | up hp h => exact ⟨_, hp, h⟩

/-- Ancestors come first.  Strong induction on the node. -/
theorem Anc.le (hpre : IsPreorder par n) (hb : b < n) (h : Anc par a b) : a ≤ b := by
  induction b using Nat.strong_induction_on generalizing a with
  | _ b ih =>
    cases h with
    | refl => exact le_rfl
    | up hp h =>
      obtain ⟨l, rfl, hl⟩ := hpre b hb _ hp
      have hpl := ih l (by omega) (by omega) hl
      have hap := ih _ (by omega) (by omega) h
      omega

theorem IsPreorder.parent_lt (hpre : IsPreorder par n) (hk : k < n) (hp : par k = some p) :
    p < k := by
  obtain ⟨l, rfl, hl⟩ := hpre k hk p hp
  have hpl := hl.le hpre (by omega)
  omega

/-- **What is below a node is an interval.**  Induction on its end. -/
theorem Anc.interval (hpre : IsPreorder par n) (hk : k < n) (h : Anc par i k) (hij : i ≤ j)
    (hjk : j ≤ k) : Anc par i j := by
  induction k with
  | zero =>
    obtain rfl : j = 0 := by omega
    exact h
  | succ k ih =>
    rcases Nat.lt_or_eq_of_le hjk with hlt | rfl
    · obtain ⟨p, hp, hip⟩ := h.parent (by omega)
      obtain ⟨l, hl, hpl⟩ := hpre (k + 1) hk p hp
      obtain rfl : k = l := by omega
      exact ih (by omega) (hip.trans hpl) (by omega)
    · exact h

/-! ## The last node below -/

/-- `l` is the last node below `i`. -/
structure IsLast (par : Nat → Option Nat) (n i l : Nat) : Prop where
  lt : l < n
  anc : Anc par i l
  notMem : ∀ k, l < k → k < n → ¬ Anc par i k

/-- Below `i`, the nodes up to `j` are `i` and whole children of it: nothing behind `j` is below
one of them but `i`. -/
structure Whole (par : Nat → Option Nat) (n i j : Nat) : Prop where
  lt : j < n
  anc : Anc par i j
  closed : ∀ a k, i < a → a ≤ j → j < k → k < n → ¬ Anc par a k

/-- The children of `i` behind `j`, in order. -/
def behind (par : Nat → Option Nat) (n i j : Nat) : List Nat :=
  (List.range n).filter fun k => j < k ∧ par k = some i

theorem mem_behind : k ∈ behind par n i j ↔ k < n ∧ j < k ∧ par k = some i := by
  simp [behind]

theorem whole_self (hi : i < n) : Whole par n i i :=
  ⟨hi, .refl, fun a k hia hai _ _ _ => by omega⟩

/-- The next node below `i` is a child. -/
theorem Whole.parent (h : Whole par n i j) (hpre : IsPreorder par n) (hj : j + 1 < n)
    (hanc : Anc par i (j + 1)) : par (j + 1) = some i := by
  have hij := h.anc.le hpre h.lt
  obtain ⟨p, hp, hip⟩ := hanc.parent (by omega)
  have hpj := hpre.parent_lt hj hp
  have hle := hip.le hpre (by omega)
  rcases Nat.lt_or_eq_of_le hle with hlt | rfl
  · exact absurd (Anc.up hp .refl) (h.closed p (j + 1) hlt (by omega) (by omega) hj)
  · exact hp

/-- One more child. -/
theorem Whole.step (h : Whole par n i j) (hpre : IsPreorder par n) (hp : par (j + 1) = some i)
    (hlast : IsLast par n (j + 1) l) : Whole par n i l := by
  have hle := hlast.anc.le hpre hlast.lt
  refine ⟨hlast.lt, (Anc.up hp .refl).trans hlast.anc, fun a k hia hal hlk hk hak => ?_⟩
  by_cases haj : a ≤ j
  · exact h.closed a k hia haj (by omega) hk hak
  · exact hlast.notMem k hlk hk ((hlast.anc.interval hpre hlast.lt (by omega) hal).trans hak)

/-- No child is left. -/
theorem Whole.isLast (h : Whole par n i j) (hpre : IsPreorder par n)
    (hnone : behind par n i j = []) : IsLast par n i j := by
  refine ⟨h.lt, h.anc, fun k hjk hk hik => ?_⟩
  have hij := h.anc.le hpre h.lt
  have hp := h.parent hpre (by omega) (hik.interval hpre hk (by omega) hjk)
  have hmem : j + 1 ∈ behind par n i j := mem_behind.2 ⟨by omega, by omega, hp⟩
  rw [hnone] at hmem
  cases hmem

/-- A child that is left is the next node. -/
theorem Whole.parent_of_ne_nil (h : Whole par n i j) (hpre : IsPreorder par n)
    (hne : behind par n i j ≠ []) : j + 1 < n ∧ par (j + 1) = some i := by
  obtain ⟨k, hmem⟩ := List.exists_mem_of_ne_nil _ hne
  obtain ⟨hk, hjk, hp⟩ := mem_behind.1 hmem
  have hij := h.anc.le hpre h.lt
  have hanc : Anc par i (j + 1) := (Anc.up hp .refl).interval hpre hk (by omega) hjk
  exact ⟨by omega, h.parent hpre (by omega) hanc⟩

/-- The first node that is asked for is `j + 1`. -/
theorem filter_range_cons {f : Nat → Bool} (hj : j + 1 < n) (hf : f (j + 1)) :
    ((List.range n).filter fun k => decide (j < k) && f k) =
      (j + 1) :: (List.range n).filter fun k => decide (j + 1 < k) && f k := by
  obtain ⟨m, rfl⟩ : ∃ m, n = j + 2 + m := ⟨n - (j + 2), by omega⟩
  have hlow : ∀ l ≤ j + 2, ∀ g : Nat → Bool,
      ((List.range l).filter fun k => decide (j + 1 < k) && g k) = [] := by
    intro l hl g
    simp only [List.filter_eq_nil_iff, List.mem_range]
    intro k hk
    simp [show ¬ j + 1 < k by omega]
  have hlow' : ((List.range (j + 1)).filter fun k => decide (j < k) && f k) = [] := by
    simp only [List.filter_eq_nil_iff, List.mem_range]
    intro k hk
    simp [show ¬ j < k by omega]
  rw [List.range_add, List.filter_append, List.filter_append, hlow _ le_rfl, List.range_succ,
    List.filter_append, hlow']
  simp only [List.nil_append, List.filter_cons, List.filter_nil, Nat.lt_succ_self, decide_true,
    Bool.true_and, hf, if_true, List.cons_append]
  congr 1
  refine List.filter_congr fun k hk => ?_
  obtain ⟨l, -, rfl⟩ := List.mem_map.1 hk
  simp [show j < j + 2 + l by omega, show j + 1 < j + 2 + l by omega]

/-- With a child, only it is gone: nothing else below it has its parent. -/
theorem behind_step (hpre : IsPreorder par n) (hp : par (j + 1) = some i)
    (hlast : IsLast par n (j + 1) l) : behind par n i j = (j + 1) :: behind par n i l := by
  have hle := hlast.anc.le hpre hlast.lt
  have hl := hlast.lt
  have hij := hpre.parent_lt (by omega) hp
  have hcons : behind par n i j = (j + 1) :: behind par n i (j + 1) := by
    simp only [behind, Bool.decide_and]
    exact filter_range_cons (by omega) (by simpa using hp)
  rw [hcons]
  congr 1
  refine List.filter_congr fun k hk => ?_
  simp only [decide_eq_decide]
  refine and_congr_left fun hpk => ⟨fun hjk => ?_, fun hlk => by omega⟩
  by_contra hkl
  obtain ⟨q, hq, hanc⟩ :=
    (hlast.anc.interval hpre hl (j := k) (by omega) (by omega)).parent (by omega)
  obtain rfl := Option.some.inj (hpk.symm.trans hq)
  have := hanc.le hpre (by omega)
  omega

/-! ## The walk -/

section Walk

variable {ε : Type*}

/-- `cnt` times the step to the next node and on to the last node below it. -/
def walk (skip : Nat → Except ε Nat) : Nat → Nat → Except ε Nat
  | 0, cur => .ok cur
  | cnt + 1, cur => do
    let cur ← skip (cur + 1)
    walk skip cnt cur

/-- The walk over the children that are left. -/
theorem Whole.walk (hpre : IsPreorder par n) {f : Nat → Except ε Nat}
    (hf : ∀ c, i < c → c < n → ∃ l, f c = .ok l ∧ IsLast par n c l) (h : Whole par n i j) :
    ∃ l, walk f (behind par n i j).length j = .ok l ∧ IsLast par n i l := by
  obtain ⟨cs, hcs⟩ : ∃ cs, behind par n i j = cs := ⟨_, rfl⟩
  rw [hcs]
  induction cs generalizing j with
  | nil => exact ⟨j, rfl, h.isLast hpre hcs⟩
  | cons c cs ih =>
    obtain ⟨hj, hp⟩ := h.parent_of_ne_nil hpre (by simp [hcs])
    obtain ⟨m, hm, hlast⟩ := hf (j + 1) (hpre.parent_lt hj hp) hj
    have hstep := behind_step hpre hp hlast
    rw [hcs, List.cons.injEq] at hstep
    obtain ⟨l, hl, hil⟩ := ih (h.step hpre hp hlast) hstep.2.symm
    refine ⟨l, ?_, hil⟩
    simp only [List.length_cons, PreorderForest.walk, hm]
    exact hl

/-- **A walk that only knows how many children each node has finds the last node below**, with
fuel for the nodes from there on.  Induction on the fuel. -/
theorem skip_spec (hpre : IsPreorder par n) {skip : Nat → Nat → Except ε Nat}
    (hskip : ∀ fuel, ∀ i < n,
      skip (fuel + 1) i = PreorderForest.walk (skip fuel) (behind par n i i).length i)
    {fuel : Nat} (hi : i < n) (hfuel : n - i ≤ fuel) :
    ∃ l, skip fuel i = .ok l ∧ IsLast par n i l := by
  induction fuel generalizing i with
  | zero => omega
  | succ fuel ih =>
    rw [hskip fuel i hi]
    exact (whole_self hi).walk hpre fun c hic hc => ih hc (by omega)

end Walk

/-! ## One more node -/

section Snoc

variable {par' : Nat → Option Nat}

theorem Anc.congr (hpre : IsPreorder par n) (heq : ∀ k < n, par' k = par k) (hb : b < n)
    (h : Anc par a b) : Anc par' a b := by
  induction h with
  | refl => exact .refl
  | up hp _ ih =>
    have hlt := hpre.parent_lt hb hp
    exact .up ((heq _ hb).trans hp) (ih (by omega))

/-- The new node has no parent, or one on the way from a root to the node before. -/
theorem IsPreorder.snoc (hpre : IsPreorder par n) (heq : ∀ k < n, par' k = par k)
    (hnew : ∀ p, par' n = some p → ∃ l, n = l + 1 ∧ Anc par p l) : IsPreorder par' (n + 1) := by
  intro k hk p hp
  rcases Nat.lt_or_eq_of_le (Nat.le_of_lt_succ hk) with hlt | rfl
  · obtain ⟨l, rfl, hl⟩ := hpre k hlt p ((heq k hlt).symm.trans hp)
    exact ⟨l, rfl, hl.congr hpre heq (by omega)⟩
  · obtain ⟨l, rfl, hl⟩ := hnew p hp
    exact ⟨l, rfl, hl.congr hpre heq (by omega)⟩

theorem behind_snoc (heq : ∀ k < n, par' k = par k) (hi : i < n) :
    (behind par' (n + 1) i i).length =
      (behind par n i i).length + if par' n = some i then 1 else 0 := by
  have hold : ((List.range n).filter fun k => decide (i < k ∧ par' k = some i)) =
      behind par n i i :=
    List.filter_congr fun k hk => by rw [heq k (List.mem_range.1 hk)]
  rw [behind, List.range_succ, List.filter_append, hold, List.length_append]
  by_cases hn : par' n = some i <;> simp [hn, hi]

theorem behind_self_new : behind par (n + 1) n n = [] := by
  simp only [behind, List.filter_eq_nil_iff, List.mem_range]
  intro k hk
  simp [show ¬ n < k by omega]

end Snoc

end PreorderForest
