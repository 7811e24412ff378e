import NinaHomekit.Lib.Interleave

/-!
# Programs that only read

What a program reads of a store, when it writes nothing: the cells of its accesses, of one program
after another and of a loop.

* `ReadsIn` — on this store the program writes nothing, and reads only cells with a property.
* `readsIn_bind_of_ok` — one program after another; `readsIn_read`, `readsIn_done` are the steps.
* `ReadsIn.foldlM`, `ReadsIn.forWhile` — **a loop reads what its passes read.**
-/

namespace Store

namespace Prog

variable {κ ν φ α β γ : Type} [DecidableEq κ] {P : κ → Prop} {m : κ → ν} {p : Prog κ ν φ α}

/-- On the store `m`, the program writes nothing, and reads only cells with `P`. -/
def ReadsIn (P : κ → Prop) (p : Prog κ ν φ α) (m : κ → ν) : Prop :=
  ∀ a ∈ p.accesses m, a.isWrite = false ∧ P a.cell

@[simp] theorem readsIn_done (a : α) : (done a : Prog κ ν φ α).ReadsIn P m := by
  intro b hb
  cases hb

@[simp] theorem readsIn_read {x : κ} {next : ν → Prog κ ν φ α} :
    (read x next).ReadsIn P m ↔ P x ∧ (next (m x)).ReadsIn P m := by
  unfold ReadsIn
  rw [accesses, List.forall_mem_cons]
  exact and_congr_left' (and_iff_right rfl)

theorem readsIn_bind_of_ok {a : α} {m' : κ → ν} (h : p.eval m = .ok (a, m'))
    (f : α → Prog κ ν φ β) : (p >>= f).ReadsIn P m ↔ p.ReadsIn P m ∧ (f a).ReadsIn P m' := by
  unfold ReadsIn
  rw [accesses_bind_of_ok h, List.forall_mem_append]

/-- A loop over a list. -/
theorem ReadsIn.foldlM {f : β → γ → Prog κ ν φ β} {g : β → γ → β} {cs : List γ}
    (heval : ∀ b c, (f b c).eval m = .ok (g b c, m)) (h : ∀ b, ∀ c ∈ cs, (f b c).ReadsIn P m)
    (b : β) : (cs.foldlM f b).ReadsIn P m := by
  induction cs generalizing b with
  | nil => exact readsIn_done b
  | cons c cs ih =>
    rw [List.foldlM_cons, readsIn_bind_of_ok (heval b c)]
    refine ⟨h b c (List.mem_cons_self ..), ih (fun b c hc => h b c (List.mem_cons_of_mem _ hc)) _⟩

/-- A loop whose bound is evaluated at every pass.  Induction on the indices that are left. -/
theorem ReadsIn.forWhile {len : Prog κ ν φ Nat} {body : β → Nat → Prog κ ν φ β} {n : Nat}
    {g : β → Nat → β} (hlen : len.eval m = .ok (n, m)) (hlenIn : len.ReadsIn P m)
    (heval : ∀ b i, (body b i).eval m = .ok (g b i, m))
    (h : ∀ b i, i < n → (body b i).ReadsIn P m) (is : List Nat) (b : β) :
    (forWhile len body is b).ReadsIn P m := by
  induction is generalizing b with
  | nil => exact readsIn_done b
  | cons i is ih =>
    rw [Prog.forWhile, readsIn_bind_of_ok hlen]
    refine ⟨hlenIn, ?_⟩
    by_cases hi : i < n
    · rw [if_pos hi, readsIn_bind_of_ok (heval b i)]
      exact ⟨h b i hi, ih _⟩
    · rw [if_neg hi]
      exact readsIn_done b

end Prog

end Store
