import Mathlib

/-!
# Programs over a store

A program that reads and writes the cells of a store one at a time, where it may be cut off,
where a read may fail, and where another program may come between two accesses.  The cells, the
values and the faults are arbitrary.

* `Prog` — a program: its accesses, one after the other.
* `eval` — the program on its own; `eval_bind` takes a run apart.  `writes` are the writes it
  makes, and `eval_eq_ok` says that they are what changes the store.
* `cut` — the program up to its `n`th write; `failing` — the program when some reads fail;
  `par` — two programs whose accesses a schedule interleaves.
* `forWhile` — the loop `for (i = 0; i < len(); i++)`, whose bound is evaluated at every pass;
  `eval_forWhile` is its value when nothing is written.
* `Puts` — the writes of a program are all of one kind, whatever it reads.
-/

namespace Store

open Function

/-- A program: the accesses it makes, or a fault. -/
inductive Prog (κ ν φ α : Type) where
  | done (a : α)
  | fault (f : φ)
  | read (x : κ) (next : ν → Prog κ ν φ α)
  | write (x : κ) (v : ν) (next : Prog κ ν φ α)

namespace Prog

variable {κ ν φ α β γ : Type}

/-! ## Sequences of programs -/

/-- One program after the other. -/
def bind : Prog κ ν φ α → (α → Prog κ ν φ β) → Prog κ ν φ β
  | done a, f => f a
  | fault e, _ => fault e
  | read x next, f => read x fun v => (next v).bind f
  | write x v next, f => write x v (next.bind f)

instance : Monad (Prog κ ν φ) where
  pure := done
  bind := bind

@[simp] theorem done_bind (a : α) (f : α → Prog κ ν φ β) : (done a >>= f) = f a := rfl

@[simp] theorem fault_bind (e : φ) (f : α → Prog κ ν φ β) :
    ((fault e : Prog κ ν φ α) >>= f) = fault e := rfl

@[simp] theorem read_bind (x : κ) (next : ν → Prog κ ν φ α) (f : α → Prog κ ν φ β) :
    (read x next >>= f) = read x fun v => next v >>= f := rfl

@[simp] theorem write_bind (x : κ) (v : ν) (next : Prog κ ν φ α) (f : α → Prog κ ν φ β) :
    (write x v next >>= f) = write x v (next >>= f) := rfl

@[simp] theorem pure_eq_done (a : α) : (pure a : Prog κ ν φ α) = done a := rfl

theorem bind_done (p : Prog κ ν φ α) : p >>= done = p := by
  induction p with
  | done a => rfl
  | fault e => rfl
  | read x next ih => exact congrArg (read x) (funext ih)
  | write x v next ih => exact congrArg (write x v) ih

theorem bind_assoc' (p : Prog κ ν φ α) (f : α → Prog κ ν φ β) (g : β → Prog κ ν φ γ) :
    p >>= f >>= g = p >>= fun a => f a >>= g := by
  induction p with
  | done a => rfl
  | fault e => rfl
  | read x next ih => exact congrArg (read x) (funext ih)
  | write x v next ih => exact congrArg (write x v) ih

instance : LawfulMonad (Prog κ ν φ) :=
  LawfulMonad.mk' _ (fun p => bind_done p) (fun _ _ => rfl) (fun p f g => bind_assoc' p f g)

/-- Read a cell. -/
def get (x : κ) : Prog κ ν φ ν := read x done

/-- Write a cell. -/
def put (x : κ) (v : ν) : Prog κ ν φ Unit := write x v (done ())

@[simp] theorem get_bind (x : κ) (f : ν → Prog κ ν φ α) : (get x >>= f) = read x f := rfl

@[simp] theorem put_bind (x : κ) (v : ν) (f : Unit → Prog κ ν φ α) :
    (put x v >>= f) = write x v (f ()) := rfl

/-! ## Runs -/

variable [DecidableEq κ]

/-- The program on its own: its result and the store it leaves. -/
def eval : Prog κ ν φ α → (κ → ν) → Except φ (α × (κ → ν))
  | done a, m => .ok (a, m)
  | fault e, _ => .error e
  | read x next, m => (next (m x)).eval m
  | write x v next, m => next.eval (update m x v)

@[simp] theorem eval_done (a : α) (m : κ → ν) :
    (done a : Prog κ ν φ α).eval m = .ok (a, m) := rfl

@[simp] theorem eval_fault (e : φ) (m : κ → ν) :
    (fault e : Prog κ ν φ α).eval m = .error e := rfl

@[simp] theorem eval_read (x : κ) (next : ν → Prog κ ν φ α) (m : κ → ν) :
    (read x next).eval m = (next (m x)).eval m := rfl

@[simp] theorem eval_write (x : κ) (v : ν) (next : Prog κ ν φ α) (m : κ → ν) :
    (write x v next).eval m = next.eval (update m x v) := rfl

@[simp] theorem eval_get (x : κ) (m : κ → ν) :
    (get x : Prog κ ν φ ν).eval m = .ok (m x, m) := rfl

@[simp] theorem eval_put (x : κ) (v : ν) (m : κ → ν) :
    (put x v : Prog κ ν φ Unit).eval m = .ok ((), update m x v) := rfl

/-- **A run of two programs** is one run after the other. -/
theorem eval_bind (p : Prog κ ν φ α) (f : α → Prog κ ν φ β) (m : κ → ν) :
    (p >>= f).eval m = p.eval m >>= fun r => (f r.1).eval r.2 := by
  induction p generalizing m with
  | done a => rfl
  | fault e => rfl
  | read x next ih => exact ih (m x) m
  | write x v next ih => exact ih (update m x v)

theorem eval_bind_of_ok {p : Prog κ ν φ α} {a : α} {m m' : κ → ν} (h : p.eval m = .ok (a, m'))
    (f : α → Prog κ ν φ β) : (p >>= f).eval m = (f a).eval m' := by
  rw [eval_bind, h]
  rfl

theorem eval_ite (c : Prop) [Decidable c] (p q : Prog κ ν φ α) (m : κ → ν) :
    (if c then p else q).eval m = if c then p.eval m else q.eval m := by
  by_cases h : c
  · rw [if_pos h, if_pos h]
  · rw [if_neg h, if_neg h]

/-- The writes of a run, in order. -/
def writes : Prog κ ν φ α → (κ → ν) → List (κ × ν)
  | done _, _ => []
  | fault _, _ => []
  | read x next, m => (next (m x)).writes m
  | write x v next, m => (x, v) :: next.writes (update m x v)

/-- A store after some writes. -/
def putAll (m : κ → ν) (ws : List (κ × ν)) : κ → ν :=
  ws.foldl (fun m w => update m w.1 w.2) m

@[simp] theorem putAll_nil (m : κ → ν) : putAll m [] = m := rfl

@[simp] theorem putAll_cons (m : κ → ν) (w : κ × ν) (ws : List (κ × ν)) :
    putAll m (w :: ws) = putAll (update m w.1 w.2) ws := rfl

theorem putAll_append (m : κ → ν) (ws ws' : List (κ × ν)) :
    putAll m (ws ++ ws') = putAll (putAll m ws) ws' := List.foldl_append

/-- A cell that no write is to keeps its value. -/
theorem putAll_of_notMem {m : κ → ν} {ws : List (κ × ν)} {x : κ} (h : ∀ w ∈ ws, w.1 ≠ x) :
    putAll m ws x = m x := by
  induction ws generalizing m with
  | nil => rfl
  | cons w ws ih =>
    rw [putAll_cons, ih fun v hv => h v (List.mem_cons_of_mem _ hv)]
    exact update_of_ne (h w (by simp)).symm _ _

/-- **The writes of a run** are what it changes. -/
theorem eval_eq_ok {p : Prog κ ν φ α} {a : α} {m m' : κ → ν} (h : p.eval m = .ok (a, m')) :
    m' = putAll m (p.writes m) := by
  induction p generalizing m with
  | done b =>
    cases h
    rfl
  | fault e => cases h
  | read x next ih => exact ih (m x) h
  | write x v next ih => exact ih h

/-! ## Runs that are cut off, whose reads fail, or that others come between -/

/-- The program, when the reads `i` with `fails i` return `bad`. -/
def failing (bad : ν) : (Nat → Bool) → Prog κ ν φ α → Prog κ ν φ α
  | _, done a => done a
  | _, fault e => fault e
  | fails, read x next => read x fun v =>
      (next (if fails 0 then bad else v)).failing bad fun i => fails (i + 1)
  | fails, write x v next => write x v (next.failing bad fails)

/-- Two programs whose accesses take turns as the schedule says, `true` being the first
program; when it is used up, or one of them is done, the rest follows. -/
def par : List Bool → Prog κ ν φ α → Prog κ ν φ β → Prog κ ν φ (α × β)
  | [], p, q => do
    let a ← p
    let b ← q
    return (a, b)
  | true :: _, done a, q => do
    let b ← q
    return (a, b)
  | true :: _, fault e, _ => fault e
  | true :: turns, read x next, q => read x fun v => par turns (next v) q
  | true :: turns, write x v next, q => write x v (par turns next q)
  | false :: _, p, done b => do
    let a ← p
    return (a, b)
  | false :: _, _, fault e => fault e
  | false :: turns, p, read x next => read x fun v => par turns p (next v)
  | false :: turns, p, write x v next => write x v (par turns p next)

/-- `for (i = 0; i < len(); i++) body(i)`, for the `i` in a list. -/
def forWhile (len : Prog κ ν φ Nat) (body : β → Nat → Prog κ ν φ β) : List Nat → β → Prog κ ν φ β
  | [], b => done b
  | i :: is, b => do
    let n ← len
    if i < n then do
      let b ← body b i
      forWhile len body is b
    else done b

/-- **A loop that writes nothing**: its passes, one after the other.  Induction on the indices
that are left. -/
theorem eval_forWhile {len : Prog κ ν φ Nat} {body : β → Nat → Prog κ ν φ β} {m : κ → ν} {n : Nat}
    {g : β → Nat → β} (hlen : len.eval m = .ok (n, m))
    (hbody : ∀ b i, i < n → (body b i).eval m = .ok (g b i, m)) (k i : Nat) (hn : n ≤ i + k)
    (b : β) :
    (forWhile len body (List.range' i k) b).eval m =
      .ok ((List.range' i (n - i)).foldl g b, m) := by
  induction k generalizing i b with
  | zero =>
    rw [Nat.sub_eq_zero_of_le (by omega : n ≤ i)]
    rfl
  | succ k ih =>
    rw [List.range'_succ, forWhile, eval_bind_of_ok hlen]
    by_cases hi : i < n
    · rw [if_pos hi, eval_bind_of_ok (hbody b i hi), ih (i + 1) (by omega),
        show n - i = (n - (i + 1)) + 1 by omega, List.range'_succ, List.foldl_cons]
    · rw [if_neg hi, Nat.sub_eq_zero_of_le (Nat.not_lt.1 hi)]
      rfl

/-! ## What is written -/

/-- Every write of a program is one of `P`, whatever it reads. -/
def Puts (P : κ → ν → Prop) : Prog κ ν φ α → Prop
  | done _ => True
  | fault _ => True
  | read _ next => ∀ v, (next v).Puts P
  | write x v next => P x v ∧ next.Puts P

omit [DecidableEq κ] in
theorem Puts.mono {P P' : κ → ν → Prop} {p : Prog κ ν φ α} (h : p.Puts P)
    (hP : ∀ x v, P x v → P' x v) : p.Puts P' := by
  induction p with
  | done a => trivial
  | fault e => trivial
  | read x next ih => exact fun v => ih v (h v)
  | write x v next ih => exact ⟨hP x v h.1, ih h.2⟩

omit [DecidableEq κ] in
theorem Puts.bind {P : κ → ν → Prop} {p : Prog κ ν φ α} {f : α → Prog κ ν φ β} (hp : p.Puts P)
    (hf : ∀ a, (f a).Puts P) : (p >>= f).Puts P := by
  induction p with
  | done a => exact hf a
  | fault e => trivial
  | read x next ih => exact fun v => ih v (hp v)
  | write x v next ih => exact ⟨hp.1, ih hp.2⟩

omit [DecidableEq κ] in
theorem Puts.forWhile {P : κ → ν → Prop} {len : Prog κ ν φ Nat} {body : β → Nat → Prog κ ν φ β}
    (hlen : len.Puts P) (hbody : ∀ b i, (body b i).Puts P) (is : List Nat) (b : β) :
    (forWhile len body is b).Puts P := by
  induction is generalizing b with
  | nil => trivial
  | cons i is ih =>
    refine hlen.bind fun n => ?_
    by_cases hi : i < n
    · rw [if_pos hi]
      exact (hbody b i).bind fun b => ih b
    · rw [if_neg hi]
      trivial

/-- A program that writes nothing. -/
theorem Puts.writes_eq_nil {p : Prog κ ν φ α} (h : p.Puts fun _ _ => False)
    (m : κ → ν) : p.writes m = [] := by
  induction p with
  | done a => rfl
  | fault e => rfl
  | read x next ih => exact ih (m x) (h (m x))
  | write x v next ih => exact h.1.elim

end Prog

end Store
