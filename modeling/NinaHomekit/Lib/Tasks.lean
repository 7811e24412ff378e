import NinaHomekit.Lib.Store

/-!
# Tasks that share a store and variables

A task reads and writes the cells of a store one at a time, and looks at some variables and changes
them.  Between any two of its steps other tasks may come.  Each access is of a part of the task,
and the store has a note beside each cell of the part that wrote it last.

* `Task`, `Shared` — a task, and what the tasks share; `Task.step` is its next step, and
  `Task.eval` the whole task when no other comes between.
* `Prog.inTask` — a program over the store as a part of a task.
* `Rules` — what the others may do between two steps of a task, what its reads may rely on, what
  its writes must meet, and what its steps must keep.
* `Safe` — a task that meets the rules wherever others come between, and the result it then has;
  `Safe.bind`, `safe_inTask` take a task apart, and `Safe.step` is **one step of a safe task**.
-/

namespace Store

open Function

/-- A task: its steps, or a fault. -/
inductive Task (κ ν ρ ℓ φ α : Type) where
  | done (a : α)
  | fault (f : φ)
  | read (part : ℓ) (x : κ) (next : ν → Task κ ν ρ ℓ φ α)
  | write (part : ℓ) (x : κ) (v : ν) (next : Task κ ν ρ ℓ φ α)
  | look (next : ρ → Task κ ν ρ ℓ φ α)
  | change (f : ρ → ρ) (next : Task κ ν ρ ℓ φ α)

/-- What the tasks share: the store, the part that wrote each cell last, and the variables. -/
structure Shared (κ ν ρ ℓ : Type) where
  store : κ → ν
  author : κ → Option ℓ
  vars : ρ

namespace Shared

variable {κ ν ρ ℓ : Type}

/-- The variables are changed. -/
def setVars (s : Shared κ ν ρ ℓ) (f : ρ → ρ) : Shared κ ν ρ ℓ := { s with vars := f s.vars }

variable [DecidableEq κ]

/-- A cell is written by a part of a task. -/
def put (s : Shared κ ν ρ ℓ) (part : ℓ) (x : κ) (v : ν) : Shared κ ν ρ ℓ :=
  { s with store := update s.store x v, author := update s.author x (some part) }

@[simp] theorem store_put (s : Shared κ ν ρ ℓ) (part : ℓ) (x : κ) (v : ν) :
    (s.put part x v).store = update s.store x v := rfl

@[simp] theorem vars_put (s : Shared κ ν ρ ℓ) (part : ℓ) (x : κ) (v : ν) :
    (s.put part x v).vars = s.vars := rfl

/-- Some cells are written by a part of a task. -/
def putAll (s : Shared κ ν ρ ℓ) (part : ℓ) (ws : List (κ × ν)) : Shared κ ν ρ ℓ :=
  ws.foldl (fun s w => s.put part w.1 w.2) s

@[simp] theorem putAll_nil (s : Shared κ ν ρ ℓ) (part : ℓ) : s.putAll part [] = s := rfl

@[simp] theorem putAll_cons (s : Shared κ ν ρ ℓ) (part : ℓ) (w : κ × ν) (ws : List (κ × ν)) :
    s.putAll part (w :: ws) = (s.put part w.1 w.2).putAll part ws := rfl

@[simp] theorem store_putAll (s : Shared κ ν ρ ℓ) (part : ℓ) (ws : List (κ × ν)) :
    (s.putAll part ws).store = Prog.putAll s.store ws := by
  induction ws generalizing s with
  | nil => rfl
  | cons w ws ih => simp [ih]

@[simp] theorem vars_putAll (s : Shared κ ν ρ ℓ) (part : ℓ) (ws : List (κ × ν)) :
    (s.putAll part ws).vars = s.vars := by
  induction ws generalizing s with
  | nil => rfl
  | cons w ws ih => simp [ih]

/-- A cell that no write is to keeps its author. -/
theorem author_putAll_of_notMem {s : Shared κ ν ρ ℓ} {part : ℓ} {ws : List (κ × ν)} {x : κ}
    (h : ∀ w ∈ ws, w.1 ≠ x) : (s.putAll part ws).author x = s.author x := by
  induction ws generalizing s with
  | nil => rfl
  | cons w ws ih =>
    rw [putAll_cons, ih fun v hv => h v (List.mem_cons_of_mem _ hv)]
    exact update_of_ne (h w (by simp)).symm _ _

/-- A cell that is written has the part for its author. -/
theorem author_putAll_of_mem {s : Shared κ ν ρ ℓ} {part : ℓ} {ws : List (κ × ν)} {x : κ}
    (h : ∃ w ∈ ws, w.1 = x) : (s.putAll part ws).author x = some part := by
  induction ws generalizing s with
  | nil => simp at h
  | cons w ws ih =>
    rw [putAll_cons]
    by_cases htail : ∃ v ∈ ws, v.1 = x
    · exact ih htail
    · obtain ⟨v, hv, rfl⟩ := h
      rcases List.mem_cons.1 hv with rfl | hv
      · rw [author_putAll_of_notMem fun u hu heq => htail ⟨u, hu, heq⟩]
        exact update_self ..
      · exact absurd ⟨v, hv, rfl⟩ htail

end Shared

namespace Task

variable {κ ν ρ ℓ φ α β : Type}

/-! ## Sequences of tasks -/

/-- One task after the other. -/
def bind : Task κ ν ρ ℓ φ α → (α → Task κ ν ρ ℓ φ β) → Task κ ν ρ ℓ φ β
  | done a, f => f a
  | fault e, _ => fault e
  | read part x next, f => read part x fun v => (next v).bind f
  | write part x v next, f => write part x v (next.bind f)
  | look next, f => look fun r => (next r).bind f
  | change g next, f => change g (next.bind f)

instance : Monad (Task κ ν ρ ℓ φ) where
  pure := done
  bind := bind

@[simp] theorem pure_eq_done (a : α) : (pure a : Task κ ν ρ ℓ φ α) = done a := rfl

theorem bind_done (p : Task κ ν ρ ℓ φ α) : p >>= done = p := by
  induction p with
  | done a => rfl
  | fault e => rfl
  | read part x next ih => exact congrArg (read part x) (funext ih)
  | write part x v next ih => exact congrArg (write part x v) ih
  | look next ih => exact congrArg look (funext ih)
  | change g next ih => exact congrArg (change g) ih

theorem bind_assoc' {γ : Type} (p : Task κ ν ρ ℓ φ α) (f : α → Task κ ν ρ ℓ φ β)
    (g : β → Task κ ν ρ ℓ φ γ) : p >>= f >>= g = p >>= fun a => f a >>= g := by
  induction p with
  | done a => rfl
  | fault e => rfl
  | read part x next ih => exact congrArg (read part x) (funext ih)
  | write part x v next ih => exact congrArg (write part x v) ih
  | look next ih => exact congrArg look (funext ih)
  | change h next ih => exact congrArg (change h) ih

instance : LawfulMonad (Task κ ν ρ ℓ φ) :=
  LawfulMonad.mk' _ (fun p => bind_done p) (fun _ _ => rfl) (fun p f g => bind_assoc' p f g)

/-- The variables. -/
def vars : Task κ ν ρ ℓ φ ρ := look done

/-- A change of the variables. -/
def modify (f : ρ → ρ) : Task κ ν ρ ℓ φ Unit := change f (done ())

/-! ## Steps -/

/-- The part and the cell of the next step, if it is a read. -/
def nextRead : Task κ ν ρ ℓ φ α → Option (ℓ × κ)
  | read part x _ => some (part, x)
  | _ => none

/-- The part, the cell and the value of the next step, if it is a write. -/
def nextWrite : Task κ ν ρ ℓ φ α → Option (ℓ × κ × ν)
  | write part x v _ => some (part, x, v)
  | _ => none

variable [DecidableEq κ]

/-- The next step of a task. -/
def step : Task κ ν ρ ℓ φ α → Shared κ ν ρ ℓ → Except φ (Task κ ν ρ ℓ φ α × Shared κ ν ρ ℓ)
  | done a, s => .ok (done a, s)
  | fault e, _ => .error e
  | read _ x next, s => .ok (next (s.store x), s)
  | write part x v next, s => .ok (next, s.put part x v)
  | look next, s => .ok (next s.vars, s)
  | change f next, s => .ok (next, s.setVars f)

/-- A task on its own: its result, and the store and the variables it leaves. -/
def eval : Task κ ν ρ ℓ φ α → (κ → ν) → ρ → Except φ (α × (κ → ν) × ρ)
  | done a, m, r => .ok (a, m, r)
  | fault e, _, _ => .error e
  | read _ x next, m, r => (next (m x)).eval m r
  | write _ x v next, m, r => next.eval (update m x v) r
  | look next, m, r => (next r).eval m r
  | change f next, m, r => next.eval m (f r)

@[simp] theorem eval_done (a : α) (m : κ → ν) (r : ρ) :
    (done a : Task κ ν ρ ℓ φ α).eval m r = .ok (a, m, r) := rfl

/-- **A task in two parts** on its own. -/
theorem eval_bind (p : Task κ ν ρ ℓ φ α) (f : α → Task κ ν ρ ℓ φ β) (m : κ → ν) (r : ρ) :
    (p >>= f).eval m r = p.eval m r >>= fun x => (f x.1).eval x.2.1 x.2.2 := by
  induction p generalizing m r with
  | done a => rfl
  | fault e => rfl
  | read part x next ih => exact ih (m x) m r
  | write part x v next ih => exact ih (update m x v) r
  | look next ih => exact ih r m r
  | change g next ih => exact ih m (g r)

theorem eval_bind_of_ok {p : Task κ ν ρ ℓ φ α} {a : α} {m m' : κ → ν} {r r' : ρ}
    (h : p.eval m r = .ok (a, m', r')) (f : α → Task κ ν ρ ℓ φ β) :
    (p >>= f).eval m r = (f a).eval m' r' := by
  rw [eval_bind, h]
  rfl

theorem eval_ite (c : Prop) [Decidable c] (p q : Task κ ν ρ ℓ φ α) (m : κ → ν) (r : ρ) :
    (if c then p else q).eval m r = if c then p.eval m r else q.eval m r := by
  by_cases h : c
  · rw [if_pos h, if_pos h]
  · rw [if_neg h, if_neg h]

end Task

/-- A program over the store as a part of a task. -/
def Prog.inTask {κ ν ρ ℓ φ α : Type} (part : ℓ) : Prog κ ν φ α → Task κ ν ρ ℓ φ α
  | done a => .done a
  | fault e => .fault e
  | read x next => .read part x fun v => (next v).inTask part
  | write x v next => .write part x v (next.inTask part)

/-- It does on its own what the program does. -/
theorem Prog.eval_inTask {κ ν ρ ℓ φ α : Type} [DecidableEq κ] (part : ℓ) (q : Prog κ ν φ α)
    (m : κ → ν) (r : ρ) : (q.inTask part : Task κ ν ρ ℓ φ α).eval m r =
      (fun x => (x.1, x.2, r)) <$> q.eval m := by
  induction q generalizing m with
  | done a => rfl
  | fault e => rfl
  | read x next ih => exact ih (m x) m
  | write x v next ih => exact ih (update m x v)

theorem Prog.eval_inTask_of_ok {κ ν ρ ℓ φ α : Type} [DecidableEq κ] {part : ℓ} {q : Prog κ ν φ α}
    {a : α} {m m' : κ → ν} (h : q.eval m = .ok (a, m')) (r : ρ) :
    (q.inTask part : Task κ ν ρ ℓ φ α).eval m r = .ok (a, m', r) := by
  rw [eval_inTask, h]
  rfl

/-! ## Rules -/

/-- What a task may rely on and what it must keep. -/
structure Rules (κ ν ρ ℓ : Type) where
  /-- What the others may do between two steps. -/
  between : Shared κ ν ρ ℓ → Shared κ ν ρ ℓ → Prop
  /-- What a read may rely on. -/
  reads : ℓ → κ → Shared κ ν ρ ℓ → Prop
  /-- What a write must meet. -/
  writes : ℓ → κ → ν → Shared κ ν ρ ℓ → Prop
  /-- What every step must keep. -/
  inv : Shared κ ν ρ ℓ → Prop
  refl_of : ∀ {s t}, between s t → between t t
  trans : ∀ {s t u}, between s t → between t u → between s u

namespace Rules

variable {κ ν ρ ℓ φ α β : Type} [DecidableEq κ] (R : Rules κ ν ρ ℓ)

/-- The task meets the rules from a state on, wherever others come between, and `Q` holds of its
result. -/
def Safe (Q : α → Shared κ ν ρ ℓ → Prop) : Task κ ν ρ ℓ φ α → Shared κ ν ρ ℓ → Prop
  | .done a, s => ∀ t, R.between s t → Q a t
  | .fault _, _ => True
  | .read part x next, s =>
    ∀ t, R.between s t → R.reads part x t → Safe Q (next (t.store x)) t
  | .write part x v next, s => ∀ t, R.between s t →
    R.writes part x v t ∧ R.inv (t.put part x v) ∧ Safe Q next (t.put part x v)
  | .look next, s => ∀ t, R.between s t → Safe Q (next t.vars) t
  | .change f next, s => ∀ t, R.between s t → R.inv (t.setVars f) ∧ Safe Q next (t.setVars f)

variable {R} {Q : α → Shared κ ν ρ ℓ → Prop} {p : Task κ ν ρ ℓ φ α} {s t : Shared κ ν ρ ℓ}

/-- A task stays safe while the others go on. -/
theorem Safe.between (h : R.Safe Q p s) (hb : R.between s t) : R.Safe Q p t := by
  cases p with
  | fault e => trivial
  | done a => exact fun u hu => h u (R.trans hb hu)
  | read part x next => exact fun u hu => h u (R.trans hb hu)
  | write part x v next => exact fun u hu => h u (R.trans hb hu)
  | look next => exact fun u hu => h u (R.trans hb hu)
  | change f next => exact fun u hu => h u (R.trans hb hu)

/-- It is enough to be safe after the others came between. -/
theorem safe_of_between (h : ∀ t, R.between s t → R.Safe Q p t) : R.Safe Q p s := by
  cases p with
  | fault e => trivial
  | done a => exact fun u hu => h u hu u (R.refl_of hu)
  | read part x next => exact fun u hu => h u hu u (R.refl_of hu)
  | write part x v next => exact fun u hu => h u hu u (R.refl_of hu)
  | look next => exact fun u hu => h u hu u (R.refl_of hu)
  | change f next => exact fun u hu => h u hu u (R.refl_of hu)

/-- **A task in two parts** is safe if the second is safe wherever the first ends. -/
theorem Safe.bind {Q' : β → Shared κ ν ρ ℓ → Prop} {f : α → Task κ ν ρ ℓ φ β}
    (h : R.Safe (fun a t => R.Safe Q' (f a) t) p s) : R.Safe Q' (p >>= f) s := by
  induction p generalizing s with
  | done a => exact safe_of_between h
  | fault e => trivial
  | read part x next ih => exact fun t ht hr => ih _ (h t ht hr)
  | write part x v next ih =>
    intro t ht
    obtain ⟨hw, hinv, hnext⟩ := h t ht
    exact ⟨hw, hinv, ih hnext⟩
  | look next ih => exact fun t ht => ih _ (h t ht)
  | change g next ih =>
    intro t ht
    obtain ⟨hinv, hnext⟩ := h t ht
    exact ⟨hinv, ih hnext⟩

theorem Safe.mono {Q' : α → Shared κ ν ρ ℓ → Prop} (h : R.Safe Q p s)
    (hQ : ∀ a t, Q a t → Q' a t) : R.Safe Q' p s := by
  induction p generalizing s with
  | done a => exact fun t ht => hQ a t (h t ht)
  | fault e => trivial
  | read part x next ih => exact fun t ht hr => ih _ (h t ht hr)
  | write part x v next ih =>
    intro t ht
    obtain ⟨hw, hinv, hnext⟩ := h t ht
    exact ⟨hw, hinv, ih hnext⟩
  | look next ih => exact fun t ht => ih _ (h t ht)
  | change g next ih =>
    intro t ht
    obtain ⟨hinv, hnext⟩ := h t ht
    exact ⟨hinv, ih hnext⟩

/-- **A program whose writes are all of one kind**, where the others may do as they like. -/
theorem safe_of_puts {part : ℓ} {P : κ → ν → Prop} {q : Prog κ ν φ α} (hq : q.Puts P)
    (h : ∀ x v t, P x v → R.between t t → R.writes part x v t ∧ R.inv (t.put part x v)) :
    R.Safe (fun _ t => R.between t t) (q.inTask part) s := by
  induction q generalizing s with
  | done a => exact fun t ht => R.refl_of ht
  | fault e => trivial
  | read x next ih => exact fun t _ _ => ih _ (hq _)
  | write x v next ih =>
    intro t ht
    obtain ⟨hw, hinv⟩ := h x v t hq.1 (R.refl_of ht)
    exact ⟨hw, hinv, ih hq.2⟩

variable (R) in
/-- The writes of a list meet the rules, one after the other, and `Q` holds behind them. -/
def PutsSafe (part : ℓ) (Q : Shared κ ν ρ ℓ → Prop) :
    List (κ × ν) → Shared κ ν ρ ℓ → Prop
  | [], s => ∀ t, R.between s t → Q t
  | w :: ws, s => ∀ t, R.between s t → R.writes part w.1 w.2 t ∧ R.inv (t.put part w.1 w.2) ∧
    PutsSafe part Q ws (t.put part w.1 w.2)

theorem PutsSafe.between {part : ℓ} {Q : Shared κ ν ρ ℓ → Prop} {ws : List (κ × ν)}
    (h : R.PutsSafe part Q ws s) (hb : R.between s t) : R.PutsSafe part Q ws t := by
  cases ws with
  | nil => exact fun u hu => h u (R.trans hb hu)
  | cons w ws => exact fun u hu => h u (R.trans hb hu)

theorem putsSafe_of_between {part : ℓ} {Q : Shared κ ν ρ ℓ → Prop} {ws : List (κ × ν)}
    (h : ∀ t, R.between s t → R.PutsSafe part Q ws t) : R.PutsSafe part Q ws s := by
  cases ws with
  | nil => exact fun u hu => h u hu u (R.refl_of hu)
  | cons w ws => exact fun u hu => h u hu u (R.refl_of hu)

theorem PutsSafe.append {part : ℓ} {Q : Shared κ ν ρ ℓ → Prop} {ws ws' : List (κ × ν)}
    (h : R.PutsSafe part (R.PutsSafe part Q ws') ws s) : R.PutsSafe part Q (ws ++ ws') s := by
  induction ws generalizing s with
  | nil => exact putsSafe_of_between h
  | cons w ws ih =>
    intro t ht
    obtain ⟨hw, hinv, hrest⟩ := h t ht
    exact ⟨hw, hinv, ih hrest⟩

/-- **A program among others that leave the store alone** makes the writes of its own run. -/
theorem safe_inTask (hstore : ∀ {s t}, R.between s t → t.store = s.store) {part : ℓ}
    {q : Prog κ ν φ α} {a : α} {m : κ → ν} (heval : q.eval s.store = .ok (a, m))
    (h : R.PutsSafe part (Q a) (q.writes s.store) s) : R.Safe Q (q.inTask part) s := by
  induction q generalizing s with
  | done b =>
    cases heval
    exact h
  | fault e => cases heval
  | read x next ih =>
    intro t ht _
    have hsame := hstore ht
    exact ih _ (hsame ▸ heval) (hsame ▸ h.between ht)
  | write x v next ih =>
    intro t ht
    obtain ⟨hw, hinv, hnext⟩ := h t ht
    have hsame := hstore ht
    refine ⟨hw, hinv, ih ?_ ?_⟩
    · rw [Shared.store_put, hsame]
      exact heval
    · rw [Shared.store_put, hsame]
      exact hnext

theorem safe_readOnly (hstore : ∀ {s t}, R.between s t → t.store = s.store) {part : ℓ}
    {q : Prog κ ν φ α} {a : α} {m : κ → ν} (hq : q.Puts fun _ _ => False)
    (heval : q.eval s.store = .ok (a, m)) (h : ∀ t, R.between s t → Q a t) :
    R.Safe Q (q.inTask part) s := by
  refine safe_inTask hstore heval ?_
  rw [hq.writes_eq_nil]
  exact h

/-- **One step of a safe task**, when no other comes between. -/
theorem Safe.step {p' : Task κ ν ρ ℓ φ α} (h : R.Safe Q p s) (hs : R.between s s)
    (hreads : ∀ part x, p.nextRead = some (part, x) → R.reads part x s) (hinv : R.inv s)
    (hstep : p.step s = .ok (p', t)) : R.Safe Q p' t ∧ R.inv t := by
  cases p with
  | done a =>
    cases hstep
    exact ⟨h, hinv⟩
  | fault e => cases hstep
  | read part x next =>
    cases hstep
    exact ⟨h s hs (hreads part x rfl), hinv⟩
  | write part x v next =>
    cases hstep
    exact (h s hs).2.symm
  | look next =>
    cases hstep
    exact ⟨h s hs, hinv⟩
  | change f next =>
    cases hstep
    exact (h s hs).symm

/-- The next write of a safe task meets the rules. -/
theorem Safe.writes {part : ℓ} {x : κ} {v : ν} (h : R.Safe Q p s) (hs : R.between s s)
    (hp : p.nextWrite = some (part, x, v)) : R.writes part x v s := by
  cases p with
  | write part' x' v' next =>
    cases hp
    exact (h s hs).1
  | _ => cases hp

end Rules

end Store
