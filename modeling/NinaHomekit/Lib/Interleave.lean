import NinaHomekit.Lib.Access
import NinaHomekit.Lib.Store

/-!
# Programs that take turns

Two programs that access one store, access by access.  When no access of the one comes behind one
of the other to the same cell, the run is one program after the other.

* `Does`, `Within` — the accesses of a run of a program, whatever it reads, and where they all are.
* `Alike` — two programs that differ only in cells that are left out.
* `accesses`, `parAccesses` — the accesses of a program, and those of `par`.
* `Shares`, `exists_shares` — what each of the two programs does in a run of both.
* `eq_of_ordered`, `eq_of_lost` — **the first program first**, up to a part that is lost.
-/

namespace Store

open Function

variable {κ ν φ α β : Type}

/-! ## Runs of a program -/

namespace Prog

/-- The accesses of a run of a program, whatever its reads return, and its result. -/
inductive Does : Prog κ ν φ α → List (Access κ ν) → Except φ α → Prop where
  | done (a : α) : Does (done a) [] (.ok a)
  | fault (e : φ) : Does (fault e) [] (.error e)
  | read {x : κ} {next : ν → Prog κ ν φ α} {v : ν} {as : List (Access κ ν)} {r : Except φ α}
    (h : Does (next v) as r) : Does (read x next) (.read x v :: as) r
  | write {x : κ} {v : ν} {next : Prog κ ν φ α} {as : List (Access κ ν)} {r : Except φ α}
    (h : Does next as r) : Does (write x v next) (.write x v :: as) r

variable {p p' : Prog κ ν φ α} {f f' : α → Prog κ ν φ β} {as : List (Access κ ν)}

/-- **A run of two programs**: the first faults, or the second goes on. -/
theorem Does.of_bind {r : Except φ β} (h : Does (p >>= f) as r) :
    (∃ e, Does p as (.error e) ∧ r = .error e) ∨
      ∃ bs cs a, as = bs ++ cs ∧ Does p bs (.ok a) ∧ Does (f a) cs r := by
  induction p generalizing as with
  | done a => exact Or.inr ⟨[], as, a, rfl, .done a, h⟩
  | fault e =>
    cases h
    exact Or.inl ⟨e, .fault e, rfl⟩
  | read x next ih =>
    cases h with
    | read h =>
      rcases ih _ h with ⟨e, he, rfl⟩ | ⟨bs, cs, a, rfl, hp, hf⟩
      · exact Or.inl ⟨e, .read he, rfl⟩
      · exact Or.inr ⟨_ :: bs, cs, a, rfl, .read hp, hf⟩
  | write x v next ih =>
    cases h with
    | write h =>
      rcases ih h with ⟨e, he, rfl⟩ | ⟨bs, cs, a, rfl, hp, hf⟩
      · exact Or.inl ⟨e, .write he, rfl⟩
      · exact Or.inr ⟨_ :: bs, cs, a, rfl, .write hp, hf⟩

theorem Does.of_read {x : κ} {next : ν → Prog κ ν φ α} {r : Except φ α}
    (h : Does (Prog.read x next) as r) :
    ∃ v bs, as = .read x v :: bs ∧ Does (next v) bs r := by
  cases h with
  | read h => exact ⟨_, _, rfl, h⟩

theorem Does.of_write {x : κ} {v : ν} {next : Prog κ ν φ α} {r : Except φ α}
    (h : Does (Prog.write x v next) as r) :
    ∃ bs, as = .write x v :: bs ∧ Does next bs r := by
  cases h with
  | write h => exact ⟨_, rfl, h⟩

/-- A program that does not fault, and whose accesses are all to cells with `P`. -/
def Within (P : κ → Prop) : Prog κ ν φ α → Prop
  | done _ => True
  | fault _ => False
  | read x next => P x ∧ ∀ v, (next v).Within P
  | write x _ next => P x ∧ next.Within P

theorem Within.mono {P P' : κ → Prop} (hp : p.Within P) (h : ∀ x, P x → P' x) : p.Within P' := by
  induction p with
  | done a => trivial
  | fault e => exact hp.elim
  | read x next ih => exact ⟨h x hp.1, fun v => ih v (hp.2 v)⟩
  | write x v next ih => exact ⟨h x hp.1, ih hp.2⟩

theorem Within.bind {P : κ → Prop} (hp : p.Within P) (hf : ∀ a, (f a).Within P) :
    (p >>= f).Within P := by
  induction p with
  | done a => exact hf a
  | fault e => exact hp.elim
  | read x next ih => exact ⟨hp.1, fun v => ih v (hp.2 v)⟩
  | write x v next ih => exact ⟨hp.1, ih hp.2⟩

theorem Within.forWhile {P : κ → Prop} {len : Prog κ ν φ Nat} {body : β → Nat → Prog κ ν φ β}
    (hlen : len.Within P) (hbody : ∀ b i, (body b i).Within P) (is : List Nat) (b : β) :
    (forWhile len body is b).Within P := by
  induction is generalizing b with
  | nil => trivial
  | cons i is ih =>
    refine hlen.bind fun n => ?_
    by_cases hi : i < n
    · rw [if_pos hi]
      exact (hbody b i).bind ih
    · rw [if_neg hi]
      trivial

theorem Does.within {P : κ → Prop} {r : Except φ α} (h : Does p as r) (hp : p.Within P) :
    (∃ a, r = .ok a) ∧ ∀ a ∈ as, P a.cell := by
  induction h with
  | done a => exact ⟨⟨a, rfl⟩, by simp⟩
  | fault e => exact hp.elim
  | read _ ih => exact ⟨(ih (hp.2 _)).1, List.forall_mem_cons.2 ⟨hp.1, (ih (hp.2 _)).2⟩⟩
  | write _ ih => exact ⟨(ih hp.2).1, List.forall_mem_cons.2 ⟨hp.1, (ih hp.2).2⟩⟩

/-- A program that does not fault and writes nothing, and reads only cells with `P`. -/
def Looks (P : κ → Prop) : Prog κ ν φ α → Prop
  | done _ => True
  | fault _ => False
  | read x next => P x ∧ ∀ v, (next v).Looks P
  | write _ _ _ => False

theorem Looks.within {P : κ → Prop} (h : p.Looks P) : p.Within P := by
  induction p with
  | done a => trivial
  | fault e => exact h.elim
  | read x next ih => exact ⟨h.1, fun v => ih v (h.2 v)⟩
  | write x v next ih => exact h.elim

theorem Does.looks {P : κ → Prop} {r : Except φ α} (h : Does p as r) (hp : p.Looks P) :
    ∀ a ∈ as, P a.cell ∧ a.isWrite = false := by
  induction h with
  | done a => simp
  | fault e => simp
  | read _ ih => exact List.forall_mem_cons.2 ⟨⟨hp.1, rfl⟩, ih (hp.2 _)⟩
  | write _ ih => exact hp.elim

/-- The writes of a run. -/
theorem Does.puts {P : κ → ν → Prop} {r : Except φ α} (h : Does p as r) (hp : p.Puts P) {x : κ}
    {v : ν} (hmem : .write x v ∈ as) : P x v := by
  induction h with
  | done a => cases hmem
  | fault e => cases hmem
  | read _ ih => exact ih (hp _) (by simpa using hmem)
  | write _ ih =>
    rcases List.mem_cons.1 hmem with heq | hmem
    · cases heq
      exact hp.1
    · exact ih hp.2 hmem

/-- A run of two programs, the first of which does not fault. -/
theorem Does.of_bind_within {P : κ → Prop} {r : Except φ β} (h : Does (p >>= f) as r)
    (hp : p.Within P) :
    ∃ bs cs a, as = bs ++ cs ∧ Does p bs (.ok a) ∧ (∀ b ∈ bs, P b.cell) ∧ Does (f a) cs r := by
  rcases h.of_bind with ⟨e, he, -⟩ | ⟨bs, cs, a, rfl, hbs, hcs⟩
  · obtain ⟨⟨a, ha⟩, -⟩ := he.within hp
    cases ha
  · exact ⟨bs, cs, a, rfl, hbs, (hbs.within hp).2, hcs⟩

/-! ## Programs that differ only in cells that are left out -/

/-- The programs do the same, up to the values in cells outside `S`. -/
inductive Alike (S : Set κ) : Prog κ ν φ α → Prog κ ν φ α → Prop where
  | done (a : α) : Alike S (done a) (done a)
  | fault (e : φ) : Alike S (fault e) (fault e)
  | read {x : κ} {next next' : ν → Prog κ ν φ α} (hx : x ∈ S)
    (h : ∀ v, Alike S (next v) (next' v)) : Alike S (read x next) (read x next')
  | write {x : κ} {v : ν} {next next' : Prog κ ν φ α} (h : Alike S next next') :
    Alike S (write x v next) (write x v next')
  | readOut {x : κ} {next next' : ν → Prog κ ν φ α} (hx : x ∉ S)
    (h : ∀ v v', Alike S (next v) (next' v')) : Alike S (read x next) (read x next')
  | writeOut {x : κ} {v v' : ν} {next next' : Prog κ ν φ α} (hx : x ∉ S)
    (h : Alike S next next') : Alike S (write x v next) (write x v' next')

variable {S : Set κ}

theorem Alike.bind (hp : Alike S p p') (hf : ∀ a, Alike S (f a) (f' a)) :
    Alike S (p >>= f) (p' >>= f') := by
  induction hp with
  | done a => exact hf a
  | fault e => exact .fault e
  | read hx _ ih => exact .read hx ih
  | write _ ih => exact .write ih
  | readOut hx _ ih => exact .readOut hx ih
  | writeOut hx _ ih => exact .writeOut hx ih

theorem Within.alike (hp : p.Within (· ∈ S)) : Alike S p p := by
  induction p with
  | done a => exact .done a
  | fault e => exact .fault e
  | read x next ih => exact .read hp.1 fun v => ih v (hp.2 v)
  | write x v next ih => exact .write (ih hp.2)

section Eval

variable [DecidableEq κ] {q : Prog κ ν φ β} {m m₁ m' : κ → ν}

/-- The accesses of a program on its own. -/
def accesses : Prog κ ν φ α → (κ → ν) → List (Access κ ν)
  | done _, _ => []
  | fault _, _ => []
  | read x next, m => .read x (m x) :: (next (m x)).accesses m
  | write x v next, m => .write x v :: next.accesses (update m x v)

theorem accesses_spec (p : Prog κ ν φ α) (m : κ → ν) (S : Set κ) :
    ∃ r, Does p (p.accesses m) r ∧ Fit S m (p.accesses m) ∧
      ∀ a, r = .ok a → p.eval m = .ok (a, after m (p.accesses m)) := by
  induction p generalizing m with
  | done a =>
    refine ⟨.ok a, .done a, trivial, ?_⟩
    rintro _ ⟨⟩
    rfl
  | fault e =>
    refine ⟨.error e, .fault e, trivial, ?_⟩
    rintro _ ⟨⟩
  | read x next ih =>
    obtain ⟨r, hdoes, hfit, heval⟩ := ih (m x) m
    exact ⟨r, .read hdoes, ⟨fun _ => rfl, hfit⟩, heval⟩
  | write x v next ih =>
    obtain ⟨r, hdoes, hfit, heval⟩ := ih (update m x v)
    exact ⟨r, .write hdoes, ⟨trivial, hfit⟩, heval⟩

theorem accesses_bind_of_ok {a : α} (h : p.eval m = .ok (a, m')) (f : α → Prog κ ν φ β) :
    (p >>= f).accesses m = p.accesses m ++ (f a).accesses m' := by
  induction p generalizing m with
  | done b =>
    cases h
    rfl
  | fault e => cases h
  | read x next ih => exact congrArg (_ :: ·) (ih (m x) h)
  | write x v next ih => exact congrArg (_ :: ·) (ih h)

/-- A run whose reads read what is there is the run of the program, up to the cells that are left
out. -/
theorem Does.eq_of_eval {r : Except φ α} {a : α} (h : Does p as r) (halike : Alike S p p')
    (hfit : Fit S m as) (hm : Set.EqOn m m₁ S) (heval : p'.eval m₁ = .ok (a, m')) :
    r = .ok a ∧ Set.EqOn (after m as) m' S ∧
      as.map Access.cell = (p'.accesses m₁).map Access.cell := by
  induction halike generalizing as m m₁ with
  | done b =>
    cases h
    cases heval
    exact ⟨rfl, hm, rfl⟩
  | fault e => cases heval
  | read hx _ ih =>
    cases h with
    | read h =>
      obtain ⟨hv, hrest⟩ := hfit
      obtain rfl := (hv hx).symm.trans (hm hx)
      obtain ⟨hr, hend, hcells⟩ := ih _ h hrest hm heval
      exact ⟨hr, hend, List.cons_eq_cons.2 ⟨rfl, hcells⟩⟩
  | write _ ih =>
    cases h with
    | write h =>
      obtain ⟨hr, hend, hcells⟩ := ih h hfit.2 (Access.eqOn_apply hm (.write _ _)) heval
      exact ⟨hr, hend, List.cons_eq_cons.2 ⟨rfl, hcells⟩⟩
  | readOut hx _ ih =>
    cases h with
    | read h =>
      obtain ⟨hr, hend, hcells⟩ := ih _ _ h hfit.2 hm heval
      exact ⟨hr, hend, List.cons_eq_cons.2 ⟨rfl, hcells⟩⟩
  | @writeOut x v v' next next' hx _ ih =>
    cases h with
    | write h =>
      have hm' : Set.EqOn ((Access.write x v).apply m) (update m₁ x v') S := by
        intro y hy
        have hyx : y ≠ x := fun heq => hx (heq ▸ hy)
        simp only [Access.apply, update_of_ne hyx, hm hy]
      obtain ⟨hr, hend, hcells⟩ := ih h hfit.2 hm' heval
      exact ⟨hr, hend, List.cons_eq_cons.2 ⟨rfl, hcells⟩⟩

/-! ## Runs of two programs -/

/-- The accesses of two programs that take turns, with the program that makes each, as in `par`.
A program that faults makes no more. -/
def parAccesses : List Bool → Prog κ ν φ α → Prog κ ν φ β → (κ → ν) → List (Bool × Access κ ν)
  | [], p, q, m => (p.accesses m).map (true, ·) ++
      (q.accesses (after m (p.accesses m))).map (false, ·)
  | true :: _, done _, q, m => (q.accesses m).map (false, ·)
  | true :: _, fault _, q, m => (q.accesses m).map (false, ·)
  | true :: turns, read x next, q, m =>
      (true, .read x (m x)) :: parAccesses turns (next (m x)) q m
  | true :: turns, write x v next, q, m =>
      (true, .write x v) :: parAccesses turns next q (update m x v)
  | false :: _, p, done _, m => (p.accesses m).map (true, ·)
  | false :: _, p, fault _, m => (p.accesses m).map (true, ·)
  | false :: turns, p, read x next, m =>
      (false, .read x (m x)) :: parAccesses turns p (next (m x)) m
  | false :: turns, p, write x v next, m =>
      (false, .write x v) :: parAccesses turns p next (update m x v)

/-- What two programs do that take turns: each does what it does on its own with what it reads,
and when none of them faults, that is the run. -/
structure Shares (S : Set κ) (turns : List Bool) (p : Prog κ ν φ α) (q : Prog κ ν φ β) (m : κ → ν)
    (r : Except φ α) (r' : Except φ β) : Prop where
  left : Does p (part id (parAccesses turns p q m)) r
  right : Does q (part not (parAccesses turns p q m)) r'
  fit : Fit S m ((parAccesses turns p q m).map Prod.snd)
  eval_eq : ∀ a b, r = .ok a → r' = .ok b →
    (par turns p q).eval m = .ok ((a, b), after m ((parAccesses turns p q m).map Prod.snd))

variable {turns : List Bool} {r : Except φ α} {r' : Except φ β}

/-- The rest of a run, when the first program is done. -/
theorem shares_right (hp : Does p [] r)
    (hpar : ∀ a, r = .ok a → par turns p q = q >>= fun b => done (a, b))
    (hacc : parAccesses turns p q m = (q.accesses m).map (false, ·)) (S : Set κ) :
    ∃ r', Shares S turns p q m r r' := by
  obtain ⟨r', hdoes, hfit, heval⟩ := q.accesses_spec m S
  have hleft : part id (parAccesses turns p q m) = [] := by rw [hacc, part_map_of_neg rfl]
  have hmap : (parAccesses turns p q m).map Prod.snd = q.accesses m := by
    rw [hacc, List.map_map]
    exact List.map_id _
  refine ⟨r', by rwa [hleft], by rwa [hacc, part_map_of_pos rfl], by rwa [hmap], fun a b ha hb => ?_⟩
  rw [hpar a ha, eval_bind_of_ok (heval b hb), hmap]
  rfl

/-- The same for the second program. -/
theorem shares_left (hq : Does q [] r')
    (hpar : ∀ b, r' = .ok b → par turns p q = p >>= fun a => done (a, b))
    (hacc : parAccesses turns p q m = (p.accesses m).map (true, ·)) (S : Set κ) :
    ∃ r, Shares S turns p q m r r' := by
  obtain ⟨r, hdoes, hfit, heval⟩ := p.accesses_spec m S
  have hright : part not (parAccesses turns p q m) = [] := by
    rw [hacc, part_map_of_neg rfl]
  have hmap : (parAccesses turns p q m).map Prod.snd = p.accesses m := by
    rw [hacc, List.map_map]
    exact List.map_id _
  refine ⟨r, by rwa [hacc, part_map_of_pos rfl], by rwa [hright], by rwa [hmap], fun a b ha hb => ?_⟩
  rw [hpar b hb, eval_bind_of_ok (heval a ha), hmap]
  rfl

/-- **Every run of two programs** is shared so.  Induction on the schedule. -/
theorem exists_shares (S : Set κ) (turns : List Bool) (p : Prog κ ν φ α) (q : Prog κ ν φ β)
    (m : κ → ν) : ∃ r r', Shares S turns p q m r r' := by
  induction turns generalizing p q m with
  | nil =>
    obtain ⟨r, hp, hpfit, hpeval⟩ := p.accesses_spec m S
    obtain ⟨r', hq, hqfit, hqeval⟩ := q.accesses_spec (after m (p.accesses m)) S
    have hmap : (parAccesses [] p q m).map Prod.snd =
        p.accesses m ++ q.accesses (after m (p.accesses m)) := by
      simp [parAccesses]
    refine ⟨r, r', ⟨?_, ?_, ?_, fun a b ha hb => ?_⟩⟩
    · rwa [parAccesses, part_append, part_map_of_pos rfl, part_map_of_neg rfl, List.append_nil]
    · rwa [parAccesses, part_append, part_map_of_neg rfl, part_map_of_pos rfl, List.nil_append]
    · rw [hmap]
      exact fit_append.2 ⟨hpfit, hqfit⟩
    · rw [par, eval_bind_of_ok (hpeval a ha), eval_bind_of_ok (hqeval b hb), hmap, after_append]
      rfl
  | cons turn turns ih =>
    cases turn with
    | true =>
      cases p with
      | done a =>
        have hacc : parAccesses (true :: turns) (done a) q m = (q.accesses m).map (false, ·) := rfl
        obtain ⟨r', h⟩ := shares_right (.done a) (by rintro _ ⟨⟩; rfl) hacc S
        exact ⟨_, r', h⟩
      | fault e =>
        have hacc : parAccesses (true :: turns) (fault e : Prog κ ν φ α) q m =
          (q.accesses m).map (false, ·) := rfl
        obtain ⟨r', h⟩ := shares_right (.fault e) (by rintro _ ⟨⟩) hacc S
        exact ⟨_, r', h⟩
      | read x next =>
        obtain ⟨r, r', h⟩ := ih (next (m x)) q m
        refine ⟨r, r', ⟨?_, ?_, ⟨fun _ => rfl, h.fit⟩, h.eval_eq⟩⟩
        · rw [parAccesses, part_cons_of_pos rfl]
          exact .read h.left
        · rw [parAccesses, part_cons_of_neg rfl]
          exact h.right
      | write x v next =>
        obtain ⟨r, r', h⟩ := ih next q (update m x v)
        refine ⟨r, r', ⟨?_, ?_, ⟨trivial, h.fit⟩, h.eval_eq⟩⟩
        · rw [parAccesses, part_cons_of_pos rfl]
          exact .write h.left
        · rw [parAccesses, part_cons_of_neg rfl]
          exact h.right
    | false =>
      cases q with
      | done b =>
        have hacc : parAccesses (false :: turns) p (done b) m = (p.accesses m).map (true, ·) := rfl
        obtain ⟨r, h⟩ := shares_left (.done b) (by rintro _ ⟨⟩; rfl) hacc S
        exact ⟨r, _, h⟩
      | fault e =>
        have hacc : parAccesses (false :: turns) p (fault e : Prog κ ν φ β) m =
          (p.accesses m).map (true, ·) := rfl
        obtain ⟨r, h⟩ := shares_left (.fault e) (by rintro _ ⟨⟩) hacc S
        exact ⟨r, _, h⟩
      | read x next =>
        obtain ⟨r, r', h⟩ := ih p (next (m x)) m
        refine ⟨r, r', ⟨?_, ?_, ⟨fun _ => rfl, h.fit⟩, h.eval_eq⟩⟩
        · rw [parAccesses, part_cons_of_neg rfl]
          exact h.left
        · rw [parAccesses, part_cons_of_pos rfl]
          exact .read h.right
      | write x v next =>
        obtain ⟨r, r', h⟩ := ih p next (update m x v)
        refine ⟨r, r', ⟨?_, ?_, ⟨trivial, h.fit⟩, h.eval_eq⟩⟩
        · rw [parAccesses, part_cons_of_neg rfl]
          exact h.left
        · rw [parAccesses, part_cons_of_pos rfl]
          exact .write h.right

/-! ## One program after the other -/

/-- **The first program first**, if none of its accesses comes behind one of the other to the same
cell. -/
theorem eq_of_ordered {τ : Type} {t : List (τ × Access κ ν)} {f : τ → Bool} {a : α} {b : β}
    {m₂ : κ → ν} (hfit : Fit S m (t.map Prod.snd)) (hord : Ordered S f t)
    (hp : Does p (part f t) r) (hq : Does q (part (fun s => !f s) t) r') (hlike : Alike S p p)
    (hlike' : Alike S q q) (heval : p.eval m = .ok (a, m₁)) (heval' : q.eval m₁ = .ok (b, m₂)) :
    r = .ok a ∧ r' = .ok b ∧ Set.EqOn (after m (t.map Prod.snd)) m₂ S := by
  obtain ⟨hfit', heq⟩ := Fit.parts hord hfit
  rw [fit_append] at hfit'
  rw [after_append] at heq
  obtain ⟨rfl, hm₁, -⟩ := hp.eq_of_eval hlike hfit'.1 (fun _ _ => rfl) heval
  obtain ⟨rfl, hm₂, -⟩ := hq.eq_of_eval hlike' hfit'.2 hm₁ heval'
  exact ⟨rfl, rfl, heq.trans hm₂⟩

/-- **The first program first, up to a part that is lost**: `q` is what the second program does
besides that part.  The store that is left is theirs, on the cells that they access. -/
theorem eq_of_lost {τ : Type} {t : List (τ × Access κ ν)} {keep f : τ → Bool} {a : α} {b : β}
    {m₂ : κ → ν} (hfit : Fit S m (t.map Prod.snd)) (hlost : Lost S keep m t)
    (hord : Ordered S f (t.filter fun a => keep a.1))
    (hp : Does p (part f (t.filter fun a => keep a.1)) r)
    (hq : Does q (part (fun s => !f s) (t.filter fun a => keep a.1)) r') (hlike : Alike S p p)
    (hlike' : Alike S q q) (heval : p.eval m = .ok (a, m₁)) (heval' : q.eval m₁ = .ok (b, m₂)) :
    r = .ok a ∧ r' = .ok b ∧ ∀ x ∈ S,
      x ∈ (p.accesses m).map Access.cell ++ (q.accesses m₁).map Access.cell →
        after m (t.map Prod.snd) x = m₂ x := by
  obtain ⟨hkept, hsame⟩ := Fit.kept hlost hfit
  obtain ⟨hfit', heq⟩ := Fit.parts hord hkept
  rw [fit_append] at hfit'
  rw [after_append] at heq
  obtain ⟨rfl, hm₁, hcells⟩ := hp.eq_of_eval hlike hfit'.1 (fun _ _ => rfl) heval
  obtain ⟨rfl, hm₂, hcells'⟩ := hq.eq_of_eval hlike' hfit'.2 hm₁ heval'
  refine ⟨rfl, rfl, fun x hx hacc => ?_⟩
  rw [← hcells, ← hcells'] at hacc
  have hkeep : ∃ c ∈ part keep t, c.cell = x := by
    rcases List.mem_append.1 hacc with hacc | hacc
    · obtain ⟨c, hc, rfl⟩ := List.mem_map.1 hacc
      obtain ⟨s, -, hmem⟩ := mem_part.1 hc
      exact ⟨c, List.mem_map.2 ⟨_, hmem, rfl⟩, rfl⟩
    · obtain ⟨c, hc, rfl⟩ := List.mem_map.1 hacc
      obtain ⟨s, -, hmem⟩ := mem_part.1 hc
      exact ⟨c, List.mem_map.2 ⟨_, hmem, rfl⟩, rfl⟩
  rw [hsame x hx hkeep]
  exact (heq hx).trans (hm₂ hx)

end Eval

end Prog

end Store
