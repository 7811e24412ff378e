import Mathlib.Data.Set.Function
import Mathlib.Tactic

/-!
# The accesses to a store

A run seen as the reads and writes that it makes, with the values that are read and written, and
each access tagged with the part of the run that it is of.  Some cells may be left out: those that
only count.

* `Access`, `after`, `Fit` — an access, the store after some, and accesses that read what is there.
* `part`, `Ordered`, `Lost` — the accesses of a part of a run, a part that comes first, and a part
  whose writes are lost.
* `Fit.parts`, `Fit.kept` — **a part that comes first can be made first, and the others can be left
  without a part that is lost.**
-/

namespace Store

open Function

variable {κ ν : Type}

/-! ## Accesses -/

/-- An access, with the value that is read or written. -/
inductive Access (κ ν : Type) where
  | read (x : κ) (v : ν)
  | write (x : κ) (v : ν)
  deriving DecidableEq

/-- The cell of an access. -/
def Access.cell : Access κ ν → κ
  | read x _ => x
  | write x _ => x

@[simp] theorem Access.cell_read (x : κ) (v : ν) : (Access.read x v).cell = x := rfl

@[simp] theorem Access.cell_write (x : κ) (v : ν) : (Access.write x v).cell = x := rfl

/-- The access is a write. -/
def Access.isWrite : Access κ ν → Bool
  | read _ _ => false
  | write _ _ => true

section Parts

variable {τ : Type} {f : τ → Bool}

/-- The accesses whose tag has `f`. -/
def part (f : τ → Bool) (t : List (τ × Access κ ν)) : List (Access κ ν) :=
  (t.filter fun a => f a.1).map Prod.snd

@[simp] theorem part_nil (f : τ → Bool) : part f ([] : List (τ × Access κ ν)) = [] := rfl

theorem part_append (f : τ → Bool) (t t' : List (τ × Access κ ν)) :
    part f (t ++ t') = part f t ++ part f t' := by
  simp [part]

theorem part_cons_of_pos {a : τ × Access κ ν} (h : f a.1 = true) (t : List (τ × Access κ ν)) :
    part f (a :: t) = a.2 :: part f t := by
  simp [part, h]

theorem part_cons_of_neg {a : τ × Access κ ν} (h : f a.1 = false) (t : List (τ × Access κ ν)) :
    part f (a :: t) = part f t := by
  simp [part, h]

theorem part_map_of_pos {s : τ} (h : f s = true) (as : List (Access κ ν)) :
    part f (as.map (s, ·)) = as := by
  induction as with
  | nil => rfl
  | cons a as ih => rw [List.map_cons, part_cons_of_pos h, ih]

theorem part_map_of_neg {s : τ} (h : f s = false) (as : List (Access κ ν)) :
    part f (as.map (s, ·)) = [] := by
  induction as with
  | nil => rfl
  | cons a as ih => rw [List.map_cons, part_cons_of_neg h, ih]

theorem mem_part {t : List (τ × Access κ ν)} {a : Access κ ν} :
    a ∈ part f t ↔ ∃ s, f s = true ∧ (s, a) ∈ t := by
  constructor
  · intro h
    obtain ⟨⟨s, b⟩, hb, rfl⟩ := List.mem_map.1 h
    obtain ⟨hmem, hs⟩ := List.mem_filter.1 hb
    exact ⟨s, hs, hmem⟩
  · rintro ⟨s, hs, hmem⟩
    exact List.mem_map.2 ⟨(s, a), List.mem_filter.2 ⟨hmem, hs⟩, rfl⟩

theorem part_filter (k : τ → Bool) (t : List (τ × Access κ ν)) :
    part f (t.filter fun a => k a.1) = part (fun s => f s && k s) t := by
  rw [part, List.filter_filter]
  rfl

/-- The parts of a run with other tags. -/
theorem part_map {σ : Type} {g : σ × Access κ ν → τ} (t : List (σ × Access κ ν)) :
    part f (t.map fun a => (g a, a.2)) = (t.filter fun a => f (g a)).map Prod.snd := by
  rw [part, List.filter_map, List.map_map]
  rfl

/-- The place in the run of an access of a part. -/
theorem exists_of_part_eq {t : List (τ × Access κ ν)} {as bs : List (Access κ ν)}
    {a : Access κ ν} (h : part f t = as ++ a :: bs) :
    ∃ u s w, t = u ++ (s, a) :: w ∧ f s = true ∧ part f u = as ∧ part f w = bs := by
  induction t generalizing as with
  | nil => simp at h
  | cons b t ih =>
    by_cases hs : f b.1 = true
    · rw [part_cons_of_pos hs] at h
      cases as with
      | nil =>
        obtain ⟨rfl, rfl⟩ := List.cons.inj h
        exact ⟨[], b.1, t, rfl, hs, rfl, rfl⟩
      | cons c as =>
        obtain ⟨rfl, htail⟩ := List.cons.inj h
        obtain ⟨u, s, w, rfl, hs', rfl, rfl⟩ := ih htail
        exact ⟨b :: u, s, w, rfl, hs', part_cons_of_pos hs _, rfl⟩
    · rw [Bool.not_eq_true] at hs
      rw [part_cons_of_neg hs] at h
      obtain ⟨u, s, w, rfl, hs', rfl, rfl⟩ := ih h
      exact ⟨b :: u, s, w, rfl, hs', part_cons_of_neg hs _, rfl⟩

end Parts

/-! ## Stores -/

section Stores

variable [DecidableEq κ] {S : Set κ} {m m' : κ → ν} {a b : Access κ ν} {as bs : List (Access κ ν)}
  {τ : Type} {f : τ → Bool} {t : List (τ × Access κ ν)}

/-- The store after an access. -/
def Access.apply (m : κ → ν) : Access κ ν → κ → ν
  | read _ _ => m
  | write x v => update m x v

theorem Access.apply_of_ne {x : κ} (h : x ≠ a.cell) : a.apply m x = m x := by
  cases a with
  | read y v => rfl
  | write y v => exact update_of_ne h _ _

/-- The store after some accesses. -/
def after (m : κ → ν) (as : List (Access κ ν)) : κ → ν := as.foldl Access.apply m

@[simp] theorem after_nil (m : κ → ν) : after m [] = m := rfl

@[simp] theorem after_cons (m : κ → ν) (a : Access κ ν) (as : List (Access κ ν)) :
    after m (a :: as) = after (a.apply m) as := rfl

theorem after_append (m : κ → ν) (as bs : List (Access κ ν)) :
    after m (as ++ bs) = after (after m as) bs := List.foldl_append

/-- A cell has what was written to it last. -/
theorem after_of_last {x : κ} {v : ν} (h : ∀ b ∈ bs, b.isWrite = true → b.cell ≠ x) :
    after m (as ++ .write x v :: bs) x = v := by
  rw [after_append, after_cons]
  induction bs using List.reverseRecOn with
  | nil => exact update_self ..
  | append_singleton bs b ih =>
    have hb := h b (by simp)
    rw [after_append, after_cons, after_nil]
    refine Eq.trans ?_ (ih fun c hc => h c (List.mem_append_left _ hc))
    cases b with
    | read y w => rfl
    | write y w => exact update_of_ne (hb rfl).symm _ _

omit [DecidableEq κ] in
/-- The last write to a cell. -/
theorem exists_last_write {x : κ} (h : ∃ s v, (s, .write x v) ∈ t) :
    ∃ u s v w, t = u ++ (s, .write x v) :: w ∧ ∀ a ∈ w, a.2.isWrite = true → a.2.cell ≠ x := by
  induction t with
  | nil =>
    obtain ⟨s, v, hmem⟩ := h
    cases hmem
  | cons a t ih =>
    by_cases hlater : ∃ s v, (s, .write x v) ∈ t
    · obtain ⟨u, s, v, w, rfl, hw⟩ := ih hlater
      exact ⟨a :: u, s, v, w, rfl, hw⟩
    · obtain ⟨s, v, hmem⟩ := h
      rcases List.mem_cons.1 hmem with rfl | hmem
      · refine ⟨[], s, v, t, rfl, ?_⟩
        rintro ⟨s', y | ⟨y, v'⟩⟩ hw hwrite rfl
        · cases hwrite
        · exact hlater ⟨s', v', hw⟩
      · exact absurd ⟨s, v, hmem⟩ hlater

/-- A read, if it is of a cell in `S`, reads what is there. -/
def Access.Fits (S : Set κ) (m : κ → ν) : Access κ ν → Prop
  | read x v => x ∈ S → m x = v
  | write _ _ => True

/-- All reads of cells in `S` read what is there. -/
def Fit (S : Set κ) : (κ → ν) → List (Access κ ν) → Prop
  | _, [] => True
  | m, a :: as => a.Fits S m ∧ Fit S (a.apply m) as

theorem Access.eqOn_apply (h : Set.EqOn m m' S) (a : Access κ ν) :
    Set.EqOn (a.apply m) (a.apply m') S := by
  cases a with
  | read x v => exact h
  | write x v =>
    intro y hy
    by_cases hyx : y = x
    · rw [hyx, Access.apply, Access.apply, update_self, update_self]
    · rw [Access.apply, Access.apply, update_of_ne hyx, update_of_ne hyx, h hy]

theorem eqOn_after (h : Set.EqOn m m' S) (as : List (Access κ ν)) :
    Set.EqOn (after m as) (after m' as) S := by
  induction as generalizing m m' with
  | nil => exact h
  | cons a as ih => exact ih (a.eqOn_apply h)

omit [DecidableEq κ] in
theorem Access.Fits.congr (h : Set.EqOn m m' S) (ha : a.Fits S m) : a.Fits S m' := by
  cases a with
  | read x v => exact fun hx => (h hx).symm.trans (ha hx)
  | write x v => trivial

theorem Fit.congr (h : Set.EqOn m m' S) (has : Fit S m as) : Fit S m' as := by
  induction as generalizing m m' with
  | nil => trivial
  | cons a as ih => exact ⟨has.1.congr h, ih (a.eqOn_apply h) has.2⟩

theorem fit_append : Fit S m (as ++ bs) ↔ Fit S m as ∧ Fit S (after m as) bs := by
  induction as generalizing m with
  | nil => exact (and_iff_right trivial).symm
  | cons a as ih =>
    rw [List.cons_append, Fit, Fit, ih, after_cons, and_assoc]

/-- What is read does not change by an access to another cell, or to one that is left out. -/
theorem Access.Fits.apply (h : b.cell ∈ S → a.cell ≠ b.cell) :
    b.Fits S (a.apply m) ↔ b.Fits S m := by
  cases b with
  | write x v => exact Iff.rfl
  | read x v =>
    cases a with
    | read y w => exact Iff.rfl
    | write y w =>
      have hyx : x ∈ S → update m y w x = m x := fun hx => update_of_ne (h hx).symm _ _
      exact forall_congr' fun hx => by rw [Access.apply, hyx hx]

/-- Accesses to different cells, up to those that are left out, change places. -/
theorem Access.apply_comm (h : a.cell ∈ S → b.cell ≠ a.cell) :
    Set.EqOn (b.apply (a.apply m)) (a.apply (b.apply m)) S := by
  cases a with
  | read x v => exact fun _ _ => rfl
  | write x v =>
    cases b with
    | read y w => exact fun _ _ => rfl
    | write y w =>
      intro z hz
      simp only [Access.apply]
      by_cases hyx : y = x
      · -- the cell is one that is left out
        have hzx : z ≠ x := fun heq => h (heq ▸ hz) hyx
        rw [update_of_ne (hyx ▸ hzx), update_of_ne hzx, update_of_ne hzx, update_of_ne (hyx ▸ hzx)]
      · rw [update_comm (Ne.symm hyx)]

/-- An access moves behind accesses to other cells. -/
theorem Fit.move (h : ∀ b ∈ as, b.cell ∈ S → a.cell ≠ b.cell) (hfit : Fit S m (a :: (as ++ bs))) :
    Fit S m (as ++ a :: bs) ∧
      Set.EqOn (after m (a :: (as ++ bs))) (after m (as ++ a :: bs)) S := by
  induction as generalizing m with
  | nil => exact ⟨hfit, fun _ _ => rfl⟩
  | cons b as ih =>
    obtain ⟨ha, hb, hrest⟩ := hfit
    have hne := h b (List.mem_cons_self ..)
    have hne' : a.cell ∈ S → b.cell ≠ a.cell := by
      intro hS heq
      exact hne (heq ▸ hS) heq.symm
    have hcomm : Set.EqOn (b.apply (a.apply m)) (a.apply (b.apply m)) S := Access.apply_comm hne'
    obtain ⟨hfit', heq⟩ := ih (fun c hc => h c (List.mem_cons_of_mem _ hc))
      (⟨(Access.Fits.apply hne').2 ha, hrest.congr hcomm⟩ : Fit S (b.apply m) (a :: (as ++ bs)))
    refine ⟨⟨(Access.Fits.apply hne).1 hb, hfit'⟩, fun x hx => ?_⟩
    rw [after_cons, List.cons_append, after_cons, eqOn_after hcomm _ hx]
    exact heq hx

/-- No access with `f` comes behind another one to the same cell. -/
def Ordered (S : Set κ) (f : τ → Bool) (t : List (τ × Access κ ν)) : Prop :=
  t.Pairwise fun a b => f a.1 = false → f b.1 = true → b.2.cell ∈ S → a.2.cell ≠ b.2.cell

instance [DecidablePred (· ∈ S)] : Decidable (Ordered S f t) :=
  inferInstanceAs (Decidable (List.Pairwise _ _))

/-- **A part that comes first** can be made first.  Induction on the run. -/
theorem Fit.parts (h : Ordered S f t) (hfit : Fit S m (t.map Prod.snd)) :
    Fit S m (part f t ++ part (fun s => !f s) t) ∧
      Set.EqOn (after m (t.map Prod.snd)) (after m (part f t ++ part (fun s => !f s) t)) S := by
  induction t generalizing m with
  | nil => exact ⟨trivial, fun _ _ => rfl⟩
  | cons a t ih =>
    obtain ⟨hhead, htail⟩ := List.pairwise_cons.1 h
    obtain ⟨ha, hrest⟩ := hfit
    obtain ⟨hfit', heq⟩ := ih htail hrest
    by_cases hs : f a.1 = true
    · rw [part_cons_of_pos hs, part_cons_of_neg (by simp [hs])]
      exact ⟨⟨ha, hfit'⟩, heq⟩
    · rw [Bool.not_eq_true] at hs
      rw [part_cons_of_neg hs, part_cons_of_pos (by simp [hs])]
      have hother : ∀ b ∈ part f t, b.cell ∈ S → a.2.cell ≠ b.cell := by
        intro b hb
        obtain ⟨s, hs', hmem⟩ := mem_part.1 hb
        exact hhead (s, b) hmem hs hs'
      have hall : Fit S m (a.2 :: (part f t ++ part (fun s => !f s) t)) := ⟨ha, hfit'⟩
      obtain ⟨hmove, heq'⟩ := Fit.move hother hall
      exact ⟨hmove, heq.trans heq'⟩

/-- **Reads can be left out.** -/
theorem Fit.filter_reads {k : τ × Access κ ν → Bool}
    (h : ∀ a ∈ t, k a = false → a.2.isWrite = false) (hfit : Fit S m (t.map Prod.snd)) :
    Fit S m ((t.filter k).map Prod.snd) ∧
      after m (t.map Prod.snd) = after m ((t.filter k).map Prod.snd) := by
  induction t generalizing m with
  | nil => exact ⟨trivial, rfl⟩
  | cons a t ih =>
    obtain ⟨ha, hrest⟩ := hfit
    obtain ⟨hhead, htail⟩ := List.forall_mem_cons.1 h
    obtain ⟨hfit', heq⟩ := ih htail hrest
    by_cases hk : k a = true
    · rw [List.filter_cons_of_pos hk]
      exact ⟨⟨ha, hfit'⟩, heq⟩
    · rw [List.filter_cons_of_neg hk]
      obtain ⟨s, b⟩ := a
      cases b with
      | read x v => exact ⟨hfit', heq⟩
      | write x v => exact absurd (hhead (Bool.not_eq_true _ ▸ hk)) (by simp [Access.isWrite])

/-- The next access with `keep` to the cell is a write. -/
def overwritten (keep : τ → Bool) (x : κ) : List (τ × Access κ ν) → Bool
  | [] => false
  | a :: t => if keep a.1 = true ∧ a.2.cell = x then a.2.isWrite else overwritten keep x t

/-- Where an access without `keep` changes a cell in `P`, it is overwritten. -/
def LostIn (keep : τ → Bool) (P : κ → Prop) : (κ → ν) → List (τ × Access κ ν) → Prop
  | _, [] => True
  | m, a :: t => (keep a.1 = false → P a.2.cell → a.2.apply m a.2.cell = m a.2.cell ∨
      overwritten keep a.2.cell t = true) ∧ LostIn keep P (a.2.apply m) t

instance LostIn.decidable [DecidableEq ν] {keep : τ → Bool} {P : κ → Prop} [DecidablePred P] :
    ∀ (m : κ → ν) (t : List (τ × Access κ ν)), Decidable (LostIn keep P m t)
  | _, [] => isTrue trivial
  | m, a :: t =>
    have : Decidable (LostIn keep P (a.2.apply m) t) := LostIn.decidable _ t
    inferInstanceAs (Decidable (_ ∧ _))

/-- The accesses without `keep` change nothing that those with it see: a cell in `S` that these
access is left as it is, or overwritten before it is read. -/
def Lost (S : Set κ) (keep : τ → Bool) (m : κ → ν) (t : List (τ × Access κ ν)) : Prop :=
  LostIn keep (fun x => x ∈ S ∧ ∃ a ∈ part keep t, a.cell = x) m t

instance [DecidableEq ν] [DecidablePred (· ∈ S)] {keep : τ → Bool} : Decidable (Lost S keep m t) :=
  have : DecidablePred fun x => x ∈ S ∧ ∃ a ∈ part keep t, a.cell = x := fun _ =>
    inferInstanceAs (Decidable (_ ∧ _))
  LostIn.decidable m t

/-- **A part that is lost** can be left out.  Induction on the run: the two stores agree on the
cells whose next access is no write. -/
theorem Fit.keptIn {keep : τ → Bool} {P : κ → Prop} {n : κ → ν} (h : LostIn keep P m t)
    (hP : ∀ a ∈ part keep t, a.cell ∈ S → P a.cell)
    (hmn : ∀ x, P x → overwritten keep x t = false → m x = n x) (hfit : Fit S m (t.map Prod.snd)) :
    Fit S n (part keep t) ∧ ∀ x, P x → after m (t.map Prod.snd) x = after n (part keep t) x := by
  induction t generalizing m n with
  | nil => exact ⟨trivial, fun x hx => hmn x hx rfl⟩
  | cons a t ih =>
    obtain ⟨hlost, hrest⟩ := h
    obtain ⟨ha, hfit⟩ := hfit
    obtain ⟨s, a⟩ := a
    by_cases hs : keep s = true
    · rw [part_cons_of_pos hs] at hP ⊢
      obtain ⟨hPa, hPt⟩ := List.forall_mem_cons.1 hP
      cases a with
      | read x v =>
        obtain ⟨hfit', heq⟩ := ih hrest hPt (fun y hy hover => hmn y hy (by
          unfold overwritten
          by_cases hyx : x = y
          · rw [if_pos ⟨hs, hyx⟩]
            rfl
          · rw [if_neg fun h => hyx h.2]
            exact hover)) hfit
        have hread : x ∈ S → n x = v := by
          intro hx
          rw [← hmn x (hPa hx) (by rw [overwritten, if_pos ⟨hs, rfl⟩]; rfl)]
          exact ha hx
        exact ⟨⟨hread, hfit'⟩, heq⟩
      | write x v =>
        obtain ⟨hfit', heq⟩ := ih (n := update n x v) hrest hPt (fun y hy hover => by
          by_cases hyx : y = x
          · rw [hyx, Access.apply, update_self, update_self]
          · rw [Access.apply, update_of_ne hyx, update_of_ne hyx]
            refine hmn y hy ?_
            rw [overwritten, if_neg fun h => hyx h.2.symm]
            exact hover) hfit
        exact ⟨⟨trivial, hfit'⟩, heq⟩
    · rw [Bool.not_eq_true] at hs
      rw [part_cons_of_neg hs] at hP ⊢
      refine ih hrest hP (fun y hy hover => ?_) hfit
      have hsame : m y = n y := by
        refine hmn y hy ?_
        rw [overwritten, if_neg fun h => by simp [hs] at h]
        exact hover
      rw [← hsame]
      by_cases hya : y = a.cell
      · subst hya
        rcases hlost hs hy with hkeep | hover'
        · exact hkeep
        · rw [hover] at hover'
          cases hover'
      · exact Access.apply_of_ne hya

theorem Fit.kept {keep : τ → Bool} (h : Lost S keep m t) (hfit : Fit S m (t.map Prod.snd)) :
    Fit S m (part keep t) ∧ ∀ x ∈ S, (∃ a ∈ part keep t, a.cell = x) →
      after m (t.map Prod.snd) x = after m (part keep t) x := by
  obtain ⟨hfit', heq⟩ :=
    Fit.keptIn (n := m) h (fun a ha hS => ⟨hS, a, ha, rfl⟩) (fun _ _ _ => rfl) hfit
  exact ⟨hfit', fun x hx hacc => heq x ⟨hx, hacc⟩⟩

end Stores

end Store
