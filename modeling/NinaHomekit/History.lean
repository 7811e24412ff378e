import NinaHomekit.HourLog
import NinaHomekit.Perioder.Alone

/-!
# The hours of a day

The hour log should hold the hours of the day of the last date record, each at most once.  Where
a record comes from is not in the EEPROM: the part that wrote its first byte last tells it.

* `HistoryOk`, `HistoryRight` — the hours that are published, while no clear is under way.
* `KeepsApart` — an update of the EEPROM is on its own.
* `HourFits` — the record of an hour comes behind earlier ones of the same day.
* `Underway`, `HistoryInv` — what is left of a task is safe, and at most one task is updating.
* `historyRight_of_fits` — **the history is right in every state of a run whose updates keep apart and
  whose records fit.**
-/

namespace NinaHomekit

open Store Trace Warehouse

/-! ## What should hold -/

/-- The hour log has hours of the day of the last date record only, and each at most once. -/
def HistoryOk (s : OnlineShared) : Prop :=
  ((hourHistory s.store).map Prod.fst).Nodup ∧
    ∀ i r, (hourHistory s.store)[i]? = some r → ∃ now, WrittenAt s i now ∧
      r.1.toNat = now.tmHour ∧ IsToday s.store now

namespace TaskState

/-- Some task is within an update of the EEPROM. -/
def updating (s : TaskState) : Bool := s.threads.any Thread.updating

/-- Some task is within `clearWarehouseData`. -/
def clearing (s : TaskState) : Bool := s.threads.any Thread.clearing

end TaskState

/-- It is so while no clear is under way: there, the record of the hour comes before that of the
date. -/
def HistoryRight (s : TaskState) : Prop := s.clearing = false → HistoryOk s.shared

theorem LogInv.historyOk {s : OnlineShared} (h : LogInv s) : HistoryOk s := by
  unfold HistoryOk
  rw [hourHistory_eq]
  constructor
  · rw [List.Nodup, List.pairwise_map]
    refine (List.pairwise_map.1 h.increasing).imp fun hlt heq => ?_
    rw [heq] at hlt
    exact lt_irrefl _ hlt
  · exact h.written

/-! ## When it does -/

/-- The next step of a task leaves `timeinfo` as it is. -/
def KeepsTime (v : OnlineVars) : OnlineTask Rest → Prop
  | .change f _ => (f v).timeinfo = v.timeinfo
  | _ => True

instance (v : OnlineVars) (p : OnlineTask Rest) : Decidable (KeepsTime v p) :=
  match p with
  | .change _ _ => inferInstanceAs (Decidable (_ = _))
  | .done _ | .fault _ | .read _ _ _ | .write _ _ _ _ | .look _ => isTrue trivial

/-- A task has found that the hour has changed, and is to record it. -/
def Thread.changed : Thread → Bool
  | .resting .changed => true
  | _ => false

/-- An update of the EEPROM begins only while no other is under way, and while one is, nothing
else changes `timeinfo`.  There is no restart within a clear. -/
def KeepsApart (s : TaskState) : TaskEvent → Prop
  | .step k => s.updating = true → ∀ th ∈ s.threads[k]?, th.updating = false →
    th.rest.updates = false ∧ KeepsTime s.vars th.task
  | .gotIp => s.updating = true → s.vars.clock = s.vars.timeinfo
  | .reboot => s.clearing = false
  | _ => True

instance (s : TaskState) (e : TaskEvent) : Decidable (KeepsApart s e) :=
  match e with
  | .step _ => inferInstanceAs (Decidable (_ → ∀ _ ∈ _, _))
  | .gotIp => inferInstanceAs (Decidable (_ → _ = _))
  | .reboot => inferInstanceAs (Decidable (_ = _))
  | .tick _ | .startClear | .setSum _ | .setInitialized _ => isTrue trivial

/-- The last record of the hour log, if any, is of an earlier hour of the same day. -/
def LastEarlier (m : Eeprom) (now : Tm) : Prop :=
  ∀ r, (hourLog m).getLast? = some r → IsToday m now ∧ r.1.toNat < now.tmHour

instance (m : Eeprom) (now : Tm) : Decidable (LastEarlier m now) :=
  decidable_of_iff ((hourLog m).getLast?.all
    (fun r => decide (IsToday m now ∧ r.1.toNat < now.tmHour)) = true)
    (by unfold LastEarlier; cases (hourLog m).getLast? <;> simp)

/-- The record of an hour other than 0 begins with an empty log, or behind a record of an earlier
hour of the same day. -/
def HourFits (s : TaskState) : TaskEvent → Prop
  | .step k => ∀ th ∈ s.threads[k]?, th.changed = true → s.vars.timeinfo.tmHour ≠ 0 →
    LastEarlier s.mem s.vars.timeinfo
  | _ => True

instance (s : TaskState) (e : TaskEvent) : Decidable (HourFits s e) :=
  match e with
  | .step _ => inferInstanceAs (Decidable (∀ _ ∈ _, _))
  | .tick _ | .gotIp | .startClear | .setSum _ | .setInitialized _ | .reboot => isTrue trivial

theorem fits_of_lastEarlier {s : OnlineShared} (h : LogInv s)
    (hlast : LastEarlier s.store s.vars.timeinfo) : Fits s := by
  refine ⟨h, fun r hr => ?_⟩
  rcases List.eq_nil_or_concat (hourLog s.store) with hnil | ⟨init, z, hlog⟩
  · rw [hnil] at hr
    cases hr
  rw [List.concat_eq_append] at hlog
  obtain ⟨htoday, hlt⟩ := hlast z (by rw [hlog, List.getLast?_concat])
  refine ⟨htoday, ?_⟩
  have hinc := h.increasing
  rw [hlog, List.map_append] at hinc
  rw [hlog] at hr
  rcases List.mem_append.1 hr with hr | hr
  · have hz : r.1.toNat < z.1.toNat := (List.pairwise_append.1 hinc).2.2 _
      (List.mem_map_of_mem hr) _ (List.mem_singleton_self _)
    exact hz.trans hlt
  · rw [List.mem_singleton.1 hr]
    exact hlt

/-! ## Tasks on their way -/

/-- A task that only looks at the variables and changes them. -/
def Quiet {α : Type} : OnlineTask α → Prop
  | .done _ => True
  | .fault _ => True
  | .read _ _ _ => False
  | .write _ _ _ _ => False
  | .look next => ∀ v, Quiet (next v)
  | .change _ next => Quiet next

theorem Quiet.step {α : Type} {p p' : OnlineTask α} {u u' : OnlineShared} (h : Quiet p)
    (hstep : p.step u = .ok (p', u')) : Quiet p' ∧ u'.store = u.store ∧ u'.author = u.author := by
  cases p with
  | done a =>
    cases hstep
    exact ⟨h, rfl, rfl⟩
  | fault e => cases hstep
  | read part x next => exact h.elim
  | write part x v next => exact h.elim
  | look next =>
    cases hstep
    exact ⟨h _, rfl, rfl⟩
  | change f next =>
    cases hstep
    exact ⟨h, rfl, rfl⟩

theorem quiet_onlinePass (previousHr : Nat) : Quiet (Perioder.onlinePass previousHr) := by
  intro v
  show Quiet (if v.moduleInitialized then _ else _)
  by_cases hinit : v.moduleInitialized = true
  swap
  · rw [if_neg hinit]
    trivial
  rw [if_pos hinit]
  intro w
  show Quiet (if w.timeinfo.tmHour ≠ previousHr then _ else _)
  by_cases hhour : w.timeinfo.tmHour ≠ previousHr
  · rw [if_pos hhour]
    trivial
  · rw [if_neg hhour]
    exact fun _ => trivial

/-- What holds of the rest `p` of a task that comes from `r`. -/
def Underway (r : Rest) (p : OnlineTask Rest) (s : OnlineShared) : Prop :=
  match r with
  | .created | .changed => (aloneRules LogInv).Safe (fun _ t => LogInv t) p s
  | .clearCreated => (aloneRules fun _ => True).Safe (fun _ t => LogInv t) p s
  | .loop _ | .ended => Quiet p

variable {r : Rest} {p p' : OnlineTask Rest} {u u' : OnlineShared} {s t : TaskState}
  {e : TaskEvent} {es : List TaskEvent}

theorem Underway.undisturbed (h : Underway r p u) (hu : r.updates = true → Undisturbed u u') :
    Underway r p u' := by
  cases r with
  | created => exact Rules.Safe.between h (hu rfl)
  | changed => exact Rules.Safe.between h (hu rfl)
  | clearCreated => exact Rules.Safe.between h (hu rfl)
  | loop previousHr => exact h
  | ended => exact h

/-- **One step of a task.** -/
theorem Underway.step (h : Underway r p u)
    (hlog : r.updates = true → r ≠ .clearCreated → LogInv u) (hstep : p.step u = .ok (p', u')) :
    Underway r p' u' ∧ (r ≠ .clearCreated → LogInv u → LogInv u') := by
  have halone : (aloneRules LogInv).Safe (fun _ t => LogInv t) p u → LogInv u →
      (aloneRules LogInv).Safe (fun _ t => LogInv t) p' u' ∧ LogInv u' := fun hsafe hu =>
    hsafe.step (.refl u) (fun _ _ _ => trivial) hu hstep
  have hquiet : Quiet p → Quiet p' ∧ (LogInv u → LogInv u') := by
    intro hq
    obtain ⟨hq', hstore, hauthor⟩ := hq.step hstep
    exact ⟨hq', fun hu => hu.of_same hstore hauthor⟩
  cases r with
  | created =>
    obtain ⟨hsafe, hu'⟩ := halone h (hlog rfl (by simp))
    exact ⟨hsafe, fun _ _ => hu'⟩
  | changed =>
    obtain ⟨hsafe, hu'⟩ := halone h (hlog rfl (by simp))
    exact ⟨hsafe, fun _ _ => hu'⟩
  | clearCreated =>
    obtain ⟨hsafe, -⟩ := Rules.Safe.step h (.refl u) (fun _ _ _ => trivial) trivial hstep
    exact ⟨hsafe, fun hne => absurd rfl hne⟩
  | loop previousHr => exact (hquiet h).imp id fun hlog _ => hlog
  | ended => exact (hquiet h).imp id fun hlog _ => hlog

/-- **What a task begins with.** -/
theorem underway_next (hlog : r.updates = true → r ≠ .clearCreated → LogInv s.shared)
    (hfits : r = .changed → s.vars.timeinfo.tmHour ≠ 0 → Fits s.shared) :
    Underway r r.next s.shared := by
  cases r with
  | created => exact Perioder.safe_onlineStart (hlog rfl (by simp))
  | changed => exact Perioder.safe_recordHour (hlog rfl (by simp)) (hfits rfl)
  | clearCreated => exact Perioder.safe_clearWarehouseData
  | loop previousHr => exact quiet_onlinePass previousHr
  | ended => trivial

/-! ## Runs -/

namespace Thread

variable {th : Thread}

theorem updating_of_clearing (h : th.clearing = true) : th.updating = true := by
  cases th with
  | resting r => cases h
  | running r p =>
    cases r with
    | clearCreated => rfl
    | _ => cases h

theorem rest_of_clearing (h : th.clearing = true) : th.rest = .clearCreated := by
  cases th with
  | resting r => cases h
  | running r p =>
    cases r with
    | clearCreated => rfl
    | _ => cases h

theorem updates_of_updating (h : th.updating = true) : th.rest.updates = true := by
  cases th with
  | resting r => cases h
  | running r p => exact h

theorem updates_of_on (h : (on r p).updating = true) : r.updates = true := by
  cases p with
  | done r' => cases h
  | _ => exact h

/-- A task on its way has begun with something, and it is not through. -/
theorem on_cases (r : Rest) (p : OnlineTask Rest) :
    (∃ r', p = .done r' ∧ on r p = .resting r') ∨ on r p = .running r p := by
  cases p with
  | done r' => exact Or.inl ⟨r', rfl, rfl⟩
  | _ => exact Or.inr rfl

end Thread

/-- The log is right while there is no clear, every task on its way is safe, and at most one is
updating. -/
structure HistoryInv (s : TaskState) : Prop where
  log : s.clearing = false → LogInv s.shared
  onWay : ∀ r p, .running r p ∈ s.threads → Underway r p s.shared
  one : ∀ (i j : Nat) (th th' : Thread), s.threads[i]? = some th → s.threads[j]? = some th' →
    th.updating = true → th'.updating = true → i = j

namespace HistoryInv

theorem historyRight (h : HistoryInv s) : HistoryRight s := fun hclear => (h.log hclear).historyOk

/-- What goes on elsewhere. -/
theorem of_threads (h : HistoryInv s) (hstore : t.shared.store = s.shared.store)
    (hauthor : t.shared.author = s.shared.author)
    (htime : s.updating = true → t.vars.timeinfo = s.vars.timeinfo)
    {l : List Rest} (hthreads : t.threads = s.threads ++ l.map .resting) : HistoryInv t := by
  have hget : ∀ {i : Nat} {th : Thread}, t.threads[i]? = some th → th.updating = true →
      s.threads[i]? = some th := by
    intro i th hi hup
    rw [hthreads, List.getElem?_append] at hi
    by_cases hlt : i < s.threads.length
    · rwa [if_pos hlt] at hi
    · rw [if_neg hlt] at hi
      obtain ⟨r, -, rfl⟩ := List.mem_map.1 (List.mem_of_getElem? hi)
      cases hup
  constructor
  · intro hclear
    have hold : s.clearing = false := by
      unfold TaskState.clearing at hclear
      rw [hthreads, List.any_append, Bool.or_eq_false_iff] at hclear
      exact hclear.1
    exact (h.log hold).of_same hstore hauthor
  · intro r p hrun
    rw [hthreads] at hrun
    rcases List.mem_append.1 hrun with hold | hnew
    · refine (h.onWay r p hold).undisturbed fun hup => ⟨hstore, hauthor, htime ?_⟩
      exact List.any_eq_true.2 ⟨_, hold, hup⟩
    · obtain ⟨r', -, heq⟩ := List.mem_map.1 hnew
      cases heq
  · intro i j th th' hi hj hth hth'
    exact h.one i j th th' (hget hi hth) (hget hj hth') hth hth'

/-- While a task updates, or is about to, the others do not. -/
theorem others (h : HistoryInv s) {k : Nat} {th : Thread} (hth : s.threads[k]? = some th)
    (hapart : KeepsApart s (.step k)) (hup : th.rest.updates = true) {j : Nat} {th' : Thread}
    (hj : s.threads[j]? = some th') (hne : j ≠ k) : th'.updating = false := by
  by_contra hup'
  rw [Bool.not_eq_false] at hup'
  have hsome : s.updating = true := List.any_eq_true.2 ⟨th', List.mem_of_getElem? hj, hup'⟩
  by_cases hth' : th.updating = true
  · exact hne (h.one j k th' th hj hth hup' hth')
  · obtain ⟨hno, -⟩ := hapart hsome th hth (Bool.not_eq_true _ ▸ hth')
    rw [hup] at hno
    cases hno

/-- The log is right before every update but a clear. -/
theorem logInv (h : HistoryInv s) {k : Nat} {th : Thread} (hth : s.threads[k]? = some th)
    (hapart : KeepsApart s (.step k)) (hup : th.rest.updates = true)
    (hne : th.rest ≠ .clearCreated) : LogInv s.shared := by
  apply h.log
  apply List.any_eq_false.2
  intro th' hmem hclear
  obtain ⟨j, hj⟩ := List.mem_iff_getElem?.1 hmem
  by_cases hjk : j = k
  · rw [hjk, hth] at hj
    cases hj
    exact hne (Thread.rest_of_clearing hclear)
  · have hno := h.others hth hapart hup hj hjk
    rw [Thread.updating_of_clearing hclear] at hno
    cases hno

/-- A step of a task that does not update changes `timeinfo` only if the task does. -/
theorem timeinfo_of_step {th : Thread} (hkeep : KeepsTime u.vars th.task)
    (hstep : th.task.step u = .ok (p, u')) : u'.vars.timeinfo = u.vars.timeinfo := by
  cases htask : th.task with
  | fault e =>
    rw [htask] at hstep
    cases hstep
  | change f next =>
    rw [htask] at hstep hkeep
    cases hstep
    exact hkeep
  | _ =>
    rw [htask] at hstep
    cases hstep
    rfl

/-- **A step of a task.** -/
theorem stepTask (h : HistoryInv s) {k : Nat} {th : Thread} (hth : s.threads[k]? = some th)
    (hapart : KeepsApart s (.step k)) (hfit : HourFits s (.step k))
    (hstep : th.task.step s.shared = .ok (p, u)) :
    HistoryInv ⟨u, s.threads.set k (.on th.rest p)⟩ := by
  have hlt : k < s.threads.length := (List.getElem?_eq_some_iff.1 hth).1
  have hnow : Underway th.rest th.task s.shared := by
    cases th with
    | running r q => exact h.onWay r q (List.mem_of_getElem? hth)
    | resting r =>
      refine underway_next (h.logInv hth hapart) fun hr h0 => ?_
      have hr : r = .changed := hr
      rw [hr] at hth
      exact fits_of_lastEarlier (h.logInv hth hapart rfl (by simp [Thread.rest])) (hfit _ hth rfl h0)
  obtain ⟨hnext, hlog⟩ := hnow.step (h.logInv hth hapart) hstep
  have hget : ∀ {j : Nat} {th' : Thread}, (s.threads.set k (.on th.rest p))[j]? = some th' →
      (j = k ∧ th' = .on th.rest p) ∨ (j ≠ k ∧ s.threads[j]? = some th') := by
    intro j th' hj
    by_cases hjk : j = k
    · rw [hjk, List.getElem?_set_self hlt] at hj
      exact Or.inl ⟨hjk, (Option.some.inj hj).symm⟩
    · rw [List.getElem?_set_ne (Ne.symm hjk)] at hj
      exact Or.inr ⟨hjk, hj⟩
  constructor
  · intro hclear
    have hclear' : ∀ th' ∈ s.threads.set k (.on th.rest p), th'.clearing ≠ true := by
      intro th' hmem
      exact List.any_eq_false.1 hclear th' hmem
    by_cases hr : th.rest = .clearCreated
    · -- the clear is through
      rcases Thread.on_cases th.rest p with ⟨r', rfl, -⟩ | hon
      · rw [hr] at hnext
        exact hnext u (.refl u)
      · refine absurd ?_ (hclear' _ (List.mem_set hlt _))
        rw [hon, hr]
        rfl
    · refine hlog hr (h.log (List.any_eq_false.2 fun th' hmem => ?_))
      obtain ⟨j, hj⟩ := List.mem_iff_getElem?.1 hmem
      by_cases hjk : j = k
      · rw [hjk, hth] at hj
        cases hj
        exact fun hclear => hr (Thread.rest_of_clearing hclear)
      · apply hclear'
        apply List.mem_of_getElem? (i := j)
        rw [List.getElem?_set_ne (Ne.symm hjk), hj]
  · intro r q hrun
    obtain ⟨j, hj⟩ := List.mem_iff_getElem?.1 hrun
    rcases hget hj with ⟨-, heq⟩ | ⟨hne, hj⟩
    · rcases Thread.on_cases th.rest p with ⟨r', -, hon⟩ | hon
      · rw [hon] at heq
        cases heq
      · rw [hon] at heq
        cases heq
        exact hnext
    · -- the others go on with what they were doing
      refine (h.onWay r q (List.mem_of_getElem? hj)).undisturbed fun hup => ?_
      have hno : th.rest.updates = false := by
        by_contra hyes
        rw [Bool.not_eq_false] at hyes
        have hother := h.others hth hapart hyes hj hne
        rw [show (Thread.running r q).updating = true from hup] at hother
        cases hother
      have hsome : s.updating = true := List.any_eq_true.2 ⟨_, List.mem_of_getElem? hj, hup⟩
      have hrest : th.updating = false := by
        by_contra hyes
        rw [Bool.not_eq_false] at hyes
        rw [Thread.updates_of_updating hyes] at hno
        cases hno
      have hquiet : Quiet th.task := by
        generalize th.rest = r' at hno hnow
        cases r' with
        | loop previousHr => exact hnow
        | ended => exact hnow
        | _ => cases hno
      obtain ⟨-, hstore, hauthor⟩ := hquiet.step hstep
      exact ⟨hstore, hauthor, timeinfo_of_step (hapart hsome th hth hrest).2 hstep⟩
  · intro i j th₁ th₂ hi hj h₁ h₂
    rcases hget hi with ⟨hik, heq⟩ | ⟨hik, hi'⟩
    · rcases hget hj with ⟨hjk, -⟩ | ⟨hjk, hj'⟩
      · rw [hik, hjk]
      · have hother := h.others hth hapart (Thread.updates_of_on (heq ▸ h₁)) hj' hjk
        rw [h₂] at hother
        cases hother
    · rcases hget hj with ⟨hjk, heq⟩ | ⟨hjk, hj'⟩
      · have hother := h.others hth hapart (Thread.updates_of_on (heq ▸ h₂)) hi' hik
        rw [h₁] at hother
        cases hother
      · exact h.one i j th₁ th₂ hi' hj' h₁ h₂

/-- **The step lemma.** -/
theorem step (h : HistoryInv s) (hapart : KeepsApart s e) (hfit : HourFits s e)
    (hstep : taskStep s e = .ok t) : HistoryInv t := by
  cases e with
  | tick now =>
    cases hstep
    exact h.of_threads (l := []) rfl rfl (fun _ => rfl) (List.append_nil _).symm
  | gotIp =>
    cases hstep
    exact h.of_threads (l := [.created]) rfl rfl hapart rfl
  | startClear =>
    cases hstep
    exact h.of_threads (l := [.clearCreated]) rfl rfl (fun _ => rfl) rfl
  | setSum value =>
    cases hstep
    exact h.of_threads (l := []) rfl rfl (fun _ => rfl) (List.append_nil _).symm
  | setInitialized b =>
    cases hstep
    exact h.of_threads (l := []) rfl rfl (fun _ => rfl) (List.append_nil _).symm
  | reboot =>
    cases hstep
    refine ⟨fun _ => (h.log hapart).of_same rfl rfl, fun r p hrun => absurd hrun List.not_mem_nil,
      fun i j th th' hi => ?_⟩
    cases hi
  | step k =>
    rcases hth : s.threads[k]? with _ | th
    · simp only [taskStep, hth] at hstep
      cases hstep
      exact h
    · obtain ⟨p, u, hp, rfl⟩ := exists_of_step hth hstep
      exact h.stepTask hth hapart hfit hp

end HistoryInv

theorem historyInv_of_formatted (h : s.Formatted) : HistoryInv s := by
  obtain ⟨hthreads, m, deep, hformat⟩ := h
  rw [eval_formatZero] at hformat
  obtain ⟨-, hmem⟩ := Prod.mk.inj (Except.ok.inj hformat)
  replace hmem : Prog.putAll m (formatWrites deep) = s.shared.store := hmem
  refine ⟨fun _ => .of_empty ?_ ?_, ?_, ?_⟩
  · rw [← hmem]
    exact logsValid_of_format m deep
  · rw [← hmem]
    apply hourLog_of_empty
    cases deep <;> rfl
  · simp [hthreads]
  · simp [hthreads]

namespace TaskState

/-- **The hour log has the hours of the last date, each once**, in every state of a run from a
formatted EEPROM in which no clear is under way, with any number of tasks whose accesses come in
any order, if the updates of the EEPROM keep apart and every record of an hour other than 0 begins
with an empty log or behind a record of an earlier hour of the same day. -/
theorem historyRight_of_fits (h : s.Formatted) (hapart : EachStep taskStep KeepsApart s es)
    (hfits : EachStep taskStep HourFits s es) : EachState taskStep HistoryRight s es := by
  intro before after t hes ht
  have hboth := eachStep_and.2 ⟨hapart, hfits⟩
  rw [hes] at hboth
  exact (inv_run (I := HistoryInv) (C := fun s e => KeepsApart s e ∧ HourFits s e)
    (fun _ _ _ hI hC hstep => hI.step hC.1 hC.2 hstep) (historyInv_of_formatted h)
    (eachStep_append.1 hboth).1 ht).historyRight

/-- Some steps of the task `k`. -/
def steps (k n : Nat) : List TaskEvent := List.replicate n (.step k)

/-- The modules are away from the last hour of a day until the second of the next, and there is a
restart in between; then a second task is started, and the two go on in turns. -/
def twoDays : List TaskEvent :=
  .tick (OnlineState.january 1 22) :: .gotIp :: steps 0 10 ++
    .setInitialized true :: passAt (OnlineState.january 1 22) ++
    .setInitialized false :: steps 0 10 ++ passAt (OnlineState.january 2 0) ++
    .reboot :: .tick (OnlineState.january 2 1) :: .gotIp :: steps 0 40 ++
    .setInitialized true :: passAt (OnlineState.january 2 1) ++ passAt (OnlineState.january 2 2) ++
    .gotIp :: (List.replicate 30 [.step 1, .step 0]).flatten

/-- The restart in between closes the day, and the second task finds the hour recorded. -/
theorem historyRight_twoDays : EachState taskStep HistoryRight fresh twoDays := by
  have hboth : EachStep taskStep (fun s e => KeepsApart s e ∧ HourFits s e) fresh twoDays :=
    eachStep_of_checkSteps (p := fun s e => decide (KeepsApart s e ∧ HourFits s e))
      (fun _ _ => of_decide_eq_true) (by decide +kernel)
  obtain ⟨hapart, hfits⟩ := eachStep_and.1 hboth
  exact historyRight_of_fits formatted_fresh hapart hfits

/-- The bridge reconnects before the first record: there are two tasks, and both record the
hour, one after the other. -/
def reconnected : List TaskEvent :=
  .tick (OnlineState.january 1 10) :: .gotIp :: .gotIp :: steps 0 10 ++ steps 1 10 ++
    .setInitialized true :: steps 0 40 ++ steps 1 40

theorem not_historyRight_reconnected : ¬ EachState taskStep HistoryRight fresh reconnected := by
  intro hall
  obtain ⟨s, hs, hcheck⟩ := exists_of_okAnd (x := run taskStep fresh reconnected)
    (p := fun s => s.clearing = false ∧ ¬ ((hourHistory s.mem).map Prod.fst).Nodup)
    (by decide +kernel)
  obtain ⟨hclear, htwice⟩ := of_decide_eq_true hcheck
  exact htwice (hall.last hs hclear).1

end TaskState

end NinaHomekit
