import NinaHomekit.Perioder.Tasks

/-!
# Tasks that are not interrupted

The steps of `OnlineState` are whole parts of the tasks.  A task that no other interrupts takes its
accesses one after the other, so that what `onlineStep` does is what the single steps do as well.

* `eval_onlineStart`, `eval_recordBody`, `eval_clearWarehouseData` — a task on its own does to the
  EEPROM what the programs of `Perioder.Online` do.
* `exists_run_bind` — a part of a task, step after step.
* `TaskState.whole` — a state in which all tasks rest, as a state of whole steps.
* `exists_run_of_onlineRun` — **every run of whole steps is a run of single accesses.**
-/

namespace NinaHomekit

open Store Trace Warehouse

/-- The current that is recorded. -/
def OnlineVars.recordCurrent (v : OnlineVars) : UInt16 :=
  if v.avgSysCurrentCount = 0 then v.sumCurrent else v.avgSystemCurrent

namespace Perioder

variable {α : Type}

/-! ## Tasks on their own -/

section Alone

variable (m : Eeprom) (v : OnlineVars)

theorem eval_warehouse {q : EepromProg α} {a : α} {m m' : Eeprom} (h : q.eval m = .ok (a, m')) :
    (warehouse q).eval m v = .ok (a, m', v) := Prog.eval_inTask_of_ok h v

theorem eval_vars_bind (f : OnlineVars → OnlineTask α) :
    (Task.vars >>= f).eval m v = (f v).eval m v := rfl

theorem eval_modify_bind (g : OnlineVars → OnlineVars) (f : Unit → OnlineTask α) :
    (Task.modify g >>= f).eval m v = (f ()).eval m (g v) := rfl

theorem eval_isLastDateDataToday :
    isLastDateDataToday.eval m v = .ok (decide (IsToday m v.timeinfo), m, v) := by
  have heval := Warehouse.eval_isLastDateDataToday m v.timeinfo
  show (Task.read _ _ _).eval m v = _
  show (if (m eepromDateHeadPtr).toNat < eepromDateRecordNum then _ else _ : OnlineTask Bool).eval
    m v = _
  by_cases hp : (m eepromDateHeadPtr).toNat < eepromDateRecordNum
  swap
  · rw [if_neg hp, decide_eq_false fun h => hp h.1]
    rfl
  rw [if_pos hp]
  show (if v.timeinfo.tmYear = (m (eepromDateDataPtr + (m eepromDateHeadPtr).toNat * 5)).toNat
    then _ else _ : OnlineTask Bool).eval m v = _
  by_cases hy : v.timeinfo.tmYear = (m (eepromDateDataPtr + (m eepromDateHeadPtr).toNat * 5)).toNat
  swap
  · rw [if_neg hy, decide_eq_false fun h => hy h.2.1]
    rfl
  rw [if_pos hy]
  show (if v.timeinfo.tmMon = (m (eepromDateDataPtr + (m eepromDateHeadPtr).toNat * 5 + 1)).toNat
    then _ else _ : OnlineTask Bool).eval m v = _
  by_cases hm : v.timeinfo.tmMon =
    (m (eepromDateDataPtr + (m eepromDateHeadPtr).toNat * 5 + 1)).toNat
  swap
  · rw [if_neg hm, decide_eq_false fun h => hm h.2.2.1]
    rfl
  rw [if_pos hm]
  show Except.ok (_, m, v) = _
  simp [IsToday, hp, hy, hm]

theorem eval_appendToday :
    appendToday.eval m v = .ok ((), Prog.putAll m (todayWrites m v.timeinfo), v) := rfl

theorem eval_dayIsOver : dayIsOver.eval m v =
    .ok (decide (dateLen m > 0 ∧ ¬ IsToday m v.timeinfo), m, v) := by
  unfold dayIsOver
  rw [Task.eval_bind_of_ok (eval_warehouse v (eval_getDateDataLength m)), Task.eval_ite]
  by_cases hlen : dateLen m > 0
  · rw [if_pos hlen, Task.eval_bind_of_ok (eval_isLastDateDataToday m v)]
    simp [hlen]
  · rw [if_neg hlen]
    simp [hlen]

theorem eval_storeAverage (avg : Nat) :
    (storeAverage avg).eval m v = .ok ((), averageStored m avg, v) := rfl

theorem eval_closeDay :
    closeDay.eval m v = .ok ((), dayClosed m v.clock, { v with timeinfo := v.clock }) := by
  unfold closeDay
  rw [Task.eval_bind_of_ok (eval_warehouse v (eval_sumHourData m))]
  rfl

/-- **The part in front of the loop.** -/
theorem eval_onlineStart : ∃ previousHr m', onlineStart.eval m v =
    .ok (.loop previousHr, m', { v with
      timeinfo := if dateLen m > 0 ∧ ¬ IsToday m v.timeinfo then v.clock else v.timeinfo }) ∧
    (NinaHomekit.onlineStart v.timeinfo v.clock).eval m =
      .ok ((previousHr, decide (dateLen m > 0 ∧ ¬ IsToday m v.timeinfo)), m') := by
  unfold onlineStart NinaHomekit.onlineStart
  rw [Task.eval_bind_of_ok (eval_dayIsOver m v),
    Prog.eval_bind_of_ok (Warehouse.eval_dayIsOver m v.timeinfo)]
  by_cases hover : dateLen m > 0 ∧ ¬ IsToday m v.timeinfo
  · obtain ⟨previousHr, hprev⟩ := eval_recordedHour (dayClosed m v.clock)
    refine ⟨previousHr, dayClosed m v.clock, ?_, ?_⟩
    · rw [decide_eq_true hover, if_pos hover, if_pos rfl, Task.eval_bind_of_ok (eval_closeDay m v),
        Task.eval_bind_of_ok (eval_warehouse _ hprev)]
      rfl
    · rw [decide_eq_true hover, if_pos rfl,
        Prog.eval_bind_of_ok (Warehouse.eval_closeDay m v.clock), Prog.eval_bind_of_ok hprev]
      rfl
  · obtain ⟨previousHr, hprev⟩ := eval_recordedHour m
    refine ⟨previousHr, m, ?_, ?_⟩
    · rw [decide_eq_false hover, if_neg hover, if_neg Bool.false_ne_true]
      show (warehouse recordedHour >>= _).eval m v = _
      rw [Task.eval_bind_of_ok (eval_warehouse v hprev)]
      rfl
    · rw [decide_eq_false hover, if_neg Bool.false_ne_true]
      show (recordedHour >>= _).eval m = _
      rw [Prog.eval_bind_of_ok hprev]
      rfl

theorem eval_openDay : openDay.eval m v = .ok ((), dayOpened m v.timeinfo, v) := by
  obtain ⟨m₁, hm₁⟩ : ∃ m₁, m₁ = if v.timeinfo.tmHour = 0 then
    Function.update m eepromHourHeadPtr 255 else m := ⟨_, rfl⟩
  have hreset : (if v.timeinfo.tmHour = 0 then warehouse (updateRecordedHourPtr 255) else pure () :
      OnlineTask Unit).eval m v = .ok ((), m₁, v) := by
    rw [Task.eval_ite, hm₁]
    by_cases h0 : v.timeinfo.tmHour = 0
    · rw [if_pos h0, if_pos h0]
      rfl
    · rw [if_neg h0, if_neg h0]
      rfl
  unfold openDay dayOpened
  rw [eval_vars_bind, Task.eval_bind_of_ok hreset,
    Task.eval_bind_of_ok (eval_isLastDateDataToday m₁ v), ← hm₁]
  by_cases htoday : IsToday m₁ v.timeinfo
  · simp only [htoday, decide_true, if_true]
    rfl
  · simp only [htoday, decide_false, if_false, Bool.false_eq_true]
    exact eval_appendToday m₁ v

theorem eval_appendHour : appendHour.eval m v =
    .ok ((), hourAppended m v.timeinfo v.recordCurrent,
      { v with avgSystemCurrent := v.recordCurrent }) := by
  have hhold : (if v.avgSysCurrentCount = 0 then
      Task.modify fun w => { w with avgSystemCurrent := w.sumCurrent }
      else pure () : OnlineTask Unit).eval m v =
      .ok ((), m, { v with avgSystemCurrent := v.recordCurrent }) := by
    unfold OnlineVars.recordCurrent
    rw [Task.eval_ite]
    by_cases h0 : v.avgSysCurrentCount = 0
    · rw [if_pos h0, if_pos h0]
      rfl
    · rw [if_neg h0, if_neg h0]
      rfl
  unfold appendHour
  rw [eval_vars_bind, Task.eval_bind_of_ok hhold, eval_vars_bind,
    Prog.eval_inTask_of_ok (eval_appendHourlyRecord ..)]
  rfl

theorem eval_closeHours :
    closeHours.eval m v = (fun x => (x.1, x.2, v)) <$> dailyAverage.eval m := by
  unfold closeHours dailyAverage
  rw [Task.eval_bind_of_ok (eval_warehouse v (eval_sumHourData m)),
    Task.eval_bind_of_ok (eval_warehouse v (eval_getHourDataLength m)), Task.eval_ite,
    Prog.eval_bind_of_ok (eval_sumHourData m), Prog.eval_bind_of_ok (eval_getHourDataLength m),
    Prog.eval_ite]
  by_cases h0 : hourLen m = 0
  · rw [if_pos h0, if_pos h0]
    rfl
  · rw [if_neg h0, if_neg h0]
    rfl

/-- `recordHour` up to its last `getTime`. -/
def recordBody : OnlineTask Nat := do
  openDay
  appendHour
  Task.modify fun w => { w with avgSystemCurrent := 0 }
  Task.modify fun w => { w with avgSysCurrentCount := 0 }
  let v ← Task.vars
  (if v.timeinfo.tmHour = 23 then closeHours else pure ())
  let v ← Task.vars
  return v.timeinfo.tmHour

omit m v in
theorem recordHour_eq :
    recordHour = recordBody >>= fun hour => getTime >>= fun _ => pure (.loop hour) := by
  unfold recordHour recordBody
  simp only [bind_assoc, pure_bind]

/-- **The record of an hour**, and what it leaves in the variables. -/
theorem eval_recordBody : recordBody.eval m v =
    (fun x => (v.timeinfo.tmHour, x.2,
      { v with avgSystemCurrent := 0, avgSysCurrentCount := 0 })) <$>
      (hourChange v.timeinfo v.recordCurrent).eval m := by
  unfold recordBody
  rw [Task.eval_bind_of_ok (eval_openDay m v), Task.eval_bind_of_ok (eval_appendHour ..),
    eval_hourChange]
  rw [eval_modify_bind, eval_modify_bind, eval_vars_bind]
  obtain ⟨m₁, hm₁⟩ : ∃ m₁, m₁ = hourAppended (dayOpened m v.timeinfo) v.timeinfo v.recordCurrent :=
    ⟨_, rfl⟩
  rw [← hm₁]
  unfold afterRecord
  by_cases h23 : v.timeinfo.tmHour = 23
  · rw [if_pos h23, if_pos h23, Task.eval_bind, eval_closeHours]
    cases dailyAverage.eval m₁ <;> rfl
  · rw [if_neg h23, if_neg h23]
    rfl

theorem eval_recordBody_of_ok {m m' : Eeprom} {v : OnlineVars}
    (h : (hourChange v.timeinfo v.recordCurrent).eval m = .ok ((), m')) :
    recordBody.eval m v = .ok (v.timeinfo.tmHour, m',
      { v with avgSystemCurrent := 0, avgSysCurrentCount := 0 }) := by
  rw [eval_recordBody, h]
  rfl

/-- `onlinePass` up to its last `getTime`, and whether that comes. -/
def passBody (previousHr : Nat) : OnlineTask (Rest × Bool) := do
  let v ← Task.vars
  if v.moduleInitialized then do
    getTime
    let v ← Task.vars
    if v.timeinfo.tmHour ≠ previousHr then return (.changed, false)
    else do
      let v ← Task.vars
      Task.modify fun w => { w with
        avgSystemCurrent := UInt16.ofNat ((v.avgSystemCurrent.toNat + v.sumCurrent.toNat) / 2) }
      Task.modify fun w => { w with avgSysCurrentCount := w.avgSysCurrentCount + 1 }
      return (.loop previousHr, true)
  else return (.loop previousHr, false)

omit m v in
theorem onlinePass_eq (previousHr : Nat) : onlinePass previousHr = passBody previousHr >>=
    fun x => if x.2 then getTime >>= fun _ => pure x.1 else pure x.1 := by
  unfold onlinePass passBody
  rw [bind_assoc]
  congr 1
  funext v
  by_cases hinit : v.moduleInitialized = true
  · rw [if_pos hinit, if_pos hinit]
    simp only [bind_assoc]
    congr 1
    funext _
    congr 1
    funext w
    by_cases hhour : w.timeinfo.tmHour ≠ previousHr
    · rw [if_pos hhour, if_pos hhour]
      rfl
    · rw [if_neg hhour, if_neg hhour]
      simp only [bind_assoc, pure_bind, if_true]
  · rw [if_neg hinit, if_neg hinit]
    rfl

section

variable {m v} {previousHr : Nat}

theorem eval_passBody_of_not (hinit : ¬ v.moduleInitialized = true) :
    (passBody previousHr).eval m v = .ok ((.loop previousHr, false), m, v) := by
  unfold passBody
  rw [eval_vars_bind, if_neg hinit]
  rfl

theorem eval_passBody_of_ne (hinit : v.moduleInitialized = true)
    (hhour : v.clock.tmHour ≠ previousHr) : (passBody previousHr).eval m v =
      .ok ((.changed, false), m, { v with timeinfo := v.clock }) := by
  unfold passBody getTime
  rw [eval_vars_bind, if_pos hinit, eval_modify_bind, eval_vars_bind, if_pos hhour]
  rfl

theorem eval_passBody_of_eq (hinit : v.moduleInitialized = true)
    (hhour : v.clock.tmHour = previousHr) : (passBody previousHr).eval m v =
      .ok ((.loop previousHr, true), m, { v with
        timeinfo := v.clock
        avgSystemCurrent := UInt16.ofNat ((v.avgSystemCurrent.toNat + v.sumCurrent.toNat) / 2)
        avgSysCurrentCount := v.avgSysCurrentCount + 1 }) := by
  unfold passBody getTime
  rw [eval_vars_bind, if_pos hinit, eval_modify_bind, eval_vars_bind, if_neg (not_not.2 hhour)]
  rfl

end

/-- **A clear.** -/
theorem eval_clearWarehouseData : clearWarehouseData.eval m v =
    .ok (.ended, dataCleared m v.clock v.sumCurrent, v) := by
  unfold clearWarehouseData
  rw [Task.eval_bind_of_ok (eval_warehouse v (eval_formatZero m false))]
  rw [eval_vars_bind]
  dsimp only
  rw [eval_vars_bind, Task.eval_bind_of_ok (Prog.eval_inTask_of_ok (eval_appendHourlyRecord ..) v)]
  rfl

end Alone

end Perioder

/-! ## A part of a task, step after step -/

/-- A task does `p` next, and `f` with its result. -/
inductive Thread.Doing {α : Type} (r : Rest) (p : OnlineTask α) (f : α → OnlineTask Rest) :
    Thread → Prop where
  | within : Doing r p f (.on r (p >>= f))
  | first (h : r.next = p >>= f) (hp : ∀ a, p ≠ .done a) : Doing r p f (.resting r)

section

variable {α : Type} {r : Rest} {p : OnlineTask α} {f : α → OnlineTask Rest} {th th' : Thread}
  {s : TaskState} {k : Nat} {a : α} {m : Eeprom} {v : OnlineVars}

theorem Thread.Doing.task (h : Thread.Doing r p f th) (hq : ∀ r', p >>= f ≠ .done r') :
    th.task = p >>= f ∧ th.rest = r := by
  cases h with
  | within =>
    cases hpf : p >>= f with
    | done r' => exact absurd hpf (hq r')
    | _ => exact ⟨rfl, rfl⟩
  | first h _ => exact ⟨h, rfl⟩

/-- One step of a task, and then the others. -/
theorem exists_run_succ {q q' : OnlineTask Rest} {t : OnlineShared}
    (hth : s.threads[k]? = some th) (htask : th.task = q ∧ th.rest = r)
    (hstep : q.step s.shared = .ok (q', t))
    (h : ∃ n u, run taskStep ⟨t, s.threads.set k (.on r q')⟩ (List.replicate n (.step k)) =
      .ok ⟨u, (s.threads.set k (.on r q')).set k th'⟩ ∧ u.store = m ∧ u.vars = v) :
    ∃ n u, run taskStep s (List.replicate n (.step k)) = .ok ⟨u, s.threads.set k th'⟩ ∧
      u.store = m ∧ u.vars = v := by
  obtain ⟨rfl, rfl⟩ := htask
  obtain ⟨n, u, hrun, hleft⟩ := h
  refine ⟨n + 1, u, ?_, hleft⟩
  have hfirst : taskStep s (.step k) = .ok ⟨t, s.threads.set k (.on th.rest q')⟩ := by
    simp [taskStep, hth, Thread.step, hstep]
  rw [List.set_set] at hrun
  rw [List.replicate_succ, run_cons, hfirst]
  exact hrun

/-- **A part of a task that no other interrupts.** -/
theorem exists_run_bind (hth : s.threads[k]? = some th) (hdoing : th.Doing r p f)
    (heval : p.eval s.mem s.vars = .ok (a, m, v)) :
    ∃ n u, run taskStep s (List.replicate n (.step k)) = .ok ⟨u, s.threads.set k (.on r (f a))⟩ ∧
      u.store = m ∧ u.vars = v := by
  have hlt := (List.getElem?_eq_some_iff.1 hth).1
  induction p generalizing s th with
  | done b =>
    cases heval
    cases hdoing with
    | within =>
      refine ⟨0, s.shared, ?_, rfl, rfl⟩
      have hget := (List.getElem?_eq_some_iff.1 hth).2
      rw [show f a = Task.done a >>= f from rfl, ← hget, List.set_getElem_self]
      rfl
    | first h hp => exact absurd rfl (hp _)
  | fault e => cases heval
  | read part x next ih =>
    refine exists_run_succ hth (hdoing.task fun _ h => by cases h) rfl ?_
    exact ih _ (List.getElem?_set_self hlt) .within heval (by simpa using hlt)
  | write part x w next ih =>
    refine exists_run_succ hth (hdoing.task fun _ h => by cases h) rfl ?_
    exact ih (List.getElem?_set_self hlt) .within heval (by simpa using hlt)
  | look next ih =>
    refine exists_run_succ hth (hdoing.task fun _ h => by cases h) rfl ?_
    exact ih _ (List.getElem?_set_self hlt) .within heval (by simpa using hlt)
  | change g next ih =>
    refine exists_run_succ hth (hdoing.task fun _ h => by cases h) rfl ?_
    exact ih (List.getElem?_set_self hlt) .within heval (by simpa using hlt)

end

/-! ## Whole steps -/

/-- A task at rest, as one of `OnlineState`. -/
def Thread.waiting : Thread → Option (Option Nat)
  | .resting .created => some none
  | .resting (.loop previousHr) => some (some previousHr)
  | _ => none

namespace TaskState

/-- The state of whole steps, when all tasks rest. -/
def whole (s : TaskState) : OnlineState where
  mem := s.mem
  timeinfo := s.vars.timeinfo
  avgSystemCurrent := s.vars.avgSystemCurrent
  avgSysCurrentCount := s.vars.avgSysCurrentCount
  moduleInitialized := s.vars.moduleInitialized
  sumCurrent := s.vars.sumCurrent
  tasks := s.threads.filterMap Thread.waiting

/-- Every task rests in front of its loop, at the head of its loop, or for good. -/
def AtRest (s : TaskState) : Prop :=
  ∀ th ∈ s.threads, th = .resting .ended ∨ ∃ w, th.waiting = some w

end TaskState

/-- A member of what a list is mapped to, and a change of it. -/
theorem exists_of_getElem?_filterMap {α β : Type} {f : α → Option β} {l : List α} {k : Nat} {b : β}
    (h : (l.filterMap f)[k]? = some b) : ∃ i a, l[i]? = some a ∧ f a = some b ∧
      ∀ a' b', f a' = some b' → (l.set i a').filterMap f = (l.filterMap f).set k b' := by
  induction l generalizing k with
  | nil => simp at h
  | cons x l ih =>
    cases hx : f x with
    | none =>
      rw [List.filterMap_cons_none hx] at h ⊢
      obtain ⟨i, a, hi, ha, hset⟩ := ih h
      refine ⟨i + 1, a, hi, ha, fun a' b' h' => ?_⟩
      rw [List.set_cons_succ, List.filterMap_cons_none hx, hset a' b' h']
    | some y =>
      rw [List.filterMap_cons_some hx] at h ⊢
      cases k with
      | zero =>
        obtain rfl := Option.some.inj h
        refine ⟨0, x, rfl, hx, fun a' b' h' => ?_⟩
        rw [List.set_cons_zero, List.filterMap_cons_some h']
        rfl
      | succ k =>
        obtain ⟨i, a, hi, ha, hset⟩ := ih h
        refine ⟨i + 1, a, hi, ha, fun a' b' h' => ?_⟩
        rw [List.set_cons_succ, List.filterMap_cons_some hx, hset a' b' h']
        rfl

namespace TaskState

variable {s t : TaskState} {o : OnlineState} {e : OnlineEvent}

/-- Some single steps lead to tasks at rest and to `o`. -/
def Follows (s : TaskState) (o : OnlineState) : Prop :=
  ∃ es t, run taskStep s es = .ok t ∧ t.AtRest ∧ t.whole = o

theorem Follows.prepend {es : List TaskEvent} (hrun : run taskStep s es = .ok t)
    (h : t.Follows o) : s.Follows o := by
  obtain ⟨fs, u, hu, hleft⟩ := h
  exact ⟨es ++ fs, u, run_append_eq_ok.2 ⟨t, hrun, hu⟩, hleft⟩

theorem AtRest.follows (h : s.AtRest) : s.Follows s.whole := ⟨[], s, rfl, h, rfl⟩

theorem AtRest.set (h : s.AtRest) {u : OnlineShared} {k : Nat} {th : Thread}
    (hth : th = .resting .ended ∨ ∃ w, th.waiting = some w) :
    AtRest ⟨u, s.threads.set k th⟩ := by
  intro th' hmem
  rcases List.mem_or_eq_of_mem_set hmem with hmem | rfl
  · exact h th' hmem
  · exact hth

theorem Follows.event (e : TaskEvent) (hstep : taskStep s e = .ok t) (h : t.Follows o) :
    s.Follows o := h.prepend (run_singleton.trans hstep)

theorem Follows.tick (now : Tm) (h : (s.setVars fun v => { v with clock := now }).Follows o) :
    s.Follows o := h.event (.tick now) rfl

/-- A part of a task, and then the others. -/
theorem follows_of_part {α : Type} {r : Rest} {p : OnlineTask α} {f : α → OnlineTask Rest}
    {th : Thread} {k : Nat} {a : α} {m : Eeprom} {v : OnlineVars} (hth : s.threads[k]? = some th)
    (hdoing : th.Doing r p f) (heval : p.eval s.mem s.vars = .ok (a, m, v))
    (h : ∀ u : OnlineShared, u.store = m → u.vars = v →
      Follows ⟨u, s.threads.set k (.on r (f a))⟩ o) : s.Follows o := by
  obtain ⟨n, u, hrun, hm, hv⟩ := exists_run_bind hth hdoing heval
  exact (h u hm hv).prepend hrun

/-- A task from one rest to the next, and then the others. -/
theorem follows_of_rest {r r' : Rest} {k : Nat} {m : Eeprom} {v : OnlineVars}
    (hth : s.threads[k]? = some (.resting r)) (hr : ∀ a, r.next ≠ .done a)
    (heval : r.next.eval s.mem s.vars = .ok (r', m, v))
    (h : ∀ u : OnlineShared, u.store = m → u.vars = v →
      Follows ⟨u, s.threads.set k (.resting r')⟩ o) : s.Follows o :=
  follows_of_part hth (.first (Task.bind_done r.next).symm hr) heval h

/-- The tasks are at rest again. -/
theorem follows_of_eq {u : OnlineShared} {threads : List Thread}
    (h : AtRest ⟨u, threads⟩) (heq : whole ⟨u, threads⟩ = o) : Follows ⟨u, threads⟩ o :=
  ⟨[], _, rfl, h, heq⟩

theorem whole_eq {u : OnlineShared} {threads : List Thread} {m : Eeprom} {v : OnlineVars}
    {tasks : List (Option Nat)} (hm : u.store = m) (hv : u.vars = v)
    (htasks : threads.filterMap Thread.waiting = tasks) : whole ⟨u, threads⟩ =
      ⟨m, v.timeinfo, v.avgSystemCurrent, v.avgSysCurrentCount, v.moduleInitialized, v.sumCurrent,
        tasks⟩ := by
  subst hm hv htasks
  rfl

/-- A clear, from its creation to its end. -/
theorem AtRest.follows_clear (h : s.AtRest) (now : Tm) :
    s.Follows { s.whole with mem := dataCleared s.mem now s.vars.sumCurrent } := by
  refine Follows.tick now (Follows.event .startClear rfl ?_)
  refine follows_of_rest (k := s.threads.length) (r := .clearCreated) List.getElem?_concat_length
    (fun _ heq => by cases heq) (Perioder.eval_clearWarehouseData ..) fun u hm hv => ?_
  have hthreads : (s.threads ++ [Thread.resting .clearCreated]).set s.threads.length
      (.resting .ended) = s.threads ++ [.resting .ended] := by simp
  show Follows ⟨u, (s.threads ++ [Thread.resting .clearCreated]).set s.threads.length _⟩ _
  rw [hthreads]
  apply follows_of_eq
  · intro th hth
    rcases List.mem_append.1 hth with hth | hth
    · exact h th hth
    · exact Or.inl (List.mem_singleton.1 hth)
  · apply whole_eq hm hv
    simp [whole, Thread.waiting]

section

variable {i k previousHr : Nat} {now later : Tm}

/-- The part in front of the loop. -/
theorem AtRest.follows_start (h : s.AtRest) (hth : s.threads[i]? = some (.resting .created))
    (hset : ∀ th w, th.waiting = some w →
      (s.threads.set i th).filterMap Thread.waiting = s.whole.tasks.set k w)
    (htask : s.whole.tasks[k]? = some none) (hstep : s.whole.task k now later = .ok o) :
    s.Follows o := by
  obtain ⟨previousHr, m, heval, hprog⟩ :=
    Perioder.eval_onlineStart s.mem { s.vars with clock := now }
  unfold OnlineState.task at hstep
  rw [htask] at hstep
  change (s.whole.runOn (onlineStart s.vars.timeinfo now) >>= _) = _ at hstep
  rw [runOn_of_eval hprog] at hstep
  cases hstep
  refine Follows.tick now (follows_of_rest (r := .created) hth (fun _ heq => by cases heq)
    heval fun u hm hv => ?_)
  apply follows_of_eq (h.set (Or.inr ⟨_, rfl⟩))
  rw [whole_eq hm hv (hset _ _ rfl)]
  simp [whole, decide_eq_true_eq]

/-- The last `getTime` of a pass. -/
theorem follows_getTime {u : OnlineShared} {threads : List Thread} {r r' : Rest}
    (hth : threads[i]? = some (.on r (Perioder.getTime >>= fun _ => pure r'))) (later : Tm)
    (hrest : ∀ y, AtRest ⟨y, threads.set i (.resting r')⟩)
    (heq : ∀ y : OnlineShared, y.store = u.store →
      y.vars = { u.vars with clock := later, timeinfo := later } →
      whole ⟨y, threads.set i (.resting r')⟩ = o) : Follows ⟨u, threads⟩ o := by
  refine Follows.tick later ?_
  refine follows_of_part (p := Perioder.getTime) hth .within rfl fun y hm hv => ?_
  exact follows_of_eq (hrest y) (heq y hm hv)

/-- A pass of the loop. -/
theorem AtRest.follows_pass (h : s.AtRest)
    (hth : s.threads[i]? = some (.resting (.loop previousHr)))
    (hset : ∀ th w, th.waiting = some w →
      (s.threads.set i th).filterMap Thread.waiting = s.whole.tasks.set k w)
    (htask : s.whole.tasks[k]? = some (some previousHr))
    (hstep : s.whole.pass k previousHr now later = .ok o) : s.Follows o := by
  have hlt := (List.getElem?_eq_some_iff.1 hth).1
  have hbody : ∀ a, Perioder.passBody previousHr ≠ .done a := fun _ heq => by cases heq
  have hsame : (s.threads.set i (.resting (.loop previousHr))).filterMap Thread.waiting =
      s.whole.tasks := by
    obtain ⟨hk, hget⟩ := List.getElem?_eq_some_iff.1 htask
    rw [hset _ _ rfl, ← hget, List.set_getElem_self]
  unfold OnlineState.pass at hstep
  refine Follows.tick now ?_
  by_cases hinit : s.whole.moduleInitialized = true
  · rw [if_pos hinit] at hstep
    by_cases hhour : now.tmHour ≠ previousHr
    · rw [if_pos hhour] at hstep
      obtain ⟨⟨_, o'⟩, hrun, ho⟩ := bind_eq_ok.1 hstep
      obtain ⟨m, heval, ho'⟩ := exists_of_runOn hrun
      cases ho'
      cases ho
      refine follows_of_part hth (.first (Perioder.onlinePass_eq previousHr) hbody)
        (Perioder.eval_passBody_of_ne hinit hhour) fun u hm hv => ?_
      -- the pass goes on at `Rest.changed`, and reads the clock once more at its end
      have hm₀ : u.store = s.mem := hm
      have hv₀ : u.vars = { s.vars with clock := now, timeinfo := now } := hv
      have hrecord : Perioder.recordBody.eval u.store u.vars = .ok (now.tmHour, m,
          { s.vars with
            clock := now, timeinfo := now, avgSystemCurrent := 0, avgSysCurrentCount := 0 }) := by
        rw [hm₀, hv₀]
        exact Perioder.eval_recordBody_of_ok heval
      refine follows_of_part (List.getElem?_set_self hlt)
        (.first Perioder.recordHour_eq fun _ heq => by cases heq) hrecord fun x hm hv => ?_
      refine follows_getTime (List.getElem?_set_self (by rw [List.length_set]; exact hlt)) later
        (fun y => ?_) fun y hm' hv' => ?_
      · rw [List.set_set, List.set_set]
        exact h.set (Or.inr ⟨_, rfl⟩)
      · rw [List.set_set, List.set_set]
        rw [hm] at hm'
        rw [hv] at hv'
        exact whole_eq hm' hv' (hset _ _ rfl)
    · rw [if_neg hhour] at hstep
      cases hstep
      refine follows_of_part hth (.first (Perioder.onlinePass_eq previousHr) hbody)
        (Perioder.eval_passBody_of_eq hinit (not_not.1 hhour)) fun u hm hv => ?_
      refine follows_getTime (List.getElem?_set_self hlt) later (fun y => ?_) fun y hm' hv' => ?_
      · rw [List.set_set]
        exact h.set (Or.inr ⟨_, rfl⟩)
      · rw [List.set_set]
        rw [hm] at hm'
        rw [hv] at hv'
        exact whole_eq hm' hv' hsame
  · rw [if_neg hinit] at hstep
    cases hstep
    refine follows_of_part hth (.first (Perioder.onlinePass_eq previousHr) hbody)
      (Perioder.eval_passBody_of_not hinit) fun u hm hv => ?_
    have hrest : AtRest ⟨u, s.threads.set i (.resting (.loop previousHr))⟩ :=
      h.set (Or.inr ⟨_, rfl⟩)
    refine follows_of_eq hrest ?_
    exact whole_eq (v := { s.vars with clock := now }) hm hv hsame

end

/-- **A whole step** is a run of single steps. -/
theorem AtRest.follows_onlineStep (h : s.AtRest) (hstep : onlineStep s.whole e = .ok o) :
    s.Follows o := by
  cases e with
  | gotIp now =>
    cases hstep
    refine Follows.tick now (Follows.event .gotIp rfl (follows_of_eq ?_ ?_))
    · intro th hth
      rcases List.mem_append.1 hth with hth | hth
      · exact h th hth
      · rw [List.mem_singleton.1 hth]
        exact Or.inr ⟨none, rfl⟩
    · refine whole_eq rfl rfl ?_
      show (s.threads ++ [Thread.resting .created]).filterMap Thread.waiting =
        s.threads.filterMap Thread.waiting ++ [none]
      rw [List.filterMap_append]
      rfl
  | task k now later =>
    change s.whole.task k now later = .ok o at hstep
    rcases htask : s.whole.tasks[k]? with _ | w
    · unfold OnlineState.task at hstep
      rw [htask] at hstep
      cases hstep
      exact h.follows
    · obtain ⟨i, th, hth, hwait, hset⟩ := exists_of_getElem?_filterMap htask
      cases th with
      | running r p => cases hwait
      | resting r =>
        cases r with
        | created =>
          cases hwait
          exact h.follows_start hth hset htask hstep
        | loop previousHr =>
          cases hwait
          unfold OnlineState.task at hstep
          rw [htask] at hstep
          exact h.follows_pass hth hset htask hstep
        | changed => cases hwait
        | clearCreated => cases hwait
        | ended => cases hwait
  | clear now =>
    have hrun := runOn_of_eval (eval_clearWarehouseData s.whole.mem now s.whole.sumCurrent)
    change Prod.snd <$> s.whole.runOn (clearWarehouseData now s.whole.sumCurrent) = .ok o at hstep
    rw [hrun] at hstep
    cases hstep
    exact h.follows_clear now
  | setSum value =>
    cases hstep
    exact Follows.event (.setSum value) rfl (follows_of_eq h rfl)
  | setInitialized b =>
    cases hstep
    exact Follows.event (.setInitialized b) rfl (follows_of_eq h rfl)
  | reboot =>
    cases hstep
    refine Follows.event .reboot rfl (follows_of_eq ?_ rfl)
    exact fun th hth => absurd hth List.not_mem_nil

/-- **Every run of whole steps** is a run of single accesses. -/
theorem exists_run_of_onlineRun {es : List OnlineEvent} (h : s.AtRest)
    (hrun : run onlineStep s.whole es = .ok o) : s.Follows o := by
  induction es generalizing s with
  | nil =>
    cases hrun
    exact h.follows
  | cons e es ih =>
    obtain ⟨o', hstep, hrun⟩ := run_cons_eq_ok.1 hrun
    obtain ⟨fs, t, ht, hrest, rfl⟩ := h.follows_onlineStep hstep
    exact (ih hrest hrun).prepend ht

end TaskState

end NinaHomekit
