import NinaHomekit.Perioder.Tasks

/-!
# The hour log and the date log

The hour log has no end of its own: it is emptied at hour 0, or when a task is started on another
day.  The records of the dates come right behind its 24 slots.  Any number of tasks access the logs
byte by byte, in any order.

* `HeadValid`, `AppendsInside` — the head of the hour log is in it, and so is the next byte of
  every append.
* `FindsRoom` — an append does not find 24 records.
* `AlwaysSafe` — a task that keeps the head valid and its appends inside, whatever the others do.
* `logsApart_iff` — **the logs stay apart exactly if every append finds room.**
-/

namespace NinaHomekit

open Store Trace Warehouse

/-! ## What should hold -/

/-- 255, or one of the 24 slots of the hour log. -/
def HeadByte (v : UInt8) : Prop := v = 255 ∨ v.toNat ≤ 23

/-- The head of the hour log is one of these. -/
def HeadValid (m : Eeprom) : Prop := HeadByte (m eepromHourHeadPtr)

/-- A cell that an hourly record may be written with: the cycle counter, the head and the slots of
the hour log. -/
def HourCell (x : Nat) : Prop :=
  x ≤ eepromHourHeadPtr ∨ (eepromHourDataPtr ≤ x ∧ x < eepromDateDataPtr)

/-- The next byte of every `appendHourlyRecord` goes to the counter, the head or the hour log. -/
def AppendsInside (s : TaskState) : Prop :=
  ∀ th ∈ s.threads, ∀ now x v, th.task.nextWrite = some (.hourly now, x, v) → HourCell x

/-- The logs do not meet. -/
def LogsApart (s : TaskState) : Prop := HeadValid s.mem ∧ AppendsInside s

/-- The event is not an append that finds the head at the last slot: 24 records. -/
def FindsRoom (s : TaskState) : TaskEvent → Prop
  | .step k => ∀ th, s.threads[k]? = some th → ∀ now,
    th.task.nextRead = some (.hourly now, eepromHourHeadPtr) → s.mem eepromHourHeadPtr ≠ 23
  | _ => True

/-! ## Tasks that keep it -/

/-- The others may do anything that leaves a valid head. -/
def apartRules : Rules Nat UInt8 OnlineVars Part where
  between _ t := HeadValid t.store
  reads part x s := ∀ now, part = .hourly now → x = eepromHourHeadPtr → s.store x ≠ 23
  writes part x _ _ := ∀ now, part = .hourly now → HourCell x
  inv s := HeadValid s.store
  refl_of h := h
  trans _ h := h

/-- Every append of a task that finds 24 records writes behind the hour log next. -/
def GoesOutside {α : Type} : OnlineTask α → Prop
  | .done _ => True
  | .fault _ => True
  | .read part x next => (∀ now, part = .hourly now → x = eepromHourHeadPtr →
      ∃ y v p, next 23 = .write part y v p ∧ ¬ HourCell y) ∧ ∀ v, GoesOutside (next v)
  | .write _ _ _ next => GoesOutside next
  | .look next => ∀ v, GoesOutside (next v)
  | .change _ next => GoesOutside next

/-- From every state the task keeps the head valid and its appends inside, as long as they find
room. -/
structure AlwaysSafe {α : Type} (p : OnlineTask α) : Prop where
  safe : ∀ s, apartRules.Safe (fun _ t => HeadValid t.store) p s
  outside : GoesOutside p

namespace AlwaysSafe

variable {α β : Type} {p q : OnlineTask α}

theorem pure (a : α) : AlwaysSafe (Pure.pure a : OnlineTask α) := ⟨fun _ _ h => h, trivial⟩

theorem fault (e : Fault) : AlwaysSafe (.fault e : OnlineTask α) := ⟨fun _ => trivial, trivial⟩

theorem vars : AlwaysSafe (Task.vars : OnlineTask OnlineVars) :=
  ⟨fun _ _ _ _ h => h, fun _ => trivial⟩

theorem modify (f : OnlineVars → OnlineVars) : AlwaysSafe (Task.modify f : OnlineTask Unit) :=
  ⟨fun _ _ h => ⟨h, fun _ h => h⟩, trivial⟩

theorem goesOutside_bind {f : α → OnlineTask β} (hp : GoesOutside p) (hf : ∀ a, GoesOutside (f a)) :
    GoesOutside (p >>= f) := by
  induction p with
  | done a => exact hf a
  | fault e => trivial
  | read part x next ih =>
    refine ⟨fun now hnow hx => ?_, fun v => ih v (hp.2 v)⟩
    obtain ⟨y, v, p, hnext, hout⟩ := hp.1 now hnow hx
    refine ⟨y, v, p >>= f, ?_, hout⟩
    show (next 23).bind f = .write part y v (p.bind f)
    rw [hnext]
    rfl
  | write part x v next ih => exact ih hp
  | look next ih => exact fun v => ih v (hp v)
  | change g next ih => exact ih hp

theorem bind {f : α → OnlineTask β} (hp : AlwaysSafe p) (hf : ∀ a, AlwaysSafe (f a)) :
    AlwaysSafe (p >>= f) :=
  ⟨fun s => ((hp.safe s).mono fun a t _ => (hf a).safe t).bind,
    goesOutside_bind hp.outside fun a => (hf a).outside⟩

theorem ite {c : Prop} [Decidable c] (hp : c → AlwaysSafe p) (hq : ¬ c → AlwaysSafe q) :
    AlwaysSafe (if c then p else q) := by
  by_cases h : c
  · rw [if_pos h]
    exact hp h
  · rw [if_neg h]
    exact hq h

/-- A task that makes no hourly append. -/
theorem goesOutside_elsewhere (q : EepromProg α) : GoesOutside (Perioder.warehouse q) := by
  induction q with
  | done a => trivial
  | fault e => trivial
  | read x next ih => exact ⟨fun _ hnow => (nomatch hnow), ih⟩
  | write x v next ih => exact ih

/-- A part of a task whose writes to the head are valid, and inside if it is an append. -/
theorem safe_inTask {part : Part} {q : EepromProg α}
    (h : q.Puts fun x v => (∀ now, part = .hourly now → HourCell x) ∧
      (x = eepromHourHeadPtr → HeadByte v)) (s : OnlineShared) :
    apartRules.Safe (fun _ t => HeadValid t.store) (q.inTask part : OnlineTask α) s := by
  refine Rules.safe_of_puts h fun x v t hv ht => ⟨hv.1, ?_⟩
  show HeadByte (Function.update t.store x v eepromHourHeadPtr)
  by_cases hx : x = eepromHourHeadPtr
  · rw [hx, Function.update_self]
    exact hv.2 hx
  · rw [Function.update_of_ne (Ne.symm hx)]
    exact ht

/-- What is no append writes at most 255 to the head. -/
theorem warehouse {q : EepromProg α} (h : q.Puts fun x v => x = eepromHourHeadPtr → v = 255) :
    AlwaysSafe (Perioder.warehouse q) :=
  ⟨safe_inTask (h.mono fun _ _ hv => ⟨fun _ hnow => (nomatch hnow), fun hx => Or.inl (hv hx)⟩),
    goesOutside_elsewhere q⟩

/-- **An append** that finds room. -/
theorem append (hr : UInt8) (current : UInt16) (now : Tm) :
    AlwaysSafe ((appendHourlyRecord hr current).inTask (.hourly now) : OnlineTask Unit) := by
  have haddr := eeprom_addresses
  have hzero : eepromCycleRecord = 0 := rfl
  refine ⟨fun s t ht hread => ?_, fun _ _ _ => ⟨_, _, _, rfl, ?_⟩, fun v => ?_⟩
  rotate_left
  · -- the slot of a 25th record is the first date
    show ¬ (77 ≤ 3 ∨ (5 ≤ 77 ∧ 77 < 77))
    decide
  · exact ⟨fun _ _ h => absurd h (by decide), fun _ => ⟨fun _ _ h => absurd h (by decide), fun _ =>
      ⟨fun _ _ h => absurd h (by decide), fun _ => trivial⟩⟩⟩
  have hne : (t.store eepromHourHeadPtr).toNat ≠ 23 :=
    fun heq => hread now rfl rfl (UInt8.toNat_inj.1 heq)
  have hle : (t.store eepromHourHeadPtr + 1).toNat ≤ 23 := by
    rcases ht with h255 | hle
    · simp [h255]
    · simp only [UInt8.toNat_add, UInt8.toNat_one]
      omega
  -- the rest of the append, when the head is known
  refine safe_inTask ?_ t
  have hslot : ∀ k < 3,
      HourCell (eepromHourDataPtr + (t.store eepromHourHeadPtr + 1).toNat * 3 + k) ∧
      eepromHourDataPtr + (t.store eepromHourHeadPtr + 1).toNat * 3 + k ≠ eepromHourHeadPtr := by
    intro k hk
    exact ⟨Or.inr (by omega), by omega⟩
  have hcycle : ∀ k < 3, HourCell (eepromCycleRecord + k) ∧
      eepromCycleRecord + k ≠ eepromHourHeadPtr := by
    intro k hk
    exact ⟨Or.inl (by omega), by omega⟩
  have hfine : ∀ {x : Nat} {v : UInt8}, HourCell x ∧ x ≠ eepromHourHeadPtr →
      (∀ now', Part.hourly now = .hourly now' → HourCell x) ∧
        (x = eepromHourHeadPtr → HeadByte v) := fun h => ⟨fun _ _ => h.1, fun heq => absurd heq h.2⟩
  exact ⟨hfine (hslot 0 (by decide)), hfine (hslot 1 (by decide)), hfine (hslot 2 (by decide)),
    ⟨fun _ _ => Or.inl le_rfl, fun _ => Or.inr hle⟩, fun _ _ _ => ⟨hfine (hcycle 0 (by decide)),
    hfine (hcycle 1 (by decide)), hfine (hcycle 2 (by decide)), trivial⟩⟩

end AlwaysSafe

/-! ### The rest of the accesses -/

/-- A program that leaves the head of the hour log alone, or empties the log. -/
abbrev EmptiesHours {α : Type} (q : EepromProg α) : Prop :=
  q.Puts fun x v => x = eepromHourHeadPtr → v = 255

theorem emptiesHours_writeAsInt16 (value : UInt16) {x : Nat} (hx : eepromDateDataPtr ≤ x) :
    EmptiesHours (writeAsInt16 value x) := by
  have haddr := eeprom_addresses
  exact ⟨fun h => by omega, fun h => by omega, trivial⟩

theorem emptiesHours_appendToday (now : Tm) : EmptiesHours (Warehouse.appendToday now) := by
  have haddr := eeprom_addresses
  intro ptr
  exact ⟨fun h => by omega, fun h => by omega, fun h => by omega, fun h => by omega,
    fun h => by omega, fun h => by omega, trivial⟩

theorem emptiesHours_formatZero : EmptiesHours (formatZero false) := by
  have haddr := eeprom_addresses
  exact ⟨fun _ => rfl, fun h => by omega, fun h => by omega, fun h => by omega, fun h => by omega,
    fun h => by omega, fun h => by omega, trivial⟩

theorem ReadsOnly.emptiesHours {α : Type} {q : EepromProg α} (h : ReadsOnly q) : EmptiesHours q :=
  h.mono fun _ _ => False.elim

/-! ### The tasks -/

namespace Perioder

theorem alwaysSafe_isLastDateDataToday : AlwaysSafe isLastDateDataToday := by
  refine .bind (.warehouse fun _ => trivial) fun ptr => .ite (fun _ => ?_) fun _ => .pure _
  refine .bind (.warehouse fun _ => trivial) fun yy => .bind .vars fun v => ?_
  refine .ite (fun _ => ?_) fun _ => .pure _
  refine .bind (.warehouse fun _ => trivial) fun mm => .bind .vars fun v => ?_
  refine .ite (fun _ => ?_) fun _ => .pure _
  exact .bind (.warehouse fun _ => trivial) fun dd => .bind .vars fun v => .pure _

theorem alwaysSafe_appendToday : AlwaysSafe appendToday :=
  .bind .vars fun _ => .warehouse (emptiesHours_appendToday _)

theorem alwaysSafe_storeAverage (avg : Nat) : AlwaysSafe (storeAverage avg) :=
  .bind (.warehouse fun _ => trivial) fun _ => .warehouse (emptiesHours_writeAsInt16 _ (by omega))

theorem alwaysSafe_dayIsOver : AlwaysSafe dayIsOver :=
  .bind (.warehouse readsOnly_getDateDataLength.emptiesHours) fun _ =>
    .ite (fun _ => .bind alwaysSafe_isLastDateDataToday fun _ => .pure _) fun _ => .pure _

theorem alwaysSafe_closeDay : AlwaysSafe closeDay :=
  .bind (.warehouse readsOnly_sumHourData.emptiesHours) fun _ =>
    .bind (alwaysSafe_storeAverage _) fun _ => .bind (.warehouse ⟨fun _ => rfl, trivial⟩) fun _ =>
      .bind (.modify _) fun _ => alwaysSafe_appendToday

theorem alwaysSafe_onlineStart : AlwaysSafe onlineStart :=
  .bind alwaysSafe_dayIsOver fun _ => .bind (.ite (fun _ => alwaysSafe_closeDay) fun _ => .pure _)
    fun _ => .bind (.warehouse readsOnly_recordedHour.emptiesHours) fun _ => .pure _

theorem alwaysSafe_onlinePass (previousHr : Nat) : AlwaysSafe (onlinePass previousHr) := by
  refine .bind .vars fun v => .ite (fun _ => ?_) fun _ => .pure _
  refine .bind (.modify _) fun _ => .bind .vars fun v => .ite (fun _ => .pure _) fun _ => ?_
  exact .bind .vars fun v => .bind (.modify _) fun _ => .bind (.modify _) fun _ =>
    .bind (.modify _) fun _ => .pure _

theorem alwaysSafe_openDay : AlwaysSafe openDay := by
  refine .bind .vars fun v => .bind (.ite (fun _ => ?_) fun _ => .pure _) fun _ => ?_
  · exact .warehouse ⟨fun _ => rfl, trivial⟩
  · exact .bind alwaysSafe_isLastDateDataToday fun _ => .ite (fun _ => .pure _) fun _ =>
      alwaysSafe_appendToday

theorem alwaysSafe_appendHour : AlwaysSafe appendHour :=
  .bind .vars fun _ => .bind (.ite (fun _ => .modify _) fun _ => .pure _) fun _ =>
    .bind .vars fun _ => .append _ _ _

theorem alwaysSafe_closeHours : AlwaysSafe closeHours :=
  .bind (.warehouse readsOnly_sumHourData.emptiesHours) fun _ =>
    .bind (.warehouse fun _ => trivial) fun _ => .ite (fun _ => .fault _) fun _ =>
      alwaysSafe_storeAverage _

theorem alwaysSafe_recordHour : AlwaysSafe recordHour := by
  refine .bind alwaysSafe_openDay fun _ => .bind alwaysSafe_appendHour fun _ => ?_
  refine .bind (.modify _) fun _ => .bind (.modify _) fun _ => .bind .vars fun v => ?_
  exact .bind (.ite (fun _ => alwaysSafe_closeHours) fun _ => .pure _) fun _ =>
    .bind .vars fun _ => .bind (.modify _) fun _ => .pure _

theorem alwaysSafe_clearWarehouseData : AlwaysSafe clearWarehouseData :=
  .bind (.warehouse emptiesHours_formatZero) fun _ => .bind .vars fun _ => .bind .vars fun _ =>
    .bind (.append _ _ _) fun _ => .bind (.warehouse (emptiesHours_appendToday _)) fun _ => .pure _

end Perioder

/-- **Every task** keeps the logs apart. -/
theorem alwaysSafe_next (r : Rest) : AlwaysSafe r.next := by
  cases r with
  | created => exact Perioder.alwaysSafe_onlineStart
  | loop previousHr => exact Perioder.alwaysSafe_onlinePass previousHr
  | changed => exact Perioder.alwaysSafe_recordHour
  | clearCreated => exact Perioder.alwaysSafe_clearWarehouseData
  | ended => exact .pure _

/-! ## Runs -/

variable {s t : TaskState} {e : TaskEvent} {es : List TaskEvent}

/-- The head is valid, and every task is safe. -/
structure ApartInv (s : TaskState) : Prop where
  head : HeadValid s.mem
  safe : ∀ th ∈ s.threads, apartRules.Safe (fun _ t => HeadValid t.store) th.task s.shared
  outside : ∀ th ∈ s.threads, GoesOutside th.task

theorem ApartInv.logsApart (h : ApartInv s) : LogsApart s :=
  ⟨h.head, fun th hth now _ _ hw => (h.safe th hth).writes h.head hw now rfl⟩

theorem GoesOutside.step {p p' : OnlineTask Rest} {u u' : OnlineShared} (h : GoesOutside p)
    (hstep : p.step u = .ok (p', u')) : GoesOutside p' := by
  cases p with
  | done a =>
    cases hstep
    exact h
  | fault e => cases hstep
  | read part x next =>
    cases hstep
    exact h.2 _
  | write part x v next =>
    cases hstep
    exact h
  | look next =>
    cases hstep
    exact h _
  | change f next =>
    cases hstep
    exact h

/-- What is created or changed elsewhere leaves the tasks safe. -/
theorem ApartInv.of_threads (h : ApartInv s) (hmem : t.mem = s.mem)
    (hthreads : ∀ th ∈ t.threads, th ∈ s.threads ∨ ∃ r, th = .resting r) : ApartInv t := by
  have hhead : HeadValid t.mem := hmem ▸ h.head
  refine ⟨hhead, fun th hth => ?_, fun th hth => ?_⟩
  · rcases hthreads th hth with hold | ⟨r, rfl⟩
    · exact (h.safe th hold).between hhead
    · exact (alwaysSafe_next r).safe _
  · rcases hthreads th hth with hold | ⟨r, rfl⟩
    · exact h.outside th hold
    · exact (alwaysSafe_next r).outside

/-- **The step lemma.** -/
theorem ApartInv.step (h : ApartInv s) (hroom : FindsRoom s e) (hstep : taskStep s e = .ok t) :
    ApartInv t := by
  have hcreate : ∀ (r : Rest) (th : Thread), th ∈ s.threads ++ [.resting r] →
      th ∈ s.threads ∨ ∃ r, th = .resting r := by
    intro r th hth
    rcases List.mem_append.1 hth with hth | hth
    · exact Or.inl hth
    · exact Or.inr ⟨r, List.mem_singleton.1 hth⟩
  cases e with
  | tick now =>
    cases hstep
    exact h.of_threads rfl fun th hth => Or.inl hth
  | gotIp =>
    cases hstep
    exact h.of_threads rfl (hcreate _)
  | startClear =>
    cases hstep
    exact h.of_threads rfl (hcreate _)
  | setSum value =>
    cases hstep
    exact h.of_threads rfl fun th hth => Or.inl hth
  | setInitialized b =>
    cases hstep
    exact h.of_threads rfl fun th hth => Or.inl hth
  | reboot =>
    cases hstep
    exact h.of_threads rfl fun th hth => absurd hth List.not_mem_nil
  | step k =>
    rcases hth : s.threads[k]? with _ | th
    · simp only [taskStep, hth] at hstep
      cases hstep
      exact h
    · obtain ⟨p, u, hp, rfl⟩ := exists_of_step hth hstep
      have hmem := List.mem_of_getElem? hth
      obtain ⟨hsafe, hhead⟩ := (h.safe th hmem).step h.head (fun part x hread now hpart hx => by
        subst hpart hx
        exact hroom th hth now hread) h.head hp
      refine ⟨hhead, fun th' hth' => ?_, fun th' hth' => ?_⟩
      · rcases List.mem_or_eq_of_mem_set hth' with hold | heq
        · exact (h.safe th' hold).between hhead
        · rw [heq]
          rcases task_on th.rest p with heq | ⟨r', heq⟩ <;> rw [heq]
          · exact hsafe
          · exact (alwaysSafe_next r').safe _
      · rcases List.mem_or_eq_of_mem_set hth' with hold | heq
        · exact h.outside th' hold
        · rw [heq]
          rcases task_on th.rest p with heq | ⟨r', heq⟩ <;> rw [heq]
          · exact (h.outside th hmem).step hp
          · exact (alwaysSafe_next r').outside

/-- An append that finds 24 records goes on outside. -/
theorem ApartInv.findsRoom (h : ApartInv s)
    (hnext : ∀ t, taskStep s e = .ok t → LogsApart t) : FindsRoom s e := by
  cases e with
  | step k =>
    intro th hth now hread h23
    have hover := h.outside th (List.mem_of_getElem? hth)
    have hlt : k < s.threads.length := (List.getElem?_eq_some_iff.1 hth).1
    rcases hp : th.task with a | f | ⟨part, x, next⟩ | ⟨part, x, v, next⟩ | next | ⟨f, next⟩
    case read =>
      rw [hp] at hread hover
      obtain ⟨rfl, rfl⟩ := Prod.mk.inj (Option.some.inj hread)
      obtain ⟨y, v, p, hnext23, hout⟩ := hover.1 now rfl rfl
      have hstep : taskStep s (.step k) = .ok ⟨s.shared, s.threads.set k
          (.on th.rest (.write (.hourly now) y v p))⟩ := by
        simp only [taskStep, hth, Thread.step, hp, Task.step]
        rw [show s.shared.store eepromHourHeadPtr = 23 from h23, hnext23]
        rfl
      have hinside := (hnext _ hstep).2 (.on th.rest (.write (.hourly now) y v p))
        (List.mem_set hlt _) now y v rfl
      exact hout hinside
    all_goals
      rw [hp] at hread
      cases hread
  | tick now => trivial
  | gotIp => trivial
  | startClear => trivial
  | setSum value => trivial
  | setInitialized b => trivial
  | reboot => trivial

theorem apartInv_of_formatted (h : s.Formatted) : ApartInv s := by
  obtain ⟨hthreads, m, deep, hformat⟩ := h
  rw [eval_formatZero] at hformat
  obtain ⟨-, hmem⟩ := Prod.mk.inj (Except.ok.inj hformat)
  refine ⟨?_, by simp [hthreads], by simp [hthreads]⟩
  rw [← hmem]
  exact (logsValid_of_format m deep).hour

namespace TaskState

/-- **The logs stay apart exactly if every append finds room**: from a formatted EEPROM, with any
number of tasks whose accesses come in any order, the head of the hour log is 255 or at most 23 and
every append writes to the counter, the head and the hour log in every state of a run, if and only
if no append reads the head when 24 hours are recorded. -/
theorem logsApart_iff (h : s.Formatted) :
    EachState taskStep LogsApart s es ↔ EachStep taskStep FindsRoom s es := by
  have hinv := apartInv_of_formatted h
  rw [eachState_iff, and_iff_right hinv.logsApart]
  symm
  refine eachStep_iff_of_inv (I := ApartInv) (fun _ _ _ hI hC hstep => hI.step hC hstep)
    (fun s e hI => ⟨fun hroom t hstep => (hI.step hroom hstep).logsApart, hI.findsRoom⟩) hinv

/-- The bridge after a restart, with a formatted EEPROM of zeros. -/
def fresh : TaskState := ⟨⟨OnlineState.fresh.mem, fun _ => none, OnlineVars.boot Tm.zero⟩, []⟩

theorem formatted_fresh : fresh.Formatted :=
  ⟨rfl, fun _ => 0, false, eval_formatZero _ false⟩

/-- The first task makes steps enough for a pass and the next look at the clock. -/
def passAt (now : Tm) : List TaskEvent := .tick now :: List.replicate 40 (.step 0)

/-- A task is started on January 1, and every hour of that day is recorded; the last pass takes
longer, since it reads the log. -/
def firstDay : List TaskEvent :=
  [.tick (OnlineState.january 1 0), .gotIp, .step 0, .step 0, .step 0, .setInitialized true] ++
    ((List.range 24).flatMap fun hour => passAt (OnlineState.january 1 hour)) ++
      List.replicate 80 (.step 0)

/-- An append finds room, as a test. -/
def hasRoom (s : TaskState) : TaskEvent → Bool
  | .step k => match (s.threads[k]?.bind fun th => th.task.nextRead) with
    | some (.hourly _, x) => x != eepromHourHeadPtr || s.mem eepromHourHeadPtr != 23
    | _ => true
  | _ => true

/-- The next hour is recorded at midnight. -/
theorem logsApart_midnight :
    EachState taskStep LogsApart fresh (firstDay ++ passAt (OnlineState.january 2 0)) := by
  refine (logsApart_iff formatted_fresh).2 (eachStep_of_checkSteps (p := hasRoom) ?_
    (by decide +kernel))
  intro s e hcheck
  cases e with
  | step k =>
    intro th hth now hread
    simpa [hasRoom, hth, hread] using hcheck
  | tick now => trivial
  | gotIp => trivial
  | startClear => trivial
  | setSum value => trivial
  | setInitialized b => trivial
  | reboot => trivial

/-- The modules are away at midnight. -/
def missedMidnight : List TaskEvent :=
  firstDay ++ .setInitialized false :: passAt (OnlineState.january 2 0) ++
    .setInitialized true :: passAt (OnlineState.january 2 1)

/-- The next record is the 25th, on top of the first date. -/
theorem not_logsApart_missedMidnight : ¬ EachState taskStep LogsApart fresh missedMidnight := by
  intro hall
  obtain ⟨t, ht, hcheck⟩ := exists_of_okAnd (x := run taskStep fresh missedMidnight)
    (p := fun t => t.mem eepromHourHeadPtr = 24) (by decide +kernel)
  have h24 := of_decide_eq_true hcheck
  have hvalid : HeadByte (t.mem eepromHourHeadPtr) := (hall.last ht).1
  rw [h24] at hvalid
  exact absurd hvalid (by unfold HeadByte; decide)

end TaskState

end NinaHomekit
