import NinaHomekit.Perioder.Online

/-!
# What the tasks do to the EEPROM

The programs of `onlinePeriodicTask` as functions of the bytes.

* `IsToday`, `hourSum` — what the tests and the averages read.
* `dayOpened`, `dayClosed`, `averageStored` — the EEPROM after `beforeRecord`, `closeDay` and a
  stored average.
* `hourRecorded`, `dataCleared` — the EEPROM after `hourChange` and after `clearWarehouseData`.
* `hourLog_hourStored`, `hourLog_dataCleared`, `isToday_dataCleared` — what they leave in the logs.
* `ReadsOnly` — the parts that only read.
-/

namespace NinaHomekit

open Store Trace

namespace Warehouse

variable {m m' : Eeprom} {now : Tm}

/-! ## What is read -/

/-- The last date record is of the date of `now`. -/
def IsToday (m : Eeprom) (now : Tm) : Prop :=
  (m eepromDateHeadPtr).toNat < eepromDateRecordNum ∧
    now.tmYear = (m (eepromDateDataPtr + (m eepromDateHeadPtr).toNat * 5)).toNat ∧
    now.tmMon = (m (eepromDateDataPtr + (m eepromDateHeadPtr).toNat * 5 + 1)).toNat ∧
    now.tmMday = (m (eepromDateDataPtr + (m eepromDateHeadPtr).toNat * 5 + 2)).toNat

instance : Decidable (IsToday m now) := inferInstanceAs (Decidable (_ ∧ _ ∧ _ ∧ _))

theorem eval_isLastDateDataToday (m : Eeprom) (now : Tm) :
    (isLastDateDataToday now).eval m = .ok (decide (IsToday m now), m) := by
  unfold isLastDateDataToday IsToday getRecordedDatePtr read
  simp only [Prog.eval_bind, Prog.eval_ite, map_eq_pure_bind, Prog.pure_eq_done,
    Prog.eval_done, ok_bind, Prog.get_bind, Prog.eval_read]
  by_cases hp : (m eepromDateHeadPtr).toNat < eepromDateRecordNum
  · by_cases hy : now.tmYear = (m (eepromDateDataPtr + (m eepromDateHeadPtr).toNat * 5)).toNat
    · by_cases hm : now.tmMon = (m (eepromDateDataPtr + (m eepromDateHeadPtr).toNat * 5 + 1)).toNat
      · simp [hp, hy, hm]
      · simp [hy, hm]
    · simp [hy]
  · simp only [hp, if_false, false_and, decide_false]

/-- The body of the loop that sums the currents. -/
def sumPass (avgSumCurrent : Nat) (i : Nat) : EepromProg Nat := do
  let d ← readAsInt16 (eepromHourDataPtr + i * 3 + 1)
  return avgSumCurrent + d.toNat

theorem sumHourData_eq : sumHourData = forHourData sumPass 0 := rfl

/-- The sum of the currents in the hour log. -/
def hourSum (m : Eeprom) : Nat := ((hourLog m).map fun r => r.2.toNat).sum

theorem eval_sumHourData (m : Eeprom) : sumHourData.eval m = .ok (hourSum m, m) := by
  have hloop : (forHourData sumPass 0).eval m =
      .ok ((List.range (hourLen m)).foldl (fun sum i => sum + (hourRecord m i).2.toNat) 0, m) :=
    eval_forHourData (fun _ _ => rfl) 0
  have hfold : ∀ (l : List Nat) (k : Nat), l.foldl (fun sum i => sum + (hourRecord m i).2.toNat) k =
      k + ((l.map (hourRecord m)).map fun r => r.2.toNat).sum := by
    intro l
    induction l with
    | nil => intro k; simp
    | cons i l ih => intro k; simp [ih, Nat.add_assoc]
  rw [sumHourData_eq, hloop, hfold, Nat.zero_add]
  rfl

/-! ## What is written -/

/-- The writes of `appendToday`. -/
def todayWrites (m : Eeprom) (now : Tm) : List (Nat × UInt8) :=
  dateWrites (m eepromDateHeadPtr) (UInt8.ofNat now.tmYear) (UInt8.ofNat now.tmMon)
    (UInt8.ofNat now.tmMday) 0

/-- The EEPROM after `beforeRecord`. -/
def dayOpened (m : Eeprom) (now : Tm) : Eeprom :=
  let m := if now.tmHour = 0 then Function.update m eepromHourHeadPtr 255 else m
  if IsToday m now then m else Prog.putAll m (todayWrites m now)

/-- The EEPROM after `appendHourlyRecord`. -/
def hourAppended (m : Eeprom) (now : Tm) (current : UInt16) : Eeprom :=
  Prog.putAll m (hourWrites m (m eepromHourHeadPtr) (UInt8.ofNat now.tmHour) current)

/-- The EEPROM after an average is written to the last date record. -/
def averageStored (m : Eeprom) (avg : Nat) : Eeprom :=
  Prog.putAll m
    [(eepromDateDataPtr + (m eepromDateHeadPtr).toNat * 5 + 3, loByte (UInt16.ofNat avg)),
      (eepromDateDataPtr + (m eepromDateHeadPtr).toNat * 5 + 3 + 1, hiByte (UInt16.ofNat avg))]

/-- The EEPROM after `closeDay`. -/
def dayClosed (m : Eeprom) (now : Tm) : Eeprom :=
  let m := Function.update (averageStored m (hourSum m / 24)) eepromHourHeadPtr 255
  Prog.putAll m (todayWrites m now)

/-- The EEPROM after `clearWarehouseData`. -/
def dataCleared (m : Eeprom) (now : Tm) (current : UInt16) : Eeprom :=
  let m := hourAppended (Prog.putAll m (formatWrites false)) now current
  Prog.putAll m (todayWrites m now)

theorem eval_beforeRecord (m : Eeprom) (now : Tm) :
    (beforeRecord now).eval m = .ok ((), dayOpened m now) := by
  obtain ⟨m₁, hm₁⟩ : ∃ m₁, m₁ =
    if now.tmHour = 0 then Function.update m eepromHourHeadPtr 255 else m := ⟨_, rfl⟩
  have hreset : (if now.tmHour = 0 then updateRecordedHourPtr 255 else pure () :
      EepromProg Unit).eval m = .ok ((), m₁) := by
    rw [Prog.eval_ite, hm₁]
    by_cases h0 : now.tmHour = 0
    · rw [if_pos h0, if_pos h0]
      rfl
    · rw [if_neg h0, if_neg h0]
      rfl
  unfold beforeRecord dayOpened
  rw [Prog.eval_bind_of_ok hreset, Prog.eval_bind_of_ok (eval_isLastDateDataToday m₁ now), ← hm₁]
  by_cases htoday : IsToday m₁ now
  · simp only [htoday, decide_true, if_true]
    rfl
  · simp only [htoday, decide_false, if_false, Bool.false_eq_true]
    rfl

theorem eval_dailyAverage (m : Eeprom) : dailyAverage.eval m =
    if hourLen m = 0 then .error .divByZero
    else .ok ((), averageStored m (hourSum m / hourLen m)) := by
  unfold dailyAverage
  rw [Prog.eval_bind_of_ok (eval_sumHourData m), Prog.eval_bind_of_ok (eval_getHourDataLength m),
    Prog.eval_ite]
  rfl

theorem eval_afterRecord (m : Eeprom) (now : Tm) (hlen : now.tmHour = 23 → hourLen m ≠ 0) :
    (afterRecord now).eval m = .ok ((), if now.tmHour = 23 then
      averageStored m (hourSum m / hourLen m) else m) := by
  unfold afterRecord
  rw [Prog.eval_ite]
  by_cases h23 : now.tmHour = 23
  · rw [if_pos h23, if_pos h23, eval_dailyAverage, if_neg (hlen h23)]
  · rw [if_neg h23, if_neg h23]
    rfl

theorem eval_hourChange (m : Eeprom) (now : Tm) (current : UInt16) :
    (hourChange now current).eval m =
      (afterRecord now).eval (hourAppended (dayOpened m now) now current) := by
  unfold hourChange
  rw [Prog.eval_bind_of_ok (eval_beforeRecord m now),
    Prog.eval_bind_of_ok (eval_appendHourlyRecord _ _ current)]
  rfl

theorem eval_dayIsOver (m : Eeprom) (timeinfo : Tm) :
    (dayIsOver timeinfo).eval m = .ok (decide (dateLen m > 0 ∧ ¬ IsToday m timeinfo), m) := by
  unfold dayIsOver
  rw [Prog.eval_bind_of_ok (eval_getDateDataLength m), Prog.eval_ite]
  by_cases hlen : dateLen m > 0
  · rw [if_pos hlen, map_eq_pure_bind, Prog.eval_bind_of_ok (eval_isLastDateDataToday m timeinfo)]
    simp [hlen]
  · rw [if_neg hlen]
    simp [hlen]

theorem eval_closeDay (m : Eeprom) (now : Tm) :
    (closeDay now).eval m = .ok ((), dayClosed m now) := by
  have hsum : ((· / 24) <$> sumHourData).eval m = .ok (hourSum m / 24, m) := by
    rw [map_eq_pure_bind, Prog.eval_bind_of_ok (eval_sumHourData m)]
    rfl
  unfold closeDay
  rw [Prog.eval_bind_of_ok hsum]
  rfl

theorem eval_recordedHour (m : Eeprom) :
    ∃ previousHr, recordedHour.eval m = .ok (previousHr, m) := by
  unfold recordedHour getRecordedHourPtr read
  rw [Prog.get_bind, Prog.eval_read, Prog.eval_ite]
  by_cases h255 : m eepromHourHeadPtr = 255
  · rw [if_pos h255]
    exact ⟨255, rfl⟩
  · rw [if_neg h255]
    exact ⟨_, rfl⟩

theorem eval_onlineStart (m : Eeprom) (timeinfo now : Tm) : ∃ r,
    (onlineStart timeinfo now).eval m = .ok (r, if dateLen m > 0 ∧ ¬ IsToday m timeinfo then
      dayClosed m now else m) := by
  unfold onlineStart
  rw [Prog.eval_bind_of_ok (eval_dayIsOver m timeinfo)]
  by_cases hover : dateLen m > 0 ∧ ¬ IsToday m timeinfo
  · obtain ⟨previousHr, hprev⟩ := eval_recordedHour (dayClosed m now)
    refine ⟨(previousHr, true), ?_⟩
    rw [if_pos hover, decide_eq_true hover]
    show Prog.eval (closeDay now >>= _) m = _
    rw [Prog.eval_bind_of_ok (eval_closeDay m now), Prog.eval_bind_of_ok hprev]
    rfl
  · obtain ⟨previousHr, hprev⟩ := eval_recordedHour m
    refine ⟨(previousHr, false), ?_⟩
    rw [if_neg hover, decide_eq_false hover]
    show Prog.eval (recordedHour >>= _) m = _
    rw [Prog.eval_bind_of_ok hprev]
    rfl

theorem eval_clearWarehouseData (m : Eeprom) (now : Tm) (current : UInt16) :
    (clearWarehouseData now current).eval m = .ok ((), dataCleared m now current) := by
  unfold clearWarehouseData
  rw [Prog.eval_bind_of_ok (eval_formatZero m false),
    Prog.eval_bind_of_ok (eval_appendHourlyRecord _ _ current)]
  rfl

/-! ## Valid heads -/

theorem LogsValid.hourReset (h : LogsValid m) :
    LogsValid (Function.update m eepromHourHeadPtr 255) :=
  ⟨Or.inl rfl, h.date⟩

theorem LogsValid.appendToday (h : LogsValid m) (now : Tm) :
    LogsValid (Prog.putAll m (todayWrites m now)) := by
  refine h.callStep ?_ (callStep_eq m (.date _ _ _ 0))
  trivial

theorem LogsValid.dayReset (h : LogsValid m) (now : Tm) :
    LogsValid (if now.tmHour = 0 then Function.update m eepromHourHeadPtr 255 else m) := by
  by_cases h0 : now.tmHour = 0
  · rw [if_pos h0]
    exact h.hourReset
  · rw [if_neg h0]
    exact h

theorem LogsValid.hourAppended (h : LogsValid m) (hne : m eepromHourHeadPtr ≠ 23) (now : Tm)
    (current : UInt16) : LogsValid (hourAppended m now current) := by
  refine h.callStep ?_ (callStep_eq m (.hour _ current))
  exact hne

/-- An average goes to the last two bytes of a date record. -/
theorem averageStored_of_ne {avg x : Nat}
    (h3 : x ≠ eepromDateDataPtr + (m eepromDateHeadPtr).toNat * 5 + 3)
    (h4 : x ≠ eepromDateDataPtr + (m eepromDateHeadPtr).toNat * 5 + 3 + 1) :
    averageStored m avg x = m x := by
  apply Prog.putAll_of_notMem
  intro w hw
  rcases List.mem_pair.1 hw with rfl | rfl
  · exact h3.symm
  · exact h4.symm

theorem logsValid_dataCleared (m : Eeprom) (now : Tm) (current : UInt16) :
    LogsValid (dataCleared m now current) :=
  ((logsValid_of_format m false).hourAppended (show (255 : UInt8) ≠ 23 by decide) now
    current).appendToday now

theorem appendToday_of_lt (m : Eeprom) (now : Tm) {x : Nat} (hx : x < eepromDateDataPtr)
    (h4 : x ≠ eepromDateHeadPtr) : Prog.putAll m (todayWrites m now) x = m x :=
  putAll_dateWrites_of_ne h4 (Or.inl (by omega))

theorem dayOpened_hourHead (m : Eeprom) (now : Tm) : dayOpened m now eepromHourHeadPtr =
    if now.tmHour = 0 then 255 else m eepromHourHeadPtr := by
  have hreset : (if now.tmHour = 0 then Function.update m eepromHourHeadPtr 255 else m)
      eepromHourHeadPtr = if now.tmHour = 0 then 255 else m eepromHourHeadPtr := by
    by_cases h0 : now.tmHour = 0
    · rw [if_pos h0, if_pos h0, Function.update_self]
    · rw [if_neg h0, if_neg h0]
  unfold dayOpened
  rw [← hreset]
  by_cases htoday :
    IsToday (if now.tmHour = 0 then Function.update m eepromHourHeadPtr 255 else m) now
  · rw [if_pos htoday]
  · rw [if_neg htoday]
    exact appendToday_of_lt _ now (by decide) (by decide)

end Warehouse

/-! ## What an event does -/

open Warehouse

variable {s t : OnlineState} {e : OnlineEvent}

/-- What an event appends to the hour log: what is done before, with which clock reading it is
called, and the current. -/
def appendCall (s : OnlineState) : OnlineEvent → Option (EepromProg Unit × Tm × UInt16)
  | .task k now _ => if s.hourChanges k now then some (beforeRecord now, now, s.recordCurrent)
    else none
  | .clear now => some (formatZero false, now, s.sumCurrent)
  | _ => none

theorem runOn_of_eval {α : Type} {p : EepromProg α} {a : α} {m : Eeprom}
    (h : p.eval s.mem = .ok (a, m)) : s.runOn p = .ok (a, { s with mem := m }) := by
  unfold OnlineState.runOn
  rw [h]
  rfl

theorem exists_of_runOn {α : Type} {p : EepromProg α} {r : α × OnlineState}
    (h : s.runOn p = .ok r) : ∃ m, p.eval s.mem = .ok (r.1, m) ∧ r.2 = { s with mem := m } := by
  rcases hp : p.eval s.mem with fault | ⟨a, m⟩
  · unfold OnlineState.runOn at h
    rw [hp] at h
    cases h
  · rw [runOn_of_eval hp] at h
    cases h
    exact ⟨m, rfl, rfl⟩

theorem hourLen_hourAppended {m : Eeprom} (hlen : hourLen m ≤ 24) (now : Tm) (current : UInt16) :
    hourLen (hourAppended m now current) = hourLen m + 1 := by
  unfold hourLen at hlen ⊢
  unfold hourAppended
  rw [putAll_hourWrites_head]
  simp only [UInt8.toNat_add (m eepromHourHeadPtr + 1), UInt8.toNat_one]
  omega

/-- What the record of an hour leaves. -/
def hourRecorded (m : Eeprom) (now : Tm) (current : UInt16) : Eeprom :=
  let m := hourAppended (dayOpened m now) now current
  if now.tmHour = 23 then averageStored m (hourSum m / hourLen m) else m

theorem eval_hourChange_of_head {m : Eeprom}
    (h : m eepromHourHeadPtr = 255 ∨ (m eepromHourHeadPtr).toNat ≤ 23) (now : Tm)
    (current : UInt16) :
    (hourChange now current).eval m = .ok ((), hourRecorded m now current) := by
  have hlen : hourLen (dayOpened m now) ≤ 24 := by
    apply hourLen_le_of_head
    rw [dayOpened_hourHead]
    by_cases h0 : now.tmHour = 0
    · rw [if_pos h0]
      exact Or.inl rfl
    · rw [if_neg h0]
      exact h
  rw [eval_hourChange, eval_afterRecord]
  · rfl
  · intro _
    rw [hourLen_hourAppended hlen]
    omega

namespace Warehouse

variable {m m' : Eeprom} {now : Tm} {current : UInt16}

/-! ## The logs after an hour is recorded -/

theorem isToday_congr (hptr : m' eepromDateHeadPtr = m eepromDateHeadPtr)
    (h : ∀ k < 3, m' (eepromDateDataPtr + (m eepromDateHeadPtr).toNat * 5 + k) =
      m (eepromDateDataPtr + (m eepromDateHeadPtr).toNat * 5 + k)) (t : Tm) :
    IsToday m' t ↔ IsToday m t := by
  unfold IsToday
  rw [hptr, show m' (eepromDateDataPtr + (m eepromDateHeadPtr).toNat * 5) = _ from h 0 (by decide),
    h 1 (by decide), h 2 (by decide)]
  rfl

/-- What is appended as the record of today is one. -/
theorem isToday_appendToday (h : LogsValid m) (now : Tm) :
    IsToday (Prog.putAll m (todayWrites m now)) now := by
  have hle := h.designated_le
  have haddr := eeprom_addresses
  have hyear := now.year_lt
  have hmon := now.mon_lt
  have hmday := now.mday_le
  have hhead : Prog.putAll m (todayWrites m now) eepromDateHeadPtr =
      designatedDatePtr (m eepromDateHeadPtr) := putAll_dateWrites_head ..
  obtain ⟨hy, hm, hd⟩ := putAll_dateWrites_slot (m := m) (m eepromDateHeadPtr)
    (UInt8.ofNat now.tmYear) (UInt8.ofNat now.tmMon) (UInt8.ofNat now.tmMday) 0
  unfold IsToday
  rw [hhead]
  unfold todayWrites
  rw [hy, hm, hd]
  simp only [UInt8.toNat_ofNat']
  refine ⟨by omega, ?_, ?_, ?_⟩ <;> omega

theorem hourLog_appendToday (hlen : hourLen m ≤ 24) (now : Tm) :
    hourLog (Prog.putAll m (todayWrites m now)) = hourLog m := hourLog_dateWrites hlen ..

theorem hourLog_dayOpened (hlen : hourLen m ≤ 24) (now : Tm) :
    hourLog (dayOpened m now) = if now.tmHour = 0 then [] else hourLog m := by
  by_cases h0 : now.tmHour = 0
  · rw [if_pos h0]
    apply hourLog_of_empty
    rw [dayOpened_hourHead, if_pos h0]
  · rw [if_neg h0]
    unfold dayOpened
    simp only [if_neg h0]
    by_cases htoday : IsToday m now
    · rw [if_pos htoday]
    · rw [if_neg htoday]
      exact hourLog_appendToday hlen now

theorem hourLog_hourAppended (hlen : hourLen m ≤ 24) (now : Tm) (current : UInt16) :
    hourLog (hourAppended m now current) = hourLog m ++ [(UInt8.ofNat now.tmHour, current)] :=
  hourLog_afterHour (fun _ => addr_of_mem_cycleWrites) hlen

theorem hourLog_averageStored (h : hourLen m ≤ 25) (avg : Nat) :
    hourLog (averageStored m avg) = hourLog m := by
  have haddr := eeprom_addresses
  apply hourLog_congr
  · apply averageStored_of_ne <;> omega
  · intro x h1 h2
    apply averageStored_of_ne <;> omega

/-- The EEPROM after an hour is recorded, on a day that is open. -/
def hourStored (m : Eeprom) (now : Tm) (current : UInt16) : Eeprom :=
  let m := hourAppended m now current
  if now.tmHour = 23 then averageStored m (hourSum m / hourLen m) else m

theorem hourRecorded_eq (m : Eeprom) (now : Tm) (current : UInt16) :
    hourRecorded m now current = hourStored (dayOpened m now) now current := rfl

theorem hourLog_hourStored (hlen : hourLen m ≤ 24) (now : Tm) (current : UInt16) :
    hourLog (hourStored m now current) = hourLog m ++ [(UInt8.ofNat now.tmHour, current)] := by
  rw [← hourLog_hourAppended hlen]
  unfold hourStored
  by_cases h23 : now.tmHour = 23
  · simp only [if_pos h23]
    apply hourLog_averageStored
    rw [hourLen_hourAppended hlen]
    omega
  · simp only [if_neg h23]

theorem hourLog_dataCleared (m : Eeprom) (now : Tm) (current : UInt16) :
    hourLog (dataCleared m now current) = [(UInt8.ofNat now.tmHour, current)] := by
  have hvalid := logsValid_of_format m false
  have happ := hvalid.hourAppended (show (255 : UInt8) ≠ 23 by decide) now current
  show hourLog (Prog.putAll (hourAppended _ now current) _) = _
  rw [hourLog_appendToday happ.hourLen_le', hourLog_hourAppended hvalid.hourLen_le',
    hourLog_of_empty rfl]
  rfl

theorem isToday_dataCleared (m : Eeprom) (now : Tm) (current : UInt16) :
    IsToday (dataCleared m now current) now :=
  isToday_appendToday ((logsValid_of_format m false).hourAppended
    (show (255 : UInt8) ≠ 23 by decide) now current) now

end Warehouse

/-! ## Parts that only read -/

/-- A program that only reads. -/
abbrev ReadsOnly {α : Type} (q : EepromProg α) : Prop := q.Puts fun _ _ => False

theorem readsOnly_sumHourData : ReadsOnly sumHourData := by
  have hlen : ReadsOnly getHourDataLength := fun _ => trivial
  have hpass : ∀ sum i, ReadsOnly (sumPass sum i) := fun _ _ _ _ => trivial
  rw [sumHourData_eq]
  exact hlen.forWhile hpass _ _

theorem readsOnly_getDateDataLength : ReadsOnly getDateDataLength := by
  intro ptr
  show Prog.Puts _ (if (ptr + 1).toNat < eepromDateRecordNum then _ else _)
  by_cases hlt : (ptr + 1).toNat < eepromDateRecordNum
  · rw [if_pos hlt]
    exact fun _ => trivial
  · rw [if_neg hlt]
    trivial

theorem readsOnly_recordedHour : ReadsOnly recordedHour := by
  intro ptr
  show Prog.Puts _ (if ptr = 255 then _ else _)
  by_cases h255 : ptr = 255
  · rw [if_pos h255]
    trivial
  · rw [if_neg h255]
    exact fun _ => trivial

end NinaHomekit
