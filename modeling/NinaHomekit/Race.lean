import NinaHomekit.Perioder.OnlineSpec
import NinaHomekit.ReadFailure
import NinaHomekit.Lib.Interleave

/-!
# Clearing the logs while an hour is recorded

`clearWarehouseData` and a pass of `onlinePeriodicTask` that finds the hour changed run in two
tasks, and every byte that is written lets the other go on.  The histories should be those of the
two one after the other.

* `Race`, `Race.accesses` — the two tasks at once, and their accesses to the EEPROM.
* `Race.Serialisable` — the histories are those of one of the two orders.
* `Race.ClearFirst`, `Race.PassLost`, `Race.DayLost`, `Race.TestEarly` — the clear comes first, or
  sees nothing of the pass, or nothing of its test and record of the day, or comes first but for
  the test of the day.
* `within_*`, `alike_*` — which cells the programs access, and that the counter does not matter.
* `dateSlots_hourStored`, `dateSlots_cleared`, `dateLog_dataCleared` — the date log that they leave.
-/

namespace NinaHomekit

open Store Trace Warehouse

/-! ## The two tasks -/

/-- `clearWarehouseData` and the pass of the other task: the EEPROM, the schedule (`true` is the
clear), and the clock and the current that each has read. -/
structure Race where
  mem : Eeprom
  turns : List Bool
  clearNow : Tm
  sumCurrent : UInt16
  now : Tm
  current : UInt16

/-- The heads of the logs are 255 or in the log. -/
structure HeadsValid (m : Eeprom) : Prop where
  hour : m eepromHourHeadPtr = 255 ∨ (m eepromHourHeadPtr).toNat ≤ 23
  date : m eepromDateHeadPtr = 255 ∨ (m eepromDateHeadPtr).toNat ≤ 30

/-- The histories are those after a program. -/
def HistoriesAfter (p : EepromProg Unit) (m m' : Eeprom) : Prop :=
  ∃ m₁, p.eval m = .ok ((), m₁) ∧ hourHistory m' = hourHistory m₁ ∧
    dateHistory m' = dateHistory m₁

/-- Two clock readings have the same date. -/
def SameDay (a b : Tm) : Prop :=
  a.tmYear = b.tmYear ∧ a.tmMon = b.tmMon ∧ a.tmMday = b.tmMday

instance (a b : Tm) : Decidable (SameDay a b) := inferInstanceAs (Decidable (_ ∧ _ ∧ _))

/-- All cells but those of the counter, which no history shows. -/
def logCells : Set Nat := {x | 3 ≤ x}

instance : DecidablePred (· ∈ logCells) := fun x => inferInstanceAs (Decidable (3 ≤ x))

/-- The cells of the date log: its head, and all from its records on. -/
def DateCell (x : Nat) : Prop := x = eepromDateHeadPtr ∨ eepromDateDataPtr ≤ x

instance (x : Nat) : Decidable (DateCell x) := inferInstanceAs (Decidable (_ ∨ _))

/-- Whose an access is: the clear's, of the pass for its test of the day, or of the pass for its
record of the hour. -/
inductive RacePart where
  | clear
  | day
  | hour
  deriving DecidableEq

/-- The pass reads the head of the hour log, which is the first step of its record. -/
def isHourRead : Bool × Access Nat UInt8 → Bool
  | (false, .read x _) => x == eepromHourHeadPtr
  | _ => false

/-- The pass reads the head of the date log, which is the first step of its test of the day and of
its record of the date. -/
def isDateRead : Bool × Access Nat UInt8 → Bool
  | (false, .read x _) => x == eepromDateHeadPtr
  | _ => false

namespace Race

variable (r : Race)

/-- The task that clears. -/
def clear : EepromProg Unit := clearWarehouseData r.clearNow r.sumCurrent

/-- The pass of the other. -/
def change : EepromProg Unit := hourChange r.now r.current

/-- The accesses of the two, in order. -/
def accesses : List (Bool × Access Nat UInt8) :=
  Prog.parAccesses r.turns r.clear r.change r.mem

/-- Both tasks come to their end, and the histories are those of one after the other. -/
def Serialisable : Prop :=
  ∃ m', (Prog.par r.turns r.clear r.change).eval r.mem = .ok (((), ()), m') ∧
    (HistoriesAfter (do r.clear; r.change) r.mem m' ∨
      HistoriesAfter (do r.change; r.clear) r.mem m')

/-! ## When they keep apart -/

/-- The accesses with the part they are of: until the pass reads the head of the hour log, its
accesses to the date log are those of its test of the day. -/
def parts : List (RacePart × Access Nat UInt8) :=
  (r.accesses.takeWhile fun a => !isHourRead a).map
      (fun a => (if a.1 then .clear else if DateCell a.2.cell then .day else .hour, a.2)) ++
    (r.accesses.dropWhile fun a => !isHourRead a).map
      fun a => (if a.1 then .clear else .hour, a.2)

/-- No access of the clear comes behind one of the pass to the same cell. -/
def ClearFirst : Prop := Ordered logCells id r.accesses

/-- The accesses until the pass begins to record the date, with its second read of the head of the
date log. -/
def tested : List (Bool × Access Nat UInt8) :=
  let rest := r.accesses.dropWhile fun a => !isDateRead a
  (r.accesses.takeWhile fun a => !isDateRead a) ++ (rest.take 1 ++
    (rest.drop 1).takeWhile fun a => !isDateRead a)

/-- The accesses from then on. -/
def recorded : List (Bool × Access Nat UInt8) :=
  ((r.accesses.dropWhile fun a => !isDateRead a).drop 1).dropWhile fun a => !isDateRead a

/-- The accesses without those of the test of the day. -/
def untested : List (Bool × Access Nat UInt8) :=
  (r.tested.filter fun a => a.1 || !decide (DateCell a.2.cell)) ++ r.recorded

/-- At hour 23, when the pass reads the head of the hour log for the last time, for its average, the
last write to the head has not emptied the log. -/
def AverageFinds : Prop :=
  r.now.tmHour = 23 → ∀ u s v w ptr z,
    r.accesses = u ++ (s, .write eepromHourHeadPtr v) :: w ++
      (false, .read eepromHourHeadPtr ptr) :: z →
    (∀ a ∈ w, a.2.isWrite = true → a.2.cell ≠ eepromHourHeadPtr) →
    (∀ a ∈ z, isHourRead a = false) → v ≠ 255

/-- The clear sees nothing of the pass: a cell of the clear that the pass changes is overwritten by
the clear before it is read. -/
def PassLost : Prop := Lost logCells id r.mem r.accesses ∧ r.AverageFinds

/-- It is the day of the clear, nothing is seen of the test of the day and the record of a date,
and no access of the clear comes behind one of the rest of the pass to the same cell. -/
def DayLost : Prop :=
  SameDay r.clearNow r.now ∧ Lost logCells (· != .day) r.mem r.parts ∧
    Ordered logCells (· == .clear) (r.parts.filter fun a => a.1 != .day)

/-- It is another day than that of the clear, the pass records its date, and no access of the clear
comes behind one of the pass to the same cell, but for those of the test of the day. -/
def TestEarly : Prop :=
  ¬ SameDay r.clearNow r.now ∧ (∃ v, (false, .write eepromDateHeadPtr v) ∈ r.accesses) ∧
    Ordered logCells id r.untested

/-- The tasks keep apart. -/
def Apart : Prop := r.ClearFirst ∨ r.PassLost ∨ r.DayLost ∨ r.TestEarly

end Race

/-! ## What the tasks access -/

/-- The rest of `beforeRecord`, after the hour log was emptied. -/
def openDay (now : Tm) : EepromProg Unit := do
  let today ← isLastDateDataToday now
  if today then pure () else appendToday now

/-- The rest of `hourChange`, after `beforeRecord`. -/
def recordHour (now : Tm) (current : UInt16) : EepromProg Unit := do
  appendHourlyRecord (UInt8.ofNat now.tmHour) current
  afterRecord now

theorem hourChange_eq (now : Tm) (current : UInt16) :
    hourChange now current = beforeRecord now >>= fun _ => recordHour now current := rfl

theorem beforeRecord_of_ne {now : Tm} (h : now.tmHour ≠ 0) : beforeRecord now = openDay now := by
  unfold beforeRecord
  rw [if_neg h]
  rfl

theorem beforeRecord_of_eq {now : Tm} (h : now.tmHour = 0) :
    beforeRecord now = Prog.write eepromHourHeadPtr 255 (openDay now) := by
  unfold beforeRecord
  rw [if_pos h]
  rfl

theorem dateCell_slot (d k : Nat) : DateCell (eepromDateDataPtr + d * 5 + k) := Or.inr (by omega)

theorem within_appendToday (now : Tm) : (appendToday now).Within DateCell := by
  refine ⟨Or.inl rfl, fun ptr => ?_⟩
  exact ⟨dateCell_slot _ 0, dateCell_slot _ 1, dateCell_slot _ 2, dateCell_slot _ 3,
    dateCell_slot _ 4, Or.inl rfl, trivial⟩

/-- The test of the day, after the head is read. -/
def slotIsToday (now : Tm) (ptr : UInt8) : EepromProg Bool :=
  if ptr.toNat < eepromDateRecordNum then do
    let yy ← read (eepromDateDataPtr + ptr.toNat * 5)
    if now.tmYear = yy.toNat then
      let mm ← read (eepromDateDataPtr + ptr.toNat * 5 + 1)
      if now.tmMon = mm.toNat then
        let dd ← read (eepromDateDataPtr + ptr.toNat * 5 + 2)
        return now.tmMday = dd.toNat
      else return false
    else return false
  else return false

theorem isLastDateDataToday_eq (now : Tm) :
    isLastDateDataToday now = Prog.read eepromDateHeadPtr (slotIsToday now) := rfl

theorem looks_slotIsToday (now : Tm) (ptr : UInt8) :
    (slotIsToday now ptr).Looks (eepromDateDataPtr ≤ ·) := by
  have hcell : ∀ k, eepromDateDataPtr ≤ eepromDateDataPtr + ptr.toNat * 5 + k := by
    intro k
    omega
  unfold slotIsToday
  by_cases hptr : ptr.toNat < eepromDateRecordNum
  · rw [if_pos hptr]
    refine ⟨hcell 0, fun yy => ?_⟩
    show Prog.Looks _ (if now.tmYear = yy.toNat then _ else _)
    by_cases hyear : now.tmYear = yy.toNat
    · rw [if_pos hyear]
      refine ⟨hcell 1, fun mm => ?_⟩
      show Prog.Looks _ (if now.tmMon = mm.toNat then _ else _)
      by_cases hmon : now.tmMon = mm.toNat
      · rw [if_pos hmon]
        exact ⟨hcell 2, fun _ => trivial⟩
      · rw [if_neg hmon]
        trivial
    · rw [if_neg hyear]
      trivial
  · rw [if_neg hptr]
    trivial

theorem within_isLastDateDataToday (now : Tm) : (isLastDateDataToday now).Within DateCell :=
  ⟨Or.inl rfl, fun ptr => (looks_slotIsToday now ptr).within.mono fun _ => Or.inr⟩

theorem within_openDay (now : Tm) : (openDay now).Within DateCell := by
  refine (within_isLastDateDataToday now).bind fun today => ?_
  cases today
  · exact within_appendToday now
  · trivial

theorem alike_increaseCycleRecord : Prog.Alike logCells increaseCycleRecord increaseCycleRecord := by
  have hout : ∀ k < 3, eepromCycleRecord + k ∉ logCells := by
    intro k hk hle
    exact absurd hle (show ¬ 3 ≤ 0 + k by omega)
  refine .readOut (hout 0 (by decide)) fun _ _ => .readOut (hout 1 (by decide)) fun _ _ =>
    .readOut (hout 2 (by decide)) fun _ _ => ?_
  exact .writeOut (hout 0 (by decide)) (.writeOut (hout 1 (by decide))
    (.writeOut (hout 2 (by decide)) (.done ())))

theorem alike_appendHourlyRecord (hr : UInt8) (current : UInt16) :
    Prog.Alike logCells (appendHourlyRecord hr current) (appendHourlyRecord hr current) :=
  .read (show 3 ≤ 3 from le_rfl) fun _ => .write (.write (.write (.write alike_increaseCycleRecord)))

/-- A program whose accesses are all to the date log. -/
theorem alike_of_within {α : Type} {p : EepromProg α} (h : p.Within DateCell) :
    Prog.Alike logCells p p := by
  refine (h.mono fun x hx => ?_).alike
  have haddr := eeprom_addresses
  show 3 ≤ x
  rcases hx with rfl | hx <;> omega

theorem alike_formatZero : Prog.Alike logCells (formatZero false) (formatZero false) :=
  .write (.write (.write (.write (.write (.write (.write (.done ())))))))

theorem alike_clear (r : Race) : Prog.Alike logCells r.clear r.clear :=
  alike_formatZero.bind fun _ => (alike_appendHourlyRecord _ _).bind fun _ =>
    alike_of_within (within_appendToday r.clearNow)

theorem alike_beforeRecord (now : Tm) :
    Prog.Alike logCells (beforeRecord now) (beforeRecord now) := by
  by_cases h0 : now.tmHour = 0
  · rw [beforeRecord_of_eq h0]
    exact .write (alike_of_within (within_openDay now))
  · rw [beforeRecord_of_ne h0]
    exact alike_of_within (within_openDay now)

theorem within_sumHourData : sumHourData.Within (· ∈ logCells) := by
  have hslot : ∀ i k, eepromHourDataPtr + i * 3 + k ∈ logCells := by
    intro i k
    show 3 ≤ 5 + i * 3 + k
    omega
  have hlen : getHourDataLength.Within (· ∈ logCells) := ⟨show 3 ≤ 3 from le_rfl, fun _ => trivial⟩
  rw [sumHourData_eq]
  refine Prog.Within.forWhile hlen (fun sum i => ?_) _ _
  exact ⟨hslot i 1, fun _ => ⟨hslot i 2, fun _ => trivial⟩⟩

theorem alike_dailyAverage : Prog.Alike logCells dailyAverage dailyAverage := by
  refine within_sumHourData.alike.bind fun sum => .read (show 3 ≤ 3 from le_rfl) fun ptr => ?_
  show Prog.Alike _ (if (ptr + 1).toNat = 0 then _ else _) (if (ptr + 1).toNat = 0 then _ else _)
  by_cases hzero : (ptr + 1).toNat = 0
  · rw [if_pos hzero]
    exact .fault _
  · rw [if_neg hzero]
    exact .read (show 3 ≤ 4 by decide) fun _ => .write (.write (.done ()))

theorem alike_recordHour (now : Tm) (current : UInt16) :
    Prog.Alike logCells (recordHour now current) (recordHour now current) := by
  refine (alike_appendHourlyRecord _ current).bind fun _ => ?_
  unfold afterRecord
  by_cases h23 : now.tmHour = 23
  · rw [if_pos h23]
    exact alike_dailyAverage
  · rw [if_neg h23]
    exact .done ()

theorem alike_change (r : Race) : Prog.Alike logCells r.change r.change :=
  (alike_beforeRecord r.now).bind fun _ => alike_recordHour r.now r.current

/-! ## What they leave -/

section

variable {m m' : Eeprom} {now : Tm} {current : UInt16}

theorem hourHistory_of_eqOn (h : Set.EqOn m' m logCells) : hourHistory m' = hourHistory m := by
  have haddr := eeprom_addresses
  have h3 : eepromHourHeadPtr = 3 := rfl
  rw [hourHistory_eq, hourHistory_eq]
  exact hourLog_congr (h h3.ge) fun x hx _ => h (show 3 ≤ x by omega)

theorem dateHistory_of_eqOn (h : Set.EqOn m' m logCells) : dateHistory m' = dateHistory m := by
  have haddr := eeprom_addresses
  rw [dateHistory_eq, dateHistory_eq]
  exact dateLog_of_eq fun x hx => h (show 3 ≤ x by omega)

theorem eval_recordHour (hlen : hourLen m ≤ 24) (now : Tm) (current : UInt16) :
    (recordHour now current).eval m = .ok ((), hourStored m now current) := by
  unfold recordHour
  rw [Prog.eval_bind_of_ok (eval_appendHourlyRecord _ _ current), eval_afterRecord]
  · rfl
  · intro _
    have hnext := hourLen_hourAppended hlen now current
    show hourLen (hourAppended m now current) ≠ 0
    omega

theorem eval_change (r : Race)
    (h : m eepromHourHeadPtr = 255 ∨ (m eepromHourHeadPtr).toNat ≤ 23) :
    r.change.eval m = .ok ((), hourRecorded m r.now r.current) :=
  eval_hourChange_of_head h r.now r.current

theorem hourAppended_of_date (hlen : hourLen m ≤ 23) {x : Nat}
    (hx : x = eepromDateHeadPtr ∨ eepromDateDataPtr ≤ x) :
    hourAppended m now current x = m x := by
  have haddr := eeprom_addresses
  have hlen' : (m eepromHourHeadPtr + 1).toNat ≤ 23 := hlen
  exact putAll_hourWrites_of_ne (by omega) (by omega)

theorem dateSlots_hourStored (hlen : hourLen m ≤ 23) (now : Tm) (current : UInt16) :
    dateSlots (hourStored m now current) = dateSlots m := by
  have haddr := eeprom_addresses
  have hslots : dateSlots (hourAppended m now current) = dateSlots m :=
    dateSlots_congr (hourAppended_of_date hlen (Or.inl rfl))
      (hourAppended_of_date hlen (Or.inr (by omega)))
  rw [← hslots]
  unfold hourStored
  by_cases h23 : now.tmHour = 23
  · simp only [if_pos h23]
    apply dateSlots_congr
    · apply averageStored_of_ne <;> omega
    · apply averageStored_of_ne <;> omega
  · simp only [if_neg h23]

theorem isToday_reset (m : Eeprom) (now : Tm) :
    IsToday (if now.tmHour = 0 then Function.update m eepromHourHeadPtr 255 else m) now ↔
      IsToday m now := by
  by_cases h0 : now.tmHour = 0
  · have haddr := eeprom_addresses
    have hkeep : ∀ x, 3 < x → Function.update m eepromHourHeadPtr 255 x = m x :=
      fun x hx => Function.update_of_ne (by omega) _ _
    rw [if_pos h0]
    exact isToday_congr (hkeep _ (by decide)) (fun k _ => hkeep _ (by omega)) now
  · rw [if_neg h0]

/-- There is nothing to open on a day that has its record. -/
theorem dayOpened_of_isToday (h : IsToday m now) : dayOpened m now =
    if now.tmHour = 0 then Function.update m eepromHourHeadPtr 255 else m := by
  unfold dayOpened
  exact if_pos ((isToday_reset m now).2 h)

theorem isToday_of_sameDay {a b : Tm} (h : SameDay a b) (m : Eeprom) (current : UInt16) :
    IsToday (dataCleared m a current) b := by
  obtain ⟨hp, hy, hm, hd⟩ := isToday_dataCleared m a current
  exact ⟨hp, h.1 ▸ hy, h.2.1 ▸ hm, h.2.2 ▸ hd⟩

/-- Two readings of the last date are of one day. -/
theorem sameDay_of_isToday {m : Eeprom} {a b : Tm} (ha : IsToday m a) (hb : IsToday m b) :
    SameDay a b :=
  ⟨ha.2.1.trans hb.2.1.symm, ha.2.2.1.trans hb.2.2.1.symm, ha.2.2.2.trans hb.2.2.2.symm⟩

theorem hourLen_reset (m : Eeprom) : hourLen (Function.update m eepromHourHeadPtr 255) = 0 := by
  unfold hourLen
  rw [Function.update_self]
  rfl

theorem dateSlots_reset (m : Eeprom) :
    dateSlots (Function.update m eepromHourHeadPtr 255) = dateSlots m :=
  dateSlots_congr (Function.update_of_ne (by decide) _ _) (Function.update_of_ne (by decide) _ _)

theorem hourLen_dataCleared (m : Eeprom) (a : Tm) (current : UInt16) :
    hourLen (dataCleared m a current) = 1 := by
  rw [← length_hourLog, hourLog_dataCleared]
  rfl

/-- The EEPROM before a clear appends its date: there is none. -/
theorem dateSlots_cleared (m : Eeprom) (a : Tm) (current : UInt16) :
    hourAppended (Prog.putAll m (formatWrites false)) a current eepromDateHeadPtr = 255 ∧
      lastYear (hourAppended (Prog.putAll m (formatWrites false)) a current) = 0 := by
  have hlen : hourLen (Prog.putAll m (formatWrites false)) ≤ 23 := by simp
  exact ⟨hourAppended_of_date hlen (Or.inl rfl), hourAppended_of_date hlen (Or.inr (by decide))⟩

theorem dateHead_dataCleared (m : Eeprom) (a : Tm) (current : UInt16) :
    dataCleared m a current eepromDateHeadPtr = 0 := by
  have hhead : dataCleared m a current eepromDateHeadPtr = designatedDatePtr _ :=
    putAll_dateWrites_head ..
  rw [hhead, (dateSlots_cleared m a current).1]
  rfl

theorem dateLog_dataCleared (m : Eeprom) (a : Tm) (current : UInt16) :
    dateLog (dataCleared m a current) = [(dateStr (UInt8.ofNat a.tmYear) (UInt8.ofNat a.tmMon)
      (UInt8.ofNat a.tmMday), 0)] := by
  obtain ⟨hptr, hyear⟩ := dateSlots_cleared m a current
  show dateLog (Prog.putAll (hourAppended _ a current) (todayWrites _ a)) = _
  unfold todayWrites
  rw [dateLog_dateWrites (Or.inl ⟨hptr, hyear⟩), dateLog, dateSlots_of_empty hptr hyear]
  rfl

theorem dateSlots_dataCleared (m : Eeprom) (a : Tm) (current : UInt16) :
    dateSlots (dataCleared m a current) = [0] := by
  have hhead : (dataCleared m a current eepromDateHeadPtr).toNat = 0 := by
    rw [dateHead_dataCleared]
    rfl
  obtain ⟨older, hslots, -⟩ := dateSlots_concat hhead (by decide)
  have hone := congrArg List.length (dateLog_dataCleared m a current)
  rw [length_dateLog, hslots, List.length_append] at hone
  obtain rfl : older = [] := List.length_eq_zero_iff.1 (by simpa using hone)
  exact hslots

theorem HistoriesAfter.length_eq {p : EepromProg Unit} {m m' : Eeprom} {n : Nat}
    (h : HistoriesAfter p m m')
    (hn : okAnd (p.eval m) (fun a => (hourHistory a.2).length = n) = true) :
    (hourHistory m').length = n := by
  obtain ⟨m₁, hm₁, hhour, -⟩ := h
  obtain ⟨a, ha, hlen⟩ := exists_of_okAnd hn
  rw [hm₁] at ha
  cases ha
  rw [hhour]
  exact of_decide_eq_true hlen

end

end NinaHomekit
