import NinaHomekit.Lib.Tasks
import NinaHomekit.Perioder.OnlineSpec

/-!
# The tasks, access by access

Every `Warehouse.write` waits, and a task may be preempted anywhere: the tasks of `Perioder.cpp` and
`clearWarehouseData` come between each other's accesses of the EEPROM, and share `timeinfo` and two
static variables.  A step here is one access of the EEPROM, one look at the variables, or one
change of them.

* `OnlineVars`, `Part` — the variables, and where an access is made.
* `onlineStart`, `onlinePass`, `recordHour`, `clearWarehouseData` — what a task does from one `Rest`
  to the next.
* `TaskState`, `TaskEvent`, `taskStep` — any number of tasks, and their steps in any order.
-/

namespace NinaHomekit

open Store Trace Warehouse

/-! ## What the tasks share -/

/-- The variables.  The tasks read `clock` with `time` and `localtime_r`. -/
structure OnlineVars where
  clock : Tm
  timeinfo : Tm
  avgSystemCurrent : UInt16
  avgSysCurrentCount : UInt8
  moduleInitialized : Bool
  sumCurrent : UInt16

/-- The variables after a restart. -/
def OnlineVars.boot (clock : Tm) : OnlineVars := ⟨clock, Tm.zero, 0, 0, false, 0⟩

/-- Where an access of the EEPROM is made: in an `appendHourlyRecord` of the hour of a reading of
the clock, or elsewhere. -/
inductive Part where
  | hourly (now : Tm)
  | elsewhere

/-- The EEPROM and the variables. -/
abbrev OnlineShared := Shared Nat UInt8 OnlineVars Part

/-- A function of `Perioder.cpp` or of `Warehouse.cpp`. -/
abbrev OnlineTask := Task Nat UInt8 OnlineVars Part Fault

/-- What a task rests at. -/
inductive Rest where
  /-- `onlinePeriodicTask` is created. -/
  | created
  /-- It is at the head of its loop. -/
  | loop (previousHr : Nat)
  /-- It has found that the hour has changed. -/
  | changed
  /-- `clearWarehouseData` is created. -/
  | clearCreated
  /-- `vTaskDelete`. -/
  | ended

namespace Perioder

/-- A function of `Warehouse` that appends no hour. -/
def warehouse {α : Type} (p : EepromProg α) : OnlineTask α := p.inTask .elsewhere

/-- `getTime`. -/
def getTime : OnlineTask Unit := Task.modify fun v => { v with timeinfo := v.clock }

/-- `isLastDateDataToday(&CoreBridge.timeinfo)`. -/
def isLastDateDataToday : OnlineTask Bool := do
  let dateDataPtr ← warehouse (UInt8.toNat <$> getRecordedDatePtr)
  if dateDataPtr < eepromDateRecordNum then
    let yy ← warehouse (read (eepromDateDataPtr + dateDataPtr * 5))
    let v ← Task.vars
    if v.timeinfo.tmYear = yy.toNat then
      let mm ← warehouse (read (eepromDateDataPtr + dateDataPtr * 5 + 1))
      let v ← Task.vars
      if v.timeinfo.tmMon = mm.toNat then
        let dd ← warehouse (read (eepromDateDataPtr + dateDataPtr * 5 + 2))
        let v ← Task.vars
        return v.timeinfo.tmMday = dd.toNat
      else return false
    else return false
  else return false

/-- `appendDateRecord` with the date of `timeinfo`. -/
def appendToday : OnlineTask Unit := do
  let v ← Task.vars
  warehouse (Warehouse.appendToday v.timeinfo)

/-- The test in front of the loop. -/
def dayIsOver : OnlineTask Bool := do
  let length ← warehouse getDateDataLength
  if length > 0 then do
    let today ← isLastDateDataToday
    return !today
  else return false

/-- The average of a day divided by `n`, in the last date record. -/
def storeAverage (avg : Nat) : OnlineTask Unit := do
  let ptr ← warehouse getRecordedDatePtr
  warehouse (writeAsInt16 (UInt16.ofNat avg) (eepromDateDataPtr + ptr.toNat * 5 + 3))

/-- The block in front of the loop for a day that is over. -/
def closeDay : OnlineTask Unit := do
  let avgSumCurrent ← warehouse sumHourData
  storeAverage (avgSumCurrent / 24)
  warehouse (updateRecordedHourPtr 255)
  getTime
  appendToday

/-- The part of `onlinePeriodicTask` in front of the loop. -/
def onlineStart : OnlineTask Rest := do
  let ended ← dayIsOver
  (if ended then closeDay else pure ())
  let previousHr ← warehouse recordedHour
  return .loop previousHr

/-- A pass of the loop, up to the test that finds the hour changed. -/
def onlinePass (previousHr : Nat) : OnlineTask Rest := do
  let v ← Task.vars
  if v.moduleInitialized then do
    getTime
    let v ← Task.vars
    if v.timeinfo.tmHour ≠ previousHr then return .changed
    else do
      let v ← Task.vars
      Task.modify fun w => { w with
        avgSystemCurrent := UInt16.ofNat ((v.avgSystemCurrent.toNat + v.sumCurrent.toNat) / 2) }
      Task.modify fun w => { w with avgSysCurrentCount := w.avgSysCurrentCount + 1 }
      getTime
      return .loop previousHr
  else return .loop previousHr

/-- A new log at hour 0, and a record of today if there is none. -/
def openDay : OnlineTask Unit := do
  let v ← Task.vars
  (if v.timeinfo.tmHour = 0 then warehouse (updateRecordedHourPtr 255) else pure ())
  let today ← isLastDateDataToday
  if today then pure () else appendToday

/-- The record of the hour in `timeinfo`, with the average current or, if there is none, the
current. -/
def appendHour : OnlineTask Unit := do
  let v ← Task.vars
  (if v.avgSysCurrentCount = 0 then
    Task.modify fun w => { w with avgSystemCurrent := w.sumCurrent }
  else pure ())
  let v ← Task.vars
  (appendHourlyRecord (UInt8.ofNat v.timeinfo.tmHour) v.avgSystemCurrent).inTask
    (.hourly v.timeinfo)

/-- The average of a day at hour 23. -/
def closeHours : OnlineTask Unit := do
  let avgSumCurrent ← warehouse sumHourData
  let length ← warehouse getHourDataLength
  if length = 0 then .fault .divByZero else storeAverage (avgSumCurrent / length)

/-- A pass of the loop from the test on that finds the hour changed. -/
def recordHour : OnlineTask Rest := do
  openDay
  appendHour
  Task.modify fun w => { w with avgSystemCurrent := 0 }
  Task.modify fun w => { w with avgSysCurrentCount := 0 }
  let v ← Task.vars
  (if v.timeinfo.tmHour = 23 then closeHours else pure ())
  let v ← Task.vars
  getTime
  return .loop v.timeinfo.tmHour

/-- `clearWarehouseData`, which has a clock reading of its own. -/
def clearWarehouseData : OnlineTask Rest := do
  warehouse (formatZero false)
  let v ← Task.vars
  let timeinfo := v.clock
  let v ← Task.vars
  (appendHourlyRecord (UInt8.ofNat timeinfo.tmHour) v.sumCurrent).inTask (.hourly timeinfo)
  warehouse (Warehouse.appendToday timeinfo)
  return .ended

end Perioder

/-! ## Steps in any order -/

/-- What a task does next. -/
def Rest.next : Rest → OnlineTask Rest
  | created => Perioder.onlineStart
  | loop previousHr => Perioder.onlinePass previousHr
  | changed => Perioder.recordHour
  | clearCreated => Perioder.clearWarehouseData
  | ended => .done .ended

/-- It is an update of the EEPROM. -/
def Rest.updates : Rest → Bool
  | created | changed | clearCreated => true
  | loop _ | ended => false

/-- A task: it rests, or it is on the way from a rest to the next. -/
inductive Thread where
  | resting (r : Rest)
  | running (r : Rest) (p : OnlineTask Rest)

namespace Thread

/-- The rest a task is at or comes from. -/
def rest : Thread → Rest
  | resting r => r
  | running r _ => r

/-- What is left to do until the next. -/
def task : Thread → OnlineTask Rest
  | resting r => r.next
  | running _ p => p

/-- The task is on the way from `r` with `p` left to do. -/
def on (r : Rest) : OnlineTask Rest → Thread
  | .done r' => resting r'
  | p => running r p

/-- The next step. -/
def step (th : Thread) (s : OnlineShared) : Except Fault (Thread × OnlineShared) := do
  let (p, s) ← th.task.step s
  return (on th.rest p, s)

/-- The task is within an update of the EEPROM. -/
def updating : Thread → Bool
  | resting _ => false
  | running r _ => r.updates

/-- The task is within `clearWarehouseData`. -/
def clearing : Thread → Bool
  | running .clearCreated _ => true
  | _ => false

end Thread

/-- The tasks and what they share. -/
structure TaskState where
  shared : OnlineShared
  threads : List Thread

/-- What happens. -/
inductive TaskEvent where
  /-- The clock goes on, or is set. -/
  | tick (now : Tm)
  /-- `IP_EVENT_STA_GOT_IP`: `initTime` reads the clock, and a task is created. -/
  | gotIp
  /-- A task for `clearWarehouseData` is created. -/
  | startClear
  /-- A report changes the sum of the currents. -/
  | setSum (value : UInt16)
  /-- Linking changes `module_initialized`. -/
  | setInitialized (b : Bool)
  /-- The next step of the task `k`. -/
  | step (k : Nat)
  /-- A restart, also one after a fault: only the EEPROM stays as it is. -/
  | reboot
  deriving DecidableEq

namespace TaskState

/-- The variables are changed. -/
def setVars (s : TaskState) (f : OnlineVars → OnlineVars) : TaskState :=
  { s with shared := s.shared.setVars f }

/-- One more task. -/
def create (s : TaskState) (r : Rest) : TaskState :=
  { s with threads := s.threads ++ [.resting r] }

/-- The EEPROM. -/
abbrev mem (s : TaskState) : Eeprom := s.shared.store

/-- The variables. -/
abbrev vars (s : TaskState) : OnlineVars := s.shared.vars

end TaskState

/-- One event. -/
def taskStep (s : TaskState) : TaskEvent → Except Fault TaskState
  | .tick now => .ok (s.setVars fun v => { v with clock := now })
  | .gotIp => .ok ((s.setVars fun v => { v with timeinfo := v.clock }).create .created)
  | .startClear => .ok (s.create .clearCreated)
  | .setSum value => .ok (s.setVars fun v => { v with sumCurrent := value })
  | .setInitialized b => .ok (s.setVars fun v => { v with moduleInitialized := b })
  | .step k =>
    match s.threads[k]? with
    | none => .ok s
    | some th => do
      let (th, shared) ← th.step s.shared
      return ⟨shared, s.threads.set k th⟩
  | .reboot => .ok ⟨s.shared.setVars fun v => OnlineVars.boot v.clock, []⟩

/-- A state whose EEPROM was just formatted, before any task is created. -/
def TaskState.Formatted (s : TaskState) : Prop :=
  s.threads = [] ∧ ∃ m deep, (formatZero deep).eval m = .ok ((), s.mem)

/-! ## Steps of a task -/

variable {s t : TaskState}

/-- What is left of a task, or the next, if nothing is left. -/
theorem task_on (r : Rest) (p : OnlineTask Rest) :
    (Thread.on r p).task = p ∨ ∃ r' : Rest, (Thread.on r p).task = r'.next := by
  cases p with
  | done r' => exact Or.inr ⟨r', rfl⟩
  | _ => exact Or.inl rfl

/-- The step of a task. -/
theorem exists_of_step {k : Nat} {th : Thread} (hth : s.threads[k]? = some th)
    (h : taskStep s (.step k) = .ok t) : ∃ p u, th.task.step s.shared = .ok (p, u) ∧
      t = ⟨u, s.threads.set k (.on th.rest p)⟩ := by
  simp only [taskStep, hth] at h
  obtain ⟨⟨th', u⟩, hstep, h⟩ := bind_eq_ok.1 h
  obtain ⟨⟨p, _⟩, hp, hth'⟩ := bind_eq_ok.1 hstep
  cases hth'
  cases h
  exact ⟨p, u, hp, rfl⟩

end NinaHomekit
