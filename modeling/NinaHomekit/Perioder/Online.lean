import NinaHomekit.CoreBridge.LogCalls

/-!
# Recording the current

`onlinePeriodicTask` of `Perioder.cpp`, which records the average current of every hour, and the
events around it: `IP_EVENT_STA_GOT_IP`, which starts one more task, `clearWarehouseData` and a
restart.  The tasks share the EEPROM and two static variables, and each has its own
`previousHr`.

* `closeDay`, `onlineStart` — what a task does before its loop.
* `dailyAverage`, `hourChange` — what it does when the hour has changed.
* `OnlineState`, `OnlineEvent`, `onlineStep` — the tasks, one pass at a time.  That no other task
  comes between is the case `Perioder.Whole` finds among the runs of `Perioder.Tasks`, whose steps
  are single accesses.
-/

namespace NinaHomekit

open Store Trace Warehouse

/-! ## What a task does to the EEPROM -/

/-- The block for a day that is over: its average, an empty hour log and a record of today. -/
def closeDay (now : Tm) : EepromProg Unit := do
  let avgSumCurrent ← (· / 24) <$> sumHourData
  let ptr ← getRecordedDatePtr
  writeAsInt16 (UInt16.ofNat avgSumCurrent) (eepromDateDataPtr + ptr.toNat * 5 + 3)
  updateRecordedHourPtr 255
  appendToday now

/-- The test of that block, with the clock reading left in `timeinfo`. -/
def dayIsOver (timeinfo : Tm) : EepromProg Bool := do
  let length ← getDateDataLength
  if length > 0 then not <$> isLastDateDataToday timeinfo else return false

/-- `previousHr` before the loop. -/
def recordedHour : EepromProg Nat := do
  let previousHr ← getRecordedHourPtr
  if previousHr = 255 then return 255
  else UInt8.toNat <$> read (eepromHourDataPtr + previousHr.toNat * 3)

/-- The part of `onlinePeriodicTask` in front of the loop: `previousHr`, and whether the clock
was read. -/
def onlineStart (timeinfo now : Tm) : EepromProg (Nat × Bool) := do
  let ended ← dayIsOver timeinfo
  (if ended then closeDay now else pure ())
  let previousHr ← recordedHour
  return (previousHr, ended)

/-- The average of the day that is stored at hour 23. -/
def dailyAverage : EepromProg Unit := do
  let avgSumCurrent ← sumHourData
  let length ← getHourDataLength
  if length = 0 then Prog.fault .divByZero
  else do
    let ptr ← getRecordedDatePtr
    writeAsInt16 (UInt16.ofNat (avgSumCurrent / length)) (eepromDateDataPtr + ptr.toNat * 5 + 3)

/-- What is done before the record of an hour: a new log at hour 0, and a record of today if
there is none. -/
def beforeRecord (now : Tm) : EepromProg Unit := do
  (if now.tmHour = 0 then updateRecordedHourPtr 255 else pure ())
  let today ← isLastDateDataToday now
  if today then pure () else appendToday now

/-- What is done after it. -/
def afterRecord (now : Tm) : EepromProg Unit := if now.tmHour = 23 then dailyAverage else pure ()

/-- A pass of the loop in which the hour has changed. -/
def hourChange (now : Tm) (current : UInt16) : EepromProg Unit := do
  beforeRecord now
  appendHourlyRecord (UInt8.ofNat now.tmHour) current
  afterRecord now

/-! ## The tasks -/

/-- What the tasks work on.  A task has no `previousHr` before its first step. -/
structure OnlineState where
  mem : Eeprom
  timeinfo : Tm
  avgSystemCurrent : UInt16
  avgSysCurrentCount : UInt8
  moduleInitialized : Bool
  sumCurrent : UInt16
  tasks : List (Option Nat)

/-- What happens, with the readings of the clock. -/
inductive OnlineEvent where
  /-- `IP_EVENT_STA_GOT_IP`: `initTime` reads the clock, and a task is created. -/
  | gotIp (now : Tm)
  /-- The next step of the task `k`: its part in front of the loop, or a pass of the loop. -/
  | task (k : Nat) (now later : Tm)
  /-- `clearWarehouseData`. -/
  | clear (now : Tm)
  /-- A report changes the sum of the currents. -/
  | setSum (value : UInt16)
  /-- Linking changes `module_initialized`. -/
  | setInitialized (b : Bool)
  /-- A restart: only the EEPROM stays as it is. -/
  | reboot

/-- The global `timeinfo` before it is written to. -/
def Tm.zero : Tm := ⟨0, 0, 0, 0, by decide, by decide, by decide, by decide⟩

namespace OnlineState

/-- The EEPROM after a program that is run on it. -/
def runOn {α : Type} (s : OnlineState) (p : EepromProg α) : Except Fault (α × OnlineState) :=
  (fun r => (r.1, { s with mem := r.2 })) <$> p.eval s.mem

/-- The current that is recorded. -/
def recordCurrent (s : OnlineState) : UInt16 :=
  if s.avgSysCurrentCount = 0 then s.sumCurrent else s.avgSystemCurrent

/-- The task `k` finds that the hour has changed. -/
def hourChanges (s : OnlineState) (k : Nat) (now : Tm) : Bool :=
  match s.tasks[k]? with
  | some (some previousHr) => s.moduleInitialized && now.tmHour != previousHr
  | _ => false

/-- A pass of the loop. -/
def pass (s : OnlineState) (k previousHr : Nat) (now later : Tm) : Except Fault OnlineState :=
  if s.moduleInitialized then
    if now.tmHour ≠ previousHr then do
      let (_, s) ← s.runOn (hourChange now s.recordCurrent)
      return { s with
        avgSystemCurrent := 0, avgSysCurrentCount := 0, timeinfo := later
        tasks := s.tasks.set k (some now.tmHour) }
    else .ok { s with
      avgSystemCurrent := UInt16.ofNat ((s.avgSystemCurrent.toNat + s.sumCurrent.toNat) / 2)
      avgSysCurrentCount := s.avgSysCurrentCount + 1, timeinfo := later }
  else .ok s

/-- The next step of the task `k`. -/
def task (s : OnlineState) (k : Nat) (now later : Tm) : Except Fault OnlineState :=
  match s.tasks[k]? with
  | none => .ok s
  | some none => do
    let ((previousHr, ended), s) ← s.runOn (onlineStart s.timeinfo now)
    return { s with
      timeinfo := if ended then now else s.timeinfo, tasks := s.tasks.set k (some previousHr) }
  | some (some previousHr) => s.pass k previousHr now later

end OnlineState

/-- One event. -/
def onlineStep (s : OnlineState) : OnlineEvent → Except Fault OnlineState
  | .gotIp now => .ok { s with timeinfo := now, tasks := s.tasks ++ [none] }
  | .task k now later => s.task k now later
  | .clear now => Prod.snd <$> s.runOn (clearWarehouseData now s.sumCurrent)
  | .setSum value => .ok { s with sumCurrent := value }
  | .setInitialized b => .ok { s with moduleInitialized := b }
  | .reboot => .ok ⟨s.mem, Tm.zero, 0, 0, false, 0, []⟩

namespace OnlineState

/-- The bridge after a restart, with a formatted EEPROM of zeros. -/
def fresh : OnlineState :=
  ⟨Prog.putAll (fun _ => 0) (formatWrites false), Tm.zero, 0, 0, false, 0, []⟩

/-- A reading of the clock in January 2021. -/
def january (mday hour : Nat) : Tm :=
  { Tm.zero with
    tmYear := 121
    tmMday := min mday 31
    tmHour := min hour 23
    year_lt := by decide
    mday_le := Nat.min_le_right mday 31
    hour_lt := Nat.lt_succ_of_le (Nat.min_le_right hour 23) }

/-- A pass of the first task. -/
def passAt (now : Tm) : OnlineEvent := .task 0 now now

end OnlineState

end NinaHomekit
