import NinaHomekit.Definitions
import NinaHomekit.Lib.Store

/-!
# The EEPROM

`Warehouse.cpp`: the cycle counter, the log of the hours of a day and the log of the last days,
in an EEPROM that is read and written byte by byte.

* `Eeprom`, `Tm`, `CurrentHistory` — the bytes, a clock reading, and what is published.
* `appendHourlyRecord`, `appendDateRecord`, `formatZero`, `clearWarehouseData` — what writes
  the logs.
* `parseHourDatainJson`, `parseDateDatainJson`, `isLastDateDataToday` — what reads them;
  `parseDateInArrays` formats the dates into the arrays of the source.
-/

namespace NinaHomekit

open Store

/-- The bytes of the EEPROM. -/
abbrev Eeprom := Nat → UInt8

/-- A function that accesses the EEPROM. -/
abbrev EepromProg := Prog Nat UInt8 Fault

/-- `struct tm`, as `localtime_r` fills it; minutes and seconds only time a delay. -/
structure Tm where
  tmYear : Nat
  tmMon : Nat
  tmMday : Nat
  tmHour : Nat
  year_lt : tmYear < 256
  mon_lt : tmMon < 12
  mday_le : tmMday ≤ 31
  hour_lt : tmHour < 24
  deriving DecidableEq

/-- The message `CURRENT_HISTORY_UPDATE`, with times of one kind. -/
structure CurrentHistory (τ : Type) where
  scale : String
  time : List τ
  data : List UInt16
  deriving DecidableEq

/-- The times with their currents. -/
def CurrentHistory.entries {τ : Type} (h : CurrentHistory τ) : List (τ × UInt16) :=
  h.time.zip h.data

namespace Warehouse

def eepromCycleRecord : Nat := 0x00
def eepromHourHeadPtr : Nat := 0x03
def eepromDateHeadPtr : Nat := 0x04
def eepromHourDataPtr : Nat := 0x05
def eepromDateDataPtr : Nat := 0x4d
def eepromDateRecordNum : Nat := 31

/-- Where the logs are, for the arithmetic of addresses. -/
theorem eeprom_addresses : eepromHourHeadPtr = 3 ∧ eepromDateHeadPtr = 4 ∧ eepromHourDataPtr = 5 ∧
    eepromDateDataPtr = 77 ∧ eepromDateRecordNum = 31 := ⟨rfl, rfl, rfl, rfl, rfl⟩

/-! ## Bytes -/

/-- `write`, which waits 10 ms. -/
def write (val : UInt8) (addr : Nat) : EepromProg Unit := Prog.put addr val

/-- `writeAsInt16`. -/
def writeAsInt16 (value : UInt16) (ptr : Nat) : EepromProg Unit := do
  write (UInt8.ofNat (value.toNat &&& 0xff)) ptr
  write (UInt8.ofNat (value.toNat >>> 8)) (ptr + 1)

/-- `read`. -/
def read (addr : Nat) : EepromProg UInt8 := Prog.get addr

/-- The number of two bytes. -/
def int16 (lo hi : UInt8) : UInt16 := UInt16.ofNat (lo.toNat ||| hi.toNat <<< 8)

/-- `readAsInt16`. -/
def readAsInt16 (ptr : Nat) : EepromProg UInt16 := do
  let lo ← read ptr
  let hi ← read (ptr + 1)
  return int16 lo hi

/-! ## The counter and the pointers -/

/-- `getCycleRecord`. -/
def getCycleRecord : EepromProg Nat := do
  let c0 ← read eepromCycleRecord
  let c1 ← read (eepromCycleRecord + 1)
  let c2 ← read (eepromCycleRecord + 2)
  return c0.toNat <<< 16 ||| c1.toNat <<< 8 ||| c2.toNat

/-- `increaseCycleRecord`. -/
def increaseCycleRecord : EepromProg Unit := do
  let c ← (· + 1) <$> getCycleRecord
  write (UInt8.ofNat (c >>> 16 &&& 0xff)) eepromCycleRecord
  write (UInt8.ofNat (c >>> 8 &&& 0xff)) (eepromCycleRecord + 1)
  write (UInt8.ofNat (c &&& 0xff)) (eepromCycleRecord + 2)

def getRecordedHourPtr : EepromProg UInt8 := read eepromHourHeadPtr

def updateRecordedHourPtr (ptr : UInt8) : EepromProg Unit := write ptr eepromHourHeadPtr

def getRecordedDatePtr : EepromProg UInt8 := read eepromDateHeadPtr

def updateRecordedDatePtr (ptr : UInt8) : EepromProg Unit := write ptr eepromDateHeadPtr

/-! ## Writing the logs -/

/-- `appendHourlyRecord`. -/
def appendHourlyRecord (hr : UInt8) (current : UInt16) : EepromProg Unit := do
  let designatedHourPtr ← (· + 1) <$> getRecordedHourPtr
  write hr (eepromHourDataPtr + designatedHourPtr.toNat * 3)
  writeAsInt16 current (eepromHourDataPtr + designatedHourPtr.toNat * 3 + 1)
  updateRecordedHourPtr designatedHourPtr
  increaseCycleRecord

/-- The slot `appendDateRecord` writes to, when the head is at `ptr`. -/
def designatedDatePtr (ptr : UInt8) : UInt8 :=
  if (ptr + 1).toNat = eepromDateRecordNum then 0 else ptr + 1

/-- `appendDateRecord`. -/
def appendDateRecord (yy mm dd : UInt8) (avgCurrent : UInt16) : EepromProg Unit := do
  let designatedDatePtr ← designatedDatePtr <$> getRecordedDatePtr
  write yy (eepromDateDataPtr + designatedDatePtr.toNat * 5)
  write mm (eepromDateDataPtr + designatedDatePtr.toNat * 5 + 1)
  write dd (eepromDateDataPtr + designatedDatePtr.toNat * 5 + 2)
  writeAsInt16 avgCurrent (eepromDateDataPtr + designatedDatePtr.toNat * 5 + 3)
  updateRecordedDatePtr designatedDatePtr

/-- `formatZero`. -/
def formatZero (deep : Bool) : EepromProg Unit := do
  if deep then
    write 0 eepromCycleRecord
    write 0 (eepromCycleRecord + 1)
    write 0 (eepromCycleRecord + 2)
  write 255 eepromHourHeadPtr
  write 255 eepromDateHeadPtr
  write 0 (eepromDateDataPtr + (eepromDateRecordNum - 1) * 5)
  write 0 (eepromDateDataPtr + (eepromDateRecordNum - 1) * 5 + 1)
  write 0 (eepromDateDataPtr + (eepromDateRecordNum - 1) * 5 + 2)
  writeAsInt16 0 (eepromDateDataPtr + (eepromDateRecordNum - 1) * 5 + 3)

/-! ## Reading the logs -/

/-- `getHourDataLength`. -/
def getHourDataLength : EepromProg Nat := do
  let n ← (· + 1) <$> getRecordedHourPtr
  return n.toNat

/-- `getDateDataLength`. -/
def getDateDataLength : EepromProg Nat := do
  let n ← (· + 1) <$> getRecordedDatePtr
  if n.toNat < eepromDateRecordNum then
    let year ← read (eepromDateDataPtr + (eepromDateRecordNum - 1) * 5)
    return if year > 0 then eepromDateRecordNum else n.toNat
  else return n.toNat

/-- `for (i = 0; i < getHourDataLength(); i++) body`.  The length is that of a byte, so the
loop ends before `i` is 256. -/
def forHourData {β : Type} (body : β → Nat → EepromProg β) (b : β) : EepromProg β :=
  Prog.forWhile getHourDataLength body (List.range' 0 256) b

/-- `parseHourDatainJson`. -/
def parseHourDatainJson : EepromProg (CurrentHistory UInt8) :=
  forHourData (fun root i => do
      let t ← read (eepromHourDataPtr + i * 3)
      let d ← readAsInt16 (eepromHourDataPtr + i * 3 + 1)
      return { root with time := root.time ++ [t], data := root.data ++ [d] })
    ⟨"Hour", [], []⟩

/-- `"%i"` of a number that is not negative. -/
def intStr (n : Nat) : CStr := (Nat.toDigits 10 n).map fun c => UInt8.ofNat c.toNat

/-- The `sprintf` of a date. -/
def dateStr (yy mm dd : UInt8) : CStr :=
  intStr (1900 + yy.toNat) ++ [0x2D] ++ intStr (mm.toNat + 1) ++ [0x2D] ++ intStr dd.toNat

/-- The body of the loops of `parseDateDatainJson`, when a date has the room it needs. -/
def parseDateRecord (root : CurrentHistory CStr) (i : Nat) : EepromProg (CurrentHistory CStr) := do
  let yy ← read (eepromDateDataPtr + i * 5)
  let mm ← read (eepromDateDataPtr + i * 5 + 1)
  let dd ← read (eepromDateDataPtr + i * 5 + 2)
  let d ← readAsInt16 (eepromDateDataPtr + i * 5 + 3)
  return { root with time := root.time ++ [dateStr yy mm dd], data := root.data ++ [d] }

/-- The loops of `parseDateDatainJson`: the records behind the head, if the ring was filled before,
then those up to the head. -/
def parseDates (record : CurrentHistory CStr → Nat → EepromProg (CurrentHistory CStr)) :
    EepromProg (CurrentHistory CStr) := do
  let length ← getDateDataLength
  let dataPtr ← UInt8.toNat <$> getRecordedDatePtr
  let older := if length = eepromDateRecordNum ∧ dataPtr < eepromDateRecordNum then
    List.range' (dataPtr + 1) (eepromDateRecordNum - (dataPtr + 1)) else []
  let root ← older.foldlM record ⟨"Date", [], []⟩
  let length ← getDateDataLength
  let newer := if length > 0 then List.range' 0 (dataPtr + 1) else []
  newer.foldlM record root

/-- What `parseDateDatainJson` reads, and what it publishes if every date has room. -/
def parseDateDatainJson : EepromProg (CurrentHistory CStr) := parseDates parseDateRecord

/-- The size of `dateStr`. -/
def dateStrSize : Nat := 10

/-- The string fits into an array, with its NUL. -/
def FitsArray (size : Nat) (s : CStr) : Prop := s.length + 1 ≤ size

instance (size : Nat) (s : CStr) : Decidable (FitsArray size s) :=
  inferInstanceAs (Decidable (_ ≤ _))

/-- The body of the loops of `parseDateDatainJson`, with the array `dateStr`. -/
def parseDateRecordInArray (root : CurrentHistory CStr) (i : Nat) :
    EepromProg (CurrentHistory CStr) := do
  let yy ← read (eepromDateDataPtr + i * 5)
  let mm ← read (eepromDateDataPtr + i * 5 + 1)
  let dd ← read (eepromDateDataPtr + i * 5 + 2)
  if FitsArray dateStrSize (dateStr yy mm dd) then
    let d ← readAsInt16 (eepromDateDataPtr + i * 5 + 3)
    return { root with time := root.time ++ [dateStr yy mm dd], data := root.data ++ [d] }
  else .fault (.outOfBounds dateStrSize)

/-- `parseDateDatainJson`. -/
def parseDateInArrays : EepromProg (CurrentHistory CStr) := parseDates parseDateRecordInArray

/-- `isLastDateDataToday`. -/
def isLastDateDataToday (timeinfo : Tm) : EepromProg Bool := do
  let dateDataPtr ← UInt8.toNat <$> getRecordedDatePtr
  if dateDataPtr < eepromDateRecordNum then
    let yy ← read (eepromDateDataPtr + dateDataPtr * 5)
    if timeinfo.tmYear = yy.toNat then
      let mm ← read (eepromDateDataPtr + dateDataPtr * 5 + 1)
      if timeinfo.tmMon = mm.toNat then
        let dd ← read (eepromDateDataPtr + dateDataPtr * 5 + 2)
        return timeinfo.tmMday = dd.toNat
      else return false
    else return false
  else return false

/-! ## Averages and clearing -/

/-- `avg_sum_current`, after the loop over the hour log. -/
def sumHourData : EepromProg Nat :=
  forHourData (fun avgSumCurrent i => do
      let d ← readAsInt16 (eepromHourDataPtr + i * 3 + 1)
      return avgSumCurrent + d.toNat) 0

/-- The record of a day, with the clock's date. -/
def appendToday (timeinfo : Tm) : EepromProg Unit :=
  appendDateRecord (UInt8.ofNat timeinfo.tmYear) (UInt8.ofNat timeinfo.tmMon)
    (UInt8.ofNat timeinfo.tmMday) 0

/-- What `clearWarehouseData` does to the EEPROM, when the clock reads `timeinfo`. -/
def clearWarehouseData (timeinfo : Tm) (sumCurrent : UInt16) : EepromProg Unit := do
  formatZero false
  appendHourlyRecord (UInt8.ofNat timeinfo.tmHour) sumCurrent
  appendToday timeinfo

end Warehouse

end NinaHomekit
