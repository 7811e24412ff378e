import NinaHomekit.Perioder.OnlineSpec

/-!
# Two ways to close a day

The average of a day is stored at hour 23, as the sum of its currents divided by the number of
records, or by a task that starts up on a later date, which divides by 24 however many records
there are.

* `startAverage`, `hourAverage` — what each of the two stores.
* `DayEnd` — a day with the same records for both.
* `div_eq_div_iff_of_le` — when it does not matter by which of two numbers one divides.
* `closesAlike_iff` — **the two agree exactly if the remainder makes up for the missing records.**
-/

namespace NinaHomekit

open Store Warehouse

variable {m : Eeprom}

/-! ## What is stored -/

/-- The average that a task stores which starts up: that of the date that was the last. -/
def startAverage (m : Eeprom) (timeinfo now : Tm) : Option Nat :=
  match (onlineStart timeinfo now).eval m with
  | .ok (_, m') => some (dateRecord m' (m eepromDateHeadPtr).toNat).2.toNat
  | .error _ => none

/-- The average that is stored when the hour changes: that of the last date. -/
def hourAverage (m : Eeprom) (now : Tm) (current : UInt16) : Option Nat :=
  match (hourChange now current).eval m with
  | .ok (_, m') => some (dateRecord m' (m' eepromDateHeadPtr).toNat).2.toNat
  | .error _ => none

/-- A day that is closed in both ways: the EEPROM and the clock at a start-up on another date, and
before a step at hour 23 that makes the records of the day the same. -/
structure DayEnd where
  mem : Eeprom
  timeinfo : Tm
  now : Tm
  before : Eeprom
  last : Tm
  current : UInt16
  date_pos : 0 < dateLen mem
  later : ¬ IsToday mem timeinfo
  records_pos : 1 ≤ hourLen mem
  records_le : hourLen mem ≤ 24
  hour_eq : last.tmHour = 23
  same : (hourLog before).map Prod.snd ++ [current] = (hourLog mem).map Prod.snd

namespace DayEnd

variable (e : DayEnd)

/-- The currents of the day. -/
def currents : List UInt16 := (hourLog e.mem).map Prod.snd

/-- Their sum. -/
def sum : Nat := (e.currents.map UInt16.toNat).sum

/-- Their number. -/
def records : Nat := e.currents.length

/-- Both ways store the floor of the average. -/
def ClosesAlike : Prop :=
  startAverage e.mem e.timeinfo e.now = some (e.sum / e.records) ∧
    hourAverage e.before e.last e.current = some (e.sum / e.records)

end DayEnd

/-! ## The average in a record -/

/-- A record that an average was stored in. -/
theorem average_averageStored (m : Eeprom) {avg : Nat} (h : avg < 65536) :
    (dateRecord (averageStored m avg) (m eepromDateHeadPtr).toNat).2.toNat = avg := by
  have hslot : (dateRecord (averageStored m avg) (m eepromDateHeadPtr).toNat).2 =
      UInt16.ofNat avg := by
    simp [dateRecord, averageStored, Function.update, int16_bytes]
  rw [hslot, UInt16.toNat_ofNat', Nat.mod_eq_of_lt h]

/-- A sum of at most 24 currents. -/
theorem sum_toNat_le (currents : List UInt16) :
    (currents.map UInt16.toNat).sum ≤ currents.length * 65535 := by
  have hle := List.sum_le_card_nsmul (currents.map UInt16.toNat) 65535 (by
    rintro x hx
    obtain ⟨c, -, rfl⟩ := List.mem_map.1 hx
    have := c.toNat_lt
    omega)
  rwa [List.length_map, smul_eq_mul] at hle

/-- Dividing by more gives the same exactly if the remainder makes up for it. -/
theorem div_eq_div_iff_of_le {s k n : Nat} (hk : 0 < k) (h : k ≤ n) :
    s / n = s / k ↔ (n - k) * (s / k) ≤ s % k := by
  have hdiv := Nat.div_add_mod s k
  have hmod := Nat.mod_lt s hk
  obtain ⟨d, rfl⟩ := Nat.exists_eq_add_of_le h
  have hmul : (k + d) * (s / k) = k * (s / k) + d * (s / k) := Nat.add_mul ..
  rw [Nat.div_eq_iff (by omega), Nat.add_sub_cancel_left, Nat.mul_comm (s / k), hmul]
  constructor
  · rintro ⟨hle, -⟩
    omega
  · intro hle
    constructor <;> omega

/-! ## At a start-up -/

theorem startAverage_eq {timeinfo now : Tm} (hdate : 0 < dateLen m) (hlater : ¬ IsToday m timeinfo)
    (hsum : hourSum m / 24 < 65536) : startAverage m timeinfo now = some (hourSum m / 24) := by
  obtain ⟨r, heval⟩ := eval_onlineStart m timeinfo now
  rw [if_pos ⟨hdate, hlater⟩] at heval
  have hrecord : dateRecord (dayClosed m now) (m eepromDateHeadPtr).toNat =
      dateRecord (averageStored m (hourSum m / 24)) (m eepromDateHeadPtr).toNat := by
    have haddr := eeprom_addresses
    have hhead : Function.update (averageStored m (hourSum m / 24)) eepromHourHeadPtr 255
        eepromDateHeadPtr = m eepromDateHeadPtr := by
      rw [Function.update_of_ne (by decide)]
      apply averageStored_of_ne <;> omega
    have hslot := designatedDatePtr_ne (m eepromDateHeadPtr)
    refine dateRecord_congr fun x h1 h2 => ?_
    unfold dayClosed todayWrites
    rw [hhead, putAll_dateWrites_of_ne (by omega) (by omega), Function.update_of_ne (by omega)]
  unfold startAverage
  rw [heval]
  show some (dateRecord (dayClosed m now) (m eepromDateHeadPtr).toNat).2.toNat = _
  rw [hrecord, average_averageStored m hsum]

/-! ## At hour 23 -/

theorem hourAverage_eq {now : Tm} (h23 : now.tmHour = 23) (hlen : hourLen m ≤ 23)
    (current : UInt16) : hourAverage m now current =
      some ((((hourLog m).map Prod.snd ++ [current]).map UInt16.toNat).sum / (hourLen m + 1)) := by
  have haddr := eeprom_addresses
  have hhead := hourLen_le_iff.1 (hlen.trans (by decide))
  have hopen : hourLog (dayOpened m now) = hourLog m := by
    rw [hourLog_dayOpened (hlen.trans (by decide)), if_neg (by omega)]
  have hopenLen : hourLen (dayOpened m now) = hourLen m := by
    rw [← length_hourLog, hopen, length_hourLog]
  obtain ⟨z, hz⟩ : ∃ z, z = hourAppended (dayOpened m now) now current := ⟨_, rfl⟩
  have hlog : hourLog z = hourLog m ++ [(UInt8.ofNat now.tmHour, current)] := by
    rw [hz, hourLog_hourAppended (by omega), hopen]
  have hzlen : hourLen z = hourLen m + 1 := by
    rw [hz, hourLen_hourAppended (by omega), hopenLen]
  have hsum : hourSum z = (((hourLog m).map Prod.snd ++ [current]).map UInt16.toNat).sum := by
    unfold hourSum
    rw [hlog]
    simp [Function.comp_def]
  have hle := sum_toNat_le ((hourLog m).map Prod.snd ++ [current])
  rw [List.length_append, List.length_map, length_hourLog, List.length_singleton, ← hsum] at hle
  have havg : hourSum z / (hourLen m + 1) < 65536 :=
    Nat.lt_succ_of_le (Nat.div_le_of_le_mul hle)
  have hrecorded : hourRecorded m now current = averageStored z (hourSum z / (hourLen m + 1)) := by
    unfold hourRecorded
    rw [if_pos h23, ← hz, hzlen]
  have hptr : averageStored z (hourSum z / (hourLen m + 1)) eepromDateHeadPtr =
      z eepromDateHeadPtr := by
    apply averageStored_of_ne <;> omega
  unfold hourAverage
  rw [eval_hourChange_of_head hhead, hrecorded]
  show some (dateRecord (averageStored z _) (averageStored z _ eepromDateHeadPtr).toNat).2.toNat = _
  rw [hptr, average_averageStored z havg, hsum]

/-! ## Both -/

namespace DayEnd

variable {e : DayEnd}

theorem records_eq (e : DayEnd) : e.records = hourLen e.mem := by
  rw [records, currents, List.length_map, length_hourLog]

theorem sum_eq (e : DayEnd) : e.sum = hourSum e.mem := by
  rw [sum, currents, List.map_map]
  rfl

/-- **A day is closed alike exactly if the remainder of its average is at least what the missing
records would have to make up for.** -/
theorem closesAlike_iff (e : DayEnd) :
    e.ClosesAlike ↔ (24 - e.records) * (e.sum / e.records) ≤ e.sum % e.records := by
  have hpos : 0 < e.records := e.records_eq ▸ e.records_pos
  have hle : e.records ≤ 24 := e.records_eq ▸ e.records_le
  have hbefore := congrArg List.length e.same
  rw [List.length_append, List.length_map, List.length_map, length_hourLog, length_hourLog,
    List.length_singleton, ← e.records_eq] at hbefore
  have hhour : hourAverage e.before e.last e.current = some (e.sum / e.records) := by
    rw [hourAverage_eq e.hour_eq (by omega), e.same, hbefore]
    rfl
  have hsum := sum_toNat_le e.currents
  have hstart : startAverage e.mem e.timeinfo e.now = some (e.sum / 24) := by
    rw [e.sum_eq]
    refine startAverage_eq e.date_pos e.later ?_
    rw [← e.sum_eq]
    change e.sum ≤ e.records * 65535 at hsum
    omega
  unfold ClosesAlike
  rw [hhour, hstart, and_iff_left rfl, Option.some_inj]
  exact div_eq_div_iff_of_le hpos hle

/-- The EEPROM after the first hours of a day. -/
def hoursRecorded (n : Nat) : Eeprom :=
  (List.range n).foldl (fun m hour => hourRecorded m (OnlineState.january 1 hour)
    (UInt16.ofNat (100 + hour))) OnlineState.fresh.mem

/-- A day of 24 records, closed on the next day or with its last record. -/
def fullDay : DayEnd where
  mem := hoursRecorded 24
  timeinfo := OnlineState.january 2 8
  now := OnlineState.january 2 8
  before := hoursRecorded 23
  last := OnlineState.january 1 23
  current := 123
  date_pos := by decide +kernel
  later := by decide +kernel
  records_pos := by decide +kernel
  records_le := by decide +kernel
  hour_eq := rfl
  same := by decide +kernel

theorem closesAlike_fullDay : fullDay.ClosesAlike :=
  (closesAlike_iff fullDay).2 (by decide +kernel)

/-- An afternoon of one record, closed on the next day. -/
def afternoon : DayEnd where
  mem := dataCleared (fun _ => 0) (OnlineState.january 1 12) 100
  timeinfo := OnlineState.january 2 8
  now := OnlineState.january 2 8
  before := OnlineState.fresh.mem
  last := OnlineState.january 1 23
  current := 100
  date_pos := by decide +kernel
  later := by decide +kernel
  records_pos := by decide +kernel
  records_le := by decide +kernel
  hour_eq := rfl
  same := by decide +kernel

theorem not_closesAlike_afternoon : ¬ afternoon.ClosesAlike := by
  rintro ⟨hstart, -⟩
  have hfour : startAverage afternoon.mem afternoon.timeinfo afternoon.now = some 4 := by
    decide +kernel
  have havg : afternoon.sum / afternoon.records = 100 := by decide +kernel
  rw [hfour, havg] at hstart
  cases hstart

end DayEnd

end NinaHomekit
