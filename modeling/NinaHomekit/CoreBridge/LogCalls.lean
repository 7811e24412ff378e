import NinaHomekit.CoreBridge.WarehouseLogs
import NinaHomekit.Lib.Trace

/-!
# The calls that write the logs

* `LogCall` — an append or a format; `callStep` runs one.
* `LogsValid` — the heads of the logs that a format and appends leave.
* `LogsValid.callStep` — **a call keeps them**, unless it is the 25th record of a day.
-/

namespace NinaHomekit

open Store Trace

namespace Warehouse

variable {m m' : Eeprom}

/-! ## The calls -/

/-- A call that writes the logs. -/
inductive LogCall where
  | hour (hr : UInt8) (current : UInt16)
  | date (yy mm dd : UInt8) (avg : UInt16)
  | format (deep : Bool)
  deriving DecidableEq

/-- The program of a call. -/
def LogCall.prog : LogCall → EepromProg Unit
  | hour hr current => appendHourlyRecord hr current
  | date yy mm dd avg => appendDateRecord yy mm dd avg
  | format deep => formatZero deep

/-- The EEPROM after a call. -/
def callStep (m : Eeprom) (call : LogCall) : Except Fault Eeprom := Prod.snd <$> call.prog.eval m

/-- The writes of a call. -/
def LogCall.writes (call : LogCall) (m : Eeprom) : List (Nat × UInt8) :=
  match call with
  | hour hr current => hourWrites m (m eepromHourHeadPtr) hr current
  | date yy mm dd avg => dateWrites (m eepromDateHeadPtr) yy mm dd avg
  | format deep => formatWrites deep

theorem LogCall.eval_prog (call : LogCall) (m : Eeprom) :
    call.prog.eval m = .ok ((), Prog.putAll m (call.writes m)) := by
  cases call with
  | hour hr current => exact eval_appendHourlyRecord m hr current
  | date yy mm dd avg => exact eval_appendDateRecord m yy mm dd avg
  | format deep => exact eval_formatZero m deep

theorem callStep_eq (m : Eeprom) (call : LogCall) :
    callStep m call = .ok (Prog.putAll m (call.writes m)) := by
  unfold callStep
  rw [call.eval_prog]
  rfl

/-! ## Valid logs -/

/-- The heads are those that a format and appends leave, as long as no day has more than 24
records. -/
structure LogsValid (m : Eeprom) : Prop where
  hour : m eepromHourHeadPtr = 255 ∨ (m eepromHourHeadPtr).toNat ≤ 23
  date : (m eepromDateHeadPtr = 255 ∧ lastYear m = 0) ∨ (m eepromDateHeadPtr).toNat ≤ 30

/-- The slot the next hourly record goes to. -/
theorem LogsValid.hourLen_le (h : LogsValid m) (hne : m eepromHourHeadPtr ≠ 23) :
    hourLen m ≤ 23 := by
  unfold hourLen
  rcases h.hour with h255 | hle
  · rw [h255]
    decide
  · have hne' : (m eepromHourHeadPtr).toNat ≠ 23 := fun h => hne (UInt8.toNat_inj.1 h)
    simp only [UInt8.toNat_add, UInt8.toNat_one]
    omega

theorem hourLen_le_of_head (h : m eepromHourHeadPtr = 255 ∨ (m eepromHourHeadPtr).toNat ≤ 23) :
    hourLen m ≤ 24 := by
  unfold hourLen
  rcases h with h255 | hle
  · rw [h255]
    decide
  · simp only [UInt8.toNat_add, UInt8.toNat_one]
    omega

theorem hourLen_le_iff :
    hourLen m ≤ 24 ↔ m eepromHourHeadPtr = 255 ∨ (m eepromHourHeadPtr).toNat ≤ 23 := by
  refine ⟨fun h => ?_, hourLen_le_of_head⟩
  unfold hourLen at h
  simp only [UInt8.toNat_add, UInt8.toNat_one] at h
  have hlt := (m eepromHourHeadPtr).toNat_lt
  by_cases h255 : (m eepromHourHeadPtr).toNat = 255
  · exact Or.inl (UInt8.toNat_inj.1 h255)
  · exact Or.inr (by omega)

theorem LogsValid.hourLen_le' (h : LogsValid m) : hourLen m ≤ 24 := hourLen_le_of_head h.hour

theorem designatedDatePtr_le {ptr : UInt8} (h : ptr = 255 ∨ ptr.toNat ≤ 30) :
    (designatedDatePtr ptr).toNat ≤ 30 := by
  rcases h with h255 | hle
  · rw [h255]
    decide
  · by_cases h30 : ptr.toNat = 30
    · rw [designatedDatePtr_of_last h30]
      decide
    · rw [designatedDatePtr_of_lt (by omega)]
      omega

theorem designatedDatePtr_ne (ptr : UInt8) : (designatedDatePtr ptr).toNat ≠ ptr.toNat := by
  unfold designatedDatePtr
  have hlt := ptr.toNat_lt
  have hnext : (ptr + 1).toNat = (ptr.toNat + 1) % 256 := by simp
  rw [show eepromDateRecordNum = 31 from rfl]
  by_cases h31 : (ptr + 1).toNat = 31
  · rw [if_pos h31]
    show 0 ≠ ptr.toNat
    omega
  · rw [if_neg h31]
    omega

theorem LogsValid.designated_le (h : LogsValid m) :
    (designatedDatePtr (m eepromDateHeadPtr)).toNat ≤ 30 :=
  designatedDatePtr_le (h.date.imp_left And.left)

/-- What a format leaves. -/
theorem logsValid_of_format (m : Eeprom) (deep : Bool) :
    LogsValid (Prog.putAll m (formatWrites deep)) := by
  cases deep
  · exact ⟨Or.inl rfl, Or.inl ⟨rfl, rfl⟩⟩
  · exact ⟨Or.inl rfl, Or.inl ⟨rfl, rfl⟩⟩

/-- The call does not append a record to the hour log of a day that has 24. -/
def FitsDay (m : Eeprom) : LogCall → Prop
  | .hour _ _ => m eepromHourHeadPtr ≠ 23
  | _ => True

/-- The store after a record of an hour behind the head `ptr`; `cycle` are the writes to the cycle
time that come after the head. -/
def afterHour (m : Eeprom) (ptr hr : UInt8) (current : UInt16) (cycle : List (Nat × UInt8)) : Eeprom :=
  Prog.putAll m (hourSlotWrites (ptr + 1).toNat hr current ++ (eepromHourHeadPtr, ptr + 1) :: cycle)

section AfterHour

variable {ptr hr : UInt8} {current : UInt16} {cycle : List (Nat × UInt8)}

/-- Behind the heads, only the slot changes. -/
theorem afterHour_eq (hcycle : ∀ w ∈ cycle, w.1 < 3) {x : Nat} (hx : 3 < x) :
    afterHour m ptr hr current cycle x =
      Prog.putAll m (hourSlotWrites (ptr + 1).toNat hr current) x := by
  have haddr := eeprom_addresses
  unfold afterHour
  rw [Prog.putAll_append, Prog.putAll_of_notMem]
  intro w hw
  rcases List.mem_cons.1 hw with rfl | hw
  · show eepromHourHeadPtr ≠ x
    omega
  · have hlt := hcycle w hw
    omega

theorem afterHour_of_out (hcycle : ∀ w ∈ cycle, w.1 < 3) {x : Nat} (hx : 3 < x)
    (hout : x < eepromHourDataPtr + (ptr + 1).toNat * 3 ∨
      eepromHourDataPtr + (ptr + 1).toNat * 3 + 3 ≤ x) :
    afterHour m ptr hr current cycle x = m x :=
  (afterHour_eq hcycle hx).trans (putAll_hourSlot_of_out (fun _ => id) hout)

theorem afterHour_head (hcycle : ∀ w ∈ cycle, w.1 < 3) :
    afterHour m ptr hr current cycle eepromHourHeadPtr = ptr + 1 := by
  have haddr := eeprom_addresses
  unfold afterHour
  rw [Prog.putAll_append, Prog.putAll_cons, Prog.putAll_of_notMem]
  · exact Function.update_self ..
  · intro w hw
    have hlt := hcycle w hw
    omega

end AfterHour

theorem putAll_hourWrites_of_ne {ptr hr : UInt8} {current : UInt16} {x : Nat} (h3 : 3 < x)
    (hx : x < eepromHourDataPtr + (ptr + 1).toNat * 3 ∨
      eepromHourDataPtr + (ptr + 1).toNat * 3 + 3 ≤ x) :
    Prog.putAll m (hourWrites m ptr hr current) x = m x :=
  afterHour_of_out (fun _ => addr_of_mem_cycleWrites) h3 hx

theorem putAll_hourWrites_head (ptr hr : UInt8) (current : UInt16) :
    Prog.putAll m (hourWrites m ptr hr current) eepromHourHeadPtr = ptr + 1 :=
  afterHour_head fun _ => addr_of_mem_cycleWrites

theorem putAll_dateWrites_of_ne {ptr yy mm dd : UInt8} {avg : UInt16} {x : Nat} (h4 : x ≠ 4)
    (hx : x < eepromDateDataPtr + (designatedDatePtr ptr).toNat * 5 ∨
      eepromDateDataPtr + (designatedDatePtr ptr).toNat * 5 + 5 ≤ x) :
    Prog.putAll m (dateWrites ptr yy mm dd avg) x = m x := by
  unfold dateWrites
  rw [Prog.putAll_append, Prog.putAll_cons, Prog.putAll_nil]
  exact (Function.update_of_ne h4 ..).trans (putAll_dateSlot_of_out (fun _ => id) hx)

theorem putAll_dateWrites_head (ptr yy mm dd : UInt8) (avg : UInt16) :
    Prog.putAll m (dateWrites ptr yy mm dd avg) eepromDateHeadPtr = designatedDatePtr ptr := by
  unfold dateWrites
  rw [Prog.putAll_append, Prog.putAll_cons, Prog.putAll_nil, Function.update_self]

/-- The date that is written to a slot. -/
theorem putAll_dateWrites_slot (ptr yy mm dd : UInt8) (avg : UInt16) :
    Prog.putAll m (dateWrites ptr yy mm dd avg)
        (eepromDateDataPtr + (designatedDatePtr ptr).toNat * 5) = yy ∧
      Prog.putAll m (dateWrites ptr yy mm dd avg)
        (eepromDateDataPtr + (designatedDatePtr ptr).toNat * 5 + 1) = mm ∧
      Prog.putAll m (dateWrites ptr yy mm dd avg)
        (eepromDateDataPtr + (designatedDatePtr ptr).toNat * 5 + 2) = dd := by
  have hne : ∀ x, eepromDateDataPtr + x ≠ eepromDateHeadPtr := by
    intro x
    show 77 + x ≠ 4
    omega
  simp [dateWrites, dateSlotWrites, Function.update, hne, Nat.add_assoc]

/-! ## The logs after an append -/

theorem hourHead_ne (hlen : hourLen m ≤ 24) : m eepromHourHeadPtr ≠ 254 := by
  intro h254
  unfold hourLen at hlen
  rw [h254] at hlen
  exact absurd hlen (by decide)

/-- The slot behind the log has a new record, and the head moves to it. -/
theorem hourLog_of_slot {hr : UInt8} {current : UInt16} (hne : m eepromHourHeadPtr ≠ 254)
    (hptr : m' eepromHourHeadPtr = m eepromHourHeadPtr + 1)
    (h : ∀ x, eepromHourDataPtr ≤ x → x < eepromHourDataPtr + (hourLen m + 1) * 3 →
      m' x = Prog.putAll m (hourSlotWrites (hourLen m) hr current) x) :
    hourLog m' = hourLog m ++ [(hr, current)] := by
  rw [hourLog_snoc hptr hne]
  · rw [← hourRecord_putAll m (hourLen m) hr current]
    congr 2
    apply hourRecord_congr
    intro x h1 h2
    exact h x (by omega) (by omega)
  · intro x h1 h2
    rw [h x h1 (by omega)]
    exact putAll_hourSlot_of_out (fun _ => id) (Or.inl h2)

section AfterHour

variable {ptr hr : UInt8} {current : UInt16} {cycle : List (Nat × UInt8)}

/-- A record behind the head is at the end of the log. -/
theorem hourLog_afterHour (hcycle : ∀ w ∈ cycle, w.1 < 3) (hlen : hourLen m ≤ 24) :
    hourLog (afterHour m (m eepromHourHeadPtr) hr current cycle) =
      hourLog m ++ [(hr, current)] := by
  have haddr := eeprom_addresses
  exact hourLog_of_slot (hourHead_ne hlen) (afterHour_head hcycle) fun x h1 _ =>
    afterHour_eq hcycle (by omega)

/-- A slot of the hour log is not in the date log. -/
theorem dateLog_afterHour (hcycle : ∀ w ∈ cycle, w.1 < 3) (h : (ptr + 1).toNat ≤ 23) :
    dateLog (afterHour m ptr hr current cycle) = dateLog m := by
  have haddr := eeprom_addresses
  exact dateLog_of_eq fun x hx => afterHour_of_out hcycle (by omega) (by omega)

end AfterHour

theorem hourLog_dateWrites (hlen : hourLen m ≤ 24) (ptr yy mm dd : UInt8) (avg : UInt16) :
    hourLog (Prog.putAll m (dateWrites ptr yy mm dd avg)) = hourLog m := by
  have haddr := eeprom_addresses
  apply hourLog_of_eq hlen
  intro x hx
  exact putAll_dateWrites_of_ne (by omega) (Or.inl (by omega))

theorem dateRecord_dateWrites_of_ne {ptr yy mm dd : UInt8} {avg : UInt16} {i : Nat}
    (hi : i ≠ (designatedDatePtr ptr).toNat) :
    dateRecord (Prog.putAll m (dateWrites ptr yy mm dd avg)) i = dateRecord m i := by
  have haddr := eeprom_addresses
  apply dateRecord_congr
  intro x h1 h2
  exact putAll_dateWrites_of_ne (by omega) (by omega)

theorem dateRecord_dateWrites (ptr yy mm dd : UInt8) (avg : UInt16) :
    dateRecord (Prog.putAll m (dateWrites ptr yy mm dd avg)) (designatedDatePtr ptr).toNat =
      (dateStr yy mm dd, avg) := by
  have haddr := eeprom_addresses
  rw [← dateRecord_putAll m _ yy mm dd avg]
  apply dateRecord_congr
  intro x hx _
  unfold dateWrites
  rw [Prog.putAll_append, Prog.putAll_of_notMem]
  intro w hw
  rw [List.mem_singleton.1 hw]
  show eepromDateHeadPtr ≠ x
  omega

theorem lastYear_dateWrites {p : UInt8} (yy mm dd : UInt8) (avg : UInt16)
    (h : (designatedDatePtr p).toNat ≠ 30) :
    lastYear (Prog.putAll m (dateWrites p yy mm dd avg)) = lastYear m := by
  have haddr := eeprom_addresses
  exact putAll_dateWrites_of_ne (by omega) (by omega)

/-- **An append adds its record to the dates.** -/
theorem dateLog_dateWrites (hvalid : DateValid m) (yy mm dd : UInt8) (avg : UInt16) :
    dateLog (Prog.putAll m (dateWrites (m eepromDateHeadPtr) yy mm dd avg)) =
      ringAdd (dateLog m) (dateStr yy mm dd, avg) := by
  rw [← dateRecord_dateWrites (m := m) (m eepromDateHeadPtr) yy mm dd avg]
  exact dateLog_add hvalid (putAll_dateWrites_head ..) (lastYear_dateWrites yy mm dd avg)
    fun i _ hi => dateRecord_dateWrites_of_ne hi

/-! ## Valid logs stay valid -/

/-- **Valid logs stay valid**, if the call fits in the day. -/
theorem LogsValid.callStep (h : LogsValid m) {call : LogCall} (hfit : FitsDay m call)
    (hstep : callStep m call = .ok m') : LogsValid m' := by
  rw [callStep_eq] at hstep
  cases hstep
  cases call with
  | hour hr current =>
    have hlen := h.hourLen_le hfit
    unfold hourLen at hlen
    have hkeep : ∀ x, x = 4 ∨ 77 ≤ x →
        Prog.putAll m (hourWrites m (m eepromHourHeadPtr) hr current) x = m x := by
      intro x hx
      apply putAll_hourWrites_of_ne (by omega)
      show x < 5 + (m eepromHourHeadPtr + 1).toNat * 3 ∨
        5 + (m eepromHourHeadPtr + 1).toNat * 3 + 3 ≤ x
      omega
    constructor
    · right
      show (Prog.putAll m (hourWrites m (m eepromHourHeadPtr) hr current) eepromHourHeadPtr).toNat ≤ 23
      rw [putAll_hourWrites_head]
      exact hlen
    · show (Prog.putAll m (hourWrites m _ hr current) 4 = 255 ∧
        Prog.putAll m (hourWrites m _ hr current) 227 = 0) ∨
          (Prog.putAll m (hourWrites m _ hr current) 4).toNat ≤ 30
      rw [hkeep 4 (by decide), hkeep 227 (by decide)]
      exact h.date
  | date yy mm dd avg =>
    have hle := h.designated_le
    constructor
    · show Prog.putAll m (dateWrites _ yy mm dd avg) 3 = 255 ∨
        (Prog.putAll m (dateWrites _ yy mm dd avg) 3).toNat ≤ 23
      rw [putAll_dateWrites_of_ne (by decide) (Or.inl (by show 3 < 77 + _; omega))]
      exact h.hour
    · right
      show (Prog.putAll m (dateWrites (m eepromDateHeadPtr) yy mm dd avg) eepromDateHeadPtr).toNat ≤ 30
      rw [putAll_dateWrites_head]
      exact hle
  | format deep => exact logsValid_of_format m deep

end Warehouse

end NinaHomekit
