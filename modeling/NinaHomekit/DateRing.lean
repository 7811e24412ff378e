import NinaHomekit.ReadFailure

/-!
# The last 31 days

The date log is a ring without a length: a head of 255 stands for no record, and a year byte in
its last slot for a ring that was filled.  Formatting clears that byte, and every append of a date
with a year puts one into it when its turn comes.

* `DateCall`, `dateRun` — a date that is appended, with the averages stored for it afterwards,
  and a run of them after a format.
* `RingHolds` — the head, the last slot and the log, after some dates.
* `dateRing` — **the log has the last 31 dates, in order, with their latest averages.**
-/

namespace NinaHomekit

open Store

namespace Warehouse

variable {m m' : Eeprom}

/-! ## The calls -/

/-- A date with a year, and the averages that are stored for it until the next one. -/
structure DateCall where
  yy : UInt8
  mm : UInt8
  dd : UInt8
  avgCurrent : UInt16
  rewrites : List UInt16
  year_ne : yy ≠ 0

/-- An average is stored with the current date, as `onlinePeriodicTask` does. -/
def rewriteAverage (avg : UInt16) : EepromProg Unit := do
  let ptr ← getRecordedDatePtr
  writeAsInt16 avg (eepromDateDataPtr + ptr.toNat * 5 + 3)

namespace DateCall

/-- The date is appended, and then its averages are stored. -/
def prog (c : DateCall) : EepromProg Unit := do
  appendDateRecord c.yy c.mm c.dd c.avgCurrent
  c.rewrites.forM rewriteAverage

/-- The date as it is published, with its latest average. -/
def entry (c : DateCall) : CStr × UInt16 :=
  (dateStr c.yy c.mm c.dd, c.rewrites.getLastD c.avgCurrent)

end DateCall

/-- A format, and then the dates. -/
def dateRun (deep : Bool) (calls : List DateCall) : EepromProg Unit := do
  formatZero deep
  calls.forM DateCall.prog

/-- The last `n` of a list. -/
def lastN {α : Type} (n : Nat) (l : List α) : List α := l.drop (l.length - n)

theorem length_lastN {α : Type} (n : Nat) (l : List α) : (lastN n l).length = min l.length n := by
  simp only [lastN, List.length_drop]
  omega

/-- **A ring holds the last elements.** -/
theorem ringAdd_lastN {α : Type} (l : List α) (a : α) :
    ringAdd (lastN eepromDateRecordNum l) a = lastN eepromDateRecordNum (l ++ [a]) := by
  have haddr := eeprom_addresses
  unfold ringAdd
  rw [length_lastN]
  unfold lastN
  rw [List.length_append, List.length_singleton]
  by_cases hlt : l.length < eepromDateRecordNum
  · rw [if_pos (by omega), show l.length - eepromDateRecordNum = 0 by omega,
      show l.length + 1 - eepromDateRecordNum = 0 by omega]
    rfl
  · rw [if_neg (by omega), List.tail_drop,
      List.drop_append_of_le_length (by omega),
      show l.length - eepromDateRecordNum + 1 = l.length + 1 - eepromDateRecordNum by omega]

/-! ## What the ring holds -/

/-- After `k` dates whose log is `log`: the head has gone round, and the last slot has a year
once it was filled. -/
structure RingHolds (m : Eeprom) (k : Nat) (log : List (CStr × UInt16)) : Prop where
  head : (m eepromDateHeadPtr).toNat = if k = 0 then 255 else (k - 1) % eepromDateRecordNum
  year : lastYear m = 0 ↔ k < eepromDateRecordNum
  log_eq : dateLog m = log

theorem RingHolds.dateValid {k : Nat} {log : List (CStr × UInt16)} (h : RingHolds m k log) :
    DateValid m := by
  have hhead := h.head
  have hyear := h.year
  rw [show eepromDateRecordNum = 31 from rfl] at hhead hyear
  unfold DateValid
  by_cases h0 : k = 0
  · rw [if_pos h0] at hhead
    exact Or.inl ⟨UInt8.toNat_inj.1 hhead, hyear.2 (by omega)⟩
  · rw [if_neg h0] at hhead
    by_cases h30 : (k - 1) % 31 = 30
    · exact Or.inr (Or.inr ⟨hhead.trans h30, fun hzero => by have := hyear.1 hzero; omega⟩)
    · exact Or.inr (Or.inl (by omega))

/-- The length of the log is that of the ring. -/
theorem RingHolds.dateLen {k : Nat} {log : List (CStr × UInt16)} (h : RingHolds m k log) :
    dateLen m = min k eepromDateRecordNum := by
  have hhead := h.head
  have hyear := h.year
  have hnext : (m eepromDateHeadPtr + 1).toNat = ((m eepromDateHeadPtr).toNat + 1) % 256 := by
    simp
  have hpos : lastYear m > 0 ↔ lastYear m ≠ 0 := UInt8.pos_iff_ne_zero
  unfold Warehouse.dateLen
  rw [show eepromDateRecordNum = 31 from rfl] at hhead hyear ⊢
  by_cases hlt : (m eepromDateHeadPtr + 1).toNat < 31 ∧ lastYear m > 0
  · rw [if_pos hlt]
    have hge : ¬ k < 31 := fun h => hpos.1 hlt.2 (hyear.2 h)
    omega
  · rw [if_neg hlt, hnext, hhead]
    by_cases h0 : k = 0
    · rw [if_pos h0]
      omega
    · rw [if_neg h0] at hhead ⊢
      by_cases h31 : k < 31
      · omega
      · -- past the first lap only a head at the last slot is not told by the year
        have hge : 31 ≤ (m eepromDateHeadPtr + 1).toNat := by
          by_contra hlt'
          exact hlt ⟨by omega, hpos.2 fun hzero => h31 (hyear.1 hzero)⟩
        omega

/-- A format leaves no date. -/
theorem ringHolds_format (m : Eeprom) (deep : Bool) :
    RingHolds (Prog.putAll m (formatWrites deep)) 0 [] := by
  have hhead : Prog.putAll m (formatWrites deep) eepromDateHeadPtr = 255 := by
    cases deep <;> rfl
  have hyear : lastYear (Prog.putAll m (formatWrites deep)) = 0 := by
    cases deep <;> rfl
  refine ⟨by rw [hhead]; rfl, iff_of_true hyear (by decide), ?_⟩
  rw [dateLog, dateSlots_of_empty hhead hyear]
  rfl

/-- The slot of the next date. -/
theorem RingHolds.slot {k : Nat} {log : List (CStr × UInt16)} (h : RingHolds m k log) :
    (designatedDatePtr (m eepromDateHeadPtr)).toNat = k % 31 := by
  have hhead := h.head
  rw [show eepromDateRecordNum = 31 from rfl] at hhead
  by_cases h0 : k = 0
  · rw [if_pos h0] at hhead
    rw [UInt8.toNat_inj.1 (hhead.trans (show 255 = (255 : UInt8).toNat from rfl)), h0]
    rfl
  · rw [if_neg h0] at hhead
    by_cases h30 : (m eepromDateHeadPtr).toNat = 30
    · rw [designatedDatePtr_of_last h30]
      show 0 = _
      omega
    · rw [designatedDatePtr_of_lt (by omega), hhead]
      omega

/-- **An append**: one more date, in the slot behind the head. -/
theorem RingHolds.append {k : Nat} {log : List (CStr × UInt16)} (h : RingHolds m k log)
    {yy : UInt8} (hyy : yy ≠ 0) (mm dd : UInt8) (avg : UInt16) :
    RingHolds (Prog.putAll m (dateWrites (m eepromDateHeadPtr) yy mm dd avg)) (k + 1)
      (ringAdd log (dateStr yy mm dd, avg)) := by
  have hslot := h.slot
  have h31 : eepromDateRecordNum = 31 := rfl
  refine ⟨?_, ?_, ?_⟩
  · rw [putAll_dateWrites_head, hslot, if_neg (by omega), Nat.add_sub_cancel, h31]
  · by_cases h30 : (designatedDatePtr (m eepromDateHeadPtr)).toNat = 30
    · have hyear : lastYear (Prog.putAll m (dateWrites (m eepromDateHeadPtr) yy mm dd avg)) = yy := by
        have hw := (putAll_dateWrites_slot (m := m) (m eepromDateHeadPtr) yy mm dd avg).1
        rwa [h30] at hw
      rw [hyear]
      exact iff_of_false hyy (by omega)
    · rw [lastYear_dateWrites yy mm dd avg h30, h.year]
      omega
  · rw [dateLog_dateWrites h.dateValid, h.log_eq]

/-- **A stored average**: the last date gets it. -/
theorem RingHolds.average {k : Nat} {log : List (CStr × UInt16)} {date : CStr} {old : UInt16}
    (h : RingHolds m (k + 1) (log ++ [(date, old)])) (avg : UInt16) :
    RingHolds (Prog.putAll m (averageWrites (m eepromDateHeadPtr) avg)) (k + 1)
      (log ++ [(date, avg)]) := by
  have haddr := eeprom_addresses
  have h77 : eepromDateDataPtr = 77 := rfl
  have h31 : eepromDateRecordNum = 31 := rfl
  have hhead := h.head
  rw [if_neg (by omega), h31] at hhead
  have hkeep : ∀ x, x = 4 ∨ x = 227 →
      Prog.putAll m (averageWrites (m eepromDateHeadPtr) avg) x = m x := by
    intro x hx
    apply Prog.putAll_of_notMem
    intro w hw
    rcases List.mem_pair.1 hw with rfl | rfl <;> simp only [h77] <;> omega
  refine ⟨?_, ?_, ?_⟩
  · rw [hkeep eepromDateHeadPtr (Or.inl rfl), h.head]
  · rw [← h.year]
    unfold lastYear
    rw [show eepromDateDataPtr + (eepromDateRecordNum - 1) * 5 = 227 from rfl, hkeep 227 (Or.inr rfl)]
  · obtain ⟨older, hlog, hlog'⟩ := dateLog_averageWrites hhead (by omega) avg
    rw [h.log_eq] at hlog
    obtain ⟨rfl, hrec⟩ := List.append_inj' hlog rfl
    rw [hlog', ← (List.cons.inj hrec).1]

/-! ## Runs -/

theorem exists_ringAdd {α : Type} (l : List α) : ∃ init, ∀ a, ringAdd l a = init ++ [a] := by
  unfold ringAdd
  by_cases hlt : l.length < eepromDateRecordNum
  · exact ⟨l, fun a => if_pos hlt⟩
  · exact ⟨l.tail, fun a => if_neg hlt⟩

theorem eval_rewriteAverage (m : Eeprom) (avg : UInt16) :
    (rewriteAverage avg).eval m =
      .ok ((), Prog.putAll m (averageWrites (m eepromDateHeadPtr) avg)) := rfl

/-- The last of the averages that are stored is kept. -/
theorem RingHolds.rewrites {k : Nat} {log : List (CStr × UInt16)} {date : CStr} {old : UInt16}
    (h : RingHolds m (k + 1) (log ++ [(date, old)])) (rewrites : List UInt16) :
    ∃ m', (rewrites.forM rewriteAverage).eval m = .ok ((), m') ∧
      RingHolds m' (k + 1) (log ++ [(date, rewrites.getLastD old)]) := by
  induction rewrites generalizing m old with
  | nil => exact ⟨m, rfl, h⟩
  | cons avg rewrites ih =>
    obtain ⟨m', hm', hholds⟩ := ih (h.average avg)
    refine ⟨m', ?_, ?_⟩
    · exact (Prog.eval_bind_of_ok (eval_rewriteAverage m avg) _).trans hm'
    · rwa [List.getLastD_cons]

/-- One date with its averages. -/
theorem RingHolds.call {k : Nat} {log : List (CStr × UInt16)} (h : RingHolds m k log)
    (c : DateCall) :
    ∃ m', c.prog.eval m = .ok ((), m') ∧ RingHolds m' (k + 1) (ringAdd log c.entry) := by
  obtain ⟨init, hinit⟩ := exists_ringAdd log
  have happend := h.append c.year_ne c.mm c.dd c.avgCurrent
  rw [hinit] at happend
  obtain ⟨m', hm', hholds⟩ := happend.rewrites c.rewrites
  refine ⟨m', ?_, ?_⟩
  · unfold DateCall.prog
    rw [Prog.eval_bind_of_ok (eval_appendDateRecord m c.yy c.mm c.dd c.avgCurrent)]
    exact hm'
  · rw [hinit]
    exact hholds

/-- **The run lemma.**  Induction on the dates, after those that are there. -/
theorem RingHolds.calls {past : List DateCall}
    (h : RingHolds m past.length (lastN eepromDateRecordNum (past.map DateCall.entry)))
    (calls : List DateCall) :
    ∃ m', (calls.forM DateCall.prog).eval m = .ok ((), m') ∧
      RingHolds m' (past ++ calls).length
        (lastN eepromDateRecordNum ((past ++ calls).map DateCall.entry)) := by
  induction calls generalizing m past with
  | nil => exact ⟨m, rfl, by rwa [List.append_nil]⟩
  | cons c calls ih =>
    obtain ⟨m₁, hm₁, hcall⟩ := h.call c
    have hpast : RingHolds m₁ (past ++ [c]).length
        (lastN eepromDateRecordNum ((past ++ [c]).map DateCall.entry)) := by
      rwa [List.length_append, List.length_singleton, List.map_append, List.map_singleton,
        ← ringAdd_lastN]
    obtain ⟨m', hm', hholds⟩ := ih hpast
    refine ⟨m', ?_, ?_⟩
    · exact (Prog.eval_bind_of_ok hm₁ _).trans hm'
    · rwa [List.append_assoc, List.singleton_append] at hholds

/-- **The date log is a ring of the last 31 days**, whatever was in the EEPROM before the format:
its head, its length, and the dates that are published, with their latest averages and in the
order in which they were appended. -/
theorem dateRing (m : Eeprom) (deep : Bool) (calls : List DateCall) :
    ∃ m', (dateRun deep calls).eval m = .ok ((), m') ∧
      (m' eepromDateHeadPtr).toNat =
        (if calls.length = 0 then 255 else (calls.length - 1) % eepromDateRecordNum) ∧
      getDateDataLength.eval m' = .ok (min calls.length eepromDateRecordNum, m') ∧
      parseDateDatainJson.eval m' = .ok (⟨"Date",
        (lastN eepromDateRecordNum calls).map fun c => dateStr c.yy c.mm c.dd,
        (lastN eepromDateRecordNum calls).map fun c => c.rewrites.getLastD c.avgCurrent⟩, m') := by
  have hformat : RingHolds (Prog.putAll m (formatWrites deep)) ([] : List DateCall).length
      (lastN eepromDateRecordNum (([] : List DateCall).map DateCall.entry)) :=
    ringHolds_format m deep
  obtain ⟨m', hm', hholds⟩ := hformat.calls calls
  rw [List.nil_append] at hholds
  refine ⟨m', ?_, hholds.head, ?_, ?_⟩
  · unfold dateRun
    rw [Prog.eval_bind_of_ok (eval_formatZero m deep)]
    exact hm'
  · rw [eval_getDateDataLength, hholds.dateLen]
  · have hlog : dateLog m' = (lastN eepromDateRecordNum calls).map DateCall.entry := by
      rw [hholds.log_eq, lastN, lastN, List.length_map, List.map_drop]
    rw [eval_parseDateDatainJson, hlog, List.map_map, List.map_map]
    rfl

end Warehouse

end NinaHomekit
