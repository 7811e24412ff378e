import NinaHomekit.Perioder.OnlineSpec

/-!
# The logs when reads fail

A read of the EEPROM that fails returns `0xff`, which is also the head of an empty log.  An update
of the logs should then leave them as they were, or do what it is to do.

* `LogUpdate`, `ReadsHarmless` — an append, or the average of a day, and what it should do.
* `FailuresFit` — the reads that fail do not matter.
* `readsHarmless_iff` — **the logs come to no harm exactly if they do not**.
-/

namespace NinaHomekit

open Store Trace

namespace Warehouse

variable {m m' : Eeprom} {fails : Nat → Bool}

/-! ## Updates -/

/-- An update of the logs. -/
inductive LogUpdate where
  | hour (hr : UInt8) (current : UInt16)
  | date (yy mm dd : UInt8) (avg : UInt16)
  | average

/-- The program of an update, the last at hour 23. -/
def LogUpdate.prog : LogUpdate → EepromProg Unit
  | hour hr current => appendHourlyRecord hr current
  | date yy mm dd avg => appendDateRecord yy mm dd avg
  | average => dailyAverage

/-- The average of the entries of a history. -/
def averageOf {τ : Type} (l : List (τ × UInt16)) : UInt16 :=
  UInt16.ofNat ((l.map fun r => r.2.toNat).sum / l.length)

/-- The histories are the old ones, or the old ones with the change. -/
def LogUpdate.Changes (m m' : Eeprom) : LogUpdate → Prop
  | hour hr current =>
    (hourHistory m' = hourHistory m ∨ hourHistory m' = hourHistory m ++ [(hr, current)]) ∧
      dateHistory m' = dateHistory m
  | date yy mm dd avg =>
    hourHistory m' = hourHistory m ∧ (dateHistory m' = dateHistory m ∨
      dateHistory m' = ringAdd (dateHistory m) (dateStr yy mm dd, avg))
  | average =>
    hourHistory m' = hourHistory m ∧ (dateHistory m' = dateHistory m ∨
      dateHistory m' = (dateHistory m).modifyLast fun r => (r.1, averageOf (hourHistory m)))

/-- Where the reads `i` with `fails i` fail, an update does not fault, writes to nothing but the
counter, the heads and the two logs, and changes the histories in no other way. -/
def ReadsHarmless (m : Eeprom) (fails : Nat → Bool) (update : LogUpdate) : Prop :=
  ∃ m', (update.prog.failing 0xff fails).eval m = .ok ((), m') ∧
    (∀ w ∈ (update.prog.failing 0xff fails).writes m,
      w.1 < eepromDateDataPtr + eepromDateRecordNum * 5) ∧ update.Changes m m'

/-- The value of a read. -/
def readByte (m : Eeprom) (fails : Nat → Bool) (i x : Nat) : UInt8 :=
  if fails i then 0xff else m x

theorem readsHarmless_iff_changes (update : LogUpdate)
    (heval : (update.prog.failing 0xff fails).eval m = .ok ((), m'))
    (hwrites : ∀ w ∈ (update.prog.failing 0xff fails).writes m,
      w.1 < eepromDateDataPtr + eepromDateRecordNum * 5) :
    ReadsHarmless m fails update ↔ update.Changes m m' := by
  constructor
  · rintro ⟨m'', heval', -, hchanges⟩
    rw [heval] at heval'
    cases heval'
    exact hchanges
  · intro hchanges
    exact ⟨m', heval, hwrites, hchanges⟩

/-! ## A record of an hour -/

theorem failing_appendHourlyRecord (m : Eeprom) (fails : Nat → Bool) (hr : UInt8) (current : UInt16) :
    ∃ cycle, (∀ w ∈ cycle, w.1 < 3) ∧
      ((appendHourlyRecord hr current).failing 0xff fails).writes m =
        hourSlotWrites (readByte m fails 0 eepromHourHeadPtr + 1).toNat hr current ++
          (eepromHourHeadPtr, readByte m fails 0 eepromHourHeadPtr + 1) :: cycle ∧
      ((appendHourlyRecord hr current).failing 0xff fails).eval m = .ok ((),
        Prog.putAll m (hourSlotWrites (readByte m fails 0 eepromHourHeadPtr + 1).toNat hr current ++
          (eepromHourHeadPtr, readByte m fails 0 eepromHourHeadPtr + 1) :: cycle)) := by
  refine ⟨[(0, _), (1, _), (2, _)], ?_, rfl, rfl⟩
  simp

theorem addr_of_mem_hourUpdate {d : Nat} (hd : d ≤ 24) {hr head : UInt8} {current : UInt16}
    {cycle : List (Nat × UInt8)} (hcycle : ∀ w ∈ cycle, w.1 < 3) {w : Nat × UInt8}
    (hw : w ∈ hourSlotWrites d hr current ++ (eepromHourHeadPtr, head) :: cycle) :
    w.1 < eepromDateDataPtr + eepromDateRecordNum * 5 := by
  have haddr := eeprom_addresses
  rcases List.mem_append.1 hw with hw | hw
  · have := addr_of_mem_hourSlotWrites hw
    omega
  · rcases List.mem_cons.1 hw with rfl | hw
    · show eepromHourHeadPtr < _
      omega
    · have := hcycle w hw
      omega

/-- A history of dates with entries has that of the first slot. -/
theorem zero_mem_dateSlots (hne : dateLog m ≠ []) : 0 ∈ dateSlots m := by
  have hpos : dateLen m > 0 := by
    by_contra hpos
    have hzero : dateLen m = 0 := by omega
    apply hne
    simp [dateLog, dateSlots, hzero, eepromDateRecordNum]
  unfold dateSlots
  rw [if_pos hpos]
  apply List.mem_append_right
  rw [List.mem_range'_1]
  omega

/-- The 25th record of a day is on top of the first date. -/
theorem dateLog_eq_iff_of_first (h : ∀ x, x = eepromDateHeadPtr ∨ eepromDateDataPtr + 3 ≤ x →
      m' x = m x) : dateLog m' = dateLog m ↔ dateLog m = [] ∨
      dateStr (m' eepromDateDataPtr) (m' (eepromDateDataPtr + 1)) (m' (eepromDateDataPtr + 2)) =
        (dateRecord m 0).1 := by
  have hslots : dateSlots m' = dateSlots m :=
    dateSlots_congr (h _ (Or.inl rfl)) (h _ (Or.inr (by decide)))
  have hrest : ∀ i, i ≠ 0 → dateRecord m' i = dateRecord m i := by
    intro i hi
    exact dateRecord_congr fun x hx _ => h x (Or.inr (by omega))
  have hfirst : (dateRecord m' 0).2 = (dateRecord m 0).2 := by
    show int16 (m' (eepromDateDataPtr + 3)) (m' (eepromDateDataPtr + 4)) = _
    rw [h (eepromDateDataPtr + 3) (Or.inr le_rfl), h (eepromDateDataPtr + 4) (Or.inr (by omega))]
    rfl
  have hiff : dateLog m' = dateLog m ↔ ∀ i ∈ dateSlots m, dateRecord m' i = dateRecord m i := by
    unfold dateLog
    rw [hslots]
    exact List.map_inj_left
  rw [hiff]
  constructor
  · intro hall
    by_cases hnil : dateLog m = []
    · exact Or.inl hnil
    · exact Or.inr (congrArg Prod.fst (hall 0 (zero_mem_dateSlots hnil)))
  · rintro (hnil | hstr) i hi
    · unfold dateLog at hnil
      rw [List.map_eq_nil_iff.1 hnil] at hi
      cases hi
    · by_cases h0 : i = 0
      · rw [h0]
        exact Prod.ext hstr hfirst
      · exact hrest i h0

/-- The reads that fail in a record of an hour do not matter: the head is read, and the slot is in
the log or the date in its place does not change; or it is not, and the log is as if it had been
empty. -/
def HourFailuresFit (m : Eeprom) (fails : Nat → Bool) (hr : UInt8) (current : UInt16) : Prop :=
  if fails 0 then hourLog m = [] ∨ hourLog m = [(hr, current)]
  else m eepromHourHeadPtr = 23 → dateLog m = [] ∨
    dateStr hr (loByte current) (hiByte current) = (dateRecord m 0).1

section AfterHour

variable {ptr hr : UInt8} {current : UInt16} {cycle : List (Nat × UInt8)}

/-- A head whose read fails is taken for that of an empty log. -/
theorem hourLog_afterHour_failed (hcycle : ∀ w ∈ cycle, w.1 < 3) :
    hourLog (afterHour m 255 hr current cycle) = [(hr, current)] := by
  have haddr := eeprom_addresses
  have hone : hourLen (afterHour m 255 hr current cycle) = 1 := by
    unfold hourLen
    rw [afterHour_head hcycle]
    decide
  have hslot : hourRecord (afterHour m 255 hr current cycle) 0 =
      hourRecord (Prog.putAll m (hourSlotWrites 0 hr current)) 0 :=
    hourRecord_congr fun x h1 _ => afterHour_eq hcycle (by omega)
  unfold hourLog
  rw [hone, ← hourRecord_putAll m 0 hr current, ← hslot]
  rfl

/-- The 25th record of a day leaves the date log alone if its bytes are those of a date. -/
theorem dateLog_afterHour_last (hcycle : ∀ w ∈ cycle, w.1 < 3) (h23 : m eepromHourHeadPtr = 23) :
    dateLog (afterHour m (m eepromHourHeadPtr) hr current cycle) = dateLog m ↔ dateLog m = [] ∨
      dateStr hr (loByte current) (hiByte current) = (dateRecord m 0).1 := by
  have haddr := eeprom_addresses
  have h24 : (m eepromHourHeadPtr + 1).toNat = 24 := by
    rw [h23]
    decide
  have hbyte : ∀ k, afterHour m (m eepromHourHeadPtr) hr current cycle (eepromDateDataPtr + k) =
      Prog.putAll m (hourSlotWrites 24 hr current) (eepromDateDataPtr + k) := by
    intro k
    rw [← h24]
    exact afterHour_eq hcycle (by omega)
  rw [dateLog_eq_iff_of_first fun x hx => afterHour_of_out hcycle (by omega) (by omega),
    hbyte 1, hbyte 2, ← Nat.add_zero eepromDateDataPtr, hbyte 0]
  simp [hourSlotWrites, Function.update, eepromHourDataPtr, eepromDateDataPtr]

end AfterHour

theorem readsHarmless_hour (hhour : m eepromHourHeadPtr = 255 ∨ (m eepromHourHeadPtr).toNat ≤ 23)
    (fails : Nat → Bool) (hr : UInt8) (current : UInt16) :
    ReadsHarmless m fails (.hour hr current) ↔ HourFailuresFit m fails hr current := by
  have hlen := hourLen_le_of_head hhour
  obtain ⟨cycle, hcycle, hwrites, heval⟩ := failing_appendHourlyRecord m fails hr current
  have hd24 : (readByte m fails 0 eepromHourHeadPtr + 1).toNat ≤ 24 := by
    unfold readByte
    by_cases h0 : fails 0 = true
    · rw [if_pos h0]
      decide
    · rw [if_neg h0]
      exact hlen
  rw [readsHarmless_iff_changes (.hour hr current) heval fun w hw =>
    addr_of_mem_hourUpdate hd24 hcycle (hwrites ▸ hw)]
  change LogUpdate.Changes m (afterHour m (readByte m fails 0 eepromHourHeadPtr) hr current cycle)
    (.hour hr current) ↔ _
  unfold LogUpdate.Changes HourFailuresFit
  simp only [hourHistory_eq, dateHistory_eq]
  by_cases h0 : fails 0 = true
  · rw [readByte, if_pos h0, if_pos h0, hourLog_afterHour_failed hcycle,
      and_iff_left (dateLog_afterHour hcycle (by decide))]
    constructor
    · rintro (heq | heq)
      · exact Or.inr heq.symm
      · exact Or.inl (List.self_eq_append_left.1 heq)
    · rintro (heq | heq)
      · right
        rw [heq]
        rfl
      · exact Or.inl heq.symm
  · rw [readByte, if_neg h0, if_neg h0, hourLog_afterHour hcycle hlen,
      and_iff_right (Or.inr rfl)]
    by_cases h23 : m eepromHourHeadPtr = 23
    · rw [dateLog_afterHour_last hcycle h23]
      exact ⟨fun h _ => h, fun h => h h23⟩
    · have hlt : (m eepromHourHeadPtr + 1).toNat ≤ 23 := by
        have hne : (m eepromHourHeadPtr).toNat ≠ 23 := fun h => h23 (UInt8.toNat_inj.1 h)
        rcases hhour with h255 | hle
        · rw [h255]
          decide
        · simp only [UInt8.toNat_add, UInt8.toNat_one]
          omega
      exact ⟨fun _ h => absurd h h23, fun _ => dateLog_afterHour hcycle hlt⟩

/-! ## A record of a date -/

/-- The slots of a ring that was filled, from the oldest on. -/
theorem dateSlots_rotated {p : Nat} (hptr : (m eepromDateHeadPtr).toNat = p) (hp : p ≤ 30)
    (hfull : p = 30 ∨ lastYear m ≠ 0) :
    dateSlots m = (List.range 31).map fun i => (p + 1 + i) % 31 := by
  have hall : ∀ p < 31, List.range' (p + 1) (30 - p) ++ List.range (p + 1) =
      (List.range 31).map fun i => (p + 1 + i) % 31 := by
    decide +kernel
  rw [dateSlots_of_full hptr hp hfull, hall p (by omega)]

/-- A ring of 31 that is the same after a turn, but for one place, is the same everywhere: 31 is a
prime, so the turns from that place on lead to every other. -/
theorem eq_of_turn {α : Type} {f : Nat → α} {q : Nat} (h0 : 0 < q) (h30 : q ≤ 30)
    (h : ∀ i, 1 ≤ i → i ≤ 30 → f ((i + q) % 31) = f i) : ∀ i < 31, f i = f 0 := by
  have hprime : Nat.Prime 31 := by decide
  have hnot : ¬ 31 ∣ q := Nat.not_dvd_of_pos_of_lt h0 (by omega)
  have hne : ∀ k, 0 < k → k < 31 → k * q % 31 ≠ 0 := by
    intro k hk hlt hzero
    rcases hprime.dvd_mul.1 (Nat.dvd_of_mod_eq_zero hzero) with hdvd | hdvd
    · exact Nat.not_dvd_of_pos_of_lt hk hlt hdvd
    · exact hnot hdvd
  have hex : ∀ i < 31, ∃ k, 0 < k ∧ k < 32 ∧ k * q % 31 = i := by
    intro i hi
    obtain ⟨j, -, hj⟩ := Nat.exists_mul_mod_eq_one_of_coprime
      ((hprime.coprime_iff_not_dvd.2 hnot).symm) (by decide)
    have hturns : j * i % 31 * q % 31 = i := by
      calc j * i % 31 * q % 31 = j * i * q % 31 := Nat.mod_mul_mod ..
        _ = q * j * i % 31 := by rw [Nat.mul_comm (j * i), Nat.mul_assoc]
        _ = q * j % 31 * i % 31 := (Nat.mod_mul_mod ..).symm
        _ = i := by rw [hj, Nat.one_mul, Nat.mod_eq_of_lt hi]
    by_cases hzero : j * i % 31 = 0
    · -- no turn leads there, and so do 31
      rw [hzero, Nat.zero_mul, Nat.zero_mod] at hturns
      exact ⟨31, by decide, by decide, by rw [Nat.mul_mod_right, hturns]⟩
    · exact ⟨j * i % 31, Nat.pos_of_ne_zero hzero, by omega, hturns⟩
  have hchain : ∀ k, 0 < k → k < 32 → f (k * q % 31) = f q := by
    intro k hk
    induction k, hk using Nat.le_induction with
    | base =>
      intro _
      rw [Nat.succ_eq_add_one, Nat.zero_add, Nat.one_mul, Nat.mod_eq_of_lt (by omega)]
    | succ k hk ih =>
      intro hlt
      have hpos := hne k hk (by omega)
      have hmod := Nat.mod_lt (k * q) (show 31 > 0 by decide)
      rw [← ih (by omega), ← h (k * q % 31) (by omega) (by omega), Nat.add_mul, Nat.one_mul,
        Nat.mod_add_mod]
  have hall : ∀ i < 31, f i = f q := by
    intro i hi
    obtain ⟨k, hpos, hlt, rfl⟩ := hex i hi
    exact hchain k hpos hlt
  intro i hi
  rw [hall i hi, hall 0 (by decide)]

/-- A record in the first slot does no harm: this is the next slot, or holds the record already, or
all slots of a ring that was filled hold the same. -/
def RestartFits (m : Eeprom) (new : CStr × UInt16) : Prop :=
  (m eepromDateHeadPtr = 255 ∧ lastYear m = 0) ∨ (m eepromDateHeadPtr = 30 ∧ lastYear m ≠ 0) ∨
    (m eepromDateHeadPtr = 0 ∧ dateRecord m 0 = new) ∨
    (m eepromDateHeadPtr ≠ 255 ∧ lastYear m ≠ 0 ∧ ∀ i < 31, dateRecord m i = dateRecord m 0)

/-- The dates after a record in the first slot, in the first lap of the ring. -/
theorem dateLog_restart_of_zero (hyear : lastYear m = 0) (yy mm dd : UInt8) (avg : UInt16) :
    dateLog (Prog.putAll m (dateWrites 255 yy mm dd avg)) = [(dateStr yy mm dd, avg)] := by
  have hhead : Prog.putAll m (dateWrites 255 yy mm dd avg) eepromDateHeadPtr = 0 :=
    putAll_dateWrites_head ..
  have hyear' := (lastYear_dateWrites (m := m) (p := 255) yy mm dd avg (by decide)).trans hyear
  have hrec : dateRecord (Prog.putAll m (dateWrites 255 yy mm dd avg)) 0 = _ :=
    dateRecord_dateWrites 255 yy mm dd avg
  rw [dateLog, dateSlots_of_filling (p := 0) (by rw [hhead]; rfl) (by decide) hyear', ← hrec]
  rfl

/-- The dates after a record in the first slot of a ring that was filled. -/
theorem dateLog_restart_of_ne (hyear : lastYear m ≠ 0) (yy mm dd : UInt8) (avg : UInt16) :
    dateLog (Prog.putAll m (dateWrites 255 yy mm dd avg)) =
      (List.range 30).map (fun i => dateRecord m (i + 1)) ++ [(dateStr yy mm dd, avg)] := by
  have hhead : Prog.putAll m (dateWrites 255 yy mm dd avg) eepromDateHeadPtr = 0 :=
    putAll_dateWrites_head ..
  have hyear' := lastYear_dateWrites (m := m) (p := 255) yy mm dd avg (by decide)
  have hrec : dateRecord (Prog.putAll m (dateWrites 255 yy mm dd avg)) 0 = _ :=
    dateRecord_dateWrites 255 yy mm dd avg
  rw [dateLog, dateSlots_rotated (p := 0) (by rw [hhead]; rfl) (by decide)
    (Or.inr (by rwa [hyear'])), List.range_succ, List.map_append, List.map_append, List.map_map]
  refine congrArg₂ List.append ?_ ?_
  · apply List.map_congr_left
    intro i hi
    have hlt := List.mem_range.1 hi
    have hmod : (0 + 1 + i) % 31 = i + 1 := by omega
    show dateRecord _ ((0 + 1 + i) % 31) = _
    rw [hmod]
    exact dateRecord_dateWrites_of_ne (show i + 1 ≠ 0 by omega)
  · rw [← hrec]
    rfl

/-- In the first lap. -/
theorem restart_iff_of_zero (hdate : m eepromDateHeadPtr = 255 ∨ (m eepromDateHeadPtr).toNat ≤ 30)
    (hyear : lastYear m = 0) (new : CStr × UInt16) :
    ([new] = dateLog m ∨ [new] = ringAdd (dateLog m) new) ↔ RestartFits m new := by
  unfold RestartFits
  rcases hdate with h255 | hle
  · rw [dateLog, dateSlots_of_empty h255 hyear]
    exact ⟨fun _ => Or.inl ⟨h255, hyear⟩, fun _ => Or.inr rfl⟩
  · have hne : m eepromDateHeadPtr ≠ 255 := by
      intro h255
      rw [h255] at hle
      exact absurd hle (by decide)
    simp only [hne, hyear, false_and, ne_eq, not_true_eq_false, and_false, or_false, false_or]
    by_cases h30 : (m eepromDateHeadPtr).toNat = 30
    · have hlen : (dateLog m).length = 31 := by
        rw [dateLog, dateSlots_rotated h30 le_rfl (Or.inl rfl)]
        simp
      have hadd : (ringAdd (dateLog m) new).length = 31 := by
        simp [ringAdd, hlen, eepromDateRecordNum]
      have hzero : m eepromDateHeadPtr ≠ 0 := by
        intro h0
        rw [h0] at h30
        exact absurd h30 (by decide)
      constructor
      · rintro (heq | heq)
        · rw [← heq] at hlen
          exact absurd hlen (show 1 ≠ 31 by decide)
        · rw [← heq] at hadd
          exact absurd hadd (show 1 ≠ 31 by decide)
      · exact fun h => absurd h.1 hzero
    · have hlog : dateLog m = (List.range ((m eepromDateHeadPtr).toNat + 1)).map (dateRecord m) := by
        rw [dateLog, dateSlots_of_filling rfl (by omega) hyear]
      have hlen : (dateLog m).length = (m eepromDateHeadPtr).toNat + 1 := by
        rw [hlog]
        simp
      have hadd : (ringAdd (dateLog m) new).length = (m eepromDateHeadPtr).toNat + 2 := by
        have hlt : (dateLog m).length < eepromDateRecordNum := by
          rw [hlen]
          show _ < 31
          omega
        rw [ringAdd, if_pos hlt, List.length_append, hlen]
        rfl
      constructor
      · rintro (heq | heq)
        · have hone : 1 = (m eepromDateHeadPtr).toNat + 1 := by
            rw [← hlen, ← heq]
            rfl
          have hzero : (m eepromDateHeadPtr).toNat = 0 := by omega
          rw [hlog, hzero] at heq
          exact ⟨UInt8.toNat_inj.1 hzero, (List.cons.inj heq).1.symm⟩
        · rw [← heq] at hadd
          exact absurd (show 1 = (m eepromDateHeadPtr).toNat + 2 from hadd) (by omega)
      · rintro ⟨hzero, hrec⟩
        left
        rw [hlog, hzero, ← hrec]
        rfl

theorem dateLog_rotated {p : Nat} (hptr : (m eepromDateHeadPtr).toNat = p) (hp : p ≤ 30)
    (hyear : lastYear m ≠ 0) :
    dateLog m = (List.range 31).map fun i => dateRecord m ((p + 1 + i) % 31) := by
  rw [dateLog, dateSlots_rotated hptr hp (Or.inr hyear), List.map_map]
  rfl

/-- The dates of a ring that was filled, the newest apart. -/
theorem dateLog_of_full {p : Nat} (hptr : (m eepromDateHeadPtr).toNat = p) (hp : p ≤ 30)
    (hyear : lastYear m ≠ 0) :
    dateLog m = (List.range 30).map (fun i => dateRecord m ((p + 1 + i) % 31)) ++
      [dateRecord m p] := by
  have hlast : (p + 1 + 30) % 31 = p := by omega
  rw [dateLog_rotated hptr hp hyear, List.range_succ, List.map_append, List.map_singleton, hlast]

theorem ringAdd_of_full {p : Nat} (hptr : (m eepromDateHeadPtr).toNat = p) (hp : p ≤ 30)
    (hyear : lastYear m ≠ 0) (new : CStr × UInt16) :
    ringAdd (dateLog m) new =
      (List.range 30).map (fun i => dateRecord m ((p + 1 + (i + 1)) % 31)) ++ [new] := by
  have hfull : ¬ (dateLog m).length < eepromDateRecordNum := by
    rw [dateLog_rotated hptr hp hyear, List.length_map, List.length_range]
    decide
  rw [ringAdd, if_neg hfull, dateLog_rotated hptr hp hyear, List.range_succ_eq_map, List.map_cons,
    List.tail_cons, List.map_map]
  rfl

/-- The first slot is not the next one, and does no harm: it has the record, or all slots are the
same. -/
theorem eq_or_all_of_restart {p : Nat} (hp : p ≤ 30) {new : CStr × UInt16}
    (h : (List.range 30).map (fun i => dateRecord m (i + 1)) ++ [new] =
        (List.range 30).map (fun i => dateRecord m ((p + 1 + i) % 31)) ++ [dateRecord m p] ∨
      (List.range 30).map (fun i => dateRecord m (i + 1)) ++ [new] =
        (List.range 30).map (fun i => dateRecord m ((p + 1 + (i + 1)) % 31)) ++ [new]) :
    p = 30 ∨ (p = 0 ∧ dateRecord m 0 = new) ∨ ∀ i < 31, dateRecord m i = dateRecord m 0 := by
  rcases h with heq | heq
  · obtain ⟨hmap, hlast⟩ := List.append_inj' heq rfl
    by_cases hzero : p = 0
    · right
      left
      rw [hzero] at hlast
      exact ⟨hzero, (List.cons.inj hlast).1.symm⟩
    · right
      right
      refine eq_of_turn (q := p) (by omega) hp fun i h1 h2 => ?_
      have hi := List.map_inj_left.1 hmap (i - 1) (List.mem_range.2 (by omega))
      rw [show i - 1 + 1 = i by omega, show p + 1 + (i - 1) = i + p by omega] at hi
      exact hi.symm
  · have hmap := List.append_cancel_right heq
    by_cases hlast : p = 30
    · exact Or.inl hlast
    · right
      right
      refine eq_of_turn (q := p + 1) (by omega) (by omega) fun i h1 h2 => ?_
      have hi := List.map_inj_left.1 hmap (i - 1) (List.mem_range.2 (by omega))
      rw [show i - 1 + 1 = i by omega, show p + 1 + i = i + (p + 1) by omega] at hi
      exact hi.symm

/-- In a ring that was filled. -/
theorem restart_iff_of_ne (hdate : m eepromDateHeadPtr = 255 ∨ (m eepromDateHeadPtr).toNat ≤ 30)
    (hyear : lastYear m ≠ 0) (new : CStr × UInt16) :
    ((List.range 30).map (fun i => dateRecord m (i + 1)) ++ [new] = dateLog m ∨
      (List.range 30).map (fun i => dateRecord m (i + 1)) ++ [new] = ringAdd (dateLog m) new) ↔
        RestartFits m new := by
  unfold RestartFits
  rcases hdate with h255 | hle
  · have hlen : (dateLog m).length = 256 := by
      rw [dateLog, dateSlots_of_blank h255 hyear, List.length_map, List.length_range]
    have hadd : (ringAdd (dateLog m) new).length = 256 := by
      simp [ringAdd, hlen, eepromDateRecordNum]
    constructor
    · rintro (heq | heq)
      · rw [← heq] at hlen
        simp at hlen
      · rw [← heq] at hadd
        simp at hadd
    · simp [h255, hyear]
  · have hne : m eepromDateHeadPtr ≠ 255 := by
      intro h255
      rw [h255] at hle
      exact absurd hle (by decide)
    obtain ⟨p, hp⟩ : ∃ p, (m eepromDateHeadPtr).toNat = p := ⟨_, rfl⟩
    rw [hp] at hle
    have h30 : m eepromDateHeadPtr = 30 ↔ p = 30 := by
      rw [← hp]
      exact UInt8.toNat_inj.symm
    have h0 : m eepromDateHeadPtr = 0 ↔ p = 0 := by
      rw [← hp]
      exact UInt8.toNat_inj.symm
    simp only [hne, hyear, h30, h0, false_and, ne_eq, not_false_eq_true, and_true, true_and, false_or]
    rw [ringAdd_of_full hp hle hyear, dateLog_of_full hp hle hyear]
    refine ⟨eq_or_all_of_restart hle, ?_⟩
    have hcongr : ∀ {q : Nat}, (∀ i < 30, dateRecord m (i + 1) = dateRecord m ((q + i) % 31)) →
        (List.range 30).map (fun i => dateRecord m (i + 1)) =
          (List.range 30).map fun i => dateRecord m ((q + i) % 31) :=
      fun h => List.map_congr_left fun i hi => h i (List.mem_range.1 hi)
    rintro (hlast | ⟨hzero, hrec⟩ | hall)
    · right
      simp only [hlast, ← Nat.add_assoc, Nat.add_right_comm _ _ 1]
      rw [hcongr fun i hi => by rw [show (30 + 1 + 1 + i) % 31 = i + 1 by omega]]
    · left
      rw [hzero, hrec, hcongr fun i hi => by rw [show (0 + 1 + i) % 31 = i + 1 by omega]]
    · right
      simp only [← Nat.add_assoc, Nat.add_right_comm _ _ 1]
      rw [hcongr (q := p + 1 + 1) fun i hi => by
        rw [hall (i + 1) (by omega), hall ((p + 1 + 1 + i) % 31) (by omega)]]

/-- The reads that fail in a record of a date do not matter: the head is read and valid, or a
record in the first slot does no harm. -/
def DateFailuresFit (m : Eeprom) (fails : Nat → Bool) (yy mm dd : UInt8) (avg : UInt16) : Prop :=
  if fails 0 then RestartFits m (dateStr yy mm dd, avg) else DateValid m

theorem restart_iff (hdate : m eepromDateHeadPtr = 255 ∨ (m eepromDateHeadPtr).toNat ≤ 30)
    (yy mm dd : UInt8) (avg : UInt16) :
    (dateLog (Prog.putAll m (dateWrites 255 yy mm dd avg)) = dateLog m ∨
      dateLog (Prog.putAll m (dateWrites 255 yy mm dd avg)) =
        ringAdd (dateLog m) (dateStr yy mm dd, avg)) ↔ RestartFits m (dateStr yy mm dd, avg) := by
  by_cases hyear : lastYear m = 0
  · rw [dateLog_restart_of_zero hyear]
    exact restart_iff_of_zero hdate hyear _
  · rw [dateLog_restart_of_ne hyear]
    exact restart_iff_of_ne hdate hyear _

/-- A head that is read, and not valid: the append goes to the first slot, where it does harm. -/
theorem restart_of_not_valid (hdate : m eepromDateHeadPtr = 255 ∨ (m eepromDateHeadPtr).toNat ≤ 30)
    (hvalid : ¬ DateValid m) :
    designatedDatePtr (m eepromDateHeadPtr) = 0 ∧ ∀ new, ¬ RestartFits m new := by
  unfold DateValid at hvalid
  push Not at hvalid
  obtain ⟨h1, h2, h3⟩ := hvalid
  rcases hdate with h255 | hle
  · refine ⟨by rw [h255]; rfl, fun new => ?_⟩
    simp [RestartFits, h255, h1 h255]
  · have h30 : (m eepromDateHeadPtr).toNat = 30 := by omega
    have hptr : m eepromDateHeadPtr = 30 := UInt8.toNat_inj.1 h30
    refine ⟨designatedDatePtr_of_last h30, fun new => ?_⟩
    simp [RestartFits, hptr, h3 h30]

theorem readsHarmless_date (hhour : hourLen m ≤ 24)
    (hdate : m eepromDateHeadPtr = 255 ∨ (m eepromDateHeadPtr).toNat ≤ 30) (fails : Nat → Bool)
    (yy mm dd : UInt8) (avg : UInt16) :
    ReadsHarmless m fails (.date yy mm dd avg) ↔ DateFailuresFit m fails yy mm dd avg := by
  obtain ⟨ptr, hptr⟩ : ∃ ptr, ptr = readByte m fails 0 eepromDateHeadPtr := ⟨_, rfl⟩
  have heval : ((appendDateRecord yy mm dd avg).failing 0xff fails).eval m =
      .ok ((), Prog.putAll m (dateWrites ptr yy mm dd avg)) := by
    rw [hptr]
    rfl
  have hwrites : ((appendDateRecord yy mm dd avg).failing 0xff fails).writes m =
      dateWrites ptr yy mm dd avg := by
    rw [hptr]
    rfl
  have hd : (designatedDatePtr ptr).toNat ≤ 30 := by
    apply designatedDatePtr_le
    rw [hptr, readByte]
    by_cases h0 : fails 0 = true
    · rw [if_pos h0]
      exact Or.inl rfl
    · rw [if_neg h0]
      exact hdate
  rw [readsHarmless_iff_changes (.date yy mm dd avg) heval]
  · unfold LogUpdate.Changes DateFailuresFit
    simp only [hourHistory_eq, dateHistory_eq]
    rw [and_iff_right (hourLog_dateWrites hhour ..)]
    have hrestart : designatedDatePtr ptr = 0 →
        Prog.putAll m (dateWrites ptr yy mm dd avg) = Prog.putAll m (dateWrites 255 yy mm dd avg) := by
      intro h0
      unfold dateWrites
      rw [h0]
      rfl
    by_cases h0 : fails 0 = true
    · rw [if_pos h0, hrestart (by rw [hptr, readByte, if_pos h0]; rfl)]
      exact restart_iff hdate yy mm dd avg
    · have hread : ptr = m eepromDateHeadPtr := by
        rw [hptr, readByte, if_neg h0]
      rw [if_neg h0]
      by_cases hvalid : DateValid m
      · rw [hread]
        exact iff_of_true (Or.inr (dateLog_dateWrites hvalid ..)) hvalid
      · obtain ⟨hzero, hbad⟩ := restart_of_not_valid hdate hvalid
        rw [hrestart (by rw [hread, hzero]), restart_iff hdate]
        exact iff_of_false (hbad _) hvalid
  · intro w hw
    rw [show LogUpdate.prog (.date yy mm dd avg) = appendDateRecord yy mm dd avg from rfl, hwrites] at hw
    have haddr := eeprom_addresses
    rcases List.mem_append.1 hw with hw | hw
    · have := addr_of_mem_dateSlotWrites hw
      omega
    · rw [List.mem_singleton.1 hw]
      show eepromDateHeadPtr < _
      omega

/-! ## The average of a day -/

/-- The passes of the loop over the hour log: up to the first whose length is not read. -/
def passes (m : Eeprom) (fails : Nat → Bool) : Nat :=
  (List.range (hourLen m)).findIdx fun i => fails (3 * i)

/-- The current that is read in the pass `i`. -/
def currentRead (m : Eeprom) (fails : Nat → Bool) (i : Nat) : UInt16 :=
  int16 (readByte m fails (3 * i + 1) (eepromHourDataPtr + i * 3 + 1))
    (readByte m fails (3 * i + 2) (eepromHourDataPtr + i * 3 + 1 + 1))

/-- The sum of the currents, as they are read. -/
def sumRead (m : Eeprom) (fails : Nat → Bool) : Nat :=
  ((List.range (passes m fails)).map fun i => (currentRead m fails i).toNat).sum

theorem passes_le (m : Eeprom) (fails : Nat → Bool) : passes m fails ≤ hourLen m := by
  have hle : passes m fails ≤ (List.range (hourLen m)).length := List.findIdx_le_length
  rwa [List.length_range] at hle

theorem not_fails_of_lt_passes {i : Nat} (hi : i < passes m fails) : fails (3 * i) = false := by
  have hnot := List.not_of_lt_findIdx hi
  rwa [List.getElem_range] at hnot

theorem fails_of_passes (h : passes m fails < hourLen m) : fails (3 * passes m fails) = true := by
  have hlt : passes m fails < (List.range (hourLen m)).length := by
    rw [List.length_range]
    exact h
  have hget : fails (3 * (List.range (hourLen m))[passes m fails]) = true :=
    List.findIdx_getElem (w := hlt)
  rwa [List.getElem_range] at hget

/-- What a program returns and what it writes. -/
def effect {α : Type} (p : EepromProg α) (m : Eeprom) :
    Except Fault (α × Eeprom) × List (Nat × UInt8) := (p.eval m, p.writes m)

/-- The loop that sums the currents, when reads fail.  Induction on the passes that are left. -/
theorem effect_failing_loop {α : Type} (m : Eeprom) (fails : Nat → Bool) (cont : Nat → EepromProg α)
    (k i sum : Nat) (hi : i ≤ passes m fails) (hk : passes m fails < i + k) :
    effect ((Prog.forWhile getHourDataLength sumPass (List.range' i k) sum >>= cont).failing 0xff
        fun j => fails (3 * i + j)) m =
      effect ((cont (sum + ((List.range' i (passes m fails - i)).map fun i =>
        (currentRead m fails i).toNat).sum)).failing 0xff
          fun j => fails (3 * passes m fails + (j + 1))) m := by
  induction k generalizing i sum with
  | zero => omega
  | succ k ih =>
    have hread : effect ((Prog.forWhile getHourDataLength sumPass (List.range' i (k + 1)) sum >>=
          cont).failing 0xff fun j => fails (3 * i + j)) m =
        effect (((if i < (readByte m fails (3 * i) eepromHourHeadPtr + 1).toNat then
          sumPass sum i >>= Prog.forWhile getHourDataLength sumPass (List.range' (i + 1) k)
            else Prog.done sum) >>= cont).failing 0xff fun j => fails (3 * i + (j + 1))) m := rfl
    rw [hread]
    by_cases hlt : i < passes m fails
    · have hok := not_fails_of_lt_passes hlt
      have hlen : i < (m eepromHourHeadPtr + 1).toNat := hlt.trans_le (passes_le m fails)
      have hpass : effect ((sumPass sum i >>= Prog.forWhile getHourDataLength sumPass
            (List.range' (i + 1) k) >>= cont).failing 0xff fun j => fails (3 * i + (j + 1))) m =
          effect ((Prog.forWhile getHourDataLength sumPass (List.range' (i + 1) k)
            (sum + (currentRead m fails i).toNat) >>= cont).failing 0xff
              fun j => fails (3 * i + (j + 1 + 1 + 1))) m := rfl
      have hshift : (fun j => fails (3 * i + (j + 1 + 1 + 1))) = fun j => fails (3 * (i + 1) + j) := by
        funext j
        rw [show 3 * i + (j + 1 + 1 + 1) = 3 * (i + 1) + j by omega]
      rw [readByte, hok, if_neg Bool.false_ne_true, if_pos hlen, hpass, hshift,
        ih (i + 1) _ hlt (by omega), show passes m fails - i = passes m fails - (i + 1) + 1 by omega,
        List.range'_succ, List.map_cons, List.sum_cons, Nat.add_assoc]
    · have heq : i = passes m fails := by omega
      have hend : ¬ i < (readByte m fails (3 * i) eepromHourHeadPtr + 1).toNat := by
        rw [readByte]
        by_cases hfail : fails (3 * i) = true
        · rw [if_pos hfail]
          exact Nat.not_lt_zero i
        · rw [if_neg hfail]
          intro hlen
          rw [heq] at hfail hlen
          exact hfail (fails_of_passes hlen)
      rw [if_neg hend, ← heq, Nat.sub_self]
      rfl

/-- The writes of an average to the date record `ptr`. -/
def averageWrites (ptr : UInt8) (avg : UInt16) : List (Nat × UInt8) :=
  [(eepromDateDataPtr + ptr.toNat * 5 + 3, loByte avg),
    (eepromDateDataPtr + ptr.toNat * 5 + 3 + 1, hiByte avg)]

/-- What comes behind the loop. -/
def storeAverage (avgSumCurrent : Nat) : EepromProg Unit := do
  let length ← getHourDataLength
  if length = 0 then Prog.fault .divByZero
  else do
    let ptr ← getRecordedDatePtr
    writeAsInt16 (UInt16.ofNat (avgSumCurrent / length)) (eepromDateDataPtr + ptr.toNat * 5 + 3)

theorem dailyAverage_eq : dailyAverage =
    Prog.forWhile getHourDataLength sumPass (List.range' 0 256) 0 >>= storeAverage := by
  unfold dailyAverage
  rw [sumHourData_eq]
  unfold forHourData
  rfl

/-- The reads behind the loop: the length by which the sum is divided, and the date record. -/
theorem effect_failing_storeAverage (m : Eeprom) (fails : Nat → Bool) (sum : Nat) :
    effect ((storeAverage sum).failing 0xff fails) m =
      if (readByte m fails 0 eepromHourHeadPtr + 1).toNat = 0 then (.error .divByZero, [])
      else
        let ws := averageWrites (readByte m fails 1 eepromDateHeadPtr)
          (UInt16.ofNat (sum / (readByte m fails 0 eepromHourHeadPtr + 1).toNat))
        (.ok ((), Prog.putAll m ws), ws) := by
  have hread : effect ((storeAverage sum).failing 0xff fails) m =
      effect ((if (readByte m fails 0 eepromHourHeadPtr + 1).toNat = 0 then Prog.fault .divByZero
        else getRecordedDatePtr >>= fun ptr => writeAsInt16
          (UInt16.ofNat (sum / (readByte m fails 0 eepromHourHeadPtr + 1).toNat))
            (eepromDateDataPtr + ptr.toNat * 5 + 3)).failing 0xff fun j => fails (j + 1)) m := rfl
  rw [hread]
  by_cases hzero : (readByte m fails 0 eepromHourHeadPtr + 1).toNat = 0
  · rw [if_pos hzero, if_pos hzero]
    rfl
  · rw [if_neg hzero, if_neg hzero]
    rfl

theorem effect_failing_dailyAverage (m : Eeprom) (fails : Nat → Bool) :
    effect (dailyAverage.failing 0xff fails) m =
      effect ((storeAverage (sumRead m fails)).failing 0xff
        fun j => fails (3 * passes m fails + (j + 1))) m := by
  have hloop := effect_failing_loop m fails storeAverage 256 0 0 (Nat.zero_le _) (by
    have hle := passes_le m fails
    have hlt := (m eepromHourHeadPtr + 1).toNat_lt
    unfold hourLen at hle
    omega)
  have hshift : (fun j => fails (3 * 0 + j)) = fails := by
    funext j
    rw [Nat.mul_zero, Nat.zero_add]
  rw [hshift, Nat.zero_add, Nat.sub_zero,
    ← List.range_eq_range' (n := passes m fails)] at hloop
  rw [dailyAverage_eq, hloop]
  rfl

/-- The newest of the dates is read last. -/
theorem dateSlots_concat {p : Nat} (hptr : (m eepromDateHeadPtr).toNat = p) (hp : p ≤ 30) :
    ∃ older, dateSlots m = older ++ [p] ∧ p ∉ older := by
  by_cases hfull : p = 30 ∨ lastYear m ≠ 0
  · refine ⟨List.range' (p + 1) (30 - p) ++ List.range p, ?_, ?_⟩
    · rw [dateSlots_of_full hptr hp hfull, List.range_succ, List.append_assoc]
    · simp [List.mem_range'_1]
  · push Not at hfull
    refine ⟨List.range p, ?_, by simp⟩
    rw [dateSlots_of_filling hptr (by omega) hfull.2, List.range_succ]

/-- An average is stored with the newest of the dates. -/
theorem dateLog_averageWrites {p : Nat} (hptr : (m eepromDateHeadPtr).toNat = p) (hp : p ≤ 30)
    (avg : UInt16) : ∃ older, dateLog m = older ++ [dateRecord m p] ∧
      dateLog (Prog.putAll m (averageWrites (m eepromDateHeadPtr) avg)) =
        older ++ [((dateRecord m p).1, avg)] := by
  have haddr := eeprom_addresses
  have hkeep : ∀ x, x ≠ eepromDateDataPtr + p * 5 + 3 → x ≠ eepromDateDataPtr + p * 5 + 3 + 1 →
      Prog.putAll m (averageWrites (m eepromDateHeadPtr) avg) x = m x := by
    intro x h1 h2
    rw [← hptr] at h1 h2
    apply Prog.putAll_of_notMem
    intro w hw
    rcases List.mem_pair.1 hw with rfl | rfl
    · exact h1.symm
    · exact h2.symm
  obtain ⟨older, hslots, hnot⟩ := dateSlots_concat hptr hp
  have hslots' : dateSlots (Prog.putAll m (averageWrites (m eepromDateHeadPtr) avg)) =
      older ++ [p] := by
    rw [← hslots]
    apply dateSlots_congr
    · exact hkeep _ (by omega) (by omega)
    · exact hkeep _ (by omega) (by omega)
  refine ⟨older.map (dateRecord m), by rw [dateLog, hslots, List.map_append]; rfl, ?_⟩
  rw [dateLog, hslots', List.map_append]
  have hlast : dateRecord (Prog.putAll m (averageWrites (m eepromDateHeadPtr) avg)) p =
      ((dateRecord m p).1, avg) := by
    have hlo : Prog.putAll m (averageWrites (m eepromDateHeadPtr) avg)
        (eepromDateDataPtr + p * 5 + 3) = loByte avg := by
      simp [averageWrites, Function.update, hptr]
    have hhi : Prog.putAll m (averageWrites (m eepromDateHeadPtr) avg)
        (eepromDateDataPtr + p * 5 + 4) = hiByte avg := by
      simp [averageWrites, Function.update, hptr]
    unfold dateRecord
    rw [hlo, hhi, int16_bytes, hkeep _ (by omega) (by omega), hkeep _ (by omega) (by omega),
      hkeep _ (by omega) (by omega)]
  rw [List.map_singleton, hlast]
  congr 1
  apply List.map_congr_left
  intro i hi
  have hne : i ≠ p := fun h => hnot (h ▸ hi)
  apply dateRecord_congr
  intro x h1 h2
  exact hkeep x (by omega) (by omega)

/-- The reads that fail in an average do not matter: there is an hour log, its length and the
date record are read, and the currents that are read have the right average, or the one that is
stored already. -/
def AverageFailuresFit (m : Eeprom) (fails : Nat → Bool) : Prop :=
  m eepromHourHeadPtr ≠ 255 ∧ fails (3 * passes m fails + 1) = false ∧
    m eepromDateHeadPtr ≠ 255 ∧ fails (3 * passes m fails + 2) = false ∧
    (UInt16.ofNat (sumRead m fails / hourLen m) = averageOf (hourLog m) ∨
      UInt16.ofNat (sumRead m fails / hourLen m) =
        (dateRecord m (m eepromDateHeadPtr).toNat).2)

theorem readByte_add_one_eq_zero {i x : Nat} :
    (readByte m fails i x + 1).toNat = 0 ↔ fails i = true ∨ m x = 255 := by
  have hadd : ∀ v : UInt8, (v + 1).toNat = 0 ↔ v = 255 := by
    intro v
    have hlt := v.toNat_lt
    rw [← UInt8.toNat_inj]
    simp only [UInt8.toNat_add, UInt8.toNat_one, UInt8.reduceToNat]
    omega
  rw [hadd, readByte]
  by_cases hfail : fails i = true
  · rw [if_pos hfail]
    exact iff_of_true rfl (Or.inl hfail)
  · rw [if_neg hfail]
    exact (or_iff_right hfail).symm

/-- A length that is read as 0 divides the sum. -/
theorem eval_failing_average_of_zero
    (h : fails (3 * passes m fails + 1) = true ∨ m eepromHourHeadPtr = 255) :
    (dailyAverage.failing 0xff fails).eval m = .error .divByZero := by
  have heffect := (effect_failing_dailyAverage m fails).trans (effect_failing_storeAverage ..)
  have hread : readByte m (fun j => fails (3 * passes m fails + (j + 1))) 0 =
    readByte m fails (3 * passes m fails + 1) := rfl
  rw [hread, if_pos (readByte_add_one_eq_zero.2 h)] at heffect
  exact congrArg Prod.fst heffect

/-- The date head, as it is read behind the sum. -/
def readDateHead (m : Eeprom) (fails : Nat → Bool) : UInt8 :=
  readByte m fails (3 * passes m fails + 2) eepromDateHeadPtr

theorem readDateHead_eq_255 : readDateHead m fails = 255 ↔
    fails (3 * passes m fails + 2) = true ∨ m eepromDateHeadPtr = 255 := by
  unfold readDateHead readByte
  by_cases hfail : fails (3 * passes m fails + 2) = true
  · rw [if_pos hfail]
    exact iff_of_true rfl (Or.inl hfail)
  · rw [if_neg hfail]
    exact (or_iff_right hfail).symm

theorem effect_failing_average (hread : fails (3 * passes m fails + 1) ≠ true)
    (hne : m eepromHourHeadPtr ≠ 255) {ws : List (Nat × UInt8)}
    (hws : ws = averageWrites (readDateHead m fails)
      (UInt16.ofNat (sumRead m fails / hourLen m))) :
    effect (dailyAverage.failing 0xff fails) m = (.ok ((), Prog.putAll m ws), ws) := by
  have heffect := (effect_failing_dailyAverage m fails).trans (effect_failing_storeAverage ..)
  have hlen : ∀ j, readByte m (fun j => fails (3 * passes m fails + (j + 1))) j =
    readByte m fails (3 * passes m fails + (j + 1)) := fun _ => rfl
  have hzero : ¬ (fails (3 * passes m fails + 1) = true ∨ m eepromHourHeadPtr = 255) :=
    not_or.2 ⟨hread, hne⟩
  have hlength : (readByte m fails (3 * passes m fails + 1) eepromHourHeadPtr + 1).toNat =
      hourLen m := by
    rw [readByte, if_neg hread]
    rfl
  rw [hlen, hlen, if_neg fun h => hzero (readByte_add_one_eq_zero.1 h), hlength] at heffect
  rw [heffect, hws]
  rfl

theorem addr_of_mem_averageWrites {ptr : UInt8} {avg : UInt16} {w : Nat × UInt8}
    (hw : w ∈ averageWrites ptr avg) :
    eepromDateDataPtr ≤ w.1 ∧ w.1 < eepromDateDataPtr + (ptr.toNat + 1) * 5 := by
  rcases List.mem_pair.1 hw with rfl | rfl <;> constructor <;> simp only <;> omega

/-- An average changes the histories as it should if it is right, or stored already. -/
theorem changes_average_iff (hhour : hourLen m ≤ 24) (hle : (m eepromDateHeadPtr).toNat ≤ 30)
    (avg : UInt16) :
    LogUpdate.average.Changes m (Prog.putAll m (averageWrites (m eepromDateHeadPtr) avg)) ↔
      avg = averageOf (hourLog m) ∨ avg = (dateRecord m (m eepromDateHeadPtr).toNat).2 := by
  have haddr := eeprom_addresses
  obtain ⟨older, hlog, hlog'⟩ := dateLog_averageWrites rfl hle avg
  have hhours : hourLog (Prog.putAll m (averageWrites (m eepromDateHeadPtr) avg)) =
      hourLog m := by
    refine hourLog_of_eq hhour fun x hx => Prog.putAll_of_notMem fun w hw => ?_
    have := (addr_of_mem_averageWrites hw).1
    omega
  unfold LogUpdate.Changes
  simp only [hourHistory_eq, dateHistory_eq]
  rw [and_iff_right hhours, hlog', hlog, List.modifyLast_concat, or_comm]
  refine or_congr ⟨fun heq => ?_, fun heq => by rw [heq]⟩ ⟨fun heq => ?_, fun heq => by rw [heq]⟩
  · exact congrArg Prod.snd (List.cons.inj (List.append_cancel_left heq)).1
  · exact congrArg Prod.snd (List.cons.inj (List.append_cancel_left heq)).1

theorem readsHarmless_average (hhour : hourLen m ≤ 24)
    (hdate : m eepromDateHeadPtr = 255 ∨ (m eepromDateHeadPtr).toNat ≤ 30) (fails : Nat → Bool) :
    ReadsHarmless m fails .average ↔ AverageFailuresFit m fails := by
  have haddr := eeprom_addresses
  unfold AverageFailuresFit
  by_cases hzero : fails (3 * passes m fails + 1) = true ∨ m eepromHourHeadPtr = 255
  · refine iff_of_false ?_ ?_
    · rintro ⟨m', heval, -⟩
      rw [LogUpdate.prog, eval_failing_average_of_zero hzero] at heval
      cases heval
    · rintro ⟨hne, hread, -⟩
      rcases hzero with hfail | h255
      · rw [hread] at hfail
        cases hfail
      · exact hne h255
  obtain ⟨hread, hne⟩ := not_or.1 hzero
  obtain ⟨avg, havg⟩ : ∃ avg, avg = UInt16.ofNat (sumRead m fails / hourLen m) := ⟨_, rfl⟩
  have heffect := effect_failing_average hread hne rfl
  rw [← havg] at heffect ⊢
  have heval : (LogUpdate.average.prog.failing 0xff fails).eval m =
      .ok ((), Prog.putAll m (averageWrites (readDateHead m fails) avg)) :=
    congrArg Prod.fst heffect
  have hwrites : (LogUpdate.average.prog.failing 0xff fails).writes m =
      averageWrites (readDateHead m fails) avg := congrArg Prod.snd heffect
  by_cases h255 : readDateHead m fails = 255
  · -- the average goes behind the logs
    refine iff_of_false ?_ ?_
    · rintro ⟨-, -, hrange, -⟩
      rw [hwrites, h255] at hrange
      have hlt := hrange _ (List.mem_cons_self ..)
      exact absurd hlt (show ¬ 77 + 255 * 5 + 3 < 77 + 31 * 5 by decide)
    · rintro ⟨-, -, hhead, hok, -⟩
      rcases readDateHead_eq_255.1 h255 with hfail | hblank
      · rw [hok] at hfail
        cases hfail
      · exact hhead hblank
  obtain ⟨hok, hhead⟩ := not_or.1 fun h => h255 (readDateHead_eq_255.2 h)
  have hptr : readDateHead m fails = m eepromDateHeadPtr := if_neg hok
  have hle := hdate.resolve_left hhead
  rw [hptr] at heval hwrites
  have hrange : ∀ w ∈ (LogUpdate.average.prog.failing 0xff fails).writes m,
      w.1 < eepromDateDataPtr + eepromDateRecordNum * 5 := by
    intro w hw
    rw [hwrites] at hw
    have := (addr_of_mem_averageWrites hw).2
    omega
  rw [readsHarmless_iff_changes .average heval hrange, changes_average_iff hhour hle]
  constructor
  · exact fun h => ⟨hne, Bool.eq_false_of_not_eq_true hread, hhead,
      Bool.eq_false_of_not_eq_true hok, h⟩
  · rintro ⟨-, -, -, -, h⟩
    exact h

/-! ## All updates -/

/-- The reads that fail in an update do not matter. -/
def FailuresFit (m : Eeprom) (fails : Nat → Bool) : LogUpdate → Prop
  | .hour hr current => HourFailuresFit m fails hr current
  | .date yy mm dd avg => DateFailuresFit m fails yy mm dd avg
  | .average => AverageFailuresFit m fails

/-- **The logs come to no harm exactly if the reads that fail do not matter**, in every EEPROM
whose heads are 255 or of a slot. -/
theorem readsHarmless_iff (hhour : m eepromHourHeadPtr = 255 ∨ (m eepromHourHeadPtr).toNat ≤ 23)
    (hdate : m eepromDateHeadPtr = 255 ∨ (m eepromDateHeadPtr).toNat ≤ 30) (fails : Nat → Bool)
    (update : LogUpdate) : ReadsHarmless m fails update ↔ FailuresFit m fails update := by
  have hlen := hourLen_le_of_head hhour
  cases update with
  | hour hr current => exact readsHarmless_hour hhour fails hr current
  | date yy mm dd avg => exact readsHarmless_date hlen hdate fails yy mm dd avg
  | average => exact readsHarmless_average hlen hdate fails

/-- The EEPROM with a record of January 1 and of its last hour. -/
def lastHour : Eeprom :=
  Prog.putAll (Prog.putAll (Prog.putAll (fun _ => 0) (formatWrites false))
    (dateWrites 255 121 0 1 0)) (hourWrites (fun _ => 0) 255 23 100)

/-- Every read but that of the head fails. -/
theorem readsHarmless_counter : ReadsHarmless lastHour (fun i => i != 0) (.hour 0 70) := by
  refine (readsHarmless_iff (Or.inr (by decide)) (Or.inr (by decide)) _ _).2 ?_
  intro h23
  exact absurd h23 (by decide)

/-- The read of the length by which the sum is divided fails. -/
theorem not_readsHarmless_length : ¬ ReadsHarmless lastHour (fun i => i == 4) .average := by
  rintro ⟨m', heval, -⟩
  have hfault : okAnd ((LogUpdate.average.prog.failing 0xff fun i => i == 4).eval lastHour)
      (fun _ => true) = false := by
    decide +kernel
  rw [heval] at hfault
  cases hfault

end Warehouse

end NinaHomekit
