import NinaHomekit.CoreBridge.Warehouse

/-!
# The two logs

What the functions of `Warehouse` read from the EEPROM and write to it, without their loops.

* `hourHistory`, `dateHistory` — the entries of the histories that are published.
* `hourLog`, `dateLog` — the same, as a function of the bytes (`hourHistory_eq`,
  `dateHistory_eq`).
* `hourWrites`, `dateWrites`, `formatWrites` — the writes of an append and of a format, byte by
  byte (`eval_appendHourlyRecord`, …).
-/

namespace NinaHomekit

open Store

namespace Warehouse

variable {m m' : Eeprom}

/-! ## What is published -/

/-- The entries of a history a function returns. -/
def entriesOf {τ : Type} (p : EepromProg (CurrentHistory τ)) (m : Eeprom) : List (τ × UInt16) :=
  match p.eval m with
  | .ok (h, _) => h.entries
  | .error _ => []

/-- The hours and currents that `parseHourDatainJson` returns. -/
def hourHistory (m : Eeprom) : List (UInt8 × UInt16) := entriesOf parseHourDatainJson m

/-- The dates and currents that `parseDateDatainJson` returns. -/
def dateHistory (m : Eeprom) : List (CStr × UInt16) := entriesOf parseDateDatainJson m

/-! ## The hour log -/

/-- The number of records in the hour log. -/
def hourLen (m : Eeprom) : Nat := (m eepromHourHeadPtr + 1).toNat

/-- The record in the slot `i` of the hour log. -/
def hourRecord (m : Eeprom) (i : Nat) : UInt8 × UInt16 :=
  (m (eepromHourDataPtr + i * 3), int16 (m (eepromHourDataPtr + i * 3 + 1))
    (m (eepromHourDataPtr + i * 3 + 2)))

/-- The hour log. -/
def hourLog (m : Eeprom) : List (UInt8 × UInt16) := (List.range (hourLen m)).map (hourRecord m)

theorem length_hourLog (m : Eeprom) : (hourLog m).length = hourLen m := by
  simp [hourLog]

theorem eval_getHourDataLength (m : Eeprom) :
    getHourDataLength.eval m = .ok (hourLen m, m) := rfl

/-- A loop over the hour log that writes nothing. -/
theorem eval_forHourData {β : Type} {body : β → Nat → EepromProg β} {g : β → Nat → β}
    (hbody : ∀ b i, (body b i).eval m = .ok (g b i, m)) (b : β) :
    (forHourData body b).eval m = .ok ((List.range (hourLen m)).foldl g b, m) := by
  have hlt := (m eepromHourHeadPtr + 1).toNat_lt
  rw [List.range_eq_range']
  exact Prog.eval_forWhile (eval_getHourDataLength m) (fun b i _ => hbody b i) 256 0
    (by show (m eepromHourHeadPtr + 1).toNat ≤ 0 + 256; omega) b

theorem eval_parseHourDatainJson (m : Eeprom) :
    parseHourDatainJson.eval m =
      .ok (⟨"Hour", (hourLog m).map Prod.fst, (hourLog m).map Prod.snd⟩, m) := by
  have hloop : parseHourDatainJson.eval m = .ok ((List.range (hourLen m)).foldl (fun root i =>
      { root with
        time := root.time ++ [(hourRecord m i).1], data := root.data ++ [(hourRecord m i).2] })
      ⟨"Hour", [], []⟩, m) := by
    unfold parseHourDatainJson
    exact eval_forHourData (fun _ _ => rfl) _
  have hfold : ∀ (l : List Nat) (root : CurrentHistory UInt8),
      l.foldl (fun root i => { root with
        time := root.time ++ [(hourRecord m i).1], data := root.data ++ [(hourRecord m i).2] }) root =
      { root with
        time := root.time ++ l.map fun i => (hourRecord m i).1
        data := root.data ++ l.map fun i => (hourRecord m i).2 } := by
    intro l
    induction l with
    | nil => intro root; simp
    | cons i l ih => intro root; simp [ih]
  rw [hloop, hfold]
  simp only [hourLog, List.map_map, List.nil_append]
  rfl

theorem hourHistory_eq (m : Eeprom) : hourHistory m = hourLog m := by
  unfold hourHistory entriesOf
  rw [eval_parseHourDatainJson]
  exact (List.zip_of_prod rfl rfl).symm

/-! ## The date log -/

/-- The year byte of the last slot, by which a ring that has been filled is told. -/
def lastYear (m : Eeprom) : UInt8 := m (eepromDateDataPtr + (eepromDateRecordNum - 1) * 5)

/-- `getDateDataLength`, as a function of the bytes. -/
def dateLen (m : Eeprom) : Nat :=
  if (m eepromDateHeadPtr + 1).toNat < eepromDateRecordNum ∧ lastYear m > 0 then
    eepromDateRecordNum
  else (m eepromDateHeadPtr + 1).toNat

/-- The record in the slot `i` of the date log. -/
def dateRecord (m : Eeprom) (i : Nat) : CStr × UInt16 :=
  (dateStr (m (eepromDateDataPtr + i * 5)) (m (eepromDateDataPtr + i * 5 + 1))
      (m (eepromDateDataPtr + i * 5 + 2)),
    int16 (m (eepromDateDataPtr + i * 5 + 3)) (m (eepromDateDataPtr + i * 5 + 4)))

/-- The slots the date log is read from, in order. -/
def dateSlots (m : Eeprom) : List Nat :=
  (if dateLen m = eepromDateRecordNum ∧ (m eepromDateHeadPtr).toNat < eepromDateRecordNum then
    List.range' ((m eepromDateHeadPtr).toNat + 1)
      (eepromDateRecordNum - ((m eepromDateHeadPtr).toNat + 1)) else []) ++
  if dateLen m > 0 then List.range' 0 ((m eepromDateHeadPtr).toNat + 1) else []

/-- The date log. -/
def dateLog (m : Eeprom) : List (CStr × UInt16) := (dateSlots m).map (dateRecord m)

theorem length_dateLog (m : Eeprom) : (dateLog m).length = (dateSlots m).length :=
  List.length_map _

theorem eval_getDateDataLength (m : Eeprom) :
    getDateDataLength.eval m = .ok (dateLen m, m) := by
  unfold dateLen
  by_cases hlt : (m eepromDateHeadPtr + 1).toNat < eepromDateRecordNum
  · have heval : getDateDataLength.eval m = .ok
        (if lastYear m > 0 then eepromDateRecordNum else (m eepromDateHeadPtr + 1).toNat, m) := by
      show Prog.eval (if (m eepromDateHeadPtr + 1).toNat < eepromDateRecordNum then _ else _) m = _
      rw [if_pos hlt]
      rfl
    rw [heval]
    simp only [hlt, true_and]
  · have heval : getDateDataLength.eval m = .ok ((m eepromDateHeadPtr + 1).toNat, m) := by
      show Prog.eval (if (m eepromDateHeadPtr + 1).toNat < eepromDateRecordNum then _ else _) m = _
      rw [if_neg hlt]
      rfl
    rw [heval, if_neg fun h => hlt h.1]

theorem eval_foldlM_parseDateRecord (m : Eeprom) (l : List Nat) (root : CurrentHistory CStr) :
    (l.foldlM parseDateRecord root).eval m = .ok ({ root with
      time := root.time ++ l.map fun i => (dateRecord m i).1
      data := root.data ++ l.map fun i => (dateRecord m i).2 }, m) := by
  induction l generalizing root with
  | nil => simp
  | cons i l ih =>
    have hpass : (parseDateRecord root i).eval m = .ok ({ root with
        time := root.time ++ [(dateRecord m i).1], data := root.data ++ [(dateRecord m i).2] }, m) :=
      rfl
    rw [List.foldlM_cons, Prog.eval_bind_of_ok hpass, ih]
    simp

theorem eval_parseDateDatainJson (m : Eeprom) :
    parseDateDatainJson.eval m =
      .ok (⟨"Date", (dateLog m).map Prod.fst, (dateLog m).map Prod.snd⟩, m) := by
  have hptr : (UInt8.toNat <$> getRecordedDatePtr).eval m = .ok ((m eepromDateHeadPtr).toNat, m) :=
    rfl
  unfold parseDateDatainJson parseDates
  rw [Prog.eval_bind_of_ok (eval_getDateDataLength m), Prog.eval_bind_of_ok hptr,
    Prog.eval_bind_of_ok (eval_foldlM_parseDateRecord m _ _),
    Prog.eval_bind_of_ok (eval_getDateDataLength m), eval_foldlM_parseDateRecord]
  simp only [dateLog, dateSlots, List.map_append, List.map_map, List.nil_append, Function.comp_def]

theorem dateHistory_eq (m : Eeprom) : dateHistory m = dateLog m := by
  unfold dateHistory entriesOf
  rw [eval_parseDateDatainJson]
  exact (List.zip_of_prod rfl rfl).symm

/-! ## The writes -/

/-- The low and the high byte of a 16-bit number. -/
def loByte (value : UInt16) : UInt8 := UInt8.ofNat (value.toNat &&& 0xff)

def hiByte (value : UInt16) : UInt8 := UInt8.ofNat (value.toNat >>> 8)

theorem int16_bytes (value : UInt16) : int16 (loByte value) (hiByte value) = value := by
  have hlt := value.toNat_lt
  have hlo : (loByte value).toNat = value.toNat &&& 0xff := by
    have hle : value.toNat &&& 0xff ≤ 0xff := Nat.and_le_right
    simp only [loByte, UInt8.toNat_ofNat']
    omega
  have hhi : (hiByte value).toNat = value.toNat >>> 8 := by
    have hdiv : value.toNat >>> 8 = value.toNat / 256 := Nat.shiftRight_eq_div_pow _ _
    simp only [hiByte, UInt8.toNat_ofNat', hdiv]
    omega
  apply UInt16.toNat_inj.1
  rw [int16, hlo, hhi]
  have hor : value.toNat &&& 0xff ||| value.toNat >>> 8 <<< 8 = value.toNat := by
    apply Nat.eq_of_testBit_eq
    intro i
    rw [Nat.testBit_or, Nat.testBit_and, Nat.testBit_shiftLeft, Nat.testBit_shiftRight]
    have hmask : (0xff : Nat).testBit i = decide (i < 8) := Nat.testBit_two_pow_sub_one 8 i
    rw [hmask]
    by_cases hi : i < 8
    · simp [hi]
    · have hle : 8 ≤ i := by omega
      simp [hi, hle, Nat.add_sub_cancel' hle]
  rw [hor, UInt16.toNat_ofNat', Nat.mod_eq_of_lt hlt]

/-- The writes of `increaseCycleRecord`. -/
def cycleWrites (m : Eeprom) : List (Nat × UInt8) :=
  let c := ((m eepromCycleRecord).toNat <<< 16 ||| (m (eepromCycleRecord + 1)).toNat <<< 8 |||
    (m (eepromCycleRecord + 2)).toNat) + 1
  [(eepromCycleRecord, UInt8.ofNat (c >>> 16 &&& 0xff)),
    (eepromCycleRecord + 1, UInt8.ofNat (c >>> 8 &&& 0xff)),
    (eepromCycleRecord + 2, UInt8.ofNat (c &&& 0xff))]

/-- The writes of a record to the slot `d` of the hour log. -/
def hourSlotWrites (d : Nat) (hr : UInt8) (current : UInt16) : List (Nat × UInt8) :=
  [(eepromHourDataPtr + d * 3, hr), (eepromHourDataPtr + d * 3 + 1, loByte current),
    (eepromHourDataPtr + d * 3 + 2, hiByte current)]

/-- The writes of `appendHourlyRecord`, when it reads `ptr` as the head. -/
def hourWrites (m : Eeprom) (ptr : UInt8) (hr : UInt8) (current : UInt16) : List (Nat × UInt8) :=
  hourSlotWrites (ptr + 1).toNat hr current ++ (eepromHourHeadPtr, ptr + 1) :: cycleWrites m

/-- The writes of a record to the slot `d` of the date log. -/
def dateSlotWrites (d : Nat) (yy mm dd : UInt8) (avg : UInt16) : List (Nat × UInt8) :=
  [(eepromDateDataPtr + d * 5, yy), (eepromDateDataPtr + d * 5 + 1, mm),
    (eepromDateDataPtr + d * 5 + 2, dd), (eepromDateDataPtr + d * 5 + 3, loByte avg),
    (eepromDateDataPtr + d * 5 + 4, hiByte avg)]

/-- The writes of `appendDateRecord`, when it reads `ptr` as the head. -/
def dateWrites (ptr yy mm dd : UInt8) (avg : UInt16) : List (Nat × UInt8) :=
  dateSlotWrites (designatedDatePtr ptr).toNat yy mm dd avg ++
    [(eepromDateHeadPtr, designatedDatePtr ptr)]

/-- The writes of `formatZero`. -/
def formatWrites (deep : Bool) : List (Nat × UInt8) :=
  (if deep then [(eepromCycleRecord, 0), (eepromCycleRecord + 1, 0), (eepromCycleRecord + 2, 0)]
    else []) ++
  [(eepromHourHeadPtr, 255), (eepromDateHeadPtr, 255)] ++
    dateSlotWrites (eepromDateRecordNum - 1) 0 0 0 0

theorem writes_appendHourlyRecord (m : Eeprom) (hr : UInt8) (current : UInt16) :
    (appendHourlyRecord hr current).writes m = hourWrites m (m eepromHourHeadPtr) hr current := by
  set d := (m eepromHourHeadPtr + 1).toNat with hd
  set m' := Prog.putAll m (hourSlotWrites d hr current ++
    [(eepromHourHeadPtr, m eepromHourHeadPtr + 1)]) with hm'
  have hkeep : ∀ x < 3, m' x = m x := by
    intro x hx
    apply Prog.putAll_of_notMem
    intro w hw
    simp only [hourSlotWrites, List.cons_append, List.nil_append, List.mem_cons, List.not_mem_nil,
      or_false, eepromHourDataPtr, eepromHourHeadPtr] at hw
    rcases hw with rfl | rfl | rfl | rfl <;> simp only <;> omega
  have hcycle : cycleWrites m' = cycleWrites m := by
    unfold cycleWrites
    rw [hkeep eepromCycleRecord (by decide), hkeep (eepromCycleRecord + 1) (by decide),
      hkeep (eepromCycleRecord + 2) (by decide)]
  unfold hourWrites
  rw [← hcycle]
  rfl

theorem eval_appendHourlyRecord (m : Eeprom) (hr : UInt8) (current : UInt16) :
    (appendHourlyRecord hr current).eval m =
      .ok ((), Prog.putAll m (hourWrites m (m eepromHourHeadPtr) hr current)) := by
  obtain ⟨m', hm'⟩ : ∃ m', (appendHourlyRecord hr current).eval m = .ok ((), m') := ⟨_, rfl⟩
  rw [hm', Prog.eval_eq_ok hm', writes_appendHourlyRecord]

theorem writes_appendDateRecord (m : Eeprom) (yy mm dd : UInt8) (avg : UInt16) :
    (appendDateRecord yy mm dd avg).writes m = dateWrites (m eepromDateHeadPtr) yy mm dd avg := rfl

theorem eval_appendDateRecord (m : Eeprom) (yy mm dd : UInt8) (avg : UInt16) :
    (appendDateRecord yy mm dd avg).eval m =
      .ok ((), Prog.putAll m (dateWrites (m eepromDateHeadPtr) yy mm dd avg)) := rfl

theorem writes_formatZero (m : Eeprom) (deep : Bool) :
    (formatZero deep).writes m = formatWrites deep := by
  cases deep <;> rfl

theorem eval_formatZero (m : Eeprom) (deep : Bool) :
    (formatZero deep).eval m = .ok ((), Prog.putAll m (formatWrites deep)) := by
  cases deep <;> rfl

/-- A format leaves no hourly record. -/
@[simp] theorem hourLen_format (m : Eeprom) (deep : Bool) :
    hourLen (Prog.putAll m (formatWrites deep)) = 0 := by
  cases deep <;> exact (show ((255 : UInt8) + 1).toNat = 0 by decide)

theorem addr_of_mem_hourSlotWrites {d : Nat} {hr : UInt8} {current : UInt16} {w : Nat × UInt8}
    (h : w ∈ hourSlotWrites d hr current) :
    eepromHourDataPtr + d * 3 ≤ w.1 ∧ w.1 < eepromHourDataPtr + d * 3 + 3 := by
  simp only [hourSlotWrites, List.mem_cons, List.not_mem_nil, or_false] at h
  rcases h with rfl | rfl | rfl <;> constructor <;> simp only <;> omega

theorem addr_of_mem_dateSlotWrites {d : Nat} {yy mm dd : UInt8} {avg : UInt16} {w : Nat × UInt8}
    (h : w ∈ dateSlotWrites d yy mm dd avg) :
    eepromDateDataPtr + d * 5 ≤ w.1 ∧ w.1 < eepromDateDataPtr + d * 5 + 5 := by
  simp only [dateSlotWrites, List.mem_cons, List.not_mem_nil, or_false] at h
  rcases h with rfl | rfl | rfl | rfl | rfl <;> constructor <;> simp only <;> omega

/-- Writes to the slot `d` of the hour log leave the bytes around it alone. -/
theorem putAll_hourSlot_of_out {d : Nat} {hr : UInt8} {current : UInt16} {ws : List (Nat × UInt8)}
    (hws : ∀ w ∈ ws, w ∈ hourSlotWrites d hr current) {x : Nat}
    (hx : x < eepromHourDataPtr + d * 3 ∨ eepromHourDataPtr + d * 3 + 3 ≤ x) :
    Prog.putAll m ws x = m x := by
  apply Prog.putAll_of_notMem
  intro w hw
  have haddr := addr_of_mem_hourSlotWrites (hws w hw)
  omega

/-- Writes to the slot `d` of the date log leave the bytes around it alone. -/
theorem putAll_dateSlot_of_out {d : Nat} {yy mm dd : UInt8} {avg : UInt16}
    {ws : List (Nat × UInt8)} (hws : ∀ w ∈ ws, w ∈ dateSlotWrites d yy mm dd avg) {x : Nat}
    (hx : x < eepromDateDataPtr + d * 5 ∨ eepromDateDataPtr + d * 5 + 5 ≤ x) :
    Prog.putAll m ws x = m x := by
  apply Prog.putAll_of_notMem
  intro w hw
  have haddr := addr_of_mem_dateSlotWrites (hws w hw)
  omega

theorem addr_of_mem_cycleWrites {w : Nat × UInt8} (h : w ∈ cycleWrites m) : w.1 < 3 := by
  simp only [cycleWrites, List.mem_cons, List.not_mem_nil, or_false] at h
  rcases h with rfl | rfl | rfl <;> simp only [eepromCycleRecord] <;> omega

theorem hourRecord_putAll (m : Eeprom) (d : Nat) (hr : UInt8) (current : UInt16) :
    hourRecord (Prog.putAll m (hourSlotWrites d hr current)) d = (hr, current) := by
  simp [hourRecord, hourSlotWrites, Function.update, int16_bytes]

theorem dateRecord_putAll (m : Eeprom) (d : Nat) (yy mm dd : UInt8) (avg : UInt16) :
    dateRecord (Prog.putAll m (dateSlotWrites d yy mm dd avg)) d = (dateStr yy mm dd, avg) := by
  simp [dateRecord, dateSlotWrites, Function.update, int16_bytes]

/-! ## The hour log after writes -/

theorem hourRecord_congr {i : Nat} (h : ∀ x, eepromHourDataPtr + i * 3 ≤ x →
    x < eepromHourDataPtr + i * 3 + 3 → m' x = m x) : hourRecord m' i = hourRecord m i := by
  unfold hourRecord
  rw [h _ le_rfl (by omega), h _ (by omega) (by omega), h _ (by omega) (by omega)]

/-- The slots of the records, and no others, are read. -/
theorem hourRecords_congr {n : Nat} (h : ∀ x, eepromHourDataPtr ≤ x →
    x < eepromHourDataPtr + n * 3 → m' x = m x) :
    (List.range n).map (hourRecord m') = (List.range n).map (hourRecord m) := by
  refine List.map_congr_left fun i hi => hourRecord_congr fun x h1 h2 => h x (by omega) ?_
  have hlt := List.mem_range.1 hi
  omega

theorem hourLog_congr (hptr : m' eepromHourHeadPtr = m eepromHourHeadPtr)
    (h : ∀ x, eepromHourDataPtr ≤ x → x < eepromHourDataPtr + hourLen m * 3 → m' x = m x) :
    hourLog m' = hourLog m := by
  have hlen : hourLen m' = hourLen m := by
    unfold hourLen
    rw [hptr]
  unfold hourLog
  rw [hlen, hourRecords_congr h]

/-- The head moves on: there is one more record. -/
theorem hourLog_snoc (hptr : m' eepromHourHeadPtr = m eepromHourHeadPtr + 1)
    (hne : m eepromHourHeadPtr ≠ 254)
    (h : ∀ x, eepromHourDataPtr ≤ x → x < eepromHourDataPtr + hourLen m * 3 → m' x = m x) :
    hourLog m' = hourLog m ++ [hourRecord m' (hourLen m)] := by
  have hlen : hourLen m' = hourLen m + 1 := by
    unfold hourLen
    rw [hptr]
    have hne' : (m eepromHourHeadPtr).toNat ≠ 254 := fun h => hne (UInt8.toNat_inj.1 h)
    have hlt := (m eepromHourHeadPtr).toNat_lt
    simp only [UInt8.toNat_add, UInt8.toNat_one]
    omega
  unfold hourLog
  rw [hlen, List.range_succ, List.map_append, hourRecords_congr h]
  rfl

theorem hourLog_of_empty (h : m eepromHourHeadPtr = 255) : hourLog m = [] := by
  unfold hourLog hourLen
  rw [h]
  rfl

/-! ## The date log after writes -/

theorem dateRecord_congr {i : Nat} (h : ∀ x, eepromDateDataPtr + i * 5 ≤ x →
    x < eepromDateDataPtr + i * 5 + 5 → m' x = m x) : dateRecord m' i = dateRecord m i := by
  unfold dateRecord
  rw [h _ le_rfl (by omega), h _ (by omega) (by omega), h _ (by omega) (by omega),
    h _ (by omega) (by omega), h _ (by omega) (by omega)]

theorem dateSlots_congr (hptr : m' eepromDateHeadPtr = m eepromDateHeadPtr)
    (hyear : lastYear m' = lastYear m) : dateSlots m' = dateSlots m := by
  unfold dateSlots dateLen
  rw [hptr, hyear]

theorem dateLog_congr (hptr : m' eepromDateHeadPtr = m eepromDateHeadPtr)
    (hyear : lastYear m' = lastYear m) (h : ∀ i ∈ dateSlots m, dateRecord m' i = dateRecord m i) :
    dateLog m' = dateLog m := by
  unfold dateLog
  rw [dateSlots_congr hptr hyear]
  exact List.map_congr_left h

/-- What is in front of the date log, but for its head, does not matter to it. -/
theorem dateLog_of_eq (h : ∀ x, x = eepromDateHeadPtr ∨ eepromDateDataPtr ≤ x → m' x = m x) :
    dateLog m' = dateLog m := by
  apply dateLog_congr (h _ (Or.inl rfl)) (h _ (Or.inr (by decide)))
  intro i _
  apply dateRecord_congr
  intro x hx _
  exact h x (Or.inr (by omega))

/-- An hour log of at most 24 records does not reach into the date log. -/
theorem hourLog_of_eq (hlen : hourLen m ≤ 24)
    (h : ∀ x, x = eepromHourHeadPtr ∨ (eepromHourDataPtr ≤ x ∧ x < eepromDateDataPtr) →
      m' x = m x) : hourLog m' = hourLog m := by
  apply hourLog_congr (h _ (Or.inl rfl))
  intro x h1 h2
  have haddr := eeprom_addresses
  exact h x (Or.inr ⟨h1, by omega⟩)

/-- Nothing was appended since the format. -/
theorem dateSlots_of_empty (hptr : m eepromDateHeadPtr = 255) (hyear : lastYear m = 0) :
    dateSlots m = [] := by
  simp [dateSlots, dateLen, hptr, hyear, eepromDateRecordNum]

/-- The ring is in its first lap. -/
theorem dateSlots_of_filling {p : Nat} (hptr : (m eepromDateHeadPtr).toNat = p) (hp : p < 30)
    (hyear : lastYear m = 0) : dateSlots m = List.range (p + 1) := by
  have hlen : (m eepromDateHeadPtr + 1).toNat = p + 1 := by
    simp only [UInt8.toNat_add, UInt8.toNat_one, hptr]
    omega
  have hne : p + 1 ≠ 31 := by omega
  simp [dateSlots, dateLen, hlen, hptr, hyear, eepromDateRecordNum, hne, List.range_eq_range']

/-- The ring was filled: the records behind the head are older than those up to it. -/
theorem dateSlots_of_full {p : Nat} (hptr : (m eepromDateHeadPtr).toNat = p) (hp : p ≤ 30)
    (hfull : p = 30 ∨ lastYear m ≠ 0) :
    dateSlots m = List.range' (p + 1) (30 - p) ++ List.range (p + 1) := by
  have hnext : (m eepromDateHeadPtr + 1).toNat = p + 1 := by
    simp only [UInt8.toNat_add, UInt8.toNat_one, hptr]
    omega
  have haddr := eeprom_addresses
  have hlen : dateLen m = eepromDateRecordNum := by
    unfold dateLen
    rw [hnext]
    by_cases h30 : p = 30
    · rw [if_neg fun h => by omega, h30]
      rfl
    · exact if_pos ⟨by omega, UInt8.pos_iff_ne_zero.2 (hfull.resolve_left h30)⟩
  unfold dateSlots
  rw [hlen, hptr, if_pos ⟨rfl, by omega⟩, if_pos (by omega), List.range_eq_range',
    show eepromDateRecordNum - (p + 1) = 30 - p by omega]

/-- Nothing is in the log, but the last slot looks as if the ring had been filled. -/
theorem dateSlots_of_blank (hptr : m eepromDateHeadPtr = 255) (hyear : lastYear m ≠ 0) :
    dateSlots m = List.range 256 := by
  have hpos : lastYear m > 0 := UInt8.pos_iff_ne_zero.2 hyear
  simp [dateSlots, dateLen, hptr, hpos, eepromDateRecordNum, List.range_eq_range']

/-! ## Adding to a ring -/

/-- A record is added; the oldest is dropped when the ring is full. -/
def ringAdd {α : Type} (l : List α) (a : α) : List α :=
  if l.length < eepromDateRecordNum then l ++ [a] else l.tail ++ [a]

/-- The head of the date log is one that a format and appends leave. -/
def DateValid (m : Eeprom) : Prop :=
  (m eepromDateHeadPtr = 255 ∧ lastYear m = 0) ∨ (m eepromDateHeadPtr).toNat < 30 ∨
    ((m eepromDateHeadPtr).toNat = 30 ∧ lastYear m ≠ 0)

theorem designatedDatePtr_of_lt {ptr : UInt8} (h : ptr.toNat < 30) :
    (designatedDatePtr ptr).toNat = ptr.toNat + 1 := by
  have hnext : (ptr + 1).toNat = ptr.toNat + 1 := by
    simp only [UInt8.toNat_add, UInt8.toNat_one]
    omega
  have hne : ¬ (ptr + 1).toNat = eepromDateRecordNum := by
    have haddr := eeprom_addresses
    omega
  rw [designatedDatePtr, if_neg hne, hnext]

theorem designatedDatePtr_of_last {ptr : UInt8} (h : ptr.toNat = 30) :
    designatedDatePtr ptr = 0 := by
  have hptr : ptr = 30 := UInt8.toNat_inj.1 h
  rw [hptr]
  rfl

/-- **An append adds its record to the ring**, if it leaves the other slots alone. -/
theorem dateLog_add (hvalid : DateValid m)
    (hptr : m' eepromDateHeadPtr = designatedDatePtr (m eepromDateHeadPtr))
    (hyear : (designatedDatePtr (m eepromDateHeadPtr)).toNat ≠ 30 → lastYear m' = lastYear m)
    (hrec : ∀ i ≤ 30, i ≠ (designatedDatePtr (m eepromDateHeadPtr)).toNat →
      dateRecord m' i = dateRecord m i) :
    dateLog m' = ringAdd (dateLog m)
      (dateRecord m' (designatedDatePtr (m eepromDateHeadPtr)).toNat) := by
  have hnum : eepromDateRecordNum = 31 := rfl
  unfold dateLog ringAdd
  rcases hvalid with ⟨h255, hzero⟩ | hlt | ⟨h30, hne⟩
  · have hd : designatedDatePtr (m eepromDateHeadPtr) = 0 := by
      rw [h255]
      rfl
    rw [hd] at hptr hyear
    have hslots : dateSlots m' = [0] :=
      dateSlots_of_filling (p := 0) (by rw [hptr]; rfl) (by decide)
        ((hyear (by decide)).trans hzero)
    rw [dateSlots_of_empty h255 hzero, hslots, hd]
    rfl
  · have hd := designatedDatePtr_of_lt hlt
    have hptr' : (m' eepromDateHeadPtr).toNat = (m eepromDateHeadPtr).toNat + 1 := by
      rw [hptr, hd]
    set p := (m eepromDateHeadPtr).toNat with hp
    rw [hd] at hyear hrec ⊢
    have hold : (List.range (p + 1)).map (dateRecord m') = (List.range (p + 1)).map (dateRecord m) :=
      List.map_congr_left fun i hi => hrec i (by have := List.mem_range.1 hi; omega)
        (by have := List.mem_range.1 hi; omega)
    by_cases hzero : lastYear m = 0
    · have hslots : dateSlots m' = List.range (p + 1 + 1) := by
        by_cases hlast : p + 1 = 30
        · rw [dateSlots_of_full hptr' hlast.le (Or.inl hlast), hlast]
          rfl
        · exact dateSlots_of_filling hptr' (by omega) ((hyear hlast).trans hzero)
      rw [dateSlots_of_filling hp.symm hlt hzero, hslots, List.range_succ, List.map_append, hold,
        if_pos (by rw [List.length_map, List.length_range]; omega)]
      rfl
    · have hslots : dateSlots m' = List.range' (p + 1 + 1) (30 - (p + 1)) ++ List.range (p + 1 + 1) := by
        refine dateSlots_of_full hptr' (by omega) ?_
        by_cases hlast : p + 1 = 30
        · exact Or.inl hlast
        · exact Or.inr (by rwa [hyear hlast])
      have hrest : (List.range' (p + 1 + 1) (30 - (p + 1))).map (dateRecord m') =
          (List.range' (p + 1 + 1) (30 - (p + 1))).map (dateRecord m) := by
        refine List.map_congr_left fun i hi => ?_
        have hrange := List.mem_range'_1.1 hi
        exact hrec i (by omega) (by omega)
      have hsplit : List.range' (p + 1) (30 - p) =
          (p + 1) :: List.range' (p + 1 + 1) (30 - (p + 1)) := by
        rw [show 30 - p = (30 - (p + 1)) + 1 by omega, List.range'_succ]
      rw [dateSlots_of_full hp.symm (by omega) (Or.inr hzero), hslots, if_neg, hsplit]
      · rw [List.map_append, List.map_append, List.map_cons, List.cons_append, List.tail_cons,
          List.range_succ, List.map_append, hold, hrest, List.append_assoc]
        rfl
      · simp only [List.length_map, List.length_append, List.length_range', List.length_range]
        omega
  · have hd := designatedDatePtr_of_last h30
    rw [hd] at hptr hyear hrec ⊢
    have hslots : dateSlots m' = List.range' 1 30 ++ [0] :=
      dateSlots_of_full (p := 0) (by rw [hptr]; rfl) (by decide)
        (Or.inr (by rwa [hyear (by decide)]))
    have hold : (List.range' 1 30).map (dateRecord m') = (List.range' 1 30).map (dateRecord m) := by
      refine List.map_congr_left fun i hi => ?_
      have hrange := List.mem_range'_1.1 hi
      exact hrec i (by omega) (by show i ≠ 0; omega)
    have hslots' : dateSlots m = 0 :: List.range' 1 30 :=
      dateSlots_of_full h30 le_rfl (Or.inl rfl)
    rw [hslots', hslots, if_neg (by simp [hnum]), List.map_append, hold]
    rfl

end Warehouse

end NinaHomekit
