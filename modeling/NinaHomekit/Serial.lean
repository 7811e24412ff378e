import NinaHomekit.Race

/-!
# A clear and the record of an hour, one after the other

The histories after `clearWarehouseData` and a pass that finds the hour changed are those of the
two one after the other, as long as the two keep apart.

* `PassDoes`, `PassTests` — a pass tests the day, may record the date, and then records the hour.
* `mem_cells_clear`, `histories_of_clearedCells` — what a clear accesses is all that the logs have
  after it.
* `serialisable_of_clearFirst`, `serialisable_of_passLost`, `serialisable_of_dayLost`,
  `serialisable_of_testEarly` — the ways to keep apart.
* `serialisable_of_apart` — **no harm is done by two tasks that keep apart.**
* `not_serialisable_readHead` — a record that was cleared comes back.
-/

namespace NinaHomekit

open Store Trace Warehouse

/-! ## The parts of the pass -/

/-- A pass without its test of the day. -/
def hourOnly (now : Tm) (current : UInt16) : EepromProg Unit := do
  (if now.tmHour = 0 then updateRecordedHourPtr 255 else pure ())
  recordHour now current

theorem hourOnly_of_ne {now : Tm} (h : now.tmHour ≠ 0) (current : UInt16) :
    hourOnly now current = recordHour now current := by
  unfold hourOnly
  rw [if_neg h]
  rfl

theorem hourOnly_of_eq {now : Tm} (h : now.tmHour = 0) (current : UInt16) :
    hourOnly now current = Prog.write eepromHourHeadPtr 255 (recordHour now current) := by
  unfold hourOnly
  rw [if_pos h]
  rfl

theorem alike_hourOnly (now : Tm) (current : UInt16) :
    Prog.Alike logCells (hourOnly now current) (hourOnly now current) := by
  by_cases h0 : now.tmHour = 0
  · rw [hourOnly_of_eq h0]
    exact .write (alike_recordHour now current)
  · rw [hourOnly_of_ne h0]
    exact alike_recordHour now current

theorem eval_hourOnly {m : Eeprom} (hlen : hourLen m ≤ 24) (now : Tm) (current : UInt16) :
    (hourOnly now current).eval m = .ok ((), hourStored
      (if now.tmHour = 0 then Function.update m eepromHourHeadPtr 255 else m) now current) := by
  by_cases h0 : now.tmHour = 0
  · rw [hourOnly_of_eq h0, if_pos h0]
    exact eval_recordHour ((hourLen_reset m).trans_le (by decide)) now current
  · rw [hourOnly_of_ne h0, if_neg h0]
    exact eval_recordHour hlen now current

/-- A pass with its record of the date, and without its test of the day. -/
def dateAndHour (now : Tm) (current : UInt16) : EepromProg Unit := do
  (if now.tmHour = 0 then updateRecordedHourPtr 255 else pure ())
  appendToday now
  recordHour now current

theorem dateAndHour_of_ne {now : Tm} (h : now.tmHour ≠ 0) (current : UInt16) :
    dateAndHour now current = appendToday now >>= fun _ => recordHour now current := by
  unfold dateAndHour
  rw [if_neg h]
  rfl

theorem dateAndHour_of_eq {now : Tm} (h : now.tmHour = 0) (current : UInt16) :
    dateAndHour now current = Prog.write eepromHourHeadPtr 255
      (appendToday now >>= fun _ => recordHour now current) := by
  unfold dateAndHour
  rw [if_pos h]
  rfl

theorem alike_dateAndHour (now : Tm) (current : UInt16) :
    Prog.Alike logCells (dateAndHour now current) (dateAndHour now current) := by
  have hrest : Prog.Alike logCells (appendToday now >>= fun _ => recordHour now current)
      (appendToday now >>= fun _ => recordHour now current) :=
    (alike_of_within (within_appendToday now)).bind fun _ => alike_recordHour now current
  by_cases h0 : now.tmHour = 0
  · rw [dateAndHour_of_eq h0]
    exact .write hrest
  · rw [dateAndHour_of_ne h0]
    exact hrest

/-- On a day without a record, the test makes no difference. -/
theorem eval_dateAndHour {m : Eeprom} {now : Tm}
    (h : ¬ IsToday (if now.tmHour = 0 then Function.update m eepromHourHeadPtr 255 else m) now)
    (current : UInt16) : (dateAndHour now current).eval m = (hourChange now current).eval m := by
  rw [hourChange_eq, Prog.eval_bind_of_ok (eval_beforeRecord m now)]
  unfold dayOpened
  by_cases h0 : now.tmHour = 0
  · rw [if_pos h0] at h ⊢
    rw [if_neg h, dateAndHour_of_eq h0, Prog.eval_write,
      Prog.eval_bind_of_ok (show (appendToday now).eval _ = .ok ((), _) from
        eval_appendDateRecord _ _ _ _ _)]
    rfl
  · rw [if_neg h0] at h ⊢
    rw [if_neg h, dateAndHour_of_ne h0,
      Prog.eval_bind_of_ok (show (appendToday now).eval _ = .ok ((), _) from
        eval_appendDateRecord _ _ _ _ _)]
    rfl

theorem isHourRead_of_dateCell {a : Access Nat UInt8} (h : DateCell a.cell) :
    isHourRead (false, a) = false := by
  have haddr := eeprom_addresses
  cases a with
  | write x v => rfl
  | read x v =>
    refine beq_eq_false_iff_ne.2 fun heq => ?_
    rcases h with h | h
    · exact absurd (heq.symm.trans h) (by decide)
    · have hx : x = 3 := heq
      have hle : 77 ≤ x := h
      omega

/-- The accesses of a pass: of its test of the day `bs`, and then the record of the hour. -/
structure PassDoes (r : Race) (ts : List (Access Nat UInt8)) (rt : Except Fault Unit)
    (bs : List (Access Nat UInt8)) (ptr : UInt8) (cs : List (Access Nat UInt8)) : Prop where
  eq : ts = bs ++ .read eepromHourHeadPtr ptr :: cs
  noRead : ∀ a ∈ bs, isHourRead (false, a) = false
  hourOnly : (hourOnly r.now r.current).Does
    (bs.filter (fun a => !decide (DateCell a.cell)) ++ .read eepromHourHeadPtr ptr :: cs) rt
  record : (recordHour r.now r.current).Does (.read eepromHourHeadPtr ptr :: cs) rt

theorem exists_passDoes {r : Race} {ts : List (Access Nat UInt8)} {rt : Except Fault Unit}
    (h : r.change.Does ts rt) : ∃ bs ptr cs, PassDoes r ts rt bs ptr cs := by
  have hsplit : ∀ {ts}, (openDay r.now >>= fun _ => recordHour r.now r.current).Does ts rt →
      ∃ bs ptr cs, ts = bs ++ .read eepromHourHeadPtr ptr :: cs ∧ (∀ a ∈ bs, DateCell a.cell) ∧
        (recordHour r.now r.current).Does (.read eepromHourHeadPtr ptr :: cs) rt := by
    intro ts h
    obtain ⟨bs, cs, _, rfl, -, hbs, hcs⟩ := h.of_bind_within (within_openDay r.now)
    obtain ⟨ptr, cs, rfl, -⟩ := hcs.of_read
    exact ⟨bs, ptr, cs, rfl, hbs, hcs⟩
  have hfilter : ∀ {bs : List (Access Nat UInt8)}, (∀ a ∈ bs, DateCell a.cell) →
      bs.filter (fun a => !decide (DateCell a.cell)) = [] := by
    intro bs hbs
    exact List.filter_eq_nil_iff.2 fun a ha => by simp [hbs a ha]
  have hchange : r.change = _ := hourChange_eq r.now r.current
  rw [hchange] at h
  by_cases h0 : r.now.tmHour = 0
  · rw [beforeRecord_of_eq h0, Prog.write_bind] at h
    obtain ⟨_, rfl, hrest⟩ := h.of_write
    obtain ⟨bs, ptr, cs, rfl, hbs, hrec⟩ := hsplit hrest
    refine ⟨.write eepromHourHeadPtr 255 :: bs, ptr, cs, rfl, ?_, ?_, hrec⟩
    · exact List.forall_mem_cons.2 ⟨rfl, fun a ha => isHourRead_of_dateCell (hbs a ha)⟩
    · rw [hourOnly_of_eq h0, List.filter_cons_of_pos (by decide), hfilter hbs]
      exact .write hrec
  · rw [beforeRecord_of_ne h0] at h
    obtain ⟨bs, ptr, cs, rfl, hbs, hrec⟩ := hsplit h
    refine ⟨bs, ptr, cs, rfl, fun a ha => isHourRead_of_dateCell (hbs a ha), ?_, hrec⟩
    rw [hourOnly_of_ne h0, hfilter hbs]
    exact hrec

/-- What a pass does that records the date: the reset `rs` at hour 0, the test `.read _ ptr :: bs`,
and the records. -/
structure PassTests (r : Race) (ts : List (Access Nat UInt8)) (rt : Except Fault Unit)
    (rs : List (Access Nat UInt8)) (ptr : UInt8) (bs : List (Access Nat UInt8)) (ptr' : UInt8)
    (cs : List (Access Nat UInt8)) : Prop where
  eq : ts = rs ++ .read eepromDateHeadPtr ptr :: (bs ++ .read eepromDateHeadPtr ptr' :: cs)
  reset : ∀ a ∈ rs, a = .write eepromHourHeadPtr 255
  test : ∀ b ∈ bs, eepromDateDataPtr ≤ b.cell ∧ b.isWrite = false
  rest : (dateAndHour r.now r.current).Does (rs ++ .read eepromDateHeadPtr ptr' :: cs) rt

/-- The record of an hour writes to no head of the date log. -/
theorem puts_recordHour (now : Tm) (current : UInt16) :
    (recordHour now current).Puts fun x _ => x ≠ eepromDateHeadPtr := by
  have haddr := eeprom_addresses
  have hcycle : eepromCycleRecord = 0 := rfl
  have happ : (appendHourlyRecord (UInt8.ofNat now.tmHour) current).Puts
      fun x _ => x ≠ eepromDateHeadPtr := by
    intro ptr
    refine ⟨?_, ?_, ?_, ?_, fun _ _ _ => ⟨?_, ?_, ?_, trivial⟩⟩ <;> omega
  refine happ.bind fun _ => ?_
  unfold afterRecord
  by_cases h23 : now.tmHour = 23
  · rw [if_pos h23]
    refine (readsOnly_sumHourData.mono fun _ _ => False.elim).bind fun sum ptr => ?_
    show Prog.Puts _ (if (ptr + 1).toNat = 0 then _ else _)
    by_cases hzero : (ptr + 1).toNat = 0
    · rw [if_pos hzero]
      trivial
    · rw [if_neg hzero]
      intro ptr
      refine ⟨?_, ?_, trivial⟩ <;> omega
  · rw [if_neg h23]
    trivial

theorem exists_passTests {r : Race} {ts : List (Access Nat UInt8)} {rt : Except Fault Unit}
    (h : r.change.Does ts rt) (hdate : ∃ v, .write eepromDateHeadPtr v ∈ ts) :
    ∃ rs ptr bs ptr' cs, PassTests r ts rt rs ptr bs ptr' cs := by
  have hsplit : ∀ {ts}, (openDay r.now >>= fun _ => recordHour r.now r.current).Does ts rt →
      (∃ v, .write eepromDateHeadPtr v ∈ ts) → ∃ ptr bs ptr' cs,
        ts = .read eepromDateHeadPtr ptr :: (bs ++ .read eepromDateHeadPtr ptr' :: cs) ∧
        (∀ b ∈ bs, eepromDateDataPtr ≤ b.cell ∧ b.isWrite = false) ∧
        (appendToday r.now >>= fun _ => recordHour r.now r.current).Does
          (.read eepromDateHeadPtr ptr' :: cs) rt := by
    rintro ts h ⟨v, hv⟩
    unfold openDay at h
    rw [bind_assoc, isLastDateDataToday_eq, Prog.read_bind] at h
    obtain ⟨ptr, as, rfl, hrest⟩ := h.of_read
    obtain ⟨bs, cs, today, rfl, hbs, -, hcs⟩ :=
      hrest.of_bind_within (looks_slotIsToday r.now ptr).within
    have htest := hbs.looks (looks_slotIsToday r.now ptr)
    cases today with
    | true =>
      rcases List.mem_append.1 (List.mem_of_ne_of_mem (by simp) hv) with hv | hv
      · exact absurd (htest _ hv).2 (by simp [Access.isWrite])
      · have hrec : (recordHour r.now r.current).Does cs rt := hcs
        exact absurd rfl (hrec.puts (puts_recordHour r.now r.current) hv)
    | false =>
      have happ : (appendToday r.now >>= fun _ => recordHour r.now r.current).Does cs rt := hcs
      obtain ⟨ptr', cs, rfl, -⟩ := Prog.Does.of_read happ
      exact ⟨ptr, bs, ptr', cs, rfl, htest, happ⟩
  have hchange : r.change = _ := hourChange_eq r.now r.current
  rw [hchange] at h
  by_cases h0 : r.now.tmHour = 0
  · rw [beforeRecord_of_eq h0, Prog.write_bind] at h
    obtain ⟨ts, rfl, hrest⟩ := h.of_write
    obtain ⟨v, hv⟩ := hdate
    obtain ⟨ptr, bs, ptr', cs, rfl, htest, happ⟩ :=
      hsplit hrest ⟨v, List.mem_of_ne_of_mem (by simp [eepromDateHeadPtr, eepromHourHeadPtr]) hv⟩
    refine ⟨[.write eepromHourHeadPtr 255], ptr, bs, ptr', cs, rfl, by simp, htest, ?_⟩
    rw [dateAndHour_of_eq h0]
    exact .write happ
  · rw [beforeRecord_of_ne h0] at h
    obtain ⟨ptr, bs, ptr', cs, rfl, htest, happ⟩ := hsplit h hdate
    refine ⟨[], ptr, bs, ptr', cs, rfl, by simp, htest, ?_⟩
    rw [dateAndHour_of_ne h0]
    exact happ


namespace Race

variable {r : Race}

theorem map_snd_parts (r : Race) : r.parts.map Prod.snd = r.accesses.map Prod.snd := by
  unfold parts
  rw [List.map_append, List.map_map, List.map_map]
  show List.map Prod.snd _ ++ List.map Prod.snd _ = _
  rw [← List.map_append, List.takeWhile_append_dropWhile]

theorem part_clear_parts (r : Race) :
    part (· == .clear) (r.parts.filter fun a => a.1 != .day) = part id r.accesses := by
  rw [part_filter (· != RacePart.day), parts, part_append, part_map, part_map, ← List.map_append]
  have hpart : part id r.accesses = (r.accesses.filter fun a => a.1).map Prod.snd := rfl
  rw [hpart]
  conv_rhs => rw [← List.takeWhile_append_dropWhile (p := fun a => !isHourRead a) (l := r.accesses)]
  rw [List.filter_append]
  congr 2
  · refine List.filter_congr fun a _ => ?_
    rcases a with ⟨_ | _, a⟩
    · by_cases hdate : DateCell a.cell
      · simp [hdate]
      · simp [hdate]
    · rfl
  · refine List.filter_congr fun a _ => ?_
    rcases a with ⟨_ | _, a⟩ <;> rfl

theorem part_hour_parts {rt : Except Fault Unit} {bs cs : List (Access Nat UInt8)} {ptr : UInt8}
    (h : PassDoes r (part not r.accesses) rt bs ptr cs) :
    part (fun s => !(s == .clear)) (r.parts.filter fun a => a.1 != .day) =
      bs.filter (fun a => !decide (DateCell a.cell)) ++ .read eepromHourHeadPtr ptr :: cs := by
  obtain ⟨u, s, w, ht, hs, hu, hw⟩ := exists_of_part_eq h.eq
  obtain rfl : s = false := by simpa using hs
  have hnoRead : ∀ a ∈ u, (!isHourRead a) = true := by
    rintro ⟨_ | _, a⟩ ha
    · rw [h.noRead a (by rw [← hu]; exact mem_part.2 ⟨false, rfl, ha⟩)]
      rfl
    · rfl
  have hread : isHourRead (false, .read eepromHourHeadPtr ptr) = true := rfl
  have hfirst : (u.filter fun a => !a.1 && !decide (DateCell a.2.cell)).map Prod.snd =
      bs.filter fun a => !decide (DateCell a.cell) := by
    rw [← hu, part, List.filter_map, List.filter_filter]
    exact congrArg _ (List.filter_congr fun a _ => Bool.and_comm _ _)
  have hrest : (w.filter fun a => !a.1).map Prod.snd = cs := hw
  rw [part_filter (· != RacePart.day), parts, ht, List.takeWhile_append_of_pos hnoRead,
    List.dropWhile_append_of_pos hnoRead, List.takeWhile_cons_of_neg (by simp [hread]),
    List.dropWhile_cons_of_neg (by simp [hread]), List.append_nil, part_append, part_map, part_map,
    ← hfirst, ← hrest]
  congr 2
  · refine List.filter_congr fun a _ => ?_
    rcases a with ⟨_ | _, a⟩
    · by_cases hdate : DateCell a.cell
      · simp [hdate]
      · simp [hdate]
    · rfl
  · rw [List.filter_cons_of_pos (by rfl), List.map_cons]
    congr 2
    refine List.filter_congr fun a _ => ?_
    rcases a with ⟨_ | _, a⟩ <;> rfl

/-- The accesses without the test of the day: those of the clear, and of the pass with its record
of the date. -/
theorem parts_untested {rt : Except Fault Unit} {rs bs cs : List (Access Nat UInt8)}
    {ptr ptr' : UInt8} (h : PassTests r (part not r.accesses) rt rs ptr bs ptr' cs) :
    part id r.untested = part id r.accesses ∧
      part not r.untested = rs ++ .read eepromDateHeadPtr ptr' :: cs ∧
      r.accesses = r.tested ++ r.recorded ∧
      ∀ a ∈ r.tested, (a.1 || !decide (DateCell a.2.cell)) = false → a.2.isWrite = false := by
  obtain ⟨u, s, w, hacc, hs, hu, hw⟩ := exists_of_part_eq h.eq
  obtain rfl : s = false := by simpa using hs
  obtain ⟨v, s, z, rfl, hs', hv, hz⟩ := exists_of_part_eq hw
  obtain rfl : s = false := by simpa using hs'
  have hfirst : ∀ a ∈ u, (!isDateRead a) = true := by
    rintro ⟨_ | _, a⟩ ha
    · rw [h.reset a (by rw [← hu]; exact mem_part.2 ⟨false, rfl, ha⟩)]
      rfl
    · rfl
  have hsecond : ∀ a ∈ v, (!isDateRead a) = true := by
    rintro ⟨_ | _, a⟩ ha
    · have hcell := (h.test a (by rw [← hv]; exact mem_part.2 ⟨false, rfl, ha⟩)).1
      cases a with
      | write x v => rfl
      | read x v =>
        have hne : x ≠ eepromDateHeadPtr := by
          rintro rfl
          exact absurd hcell (show ¬ 77 ≤ 4 by decide)
        simp [isDateRead, hne]
    · rfl
  have hread : ∀ p, isDateRead (false, .read eepromDateHeadPtr p) = true := fun _ => rfl
  have hrest : r.accesses.dropWhile (fun a => !isDateRead a) =
      (false, .read eepromDateHeadPtr ptr) :: (v ++ (false, .read eepromDateHeadPtr ptr') :: z) := by
    rw [hacc, List.dropWhile_append_of_pos hfirst, List.dropWhile_cons_of_neg (by simp [hread])]
  have htested : r.tested = u ++ (false, .read eepromDateHeadPtr ptr) :: v := by
    unfold tested
    rw [hrest, hacc, List.takeWhile_append_of_pos hfirst,
      List.takeWhile_cons_of_neg (by simp [hread]), List.append_nil]
    simp only [List.take_succ_cons, List.take_zero, List.drop_succ_cons, List.drop_zero]
    rw [List.takeWhile_append_of_pos hsecond, List.takeWhile_cons_of_neg (by simp [hread])]
    simp
  have hrecorded : r.recorded = (false, .read eepromDateHeadPtr ptr') :: z := by
    unfold recorded
    rw [hrest]
    simp only [List.drop_succ_cons, List.drop_zero]
    rw [List.dropWhile_append_of_pos hsecond, List.dropWhile_cons_of_neg (by simp [hread])]
  have hsplit : r.accesses = r.tested ++ r.recorded := by
    rw [htested, hrecorded, hacc]
    simp
  have hnot : part not r.tested = rs ++ .read eepromDateHeadPtr ptr :: bs := by
    rw [htested, part_append, hu, part_cons_of_pos rfl, hv]
  refine ⟨?_, ?_, hsplit, ?_⟩
  · rw [hsplit, untested, part_append, part_append]
    congr 1
    rw [part, part, List.filter_filter]
    congr 1
    refine List.filter_congr fun a _ => ?_
    rcases a with ⟨_ | _, a⟩ <;> rfl
  · rw [untested, part_append, hrecorded, part_cons_of_pos rfl, hz]
    congr 1
    have hfilter : part not (r.tested.filter fun a => a.1 || !decide (DateCell a.2.cell)) =
        (part not r.tested).filter fun a => !decide (DateCell a.cell) := by
      rw [part, part, List.filter_filter, List.filter_map, List.filter_filter]
      congr 1
      refine List.filter_congr fun a _ => ?_
      rcases a with ⟨_ | _, a⟩ <;> simp
    have hkeep : ∀ a ∈ rs, (!decide (DateCell a.cell)) = true := by
      intro a ha
      rw [h.reset a ha]
      decide
    have hdrop : ∀ a ∈ Access.read eepromDateHeadPtr ptr :: bs,
        ¬ (!decide (DateCell a.cell)) = true := by
      intro a ha
      rcases List.mem_cons.1 ha with rfl | ha
      · simp [DateCell]
      · simp [DateCell, (h.test a ha).1]
    rw [hfilter, hnot, List.filter_append, List.filter_eq_self.2 hkeep,
      List.filter_eq_nil_iff.2 hdrop, List.append_nil]
  · rintro ⟨_ | _, a⟩ ha hk
    · have hmem : a ∈ part not r.tested := mem_part.2 ⟨false, rfl, ha⟩
      rw [hnot] at hmem
      rcases List.mem_append.1 hmem with hmem | hmem
      · rw [h.reset a hmem] at hk
        exact absurd hk (by decide)
      · rcases List.mem_cons.1 hmem with rfl | hmem
        · rfl
        · exact (h.test a hmem).2
    · cases hk

end Race

/-! ## The cells of the tasks -/

section

variable {m : Eeprom} {x : Nat}

theorem mem_cells_appendHourlyRecord (hr : UInt8) (current : UInt16)
    (h1 : eepromHourDataPtr + hourLen m * 3 ≤ x) (h2 : x < eepromHourDataPtr + hourLen m * 3 + 3) :
    x ∈ ((appendHourlyRecord hr current).accesses m).map Access.cell := by
  obtain ⟨rest, hcells⟩ : ∃ rest, ((appendHourlyRecord hr current).accesses m).map Access.cell =
    [eepromHourHeadPtr, eepromHourDataPtr + hourLen m * 3, eepromHourDataPtr + hourLen m * 3 + 1,
      eepromHourDataPtr + hourLen m * 3 + 1 + 1] ++ rest := ⟨_, rfl⟩
  rw [hcells]
  simp only [List.mem_append, List.mem_cons, List.not_mem_nil, or_false]
  omega

theorem mem_cells_appendToday (now : Tm)
    (h1 : eepromDateDataPtr + (designatedDatePtr (m eepromDateHeadPtr)).toNat * 5 ≤ x)
    (h2 : x < eepromDateDataPtr + (designatedDatePtr (m eepromDateHeadPtr)).toNat * 5 + 5) :
    x ∈ ((appendToday now).accesses m).map Access.cell := by
  obtain ⟨d, hd⟩ : ∃ d, d = eepromDateDataPtr +
    (designatedDatePtr (m eepromDateHeadPtr)).toNat * 5 := ⟨_, rfl⟩
  have hcells : ((appendToday now).accesses m).map Access.cell =
      [eepromDateHeadPtr, d, d + 1, d + 2, d + 3, d + 3 + 1, eepromDateHeadPtr] := by
    rw [hd]
    rfl
  rw [hcells]
  simp only [List.mem_cons, List.not_mem_nil, or_false]
  omega

theorem mem_cells_hourOnly {now : Tm} (h0 : now.tmHour ≠ 0) (current : UInt16)
    (h1 : eepromHourDataPtr + hourLen m * 3 ≤ x) (h2 : x < eepromHourDataPtr + hourLen m * 3 + 3) :
    x ∈ ((hourOnly now current).accesses m).map Access.cell := by
  rw [hourOnly_of_ne h0]
  unfold recordHour
  rw [Prog.accesses_bind_of_ok (eval_appendHourlyRecord m _ current), List.map_append]
  exact List.mem_append_left _ (mem_cells_appendHourlyRecord _ current h1 h2)

theorem accesses_clear (r : Race) (m : Eeprom) : r.clear.accesses m =
    (formatZero false).accesses m ++ ((appendHourlyRecord (UInt8.ofNat r.clearNow.tmHour)
      r.sumCurrent).accesses (Prog.putAll m (formatWrites false)) ++
        (appendToday r.clearNow).accesses
          (hourAppended (Prog.putAll m (formatWrites false)) r.clearNow r.sumCurrent)) := by
  unfold Race.clear clearWarehouseData
  rw [Prog.accesses_bind_of_ok (eval_formatZero m false),
    Prog.accesses_bind_of_ok (eval_appendHourlyRecord _ _ _)]
  rfl

/-- What is in the store after a clear, but for the records of before. -/
def clearedCells : Set Nat := {x | x = eepromHourHeadPtr ∨ x = eepromDateHeadPtr ∨
  (eepromHourDataPtr ≤ x ∧ x < eepromHourDataPtr + 3) ∨
  (eepromDateDataPtr ≤ x ∧ x < eepromDateDataPtr + 5) ∨ x = eepromDateDataPtr + 30 * 5}

theorem logCells_of_mem_clearedCells (h : x ∈ clearedCells) : x ∈ logCells := by
  have haddr := eeprom_addresses
  show 3 ≤ x
  rcases h with rfl | rfl | ⟨h1, -⟩ | ⟨h1, -⟩ | rfl <;> omega

/-- Logs that have one date: their cells are those of a clear, and those of further hours. -/
theorem histories_of_clearedCells {m' z : Eeprom} (hdate : dateSlots z = [0])
    (h : ∀ x ∈ clearedCells, m' x = z x)
    (hhours : ∀ x, eepromHourDataPtr + 3 ≤ x → x < eepromHourDataPtr + hourLen z * 3 →
      m' x = z x) : hourHistory m' = hourHistory z ∧ dateHistory m' = dateHistory z := by
  rw [hourHistory_eq, hourHistory_eq, dateHistory_eq, dateHistory_eq]
  constructor
  · refine hourLog_congr (h _ (Or.inl rfl)) fun x h1 h2 => ?_
    by_cases hx : x < eepromHourDataPtr + 3
    · exact h x (Or.inr (Or.inr (Or.inl ⟨h1, hx⟩)))
    · exact hhours x (Nat.not_lt.1 hx) h2
  · refine dateLog_congr (h _ (Or.inr (Or.inl rfl)))
      (h _ (Or.inr (Or.inr (Or.inr (Or.inr rfl))))) fun i hi => ?_
    rw [hdate, List.mem_singleton] at hi
    subst hi
    exact dateRecord_congr fun x h1 h2 => h x (Or.inr (Or.inr (Or.inr (Or.inl ⟨h1, h2⟩))))

theorem mem_cells_clear (r : Race) (m : Eeprom) (h : x ∈ clearedCells) :
    x ∈ (r.clear.accesses m).map Access.cell := by
  have hformat : ((formatZero false).accesses m).map Access.cell =
      [3, 4, 227, 228, 229, 230, 231] := rfl
  rw [accesses_clear, List.map_append, List.map_append, hformat]
  rcases h with rfl | rfl | ⟨h1, h2⟩ | ⟨h1, h2⟩ | rfl
  · exact List.mem_append_left _ (by decide)
  · exact List.mem_append_left _ (by decide)
  · refine List.mem_append_right _ (List.mem_append_left _ ?_)
    apply mem_cells_appendHourlyRecord
    · rw [hourLen_format]
      exact h1
    · rw [hourLen_format]
      exact h2
  · refine List.mem_append_right _ (List.mem_append_right _ ?_)
    have hslot : designatedDatePtr (hourAppended (Prog.putAll m (formatWrites false)) r.clearNow
        r.sumCurrent eepromDateHeadPtr) = 0 := by
      rw [(dateSlots_cleared m r.clearNow r.sumCurrent).1]
      rfl
    apply mem_cells_appendToday
    · rw [hslot]
      exact h1
    · rw [hslot]
      exact h2
  · exact List.mem_append_left _ (by decide)

end

/-! ## The three ways -/

/-- A pass that faults does so when it divides by the length of the log; it has appended its record
before. -/
theorem exists_of_does_error {now : Tm} {current : UInt16} {ts : List (Access Nat UInt8)} {e : Fault}
    (h : (recordHour now current).Does ts (.error e)) :
    now.tmHour = 23 ∧ ∃ as, ts = as ++ [.read eepromHourHeadPtr 255] ∧
      ∃ v, .write eepromHourHeadPtr v ∈ as := by
  have happend : (appendHourlyRecord (UInt8.ofNat now.tmHour) current).Within fun _ => True :=
    ⟨trivial, fun _ => ⟨trivial, trivial, trivial, trivial, trivial, fun _ => ⟨trivial, fun _ =>
      ⟨trivial, fun _ => ⟨trivial, trivial, trivial, trivial⟩⟩⟩⟩⟩
  obtain ⟨as, bs, _, rfl, hdoes, -, hafter⟩ := Prog.Does.of_bind_within h happend
  have hhead : ∃ v, .write eepromHourHeadPtr v ∈ as := by
    obtain ⟨ptr, as₁, rfl, h₁⟩ := Prog.Does.of_read hdoes
    obtain ⟨as₂, rfl, h₂⟩ := Prog.Does.of_write h₁
    obtain ⟨as₃, rfl, h₃⟩ := Prog.Does.of_write h₂
    obtain ⟨as₄, rfl, h₄⟩ := Prog.Does.of_write h₃
    obtain ⟨as₅, rfl, -⟩ := Prog.Does.of_write h₄
    exact ⟨ptr + 1, by simp⟩
  unfold afterRecord at hafter
  by_cases h23 : now.tmHour = 23
  · rw [if_pos h23] at hafter
    obtain ⟨cs, ds, sum, rfl, -, -, hrest⟩ :=
      Prog.Does.of_bind_within (p := sumHourData) hafter within_sumHourData
    obtain ⟨ptr, ds, rfl, hdiv⟩ := Prog.Does.of_read hrest
    change Prog.Does (if (ptr + 1).toNat = 0 then _ else _) ds _ at hdiv
    by_cases hzero : (ptr + 1).toNat = 0
    · rw [if_pos hzero] at hdiv
      cases hdiv
      obtain rfl : ptr = 255 := by
        have hptr := ptr.toNat_lt
        rw [UInt8.toNat_add] at hzero
        refine UInt8.toNat_inj.1 (show ptr.toNat = 255 from ?_)
        have hone : (1 : UInt8).toNat = 1 := rfl
        omega
      obtain ⟨v, hv⟩ := hhead
      exact ⟨h23, as ++ cs, (List.append_assoc ..).symm, v, List.mem_append_left _ hv⟩
    · rw [if_neg hzero] at hdiv
      obtain ⟨⟨_, hok⟩, -⟩ := Prog.Does.within (P := fun _ => True) hdiv
        ⟨trivial, fun _ => ⟨trivial, trivial, trivial⟩⟩
      cases hok
  · rw [if_neg h23] at hafter
    cases hafter

namespace Race

variable {r : Race}

theorem eval_clear (r : Race) (m : Eeprom) :
    r.clear.eval m = .ok ((), dataCleared m r.clearNow r.sumCurrent) :=
  eval_clearWarehouseData m r.clearNow r.sumCurrent

/-- The EEPROM after the clear and then the pass. -/
def clearedThenChanged (r : Race) : Eeprom :=
  hourRecorded (dataCleared r.mem r.clearNow r.sumCurrent) r.now r.current

theorem eval_change_cleared (r : Race) :
    r.change.eval (dataCleared r.mem r.clearNow r.sumCurrent) = .ok ((), r.clearedThenChanged) :=
  eval_change r (logsValid_dataCleared r.mem r.clearNow r.sumCurrent).hour

theorem historiesAfter_clear_change {m' : Eeprom}
    (h : hourHistory m' = hourHistory r.clearedThenChanged ∧
      dateHistory m' = dateHistory r.clearedThenChanged) :
    HistoriesAfter (do r.clear; r.change) r.mem m' := by
  refine ⟨r.clearedThenChanged, ?_, h⟩
  rw [Prog.eval_bind_of_ok (eval_clear r r.mem), eval_change_cleared]

/-- The clear first, in every cell. -/
theorem serialisable_of_clearFirst (h : r.ClearFirst) : r.Serialisable := by
  obtain ⟨rc, rt, hs⟩ := Prog.exists_shares logCells r.turns r.clear r.change r.mem
  obtain ⟨rfl, rfl, heq⟩ := Prog.eq_of_ordered hs.fit h hs.left hs.right (alike_clear r)
    (alike_change r) (eval_clear r r.mem) (eval_change_cleared r)
  exact ⟨_, hs.eval_eq () () rfl rfl, Or.inl (historiesAfter_clear_change
    ⟨hourHistory_of_eqOn heq, dateHistory_of_eqOn heq⟩)⟩

/-- The pass comes to its end, if the log is not emptied when it takes the average. -/
theorem exists_ok_of_averageFinds (h : r.AverageFinds) {rt : Except Fault Unit}
    (hfit : Fit logCells r.mem (r.accesses.map Prod.snd))
    (hdoes : r.change.Does (part not r.accesses) rt) : rt = .ok () := by
  cases rt with
  | ok u => rfl
  | error e =>
    obtain ⟨bs, ptr, cs, hpass⟩ := exists_passDoes hdoes
    obtain ⟨h23, as, has, v, hv⟩ := exists_of_does_error hpass.record
    have hlast : part not r.accesses = (bs ++ as) ++ .read eepromHourHeadPtr 255 :: [] := by
      rw [hpass.eq, has, List.append_assoc]
    obtain ⟨u, s, z, hacc, hs, hu, hz⟩ := exists_of_part_eq hlast
    obtain rfl : s = false := by simpa using hs
    -- the last write to the head is of an empty log
    have hwrite : ∃ s v, (s, .write eepromHourHeadPtr v) ∈ u := by
      have hmem : .write eepromHourHeadPtr v ∈ part not u := by
        rw [hu]
        exact List.mem_append_right _ hv
      obtain ⟨s, -, hmem⟩ := mem_part.1 hmem
      exact ⟨s, v, hmem⟩
    obtain ⟨u, s, v, w, rfl, hw⟩ := exists_last_write hwrite
    have hread : after r.mem ((u ++ (s, .write eepromHourHeadPtr v) :: w).map Prod.snd)
        eepromHourHeadPtr = 255 := by
      rw [hacc, List.map_append] at hfit
      exact (fit_append.1 hfit).2.1 (show 3 ≤ 3 from le_rfl)
    rw [List.map_append, List.map_cons, after_of_last (by
      rintro b hb
      obtain ⟨a, ha, rfl⟩ := List.mem_map.1 hb
      exact hw a ha)] at hread
    refine absurd hread (h h23 u s v w 255 z hacc hw ?_)
    rintro ⟨_ | _, a⟩ ha
    · have hmem : a ∈ part not z := mem_part.2 ⟨false, rfl, ha⟩
      rw [hz] at hmem
      cases hmem
    · rfl

/-- A clear that sees nothing of the pass leaves what a clear leaves. -/
theorem serialisable_of_passLost (hvalid : HeadsValid r.mem) (h : r.PassLost) :
    r.Serialisable := by
  obtain ⟨rc, rt, hs⟩ := Prog.exists_shares logCells r.turns r.clear r.change r.mem
  obtain ⟨hfit, hsame⟩ := Fit.kept h.1 hs.fit
  obtain ⟨rfl, hend, hcells⟩ := hs.left.eq_of_eval (alike_clear r) hfit (fun _ _ => rfl)
    (eval_clear r r.mem)
  obtain rfl := exists_ok_of_averageFinds h.2 hs.fit hs.right
  have heq : ∀ x ∈ clearedCells,
      after r.mem (r.accesses.map Prod.snd) x = dataCleared r.mem r.clearNow r.sumCurrent x := by
    intro x hx
    have hlog := logCells_of_mem_clearedCells hx
    have hmem := mem_cells_clear r r.mem hx
    rw [← hcells] at hmem
    obtain ⟨a, ha, hcell⟩ := List.mem_map.1 hmem
    exact (hsame x hlog ⟨a, ha, hcell⟩).trans (hend hlog)
  obtain ⟨hhours, hdates⟩ := histories_of_clearedCells (dateSlots_dataCleared ..) heq
    fun x h1 h2 => by
      rw [hourLen_dataCleared] at h2
      omega
  -- what a clear leaves does not depend on what was there
  obtain ⟨m₁, hm₁⟩ : ∃ m₁, r.change.eval r.mem = .ok ((), m₁) := ⟨_, eval_change r hvalid.hour⟩
  refine ⟨_, hs.eval_eq () () rfl rfl, Or.inr ⟨dataCleared m₁ r.clearNow r.sumCurrent, ?_, ?_, ?_⟩⟩
  · rw [Prog.eval_bind_of_ok hm₁, eval_clear]
  · refine hhours.trans ?_
    rw [hourHistory_eq, hourHistory_eq, hourLog_dataCleared, hourLog_dataCleared]
  · refine hdates.trans ?_
    rw [dateHistory_eq, dateHistory_eq, dateLog_dataCleared, dateLog_dataCleared]

theorem clearedThenChanged_eq (h : SameDay r.clearNow r.now) : r.clearedThenChanged = hourStored
    (if r.now.tmHour = 0 then
      Function.update (dataCleared r.mem r.clearNow r.sumCurrent) eepromHourHeadPtr 255
    else dataCleared r.mem r.clearNow r.sumCurrent) r.now r.current := by
  rw [clearedThenChanged, hourRecorded_eq, dayOpened_of_isToday (isToday_of_sameDay h ..)]

theorem hourLen_clearedThenChanged (h : SameDay r.clearNow r.now) :
    hourLen r.clearedThenChanged = if r.now.tmHour = 0 then 1 else 2 := by
  have hvalid := logsValid_dataCleared r.mem r.clearNow r.sumCurrent
  rw [clearedThenChanged_eq h, ← length_hourLog,
    hourLog_hourStored (hvalid.dayReset r.now).hourLen_le', List.length_append, length_hourLog]
  by_cases h0 : r.now.tmHour = 0
  · rw [if_pos h0, if_pos h0, hourLen_reset]
    rfl
  · rw [if_neg h0, if_neg h0, hourLen_dataCleared]
    rfl

theorem dateSlots_clearedThenChanged (h : SameDay r.clearNow r.now) :
    dateSlots r.clearedThenChanged = [0] := by
  rw [clearedThenChanged_eq h]
  by_cases h0 : r.now.tmHour = 0
  · rw [if_pos h0, dateSlots_hourStored ((hourLen_reset _).trans_le (by decide)), dateSlots_reset,
      dateSlots_dataCleared]
  · rw [if_neg h0, dateSlots_hourStored ((hourLen_dataCleared ..).trans_le (by decide)),
      dateSlots_dataCleared]

/-- **One date**: a clear, and of the pass only the record of the hour. -/
theorem serialisable_of_dayLost (h : r.DayLost) : r.Serialisable := by
  obtain ⟨hday, hlost, hord⟩ := h
  obtain ⟨rc, rt, hs⟩ := Prog.exists_shares logCells r.turns r.clear r.change r.mem
  obtain ⟨bs, ptr, cs, hpass⟩ := exists_passDoes hs.right
  have hlen : hourLen (dataCleared r.mem r.clearNow r.sumCurrent) = 1 := hourLen_dataCleared ..
  have heval : (hourOnly r.now r.current).eval (dataCleared r.mem r.clearNow r.sumCurrent) =
      .ok ((), r.clearedThenChanged) := by
    rw [clearedThenChanged_eq hday, eval_hourOnly (hlen.trans_le (by decide))]
  have hfit : Fit logCells r.mem (r.parts.map Prod.snd) := by
    rw [map_snd_parts]
    exact hs.fit
  have hclear : r.clear.Does (part (· == .clear) (r.parts.filter fun a => a.1 != .day)) rc := by
    rw [part_clear_parts]
    exact hs.left
  have hhour : (hourOnly r.now r.current).Does
      (part (fun s => !(s == .clear)) (r.parts.filter fun a => a.1 != .day)) rt := by
    rw [part_hour_parts hpass]
    exact hpass.hourOnly
  obtain ⟨rfl, rfl, heq⟩ := Prog.eq_of_lost hfit hlost hord hclear hhour (alike_clear r)
    (alike_hourOnly r.now r.current) (eval_clear r r.mem) heval
  rw [map_snd_parts] at heq
  refine ⟨_, hs.eval_eq () () rfl rfl, Or.inl (historiesAfter_clear_change ?_)⟩
  refine histories_of_clearedCells (dateSlots_clearedThenChanged hday) (fun x hx => ?_)
    fun x h1 h2 => ?_
  · exact heq x (logCells_of_mem_clearedCells hx)
      (List.mem_append_left _ (mem_cells_clear r r.mem hx))
  · rw [hourLen_clearedThenChanged hday] at h2
    by_cases h0 : r.now.tmHour = 0
    · rw [if_pos h0] at h2
      omega
    · rw [if_neg h0] at h2
      have haddr := eeprom_addresses
      refine heq x (show 3 ≤ x by omega) (List.mem_append_right _ ?_)
      apply mem_cells_hourOnly h0
      · rw [hlen]
        exact h1
      · rw [hlen]
        exact h2

/-- **Two dates**: the test of the day comes out as it does after the clear, whatever it reads. -/
theorem serialisable_of_testEarly (h : r.TestEarly) : r.Serialisable := by
  obtain ⟨hday, ⟨v, hv⟩, hord⟩ := h
  obtain ⟨rc, rt, hs⟩ := Prog.exists_shares logCells r.turns r.clear r.change r.mem
  obtain ⟨rs, ptr, bs, ptr', cs, hpass⟩ :=
    exists_passTests hs.right ⟨v, mem_part.2 ⟨false, rfl, hv⟩⟩
  obtain ⟨hclear, hchange, hsplit, hreads⟩ := parts_untested hpass
  -- the test only reads
  have hfit : Fit logCells r.mem (r.untested.map Prod.snd) ∧
      after r.mem (r.accesses.map Prod.snd) = after r.mem (r.untested.map Prod.snd) := by
    have hall := hs.fit
    change Fit logCells r.mem (r.accesses.map Prod.snd) at hall
    rw [hsplit, List.map_append, fit_append] at hall
    obtain ⟨hfit, heq⟩ := Fit.filter_reads hreads hall.1
    rw [hsplit, untested, List.map_append, List.map_append, after_append, after_append, heq]
    exact ⟨fit_append.2 ⟨hfit, heq ▸ hall.2⟩, rfl⟩
  have heval : (dateAndHour r.now r.current).eval (dataCleared r.mem r.clearNow r.sumCurrent) =
      .ok ((), r.clearedThenChanged) := by
    rw [eval_dateAndHour]
    · exact eval_change_cleared r
    · rw [isToday_reset]
      exact fun hnow => hday (sameDay_of_isToday (isToday_dataCleared ..) hnow)
  have hleft : r.clear.Does (part id r.untested) rc := by
    rw [hclear]
    exact hs.left
  have hright : (dateAndHour r.now r.current).Does (part not r.untested) rt := by
    rw [hchange]
    exact hpass.rest
  obtain ⟨rfl, rfl, heq⟩ := Prog.eq_of_ordered hfit.1 hord hleft hright (alike_clear r)
    (alike_dateAndHour r.now r.current) (eval_clear r r.mem) heval
  rw [← hfit.2] at heq
  exact ⟨_, hs.eval_eq () () rfl rfl, Or.inl (historiesAfter_clear_change
    ⟨hourHistory_of_eqOn heq, dateHistory_of_eqOn heq⟩)⟩

/-- **The histories are those of one task after the other** when the tasks keep apart: the clear
comes first, or sees nothing of the pass, or, on one date, nothing of its test and record of the day
and comes before the rest, or, on two dates, comes before everything but the test of the day. -/
theorem serialisable_of_apart (hvalid : HeadsValid r.mem) (h : r.Apart) : r.Serialisable := by
  rcases h with hfirst | hlost | hday | htest
  · exact serialisable_of_clearFirst hfirst
  · exact serialisable_of_passLost hvalid hlost
  · exact serialisable_of_dayLost hday
  · exact serialisable_of_testEarly htest

/-- Two hours of a day are recorded. -/
def twoHours : Eeprom :=
  hourRecorded (hourRecorded OnlineState.fresh.mem (OnlineState.january 1 8) 300)
    (OnlineState.january 1 9) 400

/-- The clear is between its two records when the pass of the next day empties the hour log and
reads the head of the date log. -/
def betweenDays : Race :=
  ⟨twoHours, List.replicate 18 true ++ List.replicate 2 false ++ List.replicate 30 true,
    OnlineState.january 1 23, 500, OnlineState.january 2 0, 600⟩

example : betweenDays.TestEarly := ⟨by decide, ⟨1, by decide +kernel⟩, by decide +kernel⟩

/-- At the third, the pass has tested the day when the clear comes, and then goes on. -/
def testedDay : Race :=
  ⟨twoHours, List.replicate 4 false ++ List.replicate 25 true, OnlineState.january 1 10, 500,
    OnlineState.january 1 10, 600⟩

theorem serialisable_of_apart_testedDay : testedDay.Serialisable := by
  refine serialisable_of_apart ⟨Or.inr (by decide +kernel), Or.inr (by decide +kernel)⟩
    (Or.inr (Or.inr (Or.inl ?_)))
  exact ⟨by decide, by decide +kernel, by decide +kernel⟩

/-- It has read the head of the hour log, too. -/
def readHead : Race :=
  { testedDay with turns := List.replicate 5 false ++ List.replicate 25 true }

/-- The first two hours are cleared, and the second is there again. -/
theorem not_serialisable_readHead : HeadsValid readHead.mem ∧ ¬ readHead.Serialisable := by
  refine ⟨⟨Or.inr (by decide +kernel), Or.inr (by decide +kernel)⟩, ?_⟩
  rintro ⟨m', hpar, horder⟩
  obtain ⟨a, ha, hlen⟩ := exists_of_okAnd
    (x := (Prog.par readHead.turns readHead.clear readHead.change).eval readHead.mem)
    (p := fun a => (hourHistory a.2).length = 3) (by decide +kernel)
  rw [hpar] at ha
  cases ha
  have hthree : (hourHistory m').length = 3 := of_decide_eq_true hlen
  rcases horder with h | h
  · rw [h.length_eq (n := 2) (by decide +kernel)] at hthree
    cases hthree
  · rw [h.length_eq (n := 1) (by decide +kernel)] at hthree
    cases hthree

end Race

end NinaHomekit
