import NinaHomekit.DateRing

/-!
# The array for a date

`parseDateDatainJson` formats a date into an array of 10 bytes, which has room for two digits of
the month or of the day, but not of both.

* `length_intStr_le_iff` — the number of digits of a number.
* `dateStr_fits_iff` — a date fits before October, or before the 10th.
* `eval_parseDateInArrays` — what is published, and when the array is left.
* `CalendarDate`, `appendDates` — a date of a calendar, and a run of them after a format.
* `datesFit_iff` — **the dates that are published fit exactly if each of the last 31 does.**
* `ringPublished_iff` — **and exactly then the log is published as a ring of 31 days.**
-/

namespace NinaHomekit

open Store Trace

namespace Warehouse

/-! ## The length of a date -/

theorem length_intStr_le_iff {n k : Nat} (hk : 0 < k) : (intStr n).length ≤ k ↔ n < 10 ^ k := by
  unfold intStr
  rw [List.length_map]
  exact Nat.length_toDigits_le_iff (by decide) hk

theorem length_intStr_pos (n : Nat) : 0 < (intStr n).length := by
  unfold intStr
  rw [List.length_map]
  exact Nat.length_toDigits_pos

/-- A number of one digit, of two or of three. -/
theorem length_intStr_of_lt {n : Nat} (h : n < 1000) :
    (intStr n).length = if n < 10 then 1 else if n < 100 then 2 else 3 := by
  have hpos := length_intStr_pos n
  have hone : (intStr n).length ≤ 1 ↔ n < 10 := length_intStr_le_iff (by decide)
  have htwo : (intStr n).length ≤ 2 ↔ n < 100 := length_intStr_le_iff (by decide)
  have hthree : (intStr n).length ≤ 3 ↔ n < 1000 := length_intStr_le_iff (by decide)
  split
  · omega
  · split <;> omega

/-- A year of four digits. -/
theorem length_intStr_of_year {n : Nat} (h1 : 1000 ≤ n) (h2 : n < 10000) :
    (intStr n).length = 4 := by
  have hthree : (intStr n).length ≤ 3 ↔ n < 1000 := length_intStr_le_iff (by decide)
  have hfour : (intStr n).length ≤ 4 ↔ n < 10000 := length_intStr_le_iff (by decide)
  omega

/-- The month and the day of a date have three digits together at most. -/
def DateFits (mm dd : UInt8) : Prop :=
  mm.toNat < 9 ∧ dd.toNat < 100 ∨ mm.toNat < 99 ∧ dd.toNat < 10

instance (mm dd : UInt8) : Decidable (DateFits mm dd) := inferInstanceAs (Decidable (_ ∨ _))

/-- **A date fits** exactly if its month and its day do, whatever bytes they are. -/
theorem dateStr_fits_iff (yy mm dd : UInt8) :
    FitsArray dateStrSize (dateStr yy mm dd) ↔ DateFits mm dd := by
  have hyy := yy.toNat_lt
  have hmm := mm.toNat_lt
  have hdd := dd.toNat_lt
  have hyear : (intStr (1900 + yy.toNat)).length = 4 :=
    length_intStr_of_year (by omega) (by omega)
  have hmon := length_intStr_of_lt (n := mm.toNat + 1) (by omega)
  have hday := length_intStr_of_lt (n := dd.toNat) (by omega)
  unfold FitsArray dateStrSize dateStr DateFits
  simp only [List.length_append, List.length_singleton, hyear, hmon, hday]
  split <;> split <;> (try split) <;> (try split) <;> omega

/-! ## Publishing -/

/-- A loop with the arrays is the loop without them, up to the first date that does not fit. -/
theorem eval_foldlM_parseDateRecordInArray (m : Eeprom) (l : List Nat)
    (root : CurrentHistory CStr) :
    (l.foldlM parseDateRecordInArray root).eval m =
      if ∀ i ∈ l, FitsArray dateStrSize (dateRecord m i).1 then
        (l.foldlM parseDateRecord root).eval m
      else .error (.outOfBounds dateStrSize) := by
  induction l generalizing root with
  | nil => simp
  | cons i l ih =>
    by_cases hfit : FitsArray dateStrSize (dateRecord m i).1
    · have hpass : (parseDateRecordInArray root i).eval m = (parseDateRecord root i).eval m := by
        show Prog.eval (if FitsArray dateStrSize (dateRecord m i).1 then _ else _) m = _
        rw [if_pos hfit]
        rfl
      have hrecord : (parseDateRecord root i).eval m = .ok ({ root with
          time := root.time ++ [(dateRecord m i).1]
          data := root.data ++ [(dateRecord m i).2] }, m) := rfl
      rw [List.foldlM_cons, List.foldlM_cons, Prog.eval_bind_of_ok (hpass.trans hrecord),
        Prog.eval_bind_of_ok hrecord, ih]
      simp only [List.forall_mem_cons, hfit, true_and]
    · have hpass : (parseDateRecordInArray root i).eval m = .error (.outOfBounds dateStrSize) := by
        show Prog.eval (if FitsArray dateStrSize (dateRecord m i).1 then _ else _) m = _
        rw [if_neg hfit]
        rfl
      rw [List.foldlM_cons, Prog.eval_bind, hpass, Trace.error_bind,
        if_neg fun hall => hfit (hall i List.mem_cons_self)]

/-- **What is published** is the log, if every date of it fits. -/
theorem eval_parseDateInArrays (m : Eeprom) :
    parseDateInArrays.eval m =
      if ∀ r ∈ dateLog m, FitsArray dateStrSize r.1 then parseDateDatainJson.eval m
      else .error (.outOfBounds dateStrSize) := by
  have hptr : (UInt8.toNat <$> getRecordedDatePtr).eval m = .ok ((m eepromDateHeadPtr).toNat, m) :=
    rfl
  have hslots : (∀ r ∈ dateLog m, FitsArray dateStrSize r.1) ↔
      ∀ i ∈ dateSlots m, FitsArray dateStrSize (dateRecord m i).1 := List.forall_mem_map
  rw [dateSlots, List.forall_mem_append] at hslots
  rw [if_congr hslots rfl rfl]
  unfold parseDateInArrays parseDateDatainJson parseDates
  rw [Prog.eval_bind_of_ok (eval_getDateDataLength m),
    Prog.eval_bind_of_ok (eval_getDateDataLength m), Prog.eval_bind_of_ok hptr,
    Prog.eval_bind_of_ok hptr]
  dsimp only
  generalize (if dateLen m = eepromDateRecordNum ∧ (m eepromDateHeadPtr).toNat < eepromDateRecordNum
    then List.range' ((m eepromDateHeadPtr).toNat + 1)
      (eepromDateRecordNum - ((m eepromDateHeadPtr).toNat + 1)) else []) = older
  by_cases holder : ∀ i ∈ older, FitsArray dateStrSize (dateRecord m i).1
  · have hfold := eval_foldlM_parseDateRecordInArray m older ⟨"Date", [], []⟩
    rw [if_pos holder, eval_foldlM_parseDateRecord] at hfold
    rw [Prog.eval_bind_of_ok hfold, Prog.eval_bind_of_ok (eval_foldlM_parseDateRecord m _ _),
      Prog.eval_bind_of_ok (eval_getDateDataLength m),
      Prog.eval_bind_of_ok (eval_getDateDataLength m), eval_foldlM_parseDateRecordInArray]
    exact (if_congr (and_iff_right holder) rfl rfl).symm
  · have hfold := eval_foldlM_parseDateRecordInArray m older ⟨"Date", [], []⟩
    rw [if_neg holder] at hfold
    rw [Prog.eval_bind, hfold, Trace.error_bind, if_neg fun h => holder h.1]

/-! ## The dates of the log -/

/-- An argument list of `appendDateRecord` with a date of the calendar. -/
structure CalendarDate where
  yy : UInt8
  mm : UInt8
  dd : UInt8
  avgCurrent : UInt16
  year_ge : 100 ≤ yy.toNat
  mon_le : mm.toNat ≤ 11
  mday_pos : 1 ≤ dd.toNat
  mday_le : dd.toNat ≤ 31

namespace CalendarDate

/-- The call. -/
def append (c : CalendarDate) : EepromProg Unit := appendDateRecord c.yy c.mm c.dd c.avgCurrent

theorem year_ne (c : CalendarDate) : c.yy ≠ 0 := by
  intro h0
  have hge := c.year_ge
  rw [h0] at hge
  exact absurd hge (by decide)

/-- The call as one of those of the ring. -/
def call (c : CalendarDate) : DateCall := ⟨c.yy, c.mm, c.dd, c.avgCurrent, [], c.year_ne⟩

/-- The date has room. -/
def Fits (c : CalendarDate) : Prop := c.mm.toNat < 9 ∨ c.dd.toNat < 10

instance (c : CalendarDate) : Decidable c.Fits := inferInstanceAs (Decidable (_ ∨ _))

theorem dateFits_iff (c : CalendarDate) : DateFits c.mm c.dd ↔ c.Fits := by
  have hmm := c.mon_le
  have hdd := c.mday_le
  unfold DateFits Fits
  omega

end CalendarDate

/-- A format, and then the calls. -/
def appendDates (deep : Bool) (dates : List CalendarDate) : EepromProg Unit := do
  formatZero deep
  dates.forM CalendarDate.append

/-- Every string that `parseDateDatainJson` formats fits. -/
def DatesFit (m : Eeprom) : Prop :=
  ∃ root m', parseDateDatainJson.eval m = .ok (root, m') ∧
    ∀ s ∈ root.time, FitsArray dateStrSize s

theorem datesFit_iff_dateLog {m : Eeprom} :
    DatesFit m ↔ ∀ s ∈ (dateLog m).map Prod.fst, FitsArray dateStrSize s := by
  unfold DatesFit
  rw [eval_parseDateDatainJson]
  constructor
  · rintro ⟨root, m', h, hfit⟩
    cases h
    exact hfit
  · exact fun hfit => ⟨_, _, rfl, hfit⟩

theorem forM_append_eq (dates : List CalendarDate) :
    dates.forM CalendarDate.append = (dates.map CalendarDate.call).forM DateCall.prog := by
  induction dates with
  | nil => rfl
  | cons c dates ih => exact congrArg (fun p => c.append >>= fun _ => p) ih

/-- **The dates that are published fit their array exactly if each of the last 31 is before
October or before the 10th of its month**, whatever was in the EEPROM before the format. -/
theorem datesFit_iff (m : Eeprom) (deep : Bool) (dates : List CalendarDate) :
    ∃ m', (appendDates deep dates).eval m = .ok ((), m') ∧
      (DatesFit m' ↔ ∀ c ∈ lastN eepromDateRecordNum dates, c.Fits) := by
  have hformat : RingHolds (Prog.putAll m (formatWrites deep)) ([] : List DateCall).length
      (lastN eepromDateRecordNum (([] : List DateCall).map DateCall.entry)) :=
    ringHolds_format m deep
  obtain ⟨m', hm', hholds⟩ := hformat.calls (dates.map CalendarDate.call)
  refine ⟨m', ?_, ?_⟩
  · unfold appendDates
    rw [Prog.eval_bind_of_ok (eval_formatZero m deep), forM_append_eq]
    exact hm'
  · have hstrs : (dateLog m').map Prod.fst =
        (lastN eepromDateRecordNum dates).map fun c => dateStr c.yy c.mm c.dd := by
      rw [hholds.log_eq, List.nil_append, List.map_map, lastN, lastN, List.length_map,
        ← List.map_drop, List.map_map]
      rfl
    rw [datesFit_iff_dateLog, hstrs, List.forall_mem_map]
    exact forall₂_congr fun c _ => (dateStr_fits_iff c.yy c.mm c.dd).trans c.dateFits_iff

/-- The tenth of October. -/
def october : CalendarDate := ⟨121, 9, 10, 0, by decide, by decide, by decide, by decide⟩

theorem not_datesFit_october : ∃ m', (appendDates false [october]).eval (fun _ => 0) = .ok ((), m') ∧
    ¬ DatesFit m' := by
  obtain ⟨⟨_, m'⟩, hm', hcheck⟩ := exists_of_okAnd
    (x := (appendDates false [october]).eval (fun _ => 0))
    (p := fun a => ¬ ∀ s ∈ (dateLog a.2).map Prod.fst, FitsArray dateStrSize s) (by decide +kernel)
  exact ⟨m', hm', fun h => of_decide_eq_true hcheck (datesFit_iff_dateLog.1 h)⟩

/-! ## The ring of the last days -/

/-- After these calls the head, the length and what `parseDateDatainJson` publishes are those of a
ring of the last records. -/
structure RingPublished (m : Eeprom) (calls : List DateCall) : Prop where
  head : (m eepromDateHeadPtr).toNat =
    if calls.length = 0 then 255 else (calls.length - 1) % eepromDateRecordNum
  length : getDateDataLength.eval m = .ok (min calls.length eepromDateRecordNum, m)
  published : parseDateInArrays.eval m = .ok (⟨"Date",
    (lastN eepromDateRecordNum calls).map fun c => dateStr c.yy c.mm c.dd,
    (lastN eepromDateRecordNum calls).map fun c => c.rewrites.getLastD c.avgCurrent⟩, m)

/-- **The date log is a ring of the last 31 days exactly if each of them fits its array**, whatever
was in the EEPROM before the format. -/
theorem ringPublished_iff (m : Eeprom) (deep : Bool) (calls : List DateCall) :
    ∃ m', (dateRun deep calls).eval m = .ok ((), m') ∧
      (RingPublished m' calls ↔ ∀ c ∈ lastN eepromDateRecordNum calls, DateFits c.mm c.dd) := by
  obtain ⟨m', hrun, hhead, hlength, hread⟩ := dateRing m deep calls
  refine ⟨m', hrun, ?_⟩
  have hlog : (dateLog m').map Prod.fst =
      (lastN eepromDateRecordNum calls).map fun c => dateStr c.yy c.mm c.dd := by
    rw [eval_parseDateDatainJson] at hread
    exact congrArg CurrentHistory.time (congrArg Prod.fst (Except.ok.inj hread))
  have hfits : (∀ r ∈ dateLog m', FitsArray dateStrSize r.1) ↔
      ∀ c ∈ lastN eepromDateRecordNum calls, DateFits c.mm c.dd := by
    rw [← List.forall_mem_map (f := Prod.fst) (P := FitsArray dateStrSize), hlog,
      List.forall_mem_map]
    exact forall₂_congr fun c _ => dateStr_fits_iff c.yy c.mm c.dd
  rw [← hfits]
  constructor
  · intro h
    have hpub := h.published
    rw [eval_parseDateInArrays] at hpub
    by_contra hnot
    rw [if_neg hnot] at hpub
    cases hpub
  · intro h
    refine ⟨hhead, hlength, ?_⟩
    rw [eval_parseDateInArrays, if_pos h, hread]

/-- The record of the tenth of October is written past the end of its array. -/
theorem not_ringPublished_october : ∃ m', (dateRun false [october.call]).eval (fun _ => 0) =
    .ok ((), m') ∧ ¬ RingPublished m' [october.call] := by
  obtain ⟨⟨_, m'⟩, hm', hcheck⟩ := exists_of_okAnd
    (x := (dateRun false [october.call]).eval (fun _ => 0))
    (p := fun a => ¬ ∀ r ∈ dateLog a.2, FitsArray dateStrSize r.1) (by decide +kernel)
  refine ⟨m', hm', fun h => ?_⟩
  have hpub := h.published
  rw [eval_parseDateInArrays, if_neg (of_decide_eq_true hcheck)] at hpub
  cases hpub

end Warehouse

end NinaHomekit
