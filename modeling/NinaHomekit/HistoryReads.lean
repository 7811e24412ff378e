import NinaHomekit.CoreBridge.LogCalls
import NinaHomekit.Lib.Reads

/-!
# What the history readers read

The readers take the number of records from the heads of the logs, and trust them: nothing but the
head of a blank hour log stands for a log without records, whatever else the EEPROM holds.

* `HourLogCell`, `DateLogCell` — the bytes of a log, by `Warehouse.h`.
* `ReadersInside` — both readers stay in their log, and return as many entries as it has room for.
* `HeadsInside` — the heads point into the logs, or say that there is no record.
* `readersInside_iff` — **the readers stay inside exactly if the heads do.**
-/

namespace NinaHomekit

open Store

namespace Warehouse

variable {m : Eeprom}

/-! ## The logs -/

/-- The head of the hour log, and its bytes. -/
def HourLogCell (x : Nat) : Prop := x = eepromHourHeadPtr ∨ (0x05 ≤ x ∧ x ≤ 0x4c)

/-- The head of the date log, and its bytes. -/
def DateLogCell (x : Nat) : Prop := x = eepromDateHeadPtr ∨ (0x4d ≤ x ∧ x ≤ 0xe7)

/-- What the readers read, and how many entries they return. -/
structure ReadersInside (m : Eeprom) : Prop where
  hourReads : parseHourDatainJson.ReadsIn HourLogCell m
  hourEntries : (hourHistory m).length ≤ 24
  dateReads : parseDateDatainJson.ReadsIn DateLogCell m
  dateEntries : (dateHistory m).length ≤ eepromDateRecordNum

/-- The head of a log is the slot of a record, or 255, which for the date log says that there are
none only if the last slot has no year. -/
structure HeadsInside (m : Eeprom) : Prop where
  hour : m eepromHourHeadPtr = 255 ∨ (m eepromHourHeadPtr).toNat ≤ 23
  date : (m eepromDateHeadPtr = 255 ∧ lastYear m = 0) ∨ (m eepromDateHeadPtr).toNat ≤ 30

/-! ## The hour log -/

theorem hourLogCell_slot {i k : Nat} (hi : i < 24) (hk : k < 3) :
    HourLogCell (eepromHourDataPtr + i * 3 + k) := by
  have haddr := eeprom_addresses
  exact Or.inr (by omega)

theorem readsIn_parseHourDatainJson (h : hourLen m ≤ 24) :
    parseHourDatainJson.ReadsIn HourLogCell m := by
  unfold parseHourDatainJson forHourData
  refine Prog.ReadsIn.forWhile (eval_getHourDataLength m) ?_ (fun _ _ => rfl) (fun root i hi => ?_)
    _ _
  · exact Prog.readsIn_read.2 ⟨Or.inl rfl, Prog.readsIn_done _⟩
  · have hlt : i < 24 := by omega
    exact Prog.readsIn_read.2 ⟨hourLogCell_slot (k := 0) hlt (by decide), Prog.readsIn_read.2
      ⟨hourLogCell_slot (k := 1) hlt (by decide), Prog.readsIn_read.2
        ⟨hourLogCell_slot (k := 2) hlt (by decide), Prog.readsIn_done _⟩⟩⟩

/-! ## The date log -/

theorem dateLogCell_slot {i k : Nat} (hi : i < 31) (hk : k < 5) :
    DateLogCell (eepromDateDataPtr + i * 5 + k) := by
  have haddr := eeprom_addresses
  exact Or.inr (by omega)

theorem readsIn_getDateDataLength (m : Eeprom) : getDateDataLength.ReadsIn DateLogCell m := by
  refine Prog.readsIn_read.2 ⟨Or.inl rfl, ?_⟩
  show Prog.ReadsIn _ (if (m eepromDateHeadPtr + 1).toNat < eepromDateRecordNum then _ else _) m
  by_cases hlt : (m eepromDateHeadPtr + 1).toNat < eepromDateRecordNum
  · rw [if_pos hlt]
    exact Prog.readsIn_read.2 ⟨dateLogCell_slot (i := 30) (k := 0) (by decide) (by decide),
      Prog.readsIn_done _⟩
  · rw [if_neg hlt]
    exact Prog.readsIn_done _

theorem readsIn_parseDateRecord {i : Nat} (hi : i < 31) (root : CurrentHistory CStr) :
    (parseDateRecord root i).ReadsIn DateLogCell m := by
  have hslot : ∀ k < 5, DateLogCell (eepromDateDataPtr + i * 5 + k) :=
    fun k hk => dateLogCell_slot hi hk
  refine Prog.readsIn_read.2 ⟨hslot 0 (by decide), Prog.readsIn_read.2 ⟨hslot 1 (by decide), ?_⟩⟩
  refine Prog.readsIn_read.2 ⟨hslot 2 (by decide), Prog.readsIn_read.2 ⟨hslot 3 (by decide), ?_⟩⟩
  exact Prog.readsIn_read.2 ⟨hslot 4 (by decide), Prog.readsIn_done _⟩

theorem readsIn_foldlM_parseDateRecord {slots : List Nat} (h : ∀ i ∈ slots, i < 31)
    (root : CurrentHistory CStr) : (slots.foldlM parseDateRecord root).ReadsIn DateLogCell m :=
  Prog.ReadsIn.foldlM (fun _ _ => rfl) (fun root i hi => readsIn_parseDateRecord (h i hi) root) root

/-- The reader reads the slots of its records. -/
theorem readsIn_parseDateDatainJson (h : ∀ i ∈ dateSlots m, i < 31) :
    parseDateDatainJson.ReadsIn DateLogCell m := by
  have hptr : (UInt8.toNat <$> getRecordedDatePtr).eval m = .ok ((m eepromDateHeadPtr).toNat, m) :=
    rfl
  obtain ⟨holder, hnewer⟩ := List.forall_mem_append.1 h
  unfold parseDateDatainJson parseDates
  rw [Prog.readsIn_bind_of_ok (eval_getDateDataLength m), Prog.readsIn_bind_of_ok hptr,
    Prog.readsIn_bind_of_ok (eval_foldlM_parseDateRecord m _ _),
    Prog.readsIn_bind_of_ok (eval_getDateDataLength m)]
  refine ⟨readsIn_getDateDataLength m, Prog.readsIn_read.2 ⟨Or.inl rfl, Prog.readsIn_done _⟩, ?_⟩
  exact ⟨readsIn_foldlM_parseDateRecord holder _, readsIn_getDateDataLength m,
    readsIn_foldlM_parseDateRecord hnewer _⟩

theorem dateSlots_lt (h : (m eepromDateHeadPtr).toNat ≤ 30) : ∀ i ∈ dateSlots m, i < 31 := by
  have haddr := eeprom_addresses
  unfold dateSlots
  refine List.forall_mem_append.2 ⟨fun i hi => ?_, fun i hi => ?_⟩
  · split at hi
    · rw [List.mem_range'_1] at hi
      omega
    · cases hi
  · split at hi
    · rw [List.mem_range'_1] at hi
      omega
    · cases hi

theorem length_dateSlots_le (h : (m eepromDateHeadPtr).toNat ≤ 30) :
    (dateSlots m).length ≤ 31 := by
  have haddr := eeprom_addresses
  unfold dateSlots
  rw [List.length_append]
  split <;> split <;> simp only [List.length_range', List.length_nil] <;> omega

/-- A head behind the log, unless it says that there is no record, is taken for its length. -/
theorem lt_length_dateSlots (h : ¬ (m eepromDateHeadPtr).toNat ≤ 30)
    (hne : ¬ (m eepromDateHeadPtr = 255 ∧ lastYear m = 0)) : 31 < (dateSlots m).length := by
  have haddr := eeprom_addresses
  have hlt := (m eepromDateHeadPtr).toNat_lt
  have hnext : (m eepromDateHeadPtr + 1).toNat = ((m eepromDateHeadPtr).toNat + 1) % 256 := by
    simp
  have hpos : 0 < dateLen m := by
    unfold dateLen
    by_cases hyear : (m eepromDateHeadPtr + 1).toNat < eepromDateRecordNum ∧ lastYear m > 0
    · rw [if_pos hyear]
      decide
    · rw [if_neg hyear, hnext]
      by_contra h0
      -- the head is 255, and the last slot has a year
      have h255 : (m eepromDateHeadPtr).toNat = 255 := by omega
      have hzero : ¬ lastYear m = 0 := fun hzero => hne ⟨UInt8.toNat_inj.1 h255, hzero⟩
      exact hyear ⟨by omega, UInt8.pos_iff_ne_zero.2 hzero⟩
  unfold dateSlots
  rw [List.length_append, if_pos hpos, List.length_range']
  omega

/-! ## Both -/

/-- **The history readers stay inside their logs exactly if the heads do**: the hour head is 255
or at most 23, and the date head is at most 30, or 255 with no year in the last slot. -/
theorem readersInside_iff (m : Eeprom) : ReadersInside m ↔ HeadsInside m := by
  have hhours : (hourHistory m).length = hourLen m := by
    rw [hourHistory_eq, length_hourLog]
  have hdates : (dateHistory m).length = (dateSlots m).length := by
    rw [dateHistory_eq, length_dateLog]
  constructor
  · rintro ⟨-, hhour, -, hdate⟩
    refine ⟨hourLen_le_iff.1 (hhours ▸ hhour), ?_⟩
    by_contra hout
    obtain ⟨hne, hlt⟩ := not_or.1 hout
    have haddr := eeprom_addresses
    have hlong := lt_length_dateSlots hlt hne
    omega
  · rintro ⟨hhour, hdate⟩
    have hlen := hourLen_le_iff.2 hhour
    have hslots : (∀ i ∈ dateSlots m, i < 31) ∧ (dateSlots m).length ≤ 31 := by
      rcases hdate with ⟨h255, hyear⟩ | hle
      · rw [dateSlots_of_empty h255 hyear]
        exact ⟨List.forall_mem_nil _, Nat.zero_le 31⟩
      · exact ⟨dateSlots_lt hle, length_dateSlots_le hle⟩
    exact ⟨readsIn_parseHourDatainJson hlen, hhours ▸ hlen,
      readsIn_parseDateDatainJson hslots.1, hdates ▸ hslots.2⟩

/-- A blank device: the date reader takes its head for 256 records. -/
def blank : Eeprom := fun _ => 255

theorem not_readersInside_blank : ¬ ReadersInside blank := by
  intro h
  have hlen : (dateHistory blank).length = 256 := by
    rw [dateHistory_eq, length_dateLog, dateSlots_of_blank rfl (by decide), List.length_range]
  have hle := h.dateEntries
  rw [hlen] at hle
  exact absurd hle (by decide)

end Warehouse

end NinaHomekit
