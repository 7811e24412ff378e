import NinaHomekit.Perioder.Tasks

/-!
# An update on its own

What a task does to the hour log while no other task updates the EEPROM, and the others leave
`timeinfo` as it is.

* `LogInv` — the hours were written on the last date, and they increase.
* `Unread` — a cell that neither the hours nor the last date are read from; the slots that records
  go to are such cells, and it is the write to a head that counts.
* `aloneRules` — what an update may rely on.
* `safe_onlineStart`, `safe_recordHour`, `safe_clearWarehouseData` — **the three updates keep the
  log**, the second if the hour fits, and the third once it is through.
-/

namespace NinaHomekit

open Store Trace Warehouse

/-! ## The log -/

/-- The hour in the slot `i` of the hour log was written with the reading `now`. -/
def WrittenAt (s : OnlineShared) (i : Nat) (now : Tm) : Prop :=
  s.author (eepromHourDataPtr + i * 3) = some (.hourly now)

/-- What holds of the hour log: the hours were written on the last date, and they increase. -/
structure LogInv (s : OnlineShared) : Prop where
  valid : LogsValid s.store
  written : ∀ i r, (hourLog s.store)[i]? = some r → ∃ now, WrittenAt s i now ∧
    r.1.toNat = now.tmHour ∧ IsToday s.store now
  increasing : ((hourLog s.store).map fun r => r.1.toNat).Pairwise (· < ·)

namespace LogInv

variable {s t : OnlineShared}

/-- An empty log. -/
theorem of_empty (hvalid : LogsValid s.store) (hlog : hourLog s.store = []) : LogInv s := by
  refine ⟨hvalid, fun i r hr => ?_, ?_⟩
  · rw [hlog] at hr
    cases hr
  · rw [hlog]
    exact List.Pairwise.nil

/-- Only the EEPROM and who wrote it matter. -/
theorem of_same (h : LogInv s) (hstore : t.store = s.store) (hauthor : t.author = s.author) :
    LogInv t := by
  obtain ⟨store, author, vars⟩ := t
  cases hstore
  cases hauthor
  exact ⟨h.valid, h.written, h.increasing⟩

/-- The same log. -/
theorem congr (h : LogInv s) (hvalid : LogsValid t.store) (hlog : hourLog t.store = hourLog s.store)
    (hauthor : ∀ i < hourLen s.store, t.author (eepromHourDataPtr + i * 3) =
      s.author (eepromHourDataPtr + i * 3))
    (htoday : ∀ now, IsToday s.store now → IsToday t.store now) : LogInv t := by
  refine ⟨hvalid, fun i r hr => ?_, ?_⟩
  · rw [hlog] at hr
    obtain ⟨now, hat, hhour, hnow⟩ := h.written i r hr
    have hi := (List.getElem?_eq_some_iff.1 hr).1
    rw [length_hourLog] at hi
    exact ⟨now, (hauthor i hi).trans hat, hhour, htoday now hnow⟩
  · rw [hlog]
    exact h.increasing

end LogInv

/-! ### Cells that are not read -/

/-- A write to the cell changes neither the hours nor the last date. -/
structure Unread (m : Eeprom) (x : Nat) : Prop where
  hourHead : x ≠ eepromHourHeadPtr
  dateHead : x ≠ eepromDateHeadPtr
  hours : ¬ (eepromHourDataPtr ≤ x ∧ x < eepromHourDataPtr + hourLen m * 3)
  date : ¬ (eepromDateDataPtr + (m eepromDateHeadPtr).toNat * 5 ≤ x ∧
    x < eepromDateDataPtr + (m eepromDateHeadPtr).toNat * 5 + 3)
  lastYear : m eepromDateHeadPtr = 255 → x ≠ eepromDateDataPtr + (eepromDateRecordNum - 1) * 5

namespace Unread

variable {m : Eeprom} {x y : Nat}

theorem update (h : Unread m x) (hy : Unread m y) (v : UInt8) :
    Unread (Function.update m y v) x := by
  have hhour : Function.update m y v eepromHourHeadPtr = m eepromHourHeadPtr :=
    Function.update_of_ne (Ne.symm hy.hourHead) ..
  have hdate : Function.update m y v eepromDateHeadPtr = m eepromDateHeadPtr :=
    Function.update_of_ne (Ne.symm hy.dateHead) ..
  constructor
  · exact h.hourHead
  · exact h.dateHead
  · unfold hourLen
    rw [hhour]
    exact h.hours
  · rw [hdate]
    exact h.date
  · rw [hdate]
    exact h.lastYear

variable {ws : List (Nat × UInt8)}

theorem hourLog_putAll (h : ∀ w ∈ ws, Unread m w.1) : hourLog (Prog.putAll m ws) = hourLog m := by
  apply hourLog_congr
  · exact Prog.putAll_of_notMem fun w hw => (h w hw).hourHead
  · intro y h1 h2
    apply Prog.putAll_of_notMem
    rintro w hw rfl
    exact (h w hw).hours ⟨h1, h2⟩

theorem isToday_putAll (h : ∀ w ∈ ws, Unread m w.1) (now : Tm) :
    IsToday (Prog.putAll m ws) now ↔ IsToday m now := by
  apply isToday_congr
  · exact Prog.putAll_of_notMem fun w hw => (h w hw).dateHead
  · intro k hk
    apply Prog.putAll_of_notMem
    intro w hw heq
    exact (h w hw).date ⟨by omega, by omega⟩

theorem logsValid_putAll (h : ∀ w ∈ ws, Unread m w.1) (hvalid : LogsValid m) :
    LogsValid (Prog.putAll m ws) := by
  constructor
  · rw [Prog.putAll_of_notMem fun w hw => (h w hw).hourHead]
    exact hvalid.hour
  · rw [Prog.putAll_of_notMem fun w hw => (h w hw).dateHead]
    rcases hvalid.date with ⟨h255, hyear⟩ | hle
    · refine Or.inl ⟨h255, ?_⟩
      unfold Warehouse.lastYear
      rw [Prog.putAll_of_notMem fun w hw => (h w hw).lastYear h255]
      exact hyear
    · exact Or.inr hle

end Unread

/-! ### The cells of the updates -/

section Cells

variable {m : Eeprom} {x : Nat}

/-- The average of the last date. -/
theorem unread_average (h : LogsValid m)
    (hlo : eepromDateDataPtr + (m eepromDateHeadPtr).toNat * 5 + 3 ≤ x)
    (hhi : x < eepromDateDataPtr + (m eepromDateHeadPtr).toNat * 5 + 5) : Unread m x := by
  have haddr := eeprom_addresses
  have hlen := h.hourLen_le'
  constructor
  · omega
  · omega
  · omega
  · omega
  · intro h255
    rw [h255] at hlo
    have h255' : (255 : UInt8).toNat = 255 := rfl
    omega

/-- The slot of the next date. -/
theorem unread_dateSlot (h : LogsValid m)
    (hlo : eepromDateDataPtr + (designatedDatePtr (m eepromDateHeadPtr)).toNat * 5 ≤ x)
    (hhi : x < eepromDateDataPtr + (designatedDatePtr (m eepromDateHeadPtr)).toNat * 5 + 5) :
    Unread m x := by
  have haddr := eeprom_addresses
  have hlen := h.hourLen_le'
  have hne := designatedDatePtr_ne (m eepromDateHeadPtr)
  constructor
  · omega
  · omega
  · omega
  · omega
  · intro h255
    rw [h255] at hhi
    have hzero : (designatedDatePtr 255).toNat = 0 := rfl
    omega

/-- The slot of the next hour. -/
theorem unread_hourSlot (h : LogsValid m) (hne : m eepromHourHeadPtr ≠ 23)
    (hlo : eepromHourDataPtr + hourLen m * 3 ≤ x)
    (hhi : x < eepromHourDataPtr + hourLen m * 3 + 3) : Unread m x := by
  have haddr := eeprom_addresses
  have hlen := h.hourLen_le hne
  constructor
  · omega
  · omega
  · omega
  · omega
  · intro _
    omega

/-- The cycle counter. -/
theorem unread_cycle (hx : x < 3) : Unread m x := by
  have haddr := eeprom_addresses
  constructor
  · omega
  · omega
  · omega
  · omega
  · intro _
    omega

end Cells

/-! ### Writes to the log -/

theorem toNat_tmHour (now : Tm) : (UInt8.ofNat now.tmHour).toNat = now.tmHour := by
  have := now.hour_lt
  rw [UInt8.toNat_ofNat']
  omega

namespace LogInv

variable {s t : OnlineShared} {part : Part}

/-- **A write to a cell that is not read.** -/
theorem put (h : LogInv s) {x : Nat} (hx : Unread s.store x) (v : UInt8) :
    LogInv (s.put part x v) := by
  have hw : ∀ w ∈ [(x, v)], Unread s.store w.1 := by
    intro w hw
    rw [List.mem_singleton.1 hw]
    exact hx
  refine h.congr (Unread.logsValid_putAll hw h.valid) (Unread.hourLog_putAll hw) (fun i hi => ?_)
    fun now hnow => (Unread.isToday_putAll hw now).2 hnow
  apply Function.update_of_ne
  rintro rfl
  exact hx.hours ⟨by omega, by omega⟩

/-- **The log is emptied.** -/
theorem put_empty (h : LogInv s) : LogInv (s.put part eepromHourHeadPtr 255) :=
  .of_empty h.valid.hourReset (hourLog_of_empty (by rw [Shared.store_put, Function.update_self]))

/-- **A new date**, when the log is empty. -/
theorem put_date (h : LogInv s) (hlog : s.store eepromHourHeadPtr = 255) :
    LogInv (s.put part eepromDateHeadPtr (designatedDatePtr (s.store eepromDateHeadPtr))) := by
  have hle := h.valid.designated_le
  refine .of_empty ⟨?_, Or.inr ?_⟩ (hourLog_of_empty ?_)
  · left
    rw [Shared.store_put, Function.update_of_ne (by decide), hlog]
  · rw [Shared.store_put, Function.update_self]
    exact hle
  · rw [Shared.store_put, Function.update_of_ne (by decide), hlog]

/-- An entry of a list with one more. -/
theorem getElem?_concat_cases {α : Type} {l : List α} {a b : α} {i : Nat}
    (h : (l ++ [a])[i]? = some b) : l[i]? = some b ∨ (i = l.length ∧ a = b) := by
  by_cases hi : i < l.length
  · left
    rwa [List.getElem?_append_left hi] at h
  · right
    rw [List.getElem?_append_right (Nat.not_lt.1 hi), List.getElem?_singleton] at h
    by_cases h0 : i - l.length = 0
    · rw [if_pos h0] at h
      exact ⟨by omega, Option.some.inj h⟩
    · rw [if_neg h0] at h
      cases h

/-- **A new record**: the head moves to a slot that was written with a later hour of the day. -/
theorem put_hour (h : LogInv s) (hne : s.store eepromHourHeadPtr ≠ 23) {now : Tm} {current : UInt16}
    (hrecord : hourRecord s.store (hourLen s.store) = (UInt8.ofNat now.tmHour, current))
    (hat : WrittenAt s (hourLen s.store) now) (htoday : IsToday s.store now)
    (hlater : ∀ r ∈ hourLog s.store, r.1.toNat < now.tmHour) :
    LogInv (s.put part eepromHourHeadPtr (s.store eepromHourHeadPtr + 1)) := by
  have haddr := eeprom_addresses
  obtain ⟨m', hm'⟩ : ∃ m', m' = Function.update s.store eepromHourHeadPtr
    (s.store eepromHourHeadPtr + 1) := ⟨_, rfl⟩
  have hsame : ∀ x, 3 < x → m' x = s.store x := by
    intro x hx
    rw [hm']
    exact Function.update_of_ne (by omega) ..
  have hhead : m' eepromHourHeadPtr = s.store eepromHourHeadPtr + 1 := by
    rw [hm', Function.update_self]
  have hday : ∀ t, IsToday m' t ↔ IsToday s.store t := by
    intro t
    exact isToday_congr (hsame _ (by omega)) (fun k _ => hsame _ (by omega)) t
  have hlog : hourLog m' = hourLog s.store ++ [(UInt8.ofNat now.tmHour, current)] := by
    rw [hourLog_snoc hhead (hourHead_ne h.valid.hourLen_le') fun x h1 _ => hsame x (by omega),
      hourRecord_congr fun x h1 _ => hsame x (by omega), hrecord]
  have hlen := h.valid.hourLen_le hne
  have hauthor : ∀ i, (s.put part eepromHourHeadPtr (s.store eepromHourHeadPtr + 1)).author
      (eepromHourDataPtr + i * 3) = s.author (eepromHourDataPtr + i * 3) := by
    intro i
    exact Function.update_of_ne (by omega) ..
  constructor
  · rw [Shared.store_put, ← hm']
    refine ⟨Or.inr ?_, ?_⟩
    · rw [hhead]
      exact hlen
    · unfold lastYear
      rw [hsame _ (by omega), hsame _ (by omega)]
      exact h.valid.date
  · intro i r hr
    rw [Shared.store_put, ← hm', hlog] at hr
    rw [Shared.store_put, ← hm']
    unfold WrittenAt
    rw [hauthor]
    rcases getElem?_concat_cases hr with hr | ⟨rfl, rfl⟩
    · obtain ⟨now', hat', hhour, hnow⟩ := h.written i r hr
      exact ⟨now', hat', hhour, (hday now').2 hnow⟩
    · rw [length_hourLog]
      exact ⟨now, hat, toNat_tmHour now, (hday now).2 htoday⟩
  · rw [Shared.store_put, ← hm', hlog, List.map_append, List.pairwise_append]
    refine ⟨h.increasing, List.pairwise_singleton .., fun x hx y hy => ?_⟩
    obtain ⟨r, hr, rfl⟩ := List.mem_map.1 hx
    rw [List.mem_singleton.1 hy]
    show r.1.toNat < (UInt8.ofNat now.tmHour).toNat
    rw [toNat_tmHour]
    exact hlater r hr

/-- Hours that all increase to an hour are no full day. -/
theorem ne_last (h : LogInv s) {hour : Nat} (h24 : hour < 24)
    (hlater : ∀ r ∈ hourLog s.store, r.1.toNat < hour) : s.store eepromHourHeadPtr ≠ 23 := by
  intro h23
  have hlen : (hourLog s.store).length = 24 := by
    rw [length_hourLog]
    unfold hourLen
    rw [h23]
    rfl
  have hsub : ((hourLog s.store).map fun r => r.1.toNat).toFinset ⊆ Finset.range hour := by
    intro x hx
    obtain ⟨r, hr, rfl⟩ := List.mem_map.1 (List.mem_toFinset.1 hx)
    exact Finset.mem_range.2 (hlater r hr)
  have hcard := Finset.card_le_card hsub
  have hnodup : ((hourLog s.store).map fun r => r.1.toNat).Nodup :=
    h.increasing.imp fun hlt => hlt.ne
  rw [List.toFinset_card_of_nodup hnodup, List.length_map, hlen, Finset.card_range] at hcard
  omega

end LogInv

/-! ## An update on its own -/

/-- The others leave the EEPROM and `timeinfo` alone. -/
structure Undisturbed (s t : OnlineShared) : Prop where
  store : t.store = s.store
  author : t.author = s.author
  timeinfo : t.vars.timeinfo = s.vars.timeinfo

namespace Undisturbed

variable {s t u : OnlineShared} {part : Part}

theorem refl (s : OnlineShared) : Undisturbed s s := ⟨rfl, rfl, rfl⟩

theorem trans (h : Undisturbed s t) (h' : Undisturbed t u) : Undisturbed s u :=
  ⟨h'.store.trans h.store, h'.author.trans h.author, h'.timeinfo.trans h.timeinfo⟩

theorem put (h : Undisturbed s t) (x : Nat) (v : UInt8) :
    Undisturbed (s.put part x v) (t.put part x v) := by
  refine ⟨?_, ?_, h.timeinfo⟩
  · rw [Shared.store_put, Shared.store_put, h.store]
  · show Function.update t.author x _ = Function.update s.author x _
    rw [h.author]

theorem putAll (h : Undisturbed s t) (ws : List (Nat × UInt8)) :
    Undisturbed (s.putAll part ws) (t.putAll part ws) := by
  induction ws generalizing s t with
  | nil => exact h
  | cons w ws ih => exact ih (h.put w.1 w.2)

theorem logInv (h : Undisturbed s t) (hlog : LogInv s) : LogInv t := hlog.of_same h.store h.author

end Undisturbed

/-- What a task may rely on while no other updates the EEPROM; `J` is what it keeps. -/
def aloneRules (J : OnlineShared → Prop) : Rules Nat UInt8 OnlineVars Part where
  between := Undisturbed
  reads _ _ _ := True
  writes _ _ _ _ := True
  inv := J
  refl_of _ := .refl _
  trans := .trans

section Alone

variable {s t : OnlineShared} {part : Part} {J : OnlineShared → Prop}

/-- Writes that need not keep anything. -/
theorem putsSafe_any {Q : OnlineShared → Prop} {ws : List (Nat × UInt8)}
    (hQ : ∀ t, Undisturbed (s.putAll part ws) t → Q t) :
    (aloneRules fun _ => True).PutsSafe part Q ws s := by
  induction ws generalizing s with
  | nil => exact hQ
  | cons w ws ih =>
    intro t ht
    exact ⟨trivial, trivial, ih fun u hu => hQ u (((ht.put w.1 w.2).putAll ws).trans hu)⟩

/-- **Writes to cells that are not read** keep the log. -/
theorem putsSafe_unread {Q : OnlineShared → Prop} {ws : List (Nat × UInt8)} (h : LogInv s)
    (hws : ∀ w ∈ ws, Unread s.store w.1)
    (hQ : ∀ t, Undisturbed (s.putAll part ws) t → LogInv t → Q t) :
    (aloneRules LogInv).PutsSafe part Q ws s := by
  induction ws generalizing s with
  | nil => exact fun t ht => hQ t ht (ht.logInv h)
  | cons w ws ih =>
    intro t ht
    have hw : Unread t.store w.1 := ht.store ▸ hws w (by simp)
    have hput : LogInv (t.put part w.1 w.2) := (ht.logInv h).put hw w.2
    refine ⟨trivial, hput, ih hput (fun v hv => ?_) fun u hu => hQ u ?_⟩
    · rw [Shared.store_put]
      exact Unread.update (ht.store ▸ hws v (List.mem_cons_of_mem _ hv)) hw w.2
    · exact ((ht.put w.1 w.2).putAll ws).trans hu

/-- A function of `Warehouse` that only reads. -/
theorem safe_reads {α : Type} {Q : α → OnlineShared → Prop} {q : EepromProg α} {a : α} {m : Eeprom}
    (hq : ReadsOnly q) (heval : q.eval s.store = .ok (a, m))
    (hQ : ∀ t, Undisturbed s t → Q a t) : (aloneRules J).Safe Q (Perioder.warehouse q) s :=
  Rules.safe_readOnly Undisturbed.store hq heval hQ

/-- A look at the variables. -/
theorem safe_look {β : Type} {Q : β → OnlineShared → Prop} {f : OnlineVars → OnlineTask β}
    (h : ∀ t, Undisturbed s t → (aloneRules J).Safe Q (f t.vars) t) :
    (aloneRules J).Safe Q (Task.vars >>= f) s := h

/-- A change of the variables but `timeinfo`. -/
theorem safe_change {β : Type} {Q : β → OnlineShared → Prop} {g : OnlineVars → OnlineVars}
    {f : Unit → OnlineTask β}
    (h : ∀ t, Undisturbed s t → J (t.setVars g) ∧ (aloneRules J).Safe Q (f ()) (t.setVars g)) :
    (aloneRules J).Safe Q (Task.modify g >>= f) s := h

end Alone

/-! ## A day and an hour that fit -/

/-- The log is right, and `timeinfo` is of the last date and of a later hour than its records. -/
structure Fits (s : OnlineShared) : Prop where
  log : LogInv s
  fits : ∀ r ∈ hourLog s.store, IsToday s.store s.vars.timeinfo ∧ r.1.toNat < s.vars.timeinfo.tmHour

/-- The day of `timeinfo` is open, and it fits. -/
structure Ready (s : OnlineShared) : Prop extends Fits s where
  today : IsToday s.store s.vars.timeinfo

theorem Undisturbed.fits {s t : OnlineShared} (ht : Undisturbed s t) (h : Fits s) : Fits t := by
  refine ⟨ht.logInv h.log, ?_⟩
  rw [ht.store, ht.timeinfo]
  exact h.fits

theorem Undisturbed.ready {s t : OnlineShared} (ht : Undisturbed s t) (h : Ready s) : Ready t := by
  refine ⟨ht.fits h.toFits, ?_⟩
  rw [ht.store, ht.timeinfo]
  exact h.today

/-- An empty log fits. -/
theorem fits_of_empty {s : OnlineShared} (h : LogInv s) (hlog : hourLog s.store = []) : Fits s := by
  refine ⟨h, fun r hr => ?_⟩
  rw [hlog] at hr
  cases hr

/-- A log is empty at no other head. -/
theorem head_of_hourLog_eq_nil {m : Eeprom} (h : hourLog m = []) : m eepromHourHeadPtr = 255 := by
  have hlen : hourLen m = 0 := by rw [← length_hourLog, h, List.length_nil]
  unfold hourLen at hlen
  have hlt := (m eepromHourHeadPtr).toNat_lt
  simp only [UInt8.toNat_add, UInt8.toNat_one] at hlen
  apply UInt8.toNat_inj.1
  show _ = 255
  omega

/-! ## The updates -/

namespace Perioder

variable {s : OnlineShared} {J : OnlineShared → Prop}

/-- The test of the day. -/
theorem safe_isLastDateDataToday :
    (aloneRules J).Safe (fun b t => b = decide (IsToday s.store s.vars.timeinfo) ∧ Undisturbed s t)
      isLastDateDataToday s := by
  have hfalse : ∀ {t}, Undisturbed s t → ¬ IsToday s.store s.vars.timeinfo →
      (aloneRules J).Safe
        (fun b t => b = decide (IsToday s.store s.vars.timeinfo) ∧ Undisturbed s t)
        (Pure.pure false : OnlineTask Bool) t := fun ht hno u hu =>
    ⟨by simp [hno], ht.trans hu⟩
  intro t₁ h₁ _
  show Rules.Safe _ _ (if (t₁.store eepromDateHeadPtr).toNat < eepromDateRecordNum then _ else _) t₁
  rw [h₁.store]
  by_cases hptr : (s.store eepromDateHeadPtr).toNat < eepromDateRecordNum
  swap
  · rw [if_neg hptr]
    exact hfalse h₁ fun h => hptr h.1
  rw [if_pos hptr]
  intro t₂ h₂ _ t₃ h₃
  have hs₂ := h₁.trans h₂
  have hs₃ := hs₂.trans h₃
  show Rules.Safe _ _ (if t₃.vars.timeinfo.tmYear = (t₂.store _).toNat then _ else _) t₃
  rw [hs₂.store, hs₃.timeinfo]
  by_cases hyear : s.vars.timeinfo.tmYear =
      (s.store (eepromDateDataPtr + (s.store eepromDateHeadPtr).toNat * 5)).toNat
  swap
  · rw [if_neg hyear]
    exact hfalse hs₃ fun h => hyear h.2.1
  rw [if_pos hyear]
  intro t₄ h₄ _ t₅ h₅
  have hs₄ := hs₃.trans h₄
  have hs₅ := hs₄.trans h₅
  show Rules.Safe _ _ (if t₅.vars.timeinfo.tmMon = (t₄.store _).toNat then _ else _) t₅
  rw [hs₄.store, hs₅.timeinfo]
  by_cases hmon : s.vars.timeinfo.tmMon =
      (s.store (eepromDateDataPtr + (s.store eepromDateHeadPtr).toNat * 5 + 1)).toNat
  swap
  · rw [if_neg hmon]
    exact hfalse hs₅ fun h => hmon h.2.2.1
  rw [if_pos hmon]
  intro t₆ h₆ _ t₇ h₇ t₈ h₈
  have hs₆ := hs₅.trans h₆
  have hs₇ := hs₆.trans h₇
  refine ⟨?_, hs₇.trans h₈⟩
  show decide (t₇.vars.timeinfo.tmMday = (t₆.store _).toNat) = _
  rw [hs₆.store, hs₇.timeinfo]
  simp [IsToday, hptr, hyear, hmon]

/-- An average is stored. -/
theorem safe_storeAverage (h : LogInv s) (avg : Nat) :
    (aloneRules LogInv).Safe (fun _ t => LogInv t) (storeAverage avg) s := by
  refine Rules.Safe.bind (safe_reads (fun _ => trivial) rfl fun t ht => ?_)
  have hlog := ht.logInv h
  rw [← ht.store]
  refine Rules.safe_inTask Undisturbed.store rfl (putsSafe_unread hlog ?_ fun u _ hu => hu)
  intro w hw
  rcases List.mem_cons.1 hw with rfl | hw
  · exact unread_average hlog.valid le_rfl (by simp only []; omega)
  · rw [List.mem_singleton.1 hw]
    exact unread_average hlog.valid (by simp only []; omega) (by simp only []; omega)

/-- The hour log is emptied. -/
theorem safe_emptyHours (h : LogInv s) :
    (aloneRules LogInv).Safe (fun _ t => LogInv t ∧ t.store eepromHourHeadPtr = 255 ∧
      t.vars.timeinfo = s.vars.timeinfo) (warehouse (updateRecordedHourPtr 255)) s := by
  intro t ht
  have hput : LogInv (t.put .elsewhere eepromHourHeadPtr 255) := (ht.logInv h).put_empty
  refine ⟨trivial, hput, fun u hu => ⟨hu.logInv hput, ?_, ?_⟩⟩
  · rw [hu.store, Shared.store_put, Function.update_self]
  · rw [hu.timeinfo, Shared.vars_put, ht.timeinfo]

/-- A date is recorded, when the hour log is empty. -/
theorem safe_appendToday (h : LogInv s) (h255 : s.store eepromHourHeadPtr = 255) :
    (aloneRules LogInv).Safe (fun _ t => Ready t) appendToday s := by
  refine safe_look fun t ht => ?_
  have hlog := ht.logInv h
  have h255t : t.store eepromHourHeadPtr = 255 := by rw [ht.store, h255]
  refine Rules.safe_inTask Undisturbed.store rfl ?_
  obtain ⟨ws, hws⟩ : ∃ ws, ws = dateSlotWrites (designatedDatePtr (t.store eepromDateHeadPtr)).toNat
    (UInt8.ofNat t.vars.timeinfo.tmYear) (UInt8.ofNat t.vars.timeinfo.tmMon)
    (UInt8.ofNat t.vars.timeinfo.tmMday) 0 := ⟨_, rfl⟩
  have hcells : ∀ w ∈ ws, Unread t.store w.1 := by
    intro w hw
    rw [hws] at hw
    obtain ⟨hlo, hhi⟩ := addr_of_mem_dateSlotWrites hw
    exact unread_dateSlot hlog.valid hlo hhi
  show (aloneRules LogInv).PutsSafe _ _ (todayWrites t.store t.vars.timeinfo) t
  have htoday : IsToday (Prog.putAll t.store (todayWrites t.store t.vars.timeinfo))
      t.vars.timeinfo := isToday_appendToday hlog.valid _
  rw [show todayWrites t.store t.vars.timeinfo = ws ++ [(eepromDateHeadPtr,
    designatedDatePtr (t.store eepromDateHeadPtr))] by rw [hws]; rfl] at htoday ⊢
  refine Rules.PutsSafe.append (putsSafe_unread hlog hcells fun u hu hlogu v hv => ?_)
  -- the slot is written, and the head is next
  have hv' := hu.trans hv
  have hkeep : ∀ x, (∀ w ∈ ws, w.1 ≠ x) → v.store x = t.store x := by
    intro x hx
    rw [hv'.store, Shared.store_putAll, Prog.putAll_of_notMem hx]
  have hhead : v.store eepromDateHeadPtr = t.store eepromDateHeadPtr :=
    hkeep _ fun w hw => (hcells w hw).dateHead
  have hhour : v.store eepromHourHeadPtr = 255 :=
    (hkeep _ fun w hw => (hcells w hw).hourHead).trans h255t
  have hput : LogInv (v.put .elsewhere eepromDateHeadPtr
      (designatedDatePtr (v.store eepromDateHeadPtr))) := (hv.logInv hlogu).put_date hhour
  rw [hhead] at hput
  refine ⟨trivial, hput, fun w hw => hw.ready ⟨fits_of_empty hput (hourLog_of_empty ?_), ?_⟩⟩
  · have hne : eepromHourHeadPtr ≠ eepromDateHeadPtr := by decide
    rw [Shared.store_put, Function.update_of_ne hne, hhour]
  · rw [Shared.store_put, Shared.vars_put, hv'.timeinfo, hv'.store, Shared.store_putAll,
      Shared.vars_putAll]
    rw [Prog.putAll_append] at htoday
    exact htoday

/-- The test in front of the loop leaves things alone. -/
theorem safe_dayIsOver : (aloneRules J).Safe (fun _ t => Undisturbed s t) dayIsOver s := by
  refine Rules.Safe.bind (safe_reads readsOnly_getDateDataLength (eval_getDateDataLength _)
    fun t ht => ?_)
  by_cases hlen : dateLen s.store > 0
  · rw [if_pos hlen]
    refine Rules.Safe.bind (safe_isLastDateDataToday.mono fun b u hu v hv => ?_)
    exact (ht.trans hu.2).trans hv
  · rw [if_neg hlen]
    exact fun u hu => ht.trans hu

/-- The clock is read. -/
theorem safe_getTime (h : LogInv s) :
    (aloneRules LogInv).Safe (fun _ t => LogInv t ∧ t.store = s.store) getTime s := by
  intro t ht
  have hset : LogInv (t.setVars fun v => { v with timeinfo := v.clock }) :=
    (ht.logInv h).of_same rfl rfl
  exact ⟨hset, fun u hu => ⟨hu.logInv hset, hu.store.trans ht.store⟩⟩

theorem safe_closeDay (h : LogInv s) :
    (aloneRules LogInv).Safe (fun _ t => LogInv t) closeDay s := by
  refine Rules.Safe.bind (safe_reads readsOnly_sumHourData (eval_sumHourData _) fun t ht => ?_)
  refine Rules.Safe.bind ((safe_storeAverage (ht.logInv h) _).mono fun _ u hu => ?_)
  refine Rules.Safe.bind ((safe_emptyHours hu).mono fun _ v hv => ?_)
  refine Rules.Safe.bind ((safe_getTime hv.1).mono fun _ w hw => ?_)
  refine (safe_appendToday hw.1 ?_).mono fun _ _ hready => hready.log
  rw [hw.2]
  exact hv.2.1

/-- **What a task does in front of its loop.** -/
theorem safe_onlineStart (h : LogInv s) :
    (aloneRules LogInv).Safe (fun _ t => LogInv t) onlineStart s := by
  refine Rules.Safe.bind (safe_dayIsOver.mono fun ended t ht => ?_)
  have hclose : (aloneRules LogInv).Safe (fun _ u => LogInv u)
      (if ended then closeDay else pure () : OnlineTask Unit) t := by
    cases ended with
    | true => exact safe_closeDay (ht.logInv h)
    | false => exact fun u hu => hu.logInv (ht.logInv h)
  refine Rules.Safe.bind (hclose.mono fun _ u hu => ?_)
  obtain ⟨previousHr, heval⟩ := eval_recordedHour u.store
  refine Rules.Safe.bind (safe_reads readsOnly_recordedHour heval fun v hv w hw => ?_)
  exact hw.logInv (hv.logInv hu)

/-- The day is opened. -/
theorem safe_openDay (h : LogInv s) (hfits : s.vars.timeinfo.tmHour ≠ 0 → Fits s) :
    (aloneRules LogInv).Safe (fun _ t => Ready t) openDay s := by
  refine safe_look fun t ht => ?_
  have hreset : (aloneRules LogInv).Safe (fun _ u => Fits u)
      (if t.vars.timeinfo.tmHour = 0 then warehouse (updateRecordedHourPtr 255) else pure ()) t := by
    by_cases h0 : t.vars.timeinfo.tmHour = 0
    · rw [if_pos h0]
      exact (safe_emptyHours (ht.logInv h)).mono fun _ u hu =>
        fits_of_empty hu.1 (hourLog_of_empty hu.2.1)
    · rw [if_neg h0]
      rw [ht.timeinfo] at h0
      exact fun u hu => hu.fits (ht.fits (hfits h0))
  refine Rules.Safe.bind (hreset.mono fun _ u hu => ?_)
  refine Rules.Safe.bind (safe_isLastDateDataToday.mono fun today v hv => ?_)
  obtain ⟨rfl, hv⟩ := hv
  have hfit := hv.fits hu
  by_cases htoday : IsToday u.store u.vars.timeinfo
  · rw [decide_eq_true htoday, if_pos rfl]
    refine fun w hw => hw.ready ⟨hfit, ?_⟩
    rw [hv.store, hv.timeinfo]
    exact htoday
  · rw [decide_eq_false htoday, if_neg Bool.false_ne_true]
    refine safe_appendToday hfit.log ?_
    apply head_of_hourLog_eq_nil
    by_contra hne
    obtain ⟨r, hr⟩ := List.exists_mem_of_ne_nil _ hne
    obtain ⟨hday, -⟩ := hfit.fits r hr
    rw [hv.store, hv.timeinfo] at hday
    exact htoday hday

/-- **The hour is recorded**, on an open day that it fits. -/
theorem safe_append (h : Ready s) (current : UInt16) :
    (aloneRules LogInv).Safe (fun _ t => LogInv t)
      ((appendHourlyRecord (UInt8.ofNat s.vars.timeinfo.tmHour) current).inTask
        (.hourly s.vars.timeinfo) : OnlineTask Unit) s := by
  obtain ⟨now, hnow⟩ : ∃ now, now = s.vars.timeinfo := ⟨_, rfl⟩
  rw [← hnow]
  have hlater : ∀ r ∈ hourLog s.store, r.1.toNat < now.tmHour := fun r hr => by
    rw [hnow]
    exact (h.fits r hr).2
  have hne := h.log.ne_last now.hour_lt hlater
  refine Rules.safe_inTask Undisturbed.store (eval_appendHourlyRecord ..) ?_
  rw [writes_appendHourlyRecord]
  obtain ⟨ws, hws⟩ : ∃ ws, ws = hourSlotWrites (hourLen s.store) (UInt8.ofNat now.tmHour) current :=
    ⟨_, rfl⟩
  have hcells : ∀ w ∈ ws, Unread s.store w.1 := by
    intro w hw
    rw [hws] at hw
    obtain ⟨hlo, hhi⟩ := addr_of_mem_hourSlotWrites hw
    exact unread_hourSlot h.log.valid hne hlo hhi
  show (aloneRules LogInv).PutsSafe _ _ (hourSlotWrites (hourLen s.store) _ current ++
    (eepromHourHeadPtr, s.store eepromHourHeadPtr + 1) :: cycleWrites s.store) s
  rw [← hws]
  refine Rules.PutsSafe.append (putsSafe_unread h.log hcells fun u hu hlogu v hv => ?_)
  -- the slot is written, and the head is next
  have hv' := hu.trans hv
  have hkeep : ∀ x, (∀ w ∈ ws, w.1 ≠ x) → v.store x = s.store x := by
    intro x hx
    rw [hv'.store, Shared.store_putAll, Prog.putAll_of_notMem hx]
  have hhead : v.store eepromHourHeadPtr = s.store eepromHourHeadPtr :=
    hkeep _ fun w hw => (hcells w hw).hourHead
  have hlog : hourLog v.store = hourLog s.store := by
    rw [hv'.store, Shared.store_putAll, Unread.hourLog_putAll hcells]
  have hlen : hourLen v.store = hourLen s.store := by
    rw [← length_hourLog, hlog, length_hourLog]
  have hrecord : hourRecord v.store (hourLen v.store) = (UInt8.ofNat now.tmHour, current) := by
    rw [hlen, hv'.store, Shared.store_putAll, hws]
    exact hourRecord_putAll ..
  have hat : WrittenAt v (hourLen v.store) now := by
    unfold WrittenAt
    rw [hlen, hv'.author]
    refine Shared.author_putAll_of_mem ⟨(_, UInt8.ofNat now.tmHour), ?_, rfl⟩
    rw [hws]
    exact List.mem_cons_self ..
  have htoday : IsToday v.store now := by
    rw [hv'.store, Shared.store_putAll, Unread.isToday_putAll hcells, hnow]
    exact h.today
  have hput : LogInv (v.put (.hourly now) eepromHourHeadPtr (v.store eepromHourHeadPtr + 1)) := by
    apply (hv.logInv hlogu).put_hour _ hrecord hat htoday
    · rw [hlog]
      exact hlater
    · rw [hhead]
      exact hne
  rw [hhead] at hput
  refine ⟨trivial, hput, putsSafe_unread hput (fun w hw => ?_) fun _ _ hlast => hlast⟩
  exact unread_cycle (addr_of_mem_cycleWrites hw)

theorem safe_appendHour (h : Ready s) :
    (aloneRules LogInv).Safe (fun _ t => LogInv t) appendHour s := by
  refine safe_look fun t ht => ?_
  have hready := ht.ready h
  have hhold : (aloneRules LogInv).Safe (fun _ u => Ready u)
      (if t.vars.avgSysCurrentCount = 0 then
        Task.modify fun w => { w with avgSystemCurrent := w.sumCurrent }
      else pure () : OnlineTask Unit) t := by
    by_cases h0 : t.vars.avgSysCurrentCount = 0
    · rw [if_pos h0]
      intro u hu
      have hset : Ready (u.setVars fun w => { w with avgSystemCurrent := w.sumCurrent }) :=
        Undisturbed.ready (s := u) ⟨rfl, rfl, rfl⟩ (hu.ready hready)
      exact ⟨hset.log, fun v hv => hv.ready hset⟩
    · rw [if_neg h0]
      exact fun u hu => hu.ready hready
  refine Rules.Safe.bind (hhold.mono fun _ u hu => safe_look fun v hv => ?_)
  exact safe_append (hv.ready hu) v.vars.avgSystemCurrent

theorem safe_closeHours (h : LogInv s) :
    (aloneRules LogInv).Safe (fun _ t => LogInv t) closeHours s := by
  refine Rules.Safe.bind (safe_reads readsOnly_sumHourData (eval_sumHourData _) fun t ht => ?_)
  refine Rules.Safe.bind (safe_reads (fun _ => trivial) (eval_getHourDataLength _) fun u hu => ?_)
  by_cases h0 : hourLen t.store = 0
  · rw [if_pos h0]
    trivial
  · rw [if_neg h0]
    exact safe_storeAverage (hu.logInv (ht.logInv h)) _

/-- **A pass that records an hour.** -/
theorem safe_recordHour (h : LogInv s) (hfits : s.vars.timeinfo.tmHour ≠ 0 → Fits s) :
    (aloneRules LogInv).Safe (fun _ t => LogInv t) recordHour s := by
  have hset : ∀ {t u : OnlineShared} (g : OnlineVars → OnlineVars), LogInv t → Undisturbed t u →
      LogInv (u.setVars g) := fun g ht hu => (hu.logInv ht).of_same rfl rfl
  refine Rules.Safe.bind ((safe_openDay h hfits).mono fun _ t ht => ?_)
  refine Rules.Safe.bind ((safe_appendHour ht).mono fun _ u hu => ?_)
  refine safe_change fun v hv => ⟨hset _ hu hv, ?_⟩
  refine safe_change fun w hw => ⟨hset _ (hset _ hu hv) hw, ?_⟩
  have hw' := hset (fun w => { w with avgSysCurrentCount := 0 }) (hset _ hu hv) hw
  refine safe_look fun x hx => ?_
  have hclose : (aloneRules LogInv).Safe (fun _ y => LogInv y)
      (if x.vars.timeinfo.tmHour = 23 then closeHours else pure () : OnlineTask Unit) x := by
    by_cases h23 : x.vars.timeinfo.tmHour = 23
    · rw [if_pos h23]
      exact safe_closeHours (hx.logInv hw')
    · rw [if_neg h23]
      exact fun y hy => hy.logInv (hx.logInv hw')
  refine Rules.Safe.bind (hclose.mono fun _ y hy => safe_look fun z hz => ?_)
  exact Rules.Safe.bind ((safe_getTime (hz.logInv hy)).mono fun _ a ha b hb => hb.logInv ha.1)

/-- A log with the record of one hour of the last date. -/
theorem logInv_dataCleared {m : Eeprom} {now : Tm} {current : UInt16}
    (hstore : s.store = dataCleared m now current) (hat : WrittenAt s 0 now) : LogInv s := by
  have hlog : hourLog s.store = [(UInt8.ofNat now.tmHour, current)] := by
    rw [hstore, hourLog_dataCleared]
  refine ⟨?_, fun i r hr => ?_, ?_⟩
  · rw [hstore]
    exact logsValid_dataCleared ..
  · rw [hlog] at hr
    rcases LogInv.getElem?_concat_cases (l := []) hr with hr | ⟨rfl, rfl⟩
    · cases hr
    refine ⟨now, hat, toNat_tmHour now, ?_⟩
    rw [hstore]
    exact isToday_dataCleared ..
  · rw [hlog]
    exact List.pairwise_singleton ..

/-- A program that need not keep anything makes its writes. -/
theorem safe_writes {α : Type} {q : EepromProg α} {a : α} {m : Eeprom} {part : Part}
    (heval : q.eval s.store = .ok (a, m)) :
    (aloneRules fun _ => True).Safe (fun _ t => Undisturbed (s.putAll part (q.writes s.store)) t)
      (q.inTask part : OnlineTask α) s :=
  Rules.safe_inTask Undisturbed.store heval (putsSafe_any fun _ ht => ht)

/-- **A clear** leaves a right log, whatever there was before. -/
theorem safe_clearWarehouseData :
    (aloneRules fun _ => True).Safe (fun _ t => LogInv t) clearWarehouseData s := by
  have haddr := eeprom_addresses
  refine Rules.Safe.bind ((safe_writes (eval_formatZero _ false)).mono fun _ t ht => ?_)
  refine safe_look fun u hu => safe_look fun v hv => ?_
  obtain ⟨now, hnow⟩ : ∃ now, now = u.vars.clock := ⟨_, rfl⟩
  rw [← hnow]
  have hformat : v.store = Prog.putAll s.store (formatWrites false) := by
    rw [((ht.trans hu).trans hv).store, Shared.store_putAll, writes_formatZero]
  refine Rules.Safe.bind ((safe_writes (eval_appendHourlyRecord ..)).mono fun _ w hw => ?_)
  rw [writes_appendHourlyRecord] at hw
  have hhour : w.store = hourAppended v.store now v.vars.sumCurrent := by
    rw [hw.store, Shared.store_putAll]
    rfl
  have hat : WrittenAt w 0 now := by
    unfold WrittenAt
    rw [hw.author, hformat]
    refine Shared.author_putAll_of_mem
      ⟨(eepromHourDataPtr + 0 * 3, UInt8.ofNat now.tmHour), ?_, rfl⟩
    have hslot : (Prog.putAll s.store (formatWrites false) eepromHourHeadPtr + 1).toNat = 0 :=
      hourLen_format s.store false
    unfold hourWrites
    rw [hslot]
    exact List.mem_append_left _ (List.mem_cons_self ..)
  refine Rules.Safe.bind ((safe_writes (eval_appendDateRecord ..)).mono fun _ x hx y hy => ?_)
  rw [writes_appendDateRecord] at hx
  have hcleared : x.store = dataCleared s.store now v.vars.sumCurrent := by
    rw [hx.store, Shared.store_putAll, hhour, hformat]
    rfl
  refine hy.logInv (logInv_dataCleared hcleared ?_)
  unfold WrittenAt
  rw [hx.author, Shared.author_putAll_of_notMem]
  · exact hat
  · intro z hz
    rcases List.mem_append.1 hz with hz | hz
    · obtain ⟨hlo, -⟩ := addr_of_mem_dateSlotWrites hz
      omega
    · rw [List.mem_singleton.1 hz]
      show eepromDateHeadPtr ≠ eepromHourDataPtr + 0 * 3
      decide

end Perioder

end NinaHomekit
