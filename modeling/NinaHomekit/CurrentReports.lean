import NinaHomekit.CommandHandler.Mcub
import NinaHomekit.Control
import NinaHomekit.Overload
import NinaHomekit.TableIndex

/-!
# The numbers of a current report

A report stores a current, adds up the linked modules, runs the overload check and divides
the headroom by the number of modules.  The sum is an `int` in the handler and 16 bits wide
where it is stored.

* `culpritNamed_reports` — **the MCUB rule names the module that tips the sum.**
* `popVictim_of_turnOff` — **POP turns off the last of the modules with the largest priority.**
* `sumKept_iff` — **the stored sum is the true one exactly if it fits 16 bits.**
* `quotientOk_iff` — **the MCUB is a quotient by a number other than zero exactly if a module
  is linked.**
-/

namespace NinaHomekit

open Trace State

namespace State

variable {s t : State} {addr : UInt8} {value : UInt16}

/-! ## The whole report -/

theorem StoredCurrent.linkedSum {u : State} (h : StoredCurrent s u addr value) :
    u.linkedSum = reportedSum s addr value := by
  rw [State.linkedSum, linked_of_slots h.moduleNum h.slots, reportedSum]

/-- A report of a linked module. -/
theorem updateCurrent_of_linked (now : UInt32) (value : UInt16) (h : Linked s addr) :
    ∃ u v trip, s.storeCurrent addr value = .ok (u, u.linkedSum) ∧
      StoredCurrent s u addr value ∧ u.overloadProtectionCheck now = .ok v ∧ Checked u v trip ∧
      s.updateCurrent now addr value = .ok { v with
        smfStatus := { v.smfStatus with
          mcub := UInt16.ofInt (mcubOf (reportedSum s addr value) s.moduleNum) }
        queue := v.queue ++
          [mcubMsg (UInt16.ofInt (mcubOf (reportedSum s addr value) s.moduleNum))] } := by
  have hlt := h.toNat_sub_one_lt
  obtain ⟨h1, hnum, h20⟩ := h
  obtain ⟨u, v, trip, hstore, hu, hcheck, hv, hok⟩ :=
    updateCurrent_of_bounds now value (show (addr - 1).toNat < maxModuleNum by omega) (by omega) h20
  rw [hu.linkedSum] at hok
  exact ⟨u, v, trip, hstore, hu, hcheck, hv, hok⟩

/-- Without POP the check turns off the module that was named. -/
theorem turnOff_of_noPop {now : UInt32} (hpop : s.smfStatus.enablePop = 0)
    (h : s.overloadProtectionCheck now = .ok t) :
    ∃ msgs, t.queue = s.queue ++ msgs ∧
      ∀ m ∈ msgs, isDoModule m → m = turnOff s.smfStatus.overloadTriggeredAddr := by
  by_cases hsum : s.systemStatus.sumCurrent.toNat ≤ maxCurrent
  · rw [overloadProtectionCheck_of_le now hsum] at h
    cases h
    exact ⟨[], by simp, by simp⟩
  · cases he : s.emergTriggered with
    | false =>
      unfold overloadProtectionCheck at h
      rw [if_pos (Nat.not_le.1 hsum), if_pos (by simp [he])] at h
      simp only [if_neg (not_not.2 hpop)] at h
      cases h
      exact ⟨[turnOff s.smfStatus.overloadTriggeredAddr], rfl, by simp⟩
    | true =>
      obtain ⟨msgs, last, hmsgs, hok⟩ := overloadProtectionCheck_of_latched now (Nat.not_le.1 hsum) he
      rw [hok] at h
      cases h
      refine ⟨msgs, rfl, fun m hm hdo => ?_⟩
      rw [hmsgs m hm] at hdo
      cases hdo

end State

/-! ## The module that tips the sum -/

variable {s t : State} {e : Event}

theorem sum_map_modify {α : Type} (g : α → Nat) (f : α → α) {l : List α} {i : Nat} {a : α}
    (h : l[i]? = some a) :
    ((l.modify i f).map g).sum + g a = (l.map g).sum + g (f a) := by
  induction l generalizing i with
  | nil => simp at h
  | cons b l ih =>
    cases i with
    | zero =>
      cases h
      simp
      omega
    | succ i =>
      have := ih (i := i) (by simpa using h)
      simp only [List.modify_succ_cons, List.map_cons, List.sum_cons]
      omega

/-- What a report adds to the sum. -/
theorem reportedSum_add {addr : UInt8} {m : ModuleT} (value : UInt16)
    (h : s.linked[(addr - 1).toNat]? = some m) :
    reportedSum s addr value + m.current.toNat = s.linkedSum + value.toNat :=
  sum_map_modify (fun m => m.current.toNat) (fun m => { m with current := value }) h

theorem Linked.getElem?_linked {addr : UInt8} (h : Linked s addr) :
    ∃ m, s.linked[(addr - 1).toNat]? = some m ∧ s.getModule (addr - 1) = .ok m := by
  have hlt := h.toNat_sub_one_lt
  obtain ⟨-, -, h20⟩ := h
  have hlen : (addr - 1).toNat < s.linked.length := by rwa [length_linked h20]
  refine ⟨_, List.getElem?_eq_getElem hlen, ?_⟩
  rw [getModule_eq_ok, ← List.getElem?_eq_getElem hlen, linked, List.getElem?_take, if_pos hlt]

/-- A `MODULE_CURRENT` report. -/
structure Report where
  now : UInt32
  addr : UInt8
  lo : UInt8
  hi : UInt8

def Report.event (r : Report) : Event := currentReport r.now r.addr r.lo r.hi

/-- Modules are linked that draw nothing, as `addModule` leaves them. -/
structure Idle (s : State) : Prop where
  one_le : 1 ≤ s.moduleNum
  num_le : s.moduleNum ≤ maxModuleNum
  currents : ∀ m ∈ s.linked, m.current = 0
  mcub_le : s.smfStatus.mcub.toNat ≤ maxCurrent

/-- A report that takes the true sum over the limit passes the MCUB test, its module is the
one that is named when the check runs, and without POP every turn-off is for it. -/
def CulpritNamed (s : State) (e : Event) : Prop :=
  ∀ now addr lo hi, e = currentReport now addr lo hi → s.linkedSum ≤ maxCurrent →
    maxCurrent < reportedSum s addr (reportValue lo hi) →
      s.PassesMcub addr (reportValue lo hi) ∧
      (∃ u sum, s.storeCurrent addr (reportValue lo hi) = .ok (u, sum) ∧
        u.smfStatus.overloadTriggeredAddr = addr) ∧
      (s.smfStatus.enablePop = 0 → ∀ t, step s e = .ok t →
        ∀ m ∈ t.queue.drop s.queue.length, isDoModule m → m = turnOff addr)

/-- Below the limit, the MCUB is at most what the sum leaves of it. -/
structure Headroom (n : Nat) (s : State) : Prop where
  num_eq : s.moduleNum = n
  num_le : n ≤ maxModuleNum
  mcub_le : s.linkedSum ≤ maxCurrent → s.smfStatus.mcub.toNat ≤ maxCurrent - s.linkedSum

theorem Idle.headroom (h : Idle s) : Headroom s.moduleNum s := by
  refine ⟨rfl, h.num_le, fun _ => ?_⟩
  have hzero : s.linkedSum = 0 := by
    unfold linkedSum
    rw [List.sum_eq_zero_iff]
    intro n hn
    obtain ⟨m, hm, rfl⟩ := List.mem_map.1 hn
    rw [h.currents m hm]
    rfl
  rw [hzero]
  exact h.mcub_le

/-- **The step lemma.**  A report of a linked module keeps the MCUB within the headroom. -/
theorem Headroom.step {n : Nat} (hI : Headroom n s) (now : UInt32) {addr : UInt8} (lo hi : UInt8)
    (haddr : 1 ≤ addr.toNat ∧ addr.toNat ≤ n) :
    ∃ t, NinaHomekit.step s (currentReport now addr lo hi) = .ok t ∧ Headroom n t := by
  have hlinked : Linked s addr := ⟨haddr.1, hI.num_eq ▸ haddr.2, hI.num_eq ▸ hI.num_le⟩
  obtain ⟨u, v, trip, -, hu, -, hv, hok⟩ := updateCurrent_of_linked now (reportValue lo hi) hlinked
  obtain ⟨a, last, rfl⟩ := hv.eq
  refine ⟨_, hok, hu.moduleNum.trans hI.num_eq, hI.num_le, fun _ => ?_⟩
  change _ ≤ maxCurrent - u.linkedSum
  rw [hu.linkedSum]
  exact toNat_mcubOf _ _

/-- With the MCUB within the headroom, a report that tips the sum names its module. -/
theorem Headroom.culpritNamed {n : Nat} (hI : Headroom n s) (now : UInt32) {addr : UInt8}
    (lo hi : UInt8) (haddr : 1 ≤ addr.toNat ∧ addr.toNat ≤ n) :
    CulpritNamed s (currentReport now addr lo hi) := by
  rintro now' addr' lo' hi' heq hle hlt
  cases heq
  have hlinked : Linked s addr := ⟨haddr.1, hI.num_eq ▸ haddr.2, hI.num_eq ▸ hI.num_le⟩
  obtain ⟨m, hm, hget⟩ := hlinked.getElem?_linked
  have hpass : s.PassesMcub addr (reportValue lo hi) := by
    have hadd := reportedSum_add (reportValue lo hi) hm
    have hmcub := hI.mcub_le hle
    -- the sum rises by more than the headroom, so the report does by more than the MCUB
    exact ⟨m, hget, by omega⟩
  obtain ⟨u, v, trip, hstore, hu, hcheck, -, hok⟩ :=
    updateCurrent_of_linked now (reportValue lo hi) hlinked
  have hculprit := hu.culprit hpass
  refine ⟨hpass, ⟨u, _, hstore, hculprit⟩, fun hpop t ht m hm hdo => ?_⟩
  rw [step_currentReport, hok] at ht
  cases ht
  obtain ⟨modules, a, heq⟩ := hu.eq
  have hpop' : u.smfStatus.enablePop = 0 := by rw [heq]; exact hpop
  have hqueue : u.queue = s.queue := by rw [heq]
  obtain ⟨msgs, hmsgs, honly⟩ := turnOff_of_noPop hpop' hcheck
  change m ∈ (v.queue ++ _).drop s.queue.length at hm
  rw [hmsgs, hqueue, List.append_assoc, List.drop_left] at hm
  rcases List.mem_append.1 hm with hm | hm
  · rw [← hculprit]
    exact honly m hm hdo
  · rw [List.mem_singleton.1 hm] at hdo
    cases hdo

/-- **The MCUB rule names the culprit**, whatever the linked modules report, from a state in
which they draw nothing: the reports are handled, and each one that takes the true sum over
the limit names its module. -/
theorem culpritNamed_reports (h : Idle s) (reports : List Report)
    (haddr : ∀ r ∈ reports, 1 ≤ r.addr.toNat ∧ r.addr.toNat ≤ s.moduleNum) :
    (∃ t, Trace.run step s (reports.map Report.event) = .ok t) ∧
      EachStep step CulpritNamed s (reports.map Report.event) := by
  have hstep : ∀ t e, Headroom s.moduleNum t → (∃ r ∈ reports, r.event = e) →
      CulpritNamed t e ∧ ∃ u, step t e = .ok u ∧ Headroom s.moduleNum u := by
    rintro t e hI ⟨r, hr, rfl⟩
    exact ⟨hI.culpritNamed r.now r.lo r.hi (haddr r hr), hI.step r.now r.lo r.hi (haddr r hr)⟩
  obtain ⟨⟨t, ht, -⟩, heach⟩ := exists_run_of_inv hstep h.headroom fun e he => List.mem_map.1 he
  exact ⟨⟨t, ht⟩, heach⟩

/-- Two modules are linked; the second draws 1000, then the first 1000 as well. -/
theorem culpritNamed_twoModules : ∃ s, Trace.run step State.bootDefault
      [.uart 0 (LinkFields.msg ⟨2, 2, [0x62], 0, true⟩),
        .uart 0 (LinkFields.msg ⟨2, 1, [0x61], 0, true⟩)] = .ok s ∧
      EachStep step CulpritNamed s [currentReport 0 2 0xE8 0x03, currentReport 0 1 0xE8 0x03] := by
  obtain ⟨s, hs, hcheck⟩ := exists_of_okAnd (x := Trace.run step State.bootDefault
      [.uart 0 (LinkFields.msg ⟨2, 2, [0x62], 0, true⟩),
        .uart 0 (LinkFields.msg ⟨2, 1, [0x61], 0, true⟩)])
    (p := fun s => s.moduleNum = 2 ∧ (∀ m ∈ s.linked, m.current = 0) ∧
      s.smfStatus.mcub.toNat ≤ maxCurrent) (by decide +kernel)
  obtain ⟨hnum, hcurrents, hmcub⟩ := of_decide_eq_true hcheck
  have hidle : Idle s := ⟨by omega, by rw [hnum]; decide, hcurrents, hmcub⟩
  have haddr : ∀ r ∈ [Report.mk 0 2 0xE8 0x03, Report.mk 0 1 0xE8 0x03],
      1 ≤ r.addr.toNat ∧ r.addr.toNat ≤ s.moduleNum := by
    rw [hnum]
    decide
  exact ⟨s, hs, (culpritNamed_reports hidle _ haddr).2⟩

/-! ## The victim of POP -/

/-- **POP turns off the right module.**  Whatever the table, the flags and the address left in
`overload_triggered_addr`: the check leaves the table alone, and a turn-off is its only message
and for the last of the linked modules that are on with the largest priority. -/
theorem popVictim_of_turnOff (now : UInt32) (hnum : s.moduleNum ≤ maxModuleNum)
    (hpop : s.smfStatus.enablePop ≠ 0) (hon : ∃ m ∈ s.linked, m.state = true) :
    ∃ t, s.overloadProtectionCheck now = .ok t ∧ t.modules = s.modules ∧
      ((∃ addr, turnOff addr ∈ t.queue.drop s.queue.length) →
        ∃ i m, s.linked[i]? = some m ∧ m.state = true ∧
          t.queue = s.queue ++ [turnOff (UInt8.ofNat (i + 1))] ∧
          ∀ j m', s.linked[j]? = some m' → m'.state = true →
            m'.priority.toNat ≤ m.priority.toNat ∧ (m'.priority = m.priority → j ≤ i)) := by
  obtain ⟨t, trip, ht, hcheck⟩ := overloadProtectionCheck_spec now hnum
  obtain ⟨a, last, rfl⟩ := hcheck.eq
  refine ⟨_, ht, rfl, ?_⟩
  rintro ⟨addr, hmem⟩
  simp only [List.drop_left] at hmem
  have hlt : maxCurrent < s.systemStatus.sumCurrent.toNat := by
    by_contra hle
    rw [hcheck.quiet (not_lt.1 hle)] at hmem
    cases hmem
  have hemerg : s.emergTriggered = false := by
    by_contra hne
    cases hcheck.latched (by simpa using hne) _ hmem
  obtain ⟨victim, hvictim, rfl⟩ := hcheck.armed hlt hemerg
  obtain ⟨i, m, hi, hm, rfl, hmax⟩ := hvictim hpop hon
  exact ⟨i, m, hi, hm, rfl, hmax⟩

/-- A strip of two modules that are on, with the same priority, and a sum that is too large; a
third slot is left over from a larger strip. -/
def overloadedStrip : State :=
  { State.bootDefault with
    modules := ((State.bootDefault.modules.set 0 ⟨none, 0, 7, 1000, true, none, none⟩).set 1
      ⟨none, 0, 7, 1000, true, none, none⟩).set 2 ⟨none, 0, 9, 0, true, none, none⟩
    systemStatus := ⟨2, 2000, true, true, false⟩
    smfStatus := ⟨0, 9, 1⟩ }

/-- A turn-off is queued, for one of the two modules. -/
theorem popVictim_overloadedStrip : ∃ t i m, overloadedStrip.overloadProtectionCheck 0 = .ok t ∧
    overloadedStrip.linked[i]? = some m ∧ t.queue = [turnOff (UInt8.ofNat (i + 1))] := by
  obtain ⟨t, ht, -, hvictim⟩ := popVictim_of_turnOff (s := overloadedStrip) 0 (by decide)
    (by decide) (by decide +kernel)
  obtain ⟨u, hu, hcheck⟩ := exists_of_okAnd (x := overloadedStrip.overloadProtectionCheck 0)
    (p := fun u => u.queue = [turnOff 2]) (by decide +kernel)
  rw [ht] at hu
  cases hu
  have hqueue : t.queue = [turnOff 2] := of_decide_eq_true hcheck
  obtain ⟨i, m, hi, -, hq, -⟩ := hvictim ⟨2, by rw [hqueue]; decide⟩
  exact ⟨t, i, m, ht, hi, hq⟩

/-! ## The stored sum -/

/-- After a report of a linked module the stored sum is the true one, and it is too large exactly
if the headroom the MCUB is computed from is negative. -/
def SumKept (s : State) (e : Event) : Prop :=
  ∀ now addr lo hi, e = currentReport now addr lo hi → Linked s addr →
    ∃ t, step s e = .ok t ∧ t.systemStatus.sumCurrent.toNat = t.linkedSum ∧
      (maxCurrent < t.systemStatus.sumCurrent.toNat ↔ (maxCurrent : Int) - t.linkedSum < 0)

/-- The true sum with the reported value in it fits 16 bits. -/
def SumFits (s : State) (e : Event) : Prop :=
  ∀ now addr lo hi, e = currentReport now addr lo hi → Linked s addr →
    reportedSum s addr (reportValue lo hi) < 65536

theorem State.CurrentUpdate.toNat_sumCurrent {addr : UInt8} {value : UInt16}
    {trip : List UartMsg} (h : CurrentUpdate s t addr value trip) :
    t.systemStatus.sumCurrent.toNat = reportedSum s addr value % 65536 := by
  rw [h.systemStatus, ← h.linkedSum_eq]
  exact UInt16.toNat_ofNat'

/-- The stored sum of one report. -/
theorem sumKept_iff_sumFits : SumKept s e ↔ SumFits s e := by
  refine forall_congr' fun now => forall_congr' fun addr => forall_congr' fun lo =>
    forall_congr' fun hi => forall_congr' fun he => forall_congr' fun hlinked => ?_
  subst he
  obtain ⟨t, trip, ht, hup⟩ := exists_currentUpdate now lo hi hlinked
  have hstored := hup.toNat_sumCurrent
  have hsum := hup.linkedSum_eq
  constructor
  · rintro ⟨u, hu, heq, -⟩
    rw [ht] at hu
    cases hu
    rw [hstored, hsum] at heq
    omega
  · intro hfits
    refine ⟨t, ht, ?_, ?_⟩
    · rw [hstored, hsum, Nat.mod_eq_of_lt hfits]
    · rw [hstored, hsum, Nat.mod_eq_of_lt hfits]
      omega

/-- **The stored sum is the true one exactly if the true one fits 16 bits**, at every report of
a linked module. -/
theorem sumKept_iff (s : State) (es : List Event) :
    EachStep step SumKept s es ↔ EachStep step SumFits s es :=
  eachStep_iff_of_inv (I := fun _ => True) (fun _ _ _ _ _ _ => trivial)
    (fun _ _ _ => sumKept_iff_sumFits) trivial

/-- Two modules draw 40000 and 25536: the stored sum is 0, and the headroom is negative. -/
theorem not_sumKept_wraps :
    ¬ EachStep step SumKept State.bootDefault
      [.uart 0 (LinkFields.msg ⟨2, 2, [0x62], 0, true⟩),
        .uart 0 (LinkFields.msg ⟨2, 1, [0x61], 0, true⟩), currentReport 0 2 0x40 0x9C,
        currentReport 0 1 0xC0 0x63] := by
  intro h
  obtain ⟨s, hs, hcheck⟩ := exists_of_okAnd (x := Trace.run step State.bootDefault
      [.uart 0 (LinkFields.msg ⟨2, 2, [0x62], 0, true⟩),
        .uart 0 (LinkFields.msg ⟨2, 1, [0x61], 0, true⟩), currentReport 0 2 0x40 0x9C])
    (p := fun s => s.moduleNum = 2 ∧ okAnd (step s (currentReport 0 1 0xC0 0x63)) (fun t =>
      t.systemStatus.sumCurrent = 0 ∧ t.linkedSum = 65536) = true) (by decide +kernel)
  obtain ⟨hnum, hcheck⟩ := of_decide_eq_true hcheck
  obtain ⟨t, ht, hcheck⟩ := exists_of_okAnd hcheck
  obtain ⟨hstored, hsum⟩ := of_decide_eq_true hcheck
  have hlinked : Linked s 1 := ⟨by decide, by rw [hnum]; decide, by rw [hnum]; decide⟩
  obtain ⟨u, hu, heq, -⟩ := h _ _ [] s rfl hs 0 1 0xC0 0x63 rfl hlinked
  rw [ht] at hu
  cases hu
  rw [hstored, hsum] at heq
  cases heq

/-! ## The quotient -/

/-- A report comes with a divisor other than zero, it does not divide by zero, and one that is
handled sends an MCUB of at most `MAX_CURRENT`. -/
def QuotientOk (s : State) (e : Event) : Prop :=
  ∀ now addr lo hi, e = currentReport now addr lo hi →
    s.moduleNum ≠ 0 ∧ step s e ≠ .error .divByZero ∧ ∀ t, step s e = .ok t →
      t.smfStatus.mcub.toNat ≤ maxCurrent ∧ t.queue.getLast? = some (mcubMsg t.smfStatus.mcub)

/-- How many modules were linked since they were last removed, or the firmware restarted. -/
def noteLinks (n : Nat) (s : State) : Event → Nat
  | .uart _ (.linkModule (some data)) =>
    match decodeLink data with
    | .ok m => if m.index + 1 = m.total then 1 else n + 1
    | .error _ => n
  | .live k => if s.LiveRemoves k then 0 else n
  | .restart _ _ => 0
  | _ => n

/-- A report comes when modules are linked: not a multiple of 256 of them. -/
def ModuleLinked (p : State × Nat) (e : Event) : Prop :=
  ∀ now addr lo hi, e = currentReport now addr lo hi → ¬ 256 ∣ p.2

/-- The number of modules is the number of links, modulo 256. -/
theorem numModules_noteLinks {n : Nat} (hn : s.systemStatus.numModules = UInt8.ofNat n)
    (h : step s e = .ok t) : t.systemStatus.numModules = UInt8.ofNat (noteLinks n s e) := by
  have hnum : t.systemStatus.numModules = (s.control.next s e).numModules :=
    congrArg Control.numModules (control_step h)
  rw [hnum]
  cases e with
  | uart now msg =>
    cases msg with
    | linkModule data =>
      cases data with
      | none => exact hn
      | some data =>
        cases hm : decodeLink data with
        | error f => simpa [Control.next, noteLinks, hm, State.control] using hn
        | ok m =>
          simp only [Control.next, noteLinks, hm, Control.link]
          split
          · rfl
          · change s.systemStatus.numModules + 1 = _
            rw [hn, UInt8.ofNat_add]
            rfl
    | _ => exact hn
  | live k =>
    by_cases hrem : s.LiveRemoves k
    · simp [Control.next, noteLinks, hrem]
    · simpa [Control.next, noteLinks, hrem, State.control] using hn
  | restart deviceName enablePop => rfl
  | _ => exact hn

/-- One report: it is fine exactly if a module is linked. -/
theorem quotientOk_iff_moduleNum : QuotientOk s e ↔
    ∀ now addr lo hi, e = currentReport now addr lo hi → s.moduleNum ≠ 0 := by
  refine forall_congr' fun now => forall_congr' fun addr => forall_congr' fun lo =>
    forall_congr' fun hi => forall_congr' fun he => ⟨And.left, fun hne => ⟨hne, ?_⟩⟩
  subst he
  rw [step_currentReport]
  by_cases hfault : OutOfBounds (s.updateCurrent now addr (reportValue lo hi))
  · obtain ⟨i, hi'⟩ := hfault
    rw [hi']
    exact ⟨by simp, by simp⟩
  · rw [outOfBounds_updateCurrent, not_or] at hfault
    obtain ⟨hslot, h20⟩ := hfault
    obtain ⟨u, hstore, hu⟩ := storeCurrent_spec (reportValue lo hi) (not_le.1 hslot) (not_lt.1 h20)
    obtain ⟨v, trip, hcheck, hv⟩ := overloadProtectionCheck_spec now (hu.moduleNum ▸ not_lt.1 h20)
    obtain ⟨a, last, heq⟩ := hv.eq
    -- nothing before the division changes the divisor
    have hvnum : v.moduleNum = s.moduleNum := by
      rw [heq]
      exact hu.moduleNum
    rw [updateCurrent_eq, hstore, ok_bind, hcheck, ok_bind, updateMcub_of_pos _ (hvnum ▸ hne)]
    refine ⟨by simp, fun t ht => ?_⟩
    cases ht
    exact ⟨(toNat_mcubOf _ _).trans (Nat.sub_le _ _), List.getLast?_concat⟩

/-- **The reports of a run divide by a number other than zero** exactly if modules are linked
when they come. -/
theorem quotientOk_iff (h : Booted s) (es : List Event) :
    EachStep step QuotientOk s es ↔ EachStep (noted step noteLinks) ModuleLinked (s, 0) es := by
  have hiff : EachStep (noted step noteLinks) (fun p e => QuotientOk p.1 e) (s, 0) es ↔
      EachStep (noted step noteLinks) ModuleLinked (s, 0) es := by
    refine eachStep_iff_of_inv
      (I := fun p : State × Nat => p.1.systemStatus.numModules = UInt8.ofNat p.2) ?_ ?_ ?_
    · rintro ⟨t, n⟩ e ⟨u, k⟩ hI - hu
      obtain ⟨hstep, rfl⟩ := noted_eq_ok.1 hu
      exact numModules_noteLinks hI hstep
    · rintro ⟨t, n⟩ e hI
      rw [quotientOk_iff_moduleNum]
      refine forall_congr' fun now => forall_congr' fun addr => forall_congr' fun lo =>
        forall_congr' fun hi => forall_congr' fun _ => not_congr ?_
      change t.systemStatus.numModules.toNat = 0 ↔ 256 ∣ n
      rw [hI, UInt8.toNat_ofNat', Nat.dvd_iff_mod_eq_zero]
    · obtain ⟨deviceName, enablePop, rfl⟩ := h
      rfl
  exact eachStep_noted.symm.trans hiff

/-- A link message, as a test. -/
def isLinkMessage : Event → Bool
  | .uart _ (.linkModule _) => true
  | _ => false

/-- A module is linked before it reports. -/
theorem quotientOk_onlyModule : EachStep step QuotientOk State.bootDefault
    [.uart 0 onlyModule.msg, currentReport 0 1 0xD0 0x07] := by
  refine (quotientOk_iff booted_bootDefault _).2 (eachStep_of_checkSteps
    (p := fun p e => p.2 = 1 || isLinkMessage e) (fun p e hcheck => ?_)
    (by decide +kernel))
  rintro now addr lo hi rfl
  have hone : p.2 = 1 := by simpa [currentReport, isLinkMessage] using hcheck
  rw [hone]
  decide

/-- A report comes before any module is linked. -/
theorem not_quotientOk_boot :
    ¬ EachStep step QuotientOk State.bootDefault [currentReport 0 1 0xD0 0x07] := by
  intro h
  have hlinked := quotientOk_iff_moduleNum.1 (eachStep_cons.1 h).1
  exact hlinked 0 1 0xD0 0x07 rfl rfl

end NinaHomekit
