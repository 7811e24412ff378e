import NinaHomekit.System

/-!
# Overload protection over whole runs

`overloadProtectionCheck` remembers in a static flag that it has turned a module off.  The
flag and the 16-bit copy of the sum are only written by current reports, while linking
and removing modules changes the currents they are about.

* `FuseInv` — the flag says whether the stored sum is too large; `FuseInv.step` keeps it
  along every event.
* `RespondsRight`, `TripCondition` — what a current report should queue, and when it does.
* `respondsRight_iff` — **the reports of a run respond right exactly when each one that
  crosses the limit arrives with a small stored sum and does not wrap.**
* `turnOff_iff_relieved` — **after a turn-off the next one waits for a report that leaves
  the sum small.**
-/

namespace NinaHomekit

open Trace State

namespace State

variable {s t : State}

/-! ## What leaves the fuse alone -/

/-- The stored sum, the flag and POP are the same. -/
structure SameFuse (s t : State) : Prop where
  sumCurrent : t.systemStatus.sumCurrent = s.systemStatus.sumCurrent
  emergTriggered : t.emergTriggered = s.emergTriggered

theorem SameFuse.trans {u : State} (h : SameFuse s t) (h' : SameFuse t u) : SameFuse s u :=
  ⟨h'.1.trans h.1, h'.2.trans h.2⟩

theorem sameFuse_linkStart (s : State) (m : LinkMsg) : SameFuse s (s.linkStart m) := by
  unfold linkStart
  split
  · unfold linkFirst
    rw [createAccessory_removeModules]
    exact ⟨rfl, rfl⟩
  · exact ⟨rfl, rfl⟩

theorem sameFuse_linkDecoded {m : LinkMsg} (h : s.linkDecoded m = .ok t) : SameFuse s t := by
  obtain ⟨u, hu, h⟩ := bind_eq_ok.1 h
  obtain ⟨-, nm, -, modules, -, rfl⟩ := addModule_eq_ok.1 hu
  refine (sameFuse_linkStart s m).trans ?_
  split at h
  · obtain ⟨-, modules, db, queue, clearTasks, -, rfl⟩ := linkLast_frame h
    exact ⟨rfl, rfl⟩
  · cases h
    exact ⟨rfl, rfl⟩

theorem sameFuse_linkModule {data : Option LinkData} (h : s.linkModule data = .ok t) :
    SameFuse s t := by
  cases data with
  | none =>
    cases h
    exact ⟨rfl, rfl⟩
  | some data =>
    obtain ⟨m, -, hm⟩ := linkModule_eq_ok.1 h
    exact sameFuse_linkDecoded hm

theorem sameFuse_setModuleSwitchState {index state : UInt8}
    (h : s.setModuleSwitchState index state = .ok t) : SameFuse s t := by
  obtain ⟨u, hu, h⟩ := bind_eq_ok.1 h
  obtain ⟨-, modules, -, rfl⟩ := modifyModule_eq_ok.1 hu
  obtain ⟨m, -, h⟩ := bind_eq_ok.1 h
  cases h
  exact ⟨rfl, rfl⟩

theorem sameFuse_liveCheck {k : Nat} (h : s.liveCheck k = .ok t) : SameFuse s t := by
  rcases liveCheck_cases h with ⟨-, u, hu, rfl⟩ | ⟨-, queue, connected, removed, tasks, rfl⟩
  · rw [liveRemove_eq] at hu
    cases hu
    exact ⟨rfl, rfl⟩
  · exact ⟨rfl, rfl⟩

theorem sameFuse_handleSetChar {session : Session} {curTime : Int} {garbage : Garbage}
    {body : JsonVal} {r : SetCharResult}
    (h : s.handleSetChar session curTime garbage body = .ok r) : SameFuse s r.state := by
  obtain ⟨db, queue, -, hr⟩ := handleSetChar_frame h
  rw [hr]
  exact ⟨rfl, rfl⟩

end State

/-! ## The flag and the stored sum -/

/-- A current report: the value it carries. -/
def reportValue (lo hi : UInt8) : UInt16 := UInt16.ofNat (lo.toNat + 256 * hi.toNat)

/-- The event of a current report. -/
def currentReport (now : UInt32) (addr lo hi : UInt8) : Event :=
  .uart now (.updateData addr moduleCurrent lo hi)

variable {s t : State} {e : Event}

/-- **What an event can do to the fuse**: nothing, unless it is a current report or a
restart. -/
theorem step_fuse (h : step s e = .ok t) :
    SameFuse s t ∨
      (∃ now addr lo hi trip, e = currentReport now addr lo hi ∧
        CurrentUpdate s t addr (reportValue lo hi) trip) ∨
      Booted t := by
  cases e with
  | uart now msg =>
    cases msg with
    | linkModule data => exact Or.inl (sameFuse_linkModule h)
    | updateData addr type lo hi =>
      change s.updateData now addr type lo hi = .ok t at h
      unfold updateData at h
      split at h
      · exact Or.inl (sameFuse_setModuleSwitchState h)
      · split at h
        · rename_i htype
          obtain ⟨trip, htrip⟩ := CurrentUpdate.of_ok h
          exact Or.inr (Or.inl ⟨now, addr, lo, hi, trip, by rw [currentReport, htype], htrip⟩)
        · cases h
          exact Or.inl ⟨rfl, rfl⟩
    | _ => cases h; exact Or.inl ⟨rfl, rfl⟩
  | live k => exact Or.inl (sameFuse_liveCheck h)
  | setChar session curTime garbage body =>
    obtain ⟨r, hr, h⟩ := bind_eq_ok.1 h
    cases h
    exact Or.inl (sameFuse_handleSetChar hr)
  | mqttSwitch index on =>
    rw [doModulesAction_eq_ok h]
    exact Or.inl ⟨rfl, rfl⟩
  | mqttPriority index value =>
    change s.modifyModule index (fun m => { m with priority := value }) = .ok t at h
    obtain ⟨-, modules, -, rfl⟩ := modifyModule_eq_ok.1 h
    exact Or.inl ⟨rfl, rfl⟩
  | resetToFactory =>
    unfold step at h
    simp only at h
    split at h <;> cases h <;> exact Or.inl ⟨rfl, rfl⟩
  | restart deviceName enablePop =>
    cases h
    exact Or.inr (Or.inr ⟨_, _, rfl⟩)
  | _ => cases h; exact Or.inl ⟨rfl, rfl⟩

/-- The flag says whether the stored sum is too large. -/
def FuseInv (s : State) : Prop :=
  s.emergTriggered = decide (maxCurrent < s.systemStatus.sumCurrent.toNat)

theorem fuseInv_of_booted (h : Booted s) : FuseInv s := by
  obtain ⟨deviceName, enablePop, rfl⟩ := h
  rfl

theorem State.CurrentUpdate.fuseInv {addr : UInt8} {value : UInt16} {trip : List UartMsg}
    (h : CurrentUpdate s t addr value trip) : FuseInv t := by
  rw [FuseInv, h.emerg, h.systemStatus]
  exact congrArg (fun n => decide (maxCurrent < n)) UInt16.toNat_ofNat'.symm

/-- **The step lemma.**  Every event keeps the flag in step with the stored sum. -/
theorem FuseInv.step (hI : FuseInv s) (h : NinaHomekit.step s e = .ok t) : FuseInv t := by
  rcases step_fuse h with hsame | ⟨now, addr, lo, hi, trip, -, hup⟩ | hboot
  · rw [FuseInv, hsame.emergTriggered, hsame.sumCurrent]
    exact hI
  · exact hup.fuseInv
  · exact fuseInv_of_booted hboot

/-! ## How a report should respond -/

/-- A `DO_MODULE` message for the modules. -/
def isDoModule (m : UartMsg) : Bool := m.port = 3 ∧ m.payload.head? = some cmdDoModule

/-- Between `s` and `t` messages were queued, and these are the `DO_MODULE` ones. -/
def Queues (s t : State) (msgs : List UartMsg) : Prop :=
  s.queue <+: t.queue ∧ (t.queue.drop s.queue.length).filter isDoModule = msgs

instance (s t : State) (msgs : List UartMsg) : Decidable (Queues s t msgs) :=
  inferInstanceAs (Decidable (_ ∧ _))

/-- A turn-off message for one module. -/
def turnOff (addr : UInt8) : UartMsg := ⟨3, [cmdDoModule, addr, doTurnOff]⟩

/-- A report of a linked module that takes the true sum over the limit queues exactly one turn-off;
one of any address that returns and leaves the sum at or below the limit queues none. -/
def RespondsRight (s : State) (e : Event) : Prop :=
  ∀ now addr lo hi, e = currentReport now addr lo hi →
    (Linked s addr → ∃ t, step s e = .ok t ∧ (s.linkedSum ≤ maxCurrent →
      maxCurrent < t.linkedSum → ∃ victim, Queues s t [turnOff victim])) ∧
    ∀ t, step s e = .ok t → t.linkedSum ≤ maxCurrent → Queues s t []

/-- The true sum once the report has been stored. -/
def reportedSum (s : State) (addr : UInt8) (value : UInt16) : Nat :=
  ((s.linked.modify (addr - 1).toNat fun m => { m with current := value }).map
    fun m => m.current.toNat).sum

/-- A report that takes the true sum over the limit arrives with a small stored sum, and
the new sum is large even modulo `2 ^ 16`. -/
def TripCondition (s : State) (e : Event) : Prop :=
  ∀ now addr lo hi, e = currentReport now addr lo hi → Linked s addr →
    s.linkedSum ≤ maxCurrent → maxCurrent < reportedSum s addr (reportValue lo hi) →
      s.systemStatus.sumCurrent.toNat ≤ maxCurrent ∧
        maxCurrent < reportedSum s addr (reportValue lo hi) % 65536

theorem State.linked_of_slots {i : Nat} {f : ModuleT → ModuleT} (hnum : t.moduleNum = s.moduleNum)
    (hslots : t.slots = s.slots.modify i f) : t.linked = s.linked.modify i f := by
  refine List.ext_getElem? fun j => ?_
  rw [linked, linked, hslots, hnum, List.getElem?_modify, List.getElem?_take, List.getElem?_take,
    List.getElem?_modify]
  split <;> rfl

theorem State.CurrentUpdate.linked_eq {addr : UInt8} {value : UInt16} {trip : List UartMsg}
    (h : CurrentUpdate s t addr value trip) :
    t.linked = s.linked.modify (addr - 1).toNat fun m => { m with current := value } := by
  have hnum : t.moduleNum = s.moduleNum := by rw [moduleNum, h.systemStatus]; rfl
  exact linked_of_slots hnum h.slots

theorem State.CurrentUpdate.linkedSum_eq {addr : UInt8} {value : UInt16} {trip : List UartMsg}
    (h : CurrentUpdate s t addr value trip) : t.linkedSum = reportedSum s addr value := by
  rw [linkedSum, h.linked_eq, reportedSum]

/-- A report turns no module off. -/
theorem State.CurrentUpdate.exists_on {addr : UInt8} {value : UInt16} {trip : List UartMsg}
    (h : CurrentUpdate s t addr value trip) (hon : ∃ m ∈ s.linked, m.state = true) :
    ∃ m ∈ t.linked, m.state = true := by
  obtain ⟨m, hm, hstate⟩ := hon
  obtain ⟨i, hi⟩ := List.mem_iff_getElem?.1 hm
  have hget : t.linked[i]? = some (if (addr - 1).toNat = i then { m with current := value }
      else m) := by
    rw [h.linked_eq, List.getElem?_modify, hi]
    rfl
  refine ⟨_, List.mem_of_getElem? hget, ?_⟩
  split <;> exact hstate

/-- The `DO_MODULE` messages of a report are those of the overload check. -/
theorem State.CurrentUpdate.queues {addr : UInt8} {value : UInt16} {trip : List UartMsg}
    (h : CurrentUpdate s t addr value trip) : Queues s t (trip.filter isDoModule) := by
  obtain ⟨mcub, hq⟩ := h.queue
  rw [List.append_assoc] at hq
  refine ⟨hq ▸ List.prefix_append _ _, ?_⟩
  rw [hq, List.drop_left, List.filter_append]
  simp [isDoModule, cmdUpdateData, cmdDoModule]

theorem step_currentReport (s : State) (now : UInt32) (addr lo hi : UInt8) :
    step s (currentReport now addr lo hi) = s.updateCurrent now addr (reportValue lo hi) := rfl

/-- A report of a linked module is handled. -/
theorem exists_currentUpdate (now : UInt32) {addr : UInt8} (lo hi : UInt8) (h : Linked s addr) :
    ∃ t trip, step s (currentReport now addr lo hi) = .ok t ∧
      CurrentUpdate s t addr (reportValue lo hi) trip := by
  have hlt := h.toNat_sub_one_lt
  obtain ⟨h1, hnum, h20⟩ := h
  exact updateCurrent_spec now (by omega) (by omega) h20

/-- A report responds right exactly when it meets the condition. -/
theorem FuseInv.tripCondition_iff (hI : FuseInv s) : TripCondition s e ↔ RespondsRight s e := by
  refine forall_congr' fun now => forall_congr' fun addr => forall_congr' fun lo =>
    forall_congr' fun hi => ?_
  constructor
  · rintro hC rfl
    refine ⟨fun hl => ?_, fun t ht hle => ?_⟩
    · obtain ⟨t, trip, ht, hup⟩ := exists_currentUpdate now lo hi hl
      have hsum := hup.linkedSum_eq
      refine ⟨t, ht, fun hle hlt => ?_⟩
      obtain ⟨hstored, hmod⟩ := hC rfl hl hle (hsum ▸ hlt)
      obtain ⟨victim, -, rfl⟩ := hup.armed (hsum ▸ hmod) (by rw [hI]; simp [hstored])
      exact ⟨victim, hup.queues⟩
    · obtain ⟨trip, hup⟩ := CurrentUpdate.of_ok (step_currentReport s now addr lo hi ▸ ht)
      have hq := hup.queues
      rwa [hup.quiet (le_trans (Nat.mod_le _ _) hle)] at hq
  · rintro hR rfl hl hle hlt
    obtain ⟨t, ht, hone⟩ := (hR rfl).1 hl
    obtain ⟨u, trip, hu, hup⟩ := exists_currentUpdate now lo hi hl
    rw [ht] at hu
    cases hu
    have hsum := hup.linkedSum_eq
    obtain ⟨victim, hq⟩ := hone hle (hsum ▸ hlt)
    have htrip : trip.filter isDoModule = [turnOff victim] := hup.queues.2.symm.trans hq.2
    constructor
    · by_contra hstored
      have hreq := hup.latched (by rw [hI]; simpa using hstored)
      have hnone : trip.filter isDoModule = [] := by
        rw [List.filter_eq_nil_iff]
        intro m hm
        rw [hreq m hm]
        decide
      rw [hnone] at htrip
      cases htrip
    · by_contra hmod
      rw [hup.quiet (by rw [hsum]; omega)] at htrip
      cases htrip

/-- **The reports of a run respond right exactly when they meet the condition.** -/
theorem respondsRight_iff (es : List Event) (h : Booted s) :
    EachStep step RespondsRight s es ↔ EachStep step TripCondition s es :=
  (eachStep_iff_of_inv (fun _ _ _ hI _ hs => hI.step hs) (fun _ _ hI => hI.tripCondition_iff)
    (fuseInv_of_booted h)).symm

/-- A link message of an only module. -/
def onlyModule : LinkFields := ⟨1, 1, [0x61], 0, true⟩

/-- The only module draws 2000: the report that says so meets the condition. -/
theorem respondsRight_onlyModule :
    EachStep step RespondsRight State.bootDefault
      [.uart 0 onlyModule.msg, currentReport 0 1 0xD0 0x07] := by
  refine (respondsRight_iff _ booted_bootDefault).2 (eachStep_cons.2 ⟨?_, fun t ht =>
    eachStep_cons.2 ⟨?_, fun _ _ => eachStep_nil⟩⟩)
  · rintro now addr lo hi he
    cases he
  · obtain ⟨u, hu, hcheck⟩ := exists_of_okAnd (x := step State.bootDefault (.uart 0 onlyModule.msg))
      (p := fun t => t.systemStatus.sumCurrent.toNat ≤ maxCurrent ∧
        reportedSum t 1 (reportValue 0xD0 0x07) = 2000) (by decide +kernel)
    rw [ht] at hu
    cases hu
    obtain ⟨hstored, hsum⟩ := of_decide_eq_true hcheck
    rintro now addr lo hi he - - -
    cases he
    exact ⟨hstored, by rw [hsum]; decide⟩

/-- Relinking zeroes the currents and leaves the flag: the second overload of the run gets
no response. -/
theorem not_respondsRight_relink :
    ¬ EachStep step RespondsRight State.bootDefault
      [.uart 0 onlyModule.msg, currentReport 0 1 0xD0 0x07, .uart 0 onlyModule.msg,
        currentReport 0 1 0xD0 0x07] := by
  intro h
  obtain ⟨t, ht, hcheck⟩ := exists_of_okAnd (x := Trace.run step State.bootDefault
      [.uart 0 onlyModule.msg, currentReport 0 1 0xD0 0x07, .uart 0 onlyModule.msg])
    (p := fun t => t.moduleNum = 1 ∧ t.linkedSum ≤ maxCurrent ∧
      okAnd (step t (currentReport 0 1 0xD0 0x07)) (fun u => maxCurrent < u.linkedSum ∧
        Queues t u []) = true) (by decide +kernel)
  obtain ⟨hnum, hsum, hlast⟩ := of_decide_eq_true hcheck
  obtain ⟨u, hu, hcheck⟩ := exists_of_okAnd hlast
  obtain ⟨hsum', hnone⟩ := of_decide_eq_true hcheck
  have hlinked : Linked t 1 := ⟨by decide, by rw [hnum]; decide, by rw [hnum]; decide⟩
  obtain ⟨v, hv, hone⟩ := (h _ _ [] t rfl ht 0 1 0xD0 0x07 rfl).1 hlinked
  rw [hu] at hv
  cases hv
  obtain ⟨victim, hq⟩ := hone hsum hsum'
  cases hnone.2.symm.trans hq.2

/-! ## After a turn-off -/

/-- A current report that queues a turn-off. -/
def Trips (s : State) (e : Event) : Prop :=
  (∃ now addr lo hi, e = currentReport now addr lo hi) ∧
    ∃ t victim, step s e = .ok t ∧ Queues s t [turnOff victim]

/-- A current report that leaves the stored sum small, or a restart. -/
def Relieves (s : State) (e : Event) : Prop :=
  ∃ t, step s e = .ok t ∧
    ((∃ now addr lo hi, e = currentReport now addr lo hi) ∧
      t.systemStatus.sumCurrent.toNat ≤ maxCurrent ∨ Booted t)

theorem FuseInv.emerg_eq_false_iff (hI : FuseInv s) :
    s.emergTriggered = false ↔ s.systemStatus.sumCurrent.toNat ≤ maxCurrent := by
  rw [hI]
  simp

theorem Booted.emerg_eq_false (h : Booted s) : s.emergTriggered = false := by
  obtain ⟨deviceName, enablePop, rfl⟩ := h
  rfl

/-- A report that sets the flag queues a turn-off. -/
theorem State.CurrentUpdate.trips {now : UInt32} {addr lo hi : UInt8} {trip : List UartMsg}
    (h : CurrentUpdate s t addr (reportValue lo hi) trip)
    (hstep : step s (currentReport now addr lo hi) = .ok t)
    (hs : s.emergTriggered = false) (ht : t.emergTriggered = true) :
    Trips s (currentReport now addr lo hi) := by
  rw [h.emerg, decide_eq_true_eq] at ht
  obtain ⟨victim, -, rfl⟩ := h.armed ht hs
  exact ⟨⟨now, addr, lo, hi, rfl⟩, t, victim, hstep, h.queues⟩

/-- One event: the flag stays set unless the event relieves it. -/
theorem FuseInv.latch_step (hI : FuseInv s) (h : NinaHomekit.step s e = .ok t)
    (hno : ¬ Trips s e) :
    t.emergTriggered = true ↔ s.emergTriggered = true ∧ ¬ Relieves s e := by
  have hIt := hI.step h
  constructor
  · intro ht
    refine ⟨?_, ?_⟩
    · by_contra hs
      rcases step_fuse h with hsame | ⟨now, addr, lo, hi, trip, rfl, hup⟩ | hboot
      · exact hs (hsame.emergTriggered ▸ ht)
      · exact hno (hup.trips h (by simpa using hs) ht)
      · rw [hboot.emerg_eq_false] at ht
        cases ht
    · rintro ⟨u, hu, hrel⟩
      rw [h] at hu
      cases hu
      have hf : t.emergTriggered = false := by
        rcases hrel with ⟨-, hsum⟩ | hboot
        · exact hIt.emerg_eq_false_iff.2 hsum
        · exact hboot.emerg_eq_false
      rw [ht] at hf
      cases hf
  · rintro ⟨hs, hrel⟩
    by_contra ht
    have ht : t.emergTriggered = false := by simpa using ht
    refine hrel ⟨t, h, ?_⟩
    rcases step_fuse h with hsame | ⟨now, addr, lo, hi, trip, rfl, -⟩ | hboot
    · rw [hsame.emergTriggered, hs] at ht
      cases ht
    · exact Or.inl ⟨⟨now, addr, lo, hi, rfl⟩, hIt.emerg_eq_false_iff.1 ht⟩
    · exact Or.inr hboot

/-- **The latch over a run.**  Induction on the events: without a further turn-off, the flag
is still set exactly if nothing has relieved it. -/
theorem FuseInv.latch_run (hI : FuseInv s) {es : List Event}
    (h : Trace.run NinaHomekit.step s es = .ok t)
    (hno : EachStep NinaHomekit.step (fun s e => ¬ Trips s e) s es) :
    t.emergTriggered = true ↔ s.emergTriggered = true ∧
      EachStep NinaHomekit.step (fun s e => ¬ Relieves s e) s es := by
  induction es generalizing s with
  | nil =>
    cases h
    simp
  | cons e es ih =>
    obtain ⟨u, hu, h⟩ := run_cons_eq_ok.1 h
    obtain ⟨hno1, hno2⟩ := eachStep_cons.1 hno
    have hrest : (∀ v, NinaHomekit.step s e = .ok v →
        EachStep NinaHomekit.step (fun s e => ¬ Relieves s e) v es) ↔
        EachStep NinaHomekit.step (fun s e => ¬ Relieves s e) u es :=
      ⟨fun hall => hall u hu, fun hthis v hv => by rw [hu] at hv; cases hv; exact hthis⟩
    rw [ih (hI.step hu) h (hno2 u hu), hI.latch_step hu hno1, eachStep_cons, hrest, and_assoc]

/-- **After a turn-off**, the next one waits for a report that leaves the stored sum small.
Whatever happened in between: a report of a linked module that leaves the true sum too
large queues a turn-off, addressed to a linked module that is on, exactly if an event since
the last turn-off relieved the flag. -/
theorem turnOff_iff_relieved {s₀ u : State} {before mid : List Event}
    {now : UInt32} {addr lo hi victim : UInt8} (now' : UInt32) {addr' : UInt8} (lo' hi' : UInt8)
    (hboot : Booted s₀) (hs : Trace.run step s₀ before = .ok s)
    (htrip : step s (currentReport now addr lo hi) = .ok t)
    (hvictim : Queues s t [turnOff victim])
    (hmid : Trace.run step t mid = .ok u)
    (hno : EachStep step (fun s e => ¬ Trips s e) t mid)
    (hlinked : Linked u addr') (hpop : u.smfStatus.enablePop ≠ 0)
    (hon : ∃ m ∈ u.linked, m.state = true) :
    ∃ v, step u (currentReport now' addr' lo' hi') = .ok v ∧
      (maxCurrent < v.linkedSum → v.linkedSum < 65536 →
        (EachStep step (fun s e => ¬ Relieves s e) t mid → Queues u v []) ∧
        (¬ EachStep step (fun s e => ¬ Relieves s e) t mid →
          ∃ i m, v.linked[i]? = some m ∧ m.state = true ∧
            Queues u v [turnOff (UInt8.ofNat (i + 1))])) := by
  have hIs : FuseInv s := inv_reachable (I := FuseInv) (fun _ _ _ hI h => hI.step h)
    (fuseInv_of_booted hboot) ⟨before, hs⟩
  have hIt := hIs.step htrip
  obtain ⟨trip₁, hup₁⟩ := CurrentUpdate.of_ok (step_currentReport .. ▸ htrip)
  have hset : t.emergTriggered = true := by
    rw [hup₁.emerg, decide_eq_true_eq]
    by_contra hle
    have hq := hup₁.queues.2.symm.trans hvictim.2
    rw [hup₁.quiet (not_lt.1 hle)] at hq
    cases hq
  have hlatch := hIt.latch_run hmid hno
  obtain ⟨v, trip, hv, hup⟩ := exists_currentUpdate now' lo' hi' hlinked
  refine ⟨v, hv, fun hlt hwrap => ⟨fun hun => ?_, fun hrel => ?_⟩⟩
  · have hreq := hup.latched (hlatch.2 ⟨hset, hun⟩)
    have hnone : trip.filter isDoModule = [] := by
      rw [List.filter_eq_nil_iff]
      intro m hm
      rw [hreq m hm]
      decide
    exact hnone ▸ hup.queues
  · have hclear : u.emergTriggered = false := by
      by_contra hne
      exact hrel (hlatch.1 (by simpa using hne)).2
    obtain ⟨a, ha, rfl⟩ := hup.armed (by rwa [Nat.mod_eq_of_lt hwrap]) hclear
    obtain ⟨i, m, hi, hm, rfl, -⟩ := ha (by rw [hup.enablePop]; exact hpop) (hup.exists_on hon)
    exact ⟨i, m, hi, hm, hup.queues⟩

/-- Three modules that are on, and the POP logic. -/
def threeModules : List Event :=
  [.setEnablePop 1, .uart 0 (LinkFields.msg ⟨3, 3, [0x63], 2, true⟩),
    .uart 0 (LinkFields.msg ⟨3, 2, [0x62], 1, true⟩),
    .uart 0 (LinkFields.msg ⟨3, 1, [0x61], 0, true⟩), currentReport 0 1 0xE8 0x03]

/-- Two modules draw 1000 each, the third is turned off, the first falls to 0 and back to
1000: the flag was relieved, so a module that is on is turned off. -/
theorem turnOff_iff_relieved_threeModules :
    ∃ u v i m, step u (currentReport 0 1 0xE8 0x03) = .ok v ∧ v.linked[i]? = some m ∧
      m.state = true ∧ Queues u v [turnOff (UInt8.ofNat (i + 1))] := by
  obtain ⟨s, hs, hcheck⟩ := exists_of_okAnd (x := Trace.run step State.bootDefault threeModules)
    (p := fun s => okAnd (step s (currentReport 0 2 0xE8 0x03)) fun t =>
      Queues s t [turnOff 3] ∧ okAnd (step t (currentReport 0 1 0 0)) (fun u =>
        Queues t u [] ∧ u.systemStatus.sumCurrent.toNat ≤ maxCurrent ∧ u.moduleNum = 3 ∧
          u.smfStatus.enablePop ≠ 0 ∧ (∃ m ∈ u.linked, m.state = true) ∧
          okAnd (step u (currentReport 0 1 0xE8 0x03)) (fun v => v.linkedSum = 2000) = true) = true)
    (by decide +kernel)
  obtain ⟨t, ht, hcheck⟩ := exists_of_okAnd hcheck
  obtain ⟨hq, hcheck⟩ := of_decide_eq_true hcheck
  obtain ⟨u, hu, hcheck⟩ := exists_of_okAnd hcheck
  obtain ⟨hnone, hsum, hnum, hpop, hon, hcheck⟩ := of_decide_eq_true hcheck
  obtain ⟨v, hv, hcheck⟩ := exists_of_okAnd hcheck
  have hmid : Trace.run step t [currentReport 0 1 0 0] = .ok u := run_singleton.trans hu
  have hno : EachStep step (fun s e => ¬ Trips s e) t [currentReport 0 1 0 0] := by
    refine eachStep_cons.2 ⟨?_, fun _ _ => eachStep_nil⟩
    rintro ⟨-, w, victim, hw, hqw⟩
    rw [hu] at hw
    cases hw
    cases hnone.2.symm.trans hqw.2
  have hlinked : Linked u 1 := ⟨by decide, by rw [hnum]; decide, by rw [hnum]; decide⟩
  obtain ⟨w, hw, hresult⟩ := turnOff_iff_relieved 0 0xE8 0x03
    booted_bootDefault hs ht hq hmid hno hlinked hpop hon
  rw [hv] at hw
  cases hw
  have hsumv : v.linkedSum = 2000 := of_decide_eq_true hcheck
  obtain ⟨i, m, hi, hm, hqv⟩ := (hresult (by rw [hsumv]; decide) (by rw [hsumv]; decide)).2
    fun hun => (eachStep_cons.1 hun).1 ⟨u, hu, Or.inl ⟨⟨0, 1, 0, 0, rfl⟩, hsum⟩⟩
  exact ⟨u, v, i, m, hv, hi, hm, hqv⟩

/-- The module that was turned off reports that it is off and draws nothing; the two others
still draw 2000, and no further turn-off is queued. -/
theorem no_second_turnOff :
    ∃ s t u v, Trace.run step State.bootDefault threeModules = .ok s ∧
      step s (currentReport 0 2 0xE8 0x03) = .ok t ∧ Queues s t [turnOff 3] ∧
      Trace.run step t [.uart 0 (.updateData 3 moduleSwitchState 0 0), currentReport 0 3 0 0] =
        .ok u ∧
      (∃ m, u.linked[2]? = some m ∧ m.state = false ∧ m.current = 0) ∧
      (∃ m, u.linked[1]? = some m ∧ m.state = true) ∧ u.smfStatus.enablePop ≠ 0 ∧ Linked u 1 ∧
      step u (currentReport 0 1 0xE8 0x03) = .ok v ∧ maxCurrent < v.linkedSum ∧
      Queues u v [] := by
  obtain ⟨s, hs, hcheck⟩ := exists_of_okAnd (x := Trace.run step State.bootDefault threeModules)
    (p := fun s => okAnd (step s (currentReport 0 2 0xE8 0x03)) fun t =>
      Queues s t [turnOff 3] ∧ okAnd (Trace.run step t
        [.uart 0 (.updateData 3 moduleSwitchState 0 0), currentReport 0 3 0 0]) (fun u =>
          u.linked[2]?.any (fun m => m.state = false ∧ m.current = 0) = true ∧
          u.linked[1]?.any (fun m => m.state = true) = true ∧ u.smfStatus.enablePop ≠ 0 ∧
          u.moduleNum = 3 ∧ okAnd (step u (currentReport 0 1 0xE8 0x03)) (fun v =>
            maxCurrent < v.linkedSum ∧ Queues u v []) = true) = true)
    (by decide +kernel)
  obtain ⟨t, ht, hcheck⟩ := exists_of_okAnd hcheck
  obtain ⟨hq, hcheck⟩ := of_decide_eq_true hcheck
  obtain ⟨u, hu, hcheck⟩ := exists_of_okAnd hcheck
  obtain ⟨hoff, hon, hpop, hnum, hcheck⟩ := of_decide_eq_true hcheck
  obtain ⟨v, hv, hcheck⟩ := exists_of_okAnd hcheck
  obtain ⟨hsum, hnone⟩ := of_decide_eq_true hcheck
  have hlinked : Linked u 1 := ⟨by decide, by rw [hnum]; decide, by rw [hnum]; decide⟩
  obtain ⟨m, hm, hoff⟩ := (Option.any_eq_true _ _).1 hoff
  obtain ⟨m', hm', hon⟩ := (Option.any_eq_true _ _).1 hon
  obtain ⟨hstate, hcurrent⟩ := of_decide_eq_true hoff
  exact ⟨s, t, u, v, hs, ht, hq, hu, ⟨m, hm, hstate, hcurrent⟩,
    ⟨m', hm', of_decide_eq_true hon⟩, hpop, hlinked, hv, hsum, hnone⟩

end NinaHomekit
