import NinaHomekit.CommandHandler.Receive

/-!
# The MCUB of a current report

A report stores its value, adds up the currents, runs the overload check and divides what the
sum leaves of the limit by the number of modules.

* `storeCurrent` — a report up to the overload check; `StoredCurrent` — what it leaves.
* `mcubOf`, `mcubMsg` — the MCUB and the message that sends it.
* `updateCurrent_of_bounds` — **a whole report**, when the slots it looks at exist.
-/

namespace NinaHomekit

open Trace

namespace State

variable {s t : State} {addr : UInt8} {value : UInt16}

/-! ## A report up to the overload check -/

/-- A current report up to the overload check: the state the check runs in, and `sum`. -/
def storeCurrent (s : State) (addr : UInt8) (value : UInt16) : Except Fault (State × Nat) := do
  let module ← s.getModule (addr - 1)
  let s := s.checkMcub module addr value
  let s ← s.setModuleCurrent (addr - 1) value
  let sum ← s.forModules (fun sum _ module => sum + module.current.toNat) 0
  return (s.storeSum sum, sum)

theorem updateCurrent_eq (s : State) (now : UInt32) (addr : UInt8) (value : UInt16) :
    s.updateCurrent now addr value = s.storeCurrent addr value >>= fun p =>
      p.1.overloadProtectionCheck now >>= fun t => t.updateMcub p.2 := by
  unfold updateCurrent storeCurrent
  simp only [bind_assoc]
  rfl

/-- The MCUB test: the value is at least MCUB above the module's last one. -/
def PassesMcub (s : State) (addr : UInt8) (value : UInt16) : Prop :=
  ∃ m, s.getModule (addr - 1) = .ok m ∧
    m.current.toNat + s.smfStatus.mcub.toNat ≤ value.toNat

/-- The state the overload check runs in. -/
structure StoredCurrent (s u : State) (addr : UInt8) (value : UInt16) : Prop where
  eq : ∃ modules a, u = { s with
    modules := modules
    smfStatus := { s.smfStatus with overloadTriggeredAddr := a }
    systemStatus := { s.systemStatus with sumCurrent := UInt16.ofNat u.linkedSum } }
  slots : u.slots = s.slots.modify (addr - 1).toNat fun m => { m with current := value }
  culprit : s.PassesMcub addr value → u.smfStatus.overloadTriggeredAddr = addr

/-- **A report up to the overload check**, when its slot and those of the linked modules
exist. -/
theorem storeCurrent_spec (value : UInt16) (haddr : (addr - 1).toNat < maxModuleNum)
    (h20 : s.moduleNum ≤ maxModuleNum) :
    ∃ u, s.storeCurrent addr value = .ok (u, u.linkedSum) ∧ StoredCurrent s u addr value := by
  obtain ⟨m, hm⟩ : ∃ m, s.getModule (addr - 1) = .ok m := ⟨_, dif_pos haddr⟩
  obtain ⟨a, ha⟩ := checkMcub_eq s m addr value
  obtain ⟨u, hu⟩ : ∃ u, (s.checkMcub m addr value).setModuleCurrent (addr - 1) value = .ok u :=
    ⟨_, dif_pos haddr⟩
  have hrun := hu
  rw [ha] at hu
  obtain ⟨-, modules, hslots, rfl⟩ := modifyModule_eq_ok.1 hu
  set u : State := { s with
    smfStatus := { s.smfStatus with overloadTriggeredAddr := a }, modules := modules }
  have hsum : u.forModules (fun sum _ m => sum + m.current.toNat) 0 = .ok u.linkedSum :=
    forModules_sum h20
  refine ⟨u.storeSum u.linkedSum, ?_, ⟨modules, a, rfl⟩, hslots, ?_⟩
  · simp only [storeCurrent, hm, ok_bind, hrun, hsum]
    rfl
  · rintro ⟨m', hm', hpass⟩
    rw [hm] at hm'
    cases hm'
    rw [checkMcub, if_pos hpass] at ha
    exact (congrArg (fun v : State => v.smfStatus.overloadTriggeredAddr) ha).symm

/-! ## The MCUB -/

/-- The MCUB a report stores and sends. -/
def mcubOf (sum n : Nat) : Int :=
  let mcub := ((maxCurrent : Int) - sum).tdiv n
  if mcub ≥ 0 then mcub else 0

/-- The message that sends the MCUB to every module. -/
def mcubMsg (mcub : UInt16) : UartMsg :=
  ⟨3, [cmdUpdateData, moduleMcub, 0, UInt8.ofNat (mcub.toNat &&& 0xff),
    UInt8.ofNat (mcub.toNat >>> 8)]⟩

theorem updateMcub_of_pos (sum : Nat) (h : s.moduleNum ≠ 0) :
    s.updateMcub sum = .ok { s with
      smfStatus := { s.smfStatus with mcub := UInt16.ofInt (mcubOf sum s.moduleNum) }
      queue := s.queue ++ [mcubMsg (UInt16.ofInt (mcubOf sum s.moduleNum))] } := by
  unfold updateMcub
  rw [if_neg h]
  rfl

theorem mcubOf_of_le {sum n : Nat} (h : sum ≤ maxCurrent) :
    mcubOf sum n = ((maxCurrent - sum) / n : Nat) := by
  have hsub : (maxCurrent : Int) - sum = ((maxCurrent - sum : Nat) : Int) := by omega
  unfold mcubOf
  rw [hsub, ← Int.ofNat_tdiv]
  exact if_pos (Int.natCast_nonneg _)

theorem mcubOf_of_lt {sum n : Nat} (h : maxCurrent < sum) : mcubOf sum n = 0 := by
  have hsub : (maxCurrent : Int) - sum = -((sum - maxCurrent : Nat) : Int) := by omega
  unfold mcubOf
  rw [hsub, Int.neg_tdiv, ← Int.ofNat_tdiv]
  dsimp only
  split
  · rename_i hnonneg
    have := Int.natCast_nonneg ((sum - maxCurrent) / n)
    omega
  · rfl

/-- The MCUB is at most the headroom, and 0 without headroom. -/
theorem mcubOf_le (sum n : Nat) :
    ∃ mcub, mcubOf sum n = ((mcub : Nat) : Int) ∧ mcub ≤ maxCurrent - sum := by
  by_cases h : sum ≤ maxCurrent
  · exact ⟨_, mcubOf_of_le h, Nat.div_le_self _ _⟩
  · exact ⟨0, mcubOf_of_lt (by omega), Nat.zero_le _⟩

theorem toNat_mcubOf (sum n : Nat) :
    (UInt16.ofInt (mcubOf sum n)).toNat ≤ maxCurrent - sum := by
  have hmax : maxCurrent = 1500 := rfl
  obtain ⟨mcub, heq, hle⟩ := mcubOf_le sum n
  have hmod : ((mcub : Int) % 2 ^ 16).toNat = mcub := by omega
  rw [heq, UInt16.ofInt, hmod, UInt16.toNat_ofNat_of_lt' (show mcub < 65536 by omega)]
  exact hle

/-! ## The whole report -/

theorem StoredCurrent.moduleNum {u : State} (h : StoredCurrent s u addr value) :
    u.moduleNum = s.moduleNum := by
  obtain ⟨modules, a, hu⟩ := h.eq
  rw [hu]
  rfl

/-- **A whole report**: what is stored, the check, and the MCUB. -/
theorem updateCurrent_of_bounds (now : UInt32) (value : UInt16)
    (haddr : (addr - 1).toNat < maxModuleNum) (h0 : s.moduleNum ≠ 0)
    (h20 : s.moduleNum ≤ maxModuleNum) :
    ∃ u v trip, s.storeCurrent addr value = .ok (u, u.linkedSum) ∧
      StoredCurrent s u addr value ∧ u.overloadProtectionCheck now = .ok v ∧ Checked u v trip ∧
      s.updateCurrent now addr value = .ok { v with
        smfStatus := { v.smfStatus with
          mcub := UInt16.ofInt (mcubOf u.linkedSum s.moduleNum) }
        queue := v.queue ++ [mcubMsg (UInt16.ofInt (mcubOf u.linkedSum s.moduleNum))] } := by
  obtain ⟨u, hstore, hu⟩ := storeCurrent_spec value haddr h20
  obtain ⟨v, trip, hcheck, hv⟩ := overloadProtectionCheck_spec now (hu.moduleNum ▸ h20)
  obtain ⟨a, last, heq⟩ := hv.eq
  have hvnum : v.moduleNum = s.moduleNum := by
    rw [heq]
    exact hu.moduleNum
  have hmcub := updateMcub_of_pos (s := v) u.linkedSum (hvnum ▸ h0)
  rw [hvnum] at hmcub
  refine ⟨u, v, trip, hstore, hu, hcheck, hv, ?_⟩
  rw [updateCurrent_eq, hstore, ok_bind, hcheck, ok_bind, hmcub]

end State

end NinaHomekit
