import NinaHomekit.CoreBridge.MqttCtrl
import NinaHomekit.Lib.Outcome
import NinaHomekit.Ownership

/-!
# Indices of the module table

An address is 1-based in a message from the bus, 0-based in an MQTT command, and 8 bits wide on
the way to the table.  No handler compares it with anything.

* `OutOfBounds` — a run of a handler that ends in an access past the end of an array.
* `Converts` — a run of a handler that does not end in a conversion without a value.
* `updatedSlot` — the slot whose state, current or priority a command updates.
* `AddressFits` — the address in a command is that of a linked module, or one that
  `addModule` has a slot for.
* `indicesInRange_iff` — **every index is in range exactly if every command has such an
  address.**
-/

namespace NinaHomekit

open Trace State Outcome

/-! ## Accesses past the end -/

/-- The computation ends in an access past the end of an array. -/
def OutOfBounds {α : Type} (x : Except Fault α) : Prop := ∃ i, x = .error (.outOfBounds i)

section OutOfBounds

variable {α β : Type} {x : Except Fault α} {f : α → Except Fault β}

theorem not_outOfBounds_ok (a : α) : ¬ OutOfBounds (.ok a : Except Fault α) := by
  rintro ⟨i, h⟩
  cases h

theorem outOfBounds_bind :
    OutOfBounds (x >>= f) ↔ OutOfBounds x ∨ ∃ a, x = .ok a ∧ OutOfBounds (f a) := by
  cases x with
  | ok a =>
    constructor
    · exact fun h => Or.inr ⟨a, rfl, h⟩
    · rintro (h | ⟨b, hb, h⟩)
      · exact absurd h (not_outOfBounds_ok a)
      · cases hb
        exact h
  | error fault =>
    constructor
    · exact fun ⟨i, h⟩ => Or.inl ⟨i, by cases h; rfl⟩
    · rintro (⟨i, h⟩ | ⟨b, hb, -⟩)
      · cases h
        exact ⟨i, rfl⟩
      · cases hb

theorem outOfBounds_bind_of_ok {a : α} (h : x = .ok a) : OutOfBounds (x >>= f) ↔ OutOfBounds (f a) := by
  rw [h]
  rfl

/-- What follows never leaves the bounds. -/
theorem outOfBounds_bind_of_total (hf : ∀ a, x = .ok a → ¬ OutOfBounds (f a)) :
    OutOfBounds (x >>= f) ↔ OutOfBounds x := by
  rw [outOfBounds_bind]
  exact or_iff_left fun ⟨a, ha, hout⟩ => hf a ha hout

theorem outOfBounds_bind_pure {g : α → β} :
    (OutOfBounds do let a ← x; pure (g a)) ↔ OutOfBounds x :=
  outOfBounds_bind_of_total fun a _ => not_outOfBounds_ok (g a)

end OutOfBounds

namespace State

variable {s t : State} {index : UInt8}

theorem outOfBounds_getModule : OutOfBounds (s.getModule index) ↔ maxModuleNum ≤ index.toNat := by
  unfold getModule
  split
  · rename_i h
    exact iff_of_false (not_outOfBounds_ok _) (by omega)
  · rename_i h
    exact iff_of_true ⟨_, rfl⟩ (by omega)

theorem outOfBounds_modifyModule {f : ModuleT → ModuleT} :
    OutOfBounds (s.modifyModule index f) ↔ maxModuleNum ≤ index.toNat := by
  unfold modifyModule
  split
  · rename_i h
    exact iff_of_false (not_outOfBounds_ok _) (by omega)
  · rename_i h
    exact iff_of_true ⟨_, rfl⟩ (by omega)

/-- A loop over the linked modules leaves the table when there are too many of them. -/
theorem outOfBounds_forModules {α : Type} {body : α → Nat → ModuleT → α} {a : α} :
    OutOfBounds (s.forModules body a) ↔ maxModuleNum < s.moduleNum := by
  by_cases hle : s.moduleNum ≤ maxModuleNum
  · rw [forModules_eq hle]
    exact iff_of_false (not_outOfBounds_ok _) (by omega)
  · have hlt := Nat.lt_of_not_le hle
    exact iff_of_true ⟨maxModuleNum, forModules_of_lt hlt body a⟩ hlt

/-! ## The handlers -/

theorem outOfBounds_setModulePriority {value : UInt8} :
    OutOfBounds (s.setModulePriority index value) ↔ maxModuleNum ≤ index.toNat :=
  outOfBounds_modifyModule

theorem outOfBounds_setModuleSwitchState {state : UInt8} :
    OutOfBounds (s.setModuleSwitchState index state) ↔ maxModuleNum ≤ index.toNat := by
  unfold setModuleSwitchState
  rw [outOfBounds_bind_of_total, outOfBounds_modifyModule]
  intro u hu hout
  obtain ⟨hlt, -⟩ := modifyModule_eq_ok.1 hu
  rw [outOfBounds_bind_pure, outOfBounds_getModule] at hout
  omega

theorem outOfBounds_updateMcub {sum : Nat} : ¬ OutOfBounds (s.updateMcub sum) := by
  unfold updateMcub
  split
  · rintro ⟨i, h⟩
    cases h
  · exact not_outOfBounds_ok _

/-- A current report reads and writes the slot of its module, and reads those of the linked
modules. -/
theorem outOfBounds_updateCurrent {now : UInt32} {addr : UInt8} {value : UInt16} :
    OutOfBounds (s.updateCurrent now addr value) ↔
      maxModuleNum ≤ (addr - 1).toNat ∨ maxModuleNum < s.moduleNum := by
  by_cases haddr : (addr - 1).toNat < maxModuleNum
  · obtain ⟨m, hm⟩ : ∃ m, s.getModule (addr - 1) = .ok m := ⟨_, dif_pos haddr⟩
    obtain ⟨a, ha⟩ := checkMcub_eq s m addr value
    obtain ⟨u, hu⟩ : ∃ u, (s.checkMcub m addr value).setModuleCurrent (addr - 1) value = .ok u :=
      ⟨_, dif_pos haddr⟩
    have hnum : u.moduleNum = s.moduleNum := by
      have hu' := hu
      rw [ha] at hu'
      obtain ⟨-, modules, -, rfl⟩ := modifyModule_eq_ok.1 hu'
      rfl
    unfold updateCurrent
    rw [outOfBounds_bind_of_ok hm, outOfBounds_bind_of_ok hu, outOfBounds_bind_of_total,
      outOfBounds_forModules, hnum]
    · exact (or_iff_right (by omega)).symm
    · intro sum hsum
      have hle := moduleNum_le_of_forModules hsum
      obtain ⟨v, trip, hv, -⟩ := overloadProtectionCheck_spec (s := u.storeSum sum) now hle
      rw [outOfBounds_bind_of_ok hv]
      exact outOfBounds_updateMcub
  · refine iff_of_true ?_ (Or.inl (by omega))
    exact outOfBounds_bind.2 (Or.inl (outOfBounds_getModule.2 (by omega)))

theorem outOfBounds_addModule {nm : CStr} {type priority state : UInt8} :
    OutOfBounds (s.addModule index (some nm) type priority state) ↔
      maxModuleNum ≤ index.toNat := by
  unfold addModule
  simp only
  rw [outOfBounds_bind_pure, outOfBounds_modifyModule]

/-- `beginAccessory` leaves the table when there are too many modules, unless it stops at the
first one because there is no accessory. -/
theorem outOfBounds_beginAccessory (hvalid : ∀ a, s.accessory = some a → a < s.db.accs.length) :
    OutOfBounds s.beginAccessory ↔ s.accessory.isSome = true ∧ maxModuleNum < s.moduleNum := by
  unfold beginAccessory
  rw [outOfBounds_bind_pure]
  rcases Option.eq_none_or_eq_some s.accessory with hacc | ⟨a, hacc⟩
  · refine iff_of_false ?_ (by simp [hacc])
    cases hn : s.moduleNum with
    | zero => exact not_outOfBounds_ok _
    | succ n =>
      obtain ⟨rest, hrange⟩ := exists_range_eq (Nat.succ_pos n)
      have hget : s.getModule (UInt8.ofNat 0) = .ok s.modules[0] := rfl
      rw [hrange, List.range_zero, List.nil_append, List.foldlM_cons, outOfBounds_bind]
      have hfirst : beginModule s 0 = .error .assertBlock := by
        rw [beginModule, hget, ok_bind,
          show hapServSwitchCreate _ = some ⟨0, .switch, [onChar _], false⟩ from rfl, hacc]
      rw [hfirst]
      rintro (⟨i, h⟩ | ⟨b, hb, -⟩)
      · cases h
      · cases hb
  · have hfound := List.getElem?_eq_getElem (hvalid a hacc)
    by_cases hle : s.moduleNum ≤ maxModuleNum
    · obtain ⟨modules, -, hok⟩ := beginLoop_eq hacc hfound hle
      rw [hok]
      exact iff_of_false (not_outOfBounds_ok _) (by omega)
    · refine iff_of_true ?_ ⟨by simp [hacc], by omega⟩
      obtain ⟨rest, hrange⟩ := exists_range_eq (Nat.lt_of_not_le hle)
      obtain ⟨modules, -, hok⟩ := beginLoop_eq hacc hfound (le_refl maxModuleNum)
      rw [hrange, List.foldlM_append, hok, ok_bind, List.foldlM_cons, outOfBounds_bind]
      exact Or.inl (outOfBounds_bind.2 (Or.inl (outOfBounds_getModule.2 (by decide))))

/-! ## Link messages -/

/-- A link message that cannot be decoded ends where the decoding does. -/
theorem linkModule_eq (s : State) (data : LinkData) :
    s.linkModule (some data) = decodeLink data >>= s.linkDecoded := by
  obtain ⟨total, addr, name, pri, switchState⟩ := data
  unfold linkModule decodeLink
  cases total with
  | none => rfl
  | some total =>
    cases htotal : toInt total.valuedouble with
    | error fault => simp [deref, htotal]
    | ok n =>
      cases addr with
      | none => simp [deref, htotal]
      | some addr =>
        cases haddr : toInt (addr.valuedouble.sub 1) with
        | error fault => simp [deref, htotal, haddr]
        | ok i =>
          cases name with
          | none => simp [deref, htotal, haddr]
          | some name =>
            cases pri with
            | none => simp [deref, htotal, haddr]
            | some pri =>
              cases switchState with
              | none => simp [deref, htotal, haddr]
              | some switchState =>
                cases hname : name.valuestring with
                | none => simp [deref, htotal, haddr, hname, addModule]
                | some nm =>
                  simp [deref, htotal, haddr, hname, linkDecoded, linkStart]

theorem not_outOfBounds_deref (item : Option CJsonItem) : ¬ OutOfBounds (deref item) := by
  cases item with
  | none =>
    rintro ⟨i, h⟩
    cases h
  | some item => exact not_outOfBounds_ok item

theorem not_outOfBounds_toInt (x : Double) : ¬ OutOfBounds (toInt x) := by
  unfold toInt
  split
  · split
    · exact not_outOfBounds_ok _
    · rintro ⟨i, h⟩
      cases h
  · rintro ⟨i, h⟩
    cases h

theorem not_outOfBounds_decodeLink (data : LinkData) : ¬ OutOfBounds (decodeLink data) := by
  unfold decodeLink
  simp only [outOfBounds_bind, not_outOfBounds_deref, not_outOfBounds_toInt, false_or,
    not_exists, not_and]
  intro _ _ _ _ _ _ _ _ name _ _ _ _ _
  cases name.valuestring with
  | none =>
    rintro ⟨i, h⟩
    cases h
  | some nm => exact not_outOfBounds_ok _

/-! ## Conversions -/

/-- The computation does not end in a conversion without a value. -/
abbrev Converts {α : Type} (x : Except Fault α) : Prop :=
  Meets (fun fault => fault ≠ .badConversion) x fun _ => True

theorem converts_getModule (s : State) (index : UInt8) : Converts (s.getModule index) := by
  unfold getModule
  split
  · trivial
  · exact Fault.noConfusion

theorem converts_modifyModule (s : State) (index : UInt8) (f : ModuleT → ModuleT) :
    Converts (s.modifyModule index f) := by
  unfold modifyModule
  split
  · trivial
  · exact Fault.noConfusion

theorem converts_forModules {α : Type} (s : State) (body : α → Nat → ModuleT → α) (a : α) :
    Converts (s.forModules body a) :=
  Meets.foldlM (fun _ _ _ => (converts_getModule s _).bind fun _ _ => trivial) trivial

theorem converts_doModulesAction (s : State) (addrs actions : List UInt8) (length : UInt8) :
    Converts (s.doModulesAction addrs actions length) := by
  unfold doModulesAction
  split
  · trivial
  · exact Fault.noConfusion

theorem converts_overloadProtectionCheck (s : State) (now : UInt32) :
    Converts (s.overloadProtectionCheck now) := by
  unfold overloadProtectionCheck
  split
  · split
    · dsimp only
      split
      · have hscan : Converts s.popScan := converts_forModules s _ _
        refine Meets.bind (P := fun _ => True) ?_ fun addr _ =>
          (converts_doModulesAction _ _ _ _).bind fun _ _ => trivial
        rw [map_eq_pure_bind]
        exact hscan.bind fun _ _ => trivial
      · rw [ok_bind]
        exact (converts_doModulesAction _ _ _ _).bind fun _ _ => trivial
    · split
      · trivial
      · split <;> trivial
  · trivial

theorem converts_updateData (s : State) (now : UInt32) (addr type lo hi : UInt8) :
    Converts (s.updateData now addr type lo hi) := by
  unfold updateData
  split
  · exact (converts_modifyModule s _ _).bind fun u _ =>
      (converts_getModule u _).bind fun _ _ => trivial
  · split
    · refine (converts_getModule s _).bind fun _ _ => (converts_modifyModule _ _ _).bind fun u _ =>
        (converts_forModules u _ _).bind fun _ _ =>
          (converts_overloadProtectionCheck _ now).bind fun v _ => ?_
      unfold updateMcub
      split
      · exact Fault.noConfusion
      · trivial
    · trivial

theorem converts_beginModule (s : State) (i : Nat) : Converts (s.beginModule i) := by
  refine (converts_getModule s _).bind fun m _ => ?_
  split
  · exact Fault.noConfusion
  · dsimp only
    split
    · exact Fault.noConfusion
    · split
      · exact Fault.noConfusion
      · exact (converts_modifyModule _ _ _).bind fun _ _ => trivial

/-- Once the message is decoded, nothing is converted. -/
theorem converts_linkDecoded (s : State) (m : LinkMsg) : Converts (s.linkDecoded m) := by
  unfold linkDecoded addModule
  refine Meets.bind (P := fun _ => True)
    ((converts_modifyModule _ _ _).bind fun _ _ => trivial) fun u _ => ?_
  split
  · unfold linkLast
    split
    · exact Fault.noConfusion
    · refine Meets.bind (P := fun _ => True) ?_ fun _ _ => trivial
      exact (Meets.foldlM (fun v i _ => converts_beginModule v i) trivial).bind fun _ _ => trivial
  · trivial

/-! ## Slots -/

/-- What a decoded link message needs to find its slots: one for its own address and, when it is
the last one of a sequence of more than one, one for every module that is counted. -/
def LinkFits (s : State) (m : LinkMsg) : Prop :=
  (UInt8.ofInt m.index).toNat < maxModuleNum ∧
    (m.index = 0 → 0 ≤ m.total → m.total ≠ 1 → s.accessory.isSome = true →
      (s.systemStatus.numModules + 1).toNat ≤ maxModuleNum)

theorem outOfBounds_linkLast (hvalid : ∀ a, s.accessory = some a → a < s.db.accs.length)
    {total : Int} : OutOfBounds (s.linkLast total) ↔
      0 ≤ total ∧ s.accessory.isSome = true ∧ maxModuleNum < s.moduleNum := by
  unfold linkLast
  by_cases hneg : total < 0
  · rw [if_pos hneg]
    refine iff_of_false ?_ (by omega)
    rintro ⟨i, h⟩
    cases h
  · rw [if_neg hneg, outOfBounds_bind_pure,
      outOfBounds_beginAccessory (s := s.linkAnnounce total) hvalid]
    exact (and_iff_right (by omega)).symm

theorem valid_linkStart (hvalid : ∀ a, s.accessory = some a → a < s.db.accs.length) (m : LinkMsg) :
    ∀ a, (s.linkStart m).accessory = some a → a < (s.linkStart m).db.accs.length := by
  intro a ha
  unfold linkStart at ha ⊢
  split at ha
  · rename_i hfirst
    rw [if_pos hfirst]
    unfold linkFirst at ha ⊢
    rw [createAccessory_removeModules] at ha ⊢
    cases ha
    simp
  · rename_i hfirst
    rw [if_neg hfirst]
    exact hvalid a ha

/-- **A link message leaves the table** exactly if its slots are not there. -/
theorem outOfBounds_linkDecoded (hvalid : ∀ a, s.accessory = some a → a < s.db.accs.length)
    {m : LinkMsg} : OutOfBounds (s.linkDecoded m) ↔ ¬ LinkFits s m := by
  unfold LinkFits
  by_cases hidx : (UInt8.ofInt m.index).toNat < maxModuleNum
  · obtain ⟨u, hu⟩ : ∃ u, (s.linkStart m).addModule (UInt8.ofInt m.index) (some m.name) 0 m.pri
        m.switchState = .ok u := by
      unfold addModule modifyModule
      simp only [dif_pos hidx]
      exact ⟨_, rfl⟩
    obtain ⟨-, nm, -, modules, -, hueq⟩ := addModule_eq_ok.1 hu
    unfold linkDecoded
    rw [outOfBounds_bind_of_ok hu]
    have hnum : u.moduleNum = ((s.linkStart m).systemStatus.numModules + 1).toNat := by
      rw [hueq]
      rfl
    have hacc : u.accessory = (s.linkStart m).accessory ∧ u.db = (s.linkStart m).db := by
      rw [hueq]
      exact ⟨rfl, rfl⟩
    rw [systemStatus_linkStart] at hnum
    by_cases h0 : m.index = 0
    · rw [if_pos h0]
      by_cases hfirst : m.index + 1 = m.total
      · -- the table was emptied for the only module
        have hone : u.moduleNum = 1 := by
          rw [hnum, if_pos hfirst]
          rfl
        rw [outOfBounds_linkLast (hacc.1 ▸ hacc.2 ▸ valid_linkStart hvalid m), hone]
        refine iff_of_false ?_ ?_
        · rintro ⟨-, -, hmany⟩
          exact absurd hmany (by decide)
        · simp only [not_not]
          exact ⟨hidx, fun _ _ hne => absurd (by omega) hne⟩
      · rw [if_neg hfirst] at hnum
        have hsame : (s.linkStart m).accessory = s.accessory := by
          rw [linkStart, if_neg hfirst]
          rfl
        rw [outOfBounds_linkLast (hacc.1 ▸ hacc.2 ▸ valid_linkStart hvalid m), hnum, hacc.1, hsame]
        constructor
        · rintro ⟨htotal, hsome, hmany⟩ ⟨-, hfits⟩
          have := hfits h0 htotal (by omega) hsome
          omega
        · intro hnot
          by_contra hno
          refine hnot ⟨hidx, fun _ htotal _ hsome => ?_⟩
          by_contra hmany
          exact hno ⟨htotal, hsome, by omega⟩
    · rw [if_neg h0]
      exact iff_of_false (not_outOfBounds_ok _) (by simp [hidx, h0])
  · refine iff_of_true ?_ (by simp [hidx])
    exact outOfBounds_bind.2 (Or.inl (outOfBounds_addModule.2 (by omega)))

end State

/-! ## Commands -/

variable {s t : State} {e : Event} {es : List Event}

/-- A message from the bus or an MQTT priority command. -/
def IsCommand : Event → Prop
  | .uart .. => True
  | .mqttPriority .. => True
  | _ => False

/-- The slot whose state, current or priority a command updates: the `index` of the setter that
is called. -/
def updatedSlot : Event → Option UInt8
  | .uart _ (.updateData addr type _ _) =>
    if type = moduleSwitchState ∨ type = moduleCurrent then some (addr - 1) else none
  | .mqttPriority index _ => some index
  | _ => none

/-- Handling the command converts no number to an index that has none, accesses no slot past the
end of the table, and the slot it updates is one of those of the linked modules. -/
structure IndicesInRange (s : State) (e : Event) : Prop where
  converted : step s e ≠ .error .badConversion
  access : ¬ OutOfBounds (step s e)
  update : ∀ index, updatedSlot e = some index → index.toNat < s.moduleNum

theorem indicesInRange_of_ok (h : step s e = .ok t) (hslot : updatedSlot e = none) :
    IndicesInRange s e := by
  refine ⟨?_, ?_, ?_⟩
  · rw [h]
    exact fun h => by cases h
  · rw [h]
    exact not_outOfBounds_ok t
  · rw [hslot]
    exact fun index hindex => by cases hindex

/-- The address in a command is that of a linked module whose slot is in the table, or one that
a link message finds room for; its numbers are those of an `int`. -/
def AddressFits (s : State) : Event → Prop
  | .uart _ (.updateData addr type _ _) =>
    (type = moduleSwitchState → 1 ≤ addr.toNat ∧ addr.toNat ≤ min s.moduleNum maxModuleNum) ∧
      (type = moduleCurrent → Linked s addr)
  | .uart _ (.linkModule (some data)) =>
    decodeLink data ≠ .error .badConversion ∧ ∀ m, decodeLink data = .ok m → LinkFits s m
  | .mqttPriority index _ => index.toNat < min s.moduleNum maxModuleNum
  | _ => True

theorem toNat_sub_one (addr : UInt8) :
    (addr - 1).toNat = if addr.toNat = 0 then 255 else addr.toNat - 1 := by
  have hlt := addr.toNat_lt
  rw [UInt8.toNat_sub]
  simp only [UInt8.reduceToNat]
  split <;> omega

theorem indicesInRange_updateData (now : UInt32) (addr type lo hi : UInt8) :
    IndicesInRange s (.uart now (.updateData addr type lo hi)) ↔
      AddressFits s (.uart now (.updateData addr type lo hi)) := by
  have hsub := toNat_sub_one addr
  have hnum : s.moduleNum < 256 := s.moduleNum_lt
  have hmax : maxModuleNum = 20 := rfl
  have hstep : step s (.uart now (.updateData addr type lo hi)) =
      s.updateData now addr type lo hi := rfl
  have hconv : step s (.uart now (.updateData addr type lo hi)) ≠ .error .badConversion :=
    fun h => (converts_updateData s now addr type lo hi).of_eq_error h rfl
  by_cases hswitch : type = moduleSwitchState
  · have hcurrent : type ≠ moduleCurrent := by
      rw [hswitch]
      decide
    have hout : OutOfBounds (step s (.uart now (.updateData addr type lo hi))) ↔
        maxModuleNum ≤ (addr - 1).toNat := by
      rw [hstep, updateData, if_pos hswitch]
      exact outOfBounds_setModuleSwitchState
    have hslot : updatedSlot (.uart now (.updateData addr type lo hi)) = some (addr - 1) :=
      if_pos (Or.inl hswitch)
    show _ ↔ (_ → _) ∧ (_ → _)
    constructor
    · rintro ⟨-, haccess, hupdate⟩
      have := hupdate _ hslot
      rw [hout] at haccess
      refine ⟨fun _ => ?_, fun hc => absurd hc hcurrent⟩
      split at hsub <;> omega
    · rintro ⟨hfits, -⟩
      have := hfits hswitch
      rw [if_neg (by omega)] at hsub
      refine ⟨hconv, by rw [hout]; omega, fun index hindex => ?_⟩
      rw [hslot] at hindex
      cases hindex
      omega
  · by_cases hcurrent : type = moduleCurrent
    · have hout : OutOfBounds (step s (.uart now (.updateData addr type lo hi))) ↔
          maxModuleNum ≤ (addr - 1).toNat ∨ maxModuleNum < s.moduleNum := by
        rw [hstep, updateData, if_neg hswitch, if_pos hcurrent]
        exact outOfBounds_updateCurrent
      have hslot : updatedSlot (.uart now (.updateData addr type lo hi)) = some (addr - 1) :=
        if_pos (Or.inr hcurrent)
      show _ ↔ (_ → _) ∧ (_ → _)
      constructor
      · rintro ⟨-, haccess, hupdate⟩
        have := hupdate _ hslot
        rw [hout] at haccess
        refine ⟨fun hs => absurd hs hswitch, fun _ => ?_⟩
        show 1 ≤ addr.toNat ∧ addr.toNat ≤ s.moduleNum ∧ s.moduleNum ≤ maxModuleNum
        split at hsub <;> omega
      · rintro ⟨-, hlinked⟩
        obtain ⟨h1, h2, h3⟩ := hlinked hcurrent
        rw [if_neg (by omega)] at hsub
        refine ⟨hconv, by rw [hout]; omega, fun index hindex => ?_⟩
        rw [hslot] at hindex
        cases hindex
        omega
    · refine iff_of_true ⟨hconv, ?_, fun index hindex => ?_⟩
        ⟨fun hs => absurd hs hswitch, fun hc => absurd hc hcurrent⟩
      · rw [hstep, updateData, if_neg hswitch, if_neg hcurrent]
        exact not_outOfBounds_ok _
      · simp [updatedSlot, hswitch, hcurrent] at hindex

theorem indicesInRange_linkModule (hvalid : ∀ a, s.accessory = some a → a < s.db.accs.length)
    (now : UInt32) (data : LinkData) :
    IndicesInRange s (.uart now (.linkModule (some data))) ↔
      AddressFits s (.uart now (.linkModule (some data))) := by
  have hout : OutOfBounds (step s (.uart now (.linkModule (some data)))) ↔
      ∃ m, decodeLink data = .ok m ∧ ¬ LinkFits s m := by
    show OutOfBounds (s.linkModule (some data)) ↔ _
    rw [linkModule_eq, outOfBounds_bind, or_iff_right (not_outOfBounds_decodeLink data)]
    simp only [outOfBounds_linkDecoded hvalid]
  have hconv : step s (.uart now (.linkModule (some data))) ≠ .error .badConversion ↔
      decodeLink data ≠ .error .badConversion := by
    show s.linkModule (some data) ≠ _ ↔ _
    rw [linkModule_eq]
    cases decodeLink data with
    | error fault =>
      rw [error_bind]
      exact not_congr ⟨fun h => by cases h; rfl, fun h => by cases h; rfl⟩
    | ok m =>
      rw [ok_bind]
      exact iff_of_true (fun h => (converts_linkDecoded s m).of_eq_error h rfl) fun h => by cases h
  constructor
  · intro h
    refine ⟨hconv.1 h.converted, fun m hm => ?_⟩
    by_contra hno
    exact h.access (hout.2 ⟨m, hm, hno⟩)
  · rintro ⟨hnum, h⟩
    refine ⟨hconv.2 hnum, fun hbad => ?_, fun index hindex => by cases hindex⟩
    obtain ⟨m, hm, hno⟩ := hout.1 hbad
    exact hno (h m hm)

/-- **The step lemma**: a command keeps its indices in range exactly if its address fits. -/
theorem indicesInRange_step (hvalid : s.ownership.Valid) (hcmd : IsCommand e) :
    IndicesInRange s e ↔ AddressFits s e := by
  have hvalid' : ∀ a, s.accessory = some a → a < s.db.accs.length := by
    intro a ha
    simpa [ownership] using hvalid a ha
  cases e with
  | uart now msg =>
    cases msg with
    | updateData addr type lo hi => exact indicesInRange_updateData now addr type lo hi
    | linkModule data =>
      cases data with
      | some data => exact indicesInRange_linkModule hvalid' now data
      | none => exact iff_of_true (indicesInRange_of_ok rfl rfl) trivial
    | _ => exact iff_of_true (indicesInRange_of_ok rfl rfl) trivial
  | mqttPriority index value =>
    have hout : OutOfBounds (step s (.mqttPriority index value)) ↔ maxModuleNum ≤ index.toNat :=
      outOfBounds_setModulePriority
    show _ ↔ index.toNat < min s.moduleNum maxModuleNum
    constructor
    · rintro ⟨-, haccess, hupdate⟩
      have := hupdate index rfl
      rw [hout] at haccess
      omega
    · intro hfits
      have hconv : Converts (s.setModulePriority index value) := converts_modifyModule s _ _
      refine ⟨fun h => hconv.of_eq_error h rfl, by rw [hout]; omega, fun index' hindex => ?_⟩
      cases hindex
      omega
  | _ => cases hcmd

theorem Ownership.Valid.begin {o : Ownership} (h : o.Valid) (n : Nat) : (o.begin n).Valid := by
  intro a ha
  rcases Option.eq_none_or_eq_some o.accessory with hacc | ⟨b, hacc⟩
  · rw [Ownership.begin_of_none hacc] at ha ⊢
    exact h a ha
  · rw [Ownership.begin_of_some hacc] at ha ⊢
    exact h a ha

/-- The accessory the bridge points to always exists. -/
theorem valid_step (hvalid : s.ownership.Valid) (h : step s e = .ok t) : t.ownership.Valid := by
  rcases step_ownership hvalid h with ⟨hsame, -⟩ | ⟨hboot, -⟩ | ⟨now, data, m, rfl, hm, hown⟩ |
    ⟨k, rfl, hrem, hown⟩
  · rw [hsame]
    exact hvalid
  · exact hboot.settled.valid
  · have hstart : (if m.isFirst then s.ownership.remove.create else s.ownership).Valid := by
      split
      · exact Ownership.valid_create _
      · exact hvalid
    rw [hown]
    unfold linkOwnership
    by_cases h0 : m.index = 0
    · simp only [if_pos h0]
      exact hstart.begin _
    · simp only [if_neg h0]
      exact hstart
  · rw [hown]
    exact (Ownership.valid_create _).begin 0

theorem Booted.valid_run (hboot : Booted s) (h : Trace.run step s es = .ok t) :
    t.ownership.Valid :=
  inv_reachable (I := fun s => s.ownership.Valid) (fun _ _ _ hI hu => valid_step hI hu)
    hboot.settled.valid ⟨es, h⟩

/-! ## Packets of priorities -/

/-- The commands of an MQTT packet of priorities with these bytes behind its first four. -/
def priorityCommands (lo hi : UInt8) (args : List UInt8) : List Event :=
  (actionPairs args (actionCount (mqttLength lo hi))).map fun p => .mqttPriority p.1 p.2

theorem moduleNum_mqttPriority {index value : UInt8} (h : step s (.mqttPriority index value) = .ok t) :
    t.moduleNum = s.moduleNum := by
  change s.setModulePriority index value = .ok t at h
  obtain ⟨-, modules, -, rfl⟩ := modifyModule_eq_ok.1 h
  rfl

/-- A list of priority commands.  Induction on the list; none of them links a module. -/
theorem indicesInRange_priorities (hvalid : s.ownership.Valid) (ps : List (UInt8 × UInt8)) :
    EachStep step IndicesInRange s (ps.map fun p => .mqttPriority p.1 p.2) ↔
      ∀ p ∈ ps, p.1.toNat < min s.moduleNum maxModuleNum := by
  induction ps generalizing s with
  | nil => exact iff_of_true eachStep_nil (List.forall_mem_nil _)
  | cons p ps ih =>
    have hfirst : IndicesInRange s (.mqttPriority p.1 p.2) ↔
        p.1.toNat < min s.moduleNum maxModuleNum := indicesInRange_step hvalid trivial
    rw [List.map_cons, eachStep_cons, List.forall_mem_cons, hfirst]
    refine and_congr_right fun hlt => ?_
    obtain ⟨t, ht⟩ : ∃ t, step s (.mqttPriority p.1 p.2) = .ok t :=
      ⟨_, dif_pos (lt_of_lt_of_le hlt (min_le_right _ _))⟩
    rw [← moduleNum_mqttPriority ht, ← ih (valid_step hvalid ht)]
    constructor
    · exact fun h => h t ht
    · intro h u hu
      rw [ht] at hu
      cases hu
      exact h

/-! ## Runs -/

/-- **Every index is in range**, for every command of a run, exactly if every command has an
address that fits; and a packet of priorities is its commands, one after the other. -/
theorem indicesInRange_iff (hboot : Booted s) (es : List Event) :
    (EachStep step (fun s e => IsCommand e → IndicesInRange s e) s es ↔
      EachStep step (fun s e => IsCommand e → AddressFits s e) s es) ∧
    ∀ t lo hi args, Trace.run step s es = .ok t → 2 * actionCount (mqttLength lo hi) ≤ args.length →
      mqttData t (mqttCmdDoAction :: lo :: hi :: mqttDataPriority :: args) =
        Trace.run step t (priorityCommands lo hi args) ∧
      (EachStep step IndicesInRange t (priorityCommands lo hi args) ↔
        ∀ p ∈ actionPairs args (actionCount (mqttLength lo hi)),
          p.1.toNat < min t.moduleNum maxModuleNum) := by
  refine ⟨⟨fun h before e after t hes ht hcmd => ?_, fun h before e after t hes ht hcmd => ?_⟩,
    fun t lo hi args ht hlen => ?_⟩
  · exact (indicesInRange_step (hboot.valid_run ht) hcmd).1 (h before e after t hes ht hcmd)
  · exact (indicesInRange_step (hboot.valid_run ht) hcmd).2 (h before e after t hes ht hcmd)
  · exact ⟨mqttData_priority t lo hi args hlen, indicesInRange_priorities (hboot.valid_run ht) _⟩

/-- The link message of an only module, a report from it, and a priority for it. -/
def oneUpdated : List Event :=
  [.uart 0 (LinkFields.msg ⟨1, 1, [0x61], 0, true⟩),
    .uart 0 (.updateData 1 moduleSwitchState 0 0), .mqttPriority 0 5]

/-- A module is linked and its state, its current and its priority are updated, the priority again
by a packet. -/
theorem indicesInRange_onlyModule :
    EachStep step (fun s e => IsCommand e → IndicesInRange s e) State.bootDefault oneUpdated ∧
      ∃ t, Trace.run step State.bootDefault oneUpdated = .ok t ∧
        EachStep step IndicesInRange t (priorityCommands 3 0 [0, 5]) := by
  obtain ⟨hruns, hpackets⟩ := indicesInRange_iff booted_bootDefault oneUpdated
  constructor
  · apply hruns.2
    obtain ⟨u, hu, hcheck⟩ := exists_of_okAnd (p := fun u => u.moduleNum = 1 ∧
        okAnd (step u (.uart 0 (.updateData 1 moduleSwitchState 0 0))) fun v => v.moduleNum = 1)
      (x := step State.bootDefault (.uart 0 (LinkFields.msg ⟨1, 1, [0x61], 0, true⟩)))
      (by decide +kernel)
    obtain ⟨hnum, hcheck⟩ := of_decide_eq_true hcheck
    obtain ⟨v, hv, hcheck⟩ := exists_of_okAnd hcheck
    have hnum' : v.moduleNum = 1 := of_decide_eq_true hcheck
    have hdec : decodeLink (LinkFields.toData ⟨1, 1, [0x61], 0, true⟩) =
        .ok (LinkFields.decoded ⟨1, 1, [0x61], 0, true⟩) :=
      LinkFields.decodeLink_toData ⟨le_rfl, le_rfl, by decide⟩
    refine eachStep_cons.2 ⟨fun _ => ⟨fun h => ?_, fun m hm => ?_⟩, fun u' hu' => ?_⟩
    · rw [hdec] at h
      cases h
    · rw [hdec] at hm
      cases hm
      exact ⟨by decide, fun _ _ hne => absurd rfl hne⟩
    · rw [hu] at hu'
      cases hu'
      refine eachStep_cons.2 ⟨fun _ => ⟨fun _ => ?_, fun h => absurd h (by decide)⟩,
        fun v' hv' => ?_⟩
      · rw [hnum]
        decide
      · rw [hv] at hv'
        cases hv'
        refine eachStep_cons.2 ⟨fun _ => ?_, fun _ _ => eachStep_nil⟩
        show (0 : UInt8).toNat < min v.moduleNum maxModuleNum
        rw [hnum']
        decide
  · obtain ⟨t, ht, hcheck⟩ := exists_of_okAnd (p := fun t => t.moduleNum = 1)
      (x := Trace.run step State.bootDefault oneUpdated) (by decide +kernel)
    have hnum : t.moduleNum = 1 := of_decide_eq_true hcheck
    refine ⟨t, ht, ((hpackets t 3 0 [0, 5] ht (by decide)).2).2 ?_⟩
    rw [hnum, show actionPairs [0, 5] (actionCount (mqttLength 3 0)) = [(0, 5)] by decide]
    exact List.forall_mem_singleton.2 (by decide)

/-- A report from address 0, before any module is linked, is stored far past the end of the
table. -/
theorem not_indicesInRange_zero :
    step State.bootDefault (.uart 0 (.updateData 0 moduleSwitchState 1 0)) =
        .error (.outOfBounds 255) ∧
      ¬ EachStep step (fun s e => IsCommand e → IndicesInRange s e) State.bootDefault
        [.uart 0 (.updateData 0 moduleSwitchState 1 0)] := by
  refine ⟨rfl, fun h => ?_⟩
  exact (h [] _ [] State.bootDefault rfl rfl trivial).access ⟨255, rfl⟩

end NinaHomekit
