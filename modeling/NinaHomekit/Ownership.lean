import NinaHomekit.System

/-!
# Who holds the accessory

The accessory is held by `HomekitClass::_accessory`, by `primary_acc` of the SDK and, through
their characteristics, by the slots of the table.  It is deleted by the first message of a
link sequence and by a live check, and registered again by the last message.

* `Ownership` — the pointers and the marks of deletion, nothing else; `remove`, `create` and
  `begin` are what the code does to them.
* `Ownership.Safe` — nothing held is deleted.  `Ownership.Settled` — moreover the three
  holders agree; this is the invariant.
* `step_ownership` — **what an event does to the ownership.**
* `noDangling_iff` — **nothing dangles along a run exactly if no accessory is removed while
  it is still held.**
-/

namespace NinaHomekit

open Trace

/-! ## Ownership -/

/-- The pointers to accessories, and which accessories are deleted. -/
structure Ownership where
  accessory : Option AccPtr
  primaryAcc : Option AccPtr
  deleted : List Bool
  hcs : List (Option AccPtr)

namespace Ownership

/-- An accessory that is not deleted. -/
def Live (o : Ownership) (a : AccPtr) : Prop := o.deleted[a]? = some false

/-- Nothing that is held is deleted. -/
structure Safe (o : Ownership) : Prop where
  primaryAcc : ∀ a, o.primaryAcc = some a → o.Live a
  hcs : ∀ a, some a ∈ o.hcs → o.Live a

/-- The holders agree on one accessory, which is not deleted. -/
structure Settled (o : Ownership) : Prop where
  live : ∀ a, o.accessory = some a → o.Live a
  primaryAcc : ∀ a, o.primaryAcc = some a → o.accessory = some a
  hcs : ∀ a, some a ∈ o.hcs → o.primaryAcc = some a

/-- The accessory exists. -/
def Valid (o : Ownership) : Prop := ∀ a, o.accessory = some a → a < o.deleted.length

theorem Settled.valid {o : Ownership} (h : o.Settled) : o.Valid := fun a ha =>
  (List.getElem?_eq_some_iff.1 (h.live a ha)).1

theorem Settled.safe {o : Ownership} (h : o.Settled) : o.Safe where
  primaryAcc a ha := h.live a (h.primaryAcc a ha)
  hcs a ha := h.live a (h.primaryAcc a (h.hcs a ha))

/-- The accessory is deleted if one is registered. -/
def remove (o : Ownership) : Ownership :=
  match o.accessory with
  | none => o
  | some a =>
    if o.primaryAcc.isSome then { o with deleted := o.deleted.set a true } else o

/-- A new accessory. -/
def create (o : Ownership) : Ownership :=
  { o with accessory := some o.deleted.length, deleted := o.deleted ++ [false] }

/-- The first `n` slots point to the accessory, which is registered. -/
def begin (o : Ownership) (n : Nat) : Ownership :=
  match o.accessory with
  | none => o
  | some a =>
    { o with
      hcs := o.hcs.mapIdx fun i hc => if i < n then some a else hc
      primaryAcc := some a }

variable {o : Ownership}

theorem valid_create (o : Ownership) : o.create.Valid := by
  intro a ha
  cases ha
  simp [create]

@[simp] theorem primaryAcc_remove (o : Ownership) : o.remove.primaryAcc = o.primaryAcc := by
  unfold remove
  split
  · rfl
  · split <;> rfl

@[simp] theorem hcs_remove (o : Ownership) : o.remove.hcs = o.hcs := by
  unfold remove
  split
  · rfl
  · split <;> rfl

theorem remove_of_none (h : o.primaryAcc.isSome = false) : o.remove = o := by
  unfold remove
  split
  · rfl
  · rw [if_neg (by simp [h])]

theorem remove_of_accessory_none (h : o.accessory = none) : o.remove = o := by
  unfold remove
  rw [h]

theorem remove_of_some {a : AccPtr} (h : o.accessory = some a)
    (hreg : o.primaryAcc.isSome = true) :
    o.remove = { o with deleted := o.deleted.set a true } := by
  unfold remove
  rw [h]
  exact if_pos hreg

theorem length_deleted_remove (o : Ownership) : o.remove.deleted.length = o.deleted.length := by
  unfold remove
  split
  · rfl
  · split <;> simp

/-- The registered accessory does not survive its removal. -/
theorem Settled.not_live_remove (h : o.Settled) {a : AccPtr} (ha : o.primaryAcc = some a) :
    ¬ o.remove.create.Live a := by
  have hacc := h.primaryAcc a ha
  have hlt := h.valid a hacc
  have hrem := remove_of_some hacc (by simp [ha])
  show (o.remove.deleted ++ [false])[a]? ≠ some false
  rw [hrem, List.getElem?_append_left (by simpa using hlt)]
  simp [hlt]

/-- A new accessory while none is registered. -/
theorem Settled.create (h : o.Settled) (hnone : o.primaryAcc = none) : o.create.Settled where
  live a ha := by
    cases ha
    simp [Live, Ownership.create]
  primaryAcc a ha := by
    rw [show o.create.primaryAcc = o.primaryAcc from rfl, hnone] at ha
    cases ha
  hcs a ha := h.hcs a ha

theorem begin_of_none {n : Nat} (h : o.accessory = none) : o.begin n = o := by
  unfold Ownership.begin
  rw [h]

theorem begin_of_some {n : Nat} {a : AccPtr} (h : o.accessory = some a) : o.begin n = { o with
    hcs := o.hcs.mapIdx fun i hc => if i < n then some a else hc
    primaryAcc := some a } := by
  unfold Ownership.begin
  rw [h]

/-- Registering the accessory the holders agree on. -/
theorem Settled.begin (h : o.Settled) (n : Nat) : (o.begin n).Settled := by
  rcases Option.eq_none_or_eq_some o.accessory with hacc | ⟨a, hacc⟩
  · rwa [begin_of_none hacc]
  · rw [begin_of_some hacc]
    refine ⟨h.live, ?_, ?_⟩
    · intro b hb
      rw [hacc]
      exact hb
    · intro b hb
      obtain ⟨i, hi, hget⟩ := List.mem_mapIdx.1 hb
      by_cases hin : i < n
      · rw [if_pos hin] at hget
        exact hget
      · rw [if_neg hin] at hget
        have hold := h.primaryAcc b (h.hcs b (hget ▸ List.getElem_mem hi))
        rw [hacc] at hold
        exact hold

/-- A registered accessory is replaced by a new one: this is safe exactly if no slot still
points to the old one. -/
theorem Settled.replace (h : o.Settled) (n : Nat) {a : AccPtr} (ha : o.primaryAcc = some a) :
    ((o.remove.create.begin n).Safe ↔ ∀ hc ∈ o.hcs.drop n, hc = none) ∧
      ((∀ hc ∈ o.hcs.drop n, hc = none) → (o.remove.create.begin n).Settled) := by
  set new := o.remove.deleted.length with hnew
  have hbegin : o.remove.create.begin n = { o.remove.create with
      hcs := o.hcs.mapIdx fun i hc => if i < n then some new else hc
      primaryAcc := some new } := by
    rw [← hcs_remove o]
    rfl
  have hlive : o.remove.create.Live new := by simp [Live, Ownership.create, hnew]
  have hold : ∀ b, some b ∈ o.hcs.drop n → b = a := by
    intro b hb
    have hb' := h.hcs b (List.mem_of_mem_drop hb)
    rw [ha] at hb'
    exact (Option.some.inj hb').symm
  have hdrop : ∀ hc ∈ o.hcs.drop n,
      hc ∈ o.hcs.mapIdx fun i hc => if i < n then some new else hc := by
    intro hc hmem
    obtain ⟨i, hi, hget⟩ := List.mem_drop_iff_getElem.1 hmem
    refine List.mem_mapIdx.2 ⟨n + i, by omega, ?_⟩
    rw [if_neg (by omega)]
    simpa [Nat.add_comm] using hget
  have hsettled : (∀ hc ∈ o.hcs.drop n, hc = none) → (o.remove.create.begin n).Settled := by
    intro hnone
    rw [hbegin]
    refine ⟨fun b hb => ?_, fun b hb => hb, fun b hb => ?_⟩
    · cases hb
      exact hlive
    · obtain ⟨i, hi, hget⟩ := List.mem_mapIdx.1 hb
      by_cases hin : i < n
      · rw [if_pos hin] at hget
        exact hget
      · rw [if_neg hin] at hget
        have hmem : some b ∈ o.hcs.drop n := by
          refine List.mem_drop_iff_getElem.2 ⟨i - n, by omega, ?_⟩
          simpa [show i - n + n = i by omega, show n + (i - n) = i by omega] using hget
        cases hnone _ hmem
  refine ⟨⟨fun hsafe hc hmem => ?_, fun hnone => (hsettled hnone).safe⟩, hsettled⟩
  cases hc with
  | none => rfl
  | some b =>
    have hb := hold b hmem
    rw [hbegin] at hsafe
    have := hsafe.hcs b (hdrop _ hmem)
    rw [hb] at this
    exact absurd this (h.not_live_remove ha)

end Ownership

/-! ## What the handlers do to it -/

namespace State

/-- The ownership in a state. -/
def ownership (s : State) : Ownership where
  accessory := s.accessory
  primaryAcc := s.db.primaryAcc
  deleted := s.db.accs.map HapAcc.deleted
  hcs := s.slots.map fun m => m.hc.map CharPtr.acc

variable {s t : State}

theorem deleted_removedDb (s : State) :
    s.removedDb.accs.map HapAcc.deleted = s.ownership.remove.deleted := by
  unfold removedDb
  cases hreg : s.db.primaryAcc.isSome with
  | false =>
    rw [Ownership.remove_of_none hreg]
    rfl
  | true =>
    rw [if_pos rfl]
    rcases Option.eq_none_or_eq_some s.accessory with hacc | ⟨a, hacc⟩
    · rw [Ownership.remove_of_accessory_none hacc, hacc]
      rfl
    · rw [Ownership.remove_of_some hacc hreg, hacc]
      show (s.db.accs.modify a _).map HapAcc.deleted = (s.db.accs.map HapAcc.deleted).set a true
      refine List.ext_getElem? fun i => ?_
      simp only [List.getElem?_map, List.getElem?_modify, List.getElem?_set, List.length_map]
      by_cases hi : a = i
      · subst hi
        by_cases hlt : a < s.db.accs.length
        · simp [hlt]
        · simp [hlt]
      · simp [hi]

theorem primaryAcc_removedDb (s : State) : s.removedDb.primaryAcc = s.db.primaryAcc := by
  unfold removedDb
  split
  · cases s.accessory <;> rfl
  · rfl

theorem length_deleted_ownership (s : State) :
    s.ownership.remove.deleted.length = s.db.accs.length :=
  (Ownership.length_deleted_remove s.ownership).trans (List.length_map _)

/-- Removing the modules and creating an accessory. -/
theorem ownership_linkFirst (s : State) : s.linkFirst.ownership = s.ownership.remove.create := by
  unfold linkFirst
  rw [createAccessory_removeModules]
  have hdel := deleted_removedDb s
  have hprim := primaryAcc_removedDb s
  simp only [ownership, Ownership.create, Ownership.primaryAcc_remove, Ownership.hcs_remove,
    Ownership.mk.injEq]
  refine ⟨?_, hprim, ?_, rfl⟩
  · exact congrArg some (length_deleted_ownership s).symm
  · rw [List.map_append]
    exact congrArg (· ++ [false]) hdel

/-- Registering the accessory. -/
theorem ownership_beginAccessory (hvalid : s.ownership.Valid) (h : s.beginAccessory = .ok t) :
    t.ownership = s.ownership.begin s.moduleNum := by
  obtain ⟨-, ⟨hacc, -, rfl⟩ | ⟨a, acc, modules, hacc, hfound, hlist, rfl⟩⟩ :=
    beginAccessory_eq_ok (fun a ha => by simpa [ownership] using hvalid a ha) h
  · exact (Ownership.begin_of_none hacc).symm
  · have hdel : (s.db.accs.set a { addModules acc s.linked with aid := 1 }).map HapAcc.deleted =
        s.db.accs.map HapAcc.deleted := by
      obtain ⟨hlt, rfl⟩ := List.getElem?_eq_some_iff.1 hfound
      have hlt' : a < (s.db.accs.map HapAcc.deleted).length := by simpa using hlt
      rw [List.map_set, show HapAcc.deleted { addModules s.db.accs[a] s.linked with aid := 1 } =
        (s.db.accs.map HapAcc.deleted)[a] by simp [deleted_addModules], List.set_getElem_self]
    have hhcs : modules.toList.map (fun m => m.hc.map CharPtr.acc) =
        (s.slots.map fun m => m.hc.map CharPtr.acc).mapIdx
          fun i hc => if i < s.moduleNum then some a else hc := by
      rw [hlist]
      refine List.ext_getElem? fun i => ?_
      simp only [List.getElem?_map, List.getElem?_mapIdx, Option.map_map]
      refine congrArg (fun f => Option.map f s.slots[i]?) (funext fun m => ?_)
      by_cases hi : i < s.moduleNum <;> simp [pointTo, hi]
    rw [Ownership.begin_of_some (o := s.ownership) hacc]
    simp only [ownership, Ownership.mk.injEq]
    exact ⟨trivial, trivial, hdel, hhcs⟩

/-- Whether a message is the first one of a sequence. -/
def LinkMsg.isFirst (m : LinkMsg) : Bool := m.index + 1 = m.total

/-- The ownership after a link message. -/
def linkOwnership (s : State) (m : LinkMsg) : Ownership :=
  let o := if m.isFirst then s.ownership.remove.create else s.ownership
  if m.index = 0 then
    o.begin ((if m.isFirst then 0 else s.systemStatus.numModules) + 1).toNat
  else o

theorem linkOwnership_of_first {m : LinkMsg} (h : m.isFirst = true) :
    linkOwnership s m = if m.index = 0 then s.ownership.remove.create.begin 1
      else s.ownership.remove.create := by
  unfold linkOwnership
  rw [h]
  rfl

theorem linkOwnership_of_not_first {m : LinkMsg} (h : m.isFirst = false) :
    linkOwnership s m = if m.index = 0 then
      s.ownership.begin (s.systemStatus.numModules + 1).toNat else s.ownership := by
  unfold linkOwnership
  rw [h]
  rfl

theorem ownership_linkStart (s : State) (m : LinkMsg) : (s.linkStart m).ownership =
    if m.isFirst then s.ownership.remove.create else s.ownership := by
  unfold linkStart
  by_cases hfirst : m.index + 1 = m.total
  · rw [if_pos hfirst, if_pos (by simp [LinkMsg.isFirst, hfirst]), ownership_linkFirst]
    rfl
  · rw [if_neg hfirst, if_neg (by simp [LinkMsg.isFirst, hfirst])]
    rfl

theorem ownership_linkLast {total : Int} (hvalid : s.ownership.Valid)
    (h : s.linkLast total = .ok t) : t.ownership = s.ownership.begin s.moduleNum := by
  unfold linkLast at h
  by_cases hneg : total < 0
  · rw [if_pos hneg] at h
    cases h
  · rw [if_neg hneg] at h
    obtain ⟨u, hu, h⟩ := bind_eq_ok.1 h
    have hown : u.ownership = s.ownership.begin s.moduleNum :=
      ownership_beginAccessory (s := s.linkAnnounce total) hvalid hu
    cases h
    exact hown

theorem ownership_linkDecoded {m : LinkMsg} (hvalid : s.ownership.Valid)
    (h : s.linkDecoded m = .ok t) : t.ownership = linkOwnership s m := by
  obtain ⟨u, hu, h⟩ := bind_eq_ok.1 h
  obtain ⟨-, nm, -, modules, hlist, rfl⟩ := addModule_eq_ok.1 hu
  set u : State := { s.linkStart m with
    modules := modules
    systemStatus := { (s.linkStart m).systemStatus with
      numModules := (s.linkStart m).systemStatus.numModules + 1 } } with hudef
  have hhcs : modules.toList.map (fun m => m.hc.map CharPtr.acc) =
      (s.linkStart m).slots.map fun m => m.hc.map CharPtr.acc := by
    rw [hlist]
    apply map_modify_of_eq
    intro m'
    rfl
  have hown : u.ownership = if m.isFirst then s.ownership.remove.create else s.ownership := by
    rw [← ownership_linkStart]
    exact congrArg (fun hcs => { (s.linkStart m).ownership with hcs := hcs }) hhcs
  have hnum : u.moduleNum =
      ((if m.isFirst then 0 else s.systemStatus.numModules) + 1).toNat := by
    show ((s.linkStart m).systemStatus.numModules + 1).toNat = _
    rw [systemStatus_linkStart]
    by_cases hfirst : m.index + 1 = m.total <;> simp [LinkMsg.isFirst, hfirst]
  have hvalid' : u.ownership.Valid := by
    rw [hown]
    split
    · exact Ownership.valid_create _
    · exact hvalid
  unfold linkOwnership
  dsimp only
  by_cases hlast : m.index = 0
  · rw [if_pos hlast] at h
    rw [if_pos hlast, ownership_linkLast hvalid' h, hown, hnum]
  · rw [if_neg hlast] at h
    rw [if_neg hlast, ← Except.ok.inj h, hown]

/-- The removal by a live check. -/
theorem ownership_liveRemove (h : s.liveRemove = .ok t) :
    t.ownership = s.ownership.remove.create.begin 0 := by
  rw [liveRemove_eq] at h
  cases h
  have hlen := length_deleted_ownership s
  rw [Ownership.begin_of_some (show s.ownership.remove.create.accessory = some _ from rfl)]
  simp only [ownership, Ownership.create, Ownership.hcs_remove, Ownership.mk.injEq]
  refine ⟨congrArg some hlen.symm, congrArg some hlen.symm, ?_, ?_⟩
  · rw [List.map_append]
    exact congrArg (· ++ [false]) (deleted_removedDb s)
  · refine List.ext_getElem? fun i => ?_
    simp only [List.getElem?_mapIdx, Nat.not_lt_zero, if_false, Option.map_id']
    rfl

end State

/-! ## Events -/

open State

variable {s t : State} {e : Event}

theorem State.ownership_eq (hacc : t.accessory = s.accessory)
    (hprim : t.db.primaryAcc = s.db.primaryAcc)
    (hdel : t.db.accs.map HapAcc.deleted = s.db.accs.map HapAcc.deleted)
    (hhcs : t.slots.map ModuleT.hc = s.slots.map ModuleT.hc) : t.ownership = s.ownership := by
  have hacc' : t.slots.map (fun m => m.hc.map CharPtr.acc) =
      s.slots.map fun m => m.hc.map CharPtr.acc := by
    have := congrArg (List.map (Option.map CharPtr.acc)) hhcs
    rwa [List.map_map, List.map_map] at this
  unfold State.ownership
  rw [hacc, hprim, hdel, hacc']

theorem State.ownership_setModuleSwitchState {index state : UInt8}
    (h : s.setModuleSwitchState index state = .ok t) : t.ownership = s.ownership := by
  obtain ⟨u, hu, h⟩ := bind_eq_ok.1 h
  obtain ⟨-, modules, hlist, rfl⟩ := modifyModule_eq_ok.1 hu
  obtain ⟨m, -, h⟩ := bind_eq_ok.1 h
  cases h
  obtain ⟨hdel, hprim⟩ := HapDb.map_accs_charUpdateVal HapAcc.deleted (fun _ _ => rfl) s.db m.hc
    (.b (state != 0))
  refine ownership_eq rfl hprim hdel ?_
  show modules.toList.map ModuleT.hc = _
  rw [hlist]
  apply map_modify_of_eq
  intro m'
  rfl

/-- The accessory is not removed while it is held: a first message that finds one registered
is the only one of its sequence, and but for its own slot none points to a characteristic; a
live check that removes the modules finds no slot that does. -/
def KeepsAccessory (s : State) : Event → Prop
  | .uart _ (.linkModule (some data)) =>
    ∀ m, decodeLink data = .ok m → m.isFirst = true → s.db.primaryAcc.isSome = true →
      m.index = 0 ∧ ∀ module ∈ s.slots.drop 1, module.hc = none
  | .live k =>
    s.LiveRemoves k → s.db.primaryAcc.isSome = true → ∀ module ∈ s.slots, module.hc = none
  | _ => True

/-- **What an event does to the ownership.**  Only link messages and the removals of the live
checks change it, unless the firmware restarts. -/
theorem step_ownership (hvalid : s.ownership.Valid) (h : step s e = .ok t) :
    (t.ownership = s.ownership ∧ KeepsAccessory s e) ∨ Booted t ∧ KeepsAccessory s e ∨
      (∃ now data m, e = .uart now (.linkModule (some data)) ∧ decodeLink data = .ok m ∧
        t.ownership = linkOwnership s m) ∨
      ∃ k, e = .live k ∧ s.LiveRemoves k ∧ t.ownership = s.ownership.remove.create.begin 0 := by
  cases e with
  | uart now msg =>
    cases msg with
    | linkModule data =>
      cases data with
      | none =>
        cases h
        exact Or.inl ⟨rfl, trivial⟩
      | some data =>
        obtain ⟨m, hm, ht⟩ := linkModule_eq_ok.1 h
        exact Or.inr (Or.inr (Or.inl ⟨now, data, m, rfl, hm, ownership_linkDecoded hvalid ht⟩))
    | updateData addr type lo hi =>
      change s.updateData now addr type lo hi = .ok t at h
      unfold updateData at h
      split at h
      · exact Or.inl ⟨ownership_setModuleSwitchState h, trivial⟩
      · split at h
        · obtain ⟨trip, htrip⟩ := CurrentUpdate.of_ok h
          obtain ⟨hacc, -, hdb⟩ := htrip.homekit
          refine Or.inl ⟨ownership_eq hacc (by rw [hdb]) (by rw [hdb]) ?_, trivial⟩
          rw [htrip.slots]
          apply map_modify_of_eq
          intro m
          rfl
        · cases h
          exact Or.inl ⟨rfl, trivial⟩
    | _ => cases h; exact Or.inl ⟨rfl, trivial⟩
  | live k =>
    rcases liveCheck_cases h with ⟨hrem, u, hu, rfl⟩ |
      ⟨hno, queue, connected, removed, tasks, rfl⟩
    · have hown := ownership_liveRemove hu
      exact Or.inr (Or.inr (Or.inr ⟨k, rfl, hrem, hown⟩))
    · exact Or.inl ⟨rfl, fun hrem => absurd hrem hno⟩
  | setChar session curTime garbage body =>
    obtain ⟨r, hr, h⟩ := bind_eq_ok.1 h
    cases h
    obtain ⟨db, queue, hcore, hstate⟩ := handleSetChar_frame hr
    rw [hstate]
    exact Or.inl ⟨ownership_eq rfl hcore.primaryAcc (hcore.map_eq _ fun _ => rfl) rfl, trivial⟩
  | mqttSwitch index on =>
    rw [doModulesAction_eq_ok h]
    exact Or.inl ⟨rfl, trivial⟩
  | mqttPriority index value =>
    change s.modifyModule index (fun m => { m with priority := value }) = .ok t at h
    obtain ⟨-, modules, hlist, rfl⟩ := modifyModule_eq_ok.1 h
    refine Or.inl ⟨ownership_eq rfl rfl rfl ?_, trivial⟩
    show modules.toList.map ModuleT.hc = _
    rw [hlist]
    apply map_modify_of_eq
    intro m
    rfl
  | resetToFactory =>
    unfold step at h
    simp only at h
    split at h <;> cases h <;> exact Or.inl ⟨rfl, trivial⟩
  | restart deviceName enablePop =>
    cases h
    exact Or.inr (Or.inl ⟨⟨_, _, rfl⟩, trivial⟩)
  | _ => cases h; exact Or.inl ⟨rfl, trivial⟩


/-! ## Nothing dangles -/

/-- An accessory that exists and is not deleted. -/
def HapDb.Live (db : HapDb) (a : AccPtr) : Prop :=
  ∃ acc, db.accs[a]? = some acc ∧ acc.deleted = false

/-- `primary_acc` is null or not deleted, and every characteristic a slot points to belongs to
an accessory that is not deleted. -/
structure NoDangling (s : State) : Prop where
  primaryAcc : ∀ a, s.db.primaryAcc = some a → s.db.Live a
  hc : ∀ m ∈ s.slots, ∀ p, m.hc = some p → s.db.Live p.acc

theorem noDangling_iff_safe : NoDangling s ↔ s.ownership.Safe := by
  have hlive : ∀ a, s.db.Live a ↔ s.ownership.Live a := by
    intro a
    simp [HapDb.Live, Ownership.Live, ownership]
  have hmem : ∀ a, some a ∈ s.ownership.hcs ↔ ∃ m ∈ s.slots, ∃ p, m.hc = some p ∧ p.acc = a := by
    intro a
    simp [ownership]
  constructor
  · intro h
    refine ⟨fun a ha => (hlive a).1 (h.primaryAcc a ha), fun a ha => ?_⟩
    obtain ⟨m, hm, p, hp, rfl⟩ := (hmem a).1 ha
    exact (hlive _).1 (h.hc m hm p hp)
  · intro h
    refine ⟨fun a ha => (hlive a).2 (h.primaryAcc a ha), fun m hm p hp => ?_⟩
    exact (hlive _).2 (h.hcs _ ((hmem _).2 ⟨m, hm, p, hp, rfl⟩))

theorem Booted.settled (h : Booted s) : s.ownership.Settled := by
  obtain ⟨deviceName, enablePop, rfl⟩ := h
  refine ⟨fun a ha => (by cases ha), fun a ha => (by cases ha), fun a ha => ?_⟩
  simp [ownership, slots, State.boot, ModuleT.zero] at ha

/-- The slots from the `n`th on point to nothing. -/
theorem forall_hcs_drop (s : State) (n : Nat) :
    (∀ hc ∈ s.ownership.hcs.drop n, hc = none) ↔ ∀ module ∈ s.slots.drop n, module.hc = none := by
  simp [ownership, ← List.map_drop]

/-- **The step lemma.**  From an agreement of the holders, an event leaves nothing dangling
exactly if the accessory is not removed while it is held, and then they agree again. -/
theorem noDangling_step (hI : s.ownership.Settled) (h : step s e = .ok t) :
    (NoDangling t ↔ KeepsAccessory s e) ∧ (KeepsAccessory s e → t.ownership.Settled) := by
  rw [noDangling_iff_safe]
  have hsettled : t.ownership.Settled → KeepsAccessory s e →
      (t.ownership.Safe ↔ KeepsAccessory s e) ∧ (KeepsAccessory s e → t.ownership.Settled) :=
    fun ht hk => ⟨⟨fun _ => hk, fun _ => ht.safe⟩, fun _ => ht⟩
  rcases step_ownership hI.valid h with ⟨hsame, hk⟩ | ⟨hboot, hk⟩ |
    ⟨now, data, m, rfl, hm, hown⟩ | ⟨k, rfl, hrem, hown⟩
  · exact hsettled (hsame ▸ hI) hk
  · exact hsettled hboot.settled hk
  · have hkeeps : KeepsAccessory s (.uart now (.linkModule (some data))) ↔
        (m.isFirst = true → s.db.primaryAcc.isSome = true →
          m.index = 0 ∧ ∀ module ∈ s.slots.drop 1, module.hc = none) := by
      constructor
      · exact fun hall => hall m hm
      · intro hthis m' hm'
        rw [hm] at hm'
        cases hm'
        exact hthis
    cases hfirst : m.isFirst with
    | false =>
      rw [linkOwnership_of_not_first hfirst] at hown
      refine hsettled ?_ (hkeeps.2 fun hf => by simp [hfirst] at hf)
      rw [hown]
      split
      · exact hI.begin _
      · exact hI
    | true =>
      rw [linkOwnership_of_first hfirst] at hown
      cases hreg : s.db.primaryAcc with
      | none =>
        have hcreate : s.ownership.remove.create.Settled := by
          rw [Ownership.remove_of_none (by simp [ownership, hreg])]
          exact hI.create hreg
        refine hsettled ?_ (hkeeps.2 fun _ hsome => by simp [hreg] at hsome)
        rw [hown]
        split
        · exact hcreate.begin _
        · exact hcreate
      | some a =>
        by_cases hlast : m.index = 0
        · have hreplace := hI.replace 1 (a := a) hreg
          rw [forall_hcs_drop] at hreplace
          have hown' : t.ownership = s.ownership.remove.create.begin 1 := by
            rw [hown, if_pos hlast]
          rw [hown', hkeeps]
          simpa [hfirst, hreg, hlast] using hreplace
        · have hunsafe : ¬ t.ownership.Safe := by
            intro hsafe
            rw [hown, if_neg hlast] at hsafe
            refine hI.not_live_remove (a := a) hreg (hsafe.primaryAcc a ?_)
            show s.ownership.remove.primaryAcc = some a
            rw [Ownership.primaryAcc_remove]
            exact hreg
          have hnot : ¬ KeepsAccessory s (.uart now (.linkModule (some data))) := fun hk =>
            hlast (hkeeps.1 hk hfirst (by simp [hreg])).1
          exact ⟨iff_of_false hunsafe hnot, fun hk => absurd hk hnot⟩
  · have hkeeps : KeepsAccessory s (.live k) ↔
        (s.db.primaryAcc.isSome = true → ∀ module ∈ s.slots, module.hc = none) :=
      ⟨fun hall => hall hrem, fun hthis _ => hthis⟩
    cases hreg : s.db.primaryAcc with
    | none =>
      refine hsettled ?_ (hkeeps.2 fun hsome => by simp [hreg] at hsome)
      rw [hown, Ownership.remove_of_none (by simp [ownership, hreg])]
      exact (hI.create hreg).begin 0
    | some a =>
      have hreplace := hI.replace 0 (a := a) hreg
      rw [forall_hcs_drop, List.drop_zero] at hreplace
      rw [hown, hkeeps]
      simpa [hreg] using hreplace

/-- **Nothing dangles along a run** exactly if no step removes the accessory while it is still
held. -/
theorem noDangling_iff (hboot : Booted s) {es : List Event} (h : Trace.run step s es = .ok t) :
    EachState step NoDangling s es ↔ EachStep step KeepsAccessory s es :=
  eachState_iff_of_inv (I := fun s => s.ownership.Settled)
    (fun _ hI => noDangling_iff_safe.2 hI.safe) (fun _ _ _ hI hs => noDangling_step hI hs)
    hboot.settled h

/-- A module is linked and reports that it is off. -/
theorem noDangling_onlyModule :
    EachState step NoDangling State.bootDefault
      [.uart 0 (LinkFields.msg ⟨1, 1, [0x61], 0, true⟩),
        .uart 0 (.updateData 1 moduleSwitchState 0 0)] := by
  obtain ⟨t, ht, -⟩ := exists_of_okAnd (p := fun _ => true) (x := Trace.run step State.bootDefault
    [.uart 0 (LinkFields.msg ⟨1, 1, [0x61], 0, true⟩),
      .uart 0 (.updateData 1 moduleSwitchState 0 0)]) (by decide +kernel)
  refine (noDangling_iff booted_bootDefault ht).2 (eachStep_cons.2 ⟨?_, fun _ _ =>
    eachStep_cons.2 ⟨trivial, fun _ _ => eachStep_nil⟩⟩)
  intro m _ _ hreg
  cases hreg

/-- A module is linked, and then the first of two modules announces itself: the accessory that
is registered is deleted. -/
theorem dangling_relink :
    ¬ EachState step NoDangling State.bootDefault
      [.uart 0 (LinkFields.msg ⟨1, 1, [0x61], 0, true⟩),
        .uart 0 (LinkFields.msg ⟨2, 2, [0x62], 0, true⟩)] := by
  intro h
  obtain ⟨t, ht, hcheck⟩ := exists_of_okAnd (x := Trace.run step State.bootDefault
      [.uart 0 (LinkFields.msg ⟨1, 1, [0x61], 0, true⟩),
        .uart 0 (LinkFields.msg ⟨2, 2, [0x62], 0, true⟩)])
    (p := fun t => t.db.primaryAcc = some 0 ∧ t.db.accs[0]?.map HapAcc.deleted = some true)
    (by decide +kernel)
  obtain ⟨hprim, hdel⟩ := of_decide_eq_true hcheck
  obtain ⟨acc, hacc, hlive⟩ := (h _ [] t rfl ht).primaryAcc 0 hprim
  rw [hacc, Option.map_some, hlive] at hdel
  cases hdel

end NinaHomekit
