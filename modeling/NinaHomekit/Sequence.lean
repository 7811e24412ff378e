import NinaHomekit.System

/-!
# Complete link sequences

What a link sequence that arrives complete and in order builds, one message at a time.

* `InOrder` — the messages `addr = n, …, 1` of a sequence of `total`.
* `Linking` — between two messages: `c` modules are counted, and the accessory is new.
* `Completed` — after the last message: the accessory has the services of the linked modules
  behind its own two, each slot points to its service, and the accessory is registered.
* `linkMsg_of_linking` — **a message counts its module, and the last one completes.**
-/

namespace NinaHomekit

open Trace State

variable {s t u : State} {c : Nat} {m : LinkFields}

/-- The messages with addresses `n, …, 1` of a sequence of `total` modules. -/
structure InOrder (total n : Nat) (ms : List LinkFields) : Prop where
  addr : ms.map LinkFields.addr = (List.range' 1 n).reverse
  same : ∀ m ∈ ms, m.total = total
  le : n ≤ total
  total_le : total ≤ maxModuleNum

theorem InOrder.wellFormed {total n : Nat} {ms : List LinkFields} (h : InOrder total n ms) :
    ∀ m ∈ ms, m.WellFormed := by
  intro m hm
  have haddr : m.addr ∈ (List.range' 1 n).reverse := h.addr ▸ List.mem_map_of_mem hm
  rw [List.mem_reverse, List.mem_range'_1] at haddr
  have htotal := h.same m hm
  have hle := h.le
  exact ⟨haddr.1, by omega, by rw [htotal]; exact h.total_le⟩

/-- The first message of those that are left. -/
theorem InOrder.cons {total n : Nat} {ms : List LinkFields} (h : InOrder total n (m :: ms)) :
    m.addr = n ∧ 1 ≤ n ∧ InOrder total (n - 1) ms := by
  have haddr := h.addr
  cases n with
  | zero => simp at haddr
  | succ n =>
    rw [List.range'_1_concat, List.reverse_append, List.map_cons] at haddr
    obtain ⟨hm, hms⟩ := List.cons.inj haddr
    have hle := h.le
    exact ⟨by omega, by omega, hms, fun k hk => h.same k (List.mem_cons_of_mem _ hk),
      by omega, h.total_le⟩

theorem InOrder.length {total n : Nat} {ms : List LinkFields} (h : InOrder total n ms) :
    ms.length = n := by
  simpa using congrArg List.length h.addr

/-- An accessory as `createAccessory` makes it, registered or not. -/
def HapAcc.New (acc : HapAcc) : Prop :=
  ∃ (s : State) (aid : Nat), acc = { s.freshAcc with aid := aid }

/-- A sequence is on its way: `c` modules are counted, and the accessory is a new one. -/
structure Linking (c : Nat) (s : State) : Prop where
  num : s.moduleNum = c
  uninitialized : s.systemStatus.moduleInitialized = false
  new : ∃ a acc, s.accessory = some a ∧ s.db.accs[a]? = some acc ∧ acc.New

/-- The sequence is complete: the accessory `a` is registered with the services of the linked
modules, `ms` being the table before the slots were made to point to them. -/
structure Completed (t : State) (a : AccPtr) (base : HapAcc) (ms : List ModuleT) : Prop where
  num_le : t.moduleNum ≤ maxModuleNum
  accessory : t.accessory = some a
  primaryAcc : t.db.primaryAcc = some a
  new : base.New
  acc : t.db.accs[a]? = some { addModules base (ms.take t.moduleNum) with aid := 1 }
  slots : t.slots = ms.mapIdx (pointTo a 2 t.moduleNum)
  initialized : t.systemStatus.moduleInitialized = true

theorem HapAcc.New.length_servs {acc : HapAcc} (h : acc.New) : acc.servs.length = 2 := by
  obtain ⟨s, aid, rfl⟩ := h
  rw [freshAcc_eq]
  rfl

/-- The first message leaves a new accessory and no module. -/
theorem linking_linkFirst (s : State) : Linking 0 s.linkFirst := by
  unfold linkFirst
  rw [createAccessory_removeModules]
  refine ⟨rfl, rfl, _, _, rfl, ?_, s, 0, rfl⟩
  rw [← length_removedDb]
  exact List.getElem?_concat_length

theorem Linking.linkStart (h : m.addr ≠ m.total → Linking c s) (hc : m.addr = m.total → c = 0) :
    Linking c (s.linkStart m.decoded) := by
  unfold State.linkStart
  by_cases hfirst : m.addr = m.total
  · rw [if_pos (by show ((m.addr : Int) - 1) + 1 = (m.total : Int); omega), hc hfirst]
    exact linking_linkFirst _
  · rw [if_neg (by show ¬ ((m.addr : Int) - 1) + 1 = (m.total : Int); omega)]
    exact ⟨(h hfirst).num, (h hfirst).uninitialized, (h hfirst).new⟩

/-- Counting a module. -/
theorem Linking.addModule (h : Linking c s) {index : UInt8} (hindex : index.toNat < maxModuleNum)
    (hc : c < maxModuleNum) (name : CStr) (type priority state : UInt8) :
    ∃ t, s.addModule index (some name) type priority state = .ok t ∧ Linking (c + 1) t ∧
      t.accessory = s.accessory ∧ t.db = s.db := by
  obtain ⟨v, hv⟩ : ∃ v, s.modifyModule index (fun module =>
      { module with
        name := some name, type := type, current := 0, priority := priority
        state := state != 0 }) = .ok v := ⟨_, dif_pos hindex⟩
  obtain ⟨-, modules, hlist, rfl⟩ := modifyModule_eq_ok.1 hv
  refine ⟨_, addModule_eq_ok.2 ⟨hindex, name, rfl, modules, hlist, rfl⟩,
    ⟨?_, h.uninitialized, h.new⟩, rfl, rfl⟩
  show (s.systemStatus.numModules + 1).toNat = c + 1
  have hnum : s.systemStatus.numModules.toNat = c := h.num
  have hmax : maxModuleNum = 20 := rfl
  rw [UInt8.toNat_add, hnum]
  exact Nat.mod_eq_of_lt (by rw [UInt8.toNat_one]; omega)

/-- The last message completes. -/
theorem Linking.linkLast (h : Linking c s) (hc : c ≤ maxModuleNum) (total : Nat) :
    ∃ t a base, s.linkLast total = .ok t ∧ t.moduleNum = c ∧ Completed t a base s.slots := by
  obtain ⟨hnum, -, a, acc, hacc, hfound, hnew⟩ := h
  obtain ⟨modules, hlist, hbegin⟩ := beginAccessory_eq (s := s.linkAnnounce total) hacc hfound
    (by show s.moduleNum ≤ _; omega)
  rw [hnew.length_servs] at hlist
  have hlt := (List.getElem?_eq_some_iff.1 hfound).1
  unfold State.linkLast
  rw [if_neg (by omega), hbegin]
  refine ⟨_, a, acc, rfl, hnum, ?_⟩
  refine ⟨by show s.moduleNum ≤ _; omega, hacc, rfl, hnew, ?_, hlist, rfl⟩
  show (s.db.accs.set a _)[a]? = _
  rw [List.getElem?_set_self hlt]
  rfl

/-- **A message of a sequence** counts its module, and the last one completes. -/
theorem linkMsg_of_linking (now : UInt32) (hwf : m.WellFormed)
    (h : m.addr ≠ m.total → Linking c s) (hc0 : m.addr = m.total → c = 0) (hc : c < maxModuleNum) :
    ∃ t, s.uartReceive now m.msg = .ok t ∧ t.moduleNum = c + 1 ∧ (m.addr ≠ 1 → Linking (c + 1) t) ∧
      (m.addr = 1 → ∃ a base ms, Completed t a base ms) := by
  have hstart := Linking.linkStart h hc0
  have hindex : (UInt8.ofInt m.decoded.index).toNat < maxModuleNum := by
    have := hwf.total_le
    have := hwf.addr_le
    have := hwf.addr_pos
    rw [hwf.toNat_index]
    omega
  obtain ⟨v, hv, hlink, -, -⟩ := hstart.addModule hindex hc m.decoded.name 0 m.decoded.pri
    m.decoded.switchState
  by_cases hlast : m.addr = 1
  · obtain ⟨t, a, base, ht, hnum, hcomp⟩ := hlink.linkLast hc m.total
    refine ⟨t, (hwf.uartReceive_eq_ok now).2 ?_, hnum, fun hne => absurd hlast hne,
      fun _ => ⟨a, base, _, hcomp⟩⟩
    rw [linkDecoded, hv, ok_bind, if_pos (by show (m.addr : Int) - 1 = 0; omega)]
    exact ht
  · have hpos := hwf.addr_pos
    refine ⟨v, (hwf.uartReceive_eq_ok now).2 ?_, hlink.num, fun _ => hlink,
      fun h1 => absurd h1 hlast⟩
    rw [linkDecoded, hv, ok_bind, if_neg (by show ¬ (m.addr : Int) - 1 = 0; omega)]
    rfl

end NinaHomekit
