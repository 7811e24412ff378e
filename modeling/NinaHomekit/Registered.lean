import NinaHomekit.Sequence

/-!
# Registered modules

The state `beginAccessory` leaves: every linked module has its slot pointing to the On
characteristic of its own service in the registered accessory.

* `Registered` — what holds of the accessory, the slots and the ids, until the next link
  sequence.
* `Completed.registered` — a complete link sequence leaves its modules registered.
* `Registered.getModuleAddrByHc_eq` — **the address of a characteristic** is that of its
  module, or 0.
-/

namespace NinaHomekit

open Trace State

variable {s t : State} {a : AccPtr} {k : Nat} {p : CharPtr} {c : HapChar}

/-- The linked modules are registered in the accessory `a`, behind its first `k` services. -/
structure Registered (s : State) (a : AccPtr) (k : Nat) : Prop where
  num_le : s.moduleNum ≤ maxModuleNum
  primaryAcc : s.db.primaryAcc = some a
  acc : ∃ acc, s.db.accs[a]? = some acc ∧ acc.aid = 1 ∧ acc.Numbered
  live : s.db.primaryDeleted = false
  hc : ∀ i < s.moduleNum, ∃ m c, s.slots[i]? = some m ∧ m.hc = some ⟨a, k + i, 0⟩ ∧
    s.db.char? ⟨a, k + i, 0⟩ = some c ∧ c.typeUuid = .on

/-! ## The address of a characteristic -/

/-- The address of the module whose On characteristic `p` is, of `n` modules; else 0. -/
def moduleAddr (k n : Nat) (p : CharPtr) : Nat :=
  if p.char = 0 ∧ k ≤ p.serv ∧ p.serv < k + n then p.serv - k + 1 else 0

/-- Two characteristics of one accessory have the same id only if they are the same. -/
theorem Registered.iid_inj (h : Registered s a k) {q : CharPtr} {d : HapChar} (hp : p.acc = a)
    (hq : q.acc = a) (hc : s.db.char? p = some c) (hd : s.db.char? q = some d)
    (heq : c.iid = d.iid) : p = q := by
  obtain ⟨acc, hacc, -, hnum⟩ := h.acc
  obtain ⟨ha, hs, hfound, hserv, hchar⟩ := HapDb.char?_eq_some.1 hc
  obtain ⟨ha', hs', hfound', hserv', hchar'⟩ := HapDb.char?_eq_some.1 hd
  rw [hp, hacc] at hfound
  rw [hq, hacc] at hfound'
  cases hfound
  cases hfound'
  obtain ⟨hs1, hs2⟩ := hnum.char_inj hserv hchar hserv' hchar' heq
  cases p
  cases q
  simp_all

/-- One round of the search. -/
theorem Registered.findModuleAddr_cons (h : Registered s a k) (hp : p.acc = a)
    (hc : s.db.char? p = some c) {i : Nat} (hi : i < s.moduleNum) (is : List Nat) :
    s.findModuleAddr (some p) (i :: is) =
      if p = ⟨a, k + i, 0⟩ then .ok (UInt8.ofNat (i + 1)) else s.findModuleAddr (some p) is := by
  obtain ⟨m, d, hm, hhc, hd, -⟩ := h.hc i hi
  have hget : s.getModule (UInt8.ofNat i) = .ok m := by
    rw [getModule_eq_ok, toNat_ofNat_index (hi.trans s.moduleNum_lt), hm]
  have hiid : s.charGetIid m.hc = .ok d.iid := by
    rw [hhc, charGetIid, hd]
  have hiid' : s.charGetIid (some p) = .ok c.iid := by
    rw [charGetIid, hc]
  simp only [findModuleAddr, hget, hiid, hiid', ok_bind]
  by_cases heq : p = ⟨a, k + i, 0⟩
  · subst heq
    rw [hc] at hd
    cases hd
    rw [if_pos rfl, if_pos rfl]
    rfl
  · rw [if_neg heq, if_neg]
    intro hsame
    exact heq (h.iid_inj hp rfl hc hd hsame.symm)

/-- The search finds no module for a characteristic that is no module's. -/
theorem Registered.findModuleAddr_of_notMem (h : Registered s a k) (hp : p.acc = a)
    (hc : s.db.char? p = some c) {is : List Nat} (his : ∀ i ∈ is, i < s.moduleNum)
    (hno : ∀ i ∈ is, p ≠ ⟨a, k + i, 0⟩) : s.findModuleAddr (some p) is = .ok 0 := by
  induction is with
  | nil => rfl
  | cons i is ih =>
    rw [h.findModuleAddr_cons hp hc (his i (by simp)), if_neg (hno i (by simp))]
    exact ih (fun j hj => his j (by simp [hj])) fun j hj => hno j (by simp [hj])

/-- The search finds the module of its characteristic. -/
theorem Registered.findModuleAddr_of_mem (h : Registered s a k) {i : Nat}
    (hc : s.db.char? ⟨a, k + i, 0⟩ = some c) {is : List Nat} (his : ∀ i ∈ is, i < s.moduleNum)
    (hi : i ∈ is) :
    s.findModuleAddr (some ⟨a, k + i, 0⟩) is = .ok (UInt8.ofNat (i + 1)) := by
  induction is with
  | nil => simp at hi
  | cons j is ih =>
    rw [h.findModuleAddr_cons rfl hc (his j (by simp))]
    by_cases hij : i = j
    · rw [if_pos (by rw [hij]), hij]
    · rw [if_neg (by simpa using hij)]
      exact ih (fun j' hj' => his j' (by simp [hj'])) ((List.mem_cons.1 hi).resolve_left hij)

/-- **The address of a characteristic** of the registered accessory. -/
theorem Registered.getModuleAddrByHc_eq (h : Registered s a k) (hp : p.acc = a)
    (hc : s.db.char? p = some c) :
    s.getModuleAddrByHc (some p) = .ok (UInt8.ofNat (moduleAddr k s.moduleNum p)) := by
  have his : ∀ i ∈ List.range s.moduleNum, i < s.moduleNum := fun i hi => List.mem_range.1 hi
  unfold getModuleAddrByHc moduleAddr
  by_cases hmod : p.char = 0 ∧ k ≤ p.serv ∧ p.serv < k + s.moduleNum
  · obtain ⟨h0, hk, hn⟩ := hmod
    have heq : p = ⟨a, k + (p.serv - k), 0⟩ := by
      rw [Nat.add_sub_cancel' hk, ← hp, ← h0]
    rw [if_pos ⟨h0, hk, hn⟩]
    conv_lhs => rw [heq]
    exact h.findModuleAddr_of_mem (heq ▸ hc) his (List.mem_range.2 (by omega))
  · rw [if_neg hmod]
    refine h.findModuleAddr_of_notMem hp hc his fun i hi heq => hmod ?_
    have := his i hi
    rw [heq]
    exact ⟨rfl, by simp, by simpa using this⟩

/-! ## After a complete sequence -/

theorem numbered_addModules {acc : HapAcc} (h : acc.Numbered) (ms : List ModuleT) :
    (addModules acc ms).Numbered := by
  induction ms generalizing acc with
  | nil => exact h
  | cons m ms ih => exact ih (h.addServ _)

theorem HapAcc.New.deleted {acc : HapAcc} (h : acc.New) : acc.deleted = false := by
  obtain ⟨s, aid, rfl⟩ := h
  show s.freshAcc.deleted = false
  rw [freshAcc_eq]

theorem HapAcc.New.numbered {acc : HapAcc} (h : acc.New) : acc.Numbered := by
  obtain ⟨s, aid, rfl⟩ := h
  have hfresh : s.freshAcc.Numbered := numbered_of_hapAccCreate s.hapAccCreate_accCfg
  exact hfresh

/-- The On characteristic of the `i`th of the modules that were added. -/
theorem char?_addModules {db : HapDb} {base : HapAcc} {ms : List ModuleT} {aid i : Nat}
    {m : ModuleT} (hbase : base.servs.length = k)
    (hacc : db.accs[a]? = some { addModules base ms with aid := aid }) (hm : ms[i]? = some m) :
    db.char? ⟨a, k + i, 0⟩ =
      some { onChar m.state with iid := (addModules base (ms.take i)).nextIid + 1 } := by
  have hserv : (addModules base ms).servs[k + i]? = some { moduleServ m with
      iid := (addModules base (ms.take i)).nextIid
      chars := numberChars ((addModules base (ms.take i)).nextIid + 1) (moduleServ m).chars } := by
    rw [← hbase, getElem?_servs_addModules, hm]
    rfl
  exact HapDb.char?_eq_some.2 ⟨_, _, hacc, hserv, rfl⟩

/-- **A complete sequence** leaves its modules registered. -/
theorem Completed.registered {base : HapAcc} {ms : List ModuleT} (h : Completed t a base ms) :
    Registered t a 2 where
  num_le := h.num_le
  primaryAcc := h.primaryAcc
  acc := ⟨_, h.acc, rfl, numbered_addModules h.new.numbered _⟩
  live := by
    have hdel : (addModules base (ms.take t.moduleNum)).deleted = false := by
      rw [deleted_addModules, h.new.deleted]
    simp [HapDb.primaryDeleted, h.primaryAcc, h.acc, hdel]
  hc i hi := by
    have hlen : ms.length = maxModuleNum := by
      have := congrArg List.length h.slots
      simpa using this.symm
    have hilt : i < ms.length := by
      have := h.num_le
      omega
    have hm : (ms.take t.moduleNum)[i]? = some ms[i] := by
      rw [List.getElem?_take, if_pos hi, List.getElem?_eq_getElem hilt]
    refine ⟨pointTo a 2 t.moduleNum i ms[i], _, ?_, ?_,
      char?_addModules h.new.length_servs h.acc hm, rfl⟩
    · rw [h.slots, List.getElem?_mapIdx, List.getElem?_eq_getElem hilt]
      rfl
    · rw [pointTo, if_pos hi]

end NinaHomekit
