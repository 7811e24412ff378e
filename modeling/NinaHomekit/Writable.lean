import NinaHomekit.SwitchWrites

/-!
# On characteristics can be written

Whatever the firmware does, an On characteristic is one `hap_char_on_create` made, in a service
with a write callback.  No event takes the permissions, the format or the callback away.

* `HapServ.OnWritable`, `HapDb.OnWritable` — what holds of every On characteristic.
* `onWritable_step` — **every event keeps it**; `Booted.onWritable` is for whole runs.
-/

namespace NinaHomekit

open Trace State

/-! ## On characteristics -/

/-- The permissions `hap_char_on_create` gives. -/
def onPermission : UInt16 := hapCharPermPR ||| hapCharPermPW ||| hapCharPermEV

/-- The characteristic has the permissions and the format of an On. -/
def HapChar.OnWritable (c : HapChar) : Prop :=
  c.typeUuid = .on → c.permission = onPermission ∧ c.format = .bool

/-- Each On characteristic has its permissions and its format, and the service has a write
callback for it. -/
def HapServ.OnWritable (hs : HapServ) : Prop :=
  ∀ c ∈ hs.chars, c.OnWritable ∧ (c.typeUuid = .on → hs.writeCb = true)

def HapAcc.OnWritable (ha : HapAcc) : Prop := ∀ hs ∈ ha.servs, hs.OnWritable

def HapDb.OnWritable (db : HapDb) : Prop := ∀ ha ∈ db.accs, ha.OnWritable

theorem forall_mem_modify {α : Type} {P : α → Prop} {f : α → α} {l : List α} {i : Nat}
    (h : ∀ x ∈ l, P x) (hf : ∀ x, P x → P (f x)) : ∀ x ∈ l.modify i f, P x := by
  induction l generalizing i with
  | nil => simp
  | cons a l ih =>
    obtain ⟨ha, hl⟩ := List.forall_mem_cons.1 h
    cases i with
    | zero => simpa using ⟨hf a ha, hl⟩
    | succ i => simpa using ⟨ha, ih hl⟩

/-! ## What keeps it -/

namespace HapDb

variable {db db' : HapDb}

/-- A write to a characteristic that keeps its type and its permissions, and the format of a
boolean one. -/
theorem OnWritable.modifyChar (h : db.OnWritable) (p : CharPtr) {f : HapChar → HapChar}
    (hf : ∀ c, (f c).typeUuid = c.typeUuid ∧ (f c).permission = c.permission ∧
      (c.format = .bool → (f c).format = .bool)) : (db.modifyChar p f).OnWritable := by
  refine forall_mem_modify h fun ha hha => forall_mem_modify hha fun hs hhs => ?_
  refine forall_mem_modify hhs fun c hc => ?_
  obtain ⟨htype, hperm, hformat⟩ := hf c
  obtain ⟨hwritable, hcb⟩ := hc
  refine ⟨fun hon => ?_, fun hon => hcb (htype ▸ hon)⟩
  obtain ⟨hp, hfmt⟩ := hwritable (htype ▸ hon)
  exact ⟨hperm.trans hp, hformat hfmt⟩

theorem OnWritable.charUpdateVal (h : db.OnWritable) (hc : Option CharPtr) (b : Bool) :
    (db.charUpdateVal hc (.b b)).OnWritable := by
  cases hc with
  | none => exact h
  | some p =>
    cases hchar : db.char? p with
    | none =>
      rw [charUpdateVal_of_none (by intro q hq; cases hq; exact hchar)]
      exact h
    | some c =>
      obtain ⟨d, hval, -, htype, hperm, haccs, -⟩ := charUpdateVal_spec hchar (.b b)
      rw [modifyChar_congr hchar (g := fun c' => { c' with
        iid := d.iid
        val := d.val
        evCtrls := d.evCtrls
        ownerCtrl := d.ownerCtrl
        updateCalled := d.updateCalled }) (by rw [← htype, ← hperm])] at haccs
      unfold OnWritable
      rw [haccs]
      refine h.modifyChar p fun c' => ⟨rfl, rfl, fun _ => ?_⟩
      unfold HapChar.format
      rw [hval]

/-- The notes about the controllers do not matter. -/
theorem OnWritable.of_sameCore (h : db.OnWritable) (hcore : SameCore db db') : db'.OnWritable := by
  have hchar : ∀ c : HapChar, c.core.OnWritable ↔ c.OnWritable := fun c => Iff.rfl
  have hserv : ∀ hs : HapServ, hs.core.OnWritable ↔ hs.OnWritable := by
    intro hs
    unfold HapServ.OnWritable HapServ.core
    rw [List.forall_mem_map]
    exact Iff.rfl
  have hacc : ∀ ha : HapAcc, ha.core.OnWritable ↔ ha.OnWritable := by
    intro ha
    unfold HapAcc.OnWritable HapAcc.core
    rw [List.forall_mem_map]
    exact forall₂_congr fun hs _ => hserv hs
  have hdb : ∀ d : HapDb, d.OnWritable ↔ ∀ ha ∈ d.accs.map HapAcc.core, ha.OnWritable := by
    intro d
    rw [List.forall_mem_map]
    exact forall₂_congr fun ha _ => (hacc ha).symm
  rw [hdb, hcore.accs, ← hdb]
  exact h

/-- The service of a module. -/
theorem onWritable_moduleServ (m : ModuleT) (iid n : Nat) :
    HapServ.OnWritable { moduleServ m with
      iid := iid, chars := numberChars n (moduleServ m).chars } := by
  intro c hc
  obtain ⟨j, hj⟩ := List.mem_iff_getElem?.1 hc
  refine ⟨fun hon => ?_, fun _ => rfl⟩
  have h0 := char_eq_zero_of_moduleServ hj hon
  rw [h0, moduleServ, numberChars, List.getElem?_cons_zero, Option.some.injEq] at hj
  exact hj ▸ ⟨rfl, rfl⟩

theorem OnWritable.addServ (h : db.OnWritable) (ha : AccPtr) (m : ModuleT) :
    (db.addServ ha (moduleServ m)).OnWritable := by
  refine forall_mem_modify h fun acc hacc => ?_
  exact List.forall_mem_append.2 ⟨hacc, by simpa using onWritable_moduleServ m _ _⟩

theorem OnWritable.addAccessory (h : db.OnWritable) (ha : Option AccPtr) :
    (db.addAccessory ha).OnWritable := by
  cases ha with
  | none => exact h
  | some ha => exact forall_mem_modify h fun acc hacc => hacc

theorem OnWritable.accDelete (h : db.OnWritable) (ha : Option AccPtr) :
    (db.accDelete ha).OnWritable := by
  cases ha with
  | none => exact h
  | some ha => exact forall_mem_modify h fun acc hacc => hacc

end HapDb

/-! ## Events -/

variable {s t : State} {e : Event}

namespace State

theorem onWritable_freshAcc (s : State) (aid : Nat) :
    HapAcc.OnWritable { s.freshAcc with aid := aid } := by
  rw [freshAcc_eq]
  simp [HapAcc.OnWritable, HapServ.OnWritable, HapChar.OnWritable]

theorem onWritable_removedDb (h : s.db.OnWritable) : s.removedDb.OnWritable := by
  unfold removedDb
  split
  · exact h.accDelete _
  · exact h

theorem onWritable_linkStart (h : s.db.OnWritable) (m : LinkMsg) :
    (s.linkStart m).db.OnWritable := by
  unfold linkStart
  split
  · unfold linkFirst
    rw [createAccessory_removeModules]
    refine List.forall_mem_append.2 ⟨onWritable_removedDb (s := s) h, ?_⟩
    exact List.forall_mem_singleton.2 (onWritable_freshAcc s 0)
  · exact h

theorem onWritable_beginModule (h : s.db.OnWritable) {i : Nat} (ht : s.beginModule i = .ok t) :
    t.db.OnWritable := by
  have hsame : s.beginModule (UInt8.ofNat i).toNat = s.beginModule i := by
    unfold beginModule
    rw [UInt8.ofNat_toNat]
  obtain ⟨m, hm, hrest⟩ := bind_eq_ok.1 ht
  rw [show hapServSwitchCreate m.state = some ⟨0, .switch, [onChar m.state], false⟩ from rfl]
    at hrest
  dsimp only at hrest
  split at hrest
  · cases hrest
  · rename_i ha hacc
    split at hrest
    · cases hrest
    · rename_i acc hfound
      obtain ⟨modules, -, hstep⟩ := beginModule_eq (getModule_eq_ok.1 hm) hacc hfound
      rw [hsame, ht] at hstep
      cases hstep
      exact h.addServ ha m

theorem onWritable_beginAccessory (h : s.db.OnWritable) (ht : s.beginAccessory = .ok t) :
    t.db.OnWritable := by
  obtain ⟨u, hloop, ht⟩ := bind_eq_ok.1 ht
  have hrun : ∀ {is : List Nat} {v w : State}, v.db.OnWritable → is.foldlM beginModule v = .ok w →
      w.db.OnWritable := by
    intro is
    induction is with
    | nil =>
      intro v w hv hw
      cases hw
      exact hv
    | cons i is ih =>
      intro v w hv hw
      rw [List.foldlM_cons] at hw
      obtain ⟨x, hx, hrest⟩ := bind_eq_ok.1 hw
      exact ih (onWritable_beginModule hv hx) hrest
  cases ht
  exact (hrun h hloop).addAccessory _

theorem onWritable_linkDecoded (h : s.db.OnWritable) {m : LinkMsg}
    (ht : s.linkDecoded m = .ok t) : t.db.OnWritable := by
  obtain ⟨u, hu, ht⟩ := bind_eq_ok.1 ht
  obtain ⟨-, nm, -, modules, -, rfl⟩ := addModule_eq_ok.1 hu
  have hstart := onWritable_linkStart h m
  split at ht
  · unfold linkLast at ht
    split at ht
    · cases ht
    · obtain ⟨v, hv, ht⟩ := bind_eq_ok.1 ht
      have hbegin := onWritable_beginAccessory (t := v) (by exact hstart) hv
      cases ht
      exact hbegin
  · cases ht
    exact hstart

theorem onWritable_liveRemove (h : s.db.OnWritable) (ht : s.liveRemove = .ok t) :
    t.db.OnWritable := by
  rw [liveRemove_eq] at ht
  cases ht
  refine List.forall_mem_append.2 ⟨onWritable_removedDb h, ?_⟩
  exact List.forall_mem_singleton.2 (onWritable_freshAcc s 1)

theorem onWritable_setModuleSwitchState (h : s.db.OnWritable) {index state : UInt8}
    (ht : s.setModuleSwitchState index state = .ok t) : t.db.OnWritable := by
  obtain ⟨u, hu, ht⟩ := bind_eq_ok.1 ht
  obtain ⟨-, modules, -, rfl⟩ := modifyModule_eq_ok.1 hu
  obtain ⟨m, -, ht⟩ := bind_eq_ok.1 ht
  cases ht
  exact h.charUpdateVal _ _

end State

/-- **Every event keeps the On characteristics writable.** -/
theorem onWritable_step (h : s.db.OnWritable) (ht : step s e = .ok t) : t.db.OnWritable := by
  cases e with
  | uart now msg =>
    cases msg with
    | linkModule data =>
      cases data with
      | none =>
        cases ht
        exact h
      | some data =>
        obtain ⟨m, -, ht⟩ := linkModule_eq_ok.1 ht
        exact onWritable_linkDecoded h ht
    | updateData addr type lo hi =>
      change s.updateData now addr type lo hi = .ok t at ht
      unfold updateData at ht
      split at ht
      · exact onWritable_setModuleSwitchState h ht
      · split at ht
        · obtain ⟨trip, htrip⟩ := CurrentUpdate.of_ok ht
          rw [htrip.homekit.2.2]
          exact h
        · cases ht
          exact h
    | _ =>
      cases ht
      exact h
  | live k =>
    rcases liveCheck_cases ht with ⟨-, u, hu, rfl⟩ | ⟨-, queue, connected, removed, tasks, rfl⟩
    · have hremove := onWritable_liveRemove h hu
      exact hremove
    · exact h
  | setChar session curTime garbage body =>
    obtain ⟨r, hr, ht⟩ := bind_eq_ok.1 ht
    cases ht
    obtain ⟨db, queue, hcore, hstate⟩ := handleSetChar_frame hr
    rw [hstate]
    exact h.of_sameCore hcore
  | mqttSwitch index on =>
    rw [doModulesAction_eq_ok ht]
    exact h
  | mqttPriority index value =>
    change s.modifyModule index (fun m => { m with priority := value }) = .ok t at ht
    obtain ⟨-, modules, -, rfl⟩ := modifyModule_eq_ok.1 ht
    exact h
  | resetToFactory =>
    unfold step at ht
    simp only at ht
    split at ht <;> cases ht <;> exact h
  | restart deviceName enablePop =>
    cases ht
    exact List.forall_mem_nil _
  | _ =>
    cases ht
    exact h

/-- The On characteristics of every state that can be reached are writable. -/
theorem Booted.onWritable (h : Booted s) (ht : Reachable step s t) : t.db.OnWritable := by
  refine inv_reachable (I := fun u => u.db.OnWritable) (fun _ _ _ hu hstep => onWritable_step hu hstep)
    ?_ ht
  obtain ⟨deviceName, enablePop, rfl⟩ := h
  exact List.forall_mem_nil _

end NinaHomekit
