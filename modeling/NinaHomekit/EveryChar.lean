import NinaHomekit.Writable

/-!
# What holds of every characteristic

A rule for whole runs: what holds of every characteristic that is made, and is kept by what is
done to one, holds of all of them in every state.

* `CharRule` — the conditions, for a property of characteristics and the names they may have.
* `EveryChar` — the property in a state; the table and the configuration hold the names of the
  characteristics to come.
* `everyChar_boot`, `everyChar_step` — **it holds at the start, and every event keeps it**, if the
  names it brings fit.
-/

namespace NinaHomekit

open Trace State

/-! ## The rule -/

/-- The strings of an accessory that are not names. -/
def fixedStrings : List CStr :=
  [[0x43, 0x44, 0x42, 0x4B, 0x56, 0x30, 0x31, 0x54, 0x57, 0x41],
    [0x43, 0x59, 0x4C, 0x55, 0x2E, 0x49, 0x4F], serialNumber, [0x31, 0x2E, 0x30, 0x2E, 0x30],
    [0x31, 0x2E, 0x30], pv]

/-- `P` holds of what is made, with names that fit `Q`, and is kept by what is done. -/
structure CharRule (P : HapChar → Prop) (Q : CStr → Prop) : Prop where
  fixed : ∀ text ∈ fixedStrings, Q text
  string : ∀ (uuid : CharUuid) (text : CStr), Q text →
    P ⟨0, uuid, hapCharPermPR, .s (some text), 0, 0, false⟩
  null : P ⟨0, .name, hapCharPermPR, .s none, 0, 0, false⟩
  bool : ∀ (uuid : CharUuid) (permission : UInt16) (on : Bool),
    P ⟨0, uuid, permission, .b on, 0, 0, false⟩
  numbered : ∀ (c : HapChar) (iid : Nat), P c → P { c with iid := iid }
  noted : ∀ (c : HapChar) (owner : UInt16) (updated : Bool), P c →
    P { c with ownerCtrl := owner, updateCalled := updated }
  notified : ∀ (c : HapChar) (index : Nat) (ev : Bool), P c → c.hasPermission hapCharPermEV →
    P (c.manageNotification index ev)
  updated : ∀ (c : HapChar) (on : Bool), P c → P { c with val := .b on }

variable {P : HapChar → Prop} {Q : CStr → Prop}

def HapServ.EveryChar (P : HapChar → Prop) (hs : HapServ) : Prop := ∀ c ∈ hs.chars, P c

def HapAcc.EveryChar (P : HapChar → Prop) (ha : HapAcc) : Prop := ∀ hs ∈ ha.servs, hs.EveryChar P

def HapDb.EveryChar (P : HapChar → Prop) (db : HapDb) : Prop := ∀ ha ∈ db.accs, ha.EveryChar P

/-- `P` holds of every characteristic, and the names to come fit `Q`. -/
structure EveryChar (P : HapChar → Prop) (Q : CStr → Prop) (s : State) : Prop where
  chars : s.db.EveryChar P
  names : ∀ m ∈ s.slots, ∀ name, m.name = some name → Q name
  deviceName : Q s.deviceName

/-- The names an event brings fit `Q`. -/
def NamesFit (Q : CStr → Prop) : Event → Prop
  | .uart _ (.linkModule (some data)) => ∀ m, decodeLink data = .ok m → Q m.name
  | .setDeviceName name => Q name
  | .restart deviceName _ => Q deviceName
  | _ => True

/-! ## The database -/

namespace HapDb

variable {db db' : HapDb}

theorem EveryChar.char? (h : db.EveryChar P) {p : CharPtr} {c : HapChar}
    (hc : db.char? p = some c) : P c := by
  obtain ⟨ha, hs, hacc, hserv, hchar⟩ := char?_eq_some.1 hc
  exact h ha (List.mem_of_getElem? hacc) hs (List.mem_of_getElem? hserv) c
    (List.mem_of_getElem? hchar)

theorem EveryChar.modifyChar (h : db.EveryChar P) (p : CharPtr) {f : HapChar → HapChar}
    (hf : ∀ c, P c → P (f c)) : (db.modifyChar p f).EveryChar P :=
  forall_mem_modify h fun _ hha => forall_mem_modify hha fun _ hhs => forall_mem_modify hhs hf

/-- A write to a characteristic that is known. -/
theorem EveryChar.modifyChar_of_char? (h : db.EveryChar P) {p : CharPtr} {c : HapChar}
    (hc : db.char? p = some c) {f : HapChar → HapChar} (hf : P (f c)) :
    (db.modifyChar p f).EveryChar P := by
  rw [modifyChar_congr hc (g := fun _ => f c) rfl]
  exact h.modifyChar p fun _ _ => hf

theorem EveryChar.charUpdateVal (hrule : CharRule P Q) (h : db.EveryChar P) (hc : Option CharPtr)
    (on : Bool) : (db.charUpdateVal hc (.b on)).EveryChar P := by
  unfold HapDb.charUpdateVal
  split
  · exact h
  · split
    · exact h
    · dsimp only
      split
      · unfold EveryChar
        rw [accs_queueEvent]
        exact h.modifyChar _ fun c hc =>
          hrule.noted _ c.ownerCtrl true (hrule.updated c on hc)
      · exact h.modifyChar _ fun c hc => hrule.noted c 0 true hc

theorem everyChar_numberChars (hrule : CharRule P Q) {hcs : List HapChar} (h : ∀ c ∈ hcs, P c)
    (n : Nat) : ∀ c ∈ numberChars n hcs, P c := by
  induction hcs generalizing n with
  | nil => simp [numberChars]
  | cons hc hcs ih =>
    obtain ⟨hfirst, hrest⟩ := List.forall_mem_cons.1 h
    exact List.forall_mem_cons.2 ⟨hrule.numbered hc n hfirst, ih hrest (n + 1)⟩

/-- The service of a module whose name fits. -/
theorem everyChar_moduleServ (hrule : CharRule P Q) {m : ModuleT}
    (hname : ∀ name, m.name = some name → Q name) : (moduleServ m).EveryChar P := by
  refine List.forall_mem_cons.2 ⟨hrule.bool _ _ _, ?_⟩
  unfold hapCharNameCreate hapCharStringCreate hapCharCreate
  cases hm : m.name with
  | none => simpa using hrule.null
  | some name =>
    dsimp only
    split
    · simp
    · simpa using hrule.string .name name (hname name hm)

theorem EveryChar.addServ (hrule : CharRule P Q) (h : db.EveryChar P) (ha : AccPtr)
    {hs : HapServ} (hhs : hs.EveryChar P) : (db.addServ ha hs).EveryChar P := by
  refine forall_mem_modify h fun acc hacc => ?_
  refine List.forall_mem_append.2 ⟨hacc, List.forall_mem_singleton.2 ?_⟩
  exact everyChar_numberChars hrule hhs _

theorem EveryChar.addAccessory (h : db.EveryChar P) (ha : Option AccPtr) :
    (db.addAccessory ha).EveryChar P := by
  cases ha with
  | none => exact h
  | some ha => exact forall_mem_modify h fun acc hacc => hacc

theorem EveryChar.accDelete (h : db.EveryChar P) (ha : Option AccPtr) :
    (db.accDelete ha).EveryChar P := by
  cases ha with
  | none => exact h
  | some ha => exact forall_mem_modify h fun acc hacc => hacc

end HapDb

/-! ## Requests -/

namespace State

variable {s t : State}

/-- A subscription is only switched where the characteristic has events. -/
theorem hasPermission_of_notify {db : HapDb} {reqTw validTw : Bool} {o : Option Members}
    {hc : CharPtr} {ev : Bool} (h : checkItem db reqTw validTw o = .notify hc ev) :
    ∃ c, db.char? hc = some c ∧ c.hasPermission hapCharPermEV = true := by
  unfold checkItem at h
  dsimp only at h
  split at h
  · cases h
  · split at h
    · cases h
    · rename_i c hchar
      refine ⟨c, ?_⟩
      unfold checkChar at h
      split at h
      · cases h
      split at h
      · cases h
      split at h
      · split at h
        · rename_i hperm
          cases h
          exact ⟨hchar, hperm⟩
        · cases h
      · split at h
        · cases h
        split at h
        · cases h
        split at h
        · cases h
        split at h <;> cases h

theorem everyChar_collectItem (hrule : CharRule P Q) (root : Members) (elems : List JsonVal)
    (reqTw validTw : Bool) (index : Nat) {l : CollectLoop} (h : l.db.EveryChar P) (i : Nat) :
    (collectItem root elems reqTw validTw index l i).db.EveryChar P := by
  unfold collectItem
  dsimp only
  split
  · exact h
  · rename_i hc ev hitem
    obtain ⟨c, hchar, hperm⟩ := hasPermission_of_notify hitem
    exact h.modifyChar_of_char? hchar (hrule.notified c index ev (h.char? hchar) hperm)
  · exact h.modifyChar _ fun c hc => hrule.noted c _ c.updateCalled hc

/-- Induction on the items. -/
theorem everyChar_collectBody (hrule : CharRule P Q) (h : s.db.EveryChar P) (session : Session)
    (curTime : Int) (body : JsonVal) : (s.collectBody session curTime body).db.EveryChar P := by
  have hloop : ∀ (root : Members) (elems : List JsonVal) (reqTw validTw : Bool) (index : Nat)
      (is : List Nat) (l : CollectLoop), l.db.EveryChar P →
      (is.foldl (collectItem root elems reqTw validTw index) l).db.EveryChar P := by
    intro root elems reqTw validTw index is
    induction is with
    | nil => exact fun l hl => hl
    | cons i is ih => exact fun l hl => ih _ (everyChar_collectItem hrule root elems _ _ _ hl i)
  exact hloop _ _ _ _ _ _ _ h

theorem everyChar_handleSetChar (hrule : CharRule P Q) (h : s.db.EveryChar P) {session : Session}
    {curTime : Int} {garbage : Garbage} {body : JsonVal} {r : SetCharResult}
    (hr : s.handleSetChar session curTime garbage body = .ok r) : r.state.db.EveryChar P := by
  unfold handleSetChar at hr
  split at hr
  · cases hr
    exact h
  split at hr
  · cases hr
  · obtain ⟨⟨u, report⟩, hu, hr⟩ := bind_eq_ok.1 hr
    cases hr
    have hbody := everyChar_collectBody hrule h session curTime body
    unfold actOnWrites at hu
    split at hu
    · cases hu
      exact hbody
    · obtain ⟨a, -, hu⟩ := bind_eq_ok.1 hu
      obtain ⟨v, hv, hu⟩ := bind_eq_ok.1 hu
      cases hu
      rw [doModulesAction_eq_ok hv]
      exact hbody

theorem everyChar_boot {deviceName : DeviceName} (h : Q deviceName) (enablePop : UInt8) :
    EveryChar P Q (State.boot deviceName enablePop) := by
  refine ⟨List.forall_mem_nil _, ?_, h⟩
  intro m hm name hname
  have hzero : m = ModuleT.zero := by
    have hmem : m ∈ List.replicate maxModuleNum ModuleT.zero := by
      simpa [State.boot, slots, -List.mem_replicate] using hm
    exact List.eq_of_mem_replicate hmem
  rw [hzero] at hname
  cases hname

/-! ## The accessory -/

theorem everyChar_freshAcc (hrule : CharRule P Q) (hname : Q s.deviceName) (aid : Nat) :
    HapAcc.EveryChar P { s.freshAcc with aid := aid } := by
  have hstring : ∀ (uuid : CharUuid) (iid : Nat), ∀ text ∈ fixedStrings,
      P ⟨iid, uuid, hapCharPermPR, .s (some text), 0, 0, false⟩ := fun uuid iid text htext =>
    hrule.numbered _ iid (hrule.string uuid text (hrule.fixed text htext))
  have hidentify := hrule.numbered _ 2 (hrule.bool .identify hapCharPermPW false)
  have hdevice := hrule.numbered _ 5 (hrule.string .name _ hname)
  rw [freshAcc_eq]
  intro hs hhs c hc
  simp only [List.mem_cons, List.not_mem_nil, or_false] at hhs
  rcases hhs with rfl | rfl
  · simp only [List.mem_cons, List.not_mem_nil, or_false] at hc
    rcases hc with rfl | rfl | rfl | rfl | rfl | rfl | rfl
    · exact hidentify
    · exact hstring _ _ _ (by simp [fixedStrings, accCfg])
    · exact hstring _ _ _ (by simp [fixedStrings, accCfg])
    · exact hdevice
    · exact hstring _ _ _ (by simp [fixedStrings])
    · exact hstring _ _ _ (by simp [fixedStrings, accCfg])
    · exact hstring _ _ _ (by simp [fixedStrings])
  · simp only [List.mem_cons, List.not_mem_nil, or_false] at hc
    subst hc
    exact hstring _ _ _ (by simp [fixedStrings])

theorem everyChar_removedDb (h : s.db.EveryChar P) : s.removedDb.EveryChar P := by
  unfold removedDb
  split
  · exact h.accDelete _
  · exact h

theorem everyChar_linkStart (hrule : CharRule P Q) (h : EveryChar P Q s) (m : LinkMsg) :
    EveryChar P Q (s.linkStart m) := by
  refine ⟨?_, slots_linkStart s m ▸ h.names, ?_⟩
  · unfold linkStart
    split
    · unfold linkFirst
      rw [createAccessory_removeModules]
      refine List.forall_mem_append.2 ⟨everyChar_removedDb (s := s) h.chars, ?_⟩
      exact List.forall_mem_singleton.2 (everyChar_freshAcc hrule h.deviceName 0)
    · exact h.chars
  · unfold linkStart
    split
    · unfold linkFirst
      rw [createAccessory_removeModules]
      exact h.deviceName
    · exact h.deviceName

theorem everyChar_beginModule (hrule : CharRule P Q) (h : EveryChar P Q s) {i : Nat}
    (ht : s.beginModule i = .ok t) : EveryChar P Q t := by
  have hsame : s.beginModule (UInt8.ofNat i).toNat = s.beginModule i := by
    unfold beginModule
    rw [UInt8.ofNat_toNat]
  obtain ⟨m, hm, hrest⟩ := bind_eq_ok.1 ht
  rw [show hapServSwitchCreate m.state = some ⟨0, .switch, [onChar m.state], false⟩ from rfl]
    at hrest
  dsimp only at hrest
  split at hrest
  · cases hrest
  · rename_i ha hacc
    split at hrest
    · cases hrest
    · rename_i acc hfound
      have hm := getModule_eq_ok.1 hm
      obtain ⟨modules, hlist, hstep⟩ := beginModule_eq hm hacc hfound
      rw [hsame, ht] at hstep
      cases hstep
      refine ⟨h.chars.addServ hrule ha ?_, ?_, h.deviceName⟩
      · exact HapDb.everyChar_moduleServ hrule (h.names m (List.mem_of_getElem? hm))
      · change ∀ m' ∈ modules.toList, _
        rw [hlist]
        exact forall_mem_modify h.names fun m' hm' => hm'

theorem everyChar_beginAccessory (hrule : CharRule P Q) (h : EveryChar P Q s)
    (ht : s.beginAccessory = .ok t) : EveryChar P Q t := by
  obtain ⟨u, hloop, ht⟩ := bind_eq_ok.1 ht
  have hrun : ∀ {is : List Nat} {v w : State}, EveryChar P Q v →
      is.foldlM beginModule v = .ok w → EveryChar P Q w := by
    intro is
    induction is with
    | nil =>
      intro v w hv hw
      cases hw
      exact hv
    | cons i is ih =>
      intro v w hv hw
      rw [List.foldlM_cons] at hw
      obtain ⟨x, hx, hrest⟩ := bind_eq_ok.1 hw
      exact ih (everyChar_beginModule hrule hv hx) hrest
  cases ht
  have hu := hrun h hloop
  exact ⟨hu.chars.addAccessory _, hu.names, hu.deviceName⟩

theorem everyChar_linkDecoded (hrule : CharRule P Q) (h : EveryChar P Q s) {m : LinkMsg}
    (hname : Q m.name) (ht : s.linkDecoded m = .ok t) : EveryChar P Q t := by
  obtain ⟨u, hu, ht⟩ := bind_eq_ok.1 ht
  obtain ⟨-, nm, hnm, modules, hlist, rfl⟩ := addModule_eq_ok.1 hu
  obtain rfl := Option.some.inj hnm
  have hstart := everyChar_linkStart hrule h m
  have hnames : ∀ m' ∈ modules.toList, ∀ name, m'.name = some name → Q name := by
    rw [hlist]
    refine forall_mem_modify hstart.names fun m' _ name hm' => ?_
    obtain rfl := Option.some.inj hm'
    exact hname
  split at ht
  · unfold linkLast at ht
    split at ht
    · cases ht
    · obtain ⟨v, hv, ht⟩ := bind_eq_ok.1 ht
      have hbegin : EveryChar P Q v := by
        refine everyChar_beginAccessory hrule ⟨?_, ?_, ?_⟩ hv
        · exact hstart.chars
        · exact hnames
        · exact hstart.deviceName
      cases ht
      exact ⟨hbegin.chars, hbegin.names, hbegin.deviceName⟩
  · cases ht
    refine ⟨?_, hnames, ?_⟩
    · exact hstart.chars
    · exact hstart.deviceName

theorem everyChar_liveRemove (hrule : CharRule P Q) (h : EveryChar P Q s)
    (ht : s.liveRemove = .ok t) : EveryChar P Q t := by
  rw [liveRemove_eq] at ht
  cases ht
  refine ⟨List.forall_mem_append.2 ⟨everyChar_removedDb h.chars, ?_⟩, h.names, h.deviceName⟩
  exact List.forall_mem_singleton.2 (everyChar_freshAcc hrule h.deviceName 1)

/-! ## Reports -/

theorem everyChar_setModuleSwitchState (hrule : CharRule P Q) (h : EveryChar P Q s)
    {index state : UInt8} (ht : s.setModuleSwitchState index state = .ok t) : EveryChar P Q t := by
  obtain ⟨u, hu, ht⟩ := bind_eq_ok.1 ht
  obtain ⟨-, modules, hlist, rfl⟩ := modifyModule_eq_ok.1 hu
  obtain ⟨m, -, ht⟩ := bind_eq_ok.1 ht
  cases ht
  refine ⟨h.chars.charUpdateVal hrule _ _, ?_, h.deviceName⟩
  change ∀ m' ∈ modules.toList, _
  rw [hlist]
  exact forall_mem_modify h.names fun m' hm' => hm'

theorem deviceName_overloadProtectionCheck {now : UInt32}
    (h : s.overloadProtectionCheck now = .ok t) : t.deviceName = s.deviceName := by
  unfold overloadProtectionCheck at h
  split at h
  · split at h
    · split at h <;>
        (obtain ⟨addr, -, h⟩ := bind_eq_ok.1 h
         obtain ⟨u, hu, h⟩ := bind_eq_ok.1 h
         cases h
         rw [doModulesAction_eq_ok hu]
         rfl)
    · split at h
      · cases h
        rfl
      · split at h <;> cases h <;> rfl
  · cases h
    rfl

theorem deviceName_updateCurrent {now : UInt32} {addr : UInt8} {value : UInt16}
    (h : s.updateCurrent now addr value = .ok t) : t.deviceName = s.deviceName := by
  obtain ⟨m, -, h⟩ := bind_eq_ok.1 h
  obtain ⟨a, hcheck⟩ := checkMcub_eq s m addr value
  rw [hcheck] at h
  obtain ⟨u, hu, h⟩ := bind_eq_ok.1 h
  obtain ⟨-, modules, -, rfl⟩ := modifyModule_eq_ok.1 hu
  obtain ⟨sum, -, h⟩ := bind_eq_ok.1 h
  obtain ⟨v, hv, h⟩ := bind_eq_ok.1 h
  have hname := deviceName_overloadProtectionCheck hv
  unfold updateMcub at h
  split at h
  · cases h
  · cases h
    exact hname

end State

/-! ## Runs -/

variable {s t : State} {e : Event}

/-- **Every event keeps what holds of every characteristic**, if the names it brings fit. -/
theorem everyChar_step (hrule : CharRule P Q) (h : EveryChar P Q s) (hfit : NamesFit Q e)
    (ht : step s e = .ok t) : EveryChar P Q t := by
  cases e with
  | uart now msg =>
    cases msg with
    | linkModule data =>
      cases data with
      | none =>
        cases ht
        exact ⟨h.chars, h.names, h.deviceName⟩
      | some data =>
        obtain ⟨m, hm, ht⟩ := linkModule_eq_ok.1 ht
        exact everyChar_linkDecoded hrule h (hfit m hm) ht
    | updateData addr type lo hi =>
      change s.updateData now addr type lo hi = .ok t at ht
      unfold updateData at ht
      split at ht
      · exact everyChar_setModuleSwitchState hrule h ht
      · split at ht
        · obtain ⟨trip, htrip⟩ := CurrentUpdate.of_ok ht
          refine ⟨htrip.homekit.2.2 ▸ h.chars, ?_, deviceName_updateCurrent ht ▸ h.deviceName⟩
          rw [htrip.slots]
          exact forall_mem_modify h.names fun m' hm' => hm'
        · cases ht
          exact h
    | _ =>
      cases ht
      exact ⟨h.chars, h.names, h.deviceName⟩
  | live k =>
    rcases liveCheck_cases ht with ⟨-, u, hu, rfl⟩ | ⟨-, queue, connected, removed, tasks, rfl⟩
    · have hremove := everyChar_liveRemove hrule h hu
      exact ⟨hremove.chars, hremove.names, hremove.deviceName⟩
    · exact ⟨h.chars, h.names, h.deviceName⟩
  | setChar session curTime garbage body =>
    obtain ⟨r, hr, ht⟩ := bind_eq_ok.1 ht
    cases ht
    have hchars := everyChar_handleSetChar hrule h.chars hr
    obtain ⟨db, queue, -, hstate⟩ := handleSetChar_frame hr
    rw [hstate] at hchars ⊢
    exact ⟨hchars, h.names, h.deviceName⟩
  | mqttSwitch index on =>
    rw [doModulesAction_eq_ok ht]
    exact ⟨h.chars, h.names, h.deviceName⟩
  | mqttPriority index value =>
    change s.modifyModule index (fun m => { m with priority := value }) = .ok t at ht
    obtain ⟨-, modules, hlist, rfl⟩ := modifyModule_eq_ok.1 ht
    refine ⟨h.chars, ?_, h.deviceName⟩
    change ∀ m' ∈ modules.toList, _
    rw [hlist]
    exact forall_mem_modify h.names fun m' hm' => hm'
  | setDeviceName name =>
    cases ht
    exact ⟨h.chars, h.names, hfit⟩
  | resetToFactory =>
    unfold step at ht
    simp only at ht
    split at ht <;> cases ht <;> exact ⟨h.chars, h.names, h.deviceName⟩
  | restart deviceName enablePop =>
    cases ht
    exact everyChar_boot hfit enablePop
  | _ =>
    cases ht
    exact ⟨h.chars, h.names, h.deviceName⟩

end NinaHomekit
