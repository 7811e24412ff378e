import NinaHomekit.Hap.Notification
import NinaHomekit.TableIndex

/-!
# Characteristics that wait for their notification

`hap_event_queue` holds pointers to characteristics from a switch report until
`hap_send_notification` takes them.  The accessory may be deleted in between.

* `NotifEvent`, `notifStep` — the system with the work item as one more event.
* `PendingLive` — what `hap_send_notification` would take now belongs to accessories that are
  not deleted.
* `ReportsLive` — a switch report updates no characteristic of a deleted accessory.
* `KeepsPending` — nor does the event delete an accessory one of whose characteristics waits.
* `pendingLive_iff` — **nothing that waits, or is updated, is deleted along a run exactly if every
  event keeps to that.**
-/

namespace NinaHomekit

open Trace State

/-- The events of the bridge, and the work item that sends the notifications while the sessions
`sessions` are open. -/
inductive NotifEvent where
  | bridge (e : Event)
  | sendNotification (sessions : List Nat)

/-- What an event does. -/
def notifStep (s : State) : NotifEvent → Except Fault State
  | .bridge e => step s e
  | .sendNotification sessions => do
    let (db, _) ← s.db.sendNotification sessions
    return { s with db := db }

variable {s t : State} {e : Event}

/-! ## The queue -/

/-- The accessories of the characteristics that wait. -/
def pendingAccs (s : State) : List AccPtr := s.db.eventQueue.map CharPtr.acc

/-- The characteristic a switch report would queue: that of the slot, if its value changes and
there is room. -/
def reportQueues (s : State) (index state : UInt8) : Option CharPtr := do
  let module ← s.slots[index.toNat]?
  let hc ← module.hc
  let c ← s.db.char? hc
  if (c.val ≠ .b (state != 0) ∨ c.hasPermission hapCharPermSpecialRead) ∧
      s.db.eventQueue.length < hapMaxNotifChars then some hc
  else none

theorem eventQueue_charUpdateVal (db : HapDb) (hc : Option CharPtr) (val : HapVal) :
    (db.charUpdateVal hc val).eventQueue = db.eventQueue ++ (do
      let p ← hc
      let c ← db.char? p
      if (c.val ≠ val ∨ c.hasPermission hapCharPermSpecialRead) ∧
          db.eventQueue.length < hapMaxNotifChars then some p
      else none).toList := by
  unfold HapDb.charUpdateVal
  cases hc with
  | none => simp
  | some p =>
    rcases Option.eq_none_or_eq_some (db.char? p) with hnone | ⟨c, hc⟩
    · simp [hnone]
    · simp only [hc]
      by_cases hchange : c.val ≠ val ∨ c.hasPermission hapCharPermSpecialRead = true
      · rw [if_pos hchange]
        unfold HapDb.queueEvent
        by_cases hroom : db.eventQueue.length < hapMaxNotifChars
        · have hroom' : (db.modifyChar p fun c => { c with val := val, updateCalled := true
              }).eventQueue.length < hapMaxNotifChars := hroom
          rw [if_pos hroom']
          simp [hc, hchange, hroom]
          rfl
        · have hroom' : ¬ (db.modifyChar p fun c => { c with val := val, updateCalled := true
              }).eventQueue.length < hapMaxNotifChars := hroom
          rw [if_neg hroom']
          simp [hroom]
          rfl
      · rw [if_neg hchange]
        simp [hc, hchange]
        rfl

/-- The characteristic an event queues. -/
def queuedBy (s : State) : Event → Option CharPtr
  | .uart _ (.updateData addr type lo hi) =>
    if type = moduleSwitchState then
      reportQueues s (addr - 1) (UInt16.ofNat (lo.toNat + 256 * hi.toNat)).toUInt8
    else none
  | _ => none

namespace State

theorem eventQueue_removedDb (s : State) : s.removedDb.eventQueue = s.db.eventQueue := by
  unfold removedDb
  split
  · cases s.accessory <;> rfl
  · rfl

theorem eventQueue_linkStart (s : State) (m : LinkMsg) :
    (s.linkStart m).db.eventQueue = s.db.eventQueue := by
  unfold linkStart
  split
  · unfold linkFirst
    rw [createAccessory_removeModules]
    exact eventQueue_removedDb _
  · rfl

theorem eventQueue_beginAccessory (hvalid : ∀ a, s.accessory = some a → a < s.db.accs.length)
    (h : s.beginAccessory = .ok t) : t.db.eventQueue = s.db.eventQueue := by
  obtain ⟨-, ⟨-, -, rfl⟩ | ⟨a, acc, modules, -, -, -, rfl⟩⟩ := beginAccessory_eq_ok hvalid h <;> rfl

theorem eventQueue_linkDecoded (hvalid : ∀ a, s.accessory = some a → a < s.db.accs.length)
    {m : LinkMsg} (h : s.linkDecoded m = .ok t) : t.db.eventQueue = s.db.eventQueue := by
  obtain ⟨u, hu, h⟩ := bind_eq_ok.1 h
  obtain ⟨-, nm, -, modules, -, hueq⟩ := addModule_eq_ok.1 hu
  have hacc : u.accessory = (s.linkStart m).accessory ∧ u.db = (s.linkStart m).db := by
    rw [hueq]
    exact ⟨rfl, rfl⟩
  have hqueue : u.db.eventQueue = s.db.eventQueue := by
    rw [hacc.2]
    exact eventQueue_linkStart s m
  by_cases h0 : m.index = 0
  · rw [if_pos h0] at h
    unfold linkLast at h
    by_cases hneg : m.total < 0
    · rw [if_pos hneg] at h
      cases h
    · rw [if_neg hneg] at h
      obtain ⟨v, hv, h⟩ := bind_eq_ok.1 h
      cases h
      have hvalid' : ∀ a, u.accessory = some a → a < u.db.accs.length :=
        hacc.1 ▸ hacc.2 ▸ valid_linkStart hvalid m
      exact (eventQueue_beginAccessory (s := u.linkAnnounce m.total) hvalid' hv).trans hqueue
  · rw [if_neg h0] at h
    cases h
    exact hqueue

theorem eventQueue_setModuleSwitchState {index state : UInt8}
    (h : s.setModuleSwitchState index state = .ok t) :
    t.db.eventQueue = s.db.eventQueue ++ (reportQueues s index state).toList := by
  obtain ⟨u, hu, h⟩ := bind_eq_ok.1 h
  obtain ⟨hlt, modules, hlist, rfl⟩ := modifyModule_eq_ok.1 hu
  obtain ⟨m, hm, h⟩ := bind_eq_ok.1 h
  cases h
  have hslot : ∃ m₀, s.slots[index.toNat]? = some m₀ ∧ m.hc = m₀.hc := by
    have hget := getModule_eq_ok.1 hm
    change modules.toList[index.toNat]? = some m at hget
    rw [hlist, List.getElem?_modify] at hget
    simp only [if_true, Option.map_eq_map, Option.map_eq_some_iff] at hget
    obtain ⟨m₀, hm₀, rfl⟩ := hget
    exact ⟨m₀, hm₀, rfl⟩
  obtain ⟨m₀, hm₀, hhc⟩ := hslot
  refine (eventQueue_charUpdateVal s.db m.hc _).trans ?_
  rw [reportQueues, hm₀, hhc]
  rfl

end State

/-- **What an event adds to the queue.** -/
theorem step_eventQueue (hvalid : s.ownership.Valid) (h : step s e = .ok t) :
    (∃ deviceName enablePop, e = .restart deviceName enablePop) ∨
      t.db.eventQueue = s.db.eventQueue ++ (queuedBy s e).toList := by
  have hvalid' : ∀ a, s.accessory = some a → a < s.db.accs.length := by
    intro a ha
    simpa [ownership] using hvalid a ha
  have hsame : t.db.eventQueue = s.db.eventQueue → queuedBy s e = none →
      t.db.eventQueue = s.db.eventQueue ++ (queuedBy s e).toList := by
    intro hqueue hnone
    rw [hqueue, hnone]
    simp
  cases e with
  | uart now msg =>
    cases msg with
    | linkModule data =>
      cases data with
      | none =>
        cases h
        exact Or.inr (hsame rfl rfl)
      | some data =>
        obtain ⟨m, -, ht⟩ := linkModule_eq_ok.1 h
        exact Or.inr (hsame (eventQueue_linkDecoded hvalid' ht) rfl)
    | updateData addr type lo hi =>
      change s.updateData now addr type lo hi = .ok t at h
      unfold updateData at h
      by_cases hswitch : type = moduleSwitchState
      · rw [if_pos hswitch] at h
        right
        rw [eventQueue_setModuleSwitchState h, queuedBy, if_pos hswitch]
      · rw [if_neg hswitch] at h
        refine Or.inr (hsame ?_ (if_neg hswitch))
        split at h
        · obtain ⟨trip, htrip⟩ := CurrentUpdate.of_ok h
          rw [htrip.homekit.2.2]
        · cases h
          rfl
    | _ =>
      cases h
      exact Or.inr (hsame rfl rfl)
  | live k =>
    refine Or.inr (hsame ?_ rfl)
    rcases liveCheck_cases h with ⟨-, u, hu, rfl⟩ | ⟨-, queue, connected, removed, tasks, rfl⟩
    · rw [liveRemove_eq] at hu
      cases hu
      exact eventQueue_removedDb s
    · rfl
  | setChar session curTime garbage body =>
    obtain ⟨r, hr, h⟩ := bind_eq_ok.1 h
    cases h
    exact Or.inr (hsame (eventQueue_handleSetChar hr) rfl)
  | mqttSwitch index on =>
    rw [doModulesAction_eq_ok h]
    exact Or.inr (by simp [queuedBy, push])
  | mqttPriority index value =>
    change s.modifyModule index (fun m => { m with priority := value }) = .ok t at h
    obtain ⟨-, modules, -, rfl⟩ := modifyModule_eq_ok.1 h
    exact Or.inr (hsame rfl rfl)
  | resetToFactory =>
    refine Or.inr (hsame ?_ rfl)
    unfold step at h
    simp only at h
    split at h <;> cases h <;> rfl
  | restart deviceName enablePop => exact Or.inl ⟨_, _, rfl⟩
  | _ =>
    cases h
    exact Or.inr (hsame rfl rfl)

/-! ## What stays alive -/

namespace Ownership

variable {o : Ownership} {a b : AccPtr}

theorem live_begin (o : Ownership) (n : Nat) : (o.begin n).Live a ↔ o.Live a := by
  rcases Option.eq_none_or_eq_some o.accessory with hacc | ⟨c, hacc⟩
  · rw [begin_of_none hacc]
  · rw [begin_of_some hacc]
    rfl

/-- A new accessory does not take the place of another one. -/
theorem live_create (hne : a < o.deleted.length) : o.create.Live a ↔ o.Live a := by
  show (o.deleted ++ [false])[a]? = some false ↔ _
  rw [List.getElem?_append_left hne]
  rfl

theorem Live.lt (h : o.Live a) : a < o.deleted.length := (List.getElem?_eq_some_iff.1 h).1

/-- A removal deletes the accessory the bridge points to, if one is registered. -/
theorem live_remove (h : o.Live a) :
    o.remove.Live a ↔ ¬ (o.primaryAcc.isSome = true ∧ o.accessory = some a) := by
  rcases Option.eq_none_or_eq_some o.accessory with hacc | ⟨b, hacc⟩
  · rw [remove_of_accessory_none hacc]
    exact iff_of_true h (by simp [hacc])
  · cases hreg : o.primaryAcc.isSome with
    | false =>
      rw [remove_of_none hreg]
      exact iff_of_true h (by simp)
    | true =>
      rw [remove_of_some hacc hreg, hacc]
      show (o.deleted.set b true)[a]? = some false ↔ _
      by_cases hab : b = a
      · rw [hab, List.getElem?_set_self h.lt]
        simp
      · rw [List.getElem?_set_ne hab]
        exact iff_of_true h (by simpa using hab)

theorem live_remove_create (h : o.Live a) :
    o.remove.create.Live a ↔ ¬ (o.primaryAcc.isSome = true ∧ o.accessory = some a) := by
  rw [live_create (by rw [length_deleted_remove]; exact h.lt), live_remove h]

end Ownership

theorem live_iff (s : State) (a : AccPtr) : s.db.Live a ↔ s.ownership.Live a := by
  simp [HapDb.Live, Ownership.Live, ownership]

/-! ## Nothing that waits is deleted -/

/-- What `hap_send_notification` would take from the queue belongs to accessories that exist and
are not deleted. -/
def PendingLive (s : State) : Prop := ∀ hc ∈ s.db.pendingNotifChars, s.db.Live hc.acc

/-- The event deletes the accessory: it is the first message of a link sequence, or the test of
a live check that removes the modules, while an accessory is registered. -/
def DeletesAccessory (s : State) (e : Event) : Prop :=
  s.db.primaryAcc.isSome = true ∧
    ((∃ now data m, e = .uart now (.linkModule (some data)) ∧ decodeLink data = .ok m ∧
        m.index + 1 = m.total) ∨
      ∃ k, e = .live k ∧ s.LiveRemoves k)

/-- The event queues no characteristic of a deleted accessory, and deletes no accessory one of
whose characteristics waits. -/
def QueuesLive (s : State) : NotifEvent → Prop
  | .bridge e =>
    (∀ hc, queuedBy s e = some hc → s.db.Live hc.acc) ∧
      (DeletesAccessory s e → ∀ a, s.accessory = some a → a ∉ pendingAccs s)
  | .sendNotification _ => True

/-- The characteristic a switch report updates: that of the slot. -/
def updatedBy (s : State) : Event → Option CharPtr
  | .uart _ (.updateData addr type _ _) =>
    if type = moduleSwitchState then s.slots[(addr - 1).toNat]? >>= ModuleT.hc else none
  | _ => none

/-- A switch report does not read and write a characteristic that is freed. -/
def ReportsLive (s : State) : NotifEvent → Prop
  | .bridge e => ∀ hc, updatedBy s e = some hc → s.db.Live hc.acc
  | .sendNotification _ => True

/-- The event updates no characteristic of a deleted accessory, and deletes no accessory one of
whose characteristics waits. -/
def KeepsPending (s : State) : NotifEvent → Prop
  | .bridge e =>
    (∀ hc, updatedBy s e = some hc → s.db.Live hc.acc) ∧
      (DeletesAccessory s e → ∀ a, s.accessory = some a → a ∉ pendingAccs s)
  | .sendNotification _ => True

/-- What an event queues it has updated. -/
theorem updatedBy_of_queuedBy {hc : CharPtr} (h : queuedBy s e = some hc) :
    updatedBy s e = some hc := by
  cases e with
  | uart now msg =>
    cases msg with
    | updateData addr type lo hi =>
      simp only [queuedBy] at h
      simp only [updatedBy]
      by_cases hswitch : type = moduleSwitchState
      · rw [if_pos hswitch] at h ⊢
        unfold reportQueues at h
        simp only [Option.bind_eq_bind, Option.bind_eq_some_iff, Option.ite_none_right_eq_some] at h
        obtain ⟨m, hm, p, hp, c, -, -, heq⟩ := h
        cases heq
        rw [hm]
        exact hp
      · rw [if_neg hswitch] at h
        cases h
    | _ => cases h
  | _ => cases h

theorem queuesLive_and_reportsLive {e : NotifEvent} :
    QueuesLive s e ∧ ReportsLive s e ↔ KeepsPending s e := by
  cases e with
  | bridge e =>
    constructor
    · rintro ⟨⟨-, hdel⟩, hlive⟩
      exact ⟨hlive, hdel⟩
    · rintro ⟨hlive, hdel⟩
      exact ⟨⟨fun hc hq => hlive hc (updatedBy_of_queuedBy hq), hdel⟩, hlive⟩
  | sendNotification sessions => simp [QueuesLive, ReportsLive, KeepsPending]

/-- An event that deletes the accessory deletes no other one, and queues nothing. -/
theorem live_of_deletes (hvalid : s.ownership.Valid) (h : step s e = .ok t)
    (hdel : DeletesAccessory s e) : queuedBy s e = none ∧
      ∀ a, s.ownership.Live a → (t.ownership.Live a ↔ s.accessory ≠ some a) := by
  obtain ⟨hreg, ⟨now, data, m, rfl, hm, hfirst⟩ | ⟨k, rfl, hrem⟩⟩ := hdel
  · obtain ⟨m', hm', ht⟩ := linkModule_eq_ok.1 h
    rw [hm] at hm'
    cases hm'
    refine ⟨rfl, fun a ha => ?_⟩
    have hown := ownership_linkDecoded hvalid ht
    rw [linkOwnership_of_first (by simp [LinkMsg.isFirst, hfirst])] at hown
    have hlive : t.ownership.Live a ↔ s.ownership.remove.create.Live a := by
      rw [hown]
      split
      · exact Ownership.live_begin _ _
      · rfl
    rw [hlive, Ownership.live_remove_create ha]
    exact not_congr (and_iff_right hreg)
  · refine ⟨rfl, fun a ha => ?_⟩
    rcases liveCheck_cases h with ⟨-, u, hu, rfl⟩ | ⟨hno, -⟩
    · have hown := ownership_liveRemove hu
      show u.ownership.Live a ↔ _
      rw [hown, Ownership.live_begin, Ownership.live_remove_create ha]
      exact not_congr (and_iff_right hreg)
    · exact absurd hrem hno

/-- Another event deletes nothing. -/
theorem live_of_not_deletes (hvalid : s.ownership.Valid) (h : step s e = .ok t)
    (hno : ¬ DeletesAccessory s e) :
    Booted t ∨ ∀ a, s.ownership.Live a → t.ownership.Live a := by
  rcases step_ownership hvalid h with ⟨hsame, -⟩ | ⟨hboot, -⟩ | ⟨now, data, m, rfl, hm, hown⟩ |
    ⟨k, rfl, hrem, hown⟩
  · exact Or.inr fun a ha => hsame ▸ ha
  · exact Or.inl hboot
  · refine Or.inr fun a ha => ?_
    by_cases hfirst : m.index + 1 = m.total
    · have hreg : ¬ s.ownership.primaryAcc.isSome = true := fun hreg =>
        hno ⟨hreg, Or.inl ⟨now, data, m, rfl, hm, hfirst⟩⟩
      have hlive := (Ownership.live_remove_create ha).2 fun hand => hreg hand.1
      rw [hown, linkOwnership_of_first (by simp [LinkMsg.isFirst, hfirst])]
      split
      · exact (Ownership.live_begin _ _).2 hlive
      · exact hlive
    · rw [hown, linkOwnership_of_not_first (by simp [LinkMsg.isFirst, hfirst])]
      split
      · exact (Ownership.live_begin _ _).2 ha
      · exact ha
  · refine Or.inr fun a ha => ?_
    have hreg : ¬ s.ownership.primaryAcc.isSome = true := fun hreg =>
      hno ⟨hreg, Or.inr ⟨k, rfl, hrem⟩⟩
    rw [hown, Ownership.live_begin, Ownership.live_remove_create ha]
    exact fun hand => hreg hand.1

/-- A report that queues a characteristic leaves the accessories alone. -/
theorem ownership_of_queuedBy {hc : CharPtr} (hq : queuedBy s e = some hc) (h : step s e = .ok t) :
    t.ownership = s.ownership := by
  cases e with
  | uart now msg =>
    cases msg with
    | updateData addr type lo hi =>
      simp only [queuedBy] at hq
      by_cases hswitch : type = moduleSwitchState
      · change s.updateData now addr type lo hi = .ok t at h
        unfold updateData at h
        rw [if_pos hswitch] at h
        exact ownership_setModuleSwitchState h
      · rw [if_neg hswitch] at hq
        cases hq
    | _ => cases hq
  | _ => cases hq

/-- Only an event with room in the queue queues something. -/
theorem room_of_queuedBy {hc : CharPtr} (hq : queuedBy s e = some hc) :
    s.db.eventQueue.length < hapMaxNotifChars := by
  cases e with
  | uart now msg =>
    cases msg with
    | updateData addr type lo hi =>
      simp only [queuedBy] at hq
      split at hq
      · unfold reportQueues at hq
        simp only [Option.bind_eq_bind, Option.bind_eq_some_iff, Option.ite_none_right_eq_some] at hq
        obtain ⟨m, -, p, -, c, -, hroom, -⟩ := hq
        exact hroom.2
      · cases hq
    | _ => cases hq
  | _ => cases hq

/-- The queue is no longer than it can be, and nothing in it is deleted. -/
structure PendingInv (s : State) : Prop where
  valid : s.ownership.Valid
  room : s.db.eventQueue.length ≤ hapMaxNotifChars
  live : ∀ a ∈ pendingAccs s, s.ownership.Live a

theorem pendingLive_iff_live (hroom : s.db.eventQueue.length ≤ hapMaxNotifChars) :
    PendingLive s ↔ ∀ a ∈ pendingAccs s, s.ownership.Live a := by
  unfold PendingLive HapDb.pendingNotifChars pendingAccs
  rw [List.take_of_length_le hroom]
  simp only [live_iff, List.forall_mem_map]

theorem Booted.pendingInv (h : Booted s) : PendingInv s := by
  refine ⟨h.settled.valid, ?_, ?_⟩ <;> obtain ⟨name, pop, rfl⟩ := h
  · exact Nat.zero_le _
  · intro a ha
    cases ha

/-- **The step lemma** for the events of the bridge. -/
theorem pendingLive_bridge (hI : PendingInv s) (h : step s e = .ok t) :
    (PendingLive t ↔ QueuesLive s (.bridge e)) ∧
      (QueuesLive s (.bridge e) → PendingInv t) := by
  -- it is enough to know which of the characteristics that wait are alive
  suffices hlive : t.db.eventQueue.length ≤ hapMaxNotifChars ∧
      ((∀ a ∈ pendingAccs t, t.ownership.Live a) ↔ QueuesLive s (.bridge e)) by
    obtain ⟨hroom, hlive⟩ := hlive
    refine ⟨(pendingLive_iff_live hroom).trans hlive, fun hkeep => ?_⟩
    exact ⟨valid_step hI.valid h, hroom, hlive.2 hkeep⟩
  rcases step_eventQueue hI.valid h with ⟨name, pop, rfl⟩ | hqueue
  · cases h
    refine ⟨Nat.zero_le _, iff_of_true (fun a ha => by cases ha) ⟨fun hc hq => (by cases hq), ?_⟩⟩
    rintro ⟨-, ⟨now, data, m, he, -⟩ | ⟨k, he, -⟩⟩ <;> cases he
  · have hpending : pendingAccs t =
        pendingAccs s ++ (queuedBy s e).toList.map CharPtr.acc := by
      unfold pendingAccs
      rw [hqueue, List.map_append]
    refine ⟨?_, ?_⟩
    · rw [hqueue, List.length_append]
      cases hq : queuedBy s e with
      | none => simpa using hI.room
      | some hc =>
        have := room_of_queuedBy hq
        simpa using this
    · by_cases hdel : DeletesAccessory s e
      · obtain ⟨hnone, hlive⟩ := live_of_deletes hI.valid h hdel
        rw [hpending, hnone]
        show _ ↔ (_ ∧ (_ → _))
        rw [hnone]
        constructor
        · intro hall
          refine ⟨fun hc hq => (by cases hq), fun _ a ha hmem => ?_⟩
          exact (hlive a (hI.live a hmem)).1 (hall a (by simpa using hmem)) ha
        · rintro ⟨-, hkeep⟩ a hmem
          have hmem' : a ∈ pendingAccs s := by simpa using hmem
          exact (hlive a (hI.live a hmem')).2 fun ha => hkeep hdel a ha hmem'
      · cases hq : queuedBy s e with
        | none =>
          refine iff_of_true (fun a hmem => ?_) ⟨fun hc hq' => by simp [hq] at hq', fun hd =>
            absurd hd hdel⟩
          have hmem' : a ∈ pendingAccs s := by simpa [hpending, hq] using hmem
          rcases live_of_not_deletes hI.valid h hdel with hboot | hlive
          · exact hboot.pendingInv.live a hmem
          · exact hlive a (hI.live a hmem')
        | some hc =>
          have hown := ownership_of_queuedBy hq h
          rw [hpending, hq, hown]
          show _ ↔ ((∀ hc', queuedBy s e = some hc' → _) ∧ (_ → _))
          rw [hq]
          constructor
          · intro hall
            refine ⟨fun hc' heq => ?_, fun hd => absurd hd hdel⟩
            cases heq
            exact (live_iff s _).2 (hall hc.acc (by simp))
          · rintro ⟨hlive, -⟩ a hmem
            rcases List.mem_append.1 hmem with hmem | hmem
            · exact hI.live a hmem
            · have ha : a = hc.acc := by simpa using hmem
              rw [ha]
              exact (live_iff s _).1 (hlive hc rfl)

/-- **The step lemma.** -/
theorem pendingLive_step {e : NotifEvent} (hI : PendingInv s) (h : notifStep s e = .ok t) :
    (PendingLive t ↔ QueuesLive s e) ∧ (QueuesLive s e → PendingInv t) := by
  cases e with
  | bridge e => exact pendingLive_bridge hI h
  | sendNotification sessions =>
    obtain ⟨⟨db, msgs⟩, hsend, h⟩ := bind_eq_ok.1 h
    cases h
    obtain ⟨hcore, hqueue⟩ := HapDb.sendNotification_frame hsend
    have hown : State.ownership { s with db := db } = s.ownership :=
      ownership_eq rfl hcore.primaryAcc (hcore.map_eq _ fun _ => rfl) rfl
    have hinv : PendingInv { s with db := db } := by
      refine ⟨by rw [hown]; exact hI.valid, ?_, fun a ha => ?_⟩
      · have := hI.room
        show db.eventQueue.length ≤ _
        rw [hqueue, List.length_drop]
        omega
      · rw [hown]
        apply hI.live a
        change a ∈ db.eventQueue.map CharPtr.acc at ha
        rw [hqueue, List.map_drop] at ha
        exact List.mem_of_mem_drop ha
    exact ⟨iff_of_true ((pendingLive_iff_live hinv.room).2 hinv.live) trivial, fun _ => hinv⟩

/-- **Nothing that waits or is updated is deleted** along a run exactly if no event deletes an
accessory one of whose characteristics waits, or updates a characteristic of a deleted one. -/
theorem pendingLive_iff (hboot : Booted s) {es : List NotifEvent}
    (h : Trace.run notifStep s es = .ok t) :
    (EachState notifStep PendingLive s es ∧ EachStep notifStep ReportsLive s es) ↔
      EachStep notifStep KeepsPending s es := by
  rw [eachState_iff_of_inv (I := PendingInv)
    (fun _ hI => (pendingLive_iff_live hI.room).2 hI.live)
    (fun _ _ _ hI hs => pendingLive_step hI hs) hboot.pendingInv h, ← eachStep_and]
  refine forall_congr' fun before => forall_congr' fun e => forall_congr' fun after =>
    forall_congr' fun u => forall_congr' fun _ => forall_congr' fun _ => ?_
  exact queuesLive_and_reportsLive

/-- A module is linked and switched off by hand; the notification is sent before anything
else. -/
theorem pendingLive_sentInTime :
    EachState notifStep PendingLive State.bootDefault
      [.bridge (.uart 0 (LinkFields.msg ⟨1, 1, [0x61], 0, true⟩)),
        .bridge (.uart 0 (.updateData 1 moduleSwitchState 0 0)), .sendNotification [0]] := by
  obtain ⟨t, ht, -⟩ := exists_of_okAnd (p := fun _ => true)
    (x := Trace.run notifStep State.bootDefault
      [.bridge (.uart 0 (LinkFields.msg ⟨1, 1, [0x61], 0, true⟩)),
        .bridge (.uart 0 (.updateData 1 moduleSwitchState 0 0)), .sendNotification [0]])
    (by decide +kernel)
  refine ((pendingLive_iff booted_bootDefault ht).2 ?_).1
  obtain ⟨u, hu, hcheck⟩ := exists_of_okAnd (p := fun u =>
      updatedBy u (.uart 0 (.updateData 1 moduleSwitchState 0 0)) = some ⟨0, 2, 0⟩ ∧
        u.db.accs[0]?.map HapAcc.deleted = some false)
    (x := notifStep State.bootDefault
      (.bridge (.uart 0 (LinkFields.msg ⟨1, 1, [0x61], 0, true⟩)))) (by decide +kernel)
  obtain ⟨hupdated, hlive⟩ := of_decide_eq_true hcheck
  refine eachStep_cons.2 ⟨⟨fun hc hq => (by cases hq), ?_⟩, fun v hv => eachStep_cons.2
    ⟨⟨fun hc hq => ?_, ?_⟩, fun _ _ => eachStep_cons.2 ⟨trivial, fun _ _ => eachStep_nil⟩⟩⟩
  · rintro ⟨hreg, -⟩
    cases hreg
  · rw [hu] at hv
    cases hv
    rw [hupdated] at hq
    cases hq
    rw [live_iff]
    simpa [Ownership.Live, ownership] using hlive
  · rintro ⟨-, ⟨now, data, m, he, -⟩ | ⟨k, he, -⟩⟩ <;> cases he

/-- The module is linked again before the notification is sent: the characteristic that is taken
from the queue then has been deleted. -/
theorem not_pendingLive_relink :
    ∃ s, Trace.run notifStep State.bootDefault
        [.bridge (.uart 0 (LinkFields.msg ⟨1, 1, [0x61], 0, true⟩)),
          .bridge (.uart 0 (.updateData 1 moduleSwitchState 0 0)),
          .bridge (.uart 0 (LinkFields.msg ⟨1, 1, [0x61], 0, true⟩))] = .ok s ∧
      s.db.pendingNotifChars = [⟨0, 2, 0⟩] ∧ ¬ s.db.Live 0 ∧ ¬ PendingLive s ∧
      notifStep s (.sendNotification [0]) = .error .freedDeref := by
  obtain ⟨s, hs, hcheck⟩ := exists_of_okAnd (p := fun s =>
      s.db.pendingNotifChars = [⟨0, 2, 0⟩] ∧ s.db.accs[0]?.map HapAcc.deleted = some true ∧
        (match notifStep s (.sendNotification [0]) with
          | .error .freedDeref => true
          | _ => false) = true)
    (x := Trace.run notifStep State.bootDefault
      [.bridge (.uart 0 (LinkFields.msg ⟨1, 1, [0x61], 0, true⟩)),
        .bridge (.uart 0 (.updateData 1 moduleSwitchState 0 0)),
        .bridge (.uart 0 (LinkFields.msg ⟨1, 1, [0x61], 0, true⟩))]) (by decide +kernel)
  obtain ⟨hpending, hdeleted, hfault⟩ := of_decide_eq_true hcheck
  have hdead : ¬ s.db.Live 0 := by
    rw [live_iff]
    show ¬ (s.db.accs.map HapAcc.deleted)[0]? = some false
    rw [List.getElem?_map, hdeleted]
    simp
  refine ⟨s, hs, hpending, hdead, fun hall => hdead (hall ⟨0, 2, 0⟩ (by simp [hpending])), ?_⟩
  split at hfault
  · assumption
  · cases hfault

end NinaHomekit
