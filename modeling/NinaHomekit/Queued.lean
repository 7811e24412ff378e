import NinaHomekit.CommandHandler.Mcub
import NinaHomekit.System

/-!
# What the firmware queues

Every event appends messages to the outgoing queue, takes one from it or empties it.

* `LinkMsg.msgs` — the messages of a link message; `queue_linkDecoded`.
* `Short` — a message of at most 255 pairs; all but those of a link message are.
* `step_queue` — **what an event does to the queue.**
-/

namespace NinaHomekit

open Trace

namespace State

variable {s t : State} {k : Nat}

/-! ## A link message -/

/-- The messages a link message queues: the last one of a sequence initialises the modules. -/
def LinkMsg.msgs (m : LinkMsg) : List UartMsg :=
  ⟨254, [modulesStatePin, 0]⟩ :: if m.index = 0 then
    [⟨3, cmdInitModule :: addrBytes m.total.toNat⟩, ⟨3, [cmdReqData, moduleCurrent]⟩,
      ⟨254, [modulesStatePin, 1]⟩] else []

theorem length_addrBytes (n : Nat) : (addrBytes n).length = n := by simp [addrBytes]

theorem queue_linkStart (s : State) (m : LinkMsg) :
    (s.linkStart m).queue = s.queue ++ [⟨254, [modulesStatePin, 0]⟩] := by
  unfold linkStart
  split
  · unfold linkFirst
    rw [createAccessory_removeModules]
    rfl
  · rfl

theorem queue_linkLast {total : Int} (h : s.linkLast total = .ok t) :
    t.queue = s.queue ++ [⟨3, cmdInitModule :: addrBytes total.toNat⟩,
      ⟨3, [cmdReqData, moduleCurrent]⟩, ⟨254, [modulesStatePin, 1]⟩] := by
  unfold linkLast at h
  split at h
  · cases h
  · obtain ⟨u, hu, h⟩ := bind_eq_ok.1 h
    obtain ⟨modules, db, -, rfl⟩ := beginAccessory_frame hu
    cases h
    simp [digitalWrite, push, linkAnnounce, requestModulesData]

theorem queue_linkDecoded {m : LinkMsg} (h : s.linkDecoded m = .ok t) :
    t.queue = s.queue ++ m.msgs := by
  obtain ⟨u, hu, h⟩ := bind_eq_ok.1 h
  obtain ⟨-, nm, -, modules, -, rfl⟩ := addModule_eq_ok.1 hu
  unfold LinkMsg.msgs
  by_cases h0 : m.index = 0
  · rw [if_pos h0] at h ⊢
    rw [queue_linkLast h]
    show (s.linkStart m).queue ++ _ = _
    rw [queue_linkStart, List.append_assoc]
    rfl
  · rw [if_neg h0] at h ⊢
    cases h
    exact queue_linkStart s m

/-! ## Any other event -/

/-- A message to a port of the bus, with at most 255 pairs of bytes. -/
def Short (m : UartMsg) : Prop := m.port ≤ 254 ∧ m.length ≤ 511

/-- Only short messages are added. -/
def QueuesShort (s t : State) : Prop :=
  ∃ msgs, t.queue = s.queue ++ msgs ∧ ∀ m ∈ msgs, Short m

theorem queuesShort_nil (h : t.queue = s.queue) : QueuesShort s t :=
  ⟨[], by rw [h, List.append_nil], by simp⟩

theorem queuesShort_one {m : UartMsg} (h : t.queue = s.queue ++ [m]) (hm : Short m) :
    QueuesShort s t := ⟨[m], h, by simpa using hm⟩

theorem short_pin (pin state : UInt8) : Short ⟨254, [pin, state]⟩ :=
  ⟨le_rfl, show 2 ≤ 511 by decide⟩

/-- A message with some pairs, of which the length argument keeps no more than 255. -/
theorem short_doModule (addrs actions : List UInt8) (length : UInt8) :
    Short ⟨3, cmdDoModule :: ((addrs.zip actions).take length.toNat).flatMap
      fun (addr, action) => [addr, action]⟩ := by
  refine ⟨show 3 ≤ 254 by decide, ?_⟩
  have hlt := length.toNat_lt
  have hpairs : ∀ l : List (UInt8 × UInt8),
      (l.flatMap fun (addr, action) => [addr, action]).length = 2 * l.length := by
    intro l
    induction l with
    | nil => rfl
    | cons p l ih =>
      rw [List.flatMap_cons, List.length_append, ih, List.length_cons, List.length_cons,
        List.length_cons, List.length_nil]
      omega
  have htake := List.length_take_le length.toNat (addrs.zip actions)
  show (List.length _) + 1 ≤ 511
  rw [hpairs]
  omega

theorem queue_liveCheck (h : s.liveCheck k = .ok t) : QueuesShort s t := by
  unfold liveCheck at h
  split at h
  · cases h
    exact queuesShort_nil rfl
  · split at h
    · cases h
      exact queuesShort_nil rfl
    · cases h
      exact queuesShort_nil rfl
  · cases h
    exact queuesShort_one rfl ⟨by decide, by show 1 ≤ 511; decide⟩
  · cases h
    exact queuesShort_nil rfl
  · split at h
    · unfold liveTest at h
      split at h
      · obtain ⟨u, hu, h⟩ := bind_eq_ok.1 h
        cases h
        unfold liveRemoveOnce at hu
        split at hu
        · rw [liveRemove_eq] at hu
          cases hu
          exact queuesShort_one rfl (short_pin _ _)
        · cases hu
          exact queuesShort_nil rfl
      · cases h
        exact queuesShort_nil rfl
    · cases h
      exact queuesShort_nil rfl
  · cases h
    exact queuesShort_one rfl ⟨by decide, by show 2 ≤ 511; decide⟩

theorem queue_handleSetChar {session : Session} {curTime : Int} {garbage : Garbage}
    {body : JsonVal} {r : SetCharResult}
    (h : s.handleSetChar session curTime garbage body = .ok r) : QueuesShort s r.state := by
  unfold handleSetChar at h
  split at h
  · cases h
    exact queuesShort_nil rfl
  split at h
  · cases h
  · obtain ⟨⟨u, report⟩, hu, h⟩ := bind_eq_ok.1 h
    cases h
    unfold actOnWrites at hu
    split at hu
    · cases hu
      exact queuesShort_nil rfl
    · obtain ⟨a, -, hu⟩ := bind_eq_ok.1 hu
      obtain ⟨v, hv, hu⟩ := bind_eq_ok.1 hu
      cases hu
      rw [doModulesAction_eq_ok hv]
      exact queuesShort_one rfl (short_doModule _ _ _)

theorem queue_updateCurrent {now : UInt32} {addr : UInt8} {value : UInt16}
    (h : s.updateCurrent now addr value = .ok t) : QueuesShort s t := by
  obtain ⟨haddr, h1, h20⟩ := updateCurrent_bounds h
  obtain ⟨u, v, trip, -, hu, -, hv, hok⟩ := updateCurrent_of_bounds now value haddr (by omega) h20
  rw [h] at hok
  cases hok
  obtain ⟨modules, a, hueq⟩ := hu.eq
  obtain ⟨a', last, hveq⟩ := hv.eq
  have hqueue : v.queue = s.queue ++ trip := by
    rw [hveq]
    show u.queue ++ trip = _
    rw [hueq]
  have htrip : ∀ m ∈ trip, Short m := by
    intro m hm
    by_cases hle : u.systemStatus.sumCurrent.toNat ≤ maxCurrent
    · rw [hv.quiet hle] at hm
      cases hm
    · cases he : u.emergTriggered with
      | false =>
        obtain ⟨victim, -, rfl⟩ := hv.armed (not_le.1 hle) he
        rw [List.mem_singleton.1 hm]
        exact ⟨show 3 ≤ 254 by decide, show 3 ≤ 511 by decide⟩
      | true =>
        rw [hv.latched he m hm]
        exact ⟨show 3 ≤ 254 by decide, show 2 ≤ 511 by decide⟩
  refine ⟨trip ++ [mcubMsg _], by rw [← List.append_assoc, ← hqueue], fun m hm => ?_⟩
  rcases List.mem_append.1 hm with hm | hm
  · exact htrip m hm
  · rw [List.mem_singleton.1 hm]
    exact ⟨show 3 ≤ 254 by decide, show 5 ≤ 511 by decide⟩

theorem queue_setModuleSwitchState {index state : UInt8}
    (h : s.setModuleSwitchState index state = .ok t) : t.queue = s.queue := by
  obtain ⟨u, hu, h⟩ := bind_eq_ok.1 h
  obtain ⟨-, modules, -, rfl⟩ := modifyModule_eq_ok.1 hu
  obtain ⟨m, -, h⟩ := bind_eq_ok.1 h
  cases h
  rfl

end State

open State

variable {s t : State} {e : Event}

/-- A link message that was parsed. -/
def IsLink (e : Event) : Prop := ∃ now data, e = .uart now (.linkModule (some data))

/-- **What an event does to the queue**: a link message adds its own messages, any other event
short ones, or it takes the first, or all of them are lost. -/
theorem step_queue (h : step s e = .ok t) :
    (∃ now data m, e = .uart now (.linkModule (some data)) ∧ decodeLink data = .ok m ∧
      t.queue = s.queue ++ m.msgs) ∨
    (¬ IsLink e ∧ (QueuesShort s t ∨ t.queue = s.queue.tail ∨ t.queue = [])) := by
  by_cases hlink : IsLink e
  · obtain ⟨now, data, rfl⟩ := hlink
    obtain ⟨m, hm, ht⟩ := linkModule_eq_ok.1 h
    exact Or.inl ⟨now, data, m, rfl, hm, queue_linkDecoded ht⟩
  refine Or.inr ⟨hlink, ?_⟩
  cases e with
  | uart now msg =>
    cases msg with
    | linkModule data =>
      cases data with
      | none =>
        cases h
        exact Or.inl (queuesShort_one rfl ⟨show 1 ≤ 254 by decide, show 2 ≤ 511 by decide⟩)
      | some data => exact absurd ⟨now, data, rfl⟩ hlink
    | updateData addr type lo hi =>
      change s.updateData now addr type lo hi = .ok t at h
      unfold updateData at h
      split at h
      · exact Or.inl (queuesShort_nil (queue_setModuleSwitchState h))
      · split at h
        · exact Or.inl (queue_updateCurrent h)
        · cases h
          exact Or.inl (queuesShort_nil rfl)
    | samd21Init =>
      cases h
      exact Or.inl (queuesShort_one rfl ⟨show 1 ≤ 254 by decide, show 2 ≤ 511 by decide⟩)
    | reqAdr =>
      cases h
      exact Or.inl (queuesShort_one rfl ⟨show 1 ≤ 254 by decide, show 2 ≤ 511 by decide⟩)
    | _ =>
      cases h
      exact Or.inl (queuesShort_nil rfl)
  | live k => exact Or.inl (queue_liveCheck h)
  | transmit =>
    cases h
    exact Or.inr (Or.inl rfl)
  | setChar session curTime garbage body =>
    obtain ⟨r, hr, h⟩ := bind_eq_ok.1 h
    cases h
    exact Or.inl (queue_handleSetChar hr)
  | mqttSwitch index on =>
    rw [doModulesAction_eq_ok h]
    exact Or.inl (queuesShort_one rfl (short_doModule _ _ _))
  | mqttPriority index value =>
    change s.modifyModule index (fun m => { m with priority := value }) = .ok t at h
    obtain ⟨-, modules, -, rfl⟩ := modifyModule_eq_ok.1 h
    exact Or.inl (queuesShort_nil rfl)
  | resetToFactory =>
    unfold step at h
    simp only at h
    split at h
    · cases h
      refine Or.inl (queuesShort_one rfl ⟨show 3 ≤ 254 by decide, ?_⟩)
      have hlt := s.moduleNum_lt
      show (addrBytes s.moduleNum).length + 1 ≤ 511
      rw [length_addrBytes]
      omega
    · cases h
      exact Or.inl (queuesShort_nil rfl)
  | requestCurrents =>
    cases h
    exact Or.inl (queuesShort_one rfl ⟨show 3 ≤ 254 by decide, show 2 ≤ 511 by decide⟩)
  | restart deviceName enablePop =>
    cases h
    exact Or.inr (Or.inr rfl)
  | _ =>
    cases h
    exact Or.inl (queuesShort_nil rfl)

end NinaHomekit
