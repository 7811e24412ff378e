import NinaHomekit.CommandHandler.Delivery
import NinaHomekit.Queued

/-!
# Responses and the SPI buffer

`uartTransmit` copies a message without looking at the size of the buffer.  Most messages are
short; that of a link message has as many bytes as there are modules, by its own account.

* `FirmwareEvent`, `firmwareStep` — the events of the bridge, and the pin writes of the rest.
* `SentWithin` — a message is sent within the buffer; `sentWithin_iff`.
* `step_fits` — what an event does to a queue whose messages fit.
* `queueFits_iff` — **every message fits exactly if no link message completes with a total
  above 4082.**
-/

namespace NinaHomekit

open Trace State UartMsgQueue

/-! ## The events -/

/-- The events of the bridge, and `digitalWrite` in `setup`, `restart`, `WifiManager` and
`mqtt_event_handler` and after the SAMD21 has started. -/
inductive FirmwareEvent where
  | bridge (e : Event)
  | pinWrite (pin state : UInt8)

/-- What an event does. -/
def firmwareStep (s : State) : FirmwareEvent → Except Fault State
  | .bridge e => step s e
  | .pinWrite pin state => .ok (s.digitalWrite pin state)

/-! ## Messages that fit -/

/-- The response for the message fits the buffer, its length field holds the length of the
payload, and it is written without a write outside the buffer. -/
structure SentWithin (m : UartMsg) : Prop where
  aligned : alignUp (9 + m.length) 4 ≤ spiBufferLen
  lengthField : ∃ hi lo, (frame m)[6]? = some hi ∧ (frame m)[7]? = some lo ∧
    hi.toNat * 256 + lo.toNat = m.length
  written : ∀ (uartReceive : Handler UartMsgQueue) (command : Nat → UInt8) (q q' : UartMsgQueue),
    IsTransmit command → q.nextPack = .ok (m, q') →
      ∃ response, handle (commandHandlers uartReceive) command
        (List.replicate spiBufferLen 0) q = .ok (response, q', alignUp (9 + m.length) 4)

variable {s t : State} {m : UartMsg}

/-- The buffer has room for 4083 bytes of payload. -/
theorem sentWithin_iff : SentWithin m ↔ m.length ≤ 4083 := by
  have hbuf : spiBufferLen = 4092 := rfl
  constructor
  · intro h
    have haligned := h.aligned
    have hle := le_alignUp (9 + m.length)
    omega
  · intro h
    refine ⟨?_, ⟨_, _, rfl, rfl, toNat_be16 m.length (by omega)⟩, ?_⟩
    · unfold alignUp udivUp
      omega
    · intro uartReceive command q q' hc hnext
      have hsent := handle_transmit uartReceive hc hnext (4083 - m.length)
      rw [show 9 + m.length + (4083 - m.length) = spiBufferLen by omega] at hsent
      exact ⟨_, hsent⟩

theorem State.Short.sentWithin (h : Short m) : SentWithin m :=
  sentWithin_iff.2 (h.2.trans (by decide))

/-- Every message of the queue is sent within the buffer. -/
def QueueFits (s : State) : Prop := ∀ m ∈ s.queue, SentWithin m

/-- Short messages do not matter. -/
theorem State.QueuesShort.queueFits (h : QueuesShort s t) (hs : QueueFits s) : QueueFits t := by
  obtain ⟨msgs, hqueue, hshort⟩ := h
  intro m hm
  rw [hqueue, List.mem_append] at hm
  rcases hm with hm | hm
  · exact hs m hm
  · exact (hshort m hm).sentWithin

/-- The messages of a link message fit, unless it is the last one and its total is too large. -/
theorem State.LinkMsg.sentWithin_msgs (l : LinkMsg) (htotal : l.index = 0 → 0 ≤ l.total) :
    (∀ m ∈ l.msgs, SentWithin m) ↔ (l.index = 0 → l.total ≤ 4082) := by
  have hpin : ∀ state, SentWithin ⟨254, [modulesStatePin, state]⟩ := fun state =>
    State.Short.sentWithin (short_pin modulesStatePin state)
  have hreq : SentWithin ⟨3, [cmdReqData, moduleCurrent]⟩ :=
    sentWithin_iff.2 (show 2 ≤ 4083 by decide)
  have hinit : 0 ≤ l.total →
      (SentWithin ⟨3, cmdInitModule :: addrBytes l.total.toNat⟩ ↔ l.total ≤ 4082) := by
    intro hnonneg
    rw [sentWithin_iff]
    change (addrBytes l.total.toNat).length + 1 ≤ 4083 ↔ _
    rw [length_addrBytes]
    omega
  unfold msgs
  by_cases h0 : l.index = 0
  · rw [if_pos h0]
    simp only [List.forall_mem_cons, hpin, hreq, hinit (htotal h0), h0, forall_const, true_and]
    simp
  · simp [h0, hpin]

/-! ## Runs -/

/-- A link message of the module with address 1 that is handled has a total of at most 4082. -/
def TotalFits (s : State) (e : FirmwareEvent) : Prop :=
  ∀ now data l, e = .bridge (.uart now (.linkModule (some data))) → decodeLink data = .ok l →
    l.index = 0 → (∃ t, firmwareStep s e = .ok t) → l.total ≤ 4082

theorem State.LinkMsg.total_nonneg {l : LinkMsg} (h : s.linkDecoded l = .ok t) :
    l.index = 0 → 0 ≤ l.total := by
  intro h0
  obtain ⟨u, -, h⟩ := bind_eq_ok.1 h
  rw [if_pos h0] at h
  exact (linkLast_frame h).1

/-- **The step lemma.**  From a queue whose messages fit, an event leads to another one exactly
if the total fits. -/
theorem step_fits {e : FirmwareEvent} (hs : QueueFits s) (h : firmwareStep s e = .ok t) :
    QueueFits t ↔ TotalFits s e := by
  cases e with
  | pinWrite pin state =>
    cases h
    refine iff_of_true ?_ fun now data l he => by cases he
    exact State.QueuesShort.queueFits (queuesShort_one rfl (short_pin pin state)) hs
  | bridge e =>
    rcases step_queue h with ⟨now, data, l, rfl, hl, hqueue⟩ | ⟨hlink, hother⟩
    · have hdec : s.linkDecoded l = .ok t := by
        obtain ⟨l', hl', ht⟩ := linkModule_eq_ok.1 h
        rw [hl] at hl'
        cases hl'
        exact ht
      have hfits : QueueFits t ↔ ∀ m ∈ l.msgs, SentWithin m := by
        unfold QueueFits
        rw [hqueue, List.forall_mem_append]
        exact and_iff_right hs
      rw [hfits, l.sentWithin_msgs (State.LinkMsg.total_nonneg hdec)]
      constructor
      · rintro htotal now' data' l' he hl' h0 -
        cases he
        rw [hl] at hl'
        cases hl'
        exact htotal h0
      · exact fun htotal h0 => htotal now data l rfl hl h0 ⟨t, h⟩
    · refine iff_of_true ?_ fun now data l he => ?_
      · rcases hother with hshort | htail | hnil
        · exact hshort.queueFits hs
        · intro m hm
          rw [htail] at hm
          exact hs m (List.mem_of_mem_tail hm)
        · intro m hm
          rw [hnil] at hm
          cases hm
      · cases he
        exact absurd ⟨now, data, rfl⟩ hlink

/-- **Every message the firmware queues fits the buffer** exactly if no link message that is
handled completes with a total above 4082. -/
theorem queueFits_iff (h : Booted s) (es : List FirmwareEvent) :
    EachState firmwareStep QueueFits s es ↔ EachStep firmwareStep TotalFits s es := by
  have h0 : QueueFits s := by
    obtain ⟨deviceName, enablePop, rfl⟩ := h
    intro m hm
    cases hm
  rw [eachState_iff, and_iff_right h0]
  refine (eachStep_iff_of_inv (I := QueueFits) (fun t e u hs hC hu => (step_fits hs hu).2 hC)
    (fun t e hs => ?_) h0).symm
  constructor
  · exact fun hC u hu => (step_fits hs hu).2 hC
  · intro hall now data l he hl hindex hok
    obtain ⟨u, hu⟩ := hok
    exact (step_fits hs hu).1 (hall u hu) now data l he hl hindex ⟨u, hu⟩

/-- A link message has a total that leaves room, as a test. -/
def totalFits : FirmwareEvent → Bool
  | .bridge (.uart _ (.linkModule (some data))) =>
    okAnd (decodeLink data) (fun l => decide (l.total ≤ 4082))
  | _ => true

/-- The start, the link message of an only module, and a poll. -/
theorem queueFits_onlyModule : EachState firmwareStep QueueFits State.bootDefault
    [.pinWrite modulesStatePin 0, .bridge (linkEvent (0, ⟨1, 1, [0x61], 0, true⟩)),
      .bridge .transmit] := by
  refine (queueFits_iff booted_bootDefault _).2 (eachStep_of_checkSteps
    (p := fun _ e => totalFits e) (fun t e hcheck => ?_) (by decide +kernel))
  rintro now data l rfl hl - -
  obtain ⟨l', hl', htotal⟩ := exists_of_okAnd hcheck
  rw [hl] at hl'
  cases hl'
  exact of_decide_eq_true htotal

/-- After the only module another message with address 1 comes, with a total of 4083. -/
theorem not_queueFits_total : ¬ EachState firmwareStep QueueFits State.bootDefault
    [.bridge (linkEvent (0, ⟨1, 1, [0x61], 0, true⟩)),
      .bridge (linkEvent (0, ⟨4083, 1, [0x61], 0, true⟩))] := by
  intro h
  obtain ⟨s, hs, hok⟩ := exists_of_okAnd
    (x := Trace.run firmwareStep State.bootDefault
      [.bridge (linkEvent (0, ⟨1, 1, [0x61], 0, true⟩))])
    (p := fun s => okAnd (firmwareStep s
      (.bridge (linkEvent (0, ⟨4083, 1, [0x61], 0, true⟩)))) fun _ => true) (by decide +kernel)
  obtain ⟨t, ht, -⟩ := exists_of_okAnd hok
  obtain ⟨l, hl, hcheck⟩ := exists_of_okAnd
    (x := decodeLink (LinkFields.toData ⟨4083, 1, [0x61], 0, true⟩))
    (p := fun l => l.index = 0 ∧ l.total = 4083) (by decide +kernel)
  obtain ⟨hindex, htotal⟩ := of_decide_eq_true hcheck
  have hfits : QueueFits s := h [_] [_] s rfl hs
  have hrun : Trace.run firmwareStep State.bootDefault
      ([.bridge (linkEvent (0, ⟨1, 1, [0x61], 0, true⟩))] ++
        [.bridge (linkEvent (0, ⟨4083, 1, [0x61], 0, true⟩))]) = .ok t :=
    run_concat_eq_ok.2 ⟨s, hs, ht⟩
  have hlast : QueueFits t := h.last hrun
  have hle := (step_fits hfits ht).1 hlast 0 (LinkFields.toData ⟨4083, 1, [0x61], 0, true⟩) l rfl
    hl hindex ⟨t, ht⟩
  omega

end NinaHomekit
