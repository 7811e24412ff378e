import NinaHomekit.CommandHandler.Frame

/-!
# Delivery over the SPI link

The firmware pushes messages, the bus master polls with the transmit command and reads
one frame a poll; the two happen in any order.  The run keeps what was pushed and the
frames that were read, so that one can be compared with the other.

* `linkStep` — one push or one poll, on the pointers and the bytes.
* `LinkInv` — the pushed messages are those delivered and then those the queue holds.
* `delivered_prefix` — **every message is delivered exactly once and in order.**
-/

namespace NinaHomekit

open Trace UartMsgQueue

/-- The queue, every message pushed so far and every frame read so far. -/
structure LinkState where
  queue : UartMsgQueue
  pushed : List UartMsg
  frames : List (List UInt8)

/-- Before anything is pushed or polled. -/
def LinkState.init : LinkState := ⟨UartMsgQueue.init, [], []⟩

/-- A push, with the address `new` returns, or a poll with a command buffer. -/
inductive LinkOp where
  | push (newPack : PackPtr) (m : UartMsg)
  | poll (command : Nat → UInt8)

/-- One push or one poll.  A poll is `loop` of `sketch.ino.cpp`: a zeroed response
buffer, `handle`, and as many bytes sent as `handle` returns. -/
def linkStep (uartReceive : Handler UartMsgQueue) (s : LinkState) :
    LinkOp → Except Fault LinkState
  | .push newPack m => do
    let queue ← s.queue.push newPack m
    return { s with queue := queue, pushed := s.pushed ++ [m] }
  | .poll command => do
    let (response, queue, responseLength) ←
      handle (commandHandlers uartReceive) command (List.replicate spiBufferLen 0) s.queue
    return { s with queue := queue, frames := s.frames ++ [response.take responseLength] }

/-- The steps considered: `new` returns an address that is not in use, the message has a
port below 255 and a frame that fits the buffer, the command is the transmit command. -/
def LinkAllowed (s : LinkState) : LinkOp → Prop
  | .push newPack m =>
    s.queue.heap newPack = none ∧ m.port ≤ 254 ∧ alignUp (9 + m.length) 4 ≤ spiBufferLen
  | .poll command => IsTransmit command

/-- What the bus master takes from the frames: every message but the idle ones. -/
def delivered (frames : List (List UInt8)) : List UartMsg :=
  (frames.filterMap decodeFrame).filter (· ≠ idlePack)

theorem delivered_append (fs gs : List (List UInt8)) :
    delivered (fs ++ gs) = delivered fs ++ delivered gs := by
  simp [delivered]

/-! ## The invariant -/

/-- A message the link carries. -/
def Sendable (m : UartMsg) : Prop := m.port ≤ 254 ∧ alignUp (9 + m.length) 4 ≤ spiBufferLen

instance (m : UartMsg) : Decidable (Sendable m) := inferInstanceAs (Decidable (_ ∧ _))

/-- The queue holds `packs`, and the messages pushed so far are those delivered and then
those of the queue. -/
structure LinkInv (s : LinkState) (packs : List (PackPtr × UartMsg)) : Prop where
  holds : s.queue.Holds packs
  pushed_eq : s.pushed = delivered s.frames ++ packs.map Prod.snd
  decodes : ∀ f ∈ s.frames, (decodeFrame f).isSome
  sendable : ∀ m ∈ packs.map Prod.snd, Sendable m

theorem linkInv_init : LinkInv LinkState.init [] :=
  ⟨holds_init, rfl, by simp [LinkState.init], by simp⟩

theorem le_alignUp (n : Nat) : n ≤ alignUp n 4 := by
  unfold alignUp udivUp
  omega

theorem idlePack_length : alignUp (9 + idlePack.length) 4 ≤ spiBufferLen := by decide

/-- A message that can be sent is not taken for an idle one. -/
theorem Sendable.ne_idlePack {m : UartMsg} (h : Sendable m) : m ≠ idlePack := by
  rintro rfl
  exact absurd h.1 (by decide)

variable (uartReceive : Handler UartMsgQueue) {s : LinkState}
  {packs : List (PackPtr × UartMsg)}

/-- A poll reads one frame, and that frame decodes to the message `nextPack` took. -/
theorem linkStep_poll {command : Nat → UInt8} (hc : IsTransmit command) {q : UartMsgQueue}
    {m : UartMsg} (h : s.queue.nextPack = .ok (m, q)) (hport : m.port ≤ 255)
    (hlen : alignUp (9 + m.length) 4 ≤ spiBufferLen) :
    ∃ f, linkStep uartReceive s (.poll command) =
        .ok { s with queue := q, frames := s.frames ++ [f] } ∧ decodeFrame f = some m := by
  have hle := le_alignUp (9 + m.length)
  obtain ⟨r, hr⟩ : ∃ r, spiBufferLen = 9 + m.length + r :=
    ⟨spiBufferLen - (9 + m.length), by omega⟩
  have hlen' : m.length < 65536 := by
    have : spiBufferLen = 4092 := rfl
    omega
  have htake : (frame m ++ List.replicate r 0).take (alignUp (9 + m.length) 4) =
      frame m ++ List.replicate (min (alignUp (9 + m.length) 4 - (9 + m.length)) r) 0 := by
    rw [List.take_append, length_frame, List.take_of_length_le (by simpa using hle),
      List.take_replicate]
  refine ⟨frame m ++ List.replicate (min (alignUp (9 + m.length) 4 - (9 + m.length)) r) 0,
    ?_, decodeFrame_frame m _ (by omega) hlen'⟩
  have hpoll := handle_transmit uartReceive hc h r
  rw [← hr] at hpoll
  exact (bind_of_eq_ok hpoll _).trans (by rw [← htake]; rfl)

/-- A push appends to what the queue holds. -/
theorem LinkInv.push (hI : LinkInv s packs) {newPack : PackPtr} {m : UartMsg}
    (h : LinkAllowed s (.push newPack m)) :
    ∃ t, linkStep uartReceive s (.push newPack m) = .ok t ∧
      LinkInv t (packs ++ [(newPack, m)]) := by
  obtain ⟨hfresh, hsend⟩ := h
  obtain ⟨q, hq, hholds⟩ := hI.holds.push (m := m) hfresh
  refine ⟨_, bind_of_eq_ok hq _, hholds, ?_, hI.decodes, ?_⟩
  · simp [hI.pushed_eq]
  · intro k hk
    rcases (by simpa using hk : k ∈ packs.map Prod.snd ∨ k = m) with hk | rfl
    · exact hI.sendable k hk
    · exact hsend

/-- A poll of an empty queue reads an idle frame and changes nothing else. -/
theorem LinkInv.poll_nil (hI : LinkInv s []) {command : Nat → UInt8}
    (hc : IsTransmit command) :
    ∃ t f, linkStep uartReceive s (.poll command) = .ok t ∧ t.frames = s.frames ++ [f] ∧
      decodeFrame f = some idlePack ∧ LinkInv t [] := by
  obtain ⟨f, hf, hdec⟩ := linkStep_poll uartReceive hc hI.holds.nextPack_nil
    (by decide) idlePack_length
  refine ⟨_, f, hf, rfl, hdec, hI.holds, ?_, ?_, hI.sendable⟩
  · rw [delivered_append]
    simp [delivered, hdec, hI.pushed_eq]
  · intro g hg
    rcases (by simpa using hg : g ∈ s.frames ∨ g = f) with hg | rfl
    · exact hI.decodes g hg
    · simp [hdec]

/-- A poll of a queue that holds something delivers the oldest message. -/
theorem LinkInv.poll_cons {a : PackPtr} {m : UartMsg} (hI : LinkInv s ((a, m) :: packs))
    {command : Nat → UInt8} (hc : IsTransmit command) :
    ∃ t f, linkStep uartReceive s (.poll command) = .ok t ∧ t.frames = s.frames ++ [f] ∧
      decodeFrame f = some m ∧ m ≠ idlePack ∧ LinkInv t packs := by
  have hm : Sendable m := hI.sendable m (by simp)
  obtain ⟨q, hq, hholds⟩ := hI.holds.nextPack_cons
  obtain ⟨f, hf, hdec⟩ := linkStep_poll uartReceive hc hq
    (by have := hm.1; omega) hm.2
  refine ⟨_, f, hf, rfl, hdec, hm.ne_idlePack, hholds, ?_, ?_, ?_⟩
  · rw [delivered_append, hI.pushed_eq]
    simp [delivered, hdec, hm.ne_idlePack]
  · intro g hg
    rcases (by simpa using hg : g ∈ s.frames ∨ g = f) with hg | rfl
    · exact hI.decodes g hg
    · simp [hdec]
  · exact fun k hk => hI.sendable k (List.mem_cons_of_mem _ hk)

/-- **The step lemma.**  An allowed step never faults and keeps the invariant. -/
theorem LinkInv.step (hI : LinkInv s packs) {op : LinkOp} (h : LinkAllowed s op) :
    ∃ t packs', linkStep uartReceive s op = .ok t ∧ LinkInv t packs' := by
  cases op with
  | push newPack m =>
    obtain ⟨t, ht, hinv⟩ := hI.push uartReceive h
    exact ⟨t, _, ht, hinv⟩
  | poll command =>
    cases packs with
    | nil =>
      obtain ⟨t, f, ht, -, -, hinv⟩ := hI.poll_nil uartReceive h
      exact ⟨t, _, ht, hinv⟩
    | cons p packs =>
      obtain ⟨a, m⟩ := p
      obtain ⟨t, f, ht, -, -, -, hinv⟩ := hI.poll_cons uartReceive h
      exact ⟨t, _, ht, hinv⟩

/-- **The run lemma.**  A run of allowed steps never faults and keeps the invariant. -/
theorem LinkInv.run (hI : LinkInv s packs) {ops : List LinkOp}
    (h : EachStep (linkStep uartReceive) LinkAllowed s ops) :
    ∃ t packs', Trace.run (linkStep uartReceive) s ops = .ok t ∧ LinkInv t packs' := by
  induction ops generalizing s packs with
  | nil => exact ⟨s, packs, rfl, hI⟩
  | cons op ops ih =>
    obtain ⟨h0, hrest⟩ := eachStep_cons.1 h
    obtain ⟨u, packs', hu, hinv⟩ := hI.step uartReceive h0
    obtain ⟨t, packs'', ht, hinv'⟩ := ih hinv (hrest u hu)
    exact ⟨t, packs'', run_cons_eq_ok.2 ⟨u, hu, ht⟩, hinv'⟩

/-! ## Exactly once, in order -/

/-- A poll reads exactly one frame, an idle one exactly when every message pushed so far
has been delivered; that is also when `isEmpty` says so. -/
def PollIdleIff (uartReceive : Handler UartMsgQueue) (s : LinkState) : LinkOp → Prop
  | .push _ _ => True
  | .poll command =>
    ∃ t f, linkStep uartReceive s (.poll command) = .ok t ∧ t.frames = s.frames ++ [f] ∧
      (decodeFrame f = some idlePack ↔ delivered s.frames = s.pushed) ∧
      (decodeFrame f = some idlePack ↔ s.queue.isEmpty = true)

theorem LinkInv.pollIdleIff (hI : LinkInv s packs) {op : LinkOp} (h : LinkAllowed s op) :
    PollIdleIff uartReceive s op := by
  cases op with
  | push newPack m => trivial
  | poll command =>
    have hempty := hI.holds.isEmpty_iff
    have hall : delivered s.frames = s.pushed ↔ packs = [] := by
      rw [hI.pushed_eq]
      simp
    cases packs with
    | nil =>
      obtain ⟨t, f, ht, hframes, hdec, -⟩ := hI.poll_nil uartReceive h
      exact ⟨t, f, ht, hframes, by simp [hdec, hall], by simp [hdec, hempty]⟩
    | cons p packs =>
      obtain ⟨a, m⟩ := p
      obtain ⟨t, f, ht, hframes, hdec, hm, -⟩ := hI.poll_cons uartReceive h
      exact ⟨t, f, ht, hframes, by simp [hdec, hm, hall], by simp [hdec, hm, hempty]⟩

/-- **Outgoing messages are delivered exactly once and in order.**  Along every list of
pushes and polls: no step faults, every frame read decodes, the messages delivered are a
prefix of those pushed, `size` counts the others, and a poll reads an idle frame exactly
when nothing is left to deliver. -/
theorem delivered_prefix (uartReceive : Handler UartMsgQueue) (ops : List LinkOp)
    (h : EachStep (linkStep uartReceive) LinkAllowed LinkState.init ops) :
    ∃ s, Trace.run (linkStep uartReceive) LinkState.init ops = .ok s ∧
      (∀ f ∈ s.frames, (decodeFrame f).isSome) ∧
      delivered s.frames <+: s.pushed ∧
      s.queue.size = s.pushed.length - (delivered s.frames).length ∧
      EachStep (linkStep uartReceive) (PollIdleIff uartReceive) LinkState.init ops := by
  obtain ⟨s, packs, hs, hI⟩ := linkInv_init.run uartReceive h
  refine ⟨s, hs, hI.decodes, ⟨_, hI.pushed_eq.symm⟩, ?_, ?_⟩
  · rw [hI.holds.size_eq, hI.pushed_eq]
    simp
  · intro before op after t hops ht
    subst hops
    obtain ⟨u, packs', hu, hinv⟩ := linkInv_init.run uartReceive
      (eachStep_append.1 h).1
    rw [ht] at hu
    cases hu
    exact hinv.pollIdleIff uartReceive (h before op after t rfl ht)

/-- Two messages are delivered, and a third that is pushed when the queue has run empty, at an
address that was freed; the last poll finds nothing left. -/
theorem delivered_prefix_runEmpty :
    let uartReceive : Handler UartMsgQueue := fun _ response q => .ok (response, q, 0)
    let command : Nat → UInt8 := fun i => if i = 0 then 0xe0 else 0x01
    let ops : List LinkOp :=
      [.push 0 ⟨3, [cmdDoModule, 1, doTurnOff]⟩, .push 1 ⟨3, [cmdReqData, moduleCurrent]⟩,
        .poll command, .poll command, .push 0 ⟨3, [cmdDoModule, 2, doTurnOn]⟩, .poll command,
        .poll command]
    ∃ s, Trace.run (linkStep uartReceive) LinkState.init ops = .ok s ∧
      delivered s.frames <+: s.pushed ∧
      s.queue.size = s.pushed.length - (delivered s.frames).length := by
  intro uartReceive command ops
  have hops : EachStep (linkStep uartReceive) LinkAllowed LinkState.init ops := by
    refine eachStep_of_checkSteps (p := fun s op => match op with
      | .push newPack m => (s.queue.heap newPack).isNone && decide (Sendable m)
      | .poll command => decide (IsTransmit command)) ?_ (by decide +kernel)
    intro s op hcheck
    cases op with
    | push newPack m =>
      obtain ⟨hfree, hsend⟩ := Bool.and_eq_true_iff.1 hcheck
      exact ⟨Option.isNone_iff_eq_none.1 hfree, of_decide_eq_true hsend⟩
    | poll command =>
      have htransmit : IsTransmit command := of_decide_eq_true hcheck
      exact htransmit
  obtain ⟨s, hs, -, hpre, hsize, -⟩ := delivered_prefix uartReceive ops hops
  exact ⟨s, hs, hpre, hsize⟩

end NinaHomekit
