import NinaHomekit.CommandHandler.Queue
import NinaHomekit.Lib.Trace

/-!
# Response frames

`uartTransmit` and `CommandHandlerClass::handle` of `CommandHandler.cpp`, on an explicit
response buffer whose writes are checked, and the frame the bus master reads back.

* `poke`, `pokeAll` — writes to the response buffer.
* `uartTransmit`, `handle` — the code.  `handle` takes the table of command handlers, so
  that nothing here depends on what `uartReceive` does.
* `frame`, `decodeFrame` — the frame as the bus master reads it, and `decodeFrame_frame`.
* `handle_transmit` — the bytes a poll leaves in the buffer.
-/

namespace NinaHomekit

open Trace UartMsgQueue

/-! ## The response buffer -/

/-- `buf[i] = v`. -/
def poke (buf : List UInt8) (i : Nat) (v : UInt8) : Except Fault (List UInt8) :=
  if i < buf.length then .ok (buf.set i v) else .error (.outOfBounds i)

/-- `for (i = 0; i < length; i++) buf[off + i] = vs[i]`. -/
def pokeAll (buf : List UInt8) (off : Nat) : List UInt8 → Except Fault (List UInt8)
  | [] => .ok buf
  | v :: vs => poke buf off v >>= fun buf' => pokeAll buf' (off + 1) vs

theorem poke_append (pre : List UInt8) (x v : UInt8) (post : List UInt8) {i : Nat}
    (hi : i = pre.length) : poke (pre ++ x :: post) i v = .ok (pre ++ v :: post) := by
  simp [poke, hi]

theorem pokeAll_append (pre : List UInt8) (vs mid post : List UInt8)
    (h : vs.length = mid.length) :
    pokeAll (pre ++ mid ++ post) pre.length vs = .ok (pre ++ vs ++ post) := by
  induction vs generalizing pre mid with
  | nil =>
    have hmid : mid = [] := List.eq_nil_of_length_eq_zero h.symm
    simp [pokeAll, hmid]
  | cons v vs ih =>
    cases mid with
    | nil => simp at h
    | cons x mid =>
      have hstep := ih (pre ++ [v]) mid (by simpa using h)
      simp only [List.append_assoc, List.length_append, List.length_singleton, List.cons_append,
        List.nil_append] at hstep ⊢
      rw [pokeAll, poke_append pre x v _ rfl, ok_bind, hstep]

/-! ## `uartTransmit` and `handle` -/

/-- A command handler: the command, the response buffer and the state it works on, to
the buffer, the state and the length of the response. -/
abbrev Handler (σ : Type) :=
  (Nat → UInt8) → List UInt8 → σ → Except Fault (List UInt8 × σ × Nat)

/-- `uartTransmit`. -/
def uartTransmit : Handler UartMsgQueue := fun _command response q => do
  let (pack, q) ← q.nextPack
  let length := pack.length
  let response ← poke response 2 2
  let response ← poke response 3 0x00
  let response ← poke response 4 0x01
  let response ← poke response 5 (UInt8.ofNat pack.port)
  let response ← poke response 6 (UInt8.ofNat (length >>> 8))
  let response ← poke response 7 (UInt8.ofNat (length &&& 0xff))
  let response ← pokeAll response 8 pack.payload
  return (response, q, 9 + length)

/-- `UDIV_UP`. -/
def udivUp (a b : Nat) : Nat := (a + b - 1) / b

/-- `ALIGN_UP`. -/
def alignUp (a b : Nat) : Nat := udivUp a b * b

/-- The part of `handle` that picks and runs the handler; a response of length 0 stands
for none. -/
def dispatch {σ : Type} (commandHandlers : List (Option (Handler σ))) : Handler σ :=
  fun command response s =>
    if command 0 = 0xe0 ∧ (command 1).toNat < commandHandlers.length then
      match commandHandlers[(command 1).toNat]? with
      | some (some commandHandler) => commandHandler command response s
      | _ => .ok (response, s, 0)
    else .ok (response, s, 0)

/-- `CommandHandlerClass::handle`. -/
def handle {σ : Type} (commandHandlers : List (Option (Handler σ))) : Handler σ :=
  fun command response s => do
    let (response, s, responseLength) ← dispatch commandHandlers command response s
    if responseLength = 0 then
      let response ← poke response 0 0xef
      let response ← poke response 1 0x00
      let response ← poke response 2 0xee
      return (response, s, alignUp 3 4)
    else
      let response ← poke response 0 0xe0
      let response ← poke response 1 (0x80 ||| command 1)
      let response ← poke response (responseLength - 1) 0xee
      return (response, s, alignUp responseLength 4)

/-- `commandHandlers`: `uartReceive`, `uartTransmit` and fourteen nulls. -/
def commandHandlers (uartReceive : Handler UartMsgQueue) :
    List (Option (Handler UartMsgQueue)) :=
  [some uartReceive, some uartTransmit] ++ List.replicate 14 none

/-! ## Frames -/

/-- The frame of a message: the start bytes, two parameters with their 16-bit lengths,
the end byte. -/
def frame (m : UartMsg) : List UInt8 :=
  [0xe0, 0x81, 2, 0x00, 0x01, UInt8.ofNat m.port, UInt8.ofNat (m.length >>> 8),
    UInt8.ofNat (m.length &&& 0xff)] ++ m.payload ++ [0xee]

@[simp] theorem length_frame (m : UartMsg) : (frame m).length = 9 + m.length := by
  simp [frame, UartMsg.length]
  omega

/-- Read a parameter: a 16-bit big-endian length and that many bytes. -/
def takeParam : List UInt8 → Option (List UInt8 × List UInt8)
  | h :: l :: rest =>
    let n := h.toNat * 256 + l.toNat
    if rest.length < n then none else some (rest.take n, rest.drop n)
  | _ => none

/-- Read a response frame with a port and a payload, as the bus master does. -/
def decodeFrame : List UInt8 → Option UartMsg
  | start :: cmd :: nparam :: params =>
    if start = 0xe0 ∧ cmd = 0x81 ∧ nparam = 2 then
      match takeParam params with
      | some ([port], params) =>
        match takeParam params with
        | some (payload, last :: _) => if last = 0xee then some ⟨port.toNat, payload⟩ else none
        | _ => none
      | _ => none
    else none
  | _ => none

theorem toNat_be16 (n : Nat) (h : n < 65536) :
    (UInt8.ofNat (n >>> 8)).toNat * 256 + (UInt8.ofNat (n &&& 0xff)).toNat = n := by
  have hand : n &&& 0xff = n % 256 := Nat.and_two_pow_sub_one_eq_mod n 8
  rw [hand, Nat.shiftRight_eq_div_pow, UInt8.toNat_ofNat', UInt8.toNat_ofNat']
  omega

theorem takeParam_append (bs rest : List UInt8) (h : bs.length < 65536) :
    takeParam (UInt8.ofNat (bs.length >>> 8) :: UInt8.ofNat (bs.length &&& 0xff) ::
      (bs ++ rest)) = some (bs, rest) := by
  rw [takeParam, toNat_be16 _ h]
  simp

/-- **A frame decodes to its message**, whatever padding follows it. -/
theorem decodeFrame_frame (m : UartMsg) (rest : List UInt8) (hport : m.port < 256)
    (hlen : m.length < 65536) : decodeFrame (frame m ++ rest) = some m := by
  have h1 := takeParam_append [UInt8.ofNat m.port] (UInt8.ofNat (m.length >>> 8) ::
    UInt8.ofNat (m.length &&& 0xff) :: (m.payload ++ 0xee :: rest)) (by simp)
  have h2 := takeParam_append m.payload (0xee :: rest) hlen
  have hone : UInt8.ofNat (1 >>> 8) = 0 ∧ UInt8.ofNat (1 &&& 0xff) = 1 := by decide
  simp only [List.length_singleton, hone, List.singleton_append] at h1
  simp only [UartMsg.length] at h1
  simp only [frame, List.cons_append, List.nil_append, List.append_assoc, decodeFrame,
    UartMsg.length, h1, h2, and_self, if_true, UInt8.toNat_ofNat', Nat.mod_eq_of_lt hport]

/-! ## One poll -/

/-- A command buffer that holds the transmit command. -/
def IsTransmit (command : Nat → UInt8) : Prop := command 0 = 0xe0 ∧ command 1 = 0x01

instance (command : Nat → UInt8) : Decidable (IsTransmit command) :=
  inferInstanceAs (Decidable (_ ∧ _))

theorem dispatch_transmit (uartReceive : Handler UartMsgQueue) {command : Nat → UInt8}
    (hc : IsTransmit command) (response : List UInt8) (q : UartMsgQueue) :
    dispatch (commandHandlers uartReceive) command response q =
      uartTransmit command response q := by
  simp only [dispatch, commandHandlers, hc.1, hc.2]
  rfl

/-- What `uartTransmit` writes: everything of the frame but its first two bytes and its
last one, which `handle` adds. -/
theorem uartTransmit_eq (command : Nat → UInt8) {q q' : UartMsgQueue} {m : UartMsg}
    (h : q.nextPack = .ok (m, q')) (rest : List UInt8) :
    uartTransmit command
        ([0, 0, 0, 0, 0, 0, 0, 0] ++ List.replicate m.length 0 ++ 0 :: rest) q =
      .ok ([0, 0, 2, 0, 1, UInt8.ofNat m.port, UInt8.ofNat (m.length >>> 8),
        UInt8.ofNat (m.length &&& 0xff)] ++ m.payload ++ 0 :: rest, q', 9 + m.length) := by
  have hpay := pokeAll_append [0, 0, 2, 0, 1, UInt8.ofNat m.port, UInt8.ofNat (m.length >>> 8),
    UInt8.ofNat (m.length &&& 0xff)] m.payload (List.replicate m.length 0) (0 :: rest)
    (by simp [UartMsg.length])
  simp only [uartTransmit, h, ok_bind]
  rw [List.append_assoc]
  refine (bind_of_eq_ok (poke_append [0, 0] 0 2 _ rfl) _).trans ?_
  refine (bind_of_eq_ok (poke_append [0, 0, 2] 0 0 _ rfl) _).trans ?_
  refine (bind_of_eq_ok (poke_append [0, 0, 2, 0] 0 1 _ rfl) _).trans ?_
  refine (bind_of_eq_ok (poke_append [0, 0, 2, 0, 1] 0 _ _ rfl) _).trans ?_
  refine (bind_of_eq_ok (poke_append [0, 0, 2, 0, 1, _] 0 _ _ rfl) _).trans ?_
  refine (bind_of_eq_ok (poke_append [0, 0, 2, 0, 1, _, _] 0 _ _ rfl) _).trans ?_
  exact bind_of_eq_ok hpay _

/-- **The bytes a poll leaves in the buffer**: the frame of the next message, and the
zeros behind it. -/
theorem handle_transmit (uartReceive : Handler UartMsgQueue) {command : Nat → UInt8}
    (hc : IsTransmit command) {q q' : UartMsgQueue} {m : UartMsg}
    (h : q.nextPack = .ok (m, q')) (r : Nat) :
    handle (commandHandlers uartReceive) command (List.replicate (9 + m.length + r) 0) q =
      .ok (frame m ++ List.replicate r 0, q', alignUp (9 + m.length) 4) := by
  have hbuf : List.replicate (9 + m.length + r) (0 : UInt8) =
      [0, 0, 0, 0, 0, 0, 0, 0] ++ List.replicate m.length 0 ++ 0 :: List.replicate r 0 := by
    rw [show 9 + m.length + r = 8 + (m.length + (1 + r)) by omega, List.replicate_add,
      List.replicate_add, List.replicate_add]
    simp [List.replicate]
  rw [hbuf]
  simp only [handle, dispatch_transmit uartReceive hc, uartTransmit_eq command h, ok_bind, hc.2]
  rw [if_neg (by omega), List.append_assoc]
  refine (bind_of_eq_ok (poke_append [] 0 0xe0 _ rfl) _).trans ?_
  refine (bind_of_eq_ok (poke_append [0xe0] 0 (0x80 ||| 0x01) _ rfl) _).trans ?_
  have hlast := poke_append ([0xe0, 0x81, 2, 0, 1, UInt8.ofNat m.port,
    UInt8.ofNat (m.length >>> 8), UInt8.ofNat (m.length &&& 0xff)] ++ m.payload) 0 0xee
    (List.replicate r 0) (i := 9 + m.length - 1) (by simp [UartMsg.length]; omega)
  simp only [frame, List.append_assoc] at hlast ⊢
  exact bind_of_eq_ok hlast _

end NinaHomekit
