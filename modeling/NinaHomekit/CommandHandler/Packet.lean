import NinaHomekit.Lib.Buffer
import NinaHomekit.System

/-!
# Packets from the bus

`uartReceive` on the bytes of the command buffer: a port, two bytes of length, a command and the
payload, which is copied without its last byte.  The length in the packet is never compared
with anything.

* `uartDecode` — the message in a packet, with every read of the buffer and of the payload.
* `UartFits` — the packet has the bytes its length and its command ask for.
* `uartDecode_isOk_iff` — **a packet is read within its bounds exactly if it does.**
-/

namespace NinaHomekit

open Trace Buffer

/-! ## The packet -/

/-- What `uartReceive` is asked to do. -/
inductive UartCommand where
  | message (msg : UartIn)
  /-- Port 255, 0x01: the configuration is erased and the firmware restarts. -/
  | resetToFactory

/-- `length`. -/
def uartLength (hi lo : UInt8) : Nat := 256 * hi.toNat + lo.toNat

/-- The events of the SAMD21, port 255. -/
def samd21Event (event : UInt8) : UartCommand :=
  if event = 0x00 then .message .samd21Init
  else if event = 0x01 then .resetToFactory
  else if event = 0x02 then .message .samd21Button
  else .message .other

/-- The commands of the modules, with the bytes `memcpy` puts into `payload`.  `cJSON_Parse` is
given the string in it. -/
def moduleCommand (cJSONParse : CStr → Option LinkData) (command : UInt8) (payload : List UInt8) :
    Except BufferFault UartCommand :=
  if command = cmdReqAdr then .ok (.message .reqAdr)
  else if command = cmdLinkModule then do
    let text ← readCString 0 payload
    return .message (.linkModule (cJSONParse text))
  else if command = cmdHi then .ok (.message .hi)
  else if command = cmdUpdateData then do
    let addr ← read payload 0
    let lo ← read payload 2
    let hi ← read payload 3
    let type ← read payload 1
    return .message (.updateData addr type lo hi)
  else .ok (.message .other)

/-- The message in the command buffer. -/
def uartDecode (cJSONParse : CStr → Option LinkData) (command : List UInt8) :
    Except BufferFault UartCommand := do
  let port ← read command 4
  let hi ← read command 5
  let lo ← read command 6
  let length := uartLength hi lo
  -- the payload has room for `length` bytes and gets one less
  let payload ← copy command 8 (predSize length) length
  let cmd ← read command 7
  if port = 255 then return samd21Event cmd else moduleCommand cJSONParse cmd payload

/-! ## Within the bounds -/

/-- The command buffer, all `SPI_BUFFER_LEN` bytes of it. -/
abbrev CommandBuffer := Vector UInt8 spiBufferLen

/-- The packet ends before the buffer does; a link message has a NUL among the bytes of its
payload that are copied, and a data message has four such bytes. -/
def UartFits (command : CommandBuffer) : Prop :=
  let length := uartLength command[5] command[6]
  1 ≤ length ∧ length + 7 ≤ spiBufferLen ∧
    (command[4] ≠ 255 →
      (command[7] = cmdLinkModule → 0 ∈ (command.toList.drop 8).take (length - 1)) ∧
        (command[7] = cmdUpdateData → 5 ≤ length))

variable {cJSONParse : CStr → Option LinkData}

theorem isOk_moduleCommand (command : UInt8) (payload : List UInt8) :
    IsOk (moduleCommand cJSONParse command payload) ↔
      (command = cmdLinkModule → 0 ∈ payload) ∧
        (command = cmdUpdateData → 4 ≤ payload.length) := by
  unfold moduleCommand
  by_cases hlink : command = cmdLinkModule
  · have hdata : command ≠ cmdUpdateData := by rw [hlink]; decide
    rw [if_neg (by rw [hlink]; decide), if_pos hlink,
      isOk_bind_of_forall (fun _ => isOk_pure _)]
    constructor
    · rintro ⟨text, htext⟩
      exact ⟨fun _ => (readCString_eq_ok.1 htext).1, fun h => absurd h hdata⟩
    · rintro ⟨hnul, -⟩
      exact ⟨_, readCString_eq_ok.2 ⟨hnul hlink, rfl⟩⟩
  · by_cases hdata : command = cmdUpdateData
    · rw [if_neg (by rw [hdata]; decide), if_neg hlink, if_neg (by rw [hdata]; decide),
        if_pos hdata]
      constructor
      · intro hok
        refine ⟨fun h => absurd h hlink, fun _ => ?_⟩
        obtain ⟨addr, -, hok⟩ := isOk_bind.1 hok
        obtain ⟨lo, -, hok⟩ := isOk_bind.1 hok
        obtain ⟨hi, hhi, -⟩ := isOk_bind.1 hok
        exact (List.getElem?_eq_some_iff.1 (read_eq_ok.1 hhi)).1
      · rintro ⟨-, h4⟩
        have hlen := h4 hdata
        obtain ⟨addr, haddr⟩ := isOk_read.2 (show 0 < payload.length by omega)
        obtain ⟨lo, hlo⟩ := isOk_read.2 (show 2 < payload.length by omega)
        obtain ⟨hi, hhi⟩ := isOk_read.2 (show 3 < payload.length by omega)
        obtain ⟨type, htype⟩ := isOk_read.2 (show 1 < payload.length by omega)
        rw [haddr, ok_bind, hlo, ok_bind, hhi, ok_bind, htype]
        exact isOk_pure _
    · rw [if_neg hlink, if_neg hdata]
      refine iff_of_true ?_ ⟨fun h => absurd h hlink, fun h => absurd h hdata⟩
      split
      · exact isOk_ok _
      · split <;> exact isOk_ok _

/-- **A packet is read within its bounds** exactly if it has the bytes its length and its command
ask for. -/
theorem uartDecode_isOk_iff (cJSONParse : CStr → Option LinkData) (command : CommandBuffer) :
    IsOk (uartDecode cJSONParse command.toList) ↔ UartFits command := by
  have hread : ∀ (i : Nat) (hi : i < spiBufferLen), read command.toList i = .ok command[i] := by
    intro i hi
    rw [read_eq_ok, List.getElem?_eq_getElem (by simpa using hi)]
    simp
  have h4 := hread 4 (by decide)
  have h5 := hread 5 (by decide)
  have h6 := hread 6 (by decide)
  have h7 := hread 7 (by decide)
  unfold uartDecode UartFits
  rw [h4, ok_bind, h5, ok_bind, h6, ok_bind]
  set length := uartLength command[5] command[6]
  by_cases hsize : 1 ≤ length ∧ length + 7 ≤ spiBufferLen
  · obtain ⟨h1, hend⟩ := hsize
    have hpred : predSize length = length - 1 := if_neg (by omega)
    have hcopy : copy command.toList 8 (length - 1) length = .ok _ :=
      copy_eq_ok.2 ⟨by omega, Or.inr (by rw [Vector.length_toList]; omega), rfl⟩
    have hlen := length_of_copy hcopy
    show IsOk (do
      let payload ← copy command.toList 8 (predSize length) length
      let cmd ← read command.toList 7
      if command[4] = 255 then return samd21Event cmd else moduleCommand cJSONParse cmd payload) ↔ _
    rw [hpred, hcopy, ok_bind, h7, ok_bind, and_iff_right h1, and_iff_right hend]
    by_cases hport : command[4] = 255
    · rw [if_pos hport]
      exact iff_of_true (isOk_pure _) fun h => absurd hport h
    · rw [if_neg hport, isOk_moduleCommand, hlen]
      constructor
      · rintro ⟨hnul, hfour⟩ -
        exact ⟨hnul, fun h => by have := hfour h; omega⟩
      · intro h
        obtain ⟨hnul, hfive⟩ := h hport
        exact ⟨hnul, fun h => by have := hfive h; omega⟩
  · refine iff_of_false ?_ fun h => hsize ⟨h.1, h.2.1⟩
    intro hok
    obtain ⟨payload, hcopy, -⟩ := isOk_bind.1 hok
    obtain ⟨hroom, hend, -⟩ := copy_eq_ok.1 hcopy
    rw [Vector.length_toList] at hend
    have hlt : length < 65536 := by
      have hhi := command[5].toNat_lt
      have hlo := command[6].toNat_lt
      show 256 * command[5].toNat + command[6].toNat < 65536
      omega
    unfold predSize at hroom hend
    have hmax : spiBufferLen = 4092 := rfl
    split at hroom
    · omega
    · rw [if_neg (by omega)] at hend
      omega

/-- A buffer that starts with these bytes. -/
def bufferOf (bytes : List UInt8) (h : bytes.length ≤ spiBufferLen) : CommandBuffer :=
  ⟨(bytes ++ List.replicate (spiBufferLen - bytes.length) 0).toArray, by simp; omega⟩

/-- A packet of length 0 makes the handler copy almost all of the memory, and a data message of
one byte is read past what was copied. -/
theorem not_isOk_uartDecode_short :
    uartDecode (fun _ => none)
        (bufferOf [0xE0, 0x00, 0x02, 0x01, 3, 0, 0, cmdHi] (by decide)).toList =
      .error (.writePast 4294967295) ∧
    uartDecode (fun _ => none)
        (bufferOf [0xE0, 0x00, 0x02, 0x01, 3, 0, 2, cmdUpdateData, 1] (by decide)).toList =
      .error (.readPast 2) ∧
    ¬ IsOk (uartDecode (fun _ => none)
        (bufferOf [0xE0, 0x00, 0x02, 0x01, 3, 0, 0, cmdHi] (by decide)).toList) := by
  have hempty : uartDecode (fun _ => none)
        (bufferOf [0xE0, 0x00, 0x02, 0x01, 3, 0, 0, cmdHi] (by decide)).toList =
      .error (.writePast 4294967295) := rfl
  refine ⟨hempty, rfl, ?_⟩
  rw [hempty]
  exact not_isOk_error _

end NinaHomekit
