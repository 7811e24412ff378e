import NinaHomekit.CoreBridge.MqttCtrl
import NinaHomekit.Lib.CString

/-!
# The topic of an MQTT packet

`mqtt_event_handler` compares `event->topic` with `MQTT_URL_CMD` as a C string.  The topic lies
in the packet, and what follows it there takes the place of its NUL.

* `Publish`, `Publish.memory` — a packet, and what `event->topic` points to.
* `mqttEventData` — `MQTT_EVENT_DATA`, up to what the handler finds in the payload.
* `TopicDelimited` — the bytes behind the topic end it where it ends.
* `selectedByTopic_iff` — **a packet is selected by its topic exactly if they do.**
-/

namespace NinaHomekit

open Buffer CString

/-- `MQTT_URL_CMD`. -/
def mqttUrlCmd : CStr := "CYLU/CordBlock/TW0138WJC9T/12321123/Cmd".toUTF8.toList

/-! ## Packets -/

/-- The quality of service of a packet. -/
inductive Qos where
  | atMostOnce
  | atLeastOnce
  | exactlyOnce
  deriving DecidableEq

/-- A `PUBLISH` packet.  With `atMostOnce` it has no packet identifier. -/
structure Publish where
  topic : List UInt8
  qos : Qos
  packetId : UInt16
  payload : List UInt8

namespace Publish

/-- What follows the topic in the packet. -/
def behind (p : Publish) : List UInt8 :=
  match p.qos with
  | .atMostOnce => p.payload
  | _ => UInt8.ofNat (p.packetId.toNat / 256) :: UInt8.ofNat (p.packetId.toNat % 256) :: p.payload

/-- What `event->topic` points to, when `rest` is the memory behind the packet. -/
def memory (p : Publish) (rest : Stream' UInt8) : Stream' UInt8 :=
  p.topic ++ₛ (p.behind ++ₛ rest)

/-- When a NUL is behind the topic. -/
theorem nul_behind_iff (p : Publish) (rest : Stream' UInt8) :
    StartsWith (p.behind ++ₛ rest) [0] ↔
      match p.qos, p.payload with
      | .atMostOnce, [] => rest.head = 0
      | .atMostOnce, b :: _ => b = 0
      | _, _ => p.packetId.toNat < 256 := by
  obtain ⟨topic, qos, packetId, payload⟩ := p
  have hid : UInt8.ofNat (packetId.toNat / 256) = 0 ↔ packetId.toNat < 256 := by
    have hlt := packetId.toNat_lt
    rw [← UInt8.toNat_inj, UInt8.toNat_ofNat']
    change packetId.toNat / 256 % 256 = 0 ↔ _
    omega
  rw [startsWith_singleton]
  cases qos with
  | atMostOnce =>
    cases payload with
    | nil => exact Iff.rfl
    | cons b payload => exact Iff.rfl
  | atLeastOnce => exact hid
  | exactlyOnce => exact hid

end Publish

/-! ## The handler -/

/-- `MQTT_EVENT_DATA`: nothing, or the commands that are read from the payload. -/
def mqttEventData (p : Publish) (rest : Stream' UInt8) :
    Option (Except BufferFault (List MqttCommand)) :=
  if strcmp (p.memory rest) mqttUrlCmd ≠ 0 then none else some (mqttCommands p.payload)

/-- The handler acts on the payload exactly if the topic is `MQTT_URL_CMD`. -/
def SelectedByTopic (p : Publish) (rest : Stream' UInt8) : Prop :=
  (mqttEventData p rest).isSome ↔ p.topic = mqttUrlCmd

/-- A NUL is behind the topic if the topic is `MQTT_URL_CMD`; what is behind another topic does
not make it one; and no topic goes on after `MQTT_URL_CMD` and a NUL. -/
structure TopicDelimited (p : Publish) (rest : Stream' UInt8) : Prop where
  ended : p.topic = mqttUrlCmd → StartsWith (p.behind ++ₛ rest) [0]
  not_completed : ∀ missing, missing ≠ [] → p.topic ++ missing = mqttUrlCmd →
    ¬ StartsWith (p.behind ++ₛ rest) (missing ++ [0])
  not_within : ¬ mqttUrlCmd ++ [0] <+: p.topic

variable {p : Publish} {rest : Stream' UInt8}

theorem isSome_mqttEventData :
    (mqttEventData p rest).isSome ↔ StartsWith (p.memory rest) (mqttUrlCmd ++ [0]) := by
  rw [← strcmp_eq_zero, mqttEventData]
  by_cases h : strcmp (p.memory rest) mqttUrlCmd = 0 <;> simp [h]

/-- The ways a packet is acted on: its topic and a NUL behind it, a topic that the bytes behind
it complete, or one that goes on after a NUL. -/
theorem startsWith_memory : StartsWith (p.memory rest) (mqttUrlCmd ++ [0]) ↔
    (p.topic = mqttUrlCmd ∧ StartsWith (p.behind ++ₛ rest) [0]) ∨
    (∃ missing, missing ≠ [] ∧ p.topic ++ missing = mqttUrlCmd ∧
      StartsWith (p.behind ++ₛ rest) (missing ++ [0])) ∨
    mqttUrlCmd ++ [0] <+: p.topic := by
  rw [Publish.memory, startsWith_append]
  constructor
  · rintro (hpre | ⟨z, hz, heq, h⟩)
    · exact Or.inr (Or.inr hpre)
    · -- what is behind the topic is the rest of the literal, and its NUL
      obtain ⟨missing, c, rfl⟩ := (List.eq_nil_or_concat' z).resolve_left hz
      rw [← List.append_assoc] at heq
      obtain ⟨hmissing, hc⟩ := List.append_inj' heq rfl
      rw [hc] at h
      by_cases hnil : missing = []
      · rw [hnil, List.append_nil] at hmissing
        rw [hnil] at h
        exact Or.inl ⟨hmissing, h⟩
      · exact Or.inr (Or.inl ⟨missing, hnil, hmissing, h⟩)
  · rintro (⟨htopic, h⟩ | ⟨missing, -, heq, h⟩ | hpre)
    · exact Or.inr ⟨[0], by simp, by rw [htopic], h⟩
    · exact Or.inr ⟨missing ++ [0], by simp, by rw [← heq, List.append_assoc], h⟩
    · exact Or.inl hpre

theorem ne_of_missing {topic missing : List UInt8} (hne : missing ≠ [])
    (h : topic ++ missing = mqttUrlCmd) : topic ≠ mqttUrlCmd := by
  rintro rfl
  exact hne (List.append_right_eq_self.1 h)

theorem ne_of_within {topic : List UInt8} (h : mqttUrlCmd ++ [0] <+: topic) :
    topic ≠ mqttUrlCmd := by
  rintro rfl
  have hlen := h.length_le
  rw [List.length_append, List.length_singleton] at hlen
  omega

/-- **A packet is selected by its topic exactly if the topic is delimited.** -/
theorem selectedByTopic_iff (p : Publish) (rest : Stream' UInt8) :
    SelectedByTopic p rest ↔ TopicDelimited p rest := by
  unfold SelectedByTopic
  rw [isSome_mqttEventData, startsWith_memory]
  constructor
  · intro h
    refine ⟨fun htopic => ?_, fun missing hne heq hbehind => ?_, fun hpre => ?_⟩
    · rcases h.2 htopic with ⟨-, hnul⟩ | ⟨missing, hne, heq, -⟩ | hpre
      · exact hnul
      · exact absurd htopic (ne_of_missing hne heq)
      · exact absurd htopic (ne_of_within hpre)
    · exact ne_of_missing hne heq (h.1 (Or.inr (Or.inl ⟨missing, hne, heq, hbehind⟩)))
    · exact ne_of_within hpre (h.1 (Or.inr (Or.inr hpre)))
  · intro h
    constructor
    · rintro (⟨htopic, -⟩ | ⟨missing, hne, heq, hbehind⟩ | hpre)
      · exact htopic
      · exact absurd hbehind (h.not_completed missing hne heq)
      · exact absurd hpre h.not_within
    · exact fun htopic => Or.inl ⟨htopic, h.ended htopic⟩

/-- A packet for the command topic with an identifier that needs both of its bytes. -/
def laterPacket : Publish := ⟨mqttUrlCmd, .exactlyOnce, 256, [0x41, 1, 0, 0x66]⟩

/-- It is not acted on. -/
theorem not_selectedByTopic_laterPacket :
    ¬ SelectedByTopic laterPacket (Stream'.const 0) := by
  intro h
  have hselected : (mqttEventData laterPacket (Stream'.const 0)).isSome := h.2 rfl
  rcases startsWith_memory.1 (isSome_mqttEventData.1 hselected) with
    ⟨-, hnul⟩ | ⟨missing, hne, heq, -⟩ | hpre
  · have hlt : laterPacket.packetId.toNat < 256 := (laterPacket.nul_behind_iff _).1 hnul
    exact absurd hlt (by decide)
  · exact ne_of_missing hne heq rfl
  · exact ne_of_within hpre rfl

end NinaHomekit
