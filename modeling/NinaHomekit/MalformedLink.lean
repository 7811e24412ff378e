import NinaHomekit.Queued

/-!
# Malformed link messages

A payload that is not JSON is answered with `CMD_LOAD_MODULE`.  What is JSON is read field by
field, the last ones after the modules were removed.

* `CJsonVal`, `LinkText` — the values a text has under the five names.
* `LinkText.WellTyped`, `Malformed` — what is wrong with a payload.
* `LeavesAlone` — nothing is changed, and the message is asked for again.
* `malformedIgnored_iff` — **malformed payloads are left alone exactly if they are no JSON.**
-/

namespace NinaHomekit

open Trace State

/-! ## Texts -/

/-- A JSON value, without what is inside an array or an object; a number is what `strtod` reads. -/
inductive CJsonVal where
  | null
  | bool (b : Bool)
  | number (x : Double)
  | string (text : CStr)
  | compound
  deriving DecidableEq

namespace CJsonVal

/-- `valueint` of a number: the part in front of the point, or the nearest `int`. -/
def valueint (x : Double) : Int :=
  match x with
  | .infinity negative => if negative then -2147483648 else 2147483647
  | .finite .. => max (-2147483648) (min 2147483647 (x.trunc.getD 0))

/-- The item `cJSON_Parse` makes of a value. -/
def item : CJsonVal → CJsonItem
  | null => ⟨none, 0, .ofInt 0⟩
  | bool b => ⟨none, b.toNat, .ofInt 0⟩
  | number x => ⟨none, valueint x, x⟩
  | string text => ⟨some text, 0, .ofInt 0⟩
  | compound => ⟨none, 0, .ofInt 0⟩

def isNumber : CJsonVal → Bool
  | number _ => true
  | _ => false

def isString : CJsonVal → Bool
  | string _ => true
  | _ => false

theorem isString_of_valuestring {v : CJsonVal} {text : CStr}
    (h : v.item.valuestring = some text) : v.isString = true := by
  cases v with
  | string text => rfl
  | _ => cases h

end CJsonVal

/-- A JSON text, with the values it has under the names that are looked up.  A text that is no
object has none. -/
structure LinkText where
  total : Option CJsonVal
  addr : Option CJsonVal
  name : Option CJsonVal
  pri : Option CJsonVal
  switchState : Option CJsonVal

namespace LinkText

/-- What is found under the names. -/
def data (text : LinkText) : LinkData :=
  ⟨text.total.map CJsonVal.item, text.addr.map CJsonVal.item, text.name.map CJsonVal.item,
    text.pri.map CJsonVal.item, text.switchState.map CJsonVal.item⟩

/-- Every field is there, with a value of its type. -/
structure WellTyped (text : LinkText) : Prop where
  total : ∃ v ∈ text.total, v.isNumber = true
  addr : ∃ v ∈ text.addr, v.isNumber = true
  name : ∃ v ∈ text.name, v.isString = true
  pri : ∃ v ∈ text.pri, v.isNumber = true
  switchState : ∃ v ∈ text.switchState, v.isNumber = true

/-- Every field is there, and the name is a string: no null pointer is found. -/
structure Readable (text : LinkText) : Prop where
  total : text.total.isSome
  addr : text.addr.isSome
  name : ∃ v ∈ text.name, v.isString = true
  pri : text.pri.isSome
  switchState : text.switchState.isSome

theorem deref_map_eq_ok {v : Option CJsonVal} {item : CJsonItem}
    (h : deref (v.map CJsonVal.item) = .ok item) : ∃ w ∈ v, w.item = item := by
  cases v with
  | none => cases h
  | some w =>
    cases h
    exact ⟨w, rfl, rfl⟩

/-- **A message that is decoded** had every field, and a string for its name. -/
theorem readable_of_decodeLink {text : LinkText} {m : LinkMsg}
    (h : decodeLink text.data = .ok m) : text.Readable := by
  simp only [decodeLink, bind_eq_ok] at h
  obtain ⟨i1, h1, total, -, i2, h2, index, -, i3, h3, i4, h4, i5, h5, hm⟩ := h
  obtain ⟨v1, hv1, -⟩ := deref_map_eq_ok h1
  obtain ⟨v2, hv2, -⟩ := deref_map_eq_ok h2
  obtain ⟨v3, hv3, rfl⟩ := deref_map_eq_ok h3
  obtain ⟨v4, hv4, -⟩ := deref_map_eq_ok h4
  obtain ⟨v5, hv5, -⟩ := deref_map_eq_ok h5
  cases hname : v3.item.valuestring with
  | none =>
    rw [hname] at hm
    cases hm
  | some name =>
    exact ⟨Option.isSome_of_mem hv1, Option.isSome_of_mem hv2,
      ⟨v3, hv3, CJsonVal.isString_of_valuestring hname⟩, Option.isSome_of_mem hv4,
      Option.isSome_of_mem hv5⟩

end LinkText

/-! ## What a malformed payload does -/

/-- The payload is not JSON, or a field is missing or of the wrong type. -/
def Malformed (payload : Option LinkText) : Prop :=
  ∀ text ∈ payload, ¬ text.WellTyped

/-- The message of a payload, when `cJSON_Parse` returns what it stands for. -/
def linkPayload (payload : Option LinkText) : UartIn := .linkModule (payload.map LinkText.data)

/-- The message is handled without a fault, changes nothing of the modules, the flags and the
accessory, and is asked for again. -/
def LeavesAlone (s : State) (now : UInt32) (msg : UartIn) : Prop :=
  ∃ t, s.uartReceive now msg = .ok t ∧ t.modules = s.modules ∧
    t.systemStatus = s.systemStatus ∧ t.accessory = s.accessory ∧ t.db = s.db ∧
      ⟨1, [cmdLoadModule, 0x00]⟩ ∈ t.queue.drop s.queue.length

variable {s : State} {now : UInt32}

/-- A payload that is not JSON is left alone. -/
theorem leavesAlone_none (s : State) (now : UInt32) : LeavesAlone s now (linkPayload none) := by
  refine ⟨s.requestLoad, rfl, rfl, rfl, rfl, rfl, ?_⟩
  show _ ∈ (s.queue ++ [_]).drop s.queue.length
  rw [List.drop_left]
  exact List.mem_singleton_self _

/-- What a link message queues are pin writes and messages to the modules. -/
theorem LinkMsg.port_msgs {m : LinkMsg} {msg : UartMsg} (h : msg ∈ m.msgs) : msg.port ≠ 1 := by
  unfold LinkMsg.msgs at h
  split at h
  · simp only [List.mem_cons, List.not_mem_nil, or_false] at h
    rcases h with rfl | rfl | rfl | rfl
    · exact show 254 ≠ 1 by decide
    · exact show 3 ≠ 1 by decide
    · exact show 3 ≠ 1 by decide
    · exact show 254 ≠ 1 by decide
  · rw [List.mem_singleton.1 h]
    decide

/-- A payload that is JSON is never asked for again. -/
theorem not_leavesAlone_some (text : LinkText) : ¬ LeavesAlone s now (linkPayload (some text)) := by
  rintro ⟨t, ht, -, -, -, -, hmem⟩
  obtain ⟨m, -, hdec⟩ := linkModule_eq_ok.1 ht
  rw [queue_linkDecoded hdec, List.drop_left] at hmem
  exact LinkMsg.port_msgs hmem rfl

/-- **Malformed payloads are left alone exactly if they are no JSON**: for every state, a
payload that is malformed and yet JSON is not. -/
theorem malformedIgnored_iff (s : State) (now : UInt32) (payload : Option LinkText) :
    (Malformed payload → LeavesAlone s now (linkPayload payload)) ↔
      ∀ text, payload = some text → text.WellTyped := by
  constructor
  · rintro h text rfl
    by_contra htyped
    have hmal : Malformed (some text) := by
      intro u hu
      cases hu
      exact htyped
    exact not_leavesAlone_some text (h hmal)
  · intro h hmal
    cases payload with
    | none => exact leavesAlone_none s now
    | some text => exact absurd (h text rfl) (hmal text rfl)

/-- `{"total":1,"addr":1,"name":"a","pri":0}`. -/
def noSwitchState : LinkText :=
  ⟨some (.number (.ofInt 1)), some (.number (.ofInt 1)), some (.string [0x61]),
    some (.number (.ofInt 0)), none⟩

/-- The modules are removed, and then a null pointer is dereferenced for the switch state. -/
theorem not_malformedIgnored_noSwitchState :
    ¬ (Malformed (some noSwitchState) →
      LeavesAlone State.bootDefault 0 (linkPayload (some noSwitchState))) := by
  intro h
  have hmal : Malformed (some noSwitchState) := by
    rintro text htext hwell
    cases htext
    obtain ⟨v, hv, -⟩ := hwell.switchState
    cases hv
  obtain ⟨t, ht, -⟩ := h hmal
  obtain ⟨m, hm, -⟩ := linkModule_eq_ok.1 ht
  have hswitch : noSwitchState.switchState.isSome :=
    (LinkText.readable_of_decodeLink hm).switchState
  cases hswitch

end NinaHomekit
