import NinaHomekit.Lib.Buffer
import NinaHomekit.System

/-!
# MQTT commands

`mqtt_event_handler` of `MqttCtrl.cpp`, for `MQTT_EVENT_DATA` on the command topic: a command
byte, two bytes of length, the kind and its arguments.  The handler goes by the length in the
packet and never looks at `data_len`.

* `MqttCommand`, `mqttCommands` — the commands in a packet, with every read of `event->data`.
  What the handler does on the way has no say in what it reads next.
* `MqttCommand.event`, `mqttData` — what it does.
* `MqttWithin` — the packet is read within its bounds, and the device name has room.
* `mqttWithin_iff` — **a packet is exactly if it has the bytes its kind asks for.**
-/

namespace NinaHomekit

open Trace Buffer

/-! ## The commands -/

def mqttCmdRequestData : UInt8 := 0x41
def mqttCmdDoAction : UInt8 := 0x42
def mqttCmdConfigure : UInt8 := 0x43

def mqttDataConfigurations : UInt8 := 0x62
def mqttDataCurrentHistory : UInt8 := 0x65
def mqttDataModulesData : UInt8 := 0x66
def mqttDataSwitchState : UInt8 := 0x67
def mqttDataPriority : UInt8 := 0x68

def mqttConfigDeviceName : UInt8 := 0x70
def mqttConfigEnablePop : UInt8 := 0x71
def mqttConfigResetToFactory : UInt8 := 0x72

/-- What the handler does for a packet; an action packet has several. -/
inductive MqttCommand where
  /-- `modulesUpdate`. -/
  | modulesUpdate
  /-- `configurationsUpdate`. -/
  | configurationsUpdate
  /-- `warehouseDataUpdate`. -/
  | warehouseDataUpdate (type : UInt8)
  /-- `doModulesAction`, with the bytes of the packet. -/
  | switchState (index value : UInt8)
  /-- `setModulePrioirty`. -/
  | priority (index value : UInt8)
  /-- `setDeviceName`, with the bytes `memcpy` puts into the zeroed `device_name`. -/
  | deviceName (name : List UInt8)
  /-- `setEnablePOP`. -/
  | enablePop (state : UInt8)
  /-- The reset to factory. -/
  | resetToFactory
  deriving DecidableEq, Repr

/-- `length`; `char` is unsigned here. -/
def mqttLength (lo hi : UInt8) : Nat := lo.toNat + 256 * hi.toNat

/-- `(length - 1) / 2`, which is 0 for a length of 0 as well. -/
def actionCount (length : Nat) : Nat := (length - 1) / 2

/-- The body of the loop of `MQTT_CMD_DO_ACTION`. -/
def doAction (data : List UInt8) (cmds : List MqttCommand) (i : Nat) :
    Except BufferFault (List MqttCommand) := do
  let kind ← read data 3
  if kind = mqttDataSwitchState then
    let index ← read data (i * 2 + 4)
    let value ← read data (i * 2 + 5)
    return cmds ++ [.switchState index value]
  else if kind = mqttDataPriority then
    let index ← read data (i * 2 + 4)
    let value ← read data (i * 2 + 5)
    return cmds ++ [.priority index value]
  else return cmds

/-- `MQTT_CMD_REQUEST_DATA`. -/
def requestData (data : List UInt8) : Except BufferFault (List MqttCommand) := do
  let kind ← read data 3
  if kind = mqttDataModulesData then return [.modulesUpdate]
  else if kind = mqttDataConfigurations then return [.configurationsUpdate]
  else if kind = mqttDataCurrentHistory then
    let type ← read data 4
    return [.warehouseDataUpdate type]
  else return []

/-- `MQTT_CMD_CONFIGURE`. -/
def configure (data : List UInt8) (length : Nat) : Except BufferFault (List MqttCommand) := do
  let kind ← read data 3
  if kind = mqttConfigDeviceName then
    let name ← copy data 4 (predSize length) (deviceNameLength + 1)
    return [.deviceName name]
  else if kind = mqttConfigEnablePop then
    let state ← read data 4
    return [.enablePop state]
  else if kind = mqttConfigResetToFactory then return [.resetToFactory]
  else return []

/-- The commands in a packet whose bytes, `data_len` of them, are `data`. -/
def mqttCommands (data : List UInt8) : Except BufferFault (List MqttCommand) := do
  let lo ← read data 1
  let hi ← read data 2
  let length := mqttLength lo hi
  let cmd ← read data 0
  if cmd = mqttCmdRequestData then requestData data
  else if cmd = mqttCmdDoAction then (List.range (actionCount length)).foldlM (doAction data) []
  else if cmd = mqttCmdConfigure then configure data length
  else return []

/-! ## What they do -/

/-- The name `setDeviceName` keeps: `strncpy` stops at a NUL. -/
def keptName (name : List UInt8) : DeviceName :=
  ⟨(name.takeWhile (· ≠ 0)).take deviceNameLength, List.length_take_le _ _⟩

/-- The event a command is, if it changes the state of the bridge. -/
def MqttCommand.event : MqttCommand → Option Event
  | .switchState index value => some (.mqttSwitch index (value != 0))
  | .priority index value => some (.mqttPriority index value)
  | .deviceName name => some (.setDeviceName (keptName name))
  | .enablePop state => some (.setEnablePop state)
  | .resetToFactory => some .resetToFactory
  | _ => none

/-- The handler, on a packet with these bytes. -/
def mqttData (s : State) (data : List UInt8) : Except Fault State :=
  match mqttCommands data with
  | .error (.readPast index) => .error (.outOfBounds index)
  | .error (.writePast size) => .error (.outOfBounds size)
  | .ok cmds => run step s (cmds.filterMap MqttCommand.event)

/-! ## Within the bounds -/

/-- Every byte of `event->data` that the handler reads has an index below `data_len`, and a
device name leaves room for its NUL. -/
def MqttWithin (data : List UInt8) : Prop :=
  ∃ cmds, mqttCommands data = .ok cmds ∧
    ∀ name, .deviceName name ∈ cmds → name.length ≤ deviceNameLength

/-- The kind of a packet, if it is that long. -/
def mqttKind (data : List UInt8) : Option UInt8 := data[3]?

/-- The packet has the bytes its command and its kind ask for. -/
def MqttFits (data : List UInt8) : Prop :=
  ∃ cmd lo hi args, data = cmd :: lo :: hi :: args ∧
    (cmd = mqttCmdRequestData →
      4 ≤ data.length ∧ (mqttKind data = some mqttDataCurrentHistory → 5 ≤ data.length)) ∧
    (cmd = mqttCmdDoAction → 0 < actionCount (mqttLength lo hi) →
      4 ≤ data.length ∧
        (mqttKind data = some mqttDataSwitchState ∨ mqttKind data = some mqttDataPriority →
          4 + 2 * actionCount (mqttLength lo hi) ≤ data.length)) ∧
    (cmd = mqttCmdConfigure →
      4 ≤ data.length ∧
        (mqttKind data = some mqttConfigDeviceName →
          1 ≤ mqttLength lo hi ∧ mqttLength lo hi ≤ deviceNameLength + 1 ∧
            mqttLength lo hi + 3 ≤ data.length) ∧
        (mqttKind data = some mqttConfigEnablePop → 5 ≤ data.length))

variable {data : List UInt8} {length : Nat}

/-- A packet is read up to its kind, if its command asks for one. -/
theorem read_kind {kind : UInt8} : read data 3 = .ok kind ↔ mqttKind data = some kind := read_eq_ok

theorem isOk_requestData : IsOk (requestData data) ↔
    4 ≤ data.length ∧ (mqttKind data = some mqttDataCurrentHistory → 5 ≤ data.length) := by
  unfold requestData
  rw [isOk_bind]
  simp only [read_kind]
  constructor
  · rintro ⟨kind, hkind, hok⟩
    refine ⟨(List.getElem?_eq_some_iff.1 hkind).1, fun hhist => ?_⟩
    rw [hkind] at hhist
    cases hhist
    rw [if_neg (by decide), if_neg (by decide), if_pos rfl,
      isOk_bind_of_forall (fun _ => isOk_pure _), isOk_read] at hok
    exact hok
  · rintro ⟨h4, hhist⟩
    have hkind : mqttKind data = some data[3] := List.getElem?_eq_getElem h4
    refine ⟨data[3], hkind, ?_⟩
    split
    · exact isOk_pure _
    · split
      · exact isOk_pure _
      · split
        · rename_i heq
          rw [isOk_bind_of_forall (fun _ => isOk_pure _), isOk_read]
          exact hhist (by rw [hkind, heq])
        · exact isOk_pure _

theorem isOk_doAction (cmds : List MqttCommand) (i : Nat) : IsOk (doAction data cmds i) ↔
    4 ≤ data.length ∧
      (mqttKind data = some mqttDataSwitchState ∨ mqttKind data = some mqttDataPriority →
        i * 2 + 6 ≤ data.length) := by
  have htwo : ∀ f : UInt8 → UInt8 → List MqttCommand, IsOk (do
      let index ← read data (i * 2 + 4)
      let value ← read data (i * 2 + 5)
      return f index value) ↔ i * 2 + 6 ≤ data.length := by
    intro f
    rw [isOk_bind]
    constructor
    · rintro ⟨index, -, hok⟩
      rw [isOk_bind_of_forall (fun _ => isOk_pure _), isOk_read] at hok
      omega
    · intro hle
      obtain ⟨index, hindex⟩ := isOk_read.2 (show i * 2 + 4 < data.length by omega)
      refine ⟨index, hindex, ?_⟩
      rw [isOk_bind_of_forall (fun _ => isOk_pure _), isOk_read]
      omega
  unfold doAction
  rw [isOk_bind]
  simp only [read_kind]
  constructor
  · rintro ⟨kind, hkind, hok⟩
    refine ⟨(List.getElem?_eq_some_iff.1 hkind).1, ?_⟩
    rw [hkind]
    rintro (h | h) <;> cases h
    · rwa [if_pos rfl, htwo] at hok
    · rwa [if_neg (by decide), if_pos rfl, htwo] at hok
  · rintro ⟨h4, hargs⟩
    have hkind : mqttKind data = some data[3] := List.getElem?_eq_getElem h4
    refine ⟨data[3], hkind, ?_⟩
    rw [hkind] at hargs
    split
    · rename_i heq
      exact (htwo _).2 (hargs (Or.inl (by rw [heq])))
    · split
      · rename_i heq
        exact (htwo _).2 (hargs (Or.inr (by rw [heq])))
      · exact isOk_pure _

/-- The loop over the actions: each pass reads two bytes further on. -/
theorem isOk_doActions (n : Nat) (cmds : List MqttCommand) :
    IsOk ((List.range n).foldlM (doAction data) cmds) ↔ (0 < n → 4 ≤ data.length ∧
      (mqttKind data = some mqttDataSwitchState ∨ mqttKind data = some mqttDataPriority →
        4 + 2 * n ≤ data.length)) := by
  rw [isOk_foldlM isOk_doAction]
  constructor
  · intro hall hpos
    obtain ⟨h4, hlast⟩ := hall (n - 1) (List.mem_range.2 (by omega))
    refine ⟨h4, fun hkind => ?_⟩
    have := hlast hkind
    omega
  · intro hall i hi
    have hlt := List.mem_range.1 hi
    obtain ⟨h4, hargs⟩ := hall (by omega)
    refine ⟨h4, fun hkind => ?_⟩
    have := hargs hkind
    omega

/-- Requests configure no name. -/
theorem no_name_requestData {cmds : List MqttCommand} (h : requestData data = .ok cmds) :
    ∀ name, .deviceName name ∉ cmds := by
  intro name
  obtain ⟨kind, -, h⟩ := bind_eq_ok.1 h
  split at h
  · cases h
    simp
  · split at h
    · cases h
      simp
    · split at h
      · obtain ⟨type, -, h⟩ := bind_eq_ok.1 h
        cases h
        simp
      · cases h
        simp

theorem no_name_doAction {cmds cmds' : List MqttCommand} {i : Nat}
    (hno : ∀ name, .deviceName name ∉ cmds) (h : doAction data cmds i = .ok cmds') :
    ∀ name, .deviceName name ∉ cmds' := by
  intro name
  obtain ⟨kind, -, h⟩ := bind_eq_ok.1 h
  have hcons : ∀ f : UInt8 → UInt8 → MqttCommand, (∀ a b, f a b ≠ .deviceName name) →
      (do
        let index ← read data (i * 2 + 4)
        let value ← read data (i * 2 + 5)
        return cmds ++ [f index value]) = Except.ok cmds' → .deviceName name ∉ cmds' := by
    intro f hf hok
    obtain ⟨index, -, hok⟩ := bind_eq_ok.1 hok
    obtain ⟨value, -, hok⟩ := bind_eq_ok.1 hok
    cases hok
    simpa [hno name] using (hf index value).symm
  split at h
  · exact hcons .switchState (by simp) h
  · split at h
    · exact hcons .priority (by simp) h
    · cases h
      exact hno name

theorem no_name_doActions {is : List Nat} {cmds cmds' : List MqttCommand}
    (hno : ∀ name, .deviceName name ∉ cmds) (h : is.foldlM (doAction data) cmds = .ok cmds') :
    ∀ name, .deviceName name ∉ cmds' := by
  induction is generalizing cmds with
  | nil =>
    cases h
    exact hno
  | cons i is ih =>
    rw [List.foldlM_cons] at h
    obtain ⟨c, hc, hrest⟩ := bind_eq_ok.1 h
    exact ih (no_name_doAction hno hc) hrest

/-- A name of at least one byte is copied whole, and leaves room for its NUL. -/
theorem configure_within : (∃ cmds, configure data length = .ok cmds ∧
      ∀ name, .deviceName name ∈ cmds → name.length ≤ deviceNameLength) ↔
    4 ≤ data.length ∧
      (mqttKind data = some mqttConfigDeviceName →
        1 ≤ length ∧ length ≤ deviceNameLength + 1 ∧ length + 3 ≤ data.length) ∧
      (mqttKind data = some mqttConfigEnablePop → 5 ≤ data.length) := by
  have hsize : predSize length ≤ deviceNameLength ↔
      1 ≤ length ∧ length ≤ deviceNameLength + 1 := by
    unfold predSize deviceNameLength
    split <;> omega
  constructor
  · rintro ⟨cmds, hok, hname⟩
    obtain ⟨kind, hkind, hok⟩ := bind_eq_ok.1 hok
    rw [read_kind] at hkind
    have h4 := (List.getElem?_eq_some_iff.1 hkind).1
    rw [hkind]
    refine ⟨h4, fun h => ?_, fun h => ?_⟩ <;> cases h
    · rw [if_pos rfl] at hok
      obtain ⟨name, hcopy, hok⟩ := bind_eq_ok.1 hok
      cases hok
      have hlen := hname name (by simp)
      rw [length_of_copy hcopy, hsize] at hlen
      obtain ⟨-, hend, -⟩ := copy_eq_ok.1 hcopy
      unfold predSize at hend
      rw [if_neg (by omega)] at hend
      omega
    · rw [if_neg (by decide), if_pos rfl] at hok
      obtain ⟨state, hread, -⟩ := bind_eq_ok.1 hok
      exact (List.getElem?_eq_some_iff.1 (read_eq_ok.1 hread)).1
  · rintro ⟨h4, hname, hpop⟩
    have hkind : mqttKind data = some data[3] := List.getElem?_eq_getElem h4
    have hread : read data 3 = .ok data[3] := read_kind.2 hkind
    rw [hkind] at hname hpop
    unfold configure
    rw [hread, ok_bind]
    split
    · rename_i heq
      obtain ⟨h1, h33, hend⟩ := hname (by rw [heq])
      have hcopy : copy data 4 (predSize length) (deviceNameLength + 1) = .ok _ :=
        copy_eq_ok.2 ⟨by have := hsize.2 ⟨h1, h33⟩; omega, by
          unfold predSize
          rw [if_neg (by omega)]
          omega, rfl⟩
      refine ⟨_, by rw [hcopy]; rfl, fun name hmem => ?_⟩
      have heq : name = (data.drop 4).take (predSize length) := by simpa using hmem
      rw [heq, length_of_copy hcopy]
      exact hsize.2 ⟨h1, h33⟩
    · split
      · rename_i heq
        obtain ⟨state, hstate⟩ := isOk_read.2 (show 4 < data.length from hpop (by rw [heq]))
        exact ⟨_, by rw [hstate]; rfl, by simp⟩
      · split
        · exact ⟨_, rfl, by simp⟩
        · exact ⟨_, rfl, by simp⟩

/-- **A packet is read within its bounds** exactly if it has the bytes its command and its kind
ask for. -/
theorem mqttWithin_iff (data : List UInt8) : MqttWithin data ↔ MqttFits data := by
  rcases data with _ | ⟨cmd, _ | ⟨lo, _ | ⟨hi, args⟩⟩⟩
  · exact iff_of_false (by rintro ⟨cmds, h, -⟩; cases h) (by rintro ⟨_, _, _, _, h, -⟩; cases h)
  · exact iff_of_false (by rintro ⟨cmds, h, -⟩; cases h) (by rintro ⟨_, _, _, _, h, -⟩; cases h)
  · exact iff_of_false (by rintro ⟨cmds, h, -⟩; cases h) (by rintro ⟨_, _, _, _, h, -⟩; cases h)
  set data := cmd :: lo :: hi :: args with hdata
  have hcmds : mqttCommands data =
      if cmd = mqttCmdRequestData then requestData data
      else if cmd = mqttCmdDoAction then
        (List.range (actionCount (mqttLength lo hi))).foldlM (doAction data) []
      else if cmd = mqttCmdConfigure then configure data (mqttLength lo hi)
      else .ok [] := rfl
  have hfits : MqttFits data ↔
      (cmd = mqttCmdRequestData → IsOk (requestData data)) ∧
      (cmd = mqttCmdDoAction → IsOk
        ((List.range (actionCount (mqttLength lo hi))).foldlM (doAction data) [])) ∧
      (cmd = mqttCmdConfigure → ∃ cmds, configure data (mqttLength lo hi) = .ok cmds ∧
        ∀ name, .deviceName name ∈ cmds → name.length ≤ deviceNameLength) := by
    rw [isOk_requestData, isOk_doActions, configure_within]
    constructor
    · rintro ⟨cmd', lo', hi', args', heq, h⟩
      simp only [hdata, List.cons.injEq] at heq
      obtain ⟨rfl, rfl, rfl, rfl⟩ := heq
      exact h
    · exact fun h => ⟨cmd, lo, hi, args, rfl, h⟩
  rw [hfits, MqttWithin, hcmds]
  by_cases hreq : cmd = mqttCmdRequestData
  · have h1 : cmd ≠ mqttCmdDoAction := by rw [hreq]; decide
    have h2 : cmd ≠ mqttCmdConfigure := by rw [hreq]; decide
    rw [if_pos hreq]
    constructor
    · rintro ⟨cmds, hok, -⟩
      exact ⟨fun _ => ⟨cmds, hok⟩, fun h => absurd h h1, fun h => absurd h h2⟩
    · rintro ⟨hok, -⟩
      obtain ⟨cmds, hok⟩ := hok hreq
      exact ⟨cmds, hok, fun name hmem => absurd hmem (no_name_requestData hok name)⟩
  · rw [if_neg hreq]
    by_cases hact : cmd = mqttCmdDoAction
    · have h2 : cmd ≠ mqttCmdConfigure := by rw [hact]; decide
      rw [if_pos hact]
      constructor
      · rintro ⟨cmds, hok, -⟩
        exact ⟨fun h => absurd h hreq, fun _ => ⟨cmds, hok⟩, fun h => absurd h h2⟩
      · rintro ⟨-, hok, -⟩
        obtain ⟨cmds, hok⟩ := hok hact
        exact ⟨cmds, hok, fun name hmem =>
          absurd hmem (no_name_doActions (fun _ => List.not_mem_nil) hok name)⟩
    · rw [if_neg hact]
      by_cases hconf : cmd = mqttCmdConfigure
      · rw [if_pos hconf]
        exact ⟨fun h => ⟨fun h => absurd h hreq, fun h => absurd h hact, fun _ => h⟩,
          fun h => h.2.2 hconf⟩
      · rw [if_neg hconf]
        exact iff_of_true ⟨[], rfl, by simp⟩
          ⟨fun h => absurd h hreq, fun h => absurd h hact, fun h => absurd h hconf⟩

/-- A name of three bytes, in a packet of just its length. -/
example : mqttCommands [0x43, 4, 0, 0x70, 0x61, 0x62, 0x63] =
    .ok [.deviceName [0x61, 0x62, 0x63]] := by decide

/-- An empty packet is read past its end, and a name without a length runs over the buffer. -/
theorem not_mqttWithin_short :
    ¬ MqttWithin [] ∧ mqttCommands [] = .error (.readPast 1) ∧
      mqttCommands [0x43, 0, 0, 0x70] = .error (.writePast 4294967295) ∧
      ¬ MqttWithin [0x43, 0, 0, 0x70] := by
  refine ⟨?_, rfl, rfl, ?_⟩ <;> rintro ⟨cmds, h, -⟩ <;> cases h

/-! ## Actions -/

/-- The pairs of bytes an action packet carries, when it has them all. -/
def actionPairs (args : List UInt8) (n : Nat) : List (UInt8 × UInt8) :=
  (List.range n).map fun i => (args.getD (i * 2) 0, args.getD (i * 2 + 1) 0)

/-- The loop of `MQTT_CMD_DO_ACTION`, for a kind whose passes find one command each. -/
theorem mqttCommands_doAction (kind : UInt8) (command : UInt8 → UInt8 → MqttCommand)
    (hpass : ∀ {data cmds i index value}, read data 3 = .ok kind →
      read data (i * 2 + 4) = .ok index → read data (i * 2 + 5) = .ok value →
        doAction data cmds i = .ok (cmds ++ [command index value]))
    (lo hi : UInt8) (args : List UInt8)
    (hlen : 2 * actionCount (mqttLength lo hi) ≤ args.length) :
    mqttCommands (mqttCmdDoAction :: lo :: hi :: kind :: args) =
      .ok ((actionPairs args (actionCount (mqttLength lo hi))).map fun p =>
        command p.1 p.2) := by
  set data := mqttCmdDoAction :: lo :: hi :: kind :: args with hdata
  have hloop : ∀ n, 2 * n ≤ args.length → (List.range n).foldlM (doAction data) [] =
      .ok ((actionPairs args n).map fun p => command p.1 p.2) := by
    intro n
    induction n with
    | zero => intro _; rfl
    | succ n ih =>
      intro hn
      have h1 : read data (n * 2 + 4) = .ok (args.getD (n * 2) 0) := by
        rw [read_eq_ok]
        simp [hdata, List.getElem?_eq_getElem (show n * 2 < args.length by omega)]
      have h2 : read data (n * 2 + 5) = .ok (args.getD (n * 2 + 1) 0) := by
        rw [read_eq_ok]
        simp [hdata, List.getElem?_eq_getElem (show n * 2 + 1 < args.length by omega)]
      rw [List.range_succ, List.foldlM_append, ih (by omega), ok_bind, List.foldlM_cons,
        hpass rfl h1 h2]
      simp [actionPairs, List.range_succ]
  exact hloop _ hlen

/-- **A priority packet** is its priority commands, one after the other. -/
theorem mqttData_priority (s : State) (lo hi : UInt8) (args : List UInt8)
    (hlen : 2 * actionCount (mqttLength lo hi) ≤ args.length) :
    mqttData s (mqttCmdDoAction :: lo :: hi :: mqttDataPriority :: args) =
      run step s ((actionPairs args (actionCount (mqttLength lo hi))).map fun p =>
        .mqttPriority p.1 p.2) := by
  have hcmds := mqttCommands_doAction mqttDataPriority .priority
    (fun h0 h1 h2 => by
      rw [doAction, h0, ok_bind, if_neg (by decide), if_pos rfl, h1, ok_bind, h2, ok_bind]
      rfl) lo hi args hlen
  rw [mqttData, hcmds]
  show run step s (List.filterMap MqttCommand.event _) = _
  rw [List.filterMap_map, ← List.filterMap_eq_map]
  rfl

/-- **A switch state packet** is its switch commands, one after the other. -/
theorem mqttData_switchState (s : State) (lo hi : UInt8) (args : List UInt8)
    (hlen : 2 * actionCount (mqttLength lo hi) ≤ args.length) :
    mqttData s (mqttCmdDoAction :: lo :: hi :: mqttDataSwitchState :: args) =
      run step s ((actionPairs args (actionCount (mqttLength lo hi))).map fun p =>
        .mqttSwitch p.1 (p.2 != 0)) := by
  have hcmds := mqttCommands_doAction mqttDataSwitchState .switchState
    (fun h0 h1 h2 => by
      rw [doAction, h0, ok_bind, if_pos rfl, h1, ok_bind, h2, ok_bind]
      rfl) lo hi args hlen
  rw [mqttData, hcmds]
  show run step s (List.filterMap MqttCommand.event _) = _
  rw [List.filterMap_map, ← List.filterMap_eq_map]
  rfl

end NinaHomekit
