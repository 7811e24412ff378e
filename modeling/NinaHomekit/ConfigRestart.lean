import NinaHomekit.CoreBridge.Configuration

/-!
# The configuration over a restart

A start, calls of the setters in any order, and a restart.

* `ConfigCall` — a call; `Settings.after` is what it is for, and `Config.run` what a run of them
  does.
* `Kept` — the storage has what the variables hold, and both strings end in their arrays;
  `kept_run` — **a run of calls keeps it** as long as its hosts leave room for a NUL.
* `ConfigSurvives` — the restart yields the last values, and the strings end at all times.
* `configSurvives_iff` — **it does exactly if every host has at most 20 characters.**  The array
  of `MQTT_HOST_LENGTH` characters has no room for a NUL behind them.
-/

namespace NinaHomekit

open CArray

/-! ## Calls -/

/-- A call of a setter. -/
inductive ConfigCall where
  | setDeviceName (name : Str UInt8)
  | setEnablePop (state : UInt8)
  | setRunningTime (hrs : UInt32)
  | setMqttHost (host : Str UInt8)

/-- What a call is for. -/
def Settings.after (s : Settings) : ConfigCall → Settings
  | .setDeviceName name => { s with deviceName := name.take deviceNameLength }
  | .setEnablePop state => { s with enablePop := state }
  | .setRunningTime hrs => { s with runningTime := hrs }
  | .setMqttHost host => { s with mqttHost := host }

/-- A call whose host, if it sets one, leaves room for a NUL. -/
def ConfigCall.HostFits (call : ConfigCall) : Prop :=
  ∀ host, call = .setMqttHost host → host.length < mqttHostLength

namespace Config

variable {nvs : Nvs} {c : Config nvs}

/-- A call, with what is behind the arrays then. -/
def step (c : Config nvs) : Behind × ConfigCall → Config nvs
  | (mem, .setDeviceName name) => c.setDeviceName mem name
  | (_, .setEnablePop state) => c.setEnablePop state
  | (_, .setRunningTime hrs) => c.setRunningTime hrs
  | (mem, .setMqttHost host) => c.setMqttHost mem host

def run (c : Config nvs) (calls : List (Behind × ConfigCall)) : Config nvs := calls.foldl step c

/-- Both strings end in their arrays. -/
structure StringsEnd (c : Config nvs) : Prop where
  deviceName : c.deviceName.Terminated
  host : c.host.Terminated

/-- The storage has what the variables hold, and the strings end. -/
structure Kept (c : Config nvs) : Prop where
  nameEnds : c.NameEnds
  host : c.host.Terminated
  saved : saved c.store = c.settings.saved

theorem Kept.stringsEnd (h : Kept c) : StringsEnd c :=
  ⟨List.mem_of_getElem? h.nameEnds, h.host⟩

/-! ## Runs -/

theorem kept_boot (store : nvs.Store) (mem : Behind) : Kept (boot store mem) where
  nameEnds := nameEnds_boot store mem
  host := terminated_restoreMqttHost
  saved := by
    obtain ⟨hset, hsaved⟩ := boot_spec store mem
    rw [hsaved, hset]

/-- **A call** does what it is for, and the storage keeps up with it. -/
theorem kept_step (h : Kept c) {call : Behind × ConfigCall} (hfit : call.2.HostFits) :
    Kept (c.step call) ∧ (c.step call).settings = c.settings.after call.2 := by
  obtain ⟨mem, call⟩ := call
  cases call with
  | setDeviceName name =>
    have hset : (c.setDeviceName mem name).settings = _ := settings_setDeviceName h.nameEnds name
    refine ⟨⟨nameEnds_setDeviceName h.nameEnds name, h.host, ?_⟩, hset⟩
    rw [step, saved_setDeviceName h.nameEnds, hset, h.saved]
    rfl
  | setEnablePop state =>
    refine ⟨⟨h.nameEnds, h.host, ?_⟩, settings_setEnablePop state⟩
    rw [step, saved_setEnablePop, settings_setEnablePop, h.saved]
    rfl
  | setRunningTime hrs =>
    refine ⟨⟨h.nameEnds, h.host, ?_⟩, settings_setRunningTime hrs⟩
    rw [step, saved_setRunningTime, settings_setRunningTime, h.saved]
    rfl
  | setMqttHost host =>
    have hlen : host.length < mqttHostLength := hfit host rfl
    have hset : (c.setMqttHost mem host).settings = _ := settings_setMqttHost hlen
    refine ⟨⟨h.nameEnds, terminated_setMqttHost hlen, ?_⟩, hset⟩
    rw [step, saved_setMqttHost hlen, hset, h.saved]
    rfl

/-- **A run of calls.**  Induction on the calls. -/
theorem kept_run (h : Kept c) {calls : List (Behind × ConfigCall)}
    (hfit : ∀ call ∈ calls, call.2.HostFits) : Kept (c.run calls) ∧
      (c.run calls).settings = (calls.map Prod.snd).foldl Settings.after c.settings := by
  induction calls generalizing c with
  | nil => exact ⟨h, rfl⟩
  | cons call calls ih =>
    obtain ⟨hkept, hset⟩ := kept_step h (hfit call (by simp))
    obtain ⟨hrun, hsets⟩ := ih hkept fun d hd => hfit d (List.mem_cons_of_mem _ hd)
    refine ⟨hrun, ?_⟩
    rw [List.map_cons, List.foldl_cons, ← hset]
    exact hsets

/-- A restart takes what is kept. -/
theorem settings_restart (h : Kept c) (mem : Behind) : (c.restart mem).settings = c.settings := by
  rw [restart, (boot_spec c.store mem).1, h.saved, Settings.settings_saved]

/-- A host that fills the array leaves no NUL in it. -/
theorem not_stringsEnd_setMqttHost {mem : Behind} {host : Str UInt8}
    (h : mqttHostLength ≤ host.length) : ¬ StringsEnd (c.step (mem, .setMqttHost host)) :=
  fun hend => not_terminated_strncpy h hend.host

end Config

/-! ## The restart -/

/-- A start, calls, and a restart: it yields what the calls are for, and the strings end in
their arrays at all times. -/
structure ConfigSurvives (nvs : Nvs) (store : nvs.Store) (mem mem' : Behind)
    (calls : List (Behind × ConfigCall)) : Prop where
  restored : (((Config.boot store mem).run calls).restart mem').settings =
    (calls.map Prod.snd).foldl Settings.after (Config.boot store mem).settings
  stringsEnd : ∀ done, done <+: calls → ((Config.boot store mem).run done).StringsEnd
  stringsEnd_restart : (((Config.boot store mem).run calls).restart mem').StringsEnd

/-- **The configuration survives a restart exactly if every host that is set has at most 20
characters.** -/
theorem configSurvives_iff (nvs : Nvs) (store : nvs.Store) (mem mem' : Behind)
    (calls : List (Behind × ConfigCall)) : ConfigSurvives nvs store mem mem' calls ↔
      ∀ call ∈ calls, ∀ host, call.2 = .setMqttHost host → host.length ≤ 20 := by
  have hfits : (∀ call ∈ calls, ∀ host, call.2 = .setMqttHost host → host.length ≤ 20) ↔
      ∀ call ∈ calls, call.2.HostFits :=
    forall₄_congr fun call _ host _ => Nat.lt_succ_iff.symm
  rw [hfits]
  have hboot : (Config.boot store mem).Kept := Config.kept_boot store mem
  constructor
  · intro h call hmem host hcall
    by_contra hlen
    obtain ⟨done, rest, rfl⟩ := List.append_of_mem hmem
    have hend := h.stringsEnd (done ++ [call]) ⟨rest, by simp⟩
    have hcall' : call = (call.1, .setMqttHost host) := Prod.ext rfl hcall
    rw [Config.run, List.foldl_append, List.foldl_cons, List.foldl_nil, hcall'] at hend
    exact Config.not_stringsEnd_setMqttHost (Nat.not_lt.1 hlen) hend
  · intro hfit
    obtain ⟨hkept, hset⟩ := Config.kept_run hboot hfit
    refine ⟨?_, fun done hdone => ?_, (Config.kept_boot _ mem').stringsEnd⟩
    · rw [Config.settings_restart hkept, hset]
    · exact (Config.kept_run hboot fun call hcall => hfit call (hdone.subset hcall)).1.stringsEnd

/-- A storage that has nothing. -/
def blankNvs : (KeyStore.ofMap NvsKey UInt8).Store := fun _ => none

/-- A host of 20 characters, a name of 40, and then a host of 10. -/
theorem configSurvives_shortAfterLong : ConfigSurvives (KeyStore.ofMap NvsKey UInt8) blankNvs
    ⟨[], []⟩ ⟨[], []⟩
    [(⟨[], []⟩, .setMqttHost ⟨"192.168.100.10:18883".toUTF8.toList, by decide +kernel⟩),
      (⟨[], []⟩, .setDeviceName ⟨List.replicate 40 0x61, by decide⟩),
      (⟨[], []⟩, .setMqttHost ⟨"10.0.0.7:1".toUTF8.toList, by decide +kernel⟩)] := by
  refine (configSurvives_iff _ _ _ _ _).2 fun call hmem host hcall => ?_
  simp only [List.mem_cons, List.not_mem_nil, or_false] at hmem
  rcases hmem with rfl | rfl | rfl
  · cases hcall
    decide +kernel
  · cases hcall
  · cases hcall
    decide +kernel

/-- A host of 21 characters. -/
def longHost : Str UInt8 := ⟨"192.168.100.100:18830".toUTF8.toList, by decide +kernel⟩

/-- A host of 21 characters is not there after the restart, and has no NUL before it. -/
theorem not_configSurvives_longHost :
    longHost.length = mqttHostLength ∧
      ¬ ((Config.boot blankNvs ⟨[], []⟩).step (⟨[], []⟩, .setMqttHost longHost)).host.Terminated ∧
      (((Config.boot blankNvs ⟨[], []⟩).step (⟨[], []⟩, .setMqttHost longHost)).restart
        ⟨[], []⟩).settings.mqttHost = Config.defaultHost ∧
      ¬ ConfigSurvives (KeyStore.ofMap NvsKey UInt8) blankNvs ⟨[], []⟩ ⟨[], []⟩
        [(⟨[], []⟩, .setMqttHost longHost)] := by
  refine ⟨by decide +kernel, by decide +kernel, by decide +kernel, fun h => ?_⟩
  exact absurd (congrArg Settings.mqttHost h.restored) (by decide +kernel)

end NinaHomekit
