import NinaHomekit.Link
import NinaHomekit.LinkLive
import NinaHomekit.Registered

/-!
# The module table and HomeKit

Over runs of complete link sequences, steps of live checks and switch reports, the registered
accessory shows what the table says.

* `Registry` — the modules are registered, each On characteristic has the state of its module
  and an id that the names before it determine.
* `Segment`, `Allowed` — what the runs are made of.
* `TableAgrees` — ids are distinct, values and addresses are those of the table.
* `StableIids` — the id of a module's On characteristic is the same wherever the run shows it.
* `tableAgrees_iff` — **the table and HomeKit agree, and the ids are stable exactly if every
  sequence has as many names that are too long before each module.**
-/

namespace NinaHomekit

open Trace State

variable {s t u : State} {a : AccPtr} {names : List CStr}

/-! ## Names and ids -/

/-- A name that gets no characteristic. -/
def tooLong (name : CStr) : Bool := hapCharStringMaxLen < name.length

/-- The id of the On characteristic of the `i`th of the modules with these names. -/
def onIid (names : List CStr) (i : Nat) : Nat := 12 + 2 * i + (names.take i).countP (!tooLong ·)

theorem length_chars_moduleServ {m : ModuleT} {name : CStr} (h : m.name = some name) :
    (moduleServ m).chars.length = if tooLong name then 1 else 2 := by
  unfold moduleServ tooLong
  rw [h]
  by_cases hlong : hapCharStringMaxLen < name.length
  · simp [hapCharNameCreate, hapCharStringCreate, hapCharCreate, hlong]
  · simp [hapCharNameCreate, hapCharStringCreate, hapCharCreate, hlong]

/-- Every module takes an id for its service, its On and, if its name fits, its Name. -/
theorem nextIid_addModules {acc : HapAcc} {ms : List ModuleT}
    (h : ms.map ModuleT.name = names.map some) :
    (addModules acc ms).nextIid = acc.nextIid + 2 * names.length + names.countP (!tooLong ·) := by
  induction ms generalizing acc names with
  | nil =>
    have hnil : names = [] := by simpa using h.symm
    subst hnil
    rfl
  | cons m ms ih =>
    cases names with
    | nil => simp at h
    | cons name names =>
      obtain ⟨hname, hrest⟩ := List.cons.inj h
      rw [addModules_cons, ih hrest]
      show acc.nextIid + 1 + (moduleServ m).chars.length + _ + _ = _
      rw [length_chars_moduleServ hname, List.length_cons, List.countP_cons]
      cases tooLong name <;> simp <;> omega

/-- Ids agree exactly if as many names before them are too long. -/
theorem onIid_eq_iff {names' : List CStr} {i : Nat} (h : i ≤ names.length)
    (h' : i ≤ names'.length) : onIid names i = onIid names' i ↔
      (names.take i).countP tooLong = (names'.take i).countP tooLong := by
  have hlen := List.length_eq_countP_add_countP tooLong (l := names.take i)
  have hlen' := List.length_eq_countP_add_countP tooLong (l := names'.take i)
  rw [List.length_take, min_eq_left h] at hlen
  rw [List.length_take, min_eq_left h'] at hlen'
  have hnot : ∀ l : List CStr, l.countP (fun name => decide ¬ tooLong name = true) =
      l.countP (!tooLong ·) := by
    intro l
    congr 1
    funext name
    cases tooLong name <;> rfl
  rw [hnot] at hlen hlen'
  unfold onIid
  omega

/-! ## The registry -/

/-- The modules with these names are registered, and the accessory shows their states. -/
structure Registry (t : State) (names : List CStr) : Prop where
  num : t.moduleNum = names.length
  registered : ∃ a, Registered t a 2 ∧ ∀ i < names.length, ∃ m c, t.slots[i]? = some m ∧
    t.db.char? ⟨a, 2 + i, 0⟩ = some c ∧ c.val = .b m.state ∧ c.iid = onIid names i

/-- A complete sequence leaves the registry of the names in the table. -/
theorem Completed.registry {base : HapAcc} {ms : List ModuleT} (h : Completed t a base ms)
    (hnames : (ms.take t.moduleNum).map ModuleT.name = names.map some) : Registry t names := by
  have hlen : ms.length = maxModuleNum := by
    have := congrArg List.length h.slots
    simpa using this.symm
  have hnum : t.moduleNum = names.length := by
    have := congrArg List.length hnames
    have hle := h.num_le
    simp only [List.length_map, List.length_take] at this
    omega
  have hbase : base.nextIid = 11 := by
    obtain ⟨s, aid, rfl⟩ := h.new
    show s.freshAcc.nextIid = 11
    rw [freshAcc_eq]
  refine ⟨hnum, a, h.registered, fun i hi => ?_⟩
  have hilt : i < ms.length := by
    have := h.num_le
    omega
  have hm : (ms.take t.moduleNum)[i]? = some ms[i] := by
    rw [List.getElem?_take, if_pos (by omega), List.getElem?_eq_getElem hilt]
  have hprefix : ((ms.take t.moduleNum).take i).map ModuleT.name = (names.take i).map some := by
    rw [List.map_take, hnames, List.map_take]
  refine ⟨pointTo a 2 t.moduleNum i ms[i], _, ?_, char?_addModules h.new.length_servs h.acc hm,
    ?_, ?_⟩
  · rw [h.slots, List.getElem?_mapIdx, List.getElem?_eq_getElem hilt]
    rfl
  · unfold pointTo
    split <;> rfl
  · show (addModules base ((ms.take t.moduleNum).take i)).nextIid + 1 = onIid names i
    rw [nextIid_addModules hprefix, hbase, List.length_take, min_eq_left hi.le]
    unfold onIid
    omega

/-- A removal leaves an empty registry. -/
theorem registry_liveRemove (h : s.liveRemove = .ok t) : Registry t [] := by
  rw [liveRemove_eq] at h
  cases h
  have hfresh : s.freshAcc.Numbered := numbered_of_hapAccCreate s.hapAccCreate_accCfg
  have hnew : (s.removedDb.accs ++ [{ s.freshAcc with aid := 1 }])[s.db.accs.length]? =
      some { s.freshAcc with aid := 1 } := by
    rw [← length_removedDb]
    exact List.getElem?_concat_length
  refine ⟨rfl, s.db.accs.length, ⟨Nat.zero_le _, rfl, ⟨_, hnew, rfl, hfresh⟩, ?_,
    fun i hi => absurd hi (Nat.not_lt_zero i)⟩, fun i hi => absurd hi (Nat.not_lt_zero i)⟩
  simp [HapDb.primaryDeleted, freshAcc_eq]

/-! ## Switch reports -/

/-- The registration survives what leaves the ids, the types and the pointers alone. -/
theorem Registered.of_frame {k : Nat} (h : Registered s a k) (hnum : t.moduleNum = s.moduleNum)
    (hprim : t.db.primaryAcc = s.db.primaryAcc)
    (hdel : t.db.accs.map HapAcc.deleted = s.db.accs.map HapAcc.deleted)
    (haccs : t.db.accs.map (fun acc => (acc.aid, acc.nextIid, acc.iids)) =
      s.db.accs.map fun acc => (acc.aid, acc.nextIid, acc.iids))
    (hhcs : t.slots.map ModuleT.hc = s.slots.map ModuleT.hc)
    (hchar : ∀ p c, s.db.char? p = some c →
      ∃ d, t.db.char? p = some d ∧ d.typeUuid = c.typeUuid) : Registered t a k := by
  obtain ⟨hle, hprim', ⟨acc, hacc, haid, hnumbered⟩, hlive, hhc⟩ := h
  refine ⟨hnum ▸ hle, hprim.trans hprim', ?_,
    (HapDb.primaryDeleted_congr hprim hdel).trans hlive, fun i hi => ?_⟩
  · have hget : (t.db.accs.map fun acc => (acc.aid, acc.nextIid, acc.iids))[a]? =
        some (acc.aid, acc.nextIid, acc.iids) := by
      rw [haccs, List.getElem?_map, hacc]
      rfl
    rw [List.getElem?_map, Option.map_eq_some_iff] at hget
    obtain ⟨acc', hacc', heq⟩ := hget
    simp only [Prod.mk.injEq] at heq
    obtain ⟨haid', hnext, hiids⟩ := heq
    refine ⟨acc', hacc', haid'.trans haid, ?_⟩
    unfold HapAcc.Numbered at hnumbered ⊢
    rwa [hnext, hiids]
  · obtain ⟨m, c, hm, hc, hsome, htype⟩ := hhc i (hnum ▸ hi)
    obtain ⟨d, hd, hdtype⟩ := hchar _ c hsome
    have hget : (t.slots.map ModuleT.hc)[i]? = some m.hc := by
      rw [hhcs, List.getElem?_map, hm]
      rfl
    rw [List.getElem?_map, Option.map_eq_some_iff] at hget
    obtain ⟨m', hm', heq⟩ := hget
    exact ⟨m', d, hm', heq.trans hc, hd, hdtype.trans htype⟩

/-- **A switch report** of a registered module: the table and the accessory change together. -/
theorem Registry.setModuleSwitchState (h : Registry s names) {index : UInt8}
    (hi : index.toNat < s.moduleNum) (state : UInt8) :
    ∃ t, s.setModuleSwitchState index state = .ok t ∧ Registry t names := by
  obtain ⟨hnum, a, hreg, hvals⟩ := h
  set p : CharPtr := ⟨a, 2 + index.toNat, 0⟩ with hp
  obtain ⟨m₀, c₀, hm₀, hhc₀, hc₀, htype₀⟩ := hreg.hc index.toNat hi
  obtain ⟨v, hv⟩ : ∃ v, s.modifyModule index (fun module =>
      { module with state := state != 0 }) = .ok v := ⟨_, dif_pos (hi.trans_le hreg.num_le)⟩
  have hrun := hv
  obtain ⟨-, modules, hlist, rfl⟩ := modifyModule_eq_ok.1 hv
  have hslot : ∀ j, modules.toList[j]? = (s.slots[j]?).map fun m =>
      if index.toNat = j then { m with state := state != 0 } else m := by
    intro j
    rw [hlist, List.getElem?_modify]
    rfl
  have hget : ({ s with modules := modules } : State).getModule index =
      .ok { m₀ with state := state != 0 } := by
    rw [getModule_eq_ok]
    show modules.toList[index.toNat]? = _
    rw [hslot, hm₀]
    simp
  obtain ⟨d, hval, hiid, htype, -, haccs, hprim⟩ :=
    HapDb.charUpdateVal_spec hc₀ (.b (state != 0))
  have hchar : ∀ q, (s.db.charUpdateVal (some p) (.b (state != 0))).char? q =
      if p = q then (s.db.char? q).map fun _ => d else s.db.char? q := by
    intro q
    rw [HapDb.char?_of_accs haccs, HapDb.char?_modifyChar]
  have hmap := HapDb.map_iids_modifyChar hc₀ hiid
  refine ⟨{ s with
    modules := modules, db := s.db.charUpdateVal (some p) (.b (state != 0)) }, ?_, hnum, a, ?_, ?_⟩
  · rw [State.setModuleSwitchState, hrun, ok_bind, hget, ok_bind]
    show Except.ok _ = _
    rw [setServiceValue, hhc₀]
  · have hdel := (HapDb.map_accs_charUpdateVal HapAcc.deleted (fun _ _ => rfl) s.db (some p)
      (.b (state != 0))).1
    refine hreg.of_frame rfl hprim hdel (by rw [haccs, hmap]) ?_ fun q c hq => ?_
    · show modules.toList.map ModuleT.hc = _
      rw [hlist]
      apply map_modify_of_eq
      intro m
      rfl
    · show ∃ e, (s.db.charUpdateVal (some p) (.b (state != 0))).char? q = some e ∧ _
      rw [hchar, hq]
      by_cases hpq : p = q
      · rw [if_pos hpq]
        have hcc : c₀ = c := by
          rw [← hpq, hc₀] at hq
          exact Option.some.inj hq
        exact ⟨d, rfl, by rw [htype, hcc]⟩
      · rw [if_neg hpq]
        exact ⟨c, rfl, rfl⟩
  · intro i hilt
    obtain ⟨m, c, hm, hc, hcval, hciid⟩ := hvals i hilt
    show ∃ m' c', modules.toList[i]? = some m' ∧
      (s.db.charUpdateVal (some p) (.b (state != 0))).char? ⟨a, 2 + i, 0⟩ = some c' ∧ _
    rw [hslot, hm, hchar, hc]
    by_cases hij : index.toNat = i
    · subst hij
      rw [hm] at hm₀
      cases hm₀
      rw [hc] at hc₀
      cases hc₀
      refine ⟨_, d, rfl, if_pos rfl, ?_, hiid.trans hciid⟩
      simpa using hval
    · refine ⟨_, c, rfl, if_neg (by simpa [hp] using hij), ?_, hciid⟩
      simpa [hij] using hcval

/-- The registry is about the table and the accessory. -/
theorem Registry.of_eq (h : Registry s names) (hnum : t.moduleNum = s.moduleNum)
    (hslots : t.slots = s.slots) (hdb : t.db = s.db) : Registry t names := by
  obtain ⟨hlen, a, hreg, hvals⟩ := h
  refine ⟨hnum.trans hlen, a, ?_, ?_⟩
  · exact hreg.of_frame hnum (by rw [hdb]) (by rw [hdb]) (by rw [hdb]) (by rw [hslots])
      fun p c hc => ⟨c, by rw [hdb]; exact hc, rfl⟩
  · rw [hslots, hdb]
    exact hvals

/-! ## Sequences -/

/-- The names of the modules `0, 1, …` of a sequence. -/
def seqNames (ps : List (UInt32 × LinkFields)) : List CStr := (ps.map fun p => p.2.name).reverse

@[simp] theorem length_seqNames (ps : List (UInt32 × LinkFields)) :
    (seqNames ps).length = ps.length := by simp [seqNames]

theorem slots_of_run {ps : List (UInt32 × LinkFields)} (hwf : ∀ p ∈ ps, p.2.WellFormed)
    (h : Trace.run step s (ps.map linkEvent) = .ok t) :
    t.slots.map ModuleT.data = tableData (s.slots.map ModuleT.data) (ps.map Prod.snd) := by
  induction ps generalizing s with
  | nil =>
    cases h
    rfl
  | cons p ps ih =>
    obtain ⟨u, hu, h⟩ := run_cons_eq_ok.1 h
    rw [ih (fun q hq => hwf q (List.mem_cons_of_mem _ hq)) h,
      (linkEvent_spec (hwf p (by simp)) hu).1]
    rfl

/-- The table after a sequence.  Induction on the messages: each one fills the slot below the
last. -/
theorem InOrder.tableData_eq {total n : Nat} {ms : List LinkFields} (h : InOrder total n ms)
    {base : List ModuleData} (hn : n ≤ base.length) :
    tableData base ms = ms.reverse.map LinkFields.data ++ base.drop n := by
  induction ms generalizing n base with
  | nil =>
    have h0 := h.length
    simp only [List.length_nil] at h0
    rw [← h0]
    rfl
  | cons m ms ih =>
    obtain ⟨haddr, hpos, hrest⟩ := h.cons
    have hstep : tableData base (m :: ms) = tableData (base.set (n - 1) m.data) ms := by
      rw [← haddr]
      rfl
    have hdrop : (base.set (n - 1) m.data).drop (n - 1) = m.data :: base.drop n := by
      rw [List.drop_eq_getElem_cons (by rw [List.length_set]; omega), List.getElem_set_self,
        List.drop_set_of_lt (by omega), show n - 1 + 1 = n by omega]
    rw [hstep, ih hrest (by rw [List.length_set]; omega), hdrop]
    simp

/-- A sequence completes, and in between the modules are not initialised.  Induction on the
messages. -/
theorem run_sequence {total n c : Nat} {ps : List (UInt32 × LinkFields)}
    (hms : InOrder total n (ps.map Prod.snd)) (hpos : 1 ≤ n) (hlink : n ≠ total → Linking c s)
    (hc0 : n = total → c = 0) (hc : c + n = total) :
    ∃ t a base ms, Trace.run step s (ps.map linkEvent) = .ok t ∧ Completed t a base ms ∧
      t.moduleNum = total ∧ ∀ before after u, ps.map linkEvent = before ++ after →
        before ≠ [] → after ≠ [] → Trace.run step s before = .ok u →
          u.systemStatus.moduleInitialized = false := by
  have hmax := hms.total_le
  induction ps generalizing n c s with
  | nil =>
    have h0 := hms.length
    simp only [List.map_nil, List.length_nil] at h0
    omega
  | cons p ps ih =>
    obtain ⟨haddr, -, hrest⟩ := hms.cons
    have hwf : p.2.WellFormed := hms.wellFormed p.2 (by simp)
    have htotal : p.2.total = total := hms.same p.2 (by simp)
    obtain ⟨v, hv, hnum, hmid, hlast⟩ := linkMsg_of_linking p.1 hwf
      (fun hne => hlink (by omega)) (fun heq => hc0 (by omega)) (by omega)
    have hstep : step s (linkEvent p) = .ok v := hv
    by_cases hn : n = 1
    · obtain ⟨a, base, ms, hcomp⟩ := hlast (by omega)
      have hnil : ps = [] := by
        have h0 := hrest.length
        rw [List.length_map] at h0
        exact List.eq_nil_of_length_eq_zero (by omega)
      subst hnil
      refine ⟨v, a, base, ms, run_singleton.trans hstep, hcomp, by omega, ?_⟩
      intro before after u heq hbefore hafter
      have hlen := congrArg List.length heq
      have := List.length_pos_iff.2 hbefore
      have := List.length_pos_iff.2 hafter
      simp only [List.map_cons, List.map_nil, List.length_cons, List.length_nil,
        List.length_append] at hlen
      omega
    · have hlinking := hmid (by omega)
      obtain ⟨t, a, base, ms, ht, hcomp, hnum', hbetween⟩ := ih hrest (by omega)
        (fun _ => hlinking) (fun heq => by omega) (by omega)
      refine ⟨t, a, base, ms, run_cons_eq_ok.2 ⟨v, hstep, ht⟩, hcomp, hnum', ?_⟩
      intro before after u heq hbefore hafter hu
      cases before with
      | nil => exact absurd rfl hbefore
      | cons e before =>
        obtain ⟨rfl, htail⟩ := List.cons.inj heq
        obtain ⟨w, hw, hu⟩ := run_cons_eq_ok.1 hu
        rw [hstep] at hw
        cases hw
        by_cases hnil : before = []
        · subst hnil
          cases hu
          exact hlinking.uninitialized
        · exact hbetween before after u htail hnil hafter hu

/-- **A complete sequence** registers its modules. -/
theorem registry_of_sequence {total : Nat} {ps : List (UInt32 × LinkFields)} (s : State)
    (hpos : 1 ≤ total) (hms : InOrder total total (ps.map Prod.snd)) :
    ∃ t, Trace.run step s (ps.map linkEvent) = .ok t ∧ Registry t (seqNames ps) ∧
      t.systemStatus.moduleInitialized = true ∧
      ∀ before after u, ps.map linkEvent = before ++ after →
        before ≠ [] → after ≠ [] → Trace.run step s before = .ok u →
          u.systemStatus.moduleInitialized = false := by
  obtain ⟨t, a, base, ms, ht, hcomp, hnum, hbetween⟩ := run_sequence (s := s) (c := 0) hms hpos
    (fun hne => absurd rfl hne) (fun _ => rfl) (by omega)
  refine ⟨t, ht, hcomp.registry ?_, hcomp.initialized, hbetween⟩
  have hwf : ∀ p ∈ ps, p.2.WellFormed := fun p hp => hms.wellFormed p.2 (List.mem_map_of_mem hp)
  have hdata : ms.map ModuleT.data = t.slots.map ModuleT.data := by
    rw [hcomp.slots]
    refine List.ext_getElem? fun i => ?_
    simp only [List.getElem?_map, List.getElem?_mapIdx, Option.map_map]
    refine congrArg (fun f => Option.map f ms[i]?) (funext fun m => ?_)
    simp only [Function.comp_apply, pointTo]
    split <;> rfl
  have htable : (ms.take total).map ModuleT.data =
      (ps.map Prod.snd).reverse.map LinkFields.data := by
    rw [List.map_take, hdata, slots_of_run hwf ht,
      hms.tableData_eq (by simpa using hms.total_le)]
    have hlen : ((ps.map Prod.snd).reverse.map LinkFields.data).length = total := by
      simpa using hms.length
    rw [← hlen, List.take_left]
  rw [hnum]
  have hname := congrArg (List.map ModuleData.name) htable
  rw [List.map_map, List.map_map] at hname
  refine Eq.trans hname ?_
  rw [seqNames, ← List.map_reverse, ← List.map_reverse, List.map_map, List.map_map]
  rfl

/-! ## Runs -/

/-- What a run is made of. -/
inductive Segment where
  /-- The SAMD21 starts: one more live check. -/
  | start (now : UInt32)
  /-- A link sequence. -/
  | sequence (ps : List (UInt32 × LinkFields))
  /-- A step of the `k`th live check. -/
  | live (k : Nat)
  /-- A module reports its switch state. -/
  | report (now : UInt32) (addr lo hi : UInt8)

/-- The events of a segment. -/
def Segment.events : Segment → List Event
  | .start now => [.uart now .samd21Init]
  | .sequence ps => ps.map linkEvent
  | .live k => [.live k]
  | .report now addr lo hi => [.uart now (.updateData addr moduleSwitchState lo hi)]

def segmentStep (s : State) (segment : Segment) : Except Fault State :=
  Trace.run step s segment.events

/-- A sequence is complete and in order, a report comes from a linked module. -/
def Allowed (s : State) : Segment → Prop
  | .sequence ps => ∃ total, 1 ≤ total ∧ InOrder total total (ps.map Prod.snd)
  | .report _ addr _ _ => Linked s addr
  | _ => True

/-- Where the modules are initialised, they are registered, with the names of one of the
sequences in `S` or with none. -/
def Shows (S : List (List (UInt32 × LinkFields))) (t : State) : Prop :=
  t.systemStatus.moduleInitialized = true →
    ∃ names, Registry t names ∧ (names = [] ∨ ∃ ps ∈ S, names = seqNames ps)

variable {S : List (List (UInt32 × LinkFields))}

theorem exists_setModuleSwitchState (s : State) {index : UInt8} (h : index.toNat < maxModuleNum)
    (state : UInt8) : ∃ t, s.setModuleSwitchState index state = .ok t ∧
      t.systemStatus = s.systemStatus := by
  obtain ⟨v, hv⟩ : ∃ v, s.modifyModule index (fun module =>
      { module with state := state != 0 }) = .ok v := ⟨_, dif_pos h⟩
  obtain ⟨m, hm⟩ : ∃ m, v.getModule index = .ok m := ⟨_, dif_pos h⟩
  have hrun := hv
  obtain ⟨-, modules, -, rfl⟩ := modifyModule_eq_ok.1 hv
  rw [State.setModuleSwitchState, hrun, ok_bind, hm]
  exact ⟨_, rfl, rfl⟩

theorem shows_report (hS : Shows S s) {addr : UInt8} (h : Linked s addr) (now : UInt32)
    (lo hi : UInt8) :
    ∃ t, step s (.uart now (.updateData addr moduleSwitchState lo hi)) = .ok t ∧ Shows S t := by
  set state := (UInt16.ofNat (lo.toNat + 256 * hi.toNat)).toUInt8 with hstate
  obtain ⟨t, ht, hstatus⟩ := exists_setModuleSwitchState s
    (h.toNat_sub_one_lt.trans_le h.2.2) state
  refine ⟨t, ht, fun hinit => ?_⟩
  rw [hstatus] at hinit
  obtain ⟨names, hreg, hnames⟩ := hS hinit
  obtain ⟨u, hu, hreg'⟩ := hreg.setModuleSwitchState h.toNat_sub_one_lt state
  rw [ht] at hu
  cases hu
  exact ⟨names, hreg', hnames⟩

theorem shows_live (hS : Shows S s) (k : Nat) : ∃ t, step s (.live k) = .ok t ∧ Shows S t := by
  obtain ⟨t, ht⟩ := exists_liveCheck s k
  refine ⟨t, ht, ?_⟩
  rcases liveCheck_cases ht with ⟨-, u, hu, rfl⟩ | ⟨-, queue, connected, removed, tasks, rfl⟩
  · exact fun _ => ⟨[], (registry_liveRemove hu).of_eq rfl rfl rfl, Or.inl rfl⟩
  · intro hinit
    obtain ⟨names, hreg, hnames⟩ := hS hinit
    exact ⟨names, hreg.of_eq rfl rfl rfl, hnames⟩

/-- **The step lemma**: one segment. -/
theorem shows_segment (hS : Shows S s) {segment : Segment} (h : Allowed s segment)
    (hmem : ∀ ps, segment = .sequence ps → ps ∈ S) :
    ∃ t, segmentStep s segment = .ok t ∧ EachState step (Shows S) s segment.events := by
  cases segment with
  | start now =>
    have hstep : step s (.uart now .samd21Init) = .ok { s.requestLoad with
        liveTasks := s.liveTasks ++ [⟨.top, false⟩] } := rfl
    refine ⟨_, run_singleton.trans hstep, (eachState_singleton hstep).2 ⟨hS, fun hinit => ?_⟩⟩
    obtain ⟨names, hreg, hnames⟩ := hS hinit
    exact ⟨names, hreg.of_eq rfl rfl rfl, hnames⟩
  | live k =>
    obtain ⟨t, ht, hSt⟩ := shows_live hS k
    exact ⟨t, run_singleton.trans ht, (eachState_singleton ht).2 ⟨hS, hSt⟩⟩
  | report now addr lo hi =>
    obtain ⟨t, ht, hSt⟩ := shows_report hS h now lo hi
    exact ⟨t, run_singleton.trans ht, (eachState_singleton ht).2 ⟨hS, hSt⟩⟩
  | sequence ps =>
    obtain ⟨total, hpos, hms⟩ := h
    obtain ⟨t, ht, hreg, -, hbetween⟩ := registry_of_sequence s hpos hms
    refine ⟨t, ht, fun before after u heq hu => ?_⟩
    by_cases hbefore : before = []
    · subst hbefore
      cases hu
      exact hS
    · by_cases hafter : after = []
      · subst hafter
        rw [List.append_nil] at heq
        rw [← heq] at hu
        have hut : u = t := Except.ok.inj (hu.symm.trans ht)
        exact fun _ => ⟨_, hut ▸ hreg, Or.inr ⟨ps, hmem ps rfl, rfl⟩⟩
      · intro hinit
        rw [hbetween before after u heq hbefore hafter hu] at hinit
        cases hinit

/-- **The run lemma.**  Every state of a run shows the names of a sequence of the run. -/
theorem shows_run (hS : Shows S s) {segments : List Segment}
    (h : EachStep segmentStep Allowed s segments)
    (hmem : ∀ ps, Segment.sequence ps ∈ segments → ps ∈ S) :
    ∃ t, Trace.run step s (segments.flatMap Segment.events) = .ok t ∧
      EachState step (Shows S) s (segments.flatMap Segment.events) := by
  induction segments generalizing s with
  | nil =>
    refine ⟨s, rfl, fun before after u heq hu => ?_⟩
    obtain ⟨rfl, -⟩ := List.append_eq_nil_iff.1 heq.symm
    cases hu
    exact hS
  | cons segment segments ih =>
    obtain ⟨hallowed, hrest⟩ := eachStep_cons.1 h
    obtain ⟨u, hu, heach⟩ := shows_segment hS hallowed
      fun ps hps => hmem ps (by rw [hps]; simp)
    obtain ⟨t, ht, heach'⟩ := ih (heach.last hu) (hrest u hu)
      fun ps hps => hmem ps (List.mem_cons_of_mem _ hps)
    rw [List.flatMap_cons]
    exact ⟨t, run_append_eq_ok.2 ⟨u, hu, ht⟩, (eachState_append hu).2 ⟨heach, heach'⟩⟩

/-! ## The table and HomeKit agree -/

/-- Where the modules are initialised: the ids of the registered accessory are distinct, the
On characteristic of each module has the module's state and its address, and every other
characteristic of the accessory has the address 0. -/
def TableAgrees (t : State) : Prop :=
  t.systemStatus.moduleInitialized = true →
    ∃ a acc, t.db.primaryAcc = some a ∧ t.db.accs[a]? = some acc ∧ acc.iids.Nodup ∧
      (∀ i < t.moduleNum, ∃ m p c, t.slots[i]? = some m ∧ m.hc = some p ∧ p.acc = a ∧
        t.db.char? p = some c ∧ c.val = .b m.state ∧
        t.getModuleAddrByHc (some p) = .ok (UInt8.ofNat (i + 1))) ∧
      ∀ p c, p.acc = a → t.db.char? p = some c →
        (∀ i < t.moduleNum, ∀ m, t.slots[i]? = some m → m.hc ≠ some p) →
          t.getModuleAddrByHc (some p) = .ok 0

theorem Registry.tableAgrees (h : Registry t names) : TableAgrees t := by
  intro _
  obtain ⟨hnum, a, hreg, hvals⟩ := h
  obtain ⟨acc, hacc, -, hnumbered⟩ := hreg.acc
  refine ⟨a, acc, hreg.primaryAcc, hacc, hnumbered.nodup, fun i hi => ?_, fun p c hp hc hno => ?_⟩
  · obtain ⟨m, c, hm, hhc, hc, -⟩ := hreg.hc i hi
    obtain ⟨m', c', hm', hc', hval, -⟩ := hvals i (hnum ▸ hi)
    rw [hm] at hm'
    cases hm'
    rw [hc] at hc'
    cases hc'
    refine ⟨m, _, c, hm, hhc, rfl, hc, hval, ?_⟩
    rw [hreg.getModuleAddrByHc_eq rfl hc, moduleAddr, if_pos ⟨rfl, by simp, by simpa using hi⟩]
    simp
  · rw [hreg.getModuleAddrByHc_eq hp hc, moduleAddr, if_neg]
    · rfl
    · rintro ⟨h0, h2, hlt⟩
      have hi : p.serv - 2 < t.moduleNum := by omega
      obtain ⟨m, d, hm, hhc, -⟩ := hreg.hc (p.serv - 2) hi
      refine hno _ hi m hm ?_
      rw [hhc, Nat.add_sub_cancel' h2, ← hp, ← h0]

theorem Registry.slotIid_eq (h : Registry t names) {i : Nat} (hi : i < t.moduleNum) :
    t.slotIid i = some (onIid names i) := by
  obtain ⟨hnum, a, hreg, hvals⟩ := h
  obtain ⟨m, c, hm, hhc, hc, -⟩ := hreg.hc i hi
  obtain ⟨m', c', hm', hc', -, hiid⟩ := hvals i (hnum ▸ hi)
  rw [hc] at hc'
  cases hc'
  simp [State.slotIid, hm, hhc, hc, hiid]

/-- Wherever a run shows a module, its On characteristic has the same id. -/
def StableIids (s : State) (es : List Event) : Prop :=
  ∀ before after before' after' t t', es = before ++ after → es = before' ++ after' →
    Trace.run step s before = .ok t → Trace.run step s before' = .ok t' →
      t.systemStatus.moduleInitialized = true → t'.systemStatus.moduleInitialized = true →
        ∀ i, i < t.moduleNum → i < t'.moduleNum → t.slotIid i = t'.slotIid i

/-- Any two sequences have as many names that are too long before each module they share. -/
def SameTooLong (segments : List Segment) : Prop :=
  ∀ ps ps', Segment.sequence ps ∈ segments → Segment.sequence ps' ∈ segments →
    ∀ i, i < ps.length → i < ps'.length →
      ((seqNames ps).take i).countP tooLong = ((seqNames ps').take i).countP tooLong

/-- A sequence of a run leaves its names. -/
theorem exists_registry_of_mem {segments : List Segment} (hS : Shows S s)
    (h : EachStep segmentStep Allowed s segments)
    (hmem : ∀ ps, Segment.sequence ps ∈ segments → ps ∈ S)
    {ps : List (UInt32 × LinkFields)} (hps : Segment.sequence ps ∈ segments) :
    ∃ before after t, segments.flatMap Segment.events = before ++ after ∧
      Trace.run step s before = .ok t ∧ t.systemStatus.moduleInitialized = true ∧
      Registry t (seqNames ps) := by
  obtain ⟨front, back, rfl⟩ := List.append_of_mem hps
  obtain ⟨hfront, hback⟩ := eachStep_append.1 h
  obtain ⟨u, hu, -⟩ := shows_run hS hfront fun qs hqs => hmem qs (List.mem_append_left _ hqs)
  have hu' : Trace.run segmentStep s front = .ok u := (run_flatMap Segment.events front).symm.trans hu
  obtain ⟨⟨total, hpos, hms⟩, -⟩ := eachStep_cons.1 (hback u hu')
  obtain ⟨t, ht, hreg, hinit, -⟩ := registry_of_sequence u hpos hms
  refine ⟨front.flatMap Segment.events ++ ps.map linkEvent, back.flatMap Segment.events, t, ?_,
    run_append_eq_ok.2 ⟨u, hu, ht⟩, hinit, hreg⟩
  simp [Segment.events]

/-- **The table and HomeKit agree** in every state of every run of complete sequences, steps of
live checks and switch reports; the ids of the On characteristics are stable as well exactly
if the sequences have the same numbers of names that are too long. -/
theorem tableAgrees_iff (hboot : Booted s) {segments : List Segment}
    (h : EachStep segmentStep Allowed s segments) :
    (EachState step TableAgrees s (segments.flatMap Segment.events) ∧
      StableIids s (segments.flatMap Segment.events)) ↔ SameTooLong segments := by
  set S := segments.filterMap fun
    | .sequence ps => some ps
    | _ => none with hSdef
  have hmem : ∀ ps, Segment.sequence ps ∈ segments → ps ∈ S := fun ps hps =>
    List.mem_filterMap.2 ⟨_, hps, rfl⟩
  have hmem' : ∀ ps ∈ S, Segment.sequence ps ∈ segments := by
    intro ps hps
    obtain ⟨segment, hseg, heq⟩ := List.mem_filterMap.1 hps
    cases segment <;> simp_all
  have hS : Shows S s := by
    obtain ⟨deviceName, enablePop, rfl⟩ := hboot
    intro hinit
    cases hinit
  obtain ⟨last, -, hshows⟩ := shows_run hS h hmem
  constructor
  · rintro ⟨-, hstable⟩ ps ps' hps hps' i hi hi'
    obtain ⟨before, after, t, hsplit, ht, hinit, hreg⟩ := exists_registry_of_mem hS h hmem hps
    obtain ⟨before', after', t', hsplit', ht', hinit', hreg'⟩ :=
      exists_registry_of_mem hS h hmem hps'
    have hlt : i < t.moduleNum := by rwa [hreg.num, length_seqNames]
    have hlt' : i < t'.moduleNum := by rwa [hreg'.num, length_seqNames]
    have hiid := hstable _ _ _ _ t t' hsplit hsplit' ht ht' hinit hinit' i hlt hlt'
    rw [hreg.slotIid_eq hlt, hreg'.slotIid_eq hlt'] at hiid
    exact (onIid_eq_iff (by rw [length_seqNames]; omega) (by rw [length_seqNames]; omega)).1
      (Option.some.inj hiid)
  · intro hsame
    refine ⟨fun before after t hsplit ht hinit => ?_, ?_⟩
    · obtain ⟨names, hreg, -⟩ := hshows before after t hsplit ht hinit
      exact hreg.tableAgrees hinit
    · intro before after before' after' t t' hsplit hsplit' ht ht' hinit hinit' i hi hi'
      obtain ⟨names, hreg, hnames⟩ := hshows before after t hsplit ht hinit
      obtain ⟨names', hreg', hnames'⟩ := hshows before' after' t' hsplit' ht' hinit'
      have hlt := hreg.num ▸ hi
      have hlt' := hreg'.num ▸ hi'
      rcases hnames with rfl | ⟨ps, hps, rfl⟩
      · exact absurd hlt (Nat.not_lt_zero i)
      · rcases hnames' with rfl | ⟨ps', hps', rfl⟩
        · exact absurd hlt' (Nat.not_lt_zero i)
        · rw [hreg.slotIid_eq hi, hreg'.slotIid_eq hi', (onIid_eq_iff hlt.le hlt'.le).2]
          rw [length_seqNames] at hlt hlt'
          exact hsame ps ps' (hmem' ps hps) (hmem' ps' hps') i hlt hlt'

/-- The messages of two modules, of which the one with address 1 has the given name. -/
def pair (name : CStr) : List (UInt32 × LinkFields) :=
  [(0, ⟨2, 2, [0x62], 0, true⟩), (0, ⟨2, 1, name, 0, false⟩)]

theorem allowed_pair (s : State) (name : CStr) : Allowed s (.sequence (pair name)) := by
  refine ⟨2, by decide, rfl, fun m hm => ?_, le_rfl, by decide⟩
  simp only [pair, List.map_cons, List.map_nil, List.mem_cons, List.not_mem_nil, or_false] at hm
  rcases hm with rfl | rfl <;> rfl

/-- Two modules are linked and one of them reports that it is on. -/
theorem tableAgrees_iff_pair :
    EachState step TableAgrees State.bootDefault
        ([.sequence (pair [0x61]), .report 0 1 1 0].flatMap Segment.events) ∧
      StableIids State.bootDefault
        ([.sequence (pair [0x61]), .report 0 1 1 0].flatMap Segment.events) := by
  have hallowed : EachStep segmentStep Allowed State.bootDefault
      [.sequence (pair [0x61]), .report 0 1 1 0] := by
    refine eachStep_cons.2 ⟨allowed_pair _ _, fun t ht => eachStep_cons.2 ⟨?_, fun _ _ =>
      eachStep_nil⟩⟩
    obtain ⟨u, hu, hcheck⟩ := exists_of_okAnd
      (x := segmentStep State.bootDefault (.sequence (pair [0x61])))
      (p := fun u => u.moduleNum = 2) (by decide +kernel)
    rw [ht] at hu
    cases hu
    have hnum : t.moduleNum = 2 := of_decide_eq_true hcheck
    exact ⟨by decide, by rw [hnum]; decide, by rw [hnum]; decide⟩
  refine (tableAgrees_iff booted_bootDefault hallowed).2 ?_
  intro ps ps' hps hps' i _ _
  simp only [List.mem_cons, Segment.sequence.injEq, List.not_mem_nil, or_false, reduceCtorEq]
    at hps hps'
  rw [hps, hps']

/-- The module with address 1 comes back with a name of 257 bytes: the On characteristic of the
other module gets a new id. -/
theorem not_stableIids_tooLong :
    EachStep segmentStep Allowed State.bootDefault
        [.sequence (pair [0x61]), .sequence (pair (List.replicate 257 0x61))] ∧
      ¬ StableIids State.bootDefault
        ([.sequence (pair [0x61]), .sequence (pair (List.replicate 257 0x61))].flatMap
          Segment.events) := by
  refine ⟨eachStep_cons.2 ⟨allowed_pair _ _, fun _ _ => eachStep_cons.2 ⟨allowed_pair _ _,
    fun _ _ => eachStep_nil⟩⟩, fun hstable => ?_⟩
  obtain ⟨t, ht, hcheck⟩ := exists_of_okAnd
    (x := Trace.run step State.bootDefault ((pair [0x61]).map linkEvent))
    (p := fun t => t.systemStatus.moduleInitialized = true ∧ t.moduleNum = 2 ∧
      t.slotIid 1 = some 15 ∧
      okAnd (Trace.run step t ((pair (List.replicate 257 0x61)).map linkEvent)) (fun t' =>
        t'.systemStatus.moduleInitialized = true ∧ t'.moduleNum = 2 ∧ t'.slotIid 1 = some 14) =
        true) (by decide +kernel)
  obtain ⟨hinit, hnum, hiid, hcheck⟩ := of_decide_eq_true hcheck
  obtain ⟨t', ht', hcheck⟩ := exists_of_okAnd hcheck
  obtain ⟨hinit', hnum', hiid'⟩ := of_decide_eq_true hcheck
  have hevents : ([.sequence (pair [0x61]), .sequence (pair (List.replicate 257 0x61))] :
      List Segment).flatMap Segment.events =
        (pair [0x61]).map linkEvent ++ (pair (List.replicate 257 0x61)).map linkEvent := by
    simp only [List.flatMap_cons, List.flatMap_nil, List.append_nil]
    rfl
  rw [hevents] at hstable
  have hsame := hstable _ _ _ [] t t' rfl (List.append_nil _).symm ht
    (run_append_eq_ok.2 ⟨t, ht, ht'⟩) hinit hinit' 1 (by omega) (by omega)
  rw [hiid, hiid'] at hsame
  cases hsame

end NinaHomekit
