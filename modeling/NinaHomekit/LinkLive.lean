import NinaHomekit.Sequence

/-!
# Linking and the live check

A live check that has sent its HI removes the modules when `module_connected` is still false.
During a link sequence it is false until the last message.

* `Interleaved` — a link sequence interleaved with the steps of one live check.
* `AllLinked` — `total` modules are counted, and the registered accessory has one switch
  service for each of them.
* `run_interleaved` — the count of a sequence is short exactly when a step removed the
  modules.
* `linkSurvives_iff` — **a sequence links all its modules exactly if no step of the live
  check in between removes them.**
-/

namespace NinaHomekit

open Trace State

variable {s t : State} {c k n : Nat}

/-! ## Interleavings -/

/-- The messages `ps` in their order, with steps of the `k`th live check between them. -/
inductive Interleaved (k : Nat) : List (UInt32 × LinkFields) → List Event → Prop
  | last (p : UInt32 × LinkFields) : Interleaved k [p] [linkEvent p]
  | next {ps : List (UInt32 × LinkFields)} {es : List Event} (p : UInt32 × LinkFields) (n : Nat)
      (h : Interleaved k ps es) :
      Interleaved k (p :: ps) (linkEvent p :: (List.replicate n (.live k) ++ es))

/-- The step does not remove the modules. -/
def KeepsModules (k : Nat) (s : State) (e : Event) : Prop := e = .live k → ¬ s.LiveRemoves k

theorem keepsModules_linkEvent (p : UInt32 × LinkFields) : KeepsModules k s (linkEvent p) := by
  intro he
  cases he

theorem Interleaved.one_le_length {ps : List (UInt32 × LinkFields)} {es : List Event}
    (h : Interleaved k ps es) : 1 ≤ ps.length := by
  cases h <;> simp

/-! ## Steps of the live check -/

/-- A step of a live check never faults. -/
theorem exists_liveCheck (s : State) (k : Nat) : ∃ t, s.liveCheck k = .ok t := by
  have htest : ∃ t, s.liveTest k = .ok t := by
    unfold liveTest liveRemoveOnce
    rw [liveRemove_eq]
    split
    · split <;> exact ⟨_, rfl⟩
    · exact ⟨_, rfl⟩
  unfold liveCheck
  split
  · exact ⟨_, rfl⟩
  · split <;> exact ⟨_, rfl⟩
  · exact ⟨_, rfl⟩
  · exact ⟨_, rfl⟩
  · split
    · exact htest
    · exact ⟨_, rfl⟩
  · exact ⟨_, rfl⟩

/-- A removal starts the count again. -/
theorem Linking.liveRemove (hlink : Linking c s) (h : s.liveRemove = .ok t) : Linking 0 t := by
  rw [liveRemove_eq] at h
  cases h
  refine ⟨rfl, hlink.uninitialized, _, _, rfl, ?_, s, 1, rfl⟩
  rw [← length_removedDb]
  exact List.getElem?_concat_length

theorem Linking.leavesBridge (h : Linking c s) (ht : LeavesBridge s t) : Linking c t := by
  obtain ⟨queue, connected, removed, tasks, rfl⟩ := ht
  exact ⟨h.num, h.uninitialized, h.new⟩

/-- **Steps of a live check** during a sequence: the count stays, unless one of them removes
the modules.  Induction on the steps. -/
theorem run_live (h : Linking c s) (k n : Nat) :
    ∃ t c', Trace.run step s (List.replicate n (.live k)) = .ok t ∧ Linking c' t ∧ c' ≤ c ∧
      (1 ≤ c → (c' = c ↔ EachStep step (KeepsModules k) s (List.replicate n (.live k)))) := by
  induction n generalizing c s with
  | zero => exact ⟨s, c, rfl, h, le_rfl, fun _ => by simp⟩
  | succ n ih =>
    obtain ⟨u, hu⟩ := exists_liveCheck s k
    have hstep : step s (.live k) = .ok u := hu
    have honly : ∀ {P : State → Prop}, (∀ v, step s (.live k) = .ok v → P v) ↔ P u := by
      intro P
      constructor
      · exact fun hall => hall u hstep
      · intro hP v hv
        rw [hstep] at hv
        cases hv
        exact hP
    rw [List.replicate_succ, eachStep_cons, honly]
    rcases liveCheck_cases hu with ⟨hrem, v, hv, rfl⟩ | ⟨hno, hsame⟩
    · have hzero : Linking 0 (v.setTask k ⟨.request, true⟩) :=
        ⟨(h.liveRemove hv).num, (h.liveRemove hv).uninitialized, (h.liveRemove hv).new⟩
      obtain ⟨t, c', ht, hlink, hle, -⟩ := ih hzero
      refine ⟨t, c', run_cons_eq_ok.2 ⟨_, hstep, ht⟩, hlink, by omega, fun hc => ?_⟩
      exact iff_of_false (by omega) fun hkeep => hkeep.1 rfl hrem
    · obtain ⟨t, c', ht, hlink, hle, hiff⟩ := ih (h.leavesBridge hsame)
      refine ⟨t, c', run_cons_eq_ok.2 ⟨_, hstep, ht⟩, hlink, hle, fun hc => ?_⟩
      rw [hiff hc]
      exact (and_iff_right fun _ => hno).symm

/-! ## A sequence among steps of the live check -/

/-- **A sequence among steps of a live check** always completes, and its count is short
exactly if one of them removed the modules.  Induction on the interleaving. -/
theorem run_interleaved {total : Nat} {ps : List (UInt32 × LinkFields)} {es : List Event}
    (hI : Interleaved k ps es) (hms : InOrder total n (ps.map Prod.snd))
    (hlink : n ≠ total → Linking c s) (hc0 : n = total → c = 0) (hc : c + n ≤ total) :
    ∃ t a base ms, Trace.run step s es = .ok t ∧ Completed t a base ms ∧
      t.moduleNum ≤ c + n ∧ (t.moduleNum = c + n ↔ EachStep step (KeepsModules k) s es) := by
  have hmax := hms.total_le
  induction hI generalizing c n s with
  | last p =>
    obtain ⟨haddr, -, hrest⟩ := hms.cons
    have hn : n = 1 := by
      have := hms.length
      simpa using this.symm
    have hwf : p.2.WellFormed := hms.wellFormed p.2 (by simp)
    have htotal : p.2.total = total := hms.same p.2 (by simp)
    obtain ⟨t, ht, hnum, -, hlast⟩ := linkMsg_of_linking p.1 hwf
      (fun hne => hlink (by omega)) (fun heq => hc0 (by omega)) (by omega)
    obtain ⟨a, base, ms, hcomp⟩ := hlast (by omega)
    refine ⟨t, a, base, ms, run_singleton.trans ht, hcomp, by omega, iff_of_true (by omega) ?_⟩
    exact eachStep_cons.2 ⟨keepsModules_linkEvent p, fun _ _ => eachStep_nil⟩
  | next p j hI ih =>
    rename_i ps es
    obtain ⟨haddr, hpos, hrest⟩ := hms.cons
    have hn : 2 ≤ n := by
      have h1 := hms.length
      have h2 := hI.one_le_length
      rw [List.length_map, List.length_cons] at h1
      omega
    have hwf : p.2.WellFormed := hms.wellFormed p.2 (by simp)
    have htotal : p.2.total = total := hms.same p.2 (by simp)
    obtain ⟨v, hv, -, hmid, -⟩ := linkMsg_of_linking p.1 hwf
      (fun hne => hlink (by omega)) (fun heq => hc0 (by omega)) (by omega)
    obtain ⟨u, c', hu, hlink', hle, hiff⟩ := run_live (hmid (by omega)) k j
    have hle' := hms.le
    obtain ⟨t, a, base, ms, ht, hcomp, hshort, hkeep⟩ := ih hrest (fun _ => hlink')
      (fun heq => by omega) (by omega)
    have hstep : step s (linkEvent p) = .ok v := hv
    refine ⟨t, a, base, ms, run_cons_eq_ok.2 ⟨v, hstep, run_append_eq_ok.2 ⟨u, hu, ht⟩⟩, hcomp,
      by omega, ?_⟩
    have heach : EachStep step (KeepsModules k) s
        (linkEvent p :: (List.replicate j (.live k) ++ es)) ↔ c' = c + 1 ∧
          t.moduleNum = c' + (n - 1) := by
      rw [eachStep_cons, hiff (by omega), hkeep]
      constructor
      · rintro ⟨-, hall⟩
        obtain ⟨hlive, hafter⟩ := eachStep_append.1 (hall v hstep)
        exact ⟨hlive, hafter u hu⟩
      · rintro ⟨hlive, hafter⟩
        refine ⟨keepsModules_linkEvent p, fun w hw => eachStep_append.2 ?_⟩
        rw [hstep] at hw
        cases hw
        refine ⟨hlive, fun x hx => ?_⟩
        rw [hu] at hx
        cases hx
        exact hafter
    rw [heach]
    omega

/-! ## Every module has its service -/

/-- The switch services of an accessory. -/
def switchServs (a : AccPtr) (acc : HapAcc) : List ServPtr :=
  (acc.servs.zipIdx.filter fun hs => hs.1.typeUuid = .switch).map fun hs => ⟨a, hs.2⟩

/-- `total` modules are counted, and the switch services of the registered accessory are those
of the modules `0, …, total - 1`. -/
def AllLinked (total : Nat) (s : State) : Prop :=
  s.moduleNum = total ∧ ∃ a acc, s.db.primaryAcc = some a ∧ s.db.accs[a]? = some acc ∧
    (switchServs a acc).map some = s.linked.map ModuleT.hs

theorem servs_addModules (acc : HapAcc) (ms : List ModuleT) :
    ∃ news, (addModules acc ms).servs = acc.servs ++ news ∧ news.length = ms.length ∧
      ∀ hs ∈ news, hs.typeUuid = .switch := by
  induction ms generalizing acc with
  | nil => exact ⟨[], by simp [addModules], rfl, by simp⟩
  | cons m ms ih =>
    obtain ⟨news, hnews, hlen, htype⟩ := ih (hapAccAddServ acc (moduleServ m))
    set serv : HapServ := { moduleServ m with
      iid := acc.nextIid, chars := numberChars (acc.nextIid + 1) (moduleServ m).chars } with hserv
    have hadd : (hapAccAddServ acc (moduleServ m)).servs = acc.servs ++ [serv] := rfl
    refine ⟨serv :: news, ?_, by simp [hlen], ?_⟩
    · rw [addModules_cons, hnews, hadd, List.append_assoc]
      rfl
    intro hs hmem
    rcases List.mem_cons.1 hmem with rfl | hmem
    · rfl
    · exact htype hs hmem

theorem HapAcc.New.switchServs_addModules {base : HapAcc} (h : base.New) (a aid : Nat)
    (ms : List ModuleT) : switchServs a { addModules base ms with aid := aid } =
      (List.range' 2 ms.length).map fun i => ⟨a, i⟩ := by
  obtain ⟨news, hnews, hlen, htype⟩ := servs_addModules base ms
  have hold : ∀ hs ∈ base.servs, ¬ hs.typeUuid = .switch := by
    obtain ⟨s, aid', rfl⟩ := h
    rw [freshAcc_eq]
    simp
  have hsplit : (base.servs ++ news).zipIdx = base.servs.zipIdx ++ news.zipIdx 2 := by
    rw [List.zipIdx_append, h.length_servs]
  unfold switchServs
  show ((addModules base ms).servs.zipIdx.filter _).map _ = _
  rw [hnews, hsplit, List.filter_append, List.filter_eq_nil_iff.2, List.filter_eq_self.2,
    List.nil_append, ← hlen, ← List.zipIdx_map_snd, List.map_map]
  · rfl
  · intro p hp
    exact decide_eq_true (htype p.1 (List.fst_mem_of_mem_zipIdx hp))
  · intro p hp
    simpa using hold p.1 (List.fst_mem_of_mem_zipIdx hp)

theorem Completed.allLinked {a : AccPtr} {base : HapAcc} {ms : List ModuleT}
    (h : Completed t a base ms) : AllLinked t.moduleNum t := by
  refine ⟨rfl, a, _, h.primaryAcc, h.acc, ?_⟩
  have hlen : ms.length = maxModuleNum := by
    have := congrArg List.length h.slots
    simpa using this.symm
  have htake : (ms.take t.moduleNum).length = t.moduleNum := by
    have := h.num_le
    simp
    omega
  rw [h.new.switchServs_addModules, htake, linked, h.slots]
  refine List.ext_getElem? fun i => ?_
  rw [List.map_map, List.getElem?_map, List.getElem?_map, List.getElem?_take, List.getElem?_mapIdx]
  by_cases hi : i < t.moduleNum
  · have hilt : i < ms.length := by
      have := h.num_le
      omega
    rw [if_pos hi, List.getElem?_range' hi, List.getElem?_eq_getElem hilt]
    simp [pointTo, hi]
  · rw [if_neg hi, List.getElem?_eq_none (by simpa using hi)]
    rfl

/-- **A link sequence survives the live check** exactly if no step of the check between its
messages removes the modules. -/
theorem linkSurvives_iff {total : Nat} {ps : List (UInt32 × LinkFields)} {es : List Event}
    (s : State) (hms : InOrder total total (ps.map Prod.snd)) (hI : Interleaved k ps es) :
    (∃ t, Trace.run step s es = .ok t ∧ AllLinked total t) ↔
      EachStep step (KeepsModules k) s es := by
  obtain ⟨t, a, base, ms, ht, hcomp, -, hkeep⟩ := run_interleaved (c := 0) (s := s) hI hms
    (fun hne => absurd rfl hne) (fun _ => rfl) (by omega)
  rw [Nat.zero_add] at hkeep
  rw [← hkeep]
  constructor
  · rintro ⟨u, hu, hall⟩
    rw [ht] at hu
    cases hu
    exact hall.1
  · intro hnum
    exact ⟨t, ht, hnum ▸ hcomp.allLinked⟩

/-- Two modules link while a live check waits for the first link: it leaves them alone. -/
theorem linkSurvives_iff_waiting :
    ∃ s t, Trace.run step State.bootDefault [.uart 0 .samd21Init] = .ok s ∧
      Trace.run step s [linkEvent (0, ⟨2, 2, [0x62], 0, true⟩), .live 0,
        linkEvent (0, ⟨2, 1, [0x61], 0, false⟩)] = .ok t ∧ AllLinked 2 t := by
  obtain ⟨s, hs, hcheck⟩ := exists_of_okAnd
    (x := Trace.run step State.bootDefault [.uart 0 .samd21Init])
    (p := fun s => okAnd (step s (linkEvent (0, ⟨2, 2, [0x62], 0, true⟩))) fun t =>
      ¬ t.LiveRemoves 0) (by decide +kernel)
  obtain ⟨u, hu, hcheck⟩ := exists_of_okAnd hcheck
  have hms : InOrder 2 2 ([((0 : UInt32), (⟨2, 2, [0x62], 0, true⟩ : LinkFields)),
      (0, ⟨2, 1, [0x61], 0, false⟩)].map Prod.snd) := by
    refine ⟨rfl, fun m hm => ?_, le_rfl, by decide⟩
    simp only [List.map_cons, List.map_nil, List.mem_cons, List.not_mem_nil, or_false] at hm
    rcases hm with rfl | rfl <;> rfl
  have hI : Interleaved 0 [((0 : UInt32), (⟨2, 2, [0x62], 0, true⟩ : LinkFields)),
      (0, ⟨2, 1, [0x61], 0, false⟩)] _ := .next _ 1 (.last _)
  have hkeep : EachStep step (KeepsModules 0) s [linkEvent (0, ⟨2, 2, [0x62], 0, true⟩), .live 0,
      linkEvent (0, ⟨2, 1, [0x61], 0, false⟩)] := by
    refine eachStep_cons.2 ⟨keepsModules_linkEvent _, fun v hv => eachStep_cons.2 ⟨fun _ => ?_,
      fun _ _ => eachStep_cons.2 ⟨keepsModules_linkEvent _, fun _ _ => eachStep_nil⟩⟩⟩
    rw [hu] at hv
    cases hv
    exact of_decide_eq_true hcheck
  obtain ⟨t, ht, hall⟩ := (linkSurvives_iff s hms hI).2 hkeep
  exact ⟨s, t, hs, ht, hall⟩

/-- A live check has asked an only module and got no answer yet; two modules link instead, and
its test comes between their messages: one module is counted. -/
theorem not_allLinked_unanswered :
    ∃ s t, Trace.run step State.bootDefault [.uart 0 .samd21Init,
        linkEvent (0, ⟨1, 1, [0x61], 0, true⟩), .live 0, .live 0, .live 0] = .ok s ∧
      InOrder 2 2 [⟨2, 2, [0x62], 0, true⟩, ⟨2, 1, [0x61], 0, false⟩] ∧
      Interleaved 0 [(0, ⟨2, 2, [0x62], 0, true⟩), (0, ⟨2, 1, [0x61], 0, false⟩)]
        [linkEvent (0, ⟨2, 2, [0x62], 0, true⟩), .live 0,
          linkEvent (0, ⟨2, 1, [0x61], 0, false⟩)] ∧
      Trace.run step s [linkEvent (0, ⟨2, 2, [0x62], 0, true⟩), .live 0,
        linkEvent (0, ⟨2, 1, [0x61], 0, false⟩)] = .ok t ∧
      t.systemStatus.moduleInitialized = true ∧ ¬ AllLinked 2 t := by
  obtain ⟨s, hs, hcheck⟩ := exists_of_okAnd (x := Trace.run step State.bootDefault
      [.uart 0 .samd21Init, linkEvent (0, ⟨1, 1, [0x61], 0, true⟩), .live 0, .live 0, .live 0])
    (p := fun s => okAnd (Trace.run step s [linkEvent (0, ⟨2, 2, [0x62], 0, true⟩), .live 0,
        linkEvent (0, ⟨2, 1, [0x61], 0, false⟩)]) fun t =>
      t.systemStatus.moduleInitialized = true ∧ t.moduleNum = 1) (by decide +kernel)
  obtain ⟨t, ht, hcheck⟩ := exists_of_okAnd hcheck
  obtain ⟨hinit, hnum⟩ := of_decide_eq_true hcheck
  refine ⟨s, t, hs, ⟨rfl, fun m hm => ?_, le_rfl, by decide⟩, .next _ 1 (.last _), ht, hinit, ?_⟩
  · simp only [List.mem_cons, List.not_mem_nil, or_false] at hm
    rcases hm with rfl | rfl <;> rfl
  · intro hall
    exact absurd (hnum.symm.trans hall.1) (by decide)

end NinaHomekit
