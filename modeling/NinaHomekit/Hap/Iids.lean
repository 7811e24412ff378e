import NinaHomekit.Hap.Database

/-!
# Instance ids and pointers into the database

* `HapAcc.Numbered` — the ids of an accessory are `1, 2, …`, in the order the objects
  were added; `hapAccAddServ` and `hapAccCreate` see to it.
* `HapAcc.Numbered.char_inj` — **an id names one characteristic.**
* `char?_modifyChar`, `map_accs_modifyChar` — a write through a pointer changes that
  characteristic only.
* `charUpdateVal_spec` — an update of a value, which is then there.
* `HapAcc.core`, `SameCore` — an accessory without the notes about the controllers; what the
  HTTP handlers write is outside it.
-/

namespace NinaHomekit

/-- A write that keeps `g` of what it writes to. -/
theorem map_modify_of_eq {α β : Type*} {f : α → α} {g : α → β} (h : ∀ a, g (f a) = g a)
    {l : List α} {i : Nat} : (l.modify i f).map g = l.map g := by
  refine List.ext_getElem? fun j => ?_
  simp only [List.getElem?_map, List.getElem?_modify]
  rcases l[j]? with _ | a
  · rfl
  · by_cases hij : i = j <;> simp [hij, h]

/-- Two writes that agree on what is there. -/
theorem modify_congr {α : Type*} {f g : α → α} {l : List α} {i : Nat} {a : α}
    (h : l[i]? = some a) (hfg : f a = g a) : l.modify i f = l.modify i g := by
  refine List.ext_getElem? fun j => ?_
  rw [List.getElem?_modify, List.getElem?_modify]
  by_cases hij : i = j
  · subst hij
    simp [h, hfg]
  · simp [hij]

/-! ## Numbering -/

/-- The ids of a service and of its characteristics. -/
def HapServ.iids (hs : HapServ) : List Nat := hs.iid :: hs.chars.map HapChar.iid

/-- The ids of everything in an accessory. -/
def HapAcc.iids (ha : HapAcc) : List Nat := ha.servs.flatMap HapServ.iids

/-- The ids are those handed out so far, in order. -/
def HapAcc.Numbered (ha : HapAcc) : Prop :=
  1 ≤ ha.nextIid ∧ ha.iids = List.range' 1 (ha.nextIid - 1)

theorem map_iid_numberChars (n : Nat) (hcs : List HapChar) :
    (numberChars n hcs).map HapChar.iid = List.range' n hcs.length := by
  induction hcs generalizing n with
  | nil => rfl
  | cons hc hcs ih => simp [numberChars, ih, List.range'_succ]

@[simp] theorem length_numberChars (n : Nat) (hcs : List HapChar) :
    (numberChars n hcs).length = hcs.length := by
  simpa using congrArg List.length (map_iid_numberChars n hcs)

theorem getElem?_numberChars (n : Nat) (hcs : List HapChar) (i : Nat) :
    (numberChars n hcs)[i]? = hcs[i]?.map fun hc => { hc with iid := n + i } := by
  induction hcs generalizing n i with
  | nil => simp [numberChars]
  | cons hc hcs ih =>
    cases i with
    | zero => simp [numberChars]
    | succ i => simp [numberChars, ih, Nat.add_assoc, Nat.add_comm 1 i]

theorem HapAcc.Numbered.addServ {ha : HapAcc} (h : ha.Numbered) (hs : HapServ) :
    (hapAccAddServ ha hs).Numbered := by
  obtain ⟨h1, hiids⟩ := h
  refine ⟨by simp [hapAccAddServ]; omega, ?_⟩
  have hnew : (hapAccAddServ ha hs).iids =
      ha.iids ++ List.range' ha.nextIid (1 + hs.chars.length) := by
    simp [hapAccAddServ, HapAcc.iids, HapServ.iids, map_iid_numberChars, Nat.add_comm 1,
      List.range'_succ]
  rw [hnew, hiids]
  have happ : List.range' 1 (ha.nextIid - 1) ++
      List.range' (1 + (ha.nextIid - 1)) (1 + hs.chars.length) = _ := List.range'_append_1
  rw [show 1 + (ha.nextIid - 1) = ha.nextIid by omega] at happ
  rw [happ]
  congr 1
  simp [hapAccAddServ]
  omega

theorem numbered_nil (aid : Nat) : (⟨aid, [], 1, false⟩ : HapAcc).Numbered := ⟨le_rfl, rfl⟩

/-- The two services every accessory starts with are numbered. -/
theorem numbered_of_hapAccCreate {cfg : HapAccCfg} {ha : HapAcc}
    (h : hapAccCreate cfg = some ha) : ha.Numbered := by
  unfold hapAccCreate at h
  split at h
  · split at h
    · cases h
      exact ((numbered_nil 0).addServ _).addServ _
    · cases h
  · cases h

theorem HapAcc.Numbered.nodup {ha : HapAcc} (h : ha.Numbered) : ha.iids.Nodup := by
  rw [h.2]
  exact List.nodup_range'

/-- **An id names one characteristic.** -/
theorem HapAcc.Numbered.char_inj {ha : HapAcc} (h : ha.Numbered) {i j c d : Nat}
    {hs ht : HapServ} {hc hd : HapChar} (hi : ha.servs[i]? = some hs)
    (hci : hs.chars[c]? = some hc) (hj : ha.servs[j]? = some ht)
    (hdj : ht.chars[d]? = some hd) (heq : hc.iid = hd.iid) : i = j ∧ c = d := by
  obtain ⟨hserv, hpair⟩ := List.nodup_flatMap.1 h.nodup
  have hmem : ∀ {k : Nat} {s : HapServ} {e : Nat} {x : HapChar}, s.chars[e]? = some x →
      x.iid ∈ s.iids := fun hx =>
    List.mem_cons_of_mem _ (List.mem_map_of_mem (List.mem_of_getElem? hx))
  rcases lt_trichotomy i j with hlt | rfl | hlt
  · have hdis := List.pairwise_iff_getElem.1 hpair i j (List.getElem?_eq_some_iff.1 hi).1
      (List.getElem?_eq_some_iff.1 hj).1 hlt
    rw [(List.getElem?_eq_some_iff.1 hi).2, (List.getElem?_eq_some_iff.1 hj).2] at hdis
    exact absurd (heq ▸ hmem (k := j) hdj) (hdis (hmem (k := i) hci))
  · rw [hi] at hj
    cases hj
    have hnd := (List.nodup_cons.1 (hserv hs (List.mem_of_getElem? hi))).2
    refine ⟨rfl, (@List.Nodup.getElem_inj_iff _ _ hnd c ?_ d ?_).1 ?_⟩
    · simpa using (List.getElem?_eq_some_iff.1 hci).1
    · simpa using (List.getElem?_eq_some_iff.1 hdj).1
    · simpa [(List.getElem?_eq_some_iff.1 hci).2, (List.getElem?_eq_some_iff.1 hdj).2] using heq
  · have hdis := List.pairwise_iff_getElem.1 hpair j i (List.getElem?_eq_some_iff.1 hj).1
      (List.getElem?_eq_some_iff.1 hi).1 hlt
    rw [(List.getElem?_eq_some_iff.1 hi).2, (List.getElem?_eq_some_iff.1 hj).2] at hdis
    exact absurd (hmem (k := i) hci) (heq ▸ hdis (hmem (k := j) hdj))

/-! ## Writes through a pointer -/

namespace HapDb

variable {db : HapDb} {p q : CharPtr} {f : HapChar → HapChar}

theorem char?_eq_some {hc : HapChar} :
    db.char? p = some hc ↔ ∃ ha hs, db.accs[p.acc]? = some ha ∧ ha.servs[p.serv]? = some hs ∧
      hs.chars[p.char]? = some hc := by
  simp [char?, Option.bind_eq_some_iff]

theorem char?_modifyChar (db : HapDb) (p q : CharPtr) (f : HapChar → HapChar) :
    (db.modifyChar p f).char? q = if p = q then (db.char? q).map f else db.char? q := by
  obtain ⟨pa, ps, pc⟩ := p
  obtain ⟨qa, qs, qc⟩ := q
  simp only [char?, modifyChar, List.getElem?_modify, CharPtr.mk.injEq]
  rcases hacc : db.accs[qa]? with _ | ha
  · simp
  by_cases ha' : pa = qa
  · rcases hserv : ha.servs[qs]? with _ | hs
    · simp [ha', List.getElem?_modify, hserv]
    by_cases hs' : ps = qs
    · simp [ha', hs', List.getElem?_modify, hserv]
      by_cases hc' : pc = qc <;> simp [hc']
    · simp [ha', hs', hserv]
  · simp [ha']

@[simp] theorem primaryAcc_modifyChar : (db.modifyChar p f).primaryAcc = db.primaryAcc := rfl

/-- What a write through a pointer leaves alone in each accessory. -/
theorem map_accs_modifyChar {α : Type} (g : HapAcc → α)
    (hg : ∀ ha servs, g { ha with servs := servs } = g ha) :
    (db.modifyChar p f).accs.map g = db.accs.map g :=
  map_modify_of_eq fun ha => hg ha _

theorem modifyChar_congr {g : HapChar → HapChar} {hc : HapChar} (h : db.char? p = some hc)
    (hfg : f hc = g hc) : db.modifyChar p f = db.modifyChar p g := by
  obtain ⟨ha, hs, hacc, hserv, hchar⟩ := char?_eq_some.1 h
  unfold modifyChar
  rw [modify_congr hacc]
  rw [modify_congr hserv]
  rw [modify_congr hchar hfg]

/-- A write that keeps the id of its characteristic keeps all numbers. -/
theorem map_iids_modifyChar {hc hd : HapChar} (h : db.char? p = some hc) (heq : hd.iid = hc.iid) :
    ((db.modifyChar p fun _ => hd).accs.map fun ha => (ha.aid, ha.nextIid, ha.iids)) =
      db.accs.map fun ha => (ha.aid, ha.nextIid, ha.iids) := by
  have hsame : { hd with iid := hc.iid } = hd := by rw [← heq]
  rw [modifyChar_congr h (g := fun c => { hd with iid := c.iid }) hsame.symm]
  refine map_modify_of_eq fun ha => ?_
  have hserv : ∀ hs : HapServ, HapServ.iids { hs with
      chars := hs.chars.modify p.char fun c => { hd with iid := c.iid } } = hs.iids := by
    intro hs
    refine congrArg (hs.iid :: ·) ?_
    apply map_modify_of_eq
    intro c
    rfl
  have hiids : (ha.servs.modify p.serv fun hs => { hs with
      chars := hs.chars.modify p.char fun c => { hd with iid := c.iid } }).flatMap HapServ.iids =
      ha.servs.flatMap HapServ.iids := by
    rw [List.flatMap_def, List.flatMap_def, map_modify_of_eq hserv]
  exact congrArg (fun iids => (ha.aid, ha.nextIid, iids)) hiids

theorem char?_of_accs {db' : HapDb} (h : db'.accs = db.accs) (q : CharPtr) :
    db'.char? q = db.char? q := by
  unfold char?
  rw [h]

theorem primaryAcc_queueEvent (db : HapDb) (hc : CharPtr) :
    (db.queueEvent hc).primaryAcc = db.primaryAcc := by
  unfold queueEvent
  split <;> rfl

theorem accs_queueEvent (db : HapDb) (hc : CharPtr) : (db.queueEvent hc).accs = db.accs := by
  unfold queueEvent
  split <;> rfl

/-- **An update of a value** writes to that characteristic, and the value is then there. -/
theorem charUpdateVal_spec {hc : HapChar} (h : db.char? p = some hc) (val : HapVal) :
    ∃ hd : HapChar, hd.val = val ∧ hd.iid = hc.iid ∧ hd.typeUuid = hc.typeUuid ∧
      hd.permission = hc.permission ∧
      (db.charUpdateVal (some p) val).accs = (db.modifyChar p fun _ => hd).accs ∧
      (db.charUpdateVal (some p) val).primaryAcc = db.primaryAcc := by
  unfold charUpdateVal
  simp only [h]
  by_cases hsame : hc.val ≠ val ∨ hc.hasPermission hapCharPermSpecialRead = true
  · rw [if_pos hsame, accs_queueEvent, primaryAcc_queueEvent]
    refine ⟨{ hc with val := val, updateCalled := true }, rfl, rfl, rfl, rfl, ?_, rfl⟩
    exact congrArg accs (modifyChar_congr h rfl)
  · rw [if_neg hsame]
    push Not at hsame
    refine ⟨{ hc with ownerCtrl := 0, updateCalled := true }, hsame.1, rfl, rfl, rfl, ?_, rfl⟩
    exact congrArg accs (modifyChar_congr h rfl)

/-- An update through a pointer to nothing changes nothing. -/
theorem charUpdateVal_of_none {hc : Option CharPtr} (h : ∀ p, hc = some p → db.char? p = none)
    (val : HapVal) : db.charUpdateVal hc val = db := by
  cases hc with
  | none => rfl
  | some p =>
    unfold charUpdateVal
    simp only [h p rfl]

/-- What an update leaves alone in each accessory. -/
theorem map_accs_charUpdateVal {α : Type} (g : HapAcc → α)
    (hg : ∀ ha servs, g { ha with servs := servs } = g ha) (db : HapDb) (hc : Option CharPtr)
    (val : HapVal) : (db.charUpdateVal hc val).accs.map g = db.accs.map g ∧
      (db.charUpdateVal hc val).primaryAcc = db.primaryAcc := by
  cases hc with
  | none => exact ⟨rfl, rfl⟩
  | some p =>
    rcases Option.eq_none_or_eq_some (db.char? p) with hnone | ⟨hc, hsome⟩
    · rw [charUpdateVal_of_none (by intro q hq; cases hq; exact hnone)]
      exact ⟨rfl, rfl⟩
    · obtain ⟨hd, -, -, -, -, haccs, hprim⟩ := charUpdateVal_spec hsome val
      rw [haccs, hprim]
      exact ⟨map_accs_modifyChar g hg, rfl⟩

/-- Whether the primary accessory was deleted is up to the marks. -/
theorem primaryDeleted_congr {db' : HapDb} (hprim : db'.primaryAcc = db.primaryAcc)
    (hdel : db'.accs.map HapAcc.deleted = db.accs.map HapAcc.deleted) :
    db'.primaryDeleted = db.primaryDeleted := by
  have hany : ∀ o : Option HapAcc, o.any (·.deleted) = (o.map HapAcc.deleted).any id := by
    intro o
    cases o <;> rfl
  unfold primaryDeleted
  rw [hprim]
  congr 1
  funext a
  rw [hany, hany, ← List.getElem?_map, ← List.getElem?_map, hdel]

/-! ## The core of the database -/

end HapDb

/-- A characteristic without the notes about the controllers. -/
def HapChar.core (hc : HapChar) : HapChar :=
  { hc with evCtrls := 0, ownerCtrl := 0, updateCalled := false }

def HapServ.core (hs : HapServ) : HapServ := { hs with chars := hs.chars.map HapChar.core }

def HapAcc.core (ha : HapAcc) : HapAcc := { ha with servs := ha.servs.map HapServ.core }

/-- The databases differ in the notes about the controllers and in the queued events only. -/
structure SameCore (db db' : HapDb) : Prop where
  accs : db'.accs.map HapAcc.core = db.accs.map HapAcc.core
  primaryAcc : db'.primaryAcc = db.primaryAcc

namespace SameCore

variable {db db' db'' : HapDb}

theorem refl (db : HapDb) : SameCore db db := ⟨rfl, rfl⟩

theorem trans (h : SameCore db db') (h' : SameCore db' db'') : SameCore db db'' :=
  ⟨h'.accs.trans h.accs, h'.primaryAcc.trans h.primaryAcc⟩

/-- A write that leaves the core of its characteristic alone. -/
theorem modifyChar (db : HapDb) (p : CharPtr) {f : HapChar → HapChar}
    (hf : ∀ hc, (f hc).core = hc.core) : SameCore db (db.modifyChar p f) := by
  refine ⟨map_modify_of_eq fun ha => ?_, rfl⟩
  have hserv : ∀ hs : HapServ,
      HapServ.core { hs with chars := hs.chars.modify p.char f } = hs.core := fun hs =>
    congrArg (fun chars => { hs with chars := chars }) (map_modify_of_eq hf)
  exact congrArg (fun servs => { ha with servs := servs }) (map_modify_of_eq hserv)

/-- What is read from the core of the accessories is the same. -/
theorem map_eq (h : SameCore db db') {α : Type} (g : HapAcc → α)
    (hg : ∀ ha, g ha = g ha.core) : db'.accs.map g = db.accs.map g := by
  have hcore : ∀ accs : List HapAcc, accs.map g = (accs.map HapAcc.core).map g := by
    intro accs
    rw [List.map_map]
    exact List.map_congr_left fun ha _ => hg ha
  rw [hcore, hcore db.accs, h.accs]

/-- What is found in an accessory of the core is found in that of the other database. -/
theorem map_getElem? (h : SameCore db db') (i : Nat) :
    (db'.accs[i]?).map HapAcc.core = (db.accs[i]?).map HapAcc.core := by
  rw [← List.getElem?_map, h.accs, List.getElem?_map]

end SameCore

namespace HapDb

variable {db db' : HapDb}

/-- A service is found in the core of its accessory. -/
theorem map_serv? (db : HapDb) (hs : ServPtr) :
    (db.serv? hs).map HapServ.core =
      ((db.accs[hs.acc]?).map HapAcc.core).bind fun ha => ha.servs[hs.serv]? := by
  unfold serv?
  rcases db.accs[hs.acc]? with _ | ha
  · rfl
  · simp [HapAcc.core]

/-- A characteristic is found in the core of its accessory. -/
theorem map_char? (db : HapDb) (hc : CharPtr) :
    (db.char? hc).map HapChar.core =
      ((db.accs[hc.acc]?).map HapAcc.core).bind fun ha =>
        (ha.servs[hc.serv]?).bind fun hs => hs.chars[hc.char]? := by
  unfold char?
  rcases db.accs[hc.acc]? with _ | ha
  · rfl
  · rcases hserv : ha.servs[hc.serv]? with _ | hs
    · simp [HapAcc.core, hserv]
    · simp [HapAcc.core, HapServ.core, hserv]

theorem findCharByIid_map_core (ha : AccPtr) (iid : Int) (i : Nat) (servs : List HapServ) :
    findCharByIid ha iid i (servs.map HapServ.core) = findCharByIid ha iid i servs := by
  induction servs generalizing i with
  | nil => rfl
  | cons hs servs ih =>
    have hfind : hapServGetCharByIid hs.core iid = hapServGetCharByIid hs iid := by
      unfold hapServGetCharByIid
      rw [show hs.core.chars = hs.chars.map HapChar.core from rfl, List.findIdx?_map]
      rfl
    rw [List.map_cons, findCharByIid, findCharByIid, hfind, ih]

end HapDb

namespace SameCore

variable {db db' : HapDb}

theorem map_serv? (h : SameCore db db') (hs : ServPtr) :
    (db'.serv? hs).map HapServ.core = (db.serv? hs).map HapServ.core := by
  rw [HapDb.map_serv?, HapDb.map_serv?, h.map_getElem?]

theorem map_char? (h : SameCore db db') (hc : CharPtr) :
    (db'.char? hc).map HapChar.core = (db.char? hc).map HapChar.core := by
  rw [HapDb.map_char?, HapDb.map_char?, h.map_getElem?]

theorem exists_char? (h : SameCore db db') {hc : CharPtr} {c : HapChar}
    (hsome : db.char? hc = some c) : ∃ d, db'.char? hc = some d ∧ d.core = c.core := by
  have hcore := h.map_char? hc
  rw [hsome] at hcore
  exact Option.map_eq_some_iff.1 hcore

/-- What is read from the core of a characteristic is the same. -/
theorem map_char?_eq (h : SameCore db db') (hc : CharPtr) {β : Type} (g : HapChar → β)
    (hg : ∀ c, g c.core = g c) : (db'.char? hc).map g = (db.char? hc).map g := by
  have hcore : ∀ o : Option HapChar, o.map g = (o.map HapChar.core).map g := by
    intro o
    cases o with
    | none => rfl
    | some c => exact congrArg some (hg c).symm
  rw [hcore, h.map_char?, ← hcore]

theorem primaryDeleted (h : SameCore db db') : db'.primaryDeleted = db.primaryDeleted :=
  HapDb.primaryDeleted_congr h.primaryAcc (h.map_eq HapAcc.deleted fun _ => rfl)

theorem accGetByAid (h : SameCore db db') (aid : Int) :
    db'.accGetByAid aid = db.accGetByAid aid := by
  unfold HapDb.accGetByAid
  rw [h.primaryAcc]
  congr 1
  funext ha
  have hany : ∀ o : Option HapAcc, (o.any fun acc => decide ((acc.aid : Int) = aid)) =
      (o.map HapAcc.core).any fun acc => decide ((acc.aid : Int) = aid) := by
    intro o
    cases o <;> rfl
  rw [hany, h.map_getElem?, ← hany]

/-- The search for a characteristic only looks at the core. -/
theorem accGetCharByIid (h : SameCore db db') (ha : Option AccPtr) (iid : Int) :
    db'.accGetCharByIid ha iid = db.accGetCharByIid ha iid := by
  cases ha with
  | none => rfl
  | some ha =>
    have hfind : ∀ db : HapDb, db.accGetCharByIid (some ha) iid =
        ((db.accs[ha]?).map HapAcc.core).bind fun acc => HapDb.findCharByIid ha iid 0 acc.servs := by
      intro db
      show ((db.accs[ha]?).bind fun acc => HapDb.findCharByIid ha iid 0 acc.servs) = _
      rcases db.accs[ha]? with _ | acc
      · rfl
      · exact (HapDb.findCharByIid_map_core ha iid 0 acc.servs).symm
    rw [hfind, hfind, h.map_getElem?]

end SameCore

end NinaHomekit
