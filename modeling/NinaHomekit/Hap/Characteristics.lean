import NinaHomekit.Hap.Accessories
import NinaHomekit.Lib.Strsep

/-!
# `GET /characteristics` and the objects with a status

* `atoi`, `idLoop` — the loop that cuts `id=1.9,1.12` into numbers.  It takes the second token of a
  pair to be there.
* `hapSetCharReportStatus`, `statusMessage` — what `PUT /characteristics` writes about the items
  that failed.
* `hapHttpGetCharacteristics` — the handler, from the value of `id` on.
* `charsJson` — the value of a response.
* `hapHttpGetCharacteristics_eq` — **a response is a text of it, and a list of ids whose last one
  has no instance id crashes.**
-/

namespace NinaHomekit

open Trace JsonGen State Strsep

/-! ## The ids -/

def isSpace (c : UInt8) : Bool := c = 0x20 ∨ 9 ≤ c ∧ c ≤ 13

def isDigit (c : UInt8) : Bool := 0x30 ≤ c ∧ c ≤ 0x39

/-- `atoi`, which is `strtol` with a `long` of 32 bits: it stops where the digits do, and stays in
range. -/
def atoi (s : CStr) : Int :=
  let s := s.dropWhile isSpace
  let (negative, s) := match s with
    | 0x2D :: s => (true, s)
    | 0x2B :: s => (false, s)
    | s => (false, s)
  let n : Nat := (s.takeWhile isDigit).foldl (fun n c => 10 * n + (c.toNat - 0x30)) 0
  if negative then max (-2 ^ 31) (-(n : Int)) else min (2 ^ 31 - 1) n

/-- The loop over the value of `id`, with what is done with each pair of numbers. -/
def idLoop {α : Type} (body : α → Int → Int → Except Fault α) :
    Nat → Option CStr → α → Except Fault α
  | 0, _, a => .ok a
  | fuel + 1, valPtr, a =>
    match strsep 0x2E valPtr with
    | (none, _) => .ok a
    | (some aid, valPtr) =>
      match strsep 0x2C valPtr with
      | (none, _) => .error .nullDeref
      | (some iid, valPtr) => do
        let a ← body a (atoi aid) (atoi iid)
        idLoop body fuel valPtr a

/-! ## The objects with a status -/

def hapStatusRdOnWronly : Int := -70405

/-- `"status"` -/
def keyStatus : CStr := [0x73, 0x74, 0x61, 0x74, 0x75, 0x73]

/-- An object with a status. -/
def addReport (g : JsonGen) (r : StatusReport) : JsonGen :=
  let g := g.jsonGenStartObject
  let g := g.jsonGenObjSetInt keyAid r.aid
  let g := g.jsonGenObjSetInt keyIid r.iid
  let g := g.jsonGenObjSetInt keyStatus r.status
  g.jsonGenEndObject

/-- `hap_set_char_report_status`, with `include_status`. -/
def hapSetCharReportStatus (s : Bool × JsonGen) (r : StatusReport) : Bool × JsonGen :=
  let g := if s.1 then s.2 else s.2.jsonGenStartObject.jsonGenPushArray keyCharacteristics
  (true, addReport g r)

/-- The size of `outbuf`. -/
def outbufSize : Nat := 512

/-- What `hap_http_handle_set_char` sends: nothing, unless there is something to report. -/
def statusMessage (report : List StatusReport) : List CStr :=
  let (includeStatus, g) := report.foldl hapSetCharReportStatus (false, jsonGenStrStart outbufSize true)
  if includeStatus then g.jsonGenPopArray.jsonGenEndObject.jsonGenStrEnd else []

/-! ## The handler -/

/-- The parameters of the query. -/
structure CharQuery where
  type : Bool
  perms : Bool
  ev : Bool
  withMeta : Bool

/-- The variables of the loop over the ids. -/
structure GetLoop where
  db : HapDb
  readArr : List CharPtr
  report : List StatusReport

/-- What the loop finds for an id: a characteristic to read, or a status. -/
def HapDb.readable (db : HapDb) (aid iid : Int) : Except Int CharPtr :=
  match db.accGetCharByIid (db.accGetByAid aid) iid with
  | none => .error hapStatusResAbsent
  | some hc =>
    if (db.char? hc).any (·.hasPermission hapCharPermPR) then .ok hc else .error hapStatusRdOnWronly

/-- The body of the loop over the ids; `read_arr` has room for `charCnt`. -/
def getItem (index charCnt : Nat) (l : GetLoop) (aid iid : Int) : Except Fault GetLoop :=
  if l.db.primaryDeleted then .error .freedDeref
  else
    match l.db.readable aid iid with
    | .error status => .ok { l with report := l.report ++ [⟨aid, iid, status⟩] }
    | .ok hc =>
      if l.readArr.length < charCnt then
        .ok { l with
          db := l.db.modifyChar hc (·.toRead index)
          readArr := l.readArr ++ [hc] }
      else .error (.outOfBounds l.readArr.length)

/-- The object of the response for a characteristic that was read. -/
def addReadItem (q : CharQuery) (index : Nat) (includeStatus : Bool) (g : JsonGen) (aid : Nat)
    (hc : HapChar) : JsonGen :=
  let g := g.jsonGenStartObject
  let g := g.jsonGenObjSetInt keyAid aid
  let g := g.jsonGenObjSetInt keyIid hc.iid
  let g := if hc.hasPermission hapCharPermSpecialRead then g.jsonGenObjSetNull keyValue
    else hapAddCharValJson g keyValue hc.val
  let g := if includeStatus then g.jsonGenObjSetInt keyStatus hapStatusSuccess else g
  let g := if q.type then g.jsonGenObjSetString keyType hc.typeUuid.text else g
  let g := if q.perms then hapAddCharPerms g hc else g
  let g := if q.ev then g.jsonGenObjSetBool keyEv (hc.isCtrlSubscribed index) else g
  let g := if q.withMeta then g.jsonGenObjSetString keyFormat hc.format.text else g
  g.jsonGenEndObject

/-- The body of the loop over `read_arr`. -/
def readItem (q : CharQuery) (index : Nat) (includeStatus : Bool) (s : JsonGen × HapDb)
    (hc : CharPtr) : Except Fault (JsonGen × HapDb) :=
  match s.2.accs[hc.acc]?, s.2.char? hc with
  | some ha, some c =>
    .ok (addReadItem q index includeStatus s.1 ha.aid c, s.2.modifyChar hc HapChar.afterRead)
  | _, _ => .error .nullDeref

/-- What the handler sends, with the status, and the database it leaves. -/
structure GetCharResult where
  status : Nat
  chunks : List CStr
  db : HapDb

/-- `hap_http_get_characteristics` for the session `index`, once it has the value of `id`. -/
def hapHttpGetCharacteristics (db : HapDb) (index : Nat) (q : CharQuery) (val : CStr) :
    Except Fault GetCharResult := do
  let charCnt := val.count 0x2C + 1
  let l ← idLoop (getItem index charCnt) (val.length + 1) (some val) ⟨db, [], []⟩
  let (includeStatus, g) :=
    l.report.foldl hapSetCharReportStatus (false, jsonGenStrStart outbufSize true)
  let g := if l.readArr ≠ [] ∧ !includeStatus then
    g.jsonGenStartObject.jsonGenPushArray keyCharacteristics else g
  let (g, db) ← l.readArr.foldlM (readItem q index includeStatus) (g, l.db)
  let g := g.jsonGenPopArray.jsonGenEndObject
  return ⟨if l.readArr ≠ [] ∧ !includeStatus then 200 else 207, g.jsonGenStrEnd, db⟩

/-! ## The ids that are read -/

variable {α : Type} {body : α → Int → Int → Except Fault α} {val : CStr} {fuel : Nat}

/-- The pairs of numbers in the value of `id`. -/
def idPairs (val : CStr) : List (Int × Int) :=
  (pairs 0x2E 0x2C (val.length + 1) (some val)).1.map fun p => (atoi p.1, atoi p.2)

/-- The last id has an instance id. -/
def EndsInPair (val : CStr) : Prop := ∃ l r, val = l ++ 0x2E :: r ∧ 0x2C ∉ r

/-- What comes after the pairs. -/
def afterPairs (complete : Bool) (a : α) : Except Fault α :=
  if complete then .ok a else .error .nullDeref

theorem idLoop_eq (s : Option CStr) (a : α) : idLoop body fuel s a =
    ((pairs 0x2E 0x2C fuel s).1.foldlM (fun a p => body a (atoi p.1) (atoi p.2)) a >>=
      afterPairs (pairs 0x2E 0x2C fuel s).2) := by
  induction fuel generalizing s a with
  | zero => rfl
  | succ fuel ih =>
    unfold idLoop pairs
    rcases strsep 0x2E s with ⟨_ | aid, rest⟩
    · rfl
    · rcases hrest : strsep 0x2C rest with ⟨_ | iid, rest'⟩
      · simp only [hrest]
        rfl
      · simp only [hrest, List.foldlM_cons, bind_assoc]
        exact bind_congr fun a => ih rest' a

/-- **The loop** handles the pairs, and crashes if the last one is not complete. -/
theorem idLoop_val (a : α) : idLoop body (val.length + 1) (some val) a =
    ((idPairs val).foldlM (fun a id => body a id.1 id.2) a >>=
      afterPairs (pairs 0x2E 0x2C (val.length + 1) (some val)).2) := by
  rw [idLoop_eq, idPairs, List.foldlM_map]

theorem length_idPairs (val : CStr) : (idPairs val).length ≤ val.count 0x2C + 1 := by
  rw [idPairs, List.length_map]
  exact length_pairs_le

/-! ## What is found -/

/-- A characteristic without the note about its owner. -/
def HapChar.seen (hc : HapChar) : HapChar := { hc with ownerCtrl := 0, updateCalled := false }

/-- The databases differ in the owners only. -/
structure SameSeen (db db' : HapDb) : Prop where
  core : SameCore db db'
  seen : ∀ hc, (db'.char? hc).map HapChar.seen = (db.char? hc).map HapChar.seen
  eventQueue : db'.eventQueue = db.eventQueue

theorem SameSeen.refl (db : HapDb) : SameSeen db db := ⟨.refl db, fun _ => rfl, rfl⟩

theorem SameSeen.trans {db db' db'' : HapDb} (h : SameSeen db db') (h' : SameSeen db' db'') :
    SameSeen db db'' :=
  ⟨h.core.trans h'.core, fun hc => (h'.seen hc).trans (h.seen hc),
    h'.eventQueue.trans h.eventQueue⟩

theorem SameSeen.modifyChar (db : HapDb) (hc : CharPtr) {f : HapChar → HapChar}
    (hf : ∀ c, (f c).seen = c.seen) : SameSeen db (db.modifyChar hc f) := by
  have hcore : ∀ c : HapChar, (f c).core = c.core := by
    intro c
    have hc := congrArg HapChar.core (hf c)
    exact hc
  refine ⟨.modifyChar db hc hcore, fun hd => ?_, rfl⟩
  rw [HapDb.char?_modifyChar]
  split
  · cases db.char? hd with
    | none => rfl
    | some c => simp [hf]
  · rfl

/-- `GET /accessories` changes owners only. -/
theorem sameSeen_afterGet (db : HapDb) (index : Nat) : SameSeen db (db.afterGet index) := by
  refine ⟨sameCore_afterGet db index, fun hc => ?_, ?_⟩
  · have hseen : ∀ c : HapChar, (c.beforeRead index).afterRead.seen = c.seen := by
      intro c
      unfold HapChar.beforeRead
      split <;> rfl
    unfold HapDb.afterGet
    split
    · rfl
    · rename_i a _
      unfold HapDb.char?
      rw [List.getElem?_modify]
      rcases db.accs[hc.acc]? with _ | ha
      · rfl
      · rcases hserv : ha.servs[hc.serv]? with _ | hs
        · by_cases hacc : a = hc.acc <;> simp [hacc, HapAcc.afterGet, hserv]
        · cases hchar : hs.chars[hc.char]? <;> by_cases hacc : a = hc.acc <;>
            simp [hacc, HapAcc.afterGet, HapServ.afterGet, hserv, hchar, hseen]
  · unfold HapDb.afterGet
    split <;> rfl

theorem SameSeen.readable {db db' : HapDb} (h : SameSeen db db') (aid iid : Int) :
    db'.readable aid iid = db.readable aid iid := by
  unfold HapDb.readable
  rw [h.core.accGetByAid, h.core.accGetCharByIid]
  split
  · rfl
  · rename_i hc _
    have hany : ∀ o : Option HapChar, o.any (·.hasPermission hapCharPermPR) =
        (o.map HapChar.seen).any (·.hasPermission hapCharPermPR) := by
      intro o
      cases o <;> rfl
    rw [hany, h.seen, ← hany]

/-- The ids that are refused, with their statuses. -/
def HapDb.refusals (db : HapDb) (ids : List (Int × Int)) : List StatusReport :=
  ids.filterMap fun id => match db.readable id.1 id.2 with
    | .error status => some ⟨id.1, id.2, status⟩
    | .ok _ => none

/-- The characteristics that are read. -/
def HapDb.readArr (db : HapDb) (ids : List (Int × Int)) : List CharPtr :=
  ids.filterMap fun id => (db.readable id.1 id.2).toOption

theorem getItem_error {l : GetLoop} (index charCnt : Nat) {aid iid status : Int}
    (hlive : l.db.primaryDeleted = false) (hread : l.db.readable aid iid = .error status) :
    getItem index charCnt l aid iid = .ok { l with report := l.report ++ [⟨aid, iid, status⟩] } := by
  simp only [getItem, hlive, hread, Bool.false_eq_true, if_false]

theorem getItem_ok {l : GetLoop} (index : Nat) {charCnt : Nat} {aid iid : Int} {hc : CharPtr}
    (hlive : l.db.primaryDeleted = false) (hread : l.db.readable aid iid = .ok hc)
    (hroom : l.readArr.length < charCnt) : getItem index charCnt l aid iid = .ok { l with
      db := l.db.modifyChar hc (·.toRead index)
      readArr := l.readArr ++ [hc] } := by
  simp only [getItem, hlive, hread, hroom, Bool.false_eq_true, if_false, if_true]

/-- **The loop over the ids**: there is always room.  Induction on the ids. -/
theorem getItem_foldlM {db : HapDb} (index charCnt : Nat) {ids : List (Int × Int)} {l : GetLoop}
    (hlive : db.primaryDeleted = false) (hsame : SameSeen db l.db)
    (hroom : l.readArr.length + ids.length ≤ charCnt) :
    ∃ db', ids.foldlM (fun l id => getItem index charCnt l id.1 id.2) l =
        .ok ⟨db', l.readArr ++ db.readArr ids, l.report ++ db.refusals ids⟩ ∧ SameSeen db db' := by
  induction ids generalizing l with
  | nil =>
    refine ⟨l.db, ?_, hsame⟩
    simp only [HapDb.readArr, HapDb.refusals, List.filterMap_nil, List.append_nil]
    rfl
  | cons id ids ih =>
    rw [List.length_cons] at hroom
    have hlive' := hsame.core.primaryDeleted.trans hlive
    cases hread : db.readable id.1 id.2 with
    | error status =>
      have hitem := getItem_error index charCnt hlive'
        ((hsame.readable id.1 id.2).trans hread)
      obtain ⟨db', hloop, hsame'⟩ :=
        ih (l := { l with report := l.report ++ [⟨id.1, id.2, status⟩] }) hsame (by simp only; omega)
      refine ⟨db', ?_, hsame'⟩
      rw [List.foldlM_cons, hitem, ok_bind, hloop]
      simp [HapDb.readArr, HapDb.refusals, hread, Except.toOption]
    | ok hc =>
      have hitem := getItem_ok index hlive' ((hsame.readable id.1 id.2).trans hread)
        (show l.readArr.length < charCnt by omega)
      have hsame₁ : SameSeen l.db (l.db.modifyChar hc (·.toRead index)) := .modifyChar _ _ fun _ => rfl
      obtain ⟨db', hloop, hsame'⟩ := ih
        (l := ⟨l.db.modifyChar hc (·.toRead index), l.readArr ++ [hc], l.report⟩)
        (hsame.trans hsame₁)
        (by simp only [List.length_append, List.length_singleton]; omega)
      refine ⟨db', ?_, hsame'⟩
      rw [List.foldlM_cons, hitem, ok_bind, hloop]
      simp [HapDb.readArr, HapDb.refusals, hread, Except.toOption]

/-! ## The values -/

def StatusReport.json (r : StatusReport) : JsonVal :=
  .obj [(keyAid, intJson r.aid), (keyIid, intJson r.iid), (keyStatus, intJson r.status)]

/-- The body of a response about items that failed. -/
def reportJson (report : List StatusReport) : JsonVal :=
  .obj [(keyCharacteristics, .arr (report.map (·.json)))]

/-- A characteristic that was read. -/
def HapChar.readJson (q : CharQuery) (index : Nat) (includeStatus : Bool) (aid : Nat)
    (hc : HapChar) : JsonVal :=
  .obj <| [(keyAid, intJson aid), (keyIid, intJson hc.iid),
      (keyValue, if hc.hasPermission hapCharPermSpecialRead then .prim nullText else hc.val.json)] ++
    (if includeStatus then [(keyStatus, intJson hapStatusSuccess)] else []) ++
    (if q.type then [(keyType, .str hc.typeUuid.text)] else []) ++
    (if q.perms then [(keyPerms, hc.permsJson)] else []) ++
    (if q.ev then [(keyEv, .prim (boolText (hc.isCtrlSubscribed index)))] else []) ++
    (if q.withMeta then [(keyFormat, .str hc.format.text)] else [])

/-- The object for a characteristic, if it is there. -/
def HapDb.readJson (db : HapDb) (q : CharQuery) (index : Nat) (includeStatus : Bool)
    (hc : CharPtr) : List JsonVal :=
  match db.accs[hc.acc]?, db.char? hc with
  | some ha, some c => [c.readJson q index includeStatus ha.aid]
  | _, _ => []

/-- The body of the response for these ids: what is refused stands in front of what is read. -/
def charsJson (db : HapDb) (q : CharQuery) (index : Nat) (ids : List (Int × Int)) : JsonVal :=
  .obj [(keyCharacteristics, .arr ((db.refusals ids).map (·.json) ++
    (db.readArr ids).flatMap (db.readJson q index (db.refusals ids ≠ []))))]

/-! ## What is written -/

variable {report : List StatusReport} {hc : HapChar}

theorem writesElems_report (r : StatusReport) : WritesElems (addReport · r) [r.json] := by
  have haid := writesMembers_int (strText_of_decide keyAid (by decide)) r.aid
  have hiid := writesMembers_int (strText_of_decide keyIid (by decide)) r.iid
  have hstatus := writesMembers_int (strText_of_decide keyStatus (by decide)) r.status
  exact ((haid.append hiid).append hstatus).object

theorem foldl_hapSetCharReportStatus (report : List StatusReport) (g : JsonGen) :
    report.foldl hapSetCharReportStatus (true, g) = (true, report.foldl addReport g) := by
  induction report generalizing g with
  | nil => rfl
  | cons r report ih =>
    rw [List.foldl_cons, List.foldl_cons, ← ih]
    simp only [hapSetCharReportStatus, if_true]

/-- The first report opens the object and the array. -/
theorem foldl_hapSetCharReportStatus_first (hne : report ≠ []) (g : JsonGen) :
    report.foldl hapSetCharReportStatus (false, g) = (true,
      report.foldl addReport (g.jsonGenStartObject.jsonGenPushArray keyCharacteristics)) := by
  cases report with
  | nil => exact absurd rfl hne
  | cons r report =>
    rw [List.foldl_cons, List.foldl_cons, ← foldl_hapSetCharReportStatus]
    simp only [hapSetCharReportStatus, Bool.false_eq_true, if_false]

theorem writesElems_readItem (q : CharQuery) (index : Nat) (includeStatus : Bool) (aid : Nat)
    (hval : hc.val.Clean) :
    WritesElems (fun g => addReadItem q index includeStatus g aid hc)
      [hc.readJson q index includeStatus aid] := by
  have haid := writesMembers_int (strText_of_decide keyAid (by decide)) aid
  have hiid := writesMembers_int (strText_of_decide keyIid (by decide)) hc.iid
  have hkey : StrText keyValue := strText_of_decide _ (by decide)
  have hvalue : WritesMembers
      (fun g => if hc.hasPermission hapCharPermSpecialRead then g.jsonGenObjSetNull keyValue
        else hapAddCharValJson g keyValue hc.val)
      [(keyValue, if hc.hasPermission hapCharPermSpecialRead then .prim nullText
        else hc.val.json)] := by
    cases hc.hasPermission hapCharPermSpecialRead with
    | true => simpa only [if_true] using writesMembers_null hkey
    | false => simpa only [Bool.false_eq_true, if_false] using writesMembers_val hkey hval
  have hstatus := (writesMembers_int (strText_of_decide keyStatus (by decide))
    hapStatusSuccess).ite includeStatus
  have htype := (writesMembers_string (strText_of_decide keyType (by decide))
    (strText_charUuid hc.typeUuid)).ite q.type
  have hperms := (writesMembers_perms hc).ite q.perms
  have hev := (writesMembers_bool (strText_of_decide keyEv (by decide))
    (hc.isCtrlSubscribed index)).ite q.ev
  have hformat := (writesMembers_string (strText_of_decide keyFormat (by decide))
    (strText_format hc.format)).ite q.withMeta
  exact (((((((haid.append hiid).append hvalue).append hstatus).append htype).append
    hperms).append hev).append hformat).object

/-- What a read shows does not depend on its owner. -/
theorem addReadItem_seen (q : CharQuery) (index : Nat) (includeStatus : Bool) (g : JsonGen)
    (aid : Nat) {c d : HapChar} (h : d.seen = c.seen) :
    addReadItem q index includeStatus g aid d = addReadItem q index includeStatus g aid c := by
  have hseen : ∀ c : HapChar, addReadItem q index includeStatus g aid c.seen =
      addReadItem q index includeStatus g aid c := fun _ => rfl
  rw [← hseen, h, hseen]

/-- The characteristics that are read are there, with values that can be written. -/
def HapDb.Readable (db : HapDb) (hc : CharPtr) : Prop :=
  ∃ ha c, db.accs[hc.acc]? = some ha ∧ db.char? hc = some c ∧ c.val.Clean

/-- **The loop over the characteristics** writes their objects.  Induction on them. -/
theorem readItem_foldlM {db : HapDb} (q : CharQuery) (index : Nat) (includeStatus : Bool)
    {hcs : List CharPtr} (hread : ∀ hc ∈ hcs, db.Readable hc) :
    ∃ f, WritesElems f (hcs.flatMap (db.readJson q index includeStatus)) ∧
      ∀ (g : JsonGen) (db₁ : HapDb), SameSeen db db₁ → ∃ db',
        hcs.foldlM (readItem q index includeStatus) (g, db₁) = .ok (f g, db') ∧
          SameSeen db db' := by
  induction hcs with
  | nil => exact ⟨fun g => g, .nil, fun g db₁ hsame => ⟨db₁, rfl, hsame⟩⟩
  | cons hc hcs ih =>
    obtain ⟨⟨ha, c, hacc, hchar, hval⟩, hrest⟩ := List.forall_mem_cons.1 hread
    obtain ⟨f, hf, hloop⟩ := ih hrest
    have hjson : db.readJson q index includeStatus hc =
        [c.readJson q index includeStatus ha.aid] := by
      simp only [HapDb.readJson, hacc, hchar]
    refine ⟨fun g => f (addReadItem q index includeStatus g ha.aid c), ?_, fun g db₁ hsame => ?_⟩
    · rw [List.flatMap_cons, hjson]
      exact (writesElems_readItem q index includeStatus ha.aid hval).append hf
    · have hseen := hsame.seen hc
      rw [hchar] at hseen
      obtain ⟨d, hd, hdc⟩ := Option.map_eq_some_iff.1 hseen
      have hcore := hsame.core.map_getElem? hc.acc
      rw [hacc] at hcore
      obtain ⟨ha₁, hacc₁, haid⟩ := Option.map_eq_some_iff.1 hcore
      have haid : ha₁.core.aid = ha.core.aid := congrArg HapAcc.aid haid
      change ha₁.aid = ha.aid at haid
      have hitem : readItem q index includeStatus (g, db₁) hc =
          .ok (addReadItem q index includeStatus g ha.aid c,
            db₁.modifyChar hc HapChar.afterRead) := by
        simp only [readItem, hacc₁, hd, haid, addReadItem_seen q index includeStatus g ha.aid hdc]
      obtain ⟨db', hrun, hsame'⟩ := hloop (addReadItem q index includeStatus g ha.aid c)
        (db₁.modifyChar hc HapChar.afterRead) (hsame.trans (.modifyChar _ _ fun _ => rfl))
      exact ⟨db', by rw [List.foldlM_cons, hitem, ok_bind, hrun], hsame'⟩

/-! ## The response -/

variable {db : HapDb}

/-- Every string of the database can be written without escapes. -/
def HapDb.Clean (db : HapDb) : Prop := ∀ hc c, db.char? hc = some c → c.val.Clean

theorem HapDb.Clean.readable (h : db.Clean) (ids : List (Int × Int)) :
    ∀ hc ∈ db.readArr ids, db.Readable hc := by
  intro hc hmem
  obtain ⟨id, -, hid⟩ := List.mem_filterMap.1 hmem
  unfold HapDb.readable at hid
  split at hid
  · cases hid
  · rename_i hd _
    split at hid
    · rename_i hany
      obtain rfl := Option.some.inj hid
      obtain ⟨c, hchar, -⟩ := (Option.any_eq_true _ _).1 hany
      obtain ⟨ha, hs, hacc, -⟩ := HapDb.char?_eq_some.1 hchar
      exact ⟨ha, c, hacc, hchar, h _ _ hchar⟩
    · cases hid

/-- Every id is either refused or read. -/
theorem readArr_ne_nil {ids : List (Int × Int)} (hne : ids ≠ []) (h : db.refusals ids = []) :
    db.readArr ids ≠ [] := by
  intro hread
  obtain ⟨id, hid⟩ := List.exists_mem_of_ne_nil ids hne
  have hrefused := List.filterMap_eq_nil_iff.1 h id hid
  have hread := List.filterMap_eq_nil_iff.1 hread id hid
  revert hrefused hread
  cases db.readable id.1 id.2 <;> simp [Except.toOption]

/-- **A list of ids whose last one has no instance id** crashes. -/
theorem hapHttpGetCharacteristics_error (hlive : db.primaryDeleted = false) {index : Nat}
    {q : CharQuery} (h : ¬ EndsInPair val) :
    hapHttpGetCharacteristics db index q val = .error .nullDeref := by
  have hincomplete : (pairs 0x2E 0x2C (val.length + 1) (some val)).2 = false := by
    rw [← Bool.not_eq_true, pairs_ok_iff (by decide) (Nat.lt_succ_self _)]
    exact h
  obtain ⟨db', hloop, -⟩ := getItem_foldlM (l := ⟨db, [], []⟩) index (val.count 0x2C + 1) hlive
    (.refl db) (by simpa using length_idPairs val)
  simp only [hapHttpGetCharacteristics, idLoop_val, hloop, ok_bind, afterPairs, hincomplete,
    Bool.false_eq_true, if_false, error_bind]

/-- No response comes once the primary accessory was deleted. -/
theorem hapHttpGetCharacteristics_deleted (hdead : db.primaryDeleted = true) (index : Nat)
    (q : CharQuery) (val : CStr) :
    ∃ fault, hapHttpGetCharacteristics db index q val = .error fault := by
  cases hids : idPairs val with
  | nil =>
    have hincomplete : (pairs 0x2E 0x2C (val.length + 1) (some val)).2 = false := by
      rw [← Bool.not_eq_true]
      exact fun hcomplete => pairs_ne_nil hcomplete (List.map_eq_nil_iff.1 hids)
    refine ⟨.nullDeref, ?_⟩
    simp only [hapHttpGetCharacteristics, idLoop_val, hids, List.foldlM_nil, pure_bind, afterPairs,
      hincomplete, Bool.false_eq_true, if_false, error_bind]
  | cons id ids =>
    refine ⟨.freedDeref, ?_⟩
    simp only [hapHttpGetCharacteristics, idLoop_val, hids, List.foldlM_cons, getItem, hdead,
      if_true, error_bind]

/-- **A response is a text of what is read**, with what is refused in front of it. -/
theorem hapHttpGetCharacteristics_eq (hlive : db.primaryDeleted = false) (hclean : db.Clean)
    (index : Nat) (q : CharQuery) (h : EndsInPair val) :
    ∃ r, hapHttpGetCharacteristics db index q val = .ok r ∧
      r.status = (if db.refusals (idPairs val) = [] then 200 else 207) ∧
      Text (.val (charsJson db q index (idPairs val))) r.chunks.flatten ∧
      (∀ c ∈ r.chunks, c ≠ [] ∧ c.length < outbufSize) ∧ SameSeen db r.db := by
  have hcomplete : (pairs 0x2E 0x2C (val.length + 1) (some val)).2 = true :=
    (pairs_ok_iff (by decide) (Nat.lt_succ_self _)).2 h
  have hne : idPairs val ≠ [] := fun hnil =>
    pairs_ne_nil hcomplete (List.map_eq_nil_iff.1 hnil)
  obtain ⟨db₁, hloop, hsame₁⟩ := getItem_foldlM (l := ⟨db, [], []⟩) index (val.count 0x2C + 1) hlive
    (.refl db) (by simpa using length_idPairs val)
  generalize hids : idPairs val = ids at hloop hne
  obtain ⟨f, hf, hreads⟩ := readItem_foldlM q index (db.refusals ids ≠ [])
    (hclean.readable ids)
  have hreports : WritesElems (fun g => (db.refusals ids).foldl addReport g)
      ((db.refusals ids).map (·.json)) := by
    rw [List.map_eq_flatMap]
    exact WritesElems.foldl fun r _ => writesElems_report r
  obtain ⟨chunks, hchunks, htext, hall⟩ :=
    ((hreports.append hf).array (strText_of_decide keyCharacteristics (by decide))).chunks
      (show 2 ≤ outbufSize by decide)
  obtain ⟨db', hrun, hsame⟩ := hreads ((db.refusals ids).foldl addReport
    ((jsonGenStrStart outbufSize true).jsonGenStartObject.jsonGenPushArray keyCharacteristics))
    db₁ hsame₁
  refine ⟨⟨if db.refusals ids = [] then 200 else 207, chunks, db'⟩, ?_, rfl, htext, hall, hsame⟩
  simp only [hapHttpGetCharacteristics, idLoop_val, hids, hloop, ok_bind, afterPairs, hcomplete,
    if_true, List.nil_append]
  by_cases hrefused : db.refusals ids = []
  · have hread := readArr_ne_nil hne hrefused
    simp only [hrefused, List.foldl_nil, ne_eq, hread, not_false_eq_true, Bool.not_false, and_self,
      if_true, not_true_eq_false, decide_false] at hrun hchunks ⊢
    rw [hrun, ok_bind, hchunks]
    rfl
  · rw [foldl_hapSetCharReportStatus_first hrefused]
    simp only [hrefused, ne_eq, not_false_eq_true, Bool.not_true, and_false, Bool.false_eq_true,
      if_false, decide_true] at hrun hchunks ⊢
    rw [hrun, ok_bind, hchunks]
    rfl

/-- **The response to `PUT /characteristics`** is a text of what is reported, and nothing if that
is nothing. -/
theorem statusMessage_eq (report : List StatusReport) :
    (report = [] → statusMessage report = []) ∧
      (report ≠ [] → Text (.val (reportJson report)) (statusMessage report).flatten ∧
        ∀ c ∈ statusMessage report, c ≠ [] ∧ c.length < outbufSize) := by
  constructor
  · rintro rfl
    rfl
  · intro hne
    have hreports : WritesElems (fun g => report.foldl addReport g) (report.map (·.json)) := by
      rw [List.map_eq_flatMap]
      exact WritesElems.foldl fun r _ => writesElems_report r
    obtain ⟨chunks, hchunks, htext, hall⟩ :=
      (hreports.array (strText_of_decide keyCharacteristics (by decide))).chunks
        (show 2 ≤ outbufSize by decide)
    have hmessage : statusMessage report = chunks := by
      simp only [statusMessage, foldl_hapSetCharReportStatus_first hne, if_true, hchunks]
    rw [hmessage]
    exact ⟨htext, hall⟩

/-! ## Lists of ids -/

theorem isDigit_of_mem_intStr {n : Nat} {c : UInt8} (h : c ∈ Warehouse.intStr n) : isDigit c := by
  obtain ⟨ch, hch, rfl⟩ := List.mem_map.1 h
  have hdigit := Nat.isDigit_of_mem_toDigits (by decide) le_rfl hch
  rw [Char.isDigit_iff_toNat] at hdigit
  obtain ⟨hlo, hhi⟩ := hdigit
  have hdigits : ∀ m, 48 ≤ m → m ≤ 57 → isDigit (UInt8.ofNat m) := by
    intro m hlo hhi
    interval_cases m <;> decide
  exact hdigits ch.toNat hlo hhi

/-- The digits of a number stand for it. -/
theorem foldl_intStr (n : Nat) :
    (Warehouse.intStr n).foldl (fun m c => 10 * m + (c.toNat - 0x30)) 0 = n := by
  have hdigits : ∀ (cs : List Char) (m : Nat), (∀ c ∈ cs, c.toNat < 256) →
      (cs.map fun c => UInt8.ofNat c.toNat).foldl (fun m c => 10 * m + (c.toNat - 0x30)) m =
        Nat.ofDigitChars 10 cs m := by
    intro cs
    induction cs with
    | nil => exact fun m _ => rfl
    | cons c cs ih =>
      intro m h
      obtain ⟨hc, hcs⟩ := List.forall_mem_cons.1 h
      rw [List.map_cons, List.foldl_cons, ih _ hcs, Nat.ofDigitChars_cons,
        UInt8.toNat_ofNat_of_lt' hc]
      rfl
  rw [Warehouse.intStr, hdigits, Nat.ofDigitChars_ten_toDigits]
  intro c hc
  have hdigit := Nat.isDigit_of_mem_toDigits (by decide) le_rfl hc
  rw [Char.isDigit_iff_toNat] at hdigit
  change 48 ≤ _ ∧ _ ≤ 57 at hdigit
  omega

theorem ne_of_isDigit {c : UInt8} (h : isDigit c) :
    isSpace c = false ∧ c ≠ 0x2D ∧ c ≠ 0x2B ∧ c ≠ 0x2E ∧ c ≠ 0x2C := by
  have hrange : 0x30 ≤ c.toNat ∧ c.toNat ≤ 0x39 := by
    simpa [isDigit, UInt8.le_iff_toNat_le] using h
  refine ⟨?_, ?_, ?_, ?_, ?_⟩
  · simp only [isSpace, UInt8.le_iff_toNat_le, ← UInt8.toNat_inj, decide_eq_false_iff_not]
    change ¬ (c.toNat = 32 ∨ 9 ≤ c.toNat ∧ c.toNat ≤ 13)
    omega
  all_goals
    rintro rfl
    revert hrange
    decide

/-- **A number that was printed is read back.** -/
theorem atoi_intStr {n : Nat} (hn : n < 2 ^ 31) : atoi (Warehouse.intStr n) = n := by
  have hdigits : ∀ c ∈ Warehouse.intStr n, isDigit c := fun c hc => isDigit_of_mem_intStr hc
  have hne : Warehouse.intStr n ≠ [] := by simp [Warehouse.intStr, Nat.toDigits_ne_nil]
  have hfold := foldl_intStr n
  generalize Warehouse.intStr n = s at hdigits hne hfold
  obtain ⟨c, s, rfl⟩ := List.exists_cons_of_ne_nil hne
  obtain ⟨hspace, hminus, hplus, -⟩ := ne_of_isDigit (hdigits c List.mem_cons_self)
  have htake : (c :: s).takeWhile isDigit = c :: s := List.takeWhile_eq_self_iff.2 hdigits
  simp only [atoi, List.dropWhile_cons, hspace, Bool.false_eq_true, if_false]
  split
  · rename_i heq
    exact absurd (List.cons.inj heq).1 hminus
  · rename_i heq
    exact absurd (List.cons.inj heq).1 hplus
  · rw [htake, hfold]
    simp only [Bool.false_eq_true, if_false]
    omega

/-- A list of ids, as a request has it. -/
def idsText (ids : List (Nat × Nat)) : CStr :=
  join 0x2E 0x2C (ids.map fun id => (Warehouse.intStr id.1, Warehouse.intStr id.2))

/-- **The ids of a request are read back.** -/
theorem idPairs_idsText {ids : List (Nat × Nat)} (hne : ids ≠ [])
    (h : ∀ id ∈ ids, id.1 < 2 ^ 31 ∧ id.2 < 2 ^ 31) :
    EndsInPair (idsText ids) ∧
      idPairs (idsText ids) = ids.map fun id => ((id.1 : Int), (id.2 : Int)) := by
  have hnot : ∀ n, 0x2E ∉ Warehouse.intStr n ∧ 0x2C ∉ Warehouse.intStr n := fun n =>
    ⟨fun hmem => (ne_of_isDigit (isDigit_of_mem_intStr hmem)).2.2.2.1 rfl,
      fun hmem => (ne_of_isDigit (isDigit_of_mem_intStr hmem)).2.2.2.2 rfl⟩
  obtain ⟨ps, hps⟩ :
      ∃ ps, ps = ids.map fun id => (Warehouse.intStr id.1, Warehouse.intStr id.2) := ⟨_, rfl⟩
  have hmem : ∀ p ∈ ps, 0x2E ∉ p.1 ∧ 0x2C ∉ p.2 := by
    rw [hps]
    exact List.forall_mem_map.2 fun id _ => ⟨(hnot _).1, (hnot _).2⟩
  have hfuel : ps.length ≤ (idsText ids).length + 1 := by
    rw [idsText, ← hps]
    exact length_le_join.trans (Nat.le_succ _)
  have hpairs := pairs_join (by simpa [hps] using hne) hmem hfuel
  rw [hps] at hpairs
  constructor
  · refine (pairs_ok_iff (by decide) (Nat.lt_succ_self (idsText ids).length)).1 ?_
    exact congrArg Prod.snd hpairs
  · have hfst := congrArg Prod.fst hpairs
    unfold idPairs
    change (pairs 0x2E 0x2C ((idsText ids).length + 1) (some (idsText ids))).1 = _ at hfst
    rw [hfst, List.map_map]
    refine List.map_congr_left fun id hid => ?_
    obtain ⟨haid, hiid⟩ := h id hid
    exact Prod.ext (atoi_intStr haid) (atoi_intStr hiid)

end NinaHomekit
