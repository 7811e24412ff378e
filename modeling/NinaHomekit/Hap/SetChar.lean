import NinaHomekit.CommandHandler.Frame
import NinaHomekit.CoreBridge.CoreBridge
import NinaHomekit.Hap.Json

/-!
# `PUT /characteristics`

`hap_http_handle_set_char` of `esp_hap_ip_services.c`, with the collected `DO_ACTION` pairs
the firmware adds to it.

* `Session`, `Garbage`, `SetCharResult` — what it reads besides the body, the bytes `malloc`
  leaves in an array, and what comes out.
* `checkItem` — what happens to one item of the request.
* `collectWrites`, `groupLoop`, `handleSetChar` — the code.
-/

namespace NinaHomekit

open Trace

/-! ## What it reads and returns -/

/-- `hap_secure_session_t`, with the index `hap_get_ctrl_session_index` finds for it. -/
structure Session where
  pid : UInt64
  ttl : Int
  prepareTime : Int
  index : Nat
  deriving DecidableEq, Repr

/-- What uninitialised memory holds: the two arrays, and `ret` when it is never assigned. -/
structure Garbage where
  addrs : Nat → UInt8
  acts : Nat → UInt8
  ret : Int

def hapSuccess : Int := 0
def hapFail : Int := -1

def hapStatusSuccess : Int := 0
def hapStatusWrOnRdonly : Int := -70404
def hapStatusNoNotif : Int := -70406
def hapStatusResAbsent : Int := -70409
def hapStatusValInvalid : Int := -70410
def hapStatusInsufficientAuth : Int := -70411

/-- One object of the response. -/
structure StatusReport where
  aid : Int
  iid : Int
  status : Int
  deriving DecidableEq, Repr

namespace State

/-- `ret`, the objects of the response, the session and the state. -/
structure SetCharResult where
  ret : Int
  report : List StatusReport
  session : Session
  state : State

/-! ## One item -/

def keyCharacteristics : CStr :=
  [0x63, 0x68, 0x61, 0x72, 0x61, 0x63, 0x74, 0x65, 0x72, 0x69, 0x73, 0x74, 0x69, 0x63, 0x73]
def keyPid : CStr := [0x70, 0x69, 0x64]
def keyAid : CStr := [0x61, 0x69, 0x64]
def keyIid : CStr := [0x69, 0x69, 0x64]
def keyEv : CStr := [0x65, 0x76]
def keyValue : CStr := [0x76, 0x61, 0x6C, 0x75, 0x65]
def keyAuthData : CStr := [0x61, 0x75, 0x74, 0x68, 0x44, 0x61, 0x74, 0x61]

/-- What happens to one item. -/
inductive ItemOutcome where
  /-- It is refused with a status. -/
  | report (status : Int)
  /-- It only switches notifications. -/
  | notify (hc : CharPtr) (ev : Bool)
  /-- It is accepted as a write. -/
  | write (hc : CharPtr) (val : HapVal)
  deriving DecidableEq

/-- The value of an item, in the format of the characteristic. -/
def itemValue (o : Option Members) : CharFormat → Option HapVal
  | .bool => (objGetBool o keyValue).map .b
  | .string => (objGetString o keyValue).map fun s => .s (some s)

/-- The checks on an item that names the characteristic `hc`, which is `c`. -/
def checkChar (db : HapDb) (reqTw validTw : Bool) (o : Option Members) (hc : CharPtr)
    (c : HapChar) : ItemOutcome :=
  if reqTw ∧ !validTw then .report hapStatusValInvalid
  else if c.hasPermission hapCharPermTW ∧ !validTw then .report hapStatusValInvalid
  else
    match objGetBool o keyEv with
    | some ev =>
      if c.hasPermission hapCharPermEV then .notify hc ev else .report hapStatusNoNotif
    | none =>
      if !c.hasPermission hapCharPermPW then .report hapStatusWrOnRdonly
      else if c.hasPermission hapCharPermAA ∧ objGetString o keyAuthData = none then
        .report hapStatusInsufficientAuth
      else if !(db.serv? hc.parent).any (·.writeCb) then .report hapStatusValInvalid
      else
        match itemValue o c.format with
        | none => .report hapStatusValInvalid
        | some val => .write hc val

/-- The checks on an item. -/
def checkItem (db : HapDb) (reqTw validTw : Bool) (o : Option Members) : ItemOutcome :=
  let aid := (objGetInt o keyAid).getD 0
  let iid := (objGetInt o keyIid).getD 0
  match db.accGetCharByIid (db.accGetByAid aid) iid with
  | none => .report hapStatusResAbsent
  | some hc =>
    match db.char? hc with
    | none => .report hapStatusResAbsent
    | some c => checkChar db reqTw validTw o hc c

/-! ## The first loop -/

/-- The variables of the loop over the items. -/
structure CollectLoop where
  cursor : Cursor
  db : HapDb
  writes : List (CharPtr × HapVal)
  report : List StatusReport

/-- The body of the loop over the items. -/
def collectItem (root : Members) (elems : List JsonVal) (reqTw validTw : Bool) (index : Nat)
    (l : CollectLoop) (i : Nat) : CollectLoop :=
  let cursor := arrGetObject elems (arrLeaveObject l.cursor) i
  let o := cursorObj root elems cursor
  let l := { l with cursor := cursor }
  match checkItem l.db reqTw validTw o with
  | .report status =>
    { l with report := l.report ++
        [⟨(objGetInt o keyAid).getD 0, (objGetInt o keyIid).getD 0, status⟩] }
  | .notify hc ev => { l with db := l.db.modifyChar hc (·.manageNotification index ev) }
  | .write hc val =>
    { l with
      db := l.db.modifyChar hc (·.setOwnerCtrl index), writes := l.writes ++ [(hc, val)] }

/-- The loop over the items. -/
def collectWrites (db : HapDb) (root : Members) (elems : List JsonVal) (reqTw validTw : Bool)
    (index : Nat) : CollectLoop :=
  (List.range elems.length).foldl (collectItem root elems reqTw validTw index)
    ⟨arrGetObject elems .array 0, db, [], []⟩

/-! ## The second loop -/

/-- The variables of the loop over the writes. -/
structure ActLoop where
  addrs : List UInt8
  acts : List UInt8
  pos : Nat
  statuses : List Int

/-- `val.b`. -/
def valB : HapVal → Bool
  | .b b => b
  | .s s => s.isSome

/-- The body of the inner loop. -/
def actWrite (s : State) (a : ActLoop) (write : CharPtr × HapVal) : Except Fault ActLoop :=
  match s.db.char? write.1 with
  | none => .error .nullDeref
  | some c =>
    if c.typeUuid = .on then do
      let addr ← s.getModuleAddrByHc (some write.1)
      let addrs ← poke a.addrs a.pos addr
      let acts ← poke a.acts a.pos (if valB write.2 then doTurnOn else doTurnOff)
      return ⟨addrs, acts, a.pos + 1, a.statuses ++ [hapStatusSuccess]⟩
    else .ok { a with statuses := a.statuses ++ [hapStatusResAbsent] }

/-- The loop over the writes: one group for each run of writes to one service. -/
def groupLoop (s : State) (writes : List (CharPtr × HapVal)) :
    List Nat → ServPtr → Nat → ActLoop → Except Fault ActLoop
  | [], _, _, a => .ok a
  | i :: is, hs, hsIndex, a =>
    if writes[i]?.any (·.1.parent = hs) then s.groupLoop writes is hs hsIndex a
    else do
      let a ← ((writes.drop hsIndex).take (i - hsIndex)).foldlM s.actWrite a
      match writes[i]? with
      | some write => s.groupLoop writes is write.1.parent i a
      | none => s.groupLoop writes is hs hsIndex a

/-- The object of the response for a write. -/
def writeReport (s : State) (write : CharPtr × HapVal) (status : Int) : StatusReport :=
  ⟨((s.db.accs[write.1.acc]?.map HapAcc.aid).getD 0 : Nat),
    ((s.db.char? write.1).map HapChar.iid).getD 0, status⟩

/-! ## The handler -/

/-- Whether the write has to be a timed one, and whether it is a valid one. -/
def timedWrite (session : Session) (curTime : Int) (root : Members) : Bool × Bool :=
  match objGetUInt64 (some root) keyPid with
  | none => (session.prepareTime != 0, false)
  | some pid => (true, pid = session.pid ∧ curTime - session.prepareTime ≤ session.ttl)

/-- The part of the handler for a non-empty list of writes. -/
def actOnWrites (s : State) (garbage : Garbage) (report : List StatusReport)
    (writes : List (CharPtr × HapVal)) : Except Fault (State × List StatusReport) :=
  match writes with
  | [] => .ok (s, report)
  | write :: rest => do
    let charCnt := writes.length
    let a ← s.groupLoop (write :: rest) (List.range (charCnt + 1)) write.1.parent 0
      ⟨(List.range charCnt).map garbage.addrs, (List.range charCnt).map garbage.acts, 0, []⟩
    let report := if report = [] then []
      else report ++ List.zipWith s.writeReport writes a.statuses
    let s ← s.doModulesAction a.addrs a.acts (UInt8.ofNat charCnt)
    return (s, report)

/-- The members of the body, if it is an object. -/
def bodyRoot : JsonVal → Members
  | .obj members => members
  | _ => []

/-- The items of the request. -/
def bodyElems (body : JsonVal) : List JsonVal :=
  objGetArray (some (bodyRoot body)) keyCharacteristics

/-- The loop over the items of a request. -/
def collectBody (s : State) (session : Session) (curTime : Int) (body : JsonVal) : CollectLoop :=
  let (reqTw, validTw) := timedWrite session curTime (bodyRoot body)
  collectWrites s.db (bodyRoot body) (bodyElems body) reqTw validTw session.index

/-- `hap_http_handle_set_char`. -/
def handleSetChar (s : State) (session : Session) (curTime : Int) (garbage : Garbage)
    (body : JsonVal) : Except Fault SetCharResult :=
  let session' := { session with pid := 0, ttl := 0, prepareTime := 0 }
  if bodyElems body = [] then .ok ⟨hapFail, [], session', s⟩
  -- the accessory of the first item is looked up
  else if s.db.primaryDeleted then .error .freedDeref
  else do
    let l := s.collectBody session curTime body
    let r ← { s with db := l.db }.actOnWrites garbage l.report l.writes
    -- `ret` is only assigned on the way past the writes
    let ret := if r.2 ≠ [] then hapFail else if l.writes = [] then garbage.ret else hapSuccess
    return ⟨ret, r.2, session', r.1⟩

/-! ## What it leaves alone -/

variable {s t : State}

/-- An item only leaves a note about its controller. -/
theorem sameCore_collectItem (root : Members) (elems : List JsonVal) (reqTw validTw : Bool)
    (index : Nat) (l : CollectLoop) (i : Nat) :
    SameCore l.db (collectItem root elems reqTw validTw index l i).db := by
  unfold collectItem
  dsimp only
  split
  · exact SameCore.refl _
  · exact SameCore.modifyChar _ _ fun hc => rfl
  · exact SameCore.modifyChar _ _ fun hc => rfl

theorem sameCore_collectWrites (db : HapDb) (root : Members) (elems : List JsonVal)
    (reqTw validTw : Bool) (index : Nat) :
    SameCore db (collectWrites db root elems reqTw validTw index).db := by
  have hloop : ∀ (is : List Nat) (l : CollectLoop),
      SameCore l.db (is.foldl (collectItem root elems reqTw validTw index) l).db := by
    intro is
    induction is with
    | nil => exact fun l => SameCore.refl _
    | cons i is ih => exact fun l => (sameCore_collectItem ..).trans (ih _)
  exact hloop _ ⟨_, db, [], []⟩

theorem doModulesAction_eq_ok {addrs actions : List UInt8} {length : UInt8}
    (h : s.doModulesAction addrs actions length = .ok t) :
    t = s.push 3 (cmdDoModule ::
      ((addrs.zip actions).take length.toNat).flatMap fun (addr, action) => [addr, action]) := by
  unfold doModulesAction at h
  split at h <;> cases h
  rfl

/-- A request changes notes about controllers and the outgoing queue. -/
theorem handleSetChar_frame {session : Session} {curTime : Int} {garbage : Garbage}
    {body : JsonVal} {r : SetCharResult}
    (h : s.handleSetChar session curTime garbage body = .ok r) :
    ∃ db queue, SameCore s.db db ∧ r.state = { s with db := db, queue := queue } := by
  unfold handleSetChar at h
  split at h
  · cases h
    exact ⟨s.db, s.queue, SameCore.refl _, rfl⟩
  split at h
  · cases h
  · obtain ⟨⟨u, report⟩, hu, h⟩ := bind_eq_ok.1 h
    cases h
    have hcore : SameCore s.db (s.collectBody session curTime body).db :=
      sameCore_collectWrites ..
    unfold actOnWrites at hu
    split at hu
    · cases hu
      exact ⟨_, s.queue, hcore, rfl⟩
    · obtain ⟨a, -, hu⟩ := bind_eq_ok.1 hu
      obtain ⟨v, hv, hu⟩ := bind_eq_ok.1 hu
      cases hu
      exact ⟨_, _, hcore, doModulesAction_eq_ok hv⟩

end State

end NinaHomekit
