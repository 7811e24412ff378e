import NinaHomekit.Hap.Characteristics
import NinaHomekit.Hap.Truthful
import NinaHomekit.Json.Reading

/-!
# `PUT /characteristics` in bytes

`hap_http_put_characteristics`, from the bytes of the body to those of the response, and the
handler of `Hap/SetChar.lean`, which has the value of the body.

* `JparseCtx.checkItem`, `JparseCtx.collectItem` — the loop over the items, with the cursor and the
  tokens.
* `collectItem_sim` — a pass over the tokens is a pass over the value.
* `putCharacteristics_text` — **a body that is a text of a value is handled as the value is.**
* `putCharacteristics_response` — **what is answered is a text of the items that were refused, and of
  the writes beside them.**
-/

namespace NinaHomekit

open Trace Outcome State

/-- `"remote"` -/
def keyRemote : CStr := [0x72, 0x65, 0x6D, 0x6F, 0x74, 0x65]

namespace JparseCtx

/-- The value of an item, in the format of the characteristic; a string is read into an array that
holds it. -/
def itemValue (ctx : JparseCtx) : CharFormat → Except Fault (Option HapVal)
  | .bool => do
    let b ← ctx.jsonObjGetBool keyValue
    return b.map .b
  | .string => do
    match ← ctx.jsonObjGetStrlen keyValue with
    | none => return none
    | some len =>
      let text ← ctx.jsonObjGetString keyValue (len + 1)
      return some (.s (some (text.getD [])))

/-- What is read of an accepted write besides its value. -/
def readAuthData (ctx : JparseCtx) : Except Fault Unit := do
  match ← ctx.jsonObjGetStrlen keyAuthData with
  | some len =>
    let _ ← ctx.jsonObjGetString keyAuthData (len + 1)
  | none => pure ()
  let _ ← ctx.jsonObjGetBool keyRemote
  return ()

/-- The checks on an item for which authorization data is there, or is not needed. -/
def checkValue (ctx : JparseCtx) (db : HapDb) (hc : CharPtr) (c : HapChar) :
    Except Fault ItemOutcome := do
  if !(db.serv? hc.parent).any (·.writeCb) then return .report hapStatusValInvalid
  else
    match ← ctx.itemValue c.format with
    | none => return .report hapStatusValInvalid
    | some val =>
      ctx.readAuthData
      return .write hc val

/-- The checks on an item that names the characteristic `hc`, which is `c`. -/
def checkChar (ctx : JparseCtx) (db : HapDb) (reqTw validTw : Bool) (hc : CharPtr)
    (c : HapChar) : Except Fault ItemOutcome := do
  if reqTw ∧ !validTw then return .report hapStatusValInvalid
  else if c.hasPermission hapCharPermTW ∧ !validTw then return .report hapStatusValInvalid
  else
    match ← ctx.jsonObjGetBool keyEv with
    | some ev =>
      return if c.hasPermission hapCharPermEV then .notify hc ev else .report hapStatusNoNotif
    | none =>
      if !c.hasPermission hapCharPermPW then return .report hapStatusWrOnRdonly
      else if c.hasPermission hapCharPermAA then
        match ← ctx.jsonObjGetStrlen keyAuthData with
        | none => return .report hapStatusInsufficientAuth
        | some _ => ctx.checkValue db hc c
      else ctx.checkValue db hc c

/-- The checks on an item, with its ids. -/
def checkItem (ctx : JparseCtx) (db : HapDb) (reqTw validTw : Bool) :
    Except Fault (Int × Int × ItemOutcome) := do
  let aid := (← ctx.jsonObjGetInt keyAid).getD 0
  let iid := (← ctx.jsonObjGetInt keyIid).getD 0
  match db.accGetCharByIid (db.accGetByAid aid) iid with
  | none => return (aid, iid, .report hapStatusResAbsent)
  | some hc =>
    match db.char? hc with
    | none => return (aid, iid, .report hapStatusResAbsent)
    | some c =>
      let out ← ctx.checkChar db reqTw validTw hc c
      return (aid, iid, out)

/-- The variables of the loop over the items. -/
structure CollectLoop where
  ctx : JparseCtx
  db : HapDb
  writes : List (CharPtr × HapVal)
  report : List StatusReport

/-- The body of the loop over the items. -/
def collectItem (reqTw validTw : Bool) (index : Nat) (l : CollectLoop) (i : Nat) :
    Except Fault CollectLoop := do
  let ctx ← l.ctx.jsonArrLeaveObject
  let ctx ← ctx.jsonArrGetObject i
  let l := { l with ctx := ctx }
  match ← ctx.checkItem l.db reqTw validTw with
  | (aid, iid, .report status) => return { l with report := l.report ++ [⟨aid, iid, status⟩] }
  | (_, _, .notify hc ev) =>
    return { l with db := l.db.modifyChar hc (·.manageNotification index ev) }
  | (_, _, .write hc val) =>
    return { l with
      db := l.db.modifyChar hc (·.setOwnerCtrl index), writes := l.writes ++ [(hc, val)] }

/-- Whether the write has to be a timed one, and whether it is a valid one. -/
def timedWrite (ctx : JparseCtx) (session : Session) (curTime : Int) :
    Except Fault (Bool × Bool) := do
  match ← ctx.jsonObjGetUInt64 keyPid with
  | none => return (session.prepareTime != 0, false)
  | some pid => return (true, pid = session.pid ∧ curTime - session.prepareTime ≤ session.ttl)

end JparseCtx

namespace State

/-- `hap_http_handle_set_char`, with the parsed body. -/
def hapHttpHandleSetChar (s : State) (session : Session) (curTime : Int) (garbage : Garbage)
    (ctx : JparseCtx) : Except Fault SetCharResult := do
  let (reqTw, validTw) ← ctx.timedWrite session curTime
  let session' := { session with pid := 0, ttl := 0, prepareTime := 0 }
  let (ctx, cnt) ← ctx.jsonObjGetArray keyCharacteristics
  if cnt.getD 0 = 0 then return ⟨hapFail, [], session', s⟩
  -- the accessory of the first item is looked up
  else if s.db.primaryDeleted then .error .freedDeref
  else
    let ctx ← ctx.jsonArrGetObject 0
    let l ← (List.range (cnt.getD 0)).foldlM
      (JparseCtx.collectItem reqTw validTw session.index) ⟨ctx, s.db, [], []⟩
    let r ← { s with db := l.db }.actOnWrites garbage l.report l.writes
    let ret := if r.2 ≠ [] then hapFail else if l.writes = [] then garbage.ret else hapSuccess
    return ⟨ret, r.2, session', r.1⟩

/-- The status, the chunks of the body, the session and the state. -/
structure PutResult where
  status : Nat
  chunks : List CStr
  session : Session
  state : State

/-- What is answered. -/
def putResult (r : SetCharResult) : PutResult :=
  ⟨if r.ret = hapSuccess then 204 else 207, statusMessage r.report, r.session, r.state⟩

/-- `hap_http_put_characteristics`. -/
def hapHttpPutCharacteristics (s : State) (session : Session) (curTime : Int) (garbage : Garbage)
    (inbuf : CStr) : Except Fault PutResult :=
  match jsonParseStart inbuf with
  | none => .ok ⟨500, [], session, s⟩
  | some ctx => putResult <$> s.hapHttpHandleSetChar session curTime garbage ctx

end State

/-! ## One item -/

variable {js : List UInt8} {toks : List JsmnTok} {k a cur : Nat} {o : Option Members}
  {root : Members} {elems : List JsonVal} {db : HapDb} {hc : CharPtr} {c : HapChar}
  {reqTw validTw : Bool} {index : Nat}

namespace JparseCtx

theorem itemValue_at (hforest : TokenForest js toks) (h : ReadsAs js toks k o)
    (format : CharFormat) :
    itemValue ⟨js, toks, k⟩ format = .ok (State.itemValue o format) := by
  cases format with
  | bool => simp only [itemValue, jsonObjGetBool_at hforest h, ok_bind, State.itemValue]; rfl
  | string =>
    simp only [itemValue, jsonObjGetStrlen_at hforest h, jsonObjGetString_at hforest h, ok_bind,
      State.itemValue]
    cases objGetString o keyValue with
    | none => rfl
    | some text => simp [Option.filter_some]; rfl

theorem readAuthData_at (hforest : TokenForest js toks) (h : ReadsAs js toks k o) :
    readAuthData ⟨js, toks, k⟩ = .ok () := by
  simp only [readAuthData, jsonObjGetStrlen_at hforest h, jsonObjGetString_at hforest h,
    jsonObjGetBool_at hforest h, ok_bind]
  cases objGetString o keyAuthData <;> rfl

theorem checkValue_at (hforest : TokenForest js toks) (h : ReadsAs js toks k o) :
    checkValue ⟨js, toks, k⟩ db hc c = .ok
      (if !(db.serv? hc.parent).any (·.writeCb) then .report hapStatusValInvalid
      else match State.itemValue o c.format with
        | none => .report hapStatusValInvalid
        | some val => .write hc val) := by
  unfold checkValue
  split
  · rfl
  · simp only [itemValue_at hforest h, ok_bind]
    cases State.itemValue o c.format with
    | none => rfl
    | some val =>
      simp only [readAuthData_at hforest h, ok_bind]
      rfl

theorem checkChar_at (hforest : TokenForest js toks) (h : ReadsAs js toks k o) :
    checkChar ⟨js, toks, k⟩ db reqTw validTw hc c =
      .ok (State.checkChar db reqTw validTw o hc c) := by
  unfold checkChar State.checkChar
  split
  · rfl
  · split
    · rfl
    · simp only [jsonObjGetBool_at hforest h, ok_bind]
      cases objGetBool o keyEv with
      | some ev => rfl
      | none =>
        simp only [jsonObjGetStrlen_at hforest h, checkValue_at hforest h, ok_bind]
        cases c.hasPermission hapCharPermPW with
        | false => rfl
        | true =>
          cases c.hasPermission hapCharPermAA with
          | false => cases State.itemValue o c.format <;> simp
          | true =>
            cases objGetString o keyAuthData with
            | none => rfl
            | some text => cases State.itemValue o c.format <;> simp

theorem checkItem_at (db : HapDb) (reqTw validTw : Bool) (hforest : TokenForest js toks)
    (h : ReadsAs js toks k o) :
    checkItem ⟨js, toks, k⟩ db reqTw validTw = .ok ((objGetInt o keyAid).getD 0,
      (objGetInt o keyIid).getD 0, State.checkItem db reqTw validTw o) := by
  simp only [checkItem, State.checkItem, jsonObjGetInt_at hforest h, ok_bind]
  cases db.accGetCharByIid (db.accGetByAid ((objGetInt o keyAid).getD 0))
      ((objGetInt o keyIid).getD 0) with
  | none => rfl
  | some hc =>
    cases hchar : db.char? hc with
    | none => simp only [hchar]; rfl
    | some c => simp only [hchar, checkChar_at hforest h, ok_bind]; rfl

/-! ## The loop -/

/-- The loop over the tokens is where the loop over the value is. -/
structure InStep (js : List UInt8) (toks : List JsmnTok) (elems : List JsonVal) (a : Nat)
    (l : CollectLoop) (l' : State.CollectLoop) : Prop where
  ctx : ∃ cur, l.ctx = ⟨js, toks, cur⟩ ∧ CursorTok toks elems a cur l'.cursor
  db : l.db = l'.db
  writes : l.writes = l'.writes
  report : l.report = l'.report

/-- A pass over the tokens is a pass over the value. -/
theorem collectItem_sim (h : Items js toks root elems a) (hforest : TokenForest js toks)
    (reqTw validTw : Bool) (index : Nat) (l : CollectLoop) (l' : State.CollectLoop) (i : Nat)
    (hstep : InStep js toks elems a l l') :
    ∃ m, collectItem reqTw validTw index l i = .ok m ∧
      InStep js toks elems a m (State.collectItem root elems reqTw validTw index l' i) := by
  obtain ⟨⟨cur, hctx, hcur⟩, hdb, hwrites, hreport⟩ := hstep
  obtain ⟨c₁, h₁, hc₁⟩ := h.leaveObject hforest hcur
  obtain ⟨c₂, h₂, hc₂⟩ := h.getObject hforest hc₁ i
  have hitem := checkItem_at l'.db reqTw validTw hforest (h.readsAs hforest hc₂)
  simp only [collectItem, State.collectItem, hctx, h₁, h₂, hdb, hwrites, hreport, ok_bind, hitem]
  cases State.checkItem l'.db reqTw validTw
    (cursorObj root elems (arrGetObject elems (arrLeaveObject l'.cursor) i)) <;>
  exact ⟨_, rfl, ⟨_, rfl, hc₂⟩, rfl, rfl, rfl⟩

theorem timedWrite_at (hforest : TokenForest js toks) (h : ReadsAs js toks k o)
    (session : Session) (curTime : Int) :
    timedWrite ⟨js, toks, k⟩ session curTime =
      .ok (State.timedWrite session curTime (o.getD [])) := by
  have hnone : objGetUInt64 none keyPid = objGetUInt64 (some []) keyPid := rfl
  simp only [timedWrite, State.timedWrite, jsonObjGetUInt64_at hforest h, ok_bind]
  cases o with
  | none =>
    simp only [Option.getD_none, hnone]
    rfl
  | some ms =>
    simp only [Option.getD_some]
    cases objGetUInt64 (some ms) keyPid <;> rfl

end JparseCtx

/-! ## The request -/

variable {s : State} {session : Session} {curTime : Int} {garbage : Garbage} {v : JsonVal}
  {w t w' : CStr}

/-- What the handler reads at the root is the root of the body. -/
theorem readsAs_root (hroot : Reps js toks (.val v) none 0 toks.length) :
    ∃ o, ReadsAs js toks 0 o ∧ o.getD [] = bodyRoot v := by
  have hat : At js toks 0 v := at_root hroot
  cases v with
  | obj ms => exact ⟨some ms, hat, rfl⟩
  | prim | str | arr =>
    obtain ⟨t, ht, htype⟩ := hat.type_eq
    exact ⟨none, ⟨t, ht, by simp [htype, jsonType]⟩, rfl⟩

/-- The array of items, or nothing and no elements. -/
theorem jsonObjGetArray_items (hforest : TokenForest js toks)
    (hroot : Reps js toks (.val v) none 0 toks.length) :
    ∃ a cnt, JparseCtx.jsonObjGetArray ⟨js, toks, 0⟩ keyCharacteristics =
        .ok (⟨js, toks, a⟩, cnt) ∧ cnt.getD 0 = (bodyElems v).length ∧
      (bodyElems v ≠ [] → Items js toks (bodyRoot v) (bodyElems v) a) := by
  cases v with
  | obj ms => exact jsonObjGetArray_root keyCharacteristics hforest hroot
  | prim | str | arr =>
    obtain ⟨t, ht, htype⟩ := (at_root hroot).type_eq
    refine ⟨0, none, ?_, rfl, fun hne => absurd rfl hne⟩
    simp only [JparseCtx.jsonObjGetArray, JparseCtx.jsonObjSearch_spec hforest ht, htype, jsonType]
    rfl

/-- **The handler on the tokens is the handler on the value.** -/
theorem hapHttpHandleSetChar_eq (hforest : TokenForest js toks)
    (hroot : Reps js toks (.val v) none 0 toks.length) :
    s.hapHttpHandleSetChar session curTime garbage ⟨js, toks, 0⟩ =
      s.handleSetChar session curTime garbage v := by
  obtain ⟨o, hreads, ho⟩ := readsAs_root hroot
  have htimed := JparseCtx.timedWrite_at hforest hreads session curTime
  rw [ho] at htimed
  obtain ⟨a, cnt, harray, hcnt, hitems⟩ := jsonObjGetArray_items hforest hroot
  simp only [hapHttpHandleSetChar, handleSetChar, htimed, harray, hcnt, ok_bind,
    List.length_eq_zero_iff]
  by_cases hnil : bodyElems v = []
  · rw [if_pos hnil, if_pos hnil]
    rfl
  rw [if_neg hnil, if_neg hnil]
  by_cases hdel : s.db.primaryDeleted = true
  · rw [if_pos hdel, if_pos hdel]
  · have hitems := hitems hnil
    rw [if_neg hdel, if_neg hdel]
    obtain ⟨cur, hget, hcur⟩ := hitems.getObject hforest
      (show CursorTok toks (bodyElems v) a a .array from rfl) 0
    obtain ⟨l, hloop, ⟨-, hdb, hwrites, hreport⟩⟩ := foldlM_sim
      (JparseCtx.collectItem_sim hitems hforest (timedWrite session curTime (bodyRoot v)).1
        (timedWrite session curTime (bodyRoot v)).2 session.index)
      (a := ⟨⟨js, toks, cur⟩, s.db, [], []⟩)
      (b := ⟨arrGetObject (bodyElems v) .array 0, s.db, [], []⟩)
      ⟨⟨cur, rfl, hcur⟩, rfl, rfl, rfl⟩ (List.range (bodyElems v).length)
    simp only [hget, ok_bind, hloop, hdb, hwrites, hreport]
    rfl

/-- **A request whose body is a text of a value is handled as the value is**, with the blanks around
it. -/
theorem putCharacteristics_text (hw : Blanks w) (ht : Text (.val v) t) (hw' : Blanks w')
    (hv : ∀ text, v ≠ .prim text) (s : State) (session : Session) (curTime : Int)
    (garbage : Garbage) :
    s.hapHttpPutCharacteristics session curTime garbage (w ++ (t ++ w')) =
      putResult <$> s.handleSetChar session curTime garbage v := by
  obtain ⟨toks, hparse, ⟨hforest, -⟩, hroot⟩ := jsonParseStart_text hw ht hw' hv
  simp only [hapHttpPutCharacteristics, hparse, hapHttpHandleSetChar_eq hforest hroot]

/-- `{"characteristics":[{"aid":1,"iid":12,"value":true}]}` -/
def writeTrueText : CStr :=
  [0x7B, 0x22, 0x63, 0x68, 0x61, 0x72, 0x61, 0x63, 0x74, 0x65, 0x72, 0x69, 0x73, 0x74, 0x69, 0x63,
    0x73, 0x22, 0x3A, 0x5B, 0x7B, 0x22, 0x61, 0x69, 0x64, 0x22, 0x3A, 0x31, 0x2C, 0x22, 0x69, 0x69,
    0x64, 0x22, 0x3A, 0x31, 0x32, 0x2C, 0x22, 0x76, 0x61, 0x6C, 0x75, 0x65, 0x22, 0x3A, 0x74, 0x72,
    0x75, 0x65, 0x7D, 0x5D, 0x7D]

theorem text_writeTrueText : Text (.val (writeTrue [0x31, 0x32])) writeTrueText := by
  have hnil : Blanks [] := JsonGen.blanks_nil
  have hkey : ∀ key ∈ [keyCharacteristics, keyAid, keyIid, keyValue], StrText key := by
    have hall : ([keyCharacteristics, keyAid, keyIid, keyValue].all fun key =>
        key.all fun c => c ≠ 0 ∧ c ≠ 0x22 ∧ c ≠ 0x5C) = true := by decide
    exact fun key hkey => strText_of_decide key (List.all_eq_true.1 hall key hkey)
  have hprim : ∀ (c : UInt8) (cs : CStr), startsPrimitive c = true →
      ((c :: cs).all fun d => endsPrimitive d = false ∧ 32 ≤ d ∧ d < 127) = true →
      Text (.val (.prim (c :: cs))) (c :: cs) := fun c cs hc hcs =>
    .prim ⟨c, cs, rfl, hc, fun d hd => by simpa [InPrimitive] using List.all_eq_true.1 hcs d hd⟩
  have hone := hprim 0x31 [] rfl (by decide)
  have htwelve := hprim 0x31 [0x32] rfl (by decide)
  have htrue := hprim 0x74 [0x72, 0x75, 0x65] rfl (by decide)
  exact .obj (.member hnil (hkey keyCharacteristics (by simp)) hnil hnil (.arr (.elem hnil (.obj
    (.members hnil (hkey keyAid (by simp)) hnil hnil hone hnil
      (.members hnil (hkey keyIid (by simp)) hnil hnil htwelve hnil
        (.member hnil (hkey keyValue (by simp)) hnil hnil htrue hnil)))) hnil)) hnil)

/-- An only module is switched on by the bytes. -/
theorem putCharacteristics_text_on : ∃ s r,
    run step State.bootDefault [linkEvent (0, ⟨1, 1, [0x61], 0, false⟩)] = .ok s ∧
    s.hapHttpPutCharacteristics plainSession 0 ⟨fun _ => 0, fun _ => 0, 0⟩ writeTrueText = .ok r ∧
      r.status = 204 ∧ r.chunks = [] ∧
      r.state.queue = s.queue ++ [⟨3, [cmdDoModule, 1, doTurnOn]⟩] := by
  obtain ⟨s, hs, hcheck⟩ := exists_of_okAnd
    (x := run step State.bootDefault [linkEvent (0, ⟨1, 1, [0x61], 0, false⟩)])
    (p := fun s => okAnd (s.handleSetChar plainSession 0 ⟨fun _ => 0, fun _ => 0, 0⟩
        (writeTrue [0x31, 0x32])) fun r => r.ret = hapSuccess ∧ r.report = [] ∧
      r.state.queue = s.queue ++ [⟨3, [cmdDoModule, 1, doTurnOn]⟩]) (by decide +kernel)
  obtain ⟨r, hr, hcheck⟩ := exists_of_okAnd hcheck
  obtain ⟨hret, hreport, hqueue⟩ := of_decide_eq_true hcheck
  have hput := putCharacteristics_text JsonGen.blanks_nil text_writeTrueText JsonGen.blanks_nil
    (fun text h => by cases h) s plainSession 0 ⟨fun _ => 0, fun _ => 0, 0⟩
  rw [List.nil_append, List.append_nil, hr] at hput
  refine ⟨s, putResult r, hs, hput, if_pos hret, ?_, hqueue⟩
  simp only [putResult, hreport]
  rfl

/-- **What is answered**: nothing beside the status if every item passes the checks, and otherwise
a text of the items that were refused and of the other writes, in chunks. -/
theorem putCharacteristics_response (hw : Blanks w) (ht : Text (.val v) t) (hw' : Blanks w')
    (hv : ∀ text, v ≠ .prim text) (hne : bodyElems v ≠ []) (s : State) (session : Session)
    (curTime : Int) (garbage : Garbage) {r : PutResult}
    (hr : s.hapHttpPutCharacteristics session curTime garbage (w ++ (t ++ w')) = .ok r) :
    (s.refusals session curTime v = [] → r.chunks = [] ∧
      (r.status = 204 ↔ s.acceptedWrites session curTime v ≠ [] ∨ garbage.ret = hapSuccess)) ∧
    (s.refusals session curTime v ≠ [] → r.status = 207 ∧
      Text (.val (reportJson (s.refusals session curTime v ++
        (s.acceptedWrites session curTime v).map fun w => s.writeReport w (s.writeStatus w))))
          r.chunks.flatten ∧
      ∀ c ∈ r.chunks, c ≠ [] ∧ c.length < outbufSize) := by
  obtain ⟨toks, hparse, ⟨hforest, -⟩, hroot⟩ := jsonParseStart_text hw ht hw' hv
  simp only [hapHttpPutCharacteristics, hparse, hapHttpHandleSetChar_eq hforest hroot] at hr
  obtain ⟨u, hu, hr⟩ := bind_eq_ok.1 hr
  obtain rfl := Except.ok.inj hr
  obtain ⟨u', hu', hreport, hret, -⟩ :=
    handleSetChar_eq garbage hne (live_of_handleSetChar hne hu) (finds_of_handleSetChar hne hu)
  obtain rfl := Except.ok.inj (hu.symm.trans hu')
  obtain ⟨hnone, hsome⟩ := statusMessage_eq u.report
  constructor
  · intro hnil
    have hresponse : s.response session curTime v = [] := if_pos hnil
    rw [hresponse] at hreport hret
    refine ⟨hnone hreport, ?_⟩
    simp only [putResult, hret]
    by_cases hwrites : s.acceptedWrites session curTime v = []
    · by_cases hgarbage : garbage.ret = hapSuccess <;> simp [hwrites, hgarbage]
    · simp [hwrites]
  · intro hrefused
    have hresponse : s.response session curTime v = _ := if_neg hrefused
    have hne' : s.response session curTime v ≠ [] := by
      rw [hresponse]
      simp [hrefused]
    obtain ⟨htext, hall⟩ := hsome (hreport ▸ hne')
    rw [if_pos hne'] at hret
    refine ⟨?_, ?_, hall⟩
    · simp only [putResult, hret]
      rfl
    · rw [← hresponse, ← hreport]
      exact htext

/-- Without modules the characteristic is absent. -/
theorem putCharacteristics_response_absent : ∃ r,
    State.bootDefault.hapHttpPutCharacteristics plainSession 0 ⟨fun _ => 0, fun _ => 0, 0⟩
      writeTrueText = .ok r ∧ r.status = 207 ∧
      Text (.val (reportJson [⟨1, 12, hapStatusResAbsent⟩])) r.chunks.flatten := by
  obtain ⟨r, hr, -⟩ := exists_of_okAnd (x := State.bootDefault.hapHttpPutCharacteristics
    plainSession 0 ⟨fun _ => 0, fun _ => 0, 0⟩ writeTrueText) (p := fun _ => true)
    (by decide +kernel)
  have hrefused : State.bootDefault.refusals plainSession 0 (writeTrue [0x31, 0x32]) =
      [⟨1, 12, hapStatusResAbsent⟩] := by decide +kernel
  have hwrites : State.bootDefault.acceptedWrites plainSession 0 (writeTrue [0x31, 0x32]) = [] := by
    decide +kernel
  have hput := putCharacteristics_response JsonGen.blanks_nil text_writeTrueText JsonGen.blanks_nil
    (fun text h => by cases h) (by simp [bodyElems, bodyRoot, writeTrue, objGetArray, objSearch])
    State.bootDefault plainSession 0 ⟨fun _ => 0, fun _ => 0, 0⟩ (by simpa using hr)
  obtain ⟨hstatus, htext, -⟩ := hput.2 (by simp [hrefused])
  rw [hrefused, hwrites] at htext
  exact ⟨r, hr, hstatus, htext⟩

end NinaHomekit
