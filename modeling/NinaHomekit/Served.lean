import NinaHomekit.EveryChar
import NinaHomekit.Hap.Characteristics
import NinaHomekit.Json.Reading
import NinaHomekit.PendingEvents

/-!
# What controllers are told

The bridge with the requests that read the database and with the notifications.

* `HttpEvent`, `httpStep` — the system with `GET /accessories`, `GET /characteristics` and the
  work item that sends the notifications.
* `HapChar.Told` — what holds of every characteristic: it has subscribers only if it is a boolean.
* `getAccessories_run`, `getCharacteristics_run` — **in every state a response is a text of the
  database**, as long as no name needs an escape.
* `sendNotification_run` — **every event fits the array it is written to.**
-/

namespace NinaHomekit

open Trace State Outcome

/-- The events of the bridge, and those of the HTTP server. -/
inductive HttpEvent where
  | bridge (e : Event)
  /-- The work item, while the sessions `sessions` are open. -/
  | sendNotification (sessions : List Nat)
  /-- `GET /accessories`, from the session `index`. -/
  | getAccessories (index : Nat)
  /-- `GET /characteristics`, with the value of `id`. -/
  | getCharacteristics (index : Nat) (q : CharQuery) (val : CStr)

/-- The size of `buf` in `hap_http_get_accessories`. -/
def accBufSize : Nat := 1000

/-- What an event does. -/
def httpStep (s : State) : HttpEvent → Except Fault State
  | .bridge e => step s e
  | .sendNotification sessions => do
    let (db, _) ← s.db.sendNotification sessions
    return { s with db := db }
  | .getAccessories index => do
    let (_, db) ← hapPrepareJsonDatabase s.db accBufSize index
    return { s with db := db }
  | .getCharacteristics index q val => do
    let r ← hapHttpGetCharacteristics s.db index q val
    return { s with db := r.db }

/-- The names an event brings fit `Q`. -/
def HttpNamesFit (Q : CStr → Prop) : HttpEvent → Prop
  | .bridge e => NamesFit Q e
  | _ => True

/-! ## What holds of every characteristic -/

/-- The value is a boolean if anyone is, or may be, told about it. -/
def HapChar.Told (c : HapChar) : Prop :=
  c.evCtrls ≠ 0 ∨ c.hasPermission hapCharPermEV = true → ∃ on, c.val = .b on

theorem clean_b (on : Bool) : HapVal.Clean (.b on) := fun _ h => by cases h

theorem clean_s {text : CStr} (h : StrText text) : HapVal.Clean (.s (some text)) := by
  intro text' h'
  cases h'
  exact h

theorem clean_null : HapVal.Clean (.s none) := fun _ h => by cases h

/-- Every value can be written. -/
theorem charRule_clean : CharRule (fun c => c.val.Clean) StrText where
  fixed := by
    have hall : (fixedStrings.all fun text => text.all fun c => c ≠ 0 ∧ c ≠ 0x22 ∧ c ≠ 0x5C) =
        true := by decide
    exact fun text h => strText_of_decide _ (List.all_eq_true.1 hall text h)
  string uuid text h := clean_s h
  null := clean_null
  bool uuid permission on := clean_b on
  numbered c iid h := h
  noted c owner updated h := h
  notified c index ev h hperm := h
  updated c on h := clean_b on

/-- Any name will do: events are about booleans. -/
theorem charRule_told : CharRule HapChar.Told fun _ => True where
  fixed text h := trivial
  string uuid text h := by
    intro hev
    rcases hev with hev | hev
    · exact absurd rfl hev
    · simp only [HapChar.hasPermission] at hev
      exact absurd hev (by decide)
  null := by
    intro hev
    rcases hev with hev | hev
    · exact absurd rfl hev
    · exact absurd hev (by decide)
  bool uuid permission on := fun _ => ⟨on, rfl⟩
  numbered c iid h := h
  noted c owner updated h := h
  notified c index ev h hperm := fun _ => h (Or.inr hperm)
  updated c on h := fun _ => ⟨on, rfl⟩

/-! ## What reading and telling do to it -/

variable {P : HapChar → Prop} {Q : CStr → Prop} {db db' : HapDb} {s t : State}

/-- A handler that may fail. -/
abbrev Keeps {α : Type} (P : HapChar → Prop) (db : α → HapDb) (x : Except Fault α) : Prop :=
  Meets (fun _ => True) x fun a => (db a).EveryChar P

theorem keeps_notifyChar (hrule : CharRule P Q) (index : Nat) {l : HapDb × List EventItem}
    (hl : l.1.EveryChar P) (hc : CharPtr) : Keeps P Prod.fst (HapDb.notifyChar index l hc) := by
  unfold HapDb.notifyChar
  split
  · split
    · trivial
    · split
      · exact hl.modifyChar _ fun c hc => hrule.noted c 0 c.updateCalled hc
      · split <;> exact hl
  · trivial

theorem keeps_sendNotification (hrule : CharRule P Q) (hdb : db.EveryChar P)
    (sessions : List Nat) : Keeps P Prod.fst (db.sendNotification sessions) := by
  refine Meets.foldlM (P := fun l : HapDb × List (Nat × List EventItem) => l.1.EveryChar P)
    (fun l index hl => ?_) hdb
  exact (Meets.foldlM (P := fun l : HapDb × List EventItem => l.1.EveryChar P)
    (fun l hc hl => keeps_notifyChar hrule index hl hc) hl).bind fun l hl => hl

theorem everyChar_afterGet (hrule : CharRule P Q) (hdb : db.EveryChar P) (index : Nat) :
    (db.afterGet index).EveryChar P := by
  unfold HapDb.afterGet
  split
  · exact hdb
  · refine forall_mem_modify hdb fun ha hha => List.forall_mem_map.2 fun hs hhs => ?_
    refine List.forall_mem_map.2 fun hc hhc => ?_
    have hP := hha hs hhs hc hhc
    have hbefore : P (hc.beforeRead index) := by
      unfold HapChar.beforeRead
      split
      · exact hrule.noted hc _ _ hP
      · exact hP
    exact hrule.noted _ _ _ hbefore

theorem keeps_hapPrepareJsonDatabase (hrule : CharRule P Q) (hdb : db.EveryChar P)
    (bufSize index : Nat) : Keeps P Prod.snd (hapPrepareJsonDatabase db bufSize index) := by
  rcases hapPrepareJsonDatabase_cases db bufSize index with ⟨⟨chunks, h⟩, -⟩ | ⟨fault, h⟩
  · rw [h]
    exact everyChar_afterGet hrule hdb index
  · rw [h]
    trivial

theorem keeps_getItem (hrule : CharRule P Q) (index charCnt : Nat) {l : GetLoop}
    (hl : l.db.EveryChar P) (aid iid : Int) :
    Keeps P GetLoop.db (getItem index charCnt l aid iid) := by
  unfold getItem
  split
  · trivial
  · split
    · exact hl
    · split
      · exact hl.modifyChar _ fun c hc => hrule.noted c _ false hc
      · trivial

theorem keeps_hapHttpGetCharacteristics (hrule : CharRule P Q) (hdb : db.EveryChar P)
    (index : Nat) (q : CharQuery) (val : CStr) :
    Keeps P GetCharResult.db (hapHttpGetCharacteristics db index q val) := by
  unfold hapHttpGetCharacteristics
  dsimp only
  rw [idLoop_val]
  refine Meets.bind (P := fun l : GetLoop => l.db.EveryChar P)
    (Meets.bind (P := fun l : GetLoop => l.db.EveryChar P)
    (Meets.foldlM (fun l id hl => keeps_getItem hrule index _ hl id.1 id.2) hdb) fun l hl => ?_)
    fun l hl => ?_
  · unfold afterPairs
    split
    · exact hl
    · trivial
  · refine Meets.bind (P := fun s : JsonGen × HapDb => s.2.EveryChar P)
      (Meets.foldlM (fun s hc hs => ?_) hl) fun s hs => hs
    unfold readItem
    split
    · exact hs.modifyChar _ fun c hc => hrule.noted c _ false hc
    · trivial

/-! ## Runs -/

/-- **Every event keeps what holds of every characteristic.** -/
theorem everyChar_httpStep (hrule : CharRule P Q) {e : HttpEvent} (h : EveryChar P Q s)
    (hnames : HttpNamesFit Q e) (ht : httpStep s e = .ok t) : EveryChar P Q t := by
  cases e with
  | bridge e => exact everyChar_step hrule h hnames ht
  | sendNotification sessions =>
    obtain ⟨r, hr, ht⟩ := bind_eq_ok.1 ht
    cases ht
    exact ⟨(keeps_sendNotification hrule h.chars sessions).of_eq_ok hr, h.names, h.deviceName⟩
  | getAccessories index =>
    obtain ⟨r, hr, ht⟩ := bind_eq_ok.1 ht
    cases ht
    exact ⟨(keeps_hapPrepareJsonDatabase hrule h.chars _ index).of_eq_ok hr, h.names,
      h.deviceName⟩
  | getCharacteristics index q val =>
    obtain ⟨r, hr, ht⟩ := bind_eq_ok.1 ht
    cases ht
    exact ⟨(keeps_hapHttpGetCharacteristics hrule h.chars index q val).of_eq_ok hr, h.names,
      h.deviceName⟩

/-- A state of a run in which all names fit `Q`. -/
def NamedRun (Q : CStr → Prop) (s : State) : Prop :=
  ∃ (deviceName : DeviceName) (enablePop : UInt8) (es : List HttpEvent), Q deviceName ∧
    (∀ e ∈ es, HttpNamesFit Q e) ∧ run httpStep (State.boot deviceName enablePop) es = .ok s

/-- **What holds of every characteristic in every state of a run.** -/
theorem NamedRun.everyChar (hrule : CharRule P Q) (h : NamedRun Q s) : s.db.EveryChar P := by
  obtain ⟨deviceName, enablePop, es, hname, hnames, hrun⟩ := h
  have hinv : EveryChar P Q s := by
    refine inv_run (C := fun _ e => HttpNamesFit Q e)
      (fun _ _ _ hu hc hstep => everyChar_httpStep hrule hu hc hstep)
      (everyChar_boot hname enablePop) (fun before e after t hes _ => hnames e ?_) hrun
    rw [hes]
    simp
  exact hinv.chars

/-- A state of a run in which no name needs an escape. -/
def CleanRun (s : State) : Prop := NamedRun StrText s

theorem CleanRun.clean (h : CleanRun s) : s.db.Clean := fun _ _ hc =>
  (h.everyChar charRule_clean).char? hc

/-- A state of any run. -/
def HttpRun (s : State) : Prop :=
  ∃ (deviceName : DeviceName) (enablePop : UInt8) (es : List HttpEvent),
    run httpStep (State.boot deviceName enablePop) es = .ok s

theorem namesFit_any (e : Event) : NamesFit (fun _ => True) e := by
  unfold NamesFit
  split
  · exact fun _ _ => trivial
  all_goals trivial

theorem HttpRun.told (h : HttpRun s) : s.db.EveryChar HapChar.Told := by
  obtain ⟨deviceName, enablePop, es, hrun⟩ := h
  refine NamedRun.everyChar charRule_told ⟨deviceName, enablePop, es, trivial, fun e _ => ?_, hrun⟩
  cases e with
  | bridge e => exact namesFit_any e
  | _ => trivial

/-! ## Responses -/

/-- The events after the link message of an only module bring no names. -/
theorem cleanRun_of_onlyModule {es : List HttpEvent}
    (hnames : ∀ e ∈ es, HttpNamesFit StrText e)
    (h : run httpStep State.bootDefault (.bridge (linkEvent (0, onlyModule)) :: es) = .ok s) :
    CleanRun s := by
  refine ⟨State.bootDefault.deviceName, 0, _, strText_of_decide _ (by decide), ?_, h⟩
  refine List.forall_mem_cons.2 ⟨fun m hm => ?_, hnames⟩
  have hdecode := LinkFields.decodeLink_toData (m := onlyModule) ⟨by decide, by decide, by decide⟩
  change decodeLink onlyModule.toData = .ok m at hm
  rw [hdecode] at hm
  cases hm
  exact strText_of_decide _ (by decide)

/-- The primary accessory exists and is not deleted. -/
def PrimaryLive (db : HapDb) : Prop := ∀ a, db.primaryAcc = some a → db.Live a

/-- **In every state `GET /accessories` is answered with a text of the database**, in chunks of
which none is empty, unless the primary accessory was deleted, which crashes. -/
theorem getAccessories_run (h : CleanRun s) (index : Nat) :
    (PrimaryLive s.db → ∃ chunks db',
      hapPrepareJsonDatabase s.db accBufSize index = .ok (chunks, db') ∧
      Text (.val (accJson index s.db.served)) chunks.flatten ∧
      (∀ c ∈ chunks, c ≠ [] ∧ c.length < accBufSize) ∧ SameSeen s.db db' ∧
      ∀ ha ∈ db'.served, ∀ hs ∈ ha.servs, ∀ hc ∈ hs.chars,
        hc.hasPermission hapCharPermPR → hc.ownerCtrl = 0) ∧
    (¬ PrimaryLive s.db → ∃ fault, hapPrepareJsonDatabase s.db accBufSize index = .error fault) := by
  have hclean := h.everyChar charRule_clean
  constructor
  · intro hlive
    obtain ⟨chunks, hchunks, htext, hall⟩ := hapPrepareJsonDatabase_eq index
      (show 2 ≤ accBufSize by decide) fun a ha => by
        obtain ⟨acc, hacc, hdel⟩ := hlive a ha
        exact ⟨acc, hacc, hdel, fun hs hhs hc hhc =>
          hclean acc (List.mem_of_getElem? hacc) hs hhs hc hhc⟩
    exact ⟨chunks, _, hchunks, htext, hall, sameSeen_afterGet _ index,
      ownerCtrl_afterGet _ index⟩
  · intro hdead
    rcases hapPrepareJsonDatabase_cases s.db accBufSize index with ⟨-, hlive⟩ | hfault
    · exact absurd hlive hdead
    · exact hfault

/-- The database with an only module is read. -/
theorem getAccessories_onlyModule : ∃ s, run httpStep State.bootDefault
    [.bridge (linkEvent (0, onlyModule))] = .ok s ∧ s.db.served.length = 1 ∧
      ∃ chunks db', hapPrepareJsonDatabase s.db accBufSize 0 = .ok (chunks, db') ∧
        Text (.val (accJson 0 s.db.served)) chunks.flatten := by
  obtain ⟨s, hs, hcheck⟩ := exists_of_okAnd
    (x := run httpStep State.bootDefault [.bridge (linkEvent (0, onlyModule))])
    (p := fun s => s.db.served.length = 1 ∧ s.db.primaryAcc = some 0 ∧
      s.db.accs.map HapAcc.deleted = [false]) (by decide +kernel)
  obtain ⟨hlen, hprimary, hdeleted⟩ := of_decide_eq_true hcheck
  have hlive : PrimaryLive s.db := by
    intro a ha
    obtain rfl := Option.some.inj (hprimary.symm.trans ha)
    have hget := congrArg (fun l => l[0]?) hdeleted
    simp only [List.getElem?_map, List.getElem?_cons_zero, Option.map_eq_some_iff] at hget
    exact hget
  obtain ⟨chunks, db', hok, htext, -⟩ :=
    (getAccessories_run (cleanRun_of_onlyModule (List.forall_mem_nil _) hs) 0).1 hlive
  exact ⟨s, hs, hlen, chunks, db', hok, htext⟩

/-- **In every state `GET /characteristics` is answered with a text of what was asked for**, unless
the last id has no instance id or the primary accessory was deleted, which crashes. -/
theorem getCharacteristics_run (h : CleanRun s) (index : Nat) (q : CharQuery) (val : CStr) :
    (s.db.primaryDeleted = false → EndsInPair val →
      ∃ r, hapHttpGetCharacteristics s.db index q val = .ok r ∧
        r.status = (if s.db.refusals (idPairs val) = [] then 200 else 207) ∧
        Text (.val (charsJson s.db q index (idPairs val))) r.chunks.flatten ∧
        (∀ c ∈ r.chunks, c ≠ [] ∧ c.length < outbufSize) ∧ SameSeen s.db r.db) ∧
    (¬ (s.db.primaryDeleted = false ∧ EndsInPair val) →
      ∃ fault, hapHttpGetCharacteristics s.db index q val = .error fault) := by
  constructor
  · exact fun hlive hends => hapHttpGetCharacteristics_eq hlive h.clean index q hends
  · intro hnot
    by_cases hlive : s.db.primaryDeleted = false
    · exact ⟨.nullDeref, hapHttpGetCharacteristics_error hlive fun hends => hnot ⟨hlive, hends⟩⟩
    · exact hapHttpGetCharacteristics_deleted (Bool.of_not_eq_false hlive) index q val

/-- `id=1.12` is answered for an only module, and `id=1` crashes. -/
theorem getCharacteristics_onlyModule : ∃ s, run httpStep State.bootDefault
    [.bridge (linkEvent (0, onlyModule))] = .ok s ∧
      (∃ r, hapHttpGetCharacteristics s.db 0 ⟨false, false, false, false⟩ [0x31, 0x2E, 0x31, 0x32] =
        .ok r ∧ r.status = 200) ∧
      ∃ fault, hapHttpGetCharacteristics s.db 0 ⟨false, false, false, false⟩ [0x31] =
        .error fault := by
  obtain ⟨s, hs, hcheck⟩ := exists_of_okAnd
    (x := run httpStep State.bootDefault [.bridge (linkEvent (0, onlyModule))])
    (p := fun s => s.db.primaryDeleted = false ∧
      s.db.refusals (idPairs [0x31, 0x2E, 0x31, 0x32]) = []) (by decide +kernel)
  obtain ⟨hlive, hrefused⟩ := of_decide_eq_true hcheck
  have hclean := cleanRun_of_onlyModule (List.forall_mem_nil _) hs
  obtain ⟨r, hr, hstatus, -⟩ := (getCharacteristics_run hclean 0
    ⟨false, false, false, false⟩ [0x31, 0x2E, 0x31, 0x32]).1 hlive
    ⟨[0x31], [0x31, 0x32], rfl, by decide⟩
  refine ⟨s, hs, ⟨r, hr, by rw [hstatus, if_pos hrefused]⟩, ?_⟩
  refine (getCharacteristics_run hclean 0 ⟨false, false, false, false⟩ [0x31]).2 ?_
  rintro ⟨-, l, t, heq, -⟩
  have hmem : (0x2E : UInt8) ∈ [(0x31 : UInt8)] := by rw [heq]; simp
  exact absurd hmem (by decide)

/-- **A request for ids in decimals is answered for these ids**, in every state in which the primary
accessory was not deleted. -/
theorem getCharacteristics_ids (h : CleanRun s) (hlive : s.db.primaryDeleted = false) (index : Nat)
    (q : CharQuery) {ids : List (Nat × Nat)} (hne : ids ≠ [])
    (hids : ∀ id ∈ ids, id.1 < 2 ^ 31 ∧ id.2 < 2 ^ 31) :
    ∃ r, hapHttpGetCharacteristics s.db index q (idsText ids) = .ok r ∧
      Text (.val (charsJson s.db q index (ids.map fun id => ((id.1 : Int), (id.2 : Int)))))
        r.chunks.flatten := by
  obtain ⟨hends, hpairs⟩ := idPairs_idsText hne hids
  obtain ⟨r, hr, -, htext, -⟩ := hapHttpGetCharacteristics_eq hlive h.clean index q hends
  rw [hpairs] at htext
  exact ⟨r, hr, htext⟩

/-- Both the On of an only module and one that is not there are asked for. -/
theorem getCharacteristics_two : ∃ s, run httpStep State.bootDefault
    [.bridge (linkEvent (0, onlyModule))] = .ok s ∧
      ∃ r, hapHttpGetCharacteristics s.db 0 ⟨true, true, true, true⟩ (idsText [(1, 12), (1, 99)]) =
          .ok r ∧
        Text (.val (charsJson s.db ⟨true, true, true, true⟩ 0 [(1, 12), (1, 99)]))
          r.chunks.flatten := by
  obtain ⟨s, hs, hcheck⟩ := exists_of_okAnd
    (x := run httpStep State.bootDefault [.bridge (linkEvent (0, onlyModule))])
    (p := fun s => s.db.primaryDeleted = false) (by decide +kernel)
  exact ⟨s, hs, getCharacteristics_ids (cleanRun_of_onlyModule (List.forall_mem_nil _) hs)
    (of_decide_eq_true hcheck) 0 ⟨true, true, true, true⟩ (List.cons_ne_nil (1, 12) [(1, 99)])
    (by decide)⟩

/-! ## Events -/

/-- Each characteristic adds an object at most. -/
theorem length_notifyChars {index : Nat} {hcs : List CharPtr} {l l' : HapDb × List EventItem}
    (h : hcs.foldlM (HapDb.notifyChar index) l = .ok l') :
    l'.2.length ≤ l.2.length + hcs.length := by
  induction hcs generalizing l with
  | nil =>
    cases h
    exact Nat.le_add_right _ _
  | cons hc hcs ih =>
    rw [List.foldlM_cons] at h
    obtain ⟨m, hm, hrest⟩ := bind_eq_ok.1 h
    have hrest := ih hrest
    have hone : m.2.length ≤ l.2.length + 1 := by
      unfold HapDb.notifyChar at hm
      split at hm
      · split at hm
        · cases hm
        · split at hm
          · cases hm
            exact Nat.le_succ _
          · split at hm <;> cases hm <;> simp
      · cases hm
    rw [List.length_cons]
    omega

/-- The objects of an event are about booleans. -/
def OfBools (items : List EventItem) : Prop := ∀ item ∈ items, ∃ on, item.value = .b on

/-- What a pass keeps of the database and of the objects. -/
def Telling (l : HapDb × List EventItem) : Prop := l.1.EveryChar HapChar.Told ∧ OfBools l.2

theorem telling_notifyChar (index : Nat) {l : HapDb × List EventItem} (hl : Telling l)
    (hc : CharPtr) : Meets (fun _ => True) (HapDb.notifyChar index l hc) Telling := by
  have hkeeps := keeps_notifyChar charRule_told index hl.1 hc
  cases hr : HapDb.notifyChar index l hc with
  | error fault => trivial
  | ok l' =>
    refine ⟨hkeeps.of_eq_ok hr, ?_⟩
    unfold HapDb.notifyChar at hr
    split at hr
    · rename_i ha c hacc hchar
      split at hr
      · cases hr
      · split at hr
        · cases hr
          exact hl.2
        · split at hr
          · cases hr
            exact hl.2
          · rename_i hsub
            cases hr
            refine List.forall_mem_append.2 ⟨hl.2, List.forall_mem_singleton.2 ?_⟩
            refine hl.1.char? hchar (Or.inl fun hzero => hsub ?_)
            simp [HapChar.isCtrlSubscribed, hzero]
    · cases hr

/-- **Every event that is sent fits the array it is written to**, and is a text of what it tells, in
every state. -/
theorem sendNotification_run (h : HttpRun s) (sessions : List Nat) {db' : HapDb}
    {msgs : List (Nat × List EventItem)} (hsend : s.db.sendNotification sessions = .ok (db', msgs)) :
    ∀ msg ∈ msgs, (∀ item ∈ msg.2, item.aid < 2 ^ 31 ∧ item.iid < 2 ^ 31) →
      Text (.val (eventJson msg.2)) (eventMessage msg.2) := by
  have hloop : Meets (fun _ => True) (s.db.sendNotification sessions)
      fun l => l.1.EveryChar HapChar.Told ∧
        ∀ msg ∈ l.2, OfBools msg.2 ∧ msg.2.length ≤ hapMaxNotifChars := by
    refine Meets.foldlM (P := fun l : HapDb × List (Nat × List EventItem) =>
      l.1.EveryChar HapChar.Told ∧ ∀ msg ∈ l.2, OfBools msg.2 ∧ msg.2.length ≤ hapMaxNotifChars)
      (fun l index hl => ?_) ⟨h.told, List.forall_mem_nil _⟩
    have htell := @Meets.foldlM _ _ _ Telling _ _ s.db.pendingNotifChars (l.1, [])
      (fun l hc hl => telling_notifyChar index hl hc) ⟨hl.1, List.forall_mem_nil _⟩
    unfold HapDb.notifySession
    cases hrun : s.db.pendingNotifChars.foldlM (HapDb.notifyChar index) (l.1, []) with
    | error fault => trivial
    | ok l' =>
      have hlen := length_notifyChars hrun
      have htell := htell.of_eq_ok hrun
      have hpending : s.db.pendingNotifChars.length ≤ hapMaxNotifChars := by
        simp [HapDb.pendingNotifChars]
      refine ⟨htell.1, ?_⟩
      dsimp only
      split
      · exact hl.2
      · refine List.forall_mem_append.2 ⟨hl.2, List.forall_mem_singleton.2 ⟨htell.2, ?_⟩⟩
        have hle : l'.2.length ≤ hapMaxNotifChars := by
          rw [List.length_nil] at hlen
          omega
        exact hle
  intro msg hmsg hids
  obtain ⟨hbools, hlen⟩ := (hloop.of_eq_ok hsend).2 msg hmsg
  refine eventMessage_eq hlen fun item hitem => ?_
  have hid := hids item hitem
  exact ⟨hbools item hitem, by omega, by omega⟩

/-- A request to be told about the On of an only module. -/
def subscribe : JsonVal :=
  .obj [(keyCharacteristics, .arr [.obj [(keyAid, .prim [0x31]), (keyIid, .prim [0x31, 0x32]),
    (keyEv, .prim [0x74, 0x72, 0x75, 0x65])]])]

/-- The session that asked for it is told that the module was switched off. -/
theorem sendNotification_onlyModule : ∃ s db' items, run httpStep State.bootDefault
    [.bridge (linkEvent (0, onlyModule)),
      .bridge (.setChar plainSession 0 ⟨fun _ => 0, fun _ => 0, 0⟩ subscribe),
      .bridge (.uart 0 (.updateData 1 moduleSwitchState 0 0))] = .ok s ∧
    s.db.sendNotification [0] = .ok (db', [(0, items)]) ∧ items.length = 1 ∧
      Text (.val (eventJson items)) (eventMessage items) := by
  obtain ⟨s, hs, hcheck⟩ := exists_of_okAnd
    (x := run httpStep State.bootDefault
      [.bridge (linkEvent (0, onlyModule)),
        .bridge (.setChar plainSession 0 ⟨fun _ => 0, fun _ => 0, 0⟩ subscribe),
        .bridge (.uart 0 (.updateData 1 moduleSwitchState 0 0))])
    (p := fun s => okAnd (s.db.sendNotification [0]) fun r => r.2 = [(0, [⟨1, 12, .b false⟩])])
    (by decide +kernel)
  obtain ⟨⟨db', msgs⟩, hsend, hmsgs⟩ := exists_of_okAnd hcheck
  obtain rfl : msgs = [(0, [⟨1, 12, .b false⟩])] := of_decide_eq_true hmsgs
  have htext := sendNotification_run ⟨_, _, _, hs⟩ [0] hsend (0, [⟨1, 12, .b false⟩])
    (List.mem_singleton.2 rfl)
  refine ⟨s, db', [⟨1, 12, .b false⟩], hs, hsend, rfl, ?_⟩
  simpa using htext

end NinaHomekit
