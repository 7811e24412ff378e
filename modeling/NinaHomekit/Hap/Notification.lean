import NinaHomekit.Hap.SetChar

/-!
# Event notifications

`hap_send_notification` of `esp_hap_ip_services.c`: it takes the characteristics that wait in
`hap_event_queue` and tells every connected controller about those it has subscribed to.

* `pendingNotifChars` — what it takes from the queue.
* `notifyChar`, `notifySession`, `sendNotification` — the code.
* `eventQueue_handleSetChar` — a request of a controller queues no event.
-/

namespace NinaHomekit

open Trace

/-- `hap_char_is_ctrl_subscribed`. -/
def HapChar.isCtrlSubscribed (hc : HapChar) (index : Nat) : Bool :=
  hc.evCtrls &&& UInt16.ofNat (1 <<< index) != 0

/-- `hap_char_is_ctrl_owner`. -/
def HapChar.isCtrlOwner (hc : HapChar) (index : Nat) : Bool :=
  hc.ownerCtrl &&& UInt16.ofNat (1 <<< index) != 0

/-- An object of the array `characteristics` in an event message. -/
structure EventItem where
  aid : Nat
  iid : Nat
  value : HapVal
  deriving DecidableEq, Repr

namespace HapDb

/-- What `hap_get_pending_notif_char` hands out, up to `max_event_notif_chars` times. -/
def pendingNotifChars (db : HapDb) : List CharPtr := db.eventQueue.take hapMaxNotifChars

/-- The body of the loop over `char_arr`, for the session `index`. -/
def notifyChar (index : Nat) (l : HapDb × List EventItem) (hc : CharPtr) :
    Except Fault (HapDb × List EventItem) :=
  match l.1.accs[hc.acc]?, l.1.char? hc with
  | some ha, some c =>
    if ha.deleted then .error .freedDeref
    -- the owner made the change itself
    else if c.isCtrlOwner index then .ok (l.1.modifyChar hc ({ · with ownerCtrl := 0 }), l.2)
    else if !c.isCtrlSubscribed index then .ok l
    else .ok (l.1, l.2 ++ [⟨ha.aid, c.iid, c.val⟩])
  | _, _ => .error .nullDeref

/-- The message for the session `index`, which is not sent when it is empty. -/
def notifySession (hcs : List CharPtr) (l : HapDb × List (Nat × List EventItem)) (index : Nat) :
    Except Fault (HapDb × List (Nat × List EventItem)) := do
  let (db, items) ← hcs.foldlM (notifyChar index) (l.1, [])
  return (db, if items = [] then l.2 else l.2 ++ [(index, items)])

/-- `hap_send_notification`, with the sessions that are open, and the messages it sends. -/
def sendNotification (db : HapDb) (sessions : List Nat) :
    Except Fault (HapDb × List (Nat × List EventItem)) :=
  let hcs := db.pendingNotifChars
  sessions.foldlM (notifySession hcs)
    ({ db with eventQueue := db.eventQueue.drop hapMaxNotifChars }, [])

/-! ## What it changes -/

variable {db db' : HapDb} {index : Nat}

theorem notifyChar_frame {l l' : HapDb × List EventItem} {hc : CharPtr}
    (h : notifyChar index l hc = .ok l') :
    SameCore l.1 l'.1 ∧ l'.1.eventQueue = l.1.eventQueue := by
  unfold notifyChar at h
  split at h
  · split at h
    · cases h
    · split at h
      · cases h
        exact ⟨SameCore.modifyChar _ _ fun _ => rfl, rfl⟩
      · split at h <;> cases h <;> exact ⟨SameCore.refl _, rfl⟩
  · cases h

/-- A loop whose passes leave the core and the queue alone. -/
theorem foldlM_frame {α β : Type} {f : HapDb × β → α → Except Fault (HapDb × β)}
    (hf : ∀ l l' a, f l a = .ok l' → SameCore l.1 l'.1 ∧ l'.1.eventQueue = l.1.eventQueue)
    {as : List α} {l l' : HapDb × β} (h : as.foldlM f l = .ok l') :
    SameCore l.1 l'.1 ∧ l'.1.eventQueue = l.1.eventQueue := by
  induction as generalizing l with
  | nil =>
    cases h
    exact ⟨SameCore.refl _, rfl⟩
  | cons a as ih =>
    rw [List.foldlM_cons] at h
    obtain ⟨m, hm, hrest⟩ := bind_eq_ok.1 h
    obtain ⟨hcore, hqueue⟩ := hf l m a hm
    obtain ⟨hcore', hqueue'⟩ := ih hrest
    exact ⟨hcore.trans hcore', hqueue'.trans hqueue⟩

/-- **Sending the notifications** takes the characteristics from the queue. -/
theorem sendNotification_frame {sessions : List Nat} {msgs : List (Nat × List EventItem)}
    (h : db.sendNotification sessions = .ok (db', msgs)) :
    SameCore db db' ∧ db'.eventQueue = db.eventQueue.drop hapMaxNotifChars := by
  have hloop := foldlM_frame (f := notifySession db.pendingNotifChars)
    (fun l l' index hl => by
      obtain ⟨m, hm, hl⟩ := bind_eq_ok.1 hl
      cases hl
      exact foldlM_frame (fun _ _ _ => notifyChar_frame) hm) h
  exact ⟨⟨hloop.1.accs, hloop.1.primaryAcc⟩, hloop.2⟩

end HapDb

/-! ## Requests queue no event -/

namespace State

variable {s : State}

theorem eventQueue_collectItem (root : Members) (elems : List JsonVal) (reqTw validTw : Bool)
    (index : Nat) (l : CollectLoop) (i : Nat) :
    (collectItem root elems reqTw validTw index l i).db.eventQueue = l.db.eventQueue := by
  unfold collectItem
  dsimp only
  split <;> rfl

theorem eventQueue_collectBody (session : Session) (curTime : Int) (body : JsonVal) :
    (s.collectBody session curTime body).db.eventQueue = s.db.eventQueue := by
  have hloop : ∀ (root : Members) (elems : List JsonVal) (reqTw validTw : Bool) (index : Nat)
      (is : List Nat) (l : CollectLoop),
      (is.foldl (collectItem root elems reqTw validTw index) l).db.eventQueue =
        l.db.eventQueue := by
    intro root elems reqTw validTw index is
    induction is with
    | nil => exact fun l => rfl
    | cons i is ih => exact fun l => (ih _).trans (eventQueue_collectItem ..)
  exact hloop ..

/-- A request of a controller queues no event. -/
theorem eventQueue_handleSetChar {session : Session} {curTime : Int} {garbage : Garbage}
    {body : JsonVal} {r : SetCharResult}
    (h : s.handleSetChar session curTime garbage body = .ok r) :
    r.state.db.eventQueue = s.db.eventQueue := by
  unfold handleSetChar at h
  split at h
  · cases h
    rfl
  split at h
  · cases h
  · obtain ⟨⟨u, report⟩, hu, h⟩ := bind_eq_ok.1 h
    cases h
    have hqueue := eventQueue_collectBody (s := s) session curTime body
    unfold actOnWrites at hu
    split at hu
    · cases hu
      exact hqueue
    · obtain ⟨a, -, hu⟩ := bind_eq_ok.1 hu
      obtain ⟨v, hv, hu⟩ := bind_eq_ok.1 hu
      cases hu
      rw [doModulesAction_eq_ok hv]
      exact hqueue

end State

end NinaHomekit
