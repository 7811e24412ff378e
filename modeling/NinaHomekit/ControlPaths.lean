import NinaHomekit.CoreBridge.MqttCtrl
import NinaHomekit.Writable

/-!
# Two ways to switch a module

An MQTT packet becomes one `DO_MODULE` message for each pair of a module and a value.  A
`PUT /characteristics` becomes one message for all of them, whose length goes through an 8-bit
counter.

* `switchPacket`, `mqttData_switchPacket` — the packet, and the messages it queues.
* `PutWrites` — a request that writes the same values to the same modules.
* `PutWrites.acceptedWrites_eq` — **the handler accepts just these writes.**
* `sameActions_iff` — **both ways reach the modules with the same pairs exactly if there are
  fewer than 256.**
-/

namespace NinaHomekit

open Trace State Buffer

variable {s t : State} {a : AccPtr} {k : Nat} {pairs : List (UInt8 × UInt8)}

/-! ## Pairs of bytes -/

/-- The bytes of a list of pairs. -/
def pairBytes (pairs : List (UInt8 × UInt8)) : List UInt8 := pairs.flatMap fun p => [p.1, p.2]

/-- The pairs in a list of bytes. -/
def bytePairs : List UInt8 → List (UInt8 × UInt8)
  | x :: y :: bytes => (x, y) :: bytePairs bytes
  | _ => []

@[simp] theorem bytePairs_pairBytes (pairs : List (UInt8 × UInt8)) :
    bytePairs (pairBytes pairs) = pairs := by
  induction pairs with
  | nil => rfl
  | cons p pairs ih =>
    change p :: bytePairs (pairBytes pairs) = _
    rw [ih]

@[simp] theorem length_pairBytes (pairs : List (UInt8 × UInt8)) :
    (pairBytes pairs).length = 2 * pairs.length := by
  induction pairs with
  | nil => rfl
  | cons p pairs ih =>
    change (pairBytes pairs).length + 2 = _
    rw [ih, List.length_cons]
    omega

/-- What an action packet carries is read back. -/
theorem actionPairs_pairBytes (pairs : List (UInt8 × UInt8)) :
    actionPairs (pairBytes pairs) pairs.length = pairs := by
  induction pairs with
  | nil => rfl
  | cons p pairs ih =>
    rw [List.length_cons, actionPairs, List.range_succ_eq_map, List.map_cons, List.map_map]
    conv_rhs => rw [← ih]
    refine congrArg (p :: ·) (List.map_congr_left fun i _ => ?_)
    simp [pairBytes, Nat.add_mul, Nat.succ_eq_add_one]

/-- The pairs of address and action of messages, in queue order. -/
def doPairs (msgs : List UartMsg) : List (UInt8 × UInt8) :=
  msgs.flatMap fun m => bytePairs m.payload.tail

/-- What a pair of a module's index and a value asks for. -/
def pairAction (p : UInt8 × UInt8) : UInt8 × UInt8 :=
  (p.1 + 1, if p.2 != 0 then doTurnOn else doTurnOff)

/-! ## The packet -/

/-- The MQTT packet with these pairs. -/
def switchPacket (pairs : List (UInt8 × UInt8)) : List UInt8 :=
  mqttCmdDoAction :: UInt8.ofNat (1 + 2 * pairs.length) ::
    UInt8.ofNat ((1 + 2 * pairs.length) / 256) :: mqttDataSwitchState :: pairBytes pairs

/-- The message for one pair. -/
def pairMsg (p : UInt8 × UInt8) : UartMsg := ⟨3, cmdDoModule :: pairBytes [pairAction p]⟩

theorem run_mqttSwitch (s : State) (pairs : List (UInt8 × UInt8)) :
    Trace.run step s (pairs.map fun p => .mqttSwitch p.1 (p.2 != 0)) =
      .ok { s with queue := s.queue ++ pairs.map pairMsg } := by
  induction pairs generalizing s with
  | nil => simp
  | cons p pairs ih =>
    have hstep : step s (.mqttSwitch p.1 (p.2 != 0)) =
        .ok { s with queue := s.queue ++ [pairMsg p] } := rfl
    rw [List.map_cons, run_cons, hstep, ok_bind, ih, List.map_cons, ← List.append_cons]

/-- **The packet queues one message for each pair**, in order. -/
theorem mqttData_switchPacket (s : State) (hlen : 1 + 2 * pairs.length < 65536) :
    mqttData s (switchPacket pairs) =
      .ok { s with queue := s.queue ++ pairs.map pairMsg } := by
  have hlength : mqttLength (UInt8.ofNat (1 + 2 * pairs.length))
      (UInt8.ofNat ((1 + 2 * pairs.length) / 256)) = 1 + 2 * pairs.length := by
    rw [mqttLength, UInt8.toNat_ofNat', UInt8.toNat_ofNat']
    omega
  have hcount : actionCount (1 + 2 * pairs.length) = pairs.length := by
    unfold actionCount
    omega
  have hdata := mqttData_switchState s (UInt8.ofNat (1 + 2 * pairs.length))
    (UInt8.ofNat ((1 + 2 * pairs.length) / 256)) (pairBytes pairs)
    (by rw [hlength, hcount, length_pairBytes])
  rw [hlength, hcount, actionPairs_pairBytes, run_mqttSwitch] at hdata
  exact hdata

theorem doPairs_pairMsgs (pairs : List (UInt8 × UInt8)) :
    doPairs (pairs.map pairMsg) = pairs.map pairAction := by
  induction pairs with
  | nil => rfl
  | cons p pairs ih =>
    change pairAction p :: doPairs (pairs.map pairMsg) = _
    rw [ih, List.map_cons]

/-! ## The request -/

/-- The On characteristic of the module with this index. -/
def onPtr (a : AccPtr) (k : Nat) (index : UInt8) : CharPtr := ⟨a, k + index.toNat, 0⟩

/-- The item writes the value of the pair to the On characteristic of its module. -/
structure WritesPair (s : State) (hc : CharPtr) (on : Bool) (o : Members) : Prop where
  aid : objGetInt (some o) keyAid = some 1
  iid : ∃ c, s.db.char? hc = some c ∧ objGetInt (some o) keyIid = some (c.iid : Int)
  ev : objGetBool (some o) keyEv = none
  value : objGetBool (some o) keyValue = some on

/-- The request is no timed write that is late, and its items write the values of the pairs to
the On characteristics of their modules, in order. -/
structure PutWrites (s : State) (a : AccPtr) (k : Nat) (session : Session) (curTime : Int)
    (body : JsonVal) (pairs : List (UInt8 × UInt8)) : Prop where
  timely : (timedWrite session curTime (bodyRoot body)).1 = true →
    (timedWrite session curTime (bodyRoot body)).2 = true
  length : (bodyElems body).length = pairs.length
  item : ∀ (i : Nat) (p : UInt8 × UInt8), pairs[i]? = some p →
    ∃ o, (bodyElems body)[i]? = some (.obj o) ∧ WritesPair s (onPtr a k p.1) (p.2 != 0) o

/-- A characteristic is found by its id in the services that have it. -/
theorem findCharByIid_ne_none (ha : AccPtr) {iid : Int} {servs : List HapServ} {j l : Nat}
    {hs : HapServ} {c : HapChar} (hserv : servs[j]? = some hs) (hchar : hs.chars[l]? = some c)
    (hiid : (c.iid : Int) = iid) (i : Nat) : HapDb.findCharByIid ha iid i servs ≠ none := by
  induction servs generalizing i j with
  | nil => cases hserv
  | cons hs' servs ih =>
    unfold HapDb.findCharByIid
    cases hfind : hapServGetCharByIid hs' iid with
    | some l' => simp
    | none =>
      cases j with
      | zero =>
        cases hserv
        have hne := List.findIdx?_eq_none_iff.1 hfind c (List.mem_of_getElem? hchar)
        simp [hiid] at hne
      | succ j => exact ih hserv (i + 1)

/-- **The registered accessory finds each of its characteristics** by its id. -/
theorem Registered.accGetCharByIid_eq (h : Registered s a k) {p : CharPtr} {c : HapChar}
    (hp : p.acc = a) (hc : s.db.char? p = some c) :
    s.db.accGetCharByIid (some a) c.iid = some p := by
  obtain ⟨acc, hacc, -, -⟩ := h.acc
  obtain ⟨acc', hs, hacc', hserv, hchar⟩ := HapDb.char?_eq_some.1 hc
  rw [hp, hacc] at hacc'
  cases hacc'
  have hget : s.db.accGetCharByIid (some a) c.iid =
      HapDb.findCharByIid a c.iid 0 acc.servs := by
    simp [HapDb.accGetCharByIid, hacc]
  obtain ⟨q, hq⟩ := Option.ne_none_iff_exists'.1
    (findCharByIid_ne_none a hserv hchar rfl 0)
  rw [hget, hq]
  obtain ⟨hqa, j, hs', d, hj, hs', hd, hiid⟩ := findCharByIid_eq_some hq
  have hqd : s.db.char? q = some d := HapDb.char?_eq_some.2
    ⟨acc, _, by rw [hqa]; exact hacc, by rw [hj, Nat.zero_add]; exact hs', hd⟩
  exact congrArg some (h.iid_inj hqa hp hqd hc (by exact_mod_cast hiid))

/-- A writable On characteristic, as the checks on an item look at it. -/
theorem HapDb.OnWritable.of_char? {db : HapDb} (h : db.OnWritable) {p : CharPtr} {c : HapChar}
    (hc : db.char? p = some c) (hon : c.typeUuid = .on) :
    c.permission = onPermission ∧ c.format = .bool ∧
      (db.serv? p.parent).any (·.writeCb) = true := by
  obtain ⟨acc, hs, hacc, hserv, hchar⟩ := HapDb.char?_eq_some.1 hc
  obtain ⟨hwritable, hcb⟩ := h acc (List.mem_of_getElem? hacc) hs (List.mem_of_getElem? hserv) c
    (List.mem_of_getElem? hchar)
  obtain ⟨hperm, hformat⟩ := hwritable hon
  refine ⟨hperm, hformat, ?_⟩
  simp [HapDb.serv?, CharPtr.parent, hacc, hserv, hcb hon]

/-- The checks accept an item that writes a value to an On characteristic. -/
theorem WritesPair.checkItem_eq {hc : CharPtr} {on : Bool} {o : Members}
    (h : WritesPair s hc on o) (hreg : Registered s a k) (hw : s.db.OnWritable)
    (ha : hc.acc = a) (htype : ∀ c, s.db.char? hc = some c → c.typeUuid = .on)
    {reqTw validTw : Bool} (htimely : reqTw = true → validTw = true) :
    checkItem s.db reqTw validTw (some o) = .write hc (.b on) := by
  obtain ⟨haid, ⟨c, hchar, hiid⟩, hev, hvalue⟩ := h
  obtain ⟨hperm, hformat, hcb⟩ := hw.of_char? hchar (htype c hchar)
  obtain ⟨acc, hacc, hone, -⟩ := hreg.acc
  have hget : s.db.accGetByAid 1 = some a := by
    simp [HapDb.accGetByAid, hreg.primaryAcc, hacc, hone]
  have hpw : c.hasPermission hapCharPermPW = true := by rw [HapChar.hasPermission, hperm]; rfl
  have htw : c.hasPermission hapCharPermTW = false := by rw [HapChar.hasPermission, hperm]; rfl
  have haa : c.hasPermission hapCharPermAA = false := by rw [HapChar.hasPermission, hperm]; rfl
  unfold checkItem
  simp only [haid, hiid, Option.getD_some, hget, hreg.accGetCharByIid_eq ha hchar, hchar]
  unfold checkChar
  simpa [htw, hev, hpw, haa, hcb, hformat, itemValue, hvalue] using htimely

/-- The write of a pair. -/
def pairWrite (a : AccPtr) (k : Nat) (p : UInt8 × UInt8) : CharPtr × HapVal :=
  (onPtr a k p.1, .b (p.2 != 0))

section Request

variable {session : Session} {curTime : Int} {body : JsonVal}

/-- **The handler accepts the writes of the pairs**, in order. -/
theorem PutWrites.acceptedWrites_eq (h : PutWrites s a k session curTime body pairs)
    (hreg : Registered s a k) (hw : s.db.OnWritable)
    (hidx : ∀ p ∈ pairs, p.1.toNat < s.moduleNum) :
    s.acceptedWrites session curTime body = pairs.map (pairWrite a k) := by
  have hobj : ∀ v ∈ bodyElems body, ∃ members, v = .obj members := by
    intro v hv
    obtain ⟨i, hi, rfl⟩ := List.getElem_of_mem hv
    have hlt : i < pairs.length := h.length ▸ hi
    obtain ⟨o, ho, -⟩ := h.item i pairs[i] (List.getElem?_eq_getElem hlt)
    rw [List.getElem?_eq_getElem hi, Option.some.injEq] at ho
    exact ⟨o, ho⟩
  have hitem : ∀ i p, pairs[i]? = some p →
      (s.itemOutcome session curTime body i).write? = some (pairWrite a k p) := by
    intro i p hp
    obtain ⟨o, ho, hwrites⟩ := h.item i p hp
    have hi := (List.getElem?_eq_some_iff.1 ho).1
    have hcur : itemObj body i = some o := by
      rw [itemObj, cursorAt_of_objects hobj hi, cursorObj, ho]
    have htype : ∀ c, s.db.char? (onPtr a k p.1) = some c → c.typeUuid = .on := by
      intro c hc
      obtain ⟨m, d, -, -, hd, hon⟩ := hreg.hc p.1.toNat (hidx p (List.mem_of_getElem? hp))
      rw [onPtr, hd] at hc
      cases hc
      exact hon
    rw [itemOutcome, hcur, hwrites.checkItem_eq hreg hw rfl htype h.timely]
    rfl
  have hwrites : ∀ i ∈ List.range pairs.length,
      (s.itemOutcome session curTime body i).write? =
        some (pairWrite a k (pairs.getD i (0, 0))) := by
    intro i hi
    have hlt := List.mem_range.1 hi
    rw [hitem i pairs[i] (List.getElem?_eq_getElem hlt), List.getD_eq_getElem _ _ hlt]
  rw [acceptedWrites, h.length, List.filterMap_eq_map_iff_forall_eq_some.2 hwrites]
  refine List.ext_getElem (by simp) fun i h1 h2 => ?_
  simp only [List.length_map] at h2
  simp [h2]

theorem Registered.isOn_pairWrite (hreg : Registered s a k) {p : UInt8 × UInt8}
    (hidx : p.1.toNat < s.moduleNum) : s.isOn (pairWrite a k p) = true := by
  obtain ⟨m, c, -, -, hc, hon⟩ := hreg.hc p.1.toNat hidx
  exact isOn_iff.2 ⟨c, hc, hon⟩

/-- The handler finds the address of the module. -/
theorem Registered.writeAddr_pairWrite (hreg : Registered s a k) {p : UInt8 × UInt8}
    (hidx : p.1.toNat < s.moduleNum) : s.writeAddr (pairWrite a k p) = p.1 + 1 := by
  obtain ⟨m, c, -, -, hc, -⟩ := hreg.hc p.1.toNat hidx
  have haddr := hreg.getModuleAddrByHc_eq (p := onPtr a k p.1) rfl hc
  have hmodule : moduleAddr k s.moduleNum (onPtr a k p.1) = p.1.toNat + 1 := by
    unfold moduleAddr onPtr
    rw [if_pos ⟨rfl, by simp, by simpa using hidx⟩]
    simp
  unfold writeAddr
  rw [pairWrite, haddr, hmodule, UInt8.ofNat_add, UInt8.ofNat_toNat]
  rfl

/-- The pairs the handler collects for the writes of the pairs. -/
theorem Registered.actPairs_eq (hreg : Registered s a k) (garbage : Garbage)
    (hidx : ∀ p ∈ pairs, p.1.toNat < s.moduleNum) :
    s.actPairs garbage (pairs.map (pairWrite a k)) = pairs.map pairAction := by
  have hall : (pairs.map (pairWrite a k)).filter s.isOn = pairs.map (pairWrite a k) := by
    refine List.filter_eq_self.2 fun w hw => ?_
    obtain ⟨p, hp, rfl⟩ := List.mem_map.1 hw
    exact hreg.isOn_pairWrite (hidx p hp)
  unfold actPairs
  rw [hall, List.drop_of_length_le (by simp), List.map_nil, List.append_nil, List.map_map]
  refine List.map_congr_left fun p hp => ?_
  show (s.writeAddr (pairWrite a k p), writeAct (pairWrite a k p)) = _
  rw [hreg.writeAddr_pairWrite (hidx p hp)]
  rfl

/-- **The request queues one message**, with as many of the pairs as an 8-bit counter of them
says. -/
theorem PutWrites.queues (h : PutWrites s a k session curTime body pairs)
    (hreg : Registered s a k) (hw : s.db.OnWritable)
    (hidx : ∀ p ∈ pairs, p.1.toNat < s.moduleNum) (garbage : Garbage) :
    ∃ r msgs, s.handleSetChar session curTime garbage body = .ok r ∧ Queues s r.state msgs ∧
      doPairs msgs = (pairs.map pairAction).take (pairs.length % 256) := by
  by_cases hnil : pairs = []
  · subst hnil
    have hempty : bodyElems body = [] := List.eq_nil_of_length_eq_zero h.length
    refine ⟨_, [], if_pos hempty, ⟨List.prefix_rfl, by simp⟩, rfl⟩
  · have hne : bodyElems body ≠ [] := by
      intro hempty
      have hlen := h.length
      rw [hempty] at hlen
      exact hnil (List.eq_nil_of_length_eq_zero hlen.symm)
    obtain ⟨r, hr, -, -, hqueue⟩ := handleSetChar_eq garbage hne hreg.live
      fun w _ _ => hreg.findsModule w.1
    rw [h.acceptedWrites_eq hreg hw hidx, if_neg (by simpa using hnil)] at hqueue
    refine ⟨r, [s.doMessage garbage (pairs.map (pairWrite a k))], hr, ⟨?_, ?_⟩, ?_⟩
    · rw [hqueue]
      exact List.prefix_append _ _
    · rw [hqueue, List.drop_left]
      rfl
    · have hpairs := hreg.actPairs_eq garbage hidx
      unfold doMessage
      rw [hpairs, List.length_map]
      show bytePairs (pairBytes _) ++ [] = _
      rw [bytePairs_pairBytes, List.append_nil]

end Request

/-! ## Both ways -/

/-- The packet and the request are handled, and what they queue reaches the modules with the
same pairs of address and action. -/
def SameActions (s : State) (packet : List UInt8) (session : Session) (curTime : Int)
    (garbage : Garbage) (body : JsonVal) : Prop :=
  ∃ t r msgs msgs', mqttData s packet = .ok t ∧ Queues s t msgs ∧
    s.handleSetChar session curTime garbage body = .ok r ∧ Queues s r.state msgs' ∧
      doPairs msgs = doPairs msgs'

variable {session : Session} {curTime : Int} {body : JsonVal}

/-- The pairs of both are the list itself, and what the counter keeps of it. -/
theorem PutWrites.sameActions_iff_take (h : PutWrites s a k session curTime body pairs)
    (hreg : Registered s a k) (hw : s.db.OnWritable)
    (hidx : ∀ p ∈ pairs, p.1.toNat < s.moduleNum) (hlen : 1 + 2 * pairs.length < 65536)
    (garbage : Garbage) :
    SameActions s (switchPacket pairs) session curTime garbage body ↔
      pairs.map pairAction = (pairs.map pairAction).take (pairs.length % 256) := by
  obtain ⟨r, msgs, hr, hqueues, hpairs⟩ := h.queues hreg hw hidx garbage
  have hmsgs : (pairs.map pairMsg).filter isDoModule = pairs.map pairMsg := by
    refine List.filter_eq_self.2 fun m hm => ?_
    obtain ⟨p, -, rfl⟩ := List.mem_map.1 hm
    rfl
  have hmqtt : Queues s { s with queue := s.queue ++ pairs.map pairMsg }
      (pairs.map pairMsg) := by
    refine ⟨List.prefix_append _ _, ?_⟩
    rw [List.drop_left, hmsgs]
  constructor
  · rintro ⟨t, r', msgs₁, msgs₂, ht, hq₁, hr', hq₂, hsame⟩
    rw [mqttData_switchPacket s hlen] at ht
    cases ht
    rw [hr] at hr'
    cases hr'
    rw [← hq₁.2, hmqtt.2, ← hq₂.2, hqueues.2, hpairs, doPairs_pairMsgs] at hsame
    exact hsame
  · intro hsame
    refine ⟨_, r, _, msgs, mqttData_switchPacket s hlen, hmqtt, hr, hqueues, ?_⟩
    rw [hpairs, doPairs_pairMsgs]
    exact hsame

/-- **Both ways reach the modules with the same pairs** exactly if there are fewer than 256: for
every state that can be reached with its modules registered, every list of pairs and every
request that writes the same. -/
theorem sameActions_iff {s₀ : State} (hboot : Booted s₀) (hreach : Reachable step s₀ s)
    (hreg : Registered s a k) (hidx : ∀ p ∈ pairs, p.1.toNat < s.moduleNum)
    (hlen : 1 + 2 * pairs.length < 65536) (h : PutWrites s a k session curTime body pairs)
    (garbage : Garbage) :
    SameActions s (switchPacket pairs) session curTime garbage body ↔ pairs.length < 256 := by
  rw [h.sameActions_iff_take hreg (hboot.onWritable hreach) hidx hlen garbage, eq_comm,
    List.take_eq_self_iff, List.length_map]
  omega

/-! ## One module -/

/-- The link message of an only module. -/
def linkLamp : Event := linkEvent (0, ⟨1, 1, [0x61], 0, false⟩)

/-- The item that writes `true` to the characteristic with the id 12. -/
def itemTrue : Members :=
  [(keyAid, .prim [0x31]), (keyIid, .prim [0x31, 0x32]),
    (keyValue, .prim [0x74, 0x72, 0x75, 0x65])]

/-- The body with `n` such items. -/
def putTrue (n : Nat) : JsonVal :=
  .obj [(keyCharacteristics, .arr (List.replicate n (.obj itemTrue)))]

/-- The only module is registered, and its On characteristic has the id 12. -/
theorem registered_lamp : ∃ s, step State.bootDefault linkLamp = .ok s ∧ Registered s 0 2 ∧
    s.moduleNum = 1 ∧ (s.db.char? ⟨0, 2, 0⟩).map HapChar.iid = some 12 := by
  obtain ⟨s, a, hs, hown⟩ := ownOn_onlyModule
  obtain ⟨s', hs', hcheck⟩ := exists_of_okAnd (x := step State.bootDefault linkLamp)
    (p := fun s => s.db.primaryAcc = some 0 ∧ s.moduleNum = 1 ∧
      (s.db.char? ⟨0, 2, 0⟩).map HapChar.iid = some 12) (by decide +kernel)
  have hsame : s' = s := Except.ok.inj (hs'.symm.trans hs)
  subst hsame
  obtain ⟨hprim, hnum, hiid⟩ := of_decide_eq_true hcheck
  rw [hown.primaryAcc, Option.some.injEq] at hprim
  exact ⟨s', hs, hprim ▸ hown.toRegistered, hnum, hiid⟩

/-- A body writes `true` to the only module as often as it has items. -/
theorem putWrites_putTrue (n : Nat) (hiid : (s.db.char? ⟨0, 2, 0⟩).map HapChar.iid = some 12) :
    PutWrites s 0 2 plainSession 0 (putTrue n) (List.replicate n (0, 1)) := by
  obtain ⟨c, hc, hc12⟩ := Option.map_eq_some_iff.1 hiid
  have hitem : WritesPair s ⟨0, 2, 0⟩ true itemTrue :=
    ⟨by decide, ⟨c, hc, by rw [hc12]; decide⟩, by decide, by decide⟩
  have helems : bodyElems (putTrue n) = List.replicate n (.obj itemTrue) := rfl
  refine ⟨fun h => (by cases h), by rw [helems, List.length_replicate, List.length_replicate],
    fun i p hp => ?_⟩
  rw [List.getElem?_replicate] at hp
  by_cases hi : i < n
  · rw [if_pos hi] at hp
    cases hp
    exact ⟨itemTrue, by rw [helems, List.getElem?_replicate, if_pos hi], hitem⟩
  · rw [if_neg hi] at hp
    cases hp

/-- With 255 pairs for the only module both ways queue the same. -/
theorem sameActions_lamp : ∃ s, step State.bootDefault linkLamp = .ok s ∧ ∀ garbage,
    SameActions s (switchPacket (List.replicate 255 (0, 1))) plainSession 0 garbage
      (putTrue 255) := by
  obtain ⟨s, hs, hreg, hnum, hiid⟩ := registered_lamp
  have hreach : Reachable step State.bootDefault s := ⟨[linkLamp], run_singleton.trans hs⟩
  have hidx : ∀ p ∈ List.replicate 255 ((0, 1) : UInt8 × UInt8), p.1.toNat < s.moduleNum := by
    intro p hp
    rw [List.eq_of_mem_replicate hp, hnum]
    decide
  refine ⟨s, hs, fun garbage => (sameActions_iff booted_bootDefault hreach hreg hidx ?_
    (putWrites_putTrue 255 hiid) garbage).2 ?_⟩
  · rw [List.length_replicate]
    decide
  · rw [List.length_replicate]
    decide

/-- With 256 pairs the request queues none of them. -/
theorem not_sameActions_lamp : ∃ s, step State.bootDefault linkLamp = .ok s ∧
    Registered s 0 2 ∧
    PutWrites s 0 2 plainSession 0 (putTrue 256) (List.replicate 256 (0, 1)) ∧ ∀ garbage,
      ¬ SameActions s (switchPacket (List.replicate 256 (0, 1))) plainSession 0 garbage
        (putTrue 256) := by
  obtain ⟨s, hs, hreg, hnum, hiid⟩ := registered_lamp
  have hput := putWrites_putTrue (s := s) 256 hiid
  have hreach : Reachable step State.bootDefault s := ⟨[linkLamp], run_singleton.trans hs⟩
  have hidx : ∀ p ∈ List.replicate 256 ((0, 1) : UInt8 × UInt8), p.1.toNat < s.moduleNum := by
    intro p hp
    rw [List.eq_of_mem_replicate hp, hnum]
    decide
  refine ⟨s, hs, hreg, hput, fun garbage hsame => ?_⟩
  have htake := (hput.sameActions_iff_take hreg (booted_bootDefault.onWritable hreach) hidx
    (by rw [List.length_replicate]; decide) garbage).1 hsame
  rw [eq_comm, List.take_eq_self_iff, List.length_map, List.length_replicate] at htake
  exact absurd htake (by decide)

end NinaHomekit
