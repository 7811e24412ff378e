import NinaHomekit.Hap.SetChar

/-!
# What a `PUT /characteristics` does

The handler of `SetChar` without its loops: the items one by one, then the accepted writes one
by one.

* `itemOutcome` — what happens to an item; the notes the items before it left in the database
  do not matter.
* `acceptedWrites`, `refusals` — the writes and the objects of the response the first loop
  collects (`collectBody_eq`).
* `groupLoop_eq` — **the loop over groups of writes to one service treats every write once, in
  order.**
* `FindsModule` — the search for the module of a characteristic ends (`isOk_getModuleAddrByHc`).
* `handleSetChar_eq`, `finds_of_handleSetChar` — **what the handler returns**, and when.
-/

namespace NinaHomekit

open Trace

namespace State

variable {s t : State} {db db' : HapDb}

/-! ## The outcomes of the items -/

theorem checkItem_of_sameCore (h : SameCore db db') (reqTw validTw : Bool) (o : Option Members) :
    checkItem db' reqTw validTw o = checkItem db reqTw validTw o := by
  unfold checkItem
  simp only [h.accGetByAid, h.accGetCharByIid]
  rcases db.accGetCharByIid _ _ with _ | hc
  · rfl
  · have hchar := h.map_char? hc
    have hserv := h.map_serv? hc.parent
    simp only
    rcases hd : db.char? hc with _ | c
    · rw [hd] at hchar
      rw [Option.map_eq_none_iff.1 hchar]
    · rw [hd, Option.map_some, Option.map_eq_some_iff] at hchar
      obtain ⟨c', hc', hcore⟩ := hchar
      have hperm : c'.permission = c.permission := by
        show c'.core.permission = c.core.permission
        rw [hcore]
      have hformat : c'.format = c.format := by
        show c'.core.format = c.core.format
        rw [hcore]
      have hcb : (db'.serv? hc.parent).any (·.writeCb) = (db.serv? hc.parent).any (·.writeCb) := by
        have hany : ∀ o : Option HapServ,
            (o.any fun hs => hs.writeCb) = (o.map HapServ.core).any fun hs => hs.writeCb := by
          intro o
          cases o <;> rfl
        rw [hany, hserv, ← hany]
      rw [hc']
      simp only [checkChar, HapChar.hasPermission, hperm, hformat, hcb]
      rfl

/-- The object the loop reads the item `i` from. -/
def itemObj (body : JsonVal) (i : Nat) : Option Members :=
  cursorObj (bodyRoot body) (bodyElems body) (cursorAt (bodyElems body) i)

/-- What happens to the item `i` of a request. -/
def itemOutcome (s : State) (session : Session) (curTime : Int) (body : JsonVal) (i : Nat) :
    ItemOutcome :=
  checkItem s.db (timedWrite session curTime (bodyRoot body)).1
    (timedWrite session curTime (bodyRoot body)).2 (itemObj body i)

/-- The write an item is accepted as. -/
def ItemOutcome.write? : ItemOutcome → Option (CharPtr × HapVal)
  | .write hc val => some (hc, val)
  | _ => none

/-- The object of the response for the item `i`. -/
def itemReport (body : JsonVal) (i : Nat) (status : Int) : StatusReport :=
  ⟨(objGetInt (itemObj body i) keyAid).getD 0, (objGetInt (itemObj body i) keyIid).getD 0, status⟩

/-- The object of the response for an item that is refused. -/
def ItemOutcome.refusal? (body : JsonVal) (i : Nat) : ItemOutcome → Option StatusReport
  | .report status => some (itemReport body i status)
  | _ => none

/-- The writes of a request that are accepted, in order. -/
def acceptedWrites (s : State) (session : Session) (curTime : Int) (body : JsonVal) :
    List (CharPtr × HapVal) :=
  (List.range (bodyElems body).length).filterMap fun i =>
    (s.itemOutcome session curTime body i).write?

/-- The objects of the response for the items that are refused, in order. -/
def refusals (s : State) (session : Session) (curTime : Int) (body : JsonVal) :
    List StatusReport :=
  (List.range (bodyElems body).length).filterMap fun i =>
    (s.itemOutcome session curTime body i).refusal? body i

/-- Where the cursor is before the loop looks at the item `i`. -/
def cursorBefore (elems : List JsonVal) : Nat → Cursor
  | 0 => arrGetObject elems .array 0
  | i + 1 => cursorAt elems i

theorem cursorAt_eq (elems : List JsonVal) (i : Nat) :
    cursorAt elems i = arrGetObject elems (arrLeaveObject (cursorBefore elems i)) i := by
  cases i <;> rfl

/-- **The first loop**: the writes and the refusals of the items, in order.  Induction on the
number of passes. -/
theorem collectBody_eq (s : State) (session : Session) (curTime : Int) (body : JsonVal) :
    ∃ cursor db, SameCore s.db db ∧ s.collectBody session curTime body =
      ⟨cursor, db, s.acceptedWrites session curTime body,
        s.refusals session curTime body⟩ := by
  have hloop : ∀ n, ∃ db, SameCore s.db db ∧
      (List.range n).foldl (collectItem (bodyRoot body) (bodyElems body)
          (timedWrite session curTime (bodyRoot body)).1
          (timedWrite session curTime (bodyRoot body)).2 session.index)
        ⟨arrGetObject (bodyElems body) .array 0, s.db, [], []⟩ =
      ⟨cursorBefore (bodyElems body) n, db,
        (List.range n).filterMap fun i => (s.itemOutcome session curTime body i).write?,
        (List.range n).filterMap fun i =>
          (s.itemOutcome session curTime body i).refusal? body i⟩ := by
    intro n
    induction n with
    | zero => exact ⟨s.db, SameCore.refl _, rfl⟩
    | succ n ih =>
      obtain ⟨db, hcore, hrun⟩ := ih
      rw [List.range_succ, List.foldl_append, hrun, List.foldl_cons, List.foldl_nil,
        List.filterMap_append, List.filterMap_append]
      have hpass := sameCore_collectItem (bodyRoot body) (bodyElems body)
        (timedWrite session curTime (bodyRoot body)).1
        (timedWrite session curTime (bodyRoot body)).2 session.index
        ⟨cursorBefore (bodyElems body) n, db,
          (List.range n).filterMap fun i => (s.itemOutcome session curTime body i).write?,
          (List.range n).filterMap fun i =>
            (s.itemOutcome session curTime body i).refusal? body i⟩ n
      refine ⟨_, hcore.trans hpass, ?_⟩
      have hcheck : checkItem db (timedWrite session curTime (bodyRoot body)).1
          (timedWrite session curTime (bodyRoot body)).2 (itemObj body n) =
            s.itemOutcome session curTime body n := checkItem_of_sameCore hcore ..
      unfold collectItem
      dsimp only
      rw [← cursorAt_eq, ← itemObj, hcheck]
      cases hout : s.itemOutcome session curTime body n with
      | report status =>
        simp [ItemOutcome.write?, ItemOutcome.refusal?, cursorBefore, itemReport, hout]
      | notify hc ev => simp [ItemOutcome.write?, ItemOutcome.refusal?, cursorBefore, hout]
      | write hc val => simp [ItemOutcome.write?, ItemOutcome.refusal?, cursorBefore, hout]
  obtain ⟨db, hcore, hrun⟩ := hloop (bodyElems body).length
  exact ⟨_, db, hcore, hrun⟩

/-! ## The characteristic of an accepted write -/

theorem findCharByIid_eq_some {ha : AccPtr} {iid : Int} {i : Nat} {servs : List HapServ}
    {p : CharPtr} (h : HapDb.findCharByIid ha iid i servs = some p) :
    p.acc = ha ∧ ∃ j hs c, p.serv = i + j ∧ servs[j]? = some hs ∧ hs.chars[p.char]? = some c ∧
      (c.iid : Int) = iid := by
  induction servs generalizing i with
  | nil => cases h
  | cons hs servs ih =>
    unfold HapDb.findCharByIid at h
    split at h
    · rename_i k hk
      cases h
      obtain ⟨hlt, hiid, -⟩ := List.findIdx?_eq_some_iff_getElem.1 hk
      exact ⟨rfl, 0, hs, hs.chars[k], rfl, rfl, List.getElem?_eq_getElem hlt,
        of_decide_eq_true hiid⟩
    · obtain ⟨hacc, j, hs', c, hserv, hs, hc, hiid⟩ := ih h
      exact ⟨hacc, j + 1, hs', c, by omega, hs, hc, hiid⟩

/-- The checks on an item accept it as a write of the characteristic they look at. -/
theorem checkChar_eq_write {reqTw validTw : Bool} {o : Option Members} {hc hc' : CharPtr}
    {c : HapChar} {val : HapVal} (h : checkChar db reqTw validTw o hc c = .write hc' val) :
    hc = hc' := by
  unfold checkChar at h
  split at h <;> try cases h
  split at h <;> try cases h
  split at h
  · split at h <;> cases h
  · split at h <;> try cases h
    split at h <;> try cases h
    split at h <;> try cases h
    split at h <;> cases h
    rfl

/-- An item is accepted as a write of the characteristic it names. -/
theorem itemOutcome_write {session : Session} {curTime : Int} {body : JsonVal} {i : Nat}
    {hc : CharPtr} {val : HapVal} (h : s.itemOutcome session curTime body i = .write hc val) :
    s.db.primaryAcc = some hc.acc ∧ (∃ c, s.db.char? hc = some c) ∧
      ∀ status, s.writeReport (hc, val) status = itemReport body i status := by
  unfold itemOutcome checkItem at h
  dsimp only at h
  split at h
  · cases h
  · rename_i hc' hfound
    split at h
    · cases h
    · rename_i c hchar
      have hsame := checkChar_eq_write h
      subst hsame
      obtain ⟨ha, hget, hfind⟩ := Option.bind_eq_some_iff.1 hfound
      obtain ⟨acc, hacc, hfind⟩ := Option.bind_eq_some_iff.1 hfind
      obtain ⟨hpa, j, hs, d, hserv, hhs, hd, hiid⟩ := findCharByIid_eq_some hfind
      obtain ⟨hprim, haid⟩ := Option.filter_eq_some_iff.1 hget
      have hcd : s.db.char? hc' = some d :=
        HapDb.char?_eq_some.2 ⟨acc, hs, by rw [hpa]; exact hacc,
          by rw [hserv, Nat.zero_add]; exact hhs, hd⟩
      refine ⟨by rw [hprim, hpa], ⟨c, hchar⟩, fun status => ?_⟩
      rw [hacc] at haid
      have haid' : (acc.aid : Int) = (objGetInt (itemObj body i) keyAid).getD 0 :=
        of_decide_eq_true haid
      simp only [writeReport, itemReport, hpa, hacc, hcd, Option.map_some, Option.getD_some,
        haid', hiid]

theorem mem_acceptedWrites {session : Session} {curTime : Int} {body : JsonVal}
    {write : CharPtr × HapVal} (h : write ∈ s.acceptedWrites session curTime body) :
    ∃ i < (bodyElems body).length,
      s.itemOutcome session curTime body i = .write write.1 write.2 := by
  obtain ⟨i, hi, hwrite⟩ := List.mem_filterMap.1 h
  refine ⟨i, List.mem_range.1 hi, ?_⟩
  cases hout : s.itemOutcome session curTime body i with
  | report status => simp [ItemOutcome.write?, hout] at hwrite
  | notify hc ev => simp [ItemOutcome.write?, hout] at hwrite
  | write hc val =>
    rw [hout] at hwrite
    cases hwrite
    rfl

/-! ## The second loop -/

/-- **The loop over groups of writes** treats every write once, in order.  Induction on the
passes that are left; the writes from `hsIndex` to `i` are the group so far. -/
theorem groupLoop_eq (s : State) (writes : List (CharPtr × HapVal)) {i hsIndex : Nat}
    (hi : i ≤ writes.length) (hle : hsIndex ≤ i) (hs : ServPtr) (a : ActLoop) :
    s.groupLoop writes (List.range' i (writes.length + 1 - i)) hs hsIndex a =
      (writes.drop hsIndex).foldlM s.actWrite a := by
  obtain ⟨n, hn⟩ : ∃ n, writes.length - i = n := ⟨_, rfl⟩
  induction n generalizing i hsIndex hs a with
  | zero =>
    have hlen : i = writes.length := by omega
    have hnone : writes[i]? = none := List.getElem?_eq_none hlen.ge
    have htake : (writes.drop hsIndex).take (i - hsIndex) = writes.drop hsIndex := by
      apply List.take_of_length_le
      rw [List.length_drop]
      omega
    rw [show writes.length + 1 - i = 1 by omega, List.range'_one, groupLoop]
    simp only [hnone, htake, groupLoop]
    rw [if_neg (by simp)]
    cases (writes.drop hsIndex).foldlM s.actWrite a <;> rfl
  | succ n ih =>
    have hlt : i < writes.length := by omega
    rw [show writes.length + 1 - i = (writes.length + 1 - (i + 1)) + 1 by omega,
      List.range'_succ, groupLoop]
    by_cases hsame : writes[i]?.any (·.1.parent = hs)
    · rw [if_pos hsame]
      exact ih hlt (by omega) hs a (by omega)
    · rw [if_neg hsame, List.getElem?_eq_getElem hlt]
      have hsplit : writes.drop hsIndex =
          (writes.drop hsIndex).take (i - hsIndex) ++ writes.drop i := by
        conv_lhs => rw [← List.take_append_drop (i - hsIndex) (writes.drop hsIndex)]
        rw [List.drop_drop, Nat.add_sub_cancel' hle]
      conv_rhs => rw [hsplit, List.foldlM_append]
      refine congrArg _ (funext fun b => ?_)
      exact ih hlt (by omega) _ b (by omega)

/-! ## One write -/

/-- The write is one of an On characteristic. -/
def isOn (s : State) (write : CharPtr × HapVal) : Bool :=
  (s.db.char? write.1).any (·.typeUuid = .on)

theorem isOn_iff {write : CharPtr × HapVal} :
    s.isOn write = true ↔ ∃ c, s.db.char? write.1 = some c ∧ c.typeUuid = .on := by
  simp [isOn, Option.any_eq_true]

/-- The status the loop gives a write. -/
def writeStatus (s : State) (write : CharPtr × HapVal) : Int :=
  if s.isOn write then hapStatusSuccess else hapStatusResAbsent

/-- The address the loop finds for a write. -/
def writeAddr (s : State) (write : CharPtr × HapVal) : UInt8 :=
  (s.getModuleAddrByHc (some write.1)).toOption.getD 0

/-- The action of a write. -/
def writeAct (write : CharPtr × HapVal) : UInt8 := if valB write.2 then doTurnOn else doTurnOff

/-- The search for the module of a characteristic does not fault: in front of every slot that
points to no characteristic there is one whose characteristic has the id. -/
def FindsModule (s : State) (p : CharPtr) : Prop :=
  ∀ i < s.moduleNum, s.slotIid i = none →
    ∃ j < i, s.slotIid j = (s.db.char? p).map HapChar.iid

/-- One round of the search. -/
theorem findModuleAddr_cons {p : CharPtr} {c : HapChar} (hc : s.db.char? p = some c) {i : Nat}
    (hi : i < 256) {iid : Nat} (hiid : s.slotIid i = some iid) (is : List Nat) :
    s.findModuleAddr (some p) (i :: is) =
      if iid = c.iid then .ok (UInt8.ofNat (i + 1)) else s.findModuleAddr (some p) is := by
  obtain ⟨m, hm, hslot⟩ := bind_eq_ok.1 ((slotIid_eq_some hi).1 hiid)
  have hfind : s.charGetIid (some p) = .ok c.iid := by
    rw [charGetIid, hc]
  simp only [findModuleAddr, hm, hslot, hfind, ok_bind]
  rfl

theorem not_isOk_findModuleAddr {p : CharPtr} {i : Nat} (hi : i < 256)
    (hnone : s.slotIid i = none) (is : List Nat) {addr : UInt8} :
    s.findModuleAddr (some p) (i :: is) ≠ .ok addr := by
  intro h
  obtain ⟨m, hm, h⟩ := bind_eq_ok.1 h
  obtain ⟨iid, hiid, -⟩ := bind_eq_ok.1 h
  have hsome := (slotIid_eq_some hi).2 (bind_eq_ok.2 ⟨m, hm, hiid⟩)
  rw [hnone] at hsome
  cases hsome

theorem isOk_findModuleAddr {p : CharPtr} {c : HapChar} (hc : s.db.char? p = some c)
    (n i : Nat) (hle : i + n ≤ 256) :
    (∃ addr, s.findModuleAddr (some p) (List.range' i n) = .ok addr) ↔
      ∀ j, i ≤ j → j < i + n → s.slotIid j = none →
        ∃ k, i ≤ k ∧ k < j ∧ s.slotIid k = some c.iid := by
  induction n generalizing i with
  | zero => exact iff_of_true ⟨0, rfl⟩ fun j h1 h2 => absurd h2 (by omega)
  | succ n ih =>
    rw [List.range'_succ]
    rcases hiid : s.slotIid i with _ | iid
    · constructor
      · rintro ⟨addr, h⟩
        exact absurd h (not_isOk_findModuleAddr (by omega) hiid _)
      · intro h
        obtain ⟨k, h1, h2, -⟩ := h i le_rfl (by omega) hiid
        omega
    · rw [findModuleAddr_cons hc (by omega) hiid]
      by_cases hsame : iid = c.iid
      · rw [if_pos hsame]
        refine iff_of_true ⟨_, rfl⟩ fun j h1 h2 hj => ⟨i, le_rfl, ?_, by rw [hiid, hsame]⟩
        refine lt_of_le_of_ne h1 fun hij => ?_
        rw [← hij, hiid] at hj
        cases hj
      · rw [if_neg hsame, ih (i + 1) (by omega)]
        constructor
        · intro h j h1 h2 hj
          have hne : i ≠ j := by
            rintro rfl
            rw [hiid] at hj
            cases hj
          obtain ⟨k, hk, hkj, hk'⟩ := h j (by omega) (by omega) hj
          exact ⟨k, by omega, hkj, hk'⟩
        · intro h j h1 h2 hj
          obtain ⟨k, hk, hkj, hk'⟩ := h j (by omega) (by omega) hj
          refine ⟨k, ?_, hkj, hk'⟩
          refine lt_of_le_of_ne hk fun hik => ?_
          rw [← hik, hiid] at hk'
          exact hsame (Option.some.inj hk')

/-- **The search for a module** ends exactly if no slot without a characteristic is in its
way. -/
theorem isOk_getModuleAddrByHc {p : CharPtr} {c : HapChar} (hc : s.db.char? p = some c) :
    (∃ addr, s.getModuleAddrByHc (some p) = .ok addr) ↔ s.FindsModule p := by
  have hnum := s.moduleNum_lt
  unfold getModuleAddrByHc FindsModule
  rw [List.range_eq_range', isOk_findModuleAddr hc s.moduleNum 0 (by omega), hc]
  simp only [Nat.zero_le, true_and, forall_const, Nat.zero_add, Option.map_some]

theorem writeAddr_eq {write : CharPtr × HapVal} {c : HapChar} (hc : s.db.char? write.1 = some c)
    (h : s.FindsModule write.1) :
    s.getModuleAddrByHc (some write.1) = .ok (s.writeAddr write) := by
  obtain ⟨addr, haddr⟩ := (isOk_getModuleAddrByHc hc).2 h
  rw [writeAddr, haddr]
  rfl

theorem actWrite_of_isOn {write : CharPtr × HapVal} (hon : s.isOn write = true)
    (hfind : s.FindsModule write.1) {as bs as' bs' : List UInt8} {x y : UInt8} {sts : List Int}
    (hlen : bs.length = as.length) :
    s.actWrite ⟨as ++ x :: as', bs ++ y :: bs', as.length, sts⟩ write =
      .ok ⟨as ++ s.writeAddr write :: as', bs ++ writeAct write :: bs', as.length + 1,
        sts ++ [s.writeStatus write]⟩ := by
  obtain ⟨c, hc, htype⟩ := isOn_iff.1 hon
  have haddr := writeAddr_eq hc hfind
  unfold actWrite writeStatus
  rw [hon]
  simp only [hc, htype, if_true, haddr, ok_bind, poke_append as x _ as' rfl,
    poke_append bs y _ bs' hlen.symm]
  rfl

theorem actWrite_of_not_isOn {write : CharPtr × HapVal} {c : HapChar}
    (hc : s.db.char? write.1 = some c) (hon : s.isOn write = false) (a : ActLoop) :
    s.actWrite a write = .ok { a with statuses := a.statuses ++ [s.writeStatus write] } := by
  have htype : c.typeUuid ≠ .on := by
    simpa [isOn, hc] using hon
  unfold actWrite writeStatus
  rw [hon]
  simp only [hc, if_neg htype]
  rfl

/-- **The writes, one by one**: the On writes fill the two arrays from the front, and every
write gets its status.  Induction on the writes. -/
theorem foldlM_actWrite {writes : List (CharPtr × HapVal)}
    (hchar : ∀ w ∈ writes, ∃ c, s.db.char? w.1 = some c)
    (hfind : ∀ w ∈ writes, s.isOn w → s.FindsModule w.1) (as bs as' bs' : List UInt8)
    (sts : List Int) (hlen : bs.length = as.length)
    (has : (writes.filter s.isOn).length ≤ as'.length)
    (hbs : (writes.filter s.isOn).length ≤ bs'.length) :
    writes.foldlM s.actWrite ⟨as ++ as', bs ++ bs', as.length, sts⟩ =
      .ok ⟨as ++ (writes.filter s.isOn).map s.writeAddr ++
          as'.drop (writes.filter s.isOn).length,
        bs ++ (writes.filter s.isOn).map writeAct ++ bs'.drop (writes.filter s.isOn).length,
        as.length + (writes.filter s.isOn).length, sts ++ writes.map s.writeStatus⟩ := by
  induction writes generalizing as bs as' bs' sts with
  | nil => simp [List.foldlM_nil, pure, Except.pure]
  | cons w writes ih =>
    obtain ⟨c, hc⟩ := hchar w (by simp)
    have hchar' : ∀ w ∈ writes, ∃ c, s.db.char? w.1 = some c :=
      fun v hv => hchar v (List.mem_cons_of_mem _ hv)
    have hfind' : ∀ w ∈ writes, s.isOn w → s.FindsModule w.1 :=
      fun v hv => hfind v (List.mem_cons_of_mem _ hv)
    rw [List.foldlM_cons]
    by_cases hon : s.isOn w = true
    · rw [List.filter_cons_of_pos hon] at has hbs ⊢
      cases as' with
      | nil => simp at has
      | cons x as' =>
        cases bs' with
        | nil => simp at hbs
        | cons y bs' =>
          rw [actWrite_of_isOn hon (hfind w (by simp) hon) hlen, ok_bind]
          have hrest := ih hchar' hfind' (as ++ [s.writeAddr w]) (bs ++ [writeAct w]) as' bs'
            (sts ++ [s.writeStatus w]) (by simp [hlen]) (by simpa using has) (by simpa using hbs)
          simp only [List.append_assoc, List.singleton_append, List.length_append,
            List.length_singleton] at hrest
          rw [hrest]
          simp only [List.map_cons, List.length_cons, List.append_assoc, List.cons_append,
            List.drop_succ_cons, Nat.add_assoc, Nat.add_comm 1]
    · have hoff : s.isOn w = false := by simpa using hon
      rw [List.filter_cons_of_neg hon] at has hbs ⊢
      have hrest := ih hchar' hfind' as bs as' bs' (sts ++ [s.writeStatus w]) hlen has hbs
      rw [List.append_assoc sts] at hrest
      rw [actWrite_of_not_isOn hc hoff, ok_bind]
      exact hrest

/-- A loop over writes that ends has found the module of every On write. -/
theorem finds_of_foldlM_actWrite {writes : List (CharPtr × HapVal)} {a b : ActLoop}
    (h : writes.foldlM s.actWrite a = .ok b) : ∀ w ∈ writes, s.isOn w → s.FindsModule w.1 := by
  induction writes generalizing a with
  | nil =>
    intro w hw
    cases hw
  | cons v writes ih =>
    rw [List.foldlM_cons] at h
    obtain ⟨a', hv, hrest⟩ := bind_eq_ok.1 h
    intro w hw hon
    rcases List.mem_cons.1 hw with rfl | hw
    · obtain ⟨c, hc, htype⟩ := isOn_iff.1 hon
      unfold actWrite at hv
      simp only [hc, htype, if_true] at hv
      obtain ⟨addr, haddr, -⟩ := bind_eq_ok.1 hv
      exact (isOk_getModuleAddrByHc hc).1 ⟨addr, haddr⟩
    · exact ih hrest w hw hon

/-! ## After the first loop -/

section SameCore

variable (h : SameCore s.db db)
include h

theorem isOn_of_sameCore (write : CharPtr × HapVal) :
    ({ s with db := db } : State).isOn write = s.isOn write := by
  have hany : ∀ o : Option HapChar, o.any (·.typeUuid = .on) =
      (o.map HapChar.typeUuid).any (· = .on) := by
    intro o
    cases o <;> rfl
  unfold isOn
  rw [hany, hany]
  show ((db.char? write.1).map HapChar.typeUuid).any _ = _
  rw [h.map_char?_eq _ HapChar.typeUuid fun _ => rfl]

theorem charGetIid_of_sameCore (p : Option CharPtr) :
    ({ s with db := db } : State).charGetIid p = s.charGetIid p := by
  cases p with
  | none => rfl
  | some p =>
    have hiid : ∀ t : State, t.charGetIid (some p) =
        match (t.db.char? p).map HapChar.iid with
        | none => .error .nullDeref
        | some iid => .ok iid := by
      intro t
      simp only [charGetIid]
      cases t.db.char? p <;> rfl
    rw [hiid, hiid]
    show (match (db.char? p).map HapChar.iid with | none => _ | some iid => _) = _
    rw [h.map_char?_eq _ HapChar.iid fun _ => rfl]

theorem getModuleAddrByHc_of_sameCore (p : Option CharPtr) :
    ({ s with db := db } : State).getModuleAddrByHc p = s.getModuleAddrByHc p := by
  have hfind : ∀ is : List Nat,
      ({ s with db := db } : State).findModuleAddr p is = s.findModuleAddr p is := by
    intro is
    induction is with
    | nil => rfl
    | cons i is ih =>
      unfold findModuleAddr
      simp only [charGetIid_of_sameCore h, ih]
      rfl
  exact hfind _

theorem writeAddr_of_sameCore (write : CharPtr × HapVal) :
    ({ s with db := db } : State).writeAddr write = s.writeAddr write := by
  unfold writeAddr
  rw [getModuleAddrByHc_of_sameCore h]

theorem writeReport_of_sameCore (write : CharPtr × HapVal) (status : Int) :
    ({ s with db := db } : State).writeReport write status = s.writeReport write status := by
  have haid : (db.accs[write.1.acc]?).map HapAcc.aid = (s.db.accs[write.1.acc]?).map HapAcc.aid := by
    rw [← List.getElem?_map, ← List.getElem?_map, h.map_eq HapAcc.aid fun _ => rfl]
  unfold writeReport
  show StatusReport.mk (((db.accs[write.1.acc]?).map HapAcc.aid).getD 0 : Nat)
    (((db.char? write.1).map HapChar.iid).getD 0) _ = _
  rw [haid, h.map_char?_eq _ HapChar.iid fun _ => rfl]

theorem findsModule_of_sameCore {p : CharPtr} {c : HapChar} (hc : s.db.char? p = some c) :
    ({ s with db := db } : State).FindsModule p ↔ s.FindsModule p := by
  obtain ⟨d, hd, -⟩ := h.exists_char? hc
  rw [← isOk_getModuleAddrByHc (s := { s with db := db }) hd, getModuleAddrByHc_of_sameCore h,
    isOk_getModuleAddrByHc hc]

end SameCore

/-! ## The handler -/

/-- The pairs in the two arrays after the loop: those of the On writes, then what `malloc`
left. -/
def actPairs (s : State) (garbage : Garbage) (writes : List (CharPtr × HapVal)) :
    List (UInt8 × UInt8) :=
  (writes.filter s.isOn).map (fun w => (s.writeAddr w, writeAct w)) ++
    ((List.range writes.length).drop (writes.filter s.isOn).length).map
      fun i => (garbage.addrs i, garbage.acts i)

theorem length_actPairs (s : State) (garbage : Garbage) (writes : List (CharPtr × HapVal)) :
    (s.actPairs garbage writes).length = writes.length := by
  have hle := List.length_filter_le s.isOn writes
  simp only [actPairs, List.length_append, List.length_map, List.length_drop, List.length_range]
  omega

/-- The message for a request with these accepted writes; its length is that of an 8-bit
counter of the writes. -/
def doMessage (s : State) (garbage : Garbage) (writes : List (CharPtr × HapVal)) : UartMsg :=
  ⟨3, cmdDoModule :: ((s.actPairs garbage writes).take (writes.length % 256)).flatMap
    fun (addr, action) => [addr, action]⟩

/-- The objects of the response. -/
def response (s : State) (session : Session) (curTime : Int) (body : JsonVal) :
    List StatusReport :=
  if s.refusals session curTime body = [] then []
  else s.refusals session curTime body ++ (s.acceptedWrites session curTime body).map
    fun w => s.writeReport w (s.writeStatus w)

theorem actOnWrites_eq {writes : List (CharPtr × HapVal)} (garbage : Garbage)
    (report : List StatusReport) (hne : writes ≠ [])
    (hchar : ∀ w ∈ writes, ∃ c, s.db.char? w.1 = some c)
    (hfind : ∀ w ∈ writes, s.isOn w → s.FindsModule w.1) :
    s.actOnWrites garbage report writes = .ok ({ s with
        queue := s.queue ++ [s.doMessage garbage writes] },
      if report = [] then [] else report ++ writes.map fun w => s.writeReport w (s.writeStatus w)) := by
  obtain ⟨w, rest, hcons⟩ := List.exists_cons_of_ne_nil hne
  have hle := List.length_filter_le s.isOn writes
  have hloop := foldlM_actWrite hchar hfind [] [] ((List.range writes.length).map garbage.addrs)
    ((List.range writes.length).map garbage.acts) [] rfl (by simpa using hle) (by simpa using hle)
  have hgroup := groupLoop_eq s writes (Nat.zero_le _) le_rfl w.1.parent
    ⟨(List.range writes.length).map garbage.addrs, (List.range writes.length).map garbage.acts,
      0, []⟩
  simp only [List.nil_append, List.length_nil, Nat.zero_add] at hloop
  rw [Nat.sub_zero, ← List.range_eq_range', List.drop_zero, hloop] at hgroup
  have hzip : ((writes.filter s.isOn).map s.writeAddr ++ ((List.range writes.length).map
      garbage.addrs).drop (writes.filter s.isOn).length).zip ((writes.filter s.isOn).map writeAct ++
        ((List.range writes.length).map garbage.acts).drop (writes.filter s.isOn).length) =
      s.actPairs garbage writes := by
    unfold actPairs
    rw [List.zip_append (by simp), List.zip_map', ← List.map_drop, ← List.map_drop, List.zip_map']
  have hmod : (UInt8.ofNat writes.length).toNat = writes.length % 256 := by simp
  have hle' : writes.length % 256 ≤ writes.length := Nat.mod_le _ _
  subst hcons
  unfold actOnWrites
  simp only [hgroup, ok_bind]
  rw [doModulesAction, if_pos]
  · simp only [ok_bind, List.zipWith_map_right, List.zipWith_self, hzip, hmod]
    rfl
  · rw [hmod]
    simp only [List.length_append, List.length_map, List.length_drop, List.length_range]
    omega

/-- **What the handler returns**, when the primary accessory is there and it finds the modules of
all On writes. -/
theorem handleSetChar_eq {session : Session} {curTime : Int} (garbage : Garbage) {body : JsonVal}
    (hne : bodyElems body ≠ []) (hlive : s.db.primaryDeleted = false)
    (hfind : ∀ w ∈ s.acceptedWrites session curTime body, s.isOn w → s.FindsModule w.1) :
    ∃ r, s.handleSetChar session curTime garbage body = .ok r ∧
      r.report = s.response session curTime body ∧
      r.ret = (if s.response session curTime body ≠ [] then hapFail
        else if s.acceptedWrites session curTime body = [] then garbage.ret else hapSuccess) ∧
      r.state.queue = s.queue ++ if s.acceptedWrites session curTime body = [] then []
        else [s.doMessage garbage (s.acceptedWrites session curTime body)] := by
  obtain ⟨cursor, db, hcore, hcollect⟩ := s.collectBody_eq session curTime body
  have hchar : ∀ w ∈ s.acceptedWrites session curTime body, ∃ c, s.db.char? w.1 = some c := by
    intro w hw
    obtain ⟨i, -, hout⟩ := mem_acceptedWrites hw
    exact (itemOutcome_write hout).2.1
  unfold handleSetChar
  simp only [if_neg hne, hlive, Bool.false_eq_true, if_false, hcollect]
  by_cases hnil : s.acceptedWrites session curTime body = []
  · have hresponse : s.response session curTime body = s.refusals session curTime body := by
      unfold response
      rw [hnil, List.map_nil, List.append_nil]
      split
      · rename_i href
        exact href.symm
      · rfl
    simp only [hnil, hresponse, actOnWrites, ok_bind, if_true, List.append_nil]
    exact ⟨_, rfl, rfl, rfl, rfl⟩
  · have hon := isOn_of_sameCore hcore
    have hchar' : ∀ w ∈ s.acceptedWrites session curTime body, ∃ c, db.char? w.1 = some c := by
      intro w hw
      obtain ⟨c, hc⟩ := hchar w hw
      obtain ⟨d, hd, -⟩ := hcore.exists_char? hc
      exact ⟨d, hd⟩
    have hfind' : ∀ w ∈ s.acceptedWrites session curTime body,
        ({ s with db := db } : State).isOn w → ({ s with db := db } : State).FindsModule w.1 := by
      intro w hw hw'
      obtain ⟨c, hc⟩ := hchar w hw
      rw [hon] at hw'
      exact (findsModule_of_sameCore hcore hc).2 (hfind w hw hw')
    have hreport : ((s.acceptedWrites session curTime body).map fun w =>
        ({ s with db := db } : State).writeReport w (({ s with db := db } : State).writeStatus w)) =
          (s.acceptedWrites session curTime body).map fun w =>
            s.writeReport w (s.writeStatus w) := by
      refine List.map_congr_left fun w _ => ?_
      unfold writeStatus
      rw [hon, writeReport_of_sameCore hcore]
    have hmsg : ({ s with db := db } : State).doMessage garbage
        (s.acceptedWrites session curTime body) =
          s.doMessage garbage (s.acceptedWrites session curTime body) := by
      unfold doMessage actPairs
      rw [funext hon, funext (writeAddr_of_sameCore hcore)]
    rw [actOnWrites_eq (s := { s with db := db }) garbage (s.refusals session curTime body) hnil
      hchar' hfind', hreport, hmsg, ok_bind]
    simp only [if_neg hnil]
    exact ⟨_, rfl, rfl, rfl, rfl⟩

/-- A handler that returns was not given a deleted accessory. -/
theorem live_of_handleSetChar {session : Session} {curTime : Int} {garbage : Garbage}
    {body : JsonVal} {r : SetCharResult} (hne : bodyElems body ≠ [])
    (h : s.handleSetChar session curTime garbage body = .ok r) :
    s.db.primaryDeleted = false := by
  unfold handleSetChar at h
  simp only [if_neg hne] at h
  split at h
  · cases h
  · rename_i hlive
    simpa using hlive

/-- A handler that returns has found the modules of all On writes. -/
theorem finds_of_handleSetChar {session : Session} {curTime : Int} {garbage : Garbage}
    {body : JsonVal} {r : SetCharResult} (hne : bodyElems body ≠ [])
    (h : s.handleSetChar session curTime garbage body = .ok r) :
    ∀ w ∈ s.acceptedWrites session curTime body, s.isOn w → s.FindsModule w.1 := by
  obtain ⟨cursor, db, hcore, hcollect⟩ := s.collectBody_eq session curTime body
  intro w hw hon
  obtain ⟨i, -, hout⟩ := mem_acceptedWrites hw
  obtain ⟨-, ⟨c, hc⟩, -⟩ := itemOutcome_write hout
  have hlive := live_of_handleSetChar hne h
  unfold handleSetChar at h
  simp only [if_neg hne, hlive, Bool.false_eq_true, if_false, hcollect] at h
  obtain ⟨v, hv, -⟩ := bind_eq_ok.1 h
  rcases hwrites : s.acceptedWrites session curTime body with _ | ⟨w₀, rest⟩
  · rw [hwrites] at hw
    cases hw
  · rw [hwrites] at hv hw
    obtain ⟨a, ha, -⟩ := bind_eq_ok.1 hv
    have hgroup := groupLoop_eq { s with db := db } (w₀ :: rest) (Nat.zero_le _) le_rfl
      w₀.1.parent ⟨(List.range (w₀ :: rest).length).map garbage.addrs,
        (List.range (w₀ :: rest).length).map garbage.acts, 0, []⟩
    rw [Nat.sub_zero, ← List.range_eq_range', List.drop_zero, ha] at hgroup
    have hfound := finds_of_foldlM_actWrite hgroup.symm w hw
    rw [isOn_of_sameCore hcore] at hfound
    exact (findsModule_of_sameCore hcore hc).1 (hfound hon)

end State

end NinaHomekit
