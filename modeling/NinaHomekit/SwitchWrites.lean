import NinaHomekit.Hap.Truthful
import NinaHomekit.Overload
import NinaHomekit.Registered

/-!
# From a `PUT /characteristics` to the modules

The writes to On characteristics a request makes should reach the bus as one `DO_MODULE`
message with a pair for each.  The handler takes the pairs from two arrays that the On writes
fill, and their number from a counter of all writes, which is narrowed to 8 bits.

* `OwnOn` — the modules are registered, and the other services have no On characteristic, as a
  complete link sequence leaves it (`Completed.ownOn`).
* `Translates` — what should be queued.
* `CountsFit` — the counter of all writes is the number of pairs.
* `OfLinked` — a write is for a linked module.
* `translates_iff` — **a request is translated exactly if the counts fit and every On write is for
  a linked module.**
-/

namespace NinaHomekit

open Trace State

variable {s t : State} {a : AccPtr} {k : Nat}

/-! ## The registered accessory -/

/-- The linked modules are registered in the accessory `a` behind its first `k` services, and
they have its On characteristics. -/
structure OwnOn (s : State) (a : AccPtr) (k : Nat) : Prop extends Registered s a k where
  on_only : ∀ p c, p.acc = a → s.db.char? p = some c → c.typeUuid = .on →
    p.char = 0 ∧ k ≤ p.serv ∧ p.serv < k + s.moduleNum

/-- Every slot of a registered module points to a characteristic. -/
theorem Registered.findsModule (h : Registered s a k) (p : CharPtr) : s.FindsModule p := by
  intro i hi hnone
  obtain ⟨m, c, hm, hhc, hc, -⟩ := h.hc i hi
  simp [slotIid, hm, hhc, hc] at hnone

/-- The services every accessory starts with have no On characteristic. -/
theorem HapAcc.New.typeUuid_ne_on {base : HapAcc} (h : base.New) {i j : Nat} {hs : HapServ}
    {c : HapChar} (hserv : base.servs[i]? = some hs) (hchar : hs.chars[j]? = some c) :
    c.typeUuid ≠ .on := by
  obtain ⟨s, aid, rfl⟩ := h
  have hall : ∀ hs ∈ s.freshAcc.servs, ∀ c ∈ hs.chars, c.typeUuid ≠ .on := by
    rw [freshAcc_eq]
    simp
  exact hall hs (List.mem_of_getElem? hserv) c (List.mem_of_getElem? hchar)

/-- Only the first characteristic of the service of a module is an On. -/
theorem char_eq_zero_of_moduleServ {m : ModuleT} {n j : Nat} {c : HapChar}
    (hchar : (numberChars n (moduleServ m).chars)[j]? = some c) (htype : c.typeUuid = .on) :
    j = 0 := by
  rw [getElem?_numberChars, Option.map_eq_some_iff] at hchar
  obtain ⟨d, hd, rfl⟩ := hchar
  cases j with
  | zero => rfl
  | succ j =>
    have hmem : d ∈ (hapCharNameCreate m.name).toList := List.mem_of_getElem? hd
    rw [Option.mem_toList] at hmem
    have hname : d.typeUuid = .name := by
      unfold hapCharNameCreate hapCharStringCreate hapCharCreate at hmem
      dsimp only at hmem
      split at hmem
      · split at hmem
        · cases hmem
        · exact Option.some.inj hmem ▸ rfl
      · exact Option.some.inj hmem ▸ rfl
    rw [show d.typeUuid = .on from htype] at hname
    cases hname

/-- The On characteristics of a new accessory are those of the modules that were added. -/
theorem Completed.ownOn {base : HapAcc} {ms : List ModuleT} (h : Completed t a base ms) :
    OwnOn t a 2 := by
  refine ⟨h.registered, fun p c hp hc htype => ?_⟩
  obtain ⟨acc, hs, hacc, hserv, hchar⟩ := HapDb.char?_eq_some.1 hc
  rw [hp, h.acc] at hacc
  cases hacc
  have hlen : (ms.take t.moduleNum).length = t.moduleNum := by
    have := congrArg List.length h.slots
    have hle := h.num_le
    simp only [length_slots, List.length_mapIdx] at this
    rw [List.length_take]
    omega
  have hbase := h.new.length_servs
  by_cases hlt : p.serv < 2
  · have hleft : (addModules base (ms.take t.moduleNum)).servs[p.serv]? = base.servs[p.serv]? :=
      getElem?_servs_addModules_left _ _ (by omega)
    exact absurd htype (h.new.typeUuid_ne_on (hleft ▸ hserv) hchar)
  · obtain ⟨i, hi⟩ : ∃ i, p.serv = base.servs.length + i := ⟨p.serv - 2, by omega⟩
    have hright := getElem?_servs_addModules base (ms.take t.moduleNum) i
    rw [← hi] at hright
    obtain ⟨m, hm, rfl⟩ := Option.map_eq_some_iff.1 (hright ▸ hserv)
    have hlt' := (List.getElem?_eq_some_iff.1 hm).1
    exact ⟨char_eq_zero_of_moduleServ hchar htype, by omega, by omega⟩

/-! ## What should be queued -/

/-- The accepted writes of On characteristics, in request order. -/
def State.onWrites (s : State) (session : Session) (curTime : Int) (body : JsonVal) :
    List (CharPtr × HapVal) :=
  (s.acceptedWrites session curTime body).filter s.isOn

/-- The address of the module and the action of a write. -/
def modulePair (k n : Nat) (write : CharPtr × HapVal) : List UInt8 :=
  [UInt8.ofNat (moduleAddr k n write.1), if valB write.2 then 0x6E else 0x66]

/-- A request is translated: it queues a `DO_MODULE` message with exactly the pairs of the
accepted writes of On characteristics, or none if there are none, and each is for a module. -/
def Translates (s : State) (k : Nat) (session : Session) (curTime : Int) (garbage : Garbage)
    (body : JsonVal) : Prop :=
  ∃ r, s.handleSetChar session curTime garbage body = .ok r ∧
    Queues s r.state (if s.onWrites session curTime body = [] then []
      else [⟨3, 0x44 :: (s.onWrites session curTime body).flatMap
        (modulePair k s.moduleNum)⟩]) ∧
    ∀ w ∈ s.onWrites session curTime body,
      1 ≤ moduleAddr k s.moduleNum w.1 ∧ moduleAddr k s.moduleNum w.1 ≤ s.moduleNum

/-- Nothing is written, or an On characteristic is, and as an 8-bit number there are as many
writes as there are of On characteristics. -/
def CountsFit (s : State) (session : Session) (curTime : Int) (body : JsonVal) : Prop :=
  s.acceptedWrites session curTime body = [] ∨
    (s.onWrites session curTime body ≠ [] ∧
      (s.acceptedWrites session curTime body).length % 256 =
        (s.onWrites session curTime body).length)

/-- The write is of the On characteristic of a linked module, which are those behind the first `k`
services. -/
def OfLinked (s : State) (k : Nat) (write : CharPtr × HapVal) : Prop :=
  write.1.char = 0 ∧ k ≤ write.1.serv ∧ write.1.serv < k + s.moduleNum

theorem writeAddr_of_registered (h : Registered s a k) {session : Session} {curTime : Int}
    {body : JsonVal} {w : CharPtr × HapVal} (hw : w ∈ s.acceptedWrites session curTime body) :
    s.writeAddr w = UInt8.ofNat (moduleAddr k s.moduleNum w.1) := by
  obtain ⟨i, -, hout⟩ := mem_acceptedWrites hw
  obtain ⟨hacc, ⟨c, hc⟩, -⟩ := itemOutcome_write hout
  rw [h.primaryAcc, Option.some.injEq] at hacc
  rw [writeAddr, h.getModuleAddrByHc_eq hacc.symm hc]
  rfl

/-- The address of a write is that of a linked module exactly if it is for one. -/
theorem moduleAddr_iff {w : CharPtr × HapVal} :
    1 ≤ moduleAddr k s.moduleNum w.1 ∧ moduleAddr k s.moduleNum w.1 ≤ s.moduleNum ↔
      OfLinked s k w := by
  unfold moduleAddr OfLinked
  split <;> omega

/-- Where only the modules have On characteristics, every accepted write of one is for a module. -/
theorem ofLinked_of_ownOn (h : OwnOn s a k) {session : Session} {curTime : Int}
    {body : JsonVal} {w : CharPtr × HapVal} (hw : w ∈ s.onWrites session curTime body) :
    OfLinked s k w := by
  obtain ⟨hwrite, hon⟩ := List.mem_filter.1 hw
  obtain ⟨i, -, hout⟩ := mem_acceptedWrites hwrite
  obtain ⟨hacc, -⟩ := itemOutcome_write hout
  rw [h.primaryAcc, Option.some.injEq] at hacc
  obtain ⟨c, hc, htype⟩ := isOn_iff.1 hon
  exact h.on_only w.1 c hacc.symm hc htype

/-! ## When it is -/

theorem length_flatMap_pair {α β : Type} (f : α → List β) (hf : ∀ x, (f x).length = 2)
    (l : List α) : (l.flatMap f).length = 2 * l.length := by
  induction l with
  | nil => rfl
  | cons x l ih =>
    rw [List.flatMap_cons, List.length_append, hf, ih, List.length_cons]
    omega

/-- **The message has exactly the pairs of the On writes** exactly if the counter of all writes
is their number. -/
theorem doMessage_eq_iff (h : Registered s a k) (garbage : Garbage) (session : Session)
    (curTime : Int) (body : JsonVal) :
    s.doMessage garbage (s.acceptedWrites session curTime body) =
        ⟨3, 0x44 :: (s.onWrites session curTime body).flatMap (modulePair k s.moduleNum)⟩ ↔
      (s.acceptedWrites session curTime body).length % 256 =
        (s.onWrites session curTime body).length := by
  have hlen := length_actPairs s garbage (s.acceptedWrites session curTime body)
  have hle := Nat.mod_le (s.acceptedWrites session curTime body).length 256
  constructor
  · intro heq
    have hbytes := congrArg (fun m => m.payload.length) heq
    simp only [doMessage, List.length_cons] at hbytes
    rw [length_flatMap_pair _ (fun _ => rfl), length_flatMap_pair _ (fun _ => rfl),
      List.length_take, hlen] at hbytes
    omega
  · intro hcount
    have hpairs : (s.actPairs garbage (s.acceptedWrites session curTime body)).take
        ((s.acceptedWrites session curTime body).length % 256) =
          (s.onWrites session curTime body).map fun w => (s.writeAddr w, writeAct w) := by
      rw [hcount]
      unfold actPairs onWrites
      exact List.take_left' (by simp)
    unfold doMessage
    rw [hpairs, List.flatMap_map]
    refine congrArg (fun bytes => UartMsg.mk 3 (0x44 :: bytes)) (List.flatMap_congr fun w hw => ?_)
    rw [writeAddr_of_registered h (List.mem_of_mem_filter hw)]
    rfl

/-- **A request is translated exactly if the counts fit** and every accepted write of an On
characteristic is for a linked module, whatever `malloc` left in the arrays. -/
theorem translates_iff (h : Registered s a k) (session : Session) (curTime : Int)
    (garbage : Garbage) (body : JsonVal) :
    Translates s k session curTime garbage body ↔
      CountsFit s session curTime body ∧
        ∀ w ∈ s.onWrites session curTime body, OfLinked s k w := by
  by_cases hne : bodyElems body = []
  · have hnil : s.acceptedWrites session curTime body = [] := by
      unfold acceptedWrites
      rw [hne]
      rfl
    have hon : s.onWrites session curTime body = [] := by
      unfold onWrites
      rw [hnil]
      rfl
    refine iff_of_true ?_ ⟨Or.inl hnil, by simp [hon]⟩
    unfold Translates handleSetChar
    rw [if_pos hne, if_pos hon, hon]
    refine ⟨_, rfl, ⟨List.prefix_rfl, by simp⟩, by simp⟩
  · have hfind : ∀ w ∈ s.acceptedWrites session curTime body, s.isOn w → s.FindsModule w.1 :=
      fun w _ _ => h.findsModule w.1
    obtain ⟨r, hr, -, -, hqueue⟩ := handleSetChar_eq garbage hne h.live hfind
    have hqueues : ∀ msgs, Queues s r.state msgs ↔
        (if s.acceptedWrites session curTime body = [] then []
          else [s.doMessage garbage (s.acceptedWrites session curTime body)]) = msgs := by
      intro msgs
      unfold Queues
      rw [hqueue, List.drop_left]
      refine (and_iff_right (List.prefix_append _ _)).trans (Eq.congr_left ?_)
      split <;> rfl
    have hiff : Translates s k session curTime garbage body ↔
        Queues s r.state (if s.onWrites session curTime body = [] then []
          else [⟨3, 0x44 :: (s.onWrites session curTime body).flatMap
            (modulePair k s.moduleNum)⟩]) ∧
          ∀ w ∈ s.onWrites session curTime body, OfLinked s k w := by
      constructor
      · rintro ⟨r', hr', hmsgs, haddr⟩
        rw [hr] at hr'
        cases hr'
        exact ⟨hmsgs, fun w hw => moduleAddr_iff.1 (haddr w hw)⟩
      · rintro ⟨hmsgs, hlinked⟩
        exact ⟨r, hr, hmsgs, fun w hw => moduleAddr_iff.2 (hlinked w hw)⟩
    rw [hiff, hqueues]
    refine and_congr_left fun _ => ?_
    unfold CountsFit
    by_cases hnil : s.acceptedWrites session curTime body = []
    · have hon : s.onWrites session curTime body = [] := by
        unfold onWrites
        rw [hnil]
        rfl
      rw [if_pos hnil, if_pos hon]
      exact iff_of_true rfl (Or.inl hnil)
    · rw [if_neg hnil, or_iff_right hnil]
      by_cases hon : s.onWrites session curTime body = []
      · rw [if_pos hon]
        exact iff_of_false (by simp) fun hcount => hcount.1 hon
      · rw [if_neg hon, List.singleton_inj, doMessage_eq_iff h]
        exact (and_iff_right hon).symm

/-! ## One module -/

/-- The link message of an only module leaves it registered. -/
theorem ownOn_onlyModule : ∃ s a, step State.bootDefault
    (linkEvent (0, ⟨1, 1, [0x61], 0, false⟩)) = .ok s ∧ OwnOn s a 2 := by
  obtain ⟨s, hs, -, -, hlast⟩ := linkMsg_of_linking (s := State.bootDefault)
    (m := ⟨1, 1, [0x61], 0, false⟩) (c := 0) 0 ⟨by decide, by decide, by decide⟩
    (fun hne => absurd rfl hne) (fun _ => rfl) (by decide)
  obtain ⟨a, base, ms, hcomp⟩ := hlast rfl
  exact ⟨s, a, hs, hcomp.ownOn⟩

/-- The only module is switched on. -/
theorem translates_on : ∃ s, step State.bootDefault
    (linkEvent (0, ⟨1, 1, [0x61], 0, false⟩)) = .ok s ∧
      ∀ garbage, Translates s 2 plainSession 0 garbage (writeTrue [0x31, 0x32]) := by
  obtain ⟨s, a, hs, hown⟩ := ownOn_onlyModule
  obtain ⟨s', hs', hcheck⟩ := exists_of_okAnd
    (x := step State.bootDefault (linkEvent (0, ⟨1, 1, [0x61], 0, false⟩)))
    (p := fun s => s.onWrites plainSession 0 (writeTrue [0x31, 0x32]) ≠ [] ∧
      (s.acceptedWrites plainSession 0 (writeTrue [0x31, 0x32])).length % 256 =
        (s.onWrites plainSession 0 (writeTrue [0x31, 0x32])).length) (by decide +kernel)
  rw [hs] at hs'
  cases hs'
  have hcount := of_decide_eq_true hcheck
  exact ⟨s, hs, fun garbage => (translates_iff hown.toRegistered plainSession 0 garbage _).2
    ⟨Or.inr hcount, fun w hw => ofLinked_of_ownOn hown hw⟩⟩

/-- A write of the Identify characteristic queues a pair nobody wrote. -/
theorem not_translates_identify : ∃ s a, step State.bootDefault
    (linkEvent (0, ⟨1, 1, [0x61], 0, false⟩)) = .ok s ∧ Registered s a 2 ∧
      ¬ ∀ garbage, Translates s 2 plainSession 0 garbage (writeTrue [0x32]) := by
  obtain ⟨s, a, hs, hown⟩ := ownOn_onlyModule
  obtain ⟨s', hs', hcheck⟩ := exists_of_okAnd
    (x := step State.bootDefault (linkEvent (0, ⟨1, 1, [0x61], 0, false⟩)))
    (p := fun s => okAnd (s.handleSetChar plainSession 0 ⟨fun _ => 1, fun _ => doTurnOn, 0⟩
        (writeTrue [0x32])) fun r => s.onWrites plainSession 0 (writeTrue [0x32]) = [] ∧
      Queues s r.state [⟨3, [0x44, 1, doTurnOn]⟩]) (by decide +kernel)
  rw [hs] at hs'
  cases hs'
  obtain ⟨r, hr, hcheck⟩ := exists_of_okAnd hcheck
  obtain ⟨hon, hqueues⟩ := of_decide_eq_true hcheck
  refine ⟨s, a, hs, hown.toRegistered, fun h => ?_⟩
  obtain ⟨r', hr', hnone, -⟩ := h ⟨fun _ => 1, fun _ => doTurnOn, 0⟩
  rw [hr] at hr'
  cases hr'
  rw [if_pos hon] at hnone
  exact absurd (hqueues.2.symm.trans hnone.2) (by simp)

end NinaHomekit
