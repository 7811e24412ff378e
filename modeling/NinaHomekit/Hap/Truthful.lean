import NinaHomekit.Hap.SetCharSpec
import NinaHomekit.System

/-!
# Whether the answer to a `PUT /characteristics` is true

`HAP_SUCCESS`, which is sent as 204, should mean that every item succeeded, and otherwise the
items that failed should be in the response.

* `itemStatus` — what becomes of an item.
* `Truthful` — what the answer should say.
* `SomeRefused`, `OnlyOn`, `Answerable` — the requests that are answered truthfully: an item is
  refused, or there are writes and all of them are of On characteristics, while the primary
  accessory is there.
* `truthful_iff` — **the answer is true exactly for these.**
-/

namespace NinaHomekit

open Trace

namespace State

variable {s : State} {session : Session} {curTime : Int} {body : JsonVal}

/-! ## What becomes of an item -/

/-- The status of the item `i`: that of its refusal, that of its write, or success for a
subscription that is applied. -/
def itemStatus (s : State) (session : Session) (curTime : Int) (body : JsonVal) (i : Nat) : Int :=
  match s.itemOutcome session curTime body i with
  | .report status => status
  | .notify _ _ => hapStatusSuccess
  | .write hc val => s.writeStatus (hc, val)

/-- Every item of the request succeeded. -/
def AllSucceed (s : State) (session : Session) (curTime : Int) (body : JsonVal) : Prop :=
  ∀ i < (bodyElems body).length, s.itemStatus session curTime body i = hapStatusSuccess

/-- The answer is true: it is `HAP_SUCCESS` exactly if every item succeeded, and otherwise the
response has every item that failed, with its status. -/
def Truthful (s : State) (session : Session) (curTime : Int) (garbage : Garbage)
    (body : JsonVal) : Prop :=
  ∃ r, s.handleSetChar session curTime garbage body = .ok r ∧
    (r.ret = hapSuccess ↔ s.AllSucceed session curTime body) ∧
    (¬ s.AllSucceed session curTime body → ∀ i < (bodyElems body).length,
      s.itemStatus session curTime body i ≠ hapStatusSuccess →
        itemReport body i (s.itemStatus session curTime body i) ∈ r.report)

/-! ## Which requests -/

/-- Some item is refused by the checks. -/
def SomeRefused (s : State) (session : Session) (curTime : Int) (body : JsonVal) : Prop :=
  ∃ i < (bodyElems body).length, ∃ status, s.itemOutcome session curTime body i = .report status

/-- Something is written, and only On characteristics are. -/
def OnlyOn (s : State) (session : Session) (curTime : Int) (body : JsonVal) : Prop :=
  s.acceptedWrites session curTime body ≠ [] ∧
    ∀ w ∈ s.acceptedWrites session curTime body, s.isOn w

/-- The primary accessory is there, the modules of the On characteristics that are written are
found, and an item is refused or only On characteristics are written. -/
def Answerable (s : State) (session : Session) (curTime : Int) (body : JsonVal) : Prop :=
  s.db.primaryDeleted = false ∧
  (∀ w ∈ s.acceptedWrites session curTime body, s.isOn w → s.FindsModule w.1) ∧
    (s.SomeRefused session curTime body ∨ s.OnlyOn session curTime body)

/-! ## The statuses -/

theorem checkChar_report_ne {db : HapDb} {reqTw validTw : Bool} {o : Option Members}
    {hc : CharPtr} {c : HapChar} {status : Int}
    (h : checkChar db reqTw validTw o hc c = .report status) : status ≠ hapStatusSuccess := by
  have hinvalid : hapStatusValInvalid ≠ hapStatusSuccess := by decide
  unfold checkChar at h
  split at h
  · cases h
    exact hinvalid
  split at h
  · cases h
    exact hinvalid
  split at h
  · split at h <;> cases h
    decide
  split at h
  · cases h
    decide
  split at h
  · cases h
    decide
  split at h
  · cases h
    exact hinvalid
  split at h <;> cases h
  exact hinvalid

/-- No refusal has the status of a success. -/
theorem itemOutcome_report_ne {i : Nat} {status : Int}
    (h : s.itemOutcome session curTime body i = .report status) : status ≠ hapStatusSuccess := by
  unfold itemOutcome checkItem at h
  dsimp only at h
  split at h
  · cases h
    decide
  · split at h
    · cases h
      decide
    · exact checkChar_report_ne h

theorem refusals_eq_nil_iff :
    s.refusals session curTime body = [] ↔ ¬ s.SomeRefused session curTime body := by
  unfold refusals SomeRefused
  rw [List.filterMap_eq_nil_iff]
  constructor
  · rintro h ⟨i, hi, status, hout⟩
    have hnone := h i (List.mem_range.2 hi)
    rw [hout] at hnone
    cases hnone
  · intro h i hi
    cases hout : s.itemOutcome session curTime body i with
    | report status => exact absurd ⟨i, List.mem_range.1 hi, status, hout⟩ h
    | notify hc ev => rfl
    | write hc val => rfl

theorem mem_acceptedWrites_of {i : Nat} (hi : i < (bodyElems body).length) {hc : CharPtr}
    {val : HapVal} (h : s.itemOutcome session curTime body i = .write hc val) :
    (hc, val) ∈ s.acceptedWrites session curTime body :=
  List.mem_filterMap.2 ⟨i, List.mem_range.2 hi, by rw [h]; rfl⟩

/-- A request of which no item is refused succeeds if it only writes On characteristics. -/
theorem allSucceed_iff (href : ¬ s.SomeRefused session curTime body) :
    s.AllSucceed session curTime body ↔
      ∀ w ∈ s.acceptedWrites session curTime body, s.isOn w := by
  constructor
  · intro hall w hw
    obtain ⟨i, hi, hout⟩ := mem_acceptedWrites hw
    have hstatus := hall i hi
    unfold itemStatus at hstatus
    rw [hout] at hstatus
    by_contra hoff
    simp only [writeStatus, if_neg hoff] at hstatus
    exact absurd hstatus (by decide)
  · intro hon i hi
    unfold itemStatus
    cases hout : s.itemOutcome session curTime body i with
    | report status => exact absurd ⟨i, hi, status, hout⟩ href
    | notify hc ev => rfl
    | write hc val => exact if_pos (hon _ (mem_acceptedWrites_of hi hout))

/-- A failed item is in the response, if there is one. -/
theorem itemReport_mem_response (href : s.SomeRefused session curTime body) {i : Nat}
    (hi : i < (bodyElems body).length)
    (hstatus : s.itemStatus session curTime body i ≠ hapStatusSuccess) :
    itemReport body i (s.itemStatus session curTime body i) ∈ s.response session curTime body := by
  unfold response
  rw [if_neg (fun h => refusals_eq_nil_iff.1 h href), List.mem_append]
  unfold itemStatus at hstatus ⊢
  cases hout : s.itemOutcome session curTime body i with
  | report status =>
    left
    exact List.mem_filterMap.2 ⟨i, List.mem_range.2 hi, by rw [hout]; rfl⟩
  | notify hc ev =>
    rw [hout] at hstatus
    exact absurd rfl hstatus
  | write hc val =>
    right
    obtain ⟨-, -, hreport⟩ := itemOutcome_write hout
    exact List.mem_map.2 ⟨(hc, val), mem_acceptedWrites_of hi hout, hreport _⟩

/-! ## When the answer is true -/

theorem truthful_of_answerable (hne : bodyElems body ≠ [])
    (h : s.Answerable session curTime body) (garbage : Garbage) :
    s.Truthful session curTime garbage body := by
  obtain ⟨hlive, hfind, hor⟩ := h
  obtain ⟨r, hr, hreport, hret, -⟩ := handleSetChar_eq garbage hne hlive hfind
  refine ⟨r, hr, ?_⟩
  by_cases href : s.SomeRefused session curTime body
  · have hresponse : s.response session curTime body ≠ [] := by
      obtain ⟨i, hi, status, hout⟩ := href
      have hfail : s.itemStatus session curTime body i ≠ hapStatusSuccess := by
        unfold itemStatus
        rw [hout]
        exact itemOutcome_report_ne hout
      exact List.ne_nil_of_mem (itemReport_mem_response ⟨i, hi, status, hout⟩ hi hfail)
    rw [if_pos hresponse] at hret
    rw [hreport, hret]
    constructor
    · refine iff_of_false (by decide) fun hall => ?_
      obtain ⟨i, hi, status, hout⟩ := href
      have hstatus := hall i hi
      unfold itemStatus at hstatus
      rw [hout] at hstatus
      exact itemOutcome_report_ne hout hstatus
    · intro _ i hi hstatus
      exact itemReport_mem_response href hi hstatus
  · obtain ⟨hwrites, hon⟩ := hor.resolve_left href
    have hall := (allSucceed_iff href).2 hon
    have hresponse : s.response session curTime body = [] :=
      if_pos (refusals_eq_nil_iff.2 href)
    rw [if_neg (not_not.2 hresponse), if_neg hwrites] at hret
    exact ⟨iff_of_true hret hall, fun hnot => absurd hall hnot⟩

/-- **The answer to a request is true**, whatever uninitialised memory holds, exactly if the
request is one of these. -/
theorem truthful_iff (s : State) (session : Session) (curTime : Int) (body : JsonVal)
    (hne : bodyElems body ≠ []) :
    (∀ garbage, s.Truthful session curTime garbage body) ↔
      s.Answerable session curTime body := by
  constructor
  · intro h
    -- a `ret` that is never assigned holds 1
    obtain ⟨r, hr, hret, -⟩ := h ⟨fun _ => 0, fun _ => 0, 1⟩
    have hlive := live_of_handleSetChar hne hr
    have hfind := finds_of_handleSetChar hne hr
    refine ⟨hlive, hfind, ?_⟩
    by_cases href : s.SomeRefused session curTime body
    · exact Or.inl href
    · right
      have hresponse : s.response session curTime body = [] :=
        if_pos (refusals_eq_nil_iff.2 href)
      obtain ⟨r', hr', -, hret', -⟩ :=
        handleSetChar_eq (⟨fun _ => 0, fun _ => 0, 1⟩ : Garbage) hne hlive hfind
      rw [hr] at hr'
      cases hr'
      rw [if_neg (not_not.2 hresponse)] at hret'
      have hne' : s.acceptedWrites session curTime body ≠ [] := by
        intro hnil
        rw [if_pos hnil] at hret'
        have hall := (allSucceed_iff href).2 fun w hw => by simp [hnil] at hw
        have hsuccess := hret.2 hall
        rw [hret'] at hsuccess
        exact absurd hsuccess (by decide)
      rw [if_neg hne'] at hret'
      exact ⟨hne', (allSucceed_iff href).1 (hret.1 hret')⟩
  · intro h garbage
    exact truthful_of_answerable hne h garbage

/-! ## One module -/

instance (p : CharPtr) : Decidable (s.FindsModule p) :=
  inferInstanceAs (Decidable (∀ i < s.moduleNum, s.slotIid i = none →
    ∃ j < i, s.slotIid j = (s.db.char? p).map HapChar.iid))

/-- The body that writes `true` to the characteristic with this id, which is one digit or
two. -/
def writeTrue (iid : CStr) : JsonVal :=
  .obj [(keyCharacteristics, .arr [.obj [(keyAid, .prim [0x31]), (keyIid, .prim iid),
    (keyValue, .prim [0x74, 0x72, 0x75, 0x65])]])]

/-- A session without a prepared write. -/
def plainSession : Session := ⟨0, 0, 0, 0⟩

/-- The On characteristic of an only module is switched on. -/
theorem truthful_on : ∃ s, Trace.run step State.bootDefault [linkEvent (0, ⟨1, 1, [0x61], 0, false⟩)] =
    .ok s ∧ ∀ garbage, s.Truthful plainSession 0 garbage (writeTrue [0x31, 0x32]) := by
  obtain ⟨s, hs, hcheck⟩ := exists_of_okAnd
    (x := Trace.run step State.bootDefault [linkEvent (0, ⟨1, 1, [0x61], 0, false⟩)])
    (p := fun s => s.db.primaryDeleted = false ∧
      (∀ w ∈ s.acceptedWrites plainSession 0 (writeTrue [0x31, 0x32]),
        s.isOn w → s.FindsModule w.1) ∧
      s.acceptedWrites plainSession 0 (writeTrue [0x31, 0x32]) ≠ [] ∧
        ∀ w ∈ s.acceptedWrites plainSession 0 (writeTrue [0x31, 0x32]), s.isOn w)
    (by decide +kernel)
  obtain ⟨hlive, hfind, hon⟩ := of_decide_eq_true hcheck
  exact ⟨s, hs, (truthful_iff s plainSession 0 _ (by simp [bodyElems, bodyRoot, writeTrue,
    objGetArray, objSearch])).2 ⟨hlive, hfind, Or.inr hon⟩⟩

/-- The Identify characteristic is written: the write gets `HAP_STATUS_RES_ABSENT`, and the
answer is `HAP_SUCCESS`. -/
theorem not_truthful_identify : ∃ s,
    Trace.run step State.bootDefault [linkEvent (0, ⟨1, 1, [0x61], 0, false⟩)] = .ok s ∧
      ¬ ∀ garbage, s.Truthful plainSession 0 garbage (writeTrue [0x32]) := by
  obtain ⟨s, hs, hcheck⟩ := exists_of_okAnd
    (x := Trace.run step State.bootDefault [linkEvent (0, ⟨1, 1, [0x61], 0, false⟩)])
    (p := fun s => okAnd (s.handleSetChar plainSession 0 ⟨fun _ => 0, fun _ => 0, 0⟩
        (writeTrue [0x32])) fun r => r.ret = hapSuccess ∧
      (bodyElems (writeTrue [0x32])).length = 1 ∧
      s.itemStatus plainSession 0 (writeTrue [0x32]) 0 = hapStatusResAbsent) (by decide +kernel)
  obtain ⟨r, hr, hcheck⟩ := exists_of_okAnd hcheck
  obtain ⟨hret, hlen, hstatus⟩ := of_decide_eq_true hcheck
  refine ⟨s, hs, fun h => ?_⟩
  obtain ⟨r', hr', hiff, -⟩ := h ⟨fun _ => 0, fun _ => 0, 0⟩
  rw [hr] at hr'
  cases hr'
  have hsuccess := hiff.1 hret 0 (by rw [hlen]; exact Nat.one_pos)
  rw [hstatus] at hsuccess
  exact absurd hsuccess (by decide)

end State

end NinaHomekit
