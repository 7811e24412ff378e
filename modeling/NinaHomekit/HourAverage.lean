import NinaHomekit.Perioder.OnlineSpec
import NinaHomekit.Lib.Halving
import NinaHomekit.Lib.Noted

/-!
# The average of an hour

`onlinePeriodicTask` samples `sum_current` and keeps a running average of the samples, which is
recorded when the hour changes.  A counter of 8 bits tells whether there is a sample at all; if
not, `sum_current` itself is recorded.

* `samples`, `noteSamples` — the steps that take a sample, and the samples since the hour changed.
* `average_step` — **what an event does to the running average.**
* `RecordsAverage` — the record of an hour is in the range of its samples.
* `SamplesFit` — the least sample is made up for, or the counter has wrapped and what is recorded
  instead is in the range.
* `recordsAverage_iff` — **the records of a run are averages exactly if its samples fit.**
-/

namespace NinaHomekit

open Trace Warehouse Halving

namespace OnlineState

variable {s t : OnlineState} {e : OnlineEvent} {es : List OnlineEvent}

/-! ## Samples -/

/-- The event is a pass in which the hour has changed. -/
def changesHour (s : OnlineState) : OnlineEvent → Bool
  | .task k now _ => s.hourChanges k now
  | _ => false

/-- The event is a pass that takes a sample. -/
def samples (s : OnlineState) : OnlineEvent → Bool
  | .task k now _ =>
    match s.tasks[k]? with
    | some (some previousHr) => s.moduleInitialized && now.tmHour == previousHr
    | _ => false
  | _ => false

/-- The event is a restart. -/
def reboots : OnlineEvent → Bool
  | .reboot => true
  | _ => false

/-- The samples since the hour changed; there are none before it has changed once. -/
def noteSamples (xs : Option (List UInt16)) (s : OnlineState) (e : OnlineEvent) :
    Option (List UInt16) :=
  if s.changesHour e then some []
  else if reboots e then none
  else if s.samples e then xs.map (· ++ [s.sumCurrent])
  else xs

/-- The samples as numbers. -/
def values (xs : List UInt16) : List Nat := xs.map UInt16.toNat

/-- What is recorded when the hour changes is in the range of its samples, if there are any. -/
def RecordsAverage (p : OnlineState × Option (List UInt16)) (e : OnlineEvent) : Prop :=
  p.1.changesHour e = true → ∀ prior now current, appendCall p.1 e = some (prior, now, current) →
    ∀ xs, p.2 = some xs → xs ≠ [] → Between (values xs) current.toNat

/-- The samples whose average is in their range; the counter of samples has wrapped when their
number is a multiple of 256. -/
def SamplesFit (p : OnlineState × Option (List UInt16)) (e : OnlineEvent) : Prop :=
  p.1.changesHour e = true → ∀ xs, p.2 = some xs → xs ≠ [] →
    if xs.length % 256 = 0 then Between (values xs) p.1.sumCurrent.toNat
    else least (values xs) ≤
      2 ^ xs.length + Nat.ofDigits 2 ((values xs).map (· - least (values xs)))

/-! ## What an event does -/

/-- A running average and its counter. -/
def average (s : OnlineState) : UInt16 × UInt8 := (s.avgSystemCurrent, s.avgSysCurrentCount)

/-- The running average, with one more sample. -/
def sampled (s : OnlineState) : UInt16 × UInt8 :=
  (UInt16.ofNat ((s.avgSystemCurrent.toNat + s.sumCurrent.toNat) / 2), s.avgSysCurrentCount + 1)

theorem average_of_runOn {α : Type} {p : EepromProg α} {r : α × OnlineState}
    (h : s.runOn p = .ok r) : r.2.average = s.average := by
  obtain ⟨m, -, hr⟩ := exists_of_runOn h
  rw [hr]
  rfl

/-- **What an event does to the running average.** -/
theorem average_step (h : onlineStep s e = .ok t) : t.average =
    if s.changesHour e then (0, 0)
    else if reboots e then (0, 0)
    else if s.samples e then s.sampled
    else s.average := by
  cases e with
  | gotIp now =>
    cases h
    rfl
  | setSum value =>
    cases h
    rfl
  | setInitialized b =>
    cases h
    rfl
  | reboot =>
    cases h
    rfl
  | clear now =>
    have hstep : Prod.snd <$> s.runOn (clearWarehouseData now s.sumCurrent) = .ok t := h
    rw [runOn_of_eval (eval_clearWarehouseData s.mem now s.sumCurrent)] at hstep
    cases hstep
    rfl
  | task k now later =>
    have hstep : s.task k now later = .ok t := h
    unfold OnlineState.task at hstep
    rcases htask : s.tasks[k]? with _ | _ | previousHr
    · rw [htask] at hstep
      cases hstep
      simp [changesHour, hourChanges, samples, reboots, htask]
    · rw [htask] at hstep
      obtain ⟨r, hr, ht⟩ := bind_eq_ok.1 hstep
      cases ht
      have hkeep : r.2.average = s.average := average_of_runOn hr
      simp only [changesHour, hourChanges, samples, reboots, htask, Bool.false_eq_true, if_false]
      exact hkeep
    · rw [htask] at hstep
      have hpass : s.pass k previousHr now later = .ok t := hstep
      have hchanges : s.changesHour (.task k now later) =
          (s.moduleInitialized && now.tmHour != previousHr) := by
        simp [changesHour, hourChanges, htask]
      have hsamples : s.samples (.task k now later) =
          (s.moduleInitialized && now.tmHour == previousHr) := by
        simp [samples, htask]
      rw [hchanges, hsamples]
      unfold OnlineState.pass at hpass
      by_cases hinit : s.moduleInitialized = true
      · rw [if_pos hinit] at hpass
        by_cases hhour : now.tmHour = previousHr
        · rw [if_neg (not_not.2 hhour)] at hpass
          cases hpass
          simp [hinit, hhour, reboots, average, sampled]
        · rw [if_pos hhour] at hpass
          obtain ⟨r, -, ht⟩ := bind_eq_ok.1 hpass
          cases ht
          simp [hinit, hhour, average]
      · rw [if_neg hinit] at hpass
        cases hpass
        simp [hinit, reboots]

/-! ## The invariant -/

/-- Since the hour changed once, the running average is that of the samples, and the counter has
counted them. -/
def AveragesSamples (p : OnlineState × Option (List UInt16)) : Prop :=
  ∀ xs, p.2 = some xs → p.1.avgSystemCurrent.toNat = halved (values xs) ∧
    p.1.avgSysCurrentCount = UInt8.ofNat xs.length

theorem AveragesSamples.sampled {s : OnlineState} {xs : List UInt16}
    (h : AveragesSamples (s, some xs)) :
    s.sampled.1.toNat = halved (values (xs ++ [s.sumCurrent])) ∧
      s.sampled.2 = UInt8.ofNat (xs ++ [s.sumCurrent]).length := by
  obtain ⟨havg, hcount⟩ : s.avgSystemCurrent.toNat = halved (values xs) ∧
    s.avgSysCurrentCount = UInt8.ofNat xs.length := h xs rfl
  have hlt := s.avgSystemCurrent.toNat_lt
  have hlt' := s.sumCurrent.toNat_lt
  constructor
  · rw [values, List.map_append, List.map_singleton, halved_concat]
    change (UInt16.ofNat _).toNat = (halved (values xs) + s.sumCurrent.toNat) / 2
    rw [← havg, UInt16.toNat_ofNat']
    omega
  · rw [List.length_append, List.length_singleton, UInt8.ofNat_add]
    exact congrArg (· + 1) hcount

/-- **The step lemma.** -/
theorem AveragesSamples.step {p q : OnlineState × Option (List UInt16)} (h : AveragesSamples p)
    (hstep : noted onlineStep noteSamples p e = .ok q) : AveragesSamples q := by
  obtain ⟨s, g⟩ := p
  obtain ⟨t, g'⟩ := q
  obtain ⟨ht, rfl⟩ := noted_eq_ok.1 hstep
  have haverage := average_step ht
  intro xs hxs
  change noteSamples g s e = some xs at hxs
  change t.average.1.toNat = _ ∧ t.average.2 = _
  unfold noteSamples at hxs
  by_cases hchange : s.changesHour e = true
  · rw [if_pos hchange] at hxs haverage
    cases hxs
    rw [haverage]
    exact ⟨rfl, rfl⟩
  rw [if_neg hchange] at hxs haverage
  by_cases hreboot : reboots e = true
  · rw [if_pos hreboot] at hxs
    cases hxs
  rw [if_neg hreboot] at hxs haverage
  by_cases hsample : s.samples e = true
  · rw [if_pos hsample] at hxs haverage
    obtain ⟨ys, rfl, rfl⟩ := Option.map_eq_some_iff.1 hxs
    rw [haverage]
    exact h.sampled
  · rw [if_neg hsample] at hxs haverage
    rw [haverage]
    exact h xs hxs

/-! ## Records -/

theorem exists_of_changesHour (h : s.changesHour e = true) :
    ∃ prior now, appendCall s e = some (prior, now, s.recordCurrent) := by
  cases e with
  | task k now later => exact ⟨_, now, if_pos h⟩
  | gotIp now => cases h
  | clear now => cases h
  | setSum value => cases h
  | setInitialized b => cases h
  | reboot => cases h

/-- The current that is recorded: the average, or `sum_current` if the counter is 0. -/
theorem AveragesSamples.recordCurrent {xs : List UInt16} (h : AveragesSamples (s, some xs)) :
    s.recordCurrent.toNat =
      if xs.length % 256 = 0 then s.sumCurrent.toNat else halved (values xs) := by
  obtain ⟨havg, hcount⟩ : s.avgSystemCurrent.toNat = halved (values xs) ∧
    s.avgSysCurrentCount = UInt8.ofNat xs.length := h xs rfl
  have hzero : s.avgSysCurrentCount = 0 ↔ xs.length % 256 = 0 := by
    rw [hcount, ← UInt8.toNat_inj, UInt8.toNat_ofNat']
    rfl
  unfold OnlineState.recordCurrent
  by_cases h0 : xs.length % 256 = 0
  · rw [if_pos (hzero.2 h0), if_pos h0]
  · rw [if_neg fun hc => h0 (hzero.1 hc), if_neg h0, havg]

/-- A record is in the range of its samples exactly if they fit. -/
theorem AveragesSamples.record_iff {p : OnlineState × Option (List UInt16)}
    (h : AveragesSamples p) : RecordsAverage p e ↔ SamplesFit p e := by
  obtain ⟨s, g⟩ := p
  refine forall_congr' fun hchange => ?_
  obtain ⟨prior, now, hcall⟩ := exists_of_changesHour hchange
  have hcurrent : (∀ prior now current, appendCall s e = some (prior, now, current) →
      ∀ xs, g = some xs → xs ≠ [] → Between (values xs) current.toNat) ↔
      ∀ xs, g = some xs → xs ≠ [] → Between (values xs) s.recordCurrent.toNat := by
    constructor
    · exact fun hall => hall prior now _ hcall
    · intro hall prior' now' current hcall'
      rw [hcall] at hcall'
      cases hcall'
      exact hall
  refine hcurrent.trans (forall_congr' fun xs => forall_congr' fun hxs => forall_congr' fun _ => ?_)
  have hxs' : AveragesSamples (s, some xs) := by
    rw [← hxs]
    exact h
  rw [hxs'.recordCurrent]
  by_cases h0 : xs.length % 256 = 0
  · rw [if_pos h0, if_pos h0]
  · rw [if_neg h0, if_neg h0, between_halved_iff, values, List.length_map]

/-- From 16 samples on, the least is always made up for. -/
theorem samplesFit_of_le_length {p : OnlineState × Option (List UInt16)}
    (h : ∀ xs, p.2 = some xs → 16 ≤ xs.length ∧ xs.length % 256 ≠ 0) : SamplesFit p e := by
  intro _ xs hxs hne
  obtain ⟨hlen, h0⟩ := h xs hxs
  obtain ⟨x, hx⟩ := List.exists_mem_of_ne_nil xs hne
  have hleast : least (values xs) ≤ x.toNat := least_le (List.mem_map_of_mem hx)
  have hlt := x.toNat_lt
  have hpow : 2 ^ 16 ≤ 2 ^ xs.length := Nat.pow_le_pow_right (by decide) hlen
  rw [if_neg h0]
  omega

/-- **The records of a run are averages of their samples exactly if the samples fit**: from any
state, whatever the tasks do, a record is in the range of the samples since the last one if and
only if the least sample is made up for by the excess of the others or their number, or, when the
counter has wrapped, `sum_current` is in the range.  The number is enough from 16 samples on. -/
theorem recordsAverage_iff (s : OnlineState) (es : List OnlineEvent) :
    (EachStep (noted onlineStep noteSamples) RecordsAverage (s, none) es ↔
      EachStep (noted onlineStep noteSamples) SamplesFit (s, none) es) ∧
      ∀ p e, (∀ xs, p.2 = some xs → 16 ≤ xs.length ∧ xs.length % 256 ≠ 0) → SamplesFit p e := by
  have hinit : AveragesSamples (s, none) := fun xs hxs => by cases hxs
  exact ⟨eachStep_iff_of_inv (fun _ _ _ h _ hstep => h.step hstep) (fun _ _ h => h.record_iff) hinit,
    fun _ _ => samplesFit_of_le_length⟩

/-- An hour with one sample of 100. -/
def oneSample : List OnlineEvent :=
  [.gotIp (january 1 10), passAt (january 1 10), .setInitialized true, passAt (january 1 10),
    .setSum 100, passAt (january 1 10)]

theorem not_recordsAverage_oneSample : ¬ EachStep (noted onlineStep noteSamples) RecordsAverage
    (fresh, none) (oneSample ++ [passAt (january 1 11)]) := by
  intro hall
  obtain ⟨p, hp, hcheck⟩ := exists_of_okAnd
    (x := run (noted onlineStep noteSamples) (fresh, none) oneSample)
    (p := fun p => p.1.changesHour (passAt (january 1 11)) ∧ p.2 = some [100] ∧
      p.1.recordCurrent = 50) (by decide +kernel)
  obtain ⟨hchange, hxs, hcurrent⟩ := of_decide_eq_true hcheck
  obtain ⟨prior, now, hcall⟩ := exists_of_changesHour hchange
  have hbetween := hall oneSample (passAt (january 1 11)) [] p rfl hp hchange prior now _ hcall
    [100] hxs (by decide)
  rw [hcurrent] at hbetween
  exact absurd hbetween (by decide)

end OnlineState

end NinaHomekit
