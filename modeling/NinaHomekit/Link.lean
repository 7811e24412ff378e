import NinaHomekit.System

/-!
# The link protocol

A module announces itself with one `CMD_LINK_MODULE` message.  The first message of a
sequence has `addr = total` and resets the table, the last one has `addr = 1` and completes
it; in between nothing but a counter is kept.

* `sinceReset` — the messages handled since the last reset.
* `TableSince` — the table holds what these messages wrote, over what was there before, and
  the counter counts them; `tableSince_of_run` keeps it along every list of messages.
* `linkComplete_iff` — **the table is complete exactly when each address arrived once since
  the last reset**, whatever was lost, repeated or reordered before it.
-/

namespace NinaHomekit

open Trace State

variable {s t u : State} {m : LinkFields}

/-! ## The messages that count -/

/-- The messages handled since the table was last reset: a first message, which resets it,
and those behind it. -/
def sinceReset (msgs : List LinkFields) : List LinkFields :=
  msgs.foldl (fun since m => if m.addr = m.total then [m] else since ++ [m]) []

theorem sinceReset_concat (msgs : List LinkFields) (m : LinkFields) :
    sinceReset (msgs ++ [m]) = if m.addr = m.total then [m] else sinceReset msgs ++ [m] := by
  simp [sinceReset]

/-- The last message for a slot. -/
def lastFor (msgs : List LinkFields) (i : Nat) : Option LinkFields :=
  msgs.reverse.find? fun m => m.addr = i + 1

/-- The data a message leaves in its slot. -/
def LinkFields.data (m : LinkFields) : ModuleData := ⟨some m.name, 0, m.pri, 0, m.switchState⟩

theorem data_decoded (m : LinkFields) : m.decoded.data = m.data := by
  cases hs : m.switchState <;> simp [LinkFields.decoded, LinkMsg.data, LinkFields.data, hs]

/-- The data in the table after some messages, over the data before them. -/
def tableData (base : List ModuleData) (msgs : List LinkFields) : List ModuleData :=
  msgs.foldl (fun table m => table.set (m.addr - 1) m.data) base

@[simp] theorem length_tableData (base : List ModuleData) (msgs : List LinkFields) :
    (tableData base msgs).length = base.length := by
  induction msgs using List.reverseRecOn with
  | nil => rfl
  | append_singleton msgs m ih => simpa [tableData] using ih

/-- A slot holds what the last message for it says.  Induction on the messages, from the
last one. -/
theorem getElem?_tableData {msgs : List LinkFields} {base : List ModuleData} {i : Nat}
    (hpos : ∀ m ∈ msgs, 1 ≤ m.addr) (hi : i < base.length) :
    (tableData base msgs)[i]? = ((lastFor msgs i).map LinkFields.data).or base[i]? := by
  induction msgs using List.reverseRecOn with
  | nil => rfl
  | append_singleton msgs m ih =>
    have hm : 1 ≤ m.addr := hpos m (by simp)
    have hstep : tableData base (msgs ++ [m]) = (tableData base msgs).set (m.addr - 1) m.data := by
      simp [tableData]
    rw [hstep, List.getElem?_set, length_tableData]
    by_cases haddr : m.addr = i + 1
    · have hlast : lastFor (msgs ++ [m]) i = some m := by simp [lastFor, haddr]
      rw [if_pos (by omega), if_pos (by omega), hlast]
      rfl
    · have hlast : lastFor (msgs ++ [m]) i = lastFor msgs i := by simp [lastFor, haddr]
      rw [if_neg (by omega), hlast]
      exact ih fun k hk => hpos k (List.mem_append_left _ hk)

/-! ## Runs of link messages -/

/-- What the table of `t` holds after the messages `since`, when `base` was in it before. -/
structure TableSince (base : List ModuleData) (since : List LinkFields) (t : State) : Prop where
  numModules : t.systemStatus.numModules = UInt8.ofNat since.length
  data : t.slots.map ModuleT.data = tableData base since

/-- **The step lemma.**  A message writes its slot and is counted; a first message counts
from 0. -/
theorem linkEvent_spec {p : UInt32 × LinkFields} (hwf : p.2.WellFormed)
    (h : step s (linkEvent p) = .ok t) :
    t.slots.map ModuleT.data = (s.slots.map ModuleT.data).set (p.2.addr - 1) p.2.data ∧
      t.systemStatus.numModules =
        (if p.2.addr = p.2.total then 0 else s.systemStatus.numModules) + 1 ∧
      (p.2.addr = 1 → t.systemStatus.moduleInitialized = true) := by
  have hdec := (hwf.uartReceive_eq_ok p.1).1 h
  obtain ⟨-, hdata, hnum, hinit, -⟩ := linkDecoded_frame hdec
  rw [hwf.toNat_index, data_decoded] at hdata
  have hfirst : p.2.decoded.index + 1 = p.2.decoded.total ↔ p.2.addr = p.2.total := by
    show ((p.2.addr : Int) - 1) + 1 = (p.2.total : Int) ↔ _
    omega
  refine ⟨hdata, ?_, fun h1 => hinit ?_⟩
  · rw [hnum]
    simp only [hfirst]
  · show (p.2.addr : Int) - 1 = 0
    omega

/-- **The run lemma.**  The table holds what was written since the last reset, over what the
state before it held. -/
theorem tableSince_of_run (hboot : Booted s) {msgs : List (UInt32 × LinkFields)}
    (hwf : ∀ p ∈ msgs, p.2.WellFormed)
    (h : Trace.run step s (msgs.map linkEvent) = .ok t) :
    ∃ before since u, msgs = before ++ since ∧ sinceReset (msgs.map Prod.snd) = since.map Prod.snd ∧
      Trace.run step s (before.map linkEvent) = .ok u ∧
      TableSince (u.slots.map ModuleT.data) (since.map Prod.snd) t := by
  induction msgs using List.reverseRecOn generalizing t with
  | nil =>
    cases h
    obtain ⟨deviceName, enablePop, rfl⟩ := hboot
    exact ⟨[], [], _, rfl, rfl, rfl, rfl, rfl⟩
  | append_singleton msgs p ih =>
    rw [List.map_append, List.map_singleton] at h
    obtain ⟨v, hv, hstep⟩ := run_concat_eq_ok.1 h
    obtain ⟨hdata, hnum, -⟩ := linkEvent_spec (hwf p (by simp)) hstep
    have hsince := sinceReset_concat (msgs.map Prod.snd) p.2
    by_cases hreset : p.2.addr = p.2.total
    · rw [if_pos hreset] at hnum hsince
      exact ⟨msgs, [p], v, rfl, by simpa using hsince, hv, hnum, hdata⟩
    · rw [if_neg hreset] at hnum hsince
      obtain ⟨before, since, u, rfl, heq, hu, htable⟩ :=
        ih (fun q hq => hwf q (List.mem_append_left _ hq)) hv
      have heq' : sinceReset ((before ++ since ++ [p]).map Prod.snd) =
          (since ++ [p]).map Prod.snd := by
        have hsplit : (before ++ since ++ [p]).map Prod.snd =
            (before ++ since).map Prod.snd ++ [p.2] := by simp
        rw [hsplit, hsince, heq]
        simp
      refine ⟨before, since ++ [p], u, by simp, heq', hu, ?_, ?_⟩
      · rw [hnum, htable.numModules]
        simp
      · rw [hdata, htable.data]
        simp [tableData]

/-! ## A complete table -/

/-- As long as the counter does not wrap, it shows `total` with every slot written exactly if
each address arrived once. -/
theorem complete_iff_perm {since : List LinkFields} {total : Nat}
    (hshort : since.length < 256) :
    (since.length % 256 = total ∧ ∀ i < total, ∃ p ∈ since, p.addr = i + 1) ↔
      (since.map LinkFields.addr).Perm (List.range' 1 total) := by
  rw [Nat.mod_eq_of_lt hshort]
  constructor
  · rintro ⟨hlen, hall⟩
    have hsub : List.range' 1 total ⊆ since.map LinkFields.addr := by
      intro a ha
      obtain ⟨h1, h2⟩ := List.mem_range'_1.1 ha
      obtain ⟨p, hp, haddr⟩ := hall (a - 1) (by omega)
      exact List.mem_map.2 ⟨p, hp, by omega⟩
    have hsubperm := List.subperm_of_subset List.nodup_range' hsub
    exact (hsubperm.perm_of_length_le (by simp [hlen])).symm
  · intro hperm
    refine ⟨by simpa using hperm.length_eq, fun i hi => ?_⟩
    have hmem : i + 1 ∈ since.map LinkFields.addr :=
      hperm.mem_iff.2 (List.mem_range'_1.2 ⟨by omega, by omega⟩)
    obtain ⟨p, hp, haddr⟩ := List.mem_map.1 hmem
    exact ⟨p, hp, haddr⟩

/-- **What a last message completes.**  In every run of link messages that ends with a last
message: the modules are initialised; `num_modules` counts the messages since the last reset,
modulo 256; a slot holds the data of the last of these for it, or what it held before them;
and, below 256 messages, the table is complete exactly if each address arrived once. -/
theorem linkComplete_iff (hboot : Booted s) {msgs : List (UInt32 × LinkFields)} {now : UInt32}
    (hwf : ∀ p ∈ msgs ++ [(now, m)], p.2.WellFormed) (hlast : m.addr = 1)
    (h : Trace.run step s ((msgs ++ [(now, m)]).map linkEvent) = .ok t) :
    ∃ before since u, msgs ++ [(now, m)] = before ++ since ∧
      sinceReset (msgs.map Prod.snd ++ [m]) = since.map Prod.snd ∧
      Trace.run step s (before.map linkEvent) = .ok u ∧
      t.systemStatus.moduleInitialized = true ∧
      t.moduleNum = since.length % 256 ∧
      (∀ i < maxModuleNum, (t.slots.map ModuleT.data)[i]? =
        ((lastFor (since.map Prod.snd) i).map LinkFields.data).or (u.slots.map ModuleT.data)[i]?) ∧
      (since.length < 256 →
        ((t.moduleNum = m.total ∧ ∀ i < m.total, ∃ p ∈ since.map Prod.snd, p.addr = i + 1) ↔
          ((since.map Prod.snd).map LinkFields.addr).Perm (List.range' 1 m.total))) := by
  obtain ⟨before, since, u, hmsgs, hsince, hu, htable⟩ := tableSince_of_run hboot hwf h
  rw [List.map_append] at h hsince
  obtain ⟨v, -, hstep⟩ := run_concat_eq_ok.1 h
  have hm := hwf (now, m) (by simp)
  have hnum : t.moduleNum = since.length % 256 := by
    rw [moduleNum, htable.numModules, UInt8.toNat_ofNat', List.length_map]
  refine ⟨before, since, u, hmsgs, hsince, hu, (linkEvent_spec hm hstep).2.2 hlast, hnum, ?_, ?_⟩
  · intro i hi
    rw [htable.data]
    refine getElem?_tableData ?_ (by simpa using hi)
    intro k hk
    obtain ⟨p, hp, rfl⟩ := List.mem_map.1 hk
    exact (hwf p (hmsgs ▸ List.mem_append_right _ hp)).addr_pos
  · intro hshort
    rw [hnum, ← complete_iff_perm (by simpa using hshort), List.length_map]

/-- The messages of two modules. -/
def secondOfTwo : LinkFields := ⟨2, 2, [0x62], 0, true⟩
def firstOfTwo : LinkFields := ⟨2, 1, [0x61], 0, false⟩

/-- The first message arrives twice: it resets the table again, and the table is complete. -/
theorem linkComplete_iff_repeated :
    ∃ t, Trace.run step State.bootDefault
        ([(0, secondOfTwo), (0, secondOfTwo), (0, firstOfTwo)].map linkEvent) = .ok t ∧
      t.systemStatus.moduleInitialized = true ∧ t.moduleNum = 2 := by
  obtain ⟨t, ht, -⟩ := exists_of_okAnd (p := fun _ => true) (x := Trace.run step State.bootDefault
    ([(0, secondOfTwo), (0, secondOfTwo), (0, firstOfTwo)].map linkEvent)) (by decide +kernel)
  have hwf : ∀ p ∈ [((0 : UInt32), secondOfTwo), (0, secondOfTwo)] ++ [(0, firstOfTwo)],
      p.2.WellFormed := by
    intro p hp
    simp only [List.cons_append, List.nil_append, List.mem_cons, List.not_mem_nil, or_false] at hp
    rcases hp with rfl | rfl | rfl <;> exact ⟨by decide, by decide, by decide⟩
  obtain ⟨before, since, u, hmsgs, hsince, -, hinit, hnum, -, hiff⟩ :=
    linkComplete_iff booted_bootDefault hwf rfl ht
  have hmap : since.map Prod.snd = [secondOfTwo, firstOfTwo] := hsince.symm
  have hlen : since.length = 2 := by simpa using congrArg List.length hmap
  rw [hmap] at hiff
  exact ⟨t, ht, hinit, ((hiff (by omega)).2 (by decide)).1⟩

/-- Of three modules the second message is lost: the last one completes a table of two, whose
slot 1 was never written. -/
theorem not_complete_lost :
    (LinkFields.mk 3 3 [0x63] 0 true).WellFormed ∧ (LinkFields.mk 3 1 [0x61] 0 true).WellFormed ∧
      ∃ t, Trace.run step State.bootDefault
          ([(0, ⟨3, 3, [0x63], 0, true⟩), (0, ⟨3, 1, [0x61], 0, true⟩)].map linkEvent) = .ok t ∧
        t.systemStatus.moduleInitialized = true ∧ t.moduleNum = 2 ∧
        (t.slots.map ModuleT.data)[1]? = some ModuleT.zero.data := by
  refine ⟨⟨by decide, by decide, by decide⟩, ⟨by decide, by decide, by decide⟩, ?_⟩
  obtain ⟨t, ht, hcheck⟩ := exists_of_okAnd (x := Trace.run step State.bootDefault
      ([(0, ⟨3, 3, [0x63], 0, true⟩), (0, ⟨3, 1, [0x61], 0, true⟩)].map linkEvent))
    (p := fun t => t.systemStatus.moduleInitialized = true ∧ t.moduleNum = 2 ∧
      (t.slots.map ModuleT.data)[1]? = some ModuleT.zero.data) (by decide +kernel)
  exact ⟨t, ht, of_decide_eq_true hcheck⟩

end NinaHomekit
