import Mathlib

/-!
# Singly linked cells in a heap

A heap maps addresses to cells, a cell holds a value and a link to the next cell.
`IsChain h p l` says that following the links from `p` meets exactly the cells of `l`,
in order, and then the null link.  Addresses and values are arbitrary.

* `IsChain.update_of_notMem` — a write elsewhere leaves a chain alone.
* `IsChain.nodup` — a chain that ends never meets a cell twice.
* `IsChain.concat` — linking a new last cell behind the old last cell.
-/

namespace LinkedCells

variable {A α : Type*}

/-- A cell of a linked list. -/
structure Cell (A α : Type*) where
  val : α
  next : Option A
  deriving DecidableEq, Repr

/-- Which cell, if any, is allocated at an address. -/
abbrev Heap (A α : Type*) := A → Option (Cell A α)

/-- The links from `p` run through exactly these addresses and values, then end. -/
def IsChain (h : Heap A α) : Option A → List (A × α) → Prop
  | p, [] => p = none
  | p, (a, x) :: l => p = some a ∧ ∃ q, h a = some ⟨x, q⟩ ∧ IsChain h q l

variable {h : Heap A α} {p : Option A} {l : List (A × α)} {a b : A} {x y : α}

@[simp] theorem chain_nil : IsChain h p [] ↔ p = none := Iff.rfl

/-- A chain starts at null exactly when it is empty. -/
theorem IsChain.eq_none_iff (hc : IsChain h p l) : p = none ↔ l = [] := by
  cases l with
  | nil => simpa using hc
  | cons c l => simp [hc.1]

/-- Two chains from one link are the same chain. -/
theorem IsChain.unique {l' : List (A × α)} (hc : IsChain h p l) (hc' : IsChain h p l') : l = l' := by
  induction l generalizing p l' with
  | nil => exact ((hc'.eq_none_iff).1 hc).symm
  | cons c l ih =>
    obtain ⟨a, x⟩ := c
    obtain ⟨rfl, q, hq, hl⟩ := hc
    cases l' with
    | nil => simp at hc'
    | cons c' l' =>
      obtain ⟨a', x'⟩ := c'
      obtain ⟨ha, q', hq', hl'⟩ := hc'
      obtain rfl := Option.some.inj ha
      rw [hq] at hq'
      cases hq'
      rw [ih hl hl']

/-- Every cell of a chain is the start of a chain of the cells behind it. -/
theorem IsChain.of_append {l₁ l₂ : List (A × α)} (hc : IsChain h p (l₁ ++ (a, x) :: l₂)) :
    IsChain h (some a) ((a, x) :: l₂) := by
  induction l₁ generalizing p with
  | nil => obtain ⟨rfl, hrest⟩ := hc; exact ⟨rfl, hrest⟩
  | cons c l₁ ih =>
    obtain ⟨-, q, -, hq⟩ := hc
    exact ih hq

/-- The cells of a chain are allocated. -/
theorem IsChain.isSome_of_mem (hc : IsChain h p l) (hm : a ∈ l.map Prod.fst) : (h a).isSome := by
  obtain ⟨⟨a', x⟩, hx, rfl⟩ := List.mem_map.1 hm
  obtain ⟨l₁, l₂, rfl⟩ := List.append_of_mem hx
  obtain ⟨-, q, hq, -⟩ := hc.of_append
  simp [hq]

/-- An address that is not allocated is not on a chain. -/
theorem IsChain.notMem_of_none (hc : IsChain h p l) (ha : h a = none) : a ∉ l.map Prod.fst := by
  intro hm
  have := hc.isSome_of_mem hm
  simp [ha] at this

/-- A chain that ends never meets a cell twice. -/
theorem IsChain.nodup (hc : IsChain h p l) : (l.map Prod.fst).Nodup := by
  induction l generalizing p with
  | nil => simp
  | cons c l ih =>
    obtain ⟨a, x⟩ := c
    have hhead := hc
    obtain ⟨rfl, q, hq, hl⟩ := hc
    refine List.nodup_cons.2 ⟨fun hm => ?_, ih hl⟩
    -- meeting `a` again would make the chain equal to a proper part of itself
    obtain ⟨⟨a', x'⟩, hx, rfl⟩ := List.mem_map.1 hm
    obtain ⟨l₁, l₂, rfl⟩ := List.append_of_mem hx
    have hlen := congrArg List.length (hhead.unique hl.of_append)
    simp at hlen
    omega

section Write

variable [DecidableEq A]

/-- Writing to an address off the chain leaves the chain alone. -/
theorem IsChain.update_of_notMem (hc : IsChain h p l) (c : Option (Cell A α))
    (ha : a ∉ l.map Prod.fst) : IsChain (Function.update h a c) p l := by
  induction l generalizing p with
  | nil => exact hc
  | cons d l ih =>
    obtain ⟨b, y⟩ := d
    obtain ⟨rfl, q, hq, hl⟩ := hc
    simp only [List.map_cons, List.mem_cons, not_or] at ha
    refine ⟨rfl, q, ?_, ih hl ha.2⟩
    rw [Function.update_of_ne (Ne.symm ha.1), hq]

/-- A chain of one cell. -/
theorem chain_singleton (h : Heap A α) (a : A) (x : α) :
    IsChain (Function.update h a (some ⟨x, none⟩)) (some a) [(a, x)] :=
  ⟨rfl, none, by simp, rfl⟩

/-- **Linking a new last cell.**  Allocating `b` and pointing the last cell `a` of a
chain at it appends `b` to the chain. -/
theorem IsChain.concat (hc : IsChain h p (l ++ [(a, x)])) (hb : h b = none) :
    IsChain (Function.update (Function.update h b (some ⟨y, none⟩)) a (some ⟨x, some b⟩)) p
      (l ++ [(a, x), (b, y)]) := by
  have hbl := hc.notMem_of_none hb
  induction l generalizing p with
  | nil =>
    obtain ⟨rfl, -, -, -⟩ := hc
    have hba : b ≠ a := by simpa using hbl
    exact ⟨rfl, some b, by simp, rfl, none, by simp [Function.update_of_ne hba], rfl⟩
  | cons d l ih =>
    obtain ⟨d, z⟩ := d
    have hnd := hc.nodup
    obtain ⟨rfl, q, hq, hl⟩ := hc
    simp only [List.cons_append, List.map_cons, List.mem_cons, not_or, List.map_append,
      List.map_nil, List.nodup_cons, List.mem_append, List.not_mem_nil, or_false] at hbl hnd
    have hda : d ≠ a := hnd.1.2
    refine ⟨rfl, q, ?_, ih hl ?_⟩
    · rw [Function.update_of_ne hda, Function.update_of_ne (Ne.symm hbl.1), hq]
    · simpa using hbl.2

end Write

end LinkedCells
