import Mathlib

/-!
# Scanning for the last maximum

A loop that walks a list and keeps the element with the largest key among those that
qualify, the later one when two keys are equal.

* `scan` — one pass of the loop: what is kept, and its key.
* `foldl_scan` — what the whole loop keeps.
-/

namespace LastMax

variable {α β κ : Type*} [LinearOrder κ] (p : α → Prop) [DecidablePred p] (key : α → κ)
  (out : α → β)

/-- Keep `x` if it qualifies and its key is not below the best one so far. -/
def scan (best : β × κ) (x : α) : β × κ :=
  if p x ∧ best.2 ≤ key x then (out x, key x) else best

/-- **What the loop keeps**: what it started with, if every qualifying key is below that;
else the last of the qualifying elements with the largest key. -/
theorem foldl_scan (l : List α) (best : β × κ) :
    (l.foldl (scan p key out) best = best ∧ ∀ x ∈ l, p x → key x < best.2) ∨
      ∃ l₁ x l₂, l = l₁ ++ x :: l₂ ∧ p x ∧
        l.foldl (scan p key out) best = (out x, key x) ∧ best.2 ≤ key x ∧
        (∀ y ∈ l₁, p y → key y ≤ key x) ∧ ∀ y ∈ l₂, p y → key y < key x := by
  induction l generalizing best with
  | nil => exact Or.inl ⟨rfl, by simp⟩
  | cons y l ih =>
    rw [List.foldl_cons]
    by_cases hy : p y ∧ best.2 ≤ key y
    · have hscan : scan p key out best y = (out y, key y) := if_pos hy
      rw [hscan]
      right
      rcases ih (out y, key y) with ⟨hl, hlt⟩ | ⟨l₁, x, l₂, rfl, hx, hl, hle, h₁, h₂⟩
      · exact ⟨[], y, l, rfl, hy.1, hl, hy.2, by simp, hlt⟩
      · refine ⟨y :: l₁, x, l₂, rfl, hx, hl, hy.2.trans hle, ?_, h₂⟩
        intro z hz hpz
        rcases List.mem_cons.1 hz with rfl | hz
        · exact hle
        · exact h₁ z hz hpz
    · have hscan : scan p key out best y = best := if_neg hy
      have hlow : p y → key y < best.2 := fun hpy => not_le.1 fun hle => hy ⟨hpy, hle⟩
      rw [hscan]
      rcases ih best with ⟨hl, hlt⟩ | ⟨l₁, x, l₂, rfl, hx, hl, hle, h₁, h₂⟩
      · left
        refine ⟨hl, fun z hz hpz => ?_⟩
        rcases List.mem_cons.1 hz with rfl | hz
        · exact hlow hpz
        · exact hlt z hz hpz
      · right
        refine ⟨y :: l₁, x, l₂, rfl, hx, hl, hle, ?_, h₂⟩
        intro z hz hpz
        rcases List.mem_cons.1 hz with rfl | hz
        · exact ((hlow hpz).trans_le hle).le
        · exact h₁ z hz hpz

end LastMax
