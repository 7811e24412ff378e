import NinaHomekit.Definitions
import NinaHomekit.Lib.Chain

/-!
# The outgoing message queue

`uartMsgQueue` of `CommandHandler.cpp`: a hand-written linked list with a front and a
back pointer.  `pop` never clears `back`, so after the last pop it points at a pack
that `uartTransmit` has freed; `isEmpty` looks at both pointers.

* `push`, `pop`, `isEmpty`, `nextPack` — the code, on an explicit heap of packs.  The
  address `new` returns is an argument, so freed addresses may come back.
* `Holds` — the queue, as pointers, holds this list of packs.
* `Holds.push`, `Holds.nextPack_cons`, `Holds.nextPack_nil` — the pointer operations
  are those of a first-in first-out list and touch no freed pack.
-/

namespace NinaHomekit

open LinkedCells

/-- The address of an `uart_msg_pack`. -/
abbrev PackPtr := Nat

/-- `uartMsgQueue`, with the packs it points into. -/
structure UartMsgQueue where
  heap : Heap PackPtr UartMsg
  front : Option PackPtr
  back : Option PackPtr
  size : Int

namespace UartMsgQueue

/-- `uartMsgQueue()`. -/
def init : UartMsgQueue := ⟨fun _ => none, none, none, 0⟩

/-- `(front && back) == 0`. -/
def isEmpty (q : UartMsgQueue) : Bool := !(q.front.isSome && q.back.isSome)

/-- `push`: `newPack` is what `new uart_msg_pack(po, l, p)` returns. -/
def push (newPack : PackPtr) (m : UartMsg) (q : UartMsgQueue) : Except Fault UartMsgQueue :=
  let heap := Function.update q.heap newPack (some ⟨m, none⟩)
  if q.isEmpty then
    .ok { heap := heap, front := some newPack, back := some newPack, size := q.size + 1 }
  else
    match q.back with
    | none => .error .nullDeref
    | some b =>
      match heap b with
      | none => .error .freedDeref
      | some pack =>
        .ok { heap := Function.update heap b (some { pack with next := some newPack })
              front := q.front, back := some newPack, size := q.size + 1 }

/-- `pop`: the popped pack is still allocated. -/
def pop (q : UartMsgQueue) : Except Fault (Option PackPtr × UartMsgQueue) :=
  if q.isEmpty then .ok (none, q)
  else
    match q.front with
    | none => .error .nullDeref
    | some a =>
      match q.heap a with
      | none => .error .freedDeref
      | some pack => .ok (some a, { q with front := pack.next, size := q.size - 1 })

/-- `delete pack`. -/
def free (a : PackPtr) (q : UartMsgQueue) : UartMsgQueue :=
  { q with heap := Function.update q.heap a none }

/-- The pack `uartTransmit` makes up when it finds the queue empty. -/
def idlePack : UartMsg := ⟨255, []⟩

/-- The pack `uartTransmit` sends, taken off the queue and freed after its last use, or
the idle pack. -/
def nextPack (q : UartMsgQueue) : Except Fault (UartMsg × UartMsgQueue) :=
  if q.isEmpty then .ok (idlePack, q)
  else
    match q.pop with
    | .error f => .error f
    | .ok (none, _) => .error .nullDeref
    | .ok (some a, q') =>
      match q'.heap a with
      | none => .error .freedDeref
      | some pack => .ok (pack.val, q'.free a)

/-! ## What the pointers stand for -/

/-- The queue holds these packs: the links from `front` run through them, `back` is the
last of them if there is one, and `size` counts them. -/
structure Holds (q : UartMsgQueue) (l : List (PackPtr × UartMsg)) : Prop where
  chain : IsChain q.heap q.front l
  back_eq : ∀ l' a m, l = l' ++ [(a, m)] → q.back = some a
  size_eq : q.size = l.length

theorem holds_init : Holds init [] :=
  ⟨rfl, fun l' a m h => by simp at h, rfl⟩

variable {q : UartMsgQueue} {l : List (PackPtr × UartMsg)} {a : PackPtr} {m : UartMsg}

/-- A dangling `back` does no harm: the queue is empty exactly when it holds nothing. -/
theorem Holds.isEmpty_iff (h : Holds q l) : q.isEmpty = true ↔ l = [] := by
  rcases List.eq_nil_or_concat l with rfl | ⟨l', ⟨a, m⟩, rfl⟩
  · have hf : q.front = none := h.chain
    simp [isEmpty, hf]
  · have hb : q.back = some a := h.back_eq l' a m (by simp)
    have hf : q.front ≠ none := fun hn => by simpa using h.chain.eq_none_iff.1 hn
    simp [isEmpty, hb, Option.isSome_iff_ne_none.2 hf]

/-- Pushing a pack at a fresh address appends it. -/
theorem Holds.push (h : Holds q l) (hfresh : q.heap a = none) :
    ∃ q', q.push a m = .ok q' ∧ Holds q' (l ++ [(a, m)]) := by
  rcases List.eq_nil_or_concat l with rfl | ⟨l', ⟨b, n⟩, rfl⟩
  · have hp : q.push a m = _ := if_pos (h.isEmpty_iff.2 rfl)
    refine ⟨_, hp, chain_singleton _ a m, ?_, ?_⟩
    · intro l' b n hl
      obtain ⟨-, hbn⟩ := List.append_inj' hl rfl
      simp only [List.cons.injEq, Prod.mk.injEq] at hbn
      rw [← hbn.1.1]
    · simp [h.size_eq]
  · simp only [List.concat_eq_append] at h ⊢
    have hb : q.back = some b := h.back_eq l' b n rfl
    have hne : ¬ q.isEmpty = true := fun he => by simpa using h.isEmpty_iff.1 he
    obtain ⟨-, r, hbr, hr⟩ := h.chain.of_append
    have hr : r = none := hr
    subst hr
    have hba : b ≠ a := by rintro rfl; rw [hfresh] at hbr; cases hbr
    have hp : q.push a m = .ok
        { heap := Function.update (Function.update q.heap a (some ⟨m, none⟩)) b
            (some ⟨n, some a⟩)
          front := q.front, back := some a, size := q.size + 1 } := by
      rw [UartMsgQueue.push, if_neg hne, hb]
      simp only [Function.update_of_ne hba, hbr]
    refine ⟨_, hp, ?_, ?_, ?_⟩
    · simpa using h.chain.concat hfresh
    · intro l'' c k hl
      obtain ⟨-, hck⟩ := List.append_inj' hl rfl
      simp only [List.cons.injEq, Prod.mk.injEq] at hck
      rw [← hck.1.1]
    · simp only [h.size_eq, List.length_append, List.length_singleton, Nat.cast_add, Nat.cast_one]

/-- Nothing to send: the idle pack, and the queue as it was. -/
theorem Holds.nextPack_nil (h : Holds q []) : q.nextPack = .ok (idlePack, q) := by
  rw [nextPack, if_pos (h.isEmpty_iff.2 rfl)]

/-- The oldest pack is sent, and the queue then holds the others. -/
theorem Holds.nextPack_cons (h : Holds q ((a, m) :: l)) :
    ∃ q', q.nextPack = .ok (m, q') ∧ Holds q' l := by
  have hne : ¬ q.isEmpty = true := fun he => by simpa using h.isEmpty_iff.1 he
  have hnd := h.chain.nodup
  obtain ⟨hf, r, har, hr⟩ := h.chain
  have hp : q.nextPack = .ok (m, free a { q with front := r, size := q.size - 1 }) := by
    rw [nextPack, if_neg hne, pop, if_neg hne, hf]
    simp only [har]
  refine ⟨_, hp, ?_, ?_, ?_⟩
  · exact hr.update_of_notMem none (List.nodup_cons.1 hnd).1
  · intro l' b n hl
    exact h.back_eq ((a, m) :: l') b n (by rw [hl]; rfl)
  · simp [free, h.size_eq]

end UartMsgQueue

end NinaHomekit
