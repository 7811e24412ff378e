import NinaHomekit.CommandHandler.Frame

/-!
# Arrays with checked accesses

Reads and writes of several bytes, on arrays whose every access is checked.

* `readByte`, `readBytes` — what is read, or the access that is past the end.
* `overwrite` — an array with other bytes in one place; `pokeAll_eq`, `pokeAll_error` say which
  writes leave that, and which ones end past the array.
-/

namespace NinaHomekit

open Trace

variable {buf pre rest vs ws : List UInt8} {c : UInt8} {i : Nat}

/-! ## Reads -/

/-- `buf[i]`. -/
def readByte (buf : List UInt8) (i : Nat) : Except Fault UInt8 :=
  match buf[i]? with
  | some c => .ok c
  | none => .error (.outOfBounds i)

/-- The bytes that `memcpy` reads. -/
def readBytes (buf : List UInt8) (i n : Nat) : Except Fault (List UInt8) :=
  if i + n ≤ buf.length then .ok ((buf.drop i).take n) else .error (.outOfBounds buf.length)

theorem readByte_lt (h : i < buf.length) : readByte buf i = .ok buf[i] := by
  rw [readByte, List.getElem?_eq_getElem h]

theorem readByte_length : readByte buf buf.length = .error (.outOfBounds buf.length) := by
  rw [readByte, List.getElem?_eq_none le_rfl]

theorem readByte_drop (h : buf.drop i = c :: rest) : readByte buf i = .ok c := by
  rw [readByte, ← List.head?_drop, h, List.head?_cons]

theorem drop_step (h : buf.drop i = pre ++ rest) : buf.drop (i + pre.length) = rest := by
  rw [← List.drop_drop, h, List.drop_left]

theorem readBytes_drop (h : buf.drop i = pre ++ rest) (hle : i ≤ buf.length) :
    readBytes buf i pre.length = .ok pre := by
  have hlen := congrArg List.length h
  rw [List.length_drop, List.length_append] at hlen
  rw [readBytes, if_pos (by omega), h, List.take_left]

/-! ## Writes -/

/-- Bytes that are written past the end. -/
theorem pokeAll_error (hle : i ≤ buf.length) (hlt : buf.length < i + vs.length) :
    pokeAll buf i vs = .error (.outOfBounds buf.length) := by
  induction vs generalizing buf i with
  | nil => exact absurd hlt (by simpa using hle)
  | cons v vs ih =>
    rcases Nat.lt_or_eq_of_le hle with hoff | rfl
    · have hpoke : poke buf i v = .ok (buf.set i v) := if_pos hoff
      rw [pokeAll, hpoke, ok_bind, ih (by rw [List.length_set]; exact hoff)
        (by rw [List.length_set]; simp only [List.length_cons] at hlt; omega), List.length_set]
    · have hpoke : poke buf buf.length v = .error (.outOfBounds buf.length) :=
        if_neg (Nat.lt_irrefl _)
      rw [pokeAll, hpoke, error_bind]

/-- Bytes that are written in two goes. -/
theorem pokeAll_add (buf : List UInt8) (i : Nat) (vs ws : List UInt8) :
    pokeAll buf i (vs ++ ws) =
      pokeAll buf i vs >>= fun buf => pokeAll buf (i + vs.length) ws := by
  induction vs generalizing buf i with
  | nil => rfl
  | cons v vs ih =>
    simp only [List.cons_append, pokeAll, bind_assoc, ih, List.length_cons]
    simp only [Nat.add_comm vs.length 1, Nat.add_assoc]

/-- The array with these bytes from the index on. -/
def overwrite (buf : List UInt8) (i : Nat) (vs : List UInt8) : List UInt8 :=
  buf.take i ++ vs ++ buf.drop (i + vs.length)

theorem length_overwrite (buf vs : List UInt8) (i : Nat) (h : i + vs.length ≤ buf.length) :
    (overwrite buf i vs).length = buf.length := by
  simp only [overwrite, List.length_append, List.length_take, List.length_drop]
  omega

theorem overwrite_overwrite (h : i + vs.length ≤ buf.length) :
    overwrite (overwrite buf i vs) (i + vs.length) ws = overwrite buf i (vs ++ ws) := by
  have hlen : (buf.take i ++ vs).length = i + vs.length := by
    rw [List.length_append, List.length_take, Nat.min_eq_left (by omega)]
  simp only [overwrite]
  rw [List.take_left' hlen, ← List.drop_drop, List.drop_left' hlen, List.drop_drop,
    List.length_append, Nat.add_assoc]
  simp only [List.append_assoc]

/-- **Bytes that are written where there is room.** -/
theorem pokeAll_eq (h : i + vs.length ≤ buf.length) :
    pokeAll buf i vs = .ok (overwrite buf i vs) := by
  have hlen : (buf.take i).length = i := by rw [List.length_take]; omega
  have hsplit : buf = buf.take i ++ (buf.drop i).take vs.length ++ buf.drop (i + vs.length) := by
    rw [List.append_assoc, ← List.drop_drop, List.take_append_drop, List.take_append_drop]
  have hpoke := pokeAll_append (buf.take i) vs ((buf.drop i).take vs.length)
    (buf.drop (i + vs.length)) (by rw [List.length_take, List.length_drop]; omega)
  rwa [← hsplit, hlen] at hpoke

end NinaHomekit
