import Mathlib

/-!
# Strings in arrays

A C array that holds a string: `n` elements, of which the string is those before the first 0.
What writes a string starts at the front of the array; what reads one goes on until a 0 comes,
behind the array if there is none in it.

* `Str` — a string: elements none of which is 0.
* `CArray` — an array of `n` elements.  `put` overwrites its first ones, `strcpy` and `strncpy`
  write a string, with its 0 and with as many zeros as fill the size.
* `textFrom`, `text` — the string that is read, with what is behind the array and without.
* `Terminated` — a 0 is in the array; `terminated_iff_length_text_lt`.
* `text_strcpy`, `text_strncpy` — **the string that was written is the one that is read**, up
  to the size that is written.
* `not_terminated_strncpy` — but a string that fills the array leaves no 0 in it.
* `ofNat`, `toNat` — an integer in the array, the lowest byte first; `toNat_ofNat`.
-/

/-- A string, without the 0 that ends it. -/
@[ext] structure Str (α : Type*) [Zero α] where
  chars : List α
  zero_notMem : 0 ∉ chars
  deriving DecidableEq

/-- An array of `n` elements. -/
@[ext] structure CArray (α : Type*) (n : ℕ) where
  elems : List α
  length_elems : elems.length = n
  deriving DecidableEq

namespace Str

variable {α : Type*} [Zero α]

def length (s : Str α) : ℕ := s.chars.length

/-- The first `k` characters. -/
def take (s : Str α) (k : ℕ) : Str α where
  chars := s.chars.take k
  zero_notMem h := s.zero_notMem (List.mem_of_mem_take h)

@[simp] theorem chars_take (s : Str α) (k : ℕ) : (s.take k).chars = s.chars.take k := rfl

theorem take_eq_self {s : Str α} {k : ℕ} (h : s.length ≤ k) : s.take k = s :=
  Str.ext (List.take_of_length_le h)

theorem length_take_le (s : Str α) (k : ℕ) : (s.take k).length ≤ k := List.length_take_le _ _

/-- The string at the start of these elements. -/
def upTo [DecidableEq α] (l : List α) : Str α where
  chars := l.takeWhile (· ≠ 0)
  zero_notMem h := by simpa using List.mem_takeWhile_imp h

end Str

namespace CArray

/-! ## Writing -/

section Put

variable {α : Type*} {n : ℕ} (a : CArray α n)

/-- The first elements are overwritten. -/
def put (l : List α) (h : l.length ≤ n) : CArray α n where
  elems := l ++ a.elems.drop l.length
  length_elems := by
    rw [List.length_append, List.length_drop, a.length_elems]
    omega

variable {a}

theorem elems_put {l : List α} {h : l.length ≤ n} :
    (a.put l h).elems = l ++ a.elems.drop l.length := rfl

theorem getElem?_put_of_le {l : List α} {h : l.length ≤ n} {i : ℕ} (hi : l.length ≤ i) :
    (a.put l h).elems[i]? = a.elems[i]? := by
  rw [elems_put, List.getElem?_append_right hi, List.getElem?_drop]
  congr 1
  omega

/-- An array that is overwritten as a whole. -/
theorem put_elems {b : CArray α n} {h : b.elems.length ≤ n} : a.put b.elems h = b := by
  ext1
  rw [elems_put, List.drop_of_length_le (by rw [a.length_elems, b.length_elems]),
    List.append_nil]

end Put

variable {α : Type*} [Zero α] {n k : ℕ} (a : CArray α n) (s : Str α)

/-- An array of zeros. -/
def zeros (n : ℕ) : CArray α n := ⟨List.replicate n 0, List.length_replicate⟩

/-- `strcpy`: the string and its 0. -/
def strcpy (h : s.length < n) : CArray α n :=
  a.put (s.chars ++ [0]) (by rw [List.length_append]; exact h)

/-- `strncpy`: at most `k` characters, and zeros up to there. -/
def strncpy (k : ℕ) (h : k ≤ n) : CArray α n :=
  a.put ((s.chars.take k).rightpad k 0) (by rw [List.length_rightpad, List.length_take]; omega)

variable {a s}

theorem getElem?_zeros {i : ℕ} (hi : i < n) : (zeros n : CArray α n).elems[i]? = some 0 := by
  simp [zeros, hi]

theorem elems_strncpy (h : k ≤ n) : (a.strncpy s k h).elems =
    s.chars.take k ++ List.replicate (k - s.length) 0 ++ a.elems.drop k := by
  have hlen : ((s.chars.take k).rightpad k 0).length = k := by
    rw [List.length_rightpad, List.length_take]
    omega
  have hpad : k - (s.chars.take k).length = k - s.length := by
    rw [List.length_take, Str.length]
    omega
  rw [strncpy, elems_put, hlen, List.rightpad, hpad]

/-- `strncpy` leaves alone what is behind its size. -/
theorem getElem?_strncpy_of_le {h : k ≤ n} {i : ℕ} (hi : k ≤ i) :
    (a.strncpy s k h).elems[i]? = a.elems[i]? :=
  getElem?_put_of_le (by rw [List.length_rightpad, List.length_take]; omega)

/-- A 0 is not overwritten by a string that ends no later. -/
theorem getElem?_strcpy {h : s.length < n} {i : ℕ} (hi : s.length ≤ i)
    (hzero : a.elems[i]? = some 0) : (a.strcpy s h).elems[i]? = some 0 := by
  rcases Nat.eq_or_lt_of_le hi with rfl | hlt
  · rw [strcpy, elems_put, List.append_assoc, Str.length, List.getElem?_append_right le_rfl]
    simp
  · rw [strcpy, getElem?_put_of_le (by rw [List.length_append]; exact hlt), hzero]

/-! ## Reading -/

section Reading

variable [DecidableEq α]

/-- The string that is read from the start of the array, with this behind it. -/
def textFrom (b : CArray α n) (behind : List α) : Str α := Str.upTo (b.elems ++ behind)

/-- The string in the array. -/
def text (b : CArray α n) : Str α := b.textFrom []

/-- A 0 is in the array. -/
def Terminated (b : CArray α n) : Prop := 0 ∈ b.elems

instance : Decidable a.Terminated := inferInstanceAs (Decidable (_ ∈ _))

theorem chars_textFrom (behind : List α) :
    (a.textFrom behind).chars = (a.elems ++ behind).takeWhile (· ≠ 0) := rfl

@[simp] theorem chars_text : a.text.chars = a.elems.takeWhile (· ≠ 0) := by
  rw [text, chars_textFrom, List.append_nil]

theorem terminated_iff_length_text_lt : a.Terminated ↔ a.text.length < n := by
  have hle : a.text.chars <+: a.elems := by
    rw [chars_text]
    exact List.takeWhile_prefix _
  constructor
  · intro hzero
    refine lt_of_le_of_ne (hle.length_le.trans a.length_elems.le) fun heq => ?_
    rw [Terminated, ← hle.eq_of_length (heq.trans a.length_elems.symm)] at hzero
    exact a.text.zero_notMem hzero
  · intro hlt
    by_contra hzero
    have hall : a.elems.takeWhile (· ≠ 0) = a.elems := by
      refine List.takeWhile_eq_self_iff.2 fun x hx => decide_eq_true ?_
      rintro rfl
      exact hzero hx
    rw [Str.length, chars_text, hall, a.length_elems] at hlt
    exact lt_irrefl n hlt

/-- A string is read within an array that has a 0. -/
theorem textFrom_of_terminated (h : a.Terminated) (behind : List α) :
    a.textFrom behind = a.text := by
  rw [terminated_iff_length_text_lt, Str.length, chars_text] at h
  ext1
  rw [chars_text, chars_textFrom, List.takeWhile_append, if_neg]
  rw [a.length_elems]
  exact h.ne

/-- What is in front of a 0 is the string. -/
theorem text_eq_of_elems {l : List α} (h : a.elems = s.chars ++ 0 :: l) : a.text = s := by
  have hall : ∀ x ∈ s.chars, decide (x ≠ 0) = true := by
    refine fun x hx => decide_eq_true ?_
    rintro rfl
    exact s.zero_notMem hx
  ext1
  rw [chars_text, h, List.takeWhile_append_of_pos hall]
  simp

/-- **`strcpy`** writes the string. -/
@[simp] theorem text_strcpy (h : s.length < n) : (a.strcpy s h).text = s :=
  text_eq_of_elems (List.append_assoc _ _ _)

/-- **`strncpy`** writes the string up to its size, if a 0 comes there or before. -/
theorem text_strncpy {h : k ≤ n} (hzero : s.length < k ∨ a.elems[k]? = some 0) :
    (a.strncpy s k h).text = s.take k := by
  by_cases hlt : s.length < k
  · refine text_eq_of_elems
      (l := List.replicate (k - s.length - 1) 0 ++ a.elems.drop k) ?_
    rw [elems_strncpy, Str.chars_take, List.append_assoc, show k - s.length =
      (k - s.length - 1) + 1 by omega, List.replicate_succ]
    rfl
  · obtain ⟨hk, hval⟩ := List.getElem?_eq_some_iff.1 (hzero.resolve_left hlt)
    refine text_eq_of_elems (l := a.elems.drop (k + 1)) ?_
    rw [elems_strncpy, Nat.sub_eq_zero_of_le (Nat.not_lt.1 hlt), List.replicate_zero,
      List.append_nil, List.drop_eq_getElem_cons hk, hval, Str.chars_take]

theorem terminated_strcpy (h : s.length < n) : (a.strcpy s h).Terminated := by
  rw [terminated_iff_length_text_lt, text_strcpy]
  exact h

theorem terminated_strncpy {h : k ≤ n} (hzero : s.length < k ∨ a.elems[k]? = some 0) :
    (a.strncpy s k h).Terminated := by
  rw [terminated_iff_length_text_lt, text_strncpy hzero]
  rcases hzero with hlt | hval
  · rw [Str.take_eq_self hlt.le]
    omega
  · have hk := (List.getElem?_eq_some_iff.1 hval).1
    rw [a.length_elems] at hk
    exact (Str.length_take_le s k).trans_lt hk

omit [DecidableEq α] in
/-- **A string that fills the array** leaves no 0 in it. -/
theorem not_terminated_strncpy (h : n ≤ s.length) : ¬ (a.strncpy s n le_rfl).Terminated := by
  rw [Terminated, elems_strncpy, Nat.sub_eq_zero_of_le h, List.replicate_zero, List.append_nil,
    List.drop_of_length_le a.length_elems.le, List.append_nil]
  exact (s.take n).zero_notMem

end Reading

/-! ## Integers -/

/-- The bytes of an integer, the lowest first. -/
def natBytes : ℕ → ℕ → List UInt8
  | 0, _ => []
  | n + 1, x => UInt8.ofNat x :: natBytes n (x / 256)

@[simp] theorem length_natBytes (n x : ℕ) : (natBytes n x).length = n := by
  induction n generalizing x with
  | zero => rfl
  | succ n ih => rw [natBytes, List.length_cons, ih]

/-- An integer in memory. -/
def ofNat (n x : ℕ) : CArray UInt8 n := ⟨natBytes n x, length_natBytes n x⟩

/-- The integer that is read from memory. -/
def toNat (a : CArray UInt8 n) : ℕ := Nat.ofDigits 256 (a.elems.map UInt8.toNat)

/-- **An integer that has room** is read as it was written. -/
theorem toNat_ofNat {n x : ℕ} (h : x < 256 ^ n) : (ofNat n x).toNat = x := by
  show Nat.ofDigits 256 ((natBytes n x).map UInt8.toNat) = x
  induction n generalizing x with
  | zero =>
    rw [pow_zero, Nat.lt_one_iff] at h
    rw [h]
    rfl
  | succ n ih =>
    have hdiv : x / 256 < 256 ^ n := Nat.div_lt_of_lt_mul (by rwa [← pow_succ'])
    rw [natBytes, List.map_cons, Nat.ofDigits_cons, ih hdiv, UInt8.toNat_ofNat']
    exact Nat.mod_add_div x 256

end CArray
