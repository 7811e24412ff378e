import NinaHomekit.Lib.CArray

/-!
# A store of blobs and strings

A store that keeps, under a key, a blob or a string until the next one is written there, and a
caller that reads a value into an array of the size it gives: what does not fit is not read.
The keys, the elements and the representation of the store are arbitrary.

* `KeyStore` — the operations and what they do: a value is read as it was written, if it fits
  with its 0, and a write changes nothing under another key.
* `readBlob`, `readStr` — the read into an array; `readStr_setStr` and `readBlob_setBlob_elems`
  are **the round trips**, `map_text_readStr` what an array holds when it has been read into.
* `KeyStore.ofMap` — the store that is a map, which is one.
-/

/-- A store, with what it promises. -/
structure KeyStore (κ α : Type) [Zero α] where
  Store : Type
  /-- The blob under a key, if there is one and it has at most so many elements. -/
  getBlob : Store → κ → (size : ℕ) → Option {b : List α // b.length ≤ size}
  setBlob : Store → κ → List α → Store
  /-- The string under a key, if there is one and it fits with its 0. -/
  getStr : Store → κ → (size : ℕ) → Option {v : Str α // v.length < size}
  setStr : Store → κ → Str α → Store
  getBlob_setBlob (s : Store) (x : κ) (b : List α) (size : ℕ) :
    getBlob (setBlob s x b) x size = if h : b.length ≤ size then some ⟨b, h⟩ else none
  getStr_setStr (s : Store) (x : κ) (v : Str α) (size : ℕ) :
    getStr (setStr s x v) x size = if h : v.length < size then some ⟨v, h⟩ else none
  getBlob_setBlob_of_ne (s : Store) {x y : κ} (b : List α) : y ≠ x →
    getBlob (setBlob s x b) y = getBlob s y
  getBlob_setStr_of_ne (s : Store) {x y : κ} (v : Str α) : y ≠ x →
    getBlob (setStr s x v) y = getBlob s y
  getStr_setBlob_of_ne (s : Store) {x y : κ} (b : List α) : y ≠ x →
    getStr (setBlob s x b) y = getStr s y
  getStr_setStr_of_ne (s : Store) {x y : κ} (v : Str α) : y ≠ x →
    getStr (setStr s x v) y = getStr s y

namespace KeyStore

variable {κ α : Type} [Zero α] (nvs : KeyStore κ α) {n : ℕ}

/-- Read the blob under a key into an array, if it fits. -/
def readBlob (s : nvs.Store) (x : κ) (a : CArray α n) : Option (CArray α n) :=
  (nvs.getBlob s x n).map fun b => a.put b.1 b.2

/-- Read the string under a key into an array, if it fits with its 0. -/
def readStr (s : nvs.Store) (x : κ) (a : CArray α n) : Option (CArray α n) :=
  (nvs.getStr s x n).map fun v => a.strcpy v.1 v.2

theorem readBlob_setBlob (s : nvs.Store) (x : κ) {b : List α} (a : CArray α n)
    (h : b.length ≤ n) : nvs.readBlob (nvs.setBlob s x b) x a = some (a.put b h) := by
  rw [readBlob, nvs.getBlob_setBlob, dif_pos h, Option.map_some]

/-- **The round trip** of an array. -/
theorem readBlob_setBlob_elems (s : nvs.Store) (x : κ) (a b : CArray α n) :
    nvs.readBlob (nvs.setBlob s x b.elems) x a = some b := by
  rw [nvs.readBlob_setBlob s x a b.length_elems.le, CArray.put_elems]

/-- **The round trip** of a string that fits. -/
theorem readStr_setStr (s : nvs.Store) (x : κ) {v : Str α} (a : CArray α n) (h : v.length < n) :
    nvs.readStr (nvs.setStr s x v) x a = some (a.strcpy v h) := by
  rw [readStr, nvs.getStr_setStr, dif_pos h, Option.map_some]

theorem exists_of_readStr {s : nvs.Store} {x : κ} {a b : CArray α n}
    (h : nvs.readStr s x a = some b) : ∃ (v : Str α) (hv : v.length < n), b = a.strcpy v hv := by
  obtain ⟨v, -, rfl⟩ := Option.map_eq_some_iff.1 h
  exact ⟨v.1, v.2, rfl⟩

/-- The string that is read does not depend on what was in the array. -/
theorem map_text_readStr [DecidableEq α] (s : nvs.Store) (x : κ) (a : CArray α n) :
    (nvs.readStr s x a).map CArray.text = (nvs.getStr s x n).map Subtype.val := by
  rw [readStr, Option.map_map]
  exact congrArg (Option.map · _) (funext fun v => CArray.text_strcpy v.2)

section Frame

variable (s : nvs.Store) {x y : κ}

theorem readBlob_setBlob_of_ne (h : y ≠ x) (b : List α) (a : CArray α n) :
    nvs.readBlob (nvs.setBlob s x b) y a = nvs.readBlob s y a := by
  rw [readBlob, nvs.getBlob_setBlob_of_ne s b h, readBlob]

theorem readBlob_setStr_of_ne (h : y ≠ x) (v : Str α) (a : CArray α n) :
    nvs.readBlob (nvs.setStr s x v) y a = nvs.readBlob s y a := by
  rw [readBlob, nvs.getBlob_setStr_of_ne s v h, readBlob]

theorem readStr_setBlob_of_ne (h : y ≠ x) (b : List α) (a : CArray α n) :
    nvs.readStr (nvs.setBlob s x b) y a = nvs.readStr s y a := by
  rw [readStr, nvs.getStr_setBlob_of_ne s b h, readStr]

theorem readStr_setStr_of_ne (h : y ≠ x) (v : Str α) (a : CArray α n) :
    nvs.readStr (nvs.setStr s x v) y a = nvs.readStr s y a := by
  rw [readStr, nvs.getStr_setStr_of_ne s v h, readStr]

end Frame

/-! ## A store that is a map -/

section OfMap

variable (κ α) [DecidableEq κ]

/-- The store whose keys have a blob, a string or nothing. -/
def ofMap : KeyStore κ α where
  Store := κ → Option (List α ⊕ Str α)
  getBlob s x size := match s x with
    | some (.inl b) => if h : b.length ≤ size then some ⟨b, h⟩ else none
    | _ => none
  setBlob s x b := Function.update s x (some (.inl b))
  getStr s x size := match s x with
    | some (.inr v) => if h : v.length < size then some ⟨v, h⟩ else none
    | _ => none
  setStr s x v := Function.update s x (some (.inr v))
  getBlob_setBlob s x b size := by rw [Function.update_self]
  getStr_setStr s x v size := by rw [Function.update_self]
  getBlob_setBlob_of_ne s x y b h := by rw [Function.update_of_ne h]
  getBlob_setStr_of_ne s x y v h := by rw [Function.update_of_ne h]
  getStr_setBlob_of_ne s x y b h := by rw [Function.update_of_ne h]
  getStr_setStr_of_ne s x y v h := by rw [Function.update_of_ne h]

end OfMap

end KeyStore
