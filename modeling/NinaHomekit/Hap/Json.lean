import NinaHomekit.Definitions

/-!
# Reading JSON

The part of `json_parser.c` the write handler uses, on a parsed text, and the cursor it
moves through the items of an array.

* `JsonVal` — a parsed text; a primitive keeps its characters.
* `objGetBool`, `objGetInt`, `objGetUInt64`, `objGetString` — the members of an object.
* `Cursor`, `arrGetObject`, `arrLeaveObject` — the cursor.  It stays where it is when there
  is no object to enter, and then leaves the array at the next item.
-/

namespace NinaHomekit

/-- A parsed JSON text. -/
inductive JsonVal where
  /-- A number, `true`, `false` or `null`. -/
  | prim (text : CStr)
  | str (text : CStr)
  | arr (elems : List JsonVal)
  | obj (members : List (CStr × JsonVal))

/-- The members of an object, in order. -/
abbrev Members := List (CStr × JsonVal)

/-! ## Primitives -/

/-- The digits of a number, most significant first. -/
def parseDigits (n : Nat) : CStr → Option Nat
  | [] => some n
  | c :: cs => if 0x30 ≤ c ∧ c ≤ 0x39 then parseDigits (10 * n + (c.toNat - 0x30)) cs else none

/-- `strtoul` or `strtoull` in base 10, when it reads the whole text. -/
def strtoul (bits : Nat) (text : CStr) : Option Nat :=
  let (negative, digits) := match text with
    | 0x2D :: cs => (true, cs)
    | 0x2B :: cs => (false, cs)
    | cs => (false, cs)
  if digits = [] then none
  else (parseDigits 0 digits).map fun n =>
    if 2 ^ bits ≤ n then 2 ^ bits - 1
    else if negative then (2 ^ bits - n) % 2 ^ bits
    else n

/-- `json_tok_to_int`. -/
def tokToInt (text : CStr) : Option Int :=
  (strtoul 32 text).map fun n => if n < 2 ^ 31 then (n : Int) else (n : Int) - 2 ^ 32

/-- `json_tok_to_int64`, read as unsigned. -/
def tokToUInt64 (text : CStr) : Option UInt64 := (strtoul 64 text).map UInt64.ofNat

/-- `json_tok_to_bool`. -/
def tokToBool (text : CStr) : Option Bool :=
  if text = [0x74, 0x72, 0x75, 0x65] ∨ text = [0x31] then some true
  else if text = [0x66, 0x61, 0x6C, 0x73, 0x65] ∨ text = [0x30] then some false
  else none

/-! ## Members -/

/-- `json_obj_search`: the value of the first such key. -/
def objSearch (o : Option Members) (key : CStr) : Option JsonVal := do
  let members ← o
  let member ← members.find? (·.1 = key)
  return member.2

/-- `json_obj_get_val_tok` for a primitive. -/
def objGetPrim (o : Option Members) (key : CStr) : Option CStr :=
  match objSearch o key with
  | some (.prim text) => some text
  | _ => none

def objGetBool (o : Option Members) (key : CStr) : Option Bool := objGetPrim o key >>= tokToBool

def objGetInt (o : Option Members) (key : CStr) : Option Int := objGetPrim o key >>= tokToInt

def objGetUInt64 (o : Option Members) (key : CStr) : Option UInt64 :=
  objGetPrim o key >>= tokToUInt64

/-- `json_obj_get_strlen` and `json_obj_get_string`. -/
def objGetString (o : Option Members) (key : CStr) : Option CStr :=
  match objSearch o key with
  | some (.str text) => some text
  | _ => none

/-- `json_obj_get_array`; 0 elements if there is none. -/
def objGetArray (o : Option Members) (key : CStr) : List JsonVal :=
  match objSearch o key with
  | some (.arr elems) => elems
  | _ => []

/-! ## The cursor -/

/-- `jctx->cur`, once it is in the array of items. -/
inductive Cursor where
  /-- In the object at this index. -/
  | item (i : Nat)
  /-- At the array. -/
  | array
  /-- At the key of the array. -/
  | key
  /-- At the object the array belongs to. -/
  | root
  deriving DecidableEq, Repr

/-- `json_arr_get_object`. -/
def arrGetObject (elems : List JsonVal) (cur : Cursor) (i : Nat) : Cursor :=
  match cur, elems[i]? with
  | .array, some (.obj _) => .item i
  | cur, _ => cur

/-- `json_arr_leave_object`: to the parent, if there is one. -/
def arrLeaveObject : Cursor → Cursor
  | .item _ => .array
  | .array => .key
  | .key => .root
  | .root => .root

/-- The object the cursor is in. -/
def cursorObj (root : Members) (elems : List JsonVal) : Cursor → Option Members
  | .item i =>
    match elems[i]? with
    | some (.obj members) => some members
    | _ => none
  | .root => some root
  | _ => none

/-- Where the cursor is when the loop looks at the item `i`. -/
def cursorAt (elems : List JsonVal) : Nat → Cursor
  | 0 => arrGetObject elems (arrLeaveObject (arrGetObject elems .array 0)) 0
  | i + 1 => arrGetObject elems (arrLeaveObject (cursorAt elems i)) (i + 1)

/-- As long as every element is an object, the item `i` is read from the element `i`. -/
theorem cursorAt_of_objects {elems : List JsonVal} (h : ∀ v ∈ elems, ∃ members, v = .obj members)
    {i : Nat} (hi : i < elems.length) : cursorAt elems i = .item i := by
  have hget : ∀ {j : Nat}, j < elems.length → arrGetObject elems .array j = .item j := by
    intro j hj
    obtain ⟨members, hm⟩ := h elems[j] (List.getElem_mem hj)
    simp [arrGetObject, List.getElem?_eq_getElem hj, hm]
  induction i with
  | zero => rw [cursorAt, hget hi, arrLeaveObject, hget hi]
  | succ i ih => rw [cursorAt, ih (by omega), arrLeaveObject, hget hi]

end NinaHomekit
