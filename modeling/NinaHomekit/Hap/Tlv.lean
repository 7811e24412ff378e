import NinaHomekit.Hap.Array
import NinaHomekit.Lib.Outcome

/-!
# TLV messages

`add_tlv` and `get_value_from_tlv` of `esp_hap_pair_common.c`, on arrays whose reads and writes are
checked: a value of more than 255 bytes is cut into fragments of the same type.

* `tlvText`, `tlvMessage` — the bytes of a value, and of a message.
* `addTlv`, `getValueFromTlv`, `getTlvLength` — the code.
* `addTlv_eq_ok`, `addTlv_eq_error` — **what is written, and that a value of several fragments can
  pass the check and be written past the end.**
* `getValueLoop_message` — **what is read from a message**, which is not always the value: one
  whose last fragment is full is not found at the end of a message.
* `getValueLoop_meets` — what is read from any bytes.
-/

namespace NinaHomekit

open Trace Outcome

/-! ## The format -/

/-- The bytes of a value. -/
def tlvText (type : UInt8) (val : List UInt8) : List UInt8 :=
  if val.length ≤ 255 then type :: UInt8.ofNat val.length :: val
  else type :: 255 :: (val.take 255 ++ tlvText type (val.drop 255))
termination_by val.length
decreasing_by
  rw [List.length_drop]
  omega

/-- A type, and a value. -/
abbrev TlvItem := UInt8 × List UInt8

/-- The bytes of a message. -/
def tlvMessage (items : List TlvItem) : List UInt8 := items.flatMap fun i => tlvText i.1 i.2

/-! ## Writing -/

/-- `hap_tlv_data_t`: `bufptr` has `bufsize` elements. -/
structure TlvData where
  buf : List UInt8
  curlen : Nat
  deriving DecidableEq, Repr

/-- The loop of `add_tlv`, which writes a fragment even if there is nothing to write. -/
def addFragments (type : UInt8) : Nat → TlvData → List UInt8 → Except Fault TlvData
  | 0, d, _ => .ok d
  | fuel + 1, d, val => do
    let tmpLen := (val.take 255).length
    let buf ← poke d.buf d.curlen type
    let buf ← poke buf (d.curlen + 1) (UInt8.ofNat tmpLen)
    let buf ← pokeAll buf (d.curlen + 2) (val.take 255)
    let d := ⟨buf, d.curlen + 2 + tmpLen⟩
    if val.drop 255 = [] then return d
    else addFragments type fuel d (val.drop 255)

/-- `add_tlv`; nothing for -1. -/
def addTlv (d : TlvData) (type : UInt8) (val : List UInt8) : Except Fault (Option TlvData) :=
  if d.buf.length < d.curlen + (val.length + 2) then .ok none
  else some <$> addFragments type (val.length + 1) d val

/-- `add_tlv` for one item after the other, up to one that is refused. -/
def addTlvs (d : TlvData) : List TlvItem → Except Fault (Option TlvData)
  | [] => .ok (some d)
  | item :: items => do
    match ← addTlv d item.1 item.2 with
    | some d => addTlvs d items
    | none => return none

/-! ## Reading -/

/-- The loop of `get_value_from_tlv`, with what is in `val` already; a negative `buflen` is 0. -/
def getValueLoop (buf : List UInt8) (type : UInt8) :
    Nat → Nat → Nat → List UInt8 → Nat → Bool → Except Fault (Option (List UInt8))
  | 0, _, _, _, _, _ => .ok none
  | fuel + 1, buflen, curlen, val, valSize, found =>
    if buflen = 0 then .ok none
    else do
      let t ← readByte buf curlen
      if t ≠ type ∧ found then return some val
      else do
        let len := (← readByte buf (curlen + 1)).toNat
        if t ≠ type then
          getValueLoop buf type fuel (buflen - (2 + len)) (curlen + (2 + len)) val valSize found
        else if valSize < len ∨ buflen < len + 2 then return none
        else do
          let val := val ++ (← readBytes buf (curlen + 2) len)
          if len < 255 then return some val
          else
            getValueLoop buf type fuel (buflen - (2 + len)) (curlen + (2 + len)) val (valSize - len)
              true

/-- `get_value_from_tlv`, into an array of `valSize` bytes; nothing for -1. -/
def getValueFromTlv (buf : List UInt8) (buflen : Nat) (type : UInt8) (valSize : Nat) :
    Except Fault (Option (List UInt8)) :=
  getValueLoop buf type buflen buflen 0 [] valSize false

/-- The loop of `get_tlv_length`. -/
def getLengthLoop (buf : List UInt8) (type : UInt8) :
    Nat → Nat → Nat → Nat → Bool → Except Fault (Option Nat)
  | 0, _, _, _, _ => .ok none
  | fuel + 1, buflen, curlen, valLen, found =>
    if buflen = 0 then .ok none
    else do
      let t ← readByte buf curlen
      if t ≠ type ∧ found then return some valLen
      else do
        let len := (← readByte buf (curlen + 1)).toNat
        if t ≠ type then
          getLengthLoop buf type fuel (buflen - (2 + len)) (curlen + (2 + len)) valLen found
        else if buflen < len + 2 then return none
        else if len < 255 then return some (valLen + len)
        else
          getLengthLoop buf type fuel (buflen - (2 + len)) (curlen + (2 + len)) (valLen + len) true

/-- `get_tlv_length`; nothing for -1. -/
def getTlvLength (buf : List UInt8) (buflen : Nat) (type : UInt8) : Except Fault (Option Nat) :=
  getLengthLoop buf type buflen buflen 0 0 false

/-! ## What is written -/

variable {type : UInt8} {val : List UInt8} {d : TlvData}

theorem tlvText_short (h : val.length ≤ 255) :
    tlvText type val = type :: UInt8.ofNat val.length :: val := by
  rw [tlvText, if_pos h]

theorem tlvText_long (h : ¬ val.length ≤ 255) :
    tlvText type val = type :: 255 :: (val.take 255 ++ tlvText type (val.drop 255)) := by
  rw [tlvText, if_neg h]

/-- Two bytes more for each fragment. -/
theorem length_tlvText (type : UInt8) (val : List UInt8) :
    (tlvText type val).length = val.length + 2 * max 1 ((val.length + 254) / 255) := by
  induction val using tlvText.induct with
  | case1 val h =>
    rw [tlvText_short h]
    simp only [List.length_cons]
    omega
  | case2 val h ih =>
    rw [tlvText_long h]
    simp only [List.length_cons, List.length_append, List.length_take, ih, List.length_drop]
    omega

/-- The loop writes the bytes of the value, one after the other.  Induction on the fragments. -/
theorem addFragments_eq {fuel : Nat} (hfuel : val.length < fuel) (d : TlvData) :
    addFragments type fuel d val = (do
      let buf ← pokeAll d.buf d.curlen (tlvText type val)
      return ⟨buf, d.curlen + (tlvText type val).length⟩) := by
  induction val using tlvText.induct generalizing fuel d with
  | case1 val h =>
    obtain ⟨fuel, rfl⟩ : ∃ n, fuel = n + 1 := ⟨fuel - 1, by omega⟩
    have htake : val.take 255 = val := List.take_of_length_le h
    have hdrop : val.drop 255 = [] := List.drop_of_length_le h
    simp only [addFragments, tlvText_short h, htake, hdrop, if_true, pokeAll, bind_assoc,
      List.length_cons]
    simp only [Nat.add_assoc, Nat.add_comm 2]
  | case2 val h ih =>
    obtain ⟨fuel, rfl⟩ : ∃ n, fuel = n + 1 := ⟨fuel - 1, by omega⟩
    have htake : (val.take 255).length = 255 := by rw [List.length_take]; omega
    have hdrop : val.drop 255 ≠ [] := List.ne_nil_of_length_pos (by rw [List.length_drop]; omega)
    simp only [addFragments, tlvText_long h, htake, if_neg hdrop, pokeAll, bind_assoc,
      ih (show (val.drop 255).length < fuel by rw [List.length_drop]; omega), pokeAll_add,
      List.length_cons, List.length_append, Nat.add_assoc]
    rw [show 255 + ((tlvText type (val.drop 255)).length + (1 + 1)) =
      2 + (255 + (tlvText type (val.drop 255)).length) by omega]
    rfl

theorem addTlv_of_room (h : ¬ d.buf.length < d.curlen + (val.length + 2)) :
    addTlv d type val = (do
      let buf ← pokeAll d.buf d.curlen (tlvText type val)
      return some ⟨buf, d.curlen + (tlvText type val).length⟩) := by
  simp only [addTlv, if_neg h, addFragments_eq (Nat.lt_succ_self _), map_bind]
  rfl

/-- **What is written**, where there is room for all of it. -/
theorem addTlv_eq_ok (d : TlvData) (type : UInt8) (val : List UInt8)
    (hroom : d.curlen + (tlvText type val).length ≤ d.buf.length) :
    addTlv d type val = .ok (some ⟨overwrite d.buf d.curlen (tlvText type val),
      d.curlen + (tlvText type val).length⟩) := by
  have hlen := length_tlvText type val
  rw [addTlv_of_room (by omega), pokeAll_eq hroom, ok_bind]
  rfl

/-- **A value of several fragments is written past the end** if the check leaves room for one. -/
theorem addTlv_eq_error (d : TlvData) (type : UInt8) (val : List UInt8)
    (hcheck : d.curlen + (val.length + 2) ≤ d.buf.length)
    (hroom : d.buf.length < d.curlen + (tlvText type val).length) :
    addTlv d type val = .error (.outOfBounds d.buf.length) := by
  rw [addTlv_of_room (by omega), pokeAll_error (by omega) hroom, error_bind]

/-- **A message that fits is written item by item.**  Induction on the items. -/
theorem addTlvs_eq (d : TlvData) (items : List TlvItem)
    (hroom : d.curlen + (tlvMessage items).length ≤ d.buf.length) :
    addTlvs d items = .ok (some ⟨overwrite d.buf d.curlen (tlvMessage items),
      d.curlen + (tlvMessage items).length⟩) := by
  induction items generalizing d with
  | nil => simp [addTlvs, tlvMessage, overwrite]
  | cons item items ih =>
    have hmessage : tlvMessage (item :: items) = tlvText item.1 item.2 ++ tlvMessage items := by
      rw [tlvMessage, List.flatMap_cons, tlvMessage]
    rw [hmessage, List.length_append] at hroom
    have hfirst : d.curlen + (tlvText item.1 item.2).length ≤ d.buf.length := by omega
    have hrest := ih ⟨overwrite d.buf d.curlen (tlvText item.1 item.2),
      d.curlen + (tlvText item.1 item.2).length⟩
      (by rw [length_overwrite _ _ _ hfirst]; simp only; omega)
    simp only [addTlvs, addTlv_eq_ok d item.1 item.2 hfirst, ok_bind, hrest, overwrite_overwrite hfirst,
      hmessage, List.length_append, Nat.add_assoc]

/-! ## What is read -/

variable {buf rest frag : List UInt8} {t : UInt8} {fuel buflen curlen valSize : Nat} {found : Bool}

/-- A pass over a fragment, while nothing was found. -/
theorem getValueLoop_fragment (type t : UInt8) (frag : List UInt8) (hfrag : frag.length ≤ 255)
    (h : buf.drop curlen = t :: UInt8.ofNat frag.length :: (frag ++ rest))
    (hlen : frag.length + 2 ≤ buflen) (val : List UInt8) (hfound : found = true → t = type) :
    getValueLoop buf type (fuel + 1) buflen curlen val valSize found =
      if t ≠ type then
        getValueLoop buf type fuel (buflen - (2 + frag.length)) (curlen + (2 + frag.length)) val
          valSize found
      else if valSize < frag.length then .ok none
      else if frag.length < 255 then .ok (some (val ++ frag))
      else getValueLoop buf type fuel (buflen - (2 + frag.length)) (curlen + (2 + frag.length))
        (val ++ frag) (valSize - frag.length) true := by
  have hsecond : buf.drop (curlen + 1) = UInt8.ofNat frag.length :: (frag ++ rest) := by
    rw [← List.drop_drop, h]
    rfl
  have hthird : buf.drop (curlen + 2) = frag ++ rest := by
    rw [← List.drop_drop, h]
    rfl
  have hle : curlen + 2 ≤ buf.length := by
    have := congrArg List.length h
    simp only [List.length_drop, List.length_cons, List.length_append] at this
    omega
  have htoNat : (UInt8.ofNat frag.length).toNat = frag.length := by
    rw [UInt8.toNat_ofNat', Nat.mod_eq_of_lt (by omega)]
  have hother : ¬ (t ≠ type ∧ found = true) := fun ⟨hne, hf⟩ => hne (hfound hf)
  simp only [getValueLoop, if_neg (show ¬ buflen = 0 by omega), readByte_drop h,
    readByte_drop hsecond, readBytes_drop hthird hle, ok_bind, htoNat, if_neg hother,
    Nat.not_lt.2 hlen, or_false]
  rfl

/-- A value of another type is passed.  Induction on its fragments. -/
theorem getValueLoop_skip (ht : t ≠ type) (v : List UInt8)
    (h : buf.drop curlen = tlvText t v ++ rest) (hlen : (tlvText t v).length ≤ buflen)
    (hfuel : buflen ≤ fuel) (val : List UInt8) (valSize : Nat) :
    ∃ fuel', buflen - (tlvText t v).length ≤ fuel' ∧
      getValueLoop buf type fuel buflen curlen val valSize false =
        getValueLoop buf type fuel' (buflen - (tlvText t v).length)
          (curlen + (tlvText t v).length) val valSize false := by
  induction v using tlvText.induct generalizing fuel buflen curlen with
  | case1 v hv =>
    rw [tlvText_short hv] at h hlen ⊢
    simp only [List.length_cons] at hlen ⊢
    obtain ⟨fuel, rfl⟩ : ∃ n, fuel = n + 1 := ⟨fuel - 1, by omega⟩
    refine ⟨fuel, by omega, ?_⟩
    rw [getValueLoop_fragment type t v hv (by simpa using h) (by omega) val (by simp), if_pos ht,
      Nat.add_comm 2]
  | case2 v hv ih =>
    rw [tlvText_long hv] at h hlen ⊢
    have htake : (v.take 255).length = 255 := by rw [List.length_take]; omega
    simp only [List.length_cons, List.length_append, htake] at hlen ⊢
    obtain ⟨fuel, rfl⟩ : ∃ n, fuel = n + 1 := ⟨fuel - 1, by omega⟩
    have hrest : buf.drop (curlen + (2 + 255)) = tlvText t (v.drop 255) ++ rest := by
      rw [← List.drop_drop, h]
      simp [htake]
    obtain ⟨fuel', hfuel', heq⟩ := ih hrest (show _ ≤ buflen - (2 + 255) by omega)
      (show _ ≤ fuel by omega)
    refine ⟨fuel', by omega, ?_⟩
    rw [getValueLoop_fragment type t (v.take 255) (by omega) (by simpa [htake] using h)
      (by omega) val (by simp), if_pos ht, htake, heq, Nat.sub_sub, Nat.add_assoc curlen,
      show 2 + 255 + (tlvText t (v.drop 255)).length =
        255 + (tlvText t (v.drop 255)).length + 1 + 1 by omega]

/-- The value is read, fragment by fragment; behind a full one the loop goes on.  Induction on the
fragments. -/
theorem getValueLoop_value (v : List UInt8) (h : buf.drop curlen = tlvText type v ++ rest)
    (hlen : (tlvText type v).length ≤ buflen) (hfuel : buflen ≤ fuel) (val : List UInt8)
    (valSize : Nat) (found : Bool) :
    ∃ fuel', buflen - (tlvText type v).length ≤ fuel' ∧
      getValueLoop buf type fuel buflen curlen val valSize found =
        if valSize < v.length then .ok none
        else if v ≠ [] ∧ v.length % 255 = 0 then
          getValueLoop buf type fuel' (buflen - (tlvText type v).length)
            (curlen + (tlvText type v).length) (val ++ v) (valSize - v.length) true
        else .ok (some (val ++ v)) := by
  induction v using tlvText.induct generalizing fuel buflen curlen val valSize found with
  | case1 v hv =>
    rw [tlvText_short hv] at h hlen ⊢
    simp only [List.length_cons] at hlen ⊢
    obtain ⟨fuel, rfl⟩ : ∃ n, fuel = n + 1 := ⟨fuel - 1, by omega⟩
    refine ⟨fuel, by omega, ?_⟩
    have hfull : v ≠ [] ∧ v.length % 255 = 0 ↔ ¬ v.length < 255 := by
      rw [← List.length_pos_iff_ne_nil]
      omega
    rw [getValueLoop_fragment type type v hv (by simpa using h) (by omega) val (fun _ => rfl),
      if_neg (not_not.2 rfl), Nat.add_comm 2]
    by_cases hshort : v.length < 255
    · rw [if_pos hshort, if_neg (fun hfull' => hfull.1 hfull' hshort)]
    · rw [if_neg hshort, if_pos (hfull.2 hshort)]
  | case2 v hv ih =>
    rw [tlvText_long hv] at h hlen ⊢
    have htake : (v.take 255).length = 255 := by rw [List.length_take]; omega
    simp only [List.length_cons, List.length_append, htake] at hlen ⊢
    obtain ⟨fuel, rfl⟩ : ∃ n, fuel = n + 1 := ⟨fuel - 1, by omega⟩
    have hrest : buf.drop (curlen + (2 + 255)) = tlvText type (v.drop 255) ++ rest := by
      rw [← List.drop_drop, h]
      simp [htake]
    obtain ⟨fuel', hfuel', heq⟩ := ih hrest (show _ ≤ buflen - (2 + 255) by omega)
      (show _ ≤ fuel by omega) (val ++ v.take 255) (valSize - 255) true
    refine ⟨fuel', by omega, ?_⟩
    rw [getValueLoop_fragment type type (v.take 255) (by omega)
      (by simpa [htake] using h) (by omega) val (fun _ => rfl), if_neg (not_not.2 rfl), htake,
      if_neg (Nat.lt_irrefl _), heq]
    have hfull : v.drop 255 ≠ [] ∧ (v.length - 255) % 255 = 0 ↔ v ≠ [] ∧ v.length % 255 = 0 := by
      rw [← List.length_pos_iff_ne_nil, ← List.length_pos_iff_ne_nil, List.length_drop]
      omega
    simp only [List.append_assoc, List.take_append_drop, List.length_drop, hfull, Nat.sub_sub,
      Nat.add_assoc curlen, show 255 + (v.length - 255) = v.length by omega,
      show 2 + 255 + (tlvText type (v.drop 255)).length =
        255 + (tlvText type (v.drop 255)).length + 1 + 1 by omega]
    by_cases hsize : valSize < 255
    · rw [if_pos hsize, if_pos (by omega)]
    · simp only [if_neg hsize, show valSize - 255 < v.length - 255 ↔ valSize < v.length by omega]

theorem tlvText_cons (t : UInt8) (v : List UInt8) : ∃ l, tlvText t v = t :: l := by
  by_cases h : v.length ≤ 255
  · exact ⟨_, tlvText_short h⟩
  · exact ⟨_, tlvText_long h⟩

theorem tlvMessage_cons (item : TlvItem) (items : List TlvItem) :
    tlvMessage (item :: items) = tlvText item.1 item.2 ++ tlvMessage items := by
  rw [tlvMessage, List.flatMap_cons, tlvMessage]

/-- What is found in a message, for an array of `valSize` bytes: the first value of the type, unless
it is too long, or its last fragment is full and ends the message. -/
def tlvFound (items : List TlvItem) (type : UInt8) (valSize : Nat) : Option (List UInt8) :=
  match items.dropWhile (·.1 ≠ type) with
  | [] => none
  | item :: rest =>
    if valSize < item.2.length ∨ rest = [] ∧ item.2 ≠ [] ∧ item.2.length % 255 = 0 then none
    else some item.2

/-- Behind a value whose last fragment is full. -/
theorem getValueLoop_found {items : List TlvItem} (hhead : ∀ item ∈ items.head?, item.1 ≠ type)
    (h : buf.drop curlen = tlvMessage items ++ rest) (hfuel : (tlvMessage items).length ≤ fuel)
    (val : List UInt8) :
    getValueLoop buf type fuel (tlvMessage items).length curlen val valSize true =
      .ok (if items = [] then none else some val) := by
  cases items with
  | nil => cases fuel <;> rfl
  | cons item items =>
    have hne := hhead item rfl
    obtain ⟨l, hl⟩ := tlvText_cons item.1 item.2
    have hbyte : buf.drop curlen = item.1 :: (l ++ tlvMessage items ++ rest) := by
      rw [h, tlvMessage_cons, hl]
      rfl
    have hpos : 0 < (tlvMessage (item :: items)).length := by
      rw [tlvMessage_cons, hl]
      exact Nat.succ_pos _
    obtain ⟨fuel, rfl⟩ : ∃ n, fuel = n + 1 := ⟨fuel - 1, by omega⟩
    simp only [getValueLoop, if_neg (show ¬ (tlvMessage (item :: items)).length = 0 by omega),
      readByte_drop hbyte, ok_bind, ne_eq, hne, not_false_eq_true, and_self, if_true, reduceCtorEq,
      if_false]
    rfl

/-- **What is read from a message** in which no two items of a type stand side by side.  Induction on
the items. -/
theorem getValueLoop_message {items : List TlvItem} (type : UInt8) (valSize : Nat)
    (hchain : items.IsChain fun i j => i.1 ≠ j.1)
    (curlen : Nat) (h : buf.drop curlen = tlvMessage items ++ rest)
    (hfuel : (tlvMessage items).length ≤ fuel) :
    getValueLoop buf type fuel (tlvMessage items).length curlen [] valSize false =
      .ok (tlvFound items type valSize) := by
  induction items generalizing fuel curlen with
  | nil => cases fuel <;> rfl
  | cons item items ih =>
    rw [tlvMessage_cons] at h
    have hrest : buf.drop (curlen + (tlvText item.1 item.2).length) = tlvMessage items ++ rest :=
      drop_step (by rw [h, List.append_assoc])
    have hsub : (tlvMessage (item :: items)).length - (tlvText item.1 item.2).length =
        (tlvMessage items).length := by
      rw [tlvMessage_cons, List.length_append, Nat.add_sub_cancel_left]
    have hlen : (tlvText item.1 item.2).length ≤ (tlvMessage (item :: items)).length := by
      rw [tlvMessage_cons, List.length_append]
      exact Nat.le_add_right _ _
    by_cases htype : item.1 = type
    · subst htype
      have hfound : tlvFound (item :: items) item.1 valSize =
          if valSize < item.2.length ∨ items = [] ∧ item.2 ≠ [] ∧ item.2.length % 255 = 0 then none
          else some item.2 := by
        simp [tlvFound]
      obtain ⟨fuel', hfuel', heq⟩ := getValueLoop_value item.2
        (by rw [h, List.append_assoc]) hlen hfuel [] valSize false
      have hhead : ∀ next ∈ items.head?, next.1 ≠ item.1 := by
        intro next hnext
        cases items with
        | nil => cases hnext
        | cons next' items =>
          obtain rfl := Option.some.inj hnext
          exact ((List.isChain_cons_cons.1 hchain).1).symm
      rw [heq, hsub, List.nil_append, hfound]
      rw [hsub] at hfuel'
      rw [getValueLoop_found hhead hrest hfuel']
      by_cases hsize : valSize < item.2.length
      · rw [if_pos hsize, if_pos (Or.inl hsize)]
      · by_cases hfull : item.2 ≠ [] ∧ item.2.length % 255 = 0
        · by_cases hnil : items = [] <;> simp [hsize, hfull, hnil]
        · rw [if_neg hsize, if_neg hfull, if_neg]
          exact fun hor => hor.elim hsize fun hand => hfull hand.2
    · obtain ⟨fuel', hfuel', heq⟩ := getValueLoop_skip htype item.2
        (by rw [h, List.append_assoc]) hlen hfuel [] valSize
      have hfound : tlvFound (item :: items) type valSize = tlvFound items type valSize := by
        simp [tlvFound, htype]
      rw [hsub] at heq hfuel'
      rw [heq, ih hchain.tail _ hrest hfuel', hfound]

/-! ## Any bytes -/

/-- The loop reads in the first `inlen` bytes, and the one behind them where a type ends them.
Induction on the fuel. -/
theorem getValueLoop_meets {inlen : Nat} (hle : inlen ≤ buf.length) (val : List UInt8)
    (hin : buflen = 0 ∨ curlen + buflen = inlen) :
    Meets (fun e => e = .outOfBounds buf.length ∧ inlen = buf.length)
      (getValueLoop buf type fuel buflen curlen val valSize found)
      fun r => ∀ v ∈ r, v.length ≤ val.length + valSize := by
  induction fuel generalizing buflen curlen val valSize found with
  | zero => exact fun v hv => by cases hv
  | succ fuel ih =>
    unfold getValueLoop
    by_cases hzero : buflen = 0
    · rw [if_pos hzero]
      exact fun v hv => by cases hv
    · have hin := hin.resolve_left hzero
      rw [if_neg hzero, readByte_lt (by omega), ok_bind]
      split
      · intro v hv
        obtain rfl := Option.some.inj hv
        exact Nat.le_add_right _ _
      · by_cases hlast : curlen + 1 = buf.length
        · rw [hlast, readByte_length]
          exact ⟨rfl, by omega⟩
        · rw [readByte_lt (show curlen + 1 < buf.length by omega), ok_bind]
          dsimp only
          generalize (buf[curlen + 1]).toNat = len
          have hnext : buflen - (2 + len) = 0 ∨
              curlen + (2 + len) + (buflen - (2 + len)) = inlen := by omega
          split
          · exact ih val hnext
          · split
            · exact fun v hv => by cases hv
            · rename_i hfit
              obtain ⟨hsize, hlen⟩ := not_or.1 hfit
              rw [readBytes, if_pos (by omega), ok_bind]
              have hfrag : ((buf.drop (curlen + 2)).take len).length = len := by
                rw [List.length_take, List.length_drop]
                omega
              split
              · intro v hv
                obtain rfl := Option.some.inj hv
                rw [List.length_append, hfrag]
                omega
              · refine (ih _ hnext).imp fun r hr v hv => ?_
                have := hr v hv
                rw [List.length_append, hfrag] at this
                omega

/-- `get_tlv_length` does the same passes.  Induction on the fuel. -/
theorem getLengthLoop_eq {inlen : Nat} (hle : inlen ≤ buf.length) (val : List UInt8)
    (hin : buflen = 0 ∨ curlen + buflen = inlen) (hsize : buflen ≤ valSize) :
    getLengthLoop buf type fuel buflen curlen val.length found =
      Option.map List.length <$> getValueLoop buf type fuel buflen curlen val valSize found := by
  induction fuel generalizing buflen curlen val valSize found with
  | zero => rfl
  | succ fuel ih =>
    unfold getLengthLoop getValueLoop
    by_cases hzero : buflen = 0
    · rw [if_pos hzero, if_pos hzero]
      rfl
    · have hin := hin.resolve_left hzero
      rw [if_neg hzero, if_neg hzero, readByte_lt (by omega), ok_bind, ok_bind]
      split
      · rfl
      · cases hread : readByte buf (curlen + 1) with
        | error e => rfl
        | ok c =>
          simp only [ok_bind]
          generalize c.toNat = len
          have hnext : buflen - (2 + len) = 0 ∨
              curlen + (2 + len) + (buflen - (2 + len)) = inlen := by omega
          split
          · exact ih val hnext (by omega)
          · have hiff : valSize < len ∨ buflen < len + 2 ↔ buflen < len + 2 := by omega
            simp only [hiff]
            split
            · rfl
            · rename_i hlen
              have hbytes : readBytes buf (curlen + 2) len =
                  .ok ((buf.drop (curlen + 2)).take len) := if_pos (by omega)
              rw [hbytes, ok_bind]
              have hfrag : (val ++ (buf.drop (curlen + 2)).take len).length = val.length + len := by
                rw [List.length_append, List.length_take, List.length_drop]
                omega
              split
              · simp only [← hfrag]
                rfl
              · rw [← hfrag]
                exact ih _ hnext (by omega)

/-- **Any bytes.**  Nothing behind the array is read unless the message fills it, and then the byte
behind it at most; what is found fits the array it is for, and `get_tlv_length` says how long it
is. -/
theorem getValueFromTlv_any (buf : List UInt8) {buflen : Nat} (hle : buflen ≤ buf.length)
    (type : UInt8) (valSize : Nat) :
    Meets (fun e => e = .outOfBounds buf.length ∧ buflen = buf.length)
      (getValueFromTlv buf buflen type valSize) (fun r => ∀ v ∈ r, v.length ≤ valSize) ∧
    (buflen ≤ valSize → getTlvLength buf buflen type =
      Option.map List.length <$> getValueFromTlv buf buflen type valSize) := by
  constructor
  · refine (getValueLoop_meets hle [] (Or.inr (Nat.zero_add _))).imp fun r hr v hv => ?_
    simpa using hr v hv
  · exact fun hsize => getLengthLoop_eq hle [] (Or.inr (Nat.zero_add _)) hsize

/-- A message of one byte, in an array of one. -/
theorem getValueFromTlv_any_one :
    getValueFromTlv [6] 1 6 1 = .error (.outOfBounds 1) ∧
      Meets (fun e => e = .outOfBounds 1 ∧ 1 = 1) (getValueFromTlv [6] 1 6 1)
        fun r => ∀ v ∈ r, v.length ≤ 1 :=
  ⟨rfl, (getValueFromTlv_any [6] le_rfl 6 1).1⟩

/-- **What `add_tlv` does**: it refuses a value for which one fragment has no room, writes past the
end where the other fragments have none, and otherwise overwrites as many bytes as the value has
and two more for each fragment. -/
theorem addTlv_any (d : TlvData) (type : UInt8) (val : List UInt8) :
    (addTlv d type val = .ok none ↔ d.buf.length < d.curlen + (val.length + 2)) ∧
    ((∃ e, addTlv d type val = .error e) ↔ d.curlen + (val.length + 2) ≤ d.buf.length ∧
      d.buf.length < d.curlen + (val.length + 2 * max 1 ((val.length + 254) / 255))) ∧
    ∀ d', addTlv d type val = .ok (some d') →
      d' = ⟨overwrite d.buf d.curlen (tlvText type val), d.curlen + (tlvText type val).length⟩ ∧
      d'.buf.length = d.buf.length ∧ d'.curlen ≤ d'.buf.length := by
  rw [← length_tlvText type val]
  by_cases hcheck : d.buf.length < d.curlen + (val.length + 2)
  · have hnone : addTlv d type val = .ok none := if_pos hcheck
    simp only [hnone, hcheck, reduceCtorEq, exists_false, Except.ok.injEq, false_iff]
    exact ⟨trivial, fun h => by omega, fun d' h => by cases h⟩
  · by_cases hroom : d.buf.length < d.curlen + (tlvText type val).length
    · have herror := addTlv_eq_error d type val (by omega) hroom
      simp only [herror, hcheck, reduceCtorEq, Except.error.injEq, exists_eq', true_iff]
      exact ⟨trivial, ⟨by omega, hroom⟩, fun d' h => by cases h⟩
    · have hok := addTlv_eq_ok d type val (by omega)
      simp only [hok, hcheck, reduceCtorEq, exists_false, Except.ok.injEq, Option.some.injEq,
        false_iff]
      refine ⟨trivial, fun h => hroom h.2, ?_⟩
      rintro d' rfl
      have hlen := length_overwrite d.buf (tlvText type val) d.curlen (by omega)
      exact ⟨rfl, hlen, by simp only [hlen]; omega⟩

/-- **Round trip.**  A message whose items fit is written, and each type is found in it; a value whose
last fragment is full is not found at the end. -/
theorem getValueFromTlv_addTlvs (items : List TlvItem)
    (hchain : items.IsChain fun i j => i.1 ≠ j.1) (buf : List UInt8)
    (hroom : (tlvMessage items).length ≤ buf.length) :
    ∃ d, addTlvs ⟨buf, 0⟩ items = .ok (some d) ∧ d.buf.length = buf.length ∧
      d.curlen = (tlvMessage items).length ∧ ∀ type valSize,
        getValueFromTlv d.buf d.curlen type valSize = .ok (tlvFound items type valSize) := by
  have hroom' : 0 + (tlvMessage items).length ≤ buf.length := by omega
  refine ⟨_, addTlvs_eq ⟨buf, 0⟩ items hroom', length_overwrite _ _ _ hroom', Nat.zero_add _,
    fun type valSize => ?_⟩
  simp only [Nat.zero_add, getValueFromTlv]
  exact getValueLoop_message type valSize hchain 0 rfl le_rfl

/-- A key of 300 bytes and a state are found; a key of 255 at the end is not. -/
theorem getValueFromTlv_addTlvs_keys :
    (∃ d, addTlvs ⟨List.replicate 400 0, 0⟩ [(3, List.replicate 300 7), (6, [2])] = .ok (some d) ∧
      getValueFromTlv d.buf d.curlen 3 384 = .ok (some (List.replicate 300 7)) ∧
      getValueFromTlv d.buf d.curlen 6 1 = .ok (some [2])) ∧
    ∃ d, addTlvs ⟨List.replicate 400 0, 0⟩ [(6, [2]), (3, List.replicate 255 7)] = .ok (some d) ∧
      getValueFromTlv d.buf d.curlen 3 384 = .ok none := by
  have hbuf : (List.replicate 400 (0 : UInt8)).length = 400 := List.length_replicate
  have hlong : (List.replicate 300 (7 : UInt8)).length = 300 := List.length_replicate
  have hfull : (List.replicate 255 (7 : UInt8)).length = 255 := List.length_replicate
  generalize List.replicate 400 (0 : UInt8) = buf at *
  generalize List.replicate 300 (7 : UInt8) = long at *
  generalize List.replicate 255 (7 : UInt8) = full at *
  have hlen : ∀ items : List TlvItem, (tlvMessage items).length =
      (items.map fun i => i.2.length + 2 * max 1 ((i.2.length + 254) / 255)).sum := by
    intro items
    simp only [tlvMessage, List.length_flatMap, length_tlvText]
  constructor
  · obtain ⟨d, hd, -, -, hget⟩ := getValueFromTlv_addTlvs [(3, long), (6, [2])]
      (by simp) buf (by rw [hlen, hbuf]; simp [hlong])
    refine ⟨d, hd, (hget 3 384).trans (congrArg Except.ok ?_),
      (hget 6 1).trans (congrArg Except.ok ?_)⟩
    · simp [tlvFound, hlong]
    · simp [tlvFound]
  · obtain ⟨d, hd, -, -, hget⟩ := getValueFromTlv_addTlvs [(6, [2]), (3, full)]
      (by simp) buf (by rw [hlen, hbuf]; simp [hfull])
    refine ⟨d, hd, (hget 3 384).trans (congrArg Except.ok ?_)⟩
    have hne : full ≠ [] := List.ne_nil_of_length_pos (by omega)
    simp [tlvFound, hfull, hne]

end NinaHomekit
