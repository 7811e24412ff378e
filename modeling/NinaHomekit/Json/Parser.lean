import NinaHomekit.Hap.Json
import NinaHomekit.Json.Accepted

/-!
# Reading the tokens

The functions of `json_parser.c` that the firmware calls, on the tokens of a text: `ctx->cur` is an
index, and a token behind the array is a fault.

* `jsonSkipElem`, `jsonObjSearch`, `jsonArrSearch` — the walks over the tokens.
* `jsonObjGetBool`, `jsonObjGetArray`, … — the values of an object, and the moves of the cursor.
* `jsonObjSearch_spec`, `jsonArrSearch_spec` — **in any text, they find the first child that is the
  key, and the child with the index.**
* `jsonObjGetValTok_spec` — **and nothing but the value of the last token is read outside the array.**
-/

namespace NinaHomekit

open PreorderForest Outcome Trace

namespace JparseCtx

/-! ## The walks -/

/-- `tokens[i]`. -/
def readTok (ctx : JparseCtx) (i : Nat) : Except Fault JsmnTok :=
  match ctx.tokens[i]? with
  | some t => .ok t
  | none => .error (.outOfBounds i)

/-- `token_matches_str` in the text `js`: `strncmp` over the length of `str`, and the length of the
token. -/
def tokenMatchesStr (js : List UInt8) (tok : JsmnTok) (str : CStr) : Bool :=
  (js.drop tok.start).take str.length = str ∧ str.length = tok.stop.getD 0 - tok.start

/-- `json_skip_elem`; the fuel is for its recursion. -/
def jsonSkipElem (ctx : JparseCtx) : Nat → Nat → Except Fault Nat
  | 0, token => .error (.outOfBounds token)
  | fuel + 1, token => do
    let t ← ctx.readTok token
    -- `while (cnt--) { cur++; cur = json_skip_elem(cur); }`
    walk (ctx.jsonSkipElem fuel) t.size token

/-- `json_skip_elem`, with fuel for every token. -/
def skipElem (ctx : JparseCtx) (token : Nat) : Except Fault Nat :=
  ctx.jsonSkipElem ctx.tokens.length token

/-- The loop of `json_obj_search`. -/
def objSearchLoop (ctx : JparseCtx) (key : CStr) : Nat → Nat → Except Fault (Option Nat)
  | 0, _ => .ok none
  | size + 1, tok => do
    let t ← ctx.readTok (tok + 1)
    if tokenMatchesStr ctx.js t key then return some (tok + 1)
    else do
      let tok ← ctx.skipElem (tok + 1)
      ctx.objSearchLoop key size tok

/-- `json_obj_search`. -/
def jsonObjSearch (ctx : JparseCtx) (key : CStr) : Except Fault (Option Nat) := do
  let t ← ctx.readTok ctx.cur
  if t.size = 0 then return none
  else if t.type ≠ .object then return none
  else ctx.objSearchLoop key t.size ctx.cur

/-- `json_obj_get_val_tok`. -/
def jsonObjGetValTok (ctx : JparseCtx) (name : CStr) (type : JsmnType) :
    Except Fault (Option JsmnTok) := do
  match ← ctx.jsonObjSearch name with
  | none => return none
  | some tok =>
    let t ← ctx.readTok (tok + 1)
    return if t.type = type then some t else none

/-- The loop of `json_arr_search`. -/
def arrSearchLoop (ctx : JparseCtx) : Nat → Nat → Except Fault Nat
  | 0, tok => .ok tok
  | index + 1, tok => do
    let tok ← ctx.skipElem tok
    ctx.arrSearchLoop index (tok + 1)

/-- `json_arr_search`. -/
def jsonArrSearch (ctx : JparseCtx) (index : Nat) : Except Fault (Option Nat) := do
  let t ← ctx.readTok ctx.cur
  if t.type ≠ .array ∨ t.size = 0 then return none
  else if t.size - 1 < index then return none
  else some <$> ctx.arrSearchLoop index (ctx.cur + 1)

/-! ## Values -/

/-- `json_tok_to_bool`. -/
def jsonTokToBool (ctx : JparseCtx) (tok : JsmnTok) : Option Bool :=
  if tokenMatchesStr ctx.js tok [0x74, 0x72, 0x75, 0x65] ∨
      tokenMatchesStr ctx.js tok [0x31] then some true
  else if tokenMatchesStr ctx.js tok [0x66, 0x61, 0x6C, 0x73, 0x65] ∨
      tokenMatchesStr ctx.js tok [0x30] then some false
  else none

/-- `json_obj_get_bool`. -/
def jsonObjGetBool (ctx : JparseCtx) (name : CStr) : Except Fault (Option Bool) := do
  let t ← ctx.jsonObjGetValTok name .primitive
  return t >>= ctx.jsonTokToBool

/-- `json_obj_get_int`; no digit follows a primitive, so `strtoul` stops at its end. -/
def jsonObjGetInt (ctx : JparseCtx) (name : CStr) : Except Fault (Option Int) := do
  let t ← ctx.jsonObjGetValTok name .primitive
  return t >>= fun t => tokToInt (tokText ctx.js t)

/-- `json_obj_get_int64`, read as unsigned. -/
def jsonObjGetUInt64 (ctx : JparseCtx) (name : CStr) : Except Fault (Option UInt64) := do
  let t ← ctx.jsonObjGetValTok name .primitive
  return t >>= fun t => tokToUInt64 (tokText ctx.js t)

/-- `json_obj_get_strlen`. -/
def jsonObjGetStrlen (ctx : JparseCtx) (name : CStr) : Except Fault (Option Nat) := do
  let t ← ctx.jsonObjGetValTok name .string
  return t.map fun t => t.stop.getD 0 - t.start

/-- `json_obj_get_string` into an array of `size` elements, which has to hold a NUL too. -/
def jsonObjGetString (ctx : JparseCtx) (name : CStr) (size : Nat) :
    Except Fault (Option CStr) := do
  let t ← ctx.jsonObjGetValTok name .string
  return t >>= fun t =>
    if t.stop.getD 0 - t.start + 1 > size then none else some (tokText ctx.js t)

/-! ## The cursor -/

/-- `json_obj_get_array`: the cursor, and the number of elements that is written, if any. -/
def jsonObjGetArray (ctx : JparseCtx) (name : CStr) : Except Fault (JparseCtx × Option Nat) := do
  match ← ctx.jsonObjSearch name with
  | none => return (ctx, none)
  | some tok =>
    let t ← ctx.readTok (tok + 1)
    return if t.type = .array then ({ ctx with cur := tok + 1 }, some t.size) else (ctx, none)

/-- `json_arr_get_object`. -/
def jsonArrGetObject (ctx : JparseCtx) (index : Nat) : Except Fault JparseCtx := do
  match ← ctx.jsonArrSearch index with
  | none => return ctx
  | some tok =>
    let t ← ctx.readTok tok
    return if t.type = .object then { ctx with cur := tok } else ctx

/-- `json_arr_leave_object`. -/
def jsonArrLeaveObject (ctx : JparseCtx) : Except Fault JparseCtx := do
  let t ← ctx.readTok ctx.cur
  match t.parent with
  | some parent => return { ctx with cur := parent }
  | none => return ctx

/-! ## Any text -/

section AnyText

variable {js : List UInt8} {toks : List JsmnTok} {cur i j k n : Nat} {key : CStr} {t : JsmnTok}

/-- The children of a token. -/
def children (toks : List JsmnTok) (i : Nat) : List Nat :=
  behind (parentOf toks) toks.length i i

theorem readTok_eq (h : toks[i]? = some t) : readTok ⟨js, toks, cur⟩ i = .ok t := by
  simp only [readTok, h]

/-- `json_skip_elem` ends at the last token below. -/
theorem skipElem_spec (cur : Nat) (h : TokenForest js toks) (hi : i < toks.length) :
    ∃ l, skipElem ⟨js, toks, cur⟩ i = .ok l ∧ IsLast (parentOf toks) toks.length i l := by
  refine skip_spec h.order (fun fuel i hi => ?_) hi (Nat.sub_le ..)
  have ht := List.getElem?_eq_getElem hi
  rw [← h.size i _ ht]
  simp only [jsonSkipElem, readTok_eq ht, ok_bind]

/-- What `json_obj_search` compares with the key. -/
def isKey (js : List UInt8) (toks : List JsmnTok) (key : CStr) (i : Nat) : Bool :=
  toks[i]?.any fun t => tokenMatchesStr js t key

/-- The loop over the children that are left. -/
theorem objSearchLoop_spec (h : TokenForest js toks)
    (hwhole : Whole (parentOf toks) toks.length i j) :
    objSearchLoop ⟨js, toks, cur⟩ key (behind (parentOf toks) toks.length i j).length j =
      .ok ((behind (parentOf toks) toks.length i j).find? (isKey js toks key)) := by
  obtain ⟨cs, hcs⟩ : ∃ cs, behind (parentOf toks) toks.length i j = cs := ⟨_, rfl⟩
  rw [hcs]
  induction cs generalizing j with
  | nil => rfl
  | cons c cs ih =>
    obtain ⟨hj, hp⟩ := hwhole.parent_of_ne_nil h.order (by simp [hcs])
    obtain ⟨l, hl, hlast⟩ := skipElem_spec cur h hj
    have hstep := behind_step h.order hp hlast
    rw [hcs, List.cons.injEq] at hstep
    obtain ⟨rfl, hrest⟩ := hstep
    have ht := List.getElem?_eq_getElem hj
    simp only [List.length_cons, objSearchLoop, readTok_eq ht, ok_bind, List.find?_cons, isKey, ht,
      Option.any_some]
    by_cases hkey : tokenMatchesStr js toks[j + 1] key
    · rw [if_pos hkey, hkey]
      rfl
    · rw [Bool.not_eq_true] at hkey
      rw [if_neg (fun hm => absurd (hkey.symm.trans hm) Bool.false_ne_true), hkey, hl, ok_bind]
      exact ih (hwhole.step h.order hp hlast) hrest.symm

/-- **`json_obj_search`: the first child of an object that is the key.** -/
theorem jsonObjSearch_spec (h : TokenForest js toks) (ht : toks[i]? = some t) :
    jsonObjSearch ⟨js, toks, i⟩ key =
      .ok (if t.type = .object then (children toks i).find? (isKey js toks key) else none) := by
  have hi := (List.getElem?_eq_some_iff.1 ht).1
  have hsize := h.size i t ht
  simp only [jsonObjSearch, readTok_eq ht, ok_bind]
  by_cases hzero : t.size = 0
  · rw [if_pos hzero]
    rw [hzero] at hsize
    simp only [children, List.length_eq_zero_iff.1 hsize.symm, List.find?_nil, ite_self]
    rfl
  · rw [if_neg hzero]
    by_cases htype : t.type = .object
    · rw [if_neg (not_not.2 htype), if_pos htype, hsize]
      exact objSearchLoop_spec h (whole_self hi)
    · rw [if_pos htype, if_neg htype]
      rfl

/-- The loop to an index, from the first child that is left. -/
theorem arrSearchLoop_spec (h : TokenForest js toks) {index : Nat}
    (hwhole : Whole (parentOf toks) toks.length i j)
    (hindex : index < (behind (parentOf toks) toks.length i j).length) :
    arrSearchLoop ⟨js, toks, cur⟩ index (j + 1) =
      .ok (behind (parentOf toks) toks.length i j)[index] := by
  induction index generalizing j with
  | zero =>
    obtain ⟨hj, hp⟩ := hwhole.parent_of_ne_nil h.order (List.ne_nil_of_length_pos hindex)
    obtain ⟨l, -, hlast⟩ := skipElem_spec cur h hj
    simp only [arrSearchLoop, behind_step h.order hp hlast, List.getElem_cons_zero]
  | succ index ih =>
    obtain ⟨hj, hp⟩ := hwhole.parent_of_ne_nil h.order (List.ne_nil_of_length_pos (by omega))
    obtain ⟨l, hl, hlast⟩ := skipElem_spec cur h hj
    have hstep := behind_step h.order hp hlast
    have hlt : index < (behind (parentOf toks) toks.length i l).length := by
      rw [hstep, List.length_cons] at hindex
      omega
    simp only [arrSearchLoop, hl, ok_bind, hstep, List.getElem_cons_succ]
    exact ih (hwhole.step h.order hp hlast) hlt

/-- **`json_arr_search`: the child of an array with the index.** -/
theorem jsonArrSearch_spec (h : TokenForest js toks) (ht : toks[i]? = some t) (index : Nat) :
    jsonArrSearch ⟨js, toks, i⟩ index =
      .ok (if t.type = .array then (children toks i)[index]? else none) := by
  have hi := (List.getElem?_eq_some_iff.1 ht).1
  have hsize : t.size = (children toks i).length := h.size i t ht
  simp only [jsonArrSearch, readTok_eq ht, ok_bind]
  by_cases htype : t.type = .array
  · by_cases hindex : index < (children toks i).length
    · rw [if_neg (by rw [not_or, not_not]; exact ⟨htype, by omega⟩), if_neg (by omega), if_pos htype,
        List.getElem?_eq_getElem hindex, arrSearchLoop_spec h (whole_self hi) hindex]
      rfl
    · rw [if_pos htype, List.getElem?_eq_none (by omega)]
      by_cases hzero : t.size = 0
      · rw [if_pos (Or.inr hzero)]
        rfl
      · rw [if_neg (by rw [not_or, not_not]; exact ⟨htype, hzero⟩), if_pos (by omega)]
        rfl
  · rw [if_pos (Or.inl htype), if_neg htype]
    rfl

/-- **`json_obj_get_val_tok` takes the token behind the key for its value**: if the key is the last
token, that is read behind the array. -/
theorem jsonObjGetValTok_spec (h : TokenForest js toks) (ht : toks[i]? = some t)
    (type : JsmnType) :
    jsonObjGetValTok ⟨js, toks, i⟩ key type =
      match if t.type = .object then (children toks i).find? (isKey js toks key) else none with
      | none => .ok none
      | some k =>
        match toks[k + 1]? with
        | none => .error (.outOfBounds toks.length)
        | some v => .ok (if v.type = type then some v else none) := by
  simp only [jsonObjGetValTok, jsonObjSearch_spec h ht, ok_bind]
  cases hfind : (if t.type = .object then (children toks i).find? (isKey js toks key) else none) with
  | none => rfl
  | some k =>
    have hk : k < toks.length := by
      split_ifs at hfind
      exact (mem_behind.1 (List.mem_of_find?_eq_some hfind)).1
    cases hv : toks[k + 1]? with
    | none =>
      have := List.getElem?_eq_none_iff.1 hv
      obtain hlen : k + 1 = toks.length := by omega
      rw [hlen] at hv
      simp only [readTok, hv, hlen, error_bind]
    | some v =>
      simp only [readTok_eq hv, ok_bind, hv]
      rfl

theorem accepted_of_parseStart {ctx : JparseCtx} (h : jsonParseStart js = some ctx) :
    ctx.js = js ∧ Jsmn.Accepted js ctx.tokens := by
  unfold jsonParseStart at h
  split at h
  · cases h
  · next n hcount =>
    split_ifs at h
    split at h
    · cases h
    · next tokens m hparse =>
      cases h
      exact ⟨rfl, (((Jsmn.jsmnParse_spec js).of_eq_ok hcount).of_eq_ok hparse).2.2⟩

/-- **Any bytes.**  Neither pass reads a token that is not there or runs out of tokens, and what is
accepted is a forest in which `json_skip_elem` ends at the last token below the one it starts at. -/
theorem jsonParseStart_any (js : List UInt8) :
    (∀ e, jsmnParse none js = .error e → e.Refusal) ∧
    (∀ toks n, jsmnParse none js = .ok (toks, n) → ∀ e, jsmnParse (some n) js = .error e →
      e.Refusal) ∧
    ∀ ctx, jsonParseStart js = some ctx → Jsmn.Accepted js ctx.tokens ∧
      ∀ i < ctx.tokens.length, ∃ l, ctx.skipElem i = .ok l ∧
        IsLast (parentOf ctx.tokens) ctx.tokens.length i l := by
  refine ⟨fun e he => (Jsmn.jsmnParse_spec js).of_eq_error he, fun toks n hn e he =>
    ((Jsmn.jsmnParse_spec js).of_eq_ok hn).of_eq_error he, fun ctx h => ?_⟩
  obtain ⟨rfl, hacc⟩ := accepted_of_parseStart h
  exact ⟨hacc, fun i hi => skipElem_spec _ hacc.forest hi⟩

/-- **Any text that is accepted.**  The searches return the first child of an object that is the
key, and the child of an array with the index.  The value of a key is read outside the array
exactly if the key that is found is the last token of the text. -/
theorem jsonObjGetValTok_any {ctx : JparseCtx} (h : jsonParseStart js = some ctx)
    (ht : ctx.tokens[i]? = some t) (type : JsmnType) (index : Nat) :
    let found := if t.type = .object then (children ctx.tokens i).find? (isKey js ctx.tokens key)
      else none
    jsonObjSearch { ctx with cur := i } key = .ok found ∧
    jsonArrSearch { ctx with cur := i } index =
      .ok (if t.type = .array then (children ctx.tokens i)[index]? else none) ∧
    ((∃ f, jsonObjGetValTok { ctx with cur := i } key type = .error f) ↔
      found = some (ctx.tokens.length - 1)) := by
  obtain ⟨rfl, hacc⟩ := accepted_of_parseStart h
  refine ⟨jsonObjSearch_spec hacc.forest ht, jsonArrSearch_spec hacc.forest ht index, ?_⟩
  rw [show ({ ctx with cur := i } : JparseCtx) = ⟨ctx.js, ctx.tokens, i⟩ from rfl,
    jsonObjGetValTok_spec hacc.forest ht]
  have hlen := (List.getElem?_eq_some_iff.1 ht).1
  generalize hfound : (if t.type = .object then
    (children ctx.tokens i).find? (isKey ctx.js ctx.tokens key) else none) = found
  cases found with
  | none => simp
  | some k =>
    have hk : k < ctx.tokens.length := by
      split_ifs at hfound
      exact (mem_behind.1 (List.mem_of_find?_eq_some hfound)).1
    cases hv : ctx.tokens[k + 1]? with
    | none =>
      have := List.getElem?_eq_none_iff.1 hv
      simp only [hv, Except.error.injEq, exists_eq', Option.some.injEq, true_iff]
      omega
    | some v =>
      have := (List.getElem?_eq_some_iff.1 hv).1
      simp only [hv, reduceCtorEq, exists_false, Option.some.injEq, false_iff]
      omega

/-- A key without a value. -/
theorem jsonObjGetValTok_any_key :
    ∃ f, jsonObjGetValTok ⟨[0x7B, 0x22, 0x61, 0x22, 0x7D], [⟨.object, 0, some 5, 1, none⟩,
      ⟨.string, 2, some 3, 0, some 0⟩], 0⟩ [0x61] .primitive = .error f := by
  have hparse : jsonParseStart [0x7B, 0x22, 0x61, 0x22, 0x7D] =
      some ⟨[0x7B, 0x22, 0x61, 0x22, 0x7D], [⟨.object, 0, some 5, 1, none⟩,
        ⟨.string, 2, some 3, 0, some 0⟩], 0⟩ := by decide
  exact (jsonObjGetValTok_any hparse (i := 0) rfl .primitive 0).2.2.2 (by decide)

end AnyText

end JparseCtx

end NinaHomekit
