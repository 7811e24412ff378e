import NinaHomekit.Json.Parser
import NinaHomekit.Json.Text

/-!
# Reading a text of a value

What the functions of `json_parser.c` return at the tokens of a value.

* `At` — the tokens from an index on represent a value, and no other token is below them.
* `At.members`, `At.elems` — the children of an object are its keys, and those of an array its
  elements.
* `jsonObjGetBool_at`, `jsonObjGetInt_at`, … — **what is read from an object is what it holds.**
* `Items.getObject`, `Items.leaveObject` — **the cursor of the loop over the items of a request is
  where it should be.**
-/

namespace NinaHomekit

open PreorderForest Outcome Trace JparseCtx

variable {js : List UInt8} {toks : List JsmnTok} {d : Doc} {parent : Option Nat}
  {c i j k m n : Nat} {v : JsonVal} {vs : List JsonVal} {ms : Members} {key name text : CStr}
  {t : JsmnTok} {type : JsmnType}

/-! ## What is below a value -/

theorem Reps.le (h : Reps js toks d parent k n) : k ≤ n := by
  induction h with
  | prim => exact Nat.le_succ _
  | str => exact Nat.le_succ _
  | arr _ _ ih => omega
  | obj _ _ ih => omega
  | elemsNil => exact le_rfl
  | elemsCons _ _ ih ihs => omega
  | membersNil => exact le_rfl
  | membersCons _ _ _ ih ihs => omega

theorem IsTok.parentOf_eq (h : IsTok toks k type parent) : parentOf toks k = parent := by
  obtain ⟨t, ht, -, rfl⟩ := h
  simp only [parentOf, ht, Option.bind_some]

theorem IsLeaf.isTok (h : IsLeaf js toks k type parent text) : IsTok toks k type parent := by
  obtain ⟨t, ht, htype, hparent, -⟩ := h
  exact ⟨t, ht, htype, hparent⟩

/-- A token of a value is below its parent, or below another token of it. -/
theorem Reps.parent_eq_or (h : Reps js toks d parent k n) (hkj : k ≤ j) (hjn : j < n) :
    parentOf toks j = parent ∨ ∃ p, parentOf toks j = some p ∧ k ≤ p ∧ p < j := by
  induction h with
  | @prim _ _ k h | @str _ _ k h =>
    obtain rfl : j = k := by omega
    exact Or.inl h.isTok.parentOf_eq
  | arr h _ ih | obj h _ ih =>
    rcases Nat.lt_or_eq_of_le hkj with hlt | rfl
    · rcases ih hlt hjn with hp | ⟨p, hp, hle, hpj⟩
      · exact Or.inr ⟨_, hp, le_rfl, hlt⟩
      · exact Or.inr ⟨p, hp, by omega, hpj⟩
    · exact Or.inl h.parentOf_eq
  | elemsNil => omega
  | @elemsCons v vs parent k m n h hs ih ihs =>
    by_cases hjm : j < m
    · exact ih hkj hjm
    · have hle := h.le
      rcases ihs (by omega) hjn with hp | ⟨p, hp, hmp, hpj⟩
      · exact Or.inl hp
      · exact Or.inr ⟨p, hp, by omega, hpj⟩
  | membersNil => omega
  | @membersCons key v ms parent k m n hkey h hs ih ihs =>
    have hle := h.le
    by_cases hjm : j < m
    · rcases Nat.lt_or_eq_of_le hkj with hlt | rfl
      · rcases ih hlt hjm with hp | ⟨p, hp, hkp, hpj⟩
        · exact Or.inr ⟨_, hp, le_rfl, hlt⟩
        · exact Or.inr ⟨p, hp, by omega, hpj⟩
      · exact Or.inl hkey.isTok.parentOf_eq
    · rcases ihs (by omega) hjn with hp | ⟨p, hp, hmp, hpj⟩
      · exact Or.inl hp
      · exact Or.inr ⟨p, hp, by omega, hpj⟩

/-- The other tokens of a value are below its first one. -/
theorem Reps.parent_within (h : Reps js toks (.val v) parent k n) (hkj : k < j) (hjn : j < n) :
    ∃ p, parentOf toks j = some p ∧ k ≤ p ∧ p < j := by
  cases h with
  | prim | str => omega
  | arr _ h | obj _ h =>
    rcases h.parent_eq_or hkj hjn with hp | ⟨p, hp, hle, hlt⟩
    · exact ⟨k, hp, le_rfl, hkj⟩
    · exact ⟨p, hp, by omega, hlt⟩

/-- No token behind is below one of these. -/
def Apart (toks : List JsmnTok) (k n : Nat) : Prop :=
  n ≤ toks.length ∧ ∀ j p, n ≤ j → parentOf toks j = some p → p < k ∨ n ≤ p

/-- Tokens that are all below the first one. -/
theorem isLast_of_apart (hforest : TokenForest js toks) (hkm : k < m) (hapart : Apart toks k m)
    (hbelow : ∀ j, k < j → j < m → ∃ p, parentOf toks j = some p ∧ k ≤ p ∧ p < j) :
    IsLast (parentOf toks) toks.length k (m - 1) := by
  have hanc : ∀ j, k ≤ j → j < m → Anc (parentOf toks) k j := by
    intro j
    induction j using Nat.strong_induction_on with
    | _ j ih =>
      intro hkj hjm
      rcases Nat.lt_or_eq_of_le hkj with hlt | rfl
      · obtain ⟨p, hp, hkp, hpj⟩ := hbelow j hlt hjm
        exact .up hp (ih p hpj hkp (by omega))
      · exact .refl
  have hlen := hapart.1
  refine ⟨by omega, hanc _ (by omega) (by omega), fun j hmj hj hkj => ?_⟩
  induction j using Nat.strong_induction_on with
  | _ j ih =>
    obtain ⟨p, hp, hkp⟩ := hkj.parent (by omega)
    have hpj := hforest.order.parent_lt hj hp
    have hle := hkp.le hforest.order (by omega)
    rcases hapart.2 j p (by omega) hp with hlt | hmp
    · omega
    · exact ih p hpj (by omega) (by omega) hkp

/-- The tokens from `k` on represent the value `v`. -/
def At (js : List UInt8) (toks : List JsmnTok) (k : Nat) (v : JsonVal) : Prop :=
  ∃ parent n, Reps js toks (.val v) parent k n ∧ Apart toks k n

theorem at_root (h : Reps js toks (.val v) none 0 toks.length) : At js toks 0 v := by
  refine ⟨none, toks.length, h, le_rfl, fun j p hj hp => ?_⟩
  rw [parentOf, List.getElem?_eq_none hj] at hp
  cases hp

/-- What comes first is apart from what comes behind it. -/
theorem Reps.apart (hs : Reps js toks d (some c) m n) (hck : c < k)
    (hapart : Apart toks c n) : Apart toks k m := by
  have hle := hs.le
  have hlen := hapart.1
  refine ⟨by omega, fun l p hl hp => ?_⟩
  by_cases hln : l < n
  · rcases hs.parent_eq_or hl hln with hp' | ⟨q, hq, hmq, -⟩
    · obtain rfl := Option.some.inj (hp.symm.trans hp')
      exact Or.inl hck
    · obtain rfl := Option.some.inj (hp.symm.trans hq)
      exact Or.inr hmq
  · rcases hapart.2 l p (by omega) hp with hlt | hle
    · exact Or.inl (by omega)
    · exact Or.inr (by omega)

/-- Behind the last child there is none. -/
theorem behind_eq_nil (hcj : c ≤ j) (hapart : Apart toks c (j + 1)) :
    behind (parentOf toks) toks.length c j = [] := by
  refine List.eq_nil_iff_forall_not_mem.2 fun l hl => ?_
  obtain ⟨-, hjl, hp⟩ := mem_behind.1 hl
  have := hapart.2 l c hjl hp
  omega

/-- The elements of an array, from one on.  Induction on them. -/
theorem elems_behind (hforest : TokenForest js toks) (h : Reps js toks (.elems vs) (some c) (j + 1) n)
    (hcj : c ≤ j) (hapart : Apart toks c n) :
    List.Forall₂ (fun i v => At js toks i v ∧ parentOf toks i = some c)
      (behind (parentOf toks) toks.length c j) vs := by
  induction vs generalizing j with
  | nil =>
    cases h
    rw [behind_eq_nil hcj hapart]
    exact .nil
  | cons v vs ih =>
    cases h with
    | @elemsCons _ _ _ _ m _ h hs =>
      have hlt := h.lt
      have hval := hs.apart (k := j + 1) (by omega) hapart
      have hparent : parentOf toks (j + 1) = some c := by
        rcases h.parent_eq_or le_rfl hlt with hp | ⟨p, -, hle, hlt⟩
        · exact hp
        · omega
      rw [behind_step hforest.order hparent
        (isLast_of_apart hforest hlt hval fun l hkl hlm => h.parent_within hkl hlm)]
      refine .cons ⟨⟨_, _, h, hval⟩, hparent⟩ (ih ?_ (by omega))
      rwa [show m - 1 + 1 = m by omega]

/-- The members of an object, from one on.  Induction on them. -/
theorem members_behind (hforest : TokenForest js toks)
    (h : Reps js toks (.members ms) (some c) (j + 1) n) (hcj : c ≤ j) (hapart : Apart toks c n) :
    List.Forall₂ (fun i m => IsLeaf js toks i .string (some c) m.1 ∧ At js toks (i + 1) m.2 ∧
        parentOf toks (i + 1) = some i)
      (behind (parentOf toks) toks.length c j) ms := by
  induction ms generalizing j with
  | nil =>
    cases h
    rw [behind_eq_nil hcj hapart]
    exact .nil
  | cons member ms ih =>
    cases h with
    | @membersCons key v _ _ _ m _ hkey h hs =>
      have hlt := h.lt
      have hval := hs.apart (k := j + 1 + 1) (by omega) hapart
      have hparent : parentOf toks (j + 1 + 1) = some (j + 1) := by
        rcases h.parent_eq_or le_rfl hlt with hp | ⟨p, -, hle, hlt⟩
        · exact hp
        · omega
      have hall := hs.apart (k := j + 1) (by omega) hapart
      rw [behind_step hforest.order hkey.isTok.parentOf_eq
        (isLast_of_apart hforest (by omega) hall fun l hkl hlm => ?_)]
      · refine .cons ⟨hkey, ⟨_, _, h, hval⟩, hparent⟩ (ih ?_ (by omega))
        rwa [show m - 1 + 1 = m by omega]
      · rcases h.parent_eq_or hkl hlm with hp | ⟨p, hp, hkp, hpl⟩
        · exact ⟨_, hp, le_rfl, hkl⟩
        · exact ⟨p, hp, by omega, hpl⟩

/-- **The children of an object are its keys**, each with its value below it. -/
theorem At.members (h : At js toks k (.obj ms)) (hforest : TokenForest js toks) :
    (∃ t, toks[k]? = some t ∧ t.type = .object) ∧
      List.Forall₂ (fun i m => IsLeaf js toks i .string (some k) m.1 ∧ At js toks (i + 1) m.2 ∧
        parentOf toks (i + 1) = some i) (children toks k) ms := by
  obtain ⟨parent, n, hreps, hapart⟩ := h
  cases hreps with
  | obj htok hs =>
    obtain ⟨t, ht, htype, -⟩ := htok
    exact ⟨⟨t, ht, htype⟩, members_behind hforest hs le_rfl hapart⟩

/-- **The children of an array are its elements.** -/
theorem At.elems (h : At js toks k (.arr vs)) (hforest : TokenForest js toks) :
    (∃ t, toks[k]? = some t ∧ t.type = .array) ∧
      List.Forall₂ (fun i v => At js toks i v ∧ parentOf toks i = some k) (children toks k) vs := by
  obtain ⟨parent, n, hreps, hapart⟩ := h
  cases hreps with
  | arr htok hs =>
    obtain ⟨t, ht, htype, -⟩ := htok
    exact ⟨⟨t, ht, htype⟩, elems_behind hforest hs le_rfl hapart⟩

/-! ## The members of an object -/

/-- A key is found by its characters. -/
theorem tokenMatchesStr_iff (hspan : ∀ b, t.stop = some b → t.start ≤ b ∧ b ≤ js.length)
    (hclosed : t.isOpen = false) : tokenMatchesStr js t key = true ↔ tokText js t = key := by
  obtain ⟨b, hb⟩ : ∃ b, t.stop = some b := by
    cases hstop : t.stop with
    | none => rw [JsmnTok.isOpen, hstop] at hclosed; cases hclosed
    | some b => exact ⟨b, rfl⟩
  obtain ⟨hle, hlen⟩ := hspan b hb
  simp only [tokenMatchesStr, tokText, hb, Option.getD_some, decide_eq_true_eq]
  constructor
  · rintro ⟨htake, hlen⟩
    rwa [← hlen]
  · rintro rfl
    simp only [List.length_take, List.length_drop]
    rw [show min (b - t.start) (js.length - t.start) = b - t.start by omega]
    exact ⟨rfl, rfl⟩

theorem isKey_iff (hforest : TokenForest js toks)
    (h : IsLeaf js toks i type parent text) : isKey js toks key i = true ↔ text = key := by
  obtain ⟨t, ht, -, -, hclosed, rfl⟩ := h
  simp only [isKey, ht, Option.any_some]
  exact tokenMatchesStr_iff (hforest.span t (List.mem_of_getElem? ht)).2 hclosed

/-- The first that is looked for in one list is the first in the other. -/
theorem find?_forall₂ {α β : Type*} {R : α → β → Prop} {f : α → Bool} {g : β → Bool} {as : List α}
    {bs : List β} (h : List.Forall₂ R as bs) (hfg : ∀ a b, R a b → f a = g b) :
    Option.Rel R (as.find? f) (bs.find? g) := by
  induction h with
  | nil => exact .none
  | @cons a b as bs hab _ ih =>
    rw [List.find?_cons, List.find?_cons, hfg a b hab]
    cases g b with
    | true => exact .some hab
    | false => exact ih

theorem getElem?_forall₂ {α β : Type*} {R : α → β → Prop} {as : List α} {bs : List β}
    (h : List.Forall₂ R as bs) (i : Nat) : Option.Rel R as[i]? bs[i]? := by
  induction h generalizing i with
  | nil => exact .none
  | cons hab _ ih =>
    cases i with
    | zero => exact .some hab
    | succ i => exact ih i

/-- `json_obj_search` finds the key of the member that is looked for. -/
theorem jsonObjSearch_at (name : CStr) (hforest : TokenForest js toks) (h : At js toks k (.obj ms)) :
    ∃ r, jsonObjSearch ⟨js, toks, k⟩ name = .ok r ∧
      Option.Rel (fun i v => At js toks (i + 1) v ∧ parentOf toks (i + 1) = some i ∧
        IsTok toks i .string (some k)) r (objSearch (some ms) name) := by
  obtain ⟨⟨t, ht, htype⟩, hchildren⟩ := h.members hforest
  refine ⟨_, by rw [jsonObjSearch_spec hforest ht, if_pos htype], ?_⟩
  have hfind := find?_forall₂ (f := isKey js toks name) (g := fun m => decide (m.1 = name)) hchildren
    fun i m him => by
      rw [Bool.eq_iff_iff, isKey_iff hforest him.1, decide_eq_true_eq]
  simp only [objSearch, Option.bind_eq_bind, Option.bind_some]
  revert hfind
  generalize (children toks k).find? (isKey js toks name) = r
  generalize ms.find? (fun m => decide (m.1 = name)) = r'
  intro hfind
  cases hfind with
  | none => exact .none
  | some him => exact .some ⟨him.2.1, him.2.2, him.1.isTok⟩

/-- The characters of a value of a type that has nothing below it. -/
def textOf : JsmnType → JsonVal → Option CStr
  | .primitive, .prim text => some text
  | .string, .str text => some text
  | _, _ => none

/-- The first token of a value, which has its characters if there is nothing below it. -/
theorem At.tok (h : At js toks k v) :
    ∃ t, toks[k]? = some t ∧ ∀ type, type = .primitive ∨ type = .string →
      if t.type = type then t.isOpen = false ∧ textOf type v = some (tokText js t)
      else textOf type v = none := by
  obtain ⟨parent, n, hreps, -⟩ := h
  cases hreps with
  | prim hleaf | str hleaf =>
    obtain ⟨t, ht, htype, -, hclosed, rfl⟩ := hleaf
    refine ⟨t, ht, fun type htyp => ?_⟩
    rcases htyp with rfl | rfl <;> simp [htype, textOf, hclosed]
  | arr htok _ | obj htok _ =>
    obtain ⟨t, ht, htype, -⟩ := htok
    refine ⟨t, ht, fun type htyp => ?_⟩
    rcases htyp with rfl | rfl <;> simp [htype, textOf]

/-- What is read from the cursor: the members of an object, or nothing where there is none. -/
def ReadsAs (js : List UInt8) (toks : List JsmnTok) (cur : Nat) : Option Members → Prop
  | some ms => At js toks cur (.obj ms)
  | none => ∃ t, toks[cur]? = some t ∧ t.type ≠ .object

variable {o : Option Members}

/-- What is read from a member that has a text. -/
theorem objGet_at {α : Type} (hforest : TokenForest js toks) (h : ReadsAs js toks k o)
    (htype : type = .primitive ∨ type = .string) {f : JsmnTok → Option α} {g : CStr → Option α}
    (hfg : ∀ t, (∀ b, t.stop = some b → t.start ≤ b ∧ b ≤ js.length) → t.isOpen = false →
      f t = g (tokText js t)) :
    (do
      let t ← jsonObjGetValTok ⟨js, toks, k⟩ name type
      return t >>= f) = .ok ((objSearch o name >>= textOf type) >>= g) := by
  cases o with
  | none =>
    obtain ⟨t, ht, hne⟩ := h
    simp only [jsonObjGetValTok, jsonObjSearch_spec hforest ht, if_neg hne]
    rfl
  | some ms =>
    obtain ⟨r, hr, hrel⟩ := jsonObjSearch_at name hforest h
    simp only [jsonObjGetValTok, hr, ok_bind]
    revert hrel
    generalize objSearch (some ms) name = v
    intro hrel
    cases hrel with
    | none => rfl
    | @some i v hat =>
      obtain ⟨t, ht, htext⟩ := hat.1.tok
      have hspan := (hforest.span t (List.mem_of_getElem? ht)).2
      have htext := htext type htype
      simp only [readTok_eq ht, ok_bind, Option.bind_eq_bind, Option.bind_some]
      by_cases hty : t.type = type
      · rw [if_pos hty] at htext
        rw [if_pos hty, htext.2]
        exact congrArg Except.ok (hfg t hspan htext.1)
      · rw [if_neg hty] at htext
        rw [if_neg hty, htext]
        rfl

theorem objGetPrim_eq : objGetPrim o name = objSearch o name >>= textOf .primitive := by
  unfold objGetPrim
  rcases objSearch o name with _ | (_ | _ | _ | _) <;> rfl

theorem objGetString_eq : objGetString o name = objSearch o name >>= textOf .string := by
  unfold objGetString
  rcases objSearch o name with _ | (_ | _ | _ | _) <;> rfl

/-- The characters of a token are as many as its span. -/
theorem length_tokText (hspan : ∀ b, t.stop = some b → t.start ≤ b ∧ b ≤ js.length)
    (hclosed : t.isOpen = false) : (tokText js t).length = t.stop.getD 0 - t.start := by
  obtain ⟨b, hb⟩ : ∃ b, t.stop = some b := by
    cases hstop : t.stop with
    | none => rw [JsmnTok.isOpen, hstop] at hclosed; cases hclosed
    | some b => exact ⟨b, rfl⟩
  obtain ⟨hle, hlen⟩ := hspan b hb
  simp only [tokText, hb, Option.getD_some, List.length_take, List.length_drop]
  omega

theorem jsonObjGetBool_at (hforest : TokenForest js toks) (h : ReadsAs js toks k o) :
    jsonObjGetBool ⟨js, toks, k⟩ name = .ok (objGetBool o name) := by
  rw [objGetBool, objGetPrim_eq]
  refine objGet_at hforest h (Or.inl rfl) fun t hspan hclosed => ?_
  simp only [jsonTokToBool, tokToBool, tokenMatchesStr_iff hspan hclosed]

theorem jsonObjGetInt_at (hforest : TokenForest js toks) (h : ReadsAs js toks k o) :
    jsonObjGetInt ⟨js, toks, k⟩ name = .ok (objGetInt o name) := by
  rw [objGetInt, objGetPrim_eq]
  exact objGet_at hforest h (Or.inl rfl) fun t _ _ => rfl

theorem jsonObjGetUInt64_at (hforest : TokenForest js toks) (h : ReadsAs js toks k o) :
    jsonObjGetUInt64 ⟨js, toks, k⟩ name = .ok (objGetUInt64 o name) := by
  rw [objGetUInt64, objGetPrim_eq]
  exact objGet_at hforest h (Or.inl rfl) fun t _ _ => rfl

theorem jsonObjGetStrlen_at (hforest : TokenForest js toks) (h : ReadsAs js toks k o) :
    jsonObjGetStrlen ⟨js, toks, k⟩ name = .ok ((objGetString o name).map List.length) := by
  rw [objGetString_eq, Option.map_eq_bind]
  simp only [jsonObjGetStrlen, Option.map_eq_bind]
  exact objGet_at hforest h (Or.inr rfl) fun t hspan hclosed => by
    simp only [Function.comp, length_tokText hspan hclosed]

/-- The string is read whole, or not at all. -/
theorem jsonObjGetString_at (hforest : TokenForest js toks) (h : ReadsAs js toks k o) (size : Nat) :
    jsonObjGetString ⟨js, toks, k⟩ name size =
      .ok ((objGetString o name).filter fun text => text.length + 1 ≤ size) := by
  have hfilter : ∀ x : Option CStr, x.filter (fun text => text.length + 1 ≤ size) =
      x >>= fun text => if text.length + 1 > size then none else some text := by
    rintro (_ | text)
    · rfl
    · rw [Option.filter_some, Option.bind_eq_bind, Option.bind_some]
      by_cases hsize : text.length + 1 ≤ size
      · rw [if_pos (decide_eq_true hsize), if_neg (Nat.not_lt.2 hsize)]
      · rw [if_neg (by simpa using hsize), if_pos (Nat.lt_of_not_le hsize)]
  rw [objGetString_eq, hfilter]
  exact objGet_at hforest h (Or.inr rfl) fun t hspan hclosed => by
    rw [← length_tokText hspan hclosed]

/-! ## The cursor -/

/-- The type of a value. -/
def jsonType : JsonVal → JsmnType
  | .prim _ => .primitive
  | .str _ => .string
  | .arr _ => .array
  | .obj _ => .object

theorem At.type_eq (h : At js toks k v) : ∃ t, toks[k]? = some t ∧ t.type = jsonType v := by
  obtain ⟨parent, n, hreps, -⟩ := h
  cases hreps with
  | prim hleaf | str hleaf =>
    obtain ⟨t, ht, htype, -⟩ := hleaf
    exact ⟨t, ht, htype⟩
  | arr htok _ | obj htok _ =>
    obtain ⟨t, ht, htype, -⟩ := htok
    exact ⟨t, ht, htype⟩

/-- The array `a` of items is the value of a key of the object at 0. -/
structure Items (js : List UInt8) (toks : List JsmnTok) (root : Members) (elems : List JsonVal)
    (a : Nat) : Prop where
  root : At js toks 0 (.obj root)
  top : parentOf toks 0 = none
  arr : At js toks a (.arr elems)
  key : ∃ i, parentOf toks a = some i ∧ IsTok toks i .string (some 0)

variable {root : Members} {elems : List JsonVal} {a cur : Nat} {cursor : Cursor}

/-- Where the token is that the cursor is at. -/
def CursorTok (toks : List JsmnTok) (elems : List JsonVal) (a cur : Nat) : Cursor → Prop
  | .item i => (children toks a)[i]? = some cur ∧ ∃ ms, elems[i]? = some (.obj ms)
  | .array => cur = a
  | .key => parentOf toks a = some cur
  | .root => cur = 0

/-- The elements have tokens, below the array. -/
theorem Items.child (h : Items js toks root elems a) (hforest : TokenForest js toks) (i : Nat) :
    Option.Rel (fun k v => At js toks k v ∧ parentOf toks k = some a) (children toks a)[i]?
      elems[i]? :=
  getElem?_forall₂ (h.arr.elems hforest).2 i

/-- What is read where the cursor is. -/
theorem Items.readsAs (h : Items js toks root elems a) (hforest : TokenForest js toks)
    (hcur : CursorTok toks elems a cur cursor) :
    ReadsAs js toks cur (cursorObj root elems cursor) := by
  cases cursor with
  | item i =>
    obtain ⟨hget, ms, hms⟩ := hcur
    have hchild := h.child hforest i
    rw [hget, hms] at hchild
    cases hchild with
    | some hat =>
      simp only [cursorObj, hms]
      exact hat.1
  | array =>
    obtain rfl : cur = a := hcur
    obtain ⟨⟨t, ht, htype⟩, -⟩ := h.arr.elems hforest
    exact ⟨t, ht, by simp [htype]⟩
  | key =>
    obtain ⟨i, hi, t, ht, htype, -⟩ := h.key
    obtain rfl := Option.some.inj (hi.symm.trans hcur)
    exact ⟨t, ht, by simp [htype]⟩
  | root =>
    obtain rfl : cur = 0 := hcur
    exact h.root

/-- `json_arr_get_object`. -/
theorem Items.getObject (h : Items js toks root elems a) (hforest : TokenForest js toks)
    (hcur : CursorTok toks elems a cur cursor) (i : Nat) :
    ∃ cur', jsonArrGetObject ⟨js, toks, cur⟩ i = .ok ⟨js, toks, cur'⟩ ∧
      CursorTok toks elems a cur' (arrGetObject elems cursor i) := by
  have hstay : (∃ t, toks[cur]? = some t ∧ t.type ≠ .array) →
      jsonArrGetObject ⟨js, toks, cur⟩ i = .ok ⟨js, toks, cur⟩ := by
    rintro ⟨t, ht, htype⟩
    simp only [jsonArrGetObject, jsonArrSearch_spec hforest ht, if_neg htype]
    rfl
  cases cursor with
  | item j =>
    refine ⟨cur, hstay ?_, hcur⟩
    obtain ⟨hget, ms, hms⟩ := hcur
    have hchild := h.child hforest j
    rw [hget, hms] at hchild
    cases hchild with
    | some hat =>
      obtain ⟨⟨t, ht, htype⟩, -⟩ := hat.1.members hforest
      exact ⟨t, ht, by simp [htype]⟩
  | array =>
    obtain rfl : cur = a := hcur
    obtain ⟨⟨t, ht, htype⟩, -⟩ := h.arr.elems hforest
    simp only [jsonArrGetObject, jsonArrSearch_spec hforest ht, if_pos htype, ok_bind]
    have hchild := h.child hforest i
    revert hchild
    generalize hget : (children toks cur)[i]? = r
    generalize hv : elems[i]? = v
    intro hchild
    cases hchild with
    | none => exact ⟨cur, rfl, by simp only [arrGetObject, hv]; rfl⟩
    | @some k v hat =>
      obtain ⟨u, hu, htyp⟩ := hat.1.type_eq
      simp only [readTok_eq hu, ok_bind, htyp, arrGetObject, hv]
      cases v with
      | obj ms => exact ⟨k, rfl, hget, ms, hv⟩
      | prim | str | arr => exact ⟨cur, rfl, rfl⟩
  | key =>
    obtain ⟨j, hj, t, ht, htype, -⟩ := h.key
    obtain rfl := Option.some.inj (hj.symm.trans hcur)
    exact ⟨j, hstay ⟨t, ht, by simp [htype]⟩, hj⟩
  | root =>
    obtain rfl : cur = 0 := hcur
    obtain ⟨⟨t, ht, htype⟩, -⟩ := h.root.members hforest
    exact ⟨0, hstay ⟨t, ht, by simp [htype]⟩, rfl⟩

/-- `json_arr_leave_object`: to the parent of the token, if there is one. -/
theorem jsonArrLeaveObject_eq (ht : toks[cur]? = some t) :
    jsonArrLeaveObject ⟨js, toks, cur⟩ = .ok ⟨js, toks, (parentOf toks cur).getD cur⟩ := by
  simp only [jsonArrLeaveObject, readTok_eq ht, ok_bind, parentOf, ht, Option.bind_some]
  cases t.parent <;> rfl

theorem Items.leaveObject (h : Items js toks root elems a) (hforest : TokenForest js toks)
    (hcur : CursorTok toks elems a cur cursor) :
    ∃ cur', jsonArrLeaveObject ⟨js, toks, cur⟩ = .ok ⟨js, toks, cur'⟩ ∧
      CursorTok toks elems a cur' (arrLeaveObject cursor) := by
  cases cursor with
  | item j =>
    obtain ⟨hget, ms, hms⟩ := hcur
    have hchild := h.child hforest j
    rw [hget, hms] at hchild
    cases hchild with
    | some hat =>
      obtain ⟨⟨t, ht, -⟩, -⟩ := hat.1.members hforest
      refine ⟨_, jsonArrLeaveObject_eq ht, ?_⟩
      rw [hat.2]
      rfl
  | array =>
    obtain rfl : cur = a := hcur
    obtain ⟨⟨t, ht, -⟩, -⟩ := h.arr.elems hforest
    obtain ⟨i, hi, -⟩ := h.key
    refine ⟨_, jsonArrLeaveObject_eq ht, ?_⟩
    rw [hi]
    exact hi
  | key =>
    obtain ⟨j, hj, t, ht, -, hparent⟩ := h.key
    obtain rfl := Option.some.inj (hj.symm.trans hcur)
    refine ⟨_, jsonArrLeaveObject_eq ht, ?_⟩
    rw [parentOf, ht, Option.bind_some, hparent]
    rfl
  | root =>
    obtain rfl : cur = 0 := hcur
    obtain ⟨⟨t, ht, -⟩, -⟩ := h.root.members hforest
    refine ⟨_, jsonArrLeaveObject_eq ht, ?_⟩
    rw [h.top]
    rfl

/-! ## The items of a request -/

/-- `json_obj_get_array` at the root: the array, or nothing and no elements. -/
theorem jsonObjGetArray_root (name : CStr) (hforest : TokenForest js toks)
    (hroot : Reps js toks (.val (.obj root)) none 0 toks.length) :
    ∃ a cnt, jsonObjGetArray ⟨js, toks, 0⟩ name = .ok (⟨js, toks, a⟩, cnt) ∧
      cnt.getD 0 = (objGetArray (some root) name).length ∧
      (objGetArray (some root) name ≠ [] → Items js toks root (objGetArray (some root) name) a) := by
  have hat := at_root hroot
  have htop : parentOf toks 0 = none := by
    cases hroot with
    | obj htok _ => exact htok.parentOf_eq
  obtain ⟨r, hr, hrel⟩ := jsonObjSearch_at name hforest hat
  simp only [jsonObjGetArray, objGetArray, hr, ok_bind]
  revert hrel
  generalize objSearch (some root) name = v
  intro hrel
  cases hrel with
  | none => exact ⟨0, none, rfl, rfl, fun hne => absurd rfl hne⟩
  | @some i v hval =>
    obtain ⟨hv, hi, h0⟩ := hval
    cases v with
    | arr elems =>
      obtain ⟨⟨t, ht, htype⟩, hall⟩ := hv.elems hforest
      have hsize := hforest.size _ t ht
      refine ⟨i + 1, some t.size, ?_, ?_, fun _ => ⟨hat, htop, hv, i, hi, h0⟩⟩
      · simp only [readTok_eq ht, ok_bind, if_pos htype]
        rfl
      · rw [Option.getD_some, hsize]
        exact hall.length_eq
    | prim | str | obj =>
      obtain ⟨t, ht, htype⟩ := hv.type_eq
      refine ⟨0, none, ?_, rfl, fun hne => absurd rfl hne⟩
      simp only [readTok_eq ht, ok_bind, htype, jsonType]
      rfl

end NinaHomekit
