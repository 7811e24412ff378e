import NinaHomekit.Hap.Json
import NinaHomekit.Json.Accepted

/-!
# The texts of a JSON value

What a text of a value looks like, and the tokens it is cut into.

* `Text` — the grammar, with blanks.  A primitive is any run of characters that starts like a
  number, `true`, `false` or `null` and ends where the tokenizer ends it.
* `Reps` — tokens that represent a value.
* `Jsmn.writes_text` — **the tokenizer reads on over a text, and what it leaves represents the value.**
  Induction on the text.
* `jsonParseStart_text` — **every text of an array or an object is accepted.**
-/

namespace NinaHomekit

open PreorderForest Outcome Trace

/-! ## The grammar -/

/-- Blanks. -/
def Blanks (w : CStr) : Prop := ∀ c ∈ w, isBlank c

/-- The characters of a string, as they stand between its quotes. -/
inductive StrText : CStr → Prop
  | nil : StrText []
  | plain {c : UInt8} {cs : CStr} (h0 : c ≠ 0) (hq : c ≠ 0x22) (hb : c ≠ 0x5C)
      (h : StrText cs) : StrText (c :: cs)
  | escape {c : UInt8} {cs : CStr} (hc : isEscaped c) (h : StrText cs) : StrText (0x5C :: c :: cs)
  | unicode {a b c d : UInt8} {cs : CStr} (ha : isHex a) (hb : isHex b) (hc : isHex c)
      (hd : isHex d) (h : StrText cs) : StrText (0x5C :: 0x75 :: a :: b :: c :: d :: cs)

/-- A character in a primitive. -/
def InPrimitive (c : UInt8) : Prop := endsPrimitive c = false ∧ 32 ≤ c ∧ c < 127

/-- The characters of a primitive. -/
def PrimText (text : CStr) : Prop :=
  ∃ c cs, text = c :: cs ∧ startsPrimitive c ∧ ∀ c ∈ text, InPrimitive c

/-- What has a text: a value, the elements of an array, the members of an object. -/
inductive Doc where
  | val (v : JsonVal)
  | elems (vs : List JsonVal)
  | members (ms : Members)

/-- `text` is a text of a value, or of what stands between brackets. -/
inductive Text : Doc → CStr → Prop
  | prim {text : CStr} (h : PrimText text) : Text (.val (.prim text)) text
  | str {text : CStr} (h : StrText text) : Text (.val (.str text)) (0x22 :: (text ++ [0x22]))
  | arrNil {w : CStr} (hw : Blanks w) : Text (.val (.arr [])) (0x5B :: (w ++ [0x5D]))
  | arr {vs : List JsonVal} {t : CStr} (h : Text (.elems vs) t) :
      Text (.val (.arr vs)) (0x5B :: (t ++ [0x5D]))
  | objNil {w : CStr} (hw : Blanks w) : Text (.val (.obj [])) (0x7B :: (w ++ [0x7D]))
  | obj {ms : Members} {t : CStr} (h : Text (.members ms) t) :
      Text (.val (.obj ms)) (0x7B :: (t ++ [0x7D]))
  | elem {v : JsonVal} {w t w' : CStr} (hw : Blanks w) (h : Text (.val v) t) (hw' : Blanks w') :
      Text (.elems [v]) (w ++ (t ++ w'))
  | elems {v : JsonVal} {vs : List JsonVal} {w t w' ts : CStr} (hw : Blanks w)
      (h : Text (.val v) t) (hw' : Blanks w') (hs : Text (.elems vs) ts) :
      Text (.elems (v :: vs)) (w ++ (t ++ (w' ++ 0x2C :: ts)))
  | member {key : CStr} {v : JsonVal} {w w' w₁ t w₂ : CStr} (hw : Blanks w) (hkey : StrText key)
      (hw' : Blanks w') (hw₁ : Blanks w₁) (h : Text (.val v) t) (hw₂ : Blanks w₂) :
      Text (.members [(key, v)]) (w ++ (0x22 :: (key ++ 0x22 :: (w' ++ 0x3A :: (w₁ ++ (t ++ w₂))))))
  | members {key : CStr} {v : JsonVal} {ms : Members} {w w' w₁ t w₂ ts : CStr} (hw : Blanks w)
      (hkey : StrText key) (hw' : Blanks w') (hw₁ : Blanks w₁) (h : Text (.val v) t)
      (hw₂ : Blanks w₂) (hs : Text (.members ms) ts) :
      Text (.members ((key, v) :: ms))
        (w ++ (0x22 :: (key ++ 0x22 :: (w' ++ 0x3A :: (w₁ ++ (t ++ (w₂ ++ 0x2C :: ts)))))))

/-! ## The tokens of a value -/

/-- The token `k` is of this type, below `parent`. -/
def IsTok (toks : List JsmnTok) (k : Nat) (type : JsmnType) (parent : Option Nat) : Prop :=
  ∃ t, toks[k]? = some t ∧ t.type = type ∧ t.parent = parent

/-- The token `k` is of this type, below `parent`, and closed, with these characters. -/
def IsLeaf (js : List UInt8) (toks : List JsmnTok) (k : Nat) (type : JsmnType)
    (parent : Option Nat) (text : CStr) : Prop :=
  ∃ t, toks[k]? = some t ∧ t.type = type ∧ t.parent = parent ∧ t.isOpen = false ∧
    tokText js t = text

/-- The tokens from `k` on, and before `n`, represent a value, or the elements or members of what
`parent` is. -/
inductive Reps (js : List UInt8) (toks : List JsmnTok) : Doc → Option Nat → Nat → Nat → Prop
  | prim {text : CStr} {parent : Option Nat} {k : Nat} (h : IsLeaf js toks k .primitive parent text) :
      Reps js toks (.val (.prim text)) parent k (k + 1)
  | str {text : CStr} {parent : Option Nat} {k : Nat} (h : IsLeaf js toks k .string parent text) :
      Reps js toks (.val (.str text)) parent k (k + 1)
  | arr {vs : List JsonVal} {parent : Option Nat} {k n : Nat} (h : IsTok toks k .array parent)
      (hs : Reps js toks (.elems vs) (some k) (k + 1) n) :
      Reps js toks (.val (.arr vs)) parent k n
  | obj {ms : Members} {parent : Option Nat} {k n : Nat} (h : IsTok toks k .object parent)
      (hs : Reps js toks (.members ms) (some k) (k + 1) n) :
      Reps js toks (.val (.obj ms)) parent k n
  | elemsNil {parent : Option Nat} {k : Nat} : Reps js toks (.elems []) parent k k
  | elemsCons {v : JsonVal} {vs : List JsonVal} {parent : Option Nat} {k m n : Nat}
      (h : Reps js toks (.val v) parent k m) (hs : Reps js toks (.elems vs) parent m n) :
      Reps js toks (.elems (v :: vs)) parent k n
  | membersNil {parent : Option Nat} {k : Nat} : Reps js toks (.members []) parent k k
  | membersCons {key : CStr} {v : JsonVal} {ms : Members} {parent : Option Nat} {k m n : Nat}
      (hkey : IsLeaf js toks k .string parent key) (h : Reps js toks (.val v) (some k) (k + 1) m)
      (hs : Reps js toks (.members ms) parent m n) :
      Reps js toks (.members ((key, v) :: ms)) parent k n

/-- What a token keeps: all but its number of children, and its end once it has one. -/
def Kept (toks toks' : List JsmnTok) : Prop :=
  ∀ (k : Nat) (t : JsmnTok), toks[k]? = some t → ∃ t' : JsmnTok, toks'[k]? = some t' ∧
    t'.type = t.type ∧ t'.start = t.start ∧ t'.parent = t.parent ∧
    (t.isOpen = false → t'.stop = t.stop)

variable {js : List UInt8} {toks toks' toks'' : List JsmnTok} {d : Doc} {parent : Option Nat}
  {k m n : Nat} {type : JsmnType} {text : CStr}

theorem Kept.refl : Kept toks toks := fun _ t ht => ⟨t, ht, rfl, rfl, rfl, fun _ => rfl⟩

theorem Kept.trans (h : Kept toks toks') (h' : Kept toks' toks'') : Kept toks toks'' := by
  intro k t ht
  obtain ⟨t', ht', htype, hstart, hparent, hstop⟩ := h k t ht
  obtain ⟨t'', ht'', htype', hstart', hparent', hstop'⟩ := h' k t' ht'
  refine ⟨t'', ht'', htype'.trans htype, hstart'.trans hstart, hparent'.trans hparent, fun ho => ?_⟩
  have hstop := hstop ho
  refine (hstop' ?_).trans hstop
  rwa [JsmnTok.isOpen, hstop]

theorem IsTok.mono (h : IsTok toks k type parent) (hkept : Kept toks toks') :
    IsTok toks' k type parent := by
  obtain ⟨t, ht, htype, hparent⟩ := h
  obtain ⟨t', ht', htype', -, hparent', -⟩ := hkept k t ht
  exact ⟨t', ht', htype'.trans htype, hparent'.trans hparent⟩

theorem IsLeaf.mono (h : IsLeaf js toks k type parent text) (hkept : Kept toks toks') :
    IsLeaf js toks' k type parent text := by
  obtain ⟨t, ht, htype, hparent, hopen, htext⟩ := h
  obtain ⟨t', ht', htype', hstart', hparent', hstop'⟩ := hkept k t ht
  refine ⟨t', ht', htype'.trans htype, hparent'.trans hparent, ?_, ?_⟩
  · rwa [JsmnTok.isOpen, hstop' hopen]
  · rwa [tokText, hstop' hopen, hstart']

/-- The tokens still represent the value when more are put behind them. -/
theorem Reps.mono (h : Reps js toks d parent k n) (hkept : Kept toks toks') :
    Reps js toks' d parent k n := by
  induction h with
  | prim h => exact .prim (h.mono hkept)
  | str h => exact .str (h.mono hkept)
  | arr h _ ih => exact .arr (h.mono hkept) ih
  | obj h _ ih => exact .obj (h.mono hkept) ih
  | elemsNil => exact .elemsNil
  | elemsCons _ _ ih ihs => exact .elemsCons ih ihs
  | membersNil => exact .membersNil
  | membersCons hkey _ _ ih ihs => exact .membersCons (hkey.mono hkept) ih ihs

/-- The first member. -/
theorem Reps.members {key : CStr} {v : JsonVal} {ms : Members}
    (h : Reps js toks (.members ((key, v) :: ms)) parent k n) :
    ∃ m, IsLeaf js toks k .string parent key ∧ Reps js toks (.val v) (some k) (k + 1) m ∧
      Reps js toks (.members ms) parent m n := by
  cases h with
  | membersCons hkey h hs => exact ⟨_, hkey, h, hs⟩

/-- What is written behind the tokens: they stay open or closed, and what is new is closed, and is
below `sup` or below a new token. -/
structure Grows (sup : Option Nat) (base : Nat) (toks toks' : List JsmnTok) : Prop where
  kept : Kept toks toks'
  stops : ∀ (k : Nat) (t t' : JsmnTok), toks[k]? = some t → toks'[k]? = some t' → t'.stop = t.stop
  new : ∀ (k : Nat) (t : JsmnTok), toks.length ≤ k → toks'[k]? = some t → t.isOpen = false ∧
    (t.parent = sup ∨ ∃ p, t.parent = some p ∧ base ≤ p ∧ p < k)

theorem Kept.length_le (h : Kept toks toks') : toks.length ≤ toks'.length := by
  by_contra hlt
  obtain ⟨t', ht', -⟩ := h toks'.length _ (List.getElem?_eq_getElem (by omega))
  simp at ht'

theorem Grows.refl {sup : Option Nat} {base : Nat} : Grows sup base toks toks := by
  refine ⟨.refl, fun k t t' ht ht' => ?_, fun k t hk ht => ?_⟩
  · rw [ht] at ht'
    rw [Option.some.inj ht']
  · have := (List.getElem?_eq_some_iff.1 ht).1
    omega

/-- More behind what is new already, below the same token or a new one. -/
theorem Grows.trans {sup sup' : Option Nat} {base base' : Nat} (h : Grows sup base toks toks')
    (h' : Grows sup' base' toks' toks'') (hbase : base ≤ base')
    (hsup : sup' = sup ∨ ∃ p, sup' = some p ∧ base ≤ p ∧ p < toks'.length) :
    Grows sup base toks toks'' := by
  refine ⟨h.kept.trans h'.kept, fun k t t'' ht ht'' => ?_, fun k t'' hk ht'' => ?_⟩
  · obtain ⟨t', ht', -⟩ := h.kept k t ht
    rw [h'.stops k t' t'' ht' ht'', h.stops k t t' ht ht']
  · by_cases hlt : k < toks'.length
    · obtain ⟨t', ht'⟩ : ∃ t', toks'[k]? = some t' := ⟨_, List.getElem?_eq_getElem hlt⟩
      obtain ⟨hopen, hparent⟩ := h.new k t' hk ht'
      obtain ⟨u, hu, -, -, hup, -⟩ := h'.kept k t' ht'
      obtain rfl := Option.some.inj (hu.symm.trans ht'')
      refine ⟨?_, by rwa [hup]⟩
      rwa [JsmnTok.isOpen, h'.stops k t' u ht' hu]
    · obtain ⟨hopen, hparent⟩ := h'.new k t'' (by omega) ht''
      refine ⟨hopen, ?_⟩
      rcases hparent with hp | ⟨p, hp, hpbase, hpk⟩
      · rcases hsup with rfl | ⟨p, rfl, hpbase, hplt⟩
        · exact Or.inl hp
        · exact Or.inr ⟨p, hp, hpbase, by omega⟩
      · exact Or.inr ⟨p, hp, by omega, hpk⟩

namespace Jsmn

variable {s s' : Jsmn} {t : JsmnTok} {num i : Nat} {c : UInt8} {rest w : CStr} {ms : Members}

/-! ## One character -/

/-- The parser reads on: one run of the body of the loop, and the same without an array. -/
def Next (num : Nat) (js : List UInt8) (s s' : Jsmn) : Prop :=
  ∃ c s₁ more, js[s.pos]? = some c ∧ c ≠ 0 ∧ s.step (some num) js c = .ok (s₁, more) ∧
    (∀ s₀ : Jsmn, s₀.pos = s.pos →
      ∃ s₀', s₀.step none js c = .ok (s₀', more) ∧ s₀'.pos = s₁.pos) ∧
    s₁.tokens.length = s.tokens.length + more ∧ s.pos ≤ s₁.pos ∧ s' = { s₁ with pos := s₁.pos + 1 }

/-- The parser reads on over some of the text. -/
abbrev Goes (num : Nat) (js : List UInt8) : Jsmn → Jsmn → Prop := Relation.ReflTransGen (Next num js)

theorem goes_step {s₁ : Jsmn} {more : Nat} (h : js.drop s.pos = c :: rest) (hc : c ≠ 0)
    (hstep : s.step (some num) js c = .ok (s₁, more))
    (hcount : ∀ s₀ : Jsmn, s₀.pos = s.pos →
      ∃ s₀', s₀.step none js c = .ok (s₀', more) ∧ s₀'.pos = s₁.pos)
    (hlen : s₁.tokens.length = s.tokens.length + more) (hpos : s.pos ≤ s₁.pos) :
    Goes num js s { s₁ with pos := s₁.pos + 1 } :=
  .single ⟨c, s₁, more, by rw [← List.head?_drop, h, List.head?_cons], hc, hstep, hcount, hlen,
    hpos, rfl⟩

theorem drop_add {pos : Nat} (h : js.drop pos = w ++ rest) : js.drop (pos + w.length) = rest := by
  rw [← List.drop_drop, h, List.drop_left]

theorem drop_succ {pos : Nat} (h : js.drop pos = c :: rest) : js.drop (pos + 1) = rest :=
  drop_add (w := [c]) h

theorem goes_blanks (num : Nat) (hw : Blanks w) (h : js.drop s.pos = w ++ rest) :
    Goes num js s { s with pos := s.pos + w.length } := by
  induction w generalizing s with
  | nil => exact .refl
  | cons c w ih =>
    have hc : isBlank c := hw c List.mem_cons_self
    have hnext : Goes num js s { s with pos := s.pos + 1 } := by
      have hstep : ∀ num' (s₀ : Jsmn), s₀.step num' js c = .ok (s₀, 0) := by
        intro num' s₀
        simp only [isBlank, Bool.or_eq_true, beq_iff_eq] at hc
        rcases hc with ((rfl | rfl) | rfl) | rfl <;> rfl
      refine goes_step h ?_ (hstep _ s) (fun s₀ h₀ => ⟨s₀, hstep none s₀, h₀⟩) rfl le_rfl
      rintro rfl
      exact absurd hc (by decide)
    have hrest := ih (s := { s with pos := s.pos + 1 })
      (fun c hc => hw c (List.mem_cons_of_mem _ hc)) (drop_succ h)
    rw [List.length_cons, Nat.add_comm w.length, ← Nat.add_assoc]
    exact hnext.trans hrest

/-! ## Primitives and strings -/

theorem startsPrimitive_ne {d : UInt8} (hc : startsPrimitive c) (hd : startsPrimitive d = false) :
    c ≠ d := by
  rintro rfl
  rw [hd] at hc
  cases hc

theorem endsPrimitive_ne_zero (hc : endsPrimitive c) : c ≠ 0 := by
  rintro rfl
  exact absurd hc (by decide)

theorem scanPrimitive_text {text : CStr} (htext : ∀ c ∈ text, InPrimitive c)
    (hc : endsPrimitive c) (pos : Nat) :
    scanPrimitive (text ++ c :: rest) pos = .ok (pos + text.length) := by
  induction text generalizing pos with
  | nil => simp [scanPrimitive, endsPrimitive_ne_zero hc, hc]
  | cons a text ih =>
    obtain ⟨hend, hlo, hhi⟩ := htext a List.mem_cons_self
    have ha : a ≠ 0 := by
      rintro rfl
      exact absurd hlo (by decide)
    have hrange : ¬ (a < 32 ∨ 127 ≤ a) := by
      rw [not_or, UInt8.not_lt, UInt8.not_le]
      exact ⟨hlo, hhi⟩
    rw [List.cons_append, scanPrimitive, if_neg ha, hend, if_neg Bool.false_ne_true,
      if_neg hrange, ih (fun c hc => htext c (List.mem_cons_of_mem _ hc)), List.length_cons]
    congr 1
    omega

theorem isHex_ne_zero (hc : isHex c) : c ≠ 0 := by
  rintro rfl
  exact absurd hc (by decide)

/-- Induction on the characters. -/
theorem scanString_text {text : CStr} (htext : StrText text) (pos : Nat) :
    scanString .plain (text ++ 0x22 :: rest) pos = .ok (pos + text.length) := by
  induction htext generalizing pos with
  | nil => simp [scanString]
  | @plain c cs h0 hq hb _ ih =>
    rw [List.cons_append, scanString, if_neg h0, if_neg hq, if_neg hb, ih, List.length_cons]
    congr 1
    omega
  | @escape c cs hc _ ih =>
    rw [List.cons_append, List.cons_append, scanString, if_neg (by decide), if_neg (by decide),
      if_pos rfl, scanString, if_pos hc, ih, List.length_cons, List.length_cons]
    congr 1
    omega
  | @unicode a b c d cs ha hb hc hd _ ih =>
    simp [scanString, isHex_ne_zero ha, isHex_ne_zero hb, isHex_ne_zero hc, isHex_ne_zero hd, ha,
      hb, hc, hd, ih, show isEscaped 0x75 = false by decide]
    omega

/-- The new token is behind the others. -/
theorem kept_pushTok : Kept s.tokens (s.pushTok t) := by
  intro k u hu
  have hk := (List.getElem?_eq_some_iff.1 hu).1
  have hget := getElem?_pushTok (t := t) hk
  rw [hu, Option.map_some] at hget
  exact ⟨_, hget, rfl, rfl, rfl, fun _ => rfl⟩

theorem grows_pushTok (hsup : ∀ i, s.toksuper = some i → i < s.tokens.length)
    (hparent : t.parent = s.toksuper) (hopen : t.isOpen = false) :
    Grows s.toksuper s.tokens.length s.tokens (s.pushTok t) := by
  refine ⟨kept_pushTok, fun k u u' hu hu' => ?_, fun k u hk hu => ?_⟩
  · have hk := (List.getElem?_eq_some_iff.1 hu).1
    rw [getElem?_pushTok hk, hu] at hu'
    obtain rfl := Option.some.inj hu'
    rfl
  · have hlt := (List.getElem?_eq_some_iff.1 hu).1
    rw [length_pushTok] at hlt
    obtain rfl : k = s.tokens.length := by omega
    rw [getElem?_pushTok_last hsup] at hu
    obtain rfl := Option.some.inj hu
    exact ⟨hopen, Or.inl hparent⟩

/-- Where a value may come: at the top, in an array, or behind a key that has none yet. -/
def ReadyVal (s : Jsmn) : Prop :=
  ∀ i, s.toksuper = some i → ∃ t, s.tokens[i]? = some t ∧
    (t.type = .array ∨ t.type = .string ∧ t.size = 0)

/-- In an object or an array. -/
def ReadyIn (s : Jsmn) (type : JsmnType) : Prop :=
  ∃ i t, s.toksuper = some i ∧ s.tokens[i]? = some t ∧ t.type = type

theorem ReadyVal.lt (h : ReadyVal s) (i : Nat) (hi : s.toksuper = some i) :
    i < s.tokens.length := by
  obtain ⟨t, ht, -⟩ := h i hi
  exact (List.getElem?_eq_some_iff.1 ht).1

theorem ReadyIn.lt (h : ReadyIn s type) (i : Nat) (hi : s.toksuper = some i) :
    i < s.tokens.length := by
  obtain ⟨j, t, hj, ht, -⟩ := h
  obtain rfl := Option.some.inj (hi.symm.trans hj)
  exact (List.getElem?_eq_some_iff.1 ht).1

theorem ReadyIn.readyVal (h : ReadyIn s .array) : ReadyVal s := by
  obtain ⟨j, t, hj, ht, htype⟩ := h
  intro i hi
  obtain rfl := Option.some.inj (hi.symm.trans hj)
  exact ⟨t, ht, Or.inl htype⟩

theorem ReadyIn.mono (h : ReadyIn s type) (hkept : Kept s.tokens s'.tokens)
    (hsup : s'.toksuper = s.toksuper) : ReadyIn s' type := by
  obtain ⟨i, t, hi, ht, htype⟩ := h
  obtain ⟨t', ht', htype', -⟩ := hkept i t ht
  exact ⟨i, t', hsup.trans hi, ht', htype'.trans htype⟩

/-- No value there is refused. -/
theorem ReadyVal.readSuper (h : ReadyVal s) :
    ∃ super, s.readSuper = .ok super ∧ super.any (·.type == .object) = false ∧
      super.any refusesPrimitive = false := by
  cases hsup : s.toksuper with
  | none => exact ⟨none, by rw [Jsmn.readSuper, hsup], rfl, rfl⟩
  | some i =>
    obtain ⟨t, ht, htype⟩ := h i hsup
    refine ⟨some t, by simp [Jsmn.readSuper, hsup, readTok, ht], ?_, ?_⟩
    · rcases htype with htype | ⟨htype, -⟩ <;> simp [htype]
    · rcases htype with htype | ⟨htype, hsize⟩
      · simp [refusesPrimitive, htype]
      · simp [refusesPrimitive, htype, hsize]

theorem goes_primitive (hready : ReadyVal s) (htext : PrimText text) (hc : endsPrimitive c)
    (h : js.drop s.pos = text ++ c :: rest)
    (hnum : s.tokens.length + 1 ≤ num) :
    Goes num js s { s with
      pos := s.pos + text.length
      tokens := s.pushTok ⟨.primitive, s.pos, some (s.pos + text.length), 0, s.toksuper⟩ } := by
  obtain ⟨a, cs, rfl, ha, hall⟩ := htext
  obtain ⟨super, hread, -, hprim⟩ := hready.readSuper
  have hscan : scanPrimitive (js.drop s.pos) s.pos = .ok (s.pos + (a :: cs).length) := by
    rw [h, scanPrimitive_text hall hc]
  have hblank : isBlank a = false := by
    have := (hall a List.mem_cons_self).1
    simp only [endsPrimitive, Bool.or_eq_false_iff] at this
    exact this.1.1.1
  have hparse : s.parsePrimitive (some num) js = .ok { s with
      pos := s.pos + (a :: cs).length - 1
      tokens := s.pushTok ⟨.primitive, s.pos, some (s.pos + (a :: cs).length), 0, s.toksuper⟩ } := by
    simp only [parsePrimitive, hread, ok_bind, hprim, Bool.false_eq_true, if_false, hscan,
      allocToken_eq (show s.tokens.length < num by omega), growSuper_eq hready.lt]
    rfl
  have hstep : ∀ num' (s₀ : Jsmn), s₀.step num' js a =
      (s₀.parsePrimitive num' js).bind fun s => .ok (s, 1) := by
    intro num' s₀
    simp only [step, startsPrimitive_ne ha (show startsPrimitive 0x7B = false from rfl),
      startsPrimitive_ne ha (show startsPrimitive 0x5B = false from rfl),
      startsPrimitive_ne ha (show startsPrimitive 0x7D = false from rfl),
      startsPrimitive_ne ha (show startsPrimitive 0x5D = false from rfl),
      startsPrimitive_ne ha (show startsPrimitive 0x22 = false from rfl), hblank,
      startsPrimitive_ne ha (show startsPrimitive 0x3A = false from rfl),
      startsPrimitive_ne ha (show startsPrimitive 0x2C = false from rfl), ha, or_self, if_false,
      if_true, Bool.false_eq_true]
    rfl
  have hstep₁ := hstep (some num) s
  rw [hparse] at hstep₁
  refine goes_step h (startsPrimitive_ne ha rfl) hstep₁
    (fun s₀ h₀ => ⟨{ s₀ with pos := s.pos + (a :: cs).length - 1 }, ?_, rfl⟩) length_pushTok (by simp)
  rw [hstep, parsePrimitive, h₀, hscan]
  rfl

theorem goes_string (hsup : ∀ i, s.toksuper = some i → i < s.tokens.length) (htext : StrText text)
    (h : js.drop s.pos = 0x22 :: (text ++ 0x22 :: rest)) (hnum : s.tokens.length + 1 ≤ num) :
    Goes num js s { s with
      pos := s.pos + text.length + 2
      tokens := s.pushTok ⟨.string, s.pos + 1, some (s.pos + 1 + text.length), 0, s.toksuper⟩ } := by
  have hscan : scanString .plain (js.drop (s.pos + 1)) (s.pos + 1) =
      .ok (s.pos + 1 + text.length) := by
    rw [drop_succ h, scanString_text htext]
  have hparse : s.parseString (some num) js = .ok { s with
      pos := s.pos + 1 + text.length
      tokens := s.pushTok ⟨.string, s.pos + 1, some (s.pos + 1 + text.length), 0, s.toksuper⟩ } := by
    simp only [parseString, hscan, ok_bind, allocToken_eq (show s.tokens.length < num by omega),
      growSuper_eq hsup]
    rfl
  have hstep : s.step (some num) js 0x22 =
      (s.parseString (some num) js).bind fun s => .ok (s, 1) := rfl
  have hcount : ∀ s₀ : Jsmn, s₀.pos = s.pos → s₀.step none js 0x22 =
      .ok ({ s₀ with pos := s.pos + 1 + text.length }, 1) := by
    intro s₀ h₀
    rw [show s₀.step none js 0x22 = (s₀.parseString none js).bind fun s => .ok (s, 1) from rfl,
      parseString, h₀, hscan]
    rfl
  rw [hparse] at hstep
  have hgo := goes_step h (by decide) hstep (fun s₀ h₀ => ⟨_, hcount s₀ h₀, rfl⟩) length_pushTok
    (by simp only; omega)
  rwa [show s.pos + 1 + text.length + 1 = s.pos + text.length + 2 by omega] at hgo

theorem goes_colon (num : Nat) (h : js.drop s.pos = 0x3A :: rest) :
    Goes num js s { s with pos := s.pos + 1, toksuper := s.lastTok } := by
  have hstep : s.step (some num) js 0x3A = .ok ({ s with toksuper := s.lastTok }, 0) := rfl
  exact goes_step h (by decide) hstep
    (fun s₀ h₀ => ⟨{ s₀ with toksuper := s₀.lastTok }, rfl, h₀⟩) rfl le_rfl

/-- In an array a comma changes nothing. -/
theorem goes_comma_array (hready : ReadyIn s .array) (h : js.drop s.pos = 0x2C :: rest) :
    Goes num js s { s with pos := s.pos + 1 } := by
  obtain ⟨i, t, hi, ht, htype⟩ := hready
  have hcomma : s.comma = .ok s := by
    simp [comma, Jsmn.readSuper, hi, readTok, ht, htype, ok_bind]
    rfl
  have hstep : s.step (some num) js 0x2C = s.comma.bind fun s => .ok (s, 0) := rfl
  rw [hcomma] at hstep
  exact goes_step h (by decide) hstep (fun s₀ h₀ => ⟨s₀, rfl, h₀⟩) rfl le_rfl

/-- Behind the value of a key it goes back to the object. -/
theorem goes_comma_key (hi : s.toksuper = some i) (ht : s.tokens[i]? = some t)
    (htype : t.type = .string) (h : js.drop s.pos = 0x2C :: rest) :
    Goes num js s { s with pos := s.pos + 1, toksuper := t.parent } := by
  have hcomma : s.comma = .ok { s with toksuper := t.parent } := by
    simp [comma, Jsmn.readSuper, hi, readTok, ht, htype, ok_bind]
    rfl
  have hstep : s.step (some num) js 0x2C = s.comma.bind fun s => .ok (s, 0) := rfl
  rw [hcomma] at hstep
  exact goes_step h (by decide) hstep (fun s₀ h₀ => ⟨s₀, rfl, h₀⟩) rfl le_rfl

/-! ## Objects and arrays -/

theorem goes_open (hready : ReadyVal s) (hc : c = 0x7B ∨ c = 0x5B) (h : js.drop s.pos = c :: rest)
    (hnum : s.tokens.length + 1 ≤ num) :
    Goes num js s
      ⟨s.pos + 1, some s.tokens.length, s.pushTok ⟨bracketType c, s.pos, none, 0, s.toksuper⟩⟩ := by
  obtain ⟨super, hread, hobj, -⟩ := hready.readSuper
  have hopen : s.openToken num (bracketType c) = .ok ⟨s.pos, some s.tokens.length,
      s.pushTok ⟨bracketType c, s.pos, none, 0, s.toksuper⟩⟩ := by
    simp only [openToken, allocToken_eq (show s.tokens.length < num by omega), hread, ok_bind, hobj,
      Bool.false_eq_true, if_false, growSuper_eq hready.lt]
    simp [lastTok, pure, Except.pure]
  have hstep : s.step (some num) js c =
      (s.openToken num (bracketType c)).bind fun s => .ok (s, 1) := by
    simp only [step, hc, if_true]
    rfl
  rw [hopen] at hstep
  refine goes_step h ?_ hstep (fun s₀ h₀ => ⟨s₀, ?_, h₀⟩) length_pushTok le_rfl
  · rcases hc with rfl | rfl <;> decide
  · simp only [step, hc, if_true]

/-- From a token below the open one that is looked for, up to it.  Strong induction on the token,
as parents come first. -/
theorem closeFrom_up (ht : s.tokens[i]? = some t) (hopen : t.isOpen = true)
    (hup : ∀ k u, i < k → s.tokens[k]? = some u →
      u.isOpen = false ∧ ∃ p, u.parent = some p ∧ i ≤ p ∧ p < k)
    {fuel k : Nat} (hik : i ≤ k) (hk : k < s.tokens.length) (hfuel : k < fuel) :
    s.closeFrom t.type fuel k = .ok { s with
      tokens := s.tokens.set i { t with stop := some (s.pos + 1) }
      toksuper := t.parent } := by
  induction fuel generalizing k with
  | zero => omega
  | succ fuel ih =>
    rcases Nat.lt_or_eq_of_le hik with hlt | rfl
    · obtain ⟨u, hu⟩ : ∃ u, s.tokens[k]? = some u := ⟨_, List.getElem?_eq_getElem hk⟩
      obtain ⟨hclosed, p, hp, hip, hpk⟩ := hup k u hlt hu
      simp only [closeFrom, readTok, hu, ok_bind, hclosed, Bool.false_eq_true, if_false, hp]
      exact ih hip (by omega) (by omega)
    · simp only [closeFrom, readTok, ht, ok_bind, hopen, if_true, ne_eq, not_true_eq_false, if_false]
      rfl

theorem goes_close (hc : c = 0x7D ∨ c = 0x5D) (h : js.drop s.pos = c :: rest)
    (ht : s.tokens[i]? = some t) (hopen : t.isOpen = true) (htype : t.type = bracketType c)
    (hup : ∀ k u, i < k → s.tokens[k]? = some u →
      u.isOpen = false ∧ ∃ p, u.parent = some p ∧ i ≤ p ∧ p < k) :
    Goes num js s ⟨s.pos + 1, t.parent, s.tokens.set i { t with stop := some (s.pos + 1) }⟩ := by
  have hi := (List.getElem?_eq_some_iff.1 ht).1
  have hclose : s.closeToken (bracketType c) = .ok { s with
      tokens := s.tokens.set i { t with stop := some (s.pos + 1) }
      toksuper := t.parent } := by
    rw [closeToken, lastTok, if_neg (by omega), ← htype]
    exact closeFrom_up ht hopen hup (by omega) (by omega) (by omega)
  have hstep : s.step (some num) js c =
      (s.closeToken (bracketType c)).bind fun s => .ok (s, 0) := by
    rcases hc with rfl | rfl <;> rfl
  rw [hclose] at hstep
  refine goes_step h ?_ hstep (fun s₀ h₀ => ⟨s₀, ?_, h₀⟩) (List.length_set ..) le_rfl
  · rcases hc with rfl | rfl <;> decide
  · rcases hc with rfl | rfl <;> rfl

/-- What a text writes: tokens behind the others that represent it. -/
structure Written (js : List UInt8) (d : Doc) (s s' : Jsmn) : Prop where
  grows : Grows s.toksuper s.tokens.length s.tokens s'.tokens
  reps : Reps js s'.tokens d s.toksuper s.tokens.length s'.tokens.length

/-- The parser goes on over `text`, if there is room, and writes what represents `d`. -/
def Writes (js : List UInt8) (d : Doc) (text : CStr) (s s' : Jsmn) : Prop :=
  s'.pos = s.pos + text.length ∧ Written js d s s' ∧
    ∀ num, s'.tokens.length ≤ num → Goes num js s s'

/-- What closing does to the tokens. -/
theorem kept_close (ht : toks[i]? = some t) (hopen : t.isOpen = true) (stop : Option Nat) :
    Kept toks (toks.set i { t with stop := stop }) := by
  intro k u hu
  have hi := (List.getElem?_eq_some_iff.1 ht).1
  by_cases hik : i = k
  · subst hik
    obtain rfl := Option.some.inj (ht.symm.trans hu)
    exact ⟨_, List.getElem?_set_self hi, rfl, rfl, rfl, fun hclosed => by simp [hopen] at hclosed⟩
  · exact ⟨u, by rwa [List.getElem?_set_ne hik], rfl, rfl, rfl, fun _ => rfl⟩

/-- An object or array, with what is between its brackets. -/
theorem goes_container {c' : UInt8} (hready : ReadyVal s) (hc : c = 0x7B ∨ c = 0x5B)
    (hc' : c' = 0x7D ∨ c' = 0x5D) (htype : bracketType c' = bracketType c)
    (h : js.drop s.pos = c :: (text ++ c' :: rest))
    (hin : ∀ s₁ : Jsmn, s₁.pos = s.pos + 1 → s₁.toksuper = some s.tokens.length →
      s₁.tokens = s.pushTok ⟨bracketType c, s.pos, none, 0, s.toksuper⟩ →
      ∃ s₂, Writes js d text s₁ s₂) :
    ∃ s', s'.pos = s.pos + (text.length + 2) ∧ s'.toksuper = s.toksuper ∧
      Grows s.toksuper s.tokens.length s.tokens s'.tokens ∧
      IsTok s'.tokens s.tokens.length (bracketType c) s.toksuper ∧
      Reps js s'.tokens d (some s.tokens.length) (s.tokens.length + 1) s'.tokens.length ∧
      ∀ num, s'.tokens.length ≤ num → Goes num js s s' := by
  obtain ⟨s₂, hpos₂, hw₂, hgoes₂⟩ := hin ⟨s.pos + 1, some s.tokens.length,
    s.pushTok ⟨bracketType c, s.pos, none, 0, s.toksuper⟩⟩ rfl rfl rfl
  have hgrows := hw₂.grows
  have hreps := hw₂.reps
  simp only [length_pushTok] at hpos₂ hgrows hreps
  -- the container, as it was opened, and as it is when it is closed
  have hget := getElem?_pushTok_last (t := ⟨bracketType c, s.pos, none, 0, s.toksuper⟩) hready.lt
  obtain ⟨t₂, ht₂, htype₂, -, hparent₂, -⟩ := hgrows.kept _ _ hget
  have hopen₂ : t₂.isOpen = true := by
    rw [JsmnTok.isOpen, hgrows.stops _ _ _ hget ht₂]
    rfl
  have hup : ∀ k u, s.tokens.length < k → s₂.tokens[k]? = some u →
      u.isOpen = false ∧ ∃ p, u.parent = some p ∧ s.tokens.length ≤ p ∧ p < k := by
    intro k u hk hu
    obtain ⟨hclosed, hparent⟩ := hgrows.new k u (by rw [length_pushTok]; omega) hu
    refine ⟨hclosed, ?_⟩
    rcases hparent with hp | ⟨p, hp, hle, hlt⟩
    · exact ⟨_, hp, le_rfl, hk⟩
    · exact ⟨p, hp, by omega, hlt⟩
  have hkept := kept_close ht₂ hopen₂ (some (s₂.pos + 1))
  have hlen := hgrows.kept.length_le
  rw [length_pushTok] at hlen
  refine ⟨⟨s₂.pos + 1, t₂.parent,
      s₂.tokens.set s.tokens.length { t₂ with stop := some (s₂.pos + 1) }⟩,
    by simp only [hpos₂]; omega, hparent₂, ⟨?_, ?_, ?_⟩, ?_, ?_, ?_⟩
  · exact (kept_pushTok.trans hgrows.kept).trans hkept
  · intro k u u' hu hu'
    have hk := (List.getElem?_eq_some_iff.1 hu).1
    rw [List.getElem?_set_ne (by omega)] at hu'
    obtain ⟨v, hv, -⟩ := kept_pushTok (t := ⟨bracketType c, s.pos, none, 0, s.toksuper⟩) k u hu
    rw [hgrows.stops k v u' hv hu']
    rw [getElem?_pushTok hk, hu] at hv
    obtain rfl := Option.some.inj hv
    rfl
  · intro k u hk hu
    rcases Nat.lt_or_eq_of_le hk with hlt | rfl
    · rw [List.getElem?_set_ne (by omega)] at hu
      obtain ⟨hclosed, hparent⟩ := hup k u hlt hu
      exact ⟨hclosed, Or.inr hparent⟩
    · rw [List.getElem?_set_self (by omega)] at hu
      obtain rfl := Option.some.inj hu
      exact ⟨rfl, Or.inl hparent₂⟩
  · exact IsTok.mono ⟨t₂, ht₂, htype₂, hparent₂⟩ hkept
  · simpa using hreps.mono hkept
  · intro num hnum
    rw [List.length_set] at hnum
    have hdrop : js.drop s₂.pos = c' :: rest := by
      rw [hpos₂]
      exact drop_add (drop_succ h)
    exact ((goes_open hready hc h (by omega)).trans (hgoes₂ num hnum)).trans
      (goes_close hc' hdrop ht₂ hopen₂ (htype₂.trans htype.symm) hup)

/-! ## A whole text -/

/-- Where a text may come. -/
def Ready : Doc → Jsmn → Prop
  | .val _, s => ReadyVal s
  | .elems _, s => ReadyIn s .array
  | .members _, s => ReadyIn s .object

/-- A primitive needs something behind it. -/
def Follows : Doc → CStr → Prop
  | .val (.prim _), rest => ∃ c cs, rest = c :: cs ∧ endsPrimitive c
  | .val _, _ => True
  | _, rest => ∃ c cs, rest = c :: cs ∧ endsPrimitive c

/-- Only behind the members of an object is the next token not put where it was before. -/
def SuperKept : Doc → Jsmn → Jsmn → Prop
  | .members _, _, _ => True
  | _, s, s' => s'.toksuper = s.toksuper

theorem follows_blanks {v : JsonVal} (hw : Blanks w)
    (h : ∃ c cs, rest = c :: cs ∧ endsPrimitive c) : Follows (.val v) (w ++ rest) := by
  have hends : ∃ c cs, w ++ rest = c :: cs ∧ endsPrimitive c := by
    cases w with
    | nil => exact h
    | cons c w => exact ⟨c, w ++ rest, rfl, by simp [endsPrimitive, hw c List.mem_cons_self]⟩
  cases v <;> first | exact hends | trivial

/-- What a value with this text does, wherever it may come. -/
def ValWrites (js : List UInt8) (v : JsonVal) (t : CStr) : Prop :=
  ∀ (s : Jsmn) (rest : CStr), js.drop s.pos = t ++ rest → ReadyVal s → Follows (.val v) rest →
    ∃ s', Writes js (.val v) t s s' ∧ s'.toksuper = s.toksuper

/-- A value between blanks. -/
theorem writes_spaced {v : JsonVal} {t w' : CStr} (hw : Blanks w) (hw' : Blanks w')
    (hval : ValWrites js v t) (hdrop : js.drop s.pos = w ++ (t ++ (w' ++ rest)))
    (hready : ReadyVal s) (hends : ∃ c cs, rest = c :: cs ∧ endsPrimitive c) :
    ∃ s', Writes js (.val v) (w ++ (t ++ w')) s s' ∧ s'.toksuper = s.toksuper := by
  obtain ⟨s₁, ⟨hpos, hwritten, hgoes⟩, hsup⟩ :=
    hval { s with pos := s.pos + w.length } (w' ++ rest) (drop_add hdrop) hready
      (follows_blanks hw' hends)
  refine ⟨{ s₁ with pos := s₁.pos + w'.length }, ⟨?_, ⟨hwritten.grows, hwritten.reps⟩,
    fun num hnum => ?_⟩, hsup⟩
  · simp only [hpos, List.length_append]
    omega
  · have hdrop₁ : js.drop s₁.pos = w' ++ rest := by
      rw [hpos]
      exact drop_add (drop_add hdrop)
    exact ((goes_blanks num hw hdrop).trans (hgoes num hnum)).trans (goes_blanks num hw' hdrop₁)

/-- A key and its colon: the value is put below the key. -/
theorem goes_key {key w' : CStr} (hw : Blanks w) (hkey : StrText key) (hw' : Blanks w')
    (hdrop : js.drop s.pos = w ++ (0x22 :: (key ++ 0x22 :: (w' ++ 0x3A :: rest))))
    (hready : ReadyIn s .object) :
    ∃ s₁ : Jsmn, s₁.pos = s.pos + (w.length + key.length + w'.length + 3) ∧
      s₁.toksuper = some s.tokens.length ∧ s₁.tokens.length = s.tokens.length + 1 ∧
      Grows s.toksuper s.tokens.length s.tokens s₁.tokens ∧
      IsLeaf js s₁.tokens s.tokens.length .string s.toksuper key ∧ ReadyVal s₁ ∧
      ∀ num, s₁.tokens.length ≤ num → Goes num js s s₁ := by
  have hquote := drop_add hdrop
  obtain ⟨u, hu⟩ : ∃ u : JsmnTok, u = ⟨.string, s.pos + w.length + 1,
    some (s.pos + w.length + 1 + key.length), 0, s.toksuper⟩ := ⟨_, rfl⟩
  have hlast : (s.pushTok u)[s.tokens.length]? = some u := getElem?_pushTok_last hready.lt
  have hcolon : js.drop (s.pos + w.length + key.length + 2) = w' ++ 0x3A :: rest := by
    have := drop_add (w := 0x22 :: (key ++ [0x22]))
      (by simpa using hquote)
    simpa [Nat.add_assoc] using this
  refine ⟨⟨s.pos + w.length + key.length + 2 + w'.length + 1, some s.tokens.length, s.pushTok u⟩,
    by simp only; omega, rfl, length_pushTok,
    grows_pushTok hready.lt (by rw [hu]) (by rw [hu]; rfl), ⟨u, hlast, ?_⟩, ?_, ?_⟩
  · subst hu
    refine ⟨rfl, rfl, rfl, ?_⟩
    simp [tokText, drop_succ hquote]
  · intro i hi
    obtain rfl := Option.some.inj hi
    exact ⟨u, hlast, Or.inr (by simp [hu])⟩
  · intro num hnum
    simp only [length_pushTok] at hnum
    have hstr := goes_string (s := { s with pos := s.pos + w.length }) hready.lt hkey hquote hnum
    have hblanks := goes_blanks num
      (s := ⟨s.pos + w.length + key.length + 2, s.toksuper, s.pushTok u⟩) hw' hcolon
    have hgo := goes_colon num
      (s := ⟨s.pos + w.length + key.length + 2 + w'.length, s.toksuper, s.pushTok u⟩)
      (drop_add hcolon)
    have hlt : (Jsmn.mk (s.pos + w.length + key.length + 2 + w'.length) s.toksuper
        (s.pushTok u)).lastTok = some s.tokens.length := by
      simp [lastTok]
    rw [hlt] at hgo
    rw [← hu] at hstr
    exact (((goes_blanks num hw hdrop).trans hstr).trans hblanks).trans hgo

/-- A member. -/
theorem writes_member {key w' w₁ t w₂ : CStr} {v : JsonVal} (hw : Blanks w) (hkey : StrText key)
    (hw' : Blanks w') (hw₁ : Blanks w₁) (hw₂ : Blanks w₂) (hval : ValWrites js v t)
    (hdrop : js.drop s.pos =
      w ++ (0x22 :: (key ++ 0x22 :: (w' ++ 0x3A :: (w₁ ++ (t ++ (w₂ ++ rest)))))))
    (hready : ReadyIn s .object) (hends : ∃ c cs, rest = c :: cs ∧ endsPrimitive c) :
    ∃ s', s'.toksuper = some s.tokens.length ∧
      IsLeaf js s'.tokens s.tokens.length .string s.toksuper key ∧
      Writes js (.members [(key, v)])
        (w ++ (0x22 :: (key ++ 0x22 :: (w' ++ 0x3A :: (w₁ ++ (t ++ w₂)))))) s s' := by
  obtain ⟨s₁, hpos₁, hsup₁, hlen₁, hgrows₁, hleaf, hready₁, hgoes₁⟩ :=
    goes_key hw hkey hw' hdrop hready
  have hdrop₁ : js.drop s₁.pos = w₁ ++ (t ++ (w₂ ++ rest)) := by
    have := drop_add (w := w ++ (0x22 :: (key ++ 0x22 :: (w' ++ [0x3A])))) (by simpa using hdrop)
    rw [hpos₁]
    simpa [Nat.add_assoc, Nat.add_left_comm, Nat.add_comm] using this
  obtain ⟨s₂, ⟨hpos₂, hw₂', hgoes₂⟩, hsup₂⟩ := writes_spaced hw₁ hw₂ hval hdrop₁ hready₁ hends
  have hkept := hw₂'.grows.kept
  refine ⟨s₂, hsup₂.trans hsup₁, hleaf.mono hkept, ?_, ⟨?_, ?_⟩, fun num hnum => ?_⟩
  · simp only [hpos₂, hpos₁, List.length_append, List.length_cons]
    omega
  · refine hgrows₁.trans hw₂'.grows (by omega) (Or.inr ⟨_, hsup₁, le_rfl, by omega⟩)
  · have hreps := hw₂'.reps
    rw [hsup₁, hlen₁] at hreps
    exact .membersCons (hleaf.mono hkept) hreps .membersNil
  · have := hkept.length_le
    exact (hgoes₁ num (by omega)).trans (hgoes₂ num hnum)

/-- **A text is read from its first character to its last, and what is written represents it.**
Induction on the text. -/
theorem writes_text (h : Text d text) (hdrop : js.drop s.pos = text ++ rest) (hready : Ready d s)
    (hrest : Follows d rest) : ∃ s', Writes js d text s s' ∧ SuperKept d s s' := by
  induction h generalizing s rest with
  | @prim text htext =>
    obtain ⟨c, cs, rfl, hc⟩ := hrest
    refine ⟨_, ⟨rfl, ⟨grows_pushTok (t := ⟨.primitive, s.pos, some (s.pos + text.length), 0,
      s.toksuper⟩) hready.lt rfl rfl, ?_⟩, fun num hnum =>
        goes_primitive hready htext hc hdrop (by simpa using hnum)⟩, rfl⟩
    simp only [length_pushTok]
    refine .prim ⟨_, getElem?_pushTok_last hready.lt, rfl, rfl, rfl, ?_⟩
    simp [tokText, hdrop]
  | @str text htext =>
    rw [List.cons_append, List.append_assoc, List.singleton_append] at hdrop
    refine ⟨_, ⟨?_, ⟨grows_pushTok (t := ⟨.string, s.pos + 1, some (s.pos + 1 + text.length), 0,
      s.toksuper⟩) hready.lt rfl rfl, ?_⟩, fun num hnum =>
        goes_string hready.lt htext hdrop (by simpa using hnum)⟩, rfl⟩
    · simp only [List.length_cons, List.length_append, List.length_nil]
      omega
    · simp only [length_pushTok]
      refine .str ⟨_, getElem?_pushTok_last hready.lt, rfl, rfl, rfl, ?_⟩
      simp [tokText, drop_succ hdrop]
  | @arrNil w hw =>
    rw [List.cons_append, List.append_assoc, List.singleton_append] at hdrop
    obtain ⟨s', hpos, hsup, hgrows, htok, hreps, hgoes⟩ := goes_container (d := .elems []) hready
      (Or.inr rfl) (Or.inr rfl) rfl hdrop fun s₁ hpos₁ hsup₁ htoks₁ => by
        refine ⟨{ s₁ with pos := s₁.pos + w.length }, rfl, ⟨.refl, .elemsNil⟩, fun num hnum =>
          goes_blanks num hw (by rw [hpos₁, drop_succ hdrop])⟩
    refine ⟨s', ⟨by simpa using hpos, ⟨hgrows, .arr htok hreps⟩, hgoes⟩, hsup⟩
  | @arr vs t _ ih =>
    rw [List.cons_append, List.append_assoc, List.singleton_append] at hdrop
    obtain ⟨s', hpos, hsup, hgrows, htok, hreps, hgoes⟩ := goes_container (d := .elems vs) hready
      (Or.inr rfl) (Or.inr rfl) rfl hdrop fun s₁ hpos₁ hsup₁ htoks₁ => by
        obtain ⟨s₂, hs₂, -⟩ := ih (s := s₁) (by rw [hpos₁, drop_succ hdrop])
          ⟨_, _, hsup₁, by rw [htoks₁]; exact getElem?_pushTok_last hready.lt, rfl⟩ ⟨_, _, rfl, rfl⟩
        exact ⟨s₂, hs₂⟩
    exact ⟨s', ⟨by simpa using hpos, ⟨hgrows, .arr htok hreps⟩, hgoes⟩, hsup⟩
  | @objNil w hw =>
    rw [List.cons_append, List.append_assoc, List.singleton_append] at hdrop
    obtain ⟨s', hpos, hsup, hgrows, htok, hreps, hgoes⟩ := goes_container (d := .members []) hready
      (Or.inl rfl) (Or.inl rfl) rfl hdrop fun s₁ hpos₁ hsup₁ htoks₁ => by
        refine ⟨{ s₁ with pos := s₁.pos + w.length }, rfl, ⟨.refl, .membersNil⟩, fun num hnum =>
          goes_blanks num hw (by rw [hpos₁, drop_succ hdrop])⟩
    exact ⟨s', ⟨by simpa using hpos, ⟨hgrows, .obj htok hreps⟩, hgoes⟩, hsup⟩
  | @obj ms t _ ih =>
    rw [List.cons_append, List.append_assoc, List.singleton_append] at hdrop
    obtain ⟨s', hpos, hsup, hgrows, htok, hreps, hgoes⟩ := goes_container (d := .members ms) hready
      (Or.inl rfl) (Or.inl rfl) rfl hdrop fun s₁ hpos₁ hsup₁ htoks₁ => by
        obtain ⟨s₂, hs₂, -⟩ := ih (s := s₁) (by rw [hpos₁, drop_succ hdrop])
          ⟨_, _, hsup₁, by rw [htoks₁]; exact getElem?_pushTok_last hready.lt, rfl⟩ ⟨_, _, rfl, rfl⟩
        exact ⟨s₂, hs₂⟩
    exact ⟨s', ⟨by simpa using hpos, ⟨hgrows, .obj htok hreps⟩, hgoes⟩, hsup⟩
  | @elem v w t w' hw _ hw' ih =>
    obtain ⟨s', ⟨hpos, hwritten, hgoes⟩, hsup⟩ := 
      writes_spaced hw hw' (fun s rest h hr hf => ih h hr hf) (by simpa using hdrop)
        hready.readyVal hrest
    exact ⟨s', ⟨hpos, ⟨hwritten.grows, .elemsCons hwritten.reps .elemsNil⟩, hgoes⟩, hsup⟩
  | @elems v vs w t w' ts hw _ hw' _ ih ihs =>
    obtain ⟨s₁, ⟨hpos₁, hw₁, hgoes₁⟩, hsup₁⟩ := writes_spaced hw hw'
      (fun s rest h hr hf => ih h hr hf)
      (show js.drop s.pos = w ++ (t ++ (w' ++ 0x2C :: (ts ++ rest))) by simpa using hdrop)
      hready.readyVal ⟨_, _, rfl, rfl⟩
    have hdrop₁ : js.drop s₁.pos = 0x2C :: (ts ++ rest) := by
      rw [hpos₁]
      exact drop_add (by simpa using hdrop)
    have hready₁ : ReadyIn s₁ .array := hready.mono hw₁.grows.kept hsup₁
    obtain ⟨s₂, ⟨hpos₂, hw₂, hgoes₂⟩, hsup₂⟩ := ihs (s := { s₁ with pos := s₁.pos + 1 })
      (drop_succ hdrop₁) hready₁ hrest
    refine ⟨s₂, ⟨?_, ⟨?_, ?_⟩, fun num hnum => ?_⟩, hsup₂.trans hsup₁⟩
    · simp only [hpos₂, hpos₁, List.length_append, List.length_cons]
      omega
    · exact hw₁.grows.trans hw₂.grows hw₁.grows.kept.length_le (Or.inl hsup₁)
    · have hreps := hw₂.reps
      rw [hsup₁] at hreps
      exact .elemsCons (hw₁.reps.mono hw₂.grows.kept) hreps
    · have := hw₂.grows.kept.length_le
      exact ((hgoes₁ num (by simp only at this; omega)).trans
        (goes_comma_array hready₁ hdrop₁)).trans (hgoes₂ num hnum)
  | @member key v w w' w₁ t w₂ hw hkey hw' hw₁ _ hw₂ ih =>
    obtain ⟨s', -, -, hs'⟩ := writes_member hw hkey hw' hw₁ hw₂ (fun s rest h hr hf => ih h hr hf)
      (by simpa using hdrop) hready hrest
    exact ⟨s', hs', trivial⟩
  | @members key v ms w w' w₁ t w₂ ts hw hkey hw' hw₁ _ hw₂ _ ih ihs =>
    obtain ⟨s₁, hsup₁, ⟨u, hu, htype, hparent, -⟩, hpos₁, hwr₁, hgoes₁⟩ :=
      writes_member hw hkey hw' hw₁ hw₂ (fun s rest h hr hf => ih h hr hf)
        (show js.drop s.pos = w ++ (0x22 :: (key ++ 0x22 :: (w' ++ 0x3A ::
          (w₁ ++ (t ++ (w₂ ++ 0x2C :: (ts ++ rest))))))) by simpa using hdrop)
        hready ⟨_, _, rfl, rfl⟩
    have hdrop₁ : js.drop s₁.pos = 0x2C :: (ts ++ rest) := by
      rw [hpos₁]
      exact drop_add (by simpa using hdrop)
    obtain ⟨s₂, ⟨hpos₂, hwr₂, hgoes₂⟩, -⟩ :=
      ihs (s := { s₁ with pos := s₁.pos + 1, toksuper := u.parent }) (drop_succ hdrop₁)
        (hready.mono hwr₁.grows.kept hparent) hrest
    refine ⟨s₂, ⟨?_, ⟨?_, ?_⟩, fun num hnum => ?_⟩, trivial⟩
    · simp only [hpos₂, hpos₁, List.length_append, List.length_cons]
      omega
    · exact hwr₁.grows.trans hwr₂.grows hwr₁.grows.kept.length_le (Or.inl hparent)
    · have hreps := hwr₂.reps
      simp only [hparent] at hreps
      obtain ⟨m, hleaf, hval, hnil⟩ := hwr₁.reps.members
      cases hnil
      exact .membersCons (hleaf.mono hwr₂.grows.kept) (hval.mono hwr₂.grows.kept) hreps
    · have := hwr₂.grows.kept.length_le
      exact ((hgoes₁ num (by simp only at this; omega)).trans
        (goes_comma_key hsup₁ hu htype hdrop₁)).trans (hgoes₂ num hnum)

/-! ## The two passes -/

/-- A text that is read to its end.  Induction from the end. -/
theorem loop_of_goes (h : Goes num js s s') (hend : js.length ≤ s'.pos) {fuel : Nat}
    (hfuel : js.length - s.pos ≤ fuel) :
    loop (some num) js fuel s s.tokens.length = .ok (s', s'.tokens.length) ∧
      ∀ s₀ : Jsmn, s₀.pos = s.pos →
        ∃ s₀', loop none js fuel s₀ s.tokens.length = .ok (s₀', s'.tokens.length) := by
  induction h using Relation.ReflTransGen.head_induction_on generalizing fuel with
  | refl =>
    have hnone : js[s'.pos]? = none := List.getElem?_eq_none hend
    cases fuel with
    | zero => exact ⟨rfl, fun s₀ _ => ⟨s₀, rfl⟩⟩
    | succ fuel =>
      refine ⟨by simp only [loop, hnone], fun s₀ h₀ => ⟨s₀, ?_⟩⟩
      simp only [loop, h₀, hnone]
  | @head s s₁ hnext _ ih =>
    obtain ⟨c, s₂, more, hc, hne, hstep, hcount, hlen, hpos, rfl⟩ := hnext
    have hlt := (List.getElem?_eq_some_iff.1 hc).1
    obtain ⟨fuel, rfl⟩ : ∃ f, fuel = f + 1 := ⟨fuel - 1, by omega⟩
    obtain ⟨hloop, hnone⟩ := @ih fuel (by simp only; omega)
    refine ⟨?_, fun s₀ h₀ => ?_⟩
    · simp only [loop, hc, hne, if_false, hstep, ok_bind, ← hlen]
      exact hloop
    · obtain ⟨s₀', hstep₀, hpos₀⟩ := hcount s₀ h₀
      obtain ⟨s₀'', hloop₀⟩ := hnone { s₀' with pos := s₀'.pos + 1 } (by simp only [hpos₀])
      refine ⟨s₀'', ?_⟩
      simp only [loop, h₀, hc, hne, if_false, hstep₀, ok_bind, ← hlen]
      exact hloop₀

end Jsmn

/-- A value has a token. -/
theorem Reps.lt {v : JsonVal} (h : Reps js toks (.val v) parent k n) : k < n := by
  have hle : ∀ {d parent k n}, Reps js toks d parent k n → k ≤ n := by
    intro d parent k n h
    induction h with
    | prim => exact Nat.le_succ _
    | str => exact Nat.le_succ _
    | arr _ _ ih => omega
    | obj _ _ ih => omega
    | elemsNil => exact le_rfl
    | elemsCons _ _ ih ihs => omega
    | membersNil => exact le_rfl
    | membersCons _ _ _ ih ihs => omega
  cases h with
  | prim => exact Nat.lt_succ_self _
  | str => exact Nat.lt_succ_self _
  | arr _ h => exact hle h
  | obj _ h => exact hle h

/-- **Every text of a value is accepted**, and cut into tokens that represent it; only a number,
`true`, `false` or `null` may not stand alone. -/
theorem jsonParseStart_text {v : JsonVal} {w t w' : CStr} (hw : Blanks w) (ht : Text (.val v) t)
    (hw' : Blanks w') (hv : ∀ text, v ≠ .prim text) :
    ∃ toks, jsonParseStart (w ++ (t ++ w')) = some ⟨w ++ (t ++ w'), toks, 0⟩ ∧
      Jsmn.Accepted (w ++ (t ++ w')) toks ∧
      Reps (w ++ (t ++ w')) toks (.val v) none 0 toks.length := by
  obtain ⟨js, hjs⟩ : ∃ js, js = w ++ (t ++ w') := ⟨_, rfl⟩
  rw [← hjs]
  have hfollows : Jsmn.Follows (.val v) w' := by
    cases v with
    | prim text => exact absurd rfl (hv text)
    | _ => trivial
  have hdrop : js.drop w.length = t ++ w' := by rw [hjs, List.drop_left]
  obtain ⟨s, ⟨hpos, hwritten, hgoes⟩, -⟩ := Jsmn.writes_text (s := ⟨w.length, none, []⟩) ht hdrop
    (fun i hi => by cases hi) hfollows
  simp only at hpos
  have hdrop' : js.drop s.pos = w' ++ [] := by
    rw [hpos, Jsmn.drop_add hdrop, List.append_nil]
  have hlen : js.length = s.pos + w'.length := by
    rw [hpos, hjs, List.length_append, List.length_append]
    omega
  have hall : Jsmn.Goes s.tokens.length js .init { s with pos := s.pos + w'.length } :=
    ((Jsmn.goes_blanks _ hw (s := .init) (by simpa [Jsmn.init] using hjs)).trans
      (by simpa [Jsmn.init] using hgoes _ le_rfl)).trans (Jsmn.goes_blanks _ hw' hdrop')
  obtain ⟨hloop, hcount⟩ := Jsmn.loop_of_goes hall (by simp only; omega)
    (Nat.sub_le js.length _)
  obtain ⟨s₀, hloop₀⟩ := hcount .init rfl
  have htoks₀ : s₀.tokens = [] := ((Jsmn.loop_none js.length 0 .init).of_eq_ok hloop₀).1
  have hopen : s.tokens.any JsmnTok.isOpen = false := by
    rw [List.any_eq_false]
    intro u hu
    obtain ⟨k, hk⟩ := List.mem_iff_getElem?.1 hu
    simp [(hwritten.grows.new k u (Nat.zero_le _) hk).1]
  have hparse₀ : jsmnParse none js = .ok ([], s.tokens.length) := by
    simp only [jsmnParse, Jsmn.init, List.length_nil] at hloop₀ ⊢
    simp only [hloop₀, ok_bind, htoks₀]
    rfl
  have hparse : jsmnParse (some s.tokens.length) js = .ok (s.tokens, s.tokens.length) := by
    simp only [jsmnParse, Jsmn.init, List.length_nil] at hloop ⊢
    simp only [hloop, ok_bind, hopen]
    rfl
  have hlt := hwritten.reps.lt
  refine ⟨s.tokens, ?_, ?_, hwritten.reps⟩
  · simp only [jsonParseStart, hparse₀, if_neg (show ¬ s.tokens.length = 0 by omega), hparse]
  · have hspec := ((Jsmn.jsmnParse_spec js).of_eq_ok hparse₀).of_eq_ok hparse
    exact hspec.2.2

end NinaHomekit
