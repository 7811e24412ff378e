import NinaHomekit.Json.Jsmn
import NinaHomekit.Lib.Preorder
import NinaHomekit.Lib.Outcome

/-!
# The tokens of any text

The tokenizer on any bytes at all.

* `TokenForest` — what its tokens always are: a forest in preorder, in which every token knows its
  number of children, with all of them in the text.
* `Jsmn.Inv` — the forest grows at the way from a root to the last token.
* `Jsmn.step_spec`, `Jsmn.loop_spec` — **one character and the whole text: nothing is read where
  there is no token, the two passes agree on the number of tokens, and what the second one leaves
  is a forest.**
-/

namespace NinaHomekit

open PreorderForest Outcome Trace

/-- The parent of a token. -/
def parentOf (toks : List JsmnTok) (k : Nat) : Option Nat := toks[k]?.bind (·.parent)

/-- The characters of a token. -/
def tokText (js : List UInt8) (t : JsmnTok) : CStr :=
  (js.drop t.start).take (t.stop.getD 0 - t.start)

/-- A forest in preorder, with the number of children at every token, and in the text. -/
structure TokenForest (js : List UInt8) (toks : List JsmnTok) : Prop where
  order : IsPreorder (parentOf toks) toks.length
  size : ∀ k t, toks[k]? = some t → t.size = (behind (parentOf toks) toks.length k k).length
  span : ∀ t ∈ toks, t.start ≤ js.length ∧ ∀ b, t.stop = some b → t.start ≤ b ∧ b ≤ js.length

/-- The two errors that the code returns for a text. -/
def JsmnError.Refusal (e : JsmnError) : Prop := e = .inval ∨ e = .part

namespace Jsmn

variable {js cs : List UInt8} {s s' : Jsmn} {toks : List JsmnTok} {num i k n pos count fuel : Nat}
  {c : UInt8} {type : JsmnType} {stop : Option Nat} {t : JsmnTok}

/-! ## Where a token ends -/

theorem scanPrimitive_spec (cs : List UInt8) (pos : Nat) :
    Meets JsmnError.Refusal (scanPrimitive cs pos) fun stop =>
      pos ≤ stop ∧ stop ≤ pos + cs.length := by
  induction cs generalizing pos with
  | nil => exact Or.inr rfl
  | cons c cs ih =>
    simp only [scanPrimitive]
    split_ifs
    · exact Or.inr rfl
    · simp
    · exact Or.inl rfl
    · exact (ih (pos + 1)).imp fun stop h => by simp only [List.length_cons]; omega

/-- What starts a primitive is part of it. -/
theorem scanPrimitive_starts (hc : startsPrimitive c) (cs : List UInt8) (pos : Nat) :
    Meets JsmnError.Refusal (scanPrimitive (c :: cs) pos) fun stop =>
      pos < stop ∧ stop ≤ pos + cs.length + 1 := by
  have hend : endsPrimitive c = false := by
    simp only [startsPrimitive, Bool.or_eq_true, Bool.and_eq_true, beq_iff_eq, decide_eq_true_eq]
      at hc
    rcases hc with (((rfl | ⟨hlo, hhi⟩) | rfl) | rfl) | rfl
    · decide
    · simp only [endsPrimitive, isBlank, Bool.or_eq_false_iff, beq_eq_false_iff_ne, ne_eq]
      refine ⟨⟨⟨⟨⟨⟨?_, ?_⟩, ?_⟩, ?_⟩, ?_⟩, ?_⟩, ?_⟩ <;> rintro rfl <;> revert hlo hhi <;> decide
    all_goals decide
  simp only [scanPrimitive, hend, Bool.false_eq_true, if_false]
  split_ifs
  · exact Or.inr rfl
  · exact Or.inl rfl
  · exact (scanPrimitive_spec cs (pos + 1)).imp fun stop h => by omega

theorem scanString_spec (mode : StrMode) (cs : List UInt8) (pos : Nat) :
    Meets JsmnError.Refusal (scanString mode cs pos) fun stop =>
      pos ≤ stop ∧ stop < pos + cs.length := by
  induction cs generalizing mode pos with
  | nil => cases mode <;> exact Or.inr rfl
  | cons c cs ih =>
    have hrec : ∀ mode', Meets JsmnError.Refusal (scanString mode' cs (pos + 1)) fun stop =>
        pos ≤ stop ∧ stop < pos + (c :: cs).length := fun mode' =>
      (ih mode' (pos + 1)).imp fun stop h => by simp only [List.length_cons]; omega
    cases mode with
    | plain =>
      simp only [scanString]
      split_ifs
      · exact Or.inr rfl
      · simp
      · exact hrec _
      · exact hrec _
    | escape =>
      simp only [scanString]
      split_ifs
      · exact hrec _
      · exact hrec _
      · exact Or.inl rfl
    | hex digits =>
      simp only [scanString]
      split_ifs
      · exact Or.inr rfl
      · exact hrec _
      · exact hrec _
      · exact Or.inl rfl

/-! ## The forest -/

/-- What the loop keeps: the tokens so far are a forest, and the next one is put below the last
one, at an ancestor of it, or at the top. -/
structure Inv (js : List UInt8) (s : Jsmn) : Prop where
  forest : TokenForest js s.tokens
  super : ∀ i, s.toksuper = some i → ∃ l, s.tokens.length = l + 1 ∧ Anc (parentOf s.tokens) i l
  start : ∀ t ∈ s.tokens, t.start ≤ s.pos

theorem inv_init : Inv js init := by
  refine ⟨⟨?_, ?_, ?_⟩, ?_, ?_⟩
  · intro k hk
    simp [init] at hk
  all_goals simp [init]

/-- Another position, behind the one before. -/
theorem Inv.setPos (h : Inv js s) (hpos : s.pos ≤ pos) : Inv js { s with pos := pos } :=
  ⟨h.forest, h.super, fun t ht => (h.start t ht).trans hpos⟩

theorem Inv.super_lt (h : Inv js s) (hi : s.toksuper = some i) : i < s.tokens.length := by
  obtain ⟨l, hl, hanc⟩ := h.super i hi
  have := hanc.le h.forest.order (by omega)
  omega

theorem Inv.readSuper (h : Inv js s) :
    s.readSuper = .ok (s.toksuper.bind fun i => s.tokens[i]?) := by
  cases hsup : s.toksuper with
  | none => simp [Jsmn.readSuper, hsup]
  | some i =>
    simp [Jsmn.readSuper, hsup, readTok, List.getElem?_eq_getElem (h.super_lt hsup)]

theorem length_of_lastTok (hi : s.lastTok = some i) : s.tokens.length = i + 1 := by
  unfold lastTok at hi
  split_ifs at hi with hlen
  have := Option.some.inj hi
  omega

/-- A new token, with its parent one child larger. -/
def pushTok (s : Jsmn) (t : JsmnTok) : List JsmnTok :=
  match s.toksuper with
  | none => s.tokens ++ [t]
  | some i => incSize (s.tokens ++ [t]) i

@[simp] theorem length_pushTok : (s.pushTok t).length = s.tokens.length + 1 := by
  unfold pushTok
  split <;> simp [incSize]

theorem getElem?_pushTok (hk : k < s.tokens.length) :
    (s.pushTok t)[k]? = s.tokens[k]?.map fun u =>
      { u with size := u.size + if s.toksuper = some k then 1 else 0 } := by
  cases hsup : s.toksuper with
  | none => simp [pushTok, hsup, List.getElem?_append_left hk]
  | some i =>
    simp only [pushTok, hsup, incSize, List.getElem?_modify, List.getElem?_append_left hk,
      Option.some.injEq]
    split_ifs <;> simp

theorem getElem?_pushTok_last (h : ∀ i, s.toksuper = some i → i < s.tokens.length) :
    (s.pushTok t)[s.tokens.length]? = some t := by
  cases hsup : s.toksuper with
  | none => simp [pushTok, hsup]
  | some i =>
    have hi := h i hsup
    simp [pushTok, hsup, incSize, show i ≠ s.tokens.length by omega]

theorem parentOf_pushTok (hk : k < s.tokens.length) :
    parentOf (s.pushTok t) k = parentOf s.tokens k := by
  simp only [parentOf, getElem?_pushTok hk]
  cases s.tokens[k]? <;> rfl

theorem Inv.parentOf_pushTok_last (h : Inv js s) :
    parentOf (s.pushTok t) s.tokens.length = t.parent := by
  rw [parentOf, getElem?_pushTok_last fun _ => h.super_lt, Option.bind_some]

/-- The new token keeps the forest. -/
theorem Inv.forest_pushTok (h : Inv js s) (hparent : t.parent = s.toksuper) (hsize : t.size = 0)
    (hstart : t.start ≤ js.length) (hstop : ∀ b, t.stop = some b → t.start ≤ b ∧ b ≤ js.length) :
    TokenForest js (s.pushTok t) := by
  refine ⟨?_, ?_, ?_⟩
  · rw [length_pushTok]
    refine h.forest.order.snoc (fun k hk => parentOf_pushTok hk) fun p hp => ?_
    rw [h.parentOf_pushTok_last, hparent] at hp
    exact h.super p hp
  · intro k u hu
    rw [length_pushTok]
    have hk : k < s.tokens.length + 1 := by
      simpa using (List.getElem?_eq_some_iff.1 hu).1
    rcases Nat.lt_or_eq_of_le (Nat.le_of_lt_succ hk) with hlt | rfl
    · rw [behind_snoc (fun k hk => parentOf_pushTok hk) hlt, h.parentOf_pushTok_last, hparent]
      rw [getElem?_pushTok hlt, Option.map_eq_some_iff] at hu
      obtain ⟨v, hv, rfl⟩ := hu
      rw [h.forest.size k v hv]
    · rw [behind_self_new]
      rw [getElem?_pushTok_last fun _ => h.super_lt] at hu
      obtain rfl := Option.some.inj hu
      simpa using hsize
  · intro u hu
    obtain ⟨k, hk⟩ := List.mem_iff_getElem?.1 hu
    have hlt : k < s.tokens.length + 1 := by
      simpa using (List.getElem?_eq_some_iff.1 hk).1
    rcases Nat.lt_or_eq_of_le (Nat.le_of_lt_succ hlt) with hlt | rfl
    · rw [getElem?_pushTok hlt, Option.map_eq_some_iff] at hk
      obtain ⟨v, hv, rfl⟩ := hk
      exact h.forest.span v (List.mem_of_getElem? hv)
    · rw [getElem?_pushTok_last fun _ => h.super_lt] at hk
      obtain rfl := Option.some.inj hk
      exact ⟨hstart, hstop⟩

theorem Inv.pushed (h : Inv js s) (hparent : t.parent = s.toksuper) (hsize : t.size = 0)
    (hstart : t.start ≤ js.length) (hstop : ∀ b, t.stop = some b → t.start ≤ b ∧ b ≤ js.length)
    (hpos : s.pos ≤ pos) (htpos : t.start ≤ pos) :
    Inv js { s with tokens := s.pushTok t, pos := pos } := by
  refine ⟨h.forest_pushTok hparent hsize hstart hstop, fun i hi => ?_, fun u hu => ?_⟩
  · have hp : parentOf (s.pushTok t) s.tokens.length = some i := by
      rw [h.parentOf_pushTok_last, hparent, hi]
    exact ⟨s.tokens.length, length_pushTok, .up hp .refl⟩
  · obtain ⟨k, hk⟩ := List.mem_iff_getElem?.1 hu
    have hlt : k < s.tokens.length + 1 := by
      simpa using (List.getElem?_eq_some_iff.1 hk).1
    rcases Nat.lt_or_eq_of_le (Nat.le_of_lt_succ hlt) with hlt | rfl
    · rw [getElem?_pushTok hlt, Option.map_eq_some_iff] at hk
      obtain ⟨v, hv, rfl⟩ := hk
      exact (h.start v (List.mem_of_getElem? hv)).trans hpos
    · rw [getElem?_pushTok_last fun _ => h.super_lt] at hk
      obtain rfl := Option.some.inj hk
      exact htpos

theorem allocToken_eq (hnum : s.tokens.length < num) {start : Nat} :
    s.allocToken num type start stop =
      .ok { s with tokens := s.tokens ++ [⟨type, start, stop, 0, s.toksuper⟩] } := by
  rw [allocToken, if_neg (by omega)]

theorem growSuper_eq (h : ∀ i, s.toksuper = some i → i < s.tokens.length) :
    growSuper { s with tokens := s.tokens ++ [t] } = .ok { s with tokens := s.pushTok t } := by
  cases hsup : s.toksuper with
  | none => simp [growSuper, pushTok, hsup]
  | some i =>
    have hi := h i hsup
    simp [growSuper, pushTok, hsup, show i < s.tokens.length + 1 by omega]

/-! ## One character -/

theorem openToken_spec (h : Inv js s) (hnum : s.tokens.length < num) (hpos : s.pos ≤ js.length) :
    Meets JsmnError.Refusal (s.openToken num type) fun s' =>
      Inv js s' ∧ s'.tokens.length = s.tokens.length + 1 ∧ s'.pos = s.pos := by
  have hpush := h.pushed (t := ⟨type, s.pos, none, 0, s.toksuper⟩) rfl rfl hpos (by simp) le_rfl
    le_rfl
  simp only [openToken, allocToken_eq hnum, h.readSuper, ok_bind]
  split_ifs
  · exact Or.inl rfl
  · simp only [growSuper_eq fun _ => h.super_lt, ok_bind, meets_pure, length_pushTok, and_true]
    refine ⟨hpush.forest, fun i hi => ?_, hpush.start⟩
    simp only [lastTok, length_pushTok] at hi
    exact ⟨s.tokens.length, length_pushTok, by simp_all; exact .refl⟩

/-- The parents are what they were. -/
theorem parentOf_set {t' : JsmnTok} (hi : toks[i]? = some t) (hparent : t'.parent = t.parent) :
    parentOf (toks.set i t') = parentOf toks := by
  funext k
  have hlt := (List.getElem?_eq_some_iff.1 hi).1
  by_cases hik : i = k
  · subst hik
    rw [parentOf, parentOf, List.getElem?_set_self hlt, hi, Option.bind_some, Option.bind_some,
      hparent]
  · simp [parentOf, List.getElem?_set_ne hik]

/-- A token that is closed keeps the forest. -/
theorem forest_close (h : TokenForest js toks) (hi : toks[i]? = some t) (hstart : t.start ≤ pos)
    (hpos : pos ≤ js.length) : TokenForest js (toks.set i { t with stop := some pos }) := by
  have hlt := (List.getElem?_eq_some_iff.1 hi).1
  have hpar : parentOf (toks.set i { t with stop := some pos }) = parentOf toks :=
    parentOf_set hi rfl
  refine ⟨by rw [hpar, List.length_set]; exact h.order, fun k u hu => ?_, fun u hu => ?_⟩
  · rw [hpar, List.length_set]
    by_cases hik : i = k
    · subst hik
      rw [List.getElem?_set_self hlt] at hu
      obtain rfl := Option.some.inj hu
      exact h.size i t hi
    · exact h.size k u (by rwa [List.getElem?_set_ne hik] at hu)
  · rcases List.mem_or_eq_of_mem_set hu with hmem | rfl
    · exact h.span u hmem
    · exact ⟨hstart.trans hpos, by simp [hstart, hpos]⟩

/-- From the last token up.  Induction on the fuel. -/
theorem closeFrom_spec (h : Inv js s) (hpos : s.pos < js.length) {l : Nat}
    (hl : s.tokens.length = l + 1) (hanc : Anc (parentOf s.tokens) i l) (hfuel : i < fuel) :
    Meets JsmnError.Refusal (s.closeFrom type fuel i) fun s' =>
      Inv js s' ∧ s'.tokens.length = s.tokens.length ∧ s'.pos = s.pos := by
  induction fuel generalizing i with
  | zero => omega
  | succ fuel ih =>
    have hi : i < s.tokens.length := by
      have := hanc.le h.forest.order (by omega)
      omega
    obtain ⟨t, ht⟩ : ∃ t, s.tokens[i]? = some t := ⟨_, List.getElem?_eq_getElem hi⟩
    have hpar : parentOf s.tokens i = t.parent := by simp [parentOf, ht]
    simp only [closeFrom, readTok, ht, ok_bind]
    by_cases hopen : t.isOpen
    · rw [if_pos hopen]
      split_ifs
      · exact Or.inl rfl
      have hstart := h.start t (List.mem_of_getElem? ht)
      refine ⟨⟨forest_close h.forest ht (by omega) (by omega), fun p hp => ?_, fun u hu => ?_⟩,
        by simp, rfl⟩
      · simp only [parentOf_set ht, List.length_set]
        exact ⟨l, hl, .trans (.up (hpar.trans hp) .refl) hanc⟩
      · rcases List.mem_or_eq_of_mem_set hu with hmem | rfl
        · exact h.start u hmem
        · exact hstart
    · rw [if_neg hopen]
      cases hp : t.parent with
      | none =>
        simp only
        split_ifs
        · exact Or.inl rfl
        · exact ⟨h, rfl, rfl⟩
      | some p =>
        have hlt := h.forest.order.parent_lt hi (hpar.trans hp)
        exact ih (.trans (.up (hpar.trans hp) .refl) hanc) (by omega)

theorem closeToken_spec (h : Inv js s) (hpos : s.pos < js.length) :
    Meets JsmnError.Refusal (s.closeToken type) fun s' =>
      Inv js s' ∧ s'.tokens.length = s.tokens.length ∧ s'.pos = s.pos := by
  unfold closeToken
  cases hlast : s.lastTok with
  | none => exact Or.inl rfl
  | some i =>
    have hlen := length_of_lastTok hlast
    exact closeFrom_spec h hpos hlen .refl (by omega)

theorem parseString_spec (h : Inv js s) (hnum : s.tokens.length < num)
    (hpos : s.pos < js.length) :
    Meets JsmnError.Refusal (s.parseString (some num) js) fun s' =>
      Inv js s' ∧ s'.tokens.length = s.tokens.length + 1 ∧
        scanString .plain (js.drop (s.pos + 1)) (s.pos + 1) = .ok s'.pos := by
  have hscan := scanString_spec .plain (js.drop (s.pos + 1)) (s.pos + 1)
  unfold parseString
  cases hstop : scanString .plain (js.drop (s.pos + 1)) (s.pos + 1) with
  | error e => exact hscan.of_eq_error hstop
  | ok stop =>
    have hle := hscan.of_eq_ok hstop
    rw [List.length_drop] at hle
    simp only [ok_bind, allocToken_eq hnum, growSuper_eq fun _ => h.super_lt, meets_pure,
      length_pushTok]
    exact ⟨h.pushed rfl rfl (by simp only; omega) (by simp only [Option.some.injEq]; omega) (by omega)
      (by simp only; omega), trivial, trivial⟩

theorem drop_pos (hc : js[s.pos]? = some c) : js.drop s.pos = c :: js.drop (s.pos + 1) := by
  obtain ⟨hpos, hget⟩ := List.getElem?_eq_some_iff.1 hc
  rw [List.drop_eq_getElem_cons hpos, hget]

theorem parsePrimitive_spec (h : Inv js s) (hnum : s.tokens.length < num)
    (hc : js[s.pos]? = some c) (hstarts : startsPrimitive c) :
    Meets JsmnError.Refusal (s.parsePrimitive (some num) js) fun s' =>
      Inv js s' ∧ s'.tokens.length = s.tokens.length + 1 ∧
        ∃ stop, scanPrimitive (js.drop s.pos) s.pos = .ok stop ∧ s'.pos = stop - 1 := by
  have hpos := (List.getElem?_eq_some_iff.1 hc).1
  have hscan := scanPrimitive_starts hstarts (js.drop (s.pos + 1)) s.pos
  rw [← drop_pos hc] at hscan
  simp only [parsePrimitive, h.readSuper, ok_bind]
  split_ifs
  · exact Or.inl rfl
  · cases hstop : scanPrimitive (js.drop s.pos) s.pos with
    | error e => exact hscan.of_eq_error hstop
    | ok stop =>
      have hle := hscan.of_eq_ok hstop
      rw [List.length_drop] at hle
      simp only [ok_bind, allocToken_eq hnum, growSuper_eq fun _ => h.super_lt, meets_pure,
      length_pushTok]
      refine ⟨h.pushed rfl rfl (by simp only; omega) (by simp only [Option.some.injEq]; omega)
        (by omega) (by simp only; omega), trivial, stop, rfl, rfl⟩

theorem comma_spec (h : Inv js s) :
    Meets JsmnError.Refusal s.comma fun s' =>
      Inv js s' ∧ s'.tokens.length = s.tokens.length ∧ s'.pos = s.pos := by
  simp only [comma, h.readSuper, ok_bind]
  cases hsup : s.toksuper with
  | none => exact ⟨h, rfl, rfl⟩
  | some i =>
    obtain ⟨l, hl, hanc⟩ := h.super i hsup
    have hi := h.super_lt hsup
    simp only [Option.bind_some, List.getElem?_eq_getElem hi]
    split_ifs
    · exact ⟨h, rfl, rfl⟩
    · refine ⟨⟨h.forest, fun p hp => ⟨l, hl, ?_⟩, h.start⟩, rfl, rfl⟩
      exact .trans (.up (by simpa [parentOf, List.getElem?_eq_getElem hi] using hp) .refl) hanc

/-- Without an array there are no tokens, and it is only read on. -/
def ReadsOn (js : List UInt8) (s s' : Jsmn) : Prop :=
  s'.tokens = s.tokens ∧ s.pos ≤ s'.pos ∧ s'.pos < js.length

theorem parseString_none (hpos : s.pos < js.length) :
    Meets JsmnError.Refusal (s.parseString none js) (ReadsOn js s) := by
  refine (scanString_spec .plain (js.drop (s.pos + 1)) (s.pos + 1)).bind fun stop hstop => ?_
  rw [List.length_drop] at hstop
  exact ⟨rfl, by simp only; omega, by simp only; omega⟩

theorem parsePrimitive_none (hc : js[s.pos]? = some c) (hstarts : startsPrimitive c) :
    Meets JsmnError.Refusal (s.parsePrimitive none js) (ReadsOn js s) := by
  have hscan := scanPrimitive_starts hstarts (js.drop (s.pos + 1)) s.pos
  rw [← drop_pos hc] at hscan
  refine hscan.bind fun stop hstop => ?_
  have hpos := (List.getElem?_eq_some_iff.1 hc).1
  rw [List.length_drop] at hstop
  exact ⟨rfl, by simp only; omega, by simp only; omega⟩

theorem step_none (hc : js[s.pos]? = some c) :
    Meets JsmnError.Refusal (s.step none js c) fun r => ReadsOn js s r.1 := by
  have hpos := (List.getElem?_eq_some_iff.1 hc).1
  have hself : ReadsOn js s s := ⟨rfl, le_rfl, hpos⟩
  unfold step
  split_ifs with hopen hclose hquote hblank hcolon hcomma hstarts
  · exact hself
  · exact hself
  · exact (parseString_none hpos).bind fun s' hs' => meets_pure.2 hs'
  · exact hself
  · exact hself
  · exact hself
  · exact (parsePrimitive_none hc hstarts).bind fun s' hs' => meets_pure.2 hs'
  · exact Or.inl rfl

/-- **One character**: with an array that has room for it, the tokens go on being a forest, and
the text is read as far, and as many tokens are counted, as without an array. -/
theorem step_spec {s₀ s₀' : Jsmn} {more : Nat} (h : Inv js s) (hc : js[s.pos]? = some c)
    (hpos₀ : s₀.pos = s.pos) (hstep₀ : s₀.step none js c = .ok (s₀', more))
    (hnum : s.tokens.length + more ≤ num) :
    Meets JsmnError.Refusal (s.step (some num) js c) fun r =>
      Inv js r.1 ∧ r.1.tokens.length = s.tokens.length + more ∧ r.1.pos = s₀'.pos ∧ r.2 = more := by
  obtain ⟨hpos, -⟩ := List.getElem?_eq_some_iff.1 hc
  unfold step at hstep₀ ⊢
  split_ifs at hstep₀ ⊢ with hopen hclose hquote hblank hcolon hcomma hstarts
  · obtain ⟨rfl, rfl⟩ := hstep₀
    refine (openToken_spec h (by omega) (by omega)).bind fun s' hs' => ?_
    exact ⟨hs'.1, hs'.2.1, hs'.2.2.trans hpos₀.symm, rfl⟩
  · obtain ⟨rfl, rfl⟩ := hstep₀
    refine (closeToken_spec h hpos).bind fun s' hs' => ?_
    exact ⟨hs'.1, hs'.2.1, hs'.2.2.trans hpos₀.symm, rfl⟩
  · cases hscan : scanString .plain (js.drop (s.pos + 1)) (s.pos + 1) with
    | error e => simp [parseString, hpos₀, hscan] at hstep₀
    | ok stop =>
      simp only [parseString, hpos₀, hscan, ok_bind] at hstep₀
      obtain ⟨rfl, rfl⟩ := hstep₀
      refine (parseString_spec h (by omega) hpos).bind fun s' hs' => ?_
      rw [hscan] at hs'
      exact ⟨hs'.1, hs'.2.1, (Except.ok.inj hs'.2.2).symm, rfl⟩
  · obtain ⟨rfl, rfl⟩ := hstep₀
    exact ⟨h, rfl, hpos₀.symm, rfl⟩
  · obtain ⟨rfl, rfl⟩ := hstep₀
    refine ⟨⟨h.forest, fun i hi => ?_, h.start⟩, rfl, hpos₀.symm, rfl⟩
    exact ⟨i, length_of_lastTok hi, .refl⟩
  · obtain ⟨rfl, rfl⟩ := hstep₀
    refine (comma_spec h).bind fun s' hs' => ?_
    exact ⟨hs'.1, hs'.2.1, hs'.2.2.trans hpos₀.symm, rfl⟩
  · cases hscan : scanPrimitive (js.drop s.pos) s.pos with
    | error e => simp [parsePrimitive, hpos₀, hscan] at hstep₀
    | ok stop =>
      simp only [parsePrimitive, hpos₀, hscan, ok_bind] at hstep₀
      obtain ⟨rfl, rfl⟩ := hstep₀
      refine (parsePrimitive_spec h (by omega) hc hstarts).bind fun s' hs' => ?_
      obtain ⟨hinv, hlen, stop', hstop, hpos'⟩ := hs'
      obtain rfl := Except.ok.inj (hscan.symm.trans hstop)
      exact ⟨hinv, hlen, hpos', rfl⟩

/-! ## The text -/

/-- The pass that counts. -/
theorem loop_none (fuel count : Nat) (s : Jsmn) :
    Meets JsmnError.Refusal (loop none js fuel s count) fun r =>
      r.1.tokens = s.tokens ∧ count ≤ r.2 := by
  induction fuel generalizing s count with
  | zero => exact ⟨rfl, le_rfl⟩
  | succ fuel ih =>
    simp only [loop]
    cases hc : js[s.pos]? with
    | none => exact ⟨rfl, le_rfl⟩
    | some c =>
      simp only
      split_ifs
      · exact ⟨rfl, le_rfl⟩
      · refine (step_none hc).bind fun r hr => ?_
        refine (ih (count + r.2) { r.1 with pos := r.1.pos + 1 }).imp fun r' hr' => ?_
        exact ⟨hr'.1.trans hr.1, by omega⟩

/-- **The pass that fills the array**, which is large enough.  Induction on the fuel. -/
theorem loop_spec {s₀ s₀' : Jsmn} {total : Nat} (h : Inv js s) (hpos₀ : s₀.pos = s.pos)
    (hloop₀ : loop none js fuel s₀ s.tokens.length = .ok (s₀', total)) :
    Meets JsmnError.Refusal (loop (some total) js fuel s s.tokens.length) fun r =>
      Inv js r.1 ∧ r.1.tokens.length = total ∧ r.2 = total := by
  induction fuel generalizing s s₀ with
  | zero =>
    obtain ⟨rfl, rfl⟩ := hloop₀
    exact ⟨h, rfl, rfl⟩
  | succ fuel ih =>
    simp only [loop, hpos₀] at hloop₀ ⊢
    cases hc : js[s.pos]? with
    | none =>
      simp only [hc] at hloop₀
      obtain ⟨rfl, rfl⟩ := hloop₀
      exact ⟨h, rfl, rfl⟩
    | some c =>
      simp only [hc] at hloop₀ ⊢
      split_ifs at hloop₀ ⊢ with hnul
      · obtain ⟨rfl, rfl⟩ := hloop₀
        exact ⟨h, rfl, rfl⟩
      · cases hstep₀ : s₀.step none js c with
        | error e => simp [hstep₀, error_bind] at hloop₀
        | ok r₀ =>
          obtain ⟨s₁, more⟩ := r₀
          simp only [hstep₀, ok_bind] at hloop₀
          have htotal := (loop_none fuel (s.tokens.length + more) _).of_eq_ok hloop₀
          refine (step_spec h hc hpos₀ hstep₀ htotal.2).bind fun r hr => ?_
          obtain ⟨hinv, hlen, hpos, hmore⟩ := hr
          rw [← hlen] at hloop₀
          rw [hmore, ← hlen]
          exact ih (s := { r.1 with pos := r.1.pos + 1 }) (hinv.setPos (Nat.le_succ _))
            (by simp only [hpos]) hloop₀

/-! ## The two passes -/

/-- What `jsmn_parse` leaves in an array as large as it counted. -/
structure Accepted (js : List UInt8) (toks : List JsmnTok) : Prop where
  forest : TokenForest js toks
  closed : ∀ t ∈ toks, t.isOpen = false

/-- **The tokenizer on any bytes.**  Neither pass reads a token that is not there, and the second
one has room for its tokens: there are as many as the first one counted, and they are a forest,
with every object and array closed. -/
theorem jsmnParse_spec (js : List UInt8) :
    Meets JsmnError.Refusal (jsmnParse none js) fun r =>
      Meets JsmnError.Refusal (jsmnParse (some r.2) js) fun r' =>
        r'.2 = r.2 ∧ r'.1.length = r.2 ∧ Accepted js r'.1 := by
  unfold jsmnParse
  cases hcount : loop none js js.length .init 0 with
  | error e => exact (loop_none js.length 0 .init).of_eq_error hcount
  | ok r =>
    obtain ⟨s₀, total⟩ := r
    have htoks : s₀.tokens = [] := ((loop_none js.length 0 .init).of_eq_ok hcount).1
    simp only [ok_bind, htoks, List.any_nil, Bool.false_eq_true, if_false, meets_pure]
    refine (loop_spec (s := .init) inv_init rfl hcount).bind fun r hr => ?_
    obtain ⟨hinv, hlen, rfl⟩ := hr
    split_ifs with hopen
    · exact Or.inr rfl
    · refine ⟨rfl, hlen, hinv.forest, fun t ht => ?_⟩
      simp only [List.any_eq_true, not_exists, not_and, Bool.not_eq_true] at hopen
      exact hopen t ht

end Jsmn

end NinaHomekit
