import NinaHomekit.CoreBridge.Warehouse
import NinaHomekit.Json.Text

/-!
# Writing JSON

`json_generator.c`: text is put into a buffer, which is flushed when it is full, or lets the rest
go if nothing takes it.

* `JsonGen`, `jsonGenAddToStr` — the buffer, and the loop that fills and flushes it.
* `jsonGenStartObject`, `jsonGenObjSetInt`, … — the functions the firmware calls.
* `add_add` — **text that is put in two calls is put as if it were one.**
* `WritesMembers`, `WritesElems` — calls that write members or elements; `WritesMembers.object`,
  `WritesElems.array` nest them.
* `WritesMembers.chunks` — **what is sent is a text of what was written.**
* `WritesMembers.message` — what is in a buffer that is not flushed is one, if it is short enough.
-/

namespace NinaHomekit

/-- `json_gen_str_t`: the buffer up to `free_ptr`, and what `flush_cb` was called with. -/
@[ext] structure JsonGen where
  bufSize : Nat
  buf : CStr
  /-- `flush_cb` is not `NULL`. -/
  hasFlush : Bool
  flushed : List CStr
  commaReq : Bool
  deriving DecidableEq, Repr

namespace JsonGen

/-! ## The buffer -/

/-- `json_gen_get_empty_len`: a byte is left for the NUL. -/
def emptyLen (g : JsonGen) : Nat := g.bufSize - g.buf.length - 1

/-- The loop of `json_gen_add_to_str`. -/
def addLoop (g : JsonGen) : Nat → CStr → JsonGen
  | 0, _ => g
  | fuel + 1, str =>
    let copyLen := min g.emptyLen str.length
    let g := { g with buf := g.buf ++ str.take copyLen }
    let str := str.drop copyLen
    if str = [] then g
    else if !g.hasFlush then g
    else { g with flushed := g.flushed ++ [g.buf], buf := [] }.addLoop fuel str

/-- `json_gen_add_to_str`; only the first pass can find the buffer full. -/
def jsonGenAddToStr (g : JsonGen) (str : CStr) : JsonGen := g.addLoop (str.length + 1) str

/-- `json_gen_str_start`. -/
def jsonGenStrStart (bufSize : Nat) (hasFlush : Bool) : JsonGen := ⟨bufSize, [], hasFlush, [], false⟩

/-- `json_gen_str_end`: what is left in the buffer is flushed too. -/
def jsonGenStrEnd (g : JsonGen) : List CStr := if g.hasFlush then g.flushed ++ [g.buf] else []

/-! ## Objects and arrays -/

/-- `json_gen_handle_comma`. -/
def jsonGenHandleComma (g : JsonGen) : JsonGen :=
  if g.commaReq then g.jsonGenAddToStr [0x2C] else g

/-- `json_gen_handle_name`. -/
def jsonGenHandleName (g : JsonGen) (name : CStr) : JsonGen :=
  ((g.jsonGenAddToStr [0x22]).jsonGenAddToStr name).jsonGenAddToStr [0x22, 0x3A]

/-- `json_gen_start_object`. -/
def jsonGenStartObject (g : JsonGen) : JsonGen :=
  { g.jsonGenHandleComma with commaReq := false }.jsonGenAddToStr [0x7B]

/-- `json_gen_end_object`. -/
def jsonGenEndObject (g : JsonGen) : JsonGen := { g with commaReq := true }.jsonGenAddToStr [0x7D]

/-- `json_gen_push_array`. -/
def jsonGenPushArray (g : JsonGen) (name : CStr) : JsonGen :=
  { g.jsonGenHandleComma.jsonGenHandleName name with commaReq := false }.jsonGenAddToStr [0x5B]

/-- `json_gen_pop_array`. -/
def jsonGenPopArray (g : JsonGen) : JsonGen := { g with commaReq := true }.jsonGenAddToStr [0x5D]

/-! ## Values -/

/-- `json_gen_set_bool`. -/
def jsonGenSetBool (g : JsonGen) (val : Bool) : JsonGen :=
  { g with commaReq := true }.jsonGenAddToStr
    (if val then [0x74, 0x72, 0x75, 0x65] else [0x66, 0x61, 0x6C, 0x73, 0x65])

/-- `"%d"`. -/
def intText (val : Int) : CStr :=
  if val < 0 then 0x2D :: Warehouse.intStr val.natAbs else Warehouse.intStr val.natAbs

/-- `json_gen_set_int`. -/
def jsonGenSetInt (g : JsonGen) (val : Int) : JsonGen :=
  { g with commaReq := true }.jsonGenAddToStr (intText val)

/-- `json_gen_set_string`; nothing is escaped. -/
def jsonGenSetString (g : JsonGen) (val : CStr) : JsonGen :=
  (({ g with commaReq := true }.jsonGenAddToStr [0x22]).jsonGenAddToStr val).jsonGenAddToStr [0x22]

/-- `json_gen_set_null`. -/
def jsonGenSetNull (g : JsonGen) : JsonGen :=
  { g with commaReq := true }.jsonGenAddToStr [0x6E, 0x75, 0x6C, 0x6C]

/-- `json_gen_obj_set_bool`. -/
def jsonGenObjSetBool (g : JsonGen) (name : CStr) (val : Bool) : JsonGen :=
  (g.jsonGenHandleComma.jsonGenHandleName name).jsonGenSetBool val

/-- `json_gen_obj_set_int`. -/
def jsonGenObjSetInt (g : JsonGen) (name : CStr) (val : Int) : JsonGen :=
  (g.jsonGenHandleComma.jsonGenHandleName name).jsonGenSetInt val

/-- `json_gen_obj_set_string`. -/
def jsonGenObjSetString (g : JsonGen) (name : CStr) (val : CStr) : JsonGen :=
  (g.jsonGenHandleComma.jsonGenHandleName name).jsonGenSetString val

/-- `json_gen_obj_set_null`. -/
def jsonGenObjSetNull (g : JsonGen) (name : CStr) : JsonGen :=
  (g.jsonGenHandleComma.jsonGenHandleName name).jsonGenSetNull

/-- `json_gen_arr_set_string`. -/
def jsonGenArrSetString (g : JsonGen) (val : CStr) : JsonGen :=
  g.jsonGenHandleComma.jsonGenSetString val

/-! ## One text in many calls -/

variable {g : JsonGen} {a b s t : CStr} {x y : Bool} {fuel : Nat}

/-- What was written so far. -/
def out (g : JsonGen) : CStr := g.flushed.flatten ++ g.buf

/-- A buffer that holds a character, and what was flushed with a full one. -/
structure Fits (g : JsonGen) : Prop where
  size : 2 ≤ g.bufSize
  buf : g.buf.length < g.bufSize
  full : ∀ c ∈ g.flushed, c.length + 1 = g.bufSize
  noFlush : g.hasFlush = false → g.flushed = []

/-- It was only flushed as what came next did not fit. -/
structure Good (g : JsonGen) : Prop extends Fits g where
  next : g.flushed ≠ [] → g.buf ≠ []

theorem good_start {n : Nat} (h : 2 ≤ n) : (jsonGenStrStart n x).Good :=
  ⟨⟨h, by simp only [jsonGenStrStart, List.length_nil]; omega, by simp [jsonGenStrStart],
    fun _ => rfl⟩, by simp [jsonGenStrStart]⟩

/-- **What was flushed and what is in the buffer follows from what was written.**  Induction on what
was flushed. -/
theorem eq_of_out {g' : JsonGen} (h : g.Good) (h' : g'.Good) (hsize : g.bufSize = g'.bufSize)
    (hflush : g.hasFlush = g'.hasFlush) (hcomma : g.commaReq = g'.commaReq)
    (hout : g.out = g'.out) : g = g' := by
  have hparts : ∀ (fs fs' : List CStr) (b b' : CStr), (∀ c ∈ fs, c.length + 1 = g.bufSize) →
      (∀ c ∈ fs', c.length + 1 = g.bufSize) → b.length < g.bufSize → b'.length < g.bufSize →
      (fs ≠ [] → b ≠ []) → (fs' ≠ [] → b' ≠ []) → fs.flatten ++ b = fs'.flatten ++ b' →
      fs = fs' ∧ b = b' := by
    intro fs
    induction fs with
    | nil =>
      intro fs' b b' _ hfs' hb hb' _ hne' heq
      cases fs' with
      | nil => exact ⟨rfl, by simpa using heq⟩
      | cons c fs' =>
        have hlen := congrArg List.length heq
        have hc := hfs' c List.mem_cons_self
        have hpos := List.length_pos_iff.2 (hne' (by simp))
        simp only [List.flatten_nil, List.nil_append, List.flatten_cons, List.length_append] at hlen
        omega
    | cons c fs ih =>
      intro fs' b b' hfs hfs' hb hb' hne hne' heq
      have hc := hfs c List.mem_cons_self
      cases fs' with
      | nil =>
        have hlen := congrArg List.length heq
        have hpos := List.length_pos_iff.2 (hne (by simp))
        simp only [List.flatten_nil, List.nil_append, List.flatten_cons, List.length_append] at hlen
        omega
      | cons c' fs' =>
        have hc' := hfs' c' List.mem_cons_self
        simp only [List.flatten_cons, List.append_assoc] at heq
        obtain ⟨rfl, hrest⟩ := List.append_inj heq (by omega)
        obtain ⟨rfl, rfl⟩ := ih fs' b b' (fun d hd => hfs d (List.mem_cons_of_mem _ hd))
          (fun d hd => hfs' d (List.mem_cons_of_mem _ hd)) hb hb' (fun _ => hne (by simp))
          (fun _ => hne' (by simp)) hrest
        exact ⟨rfl, rfl⟩
  obtain ⟨hfs, hb⟩ := hparts g.flushed g'.flushed g.buf g'.buf h.full
    (fun c hc => (h'.full c hc).trans hsize.symm) h.buf (hsize ▸ h'.buf) h.next h'.next hout
  exact JsonGen.ext hsize hb hflush hfs hcomma

/-- Without a callback the buffer is all there is. -/
def clip (g : JsonGen) (s : CStr) : CStr := if g.hasFlush then s else s.take (g.bufSize - 1)

/-- What a call puts, and whether it says that a comma is required. -/
structure Put (g g' : JsonGen) (s : CStr) (x : Bool) : Prop where
  good : g'.Good
  bufSize : g'.bufSize = g.bufSize
  hasFlush : g'.hasFlush = g.hasFlush
  commaReq : g'.commaReq = x
  out : g'.out = g.clip (g.out ++ s)

/-- Induction on the fuel: every pass but the first copies a character. -/
theorem put_addLoop (h : g.Fits) (hnext : g.flushed ≠ [] → g.buf ≠ [] ∨ s ≠ []) (hpos : 0 < fuel)
    (hfuel : s.length + 1 ≤ fuel + min 1 g.emptyLen) : Put g (g.addLoop fuel s) s g.commaReq := by
  induction fuel generalizing g s with
  | zero => omega
  | succ fuel ih =>
    have hsize := h.size
    have hbuf := h.buf
    have hempty : g.emptyLen = g.bufSize - g.buf.length - 1 := rfl
    unfold addLoop
    simp only [List.drop_eq_nil_iff]
    by_cases hall : s.length ≤ g.emptyLen
    · rw [if_pos (by omega), Nat.min_eq_right hall, List.take_length]
      refine ⟨⟨⟨hsize, by simp only [List.length_append]; omega, h.full, h.noFlush⟩, fun hne => ?_⟩,
        rfl, rfl, rfl, ?_⟩
      · have := hnext hne
        simpa [← not_and_or, and_comm] using this
      · simp only [out, clip, List.append_assoc]
        by_cases hflush : g.hasFlush = true
        · rw [if_pos hflush]
        · rw [if_neg hflush, h.noFlush (by simpa using hflush), List.flatten_nil, List.nil_append,
            List.take_of_length_le (by rw [List.length_append]; omega)]
    · have hlt : g.emptyLen < s.length := by omega
      rw [if_neg (by omega), Nat.min_eq_left hlt.le]
      have hlen : (g.buf ++ s.take g.emptyLen).length + 1 = g.bufSize := by
        rw [List.length_append, List.length_take, Nat.min_eq_left hlt.le]
        omega
      by_cases hflush : g.hasFlush = true
      · rw [if_neg (by simp [hflush])]
        have hfull : ∀ c ∈ g.flushed ++ [g.buf ++ s.take g.emptyLen], c.length + 1 = g.bufSize := by
          intro c hc
          rcases List.mem_append.1 hc with hc | hc
          · exact h.full c hc
          · rwa [List.mem_singleton.1 hc]
        obtain ⟨hgood, h₁, h₂, h₃, h₄⟩ := ih (s := s.drop g.emptyLen)
          (g := { g with flushed := g.flushed ++ [g.buf ++ s.take g.emptyLen], buf := [] })
          ⟨hsize, by simp only [List.length_nil]; omega, hfull, by simp [hflush]⟩
          (fun _ => Or.inr (by simpa using hlt)) (by omega)
          (by simp only [emptyLen, List.length_drop, List.length_nil] at hfuel hempty ⊢; omega)
        refine ⟨hgood, h₁, h₂, h₃, h₄.trans ?_⟩
        simp only [clip, hflush, if_true, out, List.flatten_append, List.flatten_cons,
          List.flatten_nil, List.append_nil, List.append_assoc, List.take_append_drop]
      · rw [if_pos (by simp [hflush])]
        have hnil := h.noFlush (by simpa using hflush)
        refine ⟨⟨⟨hsize, by simp only; omega, h.full, h.noFlush⟩, fun hne => absurd hnil hne⟩,
          rfl, rfl, rfl, ?_⟩
        simp only [out, clip, if_neg hflush, hnil, List.flatten_nil, List.nil_append]
        rw [List.take_append, List.take_of_length_le (show g.buf.length ≤ g.bufSize - 1 by omega)]
        congr 2
        omega

/-- Put a text, and say whether a comma is required before the next one. -/
def add (g : JsonGen) (s : CStr) (x : Bool) : JsonGen :=
  { g with commaReq := x }.jsonGenAddToStr s

theorem put_add (h : g.Good) (s : CStr) (x : Bool) : Put g (g.add s x) s x := by
  have hput : Put { g with commaReq := x } (g.add s x) s x :=
    put_addLoop ⟨h.size, h.buf, h.full, h.noFlush⟩ (fun hne => Or.inl (h.next hne)) (Nat.succ_pos _)
      (by omega)
  exact ⟨hput.good, hput.bufSize, hput.hasFlush, hput.commaReq, hput.out⟩

/-- **Text that is put in two calls is put as if it were one.** -/
theorem add_add (h : g.Good) (a b : CStr) (x y : Bool) : (g.add a x).add b y = g.add (a ++ b) y := by
  have h₁ := put_add h a x
  have h₂ := put_add h₁.good b y
  have h₃ := put_add h (a ++ b) y
  refine eq_of_out h₂.good h₃.good (h₂.bufSize.trans (h₁.bufSize.trans h₃.bufSize.symm))
    (h₂.hasFlush.trans (h₁.hasFlush.trans h₃.hasFlush.symm)) (h₂.commaReq.trans h₃.commaReq.symm) ?_
  rw [h₂.out, h₃.out, h₁.out]
  simp only [clip, h₁.hasFlush, h₁.bufSize]
  by_cases hflush : g.hasFlush = true
  · simp only [hflush, if_true, List.append_assoc]
  · simp only [hflush]
    simp only [Bool.false_eq_true, if_false, ← List.append_assoc]
    generalize g.out ++ a = l
    rw [@List.take_append _ (l.take _), List.take_take, Nat.min_self, @List.take_append _ l,
      List.length_take]
    congr 1
    rcases Nat.le_total (g.bufSize - 1) l.length with hle | hle
    · rw [Nat.min_eq_left hle, Nat.sub_self, Nat.sub_eq_zero_of_le hle]
    · rw [Nat.min_eq_right hle]

/-! ## The calls -/

/-- The comma in front of what comes next. -/
def commaText (g : JsonGen) : CStr := if g.commaReq then [0x2C] else []

/-- A name and its colon. -/
def nameText (name : CStr) : CStr := 0x22 :: (name ++ [0x22, 0x3A])

@[simp] theorem jsonGenAddToStr_eq (s : CStr) : g.jsonGenAddToStr s = g.add s g.commaReq := rfl

@[simp] theorem commaReq_add (h : g.Good) (s : CStr) (x : Bool) : (g.add s x).commaReq = x :=
  (put_add h s x).commaReq

theorem good_add (h : g.Good) (s : CStr) (x : Bool) : (g.add s x).Good := (put_add h s x).good

theorem add_setComma (s : CStr) (x y : Bool) :
    ({ g with commaReq := y } : JsonGen).add s x = g.add s x :=
  rfl

theorem add_nil : g.add [] g.commaReq = g := by
  simp [add, jsonGenAddToStr, addLoop]

theorem jsonGenHandleComma_eq : g.jsonGenHandleComma = g.add g.commaText g.commaReq := by
  unfold jsonGenHandleComma commaText
  by_cases hcomma : g.commaReq = true
  · simp [hcomma]
  · simp only [hcomma, Bool.false_eq_true, if_false]
    simpa [hcomma] using (add_nil (g := g)).symm

theorem jsonGenHandleName_eq (h : g.Good) (name : CStr) :
    g.jsonGenHandleName name = g.add (nameText name) g.commaReq := by
  simp [jsonGenHandleName, nameText, h, add_add]

theorem jsonGenStartObject_eq (h : g.Good) :
    g.jsonGenStartObject = g.add (g.commaText ++ [0x7B]) false := by
  unfold jsonGenStartObject
  rw [jsonGenHandleComma_eq]
  exact add_add h _ _ _ _

theorem jsonGenEndObject_eq : g.jsonGenEndObject = g.add [0x7D] true := rfl

theorem jsonGenPopArray_eq : g.jsonGenPopArray = g.add [0x5D] true := rfl

/-- What comes behind a name. -/
theorem add_name (h : g.Good) (name s : CStr) (x : Bool) :
    (g.jsonGenHandleComma.jsonGenHandleName name).add s x =
      g.add (g.commaText ++ (nameText name ++ s)) x := by
  rw [jsonGenHandleComma_eq, jsonGenHandleName_eq (good_add h _ _), add_add h, add_add h,
    List.append_assoc]

theorem jsonGenPushArray_eq (h : g.Good) (name : CStr) :
    g.jsonGenPushArray name = g.add (g.commaText ++ (nameText name ++ [0x5B])) false :=
  add_name h name [0x5B] false

/-! ## Texts -/

theorem elems_append {d : Doc} (h : Text d t) {vs vs' : List JsonVal} (hd : d = .elems vs)
    (h' : Text (.elems vs') b) : Text (.elems (vs ++ vs')) (t ++ 0x2C :: b) := by
  induction h generalizing vs with
  | elem hw ht hw' =>
    cases hd
    simpa using Text.elems hw ht hw' h'
  | elems hw ht hw' hs _ ihs =>
    cases hd
    simpa using Text.elems hw ht hw' (ihs rfl)
  | _ => cases hd

theorem members_append {d : Doc} (h : Text d t) {ms ms' : Members} (hd : d = .members ms)
    (h' : Text (.members ms') b) : Text (.members (ms ++ ms')) (t ++ 0x2C :: b) := by
  induction h generalizing ms with
  | member hw hkey hw' hw₁ ht hw₂ =>
    cases hd
    simpa using Text.members hw hkey hw' hw₁ ht hw₂ h'
  | members hw hkey hw' hw₁ ht hw₂ hs _ ihs =>
    cases hd
    simpa using Text.members hw hkey hw' hw₁ ht hw₂ (ihs rfl)
  | _ => cases hd

theorem blanks_nil : Blanks [] := fun _ h => by cases h

theorem text_elem {v : JsonVal} (h : Text (.val v) t) : Text (.elems [v]) t := by
  simpa using Text.elem blanks_nil h blanks_nil

theorem text_member {name : CStr} {v : JsonVal} (hname : StrText name) (h : Text (.val v) t) :
    Text (.members [(name, v)]) (nameText name ++ t) := by
  simpa [nameText] using Text.member blanks_nil hname blanks_nil blanks_nil h blanks_nil

/-! ## Calls that write -/

/-- The calls write these members, or nothing if there are none. -/
def WritesMembers (f : JsonGen → JsonGen) (ms : Members) : Prop :=
  (ms = [] ∧ ∀ g : JsonGen, f g = g) ∨
    ∃ t, Text (.members ms) t ∧ ∀ g : JsonGen, g.Good → f g = g.add (g.commaText ++ t) true

/-- The calls write these elements, or nothing if there are none. -/
def WritesElems (f : JsonGen → JsonGen) (vs : List JsonVal) : Prop :=
  (vs = [] ∧ ∀ g : JsonGen, f g = g) ∨
    ∃ t, Text (.elems vs) t ∧ ∀ g : JsonGen, g.Good → f g = g.add (g.commaText ++ t) true

variable {f f' : JsonGen → JsonGen} {ms ms' : Members} {vs vs' : List JsonVal} {name : CStr}

theorem WritesMembers.nil : WritesMembers (fun g => g) [] := Or.inl ⟨rfl, fun _ => rfl⟩

theorem WritesElems.nil : WritesElems (fun g => g) [] := Or.inl ⟨rfl, fun _ => rfl⟩

theorem add_comma_add (h : g.Good) :
    (g.add (g.commaText ++ a) true).add ((g.add (g.commaText ++ a) true).commaText ++ b) true =
      g.add (g.commaText ++ (a ++ 0x2C :: b)) true := by
  rw [add_add h]
  simp [commaText, h]

/-- Calls one after the other. -/
theorem WritesMembers.append (h : WritesMembers f ms) (h' : WritesMembers f' ms') :
    WritesMembers (fun g => f' (f g)) (ms ++ ms') := by
  rcases h with ⟨rfl, hf⟩ | ⟨t, ht, hf⟩
  · simpa only [hf, List.nil_append] using h'
  · rcases h' with ⟨rfl, hf'⟩ | ⟨t', ht', hf'⟩
    · simp only [hf', List.append_nil]
      exact Or.inr ⟨t, ht, hf⟩
    · refine Or.inr ⟨_, members_append ht rfl ht', fun g hg => ?_⟩
      dsimp only
      rw [hf g hg, hf' _ (good_add hg _ _), add_comma_add hg]

theorem WritesElems.append (h : WritesElems f vs) (h' : WritesElems f' vs') :
    WritesElems (fun g => f' (f g)) (vs ++ vs') := by
  rcases h with ⟨rfl, hf⟩ | ⟨t, ht, hf⟩
  · simpa only [hf, List.nil_append] using h'
  · rcases h' with ⟨rfl, hf'⟩ | ⟨t', ht', hf'⟩
    · simp only [hf', List.append_nil]
      exact Or.inr ⟨t, ht, hf⟩
    · refine Or.inr ⟨_, elems_append ht rfl ht', fun g hg => ?_⟩
      dsimp only
      rw [hf g hg, hf' _ (good_add hg _ _), add_comma_add hg]

/-- Members that are only written if they are asked for. -/
theorem WritesMembers.ite (c : Bool) (h : WritesMembers f ms) :
    WritesMembers (fun g => if c then f g else g) (if c then ms else []) := by
  cases c with
  | true => simpa only [if_true] using h
  | false => simpa only [Bool.false_eq_true, if_false] using WritesMembers.nil

/-- A loop.  Induction on what it is over. -/
theorem WritesElems.foldl {α : Type*} {f : JsonGen → α → JsonGen} {v : α → List JsonVal}
    {xs : List α} (h : ∀ x ∈ xs, WritesElems (fun g => f g x) (v x)) :
    WritesElems (fun g => xs.foldl f g) (xs.flatMap v) := by
  induction xs with
  | nil => exact .nil
  | cons x xs ih =>
    rw [List.flatMap_cons]
    exact (h x List.mem_cons_self).append (ih fun y hy => h y (List.mem_cons_of_mem _ hy))

/-- The text of an object with the members that are written between its braces. -/
theorem WritesMembers.text (h : WritesMembers f ms) :
    ∃ t, Text (.val (.obj ms)) t ∧ ∀ g : JsonGen, g.Good →
      (f g.jsonGenStartObject).jsonGenEndObject = g.add (g.commaText ++ t) true := by
  rcases h with ⟨rfl, hf⟩ | ⟨t, ht, hf⟩
  · refine ⟨_, .objNil blanks_nil, fun g hg => ?_⟩
    rw [hf, jsonGenStartObject_eq hg, jsonGenEndObject_eq, add_add hg]
    simp
  · refine ⟨_, .obj ht, fun g hg => ?_⟩
    rw [jsonGenStartObject_eq hg, hf _ (good_add hg _ _), jsonGenEndObject_eq, add_add hg,
      add_add hg]
    simp [commaText, hg]

/-- An object is an element. -/
theorem WritesMembers.object (h : WritesMembers f ms) :
    WritesElems (fun g => (f g.jsonGenStartObject).jsonGenEndObject) [.obj ms] := by
  obtain ⟨t, ht, hf⟩ := h.text
  exact Or.inr ⟨t, text_elem ht, hf⟩

/-- **An object that is written into a buffer with a callback goes out in chunks**, none of which
is empty. -/
theorem WritesMembers.chunks (h : WritesMembers f ms) {n : Nat} (hn : 2 ≤ n) :
    ∃ chunks, (f (jsonGenStrStart n true).jsonGenStartObject).jsonGenEndObject.jsonGenStrEnd =
        chunks ∧
      Text (.val (.obj ms)) chunks.flatten ∧ ∀ c ∈ chunks, c ≠ [] ∧ c.length < n := by
  obtain ⟨t, ht, hf⟩ := h.text
  have hgood := good_start (x := true) hn
  have hput := put_add hgood ((jsonGenStrStart n true).commaText ++ t) true
  refine ⟨_, rfl, ?_⟩
  rw [hf _ hgood, jsonGenStrEnd, hput.hasFlush, show (jsonGenStrStart n true).hasFlush = true from rfl,
    if_pos rfl, List.flatten_append, List.flatten_singleton]
  set g := (jsonGenStrStart n true).add ((jsonGenStrStart n true).commaText ++ t) true
  have hout : g.flushed.flatten ++ g.buf = t := hput.out
  have hsize : g.bufSize = n := hput.bufSize
  refine ⟨hout.symm ▸ ht, fun c hc => ?_⟩
  rcases List.mem_append.1 hc with hc | hc
  · have hlen := hput.good.full c hc
    exact ⟨List.length_pos_iff.1 (by omega), by omega⟩
  · obtain rfl := List.mem_singleton.1 hc
    refine ⟨fun hnil => ?_, hsize ▸ hput.good.buf⟩
    have hflushed : g.flushed = [] := by
      by_contra hne
      exact hput.good.next hne hnil
    rw [hnil, hflushed] at hout
    cases hout
    cases ht

/-- An array with the elements that are written between its brackets. -/
theorem WritesElems.array (h : WritesElems f vs) (hname : StrText name) :
    WritesMembers (fun g => (f (g.jsonGenPushArray name)).jsonGenPopArray) [(name, .arr vs)] := by
  rcases h with ⟨rfl, hf⟩ | ⟨t, ht, hf⟩
  · refine Or.inr ⟨_, text_member hname (.arrNil blanks_nil), fun g hg => ?_⟩
    dsimp only
    rw [hf, jsonGenPushArray_eq hg, jsonGenPopArray_eq, add_add hg]
    simp
  · refine Or.inr ⟨_, text_member hname (.arr ht), fun g hg => ?_⟩
    dsimp only
    rw [jsonGenPushArray_eq hg, hf _ (good_add hg _ _), jsonGenPopArray_eq, add_add hg, add_add hg]
    simp [commaText, hg]

/-! ## Values -/

/-- `"true"` and `"false"`. -/
def boolText (val : Bool) : CStr :=
  if val then [0x74, 0x72, 0x75, 0x65] else [0x66, 0x61, 0x6C, 0x73, 0x65]

instance (c : UInt8) : Decidable (InPrimitive c) := inferInstanceAs (Decidable (_ ∧ _))

theorem primText_of_all {c : UInt8} {cs : CStr} (hc : startsPrimitive c)
    (h : (c :: cs).all fun d => InPrimitive d) : PrimText (c :: cs) :=
  ⟨c, cs, rfl, hc, fun d hd => by simpa using List.all_eq_true.1 h d hd⟩

theorem primText_boolText (val : Bool) : PrimText (boolText val) := by
  cases val with
  | false => exact primText_of_all (c := 0x66) rfl (by decide)
  | true => exact primText_of_all (c := 0x74) rfl (by decide)

/-- `"null"`. -/
def nullText : CStr := [0x6E, 0x75, 0x6C, 0x6C]

theorem primText_nullText : PrimText nullText := primText_of_all (c := 0x6E) rfl (by decide)

theorem inPrimitive_digit {n : Nat} (hlo : 48 ≤ n) (hhi : n ≤ 57) :
    startsPrimitive (UInt8.ofNat n) ∧ InPrimitive (UInt8.ofNat n) := by
  interval_cases n <;> decide

/-- The characters of a number are its digits, behind a sign. -/
theorem primText_intText (val : Int) : PrimText (intText val) := by
  generalize hn : val.natAbs = n
  have hall : ∀ c ∈ Warehouse.intStr n, startsPrimitive c ∧ InPrimitive c := by
    intro c hc
    obtain ⟨ch, hch, rfl⟩ := List.mem_map.1 hc
    have hdigit := Nat.isDigit_of_mem_toDigits (by decide) le_rfl hch
    rw [Char.isDigit_iff_toNat] at hdigit
    exact inPrimitive_digit hdigit.1 hdigit.2
  have hne : Warehouse.intStr n ≠ [] := by
    simp [Warehouse.intStr, Nat.toDigits_ne_nil]
  obtain ⟨c, cs, hstr⟩ := List.exists_cons_of_ne_nil hne
  rw [hstr] at hall
  unfold intText
  rw [hn, hstr]
  split
  · refine ⟨0x2D, _, rfl, rfl, List.forall_mem_cons.2 ⟨by decide, fun d hd => (hall d hd).2⟩⟩
  · exact ⟨c, cs, rfl, (hall c List.mem_cons_self).1, fun d hd => (hall d hd).2⟩

theorem writesMembers_bool (hname : StrText name) (val : Bool) :
    WritesMembers (·.jsonGenObjSetBool name val) [(name, .prim (boolText val))] :=
  Or.inr ⟨_, text_member hname (.prim (primText_boolText val)), fun _ hg => add_name hg name _ true⟩

theorem writesMembers_int (hname : StrText name) (val : Int) :
    WritesMembers (·.jsonGenObjSetInt name val) [(name, .prim (intText val))] :=
  Or.inr ⟨_, text_member hname (.prim (primText_intText val)), fun _ hg => add_name hg name _ true⟩

theorem writesMembers_null (hname : StrText name) :
    WritesMembers (·.jsonGenObjSetNull name) [(name, .prim nullText)] :=
  Or.inr ⟨_, text_member hname (.prim primText_nullText), fun _ hg => add_name hg name _ true⟩

theorem jsonGenSetString_eq (h : g.Good) (val : CStr) :
    g.jsonGenSetString val = g.add (0x22 :: (val ++ [0x22])) true := by
  have hquote := add_add h [0x22] val true true
  have hend := add_add h ([0x22] ++ val) [0x22] true true
  rw [← hquote] at hend
  simpa [jsonGenSetString, h, good_add, add_setComma] using hend

theorem writesMembers_string (hname : StrText name) {val : CStr} (hval : StrText val) :
    WritesMembers (·.jsonGenObjSetString name val) [(name, .str val)] := by
  refine Or.inr ⟨_, text_member hname (.str hval), fun g hg => ?_⟩
  dsimp only
  rw [jsonGenObjSetString, jsonGenSetString_eq]
  · exact add_name hg name _ true
  · rw [jsonGenHandleComma_eq, jsonGenHandleName_eq (good_add hg _ _)]
    exact good_add (good_add hg _ _) _ _

theorem writesElems_string {val : CStr} (hval : StrText val) :
    WritesElems (·.jsonGenArrSetString val) [.str val] := by
  refine Or.inr ⟨_, text_elem (.str hval), fun g hg => ?_⟩
  dsimp only
  rw [jsonGenArrSetString, jsonGenHandleComma_eq, jsonGenSetString_eq (good_add hg _ _), add_add hg]

/-! ## How much is written -/

/-- The calls put at most `n` characters. -/
def Puts (f : JsonGen → JsonGen) (n : Nat) : Prop :=
  ∀ g : JsonGen, g.Good → ∃ s x, s.length ≤ n ∧ f g = g.add s x

theorem Puts.comp {m n : Nat} (h : Puts f m) (h' : Puts f' n) : Puts (fun g => f' (f g)) (m + n) := by
  intro g hg
  obtain ⟨s, x, hs, hf⟩ := h g hg
  obtain ⟨t, y, ht, hf'⟩ := h' (g.add s x) (good_add hg _ _)
  refine ⟨s ++ t, y, ?_, ?_⟩
  · rw [List.length_append]
    omega
  · dsimp only
    rw [hf, hf', add_add hg]

/-- A loop.  Induction on what it is over. -/
theorem Puts.foldl {α : Type*} {f : JsonGen → α → JsonGen} {n : Nat} {xs : List α}
    (h : ∀ x ∈ xs, Puts (fun g => f g x) n) : Puts (fun g => xs.foldl f g) (xs.length * n) := by
  induction xs with
  | nil => exact fun g _ => ⟨[], g.commaReq, Nat.zero_le _, add_nil.symm⟩
  | cons x xs ih =>
    rw [List.length_cons, Nat.add_comm, Nat.add_mul, Nat.one_mul]
    exact (h x List.mem_cons_self).comp (ih fun y hy => h y (List.mem_cons_of_mem _ hy))

theorem length_commaText : g.commaText.length ≤ 1 := by
  unfold commaText
  split <;> simp

theorem puts_startObject : Puts jsonGenStartObject 2 := by
  intro g hg
  have := length_commaText (g := g)
  exact ⟨_, _, by simpa using by omega, jsonGenStartObject_eq hg⟩

theorem puts_endObject : Puts jsonGenEndObject 1 := fun _ _ => ⟨_, _, le_rfl, jsonGenEndObject_eq⟩

theorem puts_pushArray (name : CStr) : Puts (·.jsonGenPushArray name) (name.length + 5) := by
  intro g hg
  have := length_commaText (g := g)
  exact ⟨_, _, by simp [nameText]; omega, jsonGenPushArray_eq hg name⟩

theorem puts_popArray : Puts jsonGenPopArray 1 := fun _ _ => ⟨_, _, le_rfl, jsonGenPopArray_eq⟩

theorem puts_bool (name : CStr) (val : Bool) :
    Puts (·.jsonGenObjSetBool name val) (name.length + 9) := by
  intro g hg
  have := length_commaText (g := g)
  refine ⟨_, _, ?_, add_name hg name (boolText val) true⟩
  cases val <;> simp [nameText, boolText] <;> omega

theorem puts_int (name : CStr) (val : Int) :
    Puts (·.jsonGenObjSetInt name val) (name.length + 4 + (intText val).length) := by
  intro g hg
  have := length_commaText (g := g)
  exact ⟨_, _, by simp [nameText]; omega, add_name hg name (intText val) true⟩

/-- **An object that is short enough is complete in a buffer that nothing flushes.** -/
theorem WritesMembers.message (h : WritesMembers f ms) {m n : Nat}
    (hputs : Puts (fun g => (f g.jsonGenStartObject).jsonGenEndObject) m) (hm : m + 1 < n) :
    Text (.val (.obj ms)) (f (jsonGenStrStart n false).jsonGenStartObject).jsonGenEndObject.buf := by
  obtain ⟨t, ht, hf⟩ := h.text
  have hgood := good_start (x := false) (show 2 ≤ n by omega)
  obtain ⟨s, x, hs, hf'⟩ := hputs _ hgood
  dsimp only at hf'
  have hout : ∀ (u : CStr) (y : Bool),
      ((jsonGenStrStart n false).add u y).buf = u.take (n - 1) := by
    intro u y
    have hput := put_add hgood u y
    have hflushed := hput.good.noFlush hput.hasFlush
    have hbuf : _ = (jsonGenStrStart n false).clip u := hput.out
    rwa [out, hflushed] at hbuf
  have hbuf := congrArg JsonGen.buf (hf' ▸ hf _ hgood)
  rw [hout, hout, List.take_of_length_le (by omega)] at hbuf
  have hlen := congrArg List.length hbuf
  rw [List.length_take] at hlen
  have hcomma : (jsonGenStrStart n false).commaText ++ t = t := rfl
  rw [hcomma] at hbuf hlen
  rw [hf _ hgood, hout, hcomma, List.take_of_length_le (by omega)]
  exact ht

end JsonGen

end NinaHomekit
