import NinaHomekit.Definitions

/-!
# The tokenizer

`jsmn.h`, with `JSMN_PARENT_LINKS` and `JSMN_STRICT` as `json_parser.c` sets them.

* `JsmnTok`, `Jsmn` — a token, and the parser with the tokens it has allocated.
* `scanPrimitive`, `scanString` — where a primitive or a string ends.
* `Jsmn.step`, `Jsmn.loop`, `jsmnParse` — the code.
* `jsonParseStart` — its two passes: one that counts, and one that fills an array of that size.
-/

namespace NinaHomekit

/-- `jsmntype_t`, but for `JSMN_UNDEFINED`, which no allocated token has. -/
inductive JsmnType where
  | object
  | array
  | string
  | primitive
  deriving DecidableEq, Repr

/-- `jsmntok_t`; `stop` is `end`, and `none` stands for −1. -/
structure JsmnTok where
  type : JsmnType
  start : Nat
  stop : Option Nat
  size : Nat
  parent : Option Nat
  deriving DecidableEq, Repr

/-- A token whose end is not known yet. -/
def JsmnTok.isOpen (t : JsmnTok) : Bool := t.stop.isNone

/-- `jsmnerr`, and what the code may not do: use an index at which there is no token. -/
inductive JsmnError where
  | nomem
  | inval
  | part
  | fault
  deriving DecidableEq, Repr

/-- `jsmn_parser`, and the tokens allocated in the array; there are none when it is `NULL`. -/
structure Jsmn where
  pos : Nat
  toksuper : Option Nat
  tokens : List JsmnTok
  deriving DecidableEq, Repr

/-! ## Where a token ends -/

/-- `'\t'`, `'\r'`, `'\n'` and `' '`. -/
def isBlank (c : UInt8) : Bool := c == 0x09 || c == 0x0D || c == 0x0A || c == 0x20

/-- What a primitive ends at: a blank, `','`, `']'` or `'}'`. -/
def endsPrimitive (c : UInt8) : Bool := isBlank c || c == 0x2C || c == 0x5D || c == 0x7D

/-- What a primitive starts with: `'-'`, a digit, `'t'`, `'f'` or `'n'`. -/
def startsPrimitive (c : UInt8) : Bool :=
  c == 0x2D || (0x30 ≤ c && c ≤ 0x39) || c == 0x74 || c == 0x66 || c == 0x6E

/-- The digits of a hexadecimal number. -/
def isHex (c : UInt8) : Bool :=
  (48 ≤ c && c ≤ 57) || (65 ≤ c && c ≤ 70) || (97 ≤ c && c ≤ 102)

/-- What may come behind `'\\'`, but for `'u'`. -/
def isEscaped (c : UInt8) : Bool :=
  c == 0x22 || c == 0x2F || c == 0x5C || c == 0x62 || c == 0x66 || c == 0x72 || c == 0x6E ||
    c == 0x74

/-- The loop of `jsmn_parse_primitive`, over what is left of the text from `pos` on. -/
def scanPrimitive : List UInt8 → Nat → Except JsmnError Nat
  | [], _ => .error .part
  | c :: cs, pos =>
    if c = 0 then .error .part
    else if endsPrimitive c then .ok pos
    else if c < 32 ∨ 127 ≤ c then .error .inval
    else scanPrimitive cs (pos + 1)

/-- Where the loop of `jsmn_parse_string` is. -/
inductive StrMode where
  | plain
  /-- Behind `'\\'`. -/
  | escape
  /-- Behind `'\\'` and `'u'`, with digits still to come. -/
  | hex (digits : Nat)
  deriving DecidableEq

/-- The loop of `jsmn_parse_string`: where the quote is that ends the string. -/
def scanString : StrMode → List UInt8 → Nat → Except JsmnError Nat
  | _, [], _ => .error .part
  | .plain, c :: cs, pos =>
    if c = 0 then .error .part
    else if c = 0x22 then .ok pos
    else if c = 0x5C then scanString .escape cs (pos + 1)
    else scanString .plain cs (pos + 1)
  | .escape, c :: cs, pos =>
    if isEscaped c then scanString .plain cs (pos + 1)
    else if c = 0x75 then scanString (.hex 4) cs (pos + 1)
    else .error .inval
  | .hex digits, c :: cs, pos =>
    if c = 0 then .error .part
    else if isHex c then
      scanString (if digits ≤ 1 then .plain else .hex (digits - 1)) cs (pos + 1)
    else .error .inval

namespace Jsmn

/-! ## The tokens -/

/-- `toknext - 1`, or `none` for −1. -/
def lastTok (s : Jsmn) : Option Nat :=
  if s.tokens.length = 0 then none else some (s.tokens.length - 1)

/-- `tokens[i]`. -/
def readTok (toks : List JsmnTok) (i : Nat) : Except JsmnError JsmnTok :=
  match toks[i]? with
  | some t => .ok t
  | none => .error .fault

/-- `jsmn_alloc_token` from an array of `num` tokens, and what is then written to the token. -/
def allocToken (num : Nat) (s : Jsmn) (type : JsmnType) (start : Nat) (stop : Option Nat) :
    Except JsmnError Jsmn :=
  if num ≤ s.tokens.length then .error .nomem
  else .ok { s with tokens := s.tokens ++ [⟨type, start, stop, 0, s.toksuper⟩] }

/-- `tokens[i].size++`. -/
def incSize (toks : List JsmnTok) (i : Nat) : List JsmnTok :=
  toks.modify i fun t => { t with size := t.size + 1 }

/-- `if (parser->toksuper != -1) tokens[parser->toksuper].size++`. -/
def growSuper (s : Jsmn) : Except JsmnError Jsmn :=
  match s.toksuper with
  | some i =>
    if i < s.tokens.length then .ok { s with tokens := incSize s.tokens i } else .error .fault
  | none => .ok s

/-- The token that is the parent of the next one. -/
def readSuper (s : Jsmn) : Except JsmnError (Option JsmnTok) :=
  match s.toksuper with
  | some i => some <$> readTok s.tokens i
  | none => .ok none

/-! ## One character -/

/-- `'{'` and `'['`. -/
def openToken (num : Nat) (s : Jsmn) (type : JsmnType) : Except JsmnError Jsmn := do
  let t ← s.allocToken num type s.pos none
  let super ← s.readSuper
  -- an object or array can't become a key
  if super.any (·.type == .object) then .error .inval
  else do
    let t ← t.growSuper
    return { t with toksuper := t.lastTok }

/-- The loop of `'}'` and `']'`, from the token `i` to its ancestors, with the tokens and
`toksuper` it leaves. -/
def closeFrom (s : Jsmn) (type : JsmnType) : Nat → Nat → Except JsmnError Jsmn
  | 0, _ => .error .fault
  | fuel + 1, i => do
    let t ← readTok s.tokens i
    if t.isOpen then
      if t.type ≠ type then .error .inval
      else return { s with
        tokens := s.tokens.set i { t with stop := some (s.pos + 1) }
        toksuper := t.parent }
    else
      match t.parent with
      | some p => s.closeFrom type fuel p
      | none => if t.type ≠ type ∨ s.toksuper = none then .error .inval else return s

/-- `'}'` and `']'`. -/
def closeToken (s : Jsmn) (type : JsmnType) : Except JsmnError Jsmn :=
  match s.lastTok with
  | some i => s.closeFrom type s.tokens.length i
  | none => .error .inval

/-- `jsmn_parse_string` and `size++`; `pos` is left at the closing quote. -/
def parseString (num : Option Nat) (js : List UInt8) (s : Jsmn) : Except JsmnError Jsmn := do
  let stop ← scanString .plain (js.drop (s.pos + 1)) (s.pos + 1)
  match num with
  | some num =>
    let t ← s.allocToken num .string (s.pos + 1) (some stop)
    let t ← t.growSuper
    return { t with pos := stop }
  | none => return { s with pos := stop }

/-- What a primitive may not be: a member without a key, or the second value of a key. -/
def refusesPrimitive (t : JsmnTok) : Bool :=
  t.type == .object || (t.type == .string && t.size != 0)

/-- The check before `jsmn_parse_primitive`, the function itself and `size++`; `pos` is left at
the last character. -/
def parsePrimitive (num : Option Nat) (js : List UInt8) (s : Jsmn) : Except JsmnError Jsmn :=
  match num with
  | some num => do
    let super ← s.readSuper
    if super.any refusesPrimitive then .error .inval
    else do
      let stop ← scanPrimitive (js.drop s.pos) s.pos
      let t ← s.allocToken num .primitive s.pos (some stop)
      let t ← t.growSuper
      return { t with pos := stop - 1 }
  | none => do
    let stop ← scanPrimitive (js.drop s.pos) s.pos
    return { s with pos := stop - 1 }

/-- `','`: back from a key to its object. -/
def comma (s : Jsmn) : Except JsmnError Jsmn := do
  match ← s.readSuper with
  | none => return s
  | some t =>
    if t.type = .array ∨ t.type = .object then return s
    else return { s with toksuper := t.parent }

/-- `c == '{' ? JSMN_OBJECT : JSMN_ARRAY`, and the same with `'}'`. -/
def bracketType (c : UInt8) : JsmnType := if c = 0x7B ∨ c = 0x7D then .object else .array

/-- The body of the loop of `jsmn_parse`: with the character `c` at `pos`, what it leaves, and by
how much `count` grows. -/
def step (num : Option Nat) (js : List UInt8) (s : Jsmn) (c : UInt8) :
    Except JsmnError (Jsmn × Nat) :=
  if c = 0x7B ∨ c = 0x5B then
    match num with
    | some num => do
      let s ← s.openToken num (bracketType c)
      return (s, 1)
    | none => .ok (s, 1)
  else if c = 0x7D ∨ c = 0x5D then
    match num with
    | some _ => do
      let s ← s.closeToken (bracketType c)
      return (s, 0)
    | none => .ok (s, 0)
  else if c = 0x22 then do
    let s ← s.parseString num js
    return (s, 1)
  else if isBlank c then .ok (s, 0)
  else if c = 0x3A then .ok ({ s with toksuper := s.lastTok }, 0)
  else if c = 0x2C then
    match num with
    | some _ => do
      let s ← s.comma
      return (s, 0)
    | none => .ok (s, 0)
  else if startsPrimitive c then do
    let s ← s.parsePrimitive num js
    return (s, 1)
  else .error .inval

/-- The loop of `jsmn_parse`, up to the end of the text or a NUL. -/
def loop (num : Option Nat) (js : List UInt8) : Nat → Jsmn → Nat → Except JsmnError (Jsmn × Nat)
  | 0, s, count => .ok (s, count)
  | fuel + 1, s, count =>
    match js[s.pos]? with
    | none => .ok (s, count)
    | some c =>
      if c = 0 then .ok (s, count)
      else do
        let (s, more) ← s.step num js c
        loop num js fuel { s with pos := s.pos + 1 } (count + more)

/-- `jsmn_init`. -/
def init : Jsmn := ⟨0, none, []⟩

end Jsmn

/-- `jsmn_parse` of a new parser, into an array of `num` tokens or with `tokens == NULL`: the
tokens, and their number. -/
def jsmnParse (num : Option Nat) (js : List UInt8) : Except JsmnError (List JsmnTok × Nat) := do
  let (s, count) ← Jsmn.loop num js js.length .init 0
  -- an object or array that is not closed
  if s.tokens.any JsmnTok.isOpen then .error .part
  else return (s.tokens, count)

/-- `jparse_ctx_t`: the text, its tokens, and the one the cursor is at. -/
structure JparseCtx where
  js : List UInt8
  tokens : List JsmnTok
  cur : Nat
  deriving DecidableEq, Repr

/-- `json_parse_start`, or `none` for `-OS_FAIL`. -/
def jsonParseStart (js : List UInt8) : Option JparseCtx :=
  match jsmnParse none js with
  | .error _ => none
  | .ok (_, numTokens) =>
    if numTokens = 0 then none
    else
      match jsmnParse (some numTokens) js with
      | .error _ => none
      | .ok (tokens, _) => some ⟨js, tokens, 0⟩

end NinaHomekit
