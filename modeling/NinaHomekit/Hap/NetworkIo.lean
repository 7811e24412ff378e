import NinaHomekit.Hap.Array
import NinaHomekit.Lib.CArray
import NinaHomekit.Lib.Records

/-!
# Frames of a session

`esp_hap_network_io.c`: what a verified session sends and receives, in frames that are encrypted
one by one.  The cipher is arbitrary.

* `hapEncryptData`, `hapHttpdSend` — the sender, for what each call of `send` takes.
* `hapDecryptData`, `hapHttpdRecv` — the receiver, on the one frame that all sessions share.
* `openFrame` — the frame at the head of a stream, as the receiver is to open it.
* `readFrame_spec` — **what is read is that frame**, and which bytes are written past the end.
-/

namespace NinaHomekit

open Trace Records

/-! ## The cipher -/

/-- ChaCha20-Poly1305 of libsodium, detached, with what it promises. -/
structure Aead where
  /-- The data and the tag, for a key, a nonce and the additional data. -/
  encrypt : List UInt8 → List UInt8 → List UInt8 → List UInt8 → List UInt8 × List UInt8
  /-- The message; nothing if the tag is not that of the data. -/
  decrypt : List UInt8 → List UInt8 → List UInt8 → List UInt8 → List UInt8 → Option (List UInt8)
  length_data (key nonce aad msg : List UInt8) :
    (encrypt key nonce aad msg).1.length = msg.length
  length_tag (key nonce aad msg : List UInt8) : (encrypt key nonce aad msg).2.length = 16
  length_decrypt {key nonce aad data tag msg : List UInt8} :
    decrypt key nonce aad data tag = some msg → msg.length = data.length
  decrypt_encrypt (key nonce aad msg : List UInt8) :
    decrypt key nonce aad (encrypt key nonce aad msg).1 (encrypt key nonce aad msg).2 = some msg

/-- `HAP_MAX_NW_FRAME_SIZE`. -/
def hapMaxNwFrameSize : Nat := 1024
/-- `AUTH_TAG_LEN`. -/
def authTagLen : Nat := 16

/-- `get_u16_le`. -/
def getU16Le (b c : UInt8) : Nat := b.toNat + 256 * c.toNat

/-- `put_u16_le`. -/
def putU16Le (n : Nat) : List UInt8 := [UInt8.ofNat n, UInt8.ofNat (n / 256)]

/-- `newnonce`, for the 8 bytes that the session keeps. -/
def newnonce (nonce : CArray UInt8 8) : List UInt8 := List.replicate 4 0 ++ nonce.elems

/-- `int_nonce++`, on the 8 bytes that the session keeps. -/
def nextNonce (nonce : CArray UInt8 8) : CArray UInt8 8 :=
  .ofNat 8 ((nonce.toNat + 1) % 256 ^ 8)

/-- The members of `hap_secure_session_t` for the frames. -/
structure SecureSession where
  /-- `state`: `STATE_VERIFIED`, or `STATE_INVALID`. -/
  verified : Bool
  encryptKey : List UInt8
  decryptKey : List UInt8
  encryptNonce : CArray UInt8 8
  decryptNonce : CArray UInt8 8

/-! ## The sender -/

/-- `hap_encrypt_data`: the session, and the bytes of the frame. -/
def hapEncryptData (A : Aead) (s : SecureSession) (buf : List UInt8) :
    SecureSession × List UInt8 :=
  let e := A.encrypt s.encryptKey (newnonce s.encryptNonce) (putU16Le buf.length) buf
  ({ s with encryptNonce := nextNonce s.encryptNonce }, putU16Le buf.length ++ e.1 ++ e.2)

/-- The loop of `hap_httpd_send`, for what each call of `send` takes; no number for -1.  The
session, what the peer is sent, the calls that are left and whether it came to the end. -/
def sendLoop (A : Aead) : Nat → SecureSession → List UInt8 → List Nat →
    SecureSession × List UInt8 × List Nat × Bool
  | 0, s, _, taken => (s, [], taken, true)
  | fuel + 1, s, buf, taken =>
    if buf = [] then (s, [], taken, true)
    else
      let r := hapEncryptData A s (buf.take hapMaxNwFrameSize)
      match taken with
      | 0 :: taken => (r.1, [], taken, false)
      | k :: taken =>
        let t := sendLoop A fuel r.1 (buf.drop hapMaxNwFrameSize) taken
        (t.1, r.2.take k ++ t.2.1, t.2.2)
      | [] => (r.1, [], [], false)

/-- `hap_httpd_send`, on a verified session. -/
def hapHttpdSend (A : Aead) (s : SecureSession) (buf : List UInt8) (taken : List Nat) :
    SecureSession × List UInt8 × List Nat × Bool :=
  sendLoop A buf.length s buf taken

/-! ## The receiver -/

/-- `hap_decrypt_frame_t`, with the address of the session. -/
structure DecryptFrame where
  pktSize : Nat
  bytesRead : Nat
  data : List UInt8
  session : Option Nat
  deriving DecidableEq, Repr

/-- The frame after `memset`. -/
def DecryptFrame.zero : DecryptFrame :=
  ⟨0, 0, List.replicate (hapMaxNwFrameSize + authTagLen) 0, none⟩

/-- The bytes of the frame that nobody read. -/
def DecryptFrame.unread (f : DecryptFrame) : List UInt8 := (f.data.take f.pktSize).drop f.bytesRead

/-- What has arrived at a socket. -/
abbrev Socket := Pieces UInt8

/-- `hap_session_error`, less the request to close the session. -/
def hapSessionError (s : SecureSession) : SecureSession := { s with verified := false }

/-- The loop that reads the data and the tag, with whether it came to the end. -/
def recvLoop : Nat → DecryptFrame → Nat → Socket → Except Fault (DecryptFrame × Socket × Bool)
  | 0, f, _, sock => .ok (f, sock, true)
  | fuel + 1, f, bytesToRead, sock =>
    if bytesToRead = 0 then .ok (f, sock, true)
    else
      let r := recv bytesToRead sock
      if r.1 = [] then .ok (f, r.2, false)
      else do
        let data ← pokeAll f.data f.bytesRead r.1
        recvLoop fuel { f with data, bytesRead := (f.bytesRead + r.1.length) % 65536 }
          (bytesToRead - r.1.length) r.2

/-- The part of `hap_decrypt_data` that decrypts the frame, with whether its tag is right. -/
def decryptFrame (A : Aead) (f : DecryptFrame) (s : SecureSession) (sock : Socket) :
    Except Fault (DecryptFrame × SecureSession × Socket × Bool) := do
  let bytesRead := (f.bytesRead + 65536 - authTagLen) % 65536
  let data ← readBytes f.data 0 f.pktSize
  let tag ← readBytes f.data bytesRead authTagLen
  match A.decrypt s.decryptKey (newnonce s.decryptNonce) (putU16Le f.pktSize) data tag with
  | some msg =>
    return ({ f with bytesRead := 0, data := overwrite f.data 0 msg },
      { s with decryptNonce := nextNonce s.decryptNonce }, sock, true)
  | none => return ({ f with bytesRead }, hapSessionError s, sock, false)

/-- The part of `hap_decrypt_data` that reads a frame, with whether there is one. -/
def readFrame (A : Aead) (f : DecryptFrame) (s : SecureSession) (sock : Socket) :
    Except Fault (DecryptFrame × SecureSession × Socket × Bool) := do
  let r := recv 2 sock
  let data ← pokeAll f.data 0 r.1
  if r.1.length < 2 then return ({ f with data }, hapSessionError s, r.2, false)
  else do
    let pktSize := getU16Le (← readByte data 0) (← readByte data 1)
    let bytesToRead := (pktSize + authTagLen) % 65536
    let (f, sock, whole) ← recvLoop bytesToRead { f with pktSize, bytesRead := 0, data }
      bytesToRead r.2
    if whole then decryptFrame A f s sock else return (f, hapSessionError s, sock, false)

/-- The end of `hap_decrypt_data`; what is left is an `int`, and a negative one is copied as a
`size_t`. -/
def replyFrame (f : DecryptFrame) (bufSize : Nat) : Except Fault (DecryptFrame × List UInt8) :=
  if f.pktSize < f.bytesRead then .error (.outOfBounds f.data.length)
  else do
    let out ← readBytes f.data f.bytesRead (min (f.pktSize - f.bytesRead) bufSize)
    return ({ f with bytesRead := f.bytesRead + out.length }, out)

/-- The frame for the session at an address: another session's is cleared. -/
def DecryptFrame.forSession (f : DecryptFrame) (a : Nat) : DecryptFrame :=
  if f.session = some a then f else { DecryptFrame.zero with session := some a }

/-- `hap_decrypt_data` for the session at an address; nothing for -1. -/
def hapDecryptData (A : Aead) (f : DecryptFrame) (a : Nat) (s : SecureSession) (sock : Socket)
    (bufSize : Nat) : Except Fault (DecryptFrame × SecureSession × Socket × Option (List UInt8)) :=
  let f := f.forSession a
  if f.pktSize = f.bytesRead then do
    let (f, s, sock, whole) ← readFrame A f s sock
    if whole then do
      let (f, out) ← replyFrame f bufSize
      return (f, s, sock, some out)
    else return (f, s, sock, none)
  else do
    let (f, out) ← replyFrame f bufSize
    return (f, s, sock, some out)

/-- `hap_httpd_recv` on the socket of a session. -/
def hapHttpdRecv (A : Aead) (f : DecryptFrame) (a : Nat) (s : SecureSession) (sock : Socket)
    (bufLen : Nat) : Except Fault (DecryptFrame × SecureSession × Socket × Option (List UInt8)) :=
  if s.verified then hapDecryptData A f a s sock bufLen else .ok (f, s, sock, none)

/-! ## The frame at the head of a stream -/

/-- The message of the frame at the head of a stream, and what is behind it. -/
def openFrame (A : Aead) (key : List UInt8) (nonce : CArray UInt8 8) :
    List UInt8 → Option (List UInt8 × List UInt8)
  | b :: c :: body =>
    let n := getU16Le b c
    if n ≤ hapMaxNwFrameSize ∧ n + authTagLen ≤ body.length then
      (A.decrypt key (newnonce nonce) [b, c] (body.take n) ((body.drop n).take authTagLen)).map
        fun msg => (msg, body.drop (n + authTagLen))
    else none
  | _ => none

theorem getU16Le_lt (b c : UInt8) : getU16Le b c < 65536 := by
  have hb := b.toNat_lt
  have hc := c.toNat_lt
  rw [getU16Le]
  omega

theorem putU16Le_getU16Le (b c : UInt8) : putU16Le (getU16Le b c) = [b, c] := by
  have hb := b.toNat_lt
  have hc := c.toNat_lt
  simp only [putU16Le, getU16Le, List.cons.injEq, and_true, ← UInt8.toNat_inj,
    UInt8.toNat_ofNat']
  omega

variable {A : Aead} {key msg rest : List UInt8} {nonce : CArray UInt8 8}

theorem openFrame_eq_some {s : List UInt8} :
    openFrame A key nonce s = some (msg, rest) ↔ ∃ b c body, s = b :: c :: body ∧
      getU16Le b c ≤ 1024 ∧ getU16Le b c + 16 ≤ body.length ∧
      A.decrypt key (newnonce nonce) [b, c] (body.take (getU16Le b c))
        ((body.drop (getU16Le b c)).take 16) = some msg ∧
      rest = body.drop (getU16Le b c + 16) := by
  constructor
  · intro h
    match s, h with
    | b :: c :: body, h =>
      rw [openFrame] at h
      split at h
      · rename_i hfit
        obtain ⟨msg', hmsg, heq⟩ := Option.map_eq_some_iff.1 h
        cases heq
        exact ⟨b, c, body, rfl, hfit.1, hfit.2, hmsg, rfl⟩
      · cases h
  · rintro ⟨b, c, body, rfl, hmax, hfit, hmsg, rfl⟩
    have hfit' : getU16Le b c ≤ hapMaxNwFrameSize ∧ getU16Le b c + authTagLen ≤ body.length :=
      ⟨hmax, hfit⟩
    rw [openFrame, if_pos hfit']
    exact Option.map_eq_some_iff.2 ⟨msg, hmsg, rfl⟩

theorem length_openFrame {s : List UInt8} (h : openFrame A key nonce s = some (msg, rest)) :
    msg.length ≤ 1024 ∧ msg.length + 18 + rest.length = s.length := by
  obtain ⟨b, c, body, rfl, hmax, hfit, hmsg, rfl⟩ := openFrame_eq_some.1 h
  have hlen := A.length_decrypt hmsg
  rw [List.length_take] at hlen
  simp only [List.length_drop, List.length_cons]
  omega

/-! ## What is read -/

variable {f : DecryptFrame} {sock : Socket}

/-- What the loop may end in, if `n` bytes are to be read: it reads them, stops where nothing has
arrived, or writes past the end. -/
def LoopRead (f : DecryptFrame) (n : Nat) (sock : Socket) :
    Except Fault (DecryptFrame × Socket × Bool) → Prop
  | .ok (f', sock', true) => n ≤ (elems sock).length ∧ f.bytesRead + n ≤ 1040 ∧
      f' = { f with bytesRead := f.bytesRead + n,
                    data := overwrite f.data f.bytesRead ((elems sock).take n) } ∧
      elems sock' = (elems sock).drop n
  | .ok (f', _, false) => (elems sock).length < n ∧ f.bytesRead + (elems sock).length ≤ 1040 ∧
      f'.data.length = 1040 ∧ f'.session = f.session
  | .error _ => 1040 < f.bytesRead + min n (elems sock).length

/-- **The loop reads what is to be read**, or stops.  Induction on the fuel. -/
theorem recvLoop_spec (sock : Socket) {fuel n : Nat} (hfuel : n ≤ fuel)
    (hlen : f.data.length = 1040) (hread : f.bytesRead ≤ 1040) :
    LoopRead f n sock (recvLoop fuel f n sock) := by
  induction fuel generalizing f n sock with
  | zero =>
    obtain rfl : n = 0 := Nat.le_zero.1 hfuel
    simp [LoopRead, recvLoop, overwrite]
    omega
  | succ fuel ih =>
    by_cases hn : n = 0
    · subst hn
      simp [LoopRead, recvLoop, overwrite]
      omega
    · have hsplit := recv_append n sock
      have hle := length_recv_le n sock
      have hnil := recv_eq_nil_iff (n := n) (s := sock)
      rw [recvLoop, if_neg hn]
      generalize recv n sock = r at hsplit hle hnil
      obtain ⟨got, sock'⟩ := r
      simp only at hsplit hle hnil ⊢
      by_cases hgot : got = []
      · have hempty : elems sock = [] := by rw [hnil.1 hgot |>.resolve_left hn, elems_nil]
        rw [if_pos hgot]
        simp [LoopRead, hempty, hlen, Nat.pos_of_ne_zero hn, hread]
      · have hpos : 0 < got.length := List.length_pos_iff_ne_nil.2 hgot
        have havail : (elems sock).length = got.length + (elems sock').length := by
          rw [← hsplit, List.length_append]
        rw [if_neg hgot]
        by_cases hroom : f.bytesRead + got.length ≤ 1040
        · have hmod : (f.bytesRead + got.length) % 65536 = f.bytesRead + got.length :=
            Nat.mod_eq_of_lt (by omega)
          have hnext := ih sock' (f := { f with
            bytesRead := (f.bytesRead + got.length) % 65536
            data := overwrite f.data f.bytesRead got }) (n := n - got.length)
            (by omega) (by rw [length_overwrite _ _ _ (by omega), hlen]) (by simp only; omega)
          rw [pokeAll_eq (by omega), ok_bind]
          generalize recvLoop _ _ _ _ = l at hnext
          rcases l with e | ⟨f', sock'', _ | _⟩
          · simp only [LoopRead] at hnext ⊢
            omega
          · obtain ⟨hn', hle', hlen', hsession⟩ := hnext
            simp only at hle'
            exact ⟨by omega, by omega, hlen', hsession⟩
          · obtain ⟨hn', hle', rfl, hrest⟩ := hnext
            simp only at hle'
            refine ⟨by omega, by omega, ?_, ?_⟩
            · have htake : (elems sock).take n = got ++ (elems sock').take (n - got.length) := by
                rw [← hsplit, List.take_append, List.take_of_length_le hle]
              rw [htake, ← overwrite_overwrite (by omega)]
              simp only [hmod]
              congr 1
              omega
            · rw [hrest, ← hsplit, List.drop_append, List.drop_of_length_le hle, List.nil_append]
        · rw [pokeAll_error (by omega) (by omega), error_bind]
          simp only [LoopRead]
          omega

variable {s : SecureSession}

/-- The frame that is decrypted, if it is not too long. -/
theorem decryptFrame_eq (hlen : f.data.length = 1040) (hpkt : f.pktSize ≤ 1024)
    (hread : f.bytesRead = f.pktSize + 16) :
    decryptFrame A f s sock = .ok
      (match A.decrypt s.decryptKey (newnonce s.decryptNonce) (putU16Le f.pktSize)
          (f.data.take f.pktSize) ((f.data.drop f.pktSize).take 16) with
        | some msg => ({ f with bytesRead := 0, data := overwrite f.data 0 msg },
            { s with decryptNonce := nextNonce s.decryptNonce }, sock, true)
        | none => ({ f with bytesRead := f.pktSize }, hapSessionError s, sock, false)) := by
  have hback : (f.bytesRead + 65536 - authTagLen) % 65536 = f.pktSize := by
    rw [hread, authTagLen]
    omega
  have hdata : readBytes f.data 0 f.pktSize = .ok (f.data.take f.pktSize) := by
    rw [readBytes, if_pos (by omega), List.drop_zero]
  have htag : readBytes f.data f.pktSize authTagLen = .ok ((f.data.drop f.pktSize).take 16) := by
    rw [readBytes, if_pos (by rw [authTagLen]; omega), authTagLen]
  simp only [decryptFrame, hback, hdata, htag, ok_bind]
  cases A.decrypt s.decryptKey (newnonce s.decryptNonce) (putU16Le f.pktSize)
    (f.data.take f.pktSize) ((f.data.drop f.pktSize).take 16) <;> rfl

/-- The frame that is too long for the array. -/
theorem decryptFrame_error (sock : Socket) (hlen : f.data.length = 1040) (hpkt : 1040 < f.pktSize) :
    ∃ e, decryptFrame A f s sock = .error e := by
  have hdata : readBytes f.data 0 f.pktSize = .error (.outOfBounds f.data.length) := by
    rw [readBytes, if_neg (by omega)]
  exact ⟨_, by rw [decryptFrame, hdata, error_bind]⟩

/-- More than the array holds is there for the frame that is announced. -/
def Overruns (sock : Socket) : Prop :=
  ∃ x y t, sock = x :: y :: t ∧ x.2 = false ∧ 1024 < getU16Le x.1 y.1 ∧
    min 1041 ((getU16Le x.1 y.1 + 16) % 65536) ≤ t.length

theorem overruns_cons {x y : UInt8 × Bool} (hx : x.2 = false) (t : Socket) :
    Overruns (x :: y :: t) ↔ 1024 < getU16Le x.1 y.1 ∧
      min 1041 ((getU16Le x.1 y.1 + 16) % 65536) ≤ t.length := by
  constructor
  · rintro ⟨x', y', t', heq, -, hover⟩
    cases heq
    exact hover
  · exact fun hover => ⟨x, y, t, rfl, hx, hover⟩

/-- Behind the two bytes of a length. -/
theorem readFrame_header (hlen : f.data.length = 1040) {x y : UInt8 × Bool} (hx : x.2 = false)
    (t : Socket) :
    readFrame A f s (x :: y :: t) = (do
      let (f, sock, whole) ← recvLoop ((getU16Le x.1 y.1 + 16) % 65536)
        { f with
          pktSize := getU16Le x.1 y.1
          bytesRead := 0
          data := overwrite f.data 0 [x.1, y.1] }
        ((getU16Le x.1 y.1 + 16) % 65536) t
      if whole then decryptFrame A f s sock else return (f, hapSessionError s, sock, false)) := by
  have hpoke : pokeAll f.data 0 [x.1, y.1] = .ok (overwrite f.data 0 [x.1, y.1]) :=
    pokeAll_eq (by simp [hlen])
  have hdrop : (overwrite f.data 0 [x.1, y.1]).drop 0 = x.1 :: y.1 :: f.data.drop 2 := by
    simp [overwrite]
  have hdrop' : (overwrite f.data 0 [x.1, y.1]).drop 1 = y.1 :: f.data.drop 2 := by
    simp [overwrite]
  simp only [readFrame, recv_two hx, hpoke, ok_bind, readByte_drop hdrop, readByte_drop hdrop',
    authTagLen]
  rfl

/-- Fewer than two bytes. -/
theorem readFrame_short (hlen : f.data.length = 1040) (hshort : (recv 2 sock).1.length < 2) :
    readFrame A f s sock = .ok ({ f with data := overwrite f.data 0 (recv 2 sock).1 },
      hapSessionError s, (recv 2 sock).2, false) := by
  have hpoke : pokeAll f.data 0 (recv 2 sock).1 = .ok (overwrite f.data 0 (recv 2 sock).1) :=
    pokeAll_eq (by omega)
  simp only [readFrame, hpoke, ok_bind, if_pos hshort]
  rfl

/-- The bytes of the frame, once they are in the array. -/
theorem take_drop_overwrite (data : List UInt8) {body : List UInt8} {n : Nat}
    (hn : n + 16 ≤ body.length) :
    (overwrite data 0 (body.take (n + 16))).take n = body.take n ∧
      ((overwrite data 0 (body.take (n + 16))).drop n).take 16 = (body.drop n).take 16 := by
  have hlen : (body.take (n + 16)).length = n + 16 := by rw [List.length_take]; omega
  simp only [overwrite, List.take_zero, List.nil_append]
  constructor
  · rw [List.take_append_of_le_length (by omega), List.take_take, Nat.min_eq_left (by omega)]
  · rw [List.drop_append_of_le_length (by omega), List.take_append_of_le_length
      (by rw [List.length_drop]; omega), List.drop_take, Nat.add_sub_cancel_left, List.take_take,
      Nat.min_self]

/-- What reading a frame may end in: the frame at the head of the stream, nothing, or more than the
array holds. -/
def FrameRead (A : Aead) (f : DecryptFrame) (s : SecureSession) (sock : Socket) :
    Except Fault (DecryptFrame × SecureSession × Socket × Bool) → Prop
  | .ok (f', s', sock', true) => ∃ msg,
      openFrame A s.decryptKey s.decryptNonce (elems sock) = some (msg, elems sock') ∧
      f'.data.length = 1040 ∧ f'.session = f.session ∧ f'.pktSize = msg.length ∧
      f'.bytesRead = 0 ∧ f'.data.take msg.length = msg ∧
      s' = { s with decryptNonce := nextNonce s.decryptNonce }
  | .ok (f', s', _, false) => ¬ Overruns sock ∧
      ((∃ x ∈ sock.head?, x.2 = true) ∨
        openFrame A s.decryptKey s.decryptNonce (elems sock) = none) ∧
      f'.data.length = 1040 ∧ f'.session = f.session ∧ s' = hapSessionError s
  | .error _ => Overruns sock

theorem openFrame_cons (A : Aead) (key : List UInt8) (nonce : CArray UInt8 8)
    (x y : UInt8 × Bool) (t : Socket) :
    openFrame A key nonce (elems (x :: y :: t)) =
      if getU16Le x.1 y.1 ≤ 1024 ∧ getU16Le x.1 y.1 + 16 ≤ (elems t).length then
        (A.decrypt key (newnonce nonce) [x.1, y.1]
          ((elems t).take (getU16Le x.1 y.1)) (((elems t).drop (getU16Le x.1 y.1)).take 16)).map
            fun msg => (msg, (elems t).drop (getU16Le x.1 y.1 + 16))
      else none :=
  rfl

/-- Where all of a frame is in the array that is not too long. -/
theorem frameRead_decryptFrame {data : List UInt8} (hlen : data.length = 1040)
    {x y : UInt8 × Bool} (hx : x.2 = false) {t sock' : Socket} {n : Nat}
    (hn : getU16Le x.1 y.1 = n) (hmax : n ≤ 1024) (hfit : n + 16 ≤ (elems t).length)
    (hrest : elems sock' = (elems t).drop (n + 16)) :
    FrameRead A f s (x :: y :: t) (decryptFrame A { f with
      pktSize := n
      bytesRead := n + 16
      data := overwrite data 0 ((elems t).take (n + 16)) } s sock') := by
  have hput := putU16Le_getU16Le x.1 y.1
  have hoverruns := overruns_cons hx (y := y) t
  have hopen := openFrame_cons A s.decryptKey s.decryptNonce x y t
  rw [hn] at hput hoverruns hopen
  have hlen' : (overwrite data 0 ((elems t).take (n + 16))).length = 1040 := by
    rw [length_overwrite _ _ _ (by rw [List.length_take]; omega), hlen]
  obtain ⟨htake, hdrop⟩ := take_drop_overwrite data hfit
  rw [decryptFrame_eq hlen' hmax rfl]
  simp only [htake, hdrop, hput]
  rw [if_pos ⟨hmax, hfit⟩] at hopen
  cases hdec : A.decrypt s.decryptKey (newnonce s.decryptNonce) [x.1, y.1]
      ((elems t).take n) (((elems t).drop n).take 16) with
  | some msg =>
    rw [hdec, Option.map_some, ← hrest] at hopen
    have hmsg : msg.length = n := by
      rw [A.length_decrypt hdec, List.length_take]
      omega
    refine ⟨msg, hopen, ?_, rfl, hmsg.symm, rfl, ?_, rfl⟩
    · rw [length_overwrite _ _ _ (by omega), hlen']
    · simp [overwrite]
  | none =>
    rw [hdec, Option.map_none] at hopen
    exact ⟨fun hover => by have := (hoverruns.1 hover).1; omega, Or.inr hopen, hlen', rfl, rfl⟩

/-- Behind the two bytes of a length.  The cases are those of the loop. -/
theorem frameRead_header (hlen : f.data.length = 1040) {x y : UInt8 × Bool} (hx : x.2 = false)
    (t : Socket) : FrameRead A f s (x :: y :: t) (readFrame A f s (x :: y :: t)) := by
  have hpkt := getU16Le_lt x.1 y.1
  have hoverruns := overruns_cons hx (y := y) t
  have hopen := openFrame_cons A s.decryptKey s.decryptNonce x y t
  have hcount : (elems t).length = t.length := List.length_map ..
  rw [readFrame_header hlen hx]
  generalize hn : getU16Le x.1 y.1 = n at *
  have hlen₀ : (overwrite f.data 0 [x.1, y.1]).length = 1040 := by
    rw [length_overwrite _ _ _ (by simp [hlen]), hlen]
  have hloop := recvLoop_spec t (le_refl ((n + 16) % 65536))
    (f := { f with pktSize := n, bytesRead := 0, data := overwrite f.data 0 [x.1, y.1] })
    hlen₀ (Nat.zero_le _)
  generalize recvLoop _ _ _ _ = l at hloop
  rcases l with e | ⟨f', sock', _ | _⟩
  · simp only [LoopRead, Nat.zero_add] at hloop
    exact hoverruns.2 ⟨by omega, by omega⟩
  · obtain ⟨hshort, hle, hlen', hsession⟩ := hloop
    simp only [Nat.zero_add] at hle
    refine ⟨fun hover => ?_, Or.inr ?_, hlen', hsession, rfl⟩
    · have := (hoverruns.1 hover).2
      omega
    · rw [hopen, if_neg (by omega)]
  · obtain ⟨hfit, hle, rfl, hrest⟩ := hloop
    simp only [Nat.zero_add] at hle
    simp only [ok_bind, if_true, Nat.zero_add]
    by_cases hmax : n ≤ 1024
    · have hmod : (n + 16) % 65536 = n + 16 := Nat.mod_eq_of_lt (by omega)
      rw [hmod] at hfit hrest ⊢
      exact frameRead_decryptFrame hlen₀ hx hn hmax hfit hrest
    · obtain ⟨e, he⟩ := decryptFrame_error (A := A) (s := s) sock' (f := { f with
        pktSize := n
        bytesRead := (n + 16) % 65536
        data := overwrite (overwrite f.data 0 [x.1, y.1]) 0
          ((elems t).take ((n + 16) % 65536)) })
        (by rw [length_overwrite _ _ _ (by rw [List.length_take]; omega), hlen₀])
        (by simp only; omega)
      rw [he]
      exact hoverruns.2 ⟨by omega, by omega⟩

/-- Where a call returns fewer than two bytes. -/
theorem frameRead_short (hlen : f.data.length = 1040) (hshort : (recv 2 sock).1.length < 2)
    (hnot : ¬ Overruns sock) (hend : (∃ x ∈ sock.head?, x.2 = true) ∨
      openFrame A s.decryptKey s.decryptNonce (elems sock) = none) :
    FrameRead A f s sock (readFrame A f s sock) := by
  rw [readFrame_short hlen hshort]
  refine ⟨hnot, hend, ?_, rfl, rfl⟩
  rw [length_overwrite _ _ _ (by omega), hlen]

/-- **What is read**: the frame at the head of the stream, nothing, or more than the array
holds. -/
theorem readFrame_spec (A : Aead) (s : SecureSession) (sock : Socket)
    (hlen : f.data.length = 1040) :
    FrameRead A f s sock (readFrame A f s sock) := by
  rcases sock with _ | ⟨x, _ | ⟨y, t⟩⟩
  · refine frameRead_short hlen Nat.zero_lt_two ?_ (.inr rfl)
    rintro ⟨_, _, _, h, -⟩
    cases h
  · have hone : (recv 2 [x]).1 = [x.1] := by cases hx : x.2 <;> simp [recv, hx]
    refine frameRead_short hlen (by simp [hone]) ?_ (.inr rfl)
    rintro ⟨_, _, _, h, -⟩
    cases h
  · cases hx : x.2 with
    | false => exact frameRead_header hlen hx t
    | true =>
      have hone : (recv 2 (x :: y :: t)).1 = [x.1] := by simp [recv, hx]
      refine frameRead_short hlen (by simp [hone]) ?_ (.inl ⟨x, rfl, hx⟩)
      rintro ⟨x', y', t', h, hx', -⟩
      cases h
      rw [hx] at hx'
      cases hx'

/-! ## What is returned -/

@[simp] theorem session_forSession (f : DecryptFrame) (a : Nat) :
    (f.forSession a).session = some a := by
  unfold DecryptFrame.forSession
  split
  · assumption
  · rfl

theorem length_forSession (hlen : f.data.length = 1040) (a : Nat) :
    (f.forSession a).data.length = 1040 := by
  unfold DecryptFrame.forSession
  split
  · exact hlen
  · exact List.length_replicate

theorem unread_of_eq (h : f.pktSize = f.bytesRead) : f.unread = [] := by
  rw [DecryptFrame.unread, h]
  exact List.drop_eq_nil_of_le (List.length_take_le _ _)

/-- **The bytes of the frame that are returned**, and the ones that stay. -/
theorem replyFrame_eq_ok {f' : DecryptFrame} {out : List UInt8} {n : Nat}
    (h : replyFrame f n = .ok (f', out)) :
    out = f.unread.take n ∧ f'.unread = f.unread.drop n ∧ f'.data = f.data ∧
      f'.session = f.session ∧ f'.pktSize = f.pktSize ∧ f'.bytesRead ≤ f'.pktSize := by
  unfold replyFrame at h
  split at h
  · cases h
  · rename_i hread
    obtain ⟨out', hout, heq⟩ := bind_eq_ok.1 h
    cases heq
    unfold readBytes at hout
    split at hout
    · rename_i hroom
      cases hout
      have hunread : f.unread = (f.data.drop f.bytesRead).take (f.pktSize - f.bytesRead) :=
        List.drop_take ..
      have hlen : f.unread.length ≤ f.pktSize - f.bytesRead := by
        rw [hunread]
        exact List.length_take_le _ _
      have hcount : ((f.data.drop f.bytesRead).take (min (f.pktSize - f.bytesRead) n)).length =
          min (f.pktSize - f.bytesRead) n := by
        rw [List.length_take, List.length_drop]
        omega
      refine ⟨?_, ?_, rfl, rfl, rfl, ?_⟩
      · rw [hunread, List.take_take, Nat.min_comm]
      · simp only [DecryptFrame.unread, hcount]
        rw [← List.drop_drop]
        show f.unread.drop _ = f.unread.drop n
        rcases Nat.le_total n (f.pktSize - f.bytesRead) with hle | hle
        · rw [Nat.min_eq_right hle]
        · rw [Nat.min_eq_left hle, List.drop_of_length_le hlen,
            List.drop_of_length_le (hlen.trans hle)]
      · simp only [hcount]
        omega
    · cases hout

/-- A frame whose bytes are in the array is returned. -/
theorem exists_replyFrame (hread : f.bytesRead ≤ f.pktSize) (hpkt : f.pktSize ≤ f.data.length)
    (n : Nat) : ∃ r, replyFrame f n = .ok r := by
  unfold replyFrame
  rw [if_neg (by omega), readBytes, if_pos (by omega)]
  exact ⟨_, rfl⟩

/-- **What a call may do**: return bytes that are left of a frame, open the next one, or end the
session. -/
theorem hapDecryptData_cases (hlen : f.data.length = 1040) {a n : Nat} {f' : DecryptFrame}
    {s' : SecureSession} {sock' : Socket} {r : Option (List UInt8)}
    (h : hapDecryptData A f a s sock n = .ok (f', s', sock', r)) :
    f'.data.length = 1040 ∧ f'.session = some a ∧
    ((f.session = some a ∧ s' = s ∧ sock' = sock ∧ r = some (f.unread.take n) ∧
        f'.unread = f.unread.drop n ∧ f'.pktSize = f.pktSize ∧ f'.bytesRead ≤ f'.pktSize ∧
        f.pktSize ≠ f.bytesRead) ∨
      (∃ msg, (f.session = some a → f.pktSize = f.bytesRead) ∧
        openFrame A s.decryptKey s.decryptNonce (elems sock) = some (msg, elems sock') ∧
        s' = { s with decryptNonce := nextNonce s.decryptNonce } ∧ r = some (msg.take n) ∧
        f'.unread = msg.drop n ∧ f'.pktSize = msg.length ∧ f'.bytesRead ≤ f'.pktSize) ∨
      ((f.session = some a → f.pktSize = f.bytesRead) ∧ s' = hapSessionError s ∧ r = none)) := by
  have hlen' := length_forSession hlen a
  have hsession := session_forSession f a
  have hfor : f.session = some a → f.forSession a = f := fun h => if_pos h
  unfold hapDecryptData at h
  dsimp only at h
  split at h
  · rename_i hclean
    have hheld : f.session = some a → f.pktSize = f.bytesRead := fun h => by
      rwa [hfor h] at hclean
    have hspec := readFrame_spec A s sock hlen'
    obtain ⟨⟨f₁, s₁, sock₁, whole⟩, hframe, h⟩ := bind_eq_ok.1 h
    rw [hframe] at hspec
    cases whole with
    | true =>
      obtain ⟨msg, hopen, hlen₁, hsession₁, hpkt, hread, hmsg, rfl⟩ := hspec
      obtain ⟨⟨f₂, out⟩, hreply, heq⟩ := bind_eq_ok.1 h
      cases heq
      obtain ⟨rfl, hunread, hdata, hsession₂, hpkt₂, hread₂⟩ := replyFrame_eq_ok hreply
      have hall : f₁.unread = msg := by
        rw [DecryptFrame.unread, hpkt, hread, List.drop_zero, hmsg]
      rw [hall] at hunread ⊢
      exact ⟨by rw [hdata, hlen₁], by rw [hsession₂, hsession₁, hsession],
        .inr (.inl ⟨msg, hheld, hopen, rfl, rfl, hunread, by rw [hpkt₂, hpkt], hread₂⟩)⟩
    | false =>
      obtain ⟨-, -, hlen₁, hsession₁, rfl⟩ := hspec
      cases h
      exact ⟨hlen₁, by rw [hsession₁, hsession], .inr (.inr ⟨hheld, rfl, rfl⟩)⟩
  · rename_i hunclean
    obtain ⟨⟨f₂, out⟩, hreply, heq⟩ := bind_eq_ok.1 h
    cases heq
    have hheld : f.session = some a := by
      by_contra hne
      exact hunclean (by rw [DecryptFrame.forSession, if_neg hne]; rfl)
    rw [hfor hheld] at hreply hunclean
    obtain ⟨rfl, hunread, hdata, hsession₂, hpkt₂, hread₂⟩ := replyFrame_eq_ok hreply
    exact ⟨by rw [hdata, hlen], by rw [hsession₂, hheld],
      .inl ⟨hheld, rfl, rfl, rfl, hunread, hpkt₂, hread₂, hunclean⟩⟩

theorem not_overruns_of_openFrame (h : openFrame A key nonce (elems sock) = some (msg, rest)) :
    ¬ Overruns sock := by
  rintro ⟨x, y, t, rfl, -, hmax, -⟩
  obtain ⟨b, c, body, heq, hle, -⟩ := openFrame_eq_some.1 h
  cases heq
  omega

/-- **Which calls write past the end**, of those that are to open a frame. -/
theorem hapDecryptData_error (hlen : f.data.length = 1040) {a : Nat}
    (hclean : (f.forSession a).pktSize = (f.forSession a).bytesRead) (n : Nat) :
    (∃ e, hapDecryptData A f a s sock n = .error e) ↔ Overruns sock := by
  have hspec := readFrame_spec A s sock (length_forSession hlen a)
  unfold hapDecryptData
  dsimp only
  rw [if_pos hclean]
  match readFrame A (f.forSession a) s sock, hspec with
  | .ok (f', s', sock', true), hspec =>
    obtain ⟨msg, hopen, hlen', -, hpkt, hread, hmsg, -⟩ := hspec
    have hle : f'.pktSize ≤ f'.data.length := by
      have := congrArg List.length hmsg
      rw [List.length_take] at this
      omega
    obtain ⟨r, hr⟩ := exists_replyFrame (by omega) hle n
    simp only [ok_bind, if_true, hr]
    exact ⟨fun ⟨e, he⟩ => (by cases he),
      fun hover => absurd hover (not_overruns_of_openFrame hopen)⟩
  | .ok (f', s', sock', false), hspec =>
    exact ⟨fun ⟨e, he⟩ => (by cases he), fun hover => absurd hover hspec.1⟩
  | .error e, hspec => exact ⟨fun _ => hspec, fun _ => ⟨e, rfl⟩⟩

/-! ## The records of a session -/

/-- The frames of a session, whose numbers are the nonces. -/
def frameFormat (A : Aead) (key : List UInt8) : Format UInt8 (List UInt8) where
  next k s := openFrame A key (.ofNat 8 k) s
  next_append t h := by
    obtain ⟨b, c, body, rfl, hmax, hfit, hmsg, rfl⟩ := openFrame_eq_some.1 h
    refine openFrame_eq_some.2 ⟨b, c, body ++ t, rfl, hmax, ?_, ?_, ?_⟩
    · rw [List.length_append]
      omega
    · rwa [List.take_append_of_le_length (by omega), List.drop_append_of_le_length (by omega),
        List.take_append_of_le_length (by rw [List.length_drop]; omega)]
    · rw [List.drop_append_of_le_length (by omega)]
  length_next h := by
    have := (length_openFrame h).2
    omega

theorem natBytes_mod (n x : Nat) : CArray.natBytes n (x % 256 ^ n) = CArray.natBytes n x := by
  induction n generalizing x with
  | zero => rfl
  | succ n ih =>
    have hhead : UInt8.ofNat (x % 256 ^ (n + 1)) = UInt8.ofNat x := by
      rw [← UInt8.toNat_inj, UInt8.toNat_ofNat', UInt8.toNat_ofNat']
      exact Nat.mod_mod_of_dvd x (Dvd.intro_left _ (pow_succ 256 n).symm)
    rw [CArray.natBytes, CArray.natBytes, hhead, pow_succ', Nat.mod_mul_right_div_self, ih]

theorem ofNat_mod (n x : Nat) : CArray.ofNat n (x % 256 ^ n) = CArray.ofNat n x :=
  CArray.ext (natBytes_mod n x)

/-- **The nonce of the next frame**, also where the number has no room. -/
theorem nextNonce_ofNat (k : Nat) : nextNonce (.ofNat 8 k) = .ofNat 8 (k + 1) := by
  have hlt : k % 256 ^ 8 < 256 ^ 8 := Nat.mod_lt k (by positivity)
  rw [nextNonce, ← ofNat_mod 8 k, CArray.toNat_ofNat hlt, Nat.mod_add_mod, ofNat_mod]

/-! ## A cipher -/

/-- A key of bytes 7. -/
def sevenKey : List UInt8 := List.replicate 32 7

/-- `hi`, encrypted with these bytes as the key and the nonce 0. -/
def hiData : List UInt8 := [0x5F, 0xED]

/-- Its tag. -/
def hiTag : List UInt8 :=
  [0xF7, 0xF6, 0x65, 0x93, 0x53, 0xBA, 0xBB, 0xF8, 0x1D, 0xF5, 0x66, 0x87, 0x35, 0xBC, 0x98, 0xDD]

/-- A message, and what ChaCha20-Poly1305 makes of it under `sevenKey`. -/
structure SealedMsg where
  nonce : List UInt8
  aad : List UInt8
  msg : List UInt8
  data : List UInt8
  tag : List UInt8

/-- `hi` with the nonce 0, and `!` with the nonce 1. -/
def sevenSealed : List SealedMsg :=
  [⟨[0, 0, 0, 0, 0, 0, 0, 0, 0, 0, 0, 0], [2, 0], [0x68, 0x69], hiData, hiTag⟩,
    ⟨[0, 0, 0, 0, 1, 0, 0, 0, 0, 0, 0, 0], [1, 0], [0x21], [0x9B],
      [0x40, 0x89, 0xB0, 0x41, 0x98, 0xBB, 0xF8, 0x98, 0xA7, 0x30, 0x68, 0x6A, 0xFE, 0xA5, 0x82,
        0x83]⟩]

theorem length_sevenSealed : ∀ m ∈ sevenSealed, m.data.length = m.msg.length ∧ m.tag.length = 16 ∧
    m.tag ≠ List.replicate 16 0 := by
  decide

/-- The sealed message with this plain text. -/
def sealedOf (key nonce aad msg : List UInt8) : Option SealedMsg :=
  sevenSealed.find? fun m => key = sevenKey ∧ nonce = m.nonce ∧ aad = m.aad ∧ msg = m.msg

/-- The sealed message with these data and this tag. -/
def openedOf (key nonce aad data tag : List UInt8) : Option SealedMsg :=
  sevenSealed.find? fun m =>
    key = sevenKey ∧ nonce = m.nonce ∧ aad = m.aad ∧ data = m.data ∧ tag = m.tag

theorem openedOf_sealed {m : SealedMsg} (h : m ∈ sevenSealed) :
    ∃ m', openedOf sevenKey m.nonce m.aad m.data m.tag = some m' ∧ m'.msg = m.msg := by
  unfold sevenSealed at h
  rcases List.mem_cons.1 h with rfl | h
  · exact ⟨_, rfl, rfl⟩
  · obtain rfl := List.mem_singleton.1 h
    exact ⟨_, rfl, rfl⟩

/-- The cipher on these messages; others are left as they are, with a tag of zeros. -/
def hiAead : Aead where
  encrypt key nonce aad msg :=
    match sealedOf key nonce aad msg with
    | some m => (m.data, m.tag)
    | none => (msg, List.replicate 16 0)
  decrypt key nonce aad data tag :=
    match openedOf key nonce aad data tag with
    | some m => some m.msg
    | none => if tag = List.replicate 16 0 then some data else none
  length_data key nonce aad msg := by
    split
    · rename_i m h
      have hm := List.find?_some h
      rw [(of_decide_eq_true hm).2.2.2]
      exact (length_sevenSealed m (List.mem_of_find?_eq_some h)).1
    · rfl
  length_tag key nonce aad msg := by
    split
    · rename_i m h
      exact (length_sevenSealed m (List.mem_of_find?_eq_some h)).2.1
    · rfl
  length_decrypt {key nonce aad data tag msg} h := by
    split at h
    · rename_i m hm
      cases h
      have hdata := List.find?_some hm
      rw [(of_decide_eq_true hdata).2.2.2.1]
      exact (length_sevenSealed m (List.mem_of_find?_eq_some hm)).1.symm
    · split at h
      · cases h
        rfl
      · cases h
  decrypt_encrypt key nonce aad msg := by
    cases h : sealedOf key nonce aad msg with
    | some m =>
      have hm := List.find?_some h
      obtain ⟨rfl, rfl, rfl, rfl⟩ := of_decide_eq_true hm
      obtain ⟨m', hopened, hmsg⟩ := openedOf_sealed (List.mem_of_find?_eq_some h)
      simp only [hopened, hmsg]
    | none =>
      have hnone : openedOf key nonce aad msg (List.replicate 16 0) = none := by
        refine List.find?_eq_none.2 fun m hm hand => ?_
        have htag := (of_decide_eq_true hand).2.2.2.2
        exact (length_sevenSealed m hm).2.2 htag.symm
      simp only [hnone, if_true]

end NinaHomekit
