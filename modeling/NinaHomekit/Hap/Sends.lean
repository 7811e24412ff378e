import NinaHomekit.Hap.NetworkIo

/-!
# What the peer of a session reads

The frames of `hap_httpd_send`, opened by a peer that has the key.  A call of `send` may take a part
of a frame only, which the loop does not look at.

* `openFrame_hapEncryptData` — the peer opens a frame, whatever is behind it.
* `TakenWhole` — no frame is taken in part; `sendLoop_reads` is what the peer reads then, and
  `length_sendLoop` counts the bytes that it is sent.
* `sends_read` — **the peer reads what the calls on a session sent**, and goes on behind it.
* `send_read_iff` — a call that returns the number of its bytes is read **exactly if** no frame was
  taken in part.
-/

namespace NinaHomekit

open Records

/-! ## One frame -/

theorem getU16Le_putU16Le {n : Nat} (h : n < 65536) :
    getU16Le (UInt8.ofNat n) (UInt8.ofNat (n / 256)) = n := by
  rw [getU16Le, UInt8.toNat_ofNat', UInt8.toNat_ofNat']
  omega

variable {A : Aead} {s : SecureSession} {buf : List UInt8} {k fuel : Nat} {taken : List Nat}

theorem length_hapEncryptData (A : Aead) (s : SecureSession) (buf : List UInt8) :
    (hapEncryptData A s buf).2.length = buf.length + 18 := by
  simp only [hapEncryptData, putU16Le, List.length_append, A.length_data, A.length_tag,
    List.length_cons, List.length_nil]
  omega

/-- **The peer opens a frame**, whatever is behind it. -/
theorem openFrame_hapEncryptData (A : Aead) (s : SecureSession) (h : buf.length ≤ 1024)
    (rest : List UInt8) :
    openFrame A s.encryptKey s.encryptNonce ((hapEncryptData A s buf).2 ++ rest) =
      some (buf, rest) := by
  have hdata := A.length_data s.encryptKey (newnonce s.encryptNonce) (putU16Le buf.length) buf
  have htag := A.length_tag s.encryptKey (newnonce s.encryptNonce) (putU16Le buf.length) buf
  have hopen := A.decrypt_encrypt s.encryptKey (newnonce s.encryptNonce) (putU16Le buf.length) buf
  have hn : getU16Le (UInt8.ofNat buf.length) (UInt8.ofNat (buf.length / 256)) = buf.length :=
    getU16Le_putU16Le (by omega)
  rw [hapEncryptData]
  generalize A.encrypt s.encryptKey (newnonce s.encryptNonce) (putU16Le buf.length) buf = e
    at hdata htag hopen
  refine openFrame_eq_some.2 ⟨UInt8.ofNat buf.length, UInt8.ofNat (buf.length / 256),
    e.1 ++ (e.2 ++ rest), by simp [putU16Le], ?_, ?_, ?_, ?_⟩ <;> rw [hn]
  · exact h
  · simp only [List.length_append]
    omega
  · rw [List.take_left' hdata, List.drop_left' hdata, List.take_left' htag]
    exact hopen
  · rw [← List.drop_drop, List.drop_left' hdata, List.drop_left' htag]

/-! ## One call -/

/-- The calls of `send` that there were took the frame that they were given. -/
def TakenWhole (n : Nat) (taken : List Nat) : Prop :=
  ∀ i, 1024 * i < n → ∀ k, taken[i]? = some k → min 1024 (n - 1024 * i) + 18 ≤ k

theorem takenWhole_cons {n : Nat} (hpos : 0 < n) :
    TakenWhole n (k :: taken) ↔ min 1024 n + 18 ≤ k ∧ TakenWhole (n - 1024) taken := by
  constructor
  · refine fun h => ⟨h 0 (by omega) k rfl, fun i hi j hj => ?_⟩
    have := h (i + 1) (by omega) j hj
    omega
  · rintro ⟨hk, h⟩ i hi j hj
    rcases i with _ | i
    · cases hj
      exact hk
    · have := h i (by omega) j hj
      omega

/-- A turn of the loop that does not fail. -/
theorem sendLoop_cons (hbuf : buf ≠ []) (hok : (sendLoop A (fuel + 1) s buf taken).2.2.2 = true) :
    ∃ j taken', taken = j :: taken' ∧
      sendLoop A (fuel + 1) s buf taken =
        let r := hapEncryptData A s (buf.take 1024)
        let t := sendLoop A fuel r.1 (buf.drop 1024) taken'
        (t.1, r.2.take j ++ t.2.1, t.2.2) := by
  rcases taken with _ | ⟨_ | j, taken⟩
  · rw [sendLoop, if_neg hbuf] at hok
    cases hok
  · rw [sendLoop, if_neg hbuf] at hok
    cases hok
  · refine ⟨j + 1, taken, rfl, ?_⟩
    rw [sendLoop, if_neg hbuf, hapMaxNwFrameSize]
    rfl

/-- **What the peer reads of a call**, if no frame is taken in part. -/
theorem sendLoop_reads (hfuel : buf.length ≤ fuel) (hnonce : s.encryptNonce = .ofNat 8 k)
    (hok : (sendLoop A fuel s buf taken).2.2.2 = true) (hwhole : TakenWhole buf.length taken) :
    ∃ frames, frames.flatten = buf ∧
      (sendLoop A fuel s buf taken).1.encryptKey = s.encryptKey ∧
      (sendLoop A fuel s buf taken).1.encryptNonce = .ofNat 8 (k + frames.length) ∧
      ∀ rest, (frameFormat A s.encryptKey).Reads k
        ((sendLoop A fuel s buf taken).2.1 ++ rest) frames rest := by
  induction fuel generalizing s buf k taken with
  | zero =>
    obtain rfl : buf = [] := List.length_eq_zero_iff.1 (Nat.le_zero.1 hfuel)
    exact ⟨[], rfl, rfl, hnonce, fun rest => rfl⟩
  | succ fuel ih =>
    by_cases hbuf : buf = []
    · rw [sendLoop, if_pos hbuf]
      exact ⟨[], hbuf.symm, rfl, hnonce, fun rest => rfl⟩
    · have hpos : 0 < buf.length := List.length_pos_iff_ne_nil.2 hbuf
      obtain ⟨j, taken, rfl, heq⟩ := sendLoop_cons hbuf hok
      rw [heq] at hok ⊢
      rw [takenWhole_cons hpos] at hwhole
      have hframe := length_hapEncryptData A s (buf.take 1024)
      have hopen := openFrame_hapEncryptData A s (List.length_take_le 1024 buf)
      rw [List.length_take] at hframe
      have hnext : (hapEncryptData A s (buf.take 1024)).1.encryptNonce = .ofNat 8 (k + 1) := by
        rw [← nextNonce_ofNat, ← hnonce]
        rfl
      obtain ⟨frames, hflat, hkey, hlast, hreads⟩ := ih (s := (hapEncryptData A s _).1)
        (by rw [List.length_drop]; omega) hnext hok (by rw [List.length_drop]; exact hwhole.2)
      refine ⟨buf.take 1024 :: frames, ?_, hkey, ?_, fun rest => ?_⟩
      · rw [List.flatten_cons, hflat, List.take_append_drop]
      · rw [hlast, List.length_cons, Nat.add_assoc, Nat.add_comm 1]
      · have hall : (hapEncryptData A s (buf.take 1024)).2.take j =
            (hapEncryptData A s (buf.take 1024)).2 :=
          List.take_of_length_le (by omega)
        refine ⟨_, ?_, hreads rest⟩
        show openFrame A s.encryptKey (.ofNat 8 k) (List.take j _ ++ _ ++ rest) = _
        rw [hall, List.append_assoc, ← hnonce]
        exact hopen _

/-- **The bytes that the peer is sent** by a call that does not fail. -/
theorem length_sendLoop (hfuel : buf.length ≤ fuel)
    (hok : (sendLoop A fuel s buf taken).2.2.2 = true) :
    (sendLoop A fuel s buf taken).2.1.length ≤ buf.length + 18 * ((buf.length + 1023) / 1024) ∧
      ((sendLoop A fuel s buf taken).2.1.length = buf.length + 18 * ((buf.length + 1023) / 1024) →
        TakenWhole buf.length taken) := by
  induction fuel generalizing s buf taken with
  | zero =>
    obtain rfl : buf = [] := List.length_eq_zero_iff.1 (Nat.le_zero.1 hfuel)
    exact ⟨Nat.le_refl 0, fun _ i hi => absurd hi (Nat.not_lt_zero _)⟩
  | succ fuel ih =>
    by_cases hbuf : buf = []
    · subst hbuf
      exact ⟨Nat.le_refl 0, fun _ i hi => absurd hi (Nat.not_lt_zero _)⟩
    · have hpos : 0 < buf.length := List.length_pos_iff_ne_nil.2 hbuf
      obtain ⟨j, taken, rfl, heq⟩ := sendLoop_cons hbuf hok
      rw [heq] at hok ⊢
      obtain ⟨hle, hall⟩ := ih (by rw [List.length_drop]; omega) hok
      have hframe := length_hapEncryptData A s (buf.take 1024)
      rw [List.length_take] at hframe
      rw [List.length_drop] at hle hall
      rw [takenWhole_cons hpos]
      simp only [List.length_append, List.length_take, hframe]
      refine ⟨by omega, fun hsum => ⟨by omega, hall (by omega)⟩⟩

/-! ## What a peer reads -/

/-- The bytes that a peer reads of a stream, if the nonce of its first frame is `k`. -/
def peerReads (A : Aead) (key : List UInt8) (k : Nat) (stream : List UInt8) : List UInt8 :=
  ((frameFormat A key).records k stream).flatten

/-- A peer is sent 18 bytes more than it reads for every 1024 bytes of it. -/
theorem length_peerReads (A : Aead) (key : List UInt8) (k : Nat) (stream : List UInt8) :
    (peerReads A key k stream).length + 18 * (((peerReads A key k stream).length + 1023) / 1024) ≤
      stream.length := by
  have hcost := Format.length_flatten_records (frameFormat A key) (c := 18) ?_ k stream
  have hmax := Format.forall_mem_records (frameFormat A key) (P := fun r => r.length ≤ 1024) ?_ k
    stream
  · have hsum := List.sum_le_card_nsmul (((frameFormat A key).records k stream).map List.length)
      1024 (List.forall_mem_map.2 hmax)
    rw [List.length_map, smul_eq_mul, ← List.length_flatten] at hsum
    rw [peerReads]
    omega
  · exact fun h => (length_openFrame h).1
  · exact fun h => (length_openFrame h).2

/-- The calls of `hap_httpd_send` on a session, each with its bytes and what its calls of `send`
take: the session, what the peer is sent, and for each call whether it came to the end. -/
def sendRun (A : Aead) : SecureSession → List (List UInt8 × List Nat) →
    SecureSession × List UInt8 × List Bool
  | s, [] => (s, [], [])
  | s, c :: cs =>
    let r := hapHttpdSend A s c.1 c.2
    let t := sendRun A r.1 cs
    (t.1, r.2.1 ++ t.2.1, r.2.2.2 :: t.2.2)

/-- **The peer reads what the calls on a session sent.**  Behind it, it goes on with the nonce that
the session goes on with. -/
theorem sends_read {calls : List (List UInt8 × List Nat)} (hnonce : s.encryptNonce = .ofNat 8 k)
    (hok : ∀ ok ∈ (sendRun A s calls).2.2, ok = true)
    (hwhole : ∀ c ∈ calls, TakenWhole c.1.length c.2) :
    ∃ k', (sendRun A s calls).1.encryptNonce = .ofNat 8 k' ∧ ∀ later,
      peerReads A s.encryptKey k ((sendRun A s calls).2.1 ++ later) =
        (calls.map Prod.fst).flatten ++ peerReads A s.encryptKey k' later := by
  induction calls generalizing s k with
  | nil => exact ⟨k, hnonce, fun later => rfl⟩
  | cons c calls ih =>
    obtain ⟨hfirst, hrest⟩ := List.forall_mem_cons.1 hok
    obtain ⟨hwhole, hwholes⟩ := List.forall_mem_cons.1 hwhole
    obtain ⟨frames, hflat, hkey, hnext, hreads⟩ :=
      sendLoop_reads (Nat.le_refl _) hnonce hfirst hwhole
    obtain ⟨k', hlast, hlater⟩ := ih hnext hrest hwholes
    refine ⟨k', hlast, fun later => ?_⟩
    rw [List.map_cons, List.flatten_cons, List.append_assoc, ← hkey, ← hlater, hkey]
    rw [peerReads, sendRun, hapHttpdSend, List.append_assoc, (hreads _).records_eq,
      List.flatten_append, hflat]
    rfl

/-- A session with that key, from which nothing was sent. -/
def sevenSession : SecureSession := ⟨true, sevenKey, sevenKey, .ofNat 8 0, .ofNat 8 0⟩

/-- `hi` and `!`, in two calls. -/
theorem sends_read_hi : ∃ k',
    (sendRun hiAead sevenSession [([0x68, 0x69], [20]), ([0x21], [19])]).1.encryptNonce =
      .ofNat 8 k' ∧
    ∀ later, peerReads hiAead sevenKey 0
        ((sendRun hiAead sevenSession [([0x68, 0x69], [20]), ([0x21], [19])]).2.1 ++ later) =
      [0x68, 0x69, 0x21] ++ peerReads hiAead sevenKey k' later := by
  refine sends_read rfl (by decide) fun c hc i hi k hk => ?_
  obtain rfl | rfl : c = ([0x68, 0x69], [20]) ∨ c = ([0x21], [19]) := by simpa using hc
  all_goals
    simp only [List.length_cons, List.length_nil] at hi ⊢
    obtain rfl : i = 0 := by omega
    cases hk
    omega

/-- **Which calls are read whole**, of those that return the number of their bytes. -/
theorem send_read_iff (hnonce : s.encryptNonce = .ofNat 8 k)
    (hok : (hapHttpdSend A s buf taken).2.2.2 = true) :
    peerReads A s.encryptKey k (hapHttpdSend A s buf taken).2.1 = buf ↔
      TakenWhole buf.length taken := by
  constructor
  · intro hread
    have hsent := length_peerReads A s.encryptKey k (hapHttpdSend A s buf taken).2.1
    obtain ⟨hle, hall⟩ := length_sendLoop (Nat.le_refl _) hok
    rw [hread] at hsent
    exact hall (Nat.le_antisymm hle hsent)
  · intro hwhole
    obtain ⟨frames, hflat, -, -, hreads⟩ := sendLoop_reads (Nat.le_refl _) hnonce hok hwhole
    have hend : (frameFormat A s.encryptKey).records (k + frames.length) [] = [] :=
      Format.records_of_none _ rfl
    have heq := (hreads []).records_eq
    rw [hend, List.append_nil, List.append_nil] at heq
    rw [peerReads, hapHttpdSend, heq, hflat]

/-- A call that returns 2, of which the peer is sent 7 bytes of 20. -/
theorem send_read_iff_part :
    (hapHttpdSend hiAead sevenSession [0x68, 0x69] [7]).2.2.2 = true ∧
      peerReads hiAead sevenKey 0 (hapHttpdSend hiAead sevenSession [0x68, 0x69] [7]).2.1 ≠
        [0x68, 0x69] := by
  refine ⟨by decide, fun hread => ?_⟩
  have hwhole := (send_read_iff (s := sevenSession) (k := 0) rfl (by decide)).1 hread
  exact absurd (hwhole 0 (by decide) 7 rfl) (by decide)

end NinaHomekit
