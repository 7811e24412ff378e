import NinaHomekit.Hap.NetworkIo

/-!
# Sessions that share a frame

The receivers of all verified sessions, in any order of calls: they decrypt into one frame, which
remembers the session by its address.

* `Net`, `netStep` — the sessions, with what arrived at each and what its calls returned.
* `NetInv`, `netInv_step` — **what the frame has to do with each session**, kept by every step.
* `sessions_delivered` — what a session's calls return is what its peer encrypted, in order, less
  what other sessions' calls made it lose, and more if it was given a frame that was not empty.
* `sessions_overrun` — which calls write past the end of the frame.
-/

namespace NinaHomekit

open Trace Records

/-! ## The system -/

/-- A session with its socket, and what happened to it. -/
structure Conn where
  session : SecureSession
  sock : Socket
  /-- All bytes that arrived. -/
  arrived : List UInt8
  /-- All bytes that were returned. -/
  delivered : List UInt8
  /-- What nobody had read of the frame, where its address was that of the session already. -/
  found : List UInt8
  /-- The frame had its address already, and the sizes of it differed. -/
  stale : Bool
  /-- A call of another session cleared the frame while its sizes differed. -/
  lost : Bool

/-- The sessions, by their addresses, and the frame. -/
structure Net where
  frame : DecryptFrame
  conns : Nat → Option Conn

/-- No session. -/
def Net.init : Net := ⟨.zero, fun _ => none⟩

inductive NetEvent where
  /-- A pairing is verified, and its session is allocated at this address. -/
  | verify (a : Nat) (encryptKey decryptKey : List UInt8)
  /-- Bytes arrive, one segment of the stream. -/
  | arrive (a : Nat) (segment : List UInt8)
  /-- `hap_httpd_recv`. -/
  | recv (a : Nat) (bufLen : Nat)
  /-- `hap_free_session`. -/
  | free (a : Nat)

/-- The bytes of a segment; a call does not go on behind it. -/
def pieces : List UInt8 → Socket
  | [] => []
  | [b] => [(b, true)]
  | b :: bs => (b, false) :: pieces bs

/-- A session that has just been verified. -/
def Conn.new (f : DecryptFrame) (a : Nat) (encryptKey decryptKey : List UInt8) : Conn where
  session := ⟨true, encryptKey, decryptKey, .ofNat 8 0, .ofNat 8 0⟩
  sock := []
  arrived := []
  delivered := []
  found := if f.session = some a then f.unread else []
  stale := f.session = some a ∧ f.pktSize ≠ f.bytesRead
  lost := false

/-- The session that loses what it has not read, if the frame is cleared for the one at `a`. -/
def Net.clears (net : Net) (a : Nat) : Nat → Option Conn := fun b =>
  (net.conns b).map fun c =>
    if b ≠ a ∧ net.frame.session = some b ∧ net.frame.pktSize ≠ net.frame.bytesRead then
      { c with lost := true }
    else c

/-- One step.  An address that is in use is not given to another session. -/
def netStep (A : Aead) (net : Net) : NetEvent → Except Fault Net
  | .verify a encryptKey decryptKey =>
    if (net.conns a).isSome then .ok net
    else .ok { net with
      conns := Function.update net.conns a (some (.new net.frame a encryptKey decryptKey)) }
  | .arrive a segment =>
    .ok { net with
      conns := Function.update net.conns a ((net.conns a).map fun c =>
        { c with sock := c.sock ++ pieces segment, arrived := c.arrived ++ segment }) }
  | .recv a bufLen =>
    match net.conns a with
    | some c =>
      if c.session.verified then do
        let (frame, session, sock, out) ← hapHttpdRecv A net.frame a c.session c.sock bufLen
        return {
          frame
          conns := Function.update (net.clears a) a (some
            { c with session, sock, delivered := c.delivered ++ out.getD [] }) }
      else .ok net
    | none => .ok net
  | .free a => .ok { net with conns := Function.update net.conns a none }

@[simp] theorem elems_pieces (bs : List UInt8) : elems (pieces bs) = bs := by
  induction bs using pieces.induct with
  | case1 => rfl
  | case2 b => rfl
  | case3 b bs hbs ih => simp [pieces, ih]

/-! ## The invariant -/

/-- What was returned, and what is behind it, while the session is verified. -/
structure Receiving (A : Aead) (f : DecryptFrame) (a : Nat) (c : Conn)
    (rs : List (List UInt8)) (front out : List UInt8) : Prop where
  reads : (frameFormat A c.session.decryptKey).Reads 0 c.arrived rs (elems c.sock)
  nonce : c.session.decryptNonce = .ofNat 8 rs.length
  /-- The frame holds what is left of what was found in it, or of the last record. -/
  held : f.session = some a → (rs = [] ∧ out = [] ∧ front ++ f.unread = c.found ∧
      (c.stale = false → f.pktSize = f.bytesRead)) ∨
    ∃ rs' r out' d, rs = rs' ++ [r] ∧ out = out' ++ d ∧ Parts rs' out' ∧ d ++ f.unread = r ∧
      f.pktSize ≤ 1040 ∧ f.bytesRead ≤ f.pktSize
  all : c.lost = false →
    c.delivered ++ (if f.session = some a then f.unread else []) = c.found ++ rs.flatten

/-- What is known of a session. -/
def ConnInv (A : Aead) (f : DecryptFrame) (a : Nat) (c : Conn) : Prop :=
  ∃ rs rest front out, (frameFormat A c.session.decryptKey).Reads 0 c.arrived rs rest ∧
    Parts rs out ∧ front <+: c.found ∧ c.delivered = front ++ out ∧
    (c.lost = false → c.delivered <+: c.found ++ rs.flatten) ∧
    (c.session.verified = true → Receiving A f a c rs front out)

structure NetInv (A : Aead) (net : Net) : Prop where
  length : net.frame.data.length = 1040
  conn {a : Nat} {c : Conn} : net.conns a = some c → ConnInv A net.frame a c
  fresh {a : Nat} {c : Conn} : net.conns a = some c → c.stale = false → c.found = []

variable {A : Aead} {f f' : DecryptFrame} {a : Nat} {c : Conn}

theorem netInv_init : NetInv A Net.init :=
  ⟨List.length_replicate, fun h => (by cases h), fun h => (by cases h)⟩

theorem connInv_new (f : DecryptFrame) (a : Nat) (encryptKey decryptKey : List UInt8) :
    ConnInv A f a (.new f a encryptKey decryptKey) := by
  refine ⟨[], [], [], [], rfl, Parts.nil, List.nil_prefix, rfl, fun _ => List.nil_prefix, fun _ =>
    ⟨rfl, rfl, fun hheld => .inl ⟨rfl, rfl, ?_, ?_⟩, fun _ => ?_⟩⟩
  · simp [Conn.new, hheld]
  · simp [Conn.new, hheld]
  · simp [Conn.new]

theorem ConnInv.arrive (h : ConnInv A f a c) (segment : List UInt8) :
    ConnInv A f a { c with sock := c.sock ++ pieces segment, arrived := c.arrived ++ segment } := by
  obtain ⟨rs, rest, front, out, hreads, hparts, hfront, hdel, hall, hrec⟩ := h
  refine ⟨rs, rest ++ segment, front, out, hreads.append segment, hparts, hfront, hdel, hall,
    fun hver => ?_⟩
  obtain ⟨hreads, hnonce, hheld, hall⟩ := hrec hver
  exact ⟨by simpa using hreads.append segment, hnonce, hheld, hall⟩

/-- The calls of another session. -/
theorem ConnInv.clear (h : ConnInv A f a c) {b : Nat} (hne : a ≠ b)
    (hsession : f'.session = some b) :
    ConnInv A f' a (if f.session = some a ∧ f.pktSize ≠ f.bytesRead then { c with lost := true }
      else c) := by
  obtain ⟨rs, rest, front, out, hreads, hparts, hfront, hdel, hall, hrec⟩ := h
  have hnot : f'.session ≠ some a := by
    rw [hsession]
    exact fun h => hne (Option.some.inj h).symm
  split
  · exact ⟨rs, rest, front, out, hreads, hparts, hfront, hdel, fun h => (by cases h), fun hver =>
      ⟨(hrec hver).reads, (hrec hver).nonce, fun h => absurd h hnot, fun h => (by cases h)⟩⟩
  · rename_i hkept
    refine ⟨rs, rest, front, out, hreads, hparts, hfront, hdel, hall, fun hver =>
      ⟨(hrec hver).reads, (hrec hver).nonce, fun h => absurd h hnot, fun hlost => ?_⟩⟩
    have hsame := (hrec hver).all hlost
    rw [if_neg hnot]
    split at hsame
    · rename_i hheld
      rwa [unread_of_eq (by_contra fun hne => hkept ⟨hheld, hne⟩)] at hsame
    · exact hsame

/-- What is known while the session is verified is all that is known. -/
theorem connInv_of_receiving {rs : List (List UInt8)} {front out : List UInt8}
    (hrec : Receiving A f a c rs front out) (hparts : Parts rs out) (hfront : front <+: c.found)
    (hdel : c.delivered = front ++ out) : ConnInv A f a c :=
  ⟨rs, _, front, out, hrec.reads, hparts, hfront, hdel, fun hlost => ⟨_, hrec.all hlost⟩,
    fun _ => hrec⟩

variable {d : List UInt8}

/-- A call that returns what is left of the frame. -/
theorem ConnInv.reply (h : ConnInv A f a c) (hver : c.session.verified = true)
    (hheld : f.session = some a) (hheld' : f'.session = some a) (hne : f.pktSize ≠ f.bytesRead)
    (hsplit : d ++ f'.unread = f.unread) (hpkt : f'.pktSize = f.pktSize)
    (hread : f'.bytesRead ≤ f'.pktSize) :
    ConnInv A f' a { c with delivered := c.delivered ++ d } := by
  obtain ⟨rs, rest, front, out, -, hparts, hfront, hdel, -, hrec⟩ := h
  obtain ⟨hreads, hnonce, hframe, hall⟩ := hrec hver
  have hall' : c.lost = false → (c.delivered ++ d) ++ (if f'.session = some a then f'.unread else
      []) = c.found ++ rs.flatten := fun hlost => by
    rw [if_pos hheld', List.append_assoc, hsplit]
    simpa [hheld] using hall hlost
  rcases hframe hheld with ⟨rfl, rfl, hfound, hstale⟩ |
    ⟨rs, r, out, d', rfl, rfl, hparts', hr, hmax, -⟩
  · -- the session was given this frame, and has not read another one
    have hfound' : (front ++ d) ++ f'.unread = c.found := by
      rw [List.append_assoc, hsplit, hfound]
    refine connInv_of_receiving ⟨hreads, hnonce, fun _ => .inl ⟨rfl, rfl, hfound', fun hs => ?_⟩,
      hall'⟩ Parts.nil ⟨_, hfound'⟩ (by simp [hdel])
    exact absurd (hstale hs) hne
  · have hd : (d' ++ d) ++ f'.unread = r := by rw [List.append_assoc, hsplit, hr]
    refine connInv_of_receiving ⟨hreads, hnonce, fun _ => .inr ⟨rs, r, out, d' ++ d, rfl, rfl,
      hparts', hd, by omega, hread⟩, hall'⟩ (hparts'.concat ⟨_, hd⟩) hfront (by simp [hdel])

/-- A call that opens the next frame. -/
theorem ConnInv.nextFrame (h : ConnInv A f a c) (hver : c.session.verified = true)
    (hclean : f.session = some a → f.pktSize = f.bytesRead) (hheld' : f'.session = some a)
    {msg : List UInt8} {sock' : Socket}
    (hopen : openFrame A c.session.decryptKey c.session.decryptNonce (elems c.sock) =
      some (msg, elems sock'))
    (hsplit : d ++ f'.unread = msg) (hpkt : f'.pktSize = msg.length)
    (hread : f'.bytesRead ≤ f'.pktSize) :
    ConnInv A f' a { c with
      session := { c.session with decryptNonce := nextNonce c.session.decryptNonce }
      sock := sock'
      delivered := c.delivered ++ d } := by
  obtain ⟨rs, rest, front, out, -, hparts, hfront, hdel, -, hrec⟩ := h
  obtain ⟨hreads, hnonce, -, hall⟩ := hrec hver
  have hnone : (if f.session = some a then f.unread else []) = [] := by
    split
    · rename_i hheld
      exact unread_of_eq (hclean hheld)
    · rfl
  have hreads' : (frameFormat A c.session.decryptKey).Reads 0 c.arrived (rs ++ [msg])
      (elems sock') := by
    refine hreads.concat ?_
    rw [Nat.zero_add]
    show openFrame A _ (.ofNat 8 rs.length) _ = _
    rw [← hnonce, hopen]
  have hall' : c.lost = false → (c.delivered ++ d) ++ (if f'.session = some a then f'.unread else
      []) = c.found ++ (rs ++ [msg]).flatten := fun hlost => by
    have := hall hlost
    rw [hnone, List.append_nil] at this
    rw [if_pos hheld', List.append_assoc, hsplit, this]
    simp
  have hmax := (length_openFrame hopen).1
  refine connInv_of_receiving ⟨hreads', ?_, fun _ => .inr ⟨rs, msg, out, d, rfl, rfl, hparts,
    hsplit, by omega, hread⟩, hall'⟩ (hparts.concat ⟨_, hsplit⟩) hfront (by simp [hdel])
  simp only [hnonce, nextNonce_ofNat, List.length_append, List.length_singleton]

/-- The calls of the session itself.  The cases are those of the call. -/
theorem ConnInv.recv (hlen : f.data.length = 1040) (h : ConnInv A f a c)
    (hver : c.session.verified = true) {n : Nat} {s' : SecureSession} {sock' : Socket}
    {r : Option (List UInt8)}
    (hcall : hapDecryptData A f a c.session c.sock n = .ok (f', s', sock', r)) :
    ConnInv A f' a
      { c with session := s', sock := sock', delivered := c.delivered ++ r.getD [] } := by
  obtain ⟨-, hheld', hcases⟩ := hapDecryptData_cases hlen hcall
  rcases hcases with ⟨hheld, rfl, rfl, rfl, hunread, hpkt, hread, hne⟩ |
    ⟨msg, hclean, hopen, rfl, rfl, hunread, hpkt, hread⟩ | ⟨-, rfl, rfl⟩
  · exact h.reply hver hheld hheld' hne (by rw [hunread]; exact List.take_append_drop _ _) hpkt
      hread
  · exact h.nextFrame hver hclean hheld' hopen (by rw [hunread]; exact List.take_append_drop _ _)
      hpkt hread
  · -- the session ends
    obtain ⟨rs, rest, front, out, hreads, hparts, hfront, hdel, hall, -⟩ := h
    exact ⟨rs, rest, front, out, hreads, hparts, hfront, by simpa using hdel, by simpa using hall,
      fun h => (by cases h)⟩

theorem found_new {encryptKey decryptKey : List UInt8}
    (h : (Conn.new f a encryptKey decryptKey).stale = false) :
    (Conn.new f a encryptKey decryptKey).found = [] := by
  have hclean : f.session = some a → f.pktSize = f.bytesRead := by simpa [Conn.new] using h
  simp only [Conn.new]
  split
  · rename_i hheld
    exact unread_of_eq (hclean hheld)
  · rfl

/-- The session at `a` is another one, or none. -/
theorem NetInv.update {conns : Nat → Option Conn} {o : Option Conn}
    (hlen : f.data.length = 1040)
    (hothers : ∀ b ≠ a, ∀ c, conns b = some c →
      ConnInv A f b c ∧ (c.stale = false → c.found = []))
    (hself : ∀ c, o = some c → ConnInv A f a c ∧ (c.stale = false → c.found = [])) :
    NetInv A ⟨f, Function.update conns a o⟩ := by
  have hall : ∀ b c, Function.update conns a o b = some c →
      ConnInv A f b c ∧ (c.stale = false → c.found = []) := by
    intro b c hc
    rcases eq_or_ne b a with rfl | hne
    · rw [Function.update_self] at hc
      exact hself c hc
    · rw [Function.update_of_ne hne] at hc
      exact hothers b hne c hc
  exact ⟨hlen, fun hc => (hall _ _ hc).1, fun hc => (hall _ _ hc).2⟩

/-- **Every step keeps the invariant.** -/
theorem netInv_step {net net' : Net} {e : NetEvent} (h : NetInv A net)
    (hstep : netStep A net e = .ok net') : NetInv A net' := by
  have hothers : ∀ a b, b ≠ a → ∀ c, net.conns b = some c →
      ConnInv A net.frame b c ∧ (c.stale = false → c.found = []) :=
    fun a b _ c hc => ⟨h.conn hc, h.fresh hc⟩
  cases e with
  | verify a encryptKey decryptKey =>
    rw [netStep] at hstep
    split at hstep
    · cases hstep
      exact h
    · cases hstep
      refine NetInv.update h.length (hothers a) fun c hc => ?_
      cases hc
      exact ⟨connInv_new _ _ _ _, found_new⟩
  | arrive a segment =>
    cases hstep
    refine NetInv.update h.length (hothers a) fun c hc => ?_
    obtain ⟨c', hc', rfl⟩ := Option.map_eq_some_iff.1 hc
    have hfresh := h.fresh hc'
    exact ⟨(h.conn hc').arrive segment, hfresh⟩
  | recv a bufLen =>
    rw [netStep] at hstep
    split at hstep
    · rename_i c hc
      split at hstep
      · rename_i hver
        obtain ⟨⟨f', s', sock', r⟩, hcall, heq⟩ := bind_eq_ok.1 hstep
        cases heq
        rw [hapHttpdRecv, if_pos hver] at hcall
        obtain ⟨hlen', hsession, -⟩ := hapDecryptData_cases h.length hcall
        refine NetInv.update hlen' (fun b hne c' hc' => ?_) fun c' hc' => ?_
        · obtain ⟨c'', hc'', rfl⟩ := Option.map_eq_some_iff.1 hc'
          have hfresh := h.fresh hc''
          refine ⟨by simpa [hne] using (h.conn hc'').clear hne hsession, ?_⟩
          split <;> exact hfresh
        · cases hc'
          have hfresh := h.fresh hc
          exact ⟨(h.conn hc).recv h.length hver hcall, hfresh⟩
      · cases hstep
        exact h
    · cases hstep
      exact h
  | free a =>
    cases hstep
    exact NetInv.update h.length (hothers a) fun c hc => (by cases hc)

theorem netInv_run {es : List NetEvent} {net : Net} (h : run (netStep A) Net.init es = .ok net) :
    NetInv A net :=
  inv_reachable (fun _ _ _ ht hstep => netInv_step ht hstep) netInv_init ⟨es, h⟩

/-! ## Any run -/

/-- **What a session is given**, in any run of any sessions: first what was left in the frame it
found its address in, and then a front of each frame its peer encrypted, in their order.  If no
other session's call came in between it is given all of them, up to what was not asked for. -/
theorem sessions_delivered (A : Aead) {es : List NetEvent} {net : Net}
    (h : run (netStep A) Net.init es = .ok net) {a : Nat} {c : Conn} (hc : net.conns a = some c) :
    ∃ rs front out, rs <+: (frameFormat A c.session.decryptKey).records 0 c.arrived ∧
      c.delivered = front ++ out ∧ front <+: c.found ∧ Parts rs out ∧
      (c.stale = false → front = []) ∧
      (c.lost = false → c.delivered <+: c.found ++ rs.flatten) := by
  have hinv := netInv_run h
  obtain ⟨rs, rest, front, out, hreads, hparts, hfront, hdel, hall, -⟩ := hinv.conn hc
  refine ⟨rs, front, out, ⟨_, hreads.records_eq.symm⟩, hdel, hfront, hparts, fun hstale => ?_, hall⟩
  rw [hinv.fresh hc hstale] at hfront
  exact List.prefix_nil.1 hfront

/-- Of `hi`, one byte is returned before a call of another session. -/
def interrupted : List NetEvent :=
  [.verify 1 sevenKey sevenKey, .arrive 1 ([2, 0] ++ hiData ++ hiTag), .recv 1 1,
    .verify 2 sevenKey sevenKey, .recv 2 1]

/-- The `i` is lost. -/
theorem sessions_delivered_interrupted : ∃ net c,
    run (netStep hiAead) Net.init interrupted = .ok net ∧ net.conns 1 = some c ∧
    c.delivered = [0x68] ∧ c.lost = true ∧ c.stale = false ∧
    ∃ rs front out, rs <+: (frameFormat hiAead c.session.decryptKey).records 0 c.arrived ∧
      c.delivered = front ++ out ∧ front <+: c.found ∧ Parts rs out ∧
      (c.stale = false → front = []) ∧
      (c.lost = false → c.delivered <+: c.found ++ rs.flatten) := by
  obtain ⟨net, hnet, hcheck⟩ := exists_of_okAnd
    (x := run (netStep hiAead) Net.init interrupted)
    (p := fun net : Net => (net.conns 1).any fun c : Conn =>
      decide (c.delivered = [0x68]) && c.lost && !c.stale) (by decide +kernel)
  obtain ⟨c, hc, hcheck⟩ := (Option.any_eq_true ..).1 hcheck
  simp only [Bool.and_eq_true, decide_eq_true_eq, Bool.not_eq_true'] at hcheck
  obtain ⟨⟨hdel, hlost⟩, hstale⟩ := hcheck
  exact ⟨net, c, hnet, hc, hdel, hlost, hstale, sessions_delivered hiAead hnet hc⟩

/-- **Which calls write past the end of the frame**, in any run: those that are to open a frame
for which a length of more than 1024 and more bytes than the array holds have arrived. -/
theorem sessions_overrun (A : Aead) {es : List NetEvent} {net : Net}
    (h : run (netStep A) Net.init es = .ok net) {a : Nat} {c : Conn} (hc : net.conns a = some c)
    (hstale : c.stale = false) (bufLen : Nat) :
    (∃ e, netStep A net (.recv a bufLen) = .error e) ↔ c.session.verified = true ∧
      (net.frame.session = some a → net.frame.pktSize = net.frame.bytesRead) ∧
      Overruns c.sock := by
  have hinv := netInv_run h
  cases hver : c.session.verified with
  | false => simp [netStep, hc, hver]
  | true =>
    have hiff : (∃ e, netStep A net (.recv a bufLen) = .error e) ↔
        ∃ e, hapDecryptData A net.frame a c.session c.sock bufLen = .error e := by
      simp only [netStep, hc, hver, if_true, hapHttpdRecv]
      cases hapDecryptData A net.frame a c.session c.sock bufLen with
      | ok r => simp
      | error e => simp
    rw [hiff]
    by_cases hclean : net.frame.session = some a → net.frame.pktSize = net.frame.bytesRead
    · have hclean' : (net.frame.forSession a).pktSize = (net.frame.forSession a).bytesRead := by
        unfold DecryptFrame.forSession
        split
        · rename_i hheld
          exact hclean hheld
        · rfl
      rw [hapDecryptData_error hinv.length hclean']
      exact ⟨fun hover => ⟨rfl, hclean, hover⟩, fun hover => hover.2.2⟩
    · obtain ⟨hheld, hne⟩ := Classical.not_imp.1 hclean
      obtain ⟨rs, rest, front, out, -, -, -, -, -, hrec⟩ := hinv.conn hc
      have hfor : net.frame.forSession a = net.frame := if_pos hheld
      rcases (hrec hver).held hheld with ⟨-, -, -, hsame⟩ | ⟨-, -, -, -, -, -, -, -, hmax, hread⟩
      · exact absurd (hsame hstale) hne
      · obtain ⟨r, hr⟩ := exists_replyFrame hread (by rw [hinv.length]; exact hmax) bufLen
        have hok : ∃ r, hapDecryptData A net.frame a c.session c.sock bufLen = .ok r := by
          unfold hapDecryptData
          dsimp only
          rw [hfor, if_neg hne, hr, ok_bind]
          exact ⟨_, rfl⟩
        obtain ⟨r', hr'⟩ := hok
        rw [hr']
        exact ⟨fun ⟨e, he⟩ => (by cases he), fun hand => absurd hand.2.1 hclean⟩

/-- A length of 65535 and 15 bytes. -/
def wrappedLength : List NetEvent :=
  [.verify 1 sevenKey sevenKey, .arrive 1 ([0xFF, 0xFF] ++ List.replicate 15 0)]

/-- The frame is said to hold 65535 bytes. -/
theorem sessions_overrun_wrapped : ∃ net c, run (netStep hiAead) Net.init wrappedLength = .ok net ∧
    net.conns 1 = some c ∧ (∃ e, netStep hiAead net (.recv 1 64) = .error e) ∧
    ((∃ e, netStep hiAead net (.recv 1 64) = .error e) ↔ c.session.verified = true ∧
      (net.frame.session = some 1 → net.frame.pktSize = net.frame.bytesRead) ∧
      Overruns c.sock) := by
  have hrun : ∃ net c, run (netStep hiAead) Net.init wrappedLength = .ok net ∧ net.conns 1 = some c ∧
      c.stale = false ∧ c.session.verified = true ∧ net.frame = .zero ∧
      c.sock = pieces ([0xFF, 0xFF] ++ List.replicate 15 0) :=
    ⟨_, _, rfl, rfl, rfl, rfl, rfl, rfl⟩
  obtain ⟨net, c, hnet, hc, hstale, hver, hframe, hsock⟩ := hrun
  have hiff := sessions_overrun hiAead hnet hc hstale 64
  refine ⟨net, c, hnet, hc, hiff.2 ⟨hver, fun _ => by rw [hframe]; rfl, ?_⟩, hiff⟩
  rw [hsock]
  exact ⟨_, _, _, rfl, rfl, by decide, by decide⟩

end NinaHomekit
