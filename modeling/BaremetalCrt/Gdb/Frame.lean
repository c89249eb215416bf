/-
# BaremetalCrt.Gdb.Frame — frames on the wire, from both ends.

`gdb_remote_send` puts out the packet of its command, and puts it out again for every `-` it is
answered (`gdbRemoteSend_faithful`).  `gdb_remote_recv`, fed with acknowledgements and a packet, reads
exactly these and returns its body as it is on the wire (`wp_gdbRemoteRecv_feed`): it does not undo the
escapes, so that it undoes `gdb_remote_send` on the commands without any.

The frame is `gdbFrame`, and it is the packet of the command (`gdbFrame_eq`), whose bytes fit the buffer
that was allocated. `gdbRemoteRecv_frame` puts the two ends together: what a receive makes of a frame that
the driver has sent.
-/
import BaremetalCrt.Gdb.Receive

namespace BaremetalCrt

open Lib

variable {σ : Type}

/-! ## The frame that is built -/

/-- The low byte of the sum, printed. -/
theorem low_byte_toNat (sum : Int8) : (sum.toInt % 256).toNat = sum.toUInt8.toNat := by
  have hlt := sum.toUInt8.toNat_lt
  have hint : sum.toInt = (sum.toUInt8.toNat : Int).bmod 256 := BitVec.toInt_eq_toNat_bmod sum.toBitVec
  show (sum.toInt % ((256 : Nat) : Int)).toNat = _
  rw [hint, Int.bmod_emod]
  omega

/-- The sum of the bytes of a body, as the signed `char` keeps it. -/
def byteSum (bs : List UInt8) : UInt8 := bs.foldr (· + ·) 0

theorem byteSum_append (as bs : List UInt8) : byteSum (as ++ bs) = byteSum as + byteSum bs := by
  induction as with
  | nil => exact (UInt8.zero_add _).symm
  | cons a as ih =>
    show a + byteSum (as ++ bs) = a + byteSum as + byteSum bs
    rw [ih, UInt8.add_assoc]

theorem toNat_byteSum (bs : List UInt8) : (byteSum bs).toNat = checksum bs := by
  induction bs with
  | nil => rfl
  | cons b bs ih =>
    show (b + byteSum bs).toNat = _
    rw [UInt8.toNat_add, ih, checksum, checksum, List.map_cons, List.sum_cons, Nat.add_mod_mod]

/-- The loop appends the escaped bytes and their sum; its test of `i` never fails. -/
theorem escapeLoop_eq (buflen : Nat) (cs : List UInt8) : ∀ (i : Nat) (buf : List UInt8) (sum : Int8),
    i + cs.length ≤ buflen →
    ∃ sum', escapeLoop buflen i cs buf sum = some (buf ++ escape cs, sum') ∧
      sum'.toUInt8 = sum.toUInt8 + byteSum (escape cs) := by
  induction cs with
  | nil => exact fun i buf sum _ => ⟨sum, by rw [escapeLoop]; simp [escape], by simp [escape, byteSum]⟩
  | cons c cs ih =>
    intro i buf sum hi
    rw [List.length_cons] at hi
    have hsplit : escape (c :: cs) = escapeByte c ++ escape cs := List.flatMap_cons
    rw [hsplit]
    by_cases hc : c = chHash ∨ c = chDollar ∨ c = chBrace ∨ c = chStar
    · obtain ⟨sum', hloop, hsum⟩ := ih (i + 1) (buf ++ [chBrace, c ^^^ 0x20])
        (sum + chBrace.toInt8 + (c ^^^ 0x20).toInt8) (by omega)
      have hbyte : escapeByte c = [chBrace, c ^^^ 0x20] := if_pos hc
      rw [escapeLoop, if_pos hc]
      refine ⟨sum', (if_neg (by omega)).trans (by rw [hloop, hbyte, List.append_assoc]), ?_⟩
      have hpair : byteSum [chBrace, c ^^^ 0x20] = chBrace + (c ^^^ 0x20) := by
        show chBrace + ((c ^^^ 0x20) + 0) = _
        rw [UInt8.add_zero]
      rw [hsum, hbyte, byteSum_append, Int8.toUInt8_add, Int8.toUInt8_add, ← UInt8.add_assoc, hpair,
        UInt8.add_assoc sum.toUInt8]
      rfl
    · obtain ⟨sum', hloop, hsum⟩ := ih (i + 1) (buf ++ [c]) (sum + c.toInt8) (by omega)
      have hbyte : escapeByte c = [c] := if_neg hc
      rw [escapeLoop, if_neg hc]
      refine ⟨sum', (if_neg (by omega)).trans (by rw [hloop, hbyte, List.append_assoc]), ?_⟩
      rw [hsum, hbyte, byteSum_append, Int8.toUInt8_add, ← UInt8.add_assoc]
      simp [byteSum]

/-- **The frame of a command is its packet.** -/
theorem gdbFrame_eq (cmd : List UInt8) : gdbFrame cmd = some (Packet.command cmd).bytes := by
  obtain ⟨sum, hloop, hsum⟩ := escapeLoop_eq (cmd.length * 2 + 10) cmd 0 [chDollar] 0 (by omega)
  have hzero : (0 : Int8).toUInt8 = 0 := rfl
  have hdigits : hexByte (sum.toInt % 256).toNat = hexByte (checksum (escape cmd)) := by
    rw [low_byte_toNat, hsum, hzero, UInt8.zero_add, toNat_byteSum]
  unfold gdbFrame
  show (escapeLoop (cmd.length * 2 + 10) 0 cmd [chDollar] 0).bind _ = _
  rw [hloop, Option.bind_some]
  show some ([chDollar] ++ escape cmd ++ chHash :: hexByte (sum.toInt % 256).toNat) = _
  rw [hdigits, List.append_assoc]
  rfl

/-- What a frame of a command is: its body has no `#` and no `$` and unescapes to the command, and the
two digits are the sum of the body modulo 256 in lower case. -/
def FrameOf (cmd frame : List UInt8) : Prop :=
  ∃ body, frame = chDollar :: (body ++ chHash :: hexByte (checksum body)) ∧ chHash ∉ body ∧
    chDollar ∉ body ∧ unescape body = cmd

theorem frameOf_command (cmd : List UInt8) : FrameOf cmd (Packet.command cmd).bytes :=
  ⟨escape cmd, rfl, hash_notMem_escape cmd, dollar_notMem_escape cmd, unescape_escape cmd⟩

/-! ## Answers to a frame -/

/-- The character that a result of `recv` is for `gdb_remote_getchar`, if it is one. -/
def Received.got? : Received → Option Got
  | .byte b => some (.byte b)
  | .failed => some .failed
  | _ => none

/-- The peer answers each transmission of the frame with one result of `recv`. -/
inductive Replied (link : Link σ) (frame : List UInt8) : σ → List Received → σ → Prop
  | nil (l : σ) : Replied link frame l [] l
  | cons {l l₁ l' : σ} {a : Received} {as : List Received}
      (answer : link.recv (link.send frame l).2 = (a, l₁)) (rest : Replied link frame l₁ as l') :
      Replied link frame l (a :: as) l'

section Driver

variable (link : Link σ) (fuel : Nat)

/-- A receive that never returns. -/
theorem gdbRemoteGetchar_blocked {s : Port σ} (never : (link.recv s.link).1 = .blocked) (hfuel : 0 < fuel) :
    gdbRemoteGetchar link fuel s = (.error .blocked,
      { s with link := (link.recv s.link).2, wire := s.wire ++ (link.recv s.link).1.wire }) := by
  obtain ⟨n, rfl⟩ : ∃ n, fuel = n + 1 := ⟨fuel - 1, by omega⟩
  have hsock : sockRecv link s = (.ok .blocked,
      { s with link := (link.recv s.link).2, wire := s.wire ++ (link.recv s.link).1.wire }) := by
    show (Except.ok (link.recv s.link).1, _) = _
    rw [never]
  rw [gdbRemoteGetchar, retryRecv, Exec.bind_ok hsock]
  rfl

theorem gdbRemoteGetchar_eq {s : Port σ} {a : Received} {c : Got} {l' : σ}
    (h : link.recv s.link = (a, l')) (hc : a.got? = some c) (hfuel : 0 < fuel) :
    gdbRemoteGetchar link fuel s = (.ok c, { s with link := l', wire := s.wire ++ a.wire }) := by
  obtain ⟨n, rfl⟩ : ∃ n, fuel = n + 1 := ⟨fuel - 1, by omega⟩
  rw [gdbRemoteGetchar, retryRecv, Exec.bind_ok (sockRecv_eq link h)]
  cases a with
  | byte b =>
    obtain rfl := Option.some.inj hc
    rfl
  | failed =>
    obtain rfl := Option.some.inj hc
    rfl
  | eof => cases hc
  | interrupted => cases hc
  | blocked => cases hc

/-- What one round of the `resend` loop leaves behind: the frame went out, the answer `a` came in, and the
link is `l'`. -/
def Port.answered (s : Port σ) (frame : List UInt8) (a : Received) (l' : σ) : Port σ :=
  { s with link := l', wire := s.wire ++ [.sent frame] ++ a.wire }

/-- One round: the frame goes out, and the answer decides. -/
theorem resend_succ {frame : List UInt8} {s : Port σ} {a : Received} {c : Got} {l' : σ} (n : Nat)
    (hsend : (link.send frame s.link).1 = .count frame.length)
    (h : link.recv (link.send frame s.link).2 = (a, l')) (hc : a.got? = some c) (hfuel : 0 < fuel) :
    resend link fuel frame true (n + 1) s =
      (if c.toInt = chPlus.toNat then pure clSuccess
        else if c.toInt = chMinus.toNat then resend link fuel frame true n
        else pure clInvalidDevice : Gdb σ ClInt) (s.answered frame a l') := by
  have hwhole : link.send frame s.link = (.count frame.length, (link.send frame s.link).2) :=
    Prod.ext hsend rfl
  have hwire : (Sent.count frame.length).wire frame = [.sent frame] := by simp [Sent.wire]
  rw [resend, Exec.bind_ok (sockSend_eq link hwhole), hwire, if_neg (by simp), if_neg (by simp), if_pos rfl]
  exact Exec.bind_ok (gdbRemoteGetchar_eq link fuel h hc hfuel)

/-- The whole loop: every `-` makes a round, and the answer behind them ends it. -/
theorem resend_replied {frame : List UInt8} (hsend : ∀ l, (link.send frame l).1 = .count frame.length)
    {a : Received} {c : Got} (hc : a.got? = some c) (hnot : c.toInt ≠ chMinus.toNat) (hfuel : 0 < fuel)
    {l' : σ} (k : Nat) : ∀ (n : Nat) (s : Port σ), k < n →
      Replied link frame s.link (List.replicate k (.byte chMinus) ++ [a]) l' →
      resend link fuel frame true n s =
        (.ok (if c.toInt = chPlus.toNat then clSuccess else clInvalidDevice),
          { s with
            link := l'
            wire := s.wire ++ (List.replicate k [.sent frame, .received chMinus]).flatten ++
              .sent frame :: a.wire }) := by
  induction k with
  | zero =>
    intro n s hn h
    obtain ⟨n, rfl⟩ : ∃ m, n = m + 1 := ⟨n - 1, by omega⟩
    cases h with
    | cons answer rest =>
      cases rest
      rw [resend_succ link fuel n (hsend _) answer hc hfuel, if_neg hnot]
      by_cases hplus : c.toInt = chPlus.toNat
      · rw [if_pos hplus, if_pos hplus]
        simp [Port.answered]
      · rw [if_neg hplus, if_neg hplus]
        simp [Port.answered]
  | succ k ih =>
    intro n s hn h
    obtain ⟨n, rfl⟩ : ∃ m, n = m + 1 := ⟨n - 1, by omega⟩
    cases h with
    | cons answer rest =>
      rw [resend_succ link fuel n (hsend _) answer rfl hfuel, if_neg (by decide),
        if_pos (Got.toInt_byte_eq.mpr rfl),
        ih n _ (by omega) rest]
      simp [Port.answered, Received.wire, List.replicate_succ]

/-- A call of `gdb_remote_send` is its loop over the packet of the command, and goes on record. -/
theorem gdbRemoteSend_of_resend {cmd : List UInt8} {ack : Bool} {r : ClInt} {s s₁ : Port σ}
    (h : resend link fuel (Packet.command cmd).bytes ack fuel s = (.ok r, s₁)) :
    gdbRemoteSend link fuel cmd ack s = (.ok r, { s₁ with log := s₁.log ++ [.send cmd r] }) := by
  have hframe : sendFrame link fuel cmd ack s = (.ok r, s₁) := by
    rw [sendFrame, gdbFrame_eq]
    exact h
  rw [gdbRemoteSend, Exec.bind_ok hframe]
  rfl

/-- **Frames out.** What `gdb_remote_send` puts on the wire is a frame of its command, which fits the
buffer of `2 * cmdlen + 10` bytes.  It goes out once without `ack`; with it, once more for each `-`,
and the answer behind the last transmission is the result. -/
theorem gdbRemoteSend_faithful (hsend : ∀ bs l, (link.send bs l).1 = .count bs.length)
    (cmd : List UInt8) :
    ∃ frame, gdbFrame cmd = some frame ∧ FrameOf cmd frame ∧ frame.length ≤ 2 * cmd.length + 10 ∧
      (∀ s, 0 < fuel → ∃ s', gdbRemoteSend link fuel cmd false s = (.ok clSuccess, s') ∧
        s'.wire = s.wire ++ [.sent frame]) ∧
      ∀ k a s l', k < fuel → a = .failed ∨ (∃ b, a = .byte b ∧ b ≠ chMinus) →
        Replied link frame s.link (List.replicate k (.byte chMinus) ++ [a]) l' →
        ∃ r s', gdbRemoteSend link fuel cmd true s = (.ok r, s') ∧
          (r = clSuccess ↔ a = .byte chPlus) ∧
          s'.wire = s.wire ++ (List.replicate k [.sent frame, .received chMinus]).flatten ++
            .sent frame :: a.wire := by
  refine ⟨(Packet.command cmd).bytes, gdbFrame_eq cmd, frameOf_command cmd, ?_, ?_, ?_⟩
  · have hescape := length_escape_le cmd
    rw [Packet.length_bytes]
    show (escape cmd).length + 4 ≤ _
    omega
  · intro s hfuel
    obtain ⟨n, rfl⟩ : ∃ n, fuel = n + 1 := ⟨fuel - 1, by omega⟩
    have hwhole : link.send (Packet.command cmd).bytes s.link =
        (.count (Packet.command cmd).bytes.length, (link.send (Packet.command cmd).bytes s.link).2) :=
      Prod.ext (hsend _ _) rfl
    exact ⟨_, gdbRemoteSend_of_resend link (n + 1) (resend_once link (n + 1) hwhole n), rfl⟩
  · intro k a s l' hk ha h
    obtain ⟨c, hc, hnot, hplus⟩ : ∃ c, a.got? = some c ∧ c.toInt ≠ chMinus.toNat ∧
        (c.toInt = chPlus.toNat ↔ a = .byte chPlus) := by
      rcases ha with rfl | ⟨b, rfl, hb⟩
      · exact ⟨.failed, rfl, by decide, by decide⟩
      · exact ⟨.byte b, rfl, fun h => hb (Got.toInt_byte_eq.mp h), by
          rw [Got.toInt_byte_eq, Received.byte.injEq]⟩
    have hresend := resend_replied link fuel (hsend _) hc hnot (by omega) k fuel s hk h
    refine ⟨_, _, gdbRemoteSend_of_resend link fuel hresend, ?_, rfl⟩
    rw [← hplus]
    split
    · next hc => exact iff_of_true rfl hc
    · next hc => exact iff_of_false (by decide) hc

end Driver

/-- A command that is refused once goes out twice. -/
theorem refusedOnce_faithful : ∃ r s', gdbRemoteSend scripted 2 (ascii "m0,1") true
      { link := [chMinus, chPlus] } = (.ok r, s') ∧ (r = clSuccess ↔ Received.byte chPlus = .byte chPlus) ∧
    s'.wire = [] ++ (List.replicate 1 [Wire.sent (Packet.command (ascii "m0,1")).bytes,
      .received chMinus]).flatten ++ .sent (Packet.command (ascii "m0,1")).bytes :: [.received chPlus] := by
  obtain ⟨frame, hframe, -, -, -, h⟩ :=
    gdbRemoteSend_faithful scripted 2 (fun _ _ => rfl) (ascii "m0,1")
  obtain rfl := Option.some.inj ((gdbFrame_eq _).symm.trans hframe)
  exact h 1 (.byte chPlus) { link := [chMinus, chPlus] } [] (by decide)
    (Or.inr ⟨chPlus, rfl, by decide⟩) (.cons rfl (.cons rfl (.nil _)))

/-! ## Being fed a packet -/

/-- The link delivers these bytes one after the other. -/
inductive Feed (link : Link σ) : σ → List UInt8 → σ → Prop
  | nil (l : σ) : Feed link l [] l
  | cons {l l₁ l' : σ} {b : UInt8} {bs : List UInt8} (next : link.recv l = (.byte b, l₁))
      (rest : Feed link l₁ bs l') : Feed link l (b :: bs) l'

/-- The link delivers these bytes one after the other and is then in a state with `Q`; or one of the calls
does not return, and leaves the link in a state with `Stuck`. -/
inductive Offers (link : Link σ) (Stuck Q : σ → Prop) : List UInt8 → σ → Prop
  | done {l : σ} (h : Q l) : Offers link Stuck Q [] l
  | blocked {l : σ} {b : UInt8} {bs : List UInt8} (never : (link.recv l).1 = .blocked)
      (stuck : Stuck (link.recv l).2) : Offers link Stuck Q (b :: bs) l
  | next {l l₁ : σ} {b : UInt8} {bs : List UInt8} (next : link.recv l = (.byte b, l₁))
      (rest : Offers link Stuck Q bs l₁) : Offers link Stuck Q (b :: bs) l

theorem Feed.offers {link : Link σ} {l l' : σ} {bs : List UInt8} (h : Feed link l bs l') :
    Offers link (fun _ => False) (· = l') bs l := by
  induction h with
  | nil l => exact .done rfl
  | cons next rest ih => exact .next next ih

theorem Offers.mono {link : Link σ} {Stuck Stuck' Q : σ → Prop} {bs : List UInt8} {l : σ}
    (h : Offers link Stuck Q bs l) (hstuck : ∀ l, Stuck l → Stuck' l) : Offers link Stuck' Q bs l := by
  induction h with
  | done h => exact .done h
  | blocked never stuck => exact .blocked never (hstuck _ stuck)
  | next next rest ih => exact .next next ih

theorem Offers.append {link : Link σ} {Stuck Q : σ → Prop} {as bs : List UInt8} {l : σ}
    (h : Offers link Stuck Q (as ++ bs) l) : Offers link Stuck (Offers link Stuck Q bs) as l := by
  induction as generalizing l with
  | nil => exact .done h
  | cons a as ih =>
    cases h with
    | blocked never stuck => exact .blocked never stuck
    | next next rest => exact .next next (ih rest)

/-- The driver has taken these bytes from the link, and done nothing else with it. -/
structure Took (s s' : Port σ) (bs : List UInt8) (l' : σ) : Prop where
  link : s'.link = l'
  log : s'.log = s.log
  wire : s'.wire = s.wire ++ bs.map .received

theorem Took.trans {s s₁ s' : Port σ} {as bs : List UInt8} {l₁ l' : σ} (h : Took s s₁ as l₁)
    (h' : Took s₁ s' bs l') : Took s s' (as ++ bs) l' :=
  ⟨h'.link, h'.log.trans h.log, by rw [h'.wire, h.wire, List.map_append, List.append_assoc]⟩

theorem Took.congr {s s₁ s' : Port σ} {bs : List UInt8} {l' : σ} (h : Took s₁ s' bs l')
    (hlog : s₁.log = s.log) (hwire : s₁.wire = s.wire) : Took s s' bs l' :=
  ⟨h.link, h.log.trans hlog, by rw [h.wire, hwire]⟩

section Driver

variable (link : Link σ) (fuel : Nat) {Stuck Q : σ → Prop}

/-- A receive that is stuck has finished no call, and the link is one that stays stuck. -/
def StuckAt (Stuck : σ → Prop) (s s' : Port σ) : Prop := s'.log = s.log ∧ Stuck s'.link

theorem StuckAt.of_log {s s₁ s' : Port σ} (h : StuckAt Stuck s₁ s') (hlog : s₁.log = s.log) :
    StuckAt Stuck s s' := ⟨h.1.trans hlog, h.2⟩

theorem wp_nextChar_offers {s : Port σ} {b : UInt8} {bs : List UInt8}
    (h : Offers link Stuck Q (b :: bs) s.link) (hfuel : 0 < fuel) (buf : List Got) :
    Exec.wp (nextChar link fuel buf)
      (fun out s' => out = (buf ++ [.byte b], .byte b) ∧ Took s s' [b] s'.link ∧
        Offers link Stuck Q bs s'.link) (fun _ s' => StuckAt Stuck s s') s := by
  cases h with
  | blocked never stuck =>
    rw [nextChar, Exec.wp_bind, Exec.wp_of_error (gdbRemoteGetchar_blocked link fuel never hfuel)]
    exact ⟨rfl, stuck⟩
  | next next rest =>
    have hget := gdbRemoteGetchar_eq link fuel next rfl hfuel
    rw [nextChar, Exec.wp_bind, Exec.wp_of_ok hget]
    exact ⟨rfl, ⟨rfl, rfl, rfl⟩, rest⟩

/-- More acknowledgements, and what comes behind them. -/
theorem wp_skipAcks_offers {b : UInt8} (hb : b ≠ chPlus) (hfuel : 0 < fuel) (k : Nat) :
    ∀ (n : Nat) (buf : List Got) (s : Port σ), k < n →
      Offers link Stuck Q (List.replicate k chPlus ++ [b]) s.link →
      Exec.wp (skipAcks link fuel buf (.byte chPlus) n)
        (fun out s' => out = (buf ++ (List.replicate k chPlus ++ [b]).map .byte, .byte b) ∧
          Took s s' (List.replicate k chPlus ++ [b]) s'.link ∧ Q s'.link)
        (fun _ s' => StuckAt Stuck s s') s := by
  have hnot : (Got.byte b).toInt ≠ chPlus.toNat := fun h => hb (Got.toInt_byte_eq.mp h)
  induction k with
  | zero =>
    intro n buf s hn h
    obtain ⟨n, rfl⟩ : ∃ m, n = m + 1 := ⟨n - 1, by omega⟩
    rw [skipAcks, if_pos (Got.toInt_byte_eq.mpr rfl), Exec.wp_bind]
    refine (wp_nextChar_offers link fuel h hfuel buf).mono (fun out s₁ h => ?_) (fun _ _ h => h)
    obtain ⟨rfl, htook, hrest⟩ := h
    cases hrest with
    | done hq =>
      show Exec.wp (skipAcks link fuel (buf ++ [.byte b]) (.byte b) n) _ _ s₁
      cases n with
      | zero =>
        rw [skipAcks, if_neg hnot]
        exact ⟨rfl, htook, hq⟩
      | succ n =>
        rw [skipAcks, if_neg hnot]
        exact ⟨rfl, htook, hq⟩
  | succ k ih =>
    intro n buf s hn h
    obtain ⟨n, rfl⟩ : ∃ m, n = m + 1 := ⟨n - 1, by omega⟩
    rw [skipAcks, if_pos (Got.toInt_byte_eq.mpr rfl), Exec.wp_bind]
    refine (wp_nextChar_offers link fuel h hfuel buf).mono (fun out s₁ h => ?_) (fun _ _ h => h)
    obtain ⟨rfl, htook, hrest⟩ := h
    refine (ih n (buf ++ [.byte chPlus]) s₁ (by omega) hrest).mono (fun out s₂ h => ?_)
      (fun _ _ h => h.of_log htook.log)
    obtain ⟨rfl, htook', hq⟩ := h
    refine ⟨?_, htook.trans htook', hq⟩
    rw [List.append_assoc]
    rfl

/-- The payload loop, with the first character of the rest of a body and its `#` read. -/
theorem wp_recvPayload_offers {cmdlen : Nat} (hfuel : 0 < fuel) (body : List UInt8) :
    ∀ (c : UInt8) (tail : List UInt8) (payload : List Got) (f : Payload) (n : Nat) (s : Port σ),
      c :: tail = body ++ [chHash] → chHash ∉ body → f.After cmdlen payload →
      f.buf.length + body.length < buflen → body.length ≤ n → Offers link Stuck Q tail s.link →
      Exec.wp (recvPayload link fuel cmdlen f (.byte c) n)
        (fun out s' => out.1 = true ∧ out.2.buf = f.buf ++ tail.map .byte ∧
          out.2.After cmdlen (payload ++ body.map .byte) ∧ Took s s' tail s'.link ∧ Q s'.link)
        (fun _ s' => StuckAt Stuck s s') s := by
  induction body with
  | nil =>
    intro c tail payload f n s hbody _ hafter _ _ h
    obtain ⟨rfl, rfl⟩ := List.cons.inj hbody
    cases h with
    | done hq =>
      have hend : Exec.wp (pure (true, f) : Gdb σ (Bool × Payload))
          (fun out s' => out.1 = true ∧ out.2.buf = f.buf ++ [] ∧
            out.2.After cmdlen (payload ++ []) ∧ Took s s' [] s'.link ∧ Q s'.link)
          (fun _ s' => StuckAt Stuck s s') s :=
        ⟨rfl, (List.append_nil _).symm, by rw [List.append_nil]; exact hafter,
          ⟨rfl, rfl, (List.append_nil _).symm⟩, hq⟩
      cases n with
      | zero => rwa [recvPayload, if_pos (Got.toInt_byte_eq.mpr rfl)]
      | succ n => rwa [recvPayload, if_pos (Got.toInt_byte_eq.mpr rfl)]
  | cons b body ih =>
    intro c tail payload f n s hbody hno hafter hroom hn h
    obtain ⟨rfl, htail⟩ := List.cons.inj hbody
    rw [List.length_cons] at hroom hn
    obtain ⟨n, rfl⟩ : ∃ m, n = m + 1 := ⟨n - 1, by omega⟩
    have hc : (Got.byte c).toInt ≠ chHash.toNat := fun h =>
      hno (Got.toInt_byte_eq.mp h ▸ List.mem_cons_self ..)
    obtain ⟨d, tail, rfl⟩ : ∃ d tail', tail = d :: tail' := by
      cases tail with
      | nil => simp at htail
      | cons d tail => exact ⟨d, tail, rfl⟩
    rw [recvPayload, if_neg hc, Exec.wp_bind]
    refine (wp_put hafter (.byte c) s).mono (fun f₁ s₁ h₁ => ?_) (fun _ _ => False.elim)
    obtain ⟨hsame, hafter₁, ⟨hlink₁, hlog₁, hwire₁⟩, -⟩ := h₁
    rw [Exec.wp_bind]
    rw [← hlink₁] at h
    refine (wp_nextChar_offers link fuel h hfuel f₁.buf).mono (fun out s₂ h₂ => ?_)
      (fun _ _ h => h.of_log hlog₁)
    obtain ⟨rfl, htook, hrest⟩ := h₂
    have hlen : (f₁.buf ++ [Got.byte d]).length = f.buf.length + 1 := by
      rw [hsame, List.length_append, List.length_singleton]
    refine Exec.wp_ite.mpr ⟨fun hfull => absurd hfull (by omega), fun _ => ?_⟩
    have hafter₂ : Payload.After cmdlen (payload ++ [.byte c]) { f₁ with buf := f₁.buf ++ [.byte d] } :=
      ⟨hafter₁.stored, hafter₁.r, hafter₁.sum⟩
    have hroom₂ : (f₁.buf ++ [Got.byte d]).length + body.length < buflen := by omega
    refine (ih d tail (payload ++ [.byte c]) _ n s₂ htail (fun h => hno (List.mem_cons_of_mem _ h))
      hafter₂ hroom₂ (by omega) hrest).mono (fun out s₃ h₃ => ?_)
      (fun _ _ h => h.of_log (htook.log.trans hlog₁))
    obtain ⟨hended, hbuf, hafter₃, htook', hq⟩ := h₃
    refine ⟨hended, ?_, ?_, (htook.trans htook').congr hlog₁ hwire₁, hq⟩
    · rw [hbuf]
      show f₁.buf ++ [.byte d] ++ _ = _
      rw [hsame, List.append_assoc]
      rfl
    · rw [List.append_assoc] at hafter₃
      exact hafter₃

/-- Acknowledgements, up to the `$`. -/
theorem wp_front_offers {k : Nat} {s : Port σ} (hfuel : k < fuel)
    (h : Offers link Stuck Q (List.replicate k chPlus ++ [chDollar]) s.link) :
    Exec.wp (do
      let (buf, c) ← nextChar link fuel []
      skipAcks link fuel buf c fuel)
      (fun out s' => out = ((List.replicate k chPlus ++ [chDollar]).map .byte, .byte chDollar) ∧
        Took s s' (List.replicate k chPlus ++ [chDollar]) s'.link ∧ Q s'.link)
      (fun _ s' => StuckAt Stuck s s') s := by
  rw [Exec.wp_bind]
  cases k with
  | zero =>
    refine (wp_nextChar_offers link fuel h hfuel []).mono (fun out s₁ h => ?_) (fun _ _ h => h)
    obtain ⟨rfl, htook, hrest⟩ := h
    obtain ⟨n, rfl⟩ : ∃ n, fuel = n + 1 := ⟨fuel - 1, by omega⟩
    show Exec.wp (skipAcks link (n + 1) [.byte chDollar] (.byte chDollar) (n + 1)) _ _ s₁
    rw [skipAcks, if_neg (by decide)]
    cases hrest with
    | done hq => exact ⟨rfl, htook, hq⟩
  | succ k =>
    refine (wp_nextChar_offers link fuel h (by omega) []).mono (fun out s₁ h => ?_) (fun _ _ h => h)
    obtain ⟨rfl, htook, hrest⟩ := h
    refine (wp_skipAcks_offers link fuel (by decide) (by omega) k fuel [.byte chPlus] s₁ (by omega)
      hrest).mono (fun out s₂ h => ?_) (fun _ _ h => h.of_log htook.log)
    obtain ⟨rfl, htook', hq⟩ := h
    exact ⟨rfl, htook.trans htook', hq⟩

/-- What is left of a receive when an intact packet was read. -/
def finishRecv (cmdlen : Nat) (ack : Bool) (read body : List UInt8) : Gdb σ (ClInt × List UInt8) := do
  if ack then
    gdbRemotePutchar link fuel chPlus
  record (.recv (read.map .byte) (if ack then some chPlus else none) (payloadRet cmdlen body.length))
  return (payloadRet cmdlen body.length, body.take (cmdlen - 1) ++ [0])

/-- The sum over a whole body is its checksum. -/
theorem Payload.After.sum_emod {cmdlen : Nat} {body : List UInt8} {f : Payload}
    (h : f.After cmdlen (body.map .byte)) : f.sum % 256 = (checksum body : Nat) := by
  have hsum (bs : List UInt8) : ((bs.map Got.byte).map Got.toInt).sum = ((bs.map UInt8.toNat).sum : Nat) := by
    induction bs with
    | nil => rfl
    | cons b bs ih =>
      simp only [List.map_cons, List.sum_cons, Nat.cast_add]
      rw [ih]
      rfl
  rw [h.sum, hsum, checksum]
  omega

/-- The check digits of an intact packet are answered with `+`. -/
theorem recvCheck_offers {cmdlen : Nat} {p : Packet} {f : Payload} {s : Port σ} (ack : Bool)
    (hafter : f.After cmdlen (p.body.map .byte)) (hfuel : 0 < fuel) {read : List UInt8}
    (hread : f.buf ++ [.byte p.hi, .byte p.lo] = read.map .byte)
    (h : Offers link Stuck Q [p.hi, p.lo] s.link) {R : ClInt × List UInt8 → Port σ → Prop}
    {E : Hang → Port σ → Prop} (hstuck : ∀ e s', StuckAt Stuck s s' → E e s')
    (hdone : ∀ s', Took s s' [p.hi, p.lo] s'.link → Q s'.link →
      Exec.wp (finishRecv link fuel cmdlen ack read p.body) R E s') :
    Exec.wp (recvCheck link fuel f ack) R E s := by
  rw [recvCheck, Exec.wp_bind]
  show Exec.wp _ _ _ { s with stores := s.stores ++ [RecvStore.cmd f.stored.length 0] }
  rw [Exec.wp_bind]
  have hsame : Offers link Stuck Q [p.hi, p.lo]
      (Port.link { s with stores := s.stores ++ [RecvStore.cmd f.stored.length 0] }) := h
  refine (wp_nextChar_offers link fuel hsame hfuel f.buf).mono (fun out s₁ h₁ => ?_)
    (fun _ s₁ h => hstuck _ _ h)
  obtain ⟨rfl, htook₁, hrest₁⟩ := h₁
  rw [Exec.wp_bind]
  refine (wp_nextChar_offers link fuel hrest₁ hfuel _).mono (fun out s₂ h₂ => ?_)
    (fun _ _ h => hstuck _ _ (h.of_log htook₁.log))
  obtain ⟨rfl, htook₂, hrest₂⟩ := h₂
  have htook := (htook₁.trans htook₂).congr (s := s) rfl rfl
  have hscan : recvSum link (.byte p.hi) (.byte p.lo) =
      (pure ((checksum p.body : Nat) : Int) : Gdb σ Int) := by
    rw [recvSum, Got.toByte_byte, Got.toByte_byte, scanHex2_of_hexPair p.check]
    rfl
  show Exec.wp (recvSum link (.byte p.hi) (.byte p.lo) >>= _) _ _ s₂
  have hbuf : f.buf ++ [.byte p.hi] ++ [.byte p.lo] = read.map .byte := by
    rw [← hread, List.append_assoc]
    rfl
  have hr : f.r = payloadRet cmdlen p.body.length := by rw [hafter.r, List.length_map]
  have hstored : f.stored = p.body.take (cmdlen - 1) := by
    rw [hafter.stored, map_toByte_byte]
  have hack : (if f.sum % 256 ≠ ((checksum p.body : Nat) : Int) then chMinus else chPlus) = chPlus :=
    if_neg (not_not.mpr hafter.sum_emod)
  rw [hscan, pure_bind]
  simp only [hack, hbuf, hr, hstored]
  cases hrest₂ with
  | done hq =>
    have hfinal := hdone s₂ htook hq
    rw [finishRecv] at hfinal
    exact hfinal

/-- **Offered acknowledgements and an intact packet**, a receive takes just these, answers the packet
with `+` if it is to, and returns its body as far as there is room. -/
theorem wp_gdbRemoteRecv_offers {k cmdlen : Nat} {p : Packet} {s : Port σ} (ack : Bool)
    (hfuel : k < fuel) (hroom : k + p.bytes.length ≤ buflen)
    (h : Offers link Stuck Q (List.replicate k chPlus ++ p.bytes) s.link)
    {R : ClInt × List UInt8 → Port σ → Prop} {E : Hang → Port σ → Prop}
    (hstuck : ∀ e s', StuckAt Stuck s s' → E e s')
    (hdone : ∀ s', Took s s' (List.replicate k chPlus ++ p.bytes) s'.link → Q s'.link →
      Exec.wp (finishRecv link fuel cmdlen ack (List.replicate k chPlus ++ p.bytes) p.body) R E s') :
    Exec.wp (gdbRemoteRecv link fuel cmdlen ack) R E s := by
  rw [Packet.length_bytes] at hroom
  have hbytes : List.replicate k chPlus ++ p.bytes =
      (List.replicate k chPlus ++ [chDollar]) ++ ((p.body ++ [chHash]) ++ [p.hi, p.lo]) := by
    simp [Packet.bytes]
  rw [hbytes] at h hdone
  rw [gdbRemoteRecv, Exec.wp_bind]
  refine ((Exec.wp_bind ..).mp (wp_front_offers link fuel hfuel h.append)).mono (fun out s₁ hskip => ?_)
    (fun _ s₁ h => hstuck _ _ h)
  obtain ⟨buf, c⟩ := out
  refine (Exec.wp_bind ..).mpr (hskip.mono (fun out s₂ h₂ => ?_) (fun _ s₂ h => hstuck _ _ h))
  obtain ⟨rfl, htook₂, hbody⟩ := h₂
  replace hbody := hbody.append
  -- the first character of the body and its `#` is read behind the `$`
  obtain ⟨c, tail, htext⟩ : ∃ c tail, p.body ++ [chHash] = c :: tail := by
    cases p.body with
    | nil => exact ⟨chHash, [], rfl⟩
    | cons b body => exact ⟨b, body ++ [chHash], rfl⟩
  rw [htext] at hbody
  show Exec.wp (recvFrame link fuel cmdlen ack _ (.byte chDollar)) R E s₂
  rw [recvFrame, if_pos (Got.toInt_byte_eq.mpr rfl), Exec.wp_bind]
  refine (wp_nextChar_offers link fuel hbody (by omega) _).mono (fun out s₃ h₃ => ?_)
    (fun _ _ h => hstuck _ _ (h.of_log htook₂.log))
  obtain ⟨rfl, htook₃, hrest⟩ := h₃
  have hzero : Payload.After cmdlen []
      ⟨(List.replicate k chPlus ++ [chDollar]).map .byte ++ [.byte c], [], clSuccess, 0⟩ :=
    ⟨by simp, by rw [payloadRet, if_pos (by simp)], rfl⟩
  rw [Exec.wp_bind]
  refine (wp_recvPayload_offers link fuel (by omega) p.body c tail [] _ buflen s₃ htext.symm p.noHash hzero
    (by simp; omega) (by omega) hrest).mono (fun out s₄ h₄ => ?_)
    (fun _ _ h => hstuck _ _ (h.of_log (htook₃.log.trans htook₂.log)))
  obtain ⟨ended, f⟩ := out
  obtain ⟨hended, hbuf, hafter, htook₄, hcheck⟩ := h₄
  obtain rfl : ended = true := hended
  have hall := (htook₂.trans htook₃).trans htook₄
  show Exec.wp (recvCheck link fuel f ack) R E s₄
  refine recvCheck_offers link fuel ack hafter (by omega) ?_ hcheck
    (fun _ _ h => hstuck _ _ (h.of_log hall.log)) fun s₅ htook₅ hq => hdone s₅ ?_ hq
  · replace hbuf : f.buf = (List.replicate k chPlus ++ [chDollar]).map .byte ++ [.byte c] ++
      tail.map .byte := hbuf
    rw [hbuf, htext]
    simp
  · rw [htext]
    simpa using hall.trans htook₅

/-- Fed with these bytes, it takes them all. -/
theorem wp_gdbRemoteRecv_feed {k cmdlen : Nat} {p : Packet} {s : Port σ} {l' : σ} (ack : Bool)
    (hfuel : k < fuel) (hroom : k + p.bytes.length ≤ buflen)
    (h : Feed link s.link (List.replicate k chPlus ++ p.bytes) l')
    {R : ClInt × List UInt8 → Port σ → Prop} {E : Hang → Port σ → Prop}
    (hdone : ∀ s', Took s s' (List.replicate k chPlus ++ p.bytes) l' →
      Exec.wp (finishRecv link fuel cmdlen ack (List.replicate k chPlus ++ p.bytes) p.body) R E s') :
    Exec.wp (gdbRemoteRecv link fuel cmdlen ack) R E s :=
  wp_gdbRemoteRecv_offers link fuel ack hfuel hroom h.offers (fun _ _ h => h.2.elim) fun s' htook hlink =>
    hdone s' (hlink ▸ htook)

end Driver

/-! ## A frame that comes back -/

/-- The state of the link behind the acknowledgement of a receive. -/
def acked (link : Link σ) (ack : Bool) (l : σ) : σ := if ack then (link.send [chPlus] l).2 else l

/-- **What a receive makes of a frame.** Fed with the frame of a command, a receive takes the frame and
nothing more, and returns its body as it is on the wire, so that it returns the command just when
nothing in it was escaped. -/
theorem gdbRemoteRecv_frame (link : Link σ) (fuel : Nat) (ack : Bool)
    (hsend : ∀ bs l, (link.send bs l).1 = .count bs.length) (cmd : List UInt8) (cmdlen : Nat)
    (s : Port σ) (l' : σ) (hfuel : 0 < fuel) (hcmdlen : cmd.length < cmdlen) (frame : List UInt8)
    (hframe : gdbFrame cmd = some frame) (hlen : frame.length ≤ buflen) (hfeed : Feed link s.link frame l') :
    ∃ r stored s', gdbRemoteRecv link fuel cmdlen ack s = (.ok (r, stored), s') ∧
      s'.link = acked link ack l' ∧
      s'.wire = s.wire ++ frame.map .received ++ (if ack then [.sent [chPlus]] else []) ∧
      (r = clSuccess ↔ (escape cmd).length < cmdlen) ∧
      stored = (escape cmd).take (cmdlen - 1) ++ [0] ∧
      ((r = clSuccess ∧ stored = cmd ++ [0]) ↔ ∀ c ∈ cmd, ¬ NeedsEscape c) := by
  obtain rfl : (Packet.command cmd).bytes = frame := Option.some.inj ((gdbFrame_eq cmd).symm.trans hframe)
  have hret : payloadRet cmdlen (escape cmd).length = clSuccess ↔ (escape cmd).length < cmdlen := by
    unfold payloadRet
    split
    · exact iff_of_true rfl (by omega)
    · exact iff_of_false (by decide) (by omega)
  have hundo : (payloadRet cmdlen (escape cmd).length = clSuccess ∧
      (escape cmd).take (cmdlen - 1) ++ [0] = cmd ++ [0]) ↔ ∀ c ∈ cmd, ¬ NeedsEscape c := by
    rw [hret, ← escape_eq_self_iff]
    constructor
    · rintro ⟨hfit, heq⟩
      rw [List.take_of_length_le (by omega)] at heq
      exact (List.append_inj' heq rfl).1
    · intro h
      rw [h]
      exact ⟨hcmdlen, by rw [List.take_of_length_le (by omega)]⟩
  have hwp : Exec.wp (gdbRemoteRecv link fuel cmdlen ack)
      (fun out s' => s'.link = acked link ack l' ∧
        s'.wire = s.wire ++ (Packet.command cmd).bytes.map .received ++
          (if ack then [.sent [chPlus]] else []) ∧
        out = (payloadRet cmdlen (escape cmd).length, (escape cmd).take (cmdlen - 1) ++ [0]))
      (fun _ _ => False) s := by
    refine wp_gdbRemoteRecv_feed (k := 0) link fuel ack hfuel (by simpa using hlen) hfeed fun s₁ htook => ?_
    cases ack with
    | false => exact ⟨htook.link, htook.wire.trans (List.append_nil _).symm, rfl⟩
    | true =>
      have hput : gdbRemotePutchar link fuel chPlus s₁ = _ :=
        gdbRemotePutchar_eq link fuel (Prod.ext (hsend _ _) rfl) hfuel
      rw [finishRecv, if_pos rfl]
      refine (Exec.wp_bind ..).mpr ((Exec.wp_of_ok hput).mpr ⟨?_, ?_, rfl⟩)
      · show (link.send [chPlus] s₁.link).2 = _
        rw [htook.link]
        rfl
      · show s₁.wire ++ [.sent [chPlus]] = _
        rw [htook.wire]
        rfl
  rcases hrun : gdbRemoteRecv link fuel cmdlen ack s with ⟨_ | ⟨r, stored⟩, s'⟩
  · exact (hwp.error hrun).elim
  · obtain ⟨hlink, hwire, hout⟩ := hwp.ok hrun
    obtain ⟨rfl, rfl⟩ := Prod.mk.inj hout
    exact ⟨_, _, s', rfl, hlink, hwire, hret, rfl, hundo⟩

/-- The frame of a command with no escape comes back as the command. -/
theorem okFrame_returns : ∃ r stored s', gdbRemoteRecv scripted 1 3 true { link := ascii "$OK#9a" } =
      (.ok (r, stored), s') ∧ s'.link = acked scripted true [] ∧
    s'.wire = [] ++ (ascii "$OK#9a").map .received ++ (if true then [.sent [chPlus]] else []) ∧
    (r = clSuccess ↔ (escape (ascii "OK")).length < 3) ∧
    stored = (escape (ascii "OK")).take (3 - 1) ++ [0] ∧
    ((r = clSuccess ∧ stored = ascii "OK" ++ [0]) ↔ ∀ c ∈ ascii "OK", ¬ NeedsEscape c) :=
  gdbRemoteRecv_frame scripted 1 true (fun _ _ => rfl) (ascii "OK") 3 { link := ascii "$OK#9a" } []
    (by decide) (by decide) (ascii "$OK#9a") ((gdbFrame_eq _).trans (by decide +kernel)) (by decide)
    (.cons rfl (.cons rfl (.cons rfl (.cons rfl (.cons rfl (.cons rfl (.nil _)))))))

/-- The frame of the command "#" comes back as its escape. -/
theorem hashFrame_altered : gdbFrame [chHash] = some [chDollar, chBrace, 0x03, chHash, 0x38, 0x30] ∧
    (gdbRemoteRecv scripted 1 10 true { link := [chDollar, chBrace, 0x03, chHash, 0x38, 0x30] }).1 =
      .ok (clSuccess, [chBrace, 0x03, 0]) :=
  ⟨by decide +kernel, by decide +kernel⟩

end BaremetalCrt
