/-
# BaremetalCrt.Gdb.Stub — memory transfers against a stub that serves them.

A conforming stub takes the requests apart as they are written (`parseHead`), works on a byte map and
answers each with an intact packet.  Against such a stub a write puts its bytes into the map, whichever
of the two requests it uses, and a read returns what the map holds; the pieces, the texts of the
requests, the two encodings of the bytes, the frames and the buffers fit together for every length.

The stub is given by what it does with a frame (`Listens`), and by nothing else: how the bytes come through,
when it answers and what it has besides is left open. `gdbRemoteReadMem_after_writeMem` and
`gdbRemoteWrite_agree` are the two results on whole transfers.
-/
import BaremetalCrt.Gdb.Pieces
import Mathlib.Data.List.TakeWhile

namespace BaremetalCrt

open Lib

variable {σ : Type}

/-! ## Requests as a stub reads them -/

/-- The text in front of the first separator, and the text behind it. -/
def cut (sep : UInt8) (cs : List UInt8) : List UInt8 × List UInt8 :=
  (cs.takeWhile (· ≠ sep), (cs.dropWhile (· ≠ sep)).tail)

theorem cut_append {sep : UInt8} {as : List UInt8} (h : sep ∉ as) (bs : List UInt8) :
    cut sep (as ++ sep :: bs) = (as, bs) := by
  have hpos : ∀ c ∈ as, decide (c ≠ sep) = true := fun c hc => decide_eq_true fun heq => h (heq ▸ hc)
  rw [cut, List.takeWhile_append_of_pos hpos, List.dropWhile_append_of_pos hpos,
    List.takeWhile_cons_of_neg (by simp), List.dropWhile_cons_of_neg (by simp), List.append_nil]
  rfl

theorem cut_of_notMem {sep : UInt8} {as : List UInt8} (h : sep ∉ as) : cut sep as = (as, []) := by
  have hpos : ∀ c ∈ as, decide (c ≠ sep) = true := fun c hc => decide_eq_true fun heq => h (heq ▸ hc)
  rw [cut, List.takeWhile_eq_self_iff.mpr hpos, List.dropWhile_eq_nil_iff.mpr hpos]
  rfl

/-- A letter, an address, a length, and what comes behind a colon. -/
def parseHead (letter : UInt8) : List UInt8 → Option (Nat × Nat × List UInt8)
  | [] => none
  | c :: cs =>
    if c = letter then do
      let addr ← parseHex (cut 0x2c cs).1
      let len ← parseHex (cut 0x3a (cut 0x2c cs).2).1
      return (addr, len, (cut 0x3a (cut 0x2c cs).2).2)
    else none

/-- `M<addr>,<len>:<hex>`: where what is to be written. -/
def parseWriteMem (cmd : List UInt8) : Option (Nat × List UInt8) := do
  let (addr, len, text) ← parseHead 0x4d cmd
  let data ← unhexBytes text
  if data.length = len then some (addr, data) else none

/-- `X<addr>,<len>:<binary>`: the address and the bytes, if there are as many as the head says. -/
def parseWriteBin (cmd : List UInt8) : Option (Nat × List UInt8) := do
  let (addr, len, data) ← parseHead 0x58 cmd
  if data.length = len then some (addr, data) else none

/-- `m<addr>,<len>`: how much is to be read from where. -/
def parseRead (cmd : List UInt8) : Option (Nat × Nat) := do
  let (addr, len, _) ← parseHead 0x6d cmd
  return (addr, len)

/-- A character of a text of digits is neither of the separators, none of the escaped ones and no NUL. -/
theorem plain_of_isSome_hexVal {c : UInt8} (h : (hexVal c).isSome) :
    c ≠ 0x2c ∧ c ≠ 0x3a ∧ ¬ NeedsEscape c ∧ c ≠ 0 := by
  have hnone {d : UInt8} (hd : hexVal d = none) : c ≠ d := fun heq => by
    rw [heq, hd] at h
    cases h
  refine ⟨hnone (by decide), hnone (by decide), ?_, hnone (by decide)⟩
  rintro (rfl | rfl | rfl | rfl) <;> exact absurd h (by decide)

theorem notMem_hexText {c : UInt8} (h : hexVal c = none) (w n : Nat) : c ∉ hexText w n := fun hc => by
  have hsome := isSome_hexVal_of_mem_hexText hc
  rw [h] at hsome
  cases hsome

/-- A head is taken apart as it was put together. -/
theorem parseHead_writeHead {letter : String} {c : UInt8} (hletter : ascii letter = [c]) (paddr : UInt64)
    (len : Nat) (rest : List UInt8) :
    parseHead c (writeHead letter paddr len ++ rest) = some (paddr.toNat, len, rest) := by
  have hcomma : ascii "," = [0x2c] := by decide
  have hcolon : ascii ":" = [0x3a] := by decide
  have htext : writeHead letter paddr len ++ rest =
      c :: (hexText 8 paddr.toNat ++ 0x2c :: (hexText 1 len ++ 0x3a :: rest)) := by
    simp [writeHead, hletter, hcomma, hcolon]
  -- the texts in front of the two separators are digits
  rw [htext, parseHead, if_pos rfl, cut_append (notMem_hexText (by decide) 8 paddr.toNat),
    cut_append (notMem_hexText (by decide) 1 len), parseHex_hexText (by decide), parseHex_hexText (by decide)]
  rfl

theorem length_writeHead_le {letter : String} {c : UInt8} (hletter : ascii letter = [c]) (paddr : UInt64)
    {len : Nat} (hlen : len ≤ maxPiece) : (writeHead letter paddr len).length ≤ 22 := by
  have hcomma : ascii "," = [0x2c] := by decide
  have hcolon : ascii ":" = [0x3a] := by decide
  have haddr : (hexText 8 paddr.toNat).length ≤ 16 := length_hexText_le (by decide) paddr.toNat_lt
  have hdigits : (hexText 1 len).length ≤ 3 :=
    length_hexText_le (by decide) (Nat.lt_of_le_of_lt hlen (by decide))
  simp only [writeHead, hletter, hcomma, hcolon, List.length_append, List.length_singleton]
  omega

/-- Nothing in a head is escaped, and no NUL ends it. -/
theorem plain_writeHead {letter : String} {c : UInt8} (hletter : ascii letter = [c])
    (hc : ¬ NeedsEscape c ∧ c ≠ 0) (paddr : UInt64) (len : Nat) :
    ∀ d ∈ writeHead letter paddr len, ¬ NeedsEscape d ∧ d ≠ 0 := by
  have hcomma : ascii "," = [0x2c] := by decide
  have hcolon : ascii ":" = [0x3a] := by decide
  have hdigit {w n : Nat} {d : UInt8} (hd : d ∈ hexText w n) : ¬ NeedsEscape d ∧ d ≠ 0 :=
    (plain_of_isSome_hexVal (isSome_hexVal_of_mem_hexText hd)).2.2
  intro d hd
  simp only [writeHead, hletter, hcomma, hcolon, List.mem_append, List.mem_singleton] at hd
  rcases hd with (((rfl | hd) | rfl) | hd) | rfl
  · exact hc
  · exact hdigit hd
  · exact ⟨by decide, by decide⟩
  · exact hdigit hd
  · exact ⟨by decide, by decide⟩

/-! ## The three requests -/

theorem catHex_eq (bs : List UInt8) : ∀ (strbuf : List UInt8) (room : Nat), 2 * bs.length ≤ room →
    catHex strbuf bs room = strbuf ++ hexBytes bs := by
  induction bs with
  | nil => exact fun strbuf _ _ => (List.append_nil strbuf).symm
  | cons b bs ih =>
    intro strbuf room hroom
    rw [List.length_cons] at hroom
    have htake : (hexByte b.toNat).take room = hexByte b.toNat :=
      List.take_of_length_le (by simp only [hexByte, List.length_cons, List.length_nil]; omega)
    rw [catHex, htake, ih _ _ (by omega), List.append_assoc]
    rfl

/-- The buffer of the hexadecimal write is long enough for its request. -/
theorem writeMemRequest_eq (paddr : UInt64) {bs : List UInt8} (hlen : bs.length ≤ maxPiece) :
    writeMemRequest paddr bs = writeHead "M" paddr bs.length ++ hexBytes bs := by
  have hletter : ascii "M" = [0x4d] := by decide
  have hhead := length_writeHead_le hletter paddr hlen
  have hplain : ∀ c ∈ writeHead "M" paddr bs.length ++ hexBytes bs, decide (c ≠ 0) = true := by
    intro c hc
    rcases List.mem_append.mp hc with hc | hc
    · exact decide_eq_true (plain_writeHead hletter ⟨by decide, by decide⟩ paddr _ c hc).2
    · exact decide_eq_true (plain_of_isSome_hexVal (isSome_hexVal_of_mem_hexBytes hc)).2.2.2
  -- neither the limits of the buffer nor a NUL cuts the text
  rw [writeMemRequest, List.take_of_length_le (by omega), catHex_eq _ _ _ (by omega), cstr,
    List.takeWhile_eq_self_iff.mpr hplain]

theorem parseWriteMem_request (paddr : UInt64) {bs : List UInt8} (hlen : bs.length ≤ maxPiece) :
    parseWriteMem (writeMemRequest paddr bs) = some (paddr.toNat, bs) := by
  rw [writeMemRequest_eq paddr hlen, parseWriteMem, parseHead_writeHead (by decide)]
  show (unhexBytes (hexBytes bs)).bind _ = _
  rw [unhexBytes_hexBytes, Option.bind_some, if_pos rfl]

theorem parseWriteBin_request (paddr : UInt64) (bs : List UInt8) :
    parseWriteBin (writeBinRequest paddr bs) = some (paddr.toNat, bs) := by
  rw [writeBinRequest, parseWriteBin, parseHead_writeHead (by decide)]
  exact if_pos rfl

/-- Below `2 ^ 56` the request of a read fits its buffer of twenty characters. -/
theorem readRequest_eq {paddr : UInt64} {len : Nat} (hp : paddr.toNat < 2 ^ 56) (hlen : len ≤ maxPiece) :
    readRequest paddr len = 0x6d :: (hexText 8 paddr.toNat ++ 0x2c :: hexText 1 len) := by
  have hletter : ascii "m" = [0x6d] := by decide
  have hcomma : ascii "," = [0x2c] := by decide
  have haddr : (hexText 8 paddr.toNat).length ≤ 14 := length_hexText_le (by decide) hp
  have hdigits : (hexText 1 len).length ≤ 3 :=
    length_hexText_le (by decide) (Nat.lt_of_le_of_lt hlen (by decide))
  have htext : ascii "m" ++ hexText 8 paddr.toNat ++ ascii "," ++ hexText 1 len =
      0x6d :: (hexText 8 paddr.toNat ++ 0x2c :: hexText 1 len) := by
    simp [hletter, hcomma]
  rw [readRequest, htext]
  refine List.take_of_length_le ?_
  simp only [List.length_cons, List.length_append]
  omega

theorem parseRead_request {paddr : UInt64} {len : Nat} (hp : paddr.toNat < 2 ^ 56)
    (hlen : len ≤ maxPiece) : parseRead (readRequest paddr len) = some (paddr.toNat, len) := by
  rw [readRequest_eq hp hlen, parseRead, parseHead, if_pos rfl,
    cut_append (notMem_hexText (by decide) 8 paddr.toNat), cut_of_notMem (notMem_hexText (by decide) 1 len),
    parseHex_hexText (by decide), parseHex_hexText (by decide)]
  rfl

/-- The frame of every request is at most 4096 bytes. -/
theorem length_writeMemRequest_frame_le (paddr : UInt64) {bs : List UInt8} (hlen : bs.length ≤ maxPiece) :
    (Packet.command (writeMemRequest paddr bs)).bytes.length ≤ buflen := by
  have hletter : ascii "M" = [0x4d] := by decide
  have hhead := length_writeHead_le hletter paddr hlen
  have hplain : ∀ c ∈ writeHead "M" paddr bs.length ++ hexBytes bs, ¬ NeedsEscape c := by
    intro c hc
    rcases List.mem_append.mp hc with hc | hc
    · exact (plain_writeHead hletter ⟨by decide, by decide⟩ paddr _ c hc).1
    · exact (plain_of_isSome_hexVal (isSome_hexVal_of_mem_hexBytes hc)).2.2.1
  rw [Packet.length_bytes, writeMemRequest_eq paddr hlen]
  show (escape _).length + 4 ≤ _
  rw [escape_eq_self_iff.mpr hplain, List.length_append, length_hexBytes]
  unfold maxPiece at hlen
  unfold buflen
  omega

theorem length_writeBinRequest_frame_le (paddr : UInt64) {bs : List UInt8} (hlen : bs.length ≤ maxPiece) :
    (Packet.command (writeBinRequest paddr bs)).bytes.length ≤ buflen := by
  have hletter : ascii "X" = [0x58] := by decide
  have hhead := length_writeHead_le hletter paddr hlen
  have hplain : ∀ c ∈ writeHead "X" paddr bs.length, ¬ NeedsEscape c := fun c hc =>
    (plain_writeHead hletter ⟨by decide, by decide⟩ paddr _ c hc).1
  have hbody := length_escape_le bs
  have hsplit : escape (writeHead "X" paddr bs.length ++ bs) =
      writeHead "X" paddr bs.length ++ escape bs := by
    rw [escape, List.flatMap_append, ← escape, escape_eq_self_iff.mpr hplain, ← escape]
  rw [Packet.length_bytes]
  show (escape (writeBinRequest paddr bs)).length + 4 ≤ _
  rw [writeBinRequest, hsplit, List.length_append]
  unfold maxPiece at hlen
  unfold buflen
  omega

/-- The digits of a reply are converted to the bytes they stand for. -/
theorem convert_of_unhexBytes {body bs : List UInt8} (h : unhexBytes body = some bs) (rest : List UInt8)
    {buflen : Nat} (hlen : 2 * bs.length ≤ buflen) :
    (convert (body ++ rest) 0 bs.length buflen).2 = bs := by
  obtain ⟨-, hpairs⟩ := hexPair_of_unhexBytes h
  have hat (j : Nat) (hj : j < bs.length) : ByteAt (body ++ rest) (0 + j) bs[j] := by
    obtain ⟨c, d, hc, hd, hpair⟩ := hpairs j hj
    rw [Nat.zero_add]
    exact ByteAt.append ⟨c, d, hc, hd, hpair⟩ rest
  refine List.ext_getElem? fun j => ?_
  by_cases hj : j < bs.length
  · rw [List.getElem?_eq_getElem hj]
    exact convert_byteAt bs.length 0 _ hlen (fun k hk => ⟨_, hat k hk⟩) j hj _ (hat j hj)
  · have hconv := length_convert_le (body ++ rest) bs.length 0 buflen
    rw [List.getElem?_eq_none (by omega), List.getElem?_eq_none (by omega)]

/-! ## A stub on a byte map -/

/-- A link with a stub behind it that has a memory, and bytes for the host under way: they arrive in
order, `+` makes no difference to it, and there is memory for the host's own buffers. -/
structure MemoryStub (link : Link σ) (mem : σ → ByteMap) (pending : σ → List UInt8) : Prop where
  recv : ∀ l b bs, pending l = b :: bs →
    ∃ l', link.recv l = (.byte b, l') ∧ mem l' = mem l ∧ pending l' = bs
  ack : ∀ l, ∃ l', link.send [chPlus] l = (.count 1, l') ∧ mem l' = mem l ∧ pending l' = pending l
  calloc : ∀ l, ∃ l', link.calloc l = (true, l') ∧ mem l' = mem l ∧ pending l' = pending l

/-- The stub takes every frame that carries `cmd`, leaves the memory `m`, and has `+` and a packet with
such a body under way. -/
def Serves (link : Link σ) (mem : σ → ByteMap) (pending : σ → List UInt8) (l : σ) (cmd : List UInt8)
    (m : ByteMap) (Reply : List UInt8 → Prop) : Prop :=
  ∀ frame body, unpack frame = some (body, []) → unescape body = cmd →
    ∃ (l' : σ) (p : Packet), link.send frame l = (.count frame.length, l') ∧ Reply p.body ∧
      mem l' = m ∧ pending l' = chPlus :: p.bytes

/-- The requests that `parse` understands are carried out and answered "OK". -/
def ServesWrite (link : Link σ) (mem : σ → ByteMap) (pending : σ → List UInt8)
    (parse : List UInt8 → Option (Nat × List UInt8)) : Prop :=
  ∀ l cmd addr data, pending l = [] → parse cmd = some (addr, data) →
    Serves link mem pending l cmd ((mem l).store addr data) fun body => body = ascii "OK"

/-- A read is answered with two digits for each byte. -/
def ServesRead (link : Link σ) (mem : σ → ByteMap) (pending : σ → List UInt8) : Prop :=
  ∀ l cmd addr len, pending l = [] → parseRead cmd = some (addr, len) →
    Serves link mem pending l cmd (mem l) fun body => unhexBytes body = some ((mem l).load addr len)

/-- Nothing longer than a frame's 4096 bytes was sent. -/
def SentShort (ws : List Wire) : Prop := ∀ bs, .sent bs ∈ ws → bs.length ≤ buflen

theorem SentShort.append {ws vs : List Wire} (hw : SentShort ws) (hv : SentShort vs) :
    SentShort (ws ++ vs) := fun bs hbs => (List.mem_append.mp hbs).elim (hw bs) (hv bs)

theorem sentShort_received (bs : List UInt8) : SentShort (bs.map .received) := by
  intro cs hcs
  obtain ⟨b, -, hb⟩ := List.mem_map.mp hcs
  cases hb

theorem sentShort_single {bs : List UInt8} (h : bs.length ≤ buflen) : SentShort [.sent bs] := by
  intro cs hcs
  obtain rfl := Wire.sent.inj (List.mem_singleton.mp hcs)
  exact h

section Driver

variable (link : Link σ) (fuel : Nat)

/-- A command that is taken and acknowledged. -/
theorem gdbRemoteSend_acked {cmd : List UInt8} {s : Port σ} {l₁ l₂ : σ} (hfuel : 0 < fuel)
    (hsend : link.send (Packet.command cmd).bytes s.link = (.count (Packet.command cmd).bytes.length, l₁))
    (hack : link.recv l₁ = (.byte chPlus, l₂)) :
    gdbRemoteSend link fuel cmd true s = (.ok clSuccess,
      ⟨l₂, s.log ++ [.send cmd clSuccess],
        s.wire ++ [.sent (Packet.command cmd).bytes, .received chPlus], s.stores⟩) := by
  obtain ⟨n, rfl⟩ : ∃ n, fuel = n + 1 := ⟨fuel - 1, by omega⟩
  have htake : (link.send (Packet.command cmd).bytes s.link).1 =
      .count (Packet.command cmd).bytes.length := by
    rw [hsend]
  have hanswer : link.recv (link.send (Packet.command cmd).bytes s.link).2 = (.byte chPlus, l₂) := by
    rw [hsend]
    exact hack
  have hround := resend_succ link (n + 1) n htake hanswer rfl hfuel
  rw [if_pos (Got.toInt_byte_eq.mpr rfl)] at hround
  rw [gdbRemoteSend_of_resend link (n + 1) hround]
  simp [Port.answered, Received.wire]

/-- The `+` of a receive that is taken. -/
theorem finishRecv_acked {cmdlen : Nat} {read body : List UInt8} {s : Port σ} {l' : σ} (hfuel : 0 < fuel)
    (hack : link.send [chPlus] s.link = (.count 1, l')) :
    finishRecv link fuel cmdlen true read body s =
      (.ok (payloadRet cmdlen body.length, body.take (cmdlen - 1) ++ [0]),
        ⟨l', s.log ++ [.recv (read.map .byte) (some chPlus) (payloadRet cmdlen body.length)],
          s.wire ++ [.sent [chPlus]], s.stores⟩) := by
  rw [finishRecv, if_pos rfl, Exec.bind_ok (gdbRemotePutchar_eq link fuel hack (by omega))]
  rfl

/-! ### One exchange -/

/-- A link with a stub behind it that listens: `At m w` says that its memory is `m` and that the bytes `w` are
under way to the host.  They arrive in order, `+` makes no difference to it, and there is memory for the
host's own buffers. -/
structure Listens (At : ByteMap → List UInt8 → σ → Prop) : Prop where
  recv : ∀ {l m b w}, At m (b :: w) l → ∃ l', link.recv l = (.byte b, l') ∧ At m w l'
  ack : ∀ {l m w}, At m w l → ∃ l', link.send [chPlus] l = (.count 1, l') ∧ At m w l'
  calloc : ∀ {l m w}, At m w l → ∃ l', link.calloc l = (true, l') ∧ At m w l'

/-- Every frame that carries `cmd` is taken, and `+` and such packets are under way behind it. -/
def Takes (Next : List UInt8 → σ → Prop) (l : σ) (cmd : List UInt8) (Reply : List Packet → Prop) : Prop :=
  ∀ frame body, unpack frame = some (body, []) → unescape body = cmd →
    ∃ (l' : σ) (ps : List Packet), link.send frame l = (.count frame.length, l') ∧ Reply ps ∧
      Next (chPlus :: ps.flatMap Packet.bytes) l'

/-- A reply of one packet, whose body is as `Body` has it. -/
def Single (Body : List UInt8 → Prop) (ps : List Packet) : Prop := ∃ p, ps = [p] ∧ Body p.body

section Exchange

variable {link} {At : ByteMap → List UInt8 → σ → Prop} (hlistens : Listens link At) (hfuel : 0 < fuel)

include hlistens

/-- What is under way arrives. -/
theorem Listens.feed {m : ByteMap} {bs rest : List UInt8} : ∀ {l : σ}, At m (bs ++ rest) l →
    ∃ l', Feed link l bs l' ∧ At m rest l' := by
  induction bs with
  | nil => exact fun {l} h => ⟨l, .nil l, h⟩
  | cons b bs ih =>
    intro l h
    obtain ⟨l₁, hrecv, h₁⟩ := hlistens.recv h
    obtain ⟨l', hfeed, h'⟩ := ih h₁
    exact ⟨l', .cons hrecv hfeed, h'⟩

/-- A packet is received with the acknowledgements in front of it, and answered with `+`. -/
theorem Listens.gdbRemoteRecv {k cmdlen : Nat} {p : Packet} {m : ByteMap} {rest : List UInt8} {s : Port σ}
    (hat : At m (List.replicate k chPlus ++ p.bytes ++ rest) s.link) (hk : k < fuel)
    (hroom : k + p.bytes.length ≤ buflen) :
    Exec.wp (BaremetalCrt.gdbRemoteRecv link fuel cmdlen true)
      (fun out s' => out = (payloadRet cmdlen p.body.length, p.body.take (cmdlen - 1) ++ [0]) ∧
        At m rest s'.link ∧
        s'.wire = s.wire ++ (List.replicate k chPlus ++ p.bytes).map .received ++ [.sent [chPlus]])
      (fun _ _ => False) s := by
  obtain ⟨l₁, hfeed, h₁⟩ := hlistens.feed hat
  refine wp_gdbRemoteRecv_feed link fuel true hk hroom hfeed fun s₁ htook => ?_
  obtain ⟨l₂, hack, h₂⟩ := hlistens.ack h₁
  rw [← htook.link] at hack
  refine (Exec.wp_of_ok (finishRecv_acked link fuel (Nat.zero_lt_of_lt hk) hack)).mpr ⟨rfl, h₂, ?_⟩
  show s₁.wire ++ [.sent [chPlus]] = _
  rw [htook.wire]

include hfuel

/-- The request of an exchange. -/
theorem Listens.gdbRemoteSend {cmd : List UInt8} {m : ByteMap} {Reply : List Packet → Prop} {s : Port σ}
    (htakes : Takes link (At m) s.link cmd Reply) :
    ∃ (s₁ : Port σ) (ps : List Packet), BaremetalCrt.gdbRemoteSend link fuel cmd true s = (.ok clSuccess, s₁) ∧
      Reply ps ∧ At m (ps.flatMap Packet.bytes) s₁.link ∧
      s₁.wire = s.wire ++ [.sent (Packet.command cmd).bytes, .received chPlus] := by
  have hpacket : unpack (Packet.command cmd).bytes = some (escape cmd, []) := by
    have h := unpack_bytes (Packet.command cmd) []
    rwa [List.append_nil] at h
  obtain ⟨l₁, ps, hsend, hreply, h₁⟩ := htakes _ _ hpacket (unescape_escape cmd)
  obtain ⟨l₂, hrecv, h₂⟩ := hlistens.recv h₁
  exact ⟨_, ps, gdbRemoteSend_acked link fuel hfuel hsend hrecv, hreply, h₂, rfl⟩

/-- A piece that is written is in the memory behind it. -/
theorem Listens.writeOne {request : UInt64 → List UInt8 → List UInt8} {paddr : UInt64} {bs : List UInt8}
    (hlen : bs.length ≤ maxPiece) {m m' : ByteMap} {s : Port σ} (hidle : At m [] s.link)
    (htakes : ∀ l, At m [] l → Takes link (At m') l (request paddr bs) (Single (· = ascii "OK"))) :
    Exec.wp (BaremetalCrt.writeOne link fuel request paddr bs)
      (fun r s' => r = clSuccess ∧ At m' [] s'.link ∧
        ((Packet.command (request paddr bs)).bytes.length ≤ buflen → SentShort s.wire → SentShort s'.wire))
      (fun _ _ => False) s := by
  obtain ⟨l₁, hcalloc, h₁⟩ := hlistens.calloc hidle
  rw [BaremetalCrt.writeOne]
  refine Exec.wp_ite.mpr ⟨fun h => absurd h (by omega), fun _ => ?_⟩
  show Exec.wp (if !(link.calloc s.link).1 then _ else _) _ _
    { s with link := (link.calloc s.link).2, log := s.log ++ [GdbCall.calloc (link.calloc s.link).1] }
  rw [hcalloc]
  obtain ⟨s₂, ps, hsend, ⟨p, rfl, hbody⟩, h₂, hwire₂⟩ :=
    hlistens.gdbRemoteSend fuel hfuel (s := ⟨l₁, s.log ++ [.calloc true], s.wire, s.stores⟩) (htakes l₁ h₁)
  refine (Exec.wp_bind ..).mpr ((Exec.wp_of_ok hsend).mpr ?_)
  have hshort : 0 + p.bytes.length ≤ buflen := by
    rw [Packet.length_bytes, hbody]
    decide
  refine (Exec.wp_bind ..).mpr ((hlistens.gdbRemoteRecv fuel (k := 0) h₂ hfuel hshort).mono
    (fun out s₃ h => ?_) (fun _ _ => False.elim))
  obtain ⟨-, h₃, hwire₃⟩ := h
  refine ⟨rfl, h₃, fun hframe hs => ?_⟩
  rw [hwire₃, hwire₂]
  have hplus : SentShort [.sent [chPlus]] := sentShort_single (by decide)
  have hack : SentShort [.received chPlus] := sentShort_received [chPlus]
  exact ((hs.append ((sentShort_single hframe).append hack)).append (sentShort_received _)).append hplus

/-- A piece that is read is what the memory holds. -/
theorem Listens.gdbRemoteReadMemOne {paddr : UInt64} {len : Nat} (hlen : len ≤ maxPiece) {m : ByteMap}
    {s : Port σ} (htakes : Takes link (At m) s.link (readRequest paddr len)
      (Single fun body => unhexBytes body = some (m.load paddr.toNat len))) :
    Exec.wp (BaremetalCrt.gdbRemoteReadMemOne link fuel paddr len)
      (fun out s' => out = (clSuccess, m.load paddr.toNat len) ∧ At m [] s'.link)
      (fun _ _ => False) s := by
  rw [BaremetalCrt.gdbRemoteReadMemOne]
  refine Exec.wp_ite.mpr ⟨fun h => absurd h (by omega), fun _ => ?_⟩
  obtain ⟨s₁, ps, hsend, ⟨p, rfl, hbody⟩, h₁, -⟩ := hlistens.gdbRemoteSend fuel hfuel htakes
  refine (Exec.wp_bind ..).mpr ((Exec.wp_of_ok hsend).mpr ?_)
  obtain ⟨l₂, hcalloc, h₂⟩ := hlistens.calloc h₁
  show Exec.wp (if !(link.calloc s₁.link).1 then _ else _) _ _
    { s₁ with link := (link.calloc s₁.link).2, log := s₁.log ++ [GdbCall.calloc (link.calloc s₁.link).1] }
  rw [hcalloc]
  have hlength : p.body.length = 2 * len := by
    rw [(hexPair_of_unhexBytes hbody).1, ByteMap.length_load]
  have hshort : 0 + p.bytes.length ≤ buflen := by
    rw [Packet.length_bytes]
    unfold maxPiece at hlen
    unfold buflen
    omega
  refine (Exec.wp_bind ..).mpr ((hlistens.gdbRemoteRecv fuel (k := 0)
    (s := ⟨l₂, s₁.log ++ [.calloc true], s₁.wire, s₁.stores⟩) h₂ hfuel hshort).mono
    (fun out s₃ h => ?_) (fun _ _ => False.elim))
  obtain ⟨rfl, h₃, -⟩ := h
  have hret : payloadRet (len * 2 + 64 - 1) p.body.length = clSuccess := if_pos (by omega)
  have htext : p.body.take (len * 2 + 64 - 1 - 1) = p.body := List.take_of_length_le (by omega)
  have hroom : 2 * (m.load paddr.toNat len).length ≤ len * 2 + 64 := by
    rw [ByteMap.length_load]
    omega
  have hbytes := convert_of_unhexBytes hbody [0] hroom
  rw [ByteMap.length_load] at hbytes
  show Exec.wp (if payloadRet (len * 2 + 64 - 1) p.body.length ≠ clSuccess then _ else _) _ _ s₃
  rw [hret, if_neg (not_not.mpr rfl)]
  refine ⟨Prod.ext rfl ?_, h₃⟩
  show (convert (p.body.take (len * 2 + 64 - 1 - 1) ++ [0]) 0 len (len * 2 + 64)).2 = _
  rw [htext, hbytes]

end Exchange

end Driver

/-! ## Whole transfers -/

/-- The rule of the loop over the pieces: `I` holds in front of each of them and at the end, and `J` is
what the transfer ends with, be it behind the last piece or behind one that failed. -/
theorem wp_pieces_rule {len : Nat} {one : Nat → Nat → Gdb σ (ClInt × List UInt8)}
    {I : Nat → (Nat → Option UInt8) → Port σ → Prop} {J : ClInt → (Nat → Option UInt8) → Port σ → Prop}
    {E : Hang → Port σ → Prop}
    (hone : ∀ p got s, p < len → I p got s → Exec.wp (one p (pieceLen len p))
      (fun out s' =>
        let got' := fun i => if p ≤ i ∧ i < p + out.2.length then out.2[i - p]? else got i
        (out.1 = clSuccess → I (p + pieceLen len p) got' s') ∧ (out.1 ≠ clSuccess → J out.1 got' s')) E s)
    (hend : ∀ got s, I len got s → J clSuccess got s) (n : Nat) :
    ∀ p got s, p ≤ len → len ≤ p + n → I p got s →
      Exec.wp (pieces one len n p got) (fun out s' => J out.1 out.2 s') E s := by
  induction n with
  | zero =>
    intro p got s hp hn hI
    obtain rfl : p = len := by omega
    exact hend got s hI
  | succ n ih =>
    intro p got s hp hn hI
    rw [pieces]
    refine Exec.wp_ite.mpr ⟨fun hlt => ?_, fun hge => ?_⟩
    · refine (Exec.wp_bind ..).mpr ((hone p got s hlt hI).mono (fun out s₁ h => ?_) fun _ _ h => h)
      have hpos := pieceLen_pos hlt
      have hle : p + pieceLen len p ≤ len := by
        unfold pieceLen
        omega
      refine Exec.wp_ite.mpr ⟨fun hr => h.2 hr, fun hr => ?_⟩
      exact ih _ _ s₁ hle (by omega) (h.1 (not_not.mp hr))
    · obtain rfl : p = len := by omega
      exact hend got s hI

/-- A transfer whose pieces all succeed keeps what they keep. -/
theorem wp_pieces_invariant {len : Nat} {one : Nat → Nat → Gdb σ (ClInt × List UInt8)}
    {I : Nat → (Nat → Option UInt8) → Port σ → Prop}
    (hone : ∀ p got s, p < len → I p got s → Exec.wp (one p (pieceLen len p))
      (fun out s' => out.1 = clSuccess ∧ I (p + pieceLen len p)
        (fun i => if p ≤ i ∧ i < p + out.2.length then out.2[i - p]? else got i) s')
      (fun _ _ => False) s) (got : Nat → Option UInt8) {s : Port σ} (hI : I 0 got s) :
    Exec.wp (pieces one len len 0 got) (fun out s' => out.1 = clSuccess ∧ I len out.2 s')
      (fun _ _ => False) s := by
  refine wp_pieces_rule (J := fun r got s' => r = clSuccess ∧ I len got s') (fun p got s hp hI => ?_)
    (fun _ _ h => ⟨rfl, h⟩) len 0 got s (Nat.zero_le _) (by omega) hI
  exact (hone p got s hp hI).mono (fun _ _ h => ⟨fun _ => h.2, fun hr => absurd h.1 hr⟩) fun _ _ h => h

section Ops

variable {link : Link σ} (fuel : Nat) {At : ByteMap → List UInt8 → σ → Prop} (hlistens : Listens link At)
  (hfuel : 0 < fuel)

include hlistens hfuel

/-- **A write puts its bytes into the memory**, and nothing that it sends is longer than a frame. -/
theorem Listens.writePieces {request : UInt64 → List UInt8 → List UInt8}
    (htakes : ∀ q cs, cs.length ≤ maxPiece → ∀ l m, At m [] l →
      Takes link (At (m.store q.toNat cs)) l (request q cs) (Single (· = ascii "OK")))
    (hframe : ∀ q cs, cs.length ≤ maxPiece → (Packet.command (request q cs)).bytes.length ≤ buflen)
    {paddr : UInt64} {bs : List UInt8} (hfit : paddr.toNat + bs.length ≤ 2 ^ 64) {m : ByteMap} {s : Port σ}
    (hidle : At m [] s.link) :
    ∃ s', BaremetalCrt.writePieces (BaremetalCrt.writeOne link fuel request) paddr bs s =
        (.ok clSuccess, s') ∧
      At (m.store paddr.toNat bs) [] s'.link ∧ (SentShort s.wire → SentShort s'.wire) := by
  -- when `p` bytes are sent, these are in the memory
  let I (p : Nat) (_ : Nat → Option UInt8) (s' : Port σ) : Prop :=
    At (m.store paddr.toNat (bs.take p)) [] s'.link ∧ (SentShort s.wire → SentShort s'.wire)
  let one (p l : Nat) : Gdb σ (ClInt × List UInt8) := do
    let r ← BaremetalCrt.writeOne link fuel request (paddr + UInt64.ofNat p) ((bs.drop p).take l)
    return (r, [])
  have hone (p : Nat) (got : Nat → Option UInt8) (s₁ : Port σ) (hp : p < bs.length) (hI : I p got s₁) :
      Exec.wp (one p (pieceLen bs.length p)) (fun out s' => out.1 = clSuccess ∧ I (p + pieceLen bs.length p)
        (fun i => if p ≤ i ∧ i < p + out.2.length then out.2[i - p]? else got i) s')
      (fun _ _ => False) s₁ := by
    obtain ⟨hat, hsent⟩ := hI
    have hl : ((bs.drop p).take (pieceLen bs.length p)).length ≤ maxPiece :=
      (List.length_take_le ..).trans (pieceLen_le ..)
    refine (Exec.wp_bind ..).mpr ((hlistens.writeOne fuel hfuel hl hat fun l => htakes _ _ hl l _).mono
      (fun r s₂ h => ?_) (fun _ _ => False.elim))
    obtain ⟨rfl, hat₂, hsent₂⟩ := h
    have haddr : (paddr + UInt64.ofNat p).toNat = paddr.toNat + p := by
      rw [UInt64.toNat_add, UInt64.toNat_ofNat']
      omega
    have hfront : (bs.take p).length = p := by
      rw [List.length_take]
      omega
    refine ⟨rfl, ?_, fun hs => hsent₂ (hframe _ _ hl) (hsent hs)⟩
    -- the piece goes behind the bytes that are there already
    rw [haddr] at hat₂
    rwa [List.take_add, ByteMap.store_append, hfront]
  have hI : I 0 (fun _ => none) s := by
    refine ⟨?_, id⟩
    rwa [List.take_zero, ByteMap.store_nil]
  have hrun := wp_pieces_invariant hone (fun _ => none) hI
  rcases hpieces : pieces one bs.length bs.length 0 (fun _ => none) s with ⟨_ | ⟨r, got⟩, s'⟩
  · exact (hrun.error hpieces).elim
  · obtain ⟨rfl, hat, hsent⟩ := hrun.ok hpieces
    rw [List.take_length] at hat
    refine ⟨s', ?_, hat, hsent⟩
    rw [BaremetalCrt.writePieces, Exec.bind_ok hpieces]
    rfl

/-- **A read returns what the memory holds.** -/
theorem Listens.gdbRemoteReadMem {m : ByteMap}
    (htakes : ∀ (q : UInt64) n, n ≤ maxPiece → q.toNat < 2 ^ 56 → ∀ l, At m [] l →
      Takes link (At m) l (readRequest q n) (Single fun body => unhexBytes body = some (m.load q.toNat n)))
    {paddr : UInt64} {len : Nat} (hfit : paddr.toNat + len ≤ 2 ^ 56) {s : Port σ} (hidle : At m [] s.link) :
    ∃ got s', BaremetalCrt.gdbRemoteReadMem (some link) fuel paddr len s = (.ok (clSuccess, got), s') ∧
      (∀ j, j < len → got j = some (m (paddr.toNat + j))) ∧ At m [] s'.link := by
  -- when `p` bytes are read, they are what the memory holds, which does not change
  let I (p : Nat) (got : Nat → Option UInt8) (s' : Port σ) : Prop :=
    (∀ j, j < p → got j = some (m (paddr.toNat + j))) ∧ At m [] s'.link
  let one (p l : Nat) : Gdb σ (ClInt × List UInt8) :=
    BaremetalCrt.gdbRemoteReadMemOne link fuel (paddr + UInt64.ofNat p) l
  have hone (p : Nat) (got : Nat → Option UInt8) (s₁ : Port σ) (hp : p < len) (hI : I p got s₁) :
      Exec.wp (one p (pieceLen len p)) (fun out s' => out.1 = clSuccess ∧ I (p + pieceLen len p)
        (fun i => if p ≤ i ∧ i < p + out.2.length then out.2[i - p]? else got i) s')
      (fun _ _ => False) s₁ := by
    obtain ⟨hgot, hat⟩ := hI
    have haddr : (paddr + UInt64.ofNat p).toNat = paddr.toNat + p := by
      rw [UInt64.toNat_add, UInt64.toNat_ofNat']
      omega
    refine (hlistens.gdbRemoteReadMemOne fuel hfuel (pieceLen_le len p)
      (htakes _ _ (pieceLen_le len p) (by omega) _ hat)).mono (fun out s₂ h => ?_) (fun _ _ => False.elim)
    obtain ⟨rfl, hat₂⟩ := h
    refine ⟨rfl, fun j hj => ?_, hat₂⟩
    show (if p ≤ j ∧ j < p + (m.load (paddr + UInt64.ofNat p).toNat (pieceLen len p)).length then _ else _) = _
    rw [ByteMap.length_load, haddr, ByteMap.getElem?_load]
    by_cases hlt : p ≤ j
    · rw [if_pos ⟨hlt, hj⟩, if_pos (by omega), show paddr.toNat + p + (j - p) = paddr.toNat + j by omega]
    · rw [if_neg fun h => hlt h.1]
      exact hgot j (by omega)
  have hI : I 0 (fun _ => none) s := ⟨fun j hj => absurd hj (Nat.not_lt_zero j), hidle⟩
  have hrun := wp_pieces_invariant hone (fun _ => none) hI
  rcases hpieces : pieces one len len 0 (fun _ => none) s with ⟨_ | ⟨r, got⟩, s'⟩
  · exact (hrun.error hpieces).elim
  · obtain ⟨rfl, hgot, hat⟩ := hrun.ok hpieces
    exact ⟨got, s', hpieces, hgot, hat⟩

end Ops

/-! ### A stub that always listens -/

section Served

variable (link : Link σ) (fuel : Nat) {mem : σ → ByteMap} {pending : σ → List UInt8}
  (stub : MemoryStub link mem pending) (hfuel : 0 < fuel)

theorem Serves.takes {l : σ} {cmd : List UInt8} {m : ByteMap} {Body : List UInt8 → Prop}
    (h : Serves link mem pending l cmd m Body) :
    Takes link (fun w l' => mem l' = m ∧ pending l' = w) l cmd (Single Body) := by
  intro frame body hunpack hbody
  obtain ⟨l', p, hsend, hreply, hmem, hpending⟩ := h frame body hunpack hbody
  exact ⟨l', [p], hsend, ⟨p, rfl, hreply⟩, hmem, by rw [hpending, List.flatMap_singleton]⟩

include stub

theorem MemoryStub.listens : Listens link fun m w l => mem l = m ∧ pending l = w where
  recv h := by
    obtain ⟨l', hrecv, hmem, hpending⟩ := stub.recv _ _ _ h.2
    exact ⟨l', hrecv, hmem.trans h.1, hpending⟩
  ack {l _ _} h := by
    obtain ⟨l', hack, hmem, hpending⟩ := stub.ack l
    exact ⟨l', hack, hmem.trans h.1, hpending.trans h.2⟩
  calloc {l _ _} h := by
    obtain ⟨l', hcalloc, hmem, hpending⟩ := stub.calloc l
    exact ⟨l', hcalloc, hmem.trans h.1, hpending.trans h.2⟩

include hfuel

theorem writePieces_served {request : UInt64 → List UInt8 → List UInt8}
    {parse : List UInt8 → Option (Nat × List UInt8)} (hserves : ServesWrite link mem pending parse)
    (hparse : ∀ q cs, cs.length ≤ maxPiece → parse (request q cs) = some (q.toNat, cs))
    (hframe : ∀ q cs, cs.length ≤ maxPiece → (Packet.command (request q cs)).bytes.length ≤ buflen)
    {paddr : UInt64} {bs : List UInt8} (hfit : paddr.toNat + bs.length ≤ 2 ^ 64) {s : Port σ}
    (hidle : pending s.link = []) (hshort : SentShort s.wire) :
    ∃ s', writePieces (writeOne link fuel request) paddr bs s = (.ok clSuccess, s') ∧
      mem s'.link = (mem s.link).store paddr.toNat bs ∧ pending s'.link = [] ∧ SentShort s'.wire := by
  obtain ⟨s', hrun, ⟨hmem, hpending⟩, hsent⟩ := (stub.listens link).writePieces fuel hfuel
    (fun q cs hcs l m hl => hl.1 ▸ (hserves l _ _ _ hl.2 (hparse q cs hcs)).takes link) hframe hfit (s := s)
    ⟨rfl, hidle⟩
  exact ⟨s', hrun, hmem, hpending, hsent hshort⟩

theorem gdbRemoteReadMem_served (hserves : ServesRead link mem pending) {paddr : UInt64} {len : Nat}
    (hfit : paddr.toNat + len ≤ 2 ^ 56) {s : Port σ} (hidle : pending s.link = []) :
    ∃ got s', gdbRemoteReadMem (some link) fuel paddr len s = (.ok (clSuccess, got), s') ∧
      (∀ j, j < len → got j = some (mem s.link (paddr.toNat + j))) ∧ mem s'.link = mem s.link ∧
      pending s'.link = [] := by
  obtain ⟨got, s', hrun, hgot, hmem, hpending⟩ := (stub.listens link).gdbRemoteReadMem fuel hfuel
    (fun q n hn hq l hl => hl.1 ▸ (hserves l _ _ _ hl.2 (parseRead_request hq hn)).takes link) hfit (s := s)
    ⟨rfl, hidle⟩
  exact ⟨got, s', hrun, hgot, hmem, hpending⟩

end Served

/-! ## A stub that serves them -/

theorem hash_notMem_ok : chHash ∉ ascii "OK" := by decide

/-- The packet `OK`. -/
def okPacket : Packet := .of (ascii "OK") hash_notMem_ok

/-- The reply to a read of these bytes: two digits for each. -/
def dataPacket (bs : List UInt8) : Packet := .of (hexBytes bs) fun h =>
  (plain_of_isSome_hexVal (isSome_hexVal_of_mem_hexBytes h)).2.2.1 (Or.inl rfl)

/-- What a stub on a byte map makes of a request: the memory it leaves, and its reply. -/
def serve (m : ByteMap) (cmd : List UInt8) : Option (ByteMap × Packet) :=
  match parseWriteMem cmd with
  | some (addr, data) => some (m.store addr data, okPacket)
  | none =>
    match parseWriteBin cmd with
    | some (addr, data) => some (m.store addr data, okPacket)
    | none => (parseRead cmd).map fun (addr, len) => (m, dataPacket (m.load addr len))

/-- A memory, and the bytes under way to the host. -/
structure Served where
  mem : ByteMap
  pending : List UInt8

/-- A frame that is understood is carried out; anything else is ignored. -/
def Served.take (l : Served) (frame : List UInt8) : Served :=
  match unpack frame with
  | some (body, _) =>
    match serve l.mem (unescape body) with
    | some (m, p) => ⟨m, l.pending ++ chPlus :: p.bytes⟩
    | none => l
  | none => l

/-- The link with such a stub behind it: a frame that is sent is served at once, and its reply is read from
then on. -/
def mapStub : Link Served where
  recv l :=
    match l.pending with
    | [] => (.blocked, l)
    | b :: bs => (.byte b, ⟨l.mem, bs⟩)
  send bs l := (.count bs.length, l.take bs)
  calloc l := (true, l)
  stack l := (fun _ => 0, l)

theorem memoryStub_mapStub : MemoryStub mapStub Served.mem Served.pending where
  recv l b bs h := ⟨⟨l.mem, bs⟩, by simp only [mapStub, h], rfl, rfl⟩
  ack l := ⟨l, rfl, rfl, rfl⟩
  calloc l := ⟨l, rfl, rfl, rfl⟩

theorem serves_mapStub {l : Served} {cmd : List UInt8} {m : ByteMap} {p : Packet} (hidle : l.pending = [])
    (hserve : serve l.mem cmd = some (m, p)) {Reply : List UInt8 → Prop} (hreply : Reply p.body) :
    Serves mapStub Served.mem Served.pending l cmd m Reply := by
  intro frame body hunpack hbody
  have htake : l.take frame = ⟨m, chPlus :: p.bytes⟩ := by
    rw [Served.take, hunpack]
    simp only [hbody, hserve, hidle, List.nil_append]
  exact ⟨⟨m, chPlus :: p.bytes⟩, p, by rw [← htake]; rfl, hreply, rfl, rfl⟩

/-- Requests that begin differently are not confused. -/
theorem parseHead_eq_none {letter c : UInt8} {cmd : List UInt8} {x : Nat × Nat × List UInt8}
    (h : parseHead c cmd = some x) (hne : c ≠ letter) : parseHead letter cmd = none := by
  cases cmd with
  | nil => cases h
  | cons d cs =>
    rw [parseHead] at h ⊢
    split at h
    · next heq =>
      rw [heq, if_neg hne]
    · cases h

theorem parseHead_of_parseWriteBin {cmd : List UInt8} {x : Nat × List UInt8}
    (h : parseWriteBin cmd = some x) : ∃ y, parseHead 0x58 cmd = some y :=
  (Option.bind_eq_some_iff.mp h).imp fun _ h => h.1

theorem parseHead_of_parseRead {cmd : List UInt8} {x : Nat × Nat} (h : parseRead cmd = some x) :
    ∃ y, parseHead 0x6d cmd = some y :=
  (Option.bind_eq_some_iff.mp h).imp fun _ h => h.1

theorem parseWriteMem_eq_none {cmd : List UInt8} (h : parseHead 0x4d cmd = none) :
    parseWriteMem cmd = none := by
  rw [parseWriteMem, h]
  rfl

theorem parseWriteBin_eq_none {cmd : List UInt8} (h : parseHead 0x58 cmd = none) :
    parseWriteBin cmd = none := by
  rw [parseWriteBin, h]
  rfl

theorem serve_writeMem {m : ByteMap} {cmd : List UInt8} {addr : Nat} {data : List UInt8}
    (hparse : parseWriteMem cmd = some (addr, data)) : serve m cmd = some (m.store addr data, okPacket) := by
  rw [serve, hparse]

theorem serve_writeBin {m : ByteMap} {cmd : List UInt8} {addr : Nat} {data : List UInt8}
    (hparse : parseWriteBin cmd = some (addr, data)) : serve m cmd = some (m.store addr data, okPacket) := by
  obtain ⟨y, hhead⟩ := parseHead_of_parseWriteBin hparse
  rw [serve, parseWriteMem_eq_none (parseHead_eq_none hhead (by decide))]
  simp only [hparse]

theorem serve_readMem {m : ByteMap} {cmd : List UInt8} {addr len : Nat}
    (hparse : parseRead cmd = some (addr, len)) : serve m cmd = some (m, dataPacket (m.load addr len)) := by
  obtain ⟨y, hhead⟩ := parseHead_of_parseRead hparse
  rw [serve, parseWriteMem_eq_none (parseHead_eq_none hhead (by decide))]
  simp only [parseWriteBin_eq_none (parseHead_eq_none hhead (by decide)), hparse, Option.map_some]

theorem servesWriteMem_mapStub : ServesWrite mapStub Served.mem Served.pending parseWriteMem :=
  fun _ _ _ _ hidle hparse => serves_mapStub hidle (serve_writeMem hparse) rfl

theorem servesWriteBin_mapStub : ServesWrite mapStub Served.mem Served.pending parseWriteBin :=
  fun _ _ _ _ hidle hparse => serves_mapStub hidle (serve_writeBin hparse) rfl

theorem servesRead_mapStub : ServesRead mapStub Served.mem Served.pending :=
  fun _ _ _ _ hidle hparse => serves_mapStub hidle (serve_readMem hparse) (unhexBytes_hexBytes _)

/-! ## What the operations of the device do to the memory -/

/-- **What was written is read back.** Below `2 ^ 56`, the last address that the request of a read has
room for, a write and a read behind it both succeed against every stub that serves them; the read
returns the bytes that were written where the two ranges meet, and what was in the memory before
elsewhere. -/
theorem gdbRemoteReadMem_after_writeMem (link : Link σ) (fuel : Nat) (mem : σ → ByteMap)
    (pending : σ → List UInt8) (stub : MemoryStub link mem pending)
    (hwrite : ServesWrite link mem pending parseWriteMem) (hread : ServesRead link mem pending)
    (hfuel : 0 < fuel) (l : σ) (hidle : pending l = []) (paddr : UInt64) (bs : List UInt8)
    (hfit : paddr.toNat + bs.length ≤ 2 ^ 56) (a : UInt64) (n : Nat) (ha : a.toNat + n ≤ 2 ^ 56) :
    ∃ s₁ out s₂, gdbRemoteWriteMem (some link) fuel paddr bs { link := l } = (.ok clSuccess, s₁) ∧
      gdbRemoteReadMem (some link) fuel a n s₁ = (.ok (clSuccess, out), s₂) ∧
      ∀ j, j < n → out j = some (if paddr.toNat ≤ a.toNat + j then
        bs.getD (a.toNat + j - paddr.toNat) (mem l (a.toNat + j)) else mem l (a.toNat + j)) := by
  have hsmall : paddr.toNat + bs.length ≤ 2 ^ 64 := by omega
  obtain ⟨s₁, hrun₁, hmem₁, hidle₁, -⟩ := writePieces_served link fuel stub hfuel hwrite
    (fun q cs hcs => parseWriteMem_request q hcs) (fun q cs hcs => length_writeMemRequest_frame_le q hcs)
    (s := { link := l }) hsmall hidle (fun _ h => absurd h List.not_mem_nil)
  obtain ⟨got, s₂, hrun₂, hgot, -⟩ := gdbRemoteReadMem_served link fuel stub hfuel hread ha hidle₁
  refine ⟨s₁, got, s₂, hrun₁, hrun₂, fun j hj => ?_⟩
  rw [hgot j hj, hmem₁]
  rfl

/-- Two bytes are written over the end of a piece, and read back with what is beside them. -/
theorem mapStub_readBack : ∃ s₁ out s₂,
    gdbRemoteWriteMem (some mapStub) 1 0x80000000 [0x2a, 0x23] { link := ⟨fun _ => 7, []⟩ } =
      (.ok clSuccess, s₁) ∧
    gdbRemoteReadMem (some mapStub) 1 0x7ffff811 0x7f1 s₁ = (.ok (clSuccess, out), s₂) ∧
    ∀ j, j < 0x7f1 → out j = some (if (0x80000000 : UInt64).toNat ≤ (0x7ffff811 : UInt64).toNat + j then
      [0x2a, 0x23].getD ((0x7ffff811 : UInt64).toNat + j - (0x80000000 : UInt64).toNat) 7 else 7) :=
  gdbRemoteReadMem_after_writeMem mapStub 1 Served.mem Served.pending memoryStub_mapStub
    servesWriteMem_mapStub servesRead_mapStub (by decide) ⟨fun _ => 7, []⟩ rfl 0x80000000 [0x2a, 0x23]
    (by decide) 0x7ffff811 0x7f1 (by decide)

/-- **The two uploads agree.** Against every stub that implements both requests over one byte map, the
binary and the hexadecimal write return the same result and leave the same memory, with the bytes where
they belong and nothing else changed; no frame of either is longer than 4096 bytes. -/
theorem gdbRemoteWrite_agree (link : Link σ) (fuel : Nat) (mem : σ → ByteMap) (pending : σ → List UInt8)
    (stub : MemoryStub link mem pending) (hhex : ServesWrite link mem pending parseWriteMem)
    (hbin : ServesWrite link mem pending parseWriteBin) (hfuel : 0 < fuel) (l : σ)
    (hidle : pending l = []) (paddr : UInt64) (bs : List UInt8) (hfit : paddr.toNat + bs.length ≤ 2 ^ 64) :
    ∃ r s₁ s₂, gdbRemoteWriteBin (some link) fuel paddr bs { link := l } = (.ok r, s₁) ∧
      gdbRemoteWriteMem (some link) fuel paddr bs { link := l } = (.ok r, s₂) ∧
      mem s₁.link = (mem l).store paddr.toNat bs ∧ mem s₂.link = (mem l).store paddr.toNat bs ∧
      (∀ frame, .sent frame ∈ s₁.wire ∨ .sent frame ∈ s₂.wire → frame.length ≤ 4096) := by
  have hnone : SentShort ([] : List Wire) := fun _ h => absurd h List.not_mem_nil
  obtain ⟨s₁, hrun₁, hmem₁, -, hshort₁⟩ := writePieces_served link fuel stub hfuel hbin
    (fun q cs _ => parseWriteBin_request q cs) (fun q cs hcs => length_writeBinRequest_frame_le q hcs)
    (s := { link := l }) hfit hidle hnone
  obtain ⟨s₂, hrun₂, hmem₂, -, hshort₂⟩ := writePieces_served link fuel stub hfuel hhex
    (fun q cs hcs => parseWriteMem_request q hcs) (fun q cs hcs => length_writeMemRequest_frame_le q hcs)
    (s := { link := l }) hfit hidle hnone
  refine ⟨clSuccess, s₁, s₂, hrun₁, hrun₂, hmem₁, hmem₂, fun frame h => ?_⟩
  exact h.elim (hshort₁ frame) (hshort₂ frame)

/-- Three bytes, one of which is escaped, at the very top of the address space. -/
theorem mapStub_agree : ∃ r s₁ s₂,
    gdbRemoteWriteBin (some mapStub) 1 0xfffffffffffffffd [0x2a, 0, 0x61] { link := ⟨fun _ => 7, []⟩ } =
      (.ok r, s₁) ∧
    gdbRemoteWriteMem (some mapStub) 1 0xfffffffffffffffd [0x2a, 0, 0x61] { link := ⟨fun _ => 7, []⟩ } =
      (.ok r, s₂) ∧
    s₁.link.mem = ByteMap.store (fun _ => 7) (0xfffffffffffffffd : UInt64).toNat [0x2a, 0, 0x61] ∧
    s₂.link.mem = ByteMap.store (fun _ => 7) (0xfffffffffffffffd : UInt64).toNat [0x2a, 0, 0x61] ∧
    (∀ frame, .sent frame ∈ s₁.wire ∨ .sent frame ∈ s₂.wire → frame.length ≤ 4096) :=
  gdbRemoteWrite_agree mapStub 1 Served.mem Served.pending memoryStub_mapStub servesWriteMem_mapStub
    servesWriteBin_mapStub (by decide) ⟨fun _ => 7, []⟩ rfl 0xfffffffffffffffd [0x2a, 0, 0x61] (by decide)

end BaremetalCrt
