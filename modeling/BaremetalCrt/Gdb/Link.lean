/-
# BaremetalCrt.Gdb.Link — the socket, and the two framing functions over it (`drivers/gdb/gdb_remote.c`).

`Link σ` is everything that decides how a call of the driver goes and is not the driver: what the
socket delivers and takes, whether `calloc` has memory, and what an uninitialised local holds.  The
driver runs over the state of a link and the record of its own calls; it ends without a result when a
socket call never returns, or when the fuel of a loop that the source leaves unbounded is used up.

The parts stand in the order of the source: the system calls with their records (`sockRecv`, `sockSend`),
single characters (`gdbRemoteGetchar`, `gdbRemotePutchar`, `gdbRemoteSendInterrupt`), the frame that is sent
(`gdbFrame`, `resend`), and the frame that is received (`skipAcks`, `recvPayload`, `recvCheck`). Two records
are kept for the proofs: what passed over the wire, and which element of its arrays a receive stores to.
-/
import BaremetalCrt.Lib.Exec
import BaremetalCrt.Lib.Rsp
import BaremetalCrt.Runtime.Types

namespace BaremetalCrt

open Lib

/-! ## System calls -/

/-- The result of `recv` for one byte; `blocked` when the call does not return. -/
inductive Received where
  | byte (b : UInt8)
  | eof
  | interrupted
  | failed
  | blocked
  deriving DecidableEq, Repr

/-- The result of `send`: how many bytes were taken. -/
inductive Sent where
  | count (n : Nat)
  | interrupted
  | failed
  | blocked
  deriving DecidableEq, Repr

/-- What decides how the calls of the driver go, as functions of a state of its own: what a `recv` of one
byte returns, what a `send` returns, and whether `calloc` has memory. -/
structure Link (σ : Type) where
  recv : σ → Received × σ
  send : List UInt8 → σ → Sent × σ
  calloc : σ → Bool × σ
  /-- What uninitialised locals hold. -/
  stack : σ → ByteMap × σ

/-- A peer whose bytes are all in the receive queue, and that takes whatever it is sent; once its queue is
empty, a `recv` waits for ever.  Concrete runs of the driver are made over it. -/
def scripted : Link (List UInt8) where
  recv
    | [] => (.blocked, [])
    | b :: bs => (.byte b, bs)
  send bs queue := (.count bs.length, queue)
  calloc queue := (true, queue)
  stack queue := (fun _ => 0, queue)

/-- What `gdb_remote_getchar` returns: a byte of the stream, at the end of the stream whatever its
local held, or the error code. -/
inductive Got where
  | byte (b : UInt8)
  | stale (b : UInt8)
  | failed
  deriving DecidableEq, Repr

/-- The `int` that `gdb_remote_getchar` returns: a failed `recv` gives an error code where a character is
expected. -/
def Got.toInt : Got → Int
  | .byte b => b.toNat
  | .stale b => b.toNat
  | .failed => clOutOfResources

/-- What becomes of that `int` in a `char`: an error code is cut to its low byte. -/
def Got.toByte (c : Got) : UInt8 := UInt8.ofInt c.toInt

/-- A finished call of the driver: a command sent, an interrupt, what a receive read and how it was
acknowledged, an allocation. -/
inductive GdbCall where
  | send (cmd : List UInt8) (ret : ClInt)
  | interrupt (ret : ClInt)
  | recv (read : List Got) (ack : Option UInt8) (ret : ClInt)
  | calloc (ok : Bool)
  deriving DecidableEq, Repr

/-- What passed over the socket, in either direction and in order. -/
inductive Wire where
  | received (b : UInt8)
  | sent (bs : List UInt8)
  deriving DecidableEq, Repr

/-- A store of `gdb_remote_recv` to one of its two arrays. -/
inductive RecvStore where
  | buf (p : Nat) (c : Got)
  | cmd (q : Nat) (b : UInt8)
  deriving DecidableEq, Repr

/-- The link, and the record of what was done over it. -/
structure Port (σ : Type) where
  link : σ
  log : List GdbCall := []
  wire : List Wire := []
  stores : List RecvStore := []

/-- Why there is no result: the peer sends nothing more, or the bound on the loop's rounds is used up. -/
inductive Hang where
  | blocked
  | fuel
  deriving DecidableEq, Repr

/-- A step of the driver. An error code is a result like any other; what ends a step early is that it never
returns. -/
abbrev Gdb (σ : Type) := Exec (Port σ) Hang

variable {σ : Type}

/-- A system call on the link: it returns a value and moves the link on. -/
def onLink {α : Type} (f : σ → α × σ) : Gdb σ α := fun s =>
  (.ok (f s.link).1, { s with link := (f s.link).2 })

/-- A call is finished, and goes on record with its result. -/
def record (c : GdbCall) : Gdb σ Unit := fun s => (.ok (), { s with log := s.log ++ [c] })

/-- A store of a receive to its buffers goes on record, so that its index can be compared with the buffer's
size. -/
def store (st : RecvStore) : Gdb σ Unit := fun s => (.ok (), { s with stores := s.stores ++ [st] })

/-- What a `recv` puts on the record of the wire: one byte, if it returned one. -/
def Received.wire : Received → List Wire
  | .byte b => [.received b]
  | _ => []

/-- What a `send` puts on the record of the wire: the bytes that the kernel took, which may be fewer than it
was given. -/
def Sent.wire (bs : List UInt8) : Sent → List Wire
  | .count n => [.sent (bs.take n)]
  | _ => []

section Driver

variable (link : Link σ) (fuel : Nat)

/-! ## Single characters -/

/-- `recv(fd, &c, 1, 0)`: every character is read on its own. -/
def sockRecv : Gdb σ Received := fun s =>
  let out := link.recv s.link
  (.ok out.1, { s with link := out.2, wire := s.wire ++ out.1.wire })

/-- `send(fd, bs, len, 0)`, with its result as the link gives it. -/
def sockSend (bs : List UInt8) : Gdb σ Sent := fun s =>
  let out := link.send bs s.link
  (.ok out.1, { s with link := out.2, wire := s.wire ++ out.1.wire bs })

/-- The `retry` loop of `gdb_remote_getchar`: an interrupted `recv` is made again. -/
def retryRecv : Nat → Gdb σ Got
  | 0 => Exec.exit .fuel
  | n + 1 => do
    match ← sockRecv link with
    | .byte b => return .byte b
    | .eof =>
      -- nothing was stored to `ch`, and what the stack had there is returned
      let stack ← onLink link.stack
      return .stale (stack 0)
    | .interrupted => retryRecv n
    | .failed => return .failed
    | .blocked => Exec.exit .blocked

/-- `gdb_remote_getchar`: a call that is interrupted is repeated, without a bound in the source. -/
def gdbRemoteGetchar : Gdb σ Got := retryRecv link fuel

/-- The `retry` loop of `gdb_remote_putchar`; its callers ignore what it returns. -/
def retrySend (ch : UInt8) : Nat → Gdb σ Unit
  | 0 => Exec.exit .fuel
  | n + 1 => do
    match ← sockSend link [ch] with
    | .interrupted => retrySend ch n
    | .blocked => Exec.exit .blocked
    | _ => return ()

/-- `gdb_remote_putchar`: likewise. What it returns nobody looks at. -/
def gdbRemotePutchar (ch : UInt8) : Gdb σ Unit := retrySend link ch fuel

/-- `gdb_remote_send_interrupt`: ETX, outside any frame. -/
def gdbRemoteSendInterrupt : Gdb σ ClInt := do
  let nsent ← sockSend link [0x03]
  if nsent = .blocked then
    Exec.exit .blocked
  let r := if nsent = .count 1 then clSuccess else clOutOfResources
  record (.interrupt r)
  return r

/-! ## Sending a frame -/

/-- The loop of `gdb_remote_send`: what is in `buf` up to `pos`, and `sum`, which is a signed `char`.
`none` is "buflen is too short". -/
def escapeLoop (buflen : Nat) : Nat → List UInt8 → List UInt8 → Int8 → Option (List UInt8 × Int8)
  | _, [], buf, sum => some (buf, sum)
  | i, c :: cs, buf, sum =>
    let (buf, sum) :=
      if c = chHash ∨ c = chDollar ∨ c = chBrace ∨ c = chStar then
        (buf ++ [chBrace, c ^^^ 0x20], sum + chBrace.toInt8 + (c ^^^ 0x20).toInt8)
      else (buf ++ [c], sum + c.toInt8)
    -- it is `i` that is compared, not the place in `buf`
    if buflen ≤ i then none else escapeLoop buflen (i + 1) cs buf sum

/-- The frame that `gdb_remote_send` builds: `$`, the escaped payload, `#` and two digits. There is none
when the loop finds its buffer too short. -/
@[irreducible] def gdbFrame (cmd : List UInt8) : Option (List UInt8) := do
  let buflen := cmd.length * 2 + 10
  let (buf, sum) ← escapeLoop buflen 0 cmd [chDollar] 0
  return buf ++ chHash :: hexByte (sum.toInt % 256).toNat

/-- The `resend` loop: the frame is sent until it is acknowledged with `+`. Every `-` sends it again. -/
def resend (buf : List UInt8) (ack : Bool) : Nat → Gdb σ ClInt
  | 0 => Exec.exit .fuel
  | n + 1 => do
    let nsent ← sockSend link buf
    if nsent = .blocked then
      Exec.exit .blocked
    -- where a part of the frame was sent, the rest never is
    if nsent ≠ .count buf.length then
      return clOutOfResources
    if ack then
      let c ← gdbRemoteGetchar link fuel
      if c.toInt = chPlus.toNat then
        return clSuccess
      else if c.toInt = chMinus.toNat then
        resend buf ack n
      else
        return clInvalidDevice
    else
      return clSuccess

/-- `gdb_remote_send`, but for the record of the call. -/
def sendFrame (cmd : List UInt8) (ack : Bool) : Gdb σ ClInt :=
  match gdbFrame cmd with
  | none => return clOutOfHostMemory
  | some buf => resend link fuel buf ack fuel

/-- `gdb_remote_send`, with its entry in the record. -/
@[irreducible] def gdbRemoteSend (cmd : List UInt8) (ack : Bool) : Gdb σ ClInt := do
  let r ← sendFrame link fuel cmd ack
  record (.send cmd r)
  return r

/-! ## Receiving a frame -/

/-- `isspace` in the C locale: what `sscanf` skips in front of a number. -/
def isSpace (c : UInt8) : Bool := c == 0x20 || (0x09 ≤ c && c ≤ 0x0d)

/-- `sscanf(s, "%02x", &v)`: `none` when nothing was converted.  White space is skipped, and the two
characters may be a sign and a digit; `0x` alone is a prefix without digits. -/
def scanHex2 (s : List UInt8) : Option Int :=
  match s.dropWhile isSpace with
  | [] => none
  | c :: rest =>
    let next := rest.head?.bind hexVal
    if c = chPlus then next.map Int.ofNat
    else if c = chMinus then next.map fun v => - Int.ofNat v
    else match hexVal c with
      | none => none
      | some hi =>
        match next with
        | some lo => some (16 * hi + lo)
        | none => if c = 0x30 ∧ (rest.head? = some 0x78 ∨ rest.head? = some 0x58) then none else some hi

/-- `BUFLEN`: the size of the buffer that a receive collects its characters in. -/
def buflen : Nat := 4096

/-- `c = gdb_remote_getchar(prv); buf[p++] = c;`, with the store on record. -/
def nextChar (buf : List Got) : Gdb σ (List Got × Got) := do
  let c ← gdbRemoteGetchar link fuel
  store (.buf buf.length c)
  return (buf ++ [c], c)

/-- `while (c == '+')`: acknowledgements in front of a packet are read and kept in the buffer. -/
def skipAcks (buf : List Got) (c : Got) : Nat → Gdb σ (List Got × Got)
  | 0 => if c.toInt = chPlus.toNat then Exec.exit .fuel else return (buf, c)
  | n + 1 =>
    if c.toInt = chPlus.toNat then do
      let (buf, c) ← nextChar link fuel buf
      skipAcks buf c n
    else return (buf, c)

/-- The locals of `gdb_remote_recv` in its payload loop: what is in `buf`, what was stored to `cmd`,
`r` and `sum`. -/
structure Payload where
  buf : List Got
  stored : List UInt8
  r : ClInt
  sum : Int

/-- `sum += c` and the store to `cmd`, if there is room for the terminator behind it. -/
def Payload.put (cmdlen : Nat) (f : Payload) (c : Got) : Gdb σ Payload := do
  if f.stored.length < cmdlen - 1 then
    store (.cmd f.stored.length c.toByte)
    return { f with stored := f.stored ++ [c.toByte], sum := f.sum + c.toInt }
  -- the sum goes on over what is not stored
  else return { f with r := clOutOfHostMemory, sum := f.sum + c.toInt }

/-- `while (c != '#')`; the result is false when the loop was left with "Too long answer".  The test
of `p` ends the loop within `BUFLEN` iterations. -/
def recvPayload (cmdlen : Nat) (f : Payload) (c : Got) : Nat → Gdb σ (Bool × Payload)
  | 0 => if c.toInt = chHash.toNat then return (true, f) else Exec.exit .fuel
  | n + 1 =>
    if c.toInt = chHash.toNat then return (true, f)
    else do
      let f ← f.put cmdlen c
      let (buf, c) ← nextChar link fuel f.buf
      let f := { f with buf := buf }
      if buflen ≤ buf.length then
        return (false, f)
      recvPayload cmdlen f c n

/-- The number an uninitialised `int` holds: what is on the stack, which the link decides. -/
def staleInt : Gdb σ Int := do
  let stack ← onLink link.stack
  return (Int32.ofNat (leNat (stack.load 0 4))).toInt

/-- The checksum that was received. When `sscanf` finds no number, the variable is left as it was,
uninitialised. -/
def recvSum (h1 h2 : Got) : Gdb σ Int :=
  match scanHex2 [h1.toByte, h2.toByte] with
  | some v => return v
  -- `sum_recv` is not set
  | none => staleInt link

/-- `gdb_remote_recv` from the `#` on: two digits are read, the sums are compared, and the packet is
acknowledged or refused. -/
def recvCheck (f : Payload) (ack : Bool) : Gdb σ (ClInt × List UInt8) := do
  store (.cmd f.stored.length 0)
  let (buf, h1) ← nextChar link fuel f.buf
  let (buf, h2) ← nextChar link fuel buf
  let sumRecv ← recvSum link h1 h2
  let ackChar := if f.sum % 256 ≠ sumRecv then chMinus else chPlus
  if ack then
    gdbRemotePutchar link fuel ackChar
  record (.recv buf (if ack then some ackChar else none) f.r)
  return (f.r, f.stored ++ [0])

/-- `gdb_remote_recv` from the `$` on, with `c` read. -/
def recvFrame (cmdlen : Nat) (ack : Bool) (buf : List Got) (c : Got) :
    Gdb σ (ClInt × List UInt8) := do
  let (buf, c) ← if c.toInt = chDollar.toNat then nextChar link fuel buf else pure (buf, c)
  let (ended, f) ← recvPayload link fuel cmdlen ⟨buf, [], clSuccess, 0⟩ c buflen
  if !ended then
    record (.recv f.buf none clOutOfHostMemory)
    return (clOutOfHostMemory, f.stored)
  recvCheck link fuel f ack

/-- `gdb_remote_recv`: the code, and what it stored at the front of `cmd`.  The `int`s that `getchar`
returns are kept with their origin; `buf` holds them as characters. -/
@[irreducible] def gdbRemoteRecv (cmdlen : Nat) (ack : Bool) : Gdb σ (ClInt × List UInt8) := do
  let (buf, c) ← nextChar link fuel []
  let (buf, c) ← skipAcks link fuel buf c fuel
  recvFrame link fuel cmdlen ack buf c

end Driver

end BaremetalCrt
