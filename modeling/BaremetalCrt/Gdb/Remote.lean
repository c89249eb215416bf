/-
# BaremetalCrt.Gdb.Remote — the device operations over the link (`drivers/gdb/gdb_remote*.c`).

Resynchronisation, run and stop, the two resets, and the memory transfers in pieces of `0x7f0` bytes.
`none` for a device stands for `dev == NULL || dev->priv == NULL`.  Buffers that the source clears
first are modelled by what was stored at their front; the zeros behind it end a string.

The operations are those of the table of the driver, under the source's names: `gdbRemoteRun` and
`gdbRemoteStop`, the resets of OpenOCD and of QEMU, `gdbRemoteReadMem`, and the two writes, which differ in
how they put bytes into a request. The loops that the source leaves without a bound have a fuel.
-/
import BaremetalCrt.Gdb.Link

namespace BaremetalCrt

open Lib

variable {σ : Type}

/-- The C string at the front of a buffer: what `strlen` and `%s` see of it. -/
def cstr (buf : List UInt8) : List UInt8 := buf.takeWhile (· ≠ 0)

section Driver

variable (link : Link σ) (fuel : Nat)

/-! ## Resynchronisation -/

/-- The loop of `gdb_remote_discard_all`; of `tmpbuf`, which nothing clears, the first byte decides. -/
def discardLoop (first : UInt8) : Nat → Gdb σ Unit
  | 0 => Exec.exit .fuel
  | n + 1 => do
    let (_, stored) ← gdbRemoteRecv link fuel 4096 true
    let first := stored.headD first
    if first = 0 then
      return ()
    discardLoop first n

/-- `gdb_remote_discard_all`: a request that no stub knows is sent, and replies are received up to the empty
one, which is the answer to it. -/
def gdbRemoteDiscardAll : Gdb σ ClInt := do
  let tmpbuf ← onLink link.stack
  let _ ← gdbRemoteSend link fuel (ascii "vMustReplyEmpty") false
  discardLoop link fuel (tmpbuf 0) fuel
  return clSuccess

/-! ## Run and stop -/

/-- `vCont;c`, the request to run. -/
def runCmd : List UInt8 := ascii "vCont;c"

/-- The loop of `gdb_remote_stop`: replies are received up to a stop reply, and then the stub is brought
back into step. -/
def stopLoop : Nat → Gdb σ ClInt
  | 0 => Exec.exit .fuel
  | n + 1 => do
    let (r, tmp) ← gdbRemoteRecv link fuel 4095 true
    if r ≠ clSuccess then
      return r
    if tmp.headD 0 = 0x4f then
      stopLoop n
    else if tmp.headD 0 = 0x54 ∨ tmp.headD 0 = 0x57 then
      let _ ← gdbRemoteDiscardAll link fuel
      return clSuccess
    else
      stopLoop n

/-! ## Reset -/

/-- `monitor reset halt`, the text in hexadecimal: OpenOCD halts the target behind its reset. -/
def openocdResetCmd : List UInt8 := ascii "qRcmd,72657365742068616c74"

/-- `monitor system_reset`, the text in hexadecimal. -/
def qemuResetCmd : List UInt8 := ascii "qRcmd,73797374656d5f7265736574"

/-- The loop of `gdb_remote_openocd_reset`: console output is received up to "OK". -/
def openocdResetLoop : Nat → Gdb σ ClInt
  | 0 => Exec.exit .fuel
  | n + 1 => do
    let (r, tmp) ← gdbRemoteRecv link fuel 4095 true
    if r ≠ clSuccess then
      return r
    if cstr tmp = ascii "OK" then
      return clSuccess
    openocdResetLoop n

/-! ## Memory -/

/-- `0x7f0`: the largest piece of a transfer, so that a request and a reply fit into their buffers. -/
def maxPiece : Nat := 0x7f0

/-- `NMIN(len - p, 0x7f0)`: the length of the piece that starts at byte `p`. -/
def pieceLen (len p : Nat) : Nat := min (len - p) maxPiece

/-- The loop over the pieces that the three transfers share: `one` moves `l` bytes at `p` and says what
it stored in the caller's buffer.  Every iteration moves a byte at least, so that `len` of them are
enough. -/
def pieces (one : Nat → Nat → Gdb σ (ClInt × List UInt8)) (len : Nat) :
    Nat → Nat → (Nat → Option UInt8) → Gdb σ (ClInt × (Nat → Option UInt8))
  | 0, _, got => return (clSuccess, got)
  | n + 1, p, got =>
    if p < len then do
      let l := pieceLen len p
      let (r, bytes) ← one p l
      let got := fun i => if p ≤ i ∧ i < p + bytes.length then bytes[i - p]? else got i
      if r ≠ clSuccess then
        return (r, got)
      pieces one len n (p + l) got
    else return (clSuccess, got)

/-- The request of `gdb_remote_read_mem_one`, in its buffer of twenty characters. -/
def readRequest (paddr : UInt64) (len : Nat) : List UInt8 :=
  (ascii "m" ++ hexText 8 paddr.toNat ++ ascii "," ++ hexText 1 len).take 19

/-- The loop that converts the answer: `n` more bytes from byte `i` on, with `r` and the bytes that
were stored. -/
def convert (strbuf : List UInt8) : Nat → Nat → Nat → ClInt × List UInt8
  | _, 0, _ => (clSuccess, [])
  | i, n + 1, buflen =>
    if buflen < 2 then (clOutOfResources, [])
    else match scanHex2 (strbuf.drop (2 * i)) with
      | none => (clOutOfResources, [])
      | some b =>
        let rest := convert strbuf (i + 1) n (buflen - 2)
        (rest.1, UInt8.ofInt b :: rest.2)

/-- `gdb_remote_read_mem_one`.  Behind the allocation every path ends in `err_out`, which returns
`CL_SUCCESS` whatever `r` is. -/
def gdbRemoteReadMemOne (paddr : UInt64) (len : Nat) : Gdb σ (ClInt × List UInt8) := do
  let buflen := len * 2 + 64
  if maxPiece < len then
    return (clInvalidValue, [])
  let r ← gdbRemoteSend link fuel (readRequest paddr len) true
  if r ≠ clSuccess then
    return (r, [])
  let ok ← onLink link.calloc
  record (.calloc ok)
  if !ok then
    return (clOutOfHostMemory, [])
  let (r, strbuf) ← gdbRemoteRecv link fuel (buflen - 1) true
  if r ≠ clSuccess then
    return (clSuccess, [])
  return (clSuccess, (convert strbuf 0 len buflen).2)

/-- `strncat` of two digits for each byte, with the space that is left. -/
def catHex : List UInt8 → List UInt8 → Nat → List UInt8
  | strbuf, [], _ => strbuf
  | strbuf, b :: bs, buflen => catHex (strbuf ++ (hexByte b.toNat).take buflen) bs (buflen - 2)

/-- `M%08x,%x:` and `X%08x,%x:`, the head of a write request. Eight digits are the least that are written of
the address. -/
def writeHead (letter : String) (paddr : UInt64) (len : Nat) : List UInt8 :=
  ascii letter ++ hexText 8 paddr.toNat ++ ascii "," ++ hexText 1 len ++ ascii ":"

/-- The request of `gdb_remote_write_mem_one`: the head and two digits for each byte, as far as the buffer
that was allocated for it goes. -/
def writeMemRequest (paddr : UInt64) (bs : List UInt8) : List UInt8 :=
  let buflen := bs.length * 2 + 64
  let head := writeHead "M" paddr bs.length
  cstr (catHex (head.take (buflen - 1)) bs (buflen - head.length))

/-- The request of `gdb_remote_write_bin_one`: the bytes follow at the position behind the head. -/
def writeBinRequest (paddr : UInt64) (bs : List UInt8) : List UInt8 :=
  writeHead "X" paddr bs.length ++ bs

/-- `gdb_remote_write_mem_one` and `gdb_remote_write_bin_one`, which differ in the request.  Behind the
allocation every path ends in `err_out`, which returns `CL_SUCCESS` whatever `r` is. -/
def writeOne (request : UInt64 → List UInt8 → List UInt8) (paddr : UInt64) (bs : List UInt8) :
    Gdb σ ClInt := do
  if maxPiece < bs.length then
    return clInvalidValue
  let ok ← onLink link.calloc
  record (.calloc ok)
  if !ok then
    return clOutOfHostMemory
  let r ← gdbRemoteSend link fuel (request paddr bs) true
  if r ≠ clSuccess then
    return clSuccess
  let (r, tmp) ← gdbRemoteRecv link fuel 3 true
  let _r := if r ≠ clSuccess then r else if cstr tmp ≠ ascii "OK" then clInvalidDevice else r
  return clSuccess

/-- `gdb_remote_write_mem_one`: the bytes go as hex digits. -/
def gdbRemoteWriteMemOne : UInt64 → List UInt8 → Gdb σ ClInt := writeOne link fuel writeMemRequest

/-- `gdb_remote_write_bin_one`: the bytes go as they are. -/
def gdbRemoteWriteBinOne : UInt64 → List UInt8 → Gdb σ ClInt := writeOne link fuel writeBinRequest

/-- The loop of the two writes: piece by piece, up to the first that fails. -/
def writePieces (one : UInt64 → List UInt8 → Gdb σ ClInt) (paddr : UInt64) (bs : List UInt8) :
    Gdb σ ClInt := do
  let (r, _) ← pieces (fun p l => do
    let r ← one (paddr + UInt64.ofNat p) ((bs.drop p).take l)
    return (r, [])) bs.length bs.length 0 fun _ => none
  return r

end Driver

/-! ## The operations of the device -/

section Ops

variable (dev : Option (Link σ)) (fuel : Nat)

/-- `gdb_remote_run`: the request is sent, and nobody waits for the acknowledgement, which comes with the
reply to a stop. -/
def gdbRemoteRun : Gdb σ ClInt :=
  match dev with
  | none => return clInvalidDevice
  | some link => gdbRemoteSend link fuel runCmd false

/-- `gdb_remote_stop`: the target is interrupted, and its stop reply awaited. -/
def gdbRemoteStop : Gdb σ ClInt :=
  match dev with
  | none => return clInvalidDevice
  | some link => do
    let _ ← gdbRemoteSendInterrupt link
    stopLoop link fuel fuel

/-- `gdb_remote_openocd_reset`: the monitor command, and its console output up to the `OK`. -/
def gdbRemoteOpenocdReset : Gdb σ ClInt :=
  match dev with
  | none => return clInvalidDevice
  | some link => do
    let r ← gdbRemoteSend link fuel openocdResetCmd true
    if r ≠ clSuccess then
      return r
    openocdResetLoop link fuel fuel

/-- `gdb_remote_qemu_reset`: one reply, without console output. -/
def gdbRemoteQemuReset : Gdb σ ClInt :=
  match dev with
  | none => return clInvalidDevice
  | some link => do
    let r ← gdbRemoteSend link fuel qemuResetCmd true
    if r ≠ clSuccess then
      return r
    let (r, tmp) ← gdbRemoteRecv link fuel 3 true
    if r ≠ clSuccess then
      return r
    if cstr tmp ≠ ascii "OK" then
      return clInvalidDevice
    return clSuccess

/-- `gdb_remote_read_mem`: the code, and which bytes it stored in the caller's buffer. -/
def gdbRemoteReadMem (paddr : UInt64) (len : Nat) : Gdb σ (ClInt × (Nat → Option UInt8)) :=
  match dev with
  | none => return (clInvalidDevice, fun _ => none)
  | some link =>
    pieces (fun p l => gdbRemoteReadMemOne link fuel (paddr + UInt64.ofNat p) l) len len 0
      fun _ => none

/-- `gdb_remote_write_mem`: `M` packets, piece by piece. -/
def gdbRemoteWriteMem (paddr : UInt64) (bs : List UInt8) : Gdb σ ClInt :=
  match dev with
  | none => return clInvalidDevice
  | some link => writePieces (gdbRemoteWriteMemOne link fuel) paddr bs

/-- `gdb_remote_write_bin`: `X` packets, piece by piece. -/
def gdbRemoteWriteBin (paddr : UInt64) (bs : List UInt8) : Gdb σ ClInt :=
  match dev with
  | none => return clInvalidDevice
  | some link => writePieces (gdbRemoteWriteBinOne link fuel) paddr bs

end Ops

end BaremetalCrt
