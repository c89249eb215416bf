/-
# BaremetalCrt.Launch.Enqueue — `in_clEnqueueNDRangeKernel` (`src/cl_enqueue.c`).

The launch as the source computes it: reset, upload of the program's areas, the communication area
with the kernel name as argument zero, run, at most `10000` polls, and the walk that reads the
arguments back.  `enqueueArg` and `dequeueArg` are two functions, as in the source; that they walk
the same addresses is proved, not built in.

A launch that ends early ends with the code of what failed, and leaves behind what was done up to there.
`Outcome` has all that the caller, the device and a reader of the trace can see of it.
-/
import BaremetalCrt.Runtime.Device

namespace BaremetalCrt

open Lib

variable {δ : Type}

/-! ## Text and data areas -/

/-- The body of the loop over the chunks: a readonly chunk that was sent before is left out, any other is
written. -/
def sendChunk (dev prg : Ptr) (i : Nat) : Launch δ Unit := do
  let chunk ← query (prgGetChunk · prg i)
  if chunk.readonly ∧ chunk.loaded then
    return ()
  devWriteMem (.chunk i) dev chunk.paddr (.addr chunk.buf) chunk.size.toUInt64
  let host ← query (prgSetChunk · prg i { chunk with loaded := true })
  Exec.modify fun s => { s with host := host }

/-- `n` more iterations of the loop over the chunks, from chunk `i` on. -/
def sendChunks (dev prg : Ptr) : Nat → Nat → Launch δ Unit
  | _, 0 => return ()
  | i, n + 1 => do
    sendChunk dev prg i
    sendChunks dev prg (i + 1) n

/-! ## Arguments -/

/-- The `switch` of `enqueue_arg`: what to send, how much, and whether to send it at all. -/
def enqueueSource (h : Host δ) (arg : KernArg) : Except ClInt (CPtr × UInt64 × Bool) :=
  if arg.argtype = commArgNotused then .error clInvalidKernel
  else if arg.argtype = commArgVal then .ok (arg.val, arg.size, true)
  else if arg.argtype = commArgMem then do
    check (memIsValid h arg.val.handle)
    let mem := h.mems arg.val.handle
    .ok (.addr mem.ptr, mem.size, memCanRead mem)
  else .error clInvalidKernel

/-- The `switch` of `dequeue_arg`: where to read back to, how much, and whether to. -/
def dequeueTarget (h : Host δ) (arg : KernArg) : Except ClInt (Ptr × UInt64 × Bool) :=
  if arg.argtype = commArgNotused then .error clInvalidKernel
  else if arg.argtype = commArgVal then .ok (0, arg.size, false)
  else if arg.argtype = commArgMem then do
    check (memIsValid h arg.val.handle)
    let mem := h.mems arg.val.handle
    .ok (mem.ptr, mem.size, memCanWrite mem)
  else .error clInvalidKernel

/-- `enqueue_arg`: the header of the slot goes to `paddr`, and behind it the bytes of the argument, if it
has some to send; the result is where the next slot starts. A slot that does not end in the area is refused
first. -/
def enqueueArg (dev : Ptr) (arg : KernArg) (comm : ProgramComm) (paddr : UInt64) :
    Launch δ UInt64 := do
  let (ptr, sizeBuf, needWrite) ← query (enqueueSource · arg)
  let hArg : CommArgHeader := ⟨arg.argtype, arg.index, sizeBuf⟩
  let sizeHead := sizeofCommArgHeader
  if comm.addr + comm.size ≤ paddr + sizeHead + sizeBuf then
    Exec.exit clOutOfResources
  devWriteMem .argHeader dev paddr (.own hArg.toBytes) sizeHead
  let paddr := paddr + sizeHead
  if needWrite then
    devWriteMem .argPayload dev paddr ptr sizeBuf
  let paddr := paddr + sizeBuf
  return alignOf paddr 8

/-- `dequeue_arg`: the same walk, and the bytes of a buffer that the device may write are read back. -/
def dequeueArg (dev : Ptr) (arg : KernArg) (comm : ProgramComm) (paddr : UInt64) :
    Launch δ UInt64 := do
  let (ptr, sizeBuf, needRead) ← query (dequeueTarget · arg)
  let sizeHead := sizeofCommArgHeader
  if comm.addr + comm.size ≤ paddr + sizeHead + sizeBuf then
    Exec.exit clOutOfResources
  let paddr := paddr + sizeHead
  if needRead then
    devReadMem dev paddr ptr sizeBuf
  let paddr := paddr + sizeBuf
  return alignOf paddr 8

/-- `n` more iterations of the loop that sends the arguments, from argument `i` on. -/
def enqueueArgs (dev kernel : Ptr) (comm : ProgramComm) : UInt32 → Nat → UInt64 → Launch δ UInt64
  | _, 0, paddr => return paddr
  | i, n + 1, paddr => do
    let arg ← query (kernGetArg · kernel i)
    let paddr ← enqueueArg dev arg comm paddr
    enqueueArgs dev kernel comm (i + 1) n paddr

/-- `n` more iterations of the loop that receives the arguments, from argument `i` on. -/
def dequeueArgs (dev kernel : Ptr) (comm : ProgramComm) : UInt32 → Nat → UInt64 → Launch δ UInt64
  | _, 0, paddr => return paddr
  | i, n + 1, paddr => do
    let arg ← query (kernGetArg · kernel i)
    let paddr ← dequeueArg dev arg comm paddr
    dequeueArgs dev kernel comm (i + 1) n paddr

/-- `argv[0]`: the kernel's name with its terminator, passed as a value. -/
def nameArg (k : ClKernel) : KernArg :=
  ⟨commArgVal, -1, k.name.sizeWithNul, .own (k.name.bytes ++ [0])⟩

/-- The area header a launch starts with: the name counts as an argument, and `done` is cleared. -/
def initialHeader (numArgs : UInt32) : CommAreaHeader :=
  ⟨baremetalCrtCommMagic, numArgs + 1, 0, 0⟩

/-! ## The phases of the launch -/

/-- "Send text/data areas": all chunks of the program, in the order of its array. -/
def sendImage (dev prg : Ptr) : Launch δ Unit := do
  let numChunks ← query (prgGetNumChunks · prg)
  sendChunks dev prg 0 numChunks.toNat

/-- "Get arguments" and "Send arguments": the area header goes out first, then the name, then the arguments
one behind the other. -/
def sendArguments (dev prg kernel : Ptr) : Launch δ (ProgramComm × UInt32) := do
  let comm ← query (prgGetComm · prg)
  let numArgs ← query (kernGetNumArgs · kernel)
  let hComm := (initialHeader numArgs).toBytes
  Exec.modify fun s => { s with hComm := hComm }
  devWriteMem .areaHeader dev comm.addr (.own hComm) sizeofCommAreaHeader
  let paddr := comm.addr + alignOf sizeofCommAreaHeader 8
  let name ← Exec.gets fun s => nameArg (s.host.kerns kernel)
  let paddr ← enqueueArg dev name comm paddr
  let _ ← enqueueArgs dev kernel comm 0 numArgs.toNat paddr
  return (comm, numArgs)

/-- `n` more iterations of the polling loop; the result is the source's `done`. -/
def poll (dev : Ptr) (comm : ProgramComm) : Nat → Launch δ Bool
  | 0 => return false
  | n + 1 => do
    devStop dev
    devReadHComm dev comm.addr
    let hComm ← Exec.gets fun s => CommAreaHeader.ofBytes s.hComm
    if hComm.magic ≠ baremetalCrtCommMagic then
      Exec.exit clInvalidDevice
    if hComm.done ≠ 0 then
      return true
    devRun dev
    poll dev comm n

/-- `for (int j = 0; j < 10000; j++)`: how often the area header is looked at. -/
def maxPolls : Nat := 10000

/-- "Exec" and "Polling": the device runs until the header says done, or the polls are used up. -/
def execute (dev : Ptr) (comm : ProgramComm) : Launch δ Unit := do
  devRun dev
  let done ← poll dev comm maxPolls
  if !done then
    Exec.exit clInvalidDevice

/-- "Recv arguments": the walk over the slots is made again, and the buffers the kernel may write to are
read back. -/
def recvArguments (dev kernel : Ptr) (comm : ProgramComm) (numArgs : UInt32) : Launch δ Unit := do
  let paddr := comm.addr + sizeofCommAreaHeader
  let name ← Exec.gets fun s => nameArg (s.host.kerns kernel)
  let paddr ← dequeueArg dev name comm paddr
  let _ ← dequeueArgs dev kernel comm 0 numArgs.toNat paddr

/-- The body of `in_clEnqueueNDRangeKernel`: reset, program, arguments, run, and the results back. -/
def launch (cmdq kernel : Ptr) : Launch δ Unit := do
  let dev ← Exec.gets fun s => ctxGetDevice s.host (cmdqGetContext s.host cmdq)
  let prg ← Exec.gets fun s => kernGetProgram s.host kernel
  devReset dev
  sendImage dev prg
  let (comm, numArgs) ← sendArguments dev prg kernel
  execute dev comm
  recvArguments dev kernel comm numArgs

/-- What a call returns and leaves behind, together with the trace of what it asked of the device. -/
structure Outcome (δ : Type) where
  ret : ClInt
  host : Host δ
  dev : δ
  trace : List (Event δ)

/-- The return code of a call that has come to its end. -/
def retOf (r : Except ClInt Unit) : ClInt :=
  match r with
  | .ok () => clSuccess
  | .error e => e

/-- `in_clEnqueueNDRangeKernel`, of a host and a device: the code, what is left of both, and the device
operations that were issued. -/
def clEnqueueNDRangeKernel (cmdq kernel : Ptr) (host : Host δ) (dev : δ) : Outcome δ :=
  let out := launch cmdq kernel ⟨host, dev, [], []⟩
  ⟨retOf out.1, out.2.host, out.2.dev, out.2.trace⟩

/-! ## One poll -/

/-- The state after the stop that begins a poll, whether the stop succeeded or not. -/
def Sys.halted (s : Sys δ) (dev : Ptr) : Sys δ := s.push (controlEvent .stop (·.stop) dev s)

/-- The state after the read of the header, with the header in `hComm`. -/
def Sys.polled (s : Sys δ) (dev : Ptr) (comm : ProgramComm) : Sys δ :=
  { (s.halted dev).push (hCommEvent dev comm.addr (s.halted dev)) with
    hComm := hCommAfter dev comm.addr (s.halted dev) }

/-- The header that a poll sees, behind its stop and its read. -/
def Sys.header (s : Sys δ) (dev : Ptr) (comm : ProgramComm) : CommAreaHeader :=
  CommAreaHeader.ofBytes (s.polled dev comm).hComm

/-- The event is a read of the area header in which the program was seen done. -/
def DoneHeader (comm : ProgramComm) (e : Event δ) : Prop :=
  ∃ data, e.op = .readMem .areaHeader comm.addr data ∧ e.ret = clSuccess ∧
    (CommAreaHeader.ofBytes data).magic = baremetalCrtCommMagic ∧
    (CommAreaHeader.ofBytes data).done ≠ 0

/-- The rule of one poll: it ends with a failed stop, with a failed read, with a broken magic, with
a header that is done, or with another run. -/
theorem wp_poll_succ {dev : Ptr} {comm : ProgramComm} {n : Nat} {s : Sys δ}
    {Q : Bool → Sys δ → Prop} {E : ClInt → Sys δ → Prop}
    (hstop : (controlEvent .stop (·.stop) dev s).ret ≠ clSuccess →
      E (controlEvent .stop (·.stop) dev s).ret (s.halted dev))
    (hread : (controlEvent .stop (·.stop) dev s).ret = clSuccess →
      (hCommEvent dev comm.addr (s.halted dev)).ret ≠ clSuccess →
      E (hCommEvent dev comm.addr (s.halted dev)).ret (s.polled dev comm))
    (hmagic : (controlEvent .stop (·.stop) dev s).ret = clSuccess →
      (hCommEvent dev comm.addr (s.halted dev)).ret = clSuccess →
      (s.header dev comm).magic ≠ baremetalCrtCommMagic → E clInvalidDevice (s.polled dev comm))
    (hdone : (controlEvent .stop (·.stop) dev s).ret = clSuccess →
      (hCommEvent dev comm.addr (s.halted dev)).ret = clSuccess →
      (s.header dev comm).magic = baremetalCrtCommMagic → (s.header dev comm).done ≠ 0 →
      Q true (s.polled dev comm))
    (hrun : (controlEvent .stop (·.stop) dev s).ret = clSuccess →
      (hCommEvent dev comm.addr (s.halted dev)).ret = clSuccess →
      (s.header dev comm).magic = baremetalCrtCommMagic → (s.header dev comm).done = 0 →
      Exec.wp (do devRun dev; poll dev comm n) Q E (s.polled dev comm)) :
    Exec.wp (poll dev comm (n + 1)) Q E s := by
  rw [poll, Exec.wp_bind, devStop, wp_devCall]
  refine ⟨fun hret => ?_, hstop⟩
  rw [Exec.wp_bind, wp_devReadHComm]
  refine ⟨fun hret' => ?_, hread hret⟩
  rw [Exec.wp_bind, Exec.wp_gets]
  let rest : Launch δ Bool :=
    if (s.header dev comm).done ≠ 0 then pure true else (do devRun dev; poll dev comm n)
  show Exec.wp (if (s.header dev comm).magic ≠ baremetalCrtCommMagic then
    Exec.exit clInvalidDevice >>= fun (_ : PUnit) => rest else rest) Q E (s.polled dev comm)
  by_cases hm : (s.header dev comm).magic = baremetalCrtCommMagic
  · rw [if_neg (not_not.mpr hm)]
    show Exec.wp (if (s.header dev comm).done ≠ 0 then pure true else _) Q E (s.polled dev comm)
    by_cases hd : (s.header dev comm).done = 0
    · rw [if_neg (not_not.mpr hd)]
      exact hrun hret hret' hm hd
    · rw [if_pos hd]
      exact hdone hret hret' hm hd
  · rw [if_pos hm]
    exact hmagic hret hret' hm

end BaremetalCrt
