/-
# BaremetalCrt.Runtime.Objects — the objects of the runtime and their accessors.

The structs of `include/drivers/*.h` with the fields that the modelled functions read, the host
memory they live next to, and the accessors of `drivers/mem.c`, `drivers/kernel.c`,
`drivers/program.c`, `drivers/context.c` and `drivers/command_queue.c`.

A handle (`cl_mem`, `cl_kernel`, …) is an address; `Host` maps every address to the struct found
there, so that a handle that is NULL or does not carry the magic is representable and is refused by
the code's own validity check, not by the model.

Where a check stands in front of an access, the accessor returns `Except`, with the code of the check; where
there is none, as in `cmdq_get_context`, it is a plain function. Two kernels and a host with one object of
each kind are at hand for the examples of the later modules.
-/
import BaremetalCrt.Runtime.Types
import Mathlib.Data.List.TakeDrop

namespace BaremetalCrt

open Lib

/-! ## Pointers and strings -/

/-- An address of the host; `0` is `NULL`. Handles are addresses, too. -/
abbrev Ptr := Nat

/-- What a `const void *` of the runtime points to: host memory that the caller can change, or bytes
that only the runtime holds (a local record, the `strdup`ed kernel name). -/
inductive CPtr where
  | addr (p : Ptr)
  | own (bytes : List UInt8)
  deriving DecidableEq, Repr

/-- The handle that the value of an argument of the size of a pointer is taken for. -/
def CPtr.handle : CPtr → Ptr
  | .addr p => p
  | .own _ => 0

/-- `ptr == NULL`. -/
def CPtr.isNull (p : CPtr) : Bool := p == .addr 0

/-- A C string of the host: no byte of it is zero, and with its terminator it fits in memory. -/
structure CStr where
  bytes : List UInt8
  noNul : (0 : UInt8) ∉ bytes
  fits : bytes.length + 1 < 2 ^ 64

/-- `strlen(s) + 1`: the length of the string with its terminator. -/
def CStr.sizeWithNul (s : CStr) : UInt64 := UInt64.ofNat (s.bytes.length + 1)

/-! ## Structs -/

/-- `struct _cl_mem`, a buffer: `size` bytes of the host at `ptr`. -/
structure ClMem where
  magic : UInt32
  flags : UInt32
  size : UInt64
  ptr : Ptr

/-- `struct kern_arg`, an argument of a kernel: the type, the index, the size that the host gave, and a
pointer to the value, or the handle of a buffer. -/
structure KernArg where
  argtype : UInt32
  index : UInt32
  size : UInt64
  val : CPtr
  deriving DecidableEq, Repr

/-- The record `calloc` leaves: the argument was not set. -/
def KernArg.zero : KernArg := ⟨commArgNotused, 0, 0, .addr 0⟩

/-- `struct _cl_kernel`.  `args` is the array behind the pointer (`[]` is `NULL`); it has
`num_args` entries. -/
structure ClKernel where
  magic : UInt32
  prg : Ptr
  name : CStr
  numArgs : UInt32
  args : List KernArg
  args_length : args.length = numArgs.toNat

/-- `struct program_chunk`, a text or data area of a program: `size` bytes at `buf` that go to `paddr` on
the device. An area that is read only needs to be sent once, and `loaded` says that it was. -/
structure ProgramChunk where
  index : Int
  paddr : UInt64
  buf : Ptr
  size : UInt32
  readonly : Bool
  loaded : Bool
  deriving DecidableEq, Repr

/-- The record `calloc` leaves: no bytes, and not sent. -/
def ProgramChunk.zero : ProgramChunk := ⟨0, 0, 0, 0, false, false⟩

/-- `struct _cl_program`: the areas, and where its communication area is. `chunks` is the array behind the
pointer, `none` is `NULL`. -/
structure ClProgram where
  magic : UInt32
  numChunks : Int
  chunks : Option (List ProgramChunk)
  comm : ProgramComm

/-- `struct dev_ops`: the driver, over an arbitrary state `δ` of driver and hardware.  A driver may
leave an operation out.  `readMem` says which of the bytes it was asked for it stored in the buffer,
whether it succeeded or not. -/
structure DevOps (δ : Type) where
  reset : Option (δ → ClInt × δ)
  run : Option (δ → ClInt × δ)
  stop : Option (δ → ClInt × δ)
  readMem : Option (δ → UInt64 → UInt64 → (ClInt × (Nat → Option UInt8)) × δ)
  writeMem : Option (δ → UInt64 → List UInt8 → ClInt × δ)

/-- `struct _cl_device_id`, as far as the runtime uses it: a driver, if the device has one. -/
structure ClDevice (δ : Type) where
  magic : UInt32
  ops : Option (DevOps δ)

/-- `struct _cl_context`: the device it was made for. -/
structure ClContext where
  magic : UInt32
  dev : Ptr

/-- `struct _cl_command_queue`: the context it was made for. -/
structure ClCommandQueue where
  magic : UInt32
  ctx : Ptr

/-- The memory of the host process: plain bytes, and the struct behind every handle. Whether an address is a
handle is for the code to check. -/
structure Host (δ : Type) where
  bytes : ByteMap
  cmdqs : Ptr → ClCommandQueue
  ctxs : Ptr → ClContext
  devs : Ptr → ClDevice δ
  prgs : Ptr → ClProgram
  kerns : Ptr → ClKernel
  mems : Ptr → ClMem

variable {δ : Type}

/-- The first `n` bytes behind a pointer. -/
def Host.read (h : Host δ) : CPtr → Nat → List UInt8
  | .addr p, n => h.bytes.load p n
  | .own bs, n => bs.takeD n 0

@[simp] theorem Host.length_read (h : Host δ) (p : CPtr) (n : Nat) : (h.read p n).length = n := by
  cases p with
  | addr p => exact ByteMap.length_load ..
  | own bs => exact List.takeD_length ..

/-- Bytes of the runtime's own are read whole. -/
theorem Host.read_own (h : Host δ) {bs : List UInt8} {n : Nat} (hn : bs.length = n) :
    h.read (.own bs) n = bs := by
  rw [Host.read, List.takeD_eq_take _ hn.ge, List.take_of_length_le hn.le]

/-- A host with one live queue, context and device, one program and one kernel: every handle but
`NULL` leads to them. -/
def Host.single (bytes : ByteMap) (ops : DevOps δ) (prg : ClProgram) (kern : ClKernel)
    (mems : Ptr → ClMem) : Host δ where
  bytes := bytes
  cmdqs _ := ⟨openclIcdMagic, 1⟩
  ctxs _ := ⟨openclIcdMagic, 1⟩
  devs _ := ⟨openclIcdMagic, some ops⟩
  prgs _ := prg
  kerns _ := kern
  mems := mems

/-- A program with one text area of sixteen bytes at `0x80000000`. -/
def textProgram (comm : ProgramComm) : ClProgram :=
  ⟨openclIcdMagic, 1, some [⟨0, 0x80000000, 64, 16, true, false⟩], comm⟩

/-- A kernel named `k`, without arguments. -/
def plainKernel : ClKernel := ⟨openclIcdMagic, 1, ⟨[0x6b], by decide, by decide⟩, 0, [], rfl⟩

/-- A kernel with a value argument of four bytes and a memory object. -/
def mixedKernel : ClKernel :=
  ⟨openclIcdMagic, 1, plainKernel.name, 2, [⟨commArgVal, 0, 4, .addr 300⟩, ⟨commArgMem, 1, 8, .addr 9⟩], rfl⟩

/-! ## Validity -/

/-- The check every `*_is_valid` makes: not `NULL`, and tagged with the magic. -/
def isValid (err : ClInt) (p : Ptr) (magic : UInt32) : ClInt :=
  if p = 0 then err else if magic ≠ openclIcdMagic then err else clSuccess

/-- `cmdq_is_valid`: the queue is not NULL, and tagged. -/
def cmdqIsValid (h : Host δ) (p : Ptr) : ClInt := isValid clInvalidCommandQueue p (h.cmdqs p).magic

/-- `ctx_is_valid`, the same of a context. -/
def ctxIsValid (h : Host δ) (p : Ptr) : ClInt := isValid clInvalidContext p (h.ctxs p).magic

/-- `dev_is_valid`, the same of a device. -/
def devIsValid (h : Host δ) (p : Ptr) : ClInt := isValid clInvalidDevice p (h.devs p).magic

/-- `prg_is_valid`, the same of a program. -/
def prgIsValid (h : Host δ) (p : Ptr) : ClInt := isValid clInvalidProgram p (h.prgs p).magic

/-- `kern_is_valid`, the same of a kernel. -/
def kernIsValid (h : Host δ) (p : Ptr) : ClInt := isValid clInvalidKernel p (h.kerns p).magic

/-- `mem_is_valid`, the same of a buffer. -/
def memIsValid (h : Host δ) (p : Ptr) : ClInt := isValid clInvalidMemObject p (h.mems p).magic

/-- `if (r != CL_SUCCESS) return r;`, as a step that may end the function. -/
def check (r : ClInt) : Except ClInt Unit := if r = clSuccess then .ok () else .error r

@[simp] theorem check_success : check clSuccess = .ok () := rfl

theorem check_eq_error {r e : ClInt} : check r = .error e ↔ r ≠ clSuccess ∧ r = e := by
  unfold check
  split <;> simp_all

/-! ## Queues and contexts -/

/-- `cmdq_get_context`: the context of a queue, `NULL` for what is not a queue. -/
def cmdqGetContext (h : Host δ) (cmdq : Ptr) : Ptr :=
  if cmdqIsValid h cmdq ≠ clSuccess then 0 else (h.cmdqs cmdq).ctx

/-- `ctx_get_device`: the device of a context, `NULL` for what is not a context. -/
def ctxGetDevice (h : Host δ) (ctx : Ptr) : Ptr :=
  if ctxIsValid h ctx ≠ clSuccess then 0 else (h.ctxs ctx).dev

/-! ## Memory objects (`drivers/mem.c`) -/

/-- `mem_can_read`: whether the device may read the buffer, so that a launch sends it. -/
def memCanRead (m : ClMem) : Bool :=
  m.flags &&& clMemReadWrite ≠ 0 || m.flags &&& clMemReadOnly ≠ 0

/-- `mem_can_write`: whether the device may write the buffer, so that a launch reads it back. -/
def memCanWrite (m : ClMem) : Bool :=
  m.flags &&& clMemReadWrite ≠ 0 || m.flags &&& clMemWriteOnly ≠ 0

/-! ## Kernels (`drivers/kernel.c`) -/

/-- `kern_get_program`: the program of a kernel, `NULL` for what is not a kernel. -/
def kernGetProgram (h : Host δ) (kern : Ptr) : Ptr :=
  if kernIsValid h kern ≠ clSuccess then 0 else (h.kerns kern).prg

/-- `kern_get_num_args`, behind the check that every getter makes. -/
def kernGetNumArgs (h : Host δ) (kern : Ptr) : Except ClInt UInt32 := do
  check (kernIsValid h kern)
  return (h.kerns kern).numArgs

/-- `kern_get_arg`: argument `i`, of those that there is an entry for. -/
def kernGetArg (h : Host δ) (kern : Ptr) (i : UInt32) : Except ClInt KernArg := do
  check (kernIsValid h kern)
  let k := h.kerns kern
  if k.numArgs ≤ i then
    throw clInvalidValue
  if k.args = [] then
    throw clInvalidKernel
  return k.args.getD i.toNat .zero

/-! ## Programs (`drivers/program.c`) -/

/-- `prg_get_num_chunks`, behind the check that every getter makes. -/
def prgGetNumChunks (h : Host δ) (prg : Ptr) : Except ClInt Int := do
  check (prgIsValid h prg)
  return (h.prgs prg).numChunks

/-- Entry `i` of the chunk array, or a record of zeros if there is none. -/
def ClProgram.chunkAt (p : ClProgram) (i : Nat) : ProgramChunk := (p.chunks.getD []).getD i .zero

/-- `prg_get_chunk`: a copy of area `i`, of those that there is an entry for. -/
def prgGetChunk (h : Host δ) (prg : Ptr) (i : Int) : Except ClInt ProgramChunk := do
  check (prgIsValid h prg)
  if i < 0 ∨ (h.prgs prg).numChunks ≤ i then
    throw clInvalidValue
  return (h.prgs prg).chunkAt i.toNat

/-- `prg->chunks[i] = *chunk; prg->chunks[i].index = i;` -/
def ClProgram.putChunk (p : ClProgram) (i : Nat) (chunk : ProgramChunk) : ClProgram :=
  { p with chunks := p.chunks.map fun cs => cs.set i { chunk with index := i } }

/-- `prg_set_chunk`: area `i` becomes a copy of `chunk` with the index `i`. -/
def prgSetChunk (h : Host δ) (prg : Ptr) (i : Int) (chunk : ProgramChunk) :
    Except ClInt (Host δ) := do
  check (prgIsValid h prg)
  if i < 0 ∨ (h.prgs prg).numChunks ≤ i then
    throw clInvalidValue
  return { h with prgs := Function.update h.prgs prg ((h.prgs prg).putChunk i.toNat chunk) }

/-- `prg_get_comm`: a copy of where the communication area is. -/
def prgGetComm (h : Host δ) (prg : Ptr) : Except ClInt ProgramComm := do
  check (prgIsValid h prg)
  return (h.prgs prg).comm

end BaremetalCrt
