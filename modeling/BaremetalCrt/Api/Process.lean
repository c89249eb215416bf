/-
# BaremetalCrt.Api.Process — the process and its calls of the API.

One state holds the heap, what is behind the handles, and the device; `ApiCall` is a call with its inputs.
The entry points that were only needed here are those of contexts, queues and programs
(`src/cl_context.c`, `src/cl_command_queue.c`, `src/cl_program.c`); the others are the ones of the
modules before, over the part of the state that they work on.

The calls that are left out only answer or refuse: what they write is memory of the host, which may hold
anything before a call anyway.
-/
import BaremetalCrt.Elf.Load
import BaremetalCrt.Launch.Enqueue
import BaremetalCrt.Runtime.Arguments
import BaremetalCrt.Runtime.Buffers

namespace BaremetalCrt

open Lib

variable {δ : Type}

/-! ## The state -/

/-- The process: its heap, what is behind the handles of queues, contexts, devices, programs and kernels,
and the state of the device. The magic of an object is the heap's. -/
structure Process (δ : Type) where
  heap : Heap
  /-- The copy of the name that a kernel was created with. -/
  names : Ptr → CStr
  /-- The context of a queue. -/
  cmdqs : Ptr → Ptr
  /-- The device of a context. -/
  ctxs : Ptr → Ptr
  devs : Ptr → ClDevice δ
  prgs : Ptr → ClProgram
  dev : δ

namespace Process

/-- The process as a launch sees it: the objects behind the handles, each with the magic number of its
block. -/
def host (p : Process δ) : Host δ where
  bytes := p.heap.bytes
  cmdqs q := ⟨p.heap.magic q, p.cmdqs q⟩
  ctxs c := ⟨p.heap.magic c, p.ctxs c⟩
  devs := p.devs
  prgs q := { p.prgs q with magic := p.heap.magic q }
  kerns k := p.heap.kernel k (p.names k)
  mems m := ⟨p.heap.magic m, (p.heap.mems m).flags, (p.heap.mems m).size, (p.heap.mems m).ptr⟩

/-- The program has written to its own memory between two calls. -/
def withBytes (p : Process δ) (b : ByteMap) : Process δ := { p with heap := { p.heap with bytes := b } }

/-- `t->magic = OPENCL_ICD_MAGIC`: the block becomes an object that the checks accept. -/
def mark (p : Process δ) (t : Ptr) : Process δ :=
  { p with heap := { p.heap with magic := Function.update p.heap.magic t openclIcdMagic } }

end Process

/-- The code of a call: it ends early with a code, or the process crashes. -/
abbrev Api (δ : Type) := Exec (Process δ) LoadStop

/-- `return r;`, or `goto err_out;` with that code. -/
def quit (r : ClInt) {α : Type} : Api δ α := Exec.exit (.ret r)

/-- `if ((r = f()) != CL_SUCCESS) return r;`, for the entry points over the whole process. -/
def expect (f : Process δ → ClInt) : Api δ Unit := fun p => ((check (f p)).mapError .ret, p)

/-- A function over the heap, as a step of the process: the other parts are as before. -/
def ofOwn {α : Type} (m : Own α) : Api δ α := fun p =>
  ((m p.heap).1.mapError .ret, { p with heap := (m p.heap).2 })

/-- The functions that work on the memory of the host alone. -/
def ofHost {α : Type} (m : HostCall δ α) : Api δ α := fun p =>
  ((m p.host).1.mapError .ret, p.withBytes (m p.host).2.bytes)

section Calls

variable (env : Env) (allocs : Heap → Allocs)

/-! ## Objects (`drivers/context.c`, `drivers/command_queue.c`, `drivers/program.c`) -/

/-- What the three allocations share: the parent is checked, a block is allocated, marked, and filled in by
`init`. -/
def objectAlloc (valid : Process δ → ClInt) (init : Ptr → Process δ → Process δ) : Api δ Ptr := do
  expect valid
  match ← ofOwn (calloc env .object) with
  | none => quit clOutOfHostMemory
  | some t =>
    Exec.modify fun p => init t (p.mark t)
    return t

/-- What the three releases share: the object is checked, and its block is freed. -/
def objectFree (valid : Process δ → ClInt) (obj : Ptr) : Api δ Unit := do
  expect valid
  ofOwn (free obj)

/-- `ctx_alloc`: a context of a device, which has to be valid. -/
def ctxAlloc (dev : Ptr) : Api δ Ptr :=
  objectAlloc env (devIsValid ·.host dev) fun t p => { p with ctxs := Function.update p.ctxs t dev }

/-- `ctx_free`, which releases nothing but the context itself. -/
def ctxFree (ctx : Ptr) : Api δ Unit := objectFree (ctxIsValid ·.host ctx) ctx

/-- `cmdq_alloc`: a queue of a context, which has to be valid. -/
def cmdqAlloc (ctx : Ptr) : Api δ Ptr :=
  objectAlloc env (ctxIsValid ·.host ctx) fun t p => { p with cmdqs := Function.update p.cmdqs t ctx }

/-- `cmdq_free`, which releases nothing but the queue itself. -/
def cmdqFree (cmdq : Ptr) : Api δ Unit := objectFree (cmdqIsValid ·.host cmdq) cmdq

/-- `prg_alloc`: a program without chunks, in a context that has to be valid. -/
def prgAlloc (ctx : Ptr) : Api δ Ptr :=
  objectAlloc env (ctxIsValid ·.host ctx) fun t p =>
    { p with prgs := Function.update p.prgs t ⟨openclIcdMagic, 0, none, ⟨0, 0⟩⟩ }

/-- `prg_free`, which frees the program and not its array of chunks. -/
def prgFree (prg : Ptr) : Api δ Unit := objectFree (prgIsValid ·.host prg) prg

/-! ## Contexts and queues -/

/-- `n` more iterations of the loops over the devices, from device `i` on. -/
def checkDevices (bad : Nat → Bool) (devices : Nat → Ptr) : Nat → Nat → Api δ Unit
  | _, 0 => return ()
  | i, n + 1 => do
    if bad i then
      quit clInvalidValue
    expect (devIsValid ·.host (devices i))
    checkDevices bad devices (i + 1) n

/-- `in_clCreateContext`; the array is `none` if it is `NULL`. -/
def inClCreateContext (numDevices : UInt32) (devices : Option (Nat → Ptr)) (pfnNotify userData : Ptr) :
    Api δ Ptr :=
  match devices with
  | none => quit clInvalidValue
  | some devices => do
    if numDevices = 0 then
      quit clInvalidValue
    if pfnNotify ≠ 0 ∧ userData = 0 then
      quit clInvalidValue
    checkDevices (fun _ => false) devices 0 numDevices.toNat
    if 1 < numDevices then
      quit clInvalidValue
    ctxAlloc env (devices 0)

/-- `in_clReleaseContext`: a valid context is freed at once, since contexts are not counted. -/
def inClReleaseContext (context : Ptr) : Api δ Unit := do
  expect (ctxIsValid ·.host context)
  ctxFree context

/-- `in_clCreateCommandQueueWithProperties`: both the context and the device are checked; the queue keeps
the context only. -/
def inClCreateCommandQueueWithProperties (context device : Ptr) : Api δ Ptr := do
  expect (ctxIsValid ·.host context)
  expect (devIsValid ·.host device)
  cmdqAlloc env context

/-- `in_clReleaseCommandQueue`: a release that went well returns `CL_INVALID_COMMAND_QUEUE` all the same. -/
def inClReleaseCommandQueue (commandQueue : Ptr) : Api δ Unit := do
  expect (cmdqIsValid ·.host commandQueue)
  cmdqFree commandQueue
  quit clInvalidCommandQueue

/-! ## Programs -/

/-- `binaries[i]` and `lengths[i]`: an object of the host, as in `Binary`. -/
structure BinaryArg where
  buf : Ptr
  len : UInt64
  fits : buf + len.toNat ≤ 2 ^ 64
  small : len.toNat < 2 ^ 63

/-- The binary that the argument points to, with what the memory holds at the time of the call. -/
def BinaryArg.inMemory (arg : BinaryArg) (mem : ByteMap) : Binary := ⟨mem, arg.buf, arg.len, arg.fits, arg.small⟩

/-- `prg_elf_load`, the allocations of the load going as `allocs` says.  What the loader allocates is not
on the ledger. -/
def loadProgram (prg : Ptr) (arg : BinaryArg) : Api δ Unit := fun p =>
  let out := prgElfLoad (arg.inMemory p.heap.bytes) (allocs p.heap) ⟨p.host.prgs prg, []⟩
  (out.1, { p with prgs := Function.update p.prgs prg out.2.prg })

/-- `in_clCreateProgramWithBinary`; the arrays are `none` if one of them is `NULL`. -/
def inClCreateProgramWithBinary (context : Ptr) (numDevices : UInt32) (deviceList : Nat → Ptr)
    (binaries : Option (Nat → BinaryArg)) : Api δ Ptr :=
  match binaries with
  | none => quit clInvalidValue
  | some binaries => do
    expect (ctxIsValid ·.host context)
    checkDevices (fun i => (binaries i).len = 0 || (binaries i).buf = 0) deviceList 0 numDevices.toNat
    if 1 < numDevices then
      quit clInvalidValue
    let t ← prgAlloc env context
    match ← Exec.attempt (loadProgram allocs t (binaries 0)) with
    | .ok _ => return t
    | .error .crash => Exec.exit .crash
    | .error (.ret r) =>
      let _ ← Exec.attempt (prgFree t)
      quit r

/-- `in_clReleaseProgram`: `prg_elf_unload` frees what is not on the ledger. -/
def inClReleaseProgram (program : Ptr) : Api δ Unit := do
  expect (prgIsValid ·.host program)
  prgFree program

/-! ## Kernels -/

/-- `in_clCreateKernel`, with the name that the kernel gets. -/
def createKernel (program : Ptr) (kernelName : Option CStr) : Api δ Ptr := do
  let kern ← ofOwn (inClCreateKernel env program kernelName)
  Exec.modify fun p => match kernelName with
    | none => p
    | some name => { p with names := Function.update p.names kern name }
  return kern

/-- `strdup` has failed for a kernel that is valid. -/
def Process.Nameless (p : Process δ) (kernel : Ptr) : Prop :=
  kernHandleIsValid p.heap kernel = clSuccess ∧ (p.heap.kerns kernel).name = 0

instance (p : Process δ) (kernel : Ptr) : Decidable (p.Nameless kernel) := inferInstanceAs (Decidable (_ ∧ _))

/-- `in_clEnqueueNDRangeKernel`; without a name it takes the length of `NULL`. -/
def enqueueNDRangeKernel (commandQueue kernel : Ptr) : Api δ Unit := fun p =>
  if p.Nameless kernel then (.error .crash, p)
  else
    let out := clEnqueueNDRangeKernel commandQueue kernel p.host p.dev
    ((check out.ret).mapError .ret,
      { p.withBytes out.host.bytes with prgs := out.host.prgs, dev := out.dev })

/-! ## The calls -/

/-- A call of the API with its inputs: handles, which may be anything, numbers, pointers to host memory, and
the places where the calls report an error left out. -/
inductive ApiCall where
  | createContext (numDevices : UInt32) (devices : Option (Nat → Ptr)) (pfnNotify userData : Ptr)
  | releaseContext (context : Ptr)
  | createCommandQueue (context device : Ptr)
  | releaseCommandQueue (commandQueue : Ptr)
  | createProgramWithBinary (context : Ptr) (numDevices : UInt32) (deviceList : Nat → Ptr)
    (binaries : Option (Nat → BinaryArg))
  | releaseProgram (program : Ptr)
  | createBuffer (context : Ptr) (flags size : UInt64) (hostPtr : Ptr)
  | releaseMemObject (memobj : Ptr)
  | createKernel (program : Ptr) (kernelName : Option CStr)
  | setKernelArg (kernel : Ptr) (argIndex : UInt32) (argSize : UInt64) (argValue : Ptr)
  | releaseKernel (kernel : Ptr)
  | enqueueBuffer (a : Access) (commandQueue buffer : Ptr) (offset size : UInt64) (ptr : Ptr)
  | enqueueNDRangeKernel (commandQueue kernel : Ptr)

/-- The call; what is not a creation returns no handle. -/
def ApiCall.run : ApiCall → Api δ Ptr
  | .createContext numDevices devices pfnNotify userData =>
    inClCreateContext env numDevices devices pfnNotify userData
  | .releaseContext context => do inClReleaseContext context; return 0
  | .createCommandQueue context device => inClCreateCommandQueueWithProperties env context device
  | .releaseCommandQueue commandQueue => do inClReleaseCommandQueue commandQueue; return 0
  | .createProgramWithBinary context numDevices deviceList binaries =>
    inClCreateProgramWithBinary env allocs context numDevices deviceList binaries
  | .releaseProgram program => do inClReleaseProgram program; return 0
  | .createBuffer context flags size hostPtr => ofOwn (inClCreateBuffer env context flags size hostPtr)
  | .releaseMemObject memobj => do ofOwn (inClReleaseMemObject memobj); return 0
  | .createKernel program kernelName => BaremetalCrt.createKernel env program kernelName
  | .setKernelArg kernel argIndex argSize argValue => do
    ofOwn (inClSetKernelArg env kernel argIndex argSize argValue)
    return 0
  | .releaseKernel kernel => do ofOwn (inClReleaseKernel kernel); return 0
  | .enqueueBuffer a commandQueue buffer offset size ptr => do
    ofHost (a.enqueue commandQueue buffer offset size ptr)
    return 0
  | .enqueueNDRangeKernel commandQueue kernel => do
    BaremetalCrt.enqueueNDRangeKernel commandQueue kernel
    return 0

end Calls

end BaremetalCrt
