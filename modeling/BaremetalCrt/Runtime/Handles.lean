/-
# BaremetalCrt.Runtime.Handles — buffers and kernels from creation to release.

`in_clCreateBuffer`, `in_clReleaseMemObject`, `in_clCreateKernel`, `in_clSetKernelArg` and
`in_clReleaseKernel` (`src/cl_mem.c`, `src/cl_kernel.c`) down to `calloc`, `strdup` and `free`
(`drivers/mem.c`, `drivers/kernel.c`).  Structs hold the addresses of their blocks, and `Heap` keeps the
ledger of the blocks that are live and of what was passed to `free`.

An object owns other blocks through the pointers in it: a buffer its storage, a kernel the copy of its name
and its array of arguments.  The invariant of a run (`Heap.Sound`) says that every such pointer leads to a
live block of the right kind, that no two of them lead to the same one, and that whatever was passed to
`free` was live.  Each entry point keeps it (the lemmas `wp_…`), so that a run of calls does
(`sound_ownAll`), as long as the host passes handles that it was given (`Careful`).

An entry point stops with the code that it returns; a creation that stops returns `NULL` and stores the
code at `errcode_ret`.
-/
import BaremetalCrt.Lib.Exec
import BaremetalCrt.Lib.Ledger
import BaremetalCrt.Runtime.Objects

namespace BaremetalCrt

open Lib

/-! ## The heap -/

/-- What a block of the heap was allocated for. The code keeps no such mark: it is there so that the
invariant can say which place may hold which block. -/
inductive BlockKind where
  | mem
  | kern
  | buffer
  | name
  | args
  /-- A context, a queue or a program. -/
  | object
  deriving DecidableEq, Repr

/-- `struct _cl_mem` behind its header: the flags, and the storage of the buffer. -/
structure MemFields where
  flags : UInt32
  size : UInt64
  ptr : Ptr

/-- `struct _cl_kernel` behind its header: the program, and pointers to the copy of the name and to the
array of arguments. -/
structure KernFields where
  prg : Ptr
  name : Ptr
  numArgs : UInt32
  args : Ptr

/-- The memory of the process: the blocks that are live, the addresses that were passed to `free` and
what was live there, the magic number that an object would have at an address, and the contents of
objects, argument arrays and bytes. -/
structure Heap where
  live : Ptr → Option BlockKind
  frees : List (Ptr × Option BlockKind)
  /-- How many allocations were tried. -/
  tries : Nat
  magic : Ptr → UInt32
  mems : Ptr → MemFields
  kerns : Ptr → KernFields
  arrays : Ptr → List KernArg
  bytes : ByteMap

/-- What decides how an allocation goes, which memory is the host's own, and what the uninitialised
local of `in_clCreateKernel` holds. -/
structure Env where
  host : Ptr → Bool
  calloc : Heap → Option Ptr
  fresh : ∀ s p, calloc s = some p → p ≠ 0 ∧ s.live p = none ∧ host p = false
  stack : Heap → Ptr

/-- A step that allocates and frees; what ends it early is the code that it returns. -/
abbrev Own := Exec Heap ClInt

/-- `if ((r = f()) != CL_SUCCESS) return r;`: the check reads the heap and leaves it as it is. -/
def require (f : Heap → ClInt) : Own Unit := fun s => (check (f s), s)

/-- A new block: whatever it is taken for, it is zero. -/
def Heap.allocated (s : Heap) (k : BlockKind) (p : Ptr) : Heap :=
  { s with
    live := Function.update s.live p (some k)
    tries := s.tries + 1
    magic := Function.update s.magic p 0
    mems := Function.update s.mems p ⟨0, 0, 0⟩
    kerns := Function.update s.kerns p ⟨0, 0, 0, 0⟩ }

/-- The heap behind `free(p)`: the block is not live any more, and the ledger says whether it was. -/
def Heap.freed (s : Heap) (p : Ptr) : Heap :=
  { s with live := Function.update s.live p none, frees := s.frees ++ [(p, s.live p)] }

/-- A store to the fields of a buffer object. -/
def Heap.setMem (s : Heap) (p : Ptr) (m : MemFields) : Heap :=
  { s with mems := Function.update s.mems p m }

/-- A store to the fields of a kernel. -/
def Heap.setKern (s : Heap) (p : Ptr) (k : KernFields) : Heap :=
  { s with kerns := Function.update s.kerns p k }

/-- `free`, of a block or of anything else: what is passed to it is on record. -/
def free (p : Ptr) : Own Unit := Exec.modify (·.freed p)

/-- `if (p != NULL) free(p);`, the way the release functions give back an optional block. -/
def freeIfAny (p : Ptr) : Own Unit := if p = 0 then return () else free p

/-- `mem_is_valid`, by what the heap has at the address. -/
def memHandleIsValid (s : Heap) (mem : Ptr) : ClInt := isValid clInvalidMemObject mem (s.magic mem)

/-- `kern_is_valid`: the handle is not NULL and its object has the magic number of the library. -/
def kernHandleIsValid (s : Heap) (kern : Ptr) : ClInt := isValid clInvalidKernel kern (s.magic kern)

/-- `ctx_is_valid`, the same test for a context. -/
def ctxHandleIsValid (s : Heap) (ctx : Ptr) : ClInt := isValid clInvalidContext ctx (s.magic ctx)

/-- `prg_is_valid`, the same test for a program. -/
def prgHandleIsValid (s : Heap) (prg : Ptr) : ClInt := isValid clInvalidProgram prg (s.magic prg)

section Driver

variable (env : Env)

/-- `calloc` and `strdup`: a block that was not live, filled with zeros, or `none`. -/
def calloc (k : BlockKind) : Own (Option Ptr) := fun s =>
  match env.calloc s with
  | none => (.ok none, { s with tries := s.tries + 1 })
  | some p => (.ok (some p), s.allocated k p)

/-! ## Memory objects (`drivers/mem.c`) -/

/-- `mem_alloc`: a buffer object of a context, without storage. -/
def memAlloc (ctx : Ptr) : Own Ptr := do
  require (ctxHandleIsValid · ctx)
  match ← calloc env .mem with
  | none => Exec.exit clOutOfHostMemory
  | some t =>
    Exec.modify fun s => { s with magic := Function.update s.magic t openclIcdMagic }
    return t

/-- `mem_free`: the object itself; its storage is not looked at. -/
def memFree (mem : Ptr) : Own Unit := do
  require (memHandleIsValid · mem)
  free mem

/-- `mem->flags = flags`: an `int` is left of the flags. -/
def memSetAttr (mem : Ptr) (flags : UInt64) : Own Unit := do
  require (memHandleIsValid · mem)
  Exec.modify fun s => s.setMem mem { s.mems mem with flags := flags.toUInt32 }

/-- `mem_need_use_host`: the buffer is the host memory that the caller gave. -/
def memNeedUseHost (m : MemFields) : Bool := m.flags &&& clMemUseHostPtr ≠ 0

/-- `mem_need_alloc_host`: the caller asks the library to allocate host memory. -/
def memNeedAllocHost (m : MemFields) : Bool := m.flags &&& clMemAllocHostPtr ≠ 0

/-- `mem_need_copy_host`: the new buffer starts with the bytes that the caller gave. -/
def memNeedCopyHost (m : MemFields) : Bool := m.flags &&& clMemCopyHostPtr ≠ 0

/-- `mem_alloc_buffer`: the storage of a buffer is the host's memory or a new block, as the flags say;
memory of the device is not supported. -/
def memAllocBuffer (mem : Ptr) (size : UInt64) (ptr : Ptr) : Own Unit := do
  require (memHandleIsValid · mem)
  let m ← Exec.gets (·.mems mem)
  if memNeedAllocHost m then
    Exec.exit clOutOfResources
  else if memNeedUseHost m then
    Exec.modify fun s => s.setMem mem { m with ptr := ptr, size := size }
  else
    match ← calloc env .buffer with
    | none =>
      Exec.modify fun s => s.setMem mem { m with ptr := 0 }
      Exec.exit clOutOfHostMemory
    | some p =>
      Exec.modify fun s =>
        let zeros := s.bytes.store p (List.replicate size.toNat 0)
        { s.setMem mem { m with ptr := p, size := size } with
          bytes := if memNeedCopyHost m then zeros.store p (zeros.load ptr size.toNat) else zeros }

/-- `mem_free_buffer`: whatever the object has as its storage is freed, whether it was allocated or not. -/
def memFreeBuffer (mem : Ptr) : Own Unit := do
  require (memHandleIsValid · mem)
  let m ← Exec.gets (·.mems mem)
  if m.ptr ≠ 0 then
    free m.ptr
    Exec.modify fun s => s.setMem mem { m with ptr := 0, size := 0 }

/-! ## Kernels (`drivers/kernel.c`) -/

/-- `kern_alloc`: a kernel of a program, without a name and without arguments. -/
def kernAlloc (prg : Ptr) : Own Ptr := do
  require (prgHandleIsValid · prg)
  match ← calloc env .kern with
  | none => Exec.exit clOutOfHostMemory
  | some t =>
    Exec.modify fun s =>
      { s.setKern t ⟨prg, 0, 0, 0⟩ with magic := Function.update s.magic t openclIcdMagic }
    return t

/-- `if (kern->name != NULL) { free(kern->name); kern->name = NULL; }` -/
def kernDropName (kern : Ptr) : Own Unit := do
  let k ← Exec.gets (·.kerns kern)
  if k.name ≠ 0 then
    free k.name
    Exec.modify fun s => s.setKern kern { k with name := 0 }

/-- `if (kern->args != NULL) { free(kern->args); kern->args = NULL; }` -/
def kernDropArgs (kern : Ptr) : Own Unit := do
  let k ← Exec.gets (·.kerns kern)
  if k.args ≠ 0 then
    free k.args
    Exec.modify fun s => s.setKern kern { k with args := 0 }

/-- `kern_free`: the name, the arguments, and then the kernel itself. -/
def kernFree (kern : Ptr) : Own Unit := do
  require (kernHandleIsValid · kern)
  kernDropName kern
  kernDropArgs kern
  free kern

/-- `kern_set_name`: the old name is freed, and the new one is a copy. A string that cannot be duplicated is
no error, and leaves the kernel without a name. -/
def kernSetName (kern : Ptr) (name : CStr) : Own Unit := do
  require (kernHandleIsValid · kern)
  kernDropName kern
  match ← calloc env .name with
  | none => return ()
  | some p =>
    Exec.modify fun s =>
      { s.setKern kern { s.kerns kern with name := p } with bytes := s.bytes.store p (name.bytes ++ [0]) }

/-- `kern_set_num_args`: a new array with the entries of the old one, as far as they fit, and unset ones
behind them. For `num = 0` there is no array. -/
def kernSetNumArgs (kern : Ptr) (num : UInt32) : Own Unit := do
  require (kernHandleIsValid · kern)
  if num = 0 then
    kernDropArgs kern
    Exec.modify fun s => s.setKern kern { s.kerns kern with args := 0, numArgs := 0 }
  else
    match ← calloc env .args with
    | none => Exec.exit clOutOfHostMemory
    | some args =>
      let k ← Exec.gets (·.kerns kern)
      let n := if k.args = 0 then 0 else (min k.numArgs num).toNat
      Exec.modify fun s =>
        { s with
          arrays := Function.update s.arrays args
            ((s.arrays k.args).takeD n .zero ++ List.replicate (num.toNat - n) .zero) }
      freeIfAny k.args
      Exec.modify fun s => s.setKern kern { k with args := args, numArgs := num }

/-- `kern_set_arg`: entry `i` becomes a copy of `arg` with the index `i`. -/
def kernSetArg (kern : Ptr) (i : UInt32) (arg : KernArg) : Own Unit := do
  require (kernHandleIsValid · kern)
  let k ← Exec.gets (·.kerns kern)
  if k.numArgs ≤ i then
    Exec.exit clInvalidValue
  Exec.modify fun s =>
    { s with arrays := Function.update s.arrays k.args ((s.arrays k.args).set i.toNat { arg with index := i }) }

/-! ## The entry points -/

/-- `mask_rw`: `CL_MEM_READ_WRITE | CL_MEM_READ_ONLY | CL_MEM_WRITE_ONLY`. -/
def maskRw : UInt64 := 7

/-- `mask_host`: `CL_MEM_USE_HOST_PTR | CL_MEM_ALLOC_HOST_PTR | CL_MEM_COPY_HOST_PTR`. -/
def maskHost : UInt64 := 56

/-- `in_clCreateBuffer`: the flags, the size and the host pointer are checked in the source's order, and
then the object and its storage are made; what is allocated when a later step fails is not released. -/
def inClCreateBuffer (context : Ptr) (flags : UInt64) (size : UInt64) (hostPtr : Ptr) : Own Ptr := do
  let flags := if flags = 0 then 1 else flags
  let rw := flags &&& maskRw
  if ¬ (rw = 1 ∨ rw = 2 ∨ rw = 4) then
    Exec.exit clInvalidValue
  let host := flags &&& maskHost
  if ¬ (host = 0 ∨ host = 16 ∨ host = 8 ∨ host = 32 ∨ host = 48) then
    Exec.exit clInvalidValue
  let needHostPtr := host = 8 ∨ host = 32 ∨ host = 48
  if size = 0 then
    Exec.exit clInvalidBufferSize
  if hostPtr = 0 ∧ needHostPtr then
    Exec.exit clInvalidHostPtr
  require (ctxHandleIsValid · context)
  let mem ← memAlloc env context
  memSetAttr mem flags
  memAllocBuffer env mem size hostPtr
  return mem

/-- `in_clReleaseMemObject`: the storage, whose code is dropped, and then the object. -/
def inClReleaseMemObject (memobj : Ptr) : Own Unit := do
  require (memHandleIsValid · memobj)
  let _ ← Exec.attempt (memFreeBuffer memobj)
  memFree memobj

/-- `in_clCreateKernel`.  `err_out` frees whatever the local `kern` holds, which nothing sets before
`kern_alloc` has succeeded. -/
def inClCreateKernel (program : Ptr) (kernelName : Option CStr) : Own Ptr := do
  let garbage ← Exec.gets env.stack
  let errOut (kern : Ptr) (r : ClInt) : Own Ptr := do
    let _ ← Exec.attempt (kernFree kern)
    Exec.exit r
  match kernelName with
  | none => errOut garbage clInvalidKernelName
  | some name =>
    match ← Exec.attempt (do require (prgHandleIsValid · program); kernAlloc env program) with
    | .error r => errOut garbage r
    | .ok kern =>
      match ← Exec.attempt (do kernSetName env kern name; kernSetNumArgs env kern 0) with
      | .error r => errOut kern r
      | .ok _ => return kern

/-- `in_clSetKernelArg`: a value of the size of a pointer is taken for a `cl_mem`. -/
def inClSetKernelArg (kernel : Ptr) (argIndex : UInt32) (argSize : UInt64) (argValue : Ptr) :
    Own Unit := do
  if argValue = 0 then
    Exec.exit clInvalidArgValue
  require (kernHandleIsValid · kernel)
  let s ← Exec.gets id
  let arg : KernArg :=
    if argSize = 8 then ⟨commArgMem, 0, argSize, .addr (leNat (s.bytes.load argValue 8))⟩
    else ⟨commArgVal, 0, argSize, .addr argValue⟩
  if (s.kerns kernel).numArgs ≤ argIndex then
    kernSetNumArgs env kernel (argIndex + 1)
  kernSetArg kernel argIndex arg

/-- `in_clReleaseKernel`: a valid kernel is freed at once, since kernels are not counted. -/
def inClReleaseKernel (kernel : Ptr) : Own Unit := do
  require (kernHandleIsValid · kernel)
  kernFree kernel

end Driver

/-! ## Who owns what -/

/-- The places that hold the address of a block: of an object the buffer, of a kernel its name and its
arguments. -/
inductive Holder where
  | buffer (p : Ptr)
  | name (p : Ptr)
  | args (p : Ptr)
  deriving DecidableEq, Repr

/-- What the block at such a place was allocated for. -/
def Holder.kind : Holder → BlockKind
  | .buffer _ => .buffer
  | .name _ => .name
  | .args _ => .args

/-- The object that such a place belongs to. -/
def Holder.object : Holder → Ptr
  | .buffer p => p
  | .name p => p
  | .args p => p

/-- What a live object owns; the memory behind a buffer of the host's is not among it. -/
def Heap.ref (s : Heap) : Holder → Ptr
  | .buffer p => if s.live p = some .mem ∧ ¬ memNeedUseHost (s.mems p) then (s.mems p).ptr else 0
  | .name p => if s.live p = some .kern then (s.kerns p).name else 0
  | .args p => if s.live p = some .kern then (s.kerns p).args else 0

/-- What was freed was live, and the host's memory was never allocated. -/
structure Heap.Clean (env : Env) (s : Heap) : Prop where
  live : ∀ p k, s.live p = some k → p ≠ 0 ∧ env.host p = false
  frees : ∀ e ∈ s.frees, e.2.isSome ∧ env.host e.1 = false

/-- And every block that an object refers to is its own. -/
structure Heap.Sound (env : Env) (s : Heap) : Prop where
  clean : s.Clean env
  owns : Owns s.live s.ref Holder.kind

section Ownership

variable {env : Env} {s : Heap} {p q : Ptr} {k : BlockKind}

theorem Heap.Clean.freed (h : s.Clean env) (hq : s.live q = some k) : (s.freed q).Clean env where
  live p k' hp := by
    by_cases hpq : p = q
    · subst hpq
      have hnone : (s.freed p).live p = none := Function.update_self ..
      rw [hnone] at hp
      cases hp
    · have hsame : (s.freed q).live p = s.live p := Function.update_of_ne hpq _ _
      exact h.live p k' (hsame ▸ hp)
  frees e he := by
    rcases List.mem_append.mp he with he | he
    · exact h.frees e he
    · obtain rfl := List.mem_singleton.mp he
      exact ⟨by rw [hq]; rfl, (h.live q k hq).2⟩

theorem Heap.Clean.allocated (h : s.Clean env) (hq : q ≠ 0 ∧ s.live q = none ∧ env.host q = false) :
    (s.allocated k q).Clean env where
  live p k' hp := by
    by_cases hpq : p = q
    · subst hpq
      exact ⟨hq.1, hq.2.2⟩
    · have hsame : (s.allocated k q).live p = s.live p := Function.update_of_ne hpq _ _
      exact h.live p k' (hsame ▸ hp)
  frees := h.frees

/-- The slots of an object that is not live are empty. -/
theorem ref_eq_zero {i : Holder} (h : s.live i.object = none) : s.ref i = 0 := by
  cases i with
  | buffer p => exact if_neg fun hp => by rw [show s.live p = none from h] at hp; cases hp.1
  | name p => exact if_neg fun hp => by rw [show s.live p = none from h] at hp; cases hp
  | args p => exact if_neg fun hp => by rw [show s.live p = none from h] at hp; cases hp

/-- Only the slots of an object change when its liveness and its fields do. -/
theorem ref_congr {s' : Heap} {i : Holder} (hlive : s'.live i.object = s.live i.object)
    (hmem : s'.mems i.object = s.mems i.object) (hkern : s'.kerns i.object = s.kerns i.object) :
    s'.ref i = s.ref i := by
  cases i with
  | buffer p =>
    show (if s'.live p = _ ∧ ¬ memNeedUseHost (s'.mems p) then (s'.mems p).ptr else 0) = _
    rw [show s'.live p = s.live p from hlive, show s'.mems p = s.mems p from hmem]
    rfl
  | name p =>
    show (if s'.live p = _ then (s'.kerns p).name else 0) = _
    rw [show s'.live p = s.live p from hlive, show s'.kerns p = s.kerns p from hkern]
    rfl
  | args p =>
    show (if s'.live p = _ then (s'.kerns p).args else 0) = _
    rw [show s'.live p = s.live p from hlive, show s'.kerns p = s.kerns p from hkern]
    rfl

theorem ref_allocated (h : s.live q = none) : (s.allocated k q).ref = s.ref := by
  funext i
  by_cases hi : i.object = q
  · have hzero : s.ref i = 0 := ref_eq_zero (hi ▸ h)
    rw [hzero]
    cases i with
    | buffer p =>
      obtain rfl : p = q := hi
      simp [Heap.ref, Heap.allocated]
    | name p =>
      obtain rfl : p = q := hi
      simp [Heap.ref, Heap.allocated]
    | args p =>
      obtain rfl : p = q := hi
      simp [Heap.ref, Heap.allocated]
  · exact ref_congr (Function.update_of_ne hi _ _) (Function.update_of_ne hi _ _)
      (Function.update_of_ne hi _ _)

theorem ref_freed (h : ∀ i : Holder, i.object = q → s.ref i = 0) : (s.freed q).ref = s.ref := by
  funext i
  by_cases hi : i.object = q
  · rw [h i hi]
    exact ref_eq_zero (by rw [hi]; exact Function.update_self ..)
  · exact ref_congr (Function.update_of_ne hi _ _) rfl rfl

theorem ref_setMem (m : MemFields) : (s.setMem p m).ref = Function.update s.ref (.buffer p)
    (if s.live p = some .mem ∧ ¬ memNeedUseHost m then m.ptr else 0) := by
  funext i
  by_cases hi : i = .buffer p
  · subst hi
    simp [Heap.ref, Heap.setMem]
  · rw [Function.update_of_ne hi]
    cases i with
    | buffer x =>
      have hx : x ≠ p := fun heq => hi (heq ▸ rfl)
      exact ref_congr rfl (Function.update_of_ne hx _ _) rfl
    | name x => rfl
    | args x => rfl

theorem ref_setKern (f : KernFields) : (s.setKern p f).ref =
    Function.update (Function.update s.ref (.name p) (if s.live p = some .kern then f.name else 0))
      (.args p) (if s.live p = some .kern then f.args else 0) := by
  funext i
  by_cases hi : i.object = p
  · cases i with
    | buffer x => rw [Function.update_of_ne (by simp), Function.update_of_ne (by simp)]; rfl
    | name x =>
      obtain rfl : x = p := hi
      simp [Heap.ref, Heap.setKern]
    | args x =>
      obtain rfl : x = p := hi
      simp [Heap.ref, Heap.setKern]
  · have hname : i ≠ .name p := fun heq => hi (by rw [heq]; rfl)
    have hargs : i ≠ .args p := fun heq => hi (by rw [heq]; rfl)
    rw [Function.update_of_ne hargs, Function.update_of_ne hname]
    exact ref_congr rfl rfl (Function.update_of_ne hi _ _)

theorem Heap.Sound.allocated (h : s.Sound env) (hq : q ≠ 0 ∧ s.live q = none ∧ env.host q = false)
    (k : BlockKind) : (s.allocated k q).Sound env := by
  refine ⟨h.clean.allocated hq, ?_⟩
  rw [ref_allocated hq.2.1]
  exact h.owns.alloc hq.2.1 k

/-- Two kinds of block are not at one address. -/
theorem ne_of_live {k' : BlockKind} (hp : s.live p = some k) (hq : s.live q = some k') (hk : k ≠ k') :
    p ≠ q := by
  rintro rfl
  exact hk (Option.some.inj (hp.symm.trans hq))

/-- A block that is no object has no slots. -/
theorem ref_of_live (hq : s.live q = some k) (hmem : k ≠ .mem) (hkern : k ≠ .kern) (i : Holder)
    (hi : i.object = q) : s.ref i = 0 := by
  cases i with
  | buffer p =>
    obtain rfl : p = q := hi
    exact if_neg fun h => hmem (Option.some.inj (hq.symm.trans h.1))
  | name p =>
    obtain rfl : p = q := hi
    exact if_neg fun h => hkern (Option.some.inj (hq.symm.trans h))
  | args p =>
    obtain rfl : p = q := hi
    exact if_neg fun h => hkern (Option.some.inj (hq.symm.trans h))

variable {kern : Ptr}

theorem ref_setName (hk : s.live kern = some .kern) (name : Ptr) :
    (s.setKern kern { s.kerns kern with name := name }).ref =
      Function.update s.ref (.name kern) name := by
  have hargs : (if s.live kern = some .kern then (s.kerns kern).args else 0) =
      Function.update s.ref (.name kern) name (.args kern) := by
    rw [Function.update_of_ne (by simp)]
    rfl
  rw [ref_setKern, if_pos hk]
  show Function.update (Function.update s.ref (.name kern) name) (.args kern)
    (if s.live kern = some .kern then (s.kerns kern).args else 0) = _
  rw [hargs, Function.update_eq_self]

theorem ref_setArgs (hk : s.live kern = some .kern) (args : Ptr) (num : UInt32) :
    (s.setKern kern { s.kerns kern with args := args, numArgs := num }).ref =
      Function.update s.ref (.args kern) args := by
  have hname : (s.kerns kern).name = s.ref (.name kern) := (if_pos hk).symm
  rw [ref_setKern, if_pos hk, if_pos hk]
  show Function.update (Function.update s.ref (.name kern) (s.kerns kern).name) (.args kern) args = _
  rw [hname, Function.update_eq_self]

/-- A kernel gives its name back. -/
theorem Heap.Sound.dropName (h : s.Sound env) (hk : s.live kern = some .kern)
    (hname : (s.kerns kern).name ≠ 0) :
    ((s.freed (s.kerns kern).name).setKern kern { s.kerns kern with name := 0 }).Sound env ∧
      (s.freed (s.kerns kern).name).live kern = some .kern := by
  have href : s.ref (.name kern) = (s.kerns kern).name := if_pos hk
  have hlive : s.live (s.kerns kern).name = some .name := by
    rw [← href]
    exact h.owns.live_ref _ (by rwa [href])
  have hkern : (s.freed (s.kerns kern).name).live kern = some .kern := by
    show Function.update s.live (s.kerns kern).name none kern = _
    rw [Function.update_of_ne (ne_of_live hk hlive (by decide)), hk]
  have hrefs := ref_setName (s := s.freed (s.kerns kern).name) hkern 0
  rw [ref_freed (ref_of_live hlive (by decide) (by decide))] at hrefs
  refine ⟨⟨⟨(h.clean.freed hlive).live, (h.clean.freed hlive).frees⟩, ?_⟩, hkern⟩
  show Owns (Function.update s.live (s.kerns kern).name none)
    ((s.freed (s.kerns kern).name).setKern kern { s.kerns kern with name := 0 }).ref Holder.kind
  have hdrop := h.owns.drop (.name kern)
  rw [href] at hdrop
  exact hrefs ▸ hdrop

/-- And its arguments. -/
theorem Heap.Sound.dropArgs (h : s.Sound env) (hk : s.live kern = some .kern)
    (hargs : (s.kerns kern).args ≠ 0) :
    ((s.freed (s.kerns kern).args).setKern kern { s.kerns kern with args := 0 }).Sound env ∧
      (s.freed (s.kerns kern).args).live kern = some .kern := by
  have href : s.ref (.args kern) = (s.kerns kern).args := if_pos hk
  have hlive : s.live (s.kerns kern).args = some .args := by
    rw [← href]
    exact h.owns.live_ref _ (by rwa [href])
  have hkern : (s.freed (s.kerns kern).args).live kern = some .kern := by
    show Function.update s.live (s.kerns kern).args none kern = _
    rw [Function.update_of_ne (ne_of_live hk hlive (by decide)), hk]
  have hrefs := ref_setArgs (s := s.freed (s.kerns kern).args) hkern 0 (s.kerns kern).numArgs
  rw [ref_freed (ref_of_live hlive (by decide) (by decide))] at hrefs
  refine ⟨⟨⟨(h.clean.freed hlive).live, (h.clean.freed hlive).frees⟩, ?_⟩, hkern⟩
  show Owns (Function.update s.live (s.kerns kern).args none)
    ((s.freed (s.kerns kern).args).setKern kern { s.kerns kern with args := 0 }).ref Holder.kind
  have hdrop := h.owns.drop (.args kern)
  rw [href] at hdrop
  exact hrefs ▸ hdrop

/-- A kernel without a name takes a new block for it. -/
theorem Heap.Sound.takeName (h : s.Sound env) (hk : s.live kern = some .kern)
    (hname : (s.kerns kern).name = 0) (hq : q ≠ 0 ∧ s.live q = none ∧ env.host q = false) :
    (((s.allocated .name q).setKern kern { s.kerns kern with name := q }).Sound env) ∧
      (s.allocated .name q).live kern = some .kern := by
  have hkq : kern ≠ q := by
    rintro rfl
    rw [hk] at hq
    cases hq.2.1
  have hkern : (s.allocated .name q).live kern = some .kern := by
    show Function.update s.live q (some .name) kern = _
    rw [Function.update_of_ne hkq, hk]
  have hfields : (s.allocated .name q).kerns kern = s.kerns kern := Function.update_of_ne hkq _ _
  have hs := h.allocated hq .name
  refine ⟨⟨⟨hs.clean.live, hs.clean.frees⟩, ?_⟩, hkern⟩
  have hrefs := ref_setName (s := s.allocated .name q) hkern q
  rw [hfields, ref_allocated hq.2.1] at hrefs
  rw [hrefs]
  have hnone : s.ref (.name kern) = 0 := (if_pos hk).trans hname
  have howns := hs.owns
  rw [ref_allocated hq.2.1] at howns
  exact howns.put hnone (Function.update_self ..) (h.owns.ref_ne hq.2.1 hq.1)

/-- A kernel takes a new block for its arguments, and gives the old one back if it had one. -/
theorem Heap.Sound.takeArgs (h : s.Sound env) (hk : s.live kern = some .kern)
    (hq : q ≠ 0 ∧ s.live q = none ∧ env.host q = false) (arrays : Ptr → List KernArg) (num : UInt32) :
    let s₁ : Heap := { s.allocated .args q with arrays := arrays }
    let s₂ : Heap := if (s.kerns kern).args = 0 then s₁ else s₁.freed (s.kerns kern).args
    (s₂.setKern kern { s.kerns kern with args := q, numArgs := num }).Sound env ∧
      s₂.live kern = some .kern := by
  intro s₁ s₂
  have hkq : kern ≠ q := by
    rintro rfl
    rw [hk] at hq
    cases hq.2.1
  have hs₁ : s₁.Sound env := ⟨⟨(h.allocated hq .args).clean.live, (h.allocated hq .args).clean.frees⟩,
    (h.allocated hq .args).owns⟩
  have hkern₁ : s₁.live kern = some .kern := by
    show Function.update s.live q (some .args) kern = _
    rw [Function.update_of_ne hkq, hk]
  have hfields : s₁.kerns kern = s.kerns kern := Function.update_of_ne hkq _ _
  have hrefs₁ : s₁.ref = s.ref := ref_allocated (k := .args) hq.2.1
  have href : s.ref (.args kern) = (s.kerns kern).args := if_pos hk
  have hlive₁ : s₁.live q = some .args := Function.update_self ..
  have hother : ∀ j, s₁.ref j ≠ q := fun j => by
    rw [hrefs₁]
    exact h.owns.ref_ne hq.2.1 hq.1 j
  by_cases hargs : (s.kerns kern).args = 0
  · have hs₂ : s₂ = s₁ := if_pos hargs
    rw [hs₂]
    have hrefs := ref_setArgs (s := s₁) hkern₁ q num
    rw [hfields] at hrefs
    refine ⟨⟨⟨hs₁.clean.live, hs₁.clean.frees⟩, ?_⟩, hkern₁⟩
    rw [hrefs]
    exact hs₁.owns.put (by rw [hrefs₁, href, hargs]) hlive₁ hother
  · have hs₂ : s₂ = s₁.freed (s.kerns kern).args := if_neg hargs
    have hold : s₁.live (s.kerns kern).args = some .args := by
      rw [← href, ← hrefs₁]
      exact hs₁.owns.live_ref _ (by rwa [hrefs₁, href])
    have hkern₂ : s₂.live kern = some .kern := by
      rw [hs₂]
      show Function.update s₁.live (s.kerns kern).args none kern = _
      rw [Function.update_of_ne (ne_of_live hkern₁ hold (by decide)), hkern₁]
    have hrefs := ref_setArgs (s := s₂) hkern₂ q num
    rw [hs₂, ref_freed (ref_of_live hold (by decide) (by decide))] at hrefs
    have hfields₂ : (s₁.freed (s.kerns kern).args).kerns kern = s.kerns kern := hfields
    rw [hfields₂] at hrefs
    refine ⟨⟨⟨?_, ?_⟩, ?_⟩, hkern₂⟩
    · rw [hs₂]
      exact (hs₁.clean.freed hold).live
    · rw [hs₂]
      exact (hs₁.clean.freed hold).frees
    · have hreplace := hs₁.owns.replace (i := .args kern) hq.1 hlive₁ hother
      rw [hs₂, hrefs]
      show Owns (Function.update s₁.live (s.kerns kern).args none) _ Holder.kind
      rw [show (s.kerns kern).args = s₁.ref (.args kern) by rw [hrefs₁, href]]
      exact hreplace

/-! ### The functions, one by one -/

variable {Q : Unit → Heap → Prop} {E : ClInt → Heap → Prop}

theorem wp_require {f : Heap → ClInt} :
    Exec.wp (require f) Q E s ↔ (f s = clSuccess → Q () s) ∧ (f s ≠ clSuccess → E (f s) s) := by
  by_cases h : f s = clSuccess <;> simp [require, Exec.wp, check, h]

/-- An allocation fails, or has a new block. -/
theorem wp_calloc (env : Env) (k : BlockKind) {Q : Option Ptr → Heap → Prop}
    (hnone : Q none { s with tries := s.tries + 1 })
    (hsome : ∀ q, q ≠ 0 ∧ s.live q = none ∧ env.host q = false → Q (some q) (s.allocated k q)) :
    Exec.wp (calloc env k) Q E s := by
  cases h : env.calloc s with
  | none =>
    have hrun : calloc env k s = (.ok none, { s with tries := s.tries + 1 }) := by
      unfold calloc
      rw [h]
    exact (Exec.wp_of_ok hrun).mpr hnone
  | some q =>
    have hrun : calloc env k s = (.ok (some q), s.allocated k q) := by
      unfold calloc
      rw [h]
    exact (Exec.wp_of_ok hrun).mpr (hsome q (env.fresh s q h))

/-- Every block of the heap is owned by one place, and `kern` is a live kernel: what the functions on
kernels keep between their steps. -/
def Heap.KernSound (env : Env) (kern : Ptr) (s : Heap) : Prop := s.Sound env ∧ s.live kern = some .kern

theorem wp_kernDropName (h : s.KernSound env kern) :
    Exec.wp (kernDropName kern)
      (fun _ s' => s'.KernSound env kern ∧ (s'.kerns kern).name = 0) (fun _ _ => False) s := by
  obtain ⟨hs, hk⟩ := h
  rw [kernDropName, Exec.wp_bind, Exec.wp_gets]
  refine Exec.wp_ite.mpr ⟨fun hname => ?_, fun hname => ?_⟩
  · obtain ⟨hsound, hlive⟩ := hs.dropName hk hname
    refine ⟨⟨hsound, hlive⟩, ?_⟩
    show (Function.update s.kerns kern { s.kerns kern with name := 0 } kern).name = 0
    rw [Function.update_self]
  · exact ⟨⟨hs, hk⟩, not_not.mp hname⟩

theorem wp_kernDropArgs (h : s.KernSound env kern) :
    Exec.wp (kernDropArgs kern)
      (fun _ s' => s'.KernSound env kern ∧ (s'.kerns kern).args = 0 ∧
        (s'.kerns kern).name = (s.kerns kern).name) (fun _ _ => False) s := by
  obtain ⟨hs, hk⟩ := h
  rw [kernDropArgs, Exec.wp_bind, Exec.wp_gets]
  refine Exec.wp_ite.mpr ⟨fun hargs => ?_, fun hargs => ?_⟩
  · obtain ⟨hsound, hlive⟩ := hs.dropArgs hk hargs
    refine ⟨⟨hsound, hlive⟩, ?_⟩
    show (Function.update s.kerns kern { s.kerns kern with args := 0 } kern).args = 0 ∧
      (Function.update s.kerns kern { s.kerns kern with args := 0 } kern).name = _
    rw [Function.update_self]
    exact ⟨rfl, rfl⟩
  · exact ⟨⟨hs, hk⟩, not_not.mp hargs, rfl⟩

/-- An object whose slots are empty can go. -/
theorem Heap.Sound.freeObject (h : s.Sound env) (hp : s.live p = some k) (hk : k = .mem ∨ k = .kern)
    (hslots : ∀ i : Holder, i.object = p → s.ref i = 0) : (s.freed p).Sound env := by
  refine ⟨h.clean.freed hp, ?_⟩
  rw [ref_freed hslots]
  refine h.owns.release hp fun i => ?_
  rcases hk with rfl | rfl <;> cases i <;> exact BlockKind.noConfusion

/-- A live kernel is released with what it owns. -/
theorem wp_kernFree (h : s.KernSound env kern) :
    Exec.wp (kernFree kern) (fun _ s' => s'.Sound env) (fun _ s' => s'.Sound env) s := by
  rw [kernFree, Exec.wp_bind, wp_require]
  refine ⟨fun _ => ?_, fun _ => h.1⟩
  refine (Exec.wp_bind ..).mpr ((wp_kernDropName h).mono (fun _ s₁ h₁ => ?_) (fun _ _ => False.elim))
  refine (Exec.wp_bind ..).mpr ((wp_kernDropArgs h₁.1).mono (fun _ s₂ h₂ => ?_) (fun _ _ => False.elim))
  obtain ⟨⟨hs, hk⟩, hargs, hname⟩ := h₂
  refine hs.freeObject hk (Or.inr rfl) fun i hi => ?_
  cases i with
  | buffer p =>
    obtain rfl : p = kern := hi
    exact if_neg fun h => by rw [hk] at h; cases h.1
  | name p =>
    obtain rfl : p = kern := hi
    exact (if_pos hk).trans (hname.trans h₁.2)
  | args p =>
    obtain rfl : p = kern := hi
    exact (if_pos hk).trans hargs

theorem wp_kernSetName (h : s.KernSound env kern) (name : CStr) :
    Exec.wp (kernSetName env kern name) (fun _ s' => s'.KernSound env kern)
      (fun _ s' => s'.KernSound env kern) s := by
  rw [kernSetName, Exec.wp_bind, wp_require]
  refine ⟨fun _ => ?_, fun _ => h⟩
  refine (Exec.wp_bind ..).mpr ((wp_kernDropName h).mono (fun _ s₁ h₁ => ?_) (fun _ _ => False.elim))
  obtain ⟨⟨hs, hk⟩, hname⟩ := h₁
  refine (Exec.wp_bind ..).mpr (wp_calloc env .name ⟨⟨⟨hs.clean.live, hs.clean.frees⟩, hs.owns⟩, hk⟩
    fun q hq => ?_)
  have hkq : kern ≠ q := by
    rintro rfl
    rw [hk] at hq
    cases hq.2.1
  have hfields : (s₁.allocated .name q).kerns kern = s₁.kerns kern := Function.update_of_ne hkq _ _
  obtain ⟨hsound, hlive⟩ := hs.takeName hk hname hq
  show Heap.KernSound env kern { (s₁.allocated .name q).setKern kern
    { (s₁.allocated .name q).kerns kern with name := q } with bytes := _ }
  rw [hfields]
  exact ⟨⟨⟨hsound.clean.live, hsound.clean.frees⟩, hsound.owns⟩, hlive⟩

theorem wp_kernSetNumArgs (h : s.KernSound env kern) (num : UInt32) :
    Exec.wp (kernSetNumArgs env kern num) (fun _ s' => s'.KernSound env kern)
      (fun _ s' => s'.KernSound env kern) s := by
  rw [kernSetNumArgs, Exec.wp_bind, wp_require]
  refine ⟨fun _ => ?_, fun _ => h⟩
  refine Exec.wp_ite.mpr ⟨fun _ => ?_, fun _ => ?_⟩
  · refine (Exec.wp_bind ..).mpr ((wp_kernDropArgs h).mono (fun _ s₁ h₁ => ?_) (fun _ _ => False.elim))
    obtain ⟨⟨hs, hk⟩, hargs, -⟩ := h₁
    refine ⟨⟨⟨hs.clean.live, hs.clean.frees⟩, ?_⟩, hk⟩
    show Owns s₁.live (s₁.setKern kern { s₁.kerns kern with args := 0, numArgs := 0 }).ref Holder.kind
    have hnone : s₁.ref (.args kern) = 0 := (if_pos hk).trans hargs
    rw [ref_setArgs hk, ← hnone, Function.update_eq_self]
    exact hs.owns
  · obtain ⟨hs, hk⟩ := h
    refine (Exec.wp_bind ..).mpr (wp_calloc env .args
      ⟨⟨⟨hs.clean.live, hs.clean.frees⟩, hs.owns⟩, hk⟩ fun q hq => ?_)
    have hkq : kern ≠ q := by
      rintro rfl
      rw [hk] at hq
      cases hq.2.1
    have hfields : (s.allocated .args q).kerns kern = s.kerns kern := Function.update_of_ne hkq _ _
    rw [Exec.wp_bind, Exec.wp_gets, hfields]
    refine (Exec.wp_bind ..).mpr ((Exec.wp_modify _).mpr ?_)
    obtain ⟨hsound, hlive⟩ := hs.takeArgs hk hq (Function.update (s.allocated .args q).arrays q
      (((s.allocated .args q).arrays (s.kerns kern).args).takeD
        (if (s.kerns kern).args = 0 then 0 else (min (s.kerns kern).numArgs num).toNat) .zero ++
          List.replicate (num.toNat -
            (if (s.kerns kern).args = 0 then 0 else (min (s.kerns kern).numArgs num).toNat)) .zero)) num
    rw [freeIfAny, Exec.wp_bind, Exec.wp_ite]
    refine ⟨fun hargs => ?_, fun hargs => ?_⟩
    · rw [if_pos hargs] at hsound hlive
      exact ⟨hsound, hlive⟩
    · rw [if_neg hargs] at hsound hlive
      exact ⟨hsound, hlive⟩

/-- Everything is owned, and the buffer object is live and has no memory yet. -/
def Heap.MemSound (env : Env) (mem : Ptr) (s : Heap) : Prop :=
  s.Sound env ∧ s.live mem = some .mem ∧ (s.mems mem).ptr = 0

variable {mem : Ptr}

theorem Heap.MemSound.ref (h : s.MemSound env mem) : s.ref (.buffer mem) = 0 := by
  show (if s.live mem = some .mem ∧ ¬ memNeedUseHost (s.mems mem) then (s.mems mem).ptr else 0) = 0
  rw [h.2.2, ite_self]

/-- An object without memory is set to nothing, or to the memory of the host. -/
theorem Heap.MemSound.setMem (h : s.MemSound env mem) {m : MemFields} (hm : memNeedUseHost m ∨ m.ptr = 0) :
    (s.setMem mem m).Sound env := by
  have hvalue : (if s.live mem = some .mem ∧ ¬ memNeedUseHost m then m.ptr else 0) =
      s.ref (.buffer mem) := by
    rw [h.ref]
    rcases hm with hm | hm
    · exact if_neg fun h => h.2 hm
    · rw [hm, ite_self]
  refine ⟨⟨h.1.clean.live, h.1.clean.frees⟩, ?_⟩
  rw [ref_setMem, hvalue, Function.update_eq_self]
  exact h.1.owns

theorem wp_memAlloc (h : s.Sound env) (ctx : Ptr) :
    Exec.wp (memAlloc env ctx) (fun mem s' => s'.MemSound env mem) (fun _ s' => s'.Sound env) s := by
  rw [memAlloc, Exec.wp_bind, wp_require]
  refine ⟨fun _ => ?_, fun _ => h⟩
  refine (Exec.wp_bind ..).mpr (wp_calloc env .mem ⟨⟨h.clean.live, h.clean.frees⟩, h.owns⟩ fun q hq => ?_)
  have hs := h.allocated hq .mem
  have hfields : (s.allocated .mem q).mems q = ⟨0, 0, 0⟩ := Function.update_self ..
  exact ⟨⟨⟨hs.clean.live, hs.clean.frees⟩, hs.owns⟩, Function.update_self .., congrArg _ hfields⟩

theorem wp_memSetAttr (h : s.MemSound env mem) (flags : UInt64) :
    Exec.wp (memSetAttr mem flags) (fun _ s' => s'.MemSound env mem) (fun _ s' => s'.Sound env) s := by
  rw [memSetAttr, Exec.wp_bind, wp_require]
  refine ⟨fun _ => ?_, fun _ => h.1⟩
  refine ⟨h.setMem (Or.inr h.2.2), h.2.1, ?_⟩
  show (Function.update s.mems mem _ mem).ptr = 0
  rw [Function.update_self]
  exact h.2.2

theorem wp_memAllocBuffer (h : s.MemSound env mem) (size : UInt64) (ptr : Ptr) :
    Exec.wp (memAllocBuffer env mem size ptr) (fun _ s' => s'.Sound env) (fun _ s' => s'.Sound env) s := by
  rw [memAllocBuffer, Exec.wp_bind, wp_require]
  refine ⟨fun _ => ?_, fun _ => h.1⟩
  rw [Exec.wp_bind, Exec.wp_gets]
  refine Exec.wp_ite.mpr ⟨fun _ => h.1, fun _ => Exec.wp_ite.mpr ⟨fun huse => ?_, fun huse => ?_⟩⟩
  · exact h.setMem (Or.inl huse)
  · refine (Exec.wp_bind ..).mpr (wp_calloc env .buffer ?_ fun q hq => ?_)
    · have htried : Heap.MemSound env mem { s with tries := s.tries + 1 } :=
        ⟨⟨⟨h.1.clean.live, h.1.clean.frees⟩, h.1.owns⟩, h.2⟩
      exact htried.setMem (Or.inr rfl)
    · have hmq : mem ≠ q := by
        rintro rfl
        rw [h.2.1] at hq
        cases hq.2.1
      have hlive : (s.allocated .buffer q).live mem = some .mem := by
        show Function.update s.live q (some .buffer) mem = _
        rw [Function.update_of_ne hmq, h.2.1]
      have hs := h.1.allocated hq .buffer
      refine ⟨⟨hs.clean.live, hs.clean.frees⟩, ?_⟩
      show Owns (s.allocated .buffer q).live ((s.allocated .buffer q).setMem mem
        { s.mems mem with ptr := q, size := size }).ref Holder.kind
      have hvalue : (if (s.allocated .buffer q).live mem = some .mem ∧
          ¬ memNeedUseHost { s.mems mem with ptr := q, size := size } then q else 0) = q :=
        if_pos ⟨hlive, huse⟩
      have howns := hs.owns
      rw [ref_allocated hq.2.1] at howns
      rw [ref_setMem, hvalue, ref_allocated hq.2.1]
      exact howns.put h.ref (Function.update_self ..) (h.1.owns.ref_ne hq.2.1 hq.1)

/-- A live buffer with memory of its own is released with it. -/
theorem wp_inClReleaseMemObject (h : s.Sound env) (hmem : s.live mem = some .mem)
    (huse : ¬ memNeedUseHost (s.mems mem)) :
    Exec.wp (inClReleaseMemObject mem) (fun _ s' => s'.Sound env) (fun _ s' => s'.Sound env) s := by
  have hfree {s₁ : Heap} (h₁ : s₁.MemSound env mem) :
      Exec.wp (memFree mem) (fun _ s' => s'.Sound env) (fun _ s' => s'.Sound env) s₁ := by
    rw [memFree, Exec.wp_bind, wp_require]
    refine ⟨fun _ => ?_, fun _ => h₁.1⟩
    refine h₁.1.freeObject h₁.2.1 (Or.inl rfl) fun i hi => ?_
    cases i with
    | buffer p =>
      obtain rfl : p = mem := hi
      exact h₁.ref
    | name p =>
      obtain rfl : p = mem := hi
      exact if_neg fun h => by rw [h₁.2.1] at h; cases h
    | args p =>
      obtain rfl : p = mem := hi
      exact if_neg fun h => by rw [h₁.2.1] at h; cases h
  rw [inClReleaseMemObject, Exec.wp_bind, wp_require]
  refine ⟨fun hvalid => ?_, fun _ => h⟩
  rw [Exec.wp_bind, Exec.wp_attempt, memFreeBuffer, Exec.wp_bind, wp_require]
  refine ⟨fun _ => ?_, fun hbad => absurd hvalid hbad⟩
  rw [Exec.wp_bind, Exec.wp_gets]
  refine Exec.wp_ite.mpr ⟨fun hptr => ?_, fun hptr => hfree ⟨h, hmem, not_not.mp hptr⟩⟩
  have href : s.ref (.buffer mem) = (s.mems mem).ptr := if_pos ⟨hmem, huse⟩
  have hlive : s.live (s.mems mem).ptr = some .buffer := by
    rw [← href]
    exact h.owns.live_ref _ (by rwa [href])
  have hmem' : (s.freed (s.mems mem).ptr).live mem = some .mem := by
    show Function.update s.live (s.mems mem).ptr none mem = _
    rw [Function.update_of_ne (ne_of_live hmem hlive (by decide)), hmem]
  let emptied := (s.freed (s.mems mem).ptr).setMem mem { s.mems mem with ptr := 0, size := 0 }
  refine show Exec.wp (memFree mem) _ _ emptied from hfree
    ⟨⟨⟨(h.clean.freed hlive).live, (h.clean.freed hlive).frees⟩, ?_⟩, hmem', ?_⟩
  · have hdrop := h.owns.drop (.buffer mem)
    rw [href] at hdrop
    rw [ref_setMem, ref_freed (ref_of_live hlive (by decide) (by decide)), ite_self]
    exact hdrop
  · show (Function.update s.mems mem _ mem).ptr = 0
    rw [Function.update_self]

theorem wp_inClCreateBuffer (h : s.Sound env) (context : Ptr) (flags size : UInt64) (hostPtr : Ptr) :
    Exec.wp (inClCreateBuffer env context flags size hostPtr) (fun _ s' => s'.Sound env)
      (fun _ s' => s'.Sound env) s := by
  rw [inClCreateBuffer]
  refine Exec.wp_ite.mpr ⟨fun _ => h, fun _ => Exec.wp_ite.mpr ⟨fun _ => h, fun _ => ?_⟩⟩
  refine Exec.wp_ite.mpr ⟨fun _ => h, fun _ => Exec.wp_ite.mpr ⟨fun _ => h, fun _ => ?_⟩⟩
  rw [Exec.wp_bind, wp_require]
  refine ⟨fun _ => ?_, fun _ => h⟩
  refine (Exec.wp_bind ..).mpr ((wp_memAlloc h context).mono (fun mem s₁ h₁ => ?_) (fun _ _ => id))
  refine (Exec.wp_bind ..).mpr ((wp_memSetAttr h₁ _).mono (fun _ s₂ h₂ => ?_) (fun _ _ => id))
  exact (Exec.wp_bind ..).mpr ((wp_memAllocBuffer h₂ size hostPtr).mono (fun _ _ => id) (fun _ _ => id))

theorem wp_inClSetKernelArg (h : s.KernSound env kern) (argIndex : UInt32) (argSize : UInt64)
    (argValue : Ptr) :
    Exec.wp (inClSetKernelArg env kern argIndex argSize argValue) (fun _ s' => s'.Sound env)
      (fun _ s' => s'.Sound env) s := by
  have hset {s₁ : Heap} (h₁ : s₁.KernSound env kern) (arg : KernArg) :
      Exec.wp (kernSetArg kern argIndex arg) (fun _ s' => s'.Sound env) (fun _ s' => s'.Sound env) s₁ := by
    rw [kernSetArg, Exec.wp_bind, wp_require]
    refine ⟨fun _ => ?_, fun _ => h₁.1⟩
    rw [Exec.wp_bind, Exec.wp_gets]
    refine Exec.wp_ite.mpr ⟨fun _ => h₁.1, fun _ => ?_⟩
    exact ⟨⟨h₁.1.clean.live, h₁.1.clean.frees⟩, h₁.1.owns⟩
  rw [inClSetKernelArg]
  refine Exec.wp_ite.mpr ⟨fun _ => h.1, fun _ => ?_⟩
  rw [Exec.wp_bind, wp_require]
  refine ⟨fun _ => ?_, fun _ => h.1⟩
  rw [Exec.wp_bind, Exec.wp_gets]
  refine Exec.wp_ite.mpr ⟨fun _ => ?_, fun _ => hset h _⟩
  exact (Exec.wp_bind ..).mpr ((wp_kernSetNumArgs h _).mono (fun _ _ h₁ => hset h₁ _) (fun _ _ h₁ => h₁.1))

theorem wp_inClReleaseKernel (h : s.KernSound env kern) :
    Exec.wp (inClReleaseKernel kern) (fun _ s' => s'.Sound env) (fun _ s' => s'.Sound env) s := by
  rw [inClReleaseKernel, Exec.wp_bind, wp_require]
  exact ⟨fun _ => wp_kernFree h, fun _ => h.1⟩

theorem wp_kernAlloc (h : s.Sound env) (prg : Ptr) :
    Exec.wp (kernAlloc env prg) (fun kern s' => s'.KernSound env kern)
      (fun _ s' => s'.Sound env ∧ s'.magic = s.magic ∧
        (prgHandleIsValid s prg ≠ clSuccess ∨ env.calloc s = none)) s := by
  rw [kernAlloc, Exec.wp_bind, wp_require]
  refine ⟨fun _ => ?_, fun hbad => ⟨h, rfl, Or.inl hbad⟩⟩
  rw [Exec.wp_bind]
  cases hcalloc : env.calloc s with
  | none =>
    have hrun : calloc env .kern s = (.ok none, { s with tries := s.tries + 1 }) := by
      unfold calloc
      rw [hcalloc]
    exact (Exec.wp_of_ok hrun).mpr ⟨⟨⟨h.clean.live, h.clean.frees⟩, h.owns⟩, rfl, Or.inr rfl⟩
  | some q =>
    have hrun : calloc env .kern s = (.ok (some q), s.allocated .kern q) := by
      unfold calloc
      rw [hcalloc]
    refine (Exec.wp_of_ok hrun).mpr ?_
    have hq := env.fresh s q hcalloc
    have hs := h.allocated hq .kern
    have hlive : (s.allocated .kern q).live q = some .kern := Function.update_self ..
    refine ⟨⟨⟨hs.clean.live, hs.clean.frees⟩, ?_⟩, hlive⟩
    -- the fields of the new kernel are empty, as its memory was
    have hempty {i : Holder} (hi : i.object = q) : 0 = (s.allocated .kern q).ref i := by
      rw [ref_allocated hq.2.1]
      exact (ref_eq_zero (hi ▸ hq.2.1)).symm
    have hname : Function.update (s.allocated .kern q).ref (.name q) 0 = (s.allocated .kern q).ref :=
      Function.update_eq_iff.mpr ⟨hempty rfl, fun _ _ => rfl⟩
    have hargs : Function.update (s.allocated .kern q).ref (.args q) 0 = (s.allocated .kern q).ref :=
      Function.update_eq_iff.mpr ⟨hempty rfl, fun _ _ => rfl⟩
    have hsame : ((s.allocated .kern q).setKern q ⟨prg, 0, 0, 0⟩).ref = (s.allocated .kern q).ref := by
      simp only [ref_setKern, ite_self, hname, hargs]
    show Owns (s.allocated .kern q).live ((s.allocated .kern q).setKern q ⟨prg, 0, 0, 0⟩).ref Holder.kind
    rw [hsame]
    exact hs.owns

/-- A kernel is created, or it fails with nothing in the local that looks like a kernel. -/
theorem wp_inClCreateKernel (h : s.Sound env) (program : Ptr) (kernelName : Option CStr)
    (hstack : kernelName = none ∨ prgHandleIsValid s program ≠ clSuccess ∨ env.calloc s = none →
      kernHandleIsValid s (env.stack s) ≠ clSuccess) :
    Exec.wp (inClCreateKernel env program kernelName) (fun _ s' => s'.Sound env)
      (fun _ s' => s'.Sound env) s := by
  -- `err_out` with nothing in the local
  have hrefused {s₁ : Heap} (h₁ : s₁.Sound env) (hmagic : s₁.magic = s.magic)
      (hbad : kernHandleIsValid s (env.stack s) ≠ clSuccess) (r : ClInt) :
      Exec.wp (do let _ ← Exec.attempt (kernFree (env.stack s)); (Exec.exit r : Own Ptr))
        (fun _ s' => s'.Sound env) (fun _ s' => s'.Sound env) s₁ := by
    have hbad₁ : kernHandleIsValid s₁ (env.stack s) ≠ clSuccess := by
      rw [kernHandleIsValid, hmagic]
      exact hbad
    rw [Exec.wp_bind, Exec.wp_attempt, kernFree, Exec.wp_bind, wp_require]
    exact ⟨fun hvalid => absurd hvalid hbad₁, fun _ => h₁⟩
  -- `err_out` with the kernel
  have hfreed {s₁ : Heap} {kern : Ptr} (h₁ : s₁.KernSound env kern) (r : ClInt) :
      Exec.wp (do let _ ← Exec.attempt (kernFree kern); (Exec.exit r : Own Ptr))
        (fun _ s' => s'.Sound env) (fun _ s' => s'.Sound env) s₁ :=
    (Exec.wp_bind ..).mpr ((Exec.wp_attempt _).mpr ((wp_kernFree h₁).mono (fun _ _ => id) (fun _ _ => id)))
  rw [inClCreateKernel, Exec.wp_bind, Exec.wp_gets]
  cases kernelName with
  | none => exact hrefused h rfl (hstack (Or.inl rfl)) _
  | some name =>
    refine (Exec.wp_bind ..).mpr ((Exec.wp_attempt _).mpr ((Exec.wp_bind ..).mpr (wp_require.mpr
      ⟨fun _ => ?_, fun hbad => hrefused h rfl (hstack (Or.inr (Or.inl hbad))) _⟩)))
    refine (wp_kernAlloc h program).mono (fun kern s₁ h₁ => ?_)
      (fun r s₁ h₁ => hrefused h₁.1 h₁.2.1 (hstack (Or.inr h₁.2.2)) r)
    refine (Exec.wp_bind ..).mpr ((Exec.wp_attempt _).mpr ((Exec.wp_bind ..).mpr ?_))
    refine (wp_kernSetName h₁ name).mono (fun _ s₂ h₂ => ?_) (fun r _ h₂ => hfreed h₂ r)
    exact (wp_kernSetNumArgs h₂ 0).mono (fun _ _ h₃ => h₃.1) (fun r _ h₃ => hfreed h₃ r)

end Ownership

/-! ## Whole runs -/

/-- A call of one of the entry points, with any arguments. -/
inductive OwnCall where
  | createBuffer (context : Ptr) (flags size : UInt64) (hostPtr : Ptr)
  | releaseMemObject (memobj : Ptr)
  | createKernel (program : Ptr) (kernelName : Option CStr)
  | setKernelArg (kernel : Ptr) (argIndex : UInt32) (argSize : UInt64) (argValue : Ptr)
  | releaseKernel (kernel : Ptr)

/-- The heap behind a call, whatever the call returned. -/
def OwnCall.after (env : Env) (s : Heap) : OwnCall → Heap
  | .createBuffer context flags size hostPtr => (inClCreateBuffer env context flags size hostPtr s).2
  | .releaseMemObject memobj => (inClReleaseMemObject memobj s).2
  | .createKernel program kernelName => (inClCreateKernel env program kernelName s).2
  | .setKernelArg kernel argIndex argSize argValue =>
    (inClSetKernelArg env kernel argIndex argSize argValue s).2
  | .releaseKernel kernel => (inClReleaseKernel kernel s).2

/-- The state behind a run of calls, whatever they returned. -/
def ownAll (env : Env) (calls : List OwnCall) (s : Heap) : Heap := calls.foldl (OwnCall.after env) s

/-- A handle that is accepted was given out and is not released yet; a buffer that is released has
memory of its own; and a kernel whose creation fails early does so with nothing in the uninitialised
local that would be accepted as a kernel. -/
def OwnCall.Careful (env : Env) (s : Heap) : OwnCall → Prop
  | .createBuffer .. => True
  | .releaseMemObject memobj => memHandleIsValid s memobj = clSuccess →
    s.live memobj = some .mem ∧ ¬ memNeedUseHost (s.mems memobj)
  | .createKernel program kernelName =>
    kernelName = none ∨ prgHandleIsValid s program ≠ clSuccess ∨ env.calloc s = none →
      kernHandleIsValid s (env.stack s) ≠ clSuccess
  | .setKernelArg kernel _ _ _ => kernHandleIsValid s kernel = clSuccess → s.live kernel = some .kern
  | .releaseKernel kernel => kernHandleIsValid s kernel = clSuccess → s.live kernel = some .kern

/-- Every call of the run is careful in the state where it is made. -/
def Careful (env : Env) : List OwnCall → Heap → Prop
  | [], _ => True
  | c :: cs, s => c.Careful env s ∧ Careful env cs (c.after env s)

/-- One call keeps what is owned. -/
theorem OwnCall.sound {env : Env} {s : Heap} (h : s.Sound env) (c : OwnCall) (hc : c.Careful env s) :
    (c.after env s).Sound env := by
  cases c with
  | createBuffer context flags size hostPtr =>
    exact Exec.wp_state.mp (wp_inClCreateBuffer h context flags size hostPtr)
  | releaseMemObject memobj =>
    by_cases hvalid : memHandleIsValid s memobj = clSuccess
    · obtain ⟨hlive, huse⟩ := hc hvalid
      exact Exec.wp_state.mp (wp_inClReleaseMemObject h hlive huse)
    · refine Exec.wp_state.mp ?_
      rw [inClReleaseMemObject, Exec.wp_bind, wp_require]
      exact ⟨fun hok => absurd hok hvalid, fun _ => h⟩
  | createKernel program kernelName =>
    exact Exec.wp_state.mp (wp_inClCreateKernel h program kernelName hc)
  | setKernelArg kernel argIndex argSize argValue =>
    by_cases hvalid : kernHandleIsValid s kernel = clSuccess
    · exact Exec.wp_state.mp (wp_inClSetKernelArg ⟨h, hc hvalid⟩ argIndex argSize argValue)
    · refine Exec.wp_state.mp ?_
      rw [inClSetKernelArg]
      refine Exec.wp_ite.mpr ⟨fun _ => h, fun _ => ?_⟩
      rw [Exec.wp_bind, wp_require]
      exact ⟨fun hok => absurd hok hvalid, fun _ => h⟩
  | releaseKernel kernel =>
    by_cases hvalid : kernHandleIsValid s kernel = clSuccess
    · exact Exec.wp_state.mp (wp_inClReleaseKernel ⟨h, hc hvalid⟩)
    · refine Exec.wp_state.mp ?_
      rw [inClReleaseKernel, Exec.wp_bind, wp_require]
      exact ⟨fun hok => absurd hok hvalid, fun _ => h⟩

theorem sound_ownAll {env : Env} (calls : List OwnCall) : ∀ {s : Heap}, s.Sound env →
    Careful env calls s → (ownAll env calls s).Sound env := by
  induction calls with
  | nil => exact fun h _ => h
  | cons c calls ih => exact fun h hc => ih (c.sound h hc.1) hc.2

/-- **Only what is owned is freed.** In a run of careful calls, every block that is passed to `free` is
live then, and none is the memory of the host. -/
theorem frees_owned (env : Env) (s : Heap) (hlive : ∀ p, s.live p = none) (hfrees : s.frees = [])
    (calls : List OwnCall) (hcalls : Careful env calls s) :
    ∀ e ∈ (ownAll env calls s).frees, e.2.isSome ∧ env.host e.1 = false := by
  have hempty (i : Holder) : s.ref i = 0 := ref_eq_zero (hlive _)
  refine (sound_ownAll calls ⟨⟨fun p k hp => ?_, fun e he => ?_⟩, ?_, ?_⟩ hcalls).clean.frees
  · rw [hlive] at hp
    cases hp
  · rw [hfrees] at he
    cases he
  · exact fun i hi => absurd (hempty i) hi
  · exact fun i j hi => absurd (hempty i) hi

/-! ## A small process -/

/-- Blocks of 64 bytes from `0x1000` on, one after the other; the host's memory is below. -/
def bumpEnv (stack : Ptr) : Env where
  host p := p < 0x1000
  calloc s := if s.live (0x1000 + 64 * s.tries) = none then some (0x1000 + 64 * s.tries) else none
  fresh s p h := by
    split at h
    · next hnone =>
      obtain rfl := Option.some.inj h
      have hle : 0x1000 ≤ 0x1000 + 64 * s.tries := Nat.le_add_right ..
      exact ⟨Nat.ne_of_gt (Nat.lt_of_lt_of_le (by decide) hle), hnone,
        decide_eq_false (Nat.not_lt.mpr hle)⟩
    · cases h
  stack _ := stack

/-- A heap with nothing on it but a context and a program at `8`. -/
def bareHeap : Heap :=
  ⟨fun _ => none, [], 0, fun p => if p = 8 then openclIcdMagic else 0, fun _ => ⟨0, 0, 0⟩,
    fun _ => ⟨0, 0, 0, 0⟩, fun _ => [], fun _ => 0⟩

/-- A buffer with a copy of the host's bytes, and a kernel with two arguments, one of which grows the
array of the other. -/
theorem bareHeap_frees :
    let calls : List OwnCall :=
      [.createBuffer 8 33 16 0x100, .createKernel 8 (some ⟨[107], by decide, by decide⟩),
        .setKernelArg 0x1080 0 4 0x200, .setKernelArg 0x1080 1 8 0x208, .releaseMemObject 0x1000,
        .releaseKernel 0x1080]
    (ownAll (bumpEnv 0) calls bareHeap).frees.length = 6 ∧
      ∀ e ∈ (ownAll (bumpEnv 0) calls bareHeap).frees, e.2.isSome ∧ (bumpEnv 0).host e.1 = false :=
  ⟨by decide +kernel,
    frees_owned (bumpEnv 0) bareHeap (fun _ => rfl) rfl _
      ⟨trivial, fun _ => by decide +kernel, fun _ => by decide +kernel, fun _ => by decide +kernel,
        fun _ => by decide +kernel, fun _ => by decide +kernel, trivial⟩⟩

/-- Two ways out of it.  The memory of the host is freed with the buffer that was given it, and a
kernel that was released is freed again when the local that nothing has set still holds its address. -/
theorem hostMemory_freed :
    (ownAll (bumpEnv 0) [.createBuffer 8 9 16 0x100, .releaseMemObject 0x1000] bareHeap).frees =
        [(0x100, none), (0x1000, some .mem)] ∧ (bumpEnv 0).host 0x100 = true ∧
      (ownAll (bumpEnv 0x1000) [.createKernel 8 (some ⟨[107], by decide, by decide⟩), .releaseKernel 0x1000,
        .createKernel 8 none] bareHeap).frees =
        [(0x1040, some .name), (0x1000, some .kern), (0x1000, none)] := by
  decide +kernel

end BaremetalCrt
