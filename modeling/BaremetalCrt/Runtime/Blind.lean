/-
# BaremetalCrt.Runtime.Blind — the objects of the runtime do not depend on the bytes in memory.

Two heaps that differ in plain bytes only go in lockstep through the functions of `Runtime.Handles`: they
return the same handles and codes, and keep the same blocks and objects.  The one place where bytes get
into an object is `in_clSetKernelArg` with a value of the size of a pointer, which is read in the call.

Buffers with a copy of the host's bytes are no exception: the copy is bytes again, and no object looks at
it. So what a run of calls makes of the objects is the same over any two memories in which these arguments
are the same, which is what the comparison of two runs is built on.
-/
import BaremetalCrt.Lib.Lockstep
import BaremetalCrt.Runtime.Handles

namespace BaremetalCrt

open Lib Exec

/-- The same blocks and objects over other bytes. -/
def Heap.withBytes (s : Heap) (b : ByteMap) : Heap := { s with bytes := b }

/-- The allocator and the stack know nothing of what the memory holds. -/
structure Env.Blind (env : Env) : Prop where
  calloc : ∀ s b, env.calloc (s.withBytes b) = env.calloc s
  stack : ∀ s b, env.stack (s.withBytes b) = env.stack s

section Functions

variable {env : Env} (henv : env.Blind)

theorem blind_require {f : Heap → ClInt} (hf : ∀ s b, f (s.withBytes b) = f s) :
    Blind Heap.withBytes (require f) := .answer fun s b => congrArg check (hf s b)

include henv in
/-- An allocation goes the same way. -/
theorem blind_calloc (k : BlockKind) : Blind Heap.withBytes (calloc env k) := by
  rintro s s' ⟨b, rfl⟩
  unfold calloc
  rw [henv.calloc]
  cases env.calloc s with
  | none => exact ⟨rfl, b, rfl⟩
  | some p => exact ⟨rfl, b, rfl⟩

theorem blind_free (p : Ptr) : Blind Heap.withBytes (free p) := Blind.modify fun _ b => ⟨b, rfl⟩

/-! ## Memory objects -/

include henv in
theorem blind_memAlloc (ctx : Ptr) : Blind Heap.withBytes (memAlloc env ctx) := by
  refine (blind_require fun _ _ => rfl).bind fun _ => (blind_calloc henv _).bind fun block => ?_
  cases block with
  | none => exact .exit _
  | some t => exact Blind.bind (.modify fun _ b => ⟨b, rfl⟩) fun _ => .pure _

theorem blind_memFree (mem : Ptr) : Blind Heap.withBytes (memFree mem) :=
  (blind_require fun _ _ => rfl).bind fun _ => blind_free mem

theorem blind_memSetAttr (mem : Ptr) (flags : UInt64) : Blind Heap.withBytes (memSetAttr mem flags) :=
  (blind_require fun _ _ => rfl).bind fun _ => Blind.modify fun _ b => ⟨b, rfl⟩

include henv in
/-- What the buffer is filled with is not part of the object. -/
theorem blind_memAllocBuffer (mem : Ptr) (size : UInt64) (ptr : Ptr) :
    Blind Heap.withBytes (memAllocBuffer env mem size ptr) := by
  refine (blind_require fun _ _ => rfl).bind fun _ => Blind.gets_bind (fun _ _ => rfl) fun m => ?_
  refine .ite (.exit _) (.ite (Blind.modify fun _ b => ⟨b, rfl⟩) ?_)
  refine (blind_calloc henv _).bind fun block => ?_
  cases block with
  | none => exact Blind.bind (.modify fun _ b => ⟨b, rfl⟩) fun _ => .exit _
  | some p => exact Blind.modify fun _ _ => ⟨_, rfl⟩

theorem blind_memFreeBuffer (mem : Ptr) : Blind Heap.withBytes (memFreeBuffer mem) := by
  refine (blind_require fun _ _ => rfl).bind fun _ => Blind.gets_bind (fun _ _ => rfl) fun m => ?_
  exact Blind.ite ((blind_free _).bind fun _ => .modify fun _ b => ⟨b, rfl⟩) (.pure _)

/-! ## Kernels -/

include henv in
theorem blind_kernAlloc (prg : Ptr) : Blind Heap.withBytes (kernAlloc env prg) := by
  refine (blind_require fun _ _ => rfl).bind fun _ => (blind_calloc henv _).bind fun block => ?_
  cases block with
  | none => exact .exit _
  | some t => exact Blind.bind (.modify fun _ b => ⟨b, rfl⟩) fun _ => .pure _

theorem blind_kernDropName (kern : Ptr) : Blind Heap.withBytes (kernDropName kern) :=
  Blind.gets_bind (fun _ _ => rfl) fun _ =>
    Blind.ite ((blind_free _).bind fun _ => .modify fun _ b => ⟨b, rfl⟩) (.pure _)

theorem blind_kernDropArgs (kern : Ptr) : Blind Heap.withBytes (kernDropArgs kern) :=
  Blind.gets_bind (fun _ _ => rfl) fun _ =>
    Blind.ite ((blind_free _).bind fun _ => .modify fun _ b => ⟨b, rfl⟩) (.pure _)

theorem blind_kernFree (kern : Ptr) : Blind Heap.withBytes (kernFree kern) := by
  refine (blind_require fun _ _ => rfl).bind fun _ => ?_
  refine (blind_kernDropName kern).bind fun _ => ?_
  exact (blind_kernDropArgs kern).bind fun _ => blind_free kern

include henv in
theorem blind_kernSetName (kern : Ptr) (name : CStr) :
    Blind Heap.withBytes (kernSetName env kern name) := by
  refine (blind_require fun _ _ => rfl).bind fun _ => (blind_kernDropName kern).bind fun _ => ?_
  refine (blind_calloc henv _).bind fun block => ?_
  cases block with
  | none => exact .pure _
  | some p => exact Blind.modify fun _ _ => ⟨_, rfl⟩

include henv in
theorem blind_kernSetNumArgs (kern : Ptr) (num : UInt32) :
    Blind Heap.withBytes (kernSetNumArgs env kern num) := by
  refine (blind_require fun _ _ => rfl).bind fun _ => .ite ?_ ?_
  · exact (blind_kernDropArgs kern).bind fun _ => Blind.modify fun _ b => ⟨b, rfl⟩
  · refine (blind_calloc henv _).bind fun block => ?_
    cases block with
    | none => exact .exit _
    | some args =>
      refine Blind.gets_bind (fun _ _ => rfl) fun k => Blind.bind (.modify fun _ b => ⟨b, rfl⟩) fun _ => ?_
      exact Blind.bind (.ite (.pure _) (blind_free _)) fun _ => Blind.modify fun _ b => ⟨b, rfl⟩

theorem blind_kernSetArg (kern : Ptr) (i : UInt32) (arg : KernArg) :
    Blind Heap.withBytes (kernSetArg kern i arg) := by
  refine (blind_require fun _ _ => rfl).bind fun _ => Blind.gets_bind (fun _ _ => rfl) fun k => ?_
  exact Blind.refuse (.modify fun _ b => ⟨b, rfl⟩)

/-! ## The entry points -/

include henv in
theorem blind_inClCreateBuffer (context : Ptr) (flags size : UInt64) (hostPtr : Ptr) :
    Blind Heap.withBytes (inClCreateBuffer env context flags size hostPtr) := by
  refine Blind.refuse (Blind.refuse (Blind.refuse (Blind.refuse ?_)))
  refine (blind_require fun _ _ => rfl).bind fun _ => (blind_memAlloc henv _).bind fun mem => ?_
  refine (blind_memSetAttr mem _).bind fun _ => (blind_memAllocBuffer henv mem _ _).bind fun _ => ?_
  exact .pure _

theorem blind_inClReleaseMemObject (memobj : Ptr) : Blind Heap.withBytes (inClReleaseMemObject memobj) := by
  refine (blind_require fun _ _ => rfl).bind fun _ => ?_
  exact Blind.bind (blind_memFreeBuffer memobj).attempt fun _ => blind_memFree memobj

include henv in
theorem blind_inClCreateKernel (program : Ptr) (kernelName : Option CStr) :
    Blind Heap.withBytes (inClCreateKernel env program kernelName) := by
  have herr (kern : Ptr) (r : ClInt) :
      Blind Heap.withBytes (attempt (kernFree kern) >>= fun _ => (exit r : Own Ptr)) :=
    (blind_kernFree kern).attempt.bind fun _ => .exit _
  refine Blind.gets_bind henv.stack fun garbage => ?_
  cases kernelName with
  | none => exact herr _ _
  | some name =>
    refine (Blind.attempt ?_).bind fun out => ?_
    · exact (blind_require fun _ _ => rfl).bind fun _ => blind_kernAlloc henv program
    cases out with
    | error r => exact herr _ _
    | ok kern =>
      refine (Blind.attempt ?_).bind fun out => ?_
      · exact (blind_kernSetName henv kern name).bind fun _ => blind_kernSetNumArgs henv kern 0
      cases out with
      | error r => exact herr _ _
      | ok _ => exact .pure _

include henv in
/-- The heaps hold the same value of the size of a pointer. -/
def SameHandle (argSize : UInt64) (argValue : Ptr) (s s' : Heap) : Prop :=
  UpTo Heap.withBytes s s' ∧ (argSize = 8 → s'.bytes.load argValue 8 = s.bytes.load argValue 8)

include henv in
/-- **The value of the size of a pointer** is read in the call; of any other only the place is kept. -/
theorem lockstep_inClSetKernelArg (kernel : Ptr) (argIndex : UInt32) (argSize : UInt64) (argValue : Ptr) :
    Lockstep (SameHandle argSize argValue) (UpTo Heap.withBytes)
      (inClSetKernelArg env kernel argIndex argSize argValue)
      (inClSetKernelArg env kernel argIndex argSize argValue) := by
  unfold inClSetKernelArg
  by_cases hnull : argValue = 0
  · rw [if_pos hnull]
    exact fun _ _ hs => ⟨rfl, hs.1⟩
  rw [if_neg hnull]
  refine Lockstep.bind (Q := SameHandle argSize argValue) ?_ (fun _ _ hs => hs.1) fun _ => ?_
  · rintro s s' ⟨⟨b, rfl⟩, hload⟩
    exact ⟨rfl, ⟨b, rfl⟩, hload⟩
  rintro s s' ⟨⟨b, rfl⟩, hload⟩
  -- both go on with the same record
  have hrecord : (if argSize = 8 then
        (⟨commArgMem, 0, argSize, .addr (leNat ((s.withBytes b).bytes.load argValue 8))⟩ : KernArg)
      else ⟨commArgVal, 0, argSize, .addr argValue⟩) =
      if argSize = 8 then ⟨commArgMem, 0, argSize, .addr (leNat (s.bytes.load argValue 8))⟩
      else ⟨commArgVal, 0, argSize, .addr argValue⟩ := by
    by_cases hsize : argSize = 8
    · rw [if_pos hsize, if_pos hsize, hload hsize]
    · rw [if_neg hsize, if_neg hsize]
  rw [bind_ok (gets_apply ..), bind_ok (gets_apply ..)]
  simp only [id_eq, hrecord]
  have htail (c : Prop) [Decidable c] (arg : KernArg) : Blind Heap.withBytes
      (if c then kernSetNumArgs env kernel (argIndex + 1) >>= fun _ => kernSetArg kernel argIndex arg
        else kernSetArg kernel argIndex arg) :=
    .ite ((blind_kernSetNumArgs henv _ _).bind fun _ => blind_kernSetArg _ _ _) (blind_kernSetArg _ _ _)
  exact htail _ _ s _ ⟨b, rfl⟩

theorem blind_inClReleaseKernel (kernel : Ptr) : Blind Heap.withBytes (inClReleaseKernel kernel) :=
  (blind_require fun _ _ => rfl).bind fun _ => blind_kernFree kernel

end Functions

end BaremetalCrt
