/-
# BaremetalCrt.Api.Capture — two runs of the host.

Two processes that differ in the bytes of their memory stay so through a call: the objects go on alike,
as long as the call is made with the same inputs and, if it is a launch, finds the same bytes behind the
pointers that it sends from.

What counts as the same is said by `Host.Alike` for the objects and by `SameSources` for the bytes a launch
sends. The calls are taken one by one: those on buffers and kernels by `Runtime.Blind`, the creation of a
program by what the loader reads (`Elf.Reads`), the launch by `Launch.Capture`.
-/
import BaremetalCrt.Api.Process
import BaremetalCrt.Elf.Bounds
import BaremetalCrt.Elf.Reads
import BaremetalCrt.Launch.Capture
import BaremetalCrt.Runtime.Blind

namespace BaremetalCrt

open Lib Exec

variable {δ : Type}

/-! ## What does not see the bytes -/

/-- The same objects over other bytes: what the host is when the program has written to its own memory. -/
def Host.withBytes (h : Host δ) (b : ByteMap) : Host δ := { h with bytes := b }

theorem Process.host_alike (p : Process δ) (b : ByteMap) : p.host.Alike (p.withBytes b).host :=
  ⟨rfl, rfl, rfl, rfl, rfl, rfl⟩

section Functions

variable {α : Type} {env : Env} {allocs : Heap → Allocs}

theorem blind_expect {f : Process δ → ClInt} (hf : ∀ p b, f (p.withBytes b) = f p) :
    Blind Process.withBytes (expect f) := .answer fun p b => by rw [hf]

/-- A function over the heap, in the process. -/
theorem lockstep_ofOwn {P : Heap → Heap → Prop} {m : Own α} (hm : Lockstep P (UpTo Heap.withBytes) m m) :
    Lockstep (fun p p' : Process δ => UpTo Process.withBytes p p' ∧ P p.heap p'.heap)
      (UpTo Process.withBytes) (ofOwn m) (ofOwn m) := by
  rintro p p' ⟨⟨b, rfl⟩, hp⟩
  obtain ⟨hret, c, hend⟩ := hm p.heap (p.withBytes b).heap hp
  refine ⟨congrArg (Except.mapError LoadStop.ret) hret, c, ?_⟩
  show { p.withBytes b with heap := (m (p.withBytes b).heap).2 } = _
  rw [hend]
  rfl

theorem blind_ofOwn {m : Own α} (hm : Blind Heap.withBytes m) :
    Blind (Process.withBytes (δ := δ)) (ofOwn m) := by
  refine (lockstep_ofOwn hm).mono (fun p p' hp => ?_) fun _ _ h => h
  obtain ⟨b, rfl⟩ := hp
  exact ⟨⟨b, rfl⟩, b, rfl⟩

/-- A function that works on the memory alone leaves the objects alone. -/
theorem blind_ofHost {m : HostCall δ α} (hm : Blind Host.withBytes m) :
    Blind Process.withBytes (ofHost m) := by
  rintro p p' ⟨b, rfl⟩
  exact ⟨congrArg (Except.mapError LoadStop.ret) (hm p.host _ ⟨b, rfl⟩).1, _, rfl⟩

theorem blind_enqueue (a : Access) (queue mem : Ptr) (offset size : UInt64) (ptr : Ptr) :
    Blind Host.withBytes (a.enqueue queue mem offset size ptr : HostCall δ Unit) := by
  have hrequire {f : Host δ → ClInt} (hf : ∀ h b, f (h.withBytes b) = f h) :
      Blind Host.withBytes (requireHost f) := .answer fun h b => by rw [hf]
  cases a with
  | read =>
    refine (hrequire fun _ _ => rfl).bind fun _ => (hrequire fun _ _ => rfl).bind fun _ => ?_
    refine (hrequire fun _ _ => rfl).bind fun _ => Blind.gets_bind (fun _ _ => rfl) fun m => ?_
    exact Blind.refuse (.modify fun _ _ => ⟨_, rfl⟩)
  | write =>
    refine (hrequire fun _ _ => rfl).bind fun _ => (hrequire fun _ _ => rfl).bind fun _ => ?_
    refine (hrequire fun _ _ => rfl).bind fun _ => Blind.gets_bind (fun _ _ => rfl) fun m => ?_
    exact Blind.refuse (.modify fun _ _ => ⟨_, rfl⟩)

/-! ## Objects -/

variable (henv : env.Blind)

include henv in
theorem blind_objectAlloc {valid : Process δ → ClInt} {init : Ptr → Process δ → Process δ}
    (hvalid : ∀ p b, valid (p.withBytes b) = valid p)
    (hinit : ∀ t p b, init t (p.withBytes b) = (init t p).withBytes b) :
    Blind Process.withBytes (objectAlloc env valid init) := by
  refine (blind_expect hvalid).bind fun _ => (blind_ofOwn (blind_calloc henv _)).bind fun block => ?_
  cases block with
  | none => exact .exit _
  | some t => exact Blind.bind (.modify fun p b => ⟨b, hinit t (p.mark t) b⟩) fun _ => .pure _

theorem blind_objectFree {valid : Process δ → ClInt} (hvalid : ∀ p b, valid (p.withBytes b) = valid p)
    (obj : Ptr) : Blind Process.withBytes (objectFree valid obj) :=
  (blind_expect hvalid).bind fun _ => blind_ofOwn (blind_free obj)

theorem blind_checkDevices (bad : Nat → Bool) (devices : Nat → Ptr) (n : Nat) : ∀ i,
    Blind Process.withBytes (checkDevices bad devices i n : Api δ Unit) := by
  induction n with
  | zero => exact fun _ => .pure _
  | succ n ih => exact fun i => Blind.refuse ((blind_expect fun _ _ => rfl).bind fun _ => ih (i + 1))

include henv in
theorem blind_inClCreateContext (numDevices : UInt32) (devices : Option (Nat → Ptr))
    (pfnNotify userData : Ptr) : Blind (Process.withBytes (δ := δ))
      (inClCreateContext env numDevices devices pfnNotify userData) := by
  cases devices with
  | none => exact .exit _
  | some devices =>
    refine Blind.refuse (Blind.refuse ((blind_checkDevices _ _ _ _).bind fun _ => Blind.refuse ?_))
    exact blind_objectAlloc henv (fun _ _ => rfl) fun _ _ _ => rfl

theorem blind_inClReleaseContext (context : Ptr) :
    Blind (Process.withBytes (δ := δ)) (inClReleaseContext context) :=
  (blind_expect fun _ _ => rfl).bind fun _ => blind_objectFree (fun _ _ => rfl) context

include henv in
theorem blind_inClCreateCommandQueue (context device : Ptr) :
    Blind (Process.withBytes (δ := δ)) (inClCreateCommandQueueWithProperties env context device) := by
  refine (blind_expect fun _ _ => rfl).bind fun _ => (blind_expect fun _ _ => rfl).bind fun _ => ?_
  exact blind_objectAlloc henv (fun _ _ => rfl) fun _ _ _ => rfl

theorem blind_inClReleaseCommandQueue (commandQueue : Ptr) :
    Blind (Process.withBytes (δ := δ)) (inClReleaseCommandQueue commandQueue) := by
  refine (blind_expect fun _ _ => rfl).bind fun _ => ?_
  exact (blind_objectFree (fun _ _ => rfl) commandQueue).bind fun _ => .exit _

theorem blind_inClReleaseProgram (program : Ptr) :
    Blind (Process.withBytes (δ := δ)) (inClReleaseProgram program) :=
  (blind_expect fun _ _ => rfl).bind fun _ => blind_objectFree (fun _ _ => rfl) program

include henv in
theorem blind_createKernel (program : Ptr) (kernelName : Option CStr) :
    Blind (Process.withBytes (δ := δ)) (createKernel env program kernelName) := by
  refine (blind_ofOwn (blind_inClCreateKernel henv program kernelName)).bind fun kern => ?_
  refine Blind.bind (.modify fun p b => ⟨b, ?_⟩) fun _ => .pure _
  cases kernelName with
  | none => rfl
  | some name => rfl

/-! ## The load of a program -/

/-- Whatever a load of the binary reads is the same in both memories. -/
def BinaryArg.Same (arg : BinaryArg) (mem mem' : ByteMap) : Prop :=
  ∀ t ∈ (arg.inMemory mem).loadTouches .all, t.Same (arg.inMemory mem).view (arg.inMemory mem').view

theorem prgElfLoad_same {arg : BinaryArg} {mem mem' : ByteMap} (h : arg.Same mem mem') (a : Allocs)
    (prg : ClProgram) :
    prgElfLoad (arg.inMemory mem') a ⟨prg, []⟩ = prgElfLoad (arg.inMemory mem) a ⟨prg, []⟩ := by
  have hbuf : (arg.inMemory mem').buf = (arg.inMemory mem).buf := rfl
  refine (follows_prgElfLoad hbuf rfl a ⟨prg, []⟩).2 fun t ht => ?_
  by_cases hmagic : prg.magic = openclIcdMagic
  · rw [prgElfLoad_reads a ⟨prg, []⟩ hmagic] at ht
    exact h t (loadTouches_subset a ht)
  · -- a program that is not valid is refused before anything is read
    have hrefused : prgElfLoad (arg.inMemory mem) a ⟨prg, []⟩ = (.error (.ret clInvalidProgram), ⟨prg, []⟩) := by
      show (demand _ >>= _) _ = _
      rw [demand_bind, if_neg (show ¬ prg.magic = openclIcdMagic from hmagic), if_neg (by decide)]
    rw [hrefused] at ht
    cases ht

/-- The bytes of the memory stay as they are; the objects may change. -/
def SameBytes (p p' : Process δ) : Prop := p'.heap.bytes = p.heap.bytes

theorem keeps_expect (f : Process δ → ClInt) : Keeps SameBytes (expect f) := fun _ => rfl

theorem SameBytes.trans (p q r : Process δ) (h : SameBytes p q) (h' : SameBytes q r) : SameBytes p r :=
  Eq.trans h' h

theorem keeps_refuse {c : Prop} [Decidable c] {r : ClInt} {m : Api δ α} (hm : Keeps SameBytes m) :
    Keeps SameBytes (if c then quit r >>= fun (_ : PUnit) => m else m) :=
  .ite (.bind SameBytes.trans (fun _ => rfl) fun _ => hm) hm

theorem keeps_checkDevices (bad : Nat → Bool) (devices : Nat → Ptr) (n : Nat) : ∀ i,
    Keeps SameBytes (checkDevices bad devices i n : Api δ Unit) := by
  induction n with
  | zero => exact fun _ _ => rfl
  | succ n ih => exact fun i => keeps_refuse (.bind SameBytes.trans (keeps_expect _) fun _ => ih (i + 1))

theorem keeps_prgAlloc (ctx : Ptr) : Keeps SameBytes (prgAlloc env ctx : Api δ Ptr) := by
  refine .bind SameBytes.trans (keeps_expect _) fun _ => .bind SameBytes.trans (fun p => ?_) fun block => ?_
  · unfold SameBytes ofOwn calloc
    cases env.calloc p.heap <;> rfl
  · cases block with
    | none => exact fun _ => rfl
    | some t => exact fun _ => rfl

/-- The processes are the same but for their bytes, of which `Q` is known. -/
def UpToBytes (Q : ByteMap → ByteMap → Prop) (p p' : Process δ) : Prop :=
  UpTo Process.withBytes p p' ∧ Q p.heap.bytes p'.heap.bytes

/-- What does not see the bytes and keeps them knows as much of them as before. -/
theorem lockstep_upToBytes {Q : ByteMap → ByteMap → Prop} {m : Api δ α}
    (hm : Blind Process.withBytes m) (hkeep : Keeps SameBytes m) :
    Lockstep (UpToBytes Q) (UpToBytes Q) m m := by
  intro p p' hp
  obtain ⟨hret, hend⟩ := hm p p' hp.1
  exact ⟨hret, hend, by rw [hkeep p, hkeep p']; exact hp.2⟩

include henv in
/-- **A program is made of what the load reads** in the call. -/
theorem lockstep_createProgram (hallocs : ∀ s b, allocs (s.withBytes b) = allocs s) (context : Ptr)
    (numDevices : UInt32) (deviceList : Nat → Ptr) (binaries : Nat → BinaryArg) :
    Lockstep (UpToBytes (δ := δ) (binaries 0).Same) (UpTo Process.withBytes)
      (inClCreateProgramWithBinary env allocs context numDevices deviceList (some binaries))
      (inClCreateProgramWithBinary env allocs context numDevices deviceList (some binaries)) := by
  have hdone (p p' : Process δ) (hp : UpToBytes (binaries 0).Same p p') : UpTo Process.withBytes p p' := hp.1
  refine Lockstep.bind (lockstep_upToBytes (blind_expect fun _ _ => rfl) (keeps_expect _)) hdone fun _ => ?_
  refine Lockstep.bind (lockstep_upToBytes (blind_checkDevices _ _ _ _) (keeps_checkDevices _ _ _ _)) hdone
    fun _ => ?_
  have halloc : Blind Process.withBytes (prgAlloc env context : Api δ Ptr) :=
    blind_objectAlloc henv (fun _ _ => rfl) fun _ _ _ => rfl
  refine Lockstep.refuse hdone ?_
  refine Lockstep.bind (lockstep_upToBytes halloc (keeps_prgAlloc _)) hdone fun t => ?_
  refine Lockstep.bind (Q := UpTo Process.withBytes) (Lockstep.attempt ?_) (fun _ _ h => h) fun out => ?_
  · rintro p p' ⟨⟨b, rfl⟩, hsame⟩
    let load (q : Process δ) : Except LoadStop Unit × Loading :=
      prgElfLoad ((binaries 0).inMemory q.heap.bytes) (allocs q.heap) ⟨q.host.prgs t, []⟩
    have hrun (q : Process δ) : loadProgram allocs t (binaries 0) q =
        ((load q).1, { q with prgs := Function.update q.prgs t (load q).2.prg }) := rfl
    have hload : load (p.withBytes b) = load p := by
      show prgElfLoad _ (allocs (p.heap.withBytes b)) _ = _
      rw [hallocs]
      exact prgElfLoad_same hsame (allocs p.heap) (p.host.prgs t)
    rw [hrun, hrun, hload]
    exact ⟨rfl, b, rfl⟩
  · match out with
    | .ok _ => exact .pure _
    | .error .crash => exact .exit _
    | .error (.ret r) => exact Blind.bind (blind_objectFree (fun _ _ => rfl) t).attempt fun _ => .exit _

/-! ## The launch -/

/-- **A launch that finds the same sources** goes on alike. -/
theorem lockstep_enqueueNDRangeKernel (cmdq kernel : Ptr) :
    Lockstep
      (fun p p' : Process δ => UpTo Process.withBytes p p' ∧
        SameSources (kernGetProgram p.host kernel) kernel p.host p'.host)
      (UpTo Process.withBytes) (enqueueNDRangeKernel cmdq kernel) (enqueueNDRangeKernel cmdq kernel) := by
  rintro p p' ⟨⟨b, rfl⟩, hs⟩
  obtain ⟨-, hret, hhost, hdev⟩ := launch_alike cmdq p.dev (p.host_alike b) hs
  have hnameless : (p.withBytes b).Nameless kernel ↔ p.Nameless kernel := Iff.rfl
  unfold enqueueNDRangeKernel
  by_cases hnone : p.Nameless kernel
  · rw [if_pos hnone, if_pos (hnameless.mpr hnone)]
    exact ⟨rfl, b, rfl⟩
  · rw [if_neg hnone, if_neg (mt hnameless.mp hnone)]
    refine ⟨congrArg (fun r => (check r).mapError LoadStop.ret) hret,
      (clEnqueueNDRangeKernel cmdq kernel (p.withBytes b).host p.dev).host.bytes, ?_⟩
    show { (p.withBytes b).withBytes _ with
      prgs := (clEnqueueNDRangeKernel cmdq kernel (p.withBytes b).host p.dev).host.prgs
      dev := (clEnqueueNDRangeKernel cmdq kernel (p.withBytes b).host p.dev).dev } = _
    rw [hhost.prgs, hdev]
    rfl

end Functions

/-! ## One call -/

/-- What a call takes from the memory at once is the same in both: the binary, as far as a load reads it,
and a value of the size of a pointer. -/
def ApiCall.SameInputs (p p' : Process δ) : ApiCall → Prop
  | .createProgramWithBinary _ _ _ (some binaries) => (binaries 0).Same p.heap.bytes p'.heap.bytes
  | .setKernelArg _ _ argSize argValue =>
    argSize = 8 → p'.heap.bytes.load argValue 8 = p.heap.bytes.load argValue 8
  | _ => True

/-- What a launch sends of the caller's memory is the same in both. -/
def ApiCall.SameSources (p p' : Process δ) : ApiCall → Prop
  | .enqueueNDRangeKernel _ kernel =>
    BaremetalCrt.SameSources (kernGetProgram p.host kernel) kernel p.host p'.host
  | _ => True

/-- The writes to the device that a call makes. Only a launch makes any. -/
def ApiCall.ops (p : Process δ) : ApiCall → List DevOp
  | .enqueueNDRangeKernel commandQueue kernel => launchOps commandQueue kernel p.host p.dev
  | _ => []

section Call

variable {env : Env} {allocs : Heap → Allocs} (henv : env.Blind)
  (hallocs : ∀ s b, allocs (s.withBytes b) = allocs s)

theorem ApiCall.ops_alike {p : Process δ} {b : ByteMap} (c : ApiCall)
    (hs : c.SameSources p (p.withBytes b)) : c.ops (p.withBytes b) = c.ops p := by
  cases c with
  | enqueueNDRangeKernel cmdq kernel => exact (launch_alike _ _ (p.host_alike b) hs).1
  | _ => rfl

include henv hallocs in
/-- **A call keeps the processes alike**, and returns the same. -/
theorem ApiCall.run_alike {p p' : Process δ} (hp : UpTo Process.withBytes p p') (c : ApiCall)
    (hin : c.SameInputs p p') (hs : c.SameSources p p') :
    (c.run env allocs p').1 = (c.run env allocs p).1 ∧
      UpTo Process.withBytes (c.run env allocs p).2 (c.run env allocs p').2 := by
  have hreturn {m : Api δ Unit} (hm : Blind Process.withBytes m) :
      Blind Process.withBytes (m >>= fun _ => (pure 0 : Api δ Ptr)) := hm.bind fun _ => .pure _
  cases c with
  | createContext numDevices devices pfnNotify userData =>
    exact blind_inClCreateContext henv numDevices devices pfnNotify userData p p' hp
  | releaseContext context => exact hreturn (blind_inClReleaseContext context) p p' hp
  | createCommandQueue context device => exact blind_inClCreateCommandQueue henv context device p p' hp
  | releaseCommandQueue commandQueue => exact hreturn (blind_inClReleaseCommandQueue commandQueue) p p' hp
  | createProgramWithBinary context numDevices deviceList binaries =>
    cases binaries with
    | none => exact Blind.exit (LoadStop.ret clInvalidValue) p p' hp
    | some binaries =>
      exact lockstep_createProgram henv hallocs context numDevices deviceList binaries p p' ⟨hp, hin⟩
  | releaseProgram program => exact hreturn (blind_inClReleaseProgram program) p p' hp
  | createBuffer context flags size hostPtr =>
    exact blind_ofOwn (blind_inClCreateBuffer henv context flags size hostPtr) p p' hp
  | releaseMemObject memobj => exact hreturn (blind_ofOwn (blind_inClReleaseMemObject memobj)) p p' hp
  | createKernel program kernelName => exact blind_createKernel henv program kernelName p p' hp
  | setKernelArg kernel argIndex argSize argValue =>
    have hset := (lockstep_ofOwn (δ := δ)
      (lockstep_inClSetKernelArg henv kernel argIndex argSize argValue)).bind (fun _ _ h => h)
      fun _ => Lockstep.pure (0 : Ptr)
    obtain ⟨b, rfl⟩ := hp
    exact hset p _ ⟨⟨b, rfl⟩, ⟨b, rfl⟩, hin⟩
  | releaseKernel kernel => exact hreturn (blind_ofOwn (blind_inClReleaseKernel kernel)) p p' hp
  | enqueueBuffer a commandQueue buffer offset size ptr =>
    exact hreturn (blind_ofHost (blind_enqueue a commandQueue buffer offset size ptr)) p p' hp
  | enqueueNDRangeKernel commandQueue kernel =>
    have hlaunch := (lockstep_enqueueNDRangeKernel (δ := δ) commandQueue kernel).bind (fun _ _ h => h)
      fun _ => Lockstep.pure (0 : Ptr)
    exact hlaunch p p' ⟨hp, hs⟩

end Call

end BaremetalCrt
