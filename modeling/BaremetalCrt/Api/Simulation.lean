/-
# BaremetalCrt.Api.Simulation — the calls of a host over one set of drivers and over another.

Only a launch asks anything of a device.  So two processes that differ in their drivers alone go on alike
through every call, as long as the second set of drivers does what the first one does (`Process.Over`): the
calls return the same, each of them asks the same of its device, and the objects and the memory stay the
same (`runCalls_simulates`).

`ApiCall.trace` is what a call asks of its device, and `AdmittedRun` says of a run that the guard admits
every request in it. The guard is the caller's to choose; it may speak of the request and of the state it is
made in, and a run meets it or not.
-/
import BaremetalCrt.Api.TwoRuns
import BaremetalCrt.Launch.Simulation

namespace BaremetalCrt

open Lib Exec

variable {δ γ : Type}

/-! ## Two processes -/

/-- Devices, and others in their place that do the same as long as they are asked for what is admitted. -/
structure Replacement (δ γ : Type) where
  admits : Guard δ
  rel : δ → γ → Prop
  devs : Ptr → ClDevice δ
  devs' : Ptr → ClDevice γ
  does : ∀ dev, ClDevice.Simulates admits rel (devs dev) (devs' dev)

variable {D : Replacement δ γ}

/-- The second process is the first one over the other devices. -/
structure Process.Over (D : Replacement δ γ) (p : Process δ) (q : Process γ) : Prop where
  heap : q.heap = p.heap
  names : q.names = p.names
  cmdqs : q.cmdqs = p.cmdqs
  ctxs : q.ctxs = p.ctxs
  prgs : q.prgs = p.prgs
  devs : p.devs = D.devs
  devs' : q.devs = D.devs'
  dev : D.rel p.dev q.dev

/-- The process over other devices, which are in the state `e`. -/
def Process.over (p : Process δ) (devs' : Ptr → ClDevice γ) (e : γ) : Process γ :=
  ⟨p.heap, p.names, p.cmdqs, p.ctxs, devs', p.prgs, e⟩

/-- A call over the one does what it does over the other; nothing is asked of a device. -/
abbrev ApiSimulates (D : Replacement δ γ) {α : Type} (m : Api δ α) (n : Api γ α) : Prop :=
  Exec.Simulates (fun _ => True) (Process.Over D) m n

namespace Process.Over

variable {p : Process δ} {q : Process γ} (h : Process.Over D p q)
include h

theorem eq_over : q = p.over D.devs' q.dev := by
  rw [Process.over, ← h.heap, ← h.names, ← h.cmdqs, ← h.ctxs, ← h.prgs, ← h.devs']

theorem host : q.host = p.host.over D.devs' := by
  simp only [Process.host, Host.over, h.heap, h.names, h.cmdqs, h.ctxs, h.prgs, h.devs']

theorem withBytes (b : ByteMap) : Process.Over D (p.withBytes b) (q.withBytes b) :=
  { h with heap := by rw [Process.withBytes, Process.withBytes, h.heap] }

theorem devIsValid (dev : Ptr) : BaremetalCrt.devIsValid q.host dev = BaremetalCrt.devIsValid p.host dev := by
  rw [h.host]
  exact devIsValid_over (h.devs ▸ D.does dev)

theorem nameless (kernel : Ptr) : q.Nameless kernel ↔ p.Nameless kernel := by
  rw [Process.Nameless, Process.Nameless, h.heap]

end Process.Over

/-! ## What the calls are made of -/

section Functions

variable {α : Type} {env : Env} {allocs : Heap → Allocs}

theorem simulates_expect {f : Process δ → ClInt} {g : Process γ → ClInt}
    (hfg : ∀ p q, Process.Over D p q → g q = f p) : ApiSimulates D (expect f) (expect g) :=
  .answer fun p q h => by rw [hfg p q h]

/-- The check of a handle that is not that of a device. -/
theorem simulates_expect_ctx (ctx : Ptr) :
    ApiSimulates D (expect (ctxIsValid ·.host ctx)) (expect (ctxIsValid ·.host ctx)) :=
  simulates_expect fun p q h => by rw [h.host]; rfl

theorem simulates_expect_cmdq (cmdq : Ptr) :
    ApiSimulates D (expect (cmdqIsValid ·.host cmdq)) (expect (cmdqIsValid ·.host cmdq)) :=
  simulates_expect fun p q h => by rw [h.host]; rfl

theorem simulates_expect_prg (prg : Ptr) :
    ApiSimulates D (expect (prgIsValid ·.host prg)) (expect (prgIsValid ·.host prg)) :=
  simulates_expect fun p q h => by rw [h.host]; rfl

theorem simulates_expect_dev (dev : Ptr) :
    ApiSimulates D (expect (devIsValid ·.host dev)) (expect (devIsValid ·.host dev)) :=
  simulates_expect fun _ _ h => h.devIsValid dev

/-- A function over the heap. -/
theorem simulates_ofOwn (m : Own α) : ApiSimulates D (ofOwn m) (ofOwn m) := fun p _ =>
  ⟨trivial, fun q h => ⟨by rw [ofOwn, ofOwn, h.heap],
    { h with heap := by rw [ofOwn, ofOwn, h.heap] }⟩⟩

/-- The two hosts have the same objects and bytes; their devices may differ. -/
def HostOver (x : Host δ) (y : Host γ) : Prop := ∃ devs, y = x.over devs

/-- A function over the memory of the host. -/
theorem simulates_ofHost {m : HostCall δ α} {n : HostCall γ α}
    (hmn : Exec.Simulates (fun _ => True) HostOver m n) : ApiSimulates D (ofHost m) (ofHost n) := by
  refine fun p _ => ⟨trivial, fun q h => ?_⟩
  obtain ⟨hret, devs, hend⟩ := (hmn p.host trivial).2 q.host ⟨D.devs', h.host⟩
  refine ⟨congrArg (Except.mapError LoadStop.ret) hret, ?_⟩
  show Process.Over D (p.withBytes (m p.host).2.bytes) (q.withBytes (n q.host).2.bytes)
  rw [hend]
  exact h.withBytes _

theorem simulates_enqueue (a : Access) (queue mem : Ptr) (offset size : UInt64) (ptr : Ptr) :
    Exec.Simulates (fun _ => True) HostOver (a.enqueue queue mem offset size ptr : HostCall δ Unit)
      (a.enqueue queue mem offset size ptr : HostCall γ Unit) := by
  have hrequire {f : Host δ → ClInt} {g : Host γ → ClInt} (hfg : ∀ x devs, g (Host.over x devs) = f x) :
      Exec.Simulates (fun _ => True) HostOver (requireHost f) (requireHost g) := by
    refine .answer ?_
    rintro x _ ⟨devs, rfl⟩
    rw [hfg]
  have hmems : Exec.Simulates (fun _ => True) HostOver
      (Exec.gets fun x : Host δ => x.mems mem : HostCall δ ClMem)
      (Exec.gets fun y : Host γ => y.mems mem : HostCall γ ClMem) := by
    refine .gets ?_
    rintro x _ ⟨devs, rfl⟩
    rfl
  have hstore {f : Host δ → ByteMap} {g : Host γ → ByteMap} (hfg : ∀ x devs, g (Host.over x devs) = f x) :
      Exec.Simulates (fun _ => True) HostOver (Exec.modify fun x => { x with bytes := f x } : HostCall δ PUnit)
        (Exec.modify fun y => { y with bytes := g y } : HostCall γ PUnit) := by
    refine .modify (fun _ _ => trivial) ?_
    rintro x _ ⟨devs, rfl⟩
    exact ⟨devs, by rw [hfg]; rfl⟩
  cases a with
  | read =>
    refine .bind (hrequire fun _ _ => rfl) fun _ => .bind (hrequire fun _ _ => rfl) fun _ => ?_
    refine .bind (hrequire fun _ _ => rfl) fun _ => .bind hmems fun m => .refuse ?_
    exact hstore fun _ _ => rfl
  | write =>
    refine .bind (hrequire fun _ _ => rfl) fun _ => .bind (hrequire fun _ _ => rfl) fun _ => ?_
    refine .bind (hrequire fun _ _ => rfl) fun _ => .bind hmems fun m => .refuse ?_
    exact hstore fun _ _ => rfl

/-! ## Objects -/

theorem simulates_objectAlloc {valid : Process δ → ClInt} {valid' : Process γ → ClInt}
    {init : Ptr → Process δ → Process δ} {init' : Ptr → Process γ → Process γ}
    (hvalid : ApiSimulates D (expect valid) (expect valid'))
    (hinit : ∀ t p q, Process.Over D p q → Process.Over D (init t p) (init' t q)) :
    ApiSimulates D (objectAlloc env valid init) (objectAlloc env valid' init') := by
  refine .bind hvalid fun _ => .bind (simulates_ofOwn _) fun block => ?_
  cases block with
  | none => exact .exit _
  | some t =>
    refine .bind (.modify (fun _ _ => trivial) fun p q h => hinit t _ _ ?_) fun _ => .pure _
    exact { h with heap := by simp only [Process.mark, h.heap] }

theorem simulates_objectFree {valid : Process δ → ClInt} {valid' : Process γ → ClInt}
    (hvalid : ApiSimulates D (expect valid) (expect valid')) (obj : Ptr) :
    ApiSimulates D (objectFree valid obj) (objectFree valid' obj) :=
  .bind hvalid fun _ => simulates_ofOwn _

theorem simulates_checkDevices (bad : Nat → Bool) (devices : Nat → Ptr) (n : Nat) : ∀ i,
    ApiSimulates D (checkDevices bad devices i n) (checkDevices bad devices i n) := by
  induction n with
  | zero => exact fun _ => .pure _
  | succ n ih => exact fun i => .refuse (.bind (simulates_expect_dev _) fun _ => ih (i + 1))

theorem simulates_inClCreateContext (numDevices : UInt32) (devices : Option (Nat → Ptr))
    (pfnNotify userData : Ptr) :
    ApiSimulates D (inClCreateContext env numDevices devices pfnNotify userData)
      (inClCreateContext env numDevices devices pfnNotify userData) := by
  cases devices with
  | none => exact .exit _
  | some devices =>
    refine .refuse (.refuse (.bind (simulates_checkDevices _ _ _ _) fun _ => .refuse ?_))
    refine simulates_objectAlloc (simulates_expect_dev _) fun t p q h => ?_
    exact { h with ctxs := congrArg (Function.update · t (devices 0)) h.ctxs }

theorem simulates_inClReleaseContext (context : Ptr) :
    ApiSimulates D (inClReleaseContext context) (inClReleaseContext context) :=
  .bind (simulates_expect_ctx _) fun _ =>
    simulates_objectFree (simulates_expect_ctx _) _

theorem simulates_inClCreateCommandQueue (context device : Ptr) :
    ApiSimulates D (inClCreateCommandQueueWithProperties env context device)
      (inClCreateCommandQueueWithProperties env context device) := by
  refine .bind (simulates_expect_ctx _) fun _ => .bind (simulates_expect_dev _) fun _ => ?_
  refine simulates_objectAlloc (simulates_expect_ctx _) fun t p q h => ?_
  exact { h with cmdqs := congrArg (Function.update · t context) h.cmdqs }

theorem simulates_inClReleaseCommandQueue (commandQueue : Ptr) :
    ApiSimulates D (inClReleaseCommandQueue commandQueue) (inClReleaseCommandQueue commandQueue) :=
  .bind (simulates_expect_cmdq _) fun _ =>
    .bind (simulates_objectFree (simulates_expect_cmdq _) _) fun _ => .exit _

/-! ## Programs and kernels -/

theorem simulates_loadProgram (prg : Ptr) (arg : BinaryArg) :
    ApiSimulates D (loadProgram allocs prg arg) (loadProgram allocs prg arg) := by
  refine fun p _ => ⟨trivial, fun q h => ?_⟩
  have hprg : q.host.prgs prg = p.host.prgs prg := by rw [h.host]; rfl
  refine ⟨by simp only [loadProgram, h.heap, hprg], { h with prgs := ?_ }⟩
  simp only [loadProgram, h.heap, h.prgs, hprg]

theorem simulates_prgFree (prg : Ptr) : ApiSimulates D (prgFree prg) (prgFree prg) :=
  simulates_objectFree (simulates_expect_prg _) _

theorem simulates_inClCreateProgram (context : Ptr) (numDevices : UInt32) (deviceList : Nat → Ptr)
    (binaries : Option (Nat → BinaryArg)) :
    ApiSimulates D (inClCreateProgramWithBinary env allocs context numDevices deviceList binaries)
      (inClCreateProgramWithBinary env allocs context numDevices deviceList binaries) := by
  cases binaries with
  | none => exact .exit _
  | some binaries =>
    refine .bind (simulates_expect_ctx _) fun _ => ?_
    refine .bind (simulates_checkDevices _ _ _ _) fun _ => .refuse ?_
    refine .bind (simulates_objectAlloc (simulates_expect_ctx _) fun t p q h => ?_) fun t => ?_
    · exact { h with prgs := congrArg (Function.update · t _) h.prgs }
    refine .bind (.attempt (simulates_loadProgram _ _)) fun out => ?_
    match out with
    | .ok _ => exact .pure _
    | .error .crash => exact .exit _
    | .error (.ret r) => exact .bind (.attempt (simulates_prgFree _)) fun _ => .exit _

theorem simulates_inClReleaseProgram (program : Ptr) :
    ApiSimulates D (inClReleaseProgram program) (inClReleaseProgram program) :=
  .bind (simulates_expect_prg _) fun _ => simulates_prgFree _

theorem simulates_createKernel (program : Ptr) (kernelName : Option CStr) :
    ApiSimulates D (createKernel env program kernelName) (createKernel env program kernelName) := by
  refine .bind (simulates_ofOwn _) fun kern => ?_
  refine .bind (.modify (fun _ _ => trivial) fun p q h => ?_) fun _ => .pure _
  cases kernelName with
  | none => exact h
  | some name =>
    exact { h with names := congrArg (Function.update · kern name) h.names }

end Functions

/-! ## One call -/

/-- What a call asks of a device: the events of its launch, if it is one that begins. -/
def ApiCall.trace (p : Process δ) : ApiCall → List (Event δ)
  | .enqueueNDRangeKernel commandQueue kernel =>
    if p.Nameless kernel then [] else (clEnqueueNDRangeKernel commandQueue kernel p.host p.dev).trace
  | _ => []

section Call

variable (env : Env) (allocs : Heap → Allocs) {p : Process δ} {q : Process γ}

/-- A launch, which may ask for what is admitted only. -/
theorem enqueueNDRangeKernel_simulates (h : Process.Over D p q) (cmdq kernel : Ptr)
    (hA : Admitted D.admits ((ApiCall.enqueueNDRangeKernel cmdq kernel).trace p)) :
    (enqueueNDRangeKernel cmdq kernel q).1 = (enqueueNDRangeKernel cmdq kernel p).1 ∧
      Process.Over D (enqueueNDRangeKernel cmdq kernel p).2 (enqueueNDRangeKernel cmdq kernel q).2 ∧
      ((ApiCall.enqueueNDRangeKernel cmdq kernel).trace q).map Event.face =
        ((ApiCall.enqueueNDRangeKernel cmdq kernel).trace p).map Event.face := by
  unfold enqueueNDRangeKernel
  by_cases hnone : p.Nameless kernel
  · have hnone' := (h.nameless kernel).mpr hnone
    rw [if_pos hnone, if_pos hnone']
    exact ⟨rfl, h, by rw [ApiCall.trace, ApiCall.trace, if_pos hnone, if_pos hnone']; rfl⟩
  · have hnone' := mt (h.nameless kernel).mp hnone
    rw [if_neg hnone, if_neg hnone']
    simp only [ApiCall.trace, if_neg hnone, if_neg hnone'] at hA ⊢
    have hdoes (dev : Ptr) : ClDevice.Simulates D.admits D.rel (p.host.devs dev) (D.devs' dev) := by
      rw [show p.host.devs = D.devs from h.devs]
      exact D.does _
    obtain ⟨hret, hend⟩ := (Sys.Over.start (hdoes (ctxGetDevice p.host (cmdqGetContext p.host cmdq)))
      h.dev).launch hA
    rw [← h.host] at hret hend
    have hhost := hend.host
    refine ⟨congrArg (fun r => (check (retOf r)).mapError LoadStop.ret) hret, ?_, hend.trace⟩
    have hbytes := h.withBytes (clEnqueueNDRangeKernel cmdq kernel p.host p.dev).host.bytes
    refine { h with heap := ?_, prgs := ?_, dev := hend.dev }
    · show (q.withBytes (launch cmdq kernel ⟨q.host, q.dev, [], []⟩).2.host.bytes).heap = _
      rw [hhost]
      exact hbytes.heap
    · show (launch cmdq kernel ⟨q.host, q.dev, [], []⟩).2.host.prgs = _
      rw [hhost]
      rfl

/-- **A call** over the one set of drivers is the call over the other. -/
theorem ApiCall.run_simulates (h : Process.Over D p q) (c : ApiCall) (hA : Admitted D.admits (c.trace p)) :
    (c.run env allocs q).1 = (c.run env allocs p).1 ∧
      Process.Over D (c.run env allocs p).2 (c.run env allocs q).2 ∧
      (c.trace q).map Event.face = (c.trace p).map Event.face := by
  have hquiet {m : Api δ Ptr} {n : Api γ Ptr} (hmn : ApiSimulates D m n) :
      (n q).1 = (m p).1 ∧ Process.Over D (m p).2 (n q).2 := (hmn p trivial).2 q h
  have hreturn {m : Api δ Unit} {n : Api γ Unit} (hmn : ApiSimulates D m n) :
      ApiSimulates D (m >>= fun _ => (pure 0 : Api δ Ptr)) (n >>= fun _ => (pure 0 : Api γ Ptr)) :=
    .bind hmn fun _ => .pure _
  cases c with
  | createContext numDevices devices pfnNotify userData =>
    exact (hquiet (simulates_inClCreateContext _ _ _ _)).imp id (⟨·, rfl⟩)
  | releaseContext context => exact (hquiet (hreturn (simulates_inClReleaseContext _))).imp id (⟨·, rfl⟩)
  | createCommandQueue context device =>
    exact (hquiet (simulates_inClCreateCommandQueue _ _)).imp id (⟨·, rfl⟩)
  | releaseCommandQueue commandQueue =>
    exact (hquiet (hreturn (simulates_inClReleaseCommandQueue _))).imp id (⟨·, rfl⟩)
  | createProgramWithBinary context numDevices deviceList binaries =>
    exact (hquiet (simulates_inClCreateProgram _ _ _ _)).imp id (⟨·, rfl⟩)
  | releaseProgram program => exact (hquiet (hreturn (simulates_inClReleaseProgram _))).imp id (⟨·, rfl⟩)
  | createBuffer context flags size hostPtr => exact (hquiet (simulates_ofOwn _)).imp id (⟨·, rfl⟩)
  | releaseMemObject memobj => exact (hquiet (hreturn (simulates_ofOwn _))).imp id (⟨·, rfl⟩)
  | createKernel program kernelName => exact (hquiet (simulates_createKernel _ _)).imp id (⟨·, rfl⟩)
  | setKernelArg kernel argIndex argSize argValue =>
    exact (hquiet (hreturn (simulates_ofOwn _))).imp id (⟨·, rfl⟩)
  | releaseKernel kernel => exact (hquiet (hreturn (simulates_ofOwn _))).imp id (⟨·, rfl⟩)
  | enqueueBuffer a commandQueue buffer offset size ptr =>
    exact (hquiet (hreturn (simulates_ofHost (simulates_enqueue a _ _ _ _ _)))).imp id (⟨·, rfl⟩)
  | enqueueNDRangeKernel commandQueue kernel =>
    obtain ⟨hret, hover, htrace⟩ := enqueueNDRangeKernel_simulates h commandQueue kernel hA
    rw [ApiCall.run, ApiCall.run, bind_apply, bind_apply]
    revert hret hover
    rcases BaremetalCrt.enqueueNDRangeKernel commandQueue kernel p with ⟨e | _, p'⟩ <;>
      rcases BaremetalCrt.enqueueNDRangeKernel commandQueue kernel q with ⟨e' | _, q'⟩ <;> intro hret hover
    · exact ⟨congrArg Except.error (Except.error.inj hret), hover, htrace⟩
    · cases hret
    · cases hret
    · exact ⟨rfl, hover, htrace⟩

/-- A call leaves the devices what they are. -/
theorem ApiCall.run_devs (c : ApiCall) (p : Process δ) : (c.run env allocs p).2.devs = p.devs := by
  have hrefl {α : Type} {T : α → α → Prop} (hT : ∀ a, T a a) (x : Option α) : Option.Rel T x x := by
    cases x with
    | none => exact .none
    | some a => exact .some (hT a)
  have hdoes {q : Request} {α : Type} {S : α → α → Prop} (hS : ∀ x, S x x) (f : δ → α × δ) :
      Does (fun _ _ => True) Eq q S f f := by
    rintro d _ - rfl
    exact ⟨hS _, rfl⟩
  have hops (ops : DevOps δ) : DevOps.Simulates (fun _ _ => True) Eq ops ops :=
    ⟨hrefl (hdoes fun _ => rfl) _, hrefl (hdoes fun _ => rfl) _, hrefl (hdoes fun _ => rfl) _,
      hrefl (fun f _ _ => hdoes (fun _ => ⟨rfl, fun _ _ => rfl⟩) _) _,
      hrefl (fun f _ _ => hdoes (fun _ => rfl) _) _⟩
  let D : Replacement δ δ := ⟨fun _ _ => True, Eq, p.devs, p.devs, fun dev => ⟨rfl, hrefl hops _⟩⟩
  have hself : Process.Over D p p := ⟨rfl, rfl, rfl, rfl, rfl, rfl, rfl, rfl⟩
  exact (c.run_simulates env allocs hself fun _ _ => trivial).2.1.devs

end Call

/-! ## Runs -/

section Runs

variable (env : Env) (allocs : Heap → Allocs)

/-- What a call shows: what it returns, and what it asks of its device with the answers. -/
abbrev Observed := Except LoadStop Ptr × List (DevOp × ClInt × ByteMap × ByteMap)

/-- A run up to a crash: what its calls show, and the process behind it. -/
def runCalls : HostRun → Process δ → List Observed × Process δ
  | [], p => ([], p)
  | (b, c) :: run, p =>
    let out := c.run env allocs (p.withBytes b)
    let shown := (out.1, (c.trace (p.withBytes b)).map Event.face)
    if out.1 = .error .crash then ([shown], out.2)
    else (shown :: (runCalls run out.2).1, (runCalls run out.2).2)

/-- Every launch of the run asks for what is admitted. -/
def AdmittedRun (A : Guard δ) : HostRun → Process δ → Prop
  | [], _ => True
  | (b, c) :: run, p =>
    Admitted A (c.trace (p.withBytes b)) ∧
      ((c.run env allocs (p.withBytes b)).1 ≠ .error .crash →
        AdmittedRun A run (c.run env allocs (p.withBytes b)).2)

variable {env allocs}

/-- The processes stay alike over a run. -/
theorem Process.Over.runCalls (run : HostRun) : ∀ {p : Process δ} {q : Process γ}, Process.Over D p q →
    AdmittedRun env allocs D.admits run p →
      (BaremetalCrt.runCalls env allocs run q).1 = (BaremetalCrt.runCalls env allocs run p).1 ∧
        Process.Over D (BaremetalCrt.runCalls env allocs run p).2 (BaremetalCrt.runCalls env allocs run q).2 := by
  induction run with
  | nil => exact fun h _ => ⟨rfl, h⟩
  | cons t run ih =>
    intro p q h hA
    obtain ⟨b, c⟩ := t
    obtain ⟨hcall, hrest⟩ := hA
    obtain ⟨hret, hover, htrace⟩ := c.run_simulates env allocs (h.withBytes b) hcall
    simp only [BaremetalCrt.runCalls, hret, htrace]
    by_cases hcrash : (c.run env allocs (p.withBytes b)).1 = .error .crash
    · simp only [if_pos hcrash]
      exact ⟨trivial, hover⟩
    · simp only [if_neg hcrash]
      obtain ⟨hshown, hend⟩ := ih hover (hrest hcrash)
      exact ⟨congrArg (_ :: ·) hshown, hend⟩

/-- **One set of drivers for another, over a whole run.** Whatever a host calls, and whatever it does to its
memory between the calls: as long as every launch asks for what is admitted, the calls return the same and ask
the same of their devices over drivers that do the same, and leave the same process over them. -/
theorem runCalls_simulates (A : Guard δ) (R : δ → γ → Prop) (devs' : Ptr → ClDevice γ) (run : HostRun)
    (p : Process δ) (e : γ) (hdoes : ∀ dev, ClDevice.Simulates A R (p.devs dev) (devs' dev)) (hR : R p.dev e)
    (hA : AdmittedRun env allocs A run p) :
    let out := runCalls env allocs run p
    let out' := runCalls env allocs run (p.over devs' e)
    out'.1 = out.1 ∧ out'.2 = out.2.over devs' out'.2.dev ∧ R out.2.dev out'.2.dev := by
  have hover : Process.Over ⟨A, R, p.devs, devs', hdoes⟩ p (p.over devs' e) :=
    ⟨rfl, rfl, rfl, rfl, rfl, rfl, rfl, hR⟩
  obtain ⟨hshown, hend⟩ := hover.runCalls run hA
  exact ⟨hshown, hend.eq_over, hend.dev⟩

end Runs

/-- A driver that counts the requests and has addresses of 32 bits, for every device of the small process. -/
def smallCounting (dev : Ptr) : ClDevice (Unit × Nat) :=
  ⟨(smallProcess.devs dev).magic, (smallProcess.devs dev).ops.map countingOps⟩

/-- What the launch of its program asks for is below four gigabytes. -/
theorem admittedRun_overwriting : AdmittedRun (bumpEnv 0) (fun _ => .all) below4G
    ((overwriting 0x400).map Turn.first) smallProcess := by
  have hnone : Admitted below4G ([] : List (Event Unit)) := fun e he => absurd he List.not_mem_nil
  refine ⟨hnone, fun _ => ⟨hnone, fun _ => ⟨hnone, fun _ => ⟨?_, fun _ => trivial⟩⟩⟩⟩
  intro e he
  show e.op.request.reach ≤ 2 ^ 32
  revert e
  decide +kernel

/-- A program, its kernel and the launch go the same with it. -/
theorem smallCounting_runCalls :
    let run := (overwriting 0x400).map Turn.first
    let out := runCalls (bumpEnv 0) (fun _ => .all) run smallProcess
    let out' := runCalls (bumpEnv 0) (fun _ => .all) run (smallProcess.over smallCounting ((), 0))
    out'.1 = out.1 ∧ out'.2 = out.2.over smallCounting out'.2.dev ∧ out'.2.dev.1 = out.2.dev :=
  runCalls_simulates below4G (fun d e => e.1 = d) smallCounting ((overwriting 0x400).map Turn.first)
    smallProcess ((), 0) (fun _ => ⟨rfl, .some (countingOps_simulates _)⟩) rfl admittedRun_overwriting

end BaremetalCrt
