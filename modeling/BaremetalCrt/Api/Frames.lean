/-
# BaremetalCrt.Api.Frames — an object that is not freed stays what it is.

Whatever call is made, a block that is live and is not passed to `free` in it is live behind the call, with
its magic number; if it is a program, it has its chunks and its area, and the device is left alone, unless
the call is a launch.  What a call allocates was not live before, so nothing else is written
(`ApiCall.spares`).

The proofs follow the calls down to the heap: an allocation is a new block (`calloc`), a release takes one
block (`free`), and everything between writes to the block that it was given. `Spares` puts that together
call by call.
-/
import BaremetalCrt.Api.Process
import BaremetalCrt.Lib.Spares

namespace BaremetalCrt

open Lib Exec

variable {δ : Type} {α : Type} {env : Env} {t : Ptr}

/-! ## The heap -/

/-- What was passed to `free` is remembered, and nothing but an address that is passed to it changes whether a
block is live, and its magic number. -/
abbrev HeapSpares (t : Ptr) : Heap → Heap → Prop :=
  Spares Heap.frees (fun e => e.1 = t) (fun s => s.live t ≠ none) fun s => (s.live t, s.magic t)

theorem heapSpares_same {s s' : Heap} (hfrees : s'.frees = s.frees) (hlive : s'.live = s.live)
    (hmagic : s'.magic = s.magic) : HeapSpares t s s' :=
  .of_log hfrees fun h => ⟨(congrFun hlive t).trans_ne h, by rw [hlive, hmagic]⟩

theorem heapSpares_require (f : Heap → ClInt) : Keeps (HeapSpares t) (require f) := .of_refl .refl fun _ => rfl

theorem heapSpares_gets (f : Heap → α) : Keeps (HeapSpares t) (gets f : Own α) := .of_refl .refl fun _ => rfl

theorem heapSpares_pure (a : α) : Keeps (HeapSpares t) (pure a : Own α) := .of_refl .refl fun _ => rfl

theorem heapSpares_exit (r : ClInt) : Keeps (HeapSpares t) (exit r : Own α) := .of_refl .refl fun _ => rfl

/-- A change of contents only. -/
theorem heapSpares_modify {f : Heap → Heap}
    (hf : ∀ s, (f s).frees = s.frees ∧ (f s).live = s.live ∧ (f s).magic = s.magic) :
    Keeps (HeapSpares t) (modify f : Own PUnit) := fun s => heapSpares_same (hf s).1 (hf s).2.1 (hf s).2.2

theorem heapSpares_free (p : Ptr) : Keeps (HeapSpares t) (free p) := by
  intro s
  refine ⟨[(p, s.live p)], rfl, fun hs hno => ?_⟩
  have hne : t ≠ p := fun h => hno _ (List.mem_singleton_self _) h.symm
  have hlive : (s.freed p).live t = s.live t := Function.update_of_ne hne ..
  exact ⟨hlive.trans_ne hs, congrArg (·, s.magic t) hlive⟩

/-- An allocation fails, or returns what was not live. -/
theorem calloc_cases (env : Env) (k : BlockKind) (s : Heap) :
    calloc env k s = (.ok none, { s with tries := s.tries + 1 }) ∨
      ∃ p, calloc env k s = (.ok (some p), s.allocated k p) ∧ p ≠ 0 ∧ s.live p = none := by
  unfold calloc
  cases h : env.calloc s with
  | none => exact .inl rfl
  | some p => exact .inr ⟨p, rfl, (env.fresh s p h).1, (env.fresh s p h).2.1⟩

theorem heapSpares_calloc (k : BlockKind) : Keeps (HeapSpares t) (calloc env k) := by
  intro s
  rcases calloc_cases env k s with hrun | ⟨p, hrun, -, hnone⟩ <;> rw [hrun]
  · exact heapSpares_same rfl rfl rfl
  · refine .of_log rfl fun hs => ?_
    have hne : t ≠ p := fun h => hs (h ▸ hnone)
    have hlive : (s.allocated k p).live t = s.live t := Function.update_of_ne hne ..
    have hmagic : (s.allocated k p).magic t = s.magic t := Function.update_of_ne hne ..
    exact ⟨hlive.trans_ne hs, congrArg₂ Prod.mk hlive hmagic⟩

/-- A new object gets its magic number; the others keep theirs. -/
theorem heapSpares_object {k : BlockKind} {r : ClInt} {f : Ptr → Heap → Heap}
    (hf : ∀ p s, (f p s).frees = s.frees ∧ (f p s).live = s.live ∧
      ∀ t, t ≠ p → (f p s).magic t = s.magic t) :
    Keeps (HeapSpares t) (calloc env k >>= fun
      | none => exit r
      | some p => do Exec.modify (f p); return p : Own Ptr) := by
  refine Spares.bind_of_ok (heapSpares_calloc k) (fun a => ?_) fun s a s' hs hrun => ?_
  · cases a with
    | none => exact fun _ => List.prefix_rfl
    | some p => exact fun s => ⟨[], (List.append_nil _).trans (hf p s).1.symm⟩
  · cases a with
    | none => exact heapSpares_exit r
    | some p =>
      have hne : t ≠ p := by
        rcases calloc_cases env k s with h | ⟨q, h, -, hnone⟩ <;> rw [h] at hrun
        · cases hrun
        · obtain rfl : q = p := Option.some.inj (Except.ok.inj (congrArg Prod.fst hrun))
          exact fun h => hs (h ▸ hnone)
      refine .bind Spares.trans (fun s => ?_) fun _ => heapSpares_pure _
      obtain ⟨hfrees, hlive, hmagic⟩ := hf p s
      exact .of_log hfrees fun hs =>
        ⟨(congrFun hlive t).trans_ne hs, congrArg₂ Prod.mk (congrFun hlive t) (hmagic t hne)⟩

section Functions

variable (t)

theorem heapSpares_freeIfAny (p : Ptr) : Keeps (HeapSpares t) (freeIfAny p) :=
  .ite (heapSpares_pure _) (heapSpares_free p)

theorem heapSpares_memAlloc (ctx : Ptr) : Keeps (HeapSpares t) (memAlloc env ctx) :=
  .bind Spares.trans (heapSpares_require _) fun _ =>
    heapSpares_object fun _ _ => ⟨rfl, rfl, fun _ hne => Function.update_of_ne hne ..⟩

theorem heapSpares_memSetAttr (mem : Ptr) (flags : UInt64) : Keeps (HeapSpares t) (memSetAttr mem flags) :=
  .bind Spares.trans (heapSpares_require _) fun _ => heapSpares_modify fun _ => ⟨rfl, rfl, rfl⟩

theorem heapSpares_kernAlloc (prg : Ptr) : Keeps (HeapSpares t) (kernAlloc env prg) :=
  .bind Spares.trans (heapSpares_require _) fun _ =>
    heapSpares_object fun _ _ => ⟨rfl, rfl, fun _ hne => Function.update_of_ne hne ..⟩

theorem heapSpares_memAllocBuffer (mem : Ptr) (size : UInt64) (ptr : Ptr) :
    Keeps (HeapSpares t) (memAllocBuffer env mem size ptr) := by
  refine .bind Spares.trans (heapSpares_require _) fun _ => .bind Spares.trans (heapSpares_gets _) fun m => ?_
  refine .ite (heapSpares_exit _) (.ite (heapSpares_modify fun _ => ⟨rfl, rfl, rfl⟩) ?_)
  refine .bind Spares.trans (heapSpares_calloc _) fun a => ?_
  cases a with
  | none => exact .bind Spares.trans (heapSpares_modify fun _ => ⟨rfl, rfl, rfl⟩) fun _ => heapSpares_exit _
  | some p => exact heapSpares_modify fun _ => ⟨rfl, rfl, rfl⟩

theorem heapSpares_memFreeBuffer (mem : Ptr) : Keeps (HeapSpares t) (memFreeBuffer mem) := by
  refine .bind Spares.trans (heapSpares_require _) fun _ => .bind Spares.trans (heapSpares_gets _) fun m => ?_
  refine .ite (.bind Spares.trans (heapSpares_free _) fun _ => ?_) (heapSpares_pure _)
  exact heapSpares_modify fun _ => ⟨rfl, rfl, rfl⟩

/-- What the two drops share. -/
theorem heapSpares_drop (kern : Ptr) (f : KernFields → Ptr) (g : KernFields → KernFields) :
    Keeps (HeapSpares t) (do
      let k ← Exec.gets (·.kerns kern)
      if f k ≠ 0 then
        free (f k)
        Exec.modify fun s => s.setKern kern (g k)) := by
  refine .bind Spares.trans (heapSpares_gets _) fun k => ?_
  refine .ite (.bind Spares.trans (heapSpares_free _) fun _ => ?_) (heapSpares_pure _)
  exact heapSpares_modify fun _ => ⟨rfl, rfl, rfl⟩

theorem heapSpares_kernDropName (kern : Ptr) : Keeps (HeapSpares t) (kernDropName kern) :=
  heapSpares_drop t kern KernFields.name fun k => { k with name := 0 }

theorem heapSpares_kernDropArgs (kern : Ptr) : Keeps (HeapSpares t) (kernDropArgs kern) :=
  heapSpares_drop t kern KernFields.args fun k => { k with args := 0 }

theorem heapSpares_kernFree (kern : Ptr) : Keeps (HeapSpares t) (kernFree kern) :=
  .bind Spares.trans (heapSpares_require _) fun _ =>
    .bind Spares.trans (heapSpares_kernDropName t kern) fun _ =>
      .bind Spares.trans (heapSpares_kernDropArgs t kern) fun _ => heapSpares_free kern

theorem heapSpares_kernSetName (kern : Ptr) (name : CStr) :
    Keeps (HeapSpares t) (kernSetName env kern name) := by
  refine .bind Spares.trans (heapSpares_require _) fun _ =>
    .bind Spares.trans (heapSpares_kernDropName t kern) fun _ => ?_
  refine .bind Spares.trans (heapSpares_calloc _) fun a => ?_
  cases a with
  | none => exact heapSpares_pure _
  | some p => exact heapSpares_modify fun _ => ⟨rfl, rfl, rfl⟩

theorem heapSpares_kernSetNumArgs (kern : Ptr) (num : UInt32) :
    Keeps (HeapSpares t) (kernSetNumArgs env kern num) := by
  refine .bind Spares.trans (heapSpares_require _) fun _ => .ite ?_ ?_
  · refine .bind Spares.trans (heapSpares_kernDropArgs t kern) fun _ => ?_
    exact heapSpares_modify fun _ => ⟨rfl, rfl, rfl⟩
  · refine .bind Spares.trans (heapSpares_calloc _) fun a => ?_
    cases a with
    | none => exact heapSpares_exit _
    | some args =>
      refine .bind Spares.trans (heapSpares_gets _) fun k => ?_
      refine .bind Spares.trans (heapSpares_modify fun _ => ⟨rfl, rfl, rfl⟩) fun _ => ?_
      refine .bind Spares.trans (heapSpares_freeIfAny t k.args) fun _ => ?_
      exact heapSpares_modify fun _ => ⟨rfl, rfl, rfl⟩

theorem heapSpares_kernSetArg (kern : Ptr) (i : UInt32) (arg : KernArg) :
    Keeps (HeapSpares t) (kernSetArg kern i arg) := by
  refine .bind Spares.trans (heapSpares_require _) fun _ => .bind Spares.trans (heapSpares_gets _) fun k => ?_
  exact .refuse .refl (heapSpares_modify fun _ => ⟨rfl, rfl, rfl⟩)

/-! ### The entry points over the heap -/

theorem heapSpares_inClCreateBuffer (context : Ptr) (flags size : UInt64) (hostPtr : Ptr) :
    Keeps (HeapSpares t) (inClCreateBuffer env context flags size hostPtr) := by
  refine .refuse .refl (.refuse .refl (.refuse .refl (.refuse .refl ?_)))
  refine .bind Spares.trans (heapSpares_require _) fun _ =>
    .bind Spares.trans (heapSpares_memAlloc t context) fun mem => ?_
  exact .bind Spares.trans (heapSpares_memSetAttr t mem _) fun _ =>
    .bind Spares.trans (heapSpares_memAllocBuffer t mem size hostPtr) fun _ => heapSpares_pure mem

theorem heapSpares_inClReleaseMemObject (memobj : Ptr) :
    Keeps (HeapSpares t) (inClReleaseMemObject memobj) := by
  refine .bind Spares.trans (heapSpares_require _) fun _ =>
    .bind Spares.trans (heapSpares_memFreeBuffer t memobj).attempt fun _ => ?_
  exact .bind Spares.trans (heapSpares_require _) fun _ => heapSpares_free memobj

theorem heapSpares_inClCreateKernel (program : Ptr) (kernelName : Option CStr) :
    Keeps (HeapSpares t) (inClCreateKernel env program kernelName) := by
  have herr (kern : Ptr) (r : ClInt) :
      Keeps (HeapSpares t) (Exec.attempt (kernFree kern) >>= fun _ => (exit r : Own Ptr)) :=
    .bind Spares.trans (heapSpares_kernFree t kern).attempt fun _ => heapSpares_exit r
  refine .bind Spares.trans (heapSpares_gets _) fun garbage => ?_
  cases kernelName with
  | none => exact herr _ _
  | some name =>
    refine .bind Spares.trans (Keeps.attempt ?_) fun out => ?_
    · exact .bind Spares.trans (heapSpares_require _) fun _ => heapSpares_kernAlloc t program
    cases out with
    | error r => exact herr _ _
    | ok kern =>
      refine .bind Spares.trans (Keeps.attempt ?_) fun out => ?_
      · exact .bind Spares.trans (heapSpares_kernSetName t kern name) fun _ =>
          heapSpares_kernSetNumArgs t kern 0
      cases out with
      | error r => exact herr _ _
      | ok _ => exact heapSpares_pure kern

theorem heapSpares_inClSetKernelArg (kernel : Ptr) (argIndex : UInt32) (argSize : UInt64) (argValue : Ptr) :
    Keeps (HeapSpares t) (inClSetKernelArg env kernel argIndex argSize argValue) := by
  refine .refuse .refl (.bind Spares.trans (heapSpares_require _) fun _ => ?_)
  refine .bind Spares.trans (heapSpares_gets _) fun s => .ite ?_ (heapSpares_kernSetArg t _ _ _)
  exact .bind Spares.trans (heapSpares_kernSetNumArgs t kernel _) fun _ => heapSpares_kernSetArg t _ _ _

theorem heapSpares_inClReleaseKernel (kernel : Ptr) : Keeps (HeapSpares t) (inClReleaseKernel kernel) :=
  .bind Spares.trans (heapSpares_require _) fun _ => heapSpares_kernFree t kernel

end Functions

/-! ## The process -/

/-- The same of the process: a program that is not freed is what it was, and the device is left alone. -/
abbrev ProcessSpares (t : Ptr) : Process δ → Process δ → Prop :=
  Spares (fun p => p.heap.frees) (fun e => e.1 = t) (fun p => p.heap.live t ≠ none)
    fun p => (p.heap.live t, p.heap.magic t, p.prgs t, p.dev)

section Process

theorem spares_expect (f : Process δ → ClInt) : Keeps (ProcessSpares t) (expect f) :=
  .of_refl .refl fun _ => rfl

theorem spares_quit (r : ClInt) : Keeps (ProcessSpares t) (quit r : Api δ α) := .of_refl .refl fun _ => rfl

theorem spares_pure (a : α) : Keeps (ProcessSpares t) (pure a : Api δ α) := .of_refl .refl fun _ => rfl

theorem spares_ofOwn {m : Own α} (hm : Keeps (HeapSpares t) m) :
    Keeps (ProcessSpares t) (ofOwn m : Api δ α) := by
  intro p
  obtain ⟨es, hes, hkept⟩ := hm p.heap
  refine ⟨es, hes, fun hp hno => ?_⟩
  obtain ⟨hlive, hview⟩ := hkept hp hno
  exact ⟨hlive, congrArg (fun v => (v.1, v.2, p.prgs t, p.dev)) hview⟩

theorem spares_ofHost (m : HostCall δ α) : Keeps (ProcessSpares t) (ofHost m : Api δ α) :=
  fun _ => .of_log rfl fun h => ⟨h, rfl⟩

theorem spares_checkDevices (bad : Nat → Bool) (devices : Nat → Ptr) (n : Nat) : ∀ i,
    Keeps (ProcessSpares t) (checkDevices bad devices i n : Api δ Unit) := by
  induction n with
  | zero => exact fun _ => spares_pure ()
  | succ n ih =>
    exact fun i => .refuse .refl (.bind Spares.trans (spares_expect _) fun _ => ih (i + 1))

/-! ### Objects -/

/-- `init` fills in a new object `t` and changes nothing else of the process. -/
structure Initialises (init : Ptr → Process δ → Process δ) : Prop where
  heap : ∀ t p, (init t p).heap = p.heap
  dev : ∀ t p, (init t p).dev = p.dev
  prgs : ∀ t p q, q ≠ t → (init t p).prgs q = p.prgs q

/-- An allocation in the process that returns something. -/
theorem ofOwn_calloc_some {k : BlockKind} {p p' : Process δ} {q : Ptr}
    (h : ofOwn (calloc env k) p = (.ok (some q), p')) :
    q ≠ 0 ∧ p.heap.live q = none ∧ p' = { p with heap := p.heap.allocated k q } := by
  unfold ofOwn at h
  rcases calloc_cases env k p.heap with hc | ⟨r, hc, hne, hnone⟩ <;> rw [hc] at h
  · cases h
  · obtain ⟨hret, hafter⟩ := Prod.mk.inj h
    obtain rfl : r = q := Option.some.inj (Except.ok.inj hret)
    exact ⟨hne, hnone, hafter.symm⟩

/-- A new object is where nothing was live. -/
theorem objectAlloc_ok {valid : Process δ → ClInt} {init : Ptr → Process δ → Process δ} {p p' : Process δ}
    {q : Ptr} (h : objectAlloc env valid init p = (.ok q, p')) :
    q ≠ 0 ∧ p.heap.live q = none ∧
      p' = init q (Process.mark { p with heap := p.heap.allocated .object q } q) := by
  obtain ⟨⟨⟩, p₁, hvalid, h⟩ := bind_eq_ok.mp h
  have hp : p = p₁ := congrArg Prod.snd hvalid
  subst hp
  obtain ⟨o, p₂, hcalloc, h⟩ := bind_eq_ok.mp h
  cases o with
  | none => cases h
  | some r =>
    obtain ⟨hret, hafter⟩ := Prod.mk.inj h
    obtain rfl : r = q := Except.ok.inj hret
    obtain ⟨hne, hnone, rfl⟩ := ofOwn_calloc_some hcalloc
    exact ⟨hne, hnone, hafter.symm⟩

theorem spares_objectAlloc (valid : Process δ → ClInt) {init : Ptr → Process δ → Process δ}
    (hinit : Initialises init) : Keeps (ProcessSpares t) (objectAlloc env valid init) := by
  refine .bind Spares.trans (spares_expect _) fun _ => ?_
  refine Spares.bind_of_ok (spares_ofOwn (heapSpares_calloc _)) (fun a => ?_) fun p a p' hp hrun => ?_
  · cases a with
    | none => exact fun _ => List.prefix_rfl
    | some q =>
      intro p
      show p.heap.frees <+: (init q (p.mark q)).heap.frees
      rw [hinit.heap]
      exact List.prefix_rfl
  · cases a with
    | none => exact spares_quit _
    | some q =>
      have hne : t ≠ q := fun h => hp (h ▸ (ofOwn_calloc_some hrun).2.1)
      refine .bind Spares.trans (fun p => ?_) fun _ => spares_pure q
      have hheap : (init q (p.mark q)).heap = (p.mark q).heap := hinit.heap q _
      have hmagic : (p.mark q).heap.magic t = p.heap.magic t := Function.update_of_ne hne ..
      show ProcessSpares t p (init q (p.mark q))
      refine .of_log (by rw [hheap]; rfl) fun hp => ⟨by rw [hheap]; exact hp, ?_⟩
      rw [hheap, hinit.dev, hinit.prgs q _ t hne, hmagic]
      rfl

theorem spares_objectFree (valid : Process δ → ClInt) (obj : Ptr) :
    Keeps (ProcessSpares t) (objectFree valid obj) :=
  .bind Spares.trans (spares_expect _) fun _ => spares_ofOwn (heapSpares_free obj)

theorem initialises_ctx (dev : Ptr) :
    Initialises fun t (p : Process δ) => { p with ctxs := Function.update p.ctxs t dev } :=
  ⟨fun _ _ => rfl, fun _ _ => rfl, fun _ _ _ _ => rfl⟩

theorem initialises_cmdq (ctx : Ptr) :
    Initialises fun t (p : Process δ) => { p with cmdqs := Function.update p.cmdqs t ctx } :=
  ⟨fun _ _ => rfl, fun _ _ => rfl, fun _ _ _ _ => rfl⟩

theorem initialises_prg (prg : ClProgram) :
    Initialises fun t (p : Process δ) => { p with prgs := Function.update p.prgs t prg } :=
  ⟨fun _ _ => rfl, fun _ _ => rfl, fun _ _ _ hne => Function.update_of_ne hne ..⟩

/-! ### The entry points -/

section EntryPoints

variable (t)

theorem spares_inClCreateContext (numDevices : UInt32) (devices : Option (Nat → Ptr))
    (pfnNotify userData : Ptr) :
    Keeps (ProcessSpares t) (inClCreateContext env numDevices devices pfnNotify userData : Api δ Ptr) := by
  cases devices with
  | none => exact spares_quit _
  | some devices =>
    refine .refuse .refl (.refuse .refl (.bind Spares.trans (spares_checkDevices _ _ _ _) fun _ => ?_))
    exact .refuse .refl (spares_objectAlloc _ (initialises_ctx _))

theorem spares_inClReleaseContext (context : Ptr) :
    Keeps (ProcessSpares t) (inClReleaseContext context : Api δ Unit) :=
  .bind Spares.trans (spares_expect _) fun _ => spares_objectFree _ context

theorem spares_inClCreateCommandQueue (context device : Ptr) :
    Keeps (ProcessSpares t) (inClCreateCommandQueueWithProperties env context device : Api δ Ptr) :=
  .bind Spares.trans (spares_expect _) fun _ => .bind Spares.trans (spares_expect _) fun _ =>
    spares_objectAlloc _ (initialises_cmdq _)

theorem spares_inClReleaseCommandQueue (commandQueue : Ptr) :
    Keeps (ProcessSpares t) (inClReleaseCommandQueue commandQueue : Api δ Unit) :=
  .bind Spares.trans (spares_expect _) fun _ =>
    .bind Spares.trans (spares_objectFree _ commandQueue) fun _ => spares_quit _

variable {t} in
/-- A load writes one program. -/
theorem spares_loadProgram {allocs : Heap → Allocs} {prg : Ptr} (hne : t ≠ prg) (arg : BinaryArg) :
    Keeps (ProcessSpares t) (loadProgram allocs prg arg : Api δ Unit) := fun p =>
  .of_log rfl fun hp => ⟨hp, congrArg (fun q => (p.heap.live t, p.heap.magic t, q, p.dev))
    (Function.update_of_ne hne ..)⟩

/-- What is done with a new object spares the others. -/
theorem spares_newObject (valid : Process δ → ClInt) {init : Ptr → Process δ → Process δ}
    (hinit : Initialises init) {f : Ptr → Api δ α} (hf : ∀ t q, t ≠ q → Keeps (ProcessSpares t) (f q)) :
    Keeps (ProcessSpares t) (objectAlloc env valid init >>= f) := by
  refine Spares.bind_of_ok (spares_objectAlloc valid hinit) (fun q p => ?_) fun p q p' hp hrun => ?_
  · exact (hf (q + 1) q (Nat.succ_ne_self q) p).grows
  · exact hf t q fun h => hp (h ▸ (objectAlloc_ok hrun).2.1)

theorem spares_inClCreateProgram (allocs : Heap → Allocs) (context : Ptr) (numDevices : UInt32)
    (deviceList : Nat → Ptr) (binaries : Option (Nat → BinaryArg)) :
    Keeps (ProcessSpares t)
      (inClCreateProgramWithBinary env allocs context numDevices deviceList binaries : Api δ Ptr) := by
  cases binaries with
  | none => exact spares_quit _
  | some binaries =>
    refine .bind Spares.trans (spares_expect _) fun _ =>
      .bind Spares.trans (spares_checkDevices _ _ _ _) fun _ => .refuse .refl ?_
    -- what is done with the new program spares the others
    refine spares_newObject t _ (initialises_prg _) fun t prg hne => ?_
    refine .bind Spares.trans (spares_loadProgram hne _).attempt fun out => ?_
    rcases out with (r | _) | _
    · exact .bind Spares.trans (spares_objectFree _ prg).attempt fun _ => spares_quit r
    · exact .of_refl .refl fun _ => rfl
    · exact spares_pure prg

theorem spares_inClReleaseProgram (program : Ptr) :
    Keeps (ProcessSpares t) (inClReleaseProgram program : Api δ Unit) :=
  .bind Spares.trans (spares_expect _) fun _ => spares_objectFree _ program

theorem spares_createKernel (program : Ptr) (kernelName : Option CStr) :
    Keeps (ProcessSpares t) (createKernel env program kernelName : Api δ Ptr) := by
  refine .bind Spares.trans (spares_ofOwn (heapSpares_inClCreateKernel t program kernelName)) fun kern => ?_
  refine .bind Spares.trans (fun p => ?_) fun _ => spares_pure kern
  cases kernelName <;> exact .of_log rfl fun hp => ⟨hp, rfl⟩

end EntryPoints

/-- **A call spares what it does not free**, and the device, unless it is a launch. -/
theorem ApiCall.spares (allocs : Heap → Allocs) (c : ApiCall)
    (hc : ∀ commandQueue kernel, c ≠ .enqueueNDRangeKernel commandQueue kernel) :
    Keeps (ProcessSpares t) (c.run env allocs : Api δ Ptr) := by
  have hreturn {m : Api δ Unit} (hm : Keeps (ProcessSpares t) m) :
      Keeps (ProcessSpares t) (do m; return 0 : Api δ Ptr) := .bind Spares.trans hm fun _ => spares_pure 0
  cases c with
  | createContext n devices notify data => exact spares_inClCreateContext t n devices notify data
  | releaseContext ctx => exact hreturn (spares_inClReleaseContext t ctx)
  | createCommandQueue ctx dev => exact spares_inClCreateCommandQueue t ctx dev
  | releaseCommandQueue cmdq => exact hreturn (spares_inClReleaseCommandQueue t cmdq)
  | createProgramWithBinary ctx n devices binaries =>
    exact spares_inClCreateProgram t allocs ctx n devices binaries
  | releaseProgram prg => exact hreturn (spares_inClReleaseProgram t prg)
  | createBuffer ctx flags size ptr => exact spares_ofOwn (heapSpares_inClCreateBuffer t ctx flags size ptr)
  | releaseMemObject mem => exact hreturn (spares_ofOwn (heapSpares_inClReleaseMemObject t mem))
  | createKernel prg name => exact spares_createKernel t prg name
  | setKernelArg kern i size value =>
    exact hreturn (spares_ofOwn (heapSpares_inClSetKernelArg t kern i size value))
  | releaseKernel kern => exact hreturn (spares_ofOwn (heapSpares_inClReleaseKernel t kern))
  | enqueueBuffer a cmdq mem offset size ptr => exact hreturn (spares_ofHost _)
  | enqueueNDRangeKernel cmdq kern => exact absurd rfl (hc cmdq kern)

end Process

end BaremetalCrt
