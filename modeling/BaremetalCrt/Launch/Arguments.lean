/-
# BaremetalCrt.Launch.Arguments — from `clSetKernelArg` to the launch.

The calls of `in_clSetKernelArg` on a new kernel make a map of it: the count, the records that were set
last and the unset ones between them are what `kern_get_num_args` and `kern_get_arg` answer.  A launch
needs every one of them: while a record is unset, it returns an error and never runs the device.

The two halves meet in the object: `Runtime.Arguments` has the calls as updates of the records,
`Launch.Plan` the launch as a walk over them. An unset record has the type zero, which the walk refuses, and
it refuses it before the run (`launch_unset`).
-/
import BaremetalCrt.Runtime.Arguments
import BaremetalCrt.Launch.DataFlow

namespace BaremetalCrt

open Lib

variable {δ : Type} {h : Host δ} {cmdq kernel : Ptr}

/-! ## A launch needs all arguments -/

/-- A launch that succeeds got as far as the run. -/
theorem uploads_of_success {d : δ} (hret : (clEnqueueNDRangeKernel cmdq kernel h d).ret = clSuccess) :
    Uploads h cmdq kernel d := by
  suffices hrun : Exec.wp (launch cmdq kernel) (fun _ _ => Uploads h cmdq kernel d)
      (fun e _ => e = clSuccess → Uploads h cmdq kernel d) (⟨h, d, [], []⟩ : Sys δ) by
    rcases hr : launch cmdq kernel (⟨h, d, [], []⟩ : Sys δ) with ⟨e | _, s⟩
    · apply hrun.error hr
      simpa only [clEnqueueNDRangeKernel, hr, retOf] using hret
    · exact hrun.ok hr
  generalize hdev : ctxGetDevice h (cmdqGetContext h cmdq) = dev
  rw [launch_eq, Exec.wp_bind, Exec.wp_gets, Exec.wp_bind, Exec.wp_gets, Exec.wp_bind, devReset,
    wp_devCall, hdev]
  refine ⟨fun hreset => ?_, fun hreset he => absurd he hreset⟩
  rw [Exec.wp_bind]
  by_cases hv : prgIsValid h (kernGetProgram h kernel) = clSuccess
  swap
  · rw [Exec.wp_of_error (upload_invalid _ kernel hv)]
    exact fun he => absurd he hv
  refine wp_upload hv (kernIsValid_of_prgIsValid hv) (fun s paddr _ _ hok hend => ?_)
    (fun e _ _ hfail he => ?_)
  · have hsent : (launchSent h cmdq kernel d).ret = .ok () := by
      rw [launchSent, hdev]
      exact hok
    have hup : Uploads h cmdq kernel d := ⟨hdev ▸ hreset, hv, hsent, paddr, hend⟩
    exact (Exec.wp_state.mpr hup).mono (fun _ _ => id) (fun _ _ hup _ => hup)
  · rcases hfail with hput | ⟨-, hplan⟩
    · exact absurd he (transfer_error hput).1
    · exact absurd he (argPlan_error_ne hplan)

/-- What is uploaded has no unset record. -/
theorem Uploads.set {d : δ} (hup : Uploads h cmdq kernel d) :
    ∀ arg ∈ (h.kerns kernel).args, arg.argtype ≠ commArgNotused := by
  intro arg harg hunset
  obtain ⟨paddr, hplan⟩ := hup.plan
  have hargs := (argPlan_slots hplan).2
  have hmem : arg ∈ argList (h.kerns kernel) := List.mem_cons_of_mem _ harg
  rw [← hargs] at hmem
  obtain ⟨slot, hslot, rfl⟩ := List.mem_map.mp hmem
  rcases argSlots_wellFormed slot hslot with ⟨hval, -⟩ | ⟨hmem, -⟩
  · rw [hval] at hunset
    cases hunset
  · rw [hmem] at hunset
    cases hunset

/-- **An unset record stops the launch** before the device runs. -/
theorem launch_unset (cmdq : Ptr) (d : δ)
    (hunset : ∃ arg ∈ (h.kerns kernel).args, arg.argtype = commArgNotused) :
    (clEnqueueNDRangeKernel cmdq kernel h d).ret ≠ clSuccess ∧
      ∀ e ∈ (clEnqueueNDRangeKernel cmdq kernel h d).trace, e.isRun = false := by
  obtain ⟨arg, harg, htype⟩ := hunset
  have hnot : ¬ Uploads h cmdq kernel d := fun hup => hup.set arg harg htype
  refine ⟨fun hret => hnot (uploads_of_success hret), earliest_eq_none_iff.mp ?_⟩
  rcases hfirst : earliest Event.isRun (clEnqueueNDRangeKernel cmdq kernel h d).trace with _ | r
  · rfl
  · exact absurd ((firstRun_launch cmdq kernel h d).1 r hfirst).1 hnot

/-! ## The map -/

/-- What the accessors say of a kernel behind the calls, when its count is `n`. -/
structure ArgumentMap (h : Host δ) (kern : Ptr) (calls : List SetArg) (n : UInt32) : Prop where
  count : kernGetNumArgs h kern = .ok n
  none : calls = [] → n = 0
  largest : calls ≠ [] →
    (∀ c ∈ calls, c.index.toNat < n.toNat) ∧ ∃ c ∈ calls, n.toNat = c.index.toNat + 1
  set : ∀ pre c post, calls = pre ++ c :: post → (∀ c' ∈ post, c'.index ≠ c.index) →
    kernGetArg h kern c.index = .ok c.record
  unset : ∀ i < n, (∀ c ∈ calls, c.index ≠ i) → kernGetArg h kern i = .ok .zero
  outside : ∀ i, n ≤ i → kernGetArg h kern i = .error clInvalidValue

theorem kernGetArg_getD {kern : Ptr} {i : UInt32} (hv : kernIsValid h kern = clSuccess)
    (hi : i < (h.kerns kern).numArgs) :
    kernGetArg h kern i = .ok ((h.kerns kern).args.getD i.toNat .zero) := by
  have hlt : i.toNat < (h.kerns kern).args.length := by
    rw [(h.kerns kern).args_length]
    exact UInt32.lt_iff_toNat_lt.mp hi
  rw [kernGetArg_eq_ok hv hlt, List.getD_eq_getElem?_getD, List.getElem?_eq_getElem hlt, Option.getD_some]

theorem kernGetArg_outside {kern : Ptr} {i : UInt32} (hv : kernIsValid h kern = clSuccess)
    (hi : (h.kerns kern).numArgs ≤ i) : kernGetArg h kern i = .error clInvalidValue := by
  simp only [kernGetArg, hv, check_success, if_pos hi]
  rfl

/-- **Kernel arguments form a map.** Whatever calls of `in_clSetKernelArg` are made on a kernel that was
just created, in any order and with repeats and gaps, a host that has the kernel then reads the last
record of every index and unset ones in the gaps; and with a gap no launch of it runs the device. -/
theorem setArgs_argumentMap (env : Env) (program kern : Ptr) (name : CStr) (s₀ s : Heap)
    (hcreate : inClCreateKernel env program (some name) s₀ = (.ok kern, s)) (calls : List SetArg)
    (hvalue : ∀ c ∈ calls, c.value ≠ 0) (hindex : ∀ c ∈ calls, c.index.toNat < 2 ^ 32 - 1)
    (halloc : Allocates env kern calls s) (h : Host δ)
    (hkern : h.kerns kern = (setArgs env kern calls s).kernel kern name) :
    ∃ n, ArgumentMap h kern calls n ∧
      ∀ cmdq d, (∃ i < n, ∀ c ∈ calls, c.index ≠ i) →
        (clEnqueueNDRangeKernel cmdq kern h d).ret ≠ clSuccess ∧
          ∀ e ∈ (clEnqueueNDRangeKernel cmdq kern h d).trace, e.isRun = false := by
  have hbare := created_bare hcreate
  have hs := hbare.argsSound
  have hne : ∀ c ∈ calls, c.index ≠ -1 := fun c hc heq => by
    have hlt := hindex c hc
    rw [heq] at hlt
    exact absurd hlt (by decide)
  have hrun := run_setArgs hs hvalue hne halloc
  generalize ht : setArgs env kern calls s = t at hrun hkern
  have hover := sets_overwrites env kern
  have hsound : t.ArgsSound kern := hover.keeps_run hrun hs
  obtain ⟨-, hbelow, hlast⟩ := count_run hrun hs
  rw [hbare.numArgs] at hlast
  have hv : kernIsValid h kern = clSuccess := by
    rw [kernIsValid, hkern]
    exact hsound.valid
  have hnum : (h.kerns kern).numArgs = (t.kerns kern).numArgs := by
    rw [hkern]
    rfl
  have hargs : (h.kerns kern).args = t.argRecords kern := by
    rw [hkern]
    rfl
  have hunset : ∀ i < (t.kerns kern).numArgs, (∀ c ∈ calls, c.index ≠ i) →
      (t.argRecords kern).getD i.toNat .zero = .zero := fun i hi hgap => by
    have hnone : ∀ c ∈ calls, ∀ _ : Heap,
        (if i.toNat = c.index.toNat then some c.record else none) = none := fun c hc _ =>
      if_neg fun heq => hgap c hc (UInt32.toNat_inj.mp heq.symm)
    have hempty : s.argRecords kern = [] :=
      List.eq_nil_of_length_eq_zero (by rw [Heap.length_argRecords, hbare.numArgs]; rfl)
    have hget := hover.get_run_of_none hrun hs hnone
    rw [hempty] at hget
    exact hget
  refine ⟨(t.kerns kern).numArgs, ⟨?_, ?_, ?_, ?_, ?_, ?_⟩, ?_⟩
  · rw [kernGetNumArgs_eq_ok hv, hnum]
  · rintro rfl
    cases hrun
    exact hbare.numArgs
  · intro hcalls
    refine ⟨hbelow, hlast.resolve_left fun hzero => ?_⟩
    obtain ⟨c, hc⟩ := List.exists_mem_of_ne_nil calls hcalls
    have hlt := hbelow c hc
    rw [hzero] at hlt
    exact absurd hlt (Nat.not_lt_zero _)
  · rintro pre c post rfl hlater
    obtain ⟨s₁, hpre, hrest⟩ := hrun.split
    cases hrest with
    | cons step hpost =>
      have hnone : ∀ c' ∈ post, ∀ _ : Heap,
          (if c.index.toNat = c'.index.toNat then some c'.record else none) = none := fun c' hc' _ =>
        if_neg fun heq => hlater c' hc' (UInt32.toNat_inj.mp heq.symm)
      have hget := hover.get_run_last hpre step hpost hs (if_pos rfl) hnone
      rw [kernGetArg_getD hv (by
        rw [hnum, UInt32.lt_iff_toNat_lt]
        exact hbelow c (List.mem_append_right _ (List.mem_cons_self ..))), hargs]
      exact congrArg Except.ok hget
  · intro i hi hgap
    rw [kernGetArg_getD hv (hnum ▸ hi), hargs, hunset i hi hgap]
  · intro i hi
    exact kernGetArg_outside hv (hnum ▸ hi)
  · rintro cmdq d ⟨i, hi, hgap⟩
    refine launch_unset cmdq d ⟨(t.argRecords kern).getD i.toNat .zero, ?_, ?_⟩
    · have hlt : i.toNat < (t.argRecords kern).length := by
        rw [Heap.length_argRecords]
        exact UInt32.lt_iff_toNat_lt.mp hi
      rw [hargs, List.getD_eq_getElem?_getD, List.getElem?_eq_getElem hlt, Option.getD_some]
      exact List.getElem_mem hlt
    · rw [hunset i hi hgap]
      rfl

/-! ## A kernel with a gap -/

/-- The heap behind the creation of a kernel named `k`, which has no arguments yet. -/
def createdHeap : Heap := (inClCreateKernel (bumpEnv 0) 8 (some plainKernel.name) bareHeap).2

/-- Argument two before argument zero, and nothing between. -/
def gappedCalls : List SetArg := [⟨2, 4, 0x200, fun _ => 0⟩, ⟨0, 8, 0x208, fun _ => 1⟩]

/-- A host with a kernel whose arguments were not all set. -/
def gappedHost : Host ByteMap :=
  .single (fun _ => 0) (boardOps []) (textProgram ⟨0x1000, 0x1000⟩)
    ((setArgs (bumpEnv 0) 0x1000 gappedCalls createdHeap).kernel 0x1000 plainKernel.name) fun _ => ⟨0, 0, 0, 0⟩

theorem gapped_argumentMap :
    ∃ n, ArgumentMap gappedHost 0x1000 gappedCalls n ∧
      ∀ cmdq d, (∃ i < n, ∀ c ∈ gappedCalls, c.index ≠ i) →
        (clEnqueueNDRangeKernel cmdq 0x1000 gappedHost d).ret ≠ clSuccess ∧
          ∀ e ∈ (clEnqueueNDRangeKernel cmdq 0x1000 gappedHost d).trace, e.isRun = false := by
  have hok : (inClCreateKernel (bumpEnv 0) 8 (some plainKernel.name) bareHeap).1 = .ok 0x1000 := by
    decide +kernel
  have hvalue : ∀ c ∈ gappedCalls, c.value ≠ 0 := by decide
  have hindex : ∀ c ∈ gappedCalls, c.index.toNat < 2 ^ 32 - 1 := by decide
  have hfirst : ((bumpEnv 0).calloc { createdHeap with bytes := fun _ => 0 }).isSome := by decide +kernel
  have hzero : ¬ ((setArgs (bumpEnv 0) 0x1000 (gappedCalls.take 1) createdHeap).kerns 0x1000).numArgs ≤ 0 := by
    decide +kernel
  exact setArgs_argumentMap (bumpEnv 0) 8 0x1000 plainKernel.name bareHeap createdHeap (Prod.ext hok rfl)
    gappedCalls hvalue hindex ⟨fun _ => hfirst, fun hgrow => absurd hgrow hzero, trivial⟩ gappedHost rfl

end BaremetalCrt
