/-
# BaremetalCrt.Launch.Bounds — what the bound of the communication area refuses.

Both walks over the arguments test `comm.addr + comm.size ≤ end of the slot` before they go on, so that
the last byte of the area is never used.  A layout that fits is refused exactly when it fills the area to
its end: on the way there, and never on the way back.

Since `CL_OUT_OF_RESOURCES` is also what a driver may return, the code alone does not say who stopped a
launch. `clEnqueueNDRangeKernel_cause` tells the two apart by the trace: the code comes from an operation
that returned it, or from the bound of the walk there, and then no operation has failed.
-/
import BaremetalCrt.Launch.CommArea
import BaremetalCrt.Launch.DataFlow

namespace BaremetalCrt

open Lib

variable {δ : Type} {h : Host δ} {cmdq kernel : Ptr}

/-! ## The layout -/

/-- The payload of an argument: its value, or the content of its buffer. -/
def payloadSize (h : Host δ) (arg : KernArg) : UInt64 :=
  if arg.argtype = commArgMem then (h.mems arg.val.handle).size else arg.size

/-- An argument that is set, to a value or to a buffer that is valid. -/
def Passable (h : Host δ) (arg : KernArg) : Prop :=
  arg.argtype = commArgVal ∨ arg.argtype = commArgMem ∧ memIsValid h arg.val.handle = clSuccess

/-- The end of the payloads, from the end `e` of the one before: each behind a header of sixteen bytes at
the next multiple of eight. -/
def packedEnd (e : Nat) (sizes : List Nat) : Nat := sizes.foldl (fun e n => alignUp 8 e + 16 + n) e

/-- The end of the layout: the area header, the name behind it, and the arguments. -/
def argumentsEnd (h : Host δ) (kernel : Ptr) : Nat :=
  packedEnd ((h.prgs (kernGetProgram h kernel)).comm.addr.toNat + 16 + 16 +
      (h.kerns kernel).name.sizeWithNul.toNat)
    ((h.kerns kernel).args.map fun arg => (payloadSize h arg).toNat)

theorem le_packedEnd (sizes : List Nat) (e : Nat) : e ≤ packedEnd e sizes := by
  induction sizes generalizing e with
  | nil => exact le_rfl
  | cons n sizes ih =>
    have hup := le_alignUp (show 0 < 8 by decide) e
    have hrest := ih (alignUp 8 e + 16 + n)
    show e ≤ packedEnd (alignUp 8 e + 16 + n) sizes
    omega

theorem enqueueSource_of_passable {arg : KernArg} (hp : Passable h arg) :
    ∃ src, enqueueSource h arg = .ok src ∧ src.2.1 = payloadSize h arg := by
  have hne : commArgVal ≠ commArgMem := by decide
  rcases hp with hval | ⟨hmem, hv⟩
  · refine ⟨_, enqueueSource_eq_ok.mpr (Or.inl ⟨hval, rfl⟩), ?_⟩
    rw [payloadSize, hval, if_neg hne]
  · refine ⟨_, enqueueSource_eq_ok.mpr (Or.inr ⟨hmem, hv, rfl⟩), ?_⟩
    rw [payloadSize, if_pos hmem]

/-- A slot that ends in the area is refused when it ends with the area. -/
theorem exceedsComm_iff {comm : ProgramComm} {paddr size : UInt64}
    (hsum : comm.addr.toNat + comm.size.toNat < 2 ^ 64)
    (hle : paddr.toNat + 16 + size.toNat ≤ comm.addr.toNat + comm.size.toNat) :
    ExceedsComm comm paddr size ↔ paddr.toNat + 16 + size.toNat = comm.addr.toNat + comm.size.toNat := by
  have hhead : sizeofCommArgHeader.toNat = 16 := rfl
  have hlimit : (comm.addr + comm.size).toNat = comm.addr.toNat + comm.size.toNat := by
    rw [UInt64.toNat_add, Nat.mod_eq_of_lt hsum]
  have hend : (paddr + sizeofCommArgHeader + size).toNat = paddr.toNat + 16 + size.toNat := by
    rw [UInt64.toNat_add, UInt64.toNat_add, hhead]
    omega
  rw [ExceedsComm, UInt64.le_iff_toNat_le, hlimit, hend]
  omega

/-- **The walk over a layout that fits** goes through, or is refused at the slot that ends with the area. -/
theorem argPlan_bound {comm : ProgramComm} (hsum : comm.addr.toNat + comm.size.toNat < 2 ^ 64) :
    ∀ (args : List KernArg) (arg : KernArg) (paddr : UInt64), (∀ a ∈ arg :: args, Passable h a) →
      packedEnd (paddr.toNat + 16 + (payloadSize h arg).toNat) (args.map fun a => (payloadSize h a).toNat) ≤
        comm.addr.toNat + comm.size.toNat →
      if packedEnd (paddr.toNat + 16 + (payloadSize h arg).toNat)
          (args.map fun a => (payloadSize h a).toNat) = comm.addr.toNat + comm.size.toNat
      then (argPlan h comm (arg :: args) paddr).2 = .error clOutOfResources
      else ∃ paddr', (argPlan h comm (arg :: args) paddr).2 = .ok paddr' := by
  intro args
  induction args with
  | nil =>
    intro arg paddr hpass hfits
    obtain ⟨src, hsrc, hsize⟩ := enqueueSource_of_passable (hpass arg (List.mem_cons_self ..))
    have hex := exceedsComm_iff hsum hfits
    rw [← hsize] at hex
    by_cases htop : packedEnd (paddr.toNat + 16 + (payloadSize h arg).toNat) [] =
        comm.addr.toNat + comm.size.toNat
    · have hexceeds : ExceedsComm comm paddr src.2.1 := hex.mpr (hsize ▸ htop)
      rw [List.map_nil, if_pos htop, argPlan_exceeds hsrc hexceeds]
    · have hfit : ¬ ExceedsComm comm paddr src.2.1 := fun hexceeds => htop (hsize ▸ hex.mp hexceeds)
      rw [List.map_nil, if_neg htop, argPlan_fits hsrc hfit]
      exact ⟨_, rfl⟩
  | cons next args ih =>
    intro arg paddr hpass hfits
    obtain ⟨src, hsrc, hsize⟩ := enqueueSource_of_passable (hpass arg (List.mem_cons_self ..))
    -- the next slot starts behind this one, so this one does not end with the area
    have hrest : packedEnd (alignUp 8 (paddr.toNat + 16 + (payloadSize h arg).toNat) + 16 +
        (payloadSize h next).toNat) (args.map fun a => (payloadSize h a).toNat) ≤
        comm.addr.toNat + comm.size.toNat := hfits
    have hup := le_alignUp (show 0 < 8 by decide) (paddr.toNat + 16 + (payloadSize h arg).toNat)
    have hnext := le_packedEnd (args.map fun a => (payloadSize h a).toNat)
      (alignUp 8 (paddr.toNat + 16 + (payloadSize h arg).toNat) + 16 + (payloadSize h next).toNat)
    have hslot : (nextSlot paddr src.2.1).toNat =
        alignUp 8 (paddr.toNat + 16 + (payloadSize h arg).toNat) := by
      rw [hsize]
      exact nextSlot_toNat (by omega)
    have hfit : ¬ ExceedsComm comm paddr src.2.1 := fun hexceeds => by
      rw [hsize, exceedsComm_iff hsum (by omega)] at hexceeds
      omega
    have hrec := ih next (nextSlot paddr src.2.1) (fun a ha => hpass a (List.mem_cons_of_mem _ ha))
      (hslot ▸ hrest)
    rw [argPlan_fits hsrc hfit]
    rw [hslot] at hrec
    exact hrec

/-! ## Who stops a launch -/

/-- Some operation of the trace returned `e`: the code is the device's and not the library's own. -/
def Shown (tr : List (Event δ)) (e : ClInt) : Prop := ∃ x ∈ tr, x.ret = e

theorem shown_push (s : Sys δ) (x : Event δ) : Shown (s.push x).trace x.ret :=
  ⟨x, List.mem_append_right _ (List.mem_singleton_self x), rfl⟩

/-- Reads are cut short by a read. -/
theorem wp_fetch_cause (dev : Ptr) (gs : List Get) (s : Sys δ) :
    Exec.wp (fetch dev gs) (fun _ _ => True) (fun e s' => Shown s'.trace e) s := by
  induction gs generalizing s with
  | nil => trivial
  | cons g gs ih =>
    rw [fetch_cons, Exec.wp_bind, getOne]
    refine Exec.wp_ite.mpr ⟨fun _ => ?_, fun _ => ih s⟩
    rw [devReadMem, wp_devCall]
    exact ⟨fun _ => ih _, fun _ => shown_push ..⟩

/-- Polling is cut short by an operation, or by a header that is broken. -/
theorem wp_poll_cause (dev : Ptr) (comm : ProgramComm) (n : Nat) (s : Sys δ) :
    Exec.wp (poll dev comm n) (fun _ s' => s'.host = s.host)
      (fun e s' => e = clInvalidDevice ∨ Shown s'.trace e) s := by
  induction n generalizing s with
  | zero => exact rfl
  | succ n ih =>
    refine wp_poll_succ (fun _ => Or.inr (shown_push ..)) (fun _ _ => Or.inr (shown_push ..))
      (fun _ _ _ => Or.inl rfl) (fun _ _ _ _ => rfl) (fun _ _ _ _ => ?_)
    rw [Exec.wp_bind, devRun, wp_devCall]
    exact ⟨fun _ => ih _, fun _ => Or.inr (shown_push ..)⟩

theorem wp_execute_cause (dev : Ptr) (comm : ProgramComm) (s : Sys δ) :
    Exec.wp (execute dev comm) (fun _ s' => s'.host = s.host)
      (fun e s' => e = clInvalidDevice ∨ Shown s'.trace e) s := by
  rw [execute, Exec.wp_bind, devRun, wp_devCall]
  refine ⟨fun _ => ?_, fun _ => Or.inr (shown_push ..)⟩
  rw [Exec.wp_bind]
  refine (wp_poll_cause dev comm maxPolls _).mono (fun done s' hhost => ?_) (fun _ _ h => h)
  cases done with
  | false => exact Or.inl rfl
  | true => exact hhost

/-- The walk back over a layout that was accepted is cut short by a read. -/
theorem wp_recvArguments_cause {dev : Ptr} {comm : ProgramComm} {s : Sys δ} {paddr : UInt64}
    (hkern : kernIsValid s.host kernel = clSuccess)
    (hplan : (argPlan s.host comm (argList (s.host.kerns kernel)) (argStart comm)).2 = .ok paddr) :
    Exec.wp (recvArguments dev kernel comm (s.host.kerns kernel).numArgs) (fun _ _ => True)
      (fun e s' => Shown s'.trace e) s := by
  rw [Exec.wp, recvArguments_apply dev kernel comm s hkern, ← Exec.wp, recvStart_eq, recvPlan_eq hplan,
    fetchPlan, bind_assoc, Exec.wp_bind]
  exact (wp_fetch_cause ..).mono (fun _ _ _ => trivial) (fun _ _ h => h)

/-- The bound is what stops the launch: everything in front of the slot that it refuses went through. -/
structure StoppedByBound (h : Host δ) (cmdq kernel : Ptr) (d : δ) : Prop where
  reset : (devControlRet (·.reset) h (ctxGetDevice h (cmdqGetContext h cmdq)) d).1 = clSuccess
  program : prgIsValid h (kernGetProgram h kernel) = clSuccess
  sent : (launchSent h cmdq kernel d).ret = .ok ()
  plan : (commPlan h (h.prgs (kernGetProgram h kernel)).comm (h.kerns kernel)).2 = .error clOutOfResources

theorem prgIsValid_ne_resources (h : Host δ) (prg : Ptr) : prgIsValid h prg ≠ clOutOfResources := by
  unfold prgIsValid isValid
  split_ifs <;> decide

/-- **`CL_OUT_OF_RESOURCES` comes from an operation or from the bound** of the walk there, and when the
bound stops the launch no operation has failed. -/
theorem clEnqueueNDRangeKernel_cause (h : Host δ) (cmdq kernel : Ptr) (d : δ) :
    ((clEnqueueNDRangeKernel cmdq kernel h d).ret = clOutOfResources →
        Shown (clEnqueueNDRangeKernel cmdq kernel h d).trace clOutOfResources ∨
          StoppedByBound h cmdq kernel d) ∧
      (StoppedByBound h cmdq kernel d →
        (clEnqueueNDRangeKernel cmdq kernel h d).ret = clOutOfResources ∧
          AllSucceed (clEnqueueNDRangeKernel cmdq kernel h d).trace) := by
  let E (e : ClInt) (s' : Sys δ) : Prop :=
    (e = clOutOfResources → Shown s'.trace clOutOfResources ∨ StoppedByBound h cmdq kernel d) ∧
      (StoppedByBound h cmdq kernel d → e = clOutOfResources ∧ AllSucceed s'.trace)
  suffices hrun : Exec.wp (launch cmdq kernel) (fun _ _ => ¬ StoppedByBound h cmdq kernel d) E
      (⟨h, d, [], []⟩ : Sys δ) by
    rcases hr : launch cmdq kernel (⟨h, d, [], []⟩ : Sys δ) with ⟨e | _, s⟩
    · simpa only [clEnqueueNDRangeKernel, hr, retOf] using hrun.error hr
    · have hnot := hrun.ok hr
      refine ⟨fun hret => ?_, fun hstop => absurd hstop hnot⟩
      rw [clEnqueueNDRangeKernel, hr] at hret
      cases hret
  -- a phase that the bound does not get to stop, or is behind it
  have hother {e : ClInt} {s' : Sys δ} (hnot : ¬ StoppedByBound h cmdq kernel d)
      (hshown : e = clOutOfResources → Shown s'.trace clOutOfResources) : E e s' :=
    ⟨fun he => Or.inl (hshown he), fun hstop => absurd hstop hnot⟩
  generalize hdev : ctxGetDevice h (cmdqGetContext h cmdq) = dev
  rw [launch_eq, Exec.wp_bind, Exec.wp_gets, Exec.wp_bind, Exec.wp_gets, Exec.wp_bind, devReset,
    wp_devCall, hdev]
  refine ⟨fun hreset => ?_, fun hreset => hother (fun hstop => hreset (hdev ▸ hstop.reset)) fun he => ?_⟩
  swap
  · exact he ▸ shown_push ..
  rw [Exec.wp_bind]
  by_cases hv : prgIsValid h (kernGetProgram h kernel) = clSuccess
  swap
  · rw [Exec.wp_of_error (upload_invalid _ kernel hv)]
    exact hother (fun hstop => hv hstop.program) fun he => absurd he (prgIsValid_ne_resources h _)
  have hsent : transfer h dev (launchPuts h (kernGetProgram h kernel) kernel)
      (devControlRet (·.reset) h dev d).2 = launchSent h cmdq kernel d := by
    rw [launchSent, hdev]
  have hkern := kernIsValid_of_prgIsValid hv
  refine wp_upload hv hkern (fun s₂ paddr hs₂ _ hok hend => ?_) (fun e s₂ hs₂ hfail => ?_)
  · have hnot : ¬ StoppedByBound h cmdq kernel d := fun hstop => by
      cases hend.symm.trans hstop.plan
    show Exec.wp (execute dev _ >>= fun _ => recvArguments dev kernel _ _) _ E s₂
    rw [Exec.wp_bind]
    refine (wp_execute_cause dev _ s₂).mono (fun _ s₃ hhost => ?_) (fun e s₃ he => hother hnot fun heq => ?_)
    · have hkerns : s₃.host.kerns = h.kerns := by rw [hhost, hs₂.host.kerns]; rfl
      have hmems : s₃.host.mems = h.mems := by rw [hhost, hs₂.host.mems]; rfl
      have hplan : (argPlan s₃.host (h.prgs (kernGetProgram h kernel)).comm
          (argList (s₃.host.kerns kernel)) (argStart (h.prgs (kernGetProgram h kernel)).comm)).2 =
            .ok paddr := by
        rw [hkerns, argPlan_congr hmems]
        exact hend
      have hrecv : Exec.wp (recvArguments dev kernel (h.prgs (kernGetProgram h kernel)).comm
          (s₃.host.kerns kernel).numArgs) (fun _ _ => True) (fun e s' => Shown s'.trace e) s₃ :=
        wp_recvArguments_cause (by rw [kernIsValid, hkerns]; exact hkern) hplan
      rw [hkerns] at hrecv
      exact hrecv.mono (fun _ _ _ => hnot) fun e s' he => hother hnot fun heq => heq ▸ he
    · rcases he with rfl | he
      · cases heq
      · exact heq ▸ he
  · have htrace := hs₂.trace
    rcases hfail with hput | ⟨hput, hplan⟩
    · refine hother (fun hstop => ?_) fun heq => ?_
      · have hok := hstop.sent
        rw [← hsent] at hok
        cases hput.symm.trans hok
      · obtain ⟨-, x, hx, hret⟩ := transfer_error hput
        refine ⟨x, ?_, hret.trans heq⟩
        rw [htrace]
        exact List.mem_append_right _ hx
    · refine ⟨fun heq => Or.inr ⟨hdev ▸ hreset, hv, hsent ▸ hput, heq ▸ hplan⟩, fun hstop => ?_⟩
      have hcode := hstop.plan
      refine ⟨Except.error.inj (hplan.symm.trans hcode), ?_⟩
      rw [htrace]
      intro x hx
      rcases List.mem_append.mp hx with hx | hx
      · obtain rfl := List.mem_singleton.mp hx
        exact hreset
      · exact (transfer_ok hput).2 x hx

/-! ## Layouts that fit -/

/-- The walk over the arguments does not get to its end: there is no device or no program, or a transfer
of something that is not there comes first. -/
def NeverReached (h : Host δ) (cmdq kernel : Ptr) : Prop :=
  ctxGetDevice h (cmdqGetContext h cmdq) = 0 ∨ prgIsValid h (kernGetProgram h kernel) ≠ clSuccess ∨
    ∃ p ∈ launchPuts h (kernGetProgram h kernel) kernel, p.Refused

/-- The plan of a layout that fits. -/
theorem commPlan_bound (hpass : ∀ arg ∈ (h.kerns kernel).args, Passable h arg)
    (hsum : (h.prgs (kernGetProgram h kernel)).comm.addr.toNat +
      (h.prgs (kernGetProgram h kernel)).comm.size.toNat < 2 ^ 64)
    (hfits : argumentsEnd h kernel ≤ (h.prgs (kernGetProgram h kernel)).comm.addr.toNat +
      (h.prgs (kernGetProgram h kernel)).comm.size.toNat) :
    (commPlan h (h.prgs (kernGetProgram h kernel)).comm (h.kerns kernel)).2 = .error clOutOfResources ↔
      argumentsEnd h kernel = (h.prgs (kernGetProgram h kernel)).comm.addr.toNat +
        (h.prgs (kernGetProgram h kernel)).comm.size.toNat := by
  have hname : payloadSize h (nameArg (h.kerns kernel)) = (h.kerns kernel).name.sizeWithNul :=
    if_neg (show commArgVal ≠ commArgMem by decide)
  rw [argumentsEnd] at hfits ⊢
  have hle := le_packedEnd ((h.kerns kernel).args.map fun arg => (payloadSize h arg).toNat)
    ((h.prgs (kernGetProgram h kernel)).comm.addr.toNat + 16 + 16 +
      (h.kerns kernel).name.sizeWithNul.toNat)
  have hstart : (argStart (h.prgs (kernGetProgram h kernel)).comm).toNat =
      (h.prgs (kernGetProgram h kernel)).comm.addr.toNat + 16 := by
    have h16 : (alignOf sizeofCommAreaHeader 8).toNat = 16 := by decide
    rw [argStart, UInt64.toNat_add, h16]
    exact Nat.mod_eq_of_lt (by omega)
  have hall : ∀ a ∈ argList (h.kerns kernel), Passable h a := fun a ha => by
    rcases List.mem_cons.mp ha with rfl | ha
    · exact Or.inl rfl
    · exact hpass a ha
  have hbound := argPlan_bound hsum (h.kerns kernel).args (nameArg (h.kerns kernel))
    (argStart (h.prgs (kernGetProgram h kernel)).comm) hall (by rw [hstart, hname]; exact hfits)
  rw [hstart, hname] at hbound
  constructor
  · intro herr
    by_contra htop
    rw [if_neg htop] at hbound
    obtain ⟨paddr, hok⟩ := hbound
    cases hok.symm.trans herr
  · intro htop
    rw [if_pos htop] at hbound
    exact hbound

/-- **No argument list that fits is refused**, except one that ends with the area.  Of a layout that fits
in the communication area, `CL_OUT_OF_RESOURCES` comes from an operation of the device alone, on every
device, exactly when it does not fill the area to its end, or is never walked to its end. -/
theorem clEnqueueNDRangeKernel_resources_iff [Inhabited δ] (h : Host δ) (cmdq kernel : Ptr)
    (hpass : ∀ arg ∈ (h.kerns kernel).args, Passable h arg)
    (hsum : (h.prgs (kernGetProgram h kernel)).comm.addr.toNat +
      (h.prgs (kernGetProgram h kernel)).comm.size.toNat < 2 ^ 64)
    (hfits : argumentsEnd h kernel ≤ (h.prgs (kernGetProgram h kernel)).comm.addr.toNat +
      (h.prgs (kernGetProgram h kernel)).comm.size.toNat) :
    (∀ (devs : Ptr → ClDevice δ) (d : δ),
      (clEnqueueNDRangeKernel cmdq kernel { h with devs := devs } d).ret = clOutOfResources →
        Shown (clEnqueueNDRangeKernel cmdq kernel { h with devs := devs } d).trace clOutOfResources) ↔
      (argumentsEnd h kernel = (h.prgs (kernGetProgram h kernel)).comm.addr.toNat +
          (h.prgs (kernGetProgram h kernel)).comm.size.toNat →
        NeverReached h cmdq kernel) := by
  have hplan (devs : Ptr → ClDevice δ) :
      commPlan { h with devs := devs } (h.prgs (kernGetProgram h kernel)).comm (h.kerns kernel) =
        commPlan h (h.prgs (kernGetProgram h kernel)).comm (h.kerns kernel) := by
    have hmems : ({ h with devs := devs } : Host δ).mems = h.mems := rfl
    simp only [commPlan, argPlan_congr hmems]
  constructor
  · intro hall htop
    by_contra hreach
    obtain ⟨hdev, hreach⟩ := not_or.mp hreach
    obtain ⟨hprg, hputs⟩ := not_or.mp hreach
    -- on a board that accepts everything, only the bound is left
    have hstop : StoppedByBound h.onBoard cmdq kernel default := by
      refine ⟨?_, not_not.mp hprg, ?_, ?_⟩
      · show (devControlRet _ h.onBoard (ctxGetDevice h (cmdqGetContext h cmdq)) default).1 = _
        rw [devControlRet, if_neg (not_not.mpr (devIsValid_onBoard h hdev))]
        rfl
      · have hsame : launchPuts h.onBoard (kernGetProgram h kernel) kernel =
            launchPuts h (kernGetProgram h kernel) kernel := launchPuts_devs h _ _ kernel
        show (transfer h.onBoard (ctxGetDevice h (cmdqGetContext h cmdq))
          (launchPuts h.onBoard (kernGetProgram h kernel) kernel) _).ret = _
        rw [hsame]
        exact transfer_onBoard_ok h hdev hputs _
      · show (commPlan { h with devs := _ } (h.prgs (kernGetProgram h kernel)).comm (h.kerns kernel)).2 = _
        rw [hplan]
        exact (commPlan_bound hpass hsum hfits).mpr htop
    obtain ⟨hret, hok⟩ := (clEnqueueNDRangeKernel_cause h.onBoard cmdq kernel default).2 hstop
    obtain ⟨x, hx, hcode⟩ := hall _ default hret
    have hsuccess := hok x hx
    rw [hcode] at hsuccess
    cases hsuccess
  · intro hcond devs d hret
    rcases (clEnqueueNDRangeKernel_cause { h with devs := devs } cmdq kernel d).1 hret with hshown | hstop
    · exact hshown
    · have hcode : (commPlan { h with devs := devs } (h.prgs (kernGetProgram h kernel)).comm
          (h.kerns kernel)).2 = .error clOutOfResources := hstop.plan
      rw [hplan] at hcode
      exfalso
      rcases hcond ((commPlan_bound hpass hsum hfits).mp hcode) with hdev | hprg | hputs
      · have hreset := hstop.reset
        have hbad : devIsValid { h with devs := devs } 0 ≠ clSuccess := by
          show clInvalidDevice ≠ clSuccess
          decide
        rw [show ctxGetDevice { h with devs := devs } (cmdqGetContext { h with devs := devs } cmdq) = 0 from
          hdev, devControlRet, if_pos hbad] at hreset
        exact hbad hreset
      · exact hprg hstop.program
      · have hsent := not_refused_of_transfer hstop.sent
        rw [show kernGetProgram { h with devs := devs } kernel = kernGetProgram h kernel from rfl,
          launchPuts_devs] at hsent
        exact hsent hputs

/-- A kernel `k` with a value of four bytes: its layout has sixty bytes. -/
def valueKernel : ClKernel :=
  ⟨openclIcdMagic, 1, plainKernel.name, 1, [⟨commArgVal, 0, 4, .addr 0x100⟩], rfl⟩

/-- A host with a program whose communication area has `size` bytes, and a kernel with one value. -/
def areaHost (size : UInt64) : Host Unit :=
  .single (fun _ => 0) (boardOps []) (textProgram ⟨0x80001000, size⟩) valueKernel fun _ => ⟨0, 0, 0, 0⟩

/-- One byte more than the layout has is enough, whatever the device. -/
theorem area61_notRefused :
    argumentsEnd (areaHost 61) 1 < 0x80001000 + 61 ∧
      ∀ (devs : Ptr → ClDevice Unit) (d : Unit),
        (clEnqueueNDRangeKernel 1 1 { areaHost 61 with devs := devs } d).ret = clOutOfResources →
          Shown (clEnqueueNDRangeKernel 1 1 { areaHost 61 with devs := devs } d).trace clOutOfResources := by
  have hpass : ∀ arg ∈ ((areaHost 61).kerns 1).args, Passable (areaHost 61) arg := by
    intro arg harg
    obtain rfl := List.mem_singleton.mp harg
    exact Or.inl rfl
  refine ⟨by decide, ?_⟩
  exact (clEnqueueNDRangeKernel_resources_iff (areaHost 61) 1 1 hpass (by decide) (by decide)).mpr
    fun htop => absurd htop (by decide)

/-- The layout that fills its area is refused, though every operation succeeded. -/
theorem area60_refused :
    argumentsEnd (areaHost 60) 1 = 0x80001000 + 60 ∧
      ¬ ((clEnqueueNDRangeKernel 1 1 (areaHost 60) ()).ret = clOutOfResources →
        Shown (clEnqueueNDRangeKernel 1 1 (areaHost 60) ()).trace clOutOfResources) := by
  refine ⟨by decide, fun h => ?_⟩
  have hret : (clEnqueueNDRangeKernel 1 1 (areaHost 60) ()).ret = clOutOfResources := by decide
  have hnone : ∀ x ∈ (clEnqueueNDRangeKernel 1 1 (areaHost 60) ()).trace, x.ret ≠ clOutOfResources := by
    decide
  obtain ⟨x, hx, hcode⟩ := h hret
  exact hnone x hx hcode

end BaremetalCrt
