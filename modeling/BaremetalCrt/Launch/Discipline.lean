/-
# BaremetalCrt.Launch.Discipline — in which order a launch touches the device.

The device is adversarial here: every operation may return anything, the headers read at the polls
are arbitrary.  What holds of every run is a past-time property of the trace (`Disciplined`): memory
is only touched while the device is halted, the first run comes after a complete upload, and host
memory only changes after the device was seen done.

`Uploading` is the invariant up to the first run, `Running` the one after it; each device operation
has one rule for each, and the loops are inductions over their iterations.

The three clauses of `Disciplined` are what a user of a device relies on:

* memory is read and written only when the last of reset, run and stop was a reset or a stop that succeeded
  (`Halted`);
* the first run finds everything on the device that the launch sends (`Uploaded`): the areas that are not
  there yet, the area header, the name, and the arguments one behind the other;
* host memory changes only when a header that was read since the last run said done (`DoneSeen`).

Each clause is about the events before an event, so that a launch that is cut short at any place keeps it as
well.
-/
import BaremetalCrt.Launch.Transfer
import BaremetalCrt.Launch.Frames

namespace BaremetalCrt

open Lib

variable {δ : Type}

/-! ## What a trace may look like -/

/-- The most recent of reset, run and stop was a reset or a stop, and it succeeded. -/
def Halted (tr : List (Event δ)) : Prop :=
  ∃ e, latest Event.isControl tr = some e ∧ (e.op = .reset ∨ e.op = .stop) ∧ e.ret = clSuccess

/-- A write of `data` at `paddr` was issued and succeeded. -/
def Wrote (tr : List (Event δ)) (cargo : Cargo) (paddr : UInt64) (data : List UInt8) : Prop :=
  ∃ e ∈ tr, e.op = .writeMem cargo paddr data ∧ e.ret = clSuccess

/-- Every argument was written to a slot of its own, from `paddr` on: its header, and its payload if
the kernel will read it. -/
def ArgsWritten (h : Host δ) (tr : List (Event δ)) : List KernArg → UInt64 → Prop
  | [], _ => True
  | arg :: args, paddr =>
    ∃ src, enqueueSource h arg = .ok src ∧
      Wrote tr .argHeader paddr (CommArgHeader.toBytes ⟨arg.argtype, arg.index, src.2.1⟩) ∧
      (src.2.2 = true → Wrote tr .argPayload (payloadAddr paddr) (h.read src.1 src.2.1.toNat)) ∧
      ArgsWritten h tr args (nextSlot paddr src.2.1)

/-- Everything the kernel needs is on the device: the chunks that were not already there, the area
header, the kernel name and every argument; and no argument was left unset. -/
structure Uploaded (h : Host δ) (prg kernel : Ptr) (tr : List (Event δ)) : Prop where
  chunks : ∀ i, i < (h.prgs prg).numChunks.toNat →
    ¬ ((h.prgs prg).chunkAt i).Skipped →
    Wrote tr (.chunk i) ((h.prgs prg).chunkAt i).paddr (((h.prgs prg).chunkAt i).data h)
  areaHeader : Wrote tr .areaHeader (h.prgs prg).comm.addr
    (initialHeader (h.kerns kernel).numArgs).toBytes
  args : ArgsWritten h tr (argList (h.kerns kernel)) (argStart (h.prgs prg).comm)
  set : ∀ arg ∈ (h.kerns kernel).args, arg.argtype ≠ commArgNotused

/-- Since the most recent run, an area header with the right magic and `done` set was read. -/
def DoneSeen (comm : ProgramComm) (tr : List (Event δ)) : Prop :=
  ∃ e ∈ since Event.isRun tr, DoneHeader comm e

/-- What each event of a launch owes to the events before it. -/
structure Disciplined (h : Host δ) (prg kernel : Ptr) (pre : List (Event δ)) (e : Event δ) :
    Prop where
  halted : e.op.isMem = true → Halted pre
  firstRun : e.op = .run → (∀ x ∈ pre, x.op ≠ .run) → Uploaded h prg kernel pre
  hostKept : e.hostAfter ≠ e.hostBefore → DoneSeen (h.prgs prg).comm pre

/-! ## Extending a trace by one event -/

theorem halted_snoc_control {tr : List (Event δ)} {e : Event δ}
    (hop : e.op = .reset ∨ e.op = .stop) (hret : e.ret = clSuccess) : Halted (tr ++ [e]) := by
  refine ⟨e, ?_, hop, hret⟩
  rw [latest_snoc, if_pos]
  rcases hop with h | h <;> simp [Event.isControl, DevOp.isControl, h]

theorem halted_snoc_mem {tr : List (Event δ)} {e : Event δ} (h : Halted tr)
    (hop : e.op.isMem = true) : Halted (tr ++ [e]) := by
  obtain ⟨x, hx, hk⟩ := h
  refine ⟨x, ?_, hk⟩
  rw [latest_snoc, if_neg, hx]
  simpa [Event.isControl, DevOp.isMem] using hop

theorem doneSeen_snoc {comm : ProgramComm} {tr : List (Event δ)} {e : Event δ}
    (h : DoneSeen comm tr) (hop : e.op ≠ .run) : DoneSeen comm (tr ++ [e]) := by
  obtain ⟨x, hx, hk⟩ := h
  refine ⟨x, ?_, hk⟩
  rw [since_snoc, if_neg (by simpa [Event.isRun] using hop)]
  exact List.mem_append_left _ hx

theorem isMem_ne_run {op : DevOp} (h : op.isMem = true) : op ≠ .run := by
  rintro rfl
  simp [DevOp.isMem, DevOp.isControl] at h

/-! ## The invariant before the first run -/

/-- The trace of a launch that has reset the device and not run it yet. -/
structure Uploading (h : Host δ) (prg kernel : Ptr) (tr : List (Event δ)) : Prop where
  disciplined : EachAfter (Disciplined h prg kernel) tr
  halted : Halted tr
  notRun : ∀ e ∈ tr, e.op ≠ .run

/-- Memory operations that leave the host alone keep the invariant, whatever they return. -/
theorem Uploading.append {h : Host δ} {prg kernel : Ptr} {tr es : List (Event δ)}
    (hu : Uploading h prg kernel tr)
    (hes : ∀ e ∈ es, e.op.isMem = true ∧ e.hostAfter = e.hostBefore) :
    Uploading h prg kernel (tr ++ es) := by
  induction es generalizing tr with
  | nil => rwa [List.append_nil]
  | cons e es ih =>
    obtain ⟨hop, hkept⟩ := hes e (List.mem_cons_self ..)
    have hsnoc : Uploading h prg kernel (tr ++ [e]) :=
      { disciplined := eachAfter_snoc.mpr ⟨hu.disciplined,
          { halted := fun _ => hu.halted
            firstRun := fun hrun => absurd hrun (isMem_ne_run hop)
            hostKept := fun hne => absurd hkept hne }⟩
        halted := halted_snoc_mem hu.halted hop
        notRun := fun x hx => by
          rcases List.mem_append.mp hx with hx | hx
          · exact hu.notRun x hx
          · obtain rfl := List.mem_singleton.mp hx
            exact isMem_ne_run hop }
    rw [show tr ++ e :: es = tr ++ [e] ++ es by simp]
    exact ih hsnoc fun x hx => hes x (List.mem_cons_of_mem _ hx)

/-- Transfers that all went through are in the trace, with the bytes they carry. -/
theorem wrote_of_transfer {h : Host δ} {dev : Ptr} {ps : List Put} {d : δ}
    (hok : (transfer h dev ps d).ret = .ok ()) {p : Put} (hp : p ∈ ps) (tr : List (Event δ)) :
    Wrote (tr ++ (transfer h dev ps d).events) p.cargo p.paddr (p.data h) := by
  obtain ⟨hops, hrets⟩ := transfer_ok hok
  have hmem : p.op h ∈ (transfer h dev ps d).events.map Event.op := by
    rw [hops]
    exact List.mem_map_of_mem hp
  obtain ⟨e, he, hop⟩ := List.mem_map.mp hmem
  exact ⟨e, List.mem_append_right _ he, hop, hrets e he⟩

/-! ## The upload -/

theorem argsWritten_of_argPlan {h : Host δ} {comm : ProgramComm} {tr : List (Event δ)} :
    ∀ {args : List KernArg} {paddr paddr' : UInt64}, (argPlan h comm args paddr).2 = .ok paddr' →
      (∀ p ∈ (argPlan h comm args paddr).1, Wrote tr p.cargo p.paddr (p.data h)) →
      ArgsWritten h tr args paddr
  | [], _, _, _, _ => trivial
  | arg :: args, paddr, paddr', hok, hall => by
    rcases hsrc : enqueueSource h arg with e | src
    · rw [argPlan_error hsrc] at hok
      cases hok
    · by_cases hex : ExceedsComm comm paddr src.2.1
      · rw [argPlan_exceeds hsrc hex] at hok
        cases hok
      · rw [argPlan_fits hsrc hex] at hok hall
        refine ⟨src, hsrc, ?_, fun hneed => ?_, ?_⟩
        · have hhead := hall _ (List.mem_append_left _ (List.mem_cons_self ..))
          -- the local record is sent whole
          have hdata : Put.data h ⟨.argHeader, paddr,
              .own (CommArgHeader.toBytes ⟨arg.argtype, arg.index, src.2.1⟩), sizeofCommArgHeader⟩ =
              CommArgHeader.toBytes ⟨arg.argtype, arg.index, src.2.1⟩ :=
            h.read_own (by simp [sizeofCommArgHeader])
          rw [hdata] at hhead
          exact hhead
        · have hpay : (⟨.argPayload, payloadAddr paddr, src.1, src.2.1⟩ : Put) ∈
              slotPuts arg src paddr := by simp [slotPuts, hneed]
          exact hall _ (List.mem_append_left _ hpay)
        · exact argsWritten_of_argPlan hok fun p hp => hall p (List.mem_append_right _ hp)

theorem ArgsWritten.set {h : Host δ} {tr : List (Event δ)} :
    ∀ {args : List KernArg} {paddr : UInt64}, ArgsWritten h tr args paddr →
      ∀ arg ∈ args, arg.argtype ≠ commArgNotused
  | a :: args, _, ⟨_, hsrc, _, _, hrest⟩, arg, hmem => by
    rcases List.mem_cons.mp hmem with rfl | hmem
    · exact enqueueSource_set hsrc
    · exact hrest.set arg hmem

/-- When all transfers of a launch went through, and its arguments were accepted, everything the
kernel needs is on the device. -/
theorem uploaded_of_transfer {h : Host δ} {prg kernel dev : Ptr} {d : δ} {paddr : UInt64}
    (hok : (transfer h dev (launchPuts h prg kernel) d).ret = .ok ())
    (hend : (commPlan h (h.prgs prg).comm (h.kerns kernel)).2 = .ok paddr) (tr : List (Event δ)) :
    Uploaded h prg kernel (tr ++ (transfer h dev (launchPuts h prg kernel) d).events) := by
  have hcomm (p : Put) (hp : p ∈ (commPlan h (h.prgs prg).comm (h.kerns kernel)).1) :=
    wrote_of_transfer hok (List.mem_append_right (imagePuts (h.prgs prg)) hp) tr
  have hargs := argsWritten_of_argPlan hend fun p hp => hcomm p (List.mem_cons_of_mem _ hp)
  refine ⟨fun i hi hns => ?_, ?_, hargs, fun arg hmem => hargs.set arg (List.mem_cons_of_mem _ hmem)⟩
  · have hput : chunkPut i ((h.prgs prg).chunkAt i) ∈ launchPuts h prg kernel :=
      List.mem_append_left _
        ((mem_chunkPuts _ 0).mpr ⟨i, Nat.zero_le i, by omega, hns, rfl⟩)
    have hwrote := wrote_of_transfer hok hput tr
    rwa [chunkPut_data] at hwrote
  · have harea := hcomm _ (List.mem_cons_self ..)
    have htake : (areaPut (h.prgs prg).comm (h.kerns kernel)).data h =
        (initialHeader (h.kerns kernel).numArgs).toBytes :=
      h.read_own (by simp [areaPut, sizeofCommAreaHeader])
    rw [htake] at harea
    exact harea

theorem wp_upload_disciplined {prg kernel : Ptr} (dev : Ptr) {s : Sys δ}
    (hprg : prg = kernGetProgram s.host kernel) (hu : Uploading s.host prg kernel s.trace) :
    Exec.wp (upload dev prg kernel)
      (fun r s' => r = ((s.host.prgs prg).comm, (s.host.kerns kernel).numArgs) ∧
        Uploading s.host prg kernel s'.trace ∧ Uploaded s.host prg kernel s'.trace)
      (fun _ s' => Uploading s.host prg kernel s'.trace) s := by
  by_cases hv : prgIsValid s.host prg = clSuccess
  · have hkern : kernIsValid s.host kernel = clSuccess := kernIsValid_of_prgIsValid (hprg ▸ hv)
    refine wp_upload hv hkern (fun s' paddr hafter _ hok hend => ?_) (fun e s' hafter _ => ?_)
    · rw [hafter.trace]
      exact ⟨rfl, hu.append transfer_events_mem, uploaded_of_transfer hok hend s.trace⟩
    · rw [hafter.trace]
      exact hu.append transfer_events_mem
  · rw [Exec.wp_of_error (upload_invalid dev kernel hv)]
    exact hu

/-! ## The invariants from the first run on -/

/-- The trace of a launch that has run the device. -/
structure Running (h : Host δ) (prg kernel : Ptr) (tr : List (Event δ)) : Prop where
  disciplined : EachAfter (Disciplined h prg kernel) tr
  hasRun : ∃ e ∈ tr, e.op = .run

/-- The trace of a launch that has seen the device done and not touched it since. -/
structure Receiving (h : Host δ) (prg kernel : Ptr) (tr : List (Event δ)) : Prop
    extends Running h prg kernel tr where
  halted : Halted tr
  doneSeen : DoneSeen (h.prgs prg).comm tr

/-- The first run: it is the event that needs the upload. -/
theorem Uploading.snoc_run {h : Host δ} {prg kernel : Ptr} {tr : List (Event δ)} {e : Event δ}
    (hu : Uploading h prg kernel tr) (hup : Uploaded h prg kernel tr) (hop : e.op = .run)
    (hkept : e.hostAfter = e.hostBefore) : Running h prg kernel (tr ++ [e]) where
  disciplined := eachAfter_snoc.mpr ⟨hu.disciplined,
    { halted := fun hmem => absurd hop (isMem_ne_run hmem)
      firstRun := fun _ _ => hup
      hostKept := fun hne => absurd hkept hne }⟩
  hasRun := ⟨e, List.mem_append_right _ (List.mem_singleton.mpr rfl), hop⟩

/-- After the first run an event needs a halted device if it touches memory, and a device seen done
if it changes the host. -/
theorem Running.snoc {h : Host δ} {prg kernel : Ptr} {tr : List (Event δ)} {e : Event δ}
    (hr : Running h prg kernel tr) (hhalt : e.op.isMem = true → Halted tr)
    (hkept : e.hostAfter ≠ e.hostBefore → DoneSeen (h.prgs prg).comm tr) :
    Running h prg kernel (tr ++ [e]) where
  disciplined := by
    obtain ⟨r, hr_mem, hr_op⟩ := hr.hasRun
    exact eachAfter_snoc.mpr ⟨hr.disciplined,
      { halted := hhalt
        firstRun := fun _ hnone => absurd hr_op (hnone r hr_mem)
        hostKept := hkept }⟩
  hasRun := by
    obtain ⟨r, hr_mem, hr_op⟩ := hr.hasRun
    exact ⟨r, List.mem_append_left _ hr_mem, hr_op⟩

/-- A read keeps a device that was seen done as it is, whatever it returns. -/
theorem Receiving.snoc_mem {h : Host δ} {prg kernel : Ptr} {tr : List (Event δ)} {e : Event δ}
    (hr : Receiving h prg kernel tr) (hop : e.op.isMem = true) :
    Receiving h prg kernel (tr ++ [e]) where
  toRunning := hr.toRunning.snoc (fun _ => hr.halted) (fun _ => hr.doneSeen)
  halted := halted_snoc_mem hr.halted hop
  doneSeen := doneSeen_snoc hr.doneSeen (isMem_ne_run hop)

/-! ## Polling -/

/-- One poll stops the device before it reads the header, and runs it again only when the header was
not done; when the loop says done, the header it read last was. -/
theorem wp_poll {h : Host δ} {prg kernel : Ptr} (dev : Ptr) (n : Nat) :
    ∀ s : Sys δ, Running h prg kernel s.trace →
      Exec.wp (poll dev (h.prgs prg).comm n)
        (fun done s' => Running h prg kernel s'.trace ∧
          (done = true → Receiving h prg kernel s'.trace))
        (fun _ s' => Running h prg kernel s'.trace) s := by
  induction n with
  | zero =>
    intro s hr
    exact ⟨hr, fun hdone => by cases hdone⟩
  | succ n ih =>
    intro s hr
    have hcontrol (tr : List (Event δ)) {op : DevOp} (hop : op.isMem = false) :
        op.isMem = true → Halted tr := fun htrue => by rw [hop] at htrue; cases htrue
    have hstop : Running h prg kernel (s.halted dev).trace :=
      hr.snoc (hcontrol _ rfl) (fun hne => absurd rfl hne)
    have hhalt (hret : (controlEvent .stop (·.stop) dev s).ret = clSuccess) :
        Halted (s.halted dev).trace := halted_snoc_control (Or.inr rfl) hret
    have hread (hret : (controlEvent .stop (·.stop) dev s).ret = clSuccess) :
        Running h prg kernel (s.polled dev (h.prgs prg).comm).trace :=
      hstop.snoc (fun _ => hhalt hret) (fun hne => absurd rfl hne)
    refine wp_poll_succ (fun _ => hstop) (fun hret _ => hread hret) (fun hret _ _ => hread hret)
      (fun hret hret' hmagic hdone => ?_) (fun hret _ _ _ => ?_)
    · -- done: this very read is the one that saw it
      refine ⟨hread hret, fun _ => ⟨hread hret, halted_snoc_mem (hhalt hret) rfl, ?_⟩⟩
      refine ⟨hCommEvent dev (h.prgs prg).comm.addr (s.halted dev), ?_, _, rfl, hret', hmagic, hdone⟩
      show _ ∈ since _ (_ ++ [_])
      rw [since_snoc, if_neg (by simp [Event.isRun, hCommEvent])]
      exact List.mem_append_right _ (List.mem_singleton.mpr rfl)
    · -- not done yet: run again, and poll once more
      rw [Exec.wp_bind, devRun, wp_devCall]
      have hagain : Running h prg kernel ((s.polled dev (h.prgs prg).comm).push
          (controlEvent .run (·.run) dev (s.polled dev (h.prgs prg).comm))).trace :=
        (hread hret).snoc (hcontrol _ rfl) (fun hne => absurd rfl hne)
      exact ⟨fun _ => ih _ hagain, fun _ => hagain⟩

/-- The run phase. -/
theorem wp_execute {h : Host δ} {prg kernel : Ptr} (dev : Ptr) {s : Sys δ}
    (hu : Uploading h prg kernel s.trace) (hup : Uploaded h prg kernel s.trace) :
    Exec.wp (execute dev (h.prgs prg).comm)
      (fun _ s' => Receiving h prg kernel s'.trace)
      (fun _ s' => EachAfter (Disciplined h prg kernel) s'.trace) s := by
  have hrun : Running h prg kernel (s.push (controlEvent .run (·.run) dev s)).trace :=
    hu.snoc_run hup rfl rfl
  rw [execute, Exec.wp_bind, devRun, wp_devCall]
  refine ⟨fun _ => ?_, fun _ => hrun.disciplined⟩
  rw [Exec.wp_bind]
  refine (wp_poll dev maxPolls _ hrun).mono ?_ (fun _ _ hr => hr.disciplined)
  rintro (_ | _) s' ⟨hr, hdone⟩
  · exact hr.disciplined
  · exact hdone rfl

/-! ## The launch -/

/-- Reading the arguments back touches memory only, with the device halted and seen done. -/
theorem keeps_receiving (h : Host δ) (prg kernel dev kern : Ptr) (comm : ProgramComm)
    (numArgs : UInt32) :
    Exec.Keeps (fun s s' => Receiving h prg kernel s.trace → Receiving h prg kernel s'.trace)
      (recvArguments dev kern comm numArgs) :=
  keeps_recvArguments ⟨fun _ hr => hr, fun _ _ _ hab hbc hr => hbc (hab hr)⟩ dev kern comm numArgs
    fun _ _ _ _ _ hr => hr.snoc_mem rfl

theorem wp_launch_disciplined (cmdq kernel : Ptr) (s : Sys δ) (hs : s.trace = []) :
    Exec.wp (launch cmdq kernel)
      (fun _ s' =>
        EachAfter (Disciplined s.host (kernGetProgram s.host kernel) kernel) s'.trace)
      (fun _ s' =>
        EachAfter (Disciplined s.host (kernGetProgram s.host kernel) kernel) s'.trace) s := by
  rw [launch_eq, Exec.wp_bind, Exec.wp_gets, Exec.wp_bind, Exec.wp_gets]
  generalize ctxGetDevice s.host (cmdqGetContext s.host cmdq) = dev
  -- the reset is allowed at the start of a trace
  have hreset : EachAfter (Disciplined s.host (kernGetProgram s.host kernel) kernel)
      (s.push (controlEvent .reset (·.reset) dev s)).trace := by
    show EachAfter _ (s.trace ++ [_])
    rw [hs]
    exact eachAfter_snoc.mpr ⟨eachAfter_nil _,
      { halted := fun hmem => by simp [controlEvent, DevOp.isMem, DevOp.isControl] at hmem
        firstRun := fun hrun => by cases hrun
        hostKept := fun hne => absurd rfl hne }⟩
  rw [Exec.wp_bind, devReset, wp_devCall]
  refine ⟨fun hret => ?_, fun _ => hreset⟩
  have hu : Uploading s.host (kernGetProgram s.host kernel) kernel
      (s.push (controlEvent .reset (·.reset) dev s)).trace :=
    { disciplined := hreset
      halted := halted_snoc_control (Or.inl rfl) hret
      notRun := by
        intro e he
        obtain rfl : e = controlEvent .reset (·.reset) dev s := by
          simpa [Sys.push, hs] using he
        simp [controlEvent] }
  rw [Exec.wp_bind]
  refine (wp_upload_disciplined dev rfl hu).mono ?_ (fun _ _ hu' => hu'.disciplined)
  rintro _ s₂ ⟨rfl, hu₂, hup⟩
  rw [Exec.wp_bind]
  refine (wp_execute dev hu₂ hup).mono ?_ (fun _ _ hd => hd)
  intro _ s₃ hr
  exact Exec.wp_state.mpr (keeps_receiving s.host _ kernel dev kernel _ _ s₃ hr).disciplined

/-- **Launch discipline.**  Whatever the device does, every event of a launch is allowed by the ones
before it: memory is touched only while the device is halted, the first run comes after a complete
upload, and host memory changes only after the device was seen done.  The events account for every
change of the host memory and of the device. -/
theorem clEnqueueNDRangeKernel_disciplined (cmdq kernel : Ptr) (host : Host δ) (dev : δ) :
    let out := clEnqueueNDRangeKernel cmdq kernel host dev
    EachAfter (Disciplined host (kernGetProgram host kernel) kernel) out.trace ∧
      Linked Event.before Event.after (host.bytes, dev) out.trace (out.host.bytes, out.dev) := by
  intro out
  refine ⟨?_, ?_⟩
  · have hrun := wp_launch_disciplined cmdq kernel ⟨host, dev, [], []⟩ rfl
    rcases hout : launch cmdq kernel ⟨host, dev, [], []⟩ with ⟨_ | _, s'⟩
    · have := hrun.error hout
      simpa [out, clEnqueueNDRangeKernel, hout] using this
    · have := hrun.ok hout
      simpa [out, clEnqueueNDRangeKernel, hout] using this
  · obtain ⟨es, hes, hlink⟩ := recorded_steps.keeps_launch cmdq kernel ⟨host, dev, [], []⟩
    rw [List.nil_append] at hes
    show Linked _ _ _ (launch cmdq kernel ⟨host, dev, [], []⟩).2.trace _
    rw [hes]
    exact hlink

end BaremetalCrt
