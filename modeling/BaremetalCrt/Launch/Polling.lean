/-
# BaremetalCrt.Launch.Polling — how a launch leaves the device.

The polling loop stops the device, reads the header and runs the device again, at most `maxPolls`
times.  Every way out of the launch but one comes after a reset or a stop: when no header ends the
polling, the loop is left after its last `dev_run`, and the timeout is returned with the device
running.  `Answers` is the device's side of the loop as a function of its state, and decides which
of the two happens.

`DeviceAnswers` is computed from the device behind the upload and the run, by the functions of its driver
alone; no trace is needed to decide it. Where every operation succeeds, a device that answers is left
halted, and one that does not is left running by a launch that returns an error (`launch_silent`).
-/
import BaremetalCrt.Launch.Transfer
import BaremetalCrt.Launch.Frames

namespace BaremetalCrt

open Lib

variable {δ : Type}

/-! ## What decides how a launch ends -/

/-- The last of reset, run and stop was a run: the device was not halted again. -/
def LeftRunning (tr : List (Event δ)) : Prop :=
  ∃ e, latest Event.isControl tr = some e ∧ e.op = .run

/-- A header that ends the polling: its magic is broken, or it is done. -/
def CommAreaHeader.endsPolling (header : CommAreaHeader) : Bool :=
  header.magic ≠ baremetalCrtCommMagic || header.done ≠ 0

/-- Whether the device, halted and asked for its header at most `n` times and run in between, shows
one that ends the polling. -/
def Answers (h : Host δ) (dev : Ptr) (comm : ProgramComm) : Nat → δ → List UInt8 → Bool
  | 0, _, _ => false
  | n + 1, d, hComm =>
    let halted := (devControlRet (·.stop) h dev d).2
    let out := devReadMemRet h dev comm.addr false sizeofCommAreaHeader halted
    let hComm := hComm.mapIdx fun i b => (out.1.2 i).getD b
    (CommAreaHeader.ofBytes hComm).endsPolling ||
      Answers h dev comm n (devControlRet (·.run) h dev out.2).2 hComm

/-- The device when polling starts: reset, loaded with everything the launch transfers, and run. -/
def deviceAtPolling (h : Host δ) (cmdq kernel : Ptr) (d : δ) : δ :=
  let dev := ctxGetDevice h (cmdqGetContext h cmdq)
  let reset := (devControlRet (·.reset) h dev d).2
  let loaded := (transfer h dev (launchPuts h (kernGetProgram h kernel) kernel) reset).dev
  (devControlRet (·.run) h dev loaded).2

/-- The device of a launch answers one of its polls. -/
def DeviceAnswers (h : Host δ) (cmdq kernel : Ptr) (d : δ) : Prop :=
  Answers h (ctxGetDevice h (cmdqGetContext h cmdq)) (h.prgs (kernGetProgram h kernel)).comm maxPolls
    (deviceAtPolling h cmdq kernel d) (initialHeader (h.kerns kernel).numArgs).toBytes = true

/-! ## Traces and the last control operation -/

theorem leftRunning_snoc {tr : List (Event δ)} {e : Event δ} :
    LeftRunning (tr ++ [e]) ↔ e.op = .run ∨ e.op.isMem = true ∧ LeftRunning tr := by
  unfold LeftRunning
  rw [latest_snoc]
  by_cases hc : e.op.isControl = true
  · have hctl : e.isControl = true := hc
    have hmem : ¬ e.op.isMem = true := by simp [DevOp.isMem, hc]
    simp [hctl, hmem]
  · have hctl : ¬ e.isControl = true := hc
    have hrun : e.op ≠ .run := by
      intro hop
      rw [hop] at hc
      exact hc rfl
    simp only [if_neg hctl, hrun, false_or, DevOp.isMem]
    simp [hc]

theorem leftRunning_append_mem {tr es : List (Event δ)} (hes : ∀ e ∈ es, e.op.isMem = true) :
    LeftRunning (tr ++ es) ↔ LeftRunning tr := by
  induction es generalizing tr with
  | nil => rw [List.append_nil]
  | cons e es ih =>
    have hmem : e.op.isMem = true := hes e (List.mem_cons_self ..)
    have hrun : e.op ≠ .run := by
      intro hop
      simp [hop, DevOp.isMem, DevOp.isControl] at hmem
    rw [show tr ++ e :: es = tr ++ [e] ++ es by simp,
      ih fun x hx => hes x (List.mem_cons_of_mem _ hx), leftRunning_snoc]
    simp [hrun, hmem]

/-! ## The loop -/

/-- The loop says done, or gives up on a broken magic, with the device halted, exactly when the
device answers; otherwise it comes to its end after a run. -/
theorem wp_poll_answers (dev : Ptr) (comm : ProgramComm) (n : Nat) :
    ∀ s : Sys δ, LeftRunning s.trace →
      Exec.wp (poll dev comm n)
        (fun done s' => AllSucceed s'.trace →
          Answers s.host dev comm n s.dev s.hComm = done ∧ (LeftRunning s'.trace ↔ done = false))
        (fun _ s' => AllSucceed s'.trace →
          Answers s.host dev comm n s.dev s.hComm = true ∧ ¬ LeftRunning s'.trace) s := by
  induction n with
  | zero => exact fun s hs _ => ⟨rfl, by simpa using hs⟩
  | succ n ih =>
    intro s _
    have hstop : ¬ LeftRunning (s.halted dev).trace := by
      show ¬ LeftRunning (s.trace ++ [_])
      rw [leftRunning_snoc]
      simp [controlEvent, DevOp.isMem, DevOp.isControl]
    have hread : ¬ LeftRunning (s.polled dev comm).trace := by
      show ¬ LeftRunning (_ ++ [_])
      rw [leftRunning_snoc]
      simp only [not_or, not_and]
      exact ⟨by simp [hCommEvent], fun _ => hstop⟩
    have hanswers : Answers s.host dev comm (n + 1) s.dev s.hComm =
        ((s.header dev comm).endsPolling ||
          Answers s.host dev comm n (devControlRet (·.run) s.host dev (s.polled dev comm).dev).2
            (s.polled dev comm).hComm) := rfl
    rw [hanswers]
    refine wp_poll_succ (fun hret hall => absurd (AllSucceed.last hall) hret)
      (fun _ hret hall => absurd (AllSucceed.last hall) hret) (fun _ _ hmagic _ => ?_)
      (fun _ _ _ hdone _ => ?_) (fun _ _ hmagic hdone => ?_)
    · -- the magic is broken, and the device is halted
      have hend : (s.header dev comm).endsPolling = true := by
        simp [CommAreaHeader.endsPolling, hmagic]
      rw [hend]
      exact ⟨rfl, hread⟩
    · -- it is done, and halted as well
      have hend : (s.header dev comm).endsPolling = true := by
        simp [CommAreaHeader.endsPolling, hdone]
      rw [hend]
      exact ⟨rfl, fun hleft => absurd hleft hread, fun hfalse => by cases hfalse⟩
    · -- neither: it runs again, and the rest of the polls decides
      have hgo : (s.header dev comm).endsPolling = false := by
        simp [CommAreaHeader.endsPolling, hmagic, hdone]
      rw [hgo, Bool.false_or, Exec.wp_bind, devRun, wp_devCall]
      refine ⟨fun _ => ?_, fun hret hall => absurd (AllSucceed.last hall) hret⟩
      exact ih _ (leftRunning_snoc.mpr (Or.inl rfl))

theorem answers_congr {h h' : Host δ} (hdevs : h'.devs = h.devs) (dev : Ptr) (comm : ProgramComm)
    (n : Nat) (d : δ) (hComm : List UInt8) :
    Answers h' dev comm n d hComm = Answers h dev comm n d hComm := by
  induction n generalizing d hComm with
  | zero => rfl
  | succ n ih => simp only [Answers, devControlRet_congr hdevs, devReadMemRet_congr hdevs, ih]

/-- The run phase, from an upload that went through. -/
theorem wp_execute_answers (dev : Ptr) (comm : ProgramComm) (s : Sys δ) :
    Exec.wp (execute dev comm)
      (fun _ s' => AllSucceed s'.trace →
        Answers s.host dev comm maxPolls (devControlRet (·.run) s.host dev s.dev).2 s.hComm = true ∧
          ¬ LeftRunning s'.trace)
      (fun _ s' => AllSucceed s'.trace →
        (¬ LeftRunning s'.trace ↔
          Answers s.host dev comm maxPolls (devControlRet (·.run) s.host dev s.dev).2 s.hComm =
            true)) s := by
  rw [execute, Exec.wp_bind, devRun, wp_devCall]
  refine ⟨fun _ => ?_, fun hret hall => absurd (AllSucceed.last hall) hret⟩
  have hrun : LeftRunning (s.push (controlEvent .run (·.run) dev s)).trace :=
    leftRunning_snoc.mpr (Or.inl rfl)
  rw [Exec.wp_bind]
  refine (wp_poll_answers dev comm maxPolls _ hrun).mono (fun done s' h => ?_) (fun _ s' h => ?_)
  · cases done with
    | false =>
      intro hall
      obtain ⟨hans, hleft⟩ := h hall
      refine ⟨fun hnot => absurd (hleft.mpr rfl) hnot, fun htrue => ?_⟩
      have hfalse : Answers s.host dev comm maxPolls
          (devControlRet (·.run) s.host dev s.dev).2 s.hComm = false := hans
      rw [hfalse] at htrue
      cases htrue
    | true =>
      intro hall
      obtain ⟨hans, hleft⟩ := h hall
      exact ⟨hans, fun hl => by cases hleft.mp hl⟩
  · intro hall
    obtain ⟨hans, hleft⟩ := h hall
    exact ⟨fun _ => hans, fun _ => hleft⟩

/-! ## The launch -/

theorem keeps_notRunning (dev kernel : Ptr) (comm : ProgramComm) (numArgs : UInt32) :
    Exec.Keeps
      (fun s s' : Sys δ => (LeftRunning s'.trace ↔ LeftRunning s.trace) ∧
        (AllSucceed s'.trace → AllSucceed s.trace))
      (recvArguments dev kernel comm numArgs) :=
  keeps_recvArguments
    ⟨fun _ => ⟨Iff.rfl, id⟩, fun _ _ _ hab hbc => ⟨hbc.1.trans hab.1, hab.2 ∘ hbc.2⟩⟩
    dev kernel comm numArgs fun _ _ _ _ s =>
      ⟨leftRunning_append_mem (by simp [readEvent, DevOp.isMem, DevOp.isControl]),
        fun hall => hall.of_append.1⟩

/-- How a launch leaves the device, whatever it returns. -/
theorem wp_launch_leftRunning (cmdq kernel : Ptr) (s : Sys δ) :
    let P (s' : Sys δ) : Prop := AllSucceed s'.trace →
      (¬ LeftRunning s'.trace ↔ ¬ Accepted s.host kernel ∨ DeviceAnswers s.host cmdq kernel s.dev)
    Exec.wp (launch cmdq kernel) (fun _ => P) (fun _ => P) s := by
  intro P
  rw [launch_eq, Exec.wp_bind, Exec.wp_gets, Exec.wp_bind, Exec.wp_gets, Exec.wp_bind, devReset,
    wp_devCall]
  refine ⟨fun _ => ?_, fun hret hall => absurd (AllSucceed.last hall) hret⟩
  have hreset : ¬ LeftRunning (s.push (controlEvent .reset (·.reset)
      (ctxGetDevice s.host (cmdqGetContext s.host cmdq)) s)).trace := by
    show ¬ LeftRunning (s.trace ++ [_])
    rw [leftRunning_snoc]
    simp [controlEvent, DevOp.isMem, DevOp.isControl]
  generalize hs₁ : s.push (controlEvent .reset (·.reset)
    (ctxGetDevice s.host (cmdqGetContext s.host cmdq)) s) = s₁ at hreset ⊢
  have hhost : s₁.host = s.host := by rw [← hs₁]; rfl
  have hdev : s₁.dev = (devControlRet (·.reset) s.host
      (ctxGetDevice s.host (cmdqGetContext s.host cmdq)) s.dev).2 := by rw [← hs₁]; rfl
  rw [Exec.wp_bind]
  by_cases hv : prgIsValid s₁.host (kernGetProgram s.host kernel) = clSuccess
  · have hkern : kernIsValid s₁.host kernel = clSuccess := by
      rw [hhost] at hv ⊢
      exact kernIsValid_of_prgIsValid hv
    have hmem : ∀ e ∈ (transfer s₁.host (ctxGetDevice s.host (cmdqGetContext s.host cmdq))
        (launchPuts s₁.host (kernGetProgram s.host kernel) kernel) s₁.dev).events,
        e.op.isMem = true := fun e he => (transfer_events_mem e he).1
    refine wp_upload hv hkern (fun s₂ paddr hafter hcomm _ hend => ?_) (fun e s₂ hafter hfail => ?_)
    · -- the upload went through: the device decides
      rw [hhost] at hafter hcomm hend
      have hacc : Accepted s.host kernel := ⟨hhost ▸ hv, paddr, hend⟩
      have hans : Answers s₂.host (ctxGetDevice s.host (cmdqGetContext s.host cmdq))
          (s.host.prgs (kernGetProgram s.host kernel)).comm maxPolls
          (devControlRet (·.run) s₂.host (ctxGetDevice s.host (cmdqGetContext s.host cmdq)) s₂.dev).2
          s₂.hComm = true ↔ DeviceAnswers s.host cmdq kernel s.dev := by
        rw [answers_congr (hafter.host.devs.trans (congrArg Host.devs hhost)),
          devControlRet_congr (hafter.host.devs.trans (congrArg Host.devs hhost)), hafter.dev, hcomm,
          hdev]
        rfl
      rw [Exec.wp_bind, hhost]
      refine (wp_execute_answers _ _ s₂).mono (fun _ s₃ h => ?_) (fun _ s₃ h hall => ?_)
      · -- done was seen: only reads follow
        have hrecv := keeps_notRunning (ctxGetDevice s.host (cmdqGetContext s.host cmdq)) kernel
          (s.host.prgs (kernGetProgram s.host kernel)).comm (s.host.kerns kernel).numArgs s₃
        refine Exec.wp_state.mpr fun hall => ?_
        obtain ⟨htrue, hnot⟩ := h (hrecv.2 hall)
        rw [hrecv.1]
        exact ⟨fun _ => Or.inr (hans.mp htrue), fun _ => hnot⟩
      · rw [h hall, hans]
        exact ⟨Or.inr, fun h => h.resolve_left (not_not.mpr hacc)⟩
    · -- the upload was cut short before the first run
      intro hall
      rw [hafter.trace] at hall ⊢
      rcases hfail with hput | ⟨_, hend⟩
      · obtain ⟨hne, x, hx, hret⟩ := transfer_error hput
        exact absurd (hret ▸ hall.of_append.2 x hx) hne
      · rw [leftRunning_append_mem hmem]
        refine ⟨fun _ => Or.inl ?_, fun _ => hreset⟩
        rintro ⟨_, paddr, hok⟩
        rw [hhost, hok] at hend
        cases hend
  · rw [Exec.wp_of_error (upload_invalid _ kernel hv)]
    rw [hhost] at hv
    exact fun _ => ⟨fun _ => Or.inl fun hacc => hv hacc.1, fun _ => hreset⟩

/-! ## A device that never answers -/

/-- Stop, run and read always succeed, and no header read from it ends the polling. -/
structure Silent (h : Host δ) (dev : Ptr) (comm : ProgramComm) : Prop where
  stop : ∀ d, (devControlRet (·.stop) h dev d).1 = clSuccess
  run : ∀ d, (devControlRet (·.run) h dev d).1 = clSuccess
  read : ∀ d, (devReadMemRet h dev comm.addr false sizeofCommAreaHeader d).1.1 = clSuccess
  header : ∀ d (hComm : List UInt8), hComm.length = 16 →
    (CommAreaHeader.ofBytes (hComm.mapIdx fun i b =>
      ((devReadMemRet h dev comm.addr false sizeofCommAreaHeader d).1.2 i).getD b)).endsPolling = false

/-- Polling a silent device uses up its iterations and leaves it running. -/
theorem wp_poll_silent {h : Host δ} {dev : Ptr} {comm : ProgramComm} (hsil : Silent h dev comm)
    (n : Nat) : ∀ s : Sys δ, s.host = h → s.hComm.length = 16 → AllSucceed s.trace →
      LeftRunning s.trace →
      Exec.wp (poll dev comm n)
        (fun done s' => done = false ∧ AllSucceed s'.trace ∧ LeftRunning s'.trace)
        (fun _ _ => False) s := by
  induction n with
  | zero => exact fun s _ _ hall hleft => ⟨rfl, hall, hleft⟩
  | succ n ih =>
    intro s hhost hlen hall _
    subst hhost
    have hhead : (s.header dev comm).magic = baremetalCrtCommMagic ∧
        (s.header dev comm).done = 0 := by
      have hgo : (s.header dev comm).endsPolling = false :=
        hsil.header (s.halted dev).dev s.hComm hlen
      simpa [CommAreaHeader.endsPolling] using hgo
    have hlen' : (s.polled dev comm).hComm.length = 16 := by
      show (s.hComm.mapIdx _).length = 16
      rw [List.length_mapIdx, hlen]
    refine wp_poll_succ (fun hret => hret (hsil.stop s.dev)) (fun _ hret => hret (hsil.read _))
      (fun _ _ hmagic => hmagic hhead.1) (fun _ _ _ hdone => absurd hhead.2 hdone)
      (fun hret hret' _ _ => ?_)
    rw [Exec.wp_bind, devRun, wp_devCall]
    refine ⟨fun hret₂ => ?_, fun hret₂ => hret₂ (hsil.run _)⟩
    exact ih _ rfl hlen' (((hall.snoc hret).snoc hret').snoc hret₂)
      (leftRunning_snoc.mpr (Or.inl rfl))

/-- **A launch on a silent device times out with the device running**, although every operation
succeeded. -/
theorem launch_silent (h : Host δ) (cmdq kernel : Ptr) (d : δ)
    (hsil : Silent h (ctxGetDevice h (cmdqGetContext h cmdq))
      (h.prgs (kernGetProgram h kernel)).comm)
    (hacc : Accepted h kernel)
    (hreset : (devControlRet (·.reset) h (ctxGetDevice h (cmdqGetContext h cmdq)) d).1 = clSuccess)
    (hput : (transfer h (ctxGetDevice h (cmdqGetContext h cmdq))
      (launchPuts h (kernGetProgram h kernel) kernel)
      (devControlRet (·.reset) h (ctxGetDevice h (cmdqGetContext h cmdq)) d).2).ret = .ok ()) :
    (clEnqueueNDRangeKernel cmdq kernel h d).ret = clInvalidDevice ∧
      AllSucceed (clEnqueueNDRangeKernel cmdq kernel h d).trace ∧
      LeftRunning (clEnqueueNDRangeKernel cmdq kernel h d).trace := by
  have hrun : Exec.wp (launch cmdq kernel) (fun _ _ => False)
      (fun e s' => e = clInvalidDevice ∧ AllSucceed s'.trace ∧ LeftRunning s'.trace)
      (⟨h, d, [], []⟩ : Sys δ) := by
    rw [launch_eq, Exec.wp_bind, Exec.wp_gets, Exec.wp_bind, Exec.wp_gets, Exec.wp_bind, devReset,
      wp_devCall]
    refine ⟨fun hret => ?_, fun hret => absurd hreset hret⟩
    have hall₁ : AllSucceed (Sys.push ⟨h, d, [], []⟩ (controlEvent .reset (·.reset)
        (ctxGetDevice h (cmdqGetContext h cmdq)) ⟨h, d, [], []⟩)).trace :=
      AllSucceed.snoc (fun e he => absurd he (List.not_mem_nil)) hret
    rw [Exec.wp_bind]
    refine wp_upload hacc.1 (kernIsValid_of_prgIsValid hacc.1) (fun s₂ _ hafter hcomm hok _ => ?_)
      (fun e s₂ _ hfail => ?_)
    · -- everything went through: run, and poll in vain
      have hdevs : s₂.host.devs = h.devs := hafter.host.devs
      have hall₂ : AllSucceed s₂.trace := by
        intro e he
        rw [hafter.trace] at he
        rcases List.mem_append.mp he with he | he
        · exact hall₁ e he
        · exact (transfer_ok hok).2 e he
      have hsil₂ : Silent s₂.host (ctxGetDevice h (cmdqGetContext h cmdq))
          (h.prgs (kernGetProgram h kernel)).comm := by
        refine ⟨fun d => ?_, fun d => ?_, fun d => ?_, fun d bs hbs => ?_⟩
        · rw [devControlRet_congr hdevs]
          exact hsil.stop d
        · rw [devControlRet_congr hdevs]
          exact hsil.run d
        · rw [devReadMemRet_congr hdevs]
          exact hsil.read d
        · rw [devReadMemRet_congr hdevs]
          exact hsil.header d bs hbs
      have hlen : s₂.hComm.length = 16 := by rw [hcomm, CommAreaHeader.length_toBytes]
      rw [Exec.wp_bind, execute, Exec.wp_bind, devRun, wp_devCall]
      refine ⟨fun hret₂ => ?_, fun hret₂ => absurd (hsil₂.run _) hret₂⟩
      rw [Exec.wp_bind]
      refine (wp_poll_silent hsil₂ maxPolls (s₂.push (controlEvent .run (·.run) _ s₂)) rfl hlen
        (hall₂.snoc hret₂) (leftRunning_snoc.mpr (Or.inl rfl))).mono ?_ (fun _ _ h => h.elim)
      rintro _ s' ⟨rfl, hall', hleft⟩
      exact ⟨rfl, hall', hleft⟩
    · rcases hfail with hbad | ⟨_, hend⟩
      · have hput' : (transfer h (ctxGetDevice h (cmdqGetContext h cmdq))
            (launchPuts h (kernGetProgram h kernel) kernel)
            (devControlRet (·.reset) h (ctxGetDevice h (cmdqGetContext h cmdq)) d).2).ret =
            .error e := hbad
        rw [hput] at hput'
        cases hput'
      · obtain ⟨_, paddr, hok⟩ := hacc
        have hend' : (commPlan h (h.prgs (kernGetProgram h kernel)).comm (h.kerns kernel)).2 =
            .error e := hend
        rw [hok] at hend'
        cases hend'
  rcases hout : launch cmdq kernel ⟨h, d, [], []⟩ with ⟨e | _, s'⟩
  · obtain ⟨rfl, hall, hleft⟩ := hrun.error hout
    rw [clEnqueueNDRangeKernel, hout]
    exact ⟨rfl, hall, hleft⟩
  · exact (hrun.ok hout).elim

/-- A record that is read whole is what was read. -/
theorem mapIdx_getD_eq {bs hComm : List UInt8} (hlen : hComm.length = bs.length) :
    (hComm.mapIdx fun i b => (bs[i]?).getD b) = bs := by
  apply List.ext_getElem
  · rw [List.length_mapIdx, hlen]
  · intro i hi hi'
    simp [hi']

/-! ## The two ends of a launch -/

/-- A host with a board whose area header never changes. -/
def boardHost (header : CommAreaHeader) : Host Unit :=
  .single (fun _ => 0) (boardOps header.toBytes) (textProgram ⟨0x80001000, 0x1000⟩) plainKernel
    fun _ => ⟨0, 0, 0, 0⟩

/-- **When a launch leaves the device halted.**  If every operation that a launch issues succeeds, the
last of reset, run and stop is not a run exactly when the launch is refused before the first run, or
one of the headers that the device shows at the polls ends the polling. -/
theorem clEnqueueNDRangeKernel_halted_iff (cmdq kernel : Ptr) (host : Host δ) (dev : δ)
    (hall : AllSucceed (clEnqueueNDRangeKernel cmdq kernel host dev).trace) :
    ¬ LeftRunning (clEnqueueNDRangeKernel cmdq kernel host dev).trace ↔
      ¬ Accepted host kernel ∨ DeviceAnswers host cmdq kernel dev := by
  have hrun := wp_launch_leftRunning cmdq kernel ⟨host, dev, [], []⟩
  rcases hout : launch cmdq kernel ⟨host, dev, [], []⟩ with ⟨_ | _, s'⟩
  · rw [clEnqueueNDRangeKernel, hout] at hall ⊢
    exact hrun.error hout hall
  · rw [clEnqueueNDRangeKernel, hout] at hall ⊢
    exact hrun.ok hout hall

/-- A kernel that is done at the first poll. -/
theorem prompt_halted :
    ¬ LeftRunning (clEnqueueNDRangeKernel 1 1 (boardHost ⟨baremetalCrtCommMagic, 1, 1, 0⟩) ()).trace :=
  (clEnqueueNDRangeKernel_halted_iff 1 1 (boardHost ⟨baremetalCrtCommMagic, 1, 1, 0⟩) ()
    (by unfold AllSucceed; decide)).mpr (Or.inr (by unfold DeviceAnswers; decide))

/-- The launch of a kernel that hangs is left by its timeout with the device running, although every
operation succeeded. -/
theorem hung_leftRunning :
    ¬ (AllSucceed (clEnqueueNDRangeKernel 1 1 (boardHost (initialHeader 0)) ()).trace →
      ¬ LeftRunning (clEnqueueNDRangeKernel 1 1 (boardHost (initialHeader 0)) ()).trace) := by
  have hsil : Silent (boardHost (initialHeader 0)) 1 ⟨0x80001000, 0x1000⟩ :=
    { stop := fun _ => rfl
      run := fun _ => rfl
      read := fun _ => rfl
      header := fun _ hComm hlen => by
        show (CommAreaHeader.ofBytes (hComm.mapIdx fun i b =>
          ((initialHeader 0).toBytes[i]?).getD b)).endsPolling = false
        rw [mapIdx_getD_eq (by rw [hlen, CommAreaHeader.length_toBytes])]
        decide }
  obtain ⟨-, hall, hleft⟩ :=
    launch_silent (boardHost (initialHeader 0)) 1 1 () hsil ⟨rfl, _, rfl⟩ rfl rfl
  exact fun hclaim => hclaim hall hleft

end BaremetalCrt
