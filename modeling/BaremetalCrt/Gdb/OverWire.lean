/-
# BaremetalCrt.Gdb.OverWire — a launch over the remote serial protocol.

The layers put together: a launch makes requests of a driver, the driver makes packets of them, the stub
behind the socket takes the packets for a processor.  What the caller sees at the top and what the processor
is left with at the bottom is `Target.launch` (`clEnqueueNDRangeKernel_overWire`), for both drivers, and no
trace of the protocol is in it.  Nor is there one in a whole run of a host (`runCalls_overWire`).

What is needed of a launch is that its ranges have room in a request (`InRange`), and of the stub that its
processor is halted when the launch begins. In a run of a host this is asked of every launch when its turn
comes (`ReadyRun`).
-/
import BaremetalCrt.Api.Simulation
import BaremetalCrt.Gdb.Board

namespace BaremetalCrt

open Lib

variable {σ : Type}

/-! ## The drivers -/

/-- Either of the two drivers does what a target does. -/
theorem DebugStub.simulates {link : Link σ} {fuel talk : Nat} {Halted : ByteMap → List UInt8 → σ → Prop}
    {Running : ByteMap → σ → Prop} {reset go : ByteMap → ByteMap}
    (hstub : DebugStub link talk Halted Running reset go) (htalk : talk + 1 < fuel) {stuck : ClInt}
    {ops : DevOps (Port σ)}
    (hops : ops = gdbRemoteOpenocdOps link fuel stuck ∨ ops = gdbRemoteQemuOps link fuel stuck) :
    DevOps.Simulates Target.Admits (Wired Halted Running) (targetOps reset go) ops := by
  rcases hops with rfl | rfl
  · exact hstub.gdbRemoteOpenocdOps_simulates htalk stuck
  · exact hstub.gdbRemoteQemuOps_simulates htalk stuck

/-! ## The launch -/

/-- **A launch over the wire.** With a debug stub behind either of the two drivers and its processor halted, a
launch whose ranges a request has room for returns the code, and leaves the host memory and the processor
behind the stub, that `Target.launch` says; nothing is left under way but the `+` of a run that never
ended. -/
theorem clEnqueueNDRangeKernel_overWire (link : Link σ) (fuel talk : Nat)
    (Halted : ByteMap → List UInt8 → σ → Prop) (Running : ByteMap → σ → Prop) (reset go : ByteMap → ByteMap)
    (hstub : DebugStub link talk Halted Running reset go) (htalk : talk + 1 < fuel) (stuck : ClInt)
    (ops : DevOps (Port σ))
    (hops : ops = gdbRemoteOpenocdOps link fuel stuck ∨ ops = gdbRemoteQemuOps link fuel stuck)
    (h : Host (Port σ)) (cmdq kernel : Ptr)
    (hvalid : devIsValid h (ctxGetDevice h (cmdqGetContext h cmdq)) = clSuccess)
    (hdev : (h.devs (ctxGetDevice h (cmdqGetContext h cmdq))).ops = some ops) (hin : InRange h kernel)
    (s : Port σ) (m : ByteMap) (hs : Halted m [] s.link) :
    let out := clEnqueueNDRangeKernel cmdq kernel h s
    let ideal := Target.launch reset go h kernel m
    out.ret = ideal.1 ∧ out.host.bytes = ideal.2.1 ∧ Wired Halted Running ideal.2.2 out.dev := by
  -- the same host in front of a target
  let devs (p : Ptr) : ClDevice Target := ⟨(h.devs p).magic, some (targetOps reset go)⟩
  have hon : OnTarget reset go (h.over devs) (ctxGetDevice h (cmdqGetContext h cmdq)) := ⟨hvalid, rfl⟩
  have hideal := hon.launch kernel m
  have hwired : Wired Halted Running ⟨m, false⟩ s := (wired_halted rfl).mpr hs
  have hdoes : ClDevice.Simulates Target.Admits (Wired Halted Running)
      (devs (ctxGetDevice h (cmdqGetContext h cmdq))) (h.devs (ctxGetDevice h (cmdqGetContext h cmdq))) :=
    ⟨rfl, hdev ▸ .some (hstub.simulates htalk hops)⟩
  obtain ⟨hret, hend⟩ := (Sys.Over.start (h := h.over devs) hdoes hwired).launch
    (clEnqueueNDRangeKernel_admitted hon (hin.over devs) m)
  rw [Target.launch_over] at hideal
  show _ ∧ _ ∧ Wired Halted Running (Target.launch reset go h kernel m).2.2 _
  rw [← hideal]
  exact ⟨congrArg retOf hret, congrArg Host.bytes hend.host, hend.dev⟩

/-! ## A host -/

/-- The process with a target in the place of every device that has a driver. -/
def Process.onTarget (q : Process (Port σ)) (reset go : ByteMap → ByteMap) (m : ByteMap) : Process Target where
  heap := q.heap
  names := q.names
  cmdqs := q.cmdqs
  ctxs := q.ctxs
  devs dev := ⟨(q.devs dev).magic, (q.devs dev).ops.map fun _ => targetOps reset go⟩
  prgs := q.prgs
  dev := ⟨m, false⟩

/-- A launch that finds the target halted, and for whose ranges a request has room. -/
def ApiCall.Ready (p : Process Target) : ApiCall → Prop
  | .enqueueNDRangeKernel _ kernel => p.Nameless kernel ∨ p.dev.running = false ∧ InRange p.host kernel
  | _ => True

/-- Every launch of the run is ready when its turn comes: the target is halted, and the launch's areas are
in range. Behind a crash there are no turns. -/
def ReadyRun (env : Env) (allocs : Heap → Allocs) : HostRun → Process Target → Prop
  | [], _ => True
  | (b, c) :: run, p =>
    c.Ready (p.withBytes b) ∧
      ((c.run env allocs (p.withBytes b)).1 ≠ .error .crash →
        ReadyRun env allocs run (c.run env allocs (p.withBytes b)).2)

instance {h : Host Target} {kernel : Ptr} : Decidable (InRange h kernel) :=
  decidable_of_iff _ ⟨fun h => InRange.mk h.1 h.2, fun h => And.intro h.chunks h.layout⟩

instance (p : Process Target) : (c : ApiCall) → Decidable (c.Ready p)
  | .enqueueNDRangeKernel _ kernel =>
    inferInstanceAs (Decidable (p.Nameless kernel ∨ p.dev.running = false ∧ InRange p.host kernel))
  | .createContext .. | .releaseContext .. | .createCommandQueue .. | .releaseCommandQueue ..
  | .createProgramWithBinary .. | .releaseProgram .. | .createBuffer .. | .releaseMemObject ..
  | .createKernel .. | .setKernelArg .. | .releaseKernel .. | .enqueueBuffer .. =>
    inferInstanceAs (Decidable True)

instance (env : Env) (allocs : Heap → Allocs) : (run : HostRun) → (p : Process Target) →
    Decidable (ReadyRun env allocs run p)
  | [], _ => inferInstanceAs (Decidable True)
  | (b, c) :: run, p =>
    haveI : Decidable (ReadyRun env allocs run (c.run env allocs (p.withBytes b)).2) :=
      instDecidableReadyRun env allocs run _
    inferInstanceAs (Decidable (_ ∧ (_ → _)))

section Host

variable {env : Env} {allocs : Heap → Allocs} {reset go : ByteMap → ByteMap}

theorem ApiCall.Ready.admitted {p : Process Target} {c : ApiCall} (h : c.Ready p)
    (hops : ∀ dev ops, (p.devs dev).ops = some ops → ops = targetOps reset go) :
    Admitted Target.Admits (c.trace p) := by
  have hnone : Admitted Target.Admits ([] : List (Event Target)) := fun e he => absurd he List.not_mem_nil
  cases c with
  | enqueueNDRangeKernel cmdq kernel =>
    rw [ApiCall.trace]
    split
    · exact hnone
    next hnamed =>
      obtain ⟨hhalt, hin⟩ := h.resolve_left hnamed
      obtain ⟨m, hm⟩ : ∃ m, p.dev = ⟨m, false⟩ := ⟨p.dev.mem, by rw [← hhalt]⟩
      rw [hm]
      exact clEnqueueNDRangeKernel_admitted_of_ops hops hin m
  | _ => exact hnone

theorem ReadyRun.admitted {run : HostRun} : ∀ {p : Process Target}, ReadyRun env allocs run p →
    (∀ dev ops, (p.devs dev).ops = some ops → ops = targetOps reset go) →
      AdmittedRun env allocs Target.Admits run p := by
  induction run with
  | nil => exact fun _ _ => trivial
  | cons t run ih =>
    intro p h hops
    refine ⟨h.1.admitted hops, fun hcrash => ih (h.2 hcrash) ?_⟩
    rw [ApiCall.run_devs]
    exact hops

/-- With drivers that do what a target does, a run shows what it shows over the target. -/
theorem Process.runCalls_onTarget {R : Target → Port σ → Prop} {q : Process (Port σ)} {m : ByteMap}
    {run : HostRun} (hops : ∀ dev ops, (q.devs dev).ops = some ops →
      DevOps.Simulates Target.Admits R (targetOps reset go) ops)
    (hs : R ⟨m, false⟩ q.dev) (hrun : ReadyRun env allocs run (q.onTarget reset go m)) :
    let out := runCalls env allocs run q
    let ideal := runCalls env allocs run (q.onTarget reset go m)
    out.1 = ideal.1 ∧ out.2.heap = ideal.2.heap ∧ out.2.prgs = ideal.2.prgs ∧ out.2.ctxs = ideal.2.ctxs ∧
      out.2.cmdqs = ideal.2.cmdqs ∧ out.2.names = ideal.2.names ∧ R ideal.2.dev out.2.dev := by
  let D : Replacement Target (Port σ) := {
    admits := Target.Admits
    rel := R
    devs := (q.onTarget reset go m).devs
    devs' := q.devs
    does := fun dev => by
      refine ⟨rfl, ?_⟩
      show Option.Rel _ ((q.devs dev).ops.map fun _ => targetOps reset go) (q.devs dev).ops
      rcases hdev : (q.devs dev).ops with - | ops
      · exact .none
      · exact .some (hops dev ops hdev) }
  have hover : Process.Over D (q.onTarget reset go m) q := ⟨rfl, rfl, rfl, rfl, rfl, rfl, rfl, hs⟩
  have htargets (dev : Ptr) (ops : DevOps Target)
      (h : ((q.onTarget reset go m).devs dev).ops = some ops) : ops = targetOps reset go := by
    obtain ⟨_, -, rfl⟩ := Option.map_eq_some_iff.mp h
    rfl
  obtain ⟨hshown, hend⟩ := hover.runCalls run (hrun.admitted htargets)
  exact ⟨hshown, hend.heap, hend.prgs, hend.ctxs, hend.cmdqs, hend.names, hend.dev⟩

end Host

/-- **A host over the wire.** With a debug stub behind the drivers of the devices and its processor halted,
every run of a host whose launches are ready shows what it shows over a target: the calls return the same,
and the launches see the same of their device; the heap and the objects are the same behind it, and the stub
has the processor that the target is. -/
theorem runCalls_overWire (link : Link σ) (fuel talk : Nat) (Halted : ByteMap → List UInt8 → σ → Prop)
    (Running : ByteMap → σ → Prop) (reset go : ByteMap → ByteMap)
    (hstub : DebugStub link talk Halted Running reset go) (htalk : talk + 1 < fuel) (stuck : ClInt)
    (env : Env) (allocs : Heap → Allocs) (run : HostRun) (q : Process (Port σ)) (m : ByteMap)
    (hops : ∀ dev ops, (q.devs dev).ops = some ops →
      ops = gdbRemoteOpenocdOps link fuel stuck ∨ ops = gdbRemoteQemuOps link fuel stuck)
    (hs : Halted m [] q.dev.link) (hrun : ReadyRun env allocs run (q.onTarget reset go m)) :
    let out := runCalls env allocs run q
    let ideal := runCalls env allocs run (q.onTarget reset go m)
    out.1 = ideal.1 ∧ out.2.heap = ideal.2.heap ∧ out.2.prgs = ideal.2.prgs ∧ out.2.ctxs = ideal.2.ctxs ∧
      out.2.cmdqs = ideal.2.cmdqs ∧ out.2.names = ideal.2.names ∧
      Wired Halted Running ideal.2.dev out.2.dev := by
  exact Process.runCalls_onTarget (fun dev ops hdev => hstub.simulates htalk (hops dev ops hdev))
    ((wired_halted rfl).mpr hs) hrun

/-! ## A stub with a processor -/

/-- The processor behind a stub, and the bytes under way to the host. -/
structure BoardStub where
  mem : ByteMap
  pending : List UInt8
  running : Bool

/-- A line of console output, as it comes in front of the answer to a reset. -/
def consolePacket : Packet := .of (0x4f :: hexBytes (ascii "halted")) (by decide)

/-- The stop reply of a target that was interrupted. -/
def stopPacket : Packet := .of (ascii "T02") (by decide)

section Stub

variable (go : ByteMap → ByteMap)

/-- What the stub makes of a command for a processor that is halted: a run, a reset, a question about its own
features, or a transfer. -/
def BoardStub.command (l : BoardStub) (cmd : List UInt8) : BoardStub :=
  if cmd = runCmd then ⟨l.mem, l.pending ++ [chPlus], true⟩
  else if cmd = openocdResetCmd then
    ⟨l.mem, l.pending ++ chPlus :: (consolePacket.bytes ++ okPacket.bytes), false⟩
  else if cmd = qemuResetCmd then ⟨l.mem, l.pending ++ chPlus :: okPacket.bytes, false⟩
  else if cmd = ascii "vMustReplyEmpty" then ⟨l.mem, l.pending ++ chPlus :: emptyReply.bytes, false⟩
  else match serve l.mem cmd with
    | some (m, p) => ⟨m, l.pending ++ chPlus :: p.bytes, false⟩
    | none => l

/-- A frame is a command if the processor is halted.  ETX stops one that runs: the stub says so on the
console, sends its stop reply, and sends it once more. -/
def BoardStub.take (l : BoardStub) (bs : List UInt8) : BoardStub :=
  if l.running then
    if bs = [0x03] then
      ⟨go l.mem, l.pending ++ [consolePacket, stopPacket, stopPacket].flatMap Packet.bytes, false⟩
    else l
  else match unpack bs with
    | some (body, _) => l.command (unescape body)
    | none => l

/-- The link with such a stub behind it; the program does `go` to the memory between a run and a stop. -/
def boardStub : Link BoardStub where
  recv l :=
    match l.pending with
    | [] => (.blocked, l)
    | b :: bs => (.byte b, ⟨l.mem, bs, l.running⟩)
  send bs l := (.count bs.length, l.take go bs)
  calloc l := (true, l)
  stack l := (fun _ => 0, l)

/-- The stub is halted, with this memory, and these bytes are under way to the host. -/
def BoardHalted (m : ByteMap) (w : List UInt8) (l : BoardStub) : Prop := l = ⟨m, w, false⟩

/-- The stub runs on this memory, and only the acknowledgement of the run is under way. -/
def BoardRunning (m : ByteMap) (l : BoardStub) : Prop := l = ⟨m, [chPlus], true⟩

/-- A command that the stub takes, and what it leaves. -/
theorem boardStub_takes (ps : List Packet) {m m' : ByteMap} {w cmd : List UInt8} {r : Bool}
    (h : BoardStub.command ⟨m, w, false⟩ cmd = ⟨m', w ++ chPlus :: ps.flatMap Packet.bytes, r⟩)
    {Next : List UInt8 → BoardStub → Prop} {Reply : List Packet → Prop} (hreply : Reply ps)
    (hnext : Next (chPlus :: ps.flatMap Packet.bytes) ⟨m', w ++ chPlus :: ps.flatMap Packet.bytes, r⟩) :
    Takes (boardStub go) Next ⟨m, w, false⟩ cmd Reply := by
  intro frame body hunpack hbody
  have htake : BoardStub.take go ⟨m, w, false⟩ frame = ⟨m', w ++ chPlus :: ps.flatMap Packet.bytes, r⟩ := by
    rw [BoardStub.take, if_neg (by simp), hunpack]
    show BoardStub.command _ (unescape body) = _
    rw [hbody, h]
  exact ⟨_, ps, congrArg (Prod.mk _) htake, hreply, hnext⟩

/-- A transfer is none of the other commands. -/
theorem command_of_serve {l : BoardStub} {cmd : List UInt8} {m : ByteMap} {p : Packet}
    (h : serve l.mem cmd = some (m, p)) : l.command cmd = ⟨m, l.pending ++ chPlus :: p.bytes, false⟩ := by
  have hne {c : List UInt8} (h₁ : parseWriteMem c = none) (h₂ : parseWriteBin c = none)
      (h₃ : parseRead c = none) : cmd ≠ c := by
    rintro rfl
    simp [serve, h₁, h₂, h₃] at h
  rw [BoardStub.command, if_neg (hne (by decide) (by decide) (by decide)),
    if_neg (hne (by decide) (by decide) (by decide)), if_neg (hne (by decide) (by decide) (by decide)),
    if_neg (hne (by decide) (by decide) (by decide)), h]

theorem boardStub_serves {m m' : ByteMap} {l : BoardStub} {cmd : List UInt8} {p : Packet}
    (hl : BoardHalted m [] l) (h : serve m cmd = some (m', p)) {Body : List UInt8 → Prop} (hp : Body p.body) :
    Takes (boardStub go) (BoardHalted m') l cmd (Single Body) := by
  subst hl
  refine boardStub_takes go [p] (w := []) (r := false) ?_ ⟨p, rfl, hp⟩ rfl
  rw [command_of_serve (l := ⟨m, [], false⟩) h, List.flatMap_singleton]

theorem boardStub_debugStub : DebugStub (boardStub go) 1 BoardHalted BoardRunning id go where
  recv h := by
    subst h
    exact ⟨_, rfl, rfl⟩
  ack h := by
    subst h
    exact ⟨_, rfl, rfl⟩
  calloc h := by
    subst h
    exact ⟨_, rfl, rfl⟩
  stack h := h
  writeMem hl hparse := boardStub_serves go hl (serve_writeMem hparse) rfl
  writeBin hl hparse := boardStub_serves go hl (serve_writeBin hparse) rfl
  readMem hl hparse := boardStub_serves go hl (serve_readMem hparse) (unhexBytes_hexBytes _)
  openocdReset hl := by
    subst hl
    refine boardStub_takes go [consolePacket, okPacket] (w := []) (r := false) rfl
      ⟨[consolePacket], okPacket, rfl, Nat.le_refl 1, ?_, rfl⟩ rfl
    intro q hq
    obtain rfl := List.mem_singleton.mp hq
    exact ⟨(by decide : 1 + consolePacket.bytes.length ≤ 4096), ascii "halted", rfl⟩
  qemuReset hl := by
    subst hl
    exact boardStub_takes go [okPacket] (w := []) (r := false) rfl ⟨okPacket, rfl, rfl⟩ rfl
  run hl := by
    subst hl
    exact boardStub_takes go [] (w := []) (r := true) rfl rfl ⟨rfl, rfl⟩
  interrupt h := by
    subst h
    refine ⟨_, [consolePacket], stopPacket, [stopPacket], rfl, Nat.le_refl 1, ?_, ?_, Nat.le_refl 1, ?_, rfl⟩
    · intro q hq
      obtain rfl := List.mem_singleton.mp hq
      exact ⟨(by decide : 1 + consolePacket.bytes.length ≤ 4096), ascii "halted", rfl⟩
    · exact ⟨(by decide : 1 + stopPacket.bytes.length ≤ 4096), Or.inl rfl⟩
    · intro q hq
      obtain rfl := List.mem_singleton.mp hq
      exact ⟨(by decide : 1 + stopPacket.bytes.length ≤ 4096), by decide, by decide⟩
  resync hl := by
    subst hl
    exact boardStub_takes go [emptyReply] (r := false) rfl rfl rfl

end Stub

/-- The host of a board whose program says done at its first stop; the kernel has a value and a buffer. -/
def wireHost : Host (Port BoardStub) :=
  .single (fun x => UInt8.ofNat x)
    (gdbRemoteOpenocdOps (boardStub (doneAt ⟨0x80001000, 0x1000⟩)) 3 clInvalidDevice)
    (textProgram ⟨0x80001000, 0x1000⟩) mixedKernel fun _ => ⟨openclIcdMagic, clMemReadWrite, 4, 200⟩

/-- Its launch succeeds over the wire, with both arguments sent and the buffer read back. -/
theorem wireHost_overWire :
    let out := clEnqueueNDRangeKernel 1 1 wireHost { link := ⟨fun _ => 0, [], false⟩ }
    let ideal := Target.launch id (doneAt ⟨0x80001000, 0x1000⟩) wireHost 1 fun _ => 0
    (out.ret = ideal.1 ∧ out.host.bytes = ideal.2.1 ∧ Wired BoardHalted BoardRunning ideal.2.2 out.dev) ∧
      ideal.1 = clSuccess :=
  ⟨clEnqueueNDRangeKernel_overWire (boardStub (doneAt ⟨0x80001000, 0x1000⟩)) 3 1 BoardHalted BoardRunning id
    (doneAt ⟨0x80001000, 0x1000⟩) (boardStub_debugStub _) (by decide) clInvalidDevice _ (.inl rfl) wireHost 1 1
    rfl rfl ⟨by decide, by decide⟩ _ (fun _ => 0) rfl, by decide +kernel⟩

/-- The small process with this board behind its devices; the area of its program is at `0x80010000`. -/
def wireProcess : Process (Port BoardStub) where
  heap := smallProcess.heap
  names := smallProcess.names
  cmdqs := smallProcess.cmdqs
  ctxs := smallProcess.ctxs
  devs _ := ⟨openclIcdMagic, some
    (gdbRemoteOpenocdOps (boardStub (doneAt ⟨0x80010000, 0x100000⟩)) 3 clInvalidDevice)⟩
  prgs := smallProcess.prgs
  dev := { link := ⟨fun _ => 0, [], false⟩ }

/-- A program, its kernel, an argument and the launch. -/
theorem wireProcess_overWire :
    let run := (overwriting 0x400).map Turn.first
    let out := runCalls (bumpEnv 0) (fun _ => .all) run wireProcess
    let ideal := runCalls (bumpEnv 0) (fun _ => .all) run
      (wireProcess.onTarget id (doneAt ⟨0x80010000, 0x100000⟩) fun _ => 0)
    out.1 = ideal.1 ∧ out.2.heap = ideal.2.heap ∧ out.2.prgs = ideal.2.prgs ∧ out.2.ctxs = ideal.2.ctxs ∧
      out.2.cmdqs = ideal.2.cmdqs ∧ out.2.names = ideal.2.names ∧
      Wired BoardHalted BoardRunning ideal.2.dev out.2.dev := by
  refine runCalls_overWire (boardStub (doneAt ⟨0x80010000, 0x100000⟩)) 3 1 BoardHalted BoardRunning id
    (doneAt ⟨0x80010000, 0x100000⟩) (boardStub_debugStub _) (by decide) clInvalidDevice (bumpEnv 0)
    (fun _ => .all) ((overwriting 0x400).map Turn.first) wireProcess (fun _ => 0) ?_ rfl ?_
  · exact fun _ ops h => .inl (Option.some.inj h).symm
  · decide +kernel

end BaremetalCrt
