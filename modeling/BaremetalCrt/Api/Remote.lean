/-
# BaremetalCrt.Api.Remote — from an executable to the calls of the program in it.

A program is created from an executable, and a host goes on with any calls.  Nothing is assumed of the state
that they leave, but of the executable (`ElfFile.Serves`) and of what the host does: it does not free the
program, and when it launches, the file is still where it was, the kernel is one of the program, and its
arguments are ready (`Process.Passes`).  Then every launch of the run is a call of the program in the file
(`runCalls_remoteCalls`).
-/
import BaremetalCrt.Api.Frames
import BaremetalCrt.Api.Simulation
import BaremetalCrt.Launch.Executable

namespace BaremetalCrt

open Lib Exec

variable {δ : Type} {env : Env} {allocs : Heap → Allocs}

/-! ## What is said of a run -/

/-- Of every call of the run, up to a crash, and the process before it. -/
def EachCall (env : Env) (allocs : Heap → Allocs) (P : Process δ → ApiCall → Prop) : HostRun → Process δ → Prop
  | [], _ => True
  | (b, c) :: run, p =>
    P (p.withBytes b) c ∧
      ((c.run env allocs (p.withBytes b)).1 ≠ .error .crash →
        EachCall env allocs P run (c.run env allocs (p.withBytes b)).2)

/-- The call passes `t` to `free`: it is among the releases that the call adds to the record. -/
def ApiCall.Frees (env : Env) (allocs : Heap → Allocs) (t : Ptr) (p : Process δ) (c : ApiCall) : Prop :=
  ∃ e ∈ (c.run env allocs p).2.heap.frees.drop p.heap.frees.length, e.1 = t

instance (t : Ptr) (p : Process δ) (c : ApiCall) : Decidable (c.Frees env allocs t p) :=
  inferInstanceAs (Decidable (∃ e ∈ _, _))

/-- A launch of a kernel of program `prg`, whose file is the one at `buf`: the kernel has a name, its queue is
one of the target, the file is still there, the arguments are ready, and the program gets what it asks for. -/
structure Process.Passes (c : Contract) (reset go : ByteMap → ByteMap) (e : ElfFile) (buf prg : Ptr)
    (p : Process Target) (cmdq kernel : Ptr) : Prop where
  named : ¬ p.Nameless kernel
  program : kernGetProgram p.host kernel = prg
  target : OnTarget reset go p.host (ctxGetDevice p.host (cmdqGetContext p.host cmdq))
  file : p.heap.bytes.load buf e.bytes.length = e.bytes
  args : ArgsReady p.host buf e.bytes.length kernel
  pre : ∀ slots, List.Forall₂ (ReadSlot.Conveys p.host) (argList (p.host.kerns kernel)) slots → c.pre slots

/-- What the host owes the program at a call: nothing but at a launch, where the kernel's contract has to be
met. -/
def ApiCall.Passes (c : Contract) (reset go : ByteMap → ByteMap) (e : ElfFile) (buf prg : Ptr)
    (p : Process Target) : ApiCall → Prop
  | .enqueueNDRangeKernel cmdq kernel => p.Passes c reset go e buf prg cmdq kernel
  | _ => True

/-- What it gets: a launch returns no error, and is a call of the program. -/
def ApiCall.IsRemote (env : Env) (allocs : Heap → Allocs) (c : Contract) (p : Process δ) : ApiCall → Prop
  | .enqueueNDRangeKernel cmdq kernel =>
    let out := (ApiCall.enqueueNDRangeKernel cmdq kernel).run env allocs p
    out.1 = .ok 0 ∧ RemoteCall c p.host p.heap.bytes kernel out.2.heap.bytes
  | _ => True

/-! ## Between the calls -/

/-- The process has the program of the file at `prg`, and what is marked of it as loaded is on the target,
which has stopped. -/
structure Serving (e : ElfFile) (buf prg : Ptr) (p : Process Target) : Prop where
  ne_zero : prg ≠ 0
  live : p.heap.live prg ≠ none
  magic : p.heap.magic prg = openclIcdMagic
  program : ProgramOf e buf (p.prgs prg)
  loaded : ∃ m, p.dev = ⟨m, false⟩ ∧
    e.InMemory (fun i => e.IsLoad i ∧ ((p.prgs prg).chunkAt i).Skipped) m

section Step

variable {e : ElfFile} {buf prg : Ptr} {p : Process Target}

/-- It is said of these parts only. -/
theorem Serving.congr {q : Process Target} (h : Serving e buf prg p)
    (hview : (q.heap.live prg, q.heap.magic prg, q.prgs prg, q.dev) =
      (p.heap.live prg, p.heap.magic prg, p.prgs prg, p.dev)) : Serving e buf prg q := by
  obtain ⟨hne, hlive, hmagic, hprg, hloaded⟩ := h
  injection hview with hlive' hview
  injection hview with hmagic' hview
  injection hview with hprgs hdev
  rw [← hlive'] at hlive
  rw [← hmagic'] at hmagic
  rw [← hprgs] at hprg hloaded
  rw [← hdev] at hloaded
  exact ⟨hne, hlive, hmagic, hprg, hloaded⟩

theorem Serving.withBytes (h : Serving e buf prg p) (b : ByteMap) : Serving e buf prg (p.withBytes b) :=
  h.congr rfl

/-- A call that is not a launch, and that does not free the program. -/
theorem Serving.call (h : Serving e buf prg p) {c : ApiCall}
    (hc : ∀ commandQueue kernel, c ≠ .enqueueNDRangeKernel commandQueue kernel)
    (hlive : ¬ c.Frees env allocs prg p) : Serving e buf prg (c.run env allocs p).2 :=
  h.congr ((c.spares allocs hc p).kept h.live fun x hx heq => hlive ⟨x, hx, heq⟩).2

/-- **A launch** is a call of the program. -/
theorem Serving.launch (h : Serving e buf prg p) {c : Contract} {reset go : ByteMap → ByteMap}
    {comm : ProgramComm} (hfile : e.Complete) (hbuf : buf ≠ 0) (hserves : e.Serves c reset go comm)
    {cmdq kernel : Ptr} (hpasses : p.Passes c reset go e buf prg cmdq kernel) :
    (ApiCall.enqueueNDRangeKernel cmdq kernel).IsRemote env allocs c p ∧
      Serving e buf prg ((ApiCall.enqueueNDRangeKernel cmdq kernel).run env allocs p).2 := by
  obtain ⟨m, hdev, hmarks⟩ := h.loaded
  have hprg : ProgramOf e buf (p.host.prgs prg) :=
    ⟨h.program.numChunks, h.program.comm, h.program.paddr, h.program.size, h.program.buf, h.program.readonly,
      h.program.empty⟩
  have hvalid : prgIsValid p.host prg = clSuccess := by
    show (if prg = 0 then clInvalidProgram
      else if p.heap.magic prg ≠ openclIcdMagic then clInvalidProgram else clSuccess) = clSuccess
    rw [if_neg h.ne_zero, h.magic, if_neg (not_not.mpr rfl)]
  have hcomm : e.Serves c reset go (p.host.prgs prg).comm := hserves.area.unique hprg.comm ▸ hserves
  obtain ⟨hret, hremote, hsame, m', hdev', hmarks'⟩ := hprg.launch hfile hvalid hbuf hcomm hpasses.file
    hpasses.program hpasses.args hpasses.target hmarks hpasses.pre
  rw [← hdev] at hret hremote hsame hdev' hmarks'
  have hrun : (ApiCall.enqueueNDRangeKernel cmdq kernel).run env allocs p =
      (.ok 0, { p.withBytes (clEnqueueNDRangeKernel cmdq kernel p.host p.dev).host.bytes with
        prgs := (clEnqueueNDRangeKernel cmdq kernel p.host p.dev).host.prgs
        dev := (clEnqueueNDRangeKernel cmdq kernel p.host p.dev).dev }) := by
    refine bind_ok (a := ()) ?_
    rw [enqueueNDRangeKernel, if_neg hpasses.named]
    show (Except.mapError LoadStop.ret (check (clEnqueueNDRangeKernel cmdq kernel p.host p.dev).ret), _) = _
    rw [hret]
    rfl
  refine ⟨⟨congrArg Prod.fst hrun, ?_⟩, ?_⟩
  · rw [hrun]
    exact hremote
  · rw [hrun]
    exact ⟨h.ne_zero, h.live, h.magic, hprg.later hsame, m', hdev', hmarks'⟩

end Step

/-! ## The creation -/

/-- The checks of the devices change nothing. -/
theorem checkDevices_state (bad : Nat → Bool) (devices : Nat → Ptr) (n : Nat) : ∀ i,
    Keeps Eq (checkDevices bad devices i n : Api δ Unit) := by
  induction n with
  | zero => exact fun _ _ => rfl
  | succ n ih =>
    exact fun i => .refuse Eq.refl (.bind (fun _ _ _ => Eq.trans) (fun _ => rfl) fun _ => ih (i + 1))

/-- The creation of a program from a binary that is there: a new object, and a load into it that succeeds. -/
theorem inClCreateProgram_ok {context : Ptr} {numDevices : UInt32} {deviceList : Nat → Ptr}
    {binaries : Nat → BinaryArg} {p₀ p : Process δ} {prg : Ptr} (hone : numDevices ≠ 0)
    (h : inClCreateProgramWithBinary env allocs context numDevices deviceList (some binaries) p₀ =
      (.ok prg, p)) :
    (binaries 0).buf ≠ 0 ∧ ∃ p₁, prgAlloc env context p₀ = (.ok prg, p₁) ∧
      loadProgram allocs prg (binaries 0) p₁ = (.ok (), p) := by
  obtain ⟨⟨⟩, p₁, hctx, h₁⟩ := bind_eq_ok.mp h
  obtain ⟨⟨⟩, p₂, hdevices, h₂⟩ := bind_eq_ok.mp h₁
  have hp₁ : p₀ = p₁ := congrArg Prod.snd hctx
  have hp₂ : p₁ = p₂ := (checkDevices_state _ _ _ _ p₁).trans (congrArg Prod.snd hdevices)
  dsimp only at h₂
  by_cases hmany : 1 < numDevices
  · rw [if_pos hmany] at h₂
    cases h₂
  rw [if_neg hmany, ← hp₂, ← hp₁] at h₂
  obtain ⟨q, p₃, halloc, h₃⟩ := bind_eq_ok.mp h₂
  obtain ⟨out, p₄, hload, h₄⟩ := bind_eq_ok.mp h₃
  obtain ⟨hout, hp₄⟩ := Prod.mk.inj hload
  refine ⟨?_, ?_⟩
  · -- the first binary is checked as there is a device
    obtain ⟨n, hn⟩ : ∃ n, numDevices.toNat = n + 1 :=
      Nat.exists_eq_succ_of_ne_zero fun hzero => hone (UInt32.toNat_inj.mp hzero)
    intro hbuf
    have hbad : (decide ((binaries 0).len = 0) || decide ((binaries 0).buf = 0)) = true := by simp [hbuf]
    rw [hn, checkDevices, if_pos hbad] at hdevices
    cases hdevices
  · rcases out with (r | _) | ⟨⟨⟩⟩
    · obtain ⟨_, _, _, h₅⟩ := bind_eq_ok.mp h₄
      cases h₅
    · cases h₄
    · obtain ⟨hret, rfl⟩ := Prod.mk.inj h₄
      obtain rfl : q = prg := Except.ok.inj hret
      exact ⟨p₃, halloc, Prod.ext (Except.ok.inj hout) hp₄⟩

theorem inClCreateProgram_devs (context : Ptr) (numDevices : UInt32) (deviceList : Nat → Ptr)
    (binaries : Option (Nat → BinaryArg)) (p : Process δ) :
    (inClCreateProgramWithBinary env allocs context numDevices deviceList binaries p).2.devs = p.devs :=
  ApiCall.run_devs env allocs (.createProgramWithBinary context numDevices deviceList binaries) p

/-- A new program is live, and has its magic number. -/
theorem prgAlloc_ok {context : Ptr} {p₀ p : Process δ} {prg : Ptr}
    (h : prgAlloc env context p₀ = (.ok prg, p)) :
    prg ≠ 0 ∧ p.heap.live prg ≠ none ∧ p.heap.magic prg = openclIcdMagic ∧ p.heap.bytes = p₀.heap.bytes ∧
      p.dev = p₀.dev := by
  obtain ⟨hne, -, rfl⟩ := objectAlloc_ok h
  refine ⟨hne, ?_, Function.update_self .., rfl, rfl⟩
  show Function.update p₀.heap.live prg (some BlockKind.object) prg ≠ none
  rw [Function.update_self]
  exact Option.some_ne_none _

/-- A program that was created from an executable is the one of the file, and nothing of it is marked. -/
theorem Serving.of_create {context : Ptr} {numDevices : UInt32} {deviceList : Nat → Ptr}
    {binaries : Nat → BinaryArg} {p₀ p : Process Target} {prg : Ptr} {cls : ElfClass} (hone : numDevices ≠ 0)
    (hident : (((binaries 0).inMemory p₀.heap.bytes).asElf cls).Identified)
    (hfile : (((binaries 0).inMemory p₀.heap.bytes).asElf cls).Complete) (hdev : p₀.dev.running = false)
    (hcreate : inClCreateProgramWithBinary env allocs context numDevices deviceList (some binaries) p₀ =
      (.ok prg, p)) :
    Serving (((binaries 0).inMemory p₀.heap.bytes).asElf cls) (binaries 0).buf prg p := by
  obtain ⟨-, p₁, halloc, hload⟩ := inClCreateProgram_ok hone hcreate
  obtain ⟨hne, hlive, hmagic, hbytes, hsame⟩ := prgAlloc_ok halloc
  obtain ⟨hok, hafter⟩ := Prod.mk.inj hload
  rw [hbytes] at hok hafter
  obtain ⟨hprg, hmarks⟩ := prgElfLoad_programOf (s := ⟨p₁.host.prgs prg, []⟩) hmagic hident hfile hok
  generalize prgElfLoad ((binaries 0).inMemory p₀.heap.bytes) (allocs p₁.heap) ⟨p₁.host.prgs prg, []⟩ = out
    at hok hafter hprg hmarks
  have hloaded : p.prgs prg = out.2.prg := by
    rw [← hafter]
    exact Function.update_self ..
  have hrest : p.heap = p₁.heap ∧ p.dev = p₁.dev := by
    rw [← hafter]
    exact ⟨rfl, rfl⟩
  rw [← hrest.1] at hlive hmagic
  rw [← hrest.2] at hsame
  refine ⟨hne, hlive, hmagic, hloaded ▸ hprg, p.dev.mem, ?_, fun i hi => ?_⟩
  · rw [hsame, ← hdev]
  · -- nothing is marked
    have hskip := hi.2.2
    rw [hloaded, hmarks i] at hskip
    cases hskip

/-! ## Runs -/

/-- The program serves through the run. -/
theorem Serving.run {e : ElfFile} {buf prg : Ptr} {c : Contract} {reset go : ByteMap → ByteMap}
    {comm : ProgramComm} (hfile : e.Complete) (hbuf : buf ≠ 0) (hserves : e.Serves c reset go comm)
    (run : HostRun) :
    ∀ {p : Process Target}, Serving e buf prg p →
      EachCall env allocs (fun p c => ¬ c.Frees env allocs prg p) run p →
      EachCall env allocs (ApiCall.Passes c reset go e buf prg) run p →
        EachCall env allocs (ApiCall.IsRemote env allocs c) run p := by
  induction run with
  | nil => exact fun _ _ _ => trivial
  | cons t run ih =>
    obtain ⟨b, call⟩ := t
    rintro p hp ⟨hlive, hlives⟩ ⟨hpass, hpasses⟩
    replace hp := hp.withBytes b
    have hcall : call.IsRemote env allocs c (p.withBytes b) ∧
        Serving e buf prg (call.run env allocs (p.withBytes b)).2 := by
      by_cases hlaunch : ∃ cmdq kernel, call = .enqueueNDRangeKernel cmdq kernel
      · obtain ⟨cmdq, kernel, rfl⟩ := hlaunch
        exact hp.launch hfile hbuf hserves hpass
      · refine ⟨?_, hp.call (fun cmdq kernel h => hlaunch ⟨cmdq, kernel, h⟩) hlive⟩
        cases call
        case enqueueNDRangeKernel cmdq kernel => exact absurd ⟨cmdq, kernel, rfl⟩ hlaunch
        all_goals trivial
    exact ⟨hcall.1, fun hcrash => ih hcall.2 (hlives hcrash) (hpasses hcrash)⟩

/-- **From an executable to calls of the program in it.** A program is created from the file in the memory, and
the host goes on with any calls, and may do anything to its memory between them.  As long as it does not free
the program, and launches only kernels of it that are ready, with the file still there, all its launches
return without an error, and each of them is a call of the program. -/
theorem runCalls_remoteCalls (env : Env) (allocs : Heap → Allocs) (reset go : ByteMap → ByteMap) (c : Contract)
    (cls : ElfClass) (comm : ProgramComm) (context : Ptr) (numDevices : UInt32) (deviceList : Nat → Ptr)
    (binaries : Nat → BinaryArg) (p₀ p : Process Target) (prg : Ptr) (run : HostRun)
    (hcreate : inClCreateProgramWithBinary env allocs context numDevices deviceList (some binaries) p₀ =
      (.ok prg, p))
    (hone : numDevices ≠ 0) (hdev : p₀.dev.running = false)
    (hident : (((binaries 0).inMemory p₀.heap.bytes).asElf cls).Identified)
    (hfile : (((binaries 0).inMemory p₀.heap.bytes).asElf cls).Complete)
    (hserves : (((binaries 0).inMemory p₀.heap.bytes).asElf cls).Serves c reset go comm)
    (hlive : EachCall env allocs (fun p c => ¬ c.Frees env allocs prg p) run p)
    (hpasses : EachCall env allocs (ApiCall.Passes c reset go (((binaries 0).inMemory p₀.heap.bytes).asElf cls)
      (binaries 0).buf prg) run p) :
    EachCall env allocs (ApiCall.IsRemote env allocs c) run p :=
  (Serving.of_create hone hident hfile hdev hcreate).run hfile (inClCreateProgram_ok hone hcreate).1 hserves run
    hlive hpasses

/-! ## A program that adds, from a file -/

/-- The small executable at `0x400`, and the handle of a buffer at `0x208`. -/
def addMemory : ByteMap := programMemory.store 0x208 [0xc0, 0x10, 0, 0, 0, 0, 0, 0]

/-- The small executable, at the place where the host has it. -/
def addBinary : BinaryArg := ⟨0x400, smallElf.len, smallElf_below, smallElf.small⟩

/-- The communication area of the small executable. -/
def addComm : ProgramComm := ⟨0x80010000, 0x1000⟩

/-- The target runs a program that adds a value to a buffer. -/
def addProcess : Process Target where
  heap := { bareHeap with bytes := addMemory }
  names _ := plainKernel.name
  cmdqs _ := 8
  ctxs _ := 8
  devs _ := ⟨openclIcdMagic, some (targetOps id (commProgram addComm addSlots))⟩
  prgs _ := ⟨openclIcdMagic, 0, none, ⟨0, 0⟩⟩
  dev := ⟨fun _ => 0, false⟩

/-- A kernel, a buffer of four bytes at `0x300`, its arguments, and two launches. -/
def addCalls : HostRun :=
  [(addMemory, .createKernel 0x1000 (some plainKernel.name)), (addMemory, .createBuffer 8 9 4 0x300),
    (addMemory, .setKernelArg 0x1040 0 4 0x200), (addMemory, .setKernelArg 0x1040 1 8 0x208),
    (addMemory, .enqueueNDRangeKernel 8 0x1040), (addMemory, .enqueueNDRangeKernel 8 0x1040)]

/-- The process behind the creation of the program. -/
@[irreducible] def addCreated : Process Target :=
  (inClCreateProgramWithBinary (bumpEnv 0) (fun _ => .all) 8 1 (fun _ => 8) (some fun _ => addBinary)
    addProcess).2

theorem addCreated_ok : inClCreateProgramWithBinary (bumpEnv 0) (fun _ => .all) 8 1 (fun _ => 8)
    (some fun _ => addBinary) addProcess = (.ok 0x1000, addCreated) :=
  Prod.ext (by decide +kernel) (by rw [addCreated])

theorem addCreated_devs : addCreated.devs = addProcess.devs := by
  rw [addCreated, inClCreateProgram_devs]

/-- The file that is in the memory there, read as the format has it. -/
def addFile : ElfFile := (addBinary.inMemory addMemory).asElf .elf32

theorem addFile_complete : addFile.Complete := by
  constructor
  all_goals decide +kernel

/-- It has one segment, and the program in it serves. -/
theorem addFile_serves : addFile.Serves addContract id (commProgram addComm addSlots) addComm := by
  have hload (i : Nat) (hi : addFile.IsLoad i) : i = 0 := by
    have : addFile.ehdr (·.ePhnum) = 1 := by decide +kernel
    have := hi.1
    omega
  refine ElfFile.serves_commProgram ⟨1, ?_⟩ (by decide) (fun i j hi hj hij => ?_) (fun i hi => ?_)
    fun _ => addSlots_length
  · decide +kernel
  · exact absurd ((hload i hi).trans (hload j hj).symm) hij
  · obtain rfl := hload i hi
    decide +kernel

/-- What a launch of the kernel needs of a process. -/
theorem addPasses {p : Process Target} (hdevs : p.devs = addProcess.devs)
    (hbytes : p.heap.bytes = addMemory)
    (h : ¬ p.Nameless 0x1040 ∧ kernGetProgram p.host 0x1040 = 0x1000 ∧
      devIsValid p.host (ctxGetDevice p.host (cmdqGetContext p.host 8)) = clSuccess ∧
      ArgsReady p.host 0x400 225 0x1040 ∧
      argList (p.host.kerns 0x1040) = [nameArg plainKernel, ⟨commArgVal, 0, 4, .addr 0x200⟩,
        ⟨commArgMem, 1, 8, .addr 0x10c0⟩] ∧
      (p.host.mems 0x10c0).size = 4 ∧ memCanRead (p.host.mems 0x10c0) = true) :
    p.Passes addContract id (commProgram addComm addSlots) addFile 0x400 0x1000 8 0x1040 := by
  obtain ⟨hnamed, hprogram, hvalid, hargs, hlist, hsize, hread⟩ := h
  have hfile : addFile.bytes.length = 225 ∧ addMemory.load 0x400 225 = addFile.bytes := by decide +kernel
  refine ⟨hnamed, hprogram, ⟨hvalid, ?_⟩, ?_, hfile.1 ▸ hargs, fun slots hslots => ?_⟩
  · show (p.devs _).ops = _
    rw [hdevs]
    rfl
  · rw [hbytes, hfile.1, hfile.2]
  · rw [hlist] at hslots
    exact addContract_pre rfl rfl rfl rfl hsize hread hslots

theorem addCalls_remote :
    EachCall (bumpEnv 0) (fun _ => .all) (ApiCall.IsRemote (bumpEnv 0) (fun _ => .all) addContract) addCalls
      addCreated := by
  apply runCalls_remoteCalls (bumpEnv 0) (fun _ => .all) id (commProgram addComm addSlots) addContract .elf32
    addComm 8 1 (fun _ => 8) (fun _ => addBinary) addProcess addCreated 0x1000 addCalls addCreated_ok
    (by decide) rfl
  · show addFile.Identified
    decide +kernel
  · exact addFile_complete
  · exact addFile_serves
  · refine ⟨?_, fun _ => ⟨?_, fun _ => ⟨?_, fun _ => ⟨?_, fun _ => ⟨?_, fun _ => ⟨?_, fun _ => trivial⟩⟩⟩⟩⟩⟩
    all_goals decide +kernel
  · refine ⟨trivial, fun _ => ⟨trivial, fun _ => ⟨trivial, fun _ => ⟨trivial, fun _ =>
      ⟨?_, fun _ => ⟨?_, fun _ => trivial⟩⟩⟩⟩⟩⟩
    all_goals
      apply addPasses
      · simp only [Process.withBytes, ApiCall.run_devs]
        exact addCreated_devs
      · rfl
      · decide +kernel

end BaremetalCrt
