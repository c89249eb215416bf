/-
# BaremetalCrt.Api.TwoRuns — the same calls over memories that differ.

Two runs of the host make the same calls, and before each of them the host may have put anything into its
memory.  As long as every launch finds the same bytes behind what it sends, the runs write the same to the
device, call by call; and a launch that goes through shows any difference there.  Value arguments and the
areas of a program are such sources until they are sent: they are kept by their address.

`deviceWrites_sources` has both directions: as long as the sources are the same, so is every write to a
device, and if at some launch a source is different, the writes of that launch are. `overwriting_leaks` is a
run in which the program uses its memory again too early.
-/
import BaremetalCrt.Api.Capture
import BaremetalCrt.Elf.Accept

namespace BaremetalCrt

open Lib Exec

variable {δ : Type}

/-! ## Runs -/

section Runs

variable (env : Env) (allocs : Heap → Allocs)

/-- The calls of a host, each with what its memory holds when it is made. -/
abbrev HostRun := List (ByteMap × ApiCall)

/-- The process behind a run: before each call the memory is what the program has made of it. -/
def afterCalls (run : HostRun) (p : Process δ) : Process δ :=
  run.foldl (fun p t => (t.2.run env allocs (p.withBytes t.1)).2) p

/-- The writes to the device, call by call, up to a crash. -/
def deviceWrites : HostRun → Process δ → List (List DevOp)
  | [], _ => []
  | (b, c) :: run, p =>
    if (c.run env allocs (p.withBytes b)).1 = .error .crash then []
    else c.ops (p.withBytes b) :: deviceWrites run (c.run env allocs (p.withBytes b)).2

/-- A call that is made in two runs, with what the memory holds in the one and in the other. -/
structure Turn where
  memory : ByteMap
  memory' : ByteMap
  call : ApiCall

/-- The turn in the first run: its memory and the call. -/
def Turn.first (t : Turn) : ByteMap × ApiCall := (t.memory, t.call)

/-- The turn in the second run: the same call over the other memory. -/
def Turn.second (t : Turn) : ByteMap × ApiCall := (t.memory', t.call)

/-- What is said of the two processes before a call holds before every call. -/
def Along (P : Process δ → Process δ → ApiCall → Prop) : List Turn → Process δ → Process δ → Prop
  | [], _, _ => True
  | t :: turns, p, p' =>
    P (p.withBytes t.memory) (p'.withBytes t.memory') t.call ∧
      Along P turns (t.call.run env allocs (p.withBytes t.memory)).2
        (t.call.run env allocs (p'.withBytes t.memory')).2

/-- The memory that a call passes and that the host may use again when the call has returned. -/
def ApiCall.passed : ApiCall → Set Nat
  | .createProgramWithBinary _ _ _ (some binaries) => span (binaries 0).buf (binaries 0).len.toNat
  | .setKernelArg _ _ argSize argValue => {a | argSize ≠ 8 ∧ a ∈ span argValue argSize.toNat}
  | _ => ∅

/-- The memories differ only where it was passed to an earlier call. -/
def OnlyPassed : List Turn → Set Nat → Prop
  | [], _ => True
  | t :: turns, passed =>
    (∀ a ∉ passed, t.memory' a = t.memory a) ∧ OnlyPassed turns (passed ∪ t.call.passed)

variable {env allocs} (henv : env.Blind) (hallocs : ∀ s b, allocs (s.withBytes b) = allocs s)

include henv hallocs in
theorem deviceWrites_alike (turns : List Turn) : ∀ {p p' : Process δ}, UpTo Process.withBytes p p' →
    Along env allocs ApiCall.SameInputs turns p p' → Along env allocs ApiCall.SameSources turns p p' →
      deviceWrites env allocs (turns.map Turn.second) p' = deviceWrites env allocs (turns.map Turn.first) p ∧
        UpTo Process.withBytes (afterCalls env allocs (turns.map Turn.first) p)
          (afterCalls env allocs (turns.map Turn.second) p') := by
  induction turns with
  | nil => exact fun hp _ _ => ⟨rfl, hp⟩
  | cons t turns ih =>
    rintro p p' ⟨b, rfl⟩ ⟨hin, hins⟩ ⟨hs, hss⟩
    have hcall := ApiCall.run_alike henv hallocs ⟨t.memory', rfl⟩ t.call hin hs
    have hret : (t.call.run env allocs ((p.withBytes b).withBytes t.memory')).1 =
        (t.call.run env allocs (p.withBytes t.memory)).1 := hcall.1
    have hops : t.call.ops ((p.withBytes b).withBytes t.memory') = t.call.ops (p.withBytes t.memory) :=
      t.call.ops_alike hs
    obtain ⟨hwrites, hafter⟩ := ih hcall.2 hins hss
    have hrest : deviceWrites env allocs (turns.map Turn.second)
        (t.call.run env allocs ((p.withBytes b).withBytes t.memory')).2 =
          deviceWrites env allocs (turns.map Turn.first) (t.call.run env allocs (p.withBytes t.memory)).2 :=
      hwrites
    refine ⟨?_, hafter⟩
    show (if _ then [] else _ :: _) = if _ then [] else _ :: _
    rw [hret, hops, hrest]

/-- **Two runs with the same inputs write the same** to the device, as long as every launch finds its
sources the same; and the next launch that gets as far as the run writes the same just when it finds them
so too. -/
theorem deviceWrites_sources (env : Env) (allocs : Heap → Allocs) (henv : env.Blind)
    (hallocs : ∀ s b, allocs (s.withBytes b) = allocs s) (p : Process δ) (turns : List Turn)
    (hin : Along env allocs ApiCall.SameInputs turns p p)
    (hs : Along env allocs ApiCall.SameSources turns p p) :
    deviceWrites env allocs (turns.map Turn.second) p = deviceWrites env allocs (turns.map Turn.first) p ∧
      ∀ b b' queue kernel,
        let q := (afterCalls env allocs (turns.map Turn.first) p).withBytes b
        let q' := (afterCalls env allocs (turns.map Turn.second) p).withBytes b'
        let launch := ApiCall.enqueueNDRangeKernel queue kernel
        Uploads q.host queue kernel q.dev → (launch.ops q' = launch.ops q ↔ launch.SameSources q q') := by
  have hself : UpTo Process.withBytes p p := ⟨p.heap.bytes, rfl⟩
  obtain ⟨hwrites, c, hafter⟩ := deviceWrites_alike henv hallocs turns hself hin hs
  refine ⟨hwrites, fun b b' queue kernel hup => ?_⟩
  rw [hafter]
  exact launchOps_iff (Process.host_alike _ b') hup

end Runs

/-! ## A run of a small program -/

/-- The small executable at `0x400`, below the heap. -/
def programMemory : ByteMap := fun a => if a < 0x400 then 0 else smallFile.getD (a - 0x400) 0

/-- A context, a queue and a device at `8`; the device answers that the kernel is done. -/
def smallProcess : Process Unit where
  heap := bareHeap
  names _ := plainKernel.name
  cmdqs _ := 8
  ctxs _ := 8
  devs _ := ⟨openclIcdMagic, some (boardOps (CommAreaHeader.toBytes ⟨baremetalCrtCommMagic, 2, 1, 0⟩))⟩
  prgs _ := ⟨openclIcdMagic, 0, none, ⟨0, 0⟩⟩
  dev := ()

theorem smallElf_below : 0x400 + smallElf.len.toNat ≤ 2 ^ 64 := by decide

/-- A program, its kernel, a value of four bytes at `0x200`, and the launch; in the second run the byte at
`x` is another one by then. -/
def overwriting (x : Nat) : List Turn :=
  let binary : BinaryArg := ⟨0x400, smallElf.len, smallElf_below, smallElf.small⟩
  let same (c : ApiCall) : Turn := ⟨programMemory, programMemory, c⟩
  [same (.createProgramWithBinary 8 1 (fun _ => 8) (some fun _ => binary)),
    same (.createKernel 0x1000 (some plainKernel.name)), same (.setKernelArg 0x1040 0 4 0x200),
    ⟨programMemory, Function.update programMemory x 0xff, .enqueueNDRangeKernel 8 0x1040⟩]

theorem blind_bumpEnv (stack : Ptr) : (bumpEnv stack).Blind := ⟨fun _ _ => rfl, fun _ _ => rfl⟩

theorem overwriting_sameInputs (x : Nat) :
    Along (bumpEnv 0) (fun _ => .all) ApiCall.SameInputs (overwriting x) smallProcess smallProcess :=
  ⟨fun t _ => Touch.Same.refl _ t, trivial, fun h => absurd h (by decide), trivial, trivial⟩

/-- A byte of the file that is not part of an area does not matter any more. -/
theorem header_sources :
    deviceWrites (bumpEnv 0) (fun _ => .all) ((overwriting 0x400).map Turn.second) smallProcess =
      deviceWrites (bumpEnv 0) (fun _ => .all) ((overwriting 0x400).map Turn.first) smallProcess := by
  refine (deviceWrites_sources (bumpEnv 0) (fun _ => .all) (blind_bumpEnv 0) (fun _ _ => rfl) smallProcess
    (overwriting 0x400) (overwriting_sameInputs 0x400) ⟨trivial, trivial, trivial, ⟨?_, ?_, ?_⟩, trivial⟩).1
  all_goals decide +kernel

/-- What the host does with byte `x`, which it passed to an earlier call, is seen by the device. -/
def Leaks (x : Nat) : Prop :=
  Along (bumpEnv 0) (fun _ => .all) ApiCall.SameInputs (overwriting x) smallProcess smallProcess ∧
    OnlyPassed (overwriting x) ∅ ∧
    deviceWrites (bumpEnv 0) (fun _ => .all) ((overwriting x).map Turn.second) smallProcess ≠
      deviceWrites (bumpEnv 0) (fun _ => .all) ((overwriting x).map Turn.first) smallProcess

/-- **The value and the area are read when they are sent**: what the host has put there since then is what
the device gets, though every call was made with the same inputs. -/
theorem overwriting_leaks : Leaks 0x200 ∧ Leaks 0x4cc := by
  have honly (x : Nat) (hx : x ∈ span 0x400 225 ∪ span 0x200 4) : OnlyPassed (overwriting x) ∅ := by
    refine ⟨fun _ _ => rfl, fun _ _ => rfl, fun _ _ => rfl, fun a ha => ?_, trivial⟩
    refine Function.update_of_ne (fun heq => ha ?_) _ _
    subst heq
    rcases hx with hx | hx
    · exact Or.inl (Or.inl (Or.inr hx))
    · exact Or.inr ⟨by decide, hx⟩
  constructor
  · exact ⟨overwriting_sameInputs _, honly _ (by simp [span]), by decide +kernel⟩
  · exact ⟨overwriting_sameInputs _, honly _ (by simp [span]), by decide +kernel⟩

end BaremetalCrt
