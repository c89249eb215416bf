/-
# BaremetalCrt.Launch.Image — the areas of a program on the device, over a run of launches.

The upload leaves out a readonly area that is marked as loaded, and the mark belongs to the program
while the memory belongs to the device.  What makes the marks true is an invariant over the calls:
every readonly area that is marked, of every program, is on the device as the ELF file has it.  One
launch keeps it when none of its writes, and no store of its kernel, puts a different byte onto such
an area (`Call.Harmless`); two programs at one address break it.

`Call` is one launch with all that it finds, `Call.ImageOnDevice` says that the program is on the device at
its first run, and `Intact` is the invariant between the launches. What is asked of the host between two
launches is `Call.Then`: no mark appears, and no marked area is touched.
-/
import BaremetalCrt.Launch.Transfer
import BaremetalCrt.Launch.DataFlow
import BaremetalCrt.Runtime.DeviceMemory
import Mathlib.Data.List.Chain

namespace BaremetalCrt

open Lib

variable {δ : Type} {mem : δ → ByteMap}

/-! ## Events and memory -/

/-- On a device that stores what is written, every event of a launch is lawful. -/
theorem launch_lawful (cmdq kernel : Ptr) {h : Host δ}
    (hst : ∀ dev ops, (h.devs dev).ops = some ops → ops.Stores mem) (d : δ) :
    ∀ e ∈ (clEnqueueNDRangeKernel cmdq kernel h d).trace, e.Lawful mem := by
  have hdevs {s : Sys δ} (hs : s.host.devs = h.devs) (dev : Ptr) :
      ∀ ops, (s.host.devs dev).ops = some ops → ops.Stores mem := by
    rw [hs]
    exact hst dev
  refine events_of_launch ?_ ?_ ?_ ?_ ?_ ?_ cmdq kernel ⟨h, d, [], []⟩ rfl (by simp)
  · intro dev s hs
    exact devControlRet_reset_mem (hdevs hs dev) s.dev
  · intro dev s _
    trivial
  · intro dev s _
    trivial
  · intro cargo dev paddr buf len s hs
    refine ⟨devWriteMemRet_partly (hdevs hs dev) s.dev, fun hret => ?_⟩
    have hmem := (exact_of_stores (hdevs hs dev)).write hret
    show (mem (devWriteMemRet s.host dev paddr buf len s.dev).2).Holds _
    rw [hmem]
    exact ByteMap.holds_store _ (paddr.toNat, s.host.read buf len.toNat)
  · intro dev paddr ptr len s hs
    exact devReadMemRet_mem (hdevs hs dev) s.dev
  · intro dev paddr s hs
    exact devReadMemRet_mem (hdevs hs dev) s.dev

/-- The writes of a launch are among its transfers. -/
theorem write_mem_launchPuts {cmdq kernel : Ptr} {h : Host δ} {d : δ} {e : Event δ}
    (he : e ∈ (clEnqueueNDRangeKernel cmdq kernel h d).trace) (hw : e.op.isWrite = true) :
    ∃ q ∈ launchPuts h (kernGetProgram h kernel) kernel, e.op = q.op h := by
  have hmem : e ∈ writesOf (clEnqueueNDRangeKernel cmdq kernel h d).trace :=
    List.mem_filter.mpr ⟨he, hw⟩
  rw [clEnqueueNDRangeKernel_writes, launchWrites] at hmem
  split at hmem
  · have hop := List.mem_map_of_mem (f := Event.op) hmem
    obtain ⟨q, hq, hqe⟩ := List.mem_map.mp ((transfer_events_initial _ _).subset hop)
    exact ⟨q, hq, hqe.symm⟩
  · cases hmem

/-! ## The marks after a launch -/

/-- What a launch of `prg` leaves of the programs of `h`: a chunk of `prg` is as it was, or it is
marked now and one of the events is its transfer. -/
structure Marked (prg : Ptr) (h : Host δ) (s : Sys δ) : Prop where
  others : ∀ p, p ≠ prg → s.host.prgs p = h.prgs p
  numChunks : (s.host.prgs prg).numChunks = (h.prgs prg).numChunks
  own : ∀ i, (s.host.prgs prg).chunkAt i = (h.prgs prg).chunkAt i ∨
    ((s.host.prgs prg).chunkAt i).paddr = ((h.prgs prg).chunkAt i).paddr ∧
      ((s.host.prgs prg).chunkAt i).readonly = ((h.prgs prg).chunkAt i).readonly ∧
      i < (h.prgs prg).numChunks.toNat ∧
      ∃ e ∈ s.trace, e.op = (chunkPut i ((h.prgs prg).chunkAt i)).op h ∧ e.ret = clSuccess

theorem Marked.later {prg : Ptr} {h : Host δ} {s s' : Sys δ} (hm : Marked prg h s)
    (hstep : s'.host.prgs = s.host.prgs ∧ ∃ es, s'.trace = s.trace ++ es) : Marked prg h s' := by
  obtain ⟨hprgs, es, hes⟩ := hstep
  refine ⟨fun p hp => by rw [hprgs, hm.others p hp], by rw [hprgs, hm.numChunks], fun i => ?_⟩
  rw [hprgs, hes]
  rcases hm.own i with hsame | ⟨haddr, hro, hi, e, he, hop⟩
  · exact Or.inl hsame
  · exact Or.inr ⟨haddr, hro, hi, e, List.mem_append_left _ he, hop⟩

/-- The loop marks what it has transferred. -/
theorem sendChunks_marked {h : Host δ} {prg : Ptr} (dev : Ptr)
    (hv : prgIsValid h prg = clSuccess) (n : Nat) :
    ∀ (i : Nat) (s : Sys δ), ((i + n : Nat) : Int) ≤ (h.prgs prg).numChunks →
      h.UploadFrame prg s.host →
      (∀ j, i ≤ j → (s.host.prgs prg).chunkAt j = (h.prgs prg).chunkAt j) → Marked prg h s →
      Marked prg h (sendChunks dev prg i n s).2 := by
  induction n with
  | zero => exact fun _ _ _ _ _ hm => hm
  | succ n ih =>
    intro i s hle hframe hrest hm
    have hv' : prgIsValid s.host prg = clSuccess := hframe.prgIsValid.trans hv
    have hi : (i : Int) < (s.host.prgs prg).numChunks := by
      rw [hframe.numChunks]
      omega
    have hchunk := hrest i le_rfl
    by_cases hskip : ((s.host.prgs prg).chunkAt i).Skipped
    · rw [sendChunks, Exec.bind_ok (sendChunk_skipped dev hv' hi hskip)]
      exact ih (i + 1) s (by omega) hframe (fun j hj => hrest j (by omega)) hm
    generalize hev : putEvent s.host dev (chunkPut i ((s.host.prgs prg).chunkAt i)) s.dev = ev
    have hop : ev.op = (chunkPut i ((h.prgs prg).chunkAt i)).op h := by
      rw [← hev, hchunk]
      show DevOp.writeMem _ _ ((chunkPut i _).data s.host) = .writeMem _ _ ((chunkPut i _).data h)
      rw [chunkPut_data, chunkPut_data, ProgramChunk.data, ProgramChunk.data, hframe.bytes]
    have hbytes : ev.hostAfter = s.host.bytes := by
      rw [← hev]
      rfl
    have hpush : (s.push ev).host = s.host := by
      show { s.host with bytes := ev.hostAfter } = s.host
      rw [hbytes]
    have hm₁ : Marked prg h (s.push ev) := hm.later ⟨by rw [hpush], [ev], rfl⟩
    rw [sendChunks]
    by_cases hret : ev.ret = clSuccess
    · rw [Exec.bind_ok (sendChunk_sent hv' hi hskip (hev ▸ hret)), hev]
      have hf₂ : h.UploadFrame prg ((s.push ev).markLoaded prg i).host := by
        refine Host.UploadFrame.markLoaded ?_ i
        rw [hpush]
        exact hframe
      have hne {j : Nat} (hj : j ≠ i) : (((s.push ev).markLoaded prg i).host.prgs prg).chunkAt j =
          (s.host.prgs prg).chunkAt j := by
        show (((s.push ev).host.markLoaded prg i).prgs prg).chunkAt j = _
        rw [chunkAt_markLoaded_ne hj, hpush]
      refine ih (i + 1) _ (by omega) hf₂ (fun j hj => (hne (by omega)).trans (hrest j (by omega)))
        ⟨hf₂.others, hf₂.numChunks, fun j => ?_⟩
      by_cases hj : j = i
      · -- the chunk that was transferred just now
        subst hj
        have hself : (((s.push ev).markLoaded prg j).host.prgs prg).chunkAt j =
            ((s.host.prgs prg).putChunk j
              { (s.host.prgs prg).chunkAt j with loaded := true }).chunkAt j := by
          show (Function.update (s.push ev).host.prgs prg _ prg).chunkAt j = _
          rw [Function.update_self, hpush]
        rw [hself]
        rcases chunkAt_putChunk_self (s.host.prgs prg) j
          { (s.host.prgs prg).chunkAt j with loaded := true } with hsame | hmarked
        · exact Or.inl (hsame.trans hchunk)
        · refine Or.inr ⟨by rw [hmarked, ← hchunk], by rw [hmarked, ← hchunk], ?_, ev, ?_, hop, hret⟩
          · rw [hframe.numChunks] at hi
            omega
          · exact List.mem_append_right _ (List.mem_singleton.mpr rfl)
      · rw [hne hj, ← hpush]
        exact hm₁.own j
    · rw [Exec.bind_error (sendChunk_failed hv' hi hskip (hev ▸ hret)), hev]
      exact hm₁

/-- The programs after a launch. -/
theorem launch_marked (cmdq kernel : Ptr) (h : Host δ) (d : δ) :
    Marked (kernGetProgram h kernel) h (launch cmdq kernel ⟨h, d, [], []⟩).2 := by
  have hstart {s : Sys δ} (hs : s.host.prgs = h.prgs) : Marked (kernGetProgram h kernel) h s :=
    ⟨fun p _ => by rw [hs], by rw [hs], fun i => Or.inl (by rw [hs])⟩
  have hR : Carried fun s s' : Sys δ =>
      s'.host.prgs = s.host.prgs ∧ ∃ es, s'.trace = s.trace ++ es :=
    ⟨fun s => ⟨rfl, trace_grows.refl s⟩,
      fun _ _ _ hab hbc => ⟨hbc.1.trans hab.1, trace_grows.trans _ _ _ hab.2 hbc.2⟩⟩
  refine Exec.wp_state.mp ?_
  rw [launch, Exec.wp_bind, Exec.wp_gets, Exec.wp_bind, Exec.wp_gets, Exec.wp_bind,
    devReset, wp_devCall]
  refine ⟨fun _ => ?_, fun _ => hstart rfl⟩
  generalize hs : (⟨h, d, [], []⟩ : Sys δ).push (controlEvent .reset (·.reset)
    (ctxGetDevice h (cmdqGetContext h cmdq)) ⟨h, d, [], []⟩) = s
  have hhost : s.host = h := by
    rw [← hs]
    rfl
  show Exec.wp (sendImage _ (kernGetProgram h kernel) >>= _) _ _ s
  generalize kernGetProgram h kernel = prg at hstart ⊢
  -- the areas, and then what sends no area
  have himage : Marked prg h (sendImage (ctxGetDevice h (cmdqGetContext h cmdq)) prg s).2 := by
    rw [sendImage]
    by_cases hv : prgIsValid h prg = clSuccess
    · have hnum : prgGetNumChunks s.host prg = .ok (h.prgs prg).numChunks := by
        simp only [prgGetNumChunks, hhost, hv, check_success]
        rfl
      rw [Exec.bind_ok (by rw [query_apply, hnum])]
      by_cases hneg : (h.prgs prg).numChunks ≤ 0
      · rw [Int.toNat_of_nonpos hneg]
        exact hstart (congrArg Host.prgs hhost)
      · refine sendChunks_marked _ hv _ 0 s (by omega) ?_ (fun j _ => by rw [hhost]) ?_
        · rw [hhost]
          exact .refl prg h
        · exact hstart (by rw [hhost])
    · have hbad : prgGetNumChunks s.host prg = .error (prgIsValid h prg) := by
        simp only [prgGetNumChunks, hhost, check, if_neg hv]
        rfl
      rw [Exec.bind_error (by rw [query_apply, hbad])]
      exact hstart (by rw [hhost])
  rw [Exec.wp_bind]
  rcases hrun : sendImage (ctxGetDevice h (cmdqGetContext h cmdq)) prg s with ⟨e | _, s₁⟩
  · rw [Exec.wp_of_error hrun]
    rwa [hrun] at himage
  · rw [Exec.wp_of_ok hrun, Exec.wp_state]
    rw [hrun] at himage
    refine himage.later ((hR.bind (keeps_sendArguments hR _ prg kernel (fun _ _ _ _ _ _ => ?_)
      fun _ _ => ?_) fun out => hR.bind (keeps_execute hR (fun _ _ => ?_) (fun _ _ => ?_)
        (fun dev paddr s => ?_) _ out.1) fun _ => keeps_recvArguments hR _ kernel out.1 out.2
          fun _ _ _ _ _ => ?_) s₁)
    · exact ⟨rfl, _, rfl⟩
    · exact ⟨rfl, [], (List.append_nil _).symm⟩
    · exact ⟨rfl, _, rfl⟩
    · exact ⟨rfl, _, rfl⟩
    · exact ⟨rfl, [hCommEvent dev paddr s], rfl⟩
    · exact ⟨rfl, _, rfl⟩

/-! ## A run of launches -/

/-- A call of `in_clEnqueueNDRangeKernel`, in the state in which it is made. -/
structure Call (δ : Type) where
  cmdq : Ptr
  kernel : Ptr
  host : Host δ
  dev : δ

namespace Call

/-- What the launch comes to: its code, host, device and trace. -/
def out (c : Call δ) : Outcome δ := clEnqueueNDRangeKernel c.cmdq c.kernel c.host c.dev

/-- The program of the launched kernel, as a handle. -/
def prg (c : Call δ) : Ptr := kernGetProgram c.host c.kernel

/-- The program of the launched kernel, as an object. -/
def program (c : Call δ) : ClProgram := c.host.prgs c.prg

end Call

/-- The bytes of the ELF files: of the program behind a handle, for each of its chunks. -/
abbrev Elf := Ptr → Nat → List UInt8

/-- What ought to be on the device for chunk `i` of `prg`. -/
def Host.area (h : Host δ) (elf : Elf) (prg : Ptr) (i : Nat) : Nat × List UInt8 :=
  (((h.prgs prg).chunkAt i).paddr.toNat, elf prg i)

/-- The upload would leave the chunk out: it is readonly, and marked as sent. -/
def Host.IsLoaded (h : Host δ) (prg : Ptr) (i : Nat) : Prop :=
  i < (h.prgs prg).numChunks.toNat ∧ ((h.prgs prg).chunkAt i).Skipped

/-- The device leaves the cell alone in the runs of the call: between a run and the stop after it. -/
def Call.RunsSpare (mem : δ → ByteMap) (c : Call δ) (w : Nat × List UInt8) : Prop :=
  ∀ e ∈ c.out.trace, e.op = .run ∨ e.op = .stop →
    ∀ x ∈ span w.1 w.2.length, mem e.devAfter x = mem e.devBefore x

/-- What is promised about a launch: the device stores what is written to it and nothing else, the
areas of the program lie apart from each other and from its communication area, and the kernel does
not store to those of them that are readonly. -/
structure Call.Promised (mem : δ → ByteMap) (elf : Elf) (c : Call δ) : Prop where
  stores : ∀ dev ops, (c.host.devs dev).ops = some ops → ops.Stores mem
  apart : ∀ i j, i < c.program.numChunks.toNat → j < c.program.numChunks.toNat → i ≠ j →
    Disjoint (span (c.program.chunkAt i).paddr.toNat (c.program.chunkAt i).size.toNat)
      (span (c.program.chunkAt j).paddr.toNat (c.program.chunkAt j).size.toNat)
  comm : ∀ i < c.program.numChunks.toNat,
    Disjoint (span c.program.comm.addr.toNat c.program.comm.size.toNat)
      (span (c.program.chunkAt i).paddr.toNat (c.program.chunkAt i).size.toNat)
  readonly : ∀ i < c.program.numChunks.toNat, (c.program.chunkAt i).readonly = true →
    c.RunsSpare mem (c.host.area elf c.prg i)

/-- A launch that is harmless: the caller's binary still is the ELF file; nothing that the launch
stores on the device, nor the kernel while it runs, puts another byte onto an area that is marked as
loaded for another program; and the arguments stay in the communication area, or at least put no other
byte onto an area of the program itself. -/
structure Call.Harmless (mem : δ → ByteMap) (elf : Elf) (c : Call δ) : Prop where
  binary : ∀ i < c.program.numChunks.toNat, (c.program.chunkAt i).data c.host = elf c.prg i
  others : ∀ p, p ≠ c.prg → ∀ i, c.host.IsLoaded p i →
    (∀ q ∈ launchPuts c.host c.prg c.kernel, ByteMap.Agree (q.cell c.host) (c.host.area elf p i)) ∧
      c.RunsSpare mem (c.host.area elf p i)
  args : ∀ q ∈ (commPlan c.host c.program.comm (c.host.kerns c.kernel)).1,
    span q.paddr.toNat q.len.toNat ⊆ span c.program.comm.addr.toNat c.program.comm.size.toNat ∨
      ∀ i < c.program.numChunks.toNat, ByteMap.Agree (q.cell c.host) (c.host.area elf c.prg i)

/-- What the next call may find: the marks are those that this call left (some may be gone, with their
programs), and a device that was left running has spared the areas that are marked. -/
structure Call.Then (mem : δ → ByteMap) (elf : Elf) (c c' : Call δ) : Prop where
  marks : ∀ p i, c'.host.IsLoaded p i →
    c.out.host.IsLoaded p i ∧ c.out.host.area elf p i = c'.host.area elf p i
  spared : ∀ p i, c'.host.IsLoaded p i →
    ∀ x ∈ span (c'.host.area elf p i).1 (elf p i).length, mem c'.dev x = mem c.out.dev x

/-- The invariant of a run: what is marked is on the device. -/
def Intact (elf : Elf) (h : Host δ) (m : ByteMap) : Prop :=
  ∀ p i, h.IsLoaded p i → m.Holds (h.area elf p i)

/-- At its first run the device has every area of the launched program as the ELF file has it. -/
def Call.ImageOnDevice (mem : δ → ByteMap) (elf : Elf) (c : Call δ) : Prop :=
  ∀ r, earliest Event.isRun c.out.trace = some r →
    ∀ i < c.program.numChunks.toNat,
      (mem r.devBefore).load (c.program.chunkAt i).paddr.toNat (c.program.chunkAt i).size.toNat =
        elf c.prg i

/-- An area that the transfers agree with and the runs spare stays on the device across any part of
the trace. -/
theorem holds_across {c : Call δ} {w : Nat × List UInt8} {es : List (Event δ)} {a b : ByteMap × δ}
    (hst : ∀ dev ops, (c.host.devs dev).ops = some ops → ops.Stores mem)
    (hsub : ∀ e ∈ es, e ∈ c.out.trace) (hlink : Linked Event.before Event.after a es b)
    (hagree : ∀ q ∈ launchPuts c.host c.prg c.kernel, ByteMap.Agree (q.cell c.host) w)
    (hruns : c.RunsSpare mem w) (ha : (mem a.2).Holds w) : (mem b.2).Holds w := by
  refine hlink.invariant (P := fun x => (mem x.2).Holds w) (fun e he hbefore => ?_) ha
  have hlaw := launch_lawful c.cmdq c.kernel hst c.dev e (hsub e he)
  show (mem e.devAfter).Holds w
  replace hbefore : (mem e.devBefore).Holds w := hbefore
  cases hop : e.op with
  | reset =>
    simp only [Event.Lawful, hop] at hlaw
    rwa [hlaw]
  | readMem cargo paddr data =>
    simp only [Event.Lawful, hop] at hlaw
    rwa [hlaw]
  | writeMem cargo paddr data =>
    simp only [Event.Lawful, hop] at hlaw
    obtain ⟨q, hq, hqop⟩ := write_mem_launchPuts (hsub e he) (by rw [hop]; rfl)
    rw [hop] at hqop
    have hcell : q.cell c.host = (paddr.toNat, data) := by
      cases hqop
      rfl
    exact hbefore.partly _ hlaw.1 (hcell ▸ hagree q hq)
  | run =>
    have hspare := hruns e (hsub e he) (Or.inl hop)
    exact (ByteMap.load_congr hspare).trans hbefore
  | stop =>
    have hspare := hruns e (hsub e he) (Or.inr hop)
    exact (ByteMap.load_congr hspare).trans hbefore

section Step

variable {elf : Elf} {c : Call δ} (hp : c.Promised mem elf) (hh : c.Harmless mem elf)
include hp hh

omit hp in
/-- The bytes of an area have its size. -/
theorem length_elf {i : Nat} (hi : i < c.program.numChunks.toNat) :
    (elf c.prg i).length = (c.program.chunkAt i).size.toNat := by
  rw [← hh.binary i hi]
  exact ByteMap.length_load ..

/-- The transfers agree with every area of the program. -/
theorem agree_own {i : Nat} (hi : i < c.program.numChunks.toNat) :
    ∀ q ∈ launchPuts c.host c.prg c.kernel,
      ByteMap.Agree (q.cell c.host) (c.host.area elf c.prg i) := by
  intro q hq
  rcases List.mem_append.mp hq with hq | hq
  · obtain ⟨j, -, hj, -, rfl⟩ := (mem_chunkPuts _ _).mp hq
    replace hj : j < c.program.numChunks.toNat := by rwa [Nat.zero_add] at hj
    have hcell : (chunkPut j (c.program.chunkAt j)).cell c.host =
        c.host.area elf c.prg j := by
      rw [Put.cell, chunkPut_data, hh.binary j hj]
      rfl
    show ByteMap.Agree ((chunkPut j (c.program.chunkAt j)).cell c.host) _
    rw [hcell]
    by_cases hij : j = i
    · rw [hij]
      exact .refl _
    · refine .of_disjoint ?_
      show Disjoint (span _ (elf c.prg j).length) (span _ (elf c.prg i).length)
      rw [length_elf hh hj, length_elf hh hi]
      exact hp.apart j i hj hi hij
  · rcases hh.args q hq with hinside | hagree
    · refine .of_disjoint ?_
      have hlen : (q.cell c.host).2.length = q.len.toNat := Host.length_read ..
      show Disjoint (span _ (q.cell c.host).2.length) (span _ (elf c.prg i).length)
      rw [hlen, length_elf hh hi]
      exact (hp.comm i hi).mono_left hinside
    · exact hagree i hi

/-- They agree with every area that is marked, too. -/
theorem agree_of_loaded {p : Ptr} {i : Nat}
    (hi : c.host.IsLoaded p i ∨ p = c.prg ∧ i < c.program.numChunks.toNat) :
    ∀ q ∈ launchPuts c.host c.prg c.kernel,
      ByteMap.Agree (q.cell c.host) (c.host.area elf p i) := by
  by_cases hpp : p = c.prg
  · subst hpp
    exact agree_own hp hh (hi.elim And.left And.right)
  · rcases hi with hload | ⟨hpp', -⟩
    · exact (hh.others p hpp i hload).1
    · exact absurd hpp' hpp

/-- The runs spare every readonly area of the program and every one that is marked. -/
theorem runs_spare {p : Ptr} {i : Nat}
    (hi : c.host.IsLoaded p i ∨
      p = c.prg ∧ i < c.program.numChunks.toNat ∧ (c.program.chunkAt i).readonly = true) :
    c.RunsSpare mem (c.host.area elf p i) := by
  by_cases hpp : p = c.prg
  · subst hpp
    rcases hi with ⟨hlt, hskip⟩ | ⟨-, hlt, hro⟩
    · exact hp.readonly i hlt hskip.1
    · exact hp.readonly i hlt hro
  · rcases hi with hload | ⟨hpp', -⟩
    · exact (hh.others p hpp i hload).2
    · exact absurd hpp' hpp

/-- **One launch, the image.**  When the marks are true, the program is on the device at the first
run: what was left out was there, and what was sent is. -/
theorem imageOnDevice_of_intact (hi : Intact elf c.host (mem c.dev)) : c.ImageOnDevice mem elf := by
  intro r hr i hlt
  obtain ⟨⟨-, -, hok, -⟩, hbefore⟩ := (firstRun_launch c.cmdq c.kernel c.host c.dev).1 r hr
  have hst := hp.stores (ctxGetDevice c.host (cmdqGetContext c.host c.cmdq))
  have hmem : mem (launchSent c.host c.cmdq c.kernel c.dev).dev = _ :=
    transfer_mem (exact_of_stores hst) hok
  rw [devControlRet_reset_mem hst] at hmem
  have hagree : ∀ v ∈ (launchPuts c.host c.prg c.kernel).map (Put.cell c.host),
      ByteMap.Agree v (c.host.area elf c.prg i) := by
    intro v hv
    obtain ⟨q, hq, rfl⟩ := List.mem_map.mp hv
    exact agree_own hp hh hlt q hq
  have hholds : (mem r.devBefore).Holds (c.host.area elf c.prg i) := by
    rw [hbefore, hmem]
    by_cases hskip : (c.program.chunkAt i).Skipped
    · exact (hi c.prg i ⟨hlt, hskip⟩).storeAll _ hagree
    · refine ByteMap.holds_storeAll _ (List.mem_map.mpr ⟨chunkPut i (c.program.chunkAt i), ?_, ?_⟩)
        hagree
      · exact List.mem_append_left _ ((mem_chunkPuts _ _).mpr ⟨i, Nat.zero_le _, by
          rwa [Nat.zero_add], hskip, rfl⟩)
      · rw [Put.cell, chunkPut_data, hh.binary i hlt]
        rfl
  rw [← length_elf hh hlt]
  exact hholds

/-- **One launch, the invariant.**  A harmless launch leaves the marks true. -/
theorem intact_of_launch (hi : Intact elf c.host (mem c.dev)) :
    Intact elf c.out.host (mem c.out.dev) := by
  obtain ⟨es, hes, hlink⟩ := recorded_steps.keeps_launch c.cmdq c.kernel ⟨c.host, c.dev, [], []⟩
  have hmarked := launch_marked c.cmdq c.kernel c.host c.dev
  replace hes : c.out.trace = es := hes
  intro p i hload
  -- a mark that was there before: the area stays from the start to the end
  have hold (hload' : c.host.IsLoaded p i)
      (harea : c.out.host.area elf p i = c.host.area elf p i) :
      (mem c.out.dev).Holds (c.out.host.area elf p i) := by
    rw [harea]
    exact holds_across hp.stores (fun e he => hes ▸ he) hlink
      (agree_of_loaded hp hh (Or.inl hload')) (runs_spare hp hh (Or.inl hload')) (hi p i hload')
  by_cases hpp : p = c.prg
  · subst hpp
    rcases hmarked.own i with hsame | ⟨haddr, hro, hlt, e, he, hop, hret⟩
    · refine hold ⟨?_, ?_⟩ ?_
      · exact hmarked.numChunks ▸ hload.1
      · exact hsame ▸ hload.2
      · exact congrArg (fun k : ProgramChunk => (k.paddr.toNat, elf c.prg i)) hsame
    · -- a new mark: the area stays from its transfer on
      have harea : c.out.host.area elf c.prg i = c.host.area elf c.prg i :=
        congrArg (fun a : UInt64 => (a.toNat, elf c.prg i)) haddr
      have hro' : (c.program.chunkAt i).readonly = true := hro.symm.trans hload.2.1
      replace he : e ∈ c.out.trace := he
      rw [hes] at he
      obtain ⟨pre, post, rfl⟩ := List.append_of_mem he
      obtain ⟨-, -, -, hpost⟩ := hlink.split
      have hlaw := launch_lawful c.cmdq c.kernel hp.stores c.dev e
        (by rw [← Call.out, hes]; exact he)
      have hput : (mem e.devAfter).Holds (c.host.area elf c.prg i) := by
        simp only [Event.Lawful, hop, Put.op, chunkPut_data] at hlaw
        rw [Host.area, ← hh.binary i hlt]
        exact hlaw.2 hret
      rw [harea]
      refine holds_across hp.stores (fun x hx => ?_) hpost
        (agree_of_loaded hp hh (Or.inr ⟨rfl, hlt⟩)) (runs_spare hp hh (Or.inr ⟨rfl, hlt, hro'⟩)) hput
      rw [hes]
      exact List.mem_append_right _ (List.mem_cons_of_mem _ hx)
  · have hsame : c.out.host.prgs p = c.host.prgs p := hmarked.others p hpp
    refine hold ?_ ?_
    · simpa only [Host.IsLoaded, hsame] using hload
    · simp only [Host.area, hsame]

end Step

/-- The next call finds the marks true. -/
theorem Intact.then {elf : Elf} {c c' : Call δ} (hi : Intact elf c.out.host (mem c.out.dev))
    (hthen : c.Then mem elf c') : Intact elf c'.host (mem c'.dev) := by
  intro p i hload
  obtain ⟨hload', harea⟩ := hthen.marks p i hload
  have hholds := hi p i hload'
  rw [harea] at hholds
  exact (ByteMap.load_congr (hthen.spared p i hload)).trans hholds

/-- A run of launches from true marks has every image on the device. -/
theorem imageOnDevice_of_chain {elf : Elf} {calls : List (Call δ)}
    (hstart : ∀ c ∈ calls.head?, Intact elf c.host (mem c.dev))
    (hp : ∀ c ∈ calls, c.Promised mem elf) (hh : ∀ c ∈ calls, c.Harmless mem elf)
    (hchain : calls.IsChain (Call.Then mem elf)) : ∀ c ∈ calls, c.ImageOnDevice mem elf := by
  induction calls with
  | nil => simp
  | cons c calls ih =>
    have hc := hp c (List.mem_cons_self ..)
    have hc' := hh c (List.mem_cons_self ..)
    have hi := hstart c rfl
    intro x hx
    rcases List.mem_cons.mp hx with rfl | hx
    · exact imageOnDevice_of_intact hc hc' hi
    · refine ih (fun c' hc'' => ?_) (fun y hy => hp y (List.mem_cons_of_mem _ hy))
        (fun y hy => hh y (List.mem_cons_of_mem _ hy)) hchain.tail x hx
      exact (intact_of_launch hc hc' hi).then (hchain.rel_head? hc'')

/-- **Image integrity**: in a run of harmless launches of programs that start out unmarked, every
launch has its whole program on the device at its first run. -/
theorem launches_imageOnDevice (elf : Elf) (calls : List (Call δ))
    (hfresh : ∀ c ∈ calls.head?, ∀ p i, ¬ c.host.IsLoaded p i)
    (hp : ∀ c ∈ calls, c.Promised mem elf) (hh : ∀ c ∈ calls, c.Harmless mem elf)
    (hchain : calls.IsChain (Call.Then mem elf)) : ∀ c ∈ calls, c.ImageOnDevice mem elf :=
  imageOnDevice_of_chain (fun c hc p i hload => absurd hload (hfresh c hc p i)) hp hh hchain

/-! ## Two programs on one board -/

/-- The calls that launch the given kernels one after the other. -/
def launches (cmdq : Ptr) : List Ptr → Host δ → δ → List (Call δ)
  | [], _, _ => []
  | kernel :: kernels, h, d =>
    let c : Call δ := ⟨cmdq, kernel, h, d⟩
    c :: launches cmdq kernels c.out.host c.out.dev

theorem launches_isChain (cmdq : Ptr) (elf : Elf) (kernels : List Ptr) (h : Host δ) (d : δ) :
    (launches cmdq kernels h d).IsChain (Call.Then mem elf) := by
  induction kernels generalizing h d with
  | nil => exact List.IsChain.nil
  | cons kernel kernels ih =>
    refine List.isChain_cons.mpr ⟨fun c hc => ?_, ih _ _⟩
    cases kernels with
    | nil => cases hc
    | cons kernel' kernels =>
      obtain rfl := Option.some.inj hc
      exact ⟨fun p i hload => ⟨hload, rfl⟩, fun _ _ _ _ _ => rfl⟩

/-- On a board with memory, a run spares what its effect spares. -/
theorem memoryOps_runsSpare {run : ByteMap → ByteMap} {c : Call ByteMap} {w : Nat × List UInt8}
    (hdevs : c.host.devs = fun _ => ⟨openclIcdMagic, some (memoryOps run)⟩)
    (hrun : ∀ m, ∀ x ∈ span w.1 w.2.length, run m x = m x) : c.RunsSpare id w := by
  have hcontrol (slot : DevOps ByteMap → Option (ByteMap → ClInt × ByteMap)) (f : ByteMap → ByteMap)
      (hslot : ∀ d, (slot (memoryOps run)).map (fun g => (g d).2) = some (f d)) (dev : Ptr)
      (s : Sys ByteMap) (hs : s.host.devs = fun _ => ⟨openclIcdMagic, some (memoryOps run)⟩) :
      (devControlRet slot s.host dev s.dev).2 = f s.dev ∨
        (devControlRet slot s.host dev s.dev).2 = s.dev := by
    have hf := hslot s.dev
    rw [devControlRet, hs]
    split
    · exact Or.inr rfl
    · simp only [Option.bind_some]
      rcases hg : slot (memoryOps run) with _ | g
      · simp [hg] at hf
      · rw [hg] at hf
        exact Or.inl (Option.some.inj hf)
  have hevents : ∀ e ∈ c.out.trace, e.op = .run ∨ e.op = .stop →
      e.devAfter = run e.devBefore ∨ e.devAfter = e.devBefore := by
    refine events_of_launch ?_ ?_ ?_ ?_ ?_ ?_ c.cmdq c.kernel ⟨c.host, c.dev, [], []⟩ hdevs (by simp)
    · intro dev s _ hop
      exact absurd hop (by simp [controlEvent])
    · intro dev s hs _
      exact hcontrol (·.run) run (fun _ => rfl) dev s hs
    · intro dev s hs _
      exact (hcontrol (·.stop) id (fun _ => rfl) dev s hs).elim Or.inr Or.inr
    · intro cargo dev paddr buf len s _ hop
      exact absurd hop (by simp [writeEvent])
    · intro dev paddr ptr len s _ hop
      exact absurd hop (by simp [readEvent])
    · intro dev paddr s _ hop
      exact absurd hop (by simp [hCommEvent])
  intro e he hop x hx
  rcases hevents e he hop with hran | hsame
  · show e.devAfter x = e.devBefore x
    rw [hran, hrun _ x hx]
  · show e.devAfter x = e.devBefore x
    rw [hsame]

/-- Programs `1` and `2` with a readonly area of sixteen bytes each, the first at `0x80000000` and the
second at `paddr`, and a kernel of each.  A kernel does nothing but set `done`. -/
def pairHost (paddr : UInt64) : Host ByteMap :=
  { Host.single (fun x => UInt8.ofNat x) (memoryOps fun m => m.store 0x80001008 [1])
      (textProgram ⟨0x80001000, 0x1000⟩) plainKernel fun _ => ⟨0, 0, 0, 0⟩ with
    prgs := Function.update (fun _ => textProgram ⟨0x80001000, 0x1000⟩) 2
      ⟨openclIcdMagic, 1, some [⟨0, paddr, 96, 16, true, false⟩], ⟨0x80001000, 0x1000⟩⟩
    kerns := Function.update (fun _ => plainKernel) 2 { plainKernel with prg := 2 } }

/-- Sixteen bytes of each program, which tell the two apart. -/
def pairElf : Elf := fun p _ => (List.range 16).map fun i => UInt8.ofNat ((if p = 2 then 96 else 64) + i)

/-- Three launches of two programs: the first program comes again after the second. -/
def pairCalls (paddr : UInt64) : List (Call ByteMap) :=
  launches 1 [1, 2, 1] (pairHost paddr) fun _ => 0

/-- The kernels store to the communication area only. -/
theorem pair_run_spares {w : Nat × List UInt8} {m : ByteMap} {x : Nat} (hw : w.1 + 16 ≤ 0x80001008)
    (hlen : w.2.length = 16) (hx : x ∈ span w.1 w.2.length) : m.store 0x80001008 [1] x = m x := by
  apply ByteMap.store_of_notMem
  rw [hlen] at hx
  simp only [mem_span, List.length_singleton] at hx ⊢
  omega

/-- The host holds the two programs, whose chunks may be marked as sent or not. -/
structure OfPair (paddr : UInt64) (h : Host ByteMap) : Prop where
  devs : h.devs = (pairHost paddr).devs
  kerns : h.kerns = (pairHost paddr).kerns
  numChunks : ∀ p, (h.prgs p).numChunks = 1
  others : ∀ p, p ≠ 1 → p ≠ 2 → h.prgs p = textProgram ⟨0x80001000, 0x1000⟩

theorem OfPair.out {paddr : UInt64} {c : Call ByteMap} (hc : OfPair paddr c.host)
    (hk : c.prg = 1 ∨ c.prg = 2) : OfPair paddr c.out.host := by
  obtain ⟨bytes, prgs, hhost⟩ := launch_host c.cmdq c.kernel ⟨c.host, c.dev, [], []⟩
  have hmarked := launch_marked c.cmdq c.kernel c.host c.dev
  replace hhost : c.out.host = { c.host with bytes := bytes, prgs := prgs } := hhost
  refine ⟨by rw [hhost]; exact hc.devs, by rw [hhost]; exact hc.kerns, fun p => ?_, fun p h1 h2 => ?_⟩
  · by_cases hp : p = c.prg
    · rw [hp]
      exact hmarked.numChunks.trans (hc.numChunks _)
    · exact (congrArg ClProgram.numChunks (hmarked.others p hp)).trans (hc.numChunks p)
  · refine (hmarked.others p ?_).trans (hc.others p h1 h2)
    rintro rfl
    exact hk.elim h1 h2

theorem ofPair_pairCalls (paddr : UInt64) : ∀ c ∈ pairCalls paddr, OfPair paddr c.host := by
  have hkern {c : Call ByteMap} (hc : OfPair paddr c.host) (hk : c.kernel = 1 ∨ c.kernel = 2) :
      c.prg = 1 ∨ c.prg = 2 := by
    rw [Call.prg, kernGetProgram, kernIsValid, hc.kerns]
    rcases hk with hk | hk <;> rw [hk]
    · exact Or.inl rfl
    · exact Or.inr rfl
  have hall (kernels : List Ptr) (hks : ∀ k ∈ kernels, k = 1 ∨ k = 2) :
      ∀ h d, OfPair paddr h → ∀ c ∈ launches 1 kernels h d, OfPair paddr c.host := by
    induction kernels with
    | nil => exact fun _ _ _ _ hc => absurd hc List.not_mem_nil
    | cons kernel kernels ih =>
      intro h d hh c hc
      rcases List.mem_cons.mp hc with rfl | hc
      · exact hh
      · refine ih (fun k hk => hks k (List.mem_cons_of_mem _ hk)) _ _ (OfPair.out hh ?_) c hc
        exact hkern (c := ⟨1, kernel, h, d⟩) hh (hks kernel (List.mem_cons_self ..))
  have hother (p : Ptr) (h2 : p ≠ 2) :
      (pairHost paddr).prgs p = textProgram ⟨0x80001000, 0x1000⟩ := by
    simp only [pairHost, Function.update_of_ne h2]
  refine hall [1, 2, 1] (by decide) _ _ ⟨rfl, rfl, fun p => ?_, fun p _ h2 => ?_⟩
  · by_cases h2 : p = 2
    · rw [h2]
      rfl
    · rw [hother p h2]
      rfl
  · exact hother p h2

theorem OfPair.loaded {paddr : UInt64} {h : Host ByteMap} (hh : OfPair paddr h) {p : Ptr} {i : Nat}
    (hload : h.IsLoaded p i) : (p = 1 ∨ p = 2) ∧ i = 0 := by
  obtain ⟨hlt, hskip⟩ := hload
  have hnum := hh.numChunks p
  have hi : i = 0 := by
    rw [hnum] at hlt
    exact Nat.lt_one_iff.mp hlt
  refine ⟨?_, hi⟩
  by_contra hp
  rw [not_or] at hp
  rw [hh.others p hp.1 hp.2, hi] at hskip
  exact absurd hskip (by decide)

/-- What can be computed about a call of the pair: its area lies below the communication area, and the
binary is as it was. -/
def PairFacts (c : Call ByteMap) : Prop :=
  (c.program.chunkAt 0).paddr.toNat + 16 ≤ 0x80001000 ∧ (c.program.chunkAt 0).size = 16 ∧
    c.program.comm = ⟨0x80001000, 0x1000⟩ ∧ (c.program.chunkAt 0).data c.host = pairElf c.prg 0

instance (c : Call ByteMap) : Decidable (PairFacts c) := inferInstanceAs (Decidable (_ ∧ _))

/-- The two programs keep the promises, wherever the second one lies. -/
theorem pair_promised {paddr : UInt64} {c : Call ByteMap} (hc : OfPair paddr c.host)
    (hfacts : PairFacts c) : c.Promised id pairElf where
  stores dev ops hops := by
    rw [hc.devs] at hops
    obtain rfl := Option.some.inj hops
    exact memoryOps_stores _
  apart i j hi hj hij := by
    rw [Call.program, hc.numChunks] at hi hj
    omega
  comm i hi := by
    obtain ⟨hlow, hsize, hcomm, -⟩ := hfacts
    rw [Call.program, hc.numChunks] at hi
    obtain rfl : i = 0 := Nat.lt_one_iff.mp hi
    rw [hsize, hcomm]
    exact (span_disjoint_of_le hlow).symm
  readonly i hi _ := by
    rw [Call.program, hc.numChunks] at hi
    obtain rfl : i = 0 := Nat.lt_one_iff.mp hi
    have hlow : (c.host.area pairElf c.prg 0).1 + 16 ≤ 0x80001008 :=
      hfacts.1.trans (by decide)
    exact memoryOps_runsSpare hc.devs fun m x hx => pair_run_spares hlow rfl hx

/-- What can be computed about the transfers of a call of the pair: they keep clear of the areas of
both programs, or are one of them. -/
def PairApart (c : Call ByteMap) : Prop :=
  ∀ v ∈ (launchPuts c.host c.prg c.kernel).map (Put.cell c.host), ∀ p ∈ [1, 2],
    v.1 + v.2.length ≤ (c.host.area pairElf p 0).1 ∨ (c.host.area pairElf p 0).1 + 16 ≤ v.1 ∨
      v = c.host.area pairElf p 0

instance (c : Call ByteMap) : Decidable (PairApart c) := by unfold PairApart; infer_instance

theorem pair_harmless {paddr : UInt64} {c : Call ByteMap} (hc : OfPair paddr c.host)
    (hfacts : PairFacts c) (hapart : PairApart c)
    (hlow : ∀ p ∈ [1, 2], (c.host.area pairElf p 0).1 + 16 ≤ 0x80001008)
    (hprg : c.prg ∈ [1, 2]) : c.Harmless id pairElf := by
  have hagree (p : Ptr) (hp : p ∈ [1, 2]) (q : Put)
      (hq : q ∈ launchPuts c.host c.prg c.kernel) :
      ByteMap.Agree (q.cell c.host) (c.host.area pairElf p 0) := by
    rcases hapart _ (List.mem_map_of_mem hq) p hp with hle | hle | heq
    · exact .of_disjoint (span_disjoint_of_le hle)
    · exact .of_disjoint (span_disjoint_of_le hle).symm
    · exact heq ▸ .refl _
  refine ⟨fun i hi => ?_, fun p _ i hload => ?_, fun q hq => Or.inr fun i hi => ?_⟩
  · rw [Call.program, hc.numChunks] at hi
    obtain rfl : i = 0 := Nat.lt_one_iff.mp hi
    exact hfacts.2.2.2
  · obtain ⟨hp, rfl⟩ := hc.loaded hload
    have hmem : p ∈ [1, 2] := by simpa using hp
    exact ⟨hagree p hmem, memoryOps_runsSpare hc.devs fun m x hx => pair_run_spares (hlow p hmem) rfl hx⟩
  · rw [Call.program, hc.numChunks] at hi
    obtain rfl : i = 0 := Nat.lt_one_iff.mp hi
    exact hagree c.prg hprg q (List.mem_append_right _ hq)

/-- With the programs at different addresses, the first one is intact when it is launched again. -/
theorem pair_imageOnDevice : (pairCalls 0x80000100).map Call.prg = [1, 2, 1] ∧
    ∀ c ∈ pairCalls 0x80000100, c.ImageOnDevice id pairElf := by
  refine ⟨by decide +kernel, ?_⟩
  have hpair := ofPair_pairCalls 0x80000100
  have hfacts : ∀ c ∈ pairCalls 0x80000100, PairFacts c := by decide +kernel
  have hapart : ∀ c ∈ pairCalls 0x80000100, PairApart c := by decide +kernel
  have hlow : ∀ c ∈ pairCalls 0x80000100, ∀ p ∈ [1, 2],
      (c.host.area pairElf p 0).1 + 16 ≤ 0x80001008 := by decide +kernel
  have hprg : ∀ c ∈ pairCalls 0x80000100, c.prg ∈ [1, 2] := by decide +kernel
  refine launches_imageOnDevice pairElf _ ?_ (fun c hc => pair_promised (hpair c hc) (hfacts c hc))
    (fun c hc => pair_harmless (hpair c hc) (hfacts c hc) (hapart c hc) (hlow c hc) (hprg c hc))
    (launches_isChain ..)
  intro c hc p i hload
  obtain rfl := Option.some.inj hc
  obtain ⟨hp, rfl⟩ := (hpair _ (List.mem_cons_self ..)).loaded hload
  rcases hp with rfl | rfl <;> exact absurd hload.2 (by decide)

/-- With both at one address, the second program lies where the first one is taken to be. -/
theorem pair_stale : (∀ c ∈ pairCalls 0x80000000, c.Promised id pairElf) ∧
    ¬ ∀ c ∈ pairCalls 0x80000000, c.ImageOnDevice id pairElf := by
  have hfacts : ∀ c ∈ pairCalls 0x80000000, PairFacts c := by decide +kernel
  refine ⟨fun c hc => pair_promised (ofPair_pairCalls _ c hc) (hfacts c hc), fun hclaim => ?_⟩
  have hstale : (((pairCalls 0x80000000).getLast?.bind fun c => earliest Event.isRun c.out.trace).map
      fun r => r.devBefore.load 0x80000000 16) = some (pairElf 2 0) := by decide +kernel
  obtain ⟨r, hr, hbytes⟩ := Option.map_eq_some_iff.mp hstale
  obtain ⟨c, hc, hrun⟩ := Option.bind_eq_some_iff.mp hr
  have hlast : ∀ c ∈ (pairCalls 0x80000000).getLast?, c.program.numChunks = 1 ∧
      (c.program.chunkAt 0).paddr = 0x80000000 ∧ (c.program.chunkAt 0).size = 16 ∧ c.prg = 1 := by
    decide +kernel
  obtain ⟨hnum, haddr, hsize, hprg⟩ := hlast c hc
  have hbad := hclaim c (List.mem_of_getLast? hc) r hrun 0 (by rw [hnum]; decide)
  rw [haddr, hsize, hprg] at hbad
  exact absurd (hbytes.symm.trans hbad) (by decide)

end BaremetalCrt
