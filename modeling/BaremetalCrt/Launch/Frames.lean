/-
# BaremetalCrt.Launch.Frames — what every step of a launch keeps.

A launch touches its state in a few ways: the device calls, the read into its local record, the
initialisation of that record, and the flag of a chunk.  A relation that allows the ones a phase makes
holds across the phase (`keeps_recvArguments`), and one that allows all of them across the whole
launch (`Steps.keeps_launch`), whatever the device answers and wherever the launch stops.

Relations that a launch keeps in this sense are that the trace only grows, that the objects but for the
flags stay the same, and that the events leave no gap; the results about traces and objects start from here.
-/
import BaremetalCrt.Launch.Enqueue

namespace BaremetalCrt

open Lib

variable {δ : Type}

/-- A relation between the states before and after that can be carried from step to step. -/
structure Carried (R : Sys δ → Sys δ → Prop) : Prop where
  refl : ∀ s, R s s
  trans : ∀ a b c, R a b → R b c → R a c

section Phases

variable {R : Sys δ → Sys δ → Prop} (hR : Carried R)
include hR

theorem Carried.bind {α β : Type} {m : Launch δ α} {f : α → Launch δ β} (hm : Exec.Keeps R m)
    (hf : ∀ a, Exec.Keeps R (f a)) : Exec.Keeps R (m >>= f) := Exec.Keeps.bind hR.trans hm hf

theorem Carried.query {α : Type} (f : Host δ → Except ClInt α) : Exec.Keeps R (query f) :=
  fun s => hR.refl s

/-- Sending the arguments makes writes, and initialises the local record. -/
theorem keeps_sendArguments (dev prg kernel : Ptr)
    (hwrite : ∀ cargo dev paddr buf len s, R s (s.push (writeEvent cargo dev paddr buf len s)))
    (hrecord : ∀ bs s, R s { s with hComm := bs }) :
    Exec.Keeps R (sendArguments dev prg kernel) := by
  have hone (arg : KernArg) (comm : ProgramComm) (paddr : UInt64) :
      Exec.Keeps R (enqueueArg dev arg comm paddr) := by
    refine hR.bind (hR.query _) fun ⟨ptr, size, need⟩ => Exec.Keeps.ite hR.refl ?_
    refine hR.bind (fun s => hwrite _ dev _ _ _ s) fun _ => Exec.Keeps.ite ?_ hR.refl
    exact hR.bind (fun s => hwrite _ dev _ _ _ s) fun _ => hR.refl
  have hall (comm : ProgramComm) (n : Nat) :
      ∀ i paddr, Exec.Keeps R (enqueueArgs dev kernel comm i n paddr) := by
    induction n with
    | zero => exact fun _ _ => hR.refl
    | succ n ih =>
      intro i paddr
      exact hR.bind (hR.query _) fun arg => hR.bind (hone arg comm paddr) fun p => ih (i + 1) p
  refine hR.bind (hR.query _) fun comm => hR.bind (hR.query _) fun n => ?_
  refine hR.bind (fun s => hrecord _ s) fun _ => ?_
  refine hR.bind (fun s => hwrite _ dev _ _ _ s) fun _ => hR.bind hR.refl fun arg => ?_
  refine hR.bind (hone arg comm _) fun p => ?_
  exact hR.bind (hall comm _ 0 p) fun _ => hR.refl

/-- Reading the arguments back makes reads only. -/
theorem keeps_recvArguments (dev kernel : Ptr) (comm : ProgramComm) (numArgs : UInt32)
    (hread : ∀ dev paddr ptr len s, R s (s.push (readEvent dev paddr ptr len s))) :
    Exec.Keeps R (recvArguments dev kernel comm numArgs) := by
  have hone (arg : KernArg) (paddr : UInt64) : Exec.Keeps R (dequeueArg dev arg comm paddr) := by
    refine hR.bind (hR.query _) fun ⟨ptr, size, need⟩ => Exec.Keeps.ite hR.refl ?_
    exact Exec.Keeps.ite (hR.bind (fun s => hread dev _ ptr size s) fun _ => hR.refl) hR.refl
  have hall (n : Nat) : ∀ i paddr, Exec.Keeps R (dequeueArgs dev kernel comm i n paddr) := by
    induction n with
    | zero => exact fun _ _ => hR.refl
    | succ n ih =>
      intro i paddr
      exact hR.bind (hR.query _) fun arg => hR.bind (hone arg paddr) fun p => ih (i + 1) p
  refine hR.bind hR.refl fun arg => hR.bind (hone arg _) fun p => ?_
  exact hR.bind (hall _ 0 p) fun _ => hR.refl

section Execute

variable (hrun : ∀ dev s, R s (s.push (controlEvent .run (·.run) dev s)))
  (hstop : ∀ dev s, R s (s.push (controlEvent .stop (·.stop) dev s)))
  (hheader : ∀ dev paddr s,
    R s { s.push (hCommEvent dev paddr s) with hComm := hCommAfter dev paddr s })
include hrun hstop hheader

/-- Polling stops and runs the device, and reads the header. -/
theorem keeps_poll (dev : Ptr) (comm : ProgramComm) (n : Nat) : Exec.Keeps R (poll dev comm n) := by
  induction n with
  | zero => exact hR.refl
  | succ n ih =>
    refine hR.bind (fun s => hstop dev s) fun _ => ?_
    refine hR.bind (fun s => hheader dev _ s) fun _ => ?_
    refine hR.bind hR.refl fun hComm => Exec.Keeps.ite hR.refl (Exec.Keeps.ite hR.refl ?_)
    exact hR.bind (fun s => hrun dev s) fun _ => ih

/-- So does the run phase. -/
theorem keeps_execute (dev : Ptr) (comm : ProgramComm) : Exec.Keeps R (execute dev comm) := by
  refine hR.bind (fun s => hrun dev s) fun _ => ?_
  exact hR.bind (keeps_poll hR hrun hstop hheader dev comm _) fun done =>
    Exec.Keeps.ite hR.refl hR.refl

end Execute

end Phases

/-- The relation allows every step of a launch: the operations on the device, and the flags of the chunks. -/
structure Steps (R : Sys δ → Sys δ → Prop) : Prop extends Carried R where
  reset : ∀ dev s, R s (s.push (controlEvent .reset (·.reset) dev s))
  run : ∀ dev s, R s (s.push (controlEvent .run (·.run) dev s))
  stop : ∀ dev s, R s (s.push (controlEvent .stop (·.stop) dev s))
  write : ∀ cargo dev paddr buf len s, R s (s.push (writeEvent cargo dev paddr buf len s))
  read : ∀ dev paddr ptr len s, R s (s.push (readEvent dev paddr ptr len s))
  header : ∀ dev paddr s,
    R s { s.push (hCommEvent dev paddr s) with hComm := hCommAfter dev paddr s }
  hComm : ∀ bs s, R s { s with hComm := bs }
  chunk : ∀ prg i c s host, prgSetChunk s.host prg i c = .ok host → R s { s with host := host }

section Launch

variable {R : Sys δ → Sys δ → Prop} (hR : Steps R)
include hR

theorem Steps.keeps_sendImage (dev prg : Ptr) : Exec.Keeps R (sendImage dev prg) := by
  have hone (i : Nat) : Exec.Keeps R (sendChunk dev prg i) := by
    refine hR.bind (hR.query _) fun chunk => Exec.Keeps.ite hR.refl ?_
    refine hR.bind (fun s => hR.write _ dev _ _ _ s) fun _ s => ?_
    rcases hset : prgSetChunk s.host prg i { chunk with loaded := true } with e | host
    · rw [Exec.bind_error (by rw [query_apply, hset])]
      exact hR.refl s
    · rw [Exec.bind_ok (by rw [query_apply, hset])]
      exact hR.chunk prg i _ s host hset
  have hall (n : Nat) : ∀ i, Exec.Keeps R (sendChunks dev prg i n) := by
    induction n with
    | zero => exact fun _ => hR.refl
    | succ n ih => exact fun i => hR.bind (hone i) fun _ => ih (i + 1)
  exact hR.bind (hR.query _) fun n => hall _ 0

/-- What every step allows, the launch keeps. -/
theorem Steps.keeps_launch (cmdq kernel : Ptr) : Exec.Keeps R (launch cmdq kernel) := by
  refine hR.bind hR.refl fun dev => hR.bind hR.refl fun prg => ?_
  refine hR.bind (fun s => hR.reset dev s) fun _ => ?_
  refine hR.bind (hR.keeps_sendImage dev prg) fun _ => ?_
  refine hR.bind (keeps_sendArguments hR.toCarried dev prg kernel hR.write hR.hComm)
    fun ⟨comm, numArgs⟩ => ?_
  refine hR.bind (keeps_execute hR.toCarried hR.run hR.stop hR.header dev comm) fun _ => ?_
  exact keeps_recvArguments hR.toCarried dev kernel comm numArgs fun d p b l s => hR.read d p b l s

end Launch

/-! ## The trace of a launch -/

/-- A new chunk table leaves everything else of the host alone. -/
theorem prgSetChunk_eq {h h' : Host δ} {prg : Ptr} {i : Int} {c : ProgramChunk}
    (hset : prgSetChunk h prg i c = .ok h') : ∃ prgs, h' = { h with prgs := prgs } := by
  by_cases hv : prgIsValid h prg = clSuccess
  · by_cases hr : i < 0 ∨ (h.prgs prg).numChunks ≤ i
    · simp only [prgSetChunk, hv, check_success, if_pos hr] at hset
      cases hset
    · simp only [prgSetChunk, hv, check_success, if_neg hr] at hset
      exact ⟨_, (Except.ok.inj hset).symm⟩
  · simp only [prgSetChunk, check, if_neg hv] at hset
    cases hset

/-- The events of a launch account for all that happens to the host memory and to the device. -/
theorem recorded_steps : Steps (Sys.Recorded (δ := δ)) where
  refl := .refl
  trans _ _ _ := .trans
  reset _ _ := .push rfl
  run _ _ := .push rfl
  stop _ _ := .push rfl
  write _ _ _ _ _ _ := .push rfl
  read _ _ _ _ _ := .push rfl
  header dev paddr s := Sys.Recorded.push (e := hCommEvent dev paddr s) rfl
  hComm _ s := ⟨[], (List.append_nil _).symm, rfl⟩
  chunk prg i c s host hset := ⟨[], (List.append_nil _).symm, by
    obtain ⟨prgs, rfl⟩ := prgSetChunk_eq hset
    rfl⟩

/-- What holds of every call a launch can make, on the devices it found, holds of its events. -/
theorem events_of_launch {P : Event δ → Prop} {devs : Ptr → ClDevice δ}
    (hreset : ∀ dev (s : Sys δ), s.host.devs = devs → P (controlEvent .reset (·.reset) dev s))
    (hrun : ∀ dev (s : Sys δ), s.host.devs = devs → P (controlEvent .run (·.run) dev s))
    (hstop : ∀ dev (s : Sys δ), s.host.devs = devs → P (controlEvent .stop (·.stop) dev s))
    (hwrite : ∀ cargo dev paddr buf len (s : Sys δ), s.host.devs = devs →
      P (writeEvent cargo dev paddr buf len s))
    (hread : ∀ dev paddr ptr len (s : Sys δ), s.host.devs = devs → P (readEvent dev paddr ptr len s))
    (hheader : ∀ dev paddr (s : Sys δ), s.host.devs = devs → P (hCommEvent dev paddr s))
    (cmdq kernel : Ptr) (s : Sys δ) (hs : s.host.devs = devs) (htr : ∀ e ∈ s.trace, P e) :
    ∀ e ∈ (launch cmdq kernel s).2.trace, P e := by
  let R (s s' : Sys δ) : Prop := s.host.devs = devs → (∀ e ∈ s.trace, P e) →
    s'.host.devs = devs ∧ ∀ e ∈ s'.trace, P e
  have hpush {s : Sys δ} {e : Event δ} (he : s.host.devs = devs → P e) : R s (s.push e) := by
    intro hd hall
    refine ⟨hd, fun x hx => ?_⟩
    rcases List.mem_append.mp hx with hx | hx
    · exact hall x hx
    · obtain rfl := List.mem_singleton.mp hx
      exact he hd
  have hsteps : Steps R :=
    { refl := fun _ hd hall => ⟨hd, hall⟩
      trans := fun _ _ _ hab hbc hd hall => hbc (hab hd hall).1 (hab hd hall).2
      reset := fun dev s => hpush (hreset dev s)
      run := fun dev s => hpush (hrun dev s)
      stop := fun dev s => hpush (hstop dev s)
      write := fun cargo dev paddr buf len s => hpush (hwrite cargo dev paddr buf len s)
      read := fun dev paddr ptr len s => hpush (hread dev paddr ptr len s)
      header := fun dev paddr s => hpush (s := s) (hheader dev paddr s)
      hComm := fun _ _ hd hall => ⟨hd, hall⟩
      chunk := fun _ _ _ _ _ hset hd hall => by
        obtain ⟨prgs, rfl⟩ := prgSetChunk_eq hset
        exact ⟨hd, hall⟩ }
  exact (hsteps.keeps_launch cmdq kernel s hs htr).2

/-- Of the host a launch changes the plain bytes and the programs only. -/
theorem launch_host (cmdq kernel : Ptr) (s : Sys δ) :
    ∃ bytes prgs, (launch cmdq kernel s).2.host = { s.host with bytes := bytes, prgs := prgs } := by
  have hsteps : Steps fun s s' : Sys δ =>
      ∃ bytes prgs, s'.host = { s.host with bytes := bytes, prgs := prgs } :=
    { refl := fun s => ⟨_, _, rfl⟩
      trans := fun a b c hab hbc => by
        obtain ⟨bytes, prgs, hb⟩ := hab
        obtain ⟨bytes', prgs', hc⟩ := hbc
        exact ⟨bytes', prgs', by rw [hc, hb]⟩
      reset := fun _ _ => ⟨_, _, rfl⟩
      run := fun _ _ => ⟨_, _, rfl⟩
      stop := fun _ _ => ⟨_, _, rfl⟩
      write := fun _ _ _ _ _ _ => ⟨_, _, rfl⟩
      read := fun _ _ _ _ _ => ⟨_, _, rfl⟩
      header := fun dev paddr s => ⟨_, _, rfl⟩
      hComm := fun _ _ => ⟨_, _, rfl⟩
      chunk := fun _ _ _ s _ hset => by
        obtain ⟨prgs, rfl⟩ := prgSetChunk_eq hset
        exact ⟨_, prgs, rfl⟩ }
  exact hsteps.keeps_launch cmdq kernel s

end BaremetalCrt
