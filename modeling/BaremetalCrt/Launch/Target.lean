/-
# BaremetalCrt.Launch.Target — what a launch computes.

`Target` is what a launch believes it has in front of it: memory, and a processor that runs or is halted.
`Target.launch` says without any calls what a launch is for: the reset memory with everything that is sent
stored in it, the program run on it until its header says done, and the buffers that the kernel may write
loaded from what it left.  On a target a launch is this function, for every host and every program
(`clEnqueueNDRangeKernel_onTarget`): where it is refused, where nothing answers, and where a buffer is not
there it stops at the same place.

A target is a discipline, too: `Target.Admits` says which requests a board serves when, and a launch makes no
other ones (`clEnqueueNDRangeKernel_admitted`).

So a driver is judged by whether it does what a target does. `InRange` is the condition under which all
requests of a launch are in the ranges that the drivers of this repository can express.
-/
import BaremetalCrt.Launch.CommArea
import BaremetalCrt.Launch.DataFlow
import BaremetalCrt.Launch.Polling
import BaremetalCrt.Launch.Simulation

namespace BaremetalCrt

open Lib

variable {δ : Type}

/-! ## The target -/

/-- A device without a driver: its memory, and whether the processor runs. -/
structure Target where
  mem : ByteMap
  running : Bool

/-- A target on which a reset does `reset` to the memory, and the program does `go` to it from a run to the
stop behind it. -/
def targetOps (reset go : ByteMap → ByteMap) : DevOps Target where
  reset := some fun d => (clSuccess, ⟨reset d.mem, false⟩)
  run := some fun d => (clSuccess, ⟨d.mem, true⟩)
  stop := some fun d => (clSuccess, ⟨go d.mem, false⟩)
  readMem := some fun d paddr _ => ((clSuccess, fun i => some (d.mem (paddr.toNat + i))), d)
  writeMem := some fun d paddr data => (clSuccess, ⟨d.mem.store paddr.toNat data, d.running⟩)

theorem targetOps_exact (reset go : ByteMap → ByteMap) : (targetOps reset go).Exact Target.mem where
  write f hf d paddr data _ := by
    obtain rfl := Option.some.inj hf
    rfl
  read f hf d paddr len _ := by
    obtain rfl := Option.some.inj hf
    exact ⟨fun _ _ => rfl, rfl⟩

/-- The requests that a board serves: a stop of a target that runs, and everything else of one that is
halted.  A read has room in its request for addresses below `2 ^ 56`, a write for all. -/
def Target.Admits : Guard Target
  | .stop, d => d.running = true
  | .reset, d | .run, d => d.running = false
  | .read paddr len, d => d.running = false ∧ paddr.toNat + len.toNat ≤ 2 ^ 56
  | .write paddr data, d => d.running = false ∧ paddr.toNat + data.length ≤ 2 ^ 64

/-! ## What a launch is for -/

/-- The header of the communication area, read from a memory. -/
def headerIn (comm : ProgramComm) (m : ByteMap) : CommAreaHeader :=
  CommAreaHeader.ofBytes (m.load comm.addr.toNat 16)

/-- The program runs from stop to stop until its header says done, or is broken; at most `n` times, and is
left running then. -/
def Target.polls (go : ByteMap → ByteMap) (comm : ProgramComm) : Nat → ByteMap → ClInt × Target
  | 0, m => (clInvalidDevice, ⟨m, true⟩)
  | n + 1, m =>
    if (headerIn comm (go m)).magic ≠ baremetalCrtCommMagic then (clInvalidDevice, ⟨go m, false⟩)
    else if (headerIn comm (go m)).done ≠ 0 then (clSuccess, ⟨go m, false⟩)
    else polls go comm n (go m)

/-- A read into a buffer that is not there: bytes are due, and the host has no storage for them. -/
def Get.Refused (g : Get) : Prop := g.need = true ∧ g.ptr = 0 ∧ g.len ≠ 0

instance (g : Get) : Decidable g.Refused := inferInstanceAs (Decidable (_ ∧ _))

/-- The code, the host memory and the target that a launch leaves. -/
def Target.launch (reset go : ByteMap → ByteMap) (h : Host δ) (kernel : Ptr) (m : ByteMap) :
    ClInt × ByteMap × Target :=
  let prg := kernGetProgram h kernel
  if prgIsValid h prg ≠ clSuccess then (prgIsValid h prg, h.bytes, ⟨reset m, false⟩)
  else
    let puts := launchPuts h prg kernel
    let sent := (reset m).storeAll ((puts.takeWhile fun p => ¬ p.Refused).map (Put.cell h))
    if ∃ p ∈ puts, p.Refused then (clInvalidValue, h.bytes, ⟨sent, false⟩)
    else match (commPlan h (h.prgs prg).comm (h.kerns kernel)).2 with
      | .error e => (e, h.bytes, ⟨sent, false⟩)
      | .ok _ =>
        let run := polls go (h.prgs prg).comm maxPolls sent
        if run.1 ≠ clSuccess then (run.1, h.bytes, run.2)
        else
          let gets := (launchSlots h kernel).map (Slot.get h)
          (if ∃ g ∈ gets, g.Refused then clInvalidValue else clSuccess,
            h.bytes.storeAll (cells run.2.mem (gets.takeWhile fun g => ¬ g.Refused)), run.2)

/-! ## The operations of a target -/

/-- The device of the launch is live, and it is a target. -/
structure OnTarget (reset go : ByteMap → ByteMap) (h : Host Target) (dev : Ptr) : Prop where
  valid : devIsValid h dev = clSuccess
  ops : (h.devs dev).ops = some (targetOps reset go)

variable {reset go : ByteMap → ByteMap} {h : Host Target} {dev : Ptr}

theorem OnTarget.congr {h' : Host Target} (hon : OnTarget reset go h dev) (hdevs : h'.devs = h.devs) :
    OnTarget reset go h' dev where
  valid := (devIsValid_congr hdevs dev).trans hon.valid
  ops := by rw [hdevs, hon.ops]

section Operations

variable (hon : OnTarget reset go h dev)
include hon

theorem OnTarget.exact : h.Exact dev Target.mem := by
  intro ops hops
  rw [hon.ops] at hops
  obtain rfl := Option.some.inj hops
  exact targetOps_exact reset go

theorem OnTarget.control {slot : DevOps Target → Option (Target → ClInt × Target)}
    {f : Target → ClInt × Target} (hslot : slot (targetOps reset go) = some f) (d : Target) :
    devControlRet slot h dev d = f d := by
  unfold devControlRet
  rw [if_neg (not_not.mpr hon.valid), hon.ops, Option.bind_some, hslot]

theorem OnTarget.reset_eq (d : Target) : devControlRet (·.reset) h dev d = (clSuccess, ⟨reset d.mem, false⟩) :=
  hon.control (f := fun d => (clSuccess, ⟨reset d.mem, false⟩)) rfl d

theorem OnTarget.run_eq (d : Target) : devControlRet (·.run) h dev d = (clSuccess, ⟨d.mem, true⟩) :=
  hon.control (f := fun d => (clSuccess, ⟨d.mem, true⟩)) rfl d

theorem OnTarget.stop_eq (d : Target) : devControlRet (·.stop) h dev d = (clSuccess, ⟨go d.mem, false⟩) :=
  hon.control (f := fun d => (clSuccess, ⟨go d.mem, false⟩)) rfl d

theorem OnTarget.write_eq (paddr : UInt64) (buf : CPtr) (len : UInt64) (d : Target) :
    devWriteMemRet h dev paddr buf len d =
      if buf.isNull = true ∧ len ≠ 0 then (clInvalidValue, d)
      else (clSuccess, ⟨d.mem.store paddr.toNat (h.read buf len.toNat), d.running⟩) := by
  unfold devWriteMemRet devMemRet
  rw [if_neg (not_not.mpr hon.valid), hon.ops]
  by_cases hnull : buf.isNull = true ∧ len ≠ 0
  · simp only [if_pos hnull]
    rfl
  · simp only [if_neg hnull]
    by_cases hlen : len = 0
    · have hnone : h.read buf len.toNat = [] := by
        rw [← List.length_eq_zero_iff, Host.length_read, hlen]
        rfl
      rw [hnone, ByteMap.store_nil]
      simp only [if_pos hlen]
      rfl
    · simp only [if_neg hlen]
      rfl

theorem OnTarget.read_eq (paddr len : UInt64) (bufNull : Bool) (d : Target) :
    (devReadMemRet h dev paddr bufNull len d).1.1 =
        (if bufNull = true ∧ len ≠ 0 then clInvalidValue else clSuccess) ∧
      (devReadMemRet h dev paddr bufNull len d).2 = d ∧
      ((bufNull = true ∧ len ≠ 0) → (devReadMemRet h dev paddr bufNull len d).1.2 = fun _ => none) ∧
      (¬ (bufNull = true ∧ len ≠ 0) → ∀ i, i < len.toNat →
        (devReadMemRet h dev paddr bufNull len d).1.2 i = some (d.mem (paddr.toNat + i))) := by
  unfold devReadMemRet devMemRet
  rw [if_neg (not_not.mpr hon.valid), hon.ops]
  by_cases hnull : bufNull = true ∧ len ≠ 0
  · simp only [if_pos hnull]
    exact ⟨rfl, rfl, fun _ => rfl, fun h => absurd hnull h⟩
  · simp only [if_neg hnull]
    by_cases hlen : len = 0
    · simp only [if_pos hlen]
      exact ⟨rfl, rfl, fun h => absurd h hnull, fun _ i hi => absurd hi (by rw [hlen]; exact Nat.not_lt_zero i)⟩
    · simp only [if_neg hlen]
      exact ⟨rfl, rfl, fun h => absurd h hnull, fun _ _ _ => rfl⟩

/-! ## Transfers -/

/-- Transfers go through up to the first that is refused. -/
theorem OnTarget.transfer (ps : List Put) : ∀ d : Target,
    (BaremetalCrt.transfer h dev ps d).ret =
        (if ∃ p ∈ ps, p.Refused then .error clInvalidValue else .ok ()) ∧
      (BaremetalCrt.transfer h dev ps d).dev =
        ⟨d.mem.storeAll ((ps.takeWhile fun p => ¬ p.Refused).map (Put.cell h)), d.running⟩ := by
  induction ps with
  | nil => exact fun d => ⟨rfl, rfl⟩
  | cons p ps ih =>
    intro d
    have hput := hon.write_eq p.paddr p.buf p.len d
    by_cases hr : p.Refused
    · rw [if_pos (show p.buf.isNull = true ∧ p.len ≠ 0 from hr)] at hput
      have hret : (putEvent h dev p d).ret = clInvalidValue := congrArg Prod.fst hput
      have hafter : (putEvent h dev p d).devAfter = d := congrArg Prod.snd hput
      rw [transfer_cons_error (hret ▸ by decide), hret, hafter, if_pos ⟨p, List.mem_cons_self .., hr⟩,
        List.takeWhile_cons_of_neg (by simpa using hr)]
      exact ⟨rfl, rfl⟩
    · rw [if_neg (show ¬ (p.buf.isNull = true ∧ p.len ≠ 0) from hr)] at hput
      have hret : (putEvent h dev p d).ret = clSuccess := congrArg Prod.fst hput
      have hafter : (putEvent h dev p d).devAfter = _ := congrArg Prod.snd hput
      rw [transfer_cons_ok hret, hafter, List.takeWhile_cons_of_pos (by simpa using hr)]
      obtain ⟨hrest, hdev⟩ := ih ⟨d.mem.store p.paddr.toNat (h.read p.buf p.len.toNat), d.running⟩
      refine ⟨hrest.trans ?_, hdev⟩
      simp only [List.exists_mem_cons_iff, hr, false_or]

/-- They are admitted when their ranges are in the address space. -/
theorem OnTarget.transfer_admitted {ps : List Put} (hin : ∀ p ∈ ps, p.paddr.toNat + p.len.toNat ≤ 2 ^ 64) :
    ∀ d : Target, d.running = false → Admitted Target.Admits (BaremetalCrt.transfer h dev ps d).events := by
  induction ps with
  | nil => exact fun d _ e he => absurd he List.not_mem_nil
  | cons p ps ih =>
    intro d hd
    have hput : (putEvent h dev p d).Admitted Target.Admits := by
      refine ⟨hd, ?_⟩
      show p.paddr.toNat + (h.read p.buf p.len.toNat).length ≤ 2 ^ 64
      rw [Host.length_read]
      exact hin p (List.mem_cons_self ..)
    have hafter : (putEvent h dev p d).devAfter.running = false := by
      show (devWriteMemRet h dev p.paddr p.buf p.len d).2.running = false
      rw [hon.write_eq]
      split <;> exact hd
    by_cases hret : (putEvent h dev p d).ret = clSuccess
    · rw [transfer_cons_ok hret]
      intro e he
      rcases List.mem_cons.mp he with rfl | he
      · exact hput
      · exact ih (fun q hq => hin q (List.mem_cons_of_mem p hq)) _ hafter e he
    · rw [transfer_cons_error hret]
      intro e he
      obtain rfl := List.mem_singleton.mp he
      exact hput

end Operations

/-! ## Polling -/

/-- More requests were made, and they are admitted if `In` holds. -/
def Admits (In : Prop) (s s' : Sys Target) : Prop :=
  In → Admitted Target.Admits s.trace → Admitted Target.Admits s'.trace

theorem Admits.push {In : Prop} {s : Sys Target} {e : Event Target}
    (he : In → e.Admitted Target.Admits) : Admits In s (s.push e) := by
  intro hin hs x hx
  rcases List.mem_append.mp hx with hx | hx
  · exact hs x hx
  · obtain rfl := List.mem_singleton.mp hx
    exact he hin

theorem Admits.trans {In : Prop} {a b c : Sys Target} (hab : Admits In a b) (hbc : Admits In b c) :
    Admits In a c := fun hin ha => hbc hin (hab hin ha)

/-- The record that a poll reads is the header in the memory. -/
theorem OnTarget.hCommAfter {s : Sys Target} (hon : OnTarget reset go s.host dev) (comm : ProgramComm)
    (hlen : s.hComm.length = 16) :
    BaremetalCrt.hCommAfter dev comm.addr s = s.dev.mem.load comm.addr.toNat 16 := by
  obtain ⟨-, -, -, hread⟩ := hon.read_eq comm.addr sizeofCommAreaHeader false s.dev
  have h16 : sizeofCommAreaHeader.toNat = 16 := rfl
  refine List.ext_getElem ?_ fun i hi hi' => ?_
  · rw [BaremetalCrt.hCommAfter, List.length_mapIdx, hlen, ByteMap.length_load]
  · rw [ByteMap.length_load] at hi'
    simp only [BaremetalCrt.hCommAfter, List.getElem_mapIdx]
    rw [hread (by simp) i (by omega), Option.getD_some]
    simp [ByteMap.load]

theorem OnTarget.poll {comm : ProgramComm} (n : Nat) : ∀ s : Sys Target, OnTarget reset go s.host dev →
    s.hComm.length = 16 → s.dev.running = true →
    Exec.wp (BaremetalCrt.poll dev comm n)
      (fun done s' => Target.polls go comm n s.dev.mem = (if done then clSuccess else clInvalidDevice, s'.dev) ∧
        s'.host = s.host ∧ (done = true → s'.dev.running = false) ∧
        Admits (comm.addr.toNat + 16 ≤ 2 ^ 56) s s')
      (fun e s' => Target.polls go comm n s.dev.mem = (e, s'.dev) ∧ e ≠ clSuccess ∧ s'.host = s.host ∧
        Admits (comm.addr.toNat + 16 ≤ 2 ^ 56) s s') s := by
  induction n with
  | zero =>
    rintro ⟨host, ⟨m, running⟩, hComm, trace⟩ _ _ rfl
    exact ⟨rfl, rfl, fun h => by simp at h, fun _ h => h⟩
  | succ n ih =>
    intro s hon hlen hrunning
    have hstop : devControlRet (·.stop) s.host dev s.dev = (clSuccess, ⟨go s.dev.mem, false⟩) := hon.stop_eq _
    have hhalted : (s.halted dev).dev = ⟨go s.dev.mem, false⟩ := congrArg Prod.snd hstop
    have hstopped : Admits (comm.addr.toNat + 16 ≤ 2 ^ 56) s (s.halted dev) := .push fun _ => hrunning
    obtain ⟨hret, hdev, -, -⟩ := (show OnTarget reset go (s.halted dev).host dev from hon).read_eq comm.addr
      sizeofCommAreaHeader false (s.halted dev).dev
    have hpolled : (s.polled dev comm).dev = ⟨go s.dev.mem, false⟩ := hdev.trans hhalted
    have hread : Admits (comm.addr.toNat + 16 ≤ 2 ^ 56) s (s.polled dev comm) := by
      refine hstopped.trans (.push (e := hCommEvent dev comm.addr (s.halted dev)) fun hin => ⟨?_, hin⟩)
      show (s.halted dev).dev.running = false
      rw [hhalted]
    have hcomm : (s.polled dev comm).hComm = (go s.dev.mem).load comm.addr.toNat 16 := by
      have h := (show OnTarget reset go (s.halted dev).host dev from hon).hCommAfter
        (s := s.halted dev) comm hlen
      rwa [hhalted] at h
    have hheader : s.header dev comm = headerIn comm (go s.dev.mem) := congrArg CommAreaHeader.ofBytes hcomm
    refine wp_poll_succ (fun hbad => absurd (congrArg Prod.fst hstop) hbad) (fun _ hbad => absurd ?_ hbad)
      (fun _ _ hmagic => ?_) (fun _ _ hmagic hdone => ?_) (fun _ _ hmagic hdone => ?_)
    · exact hret.trans (if_neg (by simp))
    · rw [hheader] at hmagic
      refine ⟨?_, by decide, rfl, hread⟩
      rw [Target.polls, if_pos hmagic, hpolled]
    · rw [hheader] at hmagic hdone
      refine ⟨?_, rfl, fun _ => by rw [hpolled], hread⟩
      rw [Target.polls, if_neg (not_not.mpr hmagic), if_pos hdone, hpolled]
      rfl
    · rw [hheader] at hmagic hdone
      have hrun : devControlRet (·.run) (s.polled dev comm).host dev (s.polled dev comm).dev =
          (clSuccess, ⟨go s.dev.mem, true⟩) := by
        rw [hpolled]
        exact (show OnTarget reset go (s.polled dev comm).host dev from hon).run_eq _
      rw [Exec.wp_bind, devRun, wp_devCall]
      refine ⟨fun _ => ?_, fun hbad => absurd (congrArg Prod.fst hrun) hbad⟩
      generalize hs' : (s.polled dev comm).push (controlEvent .run (·.run) dev (s.polled dev comm)) = s'
      have hdev' : s'.dev = ⟨go s.dev.mem, true⟩ := by
        rw [← hs']
        exact congrArg Prod.snd hrun
      have hhost' : s'.host = s.host := by
        rw [← hs']
        rfl
      have hrunned : Admits (comm.addr.toNat + 16 ≤ 2 ^ 56) s s' := by
        rw [← hs']
        refine hread.trans (.push fun _ => ?_)
        show (s.polled dev comm).dev.running = false
        rw [hpolled]
      have hlen' : s'.hComm.length = 16 := by
        rw [← hs']
        show (s.polled dev comm).hComm.length = 16
        rw [hcomm, ByteMap.length_load]
      have hstep : Target.polls go comm (n + 1) s.dev.mem = Target.polls go comm n s'.dev.mem := by
        rw [Target.polls, if_neg (not_not.mpr hmagic), if_neg (not_not.mpr hdone), hdev']
      rw [hstep]
      refine (ih s' (hhost' ▸ hon) hlen' (by rw [hdev'])).mono ?_ ?_
      · rintro done s'' ⟨hpolls, hhost, hhalt, hadm⟩
        exact ⟨hpolls, hhost.trans hhost', hhalt, hrunned.trans hadm⟩
      · rintro e s'' ⟨hpolls, hne, hhost, hadm⟩
        exact ⟨hpolls, hne, hhost.trans hhost', hrunned.trans hadm⟩

/-- The run phase ends as polling does. -/
theorem OnTarget.execute {comm : ProgramComm} {s : Sys Target} (hon : OnTarget reset go s.host dev)
    (hlen : s.hComm.length = 16) (hhalt : s.dev.running = false) :
    Exec.wp (BaremetalCrt.execute dev comm)
      (fun _ s' => Target.polls go comm maxPolls s.dev.mem = (clSuccess, s'.dev) ∧ s'.host = s.host ∧
        s'.dev.running = false ∧ Admits (comm.addr.toNat + 16 ≤ 2 ^ 56) s s')
      (fun e s' => Target.polls go comm maxPolls s.dev.mem = (e, s'.dev) ∧ e ≠ clSuccess ∧ s'.host = s.host ∧
        Admits (comm.addr.toNat + 16 ≤ 2 ^ 56) s s') s := by
  have hrun := hon.run_eq s.dev
  rw [BaremetalCrt.execute, Exec.wp_bind, devRun, wp_devCall]
  refine ⟨fun _ => ?_, fun hbad => absurd (congrArg Prod.fst hrun) hbad⟩
  generalize hs' : s.push (controlEvent .run (·.run) dev s) = s'
  have hdev' : s'.dev = ⟨s.dev.mem, true⟩ := by
    rw [← hs']
    exact congrArg Prod.snd hrun
  have hhost' : s'.host = s.host := by
    rw [← hs']
    rfl
  have hadm : Admits (comm.addr.toNat + 16 ≤ 2 ^ 56) s s' := hs' ▸ .push fun _ => hhalt
  have hlen' : s'.hComm.length = 16 := by
    rw [← hs']
    exact hlen
  rw [Exec.wp_bind]
  refine (OnTarget.poll maxPolls s' (hhost' ▸ hon) hlen' (by rw [hdev'])).mono ?_ ?_
  · rintro done s'' ⟨hpolls, hhost, hhalted, hadm'⟩
    rw [hdev'] at hpolls
    cases done with
    | false => exact ⟨hpolls, by decide, hhost.trans hhost', hadm.trans hadm'⟩
    | true => exact ⟨hpolls, hhost.trans hhost', hhalted rfl, hadm.trans hadm'⟩
  · rintro e s'' ⟨hpolls, hne, hhost, hadm'⟩
    rw [hdev'] at hpolls
    exact ⟨hpolls, hne, hhost.trans hhost', hadm.trans hadm'⟩

/-! ## Reading back -/

/-- The reads were made up to the first that is refused. -/
structure Fetched (gs : List Get) (s s' : Sys Target) : Prop where
  dev : s'.dev = s.dev
  bytes : s'.host.bytes = s.host.bytes.storeAll (cells s.dev.mem (gs.takeWhile fun g => ¬ g.Refused))
  admits : Admits (∀ g ∈ gs, g.paddr.toNat + g.len.toNat ≤ 2 ^ 56) s s'

theorem OnTarget.fetch (gs : List Get) : ∀ s : Sys Target, OnTarget reset go s.host dev →
    s.dev.running = false →
    Exec.wp (BaremetalCrt.fetch dev gs) (fun _ s' => (¬ ∃ g ∈ gs, g.Refused) ∧ Fetched gs s s')
      (fun e s' => e = clInvalidValue ∧ (∃ g ∈ gs, g.Refused) ∧ Fetched gs s s') s := by
  induction gs with
  | nil => exact fun s _ _ => ⟨by simp, rfl, rfl, fun _ h => h⟩
  | cons g gs ih =>
    intro s hon hhalt
    rw [fetch_cons, Exec.wp_bind, getOne]
    by_cases hneed : g.need = true
    · obtain ⟨hret, hdev, hnone, -⟩ := hon.read_eq g.paddr g.len (g.ptr == 0) s.dev
      have hnull : (g.ptr == 0) = true ∧ g.len ≠ 0 ↔ g.Refused := by simp [Get.Refused, hneed]
      have hadm : Admits (∀ x ∈ g :: gs, x.paddr.toNat + x.len.toNat ≤ 2 ^ 56) s
          (s.push (readEvent dev g.paddr g.ptr g.len s)) := by
        refine .push fun hin => ?_
        show Target.Admits (.read g.paddr (UInt64.ofNat (ByteMap.load _ g.ptr g.len.toNat).length)) s.dev
        rw [ByteMap.length_load, UInt64.ofNat_toNat]
        exact ⟨hhalt, hin g (List.mem_cons_self ..)⟩
      rw [if_pos hneed, devReadMem, wp_devCall]
      by_cases hr : g.Refused
      · rw [if_pos (hnull.mpr hr)] at hret
        have hret' : (readEvent dev g.paddr g.ptr g.len s).ret = clInvalidValue := hret
        rw [hret']
        refine ⟨fun h => absurd h (by decide), fun _ => ⟨rfl, ⟨g, List.mem_cons_self .., hr⟩, hdev, ?_, hadm⟩⟩
        rw [List.takeWhile_cons_of_neg (by simpa using hr)]
        show s.host.bytes.patch g.ptr g.len.toNat
          (devReadMemRet s.host dev g.paddr (g.ptr == 0) g.len s.dev).1.2 = _
        rw [hnone (hnull.mpr hr)]
        funext x
        simp [ByteMap.patch, cells]
      · rw [if_neg (mt hnull.mp hr)] at hret
        refine ⟨fun hok => ?_, fun hbad => absurd hret hbad⟩
        obtain ⟨hbytes, -⟩ := hon.exact.readEvent hok
        have hcells : cells s.dev.mem ((g :: gs).takeWhile fun g => ¬ g.Refused) =
            (g.ptr, s.dev.mem.load g.paddr.toNat g.len.toNat) ::
              cells s.dev.mem (gs.takeWhile fun g => ¬ g.Refused) := by
          rw [List.takeWhile_cons_of_pos (by simpa using hr), cells, List.filter_cons_of_pos hneed]
          rfl
        have hpush : (s.push (readEvent dev g.paddr g.ptr g.len s)).dev = s.dev := hdev
        have hrest (s' : Sys Target)
            (hf : Fetched gs (s.push (readEvent dev g.paddr g.ptr g.len s)) s') :
            Fetched (g :: gs) s s' := by
          refine ⟨hf.dev.trans hpush, ?_,
            hadm.trans fun hin => hf.admits fun x hx => hin x (List.mem_cons_of_mem g hx)⟩
          rw [hf.bytes, hpush, hcells, ByteMap.storeAll_cons, ← hbytes]
          rfl
        have hhalt' : (s.push (readEvent dev g.paddr g.ptr g.len s)).dev.running = false := by rw [hpush, hhalt]
        refine (ih (s.push (readEvent dev g.paddr g.ptr g.len s)) (hon.congr rfl) hhalt').mono ?_ ?_
        · rintro _ s' ⟨hno, hf⟩
          exact ⟨by simpa [hr] using hno, hrest s' hf⟩
        · rintro e s' ⟨he, hyes, hf⟩
          exact ⟨he, by simpa [hr] using hyes, hrest s' hf⟩
    · have hr : ¬ g.Refused := fun hr => hneed hr.1
      have hcells : cells s.dev.mem ((g :: gs).takeWhile fun g => ¬ g.Refused) =
          cells s.dev.mem (gs.takeWhile fun g => ¬ g.Refused) := by
        rw [List.takeWhile_cons_of_pos (by simpa using hr), cells, List.filter_cons_of_neg hneed]
        rfl
      have hrest (s' : Sys Target) (hf : Fetched gs s s') : Fetched (g :: gs) s s' :=
        ⟨hf.dev, hf.bytes.trans (by rw [hcells]),
          fun hin => hf.admits fun x hx => hin x (List.mem_cons_of_mem g hx)⟩
      rw [if_neg hneed, Exec.wp_pure]
      refine (ih s hon hhalt).mono ?_ ?_
      · rintro _ s' ⟨hno, hf⟩
        exact ⟨by simpa [hr] using hno, hrest s' hf⟩
      · rintro e s' ⟨he, hyes, hf⟩
        exact ⟨he, by simpa [hr] using hyes, hrest s' hf⟩

/-! ## Ranges -/

/-- What a launch sends lies in the address space, and what it may read back below `2 ^ 56`. -/
structure InRange (h : Host δ) (kernel : Ptr) : Prop where
  chunks : ∀ i, i < (h.prgs (kernGetProgram h kernel)).numChunks.toNat →
    ((h.prgs (kernGetProgram h kernel)).chunkAt i).paddr.toNat +
      ((h.prgs (kernGetProgram h kernel)).chunkAt i).size.toNat ≤ 2 ^ 64
  layout : layoutEnd h kernel ≤ 2 ^ 56

section Ranges

variable {h : Host δ} {kernel : Ptr}

/-- A slot ends in the layout, its payload included. -/
theorem argSlots_end : ∀ {args : List KernArg} {paddr : UInt64},
    extent 16 8 ((argSlots h args paddr).map fun s => s.size.toNat) paddr.toNat < 2 ^ 64 →
      ∀ s ∈ argSlots h args paddr, s.payload.toNat = s.addr.toNat + 16 ∧ s.addr.toNat + 16 + s.size.toNat ≤
        extent 16 8 ((argSlots h args paddr).map fun s => s.size.toNat) paddr.toNat
  | [], _, _, _, hs => by cases hs
  | arg :: args, paddr, hlt, s, hs => by
    rcases hsrc : enqueueSource h arg with e | ⟨buf, size, need⟩
    · simp [argSlots, hsrc] at hs
    · simp only [argSlots, hsrc, List.map_cons, extent] at hlt hs ⊢
      have hrest := le_extent 16 (show 0 < 8 by decide)
        ((argSlots h args (nextSlot paddr size)).map fun s => s.size.toNat)
        (alignUp 8 (paddr.toNat + 16 + size.toNat))
      have hnext : (nextSlot paddr size).toNat = alignUp 8 (paddr.toNat + 16 + size.toNat) :=
        nextSlot_toNat (by omega)
      have hup := le_alignUp (show 0 < 8 by decide) (paddr.toNat + 16 + size.toNat)
      rcases List.mem_cons.mp hs with rfl | hs
      · have hlt' : paddr.toNat + 16 < 2 ^ 64 := by omega
        exact ⟨payloadAddr_toNat_of_lt hlt', show paddr.toNat + 16 + size.toNat ≤ _ by omega⟩
      · rw [← hnext] at hlt ⊢
        exact argSlots_end hlt s hs

/-- The plan has the transfers of slots only. -/
theorem argPlan_mem_slot {comm : ProgramComm} : ∀ {args : List KernArg} {paddr : UInt64},
    ∀ p ∈ (argPlan h comm args paddr).1, ∃ s ∈ argSlots h args paddr, p ∈ s.puts
  | [], _, _, hp => by cases hp
  | arg :: args, paddr, p, hp => by
    rcases hsrc : enqueueSource h arg with e | src
    · rw [argPlan_error hsrc] at hp
      cases hp
    · by_cases hex : ExceedsComm comm paddr src.2.1
      · rw [argPlan_exceeds hsrc hex] at hp
        cases hp
      · rw [argPlan_fits hsrc hex] at hp
        simp only [argSlots, hsrc]
        rcases List.mem_append.mp hp with hp | hp
        · exact ⟨_, List.mem_cons_self .., hp⟩
        · obtain ⟨s, hs, hps⟩ := argPlan_mem_slot p hp
          exact ⟨s, List.mem_cons_of_mem _ hs, hps⟩

variable (hin : InRange h kernel)
include hin

theorem InRange.area : (h.prgs (kernGetProgram h kernel)).comm.addr.toNat + 16 ≤ 2 ^ 56 :=
  (le_extent 16 (show 0 < 8 by decide) _ _).trans hin.layout

theorem InRange.slots : ∀ s ∈ launchSlots h kernel, s.payload.toNat = s.addr.toNat + 16 ∧
    s.addr.toNat + 16 + s.size.toNat ≤ 2 ^ 56 := by
  intro s hs
  have hlayout := hin.layout
  have hlt : layoutEnd h kernel < 2 ^ 64 := by omega
  have hstart := argStart_toNat hlt
  rw [layoutEnd, ← hstart] at hlt hlayout
  obtain ⟨hpayload, hend⟩ := argSlots_end hlt s hs
  exact ⟨hpayload, hend.trans hlayout⟩

theorem InRange.puts : ∀ p ∈ launchPuts h (kernGetProgram h kernel) kernel,
    p.paddr.toNat + p.len.toNat ≤ 2 ^ 64 := by
  have harea := hin.area
  intro p hp
  rcases List.mem_append.mp hp with hp | hp
  · obtain ⟨j, -, hj, -, rfl⟩ := (mem_chunkPuts _ 0).mp hp
    have h := hin.chunks j (by omega)
    show _ + (UInt32.toUInt64 _).toNat ≤ _
    rwa [UInt32.toNat_toUInt64]
  · rcases List.mem_cons.mp hp with rfl | hp
    · show _ + sizeofCommAreaHeader.toNat ≤ _
      have h16 : sizeofCommAreaHeader.toNat = 16 := rfl
      simp only [areaPut]
      omega
    · obtain ⟨s, hs, hps⟩ := argPlan_mem_slot p hp
      obtain ⟨hpayload, hend⟩ := hin.slots s hs
      have h16 : sizeofCommArgHeader.toNat = 16 := rfl
      simp only [Slot.puts, slotPuts, List.mem_cons] at hps
      rcases hps with rfl | hps
      · simp only
        omega
      · split at hps
        · obtain rfl := List.mem_singleton.mp hps
          show s.payload.toNat + s.size.toNat ≤ _
          omega
        · cases hps

theorem InRange.gets : ∀ g ∈ (launchSlots h kernel).map (Slot.get h), g.paddr.toNat + g.len.toNat ≤ 2 ^ 56 := by
  intro g hg
  obtain ⟨s, hs, rfl⟩ := List.mem_map.mp hg
  obtain ⟨hpayload, hend⟩ := hin.slots s hs
  show s.payload.toNat + s.size.toNat ≤ _
  omega

end Ranges

/-! ## The launch -/

theorem wp_launch_onTarget (cmdq kernel : Ptr) {s : Sys Target}
    (hon : OnTarget reset go s.host (ctxGetDevice s.host (cmdqGetContext s.host cmdq)))
    (hhalt : s.dev.running = false) :
    Exec.wp (launch cmdq kernel)
      (fun _ s' => Target.launch reset go s.host kernel s.dev.mem = (clSuccess, s'.host.bytes, s'.dev) ∧
        Admits (InRange s.host kernel) s s')
      (fun e s' => Target.launch reset go s.host kernel s.dev.mem = (e, s'.host.bytes, s'.dev) ∧
        Admits (InRange s.host kernel) s s') s := by
  rw [launch_eq, Exec.wp_bind, Exec.wp_gets, Exec.wp_bind, Exec.wp_gets, Exec.wp_bind, devReset, wp_devCall]
  generalize ctxGetDevice s.host (cmdqGetContext s.host cmdq) = dev at hon ⊢
  have hreset := hon.reset_eq s.dev
  refine ⟨fun _ => ?_, fun hbad => absurd (congrArg Prod.fst hreset) hbad⟩
  generalize hs₁ : s.push (controlEvent .reset (·.reset) dev s) = s₁
  have hdev₁ : s₁.dev = ⟨reset s.dev.mem, false⟩ := by
    rw [← hs₁]
    exact congrArg Prod.snd hreset
  have hhost₁ : s₁.host = s.host := by
    rw [← hs₁]
    rfl
  have hadm₁ : Admits (InRange s.host kernel) s s₁ := hs₁ ▸ .push fun _ => hhalt
  rw [Exec.wp_bind]
  by_cases hv : prgIsValid s.host (kernGetProgram s.host kernel) = clSuccess
  swap
  · have hv₁ : prgIsValid s₁.host (kernGetProgram s.host kernel) ≠ clSuccess := by rwa [hhost₁]
    rw [Exec.wp_of_error (upload_invalid dev kernel hv₁), Target.launch, if_pos hv, hdev₁, hhost₁]
    exact ⟨rfl, hadm₁⟩
  have hkern : kernIsValid s.host kernel = clSuccess := kernIsValid_of_prgIsValid hv
  obtain ⟨hret, hsent⟩ := hon.transfer (launchPuts s.host (kernGetProgram s.host kernel) kernel) s₁.dev
  -- the transfers are admitted, and leave what is to be sent on the target
  have hafter (s₂ : Sys Target) (h : s₁.After (kernGetProgram s.host kernel)
      (transfer s₁.host dev (launchPuts s₁.host (kernGetProgram s.host kernel) kernel) s₁.dev) s₂) :
      s₂.dev = ⟨(reset s.dev.mem).storeAll (((launchPuts s.host (kernGetProgram s.host kernel) kernel).takeWhile
          fun p => ¬ p.Refused).map (Put.cell s.host)), false⟩ ∧
        s.host.UploadFrame (kernGetProgram s.host kernel) s₂.host ∧ Admits (InRange s.host kernel) s s₂ := by
    rw [hhost₁] at h
    refine ⟨h.dev.trans (hsent.trans (by rw [hdev₁])), hhost₁ ▸ h.host, hadm₁.trans fun hin hs => ?_⟩
    rw [h.trace]
    intro e he
    rcases List.mem_append.mp he with he | he
    · exact hs e he
    · exact hon.transfer_admitted hin.puts s₁.dev (by rw [hdev₁]) e he
  rw [Target.launch, if_neg (not_not.mpr hv)]
  refine wp_upload (hhost₁ ▸ hv) (hhost₁ ▸ hkern) (fun s₂ paddr h₂ hcomm hok hend => ?_)
    (fun e s₂ h₂ hfail => ?_)
  swap
  · obtain ⟨hdev₂, hframe, hadm₂⟩ := hafter s₂ h₂
    rw [hhost₁] at hfail
    refine ⟨?_, hadm₂⟩
    rcases hfail with hput | ⟨hput, hend⟩
    · have hyes : ∃ p ∈ launchPuts s.host (kernGetProgram s.host kernel) kernel, p.Refused := by
        by_contra hno
        rw [hret, if_neg hno] at hput
        cases hput
      rw [hret, if_pos hyes] at hput
      obtain rfl := Except.error.inj hput
      simp only [if_pos hyes, hdev₂, hframe.bytes]
    · have hno : ¬ ∃ p ∈ launchPuts s.host (kernGetProgram s.host kernel) kernel, p.Refused := by
        intro hyes
        rw [hret, if_pos hyes] at hput
        cases hput
      simp only [if_neg hno, hend, hdev₂, hframe.bytes]
  obtain ⟨hdev₂, hframe, hadm₂⟩ := hafter s₂ h₂
  rw [hhost₁] at hok hcomm hend
  have hno : ¬ ∃ p ∈ launchPuts s.host (kernGetProgram s.host kernel) kernel, p.Refused := by
    intro hyes
    rw [hret, if_pos hyes] at hok
    cases hok
  simp only [if_neg hno, hend]
  -- the run phase
  rw [hhost₁, Exec.wp_bind]
  have hlen : s₂.hComm.length = 16 := by rw [hcomm, CommAreaHeader.length_toBytes]
  refine ((hon.congr hframe.devs).execute hlen (by rw [hdev₂])).mono (fun _ s₃ h₃ => ?_) (fun e s₃ h₃ => ?_)
  swap
  · obtain ⟨hpolls, hne, hhost₃, hadm₃⟩ := h₃
    rw [hdev₂] at hpolls
    refine ⟨?_, hadm₂.trans fun hin => hadm₃ hin.area⟩
    simp only [hpolls, if_pos hne, hhost₃, hframe.bytes]
  obtain ⟨hpolls, hhost₃, hhalt₃, hadm₃⟩ := h₃
  rw [hdev₂] at hpolls
  simp only [hpolls, ne_eq, not_true_eq_false, if_false]
  -- done was seen: the walk back is a list of reads
  have hkern₃ : kernIsValid s₃.host kernel = clSuccess := by
    rw [kernIsValid, hhost₃, hframe.kerns]
    exact hkern
  have hplan : recvPlan s₃.host (s.host.prgs (kernGetProgram s.host kernel)).comm
      (argList (s₃.host.kerns kernel))
      ((s.host.prgs (kernGetProgram s.host kernel)).comm.addr + sizeofCommAreaHeader) =
        ((launchSlots s.host kernel).map (Slot.get s.host), .ok paddr) := by
    rw [hhost₃, hframe.kerns, recvPlan_congr hframe.mems]
    exact recvPlan_eq hend
  have hrecv := recvArguments_apply dev kernel (s.host.prgs (kernGetProgram s.host kernel)).comm s₃ hkern₃
  rw [hplan, fetchPlan, hhost₃, hframe.kerns] at hrecv
  rw [Exec.wp, hrecv, ← Exec.wp, Exec.wp_bind, Exec.wp_bind]
  have hbytes₃ : s₃.host.bytes = s.host.bytes := by rw [hhost₃, hframe.bytes]
  refine (OnTarget.fetch ((launchSlots s.host kernel).map (Slot.get s.host)) s₃
    ((hon.congr hframe.devs).congr (congrArg Host.devs hhost₃)) hhalt₃).mono ?_ ?_
  · rintro _ s₄ ⟨hgood, hf⟩
    refine ⟨?_, hadm₂.trans (.trans (fun hin => hadm₃ hin.area) fun hin => hf.admits hin.gets)⟩
    rw [if_neg hgood, hf.dev, hf.bytes, hbytes₃]
  · rintro e s₄ ⟨rfl, hbad, hf⟩
    refine ⟨?_, hadm₂.trans (.trans (fun hin => hadm₃ hin.area) fun hin => hf.admits hin.gets)⟩
    rw [if_pos hbad, hf.dev, hf.bytes, hbytes₃]

/-- A launch is the function. -/
theorem OnTarget.launch {cmdq : Ptr} (hon : OnTarget reset go h (ctxGetDevice h (cmdqGetContext h cmdq)))
    (kernel : Ptr) (m : ByteMap) :
    (retOf (BaremetalCrt.launch cmdq kernel ⟨h, ⟨m, false⟩, [], []⟩).1,
      (BaremetalCrt.launch cmdq kernel ⟨h, ⟨m, false⟩, [], []⟩).2.host.bytes,
      (BaremetalCrt.launch cmdq kernel ⟨h, ⟨m, false⟩, [], []⟩).2.dev) = Target.launch reset go h kernel m := by
  have hrun := wp_launch_onTarget cmdq kernel (s := ⟨h, ⟨m, false⟩, [], []⟩) hon rfl
  rcases hout : BaremetalCrt.launch cmdq kernel ⟨h, ⟨m, false⟩, [], []⟩ with ⟨e | _, s'⟩
  · exact (hrun.error hout).1.symm
  · exact (hrun.ok hout).1.symm

/-- The requests of a launch are admitted when its ranges are. -/
theorem clEnqueueNDRangeKernel_admitted {cmdq kernel : Ptr}
    (hon : OnTarget reset go h (ctxGetDevice h (cmdqGetContext h cmdq))) (hin : InRange h kernel)
    (m : ByteMap) : Admitted Target.Admits (clEnqueueNDRangeKernel cmdq kernel h ⟨m, false⟩).trace := by
  have hrun := wp_launch_onTarget cmdq kernel (s := ⟨h, ⟨m, false⟩, [], []⟩) hon rfl
  have hnone : Admitted Target.Admits ([] : List (Event Target)) := fun e he => absurd he List.not_mem_nil
  exact (Exec.wp_state.mp (hrun.mono (fun _ _ h => h.2) fun _ _ h => h.2)) hin hnone

/-- **What a launch computes.** On a target that is halted, whatever its reset and its program do to the
memory, a launch returns the code, and leaves the host memory and the target, that `Target.launch` says; and
it asks the target for nothing that is not served when its ranges are those of the target. -/
theorem clEnqueueNDRangeKernel_onTarget (reset go : ByteMap → ByteMap) (h : Host Target) (cmdq kernel : Ptr)
    (hon : OnTarget reset go h (ctxGetDevice h (cmdqGetContext h cmdq))) (m : ByteMap) :
    let out := clEnqueueNDRangeKernel cmdq kernel h ⟨m, false⟩
    (out.ret, out.host.bytes, out.dev) = Target.launch reset go h kernel m ∧
      (InRange h kernel → Admitted Target.Admits out.trace) :=
  ⟨hon.launch kernel m, fun hin => clEnqueueNDRangeKernel_admitted hon hin m⟩

/-- A program that sets the `done` field of its area, and does nothing else. -/
def doneAt (comm : ProgramComm) (m : ByteMap) : ByteMap := m.store (comm.addr.toNat + 8) [1, 0, 0, 0]

/-- A host with a kernel that has a value and a buffer, and such a program behind it. -/
def targetHost : Host Target :=
  .single (fun x => UInt8.ofNat x) (targetOps id (doneAt ⟨0x80001000, 0x1000⟩))
    (textProgram ⟨0x80001000, 0x1000⟩) mixedKernel fun _ => ⟨openclIcdMagic, clMemReadWrite, 4, 200⟩

/-- It is done at the first stop, and the buffer is read back. -/
theorem targetHost_computes :
    let out := clEnqueueNDRangeKernel 1 1 targetHost ⟨fun _ => 0, false⟩
    let ideal := Target.launch id (doneAt ⟨0x80001000, 0x1000⟩) targetHost 1 fun _ => 0
    (out.ret, out.host.bytes, out.dev) = ideal ∧ Admitted Target.Admits out.trace ∧ ideal.1 = clSuccess := by
  obtain ⟨hsame, hadmits⟩ := clEnqueueNDRangeKernel_onTarget id (doneAt ⟨0x80001000, 0x1000⟩) targetHost 1 1
    ⟨rfl, rfl⟩ fun _ => 0
  exact ⟨hsame, hadmits ⟨by decide, by decide⟩, by decide +kernel⟩

/-- A launch whose reset fails has asked for nothing else. -/
theorem trace_of_reset_failed {h : Host δ} {cmdq : Ptr} {d : δ}
    (hbad : (devControlRet (·.reset) h (ctxGetDevice h (cmdqGetContext h cmdq)) d).1 ≠ clSuccess)
    (kernel : Ptr) : (clEnqueueNDRangeKernel cmdq kernel h d).trace =
      [controlEvent .reset (·.reset) (ctxGetDevice h (cmdqGetContext h cmdq)) ⟨h, d, [], []⟩] := by
  have hrun : Exec.wp (launch cmdq kernel) (fun _ _ => False)
      (fun _ s' => s'.trace = [controlEvent .reset (·.reset) (ctxGetDevice h (cmdqGetContext h cmdq))
        ⟨h, d, [], []⟩]) ⟨h, d, [], []⟩ := by
    rw [launch, Exec.wp_bind, Exec.wp_gets, Exec.wp_bind, Exec.wp_gets, Exec.wp_bind, devReset, wp_devCall]
    exact ⟨fun hok => absurd hok hbad, fun _ => rfl⟩
  exact (Exec.wp_state (P := fun s' => s'.trace = _)).mp (hrun.mono (fun _ _ h => h.elim) fun _ _ h => h)

/-- Where every device with a driver is a target, the requests are admitted whatever the queue is. -/
theorem clEnqueueNDRangeKernel_admitted_of_ops {cmdq kernel : Ptr}
    (hops : ∀ dev ops, (h.devs dev).ops = some ops → ops = targetOps reset go) (hin : InRange h kernel)
    (m : ByteMap) : Admitted Target.Admits (clEnqueueNDRangeKernel cmdq kernel h ⟨m, false⟩).trace := by
  by_cases hon : OnTarget reset go h (ctxGetDevice h (cmdqGetContext h cmdq))
  · exact clEnqueueNDRangeKernel_admitted hon hin m
  · -- the device is not valid, or has no driver
    have hbad : (devControlRet (·.reset) h (ctxGetDevice h (cmdqGetContext h cmdq)) ⟨m, false⟩).1 ≠
        clSuccess := by
      unfold devControlRet
      split
      · assumption
      next hvalid =>
        rcases hdev : (h.devs (ctxGetDevice h (cmdqGetContext h cmdq))).ops with - | ops
        · exact (by decide : clInvalidDevice ≠ clSuccess)
        · exact absurd ⟨not_not.mp hvalid, hdev.trans (congrArg some (hops _ _ hdev))⟩ hon
    rw [trace_of_reset_failed hbad kernel]
    intro e he
    obtain rfl := List.mem_singleton.mp he
    exact rfl

/-! ## Which device it is -/

section Over

variable {γ : Type} (h : Host δ) (devs : Ptr → ClDevice γ)

theorem argSlots_over (args : List KernArg) : ∀ paddr,
    argSlots (h.over devs) args paddr = argSlots h args paddr := by
  induction args with
  | nil => exact fun _ => rfl
  | cons arg args ih =>
    intro paddr
    simp only [argSlots, ih]
    rfl

theorem argPlan_over (comm : ProgramComm) (args : List KernArg) : ∀ paddr,
    argPlan (h.over devs) comm args paddr = argPlan h comm args paddr := by
  induction args with
  | nil => exact fun _ => rfl
  | cons arg args ih =>
    intro paddr
    simp only [argPlan, ih]
    rfl

theorem launchSlots_over (kernel : Ptr) : launchSlots (h.over devs) kernel = launchSlots h kernel :=
  argSlots_over h devs _ _

theorem launchPuts_over (prg kernel : Ptr) : launchPuts (h.over devs) prg kernel = launchPuts h prg kernel := by
  unfold launchPuts commPlan
  rw [argPlan_over]
  rfl

/-- What a launch is for does not depend on the devices. -/
theorem Target.launch_over (reset go : ByteMap → ByteMap) (kernel : Ptr) (m : ByteMap) :
    Target.launch reset go (h.over devs) kernel m = Target.launch reset go h kernel m := by
  have hplan (prg : Ptr) : commPlan (h.over devs) ((h.over devs).prgs prg).comm ((h.over devs).kerns kernel) =
      commPlan h (h.prgs prg).comm (h.kerns kernel) := by
    unfold commPlan
    rw [argPlan_over]
    rfl
  simp only [Target.launch, launchPuts_over, launchSlots_over, hplan]
  rfl

variable {h} in
theorem InRange.over {kernel : Ptr} (hin : InRange h kernel) : InRange (h.over devs) kernel := by
  refine ⟨hin.chunks, ?_⟩
  rw [layoutEnd, launchSlots_over]
  exact hin.layout

end Over

end BaremetalCrt
