/-
# BaremetalCrt.Launch.DataFlow — the bytes of the arguments, there and back.

On a device that moves bytes exactly, with an argument layout whose sums do not wrap, the transfers
of a launch go to disjoint ranges in increasing order; so what was sent is what the device holds at
the first run, and what is read back is what it holds when done is seen.  Between the two the kernel
may do to its memory what it likes.

`ArgumentFlow` gathers what is promised of one launch: what the device has in each slot when it first runs,
what the host has in each buffer that is read back when the launch has succeeded, and that the storage of
every other argument is as it was. It is stated of any driver that moves bytes exactly
(`Runtime.DeviceMemory`), and ties the events of the trace to the memories before and behind them.
-/
import BaremetalCrt.Launch.Transfer
import BaremetalCrt.Launch.Receive
import BaremetalCrt.Runtime.DeviceMemory
import Mathlib.Data.List.Pairwise

namespace BaremetalCrt

open Lib

variable {δ : Type} {h : Host δ} {dev : Ptr} {mem : δ → ByteMap}

/-! ## The layout without wrapping -/

/-- The slots of the kernel name and the arguments. -/
def launchSlots (h : Host δ) (kernel : Ptr) : List Slot :=
  argSlots h (argList (h.kerns kernel)) (argStart (h.prgs (kernGetProgram h kernel)).comm)

/-- The end of the last slot, in unbounded integers: a header of sixteen bytes and a payload each, at
multiples of eight, behind the area header. -/
def layoutEnd (h : Host δ) (kernel : Ptr) : Nat :=
  extent 16 8 ((launchSlots h kernel).map fun s => s.size.toNat)
    ((h.prgs (kernGetProgram h kernel)).comm.addr.toNat + 16)

theorem alignOf_toNat {x : UInt64} (hx : alignUp 8 x.toNat < 2 ^ 64) :
    (alignOf x 8).toNat = alignUp 8 x.toNat := by
  have hmod : x % 8 = 0 ↔ x.toNat % 8 = 0 := by
    rw [← UInt64.toNat_inj, UInt64.toNat_mod]
    rfl
  unfold alignOf alignUp at *
  by_cases h0 : x.toNat % 8 = 0
  · rw [if_pos h0, if_pos (hmod.mpr h0)]
  · rw [if_neg h0] at hx
    rw [if_neg h0, if_neg (mt hmod.mp h0), UInt64.toNat_mul, UInt64.toNat_add, UInt64.toNat_div]
    have h8 : (8 : UInt64).toNat = 8 := rfl
    have h1 : (1 : UInt64).toNat = 1 := rfl
    rw [h8, h1]
    omega

theorem payloadAddr_toNat_of_lt {paddr : UInt64} (hlt : paddr.toNat + 16 < 2 ^ 64) :
    (payloadAddr paddr).toNat = paddr.toNat + 16 := by
  rw [payloadAddr, UInt64.toNat_add]
  exact Nat.mod_eq_of_lt hlt

/-- The running address of the source is the one in unbounded integers, while that does not wrap. -/
theorem nextSlot_toNat {paddr size : UInt64}
    (hlt : alignUp 8 (paddr.toNat + 16 + size.toNat) < 2 ^ 64) :
    (nextSlot paddr size).toNat = alignUp 8 (paddr.toNat + 16 + size.toNat) := by
  have hle := le_alignUp (show 0 < 8 by decide) (paddr.toNat + 16 + size.toNat)
  have hpay : (payloadAddr paddr).toNat = paddr.toNat + 16 := payloadAddr_toNat_of_lt (by omega)
  have hsum : (payloadAddr paddr + size).toNat = paddr.toNat + 16 + size.toNat := by
    rw [UInt64.toNat_add, hpay]
    exact Nat.mod_eq_of_lt (by omega)
  rw [nextSlot, alignOf_toNat (by rwa [hsum]), hsum]

/-- The range of `p` ends before that of `q` starts. -/
def Put.Before (p q : Put) : Prop := p.paddr.toNat + p.len.toNat ≤ q.paddr.toNat

/-- The transfers of the slots go to increasing ranges. -/
theorem slots_sorted : ∀ {args : List KernArg} {paddr : UInt64},
    extent 16 8 ((argSlots h args paddr).map fun s => s.size.toNat) paddr.toNat < 2 ^ 64 →
      ((argSlots h args paddr).flatMap Slot.puts).Pairwise Put.Before ∧
        ∀ p ∈ (argSlots h args paddr).flatMap Slot.puts, paddr.toNat ≤ p.paddr.toNat
  | [], _, _ => ⟨List.Pairwise.nil, by simp [argSlots]⟩
  | arg :: args, paddr, hlt => by
    rcases hsrc : enqueueSource h arg with e | ⟨buf, size, need⟩
    · simp [argSlots, hsrc]
    · simp only [argSlots, hsrc, List.map_cons, extent, List.flatMap_cons] at hlt ⊢
      have hrest := le_extent 16 (show 0 < 8 by decide)
        ((argSlots h args (nextSlot paddr size)).map fun s => s.size.toNat)
        (alignUp 8 (paddr.toNat + 16 + size.toNat))
      have hnext : (nextSlot paddr size).toNat = alignUp 8 (paddr.toNat + 16 + size.toNat) :=
        nextSlot_toNat (by omega)
      have hup := le_alignUp (show 0 < 8 by decide) (paddr.toNat + 16 + size.toNat)
      have hpay : (payloadAddr paddr).toNat = paddr.toNat + 16 := payloadAddr_toNat_of_lt (by omega)
      rw [← hnext] at hlt
      obtain ⟨hsorted, habove⟩ := slots_sorted hlt
      -- the two transfers of this slot, before everything behind it
      have hslot : (Slot.puts ⟨arg, paddr, buf, size, need⟩).Pairwise Put.Before ∧
          ∀ p ∈ Slot.puts ⟨arg, paddr, buf, size, need⟩, paddr.toNat ≤ p.paddr.toNat ∧
            p.paddr.toNat + p.len.toNat ≤ paddr.toNat + 16 + size.toNat := by
        have h16 : sizeofCommArgHeader.toNat = 16 := rfl
        cases need with
        | false => simp [Slot.puts, slotPuts, h16]
        | true => simp [Slot.puts, slotPuts, h16, hpay, Put.Before]
      refine ⟨List.pairwise_append.mpr ⟨hslot.1, hsorted, fun p hp q hq => ?_⟩, fun p hp => ?_⟩
      · have hpe := (hslot.2 p hp).2
        have hqs := habove q hq
        show p.paddr.toNat + p.len.toNat ≤ q.paddr.toNat
        omega
      · rcases List.mem_append.mp hp with hp | hp
        · exact (hslot.2 p hp).1
        · have := habove p hp
          omega

/-! ## The device after the upload -/

/-- A transfer as a store to the device's memory: the bytes that it carries, at its address. -/
def Put.cell (h : Host δ) (p : Put) : Nat × List UInt8 := (p.paddr.toNat, p.data h)

/-- Transfers that went through are stores to the device's memory. -/
theorem transfer_mem (he : h.Exact dev mem) {ps : List Put} {d : δ}
    (hok : (transfer h dev ps d).ret = .ok ()) :
    mem (transfer h dev ps d).dev = (mem d).storeAll (ps.map (Put.cell h)) := by
  induction ps generalizing d with
  | nil => rfl
  | cons p ps ih =>
    by_cases hret : (putEvent h dev p d).ret = clSuccess
    · rw [transfer_cons_ok hret] at hok ⊢
      rw [ih hok, List.map_cons, ByteMap.storeAll_cons]
      rw [show mem (putEvent h dev p d).devAfter = _ from he.write hret]
      rfl
    · rw [transfer_cons_error hret] at hok
      cases hok

/-- Every slot that is sent is on the device: its payload is what is on the host. -/
def ArgsOnDevice (h : Host δ) (kernel : Ptr) (m : ByteMap) : Prop :=
  ∀ s ∈ launchSlots h kernel, s.sent = true →
    m.load s.payload.toNat s.size.toNat = h.read s.buf s.size.toNat

theorem Put.Before.disjoint {p q : Put} (hpq : p.Before q) :
    Disjoint (span (p.cell h).1 (p.cell h).2.length) (span (q.cell h).1 (q.cell h).2.length) := by
  have hlen : (p.cell h).2.length = p.len.toNat := Host.length_read ..
  rw [hlen]
  exact span_disjoint_of_le hpq

theorem argStart_toNat {kernel : Ptr} (hsums : layoutEnd h kernel < 2 ^ 64) :
    (argStart (h.prgs (kernGetProgram h kernel)).comm).toNat =
      (h.prgs (kernGetProgram h kernel)).comm.addr.toNat + 16 := by
  have hle := le_extent 16 (show 0 < 8 by decide)
    ((launchSlots h kernel).map fun s => s.size.toNat)
    ((h.prgs (kernGetProgram h kernel)).comm.addr.toNat + 16)
  have h16 : (alignOf sizeofCommAreaHeader 8).toNat = 16 := by decide
  rw [argStart, UInt64.toNat_add, h16]
  exact Nat.mod_eq_of_lt (lt_of_le_of_lt hle hsums)

/-- After an upload that went through, everything that was sent to the communication area is there. -/
theorem commPlan_holds {kernel : Ptr} {d : δ} {paddr : UInt64} (he : h.Exact dev mem)
    (hsums : layoutEnd h kernel < 2 ^ 64)
    (hok : (transfer h dev (launchPuts h (kernGetProgram h kernel) kernel) d).ret = .ok ())
    (hend : (commPlan h (h.prgs (kernGetProgram h kernel)).comm (h.kerns kernel)).2 = .ok paddr) :
    ∀ p ∈ (commPlan h (h.prgs (kernGetProgram h kernel)).comm (h.kerns kernel)).1,
      (mem (transfer h dev (launchPuts h (kernGetProgram h kernel) kernel) d).dev).Holds (p.cell h) := by
  intro p hp
  -- the header comes first, then the slots, in increasing order
  have hstart := argStart_toNat hsums
  rw [layoutEnd, ← hstart] at hsums
  obtain ⟨hsorted, habove⟩ := slots_sorted hsums
  have hputs : (commPlan h (h.prgs (kernGetProgram h kernel)).comm (h.kerns kernel)).1 =
      areaPut (h.prgs (kernGetProgram h kernel)).comm (h.kerns kernel) ::
        (launchSlots h kernel).flatMap Slot.puts := by
    rw [commPlan, (argPlan_slots hend).1]
    rfl
  have hall : ((commPlan h (h.prgs (kernGetProgram h kernel)).comm (h.kerns kernel)).1).Pairwise
      Put.Before := by
    rw [hputs]
    refine List.pairwise_cons.mpr ⟨fun q hq => ?_, hsorted⟩
    have hq' := habove q hq
    rw [hstart] at hq'
    exact hq'
  have hdisj : (((commPlan h (h.prgs (kernGetProgram h kernel)).comm (h.kerns kernel)).1).map
      (Put.cell h)).Pairwise fun v w => Disjoint (span v.1 v.2.length) (span w.1 w.2.length) :=
    List.pairwise_map.mpr (hall.imp Put.Before.disjoint)
  rw [transfer_mem he hok, launchPuts, List.map_append, ByteMap.storeAll_append]
  exact ByteMap.load_storeAll _ hdisj _ (List.mem_map_of_mem hp)

/-- So every argument that is sent is on the device. -/
theorem argsOnDevice_of_transfer {kernel : Ptr} {d : δ} {paddr : UInt64} (he : h.Exact dev mem)
    (hsums : layoutEnd h kernel < 2 ^ 64)
    (hok : (transfer h dev (launchPuts h (kernGetProgram h kernel) kernel) d).ret = .ok ())
    (hend : (commPlan h (h.prgs (kernGetProgram h kernel)).comm (h.kerns kernel)).2 = .ok paddr) :
    ArgsOnDevice h kernel
      (mem (transfer h dev (launchPuts h (kernGetProgram h kernel) kernel) d).dev) := by
  intro s hs hsent
  have hput : (⟨.argPayload, s.payload, s.buf, s.size⟩ : Put) ∈
      (commPlan h (h.prgs (kernGetProgram h kernel)).comm (h.kerns kernel)).1 := by
    rw [commPlan, (argPlan_slots hend).1]
    exact List.mem_cons_of_mem _
      (List.mem_flatMap.mpr ⟨s, hs, by simp [Slot.puts, slotPuts, hsent, Slot.payload]⟩)
  have hload := commPlan_holds he hsums hok hend _ hput
  have hlen : (Put.cell h ⟨.argPayload, s.payload, s.buf, s.size⟩).2.length = s.size.toNat :=
    Host.length_read ..
  rw [ByteMap.Holds, hlen] at hload
  exact hload

/-! ## The traces of the two directions -/

/-- The event is a read of the area header, as every poll makes one. -/
def Event.isHeader (e : Event δ) : Bool :=
  match e.op with
  | .readMem .areaHeader _ _ => true
  | _ => false

/-- The addresses from which arguments were read back, in order. -/
def payloadReads (tr : List (Event δ)) : List UInt64 :=
  tr.filterMap fun e => match e.op with
    | .readMem .argPayload paddr _ => some paddr
    | _ => none

theorem payloadReads_append (tr es : List (Event δ)) :
    payloadReads (tr ++ es) = payloadReads tr ++ payloadReads es := List.filterMap_append ..

/-- Neither a read: what the phases up to the first run consist of. -/
theorem payloadReads_write {tr : List (Event δ)} (htr : ∀ e ∈ tr, e.op.isWrite = true) :
    payloadReads tr = [] := by
  refine List.filterMap_eq_nil_iff.mpr fun e he => ?_
  have hw := htr e he
  cases hop : e.op <;> simp [hop, DevOp.isWrite] at hw ⊢

/-! ## Reading back -/

/-- The reads as stores to host memory, when the device memory is `m`. -/
def cells (m : ByteMap) (gs : List Get) : List (Nat × List UInt8) :=
  (gs.filter Get.need).map fun g => (g.ptr, m.load g.paddr.toNat g.len.toNat)

/-- Reads that went through are stores of the device's bytes; reads that were cut short show a failed
event. -/
theorem wp_fetch (gs : List Get) : ∀ s : Sys δ, s.host.Exact dev mem →
    Exec.wp (fetch dev gs)
      (fun _ s' => ∃ es, s'.trace = s.trace ++ es ∧
        (∀ e ∈ es, e.op.isMem = true ∧ e.isHeader = false) ∧
        payloadReads es = (gs.filter Get.need).map Get.paddr ∧
        s'.host.bytes = s.host.bytes.storeAll (cells (mem s.dev) gs))
      (fun e s' => e ≠ clSuccess ∧ ∃ es, s'.trace = s.trace ++ es ∧
        (∀ e ∈ es, e.op.isMem = true ∧ e.isHeader = false) ∧
        payloadReads es <+: (gs.filter Get.need).map Get.paddr ∧ ¬ AllSucceed es) s := by
  induction gs with
  | nil =>
    intro s _
    exact ⟨[], (List.append_nil _).symm, by simp, rfl, rfl⟩
  | cons g gs ih =>
    intro s he
    rw [fetch_cons, Exec.wp_bind, getOne]
    by_cases hneed : g.need = true
    · rw [if_pos hneed, devReadMem, wp_devCall, List.filter_cons_of_pos hneed]
      have hev : ∀ e ∈ [readEvent dev g.paddr g.ptr g.len s],
          e.op.isMem = true ∧ e.isHeader = false := by
        intro e hmem
        obtain rfl := List.mem_singleton.mp hmem
        exact ⟨rfl, rfl⟩
      refine ⟨fun hret => ?_, fun hret => ?_⟩
      · obtain ⟨hbytes, hmem⟩ := he.readEvent hret
        refine (ih (s.push (readEvent dev g.paddr g.ptr g.len s)) he).mono ?_ ?_
        · rintro _ s' ⟨es, htr, hes, hreads, hhost⟩
          refine ⟨readEvent dev g.paddr g.ptr g.len s :: es, ?_, fun e hmem => ?_, ?_, ?_⟩
          · rw [htr]
            exact List.append_assoc ..
          · rcases List.mem_cons.mp hmem with rfl | hmem
            · exact ⟨rfl, rfl⟩
            · exact hes e hmem
          · rw [List.map_cons, ← hreads]
            rfl
          · rw [hhost]
            show (BaremetalCrt.readEvent dev g.paddr g.ptr g.len s).hostAfter.storeAll
              (cells (mem (BaremetalCrt.readEvent dev g.paddr g.ptr g.len s).devAfter) gs) = _
            rw [hbytes, hmem, cells, cells, List.filter_cons_of_pos hneed, List.map_cons,
              ByteMap.storeAll_cons]
        · rintro e s' ⟨hne, es, htr, hes, hreads, hfail⟩
          refine ⟨hne, readEvent dev g.paddr g.ptr g.len s :: es, ?_, fun e hmem => ?_, ?_, fun hall => ?_⟩
          · rw [htr]
            exact List.append_assoc ..
          · rcases List.mem_cons.mp hmem with rfl | hmem
            · exact ⟨rfl, rfl⟩
            · exact hes e hmem
          · exact List.cons_prefix_cons.mpr ⟨rfl, hreads⟩
          · exact hfail fun x hx => hall x (List.mem_cons_of_mem _ hx)
      · exact ⟨hret, [readEvent dev g.paddr g.ptr g.len s], rfl, hev,
          List.cons_prefix_cons.mpr ⟨rfl, List.nil_prefix⟩,
          fun hall => hret (hall _ (List.mem_singleton.mpr rfl))⟩
    · rw [if_neg hneed, Exec.wp_pure, List.filter_cons_of_neg hneed]
      have hcells : cells (mem s.dev) (g :: gs) = cells (mem s.dev) gs := by
        rw [cells, cells, List.filter_cons_of_neg hneed]
      rw [hcells]
      exact ih s he

/-! ## Polling -/

/-- The first run found the arguments on the device. -/
def RanWithArgs (h : Host δ) (kernel : Ptr) (mem : δ → ByteMap) (tr : List (Event δ)) : Prop :=
  ∃ r, earliest Event.isRun tr = some r ∧ ArgsOnDevice h kernel (mem r.devBefore)

theorem RanWithArgs.append {kernel : Ptr} {tr : List (Event δ)} (hr : RanWithArgs h kernel mem tr)
    (es : List (Event δ)) : RanWithArgs h kernel mem (tr ++ es) := by
  obtain ⟨r, hfirst, hargs⟩ := hr
  refine ⟨r, ?_, hargs⟩
  rw [earliest_append, hfirst, Option.some_or]

/-- The device has been run, and no header was seen done yet. -/
structure Waiting (h : Host δ) (kernel : Ptr) (mem : δ → ByteMap) (comm : ProgramComm)
    (tr : List (Event δ)) : Prop where
  ran : RanWithArgs h kernel mem tr
  reads : payloadReads tr = []
  notDone : ∀ e ∈ tr, ¬ DoneHeader comm e

theorem Waiting.snoc {kernel : Ptr} {comm : ProgramComm} {tr : List (Event δ)} {e : Event δ}
    (hw : Waiting h kernel mem comm tr) (hread : payloadReads [e] = [])
    (hdone : ¬ DoneHeader comm e) : Waiting h kernel mem comm (tr ++ [e]) where
  ran := hw.ran.append [e]
  reads := by rw [payloadReads_append, hw.reads, hread]; rfl
  notDone := by
    intro x hx
    rcases List.mem_append.mp hx with hx | hx
    · exact hw.notDone x hx
    · obtain rfl := List.mem_singleton.mp hx
      exact hdone

/-- The last header was seen done, and the device is as that read left it. -/
structure SeenDone (h : Host δ) (kernel : Ptr) (mem : δ → ByteMap) (comm : ProgramComm) (s : Sys δ) :
    Prop where
  ran : RanWithArgs h kernel mem s.trace
  reads : payloadReads s.trace = []
  done : ∃ e, latest Event.isHeader s.trace = some e ∧ DoneHeader comm e ∧ e.devAfter = s.dev

theorem wp_poll_seen {kernel : Ptr} (dev : Ptr) (comm : ProgramComm) (n : Nat) :
    ∀ s : Sys δ, Waiting h kernel mem comm s.trace →
      Exec.wp (poll dev comm n)
        (fun done s' => s'.host = s.host ∧
          (done = true → SeenDone h kernel mem comm s') ∧
          (done = false → Waiting h kernel mem comm s'.trace))
        (fun e s' => e ≠ clSuccess ∧ Waiting h kernel mem comm s'.trace) s := by
  induction n with
  | zero => exact fun s hw => ⟨rfl, fun hd => absurd hd Bool.false_ne_true, fun _ => hw⟩
  | succ n ih =>
    intro s hw
    have hcontrol {e : Event δ} (hop : e.op.isControl = true) :
        payloadReads [e] = [] ∧ ¬ DoneHeader comm e := by
      refine ⟨?_, fun ⟨_, hread, _⟩ => by rw [hread] at hop; cases hop⟩
      cases hk : e.op <;> simp [payloadReads, hk, DevOp.isControl] at hop ⊢
    have hstop : Waiting h kernel mem comm (s.halted dev).trace := hw.snoc (hcontrol rfl).1 (hcontrol rfl).2
    have hread (hnot : ¬ DoneHeader comm (hCommEvent dev comm.addr (s.halted dev))) :
        Waiting h kernel mem comm (s.polled dev comm).trace := hstop.snoc rfl hnot
    refine wp_poll_succ (fun hret => ⟨hret, hstop⟩)
      (fun _ hret => ⟨hret, hread fun ⟨_, _, hok, _⟩ => hret hok⟩)
      (fun _ _ hmagic => ⟨by decide, hread ?_⟩) (fun _ hret hmagic hdone => ?_) (fun _ _ _ hzero => ?_)
    · rintro ⟨data, hop, _, hgood, _⟩
      cases hop
      exact hmagic hgood
    · refine ⟨rfl, fun _ => ⟨hstop.ran.append _, ?_, ?_⟩, fun hd => absurd hd.symm Bool.false_ne_true⟩
      · show payloadReads (_ ++ [_]) = []
        rw [payloadReads_append, hstop.reads]
        rfl
      · refine ⟨hCommEvent dev comm.addr (s.halted dev), ?_, ⟨_, rfl, hret, hmagic, hdone⟩, rfl⟩
        show latest _ (_ ++ [_]) = _
        rw [latest_snoc, if_pos (show (hCommEvent dev comm.addr (s.halted dev)).isHeader = true from rfl)]
    · -- not done: the device runs on
      have hgo : Waiting h kernel mem comm (s.polled dev comm).trace := hread (by
        rintro ⟨data, hop, _, _, hdone⟩
        cases hop
        exact hdone hzero)
      have hrun := hgo.snoc (e := controlEvent .run (·.run) dev (s.polled dev comm))
        (hcontrol rfl).1 (hcontrol rfl).2
      rw [Exec.wp_bind, devRun, wp_devCall]
      exact ⟨fun _ => ih _ hrun, fun hret => ⟨hret, hrun⟩⟩

/-! ## The launch -/

/-- An argument is refused with an error code. -/
theorem argPlan_error_ne {comm : ProgramComm} :
    ∀ {args : List KernArg} {paddr : UInt64} {e : ClInt}, (argPlan h comm args paddr).2 = .error e →
      e ≠ clSuccess
  | [], _, _, herr => by cases herr
  | arg :: args, paddr, e, herr => by
    rcases hsrc : enqueueSource h arg with e' | src
    · rw [argPlan_error hsrc] at herr
      obtain rfl := Except.error.inj herr
      unfold enqueueSource at hsrc
      split at hsrc
      · cases hsrc
        decide
      split at hsrc
      · cases hsrc
      split at hsrc
      · rcases hv : check (memIsValid h arg.val.handle) with e'' | _
        · rw [hv] at hsrc
          obtain rfl := Except.error.inj hsrc
          obtain ⟨hne, rfl⟩ := check_eq_error.mp hv
          exact hne
        · rw [hv] at hsrc
          cases hsrc
      · cases hsrc
        decide
    · by_cases hex : ExceedsComm comm paddr src.2.1
      · rw [argPlan_exceeds hsrc hex] at herr
        cases herr
        decide
      · rw [argPlan_fits hsrc hex] at herr
        exact argPlan_error_ne herr

/-- What a launch leaves when it returns `CL_SUCCESS`. -/
structure Completed (h : Host δ) (kernel : Ptr) (mem : δ → ByteMap) (s : Sys δ) : Prop where
  ran : RanWithArgs h kernel mem s.trace
  reads : payloadReads s.trace =
    ((launchSlots h kernel).filter fun t => t.fetched h).map Slot.payload
  done : ∃ e, latest Event.isHeader s.trace = some e ∧
    DoneHeader (h.prgs (kernGetProgram h kernel)).comm e ∧
    s.host.bytes = h.bytes.storeAll (cells (mem e.devAfter) ((launchSlots h kernel).map (Slot.get h)))

/-- What a launch leaves when it returns an error: if it ran the device at all, the arguments were
there; if a header was seen done, an operation failed afterwards; and if it did not run the device
although the layout is accepted, an operation failed before. -/
structure Aborted (h : Host δ) (kernel : Ptr) (mem : δ → ByteMap) (s : Sys δ) : Prop where
  ran : ∀ r, earliest Event.isRun s.trace = some r → ArgsOnDevice h kernel (mem r.devBefore)
  reads : payloadReads s.trace <+:
    ((launchSlots h kernel).filter fun t => t.fetched h).map Slot.payload
  reason : (∀ e ∈ s.trace, ¬ DoneHeader (h.prgs (kernGetProgram h kernel)).comm e) ∨
    ¬ AllSucceed s.trace
  runs : Accepted h kernel → AllSucceed s.trace → ∃ r, earliest Event.isRun s.trace = some r

theorem Waiting.aborted {kernel : Ptr} {s : Sys δ}
    (hw : Waiting h kernel mem (h.prgs (kernGetProgram h kernel)).comm s.trace) :
    Aborted h kernel mem s where
  ran := by
    obtain ⟨r, hfirst, hargs⟩ := hw.ran
    intro r' hr'
    rw [hfirst] at hr'
    exact Option.some.inj hr' ▸ hargs
  reads := by rw [hw.reads]; exact List.nil_prefix
  reason := Or.inl hw.notDone
  runs := fun _ _ => hw.ran.imp fun _ hr => hr.1

/-- A trace without runs and reads of a launch that did not get to the first run. -/
theorem aborted_of_upload {kernel : Ptr} {s : Sys δ}
    (htr : ∀ e ∈ s.trace, e.isRun = false ∧ e.isHeader = false) (hreads : payloadReads s.trace = [])
    (hstop : Accepted h kernel → ¬ AllSucceed s.trace) : Aborted h kernel mem s where
  ran := by
    intro r hr
    have hnone : earliest Event.isRun s.trace = none :=
      earliest_eq_none_iff.mpr fun e he => (htr e he).1
    rw [hnone] at hr
    cases hr
  reads := by rw [hreads]; exact List.nil_prefix
  reason := by
    refine Or.inl fun e he ⟨data, hop, _⟩ => ?_
    have hhead := (htr e he).2
    simp [Event.isHeader, hop] at hhead
  runs := fun haccepted hall => absurd hall (hstop haccepted)

/-- The data flow of a launch, on any state to start from. -/
theorem wp_launch_dataFlow (cmdq kernel : Ptr) (s : Sys δ) (hs : s.trace = [])
    (he : s.host.Exact (ctxGetDevice s.host (cmdqGetContext s.host cmdq)) mem)
    (hsums : layoutEnd s.host kernel < 2 ^ 64) :
    Exec.wp (launch cmdq kernel) (fun _ s' => Completed s.host kernel mem s')
      (fun e s' => e ≠ clSuccess ∧ Aborted s.host kernel mem s') s := by
  rw [launch_eq, Exec.wp_bind, Exec.wp_gets, Exec.wp_bind, Exec.wp_gets, Exec.wp_bind, devReset,
    wp_devCall]
  generalize hdev : ctxGetDevice s.host (cmdqGetContext s.host cmdq) = dev at he
  generalize hev : controlEvent .reset (·.reset) dev s = ev
  have hev' : ev.isRun = false ∧ ev.isHeader = false ∧ ev.hostAfter = s.host.bytes ∧
      payloadReads [ev] = [] := by
    subst hev
    exact ⟨rfl, rfl, rfl, rfl⟩
  have htrace : (s.push ev).trace = [ev] := by
    show s.trace ++ [ev] = [ev]
    rw [hs, List.nil_append]
  have hhost : (s.push ev).host = s.host := by
    show { s.host with bytes := ev.hostAfter } = s.host
    rw [hev'.2.2.1]
  have hstart (hstop : Accepted s.host kernel → ¬ AllSucceed (s.push ev).trace) :
      Aborted s.host kernel mem (s.push ev) := by
    refine aborted_of_upload (fun e hmem => ?_) (by rw [htrace]; exact hev'.2.2.2) hstop
    rw [htrace] at hmem
    obtain rfl := List.mem_singleton.mp hmem
    exact ⟨hev'.1, hev'.2.1⟩
  refine ⟨fun _ => ?_, fun hret => ⟨hret, hstart fun _ hall => ?_⟩⟩
  swap
  · rw [htrace] at hall
    exact hret (hall ev (List.mem_singleton_self ev))
  generalize s.push ev = s₁ at htrace hhost hstart ⊢
  rw [Exec.wp_bind]
  by_cases hv : prgIsValid s₁.host (kernGetProgram s.host kernel) = clSuccess
  swap
  · rw [Exec.wp_of_error (upload_invalid dev kernel hv)]
    exact ⟨hv, hstart fun haccepted => absurd (hhost ▸ haccepted.1) hv⟩
  have hkern : kernIsValid s₁.host kernel = clSuccess := by
    rw [hhost] at hv ⊢
    exact kernIsValid_of_prgIsValid hv
  -- the trace of the upload: the reset and the transfers
  have hupload (s₂ : Sys δ) (hafter : s₁.After (kernGetProgram s.host kernel)
      (transfer s₁.host dev (launchPuts s₁.host (kernGetProgram s.host kernel) kernel) s₁.dev) s₂) :
      (∀ e ∈ s₂.trace, e.isRun = false ∧ e.isHeader = false) ∧ payloadReads s₂.trace = [] := by
    rw [hafter.trace, htrace]
    have hwrite : ∀ e ∈ (transfer s₁.host dev (launchPuts s₁.host (kernGetProgram s.host kernel) kernel)
        s₁.dev).events, e.op.isWrite = true := transfer_events_isWrite _ _
    refine ⟨fun e hmem => ?_, ?_⟩
    · rcases List.mem_append.mp hmem with hmem | hmem
      · obtain rfl := List.mem_singleton.mp hmem
        exact ⟨hev'.1, hev'.2.1⟩
      · have hw := hwrite e hmem
        cases hop : e.op <;> simp [Event.isRun, Event.isHeader, hop, DevOp.isWrite] at hw ⊢
    · rw [payloadReads_append, hev'.2.2.2, payloadReads_write hwrite]
      rfl
  refine wp_upload hv hkern (fun s₂ paddr hafter _ hok hend => ?_) (fun e s₂ hafter hfail => ?_)
  swap
  · obtain ⟨htr, hreads⟩ := hupload s₂ hafter
    rcases hfail with hput | ⟨_, hend⟩
    · -- the write that failed is on the record
      obtain ⟨hne, x, hx, hxe⟩ := transfer_error hput
      refine ⟨hne, aborted_of_upload htr hreads fun _ hall => hne ?_⟩
      rw [hafter.trace] at hall
      exact hxe ▸ hall x (List.mem_append_right _ hx)
    · refine ⟨argPlan_error_ne hend, aborted_of_upload htr hreads fun haccepted => ?_⟩
      obtain ⟨-, paddr, hpaddr⟩ := haccepted
      rw [hhost] at hend
      cases hpaddr.symm.trans hend
  obtain ⟨htr, hreads⟩ := hupload s₂ hafter
  have hframe : s.host.UploadFrame (kernGetProgram s.host kernel) s₂.host :=
    hhost ▸ hafter.host
  rw [hhost] at hafter hok hend hkern
  have hargs : ArgsOnDevice s.host kernel (mem s₂.dev) := by
    rw [hafter.dev]
    exact argsOnDevice_of_transfer he hsums hok hend
  -- the run phase
  rw [hhost, Exec.wp_bind, execute, Exec.wp_bind, devRun, wp_devCall]
  have hwait : Waiting s.host kernel mem (s.host.prgs (kernGetProgram s.host kernel)).comm
      (s₂.push (controlEvent .run (·.run) dev s₂)).trace := by
    have hnone : earliest Event.isRun s₂.trace = none :=
      earliest_eq_none_iff.mpr fun e hmem => (htr e hmem).1
    refine ⟨⟨controlEvent .run (·.run) dev s₂, ?_, hargs⟩, ?_, ?_⟩
    · show earliest _ (s₂.trace ++ [_]) = _
      rw [earliest_append, hnone]
      rfl
    · show payloadReads (s₂.trace ++ [_]) = []
      rw [payloadReads_append, hreads]
      rfl
    · rintro e hmem ⟨data, hop, -⟩
      rcases List.mem_append.mp hmem with hmem | hmem
      · have hhead := (htr e hmem).2
        simp [Event.isHeader, hop] at hhead
      · obtain rfl := List.mem_singleton.mp hmem
        cases hop
  refine ⟨fun _ => ?_, fun hret => ⟨hret, hwait.aborted⟩⟩
  rw [Exec.wp_bind]
  refine (wp_poll_seen dev _ maxPolls _ hwait).mono (fun done s₃ hpoll => ?_)
    (fun _ _ h => ⟨h.1, h.2.aborted⟩)
  obtain ⟨hhost₃, htrue, hfalse⟩ := hpoll
  cases done with
  | false => exact ⟨by decide, (hfalse rfl).aborted⟩
  | true =>
    -- done was seen: the walk back is a list of reads
    obtain ⟨hran, hnoreads, e, hlast, hdone, hdevdone⟩ := htrue rfl
    replace hhost₃ : s₃.host = s₂.host := hhost₃
    have hkern₃ : kernIsValid s₃.host kernel = clSuccess := by
      rw [kernIsValid, hhost₃, hframe.kerns]
      exact hkern
    have hplan : recvPlan s₃.host (s.host.prgs (kernGetProgram s.host kernel)).comm
        (argList (s₃.host.kerns kernel))
        ((s.host.prgs (kernGetProgram s.host kernel)).comm.addr + sizeofCommAreaHeader) =
          ((launchSlots s.host kernel).map (Slot.get s.host), .ok paddr) := by
      rw [hhost₃, hframe.kerns, recvPlan_congr hframe.mems]
      exact recvPlan_eq hend
    have hrecv := recvArguments_apply dev kernel (s.host.prgs (kernGetProgram s.host kernel)).comm s₃
      hkern₃
    rw [hplan, fetchPlan, hhost₃, hframe.kerns] at hrecv
    show Exec.wp (recvArguments dev kernel _ (s.host.kerns kernel).numArgs) _ _ s₃
    rw [Exec.wp, hrecv, ← Exec.wp, Exec.wp_bind, Exec.wp_bind]
    have he₃ : s₃.host.Exact dev mem := by
      rw [hhost₃, Host.Exact, hframe.devs]
      exact he
    have haddrs : (((launchSlots s.host kernel).map (Slot.get s.host)).filter Get.need).map Get.paddr =
        ((launchSlots s.host kernel).filter fun t => t.fetched s.host).map Slot.payload := by
      rw [List.filter_map, List.map_map]
      rfl
    refine (wp_fetch _ s₃ he₃).mono (fun _ s₄ hf => ?_) (fun e' s₄ hf => ?_)
    · obtain ⟨es, htr₄, hes, hr₄, hbytes⟩ := hf
      refine ⟨htr₄ ▸ hran.append es, ?_, e, ?_, hdone, ?_⟩
      · rw [htr₄, payloadReads_append, hnoreads, hr₄, haddrs, List.nil_append]
      · rw [htr₄, latest_append_of_none fun x hx => (hes x hx).2, hlast]
      · rw [hbytes, hhost₃, hframe.bytes, hdevdone]
    · obtain ⟨hne, es, htr₄, hes, hr₄, hfail⟩ := hf
      refine ⟨hne, ?_, ?_, Or.inr fun hall => hfail ?_, fun _ _ => ?_⟩
      · obtain ⟨r, hfirst, hargs'⟩ := hran.append es
        intro r' hr'
        rw [htr₄, hfirst] at hr'
        exact Option.some.inj hr' ▸ hargs'
      · rw [htr₄, payloadReads_append, hnoreads, List.nil_append, ← haddrs]
        exact hr₄
      · rw [htr₄] at hall
        exact hall.of_append.2
      · obtain ⟨r, hfirst, -⟩ := hran.append es
        exact ⟨r, htr₄ ▸ hfirst⟩

theorem completed_of_success {cmdq kernel : Ptr} {d : δ}
    (he : h.Exact (ctxGetDevice h (cmdqGetContext h cmdq)) mem) (hsums : layoutEnd h kernel < 2 ^ 64)
    (hret : (clEnqueueNDRangeKernel cmdq kernel h d).ret = clSuccess) :
    Completed h kernel mem (launch cmdq kernel ⟨h, d, [], []⟩).2 := by
  have hrun := wp_launch_dataFlow cmdq kernel ⟨h, d, [], []⟩ rfl he hsums
  rcases hout : launch cmdq kernel ⟨h, d, [], []⟩ with ⟨e | _, s'⟩
  · rw [clEnqueueNDRangeKernel, hout] at hret
    exact absurd hret (hrun.error hout).1
  · exact hrun.ok hout

/-! ## What the arguments see -/

/-- The host memory of a slot: where the bytes of its buffer are. A slot with bytes of its own has none. -/
def Slot.storage (s : Slot) : Set Nat :=
  match s.buf with
  | .addr p => span p s.size.toNat
  | .own _ => ∅

/-- Nothing that is read back shares host memory with another argument. -/
def StorageDisjoint (h : Host δ) (kernel : Ptr) : Prop :=
  (launchSlots h kernel).Pairwise fun s t =>
    s.fetched h = true ∨ t.fetched h = true → Disjoint s.storage t.storage

/-- A slot that is read back is a memory object, and goes to the storage it stands for. -/
theorem Slot.WellFormed.buf_of_fetched {s : Slot} (hw : s.WellFormed h) (hf : s.fetched h = true) :
    s.buf = .addr (s.ptr h) ∧ s.sent = memCanRead (h.mems s.arg.val.handle) := by
  have hmem : s.arg.argtype = commArgMem := by
    simp only [Slot.fetched, Bool.and_eq_true, decide_eq_true_eq] at hf
    exact hf.1
  rcases hw with ⟨hval, _⟩ | ⟨_, _, hbuf, _, hsent⟩
  · rw [hval] at hmem
    exact absurd hmem (by decide)
  · rw [Slot.ptr, if_pos hmem]
    exact ⟨hbuf, hsent⟩

theorem cells_get (m : ByteMap) (slots : List Slot) :
    cells m (slots.map (Slot.get h)) =
      (slots.filter fun s => s.fetched h).map fun s =>
        (s.ptr h, m.load s.payload.toNat s.size.toNat) := by
  rw [cells, List.filter_map, List.map_map]
  rfl

/-- **How the arguments of a launch flow** through the communication area. -/
structure ArgumentFlow (h : Host δ) (kernel : Ptr) (mem : δ → ByteMap) (out : Outcome δ) : Prop where
  /-- With an accepted layout the device is run, unless an operation fails. -/
  runs : Accepted h kernel → AllSucceed out.trace → ∃ r, earliest Event.isRun out.trace = some r
  /-- At the first run every slot that is sent holds the host's bytes. -/
  sent : ∀ r, earliest Event.isRun out.trace = some r → ArgsOnDevice h kernel (mem r.devBefore)
  /-- An accepted layout has a slot for every argument; what is written are these slots, and the walk
  back visits the same payload addresses and is not rejected. -/
  walks : ∀ paddr, (commPlan h (h.prgs (kernGetProgram h kernel)).comm (h.kerns kernel)).2 = .ok paddr →
    (launchSlots h kernel).map Slot.arg = argList (h.kerns kernel) ∧
    (commPlan h (h.prgs (kernGetProgram h kernel)).comm (h.kerns kernel)).1 =
      areaPut (h.prgs (kernGetProgram h kernel)).comm (h.kerns kernel) ::
        (launchSlots h kernel).flatMap Slot.puts ∧
    recvPlan h (h.prgs (kernGetProgram h kernel)).comm (argList (h.kerns kernel))
        ((h.prgs (kernGetProgram h kernel)).comm.addr + sizeofCommAreaHeader) =
      ((launchSlots h kernel).map (Slot.get h), .ok paddr)
  /-- The addresses that are read are the payloads of the slots to read back, in order. -/
  reads : payloadReads out.trace <+:
    ((launchSlots h kernel).filter fun s => s.fetched h).map Slot.payload
  /-- Once done was seen, nothing but a failing operation keeps the launch from succeeding. -/
  accepted : (∃ e ∈ out.trace, DoneHeader (h.prgs (kernGetProgram h kernel)).comm e) →
    AllSucceed out.trace → out.ret = clSuccess
  /-- After a success, what is read back is what the device held when done was seen, and every other
  argument is as it was. -/
  received : out.ret = clSuccess → ∃ e, latest Event.isHeader out.trace = some e ∧
    DoneHeader (h.prgs (kernGetProgram h kernel)).comm e ∧
    (∀ s ∈ launchSlots h kernel, s.fetched h = true →
      out.host.bytes.load (s.ptr h) s.size.toNat =
        (mem e.devAfter).load s.payload.toNat s.size.toNat) ∧
    ∀ s ∈ launchSlots h kernel, s.fetched h = false → ∀ p, s.buf = .addr p →
      out.host.bytes.load p s.size.toNat = h.bytes.load p s.size.toNat

/-- **Argument data flow.**  On a device that moves bytes exactly, with sums that stay below `2 ^ 64`
and storage that is disjoint, the arguments flow as `ArgumentFlow` says, whatever the device runs. -/
theorem clEnqueueNDRangeKernel_argumentFlow (cmdq kernel : Ptr) (h : Host δ) (d : δ)
    (mem : δ → ByteMap) (he : h.Exact (ctxGetDevice h (cmdqGetContext h cmdq)) mem)
    (hsums : layoutEnd h kernel < 2 ^ 64) (hdisj : StorageDisjoint h kernel) :
    ArgumentFlow h kernel mem (clEnqueueNDRangeKernel cmdq kernel h d) := by
  have hrun := wp_launch_dataFlow cmdq kernel ⟨h, d, [], []⟩ rfl he hsums
  have hwalks (paddr : UInt64)
      (hend : (commPlan h (h.prgs (kernGetProgram h kernel)).comm (h.kerns kernel)).2 = .ok paddr) :
      (launchSlots h kernel).map Slot.arg = argList (h.kerns kernel) ∧
      (commPlan h (h.prgs (kernGetProgram h kernel)).comm (h.kerns kernel)).1 =
        areaPut (h.prgs (kernGetProgram h kernel)).comm (h.kerns kernel) ::
          (launchSlots h kernel).flatMap Slot.puts ∧
      recvPlan h (h.prgs (kernGetProgram h kernel)).comm (argList (h.kerns kernel))
          ((h.prgs (kernGetProgram h kernel)).comm.addr + sizeofCommAreaHeader) =
        ((launchSlots h kernel).map (Slot.get h), .ok paddr) := by
    obtain ⟨hputs, hargs⟩ := argPlan_slots hend
    refine ⟨hargs, ?_, recvPlan_eq hend⟩
    rw [commPlan, hputs]
    rfl
  rcases hout : launch cmdq kernel ⟨h, d, [], []⟩ with ⟨e | _, s'⟩
  · obtain ⟨hne, hran, hreads, hreason, hruns⟩ := hrun.error hout
    have hret : (clEnqueueNDRangeKernel cmdq kernel h d).ret = e := by
      rw [clEnqueueNDRangeKernel, hout]
      rfl
    refine ⟨?_, ?_, hwalks, ?_, fun hrunning hall => ?_, fun hsucc => absurd (hret ▸ hsucc) hne⟩
    · rw [clEnqueueNDRangeKernel, hout]
      exact hruns
    · rw [clEnqueueNDRangeKernel, hout]
      exact hran
    · rw [clEnqueueNDRangeKernel, hout]
      exact hreads
    · obtain ⟨x, hx, hd⟩ := hrunning
      rw [clEnqueueNDRangeKernel, hout] at hx hall
      rcases hreason with hnone | hfail
      · exact absurd hd (hnone x hx)
      · exact absurd hall hfail
  · obtain ⟨⟨r, hfirst, hargs⟩, hreads, e, hlast, hdone, hbytes⟩ := hrun.ok hout
    refine ⟨fun _ _ => ?_, fun r' hr' => ?_, hwalks, ?_, fun _ _ => ?_, fun _ => ⟨e, ?_, hdone, ?_, ?_⟩⟩
    · rw [clEnqueueNDRangeKernel, hout]
      exact ⟨r, hfirst⟩
    · rw [clEnqueueNDRangeKernel, hout] at hr'
      rw [show earliest Event.isRun s'.trace = some r' from hr'] at hfirst
      exact (Option.some.inj hfirst) ▸ hargs
    · rw [clEnqueueNDRangeKernel, hout]
      exact hreads ▸ List.prefix_rfl
    · rw [clEnqueueNDRangeKernel, hout]
      rfl
    · rw [clEnqueueNDRangeKernel, hout]
      exact hlast
    · -- the stores of the reads are disjoint, so all of them are there
      intro s hs hf
      rw [clEnqueueNDRangeKernel, hout]
      show s'.host.bytes.load _ _ = _
      rw [hbytes, cells_get]
      have hpair : (((launchSlots h kernel).filter fun s => s.fetched h).map fun s =>
          (s.ptr h, (mem e.devAfter).load s.payload.toNat s.size.toNat)).Pairwise fun v w =>
            Disjoint (span v.1 v.2.length) (span w.1 w.2.length) := by
        refine List.pairwise_map.mpr ((hdisj.filter _).imp_of_mem fun {s t} hs ht hst => ?_)
        obtain ⟨hs, hsf⟩ := List.mem_filter.mp hs
        obtain ⟨ht, htf⟩ := List.mem_filter.mp ht
        have hsbuf := ((argSlots_wellFormed s hs).buf_of_fetched hsf).1
        have htbuf := ((argSlots_wellFormed t ht).buf_of_fetched htf).1
        have hst' := hst (Or.inl hsf)
        simp only [Slot.storage, hsbuf, htbuf] at hst'
        simpa only [ByteMap.length_load] using hst'
      have hload := ByteMap.load_storeAll h.bytes hpair
        (s.ptr h, (mem e.devAfter).load s.payload.toNat s.size.toNat)
        (List.mem_map_of_mem (f := fun s => (s.ptr h, (mem e.devAfter).load s.payload.toNat s.size.toNat))
          (List.mem_filter.mpr ⟨hs, hf⟩))
      simpa only [ByteMap.length_load] using hload
    · -- no read goes near an argument that is not read back
      intro s hs hf p hp
      rw [clEnqueueNDRangeKernel, hout]
      show s'.host.bytes.load _ _ = _
      rw [hbytes, cells_get]
      refine ByteMap.load_congr fun x hx => ByteMap.storeAll_of_notMem _ fun w hw => ?_
      obtain ⟨t, ht, rfl⟩ := List.mem_map.mp hw
      obtain ⟨ht, htf⟩ := List.mem_filter.mp ht
      have hsym : Std.Symm fun s t : Slot =>
          s.fetched h = true ∨ t.fetched h = true → Disjoint s.storage t.storage :=
        ⟨fun s t hst ht => (hst ht.symm).symm⟩
      have hne : s ≠ t := by
        rintro rfl
        rw [hf] at htf
        cases htf
      have hst := hdisj.forall hs ht hne (Or.inr htf)
      have htbuf := ((argSlots_wellFormed t ht).buf_of_fetched htf).1
      simp only [Slot.storage, hp, htbuf] at hst
      rw [ByteMap.length_load]
      exact Set.disjoint_left.mp hst hx

theorem flowHost_exact (flags : UInt32) : (flowHost flags).Exact 1 id := by
  rintro ops hops
  cases hops
  exact memoryOps_exact _

/-- Its launch succeeds, so that its arguments went there and back. -/
theorem flow_argumentFlow :
    ArgumentFlow (flowHost clMemReadWrite) 1 id
      (clEnqueueNDRangeKernel 1 1 (flowHost clMemReadWrite) fun _ => 0xaa) ∧
    (clEnqueueNDRangeKernel 1 1 (flowHost clMemReadWrite) fun _ => 0xaa).ret = clSuccess := by
  refine ⟨clEnqueueNDRangeKernel_argumentFlow 1 1 (flowHost clMemReadWrite) (fun _ => 0xaa) id
    (flowHost_exact _) (by decide) ?_, by decide +kernel⟩
  show List.Pairwise _ [_, _, _]
  have hne : Disjoint (span 300 4) (span 200 4) := (span_disjoint_of_le (by decide)).symm
  simp only [List.pairwise_cons, List.mem_cons, List.not_mem_nil, or_false, forall_eq_or_imp,
    forall_eq, false_imp_iff, implies_true, List.Pairwise.nil, and_true]
  exact ⟨⟨fun _ => Set.empty_disjoint _, fun _ => Set.empty_disjoint _⟩, fun _ => hne⟩

/-! ## Bytes that the kernel does not write -/

/-- The run of the kernel left what is read back to the host address `x` alone: such a slot belongs to
a buffer that the device may read, too, and the device has the same byte of it at the first run and
when done is seen. -/
def LeftAlone (h : Host δ) (kernel : Ptr) (before after : ByteMap) (x : Nat) : Prop :=
  ∀ s ∈ launchSlots h kernel, s.fetched h = true → ∀ i, i < s.size.toNat → s.ptr h + i = x →
    memCanRead (h.mems s.arg.val.handle) = true ∧
      after (s.payload.toNat + i) = before (s.payload.toNat + i)

/-- **What the kernel does not write survives**, unless it belongs to a buffer that is read back
without having been sent. -/
theorem clEnqueueNDRangeKernel_survives (cmdq kernel : Ptr) (h : Host δ) (d : δ) (mem : δ → ByteMap)
    (he : h.Exact (ctxGetDevice h (cmdqGetContext h cmdq)) mem) (hsums : layoutEnd h kernel < 2 ^ 64)
    (hret : (clEnqueueNDRangeKernel cmdq kernel h d).ret = clSuccess) :
    ∃ r e, earliest Event.isRun (clEnqueueNDRangeKernel cmdq kernel h d).trace = some r ∧
      latest Event.isHeader (clEnqueueNDRangeKernel cmdq kernel h d).trace = some e ∧
      DoneHeader (h.prgs (kernGetProgram h kernel)).comm e ∧
      ∀ x, LeftAlone h kernel (mem r.devBefore) (mem e.devAfter) x →
        (clEnqueueNDRangeKernel cmdq kernel h d).host.bytes x = h.bytes x := by
  obtain ⟨⟨r, hfirst, hargs⟩, -, e, hlast, hdone, hbytes⟩ := completed_of_success he hsums hret
  refine ⟨r, e, hfirst, hlast, hdone, fun x hx => ?_⟩
  show (launch cmdq kernel ⟨h, d, [], []⟩).2.host.bytes x = _
  rw [hbytes, cells_get]
  refine ByteMap.storeAll_of_same _ fun w hw i hi hxi => ?_
  -- a byte that is stored back is the one that was sent
  obtain ⟨s, hs, rfl⟩ := List.mem_map.mp hw
  obtain ⟨hs, hf⟩ := List.mem_filter.mp hs
  have hlt : i < s.size.toNat := by simpa using hi
  obtain ⟨hbuf, hsent⟩ := (argSlots_wellFormed s hs).buf_of_fetched hf
  obtain ⟨hread, hsame⟩ := hx s hs hf i hlt hxi
  have hload := hargs s hs (hsent.trans hread)
  rw [hbuf] at hload
  have hhost := ByteMap.apply_eq_of_load_eq hload hlt
  rw [ByteMap.getElem_load _ hi, hsame, hhost, hxi]

theorem flow_survives :
    ∃ r e, earliest Event.isRun
        (clEnqueueNDRangeKernel 1 1 (flowHost clMemReadWrite) fun _ => 0xaa).trace = some r ∧
      latest Event.isHeader
        (clEnqueueNDRangeKernel 1 1 (flowHost clMemReadWrite) fun _ => 0xaa).trace = some e ∧
      DoneHeader ⟨0x80001000, 0x1000⟩ e ∧
      ∀ x, LeftAlone (flowHost clMemReadWrite) 1 r.devBefore e.devAfter x →
        (clEnqueueNDRangeKernel 1 1 (flowHost clMemReadWrite) fun _ => 0xaa).host.bytes x =
          UInt8.ofNat x :=
  clEnqueueNDRangeKernel_survives 1 1 (flowHost clMemReadWrite) (fun _ => 0xaa) id (flowHost_exact _)
    (by decide) (by decide +kernel)

/-- A write-only buffer is not sent and is read back: the bytes that were on the device before come
back in place of the host's, although the kernel stored nothing to them. -/
theorem writeOnly_overwritten :
    ¬ ((clEnqueueNDRangeKernel 1 1 (flowHost clMemWriteOnly) fun _ => 0xaa).ret = clSuccess →
      ∀ r e,
        earliest Event.isRun (clEnqueueNDRangeKernel 1 1 (flowHost clMemWriteOnly) fun _ => 0xaa).trace =
          some r →
        latest Event.isHeader (clEnqueueNDRangeKernel 1 1 (flowHost clMemWriteOnly) fun _ => 0xaa).trace =
          some e →
        ∀ s ∈ launchSlots (flowHost clMemWriteOnly) 1, s.arg.argtype = commArgMem →
          ∀ i, i < s.size.toNat →
            e.devAfter (s.payload.toNat + i) = r.devBefore (s.payload.toNat + i) →
              (clEnqueueNDRangeKernel 1 1 (flowHost clMemWriteOnly) fun _ => 0xaa).host.bytes
                (s.ptr (flowHost clMemWriteOnly) + i) =
              (flowHost clMemWriteOnly).bytes (s.ptr (flowHost clMemWriteOnly) + i)) := by
  intro hclaim
  have hrun : ((earliest Event.isRun (clEnqueueNDRangeKernel 1 1 (flowHost clMemWriteOnly)
      fun _ => 0xaa).trace).map fun r => r.devBefore 0x80001050) = some 0xaa := by decide +kernel
  have hdone : ((latest Event.isHeader (clEnqueueNDRangeKernel 1 1 (flowHost clMemWriteOnly)
      fun _ => 0xaa).trace).map fun e => e.devAfter 0x80001050) = some 0xaa := by decide +kernel
  obtain ⟨r, hr, hrbyte⟩ := Option.map_eq_some_iff.mp hrun
  obtain ⟨e, he, hebyte⟩ := Option.map_eq_some_iff.mp hdone
  have hslot : (⟨⟨commArgMem, 1, 8, .addr 9⟩, 0x80001040, .addr 200, 4, false⟩ : Slot) ∈
      launchSlots (flowHost clMemWriteOnly) 1 :=
    List.mem_cons_of_mem _ (List.mem_cons_of_mem _ (List.mem_cons_self ..))
  have hkept := hclaim (by decide +kernel) r e hr he _ hslot rfl 0 (by decide) (hebyte.trans hrbyte.symm)
  exact absurd hkept (by decide +kernel)

end BaremetalCrt
