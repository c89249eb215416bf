/-
# BaremetalCrt.Launch.Call — launches as remote calls.

A program on the device is handed slots, and leaves payloads in them.  `Contract` says what it asks of the
slots and what it promises about the payloads, and `Contract.Kept` that the program keeps the contract,
whatever else is in the memory, once its areas are there.  A launch of a kernel of such a program is a call
(`RemoteCall`): some slots that convey the arguments were handed over, the storage of the memory objects that
the kernel may write is what the program left for them, and no other byte of the host has changed.

Launches one after the other are calls one after the other (`launchAll_remoteCalls`), although only the first
of them sends the readonly areas of the program.
-/
import BaremetalCrt.Launch.Decode
import BaremetalCrt.Launch.Image
import BaremetalCrt.Launch.Target
import BaremetalCrt.Lib.Overwrite
import Mathlib.Data.List.TakeWhile

namespace BaremetalCrt

open Lib

variable {δ : Type}

/-! ## Contracts -/

/-- What a program on the device asks of the slots that it is handed, and what it promises about the payloads
that it leaves in them. -/
structure Contract where
  pre : List ReadSlot → Prop
  post : List ReadSlot → List (List UInt8) → Prop

/-- The bytes that the memory has where the slots have their payloads. -/
def payloadsIn (m : ByteMap) (slots : List ReadSlot) : List (List UInt8) :=
  slots.map fun r => m.load (r.addr + 16) r.header.size.toNat

/-- What belongs on the device for a chunk: its bytes at its physical address. -/
def ProgramChunk.cell (h : Host δ) (c : ProgramChunk) : Nat × List UInt8 := (c.paddr.toNat, c.data h)

/-- The areas of the program are in the memory, those at least that `keep` is about. -/
def Resident (keep : ProgramChunk → Prop) (h : Host δ) (prg : Ptr) (m : ByteMap) : Prop :=
  ∀ i, i < (h.prgs prg).numChunks.toNat → keep ((h.prgs prg).chunkAt i) →
    m.Holds (((h.prgs prg).chunkAt i).cell h)

/-- The chunk is readonly: the program never writes to it, so that it need not be sent again. -/
def ProgramChunk.Rom (c : ProgramChunk) : Prop := c.readonly = true

/-- The program keeps the contract: it comes to be done within the polls of a launch, and keeps its readonly
areas. -/
def Contract.Kept (c : Contract) (go : ByteMap → ByteMap) (h : Host δ) (prg : Ptr) : Prop :=
  ∀ m, Resident (fun _ => True) h prg m →
    (headerIn (h.prgs prg).comm m).magic = baremetalCrtCommMagic → (headerIn (h.prgs prg).comm m).done = 0 →
    c.pre (readCommArea m (h.prgs prg).comm.addr.toNat) →
      ∃ m', Target.polls go (h.prgs prg).comm maxPolls m = (clSuccess, ⟨m', false⟩) ∧
        c.post (readCommArea m (h.prgs prg).comm.addr.toNat)
          (payloadsIn m' (readCommArea m (h.prgs prg).comm.addr.toNat)) ∧
        Resident ProgramChunk.Rom h prg m'

/-! ## Calls -/

/-- The argument is a memory object that the kernel may write. -/
def KernArg.Written (h : Host δ) (arg : KernArg) : Prop :=
  arg.argtype = commArgMem ∧ memCanWrite (h.mems arg.val.handle) = true

instance (h : Host δ) (arg : KernArg) : Decidable (arg.Written h) := inferInstanceAs (Decidable (_ ∧ _))

/-- What the host gets back for an argument: a buffer that the kernel may write to holds `out`. -/
def KernArg.Returns (h : Host δ) (b : ByteMap) (arg : KernArg) (out : List UInt8) : Prop :=
  arg.Written h → b.load (h.mems arg.val.handle).ptr (h.mems arg.val.handle).size.toNat = out

/-- A call of the kernel, from the host memory `b` to `b'`. -/
structure RemoteCall (c : Contract) (h : Host δ) (b : ByteMap) (kernel : Ptr) (b' : ByteMap) : Prop where
  returns : ∃ slots outs,
    List.Forall₂ (ReadSlot.Conveys { h with bytes := b }) (argList (h.kerns kernel)) slots ∧
      c.post slots outs ∧ List.Forall₂ (KernArg.Returns h b') (argList (h.kerns kernel)) outs
  frame : ∀ x, (∀ arg ∈ argList (h.kerns kernel), arg.Written h →
    x ∉ span (h.mems arg.val.handle).ptr (h.mems arg.val.handle).size.toNat) → b' x = b x

/-- The program gets what it asks for, in every call of the kernels one after the other. -/
def SafeCalls (c : Contract) (h : Host δ) : List Ptr → ByteMap → Prop
  | [], _ => True
  | kernel :: kernels, b =>
    (∀ slots, List.Forall₂ (ReadSlot.Conveys { h with bytes := b }) (argList (h.kerns kernel)) slots →
      c.pre slots) ∧
    ∀ b', RemoteCall c h b kernel b' → SafeCalls c h kernels b'

/-- The kernel can be called: its arguments are accepted and come from somewhere, their layout does not wrap,
their number fits its field, and what is read back has storage of its own, apart from the binary; and the
areas of its program lie apart from each other and from the arguments. -/
structure Callable (h : Host δ) (kernel : Ptr) : Prop where
  program : prgIsValid h (kernGetProgram h kernel) = clSuccess
  fits : ∃ paddr, (commPlan h (h.prgs (kernGetProgram h kernel)).comm (h.kerns kernel)).2 = .ok paddr
  sourced : ∀ p ∈ (commPlan h (h.prgs (kernGetProgram h kernel)).comm (h.kerns kernel)).1, ¬ p.Refused
  stored : ∀ s ∈ launchSlots h kernel, ¬ (s.get h).Refused
  layout : layoutEnd h kernel < 2 ^ 64
  count : (h.kerns kernel).numArgs ≠ 0xffffffff
  disjoint : StorageDisjoint h kernel
  binary : ∀ i, i < (h.prgs (kernGetProgram h kernel)).numChunks.toNat →
    (((h.prgs (kernGetProgram h kernel)).chunkAt i).buf ≠ 0 ∨
      ((h.prgs (kernGetProgram h kernel)).chunkAt i).size = 0) ∧
    ∀ arg ∈ argList (h.kerns kernel), arg.Written h →
      Disjoint (span (h.mems arg.val.handle).ptr (h.mems arg.val.handle).size.toNat)
        (span ((h.prgs (kernGetProgram h kernel)).chunkAt i).buf
          ((h.prgs (kernGetProgram h kernel)).chunkAt i).size.toNat)
  apart : ∀ i j, i < (h.prgs (kernGetProgram h kernel)).numChunks.toNat →
    j < (h.prgs (kernGetProgram h kernel)).numChunks.toNat → i ≠ j →
      Disjoint (span ((h.prgs (kernGetProgram h kernel)).chunkAt i).paddr.toNat
          ((h.prgs (kernGetProgram h kernel)).chunkAt i).size.toNat)
        (span ((h.prgs (kernGetProgram h kernel)).chunkAt j).paddr.toNat
          ((h.prgs (kernGetProgram h kernel)).chunkAt j).size.toNat)
  comm : ∀ i, i < (h.prgs (kernGetProgram h kernel)).numChunks.toNat →
    ∀ p ∈ (commPlan h (h.prgs (kernGetProgram h kernel)).comm (h.kerns kernel)).1,
      Disjoint (span p.paddr.toNat p.len.toNat)
        (span ((h.prgs (kernGetProgram h kernel)).chunkAt i).paddr.toNat
          ((h.prgs (kernGetProgram h kernel)).chunkAt i).size.toNat)

/-! ## One launch -/

section Sent

variable {h : Host δ} {kernel : Ptr} (hcall : Callable h kernel)
include hcall

/-- Nothing that is sent is refused. -/
theorem Callable.puts : ∀ p ∈ launchPuts h (kernGetProgram h kernel) kernel, ¬ p.Refused := by
  intro p hp
  rcases List.mem_append.mp hp with hp | hp
  · obtain ⟨j, -, hj, -, rfl⟩ := (mem_chunkPuts _ _).mp hp
    rintro ⟨hnull, hlen⟩
    rcases (hcall.binary j (by rwa [Nat.zero_add] at hj)).1 with hbuf | hsize
    · exact hbuf (CPtr.addr.inj (beq_iff_eq.mp hnull))
    · exact hlen (congrArg UInt32.toUInt64 hsize)
  · exact hcall.sourced p hp

/-- What is sent agrees with every area of the program. -/
theorem Callable.agree {i : Nat} (hi : i < (h.prgs (kernGetProgram h kernel)).numChunks.toNat) :
    ∀ w ∈ (launchPuts h (kernGetProgram h kernel) kernel).map (Put.cell h),
      ByteMap.Agree w (((h.prgs (kernGetProgram h kernel)).chunkAt i).cell h) := by
  intro w hw
  obtain ⟨p, hp, rfl⟩ := List.mem_map.mp hw
  have hlen (c : ProgramChunk) : (c.cell h).2.length = c.size.toNat := ByteMap.length_load ..
  rcases List.mem_append.mp hp with hp | hp
  · obtain ⟨j, -, hj, -, rfl⟩ := (mem_chunkPuts _ _).mp hp
    rw [Nat.zero_add] at hj
    rw [Put.cell, chunkPut_data]
    by_cases hij : j = i
    · rw [hij]
      exact .refl _
    · apply ByteMap.Agree.of_disjoint
      show Disjoint (span _ (ProgramChunk.cell h _).2.length) _
      rw [hlen, hlen]
      exact hcall.apart j i hj hi hij
  · apply ByteMap.Agree.of_disjoint
    rw [show (p.cell h).2.length = p.len.toNat from Host.length_read .., hlen]
    exact hcall.comm i hi p hp

/-- So the whole program is on the device, when the areas that are left out were there. -/
theorem Callable.resident {m : ByteMap}
    (hm : Resident ProgramChunk.Skipped h (kernGetProgram h kernel) m) :
    Resident (fun _ => True) h (kernGetProgram h kernel)
      (m.storeAll ((launchPuts h (kernGetProgram h kernel) kernel).map (Put.cell h))) := by
  intro i hi _
  by_cases hskip : ((h.prgs (kernGetProgram h kernel)).chunkAt i).Skipped
  · exact (hm i hi hskip).storeAll _ (hcall.agree hi)
  · refine ByteMap.holds_storeAll _ (List.mem_map.mpr
      ⟨chunkPut i ((h.prgs (kernGetProgram h kernel)).chunkAt i), ?_, ?_⟩) (hcall.agree hi)
    · exact List.mem_append_left _ ((mem_chunkPuts _ _).mpr ⟨i, Nat.zero_le _, by
        rwa [Nat.zero_add], hskip, rfl⟩)
    · rw [Put.cell, chunkPut_data]
      rfl

end Sent

theorem length_readSlots (m : ByteMap) (n : Nat) : ∀ x, (readSlots m n x).length = n := by
  induction n with
  | zero => exact fun _ => rfl
  | succ n ih =>
    intro x
    rw [readSlots, List.length_cons, ih]

/-- The reader finds the slots where the layout has them. -/
theorem readSlots_places {h : Host δ} {m : ByteMap} : ∀ {args : List KernArg} {paddr : UInt64},
    (argSlots h args paddr).map Slot.arg = args →
    extent 16 8 ((argSlots h args paddr).map fun s => s.size.toNat) paddr.toNat < 2 ^ 64 →
    List.Forall₂ (ReadSlot.Conveys h) args (readSlots m args.length paddr.toNat) →
      (readSlots m args.length paddr.toNat).map (fun r => (r.addr, r.header.size)) =
        (argSlots h args paddr).map fun s => (s.addr.toNat, s.size)
  | [], _, _, _, _ => rfl
  | arg :: args, paddr, hargs, hlt, hall => by
    rcases hsrc : enqueueSource h arg with e | ⟨buf, size, need⟩
    · simp [argSlots, hsrc] at hargs
    · simp only [argSlots, hsrc, List.map_cons, extent] at hargs hlt ⊢
      rw [List.length_cons, readSlots] at hall ⊢
      obtain ⟨hfirst, hrest⟩ := List.forall₂_cons.mp hall
      have hsize : (CommArgHeader.ofBytes (m.load paddr.toNat 16)).size = size := by
        rcases enqueueSource_eq_ok.mp hsrc with ⟨hval, hsrc'⟩ | ⟨hmem, -, hsrc'⟩
        · obtain ⟨-, rfl, -⟩ : buf = arg.val ∧ size = arg.size ∧ need = true := by simpa using hsrc'
          exact (hfirst.value hval).1
        · obtain ⟨-, rfl, -⟩ : buf = .addr (h.mems arg.val.handle).ptr ∧
              size = (h.mems arg.val.handle).size ∧ need = memCanRead (h.mems arg.val.handle) := by
            simpa using hsrc'
          exact (hfirst.buffer hmem).1
      have hend := le_extent 16 (show 0 < 8 by decide)
        ((argSlots h args (nextSlot paddr size)).map fun s => s.size.toNat)
        (alignUp 8 (paddr.toNat + 16 + size.toNat))
      have hnext : (nextSlot paddr size).toNat = alignUp 8 (paddr.toNat + 16 + size.toNat) :=
        nextSlot_toNat (by omega)
      rw [hsize, ← hnext] at hrest ⊢
      rw [List.map_cons, readSlots_places (List.cons.inj hargs).2 (hnext ▸ hlt) hrest]
      exact congrArg (· :: _) (Prod.ext rfl hsize)

section Launch

variable {reset go : ByteMap → ByteMap} {h : Host Target} {dev kernel : Ptr} {c : Contract}

/-- What is read back goes to the storage of the arguments that it belongs to, and nowhere else. -/
theorem Callable.returns (hcall : Callable h kernel) {m : ByteMap} {slots : List ReadSlot}
    (hargs : (launchSlots h kernel).map Slot.arg = argList (h.kerns kernel))
    (hslots : slots.map (fun r => (r.addr, r.header.size)) =
      (launchSlots h kernel).map fun s => (s.addr.toNat, s.size))
    {b : ByteMap} (hb : b = h.bytes.storeAll (cells m ((launchSlots h kernel).map (Slot.get h)))) :
    List.Forall₂ (KernArg.Returns h b) (argList (h.kerns kernel)) (payloadsIn m slots) ∧
      ∀ x, (∀ arg ∈ argList (h.kerns kernel), arg.Written h →
        x ∉ span (h.mems arg.val.handle).ptr (h.mems arg.val.handle).size.toNat) → b x = h.bytes x := by
  have hend : ∀ s ∈ launchSlots h kernel, s.payload.toNat = s.addr.toNat + 16 := by
    have hlayout := hcall.layout
    rw [layoutEnd, ← argStart_toNat hcall.layout] at hlayout
    exact fun s hs => (argSlots_end hlayout s hs).1
  have hwritten {s : Slot} (hs : s ∈ launchSlots h kernel) : s.arg.Written h ↔ s.fetched h = true := by
    rw [Slot.fetched, Bool.and_eq_true, decide_eq_true_eq]
    rfl
  have hplace {s : Slot} (hs : s ∈ launchSlots h kernel) (hw : s.arg.Written h) :
      s.ptr h = (h.mems s.arg.val.handle).ptr ∧ s.size = (h.mems s.arg.val.handle).size := by
    rcases argSlots_wellFormed s hs with ⟨hval, -⟩ | ⟨hmem, -, -, hsize, -⟩
    · exact absurd (hval.symm.trans hw.1) (by decide)
    · exact ⟨if_pos hmem, hsize⟩
  have hcells : cells m ((launchSlots h kernel).map (Slot.get h)) = _ := cells_get m _
  have hpayloads : payloadsIn m slots =
      (launchSlots h kernel).map fun s => m.load s.payload.toNat s.size.toNat := by
    have hmap := congrArg (List.map fun p : Nat × UInt64 => m.load (p.1 + 16) p.2.toNat) hslots
    rw [List.map_map, List.map_map] at hmap
    refine hmap.trans (List.map_congr_left fun s hs => ?_)
    rw [hend s hs]
    rfl
  constructor
  · rw [hpayloads, ← hargs, List.forall₂_map_left_iff, List.forall₂_map_right_iff]
    refine List.forall₂_same.mpr fun s hs hw => ?_
    obtain ⟨hptr, hsize⟩ := hplace hs hw
    rw [hb, hcells, ← hptr, ← hsize]
    -- the stores are disjoint, so all of them are there
    have hpair : (((launchSlots h kernel).filter fun s => s.fetched h).map fun s =>
        (s.ptr h, m.load s.payload.toNat s.size.toNat)).Pairwise fun v w =>
          Disjoint (span v.1 v.2.length) (span w.1 w.2.length) := by
      refine List.pairwise_map.mpr ((hcall.disjoint.filter _).imp_of_mem fun {s t} hs ht hst => ?_)
      obtain ⟨hs, hsf⟩ := List.mem_filter.mp hs
      obtain ⟨ht, htf⟩ := List.mem_filter.mp ht
      have hst' := hst (Or.inl hsf)
      simp only [Slot.storage, ((argSlots_wellFormed s hs).buf_of_fetched hsf).1,
        ((argSlots_wellFormed t ht).buf_of_fetched htf).1] at hst'
      simpa only [ByteMap.length_load] using hst'
    have hload := ByteMap.load_storeAll h.bytes hpair (s.ptr h, m.load s.payload.toNat s.size.toNat)
      (List.mem_map_of_mem (f := fun s => (s.ptr h, m.load s.payload.toNat s.size.toNat))
        (List.mem_filter.mpr ⟨hs, (hwritten hs).mp hw⟩))
    simpa only [ByteMap.length_load] using hload
  · intro x hx
    rw [hb, hcells]
    refine ByteMap.storeAll_of_notMem _ fun w hw => ?_
    obtain ⟨s, hs, rfl⟩ := List.mem_map.mp hw
    obtain ⟨hs, hf⟩ := List.mem_filter.mp hs
    have hw := (hwritten hs).mpr hf
    obtain ⟨hptr, hsize⟩ := hplace hs hw
    rw [ByteMap.length_load, hptr, hsize]
    exact hx s.arg (hargs ▸ List.mem_map_of_mem hs) hw

/-- **One launch is one call.** -/
theorem Callable.launch (hcall : Callable h kernel) (hon : OnTarget reset go h dev)
    (hkept : c.Kept go h (kernGetProgram h kernel))
    {m : ByteMap} (hm : Resident ProgramChunk.Skipped h (kernGetProgram h kernel) (reset m))
    (hpre : ∀ slots, List.Forall₂ (ReadSlot.Conveys h) (argList (h.kerns kernel)) slots → c.pre slots) :
    ∃ b' m', Target.launch reset go h kernel m = (clSuccess, b', ⟨m', false⟩) ∧
      RemoteCall c h h.bytes kernel b' ∧ Resident ProgramChunk.Rom h (kernGetProgram h kernel) m' := by
  obtain ⟨paddr, hend⟩ := hcall.fits
  have hputs : ¬ ∃ p ∈ launchPuts h (kernGetProgram h kernel) kernel, p.Refused :=
    fun ⟨p, hp, href⟩ => hcall.puts p hp href
  have hgets : ¬ ∃ g ∈ (launchSlots h kernel).map (Slot.get h), g.Refused := by
    rintro ⟨g, hg, href⟩
    obtain ⟨s, hs, rfl⟩ := List.mem_map.mp hg
    exact hcall.stored s hs href
  have hall {α : Type} {P : α → Prop} [DecidablePred P] {l : List α} (hno : ¬ ∃ a ∈ l, P a) :
      (l.takeWhile fun a => ¬ P a) = l :=
    List.takeWhile_eq_self_iff.mpr fun a ha => by simpa using fun h => hno ⟨a, ha, h⟩
  -- what the program is started on
  obtain ⟨hret, hdev⟩ := hon.transfer (launchPuts h (kernGetProgram h kernel) kernel) ⟨reset m, false⟩
  rw [if_neg hputs] at hret
  rw [hall hputs] at hdev
  have hholds := commPlan_holds hon.exact hcall.layout hret hend
  rw [hdev] at hholds
  generalize hsent : (reset m).storeAll
    ((launchPuts h (kernGetProgram h kernel) kernel).map (Put.cell h)) = sent at hholds
  have hhead : headerIn (h.prgs (kernGetProgram h kernel)).comm sent =
      initialHeader (h.kerns kernel).numArgs := by
    have hput := hholds _ (List.mem_cons_self ..)
    have hdata : (areaPut (h.prgs (kernGetProgram h kernel)).comm (h.kerns kernel)).data h =
        (initialHeader (h.kerns kernel).numArgs).toBytes :=
      Host.read_own h (CommAreaHeader.length_toBytes _)
    rw [ByteMap.Holds, Put.cell, hdata, CommAreaHeader.length_toBytes] at hput
    rw [headerIn, show sent.load (h.prgs (kernGetProgram h kernel)).comm.addr.toNat 16 = _ from hput,
      CommAreaHeader.ofBytes_toBytes]
  have hconveys := readCommArea_conveys hholds hcall.layout hend hcall.count
  obtain ⟨m', hpolls, hpost, hrom⟩ := hkept sent (hsent ▸ hcall.resident hm) (congrArg _ hhead)
    (congrArg CommAreaHeader.done hhead) (hpre _ hconveys)
  refine ⟨h.bytes.storeAll (cells m' ((launchSlots h kernel).map (Slot.get h))), m', ?_, ?_, hrom⟩
  · simp only [Target.launch, if_neg (not_not.mpr hcall.program), if_neg hputs, hend, hall hputs, hsent,
      hpolls, ne_eq, not_true_eq_false, if_false, if_neg hgets, hall hgets]
  · -- the slots that were read are those of the layout
    obtain ⟨-, hargs⟩ := argPlan_slots hend
    have hstart := argStart_toNat hcall.layout
    have hlayout := hcall.layout
    rw [layoutEnd, ← hstart] at hlayout
    have hread := readCommArea_eq hholds
    have hlength : ((h.kerns kernel).numArgs + 1).toNat = (argList (h.kerns kernel)).length := by
      rw [hconveys.length_eq, hread]
      exact (length_readSlots ..).symm
    rw [hlength, ← hstart] at hread
    rw [hread] at hconveys hpost
    obtain ⟨hreturns, hframe⟩ := hcall.returns hargs (readSlots_places hargs hlayout hconveys) rfl
    exact ⟨⟨_, _, hconveys, hpost, hreturns⟩, hframe⟩

end Launch

/-! ## The objects between launches -/

/-- The same objects, but for the marks of the chunks; the plain bytes may be others. -/
structure Host.SameObjects (h h' : Host δ) : Prop where
  cmdqs : h'.cmdqs = h.cmdqs
  ctxs : h'.ctxs = h.ctxs
  devs : h'.devs = h.devs
  kerns : h'.kerns = h.kerns
  mems : h'.mems = h.mems
  magic : ∀ p, (h'.prgs p).magic = (h.prgs p).magic
  numChunks : ∀ p, (h'.prgs p).numChunks = (h.prgs p).numChunks
  comm : ∀ p, (h'.prgs p).comm = (h.prgs p).comm
  chunk : ∀ p i, ∃ index loaded,
    (h'.prgs p).chunkAt i = { (h.prgs p).chunkAt i with index := index, loaded := loaded }

theorem Host.SameObjects.of_prgs {h h' : Host δ} (hcmdqs : h'.cmdqs = h.cmdqs) (hctxs : h'.ctxs = h.ctxs)
    (hdevs : h'.devs = h.devs) (hkerns : h'.kerns = h.kerns) (hmems : h'.mems = h.mems)
    (hprgs : h'.prgs = h.prgs) : h.SameObjects h' :=
  ⟨hcmdqs, hctxs, hdevs, hkerns, hmems, fun p => by rw [hprgs], fun p => by rw [hprgs],
    fun p => by rw [hprgs], fun p i => ⟨_, _, by rw [hprgs]⟩⟩

theorem Host.SameObjects.trans {a b c : Host δ} (hab : a.SameObjects b) (hbc : b.SameObjects c) :
    a.SameObjects c where
  cmdqs := hbc.cmdqs.trans hab.cmdqs
  ctxs := hbc.ctxs.trans hab.ctxs
  devs := hbc.devs.trans hab.devs
  kerns := hbc.kerns.trans hab.kerns
  mems := hbc.mems.trans hab.mems
  magic p := (hbc.magic p).trans (hab.magic p)
  numChunks p := (hbc.numChunks p).trans (hab.numChunks p)
  comm p := (hbc.comm p).trans (hab.comm p)
  chunk p i := by
    obtain ⟨_, _, hb⟩ := hab.chunk p i
    obtain ⟨index, loaded, hc⟩ := hbc.chunk p i
    exact ⟨index, loaded, by rw [hc, hb]⟩

theorem Host.SameObjects.markLoaded (h : Host δ) (prg : Ptr) (i : Nat) :
    h.SameObjects (h.markLoaded prg i) := by
  have hprg (p : Ptr) : (h.markLoaded prg i).prgs p =
      if p = prg then (h.prgs prg).putChunk i { (h.prgs prg).chunkAt i with loaded := true } else h.prgs p := by
    simp [Host.markLoaded, Function.update_apply]
  refine ⟨rfl, rfl, rfl, rfl, rfl, fun p => ?_, fun p => ?_, fun p => ?_, fun p j => ?_⟩ <;>
    rw [hprg] <;> split
  · next hp => rw [hp]; rfl
  · rfl
  · next hp => rw [hp]; rfl
  · rfl
  · next hp => rw [hp]; rfl
  · rfl
  · next hp =>
    subst hp
    by_cases hj : j = i
    · subst hj
      rcases chunkAt_putChunk_self (h.prgs p) j { (h.prgs p).chunkAt j with loaded := true } with heq | heq
      · exact ⟨_, _, heq⟩
      · exact ⟨_, _, heq⟩
    · exact ⟨_, _, chunkAt_putChunk_ne hj⟩
  · exact ⟨_, _, rfl⟩

theorem sameObjects_carried : Carried fun s s' : Sys δ => s.host.SameObjects s'.host where
  refl _ := .of_prgs rfl rfl rfl rfl rfl rfl
  trans _ _ _ := .trans

/-- A chunk that is sent is marked, and nothing else of it changes. -/
theorem sameObjects_sendChunk (dev prg : Ptr) (i : Nat) :
    Exec.Keeps (fun s s' : Sys δ => s.host.SameObjects s'.host) (sendChunk dev prg i) := by
  intro s
  by_cases hok : prgIsValid s.host prg = clSuccess ∧ (i : Int) < (s.host.prgs prg).numChunks
  · obtain ⟨hv, hi⟩ := hok
    by_cases hskip : ((s.host.prgs prg).chunkAt i).Skipped
    · rw [sendChunk_skipped dev hv hi hskip]
      exact sameObjects_carried.refl s
    · rw [sendChunk_apply dev hv hi hskip, Exec.bind_apply]
      have hhost := issue_host dev [chunkPut i ((s.host.prgs prg).chunkAt i)] s
      revert hhost
      rcases issue dev [chunkPut i ((s.host.prgs prg).chunkAt i)] s with ⟨_ | _, t⟩ <;> intro hhost
      · show s.host.SameObjects t.host
        rw [show t.host = s.host from hhost]
        exact sameObjects_carried.refl s
      · show s.host.SameObjects (t.host.markLoaded prg i)
        rw [show t.host = s.host from hhost]
        exact .markLoaded s.host prg i
  · -- there is no such chunk
    have herr : ∃ e, prgGetChunk s.host prg i = .error e := by
      unfold prgGetChunk
      by_cases hv : prgIsValid s.host prg = clSuccess
      · have hr : (i : Int) < 0 ∨ (s.host.prgs prg).numChunks ≤ i :=
          Or.inr (not_lt.mp fun hi => hok ⟨hv, hi⟩)
        rw [hv, check_success, if_pos hr]
        exact ⟨_, rfl⟩
      · rw [check, if_neg hv]
        exact ⟨_, rfl⟩
    obtain ⟨e, he⟩ := herr
    rw [sendChunk, Exec.bind_error (by rw [query_apply, he])]
    exact sameObjects_carried.refl s

/-- A launch leaves the objects what they are. -/
theorem sameObjects_launch (cmdq kernel : Ptr) :
    Exec.Keeps (fun s s' : Sys δ => s.host.SameObjects s'.host) (launch cmdq kernel) := by
  have hR := sameObjects_carried (δ := δ)
  have hpush (s : Sys δ) (e : Event δ) : s.host.SameObjects (s.push e).host := .of_prgs rfl rfl rfl rfl rfl rfl
  have hall (dev prg : Ptr) (n : Nat) : ∀ i,
      Exec.Keeps (fun s s' : Sys δ => s.host.SameObjects s'.host) (sendChunks dev prg i n) := by
    induction n with
    | zero => exact fun _ => hR.refl
    | succ n ih => exact fun i => hR.bind (sameObjects_sendChunk dev prg i) fun _ => ih (i + 1)
  refine hR.bind hR.refl fun dev => hR.bind hR.refl fun prg => hR.bind (fun s => hpush s _) fun _ => ?_
  refine hR.bind (hR.bind (hR.query _) fun n => hall _ _ _ 0) fun _ => ?_
  refine hR.bind (keeps_sendArguments hR dev prg kernel (fun _ _ _ _ _ s => hpush s _) fun _ s => hR.refl s)
    fun ⟨comm, numArgs⟩ => ?_
  refine hR.bind (keeps_execute hR (fun _ s => hpush s _) (fun _ s => hpush s _)
    (fun _ _ s => hpush s _) dev comm) fun _ => ?_
  exact keeps_recvArguments hR dev kernel comm numArgs fun _ _ _ _ s => hpush s _

/-- One launch is one call, of the driver's function. -/
theorem Callable.enqueue {reset go : ByteMap → ByteMap} {h : Host Target} {cmdq kernel : Ptr} {c : Contract}
    (hcall : Callable h kernel) (hon : OnTarget reset go h (ctxGetDevice h (cmdqGetContext h cmdq)))
    (hkept : c.Kept go h (kernGetProgram h kernel))
    {m : ByteMap} (hm : Resident ProgramChunk.Skipped h (kernGetProgram h kernel) (reset m))
    (hpre : ∀ slots, List.Forall₂ (ReadSlot.Conveys h) (argList (h.kerns kernel)) slots → c.pre slots) :
    let out := clEnqueueNDRangeKernel cmdq kernel h ⟨m, false⟩
    out.ret = clSuccess ∧ RemoteCall c h h.bytes kernel out.host.bytes ∧ h.SameObjects out.host ∧
      ∃ m', out.dev = ⟨m', false⟩ ∧ Resident ProgramChunk.Rom h (kernGetProgram h kernel) m' := by
  intro out
  obtain ⟨b', m', hlaunch, hremote, hrom⟩ := hcall.launch hon hkept hm hpre
  have hout : (out.ret, out.host.bytes, out.dev) = Target.launch reset go h kernel m := hon.launch kernel m
  have hsame : h.SameObjects out.host := sameObjects_launch cmdq kernel ⟨h, ⟨m, false⟩, [], []⟩
  rw [hlaunch] at hout
  simp only [Prod.mk.injEq] at hout
  obtain ⟨hret, hbytes, hdev⟩ := hout
  exact ⟨hret, hbytes ▸ hremote, hsame, m', hdev, hrom⟩

theorem argSlots_congr {h h' : Host δ} (hmems : h'.mems = h.mems) (args : List KernArg) (paddr : UInt64) :
    argSlots h' args paddr = argSlots h args paddr := by
  have hsrc (arg : KernArg) : enqueueSource h' arg = enqueueSource h arg := by
    simp only [enqueueSource, memIsValid, hmems]
  induction args generalizing paddr with
  | nil => rfl
  | cons arg args ih => simp only [argSlots, hsrc, ih]

section SameObjects

variable {h h' : Host δ} (hs : h.SameObjects h') {kernel prg : Ptr} {keep : ProgramChunk → Prop}
include hs

theorem Host.SameObjects.program : kernGetProgram h' kernel = kernGetProgram h kernel := by
  rw [kernGetProgram, kernGetProgram, kernIsValid, kernIsValid, hs.kerns]

theorem Host.SameObjects.plan (comm : ProgramComm) (k : ClKernel) : commPlan h' comm k = commPlan h comm k := by
  simp only [commPlan, argPlan_congr hs.mems]

theorem Host.SameObjects.slots : launchSlots h' kernel = launchSlots h kernel := by
  simp only [launchSlots, argSlots_congr hs.mems, hs.kerns, hs.program, hs.comm]

theorem Host.SameObjects.get (s : Slot) : s.get h' = s.get h := by
  simp only [Slot.get, Slot.ptr, Slot.fetched, hs.mems]

theorem Host.SameObjects.area (p : Ptr) (i : Nat) :
    ((h'.prgs p).chunkAt i).paddr = ((h.prgs p).chunkAt i).paddr ∧
      ((h'.prgs p).chunkAt i).buf = ((h.prgs p).chunkAt i).buf ∧
      ((h'.prgs p).chunkAt i).size = ((h.prgs p).chunkAt i).size ∧
      ((h'.prgs p).chunkAt i).readonly = ((h.prgs p).chunkAt i).readonly := by
  obtain ⟨_, _, heq⟩ := hs.chunk p i
  simp [heq]

/-- What can be called still can. -/
theorem Callable.later (hcall : Callable h kernel) : Callable h' kernel where
  program := by
    rw [hs.program, prgIsValid, hs.magic]
    exact hcall.program
  fits := by
    rw [hs.program, hs.comm, hs.kerns, hs.plan]
    exact hcall.fits
  sourced := by
    rw [hs.program, hs.comm, hs.kerns, hs.plan]
    exact hcall.sourced
  stored := by
    simp only [hs.slots, hs.get]
    exact hcall.stored
  layout := by
    rw [layoutEnd, hs.slots, hs.program, hs.comm]
    exact hcall.layout
  count := by
    rw [hs.kerns]
    exact hcall.count
  disjoint := by
    have hfetched (s : Slot) : s.fetched h' = s.fetched h := by simp only [Slot.fetched, hs.mems]
    simp only [StorageDisjoint, hs.slots, hfetched]
    exact hcall.disjoint
  binary := by
    simp only [KernArg.Written, hs.program, hs.numChunks, hs.kerns, hs.mems, hs.area]
    exact hcall.binary
  apart := by
    simp only [hs.program, hs.numChunks, hs.area]
    exact hcall.apart
  comm := by
    simp only [hs.program, hs.numChunks, hs.area, hs.comm, hs.kerns, hs.plan]
    exact hcall.comm

/-- A slot conveys what it conveyed, from the same memory. -/
theorem ReadSlot.Conveys.later {b : ByteMap} {arg : KernArg} {r : ReadSlot}
    (hr : ReadSlot.Conveys { h' with bytes := b } arg r) : ReadSlot.Conveys { h with bytes := b } arg r where
  known := hr.known
  argtype := hr.argtype
  index := hr.index
  value hval := by
    refine ⟨(hr.value hval).1, (hr.value hval).2.trans ?_⟩
    cases arg.val <;> rfl
  buffer hmem := by
    have hb := hr.buffer hmem
    simp only [hs.mems] at hb
    exact hb

theorem RemoteCall.later {c : Contract} {b b' : ByteMap} (hc : RemoteCall c h' b kernel b') :
    RemoteCall c h b kernel b' where
  returns := by
    obtain ⟨slots, outs, hconveys, hpost, hreturns⟩ := hc.returns
    have hargs : argList (h'.kerns kernel) = argList (h.kerns kernel) := by rw [hs.kerns]
    rw [hargs] at hconveys hreturns
    refine ⟨slots, outs, hconveys.imp fun _ _ => .later hs, hpost, hreturns.imp fun arg out hr => ?_⟩
    simpa only [KernArg.Returns, KernArg.Written, hs.mems] using hr
  frame x hx := by
    refine hc.frame x ?_
    simp only [KernArg.Written, hs.kerns, hs.mems]
    exact hx

end SameObjects

/-! ## Launches one after the other -/

/-- Launches of the kernels, one after the other: what they return, and the host and the device behind them. -/
def launchAll (cmdq : Ptr) : List Ptr → Host δ → δ → List ClInt × Host δ × δ
  | [], h, d => ([], h, d)
  | kernel :: kernels, h, d =>
    let out := clEnqueueNDRangeKernel cmdq kernel h d
    let rest := launchAll cmdq kernels out.host out.dev
    (out.ret :: rest.1, rest.2)

section Launches

variable {reset go : ByteMap → ByteMap} {h₀ h : Host Target} {prg : Ptr} {m : ByteMap} {c : Contract}

/-- What holds between the launches: the objects are the same, the binary is untouched, and what is marked as
loaded is on the target. -/
structure Between (h₀ h : Host Target) (prg : Ptr) (m : ByteMap) : Prop where
  objects : h₀.SameObjects h
  binary : ∀ i, i < (h₀.prgs prg).numChunks.toNat →
    ((h.prgs prg).chunkAt i).cell h = ((h₀.prgs prg).chunkAt i).cell h₀
  marks : Resident ProgramChunk.Skipped h prg m

/-- The areas are the same for a host between launches. -/
theorem Resident.between {keep : ProgramChunk → Prop} (hs : h₀.SameObjects h)
    (hb : ∀ i, i < (h₀.prgs prg).numChunks.toNat →
      ((h.prgs prg).chunkAt i).cell h = ((h₀.prgs prg).chunkAt i).cell h₀)
    (hkeep : ∀ i, keep ((h.prgs prg).chunkAt i) ↔ keep ((h₀.prgs prg).chunkAt i)) :
    Resident keep h prg m ↔ Resident keep h₀ prg m := by
  simp only [Resident, hs.numChunks, hkeep]
  refine forall_congr' fun i => forall_congr' fun hi => ?_
  rw [hb i hi]

theorem Host.SameObjects.rom (hs : h₀.SameObjects h) (i : Nat) :
    ((h.prgs prg).chunkAt i).Rom ↔ ((h₀.prgs prg).chunkAt i).Rom := by
  rw [ProgramChunk.Rom, ProgramChunk.Rom, (hs.area prg i).2.2.2]

theorem Contract.Kept.between (hkept : c.Kept go h₀ prg) (hs : h₀.SameObjects h)
    (hb : ∀ i, i < (h₀.prgs prg).numChunks.toNat →
      ((h.prgs prg).chunkAt i).cell h = ((h₀.prgs prg).chunkAt i).cell h₀) : c.Kept go h prg := by
  intro m hm
  rw [hs.comm]
  intro hmagic hdone hpre
  obtain ⟨m', hpolls, hpost, hrom⟩ :=
    hkept m ((Resident.between hs hb fun _ => Iff.rfl).mp hm) hmagic hdone hpre
  exact ⟨m', hpolls, hpost, (Resident.between hs hb hs.rom).mpr hrom⟩

/-- A call leaves the binary alone. -/
theorem RemoteCall.cell {kernel : Ptr} {b' : ByteMap} (hcall : Callable h kernel)
    (hc : RemoteCall c h h.bytes kernel b') {h' : Host Target} (hs : h.SameObjects h') (hbytes : h'.bytes = b')
    {i : Nat} (hi : i < (h.prgs (kernGetProgram h kernel)).numChunks.toNat) :
    ((h'.prgs (kernGetProgram h kernel)).chunkAt i).cell h' =
      ((h.prgs (kernGetProgram h kernel)).chunkAt i).cell h := by
  obtain ⟨hpaddr, hbuf, hsize, -⟩ := hs.area (kernGetProgram h kernel) i
  rw [ProgramChunk.cell, ProgramChunk.cell, ProgramChunk.data, ProgramChunk.data, hpaddr, hbuf, hsize, hbytes]
  refine congrArg (Prod.mk _) (ByteMap.load_congr fun x hx => hc.frame x fun arg harg hw hmem => ?_)
  exact Set.disjoint_left.mp ((hcall.binary i hi).2 arg harg hw) hmem hx

/-- One launch, between others. -/
theorem Between.launch (hbtw : Between h₀ h prg m) {cmdq kernel : Ptr}
    (hon : OnTarget reset go h₀ (ctxGetDevice h₀ (cmdqGetContext h₀ cmdq))) (hcall : Callable h₀ kernel)
    (hprg : kernGetProgram h₀ kernel = prg) (hkept : c.Kept go h₀ prg)
    (hreset : ∀ m, ∀ i, i < (h₀.prgs prg).numChunks.toNat → ((h₀.prgs prg).chunkAt i).Rom →
      m.Holds (((h₀.prgs prg).chunkAt i).cell h₀) → (reset m).Holds (((h₀.prgs prg).chunkAt i).cell h₀))
    (hpre : ∀ slots, List.Forall₂ (ReadSlot.Conveys { h₀ with bytes := h.bytes }) (argList (h₀.kerns kernel))
      slots → c.pre slots) :
    (clEnqueueNDRangeKernel cmdq kernel h ⟨m, false⟩).ret = clSuccess ∧
      RemoteCall c h₀ h.bytes kernel (clEnqueueNDRangeKernel cmdq kernel h ⟨m, false⟩).host.bytes ∧
      ∃ m', (clEnqueueNDRangeKernel cmdq kernel h ⟨m, false⟩).dev = ⟨m', false⟩ ∧
        Between h₀ (clEnqueueNDRangeKernel cmdq kernel h ⟨m, false⟩).host prg m' := by
  have hs := hbtw.objects
  have hon' : OnTarget reset go h (ctxGetDevice h (cmdqGetContext h cmdq)) := by
    have hdev : ctxGetDevice h (cmdqGetContext h cmdq) = ctxGetDevice h₀ (cmdqGetContext h₀ cmdq) := by
      rw [ctxGetDevice, ctxGetDevice, ctxIsValid, ctxIsValid, cmdqGetContext, cmdqGetContext, cmdqIsValid,
        cmdqIsValid, hs.ctxs, hs.cmdqs]
    rw [hdev]
    exact hon.congr hs.devs
  have hprg' : kernGetProgram h kernel = prg := hs.program.trans hprg
  have hcall' := hcall.later hs
  have hresident : Resident ProgramChunk.Skipped h (kernGetProgram h kernel) (reset m) := by
    rw [hprg']
    intro i hi hskip
    have hi₀ : i < (h₀.prgs prg).numChunks.toNat := by rwa [hs.numChunks] at hi
    rw [hbtw.binary i hi₀]
    exact hreset m i hi₀ ((hs.rom i).mp hskip.1) (hbtw.binary i hi₀ ▸ hbtw.marks i hi hskip)
  have hpre' (slots : List ReadSlot)
      (hslots : List.Forall₂ (ReadSlot.Conveys h) (argList (h.kerns kernel)) slots) : c.pre slots := by
    rw [hs.kerns] at hslots
    exact hpre slots (hslots.imp fun _ _ hr => ReadSlot.Conveys.later hs (b := h.bytes) hr)
  obtain ⟨hret, hremote, hsame, m', hdev, hrom⟩ :=
    hcall'.enqueue hon' (hprg' ▸ hkept.between hs hbtw.binary) hresident hpre'
  generalize clEnqueueNDRangeKernel cmdq kernel h ⟨m, false⟩ = out at hret hremote hsame hdev ⊢
  have hcell {i : Nat} (hi : i < (h.prgs prg).numChunks.toNat) :
      ((out.host.prgs prg).chunkAt i).cell out.host = ((h.prgs prg).chunkAt i).cell h :=
    hprg' ▸ hremote.cell hcall' hsame rfl (hprg'.symm ▸ hi)
  refine ⟨hret, hremote.later hs, m', hdev, hs.trans hsame, fun i hi => ?_, fun i hi hskip => ?_⟩
  · exact (hcell (by rwa [hs.numChunks])).trans (hbtw.binary i hi)
  · -- the marks are on readonly areas, all of which the program kept
    have hi' : i < (h.prgs prg).numChunks.toNat := by rwa [hsame.numChunks] at hi
    rw [hcell hi']
    rw [hprg'] at hrom
    exact hrom i hi' ((hsame.rom i).mp hskip.1)

end Launches

/-- **Launches are remote calls.** On a target whose program keeps a contract, and whose reset spares the
readonly areas, launches of callable kernels one after the other all succeed, and are calls one after the
other, as long as every call gives the program what it asks for. -/
theorem launchAll_remoteCalls (reset go : ByteMap → ByteMap) (c : Contract) (h : Host Target) (cmdq prg : Ptr)
    (kernels : List Ptr) (m : ByteMap)
    (hon : OnTarget reset go h (ctxGetDevice h (cmdqGetContext h cmdq)))
    (hcall : ∀ kernel ∈ kernels, Callable h kernel ∧ kernGetProgram h kernel = prg)
    (hkept : c.Kept go h prg)
    (hreset : ∀ m, ∀ i, i < (h.prgs prg).numChunks.toNat → ((h.prgs prg).chunkAt i).Rom →
      m.Holds (((h.prgs prg).chunkAt i).cell h) → (reset m).Holds (((h.prgs prg).chunkAt i).cell h))
    (hmarks : Resident ProgramChunk.Skipped h prg m) (hsafe : SafeCalls c h kernels h.bytes) :
    let out := launchAll cmdq kernels h ⟨m, false⟩
    (∀ r ∈ out.1, r = clSuccess) ∧ Run (RemoteCall c h) h.bytes kernels out.2.1.bytes := by
  have hrun (kernels : List Ptr) : ∀ (h' : Host Target) (m : ByteMap),
      (∀ kernel ∈ kernels, Callable h kernel ∧ kernGetProgram h kernel = prg) → Between h h' prg m →
      SafeCalls c h kernels h'.bytes →
        (∀ r ∈ (launchAll cmdq kernels h' ⟨m, false⟩).1, r = clSuccess) ∧
          Run (RemoteCall c h) h'.bytes kernels (launchAll cmdq kernels h' ⟨m, false⟩).2.1.bytes := by
    induction kernels with
    | nil => exact fun h' _ _ _ _ => ⟨fun r hr => absurd hr List.not_mem_nil, .nil h'.bytes⟩
    | cons kernel kernels ih =>
      intro h' m hcall hbtw hsafe
      obtain ⟨hpre, hnext⟩ := hsafe
      obtain ⟨hcallable, hprg⟩ := hcall kernel (List.mem_cons_self ..)
      obtain ⟨hret, hremote, m', hdev, hbtw'⟩ := hbtw.launch hon hcallable hprg hkept hreset hpre
      have hrest := ih _ m' (fun k hk => hcall k (List.mem_cons_of_mem _ hk)) hbtw' (hnext _ hremote)
      rw [← hdev] at hrest
      refine ⟨fun r hr => ?_, .cons hremote hrest.2⟩
      rcases List.mem_cons.mp hr with rfl | hr
      · exact hret
      · exact hrest.1 r hr
  exact hrun kernels h m hcall ⟨.of_prgs rfl rfl rfl rfl rfl rfl, fun _ _ => rfl, hmarks⟩ hsafe

/-! ## A program that keeps a contract -/

/-- The program that reads the slots, stores what `f` makes of them in their payloads, and says done. -/
def commProgram (comm : ProgramComm) (f : List ReadSlot → List (List UInt8)) (m : ByteMap) : ByteMap :=
  (m.storeAll (List.zipWith (fun r out => (r.addr + 16, out)) (readCommArea m comm.addr.toNat)
    (f (readCommArea m comm.addr.toNat)))).store (comm.addr.toNat + 8) [1, 0, 0, 0]

section Program

variable {comm : ProgramComm} {m m' : ByteMap}

/-- A header whose number `done` was overwritten with one. -/
theorem headerIn_done (hbelow : ∀ x, comm.addr.toNat ≤ x → x < comm.addr.toNat + 8 → m' x = m x)
    (hdone : m'.load (comm.addr.toNat + 8) 4 = [1, 0, 0, 0]) :
    (headerIn comm m').magic = (headerIn comm m).magic ∧ (headerIn comm m').done ≠ 0 := by
  constructor
  · have hfirst : (m'.load comm.addr.toNat 16).take 4 = (m.load comm.addr.toNat 16).take 4 := by
      apply List.ext_getElem?
      intro i
      simp only [List.getElem?_take, ByteMap.getElem?_load]
      split
      · rw [hbelow _ (by omega) (by omega)]
      · rfl
    exact congrArg (fun bs => UInt32.ofNat (leNat bs)) hfirst
  · have hthird : ((m'.load comm.addr.toNat 16).drop 8).take 4 = [1, 0, 0, 0] := by
      rw [← hdone]
      apply List.ext_getElem?
      intro i
      simp only [List.getElem?_take, List.getElem?_drop, ByteMap.getElem?_load]
      by_cases hi : i < 4
      · rw [if_pos hi, if_pos (by omega), if_pos hi, Nat.add_assoc]
      · rw [if_neg hi, if_neg hi]
    show UInt32.ofNat (leNat (((m'.load comm.addr.toNat 16).drop 8).take 4)) ≠ 0
    rw [hthird]
    decide

/-- The stores of the program keep apart from each other and from the header. -/
theorem commProgram_stores {outs : List (List UInt8)}
    (hsize : List.Forall₂ (fun r out => out.length = r.header.size.toNat) (readCommArea m comm.addr.toNat)
      outs) :
    (List.zipWith (fun r out => (r.addr + 16, out)) (readCommArea m comm.addr.toNat) outs).Pairwise
        (fun v w => Disjoint (span v.1 v.2.length) (span w.1 w.2.length)) ∧
      ∀ w ∈ List.zipWith (fun r out => (r.addr + 16, out)) (readCommArea m comm.addr.toNat) outs,
        comm.addr.toNat + 32 ≤ w.1 := by
  obtain ⟨hsorted, habove⟩ := readSlots_sorted m
    (CommAreaHeader.ofBytes (m.load comm.addr.toNat 16)).numArgs.toNat (comm.addr.toNat + 16)
  change ((readCommArea m comm.addr.toNat).map ReadSlot.range).Pairwise Disjoint at hsorted
  change ∀ r ∈ readCommArea m comm.addr.toNat, comm.addr.toNat + 16 ≤ r.addr at habove
  revert hsorted habove
  -- the list of the slots is all that matters
  generalize readCommArea m comm.addr.toNat = slots at hsize
  induction hsize with
  | nil => exact fun _ _ => ⟨.nil, by simp⟩
  | @cons r out slots outs hlen hsize ih =>
    intro hsorted habove
    rw [List.map_cons] at hsorted
    obtain ⟨hfirst, hsorted⟩ := List.pairwise_cons.mp hsorted
    obtain ⟨hpair, hhigh⟩ := ih hsorted fun r hr => habove r (List.mem_cons_of_mem _ hr)
    have hinside {r : ReadSlot} {out : List UInt8} (hlen : out.length = r.header.size.toNat) :
        span (r.addr + 16) out.length ⊆ r.range := by
      intro x hx
      simp only [ReadSlot.range, mem_span] at hx ⊢
      omega
    refine ⟨List.pairwise_cons.mpr ⟨fun w hw => ?_, hpair⟩, fun w hw => ?_⟩
    · rw [← List.map_uncurry_zip_eq_zipWith] at hw
      obtain ⟨⟨r', out'⟩, hmem, rfl⟩ := List.mem_map.mp hw
      have hr' := (List.forall₂_zip hsize hmem)
      exact (hfirst _ (List.mem_map_of_mem (List.of_mem_zip hmem).1)).mono (hinside hlen) (hinside hr')
    · rcases List.mem_cons.mp hw with rfl | hw
      · have := habove r (List.mem_cons_self ..)
        show comm.addr.toNat + 32 ≤ r.addr + 16
        omega
      · exact hhigh w hw

end Program

/-- This program comes to be done, with what `f` makes of the slots in their payloads, and writes nothing in
front of the communication area. -/
theorem commProgram_polls {comm : ProgramComm} {f : List ReadSlot → List (List UInt8)} {m : ByteMap}
    (hmagic : (headerIn comm m).magic = baremetalCrtCommMagic)
    (hlens : List.Forall₂ (fun r out => out.length = r.header.size.toNat) (readCommArea m comm.addr.toNat)
      (f (readCommArea m comm.addr.toNat))) :
    ∃ m', Target.polls (commProgram comm f) comm maxPolls m = (clSuccess, ⟨m', false⟩) ∧
      payloadsIn m' (readCommArea m comm.addr.toNat) = f (readCommArea m comm.addr.toNat) ∧
      ∀ x, x < comm.addr.toNat → m' x = m x := by
  obtain ⟨hpair, hhigh⟩ := commProgram_stores hlens
  generalize hws : List.zipWith (fun r out => (r.addr + 16, out)) (readCommArea m comm.addr.toNat)
    (f (readCommArea m comm.addr.toNat)) = ws at hpair hhigh
  have hgo : commProgram comm f m = (m.storeAll ws).store (comm.addr.toNat + 8) [1, 0, 0, 0] := by
    rw [commProgram, hws]
  have hbelow (x : Nat) (hx : x < comm.addr.toNat + 8) : commProgram comm f m x = m x := by
    rw [hgo, ByteMap.store_of_notMem _ (by simp only [mem_span]; omega)]
    refine ByteMap.storeAll_of_notMem m fun w hw => ?_
    have := hhigh w hw
    simp only [mem_span]
    omega
  have habove (x : Nat) (hx : comm.addr.toNat + 12 ≤ x) : commProgram comm f m x = m.storeAll ws x := by
    rw [hgo]
    refine ByteMap.store_of_notMem _ ?_
    simp only [mem_span, List.length_cons, List.length_nil]
    omega
  obtain ⟨hmagic', hdone'⟩ : (headerIn comm (commProgram comm f m)).magic = (headerIn comm m).magic ∧
      (headerIn comm (commProgram comm f m)).done ≠ 0 :=
    headerIn_done (fun x _ hx => hbelow x hx) (by rw [hgo]; exact ByteMap.load_store ..)
  refine ⟨commProgram comm f m, ?_, ?_, fun x hx => hbelow x (by omega)⟩
  · rw [show maxPolls = 9999 + 1 from rfl, Target.polls, if_neg (not_not.mpr (hmagic'.trans hmagic)),
      if_pos hdone']
  · -- the payloads are those that were stored
    rw [payloadsIn, ← List.forall₂_eq_eq_eq, List.forall₂_map_left_iff]
    refine List.forall₂_iff_zip.mpr ⟨hlens.length_eq, fun {r out} hmem => ?_⟩
    have hw : (r.addr + 16, out) ∈ ws := by
      rw [← hws, ← List.map_uncurry_zip_eq_zipWith]
      exact List.mem_map.mpr ⟨(r, out), hmem, rfl⟩
    rw [← List.forall₂_zip hlens hmem]
    refine (ByteMap.load_congr fun x hx => habove x ?_).trans (ByteMap.load_storeAll m hpair _ hw)
    have := hhigh _ hw
    simp only [mem_span] at hx
    omega

/-- Whatever `f` is, this program keeps the contract to compute it, with its readonly areas in front of the
communication area. -/
theorem commProgram_kept {h : Host δ} {prg : Ptr} {pre : List ReadSlot → Prop}
    {f : List ReadSlot → List (List UInt8)}
    (hsize : ∀ slots, pre slots → List.Forall₂ (fun r out => out.length = r.header.size.toNat) slots (f slots))
    (hrom : ∀ i, i < (h.prgs prg).numChunks.toNat → ((h.prgs prg).chunkAt i).Rom →
      ((h.prgs prg).chunkAt i).paddr.toNat + ((h.prgs prg).chunkAt i).size.toNat ≤
        (h.prgs prg).comm.addr.toNat) :
    Contract.Kept ⟨pre, fun slots outs => outs = f slots⟩ (commProgram (h.prgs prg).comm f) h prg := by
  intro m hm hmagic _ hpre
  obtain ⟨m', hpolls, hout, hbelow⟩ := commProgram_polls hmagic (hsize _ hpre)
  refine ⟨m', hpolls, hout, fun i hi hro => ?_⟩
  refine (ByteMap.load_congr fun x hx => hbelow x ?_).trans (hm i hi trivial)
  have := hrom i hi hro
  rw [show (((h.prgs prg).chunkAt i).cell h).2.length = ((h.prgs prg).chunkAt i).size.toNat from
    ByteMap.length_load .., mem_span] at hx
  simp only [ProgramChunk.cell] at hx
  omega

/-- Add the bytes of the value to the bytes of the memory object. -/
def addSlots : List ReadSlot → List (List UInt8)
  | [name, value, buf] => [name.payload, value.payload, List.zipWith (· + ·) buf.payload value.payload]
  | slots => slots.map ReadSlot.payload

/-- Four bytes each, and payloads as the headers say. -/
def addContract : Contract where
  pre slots := ∃ name value buf, slots = [name, value, buf] ∧ value.header.size = 4 ∧ buf.header.size = 4 ∧
    ∀ r ∈ slots, r.payload.length = r.header.size.toNat
  post slots outs := outs = addSlots slots

/-- A host with a kernel that adds a value of four bytes at `300` to a memory object at `200`. -/
def addHost : Host Target :=
  .single (fun x => UInt8.ofNat x) (targetOps id (commProgram ⟨0x80001000, 0x1000⟩ addSlots))
    (textProgram ⟨0x80001000, 0x1000⟩) mixedKernel fun _ => ⟨openclIcdMagic, clMemReadWrite, 4, 200⟩

theorem addHost_callable : Callable addHost 1 where
  program := rfl
  fits := ⟨_, rfl⟩
  sourced := by decide
  stored := by decide
  layout := by decide
  count := by decide
  disjoint := by
    show List.Pairwise _ [_, _, _]
    have hne : Disjoint (span 300 4) (span 200 4) := (span_disjoint_of_le (by decide)).symm
    simp only [List.pairwise_cons, List.mem_cons, List.not_mem_nil, or_false, forall_eq_or_imp,
      forall_eq, false_imp_iff, implies_true, List.Pairwise.nil, and_true]
    exact ⟨⟨fun _ => Set.empty_disjoint _, fun _ => Set.empty_disjoint _⟩, fun _ => hne⟩
  binary i hi := by
    obtain rfl : i = 0 := Nat.lt_one_iff.mp hi
    refine ⟨by decide, fun arg harg hw => ?_⟩
    have hptr : (addHost.mems arg.val.handle).ptr = 200 := rfl
    rw [hptr]
    exact (span_disjoint_of_le (by decide)).symm
  apart i j hi hj hij := absurd ((Nat.lt_one_iff.mp hi).trans (Nat.lt_one_iff.mp hj).symm) hij
  comm i hi p hp := by
    obtain rfl : i = 0 := Nat.lt_one_iff.mp hi
    have habove : ∀ p ∈ (commPlan addHost ⟨0x80001000, 0x1000⟩ mixedKernel).1, 0x80000010 ≤ p.paddr.toNat := by
      decide
    exact (span_disjoint_of_le (habove p hp)).symm

/-- The payloads that it computes are as long as those that it gets. -/
theorem addSlots_length {slots : List ReadSlot} (hpre : addContract.pre slots) :
    List.Forall₂ (fun r out => out.length = r.header.size.toNat) slots (addSlots slots) := by
  obtain ⟨name, value, buf, rfl, hvalue, hbuf, hlen⟩ := hpre
  have hn := hlen name (by simp)
  have hv := hlen value (by simp)
  have hb := hlen buf (by simp)
  rw [hvalue] at hv
  rw [hbuf] at hb
  refine .cons hn (.cons (by rw [hv, hvalue]) (.cons ?_ .nil))
  rw [List.length_zipWith, hb, hv, hbuf]
  rfl

/-- The slots of a value of four bytes and of a memory object with four that is sent are as the contract
asks. -/
theorem addContract_pre {h : Host δ} {name value buf : KernArg} (hn : name.argtype = commArgVal)
    (hv : value.argtype = commArgVal) (hvsize : value.size = 4) (hb : buf.argtype = commArgMem)
    (hbsize : (h.mems buf.val.handle).size = 4) (hread : memCanRead (h.mems buf.val.handle) = true)
    {slots : List ReadSlot} (hslots : List.Forall₂ (ReadSlot.Conveys h) [name, value, buf] slots) :
    addContract.pre slots := by
  rcases hslots with - | ⟨hname, - | ⟨hvalue, - | ⟨hbuf, ⟨⟩⟩⟩⟩
  obtain ⟨hnsize', hname⟩ := hname.value hn
  obtain ⟨hvsize', hvalue⟩ := hvalue.value hv
  obtain ⟨hbsize', hbuf⟩ := hbuf.buffer hb
  refine ⟨_, _, _, rfl, hvsize'.trans hvsize, hbsize'.trans hbsize, fun r hr => ?_⟩
  simp only [List.mem_cons, List.not_mem_nil, or_false] at hr
  rcases hr with rfl | rfl | rfl
  · rw [hname, Host.length_read, hnsize']
  · rw [hvalue, Host.length_read, hvsize']
  · rw [hbuf hread, ByteMap.length_load, hbsize']

/-- The slots of its arguments are as the contract asks. -/
theorem addHost_pre (b : ByteMap) {slots : List ReadSlot}
    (hslots : List.Forall₂ (ReadSlot.Conveys { addHost with bytes := b }) (argList mixedKernel) slots) :
    addContract.pre slots :=
  addContract_pre (h := { addHost with bytes := b }) rfl rfl rfl rfl rfl
    (show memCanRead (addHost.mems 9) = true by decide) hslots

/-- Its program keeps the contract. -/
theorem addHost_kept : addContract.Kept (commProgram ⟨0x80001000, 0x1000⟩ addSlots) addHost 1 := by
  show Contract.Kept ⟨addContract.pre, fun slots outs => outs = addSlots slots⟩
    (commProgram (addHost.prgs 1).comm addSlots) addHost 1
  apply commProgram_kept
  · exact fun _ => addSlots_length
  · intro i hi _
    obtain rfl : i = 0 := Nat.lt_one_iff.mp hi
    decide

/-- It adds twice. -/
theorem addHost_remoteCalls :
    let out := launchAll 1 [1, 1] addHost ⟨fun _ => 0, false⟩
    (∀ r ∈ out.1, r = clSuccess) ∧ Run (RemoteCall addContract addHost) addHost.bytes [1, 1] out.2.1.bytes := by
  apply launchAll_remoteCalls id (commProgram ⟨0x80001000, 0x1000⟩ addSlots) addContract addHost 1 1 [1, 1]
    fun _ => 0
  · exact ⟨rfl, rfl⟩
  · intro kernel hk
    obtain rfl : kernel = 1 := by simpa using hk
    exact ⟨addHost_callable, rfl⟩
  · exact addHost_kept
  · exact fun _ _ _ _ h => h
  · intro i hi hskip
    obtain rfl : i = 0 := Nat.lt_one_iff.mp hi
    exact absurd hskip (by decide)
  · exact ⟨fun _ => addHost_pre _, fun _ _ => ⟨fun _ => addHost_pre _, fun _ _ => trivial⟩⟩

end BaremetalCrt
