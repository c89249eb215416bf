/-
# BaremetalCrt.Launch.Decode — the communication area as the device finds it.

The program on the device knows one address.  `readCommArea` is its walk: the number of slots from the
area header, then a header of sixteen bytes and a payload each, at multiples of eight.  What it
recovers at the first run is the kernel name and the arguments, unless the host counted past the
`uint32_t` of the header.

`Conveys` says what is recovered: that the slots that are read convey the arguments, in their order and from
ranges that have nothing in common. The count is the only thing that can go wrong: the name is counted with
the arguments in a field of 32 bits, so that a kernel with `2 ^ 32 - 1` arguments announces none.
-/
import BaremetalCrt.Launch.DataFlow

namespace BaremetalCrt

open Lib

variable {δ : Type} {h : Host δ} {mem : δ → ByteMap}

/-! ## The reader -/

/-- A slot as it is read: where it starts, its header, and the payload behind it. -/
structure ReadSlot where
  addr : Nat
  header : CommArgHeader
  payload : List UInt8

/-- The addresses of a slot as the device reads it, its header included. -/
def ReadSlot.range (r : ReadSlot) : Set Nat := span r.addr (16 + r.header.size.toNat)

/-- `n` slots from `x` on, as a reader finds them: each header tells where its slot ends, and the next one
is behind that, aligned to eight. -/
def readSlots (m : ByteMap) : Nat → Nat → List ReadSlot
  | 0, _ => []
  | n + 1, x =>
    let header := CommArgHeader.ofBytes (m.load x 16)
    ⟨x, header, m.load (x + 16) header.size.toNat⟩ ::
      readSlots m n (alignUp 8 (x + 16 + header.size.toNat))

/-- The slots of the area at `addr`; the header of the area tells how many there are. -/
def readCommArea (m : ByteMap) (addr : Nat) : List ReadSlot :=
  readSlots m (CommAreaHeader.ofBytes (m.load addr 16)).numArgs.toNat (addr + 16)

/-- Whatever the memory holds, the slots are read in increasing order. -/
theorem readSlots_sorted (m : ByteMap) (n : Nat) : ∀ x,
    ((readSlots m n x).map ReadSlot.range).Pairwise Disjoint ∧ ∀ r ∈ readSlots m n x, x ≤ r.addr := by
  induction n with
  | zero => exact fun x => ⟨List.Pairwise.nil, by simp [readSlots]⟩
  | succ n ih =>
    intro x
    obtain ⟨hsorted, habove⟩ := ih (alignUp 8 (x + 16 + (CommArgHeader.ofBytes (m.load x 16)).size.toNat))
    have hup := le_alignUp (show 0 < 8 by decide)
      (x + 16 + (CommArgHeader.ofBytes (m.load x 16)).size.toNat)
    rw [readSlots, List.map_cons]
    refine ⟨List.pairwise_cons.mpr ⟨fun s hs => ?_, hsorted⟩, fun r hr => ?_⟩
    · obtain ⟨r, hr, rfl⟩ := List.mem_map.mp hs
      have hle := habove r hr
      apply span_disjoint_of_le
      show x + (16 + (CommArgHeader.ofBytes (m.load x 16)).size.toNat) ≤ r.addr
      omega
    · rcases List.mem_cons.mp hr with rfl | hr
      · exact le_rfl
      · have hle := habove r hr
        omega

/-! ## What a slot conveys -/

/-- What the device reads for `arg` is `arg`: of a value its bytes on the host, of a memory object its
storage if the device may read it. -/
structure ReadSlot.Conveys (h : Host δ) (arg : KernArg) (r : ReadSlot) : Prop where
  known : arg.argtype = commArgVal ∨ arg.argtype = commArgMem
  argtype : r.header.argtype = arg.argtype
  index : r.header.index = arg.index
  value : arg.argtype = commArgVal →
    r.header.size = arg.size ∧ r.payload = h.read arg.val arg.size.toNat
  buffer : arg.argtype = commArgMem →
    r.header.size = (h.mems arg.val.handle).size ∧
      (memCanRead (h.mems arg.val.handle) = true →
        r.payload = h.bytes.load (h.mems arg.val.handle).ptr (h.mems arg.val.handle).size.toNat)

/-- **The communication area describes itself**: who knows its address reads the kernel name and then
the arguments, from ranges that have nothing in common. -/
structure SelfDescribing (h : Host δ) (k : ClKernel) (m : ByteMap) (addr : Nat) : Prop where
  slots : ∃ name args, readCommArea m addr = name :: args ∧
    name.header = ⟨commArgVal, 0xffffffff, k.name.sizeWithNul⟩ ∧ name.payload = k.name.bytes ++ [0] ∧
    List.Forall₂ (ReadSlot.Conveys h) k.args args
  disjoint : (span addr 16 :: (readCommArea m addr).map ReadSlot.range).Pairwise Disjoint

/-- A slot with the header and the payload that are sent for an argument conveys it. -/
theorem conveys_of_source {arg : KernArg} {buf : CPtr} {size : UInt64} {need : Bool} {x : Nat}
    {payload : List UInt8} (hsrc : enqueueSource h arg = .ok (buf, size, need))
    (hpayload : need = true → payload = h.read buf size.toNat) :
    ReadSlot.Conveys h arg ⟨x, ⟨arg.argtype, arg.index, size⟩, payload⟩ := by
  have hvm : commArgVal ≠ commArgMem := by decide
  rcases enqueueSource_eq_ok.mp hsrc with ⟨hval, hsrc'⟩ | ⟨hmem, -, hsrc'⟩
  · obtain ⟨rfl, rfl, rfl⟩ : buf = arg.val ∧ size = arg.size ∧ need = true := by simpa using hsrc'
    exact ⟨Or.inl hval, rfl, rfl, fun _ => ⟨rfl, hpayload rfl⟩, fun hmem => absurd (hval ▸ hmem) hvm⟩
  · obtain ⟨rfl, rfl, rfl⟩ : buf = .addr (h.mems arg.val.handle).ptr ∧
        size = (h.mems arg.val.handle).size ∧ need = memCanRead (h.mems arg.val.handle) := by
      simpa using hsrc'
    exact ⟨Or.inr hmem, rfl, rfl, fun hval => absurd (hval.symm.trans hmem) hvm,
      fun _ => ⟨rfl, hpayload⟩⟩

/-- Where the transfers of the slots are in the memory, the reader finds the arguments. -/
theorem readSlots_conveys {m : ByteMap} : ∀ {args : List KernArg} {paddr : UInt64},
    (argSlots h args paddr).map Slot.arg = args →
    extent 16 8 ((argSlots h args paddr).map fun s => s.size.toNat) paddr.toNat < 2 ^ 64 →
    (∀ p ∈ (argSlots h args paddr).flatMap Slot.puts, m.Holds (p.cell h)) →
      List.Forall₂ (ReadSlot.Conveys h) args (readSlots m args.length paddr.toNat)
  | [], _, _, _, _ => .nil
  | arg :: args, paddr, hargs, hlt, hholds => by
    rcases hsrc : enqueueSource h arg with e | ⟨buf, size, need⟩
    · simp [argSlots, hsrc] at hargs
    · simp only [argSlots, hsrc, List.map_cons, extent, List.flatMap_cons] at hargs hlt hholds
      have hrest := le_extent 16 (show 0 < 8 by decide)
        ((argSlots h args (nextSlot paddr size)).map fun s => s.size.toNat)
        (alignUp 8 (paddr.toNat + 16 + size.toNat))
      have hup := le_alignUp (show 0 < 8 by decide) (paddr.toNat + 16 + size.toNat)
      have hnext : (nextSlot paddr size).toNat = alignUp 8 (paddr.toNat + 16 + size.toNat) :=
        nextSlot_toNat (by omega)
      have hpay : (payloadAddr paddr).toNat = paddr.toNat + 16 := payloadAddr_toNat_of_lt (by omega)
      -- the header of this slot
      have hhead := hholds ⟨.argHeader, paddr,
        .own (CommArgHeader.toBytes ⟨arg.argtype, arg.index, size⟩), sizeofCommArgHeader⟩
        (List.mem_append_left _ (List.mem_cons_self ..))
      have hread : m.load paddr.toNat 16 = CommArgHeader.toBytes ⟨arg.argtype, arg.index, size⟩ := by
        have hdata : Put.data h ⟨.argHeader, paddr,
            .own (CommArgHeader.toBytes ⟨arg.argtype, arg.index, size⟩), sizeofCommArgHeader⟩ =
              CommArgHeader.toBytes ⟨arg.argtype, arg.index, size⟩ :=
          Host.read_own h (CommArgHeader.length_toBytes _)
        rw [ByteMap.Holds, Put.cell, hdata, CommArgHeader.length_toBytes] at hhead
        exact hhead
      -- its payload, if it was sent
      have hpayload : need = true → m.load (paddr.toNat + 16) size.toNat = h.read buf size.toNat := by
        rintro rfl
        have hput := hholds ⟨.argPayload, payloadAddr paddr, buf, size⟩
          (List.mem_append_left _ (by simp [Slot.puts, slotPuts]))
        rw [ByteMap.Holds, Put.cell, Put.data, Host.length_read, hpay] at hput
        exact hput
      rw [List.length_cons, readSlots, hread, CommArgHeader.ofBytes_toBytes]
      refine .cons (conveys_of_source hsrc hpayload) ?_
      rw [← hnext]
      refine readSlots_conveys (List.cons.inj hargs).2 ?_ fun p hp => hholds p (List.mem_append_right _ hp)
      rwa [hnext]

section Area

variable {kernel : Ptr} {m : ByteMap}
  (hholds : ∀ p ∈ (commPlan h (h.prgs (kernGetProgram h kernel)).comm (h.kerns kernel)).1,
    m.Holds (p.cell h))
include hholds

/-- The reader takes the number of slots that the host counted, in 32 bits. -/
theorem readCommArea_eq :
    readCommArea m (h.prgs (kernGetProgram h kernel)).comm.addr.toNat =
      readSlots m ((h.kerns kernel).numArgs + 1).toNat
        ((h.prgs (kernGetProgram h kernel)).comm.addr.toNat + 16) := by
  have hput := hholds _ (List.mem_cons_self ..)
  have hdata : (areaPut (h.prgs (kernGetProgram h kernel)).comm (h.kerns kernel)).data h =
      (initialHeader (h.kerns kernel).numArgs).toBytes :=
    Host.read_own h (CommAreaHeader.length_toBytes _)
  rw [ByteMap.Holds, Put.cell, hdata, CommAreaHeader.length_toBytes] at hput
  rw [readCommArea, show m.load (h.prgs (kernGetProgram h kernel)).comm.addr.toNat 16 = _ from hput,
    CommAreaHeader.ofBytes_toBytes]
  rfl

/-- A number that does not fit is read as zero. -/
theorem SelfDescribing.numArgs_ne
    (hread : SelfDescribing h (h.kerns kernel) m (h.prgs (kernGetProgram h kernel)).comm.addr.toNat) :
    (h.kerns kernel).numArgs ≠ 0xffffffff := by
  obtain ⟨name, args, hslots, -⟩ := hread.slots
  intro hmax
  rw [readCommArea_eq hholds, hmax] at hslots
  cases hslots

variable (hsums : layoutEnd h kernel < 2 ^ 64) {paddr : UInt64}
  (hend : (commPlan h (h.prgs (kernGetProgram h kernel)).comm (h.kerns kernel)).2 = .ok paddr)
  (hcount : (h.kerns kernel).numArgs ≠ 0xffffffff)
include hsums hend hcount

/-- The name and the arguments, one slot each. -/
theorem readCommArea_conveys :
    List.Forall₂ (ReadSlot.Conveys h) (argList (h.kerns kernel))
      (readCommArea m (h.prgs (kernGetProgram h kernel)).comm.addr.toNat) := by
  have hlength : ((h.kerns kernel).numArgs + 1).toNat = (argList (h.kerns kernel)).length := by
    have hlt := (h.kerns kernel).numArgs.toNat_lt
    have hne : (h.kerns kernel).numArgs.toNat ≠ 0xffffffff := fun heq => hcount (UInt32.toNat_inj.mp heq)
    have hone : (1 : UInt32).toNat = 1 := rfl
    rw [argList, List.length_cons, (h.kerns kernel).args_length, UInt32.toNat_add]
    exact Nat.mod_eq_of_lt (by omega)
  have hstart := argStart_toNat hsums
  rw [layoutEnd, ← hstart] at hsums
  obtain ⟨hputs, hargs⟩ := argPlan_slots hend
  rw [readCommArea_eq hholds, hlength, ← hstart]
  refine readSlots_conveys hargs hsums fun p hp => hholds p (List.mem_cons_of_mem _ ?_)
  rw [hputs]
  exact hp

theorem selfDescribing_of_holds :
    SelfDescribing h (h.kerns kernel) m (h.prgs (kernGetProgram h kernel)).comm.addr.toNat where
  slots := by
    have hall := readCommArea_conveys hholds hsums hend hcount
    rcases hread : readCommArea m (h.prgs (kernGetProgram h kernel)).comm.addr.toNat with _ | ⟨name, args⟩
    · rw [hread] at hall
      cases hall
    rw [hread] at hall
    obtain ⟨hname, hrest⟩ := List.forall₂_cons.mp hall
    obtain ⟨hsize, hpayload⟩ := hname.value rfl
    refine ⟨name, args, rfl, ?_, ?_, hrest⟩
    · obtain ⟨addr, ⟨argtype, index, size⟩, payload⟩ := name
      obtain rfl : argtype = commArgVal := hname.argtype
      obtain rfl : index = -1 := hname.index
      obtain rfl : size = (h.kerns kernel).name.sizeWithNul := hsize
      rfl
    · -- the size of the name fits in 64 bits
      rw [hpayload]
      apply Host.read_own
      show _ = (UInt64.ofNat ((h.kerns kernel).name.bytes.length + 1)).toNat
      rw [UInt64.toNat_ofNat_of_lt' (h.kerns kernel).name.fits, List.length_append, List.length_singleton]
  disjoint := by
    rw [readCommArea_eq hholds]
    obtain ⟨hsorted, habove⟩ := readSlots_sorted m ((h.kerns kernel).numArgs + 1).toNat
      ((h.prgs (kernGetProgram h kernel)).comm.addr.toNat + 16)
    refine List.pairwise_cons.mpr ⟨fun s hs => ?_, hsorted⟩
    obtain ⟨r, hr, rfl⟩ := List.mem_map.mp hs
    exact span_disjoint_of_le (habove r hr)

end Area

/-- At the first run everything that was sent to the area is there, and all of it was sent. -/
theorem holds_of_firstRun {cmdq kernel : Ptr} {d : δ}
    (he : h.Exact (ctxGetDevice h (cmdqGetContext h cmdq)) mem) (hsums : layoutEnd h kernel < 2 ^ 64)
    {r : Event δ} (hr : earliest Event.isRun (clEnqueueNDRangeKernel cmdq kernel h d).trace = some r) :
    (∀ p ∈ (commPlan h (h.prgs (kernGetProgram h kernel)).comm (h.kerns kernel)).1,
      (mem r.devBefore).Holds (p.cell h)) ∧
    ∃ paddr, (commPlan h (h.prgs (kernGetProgram h kernel)).comm (h.kerns kernel)).2 = .ok paddr := by
  obtain ⟨⟨-, -, hok, paddr, hend⟩, hbefore⟩ := (firstRun_launch cmdq kernel h d).1 r hr
  refine ⟨?_, paddr, hend⟩
  rw [hbefore]
  exact commPlan_holds he hsums hok hend

/-- **The communication area describes itself**, at the first run of every launch, exactly when the
number of slots fits its field. -/
theorem clEnqueueNDRangeKernel_selfDescribing_iff (cmdq kernel : Ptr) (h : Host δ) (d : δ)
    (mem : δ → ByteMap) (he : h.Exact (ctxGetDevice h (cmdqGetContext h cmdq)) mem)
    (hsums : layoutEnd h kernel < 2 ^ 64) {r : Event δ}
    (hr : earliest Event.isRun (clEnqueueNDRangeKernel cmdq kernel h d).trace = some r) :
    SelfDescribing h (h.kerns kernel) (mem r.devBefore)
        (h.prgs (kernGetProgram h kernel)).comm.addr.toNat ↔
      (h.kerns kernel).numArgs ≠ 0xffffffff := by
  obtain ⟨hholds, paddr, hend⟩ := holds_of_firstRun he hsums hr
  exact ⟨fun hread => hread.numArgs_ne hholds, selfDescribing_of_holds hholds hsums hend⟩

theorem flow_selfDescribing :
    ∃ r, earliest Event.isRun
        (clEnqueueNDRangeKernel 1 1 (flowHost clMemReadWrite) fun _ => 0xaa).trace = some r ∧
      SelfDescribing (flowHost clMemReadWrite) mixedKernel r.devBefore 0x80001000 := by
  have hran : (earliest Event.isRun
      (clEnqueueNDRangeKernel 1 1 (flowHost clMemReadWrite) fun _ => 0xaa).trace).isSome = true := by
    decide +kernel
  obtain ⟨r, hr⟩ := Option.isSome_iff_exists.mp hran
  exact ⟨r, hr, (clEnqueueNDRangeKernel_selfDescribing_iff 1 1 (flowHost clMemReadWrite) (fun _ => 0xaa) id
    (flowHost_exact _) (by decide) hr).mpr (by decide)⟩

/-! ## The launch that the device cannot read -/

/-- Values that fit are accepted. -/
theorem argPlan_values {comm : ProgramComm}
    (hcomm : comm.addr.toNat + comm.size.toNat < 2 ^ 64) :
    ∀ {args : List KernArg} {paddr : UInt64}, (∀ a ∈ args, a.argtype = commArgVal) →
      extent 16 8 (args.map fun a => a.size.toNat) paddr.toNat < comm.addr.toNat + comm.size.toNat →
      ∃ paddr', (argPlan h comm args paddr).2 = .ok paddr'
  | [], paddr, _, _ => ⟨paddr, rfl⟩
  | arg :: args, paddr, hvals, hlt => by
    have hsrc : enqueueSource h arg = .ok (arg.val, arg.size, true) :=
      enqueueSource_eq_ok.mpr (Or.inl ⟨hvals arg (List.mem_cons_self ..), rfl⟩)
    rw [List.map_cons, extent] at hlt
    have hrest := le_extent 16 (show 0 < 8 by decide) (args.map fun a => a.size.toNat)
      (alignUp 8 (paddr.toNat + 16 + arg.size.toNat))
    have hup := le_alignUp (show 0 < 8 by decide) (paddr.toNat + 16 + arg.size.toNat)
    have hpay : (payloadAddr paddr).toNat = paddr.toNat + 16 := payloadAddr_toNat_of_lt (by omega)
    have hnext : (nextSlot paddr arg.size).toNat = alignUp 8 (paddr.toNat + 16 + arg.size.toNat) :=
      nextSlot_toNat (by omega)
    have hfits : ¬ ExceedsComm comm paddr arg.size := by
      show ¬ comm.addr + comm.size ≤ payloadAddr paddr + arg.size
      rw [UInt64.le_iff_toNat_le, UInt64.toNat_add, UInt64.toNat_add, hpay, Nat.mod_eq_of_lt hcomm,
        Nat.mod_eq_of_lt (by omega)]
      omega
    rw [argPlan_fits hsrc hfits]
    exact argPlan_values hcomm (fun a ha => hvals a (List.mem_cons_of_mem _ ha)) (hnext ▸ hlt)

theorem commPlan_values {comm : ProgramComm} {k : ClKernel}
    (hcomm : comm.addr.toNat + comm.size.toNat < 2 ^ 64) (hvals : ∀ a ∈ argList k, a.argtype = commArgVal)
    (hfits : extent 16 8 ((argList k).map fun a => a.size.toNat) (argStart comm).toNat <
      comm.addr.toNat + comm.size.toNat) : ∃ paddr, (commPlan h comm k).2 = .ok paddr :=
  argPlan_values hcomm hvals hfits

/-- What is sent for values comes from somewhere if they do. -/
theorem commPlan_sourced {comm : ProgramComm} {k : ClKernel} {paddr : UInt64}
    (hend : (commPlan h comm k).2 = .ok paddr)
    (hvals : ∀ a ∈ argList k, a.argtype = commArgVal ∧ a.val.isNull = false) :
    ∀ p ∈ (commPlan h comm k).1, p.buf.isNull = false := by
  obtain ⟨hputs, hargs⟩ := argPlan_slots hend
  intro p hp
  rcases List.mem_cons.mp hp with rfl | hp
  · rfl
  rw [hputs] at hp
  obtain ⟨s, hs, hps⟩ := List.mem_flatMap.mp hp
  obtain ⟨hval, hnull⟩ := hvals s.arg (hargs ▸ List.mem_map_of_mem hs)
  rcases argSlots_wellFormed s hs with ⟨-, hbuf, -, hsent⟩ | ⟨hmem, -⟩
  · rw [Slot.puts, slotPuts, hsent, hbuf] at hps
    simp only [if_true, List.mem_cons, List.not_mem_nil, or_false] at hps
    rcases hps with rfl | rfl
    · rfl
    · exact hnull
  · rw [hval] at hmem
    exact absurd hmem (by decide)

/-- On a board with memory everything that comes from somewhere goes through. -/
theorem transfer_memoryOps {h : Host ByteMap} {dev : Ptr} (run : ByteMap → ByteMap)
    (hvalid : devIsValid h dev = clSuccess) (hops : (h.devs dev).ops = some (memoryOps run))
    {ps : List Put} (hps : ∀ p ∈ ps, p.buf.isNull = false) (m : ByteMap) :
    (transfer h dev ps m).ret = .ok () := by
  induction ps generalizing m with
  | nil => rfl
  | cons p ps ih =>
    have hret : (putEvent h dev p m).ret = clSuccess := by
      show (devWriteMemRet h dev p.paddr p.buf p.len m).1 = clSuccess
      unfold devWriteMemRet devMemRet
      rw [if_neg (not_not.mpr hvalid), hops, hps p (List.mem_cons_self ..)]
      show (if false = true ∧ p.len ≠ 0 then _ else if p.len = 0 then _ else _ : ClInt × ByteMap).1 = _
      rw [if_neg (by simp)]
      split <;> rfl
    rw [transfer_cons_ok hret]
    exact ih (fun q hq => hps q (List.mem_cons_of_mem _ hq)) _

/-- The slots of values have their sizes. -/
theorem argSlots_values : ∀ {args : List KernArg} {paddr : UInt64},
    (∀ a ∈ args, a.argtype = commArgVal) →
    (argSlots h args paddr).map (fun s => s.size.toNat) = args.map fun a => a.size.toNat
  | [], _, _ => rfl
  | arg :: args, paddr, hvals => by
    have hsrc : enqueueSource h arg = .ok (arg.val, arg.size, true) :=
      enqueueSource_eq_ok.mpr (Or.inl ⟨hvals arg (List.mem_cons_self ..), rfl⟩)
    simp only [argSlots, hsrc, List.map_cons]
    rw [argSlots_values fun a ha => hvals a (List.mem_cons_of_mem _ ha)]

/-- `n` arguments, each a value of four bytes; a scale for the size of an area. -/
@[irreducible] def numbered (n : Nat) : List KernArg :=
  (List.range n).map fun i => ⟨commArgVal, UInt32.ofNat i, 4, .addr 300⟩

theorem length_numbered (n : Nat) : (numbered n).length = n := by
  rw [numbered, List.length_map, List.length_range]

theorem mem_numbered {n : Nat} {arg : KernArg} (ha : arg ∈ numbered n) :
    arg.argtype = commArgVal ∧ arg.size.toNat ≤ 4 ∧ arg.val.isNull = false := by
  rw [numbered] at ha
  obtain ⟨i, -, rfl⟩ := List.mem_map.mp ha
  exact ⟨rfl, le_rfl, rfl⟩

/-- A kernel with as many arguments as it can have. -/
def crowdedKernel : ClKernel :=
  ⟨openclIcdMagic, 1, plainKernel.name, 0xffffffff, numbered 0xffffffff, length_numbered _⟩

/-- The communication area has room for all of them. -/
def crowdedHost : Host ByteMap :=
  .single (fun x => UInt8.ofNat x) (memoryOps id) (textProgram ⟨0x80001000, 0x10000000000⟩) crowdedKernel
    fun _ => ⟨0, 0, 0, 0⟩

theorem mem_crowdedKernel {arg : KernArg} (ha : arg ∈ argList crowdedKernel) :
    arg.argtype = commArgVal ∧ arg.size.toNat ≤ 4 ∧ arg.val.isNull = false := by
  rcases List.mem_cons.mp ha with rfl | ha
  · exact ⟨rfl, by decide, rfl⟩
  · exact mem_numbered ha

theorem length_crowdedKernel : (argList crowdedKernel).length = 0xffffffff + 1 := by
  have hlen : crowdedKernel.args.length = 0xffffffff := length_numbered _
  rw [argList, List.length_cons, hlen]

theorem crowded_extent :
    extent 16 8 ((argList crowdedKernel).map fun a => a.size.toNat) 0x80001010 < 0x10080001000 := by
  have hsizes : ∀ s ∈ (argList crowdedKernel).map fun a => a.size.toNat, s ≤ 4 := by
    intro s hs
    obtain ⟨a, ha, rfl⟩ := List.mem_map.mp hs
    exact (mem_crowdedKernel ha).2.1
  have hle := extent_le 16 8 _ hsizes 0x80001010
  rw [List.length_map, length_crowdedKernel] at hle
  omega

theorem crowded_layout : layoutEnd crowdedHost 1 < 2 ^ 64 := by
  have hsizes : (launchSlots crowdedHost 1).map (fun s => s.size.toNat) =
      (argList crowdedKernel).map fun a => a.size.toNat :=
    argSlots_values fun a ha => (mem_crowdedKernel ha).1
  have haddr : (crowdedHost.prgs (kernGetProgram crowdedHost 1)).comm.addr.toNat + 16 = 0x80001010 := rfl
  rw [layoutEnd, hsizes, haddr]
  exact lt_trans crowded_extent (by decide)

theorem crowded_plan :
    ∃ paddr, (commPlan crowdedHost ⟨0x80001000, 0x10000000000⟩ crowdedKernel).2 = .ok paddr := by
  have hstart : (argStart ⟨0x80001000, 0x10000000000⟩).toNat = 0x80001010 := by decide
  have hroom : (0x80001000 : UInt64).toNat + (0x10000000000 : UInt64).toNat = 0x10080001000 := by decide
  have hlt : (0x80001000 : UInt64).toNat + (0x10000000000 : UInt64).toNat < 2 ^ 64 := by
    rw [hroom]
    decide
  have hfits : extent 16 8 ((argList crowdedKernel).map fun a => a.size.toNat)
      (argStart ⟨0x80001000, 0x10000000000⟩).toNat <
        (0x80001000 : UInt64).toNat + (0x10000000000 : UInt64).toNat := by
    rw [hstart, hroom]
    exact crowded_extent
  exact commPlan_values hlt (fun a ha => (mem_crowdedKernel ha).1) hfits

theorem crowded_sent : (launchSent crowdedHost 1 1 (fun _ => 0)).ret = .ok () := by
  have hall : ∀ p ∈ launchPuts crowdedHost (kernGetProgram crowdedHost 1) 1, p.buf.isNull = false := by
    intro p hp
    rw [launchPuts] at hp
    rcases List.mem_append.mp hp with hp | hp
    · obtain ⟨j, -, hj, -, rfl⟩ := (mem_chunkPuts _ 0).mp hp
      obtain rfl : j = 0 := Nat.lt_one_iff.mp hj
      rfl
    · obtain ⟨paddr, hend⟩ := crowded_plan
      exact commPlan_sourced hend (fun a ha => ⟨(mem_crowdedKernel ha).1, (mem_crowdedKernel ha).2.2⟩) p hp
  have hdev : ctxGetDevice crowdedHost (cmdqGetContext crowdedHost 1) = 1 := rfl
  rw [launchSent, hdev]
  exact transfer_memoryOps id rfl rfl hall _

theorem crowded_uploads : Uploads crowdedHost 1 1 (fun _ => 0) := ⟨rfl, rfl, crowded_sent, crowded_plan⟩

/-- The area of the crowded kernel is accepted, and the device is told that it has no slots. -/
theorem crowded_unread :
    layoutEnd crowdedHost 1 < 2 ^ 64 ∧
      ∃ r, earliest Event.isRun (clEnqueueNDRangeKernel 1 1 crowdedHost fun _ => 0).trace = some r ∧
        ¬ SelfDescribing crowdedHost crowdedKernel r.devBefore 0x80001000 := by
  obtain ⟨r, hr⟩ := (firstRun_launch 1 1 crowdedHost fun _ => 0).2 crowded_uploads
  have hexact : crowdedHost.Exact 1 id := by
    intro ops hops
    obtain rfl : memoryOps id = ops := Option.some.inj hops
    exact memoryOps_exact id
  have hmax : (crowdedHost.kerns 1).numArgs = 0xffffffff := rfl
  have hunread : ¬ SelfDescribing crowdedHost (crowdedHost.kerns 1) r.devBefore
      (crowdedHost.prgs (kernGetProgram crowdedHost 1)).comm.addr.toNat := fun hread =>
    hread.numArgs_ne (holds_of_firstRun hexact crowded_layout hr).1 hmax
  exact ⟨crowded_layout, r, hr, hunread⟩

end BaremetalCrt
