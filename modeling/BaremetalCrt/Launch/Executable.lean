/-
# BaremetalCrt.Launch.Executable — launches of the program in a file.

What a call needs is said of the file here, and not of the objects that the loader makes of it: its segments
lie apart from each other and from the communication area, and the program in them keeps a contract
(`ElfFile.Serves`).  The loader leaves the program of the file (`ProgramOf`), and a launch of one of its
kernels whose arguments are ready is a call of it.  Headers of segments that are not loaded have empty
chunks, which are sent and do nothing.
-/
import BaremetalCrt.Elf.Accept
import BaremetalCrt.Launch.Call

namespace BaremetalCrt

open Lib

variable {δ : Type}

/-! ## The file -/

namespace ElfFile

variable (e : ElfFile)

/-- Program header `i` is that of a segment that is loaded. -/
def IsLoad (i : Nat) : Prop := i < e.ehdr (·.ePhnum) ∧ e.phdr i (·.pType) = ptLoad.toNat

/-- A segment that is loaded and that the program does not write to. -/
def IsRom (i : Nat) : Prop := e.IsLoad i ∧ e.phdr i (·.pFlags) &&& pfW.toNat = 0

/-- Where segment `i` goes, and the bytes of the file that go there. -/
def segment (i : Nat) : Nat × List UInt8 :=
  (e.phdr i (·.pPaddr), (e.bytes.drop (e.phdr i (·.pOffset))).take (e.phdr i (·.pFilesz)))

/-- The segments that `keep` is about are in the memory. -/
def InMemory (keep : Nat → Prop) (m : ByteMap) : Prop := ∀ i, keep i → m.Holds (e.segment i)

/-- The last section of its name is the communication area. -/
def IsCommArea (comm : ProgramComm) : Prop :=
  ∃ i < e.ehdr (·.eShnum), e.Named i commAreaSection ∧
    (∀ j < e.ehdr (·.eShnum), i < j → ¬ e.Named j commAreaSection) ∧
    comm.addr.toNat = e.shdr i (·.shAddr) ∧ comm.size.toNat = e.shdr i (·.shSize)

/-- The program of the file can be called by the contract, on a processor that does `reset` and `go` to its
memory: its segments lie apart from each other and from the communication area; a reset spares those that are
not written, and so does the program, which comes to be done within the polls of a launch. -/
structure Serves (c : Contract) (reset go : ByteMap → ByteMap) (comm : ProgramComm) : Prop where
  area : e.IsCommArea comm
  bound : comm.addr.toNat + comm.size.toNat < 2 ^ 64
  apart : ∀ i j, e.IsLoad i → e.IsLoad j → i ≠ j →
    Disjoint (span (e.segment i).1 (e.segment i).2.length) (span (e.segment j).1 (e.segment j).2.length)
  aside : ∀ i, e.IsLoad i →
    Disjoint (span comm.addr.toNat comm.size.toNat) (span (e.segment i).1 (e.segment i).2.length)
  spared : ∀ m i, e.IsRom i → m.Holds (e.segment i) → (reset m).Holds (e.segment i)
  kept : ∀ m, e.InMemory e.IsLoad m → (headerIn comm m).magic = baremetalCrtCommMagic →
    (headerIn comm m).done = 0 → c.pre (readCommArea m comm.addr.toNat) →
      ∃ m', Target.polls go comm maxPolls m = (clSuccess, ⟨m', false⟩) ∧
        c.post (readCommArea m comm.addr.toNat) (payloadsIn m' (readCommArea m comm.addr.toNat)) ∧
        e.InMemory e.IsRom m'

variable {e}

/-- There is one communication area. -/
theorem IsCommArea.unique {comm comm' : ProgramComm} (h : e.IsCommArea comm) (h' : e.IsCommArea comm') :
    comm = comm' := by
  obtain ⟨i, hi, hname, hlast, haddr, hsize⟩ := h
  obtain ⟨j, hj, hname', hlast', haddr', hsize'⟩ := h'
  have hij : i = j := by
    rcases Nat.lt_trichotomy i j with hlt | heq | hlt
    · exact absurd hname' (hlast j hj hlt)
    · exact heq
    · exact absurd hname (hlast' i hi hlt)
  subst hij
  exact congrArg₂ ProgramComm.mk (UInt64.toNat_inj.mp (haddr.trans haddr'.symm))
    (UInt64.toNat_inj.mp (hsize.trans hsize'.symm))

/-- The bytes of a segment are in a file that is complete. -/
theorem Complete.length_segment (hfile : e.Complete) {i : Nat} (hi : e.IsLoad i) :
    (e.segment i).2.length = e.phdr i (·.pFilesz) := by
  have hin := (hfile.loads i hi.1 hi.2).1
  rw [segment, List.length_take, List.length_drop]
  by_cases hzero : e.phdr i (·.pFilesz) = 0
  · rw [hzero, Nat.zero_min]
  · have hfits := hin hzero
    omega

end ElfFile

/-! ## The program of a file -/

/-- The program is that of the file, whose bytes are at `buf`: the chunk of a segment points to its bytes, and
the other chunks are empty. -/
structure ProgramOf (e : ElfFile) (buf : Ptr) (p : ClProgram) : Prop where
  numChunks : p.numChunks = (e.ehdr (·.ePhnum) : Int)
  comm : e.IsCommArea p.comm
  paddr : ∀ i, e.IsLoad i → (p.chunkAt i).paddr.toNat = e.phdr i (·.pPaddr)
  size : ∀ i, e.IsLoad i → (p.chunkAt i).size.toNat = e.phdr i (·.pFilesz)
  buf : ∀ i, e.IsLoad i → e.phdr i (·.pFilesz) ≠ 0 → (p.chunkAt i).buf = buf + e.phdr i (·.pOffset)
  readonly : ∀ i, e.IsLoad i → ((p.chunkAt i).readonly = true ↔ e.phdr i (·.pFlags) &&& pfW.toNat = 0)
  empty : ∀ i, ¬ e.IsLoad i → (p.chunkAt i).size = 0

section Load

variable {b : Binary} {cls : ElfClass} {a : Allocs} {s : Loading}

/-- A load that succeeds had all the memory that it asked for. -/
theorem allocs_of_ok (hmagic : s.prg.magic = openclIcdMagic) (hok : (prgElfLoad b a s).1 = .ok ()) :
    a = .all := by
  have hload := prgElfLoad_apply (b := b) a s hmagic
  obtain ⟨elfInfo, phs, chunks, shs⟩ := a
  rw [hload] at hok
  cases elfInfo with
  | false => cases hok
  | true =>
    rw [if_neg (by simp)] at hok
    split at hok
    · cases hok
    next cls _ =>
      split at hok
      · have hph := prgElfReadPh_apply (b := b) ⟨true, phs, chunks, shs⟩ cls (s.touch (b.headTouches cls))
          hmagic
        have hshs := prgElfReadShs_apply (b := b) ⟨true, phs, chunks, shs⟩ cls
          (b.chunked cls (s.touch (b.headTouches cls))) hmagic
        cases phs <;> cases chunks
        · rw [if_pos rfl] at hph
          rw [Exec.bind_error hph] at hok
          cases hok
        · rw [if_pos rfl] at hph
          rw [Exec.bind_error hph] at hok
          cases hok
        · rw [if_neg (by simp), if_pos rfl] at hph
          rw [Exec.bind_error hph] at hok
          cases hok
        · rw [if_neg (by simp), if_neg (by simp)] at hph
          rw [Exec.bind_ok hph, hshs] at hok
          cases shs with
          | false =>
            rw [if_pos rfl] at hok
            cases hok
          | true => rfl
      · cases hok

/-- **The loader leaves the program of the file**, of which nothing is marked as loaded on the device. -/
theorem prgElfLoad_programOf (hmagic : s.prg.magic = openclIcdMagic) (hident : (b.asElf cls).Identified)
    (hfile : (b.asElf cls).Complete) (hok : (prgElfLoad b a s).1 = .ok ()) :
    ProgramOf (b.asElf cls) b.buf (prgElfLoad b a s).2.prg ∧
      ∀ i, ((prgElfLoad b a s).2.prg.chunkAt i).loaded = false := by
  obtain rfl := allocs_of_ok hmagic hok
  have hlen : (b.asElf cls).bytes.length = b.len.toNat := b.length_file
  have hsize := hlen ▸ hfile.header
  have hfive : 5 ≤ b.len.toNat := le_trans (show 5 ≤ cls.ehdr.size by cases cls <;> decide) hsize
  have hcls := (cls?_iff hfive).mpr hident
  have hheader : b.HeaderOk cls := by
    by_contra hno
    refine prgElfLoad_refused hmagic (fun cls' hcls' => ?_) hok
    rwa [Option.some.inj (hcls'.symm.trans hcls)]
  have hprg := (prgElfLoad_header hmagic hcls hheader).2 hok
  have hloaded := (prgElfLoad_complete hmagic hfive hident hfile).2 hok
  have hof : (b.header cls).Of (b.asElf cls) := header_of hsize
  have hphs : (b.prgHeaders cls).length = (b.asElf cls).ehdr (·.ePhnum) := by
    rw [Binary.length_prgHeaders, hof.ePhnum]
  generalize prgElfLoad b .all s = out at hprg hloaded
  have hchunk (i : Nat) (hi : i < (b.prgHeaders cls).length) : out.2.prg.chunkAt i =
      if (b.asElf cls).phdr i (·.pType) = ptLoad.toNat then
        { (b.prgHeaders cls)[i].chunk b with index := i } else .zero := by
    have hi' : i < (chunkList b 0 (b.prgHeaders cls)).length := by rwa [length_chunkList]
    have htype : (b.prgHeaders cls)[i].pType = ptLoad ↔ (b.asElf cls).phdr i (·.pType) = ptLoad.toNat := by
      rw [← UInt32.toNat_inj, (prgHeader_of hfile hheader i hi).pType]
    rw [hprg]
    show (chunkList b 0 (b.prgHeaders cls)).getD i .zero = _
    rw [List.getD_eq_getElem?_getD, List.getElem?_eq_getElem hi', Option.getD_some,
      getElem_chunkList _ 0 i hi hi', Nat.zero_add]
    exact if_congr htype rfl rfl
  have hload {i : Nat} (hi : (b.asElf cls).IsLoad i) : ∃ hi' : i < (b.prgHeaders cls).length,
      out.2.prg.chunkAt i = { (b.prgHeaders cls)[i].chunk b with index := i } :=
    ⟨hphs ▸ hi.1, by rw [hchunk i (hphs ▸ hi.1), if_pos hi.2]⟩
  have hof (i : Nat) (hi : (b.asElf cls).IsLoad i) : (b.asElf cls).ChunkOf b.mem i (out.2.prg.chunkAt i) := by
    obtain ⟨hi', hat⟩ := hload hi
    obtain ⟨hin, hsmall⟩ := hfile.loads i hi.1 hi.2
    rw [hat]
    exact chunk_of (prgHeader_of hfile hheader i hi') rfl (hlen ▸ hin) hsmall
  have hout (i : Nat) (hi : ¬ i < (b.prgHeaders cls).length) : out.2.prg.chunkAt i = .zero := by
    rw [hprg]
    show (chunkList b 0 (b.prgHeaders cls)).getD i .zero = .zero
    exact List.getD_eq_default _ _ (by rw [length_chunkList]; omega)
  refine ⟨⟨hloaded.numChunks, hloaded.comm, fun i hi => (hof i hi).paddr, fun i hi => (hof i hi).size,
    fun i hi hne => ?_, fun i hi => (hof i hi).readonly, fun i hi => ?_⟩, fun i => ?_⟩
  · obtain ⟨hi', hat⟩ := hload hi
    have hin := (hfile.loads i hi.1 hi.2).1 hne
    have hoff := (prgHeader_of hfile hheader i hi').pOffset
    rw [hat]
    show b.ptr (b.prgHeaders cls)[i].pOffset = _
    rw [Binary.ptr_eq (by omega), hoff]
  · by_cases hlt : i < (b.prgHeaders cls).length
    · rw [hchunk i hlt, if_neg fun htype => hi ⟨hphs ▸ hlt, htype⟩]
      rfl
    · rw [hout i hlt]
      rfl
  · by_cases hlt : i < (b.prgHeaders cls).length
    · rw [hchunk i hlt]
      split <;> rfl
    · rw [hout i hlt]
      rfl

end Load

/-! ## Its areas -/

/-- A part of what is loaded is loaded by itself. -/
theorem ByteMap.load_part (m : ByteMap) {a n off k : Nat} (h : off + k ≤ n) :
    m.load (a + off) k = ((m.load a n).drop off).take k := by
  apply List.ext_getElem?
  intro i
  rw [ByteMap.getElem?_load, List.getElem?_take]
  split
  · rw [List.getElem?_drop, ByteMap.getElem?_load, if_pos (by omega), Nat.add_assoc]
  · rfl

section Areas

variable {e : ElfFile} {buf prg : Ptr} {h : Host δ} (hprg : ProgramOf e buf (h.prgs prg)) (hfile : e.Complete)
include hprg hfile

/-- The chunk of a segment has the bytes of the file, as long as they are there. -/
theorem ProgramOf.cell (hbytes : h.bytes.load buf e.bytes.length = e.bytes) {i : Nat} (hi : e.IsLoad i) :
    ((h.prgs prg).chunkAt i).cell h = e.segment i := by
  have hin := (hfile.loads i hi.1 hi.2).1
  refine Prod.ext (hprg.paddr i hi) ?_
  show h.bytes.load ((h.prgs prg).chunkAt i).buf ((h.prgs prg).chunkAt i).size.toNat = _
  rw [hprg.size i hi, ElfFile.segment]
  by_cases hzero : e.phdr i (·.pFilesz) = 0
  · rw [hzero, ByteMap.load_zero, List.take_zero]
  · rw [hprg.buf i hi hzero, ByteMap.load_part _ (hin hzero), hbytes]

/-- The areas of the program are the segments. -/
theorem ProgramOf.resident_iff (hbytes : h.bytes.load buf e.bytes.length = e.bytes) {keep : ProgramChunk → Prop}
    {m : ByteMap} : Resident keep h prg m ↔
      e.InMemory (fun i => e.IsLoad i ∧ keep ((h.prgs prg).chunkAt i)) m := by
  have hnum : (h.prgs prg).numChunks.toNat = e.ehdr (·.ePhnum) := by
    rw [hprg.numChunks, Int.toNat_natCast]
  constructor
  · rintro hres i ⟨hi, hkeep⟩
    rw [← hprg.cell hfile hbytes hi]
    exact hres i (hnum ▸ hi.1) hkeep
  · intro hin i _ hkeep
    by_cases hi : e.IsLoad i
    · rw [hprg.cell hfile hbytes hi]
      exact hin i ⟨hi, hkeep⟩
    · -- an empty chunk is there anyway
      show m.load _ (h.bytes.load _ ((h.prgs prg).chunkAt i).size.toNat).length =
        h.bytes.load _ ((h.prgs prg).chunkAt i).size.toNat
      rw [hprg.empty i hi]
      rfl

omit hfile in
theorem ProgramOf.inMemory_rom {m : ByteMap} :
    e.InMemory (fun i => e.IsLoad i ∧ ((h.prgs prg).chunkAt i).Rom) m ↔ e.InMemory e.IsRom m := by
  refine forall_congr' fun i => imp_congr_left ?_
  exact ⟨fun hi => ⟨hi.1, (hprg.readonly i hi.1).mp hi.2⟩, fun hi => ⟨hi.1, (hprg.readonly i hi.1).mpr hi.2⟩⟩

/-- A file that keeps the contract is a program that keeps it. -/
theorem ProgramOf.kept {c : Contract} {reset go : ByteMap → ByteMap}
    (hbytes : h.bytes.load buf e.bytes.length = e.bytes) (hserves : e.Serves c reset go (h.prgs prg).comm) :
    c.Kept go h prg := by
  intro m hm hmagic hdone hpre
  have hload : e.InMemory e.IsLoad m := fun i hi => (hprg.resident_iff hfile hbytes).mp hm i ⟨hi, trivial⟩
  obtain ⟨m', hpolls, hpost, hrom⟩ := hserves.kept m hload hmagic hdone hpre
  exact ⟨m', hpolls, hpost, (hprg.resident_iff hfile hbytes).mpr (hprg.inMemory_rom.mpr hrom)⟩

/-- The bytes of a chunk are bytes of the file. -/
theorem ProgramOf.span_subset (i : Nat) :
    span ((h.prgs prg).chunkAt i).buf ((h.prgs prg).chunkAt i).size.toNat ⊆ span buf e.bytes.length := by
  by_cases hi : e.IsLoad i
  · have hin := (hfile.loads i hi.1 hi.2).1
    rw [hprg.size i hi]
    by_cases hzero : e.phdr i (·.pFilesz) = 0
    · rw [hzero, span_zero]
      exact Set.empty_subset _
    · have hfits := hin hzero
      rw [hprg.buf i hi hzero, span_subset_iff (Nat.pos_of_ne_zero hzero)]
      omega
  · rw [hprg.empty i hi]
    exact (span_zero _).trans_subset (Set.empty_subset _)

end Areas

/-! ## The communication area -/

/-- An accepted layout that does not wrap ends in the area. -/
theorem argPlan_below {h : Host δ} {comm : ProgramComm} (hbound : comm.addr.toNat + comm.size.toNat < 2 ^ 64) :
    ∀ {args : List KernArg} {paddr end' : UInt64}, (argPlan h comm args paddr).2 = .ok end' →
      extent 16 8 ((argSlots h args paddr).map fun s => s.size.toNat) paddr.toNat < 2 ^ 64 →
        (args ≠ [] → paddr.toNat + 16 ≤ comm.addr.toNat + comm.size.toNat) ∧
          ∀ p ∈ (argPlan h comm args paddr).1,
            p.paddr.toNat + p.len.toNat ≤ comm.addr.toNat + comm.size.toNat
  | [], _, _, _, _ => ⟨fun hne => absurd rfl hne, fun _ hp => absurd hp List.not_mem_nil⟩
  | arg :: args, paddr, _, hend, hlt => by
    rcases hsrc : enqueueSource h arg with e | ⟨buf, size, need⟩
    · rw [argPlan_error hsrc] at hend
      cases hend
    by_cases hex : ExceedsComm comm paddr size
    · rw [argPlan_exceeds hsrc hex] at hend
      cases hend
    rw [argPlan_fits hsrc hex] at hend ⊢
    simp only [argSlots, hsrc, List.map_cons, extent] at hlt
    have hrest := le_extent 16 (show 0 < 8 by decide)
      ((argSlots h args (nextSlot paddr size)).map fun s => s.size.toNat)
      (alignUp 8 (paddr.toNat + 16 + size.toNat))
    have hup := le_alignUp (show 0 < 8 by decide) (paddr.toNat + 16 + size.toNat)
    have hnext : (nextSlot paddr size).toNat = alignUp 8 (paddr.toNat + 16 + size.toNat) :=
      nextSlot_toNat (by omega)
    have hpay : (payloadAddr paddr).toNat = paddr.toNat + 16 := payloadAddr_toNat_of_lt (by omega)
    have hslot : paddr.toNat + 16 + size.toNat < comm.addr.toNat + comm.size.toNat := by
      have hsum : (payloadAddr paddr + size).toNat = paddr.toNat + 16 + size.toNat := by
        rw [UInt64.toNat_add, hpay]
        exact Nat.mod_eq_of_lt (by omega)
      have hcomm : (comm.addr + comm.size).toNat = comm.addr.toNat + comm.size.toNat := by
        rw [UInt64.toNat_add]
        exact Nat.mod_eq_of_lt hbound
      have hnot : ¬ (comm.addr + comm.size).toNat ≤ (payloadAddr paddr + size).toNat :=
        fun hle => hex (UInt64.le_iff_toNat_le.mpr hle)
      omega
    have h16 : sizeofCommArgHeader.toNat = 16 := rfl
    rw [← hnext] at hlt
    refine ⟨fun _ => by omega, fun p hp => ?_⟩
    rcases List.mem_append.mp hp with hp | hp
    · cases need with
      | false =>
        obtain rfl : p = _ := by simpa [slotPuts] using hp
        show paddr.toNat + sizeofCommArgHeader.toNat ≤ _
        omega
      | true =>
        rcases List.mem_cons.mp hp with rfl | hp
        · show paddr.toNat + sizeofCommArgHeader.toNat ≤ _
          omega
        · obtain rfl : p = _ := List.mem_singleton.mp hp
          show (payloadAddr paddr).toNat + size.toNat ≤ _
          omega
    · exact (argPlan_below hbound hend hlt).2 p hp

/-- So everything that is sent for the arguments is sent into the area. -/
theorem commPlan_inside {h : Host δ} {kernel : Ptr} {end' : UInt64}
    (hbound : (h.prgs (kernGetProgram h kernel)).comm.addr.toNat +
      (h.prgs (kernGetProgram h kernel)).comm.size.toNat < 2 ^ 64) (hlayout : layoutEnd h kernel < 2 ^ 64)
    (hend : (commPlan h (h.prgs (kernGetProgram h kernel)).comm (h.kerns kernel)).2 = .ok end') :
    ∀ p ∈ (commPlan h (h.prgs (kernGetProgram h kernel)).comm (h.kerns kernel)).1,
      p.Inside (h.prgs (kernGetProgram h kernel)).comm := by
  have hstart := argStart_toNat hlayout
  rw [layoutEnd, ← hstart] at hlayout
  obtain ⟨hroom, hbelow⟩ := argPlan_below hbound hend hlayout
  have habove := (slots_sorted hlayout).2
  replace hroom := hroom (List.cons_ne_nil _ _)
  intro p hp x hx
  obtain ⟨hlow, hhigh⟩ := mem_span.mp hx
  rcases List.mem_cons.mp hp with rfl | hp
  · change (h.prgs (kernGetProgram h kernel)).comm.addr.toNat ≤ x at hlow
    change x < (h.prgs (kernGetProgram h kernel)).comm.addr.toNat + 16 at hhigh
    exact ⟨hlow, by omega⟩
  · have hp' := hp
    rw [(argPlan_slots hend).1] at hp'
    have := hbelow p hp
    have := habove p hp'
    exact ⟨by omega, by omega⟩

/-! ## A launch -/

/-- The arguments of the kernel are ready: they are accepted and come from somewhere, their layout does not
wrap, their number fits its field, and what is read back has storage of its own, apart from the file, which
is the `len` bytes at `buf`. -/
structure ArgsReady (h : Host δ) (buf : Ptr) (len : Nat) (kernel : Ptr) : Prop where
  fits : ∃ paddr, (commPlan h (h.prgs (kernGetProgram h kernel)).comm (h.kerns kernel)).2 = .ok paddr
  sourced : ∀ p ∈ (commPlan h (h.prgs (kernGetProgram h kernel)).comm (h.kerns kernel)).1, ¬ p.Refused
  stored : ∀ s ∈ launchSlots h kernel, ¬ (s.get h).Refused
  layout : layoutEnd h kernel < 2 ^ 64
  count : (h.kerns kernel).numArgs ≠ 0xffffffff
  disjoint : StorageDisjoint h kernel
  apart : ∀ arg ∈ argList (h.kerns kernel), arg.Written h →
    Disjoint (span (h.mems arg.val.handle).ptr (h.mems arg.val.handle).size.toNat) (span buf len)

/-! ### It can be checked -/

/-- The address and the length of the host storage of a slot. -/
def Slot.room (s : Slot) : Nat × Nat :=
  match s.buf with
  | .addr p => (p, s.size.toNat)
  | .own _ => (0, 0)

theorem Slot.storage_eq (s : Slot) : s.storage = span s.room.1 s.room.2 := by
  unfold Slot.storage Slot.room
  cases s.buf with
  | addr p => rfl
  | own bytes => exact (span_zero 0).symm

instance (s t : Slot) : Decidable (Disjoint s.storage t.storage) :=
  decidable_of_iff (Disjoint (span s.room.1 s.room.2) (span t.room.1 t.room.2))
    (by rw [s.storage_eq, t.storage_eq])

instance (h : Host δ) (kernel : Ptr) : Decidable (StorageDisjoint h kernel) :=
  inferInstanceAs (Decidable (List.Pairwise _ _))

theorem exists_ok_iff {ε α : Type} {x : Except ε α} : (∃ a, x = .ok a) ↔ x.isOk = true := by
  cases x <;> simp [Except.isOk, Except.toBool]

instance (h : Host δ) (buf : Ptr) (len : Nat) (kernel : Ptr) : Decidable (ArgsReady h buf len kernel) :=
  decidable_of_iff
    ((commPlan h (h.prgs (kernGetProgram h kernel)).comm (h.kerns kernel)).2.isOk = true ∧
      (∀ p ∈ (commPlan h (h.prgs (kernGetProgram h kernel)).comm (h.kerns kernel)).1, ¬ p.Refused) ∧
      (∀ s ∈ launchSlots h kernel, ¬ (s.get h).Refused) ∧ layoutEnd h kernel < 2 ^ 64 ∧
      (h.kerns kernel).numArgs ≠ 0xffffffff ∧ StorageDisjoint h kernel ∧
      ∀ arg ∈ argList (h.kerns kernel), arg.Written h →
        Disjoint (span (h.mems arg.val.handle).ptr (h.mems arg.val.handle).size.toNat) (span buf len))
    ⟨fun ⟨hfits, hsourced, hstored, hlayout, hcount, hdisjoint, hapart⟩ =>
      ⟨exists_ok_iff.mpr hfits, hsourced, hstored, hlayout, hcount, hdisjoint, hapart⟩,
      fun ⟨hfits, hsourced, hstored, hlayout, hcount, hdisjoint, hapart⟩ =>
        ⟨exists_ok_iff.mp hfits, hsourced, hstored, hlayout, hcount, hdisjoint, hapart⟩⟩

section Launch

variable {e : ElfFile} {buf prg kernel : Ptr} {c : Contract} {reset go : ByteMap → ByteMap}

/-- The program is that of the file whatever is marked as loaded. -/
theorem ProgramOf.later {h h' : Host δ} (hprg : ProgramOf e buf (h.prgs prg)) (hs : h.SameObjects h') :
    ProgramOf e buf (h'.prgs prg) where
  numChunks := by rw [hs.numChunks, hprg.numChunks]
  comm := by rw [hs.comm]; exact hprg.comm
  paddr i hi := by rw [(hs.area prg i).1, hprg.paddr i hi]
  size i hi := by rw [(hs.area prg i).2.2.1, hprg.size i hi]
  buf i hi hne := by rw [(hs.area prg i).2.1, hprg.buf i hi hne]
  readonly i hi := by rw [(hs.area prg i).2.2.2]; exact hprg.readonly i hi
  empty i hi := by rw [(hs.area prg i).2.2.1, hprg.empty i hi]

/-- What is said of the file makes a kernel callable whose arguments are ready. -/
theorem ProgramOf.callable {h : Host δ} (hprg : ProgramOf e buf (h.prgs prg)) (hfile : e.Complete)
    (hvalid : prgIsValid h prg = clSuccess) (hbuf : buf ≠ 0) (hserves : e.Serves c reset go (h.prgs prg).comm)
    (hkernel : kernGetProgram h kernel = prg) (hready : ArgsReady h buf e.bytes.length kernel) :
    Callable h kernel := by
  subst hkernel
  have hplace (i : Nat) (hi : e.IsLoad i) :
      span ((h.prgs (kernGetProgram h kernel)).chunkAt i).paddr.toNat
        ((h.prgs (kernGetProgram h kernel)).chunkAt i).size.toNat =
      span (e.segment i).1 (e.segment i).2.length := by
    rw [hprg.paddr i hi, hprg.size i hi, hfile.length_segment hi]
    rfl
  have hnone (i : Nat) (hi : ¬ e.IsLoad i) :
      span ((h.prgs (kernGetProgram h kernel)).chunkAt i).paddr.toNat
        ((h.prgs (kernGetProgram h kernel)).chunkAt i).size.toNat = ∅ := by
    rw [hprg.empty i hi]
    exact span_zero _
  refine ⟨hvalid, hready.fits, hready.sourced, hready.stored, hready.layout, hready.count, hready.disjoint,
    fun i _ => ⟨?_, fun arg harg hw => ?_⟩, fun i j _ _ hij => ?_, fun i _ p hp => ?_⟩
  · by_cases hi : e.IsLoad i
    · by_cases hzero : e.phdr i (·.pFilesz) = 0
      · exact .inr (UInt32.toNat_inj.mp ((hprg.size i hi).trans hzero))
      · refine .inl ?_
        rw [hprg.buf i hi hzero]
        exact fun hsum => hbuf (Nat.eq_zero_of_add_eq_zero_right hsum)
    · exact .inr (hprg.empty i hi)
  · exact (hready.apart arg harg hw).mono_right (hprg.span_subset hfile i)
  · by_cases hi : e.IsLoad i
    · by_cases hj : e.IsLoad j
      · rw [hplace i hi, hplace j hj]
        exact hserves.apart i j hi hj hij
      · rw [hnone j hj]
        exact Set.disjoint_empty _
    · rw [hnone i hi]
      exact Set.empty_disjoint _
  · by_cases hi : e.IsLoad i
    · obtain ⟨_, hend⟩ := hready.fits
      rw [hplace i hi]
      exact (hserves.aside i hi).mono_left (commPlan_inside hserves.bound hready.layout hend p hp)
    · rw [hnone i hi]
      exact Set.disjoint_empty _

/-- **A launch is a call of the program in the file**, and leaves what is marked as loaded in the memory. -/
theorem ProgramOf.launch {h : Host Target} {cmdq : Ptr} {m : ByteMap} (hprg : ProgramOf e buf (h.prgs prg))
    (hfile : e.Complete) (hvalid : prgIsValid h prg = clSuccess) (hbuf : buf ≠ 0)
    (hserves : e.Serves c reset go (h.prgs prg).comm) (hbytes : h.bytes.load buf e.bytes.length = e.bytes)
    (hkernel : kernGetProgram h kernel = prg) (hready : ArgsReady h buf e.bytes.length kernel)
    (hon : OnTarget reset go h (ctxGetDevice h (cmdqGetContext h cmdq)))
    (hm : e.InMemory (fun i => e.IsLoad i ∧ ((h.prgs prg).chunkAt i).Skipped) m)
    (hpre : ∀ slots, List.Forall₂ (ReadSlot.Conveys h) (argList (h.kerns kernel)) slots → c.pre slots) :
    let out := clEnqueueNDRangeKernel cmdq kernel h ⟨m, false⟩
    out.ret = clSuccess ∧ RemoteCall c h h.bytes kernel out.host.bytes ∧ h.SameObjects out.host ∧
      ∃ m', out.dev = ⟨m', false⟩ ∧
        e.InMemory (fun i => e.IsLoad i ∧ ((out.host.prgs prg).chunkAt i).Skipped) m' := by
  have hcall := hprg.callable hfile hvalid hbuf hserves hkernel hready
  have hkept := hprg.kept hfile hbytes hserves
  -- what is marked is not written, and a reset spares it
  have hreset : Resident ProgramChunk.Skipped h prg (reset m) := by
    refine (hprg.resident_iff hfile hbytes).mpr fun i hi => ?_
    exact hserves.spared m i ⟨hi.1, (hprg.readonly i hi.1).mp hi.2.1⟩ (hm i hi)
  rw [← hkernel] at hkept hreset
  obtain ⟨hret, hremote, hsame, m', hdev, hrom⟩ := hcall.enqueue hon hkept hreset hpre
  rw [hkernel] at hrom
  refine ⟨hret, hremote, hsame, m', hdev, fun i hi => ?_⟩
  refine hprg.inMemory_rom.mp ((hprg.resident_iff hfile hbytes).mp hrom) i ⟨hi.1, ?_⟩
  exact ((hprg.later hsame).readonly i hi.1).mp hi.2.1

end Launch

/-! ## A file that serves -/

/-- A file with the program that computes `f` and says done, in segments that lie apart from each other and
in front of the communication area, on a target whose reset leaves its memory alone. -/
theorem ElfFile.serves_commProgram {e : ElfFile} {comm : ProgramComm} {pre : List ReadSlot → Prop}
    {f : List ReadSlot → List (List UInt8)} (harea : e.IsCommArea comm)
    (hbound : comm.addr.toNat + comm.size.toNat < 2 ^ 64)
    (hapart : ∀ i j, e.IsLoad i → e.IsLoad j → i ≠ j →
      Disjoint (span (e.segment i).1 (e.segment i).2.length) (span (e.segment j).1 (e.segment j).2.length))
    (hfront : ∀ i, e.IsLoad i → (e.segment i).1 + (e.segment i).2.length ≤ comm.addr.toNat)
    (hsize : ∀ slots, pre slots →
      List.Forall₂ (fun r out => out.length = r.header.size.toNat) slots (f slots)) :
    e.Serves ⟨pre, fun slots outs => outs = f slots⟩ id (commProgram comm f) comm where
  area := harea
  bound := hbound
  apart := hapart
  aside i hi := (span_disjoint_of_le (hfront i hi)).symm
  spared _ _ _ h := h
  kept m hm hmagic _ hpre := by
    obtain ⟨m', hpolls, hout, hbelow⟩ := commProgram_polls hmagic (hsize _ hpre)
    refine ⟨m', hpolls, hout, fun i hi => (ByteMap.load_congr fun x hx => hbelow x ?_).trans (hm i hi.1)⟩
    have := hfront i hi.1
    rw [mem_span] at hx
    omega

end BaremetalCrt
