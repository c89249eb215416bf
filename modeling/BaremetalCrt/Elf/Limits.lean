/-
# BaremetalCrt.Elf.Limits — what the checks of the header are worth.

The ends of the two tables are computed in 64 bits, and the ends of the segments not at all.  The checks are
exact where the sums do not wrap, which is everywhere in the 32-bit class; a segment is stored as it is where
its header happens to fit.

There are two results. `prgElfIsValidHeader_exact_iff` is about the tables: for a header that is right
otherwise, the test says what it is meant to say just when none of the sums wraps. `prgElfLoad_segments_iff`
is about the contents: the chunks of a binary that is accepted hold their segments, and are sent whole, just
when every segment that is to be loaded is smaller than 4 GiB and, unless it is empty, in the file.
-/
import BaremetalCrt.Elf.Accept
import BaremetalCrt.Launch.CommArea

namespace BaremetalCrt

open Lib

variable {b : Binary} {cls : ElfClass}

/-! ## The header -/

/-- Where the program headers end, and the section headers, in unbounded integers. -/
def ElfHeader.phdrsTop (e : ElfHeader) : Nat := e.ePhoff.toNat + e.ePhnum.toNat * e.ePhentsize.toNat

/-- Where the section headers end, in unbounded integers. -/
def ElfHeader.shdrsTop (e : ElfHeader) : Nat := e.eShoff.toNat + e.eShnum.toNat * e.eShentsize.toNat

/-- A header that describes a runnable file, wherever its tables end. -/
structure ElfHeader.Runnable (e : ElfHeader) : Prop where
  exec : e.eType = etExec
  riscv : e.eMachine = emRiscv
  phdrs : e.ePhoff ≠ 0 ∧ e.ePhnum ≠ 0 ∧ e.ePhentsize ≠ 0
  shstrndx : e.eShstrndx < e.eShnum
  aligned : e.eEntry.toNat % 4 = 0

/-- A header whose tables are in a file of `elfSize` bytes. -/
structure ElfHeader.Fits (elfSize : UInt64) (e : ElfHeader) : Prop where
  runnable : e.Runnable
  phdrs : e.phdrsTop ≤ elfSize.toNat
  shdrs : e.shdrsTop ≤ elfSize.toNat

/-- The sums of the checks do not wrap, unless the header is refused anyway. -/
def ElfHeader.SumsExact (elfSize : UInt64) (e : ElfHeader) : Prop :=
  e.Runnable → e.phdrsTop % 2 ^ 64 ≤ elfSize.toNat → e.shdrsTop % 2 ^ 64 ≤ elfSize.toNat →
    e.phdrsTop < 2 ^ 64 ∧ e.shdrsTop < 2 ^ 64

/-- The loops over the tables read fields of whole entries in a file of `elfSize` bytes. -/
structure LoopsInside (b : Binary) (cls : ElfClass) (e : ElfHeader) (elfSize : UInt64) : Prop where
  phs : ∀ s, ∃ bases, (readPhs b e cls s).2.reads = s.reads ++ touches cls.phdr.fields bases ∧
    ∀ base ∈ bases, base.toNat + cls.ehdr.phdrSize.toNat ≤ elfSize.toNat
  shs : ∀ s, ∃ bases, (readShs b e cls s).2.reads = s.reads ++ touches cls.shdr.fields bases ∧
    ∀ base ∈ bases, base.toNat + cls.ehdr.shdrSize.toNat ≤ elfSize.toNat

/-- What the checks compare are the wrapped ends. -/
theorem valid_iff {e : ElfHeader} {elfSize : UInt64} (hnarrow : e.Narrow) (hsize : e.eShentsize ≠ 0) :
    e.Valid elfSize ↔
      e.Runnable ∧ e.phdrsTop % 2 ^ 64 ≤ elfSize.toNat ∧ e.shdrsTop % 2 ^ 64 ≤ elfSize.toNat := by
  have hfour : e.eEntry % 4 = 0 ↔ e.eEntry.toNat % 4 = 0 := by
    rw [← UInt64.toNat_inj, UInt64.toNat_mod]
    rfl
  have hph : exceedsFile elfSize e.ePhoff e.ePhnum e.ePhentsize = false ↔
      e.phdrsTop % 2 ^ 64 ≤ elfSize.toNat := by
    rw [← Bool.not_eq_true, exceedsFile_iff hnarrow.phnum hnarrow.phentsize, Nat.not_lt]
    rfl
  have hsh : exceedsFile elfSize e.eShoff e.eShnum e.eShentsize = false ↔
      e.shdrsTop % 2 ^ 64 ≤ elfSize.toNat := by
    rw [← Bool.not_eq_true, exceedsFile_iff hnarrow.shnum hnarrow.shentsize, Nat.not_lt]
    rfl
  constructor
  · intro h
    exact ⟨⟨h.exec, h.riscv, h.phdrs, h.shstrndx, hfour.mp h.aligned⟩, hph.mp h.phdrsEnd, hsh.mp h.shdrsEnd⟩
  · rintro ⟨hrun, hpe, hse⟩
    exact ⟨hrun.exec, hrun.riscv, hrun.phdrs, hph.mpr hpe, hsh.mpr hse, hsize, hrun.shstrndx,
      hfour.mpr hrun.aligned⟩

/-- Entries of a table that ends in the file are in the file. -/
theorem bases_inside {off : UInt64} {stride n size : Nat} {elfSize : UInt64} (hsize : size ≤ stride)
    (hend : off.toNat + n * stride ≤ elfSize.toNat) :
    ∀ base ∈ (List.range n).map (entry off stride), base.toNat + size ≤ elfSize.toNat := by
  intro base hbase
  obtain ⟨i, hi, rfl⟩ := List.mem_map.mp hbase
  obtain ⟨hat, hin⟩ := entry_inside elfSize.toNat_lt (List.mem_range.mp hi) hsize hend
  rw [hat]
  exact hin

theorem loopsInside {elfSize : UInt64} (hsizes : b.SizesOk cls)
    (hph : (b.header cls).phdrsTop ≤ elfSize.toNat) (hsh : (b.header cls).shdrsTop ≤ elfSize.toNat) :
    LoopsInside b cls (b.header cls) elfSize := by
  constructor
  · intro s
    rw [readPhs_apply]
    exact ⟨b.phdrs cls, rfl, bases_inside hsizes.1 hph⟩
  · intro s
    rw [readShs_apply]
    exact ⟨b.shdrs cls, rfl, bases_inside hsizes.2 hsh⟩

/-- **The checks of a header are exact**, and the loops over the tables stay in the file, exactly if no sum
of a header that is otherwise right wraps. -/
theorem prgElfIsValidHeader_exact_iff {s s' : Loading} {e : ElfHeader}
    (hread : prgElfReadElf b cls s = (.ok e, s')) (elfSize : UInt64) :
    ((prgElfIsValidHeader elfSize e = clSuccess ↔ e.Fits elfSize) ∧
      (prgElfIsValidHeader elfSize e = clSuccess → LoopsInside b cls e elfSize)) ↔
        e.SumsExact elfSize := by
  -- the header is the one that is in the buffer, and its entries are large enough
  rw [prgElfReadElf_apply] at hread
  by_cases hsizes : b.SizesOk cls
  swap
  · rw [if_neg hsizes] at hread
    cases hread
  rw [if_pos hsizes] at hread
  obtain rfl := Except.ok.inj (Prod.mk.inj hread).1
  have hpos : (b.header cls).eShentsize ≠ 0 := by
    intro hzero
    have hle : cls.ehdr.shdrSize.toNat ≤ (b.header cls).eShentsize.toNat := hsizes.2
    rw [hzero] at hle
    cases cls <;> exact absurd hle (by decide)
  rw [prgElfIsValidHeader_iff, valid_iff (header_narrow b cls) hpos]
  have hlt := elfSize.toNat_lt
  constructor
  · rintro ⟨hiff, -⟩ hrun hph hsh
    have hfits := hiff.mp ⟨hrun, hph, hsh⟩
    exact ⟨lt_of_le_of_lt hfits.phdrs hlt, lt_of_le_of_lt hfits.shdrs hlt⟩
  · intro hsums
    have hfits (h : (b.header cls).Runnable ∧ (b.header cls).phdrsTop % 2 ^ 64 ≤ elfSize.toNat ∧
        (b.header cls).shdrsTop % 2 ^ 64 ≤ elfSize.toNat) : (b.header cls).Fits elfSize := by
      obtain ⟨hrun, hph, hsh⟩ := h
      obtain ⟨hpw, hsw⟩ := hsums hrun hph hsh
      rw [Nat.mod_eq_of_lt hpw] at hph
      rw [Nat.mod_eq_of_lt hsw] at hsh
      exact ⟨hrun, hph, hsh⟩
    refine ⟨⟨hfits, fun h => ?_⟩, fun h => loopsInside hsizes (hfits h).phdrs (hfits h).shdrs⟩
    rw [Nat.mod_eq_of_lt (lt_of_le_of_lt h.phdrs hlt), Nat.mod_eq_of_lt (lt_of_le_of_lt h.shdrs hlt)]
    exact ⟨h.runnable, h.phdrs, h.shdrs⟩

/-- A small executable of the 64-bit class without contents, its program headers at `phoff`. -/
def bareFile (phoff : List UInt8) : List UInt8 :=
  [0x7f, 0x45, 0x4c, 0x46, 2, 1, 1, 0, 0, 0, 0, 0, 0, 0, 0, 0, 2, 0, 0xf3, 0, 1, 0, 0, 0,
    0, 0, 0, 0x80, 0, 0, 0, 0] ++ phoff ++ List.replicate 8 0 ++
  [0, 0, 0, 0, 64, 0, 56, 0, 1, 0, 64, 0, 1, 0, 0, 0]

/-- Its program header is 56 bytes in front of the buffer: the sum of the check is zero. -/
def wrappedElf : Binary :=
  .ofFile (bareFile [0xc8, 0xff, 0xff, 0xff, 0xff, 0xff, 0xff, 0xff]) (by decide)

theorem wrappedElf_accepted :
    ∃ e s', prgElfReadElf wrappedElf .elf64 ⟨⟨openclIcdMagic, 0, none, ⟨0, 0⟩⟩, []⟩ = (.ok e, s') ∧
      ¬ ((prgElfIsValidHeader wrappedElf.len e = clSuccess ↔ e.Fits wrappedElf.len) ∧
        (prgElfIsValidHeader wrappedElf.len e = clSuccess →
          LoopsInside wrappedElf .elf64 e wrappedElf.len)) := by
  refine ⟨wrappedElf.header .elf64, _, (prgElfReadElf_apply .elf64 _).trans (by rw [if_pos (by decide +kernel)]),
    fun h => ?_⟩
  have hfits := h.1.mp (by decide +kernel)
  exact absurd hfits.phdrs (by decide +kernel)

/-- In the 32-bit class no sum wraps. -/
theorem sumsExact_elf32 (b : Binary) (elfSize : UInt64) : (b.header .elf32).SumsExact elfSize := by
  intro _ _ _
  have hnarrow := header_narrow b .elf32
  have hoff : (b.header .elf32).ePhoff.toNat < 2 ^ 32 ∧ (b.header .elf32).eShoff.toNat < 2 ^ 32 :=
    ⟨Field.get_lt (by decide) 0, Field.get_lt (by decide) 0⟩
  have hmul {x y : Nat} (hx : x < 2 ^ 16) (hy : y < 2 ^ 16) : x * y < 2 ^ 32 :=
    lt_of_le_of_lt (Nat.mul_le_mul (Nat.le_sub_one_of_lt hx) (Nat.le_sub_one_of_lt hy)) (by decide)
  have hph := hmul hnarrow.phnum hnarrow.phentsize
  have hsh := hmul hnarrow.shnum hnarrow.shentsize
  unfold ElfHeader.phdrsTop ElfHeader.shdrsTop
  omega

/-- The small executable of the 32-bit class is checked exactly. -/
theorem smallElf_exact :
    ∃ e s', prgElfReadElf smallElf .elf32 ⟨⟨openclIcdMagic, 0, none, ⟨0, 0⟩⟩, []⟩ = (.ok e, s') ∧
      (prgElfIsValidHeader 225 e = clSuccess ↔ e.Fits 225) := by
  have hread : prgElfReadElf smallElf .elf32 ⟨⟨openclIcdMagic, 0, none, ⟨0, 0⟩⟩, []⟩ =
      (.ok (smallElf.header .elf32), _) :=
    (prgElfReadElf_apply .elf32 _).trans (by rw [if_pos (by decide +kernel)])
  exact ⟨_, _, hread, ((prgElfIsValidHeader_exact_iff hread 225).mpr (sumsExact_elf32 _ _)).1⟩

/-! ## The segments -/

/-- The bytes of a program header's segment, as far as they are in the file. -/
def Binary.segment (b : Binary) (ph : PrgHeader) : List UInt8 :=
  (b.file.drop ph.pOffset.toNat).take ph.pFilesz.toNat

/-- The segments are smaller than 4 GiB, and in the file unless they are empty.  The loader checks neither. -/
def Binary.SegmentsFit (b : Binary) (cls : ElfClass) : Prop :=
  ∀ ph ∈ b.prgHeaders cls, ph.pType = ptLoad → ph.pFilesz.toNat < 2 ^ 32 ∧
    (ph.pFilesz.toNat ≠ 0 → ph.pOffset.toNat + ph.pFilesz.toNat ≤ b.len.toNat)

/-- The segments of a loaded program are whole and, unless they are empty, in the file; none is left out of
the upload, and what a launch sends of a chunk, with the binary still in place, is its segment. -/
structure SegmentsWhole (b : Binary) (cls : ElfClass) (p : ClProgram) : Prop where
  size : ∀ i, (hi : i < (b.prgHeaders cls).length) → (b.prgHeaders cls)[i].pType = ptLoad →
    (p.chunkAt i).size.toNat = (b.prgHeaders cls)[i].pFilesz.toNat
  inside : ∀ i, (hi : i < (b.prgHeaders cls).length) → (b.prgHeaders cls)[i].pType = ptLoad →
    (b.prgHeaders cls)[i].pFilesz.toNat ≠ 0 →
      (b.prgHeaders cls)[i].pOffset.toNat + (b.prgHeaders cls)[i].pFilesz.toNat ≤ b.len.toNat
  planned : ∀ i, (hi : i < (b.prgHeaders cls).length) → (b.prgHeaders cls)[i].pType = ptLoad →
    chunkPut i (p.chunkAt i) ∈ imagePuts p
  sent : ∀ {δ : Type} (h : Host δ) (d : δ) (cmdq kernel : Ptr), h.bytes = b.mem →
    h.prgs (kernGetProgram h kernel) = p →
    ∀ e ∈ (clEnqueueNDRangeKernel cmdq kernel h d).trace, ∀ i paddr data,
      e.op = .writeMem (.chunk i) paddr data → ∃ hi : i < (b.prgHeaders cls).length,
        data = if (b.prgHeaders cls)[i].pType = ptLoad then b.segment (b.prgHeaders cls)[i] else []

theorem eq_ok_of_fst {x : Except LoadStop Unit × Loading} (h : x.1 = .ok ()) : x = (.ok (), x.2) :=
  Prod.ext h rfl

/-- A load that succeeds had all its memory, and leaves the chunks of the headers. -/
theorem prgElfLoad_ok {a : Allocs} {s s' : Loading} (hload : prgElfLoad b a s = (.ok (), s')) :
    ∃ cls, b.cls? = some cls ∧ b.HeaderOk cls ∧ s'.prg.chunks = some (chunkList b 0 (b.prgHeaders cls)) ∧
      s'.prg.numChunks = ((b.prgHeaders cls).length : Int) := by
  have hmagic : s.prg.magic = openclIcdMagic := by
    by_contra hbad
    rw [prgElfLoad] at hload
    replace hload : (demand _ >>= _) s = _ := hload
    rw [demand_bind, if_neg hbad, if_neg (by decide)] at hload
    cases hload
  rw [prgElfLoad_apply a s hmagic] at hload
  have hinfo : a.elfInfo = true := by
    by_contra hno
    rw [if_pos (Bool.not_eq_true _ ▸ hno)] at hload
    cases hload
  rw [if_neg (by simp [hinfo])] at hload
  cases hcls : b.cls? with
  | none =>
    rw [hcls] at hload
    cases hload
  | some cls =>
    rw [hcls] at hload
    by_cases hok : b.HeaderOk cls
    swap
    · simp only [if_neg hok] at hload
      cases hload
    simp only [if_pos hok] at hload
    obtain ⟨u, s₁, hph, hshs⟩ := Exec.bind_eq_ok.mp hload
    rw [prgElfReadPh_apply a cls (s.touch (b.headTouches cls)) hmagic] at hph
    have hphs : ¬ a.phs = false := by
      intro hno
      rw [if_pos hno] at hph
      cases hph
    have hmem : ¬ a.chunks = false := by
      intro hno
      rw [if_neg hphs, if_pos hno] at hph
      cases hph
    rw [if_neg hphs, if_neg hmem] at hph
    obtain rfl := (Prod.mk.inj hph).2
    have hmagic' : (b.chunked cls (s.touch (b.headTouches cls))).prg.magic = openclIcdMagic := hmagic
    rw [prgElfReadShs_apply a cls _ hmagic'] at hshs
    have hmem' : ¬ a.shs = false := by
      intro hno
      rw [if_pos hno] at hshs
      cases hshs
    have hfound : (b.scan cls).foundComm = true ∧ (b.scan cls).foundCommArea = true := by
      by_contra hno
      rw [if_neg hmem', if_neg hno] at hshs
      cases hshs
    rw [if_neg hmem', if_pos hfound] at hshs
    obtain rfl := (Prod.mk.inj hshs).2
    exact ⟨cls, rfl, hok, rfl, by rw [Binary.length_prgHeaders]; rfl⟩

/-- What a launch writes of a chunk is that chunk. -/
theorem chunk_written {δ : Type} {h : Host δ} {d : δ} {cmdq kernel : Ptr} {e : Event δ}
    (he : e ∈ (clEnqueueNDRangeKernel cmdq kernel h d).trace) {i : Nat} {paddr : UInt64} {data : List UInt8}
    (hop : e.op = .writeMem (.chunk i) paddr data) :
    (i : Int) < (h.prgs (kernGetProgram h kernel)).numChunks ∧
      data = ((h.prgs (kernGetProgram h kernel)).chunkAt i).data h := by
  have hwrite : e ∈ writesOf (clEnqueueNDRangeKernel cmdq kernel h d).trace :=
    List.mem_filter.mpr ⟨he, by rw [hop]; rfl⟩
  rw [clEnqueueNDRangeKernel_writes, launchWrites] at hwrite
  split_ifs at hwrite with hc
  · have hmem := (transfer_events_initial _ _).subset (List.mem_map_of_mem (f := Event.op) hwrite)
    obtain ⟨q, hq, hqop⟩ := List.mem_map.mp hmem
    rw [hop, Put.op, DevOp.writeMem.injEq] at hqop
    obtain ⟨hcargo, -, hdata⟩ := hqop
    rcases List.mem_append.mp hq with himg | hcomm
    · obtain ⟨j, -, hj, -, rfl⟩ := (mem_chunkPuts _ _).mp himg
      obtain rfl : j = i := Cargo.chunk.inj hcargo
      rw [chunkPut_data] at hdata
      exact ⟨by omega, hdata.symm⟩
    · rcases List.mem_cons.mp hcomm with rfl | harg
      · cases hcargo
      · have hc := argPlan_cargo q harg
        rw [hcargo] at hc
        cases hc
  · exact absurd hwrite List.not_mem_nil

theorem chunkAt_loaded {p : ClProgram} (hchunks : p.chunks = some (chunkList b 0 (b.prgHeaders cls)))
    {i : Nat} (hi : i < (b.prgHeaders cls).length) :
    p.chunkAt i =
      if (b.prgHeaders cls)[i].pType = ptLoad then { (b.prgHeaders cls)[i].chunk b with index := i }
      else .zero := by
  have hi' : i < (chunkList b 0 (b.prgHeaders cls)).length := by rwa [length_chunkList]
  rw [ClProgram.chunkAt, hchunks, Option.getD_some, List.getD_eq_getElem _ _ hi',
    getElem_chunkList _ 0 i hi hi', Nat.zero_add]

/-- **The segments of a binary that is accepted are whole**, and sent whole, exactly if they fit. -/
theorem prgElfLoad_segments_iff {a : Allocs} {s s' : Loading} (hload : prgElfLoad b a s = (.ok (), s')) :
    ∃ cls, b.cls? = some cls ∧ (SegmentsWhole b cls s'.prg ↔ b.SegmentsFit cls) := by
  obtain ⟨cls, hcls, -, hchunks, hnum⟩ := prgElfLoad_ok hload
  have hat {i : Nat} (hi : i < (b.prgHeaders cls).length) := chunkAt_loaded hchunks hi
  refine ⟨cls, hcls, fun hwhole ph hph htype => ?_, fun hfit => ?_⟩
  · obtain ⟨i, hi, rfl⟩ := List.getElem_of_mem hph
    have hsize := hwhole.size i hi htype
    rw [hat hi, if_pos htype] at hsize
    -- the size of a chunk is a 32-bit number
    have hlt : (b.prgHeaders cls)[i].pFilesz.toUInt32.toNat < 2 ^ 32 := UInt32.toNat_lt _
    have hsame : (b.prgHeaders cls)[i].pFilesz.toUInt32.toNat = (b.prgHeaders cls)[i].pFilesz.toNat := hsize
    exact ⟨hsame ▸ hlt, hwhole.inside i hi htype⟩
  · have hfits {i : Nat} (hi : i < (b.prgHeaders cls).length) := hfit _ (List.getElem_mem hi)
    have hsize {i : Nat} (hi : i < (b.prgHeaders cls).length)
        (htype : (b.prgHeaders cls)[i].pType = ptLoad) :
        (b.prgHeaders cls)[i].pFilesz.toUInt32.toNat = (b.prgHeaders cls)[i].pFilesz.toNat := by
      rw [UInt64.toNat_toUInt32]
      exact Nat.mod_eq_of_lt (hfits hi htype).1
    constructor
    · intro i hi htype
      rw [hat hi, if_pos htype]
      exact hsize hi htype
    · intro i hi htype
      exact (hfits hi htype).2
    · intro i hi htype
      refine (mem_chunkPuts _ _).mpr ⟨i, Nat.zero_le i, by omega, ?_, rfl⟩
      rw [hat hi, if_pos htype]
      exact fun hskip => Bool.false_ne_true hskip.2
    · intro δ h d cmdq kernel hbytes hprg e he i paddr data hop
      obtain ⟨hi, hdata⟩ := chunk_written he hop
      rw [hprg] at hi hdata
      rw [hnum] at hi
      have hi' : i < (b.prgHeaders cls).length := by omega
      refine ⟨hi', ?_⟩
      rw [hdata, ProgramChunk.data, hbytes, hat hi']
      by_cases htype : (b.prgHeaders cls)[i].pType = ptLoad
      · rw [if_pos htype, if_pos htype]
        show b.mem.load (b.ptr (b.prgHeaders cls)[i].pOffset) (b.prgHeaders cls)[i].pFilesz.toUInt32.toNat = _
        rw [hsize hi' htype]
        exact load_ptr (hfits hi' htype).2
      · rw [if_neg htype, if_neg htype]
        rfl

/-- The small executable is loaded whole. -/
theorem smallElf_whole :
    ∃ s', prgElfLoad smallElf .all ⟨⟨openclIcdMagic, 0, none, ⟨0, 0⟩⟩, []⟩ = (.ok (), s') ∧
      SegmentsWhole smallElf .elf32 s'.prg := by
  have hok : (prgElfLoad smallElf .all ⟨⟨openclIcdMagic, 0, none, ⟨0, 0⟩⟩, []⟩).1 = .ok () := by
    decide +kernel
  obtain ⟨cls, hcls, hiff⟩ := prgElfLoad_segments_iff (eq_ok_of_fst hok)
  have hclass : smallElf.cls? = some .elf32 := by decide +kernel
  obtain rfl : cls = .elf32 := Option.some.inj (hcls.symm.trans hclass)
  have hfit : smallElf.SegmentsFit .elf32 := by
    show ∀ ph ∈ _, _
    decide +kernel
  exact ⟨_, eq_ok_of_fst hok, hiff.mpr hfit⟩

/-- The executable of the 64-bit class with a segment of more than 4 GiB. -/
def hugeElf : Binary := .ofFile (wideFile [4, 0, 0, 0, 1, 0, 0, 0]) (by decide +kernel)

/-- It is accepted, and its chunk has four bytes. -/
theorem hugeElf_truncated :
    ∃ s', prgElfLoad hugeElf .all ⟨⟨openclIcdMagic, 0, none, ⟨0, 0⟩⟩, []⟩ = (.ok (), s') ∧
      hugeElf.cls? = some .elf64 ∧ ¬ SegmentsWhole hugeElf .elf64 s'.prg := by
  have hok : (prgElfLoad hugeElf .all ⟨⟨openclIcdMagic, 0, none, ⟨0, 0⟩⟩, []⟩).1 = .ok () := by
    decide +kernel
  refine ⟨_, eq_ok_of_fst hok, by decide +kernel, fun hwhole => ?_⟩
  exact absurd (hwhole.size 0 (by decide +kernel) (by decide +kernel)) (by decide +kernel)

end BaremetalCrt
