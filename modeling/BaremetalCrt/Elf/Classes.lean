/-
# BaremetalCrt.Elf.Classes — the two classes of files load the same programs.

`LogicalElf` is an executable apart from its file: what its headers say, what its segments hold, what its
sections are named.  A file encodes it in one of the classes, with its tables, strides and contents wherever
they are.  What the format says of a file is what it says of the executable, and so the two loaders agree.

`Encodes` relates a file and an executable. Nothing is fixed in it but what the format fixes: where the
tables are, how far their entries are apart, and in which order the contents stand is the file's own affair.
From it follows that the file is an executable exactly if the executable is one that is loaded
(`LogicalElf.Runs`), and that the loaded program is the executable's. The witness is one small executable in
both encodings.
-/
import Mathlib.Data.List.Forall2
import BaremetalCrt.Elf.Accept

namespace BaremetalCrt

open Lib

/-! ## Executables apart from their files -/

/-- A program header as a file of either class has it, with the bytes that are loaded for it. -/
structure Segment where
  type : Nat
  flags : Nat
  paddr : Nat
  contents : List UInt8
  small : contents.length < 2 ^ 32

/-- A section: its name, if it has one, its address and size, and the word that its contents start with. -/
structure Section where
  name : Option CStr
  addr : Nat
  size : Nat
  word : Nat

/-- What a file says, whatever its class: the type, the machine, the entry point, which section has the
names, and the segments and sections. -/
structure LogicalElf where
  type : Nat
  machine : Nat
  entry : Nat
  shstrndx : Nat
  segments : List Segment
  sections : List Section

/-- The section has a name, and it is `name`. -/
def Section.IsNamed (c : Section) (name : List UInt8) : Prop := c.name.map CStr.bytes = some name

instance (c : Section) (name : List UInt8) : Decidable (c.IsNamed name) :=
  inferInstanceAs (Decidable (_ = _))

/-- The executables that the loader accepts, in the terms of either class. -/
structure LogicalElf.Runs (x : LogicalElf) : Prop where
  exec : x.type = etExec.toNat
  riscv : x.machine = emRiscv.toNat
  segments : x.segments ≠ []
  shstrndx : x.shstrndx < x.sections.length
  aligned : x.entry % 4 = 0
  comm : ∃ c ∈ x.sections, c.IsNamed commSection ∧ c.word = baremetalCrtCommMagic.toNat
  commArea : ∃ c ∈ x.sections, c.IsNamed commAreaSection

/-! ## Encodings -/

namespace ElfFile

variable (e : ElfFile)

/-- Program header `i` is the segment, whose contents, if there are any, are somewhere in the file. -/
structure HasSegment (i : Nat) (g : Segment) : Prop where
  type : e.phdr i (·.pType) = g.type
  flags : e.phdr i (·.pFlags) = g.flags
  paddr : e.phdr i (·.pPaddr) = g.paddr
  filesz : e.phdr i (·.pFilesz) = g.contents.length
  inFile : g.contents.length ≠ 0 → e.phdr i (·.pOffset) + g.contents.length ≤ e.bytes.length
  contents : (e.bytes.drop (e.phdr i (·.pOffset))).take g.contents.length = g.contents

/-- Section header `i` is the section; where the loader looks at its contents, they are in the file. -/
structure HasSection (i : Nat) (c : Section) : Prop where
  addr : e.shdr i (·.shAddr) = c.addr
  size : e.shdr i (·.shSize) = c.size
  inFile : c.IsNamed commSection → e.shdr i (·.shOffset) + 4 ≤ e.bytes.length
  word : c.IsNamed commSection → number e.bytes (e.shdr i (·.shOffset)) 4 = c.word

instance (i : Nat) (g : Segment) : Decidable (e.HasSegment i g) :=
  decidable_of_iff (e.phdr i (·.pType) = g.type ∧ e.phdr i (·.pFlags) = g.flags ∧
      e.phdr i (·.pPaddr) = g.paddr ∧ e.phdr i (·.pFilesz) = g.contents.length ∧
      (g.contents.length ≠ 0 → e.phdr i (·.pOffset) + g.contents.length ≤ e.bytes.length) ∧
      (e.bytes.drop (e.phdr i (·.pOffset))).take g.contents.length = g.contents)
    ⟨fun ⟨h₁, h₂, h₃, h₄, h₅, h₆⟩ => ⟨h₁, h₂, h₃, h₄, h₅, h₆⟩,
      fun ⟨h₁, h₂, h₃, h₄, h₅, h₆⟩ => ⟨h₁, h₂, h₃, h₄, h₅, h₆⟩⟩

instance (i : Nat) (c : Section) : Decidable (e.HasSection i c) :=
  decidable_of_iff (e.shdr i (·.shAddr) = c.addr ∧ e.shdr i (·.shSize) = c.size ∧
      (c.IsNamed commSection → e.shdr i (·.shOffset) + 4 ≤ e.bytes.length) ∧
      (c.IsNamed commSection → number e.bytes (e.shdr i (·.shOffset)) 4 = c.word))
    ⟨fun ⟨h₁, h₂, h₃, h₄⟩ => ⟨h₁, h₂, h₃, h₄⟩, fun ⟨h₁, h₂, h₃, h₄⟩ => ⟨h₁, h₂, h₃, h₄⟩⟩

/-- Section `i` of the file has the name of the section `c`; or neither of them has one. -/
def HasNameOf (i : Nat) (c : Section) : Prop :=
  match c.name with
  | none => ¬ e.HasName i
  | some t => e.HasName i ∧ t.bytes ++ [0] <+: e.nameText i

instance (i : Nat) (c : Section) : Decidable (e.HasNameOf i c) :=
  match c with
  | ⟨none, _, _, _⟩ => inferInstanceAs (Decidable (¬ _))
  | ⟨some _, _, _, _⟩ => inferInstanceAs (Decidable (_ ∧ _))

/-- The file is an encoding of the executable in its class: the tables are in the file, the program headers
behind the ELF header, and the strides are at least the native ones. -/
structure Encodes (x : LogicalElf) : Prop where
  identified : e.Identified
  header : e.cls.ehdr.size ≤ e.bytes.length
  type : e.ehdr (·.eType) = x.type
  machine : e.ehdr (·.eMachine) = x.machine
  entry : e.ehdr (·.eEntry) = x.entry
  shstrndx : e.ehdr (·.eShstrndx) = x.shstrndx
  phnum : e.ehdr (·.ePhnum) = x.segments.length
  shnum : e.ehdr (·.eShnum) = x.sections.length
  phentsize : e.cls.ehdr.phdrSize.toNat ≤ e.ehdr (·.ePhentsize)
  shentsize : e.cls.ehdr.shdrSize.toNat ≤ e.ehdr (·.eShentsize)
  phoff : x.segments ≠ [] → e.cls.ehdr.size ≤ e.ehdr (·.ePhoff)
  phdrs : e.phdrOff (e.ehdr (·.ePhnum)) ≤ e.bytes.length
  shdrs : e.shdrOff (e.ehdr (·.eShnum)) ≤ e.bytes.length
  segments : ∀ i, (hi : i < x.segments.length) → e.HasSegment i x.segments[i]
  sections : ∀ i, (hi : i < x.sections.length) → e.HasSection i x.sections[i]
  names : x.shstrndx < x.sections.length → ∀ i, (hi : i < x.sections.length) → e.HasNameOf i x.sections[i]

end ElfFile

/-! ## The format of an encoding -/

variable {x : LogicalElf} {e e' : ElfFile}

/-- What a terminated text begins with is its text up to the terminator. -/
theorem takeWhile_of_prefix {t l : List UInt8} (hnul : 0 ∉ t) (h : t ++ [0] <+: l) :
    l.takeWhile (· ≠ 0) = t := by
  obtain ⟨rest, rfl⟩ := h
  induction t with
  | nil => rfl
  | cons c cs ih =>
    rw [List.mem_cons, not_or] at hnul
    have hc : decide (c ≠ 0) = true := decide_eq_true (Ne.symm hnul.1)
    rw [List.cons_append, List.cons_append, List.takeWhile_cons, if_pos hc, ih hnul.2]

theorem named_of_encodes (h : e.Encodes x) (hstr : x.shstrndx < x.sections.length) {name : List UInt8}
    (hname : 0 ∉ name) (i : Nat) (hi : i < x.sections.length) :
    e.Named i name ↔ x.sections[i].IsNamed name := by
  have hof := h.names hstr i hi
  unfold ElfFile.HasNameOf at hof
  cases hsec : x.sections[i].name with
  | none =>
    rw [hsec] at hof
    refine iff_of_false (fun hn => hof hn.1) fun ht => ?_
    rw [Section.IsNamed, hsec] at ht
    cases ht
  | some t =>
    rw [hsec] at hof
    rw [Section.IsNamed, hsec, Option.map_some, Option.some.injEq]
    constructor
    · intro hn
      rw [← takeWhile_of_prefix t.noNul hof.2, ← takeWhile_of_prefix hname hn.2]
    · rintro rfl
      exact hof

/-- An encoding is complete, if the section of the names exists. -/
theorem ElfFile.Encodes.complete (h : e.Encodes x) (hstr : x.shstrndx < x.sections.length) :
    e.Complete := by
  refine ⟨h.header, h.phdrs, h.shdrs, fun i hi hhas => ?_, fun i hi hn => ?_, fun i hi _ => ?_⟩
  · rw [h.shnum] at hi
    have hof := h.names hstr i hi
    unfold ElfFile.HasNameOf at hof
    cases hsec : x.sections[i].name with
    | none =>
      rw [hsec] at hof
      exact absurd hhas hof
    | some t =>
      rw [hsec] at hof
      exact hof.2.subset (List.mem_append_right _ List.mem_cons_self)
  · rw [h.shnum] at hi
    exact (h.sections i hi).inFile ((named_of_encodes h hstr (by decide) i hi).mp hn)
  · rw [h.phnum] at hi
    have hseg := h.segments i hi
    rw [hseg.filesz]
    exact ⟨hseg.inFile, x.segments[i].small⟩

theorem headerOk_of_encodes (h : e.Encodes x) :
    e.HeaderOk ↔ x.type = etExec.toNat ∧ x.machine = emRiscv.toNat ∧ x.segments ≠ [] ∧
      x.shstrndx < x.sections.length ∧ x.entry % 4 = 0 := by
  have hne : e.ehdr (·.ePhnum) ≠ 0 ↔ x.segments ≠ [] := by
    rw [h.phnum]
    exact not_congr List.length_eq_zero_iff
  have hsizes : 0 < e.cls.ehdr.size ∧ 0 < e.cls.ehdr.phdrSize.toNat := by
    cases e.cls <;> decide
  have hentsize := h.phentsize
  constructor
  · intro hok
    exact ⟨h.type ▸ hok.exec, h.machine ▸ hok.riscv, hne.mp hok.phdrs.2.1,
      h.shstrndx ▸ h.shnum ▸ hok.shstrndx, h.entry ▸ hok.aligned⟩
  · rintro ⟨hexec, hriscv, hsegs, hlt, haligned⟩
    have hoff := h.phoff hsegs
    refine ⟨hentsize, h.shentsize, h.type.trans hexec, h.machine.trans hriscv,
      ⟨by omega, hne.mpr hsegs, by omega⟩, ?_, h.entry.symm ▸ haligned⟩
    rw [h.shstrndx, h.shnum]
    exact hlt

/-- The format of a file is that of its executable, whatever the class. -/
theorem executable_of_encodes (h : e.Encodes x) : e.Executable ↔ x.Runs := by
  have hheader := headerOk_of_encodes h
  constructor
  · intro hexec
    obtain ⟨htype, hmachine, hsegs, hstr, haligned⟩ := hheader.mp hexec.header
    refine ⟨htype, hmachine, hsegs, hstr, haligned, ?_, ?_⟩
    · obtain ⟨i, hi, hn, hword⟩ := hexec.comm
      rw [h.shnum] at hi
      have hnamed := (named_of_encodes h hstr (by decide) i hi).mp hn
      exact ⟨_, List.getElem_mem hi, hnamed, (h.sections i hi).word hnamed ▸ hword⟩
    · obtain ⟨i, hi, hn⟩ := hexec.commArea
      rw [h.shnum] at hi
      exact ⟨_, List.getElem_mem hi, (named_of_encodes h hstr (by decide) i hi).mp hn⟩
  · intro hruns
    have hstr := hruns.shstrndx
    refine ⟨h.identified, hheader.mpr ⟨hruns.exec, hruns.riscv, hruns.segments, hstr, hruns.aligned⟩, ?_, ?_⟩
    · obtain ⟨c, hc, hnamed, hword⟩ := hruns.comm
      obtain ⟨i, hi, rfl⟩ := List.getElem_of_mem hc
      exact ⟨i, h.shnum.symm ▸ hi, (named_of_encodes h hstr (by decide) i hi).mpr hnamed,
        ((h.sections i hi).word hnamed).trans hword⟩
    · obtain ⟨c, hc, hnamed⟩ := hruns.commArea
      obtain ⟨i, hi, rfl⟩ := List.getElem_of_mem hc
      exact ⟨i, h.shnum.symm ▸ hi, (named_of_encodes h hstr (by decide) i hi).mpr hnamed⟩

/-! ## The programs -/

/-- The chunks say the same, and hold the same bytes. -/
structure SameChunk (m m' : ByteMap) (c c' : ProgramChunk) : Prop where
  index : c.index = c'.index
  paddr : c.paddr = c'.paddr
  size : c.size = c'.size
  readonly : c.readonly = c'.readonly
  loaded : c.loaded = c'.loaded
  bytes : m.load c.buf c.size.toNat = m'.load c'.buf c'.size.toNat

/-- The programs have the same chunks, and the same communication area. -/
structure SameProgram (m m' : ByteMap) (p p' : ClProgram) : Prop where
  numChunks : p.numChunks = p'.numChunks
  chunks : ∃ cs cs', p.chunks = some cs ∧ p'.chunks = some cs' ∧ List.Forall₂ (SameChunk m m') cs cs'
  comm : p.comm = p'.comm

/-- Two chunks of one segment. -/
theorem ElfFile.ChunkOf.same {m m' : ByteMap} {i : Nat} {g : Segment} {c c' : ProgramChunk}
    (h : e.ChunkOf m i c) (h' : e'.ChunkOf m' i c') (hg : e.HasSegment i g) (hg' : e'.HasSegment i g) :
    SameChunk m m' c c' := by
  constructor
  · rw [h.index, h'.index]
  · apply UInt64.toNat_inj.mp
    rw [h.paddr, h'.paddr, hg.paddr, hg'.paddr]
  · apply UInt32.toNat_inj.mp
    rw [h.size, h'.size, hg.filesz, hg'.filesz]
  · rw [Bool.eq_iff_iff, h.readonly, h'.readonly, hg.flags, hg'.flags]
  · rw [h.loaded, h'.loaded]
  · rw [h.bytes, h'.bytes, hg.filesz, hg'.filesz, hg.contents, hg'.contents]

theorem SameChunk.zero (m m' : ByteMap) : SameChunk m m' .zero .zero := by
  constructor
  all_goals rfl

/-- Two encodings of one executable hold the same program. -/
theorem ElfFile.Loaded.same {m m' : ByteMap} {p p' : ClProgram} (h : e.Encodes x) (h' : e'.Encodes x)
    (hstr : x.shstrndx < x.sections.length) (hp : e.Loaded m p) (hp' : e'.Loaded m' p') :
    SameProgram m m' p p' := by
  constructor
  · rw [hp.numChunks, hp'.numChunks, h.phnum, h'.phnum]
  · obtain ⟨cs, hcs, hlen, hat⟩ := hp.chunks
    obtain ⟨cs', hcs', hlen', hat'⟩ := hp'.chunks
    rw [h.phnum] at hlen
    rw [h'.phnum] at hlen'
    refine ⟨cs, cs', hcs, hcs', List.forall₂_iff_get.mpr ⟨hlen.trans hlen'.symm, fun i hi hi' => ?_⟩⟩
    have hg := h.segments i (hlen ▸ hi)
    have hg' := h'.segments i (hlen' ▸ hi')
    have hone := hat i hi
    have hone' := hat' i hi'
    rw [hg.type] at hone
    rw [hg'.type] at hone'
    by_cases hload : x.segments[i].type = ptLoad.toNat
    · rw [if_pos hload] at hone hone'
      exact hone.same hone' hg hg'
    · rw [if_neg hload] at hone hone'
      rw [List.get_eq_getElem, List.get_eq_getElem, hone, hone']
      exact .zero m m'
  · obtain ⟨i, hi, hn, hlast, haddr, hsize⟩ := hp.comm
    obtain ⟨i', hi', hn', hlast', haddr', hsize'⟩ := hp'.comm
    rw [h.shnum] at hi hlast
    rw [h'.shnum] at hi' hlast'
    have hname {f : ElfFile} (hf : f.Encodes x) {j : Nat} (hj : j < x.sections.length) :=
      named_of_encodes hf hstr (by decide : 0 ∉ commAreaSection) j hj
    -- neither of the two sections is behind the other
    have heq : i = i' := by
      by_contra hne
      rcases Nat.lt_or_gt_of_ne hne with hlt | hlt
      · exact hlast i' hi' hlt ((hname h hi').mpr ((hname h' hi').mp hn'))
      · exact hlast' i hi hlt ((hname h' hi).mpr ((hname h hi).mp hn))
    subst heq
    have hc := h.sections i hi
    have hc' := h'.sections i hi
    rw [hc.addr] at haddr
    rw [hc.size] at hsize
    rw [hc'.addr] at haddr'
    rw [hc'.size] at hsize'
    cases hpc : p.comm with
    | mk addr size =>
      cases hpc' : p'.comm with
      | mk addr' size' =>
        rw [hpc] at haddr hsize
        rw [hpc'] at haddr' hsize'
        obtain rfl := UInt64.toNat_inj.mp (haddr.trans haddr'.symm)
        obtain rfl := UInt64.toNat_inj.mp (hsize.trans hsize'.symm)
        rfl

/-! ## The loaders -/

variable {b b' : Binary} {cls cls' : ElfClass}

theorem prgElfIsValidHeader_ret (len : UInt64) (h : ElfHeader) :
    prgElfIsValidHeader len h = clSuccess ∨ prgElfIsValidHeader len h = clInvalidBinary := by
  unfold prgElfIsValidHeader
  split_ifs <;> simp

/-- With enough memory, a load is accepted or refused with `CL_INVALID_BINARY`. -/
theorem prgElfLoad_ret {s : Loading} (hmagic : s.prg.magic = openclIcdMagic) :
    (prgElfLoad b .all s).1 = .ok () ∨ (prgElfLoad b .all s).1 = .error (.ret clInvalidBinary) := by
  rw [prgElfLoad_apply .all s hmagic, if_neg (by decide)]
  cases b.cls? with
  | none => exact Or.inr rfl
  | some cls =>
    by_cases hok : b.HeaderOk cls
    · simp only [if_pos hok]
      have hph := prgElfReadPh_apply (b := b) .all cls (s.touch (b.headTouches cls)) hmagic
      have hshs := prgElfReadShs_apply (b := b) .all cls (b.chunked cls (s.touch (b.headTouches cls))) hmagic
      rw [if_neg (by decide), if_neg (by decide)] at hph
      rw [if_neg (by decide)] at hshs
      rw [Exec.bind_ok hph, hshs]
      split_ifs
      · exact Or.inl rfl
      · exact Or.inr rfl
    · simp only [if_neg hok]
      by_cases hsizes : b.SizesOk cls
      · rw [if_pos hsizes]
        have hret := (prgElfIsValidHeader_ret b.len (b.header cls)).resolve_left fun h => hok ⟨hsizes, h⟩
        exact Or.inr (by rw [hret])
      · rw [if_neg hsizes]
        exact Or.inr rfl

/-- A load of an encoding is accepted exactly if the executable runs, and then its program is the one of
the file. -/
theorem prgElfLoad_encodes {s : Loading} (hmagic : s.prg.magic = openclIcdMagic)
    (h : (b.asElf cls).Encodes x) :
    ((prgElfLoad b .all s).1 = .ok () ↔ x.Runs) ∧
      (x.Runs → (b.asElf cls).Loaded b.mem (prgElfLoad b .all s).2.prg) := by
  have hfile : (b.asElf cls).bytes.length = b.len.toNat := b.length_file
  have hlen : 5 ≤ b.len.toNat := by
    have hsize : 5 ≤ cls.ehdr.size := by cases cls <;> decide
    exact le_trans hsize (hfile ▸ h.header)
  by_cases hstr : x.shstrndx < x.sections.length
  · obtain ⟨hiff, hloaded⟩ := prgElfLoad_complete hmagic hlen h.identified (h.complete hstr)
    rw [executable_of_encodes h] at hiff
    exact ⟨hiff, fun hruns => hloaded (hiff.mpr hruns)⟩
  · have hno : (prgElfLoad b .all s).1 ≠ .ok () := by
      apply prgElfLoad_refused hmagic
      intro c hc hok
      -- the header names a section that does not exist
      obtain rfl := Option.some.inj (hc.symm.trans ((cls?_iff hlen).mpr h.identified))
      have hheader := (tables_headerOk_iff h.header h.phdrs h.shdrs).mp hok
      exact hstr ((headerOk_of_encodes h).mp hheader).2.2.2.1
    exact ⟨iff_of_false hno fun hruns => hstr hruns.shstrndx, fun hruns => absurd hruns.shstrndx hstr⟩

/-- **The two loaders agree**: encodings of one executable in the two classes are accepted or refused
alike, and when they are accepted the programs are the same. -/
theorem prgElfLoad_classes {s s' : Loading} (hmagic : s.prg.magic = openclIcdMagic)
    (hmagic' : s'.prg.magic = openclIcdMagic) (h : (b.asElf .elf32).Encodes x)
    (h' : (b'.asElf .elf64).Encodes x) :
    (prgElfLoad b .all s).1 = (prgElfLoad b' .all s').1 ∧
      ((prgElfLoad b .all s).1 = .ok () →
        SameProgram b.mem b'.mem (prgElfLoad b .all s).2.prg (prgElfLoad b' .all s').2.prg) := by
  obtain ⟨hiff, hloaded⟩ := prgElfLoad_encodes hmagic h
  obtain ⟨hiff', hloaded'⟩ := prgElfLoad_encodes hmagic' h'
  constructor
  · by_cases hruns : x.Runs
    · rw [hiff.mpr hruns, hiff'.mpr hruns]
    · rw [(prgElfLoad_ret hmagic).resolve_left (mt hiff.mp hruns),
        (prgElfLoad_ret hmagic').resolve_left (mt hiff'.mp hruns)]
  · intro hok
    have hruns := hiff.mp hok
    exact (hloaded hruns).same h h' hruns.shstrndx (hloaded' hruns)

/-- The small executable apart from its file: what both encodings of it hold. -/
def smallLogical : LogicalElf where
  type := 2
  machine := 243
  entry := 0x80000000
  shstrndx := 2
  segments := [⟨1, 5, 0x80000000, [0xe5, 0xaf, 0xdc, 0xba], by decide⟩]
  sections := [⟨some ⟨commSection, by decide, by decide⟩, 0x80000000, 4, 0xbadcafe5⟩,
    ⟨some ⟨commAreaSection, by decide, by decide⟩, 0x80010000, 0x1000, 0⟩,
    ⟨some ⟨[], by decide, by decide⟩, 0, 17, 0⟩]

/-- The small executable in 64 bits, whose header and tables are laid out otherwise. -/
def smallWide : Binary := .ofFile (wideFile [4, 0, 0, 0, 0, 0, 0, 0]) (by decide +kernel)

theorem smallElf_encodes : (smallElf.asElf .elf32).Encodes smallLogical := by
  constructor
  all_goals decide +kernel

theorem smallWide_encodes : (smallWide.asElf .elf64).Encodes smallLogical := by
  constructor
  all_goals decide +kernel

/-- Both files of the small executable are loaded, as the same program. -/
theorem small_sameProgram :
    (prgElfLoad smallElf .all ⟨⟨openclIcdMagic, 0, none, ⟨0, 0⟩⟩, []⟩).1 = .ok () ∧
      SameProgram smallElf.mem smallWide.mem
        (prgElfLoad smallElf .all ⟨⟨openclIcdMagic, 0, none, ⟨0, 0⟩⟩, []⟩).2.prg
        (prgElfLoad smallWide .all ⟨⟨openclIcdMagic, 0, none, ⟨0, 0⟩⟩, []⟩).2.prg := by
  have hok : (prgElfLoad smallElf .all ⟨⟨openclIcdMagic, 0, none, ⟨0, 0⟩⟩, []⟩).1 = .ok () := by
    decide +kernel
  exact ⟨hok, (prgElfLoad_classes rfl rfl smallElf_encodes smallWide_encodes).2 hok⟩

end BaremetalCrt
