/-
# BaremetalCrt.Elf.Accept — the loader accepts the format, and loads the program of the file.

What the loader computes in 32 and 64 bits from the bytes around the buffer is, for a complete file, what
the format says of its bytes.

Both sides are given already: the loader's phases as functions of a view of the memory (`Elf.Phases`), and
the format as a predicate on a list of bytes (`Elf.Format`). Here they are compared part by part. A field
that the loader reads is the number that the format has (`ElfHeader.Of` and its like for the tables), since
for a complete file no place is outside and no sum wraps; a name that the loader finds is the section's
name; the fold of the scan finds what the format asks for. The parts are put together in
`prgElfLoad_executable`: the loader returns `CL_SUCCESS` exactly for an executable, and then the program is
the one of the file.
-/
import Mathlib.Data.List.Induction
import BaremetalCrt.Elf.Format

namespace BaremetalCrt

open Lib

variable {b : Binary} {cls : ElfClass}

/-! ## The header -/

theorem Binary.length_file (b : Binary) : b.file.length = b.len.toNat := ByteMap.length_load ..

/-- The file in the buffer, read as an executable of a class. -/
def Binary.asElf (b : Binary) (cls : ElfClass) : ElfFile := ⟨b.file, cls⟩

/-- A field of a record of the buffer. -/
theorem Binary.get_toNat {f : Field} {base : UInt64} (hf : f.width ≤ 8)
    (hin : base.toNat + f.off.toNat + f.width ≤ b.len.toNat) :
    (f.get b.view base).toNat = f.read b.file base.toNat := by
  rw [Binary.file_eq]
  exact Field.get_toNat hf b.len.toNat_lt hin

/-- Half-words and words survive in 32 bits. -/
theorem Field.get_toUInt32 {f : Field} {m : View} (hf : f.width ≤ 4) (base : UInt64) :
    (f.get m base).toUInt32.toNat = (f.get m base).toNat := by
  have hlt := Field.get_lt (m := m) (le_trans hf (by decide) : f.width ≤ 8) base
  rw [UInt64.toNat_toUInt32]
  exact Nat.mod_eq_of_lt (lt_of_lt_of_le hlt (Nat.pow_le_pow_right (by decide) hf))

theorem cls?_iff (hlen : 5 ≤ b.len.toNat) : b.cls? = some cls ↔ (b.asElf cls).Identified := by
  have htake : b.file.take 4 = b.view.bytes 0 4 := by
    rw [Binary.file_eq, View.take_bytes _ (by omega)]
  have hclass : number b.file 4 1 = (b.view 4).toNat := by
    have hget : ((⟨0, 1⟩ : Field).get b.view 4).toNat = number b.file 4 1 :=
      Binary.get_toNat (by decide) hlen
    rw [get_byte, UInt8.toNat_toUInt64] at hget
    exact hget.symm
  have hbyte (n : UInt8) : b.view 4 = n ↔ (b.view 4).toNat = n.toNat := UInt8.toNat_inj.symm
  unfold Binary.cls? ElfFile.Identified Binary.asElf
  rw [htake, hclass]
  by_cases hmag : b.view.bytes 0 4 = elfMag
  · rw [if_pos hmag]
    by_cases h1 : b.view 4 = 1
    · rw [if_pos h1, h1]
      cases cls <;> simp [hmag]
    · rw [if_neg h1]
      by_cases h2 : b.view 4 = 2
      · rw [if_pos h2, h2]
        cases cls <;> simp [hmag]
      · rw [if_neg h2]
        rw [hbyte] at h1 h2
        refine iff_of_false (by simp) fun h => ?_
        cases cls
        · exact h1 h.2
        · exact h2 h.2
  · rw [if_neg hmag]
    exact iff_of_false (by simp) fun h => hmag h.1

/-- The header that was read is that of the file, in the numbers of the format. -/
structure ElfHeader.Of (h : ElfHeader) (e : ElfFile) : Prop where
  eType : h.eType.toNat = e.ehdr (·.eType)
  eMachine : h.eMachine.toNat = e.ehdr (·.eMachine)
  eEntry : h.eEntry.toNat = e.ehdr (·.eEntry)
  ePhoff : h.ePhoff.toNat = e.ehdr (·.ePhoff)
  eShoff : h.eShoff.toNat = e.ehdr (·.eShoff)
  ePhentsize : h.ePhentsize.toNat = e.ehdr (·.ePhentsize)
  ePhnum : h.ePhnum.toNat = e.ehdr (·.ePhnum)
  eShentsize : h.eShentsize.toNat = e.ehdr (·.eShentsize)
  eShnum : h.eShnum.toNat = e.ehdr (·.eShnum)
  eShstrndx : h.eShstrndx.toNat = e.ehdr (·.eShstrndx)

theorem header_of (hsize : cls.ehdr.size ≤ b.len.toNat) : (b.header cls).Of (b.asElf cls) := by
  have hzero : (0 : UInt64).toNat = 0 := rfl
  have hwide {f : Field} (hf : f ∈ cls.ehdr.fields ∧ f.width ≤ 8) :
      (f.get b.view 0).toNat = f.read b.file 0 := by
    have hend := ehdr_within cls f hf.1
    have hin : (0 : UInt64).toNat + f.off.toNat + f.width ≤ b.len.toNat := by omega
    exact Binary.get_toNat hf.2 hin
  have hword {f : Field} (hf : f ∈ cls.ehdr.fields ∧ f.width ≤ 4) :
      (f.get b.view 0).toUInt32.toNat = f.read b.file 0 := by
    rw [Field.get_toUInt32 hf.2]
    exact hwide ⟨hf.1, le_trans hf.2 (by decide)⟩
  cases cls
  all_goals
    exact ⟨hword (by decide), hword (by decide), hwide (by decide), hwide (by decide), hwide (by decide),
      hword (by decide), hword (by decide), hword (by decide), hword (by decide), hword (by decide)⟩

/-- A table that is in the file passes its check. -/
theorem exceedsFile_of_le {len off : UInt64} {num entsize : UInt32} (hnum : num.toNat < 2 ^ 16)
    (hsize : entsize.toNat < 2 ^ 16) (hle : off.toNat + num.toNat * entsize.toNat ≤ len.toNat) :
    exceedsFile len off num entsize = false := by
  have hlen := len.toNat_lt
  rw [← Bool.not_eq_true, exceedsFile_iff hnum hsize, Nat.mod_eq_of_lt (by omega)]
  omega

/-- A header whose tables are in the file is accepted if it is one of the format. -/
theorem tables_headerOk_iff (hheader : cls.ehdr.size ≤ (b.asElf cls).bytes.length)
    (hphs : (b.asElf cls).phdrOff ((b.asElf cls).ehdr (·.ePhnum)) ≤ (b.asElf cls).bytes.length)
    (hshs : (b.asElf cls).shdrOff ((b.asElf cls).ehdr (·.eShnum)) ≤ (b.asElf cls).bytes.length) :
    b.HeaderOk cls ↔ (b.asElf cls).HeaderOk := by
  have hlen : (b.asElf cls).bytes.length = b.len.toNat := b.length_file
  have hnarrow := header_narrow b cls
  obtain ⟨htype, hmachine, hentry, hphoff, hshoff, hphsize, hphnum, hshsize, hshnum, hndx⟩ :=
    (header_of (hlen ▸ hheader) : (b.header cls).Of (b.asElf cls))
  have hphdrs : exceedsFile b.len (b.header cls).ePhoff (b.header cls).ePhnum
      (b.header cls).ePhentsize = false := by
    apply exceedsFile_of_le hnarrow.phnum hnarrow.phentsize
    rw [hphoff, hphnum, hphsize, ← hlen]
    exact hphs
  have hshdrs : exceedsFile b.len (b.header cls).eShoff (b.header cls).eShnum
      (b.header cls).eShentsize = false := by
    apply exceedsFile_of_le hnarrow.shnum hnarrow.shentsize
    rw [hshoff, hshnum, hshsize, ← hlen]
    exact hshs
  have hzero {x : UInt32} : x ≠ 0 ↔ x.toNat ≠ 0 := not_congr UInt32.toNat_inj.symm
  have hzero' {x : UInt64} : x ≠ 0 ↔ x.toNat ≠ 0 := not_congr UInt64.toNat_inj.symm
  have hfour : (b.header cls).eEntry % 4 = 0 ↔ (b.header cls).eEntry.toNat % 4 = 0 := by
    rw [← UInt64.toNat_inj, UInt64.toNat_mod]
    rfl
  rw [Binary.HeaderOk, prgElfIsValidHeader_iff]
  constructor
  · rintro ⟨⟨hps, hss⟩, hvalid⟩
    have hnz := hvalid.phdrs
    rw [hzero', hzero, hzero, hphoff, hphnum, hphsize] at hnz
    exact ⟨hphsize ▸ hps, hshsize ▸ hss, htype ▸ congrArg UInt32.toNat hvalid.exec,
      hmachine ▸ congrArg UInt32.toNat hvalid.riscv, hnz, hndx ▸ hshnum ▸ hvalid.shstrndx,
      hentry ▸ hfour.mp hvalid.aligned⟩
  · rintro ⟨hps, hss, hexec, hriscv, hnz, hlt, haligned⟩
    rw [← hphoff, ← hphnum, ← hphsize, ← hzero', ← hzero, ← hzero] at hnz
    have hss' : cls.ehdr.shdrSize.toNat ≤ (b.header cls).eShentsize.toNat := hshsize ▸ hss
    have hpos : 0 < cls.ehdr.shdrSize.toNat := by cases cls <;> decide
    refine ⟨⟨?_, hss'⟩, UInt32.toNat_inj.mp (htype.trans hexec), UInt32.toNat_inj.mp (hmachine.trans hriscv),
      hnz, hphdrs, hshdrs, hzero.mpr (by omega), ?_, hfour.mpr (hentry ▸ haligned)⟩
    · show cls.ehdr.phdrSize.toNat ≤ (b.header cls).ePhentsize.toNat
      exact hphsize ▸ hps
    · show (b.header cls).eShstrndx.toNat < (b.header cls).eShnum.toNat
      rw [hndx, hshnum]
      exact hlt

theorem headerOk_iff (hfile : (b.asElf cls).Complete) : b.HeaderOk cls ↔ (b.asElf cls).HeaderOk :=
  tables_headerOk_iff hfile.header hfile.phdrs hfile.shdrs

/-! ## The entries -/

/-- Program header `i`, in the numbers of the format. -/
structure PrgHeader.Of (ph : PrgHeader) (e : ElfFile) (i : Nat) : Prop where
  pType : ph.pType.toNat = e.phdr i (·.pType)
  pFlags : ph.pFlags.toNat = e.phdr i (·.pFlags)
  pOffset : ph.pOffset.toNat = e.phdr i (·.pOffset)
  pPaddr : ph.pPaddr.toNat = e.phdr i (·.pPaddr)
  pFilesz : ph.pFilesz.toNat = e.phdr i (·.pFilesz)

/-- Section header `i`, in the numbers of the format. -/
structure SecHeader.Of (sec : SecHeader) (e : ElfFile) (i : Nat) : Prop where
  shName : sec.shName.toNat = e.shdr i (·.shName)
  shAddr : sec.shAddr.toNat = e.shdr i (·.shAddr)
  shOffset : sec.shOffset.toNat = e.shdr i (·.shOffset)
  shSize : sec.shSize.toNat = e.shdr i (·.shSize)

/-- A field of an entry of a table that is in the file. -/
theorem entry_get {off : UInt64} {stride n i size : Nat} {fs : List Field} (hi : i < n)
    (hfs : Within size fs) (hsize : size ≤ stride) (htable : off.toNat + n * stride ≤ b.len.toNat)
    {f : Field} (hf : f ∈ fs) (hw : f.width ≤ 8) :
    (f.get b.view (entry off stride i)).toNat = f.read b.file (off.toNat + i * stride) := by
  obtain ⟨hbase, hend⟩ := entry_inside b.len.toNat_lt hi hsize htable
  have hlast := hfs f hf
  rw [← hbase]
  apply Binary.get_toNat hw
  omega

/-- The same of a field that is kept as a word. -/
theorem entry_getWord {off : UInt64} {stride n i size : Nat} {fs : List Field} (hi : i < n)
    (hfs : Within size fs) (hsize : size ≤ stride) (htable : off.toNat + n * stride ≤ b.len.toNat)
    {f : Field} (hf : f ∈ fs) (hw : f.width ≤ 4) :
    (f.get b.view (entry off stride i)).toUInt32.toNat = f.read b.file (off.toNat + i * stride) := by
  rw [Field.get_toUInt32 hw]
  exact entry_get hi hfs hsize htable hf (le_trans hw (by decide))

theorem Binary.length_prgHeaders (b : Binary) (cls : ElfClass) :
    (b.prgHeaders cls).length = (b.header cls).ePhnum.toNat := by
  rw [prgHeaders, phdrs, List.length_map, List.length_map, List.length_range]

theorem Binary.length_secHeaders (b : Binary) (cls : ElfClass) :
    (b.secHeaders cls).length = (b.header cls).eShnum.toNat := by
  rw [secHeaders, shdrs, List.length_map, List.length_map, List.length_range]

theorem prgHeader_of (hfile : (b.asElf cls).Complete) (hok : b.HeaderOk cls) (i : Nat)
    (hi : i < (b.prgHeaders cls).length) : (b.prgHeaders cls)[i].Of (b.asElf cls) i := by
  have hlen : (b.asElf cls).bytes.length = b.len.toNat := b.length_file
  have hof : (b.header cls).Of (b.asElf cls) := header_of (hlen ▸ hfile.header)
  have htable : (b.header cls).ePhoff.toNat +
      (b.header cls).ePhnum.toNat * (b.header cls).ePhentsize.toNat ≤ b.len.toNat := by
    rw [hof.ePhoff, hof.ePhnum, hof.ePhentsize, ← hlen]
    exact hfile.phdrs
  rw [Binary.length_prgHeaders] at hi
  have hoff : (b.header cls).ePhoff.toNat + i * (b.header cls).ePhentsize.toNat =
      (b.asElf cls).phdrOff i := by
    rw [ElfFile.phdrOff, hof.ePhoff, hof.ePhentsize]
  have hget : (b.prgHeaders cls)[i] = cls.phdr.get b.view
      (entry (b.header cls).ePhoff (b.header cls).ePhentsize.toNat i) := by
    simp only [Binary.prgHeaders, Binary.phdrs, List.getElem_map, List.getElem_range]
  have hsize : cls.ehdr.phdrSize.toNat ≤ (b.header cls).ePhentsize.toNat := hok.1.1
  have hwide {f : Field} := entry_get (f := f) hi (phdr_within cls) hsize htable
  have hword {f : Field} := entry_getWord (f := f) hi (phdr_within cls) hsize htable
  rw [hget]
  rw [hoff] at hwide hword
  cases cls
  all_goals
    constructor
    · exact hword (by decide) (by decide)
    · exact hword (by decide) (by decide)
    · exact hwide (by decide) (by decide)
    · exact hwide (by decide) (by decide)
    · exact hwide (by decide) (by decide)

theorem secHeader_of (hfile : (b.asElf cls).Complete) (hok : b.HeaderOk cls) (i : Nat)
    (hi : i < (b.secHeaders cls).length) : (b.secHeaders cls)[i].Of (b.asElf cls) i := by
  have hlen : (b.asElf cls).bytes.length = b.len.toNat := b.length_file
  have hof : (b.header cls).Of (b.asElf cls) := header_of (hlen ▸ hfile.header)
  have htable : (b.header cls).eShoff.toNat +
      (b.header cls).eShnum.toNat * (b.header cls).eShentsize.toNat ≤ b.len.toNat := by
    rw [hof.eShoff, hof.eShnum, hof.eShentsize, ← hlen]
    exact hfile.shdrs
  rw [Binary.length_secHeaders] at hi
  have hoff : (b.header cls).eShoff.toNat + i * (b.header cls).eShentsize.toNat =
      (b.asElf cls).shdrOff i := by
    rw [ElfFile.shdrOff, hof.eShoff, hof.eShentsize]
  have hget : (b.secHeaders cls)[i] = cls.shdr.get b.view
      (entry (b.header cls).eShoff (b.header cls).eShentsize.toNat i) := by
    simp only [Binary.secHeaders, Binary.shdrs, List.getElem_map, List.getElem_range]
  have hsize : cls.ehdr.shdrSize.toNat ≤ (b.header cls).eShentsize.toNat := hok.1.2
  have hwide {f : Field} := entry_get (f := f) hi (shdr_within cls) hsize htable
  have hword {f : Field} := entry_getWord (f := f) hi (shdr_within cls) hsize htable
  rw [hget]
  rw [hoff] at hwide hword
  cases cls
  all_goals
    constructor
    · exact hword (by decide) (by decide)
    · exact hwide (by decide) (by decide)
    · exact hwide (by decide) (by decide)
    · exact hwide (by decide) (by decide)

/-! ## The names -/

/-- Comparing with a name stays in the text up to its terminator. -/
theorem nameAt_iff {m : View} (name : List UInt8) : ∀ (off : UInt64) (n : Nat), 0 ∉ name →
    0 ∈ m.bytes off n → (nameAt m off name = true ↔ name ++ [0] <+: m.bytes off n) := by
  induction name with
  | nil =>
    intro off n _ hend
    cases n with
    | zero => exact absurd hend List.not_mem_nil
    | succ n =>
      rw [View.bytes_succ, nameAt, decide_eq_true_eq, List.nil_append, List.cons_prefix_cons]
      exact ⟨fun h => ⟨h.symm, List.nil_prefix⟩, fun h => h.1.symm⟩
  | cons c cs ih =>
    intro off n hname hend
    rw [List.mem_cons, not_or] at hname
    cases n with
    | zero => exact absurd hend List.not_mem_nil
    | succ n =>
      rw [View.bytes_succ] at hend ⊢
      rw [nameAt, Bool.and_eq_true, decide_eq_true_eq, List.cons_append, List.cons_prefix_cons,
        eq_comm (a := c)]
      refine and_congr_right fun hc => ih (off + 1) n hname.2 ?_
      -- the terminator is not this character
      exact (List.mem_cons.mp hend).resolve_left fun h => hname.1 (h.trans hc)

theorem shstr_of (hfile : (b.asElf cls).Complete) (hok : b.HeaderOk cls) :
    (b.shstr cls).Of (b.asElf cls) ((b.asElf cls).ehdr (·.eShstrndx)) := by
  have hlen : (b.asElf cls).bytes.length = b.len.toNat := b.length_file
  have hof : (b.header cls).Of (b.asElf cls) := header_of (hlen ▸ hfile.header)
  have hlt : (b.header cls).eShstrndx.toNat < (b.secHeaders cls).length := by
    rw [Binary.length_secHeaders]
    exact (prgElfIsValidHeader_iff.mp hok.2).shstrndx
  have hsec := secHeader_of hfile hok _ hlt
  rw [Binary.shstr, List.getD_eq_getElem _ _ hlt, ← hof.eShstrndx]
  exact hsec

theorem named_iff (hfile : (b.asElf cls).Complete) (hok : b.HeaderOk cls) {name : List UInt8}
    (hname : 0 ∉ name) (i : Nat) (hi : i < (b.secHeaders cls).length) :
    (b.secHeaders cls)[i].Named b.view (b.shstr cls) name ↔ (b.asElf cls).Named i name := by
  have hlen : (b.asElf cls).bytes.length = b.len.toNat := b.length_file
  have hof : (b.header cls).Of (b.asElf cls) := header_of (hlen ▸ hfile.header)
  have hsec := secHeader_of hfile hok i hi
  have hstr := shstr_of hfile hok
  rw [Binary.length_secHeaders, hof.eShnum] at hi
  have hhas : (b.secHeaders cls)[i].shName.toUInt64 < (b.shstr cls).shSize ↔
      (b.asElf cls).HasName i := by
    rw [UInt64.lt_iff_toNat_lt, UInt32.toNat_toUInt64, hsec.shName, hstr.shSize]
    rfl
  rw [SecHeader.Named, ElfFile.Named, hhas]
  refine and_congr_right fun hnamed => ?_
  have hend : 0 ∈ (b.asElf cls).nameText i := hfile.names i hi hnamed
  have hsum : (b.asElf cls).strtab (·.shOffset) + (b.asElf cls).shdr i (·.shName) < b.len.toNat := by
    rw [← hlen]
    exact List.length_lt_of_drop_ne_nil (List.ne_nil_of_mem hend)
  -- the sum of the pointers does not wrap: there is a terminator behind it
  have hoff : ((b.shstr cls).shOffset + (b.secHeaders cls)[i].shName.toUInt64).toNat =
      (b.asElf cls).strtab (·.shOffset) + (b.asElf cls).shdr i (·.shName) := by
    have hstrtab : (b.shstr cls).shOffset.toNat = (b.asElf cls).strtab (·.shOffset) := hstr.shOffset
    rw [UInt64.toNat_add, UInt32.toNat_toUInt64, hsec.shName, hstrtab]
    exact Nat.mod_eq_of_lt (lt_trans hsum b.len.toNat_lt)
  have htext : (b.asElf cls).nameText i = b.view.bytes
      ((b.shstr cls).shOffset + (b.secHeaders cls)[i].shName.toUInt64)
      (b.len.toNat - ((b.shstr cls).shOffset + (b.secHeaders cls)[i].shName.toUInt64).toNat) := by
    rw [← View.drop_file, ← Binary.file_eq, hoff]
    rfl
  rw [htext] at hend ⊢
  exact nameAt_iff name _ _ hname hend

theorem hasMagic_iff (hfile : (b.asElf cls).Complete) (hok : b.HeaderOk cls) (i : Nat)
    (hi : i < (b.secHeaders cls).length) (hcomm : (b.asElf cls).Named i commSection) :
    (b.secHeaders cls)[i].HasMagic b.view ↔
      number (b.asElf cls).bytes ((b.asElf cls).shdr i (·.shOffset)) 4 = baremetalCrtCommMagic.toNat := by
  have hlen : (b.asElf cls).bytes.length = b.len.toNat := b.length_file
  have hof : (b.header cls).Of (b.asElf cls) := header_of (hlen ▸ hfile.header)
  have hsec := secHeader_of hfile hok i hi
  rw [Binary.length_secHeaders, hof.eShnum] at hi
  have hin := hfile.magics i hi hcomm
  rw [hlen, ← hsec.shOffset] at hin
  have hget : ((⟨0, 4⟩ : Field).get b.view (b.secHeaders cls)[i].shOffset).toNat =
      number b.file (b.secHeaders cls)[i].shOffset.toNat 4 := Binary.get_toNat (by decide) hin
  rw [SecHeader.HasMagic, ← UInt32.toNat_inj, Field.get_toUInt32 (by decide), hget, hsec.shOffset]
  rfl

/-! ## The scan -/

/-- The scan has found what some section is. -/
theorem scan_found (m : View) (shstr : SecHeader) (secs : List SecHeader) (scan : Scan) :
    (secs.foldl (scanStep m shstr) scan).foundComm =
        (scan.foundComm || secs.any fun sec => sec.Named m shstr commSection ∧ sec.HasMagic m) ∧
      (secs.foldl (scanStep m shstr) scan).foundCommArea =
        (scan.foundCommArea || secs.any fun sec => sec.Named m shstr commAreaSection) := by
  induction secs generalizing scan with
  | nil => exact ⟨(Bool.or_false _).symm, (Bool.or_false _).symm⟩
  | cons sec secs ih =>
    obtain ⟨hcomm, harea⟩ := ih (scanStep m shstr scan sec)
    rw [List.foldl_cons, hcomm, harea, List.any_cons, List.any_cons, ← Bool.or_assoc, ← Bool.or_assoc]
    exact ⟨rfl, rfl⟩

/-- The last communication area is the one that the scan keeps. -/
theorem scan_comm (m : View) (shstr : SecHeader) (secs : List SecHeader) (scan : Scan)
    (hsome : ∃ sec ∈ secs, sec.Named m shstr commAreaSection) :
    ∃ i, ∃ hi : i < secs.length, secs[i].Named m shstr commAreaSection ∧
      (∀ j, (hj : j < secs.length) → i < j → ¬ secs[j].Named m shstr commAreaSection) ∧
      (secs.foldl (scanStep m shstr) scan).comm = ⟨secs[i].shAddr, secs[i].shSize⟩ := by
  induction secs using List.reverseRecOn with
  | nil =>
    obtain ⟨sec, hsec, -⟩ := hsome
    exact absurd hsec List.not_mem_nil
  | append_singleton secs sec ih =>
    rw [List.foldl_append]
    by_cases harea : sec.Named m shstr commAreaSection
    · refine ⟨secs.length, by simp, by simpa using harea, fun j hj hlt => ?_, ?_⟩
      · rw [List.length_append, List.length_singleton] at hj
        omega
      · simp [scanStep, harea]
    · have hbefore : ∃ sec ∈ secs, sec.Named m shstr commAreaSection := by
        obtain ⟨x, hx, hnamed⟩ := hsome
        refine ⟨x, (List.mem_append.mp hx).resolve_right fun h => ?_, hnamed⟩
        exact harea (List.mem_singleton.mp h ▸ hnamed)
      obtain ⟨i, hi, hnamed, hlast, hcomm⟩ := ih hbefore
      refine ⟨i, by simp; omega, by rwa [List.getElem_append_left hi], fun j hj hlt => ?_, ?_⟩
      · rw [List.length_append, List.length_singleton] at hj
        by_cases hjlt : j < secs.length
        · rw [List.getElem_append_left hjlt]
          exact hlast j hjlt hlt
        · have hjeq : j = secs.length := by omega
          subst hjeq
          simpa using harea
      · rw [List.getElem_append_left hi, ← hcomm]
        simp [scanStep, harea]

/-! ## The chunks -/

theorem length_chunkList (phs : List PrgHeader) (k : Nat) : (chunkList b k phs).length = phs.length := by
  induction phs generalizing k with
  | nil => rfl
  | cons ph phs ih => exact congrArg (· + 1) (ih (k + 1))

theorem getElem_chunkList (phs : List PrgHeader) : ∀ (k j : Nat) (hj : j < phs.length)
    (hj' : j < (chunkList b k phs).length),
    (chunkList b k phs)[j] =
      if phs[j].pType = ptLoad then { phs[j].chunk b with index := (k + j : Nat) } else .zero := by
  induction phs with
  | nil =>
    intro k j hj
    exact absurd hj (Nat.not_lt_zero j)
  | cons ph phs ih =>
    intro k j hj hj'
    cases j with
    | zero => rfl
    | succ j =>
      have hrest := ih (k + 1) j (Nat.lt_of_succ_lt_succ hj) (Nat.lt_of_succ_lt_succ hj')
      rw [Nat.add_right_comm] at hrest
      exact hrest

/-- The bytes that the chunk of a header points to are bytes of the file. -/
theorem load_ptr {off : UInt64} {n : Nat} (hin : n ≠ 0 → off.toNat + n ≤ b.len.toNat) :
    b.mem.load (b.ptr off) n = (b.file.drop off.toNat).take n := by
  cases n with
  | zero => rfl
  | succ n =>
    replace hin := hin (Nat.succ_ne_zero n)
    rw [Binary.ptr_eq (by omega), Binary.file, ByteMap.load, ByteMap.load, ← List.map_drop, ← List.map_take]
    apply List.ext_getElem
    · simp only [List.length_map, List.length_range, List.length_take, List.length_drop]
      omega
    · intro i _ _
      simp only [List.getElem_map, List.getElem_range, List.getElem_take, List.getElem_drop, Nat.add_assoc]

theorem chunk_of {e : ElfFile} {ph : PrgHeader} {i : Nat} (hph : ph.Of e i) (hbytes : e.bytes = b.file)
    (hin : e.phdr i (·.pFilesz) ≠ 0 → e.phdr i (·.pOffset) + e.phdr i (·.pFilesz) ≤ b.len.toNat)
    (hsmall : e.phdr i (·.pFilesz) < 2 ^ 32) :
    e.ChunkOf b.mem i { ph.chunk b with index := i } := by
  have hsize : ph.pFilesz.toUInt32.toNat = e.phdr i (·.pFilesz) := by
    rw [UInt64.toNat_toUInt32, hph.pFilesz]
    exact Nat.mod_eq_of_lt hsmall
  constructor
  · rfl
  · exact hph.pPaddr
  · exact hsize
  · show b.mem.load (b.ptr ph.pOffset) ph.pFilesz.toUInt32.toNat = _
    rw [hsize, load_ptr (by rw [hph.pOffset]; exact hin), hph.pOffset, hbytes]
  · show decide (ph.pFlags &&& pfW = 0) = true ↔ _
    rw [decide_eq_true_eq, ← UInt32.toNat_inj, UInt32.toNat_and, hph.pFlags]
    rfl
  · rfl

/-! ## The load -/

/-- With enough memory, the load behind an accepted header depends on the scan only. -/
theorem prgElfLoad_header {s : Loading} (hmagic : s.prg.magic = openclIcdMagic) (hcls : b.cls? = some cls)
    (hok : b.HeaderOk cls) :
    ((prgElfLoad b .all s).1 = .ok () ↔
        (b.scan cls).foundComm = true ∧ (b.scan cls).foundCommArea = true) ∧
      ((prgElfLoad b .all s).1 = .ok () → (prgElfLoad b .all s).2.prg =
        { s.prg with
          chunks := some (chunkList b 0 (b.prgHeaders cls))
          numChunks := (b.header cls).ePhnum.toNat
          comm := (b.scan cls).comm }) := by
  have hload := prgElfLoad_apply (b := b) .all s hmagic
  have hph := prgElfReadPh_apply (b := b) .all cls (s.touch (b.headTouches cls)) hmagic
  have hshs := prgElfReadShs_apply (b := b) .all cls (b.chunked cls (s.touch (b.headTouches cls))) hmagic
  rw [if_neg (by decide), hcls] at hload
  rw [if_neg (by decide), if_neg (by decide)] at hph
  rw [if_neg (by decide)] at hshs
  simp only [if_pos hok] at hload
  rw [Exec.bind_ok hph, hshs] at hload
  rw [hload]
  by_cases hfound : (b.scan cls).foundComm = true ∧ (b.scan cls).foundCommArea = true
  · rw [if_pos hfound]
    exact ⟨iff_of_true rfl hfound, fun _ => rfl⟩
  · rw [if_neg hfound]
    exact ⟨iff_of_false (fun h => nomatch h) hfound, fun h => nomatch h⟩

/-- Without an accepted header nothing is loaded. -/
theorem prgElfLoad_refused {s : Loading} (hmagic : s.prg.magic = openclIcdMagic)
    (hno : ∀ cls, b.cls? = some cls → ¬ b.HeaderOk cls) : (prgElfLoad b .all s).1 ≠ .ok () := by
  intro h
  have hload := prgElfLoad_apply (b := b) .all s hmagic
  rw [if_neg (by decide)] at hload
  cases hcls : b.cls? with
  | none =>
    rw [hcls] at hload
    rw [hload] at h
    cases h
  | some cls =>
    rw [hcls] at hload
    simp only [if_neg (hno cls hcls)] at hload
    rw [hload] at h
    cases h

/-- The scan over a complete file finds the sections of the format. -/
theorem scan_found_iff (hfile : (b.asElf cls).Complete) (hok : b.HeaderOk cls) :
    ((b.scan cls).foundComm = true ↔
        ∃ i < (b.asElf cls).ehdr (·.eShnum), (b.asElf cls).Named i commSection ∧
          number (b.asElf cls).bytes ((b.asElf cls).shdr i (·.shOffset)) 4 =
            baremetalCrtCommMagic.toNat) ∧
      ((b.scan cls).foundCommArea = true ↔
        ∃ i < (b.asElf cls).ehdr (·.eShnum), (b.asElf cls).Named i commAreaSection) := by
  have hlen : (b.asElf cls).bytes.length = b.len.toNat := b.length_file
  have hof : (b.header cls).Of (b.asElf cls) := header_of (hlen ▸ hfile.header)
  have hcount : (b.secHeaders cls).length = (b.asElf cls).ehdr (·.eShnum) := by
    rw [Binary.length_secHeaders, hof.eShnum]
  obtain ⟨hcomm, harea⟩ := scan_found b.view (b.shstr cls) (b.secHeaders cls) ⟨false, false, ⟨0, 0⟩⟩
  rw [Binary.scan, hcomm, harea, Bool.false_or, Bool.false_or, List.any_eq_true, List.any_eq_true]
  constructor
  · constructor
    · rintro ⟨sec, hsec, hboth⟩
      obtain ⟨i, hi, rfl⟩ := List.getElem_of_mem hsec
      obtain ⟨hnamed, hmagic⟩ := of_decide_eq_true hboth
      have hname := (named_iff hfile hok (by decide) i hi).mp hnamed
      exact ⟨i, hcount ▸ hi, hname, (hasMagic_iff hfile hok i hi hname).mp hmagic⟩
    · rintro ⟨i, hi, hname, hmagic⟩
      rw [← hcount] at hi
      exact ⟨_, List.getElem_mem hi, decide_eq_true
        ⟨(named_iff hfile hok (by decide) i hi).mpr hname, (hasMagic_iff hfile hok i hi hname).mpr hmagic⟩⟩
  · constructor
    · rintro ⟨sec, hsec, hnamed⟩
      obtain ⟨i, hi, rfl⟩ := List.getElem_of_mem hsec
      exact ⟨i, hcount ▸ hi, (named_iff hfile hok (by decide) i hi).mp (of_decide_eq_true hnamed)⟩
    · rintro ⟨i, hi, hname⟩
      rw [← hcount] at hi
      exact ⟨_, List.getElem_mem hi, decide_eq_true ((named_iff hfile hok (by decide) i hi).mpr hname)⟩

/-- What the load of an accepted file leaves is the program of the file. -/
theorem loaded_of_scan (hfile : (b.asElf cls).Complete) (hok : b.HeaderOk cls)
    (harea : (b.scan cls).foundCommArea = true) {p : ClProgram}
    (hchunks : p.chunks = some (chunkList b 0 (b.prgHeaders cls)))
    (hnum : p.numChunks = (b.header cls).ePhnum.toNat) (hcomm : p.comm = (b.scan cls).comm) :
    (b.asElf cls).Loaded b.mem p := by
  have hlen : (b.asElf cls).bytes.length = b.len.toNat := b.length_file
  have hof : (b.header cls).Of (b.asElf cls) := header_of (hlen ▸ hfile.header)
  have hphs : (b.prgHeaders cls).length = (b.asElf cls).ehdr (·.ePhnum) := by
    rw [Binary.length_prgHeaders, hof.ePhnum]
  have hcount : (b.secHeaders cls).length = (b.asElf cls).ehdr (·.eShnum) := by
    rw [Binary.length_secHeaders, hof.eShnum]
  constructor
  · rw [hnum, hof.ePhnum]
  · refine ⟨_, hchunks, (length_chunkList _ _).trans hphs, fun i hi => ?_⟩
    have hi' : i < (b.prgHeaders cls).length := length_chunkList (b := b) _ 0 ▸ hi
    have hph := prgHeader_of hfile hok i hi'
    have htype : (b.prgHeaders cls)[i].pType = ptLoad ↔
        (b.asElf cls).phdr i (·.pType) = ptLoad.toNat := by
      rw [← UInt32.toNat_inj, hph.pType]
    rw [getElem_chunkList _ 0 i hi' hi, Nat.zero_add]
    by_cases hload : (b.prgHeaders cls)[i].pType = ptLoad
    · obtain ⟨hin, hsmall⟩ := hfile.loads i (hphs ▸ hi') (htype.mp hload)
      rw [if_pos (htype.mp hload), if_pos hload]
      exact chunk_of hph rfl (hlen ▸ hin) hsmall
    · rw [if_neg (mt htype.mpr hload), if_neg hload]
  · obtain ⟨i₀, hi₀, hname₀⟩ := (scan_found_iff hfile hok).2.mp harea
    rw [← hcount] at hi₀
    obtain ⟨i, hi, hnamed, hlast, hscan⟩ := scan_comm b.view (b.shstr cls) (b.secHeaders cls)
      ⟨false, false, ⟨0, 0⟩⟩ ⟨_, List.getElem_mem hi₀, (named_iff hfile hok (by decide) i₀ hi₀).mpr hname₀⟩
    have hsec := secHeader_of hfile hok i hi
    have hkept : p.comm = ⟨(b.secHeaders cls)[i].shAddr, (b.secHeaders cls)[i].shSize⟩ := hcomm.trans hscan
    refine ⟨i, hcount ▸ hi, (named_iff hfile hok (by decide) i hi).mp hnamed, fun j hj hlt hname => ?_, ?_, ?_⟩
    · rw [← hcount] at hj
      exact hlast j hj hlt ((named_iff hfile hok (by decide) j hj).mpr hname)
    · rw [hkept]
      exact hsec.shAddr
    · rw [hkept]
      exact hsec.shSize

/-- A complete file of a class is accepted exactly if it is an executable, and then the program that is
loaded is the one in it. -/
theorem prgElfLoad_complete {s : Loading} (hmagic : s.prg.magic = openclIcdMagic) (hlen : 5 ≤ b.len.toNat)
    (hident : (b.asElf cls).Identified) (hin : (b.asElf cls).Complete) :
    ((prgElfLoad b .all s).1 = .ok () ↔ (b.asElf cls).Executable) ∧
      ((prgElfLoad b .all s).1 = .ok () → (b.asElf cls).Loaded b.mem (prgElfLoad b .all s).2.prg) := by
  have hcls := (cls?_iff hlen).mpr hident
  by_cases hok : b.HeaderOk cls
  · obtain ⟨hiff, hprg⟩ := prgElfLoad_header hmagic hcls hok
    obtain ⟨hcomm, harea⟩ := scan_found_iff hin hok
    refine ⟨⟨fun h => ?_, fun h => ?_⟩, fun h => ?_⟩
    · exact ⟨hident, (headerOk_iff hin).mp hok, hcomm.mp (hiff.mp h).1, harea.mp (hiff.mp h).2⟩
    · exact hiff.mpr ⟨hcomm.mpr h.comm, harea.mpr h.commArea⟩
    · have hleft := hprg h
      exact loaded_of_scan hin hok (hiff.mp h).2 (by rw [hleft]) (by rw [hleft]) (by rw [hleft])
  · have hno : (prgElfLoad b .all s).1 ≠ .ok () := by
      apply prgElfLoad_refused hmagic
      intro c hc
      -- a file has one class
      rwa [Option.some.inj (hc.symm.trans hcls)]
    exact ⟨iff_of_false hno fun h => hok ((headerOk_iff hin).mpr h.header), fun h => absurd h hno⟩

/-- **The loader accepts its format**: a complete file is accepted exactly if it is an executable of one
of the classes, and then the program that is loaded is the one in it. -/
theorem prgElfLoad_executable (b : Binary) (s : Loading) (hmagic : s.prg.magic = openclIcdMagic)
    (hlen : 5 ≤ b.len.toNat) (hfile : ∀ cls, (b.asElf cls).Identified → (b.asElf cls).Complete) :
    ((prgElfLoad b .all s).1 = .ok () ↔ ∃ cls, (b.asElf cls).Executable) ∧
      ((prgElfLoad b .all s).1 = .ok () →
        ∃ cls, (b.asElf cls).Executable ∧ (b.asElf cls).Loaded b.mem (prgElfLoad b .all s).2.prg) := by
  by_cases hclass : ∃ cls, (b.asElf cls).Identified
  · obtain ⟨cls, hident⟩ := hclass
    obtain ⟨hiff, hloaded⟩ := prgElfLoad_complete hmagic hlen hident (hfile cls hident)
    refine ⟨⟨fun h => ⟨cls, hiff.mp h⟩, fun ⟨c, hc⟩ => ?_⟩, fun h => ⟨cls, hiff.mp h, hloaded h⟩⟩
    exact (prgElfLoad_complete hmagic hlen hc.identified (hfile c hc.identified)).1.mpr hc
  · have hno : (prgElfLoad b .all s).1 ≠ .ok () :=
      prgElfLoad_refused hmagic fun cls hcls => absurd ⟨cls, (cls?_iff hlen).mp hcls⟩ hclass
    exact ⟨iff_of_false hno fun ⟨cls, hcls⟩ => hclass ⟨cls, hcls.identified⟩, fun h => absurd h hno⟩

/-- A small executable: one program header, and the sections `.comm`, `.comm_area` and the names. -/
def smallFile : List UInt8 :=
  [0x7f, 0x45, 0x4c, 0x46, 1, 1, 1, 0, 0, 0, 0, 0, 0, 0, 0, 0, 2, 0, 0xf3, 0, 1, 0, 0, 0,
    0, 0, 0, 0x80, 52, 0, 0, 0, 84, 0, 0, 0, 0, 0, 0, 0, 52, 0, 32, 0, 1, 0, 40, 0, 3, 0, 2, 0] ++
  [1, 0, 0, 0, 204, 0, 0, 0, 0, 0, 0, 0x80, 0, 0, 0, 0x80, 4, 0, 0, 0, 4, 0, 0, 0, 5, 0, 0, 0, 4, 0, 0, 0] ++
  [0, 0, 0, 0, 1, 0, 0, 0, 2, 0, 0, 0, 0, 0, 0, 0x80, 204, 0, 0, 0, 4, 0, 0, 0] ++ List.replicate 16 0 ++
  [6, 0, 0, 0, 8, 0, 0, 0, 3, 0, 0, 0, 0, 0, 1, 0x80, 0, 0, 0, 0, 0, 16, 0, 0] ++ List.replicate 16 0 ++
  [5, 0, 0, 0, 3, 0, 0, 0, 0, 0, 0, 0, 0, 0, 0, 0, 208, 0, 0, 0, 17, 0, 0, 0] ++ List.replicate 16 0 ++
  [0xe5, 0xaf, 0xdc, 0xba] ++ commSection ++ [0] ++ commAreaSection ++ [0]

/-- The small executable, in the memory of a host. -/
def smallElf : Binary where
  mem := fun a => smallFile.getD (a - 0x1000) 0
  buf := 0x1000
  len := 225
  fits := by decide
  small := by decide

theorem smallElf_complete (cls : ElfClass) (h : (smallElf.asElf cls).Identified) :
    (smallElf.asElf cls).Complete := by
  cases cls with
  | elf32 =>
    constructor
    all_goals decide +kernel
  | elf64 => exact absurd h (by decide +kernel)

/-- It is loaded. -/
theorem smallElf_loaded :
    ∃ p, prgElfLoad smallElf .all ⟨⟨openclIcdMagic, 0, none, ⟨0, 0⟩⟩, []⟩ = (.ok (), p) ∧
      ∃ cls, (smallElf.asElf cls).Executable ∧ (smallElf.asElf cls).Loaded smallElf.mem p.prg := by
  have h := prgElfLoad_executable smallElf ⟨⟨openclIcdMagic, 0, none, ⟨0, 0⟩⟩, []⟩ rfl (by decide)
    smallElf_complete
  have hexec : (smallElf.asElf .elf32).Executable := by
    constructor
    · decide +kernel
    · constructor
      all_goals decide +kernel
    all_goals decide +kernel
  have hok := h.1.mpr ⟨.elf32, hexec⟩
  exact ⟨_, Prod.ext hok rfl, h.2 hok⟩

/-- A buffer that holds the bytes `bs` of a file, at the address `0x1000`. -/
def Binary.ofFile (bs : List UInt8) (h : bs.length < 2 ^ 32) : Binary where
  mem := fun a => bs.getD (a - 0x1000) 0
  buf := 0x1000
  len := UInt64.ofNat bs.length
  fits := by
    rw [UInt64.toNat_ofNat_of_lt' (lt_trans h (by decide))]
    show 0x1000 + bs.length ≤ 2 ^ 64
    omega
  small := by
    rw [UInt64.toNat_ofNat_of_lt' (lt_trans h (by decide))]
    exact lt_trans h (by decide)

/-- The small executable as a file of the 64-bit class, with the given size of its segment. -/
def wideFile (filesz : List UInt8) : List UInt8 :=
  [0x7f, 0x45, 0x4c, 0x46, 2, 1, 1, 0, 0, 0, 0, 0, 0, 0, 0, 0, 2, 0, 0xf3, 0, 1, 0, 0, 0,
    0, 0, 0, 0x80, 0, 0, 0, 0, 64, 0, 0, 0, 0, 0, 0, 0, 120, 0, 0, 0, 0, 0, 0, 0,
    0, 0, 0, 0, 64, 0, 56, 0, 1, 0, 64, 0, 3, 0, 2, 0] ++
  [1, 0, 0, 0, 5, 0, 0, 0, 0x38, 1, 0, 0, 0, 0, 0, 0, 0, 0, 0, 0x80, 0, 0, 0, 0,
    0, 0, 0, 0x80, 0, 0, 0, 0] ++ filesz ++ filesz ++ [4, 0, 0, 0, 0, 0, 0, 0] ++
  [0, 0, 0, 0, 1, 0, 0, 0, 2, 0, 0, 0, 0, 0, 0, 0, 0, 0, 0, 0x80, 0, 0, 0, 0, 0x38, 1, 0, 0, 0, 0, 0, 0,
    4] ++ List.replicate 31 0 ++
  [6, 0, 0, 0, 8, 0, 0, 0, 3, 0, 0, 0, 0, 0, 0, 0, 0, 0, 1, 0x80, 0, 0, 0, 0, 0, 0, 0, 0, 0, 0, 0, 0,
    0, 16] ++ List.replicate 30 0 ++
  [5, 0, 0, 0, 3, 0, 0, 0, 0, 0, 0, 0, 0, 0, 0, 0, 0, 0, 0, 0, 0, 0, 0, 0, 0x3c, 1, 0, 0, 0, 0, 0, 0,
    17] ++ List.replicate 31 0 ++
  [0xe5, 0xaf, 0xdc, 0xba] ++ commSection ++ [0] ++ commAreaSection ++ [0]

end BaremetalCrt
