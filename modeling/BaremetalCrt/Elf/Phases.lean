/-
# BaremetalCrt.Elf.Phases — what each phase of the load returns and reads.

Each routine of the loader is an equation (`prgElfGetClass_apply` to `prgElfReadShs_apply`): what it returns
is a function of the bytes around the buffer, and its accesses are a list known beforehand.  Results on the
loader are results on these functions.

The part on the binary (`Binary.header`, `Binary.prgHeaders`, `Binary.secHeaders`, `Binary.scan`) is in
terms of the class, so that what is proved from here on is proved once for both. `Binary.loadTouches` is the
list of all accesses of a load, in order; `prgElfLoad_apply` is the whole load as one equation.
-/
import BaremetalCrt.Elf.Load

namespace BaremetalCrt

open Lib

variable {b : Binary} {m : View}

/-! ## What is in a binary -/

/-- The layout of the ELF header in a class, so that the phases can be said once for both. -/
def ElfClass.ehdr : ElfClass → EhdrLayout
  | .elf32 => elf32Ehdr
  | .elf64 => elf64Ehdr

/-- The layout of a program header in a class. -/
def ElfClass.phdr : ElfClass → PhdrLayout
  | .elf32 => elf32Phdr
  | .elf64 => elf64Phdr

/-- The layout of a section header in a class. -/
def ElfClass.shdr : ElfClass → ShdrLayout
  | .elf32 => elf32Shdr
  | .elf64 => elf64Shdr

/-- The fields in the order in which the loader reads them. -/
def EhdrLayout.fields (l : EhdrLayout) : List Field :=
  [l.eType, l.eMachine, l.eVersion, l.eEntry, l.ePhoff, l.eShoff, l.eFlags, l.eEhsize, l.ePhentsize,
    l.ePhnum, l.eShentsize, l.eShnum, l.eShstrndx]

/-- The fields in the order in which the loader reads them. -/
def PhdrLayout.fields (l : PhdrLayout) : List Field :=
  [l.pType, l.pFlags, l.pOffset, l.pVaddr, l.pPaddr, l.pFilesz, l.pMemsz, l.pAlign]

/-- The fields in the order in which the loader reads them. -/
def ShdrLayout.fields (l : ShdrLayout) : List Field :=
  [l.shName, l.shType, l.shFlags, l.shAddr, l.shOffset, l.shSize, l.shLink, l.shInfo, l.shAddralign,
    l.shEntsize]

/-- The header that the bytes of a binary are read as. -/
def EhdrLayout.get (l : EhdrLayout) (m : View) : ElfHeader where
  eType := (l.eType.get m 0).toUInt32
  eMachine := (l.eMachine.get m 0).toUInt32
  eVersion := (l.eVersion.get m 0).toUInt32
  eEntry := l.eEntry.get m 0
  ePhoff := l.ePhoff.get m 0
  eShoff := l.eShoff.get m 0
  eFlags := (l.eFlags.get m 0).toUInt32
  eEhsize := (l.eEhsize.get m 0).toUInt32
  ePhentsize := (l.ePhentsize.get m 0).toUInt32
  ePhnum := (l.ePhnum.get m 0).toUInt32
  eShentsize := (l.eShentsize.get m 0).toUInt32
  eShnum := (l.eShnum.get m 0).toUInt32
  eShstrndx := (l.eShstrndx.get m 0).toUInt32

/-- The program header that the bytes from `base` on are read as. -/
def PhdrLayout.get (l : PhdrLayout) (m : View) (base : UInt64) : PrgHeader where
  pType := (l.pType.get m base).toUInt32
  pFlags := (l.pFlags.get m base).toUInt32
  pOffset := l.pOffset.get m base
  pVaddr := l.pVaddr.get m base
  pPaddr := l.pPaddr.get m base
  pFilesz := l.pFilesz.get m base
  pMemsz := l.pMemsz.get m base
  pAlign := l.pAlign.get m base

/-- The section header that the bytes from `base` on are read as. -/
def ShdrLayout.get (l : ShdrLayout) (m : View) (base : UInt64) : SecHeader where
  shName := (l.shName.get m base).toUInt32
  shType := (l.shType.get m base).toUInt32
  shFlags := l.shFlags.get m base
  shAddr := l.shAddr.get m base
  shOffset := l.shOffset.get m base
  shSize := l.shSize.get m base
  shLink := (l.shLink.get m base).toUInt32
  shInfo := (l.shInfo.get m base).toUInt32
  shAddralign := l.shAddralign.get m base
  shEntsize := l.shEntsize.get m base

namespace Binary

variable (b) (cls : ElfClass)

/-- The class that the identification gives, if its magic number is right. -/
def cls? : Option ElfClass :=
  if (b.view.bytes 0 4) = elfMag then
    if b.view 4 = 1 then some .elf32 else if b.view 4 = 2 then some .elf64 else none
  else none

/-- The ELF header of the binary, taken for one of the class. -/
def header : ElfHeader := cls.ehdr.get b.view

/-- Where the program headers start: `e_phnum` places from `e_phoff` on, `e_phentsize` apart. -/
def phdrs : List UInt64 :=
  (List.range (b.header cls).ePhnum.toNat).map
    (entry (b.header cls).ePhoff (b.header cls).ePhentsize.toNat)

/-- Where the section headers start: `e_shnum` places from `e_shoff` on, `e_shentsize` apart. -/
def shdrs : List UInt64 :=
  (List.range (b.header cls).eShnum.toNat).map
    (entry (b.header cls).eShoff (b.header cls).eShentsize.toNat)

/-- The program headers of the binary, in the order of the table. -/
def prgHeaders : List PrgHeader := (b.phdrs cls).map (cls.phdr.get b.view)

/-- The section headers of the binary, in the order of the table. -/
def secHeaders : List SecHeader := (b.shdrs cls).map (cls.shdr.get b.view)

/-- The header of the section that holds the names. -/
def shstr : SecHeader := (b.secHeaders cls).getD (b.header cls).eShstrndx.toNat .zero

/-- The entries are at least as large as the records in them. -/
def SizesOk : Prop :=
  cls.ehdr.phdrSize ≤ (b.header cls).ePhentsize ∧ cls.ehdr.shdrSize ≤ (b.header cls).eShentsize

instance : Decidable (b.SizesOk cls) := inferInstanceAs (Decidable (_ ∧ _))

end Binary

/-- The section's name is `name`: `sh_name` lies in the string table, and the string there is `name`. -/
def SecHeader.Named (sec : SecHeader) (m : View) (shstr : SecHeader) (name : List UInt8) : Prop :=
  sec.shName.toUInt64 < shstr.shSize ∧ nameAt m (shstr.shOffset + sec.shName.toUInt64) name = true

instance (sec shstr : SecHeader) (name : List UInt8) : Decidable (sec.Named m shstr name) :=
  inferInstanceAs (Decidable (_ ∧ _))

/-- The magic number of a communication section is right. -/
def SecHeader.HasMagic (sec : SecHeader) (m : View) : Prop :=
  ((⟨0, 4⟩ : Field).get m sec.shOffset).toUInt32 = baremetalCrtCommMagic

instance (sec : SecHeader) : Decidable (sec.HasMagic m) := inferInstanceAs (Decidable (_ = _))

/-! ## Accesses -/

@[simp] theorem Loading.touch_nil (s : Loading) : s.touch [] = s := by
  rw [touch, List.append_nil]

@[simp] theorem Loading.touch_touch (s : Loading) (ts us : List Touch) :
    (s.touch ts).touch us = s.touch (ts ++ us) := by
  rw [touch, touch, touch, List.append_assoc]

@[simp] theorem readField_apply (base : UInt64) (f : Field) (s : Loading) :
    readField b base f s = (.ok (f.get b.view base), s.touch [f.touch base]) := rfl

theorem readField_bind {α : Type} (base : UInt64) (f : Field) (k : UInt64 → Load α) (s : Loading) :
    (readField b base f >>= k) s = k (f.get b.view base) (s.touch [f.touch base]) := rfl

theorem demand_bind {α : Type} (r : ClInt) (k : Unit → Load α) (s : Loading) :
    (demand r >>= k) s = if r = clSuccess then k () s else (.error (.ret r), s) := by
  by_cases hr : r = clSuccess
  · rw [if_pos hr, demand, if_pos hr]
    rfl
  · rw [if_neg hr, demand, if_neg hr]
    rfl

/-- `if (c) return r;` -/
theorem stop_if {α β : Type} (c : Prop) [Decidable c] (r : ClInt) (k : β → Load α) (f : Load α)
    (s : Loading) : (if c then stop r >>= k else f) s = if c then (.error (.ret r), s) else f s := by
  by_cases hc : c
  · rw [if_pos hc, if_pos hc]
    rfl
  · rw [if_neg hc, if_neg hc]

/-! ## The identification -/

/-- The bytes that the comparison with `cs` looks at. -/
def magTouches (m : View) : UInt64 → List UInt8 → List Touch
  | _, [] => []
  | i, c :: cs => .bytes i 1 :: if m i = c then magTouches m (i + 1) cs else []

/-- The bytes from `i` on are those of `cs`, compared one after the other up to the first difference. -/
def magMatches (m : View) : UInt64 → List UInt8 → Bool
  | _, [] => true
  | i, c :: cs => m i = c && magMatches m (i + 1) cs

theorem get_byte (m : View) (i : UInt64) : (⟨0, 1⟩ : Field).get m i = (m i).toUInt64 := by
  apply UInt64.toNat_inj.mp
  simp [Field.get, View.bytes, leNat]

theorem readMag_apply (cs : List UInt8) : ∀ (i : UInt64) (s : Loading),
    readMag b i cs s =
      (if magMatches b.view i cs then .ok () else .error (.ret clInvalidBinary),
        s.touch (magTouches b.view i cs)) := by
  induction cs with
  | nil =>
    intro i s
    rw [magTouches, Loading.touch_nil]
    rfl
  | cons c cs ih =>
    intro i s
    have hbyte : (b.view i).toUInt64 ≠ c.toUInt64 ↔ b.view i ≠ c := by
      rw [ne_eq, ne_eq, ← UInt64.toNat_inj, ← UInt8.toNat_inj, UInt8.toNat_toUInt64, UInt8.toNat_toUInt64]
    rw [readMag, readField_bind, stop_if, get_byte, magTouches, magMatches]
    by_cases hc : b.view i = c
    · rw [if_neg (mt hbyte.mp (not_not.mpr hc))]
      show readMag b (i + 1) cs _ = _
      rw [ih, if_pos hc, Loading.touch_touch]
      simp [hc, Field.touch]
    · rw [if_pos (hbyte.mpr hc), if_neg hc]
      simp [hc, Field.touch]

theorem magMatches_elfMag : magMatches m 0 elfMag = true ↔ m.bytes 0 4 = elfMag := by
  simp [magMatches, elfMag, View.bytes, List.range_succ]

/-- The bytes of the identification that are looked at. -/
def identTouches (m : View) : List Touch :=
  magTouches m 0 elfMag ++ if m.bytes 0 4 = elfMag then [.bytes 4 1] else []

theorem prgElfGetClass_apply (s : Loading) :
    prgElfGetClass b s =
      ((b.cls?).elim (.error (.ret clInvalidBinary)) .ok, s.touch (identTouches b.view)) := by
  rw [prgElfGetClass, Exec.bind_apply, readMag_apply, identTouches, Binary.cls?]
  by_cases hmag : b.view.bytes 0 4 = elfMag
  · rw [if_pos (magMatches_elfMag.mpr hmag), if_pos hmag, if_pos hmag]
    show (readField b 4 ⟨0, 1⟩ >>= _) _ = _
    rw [readField_bind, get_byte, Loading.touch_touch]
    have hone : (b.view 4).toUInt64 = 1 ↔ b.view 4 = 1 := by
      rw [← UInt64.toNat_inj, ← UInt8.toNat_inj, UInt8.toNat_toUInt64]
      rfl
    have htwo : (b.view 4).toUInt64 = 2 ↔ b.view 4 = 2 := by
      rw [← UInt64.toNat_inj, ← UInt8.toNat_inj, UInt8.toNat_toUInt64]
      rfl
    by_cases h1 : b.view 4 = 1
    · rw [if_pos (hone.mpr h1), if_pos h1]
      rfl
    · rw [if_neg (mt hone.mp h1), if_neg h1]
      by_cases h2 : b.view 4 = 2
      · rw [if_pos (htwo.mpr h2), if_pos h2]
        rfl
      · rw [if_neg (mt htwo.mp h2), if_neg h2]
        rfl
  · rw [if_neg (mt magMatches_elfMag.mp hmag), if_neg hmag, if_neg hmag, List.append_nil]
    rfl

/-! ## The ELF header -/

theorem readEhdr_apply (l : EhdrLayout) (s : Loading) :
    readEhdr b l s =
      (if l.phdrSize ≤ (l.get b.view).ePhentsize ∧ l.shdrSize ≤ (l.get b.view).eShentsize then
          .ok (l.get b.view)
        else .error (.ret clInvalidBinary),
        s.touch (l.fields.map (Field.touch 0))) := by
  unfold readEhdr
  simp only [readField_bind, Loading.touch_touch, List.cons_append, List.nil_append, stop_if]
  have hph : (l.ePhentsize.get b.view 0).toUInt32 < l.phdrSize ↔
      ¬ l.phdrSize ≤ (l.get b.view).ePhentsize := UInt32.not_le.symm
  have hsh : (l.eShentsize.get b.view 0).toUInt32 < l.shdrSize ↔
      ¬ l.shdrSize ≤ (l.get b.view).eShentsize := UInt32.not_le.symm
  by_cases h₁ : l.phdrSize ≤ (l.get b.view).ePhentsize
  · rw [if_neg (mt hph.mp (not_not.mpr h₁))]
    by_cases h₂ : l.shdrSize ≤ (l.get b.view).eShentsize
    · rw [if_neg (mt hsh.mp (not_not.mpr h₂)), if_pos ⟨h₁, h₂⟩]
      rfl
    · rw [if_pos (hsh.mpr h₂), if_neg (mt And.right h₂)]
      rfl
  · rw [if_pos (hph.mpr h₁), if_neg (mt And.left h₁)]
    rfl

theorem prgElfReadElf_apply (cls : ElfClass) (s : Loading) :
    prgElfReadElf b cls s =
      (if b.SizesOk cls then .ok (b.header cls) else .error (.ret clInvalidBinary),
        s.touch (cls.ehdr.fields.map (Field.touch 0))) := by
  cases cls
  · exact readEhdr_apply elf32Ehdr s
  · exact readEhdr_apply elf64Ehdr s

/-- What `prg_elf_is_valid_header` demands of a header, the file being `len` bytes long. -/
structure ElfHeader.Valid (len : UInt64) (e : ElfHeader) : Prop where
  exec : e.eType = etExec
  riscv : e.eMachine = emRiscv
  phdrs : e.ePhoff ≠ 0 ∧ e.ePhnum ≠ 0 ∧ e.ePhentsize ≠ 0
  phdrsEnd : exceedsFile len e.ePhoff e.ePhnum e.ePhentsize = false
  shdrsEnd : exceedsFile len e.eShoff e.eShnum e.eShentsize = false
  shentsize : e.eShentsize ≠ 0
  shstrndx : e.eShstrndx < e.eShnum
  aligned : e.eEntry % 4 = 0

/-- `if (c) return CL_INVALID_BINARY;` -/
theorem refuse_iff {c : Prop} [Decidable c] {r : ClInt} :
    (if c then clInvalidBinary else r) = clSuccess ↔ ¬ c ∧ r = clSuccess := by
  by_cases hc : c
  · rw [if_pos hc]
    exact ⟨fun h => absurd h (by decide), fun h => absurd hc h.1⟩
  · rw [if_neg hc]
    exact ⟨fun h => ⟨hc, h⟩, And.right⟩

theorem prgElfIsValidHeader_iff {len : UInt64} {e : ElfHeader} :
    prgElfIsValidHeader len e = clSuccess ↔ e.Valid len := by
  unfold prgElfIsValidHeader
  simp only [refuse_iff, not_or, ne_eq, not_not, Bool.not_eq_true, UInt32.not_le, and_true]
  constructor
  · -- the end of the section headers is tested twice
    rintro ⟨hexec, hriscv, hphdrs, hphend, hshend, hsize, -, hndx, hentry⟩
    exact ⟨hexec, hriscv, hphdrs, hphend, hshend, hsize, hndx, hentry⟩
  · rintro ⟨hexec, hriscv, hphdrs, hphend, hshend, hsize, hndx, hentry⟩
    exact ⟨hexec, hriscv, hphdrs, hphend, hshend, hsize, hshend, hndx, hentry⟩

/-- The check of a table whose numbers have 16 bits: the sum of its offset and its size wraps. -/
theorem exceedsFile_iff {len off : UInt64} {num entsize : UInt32} (hnum : num.toNat < 2 ^ 16)
    (hsize : entsize.toNat < 2 ^ 16) :
    exceedsFile len off num entsize = true ↔
      len.toNat < (off.toNat + num.toNat * entsize.toNat) % 2 ^ 64 := by
  -- the product of two numbers of 16 bits does not wrap, so that only the sum can
  have hmul : num.toNat * entsize.toNat < 2 ^ 32 :=
    lt_of_le_of_lt (Nat.mul_le_mul (Nat.le_sub_one_of_lt hnum) (Nat.le_sub_one_of_lt hsize)) (by decide)
  rw [exceedsFile, decide_eq_true_eq, UInt64.lt_iff_toNat_lt, UInt64.toNat_add, UInt32.toNat_toUInt64,
    UInt32.toNat_mul, Nat.mod_eq_of_lt hmul]

/-! ## The tables -/

theorem readPhdr_apply (l : PhdrLayout) (base : UInt64) (s : Loading) :
    readPhdr b l base s = (.ok (l.get b.view base), s.touch (l.fields.map (Field.touch base))) := by
  unfold readPhdr
  simp only [readField_bind, Loading.touch_touch, List.cons_append, List.nil_append]
  rfl

theorem readShdr_apply (l : ShdrLayout) (base : UInt64) (s : Loading) :
    readShdr b l base s = (.ok (l.get b.view base), s.touch (l.fields.map (Field.touch base))) := by
  unfold readShdr
  simp only [readField_bind, Loading.touch_touch, List.cons_append, List.nil_append]
  rfl

/-- A loop over a table of 16-bit size reads its entries in order. -/
theorem readTable_apply {α : Type} {read : UInt64 → Load α} {get : UInt64 → α} {fs : List Field}
    (hread : ∀ base s, read base s = (.ok (get base), s.touch (fs.map (Field.touch base))))
    (ent : UInt64) {entsize : UInt32} (hsize : entsize.toNat < 2 ^ 16) (n : Nat) :
    ∀ (i : UInt32) (s : Loading), i.toNat + n < 2 ^ 16 →
      readTable read ent entsize i n s =
        (.ok (((List.range' i.toNat n).map (entry ent entsize.toNat)).map get),
          s.touch (touches fs ((List.range' i.toNat n).map (entry ent entsize.toNat)))) := by
  induction n with
  | zero =>
    intro i s _
    exact congrArg (Prod.mk _) (Loading.touch_nil s).symm
  | succ n ih =>
    intro i s hlt
    have hone : (1 : UInt32).toNat = 1 := rfl
    have hsucc : (i + 1).toNat = i.toNat + 1 := by
      rw [UInt32.toNat_add, hone]
      exact Nat.mod_eq_of_lt (by omega)
    have hmul : i.toNat * entsize.toNat < 2 ^ 32 := by
      have hle : i.toNat * entsize.toNat ≤ 2 ^ 16 * entsize.toNat := Nat.mul_le_mul_right _ (by omega)
      omega
    have hbase : ent + (i * entsize).toUInt64 = entry ent entsize.toNat i.toNat := by
      rw [entry]
      congr 1
      apply UInt64.toNat_inj.mp
      rw [UInt32.toNat_toUInt64, UInt32.toNat_mul, Nat.mod_eq_of_lt hmul,
        UInt64.toNat_ofNat_of_lt' (lt_trans hmul (by decide))]
    rw [readTable, Exec.bind_ok (hread _ s), Exec.bind_ok (ih (i + 1) _ (by omega)), hbase, hsucc,
      List.range'_succ, Loading.touch_touch]
    rfl

/-- The counts and the entry sizes of a header are 16-bit numbers. -/
structure ElfHeader.Narrow (e : ElfHeader) : Prop where
  phnum : e.ePhnum.toNat < 2 ^ 16
  phentsize : e.ePhentsize.toNat < 2 ^ 16
  shnum : e.eShnum.toNat < 2 ^ 16
  shentsize : e.eShentsize.toNat < 2 ^ 16

theorem header_narrow (b : Binary) (cls : ElfClass) : (b.header cls).Narrow := by
  have hhalf (f : Field) (hf : f.width = 2) : (f.get b.view 0).toUInt32.toNat < 2 ^ 16 := by
    have hlt := Field.get_lt (m := b.view) (by omega : f.width ≤ 8) 0
    rw [hf] at hlt
    rw [UInt64.toNat_toUInt32]
    exact lt_of_le_of_lt (Nat.mod_le _ _) hlt
  cases cls <;> exact ⟨hhalf _ rfl, hhalf _ rfl, hhalf _ rfl, hhalf _ rfl⟩

/-- What is touched when all program headers are read: every field of every header. -/
def Binary.phdrTouches (b : Binary) (cls : ElfClass) : List Touch := touches cls.phdr.fields (b.phdrs cls)

/-- What is touched when all section headers are read. -/
def Binary.shdrTouches (b : Binary) (cls : ElfClass) : List Touch := touches cls.shdr.fields (b.shdrs cls)

theorem readPhs_apply (cls : ElfClass) (s : Loading) :
    readPhs b (b.header cls) cls s = (.ok (b.prgHeaders cls), s.touch (b.phdrTouches cls)) := by
  obtain ⟨hnum, hsize, -, -⟩ := header_narrow b cls
  have hzero : (0 : UInt32).toNat = 0 := rfl
  have htable (l : PhdrLayout) := readTable_apply (readPhdr_apply (b := b) l) (b.header cls).ePhoff hsize
    (b.header cls).ePhnum.toNat 0 s (by omega)
  simp only [hzero, ← List.range_eq_range'] at htable
  cases cls
  · exact htable elf32Phdr
  · exact htable elf64Phdr

theorem readShs_apply (cls : ElfClass) (s : Loading) :
    readShs b (b.header cls) cls s = (.ok (b.secHeaders cls), s.touch (b.shdrTouches cls)) := by
  obtain ⟨-, -, hnum, hsize⟩ := header_narrow b cls
  have hzero : (0 : UInt32).toNat = 0 := rfl
  have htable (l : ShdrLayout) := readTable_apply (readShdr_apply (b := b) l) (b.header cls).eShoff hsize
    (b.header cls).eShnum.toNat 0 s (by omega)
  simp only [hzero, ← List.range_eq_range'] at htable
  cases cls
  · exact htable elf32Shdr
  · exact htable elf64Shdr

/-! ## The chunks -/

/-- The chunks of the headers, from header `i` on: empty ones where nothing is loaded. -/
def chunkList (b : Binary) : Nat → List PrgHeader → List ProgramChunk
  | _, [] => []
  | i, ph :: phs =>
    (if ph.pType = ptLoad then { ph.chunk b with index := i } else .zero) :: chunkList b (i + 1) phs

/-- The program with its array set up to chunk `i`. -/
theorem setChunks_apply (phs : List PrgHeader) : ∀ (i : UInt32) (done : List ProgramChunk) (s : Loading),
    s.prg.magic = openclIcdMagic → s.prg.numChunks = done.length + phs.length →
    s.prg.chunks = some (done ++ List.replicate phs.length .zero) → done.length = i.toNat →
    i.toNat + phs.length < 2 ^ 16 →
      setChunks b i phs s =
        (.ok (), { s with prg := { s.prg with chunks := some (done ++ chunkList b i.toNat phs) } }) := by
  induction phs with
  | nil =>
    intro i done s _ _ hchunks _ _
    have hsame : s.prg.chunks = some (done ++ chunkList b i.toNat []) := hchunks
    rw [← hsame]
    rfl
  | cons ph phs ih =>
    intro i done s hmagic hnum hchunks hdone hlt
    rw [List.length_cons] at hnum hlt
    have hone : (1 : UInt32).toNat = 1 := rfl
    have hsucc : (i + 1).toNat = i.toNat + 1 := by
      rw [UInt32.toNat_add, hone]
      exact Nat.mod_eq_of_lt (by omega)
    rw [List.length_cons, List.replicate_succ] at hchunks
    -- the entry of this header
    let one : ProgramChunk := if ph.pType = ptLoad then { ph.chunk b with index := i.toNat } else .zero
    have hstep : (if ph.pType = ptLoad then putChunk i (ph.chunk b) else pure ()) s =
        (.ok (), { s with prg := { s.prg with
          chunks := some ((done ++ [one]) ++ List.replicate phs.length .zero) } }) := by
      by_cases hload : ph.pType = ptLoad
      · have hin : ¬ s.prg.numChunks ≤ (i.toNat : Int) := by omega
        have hset : (done ++ ProgramChunk.zero :: List.replicate phs.length .zero).set i.toNat
            { ph.chunk b with index := i.toNat } =
              (done ++ [one]) ++ List.replicate phs.length .zero := by
          rw [← hdone, List.set_append_right _ _ le_rfl, Nat.sub_self, List.set_cons_zero, hdone,
            List.append_assoc]
          simp only [one, if_pos hload]
          rfl
        rw [if_pos hload, putChunk]
        show (demand _ >>= _) s = _
        rw [demand_bind, if_pos hmagic, if_pos rfl, stop_if, if_neg hin]
        show (_, { s with prg := s.prg.putChunk i.toNat (ph.chunk b) }) = _
        rw [ClProgram.putChunk, hchunks, Option.map_some, hset]
      · have hsame : s.prg.chunks = some ((done ++ [one]) ++ List.replicate phs.length .zero) := by
          rw [hchunks, List.append_assoc]
          simp only [one, if_neg hload]
          rfl
        rw [if_neg hload, ← hsame]
        rfl
    have hrest := ih (i + 1) (done ++ [one]) { s with prg := { s.prg with
      chunks := some ((done ++ [one]) ++ List.replicate phs.length .zero) } } hmagic
      (by rw [List.length_append, List.length_singleton]; push_cast at hnum ⊢; omega) rfl
      (by rw [List.length_append, List.length_singleton, hdone, hsucc]) (by omega)
    rw [hsucc] at hrest
    have hbody : setChunks b i (ph :: phs) =
        (if ph.pType = ptLoad then putChunk i (ph.chunk b) else pure ()) >>= fun _ =>
          setChunks b (i + 1) phs := by
      rw [setChunks]
      split <;> rfl
    have hlist : done ++ chunkList b i.toNat (ph :: phs) =
        (done ++ [one]) ++ chunkList b (i.toNat + 1) phs := List.append_cons ..
    rw [hbody, Exec.bind_ok hstep, hlist]
    exact hrest

/-- The state behind `prg_elf_read_ph`: one chunk for each program header, and their reads on record. -/
def Binary.chunked (b : Binary) (cls : ElfClass) (s : Loading) : Loading where
  prg := { s.prg with
    chunks := some (chunkList b 0 (b.prgHeaders cls)), numChunks := (b.header cls).ePhnum.toNat }
  reads := s.reads ++ b.phdrTouches cls

/-- Reading the program headers: they are touched, then the program has a new array of chunks, unless an
allocation fails. -/
theorem prgElfReadPh_apply (a : Allocs) (cls : ElfClass) (s : Loading)
    (hmagic : s.prg.magic = openclIcdMagic) :
    prgElfReadPh b a cls (b.header cls) s =
      if a.phs = false then (.error (.ret clOutOfHostMemory), s)
      else if a.chunks = false then
        (.error (.ret clOutOfHostMemory),
          { s.touch (b.phdrTouches cls) with prg := { s.prg with chunks := none } })
      else (.ok (), b.chunked cls s) := by
  rw [prgElfReadPh, stop_if]
  cases hphs : a.phs with
  | false => rfl
  | true =>
    rw [if_neg (by simp), if_neg (by simp)]
    show (readPhs b (b.header cls) cls >>= _) s = _
    rw [Exec.bind_ok (readPhs_apply cls s)]
    cases hchunks : a.chunks with
    | false =>
      rw [if_pos rfl]
      show (prgSetNumChunks false _ >>= _) (s.touch _) = _
      apply Exec.bind_error
      show (demand _ >>= _) (s.touch _) = _
      rw [demand_bind, if_pos (show (s.touch _).prg.magic = openclIcdMagic from hmagic), if_pos rfl]
      rfl
    | true =>
      rw [if_neg (by simp)]
      have hnum := header_narrow b cls
      have hlen : (b.prgHeaders cls).length = (b.header cls).ePhnum.toNat := by
        rw [Binary.prgHeaders, Binary.phdrs, List.length_map, List.length_map, List.length_range]
      have hset : prgSetNumChunks true (b.header cls).ePhnum.toNat (s.touch (b.phdrTouches cls)) =
          (.ok (), { s.touch (b.phdrTouches cls) with
            prg := { s.prg with
              chunks := some (List.replicate (b.header cls).ePhnum.toNat .zero)
              numChunks := (b.header cls).ePhnum.toNat } }) := by
        show (demand _ >>= _) (s.touch _) = _
        rw [demand_bind, if_pos (show (s.touch _).prg.magic = openclIcdMagic from hmagic), if_pos rfl]
        rfl
      show (prgSetNumChunks true _ >>= _) (s.touch _) = _
      rw [Exec.bind_ok hset]
      exact setChunks_apply (b.prgHeaders cls) 0 [] _ hmagic (by simp [hlen]) (by rw [hlen]; rfl) rfl
        (by rw [hlen]; exact (Nat.zero_add _).symm ▸ hnum.phnum)

/-! ## The sections -/

/-- The access to a name: the string is read up to its terminator, unless the index is outside the table. -/
def ShName.touches : ShName → List Touch
  | .at off => [.cstr off]
  | .unknown => []

theorem strcmpIs_apply {name : List UInt8} (hname : ascii "(unknown)" ≠ name) (shstr sec : SecHeader)
    (s : Loading) :
    strcmpIs b name (getShName shstr sec.shName) s =
      (.ok (decide (sec.Named b.view shstr name)), s.touch (getShName shstr sec.shName).touches) := by
  unfold getShName SecHeader.Named
  by_cases hle : shstr.shSize ≤ sec.shName.toUInt64
  · rw [if_pos hle]
    have hlt : ¬ sec.shName.toUInt64 < shstr.shSize := UInt64.not_lt.mpr hle
    simp [strcmpIs, hlt, hname, ShName.touches]
  · rw [if_neg hle]
    have hlt : sec.shName.toUInt64 < shstr.shSize := UInt64.not_le.mp hle
    simp [strcmpIs, hlt, ShName.touches]

/-- What one section adds to the scan: it may be `.comm` with the magic number, or `.comm_area` with a
range. A later `.comm_area` replaces an earlier one. -/
def scanStep (m : View) (shstr : SecHeader) (scan : Scan) (sec : SecHeader) : Scan where
  foundComm := scan.foundComm || decide (sec.Named m shstr commSection ∧ sec.HasMagic m)
  foundCommArea := scan.foundCommArea || decide (sec.Named m shstr commAreaSection)
  comm := if sec.Named m shstr commAreaSection then ⟨sec.shAddr, sec.shSize⟩ else scan.comm

/-- What is touched for one section: its name, and once more if it is not `.comm`; the magic number if it
is, and the name once more if that is right. -/
def scanTouches (m : View) (shstr sec : SecHeader) : List Touch :=
  (getShName shstr sec.shName).touches ++
    if sec.Named m shstr commSection then
      .bytes sec.shOffset 4 :: if sec.HasMagic m then (getShName shstr sec.shName).touches else []
    else (getShName shstr sec.shName).touches

theorem commSection_eq : commSection = [46, 99, 111, 109, 109] := by decide

theorem commAreaSection_eq : commAreaSection = [46, 99, 111, 109, 109, 95, 97, 114, 101, 97] := by decide

/-- No string is both names: where the one ends, the other goes on. -/
theorem commArea_of_comm {shstr sec : SecHeader} (h : sec.Named m shstr commSection) :
    ¬ sec.Named m shstr commAreaSection := by
  rintro ⟨-, harea⟩
  have hcomm := h.2
  rw [commSection_eq] at hcomm
  rw [commAreaSection_eq] at harea
  simp only [nameAt, Bool.and_eq_true, decide_eq_true_eq] at hcomm harea
  obtain ⟨-, -, -, -, -, hend⟩ := hcomm
  obtain ⟨-, -, -, -, -, hon, -⟩ := harea
  rw [hend] at hon
  exact absurd hon (by decide)

theorem scanCommArea_apply (shstr sec : SecHeader) (scan : Scan) (s : Loading) :
    scanCommArea b (getShName shstr sec.shName) sec scan s =
      (.ok (if sec.Named b.view shstr commAreaSection then
          { scan with foundCommArea := true, comm := ⟨sec.shAddr, sec.shSize⟩ } else scan),
        s.touch (getShName shstr sec.shName).touches) := by
  rw [scanCommArea, Exec.bind_ok (strcmpIs_apply (by decide) shstr sec s)]
  by_cases harea : sec.Named b.view shstr commAreaSection
  · rw [if_pos (decide_eq_true harea), if_pos harea]
    rfl
  · rw [if_neg (mt of_decide_eq_true harea), if_neg harea]
    rfl

theorem scanSection_apply (shstr sec : SecHeader) (scan : Scan) (s : Loading) :
    scanSection b shstr sec scan s =
      (.ok (scanStep b.view shstr scan sec), s.touch (scanTouches b.view shstr sec)) := by
  rw [scanSection, Exec.bind_ok (strcmpIs_apply (by decide) shstr sec s), scanTouches]
  by_cases hcomm : sec.Named b.view shstr commSection
  · rw [if_pos (decide_eq_true hcomm), if_pos hcomm, readField_bind, Loading.touch_touch]
    have harea := commArea_of_comm hcomm
    have hword : ((⟨0, 4⟩ : Field).get b.view sec.shOffset).toUInt32 ≠ baremetalCrtCommMagic ↔
      ¬ sec.HasMagic b.view := Iff.rfl
    by_cases hmagic : sec.HasMagic b.view
    · rw [if_neg (mt hword.mp (not_not.mpr hmagic)), if_pos hmagic, scanCommArea_apply, if_neg harea,
        Loading.touch_touch, List.append_assoc]
      simp [scanStep, hcomm, hmagic, harea, Field.touch]
    · rw [if_pos (hword.mpr hmagic), if_neg hmagic]
      -- passed over: the name was not compared again, but it could not have been the other one
      have hsame : scanStep b.view shstr scan sec = scan := by simp [scanStep, hmagic, harea]
      rw [hsame]
      simp [Field.touch]
  · rw [if_neg (mt of_decide_eq_true hcomm), if_neg hcomm, scanCommArea_apply, Loading.touch_touch]
    by_cases harea : sec.Named b.view shstr commAreaSection
    · simp [scanStep, hcomm, harea]
    · simp [scanStep, hcomm, harea]

theorem scanSections_apply (shstr : SecHeader) (secs : List SecHeader) : ∀ (scan : Scan) (s : Loading),
    scanSections b shstr secs scan s =
      (.ok (secs.foldl (scanStep b.view shstr) scan),
        s.touch (secs.flatMap (scanTouches b.view shstr))) := by
  induction secs with
  | nil =>
    intro scan s
    exact congrArg (Prod.mk _) (Loading.touch_nil s).symm
  | cons sec secs ih =>
    intro scan s
    rw [scanSections, Exec.bind_ok (scanSection_apply shstr sec scan s), ih, Loading.touch_touch]
    rfl

namespace Binary

variable (b) (cls : ElfClass)

/-- What the scan over the sections finds, as a fold in the order of the table. -/
def scan : Scan :=
  (b.secHeaders cls).foldl (scanStep b.view (b.shstr cls)) ⟨false, false, ⟨0, 0⟩⟩

/-- What the scan over the sections touches, section by section. -/
def nameTouches : List Touch := (b.secHeaders cls).flatMap (scanTouches b.view (b.shstr cls))

end Binary

/-- Reading the section headers: the table and the names are touched, then the program has its
communication area if both sections were found. -/
theorem prgElfReadShs_apply (a : Allocs) (cls : ElfClass) (s : Loading)
    (hmagic : s.prg.magic = openclIcdMagic) :
    prgElfReadShs b a cls (b.header cls) s =
      if a.shs = false then (.error (.ret clOutOfHostMemory), s)
      else if (b.scan cls).foundComm ∧ (b.scan cls).foundCommArea then
        (.ok (),
          { s.touch (b.shdrTouches cls ++ b.nameTouches cls) with
            prg := { s.prg with comm := (b.scan cls).comm } })
      else (.error (.ret clInvalidBinary), s.touch (b.shdrTouches cls ++ b.nameTouches cls)) := by
  rw [prgElfReadShs, stop_if]
  cases hshs : a.shs with
  | false => rfl
  | true =>
    rw [if_neg (by simp), if_neg (by simp)]
    show (readShs b (b.header cls) cls >>= _) s = _
    rw [Exec.bind_ok (readShs_apply cls s), Exec.bind_ok (scanSections_apply _ _ _ _), Loading.touch_touch]
    have hscan : (b.secHeaders cls).foldl
        (scanStep b.view ((b.secHeaders cls).getD (b.header cls).eShstrndx.toNat .zero))
          ⟨false, false, ⟨0, 0⟩⟩ = b.scan cls := rfl
    rw [hscan]
    by_cases hcomm : (b.scan cls).foundComm = true
    · rw [if_neg (not_not.mpr hcomm)]
      by_cases harea : (b.scan cls).foundCommArea = true
      · rw [if_neg (not_not.mpr harea), if_pos ⟨hcomm, harea⟩]
        show (demand _ >>= _) (s.touch _) = _
        rw [demand_bind, if_pos (show (s.touch _).prg.magic = openclIcdMagic from hmagic), if_pos rfl]
        rfl
      · rw [if_pos harea, if_neg (mt And.right harea)]
        rfl
    · rw [if_pos hcomm, if_neg (mt And.left hcomm)]
      rfl

/-! ## The load -/

namespace Binary

variable (b) (cls : ElfClass)

/-- The header is accepted: the sizes agree with the class, and `prg_elf_is_valid_header` returns
`CL_SUCCESS`. -/
def HeaderOk : Prop := b.SizesOk cls ∧ prgElfIsValidHeader b.len (b.header cls) = clSuccess

instance : Decidable (b.HeaderOk cls) := inferInstanceAs (Decidable (_ ∧ _))

/-- What is touched before the tables are: the identification and the ELF header. -/
def headTouches : List Touch := identTouches b.view ++ cls.ehdr.fields.map (Field.touch 0)

/-- What is touched of the tables and the names, the allocations going as in `a`. -/
def tableTouches (a : Allocs) : List Touch :=
  if a.phs then
    b.phdrTouches cls ++ if a.chunks ∧ a.shs then b.shdrTouches cls ++ b.nameTouches cls else []
  else []

/-- Everything that a load touches, in order. Nothing is read when the first allocation fails, and a file of
no known class is left after its identification. -/
def loadTouches (a : Allocs) : List Touch :=
  if a.elfInfo then
    match b.cls? with
    | none => identTouches b.view
    | some cls => b.headTouches cls ++ if b.HeaderOk cls then b.tableTouches cls a else []
  else []

end Binary

/-- The load up to the tables: without `elf_info` it goes through `NULL`, then it needs a class, then a
header that it accepts. -/
theorem prgElfLoad_apply (a : Allocs) (s : Loading) (hmagic : s.prg.magic = openclIcdMagic) :
    prgElfLoad b a s =
      if a.elfInfo = false then (.error .crash, s)
      else match b.cls? with
        | none => (.error (.ret clInvalidBinary), s.touch (identTouches b.view))
        | some cls =>
          if b.HeaderOk cls then
            (prgElfReadPh b a cls (b.header cls) >>= fun _ => prgElfReadShs b a cls (b.header cls))
              (s.touch (b.headTouches cls))
          else
            (.error (.ret (if b.SizesOk cls then prgElfIsValidHeader b.len (b.header cls)
              else clInvalidBinary)), s.touch (b.headTouches cls)) := by
  let rest (cls : ElfClass) : Load Unit := do
    let e ← prgElfReadElf b cls
    demand (prgElfIsValidHeader b.len e)
    prgElfReadPh b a cls e
    prgElfReadShs b a cls e
  rw [prgElfLoad]
  show (demand _ >>= _) s = _
  rw [demand_bind, if_pos hmagic, if_pos rfl]
  cases hinfo : a.elfInfo with
  | false => rfl
  | true =>
    rw [if_neg (by simp)]
    show (prgElfGetClass b >>= rest) s = _
    rw [Exec.bind_apply, prgElfGetClass_apply]
    cases hcls : b.cls? with
    | none => rfl
    | some cls =>
      show rest cls (s.touch _) = if b.HeaderOk cls then _ else _
      rw [show rest cls = (prgElfReadElf b cls >>= _) from rfl, Exec.bind_apply, prgElfReadElf_apply,
        Loading.touch_touch]
      have hok : b.HeaderOk cls ↔
          b.SizesOk cls ∧ prgElfIsValidHeader b.len (b.header cls) = clSuccess := Iff.rfl
      by_cases hsizes : b.SizesOk cls
      · rw [if_pos hsizes]
        show (demand _ >>= _) (s.touch (b.headTouches cls)) = _
        rw [demand_bind]
        by_cases hvalid : prgElfIsValidHeader b.len (b.header cls) = clSuccess
        · rw [if_pos hvalid, if_pos (hok.mpr ⟨hsizes, hvalid⟩)]
        · rw [if_neg hvalid, if_neg fun h => hvalid (hok.mp h).2, if_pos hsizes]
      · rw [if_neg hsizes, if_neg fun h => hsizes (hok.mp h).1, if_neg hsizes]
        rfl

/-- The accesses behind an accepted header. -/
theorem tables_reads (a : Allocs) (cls : ElfClass) (s : Loading) (hmagic : s.prg.magic = openclIcdMagic) :
    ((prgElfReadPh b a cls (b.header cls) >>= fun _ => prgElfReadShs b a cls (b.header cls)) s).2.reads =
      s.reads ++ b.tableTouches cls a := by
  have hph := prgElfReadPh_apply (b := b) a cls s hmagic
  rw [Binary.tableTouches]
  cases hphs : a.phs with
  | false =>
    rw [if_pos hphs] at hph
    rw [Exec.bind_error hph]
    exact (List.append_nil _).symm
  | true =>
    rw [if_neg (by simp [hphs])] at hph
    rw [if_pos rfl]
    cases hchunks : a.chunks with
    | false =>
      rw [if_pos hchunks] at hph
      rw [Exec.bind_error hph]
      exact congrArg (s.reads ++ ·) (List.append_nil _).symm
    | true =>
      rw [if_neg (by simp [hchunks])] at hph
      have hmagic' : (b.chunked cls s).prg.magic = openclIcdMagic := hmagic
      rw [Exec.bind_ok hph, prgElfReadShs_apply a cls _ hmagic']
      cases hshs : a.shs with
      | false => exact congrArg (s.reads ++ ·) (List.append_nil _).symm
      | true =>
        rw [if_neg (by simp)]
        by_cases hfound : (b.scan cls).foundComm = true ∧ (b.scan cls).foundCommArea = true
        · rw [if_pos hfound, if_pos ⟨rfl, rfl⟩]
          exact List.append_assoc ..
        · rw [if_neg hfound, if_pos ⟨rfl, rfl⟩]
          exact List.append_assoc ..

/-- The accesses of a load, in their order. -/
theorem prgElfLoad_reads (a : Allocs) (s : Loading) (hmagic : s.prg.magic = openclIcdMagic) :
    (prgElfLoad b a s).2.reads = s.reads ++ b.loadTouches a := by
  have hload := prgElfLoad_apply (b := b) a s hmagic
  rw [Binary.loadTouches]
  cases hinfo : a.elfInfo with
  | false =>
    rw [if_pos hinfo] at hload
    rw [hload]
    exact (List.append_nil _).symm
  | true =>
    rw [if_neg (by simp [hinfo])] at hload
    rw [if_pos rfl, hload]
    cases b.cls? with
    | none => rfl
    | some cls =>
      by_cases hok : b.HeaderOk cls
      · simp only [if_pos hok]
        rw [tables_reads a cls (s.touch _) hmagic]
        exact List.append_assoc ..
      · simp only [if_neg hok, List.append_nil]
        rfl

end BaremetalCrt
