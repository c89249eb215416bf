/-
# BaremetalCrt.Elf.Load — `prg_elf_load` (`drivers/program_elf.c`).

The loader as the source computes it, in the order in which it does so:

* the identification (`prgElfGetClass`): four bytes of magic number, and the class of 32 or of 64 bits;
* the ELF header (`prgElfReadElf`), and the tests that it has to pass (`prgElfIsValidHeader`);
* the program headers (`prgElfReadPh`): every `PT_LOAD` header becomes a chunk of the program, which points
  into the binary, and the chunks of the others stay empty;
* the section headers (`prgElfReadShs`): the scan over the names looks for a `.comm` section with the right
  magic number and for `.comm_area`, whose address and size are those of the communication area.

Every access to the binary is recorded (`Loading.reads`), so that what is read is part of what is modelled,
be it in the buffer or not.  The layouts of `<elf.h>` are tables of fields; the two routines of a pair differ
in their table only.  What the loader prints, and the fields of `struct elf_info` that only the printing
uses, are left out.
-/
import BaremetalCrt.Lib.Exec
import BaremetalCrt.Lib.Layout
import BaremetalCrt.Runtime.Objects

namespace BaremetalCrt

open Lib

/-! ## The binary -/

/-- The buffer behind `buf` and `len`, in the memory of the host.  It is an object: it does not wrap, and
it is no larger than a `ptrdiff_t` can tell. -/
structure Binary where
  mem : ByteMap
  buf : Ptr
  len : UInt64
  fits : buf + len.toNat ≤ 2 ^ 64
  small : len.toNat < 2 ^ 63

/-- `buf + off`, a sum of 64 bits: an offset behind the buffer is a pointer like any other. -/
def Binary.ptr (b : Binary) (off : UInt64) : Ptr := (b.buf + off.toNat) % 2 ^ 64

/-- `buf[off]`, be the place in the buffer or not: the loader's reads are not limited by `len`. -/
def Binary.view (b : Binary) : View := fun off => b.mem (b.ptr off)

/-- The `len` bytes of the buffer, which is what the caller handed over. -/
def Binary.file (b : Binary) : List UInt8 := b.mem.load b.buf b.len.toNat

/-! ## The layouts of `<elf.h>` -/

/-- `ELFMAG0` to `ELFMAG3`, the first four bytes of every ELF file. -/
def elfMag : List UInt8 := [0x7f, 0x45, 0x4c, 0x46]

/-- `EI_CLASS`: whether the addresses in the file have 32 or 64 bits. -/
inductive ElfClass where
  | elf32
  | elf64
  deriving DecidableEq, Repr

/-- `ET_EXEC`: the file is an executable, linked to fixed addresses. -/
def etExec : UInt32 := 2

/-- `EM_RISCV`: the only machine that the loader accepts. -/
def emRiscv : UInt32 := 243

/-- `PT_LOAD`: the segment has a place in the memory of the target. -/
def ptLoad : UInt32 := 1

/-- `PF_W`: the program writes to the segment. -/
def pfW : UInt32 := 2

/-- The part of `struct elf_info` that is read from the ELF header. -/
structure ElfHeader where
  eType : UInt32
  eMachine : UInt32
  eVersion : UInt32
  eEntry : UInt64
  ePhoff : UInt64
  eShoff : UInt64
  eFlags : UInt32
  eEhsize : UInt32
  ePhentsize : UInt32
  ePhnum : UInt32
  eShentsize : UInt32
  eShnum : UInt32
  eShstrndx : UInt32
  deriving DecidableEq, Repr

/-- `struct prg_header`: a program header in the words of the loader, the same for both classes. -/
structure PrgHeader where
  pType : UInt32
  pFlags : UInt32
  pOffset : UInt64
  pVaddr : UInt64
  pPaddr : UInt64
  pFilesz : UInt64
  pMemsz : UInt64
  pAlign : UInt64
  deriving DecidableEq, Repr

/-- `struct sec_header`: a section header, likewise. -/
structure SecHeader where
  shName : UInt32
  shType : UInt32
  shFlags : UInt64
  shAddr : UInt64
  shOffset : UInt64
  shSize : UInt64
  shLink : UInt32
  shInfo : UInt32
  shAddralign : UInt64
  shEntsize : UInt64
  deriving DecidableEq, Repr

/-- The fields of an ELF header behind `e_ident`, and the sizes of the two kinds of entries. -/
structure EhdrLayout where
  size : Nat
  eType : Field
  eMachine : Field
  eVersion : Field
  eEntry : Field
  ePhoff : Field
  eShoff : Field
  eFlags : Field
  eEhsize : Field
  ePhentsize : Field
  ePhnum : Field
  eShentsize : Field
  eShnum : Field
  eShstrndx : Field
  phdrSize : UInt32
  shdrSize : UInt32

/-- Where the fields of a program header stand. The two classes have the same fields in another order and
width. -/
structure PhdrLayout where
  pType : Field
  pFlags : Field
  pOffset : Field
  pVaddr : Field
  pPaddr : Field
  pFilesz : Field
  pMemsz : Field
  pAlign : Field

/-- Where the fields of a section header stand, in either class. -/
structure ShdrLayout where
  shName : Field
  shType : Field
  shFlags : Field
  shAddr : Field
  shOffset : Field
  shSize : Field
  shLink : Field
  shInfo : Field
  shAddralign : Field
  shEntsize : Field

/-- `Elf32_Ehdr`, with `sizeof(Elf32_Phdr)` and `sizeof(Elf32_Shdr)`. -/
def elf32Ehdr : EhdrLayout where
  size := 52
  eType := ⟨16, 2⟩
  eMachine := ⟨18, 2⟩
  eVersion := ⟨20, 4⟩
  eEntry := ⟨24, 4⟩
  ePhoff := ⟨28, 4⟩
  eShoff := ⟨32, 4⟩
  eFlags := ⟨36, 4⟩
  eEhsize := ⟨40, 2⟩
  ePhentsize := ⟨42, 2⟩
  ePhnum := ⟨44, 2⟩
  eShentsize := ⟨46, 2⟩
  eShnum := ⟨48, 2⟩
  eShstrndx := ⟨50, 2⟩
  phdrSize := 32
  shdrSize := 40

/-- `Elf64_Ehdr`, with `sizeof(Elf64_Phdr)` and `sizeof(Elf64_Shdr)`. -/
def elf64Ehdr : EhdrLayout where
  size := 64
  eType := ⟨16, 2⟩
  eMachine := ⟨18, 2⟩
  eVersion := ⟨20, 4⟩
  eEntry := ⟨24, 8⟩
  ePhoff := ⟨32, 8⟩
  eShoff := ⟨40, 8⟩
  eFlags := ⟨48, 4⟩
  eEhsize := ⟨52, 2⟩
  ePhentsize := ⟨54, 2⟩
  ePhnum := ⟨56, 2⟩
  eShentsize := ⟨58, 2⟩
  eShnum := ⟨60, 2⟩
  eShstrndx := ⟨62, 2⟩
  phdrSize := 56
  shdrSize := 64

/-- `Elf32_Phdr`: 32 bytes, `p_flags` is the last but one. -/
def elf32Phdr : PhdrLayout :=
  ⟨⟨0, 4⟩, ⟨24, 4⟩, ⟨4, 4⟩, ⟨8, 4⟩, ⟨12, 4⟩, ⟨16, 4⟩, ⟨20, 4⟩, ⟨28, 4⟩⟩

/-- `Elf64_Phdr`: 56 bytes, `p_flags` is the second. -/
def elf64Phdr : PhdrLayout :=
  ⟨⟨0, 4⟩, ⟨4, 4⟩, ⟨8, 8⟩, ⟨16, 8⟩, ⟨24, 8⟩, ⟨32, 8⟩, ⟨40, 8⟩, ⟨48, 8⟩⟩

/-- `Elf32_Shdr`: ten words of four bytes. -/
def elf32Shdr : ShdrLayout :=
  ⟨⟨0, 4⟩, ⟨4, 4⟩, ⟨8, 4⟩, ⟨12, 4⟩, ⟨16, 4⟩, ⟨20, 4⟩, ⟨24, 4⟩, ⟨28, 4⟩, ⟨32, 4⟩, ⟨36, 4⟩⟩

/-- `Elf64_Shdr`: flags, addresses, offsets and sizes have eight bytes. -/
def elf64Shdr : ShdrLayout :=
  ⟨⟨0, 4⟩, ⟨4, 4⟩, ⟨8, 8⟩, ⟨16, 8⟩, ⟨24, 8⟩, ⟨32, 8⟩, ⟨40, 4⟩, ⟨44, 4⟩, ⟨48, 8⟩, ⟨56, 8⟩⟩

/-! ## The state of the loader -/

/-- How the load ends early: with a code, or by going through a pointer that is `NULL`. -/
inductive LoadStop where
  | ret (r : ClInt)
  | crash
  deriving DecidableEq, Repr

/-- The program that is loaded, and the accesses to the binary so far, in their order. -/
structure Loading where
  prg : ClProgram
  reads : List Touch

/-- A step of the loader: it may change the state, and it may stop the whole load. -/
abbrev Load := Exec Loading LoadStop

/-- Which of the allocations of a load succeed: `elf_info`, the program headers, the chunks, the section
headers. -/
structure Allocs where
  elfInfo : Bool
  phs : Bool
  chunks : Bool
  shs : Bool
  deriving DecidableEq, Repr

/-- The accesses `ts` come behind those that are on record. -/
def Loading.touch (s : Loading) (ts : List Touch) : Loading := { s with reads := s.reads ++ ts }

/-- `return r;`, from any depth of the loader. -/
def stop (r : ClInt) {α : Type} : Load α := Exec.exit (.ret r)

/-- `if ((r = f()) != CL_SUCCESS) return r;`, for a check whose result is `r`. -/
def demand (r : ClInt) : Load Unit := if r = clSuccess then return () else stop r

/-! ## The program (`drivers/program.c`) -/

/-- `prg_set_num_chunks`, the allocation of the array going as `ok` says. -/
def prgSetNumChunks (ok : Bool) (num : Int) : Load Unit := do
  let p ← Exec.gets (·.prg)
  demand (if p.magic = openclIcdMagic then clSuccess else clInvalidProgram)
  if ok then
    Exec.modify fun s =>
      { s with prg := { p with chunks := some (List.replicate num.toNat .zero), numChunks := num } }
  else
    Exec.modify fun s => { s with prg := { p with chunks := none } }
    stop clOutOfHostMemory

/-- `prg_set_chunk` of the program that is loaded. The index is not negative, so that only the upper bound
is left of the test. -/
def putChunk (i : UInt32) (chunk : ProgramChunk) : Load Unit := do
  let p ← Exec.gets (·.prg)
  demand (if p.magic = openclIcdMagic then clSuccess else clInvalidProgram)
  if p.numChunks ≤ (i.toNat : Int) then
    stop clInvalidValue
  Exec.modify fun s => { s with prg := p.putChunk i.toNat chunk }

/-- `prg_set_comm` of the program that is loaded: the communication area is taken over, after the check of
the magic number that every setter makes. -/
def prgSetComm (comm : ProgramComm) : Load Unit := do
  let p ← Exec.gets (·.prg)
  demand (if p.magic = openclIcdMagic then clSuccess else clInvalidProgram)
  Exec.modify fun s => { s with prg := { p with comm := comm } }

/-! ## The loader -/

section Loader

variable (b : Binary)

/-- Read a field of the record at `base`; the access is on record. -/
def readField (base : UInt64) (f : Field) : Load UInt64 := fun s =>
  (.ok (f.get b.view base), s.touch [f.touch base])

/-- The tests `e_ident[i] != ELFMAGi`, from the left, up to the first that holds. -/
def readMag : UInt64 → List UInt8 → Load Unit
  | _, [] => return ()
  | i, c :: cs => do
    let x ← readField b i ⟨0, 1⟩
    if x ≠ c.toUInt64 then
      stop clInvalidBinary
    readMag (i + 1) cs

/-- `prg_elf_get_class`: the magic number, and then the class, which is one of the two that there are. -/
def prgElfGetClass : Load ElfClass := do
  readMag b 0 elfMag
  let x ← readField b 4 ⟨0, 1⟩
  if x = 1 then return .elf32
  else if x = 2 then return .elf64
  else stop clInvalidBinary

/-- `elf_size < e_phoff + e_phnum * e_phentsize`, in the arithmetic of the source: the product is one of 32
bits, and the sum one of 64. -/
def exceedsFile (elfSize off : UInt64) (num entsize : UInt32) : Bool :=
  elfSize < off + (num * entsize).toUInt64

/-- `prg_elf_is_valid_header`: what a header has to satisfy before the tables are read. The first test that
fails decides. -/
def prgElfIsValidHeader (elfSize : UInt64) (e : ElfHeader) : ClInt :=
  if e.eType ≠ etExec then clInvalidBinary
  else if e.eMachine ≠ emRiscv then clInvalidBinary
  else if e.ePhoff = 0 ∨ e.ePhnum = 0 ∨ e.ePhentsize = 0 then clInvalidBinary
  else if exceedsFile elfSize e.ePhoff e.ePhnum e.ePhentsize then clInvalidBinary
  else if exceedsFile elfSize e.eShoff e.eShnum e.eShentsize then clInvalidBinary
  else if e.eShentsize = 0 then clInvalidBinary
  -- the source makes this test twice
  else if exceedsFile elfSize e.eShoff e.eShnum e.eShentsize then clInvalidBinary
  else if e.eShnum ≤ e.eShstrndx then clInvalidBinary
  else if e.eEntry % 4 ≠ 0 then clInvalidBinary
  else clSuccess

/-- What the two header routines share: all fields, and then the tests of the two sizes of entries. -/
def readEhdr (l : EhdrLayout) : Load ElfHeader := do
  let eType ← readField b 0 l.eType
  let eMachine ← readField b 0 l.eMachine
  let eVersion ← readField b 0 l.eVersion
  let eEntry ← readField b 0 l.eEntry
  let ePhoff ← readField b 0 l.ePhoff
  let eShoff ← readField b 0 l.eShoff
  let eFlags ← readField b 0 l.eFlags
  let eEhsize ← readField b 0 l.eEhsize
  let ePhentsize ← readField b 0 l.ePhentsize
  let ePhnum ← readField b 0 l.ePhnum
  let eShentsize ← readField b 0 l.eShentsize
  let eShnum ← readField b 0 l.eShnum
  let eShstrndx ← readField b 0 l.eShstrndx
  -- the whole header was read, and nothing says that the file is as long
  if ePhentsize.toUInt32 < l.phdrSize then
    stop clInvalidBinary
  if eShentsize.toUInt32 < l.shdrSize then
    stop clInvalidBinary
  return ⟨eType.toUInt32, eMachine.toUInt32, eVersion.toUInt32, eEntry, ePhoff, eShoff, eFlags.toUInt32,
    eEhsize.toUInt32, ePhentsize.toUInt32, ePhnum.toUInt32, eShentsize.toUInt32, eShnum.toUInt32,
    eShstrndx.toUInt32⟩

/-- `prg_elf_read_elf32`: the header of a 32 bit file. -/
def prgElfReadElf32 : Load ElfHeader := readEhdr b elf32Ehdr

/-- `prg_elf_read_elf64`: the header of a 64 bit file. -/
def prgElfReadElf64 : Load ElfHeader := readEhdr b elf64Ehdr

/-- `prg_elf_read_elf`: the header routine of the class. -/
def prgElfReadElf : ElfClass → Load ElfHeader
  | .elf32 => prgElfReadElf32 b
  | .elf64 => prgElfReadElf64 b

/-- The body of the loops over the program headers. -/
def readPhdr (l : PhdrLayout) (base : UInt64) : Load PrgHeader := do
  let pType ← readField b base l.pType
  let pFlags ← readField b base l.pFlags
  let pOffset ← readField b base l.pOffset
  let pVaddr ← readField b base l.pVaddr
  let pPaddr ← readField b base l.pPaddr
  let pFilesz ← readField b base l.pFilesz
  let pMemsz ← readField b base l.pMemsz
  let pAlign ← readField b base l.pAlign
  return ⟨pType.toUInt32, pFlags.toUInt32, pOffset, pVaddr, pPaddr, pFilesz, pMemsz, pAlign⟩

/-- The body of the loops over the section headers. -/
def readShdr (l : ShdrLayout) (base : UInt64) : Load SecHeader := do
  let shName ← readField b base l.shName
  let shType ← readField b base l.shType
  let shFlags ← readField b base l.shFlags
  let shAddr ← readField b base l.shAddr
  let shOffset ← readField b base l.shOffset
  let shSize ← readField b base l.shSize
  let shLink ← readField b base l.shLink
  let shInfo ← readField b base l.shInfo
  let shAddralign ← readField b base l.shAddralign
  let shEntsize ← readField b base l.shEntsize
  return ⟨shName.toUInt32, shType.toUInt32, shFlags, shAddr, shOffset, shSize, shLink.toUInt32,
    shInfo.toUInt32, shAddralign, shEntsize⟩

/-- `n` more iterations of a loop over a table at `ent`, from entry `i` on. -/
def readTable {α : Type} (read : UInt64 → Load α) (ent : UInt64) (entsize : UInt32) :
    UInt32 → Nat → Load (List α)
  | _, 0 => return []
  | i, n + 1 => do
    let x ← read (ent + (i * entsize).toUInt64)
    let xs ← readTable read ent entsize (i + 1) n
    return x :: xs

/-- `prg_elf_read_ph32`: all program headers of a 32 bit file, `e_phentsize` apart. -/
def prgElfReadPh32 (e : ElfHeader) : Load (List PrgHeader) :=
  readTable (readPhdr b elf32Phdr) e.ePhoff e.ePhentsize 0 e.ePhnum.toNat

/-- `prg_elf_read_ph64`: all program headers of a 64 bit file. -/
def prgElfReadPh64 (e : ElfHeader) : Load (List PrgHeader) :=
  readTable (readPhdr b elf64Phdr) e.ePhoff e.ePhentsize 0 e.ePhnum.toNat

/-- `prg_elf_read_shs32`: all section headers of a 32 bit file, `e_shentsize` apart. -/
def prgElfReadShs32 (e : ElfHeader) : Load (List SecHeader) :=
  readTable (readShdr b elf32Shdr) e.eShoff e.eShentsize 0 e.eShnum.toNat

/-- `prg_elf_read_shs64`: all section headers of a 64 bit file. -/
def prgElfReadShs64 (e : ElfHeader) : Load (List SecHeader) :=
  readTable (readShdr b elf64Shdr) e.eShoff e.eShentsize 0 e.eShnum.toNat

/-- The chunk of a program header: it points into the binary, its size is what 32 bits hold of `p_filesz`,
and it is read only when the segment is not written. -/
def PrgHeader.chunk (ph : PrgHeader) : ProgramChunk where
  index := 0
  paddr := ph.pPaddr
  buf := b.ptr ph.pOffset
  size := ph.pFilesz.toUInt32
  readonly := ph.pFlags &&& pfW = 0
  loaded := false

/-- The loop that sets the chunks, from header `i` on. -/
def setChunks : UInt32 → List PrgHeader → Load Unit
  | _, [] => return ()
  | i, ph :: phs => do
    if ph.pType = ptLoad then
      putChunk i (ph.chunk b)
    setChunks (i + 1) phs

/-- The `switch` of `prg_elf_read_ph` on the class of the file. -/
def readPhs (e : ElfHeader) : ElfClass → Load (List PrgHeader)
  | .elf32 => prgElfReadPh32 b e
  | .elf64 => prgElfReadPh64 b e

/-- `prg_elf_read_ph`: the headers are read, the program gets as many chunks, and those of the `PT_LOAD`
headers are set. -/
def prgElfReadPh (a : Allocs) (cls : ElfClass) (e : ElfHeader) : Load Unit := do
  if ¬ a.phs then
    stop clOutOfHostMemory
  let phs ← readPhs b e cls
  prgSetNumChunks a.chunks e.ePhnum.toNat
  setChunks b 0 phs

/-- What `get_sh_name` returns: a place in the binary, or the text `(unknown)`. -/
inductive ShName where
  | at (off : UInt64)
  | unknown
  deriving DecidableEq, Repr

/-- `get_sh_name`: the place of the name in the section of the names, if it is in that section. -/
def getShName (shstr : SecHeader) (off : UInt32) : ShName :=
  if shstr.shSize ≤ off.toUInt64 then .unknown else .at (shstr.shOffset + off.toUInt64)

/-- The string at `off` is `name`, its terminator included. -/
def nameAt (m : View) (off : UInt64) : List UInt8 → Bool
  | [] => m off = 0
  | c :: cs => m off = c && nameAt m (off + 1) cs

/-- `strcmp(sec_name, name) == 0`; the access is to a string. -/
def strcmpIs (name : List UInt8) : ShName → Load Bool
  | .unknown => return ascii "(unknown)" = name
  | .at off => fun s => (.ok (nameAt b.view off name), s.touch [.cstr off])

/-- `BAREMETAL_CRT_COMM_SECTION`: the section whose magic number marks a program as made for this driver. -/
def commSection : List UInt8 := ascii ".comm"

/-- `BAREMETAL_CRT_COMM_AREA_SECTION`: the section that says where the communication area is. -/
def commAreaSection : List UInt8 := ascii ".comm_area"

/-- What the scan over the sections has found so far. -/
structure Scan where
  foundComm : Bool
  foundCommArea : Bool
  comm : ProgramComm
  deriving DecidableEq, Repr

/-- The second half of the loop body: the section may be the area itself. -/
def scanCommArea (name : ShName) (sec : SecHeader) (scan : Scan) : Load Scan := do
  if ← strcmpIs b commAreaSection name then
    return { scan with foundCommArea := true, comm := ⟨sec.shAddr, sec.shSize⟩ }
  else
    return scan

/-- The loop body; a section with a wrong magic number is passed over. -/
def scanSection (shstr sec : SecHeader) (scan : Scan) : Load Scan := do
  let name := getShName shstr sec.shName
  if ← strcmpIs b commSection name then
    let magic ← readField b sec.shOffset ⟨0, 4⟩
    -- `continue`
    if magic.toUInt32 ≠ baremetalCrtCommMagic then
      return scan
    else
      scanCommArea b name sec { scan with foundComm := true }
  else
    scanCommArea b name sec scan

/-- The loop over the sections; of two areas the last counts. -/
def scanSections (shstr : SecHeader) : List SecHeader → Scan → Load Scan
  | [], scan => return scan
  | sec :: secs, scan => do
    let scan ← scanSection b shstr sec scan
    scanSections shstr secs scan

/-- The record that `calloc` leaves when no section header is read into it. -/
def SecHeader.zero : SecHeader := ⟨0, 0, 0, 0, 0, 0, 0, 0, 0, 0⟩

/-- The `switch` of `prg_elf_read_shs` on the class of the file. -/
def readShs (e : ElfHeader) : ElfClass → Load (List SecHeader)
  | .elf32 => prgElfReadShs32 b e
  | .elf64 => prgElfReadShs64 b e

/-- `prg_elf_read_shs`: the headers are read, and the scan has to find both sections. -/
def prgElfReadShs (a : Allocs) (cls : ElfClass) (e : ElfHeader) : Load Unit := do
  if ¬ a.shs then
    stop clOutOfHostMemory
  let shs ← readShs b e cls
  -- the index was compared with the number of the headers before
  let scan ← scanSections b (shs.getD e.eShstrndx.toNat .zero) shs ⟨false, false, ⟨0, 0⟩⟩
  if ¬ scan.foundComm then
    stop clInvalidBinary
  if ¬ scan.foundCommArea then
    stop clInvalidBinary
  prgSetComm scan.comm

/-- `prg_elf_load`. When `elf_info` could not be allocated, `prg_elf_is_valid` accepts the program
nevertheless, and the load goes on with `NULL`. -/
def prgElfLoad (a : Allocs) : Load Unit := do
  let p ← Exec.gets (·.prg)
  demand (if p.magic = openclIcdMagic then clSuccess else clInvalidProgram)
  if ¬ a.elfInfo then
    Exec.exit .crash
  let cls ← prgElfGetClass b
  let e ← prgElfReadElf b cls
  demand (prgElfIsValidHeader b.len e)
  prgElfReadPh b a cls e
  prgElfReadShs b a cls e

end Loader

end BaremetalCrt
