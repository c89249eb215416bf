/-
# BaremetalCrt.Elf.Format — the executables that the loader takes, and the programs in them.

`ElfFile` is a file read as the executable it claims to be: its fields are numbers at places of a list of
bytes, in unbounded integers.  `Executable` is the format, `Loaded` the program of a file.  Where the parts
that the header leads to are in the file, the loader accepts exactly the format.

The names of the fields are those of the layouts of the loader, since these are the format's tables;
everything else is said anew. `Complete` says that the parts are in the file: the header, the tables, the
contents of the segments that have any, the names up to their terminators. `Executable` is about the values:
the identification, the type, the machine, the sizes of the entries, a `.comm` section with its magic
number, and a `.comm_area` section.
-/
import BaremetalCrt.Elf.Bounds

namespace BaremetalCrt

open Lib

/-! ## The format -/

/-- The bytes of a file, and the class as which they are read. -/
structure ElfFile where
  bytes : List UInt8
  cls : ElfClass
  deriving DecidableEq, Repr

namespace ElfFile

variable (e : ElfFile)

/-- The identification is that of the class: the four magic bytes, and the byte that says which class it is.
-/
def Identified : Prop :=
  e.bytes.take 4 = elfMag ∧ number e.bytes 4 1 = match e.cls with | .elf32 => 1 | .elf64 => 2

/-- A field of the ELF header, as the class lays it out. -/
def ehdr (f : EhdrLayout → Field) : Nat := (f e.cls.ehdr).read e.bytes 0

/-- Where program header `i` is, and section header `i`. -/
def phdrOff (i : Nat) : Nat := e.ehdr (·.ePhoff) + i * e.ehdr (·.ePhentsize)

/-- Where section header `i` starts in the file. -/
def shdrOff (i : Nat) : Nat := e.ehdr (·.eShoff) + i * e.ehdr (·.eShentsize)

/-- A field of program header `i`, and of section header `i`. -/
def phdr (i : Nat) (f : PhdrLayout → Field) : Nat := (f e.cls.phdr).read e.bytes (e.phdrOff i)

/-- Field `f` of section header `i`, as the class lays it out. -/
def shdr (i : Nat) (f : ShdrLayout → Field) : Nat := (f e.cls.shdr).read e.bytes (e.shdrOff i)

/-- A field of the section that holds the names, which `e_shstrndx` points to. -/
def strtab (f : ShdrLayout → Field) : Nat := e.shdr (e.ehdr (·.eShstrndx)) f

/-- What there is from the name of section `i` on. -/
def nameText (i : Nat) : List UInt8 := e.bytes.drop (e.strtab (·.shOffset) + e.shdr i (·.shName))

/-- The name of section `i` starts in the table of names. -/
def HasName (i : Nat) : Prop := e.shdr i (·.shName) < e.strtab (·.shSize)

/-- Section `i` is named `name`: the index of its name is in the table, and the text there is `name` with
its terminator. -/
def Named (i : Nat) (name : List UInt8) : Prop := e.HasName i ∧ name ++ [0] <+: e.nameText i

instance (i : Nat) : Decidable (e.HasName i) := inferInstanceAs (Decidable (_ < _))

instance (i : Nat) (name : List UInt8) : Decidable (e.Named i name) := inferInstanceAs (Decidable (_ ∧ _))

instance : Decidable e.Identified := inferInstanceAs (Decidable (_ ∧ _))

/-- The parts that the header leads to are in the file: the tables, the names of the sections, the magic of
a communication section, and what there is of a segment to be loaded. -/
structure Complete : Prop where
  header : e.cls.ehdr.size ≤ e.bytes.length
  phdrs : e.phdrOff (e.ehdr (·.ePhnum)) ≤ e.bytes.length
  shdrs : e.shdrOff (e.ehdr (·.eShnum)) ≤ e.bytes.length
  names : ∀ i < e.ehdr (·.eShnum), e.HasName i → 0 ∈ e.nameText i
  magics : ∀ i < e.ehdr (·.eShnum), e.Named i commSection → e.shdr i (·.shOffset) + 4 ≤ e.bytes.length
  loads : ∀ i < e.ehdr (·.ePhnum), e.phdr i (·.pType) = ptLoad.toNat →
    (e.phdr i (·.pFilesz) ≠ 0 → e.phdr i (·.pOffset) + e.phdr i (·.pFilesz) ≤ e.bytes.length) ∧
      e.phdr i (·.pFilesz) < 2 ^ 32

/-- The header of an executable for RISC-V whose tables the loader can walk. -/
structure HeaderOk : Prop where
  phentsize : e.cls.ehdr.phdrSize.toNat ≤ e.ehdr (·.ePhentsize)
  shentsize : e.cls.ehdr.shdrSize.toNat ≤ e.ehdr (·.eShentsize)
  exec : e.ehdr (·.eType) = etExec.toNat
  riscv : e.ehdr (·.eMachine) = emRiscv.toNat
  phdrs : e.ehdr (·.ePhoff) ≠ 0 ∧ e.ehdr (·.ePhnum) ≠ 0 ∧ e.ehdr (·.ePhentsize) ≠ 0
  shstrndx : e.ehdr (·.eShstrndx) < e.ehdr (·.eShnum)
  aligned : e.ehdr (·.eEntry) % 4 = 0

/-- The format: such a header, a communication section and a communication area. -/
structure Executable : Prop where
  identified : e.Identified
  header : e.HeaderOk
  comm : ∃ i < e.ehdr (·.eShnum), e.Named i commSection ∧
    number e.bytes (e.shdr i (·.shOffset)) 4 = baremetalCrtCommMagic.toNat
  commArea : ∃ i < e.ehdr (·.eShnum), e.Named i commAreaSection

/-- The chunk of program header `i`, its bytes being in `mem`: those of the file, for the physical
address, and not loaded yet. -/
structure ChunkOf (mem : ByteMap) (i : Nat) (c : ProgramChunk) : Prop where
  index : c.index = (i : Int)
  paddr : c.paddr.toNat = e.phdr i (·.pPaddr)
  size : c.size.toNat = e.phdr i (·.pFilesz)
  bytes : mem.load c.buf c.size.toNat =
    (e.bytes.drop (e.phdr i (·.pOffset))).take (e.phdr i (·.pFilesz))
  readonly : c.readonly = true ↔ e.phdr i (·.pFlags) &&& pfW.toNat = 0
  loaded : c.loaded = false

/-- The program of the file: its chunks in the order of the headers, empty where nothing is loaded, and the
address and the size of the last communication area. -/
structure Loaded (mem : ByteMap) (p : ClProgram) : Prop where
  numChunks : p.numChunks = (e.ehdr (·.ePhnum) : Int)
  chunks : ∃ cs, p.chunks = some cs ∧ cs.length = e.ehdr (·.ePhnum) ∧
    ∀ i, (hi : i < cs.length) →
      if e.phdr i (·.pType) = ptLoad.toNat then e.ChunkOf mem i cs[i] else cs[i] = .zero
  comm : ∃ i < e.ehdr (·.eShnum), e.Named i commAreaSection ∧
    (∀ j < e.ehdr (·.eShnum), i < j → ¬ e.Named j commAreaSection) ∧
    p.comm.addr.toNat = e.shdr i (·.shAddr) ∧ p.comm.size.toNat = e.shdr i (·.shSize)

end ElfFile

end BaremetalCrt
