/-
# BaremetalCrt.Pci.Sysfs — PCI devices through sysfs (`drivers/pci/pci_sysfs.c`).

The driver of a device on a PCI bus, as the source has it.  It has two lives:

* **Probing** (`pciSysfsProbe`, over `pciSysfsConfig`).  The configuration space is opened and compared with
  the ids that the enumeration found; then the base address registers are sized one after the other, by writing
  all ones, reading the mask back and restoring what was there; and those with a size are mapped from
  `resource0` to `resource5`.  Whatever goes wrong, `pciSysfsRemove` unmaps and closes what there is.
* **Accesses** (`pciSysfsReadMem`, `pciSysfsWriteMem`).  A table of windows that the board file gives says
  which register, and which offset in it, an address of the device belongs to (`pciSysfsGetAddr`); there the
  memory is copied, by words where both ends are aligned (`pciSysfsMemcpy`).

What the operating system does is a `PciKernel`: what a call returns and, for a read, what the local variable
holds behind it.  A read that fails leaves something there too, and the driver does not look.  The state
records which descriptors are open, which memory is mapped and where in `pci_res` the driver stored, since the
entry behind the last register is one that it may store to.
-/
import BaremetalCrt.Lib.Exec
import BaremetalCrt.Lib.Bytes
import BaremetalCrt.Lib.Hex
import BaremetalCrt.Runtime.Objects

namespace BaremetalCrt

open Lib

/-! ## Data -/

/-- `struct pci_sysfs_memmap`, a window: `size` addresses from `paddr` on are those of register `bar` from
`barOff` on. -/
structure PciSysfsMemmap where
  paddr : UInt64
  size : UInt64
  bar : UInt32
  barOff : UInt64
  deriving DecidableEq, Repr

/-- `map_table`: where the addresses of the device are in its registers. It is an array without a length,
which an entry with `paddr == -1` ends; that there is one is part of the type. -/
structure MapTable where
  entries : List PciSysfsMemmap
  ended : ∃ m ∈ entries, m.paddr = -1

/-- `struct pci_sysfs_enum_info`: where a device is on the bus, and its ids. -/
structure PciSysfsEnumInfo where
  pcibus : UInt32
  pcidev : UInt32
  pcifn : UInt32
  vendor : UInt16
  device : UInt16
  deriving DecidableEq, Repr

/-- `PCI_RES_MAX`: a function of a PCI device has six base address registers. -/
def pciResMax : Nat := 6

/-- `struct pci_sysfs_resource`, a base address register: its contents, the size that it showed, whether it
is one of 64 bits and whether it is there, the descriptor of its file and where that is mapped. -/
structure PciSysfsResource where
  bar : UInt64
  barSize : UInt64
  is64 : Bool
  valid : Bool
  fd : Int
  buf : Ptr
  deriving DecidableEq, Repr

/-- `struct pci_sysfs_priv`, the private data of a device. The array `pci_res` has `pciResMax` entries; the
function goes on behind its end, where a store of the driver may go. -/
structure PciSysfsPriv where
  mapTable : MapTable
  info : PciSysfsEnumInfo
  sysfsPath : List UInt8
  fdConfig : Int
  pciRes : Nat → PciSysfsResource

/-- `struct pci_sysfs_addr`: a range of the device, the register and the offset that it was found at, and
the host pointer to it. -/
structure PciSysfsAddr where
  paddr : UInt64
  size : UInt64
  bar : UInt32
  offset : UInt64
  ptr : Ptr
  deriving DecidableEq, Repr

/-! ## Copying -/

/-- A load or a store of `width` bytes at `addr`, as the processor puts it on the bus. -/
inductive MemAccess where
  | load (addr width : Nat)
  | store (addr width : Nat)
  deriving DecidableEq, Repr

/-- Memory, and a record of how it was accessed: the width of a load or store matters to the registers of a
device. -/
structure Bus where
  bytes : ByteMap
  accesses : List MemAccess

/-- `*d = *s`, for objects of `width` bytes: one load of the source and one store to the destination, in
this order. -/
def Bus.assign (b : Bus) (width : Nat) (d s : Ptr) : Bus :=
  ⟨b.bytes.store d (b.bytes.load s width), b.accesses ++ [.load s width, .store d width]⟩

/-- `pci_sysfs_memcpy_slow`: the bytes one by one, in ascending order. Both copies return `dest`, which
nobody reads. -/
def pciSysfsMemcpySlow : Ptr → Ptr → Nat → Bus → Bus
  | _, _, 0, b => b
  | d, s, n + 1, b => pciSysfsMemcpySlow (d + 1) (s + 1) n (b.assign 1 d s)

/-- `for (; n >= 8; n -= 8, d++, s++)`, the loop over words of eight bytes: the three locals behind it, and
the memory. -/
def copyWords : Ptr → Ptr → Nat → Bus → Ptr × Ptr × Nat × Bus
  | d, s, n + 8, b => copyWords (d + 8) (s + 8) n (b.assign 8 d s)
  | d, s, n, b => (d, s, n, b)

/-- `pci_sysfs_memcpy`: words of eight bytes and then the rest byte by byte, where both pointers are aligned
to eight; otherwise all of it byte by byte. -/
def pciSysfsMemcpy (dest src : Ptr) (n : Nat) (b : Bus) : Bus :=
  if dest &&& 7 ≠ 0 ∨ src &&& 7 ≠ 0 then pciSysfsMemcpySlow dest src n b
  else
    let (d, s, n, b) := copyWords dest src n b
    if 0 < n then pciSysfsMemcpySlow d s n b else b

/-! ## Windows -/

/-- The loop of `pci_sysfs_get_addr`: the first entry of the table that takes the range, if there is one in
front of the end of the table. -/
def findMap (paddr len : UInt64) : List PciSysfsMemmap → Option PciSysfsMemmap
  | [] => none
  | m :: ms =>
    if m.paddr = -1 then none
    -- both ends are sums of 64 bits
    else if paddr < m.paddr ∨ m.paddr + m.size < paddr + len then findMap paddr len ms
    else some m

/-- What `pci_sysfs_get_addr` stores at `desc` for a range that entry `m` takes: the offset into the
register, and the pointer to it in the mapping. -/
def PciSysfsPriv.translate (prv : PciSysfsPriv) (paddr len : UInt64) (m : PciSysfsMemmap) : PciSysfsAddr :=
  let offset := m.barOff + paddr - m.paddr
  ⟨paddr, len, m.bar, offset, (prv.pciRes m.bar.toNat).buf + offset.toNat⟩

/-- `pci_sysfs_get_addr`: the code, and what was stored at `desc` if that is there. -/
def pciSysfsGetAddr (prv : PciSysfsPriv) (paddr len : UInt64) (desc : Bool) : ClInt × Option PciSysfsAddr :=
  match findMap paddr len prv.mapTable.entries with
  | none => (clInvalidValue, none)
  | some m => (clSuccess, if desc then some (prv.translate paddr len m) else none)

section Access

variable (dev : Option PciSysfsPriv) (paddr : UInt64) (buf : Ptr) (len : UInt64) (b : Bus)

/-- `pci_sysfs_read_mem`; `none` for a device stands for `dev == NULL || dev->priv == NULL`. -/
def pciSysfsReadMem : ClInt × Bus :=
  match dev with
  | none => (clInvalidDevice, b)
  | some prv =>
    match pciSysfsGetAddr prv paddr len true with
    | (r, none) => (r, b)
    | (r, some addr) => (r, pciSysfsMemcpy buf addr.ptr len.toNat b)

/-- `pci_sysfs_write_mem`: the same, and the copy goes the other way. -/
def pciSysfsWriteMem : ClInt × Bus :=
  match dev with
  | none => (clInvalidDevice, b)
  | some prv =>
    match pciSysfsGetAddr prv paddr len true with
    | (r, none) => (r, b)
    | (r, some addr) => (r, pciSysfsMemcpy addr.ptr buf len.toNat b)

end Access

/-! ## The operating system -/

/-- What decides how the system calls of the driver go, as functions of a state of its own. A descriptor
that `open` hands out is not open yet, and `-1` stands for a failure; a `pread` gives what the local
variable holds behind it, a `pwrite` its count, and `mmap` a pointer if it succeeds. -/
structure PciKernel (κ : Type) where
  openFile : List UInt8 → List Int → κ → Int × κ
  fresh : ∀ path fds k, (openFile path fds k).1 = -1 ∨
    0 ≤ (openFile path fds k).1 ∧ (openFile path fds k).1 ∉ fds
  pread16 : Int → Nat → κ → UInt16 × κ
  pread32 : Int → Nat → κ → UInt32 × κ
  pread64 : Int → Nat → κ → UInt64 × κ
  pwrite32 : Int → UInt32 → Nat → κ → Int × κ
  pwrite64 : Int → UInt64 → Nat → κ → Int × κ
  mmap : Int → UInt64 → κ → Option Ptr × κ

/-- What happens to file descriptors: an `open` that succeeded, or a `close`. An `open` that fails makes no
event. -/
inductive FdEvent where
  | opened (fd : Int)
  | closed (fd : Int)
  deriving DecidableEq, Repr

/-- The state of a probe or a removal: the kernel, the private data of the device, the open descriptors of
the process, which of them the driver opened and closed, the memory that is mapped, and where in `pci_res`
the driver stored. -/
structure PciSys (κ : Type) where
  kern : κ
  prv : PciSysfsPriv
  fds : List Int
  log : List FdEvent
  maps : List (Ptr × UInt64)
  stores : List Nat

/-- A step of the driver; what ends it early is the code that it returns. -/
abbrev Pci (κ : Type) := Exec (PciSys κ) ClInt

variable {κ : Type}

/-- A system call that opens, closes and maps nothing. -/
def sysCall {α : Type} (f : κ → α × κ) : Pci κ α := fun s => (.ok (f s.kern).1, { s with kern := (f s.kern).2 })

/-- A store to the entry `i` of `pci_res`; the other entries are as before. -/
def PciSysfsPriv.setRes (prv : PciSysfsPriv) (i : Nat) (f : PciSysfsResource → PciSysfsResource) :
    PciSysfsPriv :=
  { prv with pciRes := Function.update prv.pciRes i (f (prv.pciRes i)) }

/-- A store to an entry of `pci_res`, which is recorded. -/
def setRes (i : Nat) (f : PciSysfsResource → PciSysfsResource) : Pci κ Unit :=
  Exec.modify fun s => { s with prv := s.prv.setRes i f, stores := s.stores ++ [i] }

/-- `close`: the descriptor is none of the open ones any more. Nobody looks at what it returns. -/
def close (fd : Int) : Pci κ Unit :=
  Exec.modify fun s => { s with fds := s.fds.erase fd, log := s.log ++ [.closed fd] }

/-- `munmap`. Nobody looks at what it returns, either. -/
def munmap (p : Ptr) (n : UInt64) : Pci κ Unit := Exec.modify fun s => { s with maps := s.maps.erase (p, n) }

section Driver

variable (os : PciKernel κ)

/-- `open`: a descriptor that was not open, which is open from now on, or `-1`. -/
def openFd (path : List UInt8) : Pci κ Int := fun s =>
  let out := os.openFile path s.fds s.kern
  (.ok out.1,
    if out.1 = -1 then { s with kern := out.2 }
    else { s with kern := out.2, fds := out.1 :: s.fds, log := s.log ++ [.opened out.1] })

/-- `mmap` of the first `n` bytes of the file, shared and for reading and writing, or no pointer when it
fails. -/
def mmap (fd : Int) (n : UInt64) : Pci κ (Option Ptr) := fun s =>
  let out := os.mmap fd n s.kern
  (.ok out.1, { s with kern := out.2, maps := (out.1.map (·, n)).toList ++ s.maps })

section Wp

/-- The state behind an `open` that returned `fd`: the descriptor is open and on record, unless the call
failed. -/
def PciSys.afterOpen (s : PciSys κ) (fd : Int) (k : κ) : PciSys κ :=
  if fd = -1 then { s with kern := k }
  else { s with kern := k, fds := fd :: s.fds, log := s.log ++ [.opened fd] }

@[simp] theorem PciSys.afterOpen_prv (s : PciSys κ) (fd : Int) (k : κ) : (s.afterOpen fd k).prv = s.prv := by
  unfold afterOpen
  split <;> rfl

@[simp] theorem PciSys.afterOpen_maps (s : PciSys κ) (fd : Int) (k : κ) :
    (s.afterOpen fd k).maps = s.maps := by
  unfold afterOpen
  split <;> rfl

@[simp] theorem PciSys.afterOpen_stores (s : PciSys κ) (fd : Int) (k : κ) :
    (s.afterOpen fd k).stores = s.stores := by
  unfold afterOpen
  split <;> rfl

variable {Q : Int → PciSys κ → Prop} {U : Unit → PciSys κ → Prop} {E : ClInt → PciSys κ → Prop} {s : PciSys κ}

@[simp] theorem wp_sysCall {α : Type} (f : κ → α × κ) {Q : α → PciSys κ → Prop} :
    Exec.wp (sysCall f) Q E s ↔ Q (f s.kern).1 { s with kern := (f s.kern).2 } := Iff.rfl

@[simp] theorem wp_setRes (i : Nat) (f : PciSysfsResource → PciSysfsResource) :
    Exec.wp (setRes i f) U E s ↔ U () { s with prv := s.prv.setRes i f, stores := s.stores ++ [i] } := Iff.rfl

@[simp] theorem wp_close (fd : Int) :
    Exec.wp (close fd) U E s ↔ U () { s with fds := s.fds.erase fd, log := s.log ++ [.closed fd] } := Iff.rfl

@[simp] theorem wp_munmap (p : Ptr) (n : UInt64) :
    Exec.wp (munmap p n) U E s ↔ U () { s with maps := s.maps.erase (p, n) } := Iff.rfl

theorem wp_openFd (path : List UInt8) : Exec.wp (openFd os path) Q E s ↔
    Q (os.openFile path s.fds s.kern).1
      (s.afterOpen (os.openFile path s.fds s.kern).1 (os.openFile path s.fds s.kern).2) := Iff.rfl

theorem wp_mmap (fd : Int) (n : UInt64) {Q : Option Ptr → PciSys κ → Prop} :
    Exec.wp (mmap os fd n) Q E s ↔ Q (os.mmap fd n s.kern).1 { s with
      kern := (os.mmap fd n s.kern).2
      maps := ((os.mmap fd n s.kern).1.map (·, n)).toList ++ s.maps } := Iff.rfl

end Wp

/-! ## Probing -/

/-- `PATH_PCI_SYSFS`, and the address of the device with the domain 0. -/
def PciSysfsEnumInfo.sysfsPath (info : PciSysfsEnumInfo) : List UInt8 :=
  ascii "/sys/bus/pci/devices/" ++ hexText 4 0 ++ ascii ":" ++ hexText 2 info.pcibus.toNat ++ ascii ":" ++
    hexText 2 info.pcidev.toNat ++ ascii "." ++ hexText 1 info.pcifn.toNat

/-- `mask` of a register of 32 bits: the low four bits say what kind of register it is. -/
def maskLow : UInt32 := 0xfffffff0
/-- What is written to it to learn its size: all ones. -/
def tmpLow : UInt32 := 0xffffffff

/-- `mask` of a register of 64 bits: the four low bits are type bits, not address bits. -/
def mask64 : UInt64 := 0xfffffffffffffff0
/-- All ones, for a register of 64 bits. -/
def tmp64 : UInt64 := 0xffffffffffffffff

/-- Where the base address register `i` is in the configuration space. -/
def barAddr (i : Nat) : Nat := 0x10 + i * 4

/-- The sizing of the low four bytes of base address register `i`: what they hold, and the size that they
show. The old contents are written back, and that this is done is the one thing that is checked. -/
def sizeBarLow (fd : Int) (i : Nat) : Pci κ (UInt32 × UInt32) := do
  let barLow ← sysCall (os.pread32 fd (barAddr i))
  let _ ← sysCall (os.pwrite32 fd tmpLow (barAddr i))
  let barSizeLow ← sysCall (os.pread32 fd (barAddr i))
  let s ← sysCall (os.pwrite32 fd barLow (barAddr i))
  if s ≠ 4 then
    Exec.exit clInvalidDevice
  return (barLow, ~~~(barSizeLow &&& maskLow) + 1)

/-- The sizing of a register of 64 bits, that is `i` and the one behind it. -/
def sizeBar64 (fd : Int) (i : Nat) : Pci κ (UInt64 × UInt64) := do
  let bar ← sysCall (os.pread64 fd (barAddr i))
  let _ ← sysCall (os.pwrite64 fd tmp64 (barAddr i))
  let barSize ← sysCall (os.pread64 fd (barAddr i))
  -- unlike that of four bytes, this write is not checked
  let _ ← sysCall (os.pwrite64 fd bar (barAddr i))
  return (bar, ~~~(barSize &&& mask64) + 1)

/-- The type field of a register, bits 1 and 2: the value 2 says that the register is 64 bits wide. -/
def barType (barLow : UInt32) : UInt32 := barLow >>> 1 &&& 3

/-- The `switch` over the type of register `i`, whose low four bytes are sized already: the contents and the
size to record. A register of 64 bits takes two entries, and the second is marked as not there. -/
def decodeBar (fd : Int) (i : Nat) (barLow barSizeLow : UInt32) : Pci κ (UInt64 × UInt64) :=
  -- bit 0, which marks an I/O register, is not looked at
  if barType barLow = 0 ∨ barType barLow = 1 then do
    setRes i ({ · with is64 := false })
    return (barLow.toUInt64, barSizeLow.toUInt64)
  else if barType barLow = 2 then do
    setRes i ({ · with is64 := true })
    -- from the last register this is the entry behind the array
    setRes (i + 1) ({ · with is64 := false, bar := 0, barSize := 0, valid := false })
    sizeBar64 os fd i
  else Exec.exit clInvalidDevice

/-- The body of the sizing loop of `pci_sysfs_config`: a register with a size is one that is there. -/
def sizeBar (i : Nat) : Pci κ Unit := do
  let fd ← Exec.gets (·.prv.fdConfig)
  let (barLow, barSizeLow) ← sizeBarLow os fd i
  let (bar, barSize) ← decodeBar os fd i barLow barSizeLow
  setRes i ({ · with bar := bar, barSize := barSize, valid := barSize ≠ 0 })

/-- The sizing loop, from register `i` on, with fuel; a register of 64 bits takes two turns. -/
def sizeBars : Nat → Nat → Pci κ Unit
  | 0, _ => return ()
  | n + 1, i =>
    if i < pciResMax then do
      sizeBar os i
      let is64 ← Exec.gets fun s => (s.prv.pciRes i).is64
      sizeBars n (if is64 then i + 2 else i + 1)
    else return ()

/-- The body of the mapping loop: a register that is there is opened as its file in sysfs, and mapped. -/
def mapBar (i : Nat) : Pci κ Unit := do
  let prv ← Exec.gets (·.prv)
  if (prv.pciRes i).valid then
    let fd ← openFd os (prv.sysfsPath ++ ascii "/resource" ++ hexText 1 i)
    setRes i ({ · with fd := fd })
    if fd = -1 then
      Exec.exit clInvalidDevice
    match ← mmap os fd (prv.pciRes i).barSize with
    | none =>
      -- the descriptor is left to `pci_sysfs_remove`
      setRes i ({ · with buf := 0 })
      Exec.exit clOutOfResources
    | some p => setRes i ({ · with buf := p })

/-- The mapping loop of `pci_sysfs_probe`, for the `n` registers from `i` on. -/
def mapBars : Nat → Nat → Pci κ Unit
  | 0, _ => return ()
  | n + 1, i => do
    mapBar os i
    mapBars n (i + 1)

/-- `pci_sysfs_config` up to the sizing loop: the configuration space is opened, and shows the ids that were
found on the bus. -/
def openConfig : Pci κ Unit := do
  Exec.modify fun s => { s with prv := { s.prv with sysfsPath := s.prv.info.sysfsPath } }
  let prv ← Exec.gets (·.prv)
  let fd ← openFd os (prv.sysfsPath ++ ascii "/config")
  Exec.modify fun s => { s with prv := { s.prv with fdConfig := fd } }
  if fd = -1 then
    Exec.exit clOutOfResources
  -- what a read that fails leaves in the local is for the kernel to say
  let vid ← sysCall (os.pread16 fd 0)
  let did ← sysCall (os.pread16 fd 2)
  if prv.info.vendor ≠ vid ∨ prv.info.device ≠ did then
    Exec.exit clInvalidDevice

/-- `pci_sysfs_config`: the ids are compared, all registers are sized, and those that are there are mapped.
It leaves what it opened and mapped to the caller when it fails. -/
def pciSysfsConfig : Pci κ Unit := do
  openConfig os
  sizeBars os pciResMax 0
  mapBars os pciResMax 0

/-- The body of the loop of `pci_sysfs_remove`: what is mapped is unmapped, and what is open is closed. -/
def removeBar (i : Nat) : Pci κ Unit := do
  let res ← Exec.gets (·.prv.pciRes i)
  if res.buf ≠ 0 then
    munmap res.buf res.barSize
    setRes i ({ · with buf := 0 })
  if res.fd ≠ -1 then
    close res.fd
    setRes i ({ · with fd := -1 })

/-- The loop of `pci_sysfs_remove`, from entry `i` on. -/
def removeBars : Nat → Nat → Pci κ Unit
  | 0, _ => return ()
  | n + 1, i => do
    removeBar i
    removeBars n (i + 1)

/-- `pci_sysfs_remove`: all registers, and then the configuration space. -/
def pciSysfsRemove : Pci κ Unit := do
  removeBars pciResMax 0
  let fd ← Exec.gets (·.prv.fdConfig)
  if fd ≠ -1 then
    close fd
    Exec.modify fun s => { s with prv := { s.prv with fdConfig := -1 } }

/-- `pci_sysfs_probe`: the configuration, and behind one that failed the removal; the code is that of the
configuration. -/
def pciSysfsProbe : Pci κ Unit := do
  match ← Exec.attempt (pciSysfsConfig os) with
  | .ok _ => return ()
  | .error r =>
    pciSysfsRemove
    Exec.exit r

end Driver

/-- What `pci_sysfs_alloc_dev` and `pci_sysfs_init` leave in a device: no descriptor is open. -/
def PciSysfsPriv.allocated (mapTable : MapTable) (info : PciSysfsEnumInfo) (behind : Nat → PciSysfsResource) :
    PciSysfsPriv where
  mapTable := mapTable
  info := info
  sysfsPath := []
  fdConfig := -1
  pciRes i := if i < pciResMax then ⟨0, 0, false, false, -1, 0⟩ else behind i

end BaremetalCrt
