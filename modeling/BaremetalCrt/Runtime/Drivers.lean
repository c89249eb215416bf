/-
# BaremetalCrt.Runtime.Drivers — starting a driver and ending it (`drivers/pci/pci_sysfs.c`,
`drivers/gdb/gdb_remote.c`, `drivers/device.c`).

A driver allocates its devices one by one and adds each to the list; when one of them fails, it goes to its
error exit.  What `calloc` returns, and what the probes and removals do, is the world's.  What the two
drivers do alike is one definition, which each has under its own name.
-/
import BaremetalCrt.Gdb.Lives
import BaremetalCrt.Runtime.Discovery

namespace BaremetalCrt

open Lib

/-! ## State -/

/-- The private data of a device of the one driver or the other. -/
inductive DriverPriv where
  | pci (prv : PciSysfsPriv)
  | gdb (prv : GdbRemotePriv)

/-- What the start-up works on: the list of devices, the magic behind a `cl_platform_id`, the private data,
and `*devs` with its array and `*devs_num`.  `allocs` counts the allocations so far. -/
structure Drivers where
  registry : Registry
  plats : Ptr → UInt32
  priv : Ptr → Ptr
  privs : Ptr → Option DriverPriv
  devs : Ptr
  slots : Nat → Ptr
  devsNum : UInt32
  allocs : Nat
  freed : List Ptr

/-- What the start-up does not decide: what every allocation returns, what the operations of every device
return, and what lies behind the array `pci_res`. -/
structure DriverWorld where
  calloc : Nat → Option Ptr
  probe : Ptr → ClInt
  remove : Ptr → ClInt
  behind : Nat → PciSysfsResource

/-- How a call ends that does not go on: with a code, or never. -/
inductive Stop where
  | ret (r : ClInt)
  | endless
  deriving DecidableEq, Repr

/-- A step of the start-up: it returns a code early, or it does not come back from a list with a cycle. -/
abbrev StartUp := Exec Drivers Stop

/-- `CL_DEVICE_TYPE_ACCELERATOR`, which is the type of every device here. -/
def clDeviceTypeAccelerator : UInt64 := 8

/-- The record that `dev_alloc` leaves: valid, in no list, and not enabled. -/
def DevNode.allocated : DevNode := ⟨openclIcdMagic, none, 0, false, 0⟩

/-- A store to the fields of a device. -/
def Registry.setDev (s : Registry) (dev : Ptr) (node : DevNode) : Registry :=
  { s with devs := Function.update s.devs dev node }

/-- `plat_is_valid`: the handle is not NULL and its object has the magic number of the library. -/
def Drivers.platIsValid (s : Drivers) (platform : Ptr) : ClInt :=
  isValid clInvalidPlatform platform (s.plats platform)

/-! ## Allocating and freeing devices -/

section Calls

variable (w : DriverWorld)

/-- `calloc`, whose answer depends on how many allocations there were before. -/
def allocate : StartUp (Option Ptr) := fun s => (.ok (w.calloc s.allocs), { s with allocs := s.allocs + 1 })

/-- `free`, with the block on record; `free(NULL)` does nothing. -/
def release (p : Ptr) : StartUp Unit :=
  Exec.modify fun s => if p = 0 then s else { s with freed := s.freed ++ [p] }

/-- A call that goes along the list of devices; in a list that goes round it has no end. -/
def alongList (f : Registry → Option (ClInt × Registry)) : StartUp ClInt := fun s =>
  match f s.registry with
  | none => (.error .endless, s)
  | some (r, g) => (.ok r, { s with registry := g })

/-- `dev_alloc`: the platform is checked, and the device is allocated and filled in. -/
def devAlloc (platform : Ptr) : StartUp Ptr := do
  let r ← Exec.gets (·.platIsValid platform)
  if r ≠ clSuccess then
    Exec.exit (.ret r)
  match ← allocate w with
  | none => Exec.exit (.ret clOutOfHostMemory)
  | some t =>
    Exec.modify fun s => { s with
      registry := s.registry.setDev t .allocated
      priv := Function.update s.priv t 0 }
    return t

/-- `dev_free`: the device is checked, and its block is freed. -/
def devFree (dev : Ptr) : StartUp ClInt := do
  let r ← Exec.gets (·.registry.devIsValid dev)
  if r ≠ clSuccess then
    return r
  release dev
  return clSuccess

/-- What `pci_sysfs_alloc_dev` and `gdb_remote_alloc_dev` have in common.  `prv` is the private data with
`conf` and `info`, which the start-up stores there next. -/
def allocDev (prv : DriverPriv) (platform : Ptr) : StartUp Ptr := do
  let dev ← devAlloc w platform
  Exec.modify fun s => { s with
    registry := s.registry.setDev dev { s.registry.devs dev with devType := clDeviceTypeAccelerator } }
  match ← allocate w with
  -- the device is not freed
  | none => Exec.exit (.ret clOutOfHostMemory)
  | some p =>
    Exec.modify fun s => { s with
      priv := Function.update s.priv dev p
      privs := Function.update s.privs p (some prv) }
    return dev

/-- `pci_sysfs_alloc_dev`: a device whose private data holds what the enumeration found. -/
def pciSysfsAllocDev (mapTable : MapTable) (info : PciSysfsEnumInfo) (platform : Ptr) : StartUp Ptr :=
  allocDev w (.pci (.allocated mapTable info w.behind)) platform

/-- `gdb_remote_alloc_dev`: a device whose private data says where the stub listens. -/
def gdbRemoteAllocDev (info : GdbRemoteEnumInfo) (platform : Ptr) : StartUp Ptr :=
  allocDev w (.gdb (.allocated info)) platform

/-- What `pci_sysfs_free_dev` and `gdb_remote_free_dev` have in common; `clear` says whether `dev->priv` is
reset. -/
def freeDev (clear : Bool) (dev : Ptr) : StartUp ClInt := do
  if dev = 0 then
    return clSuccess
  let p ← Exec.gets (·.priv dev)
  if p ≠ 0 then
    release p
    if clear then
      Exec.modify fun s => { s with priv := Function.update s.priv dev 0 }
  devFree dev

/-- `pci_sysfs_free_dev`, which leaves `dev->priv` as it is. -/
def pciSysfsFreeDev (dev : Ptr) : StartUp ClInt := freeDev false dev

/-- `gdb_remote_free_dev`, which resets the device before it frees it. -/
def gdbRemoteFreeDev (dev : Ptr) : StartUp ClInt := freeDev true dev

/-! ## Starting and ending -/

variable (fuel : Nat)

/-- The body of the loop of `pci_sysfs_init` and `gdb_remote_init`. -/
def setUpDev (alloc : StartUp Ptr) (ops : Option DevHooks) (i : Nat) : StartUp Unit := do
  let dev ← alloc
  Exec.modify fun s => { s with registry := s.registry.setDev dev { s.registry.devs dev with ops := ops } }
  let r ← alongList (devAdd fuel dev (w.probe dev))
  if r ≠ clSuccess then
    Exec.exit (.ret r)
  Exec.modify fun s => { s with slots := Function.update s.slots i dev }

/-- The loop over the devices that were found, for the `n` from `i` on. -/
def setUpDevs (alloc : Nat → StartUp Ptr) (ops : Option DevHooks) : Nat → Nat → StartUp Unit
  | 0, _ => return ()
  | n + 1, i => do
    setUpDev w fuel (alloc i) ops i
    setUpDevs alloc ops n (i + 1)

/-- The loop of `pci_sysfs_exit` and `gdb_remote_exit`, from `i` on; what the calls in it return is dropped.
-/
def removeDevs (free : Ptr → StartUp ClInt) : Nat → Nat → StartUp Unit
  | 0, _ => return ()
  | n + 1, i => do
    let dev ← Exec.gets (·.slots i)
    let _ ← alongList (devRemove fuel dev (w.remove dev))
    let _ ← free dev
    removeDevs free n (i + 1)

/-- What `pci_sysfs_exit` and `gdb_remote_exit` have in common; `devs` and `devsNum` say whether the pointers
are there. -/
def driverExit (free : Ptr → StartUp ClInt) (devs devsNum : Bool) : StartUp ClInt := do
  if devs = false ∨ devsNum = false then
    return clInvalidValue
  let n ← Exec.gets (·.devsNum)
  removeDevs w fuel free n.toNat 0
  let array ← Exec.gets (·.devs)
  release array
  Exec.modify fun s => { s with devs := 0, devsNum := 0 }
  return clSuccess

/-- `pci_sysfs_exit`, with the driver's own function to free a device. -/
def pciSysfsExit (devs devsNum : Bool) : StartUp ClInt := driverExit w fuel pciSysfsFreeDev devs devsNum

/-- `gdb_remote_exit`, whose devices are reset before they are freed. -/
def gdbRemoteExit (devs devsNum : Bool) : StartUp ClInt := driverExit w fuel gdbRemoteFreeDev devs devsNum

/-- `*devs = calloc(*devs_num, …)`; whether there is memory. -/
def allocArray : StartUp Bool := do
  match ← allocate w with
  | none => return false
  | some p =>
    Exec.modify fun s => { s with devs := p, slots := fun _ => 0 }
    return true

/-- `struct pci_sysfs_conf`: the windows of the devices, and the functions of the driver. -/
structure PciSysfsConf where
  mapTable : MapTable
  ops : Option DevHooks

/-- What `pci_sysfs_enum` stores at `inf` and `num` when it succeeds. -/
structure PciSysfsEnum where
  inf : Ptr
  infos : Nat → PciSysfsEnumInfo
  num : UInt32

/-- `pci_sysfs_init`, when `pci_sysfs_enum` ends with `enum`. -/
def pciSysfsInit (platform : Ptr) (conf : Option PciSysfsConf) (devs devsNum : Bool)
    (enum : Except ClInt PciSysfsEnum) : StartUp Unit := do
  match conf with
  | none => Exec.exit (.ret clInvalidValue)
  | some conf =>
    if devs = false ∨ devsNum = false then
      Exec.exit (.ret clInvalidValue)
    Exec.modify fun s => { s with devs := 0, devsNum := 0 }
    match enum with
    | .error r => Exec.exit (.ret r)
    | .ok inf =>
      Exec.modify fun s => { s with devsNum := inf.num }
      let body : StartUp Unit := do
        let ok ← allocArray w
        if ok = false then
          Exec.exit (.ret clOutOfHostMemory)
        setUpDevs w fuel (fun i => pciSysfsAllocDev w conf.mapTable (inf.infos i) platform) conf.ops
          inf.num.toNat 0
      match ← Exec.attempt body with
      | .ok _ => release inf.inf
      | .error .endless => Exec.exit .endless
      | .error (.ret r) =>
        -- `err_out` resets the count, and then calls for the exit
        Exec.modify fun s => { s with devs := 0, devsNum := 0 }
        release inf.inf
        let _ ← pciSysfsExit w fuel true true
        Exec.exit (.ret r)

/-- `struct gdb_remote_conf`: where the stub listens, and the functions of the driver. -/
structure GdbRemoteConf where
  node : CStr
  service : CStr
  ops : Option DevHooks

/-- `gdb_remote_enum`: what is stored at `inf`, and what is there; `num` is 1. -/
def gdbRemoteEnum (conf : GdbRemoteConf) : StartUp (Ptr × GdbRemoteEnumInfo) := do
  match ← allocate w with
  | none => Exec.exit (.ret clOutOfHostMemory)
  | some reminf => return (reminf, ⟨conf.node, conf.service⟩)

/-- `gdb_remote_init`: one device is set up, the stub that the configuration names. -/
def gdbRemoteInit (platform : Ptr) (conf : Option GdbRemoteConf) (devs devsNum : Bool) : StartUp Unit := do
  match conf with
  | none => Exec.exit (.ret clInvalidValue)
  | some conf =>
    if devs = false ∨ devsNum = false then
      Exec.exit (.ret clInvalidValue)
    Exec.modify fun s => { s with devs := 0, devsNum := 0 }
    let (inf, info) ← gdbRemoteEnum w conf
    Exec.modify fun s => { s with devsNum := 1 }
    let ok ← allocArray w
    if ok = false then
      -- `*devs_num` stays 1
      Exec.exit (.ret clOutOfHostMemory)
    match ← Exec.attempt (setUpDevs w fuel (fun _ => gdbRemoteAllocDev w info platform) conf.ops 1 0) with
    | .ok _ => return ()
    | .error .endless => Exec.exit .endless
    | .error (.ret r) =>
      Exec.modify fun s => { s with devs := 0, devsNum := 0 }
      release inf
      let _ ← gdbRemoteExit w fuel true true
      Exec.exit (.ret r)

end Calls

end BaremetalCrt
