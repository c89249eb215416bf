/-
# BaremetalCrt.Gdb.Lives — the descriptor of a device behind a GDB server (`drivers/gdb/gdb_remote.c`).

`gdb_remote_alloc_dev` leaves `fd_sock` as `calloc` does, and `0` is a descriptor.  A probe that comes to
`socket` puts what that returned there; a probe that does not leaves the `0`, the device is added all the
same, and its removal closes the standard input of the process (`drivers_orderly_iff`).

The probe and the removal are put into the frame of `Runtime.Lives`, over a network whose answers are
arbitrary (`NetKernel`). The life of the device is orderly just when the name of the peer is found; a PCI
device has an orderly life always, since its slots hold `-1` from the start.
-/
import BaremetalCrt.Gdb.Remote
import BaremetalCrt.Pci.Bars
import BaremetalCrt.Pci.Lives

namespace BaremetalCrt

open Lib

/-! ## The driver -/

/-- `struct gdb_remote_enum_info`: where the stub listens. -/
structure GdbRemoteEnumInfo where
  node : CStr
  service : CStr

/-- `struct gdb_remote_priv`: where the stub listens, and the socket, which is -1 when there is none. -/
structure GdbRemotePriv where
  info : GdbRemoteEnumInfo
  fdSock : Int

/-- What `gdb_remote_alloc_dev` and `gdb_remote_init` leave in a device. -/
def GdbRemotePriv.allocated (info : GdbRemoteEnumInfo) : GdbRemotePriv where
  info := info
  fdSock := 0

/-- What decides how the system calls of `gdb_remote_probe` go.  A descriptor that is handed out is not open,
and `-1` stands for a failure. -/
structure NetKernel (σ : Type) where
  getaddrinfo : CStr → CStr → σ → Int × σ
  socket : List Int → σ → Int × σ
  fresh : ∀ fds k, (socket fds k).1 = -1 ∨ 0 ≤ (socket fds k).1 ∧ (socket fds k).1 ∉ fds
  connect : Int → σ → Int × σ

/-- The device that is probed or removed, the open descriptors of the process, which of them the driver
opened and closed, and what passes over the socket. -/
structure GdbSys (σ : Type) where
  port : Port σ
  prv : GdbRemotePriv
  fds : List Int
  log : List FdEvent

/-- A step of a probe or a removal. It hangs where the dialog with the stub does. -/
abbrev GdbDev (σ : Type) := Exec (GdbSys σ) Hang

variable {σ : Type}

/-- A dialog with the stub, as a step of the probe. -/
def onPort {α : Type} (m : Gdb σ α) : GdbDev σ α := fun s => ((m s.port).1, { s with port := (m s.port).2 })

/-- `close`: the descriptor is no longer open, whatever the call returns. -/
def closeSock (fd : Int) : GdbDev σ Unit :=
  Exec.modify fun s => { s with fds := s.fds.erase fd, log := s.log ++ [.closed fd] }

section Calls

variable (net : NetKernel σ) (link : Link σ) (fuel : Nat)

/-- `socket`: a descriptor that was not open, or -1. -/
def openSock : GdbDev σ Int := fun s =>
  let out := net.socket s.fds s.port.link
  (.ok out.1,
    if out.1 = -1 then { s with port := { s.port with link := out.2 } }
    else { s with
      port := { s.port with link := out.2 }
      fds := out.1 :: s.fds
      log := s.log ++ [.opened out.1] })

/-- `gdb_remote_probe`: the address is looked up, a socket is opened and connected, and the stub behind it
is brought into step. Where that fails, the socket is left open. -/
def gdbRemoteProbe : GdbDev σ ClInt := do
  let info ← Exec.gets (·.prv.info)
  let r ← onPort (onLink (net.getaddrinfo info.node info.service))
  if r ≠ 0 then
    -- `fd_sock` is what it was
    return clOutOfHostMemory
  let fd ← openSock net
  Exec.modify fun s => { s with prv := { s.prv with fdSock := fd } }
  if fd = -1 then
    return clOutOfHostMemory
  let r ← onPort (onLink (net.connect fd))
  if r ≠ 0 then
    return clOutOfHostMemory
  -- the peer may answer what it likes
  let _ ← onPort (gdbRemoteDiscardAll link fuel)
  return clSuccess

/-- `gdb_remote_remove`: whatever `fd_sock` holds is closed. -/
def gdbRemoteRemove : GdbDev σ ClInt := do
  let fd ← Exec.gets (·.prv.fdSock)
  closeSock fd
  return clSuccess

/-- `gdb_remote_probe` and `gdb_remote_remove`, as the two functions of a driver whose lives are counted. -/
def gdbDriver : DevDriver (GdbSys σ) GdbRemotePriv where
  probe := gdbRemoteProbe net link fuel
  remove := gdbRemoteRemove
  priv := GdbSys.prv
  fds := GdbSys.fds
  log := GdbSys.log

end Calls

/-- What `gdb_remote_alloc_dev` leaves, and the process around it. -/
structure GdbSys.Fresh (s : GdbSys σ) : Prop where
  prv : ∃ info, s.prv = .allocated info
  log : s.log = []
  fds : s.fds.Nodup

/-! ## The life of a device -/

section Life

variable {net : NetKernel σ} {link : Link σ} {fuel : Nat} {s : GdbSys σ}

/-- `getaddrinfo` finds the name of the peer. -/
def NetKernel.Resolves (net : NetKernel σ) (s : GdbSys σ) : Prop :=
  (net.getaddrinfo s.prv.info.node s.prv.info.service s.port.link).1 = 0

theorem wp_onPort {α : Type} (m : Gdb σ α) {Q : α → GdbSys σ → Prop} {E : Hang → GdbSys σ → Prop} :
    Exec.wp (onPort m) Q E s ↔
      Exec.wp m (fun a p => Q a { s with port := p }) (fun e p => E e { s with port := p }) s.port := by
  unfold Exec.wp onPort
  rcases m s.port with ⟨_ | _, _⟩ <;> rfl

theorem wp_onLink {α : Type} (f : σ → α × σ) {Q : α → Port σ → Prop} {E : Hang → Port σ → Prop} {p : Port σ} :
    Exec.wp (onLink f) Q E p ↔ Q (f p.link).1 { p with link := (f p.link).2 } := Iff.rfl

/-- What is open is what was open for others, and the socket that the device remembers. -/
def GdbSys.Balanced (others : Int → Prop) (s : GdbSys σ) : Prop :=
  Accounted FdEvent.use (0 ≤ ·) others s.log s.fds (slot s.prv.fdSock)

/-- What `socket` opened is remembered. -/
theorem GdbSys.Balanced.openSock (net : NetKernel σ) (hlog : s.log = []) (hfds : s.fds.Nodup) :
    Exec.wp (openSock net)
      (fun fd s' => GdbSys.Balanced (fun _ => False) { s' with prv := { s'.prv with fdSock := fd } })
      (fun _ _ => False) s := by
  have hstart : Accounted FdEvent.use (0 ≤ ·) (fun _ => False) s.log s.fds 0 := by
    rw [hlog]
    exact accounted_nil hfds
  show GdbSys.Balanced _ _
  unfold Balanced
  dsimp only
  rcases net.fresh s.fds s.port.link with hfd | ⟨hnonneg, hfresh⟩
  · rw [hfd, if_pos rfl, slot_none]
    exact hstart
  · have hne : (net.socket s.fds s.port.link).1 ≠ -1 := by
      intro heq
      rw [heq] at hnonneg
      exact absurd hnonneg (by decide)
    rw [if_neg hne, slot_some hne]
    exact hstart.take rfl hfresh

/-- A probe that comes to `socket` remembers what it opened. -/
theorem wp_gdbRemoteProbe_balanced (hs : s.Fresh) (hresolves : net.Resolves s) :
    Exec.wp (gdbRemoteProbe net link fuel) (fun _ s' => s'.Balanced fun _ => False)
      (fun _ s' => s'.Balanced fun _ => False) s := by
  rw [gdbRemoteProbe, Exec.wp_bind, Exec.wp_gets, Exec.wp_bind, wp_onPort, wp_onLink]
  have hfound : ¬(net.getaddrinfo s.prv.info.node s.prv.info.service s.port.link).1 ≠ 0 :=
    not_not.mpr hresolves
  dsimp only
  rw [if_neg hfound, Exec.wp_bind]
  refine (GdbSys.Balanced.openSock net ?_ ?_).mono (fun fd s₁ hs₁ => ?_) fun _ _ h => h.elim
  · exact hs.log
  · exact hs.fds
  · rw [Exec.wp_bind, Exec.wp_modify, Exec.wp_ite]
    refine ⟨fun _ => hs₁, fun _ => ?_⟩
    rw [Exec.wp_bind, wp_onPort, wp_onLink, Exec.wp_ite]
    refine ⟨fun _ => hs₁, fun _ => ?_⟩
    rw [Exec.wp_bind, wp_onPort]
    exact Exec.wp_of_forall (fun _ _ => hs₁) fun _ _ => hs₁

/-- The removal closes it. -/
theorem wp_gdbRemoteRemove_balanced {others : Int → Prop} (hs : s.Balanced others) :
    Exec.wp gdbRemoteRemove (fun _ s' => Accounted FdEvent.use (0 ≤ ·) others s'.log s'.fds 0)
      (fun _ _ => False) s := by
  rw [gdbRemoteRemove, Exec.wp_bind, Exec.wp_gets, Exec.wp_bind, closeSock, Exec.wp_modify, Exec.wp_pure]
  unfold GdbSys.Balanced at hs
  by_cases hfd : s.prv.fdSock = -1
  · rw [hfd, slot_none] at hs
    rw [hfd]
    exact hs.giveInvalid rfl (by decide) (Multiset.notMem_zero _)
  · rw [slot_some hfd] at hs
    have hgive := hs.give (e := .closed s.prv.fdSock) rfl (Multiset.mem_singleton_self _)
    rw [Multiset.erase_singleton] at hgive
    exact hgive

theorem gdbRemote_orderly_of_resolves (hs : s.Fresh) (hresolves : net.Resolves s) :
    OrderlyDriver (gdbDriver net link fuel) s := by
  refine orderlyDriver_of_accounted (fun prv => slot prv.fdSock) ?_ fun others s₂ hs₂ => ?_
  · exact (wp_gdbRemoteProbe_balanced hs hresolves).mono (fun _ _ h => h) fun _ _ h => h.gives
  · exact wp_gdbRemoteRemove_balanced hs₂

/-- A probe that does not leaves the `0` that `calloc` left. -/
theorem gdbRemoteProbe_of_not_resolves (link : Link σ) (fuel : Nat) (hresolves : ¬net.Resolves s) :
    ∃ p, gdbRemoteProbe net link fuel s = (.ok clOutOfHostMemory, { s with port := p }) := by
  have hlost : (net.getaddrinfo s.prv.info.node s.prv.info.service s.port.link).1 ≠ 0 := hresolves
  refine ⟨{ s.port with
    link := (net.getaddrinfo s.prv.info.node s.prv.info.service s.port.link).2 }, ?_⟩
  simp only [gdbRemoteProbe, Exec.bind_apply, Exec.gets_apply, onPort, onLink, if_pos hlost, Exec.pure_apply]

/-- The removal closes whatever is there. -/
theorem gdbRemoteRemove_eq (s : GdbSys σ) : gdbRemoteRemove s = (.ok clSuccess, { s with
    fds := s.fds.erase s.prv.fdSock, log := s.log ++ [.closed s.prv.fdSock] }) := rfl

/-- **GDB.** The driver closes what it opened and nothing else just when the name of the peer is found. -/
theorem gdbRemote_orderly_iff (hs : s.Fresh) :
    OrderlyDriver (gdbDriver net link fuel) s ↔ net.Resolves s := by
  refine ⟨fun h => ?_, gdbRemote_orderly_of_resolves hs⟩
  by_contra hresolves
  obtain ⟨info, hprv⟩ := hs.prv
  obtain ⟨p, hprobe⟩ := gdbRemoteProbe_of_not_resolves link fuel hresolves
  obtain ⟨hfds, hremove⟩ := Exec.wp.ok h hprobe
  have hclean := (hremove _ rfl rfl hfds).ok (gdbRemoteRemove_eq { s with port := p })
  have hclosed := hclean.closesOwn
  -- the only event is the `close` of what `fd_sock` is from the start
  have hlog : (gdbDriver net link fuel).log { s with
      port := p, fds := s.fds.erase s.prv.fdSock, log := s.log ++ [.closed s.prv.fdSock] } =
      [] ++ [.closed 0] := by
    show s.log ++ [.closed s.prv.fdSock] = _
    rw [hs.log, hprv, GdbRemotePriv.allocated]
  rw [hlog] at hclosed
  have hheld := (eachAfter_snoc.mp hclosed).2 0 rfl (Int.le_refl 0)
  rw [held_nil] at hheld
  exact Multiset.notMem_zero _ hheld

end Life

/-- **Closing only what was opened.** Whatever the system calls do, a fresh PCI device has an orderly life, and
a fresh device behind a GDB server has one just when the name of the server is found. -/
theorem drivers_orderly_iff {κ σ : Type} (os : PciKernel κ) (net : NetKernel σ) (link : Link σ) (fuel : Nat)
    (dev : Ptr) (g : Registry) (l : List Ptr) (hg : FreshDevice fuel dev g l) (s : PciSys κ) (hs : s.Fresh)
    (t : GdbSys σ) (ht : t.Fresh) :
    OrderlyLife (pciDriver os) fuel dev (g, s) ∧
      (OrderlyLife (gdbDriver net link fuel) fuel dev (g, t) ↔ net.Resolves t) := by
  rw [orderlyLife_iff hg, orderlyLife_iff hg]
  exact ⟨pciSysfs_orderly os hs, gdbRemote_orderly_iff ht⟩

/-! ### A name that is not found -/

/-- A device that was just allocated, and an empty list. -/
def newDevice : Registry :=
  ⟨0, fun p => ⟨if p = 1 then openclIcdMagic else 0, some ⟨true, true⟩, 8, false, 0⟩, 0⟩

theorem fresh_newDevice : FreshDevice 1 1 newDevice [] where
  chain := (chain_nil_iff (by decide)).mpr rfl
  room := Nat.zero_lt_one
  notMem := List.not_mem_nil
  valid := by decide
  ops := rfl
  devNext := rfl

/-- A peer that takes everything and says nothing, if its name is found. -/
def quietNet (found : Bool) : NetKernel Unit where
  getaddrinfo _ _ k := (if found then 0 else -2, k)
  socket fds k := (freshFd fds, k)
  fresh fds _ := .inr (freshFd_spec fds)
  connect _ k := (0, k)

/-- A link at the end of its stream: nothing comes in, and everything is taken. -/
def quietLink : Link Unit where
  recv k := (.eof, k)
  send bs k := (.count bs.length, k)
  calloc k := (true, k)
  stack k := (fun _ => 0, k)

/-- `localhost:3333`, where OpenOCD listens. -/
def openocdInfo : GdbRemoteEnumInfo :=
  ⟨⟨ascii "localhost", by decide, by decide⟩, ⟨ascii "3333", by decide, by decide⟩⟩

/-- The device of that stub, before it is probed. -/
def openocd : GdbSys Unit where
  port := ⟨(), [], [], []⟩
  prv := .allocated openocdInfo
  fds := [0, 1, 2]
  log := []

theorem fresh_openocd : openocd.Fresh := ⟨⟨_, rfl⟩, rfl, by decide⟩

theorem fresh_spaceSys (bars : Nat → Reg 32) : (spaceSys bars).Fresh :=
  ⟨⟨_, _, _, rfl⟩, rfl, (by decide : [(0 : Int), 1, 2].Nodup)⟩

theorem quiet_orderly : OrderlyLife (pciDriver spaceKernel) 1 1 (newDevice, spaceSys mixedBars) ∧
    (OrderlyLife (gdbDriver (quietNet true) quietLink 1) 1 1 (newDevice, openocd) ↔
      (quietNet true).Resolves openocd) :=
  drivers_orderly_iff spaceKernel (quietNet true) quietLink 1 1 newDevice [] fresh_newDevice
    (spaceSys mixedBars) (fresh_spaceSys mixedBars) openocd fresh_openocd

/-- The name is not found, and descriptor 0 is closed, which the driver never opened. -/
theorem lost_closes_stdin : FreshDevice 1 1 newDevice [] ∧ openocd.Fresh ∧
    ¬OrderlyLife (gdbDriver (quietNet false) quietLink 1) 1 1 (newDevice, openocd) := by
  refine ⟨fresh_newDevice, fresh_openocd, ?_⟩
  rw [orderlyLife_iff fresh_newDevice, gdbRemote_orderly_iff fresh_openocd]
  unfold NetKernel.Resolves
  decide

end BaremetalCrt
