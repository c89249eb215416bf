/-
# BaremetalCrt.Runtime.Lives — the life of a device, and the descriptors it holds (`drivers/device.c`).

`dev_add` probes a device and `dev_remove` gives it up, whatever came of the probe.  A life is orderly when
the driver closes only what it opened itself and has not closed yet, and nothing stays open.  What happens
between the two calls is not the driver's: other devices come and go, and other parts of the process open
and close what they like.
-/
import BaremetalCrt.Lib.Holding
import BaremetalCrt.Gdb.Link
import BaremetalCrt.Pci.Sysfs
import BaremetalCrt.Runtime.Registry

namespace BaremetalCrt

open Lib

/-! ## The calls, with what the driver does in them -/

variable {δ π : Type}

/-- A step of the driver, on the device's own part of the state. -/
def onDevice {α : Type} (m : Exec δ Hang α) : Exec (Registry × δ) Hang α := fun x =>
  ((m x.2).1, x.1, (m x.2).2)

/-- The list; a loop along it that does not end is a hang. -/
def onRegistry (f : Registry → Option (ClInt × Registry)) : Exec (Registry × δ) Hang ClInt := fun x =>
  match f x.1 with
  | none => (.error .fuel, x)
  | some (r, g) => (.ok r, g, x.2)

/-- The walk came to the end of the list without meeting the device. -/
def Registry.WalkEnd.isLast : Registry.WalkEnd → Bool
  | .found _ => false
  | .last _ => true

section Calls

variable (fuel : Nat) (dev : Ptr)

/-- `dev_add` comes to `ops->probe`: the device is valid, not in the list yet, and has a probe. -/
def Registry.CallsProbe (g : Registry) : Prop :=
  g.devIsValid dev = clSuccess ∧ (g.walk dev fuel none).any WalkEnd.isLast ∧
    (g.devs dev).ops.any (·.probe)

/-- `dev_remove` comes to `ops->remove`: the device is valid, in the list, and has a removal. -/
def Registry.CallsRemove (g : Registry) : Prop :=
  g.devIsValid dev = clSuccess ∧ (g.walk dev fuel none).any (!·.isLast) ∧ (g.devs dev).ops.any (·.remove)

instance (g : Registry) : Decidable (g.CallsProbe fuel dev) := inferInstanceAs (Decidable (_ ∧ _))

instance (g : Registry) : Decidable (g.CallsRemove fuel dev) := inferInstanceAs (Decidable (_ ∧ _))

/-- `dev_add`, with the probe where the source calls it. -/
def devAddProbing (probe : Exec δ Hang ClInt) : Exec (Registry × δ) Hang ClInt := do
  let g ← Exec.gets Prod.fst
  let r ← if g.CallsProbe fuel dev then onDevice probe else return clSuccess
  onRegistry (devAdd fuel dev r)

/-- `dev_remove`, with the removal where it calls it. -/
def devRemoveRemoving (remove : Exec δ Hang ClInt) : Exec (Registry × δ) Hang ClInt := do
  let g ← Exec.gets Prod.fst
  let r ← if g.CallsRemove fuel dev then onDevice remove else return clSuccess
  onRegistry (devRemove fuel dev r)

end Calls

/-! ## Orderly lives -/

/-- A descriptor that is opened is taken, and one that is closed is given back. -/
def FdEvent.use : FdEvent → Use Int
  | .opened fd => .take fd
  | .closed fd => .give fd

/-- Every `close` of a non-negative descriptor is of one that was opened before and not closed since. -/
abbrev ClosesOwn : List FdEvent → Prop := EachAfter (GivesHeld FdEvent.use (0 ≤ ·))

/-- A driver: its two operations, and where in its state the device's private data, the open descriptors of
the process and the log of this device are. -/
structure DevDriver (δ π : Type) where
  probe : Exec δ Hang ClInt
  remove : Exec δ Hang ClInt
  priv : δ → π
  fds : δ → List Int
  log : δ → List FdEvent

/-- What an orderly life leaves: everything was closed that the device opened, and where one of these
descriptors is open, others have opened it between the two calls. -/
structure Clean (log : List FdEvent) (fdsAdded fdsBefore fds : List Int) : Prop where
  closesOwn : ClosesOwn log
  closed : held FdEvent.use log = 0
  gone : ∀ fd, .opened fd ∈ log → fd ∈ fds → fd ∈ fdsBefore ∧ fd ∉ fdsAdded

variable (d : DevDriver δ π) (fuel : Nat) (dev : Ptr)

/-- What can have happened between the two calls: the device is in the list as it was, and the others kept
off its private data. -/
structure Meanwhile (x y : Registry × δ) : Prop where
  priv : d.priv y.2 = d.priv x.2
  log : d.log y.2 = d.log x.2
  fds : (d.fds y.2).Nodup
  listed : ∃ l : List Ptr, Chain y.1.next none (l.map some) ∧ dev ∈ l ∧ l.length ≤ fuel
  valid : y.1.devIsValid dev = clSuccess
  ops : (y.1.devs dev).ops = (x.1.devs dev).ops

/-- The life of a device: it is added, others do what they like, or nothing, and it is removed.  A probe that
waits for ever is no life, but it must not close anything else either. -/
def OrderlyLife (x : Registry × δ) : Prop :=
  Exec.wp (devAddProbing fuel dev d.probe)
    (fun _ x₁ => Meanwhile d fuel dev x₁ x₁ ∧ ∀ x₂, Meanwhile d fuel dev x₁ x₂ →
      Exec.wp (devRemoveRemoving fuel dev d.remove)
        (fun _ x₃ => Clean (d.log x₃.2) (d.fds x₁.2) (d.fds x₂.2) (d.fds x₃.2)) (fun _ _ => False) x₂)
    (fun _ x₁ => ClosesOwn (d.log x₁.2)) x

/-- The same of the two operations alone: between them only what the driver does not remember may change. -/
def OrderlyDriver (s : δ) : Prop :=
  Exec.wp d.probe
    (fun _ s₁ => (d.fds s₁).Nodup ∧ ∀ s₂, d.priv s₂ = d.priv s₁ → d.log s₂ = d.log s₁ → (d.fds s₂).Nodup →
      Exec.wp d.remove (fun _ s₃ => Clean (d.log s₃) (d.fds s₁) (d.fds s₂) (d.fds s₃)) (fun _ _ => False) s₂)
    (fun _ s₁ => ClosesOwn (d.log s₁)) s

/-- A device that was just allocated, for a driver with both operations, and the list that it is not in. -/
structure FreshDevice (g : Registry) (l : List Ptr) : Prop where
  chain : Chain g.next none (l.map some)
  room : l.length < fuel
  notMem : dev ∉ l
  valid : g.devIsValid dev = clSuccess
  ops : (g.devs dev).ops = some ⟨true, true⟩
  devNext : (g.devs dev).devNext = 0

variable {d fuel dev}

/-! ## The list does not matter -/

section Wp

variable {g : Registry} {l : List Ptr} {s : δ}

theorem wp_onDevice {α : Type} (m : Exec δ Hang α) {Q : α → Registry × δ → Prop}
    {E : Hang → Registry × δ → Prop} :
    Exec.wp (onDevice m) Q E (g, s) ↔ Exec.wp m (fun a s => Q a (g, s)) (fun e s => E e (g, s)) s := by
  unfold Exec.wp onDevice
  rcases m s with ⟨_ | _, _⟩ <;> rfl

/-- A fresh device is probed and goes to the end of the list. -/
theorem FreshDevice.wp_add (hg : FreshDevice fuel dev g l) (probe : Exec δ Hang ClInt) (s : δ) :
    ∃ b, Walk g.next none (l.map some) b ∧ ∀ {Q : ClInt → Registry × δ → Prop} {E : Hang → Registry × δ → Prop},
      Exec.wp (devAddProbing fuel dev probe) Q E (g, s) ↔
        Exec.wp probe (fun r s => Q clSuccess (g.added dev r b, s)) (fun e s => E e (g, s)) s := by
  obtain ⟨b, hwalk, hend⟩ := hg.chain
  have hlast := Registry.walk_last hwalk hend (Registry.notMem_map_some hg.notMem) (n := fuel)
    (by rw [List.length_map]; exact hg.room)
  have hcalls : g.CallsProbe fuel dev := ⟨hg.valid, by rw [hlast]; rfl, by rw [hg.ops]; rfl⟩
  refine ⟨b, hwalk, fun {Q E} => ?_⟩
  have hadd (r : ClInt) (s : δ) : Exec.wp (onRegistry (devAdd fuel dev r)) Q E (g, s) ↔
      Q clSuccess (g.added dev r b, s) := by
    have hrun : devAdd fuel dev r g = some (clSuccess, g.added dev r b) :=
      Registry.devAdd_eq hg.valid hg.notMem hwalk hend hg.room
    simp only [Exec.wp, onRegistry, hrun]
  rw [devAddProbing, Exec.wp_bind, Exec.wp_gets, if_pos hcalls, Exec.wp_bind, wp_onDevice]
  simp only [hadd]

/-- A device of the list is given up. -/
theorem wp_devRemoveRemoving {remove : Exec δ Hang ClInt} (hlist : Chain g.next none (l.map some))
    (hdev : dev ∈ l) (hroom : l.length ≤ fuel) (hvalid : g.devIsValid dev = clSuccess)
    (hops : (g.devs dev).ops = some ⟨true, true⟩) {P : δ → Prop} :
    Exec.wp (devRemoveRemoving fuel dev remove) (fun _ x => P x.2) (fun _ _ => False) (g, s) ↔
      Exec.wp remove (fun _ => P) (fun _ _ => False) s := by
  obtain ⟨prev, hfound⟩ := Registry.walk_listed hlist hdev hroom
  have hcalls : g.CallsRemove fuel dev := ⟨hvalid, by rw [hfound]; rfl, by rw [hops]; rfl⟩
  have hremove (r : ClInt) (s : δ) :
      Exec.wp (onRegistry (devRemove fuel dev r)) (fun _ x => P x.2) (fun _ _ => False) (g, s) ↔ P s := by
    have hrun : ∃ r', devRemove fuel dev r g = some (r', g.removed dev prev) := by
      rw [devRemove, if_neg (not_not.mpr hvalid), hfound]
      exact ⟨_, rfl⟩
    obtain ⟨r', hrun⟩ := hrun
    simp only [Exec.wp, onRegistry, hrun]
  rw [devRemoveRemoving, Exec.wp_bind, Exec.wp_gets, if_pos hcalls, Exec.wp_bind, wp_onDevice]
  simp only [hremove]

/-- Behind its addition the device is in the list, and nothing need happen. -/
theorem FreshDevice.added_listed (hg : FreshDevice fuel dev g l) (ret : ClInt) {b : Option Ptr}
    (hwalk : Walk g.next none (l.map some) b) :
    ∃ l : List Ptr, Chain (g.added dev ret b).next none (l.map some) ∧ dev ∈ l ∧ l.length ≤ fuel := by
  have hchain := Registry.added_chain_iff ret (Registry.ne_zero_of_devIsValid hg.valid) hg.notMem
    (Registry.nodup_of_chain hg.chain) hwalk
  refine ⟨l ++ [dev], hchain.mpr hg.devNext, by simp, ?_⟩
  rw [List.length_append, List.length_singleton]
  exact hg.room

end Wp

/-- **The list does not matter.** A fresh device has an orderly life just when the two operations are orderly,
one after the other. -/
theorem orderlyLife_iff {g : Registry} {l : List Ptr} (hg : FreshDevice fuel dev g l) (s : δ) :
    OrderlyLife d fuel dev (g, s) ↔ OrderlyDriver d s := by
  obtain ⟨b, hwalk, hadd⟩ := hg.wp_add d.probe s
  rw [OrderlyLife, hadd, OrderlyDriver]
  have hstep (r : ClInt) (s₁ : δ) :
      (Meanwhile d fuel dev (g.added dev r b, s₁) (g.added dev r b, s₁) ∧
        ∀ x₂, Meanwhile d fuel dev (g.added dev r b, s₁) x₂ →
          Exec.wp (devRemoveRemoving fuel dev d.remove)
            (fun _ x₃ => Clean (d.log x₃.2) (d.fds s₁) (d.fds x₂.2) (d.fds x₃.2)) (fun _ _ => False) x₂) ↔
      ((d.fds s₁).Nodup ∧ ∀ s₂, d.priv s₂ = d.priv s₁ → d.log s₂ = d.log s₁ → (d.fds s₂).Nodup →
        Exec.wp d.remove (fun _ s₃ => Clean (d.log s₃) (d.fds s₁) (d.fds s₂) (d.fds s₃))
          (fun _ _ => False) s₂) := by
    have hops : ((g.added dev r b).devs dev).ops = some ⟨true, true⟩ := by
      rw [Registry.added_ops, hg.ops]
    have hvalid : (g.added dev r b).devIsValid dev = clSuccess := by
      rw [Registry.added_devIsValid, hg.valid]
    obtain ⟨l', hlist, hmem, hroom⟩ := hg.added_listed r hwalk
    constructor
    · rintro ⟨hnow, hlater⟩
      refine ⟨hnow.fds, fun s₂ hpriv hlog hfds => ?_⟩
      have hmean : Meanwhile d fuel dev (g.added dev r b, s₁) (g.added dev r b, s₂) :=
        ⟨hpriv, hlog, hfds, ⟨l', hlist, hmem, hroom⟩, hvalid, rfl⟩
      exact (wp_devRemoveRemoving hlist hmem hroom hvalid hops).mp (hlater _ hmean)
    · rintro ⟨hnodup, hlater⟩
      -- the removal finds the device, whatever was added and removed around it
      refine ⟨⟨rfl, rfl, hnodup, ⟨l', hlist, hmem, hroom⟩, hvalid, rfl⟩, ?_⟩
      rintro ⟨g₂, s₂⟩ hmean
      obtain ⟨l₂, hlist₂, hmem₂, hroom₂⟩ := hmean.listed
      exact (wp_devRemoveRemoving hlist₂ hmem₂ hroom₂ hmean.valid (hmean.ops.trans hops)).mpr
        (hlater s₂ hmean.priv hmean.log hmean.fds)
  simp only [hstep]

/-- A driver whose slots say what it holds is orderly: its probe fills them, and its removal empties them. -/
theorem orderlyDriver_of_accounted (slots : π → Multiset Int) {s : δ}
    (hprobe : Exec.wp d.probe
      (fun _ s₁ => Accounted FdEvent.use (0 ≤ ·) (fun _ => False) (d.log s₁) (d.fds s₁) (slots (d.priv s₁)))
      (fun _ s₁ => ClosesOwn (d.log s₁)) s)
    (hremove : ∀ others s₂,
      Accounted FdEvent.use (0 ≤ ·) others (d.log s₂) (d.fds s₂) (slots (d.priv s₂)) →
      Exec.wp d.remove (fun _ s₃ => Accounted FdEvent.use (0 ≤ ·) others (d.log s₃) (d.fds s₃) 0)
        (fun _ _ => False) s₂) : OrderlyDriver d s := by
  refine hprobe.mono (fun r s₁ h => ⟨h.nodup, fun s₂ hpriv hlog hnodup => ?_⟩) (fun _ _ h => h)
  have hmean := h.meanwhile (fun _ => id) hnodup
  rw [← hlog, ← hpriv] at hmean
  refine (hremove _ s₂ hmean).mono (fun r s₃ hend => ⟨hend.gives, hend.held, fun fd hfd hopen => ?_⟩)
    (fun _ _ h => h)
  -- nothing is remembered any more, so it was opened by others
  exact (hend.known _ hfd fd rfl hopen).resolve_left (Multiset.notMem_zero fd)

end BaremetalCrt
