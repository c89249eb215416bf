/-
# BaremetalCrt.Pci.Lives — the descriptors of a PCI device.

A descriptor is remembered where it belongs, in `fd_config` or in the `fd` of its register, and these are
`-1` where there is none.  So the probe's own clean-up and the removal behind it need not know how far the
probe came: they close what is remembered, and forget it (`pciSysfs_orderly`).

The ledger is `Accounted`: what is open is what others opened and what the slots remember. Each step of the
probe keeps it, the removal empties the slots, and an entry of a register that was never opened holds `-1`
from the allocation of the device on.
-/
import BaremetalCrt.Runtime.Lives
import Mathlib.Algebra.BigOperators.Group.Finset.Basic
import Mathlib.Algebra.Order.Group.Multiset

namespace BaremetalCrt

open Lib

/-! ## The slots -/

/-- The descriptor that a place remembers; -1 is none. -/
def slot (fd : Int) : Multiset Int := if fd = -1 then 0 else {fd}

theorem slot_none : slot (-1) = 0 := if_pos rfl

theorem slot_some {fd : Int} (h : fd ≠ -1) : slot fd = {fd} := if_neg h

namespace PciSysfsPriv

variable (prv : PciSysfsPriv)

/-- The descriptors that the registers' entries remember, with repetitions. -/
def barSlots : Multiset Int := ∑ i ∈ Finset.range pciResMax, slot (prv.pciRes i).fd

/-- The descriptors that the device remembers: of its configuration space, and of its registers. -/
def slots : Multiset Int := slot prv.fdConfig + prv.barSlots

theorem fd_setRes (i j : Nat) (f : PciSysfsResource → PciSysfsResource) :
    ((prv.setRes i f).pciRes j).fd =
      Function.update (fun j => (prv.pciRes j).fd) i (f (prv.pciRes i)).fd j := by
  by_cases hj : j = i
  · subst hj
    simp [setRes]
  · simp [setRes, hj]

/-- A store that keeps the descriptor of the register. -/
theorem fd_setRes_of_fd {i : Nat} {f : PciSysfsResource → PciSysfsResource}
    (hf : (f (prv.pciRes i)).fd = (prv.pciRes i).fd) (j : Nat) :
    ((prv.setRes i f).pciRes j).fd = (prv.pciRes j).fd := by
  rw [fd_setRes, hf, Function.update_eq_self]

/-- A store to the descriptor of a register: the others remember what they did. -/
theorem slots_setRes {i : Nat} (hi : i < pciResMax) : ∃ rest, prv.slots = slot (prv.pciRes i).fd + rest ∧
    ∀ f, (prv.setRes i f).slots = slot (f (prv.pciRes i)).fd + rest := by
  have hmem : i ∈ Finset.range pciResMax := Finset.mem_range.mpr hi
  have hsplit (p : PciSysfsPriv) : p.slots = slot (p.pciRes i).fd +
      (slot p.fdConfig + ∑ j ∈ (Finset.range pciResMax).erase i, slot (p.pciRes j).fd) := by
    rw [slots, barSlots, ← Finset.add_sum_erase _ _ hmem, add_left_comm]
  refine ⟨_, hsplit prv, fun f => ?_⟩
  rw [hsplit, fd_setRes, Function.update_self]
  congr 2
  refine Finset.sum_congr rfl fun j hj => ?_
  rw [fd_setRes, Function.update_of_ne (Finset.ne_of_mem_erase hj)]

theorem slots_of_all_closed (hconfig : prv.fdConfig = -1)
    (hbars : ∀ i, i < pciResMax → (prv.pciRes i).fd = -1) :
    prv.slots = 0 := by
  rw [slots, hconfig, slot_none, zero_add, barSlots]
  refine Finset.sum_eq_zero fun i hi => ?_
  rw [hbars i (Finset.mem_range.mp hi), slot_none]

end PciSysfsPriv

/-! ## Probing -/

section Probe

variable {κ : Type} {os : PciKernel κ} {others : Int → Prop} {s : PciSys κ}

/-- What is open is remembered, and `more` besides. -/
def PciSys.Balanced (others : Int → Prop) (more : Multiset Int) (s : PciSys κ) : Prop :=
  Accounted FdEvent.use (0 ≤ ·) others s.log s.fds (more + s.prv.slots)

/-- A descriptor that was opened is still to be remembered. -/
theorem PciSys.Balanced.open (h : s.Balanced others 0) (os : PciKernel κ) (path : List UInt8) :
    (s.afterOpen (os.openFile path s.fds s.kern).1 (os.openFile path s.fds s.kern).2).Balanced others
      (slot (os.openFile path s.fds s.kern).1) := by
  unfold Balanced
  rw [PciSys.afterOpen_prv]
  unfold PciSys.afterOpen
  rcases os.fresh path s.fds s.kern with hfd | ⟨hnonneg, hfresh⟩
  · rw [hfd, if_pos rfl, slot_none]
    exact h
  · have hne : (os.openFile path s.fds s.kern).1 ≠ -1 := by
      intro heq
      rw [heq] at hnonneg
      exact absurd hnonneg (by decide)
    rw [if_neg hne, slot_some hne, Multiset.singleton_add]
    rw [Balanced, zero_add] at h
    exact h.take rfl hfresh

/-- The descriptor of a register is free, and takes it. -/
theorem PciSys.Balanced.remember {fd : Int} (h : s.Balanced others (slot fd)) {i : Nat} (hi : i < pciResMax)
    (hfree : (s.prv.pciRes i).fd = -1) (stores : List Nat) :
    PciSys.Balanced others 0 { s with prv := s.prv.setRes i ({ · with fd := fd }), stores := stores } := by
  obtain ⟨rest, hrest, hset⟩ := s.prv.slots_setRes hi
  rw [hfree, slot_none, zero_add] at hrest
  have hslots : 0 + (s.prv.setRes i ({ · with fd := fd })).slots = slot fd + s.prv.slots := by
    rw [zero_add, hset, hrest]
  rw [Balanced, hslots]
  exact h

theorem PciSys.Balanced.rememberConfig {fd : Int} (h : s.Balanced others (slot fd))
    (hfree : s.prv.fdConfig = -1) :
    PciSys.Balanced others 0 { s with prv := { s.prv with fdConfig := fd } } := by
  have hslots : 0 + PciSysfsPriv.slots { s.prv with fdConfig := fd } = slot fd + s.prv.slots := by
    rw [zero_add, PciSysfsPriv.slots, PciSysfsPriv.slots, hfree, slot_none, zero_add]
    rfl
  rw [Balanced, hslots]
  exact h

/-- A descriptor that a register remembers is closed and forgotten. -/
theorem PciSys.Balanced.forget (h : s.Balanced others 0) {i : Nat} (hi : i < pciResMax)
    (hopen : (s.prv.pciRes i).fd ≠ -1) (stores : List Nat) :
    PciSys.Balanced others 0 { s with
      prv := s.prv.setRes i ({ · with fd := -1 })
      fds := s.fds.erase (s.prv.pciRes i).fd
      log := s.log ++ [.closed (s.prv.pciRes i).fd]
      stores := stores } := by
  obtain ⟨rest, hrest, hset⟩ := s.prv.slots_setRes hi
  rw [slot_some hopen, Multiset.singleton_add] at hrest
  rw [Balanced, zero_add] at h ⊢
  have hgive := h.give (e := .closed (s.prv.pciRes i).fd) rfl (by rw [hrest]; exact Multiset.mem_cons_self _ _)
  have hslots : (s.prv.setRes i ({ · with fd := -1 })).slots = s.prv.slots.erase (s.prv.pciRes i).fd := by
    rw [hset, slot_none, zero_add, hrest, Multiset.erase_cons_head]
  rw [← hslots] at hgive
  exact hgive

theorem PciSys.Balanced.forgetConfig (h : s.Balanced others 0) (hopen : s.prv.fdConfig ≠ -1) :
    PciSys.Balanced others 0 { s with
      prv := { s.prv with fdConfig := -1 }
      fds := s.fds.erase s.prv.fdConfig
      log := s.log ++ [.closed s.prv.fdConfig] } := by
  have hslots : s.prv.slots = s.prv.fdConfig ::ₘ s.prv.barSlots := by
    rw [PciSysfsPriv.slots, slot_some hopen, Multiset.singleton_add]
  rw [Balanced, zero_add] at h ⊢
  have hgive := h.give (e := .closed s.prv.fdConfig) rfl (by rw [hslots]; exact Multiset.mem_cons_self _ _)
  have hnew : PciSysfsPriv.slots { s.prv with fdConfig := -1 } = s.prv.slots.erase s.prv.fdConfig := by
    rw [hslots, Multiset.erase_cons_head, PciSysfsPriv.slots, slot_none, zero_add]
    rfl
  rw [← hnew] at hgive
  exact hgive

/-- Nothing was opened or closed, and the places remember what they did. -/
structure SameFds (s s' : PciSys κ) : Prop where
  log : s'.log = s.log
  fds : s'.fds = s.fds
  config : s'.prv.fdConfig = s.prv.fdConfig
  bars : ∀ i, (s'.prv.pciRes i).fd = (s.prv.pciRes i).fd

theorem SameFds.refl (s : PciSys κ) : SameFds s s := ⟨rfl, rfl, rfl, fun _ => rfl⟩

theorem SameFds.trans (a b c : PciSys κ) (h : SameFds a b) (h' : SameFds b c) : SameFds a c where
  log := h'.log.trans h.log
  fds := h'.fds.trans h.fds
  config := h'.config.trans h.config
  bars i := (h'.bars i).trans (h.bars i)

theorem wp_sameFds {α : Type} {m : Pci κ α} (hm : Exec.Keeps SameFds m) (s : PciSys κ) :
    Exec.wp m (fun _ => SameFds s) (fun _ => SameFds s) s := Exec.wp_state.mpr (hm s)

theorem PciSys.Balanced.same {s' : PciSys κ} (h : s.Balanced others 0) (hsame : SameFds s s') :
    s'.Balanced others 0 := by
  have hslots : s'.prv.slots = s.prv.slots := by
    simp only [PciSysfsPriv.slots, PciSysfsPriv.barSlots, hsame.config, hsame.bars]
  rw [Balanced, hsame.log, hsame.fds, hslots]
  exact h

theorem sameFds_setRes (i : Nat) {f : PciSysfsResource → PciSysfsResource} (hf : ∀ res, (f res).fd = res.fd) :
    Exec.Keeps SameFds (setRes i f : Pci κ Unit) := fun s =>
  ⟨rfl, rfl, rfl, fun j => s.prv.fd_setRes_of_fd (hf _) j⟩

theorem sameFds_sysCall {α : Type} (f : κ → α × κ) : Exec.Keeps SameFds (sysCall f) := fun _ =>
  ⟨rfl, rfl, rfl, fun _ => rfl⟩

theorem sameFds_sizeBar64 (fd : Int) (i : Nat) : Exec.Keeps SameFds (sizeBar64 os fd i) := by
  refine .bind SameFds.trans (sameFds_sysCall _) fun _ => ?_
  refine .bind SameFds.trans (sameFds_sysCall _) fun _ => ?_
  refine .bind SameFds.trans (sameFds_sysCall _) fun _ => ?_
  exact .bind SameFds.trans (sameFds_sysCall _) fun _ => .of_refl SameFds.refl fun _ => rfl

theorem sameFds_sizeBarLow (fd : Int) (i : Nat) : Exec.Keeps SameFds (sizeBarLow os fd i) := by
  refine .bind SameFds.trans (sameFds_sysCall _) fun _ => ?_
  refine .bind SameFds.trans (sameFds_sysCall _) fun _ => ?_
  refine .bind SameFds.trans (sameFds_sysCall _) fun _ => ?_
  refine .bind SameFds.trans (sameFds_sysCall _) fun _ => ?_
  apply Exec.Keeps.ite
  · exact .of_refl SameFds.refl fun _ => rfl
  · exact .of_refl SameFds.refl fun _ => rfl

theorem sameFds_decodeBar (fd : Int) (i : Nat) (barLow barSizeLow : UInt32) :
    Exec.Keeps SameFds (decodeBar os fd i barLow barSizeLow) := by
  refine .ite ?_ (.ite ?_ (.of_refl SameFds.refl fun _ => rfl))
  · exact .bind SameFds.trans (sameFds_setRes i fun _ => rfl) fun _ => .of_refl SameFds.refl fun _ => rfl
  · refine .bind SameFds.trans (sameFds_setRes i fun _ => rfl) fun _ => ?_
    exact .bind SameFds.trans (sameFds_setRes (i + 1) fun _ => rfl) fun _ => sameFds_sizeBar64 fd i

theorem sameFds_sizeBar (i : Nat) : Exec.Keeps SameFds (sizeBar os i) := by
  refine .bind SameFds.trans (.of_refl SameFds.refl fun _ => rfl) fun fd => ?_
  refine .bind SameFds.trans (sameFds_sizeBarLow fd i) fun low => ?_
  refine .bind SameFds.trans (sameFds_decodeBar fd i low.1 low.2) fun size => ?_
  exact sameFds_setRes i fun _ => rfl

/-- The sizing loop opens and closes nothing. -/
theorem sameFds_sizeBars (n : Nat) : ∀ i, Exec.Keeps SameFds (sizeBars os n i) := by
  induction n with
  | zero => exact fun i => .of_refl SameFds.refl fun _ => rfl
  | succ n ih =>
    intro i
    refine .ite ?_ (.of_refl SameFds.refl fun _ => rfl)
    refine .bind SameFds.trans (sameFds_sizeBar i) fun _ => ?_
    exact .bind SameFds.trans (.of_refl SameFds.refl fun _ => rfl) fun is64 => ih _

/-- A pass of the mapping loop remembers what it opens, also when it fails. -/
theorem wp_mapBar_balanced {i : Nat} (hi : i < pciResMax) (hs : s.Balanced others 0)
    (hfree : (s.prv.pciRes i).fd = -1) :
    Exec.wp (mapBar os i)
      (fun _ s' => s'.Balanced others 0 ∧ ∀ j, j ≠ i → (s'.prv.pciRes j).fd = (s.prv.pciRes j).fd)
      (fun _ s' => s'.Balanced others 0) s := by
  rw [mapBar, Exec.wp_bind, Exec.wp_gets, Exec.wp_ite]
  refine ⟨fun _ => ?_, fun _ => ⟨hs, fun _ _ => rfl⟩⟩
  rw [Exec.wp_bind, wp_openFd, Exec.wp_bind, wp_setRes]
  generalize s.prv.sysfsPath ++ ascii "/resource" ++ hexText 1 i = path
  have hopen := hs.open os path
  have hprv := s.afterOpen_prv (os.openFile path s.fds s.kern).1 (os.openFile path s.fds s.kern).2
  generalize s.afterOpen _ _ = t at hopen hprv ⊢
  -- the descriptor is stored before anything else can fail
  have hset := hopen.remember hi (by rw [hprv, hfree]) (t.stores ++ [i])
  refine (wp_sameFds ?_ _).mono (fun _ s' hsame => ⟨hset.same hsame, fun j hj => ?_⟩)
    fun _ s' hsame => hset.same hsame
  · apply Exec.Keeps.ite
    · exact .of_refl SameFds.refl fun _ => rfl
    · refine .bind SameFds.trans (fun _ => ⟨rfl, rfl, rfl, fun _ => rfl⟩) fun p => ?_
      cases p with
      | none =>
        exact .bind SameFds.trans (sameFds_setRes i fun _ => rfl) fun _ => .of_refl SameFds.refl fun _ => rfl
      | some p => exact sameFds_setRes i fun _ => rfl
  · rw [hsame.bars]
    dsimp only
    rw [PciSysfsPriv.fd_setRes, Function.update_of_ne hj, hprv]

/-- So does the whole loop, as long as the registers that it comes to have no descriptor. -/
theorem wp_mapBars_balanced (n : Nat) : ∀ (i : Nat) {s : PciSys κ}, i + n ≤ pciResMax →
    s.Balanced others 0 → (∀ j, i ≤ j → j < pciResMax → (s.prv.pciRes j).fd = -1) →
    Exec.wp (mapBars os n i) (fun _ s' => s'.Balanced others 0) (fun _ s' => s'.Balanced others 0) s := by
  induction n with
  | zero => exact fun _ _ _ hs _ => hs
  | succ n ih =>
    intro i s hi hs hfree
    rw [mapBars, Exec.wp_bind]
    apply (wp_mapBar_balanced (by omega) hs (hfree i (Nat.le_refl i) (by omega))).mono _ fun _ _ h => h
    rintro _ s' ⟨hs', hkept⟩
    apply ih (i + 1) (by omega) hs'
    intro j hj hjmax
    rw [hkept j (by omega), hfree j (by omega) hjmax]

/-- The configuration space is opened first. -/
theorem wp_openConfig_balanced (hs : s.Balanced others 0) (hconfig : s.prv.fdConfig = -1) :
    Exec.wp (openConfig os)
      (fun _ s' => s'.Balanced others 0 ∧ ∀ j, (s'.prv.pciRes j).fd = (s.prv.pciRes j).fd)
      (fun _ s' => s'.Balanced others 0) s := by
  rw [openConfig, Exec.wp_bind, Exec.wp_modify, Exec.wp_bind, Exec.wp_gets, Exec.wp_bind, wp_openFd,
    Exec.wp_bind, Exec.wp_modify]
  have hpath : PciSys.Balanced others 0 { s with prv := { s.prv with sysfsPath := s.prv.info.sysfsPath } } := hs
  have hopen := hpath.open os (s.prv.info.sysfsPath ++ ascii "/config")
  have hprv := PciSys.afterOpen_prv { s with prv := { s.prv with sysfsPath := s.prv.info.sysfsPath } }
    (os.openFile (s.prv.info.sysfsPath ++ ascii "/config") s.fds s.kern).1
    (os.openFile (s.prv.info.sysfsPath ++ ascii "/config") s.fds s.kern).2
  dsimp only at hopen hprv ⊢
  generalize PciSys.afterOpen _ _ _ = t at hopen hprv ⊢
  generalize (os.openFile (s.prv.info.sysfsPath ++ ascii "/config") s.fds s.kern).1 = fd at hopen ⊢
  have hset := hopen.rememberConfig (by rw [hprv]; exact hconfig)
  refine (wp_sameFds ?_ _).mono (fun _ s' hsame => ⟨hset.same hsame, fun j => ?_⟩)
    fun _ s' hsame => hset.same hsame
  · have hids : Exec.Keeps SameFds (do
        let vid ← sysCall (os.pread16 fd 0)
        let did ← sysCall (os.pread16 fd 2)
        if s.prv.info.vendor ≠ vid ∨ s.prv.info.device ≠ did then
          Exec.exit clInvalidDevice : Pci κ Unit) := by
      refine .bind SameFds.trans (sameFds_sysCall _) fun vid => ?_
      refine .bind SameFds.trans (sameFds_sysCall _) fun did => ?_
      apply Exec.Keeps.ite
      · exact .of_refl SameFds.refl fun _ => rfl
      · exact .of_refl SameFds.refl fun _ => rfl
    apply Exec.Keeps.ite
    · exact .bind SameFds.trans (.of_refl SameFds.refl fun _ => rfl) fun _ => hids
    · exact hids
  · rw [hsame.bars]
    dsimp only
    rw [hprv]

/-- Whether it succeeds or fails, what the probe has open is remembered. -/
theorem wp_pciSysfsConfig_balanced (hs : s.Balanced others 0) (hconfig : s.prv.fdConfig = -1)
    (hfree : ∀ j, j < pciResMax → (s.prv.pciRes j).fd = -1) :
    Exec.wp (pciSysfsConfig os) (fun _ s' => s'.Balanced others 0) (fun _ s' => s'.Balanced others 0) s := by
  rw [pciSysfsConfig, Exec.wp_bind]
  apply (wp_openConfig_balanced hs hconfig).mono _ fun _ _ h => h
  rintro _ s₁ ⟨hs₁, hbars⟩
  rw [Exec.wp_bind]
  apply (wp_sameFds (sameFds_sizeBars pciResMax 0) s₁).mono _ fun _ _ hsame => hs₁.same hsame
  intro _ s₂ hsame
  apply wp_mapBars_balanced pciResMax 0 (Nat.le_refl _) (hs₁.same hsame)
  intro j _ hj
  rw [hsame.bars, hbars, hfree j hj]

/-! ## Removing -/

/-- A pass of the loop leaves its register without a descriptor. -/
theorem wp_removeBar_balanced {i : Nat} (hi : i < pciResMax) (hs : s.Balanced others 0) :
    Exec.wp (removeBar i)
      (fun _ s' => s'.Balanced others 0 ∧ (s'.prv.pciRes i).fd = -1 ∧
        ∀ j, j ≠ i → (s'.prv.pciRes j).fd = (s.prv.pciRes j).fd)
      (fun _ _ => False) s := by
  -- what follows is the same whether there was a mapping to give up or not
  have hclose (t : PciSys κ) (ht : SameFds s t) :
      Exec.wp (if (s.prv.pciRes i).fd ≠ -1 then do
          close (s.prv.pciRes i).fd
          setRes i ({ · with fd := -1 })
        else pure ())
        (fun _ s' => s'.Balanced others 0 ∧ (s'.prv.pciRes i).fd = -1 ∧
          ∀ j, j ≠ i → (s'.prv.pciRes j).fd = (s.prv.pciRes j).fd)
        (fun _ _ => False) t := by
    rw [Exec.wp_ite]
    refine ⟨fun hopen => ?_, fun hclosed => ?_⟩
    · rw [Exec.wp_bind, wp_close, wp_setRes, ← ht.bars]
      rw [← ht.bars] at hopen
      refine ⟨(hs.same ht).forget hi hopen _, ?_, fun j hj => ?_⟩
      · dsimp only
        rw [PciSysfsPriv.fd_setRes, Function.update_self]
      · dsimp only
        rw [PciSysfsPriv.fd_setRes, Function.update_of_ne hj, ht.bars]
    · rw [Exec.wp_pure]
      exact ⟨hs.same ht, by rw [ht.bars]; exact not_not.mp hclosed, fun j _ => ht.bars j⟩
  rw [removeBar, Exec.wp_bind, Exec.wp_gets, Exec.wp_ite]
  refine ⟨fun _ => ?_, fun _ => hclose s (.refl s)⟩
  rw [Exec.wp_bind, wp_munmap, Exec.wp_bind, wp_setRes]
  exact hclose _ ⟨rfl, rfl, rfl, fun j => s.prv.fd_setRes_of_fd (f := ({ · with buf := 0 })) rfl j⟩

/-- The loop leaves no register with one. -/
theorem wp_removeBars_balanced (n : Nat) : ∀ (i : Nat) {s : PciSys κ}, i + n ≤ pciResMax → s.Balanced others 0 →
    Exec.wp (removeBars n i)
      (fun _ s' => s'.Balanced others 0 ∧ (∀ j, i ≤ j → j < i + n → (s'.prv.pciRes j).fd = -1) ∧
        ∀ j, j < i → (s'.prv.pciRes j).fd = (s.prv.pciRes j).fd)
      (fun _ _ => False) s := by
  induction n with
  | zero =>
    intro i s _ hs
    exact ⟨hs, fun j hj hji => absurd hji (by omega), fun _ _ => rfl⟩
  | succ n ih =>
    intro i s hi hs
    rw [removeBars, Exec.wp_bind]
    apply (wp_removeBar_balanced (by omega) hs).mono _ fun _ _ h => h
    rintro _ s₁ ⟨hs₁, hthis, hother⟩
    apply (ih (i + 1) (by omega) hs₁).mono _ fun _ _ h => h
    rintro _ s₂ ⟨hs₂, hclosed, hkept⟩
    refine ⟨hs₂, fun j hj hjn => ?_, fun j hj => ?_⟩
    · rcases Nat.eq_or_lt_of_le hj with rfl | hlt
      · rw [hkept i (Nat.lt_succ_self i), hthis]
      · exact hclosed j hlt (by omega)
    · rw [hkept j (Nat.lt_succ_of_lt hj), hother j (Nat.ne_of_lt hj)]

/-- The removal closes what is remembered, and nothing is left. -/
theorem wp_pciSysfsRemove_balanced (hs : s.Balanced others 0) :
    Exec.wp pciSysfsRemove (fun _ s' => s'.Balanced others 0 ∧ s'.prv.slots = 0) (fun _ _ => False) s := by
  rw [pciSysfsRemove, Exec.wp_bind]
  apply (wp_removeBars_balanced pciResMax 0 (Nat.le_refl _) hs).mono _ fun _ _ h => h
  rintro _ s₁ ⟨hs₁, hclosed, -⟩
  have hbars (i : Nat) (hi : i < pciResMax) : (s₁.prv.pciRes i).fd = -1 := hclosed i (Nat.zero_le i) (by omega)
  rw [Exec.wp_bind, Exec.wp_gets, Exec.wp_ite]
  refine ⟨fun hopen => ?_, fun hconfig => ?_⟩
  · rw [Exec.wp_bind, wp_close, Exec.wp_modify]
    exact ⟨hs₁.forgetConfig hopen, PciSysfsPriv.slots_of_all_closed _ rfl hbars⟩
  · exact ⟨hs₁, PciSysfsPriv.slots_of_all_closed _ (not_not.mp hconfig) hbars⟩

/-- A probe that fails has closed everything again, and one that succeeds remembers what is open. -/
theorem wp_pciSysfsProbe_balanced (hs : s.Balanced others 0) (hconfig : s.prv.fdConfig = -1)
    (hfree : ∀ j, j < pciResMax → (s.prv.pciRes j).fd = -1) :
    Exec.wp (pciSysfsProbe os) (fun _ s' => s'.Balanced others 0)
      (fun _ s' => s'.Balanced others 0 ∧ s'.prv.slots = 0) s := by
  rw [pciSysfsProbe, Exec.wp_bind, Exec.wp_attempt]
  apply (wp_pciSysfsConfig_balanced hs hconfig hfree).mono
  · exact fun _ _ h => h
  · intro r s' hs'
    dsimp only
    rw [Exec.wp_bind]
    exact (wp_pciSysfsRemove_balanced hs').mono (fun _ _ h => h) fun _ _ h => h.elim

end Probe

/-! ## The driver -/

section Driver

variable {κ : Type}

/-- What `dev_add` and `dev_remove` see of an operation. -/
def pciCode (m : Pci κ Unit) : Exec (PciSys κ) Hang ClInt := fun s =>
  match m s with
  | (.ok _, s) => (.ok clSuccess, s)
  | (.error r, s) => (.ok r, s)

theorem wp_pciCode (m : Pci κ Unit) {P : PciSys κ → Prop} {E : Hang → PciSys κ → Prop} {s : PciSys κ} :
    Exec.wp (pciCode m) (fun _ => P) E s ↔ Exec.wp m (fun _ => P) (fun _ => P) s := by
  unfold Exec.wp pciCode
  rcases m s with ⟨_ | _, _⟩ <;> rfl

/-- `pci_sysfs_probe` and `pci_sysfs_remove`, as the two functions of a driver whose lives are counted. -/
def pciDriver (os : PciKernel κ) : DevDriver (PciSys κ) PciSysfsPriv where
  probe := pciCode (pciSysfsProbe os)
  remove := pciCode pciSysfsRemove
  priv := PciSys.prv
  fds := PciSys.fds
  log := PciSys.log

/-- What `pci_sysfs_alloc_dev` leaves, and the process around it. -/
structure PciSys.Fresh (s : PciSys κ) : Prop where
  prv : ∃ mapTable info behind, s.prv = .allocated mapTable info behind
  log : s.log = []
  fds : s.fds.Nodup

/-- **PCI.** The driver closes what it opened and nothing else, whatever the system calls do. -/
theorem pciSysfs_orderly (os : PciKernel κ) {s : PciSys κ} (hs : s.Fresh) : OrderlyDriver (pciDriver os) s := by
  obtain ⟨mapTable, info, behind, hprv⟩ := hs.prv
  -- a new device remembers no descriptor
  have hconfig : s.prv.fdConfig = -1 := by
    rw [hprv]
    rfl
  have hbars (j : Nat) (hj : j < pciResMax) : (s.prv.pciRes j).fd = -1 := by
    rw [hprv, PciSysfsPriv.allocated]
    exact congrArg PciSysfsResource.fd (if_pos hj)
  have hstart : s.Balanced (fun _ => False) 0 := by
    rw [PciSys.Balanced, s.prv.slots_of_all_closed hconfig hbars, hs.log]
    exact accounted_nil hs.fds
  refine orderlyDriver_of_accounted PciSysfsPriv.slots ?_ fun others s₂ hs₂ => ?_
  · apply (wp_pciCode _).mpr
    apply (wp_pciSysfsProbe_balanced hstart hconfig hbars).mono
    · intro _ s₁ hs₁
      rw [PciSys.Balanced, zero_add] at hs₁
      exact hs₁
    · rintro _ s₁ ⟨hs₁, -⟩
      rw [PciSys.Balanced, zero_add] at hs₁
      exact hs₁
  · apply (wp_pciCode _).mpr
    have hs₂' : s₂.Balanced others 0 := by
      rw [PciSys.Balanced, zero_add]
      exact hs₂
    apply (wp_pciSysfsRemove_balanced hs₂').mono _ fun _ _ h => h.elim
    rintro _ s₃ ⟨hs₃, hslots⟩
    rw [PciSys.Balanced, hslots, zero_add] at hs₃
    exact hs₃

end Driver

end BaremetalCrt
