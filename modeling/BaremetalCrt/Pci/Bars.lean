/-
# BaremetalCrt.Pci.Bars — the base address registers of a device.

Registers that are memory windows of four or eight bytes, in any mix, are recorded with their exact sizes
and left as they were (`sizing_layout`).  The type bits of an I/O register are bits of its address, so
that it may pass for the lower half of a wide one, and in the last slot a wide one has no upper half.

`Layout` says which windows there are and that the registers are made for them; it is what the specification
of the bus asks of a device. Whatever mix of widths it has, the loop of the driver records each window by
its raw value, its exact size and its width, and the slots without a register and the upper halves of wide
ones as not valid; and the registers hold what they held before.
-/
import BaremetalCrt.Pci.Sizing
import Mathlib.Tactic.IntervalCases

namespace BaremetalCrt

open Lib

/-! ## Up to the mapping -/

section Found

variable {κ : Type} (os : PciKernel κ)

/-- `pci_sysfs_config` up to the mapping loop: the file is opened, and the registers are sized. -/
def sizing : Pci κ Unit := do
  openConfig os
  sizeBars os pciResMax 0

variable {os}

/-- The configuration space of the device is opened, and has the ids that the device was found by. -/
structure ConfigFound (os : PciKernel κ) (fd : Int) (regs : κ → Nat → Reg 32) (s : PciSys κ) : Prop where
  space : ConfigSpace os fd regs
  opened : (os.openFile (s.prv.info.sysfsPath ++ ascii "/config") s.fds s.kern).1 = fd
  ok : fd ≠ -1
  vendor : s.prv.info.vendor = .ofBitVec ((regs s.kern 0).value.extractLsb' 0 16)
  device : s.prv.info.device = .ofBitVec ((regs s.kern 0).value.extractLsb' 16 16)

variable {fd : Int} {regs : κ → Nat → Reg 32} {s : PciSys κ}

theorem openConfig_found (h : ConfigFound os fd regs s) : ∃ s₁, openConfig os s = (.ok (), s₁) ∧
    regs s₁.kern = regs s.kern ∧ s₁.prv.fdConfig = fd ∧ s₁.prv.pciRes = s.prv.pciRes ∧
      s₁.stores = s.stores := by
  obtain ⟨path, hpath⟩ : ∃ path, s.prv.info.sysfsPath ++ ascii "/config" = path := ⟨_, rfl⟩
  have hopened := h.opened
  have hkeep := h.space.openFile path s.fds s.kern
  rw [hpath] at hopened
  generalize hk : (os.openFile path s.fds s.kern).2 = k at hkeep
  -- both ids are in the first register
  obtain ⟨hvid, hkeep₁⟩ := h.space.pread16 k 0 0 (by decide) (by decide)
  generalize hk₁ : (os.pread16 fd (4 * 0 + 2 * 0) k).2 = k₁ at hkeep₁
  obtain ⟨hdid, hkeep₂⟩ := h.space.pread16 k₁ 0 1 (by decide) (by decide)
  generalize hk₂ : (os.pread16 fd (4 * 0 + 2 * 1) k₁).2 = k₂ at hkeep₂
  rw [hkeep, ← h.vendor] at hvid
  rw [hkeep₁, hkeep, ← h.device] at hdid
  have hids : ¬(s.prv.info.vendor ≠ s.prv.info.vendor ∨ s.prv.info.device ≠ s.prv.info.device) := by simp
  refine ⟨{ s with
    kern := k₂
    prv := { s.prv with sysfsPath := s.prv.info.sysfsPath, fdConfig := fd }
    fds := fd :: s.fds
    log := s.log ++ [.opened fd] }, ?_, hkeep₂.trans (hkeep₁.trans hkeep), rfl, rfl, rfl⟩
  simp only [openConfig, openFd, sysCall, Exec.bind_apply, Exec.modify_apply, Exec.gets_apply, hpath, hopened,
    hk, if_neg h.ok]
  rw [show os.pread16 fd 0 k = (s.prv.info.vendor, k₁) from Prod.ext hvid hk₁,
    show os.pread16 fd 2 k₁ = (s.prv.info.device, k₂) from Prod.ext hdid hk₂, if_neg hids]
  rfl

theorem sizing_run (h : ConfigFound os fd regs s) : ∃ s₁,
    Decoded regs (fun i => regs s.kern (4 + i)) 0 s₁ (sizing os s) ∧ regs s₁.kern = regs s.kern ∧
      s₁.prv.pciRes = s.prv.pciRes ∧ s₁.stores = s.stores := by
  obtain ⟨s₁, hopen, hregs, hfd, hres, hstores⟩ := openConfig_found h
  refine ⟨s₁, ?_, hregs, hres, hstores⟩
  rw [sizing, Exec.bind_ok hopen]
  exact sizeBars_run h.space pciResMax 0 s₁ (Nat.le_refl _) rfl hfd fun j => by rw [hregs]

end Found

/-! ## Memory windows -/

/-- A slot without a register, a window of `2 ^ k` bytes in one slot or, at the lower half, in two, or the
upper half of one. -/
inductive SlotKind where
  | absent
  | mem32 (k : Nat)
  | mem64 (k : Nat)
  | upper

/-- The registers are laid out as `slots` says: the two halves of a wide one stand side by side, and all are
inside. -/
structure Layout (bars : Nat → Reg 32) (slots : Nat → SlotKind) : Prop where
  first : slots 0 ≠ .upper
  last : ∀ k, slots 5 ≠ .mem64 k
  upper : ∀ i, i + 1 < pciResMax → (slots (i + 1) = .upper ↔ ∃ k, slots i = .mem64 k)
  absent : ∀ i, i < pciResMax → slots i = .absent → bars i = ⟨0, 0⟩
  mem32 : ∀ i k, i < pciResMax → slots i = .mem32 k → 4 ≤ k ∧ k < 32 ∧ (bars i).Decodes 4 k ∧
    ((bars i).value &&& 7 = 0 ∨ (bars i).value &&& 7 = 2)
  mem64 : ∀ i k, i < pciResMax → slots i = .mem64 k → 4 ≤ k ∧ k < 64 ∧
    ((bars (i + 1)).append (bars i)).Decodes 4 k ∧ (bars i).value &&& 7 = 4

/-- How a slot should be recorded: the raw value, the exact size and the width, or nothing. -/
def SlotKind.record (bars : Nat → Reg 32) (i : Nat) : SlotKind → BarRecord
  | .mem32 k => ⟨(UInt32.ofBitVec (bars i).value).toUInt64, UInt64.ofNat (2 ^ k), false, true⟩
  | .mem64 k => ⟨.ofBitVec ((bars (i + 1)).append (bars i)).value, UInt64.ofNat (2 ^ k), true, true⟩
  | _ => .absent

/-- The type is in the bits above the lowest of the flags. -/
theorem regType_eq (r : Reg 32) : regType r = .ofBitVec ((r.value &&& 7) >>> 1) := by
  have hbits : (r.value >>> 1) &&& 3 = (r.value &&& 7) >>> 1 := by
    rw [BitVec.ushiftRight_and_distrib]
    rfl
  rw [regType, barType, ← hbits]
  rfl

section Layouts

variable {bars : Nat → Reg 32} {slots : Nat → SlotKind} (h : Layout bars slots)
include h

theorem Layout.regType_iff {i : Nat} (hi : i < pciResMax) (hslot : slots i ≠ .upper) :
    regType (bars i) ≠ 3 ∧ (regType (bars i) = 2 ↔ ∃ k, slots i = .mem64 k) := by
  cases hkind : slots i with
  | absent =>
    rw [h.absent i hi hkind]
    exact ⟨by decide, iff_of_false (by decide) (by simp)⟩
  | mem32 k =>
    obtain ⟨-, -, -, hflags⟩ := h.mem32 i k hi hkind
    rw [regType_eq]
    rcases hflags with hflags | hflags <;> rw [hflags]
    · exact ⟨by decide, iff_of_false (by decide) (by simp)⟩
    · exact ⟨by decide, iff_of_false (by decide) (by simp)⟩
  | mem64 k =>
    obtain ⟨-, -, -, hflags⟩ := h.mem64 i k hi hkind
    rw [regType_eq, hflags]
    exact ⟨by decide, iff_of_true (by decide) ⟨k, rfl⟩⟩
  | upper => exact absurd hkind hslot

/-- The loop comes to every slot but the upper halves. -/
theorem Layout.starts_iff {i : Nat} (hi : i < pciResMax) : Starts bars i = true ↔ slots i ≠ .upper := by
  induction i with
  | zero => exact iff_of_true rfl h.first
  | succ i ih =>
    have hprev : i < pciResMax := Nat.lt_of_succ_lt hi
    rw [Ne, not_congr (h.upper i hi)]
    by_cases hslot : slots i = .upper
    · have hno : Starts bars i = false := Bool.eq_false_iff.mpr fun hs => (ih hprev).mp hs hslot
      rw [Starts, hno, hslot]
      simp
    · have hwide := (h.regType_iff hprev hslot).2
      rw [Starts, (ih hprev).mpr hslot, ← hwide]
      simp

/-- Every slot is recorded as it should be. -/
theorem Layout.slotRecord_eq {i : Nat} (hi : i < pciResMax) :
    slotRecord bars i = (slots i).record bars i := by
  have hnonzero {n : UInt64} {k : Nat} (hn : n.toNat = 2 ^ k) : n ≠ 0 := by
    rintro rfl
    exact absurd hn.symm (Nat.ne_of_gt (Nat.two_pow_pos k))
  have hsize {n : UInt64} {k : Nat} (hn : n.toNat = 2 ^ k) : n = UInt64.ofNat (2 ^ k) := by
    rw [← hn, UInt64.ofNat_toNat]
  have hlow (hslot : slots i ≠ .upper) (hnot : ∀ k, slots i ≠ .mem64 k) :
      slotRecord bars i = lowRecord (bars i) := by
    have htype : regType (bars i) ≠ 2 := fun htype =>
      ((h.regType_iff hi hslot).2.mp htype).elim fun k hk => hnot k hk
    rw [slotRecord, if_pos ((h.starts_iff hi).mpr hslot), if_neg htype]
  cases hkind : slots i with
  | absent =>
    rw [hlow (by simp [hkind]) (by simp [hkind]), h.absent i hi hkind]
    exact (by decide : lowRecord ⟨0, 0⟩ = .absent)
  | mem32 k =>
    obtain ⟨hk4, hk32, hdecodes, -⟩ := h.mem32 i k hi hkind
    have hshown : (UInt32.ofBitVec ((bars i).shown 4)).toUInt64.toNat = 2 ^ k := by
      rw [UInt32.toNat_toUInt64]
      exact hdecodes.shown_toNat hk4 hk32
    rw [hlow (by simp [hkind]) (by simp [hkind]), lowRecord, SlotKind.record]
    simp only [ne_eq]
    rw [decide_eq_true (hnonzero hshown), hsize hshown]
  | mem64 k =>
    obtain ⟨hk4, hk64, hdecodes, -⟩ := h.mem64 i k hi hkind
    have hslot : slots i ≠ .upper := by simp [hkind]
    have hshown : (UInt64.ofBitVec (((bars (i + 1)).append (bars i)).shown 4)).toNat = 2 ^ k :=
      hdecodes.shown_toNat hk4 hk64
    rw [slotRecord, if_pos ((h.starts_iff hi).mpr hslot),
      if_pos ((h.regType_iff hi hslot).2.mpr ⟨k, hkind⟩), wideRecord, SlotKind.record]
    simp only [ne_eq]
    rw [decide_eq_true (hnonzero hshown), hsize hshown]
  | upper =>
    have hno : Starts bars i = false := Bool.eq_false_iff.mpr fun hs => (h.starts_iff hi).mp hs hkind
    rw [slotRecord, hno]
    rfl

end Layouts

/-- **Sizing memory windows.** Every window is recorded with its raw value, its exact size and its width,
the slots without a register and the upper halves are not valid, and all registers hold what they held. -/
theorem sizing_layout {κ : Type} (os : PciKernel κ) (fd : Int) (regs : κ → Nat → Reg 32) (s : PciSys κ)
    (hfound : ConfigFound os fd regs s) (slots : Nat → SlotKind)
    (hlayout : Layout (fun i => regs s.kern (4 + i)) slots) :
    (sizing os s).1 = .ok () ∧
      (∀ i, i < pciResMax → ((sizing os s).2.prv.pciRes i).record =
        (slots i).record (fun i => regs s.kern (4 + i)) i) ∧
      ∀ i, i < pciResMax → regs (sizing os s).2.kern (4 + i) = regs s.kern (4 + i) := by
  obtain ⟨s₁, hrun, hregs, -, -⟩ := sizing_run hfound
  have hclear (m : Nat) (hm : m < pciResMax) : Clear (fun i => regs s.kern (4 + i)) 0 m := by
    intro x _ hx hstart
    have hlt : x < pciResMax := Nat.lt_of_le_of_lt hx hm
    exact (hlayout.regType_iff hlt ((hlayout.starts_iff hlt).mp hstart)).1
  refine ⟨hrun.ok (hclear 5 (by decide)), fun i hi => ?_, fun i _ => ?_⟩
  · rw [hrun.done i hi (Nat.zero_le i) (hclear i hi)]
    exact hlayout.slotRecord_eq hi
  · rw [hrun.regs, hregs]

/-! ### A configuration space by itself -/

/-- A descriptor above all that are open, and above the three that every process has. -/
def freshFd (fds : List Int) : Int := fds.foldr (fun fd n => max (fd + 1) n) 3

theorem freshFd_spec (fds : List Int) : 0 ≤ freshFd fds ∧ freshFd fds ∉ fds := by
  have hbound : 3 ≤ freshFd fds ∧ ∀ fd ∈ fds, fd < freshFd fds := by
    unfold freshFd
    induction fds with
    | nil => exact ⟨Int.le_refl 3, by simp⟩
    | cons fd fds ih =>
      rw [List.foldr_cons]
      refine ⟨Int.le_trans ih.1 (Int.le_max_right ..), fun x hx => ?_⟩
      rcases List.mem_cons.mp hx with rfl | hx
      · exact Int.lt_of_lt_of_le (Int.lt_succ x) (Int.le_max_left ..)
      · exact Int.lt_of_lt_of_le (ih.2 x hx) (Int.le_max_right ..)
  exact ⟨Int.le_trans (by decide) hbound.1, fun h => Int.lt_irrefl _ (hbound.2 _ h)⟩

/-- A system where everything succeeds, and whose state is the configuration space. -/
def spaceKernel : PciKernel (Nat → Reg 32) where
  openFile _ fds regs := (freshFd fds, regs)
  fresh _ fds _ := Or.inr (freshFd_spec fds)
  pread16 _ off regs := (.ofBitVec ((regs (off / 4)).value.extractLsb' (16 * (off % 4 / 2)) 16), regs)
  pread32 _ off regs := (.ofBitVec (regs (off / 4)).value, regs)
  pread64 _ off regs := (.ofBitVec ((regs (off / 4 + 1)).append (regs (off / 4))).value, regs)
  pwrite32 _ v off regs := (4, Function.update regs (off / 4) ((regs (off / 4)).write v.toBitVec))
  pwrite64 _ v off regs := (8, Function.update
    (Function.update regs (off / 4) ((regs (off / 4)).write (v.toBitVec.extractLsb' 0 32))) (off / 4 + 1)
    ((regs (off / 4 + 1)).write (v.toBitVec.extractLsb' 32 32)))
  mmap _ _ regs := (some 0x10000, regs)

theorem configSpace_spaceKernel (fd : Int) : ConfigSpace spaceKernel fd id where
  pread16 regs j h _ hh := by
    have hdiv : (4 * j + 2 * h) / 4 = j := by omega
    have hmod : (4 * j + 2 * h) % 4 / 2 = h := by omega
    simp only [spaceKernel, hdiv, hmod, id, and_self]
  pread32 regs j _ := by simp [spaceKernel]
  pread64 regs j _ := by simp [spaceKernel]
  pwrite32 regs v j _ := by simp [spaceKernel]
  pwrite64 regs hi lo j _ := by
    have hhi : (hi ++ lo).extractLsb' 32 32 = hi := BitVec.extractLsb'_append_eq_left
    have hlo : (hi ++ lo).extractLsb' 0 32 = lo := BitVec.extractLsb'_append_eq_right
    simp [spaceKernel, hhi, hlo]
  openFile _ _ _ := rfl
  mmap _ _ _ := rfl

/-- The device `1af4:1050` with these registers behind its ids, before it is probed. -/
def spaceSys (bars : Nat → Reg 32) : PciSys (Nat → Reg 32) where
  kern j := if j = 0 then ⟨0, 0x10501af4⟩ else bars (j - 4)
  prv := .allocated ⟨[⟨-1, -1, 0xffffffff, -1⟩], by decide⟩ ⟨0, 1, 0, 0x1af4, 0x1050⟩
    fun _ => ⟨0, 0, false, false, -1, 0⟩
  fds := [0, 1, 2]
  log := []
  maps := []
  stores := []

theorem found_spaceSys (bars : Nat → Reg 32) : ConfigFound spaceKernel 3 id (spaceSys bars) where
  space := configSpace_spaceKernel 3
  opened := by rfl
  ok := by decide
  vendor := by
    show (0x1af4 : UInt16) = .ofBitVec (BitVec.extractLsb' 0 16 0x10501af4#32)
    decide
  device := by
    show (0x1050 : UInt16) = .ofBitVec (BitVec.extractLsb' 16 16 0x10501af4#32)
    decide

/-- Eight gigabytes in two slots, four kilobytes, an empty slot, and sixty-four kilobytes in two slots. -/
def mixedBars : Nat → Reg 32
  | 0 => ⟨0, 0xc⟩
  | 1 => ⟨0xfffffffe, 0x10⟩
  | 2 => ⟨0xfffff000, 0xfe000000⟩
  | 4 => ⟨0xffff0000, 0x40000004⟩
  | 5 => ⟨0xffffffff, 0x8⟩
  | _ => ⟨0, 0⟩

/-- A register of 64 bits, one of 32, one that is not there, and another of 64 bits. -/
def mixedSlots : Nat → SlotKind
  | 0 => .mem64 33
  | 2 => .mem32 12
  | 3 => .absent
  | 4 => .mem64 16
  | _ => .upper

theorem layout_mixedBars : Layout mixedBars mixedSlots where
  first := by simp [mixedSlots]
  last := by simp [mixedSlots]
  upper i hi := by
    have hlt : i < 5 := Nat.lt_of_succ_lt_succ hi
    interval_cases i <;> simp [mixedSlots]
  absent i hi := by
    unfold pciResMax at hi
    interval_cases i <;> simp [mixedSlots, mixedBars]
  mem32 i k hi := by
    unfold pciResMax at hi
    interval_cases i <;> simp only [mixedSlots, reduceCtorEq, false_implies, SlotKind.mem32.injEq]
    rintro rfl
    exact ⟨by decide, by decide, ⟨by decide, by decide⟩, by decide⟩
  mem64 i k hi := by
    unfold pciResMax at hi
    interval_cases i <;> simp only [mixedSlots, reduceCtorEq, false_implies, SlotKind.mem64.injEq]
    · rintro rfl
      exact ⟨by decide, by decide, ⟨by decide, by decide⟩, by decide⟩
    · rintro rfl
      exact ⟨by decide, by decide, ⟨by decide, by decide⟩, by decide⟩

/-- They are all recorded. -/
theorem mixed_recorded : (sizing spaceKernel (spaceSys mixedBars)).1 = .ok () ∧
    (∀ i, i < pciResMax → ((sizing spaceKernel (spaceSys mixedBars)).2.prv.pciRes i).record =
      (mixedSlots i).record (fun i => (spaceSys mixedBars).kern (4 + i)) i) ∧
    ∀ i, i < pciResMax → (sizing spaceKernel (spaceSys mixedBars)).2.kern (4 + i) =
      (spaceSys mixedBars).kern (4 + i) := by
  have hbars : (fun i => id (spaceSys mixedBars).kern (4 + i)) = mixedBars := by
    funext i
    simp [spaceSys]
  refine sizing_layout spaceKernel 3 id (spaceSys mixedBars) (found_spaceSys mixedBars) mixedSlots ?_
  rw [hbars]
  exact layout_mixedBars

end BaremetalCrt
