/-
# BaremetalCrt.Pci.Mapping — accesses and the memory that is mapped.

What a probe maps is what it finds in the registers, and which addresses are translated is what the map
table says.  Nobody compares the two, so that the accesses stay in the mapped memory exactly when every
window of the table that is ever taken fits a register (`pciSysfs_inside_iff`).

The two sides are `PciSysfsResource.mapping`, the memory of the process that a register is mapped to, and
`PciSysfsPriv.Fits`, which says of a window that it lies in its register. A window that a window in front of
it hides is never taken and need not fit. With the table of the test driver the condition is on the size of
one register.
-/
import BaremetalCrt.Pci.Copy
import BaremetalCrt.Pci.Windows
import BaremetalCrt.Pci.Bars

namespace BaremetalCrt

open Lib

/-! ## What a probe maps -/

section Probe

variable {κ : Type} {os : PciKernel κ}

/-- The register is valid, and the memory that is recorded for it is mapped. -/
def PciSys.Mapped (s : PciSys κ) (i : Nat) : Prop :=
  (s.prv.pciRes i).valid = true → ((s.prv.pciRes i).buf, (s.prv.pciRes i).barSize) ∈ s.maps

/-- What is mapped stays mapped, and so do the registers but this one. -/
structure MapsBar (i : Nat) (s t : PciSys κ) : Prop where
  this : t.Mapped i
  other : ∀ j, j ≠ i → t.prv.pciRes j = s.prv.pciRes j
  maps : s.maps ⊆ t.maps

/-- A pass that succeeds maps its register. -/
theorem mapBar_maps (os : PciKernel κ) (i : Nat) (s : PciSys κ) :
    Exec.wp (mapBar os i) (fun _ => MapsBar i s) (fun _ _ => True) s := by
  rw [mapBar, Exec.wp_bind, Exec.wp_gets, Exec.wp_ite]
  constructor
  · intro hvalid
    rw [Exec.wp_bind, wp_openFd, Exec.wp_bind, wp_setRes, Exec.wp_ite]
    refine ⟨fun _ => trivial, fun _ => ?_⟩
    rw [Exec.wp_bind, wp_mmap]
    dsimp only
    rw [PciSys.afterOpen_prv, PciSys.afterOpen_maps]
    cases (os.mmap _ _ _).1 with
    | none => trivial
    | some p =>
      rw [wp_setRes]
      dsimp only [Option.map_some, Option.toList_some]
      refine ⟨fun _ => ?_, fun j hj => ?_, fun x hx => ?_⟩
      · -- the size that was mapped is the one that is recorded
        simp [PciSysfsPriv.setRes]
      · simp [PciSysfsPriv.setRes, hj]
      · exact List.mem_cons_of_mem _ hx
  · intro hvalid
    exact ⟨fun h => absurd h hvalid, fun _ _ => rfl, List.Subset.refl _⟩

/-- So does the whole loop, for the registers that it comes to. -/
theorem mapBars_maps (os : PciKernel κ) (n : Nat) : ∀ (i : Nat) (s : PciSys κ),
    Exec.wp (mapBars os n i) (fun _ t => (∀ j, i ≤ j → j < i + n → t.Mapped j) ∧
      (∀ j, j < i → t.prv.pciRes j = s.prv.pciRes j) ∧ s.maps ⊆ t.maps) (fun _ _ => True) s := by
  induction n with
  | zero =>
    intro i s
    exact ⟨fun j hj hji => absurd hj (by omega), fun _ _ => rfl, List.Subset.refl _⟩
  | succ n ih =>
    intro i s
    rw [mapBars, Exec.wp_bind]
    apply (mapBar_maps os i s).mono _ fun _ _ h => h
    intro _ t hbar
    apply (ih (i + 1) t).mono _ fun _ _ h => h
    rintro _ u ⟨hmapped, hkept, hmaps⟩
    refine ⟨fun j hj hjn => ?_, fun j hj => ?_, List.Subset.trans hbar.maps hmaps⟩
    · rcases Nat.eq_or_lt_of_le hj with rfl | hlt
      · intro hvalid
        rw [hkept i (Nat.lt_succ_self i)] at hvalid ⊢
        exact hmaps (hbar.this hvalid)
      · exact hmapped j hlt (by omega)
    · rw [hkept j (Nat.lt_succ_of_lt hj), hbar.other j (Nat.ne_of_lt hj)]

theorem pciSysfsProbe_ok {s t : PciSys κ} (h : pciSysfsProbe os s = (.ok (), t)) :
    pciSysfsConfig os s = (.ok (), t) := by
  rw [pciSysfsProbe, Exec.bind_apply] at h
  dsimp only [Exec.attempt] at h
  rcases hrun : pciSysfsConfig os s with ⟨r | _, t'⟩ <;> rw [hrun] at h
  · -- the error is returned again, behind the cleanup
    obtain ⟨_, _, _, hexit⟩ := Exec.bind_eq_ok.mp h
    cases hexit
  · exact h

/-- Behind a probe that succeeded every valid register is mapped. -/
theorem mapped_of_probe {s t : PciSys κ} (h : pciSysfsProbe os s = (.ok (), t)) {i : Nat}
    (hi : i < pciResMax) : t.Mapped i := by
  have hwp : Exec.wp (pciSysfsConfig os) (fun _ t => ∀ i, i < pciResMax → t.Mapped i) (fun _ _ => True) s := by
    rw [pciSysfsConfig, Exec.wp_bind]
    refine Exec.wp_of_forall (fun _ s₁ => ?_) fun _ _ => trivial
    rw [Exec.wp_bind]
    refine Exec.wp_of_forall (fun _ s₂ => ?_) fun _ _ => trivial
    apply (mapBars_maps os pciResMax 0 s₂).mono _ fun _ _ h => h
    rintro _ u ⟨hmapped, -, -⟩ i hi
    exact hmapped i (Nat.zero_le i) (by omega)
  exact hwp.ok (pciSysfsProbe_ok h) i hi

end Probe

/-! ## Accesses -/

section Accesses

variable {κ : Type} (s : PciSys κ)

/-- The memory of the process that is mapped for a register. -/
def PciSysfsResource.mapping (res : PciSysfsResource) : Set Nat := span res.buf res.barSize.toNat

/-- The entry names a register that is there, valid and mapped, and the range lies in it. -/
structure PciSys.Inside (addr : PciSysfsAddr) : Prop where
  bar : addr.bar.toNat < pciResMax
  valid : (s.prv.pciRes addr.bar.toNat).valid = true
  mapped : ((s.prv.pciRes addr.bar.toNat).buf, (s.prv.pciRes addr.bar.toNat).barSize) ∈ s.maps
  fits : addr.offset.toNat + addr.size.toNat ≤ (s.prv.pciRes addr.bar.toNat).barSize.toNat

/-- What is accessed of the device is in the mapping, for every read and write that does not go past the
top of the address space and that succeeds. -/
structure PciSys.AccessesInside : Prop where
  read : ∀ paddr buf len b, paddr.toNat + len.toNat < 2 ^ 64 →
    (pciSysfsReadMem (some s.prv) paddr buf len b).1 = clSuccess →
      ∃ addr, (pciSysfsGetAddr s.prv paddr len true).2 = some addr ∧ s.Inside addr ∧
        ∃ new, (pciSysfsReadMem (some s.prv) paddr buf len b).2.accesses = b.accesses ++ new ∧
          ∀ a w, .load a w ∈ new → span a w ⊆ (s.prv.pciRes addr.bar.toNat).mapping
  write : ∀ paddr buf len b, paddr.toNat + len.toNat < 2 ^ 64 →
    (pciSysfsWriteMem (some s.prv) paddr buf len b).1 = clSuccess →
      ∃ addr, (pciSysfsGetAddr s.prv paddr len true).2 = some addr ∧ s.Inside addr ∧
        ∃ new, (pciSysfsWriteMem (some s.prv) paddr buf len b).2.accesses = b.accesses ++ new ∧
          ∀ a w, .store a w ∈ new → span a w ⊆ (s.prv.pciRes addr.bar.toNat).mapping

/-- A window that does not go past the top of the address space. -/
def PciSysfsMemmap.Sound (m : PciSysfsMemmap) : Prop := m.top < 2 ^ 64

/-- The window of the table lies in a register that is there, and inside of it. -/
structure PciSysfsPriv.Fits (prv : PciSysfsPriv) (m : PciSysfsMemmap) : Prop where
  bar : m.bar.toNat < pciResMax
  valid : (prv.pciRes m.bar.toNat).valid = true
  fits : m.barOff.toNat + m.size.toNat ≤ (prv.pciRes m.bar.toNat).barSize.toNat

/-- So does every window that is not behind one that has all of it. -/
def PciSysfsPriv.TableFits (prv : PciSysfsPriv) : Prop :=
  ∀ front m back, prv.mapTable.windows = front ++ m :: back → m.Sound →
    (∀ e ∈ front, e.Sound → ¬e.Contains m.paddr m.size) → prv.Fits m

variable {s} {paddr len : UInt64} {m : PciSysfsMemmap}

/-- Below the top of the address space, a window takes what it contains, if it does not go past the top. -/
theorem PciSysfsMemmap.takes_iff_sound (hend : paddr.toNat + len.toNat < 2 ^ 64) :
    m.Takes paddr len ↔ m.Sound ∧ m.Contains paddr len := by
  have hsize := m.size.toNat_lt
  have hpaddr := m.paddr.toNat_lt
  rw [takes_iff_mod, Contains, Sound, top]
  omega

theorem PciSysfsPriv.translate_offset {prv : PciSysfsPriv} (hfit : prv.Fits m) (h : m.Contains paddr len) :
    (prv.translate paddr len m).offset.toNat = m.barOff.toNat + (paddr.toNat - m.paddr.toNat) := by
  have hsize := (prv.pciRes m.bar.toNat).barSize.toNat_lt
  have hfits := hfit.fits
  have hpaddr := m.paddr.toNat_lt
  simp only [PciSysfsMemmap.Contains, PciSysfsMemmap.top] at h
  simp only [translate, UInt64.toNat_sub, UInt64.toNat_add]
  omega

/-- A window that lies in a register puts what it contains there. -/
theorem PciSys.inside_of_fits (hfit : s.prv.Fits m) (hmapped : s.Mapped m.bar.toNat)
    (h : m.Contains paddr len) : s.Inside (s.prv.translate paddr len m) ∧
      span (s.prv.translate paddr len m).ptr len.toNat ⊆ (s.prv.pciRes m.bar.toNat).mapping := by
  have hoffset := PciSysfsPriv.translate_offset hfit h
  have hfits := hfit.fits
  simp only [PciSysfsMemmap.Contains, PciSysfsMemmap.top] at h
  have hroom : (s.prv.translate paddr len m).offset.toNat + len.toNat ≤
      (s.prv.pciRes m.bar.toNat).barSize.toNat := by omega
  refine ⟨⟨hfit.bar, hfit.valid, hmapped hfit.valid, hroom⟩, fun a ha => ?_⟩
  have hptr : (s.prv.translate paddr len m).ptr =
      (s.prv.pciRes m.bar.toNat).buf + (s.prv.translate paddr len m).offset.toNat := rfl
  rw [hptr, mem_span] at ha
  rw [PciSysfsResource.mapping, mem_span]
  omega

/-- What a success of an access says. -/
theorem takes_of_success (h : (pciSysfsGetAddr s.prv paddr len true).1 = clSuccess) :
    ∃ m, findMap paddr len s.prv.mapTable.entries = some m := by
  rw [pciSysfsGetAddr] at h
  cases hfind : findMap paddr len s.prv.mapTable.entries with
  | none =>
    rw [hfind] at h
    exact absurd h (by decide : ¬clInvalidValue = clSuccess)
  | some m => exact ⟨m, rfl⟩

theorem pciSysfsGetAddr_of_find (h : findMap paddr len s.prv.mapTable.entries = some m) :
    pciSysfsGetAddr s.prv paddr len true = (clSuccess, some (s.prv.translate paddr len m)) := by
  rw [pciSysfsGetAddr, h]
  rfl

theorem pciSysfsReadMem_ret (buf : Ptr) (b : Bus) :
    (pciSysfsReadMem (some s.prv) paddr buf len b).1 = (pciSysfsGetAddr s.prv paddr len true).1 := by
  rw [pciSysfsReadMem]
  rcases pciSysfsGetAddr s.prv paddr len true with ⟨r, _ | addr⟩ <;> rfl

theorem pciSysfsWriteMem_ret (buf : Ptr) (b : Bus) :
    (pciSysfsWriteMem (some s.prv) paddr buf len b).1 = (pciSysfsGetAddr s.prv paddr len true).1 := by
  rw [pciSysfsWriteMem]
  rcases pciSysfsGetAddr s.prv paddr len true with ⟨r, _ | addr⟩ <;> rfl

/-- The window that takes a range is not behind one that has all of it. -/
theorem PciSysfsPriv.TableFits.fits (h : s.prv.TableFits) (hend : paddr.toNat + len.toNat < 2 ^ 64)
    (hfind : findMap paddr len s.prv.mapTable.entries = some m) : s.prv.Fits m ∧ m.Contains paddr len := by
  rw [findMap_eq] at hfind
  obtain ⟨htakes, front, back, hwindows, hfront⟩ := List.find?_eq_some_iff_append.mp hfind
  obtain ⟨hsound, hcontains⟩ := (PciSysfsMemmap.takes_iff_sound hend).mp (of_decide_eq_true htakes)
  refine ⟨h front m back hwindows hsound fun e he hesound hecontains => ?_, hcontains⟩
  have hno : ¬e.Takes paddr len := by simpa using hfront e he
  apply hno
  rw [PciSysfsMemmap.takes_iff_sound hend]
  -- a window that has all of this one takes what this one does
  refine ⟨hesound, Nat.le_trans hecontains.1 hcontains.1, Nat.le_trans hcontains.2 hecontains.2⟩

/-- The range of such a window is taken by it. -/
theorem findMap_self {front back : List PciSysfsMemmap}
    (hwindows : s.prv.mapTable.windows = front ++ m :: back) (hsound : m.Sound)
    (hfront : ∀ e ∈ front, e.Sound → ¬e.Contains m.paddr m.size) :
    findMap m.paddr m.size s.prv.mapTable.entries = some m := by
  have htakes (e : PciSysfsMemmap) := PciSysfsMemmap.takes_iff_sound (m := e) hsound
  rw [findMap_eq]
  refine List.find?_eq_some_iff_append.mpr ⟨?_, front, back, hwindows, fun e he => ?_⟩
  · exact decide_eq_true ((htakes m).mpr ⟨hsound, Nat.le_refl _, Nat.le_refl _⟩)
  · simp only [Bool.not_eq_true', decide_eq_false_iff_not, htakes]
    intro h
    exact hfront e he h.1 h.2

end Accesses

/-- **When the accesses stay in the mapped memory.** Behind a successful probe they do exactly when every
window of the map table fits the register that it names, as the probe found it, but for windows that no
range is translated by. -/
theorem pciSysfs_inside_iff {κ : Type} (os : PciKernel κ) (s₀ s : PciSys κ)
    (hprobe : pciSysfsProbe os s₀ = (.ok (), s)) : s.AccessesInside ↔ s.prv.TableFits := by
  constructor
  · intro h front m back hwindows hsound hfront
    -- the whole window is read, and it takes its own range
    have haddr := pciSysfsGetAddr_of_find (findMap_self hwindows hsound hfront)
    have hsuccess : (pciSysfsReadMem (some s.prv) m.paddr 0 m.size ⟨fun _ => 0, []⟩).1 = clSuccess := by
      rw [pciSysfsReadMem, haddr]
    obtain ⟨addr, hgot, hinside, -⟩ := h.read m.paddr 0 m.size ⟨fun _ => 0, []⟩ hsound hsuccess
    rw [haddr] at hgot
    obtain rfl := Option.some.inj hgot
    refine ⟨hinside.bar, hinside.valid, ?_⟩
    have hoffset : (s.prv.translate m.paddr m.size m).offset = m.barOff := by
      simp [PciSysfsPriv.translate]
    have hfits := hinside.fits
    rwa [hoffset] at hfits
  · intro h
    have htaken {paddr len : UInt64} (hend : paddr.toNat + len.toNat < 2 ^ 64)
        (hret : (pciSysfsGetAddr s.prv paddr len true).1 = clSuccess) : ∃ addr,
          pciSysfsGetAddr s.prv paddr len true = (clSuccess, some addr) ∧ s.Inside addr ∧
            span addr.ptr len.toNat ⊆ (s.prv.pciRes addr.bar.toNat).mapping := by
      obtain ⟨m, hfind⟩ := takes_of_success hret
      obtain ⟨hfit, hcontains⟩ := h.fits hend hfind
      obtain ⟨hinside, hspan⟩ := PciSys.inside_of_fits hfit (mapped_of_probe hprobe hfit.bar) hcontains
      exact ⟨_, pciSysfsGetAddr_of_find hfind, hinside, hspan⟩
    constructor
    · intro paddr buf len b hend hret
      rw [pciSysfsReadMem_ret] at hret
      obtain ⟨addr, haddr, hinside, hspan⟩ := htaken hend hret
      refine ⟨addr, by rw [haddr], hinside, ?_⟩
      rw [pciSysfsReadMem, haddr]
      obtain ⟨new, hnew, hproper⟩ := (copyRun_memcpy b buf addr.ptr len.toNat).accesses
      refine ⟨new, hnew, fun a w hx => ?_⟩
      exact (hproper _ hx).2.2.trans hspan
    · intro paddr buf len b hend hret
      rw [pciSysfsWriteMem_ret] at hret
      obtain ⟨addr, haddr, hinside, hspan⟩ := htaken hend hret
      refine ⟨addr, by rw [haddr], hinside, ?_⟩
      rw [pciSysfsWriteMem, haddr]
      obtain ⟨new, hnew, hproper⟩ := (copyRun_memcpy b addr.ptr buf len.toNat).accesses
      refine ⟨new, hnew, fun a w hx => ?_⟩
      exact (hproper _ hx).2.2.trans hspan

/-! ### The table of the test driver -/

/-- A device with this table and these registers, before it is probed. -/
def testSys (bars : Nat → Reg 32) : PciSys (Nat → Reg 32) :=
  { spaceSys bars with
    prv := .allocated testMapTable ⟨0, 1, 0, 0x1af4, 0x1050⟩ fun _ => ⟨0, 0, false, false, -1, 0⟩ }

/-- A device with a single window of `2 ^ k` bytes. -/
def oneBar (k : Nat) : Nat → Reg 32 := fun i => if i = 0 then ⟨BitVec.allOnes 32 <<< k, 0xe0000000⟩ else ⟨0, 0⟩

/-- The state that a probe of that device leaves. -/
def probed (k : Nat) : PciSys (Nat → Reg 32) := (pciSysfsProbe spaceKernel (testSys (oneBar k))).2

theorem eq_ok_of_toBool {ε : Type} {r : Except ε Unit} (h : r.toBool = true) : r = .ok () := by
  cases r with
  | error e => cases h
  | ok _ => rfl

theorem probe_oneBar {k : Nat} (h : (pciSysfsProbe spaceKernel (testSys (oneBar k))).1.toBool = true) :
    pciSysfsProbe spaceKernel (testSys (oneBar k)) = (.ok (), probed k) := by
  rw [probed, ← eq_ok_of_toBool h]

/-- 256 MB in the first register, as the table has it, so that every access stays in the mapped memory. -/
theorem accesses_256M : (probed 28).AccessesInside := by
  refine (pciSysfs_inside_iff spaceKernel (testSys (oneBar 28)) (probed 28)
    (probe_oneBar (by decide +kernel))).mpr fun front m back hwindows _ _ => ?_
  have hone : (probed 28).prv.mapTable.windows = [⟨0x10000000, 0x10000000, 0, 0⟩] := by decide +kernel
  have hmem : m ∈ (probed 28).prv.mapTable.windows :=
    hwindows ▸ List.mem_append_right front (List.mem_cons_self ..)
  rw [hone] at hmem
  obtain rfl := List.mem_singleton.mp hmem
  exact ⟨by decide, by decide +kernel, by decide +kernel⟩

/-- Four kilobytes: the probe succeeds as well, and the second four are read from behind them. -/
theorem accesses_4K : pciSysfsProbe spaceKernel (testSys (oneBar 12)) = (.ok (), probed 12) ∧
    ¬(probed 12).AccessesInside := by
  refine ⟨probe_oneBar (by decide +kernel), ?_⟩
  have hbehind : ((pciSysfsGetAddr (probed 12).prv 0x10001000 0x1000 true).1 = clSuccess) ∧
      (pciSysfsGetAddr (probed 12).prv 0x10001000 0x1000 true).2.all (fun addr => decide
        (((probed 12).prv.pciRes addr.bar.toNat).barSize.toNat <
          addr.offset.toNat + addr.size.toNat)) = true := by
    decide +kernel
  generalize probed 12 = s at hbehind
  obtain ⟨hsuccess, hbehind⟩ := hbehind
  intro h
  rw [← pciSysfsReadMem_ret 0 ⟨fun _ => 0, []⟩] at hsuccess
  obtain ⟨addr, haddr, hinside, -⟩ := h.read 0x10001000 0 0x1000 ⟨fun _ => 0, []⟩ (by decide) hsuccess
  rw [haddr, Option.all_some, decide_eq_true_eq] at hbehind
  exact Nat.not_le.mpr hbehind hinside.fits

end BaremetalCrt
