/-
# BaremetalCrt.Pci.Memory — a device behind its windows has one flat memory.

The driver translates every access by the map table and copies by words or by bytes.  Where the windows of
the table fit the registers that a probe has mapped, and have nothing in common, none of that can be seen:
a run of reads, writes and register accesses does to the device's addresses what it would do to a plain
memory, and to the host what it would do without a device (`pciSysfs_flatMemory`).
-/
import BaremetalCrt.Lib.Window
import BaremetalCrt.Pci.Mapping

namespace BaremetalCrt

open Lib

/-! ## Accesses to registers -/

/-- `pci_sysfs_read32`: one load of four bytes, at an offset from an address that was looked up before. -/
def pciSysfsRead32 (desc : PciSysfsAddr) (off : UInt64) (b : Bus) : UInt32 × Bus :=
  let p := desc.ptr + off.toNat
  (UInt32.ofNat (leNat (b.bytes.load p 4)), ⟨b.bytes, b.accesses ++ [.load p 4]⟩)

/-- `pci_sysfs_write32`: one store of four bytes, likewise. -/
def pciSysfsWrite32 (desc : PciSysfsAddr) (v : UInt32) (off : UInt64) (b : Bus) : Bus :=
  let p := desc.ptr + off.toNat
  ⟨b.bytes.store p (leBytes 4 v.toNat), b.accesses ++ [.store p 4]⟩

/-! ## What is done with a device -/

/-- A transfer, an access to a register of a range that is translated first, or a store of the host to its own
memory. -/
inductive PciOp where
  | readMem (paddr : UInt64) (buf : Ptr) (len : UInt64)
  | writeMem (paddr : UInt64) (buf : Ptr) (len : UInt64)
  | read32 (paddr len off : UInt64)
  | write32 (paddr len : UInt64) (v : UInt32) (off : UInt64)
  | host (p : Ptr) (bs : List UInt8)
  deriving DecidableEq, Repr

/-- What an operation returns: a code, and the word that was read if it was a read of a register. -/
abbrev PciAnswer := ClInt × Option UInt32

/-- The operation, as the driver does it: by way of the table of windows. -/
def PciOp.exec (prv : PciSysfsPriv) : PciOp → Bus → PciAnswer × Bus
  | .readMem paddr buf len, b =>
    let out := pciSysfsReadMem (some prv) paddr buf len b
    ((out.1, none), out.2)
  | .writeMem paddr buf len, b =>
    let out := pciSysfsWriteMem (some prv) paddr buf len b
    ((out.1, none), out.2)
  | .read32 paddr len off, b =>
    match pciSysfsGetAddr prv paddr len true with
    | (r, none) => ((r, none), b)
    | (r, some desc) => ((r, some (pciSysfsRead32 desc off b).1), (pciSysfsRead32 desc off b).2)
  | .write32 paddr len v off, b =>
    match pciSysfsGetAddr prv paddr len true with
    | (r, none) => ((r, none), b)
    | (r, some desc) => ((r, none), pciSysfsWrite32 desc v off b)
  | .host p bs, b => ((clSuccess, none), ⟨b.bytes.store p bs, b.accesses⟩)

/-- A run of operations: their answers in order, and the bus behind the last of them. -/
def pciRun (prv : PciSysfsPriv) : List PciOp → Bus → List PciAnswer × Bus
  | [], b => ([], b)
  | op :: ops, b =>
    let out := op.exec prv b
    (out.1 :: (pciRun prv ops out.2).1, (pciRun prv ops out.2).2)

/-! ## A plain memory -/

/-- The memory of a device at the device's own addresses, and that of the host. -/
structure FlatBoard where
  mem : ByteMap
  host : ByteMap

/-- The range lies in one window of the list. -/
def Covered (ws : List Window) (paddr len : UInt64) : Prop := ∃ w ∈ ws, w.Has paddr.toNat len.toNat

instance (ws : List Window) (paddr len : UInt64) : Decidable (Covered ws paddr len) :=
  inferInstanceAs (Decidable (∃ _ ∈ _, _))

/-- The operation, on a plain memory of which only some ranges are served. -/
def PciOp.flat (ws : List Window) : PciOp → FlatBoard → PciAnswer × FlatBoard
  | .readMem paddr buf len, f =>
    if Covered ws paddr len then
      ((clSuccess, none), { f with host := f.host.store buf (f.mem.load paddr.toNat len.toNat) })
    else ((clInvalidValue, none), f)
  | .writeMem paddr buf len, f =>
    if Covered ws paddr len then
      ((clSuccess, none), { f with mem := f.mem.store paddr.toNat (f.host.load buf len.toNat) })
    else ((clInvalidValue, none), f)
  | .read32 paddr len off, f =>
    if Covered ws paddr len then
      ((clSuccess, some (UInt32.ofNat (leNat (f.mem.load (paddr.toNat + off.toNat) 4)))), f)
    else ((clInvalidValue, none), f)
  | .write32 paddr len v off, f =>
    if Covered ws paddr len then
      ((clSuccess, none), { f with mem := f.mem.store (paddr.toNat + off.toNat) (leBytes 4 v.toNat) })
    else ((clInvalidValue, none), f)
  | .host p bs, f => ((clSuccess, none), { f with host := f.host.store p bs })

/-- The same run on the plain memory. -/
def flatRun (ws : List Window) : List PciOp → FlatBoard → List PciAnswer × FlatBoard
  | [], f => ([], f)
  | op :: ops, f =>
    let out := op.flat ws f
    (out.1 :: (flatRun ws ops out.2).1, (flatRun ws ops out.2).2)

/-- A range below the top of the address space; a buffer that is not in the device; a register in the range. -/
def PciOp.Legal (ws : List Window) : PciOp → Prop
  | .readMem paddr buf len | .writeMem paddr buf len =>
    paddr.toNat + len.toNat < 2 ^ 64 ∧ Beside ws buf len.toNat
  | .read32 paddr len off | .write32 paddr len _ off =>
    paddr.toNat + len.toNat < 2 ^ 64 ∧ off.toNat + 4 ≤ len.toNat
  | .host p bs => Beside ws p bs.length

/-! ## The windows of a device -/

namespace PciSysfsPriv

variable (prv : PciSysfsPriv)

/-- Where an entry of the table shows its addresses. -/
def window (m : PciSysfsMemmap) : Window :=
  ⟨m.paddr.toNat, (prv.pciRes m.bar.toNat).buf + m.barOff.toNat, m.size.toNat⟩

/-- The windows of a device, in the order of its table. -/
def windows : List Window := prv.mapTable.windows.map prv.window

/-- The table is laid out over the registers: every entry lies below the top of the address space and in the
register that it names, two of them have no address of the device in common and no place in a register, and
no two registers are mapped over each other. -/
structure Laid : Prop where
  sound : ∀ m ∈ prv.mapTable.windows, m.Sound
  fits : ∀ m ∈ prv.mapTable.windows, prv.Fits m
  apart : prv.mapTable.windows.Pairwise fun m e =>
    Disjoint (span m.paddr.toNat m.size.toNat) (span e.paddr.toNat e.size.toNat) ∧
      (m.bar = e.bar → Disjoint (span m.barOff.toNat m.size.toNat) (span e.barOff.toNat e.size.toNat))
  mapped : ∀ i j, i < pciResMax → j < pciResMax → i ≠ j → (prv.pciRes i).valid = true →
    (prv.pciRes j).valid = true → Disjoint (prv.pciRes i).mapping (prv.pciRes j).mapping

end PciSysfsPriv

section Laid

variable {prv : PciSysfsPriv} {m : PciSysfsMemmap} {paddr len : UInt64}

/-- What an entry shows is in the mapping of its register. -/
theorem PciSysfsPriv.Fits.image_subset (h : prv.Fits m) :
    span (prv.window m).image (prv.window m).size ⊆ (prv.pciRes m.bar.toNat).mapping := by
  intro x hx
  obtain ⟨hlo, hhi⟩ := mem_span.mp hx
  have hfits := h.fits
  refine mem_span.mpr ⟨(Nat.le_add_right _ _).trans hlo, ?_⟩
  show x < (prv.pciRes m.bar.toNat).buf + (prv.pciRes m.bar.toNat).barSize.toNat
  simp only [PciSysfsPriv.window] at hhi
  omega

/-- Ranges that are moved by the same distance stay apart. -/
theorem disjoint_span_add {a b n k p : Nat} (h : Disjoint (span a n) (span b k)) :
    Disjoint (span (p + a) n) (span (p + b) k) := by
  refine Set.disjoint_left.mpr fun x hx hx' => ?_
  obtain ⟨hlo, hhi⟩ := mem_span.mp hx
  obtain ⟨hlo', hhi'⟩ := mem_span.mp hx'
  exact Set.disjoint_left.mp h (mem_span.mpr ⟨by omega, by omega⟩ : x - p ∈ span a n)
    (mem_span.mpr ⟨by omega, by omega⟩)

/-- The windows of such a table have nothing in common. -/
theorem PciSysfsPriv.Laid.pairwise_apart (h : prv.Laid) : prv.windows.Pairwise Window.Apart := by
  refine List.pairwise_map.mpr (h.apart.imp_of_mem fun {m e} hm he hme => ⟨hme.1, ?_⟩)
  by_cases hbar : m.bar = e.bar
  · have hoff := disjoint_span_add (p := (prv.pciRes m.bar.toNat).buf) (hme.2 hbar)
    simpa only [PciSysfsPriv.window, hbar] using hoff
  · have hne : m.bar.toNat ≠ e.bar.toNat := fun heq => hbar (UInt32.toNat_inj.mp heq)
    have hdisj := h.mapped _ _ (h.fits m hm).bar (h.fits e he).bar hne (h.fits m hm).valid (h.fits e he).valid
    exact hdisj.mono (h.fits m hm).image_subset (h.fits e he).image_subset

variable (h : prv.Laid) (hend : paddr.toNat + len.toNat < 2 ^ 64)
include h hend

/-- Below the top of the address space, what is translated is what a window has, and it is translated to where
the window shows it. -/
theorem PciSysfsPriv.Laid.getAddr : (∃ m desc, m ∈ prv.mapTable.windows ∧
      (prv.window m).Has paddr.toNat len.toNat ∧ desc.ptr = (prv.window m).place paddr.toNat ∧
      pciSysfsGetAddr prv paddr len true = (clSuccess, some desc)) ∨
    ¬Covered prv.windows paddr len ∧ pciSysfsGetAddr prv paddr len true = (clInvalidValue, none) := by
  have htakes (m : PciSysfsMemmap) (hm : m ∈ prv.mapTable.windows) :
      m.Takes paddr len ↔ m.Contains paddr len :=
    (PciSysfsMemmap.takes_iff_sound hend).trans (and_iff_right (h.sound m hm))
  cases hfind : findMap paddr len prv.mapTable.entries with
  | some m =>
    have hfound := hfind
    rw [findMap_eq] at hfound
    have hm := List.mem_of_find?_eq_some hfound
    have hpass := List.find?_some hfound
    have hcontains := (htakes m hm).mp (of_decide_eq_true hpass)
    have hoff := PciSysfsPriv.translate_offset (h.fits m hm) hcontains
    refine .inl ⟨m, prv.translate paddr len m, hm, hcontains, ?_, ?_⟩
    · show (prv.pciRes m.bar.toNat).buf + (prv.translate paddr len m).offset.toNat = _
      rw [hoff, Window.place, PciSysfsPriv.window, Nat.add_assoc]
    · rw [pciSysfsGetAddr, hfind]
      rfl
  | none =>
    refine .inr ⟨?_, by rw [pciSysfsGetAddr, hfind]⟩
    rintro ⟨w, hw, hhas⟩
    obtain ⟨m, hm, rfl⟩ := List.mem_map.mp hw
    rw [findMap_eq] at hfind
    exact List.find?_eq_none.mp hfind m hm (decide_eq_true ((htakes m hm).mpr hhas))

end Laid

/-! ## One operation -/

/-- The addresses of an access to the bus. -/
def MemAccess.range : MemAccess → Set Nat
  | .load a w | .store a w => span a w

/-- The access is in memory that is mapped for a register, or beside the windows. -/
def PciSys.Confined {κ : Type} (s : PciSys κ) (x : MemAccess) : Prop :=
  (∃ i, i < pciResMax ∧ ((s.prv.pciRes i).buf, (s.prv.pciRes i).barSize) ∈ s.maps ∧
      x.range ⊆ (s.prv.pciRes i).mapping) ∨
    ∀ w ∈ s.prv.windows, Disjoint x.range (span w.image w.size)

theorem MemAccess.Proper.range_subset {dest src n : Nat} {x : MemAccess} (h : x.Proper dest src n) :
    x.range ⊆ span src n ∨ x.range ⊆ span dest n := by
  cases x with
  | load a w => exact .inl h.2.2
  | store a w => exact .inr h.2.2

section Step

variable {κ : Type} {s : PciSys κ} (hlaid : s.prv.Laid) (hmapped : ∀ i, i < pciResMax → s.Mapped i)
  {m : PciSysfsMemmap} (hm : m ∈ s.prv.mapTable.windows)

theorem mem_windows (hm : m ∈ s.prv.mapTable.windows) : s.prv.window m ∈ s.prv.windows := List.mem_map_of_mem hm

include hlaid hmapped hm

/-- What lies in a window is in mapped memory. -/
theorem confined_of_window {x : MemAccess} {a n : Nat} (hhas : (s.prv.window m).Has a n)
    (hx : x.range ⊆ span ((s.prv.window m).place a) n) : s.Confined x :=
  have hfits := hlaid.fits m hm
  .inl ⟨m.bar.toNat, hfits.bar, hmapped _ hfits.bar hfits.valid,
    (hx.trans hhas.span_place_subset).trans hfits.image_subset⟩

/-- A copy between a window and a buffer. -/
theorem confined_of_proper {x : MemAccess} {a n buf : Nat} (hhas : (s.prv.window m).Has a n)
    (hbuf : Beside s.prv.windows buf n)
    (hx : x.range ⊆ span ((s.prv.window m).place a) n ∨ x.range ⊆ span buf n) : s.Confined x := by
  rcases hx with hx | hx
  · exact confined_of_window hlaid hmapped hm hhas hx
  · exact .inr fun w hw => (hbuf w hw).mono_left hx

omit hlaid hmapped in
theorem disjoint_place {a n buf : Nat} (hhas : (s.prv.window m).Has a n) (hbuf : Beside s.prv.windows buf n) :
    Disjoint (span buf n) (span ((s.prv.window m).place a) n) :=
  (hbuf _ (mem_windows hm)).mono_right hhas.span_place_subset

end Step

/-- What an operation and its flat counterpart leave. -/
structure PciOp.Agrees {κ : Type} (s : PciSys κ) (b : Bus) (out : PciAnswer × Bus)
    (ideal : PciAnswer × FlatBoard) : Prop where
  answer : out.1 = ideal.1
  memory : Displays s.prv.windows out.2.bytes ideal.2.mem ideal.2.host
  accesses : ∃ new, out.2.accesses = b.accesses ++ new ∧ ∀ x ∈ new, s.Confined x

section Exec

variable {κ : Type} {s : PciSys κ} (hlaid : s.prv.Laid) (hmapped : ∀ i, i < pciResMax → s.Mapped i)
  {b : Bus} {f : FlatBoard} (hshow : Displays s.prv.windows b.bytes f.mem f.host)

/-- Nothing is done. -/
theorem PciOp.Agrees.refused (hshow : Displays s.prv.windows b.bytes f.mem f.host) (a : PciAnswer) :
    PciOp.Agrees s b (a, b) (a, f) :=
  ⟨rfl, hshow, [], (List.append_nil _).symm, fun _ hx => absurd hx List.not_mem_nil⟩

section One

include hlaid hmapped hshow

theorem exec_readMem {paddr len : UInt64} {buf : Ptr} (hend : paddr.toNat + len.toNat < 2 ^ 64)
    (hbuf : Beside s.prv.windows buf len.toNat) :
    PciOp.Agrees s b (PciOp.exec s.prv (.readMem paddr buf len) b)
      (PciOp.flat s.prv.windows (.readMem paddr buf len) f) := by
  rcases hlaid.getAddr hend with ⟨m, desc, hm, hhas, hptr, hget⟩ | ⟨hnot, hget⟩
  · have hexec : PciOp.exec s.prv (.readMem paddr buf len) b =
        ((clSuccess, none), pciSysfsMemcpy buf ((s.prv.window m).place paddr.toNat) len.toNat b) := by
      simp only [PciOp.exec, pciSysfsReadMem, hget, hptr]
    have hcopy := copyRun_memcpy b buf ((s.prv.window m).place paddr.toNat) len.toNat
    have hbytes := copied_iff.mp (hcopy.copied (disjoint_place hm hhas hbuf).symm)
    obtain ⟨new, hnew, hproper⟩ := hcopy.accesses
    rw [hexec, PciOp.flat, if_pos ⟨_, mem_windows hm, hhas⟩]
    refine ⟨rfl, ?_, new, hnew, fun x hx => ?_⟩
    · rw [hbytes, hshow.load_in (mem_windows hm) hhas]
      exact hshow.store_out (by rwa [ByteMap.length_load])
    · exact confined_of_proper hlaid hmapped hm hhas hbuf (hproper x hx).range_subset
  · rw [PciOp.exec, pciSysfsReadMem, hget, PciOp.flat, if_neg hnot]
    exact .refused hshow _

theorem exec_writeMem {paddr len : UInt64} {buf : Ptr} (hend : paddr.toNat + len.toNat < 2 ^ 64)
    (hbuf : Beside s.prv.windows buf len.toNat) :
    PciOp.Agrees s b (PciOp.exec s.prv (.writeMem paddr buf len) b)
      (PciOp.flat s.prv.windows (.writeMem paddr buf len) f) := by
  rcases hlaid.getAddr hend with ⟨m, desc, hm, hhas, hptr, hget⟩ | ⟨hnot, hget⟩
  · have hexec : PciOp.exec s.prv (.writeMem paddr buf len) b =
        ((clSuccess, none), pciSysfsMemcpy ((s.prv.window m).place paddr.toNat) buf len.toNat b) := by
      simp only [PciOp.exec, pciSysfsWriteMem, hget, hptr]
    have hcopy := copyRun_memcpy b ((s.prv.window m).place paddr.toNat) buf len.toNat
    have hbytes := copied_iff.mp (hcopy.copied (disjoint_place hm hhas hbuf))
    obtain ⟨new, hnew, hproper⟩ := hcopy.accesses
    rw [hexec, PciOp.flat, if_pos ⟨_, mem_windows hm, hhas⟩]
    refine ⟨rfl, ?_, new, hnew, fun x hx => ?_⟩
    · rw [hbytes, hshow.load_out hbuf]
      exact hshow.store_in hlaid.pairwise_apart (mem_windows hm) (by rwa [ByteMap.length_load])
    · exact confined_of_proper hlaid hmapped hm hhas hbuf (hproper x hx).range_subset.symm
  · rw [PciOp.exec, pciSysfsWriteMem, hget, PciOp.flat, if_neg hnot]
    exact .refused hshow _

/-! A register is four bytes of the range that was translated. -/

theorem exec_read32 {paddr len off : UInt64} (hend : paddr.toNat + len.toNat < 2 ^ 64)
    (hoff : off.toNat + 4 ≤ len.toNat) :
    PciOp.Agrees s b (PciOp.exec s.prv (.read32 paddr len off) b)
      (PciOp.flat s.prv.windows (.read32 paddr len off) f) := by
  rcases hlaid.getAddr hend with ⟨m, desc, hm, hhas, hptr, hget⟩ | ⟨hnot, hget⟩
  · have hpart := hhas.part hoff
    have hplace : desc.ptr + off.toNat = (s.prv.window m).place (paddr.toNat + off.toNat) := by
      rw [hptr, hhas.place_add]
    rw [PciOp.exec, hget, PciOp.flat, if_pos ⟨_, mem_windows hm, hhas⟩]
    simp only [pciSysfsRead32, hplace]
    refine ⟨?_, hshow, [_], rfl, fun x hx => ?_⟩
    · rw [hshow.load_in (mem_windows hm) hpart]
    · obtain rfl := List.mem_singleton.mp hx
      exact confined_of_window hlaid hmapped hm hpart Set.Subset.rfl
  · rw [PciOp.exec, hget, PciOp.flat, if_neg hnot]
    exact .refused hshow _

theorem exec_write32 {paddr len off : UInt64} {v : UInt32} (hend : paddr.toNat + len.toNat < 2 ^ 64)
    (hoff : off.toNat + 4 ≤ len.toNat) :
    PciOp.Agrees s b (PciOp.exec s.prv (.write32 paddr len v off) b)
      (PciOp.flat s.prv.windows (.write32 paddr len v off) f) := by
  rcases hlaid.getAddr hend with ⟨m, desc, hm, hhas, hptr, hget⟩ | ⟨hnot, hget⟩
  · have hpart := hhas.part hoff
    have hplace : desc.ptr + off.toNat = (s.prv.window m).place (paddr.toNat + off.toNat) := by
      rw [hptr, hhas.place_add]
    rw [PciOp.exec, hget, PciOp.flat, if_pos ⟨_, mem_windows hm, hhas⟩]
    simp only [pciSysfsWrite32, hplace]
    refine ⟨rfl, ?_, [_], rfl, fun x hx => ?_⟩
    · exact hshow.store_in hlaid.pairwise_apart (mem_windows hm) (by rwa [length_leBytes])
    · obtain rfl := List.mem_singleton.mp hx
      exact confined_of_window hlaid hmapped hm hpart Set.Subset.rfl
  · rw [PciOp.exec, hget, PciOp.flat, if_neg hnot]
    exact .refused hshow _

/-- **One operation** is the one on the plain memory. -/
theorem PciOp.exec_flat (op : PciOp) (hlegal : op.Legal s.prv.windows) :
    PciOp.Agrees s b (op.exec s.prv b) (op.flat s.prv.windows f) := by
  cases op with
  | readMem paddr buf len => exact exec_readMem hlaid hmapped hshow hlegal.1 hlegal.2
  | writeMem paddr buf len => exact exec_writeMem hlaid hmapped hshow hlegal.1 hlegal.2
  | read32 paddr len off => exact exec_read32 hlaid hmapped hshow hlegal.1 hlegal.2
  | write32 paddr len v off => exact exec_write32 hlaid hmapped hshow hlegal.1 hlegal.2
  | host p bs =>
    exact ⟨rfl, hshow.store_out hlegal, [], (List.append_nil _).symm, fun _ hx => absurd hx List.not_mem_nil⟩

end One

include hlaid hmapped in
/-- A run is the run on the plain memory. -/
theorem pciRun_flat (ops : List PciOp) : ∀ {b : Bus} {f : FlatBoard},
    Displays s.prv.windows b.bytes f.mem f.host → (∀ op ∈ ops, op.Legal s.prv.windows) →
      (pciRun s.prv ops b).1 = (flatRun s.prv.windows ops f).1 ∧
        Displays s.prv.windows (pciRun s.prv ops b).2.bytes (flatRun s.prv.windows ops f).2.mem
          (flatRun s.prv.windows ops f).2.host ∧
        ∃ new, (pciRun s.prv ops b).2.accesses = b.accesses ++ new ∧ ∀ x ∈ new, s.Confined x := by
  induction ops with
  | nil =>
    intro b f hshow _
    exact ⟨rfl, hshow, [], (List.append_nil _).symm, fun _ hx => absurd hx List.not_mem_nil⟩
  | cons op ops ih =>
    intro b f hshow hlegal
    obtain ⟨hop, hops⟩ := List.forall_mem_cons.mp hlegal
    obtain ⟨hanswer, hmem, new, hnew, hconf⟩ := op.exec_flat hlaid hmapped hshow hop
    obtain ⟨hanswers, hend, new', hnew', hconf'⟩ := ih hmem hops
    refine ⟨List.cons_eq_cons.mpr ⟨hanswer, hanswers⟩, hend, new ++ new', ?_, fun x hx => ?_⟩
    · rw [← List.append_assoc, ← hnew]
      exact hnew'
    · exact (List.mem_append.mp hx).elim (hconf x) (hconf' x)

end Exec

/-- **One flat memory.** Behind a successful probe, with a table that is laid out over the registers, every run
of reads, writes and register accesses answers as a plain memory does of which the windows serve their ranges,
and leaves what that leaves, in the device and in the host; and what it accesses of the device is mapped. -/
theorem pciSysfs_flatMemory {κ : Type} (os : PciKernel κ) (s₀ s : PciSys κ)
    (hprobe : pciSysfsProbe os s₀ = (.ok (), s)) (hlaid : s.prv.Laid) (ops : List PciOp)
    (hlegal : ∀ op ∈ ops, op.Legal s.prv.windows) (b : Bus) :
    let out := pciRun s.prv ops b
    let ideal := flatRun s.prv.windows ops ⟨flatOf s.prv.windows b.bytes, b.bytes⟩
    out.1 = ideal.1 ∧ Displays s.prv.windows out.2.bytes ideal.2.mem ideal.2.host ∧
      ∃ new, out.2.accesses = b.accesses ++ new ∧ ∀ x ∈ new, s.Confined x :=
  pciRun_flat hlaid (fun _ hi => mapped_of_probe hprobe hi) ops
    (displays_flatOf hlaid.pairwise_apart b.bytes) hlegal

/-! ### Two windows on one register -/

/-- Four kilobytes at `0x10000000` and the next four at `0x40000000`. -/
def splitTable : MapTable :=
  ⟨[⟨0x10000000, 0x1000, 0, 0⟩, ⟨0x40000000, 0x1000, 0, 0x1000⟩, ⟨-1, -1, 0xffffffff, -1⟩], by decide⟩

/-- The device of the test driver with this table. -/
def splitSys : PciSys (Nat → Reg 32) :=
  { testSys (oneBar 28) with prv := { (testSys (oneBar 28)).prv with mapTable := splitTable } }

/-- The device behind its probe: two windows of its table, in one register. -/
@[irreducible] def splitProbed : PciSys (Nat → Reg 32) := (pciSysfsProbe spaceKernel splitSys).2

/-- Five bytes to the end of the one window and back, a register of the other, and a range that neither has. -/
def splitOps : List PciOp :=
  [.host 0x20 [1, 2, 3, 4, 5], .writeMem 0x10000ffb 0x20 5, .readMem 0x10000ffb 0x40 5,
    .write32 0x40000000 0x100 0xdeadbeef 0x10, .read32 0x40000000 0x100 0x10, .readMem 0x10000ffd 0x60 5]

theorem splitSys_probed : pciSysfsProbe spaceKernel splitSys = (.ok (), splitProbed) := by
  have hok : (pciSysfsProbe spaceKernel splitSys).1.toBool = true := by decide +kernel
  rw [splitProbed, ← eq_ok_of_toBool hok]

theorem splitProbed_windows : splitProbed.prv.mapTable.windows =
    [⟨0x10000000, 0x1000, 0, 0⟩, ⟨0x40000000, 0x1000, 0, 0x1000⟩] := by decide +kernel

/-- What the probe finds in its registers. -/
theorem splitProbed_registers : ((splitProbed.prv.pciRes 0).valid = true ∧
      (splitProbed.prv.pciRes 0).barSize = 0x10000000) ∧
    ∀ i, i < pciResMax → (splitProbed.prv.pciRes i).valid = true → i = 0 := by decide +kernel

theorem splitProbed_laid : splitProbed.prv.Laid where
  sound := by
    rw [splitProbed_windows]
    unfold PciSysfsMemmap.Sound
    decide
  fits := by
    have hall : ∀ m ∈ ([⟨0x10000000, 0x1000, 0, 0⟩, ⟨0x40000000, 0x1000, 0, 0x1000⟩] : List PciSysfsMemmap),
        m.bar = 0 ∧ m.barOff.toNat + m.size.toNat ≤ 0x10000000 := by decide
    rw [splitProbed_windows]
    intro m hm
    obtain ⟨hbar, hle⟩ := hall m hm
    obtain ⟨⟨hvalid, hsize⟩, -⟩ := splitProbed_registers
    refine ⟨?_, ?_, ?_⟩ <;> rw [hbar]
    · decide
    · exact hvalid
    · exact hsize ▸ hle
  apart := by
    rw [splitProbed_windows, List.pairwise_pair]
    exact ⟨span_disjoint_of_le (by decide), fun _ => span_disjoint_of_le (by decide)⟩
  mapped i j hi hj hij hvi hvj :=
    absurd ((splitProbed_registers.2 i hi hvi).trans (splitProbed_registers.2 j hj hvj).symm) hij

theorem beside_split {p n : Nat} (h : p + n ≤ 0x10000) : Beside splitProbed.prv.windows p n := by
  have hwindows : splitProbed.prv.windows =
      [⟨0x10000000, 0x10000, 0x1000⟩, ⟨0x40000000, 0x11000, 0x1000⟩] := by decide +kernel
  have himage : ∀ w ∈ ([⟨0x10000000, 0x10000, 0x1000⟩, ⟨0x40000000, 0x11000, 0x1000⟩] : List Window),
      0x10000 ≤ w.image := by decide
  rw [hwindows]
  exact fun w hw => span_disjoint_of_le (h.trans (himage w hw))

theorem splitOps_flat :
    let out := pciRun splitProbed.prv splitOps ⟨fun _ => 0, []⟩
    let ideal :=
      flatRun splitProbed.prv.windows splitOps ⟨flatOf splitProbed.prv.windows fun _ => 0, fun _ => 0⟩
    out.1 = ideal.1 ∧ Displays splitProbed.prv.windows out.2.bytes ideal.2.mem ideal.2.host ∧
      ∃ new, out.2.accesses = [] ++ new ∧ ∀ x ∈ new, splitProbed.Confined x := by
  refine pciSysfs_flatMemory spaceKernel splitSys splitProbed splitSys_probed splitProbed_laid splitOps ?_
    ⟨fun _ => 0, []⟩
  simp only [splitOps, List.forall_mem_cons, PciOp.Legal]
  refine ⟨beside_split (by decide), ⟨by decide, beside_split (by decide)⟩,
    ⟨by decide, beside_split (by decide)⟩, ⟨by decide, by decide⟩, ⟨by decide, by decide⟩,
    ⟨by decide, beside_split (by decide)⟩, ?_⟩
  exact fun _ hop => absurd hop List.not_mem_nil

end BaremetalCrt
