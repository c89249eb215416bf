/-
# BaremetalCrt.Pci.Windows — which ranges the map table translates (`pci_sysfs_get_addr`).

A window takes a range when it starts below it and its end is not below the end of the range, both ends
as 64-bit sums.  `Contains` is the same test in unbounded integers; the two differ only where one of the
ends is at or past the top of the address space (`takes_iff`), and that decides when the table translates
the right ranges (`pciSysfsGetAddr_windows_iff`).

`Translates` is what the table should do with a range: take it as the first window that contains it, and
refuse it when there is none. Windows that are misjudged do no harm where the one that is taken puts the
range at the same place (`WellJudged`). The table of the test driver is at the end, with a range that it
misjudges and one that it does not.
-/
import BaremetalCrt.Pci.Sysfs

namespace BaremetalCrt

/-! ## The table as a list of windows -/

/-- The entries in front of the one that ends the table. -/
def MapTable.windows (t : MapTable) : List PciSysfsMemmap := t.entries.takeWhile (·.paddr ≠ -1)

namespace PciSysfsMemmap

variable (m : PciSysfsMemmap) (paddr len : UInt64)

/-- Where the window ends, in unbounded integers. -/
def top : Nat := m.paddr.toNat + m.size.toNat

/-- The test of the source: the range neither begins in front of the window nor ends behind it, in sums of
64 bits that wrap. -/
def Takes : Prop := ¬(paddr < m.paddr ∨ m.paddr + m.size < paddr + len)

/-- The range lies in the window, in unbounded integers. -/
def Contains : Prop := m.paddr.toNat ≤ paddr.toNat ∧ paddr.toNat + len.toNat ≤ m.top

/-- The window starts below the range, and either it alone ends at the top of the address space, or the
range does or goes past it, and what is left of its end is not above what is left of the window's. -/
def Misjudged : Prop :=
  m.paddr.toNat ≤ paddr.toNat ∧
    if paddr.toNat + len.toNat < 2 ^ 64 then m.top = 2 ^ 64
    else ¬(paddr.toNat + len.toNat = 2 ^ 64 ∧ m.top = 2 ^ 64) ∧
      paddr.toNat + len.toNat - 2 ^ 64 ≤ m.top % 2 ^ 64

instance : Decidable (m.Takes paddr len) := inferInstanceAs (Decidable (¬_))

instance : Decidable (m.Contains paddr len) := inferInstanceAs (Decidable (_ ∧ _))

instance : Decidable (m.Misjudged paddr len) := inferInstanceAs (Decidable (_ ∧ _))

variable {m paddr len}

theorem takes_iff_mod : m.Takes paddr len ↔
    m.paddr.toNat ≤ paddr.toNat ∧ (paddr.toNat + len.toNat) % 2 ^ 64 ≤ m.top % 2 ^ 64 := by
  rw [Takes, not_or, UInt64.not_lt, UInt64.not_lt, UInt64.le_iff_toNat_le, UInt64.le_iff_toNat_le,
    UInt64.toNat_add, UInt64.toNat_add]
  rfl

/-- Below the top of the address space, a misjudged window has the range and does not take it. -/
theorem takes_iff_below (hfit : m.top ≤ 2 ^ 64) (hend : paddr.toNat + len.toNat < 2 ^ 64) :
    (m.Takes paddr len ↔ m.Contains paddr len ∧ ¬m.Misjudged paddr len) ∧
      (m.Contains paddr len ↔ m.Contains paddr len ∨ m.Misjudged paddr len) := by
  have hsize := m.size.toNat_lt
  rw [takes_iff_mod, Misjudged, if_pos hend, Contains, top] at *
  omega

/-- From there on, a misjudged window takes a range that it does not have. -/
theorem takes_iff_above (hfit : m.top ≤ 2 ^ 64) (hend : ¬paddr.toNat + len.toNat < 2 ^ 64) :
    (m.Takes paddr len ↔ m.Contains paddr len ∨ m.Misjudged paddr len) ∧
      (m.Contains paddr len ↔ m.Contains paddr len ∧ ¬m.Misjudged paddr len) := by
  have hpaddr := paddr.toNat_lt
  have hlen := len.toNat_lt
  rw [takes_iff_mod, Misjudged, if_neg hend, Contains, top] at *
  omega

/-- Where a window puts the addresses of the device: a register, and the distance from an address to the
offset in it. -/
def place (m : PciSysfsMemmap) : UInt32 × UInt64 := (m.bar, m.barOff - m.paddr)

end PciSysfsMemmap

/-- The first entry in front of the end that passes the test. -/
theorem findMap_eq (t : MapTable) (paddr len : UInt64) :
    findMap paddr len t.entries = t.windows.find? fun m => decide (m.Takes paddr len) := by
  unfold MapTable.windows
  induction t.entries with
  | nil => rfl
  | cons m ms ih =>
    rw [findMap]
    by_cases hend : m.paddr = -1
    · rw [if_pos hend, List.takeWhile_cons_of_neg (by simpa using hend), List.find?_nil]
    · rw [if_neg hend, List.takeWhile_cons_of_pos (by simpa using hend), List.find?_cons]
      by_cases htest : paddr < m.paddr ∨ m.paddr + m.size < paddr + len
      · have hno : decide (m.Takes paddr len) = false := decide_eq_false (not_not.mpr htest)
        rw [if_pos htest, hno, ih]
      · have hyes : decide (m.Takes paddr len) = true := decide_eq_true htest
        rw [if_neg htest, hyes]

section First

variable {α : Type} {l : List α} {p q r : α → Prop} [DecidablePred p] [DecidablePred q] [DecidablePred r]

/-- The first element with one of two properties, if it lacks the second, is the first one that has the
first property and lacks the second. -/
theorem find?_and_not {a : α} (h : l.find? (fun x => decide (p x ∨ q x)) = some a) (ha : ¬q a) :
    l.find? (fun x => decide (p x ∧ ¬q x)) = some a := by
  obtain ⟨hpa, front, back, rfl, hfront⟩ := List.find?_eq_some_iff_append.mp h
  refine List.find?_eq_some_iff_append.mpr ⟨?_, front, back, rfl, fun x hx => ?_⟩
  · exact decide_eq_true ⟨(of_decide_eq_true hpa).resolve_right ha, ha⟩
  · have hno : ¬(p x ∨ q x) := by simpa using hfront x hx
    simp [not_or.mp hno]

theorem find?_congr_iff (h : ∀ x ∈ l, p x ↔ r x) :
    l.find? (fun x => decide (p x)) = l.find? fun x => decide (r x) := by
  induction l with
  | nil => rfl
  | cons x l ih =>
    have hx : decide (p x) = decide (r x) := decide_eq_decide.mpr (h x (List.mem_cons_self ..))
    rw [List.find?_cons, List.find?_cons, hx, ih fun y hy => h y (List.mem_cons_of_mem _ hy)]

end First

/-! ## What is translated -/

variable (prv : PciSysfsPriv) (paddr len : UInt64)

/-- The range is translated just when a window contains it, and then as the first such window has it. -/
structure Translates : Prop where
  ret : ∀ desc, (pciSysfsGetAddr prv paddr len desc).1 = clSuccess ↔
    ∃ m ∈ prv.mapTable.windows, m.Contains paddr len
  desc : ∀ m, prv.mapTable.windows.find? (fun m => decide (m.Contains paddr len)) = some m →
    ∃ d, (pciSysfsGetAddr prv paddr len true).2 = some d ∧ d.paddr = paddr ∧ d.size = len ∧
      d.bar = m.bar ∧ d.offset = m.barOff + (paddr - m.paddr)

/-- The first window that contains the range or is misjudged is not misjudged, or it puts the range where
the first one does that contains it and is not. -/
def WellJudged (ms : List PciSysfsMemmap) : Prop :=
  ∀ m, ms.find? (fun m => decide (m.Contains paddr len ∨ m.Misjudged paddr len)) = some m →
    m.Misjudged paddr len →
      ∃ e, ms.find? (fun m => decide (m.Contains paddr len ∧ ¬m.Misjudged paddr len)) = some e ∧
        e.place = m.place

variable {prv paddr len}

/-- It depends on where the window that is taken and the one that should be put the range. -/
theorem translates_iff : Translates prv paddr len ↔
    (findMap paddr len prv.mapTable.entries).map PciSysfsMemmap.place =
      (prv.mapTable.windows.find? fun m => decide (m.Contains paddr len)).map PciSysfsMemmap.place := by
  have hspec : (prv.mapTable.windows.find? fun m => decide (m.Contains paddr len)).isSome ↔
      ∃ m ∈ prv.mapTable.windows, m.Contains paddr len := by
    simp only [List.find?_isSome, decide_eq_true_eq]
  -- the address cancels, so that only the place of a window counts
  have hoffset (m e : PciSysfsMemmap) : m.barOff + paddr - m.paddr = e.barOff + (paddr - e.paddr) ↔
      m.barOff - m.paddr = e.barOff - e.paddr := by
    grind
  constructor
  · intro h
    cases hcode : findMap paddr len prv.mapTable.entries with
    | none =>
      have hret : ¬(pciSysfsGetAddr prv paddr len true).1 = clSuccess := by
        rw [pciSysfsGetAddr, hcode]
        exact (by decide : ¬clInvalidValue = clSuccess)
      have hno := (not_congr ((h.ret true).trans hspec.symm)).mp hret
      rw [Option.not_isSome_iff_eq_none.mp hno]
    | some m =>
      have hyes := ((h.ret true).trans hspec.symm).mp (by rw [pciSysfsGetAddr, hcode])
      obtain ⟨e, he⟩ := Option.isSome_iff_exists.mp hyes
      obtain ⟨d, hd, -, -, hbar, hoff⟩ := h.desc e he
      rw [pciSysfsGetAddr, hcode] at hd
      obtain rfl : prv.translate paddr len m = d := Option.some.inj hd
      rw [he, Option.map_some, Option.map_some, PciSysfsMemmap.place, PciSysfsMemmap.place, hbar.symm,
        ← (hoffset m e).mp hoff]
      rfl
  · intro h
    refine ⟨fun desc => ?_, fun e he => ?_⟩
    · rw [← hspec, ← Option.isSome_map (f := PciSysfsMemmap.place), ← h, Option.isSome_map, pciSysfsGetAddr]
      cases findMap paddr len prv.mapTable.entries with
      | none => exact iff_of_false (by decide : ¬clInvalidValue = clSuccess) (by simp)
      | some m => exact iff_of_true rfl rfl
    · rw [he, Option.map_some] at h
      obtain ⟨m, hm, hplace⟩ := Option.map_eq_some_iff.mp h
      obtain ⟨hbar, hoff⟩ := Prod.mk.inj hplace
      refine ⟨prv.translate paddr len m, ?_, rfl, rfl, hbar, (hoffset m e).mpr hoff⟩
      rw [pciSysfsGetAddr, hm]
      rfl

/-- **When the windows are judged right.** A range of the table's addresses is translated as the first
window that contains it has it, and refused when there is none, just when no window at the top of the
address space, or for a range at the top, comes in front of that window. -/
theorem pciSysfsGetAddr_windows_iff (prv : PciSysfsPriv)
    (hfit : ∀ m ∈ prv.mapTable.windows, m.paddr.toNat + m.size.toNat ≤ 2 ^ 64) (paddr len : UInt64) :
    Translates prv paddr len ↔ WellJudged paddr len prv.mapTable.windows := by
  have hjudged : WellJudged paddr len prv.mapTable.windows ↔
      (prv.mapTable.windows.find? fun m => decide (m.Contains paddr len ∨ m.Misjudged paddr len)).map
          PciSysfsMemmap.place =
        (prv.mapTable.windows.find? fun m => decide (m.Contains paddr len ∧ ¬m.Misjudged paddr len)).map
          PciSysfsMemmap.place := by
    cases hany : prv.mapTable.windows.find? fun m =>
        decide (m.Contains paddr len ∨ m.Misjudged paddr len) with
    | none =>
      have hno : prv.mapTable.windows.find?
          (fun m => decide (m.Contains paddr len ∧ ¬m.Misjudged paddr len)) = none := by
        rw [List.find?_eq_none] at hany ⊢
        intro m hm hboth
        exact hany m hm (decide_eq_true (Or.inl (of_decide_eq_true hboth).1))
      rw [hno]
      refine iff_of_true (fun m hm => ?_) rfl
      rw [hany] at hm
      cases hm
    | some m =>
      constructor
      · intro h
        by_cases hmis : m.Misjudged paddr len
        · obtain ⟨e, he, hplace⟩ := h m hany hmis
          rw [he, Option.map_some, Option.map_some, hplace]
        · rw [find?_and_not hany hmis]
      · intro h n hn _
        rw [hany] at hn
        obtain rfl := Option.some.inj hn
        exact Option.map_eq_some_iff.mp h.symm
  rw [translates_iff, findMap_eq, hjudged]
  -- below the top a misjudged window is passed over, from there on it is taken
  by_cases hend : paddr.toNat + len.toNat < 2 ^ 64
  · rw [find?_congr_iff fun m hm => (PciSysfsMemmap.takes_iff_below (hfit m hm) hend).1,
      find?_congr_iff fun m hm => (PciSysfsMemmap.takes_iff_below (hfit m hm) hend).2]
    exact eq_comm
  · rw [find?_congr_iff fun m hm => (PciSysfsMemmap.takes_iff_above (hfit m hm) hend).1,
      find?_congr_iff fun m hm => (PciSysfsMemmap.takes_iff_above (hfit m hm) hend).2]

/-! ## The table of the test driver -/

/-- `pci_sysfs_test_map_table`: 256 MB at `0x10000000`. -/
def testMapTable : MapTable :=
  ⟨[⟨0x10000000, 0x10000000, 0, 0⟩, ⟨-1, -1, 0xffffffff, -1⟩], by decide⟩

/-- A device with this table, none of whose registers was sized yet. -/
def testPriv : PciSysfsPriv := .allocated testMapTable ⟨0, 0, 0, 0, 0⟩ fun _ => ⟨0, 0, false, false, -1, 0⟩

/-- A range inside the window is translated as the window has it. -/
theorem inside_translates : Translates testPriv 0x18000000 0x1000 := by
  refine (pciSysfsGetAddr_windows_iff testPriv (by decide) 0x18000000 0x1000).mpr fun m hfind hmis => ?_
  obtain rfl := List.mem_singleton.mp (show m ∈ [⟨0x10000000, 0x10000000, 0, 0⟩] from
    List.mem_of_find?_eq_some hfind)
  exact absurd hmis (by decide)

/-- A range that goes round the address space is taken to be inside. -/
theorem hugeLen_translated : (∀ m ∈ testPriv.mapTable.windows, m.paddr.toNat + m.size.toNat ≤ 2 ^ 64) ∧
    ¬Translates testPriv 0x18000000 0xfffffffff0000000 := by
  refine ⟨by decide, fun h => ?_⟩
  have hret : (pciSysfsGetAddr testPriv 0x18000000 0xfffffffff0000000 true).1 = clSuccess := by decide
  exact absurd ((h.ret true).mp hret) (by decide)

end BaremetalCrt
