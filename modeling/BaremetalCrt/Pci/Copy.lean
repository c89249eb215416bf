/-
# BaremetalCrt.Pci.Copy — the copy by words is the copy by bytes (`pci_sysfs_memcpy`).

Between ranges that do not overlap, a copy that was made up to some point leaves the rest of the source
as it was, so that it goes on from there whatever the width of its accesses is.

`pciSysfsMemcpy` goes by eight bytes, by four or by one, as the two pointers and the length are aligned, and
each of its loops has a part that is copied and a rest. The accesses differ (`Bus.accesses`), which a device
may notice; the memory that they leave does not.
-/
import BaremetalCrt.Lib.Copy
import BaremetalCrt.Pci.Sysfs
import Mathlib.Data.Nat.Bits

namespace BaremetalCrt

open Lib

/-! ## The loops -/

/-- The access is aligned and in its range, and as wide as a byte or a word. -/
def MemAccess.Proper (dest src n : Nat) : MemAccess → Prop
  | .load a w => (w = 1 ∨ w = 8) ∧ w ∣ a ∧ span a w ⊆ span src n
  | .store a w => (w = 1 ∨ w = 8) ∧ w ∣ a ∧ span a w ⊆ span dest n

/-- What a copy makes of the memory, and what it accesses. -/
structure CopyRun (b b' : Bus) (dest src n : Nat) : Prop where
  copied : Disjoint (span src n) (span dest n) → Copied b.bytes b'.bytes dest src n
  accesses : ∃ new, b'.accesses = b.accesses ++ new ∧ ∀ x ∈ new, x.Proper dest src n

theorem MemAccess.Proper.mono {dest src n dest' src' n' : Nat} {x : MemAccess} (h : x.Proper dest src n)
    (hdest : span dest n ⊆ span dest' n') (hsrc : span src n ⊆ span src' n') : x.Proper dest' src' n' := by
  cases x with
  | load a w => exact ⟨h.1, h.2.1, h.2.2.trans hsrc⟩
  | store a w => exact ⟨h.1, h.2.1, h.2.2.trans hdest⟩

variable {b b' b'' : Bus} {dest src k n : Nat}

theorem CopyRun.append (h : CopyRun b b' dest src k) (h' : CopyRun b' b'' (dest + k) (src + k) n) :
    CopyRun b b'' dest src (k + n) := by
  obtain ⟨new, hnew, hproper⟩ := h.accesses
  obtain ⟨more, hmore, hproper'⟩ := h'.accesses
  refine ⟨fun hdisj => ?_, new ++ more, ?_, fun x hx => ?_⟩
  · have hfirst : Disjoint (span src k) (span dest k) := hdisj.mono (span_subset_left ..) (span_subset_left ..)
    exact (h.copied hfirst).append hdisj (h'.copied (disjoint_rest hdisj))
  · rw [hmore, hnew, List.append_assoc]
  · rcases List.mem_append.mp hx with hx | hx
    · exact (hproper x hx).mono (span_subset_left ..) (span_subset_left ..)
    · exact (hproper' x hx).mono (span_subset_right ..) (span_subset_right ..)

theorem copyRun_zero (b : Bus) (dest src : Nat) : CopyRun b b dest src 0 :=
  ⟨fun _ => copied_zero .., [], (List.append_nil _).symm, by simp⟩

/-- One assignment. -/
theorem copyRun_assign (b : Bus) {w : Nat} (hw : w = 1 ∨ w = 8) (hdest : w ∣ dest) (hsrc : w ∣ src) :
    CopyRun b (b.assign w dest src) dest src w := by
  refine ⟨fun _ => copied_iff.mpr rfl, _, rfl, fun x hx => ?_⟩
  simp only [List.mem_cons, List.not_mem_nil, or_false] at hx
  rcases hx with rfl | rfl
  · exact ⟨hw, hsrc, Set.Subset.rfl⟩
  · exact ⟨hw, hdest, Set.Subset.rfl⟩

theorem copyRun_slow (n : Nat) : ∀ (dest src : Nat) (b : Bus),
    CopyRun b (pciSysfsMemcpySlow dest src n b) dest src n := by
  induction n with
  | zero => exact fun dest src b => copyRun_zero b dest src
  | succ n ih =>
    intro dest src b
    have hone := copyRun_assign b (Or.inl rfl) (one_dvd dest) (one_dvd src)
    rw [pciSysfsMemcpySlow, Nat.add_comm n 1]
    exact hone.append (ih _ _ _)

/-- The loop over the words leaves less than a word. -/
theorem copyRun_words (n : Nat) : ∀ (dest src : Nat) (b : Bus), 8 ∣ dest → 8 ∣ src →
    ∃ k r b', copyWords dest src n b = (dest + k, src + k, r, b') ∧ n = k + r ∧
      CopyRun b b' dest src k := by
  induction n using Nat.strongRecOn with
  | _ n ih =>
    intro dest src b hdest hsrc
    match n with
    | n + 8 =>
      obtain ⟨k, r, b', hrun, rfl, hcopy⟩ := ih n (by omega) (dest + 8) (src + 8) (b.assign 8 dest src)
        (by omega) (by omega)
      refine ⟨8 + k, r, b', ?_, by omega, ?_⟩
      · rw [copyWords, hrun, Nat.add_assoc, Nat.add_assoc]
      · exact (copyRun_assign b (Or.inr rfl) hdest hsrc).append hcopy
    | 0 | 1 | 2 | 3 | 4 | 5 | 6 | 7 =>
      -- less than a word is left
      exact ⟨0, _, b, rfl, (Nat.zero_add _).symm, copyRun_zero b dest src⟩

theorem eight_dvd_of_and {a : Nat} (h : a &&& 7 = 0) : 8 ∣ a := by
  have hmod : a &&& (2 ^ 3 - 1) = a % 2 ^ 3 := Nat.and_two_pow_sub_one_eq_mod a 3
  rw [show 2 ^ 3 - 1 = 7 by rfl, h] at hmod
  exact Nat.dvd_of_mod_eq_zero hmod.symm

theorem copyRun_memcpy (b : Bus) (dest src n : Nat) : CopyRun b (pciSysfsMemcpy dest src n b) dest src n := by
  unfold pciSysfsMemcpy
  split
  · exact copyRun_slow n dest src b
  · next haligned =>
    obtain ⟨hdest, hsrc⟩ := not_or.mp haligned
    obtain ⟨k, r, b', hrun, rfl, hcopy⟩ := copyRun_words n dest src b
      (eight_dvd_of_and (not_not.mp hdest)) (eight_dvd_of_and (not_not.mp hsrc))
    rw [hrun]
    dsimp only
    split
    · exact hcopy.append (copyRun_slow r _ _ b')
    · next hr =>
      obtain rfl : r = 0 := by omega
      exact hcopy

/-- **The two copies are one.** They leave the same memory, which has the bytes of the source at the
destination and is as before elsewhere, and whatever is accessed as a word is aligned and in one of the two
ranges. -/
theorem pciSysfsMemcpy_eq (b : Bus) (dest src n : Nat) (hdisj : Disjoint (span src n) (span dest n)) :
    (pciSysfsMemcpy dest src n b).bytes = (pciSysfsMemcpySlow dest src n b).bytes ∧
      Copied b.bytes (pciSysfsMemcpy dest src n b).bytes dest src n ∧
      ∃ new, (pciSysfsMemcpy dest src n b).accesses = b.accesses ++ new ∧
        ∀ x ∈ new, x.Proper dest src n := by
  have hfast := copyRun_memcpy b dest src n
  have hslow := copyRun_slow n dest src b
  refine ⟨?_, hfast.copied hdisj, hfast.accesses⟩
  rw [copied_iff.mp (hfast.copied hdisj), copied_iff.mp (hslow.copied hdisj)]

/-- Thirteen bytes: one word and five bytes. -/
theorem thirteen_bytes :
    (pciSysfsMemcpy 0x40 0x10 13 ⟨fun a => UInt8.ofNat a, []⟩).bytes =
        (pciSysfsMemcpySlow 0x40 0x10 13 ⟨fun a => UInt8.ofNat a, []⟩).bytes ∧
      Copied (fun a => UInt8.ofNat a) (pciSysfsMemcpy 0x40 0x10 13 ⟨fun a => UInt8.ofNat a, []⟩).bytes
        0x40 0x10 13 ∧
      ∃ new, (pciSysfsMemcpy 0x40 0x10 13 ⟨fun a => UInt8.ofNat a, []⟩).accesses = [] ++ new ∧
        ∀ x ∈ new, x.Proper 0x40 0x10 13 :=
  pciSysfsMemcpy_eq _ 0x40 0x10 13 (span_disjoint_of_le (by decide))

end BaremetalCrt
