/-
# BaremetalCrt.Lib.Copy — copies between ranges of a memory.

A copy is known by what it leaves: the bytes of the source at the destination, and everything else as it
was.  Between ranges that do not overlap it is made in parts, since each part leaves the rest of the source
alone.

`Copied` says so of two memories. It is composed out of parts in either order (`Copied.append`), and
determines the second memory, so that two copies of one range are the same whatever the width of their
accesses was.
-/
import BaremetalCrt.Lib.Bytes

namespace BaremetalCrt.Lib

/-! ## Parts of a range -/

theorem span_subset_left (a k n : Nat) : span a k ⊆ span a (k + n) := fun x hx => by
  simp only [mem_span] at hx ⊢
  omega

theorem span_subset_right (a k n : Nat) : span (a + k) n ⊆ span a (k + n) := fun x hx => by
  simp only [mem_span] at hx ⊢
  omega

/-- What is left of two ranges that do not overlap. -/
theorem disjoint_rest {dest src k n : Nat} (hdisj : Disjoint (span src (k + n)) (span dest (k + n))) :
    Disjoint (span (src + k) n) (span (dest + k) n) :=
  hdisj.mono (span_subset_right ..) (span_subset_right ..)

theorem ByteMap.load_add (m : ByteMap) (a k n : Nat) : m.load a (k + n) = m.load a k ++ m.load (a + k) n := by
  simp only [load, List.range_add, List.map_append, List.map_map]
  congr 1
  exact List.map_congr_left fun i _ => by simp only [Function.comp_apply, Nat.add_assoc]

/-! ## Copies -/

/-- The bytes of the source are at the destination, and nothing else has changed. -/
structure Copied (m m' : ByteMap) (dest src n : Nat) : Prop where
  copied : m'.load dest n = m.load src n
  frame : ∀ x ∉ span dest n, m' x = m x

theorem copied_iff {m m' : ByteMap} {dest src n : Nat} :
    Copied m m' dest src n ↔ m' = m.store dest (m.load src n) := by
  constructor
  · intro h
    funext x
    by_cases hx : x ∈ span dest n
    · obtain ⟨hlo, hhi⟩ := mem_span.mp hx
      have hi : x - dest < n := by omega
      have hat : m' (dest + (x - dest)) = m (src + (x - dest)) := ByteMap.apply_eq_of_load_eq h.copied hi
      have hlen : x - dest < (m.load src n).length := by rwa [ByteMap.length_load]
      have hstore := ByteMap.store_at m (a := dest) hlen
      rw [ByteMap.getElem_load, Nat.add_sub_cancel' hlo] at hstore
      rw [hstore, ← hat, Nat.add_sub_cancel' hlo]
    · rw [h.frame x hx, ByteMap.store_of_notMem]
      rwa [ByteMap.length_load]
  · rintro rfl
    refine ⟨?_, fun x hx => ByteMap.store_of_notMem m (by rwa [ByteMap.length_load])⟩
    have hload := m.load_store dest (m.load src n)
    rwa [ByteMap.length_load] at hload

/-- A copy of `k` bytes and then of the `n` bytes behind them. -/
theorem Copied.append {m m' m'' : ByteMap} {dest src k n : Nat}
    (hdisj : Disjoint (span src (k + n)) (span dest (k + n))) (h : Copied m m' dest src k)
    (h' : Copied m' m'' (dest + k) (src + k) n) : Copied m m'' dest src (k + n) := by
  -- the first part has not reached the rest of the source
  have hsource : m'.load (src + k) n = m.load (src + k) n := by
    refine ByteMap.load_congr fun x hx => h.frame x fun hx' => ?_
    have hsrc : x ∈ span src (k + n) := span_subset_right _ _ _ hx
    have hdest : x ∈ span dest (k + n) := span_subset_left _ _ _ hx'
    exact Set.disjoint_left.mp hdisj hsrc hdest
  rw [copied_iff] at h h' ⊢
  rw [h', hsource, h, ByteMap.load_add, ByteMap.store_append, ByteMap.length_load]

theorem copied_zero (m : ByteMap) (dest src : Nat) : Copied m m dest src 0 :=
  ⟨rfl, fun _ _ => rfl⟩

end BaremetalCrt.Lib
