/-
# BaremetalCrt.Lib.Window — a memory seen through windows.

A window shows a range of addresses at an image of it in some other memory.  Windows that are apart show one
flat memory together: a load or a store at the image of a range is a load or a store of the range
(`Displays.load_in`, `Displays.store_in`), and what is done beside the images leaves the flat memory alone
(`Displays.store_out`).
-/
import BaremetalCrt.Lib.Bytes
import Mathlib.Data.List.Pairwise

namespace BaremetalCrt.Lib

/-- The addresses from `base` on are shown from `image` on. -/
structure Window where
  base : Nat
  image : Nat
  size : Nat
  deriving DecidableEq, Repr

namespace Window

/-- The window has the whole range: `n` addresses from `a` on. -/
def Has (w : Window) (a n : Nat) : Prop := w.base ≤ a ∧ a + n ≤ w.base + w.size

instance (w : Window) (a n : Nat) : Decidable (w.Has a n) := inferInstanceAs (Decidable (_ ∧ _))

/-- Where an address of the window is shown: as far behind the image's start as it is behind the base. -/
def place (w : Window) (a : Nat) : Nat := w.image + (a - w.base)

/-- Two windows have neither an address nor a place in common. -/
structure Apart (v w : Window) : Prop where
  bases : Disjoint (span v.base v.size) (span w.base w.size)
  images : Disjoint (span v.image v.size) (span w.image w.size)

instance : Std.Symm Apart := ⟨fun _ _ h => ⟨h.bases.symm, h.images.symm⟩⟩

theorem Has.span_place_subset {w : Window} {a n : Nat} (h : w.Has a n) :
    span (w.place a) n ⊆ span w.image w.size := by
  intro x hx
  obtain ⟨hlo, hhi⟩ := mem_span.mp hx
  unfold place at hlo hhi
  unfold Has at h
  exact mem_span.mpr ⟨by omega, by omega⟩

theorem Has.span_subset {w : Window} {a n : Nat} (h : w.Has a n) : span a n ⊆ span w.base w.size := by
  intro x hx
  obtain ⟨hlo, hhi⟩ := mem_span.mp hx
  unfold Has at h
  exact mem_span.mpr ⟨by omega, by omega⟩

/-- Part of a range that the window has. -/
theorem Has.part {w : Window} {a n k l : Nat} (h : w.Has a n) (hkl : k + l ≤ n) : w.Has (a + k) l := by
  unfold Has at h ⊢
  omega

theorem Has.place_add {w : Window} {a n : Nat} (h : w.Has a n) (k : Nat) : w.place (a + k) = w.place a + k := by
  unfold Has at h
  unfold place
  omega

end Window

/-- The range `p`, `n` of the memory is at no place where a window is shown. -/
def Beside (ws : List Window) (p n : Nat) : Prop := ∀ w ∈ ws, Disjoint (span p n) (span w.image w.size)

/-- The memory `m` shows `flat` in the windows, and is `rest` beside them. -/
structure Displays (ws : List Window) (m flat rest : ByteMap) : Prop where
  inside : ∀ w ∈ ws, ∀ i, i < w.size → m (w.image + i) = flat (w.base + i)
  outside : ∀ x, (∀ w ∈ ws, x ∉ span w.image w.size) → m x = rest x

/-- What the windows show of a memory, as a memory of its own; where there is no window it reads zero. -/
def flatOf (ws : List Window) (m : ByteMap) : ByteMap := fun a =>
  match ws.find? fun w => decide (w.Has a 1) with
  | some w => m (w.place a)
  | none => 0

section Displays

variable {ws : List Window} {m flat rest : ByteMap} {w : Window} {a n p : Nat} {bs : List UInt8}

/-- Windows that are apart show some flat memory. -/
theorem displays_flatOf (hapart : ws.Pairwise Window.Apart) (m : ByteMap) : Displays ws m (flatOf ws m) m where
  inside w hw i hi := by
    have hhas : w.Has (w.base + i) 1 := ⟨by omega, by omega⟩
    unfold flatOf
    cases hfind : ws.find? fun w' => decide (w'.Has (w.base + i) 1) with
    | none => exact absurd (decide_eq_true hhas) (List.find?_eq_none.mp hfind w hw)
    | some v =>
      have hfound := List.find?_some hfind
      have hv : v.Has (w.base + i) 1 := of_decide_eq_true hfound
      -- the window that is found is this one
      obtain rfl : v = w := by
        by_contra hne
        have hdisj := hapart.forall (List.mem_of_find?_eq_some hfind) hw hne
        have hself : w.base + i ∈ span (w.base + i) 1 := mem_span.mpr ⟨Nat.le_refl _, Nat.lt_succ_self _⟩
        exact Set.disjoint_left.mp hdisj.bases (hv.span_subset hself) (hhas.span_subset hself)
      show m _ = m (v.image + (v.base + i - v.base))
      rw [Nat.add_sub_cancel_left]
  outside _ _ := rfl

variable (h : Displays ws m flat rest)
include h

theorem Displays.load_in (hw : w ∈ ws) (ha : w.Has a n) : m.load (w.place a) n = flat.load a n := by
  unfold ByteMap.load
  refine List.map_congr_left fun i hi => ?_
  have hlt := List.mem_range.mp hi
  unfold Window.Has at ha
  have hin := h.inside w hw (a - w.base + i) (by omega)
  rw [← Nat.add_assoc, ← Nat.add_assoc, Nat.add_sub_cancel' ha.1] at hin
  exact hin

theorem Displays.load_out (hp : Beside ws p n) : m.load p n = rest.load p n :=
  ByteMap.load_congr fun x hx => h.outside x fun w hw => Set.disjoint_left.mp (hp w hw) hx

/-- A store in a window is a store to the flat memory. -/
theorem Displays.store_in (hapart : ws.Pairwise Window.Apart) (hw : w ∈ ws) (ha : w.Has a bs.length) :
    Displays ws (m.store (w.place a) bs) (flat.store a bs) rest where
  inside v hv i hi := by
    by_cases hvw : v = w
    · subst hvw
      have hbyte := h.inside v hv i hi
      unfold Window.Has at ha
      have hiff : v.place a ≤ v.image + i ↔ a ≤ v.base + i := by
        unfold Window.place
        omega
      have hsub : v.image + i - v.place a = v.base + i - a := by
        unfold Window.place
        omega
      simp only [ByteMap.store, hiff, hsub, hbyte]
    · have hdisj := hapart.forall hv hw hvw
      rw [ByteMap.store_of_notMem, ByteMap.store_of_notMem]
      · exact h.inside v hv i hi
      · have hv' : v.base + i ∈ span v.base v.size := mem_span.mpr ⟨Nat.le_add_right _ _, by omega⟩
        exact fun hx => Set.disjoint_left.mp hdisj.bases hv' (ha.span_subset hx)
      · have hv' : v.image + i ∈ span v.image v.size := mem_span.mpr ⟨Nat.le_add_right _ _, by omega⟩
        exact fun hx => Set.disjoint_left.mp hdisj.images hv' (ha.span_place_subset hx)
  outside x hx := by
    rw [ByteMap.store_of_notMem]
    · exact h.outside x hx
    · exact fun hin => hx w hw (ha.span_place_subset hin)

/-- A store beside the windows leaves the flat memory alone. -/
theorem Displays.store_out (hp : Beside ws p bs.length) :
    Displays ws (m.store p bs) flat (rest.store p bs) where
  inside w hw i hi := by
    rw [ByteMap.store_of_notMem]
    · exact h.inside w hw i hi
    · have hw' : w.image + i ∈ span w.image w.size := mem_span.mpr ⟨Nat.le_add_right _ _, by omega⟩
      exact fun hx => Set.disjoint_left.mp (hp w hw) hx hw'
  outside x hx := by
    have hbyte := h.outside x hx
    simp only [ByteMap.store, hbyte]

end Displays

end BaremetalCrt.Lib
