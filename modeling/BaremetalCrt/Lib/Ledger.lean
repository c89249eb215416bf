/-
# BaremetalCrt.Lib.Ledger — who owns which block.

`live` says which blocks are allocated, and what for.  References are the places that hold the address
of a block (`0` for none); a reference owns its block when it leads to a live one of its kind and no
other reference leads there.  Blocks that nothing refers to are leaked, which is no harm to the others.

`Owns` is the invariant, over the references as a family. An allocation that is stored into an empty place
keeps it, and so does a release whose place is emptied, or whose object goes away with it; so a program that
moves along such steps never frees a block twice, nor one that is not its own.
-/
import Mathlib.Logic.Function.Basic
import Mathlib.Tactic.Common

namespace BaremetalCrt.Lib

universe u v
variable {κ : Type u} {ι : Type v} {live : Nat → Option κ} {ref : ι → Nat} {kind : ι → κ}

/-- Every reference leads to a live block of its kind, and no two lead to the same. -/
structure Owns (live : Nat → Option κ) (ref : ι → Nat) (kind : ι → κ) : Prop where
  live_ref : ∀ i, ref i ≠ 0 → live (ref i) = some (kind i)
  unshared : ∀ i j, ref i ≠ 0 → ref i = ref j → i = j

namespace Owns

variable (h : Owns live ref kind) {p q : Nat} {k : κ}
include h

/-- A block that is not live is referred to by none. -/
theorem ref_ne (hq : live q = none) (hzero : q ≠ 0) (i : ι) : ref i ≠ q := by
  rintro rfl
  rw [h.live_ref i hzero] at hq
  cases hq

/-- A new block belongs to nobody yet. -/
theorem alloc (hq : live q = none) (k : κ) : Owns (Function.update live q (some k)) ref kind where
  live_ref i hi := by
    have hne : ref i ≠ q := by
      rintro rfl
      rw [h.live_ref i hi] at hq
      cases hq
    rw [Function.update_of_ne hne, h.live_ref i hi]
  unshared := h.unshared

/-- A block of a kind that no reference is for can go. -/
theorem release (hp : live p = some k) (hk : ∀ i, kind i ≠ k) :
    Owns (Function.update live p none) ref kind where
  live_ref i hi := by
    have hne : ref i ≠ p := by
      rintro rfl
      rw [h.live_ref i hi] at hp
      exact hk i (Option.some.inj hp)
    rw [Function.update_of_ne hne, h.live_ref i hi]
  unshared := h.unshared

variable [DecidableEq ι] {i : ι}

/-- A block that a reference owns goes with the reference. -/
theorem drop (i : ι) : Owns (Function.update live (ref i) none) (Function.update ref i 0) kind where
  live_ref j hj := by
    by_cases hji : j = i
    · subst hji
      rw [Function.update_self] at hj
      exact absurd rfl hj
    · rw [Function.update_of_ne hji] at hj ⊢
      have hne : ref j ≠ ref i := fun heq => hji (h.unshared j i hj heq)
      rw [Function.update_of_ne hne, h.live_ref j hj]
  unshared j m hj heq := by
    by_cases hji : j = i
    · subst hji
      rw [Function.update_self] at hj
      exact absurd rfl hj
    · rw [Function.update_of_ne hji] at hj heq
      by_cases hmi : m = i
      · subst hmi
        rw [Function.update_self] at heq
        exact absurd heq hj
      · rw [Function.update_of_ne hmi] at heq
        exact h.unshared j m hj heq

/-- A reference that led nowhere takes a block that belongs to nobody. -/
theorem put (hi : ref i = 0) (hq : live q = some (kind i)) (hother : ∀ j, ref j ≠ q) :
    Owns live (Function.update ref i q) kind where
  live_ref j hj := by
    by_cases hji : j = i
    · subst hji
      rw [Function.update_self, hq]
    · rw [Function.update_of_ne hji] at hj ⊢
      exact h.live_ref j hj
  unshared j m hj heq := by
    by_cases hji : j = i
    · subst hji
      by_cases hmj : m = j
      · exact hmj.symm
      · rw [Function.update_self, Function.update_of_ne hmj] at heq
        exact absurd heq.symm (hother m)
    · rw [Function.update_of_ne hji] at hj heq
      by_cases hmi : m = i
      · subst hmi
        rw [Function.update_self] at heq
        exact absurd heq (hother j)
      · rw [Function.update_of_ne hmi] at heq
        exact h.unshared j m hj heq

/-- A reference lets its block go and takes another one. -/
theorem replace (hzero : q ≠ 0) (hq : live q = some (kind i)) (hother : ∀ j, ref j ≠ q) :
    Owns (Function.update live (ref i) none) (Function.update ref i q) kind := by
  have hput := (h.drop i).put (i := i) (q := q) (Function.update_self ..)
    (by rw [Function.update_of_ne (hother i).symm, hq])
    (fun j => by
      by_cases hji : j = i
      · subst hji
        rw [Function.update_self]
        exact hzero.symm
      · rw [Function.update_of_ne hji]
        exact hother j)
  rwa [Function.update_idem] at hput

end Owns

end BaremetalCrt.Lib
