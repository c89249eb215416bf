/-
# BaremetalCrt.Lib.Overwrite — runs of operations that overwrite places.

`Run R a ops b` carries a list of operations out, one step of the relation `R` for each.  When every step
gives the places that it covers their new values and leaves the others alone (`Overwrites`), a place holds
after a run what the last operation that covers it put there, or what it held before.

The value of a place is read off the operations backwards. It is stated for operations of any kind, places
of any type and a relation between the states, so that it applies to stores to memory and to records of an
array alike.
-/
import Mathlib.Data.List.Basic
import Mathlib.Tactic.Common

namespace BaremetalCrt.Lib

universe u v w x
variable {σ : Type u} {ω : Type v} {κ : Type w} {β : Type x}

/-! ## Runs -/

/-- The operations `ops`, in order, lead from `a` to `b`. -/
inductive Run (R : σ → ω → σ → Prop) : σ → List ω → σ → Prop
  | nil (a : σ) : Run R a [] a
  | cons {a b c : σ} {o : ω} {ops : List ω} (step : R a o b) (rest : Run R b ops c) :
      Run R a (o :: ops) c

variable {R : σ → ω → σ → Prop} {a b c : σ} {ops ops' : List ω} {o : ω}

/-- A run is cut anywhere. -/
theorem Run.split (h : Run R a (ops ++ ops') c) : ∃ b, Run R a ops b ∧ Run R b ops' c := by
  induction ops generalizing a with
  | nil => exact ⟨a, .nil a, h⟩
  | cons o ops ih =>
    cases h with
    | cons step rest =>
      obtain ⟨b, hops, hops'⟩ := ih rest
      exact ⟨b, .cons step hops, hops'⟩

/-- What every step keeps, a run keeps. -/
theorem Run.invariant {I : σ → Prop} (h : Run R a ops b) (hstep : ∀ a o b, o ∈ ops → I a → R a o b → I b)
    (ha : I a) : I b := by
  induction h with
  | nil a => exact ha
  | cons step rest ih =>
    apply ih
    · exact fun a o b ho => hstep a o b (List.mem_cons_of_mem _ ho)
    · exact hstep _ _ _ (List.mem_cons_self ..) ha step

/-! ## Overwriting -/

/-- In the states of `I`, a step gives the place `k` what `put` says, and leaves it alone where `put` says
nothing. -/
structure Overwrites (R : σ → ω → σ → Prop) (I : σ → Prop) (get : σ → κ → β)
    (put : σ → ω → κ → Option β) : Prop where
  keeps : ∀ {a o b}, I a → R a o b → I b
  get_step : ∀ {a o b}, I a → R a o b → ∀ k, get b k = (put a o k).getD (get a k)

namespace Overwrites

variable {I : σ → Prop} {get : σ → κ → β} {put : σ → ω → κ → Option β} {k : κ}
  (h : Overwrites R I get put)
include h

theorem keeps_run (hrun : Run R a ops b) (ha : I a) : I b :=
  hrun.invariant (fun _ _ _ _ => h.keeps) ha

/-- A place that no operation of the run covers is left alone. -/
theorem get_run_of_none (hrun : Run R a ops b) (ha : I a) (hnone : ∀ o ∈ ops, ∀ s, put s o k = none) :
    get b k = get a k := by
  induction hrun with
  | nil a => rfl
  | cons step rest ih =>
    rw [ih (h.keeps ha step) fun o ho => hnone o (List.mem_cons_of_mem _ ho), h.get_step ha step,
      hnone _ (List.mem_cons_self ..), Option.getD_none]

/-- **The last write wins.** A place holds what the last operation that covers it put there. -/
theorem get_run_last {v : β} (hpre : Run R a ops b) (hstep : R b o c) {d : σ} (hpost : Run R c ops' d)
    (ha : I a) (hput : put b o k = some v) (hnone : ∀ o ∈ ops', ∀ s, put s o k = none) : get d k = v := by
  have hb := h.keeps_run hpre ha
  rw [h.get_run_of_none hpost (h.keeps hb hstep) hnone, h.get_step hb hstep, hput, Option.getD_some]

end Overwrites

end BaremetalCrt.Lib
