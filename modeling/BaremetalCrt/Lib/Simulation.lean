/-
# BaremetalCrt.Lib.Simulation — one program does what another does, over another state.

`Simulates G R m n` is about two programs over two states that `R` relates: they end alike, with the same
value or the same error, in states that `R` relates again.  The guard `G` is asked of the state that the
first one leaves, and is handed back for the one it started from; so a guard that says what a run has done
so far is asked once, at the end, and is there for every part of the run (`Simulates.bind`).
-/
import BaremetalCrt.Lib.Exec
import Mathlib.Data.Option.Basic

namespace BaremetalCrt.Lib.Exec

universe u u' v w

variable {σ : Type u} {τ : Type u'} {ε : Type v} {α β : Type w}

/-- While the guard holds, `n` does from related states what `m` does. -/
def Simulates (G : σ → Prop) (R : σ → τ → Prop) (m : Exec σ ε α) (n : Exec τ ε α) : Prop :=
  ∀ s, G (m s).2 → G s ∧ ∀ t, R s t → (n t).1 = (m s).1 ∧ R (m s).2 (n t).2

namespace Simulates

variable {G : σ → Prop} {R : σ → τ → Prop} {m m' : Exec σ ε α} {n n' : Exec τ ε α}

/-- A part that leaves both states alone. -/
theorem answer {f : σ → Except ε α} {g : τ → Except ε α} (h : ∀ s t, R s t → g t = f s) :
    Simulates G R (fun s => (f s, s)) fun t => (g t, t) :=
  fun s hs => ⟨hs, fun t hR => ⟨h s t hR, hR⟩⟩

theorem pure (a : α) : Simulates G R (pure a : Exec σ ε α) (Pure.pure a) := answer fun _ _ _ => rfl

theorem exit (e : ε) : Simulates G R (exit e : Exec σ ε α) (Exec.exit e) := answer fun _ _ _ => rfl

theorem gets {f : σ → α} {g : τ → α} (h : ∀ s t, R s t → g t = f s) :
    Simulates G R (gets f : Exec σ ε α) (Exec.gets g) := answer fun s t hR => congrArg _ (h s t hR)

theorem modify {f : σ → σ} {g : τ → τ} (hG : ∀ s, G (f s) → G s) (hR : ∀ s t, R s t → R (f s) (g t)) :
    Simulates G R (modify f : Exec σ ε PUnit) (Exec.modify g) :=
  fun s hs => ⟨hG s hs, fun t h => ⟨rfl, hR s t h⟩⟩

/-- The rule of composition; an error skips the second part of both. -/
theorem bind {f : α → Exec σ ε β} {g : α → Exec τ ε β} (hm : Simulates G R m n)
    (hf : ∀ a, Simulates G R (f a) (g a)) : Simulates G R (m >>= f) (n >>= g) := by
  intro s hend
  rw [bind_apply] at hend ⊢
  have hms := hm s
  rcases hrun : m s with ⟨e | a, s₁⟩ <;> rw [hrun] at hend hms
  · refine ⟨(hms hend).1, fun t hR => ?_⟩
    obtain ⟨hret, hR₁⟩ := (hms hend).2 t hR
    rw [bind_error (Prod.ext hret rfl)]
    exact ⟨rfl, hR₁⟩
  · -- the guard goes back over the second part, and then over the first
    obtain ⟨hmid, hrest⟩ := hf a s₁ hend
    refine ⟨(hms hmid).1, fun t hR => ?_⟩
    obtain ⟨hret, hR₁⟩ := (hms hmid).2 t hR
    rw [bind_ok (Prod.ext hret rfl)]
    exact hrest _ hR₁

theorem ite {c : Prop} [Decidable c] (hm : Simulates G R m n) (hn : Simulates G R m' n') :
    Simulates G R (if c then m else m') (if c then n else n') := by
  by_cases h : c
  · rw [if_pos h, if_pos h]
    exact hm
  · rw [if_neg h, if_neg h]
    exact hn

/-- Both stop if `c` holds. -/
theorem refuse {c : Prop} [Decidable c] {e : ε} (hm : Simulates G R m n) :
    Simulates G R (if c then Exec.exit e >>= fun (_ : PUnit) => m else m)
      (if c then Exec.exit e >>= fun (_ : PUnit) => n else n) :=
  ite (bind (exit e) fun _ => hm) hm

theorem attempt (h : Simulates G R m n) : Simulates G R (attempt m) (Exec.attempt n) := fun s hs =>
  ⟨(h s hs).1, fun t hR => ⟨congrArg Except.ok ((h s hs).2 t hR).1, ((h s hs).2 t hR).2⟩⟩

end Simulates

end BaremetalCrt.Lib.Exec
