/-
# BaremetalCrt.Lib.Spares — what a program leaves alone, unless its log says otherwise.

A thing is there (`on`), it has a view, and a log is kept of what is done to things of its kind.  A program
spares the thing when it only adds to the log, and the thing is still there with the same view as long as
nothing that was added hits it.  When it is not there to begin with, nothing is said but that the log grows;
so a part of a program that works on a thing of its own spares all others that were there before
(`Spares.bind_of_ok`).
-/
import BaremetalCrt.Lib.Exec
import Mathlib.Data.List.Infix

namespace BaremetalCrt.Lib.Exec

universe u v w x y

variable {σ : Type u} {ε : Type v} {α β : Type w} {κ : Type x} {γ : Type y}

/-- Nothing is taken out of the log: what was on record stays in front. -/
def Grows (log : σ → List κ) (s s' : σ) : Prop := log s <+: log s'

/-- The log grows, and what is there stays as it is, unless it is hit. -/
def Spares (log : σ → List κ) (hit : κ → Prop) (on : σ → Prop) (view : σ → γ) (s s' : σ) : Prop :=
  ∃ es, log s' = log s ++ es ∧ (on s → (∀ e ∈ es, ¬ hit e) → on s' ∧ view s' = view s)

variable {log : σ → List κ} {hit : κ → Prop} {on : σ → Prop} {view : σ → γ}

theorem Grows.trans (a b c : σ) (hab : Grows log a b) (hbc : Grows log b c) : Grows log a c :=
  List.IsPrefix.trans hab hbc

/-- A refusal in front. -/
theorem Keeps.refuse {R : σ → σ → Prop} (hrefl : ∀ a, R a a) {c : Prop} [Decidable c] {e : ε}
    {m : Exec σ ε α} (hm : Keeps R m) :
    Keeps R (if c then exit e >>= fun (_ : PUnit) => m else m) := .ite hrefl hm

theorem Keeps.attempt {R : σ → σ → Prop} {m : Exec σ ε α} (hm : Keeps R m) : Keeps R (attempt m) := hm

namespace Spares

theorem refl (s : σ) : Spares log hit on view s s := ⟨[], (List.append_nil _).symm, fun h _ => ⟨h, rfl⟩⟩

theorem trans (a b c : σ) (hab : Spares log hit on view a b) (hbc : Spares log hit on view b c) :
    Spares log hit on view a c := by
  obtain ⟨es, hes, hab⟩ := hab
  obtain ⟨fs, hfs, hbc⟩ := hbc
  refine ⟨es ++ fs, by rw [hfs, hes, List.append_assoc], fun ha hno => ?_⟩
  obtain ⟨hb, hview⟩ := hab ha fun e he => hno e (List.mem_append_left _ he)
  obtain ⟨hc, hview'⟩ := hbc hb fun e he => hno e (List.mem_append_right _ he)
  exact ⟨hc, hview'.trans hview⟩

theorem grows {s s' : σ} (h : Spares log hit on view s s') : Grows log s s' := by
  obtain ⟨es, hes, -⟩ := h
  exact ⟨es, hes.symm⟩

/-- A step that leaves the log alone. -/
theorem of_log {s s' : σ} (hlog : log s' = log s) (h : on s → on s' ∧ view s' = view s) :
    Spares log hit on view s s' := ⟨[], by rw [hlog, List.append_nil], fun hs _ => h hs⟩

/-- What is not there need not be spared. -/
theorem of_not_on {s s' : σ} (hgrows : Grows log s s') (hs : ¬ on s) : Spares log hit on view s s' := by
  obtain ⟨es, hes⟩ := hgrows
  exact ⟨es, hes.symm, fun h => absurd h hs⟩

/-- What was not hit is still there. -/
theorem kept {s s' : σ} (h : Spares log hit on view s s') (hs : on s)
    (hno : ∀ e ∈ (log s').drop (log s).length, ¬ hit e) : on s' ∧ view s' = view s := by
  obtain ⟨es, hes, hkept⟩ := h
  refine hkept hs fun e he => hno e ?_
  rwa [hes, List.drop_left]

/-- The rule of composition for a first part that returns something new: the second part need not spare a
thing that was not there. -/
theorem bind_of_ok {m : Exec σ ε α} {f : α → Exec σ ε β} (hm : Keeps (Spares log hit on view) m)
    (hgrows : ∀ a, Keeps (Grows log) (f a))
    (hf : ∀ s a s', on s → m s = (.ok a, s') → Keeps (Spares log hit on view) (f a)) :
    Keeps (Spares log hit on view) (m >>= f) := by
  intro s
  have hms := hm s
  rw [bind_apply]
  rcases hrun : m s with ⟨e | a, s'⟩ <;> rw [hrun] at hms
  · exact hms
  · by_cases hs : on s
    · exact hms.trans _ _ _ (hf s a s' hs hrun s')
    · exact .of_not_on (hms.grows.trans _ _ _ (hgrows a s')) hs

end Spares

end BaremetalCrt.Lib.Exec
