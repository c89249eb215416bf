/-
# BaremetalCrt.Lib.Lockstep — two runs side by side.

`Lockstep P Q m m'` is about two programs from states that `P` relates: they end alike, both with the same
value or both with the same error, in states that `Q` relates.  What the relations leave open may differ
between the runs, so that a program in lockstep with itself does not let it show; `Blind` is that case, for
a part of the state that can be replaced.
-/
import BaremetalCrt.Lib.Exec

namespace BaremetalCrt.Lib.Exec

universe u v w

variable {σ : Type u} {ε : Type v} {α β : Type w}

/-- From related states the programs end alike, in related states. -/
def Lockstep (P Q : σ → σ → Prop) (m m' : Exec σ ε α) : Prop :=
  ∀ s s', P s s' → (m' s').1 = (m s).1 ∧ Q (m s).2 (m' s').2

variable {P Q R : σ → σ → Prop} {m m' n n' : Exec σ ε α} {f f' : α → Exec σ ε β}

namespace Lockstep

/-- The rule of consequence. -/
theorem mono {P' Q' : σ → σ → Prop} (h : Lockstep P Q m m') (hP : ∀ s s', P' s s' → P s s')
    (hQ : ∀ s s', Q s s' → Q' s s') : Lockstep P' Q' m m' := by
  intro s s' hs
  obtain ⟨hret, hend⟩ := h s s' (hP s s' hs)
  exact ⟨hret, hQ _ _ hend⟩

theorem pure (a : α) : Lockstep P P (pure a : Exec σ ε α) (Pure.pure a) := fun _ _ h => ⟨rfl, h⟩

theorem exit (e : ε) : Lockstep P P (exit e : Exec σ ε α) (Exec.exit e) := fun _ _ h => ⟨rfl, h⟩

/-- The rule of composition; an error skips the second part of both. -/
theorem bind (hm : Lockstep P Q m m') (hQR : ∀ s s', Q s s' → R s s')
    (hf : ∀ a, Lockstep Q R (f a) (f' a)) : Lockstep P R (m >>= f) (m' >>= f') := by
  intro s s' hs
  obtain ⟨hret, hend⟩ := hm s s' hs
  rw [bind_apply, bind_apply]
  rcases hr : m s with ⟨e | a, t⟩ <;> rcases hr' : m' s' with ⟨e' | a', t'⟩ <;> rw [hr, hr'] at hret hend
  · exact ⟨congrArg Except.error (Except.error.inj hret), hQR _ _ hend⟩
  · cases hret
  · cases hret
  · obtain rfl : a' = a := Except.ok.inj hret
    exact hf a' t t' hend

theorem ite {c : Prop} [Decidable c] (hm : Lockstep P Q m m') (hn : Lockstep P Q n n') :
    Lockstep P Q (if c then m else n) (if c then m' else n') := by
  by_cases h : c
  · rw [if_pos h, if_pos h]
    exact hm
  · rw [if_neg h, if_neg h]
    exact hn

/-- Both stop if `c` holds. -/
theorem refuse {c : Prop} [Decidable c] {e : ε} (hPQ : ∀ s s', P s s' → Q s s') (hm : Lockstep P Q m m') :
    Lockstep P Q (if c then Exec.exit e >>= fun (_ : PUnit) => m else m)
      (if c then Exec.exit e >>= fun (_ : PUnit) => m' else m') :=
  .ite (.bind (.exit e) hPQ fun _ => hm) hm

theorem modify {g g' : σ → σ} (h : ∀ s s', P s s' → Q (g s) (g' s')) :
    Lockstep P Q (modify g : Exec σ ε PUnit) (Exec.modify g') := fun s s' hs => ⟨rfl, h s s' hs⟩

/-- What is computed from the state is the same; the second part knows what it is. -/
theorem bind_gets {g : σ → α} (hg : ∀ s s', P s s' → g s' = g s)
    (hf : ∀ a, Lockstep (fun s s' => P s s' ∧ g s = a) Q (f a) (f' a)) :
    Lockstep P Q (gets g >>= f) (gets g >>= f') := by
  intro s s' hs
  rw [bind_ok (gets_apply ..), bind_ok (gets_apply ..), hg s s' hs]
  exact hf (g s) s s' ⟨hs, rfl⟩

theorem attempt (h : Lockstep P Q m m') : Lockstep P Q (attempt m) (Exec.attempt m') := fun s s' hs =>
  ⟨congrArg Except.ok (h s s' hs).1, (h s s' hs).2⟩

end Lockstep

/-! ## Programs that do not see a part of the state -/

section Blind

variable {γ : Type*} (set : σ → γ → σ)

/-- The states are the same but for the part that `set` replaces. -/
def UpTo (s s' : σ) : Prop := ∃ b, s' = set s b

/-- The program does not see the part that `set` replaces: with another one it ends in the same way, and
in the same state up to that part. -/
def Blind (m : Exec σ ε α) : Prop := Lockstep (UpTo set) (UpTo set) m m

namespace Blind

variable {set}

theorem pure (a : α) : Blind set (pure a : Exec σ ε α) := Lockstep.pure a

theorem exit (e : ε) : Blind set (exit e : Exec σ ε α) := Lockstep.exit e

theorem bind (hm : Blind set m) (hf : ∀ a, Blind set (f a)) : Blind set (m >>= f) :=
  Lockstep.bind hm (fun _ _ h => h) hf

theorem ite {c : Prop} [Decidable c] (hm : Blind set m) (hn : Blind set n) :
    Blind set (if c then m else n) := Lockstep.ite hm hn

/-- A program that stops if `c` holds. -/
theorem refuse {c : Prop} [Decidable c] {e : ε} (hm : Blind set m) :
    Blind set (if c then Exec.exit e >>= fun (_ : PUnit) => m else m) := Lockstep.refuse (fun _ _ h => h) hm

theorem attempt (hm : Blind set m) : Blind set (attempt m) := Lockstep.attempt hm

/-- A question that is not about the part. -/
theorem answer {r : σ → Except ε α} (hr : ∀ s b, r (set s b) = r s) :
    Blind set (fun s => (r s, s) : Exec σ ε α) := by
  rintro s s' ⟨b, rfl⟩
  exact ⟨hr s b, b, rfl⟩

theorem modify {g : σ → σ} (hg : ∀ s b, UpTo set (g s) (g (set s b))) :
    Blind set (modify g : Exec σ ε PUnit) := by
  rintro s s' ⟨b, rfl⟩
  exact ⟨rfl, hg s b⟩

theorem gets_bind {g : σ → α} (hg : ∀ s b, g (set s b) = g s) (hf : ∀ a, Blind set (f a)) :
    Blind set (gets g >>= f) := bind (m := gets g) (answer fun s b => congrArg Except.ok (hg s b)) hf

end Blind

end Blind

end BaremetalCrt.Lib.Exec
