/-
# BaremetalCrt.Lib.Follow — one program does what another does, as long as that one does not give up.

`Follows e R m n` is about two programs over two states that `R` relates.  The first may give up with `e`;
whenever it does not, the second ends as it does, with the same value or the same error, in states that `R`
relates again.  So a loop under a bound can be compared with the loop under a larger one, and with one that
has more to do in between: where the smaller bound is not reached, the larger one makes no difference.

`FollowsFrom` is the same from two given states, with a relation of its own behind the programs.
-/
import BaremetalCrt.Lib.Exec

namespace BaremetalCrt.Lib.Exec

universe u u' v w

variable {σ : Type u} {τ : Type u'} {ε : Type v} {α β : Type w}

/-- From these two states, `n` ends as `m` does unless `m` gives up. -/
def FollowsFrom (e : ε) (R : σ → τ → Prop) (s : σ) (t : τ) (m : Exec σ ε α) (n : Exec τ ε α) : Prop :=
  (m s).1 ≠ .error e → (n t).1 = (m s).1 ∧ R (m s).2 (n t).2

/-- From related states, `n` ends as `m` does unless `m` gives up. -/
def Follows (e : ε) (R : σ → τ → Prop) (m : Exec σ ε α) (n : Exec τ ε α) : Prop :=
  ∀ s t, R s t → FollowsFrom e R s t m n

variable {e : ε} {R S : σ → τ → Prop} {m m' : Exec σ ε α} {n n' : Exec τ ε α} {s s' : σ} {t t' : τ}

namespace FollowsFrom

/-- The rule of consequence. -/
theorem mono (h : FollowsFrom e S s t m n) (hSR : ∀ s t, S s t → R s t) : FollowsFrom e R s t m n :=
  fun hne => (h hne).imp id (hSR _ _)

/-- The first part of the second program has moved its state, and the first program waits. -/
theorem skip {n₀ : Exec τ ε α} (h : FollowsFrom e R s t' m n) (hn : n₀ t = n t') :
    FollowsFrom e R s t m n₀ := fun hne => by
  rw [hn]
  exact h hne

/-- Both programs have moved. -/
theorem step {m₀ : Exec σ ε α} {n₀ : Exec τ ε α} (h : FollowsFrom e R s' t' m n) (hm : m₀ s = m s')
    (hn : n₀ t = n t') : FollowsFrom e R s t m₀ n₀ := by
  unfold FollowsFrom
  rw [hm, hn]
  exact h

/-- The rule of composition; an error skips the second part of both. -/
theorem bind {f : α → Exec σ ε β} {g : α → Exec τ ε β} (hm : FollowsFrom e S s t m n)
    (hf : ∀ a s t, S s t → FollowsFrom e R s t (f a) (g a)) (hS : ∀ s t, S s t → R s t) :
    FollowsFrom e R s t (m >>= f) (n >>= g) := by
  unfold FollowsFrom at hm ⊢
  rw [bind_apply m]
  intro hne
  rcases hrun : m s with ⟨err | a, s₁⟩ <;> rw [hrun] at hne hm
  · have herr : err ≠ e := fun heq => hne (heq ▸ rfl)
    obtain ⟨hret, hrel⟩ := hm fun heq => herr (Except.error.inj heq)
    rw [bind_error (Prod.ext hret rfl)]
    exact ⟨rfl, hS _ _ hrel⟩
  · obtain ⟨hret, hrel⟩ := hm nofun
    rw [bind_ok (Prod.ext hret rfl)]
    exact hf a s₁ _ hrel hne

end FollowsFrom

namespace Follows

/-- Where the first program gives up at once, the second is free. -/
theorem giveUp (n : Exec τ ε α) : Follows e R (exit e) n := fun _ _ _ hne => absurd rfl hne

/-- A call that does to the second state what it does to the first. -/
theorem call {f : σ → α × σ} {g : τ → α × τ}
    (h : ∀ s t, R s t → (g t).1 = (f s).1 ∧ R (f s).2 (g t).2) :
    Follows e R (fun s => (.ok (f s).1, (f s).2)) fun t => (.ok (g t).1, (g t).2) :=
  fun s t hR _ => ⟨congrArg Except.ok (h s t hR).1, (h s t hR).2⟩

theorem pure (a : α) : Follows e R (pure a : Exec σ ε α) (Pure.pure a) := fun _ _ hR _ => ⟨rfl, hR⟩

theorem exit (err : ε) : Follows e R (exit err : Exec σ ε α) (Exec.exit err) := fun _ _ hR _ => ⟨rfl, hR⟩

/-- The rule of composition. -/
theorem bind {f : α → Exec σ ε β} {g : α → Exec τ ε β} (hm : Follows e R m n)
    (hf : ∀ a, Follows e R (f a) (g a)) : Follows e R (m >>= f) (n >>= g) :=
  fun s t hR => (hm s t hR).bind (fun a => hf a) fun _ _ h => h

theorem ite {c : Prop} [Decidable c] (hm : Follows e R m n) (hn : Follows e R m' n') :
    Follows e R (if c then m else m') (if c then n else n') := by
  by_cases h : c
  · rw [if_pos h, if_pos h]
    exact hm
  · rw [if_neg h, if_neg h]
    exact hn

/-- Both stop with an error if `c` holds. -/
theorem refuse {c : Prop} [Decidable c] {err : ε} (hm : Follows e R m n) :
    Follows e R (if c then Exec.exit err >>= fun (_ : PUnit) => m else m)
      (if c then Exec.exit err >>= fun (_ : PUnit) => n else n) :=
  ite (bind (exit err) fun _ => hm) hm

/-- The same for each of the items, one after the other. -/
theorem mapM {ι : Type w} {f : ι → Exec σ ε α} {g : ι → Exec τ ε α} (h : ∀ i, Follows e R (f i) (g i)) :
    ∀ items : List ι, Follows e R (items.mapM f) (items.mapM g)
  | [] => by
    rw [List.mapM_nil, List.mapM_nil]
    exact pure []
  | i :: items => by
    rw [List.mapM_cons, List.mapM_cons]
    exact bind (h i) fun a => bind (mapM h items) fun as => pure (a :: as)

end Follows

end BaremetalCrt.Lib.Exec
