/-
# BaremetalCrt.Lib.Exec — programs over an explicit state that can stop early.

`Exec σ ε α` is a function from a state to a result (a value, or the code the program stopped with)
and the state it leaves.  The state survives a stop: whatever was done before an early `return` of
an error code stays done, which is what every statement about a partial run is about.

`wp` is the weakest precondition of a program for a pair of postconditions, one for the value and
one for the stop; `Keeps R` says that a whole run moves the state only as the relation `R` allows.
-/
import Mathlib.Logic.Basic
import Mathlib.Tactic.Common

namespace BaremetalCrt.Lib

universe u v w

/-- A program over the state `σ` that returns an `α` or stops with an `ε`. -/
def Exec (σ : Type u) (ε : Type v) (α : Type w) := σ → Except ε α × σ

namespace Exec

variable {σ : Type u} {ε : Type v} {α β γ : Type w}

/-- Stop with `e`, keeping the state: nothing behind it is carried out. -/
def exit (e : ε) : Exec σ ε α := fun s => (.error e, s)

/-- Sequential composition: a stop skips the continuation. -/
protected def bind (m : Exec σ ε α) (f : α → Exec σ ε β) : Exec σ ε β := fun s =>
  match m s with
  | (.ok a, s') => f a s'
  | (.error e, s') => (.error e, s')

instance : Monad (Exec σ ε) where
  pure a := fun s => (.ok a, s)
  bind := Exec.bind

/-- Read something off the state, which stays as it is. -/
def gets (f : σ → α) : Exec σ ε α := fun s => (.ok (f s), s)

/-- Change the state, with no result. -/
def modify (f : σ → σ) : Exec σ ε PUnit := fun s => (.ok ⟨⟩, f s)

/-- Continue with a value, or stop with the error, computed beforehand. -/
def lift (r : Except ε α) : Exec σ ε α := fun s => (r, s)

/-- Go on whether the program returned or stopped, with what it ended with. -/
def attempt (m : Exec σ ε α) : Exec σ ε (Except ε α) := fun s => (.ok (m s).1, (m s).2)

@[simp] theorem pure_apply (a : α) (s : σ) : (pure a : Exec σ ε α) s = (.ok a, s) := rfl

@[simp] theorem exit_apply (e : ε) (s : σ) : (exit e : Exec σ ε α) s = (.error e, s) := rfl

@[simp] theorem gets_apply (f : σ → α) (s : σ) : (gets f : Exec σ ε α) s = (.ok (f s), s) := rfl

@[simp] theorem modify_apply (f : σ → σ) (s : σ) :
    (modify f : Exec σ ε PUnit) s = (.ok ⟨⟩, f s) := rfl

@[simp] theorem lift_apply (r : Except ε α) (s : σ) : (lift r : Exec σ ε α) s = (r, s) := rfl

theorem bind_apply (m : Exec σ ε α) (f : α → Exec σ ε β) (s : σ) :
    (m >>= f) s = match m s with
      | (.ok a, s') => f a s'
      | (.error e, s') => (.error e, s') := rfl

theorem bind_ok {m : Exec σ ε α} {f : α → Exec σ ε β} {s s' : σ} {a : α}
    (h : m s = (.ok a, s')) : (m >>= f) s = f a s' := by
  rw [bind_apply, h]

theorem bind_error {m : Exec σ ε α} {f : α → Exec σ ε β} {s s' : σ} {e : ε}
    (h : m s = (.error e, s')) : (m >>= f) s = (.error e, s') := by
  rw [bind_apply, h]

/-- Two first parts that agree at a state can be exchanged there. -/
theorem bind_congr_left {m m' : Exec σ ε α} {s : σ} (h : m s = m' s) (f : α → Exec σ ε β) :
    (m >>= f) s = (m' >>= f) s := by
  rw [bind_apply, bind_apply, h]

@[simp] theorem exit_bind (e : ε) (f : α → Exec σ ε β) : (exit e >>= f) = exit e := rfl

@[simp] theorem lift_ok (a : α) : (lift (.ok a) : Exec σ ε α) = pure a := rfl

@[simp] theorem lift_error (e : ε) : (lift (.error e) : Exec σ ε α) = exit e := rfl

/-- A composition returns exactly when its first part does and the continuation does after it. -/
theorem bind_eq_ok {m : Exec σ ε α} {f : α → Exec σ ε β} {s s' : σ} {b : β} :
    (m >>= f) s = (.ok b, s') ↔ ∃ a t, m s = (.ok a, t) ∧ f a t = (.ok b, s') := by
  rw [bind_apply]
  constructor
  · intro h
    split at h
    · next a t hm => exact ⟨a, t, hm, h⟩
    · next e t hm => cases h
  · rintro ⟨a, t, hm, hf⟩
    rw [hm]
    exact hf

instance : LawfulMonad (Exec σ ε) :=
  LawfulMonad.mk' (Exec σ ε)
    (by
      intro α x
      funext s
      show Exec.bind x (fun a => pure a) s = x s
      unfold Exec.bind
      rcases x s with ⟨_ | _, _⟩ <;> rfl)
    (by intros; rfl)
    (by
      intro α β γ x f g
      funext s
      show Exec.bind (Exec.bind x f) g s = Exec.bind x (fun a => Exec.bind (f a) g) s
      unfold Exec.bind
      rcases x s with ⟨_ | _, _⟩ <;> rfl)

/-! ## Weakest preconditions -/

/-- `wp m Q E s`: run from `s`, the program ends in `Q` if it returns and in `E` if it stops. -/
def wp (m : Exec σ ε α) (Q : α → σ → Prop) (E : ε → σ → Prop) (s : σ) : Prop :=
  match m s with
  | (.ok a, s') => Q a s'
  | (.error e, s') => E e s'

variable {m : Exec σ ε α} {Q Q' : α → σ → Prop} {E E' : ε → σ → Prop} {s : σ}

@[simp] theorem wp_pure (a : α) : wp (pure a : Exec σ ε α) Q E s ↔ Q a s := Iff.rfl

@[simp] theorem wp_exit (e : ε) : wp (exit e : Exec σ ε α) Q E s ↔ E e s := Iff.rfl

@[simp] theorem wp_gets (f : σ → α) : wp (gets f : Exec σ ε α) Q E s ↔ Q (f s) s := Iff.rfl

@[simp] theorem wp_modify (f : σ → σ) {Q : PUnit → σ → Prop} :
    wp (modify f : Exec σ ε PUnit) Q E s ↔ Q ⟨⟩ (f s) := Iff.rfl

theorem wp_of_ok {a : α} {s' : σ} (h : m s = (.ok a, s')) : wp m Q E s ↔ Q a s' := by
  simp only [wp, h]

theorem wp_of_error {e : ε} {s' : σ} (h : m s = (.error e, s')) : wp m Q E s ↔ E e s' := by
  simp only [wp, h]

@[simp] theorem wp_lift_ok (a : α) : wp (lift (.ok a) : Exec σ ε α) Q E s ↔ Q a s := Iff.rfl

@[simp] theorem wp_lift_error (e : ε) : wp (lift (.error e) : Exec σ ε α) Q E s ↔ E e s := Iff.rfl

theorem wp_attempt (m : Exec σ ε α) {Q : Except ε α → σ → Prop} :
    wp (attempt m) Q E s ↔ wp m (fun a => Q (.ok a)) (fun e => Q (.error e)) s := by
  simp only [wp, attempt]
  rcases m s with ⟨_ | _, _⟩ <;> rfl

/-- The rule of composition. -/
theorem wp_bind (m : Exec σ ε α) (f : α → Exec σ ε β) {Q : β → σ → Prop} :
    wp (m >>= f) Q E s ↔ wp m (fun a s' => wp (f a) Q E s') E s := by
  simp only [wp, bind_apply]
  rcases m s with ⟨_ | _, _⟩ <;> rfl

/-- The rule of consequence. -/
theorem wp.mono (h : wp m Q E s) (hQ : ∀ a s', Q a s' → Q' a s') (hE : ∀ e s', E e s' → E' e s') :
    wp m Q' E' s := by
  unfold wp at h ⊢
  rcases hm : m s with ⟨_ | _, _⟩ <;> rw [hm] at h
  · exact hE _ _ h
  · exact hQ _ _ h

/-- The rule of conjunction. -/
theorem wp.and (h : wp m Q E s) (h' : wp m Q' E' s) :
    wp m (fun a s' => Q a s' ∧ Q' a s') (fun e s' => E e s' ∧ E' e s') s := by
  unfold wp at h h' ⊢
  rcases hm : m s with ⟨_ | _, _⟩ <;> rw [hm] at h h' <;> exact ⟨h, h'⟩

/-- A specification that decides the postcondition decides the precondition. -/
theorem wp.iff {c : Prop} (h : wp m Q E s) (hQ : ∀ a s', Q a s' → (Q' a s' ↔ c))
    (hE : ∀ e s', E e s' → (E' e s' ↔ c)) : wp m Q' E' s ↔ c := by
  unfold wp at h ⊢
  rcases hm : m s with ⟨_ | _, _⟩ <;> rw [hm] at h
  · exact hE _ _ h
  · exact hQ _ _ h

/-- What holds anyway holds of the outcome. -/
theorem wp_of_forall (hQ : ∀ a s', Q a s') (hE : ∀ e s', E e s') : wp m Q E s := by
  unfold wp
  rcases m s with ⟨_ | _, _⟩
  · exact hE _ _
  · exact hQ _ _

/-- A fact about the outcome, read off a run that returned. -/
theorem wp.ok (h : wp m Q E s) {a : α} {s' : σ} (hm : m s = (.ok a, s')) : Q a s' := by
  simpa only [wp, hm] using h

/-- A fact about the outcome, read off a run that stopped. -/
theorem wp.error (h : wp m Q E s) {e : ε} {s' : σ} (hm : m s = (.error e, s')) : E e s' := by
  simpa only [wp, hm] using h

/-- A fact about the state a run leaves, however it ends. -/
theorem wp_state {P : σ → Prop} : wp m (fun _ => P) (fun _ => P) s ↔ P (m s).2 := by
  unfold wp
  rcases m s with ⟨_ | _, _⟩ <;> rfl

/-- Both branches of a test. -/
theorem wp_ite {c : Prop} [Decidable c] {m n : Exec σ ε α} :
    wp (if c then m else n) Q E s ↔ (c → wp m Q E s) ∧ (¬ c → wp n Q E s) := by
  by_cases h : c <;> simp [h]

/-! ## Frames: what a run leaves alone -/

/-- A run changes nothing that `R` does not allow, whether it returns or stops. -/
def Keeps (R : σ → σ → Prop) (m : Exec σ ε α) : Prop := ∀ s, R s (m s).2

variable {R : σ → σ → Prop}

theorem Keeps.bind {f : α → Exec σ ε β} (htrans : ∀ a b c, R a b → R b c → R a c)
    (hm : Keeps R m) (hf : ∀ a, Keeps R (f a)) : Keeps R (m >>= f) := by
  intro s
  have hs := hm s
  rw [bind_apply]
  rcases hr : m s with ⟨_ | a, t⟩ <;> rw [hr] at hs
  · exact hs
  · exact htrans _ _ _ hs (hf a t)

theorem Keeps.ite {c : Prop} [Decidable c] {m n : Exec σ ε α} (hm : Keeps R m) (hn : Keeps R n) :
    Keeps R (if c then m else n) := by
  by_cases h : c <;> simp only [h, if_true, if_false] <;> assumption

theorem Keeps.of_refl (hrefl : ∀ a, R a a) {m : Exec σ ε α} (h : ∀ s, (m s).2 = s) :
    Keeps R m := fun s => by rw [h s]; exact hrefl s

end Exec

end BaremetalCrt.Lib
