/-
# BaremetalCrt.Lib.Trace — past-time properties of event lists.

A trace is the list of the events of a run, oldest first.  `EachAfter OK tr` says that every event
is allowed by the events before it; it is extended one event at a time (`eachAfter_snoc`), which is
how a run establishes it.  `latest p` is the most recent event of a kind, `since p` what came after
it and `earliest p` the first.  `Linked` says that the events leave no gap: nothing happened to the state
between them.
-/
import Mathlib.Data.List.Basic
import Mathlib.Tactic.Common

namespace BaremetalCrt.Lib

universe u v
variable {E : Type u}

/-- Every event of the trace is allowed by the events before it. -/
def EachAfter (OK : List E → E → Prop) (tr : List E) : Prop :=
  ∀ pre e post, tr = pre ++ e :: post → OK pre e

theorem eachAfter_nil (OK : List E → E → Prop) : EachAfter OK [] := by
  intro pre e post h
  simp at h

theorem eachAfter_snoc {OK : List E → E → Prop} {tr : List E} {e : E} :
    EachAfter OK (tr ++ [e]) ↔ EachAfter OK tr ∧ OK tr e := by
  constructor
  · intro h
    refine ⟨fun pre x post hx => h pre x (post ++ [e]) ?_, h tr e [] rfl⟩
    rw [hx, List.append_assoc, List.cons_append]
  · rintro ⟨htr, he⟩ pre x post hx
    rcases List.eq_nil_or_concat post with rfl | ⟨post', y, rfl⟩
    · obtain ⟨rfl, hxe⟩ := List.append_inj' hx rfl
      rw [← (List.cons.inj hxe).1]
      exact he
    · rw [List.concat_eq_append, ← List.cons_append, ← List.append_assoc] at hx
      exact htr pre x post' (List.append_inj' hx rfl).1

/-- The most recent event of a kind, if there is one in the trace. -/
def latest (p : E → Bool) (tr : List E) : Option E := tr.reverse.find? p

/-- The events after the most recent one of a kind (all of them when there is none). -/
def since (p : E → Bool) (tr : List E) : List E := (tr.reverse.takeWhile fun e => !p e).reverse

@[simp] theorem latest_nil (p : E → Bool) : latest p [] = none := rfl

@[simp] theorem since_nil (p : E → Bool) : since p [] = [] := rfl

theorem latest_snoc (p : E → Bool) (tr : List E) (e : E) :
    latest p (tr ++ [e]) = if p e then some e else latest p tr := by
  by_cases h : p e <;> simp [latest, h]

theorem since_snoc (p : E → Bool) (tr : List E) (e : E) :
    since p (tr ++ [e]) = if p e then [] else since p tr ++ [e] := by
  by_cases h : p e <;> simp [since, h]

/-- The first event of a kind, if there is one in the trace. -/
def earliest (p : E → Bool) (tr : List E) : Option E := tr.find? p

theorem earliest_append (p : E → Bool) (tr es : List E) :
    earliest p (tr ++ es) = (earliest p tr).or (earliest p es) := List.find?_append ..

theorem earliest_eq_none_iff {p : E → Bool} {tr : List E} :
    earliest p tr = none ↔ ∀ e ∈ tr, p e = false := by
  simp [earliest]

theorem latest_append_of_none {p : E → Bool} {tr es : List E} (h : ∀ e ∈ es, p e = false) :
    latest p (tr ++ es) = latest p tr := by
  have hnone : es.reverse.find? p = none := by simpa using h
  rw [latest, List.reverse_append, List.find?_append, hnone, Option.none_or, latest]

/-! ## Traces without gaps -/

/-- The events carry the state from `a` to `b`: each starts where the one before it ended. -/
def Linked {S : Type v} (before after : E → S) : S → List E → S → Prop
  | a, [], b => a = b
  | a, e :: es, b => before e = a ∧ Linked before after (after e) es b

theorem Linked.append {S : Type v} {before after : E → S} {xs ys : List E} {a b c : S}
    (hx : Linked before after a xs b) (hy : Linked before after b ys c) :
    Linked before after a (xs ++ ys) c := by
  induction xs generalizing a with
  | nil =>
    obtain rfl : a = b := hx
    exact hy
  | cons e es ih => exact ⟨hx.1, ih hx.2⟩

/-- A trace is cut anywhere. -/
theorem Linked.split {S : Type v} {before after : E → S} {xs ys : List E} {a c : S}
    (h : Linked before after a (xs ++ ys) c) :
    ∃ b, Linked before after a xs b ∧ Linked before after b ys c := by
  induction xs generalizing a with
  | nil => exact ⟨a, rfl, h⟩
  | cons e es ih =>
    obtain ⟨hbefore, hrest⟩ := h
    obtain ⟨b, hes, hys⟩ := ih hrest
    exact ⟨b, ⟨hbefore, hes⟩, hys⟩

/-- What every event keeps, the trace keeps. -/
theorem Linked.invariant {S : Type v} {before after : E → S} {P : S → Prop} {es : List E} {a b : S}
    (h : Linked before after a es b) (hstep : ∀ e ∈ es, P (before e) → P (after e)) (ha : P a) :
    P b := by
  induction es generalizing a with
  | nil =>
    obtain rfl : a = b := h
    exact ha
  | cons e es ih =>
    obtain ⟨hbefore, hrest⟩ := h
    apply ih hrest
    · exact fun x hx => hstep x (List.mem_cons_of_mem _ hx)
    · exact hstep e (List.mem_cons_self ..) (hbefore ▸ ha)

end BaremetalCrt.Lib
