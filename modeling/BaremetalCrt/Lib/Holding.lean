/-
# BaremetalCrt.Lib.Holding — what is taken and given back.

A log says in their order which things were taken and which were given back; `held` is what is left of
them.  `Accounted` holds the log against two other views: what is out altogether, where there may be
things that others took, and the slots that remember what there is to give back.  Taking and giving back
keep it, and then nothing is left over once the slots are empty.
-/
import BaremetalCrt.Lib.Trace
import Mathlib.Data.Multiset.AddSub
import Mathlib.Tactic.Common

namespace BaremetalCrt.Lib

universe u v
variable {E : Type u} {α : Type v}

/-- What an event does with a thing: it is taken, or it is given back. -/
inductive Use (α : Type v) where
  | take (a : α)
  | give (a : α)

variable [DecidableEq α]

/-- What is held behind a use. What is not held is given back to no effect. -/
def Use.apply : Use α → Multiset α → Multiset α
  | .take a, m => a ::ₘ m
  | .give a, m => m.erase a

section Log

variable (use : E → Use α)

/-- What was taken and not given back in the course of a log, counted as often as it was taken. -/
def held (log : List E) : Multiset α := log.foldl (fun m e => (use e).apply m) 0

@[simp] theorem held_nil : held use [] = 0 := rfl

@[simp] theorem held_snoc (log : List E) (e : E) : held use (log ++ [e]) = (use e).apply (held use log) := by
  rw [held, List.foldl_append]
  rfl

/-- What is given back is held; things that are not valid do not count. -/
def GivesHeld (valid : α → Prop) (log : List E) (e : E) : Prop :=
  ∀ a, use e = .give a → valid a → a ∈ held use log

/-- The log agrees with what is out, apart from what others took, and with the slots. -/
structure Accounted (valid others : α → Prop) (log : List E) (out : List α) (slots : Multiset α) : Prop where
  gives : EachAfter (GivesHeld use valid) log
  held : held use log = slots
  nodup : out.Nodup
  known : ∀ e ∈ log, ∀ a, use e = .take a → a ∈ out → a ∈ slots ∨ others a

end Log

variable {use : E → Use α} {valid others : α → Prop} {log : List E} {out : List α} {slots : Multiset α}
variable {e : E} {a : α}

theorem accounted_nil (hnodup : out.Nodup) : Accounted use valid others [] out 0 where
  gives := eachAfter_nil _
  held := rfl
  nodup := hnodup
  known := by simp

namespace Accounted

variable (h : Accounted use valid others log out slots)
include h

/-- Something that is not out is taken, and a slot remembers it. -/
theorem take (he : use e = .take a) (ha : a ∉ out) :
    Accounted use valid others (log ++ [e]) (a :: out) (a ::ₘ slots) where
  gives := by
    refine eachAfter_snoc.mpr ⟨h.gives, fun b hb => ?_⟩
    rw [he] at hb
    cases hb
  held := by rw [held_snoc, he, h.held, Use.apply]
  nodup := List.nodup_cons.mpr ⟨ha, h.nodup⟩
  known := by
    intro x hx b hb hout
    rcases List.mem_append.mp hx with hx | hx
    · rcases List.mem_cons.mp hout with rfl | hout
      · exact .inl (Multiset.mem_cons_self b slots)
      · exact (h.known x hx b hb hout).imp_left Multiset.mem_cons_of_mem
    · obtain rfl := List.mem_singleton.mp hx
      obtain rfl : a = b := by simpa [he] using hb
      exact .inl (Multiset.mem_cons_self a slots)

/-- What a slot remembers is given back. -/
theorem give (he : use e = .give a) (ha : a ∈ slots) :
    Accounted use valid others (log ++ [e]) (out.erase a) (slots.erase a) where
  gives := by
    refine eachAfter_snoc.mpr ⟨h.gives, fun b hb _ => ?_⟩
    obtain rfl : a = b := by simpa [he] using hb
    rwa [h.held]
  held := by rw [held_snoc, he, h.held, Use.apply]
  nodup := h.nodup.erase a
  known := by
    intro x hx b hb hout
    rcases List.mem_append.mp hx with hx | hx
    · -- it is not out twice, so that only the others are left
      obtain ⟨hne, hout⟩ := (h.nodup.mem_erase_iff).mp hout
      exact (h.known x hx b hb hout).imp_left (Multiset.mem_erase_of_ne hne).mpr
    · obtain rfl := List.mem_singleton.mp hx
      rw [he] at hb
      cases hb

/-- Giving back nothing valid changes nothing. -/
theorem giveInvalid (he : use e = .give a) (hvalid : ¬ valid a) (ha : a ∉ slots) :
    Accounted use valid others (log ++ [e]) (out.erase a) slots where
  gives := by
    refine eachAfter_snoc.mpr ⟨h.gives, fun b hb hb' => ?_⟩
    obtain rfl : a = b := by simpa [he] using hb
    exact absurd hb' hvalid
  held := by rw [held_snoc, he, h.held, Use.apply, Multiset.erase_of_notMem ha]
  nodup := h.nodup.erase a
  known := by
    intro x hx b hb hout
    rcases List.mem_append.mp hx with hx | hx
    · exact h.known x hx b hb (List.mem_of_mem_erase hout)
    · obtain rfl := List.mem_singleton.mp hx
      rw [he] at hb
      cases hb

/-- Others take and give back what they like. -/
theorem meanwhile (hothers : ∀ a, ¬ others a) {out' : List α} (hnodup : out'.Nodup) :
    Accounted use valid (fun a => a ∈ out' ∧ a ∉ out) log out' slots where
  gives := h.gives
  held := h.held
  nodup := hnodup
  known := by
    intro x hx b hb hout
    by_cases hb' : b ∈ out
    · exact .inl ((h.known x hx b hb hb').resolve_right (hothers b))
    · exact .inr ⟨hout, hb'⟩

end Accounted

end BaremetalCrt.Lib
