/-
# BaremetalCrt.Lib.Chain — nodes that are linked to each other.

The link of a node is part of the node: `next` says for every node which one comes behind it, whether
the node is in a list or not.  `Walk` follows links, and `Chain` follows them to a node with none behind
it; both say which nodes are passed.  A chain that ends is the only one from its first node, so that a
cycle is a node without a chain.
-/
import Mathlib.Data.List.Nodup
import Mathlib.Tactic.Common

namespace BaremetalCrt.Lib

universe u
variable {α : Type u} {next next' : α → Option α}

/-- Following the links from `a` leads over the nodes `l` to the last of them. -/
inductive Walk (next : α → Option α) : α → List α → α → Prop
  | nil (a : α) : Walk next a [] a
  | cons {a b c : α} {l : List α} (link : next a = some b) (rest : Walk next b l c) :
      Walk next a (b :: l) c

/-- Following the links from `a` leads over the nodes `l` to a node with none behind it. -/
def Chain (next : α → Option α) (a : α) (l : List α) : Prop := ∃ b, Walk next a l b ∧ next b = none

variable {a b c : α} {l m : List α}

/-- A walk is cut anywhere. -/
theorem Walk.split (h : Walk next a (l ++ m) c) : ∃ b, Walk next a l b ∧ Walk next b m c := by
  induction l generalizing a with
  | nil => exact ⟨a, .nil a, h⟩
  | cons d l ih =>
    cases h with
    | cons link rest =>
      obtain ⟨b, hl, hm⟩ := ih rest
      exact ⟨b, .cons link hl, hm⟩

/-- The nodes that a walk leaves, and the one where it ends. -/
theorem Walk.dropLast_append (h : Walk next a l b) : (a :: l).dropLast ++ [b] = a :: l := by
  induction h with
  | nil a => rfl
  | cons link rest ih => rw [List.dropLast_cons_cons, List.cons_append, ih]

theorem Walk.end_mem (h : Walk next a l b) : b ∈ a :: l := by
  rw [← h.dropLast_append]
  exact List.mem_append_right _ (List.mem_singleton_self b)

/-- A walk over different nodes does not leave the one where it ends. -/
theorem Walk.end_notMem (h : Walk next a l b) (hnodup : (a :: l).Nodup) : b ∉ (a :: l).dropLast := by
  rw [← h.dropLast_append] at hnodup
  exact fun hb => (List.disjoint_of_nodup_append hnodup) hb (List.mem_singleton_self b)

/-- A walk needs the links of the nodes that it leaves. -/
theorem Walk.congr (h : Walk next a l b) (heq : ∀ x ∈ (a :: l).dropLast, next' x = next x) :
    Walk next' a l b := by
  induction h with
  | nil a => exact .nil a
  | cons link rest ih =>
    rw [List.dropLast_cons_cons] at heq
    refine .cons ?_ (ih fun x hx => heq x (List.mem_cons_of_mem _ hx))
    rw [heq _ (List.mem_cons_self ..), link]

theorem Chain.congr (h : Chain next a l) (heq : ∀ x ∈ a :: l, next' x = next x) : Chain next' a l := by
  obtain ⟨b, hwalk, hend⟩ := h
  refine ⟨b, hwalk.congr fun x hx => heq x (List.dropLast_subset _ hx), ?_⟩
  rw [heq b hwalk.end_mem, hend]

theorem chain_nil_iff (h : next a = none) : Chain next a l ↔ l = [] := by
  constructor
  · rintro ⟨b, hwalk, -⟩
    cases hwalk with
    | nil => rfl
    | cons link rest => rw [h] at link; cases link
  · rintro rfl
    exact ⟨a, .nil a, h⟩

theorem chain_cons_iff (h : next a = some b) : Chain next a m ↔ ∃ r, m = b :: r ∧ Chain next b r := by
  constructor
  · rintro ⟨c, hwalk, hend⟩
    cases hwalk with
    | nil => rw [h] at hend; cases hend
    | cons link rest =>
      rw [h] at link
      obtain rfl := Option.some.inj link
      exact ⟨_, rfl, c, rest, hend⟩
  · rintro ⟨r, rfl, c, hwalk, hend⟩
    exact ⟨c, .cons h hwalk, hend⟩

/-- A chain from a node continues every walk from it. -/
theorem Walk.chain_iff (h : Walk next a l b) : Chain next a m ↔ ∃ r, m = l ++ r ∧ Chain next b r := by
  induction h generalizing m with
  | nil a => simp
  | cons link rest ih =>
    rw [chain_cons_iff link]
    constructor
    · rintro ⟨r, rfl, hr⟩
      obtain ⟨s, rfl, hs⟩ := ih.mp hr
      exact ⟨s, rfl, hs⟩
    · rintro ⟨s, rfl, hs⟩
      exact ⟨_, rfl, ih.mpr ⟨s, rfl, hs⟩⟩

/-- There is one chain from a node at most. -/
theorem Chain.unique (h : Chain next a l) (h' : Chain next a m) : m = l := by
  obtain ⟨b, hwalk, hend⟩ := h
  obtain ⟨r, rfl, hr⟩ := hwalk.chain_iff.mp h'
  obtain rfl := (chain_nil_iff hend).mp hr
  exact List.append_nil l

/-- The nodes of a chain are different from each other, since it ends. -/
theorem Chain.nodup (h : Chain next a l) : (a :: l).Nodup := by
  obtain ⟨b, hwalk, hend⟩ := h
  induction hwalk with
  | nil a => exact List.nodup_singleton a
  | @cons a b c l link rest ih =>
    refine List.nodup_cons.mpr ⟨fun hmem => ?_, ih hend⟩
    -- a node that came again would have two chains
    obtain ⟨l₁, l₂, hsplit⟩ := List.append_of_mem hmem
    have hwalk : Walk next a (b :: l) c := .cons link rest
    rw [hsplit] at hwalk
    obtain ⟨d, -, hback⟩ := hwalk.split
    cases hback with
    | cons _ hrest =>
      have hlen := congrArg List.length (Chain.unique ⟨c, hrest, hend⟩ ⟨c, hwalk, hend⟩)
      simp only [List.length_append, List.length_cons] at hlen
      omega

/-- Two ways of linking that have the same chain link its nodes in the same way. -/
theorem Chain.next_eq (h : Chain next a l) (h' : Chain next' a l) : ∀ x ∈ a :: l, next' x = next x := by
  obtain ⟨b, hwalk, hend⟩ := h
  induction hwalk with
  | nil a =>
    obtain ⟨b, hwalk', hend'⟩ := h'
    cases hwalk'
    intro x hx
    obtain rfl := List.mem_singleton.mp hx
    rw [hend, hend']
  | cons link rest ih =>
    obtain ⟨b, hwalk', hend'⟩ := h'
    cases hwalk' with
    | cons link' rest' =>
      intro x hx
      rcases List.mem_cons.mp hx with rfl | hx
      · rw [link, link']
      · exact ih ⟨b, rest', hend'⟩ hend x hx

variable [DecidableEq α]

/-- A walk is kept when the link of its last node changes. -/
theorem Walk.update (h : Walk next a l b) (hnodup : (a :: l).Nodup) (v : Option α) :
    Walk (Function.update next b v) a l b := by
  refine h.congr fun x hx => Function.update_of_ne ?_ _ _
  rintro rfl
  exact h.end_notMem hnodup hx

/-- **Linking.** When a node is put behind the last one, it brings with it what is behind itself. -/
theorem Walk.link_iff (h : Walk next a l b) (hnodup : (a :: l).Nodup) :
    Chain (Function.update next b (some c)) a m ↔
      ∃ r, m = l ++ c :: r ∧ Chain (Function.update next b (some c)) c r := by
  rw [(h.update hnodup (some c)).chain_iff]
  constructor
  · rintro ⟨r, rfl, hr⟩
    obtain ⟨s, rfl, hs⟩ := (chain_cons_iff (Function.update_self ..)).mp hr
    exact ⟨s, rfl, hs⟩
  · rintro ⟨s, rfl, hs⟩
    exact ⟨_, rfl, (chain_cons_iff (Function.update_self ..)).mpr ⟨s, rfl, hs⟩⟩

/-- **Unlinking.** The link of a node is handed to the node in front of it. -/
theorem Walk.unlink (h : Walk next a l b) (hlink : next b = some c) (hrest : Chain next c m)
    (hnodup : (a :: (l ++ c :: m)).Nodup) : Chain (Function.update next b (next c)) a (l ++ m) := by
  rw [← List.cons_append] at hnodup
  have hfront := List.Nodup.of_append_left hnodup
  refine (h.update hfront (next c)).chain_iff.mpr ⟨m, rfl, ?_⟩
  cases hc : next c with
  | none =>
    rw [chain_nil_iff (Function.update_self ..)]
    exact (chain_nil_iff hc).mp hrest
  | some d =>
    rw [chain_cons_iff (Function.update_self ..)]
    obtain ⟨r, rfl, hr⟩ := (chain_cons_iff hc).mp hrest
    refine ⟨r, rfl, hr.congr fun x hx => Function.update_of_ne ?_ _ _⟩
    rintro rfl
    exact (List.disjoint_of_nodup_append hnodup) h.end_mem (List.mem_cons_of_mem _ hx)

end BaremetalCrt.Lib
