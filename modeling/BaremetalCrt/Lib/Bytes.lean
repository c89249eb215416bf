/-
# BaremetalCrt.Lib.Bytes — byte memories, ranges of addresses, little-endian words.

A memory is a total map from addresses (natural numbers, so that `a + n` never wraps) to bytes.
`load` and `store` move whole ranges; `patch` is the store of a writer that may skip bytes.  What is
needed about them is one lemma for an address inside the range, one for an address outside, and the
block forms that follow.  Where a range may run over the end of the address space, `loadWrap` and
`storeWrap` are the two at addresses of a given number of bits.
-/
import Mathlib.Algebra.Group.Int.Defs
import Mathlib.Algebra.Group.Nat.Defs
import Mathlib.Data.Set.Lattice
import Mathlib.Order.CompletePartialOrder
import Mathlib.Order.Interval.Set.Basic
import Mathlib.Data.List.Basic
import Mathlib.Data.List.GetD
import Mathlib.Tactic.Common

namespace BaremetalCrt.Lib

/-- A memory: one byte at every address. -/
abbrev ByteMap := Nat → UInt8

/-- The addresses of `n` bytes from `a` on, in unbounded integers. -/
def span (a n : Nat) : Set Nat := Set.Ico a (a + n)

@[simp] theorem mem_span {a n x : Nat} : x ∈ span a n ↔ a ≤ x ∧ x < a + n := Iff.rfl

theorem span_subset_iff {a n b m : Nat} (hn : 0 < n) :
    span a n ⊆ span b m ↔ b ≤ a ∧ a + n ≤ b + m := by
  constructor
  · intro h
    have hlo := h (show a ∈ span a n by simp [hn])
    have hhi := h (show a + n - 1 ∈ span a n by simp; omega)
    simp only [mem_span] at hlo hhi
    exact ⟨hlo.1, by omega⟩
  · rintro ⟨hlo, hhi⟩ x hx
    simp only [mem_span] at hx ⊢
    omega

theorem span_disjoint_of_le {a n b m : Nat} (h : a + n ≤ b) : Disjoint (span a n) (span b m) := by
  rw [Set.disjoint_left]
  intro x hx hx'
  simp only [mem_span] at hx hx'
  omega

theorem span_disjoint_iff {a n b m : Nat} :
    Disjoint (span a n) (span b m) ↔ n = 0 ∨ m = 0 ∨ a + n ≤ b ∨ b + m ≤ a := by
  rw [Set.disjoint_left]
  constructor
  · intro h
    by_contra hno
    push Not at hno
    have := @h (max a b) (mem_span.mpr (by omega))
    rw [mem_span] at this
    omega
  · intro h x hx hx'
    rw [mem_span] at hx hx'
    omega

instance (a n b m : Nat) : Decidable (Disjoint (span a n) (span b m)) :=
  decidable_of_iff _ span_disjoint_iff.symm

theorem span_zero (a : Nat) : span a 0 = ∅ := by
  ext x
  simp only [mem_span, Set.mem_empty_iff_false, iff_false]
  omega

namespace ByteMap

/-- The `n` bytes from `a` on, in the order of their addresses. -/
def load (m : ByteMap) (a n : Nat) : List UInt8 := (List.range n).map fun i => m (a + i)

/-- Put the bytes `bs` at `a`; every other address keeps its byte. -/
def store (m : ByteMap) (a : Nat) (bs : List UInt8) : ByteMap := fun x =>
  if a ≤ x then bs.getD (x - a) (m x) else m x

/-- Put the bytes that `f` has for the offsets below `n` at `a`, and keep the others. -/
def patch (m : ByteMap) (a n : Nat) (f : Nat → Option UInt8) : ByteMap := fun x =>
  if a ≤ x ∧ x < a + n then (f (x - a)).getD (m x) else m x

variable (m : ByteMap)

@[simp] theorem length_load (a n : Nat) : (m.load a n).length = n := by simp [load]

@[simp] theorem load_zero (a : Nat) : m.load a 0 = [] := rfl

theorem getElem?_load (a n i : Nat) :
    (m.load a n)[i]? = if i < n then some (m (a + i)) else none := by
  by_cases h : i < n
  · simp [load, h]
  · simp [load, h]

theorem getElem_load {a n i : Nat} (hi : i < (m.load a n).length) :
    (m.load a n)[i] = m (a + i) := by
  simp [load]

theorem load_congr {m m' : ByteMap} {a n : Nat} (h : ∀ x ∈ span a n, m x = m' x) :
    m.load a n = m'.load a n := by
  unfold load
  apply List.map_congr_left
  intro i hi
  exact h _ (by simp only [mem_span]; have := List.mem_range.mp hi; omega)

/-- Two ranges that load the same bytes agree byte for byte. -/
theorem apply_eq_of_load_eq {m m' : ByteMap} {a b n i : Nat} (h : m.load a n = m'.load b n)
    (hi : i < n) : m (a + i) = m' (b + i) := by
  have hget := congrArg (fun l => l[i]?) h
  simp only [getElem?_load, if_pos hi] at hget
  exact Option.some.inj hget

/-- A load that gives `bs` says what is at every address of the range. -/
theorem load_eq_iff {m : ByteMap} {a n : Nat} {bs : List UInt8} (hn : bs.length = n) :
    m.load a n = bs ↔ ∀ i, i < n → some (m (a + i)) = bs[i]? := by
  constructor
  · rintro rfl i hi
    rw [getElem?_load, if_pos hi]
  · intro h
    apply List.ext_getElem?
    intro i
    rw [getElem?_load]
    split
    · next hi => exact h i hi
    · next hi => exact (List.getElem?_eq_none (by omega)).symm

theorem store_of_notMem {a x : Nat} {bs : List UInt8} (h : x ∉ span a bs.length) :
    m.store a bs x = m x := by
  unfold store
  split
  · next hle =>
    rw [List.getD_eq_getElem?_getD, List.getElem?_eq_none, Option.getD_none]
    simp only [mem_span, not_and, not_lt] at h
    have := h hle
    omega
  · rfl

theorem store_at {a i : Nat} {bs : List UInt8} (h : i < bs.length) :
    m.store a bs (a + i) = bs[i] := by
  simp [store, h]

@[simp] theorem store_nil (a : Nat) : m.store a [] = m := by
  funext x
  simp [store]

/-- A store is made in two parts. -/
theorem store_append (a : Nat) (bs cs : List UInt8) :
    m.store a (bs ++ cs) = (m.store a bs).store (a + bs.length) cs := by
  funext x
  unfold store
  by_cases hx : a ≤ x
  · rw [if_pos hx, if_pos hx]
    by_cases hlt : x < a + bs.length
    · rw [if_neg (by omega), List.getD_append _ _ _ _ (by omega)]
    · rw [if_pos (by omega), List.getD_append_right _ _ _ _ (by omega),
        List.getD_eq_default bs _ (by omega), Nat.sub_add_eq]
  · rw [if_neg hx, if_neg (by omega), if_neg hx]

/-- What was stored is loaded back. -/
theorem load_store (a : Nat) (bs : List UInt8) : (m.store a bs).load a bs.length = bs := by
  apply (load_eq_iff rfl).mpr
  intro i hi
  rw [store_at m hi, List.getElem?_eq_getElem hi]

/-- Make a list of stores, in order: where two of them meet, the later one wins. -/
def storeAll (m : ByteMap) (ws : List (Nat × List UInt8)) : ByteMap :=
  ws.foldl (fun m w => m.store w.1 w.2) m

@[simp] theorem storeAll_nil : m.storeAll [] = m := rfl

@[simp] theorem storeAll_cons (w : Nat × List UInt8) (ws : List (Nat × List UInt8)) :
    m.storeAll (w :: ws) = (m.store w.1 w.2).storeAll ws := rfl

theorem storeAll_append (ws vs : List (Nat × List UInt8)) :
    m.storeAll (ws ++ vs) = (m.storeAll ws).storeAll vs := List.foldl_append ..

/-- What no store covers stays. -/
theorem storeAll_of_notMem {ws : List (Nat × List UInt8)} {x : Nat}
    (h : ∀ w ∈ ws, x ∉ span w.1 w.2.length) : m.storeAll ws x = m x := by
  induction ws generalizing m with
  | nil => rfl
  | cons w ws ih =>
    rw [storeAll_cons, ih _ fun v hv => h v (List.mem_cons_of_mem _ hv)]
    exact store_of_notMem m (h w (List.mem_cons_self ..))

/-- Nor does a byte change when every store that covers it puts the same byte there. -/
theorem storeAll_of_same {ws : List (Nat × List UInt8)} {x : Nat}
    (h : ∀ w ∈ ws, ∀ i (hi : i < w.2.length), w.1 + i = x → w.2[i] = m x) :
    m.storeAll ws x = m x := by
  induction ws generalizing m with
  | nil => rfl
  | cons w ws ih =>
    have hone : m.store w.1 w.2 x = m x := by
      by_cases hx : x ∈ span w.1 w.2.length
      · obtain ⟨hlo, hhi⟩ := mem_span.mp hx
        have hi : x - w.1 < w.2.length := by omega
        have hat := store_at m (a := w.1) hi
        rw [Nat.add_sub_cancel' hlo] at hat
        rw [hat]
        exact h w (List.mem_cons_self ..) _ hi (Nat.add_sub_cancel' hlo)
      · exact store_of_notMem m hx
    rw [storeAll_cons, ih _ fun v hv i hi hx => ?_, hone]
    rw [hone]
    exact h v (List.mem_cons_of_mem _ hv) i hi hx

/-- A byte is what the last store that covers it puts there. -/
theorem storeAll_last {ws vs : List (Nat × List UInt8)} {w : Nat × List UInt8} {i : Nat}
    (hi : i < w.2.length) (hlater : ∀ v ∈ vs, w.1 + i ∉ span v.1 v.2.length) :
    m.storeAll (ws ++ w :: vs) (w.1 + i) = w.2[i] := by
  rw [storeAll_append, storeAll_cons, storeAll_of_notMem _ hlater, store_at _ hi]

/-- Stores to pairwise disjoint ranges are all there afterwards. -/
theorem load_storeAll {ws : List (Nat × List UInt8)}
    (hdisj : ws.Pairwise fun v w => Disjoint (span v.1 v.2.length) (span w.1 w.2.length)) :
    ∀ w ∈ ws, (m.storeAll ws).load w.1 w.2.length = w.2 := by
  induction ws generalizing m with
  | nil => simp
  | cons v ws ih =>
    intro w hw
    obtain ⟨hv, hrest⟩ := List.pairwise_cons.mp hdisj
    rcases List.mem_cons.mp hw with rfl | hw
    · -- the first store, which none of the others meets
      have hkeep : ((m.store w.1 w.2).storeAll ws).load w.1 w.2.length =
          (m.store w.1 w.2).load w.1 w.2.length :=
        load_congr fun x hx => storeAll_of_notMem _ fun u hu =>
          Set.disjoint_left.mp (hv u hu) hx
      rw [storeAll_cons, hkeep, load_store]
    · exact ih _ hrest w hw

/-! ### Addresses that wrap -/

/-- The `n` bytes from `a` on, where addresses have `w` bits. -/
def loadWrap (m : ByteMap) (w a n : Nat) : List UInt8 := (List.range n).map fun i => m ((a + i) % 2 ^ w)

/-- How far `x` is behind `a`, where addresses have `w` bits. -/
def distance (w a x : Nat) : Nat := (x + (2 ^ w - a % 2 ^ w)) % 2 ^ w

/-- Put the bytes `bs` at `a`, where addresses have `w` bits. -/
def storeWrap (m : ByteMap) (w a : Nat) (bs : List UInt8) : ByteMap := fun x =>
  if x < 2 ^ w then bs.getD (distance w a x) (m x) else m x

theorem add_sub_mod (w a x : Nat) : (a + (x + (2 ^ w - a % 2 ^ w))) % 2 ^ w = x % 2 ^ w := by
  have hdiv := Nat.mod_add_div a (2 ^ w)
  have hlt := Nat.mod_lt a (Nat.two_pow_pos w)
  have hsum : a + (x + (2 ^ w - a % 2 ^ w)) = x + 2 ^ w * (a / 2 ^ w) + 2 ^ w := by omega
  rw [hsum, Nat.add_mod_right, Nat.add_mul_mod_self_left]

theorem distance_add {w a i : Nat} (hi : i < 2 ^ w) : distance w a ((a + i) % 2 ^ w) = i := by
  rw [distance, Nat.mod_add_mod, Nat.add_assoc, add_sub_mod, Nat.mod_eq_of_lt hi]

theorem add_distance {w a x : Nat} (hx : x < 2 ^ w) : (a + distance w a x) % 2 ^ w = x := by
  rw [distance, Nat.add_mod_mod, add_sub_mod, Nat.mod_eq_of_lt hx]

@[simp] theorem length_loadWrap (w a n : Nat) : (m.loadWrap w a n).length = n := by simp [loadWrap]

theorem getElem_loadWrap {w a n i : Nat} (hi : i < (m.loadWrap w a n).length) :
    (m.loadWrap w a n)[i] = m ((a + i) % 2 ^ w) := by
  simp [loadWrap]

theorem storeWrap_at {w a i : Nat} {bs : List UInt8} (hi : i < bs.length) (hw : i < 2 ^ w) :
    m.storeWrap w a bs ((a + i) % 2 ^ w) = bs[i] := by
  rw [storeWrap, if_pos (Nat.mod_lt _ (Nat.two_pow_pos w)), distance_add hw, List.getD_eq_getElem _ _ hi]

/-- A store leaves alone what is not at one of its addresses. -/
theorem storeWrap_of_ne {w a x : Nat} {bs : List UInt8} (h : ∀ i < bs.length, (a + i) % 2 ^ w ≠ x) :
    m.storeWrap w a bs x = m x := by
  unfold storeWrap
  split
  · next hx =>
    have hfar : bs.length ≤ distance w a x := Nat.not_lt.mp fun hlt => h _ hlt (add_distance hx)
    rw [List.getD_eq_getElem?_getD, List.getElem?_eq_none hfar, Option.getD_none]
  · rfl

/-! ### Cells: bytes that are meant to be at an address -/

/-- The bytes of the cell are in the memory, at the cell's address. -/
def Holds (w : Nat × List UInt8) : Prop := m.load w.1 w.2.length = w.2

theorem holds_iff {w : Nat × List UInt8} :
    m.Holds w ↔ ∀ i (hi : i < w.2.length), m (w.1 + i) = w.2[i] := by
  rw [Holds, load_eq_iff rfl]
  refine forall₂_congr fun i hi => ?_
  rw [List.getElem?_eq_getElem hi, Option.some_inj]

/-- Two cells have the same byte wherever they overlap. -/
def Agree (v w : Nat × List UInt8) : Prop :=
  ∀ i j (hi : i < v.2.length) (hj : j < w.2.length), v.1 + i = w.1 + j → v.2[i] = w.2[j]

theorem Agree.refl (w : Nat × List UInt8) : Agree w w := by
  intro i j hi hj hij
  obtain rfl : i = j := Nat.add_left_cancel hij
  rfl

theorem Agree.of_disjoint {v w : Nat × List UInt8}
    (h : Disjoint (span v.1 v.2.length) (span w.1 w.2.length)) : Agree v w := by
  intro i j hi hj hij
  have hv : v.1 + i ∈ span v.1 v.2.length := by simp only [mem_span]; omega
  have hw : v.1 + i ∈ span w.1 w.2.length := by simp only [mem_span]; omega
  exact absurd hw (Set.disjoint_left.mp h hv)

/-- The memory `m'` after a store of the cell `w` that may have been cut short: every byte is the one
before, or the one of the cell. -/
def Partly (w : Nat × List UInt8) (m' : ByteMap) : Prop :=
  ∀ x, m' x = m x ∨ ∃ i, ∃ hi : i < w.2.length, x = w.1 + i ∧ m' x = w.2[i]

theorem partly_store (a : Nat) (bs : List UInt8) : m.Partly (a, bs) (m.store a bs) := by
  intro x
  by_cases hx : x ∈ span a bs.length
  · obtain ⟨hlo, hhi⟩ := mem_span.mp hx
    have hi : x - a < bs.length := by omega
    refine Or.inr ⟨x - a, hi, (Nat.add_sub_cancel' hlo).symm, ?_⟩
    have hat := store_at m (a := a) hi
    rwa [Nat.add_sub_cancel' hlo] at hat
  · exact Or.inl (store_of_notMem m hx)

/-- A cell stays when what is stored agrees with it. -/
theorem Holds.partly {v w : Nat × List UInt8} {m' : ByteMap} (h : m.Holds w) (hm : m.Partly v m')
    (hagree : Agree v w) : m'.Holds w := by
  rw [holds_iff] at h ⊢
  intro j hj
  rcases hm (w.1 + j) with hsame | ⟨i, hi, hx, hput⟩
  · rw [hsame, h j hj]
  · rw [hput]
    exact hagree i j hi hj hx.symm

/-- A cell that is stored whole is there. -/
theorem holds_store (w : Nat × List UInt8) : (m.store w.1 w.2).Holds w := load_store m w.1 w.2

/-- Stores that agree with a cell leave it. -/
theorem Holds.storeAll {w : Nat × List UInt8} {ws : List (Nat × List UInt8)} (h : m.Holds w)
    (hagree : ∀ v ∈ ws, Agree v w) : (m.storeAll ws).Holds w := by
  induction ws generalizing m with
  | nil => exact h
  | cons v ws ih =>
    apply ih
    · exact h.partly m (m.partly_store v.1 v.2) (hagree v (List.mem_cons_self ..))
    · exact fun u hu => hagree u (List.mem_cons_of_mem _ hu)

/-- A cell that is among stores that agree with it is there afterwards. -/
theorem holds_storeAll {w : Nat × List UInt8} {ws : List (Nat × List UInt8)} (hw : w ∈ ws)
    (hagree : ∀ v ∈ ws, Agree v w) : (m.storeAll ws).Holds w := by
  induction ws generalizing m with
  | nil => cases hw
  | cons v ws ih =>
    have hrest : ∀ u ∈ ws, Agree u w := fun u hu => hagree u (List.mem_cons_of_mem _ hu)
    rcases List.mem_cons.mp hw with rfl | hw
    · exact Holds.storeAll (m.store w.1 w.2) (m.holds_store w) hrest
    · exact ih _ hw hrest

theorem patch_of_notMem {a n x : Nat} {f : Nat → Option UInt8} (h : x ∉ span a n) :
    m.patch a n f x = m x := by
  simp only [mem_span] at h
  simp only [patch, if_neg h]

theorem patch_of_mem {a n x : Nat} {f : Nat → Option UInt8} (h : x ∈ span a n) :
    m.patch a n f x = (f (x - a)).getD (m x) := by
  simp only [mem_span] at h
  simp only [patch, if_pos h]

@[simp] theorem patch_zero (a : Nat) (f : Nat → Option UInt8) : m.patch a 0 f = m := by
  funext x
  exact patch_of_notMem m (by simp [span_zero])

end ByteMap

/-! ## Records in a row -/

/-- Round `x` up to a multiple of `a`, which need not be a power of two. -/
def alignUp (a x : Nat) : Nat := if x % a = 0 then x else (x / a + 1) * a

theorem le_alignUp {a : Nat} (ha : 0 < a) (x : Nat) : x ≤ alignUp a x := by
  unfold alignUp
  split
  · exact le_rfl
  · have hdiv := Nat.div_add_mod x a
    have hmod := Nat.mod_lt x ha
    rw [Nat.add_mul, Nat.one_mul, Nat.mul_comm (x / a)]
    omega

/-- Where records with a header of `head` bytes and payloads of the given sizes end, when the first
starts at `x` and each starts at a multiple of `a` behind the one before it. -/
def extent (head a : Nat) : List Nat → Nat → Nat
  | [], x => x
  | size :: sizes, x => extent head a sizes (alignUp a (x + head + size))

/-- Records do not reach back: the end lies behind the start, and behind the first record. -/
theorem le_extent (head : Nat) {a : Nat} (ha : 0 < a) (sizes : List Nat) (x : Nat) :
    x ≤ extent head a sizes x := by
  induction sizes generalizing x with
  | nil => exact le_rfl
  | cons size sizes ih =>
    have hup := le_alignUp ha (x + head + size)
    have hrest := ih (alignUp a (x + head + size))
    show x ≤ extent head a sizes (alignUp a (x + head + size))
    omega

theorem alignUp_le (a x : Nat) : alignUp a x ≤ x + a := by
  unfold alignUp
  split
  · exact Nat.le_add_right ..
  · have hdiv := Nat.div_add_mod x a
    rw [Nat.add_mul, Nat.one_mul, Nat.mul_comm (x / a)]
    omega

/-- Records of bounded payloads take no more than so much room each. -/
theorem extent_le (head a : Nat) {b : Nat} (sizes : List Nat) (hb : ∀ s ∈ sizes, s ≤ b)
    (x : Nat) : extent head a sizes x ≤ x + sizes.length * (head + b + a) := by
  induction sizes generalizing x with
  | nil => exact Nat.le_add_right ..
  | cons size sizes ih =>
    have hsize := hb size (List.mem_cons_self ..)
    have hup := alignUp_le a (x + head + size)
    have hrest := ih (fun s hs => hb s (List.mem_cons_of_mem _ hs)) (alignUp a (x + head + size))
    rw [List.length_cons, Nat.succ_mul]
    show extent head a sizes (alignUp a (x + head + size)) ≤ _
    omega

/-! ## Little-endian words -/

/-- The `k` bytes of a number, least significant first. -/
def leBytes : Nat → Nat → List UInt8
  | 0, _ => []
  | k + 1, n => UInt8.ofNat n :: leBytes k (n / 256)

/-- The number a byte string stands for, least significant byte first. -/
def leNat : List UInt8 → Nat
  | [] => 0
  | b :: bs => b.toNat + 256 * leNat bs

@[simp] theorem length_leBytes (k n : Nat) : (leBytes k n).length = k := by
  induction k generalizing n with
  | zero => rfl
  | succ k ih => simp [leBytes, ih]

/-- The bytes of a number read back as the number, up to their width. -/
theorem leNat_leBytes (k n : Nat) : leNat (leBytes k n) = n % 256 ^ k := by
  induction k generalizing n with
  | zero => simp [leBytes, leNat, Nat.mod_one]
  | succ k ih =>
    have hbyte : (UInt8.ofNat n).toNat = n % 256 := UInt8.toNat_ofNat'
    rw [leBytes, leNat, ih, hbyte, Nat.pow_succ', Nat.mod_mul]

end BaremetalCrt.Lib
