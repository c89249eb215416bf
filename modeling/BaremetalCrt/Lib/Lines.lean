/-
# BaremetalCrt.Lib.Lines — a stream read line by line through a buffer.

A line ends behind its separator, and the last one may lack it.  A read takes as much of a line as the
buffer has room for, so that a long line comes in several reads; when every line fits, the reads are the
lines (`readLines_eq_lines`).

`readLine` is one read, and `readLines` the loop around it up to the end of the stream. A text that is made
of lines has these lines again (`lines_append_sep`).
-/
import Mathlib.Data.List.SplitBy
import Mathlib.Tactic.Common

namespace BaremetalCrt.Lib

universe u
variable {α : Type u} [DecidableEq α] (sep : α)

/-- The lines of a stream, each with the separator that ends it; the last one may have none. -/
def lines (s : List α) : List (List α) := s.splitBy fun c _ => c != sep

/-- One read with room for `room` elements, and what is left. -/
def readLine : Nat → List α → List α × List α
  | 0, s => ([], s)
  | _ + 1, [] => ([], [])
  | room + 1, c :: cs =>
    if c = sep then ([c], cs) else (c :: (readLine room cs).1, (readLine room cs).2)

/-- What the reads deliver, up to the end of the stream; there are `fuel` of them at most. -/
def readLines (room : Nat) : Nat → List α → List (List α)
  | 0, _ => []
  | _ + 1, [] => []
  | fuel + 1, c :: cs =>
    (readLine sep room (c :: cs)).1 :: readLines room fuel (readLine sep room (c :: cs)).2

variable {sep} {l s : List α}

theorem isChain_of_notMem (hl : sep ∉ l) : l.IsChain fun x _ => (x != sep) = true := by
  induction l with
  | nil => exact .nil
  | cons c cs ih =>
    rw [List.mem_cons, not_or] at hl
    rw [List.isChain_cons]
    refine ⟨fun _ _ => ?_, ih hl.2⟩
    rw [bne_iff_ne]
    exact Ne.symm hl.1

theorem lines_append_sep (hl : sep ∉ l) (s : List α) :
    lines sep (l ++ sep :: s) = (l ++ [sep]) :: lines sep s := by
  have hchain : (l ++ [sep]).IsChain fun x _ => (x != sep) = true := by
    rw [List.isChain_append]
    refine ⟨isChain_of_notMem hl, .singleton _, fun x hx _ _ => ?_⟩
    rw [bne_iff_ne]
    rintro rfl
    exact hl (List.mem_of_getLast? hx)
  have hend : ∀ x ∈ (l ++ [sep]).getLast?, ∀ y ∈ s.head?, (x != sep) = false := by
    intro x hx _ _
    rw [List.getLast?_append_cons, List.getLast?_singleton, Option.mem_some_iff] at hx
    rw [← hx, bne_self_eq_false]
  rw [List.append_cons, lines, List.splitBy_append hend,
    List.splitBy_of_isChain (List.append_ne_nil_of_right_ne_nil _ (List.cons_ne_nil _ _)) hchain]
  rfl

theorem lines_of_notMem (hne : l ≠ []) (hl : sep ∉ l) : lines sep l = [l] :=
  List.splitBy_of_isChain hne (isChain_of_notMem hl)

/-- A line that fits is read whole. -/
theorem readLine_append_sep (hl : sep ∉ l) {room : Nat} (hroom : l.length < room) (s : List α) :
    readLine sep room (l ++ sep :: s) = (l ++ [sep], s) := by
  induction l generalizing room with
  | nil =>
    obtain ⟨room, rfl⟩ := Nat.exists_eq_succ_of_ne_zero (Nat.ne_of_gt hroom)
    rw [List.nil_append, readLine, if_pos rfl, List.nil_append]
  | cons c cs ih =>
    rw [List.mem_cons, not_or] at hl
    rw [List.length_cons] at hroom
    have hpos : 0 < room := Nat.zero_lt_of_lt hroom
    obtain ⟨room, rfl⟩ := Nat.exists_eq_succ_of_ne_zero (Nat.ne_of_gt hpos)
    rw [List.cons_append, readLine, if_neg (Ne.symm hl.1), ih hl.2 (Nat.lt_of_succ_lt_succ hroom),
      List.cons_append]

/-- So is the last one, without its separator. -/
theorem readLine_of_notMem (hl : sep ∉ l) {room : Nat} (hroom : l.length ≤ room) :
    readLine sep room l = (l, []) := by
  induction l generalizing room with
  | nil => cases room <;> rfl
  | cons c cs ih =>
    rw [List.mem_cons, not_or] at hl
    rw [List.length_cons] at hroom
    have hpos : 0 < room := Nat.lt_of_lt_of_le (Nat.succ_pos _) hroom
    obtain ⟨room, rfl⟩ := Nat.exists_eq_succ_of_ne_zero (Nat.ne_of_gt hpos)
    rw [readLine, if_neg (Ne.symm hl.1), ih hl.2 (Nat.le_of_succ_le_succ hroom)]

/-- **When every line fits, the reads are the lines.** -/
theorem readLines_eq_lines {room fuel : Nat} (hfuel : s.length ≤ fuel)
    (hroom : ∀ l ∈ lines sep s, l.length ≤ room) : readLines sep room fuel s = lines sep s := by
  induction fuel generalizing s with
  | zero =>
    obtain rfl := List.length_eq_zero_iff.mp (Nat.le_zero.mp hfuel)
    rfl
  | succ fuel ih =>
    cases s with
    | nil => rfl
    | cons c cs =>
      rw [readLines]
      by_cases hmem : sep ∈ c :: cs
      · -- the first line ends here, and the rest is shorter
        obtain ⟨l, rest, hs, hl⟩ := List.eq_append_cons_of_mem hmem
        rw [hs] at hfuel hroom ⊢
        rw [lines_append_sep hl] at hroom ⊢
        have hfirst := hroom _ (List.mem_cons_self ..)
        rw [List.length_append, List.length_singleton] at hfirst
        rw [List.length_append, List.length_cons] at hfuel
        rw [readLine_append_sep hl hfirst,
          ih (by omega) fun l hl => hroom l (List.mem_cons_of_mem _ hl)]
      · rw [lines_of_notMem (List.cons_ne_nil _ _) hmem] at hroom ⊢
        rw [readLine_of_notMem hmem (hroom _ (List.mem_singleton_self _))]
        cases fuel <;> rfl

end BaremetalCrt.Lib
