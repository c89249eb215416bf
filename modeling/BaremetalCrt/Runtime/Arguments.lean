/-
# BaremetalCrt.Runtime.Arguments — the arguments of a kernel as a map.

What `in_clSetKernelArg` does to the argument records of a kernel, outcome by outcome: the records grow
with unset ones up to the index and take the new one there.  An index whose successor does not fit in 32
bits shrinks the array to nothing instead, and the call then fails.

Seen from outside a kernel is a map from indices to records (`Heap.argRecords`), and a call sets one of them
(`SetArg.run_sets`): its own record, and no other, and the count reaches its index. What a call leaves that
fails is the other half: nothing has changed, unless the index has no successor in 32 bits, the call gets as
far as the array, and the kernel has one (`inClSetKernelArg_unchanged_iff`).
-/
import BaremetalCrt.Lib.Overwrite
import BaremetalCrt.Runtime.Handles

namespace BaremetalCrt

open Lib

/-! ## Calls and records -/

/-- A call of `in_clSetKernelArg`, and what the host's memory holds when it is made. -/
structure SetArg where
  index : UInt32
  size : UInt64
  value : Ptr
  memory : ByteMap

/-- The record that the call stores: something of the size of a pointer is taken for a `cl_mem`. -/
def SetArg.record (c : SetArg) : KernArg :=
  if c.size = 8 then ⟨commArgMem, c.index, c.size, .addr (leNat (c.memory.load c.value 8))⟩
  else ⟨commArgVal, c.index, c.size, .addr c.value⟩

/-- The call, with the memory of the host as it is then. -/
def SetArg.run (env : Env) (kern : Ptr) (c : SetArg) (s : Heap) : Except ClInt Unit × Heap :=
  inClSetKernelArg env kern c.index c.size c.value { s with bytes := c.memory }

/-- The state behind a sequence of calls, whatever they return. -/
def setArgs (env : Env) (kern : Ptr) (calls : List SetArg) (s : Heap) : Heap :=
  calls.foldl (fun s c => (c.run env kern s).2) s

/-- The argument records of a kernel, as many as it counts. -/
def Heap.argRecords (s : Heap) (kern : Ptr) : List KernArg :=
  (s.arrays (s.kerns kern).args).takeD (s.kerns kern).numArgs.toNat .zero

@[simp] theorem Heap.length_argRecords (s : Heap) (kern : Ptr) :
    (s.argRecords kern).length = (s.kerns kern).numArgs.toNat := List.takeD_length ..

/-- The kernel behind a handle, with the name that it was created under, as a launch sees it. -/
def Heap.kernel (s : Heap) (kern : Ptr) (name : CStr) : ClKernel where
  magic := s.magic kern
  prg := (s.kerns kern).prg
  name := name
  numArgs := (s.kerns kern).numArgs
  args := s.argRecords kern
  args_length := s.length_argRecords kern

/-- A live kernel with a live array that is as long as its count says. -/
structure Heap.ArgsSound (s : Heap) (kern : Ptr) : Prop where
  live : s.live kern = some .kern
  valid : kernHandleIsValid s kern = clSuccess
  none : (s.kerns kern).args = 0 → (s.kerns kern).numArgs = 0
  array : (s.kerns kern).args ≠ 0 → s.live (s.kerns kern).args = some .args
  length : (s.kerns kern).args ≠ 0 →
    (s.arrays (s.kerns kern).args).length = (s.kerns kern).numArgs.toNat

section Records

variable {env : Env} {s : Heap} {kern : Ptr}

theorem require_ok {f : Heap → ClInt} (h : f s = clSuccess) : require f s = (.ok (), s) := by
  rw [require, h, check_success]

theorem Heap.ArgsSound.argRecords (h : s.ArgsSound kern) (hargs : (s.kerns kern).args ≠ 0) :
    s.argRecords kern = s.arrays (s.kerns kern).args := by
  rw [Heap.argRecords, ← h.length hargs, List.takeD_eq_take _ le_rfl, List.take_length]

/-- A block that is allocated is not the kernel. -/
theorem calloc_ne {q : Ptr} (hlive : s.live kern = some .kern) (hq : env.calloc s = some q) : kern ≠ q := by
  rintro rfl
  have hnone := (env.fresh s kern hq).2.1
  rw [hlive] at hnone
  cases hnone

/-! ## The functions, outcome by outcome -/

/-- The records of the kernel, and unset ones behind them. -/
def Heap.grownArray (s : Heap) (kern : Ptr) (num : UInt32) : List KernArg :=
  let k := s.kerns kern
  let n := if k.args = 0 then 0 else (min k.numArgs num).toNat
  (s.arrays k.args).takeD n .zero ++ List.replicate (num.toNat - n) .zero

/-- The new array `q` takes the place of the old one. -/
def Heap.grown (s : Heap) (kern q : Ptr) (num : UInt32) : Heap :=
  let s₁ := { s.allocated .args q with arrays := Function.update s.arrays q (s.grownArray kern num) }
  (if (s.kerns kern).args = 0 then s₁ else s₁.freed (s.kerns kern).args).setKern kern
    { s.kerns kern with args := q, numArgs := num }

theorem kernSetNumArgs_grown {q : Ptr} {num : UInt32} (hvalid : kernHandleIsValid s kern = clSuccess)
    (hlive : s.live kern = some .kern) (hnum : num ≠ 0) (hq : env.calloc s = some q) :
    kernSetNumArgs env kern num s = (.ok (), s.grown kern q num) := by
  have hcalloc : calloc env .args s = (.ok (some q), s.allocated .args q) := by
    unfold calloc
    rw [hq]
  have hfields : (s.allocated .args q).kerns kern = s.kerns kern :=
    Function.update_of_ne (calloc_ne hlive hq) _ _
  rw [kernSetNumArgs, Exec.bind_ok (require_ok hvalid), if_neg hnum, Exec.bind_ok hcalloc]
  show (Exec.gets _ >>= _) (s.allocated .args q) = _
  rw [Exec.bind_ok (Exec.gets_apply ..), hfields, Exec.bind_ok (Exec.modify_apply ..), Heap.grown]
  by_cases hargs : (s.kerns kern).args = 0
  · simp only [freeIfAny, Heap.grownArray, if_pos hargs]
    rfl
  · simp only [freeIfAny, Heap.grownArray, if_neg hargs]
    rfl

@[simp] theorem grown_kerns (s : Heap) (kern q : Ptr) (num : UInt32) :
    (s.grown kern q num).kerns kern = { s.kerns kern with args := q, numArgs := num } :=
  Function.update_self ..

theorem grown_valid {q : Ptr} {num : UInt32} (hvalid : kernHandleIsValid s kern = clSuccess)
    (hne : kern ≠ q) : kernHandleIsValid (s.grown kern q num) kern = clSuccess := by
  have hmagic : (s.grown kern q num).magic kern = s.magic kern := by
    by_cases hargs : (s.kerns kern).args = 0
    · simp only [Heap.grown, if_pos hargs]
      exact Function.update_of_ne hne _ _
    · simp only [Heap.grown, if_neg hargs]
      exact Function.update_of_ne hne _ _
  rw [kernHandleIsValid, hmagic]
  exact hvalid

/-- An array that cannot be allocated leaves everything as it was. -/
theorem kernSetNumArgs_exhausted {num : UInt32} (hvalid : kernHandleIsValid s kern = clSuccess)
    (hnum : num ≠ 0) (hq : env.calloc s = none) :
    kernSetNumArgs env kern num s = (.error clOutOfHostMemory, { s with tries := s.tries + 1 }) := by
  have hcalloc : calloc env .args s = (.ok none, { s with tries := s.tries + 1 }) := by
    unfold calloc
    rw [hq]
  rw [kernSetNumArgs, Exec.bind_ok (require_ok hvalid), if_neg hnum, Exec.bind_ok hcalloc]
  rfl

/-- No arguments at all: the array is freed. -/
theorem kernSetNumArgs_zero (env : Env) (hvalid : kernHandleIsValid s kern = clSuccess) :
    ∃ t, kernSetNumArgs env kern 0 s = (.ok (), t) ∧ (t.kerns kern).numArgs = 0 ∧ t.magic = s.magic := by
  rw [kernSetNumArgs, Exec.bind_ok (require_ok hvalid), if_pos rfl, kernDropArgs, bind_assoc,
    Exec.bind_ok (Exec.gets_apply ..)]
  by_cases hargs : (s.kerns kern).args = 0
  · rw [if_neg (not_not.mpr hargs)]
    exact ⟨_, rfl, by simp [Heap.setKern], rfl⟩
  · rw [if_pos hargs]
    exact ⟨_, rfl, by simp [Heap.setKern], rfl⟩

/-- The array with a record put into it; the index in the record is that of its place. -/
def Heap.putArg (s : Heap) (kern : Ptr) (i : UInt32) (arg : KernArg) : Heap :=
  { s with
    arrays := Function.update s.arrays (s.kerns kern).args
      ((s.arrays (s.kerns kern).args).set i.toNat { arg with index := i }) }

theorem kernSetArg_put {i : UInt32} (arg : KernArg) (hvalid : kernHandleIsValid s kern = clSuccess)
    (hi : i < (s.kerns kern).numArgs) : kernSetArg kern i arg s = (.ok (), s.putArg kern i arg) := by
  rw [kernSetArg, Exec.bind_ok (require_ok hvalid), Exec.bind_ok (Exec.gets_apply ..),
    if_neg (UInt32.not_le.mpr hi)]
  rfl

theorem kernSetArg_outside {i : UInt32} (arg : KernArg) (hvalid : kernHandleIsValid s kern = clSuccess)
    (hi : (s.kerns kern).numArgs ≤ i) : kernSetArg kern i arg s = (.error clInvalidValue, s) := by
  rw [kernSetArg, Exec.bind_ok (require_ok hvalid), Exec.bind_ok (Exec.gets_apply ..), if_pos hi]
  rfl

/-- The largest index has no successor. -/
theorem lt_succ_of_ne_max {i : UInt32} (hi : i ≠ -1) : i < i + 1 := by
  rw [UInt32.lt_iff_toNat_lt, UInt32.toNat_add]
  have hne : i.toNat ≠ (-1 : UInt32).toNat := fun h => hi (UInt32.toNat_inj.mp h)
  have hmax : (-1 : UInt32).toNat = 2 ^ 32 - 1 := by decide
  have hone : (1 : UInt32).toNat = 1 := rfl
  have hlt := i.toNat_lt
  omega

theorem succ_ne_zero_of_ne_max {i : UInt32} (hi : i ≠ -1) : i + 1 ≠ 0 := by
  intro hzero
  have hlt := lt_succ_of_ne_max hi
  rw [hzero] at hlt
  exact UInt32.not_lt_zero hlt

/-! ## The entry point -/

/-- Growing first, if it must be, and then storing. -/
theorem inClSetKernelArg_apply (env : Env) {i : UInt32} (size : UInt64) {value : Ptr} (hvalue : value ≠ 0)
    (hvalid : kernHandleIsValid s kern = clSuccess) :
    ∃ arg : KernArg, { arg with index := i } = SetArg.record ⟨i, size, value, s.bytes⟩ ∧
      inClSetKernelArg env kern i size value s =
        ((if (s.kerns kern).numArgs ≤ i then kernSetNumArgs env kern (i + 1) else pure ()) >>=
          fun _ => kernSetArg kern i arg) s := by
  refine ⟨if size = 8 then ⟨commArgMem, 0, size, .addr (leNat (s.bytes.load value 8))⟩
    else ⟨commArgVal, 0, size, .addr value⟩, ?_, ?_⟩
  · by_cases h8 : size = 8
    · simp [SetArg.record, h8]
    · simp [SetArg.record, h8]
  · rw [inClSetKernelArg, if_neg hvalue]
    show (require _ >>= _) s = _
    rw [Exec.bind_ok (require_ok hvalid), Exec.bind_ok (Exec.gets_apply ..)]
    by_cases hgrow : (s.kerns kern).numArgs ≤ i
    · simp only [id, if_pos hgrow]
    · simp only [id, if_neg hgrow, pure_bind]

/-- An index that has a successor is stored, unless the array cannot grow; and then nothing changes. -/
theorem inClSetKernelArg_error {i : UInt32} {size : UInt64} {value : Ptr} {r : ClInt} {t : Heap}
    (hvalid : kernHandleIsValid s kern = clSuccess) (hlive : s.live kern = some .kern) (hi : i ≠ -1)
    (h : inClSetKernelArg env kern i size value s = (.error r, t)) :
    t.kerns = s.kerns ∧ t.arrays = s.arrays := by
  by_cases hvalue : value = 0
  · rw [inClSetKernelArg, if_pos hvalue] at h
    obtain ⟨-, rfl⟩ := Prod.mk.inj h
    exact ⟨rfl, rfl⟩
  obtain ⟨arg, -, hrun⟩ := inClSetKernelArg_apply env size hvalue hvalid
  rw [hrun] at h
  by_cases hgrow : (s.kerns kern).numArgs ≤ i
  · have hsucc := succ_ne_zero_of_ne_max hi
    rw [if_pos hgrow] at h
    cases hq : env.calloc s with
    | none =>
      rw [Exec.bind_error (kernSetNumArgs_exhausted hvalid hsucc hq)] at h
      obtain ⟨-, rfl⟩ := Prod.mk.inj h
      exact ⟨rfl, rfl⟩
    | some q =>
      have hvalid' : kernHandleIsValid (s.grown kern q (i + 1)) kern = clSuccess :=
        grown_valid hvalid (calloc_ne hlive hq)
      have hput := kernSetArg_put arg hvalid' (by rw [grown_kerns]; exact lt_succ_of_ne_max hi)
      -- an array that grew has room for the record
      rw [Exec.bind_ok (kernSetNumArgs_grown hvalid hlive hsucc hq), hput] at h
      cases h
  · rw [if_neg hgrow, pure_bind, kernSetArg_put arg hvalid (UInt32.not_le.mp hgrow)] at h
    cases h

/-- The successor of the largest index is zero: the array goes, and the store is refused. -/
theorem inClSetKernelArg_max (env : Env) (size : UInt64) {value : Ptr} (hvalue : value ≠ 0)
    (hvalid : kernHandleIsValid s kern = clSuccess) :
    ∃ t, inClSetKernelArg env kern (-1) size value s = (.error clInvalidValue, t) ∧
      (t.kerns kern).numArgs = 0 := by
  obtain ⟨arg, -, hrun⟩ := inClSetKernelArg_apply (i := -1) env size hvalue hvalid
  obtain ⟨t, hzero, hcount, hmagic⟩ := kernSetNumArgs_zero env hvalid
  have hvalid' : kernHandleIsValid t kern = clSuccess := by
    rw [kernHandleIsValid, hmagic]
    exact hvalid
  have hgrow : (s.kerns kern).numArgs ≤ -1 := by
    rw [UInt32.le_iff_toNat_le]
    exact Nat.le_of_lt_succ (s.kerns kern).numArgs.toNat_lt
  refine ⟨t, ?_, hcount⟩
  rw [hrun, if_pos hgrow, show (-1 : UInt32) + 1 = 0 from rfl, Exec.bind_ok hzero,
    kernSetArg_outside arg hvalid' (by rw [hcount]; exact UInt32.zero_le)]

/-- **A failing call changes nothing** exactly when its index has a successor in 32 bits, or it fails
before it gets to the array, or the kernel has no arguments to lose. -/
theorem inClSetKernelArg_unchanged_iff (env : Env) (s : Heap) (kern : Ptr) (i : UInt32) (size : UInt64)
    (value : Ptr) (hvalid : kernHandleIsValid s kern = clSuccess) (hlive : s.live kern = some .kern) :
    (∀ r t, inClSetKernelArg env kern i size value s = (.error r, t) →
        (t.kerns kern).numArgs = (s.kerns kern).numArgs ∧ t.argRecords kern = s.argRecords kern) ↔
      (i = -1 → value = 0 ∨ (s.kerns kern).numArgs = 0) := by
  constructor
  · intro h hi
    subst hi
    by_contra hcon
    obtain ⟨hvalue, hnum⟩ := not_or.mp hcon
    -- all arguments are lost, and there were some
    obtain ⟨t, hrun, hcount⟩ := inClSetKernelArg_max env size hvalue hvalid
    have hsame := (h _ _ hrun).1
    rw [hcount] at hsame
    exact hnum hsame.symm
  · intro hcond r t ht
    by_cases hi : i = -1
    · subst hi
      by_cases hvalue : value = 0
      · rw [inClSetKernelArg, if_pos hvalue] at ht
        obtain ⟨-, rfl⟩ := Prod.mk.inj ht
        exact ⟨rfl, rfl⟩
      · have hnum := (hcond rfl).resolve_left hvalue
        obtain ⟨u, hrun, hcount⟩ := inClSetKernelArg_max env size hvalue hvalid
        obtain ⟨-, rfl⟩ := Prod.mk.inj (hrun.symm.trans ht)
        -- there were none to lose
        have hnone {v : Heap} (hv : (v.kerns kern).numArgs = 0) : v.argRecords kern = [] :=
          List.eq_nil_of_length_eq_zero (by rw [Heap.length_argRecords, hv]; rfl)
        rw [hnone hcount, hnone hnum, hcount, hnum]
        exact ⟨rfl, rfl⟩
    · obtain ⟨hkerns, harrays⟩ := inClSetKernelArg_error hvalid hlive hi ht
      rw [Heap.argRecords, Heap.argRecords, hkerns, harrays]
      exact ⟨rfl, rfl⟩

end Records

/-! ## The records as a map -/

section Map

variable {env : Env} {s t : Heap} {kern : Ptr}

theorem Heap.ArgsSound.grownArray (h : s.ArgsSound kern) {num : UInt32} (hnum : (s.kerns kern).numArgs ≤ num) :
    s.grownArray kern num =
      s.argRecords kern ++ List.replicate (num.toNat - (s.kerns kern).numArgs.toNat) .zero := by
  have hmin : min (s.kerns kern).numArgs num = (s.kerns kern).numArgs := if_pos hnum
  simp only [Heap.grownArray, Heap.argRecords, hmin]
  by_cases hargs : (s.kerns kern).args = 0
  · rw [if_pos hargs, h.none hargs]
    rfl
  · rw [if_neg hargs]

/-- The grown array is live, and the kernel is as sound as before. -/
theorem Heap.ArgsSound.grown (h : s.ArgsSound kern) {num : UInt32} {q : Ptr}
    (hnum : (s.kerns kern).numArgs ≤ num) (hq : env.calloc s = some q) :
    (s.grown kern q num).ArgsSound kern ∧ (s.grown kern q num).argRecords kern =
      s.argRecords kern ++ List.replicate (num.toNat - (s.kerns kern).numArgs.toNat) .zero := by
  obtain ⟨hzero, hfree, -⟩ := env.fresh s q hq
  have hne := calloc_ne h.live hq
  have hlives (p : Ptr) (hp : (s.kerns kern).args ≠ 0 → p ≠ (s.kerns kern).args) :
      (s.grown kern q num).live p = Function.update s.live q (some .args) p := by
    by_cases hargs : (s.kerns kern).args = 0
    · simp only [Heap.grown, if_pos hargs]
      rfl
    · simp only [Heap.grown, if_neg hargs]
      exact Function.update_of_ne (hp hargs) _ _
  have harrays : (s.grown kern q num).arrays q = s.grownArray kern num := by
    by_cases hargs : (s.kerns kern).args = 0
    · simp only [Heap.grown, if_pos hargs]
      exact Function.update_self ..
    · simp only [Heap.grown, if_neg hargs]
      exact Function.update_self ..
  have hlength : (s.grownArray kern num).length = num.toNat := by
    have hle := UInt32.le_iff_toNat_le.mp hnum
    rw [h.grownArray hnum, List.length_append, Heap.length_argRecords, List.length_replicate]
    omega
  refine ⟨⟨?_, grown_valid h.valid hne, ?_, ?_, ?_⟩, ?_⟩
  · rw [hlives kern, Function.update_of_ne hne, h.live]
    intro hargs heq
    have harray := h.array hargs
    rw [← heq, h.live] at harray
    cases harray
  · intro hargs
    rw [grown_kerns] at hargs
    exact absurd hargs hzero
  · intro _
    rw [grown_kerns]
    show (s.grown kern q num).live q = _
    rw [hlives q, Function.update_self]
    rintro hargs rfl
    rw [h.array hargs] at hfree
    cases hfree
  · intro _
    rw [grown_kerns]
    show ((s.grown kern q num).arrays q).length = num.toNat
    rw [harrays, hlength]
  · rw [Heap.argRecords, grown_kerns]
    show ((s.grown kern q num).arrays q).takeD num.toNat _ = _
    rw [harrays, List.takeD_eq_take _ hlength.ge, List.take_of_length_le hlength.le, h.grownArray hnum]

/-- A record that is put below the count. -/
theorem Heap.ArgsSound.putArg (h : s.ArgsSound kern) {i : UInt32} (arg : KernArg)
    (hi : i < (s.kerns kern).numArgs) :
    (s.putArg kern i arg).ArgsSound kern ∧
      (s.putArg kern i arg).argRecords kern = (s.argRecords kern).set i.toNat { arg with index := i } := by
  -- a kernel with an argument has an array
  have hargs : (s.kerns kern).args ≠ 0 := fun hargs => by
    rw [h.none hargs] at hi
    exact UInt32.not_lt_zero hi
  have harrays : (s.putArg kern i arg).arrays (s.kerns kern).args =
      (s.arrays (s.kerns kern).args).set i.toNat { arg with index := i } := Function.update_self ..
  have hsound : (s.putArg kern i arg).ArgsSound kern :=
    ⟨h.live, h.valid, h.none, h.array, fun _ => by
      show ((s.putArg kern i arg).arrays (s.kerns kern).args).length = _
      rw [harrays, List.length_set]
      exact h.length hargs⟩
  refine ⟨hsound, ?_⟩
  rw [hsound.argRecords hargs, h.argRecords hargs]
  exact harrays

/-- A call with a value and an index that has a successor, whose array gets its memory if it must grow. -/
structure SetArg.Sets (env : Env) (kern : Ptr) (s : Heap) (c : SetArg) (t : Heap) : Prop where
  value : c.value ≠ 0
  index : c.index ≠ -1
  alloc : (s.kerns kern).numArgs ≤ c.index → (env.calloc { s with bytes := c.memory }).isSome
  run : c.run env kern s = (.ok (), t)

/-- What a call that succeeds does to a kernel: its own record is replaced, the array grows to reach it, and
the other records stay. -/
structure SetArg.Effect (kern : Ptr) (s : Heap) (c : SetArg) (t : Heap) : Prop where
  sound : t.ArgsSound kern
  count : (t.kerns kern).numArgs.toNat = max (s.kerns kern).numArgs.toNat (c.index.toNat + 1)
  record : ∀ i, (t.argRecords kern).getD i .zero =
    if i = c.index.toNat then c.record else (s.argRecords kern).getD i .zero

theorem getD_set {α : Type} (l : List α) {i : Nat} (hi : i < l.length) (a d : α) (j : Nat) :
    (l.set i a).getD j d = if j = i then a else l.getD j d := by
  rw [List.getD_eq_getElem?_getD, List.getD_eq_getElem?_getD]
  by_cases hj : j = i
  · subst hj
    rw [if_pos rfl, List.getElem?_set_self hi, Option.getD_some]
  · rw [if_neg hj, List.getElem?_set_ne (Ne.symm hj)]

/-- Unset records behind a list are what there was: nothing. -/
theorem getD_append_replicate {α : Type} (l : List α) (n : Nat) (d : α) (j : Nat) :
    (l ++ List.replicate n d).getD j d = l.getD j d := by
  rw [List.getD_eq_getElem?_getD, List.getD_eq_getElem?_getD]
  by_cases hj : j < l.length
  · rw [List.getElem?_append_left hj]
  · rw [List.getElem?_append_right (Nat.le_of_not_lt hj), List.getElem?_eq_none (Nat.le_of_not_lt hj),
      List.getElem?_replicate]
    by_cases hn : j - l.length < n <;> simp [hn]

theorem toNat_succ_of_ne_max {i : UInt32} (hi : i ≠ -1) : (i + 1).toNat = i.toNat + 1 := by
  have hlt := UInt32.lt_iff_toNat_lt.mp (lt_succ_of_ne_max hi)
  rw [UInt32.toNat_add] at hlt ⊢
  have hone : (1 : UInt32).toNat = 1 := rfl
  have hsize := i.toNat_lt
  omega

/-- **A call sets its record.** It succeeds, the count reaches its index, and no other record changes. -/
theorem SetArg.run_sets (h : s.ArgsSound kern) (c : SetArg) (hvalue : c.value ≠ 0) (hi : c.index ≠ -1)
    (halloc : (s.kerns kern).numArgs ≤ c.index → (env.calloc { s with bytes := c.memory }).isSome) :
    ∃ t, c.Sets env kern s t ∧ c.Effect kern s t := by
  have h₀ : ({ s with bytes := c.memory } : Heap).ArgsSound kern :=
    ⟨h.live, h.valid, h.none, h.array, h.length⟩
  have hrecords : ({ s with bytes := c.memory } : Heap).argRecords kern = s.argRecords kern := rfl
  obtain ⟨arg, harg, hrun⟩ := inClSetKernelArg_apply env c.size hvalue h₀.valid (i := c.index)
  replace harg : ({ arg with index := c.index } : KernArg) = c.record := harg
  by_cases hgrow : (s.kerns kern).numArgs ≤ c.index
  · -- the array grows first
    obtain ⟨q, hq⟩ := Option.isSome_iff_exists.mp (halloc hgrow)
    have hsucc := succ_ne_zero_of_ne_max hi
    have hle : (s.kerns kern).numArgs ≤ c.index + 1 := by
      have hlt := lt_succ_of_ne_max hi
      rw [UInt32.le_iff_toNat_le] at hgrow ⊢
      rw [UInt32.lt_iff_toNat_lt] at hlt
      omega
    obtain ⟨h₁, hgrown⟩ := h₀.grown hle hq
    rw [hrecords] at hgrown
    generalize hs₁ : ({ s with bytes := c.memory } : Heap).grown kern q (c.index + 1) = s₁ at h₁ hgrown
    have hcount₁ : (s₁.kerns kern).numArgs = c.index + 1 := by rw [← hs₁, grown_kerns]
    have hlt₁ : c.index < (s₁.kerns kern).numArgs := by
      rw [hcount₁]
      exact lt_succ_of_ne_max hi
    obtain ⟨h₂, hput⟩ := h₁.putArg arg hlt₁
    refine ⟨s₁.putArg kern c.index arg, ⟨hvalue, hi, halloc, ?_⟩, h₂, ?_, fun i => ?_⟩
    · have hgrow₀ : (({ s with bytes := c.memory } : Heap).kerns kern).numArgs ≤ c.index := hgrow
      rw [SetArg.run, hrun, if_pos hgrow₀,
        Exec.bind_ok (kernSetNumArgs_grown h₀.valid h₀.live hsucc hq), hs₁, kernSetArg_put arg h₁.valid hlt₁]
    · show (s₁.kerns kern).numArgs.toNat = _
      have hle' := UInt32.le_iff_toNat_le.mp hgrow
      rw [hcount₁, toNat_succ_of_ne_max hi]
      omega
    · have hlength : c.index.toNat < (s₁.argRecords kern).length := by
        rw [Heap.length_argRecords]
        exact UInt32.lt_iff_toNat_lt.mp hlt₁
      rw [hput, getD_set _ hlength, harg, hgrown, getD_append_replicate]
  · -- there is room already
    have hlt : c.index < (s.kerns kern).numArgs := UInt32.not_le.mp hgrow
    obtain ⟨h₁, hput⟩ := h₀.putArg arg hlt
    refine ⟨({ s with bytes := c.memory } : Heap).putArg kern c.index arg, ⟨hvalue, hi, halloc, ?_⟩, h₁, ?_,
      fun i => ?_⟩
    · have hgrow₀ : ¬ (({ s with bytes := c.memory } : Heap).kerns kern).numArgs ≤ c.index := hgrow
      rw [SetArg.run, hrun, if_neg hgrow₀, pure_bind, kernSetArg_put arg h₀.valid hlt]
    · show (s.kerns kern).numArgs.toNat = _
      have hlt' := UInt32.lt_iff_toNat_lt.mp hlt
      omega
    · have hlength : c.index.toNat < (s.argRecords kern).length := by
        rw [Heap.length_argRecords]
        exact UInt32.lt_iff_toNat_lt.mp hlt
      rw [hput, hrecords, getD_set _ hlength, harg]

theorem SetArg.Sets.effect {c : SetArg} (h : s.ArgsSound kern) (hc : c.Sets env kern s t) :
    c.Effect kern s t := by
  obtain ⟨t', hsets, heffect⟩ := c.run_sets h hc.value hc.index hc.alloc
  obtain ⟨-, rfl⟩ := Prod.mk.inj (hc.run.symm.trans hsets.run)
  exact heffect

/-- The calls overwrite records. -/
theorem sets_overwrites (env : Env) (kern : Ptr) :
    Overwrites (fun s c t => SetArg.Sets env kern s c t) (Heap.ArgsSound · kern)
      (fun s i => (s.argRecords kern).getD i .zero)
      (fun _ c i => if i = c.index.toNat then some c.record else none) where
  keeps h hc := (hc.effect h).sound
  get_step h hc i := by
    rw [(hc.effect h).record i]
    split_ifs <;> rfl

/-- The count is the largest index and one. -/
theorem count_run {calls : List SetArg} (hrun : Run (fun s c t => SetArg.Sets env kern s c t) s calls t)
    (h : s.ArgsSound kern) :
    (s.kerns kern).numArgs.toNat ≤ (t.kerns kern).numArgs.toNat ∧
      (∀ c ∈ calls, c.index.toNat < (t.kerns kern).numArgs.toNat) ∧
      ((t.kerns kern).numArgs.toNat = (s.kerns kern).numArgs.toNat ∨
        ∃ c ∈ calls, (t.kerns kern).numArgs.toNat = c.index.toNat + 1) := by
  induction hrun with
  | nil s => exact ⟨le_rfl, by simp, Or.inl rfl⟩
  | @cons s u t c calls step rest ih =>
    have heffect := step.effect h
    obtain ⟨hgrows, hbelow, hlast⟩ := ih heffect.sound
    have hcount := heffect.count
    refine ⟨by omega, fun c' hc' => ?_, ?_⟩
    · rcases List.mem_cons.mp hc' with rfl | hc'
      · omega
      · exact hbelow c' hc'
    · rcases hlast with hsame | ⟨c', hc', heq⟩
      · rcases le_total (s.kerns kern).numArgs.toNat (c.index.toNat + 1) with hle | hle
        · rw [max_eq_right hle] at hcount
          exact Or.inr ⟨c, List.mem_cons_self .., hsame.trans hcount⟩
        · rw [max_eq_left hle] at hcount
          exact Or.inl (hsame.trans hcount)
      · exact Or.inr ⟨c', List.mem_cons_of_mem _ hc', heq⟩

/-- Every call that has to grow the array gets its memory. -/
def Allocates (env : Env) (kern : Ptr) : List SetArg → Heap → Prop
  | [], _ => True
  | c :: calls, s =>
    ((s.kerns kern).numArgs ≤ c.index → (env.calloc { s with bytes := c.memory }).isSome) ∧
      Allocates env kern calls (c.run env kern s).2

theorem run_setArgs {calls : List SetArg} (h : s.ArgsSound kern)
    (hvalue : ∀ c ∈ calls, c.value ≠ 0) (hindex : ∀ c ∈ calls, c.index ≠ -1)
    (halloc : Allocates env kern calls s) :
    Run (fun s c t => SetArg.Sets env kern s c t) s calls (setArgs env kern calls s) := by
  induction calls generalizing s with
  | nil => exact .nil s
  | cons c calls ih =>
    obtain ⟨t, hsets, heffect⟩ := c.run_sets h (hvalue c (List.mem_cons_self ..))
      (hindex c (List.mem_cons_self ..)) halloc.1
    have hstate : (c.run env kern s).2 = t := congrArg Prod.snd hsets.run
    refine .cons hsets ?_
    have hrest := ih heffect.sound (fun c' hc' => hvalue c' (List.mem_cons_of_mem _ hc'))
      (fun c' hc' => hindex c' (List.mem_cons_of_mem _ hc')) (hstate ▸ halloc.2)
    rw [← hstate] at hrest ⊢
    exact hrest

/-- A live kernel to which no argument was given yet: it has no array. -/
structure Heap.Bare (s : Heap) (kern : Ptr) : Prop where
  live : s.live kern = some .kern
  valid : kernHandleIsValid s kern = clSuccess
  args : (s.kerns kern).args = 0
  numArgs : (s.kerns kern).numArgs = 0

theorem Heap.Bare.argsSound (h : s.Bare kern) : s.ArgsSound kern :=
  ⟨h.live, h.valid, fun _ => h.numArgs, fun hargs => absurd h.args hargs, fun hargs => absurd h.args hargs⟩

theorem wp_kernAlloc_bare (env : Env) (prg : Ptr) (s : Heap) :
    Exec.wp (kernAlloc env prg) (fun kern s' => s'.Bare kern ∧ (s'.kerns kern).name = 0)
      (fun _ _ => True) s := by
  rw [kernAlloc, Exec.wp_bind, wp_require]
  refine ⟨fun _ => ?_, fun _ => trivial⟩
  rw [Exec.wp_bind]
  refine wp_calloc env .kern trivial fun q hq => ?_
  have hkern : ((s.allocated .kern q).setKern q ⟨prg, 0, 0, 0⟩).kerns q = ⟨prg, 0, 0, 0⟩ :=
    Function.update_self ..
  have hmagic : Function.update (s.allocated .kern q).magic q openclIcdMagic q = openclIcdMagic :=
    Function.update_self ..
  have hvalid : isValid clInvalidKernel q openclIcdMagic = clSuccess := by
    rw [isValid, if_neg hq.1]
    rfl
  refine ⟨⟨Function.update_self .., ?_, congrArg KernFields.args hkern, congrArg KernFields.numArgs hkern⟩,
    congrArg KernFields.name hkern⟩
  show isValid clInvalidKernel q (Function.update (s.allocated .kern q).magic q openclIcdMagic q) = _
  rw [hmagic, hvalid]

theorem wp_kernSetName_bare (env : Env) (name : CStr) (h : s.Bare kern) (hname : (s.kerns kern).name = 0) :
    Exec.wp (kernSetName env kern name) (fun _ s' => s'.Bare kern) (fun _ _ => True) s := by
  rw [kernSetName, Exec.wp_bind, wp_require]
  refine ⟨fun _ => ?_, fun _ => trivial⟩
  rw [kernDropName, bind_assoc, Exec.wp_bind, Exec.wp_gets, if_neg (not_not.mpr hname), pure_bind]
  refine (Exec.wp_bind ..).mpr (wp_calloc env .name
    ⟨h.live, h.valid, h.args, h.numArgs⟩ fun q hq => ?_)
  have hne : kern ≠ q := by
    rintro rfl
    rw [h.live] at hq
    cases hq.2.1
  have hfields : (s.allocated .name q).kerns kern = s.kerns kern := Function.update_of_ne hne _ _
  have hlive : (s.allocated .name q).live kern = some .kern :=
    (Function.update_of_ne hne _ _).trans h.live
  have hmagic : (s.allocated .name q).magic kern = s.magic kern := Function.update_of_ne hne _ _
  rw [Exec.wp_modify]
  refine ⟨hlive, ?_, ?_, ?_⟩
  · show isValid clInvalidKernel kern ((s.allocated .name q).magic kern) = _
    rw [hmagic]
    exact h.valid
  · simp only [Heap.setKern, Function.update_self, hfields, h.args]
  · simp only [Heap.setKern, Function.update_self, hfields, h.numArgs]

theorem wp_kernSetNumArgs_bare (env : Env) (h : s.Bare kern) :
    Exec.wp (kernSetNumArgs env kern 0) (fun _ s' => s'.Bare kern) (fun _ _ => True) s := by
  rw [kernSetNumArgs, Exec.wp_bind, wp_require]
  refine ⟨fun _ => ?_, fun _ => trivial⟩
  rw [if_pos rfl, kernDropArgs, bind_assoc, Exec.wp_bind, Exec.wp_gets, if_neg (not_not.mpr h.args)]
  exact ⟨h.live, h.valid, by simp [Heap.setKern], by simp [Heap.setKern]⟩

/-- A kernel that was just created has no arguments. -/
theorem created_bare {program : Ptr} {kernelName : Option CStr} {s₀ : Heap}
    (hcreate : inClCreateKernel env program kernelName s₀ = (.ok kern, s)) : s.Bare kern := by
  have herr (p : Ptr) (r : ClInt) (s : Heap) :
      Exec.wp (do let _ ← Exec.attempt (kernFree p); (Exec.exit r : Own Ptr))
        (fun kern s' => s'.Bare kern) (fun _ _ => True) s :=
    (Exec.wp_bind ..).mpr ((Exec.wp_attempt _).mpr (Exec.wp_state.mpr trivial))
  suffices hrun : Exec.wp (inClCreateKernel env program kernelName) (fun kern s' => s'.Bare kern)
      (fun _ _ => True) s₀ from hrun.ok hcreate
  rw [inClCreateKernel, Exec.wp_bind, Exec.wp_gets]
  cases kernelName with
  | none => exact herr _ _ _
  | some name =>
    refine (Exec.wp_bind ..).mpr ((Exec.wp_attempt _).mpr ((Exec.wp_bind ..).mpr (wp_require.mpr
      ⟨fun _ => ?_, fun _ => herr _ _ _⟩)))
    -- the three steps of the creation, each of which may fail
    refine (wp_kernAlloc_bare env program s₀).mono (fun kern s₁ h₁ => ?_) (fun r s₁ _ => herr _ _ _)
    refine (Exec.wp_bind ..).mpr ((Exec.wp_attempt _).mpr ((Exec.wp_bind ..).mpr ?_))
    refine (wp_kernSetName_bare env name h₁.1 h₁.2).mono (fun _ s₂ h₂ => ?_) (fun r _ _ => herr _ _ _)
    exact (wp_kernSetNumArgs_bare env h₂).mono (fun _ _ h₃ => h₃) (fun r _ _ => herr _ _ _)

end Map

/-- A kernel at `0x1000` whose argument zero is set. -/
def armedHeap : Heap :=
  ownAll (bumpEnv 0) [.createKernel 8 (some plainKernel.name), .setKernelArg 0x1000 0 4 0x200] bareHeap

/-- The process has no memory left: every allocation fails. -/
def exhaustedEnv : Env := { bumpEnv 0 with calloc := fun _ => none, fresh := fun _ _ h => by cases h }

/-- An argument behind the last one would have the array grow.  Without memory for that the call fails, and
the argument that is set stays. -/
theorem armed_unchanged :
    kernHandleIsValid armedHeap 0x1000 = clSuccess ∧ (armedHeap.kerns 0x1000).numArgs = 1 ∧
      (inClSetKernelArg exhaustedEnv 0x1000 1 4 0x200 armedHeap).1 = .error clOutOfHostMemory ∧
      ((inClSetKernelArg exhaustedEnv 0x1000 1 4 0x200 armedHeap).2.kerns 0x1000).numArgs = 1 ∧
        (inClSetKernelArg exhaustedEnv 0x1000 1 4 0x200 armedHeap).2.argRecords 0x1000 =
          armedHeap.argRecords 0x1000 := by
  have hone : (armedHeap.kerns 0x1000).numArgs = 1 := by decide +kernel
  have hfail : (inClSetKernelArg exhaustedEnv 0x1000 1 4 0x200 armedHeap).1 = .error clOutOfHostMemory := by
    decide +kernel
  have hsame := (inClSetKernelArg_unchanged_iff exhaustedEnv armedHeap 0x1000 1 4 0x200 (by decide +kernel)
    (by decide +kernel)).mpr (fun hi => absurd hi (by decide)) _ _ (Prod.ext hfail rfl)
  exact ⟨by decide +kernel, hone, hfail, hsame.1.trans hone, hsame.2⟩

/-- The call for the largest index is refused, and the argument is gone. -/
theorem armed_lost :
    kernHandleIsValid armedHeap 0x1000 = clSuccess ∧ armedHeap.live 0x1000 = some .kern ∧
      ¬ ∀ r t, inClSetKernelArg (bumpEnv 0) 0x1000 (-1) 4 0x200 armedHeap = (.error r, t) →
        (t.kerns 0x1000).numArgs = (armedHeap.kerns 0x1000).numArgs ∧
          t.argRecords 0x1000 = armedHeap.argRecords 0x1000 := by
  refine ⟨by decide +kernel, by decide +kernel, fun h => ?_⟩
  have hrun : (inClSetKernelArg (bumpEnv 0) 0x1000 (-1) 4 0x200 armedHeap).1 = .error clInvalidValue := by
    decide +kernel
  have hlost : (inClSetKernelArg (bumpEnv 0) 0x1000 (-1) 4 0x200 armedHeap).2.argRecords 0x1000 ≠
      armedHeap.argRecords 0x1000 := by
    decide +kernel
  exact hlost (h _ _ (Prod.ext hrun rfl)).2

end BaremetalCrt
