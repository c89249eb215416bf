/-
# BaremetalCrt.Api.Chunks — the chunks of a program, over every order of calls (`drivers/program.c`).

A launch takes the number of the chunks and then each of them, and trusts that the array has as many.  The
array is set by `prg_set_num_chunks`, which frees the old one before the new one is allocated and leaves the
number alone when the allocation fails.  So the number and the array agree in every state that is reached
just when no resize fails after an earlier one has succeeded (`chunks_sound_iff`).

Here an access outside the array shows; the accessors of the launch and of the loader are these ones
(`prgGetChunk_eq_getChunk`, `prgSetChunk_eq_setChunk`, `prgSetNumChunks_eq_setNumChunks`).
-/
import BaremetalCrt.Api.Process
import BaremetalCrt.Lib.Trace
import Mathlib.Data.List.Induction

namespace BaremetalCrt

open Lib

variable {δ : Type}

/-! ## Calls -/

/-- How an accessor ends: with a code, with the chunk that it stored at `chunk`, or with an access outside
the array. -/
inductive ChunkOut where
  | ret (r : ClInt)
  | got (chunk : ProgramChunk)
  | fault
  deriving DecidableEq, Repr

namespace ClProgram

/-- The program that `prg_alloc` leaves: valid, without an array, and with no chunks. -/
def allocated : ClProgram := ⟨openclIcdMagic, 0, none, ⟨0, 0⟩⟩

/-- The entries of the array; there are none when there is no array. -/
def contents (p : ClProgram) : List ProgramChunk := p.chunks.getD []

/-- `prg_set_num_chunks`; `ok` says whether `calloc` has memory. -/
def setNumChunks (num : Int) (ok : Bool) (p : ClProgram) : ClInt × ClProgram :=
  if p.magic ≠ openclIcdMagic then (clInvalidProgram, p)
  else
    -- the old array is gone before the new one is there
    let p := { p with chunks := none }
    if ok then (clSuccess, { p with chunks := some (List.replicate num.toNat .zero), numChunks := num })
    else (clOutOfHostMemory, p)

/-- `prg_get_chunk`; `chunk` says whether the pointer is there. -/
def getChunk (i : Int) (chunk : Bool) (p : ClProgram) : ChunkOut :=
  if p.magic ≠ openclIcdMagic then .ret clInvalidProgram
  else if i < 0 ∨ p.numChunks ≤ i then .ret clInvalidValue
  else if chunk then
    match p.contents[i.toNat]? with
    | none => .fault
    | some c => .got c
  else .ret clSuccess

/-- `prg_set_chunk`: the chunk at index `i` is replaced, if the index is one of the array. -/
def setChunk (i : Int) (chunk : Option ProgramChunk) (p : ClProgram) : ChunkOut × ClProgram :=
  if p.magic ≠ openclIcdMagic then (.ret clInvalidProgram, p)
  else
    match chunk with
    | none => (.ret clInvalidValue, p)
    | some chunk =>
      if i < 0 ∨ p.numChunks ≤ i then (.ret clInvalidValue, p)
      else if i.toNat < p.contents.length then (.ret clSuccess, p.putChunk i.toNat chunk)
      else (.fault, p)

end ClProgram

/-- A call of `prg_set_num_chunks`, whose allocation goes as `ok` says, of `prg_set_chunk` or of
`prg_get_chunk`; the pointers may be `NULL`. -/
inductive ChunkCall where
  | setNum (num : Int) (ok : Bool)
  | set (i : Int) (chunk : Option ProgramChunk)
  | get (i : Int) (chunk : Bool)
  deriving DecidableEq, Repr

namespace ChunkCall

/-- What the call returns, and the program behind it. -/
def step : ChunkCall → ClProgram → ChunkOut × ClProgram
  | setNum num ok, p => (.ret (p.setNumChunks num ok).1, (p.setNumChunks num ok).2)
  | set i chunk, p => p.setChunk i chunk
  | get i chunk, p => (p.getChunk i chunk, p)

/-- A count that is asked for is positive, as the loader's is. -/
def Positive : ChunkCall → Prop
  | setNum num _ => 0 < num
  | _ => True

/-- The call resizes the array, and its allocation succeeds. -/
def resizes : ChunkCall → Bool
  | setNum _ ok => ok
  | _ => false

/-- The call resizes the array, and its allocation fails. -/
def fails : ChunkCall → Bool
  | setNum _ ok => !ok
  | _ => false

end ChunkCall

/-- The program, and its calls so far with what they returned. -/
structure ChunkRun where
  prg : ClProgram
  trace : List (ChunkCall × ChunkOut)

namespace ChunkRun

/-- A call.  An access outside the array would end the process; the program is left as it was. -/
def call (r : ChunkRun) (c : ChunkCall) : ChunkRun :=
  ⟨(c.step r.prg).2, r.trace ++ [(c, (c.step r.prg).1)]⟩

/-- The calls, in order, on the program that `prg_alloc` returns. -/
def run (calls : List ChunkCall) : ChunkRun := calls.foldl call ⟨.allocated, []⟩

theorem run_snoc (calls : List ChunkCall) (c : ChunkCall) : run (calls ++ [c]) = (run calls).call c := by
  rw [run, List.foldl_append]
  rfl

end ChunkRun

/-! ## The accessors of the launch and of the loader -/

/-- The program that `prg_alloc` returns. -/
theorem prgAlloc_allocated {env : Env} {ctx t : Ptr} {p p' : Process δ} (h : prgAlloc env ctx p = (.ok t, p')) :
    p'.host.prgs t = .allocated := by
  obtain ⟨_, p₁, -, h⟩ := Exec.bind_eq_ok.mp h
  obtain ⟨out, p₂, -, h⟩ := Exec.bind_eq_ok.mp h
  cases out with
  | none => cases h
  | some q =>
    obtain ⟨ht, rfl⟩ := Prod.mk.inj h
    obtain rfl := Except.ok.inj ht
    simp [Process.host, Process.mark, ClProgram.allocated]

/-- Where the access is outside, the launch is modelled to read a chunk of zeros. -/
theorem prgGetChunk_eq_getChunk (h : Host δ) {prg : Ptr} (hprg : prg ≠ 0) (i : Int) :
    prgGetChunk h prg i = match (h.prgs prg).getChunk i true with
      | .ret r => .error r
      | .got c => .ok c
      | .fault => .ok .zero := by
  rw [prgGetChunk, prgIsValid, isValid, if_neg hprg, ClProgram.getChunk]
  by_cases hmagic : (h.prgs prg).magic ≠ openclIcdMagic
  · rw [if_pos hmagic, if_pos hmagic]
    rfl
  rw [if_neg hmagic, if_neg hmagic, check_success]
  by_cases hi : i < 0 ∨ (h.prgs prg).numChunks ≤ i
  · rw [if_pos hi, if_pos hi]
    rfl
  rw [if_neg hi, if_neg hi, if_pos rfl]
  show Except.ok ((h.prgs prg).contents.getD i.toNat .zero) = _
  rw [List.getD_eq_getElem?_getD]
  cases (h.prgs prg).contents[i.toNat]? <;> rfl

theorem prgSetChunk_eq_setChunk (h : Host δ) {prg : Ptr} (hprg : prg ≠ 0) (i : Int) (chunk : ProgramChunk)
    {r : ClInt} {p : ClProgram} (hset : (h.prgs prg).setChunk i (some chunk) = (.ret r, p)) :
    prgSetChunk h prg i chunk =
      if r = clSuccess then .ok { h with prgs := Function.update h.prgs prg p } else .error r := by
  rw [prgSetChunk, prgIsValid, isValid, if_neg hprg]
  rw [ClProgram.setChunk] at hset
  by_cases hmagic : (h.prgs prg).magic ≠ openclIcdMagic
  · rw [if_pos hmagic] at hset ⊢
    obtain ⟨hr, -⟩ := Prod.mk.inj hset
    obtain rfl := ChunkOut.ret.inj hr
    rfl
  rw [if_neg hmagic] at hset ⊢
  rw [check_success]
  by_cases hi : i < 0 ∨ (h.prgs prg).numChunks ≤ i
  · rw [if_pos hi] at hset ⊢
    obtain ⟨hr, -⟩ := Prod.mk.inj hset
    obtain rfl := ChunkOut.ret.inj hr
    rfl
  rw [if_neg hi] at hset ⊢
  split at hset
  · obtain ⟨hr, rfl⟩ := Prod.mk.inj hset
    obtain rfl := ChunkOut.ret.inj hr
    rfl
  · cases hset

theorem prgSetNumChunks_eq_setNumChunks (ok : Bool) (num : Int) (s : Loading) :
    prgSetNumChunks ok num s =
      (if (s.prg.setNumChunks num ok).1 = clSuccess then .ok ()
        else .error (.ret (s.prg.setNumChunks num ok).1),
        { s with prg := (s.prg.setNumChunks num ok).2 }) := by
  rw [ClProgram.setNumChunks]
  by_cases hmagic : s.prg.magic = openclIcdMagic
  · rw [if_neg (not_not_intro hmagic)]
    show (demand _ >>= _) s = _
    rw [if_pos hmagic]
    cases ok <;> rfl
  · rw [if_pos hmagic]
    show (demand _ >>= _) s = _
    rw [if_neg hmagic]
    rfl

/-! ## What was set last -/

/-- The call was a resize, and it returned `CL_SUCCESS`. -/
def isResize : ChunkCall × ChunkOut → Bool
  | (.setNum _ _, .ret r) => decide (r = clSuccess)
  | _ => false

/-- The call set a chunk at `i`, and it returned `CL_SUCCESS`. -/
def setsAt (i : Int) : ChunkCall × ChunkOut → Bool
  | (.set j (some _), .ret r) => decide (j = i ∧ r = clSuccess)
  | _ => false

/-- The last chunk that was set at `i` since the last resize, with its index, or zeros. -/
def lastChunk (i : Int) (tr : List (ChunkCall × ChunkOut)) : ProgramChunk :=
  match latest (setsAt i) (since isResize tr) with
  | some (.set _ (some chunk), _) => { chunk with index := i }
  | _ => .zero

variable {i : Int} {tr : List (ChunkCall × ChunkOut)} {e : ChunkCall × ChunkOut}

theorem lastChunk_of_isResize (he : isResize e = true) : lastChunk i (tr ++ [e]) = .zero := by
  rw [lastChunk, since_snoc, if_pos he, latest_nil]

theorem lastChunk_of_not (hresize : isResize e = false) (hset : setsAt i e = false) :
    lastChunk i (tr ++ [e]) = lastChunk i tr := by
  simp only [lastChunk, since_snoc, latest_snoc, hresize, hset, Bool.false_eq_true, if_false]

theorem lastChunk_set (chunk : ProgramChunk) :
    lastChunk i (tr ++ [(.set i (some chunk), .ret clSuccess)]) = { chunk with index := i } := by
  have hresize : isResize (.set i (some chunk), .ret clSuccess) = false := rfl
  have hset : setsAt i (.set i (some chunk), .ret clSuccess) = true := decide_eq_true ⟨rfl, rfl⟩
  simp only [lastChunk, since_snoc, latest_snoc, hresize, hset, Bool.false_eq_true, if_false, if_true]

/-! ## The store -/

/-- The array has as many entries as the number says; no call accesses anything outside; a chunk that is got
is the last one that was set; and a call that fails leaves the entries alone or leaves none. -/
structure ChunkRun.Sound (r : ChunkRun) : Prop where
  count : (r.prg.contents.length : Int) = r.prg.numChunks
  inside : ∀ c : ChunkCall, (c.step r.prg).1 ≠ .fault
  last : ∀ i, 0 ≤ i → i < r.prg.numChunks → r.prg.getChunk i true = .got (lastChunk i r.trace)
  errors : ∀ (c : ChunkCall) (e : ClInt), (c.step r.prg).1 = .ret e → e ≠ clSuccess →
    (c.step r.prg).2.contents = r.prg.contents ∨ (c.step r.prg).2.contents = []

/-- No resize fails after one has succeeded: the old array is dropped before the new one is allocated. -/
def NoLateFailure (calls : List ChunkCall) : Prop :=
  calls.Pairwise fun a b => ¬ (a.resizes = true ∧ b.fails = true)

instance : DecidablePred NoLateFailure := fun _ => inferInstanceAs (Decidable (List.Pairwise _ _))

/-! ## One call -/

section Step

variable {p : ClProgram}

/-- What a resize does. -/
theorem setNumChunks_cases (num : Int) (ok : Bool) (p : ClProgram) :
    (p.magic ≠ openclIcdMagic ∧ p.setNumChunks num ok = (clInvalidProgram, p)) ∨
    (ok = true ∧ p.setNumChunks num ok =
      (clSuccess, { p with chunks := some (List.replicate num.toNat .zero), numChunks := num })) ∨
    (ok = false ∧ p.setNumChunks num ok = (clOutOfHostMemory, { p with chunks := none })) := by
  by_cases hmagic : p.magic ≠ openclIcdMagic
  · exact Or.inl ⟨hmagic, if_pos hmagic⟩
  right
  rw [ClProgram.setNumChunks, if_neg hmagic]
  cases ok with
  | true => exact Or.inl ⟨rfl, rfl⟩
  | false => exact Or.inr ⟨rfl, rfl⟩

/-- What the set of a chunk does: it is refused, or it is accepted. -/
theorem setChunk_cases (i : Int) (chunk : Option ProgramChunk) (p : ClProgram) :
    (∃ e, e ≠ clSuccess ∧ p.setChunk i chunk = (.ret e, p)) ∨
    (∃ c, chunk = some c ∧ 0 ≤ i ∧ i < p.numChunks ∧ p.setChunk i chunk =
      if i.toNat < p.contents.length then (.ret clSuccess, p.putChunk i.toNat c) else (.fault, p)) := by
  by_cases hmagic : p.magic ≠ openclIcdMagic
  · exact Or.inl ⟨clInvalidProgram, by decide, if_pos hmagic⟩
  cases chunk with
  | none => exact Or.inl ⟨clInvalidValue, by decide, if_neg hmagic⟩
  | some c =>
    have hset : p.setChunk i (some c) = if i < 0 ∨ p.numChunks ≤ i then (.ret clInvalidValue, p)
        else if i.toNat < p.contents.length then (.ret clSuccess, p.putChunk i.toNat c) else (.fault, p) :=
      if_neg hmagic
    by_cases hi : i < 0 ∨ p.numChunks ≤ i
    · exact Or.inl ⟨clInvalidValue, by decide, hset.trans (if_pos hi)⟩
    · exact Or.inr ⟨c, rfl, by omega, by omega, hset.trans (if_neg hi)⟩

theorem contents_putChunk (p : ClProgram) (i : Nat) (c : ProgramChunk) :
    (p.putChunk i c).contents = p.contents.set i { c with index := i } := by
  rw [ClProgram.contents, ClProgram.putChunk, ClProgram.contents]
  cases p.chunks <;> rfl

/-- What is got is the entry, if it is there. -/
theorem getChunk_of_accepted {i : Int} (hmagic : p.magic = openclIcdMagic) (hlow : 0 ≤ i)
    (hhigh : i < p.numChunks) (hlen : i.toNat < p.contents.length) :
    p.getChunk i true = .got p.contents[i.toNat] := by
  rw [ClProgram.getChunk, if_neg (not_not_intro hmagic), if_neg (by omega), if_pos rfl,
    List.getElem?_eq_getElem hlen]

theorem getChunk_ne_fault (hcount : (p.contents.length : Int) = p.numChunks) (i : Int) (chunk : Bool) :
    p.getChunk i chunk ≠ .fault := by
  by_cases hmagic : p.magic = openclIcdMagic
  · by_cases hi : i < 0 ∨ p.numChunks ≤ i
    · rw [ClProgram.getChunk, if_neg (not_not_intro hmagic), if_pos hi]
      exact ChunkOut.noConfusion
    · cases chunk with
      | true =>
        rw [getChunk_of_accepted hmagic (by omega) (by omega) (by omega)]
        exact ChunkOut.noConfusion
      | false =>
        rw [ClProgram.getChunk, if_neg (not_not_intro hmagic), if_neg hi, if_neg Bool.false_ne_true]
        exact ChunkOut.noConfusion
  · rw [ClProgram.getChunk, if_pos hmagic]
    exact ChunkOut.noConfusion

variable (c : ChunkCall)

theorem ChunkCall.step_magic : (c.step p).2.magic = p.magic := by
  cases c with
  | setNum num ok =>
    show (p.setNumChunks num ok).2.magic = _
    rcases setNumChunks_cases num ok p with ⟨-, h⟩ | ⟨-, h⟩ | ⟨-, h⟩ <;> rw [h]
  | set i chunk =>
    show (p.setChunk i chunk).2.magic = _
    rcases setChunk_cases i chunk p with ⟨e, -, h⟩ | ⟨c, -, -, -, h⟩ <;> rw [h]
    split <;> rfl
  | get i chunk => rfl

/-- An error leaves the entries alone, but for that of a resize, which leaves none. -/
theorem ChunkCall.step_errors {e : ClInt} (hstep : (c.step p).1 = .ret e) (he : e ≠ clSuccess) :
    (c.step p).2.contents = p.contents ∨ (c.step p).2.contents = [] := by
  cases c with
  | setNum num ok =>
    have hret : (p.setNumChunks num ok).1 = e := ChunkOut.ret.inj hstep
    show (p.setNumChunks num ok).2.contents = _ ∨ (p.setNumChunks num ok).2.contents = _
    rcases setNumChunks_cases num ok p with ⟨-, h⟩ | ⟨-, h⟩ | ⟨-, h⟩ <;> rw [h] at hret ⊢
    · exact Or.inl rfl
    · exact absurd hret.symm he
    · exact Or.inr rfl
  | set i chunk =>
    have hret : (p.setChunk i chunk).1 = .ret e := hstep
    left
    show (p.setChunk i chunk).2.contents = _
    rcases setChunk_cases i chunk p with ⟨e', -, h⟩ | ⟨c, -, -, -, h⟩ <;> rw [h] at hret ⊢
    split at hret
    · exact absurd (ChunkOut.ret.inj hret).symm he
    · cases hret
  | get i chunk => exact Or.inl rfl

/-- Where the array has as many entries as the number says, no access is outside. -/
theorem ChunkCall.step_inside (hcount : (p.contents.length : Int) = p.numChunks) : (c.step p).1 ≠ .fault := by
  cases c with
  | setNum num ok => exact ChunkOut.noConfusion
  | set i chunk =>
    show (p.setChunk i chunk).1 ≠ _
    rcases setChunk_cases i chunk p with ⟨e, -, h⟩ | ⟨c, -, hlow, hhigh, h⟩ <;> rw [h]
    · exact ChunkOut.noConfusion
    · rw [if_pos (by omega)]
      exact ChunkOut.noConfusion
  | get i chunk => exact getChunk_ne_fault hcount i chunk

/-- The number is that of the last resize that succeeded. -/
theorem ChunkCall.step_numChunks (hmagic : p.magic = openclIcdMagic) :
    (∃ num, c = .setNum num true ∧ (c.step p).2.numChunks = num) ∨
    (c.resizes = false ∧ (c.step p).2.numChunks = p.numChunks) := by
  cases c with
  | setNum num ok =>
    show _ ∨ (_ ∧ (p.setNumChunks num ok).2.numChunks = _)
    rcases setNumChunks_cases num ok p with ⟨hbad, -⟩ | ⟨rfl, h⟩ | ⟨rfl, h⟩
    · exact absurd hmagic hbad
    · refine Or.inl ⟨num, rfl, ?_⟩
      show (p.setNumChunks num true).2.numChunks = _
      rw [h]
    · refine Or.inr ⟨rfl, ?_⟩
      rw [h]
  | set i chunk =>
    refine Or.inr ⟨rfl, ?_⟩
    show (p.setChunk i chunk).2.numChunks = _
    rcases setChunk_cases i chunk p with ⟨e, -, h⟩ | ⟨c, -, -, -, h⟩ <;> rw [h]
    split <;> rfl
  | get i chunk => exact Or.inr ⟨rfl, rfl⟩

end Step

/-! ## Runs -/

variable {calls : List ChunkCall}

theorem ChunkRun.run_magic (calls : List ChunkCall) : (ChunkRun.run calls).prg.magic = openclIcdMagic := by
  induction calls using List.reverseRecOn with
  | nil => rfl
  | append_singleton calls c ih =>
    rw [ChunkRun.run_snoc]
    exact c.step_magic.trans ih

/-- The number is positive once a resize has succeeded, and `0` before that. -/
theorem ChunkRun.run_numChunks (hpos : ∀ c ∈ calls, c.Positive) :
    if ∃ c ∈ calls, c.resizes = true then 0 < (ChunkRun.run calls).prg.numChunks
    else (ChunkRun.run calls).prg.numChunks = 0 := by
  induction calls using List.reverseRecOn with
  | nil => simp [ChunkRun.run, ClProgram.allocated]
  | append_singleton calls c ih =>
    have ih := ih fun c hc => hpos c (List.mem_append_left _ hc)
    have hc := hpos c (List.mem_append_right _ (List.mem_singleton_self c))
    rw [ChunkRun.run_snoc]
    show if _ then 0 < (c.step (ChunkRun.run calls).prg).2.numChunks
      else (c.step (ChunkRun.run calls).prg).2.numChunks = 0
    rcases c.step_numChunks (ChunkRun.run_magic calls) with ⟨num, rfl, hnum⟩ | ⟨hresize, hnum⟩
    · rw [if_pos ⟨_, List.mem_append_right _ (List.mem_singleton_self _), rfl⟩, hnum]
      exact hc
    · have hsame : (∃ c' ∈ calls ++ [c], c'.resizes = true) ↔ ∃ c' ∈ calls, c'.resizes = true := by
        simp [or_and_right, exists_or, hresize]
      simp only [hsame, hnum]
      exact ih

/-- The array has as many entries as the number says, and they are the chunks that were set last. -/
structure ChunkRun.Kept (r : ChunkRun) : Prop where
  count : (r.prg.contents.length : Int) = r.prg.numChunks
  entries : ∀ i : Nat, ∀ hi : i < r.prg.contents.length, r.prg.contents[i] = lastChunk i r.trace

/-- A call that leaves the program alone. -/
theorem ChunkRun.Kept.unchanged {r : ChunkRun} (h : r.Kept) (hresize : isResize e = false)
    (hset : ∀ i, setsAt i e = false) : Kept ⟨r.prg, r.trace ++ [e]⟩ where
  count := h.count
  entries := by
    intro i hi
    rw [lastChunk_of_not hresize (hset i)]
    exact h.entries i hi

/-- **A call keeps it**, when a resize that fails finds nothing to lose. -/
theorem ChunkRun.Kept.call {r : ChunkRun} (h : r.Kept) {c : ChunkCall} (hpos : c.Positive)
    (hfail : c.fails = true → r.prg.numChunks = 0) : (r.call c).Kept := by
  cases c with
  | setNum num ok =>
    show Kept ⟨(r.prg.setNumChunks num ok).2, r.trace ++ [(_, .ret (r.prg.setNumChunks num ok).1)]⟩
    rcases setNumChunks_cases num ok r.prg with ⟨hmagic, hset⟩ | ⟨rfl, hset⟩ | ⟨rfl, hset⟩ <;> rw [hset]
    · exact h.unchanged rfl fun _ => rfl
    · -- a new array of zeros
      have hnum : 0 < num := hpos
      refine ⟨?_, fun i hi => ?_⟩
      · show ((List.replicate num.toNat ProgramChunk.zero).length : Int) = num
        rw [List.length_replicate]
        omega
      · rw [lastChunk_of_isResize rfl]
        exact List.getElem_replicate ..
    · have hzero : r.prg.numChunks = 0 := hfail rfl
      exact ⟨hzero.symm, fun i hi => absurd hi (Nat.not_lt_zero i)⟩
  | set i chunk =>
    show Kept ⟨(r.prg.setChunk i chunk).2, r.trace ++ [(_, (r.prg.setChunk i chunk).1)]⟩
    rcases setChunk_cases i chunk r.prg with ⟨e, he, hset⟩ | ⟨c, rfl, hlow, hhigh, hset⟩ <;> rw [hset]
    · have hnone (j : Int) : setsAt j (.set i chunk, .ret e) = false := by
        cases chunk with
        | none => rfl
        | some c => exact decide_eq_false fun hj => he hj.2
      exact h.unchanged rfl hnone
    · have hcount := h.count
      have hlen : i.toNat < r.prg.contents.length := by omega
      have hcast : (i.toNat : Int) = i := Int.toNat_of_nonneg hlow
      rw [if_pos hlen]
      refine ⟨?_, fun j hj => ?_⟩ <;> dsimp only at *
      · rw [contents_putChunk, List.length_set]
        exact hcount
      · simp only [contents_putChunk, List.length_set] at hj ⊢
        rw [List.getElem_set]
        by_cases hij : i.toNat = j
        · subst hij
          rw [if_pos rfl, hcast, lastChunk_set]
        · have hnone : setsAt j (.set i (some c), .ret clSuccess) = false :=
            decide_eq_false fun hj => hij (by omega)
          rw [if_neg hij, lastChunk_of_not rfl hnone]
          exact h.entries j hj
  | get i chunk => exact h.unchanged rfl fun _ => rfl

theorem ChunkRun.Kept.sound {r : ChunkRun} (h : r.Kept) (hmagic : r.prg.magic = openclIcdMagic) : r.Sound where
  count := h.count
  inside := fun c => c.step_inside h.count
  last := by
    intro i hlow hhigh
    have hcount := h.count
    have hlen : i.toNat < r.prg.contents.length := by omega
    rw [getChunk_of_accepted hmagic hlow hhigh hlen, h.entries _ hlen, Int.toNat_of_nonneg hlow]
  errors := fun c _ => c.step_errors

theorem noLateFailure_snoc {c : ChunkCall} :
    NoLateFailure (calls ++ [c]) ↔
      NoLateFailure calls ∧ ∀ a ∈ calls, ¬ (a.resizes = true ∧ c.fails = true) := by
  rw [NoLateFailure, List.pairwise_append]
  simp [NoLateFailure]

/-- Every call of a run keeps it, when no resize fails late. -/
theorem ChunkRun.run_kept (hpos : ∀ c ∈ calls, c.Positive) (h : NoLateFailure calls) :
    (ChunkRun.run calls).Kept := by
  induction calls using List.reverseRecOn with
  | nil => exact ⟨rfl, fun i hi => absurd hi (Nat.not_lt_zero i)⟩
  | append_singleton calls c ih =>
    obtain ⟨hcalls, hlate⟩ := noLateFailure_snoc.mp h
    have hpos' : ∀ c ∈ calls, c.Positive := fun c hc => hpos c (List.mem_append_left _ hc)
    rw [ChunkRun.run_snoc]
    apply (ih hpos' hcalls).call (hpos c (List.mem_append_right _ (List.mem_singleton_self c)))
    intro hfail
    have hnum := ChunkRun.run_numChunks hpos'
    rwa [if_neg] at hnum
    rintro ⟨a, ha, hresize⟩
    exact hlate a ha ⟨hresize, hfail⟩

/-- A resize that fails after one has succeeded leaves a number, and no array. -/
theorem not_sound_of_late (hpos : ∀ c ∈ calls, c.Positive) {a c : ChunkCall} (ha : a ∈ calls)
    (hresize : a.resizes = true) (hfail : c.fails = true) : ¬ (ChunkRun.run (calls ++ [c])).Sound := by
  intro hsound
  have hcount := hsound.count
  have hnum := ChunkRun.run_numChunks hpos
  rw [if_pos ⟨a, ha, hresize⟩] at hnum
  rw [ChunkRun.run_snoc] at hcount
  cases c with
  | setNum num ok =>
    have hok : ok = false := by simpa [ChunkCall.fails] using hfail
    subst hok
    have hmagic := ChunkRun.run_magic calls
    change (((ChunkRun.run calls).prg.setNumChunks num false).2.contents.length : Int) =
      ((ChunkRun.run calls).prg.setNumChunks num false).2.numChunks at hcount
    rcases setNumChunks_cases num false (ChunkRun.run calls).prg with ⟨hbad, -⟩ | ⟨hok, -⟩ | ⟨-, hset⟩
    · exact hbad hmagic
    · cases hok
    · rw [hset] at hcount
      change (0 : Int) = (ChunkRun.run calls).prg.numChunks at hcount
      omega
  | set i chunk => cases hfail
  | get i chunk => cases hfail

/-- **The array and its number agree in every state that is reached just when no resize fails after one has
succeeded.** -/
theorem chunks_sound_iff (calls : List ChunkCall) (hpos : ∀ c ∈ calls, c.Positive) :
    (∀ pre, pre <+: calls → (ChunkRun.run pre).Sound) ↔ NoLateFailure calls := by
  constructor
  · intro h
    induction calls using List.reverseRecOn with
    | nil => exact List.Pairwise.nil
    | append_singleton calls c ih =>
      have hpos' : ∀ c ∈ calls, c.Positive := fun c hc => hpos c (List.mem_append_left _ hc)
      refine noLateFailure_snoc.mpr ⟨ih hpos' fun pre hpre => h pre (hpre.trans (List.prefix_append ..)), ?_⟩
      rintro a ha ⟨hresize, hfail⟩
      exact not_sound_of_late hpos' ha hresize hfail (h _ (List.prefix_refl _))
  · intro h pre hpre
    have hpos' : ∀ c ∈ pre, c.Positive := fun c hc => hpos c (hpre.subset hc)
    exact (ChunkRun.run_kept hpos' (List.Pairwise.sublist hpre.sublist h)).sound (ChunkRun.run_magic pre)

/-- Two resizes, with a chunk set between them and refused behind them. -/
def twoResizes : List ChunkCall :=
  [.setNum 2 true, .set 1 (some ⟨9, 0x80000000, 64, 16, true, false⟩), .get 1 true, .setNum 1 true, .get 0 true,
    .set 1 (some .zero)]

theorem chunks_sound_twoResizes :
    NoLateFailure twoResizes ∧ ∀ pre, pre <+: twoResizes → (ChunkRun.run pre).Sound := by
  have hlate : NoLateFailure twoResizes := by decide
  exact ⟨hlate, (chunks_sound_iff twoResizes (by simp [twoResizes, ChunkCall.Positive])).mpr hlate⟩

/-- Two resizes to one chunk, of which the second fails. -/
def lateFailure : List ChunkCall := [.setNum 1 true, .setNum 1 false]

/-- There is one chunk left to get, and nowhere to get it from. -/
theorem lateFailure_not_sound :
    (∀ c ∈ lateFailure, c.Positive) ∧ ¬ (ChunkRun.run lateFailure).Sound ∧
      (ChunkCall.step (.get 0 true) (ChunkRun.run lateFailure).prg).1 = .fault := by
  refine ⟨by simp [lateFailure, ChunkCall.Positive], fun h => ?_, rfl⟩
  exact h.inside (.get 0 true) rfl

end BaremetalCrt
