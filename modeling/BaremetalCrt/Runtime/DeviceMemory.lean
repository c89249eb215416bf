/-
# BaremetalCrt.Runtime.DeviceMemory — a device that has memory.

What the runtime relies on when it moves bytes: `mem` reads the memory off the state of driver and
hardware, and an operation of the driver that returns `CL_SUCCESS` has transferred exactly the bytes
it was asked for (`DevOps.Exact`).  An operation that fails may have done anything.  The wrappers of
`drivers/device.c` inherit the promise.

A stricter promise is `DevOps.Stores`: the memory changes by writes and by runs only, and a write that fails
has put a part of its bytes there and nothing else. It is what the image of a program needs, which stays on
the device over many launches, some of which may fail.
-/
import BaremetalCrt.Runtime.Device

namespace BaremetalCrt

open Lib

variable {δ : Type}

/-- A write that succeeds stores its bytes, and a read that succeeds delivers the bytes that are
there and leaves them. -/
structure DevOps.Exact (ops : DevOps δ) (mem : δ → ByteMap) : Prop where
  write : ∀ f, ops.writeMem = some f → ∀ d paddr data, (f d paddr data).1 = clSuccess →
    mem (f d paddr data).2 = (mem d).store paddr.toNat data
  read : ∀ f, ops.readMem = some f → ∀ d paddr len, (f d paddr len).1.1 = clSuccess →
    (∀ i, i < len.toNat → (f d paddr len).1.2 i = some (mem d (paddr.toNat + i))) ∧
      mem (f d paddr len).2 = mem d

/-- The driver of the device behind `dev` moves bytes exactly. -/
def Host.Exact (h : Host δ) (dev : Ptr) (mem : δ → ByteMap) : Prop :=
  ∀ ops, (h.devs dev).ops = some ops → ops.Exact mem

variable {h : Host δ} {dev : Ptr} {mem : δ → ByteMap}

/-- The shape of a memory call that succeeded: nothing to do, or the driver's operation. -/
theorem devMemRet_cases {α : Type} {f : Option (δ → α × δ)} {ok : α} {err : ClInt → α}
    {bufNull : Bool} {len : UInt64} {d : δ} (ret : α → ClInt) (herr : ∀ e, ret (err e) = e)
    (hret : ret (devMemRet f ok err h dev bufNull len d).1 = clSuccess) :
    len = 0 ∧ devMemRet f ok err h dev bufNull len d = (ok, d) ∨
      ∃ op, f = some op ∧ devMemRet f ok err h dev bufNull len d = op d := by
  unfold devMemRet at hret ⊢
  by_cases hv : devIsValid h dev = clSuccess
  · rw [if_neg (not_not.mpr hv)] at hret ⊢
    cases f with
    | none =>
      replace hret : ret (err clInvalidDevice) = clSuccess := hret
      rw [herr] at hret
      exact absurd hret (by decide)
    | some op =>
      by_cases hn : bufNull = true ∧ len ≠ 0
      · replace hret : ret (if bufNull = true ∧ len ≠ 0 then (err clInvalidValue, d) else _).1 =
          clSuccess := hret
        rw [if_pos hn, herr] at hret
        exact absurd hret (by decide)
      · show len = 0 ∧ (if bufNull = true ∧ len ≠ 0 then _ else _) = _ ∨
          ∃ op', some op = some op' ∧ (if bufNull = true ∧ len ≠ 0 then _ else _) = op' d
        rw [if_neg hn]
        by_cases hz : len = 0
        · rw [if_pos hz]
          exact Or.inl ⟨hz, rfl⟩
        · rw [if_neg hz]
          exact Or.inr ⟨op, rfl, rfl⟩
  · rw [if_pos hv, herr] at hret
    exact absurd hret hv

/-- `dev_write_mem` stores what it was given. -/
theorem Host.Exact.write (he : h.Exact dev mem) {paddr len : UInt64} {buf : CPtr} {d : δ}
    (hret : (devWriteMemRet h dev paddr buf len d).1 = clSuccess) :
    mem (devWriteMemRet h dev paddr buf len d).2 =
      (mem d).store paddr.toNat (h.read buf len.toNat) := by
  rcases devMemRet_cases id (fun _ => rfl) hret with ⟨hz, hdo⟩ | ⟨op, hop, hdo⟩
  · replace hdo : devWriteMemRet h dev paddr buf len d = (clSuccess, d) := hdo
    have hnil : h.read buf len.toNat = [] := by
      apply List.eq_nil_of_length_eq_zero
      rw [Host.length_read, hz]
      rfl
    rw [hnil, ByteMap.store_nil, hdo]
  · obtain ⟨f, hf, rfl⟩ := Option.map_eq_some_iff.mp hop
    obtain ⟨ops, hops, hw⟩ := Option.bind_eq_some_iff.mp hf
    replace hdo : devWriteMemRet h dev paddr buf len d = f d paddr (h.read buf len.toNat) := hdo
    rw [hdo] at hret ⊢
    exact (he ops hops).write f hw d paddr _ hret

/-- `dev_read_mem` delivers what is there, and leaves it. -/
theorem Host.Exact.read (he : h.Exact dev mem) {paddr len : UInt64} {bufNull : Bool} {d : δ}
    (hret : (devReadMemRet h dev paddr bufNull len d).1.1 = clSuccess) :
    (∀ i, i < len.toNat →
        (devReadMemRet h dev paddr bufNull len d).1.2 i = some (mem d (paddr.toNat + i))) ∧
      mem (devReadMemRet h dev paddr bufNull len d).2 = mem d := by
  rcases devMemRet_cases Prod.fst (fun _ => rfl) hret with ⟨hz, hdo⟩ | ⟨op, hop, hdo⟩
  · rw [devReadMemRet, hdo, hz]
    exact ⟨fun i hi => absurd hi (Nat.not_lt_zero i), rfl⟩
  · obtain ⟨f, hf, rfl⟩ := Option.map_eq_some_iff.mp hop
    obtain ⟨ops, hops, hr⟩ := Option.bind_eq_some_iff.mp hf
    rw [devReadMemRet, hdo] at hret ⊢
    exact (he ops hops).read f hr d paddr len hret

/-- A read of host memory that succeeded is a store of the device's bytes. -/
theorem Host.Exact.readEvent {s : Sys δ} (he : s.host.Exact dev mem) {paddr len : UInt64} {ptr : Ptr}
    (hret : (readEvent dev paddr ptr len s).ret = clSuccess) :
    (BaremetalCrt.readEvent dev paddr ptr len s).hostAfter =
        s.host.bytes.store ptr ((mem s.dev).load paddr.toNat len.toNat) ∧
      mem (BaremetalCrt.readEvent dev paddr ptr len s).devAfter = mem s.dev := by
  obtain ⟨hbytes, hmem⟩ := he.read hret
  refine ⟨?_, hmem⟩
  show s.host.bytes.patch ptr len.toNat (devReadMemRet s.host dev paddr (ptr == 0) len s.dev).1.2 = _
  funext x
  by_cases hx : x ∈ span ptr len.toNat
  · obtain ⟨hlo, hhi⟩ := mem_span.mp hx
    have hi : x - ptr < ((mem s.dev).load paddr.toNat len.toNat).length := by
      rw [ByteMap.length_load]
      omega
    have hat := ByteMap.store_at s.host.bytes (a := ptr) hi
    rw [Nat.add_sub_cancel' hlo] at hat
    rw [ByteMap.patch_of_mem _ hx, hbytes _ (by omega), hat, Option.getD_some]
    have hget := (mem s.dev).getElem?_load paddr.toNat len.toNat (x - ptr)
    rw [List.getElem?_eq_getElem hi, if_pos (by omega)] at hget
    exact (Option.some.inj hget).symm
  · rw [ByteMap.patch_of_notMem _ hx, ByteMap.store_of_notMem]
    rwa [ByteMap.length_load]

/-! ## What calls do to the memory -/

/-- The memory changes by writes and by runs only: a write that fails may have been cut short, but
puts nothing else anywhere. -/
structure DevOps.Stores (ops : DevOps δ) (mem : δ → ByteMap) : Prop extends ops.Exact mem where
  reset : ∀ f, ops.reset = some f → ∀ d, mem (f d).2 = mem d
  partly : ∀ f, ops.writeMem = some f → ∀ d paddr data,
    (mem d).Partly (paddr.toNat, data) (mem (f d paddr data).2)
  keeps : ∀ f, ops.readMem = some f → ∀ d paddr len, mem (f d paddr len).2 = mem d

/-- What an event says about the memory.  About a run, and about a stop, which lets the device run
until then, it says nothing. -/
def Event.Lawful (mem : δ → ByteMap) (e : Event δ) : Prop :=
  match e.op with
  | .run | .stop => True
  | .reset | .readMem .. => mem e.devAfter = mem e.devBefore
  | .writeMem _ paddr data =>
    (mem e.devBefore).Partly (paddr.toNat, data) (mem e.devAfter) ∧
      (e.ret = clSuccess → (mem e.devAfter).Holds (paddr.toNat, data))

/-- A memory call leaves the device alone, or is the driver's operation. -/
theorem devMemRet_snd {α : Type} {f : Option (δ → α × δ)} {ok : α} {err : ClInt → α}
    {bufNull : Bool} {len : UInt64} {d : δ} :
    (devMemRet f ok err h dev bufNull len d).2 = d ∨
      ∃ op, f = some op ∧ (devMemRet f ok err h dev bufNull len d).2 = (op d).2 := by
  unfold devMemRet
  split
  · exact Or.inl rfl
  · cases f with
    | none => exact Or.inl rfl
    | some op =>
      by_cases hnull : bufNull = true ∧ len ≠ 0
      · simp only [if_pos hnull, true_or]
      · by_cases hlen : len = 0
        · simp only [if_neg hnull, if_pos hlen, true_or]
        · simp only [if_neg hnull, if_neg hlen]
          exact Or.inr ⟨op, rfl, rfl⟩

section Stores

variable (hst : ∀ ops, (h.devs dev).ops = some ops → ops.Stores mem)
include hst

theorem exact_of_stores : h.Exact dev mem := fun ops hops => (hst ops hops).toExact

theorem devControlRet_reset_mem (d : δ) : mem (devControlRet (·.reset) h dev d).2 = mem d := by
  unfold devControlRet
  split
  · rfl
  · split
    · rfl
    · next f hf =>
      obtain ⟨ops, hops, hr⟩ := Option.bind_eq_some_iff.mp hf
      exact (hst ops hops).reset f hr d

theorem devReadMemRet_mem {paddr len : UInt64} {bufNull : Bool} (d : δ) :
    mem (devReadMemRet h dev paddr bufNull len d).2 = mem d := by
  have hcases : (devReadMemRet h dev paddr bufNull len d).2 = d ∨ _ := devMemRet_snd
  rcases hcases with hsame | ⟨op, hop, hdo⟩
  · exact congrArg mem hsame
  · obtain ⟨f, hf, rfl⟩ := Option.map_eq_some_iff.mp hop
    obtain ⟨ops, hops, hr⟩ := Option.bind_eq_some_iff.mp hf
    exact (congrArg mem hdo).trans ((hst ops hops).keeps f hr d paddr len)

theorem devWriteMemRet_partly {paddr len : UInt64} {buf : CPtr} (d : δ) :
    (mem d).Partly (paddr.toNat, h.read buf len.toNat)
      (mem (devWriteMemRet h dev paddr buf len d).2) := by
  have hcases : (devWriteMemRet h dev paddr buf len d).2 = d ∨ _ := devMemRet_snd
  rcases hcases with hsame | ⟨op, hop, hdo⟩
  · exact fun x => Or.inl (congrFun (congrArg mem hsame) x)
  · obtain ⟨f, hf, rfl⟩ := Option.map_eq_some_iff.mp hop
    obtain ⟨ops, hops, hw⟩ := Option.bind_eq_some_iff.mp hf
    have hpart := (hst ops hops).partly f hw d paddr (h.read buf len.toNat)
    exact fun x => congrFun (congrArg mem hdo) x ▸ hpart x

end Stores

/-! ## A board with memory -/

/-- A board whose state is its memory; a run does to it what `run` says. -/
def memoryOps (run : ByteMap → ByteMap) : DevOps ByteMap where
  reset := some fun d => (clSuccess, d)
  run := some fun d => (clSuccess, run d)
  stop := some fun d => (clSuccess, d)
  readMem := some fun d paddr _ => ((clSuccess, fun i => some (d (paddr.toNat + i))), d)
  writeMem := some fun d paddr data => (clSuccess, d.store paddr.toNat data)

theorem memoryOps_stores (run : ByteMap → ByteMap) : (memoryOps run).Stores id where
  write := by
    rintro f hf d paddr data _
    cases hf
    rfl
  read := by
    rintro f hf d paddr len _
    cases hf
    exact ⟨fun _ _ => rfl, rfl⟩
  reset := by
    rintro f hf d
    cases hf
    rfl
  partly := by
    rintro f hf d paddr data
    cases hf
    exact ByteMap.partly_store d _ _
  keeps := by
    rintro f hf d paddr len
    cases hf
    rfl

theorem memoryOps_exact (run : ByteMap → ByteMap) : (memoryOps run).Exact id :=
  (memoryOps_stores run).toExact

/-- A host with such a board.  The memory object has four bytes at `200`, and the program does nothing but
set `done`. -/
def flowHost (flags : UInt32) : Host ByteMap :=
  .single (fun x => UInt8.ofNat x) (memoryOps fun m => m.store 0x80001008 [1])
    (textProgram ⟨0x80001000, 0x1000⟩) mixedKernel fun _ => ⟨openclIcdMagic, flags, 4, 200⟩

end BaremetalCrt
