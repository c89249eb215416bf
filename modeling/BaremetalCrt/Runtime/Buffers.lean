/-
# BaremetalCrt.Runtime.Buffers — reading and writing buffers.

`in_clEnqueueReadBuffer` and `in_clEnqueueWriteBuffer` (`src/cl_enqueue.c`) over `mem_read_buffer` and
`mem_write_buffer` (`drivers/mem.c`).  The bound is tested on a sum of 64 bits; where that does not wrap
below the size of the buffer, the accepted accesses are the ones inside it, and the buffer is an array.

A buffer is an object of the process. Its address in the model is any number, and the sums that the code
makes of it are sums of 64 bits (`ByteMap.loadWrap`, `ByteMap.storeWrap`); `ClMem.addr` is the address of a
byte of the buffer, and the bytes of a buffer are at different ones. The program's own memory is beside it,
and may be written between the calls.
-/
import BaremetalCrt.Lib.Bytes
import BaremetalCrt.Lib.Exec
import BaremetalCrt.Lib.Overwrite
import BaremetalCrt.Runtime.Objects

namespace BaremetalCrt

open Lib

variable {δ : Type}

/-! ## The source -/

/-- A function that works on the memory of the host alone. -/
abbrev HostCall (δ : Type) := Exec (Host δ) ClInt

/-- `if ((r = f()) != CL_SUCCESS) return r;`, for the entry points over the whole host. -/
def requireHost (f : Host δ → ClInt) : HostCall δ Unit := fun h => (check (f h), h)

/-- `mem_read_buffer`: bytes of the buffer go to `ptr`.  The sum `mem->ptr + offset` is one of 64 bits. -/
def memReadBuffer (mem : Ptr) (offset size : UInt64) (ptr : Ptr) : HostCall δ Unit := do
  requireHost (memIsValid · mem)
  let m ← Exec.gets fun h => h.mems mem
  if ptr = 0 ∨ m.size < offset + size then
    Exec.exit clInvalidValue
  Exec.modify fun h =>
    { h with bytes := h.bytes.store ptr (h.bytes.loadWrap 64 (m.ptr + offset.toNat) size.toNat) }

/-- `mem_write_buffer`: bytes from `ptr` go to the buffer, at a sum of 64 bits, too. -/
def memWriteBuffer (mem : Ptr) (offset size : UInt64) (ptr : Ptr) : HostCall δ Unit := do
  requireHost (memIsValid · mem)
  let m ← Exec.gets fun h => h.mems mem
  if ptr = 0 ∨ m.size < offset + size then
    Exec.exit clInvalidValue
  Exec.modify fun h =>
    { h with bytes := h.bytes.storeWrap 64 (m.ptr + offset.toNat) (h.bytes.load ptr size.toNat) }

/-- `in_clEnqueueReadBuffer`; whether the call shall block makes no difference to it. -/
def inClEnqueueReadBuffer (commandQueue buffer : Ptr) (offset size : UInt64) (ptr : Ptr) :
    HostCall δ Unit := do
  requireHost (cmdqIsValid · commandQueue)
  requireHost (memIsValid · buffer)
  memReadBuffer buffer offset size ptr

/-- `in_clEnqueueWriteBuffer`: the queue and the buffer are checked, and the bytes are copied at once. -/
def inClEnqueueWriteBuffer (commandQueue buffer : Ptr) (offset size : UInt64) (ptr : Ptr) :
    HostCall δ Unit := do
  requireHost (cmdqIsValid · commandQueue)
  requireHost (memIsValid · buffer)
  memWriteBuffer buffer offset size ptr

/-! ## One access -/

/-- Reading a buffer into the caller's memory, or writing it from there. -/
inductive Access where
  | read
  | write
  deriving DecidableEq, Repr

/-- The entry point of an access, with the arguments that the two share. -/
def Access.enqueue (a : Access) (commandQueue buffer : Ptr) (offset size : UInt64) (ptr : Ptr) :
    HostCall δ Unit :=
  match a with
  | .read => inClEnqueueReadBuffer commandQueue buffer offset size ptr
  | .write => inClEnqueueWriteBuffer commandQueue buffer offset size ptr

/-- The memory behind an access that is accepted. The address in the buffer is a sum of 64 bits. -/
def Access.moved (a : Access) (m : ClMem) (offset size : UInt64) (ptr : Ptr) (b : ByteMap) : ByteMap :=
  match a with
  | .read => b.store ptr (b.loadWrap 64 (m.ptr + offset.toNat) size.toNat)
  | .write => b.storeWrap 64 (m.ptr + offset.toNat) (b.load ptr size.toNat)

section Access

variable {h : Host δ} {queue mem : Ptr} {offset size : UInt64} {ptr : Ptr}

theorem requireHost_ok {f : Host δ → ClInt} (hf : f h = clSuccess) : requireHost f h = (.ok (), h) := by
  rw [requireHost, hf, check_success]

theorem enqueue_refused (a : Access) (hq : cmdqIsValid h queue = clSuccess)
    (hm : memIsValid h mem = clSuccess) (hbad : ptr = 0 ∨ (h.mems mem).size < offset + size) :
    a.enqueue queue mem offset size ptr h = (.error clInvalidValue, h) := by
  cases a with
  | read =>
    rw [Access.enqueue, inClEnqueueReadBuffer, Exec.bind_ok (requireHost_ok hq),
      Exec.bind_ok (requireHost_ok hm), memReadBuffer, Exec.bind_ok (requireHost_ok hm),
      Exec.bind_ok (Exec.gets_apply ..), if_pos hbad]
    rfl
  | write =>
    rw [Access.enqueue, inClEnqueueWriteBuffer, Exec.bind_ok (requireHost_ok hq),
      Exec.bind_ok (requireHost_ok hm), memWriteBuffer, Exec.bind_ok (requireHost_ok hm),
      Exec.bind_ok (Exec.gets_apply ..), if_pos hbad]
    rfl

theorem enqueue_accepted (a : Access) (hq : cmdqIsValid h queue = clSuccess)
    (hm : memIsValid h mem = clSuccess) (hgood : ¬ (ptr = 0 ∨ (h.mems mem).size < offset + size)) :
    a.enqueue queue mem offset size ptr h =
      (.ok (), { h with bytes := a.moved (h.mems mem) offset size ptr h.bytes }) := by
  cases a with
  | read =>
    rw [Access.enqueue, inClEnqueueReadBuffer, Exec.bind_ok (requireHost_ok hq),
      Exec.bind_ok (requireHost_ok hm), memReadBuffer, Exec.bind_ok (requireHost_ok hm),
      Exec.bind_ok (Exec.gets_apply ..), if_neg hgood]
    rfl
  | write =>
    rw [Access.enqueue, inClEnqueueWriteBuffer, Exec.bind_ok (requireHost_ok hq),
      Exec.bind_ok (requireHost_ok hm), memWriteBuffer, Exec.bind_ok (requireHost_ok hm),
      Exec.bind_ok (Exec.gets_apply ..), if_neg hgood]
    rfl

/-- The sum that is tested does not wrap to a value inside the buffer. -/
def ClMem.Judges (m : ClMem) (offset size : UInt64) : Prop :=
  offset.toNat + size.toNat < 2 ^ 64 ∨ m.size < offset + size

/-- Where it judges, the test is the one in unbounded integers. -/
theorem ClMem.Judges.lt_iff {m : ClMem} (hj : m.Judges offset size) :
    m.size < offset + size ↔ m.size.toNat < offset.toNat + size.toNat := by
  rw [UInt64.lt_iff_toNat_lt, UInt64.toNat_add]
  have hmod := Nat.mod_le (offset.toNat + size.toNat) (2 ^ 64)
  rcases hj with hlt | hlt
  · rw [Nat.mod_eq_of_lt hlt]
  · rw [UInt64.lt_iff_toNat_lt, UInt64.toNat_add] at hlt
    exact ⟨fun _ => by omega, fun _ => hlt⟩

/-- Success means inside the buffer, and outside it nothing changes. -/
structure StaysIn (a : Access) (h : Host δ) (queue mem : Ptr) (offset size : UInt64) (ptr : Ptr) : Prop where
  accepts : (a.enqueue queue mem offset size ptr h).1 = .ok () ↔
    offset.toNat + size.toNat ≤ (h.mems mem).size.toNat
  refuses : ¬ offset.toNat + size.toNat ≤ (h.mems mem).size.toNat →
    (a.enqueue queue mem offset size ptr h).2 = h

/-- **An access stays in its buffer** exactly when the sum that is tested does not wrap below its size. -/
theorem staysIn_iff (a : Access) (hq : cmdqIsValid h queue = clSuccess)
    (hm : memIsValid h mem = clSuccess) (hptr : ptr ≠ 0) :
    StaysIn a h queue mem offset size ptr ↔ (h.mems mem).Judges offset size := by
  constructor
  · intro hstays
    by_contra hwrap
    obtain ⟨hsum, hle⟩ := not_or.mp hwrap
    -- a wrapped sum is accepted, and the access ends behind the buffer
    have hrun := enqueue_accepted a hq hm (not_or.mpr ⟨hptr, hle⟩)
    have hin := hstays.accepts.mp (congrArg Prod.fst hrun)
    have hlt := (h.mems mem).size.toNat_lt
    omega
  · intro hj
    by_cases hlt : (h.mems mem).size < offset + size
    · have hrun := enqueue_refused a hq hm (Or.inr hlt : ptr = 0 ∨ (h.mems mem).size < offset + size)
      have hout := hj.lt_iff.mp hlt
      exact ⟨by rw [hrun]; exact ⟨fun hok => (nomatch hok), fun hin => absurd hin (Nat.not_le.mpr hout)⟩,
        fun _ => by rw [hrun]⟩
    · have hrun := enqueue_accepted a hq hm (not_or.mpr ⟨hptr, hlt⟩)
      have hin := Nat.not_lt.mp (mt hj.lt_iff.mpr hlt)
      exact ⟨by rw [hrun]; exact ⟨fun _ => hin, fun _ => rfl⟩, fun hout => absurd hin hout⟩

end Access

/-! ## The buffer as an array -/

/-- What happens between the creation of a buffer and a read of it: accesses to the buffer, accepted or
not, and stores of the host to memory of its own. -/
inductive BufferOp where
  | access (a : Access) (offset size : UInt64) (ptr : Ptr)
  | own (ptr : Ptr) (bytes : List UInt8)

/-- The state behind an operation, whatever it returned. -/
def BufferOp.after (queue mem : Ptr) (h : Host δ) : BufferOp → Host δ
  | .access a offset size ptr => (a.enqueue queue mem offset size ptr h).2
  | .own ptr bytes => { h with bytes := h.bytes.store ptr bytes }

/-- The state behind a run of operations. -/
def bufferOps (queue mem : Ptr) (ops : List BufferOp) (h : Host δ) : Host δ :=
  ops.foldl (BufferOp.after queue mem) h

/-- The host address of byte `x` of the buffer. -/
def ClMem.addr (m : ClMem) (x : Nat) : Nat := (m.ptr + x) % 2 ^ 64

/-- The host addresses of its bytes. -/
def ClMem.storage (m : ClMem) : Set Nat := m.addr '' span 0 m.size.toNat

/-- The range of an access is judged without wrapping, and what is not written to the buffer leaves its
storage alone. -/
def BufferOp.Apart (m : ClMem) : BufferOp → Prop
  | .access .read offset size ptr =>
    m.Judges offset size ∧ Disjoint m.storage (span ptr size.toNat)
  | .access .write offset size _ => m.Judges offset size
  | .own ptr bytes => Disjoint m.storage (span ptr bytes.length)

/-- A write that is accepted, and covers the byte `x` of the buffer. -/
def BufferOp.Covers (m : ClMem) (x : Nat) : BufferOp → Prop
  | .access .write offset size ptr =>
    ptr ≠ 0 ∧ offset.toNat + size.toNat ≤ m.size.toNat ∧ x ∈ span offset.toNat size.toNat
  | _ => False

/-- What an operation that covers the byte `x` puts there. -/
def BufferOp.value (h : Host δ) (x : Nat) : BufferOp → UInt8
  | .access _ offset _ ptr => h.bytes (ptr + (x - offset.toNat))
  | .own _ _ => 0

instance (m : ClMem) (x : Nat) : DecidablePred (BufferOp.Covers m x)
  | .access .write offset size ptr =>
    inferInstanceAs (Decidable (ptr ≠ 0 ∧ offset.toNat + size.toNat ≤ m.size.toNat ∧
      (offset.toNat ≤ x ∧ x < offset.toNat + size.toNat)))
  | .access .read _ _ _ => isFalse id
  | .own _ _ => isFalse id

/-- The objects that an access looks at: the queue and the buffer are valid, and the buffer's fields are
`m`. -/
structure SameBuffer (queue mem : Ptr) (m : ClMem) (h : Host δ) : Prop where
  queue : cmdqIsValid h queue = clSuccess
  valid : memIsValid h mem = clSuccess
  mem : h.mems mem = m

section Array

variable {h h' : Host δ} {queue mem : Ptr} {m : ClMem}

theorem SameBuffer.bytes (hs : SameBuffer queue mem m h) (b : ByteMap) :
    SameBuffer queue mem m { h with bytes := b } := ⟨hs.queue, hs.valid, hs.mem⟩

/-- Bytes of a buffer have addresses of their own. -/
theorem ClMem.addr_inj {x y : Nat} (hx : x < 2 ^ 64) (hy : y < 2 ^ 64) (h : m.addr x = m.addr y) : x = y := by
  have hdist := congrArg (ByteMap.distance 64 m.ptr) h
  rwa [addr, addr, ByteMap.distance_add hx, ByteMap.distance_add hy] at hdist

/-- A buffer that ends in the address space is a range of it. -/
theorem ClMem.storage_subset (hfits : m.ptr + m.size.toNat ≤ 2 ^ 64) : m.storage ⊆ span m.ptr m.size.toNat := by
  rintro _ ⟨x, hx, rfl⟩
  have hlt : x < m.size.toNat := by simpa using hx
  have hbelow : m.ptr + x < m.ptr + m.size.toNat := Nat.add_lt_add_left hlt _
  rw [addr, Nat.mod_eq_of_lt (Nat.lt_of_lt_of_le hbelow hfits)]
  exact mem_span.mpr ⟨Nat.le_add_right .., hbelow⟩

/-- A store outside the storage is not seen in it. -/
theorem store_apart {b : ByteMap} {p : Ptr} {bs : List UInt8} {x : Nat} (hx : x < m.size.toNat)
    (hapart : Disjoint m.storage (span p bs.length)) : b.store p bs (m.addr x) = b (m.addr x) := by
  refine ByteMap.store_of_notMem _ (Set.disjoint_left.mp hapart ⟨x, ?_, rfl⟩)
  exact mem_span.mpr ⟨Nat.zero_le x, by omega⟩

/-- What an accepted write leaves in the storage: its bytes where it covers it. -/
theorem moved_write_covered {b : ByteMap} {offset size : UInt64} {ptr : Ptr} {x : Nat}
    (hx : x ∈ span offset.toNat size.toNat) :
    Access.write.moved m offset size ptr b (m.addr x) = b (ptr + (x - offset.toNat)) := by
  obtain ⟨hlo, hhi⟩ := mem_span.mp hx
  have hi : x - offset.toNat < (b.load ptr size.toNat).length := by
    rw [ByteMap.length_load]
    omega
  have hat : b.storeWrap 64 (m.ptr + offset.toNat) (b.load ptr size.toNat)
      ((m.ptr + offset.toNat + (x - offset.toNat)) % 2 ^ 64) = (b.load ptr size.toNat)[x - offset.toNat] :=
    ByteMap.storeWrap_at b hi (by have := size.toNat_lt; rw [ByteMap.length_load] at hi; omega)
  rwa [Nat.add_assoc, Nat.add_sub_cancel' hlo, ByteMap.getElem_load] at hat

/-- Behind the write of a range that is in the buffer the other bytes are as they were. -/
theorem moved_write_uncovered {b : ByteMap} {offset size : UInt64} {ptr : Ptr} {x : Nat}
    (hin : offset.toNat + size.toNat ≤ m.size.toNat) (hx : x < m.size.toNat)
    (hout : x ∉ span offset.toNat size.toNat) :
    Access.write.moved m offset size ptr b (m.addr x) = b (m.addr x) := by
  have hsize := m.size.toNat_lt
  refine ByteMap.storeWrap_of_ne _ fun i hi heq => hout ?_
  rw [ByteMap.length_load] at hi
  rw [Nat.add_assoc] at heq
  have hsame := m.addr_inj (by omega) (by omega) heq
  exact mem_span.mpr (by omega)

theorem BufferOp.Apart.judges {a : Access} {offset size : UInt64} {ptr : Ptr}
    (h : (BufferOp.access a offset size ptr).Apart m) : m.Judges offset size := by
  cases a with
  | read => exact h.1
  | write => exact h

/-- A write that covers a byte puts its own there. -/
theorem after_covered (hs : SameBuffer queue mem m h) {op : BufferOp} (hop : op.Apart m) {x : Nat}
    (hc : op.Covers m x) : (op.after queue mem h).bytes (m.addr x) = op.value h x := by
  match op with
  | .access .write offset size ptr =>
    obtain ⟨hptr, hin, hx⟩ := hc
    have hle : ¬ m.size < offset + size := fun hlt =>
      absurd (hop.judges.lt_iff.mp hlt) (Nat.not_lt.mpr hin)
    rw [BufferOp.after, enqueue_accepted .write hs.queue hs.valid (hs.mem ▸ not_or.mpr ⟨hptr, hle⟩), hs.mem]
    exact moved_write_covered hx
  | .access .read _ _ _ => exact hc.elim
  | .own _ _ => exact hc.elim

/-- Any other operation leaves the byte alone. -/
theorem after_uncovered (hs : SameBuffer queue mem m h) {op : BufferOp} (hop : op.Apart m) {x : Nat}
    (hx : x < m.size.toNat) (hc : ¬ op.Covers m x) :
    (op.after queue mem h).bytes (m.addr x) = h.bytes (m.addr x) := by
  match op with
  | .own ptr bytes => exact store_apart hx hop
  | .access a offset size ptr =>
    by_cases hbad : ptr = 0 ∨ m.size < offset + size
    · rw [BufferOp.after, enqueue_refused a hs.queue hs.valid (hs.mem ▸ hbad)]
    · obtain ⟨hptr, hle⟩ := not_or.mp hbad
      have hin := Nat.not_lt.mp (mt hop.judges.lt_iff.mpr hle)
      rw [BufferOp.after, enqueue_accepted a hs.queue hs.valid (hs.mem ▸ hbad), hs.mem]
      cases a with
      | read => exact store_apart hx (by rw [ByteMap.length_loadWrap]; exact hop.2)
      | write => exact moved_write_uncovered hin hx fun hmem => hc ⟨hptr, hin, hmem⟩

theorem after_sameBuffer (hs : SameBuffer queue mem m h) (op : BufferOp) :
    SameBuffer queue mem m (op.after queue mem h) := by
  match op with
  | .own ptr bytes => exact hs.bytes _
  | .access a offset size ptr =>
    by_cases hbad : ptr = 0 ∨ (h.mems mem).size < offset + size
    · rw [BufferOp.after, enqueue_refused a hs.queue hs.valid hbad]
      exact hs
    · rw [BufferOp.after, enqueue_accepted a hs.queue hs.valid hbad]
      exact hs.bytes _

/-- An operation of a run: its range is judged without wrapping, and unless it writes to the buffer it
leaves the storage alone. -/
def BufferStep (queue mem : Ptr) (m : ClMem) (h : Host δ) (op : BufferOp) (h' : Host δ) : Prop :=
  op.Apart m ∧ op.after queue mem h = h'

/-- The operations overwrite the bytes of the buffer. -/
theorem bufferOps_overwrite (queue mem : Ptr) (m : ClMem) :
    Overwrites (BufferStep (δ := δ) queue mem m) (SameBuffer queue mem m)
      (fun h (x : Fin m.size.toNat) => h.bytes (m.addr x))
      (fun h op x => if op.Covers m x then some (op.value h x) else none) where
  keeps hs hop := hop.2 ▸ after_sameBuffer hs _
  get_step := by
    rintro h op _ hs ⟨hop, rfl⟩ x
    by_cases hc : op.Covers m x
    · rw [if_pos hc, Option.getD_some, after_covered hs hop hc]
    · rw [if_neg hc, Option.getD_none, after_uncovered hs hop x.2 hc]

theorem run_bufferOps (queue mem : Ptr) {ops : List BufferOp} (hops : ∀ op ∈ ops, op.Apart m) (h : Host δ) :
    Run (BufferStep queue mem m) h ops (bufferOps queue mem ops h) := by
  induction ops generalizing h with
  | nil => exact .nil h
  | cons op ops ih =>
    exact .cons ⟨hops op (List.mem_cons_self ..), rfl⟩
      (ih (fun op' hop' => hops op' (List.mem_cons_of_mem _ hop')) _)

/-- A read that succeeds passed the test. -/
theorem tested_of_ok (hs : SameBuffer queue mem m h) {offset size : UInt64} {ptr : Ptr}
    (hok : (inClEnqueueReadBuffer queue mem offset size ptr h).1 = .ok ()) :
    ¬ (ptr = 0 ∨ m.size < offset + size) := by
  intro hbad
  have hrun := enqueue_refused .read hs.queue hs.valid (hs.mem.symm ▸ hbad)
  rw [Access.enqueue] at hrun
  rw [hrun] at hok
  cases hok

/-- What it leaves at the host's pointer. -/
theorem read_byte (hs : SameBuffer queue mem m h) {offset size : UInt64} {ptr : Ptr}
    (hok : (inClEnqueueReadBuffer queue mem offset size ptr h).1 = .ok ()) {k : Nat} (hk : k < size.toNat) :
    (inClEnqueueReadBuffer queue mem offset size ptr h).2.bytes (ptr + k) =
      h.bytes (m.addr (offset.toNat + k)) := by
  have hrun := enqueue_accepted .read hs.queue hs.valid (hs.mem.symm ▸ tested_of_ok hs hok)
  rw [Access.enqueue] at hrun
  rw [hrun, hs.mem]
  have hlen : k < (h.bytes.loadWrap 64 (m.ptr + offset.toNat) size.toNat).length := by
    rwa [ByteMap.length_loadWrap]
  refine (ByteMap.store_at _ hlen).trans ?_
  rw [ByteMap.getElem_loadWrap, ClMem.addr, Nat.add_assoc]

/-- **A buffer is an array.** An accepted read returns for every byte what the last accepted write that
covers it put there, or what the buffer held before. -/
theorem read_bufferOps (hs : SameBuffer queue mem m h) {ops : List BufferOp}
    (hops : ∀ op ∈ ops, op.Apart m) {offset size : UInt64} {ptr : Ptr} (hj : m.Judges offset size)
    (hok : (inClEnqueueReadBuffer queue mem offset size ptr (bufferOps queue mem ops h)).1 = .ok ())
    {k : Nat} (hk : k < size.toNat) :
    (∀ pre op post, ops = pre ++ op :: post → op.Covers m (offset.toNat + k) →
        (∀ op' ∈ post, ¬ op'.Covers m (offset.toNat + k)) →
        (inClEnqueueReadBuffer queue mem offset size ptr (bufferOps queue mem ops h)).2.bytes (ptr + k) =
          op.value (bufferOps queue mem pre h) (offset.toNat + k)) ∧
      ((∀ op ∈ ops, ¬ op.Covers m (offset.toNat + k)) →
        (inClEnqueueReadBuffer queue mem offset size ptr (bufferOps queue mem ops h)).2.bytes (ptr + k) =
          h.bytes (m.addr (offset.toNat + k))) := by
  have hover : Overwrites (BufferStep (δ := δ) queue mem m) _ _ _ := bufferOps_overwrite queue mem m
  have hs' := hover.keeps_run (run_bufferOps queue mem hops h) hs
  have hx : offset.toNat + k < m.size.toNat := by
    have hin := Nat.not_lt.mp (mt hj.lt_iff.mpr (not_or.mp (tested_of_ok hs' hok)).2)
    omega
  rw [read_byte hs' hok hk]
  refine ⟨?_, fun hnone => ?_⟩
  · rintro pre op post rfl hc hlater
    have hpre := run_bufferOps queue mem (fun op' hop' => hops op' (List.mem_append_left _ hop')) h
    have hsplit : bufferOps queue mem (pre ++ op :: post) h =
        bufferOps queue mem post (op.after queue mem (bufferOps queue mem pre h)) := List.foldl_append ..
    have hpost := run_bufferOps queue mem
      (fun op' hop' => hops op' (List.mem_append_right _ (List.mem_cons_of_mem _ hop')))
      (op.after queue mem (bufferOps queue mem pre h))
    rw [hsplit]
    exact hover.get_run_last (k := ⟨offset.toNat + k, hx⟩) hpre
      ⟨hops op (List.mem_append_right _ (List.mem_cons_self ..)), rfl⟩ hpost hs (if_pos hc)
      fun op' hop' _ => if_neg (hlater op' hop')
  · exact hover.get_run_of_none (k := ⟨offset.toNat + k, hx⟩) (run_bufferOps queue mem hops h) hs
      fun op hop _ => if_neg (hnone op hop)

/-- **Accesses stay in the buffer, and it is an array**, exactly where the tested sum does not wrap to a
value inside it: there an access succeeds if and only if it is inside, changes nothing if it is not, and
in every run of such accesses an accepted read returns the bytes that were written last. -/
theorem bufferAccess_iff (h : Host δ) (queue mem : Ptr) (hq : cmdqIsValid h queue = clSuccess)
    (hm : memIsValid h mem = clSuccess) :
    (∀ (a : Access) (offset size : UInt64) (ptr : Ptr), ptr ≠ 0 →
      (StaysIn a h queue mem offset size ptr ↔ (h.mems mem).Judges offset size)) ∧
    ∀ ops : List BufferOp, (∀ op ∈ ops, op.Apart (h.mems mem)) →
      ∀ (offset size : UInt64) (ptr : Ptr), (h.mems mem).Judges offset size →
        (inClEnqueueReadBuffer queue mem offset size ptr (bufferOps queue mem ops h)).1 = .ok () →
        ∀ k < size.toNat,
          (∀ pre op post, ops = pre ++ op :: post → op.Covers (h.mems mem) (offset.toNat + k) →
            (∀ op' ∈ post, ¬ op'.Covers (h.mems mem) (offset.toNat + k)) →
            (inClEnqueueReadBuffer queue mem offset size ptr (bufferOps queue mem ops h)).2.bytes (ptr + k) =
              op.value (bufferOps queue mem pre h) (offset.toNat + k)) ∧
          ((∀ op ∈ ops, ¬ op.Covers (h.mems mem) (offset.toNat + k)) →
            (inClEnqueueReadBuffer queue mem offset size ptr (bufferOps queue mem ops h)).2.bytes (ptr + k) =
              h.bytes ((h.mems mem).addr (offset.toNat + k))) :=
  ⟨fun a _ _ _ hptr => staysIn_iff a hq hm hptr,
    fun _ hops _ _ _ hj hok _ hk => read_bufferOps ⟨hq, hm, rfl⟩ hops hj hok hk⟩

end Array

/-! ## A small buffer -/

/-- A buffer of sixteen bytes at `0x100`, in memory that holds zeros. -/
def bufferHost : Host Unit :=
  .single (fun _ => 0) ⟨none, none, none, none, none⟩ (textProgram ⟨0, 0⟩) plainKernel
    fun _ => ⟨openclIcdMagic, 1, 16, 0x100⟩

/-- Two writes that overlap, from the same place of the host. -/
def overlapOps : List BufferOp :=
  [.own 0x300 [1, 1, 1, 1], .access .write 0 4 0x300, .own 0x300 [7], .access .write 3 1 0x300]

theorem overlap_read :
    StaysIn .write bufferHost 1 1 4 12 0x200 ∧
      (inClEnqueueReadBuffer 1 1 2 4 0x200 (bufferOps 1 1 overlapOps bufferHost)).2.bytes (0x200 + 1) = 7 := by
  have hlaw := bufferAccess_iff bufferHost 1 1 rfl rfl
  have hops : ∀ op ∈ overlapOps, op.Apart (bufferHost.mems 1) := by
    intro op hop
    simp only [overlapOps, List.mem_cons, List.not_mem_nil, or_false] at hop
    have hrange : (bufferHost.mems 1).storage ⊆ span 0x100 16 := ClMem.storage_subset (by decide)
    rcases hop with rfl | rfl | rfl | rfl
    · exact (span_disjoint_of_le (by decide)).mono_left hrange
    · exact Or.inl (by decide)
    · exact (span_disjoint_of_le (by decide)).mono_left hrange
    · exact Or.inl (by decide)
  have hok : (inClEnqueueReadBuffer 1 1 2 4 0x200 (bufferOps 1 1 overlapOps bufferHost)).1 = .ok () := by
    decide
  refine ⟨(hlaw.1 .write 4 12 0x200 (by decide)).mpr (Or.inl (by decide)), ?_⟩
  rw [(hlaw.2 overlapOps hops 2 4 0x200 (Or.inl (by decide)) hok 1 (by decide)).1 (overlapOps.take 3)
    (.access .write 3 1 0x300) [] rfl ⟨by decide, by decide, by decide, by decide⟩ fun _ hop => nomatch hop]
  decide

/-- Sixteen bytes from eight in front of the buffer: the sum wraps to eight, and the write is accepted. -/
theorem wrapped_accepted :
    (inClEnqueueWriteBuffer 1 1 (-8) 16 0x200 bufferHost).1 = .ok () ∧
      ¬ StaysIn .write bufferHost 1 1 (-8) 16 0x200 := by
  have hok : (inClEnqueueWriteBuffer 1 1 (-8) 16 0x200 bufferHost).1 = .ok () := by decide
  exact ⟨hok, fun hstays => absurd (hstays.accepts.mp hok) (by decide)⟩

end BaremetalCrt
