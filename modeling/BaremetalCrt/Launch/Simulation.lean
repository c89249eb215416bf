/-
# BaremetalCrt.Launch.Simulation — a launch over one driver and over another.

A launch knows a device by its driver alone.  When one driver does what another does, operation by
operation and for the requests that `A` admits (`DevOps.Simulates`), a launch over the one does what it does
over the other: it returns the same code, issues the same operations with the same results, and leaves the
same host behind, as long as every request that it makes is admitted (`clEnqueueNDRangeKernel_simulates`).

So what is proved about a launch over an ideal board holds over any driver that does what the board does.

The guard `A` is part of the statement since most drivers do what another one does only for some requests:
below an address, for a device that is halted, or in ranges of a certain size. It is asked of the requests
that are made, at the states in which they are made (`Admitted`), and not of all that could be.
-/
import BaremetalCrt.Launch.Enqueue
import BaremetalCrt.Lib.Simulation
import BaremetalCrt.Runtime.DeviceMemory

namespace BaremetalCrt

open Lib

variable {δ γ : Type}

/-! ## Drivers -/

/-- What is asked of a driver, with the range and the bytes of a transfer. -/
inductive Request where
  | reset
  | run
  | stop
  | read (paddr len : UInt64)
  | write (paddr : UInt64) (data : List UInt8)
  deriving DecidableEq, Repr

/-- The request behind an operation; the area header is asked for whole. -/
def DevOp.request : DevOp → Request
  | .reset => .reset
  | .run => .run
  | .stop => .stop
  | .readMem .areaHeader paddr _ => .read paddr sizeofCommAreaHeader
  | .readMem _ paddr data => .read paddr (UInt64.ofNat data.length)
  | .writeMem _ paddr data => .write paddr data

/-- Which requests may be made in which state. A simulation has to hold for these only. -/
abbrev Guard (δ : Type) := Request → δ → Prop

section Drivers

variable (A : Guard δ) (R : δ → γ → Prop)

/-- `g` answers the request as `f` does: from related states that the guard admits, the answers and the
states behind them are related. -/
def Does (q : Request) {α : Type} (S : α → α → Prop) (f : δ → α × δ) (g : γ → α × γ) : Prop :=
  ∀ d e, A q d → R d e → S (f d).1 (g e).1 ∧ R (f d).2 (g e).2

/-- The second driver has the operations of the first, and they do the same. -/
structure DevOps.Simulates (ops : DevOps δ) (ops' : DevOps γ) : Prop where
  reset : Option.Rel (Does A R .reset Eq) ops.reset ops'.reset
  run : Option.Rel (Does A R .run Eq) ops.run ops'.run
  stop : Option.Rel (Does A R .stop Eq) ops.stop ops'.stop
  read : Option.Rel (fun f g => ∀ paddr len,
    Does A R (.read paddr len) (fun x y => x.1 = y.1 ∧ ∀ i, i < len.toNat → x.2 i = y.2 i)
      (f · paddr len) (g · paddr len)) ops.readMem ops'.readMem
  write : Option.Rel (fun f g => ∀ paddr data,
    Does A R (.write paddr data) Eq (f · paddr data) (g · paddr data)) ops.writeMem ops'.writeMem

/-- The second device is as valid as the first, and its driver does the same. -/
structure ClDevice.Simulates (dev : ClDevice δ) (dev' : ClDevice γ) : Prop where
  magic : dev'.magic = dev.magic
  ops : Option.Rel (DevOps.Simulates A R) dev.ops dev'.ops

/-- The request that a call makes, in the state that it makes it in, is admitted. -/
def Event.Admitted (e : Event δ) : Prop := A e.op.request e.devBefore

/-- Every request that was made is one that the guard admits, at the state in which it was made. -/
def Admitted (tr : List (Event δ)) : Prop := ∀ e ∈ tr, e.Admitted A

end Drivers

/-- The host with other devices behind the same objects and bytes. -/
def Host.over (h : Host δ) (devs : Ptr → ClDevice γ) : Host γ :=
  ⟨h.bytes, h.cmdqs, h.ctxs, devs, h.prgs, h.kerns, h.mems⟩

/-- What a call shows of itself but for the state of the device. -/
def Event.face (e : Event δ) : DevOp × ClInt × ByteMap × ByteMap := (e.op, e.ret, e.hostBefore, e.hostAfter)

variable {A : Guard δ} {R : δ → γ → Prop}

/-! ## Calls -/

section Calls

variable {h : Host δ} {devs' : Ptr → ClDevice γ} {dev : Ptr} {d : δ} {e : γ}

theorem devIsValid_over (hdev : ClDevice.Simulates A R (h.devs dev) (devs' dev)) :
    devIsValid (h.over devs') dev = devIsValid h dev := congrArg (isValid _ dev) hdev.magic

/-- The slot of an operation is filled in both drivers or in none. -/
theorem rel_slot {α β : Type} {T : α → β → Prop} {slot : DevOps δ → Option α} {slot' : DevOps γ → Option β}
    (hslot : ∀ ops ops', DevOps.Simulates A R ops ops' → Option.Rel T (slot ops) (slot' ops'))
    (hdev : ClDevice.Simulates A R (h.devs dev) (devs' dev)) :
    Option.Rel T ((h.devs dev).ops.bind slot) ((devs' dev).ops.bind slot') := by
  have hops := hdev.ops
  revert hops
  generalize (h.devs dev).ops = a
  generalize (devs' dev).ops = b
  rintro (hsim | -)
  · exact hslot _ _ hsim
  · exact .none

theorem devControlRet_simulates {slot : DevOps δ → Option (δ → ClInt × δ)}
    {slot' : DevOps γ → Option (γ → ClInt × γ)} {q : Request}
    (hslot : ∀ ops ops', DevOps.Simulates A R ops ops' → Option.Rel (Does A R q Eq) (slot ops) (slot' ops'))
    (hdev : ClDevice.Simulates A R (h.devs dev) (devs' dev)) (hA : A q d) (hR : R d e) :
    (devControlRet slot' (h.over devs') dev e).1 = (devControlRet slot h dev d).1 ∧
      R (devControlRet slot h dev d).2 (devControlRet slot' (h.over devs') dev e).2 := by
  have hrel := rel_slot hslot hdev
  unfold devControlRet
  rw [devIsValid_over hdev]
  split
  · exact ⟨rfl, hR⟩
  · rw [show (h.over devs').devs dev = devs' dev from rfl]
    revert hrel
    generalize (h.devs dev).ops.bind slot = a
    generalize (devs' dev).ops.bind slot' = b
    rintro (hdoes | -)
    · exact (hdoes d e hA hR).imp Eq.symm id
    · exact ⟨rfl, hR⟩

theorem devMemRet_simulates {α : Type} {S : α → α → Prop} (hS : ∀ x, S x x) {f : Option (δ → α × δ)}
    {f' : Option (γ → α × γ)} {q : Request} (ok : α) (err : ClInt → α) (bufNull : Bool) (len : UInt64)
    (hf : Option.Rel (Does A R q S) f f') (hdev : ClDevice.Simulates A R (h.devs dev) (devs' dev))
    (hA : A q d) (hR : R d e) :
    S (devMemRet f ok err h dev bufNull len d).1 (devMemRet f' ok err (h.over devs') dev bufNull len e).1 ∧
      R (devMemRet f ok err h dev bufNull len d).2
        (devMemRet f' ok err (h.over devs') dev bufNull len e).2 := by
  unfold devMemRet
  rw [devIsValid_over hdev]
  split
  · exact ⟨hS _, hR⟩
  cases hf with
  | none => exact ⟨hS _, hR⟩
  | some hdoes =>
    by_cases hnull : bufNull = true ∧ len ≠ 0
    · simp only [if_pos hnull]
      exact ⟨hS _, hR⟩
    · by_cases hlen : len = 0
      · simp only [if_neg hnull, if_pos hlen]
        exact ⟨hS _, hR⟩
      · simp only [if_neg hnull, if_neg hlen]
        exact hdoes d e hA hR

end Calls

/-! ## The two states of a launch -/

/-- The second state is the first one over the other devices, of which `dev` does the same; what was done so
far looks the same. -/
structure Sys.Over (A : Guard δ) (R : δ → γ → Prop) (devs' : Ptr → ClDevice γ) (dev : Ptr) (s : Sys δ)
    (t : Sys γ) : Prop where
  host : t.host = s.host.over devs'
  dev_does : ClDevice.Simulates A R (s.host.devs dev) (devs' dev)
  dev : R s.dev t.dev
  hComm : t.hComm = s.hComm
  short : s.hComm.length ≤ 16
  trace : t.trace.map Event.face = s.trace.map Event.face

variable {devs' : Ptr → ClDevice γ} {dev : Ptr} {s : Sys δ} {t : Sys γ}

/-- Calls that look the same, with devices that are related behind them. -/
theorem Sys.Over.push (h : Sys.Over A R devs' dev s t) {e : Event δ} {e' : Event γ} (hface : e'.face = e.face)
    (hR : R e.devAfter e'.devAfter) : Sys.Over A R devs' dev (s.push e) (t.push e') := by
  obtain ⟨-, -, -, hafter⟩ : e'.op = e.op ∧ e'.ret = e.ret ∧ e'.hostBefore = e.hostBefore ∧
      e'.hostAfter = e.hostAfter := by simpa [Event.face] using hface
  refine ⟨?_, h.dev_does, hR, h.hComm, h.short, ?_⟩
  · show { t.host with bytes := e'.hostAfter } = _
    rw [h.host, hafter]
    rfl
  · show (t.trace ++ [e']).map Event.face = (s.trace ++ [e]).map Event.face
    rw [List.map_append, List.map_append, h.trace, List.map_singleton, List.map_singleton, hface]

/-- The launch with these devices does what the one with the first devices does, while its requests are
admitted. -/
abbrev LaunchSimulates (A : Guard δ) (R : δ → γ → Prop) (devs' : Ptr → ClDevice γ) (dev : Ptr) {α : Type}
    (m : Launch δ α) (n : Launch γ α) : Prop :=
  Exec.Simulates (fun s : Sys δ => Admitted A s.trace) (Sys.Over A R devs' dev) m n

theorem Admitted.of_push {e : Event δ} (h : Admitted A (s.push e).trace) :
    Admitted A s.trace ∧ e.Admitted A :=
  ⟨fun x hx => h x (List.mem_append_left _ hx), h e (List.mem_append_right _ (List.mem_singleton.mpr rfl))⟩

/-- A call whose two events look the same. -/
theorem simulates_devCall {event : Sys δ → Event δ} {event' : Sys γ → Event γ}
    (hevent : ∀ s t, Sys.Over A R devs' dev s t → (event s).Admitted A →
      (event' t).face = (event s).face ∧ R (event s).devAfter (event' t).devAfter) :
    LaunchSimulates A R devs' dev (devCall event) (devCall event') := by
  intro s hs
  obtain ⟨hbefore, hadmitted⟩ := Admitted.of_push hs
  refine ⟨hbefore, fun t ht => ?_⟩
  obtain ⟨hface, hR⟩ := hevent s t ht hadmitted
  have hret : (event' t).ret = (event s).ret := congrArg (fun x => x.2.1) hface
  exact ⟨congrArg check hret, ht.push hface hR⟩

/-- What is read off the host does not depend on the devices. -/
theorem simulates_query {α : Type} {f : Host δ → Except ClInt α} {g : Host γ → Except ClInt α}
    (h : ∀ x, g (Host.over x devs') = f x) : LaunchSimulates A R devs' dev (query f) (query g) :=
  .answer fun s t hst => by rw [hst.host, h]

/-! ## The operations -/

section Operations

theorem simulates_control {op : DevOp} {slot : DevOps δ → Option (δ → ClInt × δ)}
    {slot' : DevOps γ → Option (γ → ClInt × γ)}
    (hslot : ∀ ops ops', DevOps.Simulates A R ops ops' →
      Option.Rel (Does A R op.request Eq) (slot ops) (slot' ops')) :
    LaunchSimulates A R devs' dev (devCall (controlEvent op slot dev))
      (devCall (controlEvent op slot' dev)) := by
  refine simulates_devCall fun s t hst hA => ?_
  obtain ⟨hret, hR⟩ := devControlRet_simulates hslot hst.dev_does hA hst.dev
  rw [← hst.host] at hret hR
  refine ⟨?_, hR⟩
  have hbytes : t.host.bytes = s.host.bytes := congrArg Host.bytes hst.host
  simp only [Event.face, controlEvent, hret, hbytes]

theorem simulates_devReset : LaunchSimulates A R devs' dev (devReset dev) (devReset dev) :=
  simulates_control fun _ _ h => h.reset

theorem simulates_devRun : LaunchSimulates A R devs' dev (devRun dev) (devRun dev) :=
  simulates_control fun _ _ h => h.run

theorem simulates_devStop : LaunchSimulates A R devs' dev (devStop dev) (devStop dev) :=
  simulates_control fun _ _ h => h.stop

theorem simulates_devWriteMem {cargo : Cargo} {paddr : UInt64} {buf : CPtr} {len : UInt64} :
    LaunchSimulates A R devs' dev (devWriteMem cargo dev paddr buf len)
      (devWriteMem cargo dev paddr buf len) := by
  refine simulates_devCall fun s t hst hA => ?_
  have hwrite : Option.Rel (Does A R (.write paddr (s.host.read buf len.toNat)) Eq)
      (((s.host.devs dev).ops.bind (·.writeMem)).map fun f d => f d paddr (s.host.read buf len.toNat))
      (((devs' dev).ops.bind (·.writeMem)).map fun f e => f e paddr (s.host.read buf len.toNat)) := by
    have hrel := rel_slot (fun _ _ h => h.write) hst.dev_does
    revert hrel
    generalize (s.host.devs dev).ops.bind (·.writeMem) = a
    generalize (devs' dev).ops.bind (·.writeMem) = b
    rintro (hdoes | -)
    · exact .some (hdoes _ _)
    · exact .none
  obtain ⟨hret, hR⟩ := devMemRet_simulates (fun _ => rfl) clSuccess id buf.isNull len hwrite hst.dev_does
    hA hst.dev
  have hbytes : t.host.bytes = s.host.bytes := congrArg Host.bytes hst.host
  have hread : t.host.read buf len.toNat = s.host.read buf len.toNat := by
    cases buf <;> simp only [Host.read, hbytes]
  have hcall : devWriteMemRet t.host dev paddr buf len t.dev = devMemRet
      (((devs' dev).ops.bind (·.writeMem)).map fun f e => f e paddr (s.host.read buf len.toNat)) clSuccess id
      (s.host.over devs') dev buf.isNull len t.dev := by
    rw [devWriteMemRet, hread, hst.host]
    rfl
  refine ⟨?_, ?_⟩
  · simp only [Event.face, writeEvent, hbytes, hread, hcall, ← hret]
    rfl
  · simp only [writeEvent, hcall]
    exact hR

/-- A read ends alike, with the same bytes in the range that it was asked for. -/
theorem devReadMemRet_simulates {paddr len : UInt64} (bufNull : Bool) (hst : Sys.Over A R devs' dev s t)
    (hA : A (.read paddr len) s.dev) :
    ((devReadMemRet t.host dev paddr bufNull len t.dev).1.1 =
        (devReadMemRet s.host dev paddr bufNull len s.dev).1.1 ∧
      ∀ i, i < len.toNat → (devReadMemRet t.host dev paddr bufNull len t.dev).1.2 i =
        (devReadMemRet s.host dev paddr bufNull len s.dev).1.2 i) ∧
      R (devReadMemRet s.host dev paddr bufNull len s.dev).2
        (devReadMemRet t.host dev paddr bufNull len t.dev).2 := by
  have hread : Option.Rel (Does A R (.read paddr len) fun x y => x.1 = y.1 ∧ ∀ i, i < len.toNat → x.2 i = y.2 i)
      (((s.host.devs dev).ops.bind (·.readMem)).map fun f d => f d paddr len)
      (((devs' dev).ops.bind (·.readMem)).map fun f e => f e paddr len) := by
    have hrel := rel_slot (fun _ _ h => h.read) hst.dev_does
    revert hrel
    generalize (s.host.devs dev).ops.bind (·.readMem) = a
    generalize (devs' dev).ops.bind (·.readMem) = b
    rintro (hdoes | -)
    · exact .some (hdoes _ _)
    · exact .none
  obtain ⟨⟨hret, hbytes⟩, hR⟩ := devMemRet_simulates (fun _ => ⟨rfl, fun _ _ => rfl⟩)
    (clSuccess, fun _ => none) (fun r => (r, fun _ => none)) bufNull len hread hst.dev_does hA hst.dev
  rw [hst.host]
  exact ⟨⟨hret.symm, fun i hi => (hbytes i hi).symm⟩, hR⟩

theorem simulates_devReadMem {paddr : UInt64} {ptr : Ptr} {len : UInt64} :
    LaunchSimulates A R devs' dev (devReadMem dev paddr ptr len) (devReadMem dev paddr ptr len) := by
  refine simulates_devCall fun s t hst hA => ?_
  have hlen : UInt64.ofNat ((s.host.bytes.patch ptr len.toNat
      (devReadMemRet s.host dev paddr (ptr == 0) len s.dev).1.2).load ptr len.toNat).length = len := by
    rw [ByteMap.length_load, UInt64.ofNat_toNat]
  replace hA : A (.read paddr len) s.dev := by
    have hreq : (readEvent dev paddr ptr len s).op.request = .read paddr len :=
      congrArg (Request.read paddr) hlen
    rw [← hreq]
    exact hA
  obtain ⟨⟨hret, hbytes⟩, hR⟩ := devReadMemRet_simulates (ptr == 0) hst hA
  have hhost : t.host.bytes = s.host.bytes := congrArg Host.bytes hst.host
  -- what is stored in the buffer is the same, so is the buffer
  have hpatch : s.host.bytes.patch ptr len.toNat (devReadMemRet t.host dev paddr (ptr == 0) len t.dev).1.2 =
      s.host.bytes.patch ptr len.toNat (devReadMemRet s.host dev paddr (ptr == 0) len s.dev).1.2 := by
    funext x
    by_cases hx : x ∈ span ptr len.toNat
    · obtain ⟨hlo, hhi⟩ := mem_span.mp hx
      rw [ByteMap.patch_of_mem _ hx, ByteMap.patch_of_mem _ hx, hbytes _ (by omega)]
    · rw [ByteMap.patch_of_notMem _ hx, ByteMap.patch_of_notMem _ hx]
  refine ⟨?_, hR⟩
  simp only [Event.face, readEvent, hret, hpatch, hhost]

/-- The read into the local record. -/
theorem simulates_devReadHComm {paddr : UInt64} :
    LaunchSimulates A R devs' dev (devReadHComm dev paddr) (devReadHComm dev paddr) := by
  intro s hs
  obtain ⟨hbefore, hA⟩ := Admitted.of_push (s := s) (e := hCommEvent dev paddr s) hs
  refine ⟨hbefore, fun t hst => ?_⟩
  obtain ⟨⟨hret, hbytes⟩, hR⟩ := devReadMemRet_simulates false hst hA
  have hafter : hCommAfter dev paddr t = hCommAfter dev paddr s := by
    rw [hCommAfter, hCommAfter, hst.hComm]
    refine List.ext_getElem? fun i => ?_
    rw [List.getElem?_mapIdx, List.getElem?_mapIdx]
    by_cases hi : i < s.hComm.length
    · rw [hbytes i (Nat.lt_of_lt_of_le hi hst.short)]
    · rw [List.getElem?_eq_none (by omega)]
      rfl
  have hhost : t.host.bytes = s.host.bytes := congrArg Host.bytes hst.host
  have hface : (hCommEvent dev paddr t).face = (hCommEvent dev paddr s).face := by
    simp only [Event.face, hCommEvent, hret, hafter, hhost]
  have hpush := hst.push hface hR
  refine ⟨congrArg check hret, ⟨hpush.host, hpush.dev_does, hpush.dev, hafter, ?_, hpush.trace⟩⟩
  show (hCommAfter dev paddr s).length ≤ 16
  rw [hCommAfter, List.length_mapIdx]
  exact hst.short

end Operations

/-! ## The phases -/

section Phases

variable {prg kernel : Ptr} {comm : ProgramComm}

theorem prgSetChunk_apply (h : Host δ) (i : Int) (chunk : ProgramChunk) :
    prgSetChunk h prg i chunk =
      if prgIsValid h prg = clSuccess then
        if i < 0 ∨ (h.prgs prg).numChunks ≤ i then .error clInvalidValue
        else .ok { h with prgs := Function.update h.prgs prg ((h.prgs prg).putChunk i.toNat chunk) }
      else .error (prgIsValid h prg) := by
  rw [prgSetChunk, check]
  split
  · show (if i < 0 ∨ (h.prgs prg).numChunks ≤ i then _ else _) = _
    split <;> rfl
  · rfl

/-- A chunk that was sent is marked. -/
theorem simulates_setChunk {i : Int} {chunk : ProgramChunk} :
    LaunchSimulates A R devs' dev
      (do
        let host ← query (prgSetChunk · prg i chunk)
        Exec.modify fun s => { s with host := host })
      (do
        let host ← query (prgSetChunk · prg i chunk)
        Exec.modify fun s => { s with host := host }) := by
  intro s hs
  have hover (x : Host δ) : prgSetChunk (x.over devs') prg i chunk =
      (prgSetChunk x prg i chunk).map (·.over devs') := by
    rw [prgSetChunk_apply, prgSetChunk_apply, show prgIsValid (x.over devs') prg = prgIsValid x prg from rfl,
      show (x.over devs').prgs prg = x.prgs prg from rfl]
    split
    · split <;> rfl
    · rfl
  rcases hset : prgSetChunk s.host prg i chunk with e | host
  · have hrun : query (prgSetChunk · prg i chunk) s = (.error e, s) := by rw [query_apply, hset]
    rw [Exec.bind_error hrun] at hs ⊢
    refine ⟨hs, fun t hst => ?_⟩
    have hrun' : query (prgSetChunk · prg i chunk) t = (.error e, t) := by
      rw [query_apply, hst.host, hover, hset]
      rfl
    rw [Exec.bind_error hrun']
    exact ⟨rfl, hst⟩
  · have hrun : query (prgSetChunk · prg i chunk) s = (.ok host, s) := by rw [query_apply, hset]
    have hdevs : host.devs = s.host.devs := by
      rw [prgSetChunk_apply] at hset
      split at hset
      · split at hset
        · cases hset
        · rw [← Except.ok.inj hset]
      · cases hset
    rw [Exec.bind_ok hrun] at hs ⊢
    refine ⟨hs, fun t hst => ?_⟩
    have hrun' : query (prgSetChunk · prg i chunk) t = (.ok (host.over devs'), t) := by
      rw [query_apply, hst.host, hover, hset]
      rfl
    rw [Exec.bind_ok hrun']
    exact ⟨rfl, rfl, hdevs ▸ hst.dev_does, hst.dev, hst.hComm, hst.short, hst.trace⟩

theorem simulates_sendChunk (i : Nat) :
    LaunchSimulates A R devs' dev (sendChunk dev prg i) (sendChunk dev prg i) :=
  .bind (simulates_query fun _ => rfl) fun _ =>
    .ite (.pure _) (.bind simulates_devWriteMem fun _ => simulates_setChunk)

theorem simulates_sendChunks (n : Nat) :
    ∀ i, LaunchSimulates A R devs' dev (sendChunks dev prg i n) (sendChunks dev prg i n) := by
  induction n with
  | zero => exact fun _ => .pure _
  | succ n ih => exact fun i => .bind (simulates_sendChunk i) fun _ => ih (i + 1)

theorem simulates_sendImage : LaunchSimulates A R devs' dev (sendImage dev prg) (sendImage dev prg) :=
  .bind (simulates_query fun _ => rfl) fun _ => simulates_sendChunks _ 0

theorem simulates_enqueueArg (arg : KernArg) (paddr : UInt64) :
    LaunchSimulates A R devs' dev (enqueueArg dev arg comm paddr) (enqueueArg dev arg comm paddr) :=
  .bind (simulates_query fun _ => rfl) fun _ =>
    .refuse (.bind simulates_devWriteMem fun _ => .ite (.bind simulates_devWriteMem fun _ => .pure _) (.pure _))

theorem simulates_dequeueArg (arg : KernArg) (paddr : UInt64) :
    LaunchSimulates A R devs' dev (dequeueArg dev arg comm paddr) (dequeueArg dev arg comm paddr) :=
  .bind (simulates_query fun _ => rfl) fun _ =>
    .refuse (.ite (.bind simulates_devReadMem fun _ => .pure _) (.pure _))

theorem simulates_enqueueArgs (n : Nat) : ∀ i paddr,
    LaunchSimulates A R devs' dev (enqueueArgs dev kernel comm i n paddr)
      (enqueueArgs dev kernel comm i n paddr) := by
  induction n with
  | zero => exact fun _ _ => .pure _
  | succ n ih =>
    exact fun i _ => .bind (simulates_query fun _ => rfl) fun _ =>
      .bind (simulates_enqueueArg _ _) fun paddr => ih (i + 1) paddr

theorem simulates_dequeueArgs (n : Nat) : ∀ i paddr,
    LaunchSimulates A R devs' dev (dequeueArgs dev kernel comm i n paddr)
      (dequeueArgs dev kernel comm i n paddr) := by
  induction n with
  | zero => exact fun _ _ => .pure _
  | succ n ih =>
    exact fun i _ => .bind (simulates_query fun _ => rfl) fun _ =>
      .bind (simulates_dequeueArg _ _) fun paddr => ih (i + 1) paddr

theorem simulates_sendArguments :
    LaunchSimulates A R devs' dev (sendArguments dev prg kernel) (sendArguments dev prg kernel) := by
  refine .bind (simulates_query fun _ => rfl) fun comm => .bind (simulates_query fun _ => rfl) fun numArgs => ?_
  refine .bind (.modify (fun _ hs => hs) fun s t hst => ?_) fun _ => ?_
  · exact ⟨hst.host, hst.dev_does, hst.dev, rfl, by simp, hst.trace⟩
  refine .bind simulates_devWriteMem fun _ => .bind (.gets fun s t hst => by rw [hst.host]; rfl) fun name => ?_
  exact .bind (simulates_enqueueArg _ _) fun _ => .bind (simulates_enqueueArgs _ _ _) fun _ => .pure _

theorem simulates_poll (n : Nat) : LaunchSimulates A R devs' dev (poll dev comm n) (poll dev comm n) := by
  induction n with
  | zero => exact .pure _
  | succ n ih =>
    refine .bind simulates_devStop fun _ => .bind simulates_devReadHComm fun _ => ?_
    refine .bind (.gets fun s t hst => by rw [hst.hComm]) fun hComm => .refuse (.ite (.pure _) ?_)
    exact .bind simulates_devRun fun _ => ih

theorem simulates_execute : LaunchSimulates A R devs' dev (execute dev comm) (execute dev comm) :=
  .bind simulates_devRun fun _ => .bind (simulates_poll _) fun _ => .ite (.exit _) (.pure _)

theorem simulates_recvArguments (numArgs : UInt32) :
    LaunchSimulates A R devs' dev (recvArguments dev kernel comm numArgs)
      (recvArguments dev kernel comm numArgs) :=
  .bind (.gets fun s t hst => by rw [hst.host]; rfl) fun _ =>
    .bind (simulates_dequeueArg _ _) fun _ => .bind (simulates_dequeueArgs _ _ _) fun _ => .pure _

/-- The launch behind the two lookups. -/
theorem simulates_launchOn (prg kernel : Ptr) : LaunchSimulates A R devs' dev
    (do
      devReset dev
      sendImage dev prg
      let (comm, numArgs) ← sendArguments dev prg kernel
      execute dev comm
      recvArguments dev kernel comm numArgs)
    (do
      devReset dev
      sendImage dev prg
      let (comm, numArgs) ← sendArguments dev prg kernel
      execute dev comm
      recvArguments dev kernel comm numArgs) :=
  .bind simulates_devReset fun _ => .bind simulates_sendImage fun _ => .bind simulates_sendArguments fun _ =>
    .bind simulates_execute fun _ => simulates_recvArguments _

end Phases

/-! ## The launch -/

section Launch

variable {A : Guard δ} {R : δ → γ → Prop} {devs' : Ptr → ClDevice γ} {cmdq : Ptr}

theorem Sys.Over.start {h : Host δ} {dev : Ptr} (hdev : ClDevice.Simulates A R (h.devs dev) (devs' dev)) {d : δ}
    {e : γ} (hR : R d e) : Sys.Over A R devs' dev ⟨h, d, [], []⟩ ⟨h.over devs', e, [], []⟩ :=
  ⟨rfl, hdev, hR, rfl, by simp, rfl⟩

/-- Launches from states that are alike end alike. -/
theorem Sys.Over.launch {s : Sys δ} {t : Sys γ}
    (h : Sys.Over A R devs' (ctxGetDevice s.host (cmdqGetContext s.host cmdq)) s t) {kernel : Ptr}
    (hA : Admitted A (BaremetalCrt.launch cmdq kernel s).2.trace) :
    (BaremetalCrt.launch cmdq kernel t).1 = (BaremetalCrt.launch cmdq kernel s).1 ∧
      Sys.Over A R devs' (ctxGetDevice s.host (cmdqGetContext s.host cmdq))
        (BaremetalCrt.launch cmdq kernel s).2 (BaremetalCrt.launch cmdq kernel t).2 := by
  -- the two lookups find the same
  obtain ⟨host, d, hComm, trace⟩ := t
  obtain rfl : host = s.host.over devs' := h.host
  exact (simulates_launchOn (kernGetProgram s.host kernel) kernel s hA).2 _ h

end Launch

/-- **One driver for another.** While a driver admits the requests that a launch over it makes, the launch
over a driver that does the same returns the same code, makes the same calls with the same results, leaves
the same host, and leaves its device related. -/
theorem clEnqueueNDRangeKernel_simulates (A : Guard δ) (R : δ → γ → Prop) (h : Host δ)
    (devs' : Ptr → ClDevice γ) (cmdq kernel : Ptr) (d : δ) (e : γ)
    (hdev : ClDevice.Simulates A R (h.devs (ctxGetDevice h (cmdqGetContext h cmdq)))
      (devs' (ctxGetDevice h (cmdqGetContext h cmdq))))
    (hR : R d e) (hA : Admitted A (clEnqueueNDRangeKernel cmdq kernel h d).trace) :
    let out := clEnqueueNDRangeKernel cmdq kernel h d
    let out' := clEnqueueNDRangeKernel cmdq kernel (h.over devs') e
    out'.ret = out.ret ∧ out'.host = out.host.over devs' ∧ R out.dev out'.dev ∧
      out'.trace.map Event.face = out.trace.map Event.face := by
  obtain ⟨hret, hend⟩ := (Sys.Over.start hdev hR).launch hA
  exact ⟨congrArg retOf hret, hend.host, hend.dev, hend.trace⟩

/-- Where the range of a request ends, in unbounded integers. -/
def Request.reach : Request → Nat
  | .read paddr len => paddr.toNat + len.toNat
  | .write paddr data => paddr.toNat + data.length
  | _ => 0

/-- The guard of a board with addresses of 32 bits. -/
def below4G : Guard δ := fun q _ => q.reach ≤ 2 ^ 32

/-- A driver for such a board, which counts the requests and refuses what it has no addresses for. -/
def countingOps (ops : DevOps δ) : DevOps (δ × Nat) where
  reset := ops.reset.map fun f d => ((f d.1).1, (f d.1).2, d.2 + 1)
  run := ops.run.map fun f d => ((f d.1).1, (f d.1).2, d.2 + 1)
  stop := ops.stop.map fun f d => ((f d.1).1, (f d.1).2, d.2 + 1)
  readMem := ops.readMem.map fun f d paddr len =>
    if paddr.toNat + len.toNat ≤ 2 ^ 32 then ((f d.1 paddr len).1, (f d.1 paddr len).2, d.2 + 1)
    else ((clInvalidValue, fun _ => none), d.1, d.2 + 1)
  writeMem := ops.writeMem.map fun f d paddr data =>
    if paddr.toNat + data.length ≤ 2 ^ 32 then ((f d.1 paddr data).1, (f d.1 paddr data).2, d.2 + 1)
    else (clInvalidValue, d.1, d.2 + 1)

/-- It does what the driver does of which it counts the requests, below four gigabytes. -/
theorem countingOps_simulates (ops : DevOps δ) :
    DevOps.Simulates below4G (fun d e => e.1 = d) ops (countingOps ops) := by
  have hcontrol (q : Request) (f : δ → ClInt × δ) :
      Does below4G (fun d (e : δ × Nat) => e.1 = d) q Eq f fun e => ((f e.1).1, (f e.1).2, e.2 + 1) := by
    rintro _ e - rfl
    exact ⟨rfl, rfl⟩
  have hslot {α β : Type} {T : α → β → Prop} (f : Option α) {g : α → β} (hT : ∀ a, T a (g a)) :
      Option.Rel T f (f.map g) := by
    cases f with
    | none => exact .none
    | some a => exact .some (hT a)
  refine ⟨hslot _ (hcontrol _), hslot _ (hcontrol _), hslot _ (hcontrol _), hslot _ fun f paddr len => ?_,
    hslot _ fun f paddr data => ?_⟩
  · rintro _ e hbelow rfl
    replace hbelow : paddr.toNat + len.toNat ≤ 2 ^ 32 := hbelow
    dsimp only
    rw [if_pos hbelow]
    exact ⟨⟨rfl, fun _ _ => rfl⟩, rfl⟩
  · rintro _ e hbelow rfl
    replace hbelow : paddr.toNat + data.length ≤ 2 ^ 32 := hbelow
    dsimp only
    rw [if_pos hbelow]
    exact ⟨rfl, rfl⟩

/-- The devices of a host with such a driver each. -/
def countingDevs (h : Host δ) (dev : Ptr) : ClDevice (δ × Nat) :=
  ⟨(h.devs dev).magic, (h.devs dev).ops.map countingOps⟩

/-- A launch with a value and a buffer makes no other requests, and succeeds. -/
theorem counted_simulates :
    let h := flowHost clMemReadWrite
    let out := clEnqueueNDRangeKernel 1 1 h fun _ => 0xaa
    let out' := clEnqueueNDRangeKernel 1 1 (h.over (countingDevs h)) (fun _ => 0xaa, 0)
    (out'.ret = out.ret ∧ out'.host = out.host.over (countingDevs h) ∧ out'.dev.1 = out.dev ∧
      out'.trace.map Event.face = out.trace.map Event.face) ∧ out.ret = clSuccess := by
  intro h
  have hbelow : Admitted below4G (clEnqueueNDRangeKernel 1 1 h fun _ => 0xaa).trace := by
    show ∀ e ∈ (clEnqueueNDRangeKernel 1 1 (flowHost clMemReadWrite) fun _ => 0xaa).trace,
      e.op.request.reach ≤ 2 ^ 32
    decide +kernel
  exact ⟨clEnqueueNDRangeKernel_simulates below4G (fun d e => e.1 = d) h (countingDevs h) 1 1 (fun _ => 0xaa)
    (fun _ => 0xaa, 0) ⟨rfl, .some (countingOps_simulates _)⟩ rfl hbelow, by decide +kernel⟩

end BaremetalCrt
