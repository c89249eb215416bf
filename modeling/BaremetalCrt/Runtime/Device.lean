/-
# BaremetalCrt.Runtime.Device — the device operations (`drivers/device.c`) and their trace.

`Launch δ` is the code of a launch: it runs over the host objects, the driver's state and the local
record `h_comm`, and stops with the error code that the source returns.  Every `dev_*` call is
recorded with its result, the host memory and the driver state around it, so that statements about
what was issued in which order are statements about `Sys.trace`.

A call that is refused by the wrapper (a handle that is not valid, an operation that the driver does not
have) is recorded like any other, with its code; a transfer of no bytes succeeds without the driver.
`Sys.Recorded` says that the trace accounts for every change of the host memory and of the device.
-/
import BaremetalCrt.Lib.Exec
import BaremetalCrt.Lib.Trace
import BaremetalCrt.Runtime.Objects

namespace BaremetalCrt

open Lib

variable {δ : Type}

/-! ## The trace -/

/-- What a device write carries: an area of the program, or one of the three kinds of write that
pass the arguments (the area header, the header of a slot, its payload). -/
inductive Cargo where
  | chunk (i : Nat)
  | areaHeader
  | argHeader
  | argPayload
  deriving DecidableEq, Repr

/-- An issued device operation.  A read carries what its destination holds after it. -/
inductive DevOp where
  | reset
  | run
  | stop
  | readMem (cargo : Cargo) (paddr : UInt64) (data : List UInt8)
  | writeMem (cargo : Cargo) (paddr : UInt64) (data : List UInt8)
  deriving DecidableEq, Repr

/-- One call of a `dev_*` function: what was asked, the code, and the memory of the host and the state of
the device in front of it and behind it. -/
structure Event (δ : Type) where
  op : DevOp
  ret : ClInt
  hostBefore : ByteMap
  hostAfter : ByteMap
  devBefore : δ
  devAfter : δ

/-- `dev_reset`, `dev_run` and `dev_stop`: what decides whether the device runs. -/
def DevOp.isControl : DevOp → Bool
  | .reset | .run | .stop => true
  | _ => false

/-- The operation is one of the two transfers. -/
def DevOp.isMem (op : DevOp) : Bool := !op.isControl

/-- The event was a reset, a run or a stop. -/
def Event.isControl (e : Event δ) : Bool := e.op.isControl

/-- The event was a run: from there on the processor may write to its memory. -/
def Event.isRun (e : Event δ) : Bool := e.op == .run

/-- The host memory and the device in front of a call. -/
def Event.before (e : Event δ) : ByteMap × δ := (e.hostBefore, e.devBefore)

/-- The host memory and the device behind the event. -/
def Event.after (e : Event δ) : ByteMap × δ := (e.hostAfter, e.devAfter)

/-- Every operation that was issued succeeded. -/
def AllSucceed (tr : List (Event δ)) : Prop := ∀ e ∈ tr, e.ret = clSuccess

theorem AllSucceed.of_append {tr es : List (Event δ)} (h : AllSucceed (tr ++ es)) :
    AllSucceed tr ∧ AllSucceed es :=
  ⟨fun e he => h e (List.mem_append_left _ he), fun e he => h e (List.mem_append_right _ he)⟩

theorem AllSucceed.last {tr : List (Event δ)} {e : Event δ} (h : AllSucceed (tr ++ [e])) :
    e.ret = clSuccess := h e (List.mem_append_right _ (List.mem_singleton.mpr rfl))

theorem AllSucceed.snoc {tr : List (Event δ)} {e : Event δ} (h : AllSucceed tr)
    (he : e.ret = clSuccess) : AllSucceed (tr ++ [e]) := by
  intro x hx
  rcases List.mem_append.mp hx with hx | hx
  · exact h x hx
  · obtain rfl := List.mem_singleton.mp hx
    exact he

/-- The state a launch runs over: the objects and the memory of the host, the device, the local variable
`h_comm`, and the calls so far. -/
structure Sys (δ : Type) where
  host : Host δ
  dev : δ
  hComm : List UInt8
  trace : List (Event δ)

/-- The code of a launch: it moves the state on, and an error ends it with a code. -/
abbrev Launch (δ : Type) := Exec (Sys δ) ClInt

/-- Evaluate an accessor on the host objects, stopping with its error. -/
def query {α : Type} (f : Host δ → Except ClInt α) : Launch δ α := fun s => (f s.host, s)

@[simp] theorem query_apply {α : Type} (f : Host δ → Except ClInt α) (s : Sys δ) :
    query f s = (f s.host, s) := rfl

/-! ## The operations -/

/-- `dev_reset`, `dev_run` and `dev_stop` differ in the slot of the ops table that they call; a device
without a driver, or a driver without the operation, is refused. -/
def devControlRet (op : DevOps δ → Option (δ → ClInt × δ)) (h : Host δ) (dev : Ptr) (d : δ) :
    ClInt × δ :=
  if devIsValid h dev ≠ clSuccess then (devIsValid h dev, d)
  else match (h.devs dev).ops.bind op with
    | none => (clInvalidDevice, d)
    | some f => f d

/-- The memory range checks that `dev_read_mem` and `dev_write_mem` share, around the driver call. -/
def devMemRet {α : Type} (f : Option (δ → α × δ)) (ok : α) (err : ClInt → α) (h : Host δ)
    (dev : Ptr) (bufNull : Bool) (len : UInt64) (d : δ) : α × δ :=
  if devIsValid h dev ≠ clSuccess then (err (devIsValid h dev), d)
  else match f with
    | none => (err clInvalidDevice, d)
    | some f =>
      -- the driver is there, whatever the range is
      if bufNull ∧ len ≠ 0 then (err clInvalidValue, d)
      else if len = 0 then (ok, d)
      else f d

/-- `dev_write_mem`: the driver is handed the bytes behind `buf`. -/
def devWriteMemRet (h : Host δ) (dev : Ptr) (paddr : UInt64) (buf : CPtr) (len : UInt64) (d : δ) :
    ClInt × δ :=
  devMemRet (((h.devs dev).ops.bind (·.writeMem)).map fun f d => f d paddr (h.read buf len.toNat))
    clSuccess id h dev buf.isNull len d

/-- `dev_read_mem`: the code, and what the driver stored in the buffer. -/
def devReadMemRet (h : Host δ) (dev : Ptr) (paddr : UInt64) (bufNull : Bool) (len : UInt64)
    (d : δ) : (ClInt × (Nat → Option UInt8)) × δ :=
  devMemRet (((h.devs dev).ops.bind (·.readMem)).map fun f d => f d paddr len)
    (clSuccess, fun _ => none) (fun r => (r, fun _ => none)) h dev bufNull len d

section Congr

variable {h h' : Host δ} (hdevs : h'.devs = h.devs)
include hdevs

theorem devIsValid_congr (dev : Ptr) : devIsValid h' dev = devIsValid h dev := by
  rw [devIsValid, hdevs]
  rfl

/-- The device operations depend on the devices of the host only. -/
theorem devControlRet_congr (op : DevOps δ → Option (δ → ClInt × δ)) (dev : Ptr) (d : δ) :
    devControlRet op h' dev d = devControlRet op h dev d := by
  unfold devControlRet
  rw [devIsValid_congr hdevs, hdevs]

theorem devReadMemRet_congr (dev : Ptr) (paddr : UInt64) (bufNull : Bool) (len : UInt64) (d : δ) :
    devReadMemRet h' dev paddr bufNull len d = devReadMemRet h dev paddr bufNull len d := by
  unfold devReadMemRet devMemRet
  rw [devIsValid_congr hdevs, hdevs]

/-- A write depends on the bytes it sends, too. -/
theorem devWriteMemRet_congr (hbytes : h'.bytes = h.bytes) (dev : Ptr) (paddr : UInt64) (buf : CPtr)
    (len : UInt64) (d : δ) :
    devWriteMemRet h' dev paddr buf len d = devWriteMemRet h dev paddr buf len d := by
  have hread : h'.read buf len.toNat = h.read buf len.toNat := by
    cases buf <;> simp only [Host.read, hbytes]
  unfold devWriteMemRet devMemRet
  rw [devIsValid_congr hdevs, hread, hdevs]

end Congr

/-- The state after a call: what the call did to the host memory and to the device, and its record. -/
def Sys.push (s : Sys δ) (e : Event δ) : Sys δ :=
  { s with
    host := { s.host with bytes := e.hostAfter }
    dev := e.devAfter
    trace := s.trace ++ [e] }

/-- A reset, a run or a stop as an entry of the trace; the host is not concerned. -/
def controlEvent (op : DevOp) (slot : DevOps δ → Option (δ → ClInt × δ)) (dev : Ptr) (s : Sys δ) :
    Event δ :=
  let out := devControlRet slot s.host dev s.dev
  ⟨op, out.1, s.host.bytes, s.host.bytes, s.dev, out.2⟩

/-- A write as an entry of the trace, with the bytes that it carries. -/
def writeEvent (cargo : Cargo) (dev : Ptr) (paddr : UInt64) (buf : CPtr) (len : UInt64)
    (s : Sys δ) : Event δ :=
  let out := devWriteMemRet s.host dev paddr buf len s.dev
  ⟨.writeMem cargo paddr (s.host.read buf len.toNat), out.1, s.host.bytes, s.host.bytes, s.dev,
    out.2⟩

/-- A read into host memory at `ptr`: on failure too, the bytes the driver stored are there. -/
def readEvent (dev : Ptr) (paddr : UInt64) (ptr : Ptr) (len : UInt64) (s : Sys δ) : Event δ :=
  let out := devReadMemRet s.host dev paddr (ptr == 0) len s.dev
  let bytes := s.host.bytes.patch ptr len.toNat out.1.2
  ⟨.readMem .argPayload paddr (bytes.load ptr len.toNat), out.1.1, s.host.bytes, bytes, s.dev, out.2⟩

/-- The local record behind a read into it: a byte that the driver did not store is as it was before. -/
def hCommAfter (dev : Ptr) (paddr : UInt64) (s : Sys δ) : List UInt8 :=
  let out := devReadMemRet s.host dev paddr false sizeofCommAreaHeader s.dev
  s.hComm.mapIdx fun i b => (out.1.2 i).getD b

/-- The read of the area header as an entry of the trace; it goes to a local variable, so that the host
memory stays as it is. -/
def hCommEvent (dev : Ptr) (paddr : UInt64) (s : Sys δ) : Event δ :=
  let out := devReadMemRet s.host dev paddr false sizeofCommAreaHeader s.dev
  ⟨.readMem .areaHeader paddr (hCommAfter dev paddr s), out.1.1, s.host.bytes, s.host.bytes, s.dev, out.2⟩

/-- Make a call, record it, and stop with its code when it failed. -/
def devCall (event : Sys δ → Event δ) : Launch δ Unit := fun s =>
  (check (event s).ret, s.push (event s))

/-- `dev_reset`, with its entry in the trace; an error ends the launch. -/
def devReset (dev : Ptr) : Launch δ Unit := devCall (controlEvent .reset (·.reset) dev)

/-- `dev_run`, with its entry in the trace. -/
def devRun (dev : Ptr) : Launch δ Unit := devCall (controlEvent .run (·.run) dev)

/-- `dev_stop`, with its entry in the trace. -/
def devStop (dev : Ptr) : Launch δ Unit := devCall (controlEvent .stop (·.stop) dev)

/-- `dev_write_mem` of bytes of the host, with its entry in the trace. -/
def devWriteMem (cargo : Cargo) (dev : Ptr) (paddr : UInt64) (buf : CPtr) (len : UInt64) :
    Launch δ Unit := devCall (writeEvent cargo dev paddr buf len)

/-- `dev_read_mem` into host memory at `ptr`, with its entry in the trace. -/
def devReadMem (dev : Ptr) (paddr : UInt64) (ptr : Ptr) (len : UInt64) : Launch δ Unit :=
  devCall (readEvent dev paddr ptr len)

/-- `dev_read_mem` into the local record `h_comm`. -/
def devReadHComm (dev : Ptr) (paddr : UInt64) : Launch δ Unit := fun s =>
  (check (hCommEvent dev paddr s).ret,
    { s.push (hCommEvent dev paddr s) with hComm := hCommAfter dev paddr s })

/-- A board that accepts everything, keeps its state, and shows the same record at every read. -/
def boardOps (record : List UInt8) : DevOps δ where
  reset := some fun d => (clSuccess, d)
  run := some fun d => (clSuccess, d)
  stop := some fun d => (clSuccess, d)
  readMem := some fun d _ _ => ((clSuccess, fun i => record[i]?), d)
  writeMem := some fun d _ _ => (clSuccess, d)

/-! ## Rules -/

section Rules

variable {Q : Unit → Sys δ → Prop} {E : ClInt → Sys δ → Prop} {s : Sys δ}

/-- A call returns exactly when its record says so, and the state after it is the pushed one. -/
theorem wp_devCall {event : Sys δ → Event δ} :
    Exec.wp (devCall event) Q E s ↔
      ((event s).ret = clSuccess → Q () (s.push (event s))) ∧
        ((event s).ret ≠ clSuccess → E (event s).ret (s.push (event s))) := by
  by_cases h : (event s).ret = clSuccess <;> simp [devCall, Exec.wp, check, h]

theorem wp_devReadHComm {dev : Ptr} {paddr : UInt64} :
    Exec.wp (devReadHComm dev paddr) Q E s ↔
      let e := hCommEvent dev paddr s
      let s' : Sys δ := { s.push e with hComm := hCommAfter dev paddr s }
      (e.ret = clSuccess → Q () s') ∧ (e.ret ≠ clSuccess → E e.ret s') := by
  by_cases h : (hCommEvent dev paddr s).ret = clSuccess <;>
    simp [devReadHComm, Exec.wp, check, h]

end Rules

/-! ## What the trace accounts for -/

/-- The later state has more events, and these are all that happened to the host memory and to the
device in between. -/
def Sys.Recorded (s s' : Sys δ) : Prop :=
  ∃ es, s'.trace = s.trace ++ es ∧
    Linked Event.before Event.after (s.host.bytes, s.dev) es (s'.host.bytes, s'.dev)

theorem Sys.Recorded.refl (s : Sys δ) : s.Recorded s := ⟨[], (List.append_nil _).symm, rfl⟩

theorem Sys.Recorded.trans {a b c : Sys δ} (hab : a.Recorded b) (hbc : b.Recorded c) :
    a.Recorded c := by
  obtain ⟨xs, hxs, hx⟩ := hab
  obtain ⟨ys, hys, hy⟩ := hbc
  exact ⟨xs ++ ys, by rw [hys, hxs, List.append_assoc], hx.append hy⟩

theorem Sys.Recorded.push {s : Sys δ} {e : Event δ} (he : e.before = (s.host.bytes, s.dev)) :
    s.Recorded (s.push e) := ⟨[e], rfl, he, rfl⟩

end BaremetalCrt
