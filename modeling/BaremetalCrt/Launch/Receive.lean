/-
# BaremetalCrt.Launch.Receive — the two walks over the arguments.

`enqueueArg` and `dequeueArg` compute the address of every argument on their own, from differently
written start addresses.  `argSlots` is the list of the slots of an argument list; a plan that is
accepted is the list of its slots' transfers, and reading the arguments back is the list of its
slots' reads (`recvPlan_eq`): the same addresses, and no bound that rejects what was accepted.

`Slot` is an argument with its address, its size and its place in the host, and `Get` one read on the way
back. What is fetched is what the kernel may have written: a memory object, unless its flags say that it is
only read.
-/
import BaremetalCrt.Launch.Plan

namespace BaremetalCrt

open Lib

variable {δ : Type}

/-! ## Reads -/

/-- What is done for an argument on the way back: a read into host memory, if it is needed. -/
structure Get where
  paddr : UInt64
  ptr : Ptr
  len : UInt64
  need : Bool
  deriving DecidableEq, Repr

/-- One entry of the plan: the read, if there is something to read back. -/
def getOne (dev : Ptr) (g : Get) : Launch δ Unit :=
  if g.need then devReadMem dev g.paddr g.ptr g.len else pure ()

/-- Make the reads that are needed, in order, until one fails. -/
def fetch (dev : Ptr) : List Get → Launch δ Unit
  | [] => return ()
  | g :: gs => do
    getOne dev g
    fetch dev gs

theorem fetch_cons (dev : Ptr) (g : Get) (gs : List Get) :
    (fetch dev (g :: gs) : Launch δ Unit) = getOne dev g >>= fun _ => fetch dev gs := rfl

/-- Reads change the plain bytes of the host only. -/
theorem fetch_objects (dev : Ptr) (gs : List Get) (s : Sys δ) :
    ∃ bytes, (fetch dev gs s).2.host = { s.host with bytes := bytes } := by
  induction gs generalizing s with
  | nil => exact ⟨s.host.bytes, rfl⟩
  | cons g gs ih =>
    have hone : ∃ bytes, (getOne dev g s).2.host = { s.host with bytes := bytes } := by
      unfold getOne
      split
      · exact ⟨_, rfl⟩
      · exact ⟨s.host.bytes, rfl⟩
    obtain ⟨bytes, hb⟩ := hone
    rw [fetch_cons, Exec.bind_apply]
    rcases hr : getOne dev g s with ⟨_ | _, s'⟩
    · rw [hr] at hb
      exact ⟨bytes, hb⟩
    · rw [hr] at hb
      obtain ⟨bytes', hb'⟩ := ih s'
      refine ⟨bytes', hb'.trans ?_⟩
      rw [show s'.host = _ from hb]

/-! ## The plan of the reads -/

/-- The reads of an argument list from `paddr` on, and how the walk over it ends. -/
def recvPlan (h : Host δ) (comm : ProgramComm) :
    List KernArg → UInt64 → List Get × Except ClInt UInt64
  | [], paddr => ([], .ok paddr)
  | arg :: args, paddr =>
    match dequeueTarget h arg with
    | .error e => ([], .error e)
    | .ok dst =>
      if ExceedsComm comm paddr dst.2.1 then ([], .error clOutOfResources)
      else
        let rest := recvPlan h comm args (nextSlot paddr dst.2.1)
        (⟨payloadAddr paddr, dst.1, dst.2.1, dst.2.2⟩ :: rest.1, rest.2)

/-- Make the reads of a plan, then end as it says. -/
def fetchPlan {α : Type} (dev : Ptr) (plan : List Get × Except ClInt α) : Launch δ α :=
  fetch dev plan.1 >>= fun _ => Exec.lift plan.2

theorem dequeueArg_apply (dev : Ptr) (arg : KernArg) (comm : ProgramComm) (paddr : UInt64)
    (s : Sys δ) :
    dequeueArg dev arg comm paddr s = fetchPlan dev (recvPlan s.host comm [arg] paddr) s := by
  unfold dequeueArg
  rcases hdst : dequeueTarget s.host arg with e | ⟨ptr, size, need⟩
  · rw [Exec.bind_error (by rw [query_apply, hdst])]
    simp only [recvPlan, hdst]
    rfl
  · rw [Exec.bind_ok (a := (ptr, size, need)) (by rw [query_apply, hdst])]
    by_cases hex : ExceedsComm comm paddr size
    · have hex' : comm.addr + comm.size ≤ paddr + sizeofCommArgHeader + size := hex
      simp only [recvPlan, hdst, if_pos hex, if_pos hex']
      rfl
    · have hex' : ¬ comm.addr + comm.size ≤ paddr + sizeofCommArgHeader + size := hex
      simp only [recvPlan, hdst, if_neg hex, if_neg hex', fetchPlan, fetch_cons, bind_assoc]
      cases need <;> rfl

theorem recvPlan_cons (h : Host δ) (dev : Ptr) (comm : ProgramComm) (arg : KernArg)
    (args : List KernArg) (paddr : UInt64) :
    (fetchPlan dev (recvPlan h comm (arg :: args) paddr) : Launch δ UInt64) =
      fetchPlan dev (recvPlan h comm [arg] paddr) >>= fun p =>
        fetchPlan dev (recvPlan h comm args p) := by
  rcases hdst : dequeueTarget h arg with e | dst
  · simp only [recvPlan, hdst]
    rfl
  · by_cases hex : ExceedsComm comm paddr dst.2.1
    · simp only [recvPlan, hdst, if_pos hex]
      rfl
    · simp only [recvPlan, hdst, if_neg hex, fetchPlan, fetch_cons, bind_assoc, Exec.lift_ok]
      rfl

/-- The reads depend on the memory objects only. -/
theorem recvPlan_congr {h h' : Host δ} (hmems : h'.mems = h.mems) (comm : ProgramComm)
    (args : List KernArg) (paddr : UInt64) :
    recvPlan h' comm args paddr = recvPlan h comm args paddr := by
  have hdst (arg : KernArg) : dequeueTarget h' arg = dequeueTarget h arg := by
    simp only [dequeueTarget, memIsValid, hmems]
  induction args generalizing paddr with
  | nil => rfl
  | cons arg args ih => simp only [recvPlan, hdst, ih]

theorem fetchPlan_objects {α : Type} (dev : Ptr) (plan : List Get × Except ClInt α) (s : Sys δ) :
    ∃ bytes, (fetchPlan dev plan s).2.host = { s.host with bytes := bytes } := by
  have hs := fetch_objects dev plan.1 s
  unfold fetchPlan
  rw [Exec.bind_apply]
  rcases hf : fetch dev plan.1 s with ⟨_ | _, s'⟩ <;> rw [hf] at hs <;> exact hs

theorem dequeueArgs_apply (dev kernel : Ptr) (comm : ProgramComm) (n : Nat) :
    ∀ (i : UInt32) (paddr : UInt64) (s : Sys δ), kernIsValid s.host kernel = clSuccess →
      i.toNat + n = (s.host.kerns kernel).args.length →
      dequeueArgs dev kernel comm i n paddr s =
        fetchPlan dev (recvPlan s.host comm ((s.host.kerns kernel).args.drop i.toNat) paddr) s := by
  induction n with
  | zero =>
    intro i paddr s _ hi
    rw [List.drop_eq_nil_of_le (by omega)]
    rfl
  | succ n ih =>
    intro i paddr s hv hi
    have hlt : i.toNat < (s.host.kerns kernel).args.length := by omega
    have hbound := (s.host.kerns kernel).numArgs.toNat_lt
    have hsucc : (i + 1).toNat = i.toNat + 1 := by
      rw [UInt32.toNat_add]
      have := (s.host.kerns kernel).args_length
      simp
      omega
    rw [List.drop_eq_getElem_cons hlt, recvPlan_cons, dequeueArgs,
      Exec.bind_ok (by rw [query_apply, kernGetArg_eq_ok hv hlt]), Exec.bind_apply,
      Exec.bind_apply, dequeueArg_apply]
    -- the tail runs in the state the first read left, whose objects are the same
    obtain ⟨bytes, hobj⟩ := fetchPlan_objects dev
      (recvPlan s.host comm [(s.host.kerns kernel).args[i.toNat]] paddr) s
    rcases hfirst : fetchPlan dev (recvPlan s.host comm [(s.host.kerns kernel).args[i.toNat]] paddr) s
      with ⟨e | p, s'⟩
    · rfl
    · rw [hfirst] at hobj
      replace hobj : s'.host = { s.host with bytes := bytes } := hobj
      have hkerns : s'.host.kerns = s.host.kerns := by rw [hobj]
      have hmems : s'.host.mems = s.host.mems := by rw [hobj]
      show dequeueArgs dev kernel comm (i + 1) n p s' = _
      rw [ih (i + 1) p s' (by rw [kernIsValid, hkerns]; exact hv) (by rw [hkerns]; omega), hsucc,
        hkerns, recvPlan_congr hmems]

/-- **Reading the arguments back is its plan carried out.** -/
theorem recvArguments_apply (dev kernel : Ptr) (comm : ProgramComm) (s : Sys δ)
    (hv : kernIsValid s.host kernel = clSuccess) :
    recvArguments dev kernel comm (s.host.kerns kernel).numArgs s =
      (fetchPlan dev (recvPlan s.host comm (argList (s.host.kerns kernel))
        (comm.addr + sizeofCommAreaHeader)) >>= fun _ => pure ()) s := by
  have hlen := (s.host.kerns kernel).args_length
  rw [recvArguments, Exec.bind_ok (Exec.gets_apply _ _), argList, recvPlan_cons, bind_assoc,
    Exec.bind_apply, Exec.bind_apply, dequeueArg_apply]
  obtain ⟨bytes, hobj⟩ := fetchPlan_objects dev (recvPlan s.host comm [nameArg (s.host.kerns kernel)]
    (comm.addr + sizeofCommAreaHeader)) s
  rcases hname : fetchPlan dev (recvPlan s.host comm [nameArg (s.host.kerns kernel)]
    (comm.addr + sizeofCommAreaHeader)) s with ⟨e | p, s'⟩
  · rfl
  · rw [hname] at hobj
    replace hobj : s'.host = { s.host with bytes := bytes } := hobj
    have hkerns : s'.host.kerns = s.host.kerns := by rw [hobj]
    have hmems : s'.host.mems = s.host.mems := by rw [hobj]
    show (dequeueArgs dev kernel comm 0 _ p >>= fun _ => pure ()) s' = (fetchPlan dev _ >>= _) s'
    refine Exec.bind_congr_left ?_ _
    rw [dequeueArgs_apply dev kernel comm _ 0 p s' (by rw [kernIsValid, hkerns]; exact hv)
      (by rw [hkerns]; simp [hlen]), hkerns, recvPlan_congr hmems]
    rfl

/-! ## The slots of an argument list -/

/-- An argument in the communication area: where its header is, what its payload is on the host and
how long, and whether it is sent. -/
structure Slot where
  arg : KernArg
  addr : UInt64
  buf : CPtr
  size : UInt64
  sent : Bool

/-- Where the payload of the slot is on the device. -/
def Slot.payload (s : Slot) : UInt64 := payloadAddr s.addr

/-- The transfers of the slot: its header, and the bytes behind it if they are sent. -/
def Slot.puts (s : Slot) : List Put := slotPuts s.arg (s.buf, s.size, s.sent) s.addr

/-- Whether the slot is read back: it is a memory object that the device may write. -/
def Slot.fetched (h : Host δ) (s : Slot) : Bool :=
  decide (s.arg.argtype = commArgMem) && memCanWrite (h.mems s.arg.val.handle)

/-- The host storage of the slot's memory object, or NULL for a value. -/
def Slot.ptr (h : Host δ) (s : Slot) : Ptr :=
  if s.arg.argtype = commArgMem then (h.mems s.arg.val.handle).ptr else 0

/-- What is done for the slot on the way back: where the bytes are on the device, where they go, and how
many. -/
def Slot.get (h : Host δ) (s : Slot) : Get := ⟨s.payload, s.ptr h, s.size, s.fetched h⟩

/-- The slots of an argument list from `paddr` on. -/
def argSlots (h : Host δ) : List KernArg → UInt64 → List Slot
  | [], _ => []
  | arg :: args, paddr =>
    match enqueueSource h arg with
    | .error _ => []
    | .ok src => ⟨arg, paddr, src.1, src.2.1, src.2.2⟩ :: argSlots h args (nextSlot paddr src.2.1)

/-- What a slot holds: the value of a value argument, or the storage of a memory object, which is sent
if the device may read it. -/
def Slot.WellFormed (h : Host δ) (s : Slot) : Prop :=
  s.arg.argtype = commArgVal ∧ s.buf = s.arg.val ∧ s.size = s.arg.size ∧ s.sent = true ∨
    s.arg.argtype = commArgMem ∧ memIsValid h s.arg.val.handle = clSuccess ∧
      s.buf = .addr (h.mems s.arg.val.handle).ptr ∧ s.size = (h.mems s.arg.val.handle).size ∧
      s.sent = memCanRead (h.mems s.arg.val.handle)

theorem enqueueSource_eq_ok {h : Host δ} {arg : KernArg} {src : CPtr × UInt64 × Bool} :
    enqueueSource h arg = .ok src ↔
      arg.argtype = commArgVal ∧ src = (arg.val, arg.size, true) ∨
        arg.argtype = commArgMem ∧ memIsValid h arg.val.handle = clSuccess ∧
          src = (.addr (h.mems arg.val.handle).ptr, (h.mems arg.val.handle).size,
            memCanRead (h.mems arg.val.handle)) := by
  have hvm : commArgVal ≠ commArgMem := by decide
  have hnv : commArgVal ≠ commArgNotused := by decide
  have hnm : commArgMem ≠ commArgNotused := by decide
  unfold enqueueSource
  by_cases hn : arg.argtype = commArgNotused
  · rw [if_pos hn, hn]
    simp [hnv.symm, hnm.symm]
  · rw [if_neg hn]
    by_cases hval : arg.argtype = commArgVal
    · rw [if_pos hval, hval]
      simp [hvm, eq_comm]
    · rw [if_neg hval]
      by_cases hmem : arg.argtype = commArgMem
      · rw [if_pos hmem]
        constructor
        · intro hs
          by_cases hv : memIsValid h arg.val.handle = clSuccess
          · rw [hv, check_success] at hs
            exact Or.inr ⟨hmem, hv, (Except.ok.inj hs).symm⟩
          · rw [check, if_neg hv] at hs
            cases hs
        · rintro (⟨hval', _⟩ | ⟨_, hv, rfl⟩)
          · exact absurd hval' hval
          · rw [hv, check_success]
            rfl
      · rw [if_neg hmem]
        simp [hval, hmem]

/-- The two walks agree on the size of an argument. -/
theorem dequeueTarget_of_source {h : Host δ} {arg : KernArg} {src : CPtr × UInt64 × Bool}
    (hsrc : enqueueSource h arg = .ok src) :
    dequeueTarget h arg = .ok
      (if arg.argtype = commArgMem then (h.mems arg.val.handle).ptr else 0, src.2.1,
        decide (arg.argtype = commArgMem) && memCanWrite (h.mems arg.val.handle)) := by
  have hnv : commArgVal ≠ commArgNotused := by decide
  have hnm : commArgMem ≠ commArgNotused := by decide
  have hmv : commArgMem ≠ commArgVal := by decide
  rcases enqueueSource_eq_ok.mp hsrc with ⟨hval, rfl⟩ | ⟨hmem, hv, rfl⟩
  · rw [dequeueTarget, hval, if_neg hnv, if_pos rfl]
    simp [hmv.symm]
  · rw [dequeueTarget, hmem, if_neg hnm, if_neg hmv, if_pos rfl, hv, check_success]
    simp
    rfl

theorem argSlots_wellFormed {h : Host δ} :
    ∀ {args : List KernArg} {paddr : UInt64}, ∀ s ∈ argSlots h args paddr, s.WellFormed h
  | [], _, _, hs => by cases hs
  | arg :: args, paddr, s, hs => by
    rcases hsrc : enqueueSource h arg with e | src
    · simp [argSlots, hsrc] at hs
    · simp only [argSlots, hsrc] at hs
      rcases List.mem_cons.mp hs with rfl | hs
      · rcases enqueueSource_eq_ok.mp hsrc with ⟨hval, rfl⟩ | ⟨hmem, hv, rfl⟩
        · exact Or.inl ⟨hval, rfl, rfl, rfl⟩
        · exact Or.inr ⟨hmem, hv, rfl, rfl, rfl⟩
      · exact argSlots_wellFormed s hs

/-- An accepted plan has a slot for every argument, and is the list of their transfers. -/
theorem argPlan_slots {h : Host δ} {comm : ProgramComm} :
    ∀ {args : List KernArg} {paddr paddr' : UInt64}, (argPlan h comm args paddr).2 = .ok paddr' →
      (argPlan h comm args paddr).1 = (argSlots h args paddr).flatMap Slot.puts ∧
        (argSlots h args paddr).map Slot.arg = args
  | [], _, _, _ => ⟨rfl, rfl⟩
  | arg :: args, paddr, paddr', hok => by
    rcases hsrc : enqueueSource h arg with e | src
    · rw [argPlan_error hsrc] at hok
      cases hok
    · by_cases hex : ExceedsComm comm paddr src.2.1
      · rw [argPlan_exceeds hsrc hex] at hok
        cases hok
      · rw [argPlan_fits hsrc hex] at hok ⊢
        obtain ⟨hputs, hargs⟩ := argPlan_slots hok
        simp only [argSlots, hsrc, List.flatMap_cons, List.map_cons, hputs, hargs]
        exact ⟨rfl, trivial⟩

/-- **The walk back is the walk there.**  When the layout was accepted, `dequeue_arg` finds every
argument at the address where `enqueue_arg` put it, and its bound rejects none. -/
theorem recvPlan_eq {h : Host δ} {comm : ProgramComm} :
    ∀ {args : List KernArg} {paddr paddr' : UInt64}, (argPlan h comm args paddr).2 = .ok paddr' →
      recvPlan h comm args paddr = ((argSlots h args paddr).map (Slot.get h), .ok paddr')
  | [], paddr, paddr', hok => by
    obtain rfl : paddr = paddr' := Except.ok.inj hok
    rfl
  | arg :: args, paddr, paddr', hok => by
    rcases hsrc : enqueueSource h arg with e | src
    · rw [argPlan_error hsrc] at hok
      cases hok
    · by_cases hex : ExceedsComm comm paddr src.2.1
      · rw [argPlan_exceeds hsrc hex] at hok
        cases hok
      · rw [argPlan_fits hsrc hex] at hok
        simp only [recvPlan, dequeueTarget_of_source hsrc, if_neg hex, recvPlan_eq hok, argSlots, hsrc,
          List.map_cons]
        rfl

/-- The start addresses of the two walks, written differently in the source, are the same. -/
theorem recvStart_eq (comm : ProgramComm) : comm.addr + sizeofCommAreaHeader = argStart comm := rfl

end BaremetalCrt
