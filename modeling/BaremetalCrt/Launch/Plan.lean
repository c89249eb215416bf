/-
# BaremetalCrt.Launch.Plan — the transfers a launch is going to make.

What passes the arguments to the device is decided by the host objects alone; the device can only
cut it short.  `argPlan` computes the list of transfers for the kernel name and the arguments, and
how the walk over them ends; `issue` carries a list of transfers out.  The walk of the source is the
plan carried out (`enqueueArgs_apply`, `sendArguments_apply`), so statements about addresses and
bytes are statements about a pure function, and statements about the device are statements about
`issue`.
-/
import BaremetalCrt.Launch.Enqueue

namespace BaremetalCrt

open Lib

variable {δ : Type}

/-! ## Transfers -/

/-- One transfer from the host to the device: what it is for, where it goes, and where its bytes are. -/
structure Put where
  cargo : Cargo
  paddr : UInt64
  buf : CPtr
  len : UInt64

/-- The bytes a transfer carries, read from the host's memory. -/
def Put.data (h : Host δ) (p : Put) : List UInt8 := h.read p.buf p.len.toNat

/-- The transfer, as the operation of the device that is on record. -/
def Put.op (h : Host δ) (p : Put) : DevOp := .writeMem p.cargo p.paddr (p.data h)

/-- Carry the transfers out, in order, until one fails. -/
def issue (dev : Ptr) : List Put → Launch δ Unit
  | [] => return ()
  | p :: ps => do
    devWriteMem p.cargo dev p.paddr p.buf p.len
    issue dev ps

@[simp] theorem issue_nil (dev : Ptr) : (issue dev [] : Launch δ Unit) = pure () := rfl

theorem issue_cons (dev : Ptr) (p : Put) (ps : List Put) :
    (issue dev (p :: ps) : Launch δ Unit) =
      devWriteMem p.cargo dev p.paddr p.buf p.len >>= fun _ => issue dev ps := rfl

theorem issue_append (dev : Ptr) (ps qs : List Put) :
    (issue dev (ps ++ qs) : Launch δ Unit) = issue dev ps >>= fun _ => issue dev qs := by
  induction ps with
  | nil => rfl
  | cons p ps ih => rw [List.cons_append, issue_cons, ih, issue_cons, bind_assoc]

@[simp] theorem push_writeEvent_host (cargo : Cargo) (dev : Ptr) (paddr : UInt64) (buf : CPtr)
    (len : UInt64) (s : Sys δ) : (s.push (writeEvent cargo dev paddr buf len s)).host = s.host := rfl

/-- Transfers read the host and do not change it. -/
theorem issue_host (dev : Ptr) (ps : List Put) (s : Sys δ) : (issue dev ps s).2.host = s.host := by
  induction ps generalizing s with
  | nil => rfl
  | cons p ps ih =>
    rw [issue_cons, Exec.bind_apply]
    rcases hw : (devWriteMem p.cargo dev p.paddr p.buf p.len s) with ⟨_ | _, s'⟩
    · obtain rfl := (Prod.mk.inj hw).2
      rfl
    · obtain rfl := (Prod.mk.inj hw).2
      exact ih _

/-! ## The chunks of a program -/

/-- A chunk that the upload loop leaves out: it is readonly and marked as loaded. -/
def ProgramChunk.Skipped (c : ProgramChunk) : Prop := c.readonly = true ∧ c.loaded = true

instance (c : ProgramChunk) : Decidable c.Skipped := inferInstanceAs (Decidable (_ ∧ _))

/-- The transfer of a chunk to its physical address. -/
def chunkPut (i : Nat) (c : ProgramChunk) : Put :=
  ⟨.chunk i, c.paddr, .addr c.buf, c.size.toUInt64⟩

/-- The bytes of a chunk, as they are in the caller's binary now. -/
def ProgramChunk.data (h : Host δ) (c : ProgramChunk) : List UInt8 := h.bytes.load c.buf c.size.toNat

@[simp] theorem chunkPut_data (h : Host δ) (i : Nat) (c : ProgramChunk) :
    (chunkPut i c).data h = c.data h := by
  simp [chunkPut, Put.data, Host.read, ProgramChunk.data]

/-- The host with the `loaded` flag of chunk `i` set. -/
def Host.markLoaded (h : Host δ) (prg : Ptr) (i : Nat) : Host δ :=
  { h with
    prgs := Function.update h.prgs prg
      ((h.prgs prg).putChunk i { (h.prgs prg).chunkAt i with loaded := true }) }

/-- The area `i` of a program is marked as sent; the device and the trace are as before. -/
def Sys.markLoaded (prg : Ptr) (i : Nat) (s : Sys δ) : Sys δ :=
  { s with host := s.host.markLoaded prg i }

theorem chunkAt_putChunk_ne {p : ClProgram} {i j : Nat} {c : ProgramChunk} (h : j ≠ i) :
    (p.putChunk i c).chunkAt j = p.chunkAt j := by
  unfold ClProgram.chunkAt ClProgram.putChunk
  cases p.chunks with
  | none => rfl
  | some cs => simp [List.getD_eq_getElem?_getD, List.getElem?_set_ne h.symm]

theorem chunkAt_putChunk_self (p : ClProgram) (i : Nat) (c : ProgramChunk) :
    (p.putChunk i c).chunkAt i = p.chunkAt i ∨
      (p.putChunk i c).chunkAt i = { c with index := i } := by
  unfold ClProgram.chunkAt ClProgram.putChunk
  cases p.chunks with
  | none => exact Or.inl rfl
  | some cs =>
    by_cases hi : i < cs.length
    · exact Or.inr (by simp [List.getD_eq_getElem?_getD, hi])
    · exact Or.inl (by simp [List.getD_eq_getElem?_getD, hi])

theorem prgGetChunk_eq_ok {h : Host δ} {prg : Ptr} {i : Nat} (hv : prgIsValid h prg = clSuccess)
    (hi : (i : Int) < (h.prgs prg).numChunks) :
    prgGetChunk h prg i = .ok ((h.prgs prg).chunkAt i) := by
  have hr : ¬ ((i : Int) < 0 ∨ (h.prgs prg).numChunks ≤ i) := by omega
  simp only [prgGetChunk, hv, check_success, if_neg hr, Int.toNat_natCast]
  rfl

theorem prgSetChunk_eq_ok {h : Host δ} {prg : Ptr} {i : Nat} (c : ProgramChunk)
    (hv : prgIsValid h prg = clSuccess) (hi : (i : Int) < (h.prgs prg).numChunks) :
    prgSetChunk h prg i c =
      .ok { h with prgs := Function.update h.prgs prg ((h.prgs prg).putChunk i c) } := by
  have hr : ¬ ((i : Int) < 0 ∨ (h.prgs prg).numChunks ≤ i) := by omega
  simp only [prgSetChunk, hv, check_success, if_neg hr, Int.toNat_natCast]
  rfl

theorem sendChunk_skipped (dev : Ptr) {prg : Ptr} {i : Nat} {s : Sys δ}
    (hv : prgIsValid s.host prg = clSuccess) (hi : (i : Int) < (s.host.prgs prg).numChunks)
    (hskip : ((s.host.prgs prg).chunkAt i).Skipped) : sendChunk dev prg i s = (.ok (), s) := by
  have htest : ((s.host.prgs prg).chunkAt i).readonly = true ∧
      ((s.host.prgs prg).chunkAt i).loaded = true := hskip
  unfold sendChunk
  rw [Exec.bind_ok (by rw [query_apply, prgGetChunk_eq_ok hv hi]), if_pos htest]
  rfl

/-- A chunk that is not left out is transferred, and marked when the transfer succeeded. -/
theorem sendChunk_apply (dev : Ptr) {prg : Ptr} {i : Nat} {s : Sys δ}
    (hv : prgIsValid s.host prg = clSuccess) (hi : (i : Int) < (s.host.prgs prg).numChunks)
    (hskip : ¬ ((s.host.prgs prg).chunkAt i).Skipped) :
    sendChunk dev prg i s =
      (issue dev [chunkPut i ((s.host.prgs prg).chunkAt i)] >>= fun _ =>
        Exec.modify (Sys.markLoaded prg i)) s := by
  have htest : ¬ (((s.host.prgs prg).chunkAt i).readonly = true ∧
      ((s.host.prgs prg).chunkAt i).loaded = true) := hskip
  unfold sendChunk
  rw [Exec.bind_ok (by rw [query_apply, prgGetChunk_eq_ok hv hi]), if_neg htest, issue_cons,
    issue_nil, bind_assoc]
  simp only [pure_bind, chunkPut]
  rw [Exec.bind_apply, Exec.bind_apply]
  rcases hw : devWriteMem (.chunk i) dev ((s.host.prgs prg).chunkAt i).paddr
    (.addr ((s.host.prgs prg).chunkAt i).buf) ((s.host.prgs prg).chunkAt i).size.toUInt64 s
    with ⟨_ | _, s₁⟩
  · rfl
  · have hs₁ : s₁.host = s.host := by
      rw [← (Prod.mk.inj hw).2]
      rfl
    show (query _ >>= _) s₁ = _
    rw [Exec.bind_ok (by rw [query_apply, hs₁, prgSetChunk_eq_ok _ hv hi])]
    simp only [Exec.modify_apply, Sys.markLoaded, Host.markLoaded, hs₁]

/-- What an upload of `prg` leaves of the host objects: everything but its chunk table. -/
structure Host.UploadFrame (prg : Ptr) (h h' : Host δ) : Prop where
  bytes : h'.bytes = h.bytes
  cmdqs : h'.cmdqs = h.cmdqs
  ctxs : h'.ctxs = h.ctxs
  devs : h'.devs = h.devs
  kerns : h'.kerns = h.kerns
  mems : h'.mems = h.mems
  others : ∀ p, p ≠ prg → h'.prgs p = h.prgs p
  magic : (h'.prgs prg).magic = (h.prgs prg).magic
  numChunks : (h'.prgs prg).numChunks = (h.prgs prg).numChunks
  comm : (h'.prgs prg).comm = (h.prgs prg).comm

theorem Host.UploadFrame.refl (prg : Ptr) (h : Host δ) : h.UploadFrame prg h := by
  constructor <;> intros <;> rfl

theorem Host.UploadFrame.markLoaded {prg : Ptr} {h h' : Host δ} (hf : h.UploadFrame prg h')
    (i : Nat) : h.UploadFrame prg (h'.markLoaded prg i) where
  bytes := hf.bytes
  cmdqs := hf.cmdqs
  ctxs := hf.ctxs
  devs := hf.devs
  kerns := hf.kerns
  mems := hf.mems
  others p hp := by
    show Function.update h'.prgs prg _ p = _
    rw [Function.update_of_ne hp]
    exact hf.others p hp
  magic := by
    show (Function.update h'.prgs prg _ prg).magic = _
    rw [Function.update_self]
    exact hf.magic
  numChunks := by
    show (Function.update h'.prgs prg _ prg).numChunks = _
    rw [Function.update_self]
    exact hf.numChunks
  comm := by
    show (Function.update h'.prgs prg _ prg).comm = _
    rw [Function.update_self]
    exact hf.comm

theorem Host.UploadFrame.prgIsValid {prg : Ptr} {h h' : Host δ} (hf : h.UploadFrame prg h') :
    prgIsValid h' prg = prgIsValid h prg := by
  simp only [BaremetalCrt.prgIsValid, hf.magic]

theorem chunkAt_markLoaded_ne {prg : Ptr} {h : Host δ} {i j : Nat} (hne : j ≠ i) :
    ((h.markLoaded prg i).prgs prg).chunkAt j = (h.prgs prg).chunkAt j := by
  show (Function.update h.prgs prg _ prg).chunkAt j = _
  rw [Function.update_self, chunkAt_putChunk_ne hne]

/-! ## The plan of the arguments -/

/-- The bound that both walks test before a slot at `paddr` with a payload of `size` bytes. -/
def ExceedsComm (comm : ProgramComm) (paddr size : UInt64) : Prop :=
  comm.addr + comm.size ≤ paddr + sizeofCommArgHeader + size

instance (comm : ProgramComm) (paddr size : UInt64) : Decidable (ExceedsComm comm paddr size) :=
  inferInstanceAs (Decidable (_ ≤ _))

/-- Where the payload of the slot at `paddr` starts. -/
def payloadAddr (paddr : UInt64) : UInt64 := paddr + sizeofCommArgHeader

/-- Where the slot after the one at `paddr` starts. -/
def nextSlot (paddr size : UInt64) : UInt64 := alignOf (payloadAddr paddr + size) 8

/-- The transfers of one slot: its header, and its payload if the kernel will read it. -/
def slotPuts (arg : KernArg) (src : CPtr × UInt64 × Bool) (paddr : UInt64) : List Put :=
  ⟨.argHeader, paddr, .own (CommArgHeader.toBytes ⟨arg.argtype, arg.index, src.2.1⟩),
      sizeofCommArgHeader⟩ ::
    if src.2.2 then [⟨.argPayload, payloadAddr paddr, src.1, src.2.1⟩] else []

/-- The transfers of an argument list from `paddr` on, and how the walk over it ends: at the address
after the last slot, or with the code of the first argument that is refused. -/
def argPlan (h : Host δ) (comm : ProgramComm) :
    List KernArg → UInt64 → List Put × Except ClInt UInt64
  | [], paddr => ([], .ok paddr)
  | arg :: args, paddr =>
    match enqueueSource h arg with
    | .error e => ([], .error e)
    | .ok src =>
      if ExceedsComm comm paddr src.2.1 then ([], .error clOutOfResources)
      else
        let rest := argPlan h comm args (nextSlot paddr src.2.1)
        (slotPuts arg src paddr ++ rest.1, rest.2)

@[simp] theorem argPlan_nil (h : Host δ) (comm : ProgramComm) (paddr : UInt64) :
    argPlan h comm [] paddr = ([], .ok paddr) := rfl

theorem argPlan_error {h : Host δ} {comm : ProgramComm} {arg : KernArg} {args : List KernArg}
    {paddr : UInt64} {e : ClInt} (hsrc : enqueueSource h arg = .error e) :
    argPlan h comm (arg :: args) paddr = ([], .error e) := by
  simp only [argPlan, hsrc]

theorem argPlan_exceeds {h : Host δ} {comm : ProgramComm} {arg : KernArg} {args : List KernArg}
    {paddr : UInt64} {src : CPtr × UInt64 × Bool} (hsrc : enqueueSource h arg = .ok src)
    (hex : ExceedsComm comm paddr src.2.1) :
    argPlan h comm (arg :: args) paddr = ([], .error clOutOfResources) := by
  simp only [argPlan, hsrc, if_pos hex]

theorem argPlan_fits {h : Host δ} {comm : ProgramComm} {arg : KernArg} {args : List KernArg}
    {paddr : UInt64} {src : CPtr × UInt64 × Bool} (hsrc : enqueueSource h arg = .ok src)
    (hex : ¬ ExceedsComm comm paddr src.2.1) :
    argPlan h comm (arg :: args) paddr =
      (slotPuts arg src paddr ++ (argPlan h comm args (nextSlot paddr src.2.1)).1,
        (argPlan h comm args (nextSlot paddr src.2.1)).2) := by
  simp only [argPlan, hsrc, if_neg hex]

/-- A plan says the transfers, and what comes of them: they are carried out, and if none fails the end is
the plan's. -/
def issuePlan {α : Type} (dev : Ptr) (plan : List Put × Except ClInt α) : Launch δ α :=
  issue dev plan.1 >>= fun _ => Exec.lift plan.2

/-! ## The source follows the plan -/

theorem enqueueArg_apply (dev : Ptr) (arg : KernArg) (comm : ProgramComm) (paddr : UInt64)
    (s : Sys δ) :
    enqueueArg dev arg comm paddr s = issuePlan dev (argPlan s.host comm [arg] paddr) s := by
  unfold enqueueArg
  rcases hsrc : enqueueSource s.host arg with e | ⟨ptr, size, need⟩
  · rw [Exec.bind_error (by rw [query_apply, hsrc]), argPlan_error hsrc]
    rfl
  · rw [Exec.bind_ok (a := (ptr, size, need)) (by rw [query_apply, hsrc])]
    by_cases hex : ExceedsComm comm paddr size
    · have hex' : comm.addr + comm.size ≤ paddr + sizeofCommArgHeader + size := hex
      simp only [argPlan_exceeds hsrc hex, if_pos hex', issuePlan, issue_nil]
      rfl
    · have hex' : ¬ comm.addr + comm.size ≤ paddr + sizeofCommArgHeader + size := hex
      rw [argPlan_fits hsrc hex]
      cases need <;>
        simp [if_neg hex', issuePlan, slotPuts, issue_cons, nextSlot, payloadAddr]

theorem argPlan_cons (h : Host δ) (dev : Ptr) (comm : ProgramComm) (arg : KernArg)
    (args : List KernArg) (paddr : UInt64) :
    (issuePlan dev (argPlan h comm (arg :: args) paddr) : Launch δ UInt64) =
      issuePlan dev (argPlan h comm [arg] paddr) >>= fun p =>
        issuePlan dev (argPlan h comm args p) := by
  rcases hsrc : enqueueSource h arg with e | src
  · rw [argPlan_error hsrc, argPlan_error hsrc]
    rfl
  · by_cases hex : ExceedsComm comm paddr src.2.1
    · rw [argPlan_exceeds hsrc hex, argPlan_exceeds hsrc hex]
      rfl
    · rw [argPlan_fits hsrc hex, argPlan_fits hsrc hex]
      simp only [issuePlan, issue_append, argPlan_nil, List.append_nil, bind_assoc, Exec.lift_ok,
        pure_bind]

theorem issuePlan_host {α : Type} (dev : Ptr) (plan : List Put × Except ClInt α) (s : Sys δ) :
    (issuePlan dev plan s).2.host = s.host := by
  have hs := issue_host dev plan.1 s
  unfold issuePlan
  rw [Exec.bind_apply]
  rcases hi : issue dev plan.1 s with ⟨_ | _, s'⟩ <;> rw [hi] at hs <;> exact hs

/-! ## The argument list of a kernel -/

theorem kernGetArg_eq_ok {h : Host δ} {kern : Ptr} {i : UInt32}
    (hv : kernIsValid h kern = clSuccess) (hi : i.toNat < (h.kerns kern).args.length) :
    kernGetArg h kern i = .ok ((h.kerns kern).args[i.toNat]) := by
  have hlen := (h.kerns kern).args_length
  have hlt : ¬ (h.kerns kern).numArgs ≤ i := by
    rw [UInt32.le_iff_toNat_le]
    omega
  have hne : ¬ (h.kerns kern).args = [] := by
    intro hnil
    rw [hnil] at hi
    simp at hi
  simp only [kernGetArg, hv, check_success, if_neg hlt, if_neg hne, List.getD_eq_getElem?_getD,
    List.getElem?_eq_getElem hi, Option.getD_some]
  rfl

theorem prgGetComm_eq_ok {h : Host δ} {prg : Ptr} (hv : prgIsValid h prg = clSuccess) :
    prgGetComm h prg = .ok (h.prgs prg).comm := by
  simp only [prgGetComm, hv, check_success]
  rfl

theorem kernGetNumArgs_eq_ok {h : Host δ} {kern : Ptr} (hv : kernIsValid h kern = clSuccess) :
    kernGetNumArgs h kern = .ok (h.kerns kern).numArgs := by
  simp only [kernGetNumArgs, hv, check_success]
  rfl

theorem enqueueArgs_apply (dev kernel : Ptr) (comm : ProgramComm) (n : Nat) :
    ∀ (i : UInt32) (paddr : UInt64) (s : Sys δ), kernIsValid s.host kernel = clSuccess →
      i.toNat + n = (s.host.kerns kernel).args.length →
      enqueueArgs dev kernel comm i n paddr s =
        issuePlan dev (argPlan s.host comm ((s.host.kerns kernel).args.drop i.toNat) paddr) s := by
  induction n with
  | zero =>
    intro i paddr s _ hi
    rw [List.drop_eq_nil_of_le (by omega)]
    rfl
  | succ n ih =>
    intro i paddr s hv hi
    have hlt : i.toNat < (s.host.kerns kernel).args.length := by omega
    have hbound := (s.host.kerns kernel).numArgs.toNat_lt
    have hsucc : (i + 1).toNat = i.toNat + 1 := by
      rw [UInt32.toNat_add]
      have := (s.host.kerns kernel).args_length
      simp
      omega
    rw [List.drop_eq_getElem_cons hlt, argPlan_cons, enqueueArgs,
      Exec.bind_ok (by rw [query_apply, kernGetArg_eq_ok hv hlt]), Exec.bind_apply,
      Exec.bind_apply, enqueueArg_apply]
    -- the tail runs in the state the first slot left, whose host objects are the same
    have hhost := issuePlan_host dev (argPlan s.host comm [(s.host.kerns kernel).args[i.toNat]] paddr) s
    rcases hfirst : issuePlan dev (argPlan s.host comm [(s.host.kerns kernel).args[i.toNat]] paddr) s
      with ⟨e | p, s'⟩
    · rfl
    · rw [hfirst] at hhost
      replace hhost : s'.host = s.host := hhost
      show enqueueArgs dev kernel comm (i + 1) n p s' = _
      rw [ih (i + 1) p s' (by rw [hhost]; exact hv) (by rw [hhost]; omega), hsucc, hhost]

/-- The kernel name and the arguments, in the order in which they are sent. -/
def argList (k : ClKernel) : List KernArg := nameArg k :: k.args

/-- The name and all arguments: the two steps of the source are one walk over `argList`. -/
theorem enqueueAll_apply (dev kernel : Ptr) (comm : ProgramComm) (paddr : UInt64) (s : Sys δ)
    (hv : kernIsValid s.host kernel = clSuccess) :
    (enqueueArg dev (nameArg (s.host.kerns kernel)) comm paddr >>= fun p =>
      enqueueArgs dev kernel comm 0 (s.host.kerns kernel).numArgs.toNat p) s =
      issuePlan dev (argPlan s.host comm (argList (s.host.kerns kernel)) paddr) s := by
  have hhost := issuePlan_host dev (argPlan s.host comm [nameArg (s.host.kerns kernel)] paddr) s
  rw [argList, argPlan_cons, Exec.bind_apply, Exec.bind_apply, enqueueArg_apply]
  rcases hname : issuePlan dev (argPlan s.host comm [nameArg (s.host.kerns kernel)] paddr) s
    with ⟨e | p, s'⟩
  · rfl
  · rw [hname] at hhost
    replace hhost : s'.host = s.host := hhost
    show enqueueArgs dev kernel comm 0 _ p s' = _
    have hlen := (s.host.kerns kernel).args_length
    rw [enqueueArgs_apply dev kernel comm _ 0 p s' (by rw [hhost]; exact hv)
      (by rw [hhost]; simp [hlen]), hhost]
    rfl

/-- Where the first slot starts: behind the area header, whose size is rounded up to a multiple of eight. -/
def argStart (comm : ProgramComm) : UInt64 := comm.addr + alignOf sizeofCommAreaHeader 8

/-- The write of the area header, at the beginning of the communication area. -/
def areaPut (comm : ProgramComm) (k : ClKernel) : Put :=
  ⟨.areaHeader, comm.addr, .own (initialHeader k.numArgs).toBytes, sizeofCommAreaHeader⟩

/-- Everything a launch of `k` writes to pass its arguments, and how that ends. -/
def commPlan (h : Host δ) (comm : ProgramComm) (k : ClKernel) : List Put × Except ClInt UInt64 :=
  (areaPut comm k :: (argPlan h comm (argList k) (argStart comm)).1,
    (argPlan h comm (argList k) (argStart comm)).2)

/-- **The argument phase is its plan carried out**: with a live program and kernel, `sendArguments`
sets `h_comm` and issues the transfers of `commPlan`. -/
theorem sendArguments_apply (dev prg kernel : Ptr) (s : Sys δ)
    (hprg : prgIsValid s.host prg = clSuccess) (hkern : kernIsValid s.host kernel = clSuccess) :
    sendArguments dev prg kernel s =
      (do
        let _ ← issuePlan dev (commPlan s.host (s.host.prgs prg).comm (s.host.kerns kernel))
        return ((s.host.prgs prg).comm, (s.host.kerns kernel).numArgs))
        { s with hComm := (initialHeader (s.host.kerns kernel).numArgs).toBytes } := by
  unfold sendArguments
  rw [Exec.bind_ok (by rw [query_apply, prgGetComm_eq_ok hprg]),
    Exec.bind_ok (by rw [query_apply, kernGetNumArgs_eq_ok hkern]),
    Exec.bind_ok (Exec.modify_apply _ _)]
  have hstart : issuePlan dev (commPlan s.host (s.host.prgs prg).comm (s.host.kerns kernel)) =
      (devWriteMem .areaHeader dev (s.host.prgs prg).comm.addr
          (.own (initialHeader (s.host.kerns kernel).numArgs).toBytes) sizeofCommAreaHeader >>=
        fun _ => issuePlan dev (argPlan s.host (s.host.prgs prg).comm
          (argList (s.host.kerns kernel)) (argStart (s.host.prgs prg).comm)) : Launch δ UInt64) := by
    simp only [commPlan, issuePlan, issue_cons, areaPut, bind_assoc]
  rw [hstart, bind_assoc, Exec.bind_apply, Exec.bind_apply]
  rcases hw : devWriteMem .areaHeader dev (s.host.prgs prg).comm.addr
    (.own (initialHeader (s.host.kerns kernel).numArgs).toBytes) sizeofCommAreaHeader
    { s with hComm := (initialHeader (s.host.kerns kernel).numArgs).toBytes } with ⟨_ | _, s₁⟩
  · rfl
  · have hs₁ : s₁.host = s.host := by
      rw [← (Prod.mk.inj hw).2]
      rfl
    have hall := enqueueAll_apply dev kernel (s.host.prgs prg).comm
      (argStart (s.host.prgs prg).comm) s₁ (by rw [hs₁]; exact hkern)
    rw [hs₁] at hall
    show (Exec.gets _ >>= _) s₁ = (issuePlan _ _ >>= _) s₁
    rw [Exec.bind_ok (Exec.gets_apply _ _), hs₁, ← Exec.bind_congr_left hall, bind_assoc]
    rfl

/-- The plan depends on the argument list and the memory objects only. -/
theorem argPlan_congr {h h' : Host δ} (hmems : h'.mems = h.mems) (comm : ProgramComm)
    (args : List KernArg) (paddr : UInt64) : argPlan h' comm args paddr = argPlan h comm args paddr := by
  have hsrc (arg : KernArg) : enqueueSource h' arg = enqueueSource h arg := by
    simp only [enqueueSource, memIsValid, hmems]
  induction args generalizing paddr with
  | nil => rfl
  | cons arg args ih => simp only [argPlan, hsrc, ih]

/-- A launch passes a set argument only. -/
theorem enqueueSource_set {h : Host δ} {arg : KernArg} {src : CPtr × UInt64 × Bool}
    (hsrc : enqueueSource h arg = .ok src) : arg.argtype ≠ commArgNotused := by
  intro hun
  simp [enqueueSource, hun] at hsrc

end BaremetalCrt
