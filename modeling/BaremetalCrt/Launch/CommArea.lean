/-
# BaremetalCrt.Launch.CommArea — where a launch writes while it passes the arguments.

The writes of the argument phase are known before the first of them is made: `attempted` cuts the
plan at the first transfer that `dev_write_mem` itself refuses.  The bound of the source is tested
in 64-bit arithmetic, slot by slot, after the area header has been written untested; `FitsFrom` is
the same walk in unbounded integers.  A launch stays inside the communication area on every device
exactly when the area has room for its header and the walk fits.

A transfer of a buffer that is not there (`Put.Refused`) is refused by the driver's wrapper before it gets
to the device, so that a layout may be wrong behind it and do no harm; that is why the condition is on the
attempted transfers and not on the plan. On a board that takes everything each of them is made, which is
where the condition is seen to be needed.
-/
import BaremetalCrt.Launch.Transfer

namespace BaremetalCrt

open Lib

variable {δ : Type}

/-! ## The writes that are attempted -/

/-- `dev_write_mem` refuses to send something from nowhere. -/
def Put.Refused (p : Put) : Prop := p.buf.isNull = true ∧ p.len ≠ 0

instance (p : Put) : Decidable p.Refused := inferInstanceAs (Decidable (_ ∧ _))

/-- The transfers up to the first that is refused. -/
def attempted : List Put → List Put
  | [] => []
  | p :: ps => p :: if p.Refused then [] else attempted ps

theorem attempted_append_refused {ps qs : List Put} (h : ∃ p ∈ ps, p.Refused) :
    attempted (ps ++ qs) = attempted ps := by
  induction ps with
  | nil => obtain ⟨_, hp, _⟩ := h; cases hp
  | cons p ps ih =>
    by_cases hr : p.Refused
    · simp only [List.cons_append, attempted, if_pos hr]
    · have h' : ∃ q ∈ ps, q.Refused := by
        obtain ⟨q, hq, hqr⟩ := h
        rcases List.mem_cons.mp hq with rfl | hq
        · exact absurd hqr hr
        · exact ⟨q, hq, hqr⟩
      simp only [List.cons_append, attempted, if_neg hr, ih h']

theorem attempted_append {ps qs : List Put} (h : ¬ ∃ p ∈ ps, p.Refused) :
    attempted (ps ++ qs) = ps ++ attempted qs := by
  induction ps with
  | nil => rfl
  | cons p ps ih =>
    have hr : ¬ p.Refused := fun hr => h ⟨p, List.mem_cons_self .., hr⟩
    have h' : ¬ ∃ q ∈ ps, q.Refused := fun ⟨q, hq, hqr⟩ => h ⟨q, List.mem_cons_of_mem _ hq, hqr⟩
    simp only [List.cons_append, attempted, if_neg hr, ih h']

theorem mem_of_mem_attempted {ps : List Put} {p : Put} (h : p ∈ attempted ps) : p ∈ ps := by
  induction ps with
  | nil => cases h
  | cons q ps ih =>
    rcases List.mem_cons.mp h with rfl | h
    · exact List.mem_cons_self ..
    · by_cases hr : q.Refused
      · rw [if_pos hr] at h
        cases h
      · rw [if_neg hr] at h
        exact List.mem_cons_of_mem _ (ih h)

/-- A refused transfer fails on every device. -/
theorem putEvent_refused {h : Host δ} {dev : Ptr} {p : Put} (hr : p.Refused) (d : δ) :
    (putEvent h dev p d).ret ≠ clSuccess := by
  show (devWriteMemRet h dev p.paddr p.buf p.len d).1 ≠ clSuccess
  unfold devWriteMemRet devMemRet
  by_cases hv : devIsValid h dev = clSuccess
  · rw [if_neg (not_not.mpr hv)]
    cases ((h.devs dev).ops.bind (·.writeMem)).map fun f d => f d p.paddr (h.read p.buf p.len.toNat)
      with
    | none =>
      show clInvalidDevice ≠ clSuccess
      decide
    | some f =>
      show (if p.buf.isNull = true ∧ p.len ≠ 0 then (clInvalidValue, d) else _ : ClInt × δ).1 ≠ _
      rw [if_pos (show p.buf.isNull = true ∧ p.len ≠ 0 from hr)]
      show clInvalidValue ≠ clSuccess
      decide
  · rw [if_pos hv]
    exact hv

/-- Whatever the device does, only attempted transfers are issued. -/
theorem transfer_events_attempted (h : Host δ) (dev : Ptr) (ps : List Put) (d : δ) :
    (transfer h dev ps d).events.map Event.op <+: (attempted ps).map (Put.op h) := by
  induction ps generalizing d with
  | nil => exact List.nil_prefix
  | cons p ps ih =>
    by_cases hret : (putEvent h dev p d).ret = clSuccess
    · have hr : ¬ p.Refused := fun hr => putEvent_refused hr d hret
      rw [transfer_cons_ok hret, attempted, if_neg hr]
      exact List.cons_prefix_cons.mpr ⟨rfl, ih _⟩
    · rw [transfer_cons_error hret]
      exact List.cons_prefix_cons.mpr ⟨rfl, List.nil_prefix⟩

/-- The host `h` with every device a board that accepts everything. -/
def Host.onBoard (h : Host δ) : Host δ := { h with devs := fun _ => ⟨openclIcdMagic, some (boardOps [])⟩ }

theorem devIsValid_onBoard (h : Host δ) {dev : Ptr} (hdev : dev ≠ 0) : devIsValid h.onBoard dev = clSuccess := by
  simp [devIsValid, isValid, Host.onBoard, hdev]

/-- A board that accepts everything accepts what is not refused. -/
theorem putEvent_onBoard (h : Host δ) {dev : Ptr} (hdev : dev ≠ 0) {p : Put} (hr : ¬ p.Refused) (d : δ) :
    (putEvent h.onBoard dev p d).ret = clSuccess := by
  show (devWriteMemRet h.onBoard dev p.paddr p.buf p.len d).1 = clSuccess
  unfold devWriteMemRet devMemRet
  rw [if_neg (not_not.mpr (devIsValid_onBoard h hdev))]
  show (if p.buf.isNull = true ∧ p.len ≠ 0 then _ else if p.len = 0 then _ else _ : ClInt × δ).1 = _
  rw [if_neg (show ¬ (p.buf.isNull = true ∧ p.len ≠ 0) from hr)]
  split <;> rfl

/-- On a board that accepts everything, all attempted transfers are issued. -/
theorem transfer_events_onBoard (h : Host δ) {dev : Ptr} (hdev : dev ≠ 0) (ps : List Put) (d : δ) :
    (transfer h.onBoard dev ps d).events.map Event.op = (attempted ps).map (Put.op h.onBoard) := by
  induction ps generalizing d with
  | nil => rfl
  | cons p ps ih =>
    by_cases hr : p.Refused
    · rw [transfer_cons_error (putEvent_refused hr d), attempted, if_pos hr]
      rfl
    · rw [transfer_cons_ok (putEvent_onBoard h hdev hr d), attempted, if_neg hr, List.map_cons,
        List.map_cons, ih]
      rfl

/-- Without a refused transfer among them, they all go through. -/
theorem transfer_onBoard_ok (h : Host δ) {dev : Ptr} (hdev : dev ≠ 0) {ps : List Put}
    (hr : ¬ ∃ p ∈ ps, p.Refused) (d : δ) : (transfer h.onBoard dev ps d).ret = .ok () := by
  induction ps generalizing d with
  | nil => rfl
  | cons p ps ih =>
    have hp : ¬ p.Refused := fun hp => hr ⟨p, List.mem_cons_self .., hp⟩
    rw [transfer_cons_ok (putEvent_onBoard h hdev hp d)]
    exact ih (fun ⟨q, hq, hqr⟩ => hr ⟨q, List.mem_cons_of_mem _ hq, hqr⟩) _

/-- Transfers that went through are not refused. -/
theorem not_refused_of_transfer {h : Host δ} {dev : Ptr} {ps : List Put} {d : δ}
    (hok : (transfer h dev ps d).ret = .ok ()) : ¬ ∃ p ∈ ps, p.Refused := by
  induction ps generalizing d with
  | nil => rintro ⟨p, hp, -⟩; cases hp
  | cons p ps ih =>
    rintro ⟨q, hq, hqr⟩
    by_cases hret : (putEvent h dev p d).ret = clSuccess
    · rw [transfer_cons_ok hret] at hok
      rcases List.mem_cons.mp hq with rfl | hq
      · exact putEvent_refused hqr d hret
      · exact ih hok ⟨q, hq, hqr⟩
    · rw [transfer_cons_error hret] at hok
      cases hok

/-! ## The layout in unbounded integers -/

/-- The slot at `paddr` lies in the area: it starts there, and what is sent of it ends there. -/
structure SlotInside (comm : ProgramComm) (paddr : UInt64) (src : CPtr × UInt64 × Bool) : Prop where
  start : comm.addr.toNat ≤ paddr.toNat
  header : paddr.toNat + 16 ≤ comm.addr.toNat + comm.size.toNat
  payload : src.2.2 = true → src.2.1 ≠ 0 → paddr.toNat + 16 < 2 ^ 64 ∧
    paddr.toNat + 16 + src.2.1.toNat ≤ comm.addr.toNat + comm.size.toNat

/-- The walk over the arguments, as far as it writes: up to the first argument that is not set or not
valid, that the bound of the source refuses, or whose payload cannot be sent. -/
def FitsFrom (h : Host δ) (comm : ProgramComm) : List KernArg → UInt64 → Prop
  | [], _ => True
  | arg :: args, paddr =>
    match enqueueSource h arg with
    | .error _ => True
    | .ok src => ExceedsComm comm paddr src.2.1 ∨ SlotInside comm paddr src ∧
        (src.2.2 = true ∧ src.1.isNull = true ∧ src.2.1 ≠ 0 ∨
          FitsFrom h comm args (nextSlot paddr src.2.1))

/-- The transfer stays in the communication area. -/
def Put.Inside (comm : ProgramComm) (p : Put) : Prop :=
  span p.paddr.toNat p.len.toNat ⊆ span comm.addr.toNat comm.size.toNat

theorem payloadAddr_toNat (paddr : UInt64) :
    (payloadAddr paddr).toNat = (paddr.toNat + 16) % 2 ^ 64 := by
  simp [payloadAddr, sizeofCommArgHeader]

/-- One slot: its transfers stay in the area exactly when its sums in unbounded integers do. -/
theorem slotPuts_inside {comm : ProgramComm} {arg : KernArg} {src : CPtr × UInt64 × Bool}
    {paddr : UInt64} :
    (∀ p ∈ slotPuts arg src paddr, p.Inside comm) ↔ SlotInside comm paddr src := by
  obtain ⟨buf, size, need⟩ := src
  have hheader : span paddr.toNat 16 ⊆ span comm.addr.toNat comm.size.toNat ↔
      comm.addr.toNat ≤ paddr.toNat ∧ paddr.toNat + 16 ≤ comm.addr.toNat + comm.size.toNat :=
    span_subset_iff (by decide)
  have hsize : size ≠ 0 ↔ 0 < size.toNat := by
    rw [Nat.pos_iff_ne_zero, ne_eq, ne_eq, ← UInt64.toNat_inj]
    rfl
  have haddr := comm.addr.toNat_lt
  have hcomm := comm.size.toNat_lt
  have hpaddr := paddr.toNat_lt
  constructor
  · intro hall
    have hhead := hheader.mp (hall ⟨.argHeader, paddr, .own _, sizeofCommArgHeader⟩
      (List.mem_cons_self ..))
    refine ⟨hhead.1, hhead.2, fun (hneed : need = true) (hne : size ≠ 0) => ?_⟩
    have hpay := hall ⟨.argPayload, payloadAddr paddr, buf, size⟩ (by simp [slotPuts, hneed])
    rw [Put.Inside, span_subset_iff (hsize.mp hne), payloadAddr_toNat] at hpay
    -- a payload address that wrapped lies below the area
    show paddr.toNat + 16 < 2 ^ 64 ∧
      paddr.toNat + 16 + size.toNat ≤ comm.addr.toNat + comm.size.toNat
    omega
  · rintro ⟨hstart, hhead, hpay⟩ p hp
    rcases List.mem_cons.mp hp with rfl | hp
    · exact hheader.mpr ⟨hstart, hhead⟩
    · cases need with
      | false => cases hp
      | true =>
        obtain rfl := List.mem_singleton.mp hp
        by_cases hne : size = 0
        · subst hne
          show span _ 0 ⊆ _
          rw [span_zero]
          exact Set.empty_subset _
        · obtain ⟨hlt, hle⟩ := hpay rfl hne
          rw [Put.Inside, span_subset_iff (hsize.mp hne), payloadAddr_toNat, Nat.mod_eq_of_lt hlt]
          exact ⟨by omega, hle⟩

/-- The whole walk: what it attempts stays in the area exactly when the walk fits. -/
theorem argPlan_inside {h : Host δ} {comm : ProgramComm} :
    ∀ {args : List KernArg} {paddr : UInt64},
      (∀ p ∈ attempted (argPlan h comm args paddr).1, p.Inside comm) ↔ FitsFrom h comm args paddr
  | [], _ => by simp [attempted, FitsFrom]
  | arg :: args, paddr => by
    rcases hsrc : enqueueSource h arg with e | src
    · simp [argPlan_error hsrc, attempted, FitsFrom, hsrc]
    · by_cases hex : ExceedsComm comm paddr src.2.1
      · simp [argPlan_exceeds hsrc hex, attempted, FitsFrom, hsrc, hex]
      · have ih : (∀ p ∈ attempted (argPlan h comm args (nextSlot paddr src.2.1)).1, p.Inside comm) ↔
            FitsFrom h comm args (nextSlot paddr src.2.1) := argPlan_inside
        -- the header is never refused; a payload from nowhere is, and ends the walk
        have hrefused : (∃ p ∈ slotPuts arg src paddr, p.Refused) ↔
            src.2.2 = true ∧ src.1.isNull = true ∧ src.2.1 ≠ 0 := by
          obtain ⟨buf, size, need⟩ := src
          have hown (bs : List UInt8) : ¬ (CPtr.own bs).isNull = true := by simp [CPtr.isNull]
          cases need <;> simp [slotPuts, Put.Refused, hown]
        simp only [argPlan_fits hsrc hex, FitsFrom, hsrc, hex, false_or]
        by_cases hstop : ∃ p ∈ slotPuts arg src paddr, p.Refused
        · have hall : ∀ p, p ∈ attempted (slotPuts arg src paddr) ↔ p ∈ slotPuts arg src paddr := by
            obtain ⟨buf, size, need⟩ := src
            intro p
            have hhead : ¬ (Put.mk .argHeader paddr
                (.own (CommArgHeader.toBytes ⟨arg.argtype, arg.index, size⟩))
                sizeofCommArgHeader).Refused := by simp [Put.Refused, CPtr.isNull]
            cases need <;> simp [slotPuts, attempted, hhead]
          rw [attempted_append_refused hstop]
          simp only [hall, slotPuts_inside, hrefused.mp hstop, ne_eq, not_false_eq_true, and_self,
            true_or, and_true]
        · rw [attempted_append hstop]
          simp only [List.mem_append, or_imp, forall_and, slotPuts_inside, ih,
            mt hrefused.mpr hstop, false_or]

/-! ## The launch -/

/-- The write passes arguments: it is not one of the program's chunks. -/
def Cargo.isComm : Cargo → Bool
  | .chunk _ => false
  | _ => true

/-- A write of the argument phase has its whole range in the area, in unbounded integers. -/
def WritesInside (comm : ProgramComm) (op : DevOp) : Prop :=
  ∀ cargo paddr data, op = .writeMem cargo paddr data → cargo.isComm = true →
    span paddr.toNat data.length ⊆ span comm.addr.toNat comm.size.toNat

/-- When a launch stays inside the area of its program: the launch does not get as far as the
arguments (there is no device, no live program, or an area of the program has no bytes to send), or
the area has room for its header and the walk over the kernel name and the arguments fits. -/
def StaysInside (h : Host δ) (cmdq kernel : Ptr) : Prop :=
  let prg := kernGetProgram h kernel
  ctxGetDevice h (cmdqGetContext h cmdq) = 0 ∨ prgIsValid h prg ≠ clSuccess ∨
    (∃ p ∈ imagePuts (h.prgs prg), p.Refused) ∨
    16 ≤ (h.prgs prg).comm.size.toNat ∧
      FitsFrom h (h.prgs prg).comm (argList (h.kerns kernel)) (argStart (h.prgs prg).comm)

theorem writesInside_op {comm : ProgramComm} {h : Host δ} {p : Put} :
    WritesInside comm (p.op h) ↔ (p.cargo.isComm = true → p.Inside comm) := by
  have hlen : (p.data h).length = p.len.toNat := Host.length_read ..
  constructor
  · intro hw hc
    have := hw p.cargo p.paddr (p.data h) rfl hc
    rwa [hlen] at this
  · rintro hi cargo paddr data hop hc
    cases hop
    rw [hlen]
    exact hi hc

/-- The chunks carry nothing of the arguments; the plan of the arguments does not carry a chunk. -/
theorem imagePuts_cargo {prg : ClProgram} {p : Put} (hp : p ∈ imagePuts prg) :
    p.cargo.isComm = false := by
  obtain ⟨j, -, -, -, rfl⟩ := (mem_chunkPuts _ 0).mp hp
  rfl

theorem argPlan_cargo {h : Host δ} {comm : ProgramComm} :
    ∀ {args : List KernArg} {paddr : UInt64}, ∀ p ∈ (argPlan h comm args paddr).1,
      p.cargo.isComm = true
  | [], _, _, hp => by cases hp
  | arg :: args, paddr, p, hp => by
    rcases hsrc : enqueueSource h arg with e | src
    · rw [argPlan_error hsrc] at hp
      cases hp
    · by_cases hex : ExceedsComm comm paddr src.2.1
      · rw [argPlan_exceeds hsrc hex] at hp
        cases hp
      · rw [argPlan_fits hsrc hex] at hp
        rcases List.mem_append.mp hp with hp | hp
        · obtain ⟨buf, size, need⟩ := src
          cases need
          · obtain rfl : p = _ := List.mem_singleton.mp hp
            rfl
          · rcases List.mem_cons.mp hp with rfl | hp
            · rfl
            · obtain rfl := List.mem_singleton.mp hp
              rfl
        · exact argPlan_cargo p hp

/-- What a launch attempts to write for its arguments stays inside exactly under `StaysInside`, as
far as the launch has a device and a program. -/
theorem attempted_inside {h : Host δ} {prg kernel : Ptr} :
    (∀ p ∈ attempted (launchPuts h prg kernel), p.cargo.isComm = true → p.Inside (h.prgs prg).comm) ↔
      (∃ p ∈ imagePuts (h.prgs prg), p.Refused) ∨
      16 ≤ (h.prgs prg).comm.size.toNat ∧
        FitsFrom h (h.prgs prg).comm (argList (h.kerns kernel)) (argStart (h.prgs prg).comm) := by
  by_cases hstop : ∃ p ∈ imagePuts (h.prgs prg), p.Refused
  · simp only [hstop, true_or, iff_true]
    intro p hp hc
    rw [launchPuts, attempted_append_refused hstop] at hp
    rw [imagePuts_cargo (mem_of_mem_attempted hp)] at hc
    cases hc
  · have harea : ¬ (areaPut (h.prgs prg).comm (h.kerns kernel)).Refused := by
      simp [Put.Refused, areaPut, CPtr.isNull]
    have hinside : (areaPut (h.prgs prg).comm (h.kerns kernel)).Inside (h.prgs prg).comm ↔
        16 ≤ (h.prgs prg).comm.size.toNat := by
      show span (h.prgs prg).comm.addr.toNat 16 ⊆ span (h.prgs prg).comm.addr.toNat _ ↔ _
      rw [span_subset_iff (by decide)]
      omega
    simp only [hstop, false_or]
    rw [launchPuts, attempted_append hstop, commPlan, attempted, if_neg harea, ← argPlan_inside,
      ← hinside]
    constructor
    · intro hall
      refine ⟨hall _ (List.mem_append_right _ (List.mem_cons_self ..)) rfl, fun p hp => ?_⟩
      exact hall p (List.mem_append_right _ (List.mem_cons_of_mem _ hp))
        (argPlan_cargo p (mem_of_mem_attempted hp))
    · rintro ⟨hhead, hargs⟩ p hp hc
      rcases List.mem_append.mp hp with hp | hp
      · rw [imagePuts_cargo hp] at hc
        cases hc
      · rcases List.mem_cons.mp hp with rfl | hp
        · exact hhead
        · exact hargs p hp

theorem launchPuts_devs (h : Host δ) (devs : Ptr → ClDevice δ) (prg kernel : Ptr) :
    launchPuts { h with devs := devs } prg kernel = launchPuts h prg kernel := by
  have hplan (comm : ProgramComm) (args : List KernArg) (paddr : UInt64) :
      argPlan { h with devs := devs } comm args paddr = argPlan h comm args paddr := by
    refine argPlan_congr ?_ comm args paddr
    rfl
  simp only [launchPuts, commPlan, hplan]

/-- A launch without a device writes nothing. -/
theorem launchWrites_noDevice {h : Host δ} {cmdq kernel : Ptr} {d : δ}
    (hdev : ctxGetDevice h (cmdqGetContext h cmdq) = 0) : launchWrites h cmdq kernel d = [] := by
  apply if_neg
  rintro ⟨hreset, _⟩
  have hbad : devIsValid h 0 ≠ clSuccess := by
    show clInvalidDevice ≠ clSuccess
    decide
  rw [hdev, devControlRet, if_pos hbad] at hreset
  exact hbad hreset

/-- What a launch writes is among its transfers on some device state. -/
theorem launchWrites_mem {h : Host δ} {cmdq kernel : Ptr} {d : δ} {e : Event δ}
    (he : e ∈ launchWrites h cmdq kernel d) :
    ∃ dev d', e ∈ (transfer h dev (launchPuts h (kernGetProgram h kernel) kernel) d').events := by
  unfold launchWrites at he
  dsimp only at he
  split at he
  · exact ⟨_, _, he⟩
  · cases he

/-- **When a launch keeps its argument writes inside the communication area.**  On every device, every
write of the area header, of the kernel name and of the arguments has its whole range in the area,
exactly when the area has room for the header and the walk over the arguments fits in unbounded
integers. -/
theorem clEnqueueNDRangeKernel_inside_iff [Inhabited δ] (h : Host δ) (cmdq kernel : Ptr) :
    (∀ (devs : Ptr → ClDevice δ) (d : δ),
      ∀ e ∈ (clEnqueueNDRangeKernel cmdq kernel { h with devs := devs } d).trace,
        WritesInside (h.prgs (kernGetProgram h kernel)).comm e.op) ↔
      StaysInside h cmdq kernel := by
  constructor
  · intro hall
    by_cases hdev : ctxGetDevice h (cmdqGetContext h cmdq) = 0
    · exact Or.inl hdev
    by_cases hprg : prgIsValid h (kernGetProgram h kernel) = clSuccess
    · refine Or.inr (Or.inr (attempted_inside.mp fun p hp hc => ?_))
      -- on a board that accepts everything, every attempted write is made
      have hwrites : (launchWrites h.onBoard cmdq kernel default).map Event.op =
          (attempted (launchPuts h (kernGetProgram h kernel) kernel)).map (Put.op h.onBoard) := by
        have hvalid := devIsValid_onBoard h hdev
        have hreset : (devControlRet (·.reset) h.onBoard (ctxGetDevice h (cmdqGetContext h cmdq))
            default).1 = clSuccess := by
          rw [devControlRet, if_neg (not_not.mpr hvalid)]
          rfl
        have hpos : launchWrites h.onBoard cmdq kernel default =
            (transfer h.onBoard (ctxGetDevice h (cmdqGetContext h cmdq))
              (launchPuts h.onBoard (kernGetProgram h kernel) kernel)
              (devControlRet (·.reset) h.onBoard (ctxGetDevice h (cmdqGetContext h cmdq))
                default).2).events := if_pos ⟨hreset, hprg⟩
        have hputs : launchPuts h.onBoard (kernGetProgram h kernel) kernel =
            launchPuts h (kernGetProgram h kernel) kernel := launchPuts_devs h _ _ kernel
        rw [hpos, transfer_events_onBoard h hdev, hputs]
      have hmem : p.op h ∈ (launchWrites h.onBoard cmdq kernel default).map Event.op := by
        rw [hwrites]
        exact List.mem_map_of_mem (f := Put.op h.onBoard) hp
      obtain ⟨e, he, hop⟩ := List.mem_map.mp hmem
      rw [← clEnqueueNDRangeKernel_writes] at he
      have hinside := hall _ default e (List.mem_of_mem_filter he)
      rw [hop] at hinside
      exact writesInside_op.mp hinside hc
    · exact Or.inr (Or.inl hprg)
  · intro hstay devs d e he cargo paddr data hop hc
    have hwrite : e ∈ launchWrites { h with devs := devs } cmdq kernel d := by
      rw [← clEnqueueNDRangeKernel_writes]
      exact List.mem_filter.mpr ⟨he, by rw [hop]; rfl⟩
    rcases hstay with hdev | hprg | hfits
    · have hnone : launchWrites { h with devs := devs } cmdq kernel d = [] :=
        launchWrites_noDevice hdev
      rw [hnone] at hwrite
      cases hwrite
    · have hnone : launchWrites { h with devs := devs } cmdq kernel d = [] :=
        if_neg fun hok => hprg hok.2
      rw [hnone] at hwrite
      cases hwrite
    · have hevents : e.op ∈ (attempted (launchPuts h (kernGetProgram h kernel) kernel)).map
          (Put.op h) := by
        obtain ⟨dev, d', hin⟩ := launchWrites_mem hwrite
        rw [show kernGetProgram { h with devs := devs } kernel = kernGetProgram h kernel from rfl,
          launchPuts_devs] at hin
        have hop' := (transfer_events_attempted _ dev _ d').subset (List.mem_map_of_mem hin)
        exact hop'
      obtain ⟨p, hp, hpop⟩ := List.mem_map.mp hevents
      have hinside : WritesInside (h.prgs (kernGetProgram h kernel)).comm (p.op h) :=
        writesInside_op.mpr (attempted_inside.mpr hfits p hp)
      exact hinside cargo paddr data (hpop.trans hop) hc

/-- A program whose communication area has room for eight bytes. -/
def tinyHost : Host Unit :=
  .single (fun _ => 0) (boardOps []) (textProgram ⟨0x80001000, 8⟩) plainKernel fun _ => ⟨0, 0, 0, 0⟩

/-- The header of sixteen bytes is written before any bound is tested. -/
theorem tiny_writesOutside :
    ¬ ∀ e ∈ (clEnqueueNDRangeKernel 1 1 tinyHost ()).trace,
      WritesInside (tinyHost.prgs (kernGetProgram tinyHost 1)).comm e.op := by
  intro hall
  have hmem : ∃ e ∈ (clEnqueueNDRangeKernel 1 1 tinyHost ()).trace,
      e.op = .writeMem .areaHeader 0x80001000 (initialHeader 0).toBytes := by decide
  obtain ⟨e, he, hop⟩ := hmem
  have hinside := hall e he _ _ _ hop rfl
  rw [CommAreaHeader.length_toBytes, span_subset_iff (by decide)] at hinside
  exact absurd hinside.2 (by decide)

end BaremetalCrt
