/-
# BaremetalCrt.Launch.Transfer — the upload of a launch as a pure function.

Up to the first run a launch writes a list of transfers that is known from the host objects
(`launchPuts`): the chunks that are not already on the device, the area header, the slots of the
kernel name and of the arguments.  What the device makes of such a list is `transfer`: the events,
the device state after them, and the code of the first one that fails.  `wp_upload` is the one rule
about the upload that the results on the launch use: its trace and its device are those of
`transfer`, and of the host objects only the flags of the program's chunks change.

Two consequences are stated for whole launches: the writes of its trace are the transfers, and nothing else
is written (`clEnqueueNDRangeKernel_writes`); and the device at the first run is the one that the transfers
have left (`firstRun_launch`).
-/
import BaremetalCrt.Launch.Plan
import BaremetalCrt.Launch.Frames

namespace BaremetalCrt

open Lib

variable {δ : Type}

/-! ## Transfers on a device -/

/-- What became of a list of transfers: the code, the events, and the device behind them. -/
structure Transfers (δ : Type) where
  ret : Except ClInt Unit
  events : List (Event δ)
  dev : δ

/-- The call that makes a transfer, with the device in the state `d`. -/
def putEvent (h : Host δ) (dev : Ptr) (p : Put) (d : δ) : Event δ :=
  let out := devWriteMemRet h dev p.paddr p.buf p.len d
  ⟨p.op h, out.1, h.bytes, h.bytes, d, out.2⟩

/-- Make the transfers in order, until one fails: those behind it are not made. -/
def transfer (h : Host δ) (dev : Ptr) : List Put → δ → Transfers δ
  | [], d => ⟨.ok (), [], d⟩
  | p :: ps, d =>
    let e := putEvent h dev p d
    if e.ret = clSuccess then
      let rest := transfer h dev ps e.devAfter
      ⟨rest.ret, e :: rest.events, rest.dev⟩
    else ⟨.error e.ret, [e], e.devAfter⟩

variable {h : Host δ} {dev : Ptr}

theorem transfer_nil (d : δ) : transfer h dev [] d = ⟨.ok (), [], d⟩ := rfl

theorem transfer_cons_ok {p : Put} {ps : List Put} {d : δ}
    (hret : (putEvent h dev p d).ret = clSuccess) :
    transfer h dev (p :: ps) d =
      ⟨(transfer h dev ps (putEvent h dev p d).devAfter).ret,
        putEvent h dev p d :: (transfer h dev ps (putEvent h dev p d).devAfter).events,
        (transfer h dev ps (putEvent h dev p d).devAfter).dev⟩ := by
  simp only [transfer, if_pos hret]

theorem transfer_cons_error {p : Put} {ps : List Put} {d : δ}
    (hret : (putEvent h dev p d).ret ≠ clSuccess) :
    transfer h dev (p :: ps) d =
      ⟨.error (putEvent h dev p d).ret, [putEvent h dev p d], (putEvent h dev p d).devAfter⟩ := by
  simp only [transfer, if_neg hret]

/-- Transfers that all went through can be continued. -/
theorem transfer_append_ok {ps : List Put} {d : δ} (hok : (transfer h dev ps d).ret = .ok ())
    (qs : List Put) :
    transfer h dev (ps ++ qs) d =
      ⟨(transfer h dev qs (transfer h dev ps d).dev).ret,
        (transfer h dev ps d).events ++ (transfer h dev qs (transfer h dev ps d).dev).events,
        (transfer h dev qs (transfer h dev ps d).dev).dev⟩ := by
  induction ps generalizing d with
  | nil => rfl
  | cons p ps ih =>
    by_cases hret : (putEvent h dev p d).ret = clSuccess
    · rw [transfer_cons_ok hret] at hok ⊢
      rw [List.cons_append, transfer_cons_ok hret, ih hok]
      rfl
    · rw [transfer_cons_error hret] at hok
      cases hok

/-- After a transfer that failed nothing is transferred. -/
theorem transfer_append_error {ps qs : List Put} {d : δ} {e : ClInt}
    (herr : (transfer h dev ps d).ret = .error e) :
    transfer h dev (ps ++ qs) d = transfer h dev ps d := by
  induction ps generalizing d with
  | nil => cases herr
  | cons p ps ih =>
    by_cases hret : (putEvent h dev p d).ret = clSuccess
    · rw [transfer_cons_ok hret] at herr ⊢
      rw [List.cons_append, transfer_cons_ok hret, ih herr]
    · rw [List.cons_append, transfer_cons_error hret, transfer_cons_error hret]

/-- The events are those of a first part of the list, in order. -/
theorem transfer_events_initial (ps : List Put) (d : δ) :
    (transfer h dev ps d).events.map Event.op <+: ps.map (Put.op h) := by
  induction ps generalizing d with
  | nil => exact List.nil_prefix
  | cons p ps ih =>
    by_cases hret : (putEvent h dev p d).ret = clSuccess
    · rw [transfer_cons_ok hret]
      exact List.cons_prefix_cons.mpr ⟨rfl, ih _⟩
    · rw [transfer_cons_error hret]
      exact List.cons_prefix_cons.mpr ⟨rfl, List.nil_prefix⟩

/-- When all transfers went through, the events are the whole list, and all succeeded. -/
theorem transfer_ok {ps : List Put} {d : δ} (hok : (transfer h dev ps d).ret = .ok ()) :
    (transfer h dev ps d).events.map Event.op = ps.map (Put.op h) ∧
      ∀ e ∈ (transfer h dev ps d).events, e.ret = clSuccess := by
  induction ps generalizing d with
  | nil => exact ⟨rfl, by simp [transfer_nil]⟩
  | cons p ps ih =>
    by_cases hret : (putEvent h dev p d).ret = clSuccess
    · rw [transfer_cons_ok hret] at hok ⊢
      obtain ⟨hops, hrets⟩ := ih hok
      refine ⟨by rw [List.map_cons, List.map_cons, hops]; rfl, fun e he => ?_⟩
      rcases List.mem_cons.mp he with rfl | he
      · exact hret
      · exact hrets e he
    · rw [transfer_cons_error hret] at hok
      cases hok

/-- A failure shows in the events. -/
theorem transfer_error {ps : List Put} {d : δ} {e : ClInt}
    (herr : (transfer h dev ps d).ret = .error e) :
    e ≠ clSuccess ∧ ∃ x ∈ (transfer h dev ps d).events, x.ret = e := by
  induction ps generalizing d with
  | nil => cases herr
  | cons p ps ih =>
    by_cases hret : (putEvent h dev p d).ret = clSuccess
    · rw [transfer_cons_ok hret] at herr ⊢
      obtain ⟨hne, x, hx, hxe⟩ := ih herr
      exact ⟨hne, x, List.mem_cons_of_mem _ hx, hxe⟩
    · rw [transfer_cons_error hret] at herr ⊢
      obtain rfl := Except.error.inj herr
      exact ⟨hret, _, List.mem_singleton.mpr rfl, rfl⟩

/-- Every event is a memory write that leaves the host alone. -/
theorem transfer_events_mem {ps : List Put} {d : δ} :
    ∀ e ∈ (transfer h dev ps d).events, e.op.isMem = true ∧ e.hostAfter = e.hostBefore := by
  induction ps generalizing d with
  | nil => simp [transfer_nil]
  | cons p ps ih =>
    intro e he
    by_cases hret : (putEvent h dev p d).ret = clSuccess
    · rw [transfer_cons_ok hret] at he
      rcases List.mem_cons.mp he with rfl | he
      · exact ⟨rfl, rfl⟩
      · exact ih e he
    · rw [transfer_cons_error hret] at he
      obtain rfl := List.mem_singleton.mp he
      exact ⟨rfl, rfl⟩

/-- Transfers depend on the plain bytes of the host and on its devices only. -/
theorem transfer_congr {h h' : Host δ} (hbytes : h'.bytes = h.bytes) (hdevs : h'.devs = h.devs)
    (ps : List Put) (d : δ) : transfer h' dev ps d = transfer h dev ps d := by
  have hput (p : Put) (d : δ) : putEvent h' dev p d = putEvent h dev p d := by
    have hread : h'.read p.buf p.len.toNat = h.read p.buf p.len.toNat := by
      cases p.buf <;> simp only [Host.read, hbytes]
    simp only [putEvent, Put.op, Put.data, hread, devWriteMemRet_congr hdevs hbytes, hbytes]
  induction ps generalizing d with
  | nil => rfl
  | cons p ps ih => simp only [transfer, hput, ih]

/-- Issuing transfers does what `transfer` says. -/
theorem issue_apply (dev : Ptr) (ps : List Put) (s : Sys δ) :
    issue dev ps s =
      ((transfer s.host dev ps s.dev).ret,
        { s with
          dev := (transfer s.host dev ps s.dev).dev
          trace := s.trace ++ (transfer s.host dev ps s.dev).events }) := by
  induction ps generalizing s with
  | nil => simp [transfer_nil]
  | cons p ps ih =>
    rw [issue_cons, Exec.bind_apply]
    by_cases hret : (putEvent s.host dev p s.dev).ret = clSuccess
    · have hput : devWriteMem p.cargo dev p.paddr p.buf p.len s =
          (.ok (), s.push (putEvent s.host dev p s.dev)) := by
        show (check (putEvent s.host dev p s.dev).ret, _) = _
        rw [hret]
        rfl
      rw [hput, transfer_cons_ok hret]
      show issue dev ps (s.push _) = _
      rw [ih]
      simp [Sys.push, putEvent]
    · have hput : devWriteMem p.cargo dev p.paddr p.buf p.len s =
          (.error (putEvent s.host dev p s.dev).ret, s.push (putEvent s.host dev p s.dev)) := by
        show (check (putEvent s.host dev p s.dev).ret, _) = _
        rw [check, if_neg hret]
        rfl
      rw [hput, transfer_cons_error hret]
      simp [Sys.push, putEvent]

/-! ## The upload -/

/-- The transfers of `n` chunks from chunk `i` on: those that are not left out. -/
def chunkPuts (p : ClProgram) : Nat → Nat → List Put
  | _, 0 => []
  | i, n + 1 =>
    if (p.chunkAt i).Skipped then chunkPuts p (i + 1) n
    else chunkPut i (p.chunkAt i) :: chunkPuts p (i + 1) n

/-- The transfers of a program's chunks, without the readonly ones that were sent before. -/
def imagePuts (p : ClProgram) : List Put := chunkPuts p 0 p.numChunks.toNat

/-- Everything a launch transfers before the first run. -/
def launchPuts (h : Host δ) (prg kernel : Ptr) : List Put :=
  imagePuts (h.prgs prg) ++ (commPlan h (h.prgs prg).comm (h.kerns kernel)).1

theorem chunkPuts_congr {p p' : ClProgram} (n : Nat) :
    ∀ i, (∀ j, i ≤ j → p'.chunkAt j = p.chunkAt j) → chunkPuts p' i n = chunkPuts p i n := by
  induction n with
  | zero => exact fun _ _ => rfl
  | succ n ih =>
    intro i hp
    simp only [chunkPuts, hp i le_rfl, ih (i + 1) fun j hj => hp j (by omega)]

/-- The transfers of the chunks: chunk `j` is among them unless it is left out. -/
theorem mem_chunkPuts {p : ClProgram} {q : Put} (n : Nat) :
    ∀ i, q ∈ chunkPuts p i n ↔
      ∃ j, i ≤ j ∧ j < i + n ∧ ¬ (p.chunkAt j).Skipped ∧ q = chunkPut j (p.chunkAt j) := by
  induction n with
  | zero =>
    intro i
    simp only [chunkPuts, List.not_mem_nil, false_iff]
    rintro ⟨j, hlo, hhi, -⟩
    omega
  | succ n ih =>
    intro i
    have hsplit (j : Nat) : i ≤ j ∧ j < i + (n + 1) ↔ j = i ∨ i + 1 ≤ j ∧ j < i + 1 + n := by omega
    have hrest := ih (i + 1)
    by_cases hskip : (p.chunkAt i).Skipped
    · rw [chunkPuts, if_pos hskip, hrest]
      constructor
      · rintro ⟨j, hlo, hhi, hq⟩
        exact ⟨j, by omega, by omega, hq⟩
      · rintro ⟨j, hlo, hhi, hns, hq⟩
        rcases (hsplit j).mp ⟨hlo, hhi⟩ with rfl | ⟨hlo', hhi'⟩
        · exact absurd hskip hns
        · exact ⟨j, hlo', hhi', hns, hq⟩
    · rw [chunkPuts, if_neg hskip, List.mem_cons, hrest]
      constructor
      · rintro (rfl | ⟨j, hlo, hhi, hq⟩)
        · exact ⟨i, le_rfl, by omega, hskip, rfl⟩
        · exact ⟨j, by omega, by omega, hq⟩
      · rintro ⟨j, hlo, hhi, hns, hq⟩
        rcases (hsplit j).mp ⟨hlo, hhi⟩ with rfl | ⟨hlo', hhi'⟩
        · exact Or.inl hq
        · exact Or.inr ⟨j, hlo', hhi', hns, hq⟩

/-- The state `s'` after the transfers `t` were made from `s` for `prg`. -/
structure Sys.After (prg : Ptr) (s : Sys δ) (t : Transfers δ) (s' : Sys δ) : Prop where
  dev : s'.dev = t.dev
  trace : s'.trace = s.trace ++ t.events
  host : s.host.UploadFrame prg s'.host

theorem Host.UploadFrame.trans {prg : Ptr} {a b c : Host δ} (hab : a.UploadFrame prg b)
    (hbc : b.UploadFrame prg c) : a.UploadFrame prg c where
  bytes := hbc.bytes.trans hab.bytes
  cmdqs := hbc.cmdqs.trans hab.cmdqs
  ctxs := hbc.ctxs.trans hab.ctxs
  devs := hbc.devs.trans hab.devs
  kerns := hbc.kerns.trans hab.kerns
  mems := hbc.mems.trans hab.mems
  others p hp := (hbc.others p hp).trans (hab.others p hp)
  magic := hbc.magic.trans hab.magic
  numChunks := hbc.numChunks.trans hab.numChunks
  comm := hbc.comm.trans hab.comm

/-- A chunk that goes through is marked. -/
theorem sendChunk_sent {prg : Ptr} {i : Nat} {s : Sys δ}
    (hv : prgIsValid s.host prg = clSuccess) (hi : (i : Int) < (s.host.prgs prg).numChunks)
    (hskip : ¬ ((s.host.prgs prg).chunkAt i).Skipped)
    (hret : (putEvent s.host dev (chunkPut i ((s.host.prgs prg).chunkAt i)) s.dev).ret = clSuccess) :
    sendChunk dev prg i s =
      (.ok (), (s.push (putEvent s.host dev (chunkPut i ((s.host.prgs prg).chunkAt i)) s.dev)).markLoaded
        prg i) := by
  rw [sendChunk_apply dev hv hi hskip, Exec.bind_apply, issue_apply, transfer_cons_ok hret]
  rfl

/-- A chunk that fails is not, and ends the loop. -/
theorem sendChunk_failed {prg : Ptr} {i : Nat} {s : Sys δ}
    (hv : prgIsValid s.host prg = clSuccess) (hi : (i : Int) < (s.host.prgs prg).numChunks)
    (hskip : ¬ ((s.host.prgs prg).chunkAt i).Skipped)
    (hret : (putEvent s.host dev (chunkPut i ((s.host.prgs prg).chunkAt i)) s.dev).ret ≠ clSuccess) :
    sendChunk dev prg i s =
      (.error (putEvent s.host dev (chunkPut i ((s.host.prgs prg).chunkAt i)) s.dev).ret,
        s.push (putEvent s.host dev (chunkPut i ((s.host.prgs prg).chunkAt i)) s.dev)) := by
  rw [sendChunk_apply dev hv hi hskip, Exec.bind_apply, issue_apply, transfer_cons_error hret]
  rfl

/-- The chunk loop transfers the chunks that are not left out. -/
theorem sendChunks_transfer {prg : Ptr} (dev : Ptr) (n : Nat) :
    ∀ (i : Nat) (s : Sys δ), prgIsValid s.host prg = clSuccess →
      ((i + n : Nat) : Int) ≤ (s.host.prgs prg).numChunks →
      (sendChunks dev prg i n s).1 =
          (transfer s.host dev (chunkPuts (s.host.prgs prg) i n) s.dev).ret ∧
        s.After prg (transfer s.host dev (chunkPuts (s.host.prgs prg) i n) s.dev)
          (sendChunks dev prg i n s).2 := by
  induction n with
  | zero => exact fun i s _ _ => ⟨rfl, rfl, (List.append_nil _).symm, .refl prg s.host⟩
  | succ n ih =>
    intro i s hv hle
    have hi : (i : Int) < (s.host.prgs prg).numChunks := by omega
    by_cases hskip : ((s.host.prgs prg).chunkAt i).Skipped
    · rw [sendChunks, Exec.bind_ok (sendChunk_skipped dev hv hi hskip), chunkPuts, if_pos hskip]
      exact ih (i + 1) s hv (by omega)
    · rw [chunkPuts, if_neg hskip, sendChunks]
      by_cases hret : (putEvent s.host dev (chunkPut i ((s.host.prgs prg).chunkAt i)) s.dev).ret =
          clSuccess
      · rw [Exec.bind_ok (sendChunk_sent hv hi hskip hret), transfer_cons_ok hret]
        generalize hs₁ : (s.push (putEvent s.host dev (chunkPut i ((s.host.prgs prg).chunkAt i))
          s.dev)).markLoaded prg i = s₁
        -- the rest of the loop runs with the flag of this chunk set
        have hframe : s.host.UploadFrame prg s₁.host := by
          rw [← hs₁]
          exact (Host.UploadFrame.refl prg s.host).markLoaded i
        have hputs : chunkPuts (s₁.host.prgs prg) (i + 1) n =
            chunkPuts (s.host.prgs prg) (i + 1) n := by
          rw [← hs₁]
          exact chunkPuts_congr n (i + 1) fun j hj => chunkAt_markLoaded_ne (by omega)
        obtain ⟨hret', hafter⟩ := ih (i + 1) s₁ (hframe.prgIsValid.trans hv)
          (by rw [hframe.numChunks]; omega)
        rw [hputs, transfer_congr hframe.bytes hframe.devs] at hret' hafter
        have hdev : s₁.dev = (putEvent s.host dev (chunkPut i ((s.host.prgs prg).chunkAt i))
            s.dev).devAfter := by rw [← hs₁]; rfl
        rw [hdev] at hret' hafter
        refine ⟨hret', hafter.dev, ?_, hframe.trans hafter.host⟩
        rw [hafter.trace, ← hs₁]
        exact List.append_assoc _ _ _
      · rw [Exec.bind_error (sendChunk_failed hv hi hskip hret), transfer_cons_error hret]
        exact ⟨rfl, rfl, rfl, .refl prg s.host⟩

theorem sendImage_transfer {prg : Ptr} (dev : Ptr) {s : Sys δ}
    (hv : prgIsValid s.host prg = clSuccess) :
    (sendImage dev prg s).1 = (transfer s.host dev (imagePuts (s.host.prgs prg)) s.dev).ret ∧
      s.After prg (transfer s.host dev (imagePuts (s.host.prgs prg)) s.dev)
        (sendImage dev prg s).2 := by
  have hnum : prgGetNumChunks s.host prg = .ok (s.host.prgs prg).numChunks := by
    simp only [prgGetNumChunks, hv, check_success]
    rfl
  rw [sendImage, Exec.bind_ok (by rw [query_apply, hnum]), imagePuts]
  by_cases hneg : (s.host.prgs prg).numChunks ≤ 0
  · rw [Int.toNat_of_nonpos hneg]
    exact ⟨rfl, rfl, (List.append_nil _).symm, .refl prg s.host⟩
  · exact sendChunks_transfer dev _ 0 s hv (by omega)

/-- The two phases that come before the first run. -/
def upload (dev prg kernel : Ptr) : Launch δ (ProgramComm × UInt32) := do
  sendImage dev prg
  sendArguments dev prg kernel

/-- The host objects let the launch get as far as the first run: the program is live, and every
argument is set, valid, and accepted by the layout. -/
def Accepted (h : Host δ) (kernel : Ptr) : Prop :=
  prgIsValid h (kernGetProgram h kernel) = clSuccess ∧
    ∃ paddr, (commPlan h (h.prgs (kernGetProgram h kernel)).comm (h.kerns kernel)).2 = .ok paddr

/-- **The upload is a list of transfers.**  It returns when all of `launchPuts` went through and the
layout of the arguments was accepted; it stops with the code of the transfer that failed, or with the
one of the argument that was refused. -/
theorem wp_upload {prg kernel : Ptr} {dev : Ptr} {s : Sys δ}
    {Q : ProgramComm × UInt32 → Sys δ → Prop} {E : ClInt → Sys δ → Prop}
    (hprg : prgIsValid s.host prg = clSuccess) (hkern : kernIsValid s.host kernel = clSuccess)
    (hok : ∀ s' paddr, s.After prg (transfer s.host dev (launchPuts s.host prg kernel) s.dev) s' →
      s'.hComm = (initialHeader (s.host.kerns kernel).numArgs).toBytes →
      (transfer s.host dev (launchPuts s.host prg kernel) s.dev).ret = .ok () →
      (commPlan s.host (s.host.prgs prg).comm (s.host.kerns kernel)).2 = .ok paddr →
      Q ((s.host.prgs prg).comm, (s.host.kerns kernel).numArgs) s')
    (herr : ∀ e s', s.After prg (transfer s.host dev (launchPuts s.host prg kernel) s.dev) s' →
      ((transfer s.host dev (launchPuts s.host prg kernel) s.dev).ret = .error e ∨
        (transfer s.host dev (launchPuts s.host prg kernel) s.dev).ret = .ok () ∧
          (commPlan s.host (s.host.prgs prg).comm (s.host.kerns kernel)).2 = .error e) → E e s') :
    Exec.wp (upload dev prg kernel) Q E s := by
  obtain ⟨hret, hafter⟩ := sendImage_transfer dev hprg
  rw [upload, Exec.wp_bind]
  rcases himg : (transfer s.host dev (imagePuts (s.host.prgs prg)) s.dev).ret with e | _
  · -- a chunk failed: no argument is sent
    have hall : transfer s.host dev (launchPuts s.host prg kernel) s.dev =
        transfer s.host dev (imagePuts (s.host.prgs prg)) s.dev := transfer_append_error himg
    rw [hall] at herr
    have hrun : sendImage dev prg s = (.error e, (sendImage dev prg s).2) := by
      rw [← himg, ← hret]
    rw [Exec.wp_of_error hrun]
    exact herr e _ hafter (Or.inl himg)
  · have hrun : sendImage dev prg s = (.ok (), (sendImage dev prg s).2) := by
      rw [← himg, ← hret]
    rw [Exec.wp_of_ok hrun]
    generalize (sendImage dev prg s).2 = s₁ at hafter
    have hprg₁ : prgIsValid s₁.host prg = clSuccess := hafter.host.prgIsValid.trans hprg
    have hkern₁ : kernIsValid s₁.host kernel = clSuccess := by
      rw [kernIsValid, hafter.host.kerns]
      exact hkern
    -- the argument phase starts from the device the chunks left, with the same plan
    rw [Exec.wp, sendArguments_apply dev prg kernel s₁ hprg₁ hkern₁, ← Exec.wp, Exec.wp_bind, issuePlan,
      Exec.wp_bind, hafter.host.comm, hafter.host.kerns]
    simp only [commPlan, argPlan_congr hafter.host.mems]
    have hall := transfer_append_ok himg (commPlan s.host (s.host.prgs prg).comm
      (s.host.kerns kernel)).1
    rw [Exec.wp, issue_apply, transfer_congr hafter.host.bytes hafter.host.devs]
    have hargs : s.After prg (transfer s.host dev (launchPuts s.host prg kernel) s.dev)
        { s₁ with
          hComm := (initialHeader (s.host.kerns kernel).numArgs).toBytes
          dev := (transfer s.host dev (commPlan s.host (s.host.prgs prg).comm
            (s.host.kerns kernel)).1 s₁.dev).dev
          trace := s₁.trace ++ (transfer s.host dev (commPlan s.host (s.host.prgs prg).comm
            (s.host.kerns kernel)).1 s₁.dev).events } := by
      refine ⟨?_, ?_, hafter.host⟩
      · rw [launchPuts, hall, hafter.dev]
      · rw [launchPuts, hall, hafter.dev, hafter.trace, List.append_assoc]
    rw [← hafter.dev] at hall
    have hret₂ : (transfer s.host dev (launchPuts s.host prg kernel) s.dev).ret =
        (transfer s.host dev (commPlan s.host (s.host.prgs prg).comm
          (s.host.kerns kernel)).1 s₁.dev).ret := by
      rw [launchPuts, hall]
    rcases hr : (transfer s.host dev (commPlan s.host (s.host.prgs prg).comm
      (s.host.kerns kernel)).1 s₁.dev).ret with e | _
    · rw [hr] at hret₂
      simp only [commPlan] at hr ⊢
      rw [hr]
      exact herr e _ hargs (Or.inl hret₂)
    · rw [hr] at hret₂
      simp only [commPlan] at hr ⊢
      rw [hr]
      rcases hend : (argPlan s.host (s.host.prgs prg).comm (argList (s.host.kerns kernel))
        (argStart (s.host.prgs prg).comm)).2 with e | paddr
      · exact herr e _ hargs (Or.inr ⟨hret₂, hend⟩)
      · exact hok _ paddr hargs rfl hret₂ hend

/-- Without a live program nothing is transferred. -/
theorem upload_invalid {prg : Ptr} (dev kernel : Ptr) {s : Sys δ}
    (hv : prgIsValid s.host prg ≠ clSuccess) :
    upload dev prg kernel s = (.error (prgIsValid s.host prg), s) := by
  have hbad : prgGetNumChunks s.host prg = .error (prgIsValid s.host prg) := by
    simp only [prgGetNumChunks, check, if_neg hv]
    rfl
  rw [upload, sendImage, bind_assoc, Exec.bind_error (by rw [query_apply, hbad])]

/-- The launch in its four parts. -/
theorem launch_eq (cmdq kernel : Ptr) :
    (launch cmdq kernel : Launch δ Unit) = (do
      let dev ← Exec.gets fun s => ctxGetDevice s.host (cmdqGetContext s.host cmdq)
      let prg ← Exec.gets fun s => kernGetProgram s.host kernel
      devReset dev
      let (comm, numArgs) ← upload dev prg kernel
      execute dev comm
      recvArguments dev kernel comm numArgs) := by
  simp only [launch, upload, bind_assoc]

/-- A launch that got past the upload of its program has a live kernel. -/
theorem kernIsValid_of_prgIsValid {h : Host δ} {kernel : Ptr}
    (hv : prgIsValid h (kernGetProgram h kernel) = clSuccess) :
    kernIsValid h kernel = clSuccess := by
  by_contra hbad
  rw [kernGetProgram, if_pos hbad] at hv
  simp [prgIsValid, isValid, clInvalidProgram, clSuccess] at hv

/-! ## The writes of a launch -/

/-- The operation writes to the device's memory. -/
def DevOp.isWrite : DevOp → Bool
  | .writeMem .. => true
  | _ => false

/-- The write calls of a trace, in the order in which they were made. -/
def writesOf (tr : List (Event δ)) : List (Event δ) := tr.filter fun e => e.op.isWrite

theorem transfer_events_isWrite (ps : List Put) (d : δ) :
    ∀ e ∈ (transfer h dev ps d).events, e.op.isWrite = true := by
  intro e he
  have hop : e.op ∈ (transfer h dev ps d).events.map Event.op := List.mem_map_of_mem he
  obtain ⟨p, _, hp⟩ := List.mem_map.mp ((transfer_events_initial ps d).subset hop)
  rw [← hp]
  rfl

theorem writesOf_snoc {tr : List (Event δ)} {e : Event δ} (he : e.op.isWrite = false) :
    writesOf (tr ++ [e]) = writesOf tr := by
  simp [writesOf, he]

/-- The writes that a launch makes on the device in the state `d`: none before the reset succeeded
or without a live program, and otherwise its transfers. -/
def launchWrites (h : Host δ) (cmdq kernel : Ptr) (d : δ) : List (Event δ) :=
  let dev := ctxGetDevice h (cmdqGetContext h cmdq)
  let prg := kernGetProgram h kernel
  let reset := devControlRet (·.reset) h dev d
  if reset.1 = clSuccess ∧ prgIsValid h prg = clSuccess then
    (transfer h dev (launchPuts h prg kernel) reset.2).events
  else []

/-- **A launch writes its transfers and nothing else**, whatever the device does. -/
theorem clEnqueueNDRangeKernel_writes (cmdq kernel : Ptr) (h : Host δ) (d : δ) :
    writesOf (clEnqueueNDRangeKernel cmdq kernel h d).trace = launchWrites h cmdq kernel d := by
  have hkeep : Carried fun s s' : Sys δ => writesOf s'.trace = writesOf s.trace :=
    ⟨fun _ => rfl, fun _ _ _ hab hbc => hbc.trans hab⟩
  have hrun : Exec.wp (launch cmdq kernel)
      (fun _ s' => writesOf s'.trace = launchWrites h cmdq kernel d)
      (fun _ s' => writesOf s'.trace = launchWrites h cmdq kernel d) (⟨h, d, [], []⟩ : Sys δ) := by
    rw [launch_eq, Exec.wp_bind, Exec.wp_gets, Exec.wp_bind, Exec.wp_gets, Exec.wp_bind, devReset,
      wp_devCall]
    refine ⟨fun hret => ?_, fun hret => ?_⟩
    · rw [Exec.wp_bind]
      by_cases hv : prgIsValid h (kernGetProgram h kernel) = clSuccess
      · have hwrites : launchWrites h cmdq kernel d =
            (transfer h (ctxGetDevice h (cmdqGetContext h cmdq))
              (launchPuts h (kernGetProgram h kernel) kernel)
              (devControlRet (·.reset) h (ctxGetDevice h (cmdqGetContext h cmdq)) d).2).events :=
          if_pos ⟨hret, hv⟩
        have hafter (s₂ : Sys δ) (htr : s₂.trace = [controlEvent .reset (·.reset)
              (ctxGetDevice h (cmdqGetContext h cmdq)) ⟨h, d, [], []⟩] ++
            (transfer h (ctxGetDevice h (cmdqGetContext h cmdq))
              (launchPuts h (kernGetProgram h kernel) kernel)
              (devControlRet (·.reset) h (ctxGetDevice h (cmdqGetContext h cmdq)) d).2).events) :
            writesOf s₂.trace = launchWrites h cmdq kernel d := by
          rw [htr, hwrites, writesOf, List.filter_append,
            List.filter_eq_self.mpr (transfer_events_isWrite _ _)]
          rfl
        refine wp_upload hv (kernIsValid_of_prgIsValid hv) (fun s₂ _ hs₂ _ _ _ => ?_)
          (fun _ s₂ hs₂ _ => hafter s₂ hs₂.trace)
        -- nothing is written from the first run on
        have htail : Exec.Keeps (fun s s' : Sys δ => writesOf s'.trace = writesOf s.trace)
            (do
              execute (ctxGetDevice h (cmdqGetContext h cmdq))
                (h.prgs (kernGetProgram h kernel)).comm
              recvArguments (ctxGetDevice h (cmdqGetContext h cmdq)) kernel
                (h.prgs (kernGetProgram h kernel)).comm (h.kerns kernel).numArgs : Launch δ Unit) :=
          hkeep.bind
            (keeps_execute hkeep (fun _ _ => writesOf_snoc rfl) (fun _ _ => writesOf_snoc rfl)
              (fun _ _ _ => writesOf_snoc rfl) _ _)
            fun _ => keeps_recvArguments hkeep _ _ _ _ fun _ _ _ _ _ => writesOf_snoc rfl
        exact Exec.wp_state.mpr ((htail s₂).trans (hafter s₂ hs₂.trace))
      · rw [Exec.wp_of_error (upload_invalid _ kernel hv)]
        exact (if_neg fun hc => hv hc.2).symm
    · exact (if_neg fun hc => hret hc.1).symm
  exact Exec.wp_state.mp hrun

/-! ## The first run -/

/-- Later phases only add to the trace. -/
theorem trace_grows : Steps (δ := δ) fun s s' => ∃ es, s'.trace = s.trace ++ es where
  refl _ := ⟨[], (List.append_nil _).symm⟩
  trans _ _ _ := by
    rintro ⟨xs, hx⟩ ⟨ys, hy⟩
    exact ⟨xs ++ ys, by rw [hy, hx, List.append_assoc]⟩
  reset _ _ := ⟨_, rfl⟩
  run _ _ := ⟨_, rfl⟩
  stop _ _ := ⟨_, rfl⟩
  write _ _ _ _ _ _ := ⟨_, rfl⟩
  read _ _ _ _ _ := ⟨_, rfl⟩
  header dev paddr s := ⟨[hCommEvent dev paddr s], rfl⟩
  hComm _ _ := ⟨[], (List.append_nil _).symm⟩
  chunk _ _ _ _ _ _ := ⟨[], (List.append_nil _).symm⟩

/-- What becomes of the transfers of a launch, made behind its reset. -/
def launchSent (h : Host δ) (cmdq kernel : Ptr) (d : δ) : Transfers δ :=
  let dev := ctxGetDevice h (cmdqGetContext h cmdq)
  transfer h dev (launchPuts h (kernGetProgram h kernel) kernel) (devControlRet (·.reset) h dev d).2

/-- The launch gets as far as the run: the reset and every transfer succeeded, and the layout was accepted. -/
structure Uploads (h : Host δ) (cmdq kernel : Ptr) (d : δ) : Prop where
  reset : (devControlRet (·.reset) h (ctxGetDevice h (cmdqGetContext h cmdq)) d).1 = clSuccess
  program : prgIsValid h (kernGetProgram h kernel) = clSuccess
  sent : (launchSent h cmdq kernel d).ret = .ok ()
  plan : ∃ paddr, (commPlan h (h.prgs (kernGetProgram h kernel)).comm (h.kerns kernel)).2 = .ok paddr

/-- **The device at the first run** is the one that the transfers left, all of which went through; and
nothing else keeps the launch from running it. -/
theorem firstRun_launch (cmdq kernel : Ptr) (h : Host δ) (d : δ) :
    (∀ r, earliest Event.isRun (clEnqueueNDRangeKernel cmdq kernel h d).trace = some r →
        Uploads h cmdq kernel d ∧ r.devBefore = (launchSent h cmdq kernel d).dev) ∧
      (Uploads h cmdq kernel d →
        ∃ r, earliest Event.isRun (clEnqueueNDRangeKernel cmdq kernel h d).trace = some r) := by
  let Runs (tr : List (Event δ)) : Prop :=
    (∀ r, earliest Event.isRun tr = some r →
      Uploads h cmdq kernel d ∧ r.devBefore = (launchSent h cmdq kernel d).dev) ∧
    (Uploads h cmdq kernel d → ∃ r, earliest Event.isRun tr = some r)
  suffices hrun : Exec.wp (launch cmdq kernel) (fun _ s' => Runs s'.trace) (fun _ s' => Runs s'.trace)
      (⟨h, d, [], []⟩ : Sys δ) from Exec.wp_state.mp hrun
  have hnoRun {tr : List (Event δ)} (htr : ∀ e ∈ tr, e.isRun = false)
      (hnot : ¬ Uploads h cmdq kernel d) : Runs tr := by
    refine ⟨fun r hr => ?_, fun hup => absurd hup hnot⟩
    rw [earliest_eq_none_iff.mpr htr] at hr
    cases hr
  generalize hdev : ctxGetDevice h (cmdqGetContext h cmdq) = dev
  rw [launch_eq, Exec.wp_bind, Exec.wp_gets, Exec.wp_bind, Exec.wp_gets, Exec.wp_bind, devReset,
    wp_devCall, hdev]
  have hreset : ∀ e ∈ [controlEvent .reset (·.reset) dev (⟨h, d, [], []⟩ : Sys δ)],
      e.isRun = false := by
    intro e he
    obtain rfl := List.mem_singleton.mp he
    rfl
  refine ⟨fun hret => ?_, fun hret => hnoRun hreset fun hup => hret (hdev ▸ hup.reset)⟩
  rw [Exec.wp_bind]
  by_cases hv : prgIsValid h (kernGetProgram h kernel) = clSuccess
  swap
  · rw [Exec.wp_of_error (upload_invalid _ kernel hv)]
    exact hnoRun hreset fun hup => hv hup.program
  have hsent : transfer h dev (launchPuts h (kernGetProgram h kernel) kernel)
      (devControlRet (·.reset) h dev d).2 = launchSent h cmdq kernel d := by
    rw [launchSent, hdev]
  -- the upload runs nothing
  have hupload {s₂ : Sys δ} (htr : s₂.trace = [controlEvent .reset (·.reset) dev ⟨h, d, [], []⟩] ++
      (launchSent h cmdq kernel d).events) : ∀ e ∈ s₂.trace, e.isRun = false := by
    intro e he
    rw [htr] at he
    rcases List.mem_append.mp he with he | he
    · exact hreset e he
    · have hw := transfer_events_isWrite _ _ e he
      cases hop : e.op <;> simp [Event.isRun, hop, DevOp.isWrite] at hw ⊢
  refine wp_upload hv (kernIsValid_of_prgIsValid hv) (fun s₂ paddr hs₂ _ hok hend => ?_)
    (fun e s₂ hs₂ hfail => ?_)
  swap
  · refine hnoRun (hupload (hsent ▸ hs₂.trace)) fun hup => ?_
    rcases hfail with hput | ⟨-, hend⟩
    · replace hput : (transfer h dev (launchPuts h (kernGetProgram h kernel) kernel)
          (devControlRet (·.reset) h dev d).2).ret = .error e := hput
      rw [hsent, hup.sent] at hput
      cases hput
    · obtain ⟨paddr, hplan⟩ := hup.plan
      cases hplan.symm.trans hend
  have hup : Uploads h cmdq kernel d := ⟨hdev ▸ hret, hv, hsent ▸ hok, paddr, hend⟩
  show Exec.wp (execute dev _ >>= fun _ => recvArguments dev kernel _ _) _ _ s₂
  rw [execute, bind_assoc, Exec.wp_bind, devRun, wp_devCall]
  have hfirst : earliest Event.isRun (s₂.push (controlEvent .run (·.run) dev s₂)).trace =
      some (controlEvent .run (·.run) dev s₂) := by
    show earliest _ (s₂.trace ++ [_]) = _
    rw [earliest_append, earliest_eq_none_iff.mpr (hupload (hsent ▸ hs₂.trace))]
    rfl
  have hlater {s' : Sys δ}
      (hgrow : ∃ es, s'.trace = (s₂.push (controlEvent .run (·.run) dev s₂)).trace ++ es) :
      Runs s'.trace := by
    obtain ⟨es, hes⟩ := hgrow
    have hkept : earliest Event.isRun s'.trace = some (controlEvent .run (·.run) dev s₂) := by
      rw [hes, earliest_append, hfirst, Option.some_or]
    refine ⟨fun r hr => ?_, fun _ => ⟨_, hkept⟩⟩
    obtain rfl := Option.some.inj (hkept.symm.trans hr)
    exact ⟨hup, hsent ▸ hs₂.dev⟩
  refine ⟨fun _ => Exec.wp_state.mpr (hlater ?_), fun _ => hlater ⟨[], (List.append_nil _).symm⟩⟩
  have hpoll (n : Nat) : Exec.Keeps (fun s s' : Sys δ => ∃ es, s'.trace = s.trace ++ es)
      (poll dev (h.prgs (kernGetProgram h kernel)).comm n) :=
    keeps_poll trace_grows.toCarried trace_grows.run trace_grows.stop trace_grows.header dev _ n
  rw [bind_assoc]
  refine trace_grows.bind (hpoll _) (fun done => ?_) _
  refine trace_grows.bind (Exec.Keeps.ite trace_grows.refl trace_grows.refl) fun _ => ?_
  exact keeps_recvArguments trace_grows.toCarried dev kernel _ _ trace_grows.read

end BaremetalCrt
