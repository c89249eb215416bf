/-
# BaremetalCrt.Launch.Aliasing — one buffer at several argument indices.

Every argument index has a slot of its own on the device, and the walk back copies slot after slot to the
host.  Where slots stand for the same host memory, the last of them decides: a byte that the kernel changed
in another one is lost.

The list of the stores to the host is known (`Launch.Receive`), so the question is which of them covers a
byte last. `storeAll_cells_iff` answers it for any list of stores, and `clEnqueueNDRangeKernel_changes_iff`
for the slots of a launch: the kernel's update of a buffer at one index comes back just when no later slot
covers the byte, or the last one that does brings the same.
-/
import BaremetalCrt.Launch.DataFlow

namespace BaremetalCrt

open Lib

variable {δ : Type} {h : Host δ} {cmdq kernel : Ptr} {mem : δ → ByteMap}

/-! ## What a success leaves -/

/-- What polling saw last. -/
theorem wp_poll_last (dev : Ptr) (comm : ProgramComm) (n : Nat) (s : Sys δ) :
    Exec.wp (poll dev comm n)
      (fun done s' => s'.host = s.host ∧ (done = true →
        ∃ e, latest Event.isHeader s'.trace = some e ∧ DoneHeader comm e ∧ e.devAfter = s'.dev))
      (fun e _ => e ≠ clSuccess) s := by
  induction n generalizing s with
  | zero => exact ⟨rfl, fun hdone => absurd hdone Bool.false_ne_true⟩
  | succ n ih =>
    refine wp_poll_succ (fun hret => hret) (fun _ hret => hret) (fun _ _ _ => by decide)
      (fun _ hret hmagic hdone => ⟨rfl, fun _ => ?_⟩) (fun _ _ _ _ => ?_)
    · refine ⟨hCommEvent dev comm.addr (s.halted dev), ?_, ⟨_, rfl, hret, hmagic, hdone⟩, rfl⟩
      show latest _ (_ ++ [_]) = _
      rw [latest_snoc, if_pos (show (hCommEvent dev comm.addr (s.halted dev)).isHeader = true from rfl)]
    · rw [Exec.wp_bind, devRun, wp_devCall]
      exact ⟨fun _ => ih _, fun hret => hret⟩

/-- What a launch that succeeds brings back: the slots of its arguments, as the device held them when done
was seen. -/
structure BroughtBack (h : Host δ) (kernel : Ptr) (mem : δ → ByteMap) (tr : List (Event δ)) (bytes : ByteMap) :
    Prop where
  args : (launchSlots h kernel).map Slot.arg = argList (h.kerns kernel)
  done : ∃ e, latest Event.isHeader tr = some e ∧ DoneHeader (h.prgs (kernGetProgram h kernel)).comm e ∧
    bytes = h.bytes.storeAll (cells (mem e.devAfter) ((launchSlots h kernel).map (Slot.get h)))

theorem wp_launch_broughtBack (cmdq kernel : Ptr) (h : Host δ) (d : δ)
    (he : h.Exact (ctxGetDevice h (cmdqGetContext h cmdq)) mem) :
    Exec.wp (launch cmdq kernel) (fun _ s' => BroughtBack h kernel mem s'.trace s'.host.bytes)
      (fun e _ => e ≠ clSuccess) (⟨h, d, [], []⟩ : Sys δ) := by
  generalize hdev : ctxGetDevice h (cmdqGetContext h cmdq) = dev at he
  rw [launch_eq, Exec.wp_bind, Exec.wp_gets, Exec.wp_bind, Exec.wp_gets, Exec.wp_bind, devReset,
    wp_devCall, hdev]
  refine ⟨fun _ => ?_, fun hreset => hreset⟩
  rw [Exec.wp_bind]
  by_cases hv : prgIsValid h (kernGetProgram h kernel) = clSuccess
  swap
  · rw [Exec.wp_of_error (upload_invalid _ kernel hv)]
    exact hv
  have hkern := kernIsValid_of_prgIsValid hv
  refine wp_upload hv hkern (fun s₂ paddr hs₂ _ _ hend => ?_) (fun e s₂ _ hfail => ?_)
  swap
  · rcases hfail with hput | ⟨-, hplan⟩
    · exact (transfer_error hput).1
    · exact argPlan_error_ne hplan
  show Exec.wp (execute dev _ >>= fun _ => recvArguments dev kernel _ _) _ _ s₂
  rw [Exec.wp_bind, execute, Exec.wp_bind, devRun, wp_devCall]
  refine ⟨fun _ => ?_, fun hret => hret⟩
  rw [Exec.wp_bind]
  refine (wp_poll_last dev _ maxPolls _).mono (fun done s₃ hpoll => ?_) (fun _ _ hne => hne)
  obtain ⟨hhost, hlast⟩ := hpoll
  cases done with
  | false => exact show clInvalidDevice ≠ clSuccess by decide
  | true =>
    -- done was seen: the walk back is a list of reads
    obtain ⟨e, hheader, hdone, hdevice⟩ := hlast rfl
    replace hhost : s₃.host = s₂.host := hhost
    have hkerns : s₃.host.kerns = h.kerns := by rw [hhost, hs₂.host.kerns]; rfl
    have hmems : s₃.host.mems = h.mems := by rw [hhost, hs₂.host.mems]; rfl
    have hbytes : s₃.host.bytes = h.bytes := by rw [hhost, hs₂.host.bytes]; rfl
    have hdevs : s₃.host.devs = h.devs := by rw [hhost, hs₂.host.devs]; rfl
    have hplan : (argPlan h (h.prgs (kernGetProgram h kernel)).comm (argList (h.kerns kernel))
        (argStart (h.prgs (kernGetProgram h kernel)).comm)).2 = .ok paddr := hend
    have hrecv := recvArguments_apply dev kernel (h.prgs (kernGetProgram h kernel)).comm s₃
      (by rw [kernIsValid, hkerns]; exact hkern)
    rw [recvStart_eq, hkerns, recvPlan_congr hmems, recvPlan_eq hplan, fetchPlan] at hrecv
    show Exec.wp (recvArguments dev kernel (h.prgs (kernGetProgram h kernel)).comm
      (h.kerns kernel).numArgs) _ _ s₃
    rw [Exec.wp, hrecv, ← Exec.wp, Exec.wp_bind, Exec.wp_bind]
    have he₃ : s₃.host.Exact dev mem := by
      rw [Host.Exact, hdevs]
      exact he
    refine (wp_fetch _ s₃ he₃).mono (fun _ s₄ hf => ?_) (fun _ _ hf => hf.1)
    obtain ⟨es, htrace, hes, -, hstored⟩ := hf
    refine ⟨(argPlan_slots hend).2, e, ?_, hdone, ?_⟩
    · rw [htrace, latest_append_of_none fun x hx => (hes x hx).2, hheader]
    · rw [hstored, hbytes, hdevice]
      rfl

theorem broughtBack_of_success {d : δ} (he : h.Exact (ctxGetDevice h (cmdqGetContext h cmdq)) mem)
    (hret : (clEnqueueNDRangeKernel cmdq kernel h d).ret = clSuccess) :
    BroughtBack h kernel mem (clEnqueueNDRangeKernel cmdq kernel h d).trace
      (clEnqueueNDRangeKernel cmdq kernel h d).host.bytes := by
  have hrun := wp_launch_broughtBack cmdq kernel h d he
  rcases hout : launch cmdq kernel ⟨h, d, [], []⟩ with ⟨e | _, s⟩
  · rw [clEnqueueNDRangeKernel, hout] at hret
    exact absurd hret (hrun.error hout)
  · rw [clEnqueueNDRangeKernel, hout]
    exact hrun.ok hout

/-! ## The last slot decides -/

/-- The slot is read back over the host address `a`. -/
def Slot.Covers (h : Host δ) (s : Slot) (a : Nat) : Prop :=
  s.fetched h = true ∧ a ∈ span (s.ptr h) s.size.toNat

/-- The byte that it brings there, when the device memory is `m`. -/
def Slot.byteAt (h : Host δ) (m : ByteMap) (s : Slot) (a : Nat) : UInt8 :=
  m (s.payload.toNat + (a - s.ptr h))

/-- A list has no member of a kind, or a last one. -/
theorem exists_last {α : Type} (p : α → Prop) (l : List α) :
    (∀ a ∈ l, ¬ p a) ∨ ∃ l₁ a l₂, l = l₁ ++ a :: l₂ ∧ p a ∧ ∀ b ∈ l₂, ¬ p b := by
  induction l with
  | nil => exact Or.inl fun _ ha => nomatch ha
  | cons a l ih =>
    rcases ih with hnone | ⟨l₁, b, l₂, rfl, hb, hlater⟩
    · by_cases ha : p a
      · exact Or.inr ⟨[], a, l, rfl, ha, hnone⟩
      · refine Or.inl fun b hb => ?_
        rcases List.mem_cons.mp hb with rfl | hb
        · exact ha
        · exact hnone b hb
    · exact Or.inr ⟨a :: l₁, b, l₂, rfl, hb, hlater⟩

/-- A byte of the host is what the last slot that covers it brings. -/
theorem storeAll_cells_last {b m : ByteMap} {pre post : List Slot} {s : Slot} {a : Nat}
    (hs : s.Covers h a) (hlater : ∀ t ∈ post, ¬ t.Covers h a) :
    b.storeAll (cells m ((pre ++ s :: post).map (Slot.get h))) a = s.byteAt h m a := by
  obtain ⟨hf, hspan⟩ := hs
  obtain ⟨hlo, hhi⟩ := mem_span.mp hspan
  have hi : a - s.ptr h < (m.load s.payload.toNat s.size.toNat).length := by
    rw [ByteMap.length_load]
    omega
  rw [cells_get, List.filter_append, List.filter_cons_of_pos (show (fun s => s.fetched h) s = true from hf),
    List.map_append, List.map_cons]
  have hafter : ∀ v ∈ (post.filter fun s => s.fetched h).map fun s =>
      (s.ptr h, m.load s.payload.toNat s.size.toNat), s.ptr h + (a - s.ptr h) ∉ span v.1 v.2.length := by
    intro v hv
    obtain ⟨t, ht, rfl⟩ := List.mem_map.mp hv
    obtain ⟨ht, htf⟩ := List.mem_filter.mp ht
    rw [Nat.add_sub_cancel' hlo, ByteMap.length_load]
    exact fun hmem => hlater t ht ⟨htf, hmem⟩
  have hlast (ws : List (Nat × List UInt8)) : b.storeAll (ws ++ (s.ptr h, m.load s.payload.toNat
      s.size.toNat) :: (post.filter fun s => s.fetched h).map fun s =>
        (s.ptr h, m.load s.payload.toNat s.size.toNat)) (s.ptr h + (a - s.ptr h)) = _ :=
    ByteMap.storeAll_last b hi hafter
  simp only [Nat.add_sub_cancel' hlo] at hlast
  rw [hlast, ByteMap.getElem_load]
  rfl

/-- **Whether the byte of a slot survives** the slots behind it: none of them covers its place, or the last
one that does brings the same byte. -/
theorem storeAll_cells_iff {b m : ByteMap} {pre post : List Slot} {s : Slot} {a : Nat} (hs : s.Covers h a) :
    b.storeAll (cells m ((pre ++ s :: post).map (Slot.get h))) a = s.byteAt h m a ↔
      ∀ post₁ t post₂, post = post₁ ++ t :: post₂ → t.Covers h a → (∀ t' ∈ post₂, ¬ t'.Covers h a) →
        t.byteAt h m a = s.byteAt h m a := by
  constructor
  · rintro hkept post₁ t post₂ rfl ht hlater
    rw [← hkept, ← List.cons_append, ← List.append_assoc, storeAll_cells_last ht hlater]
  · intro hlater
    rcases exists_last (fun t => Slot.Covers h t a) post with hnone | ⟨post₁, t, post₂, rfl, ht, hnone⟩
    · exact storeAll_cells_last hs hnone
    · rw [← hlater post₁ t post₂ rfl ht hnone, ← List.cons_append, ← List.append_assoc,
        storeAll_cells_last ht hnone]

/-! ## One buffer at several indices -/

/-- The slot stands for the memory object `b`: its argument is the handle of that object. -/
def Slot.Of (s : Slot) (b : Ptr) : Prop := s.arg.argtype = commArgMem ∧ s.arg.val.handle = b

/-- The bytes of the buffer `b` that differ from the uploaded ones in the slot come back. -/
def ChangesKept (h : Host δ) (b : Ptr) (s : Slot) (m bytes : ByteMap) : Prop :=
  ∀ x < s.size.toNat, m (s.payload.toNat + x) ≠ h.bytes ((h.mems b).ptr + x) →
    bytes ((h.mems b).ptr + x) = m (s.payload.toNat + x)

/-- The last of the slots that covers the byte `x` of the buffer, if any does, brings the same byte. -/
def NotOverwritten (h : Host δ) (b : Ptr) (s : Slot) (m : ByteMap) (post : List Slot) (x : Nat) : Prop :=
  ∀ post₁ t post₂, post = post₁ ++ t :: post₂ → t.Covers h ((h.mems b).ptr + x) →
    (∀ t' ∈ post₂, ¬ t'.Covers h ((h.mems b).ptr + x)) →
      t.byteAt h m ((h.mems b).ptr + x) = m (s.payload.toNat + x)

/-- The buffer's storage is its own, and its other slots hold the uploaded bytes. -/
structure ChangedOnce (h : Host δ) (b : Ptr) (s : Slot) (m : ByteMap) (others : List Slot) : Prop where
  changed : ∃ x < s.size.toNat, m (s.payload.toNat + x) ≠ h.bytes ((h.mems b).ptr + x)
  kept : ∀ t ∈ others, t.Of b → ∀ x < t.size.toNat, m (t.payload.toNat + x) = h.bytes ((h.mems b).ptr + x)
  apart : ∀ t ∈ others, t.fetched h = true → ¬ t.Of b →
    Disjoint (span (t.ptr h) t.size.toNat) (span (h.mems b).ptr (h.mems b).size.toNat)

section Aliased

variable {b : Ptr} {s t : Slot} {m bytes : ByteMap} {pre post : List Slot}

/-- A slot of a buffer that can be written covers the storage of the buffer. -/
theorem covers_of (hs : s.Of b) (hwrite : memCanWrite (h.mems b) = true) {x : Nat}
    (hx : x < s.size.toNat) : s.Covers h ((h.mems b).ptr + x) ∧ s.ptr h = (h.mems b).ptr := by
  obtain ⟨hmem, rfl⟩ := hs
  have hptr : s.ptr h = (h.mems s.arg.val.handle).ptr := if_pos hmem
  refine ⟨⟨?_, ?_⟩, hptr⟩
  · rw [Slot.fetched, hmem, hwrite]
    rfl
  · rw [hptr]
    exact ⟨Nat.le_add_right .., Nat.add_lt_add_left hx _⟩

theorem size_of (hs : s.Of b) (hwf : s.WellFormed h) : s.size = (h.mems b).size := by
  obtain ⟨hmem, rfl⟩ := hs
  rcases hwf with ⟨hval, -⟩ | ⟨-, -, -, hsize, -⟩
  · rw [hmem] at hval
    cases hval
  · exact hsize

/-- A byte of the slot survives exactly when it is not overwritten. -/
theorem kept_iff (hs : s.Of b) (hwrite : memCanWrite (h.mems b) = true) {x : Nat} (hx : x < s.size.toNat)
    (hbytes : bytes = h.bytes.storeAll (cells m ((pre ++ s :: post).map (Slot.get h)))) :
    bytes ((h.mems b).ptr + x) = m (s.payload.toNat + x) ↔ NotOverwritten h b s m post x := by
  obtain ⟨hcovers, hptr⟩ := covers_of hs hwrite hx
  have hat : s.byteAt h m ((h.mems b).ptr + x) = m (s.payload.toNat + x) := by
    rw [Slot.byteAt, hptr, Nat.add_sub_cancel_left]
  rw [hbytes, ← hat, NotOverwritten, ← hat]
  exact storeAll_cells_iff hcovers

/-- Of a buffer with storage of its own that was changed in one slot only: when no slot of it follows. -/
theorem changesKept_iff (hs : s.Of b) (hwf : ∀ t ∈ pre ++ s :: post, t.WellFormed h)
    (hwrite : memCanWrite (h.mems b) = true) (honce : ChangedOnce h b s m (pre ++ post))
    (hbytes : bytes = h.bytes.storeAll (cells m ((pre ++ s :: post).map (Slot.get h)))) :
    ChangesKept h b s m bytes ↔ ∀ t ∈ post, ¬ t.Of b := by
  have hswf := hwf s (List.mem_append_right _ (List.mem_cons_self ..))
  constructor
  · intro hkept t ht hof
    obtain ⟨x, hx, hchanged⟩ := honce.changed
    have htwf {t : Slot} (ht : t ∈ post) : t.WellFormed h :=
      hwf t (List.mem_append_right _ (List.mem_cons_of_mem _ ht))
    rcases exists_last (fun t => Slot.Of t b) post with hnone | ⟨post₁, u, post₂, rfl, hu, hlater⟩
    · exact hnone t ht hof
    -- the last slot of the buffer brings the uploaded byte back
    have hmem : u ∈ post₁ ++ u :: post₂ := List.mem_append_right _ (List.mem_cons_self ..)
    have hux : x < u.size.toNat := by
      rw [size_of hu (htwf hmem), ← size_of hs hswf]
      exact hx
    obtain ⟨hcovers, hptr⟩ := covers_of hu hwrite hux
    have hnot := (kept_iff hs hwrite hx hbytes).mp (hkept x hx hchanged)
    have hbyte := hnot post₁ u post₂ rfl hcovers fun t' ht' hc => by
      have ht'' : t' ∈ post₁ ++ u :: post₂ := List.mem_append_right _ (List.mem_cons_of_mem _ ht')
      refine Set.disjoint_left.mp (honce.apart t' (List.mem_append_right _ ht'') hc.1 (hlater t' ht')) hc.2 ?_
      rw [← size_of hs hswf]
      exact ⟨Nat.le_add_right .., Nat.add_lt_add_left hx _⟩
    rw [Slot.byteAt, hptr, Nat.add_sub_cancel_left,
      honce.kept u (List.mem_append_right _ hmem) hu x hux] at hbyte
    exact hchanged hbyte.symm
  · intro hnone x hx _
    apply (kept_iff hs hwrite hx hbytes).mpr
    rintro post₁ t post₂ rfl hcovers -
    have ht : t ∈ post₁ ++ t :: post₂ := List.mem_append_right _ (List.mem_cons_self ..)
    refine absurd hcovers.2 (Set.disjoint_right.mp
      (honce.apart t (List.mem_append_right _ ht) hcovers.1 (hnone t ht)) ?_)
    rw [← size_of hs hswf]
    exact ⟨Nat.le_add_right .., Nat.add_lt_add_left hx _⟩

end Aliased

/-- **When the kernel's update of a buffer comes back.**  After a success, a byte of the slot of an argument
index is in the host buffer exactly when no later slot overwrites it; and the changes of a buffer with
storage of its own that was changed in one slot only are, exactly when the index is the last at which the
buffer is passed. -/
theorem clEnqueueNDRangeKernel_changes_iff (cmdq kernel : Ptr) (h : Host δ) (d : δ) (mem : δ → ByteMap)
    (he : h.Exact (ctxGetDevice h (cmdqGetContext h cmdq)) mem)
    (hret : (clEnqueueNDRangeKernel cmdq kernel h d).ret = clSuccess) (b : Ptr)
    (hwrite : memCanWrite (h.mems b) = true) (pre post : List Slot) (s : Slot)
    (hslots : launchSlots h kernel = pre ++ s :: post) (hs : s.Of b) :
    argList (h.kerns kernel) = pre.map Slot.arg ++ s.arg :: post.map Slot.arg ∧
      ∃ e, latest Event.isHeader (clEnqueueNDRangeKernel cmdq kernel h d).trace = some e ∧
        DoneHeader (h.prgs (kernGetProgram h kernel)).comm e ∧
        (∀ x < s.size.toNat,
          (clEnqueueNDRangeKernel cmdq kernel h d).host.bytes ((h.mems b).ptr + x) =
              mem e.devAfter (s.payload.toNat + x) ↔
            NotOverwritten h b s (mem e.devAfter) post x) ∧
        (ChangedOnce h b s (mem e.devAfter) (pre ++ post) →
          (ChangesKept h b s (mem e.devAfter) (clEnqueueNDRangeKernel cmdq kernel h d).host.bytes ↔
            ∀ t ∈ post, ¬ t.Of b)) := by
  obtain ⟨hargs, e, hlast, hdone, hbytes⟩ := broughtBack_of_success he hret
  rw [hslots] at hargs hbytes
  have hwf : ∀ t ∈ pre ++ s :: post, t.WellFormed h := by
    rw [← hslots]
    exact argSlots_wellFormed
  refine ⟨by rw [← hargs, List.map_append, List.map_cons], e, hlast, hdone, fun x hx => ?_, fun honce => ?_⟩
  · exact kept_iff hs hwrite hx hbytes
  · exact changesKept_iff hs hwf hwrite honce hbytes

/-! ## A buffer that is passed twice -/

/-- The buffer `9` is argument zero and argument one. -/
def twiceKernel : ClKernel :=
  ⟨openclIcdMagic, 1, plainKernel.name, 2, [⟨commArgMem, 0, 8, .addr 9⟩, ⟨commArgMem, 1, 8, .addr 9⟩], rfl⟩

/-- The buffer has four bytes at `200`.  The kernel stores `0x77` to the slot at `slot`, and sets `done`. -/
def twiceHost (slot : Nat) : Host ByteMap :=
  .single (fun x => UInt8.ofNat x) (memoryOps fun m => (m.store slot [0x77]).store 0x80001008 [1])
    (textProgram ⟨0x80001000, 0x1000⟩) twiceKernel fun _ => ⟨openclIcdMagic, clMemReadWrite, 4, 200⟩

theorem twiceHost_exact (slot : Nat) : (twiceHost slot).Exact 1 id := by
  rintro ops hops
  cases hops
  exact memoryOps_exact _

/-- What is stored to the last slot comes back. -/
theorem twice_last :
    ∃ e, latest Event.isHeader
        (clEnqueueNDRangeKernel 1 1 (twiceHost 0x80001050) fun _ => 0xaa).trace = some e ∧
      ChangesKept (twiceHost 0x80001050) 9 ⟨⟨commArgMem, 1, 8, .addr 9⟩, 0x80001040, .addr 200, 4, true⟩
        e.devAfter (clEnqueueNDRangeKernel 1 1 (twiceHost 0x80001050) fun _ => 0xaa).host.bytes := by
  obtain ⟨-, e, hlast, -, hkept, -⟩ := clEnqueueNDRangeKernel_changes_iff 1 1 (twiceHost 0x80001050)
    (fun _ => 0xaa) id (twiceHost_exact _) (by decide +kernel) 9 (by decide)
    ((launchSlots (twiceHost 0x80001050) 1).take 2) []
    ⟨⟨commArgMem, 1, 8, .addr 9⟩, 0x80001040, .addr 200, 4, true⟩ rfl ⟨rfl, rfl⟩
  refine ⟨e, hlast, fun x hx _ => (hkept x hx).mpr ?_⟩
  rintro (_ | _) t post₂ hnil
  · cases hnil
  · cases hnil

/-- What is stored to the first slot is lost, though the launch succeeds. -/
theorem twice_lost :
    (clEnqueueNDRangeKernel 1 1 (twiceHost 0x80001038) fun _ => 0xaa).ret = clSuccess ∧
      ¬ ∀ e, latest Event.isHeader
          (clEnqueueNDRangeKernel 1 1 (twiceHost 0x80001038) fun _ => 0xaa).trace = some e →
        ChangesKept (twiceHost 0x80001038) 9 ⟨⟨commArgMem, 0, 8, .addr 9⟩, 0x80001028, .addr 200, 4, true⟩
          e.devAfter (clEnqueueNDRangeKernel 1 1 (twiceHost 0x80001038) fun _ => 0xaa).host.bytes := by
  refine ⟨by decide +kernel, fun hclaim => ?_⟩
  have hdone : ((latest Event.isHeader (clEnqueueNDRangeKernel 1 1 (twiceHost 0x80001038)
      fun _ => 0xaa).trace).map fun e => e.devAfter 0x80001038) = some 0x77 := by decide +kernel
  obtain ⟨e, he, hbyte⟩ := Option.map_eq_some_iff.mp hdone
  have hpay : (⟨⟨commArgMem, 0, 8, .addr 9⟩, 0x80001028, .addr 200, 4, true⟩ : Slot).payload.toNat + 0 =
      0x80001038 := by decide
  have hkept := hclaim e he 0 (by decide)
  rw [hpay, hbyte] at hkept
  exact absurd (hkept (by decide)) (by decide +kernel)

end BaremetalCrt
