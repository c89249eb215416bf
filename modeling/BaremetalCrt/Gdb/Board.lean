/-
# BaremetalCrt.Gdb.Board — a board behind a debug stub, and the two drivers that talk to it.

`Target` is what the runtime believes it has in front of it: memory, and a processor that runs or is halted.
`DebugStub` says what a stub does with the commands of the two drivers, console output and replies that come
late included.  Against such a stub both drivers do what the target does, operation by operation
(`gdbRemoteOpenocdOps_simulates`, `gdbRemoteQemuOps_simulates`): the packets, their acknowledgements and
their escapes, the pieces of a transfer, the chatter in front of a stop reply and the resynchronisation
behind it cancel out.

What is left open about the stub is how it keeps its state, how many packets of text it sends and when, and
what its target's reset and program do to the memory. At most `talk` packets come in front of a reply, so
that the loops of the drivers, which have no bound of their own, end.
-/
import BaremetalCrt.Gdb.Stub
import BaremetalCrt.Gdb.Resync
import BaremetalCrt.Launch.Target

namespace BaremetalCrt

open Lib

variable {σ : Type}

/-! ## The tables of the drivers -/

/-- A call as an operation of the device; `stuck` stands for the result of a call that never returns. -/
def returned {α : Type} (stuck : α) (m : Gdb σ α) (s : Port σ) : α × Port σ :=
  match m s with
  | (.ok a, s') => (a, s')
  | (.error _, s') => (stuck, s')

theorem returned_of_ok {α : Type} {stuck a : α} {m : Gdb σ α} {s s' : Port σ} (h : m s = (.ok a, s')) :
    returned stuck m s = (a, s') := by rw [returned, h]

theorem returned_of_error {α : Type} {stuck : α} {m : Gdb σ α} {e : Hang} {s s' : Port σ}
    (h : m s = (.error e, s')) : returned stuck m s = (stuck, s') := by rw [returned, h]

section Tables

variable (link : Link σ) (fuel : Nat) (stuck : ClInt)

/-- The operations that the two tables share, around their own reset and write. -/
def gdbRemoteOps (reset : Gdb σ ClInt) (write : UInt64 → List UInt8 → Gdb σ ClInt) : DevOps (Port σ) where
  reset := some (returned stuck reset)
  run := some (returned stuck (gdbRemoteRun (some link) fuel))
  stop := some (returned stuck (gdbRemoteStop (some link) fuel))
  readMem := some fun s paddr len =>
    returned (stuck, fun _ => none) (gdbRemoteReadMem (some link) fuel paddr len.toNat) s
  writeMem := some fun s paddr data => returned stuck (write paddr data) s

/-- `gdb_remote_openocd_ops`: the reset asks OpenOCD to halt, and memory is written with `X` packets. -/
def gdbRemoteOpenocdOps : DevOps (Port σ) :=
  gdbRemoteOps link fuel stuck (gdbRemoteOpenocdReset (some link) fuel) (gdbRemoteWriteBin (some link) fuel)

/-- `gdb_remote_qemu_ops`: the reset is that of QEMU's monitor, and memory is written with `M` packets. -/
def gdbRemoteQemuOps : DevOps (Port σ) :=
  gdbRemoteOps link fuel stuck (gdbRemoteQemuReset (some link) fuel) (gdbRemoteWriteMem (some link) fuel)

end Tables

/-! ## The stub -/

/-- A frame that fits the driver's buffer with an acknowledgement in front of it. -/
def Fits (p : Packet) : Prop := 1 + p.bytes.length ≤ buflen

/-- `O` and the digits of a text: output of the target, or of the stub itself. -/
def IsOutput (p : Packet) : Prop := Fits p ∧ ∃ text, p.body = 0x4f :: hexBytes text

/-- The processor was stopped, or the program has ended. -/
def IsStopReply (p : Packet) : Prop := Fits p ∧ (p.body.head? = some 0x54 ∨ p.body.head? = some 0x57)

theorem fits_emptyReply : Fits emptyReply := (by decide : 1 + emptyReply.bytes.length ≤ 4096)

/-- Any packet but the empty reply: what the resynchronisation reads and drops. -/
def IsLate (p : Packet) : Prop := Fits p ∧ p.body ≠ [] ∧ 0 ∉ p.body

/-- A stub in front of a target: halted with a memory and bytes under way to the host, or running with `+`
for the command that made it run.  At most `talk` packets come in front of a reply, and behind it. -/
structure DebugStub (link : Link σ) (talk : Nat) (Halted : ByteMap → List UInt8 → σ → Prop)
    (Running : ByteMap → σ → Prop) (reset go : ByteMap → ByteMap) : Prop extends Listens link Halted where
  stack : ∀ {l m w}, Halted m w l → Halted m w (link.stack l).2
  writeMem : ∀ {l m cmd addr data}, Halted m [] l → parseWriteMem cmd = some (addr, data) →
    Takes link (Halted (m.store addr data)) l cmd (Single (· = ascii "OK"))
  writeBin : ∀ {l m cmd addr data}, Halted m [] l → parseWriteBin cmd = some (addr, data) →
    Takes link (Halted (m.store addr data)) l cmd (Single (· = ascii "OK"))
  readMem : ∀ {l m cmd addr len}, Halted m [] l → parseRead cmd = some (addr, len) →
    Takes link (Halted m) l cmd (Single fun body => unhexBytes body = some (m.load addr len))
  openocdReset : ∀ {l m}, Halted m [] l → Takes link (Halted (reset m)) l openocdResetCmd fun ps =>
    ∃ chatter p, ps = chatter ++ [p] ∧ chatter.length ≤ talk ∧ (∀ q ∈ chatter, IsOutput q) ∧
      p.body = ascii "OK"
  qemuReset : ∀ {l m}, Halted m [] l →
    Takes link (Halted (reset m)) l qemuResetCmd (Single (· = ascii "OK"))
  run : ∀ {l m}, Halted m [] l → Takes link (fun w l' => w = [chPlus] ∧ Running m l') l runCmd (· = [])
  interrupt : ∀ {l m}, Running m l → ∃ l' chatter p late, link.send [0x03] l = (.count 1, l') ∧
    chatter.length ≤ talk ∧ (∀ q ∈ chatter, IsOutput q) ∧ IsStopReply p ∧
    late.length ≤ talk ∧ (∀ q ∈ late, IsLate q) ∧
    Halted (go m) (chPlus :: (chatter ++ p :: late).flatMap Packet.bytes) l'
  resync : ∀ {l m w}, Halted m w l →
    Takes link (fun v => Halted m (w ++ v)) l (ascii "vMustReplyEmpty") (· = [emptyReply])

/-! ## Control -/

section Control

variable {link : Link σ} {fuel talk : Nat} {Halted : ByteMap → List UInt8 → σ → Prop}
  {Running : ByteMap → σ → Prop} {reset go : ByteMap → ByteMap}

/-- A command that nothing is waited for behind. -/
theorem gdbRemoteSend_taken (hfuel : 0 < fuel) {Next : List UInt8 → σ → Prop} {cmd : List UInt8}
    {Reply : List Packet → Prop} {s : Port σ} (htakes : Takes link Next s.link cmd Reply) :
    ∃ s' ps, gdbRemoteSend link fuel cmd false s = (.ok clSuccess, s') ∧ Reply ps ∧
      Next (chPlus :: ps.flatMap Packet.bytes) s'.link := by
  obtain ⟨n, rfl⟩ : ∃ n, fuel = n + 1 := ⟨fuel - 1, by omega⟩
  have hpacket : unpack (Packet.command cmd).bytes = some (escape cmd, []) := by
    have h := unpack_bytes (Packet.command cmd) []
    rwa [List.append_nil] at h
  obtain ⟨l₁, ps, hsend, hreply, hnext⟩ := htakes _ _ hpacket (unescape_escape cmd)
  refine ⟨{ s with
    link := l₁
    wire := s.wire ++ [.sent (Packet.command cmd).bytes]
    log := s.log ++ [.send cmd clSuccess] }, ps, ?_, hreply, hnext⟩
  exact gdbRemoteSend_of_resend link (n + 1) (resend_once link (n + 1) hsend n)

variable (hstub : DebugStub link talk Halted Running reset go) (htalk : talk + 1 < fuel)
include hstub htalk

omit htalk in
/-- A packet that fits is received whole, with at most one acknowledgement in front of it. -/
theorem DebugStub.recv_fits {k cmdlen : Nat} {p : Packet} {m : ByteMap} {rest : List UInt8} {s : Port σ}
    (hk : k ≤ 1) (hfuel : 1 < fuel) (hp : Fits p) (hlen : 4095 ≤ cmdlen)
    (hat : Halted m (List.replicate k chPlus ++ p.bytes ++ rest) s.link) :
    Exec.wp (gdbRemoteRecv link fuel cmdlen true)
      (fun out s' => out = (clSuccess, p.body ++ [0]) ∧ Halted m rest s'.link) (fun _ _ => False) s := by
  have hfits : 1 + p.bytes.length ≤ 4096 := hp
  have hbody : p.body.length + 4 = p.bytes.length := p.length_bytes.symm
  refine (hstub.gdbRemoteRecv fuel hat (by omega) ?_).mono (fun out s' h => ⟨?_, h.2.1⟩) fun _ _ h => h
  · unfold buflen
    omega
  · rw [h.1, show payloadRet cmdlen p.body.length = clSuccess from if_pos (by omega),
      List.take_of_length_le (by omega)]

/-- The loop of a resynchronisation, behind the request. -/
theorem DebugStub.discardLoop {m : ByteMap} (late : List Packet) : ∀ (n : Nat) (first : UInt8) (s : Port σ),
    late.length < n → (∀ q ∈ late, IsLate q) →
    Halted m (late.flatMap Packet.bytes ++ chPlus :: emptyReply.bytes) s.link →
    Exec.wp (BaremetalCrt.discardLoop link fuel first n) (fun _ s' => Halted m [] s'.link)
      (fun _ _ => False) s := by
  induction late with
  | nil =>
    intro n first s hn _ hat
    obtain ⟨n, rfl⟩ : ∃ i, n = i + 1 := ⟨n - 1, by omega⟩
    have hone : Halted m (List.replicate 1 chPlus ++ emptyReply.bytes ++ []) s.link := by simpa using hat
    rw [BaremetalCrt.discardLoop, Exec.wp_bind]
    refine (hstub.recv_fits (Nat.le_refl 1) (by omega) fits_emptyReply (by decide) hone).mono ?_ fun _ _ h => h
    rintro _ s₁ ⟨rfl, h₁⟩
    exact Exec.wp_ite.mpr ⟨fun _ => h₁, fun hmore => absurd rfl hmore⟩
  | cons p late ih =>
    intro n first s hn hlate hat
    obtain ⟨n, rfl⟩ : ∃ i, n = i + 1 := ⟨n - 1, by omega⟩
    obtain ⟨hfits, hbody, hnul⟩ := hlate p (List.mem_cons_self ..)
    rw [List.flatMap_cons, List.append_assoc] at hat
    rw [BaremetalCrt.discardLoop, Exec.wp_bind]
    refine (hstub.recv_fits (Nat.zero_le 1) (by omega) hfits (by decide) hat).mono ?_ fun _ _ h => h
    rintro _ s₁ ⟨rfl, h₁⟩
    -- a payload that does not begin with NUL is not the empty one
    have hne : (p.body ++ [0]).headD first ≠ 0 := by
      obtain ⟨b, bs, hcons⟩ := List.exists_cons_of_ne_nil hbody
      rw [hcons]
      rintro rfl
      exact hnul (hcons ▸ List.mem_cons_self ..)
    refine Exec.wp_ite.mpr ⟨fun hzero => absurd hzero hne, fun _ => ?_⟩
    rw [List.length_cons] at hn
    exact ih n _ s₁ (by omega) (fun q hq => hlate q (List.mem_cons_of_mem p hq)) h₁

/-- Whatever came late is dropped. -/
theorem DebugStub.gdbRemoteDiscardAll {m : ByteMap} {late : List Packet} {s : Port σ}
    (hlen : late.length ≤ talk) (hlate : ∀ q ∈ late, IsLate q)
    (hat : Halted m (late.flatMap Packet.bytes) s.link) :
    Exec.wp (BaremetalCrt.gdbRemoteDiscardAll link fuel) (fun _ s' => Halted m [] s'.link)
      (fun _ _ => False) s := by
  have hstack := hstub.stack hat
  rw [BaremetalCrt.gdbRemoteDiscardAll, Exec.wp_bind]
  show Exec.wp _ _ _ { s with link := (link.stack s.link).2 }
  obtain ⟨s₁, ps, hsend, rfl, h₁⟩ := gdbRemoteSend_taken (s := { s with link := (link.stack s.link).2 })
    (show 0 < fuel by omega) (hstub.resync hstack)
  rw [Exec.wp_bind, Exec.wp_of_ok hsend, Exec.wp_bind]
  rw [List.flatMap_singleton] at h₁
  exact (hstub.discardLoop htalk late fuel _ s₁ (by omega) hlate h₁).mono (fun _ _ h => h) fun _ _ h => h

/-- The loop of a stop: the output is passed over, and the stop reply ends it. -/
theorem DebugStub.stopLoop {m : ByteMap} {p : Packet} {late : List Packet} (hstop : IsStopReply p)
    (hlen : late.length ≤ talk) (hlate : ∀ q ∈ late, IsLate q) (chatter : List Packet) :
    ∀ (k n : Nat) (s : Port σ), k ≤ 1 → chatter.length < n → (∀ q ∈ chatter, IsOutput q) →
      Halted m (List.replicate k chPlus ++ (chatter ++ p :: late).flatMap Packet.bytes) s.link →
      Exec.wp (BaremetalCrt.stopLoop link fuel n) (fun r s' => r = clSuccess ∧ Halted m [] s'.link)
        (fun _ _ => False) s := by
  induction chatter with
  | nil =>
    intro k n s hk hn _ hat
    obtain ⟨n, rfl⟩ : ∃ i, n = i + 1 := ⟨n - 1, by omega⟩
    rw [List.nil_append, List.flatMap_cons, ← List.append_assoc] at hat
    rw [BaremetalCrt.stopLoop, Exec.wp_bind]
    refine (hstub.recv_fits hk (by omega) hstop.1 (by decide) hat).mono ?_ fun _ _ h => h
    rintro _ s₁ ⟨rfl, h₁⟩
    have hhead : (p.body ++ [0]).headD 0 = 0x54 ∨ (p.body ++ [0]).headD 0 = 0x57 := by
      have h := hstop.2
      cases hbody : p.body with
      | nil => simp [hbody] at h
      | cons b bs => simpa [hbody] using h
    have hnot : (p.body ++ [0]).headD 0 ≠ 0x4f := by
      rcases hhead with h | h <;> rw [h] <;> decide
    refine Exec.wp_ite.mpr ⟨fun h => absurd rfl h, fun _ => Exec.wp_ite.mpr
      ⟨fun h => absurd h hnot, fun _ => Exec.wp_ite.mpr ⟨fun _ => ?_, fun h => absurd hhead h⟩⟩⟩
    rw [Exec.wp_bind]
    exact (hstub.gdbRemoteDiscardAll htalk hlen hlate h₁).mono (fun _ _ h => ⟨rfl, h⟩) fun _ _ h => h
  | cons q chatter ih =>
    intro k n s hk hn hconsole hat
    obtain ⟨n, rfl⟩ : ∃ i, n = i + 1 := ⟨n - 1, by omega⟩
    obtain ⟨hfits, text, hbody⟩ := hconsole q (List.mem_cons_self ..)
    rw [List.cons_append, List.flatMap_cons, ← List.append_assoc] at hat
    rw [BaremetalCrt.stopLoop, Exec.wp_bind]
    refine (hstub.recv_fits hk (by omega) hfits (by decide) hat).mono ?_ fun _ _ h => h
    rintro _ s₁ ⟨rfl, h₁⟩
    have hhead : (q.body ++ [0]).headD 0 = 0x4f := by rw [hbody]; rfl
    refine Exec.wp_ite.mpr ⟨fun h => absurd rfl h, fun _ => Exec.wp_ite.mpr
      ⟨fun _ => ?_, fun h => absurd hhead h⟩⟩
    rw [List.length_cons] at hn
    exact ih 0 n s₁ (Nat.zero_le 1) (by omega) (fun x hx => hconsole x (List.mem_cons_of_mem q hx)) h₁

/-- The loop of OpenOCD's reset: the output is passed over up to `OK`. -/
theorem DebugStub.openocdResetLoop {m : ByteMap} {p : Packet} (hok : p.body = ascii "OK")
    (chatter : List Packet) : ∀ (n : Nat) (s : Port σ), chatter.length < n → (∀ q ∈ chatter, IsOutput q) →
      Halted m ((chatter ++ [p]).flatMap Packet.bytes) s.link →
      Exec.wp (BaremetalCrt.openocdResetLoop link fuel n) (fun r s' => r = clSuccess ∧ Halted m [] s'.link)
        (fun _ _ => False) s := by
  induction chatter with
  | nil =>
    intro n s hn _ hat
    obtain ⟨n, rfl⟩ : ∃ i, n = i + 1 := ⟨n - 1, by omega⟩
    have hfits : Fits p := by
      show 1 + p.bytes.length ≤ buflen
      rw [Packet.length_bytes, hok]
      decide
    rw [List.nil_append, List.flatMap_cons] at hat
    rw [BaremetalCrt.openocdResetLoop, Exec.wp_bind]
    refine (hstub.recv_fits (Nat.zero_le 1) (by omega) hfits (by decide) hat).mono ?_ fun _ _ h => h
    rintro _ s₁ ⟨rfl, h₁⟩
    have hcstr : cstr (p.body ++ [0]) = ascii "OK" := by rw [hok]; decide
    exact Exec.wp_ite.mpr ⟨fun h => absurd rfl h, fun _ => Exec.wp_ite.mpr
      ⟨fun _ => ⟨rfl, h₁⟩, fun h => absurd hcstr h⟩⟩
  | cons q chatter ih =>
    intro n s hn hconsole hat
    obtain ⟨n, rfl⟩ : ∃ i, n = i + 1 := ⟨n - 1, by omega⟩
    obtain ⟨hfits, text, hbody⟩ := hconsole q (List.mem_cons_self ..)
    rw [List.cons_append, List.flatMap_cons] at hat
    rw [BaremetalCrt.openocdResetLoop, Exec.wp_bind]
    refine (hstub.recv_fits (Nat.zero_le 1) (by omega) hfits (by decide) hat).mono ?_ fun _ _ h => h
    rintro _ s₁ ⟨rfl, h₁⟩
    -- behind the `O` the digits come in pairs
    have hcstr : cstr (q.body ++ [0]) ≠ ascii "OK" := by
      intro h
      have hpos : ∀ c ∈ q.body, decide (c ≠ 0) = true := by
        intro c hc
        rw [hbody] at hc
        rcases List.mem_cons.mp hc with rfl | hc
        · decide
        · exact decide_eq_true (plain_of_isSome_hexVal (isSome_hexVal_of_mem_hexBytes hc)).2.2.2
      rw [cstr, List.takeWhile_append_of_pos hpos, hbody] at h
      have hlength := congrArg List.length h
      simp [ascii] at hlength
    refine Exec.wp_ite.mpr ⟨fun h => absurd rfl h, fun _ => Exec.wp_ite.mpr
      ⟨fun h => absurd h hcstr, fun _ => ?_⟩⟩
    rw [List.length_cons] at hn
    exact ih n s₁ (by omega) (fun x hx => hconsole x (List.mem_cons_of_mem q hx)) h₁

end Control

/-! ## The drivers do what the target does -/

/-- The target, and the stub that stands for it with nothing under way but the `+` of a run. -/
def Wired (Halted : ByteMap → List UInt8 → σ → Prop) (Running : ByteMap → σ → Prop) (d : Target)
    (s : Port σ) : Prop :=
  if d.running then Running d.mem s.link else Halted d.mem [] s.link

section Drivers

variable {link : Link σ} {fuel talk : Nat} {Halted : ByteMap → List UInt8 → σ → Prop}
  {Running : ByteMap → σ → Prop} {reset go : ByteMap → ByteMap}

theorem wired_halted {d : Target} {s : Port σ} (hd : d.running = false) :
    Wired Halted Running d s ↔ Halted d.mem [] s.link := by rw [Wired, hd, if_neg (by simp)]

theorem wired_running {d : Target} {s : Port σ} (hd : d.running = true) :
    Wired Halted Running d s ↔ Running d.mem s.link := by rw [Wired, hd, if_pos rfl]

/-- A call that succeeds and leaves the board halted. -/
theorem does_halted {q : Request} {f : Target → ClInt × Target} {m : Gdb σ ClInt} {stuck : ClInt}
    (hf : ∀ d, (f d).1 = clSuccess) (hhalt : ∀ d, Target.Admits q d → (f d).2.running = false)
    (hrun : ∀ d s, Target.Admits q d → Wired Halted Running d s →
      Exec.wp m (fun r s' => r = clSuccess ∧ Halted (f d).2.mem [] s'.link) (fun _ _ => False) s) :
    Does Target.Admits (Wired Halted Running) q Eq f (returned stuck m) := by
  intro d s hA hR
  have hwp := hrun d s hA hR
  rcases hm : m s with ⟨e | r, s'⟩
  · exact (hwp.error hm).elim
  · obtain ⟨rfl, hhalted⟩ := hwp.ok hm
    rw [returned_of_ok hm]
    exact ⟨hf d, (wired_halted (hhalt d hA)).mpr hhalted⟩

variable (hstub : DebugStub link talk Halted Running reset go) (htalk : talk + 1 < fuel) (stuck : ClInt)
include hstub htalk

/-- The run, the stop and the read are those of the target; the reset and the write are left to show. -/
theorem DebugStub.gdbRemoteOps_simulates {resetOp : Gdb σ ClInt} {write : UInt64 → List UInt8 → Gdb σ ClInt}
    (hreset : ∀ m s, Halted m [] s.link → Exec.wp resetOp
      (fun r s' => r = clSuccess ∧ Halted (reset m) [] s'.link) (fun _ _ => False) s)
    (hwrite : ∀ m s paddr data, paddr.toNat + data.length ≤ 2 ^ 64 → Halted m [] s.link →
      ∃ s', write paddr data s = (.ok clSuccess, s') ∧ Halted (m.store paddr.toNat data) [] s'.link) :
    DevOps.Simulates Target.Admits (Wired Halted Running) (targetOps reset go)
      (gdbRemoteOps link fuel stuck resetOp write) where
  reset := .some <| does_halted (fun _ => rfl) (fun _ _ => rfl) fun d s hA hR =>
    hreset d.mem s ((wired_halted hA).mp hR)
  run := by
    refine .some fun d s hA hR => ?_
    obtain ⟨s', ps, hsend, rfl, -, hrunning⟩ := gdbRemoteSend_taken (show 0 < fuel by omega)
      (hstub.run ((wired_halted hA).mp hR))
    rw [returned_of_ok (show gdbRemoteRun (some link) fuel s = _ from hsend)]
    exact ⟨rfl, hrunning⟩
  stop := by
    refine .some <| does_halted (fun _ => rfl) (fun _ _ => rfl) fun d s hA hR => ?_
    obtain ⟨l', chatter, p, late, hsend, hchatter, hconsole, hstop, hlen, hlate, hhalted⟩ :=
      hstub.interrupt ((wired_running hA).mp hR)
    show Exec.wp (do
      let _ ← gdbRemoteSendInterrupt link
      BaremetalCrt.stopLoop link fuel fuel) _ _ s
    rw [Exec.wp_bind, gdbRemoteSendInterrupt, Exec.wp_bind, Exec.wp_of_ok (sockSend_whole link hsend),
      if_neg (by simp)]
    exact hstub.stopLoop htalk hstop hlen hlate chatter 1 fuel _ (Nat.le_refl 1) (by omega) hconsole hhalted
  read := by
    refine .some fun paddr len d s hA hR => ?_
    obtain ⟨hd, hfit⟩ := hA
    have hidle := (wired_halted hd).mp hR
    obtain ⟨got, s', hrun, hgot, hhalted⟩ := hstub.gdbRemoteReadMem fuel (by omega)
      (fun q n hn hq l hl => hstub.readMem hl (parseRead_request hq hn)) hfit hidle
    beta_reduce
    rw [returned_of_ok hrun]
    exact ⟨⟨rfl, fun i hi => (hgot i hi).symm⟩, (wired_halted hd).mpr hhalted⟩
  write := by
    refine .some fun paddr data d s hA hR => ?_
    obtain ⟨hd, hfit⟩ := hA
    obtain ⟨s', hrun, hhalted⟩ := hwrite d.mem s paddr data hfit ((wired_halted hd).mp hR)
    beta_reduce
    rw [returned_of_ok hrun]
    exact ⟨rfl, (wired_halted (d := ⟨d.mem.store paddr.toNat data, d.running⟩) hd).mpr hhalted⟩

theorem DebugStub.gdbRemoteOpenocdReset {m : ByteMap} {s : Port σ} (hat : Halted m [] s.link) :
    Exec.wp (BaremetalCrt.gdbRemoteOpenocdReset (some link) fuel)
      (fun r s' => r = clSuccess ∧ Halted (reset m) [] s'.link) (fun _ _ => False) s := by
  obtain ⟨s₁, ps, hsend, ⟨chatter, p, rfl, hlen, hconsole, hok⟩, h₁, -⟩ :=
    hstub.gdbRemoteSend fuel (by omega) (hstub.openocdReset hat)
  rw [BaremetalCrt.gdbRemoteOpenocdReset, Exec.wp_bind, Exec.wp_of_ok hsend]
  exact Exec.wp_ite.mpr ⟨fun h => absurd rfl h, fun _ =>
    hstub.openocdResetLoop htalk hok chatter fuel s₁ (by omega) hconsole h₁⟩

theorem DebugStub.gdbRemoteQemuReset {m : ByteMap} {s : Port σ} (hat : Halted m [] s.link) :
    Exec.wp (BaremetalCrt.gdbRemoteQemuReset (some link) fuel)
      (fun r s' => r = clSuccess ∧ Halted (reset m) [] s'.link) (fun _ _ => False) s := by
  obtain ⟨s₁, ps, hsend, ⟨p, rfl, hok⟩, h₁, -⟩ := hstub.gdbRemoteSend fuel (by omega) (hstub.qemuReset hat)
  have hlen : p.bytes.length = 6 := by
    rw [Packet.length_bytes, hok]
    rfl
  rw [BaremetalCrt.gdbRemoteQemuReset, Exec.wp_bind, Exec.wp_of_ok hsend]
  refine Exec.wp_ite.mpr ⟨fun h => absurd rfl h, fun _ => ?_⟩
  rw [Exec.wp_bind]
  refine (hstub.gdbRemoteRecv fuel (k := 0) h₁ (by omega) (by unfold buflen; omega)).mono ?_ fun _ _ h => h
  rintro _ s₂ ⟨rfl, h₂, -⟩
  rw [hok]
  exact ⟨rfl, h₂⟩

/-- **OpenOCD's driver does what the target does.** -/
theorem DebugStub.gdbRemoteOpenocdOps_simulates :
    DevOps.Simulates Target.Admits (Wired Halted Running) (targetOps reset go)
      (gdbRemoteOpenocdOps link fuel stuck) := by
  refine hstub.gdbRemoteOps_simulates htalk stuck (fun _ _ h => hstub.gdbRemoteOpenocdReset htalk h) ?_
  intro m s paddr data hfit hidle
  obtain ⟨s', hrun, hhalted, -⟩ := hstub.writePieces fuel (by omega)
    (fun q cs _ l m hl => hstub.writeBin hl (parseWriteBin_request q cs))
    (fun q cs hcs => length_writeBinRequest_frame_le q hcs) hfit hidle
  exact ⟨s', hrun, hhalted⟩

/-- **QEMU's driver does what the target does.** -/
theorem DebugStub.gdbRemoteQemuOps_simulates :
    DevOps.Simulates Target.Admits (Wired Halted Running) (targetOps reset go)
      (gdbRemoteQemuOps link fuel stuck) := by
  refine hstub.gdbRemoteOps_simulates htalk stuck (fun _ _ h => hstub.gdbRemoteQemuReset htalk h) ?_
  intro m s paddr data hfit hidle
  obtain ⟨s', hrun, hhalted, -⟩ := hstub.writePieces fuel (by omega)
    (fun q cs hcs l m hl => hstub.writeMem hl (parseWriteMem_request q hcs))
    (fun q cs hcs => length_writeMemRequest_frame_le q hcs) hfit hidle
  exact ⟨s', hrun, hhalted⟩

end Drivers

end BaremetalCrt
