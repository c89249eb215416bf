/-
# BaremetalCrt.Gdb.Session — a session with a stub stays in step.

Every operation of the driver starts and ends with both ends at rest (`InStep`), whenever the stub and the
link do their part in between, with one exception: a read whose allocation fails returns with its request
answered and the answer unread.  In a session of operations that avoid it, each packet that a receive
takes is the stub's answer to the last command that was sent, but for a late stop packet, which the
resynchronisation discards, and gets its one `+`.

The parts of the file are the calls on the host's side, each with what it does to the dialog; one command
with its reply; a stub of its own, which serves every command at once and shows that such links exist; and
the sessions. `session_inStep` is over all operations in any order. Where the condition is not met is shown
at the end: behind a read that had no memory, every later read takes the reply to the one before it.
-/
import BaremetalCrt.Gdb.Dialogs
import BaremetalCrt.Gdb.Requests

namespace BaremetalCrt

open Lib

variable {σ : Type}

/-! ## What an operation did -/

/-- The packet answers the command; or it is a stop packet that came late, and the command
resynchronises. -/
def OwnReply (n : Nat) (cmd : List UInt8) (r : Reply) : Prop :=
  r.cause = some (n, cmd) ∨ r.cause = none ∧ cmd = resyncCmd ∧ IsStop r.packet.body

/-- The calls of an operation that began with command number `n₀`, and the packets that its receives took:
`n` is the number of its next command, and `cur` the text of its last. -/
inductive Acted (n₀ : Nat) : List GdbCall → Nat → Option (List UInt8) → List Reply → Prop
  | nil : Acted n₀ [] n₀ none []
  | send {es : List GdbCall} {n : Nat} {cur : Option (List UInt8)} {rs : List Reply} (cmd : List UInt8)
      (h : Acted n₀ es n cur rs) : Acted n₀ (es ++ [.send cmd clSuccess]) (n + 1) (some cmd) rs
  | recv {es : List GdbCall} {n : Nat} {cmd : List UInt8} {rs : List Reply} {r : Reply} (k : Nat)
      (ret : ClInt) (h : Acted n₀ es (n + 1) (some cmd) rs) (own : OwnReply n cmd r) :
      Acted n₀
        (es ++ [.recv ((List.replicate k chPlus ++ r.packet.bytes).map .byte) (some chPlus) ret])
        (n + 1) (some cmd) (rs ++ [r])
  | interrupt {es : List GdbCall} {n : Nat} {cur : Option (List UInt8)} {rs : List Reply} (ret : ClInt)
      (h : Acted n₀ es n cur rs) : Acted n₀ (es ++ [.interrupt ret]) n cur rs
  | calloc {es : List GdbCall} {n : Nat} {cur : Option (List UInt8)} {rs : List Reply} (ok : Bool)
      (h : Acted n₀ es n cur rs) : Acted n₀ (es ++ [.calloc ok]) n cur rs

section Operation

variable (view : σ → World) (s₀ : Port σ)

/-- An operation that began at `s₀` has come to `s`, where the dialog has `P`. -/
def At (es : List GdbCall) (n : Nat) (cur : Option (List UInt8)) (P : Dialog → Prop) (s : Port σ) : Prop :=
  ∃ rs a, s.log = s₀.log ++ es ∧ Acted (view s₀.link).taken es n cur rs ∧
    Shows (view s.link) [] 0 ((view s₀.link).put ++ rs).length ((view s₀.link).put ++ rs) a ∧ P a

/-- It has acted on its own replies only, wherever it is. -/
def Acts (s : Port σ) : Prop :=
  ∃ es n cur rs, s.log = s₀.log ++ es ∧ Acted (view s₀.link).taken es n cur rs ∧
    (view s₀.link).put ++ rs <+: (view s.link).put

/-- It has acted so, and both ends are in step again unless an allocation failed. -/
def Done (s : Port σ) : Prop :=
  Acts view s₀ s ∧ ∀ es, s.log = s₀.log ++ es → .calloc false ∉ es → InStep (view s.link)

variable {view s₀} {es : List GdbCall} {n : Nat} {cur : Option (List UInt8)} {P : Dialog → Prop}
  {s s' : Port σ}

theorem At.acts (h : At view s₀ es n cur P s) : Acts view s₀ s := by
  obtain ⟨rs, a, hlog, hacted, hshows, -⟩ := h
  exact ⟨es, n, cur, rs, hlog, hacted, hshows.put_prefix⟩

/-- At rest both ends are in step. -/
theorem At.inStep {m : Nat} (h : At view s₀ es n cur (· = .idle m) s) : InStep (view s.link) := by
  obtain ⟨rs, a, -, -, hshows, rfl⟩ := h
  have hput : (view s.link).put = (view s₀.link).put ++ rs := by
    rw [hshows.put]
    exact List.append_nil _
  apply inStep_iff.mpr
  rw [hput, hshows.taken]
  exact hshows

/-- An operation begins at rest. -/
theorem At.start (h : InStep (view s₀.link)) :
    At view s₀ [] (view s₀.link).taken none (· = .idle (view s₀.link).taken) s₀ := by
  refine ⟨[], _, (List.append_nil _).symm, .nil, ?_, rfl⟩
  rw [List.append_nil]
  exact inStep_iff.mp h

theorem At.mono {Q : Dialog → Prop} (h : At view s₀ es n cur P s) (hPQ : ∀ a, P a → Q a) :
    At view s₀ es n cur Q s := by
  obtain ⟨rs, a, hlog, hacted, hshows, ha⟩ := h
  exact ⟨rs, a, hlog, hacted, hshows, hPQ a ha⟩

/-- The link alone moves. -/
theorem At.steps (hP : Kept P) (h : At view s₀ es n cur P s) (hlog : s'.log = s.log)
    (steps : StubSteps (view s.link) (view s'.link)) : At view s₀ es n cur P s' := by
  obtain ⟨rs, a, hlog₀, hacted, hshows, ha⟩ := h
  obtain ⟨a', hshows', ha'⟩ := hshows.stubSteps hP ha steps
  exact ⟨rs, a', hlog.trans hlog₀, hacted, hshows', ha'⟩

/-- A stop on the way leaves what was done. -/
theorem At.stuck (h : At view s₀ es n cur P s) (hlog : s'.log = s.log)
    (hput : (view s.link).put <+: (view s'.link).put) : Acts view s₀ s' := by
  obtain ⟨es, n, cur, rs, hlog₀, hacted, hpre⟩ := h.acts
  exact ⟨es, n, cur, rs, hlog.trans hlog₀, hacted, hpre.trans hput⟩

end Operation

theorem StubSteps.put_prefix {w w' : World} (h : StubSteps w w') : w.put <+: w'.put := by
  induction h with
  | refl => exact List.prefix_refl _
  | tail _ step ih =>
    apply ih.trans
    cases step with
    | reply => exact List.prefix_append ..
    | late => exact List.prefix_append ..
    | ack => exact List.prefix_refl _
    | take => exact List.prefix_refl _
    | interrupt => exact List.prefix_refl _

theorem Shows.relax {w : World} {front : List UInt8} {k m : Nat} {done : List Reply} {a : Dialog}
    (h : Shows w front k m done a) : Shows w front 0 m done a := by
  obtain ⟨hshort, hlead⟩ := Short.mono (Nat.zero_le k) h.short
  exact ⟨h.mode, h.taken, h.toHost, h.queue, h.put, hshort, Nat.le_trans hlead h.lead⟩

/-! ## The host's calls -/

section Calls

variable {link : Link σ} {view : σ → World} (conf : Conforms link view) (fuel : Nat)

include conf

theorem Conforms.send_cases (bs : List UInt8) (l : σ) :
    (∃ w, StubSteps (view l) w ∧ (link.send bs l).1 = .count bs.length ∧
        view (link.send bs l).2 = { w with toStub := w.toStub ++ bs }) ∨
      (link.send bs l).1 = .blocked ∧ StubSteps (view l) (view (link.send bs l).2) := by
  have h := conf.send bs l
  generalize hr : (link.send bs l).1 = r at h
  generalize hw : view (link.send bs l).2 = w at h
  cases h with
  | count steps => exact Or.inl ⟨_, steps, rfl, rfl⟩
  | blocked steps => exact Or.inr ⟨rfl, steps⟩

variable {s₀ : Port σ} {es : List GdbCall} {n : Nat} {cur : Option (List UInt8)} {P : Dialog → Prop}

/-- The dialog with one more message for the stub. -/
def Dialog.push (a : Dialog) (x : Item) : Dialog := { a with items := a.items ++ [x] }

omit conf in
/-- A message that was sent is under way. -/
theorem Shows.push {w : World} {k m : Nat} {done : List Reply} {a : Dialog} (h : Shows w [] k m done a)
    (x : Item) : Shows { w with toStub := w.toStub ++ x.bytes } [] k m done (a.push x) := by
  obtain ⟨i, hqueue, hacked⟩ := h.queue
  exact ⟨h.mode, h.taken, h.toHost, ⟨i, hqueue.snoc x, hacked⟩, h.put, h.short, h.lead⟩

/-- What a `send` of a message leads to: it is under way, or the call does not return. -/
theorem wp_sockSend_item (hP : Kept P) (x : Item) {s : Port σ} (h : At view s₀ es n cur P s) :
    Exec.wp (sockSend link x.bytes)
      (fun nsent s' => nsent = .count x.bytes.length ∧
          At view s₀ es n cur (fun a => ∃ b, P b ∧ a = b.push x) s' ∨
        nsent = .blocked ∧ Acts view s₀ s')
      (fun _ _ => False) s := by
  obtain ⟨w, steps, hcount, hview⟩ | ⟨hblocked, steps⟩ := conf.send_cases x.bytes s.link
  · obtain ⟨rs, a, hlog, hacted, hshows, ha⟩ := h
    obtain ⟨a', hshows', ha'⟩ := hshows.stubSteps hP ha steps
    refine Or.inl ⟨hcount, rs, a'.push x, hlog, hacted, ?_, a', ha', rfl⟩
    show Shows (view (link.send x.bytes s.link).2) _ _ _ _ _
    rw [hview]
    exact hshows'.push x
  · have hstuck (s' : Port σ) (hlog : s'.log = s.log) (hlink : s'.link = (link.send x.bytes s.link).2) :
        Acts view s₀ s' := by
      apply h.stuck hlog
      rw [hlink]
      exact steps.put_prefix
    exact Or.inr ⟨hblocked, hstuck _ rfl rfl⟩

/-- A command that is not waited for. -/
theorem wp_gdbRemoteSend_push (hfuel : 0 < fuel) (hP : Kept P) (cmd : List UInt8) {s : Port σ}
    (h : At view s₀ es n cur P s) :
    Exec.wp (gdbRemoteSend link fuel cmd false)
      (fun r s' => r = clSuccess ∧ At view s₀ (es ++ [.send cmd clSuccess]) (n + 1) (some cmd)
        (fun a => ∃ b, P b ∧ a = b.push (.command cmd)) s')
      (fun _ s' => Acts view s₀ s') s := by
  obtain ⟨N, rfl⟩ : ∃ N, fuel = N + 1 := ⟨fuel - 1, by omega⟩
  rw [gdbRemoteSend, Exec.wp_bind, sendFrame, gdbFrame_eq]
  show Exec.wp (resend link (N + 1) (Item.command cmd).bytes false (N + 1)) _ _ s
  rw [resend, Exec.wp_bind]
  refine (wp_sockSend_item conf hP (.command cmd) h).mono (fun nsent s₁ h₁ => ?_) fun _ _ => False.elim
  obtain ⟨rfl, rs, a, hlog, hacted, hshows, ha⟩ | ⟨rfl, hacts⟩ := h₁
  · refine Exec.wp_ite.mpr ⟨fun h => (by cases h), fun _ => ?_⟩
    refine Exec.wp_ite.mpr ⟨fun h => absurd rfl h, fun _ => ?_⟩
    refine ⟨rfl, rs, a, ?_, hacted.send cmd, hshows, ha⟩
    show s₁.log ++ [_] = _
    rw [hlog, List.append_assoc]
  · exact hacts

/-- A command whose `+` is read. -/
theorem wp_gdbRemoteSend_acked (hfuel : 0 < fuel) (cmd : List UInt8) {s : Port σ}
    (h : At view s₀ es n cur (· = .idle n) s) :
    Exec.wp (gdbRemoteSend link fuel cmd true)
      (fun r s' => r = clSuccess ∧
        At view s₀ (es ++ [.send cmd clSuccess]) (n + 1) (some cmd) (Replying n cmd) s')
      (fun _ s' => Acts view s₀ s') s := by
  obtain ⟨N, rfl⟩ : ∃ N, fuel = N + 1 := ⟨fuel - 1, by omega⟩
  rw [gdbRemoteSend, Exec.wp_bind, sendFrame, gdbFrame_eq]
  show Exec.wp (resend link (N + 1) (Item.command cmd).bytes true (N + 1)) _ _ s
  rw [resend, Exec.wp_bind]
  refine (wp_sockSend_item conf (kept_idle n) (.command cmd) h).mono (fun nsent s₁ h₁ => ?_)
    fun _ _ => False.elim
  obtain ⟨rfl, hat⟩ | ⟨rfl, hacts⟩ := h₁
  · refine Exec.wp_ite.mpr ⟨fun h => (by cases h), fun _ => ?_⟩
    refine Exec.wp_ite.mpr ⟨fun h => absurd rfl h, fun _ => ?_⟩
    replace hat : At view s₀ es n cur (AwaitingAck n cmd) s₁ := by
      apply hat.mono
      rintro a ⟨b, rfl, rfl⟩
      exact .queued
    rw [if_pos rfl, Exec.wp_bind]
    obtain ⟨rs, a, hlog, hacted, hshows, ha⟩ := hat
    obtain ⟨b, rest, w, steps, hhost, hrecv, hview⟩ | ⟨never, steps⟩ := conf.recv_cases s₁.link
    · -- the `+` is the first thing that comes
      obtain ⟨a₁, hshows₁, ha₁⟩ := hshows.stubSteps (kept_awaitingAck n cmd) ha steps
      have hread : b :: rest = a₁.unread.flatMap Out.bytes := hhost.symm.trans hshows₁.toHost
      cases ha₁ with
      | queued => cases hread
      | @taken a₁ hreplying =>
        obtain ⟨rfl, rfl⟩ : b = chPlus ∧ rest = a₁.unread.flatMap Out.bytes := List.cons.inj hread
        rw [Exec.wp_of_ok (gdbRemoteGetchar_eq link (N + 1) hrecv rfl hfuel)]
        refine Exec.wp_ite.mpr ⟨fun _ => ?_, fun h => absurd rfl h⟩
        refine ⟨rfl, rs, a₁, ?_, hacted.send cmd, ?_, hreplying⟩
        · show s₁.log ++ [_] = _
          rw [hlog, List.append_assoc]
        · have hpop : Shows (view (link.recv s₁.link).2) [] 1 ((view s₀.link).put ++ rs).length
              ((view s₀.link).put ++ rs) a₁ := by
            rw [hview]
            exact ⟨hshows₁.mode, hshows₁.taken, rfl, hshows₁.queue, hshows₁.put, hshows₁.short,
              hshows₁.lead⟩
          exact hpop.relax
    · rw [Exec.wp_of_error (gdbRemoteGetchar_blocked link (N + 1) never (Nat.succ_pos N))]
      exact ⟨es, n, cur, rs, hlog, hacted, hshows.put_prefix.trans steps.put_prefix⟩
  · exact hacts

/-- A receive takes the next packet and answers it with `+`. -/
theorem wp_gdbRemoteRecv_delivers (hfuel : 1 < fuel) {cmd : List UInt8} {Pre : Nat → Dialog → Prop}
    {Post : Reply → Dialog → Prop} (hdelivers : Delivers Pre Post)
    (hown : ∀ r a, Post r a → OwnReply n cmd r) (cmdlen : Nat) {s : Port σ}
    (h : At view s₀ es (n + 1) (some cmd) (Pre 1) s) :
    Exec.wp (gdbRemoteRecv link fuel cmdlen true)
      (fun out s' => ∃ r read, r.packet.bytes.length ≤ buflen ∧
        out = (payloadRet cmdlen r.packet.body.length, r.packet.body.take (cmdlen - 1) ++ [0]) ∧
        At view s₀ (es ++ [.recv read (some chPlus) out.1]) (n + 1) (some cmd) (Post r) s')
      (fun _ s' => Acts view s₀ s') s := by
  obtain ⟨rs, a, hlog, hacted, hshows, ha⟩ := h
  obtain ⟨k, r, hk, hroom, hoffers⟩ := offers_packet conf hdelivers 1 0 s.link a (by decide) hshows ha
  refine wp_gdbRemoteRecv_offers link fuel true (by omega) (by omega) hoffers (fun _ s' hstuck => ?_)
    fun s₁ htook hend => ?_
  · exact ⟨es, n + 1, some cmd, rs, hstuck.1.trans hlog, hacted, hstuck.2⟩
  obtain ⟨a₁, hshows₁, ha₁⟩ := hend
  obtain ⟨N, rfl⟩ : ∃ N, fuel = N + 1 := ⟨fuel - 1, by omega⟩
  rw [finishRecv, if_pos rfl, Exec.wp_bind, gdbRemotePutchar, retrySend, Exec.wp_bind]
  have hsock : sockSend link [chPlus] s₁ = (.ok (link.send [chPlus] s₁.link).1, { s₁ with
      link := (link.send [chPlus] s₁.link).2,
      wire := s₁.wire ++ (link.send [chPlus] s₁.link).1.wire [chPlus] }) := rfl
  rw [Exec.wp_of_ok hsock]
  obtain ⟨w, steps, hcount, hview⟩ | ⟨hblocked, steps⟩ := conf.send_cases [chPlus] s₁.link
  · rw [hcount]
    obtain ⟨a₂, hshows₂, ha₂⟩ := hshows₁.stubSteps (hdelivers.post r) ha₁ steps
    obtain ⟨i, hqueue, hacked⟩ := hshows₂.queue
    have hacked₂ : w.acked + (i + 1) = ((view s₀.link).put ++ (rs ++ [r])).length := by
      rw [← List.append_assoc, List.length_append, List.length_singleton, ← hacked, Nat.add_assoc]
    refine ⟨r, _, by omega, rfl, rs ++ [r], a₂, ?_,
      hacted.recv k _ (hown r a₂ ha₂), ?_, ha₂⟩
    · show s₁.log ++ [_] = _
      rw [htook.log, hlog, List.append_assoc]
      rfl
    · show Shows (view (link.send [chPlus] s₁.link).2) _ _ _ _ _
      rw [hview, ← List.append_assoc]
      rw [← List.append_assoc] at hacked₂
      exact ⟨hshows₂.mode, hshows₂.taken, hshows₂.toHost, ⟨_, hqueue.snocAck, hacked₂⟩, hshows₂.put,
        hshows₂.short, hshows₂.lead⟩
  · rw [hblocked]
    refine ⟨es, n + 1, some cmd, rs, htook.log.trans hlog, hacted, ?_⟩
    exact (List.prefix_append ..).trans (hshows₁.put_prefix.trans steps.put_prefix)

omit conf in
/-- What is stored of a packet that fits is its body. -/
theorem payloadRet_of_packet {r : Reply} (hlen : r.packet.bytes.length ≤ buflen) (cmdlen : Nat)
    (hcmdlen : 4095 ≤ cmdlen) : payloadRet cmdlen r.packet.body.length = clSuccess ∧
      r.packet.body.take (cmdlen - 1) ++ [0] = r.packet.body ++ [0] := by
  rw [Packet.length_bytes] at hlen
  unfold buflen at hlen
  exact ⟨if_pos (by omega), by rw [List.take_of_length_le (by omega)]⟩

/-- The resynchronisation discards a late stop packet, and ends with the empty one. -/
theorem wp_discardLoop (hfuel : 1 < fuel) (N : Nat) : ∀ (first : UInt8) (es : List GdbCall) (s : Port σ),
    At view s₀ es (n + 1) (some resyncCmd) (resyncWait n 1) s →
    Exec.wp (discardLoop link fuel first N)
      (fun _ s' => ∃ es' cur, At view s₀ es' (n + 1) cur (· = .idle (n + 1)) s')
      (fun _ s' => Acts view s₀ s') s := by
  have hown (r : Reply) (a : Dialog) (h : ResyncRead n r a) : OwnReply n resyncCmd r := by
    rcases h with ⟨hcause, hstop, -⟩ | ⟨hcause, -⟩
    · exact Or.inr ⟨hcause, rfl, hstop⟩
    · exact Or.inl hcause
  induction N with
  | zero => exact fun first es s h => h.acts
  | succ N ih =>
    intro first es s h
    rw [discardLoop, Exec.wp_bind]
    refine (wp_gdbRemoteRecv_delivers conf fuel hfuel (delivers_resyncWait n) hown 4096 h).mono
      (fun out s₁ h₁ => ?_) fun _ _ h => h
    obtain ⟨r, read, hlen, rfl, rs, a, hlog, hacted, hshows, hread⟩ := h₁
    have hstored := (payloadRet_of_packet hlen 4096 (by decide)).2
    show Exec.wp (if (r.packet.body.take (4096 - 1) ++ [0]).headD first = 0 then _ else _) _ _ s₁
    rw [hstored]
    rcases hread with ⟨-, hstop, hwait⟩ | ⟨-, hempty, hidle⟩
    · refine Exec.wp_ite.mpr ⟨fun hzero => ?_, fun _ => ?_⟩
      · cases hbody : r.packet.body with
        | nil =>
          rw [hbody] at hstop
          rcases hstop with hstop | hstop <;> cases hstop
        | cons b bs =>
          rw [hbody] at hstop hzero
          obtain rfl : b = 0 := hzero
          rcases hstop with hstop | hstop <;> cases hstop
      · exact ih _ _ s₁ ⟨rs, a, hlog, hacted, hshows, Or.inr (Or.inl hwait)⟩
    · rw [hempty]
      exact ⟨_, _, rs, a, hlog, hacted, hshows, hidle⟩

theorem wp_gdbRemoteDiscardAll (hfuel : 1 < fuel) {s : Port σ}
    (h : At view s₀ es n cur (Halting n) s) :
    Exec.wp (gdbRemoteDiscardAll link fuel)
      (fun _ s' => ∃ es' cur, At view s₀ es' (n + 1) cur (· = .idle (n + 1)) s')
      (fun _ s' => Acts view s₀ s') s := by
  rw [gdbRemoteDiscardAll, Exec.wp_bind]
  show Exec.wp _ _ _ { s with link := (link.stack s.link).2 }
  have hstack : At view s₀ es n cur (Halting n) { s with link := (link.stack s.link).2 } :=
    h.steps (kept_halting n) rfl (conf.stack s.link)
  rw [Exec.wp_bind]
  refine (wp_gdbRemoteSend_push conf fuel (by omega) (kept_halting n) resyncCmd hstack).mono
    (fun r s₁ h₁ => ?_) fun _ _ h => h
  have hat : At view s₀ (es ++ [.send resyncCmd clSuccess]) (n + 1) (some resyncCmd) (resyncWait n 1) s₁ := by
    apply h₁.2.mono
    rintro a ⟨b, ⟨hlate⟩, rfl⟩
    exact Or.inl (.queued hlate)
  rw [Exec.wp_bind]
  exact (wp_discardLoop conf fuel hfuel fuel _ _ s₁ hat).mono (fun _ _ h => h) fun _ _ h => h

/-- The wait for the target to stop. -/
theorem wp_stopLoop (hfuel : 1 < fuel) (N : Nat) : ∀ (es : List GdbCall) (s : Port σ),
    At view s₀ es (n + 1) (some runCmd) (stopWait n 1) s →
    Exec.wp (stopLoop link fuel N)
      (fun _ s' => ∃ es' cur, At view s₀ es' (n + 2) cur (· = .idle (n + 2)) s')
      (fun _ s' => Acts view s₀ s') s := by
  have hown (r : Reply) (a : Dialog) (h : StopRead n r a) : OwnReply n runCmd r := Or.inl h.1
  induction N with
  | zero => exact fun es s h => h.acts
  | succ N ih =>
    intro es s h
    rw [stopLoop, Exec.wp_bind]
    refine (wp_gdbRemoteRecv_delivers conf fuel hfuel (delivers_stopWait n) hown 4095 h).mono
      (fun out s₁ h₁ => ?_) fun _ _ h => h
    obtain ⟨r, read, hlen, rfl, rs, a, hlog, hacted, hshows, -, hread⟩ := h₁
    obtain ⟨hret, hstored⟩ := payloadRet_of_packet hlen 4095 (by decide)
    refine Exec.wp_ite.mpr ⟨fun hr => absurd hret hr, fun _ => ?_⟩
    show Exec.wp (if (r.packet.body.take (4095 - 1) ++ [0]).headD 0 = 0x4f then _ else
      if (r.packet.body.take (4095 - 1) ++ [0]).headD 0 = 0x54 ∨ _ then _ else _) _ _ s₁
    rw [hstored]
    have hhead {b : UInt8} (hb : r.packet.body.head? = some b) : (r.packet.body ++ [0]).headD 0 = b := by
      cases hbody : r.packet.body with
      | nil =>
        rw [hbody] at hb
        cases hb
      | cons c cs =>
        rw [hbody] at hb
        exact Option.some.inj hb
    rcases hread with ⟨hstop, hhalting⟩ | ⟨hconsole, hstopping⟩
    · have hT : (r.packet.body ++ [0]).headD 0 = 0x54 ∨ (r.packet.body ++ [0]).headD 0 = 0x57 :=
        hstop.imp hhead hhead
      refine Exec.wp_ite.mpr ⟨fun hO => ?_, fun _ => ?_⟩
      · rcases hT with hT | hT <;> exact absurd (hO.symm.trans hT) (by decide)
      · refine Exec.wp_ite.mpr ⟨fun _ => ?_, fun hno => absurd hT hno⟩
        rw [Exec.wp_bind]
        exact (wp_gdbRemoteDiscardAll conf fuel hfuel ⟨rs, a, hlog, hacted, hshows, hhalting⟩).mono
          (fun _ _ h => h) fun _ _ h => h
    · rw [if_pos (hhead hconsole)]
      exact ih _ s₁ ⟨rs, a, hlog, hacted, hshows, Or.inr hstopping⟩

omit conf in
/-- An interrupt behind the command that runs the target. -/
theorem AwaitingAck.interrupt {a : Dialog} (h : AwaitingAck n runCmd a) :
    Interrupting n (a.push .interrupt) := by
  cases h with
  | queued => exact .queued
  | taken hreplying =>
    have hbodies {ps : List Packet} (h : ∀ p ∈ ps, StubAnswers runCmd p false) :
        ∀ p ∈ ps, p.body.head? = some 0x4f := fun p hp => (h p hp).run
    cases hreplying with
    | busy hps => exact .taken (.running .waiting (hbodies hps))
    | done hps hlast => exact .taken (.stopped .waiting (hbodies hps) hlast.run)

omit conf in
/-- At rest, with the number of the next command. -/
theorem At.idle_push {cmd : List UInt8} {s : Port σ} {m : Nat}
    (h : At view s₀ es m cur (fun a => ∃ b, b = Dialog.idle n ∧ a = b.push (.command cmd)) s) :
    At view s₀ es m cur (AwaitingAck n cmd) s := by
  apply h.mono
  rintro a ⟨b, rfl, rfl⟩
  exact .queued

theorem wp_gdbRemoteStop (hfuel : 1 < fuel) {s : Port σ}
    (h : At view s₀ es (n + 1) (some runCmd) (AwaitingAck n runCmd) s) :
    Exec.wp (gdbRemoteStop (some link) fuel)
      (fun _ s' => ∃ es' cur, At view s₀ es' (n + 2) cur (· = .idle (n + 2)) s')
      (fun _ s' => Acts view s₀ s') s := by
  show Exec.wp (gdbRemoteSendInterrupt link >>= fun _ => stopLoop link fuel fuel) _ _ s
  rw [Exec.wp_bind, gdbRemoteSendInterrupt]
  show Exec.wp (sockSend link Item.interrupt.bytes >>= _) _ _ s
  rw [Exec.wp_bind]
  refine (wp_sockSend_item conf (kept_awaitingAck n runCmd) .interrupt h).mono (fun nsent s₁ h₁ => ?_)
    fun _ _ => False.elim
  obtain ⟨rfl, rs, a, hlog, hacted, hshows, b, hb, rfl⟩ | ⟨rfl, hacts⟩ := h₁
  · refine Exec.wp_ite.mpr ⟨fun h => (by cases h), fun _ => ?_⟩
    refine (wp_stopLoop conf fuel hfuel fuel (es ++ [.interrupt clSuccess]) _ ?_).mono (fun _ _ h => h)
      fun _ _ h => h
    refine ⟨rs, _, ?_, hacted.interrupt clSuccess, hshows, Or.inl hb.interrupt⟩
    show s₁.log ++ [_] = _
    rw [hlog, List.append_assoc]
    rfl
  · exact hacts

/-! ### One command and its reply -/

omit conf in
theorem cstr_terminated (body : List UInt8) : cstr (body ++ [0]) = cstr body := by
  unfold cstr
  induction body with
  | nil => rfl
  | cons b body ih =>
    rw [List.cons_append, List.takeWhile_cons, List.takeWhile_cons, ih]

omit conf in
/-- The stub answers `m`, `M`, `X` and the reset of QEMU with one packet. -/
theorem StubAnswers.single {cmd : List UInt8} (hcmd : IsMemoryCmd cmd ∨ cmd = qemuResetCmd) {p : Packet}
    {last : Bool} (h : StubAnswers cmd p last) : last = true := by
  cases h with
  | console h =>
    subst h
    exact absurd hcmd (by decide)
  | running h =>
    subst h
    exact absurd hcmd (by decide)
  | memory => rfl
  | ok => rfl
  | resync => rfl
  | stopped => rfl

/-- The one packet that answers a command ends its dialog. -/
theorem wp_gdbRemoteRecv_single (hfuel : 1 < fuel) {cmd : List UInt8}
    (hcmd : IsMemoryCmd cmd ∨ cmd = qemuResetCmd) (cmdlen : Nat) {s : Port σ}
    (h : At view s₀ es (n + 1) (some cmd) (Replying n cmd) s) :
    Exec.wp (gdbRemoteRecv link fuel cmdlen true)
      (fun out s' => ∃ read, At view s₀ (es ++ [.recv read (some chPlus) out.1]) (n + 1) (some cmd)
        (· = .idle (n + 1)) s')
      (fun _ s' => Acts view s₀ s') s := by
  have hown (r : Reply) (a : Dialog) (h : ReplyRead n cmd r a) : OwnReply n cmd r := Or.inl h.1
  refine (wp_gdbRemoteRecv_delivers conf fuel hfuel (delivers_replying n cmd) hown cmdlen h).mono
    (fun out s₁ h₁ => ?_) fun _ _ h => h
  obtain ⟨r, read, -, rfl, hat⟩ := h₁
  refine ⟨read, hat.mono ?_⟩
  rintro a ⟨-, ⟨-, hidle⟩ | ⟨hmore, -⟩⟩
  · exact hidle
  · exact absurd (hmore.single hcmd) (by decide)

/-- An operation has ended and nothing of it is under way: the host has read all replies, and the stub all
commands. -/
def AtRest (view : σ → World) (s₀ s : Port σ) : Prop :=
  ∃ es n cur, At view s₀ es n cur (· = .idle n) s

omit conf in
theorem AtRest.done {s : Port σ} (h : AtRest view s₀ s) : Done view s₀ s := by
  obtain ⟨es, n, cur, hat⟩ := h
  exact ⟨hat.acts, fun _ _ _ => hat.inStep⟩

theorem At.calloc (hP : Kept P) {s : Port σ} (h : At view s₀ es n cur P s) :
    At view s₀ (es ++ [.calloc (link.calloc s.link).1]) n cur P
      { s with link := (link.calloc s.link).2, log := s.log ++ [.calloc (link.calloc s.link).1] } := by
  obtain ⟨rs, a, hlog, hacted, hshows, ha⟩ := h
  obtain ⟨a', hshows', ha'⟩ := hshows.stubSteps hP ha (conf.calloc s.link)
  refine ⟨rs, a', ?_, hacted.calloc _, hshows', ha'⟩
  show s.log ++ [_] = _
  rw [hlog, List.append_assoc]

/-- A piece of a write is over when it returns. -/
theorem wp_writeOne_session (hfuel : 1 < fuel) {request : UInt64 → List UInt8 → List UInt8}
    {paddr : UInt64} {bs : List UInt8} (hcmd : IsMemoryCmd (request paddr bs))
    (hlen : bs.length ≤ maxPiece) {s : Port σ} (h : AtRest view s₀ s) :
    Exec.wp (writeOne link fuel request paddr bs) (fun _ s' => AtRest view s₀ s')
      (fun _ s' => Acts view s₀ s') s := by
  obtain ⟨es, n, cur, hat⟩ := h
  rw [writeOne]
  refine Exec.wp_ite.mpr ⟨fun h => absurd h (by omega), fun _ => ?_⟩
  have hcalloc := hat.calloc conf (kept_idle n)
  show Exec.wp (if !(link.calloc s.link).1 then _ else _) _ _
    { s with link := (link.calloc s.link).2, log := s.log ++ [GdbCall.calloc (link.calloc s.link).1] }
  refine Exec.wp_ite.mpr ⟨fun _ => ⟨_, n, cur, hcalloc⟩, fun _ => ?_⟩
  refine (Exec.wp_bind ..).mpr ((wp_gdbRemoteSend_acked conf fuel (by omega) (request paddr bs)
    hcalloc).mono (fun r s₁ h₁ => ?_) fun _ _ h => h)
  obtain ⟨rfl, hreplying⟩ := h₁
  refine Exec.wp_ite.mpr ⟨fun hr => absurd rfl hr, fun _ => ?_⟩
  refine (Exec.wp_bind ..).mpr ((wp_gdbRemoteRecv_single conf fuel hfuel (Or.inl hcmd) 3 hreplying).mono
    (fun out s₂ h₂ => ?_) fun _ _ h => h)
  obtain ⟨read, hidle⟩ := h₂
  exact ⟨_, _, _, hidle⟩

/-- A piece of a read is over when it returns, unless its allocation failed. -/
theorem wp_readOne_session (hfuel : 1 < fuel) {paddr : UInt64} {l : Nat} (hlen : l ≤ maxPiece)
    {s : Port σ} (h : AtRest view s₀ s) :
    Exec.wp (gdbRemoteReadMemOne link fuel paddr l)
      (fun out s' => Done view s₀ s' ∧ (out.1 = clSuccess → AtRest view s₀ s'))
      (fun _ s' => Acts view s₀ s') s := by
  have hcmd : IsMemoryCmd (readRequest paddr l) := by
    refine Or.inl ?_
    rw [readRequest_eq_take, readText_eq]
    rfl
  obtain ⟨es, n, cur, hat⟩ := h
  rw [gdbRemoteReadMemOne]
  refine Exec.wp_ite.mpr ⟨fun h => absurd h (by omega), fun _ => ?_⟩
  refine (Exec.wp_bind ..).mpr ((wp_gdbRemoteSend_acked conf fuel (by omega) (readRequest paddr l)
    hat).mono (fun r s₁ h₁ => ?_) fun _ _ h => h)
  obtain ⟨rfl, hreplying⟩ := h₁
  refine Exec.wp_ite.mpr ⟨fun hr => absurd rfl hr, fun _ => ?_⟩
  have hcalloc := hreplying.calloc conf (kept_replying n _)
  show Exec.wp (if !(link.calloc s₁.link).1 then _ else _) _ _
    { s₁ with link := (link.calloc s₁.link).2, log := s₁.log ++ [GdbCall.calloc (link.calloc s₁.link).1] }
  generalize (link.calloc s₁.link).1 = ok at hcalloc
  cases ok with
  | false =>
    -- the answer is still to be read
    have hlog : s₁.log ++ [GdbCall.calloc false] =
        s₀.log ++ (es ++ [.send (readRequest paddr l) clSuccess] ++ [.calloc false]) := by
      obtain ⟨rs, a, hlog, -⟩ := hcalloc
      exact hlog
    refine ⟨⟨hcalloc.acts, fun es' hes' hno => absurd ?_ hno⟩, fun h => absurd h (by decide)⟩
    obtain rfl := List.append_cancel_left (hlog.symm.trans hes')
    simp
  | true =>
    refine (Exec.wp_bind ..).mpr ((wp_gdbRemoteRecv_single conf fuel hfuel (Or.inl hcmd) _ hcalloc).mono
      (fun out s₂ h₂ => ?_) fun _ _ h => h)
    obtain ⟨read, hidle⟩ := h₂
    have hrest : AtRest view s₀ s₂ := ⟨_, _, _, hidle⟩
    exact Exec.wp_ite.mpr ⟨fun _ => ⟨hrest.done, fun _ => hrest⟩, fun _ => ⟨hrest.done, fun _ => hrest⟩⟩

omit conf in
/-- A transfer keeps what its pieces keep, and ends with what the last of them leaves. -/
theorem wp_pieces_session {one : Nat → Nat → Gdb σ (ClInt × List UInt8)} {len : Nat}
    {I J : Port σ → Prop} {E : Hang → Port σ → Prop}
    (hone : ∀ q l s, l ≤ maxPiece → I s →
      Exec.wp (one q l) (fun out s' => J s' ∧ (out.1 = clSuccess → I s')) E s)
    (hIJ : ∀ s, I s → J s) {got : Nat → Option UInt8} {s : Port σ} (h : I s) :
    Exec.wp (pieces one len len 0 got) (fun _ s' => J s') E s := by
  refine wp_pieces_rule (I := fun _ _ s => I s) (J := fun _ _ s => J s) (fun p got s _ hI => ?_)
    (fun _ s hI => hIJ s hI) len 0 got s (Nat.zero_le _) (by omega) h
  exact (hone p _ s (pieceLen_le len p) hI).mono (fun _ _ h => ⟨h.2, fun _ => h.1⟩) fun _ _ h => h

theorem wp_writePieces_session (hfuel : 1 < fuel) {request : UInt64 → List UInt8 → List UInt8}
    (hcmd : ∀ paddr bs, bs.length ≤ maxPiece → IsMemoryCmd (request paddr bs)) (paddr : UInt64)
    (bs : List UInt8) {s : Port σ} (h : AtRest view s₀ s) :
    Exec.wp (writePieces (writeOne link fuel request) paddr bs) (fun _ s' => AtRest view s₀ s')
      (fun _ s' => Acts view s₀ s') s := by
  rw [writePieces, Exec.wp_bind]
  refine wp_pieces_session (I := AtRest view s₀) (fun q l s₁ hl h₁ => ?_) (fun _ h => h) h
  have hlen : ((bs.drop q).take l).length ≤ maxPiece := by
    rw [List.length_take]
    omega
  rw [Exec.wp_bind]
  exact (wp_writeOne_session conf fuel hfuel (hcmd _ _ hlen) hlen h₁).mono
    (fun r s₂ h₂ => ⟨h₂, fun _ => h₂⟩) fun _ _ h => h

theorem wp_openocdReset_session (hfuel : 1 < fuel) {s : Port σ} (h : AtRest view s₀ s) :
    Exec.wp (gdbRemoteOpenocdReset (some link) fuel) (fun _ s' => AtRest view s₀ s')
      (fun _ s' => Acts view s₀ s') s := by
  obtain ⟨es, n, cur, hat⟩ := h
  have hown (r : Reply) (a : Dialog) (h : ReplyRead n openocdResetCmd r a) :
      OwnReply n openocdResetCmd r := Or.inl h.1
  -- the console packets and "OK"
  have hloop (N : Nat) : ∀ (es : List GdbCall) (s : Port σ),
      At view s₀ es (n + 1) (some openocdResetCmd) (Replying n openocdResetCmd) s →
      Exec.wp (openocdResetLoop link fuel N) (fun _ s' => AtRest view s₀ s')
        (fun _ s' => Acts view s₀ s') s := by
    induction N with
    | zero => exact fun es s h => h.acts
    | succ N ih =>
      intro es s h
      rw [openocdResetLoop, Exec.wp_bind]
      refine (wp_gdbRemoteRecv_delivers conf fuel hfuel (delivers_replying n openocdResetCmd) hown 4095 h).mono
        (fun out s₁ h₁ => ?_) fun _ _ h => h
      obtain ⟨r, read, hlen, rfl, rs, a, hlog, hacted, hshows, -, hread⟩ := h₁
      obtain ⟨hret, hstored⟩ := payloadRet_of_packet hlen 4095 (by decide)
      refine Exec.wp_ite.mpr ⟨fun hr => absurd hret hr, fun _ => ?_⟩
      show Exec.wp (if cstr (r.packet.body.take (4095 - 1) ++ [0]) = ascii "OK" then _ else _) _ _ s₁
      rw [hstored, cstr_terminated]
      rcases hread with ⟨hlast, hidle⟩ | ⟨hmore, hreplying⟩
      · have hok : r.packet.body = ascii "OK" := by
          cases hlast with
          | memory h => exact absurd h (by decide)
          | ok _ hp => exact hp
          | resync h => exact absurd h (by decide)
          | stopped h => exact absurd h (by decide)
        rw [hok, if_pos (by decide)]
        exact ⟨_, _, _, rs, a, hlog, hacted, hshows, hidle⟩
      · have hno : cstr r.packet.body ≠ ascii "OK" := by
          cases hmore with
          | console _ hp => exact hp.2
          | running h => exact absurd h (by decide)
        rw [if_neg hno]
        exact ih _ s₁ ⟨rs, a, hlog, hacted, hshows, hreplying⟩
  show Exec.wp (gdbRemoteSend link fuel openocdResetCmd true >>= _) _ _ s
  rw [Exec.wp_bind]
  refine (wp_gdbRemoteSend_acked conf fuel (by omega) openocdResetCmd hat).mono (fun r s₁ h₁ => ?_)
    fun _ _ h => h
  obtain ⟨rfl, hreplying⟩ := h₁
  exact Exec.wp_ite.mpr ⟨fun hr => absurd rfl hr, fun _ => hloop fuel _ s₁ hreplying⟩

theorem wp_qemuReset_session (hfuel : 1 < fuel) {s : Port σ} (h : AtRest view s₀ s) :
    Exec.wp (gdbRemoteQemuReset (some link) fuel) (fun _ s' => AtRest view s₀ s')
      (fun _ s' => Acts view s₀ s') s := by
  obtain ⟨es, n, cur, hat⟩ := h
  show Exec.wp (gdbRemoteSend link fuel qemuResetCmd true >>= _) _ _ s
  rw [Exec.wp_bind]
  refine (wp_gdbRemoteSend_acked conf fuel (by omega) qemuResetCmd hat).mono (fun r s₁ h₁ => ?_)
    fun _ _ h => h
  obtain ⟨rfl, hreplying⟩ := h₁
  refine Exec.wp_ite.mpr ⟨fun hr => absurd rfl hr, fun _ => ?_⟩
  rw [Exec.wp_bind]
  refine (wp_gdbRemoteRecv_single conf fuel hfuel (Or.inr rfl) 3 hreplying).mono (fun out s₂ h₂ => ?_)
    fun _ _ h => h
  obtain ⟨read, hidle⟩ := h₂
  have hrest : AtRest view s₀ s₂ := ⟨_, _, _, hidle⟩
  exact Exec.wp_ite.mpr ⟨fun _ => hrest, fun _ => Exec.wp_ite.mpr ⟨fun _ => hrest, fun _ => hrest⟩⟩

end Calls

/-! ## A stub of its own -/

/-- What this stub says to a command.  Its memory holds at every address the address modulo 256. -/
def stubAnswer (cmd : List UInt8) : Option (List UInt8) :=
  if cmd = runCmd then some (ascii "T05")
  else if cmd = resyncCmd then some []
  else if cmd = openocdResetCmd ∨ cmd = qemuResetCmd then some (ascii "OK")
  else if IsMemoryCmd cmd then
    match parseRead cmd with
    | some (addr, len) => some (hexBytes ((List.range len).map fun i => UInt8.ofNat (addr + i)))
    | none => some (ascii "OK")
  else none

theorem stubAnswers_of_stubAnswer {cmd body : List UInt8} (h : stubAnswer cmd = some body) :
    StubAnswers cmd (.command body) true := by
  unfold stubAnswer at h
  split at h
  · next hrun =>
    obtain rfl := Option.some.inj h
    exact .stopped hrun (Or.inl (by decide))
  split at h
  · next hresync =>
    obtain rfl := Option.some.inj h
    exact .resync hresync rfl
  split at h
  · next hreset =>
    obtain rfl := Option.some.inj h
    exact .ok hreset (by decide)
  split at h
  · next hmemory => exact .memory hmemory
  · cases h

/-- The next thing that this stub does: it answers, or takes what is in front. -/
def World.serve (w : World) : World :=
  match w.mode with
  | .busy n cmd =>
    match stubAnswer cmd with
    | some body =>
      if w.trail + (Packet.command body).bytes.length ≤ buflen then
        w.emit ⟨some (n, cmd), .command body⟩ .halted
      else w
    | none => w
  | .halted =>
    match w.toStub with
    | [] => w
    | b :: rest =>
      if b = chPlus then { w with toStub := rest, acked := w.acked + 1 }
      else if b = 0x03 then { w with toStub := rest }
      else match unpack w.toStub with
        | some (body, rest) => { w with
            toStub := rest, toHost := w.toHost ++ [chPlus], mode := .busy w.taken (unescape body),
            taken := w.taken + 1, trail := w.trail + 1 }
        | none => w

theorem stubSteps_serve (w : World) : StubSteps w w.serve := by
  unfold World.serve
  split
  · next n cmd hbusy =>
    split
    · next body hbody =>
      split
      · next hshort => exact .single (.reply hbusy (stubAnswers_of_stubAnswer hbody) hshort)
      · exact .refl
    · exact .refl
  · next hhalted =>
    split
    · exact .refl
    · next b rest hfront =>
      split
      · next hplus => exact .single (.ack (hplus ▸ hfront))
      split
      · next hetx => exact .single (.interrupt (hetx ▸ hfront) (Or.inl hhalted))
      · split
        · next hunpack => exact .single (.take hhalted hunpack)
        · exact .refl

theorem stubSteps_iterate_serve (n : Nat) : ∀ w : World, StubSteps w (World.serve^[n] w) := by
  induction n with
  | zero => exact fun w => .refl
  | succ n ih => exact fun w => (stubSteps_serve w).trans (ih w.serve)

/-- The link to it: what it does is done when the host waits for a byte, and the allocations go as the
list says. -/
def servedLink : Link (World × List Bool) where
  recv l :=
    let w := World.serve^[8] l.1
    match w.toHost with
    | [] => (.blocked, (w, l.2))
    | b :: rest => (.byte b, ({ w with toHost := rest }, l.2))
  send bs l := (.count bs.length, ({ l.1 with toStub := l.1.toStub ++ bs }, l.2))
  calloc l := (l.2.headD true, (l.1, l.2.tail))
  stack l := (fun _ => 0, l)

theorem conforms_servedLink : Conforms servedLink Prod.fst where
  recv l := by
    have hsteps := stubSteps_iterate_serve 8 l.1
    simp only [servedLink]
    split
    · exact .blocked hsteps
    · next b rest hfront => exact .byte hsteps hfront
  send bs l := .count .refl
  calloc l := .refl
  stack l := .refl

/-- The stub at the start: halted, and nothing is under way. -/
def World.fresh : World := ⟨[], [], .halted, 0, 0, [], 0⟩

theorem inStep_fresh : InStep .fresh := ⟨rfl, rfl, fun b hb => (by cases hb), rfl⟩

/-! ## Sessions -/

/-- What the host asks of a probed device; a run is followed by its stop. -/
inductive SessionOp where
  | openocdReset
  | qemuReset
  | readMem (paddr : UInt64) (len : Nat)
  | writeMem (paddr : UInt64) (bs : List UInt8)
  | writeBin (paddr : UInt64) (bs : List UInt8)
  | runStop
  deriving DecidableEq, Repr

/-- The operation over the link, with the code that it returns. -/
def SessionOp.exec (link : Link σ) (fuel : Nat) : SessionOp → Gdb σ ClInt
  | .openocdReset => gdbRemoteOpenocdReset (some link) fuel
  | .qemuReset => gdbRemoteQemuReset (some link) fuel
  | .readMem paddr len => do
    let (r, _) ← gdbRemoteReadMem (some link) fuel paddr len
    return r
  | .writeMem paddr bs => gdbRemoteWriteMem (some link) fuel paddr bs
  | .writeBin paddr bs => gdbRemoteWriteBin (some link) fuel paddr bs
  | .runStop => do
    let r ← gdbRemoteRun (some link) fuel
    if r ≠ clSuccess then
      return r
    gdbRemoteStop (some link) fuel

/-- No allocation of a read fails. A read allocates behind its request, so that a failure leaves the reply
on the socket. -/
def SessionOp.Allocated (op : SessionOp) (es : List GdbCall) : Prop :=
  match op with
  | .readMem .. => .calloc false ∉ es
  | _ => True

section Sessions

variable {link : Link σ} {view : σ → World} (conf : Conforms link view) (fuel : Nat)

/-- The end of an operation that began at `s₀`: it has acted on its own replies, and both ends are in
step again unless an allocation of a read failed. -/
def SessionOp.Ends (view : σ → World) (s₀ : Port σ) (op : SessionOp) (s : Port σ) : Prop :=
  Acts view s₀ s ∧ ∀ es, s.log = s₀.log ++ es → op.Allocated es → InStep (view s.link)

theorem AtRest.ends {s₀ s : Port σ} (h : AtRest view s₀ s) (op : SessionOp) : op.Ends view s₀ s := by
  obtain ⟨es, n, cur, hat⟩ := h
  exact ⟨hat.acts, fun _ _ _ => hat.inStep⟩

include conf

/-- **One operation** from rest acts on its own replies only, and goes back to rest. -/
theorem wp_exec (hfuel : 1 < fuel) (op : SessionOp) {s₀ : Port σ} (h : InStep (view s₀.link)) :
    Exec.wp (op.exec link fuel) (fun _ s' => op.Ends view s₀ s') (fun _ s' => Acts view s₀ s') s₀ := by
  have hstart : AtRest view s₀ s₀ := ⟨_, _, _, At.start h⟩
  cases op with
  | openocdReset =>
    exact (wp_openocdReset_session conf fuel hfuel hstart).mono (fun _ _ h => h.ends _) fun _ _ h => h
  | qemuReset =>
    exact (wp_qemuReset_session conf fuel hfuel hstart).mono (fun _ _ h => h.ends _) fun _ _ h => h
  | readMem paddr len =>
    show Exec.wp (gdbRemoteReadMem (some link) fuel paddr len >>= _) _ _ s₀
    rw [Exec.wp_bind]
    refine (wp_pieces_session (I := AtRest view s₀) (J := Done view s₀) (fun q l s hl hs => ?_)
      (fun _ h => h.done) hstart).mono (fun _ _ h => h) fun _ _ h => h
    exact wp_readOne_session conf fuel hfuel hl hs
  | writeMem paddr bs =>
    refine (wp_writePieces_session conf fuel hfuel (fun q cs hcs => ?_) paddr bs hstart).mono
      (fun _ _ h => h.ends _) fun _ _ h => h
    rw [writeMemRequest_eq q hcs]
    exact Or.inr (Or.inl rfl)
  | writeBin paddr bs =>
    refine (wp_writePieces_session conf fuel hfuel (fun q cs _ => ?_) paddr bs hstart).mono
      (fun _ _ h => h.ends _) fun _ _ h => h
    exact Or.inr (Or.inr rfl)
  | runStop =>
    show Exec.wp (gdbRemoteSend link fuel runCmd false >>= _) _ _ s₀
    rw [Exec.wp_bind]
    refine (wp_gdbRemoteSend_push conf fuel (by omega) (kept_idle _) runCmd (At.start h)).mono
      (fun r s₁ h₁ => ?_) fun _ _ h => h
    obtain ⟨rfl, hrun⟩ := h₁
    refine Exec.wp_ite.mpr ⟨fun hr => absurd rfl hr, fun _ => ?_⟩
    refine (wp_gdbRemoteStop conf fuel hfuel hrun.idle_push).mono (fun _ s₂ h₂ => ?_) fun _ _ h => h
    obtain ⟨es, cur, hidle⟩ := h₂
    have hrest : AtRest view s₀ s₂ := ⟨_, _, _, hidle⟩
    exact hrest.ends _

omit conf in
/-- A session: operations that return, none of whose reads fails to allocate. -/
inductive Session (link : Link σ) (fuel : Nat) : Port σ → List SessionOp → Port σ → Prop
  | nil (s : Port σ) : Session link fuel s [] s
  | snoc {s s₁ s₂ : Port σ} {ops : List SessionOp} {op : SessionOp} {r : ClInt} {es : List GdbCall}
      (before : Session link fuel s ops s₁) (run : op.exec link fuel s₁ = (.ok r, s₂))
      (log : s₂.log = s₁.log ++ es) (allocated : op.Allocated es) :
      Session link fuel s (ops ++ [op]) s₂

/-- After a session both ends are in step. -/
theorem Session.inStep (hfuel : 1 < fuel) {s s' : Port σ} {ops : List SessionOp}
    (h : Session link fuel s ops s') (h0 : InStep (view s.link)) : InStep (view s'.link) := by
  induction h with
  | nil => exact h0
  | @snoc s₁ s₂ ops op r es before run log allocated ih =>
    have hends := wp_exec conf fuel hfuel op ih
    rw [Exec.wp_of_ok run] at hends
    exact hends.2 _ log allocated

/-- **The link stays in step.** In every session with a conforming stub, both ends are in step between
the operations, and whatever operation comes next, whether it returns or not, acts on the replies to its
own commands only and acknowledges each packet that it takes once. -/
theorem session_inStep (hfuel : 1 < fuel) {s s' : Port σ} {ops : List SessionOp}
    (h : Session link fuel s ops s') (h0 : InStep (view s.link)) :
    InStep (view s'.link) ∧ ∀ op : SessionOp,
      Exec.wp (op.exec link fuel) (fun _ s'' => op.Ends view s' s'') (fun _ s'' => Acts view s' s'') s' := by
  have hstep : InStep (view s'.link) := Session.inStep conf fuel hfuel h h0
  exact ⟨hstep, fun op => wp_exec conf fuel hfuel op hstep⟩

end Sessions

/-- A target is run and stopped, and a byte of its memory is read. -/
def afterStop : Except Hang ClInt × Port (World × List Bool) :=
  SessionOp.runStop.exec servedLink 10 { link := (.fresh, []) }

/-- The line when a byte is read then: the stop reply was left behind. -/
def afterRead : Except Hang ClInt × Port (World × List Bool) :=
  (SessionOp.readMem 0x80000000 1).exec servedLink 10 afterStop.2

theorem served_inStep : InStep afterRead.2.link.1 ∧ ∀ op : SessionOp,
    Exec.wp (op.exec servedLink 10) (fun _ s => op.Ends Prod.fst afterRead.2 s)
      (fun _ s => Acts Prod.fst afterRead.2 s) afterRead.2 := by
  have hstop : afterStop.1 = .ok clSuccess := by decide +kernel
  have hread : afterRead.1 = .ok clSuccess := by decide +kernel
  have hlog : afterRead.2.log = afterStop.2.log ++ afterRead.2.log.drop afterStop.2.log.length := by
    decide +kernel
  have hallocated : GdbCall.calloc false ∉ afterRead.2.log.drop afterStop.2.log.length := by decide +kernel
  have hsession : Session servedLink 10 { link := (.fresh, []) } [.runStop, .readMem 0x80000000 1]
      afterRead.2 :=
    .snoc (.snoc (.nil _) (Prod.ext hstop rfl) (List.nil_append _).symm trivial) (Prod.ext hread rfl) hlog
      hallocated
  exact session_inStep conforms_servedLink 10 (by decide) hsession inStep_fresh

/-! ## A read whose allocation fails -/

/-- The packet of a receive, without the acknowledgements in front. -/
def GdbCall.packet? : GdbCall → Option (List UInt8)
  | .recv read _ _ => some ((read.map Got.toByte).dropWhile (· = chPlus))
  | _ => none

theorem dropWhile_acks (k : Nat) (p : Packet) :
    (List.replicate k chPlus ++ p.bytes).dropWhile (· = chPlus) = p.bytes := by
  have hplus : ∀ c ∈ List.replicate k chPlus, decide (c = chPlus) = true := fun c hc =>
    decide_eq_true (List.mem_replicate.mp hc).2
  rw [List.dropWhile_append_of_pos hplus]
  exact List.dropWhile_cons_of_neg (by decide)

/-- The receives of an operation took its packets, one each. -/
theorem Acted.packets {n₀ n : Nat} {es : List GdbCall} {cur : Option (List UInt8)} {rs : List Reply}
    (h : Acted n₀ es n cur rs) : es.filterMap GdbCall.packet? = rs.map (·.packet.bytes) := by
  induction h with
  | nil => rfl
  | send cmd h ih =>
    rw [List.filterMap_append, ih]
    exact List.append_nil _
  | interrupt ret h ih =>
    rw [List.filterMap_append, ih]
    exact List.append_nil _
  | calloc ok h ih =>
    rw [List.filterMap_append, ih]
    exact List.append_nil _
  | @recv es n cmd rs r k ret h own ih =>
    have hpacket : GdbCall.packet? (.recv ((List.replicate k chPlus ++ r.packet.bytes).map .byte)
        (some chPlus) ret) = some r.packet.bytes := by
      rw [GdbCall.packet?, map_toByte_byte, dropWhile_acks]
    rw [List.filterMap_append, ih, List.filterMap_cons_some hpacket]
    simp

/-- One byte is read at each of the first `k` addresses, and there is no memory for the first read. -/
def failedReads (k : Nat) : Except Hang (List ClInt) × Port (World × List Bool) :=
  ((List.range k).mapM fun i => (SessionOp.readMem (0x80000000 + UInt64.ofNat i) 1).exec servedLink 10)
    { link := (.fresh, [false]) }

/-- The read that comes behind seven reads, the first of which had no memory. -/
def staleRead : Except Hang (ClInt × (Nat → Option UInt8)) × Port (World × List Bool) :=
  gdbRemoteReadMem (some servedLink) 10 0x80000007 1 (failedReads 7).2

/-- The answer to the first read stays unread.  Each later read takes one byte of it for the
acknowledgement of its own request, until one takes the answer to the second for its own: it returns
`CL_SUCCESS` and the byte `0x01` for the address `0x80000007`. -/
theorem failedRead_outOfStep :
    Conforms servedLink Prod.fst ∧ InStep .fresh ∧
      (failedReads 1).1 = .ok [clOutOfHostMemory] ∧ ¬ InStep (failedReads 1).2.link.1 ∧
      (failedReads 7).1 = .ok (clOutOfHostMemory :: List.replicate 6 clInvalidDevice) ∧
      staleRead.1.map (fun out => (out.1, out.2 0)) = .ok (clSuccess, some 0x01) ∧
      ¬ Acts Prod.fst (failedReads 7).2 staleRead.2 := by
  have hfirst : (failedReads 1).1 = .ok [clOutOfHostMemory] := by decide +kernel
  have hunread : (failedReads 1).2.link.1.toHost ≠ [] := by decide +kernel
  have hseven : (failedReads 7).1 = .ok (clOutOfHostMemory :: List.replicate 6 clInvalidDevice) := by
    decide +kernel
  have hstale : staleRead.1.map (fun out => (out.1, out.2 0)) = .ok (clSuccess, some 0x01) := by
    decide +kernel
  refine ⟨conforms_servedLink, inStep_fresh, hfirst, fun h => hunread h.read, hseven, hstale, ?_⟩
  rintro ⟨es, n, cur, rs, hlog, hacted, hput⟩
  -- the packet that was taken, and the one that the stub put out next
  have htook : (staleRead.2.log.drop (failedReads 7).2.log.length).filterMap GdbCall.packet? =
      [ascii "$01#61"] := by decide +kernel
  rw [hlog, List.drop_left, hacted.packets] at htook
  have hbytes := hput.map (·.packet.bytes)
  rw [List.map_append, htook] at hbytes
  exact absurd hbytes (by decide +kernel)

end BaremetalCrt
