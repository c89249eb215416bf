/-
# BaremetalCrt.Gdb.Noise — the driver over a line with disturbances.

A `recv` may be interrupted, and so may the `send` of a single acknowledgement; and a request whose
acknowledgement the driver waits for may arrive damaged, so that the stub answers it with `-` and does
nothing.  The driver repeats the call, and sends the request again.  `Noise` sets a line with at most so many
such disturbances beside one without; against it every operation ends as over the clean line, and the stub
behind it has carried out each request exactly once (`session_overNoise`).

These are the disturbances that the driver is built to stand, and no others are allowed for.  The `send` of a
frame is not repeated when it is interrupted, but reported as `CL_OUT_OF_RESOURCES`.  The two commands whose
acknowledgement the driver does not wait for, the run and the resynchronisation, are not protected, and
neither are the replies: a reply with a wrong sum is answered with `-` and used.
-/
import BaremetalCrt.Gdb.OverWire
import BaremetalCrt.Gdb.Session
import BaremetalCrt.Lib.Follow

namespace BaremetalCrt

open Lib

variable {σ τ : Type}

/-! ## Two lines -/

/-- The one character of an acknowledgement, `+` or `-`. -/
def IsAck (bs : List UInt8) : Prop := bs = [chPlus] ∨ bs = [chMinus]

/-- A frame whose acknowledgement the driver waits for. -/
structure Awaited (bs : List UInt8) : Prop where
  frame : 1 < bs.length
  run : bs ≠ (Packet.command runCmd).bytes
  resync : bs ≠ discardRequest

/-- A call on the disturbed line that went as on the clean line: the same value, and the lines still
correspond. -/
def Undisturbed (At : τ → σ → Prop) {α : Type} (out : α × τ) (out' : α × σ) : Prop :=
  out'.1 = out.1 ∧ At out.2 out'.2

/-- The line beside the clean one, with at most `k` disturbances to come (`At k`), or with `-` under way for a
request that the clean line has not seen (`Lost k`). -/
structure Noise (clean : Link τ) (link : Link σ) (At Lost : Nat → τ → σ → Prop) : Prop where
  recv : ∀ {k t l}, At k t l → Undisturbed (At k) (clean.recv t) (link.recv l) ∨
    (link.recv l).1 = .interrupted ∧ ∃ j, j < k ∧ At j t (link.recv l).2
  send : ∀ {k t l} bs, At k t l → Undisturbed (At k) (clean.send bs t) (link.send bs l) ∨
    IsAck bs ∧ (link.send bs l).1 = .interrupted ∧ (∃ j, j < k ∧ At j t (link.send bs l).2) ∨
    Awaited bs ∧ (link.send bs l).1 = .count bs.length ∧ ∃ j, j < k ∧ Lost j t (link.send bs l).2
  lost : ∀ {k t l}, Lost k t l → (link.recv l).1 = .byte chMinus ∧ At k t (link.recv l).2 ∨
    (link.recv l).1 = .interrupted ∧ ∃ j, j < k ∧ Lost j t (link.recv l).2
  calloc : ∀ {k t l}, At k t l → Undisturbed (At k) (clean.calloc t) (link.calloc l)
  stack : ∀ {k t l}, At k t l → Undisturbed (At k) (clean.stack t) (link.stack l)

/-- The driver has done the same over both, and at most `k` disturbances are to come. -/
structure Noisy (At : Nat → τ → σ → Prop) (k : Nat) (s : Port τ) (t : Port σ) : Prop where
  log : t.log = s.log
  stores : t.stores = s.stores
  line : ∃ j, j ≤ k ∧ At j s.link t.link

theorem Noisy.mono {At : Nat → τ → σ → Prop} {j k : Nat} {s : Port τ} {t : Port σ} (h : Noisy At j s t)
    (hjk : j ≤ k) : Noisy At k s t :=
  ⟨h.log, h.stores, h.line.imp fun _ hi => ⟨hi.1.trans hjk, hi.2⟩⟩

section Driver

variable {clean : Link τ} {link : Link σ} {At Lost : Nat → τ → σ → Prop} {s : Port τ} {t : Port σ} {k : Nat}

/-! ## Single characters -/

section Calls

variable (link)

theorem retryRecv_interrupted {n : Nat} (h : (link.recv t.link).1 = .interrupted) :
    retryRecv link (n + 1) t = retryRecv link n { t with link := (link.recv t.link).2 } := by
  have hsock : sockRecv link t = (.ok .interrupted, { t with link := (link.recv t.link).2 }) := by
    show (Except.ok (link.recv t.link).1, _) = _
    simp [h, Received.wire]
  rw [retryRecv, Exec.bind_ok hsock]

theorem retrySend_interrupted {n : Nat} {ch : UInt8} (h : (link.send [ch] t.link).1 = .interrupted) :
    retrySend link ch (n + 1) t = retrySend link ch n { t with link := (link.send [ch] t.link).2 } := by
  have hsock : sockSend link [ch] t = (.ok .interrupted, { t with link := (link.send [ch] t.link).2 }) := by
    show (Except.ok (link.send [ch] t.link).1, _) = _
    simp [h, Sent.wire]
  rw [retrySend, Exec.bind_ok hsock]

end Calls

/-- A call that is not disturbed, over both lines. -/
theorem Noisy.sockRecv (h : Noisy At k s t) {j : Nat} (hj : j ≤ k)
    (hsame : Undisturbed (At j) (clean.recv s.link) (link.recv t.link)) :
    Exec.FollowsFrom .fuel (Noisy At k) s t (BaremetalCrt.sockRecv clean) (BaremetalCrt.sockRecv link) :=
  fun _ => ⟨congrArg Except.ok hsame.1, h.log, h.stores, j, hj, hsame.2⟩

theorem Noisy.sockSend (h : Noisy At k s t) {j : Nat} (hj : j ≤ k) {bs : List UInt8}
    (hsame : Undisturbed (At j) (clean.send bs s.link) (link.send bs t.link)) :
    Exec.FollowsFrom .fuel (Noisy At k) s t (BaremetalCrt.sockSend clean bs) (BaremetalCrt.sockSend link bs) :=
  fun _ => ⟨congrArg Except.ok hsame.1, h.log, h.stores, j, hj, hsame.2⟩

theorem follows_onLink {α : Type} {f : τ → α × τ} {g : σ → α × σ}
    (h : ∀ j t l, At j t l → Undisturbed (At j) (f t) (g l)) :
    Exec.Follows .fuel (Noisy At k) (onLink f) (onLink g) := by
  rintro s t ⟨hlog, hstores, j, hj, hat⟩ -
  exact ⟨congrArg Except.ok (h _ _ _ hat).1, hlog, hstores, j, hj, (h _ _ _ hat).2⟩

theorem follows_record (c : GdbCall) : Exec.Follows .fuel (Noisy At k) (record c) (record c) := by
  rintro s t ⟨hlog, hstores, hline⟩ -
  exact ⟨rfl, congrArg (· ++ [c]) hlog, hstores, hline⟩

theorem follows_store (st : RecvStore) : Exec.Follows .fuel (Noisy At k) (store st) (store st) := by
  rintro s t ⟨hlog, hstores, hline⟩ -
  exact ⟨rfl, hlog, congrArg (· ++ [st]) hstores, hline⟩

variable (noise : Noise clean link At Lost)
include noise

/-- Every interruption uses up one of the disturbances, and one of the tries. -/
theorem follows_retryRecv (N : Nat) : ∀ n k, n + k ≤ N →
    Exec.Follows .fuel (Noisy At k) (retryRecv clean n) (retryRecv link N) := by
  induction N with
  | zero =>
    intro n k hN
    obtain rfl : n = 0 := by omega
    exact Exec.Follows.giveUp _
  | succ N ih =>
    intro n k hN s t h
    obtain ⟨j, hj, hat⟩ := h.line
    rcases noise.recv hat with hsame | ⟨hintr, i, hi, hat'⟩
    · cases n with
      | zero => exact Exec.Follows.giveUp _ s t h
      | succ n =>
        refine (h.sockRecv hj hsame).bind ?_ fun _ _ h => h
        rintro (b | _ | _ | _ | _) s t h
        · exact Exec.Follows.pure _ s t h
        · have hstack : Exec.Follows .fuel (Noisy At k) (onLink clean.stack) (onLink link.stack) :=
            follows_onLink fun _ _ _ => noise.stack
          exact hstack.bind (fun _ => .pure _) s t h
        · exact ih n k (by omega) s t h
        · exact Exec.Follows.pure _ s t h
        · exact Exec.Follows.exit _ s t h
    · have hnext : Noisy At (k - 1) s { t with link := (link.recv t.link).2 } :=
        ⟨h.log, h.stores, i, by omega, hat'⟩
      refine (ih n (k - 1) (by omega) s _ hnext).skip (retryRecv_interrupted link hintr) |>.mono ?_
      exact fun _ _ h => h.mono (by omega)

theorem follows_retrySend (ch : UInt8) (N : Nat) : ∀ n k, n + k ≤ N →
    Exec.Follows .fuel (Noisy At k) (retrySend clean ch n) (retrySend link ch N) := by
  induction N with
  | zero =>
    intro n k hN
    obtain rfl : n = 0 := by omega
    exact Exec.Follows.giveUp _
  | succ N ih =>
    intro n k hN s t h
    obtain ⟨j, hj, hat⟩ := h.line
    rcases noise.send [ch] hat with hsame | ⟨-, hintr, i, hi, hat'⟩ | ⟨hawaited, -⟩
    · cases n with
      | zero => exact Exec.Follows.giveUp _ s t h
      | succ n =>
        refine (h.sockSend hj hsame).bind ?_ fun _ _ h => h
        rintro (c | _ | _ | _) s t h
        · exact Exec.Follows.pure _ s t h
        · exact ih n k (by omega) s t h
        · exact Exec.Follows.pure _ s t h
        · exact Exec.Follows.exit _ s t h
    · have hnext : Noisy At (k - 1) s { t with link := (link.send [ch] t.link).2 } :=
        ⟨h.log, h.stores, i, by omega, hat'⟩
      refine (ih n (k - 1) (by omega) s _ hnext).skip (retrySend_interrupted link hintr) |>.mono ?_
      exact fun _ _ h => h.mono (by omega)
    · exact absurd hawaited.frame (by simp)

/-- The `-` for a request that was lost arrives. -/
theorem getchar_lost (N : Nat) : ∀ (k : Nat) (t : Port σ) (d : τ), k < N → Lost k d t.link →
    ∃ t' j, retryRecv link N t = (.ok (.byte chMinus), t') ∧ t'.log = t.log ∧ t'.stores = t.stores ∧
      j ≤ k ∧ At j d t'.link := by
  induction N with
  | zero => exact fun k t d hk => absurd hk (Nat.not_lt_zero k)
  | succ N ih =>
    intro k t d hk hlost
    rcases noise.lost hlost with ⟨hbyte, hat⟩ | ⟨hintr, i, hi, hlost'⟩
    · rw [retryRecv, Exec.bind_ok (sockRecv_eq link (Prod.ext hbyte rfl))]
      exact ⟨_, k, rfl, rfl, rfl, Nat.le_refl k, hat⟩
    · obtain ⟨t', j, hrun, hlog, hstores, hj, hat⟩ := ih i { t with link := (link.recv t.link).2 } d
        (by omega) hlost'
      rw [retryRecv_interrupted link hintr, hrun]
      exact ⟨t', j, rfl, hlog, hstores, by omega, hat⟩

/-! ## Frames -/

variable {fuel patience : Nat}

section Bounded

variable (hfuel : fuel + k ≤ patience)
include hfuel

theorem follows_getchar :
    Exec.Follows .fuel (Noisy At k) (gdbRemoteGetchar clean fuel) (gdbRemoteGetchar link patience) :=
  follows_retryRecv noise patience fuel k hfuel

theorem follows_putchar (ch : UInt8) :
    Exec.Follows .fuel (Noisy At k) (gdbRemotePutchar clean fuel ch) (gdbRemotePutchar link patience ch) :=
  follows_retrySend noise ch patience fuel k hfuel

/-- A request that was lost is sent again, and the clean line waits for it. -/
theorem follows_resend {frame : List UInt8} {ack : Bool} (hframe : 1 < frame.length)
    (hack : ack = false → ¬ Awaited frame) (N : Nat) : ∀ n j, n + j ≤ N → j ≤ k →
    Exec.Follows .fuel (Noisy At j) (resend clean fuel frame ack n) (resend link patience frame ack N) := by
  induction N with
  | zero =>
    intro n j hN _
    obtain rfl : n = 0 := by omega
    exact Exec.Follows.giveUp _
  | succ N ih =>
    intro n j hN hjk s t h
    obtain ⟨i, hi, hat⟩ := h.line
    rcases noise.send frame hat with hsame | ⟨hisAck, -⟩ | ⟨hawaited, hcount, i', hi', hlost⟩
    · cases n with
      | zero => exact Exec.Follows.giveUp _ s t h
      | succ n =>
        have hnext := ih n j (by omega) hjk
        have hchar := follows_getchar (k := j) noise (by omega : fuel + j ≤ patience)
        refine (h.sockSend hi hsame).bind (fun nsent => ?_) fun _ _ h => h
        refine Exec.Follows.refuse (.ite (.pure _) (.ite (.bind hchar fun c => ?_) (.pure _)))
        exact .ite (.pure _) (.ite hnext (.pure _))
    · rcases hisAck with rfl | rfl <;> exact absurd hframe (by simp)
    · obtain rfl : ack = true := by simpa using fun hfalse => hack hfalse hawaited
      have hsock : sockSend link frame t = _ := sockSend_whole link (Prod.ext hcount rfl)
      obtain ⟨t', i'', hrun, hlog, hstores, hle, hat'⟩ := getchar_lost noise patience i'
        { t with link := (link.send frame t.link).2, wire := t.wire ++ [.sent frame] } s.link (by omega) hlost
      have hnext : Noisy At (j - 1) s t' := ⟨hlog.trans h.log, hstores.trans h.stores, i'', by omega, hat'⟩
      have hagain : resend link patience frame true (N + 1) t = resend link patience frame true N t' := by
        rw [resend, Exec.bind_ok hsock, if_neg (by simp), if_neg (by simp), if_pos rfl]
        exact Exec.bind_ok hrun
      refine (ih n (j - 1) (by omega) (by omega) s t' hnext).skip hagain |>.mono ?_
      exact fun _ _ h => h.mono (by omega)

theorem follows_gdbRemoteSend {cmd : List UInt8} {ack : Bool}
    (hack : ack = false → ¬ Awaited (Packet.command cmd).bytes) :
    Exec.Follows .fuel (Noisy At k) (gdbRemoteSend clean fuel cmd ack)
      (gdbRemoteSend link patience cmd ack) := by
  have hframe : 1 < (Packet.command cmd).bytes.length := by
    rw [Packet.length_bytes]
    omega
  unfold gdbRemoteSend sendFrame
  rw [gdbFrame_eq]
  refine .bind ?_ fun r => .bind (follows_record _) fun _ => .pure r
  exact follows_resend noise hfuel hframe hack patience fuel k hfuel (Nat.le_refl k)

/-! ### Receiving -/

theorem follows_nextChar (buf : List Got) :
    Exec.Follows .fuel (Noisy At k) (nextChar clean fuel buf) (nextChar link patience buf) :=
  .bind (follows_getchar noise hfuel) fun _ => .bind (follows_store _) fun _ => .pure _

theorem follows_skipAcks (n : Nat) : ∀ (N : Nat) (buf : List Got) (c : Got), n ≤ N →
    Exec.Follows .fuel (Noisy At k) (skipAcks clean fuel buf c n) (skipAcks link patience buf c N) := by
  induction n with
  | zero =>
    intro N buf c _
    by_cases hc : c.toInt = chPlus.toNat
    · rw [skipAcks, if_pos hc]
      exact Exec.Follows.giveUp _
    · cases N <;> rw [skipAcks, skipAcks, if_neg hc, if_neg hc] <;> exact .pure _
  | succ n ih =>
    intro N buf c hN
    obtain ⟨N, rfl⟩ : ∃ m, N = m + 1 := ⟨N - 1, by omega⟩
    exact .ite (.bind (follows_nextChar noise hfuel buf) fun out => ih N out.1 out.2 (by omega)) (.pure _)

omit noise hfuel in
theorem follows_put (cmdlen : Nat) (f : Payload) (c : Got) :
    Exec.Follows .fuel (Noisy At k) (f.put cmdlen c) (f.put cmdlen c) :=
  .ite (.bind (follows_store _) fun _ => .pure _) (.pure _)

theorem follows_recvPayload (cmdlen n : Nat) : ∀ (f : Payload) (c : Got),
    Exec.Follows .fuel (Noisy At k) (recvPayload clean fuel cmdlen f c n)
      (recvPayload link patience cmdlen f c n) := by
  induction n with
  | zero => exact fun f c => .ite (.pure _) (.exit _)
  | succ n ih =>
    intro f c
    refine .ite (.pure _) (.bind (follows_put cmdlen f c) fun f => ?_)
    exact .bind (follows_nextChar noise hfuel f.buf) fun out => .ite (.pure _) (ih _ out.2)

theorem follows_recvCheck (f : Payload) (ack : Bool) :
    Exec.Follows .fuel (Noisy At k) (recvCheck clean fuel f ack) (recvCheck link patience f ack) := by
  refine .bind (follows_store _) fun _ => .bind (follows_nextChar noise hfuel _) fun h1 => ?_
  refine .bind (follows_nextChar noise hfuel _) fun h2 => .bind ?_ fun sumRecv => ?_
  · -- the sum that was read, or what its variable held
    unfold recvSum
    split
    · exact .pure _
    · exact .bind (follows_onLink fun _ _ _ => noise.stack) fun _ => .pure _
  · refine .ite (.bind (follows_putchar noise hfuel _) fun _ => ?_) ?_ <;>
      exact .bind (follows_record _) fun _ => .pure _

theorem follows_gdbRemoteRecv (cmdlen : Nat) (ack : Bool) :
    Exec.Follows .fuel (Noisy At k) (gdbRemoteRecv clean fuel cmdlen ack)
      (gdbRemoteRecv link patience cmdlen ack) := by
  unfold gdbRemoteRecv recvFrame
  refine .bind (follows_nextChar noise hfuel []) fun first => ?_
  refine .bind (follows_skipAcks noise hfuel fuel patience _ _ (by omega)) fun start => ?_
  refine .ite (.bind (follows_nextChar noise hfuel _) fun body => ?_) (.bind (.pure _) fun body => ?_)
  all_goals
    refine .bind (follows_recvPayload noise hfuel cmdlen buflen _ _) fun out => ?_
    exact .ite (.bind (follows_record _) fun _ => .pure _) (follows_recvCheck noise hfuel _ _)

/-! ## Operations -/

/-! ### Run and stop -/

theorem follows_gdbRemoteRun : Exec.Follows .fuel (Noisy At k) (gdbRemoteRun (some clean) fuel)
    (gdbRemoteRun (some link) patience) :=
  follows_gdbRemoteSend noise hfuel fun _ h => h.run rfl

omit hfuel in
/-- ETX is neither an acknowledgement nor a frame. -/
theorem follows_gdbRemoteSendInterrupt : Exec.Follows .fuel (Noisy At k) (gdbRemoteSendInterrupt clean)
    (gdbRemoteSendInterrupt link) := by
  have hsend : Exec.Follows .fuel (Noisy At k) (sockSend clean [0x03]) (sockSend link [0x03]) := by
    intro s t h
    obtain ⟨j, hj, hat⟩ := h.line
    rcases noise.send [0x03] hat with hsame | ⟨hack, -⟩ | ⟨hawaited, -⟩
    · exact h.sockSend hj hsame
    · rcases hack with hack | hack <;> exact absurd hack (by decide)
    · exact absurd hawaited.frame (by decide)
  exact .bind hsend fun nsent => .refuse (.bind (follows_record _) fun _ => .pure _)

theorem follows_discardLoop (n : Nat) : ∀ (N : Nat) (first : UInt8), n ≤ N →
    Exec.Follows .fuel (Noisy At k) (discardLoop clean fuel first n) (discardLoop link patience first N) := by
  induction n with
  | zero => exact fun N first _ => .giveUp _
  | succ n ih =>
    intro N first hN
    obtain ⟨N, rfl⟩ : ∃ m, N = m + 1 := ⟨N - 1, by omega⟩
    exact .bind (follows_gdbRemoteRecv noise hfuel 4096 true) fun out => .ite (.pure _) (ih N _ (by omega))

theorem follows_gdbRemoteDiscardAll : Exec.Follows .fuel (Noisy At k) (gdbRemoteDiscardAll clean fuel)
    (gdbRemoteDiscardAll link patience) := by
  refine .bind (follows_onLink fun _ _ _ => noise.stack) fun tmpbuf => ?_
  refine .bind (follows_gdbRemoteSend noise hfuel fun _ h => h.resync rfl) fun _ => ?_
  exact .bind (follows_discardLoop noise hfuel fuel patience _ (by omega)) fun _ => .pure _

theorem follows_stopLoop (n : Nat) : ∀ N, n ≤ N →
    Exec.Follows .fuel (Noisy At k) (stopLoop clean fuel n) (stopLoop link patience N) := by
  induction n with
  | zero => exact fun N _ => .giveUp _
  | succ n ih =>
    intro N hN
    obtain ⟨N, rfl⟩ : ∃ m, N = m + 1 := ⟨N - 1, by omega⟩
    have hagain := ih N (by omega)
    refine .bind (follows_gdbRemoteRecv noise hfuel 4095 true) fun out => .ite (.pure _) (.ite hagain ?_)
    exact .ite (.bind (follows_gdbRemoteDiscardAll noise hfuel) fun _ => .pure _) hagain

theorem follows_gdbRemoteStop : Exec.Follows .fuel (Noisy At k) (gdbRemoteStop (some clean) fuel)
    (gdbRemoteStop (some link) patience) :=
  .bind (follows_gdbRemoteSendInterrupt noise) fun _ => follows_stopLoop noise hfuel fuel patience (by omega)

/-! ### Reset -/

omit noise hfuel in
/-- Any frame may be lost when it is waited for. -/
theorem waited {cmd : List UInt8} : true = false → ¬ Awaited (Packet.command cmd).bytes := nofun

theorem follows_openocdResetLoop (n : Nat) : ∀ N, n ≤ N →
    Exec.Follows .fuel (Noisy At k) (openocdResetLoop clean fuel n) (openocdResetLoop link patience N) := by
  induction n with
  | zero => exact fun N _ => .giveUp _
  | succ n ih =>
    intro N hN
    obtain ⟨N, rfl⟩ : ∃ m, N = m + 1 := ⟨N - 1, by omega⟩
    refine .bind (follows_gdbRemoteRecv noise hfuel 4095 true) fun out => .ite (.pure _) ?_
    exact .ite (.pure _) (ih N (by omega))

theorem follows_gdbRemoteOpenocdReset : Exec.Follows .fuel (Noisy At k)
    (gdbRemoteOpenocdReset (some clean) fuel) (gdbRemoteOpenocdReset (some link) patience) :=
  .bind (follows_gdbRemoteSend noise hfuel waited) fun _ =>
    .ite (.pure _) (follows_openocdResetLoop noise hfuel fuel patience (by omega))

theorem follows_gdbRemoteQemuReset : Exec.Follows .fuel (Noisy At k)
    (gdbRemoteQemuReset (some clean) fuel) (gdbRemoteQemuReset (some link) patience) := by
  refine .bind (follows_gdbRemoteSend noise hfuel waited) fun _ => .ite (.pure _) ?_
  exact .bind (follows_gdbRemoteRecv noise hfuel 3 true) fun out => .ite (.pure _) (.ite (.pure _) (.pure _))

/-! ### Memory -/

omit noise hfuel in
theorem follows_pieces {one : Nat → Nat → Gdb τ (ClInt × List UInt8)}
    {one' : Nat → Nat → Gdb σ (ClInt × List UInt8)}
    (hone : ∀ p l, Exec.Follows .fuel (Noisy At k) (one p l) (one' p l)) (len n : Nat) :
    ∀ (p : Nat) (got : Nat → Option UInt8),
      Exec.Follows .fuel (Noisy At k) (pieces one len n p got) (pieces one' len n p got) := by
  induction n with
  | zero => exact fun p got => .pure _
  | succ n ih => exact fun p got => .ite (.bind (hone p _) fun out => .ite (.pure _) (ih _ _)) (.pure _)

omit hfuel in
/-- The allocation of a buffer. -/
theorem follows_calloc : Exec.Follows .fuel (Noisy At k) (onLink clean.calloc) (onLink link.calloc) :=
  follows_onLink fun _ _ _ => noise.calloc

theorem follows_readMemOne (paddr : UInt64) (len : Nat) : Exec.Follows .fuel (Noisy At k)
    (gdbRemoteReadMemOne clean fuel paddr len) (gdbRemoteReadMemOne link patience paddr len) := by
  refine .ite (.pure _) (.bind (follows_gdbRemoteSend noise hfuel waited) fun r => .ite (.pure _) ?_)
  refine .bind (follows_calloc noise) fun ok => .bind (follows_record _) fun _ => .ite (.pure _) ?_
  exact .bind (follows_gdbRemoteRecv noise hfuel _ true) fun out => .ite (.pure _) (.pure _)

theorem follows_gdbRemoteReadMem (paddr : UInt64) (len : Nat) : Exec.Follows .fuel (Noisy At k)
    (gdbRemoteReadMem (some clean) fuel paddr len) (gdbRemoteReadMem (some link) patience paddr len) :=
  follows_pieces (fun _ _ => follows_readMemOne noise hfuel _ _) len len 0 _

theorem follows_writeOne (request : UInt64 → List UInt8 → List UInt8) (paddr : UInt64) (bs : List UInt8) :
    Exec.Follows .fuel (Noisy At k) (writeOne clean fuel request paddr bs)
      (writeOne link patience request paddr bs) := by
  refine .ite (.pure _) (.bind (follows_calloc noise) fun ok => .bind (follows_record _) fun _ => ?_)
  refine .ite (.pure _) (.bind (follows_gdbRemoteSend noise hfuel waited) fun r => .ite (.pure _) ?_)
  exact .bind (follows_gdbRemoteRecv noise hfuel 3 true) fun out => .pure _

/-- Either of the two writes. -/
theorem follows_writePieces (request : UInt64 → List UInt8 → List UInt8) (paddr : UInt64)
    (bs : List UInt8) : Exec.Follows .fuel (Noisy At k)
      (writePieces (writeOne clean fuel request) paddr bs)
      (writePieces (writeOne link patience request) paddr bs) := by
  refine .bind (follows_pieces (fun p l => ?_) _ _ _ _) fun _ => .pure _
  exact .bind (follows_writeOne noise hfuel request _ _) fun _ => .pure _

/-! ## Sessions -/

theorem follows_exec (op : SessionOp) :
    Exec.Follows .fuel (Noisy At k) (op.exec clean fuel) (op.exec link patience) := by
  cases op with
  | openocdReset => exact follows_gdbRemoteOpenocdReset noise hfuel
  | qemuReset => exact follows_gdbRemoteQemuReset noise hfuel
  | readMem paddr len => exact .bind (follows_gdbRemoteReadMem noise hfuel paddr len) fun _ => .pure _
  | writeMem paddr bs => exact follows_writePieces noise hfuel writeMemRequest paddr bs
  | writeBin paddr bs => exact follows_writePieces noise hfuel writeBinRequest paddr bs
  | runStop =>
    refine .bind (follows_gdbRemoteRun noise hfuel) fun r => .ite (.pure _) ?_
    exact follows_gdbRemoteStop noise hfuel

end Bounded

end Driver

/-- What an operation returns, with the bytes of a read. -/
def SessionOp.answer (link : Link σ) (fuel : Nat) : SessionOp → Gdb σ (ClInt × (Nat → Option UInt8))
  | .readMem paddr len => gdbRemoteReadMem (some link) fuel paddr len
  | op => do
    let r ← op.exec link fuel
    return (r, fun _ => none)

/-- The operations of a session, one after the other. -/
def answers (link : Link σ) (fuel : Nat) (ops : List SessionOp) :
    Gdb σ (List (ClInt × (Nat → Option UInt8))) := ops.mapM (SessionOp.answer link fuel)

theorem follows_answer {clean : Link τ} {link : Link σ} {At Lost : Nat → τ → σ → Prop}
    (noise : Noise clean link At Lost) {fuel patience k : Nat} (hfuel : fuel + k ≤ patience)
    (op : SessionOp) :
    Exec.Follows .fuel (Noisy At k) (op.answer clean fuel) (op.answer link patience) := by
  cases op with
  | readMem paddr len => exact follows_gdbRemoteReadMem noise hfuel paddr len
  | _ => exact .bind (follows_exec noise hfuel _) fun _ => .pure _

/-! ### A line with a schedule -/

instance (bs : List UInt8) : Decidable (IsAck bs) := inferInstanceAs (Decidable (_ ∨ _))

instance (bs : List UInt8) : Decidable (Awaited bs) :=
  decidable_of_iff (1 < bs.length ∧ bs ≠ (Packet.command runCmd).bytes ∧ bs ≠ discardRequest)
    ⟨fun h => ⟨h.1, h.2.1, h.2.2⟩, fun h => ⟨h.frame, h.run, h.resync⟩⟩

/-- A line, which of its next system calls are disturbed, and whether a request was lost. -/
structure Jammed (τ : Type) where
  line : τ
  schedule : List Bool
  lost : Bool

/-- The clean line with the disturbances of a schedule: a `recv` may be interrupted, and an acknowledgement
may be lost, which the host then sees as `-`. -/
def jam (clean : Link τ) : Link (Jammed τ) where
  recv j :=
    if j.schedule.headD false then (.interrupted, ⟨j.line, j.schedule.tail, j.lost⟩)
    else if j.lost then (.byte chMinus, ⟨j.line, j.schedule.tail, false⟩)
    else ((clean.recv j.line).1, ⟨(clean.recv j.line).2, j.schedule.tail, false⟩)
  send bs j :=
    if j.schedule.headD false ∧ IsAck bs then (.interrupted, ⟨j.line, j.schedule.tail, j.lost⟩)
    else if j.schedule.headD false ∧ Awaited bs then (.count bs.length, ⟨j.line, j.schedule.tail, true⟩)
    else ((clean.send bs j.line).1, ⟨(clean.send bs j.line).2, j.schedule.tail, j.lost⟩)
  calloc j := ((clean.calloc j.line).1, ⟨(clean.calloc j.line).2, j.schedule, j.lost⟩)
  stack j := ((clean.stack j.line).1, ⟨(clean.stack j.line).2, j.schedule, j.lost⟩)

/-- The disturbed line stands where the clean one does, and at most `k` of the calls to come are disturbed. -/
structure JammedAt (lost : Bool) (k : Nat) (t : τ) (j : Jammed τ) : Prop where
  line : j.line = t
  lost : j.lost = lost
  schedule : j.schedule.count true ≤ k

theorem count_tail_le (bits : List Bool) : bits.tail.count true ≤ bits.count true :=
  (List.tail_sublist bits).count_le true

theorem count_tail_lt {bits : List Bool} (h : bits.headD false = true) :
    bits.tail.count true < bits.count true := by
  cases bits with
  | nil => exact absurd h (by simp)
  | cons b bits =>
    obtain rfl : b = true := h
    simp

theorem noise_jam (clean : Link τ) : Noise clean (jam clean) (JammedAt false) (JammedAt true) where
  recv := by
    rintro k _ ⟨t, bits, _⟩ ⟨rfl, rfl, hk⟩
    by_cases hhit : bits.headD false = true
    · have hrecv : (jam clean).recv ⟨t, bits, false⟩ = (.interrupted, ⟨t, bits.tail, false⟩) := if_pos hhit
      rw [hrecv]
      exact .inr ⟨rfl, _, Nat.lt_of_lt_of_le (count_tail_lt hhit) hk, rfl, rfl, Nat.le_refl _⟩
    · have hrecv : (jam clean).recv ⟨t, bits, false⟩ =
          ((clean.recv t).1, ⟨(clean.recv t).2, bits.tail, false⟩) := if_neg hhit
      rw [hrecv]
      exact .inl ⟨rfl, rfl, rfl, (count_tail_le bits).trans hk⟩
  send := by
    rintro k _ ⟨t, bits, _⟩ bs ⟨rfl, rfl, hk⟩
    by_cases hack : bits.headD false = true ∧ IsAck bs
    · have hsend : (jam clean).send bs ⟨t, bits, false⟩ = (.interrupted, ⟨t, bits.tail, false⟩) := if_pos hack
      rw [hsend]
      exact .inr (.inl ⟨hack.2, rfl, _, Nat.lt_of_lt_of_le (count_tail_lt hack.1) hk, rfl, rfl,
        Nat.le_refl _⟩)
    by_cases hawaited : bits.headD false = true ∧ Awaited bs
    · have hsend : (jam clean).send bs ⟨t, bits, false⟩ = (.count bs.length, ⟨t, bits.tail, true⟩) :=
        (if_neg hack).trans (if_pos hawaited)
      rw [hsend]
      exact .inr (.inr ⟨hawaited.2, rfl, _, Nat.lt_of_lt_of_le (count_tail_lt hawaited.1) hk, rfl, rfl,
        Nat.le_refl _⟩)
    · have hsend : (jam clean).send bs ⟨t, bits, false⟩ =
          ((clean.send bs t).1, ⟨(clean.send bs t).2, bits.tail, false⟩) :=
        (if_neg hack).trans (if_neg hawaited)
      rw [hsend]
      exact .inl ⟨rfl, rfl, rfl, (count_tail_le bits).trans hk⟩
  lost := by
    rintro k _ ⟨t, bits, _⟩ ⟨rfl, rfl, hk⟩
    by_cases hhit : bits.headD false = true
    · have hrecv : (jam clean).recv ⟨t, bits, true⟩ = (.interrupted, ⟨t, bits.tail, true⟩) := if_pos hhit
      rw [hrecv]
      exact .inr ⟨rfl, _, Nat.lt_of_lt_of_le (count_tail_lt hhit) hk, rfl, rfl, Nat.le_refl _⟩
    · have hrecv : (jam clean).recv ⟨t, bits, true⟩ = (.byte chMinus, ⟨t, bits.tail, false⟩) :=
        (if_neg hhit).trans (if_pos rfl)
      rw [hrecv]
      exact .inl ⟨rfl, rfl, rfl, (count_tail_le bits).trans hk⟩
  calloc := by
    rintro k _ ⟨t, bits, _⟩ ⟨rfl, rfl, hk⟩
    exact ⟨rfl, rfl, rfl, hk⟩
  stack := by
    rintro k _ ⟨t, bits, _⟩ ⟨rfl, rfl, hk⟩
    exact ⟨rfl, rfl, rfl, hk⟩

/-! ### Whole sessions -/

/-- **A session over a noisy line.** Whatever operations are asked for in whatever order: over a line with at
most `k` disturbances, with so many more tries, the driver returns what it returns over the clean line, makes
the same calls with the same results, and leaves behind the line what is left there without disturbances. -/
theorem session_overNoise (clean : Link τ) (link : Link σ) (At Lost : Nat → τ → σ → Prop)
    (noise : Noise clean link At Lost) (fuel patience k : Nat) (hfuel : fuel + k ≤ patience)
    (ops : List SessionOp) (s : Port τ) (l : σ) (hat : At k s.link l)
    (hclean : (answers clean fuel ops s).1 ≠ .error .fuel) :
    let out := answers clean fuel ops s
    let noisy := answers link patience ops { link := l, log := s.log, stores := s.stores }
    noisy.1 = out.1 ∧ noisy.2.log = out.2.log ∧ noisy.2.stores = out.2.stores ∧
      ∃ j, j ≤ k ∧ At j out.2.link noisy.2.link := by
  have hstart : Noisy At k s { link := l, log := s.log, stores := s.stores } :=
    ⟨rfl, rfl, k, Nat.le_refl k, hat⟩
  obtain ⟨hret, hend⟩ := Exec.Follows.mapM (follows_answer noise hfuel) ops s _ hstart hclean
  exact ⟨hret, hend.log, hend.stores, hend.line⟩

/-- A session of four operations: a reset, a write of two bytes, a run, and the two bytes read back. -/
def resetWriteRunRead : List SessionOp :=
  [.openocdReset, .writeBin 0x80000000 [0x2a, 0x23], .runStop, .readMem 0x80000000 2]

/-- A board that is halted, with nothing under way. -/
def idleBoard : BoardStub := ⟨fun _ => 0, [], false⟩

/-- The reset is lost twice; in between and behind it calls are interrupted. -/
def jammedBoard : Jammed BoardStub :=
  ⟨idleBoard, [true, false, true, true, false, false, true, true, false, true], false⟩

theorem jammedBoard_overNoise :
    let out := answers (boardStub id) 3 resetWriteRunRead { link := idleBoard }
    let noisy := answers (jam (boardStub id)) 9 resetWriteRunRead
      { link := jammedBoard, log := [], stores := [] }
    noisy.1 = out.1 ∧ noisy.2.log = out.2.log ∧ noisy.2.stores = out.2.stores ∧
      ∃ j, j ≤ 6 ∧ JammedAt false j out.2.link noisy.2.link := by
  refine session_overNoise (boardStub id) (jam (boardStub id)) (JammedAt false) (JammedAt true)
    (noise_jam (boardStub id)) 3 9 6 (by decide) resetWriteRunRead { link := idleBoard } jammedBoard
    ⟨rfl, rfl, by decide⟩ fun hfuel => ?_
  have hok : (answers (boardStub id) 3 resetWriteRunRead { link := idleBoard }).1.isOk = true := by
    decide +kernel
  rw [hfuel] at hok
  cases hok

/-! ## A host -/

/-- The board behind the noisy line is the one that the clean line would have. -/
def WiredNoisy (Halted : ByteMap → List UInt8 → τ → Prop) (Running : ByteMap → τ → Prop)
    (At : Nat → τ → σ → Prop) (k : Nat) (d : Target) (t : Port σ) : Prop :=
  ∃ s, Wired Halted Running d s ∧ Noisy At k s t

section Host

variable {clean : Link τ} {link : Link σ} {At Lost : Nat → τ → σ → Prop} {k fuel patience talk : Nat}
  {Halted : ByteMap → List UInt8 → τ → Prop} {Running : ByteMap → τ → Prop} {reset go : ByteMap → ByteMap}

/-- What is done over the clean line is done over the noisy one.  That the clean call returns is seen from
this: it would do the same whatever stood for a call that never does. -/
theorem Does.overNoise {q : Request} {α : Type} {S : α → α → Prop} {f : Target → α × Target} {m : Gdb τ α}
    {n : Gdb σ α} (stuck : ClInt → α)
    (hdoes : ∀ r, Does Target.Admits (Wired Halted Running) q S f (returned (stuck r) m))
    (hS : ∀ x, ∃ r, ¬ S x (stuck r)) (hfollow : Exec.Follows .fuel (Noisy At k) m n) (r : ClInt) :
    Does Target.Admits (WiredNoisy Halted Running At k) q S f (returned (stuck r) n) := by
  rintro d t hA ⟨s, hwired, hnoisy⟩
  rcases hrun : m s with ⟨err | a, s'⟩
  · obtain ⟨r', hr'⟩ := hS (f d).1
    have hsame := (hdoes r' d s hA hwired).1
    rw [returned_of_error hrun] at hsame
    exact absurd hsame hr'
  · have hclean := hdoes r d s hA hwired
    obtain ⟨hret, hend⟩ := hfollow s t hnoisy (by simp [hrun])
    rw [returned_of_ok hrun] at hclean
    rw [hrun] at hret hend
    rw [returned_of_ok (Prod.ext hret rfl : n t = (.ok a, (n t).2))]
    exact ⟨hclean.1, s', hclean.2, hend⟩

theorem exists_ne (r : ClInt) : ∃ r', ¬ r = r' := ⟨r + 1, (Int.lt_succ r).ne⟩

/-- The tables of the drivers, whichever reset and write are theirs. -/
theorem gdbRemoteOps_overNoise (noise : Noise clean link At Lost) (hfuel : fuel + k ≤ patience)
    {resetOp : Gdb τ ClInt} {resetOp' : Gdb σ ClInt} {write : UInt64 → List UInt8 → Gdb τ ClInt}
    {write' : UInt64 → List UInt8 → Gdb σ ClInt}
    (hsim : ∀ r, DevOps.Simulates Target.Admits (Wired Halted Running) (targetOps reset go)
      (gdbRemoteOps clean fuel r resetOp write))
    (hreset : Exec.Follows .fuel (Noisy At k) resetOp resetOp')
    (hwrite : ∀ paddr data, Exec.Follows .fuel (Noisy At k) (write paddr data) (write' paddr data))
    (stuck : ClInt) :
    DevOps.Simulates Target.Admits (WiredNoisy Halted Running At k) (targetOps reset go)
      (gdbRemoteOps link patience stuck resetOp' write') where
  reset := .some <| Does.overNoise id (fun r => Option.rel_some_some.mp (hsim r).reset) exists_ne
    hreset stuck
  run := .some <| Does.overNoise id (fun r => Option.rel_some_some.mp (hsim r).run) exists_ne
    (follows_gdbRemoteRun noise hfuel) stuck
  stop := .some <| Does.overNoise id (fun r => Option.rel_some_some.mp (hsim r).stop) exists_ne
    (follows_gdbRemoteStop noise hfuel) stuck
  read := .some fun paddr len => Does.overNoise (fun r => (r, fun _ => none))
    (fun r => Option.rel_some_some.mp (hsim r).read paddr len)
    (fun x => (exists_ne x.1).imp fun _ h => fun hx => h hx.1)
    (follows_gdbRemoteReadMem noise hfuel paddr len.toNat) stuck
  write := .some fun paddr data => Does.overNoise id
    (fun r => Option.rel_some_some.mp (hsim r).write paddr data) exists_ne (hwrite paddr data) stuck

end Host

/-- **A host over a noisy line.** With a debug stub behind a line with at most `k` disturbances, and so many
more tries for the drivers of the devices, every run of a host whose launches are ready shows what it shows
over a target: the calls return the same, the launches see the same of their device, the heap and the objects
are the same behind it, and the stub has the processor that the target is. -/
theorem runCalls_overNoise (clean : Link τ) (link : Link σ) (At Lost : Nat → τ → σ → Prop)
    (noise : Noise clean link At Lost) (fuel patience k talk : Nat) (hfuel : fuel + k ≤ patience)
    (Halted : ByteMap → List UInt8 → τ → Prop) (Running : ByteMap → τ → Prop) (reset go : ByteMap → ByteMap)
    (hstub : DebugStub clean talk Halted Running reset go) (htalk : talk + 1 < fuel) (stuck : ClInt)
    (env : Env) (allocs : Heap → Allocs) (run : HostRun) (q : Process (Port σ)) (m : ByteMap) (t : τ)
    (hops : ∀ dev ops, (q.devs dev).ops = some ops →
      ops = gdbRemoteOpenocdOps link patience stuck ∨ ops = gdbRemoteQemuOps link patience stuck)
    (hs : Halted m [] t) (hat : At k t q.dev.link) (hrun : ReadyRun env allocs run (q.onTarget reset go m)) :
    let out := runCalls env allocs run q
    let ideal := runCalls env allocs run (q.onTarget reset go m)
    out.1 = ideal.1 ∧ out.2.heap = ideal.2.heap ∧ out.2.prgs = ideal.2.prgs ∧ out.2.ctxs = ideal.2.ctxs ∧
      out.2.cmdqs = ideal.2.cmdqs ∧ out.2.names = ideal.2.names ∧
      WiredNoisy Halted Running At k ideal.2.dev out.2.dev := by
  refine Process.runCalls_onTarget (fun dev ops hdev => ?_) ?_ hrun
  · rcases hops dev ops hdev with rfl | rfl
    · exact gdbRemoteOps_overNoise noise hfuel (fun r => hstub.gdbRemoteOpenocdOps_simulates htalk r)
        (follows_gdbRemoteOpenocdReset noise hfuel) (follows_writePieces noise hfuel writeBinRequest) stuck
    · exact gdbRemoteOps_overNoise noise hfuel (fun r => hstub.gdbRemoteQemuOps_simulates htalk r)
        (follows_gdbRemoteQemuReset noise hfuel) (follows_writePieces noise hfuel writeMemRequest) stuck
  · exact ⟨⟨t, q.dev.log, [], q.dev.stores⟩, (wired_halted rfl).mpr hs, rfl, rfl, k, Nat.le_refl k, hat⟩

/-- The process of the board, with a line in front of it that is jammed now and then. -/
def jammedProcess : Process (Port (Jammed BoardStub)) where
  heap := smallProcess.heap
  names := smallProcess.names
  cmdqs := smallProcess.cmdqs
  ctxs := smallProcess.ctxs
  devs _ := ⟨openclIcdMagic, some
    (gdbRemoteOpenocdOps (jam (boardStub (doneAt ⟨0x80010000, 0x100000⟩))) 9 clInvalidDevice)⟩
  prgs := smallProcess.prgs
  dev := { link := jammedBoard }

/-- A program, its kernel, an argument and the launch. -/
theorem jammedProcess_overNoise :
    let run := (overwriting 0x400).map Turn.first
    let out := runCalls (bumpEnv 0) (fun _ => .all) run jammedProcess
    let ideal := runCalls (bumpEnv 0) (fun _ => .all) run
      (jammedProcess.onTarget id (doneAt ⟨0x80010000, 0x100000⟩) fun _ => 0)
    out.1 = ideal.1 ∧ out.2.heap = ideal.2.heap ∧ out.2.prgs = ideal.2.prgs ∧ out.2.ctxs = ideal.2.ctxs ∧
      out.2.cmdqs = ideal.2.cmdqs ∧ out.2.names = ideal.2.names ∧
      WiredNoisy BoardHalted BoardRunning (JammedAt false) 6 ideal.2.dev out.2.dev := by
  refine runCalls_overNoise (boardStub (doneAt ⟨0x80010000, 0x100000⟩)) _ (JammedAt false) (JammedAt true)
    (noise_jam _) 3 9 6 1 (by decide) BoardHalted BoardRunning id (doneAt ⟨0x80010000, 0x100000⟩)
    (boardStub_debugStub _) (by decide) clInvalidDevice (bumpEnv 0) (fun _ => .all)
    ((overwriting 0x400).map Turn.first) jammedProcess (fun _ => 0) idleBoard ?_ rfl ⟨rfl, rfl, by decide⟩ ?_
  · exact fun _ ops h => .inl (Option.some.inj h).symm
  · decide +kernel

end BaremetalCrt
