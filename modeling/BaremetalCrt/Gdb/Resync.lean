/-
# BaremetalCrt.Gdb.Resync — what `gdb_remote_discard_all` does to a backlog.

Replies that nobody waited for lie in front of the empty answer to `vMustReplyEmpty`, with
acknowledgements anywhere between them.  A receive takes the acknowledgements with the frame behind them,
so that a round of the loop is one frame, and the loop takes all of them and not a byte more
(`gdbRemoteDiscardAll_resyncs`).

The backlog is a list of items, and any list will do whose frames are not empty, hold no NUL and fit the
buffer with the acknowledgements in front of them. A stop reply that came too late is such a frame; with it
the discarding is what it is meant for.
-/
import BaremetalCrt.Gdb.Frame
import BaremetalCrt.Gdb.Remote

namespace BaremetalCrt

open Lib

/-! ## The backlog -/

/-- What may be left over from earlier requests: an acknowledgement, or an intact frame. -/
inductive StaleItem where
  | ack
  | reply (p : Packet)

/-- The item, as it comes over the socket. -/
def StaleItem.bytes : StaleItem → List UInt8
  | .ack => [chPlus]
  | .reply p => p.bytes

/-- What passes over the socket when the item is received: a frame is answered with `+`. -/
def StaleItem.wire : StaleItem → List Wire
  | .ack => [.received chPlus]
  | .reply p => p.bytes.map .received ++ [.sent [chPlus]]

/-- The frame without a payload, which the resynchronisation waits for. -/
def emptyReply : Packet := .of [] (by simp)

/-- The answer of a stub to `vMustReplyEmpty`: its acknowledgement, and the empty frame. -/
def emptyAnswer : List StaleItem := [.ack, .reply emptyReply]

/-- Behind `k` acknowledgements: the frames have payloads without NUL, and each of them, and the empty one
behind all, fits the buffer with the acknowledgements in front of it. -/
def Backlog : Nat → List StaleItem → Prop
  | k, [] => k + 1 + emptyReply.bytes.length ≤ buflen
  | k, .ack :: items => Backlog (k + 1) items
  | k, .reply p :: items => p.body ≠ [] ∧ 0 ∉ p.body ∧ k + p.bytes.length ≤ buflen ∧ Backlog 0 items

/-- The bytes of the items, one behind the other. -/
def streamOf (items : List StaleItem) : List UInt8 := items.flatMap StaleItem.bytes

theorem streamOf_cons (item : StaleItem) (items : List StaleItem) :
    streamOf (item :: items) = item.bytes ++ streamOf items := List.flatMap_cons

/-! ## The link -/

variable {σ : Type}

/-- The bytes under way are received in their order, what is sent is taken whole, and whatever the peer does
it adds to their end. -/
structure Queued (link : Link σ) (pending : σ → List UInt8) : Prop where
  recv : ∀ l b bs, pending l = b :: bs → (link.recv l).1 = .byte b ∧ bs <+: pending (link.recv l).2
  send : ∀ bs l, (link.send bs l).1 = .count bs.length ∧ pending l <+: pending (link.send bs l).2

section Driver

variable {link : Link σ} {pending : σ → List UInt8} (hqueue : Queued link pending)
include hqueue

/-- What is at the front is fed. -/
theorem Queued.feed (as : List UInt8) : ∀ (l : σ) (bs : List UInt8), as ++ bs <+: pending l →
    ∃ l', Feed link l as l' ∧ bs <+: pending l' := by
  induction as with
  | nil => exact fun l bs h => ⟨l, .nil l, h⟩
  | cons a as ih =>
    intro l bs h
    obtain ⟨more, hmore⟩ := h
    obtain ⟨hbyte, hrest⟩ := hqueue.recv l a (as ++ bs ++ more) (by rw [← hmore]; rfl)
    obtain ⟨l', hfeed, hbs⟩ := ih (link.recv l).2 bs ((List.prefix_append _ more).trans hrest)
    exact ⟨l', .cons (Prod.ext hbyte rfl) hfeed, hbs⟩

/-- A round: the acknowledgements and the frame behind them are taken, and the frame is answered. -/
theorem wp_gdbRemoteRecv_queued (fuel : Nat) {k : Nat} {p : Packet} {rest : List UInt8} {s : Port σ}
    (hfuel : k < fuel) (hroom : k + p.bytes.length ≤ buflen)
    (h : List.replicate k chPlus ++ p.bytes ++ rest <+: pending s.link) :
    Exec.wp (gdbRemoteRecv link fuel 4096 true)
      (fun out s' => out.2 = p.body.take 4095 ++ [0] ∧ rest <+: pending s'.link ∧
        s'.wire = s.wire ++ List.replicate k (.received chPlus) ++ StaleItem.wire (.reply p))
      (fun _ _ => False) s := by
  obtain ⟨l', hfeed, hrest⟩ := hqueue.feed _ _ _ h
  refine wp_gdbRemoteRecv_feed link fuel true hfuel hroom hfeed fun s₁ htook => ?_
  obtain ⟨hcount, hkept⟩ := hqueue.send [chPlus] s₁.link
  -- the answer goes out at once, since the link takes what is sent
  have hput : gdbRemotePutchar link fuel chPlus s₁ = _ :=
    gdbRemotePutchar_eq link fuel (Prod.ext hcount rfl) (by omega)
  rw [finishRecv, if_pos rfl, Exec.wp_bind, Exec.wp_of_ok hput]
  refine ⟨rfl, ?_, ?_⟩
  · rw [← htook.link] at hrest
    exact hrest.trans hkept
  · show s₁.wire ++ [Wire.sent [chPlus]] = _
    rw [htook.wire, List.map_append, List.map_replicate, StaleItem.wire]
    simp only [List.append_assoc]

/-- The loop, with `k` acknowledgements that the next receive will take: the first byte that a round stores is
that of its payload, and zero just behind an empty one. -/
theorem discardLoop_backlog (fuel : Nat) (items : List StaleItem) : ∀ (k n : Nat) (first : UInt8)
    (rest : List UInt8) (s : Port σ), Backlog k items → k + (streamOf (items ++ emptyAnswer)).length ≤ fuel →
    (streamOf (items ++ emptyAnswer)).length ≤ n →
    List.replicate k chPlus ++ streamOf (items ++ emptyAnswer) ++ rest <+: pending s.link →
    Exec.wp (discardLoop link fuel first n)
      (fun _ s' => rest <+: pending s'.link ∧ s'.wire = s.wire ++ List.replicate k (.received chPlus) ++
        (items ++ emptyAnswer).flatMap StaleItem.wire)
      (fun _ _ => False) s := by
  induction items with
  | nil =>
    intro k n first rest s hfits hfuel hn h
    have hlen : (streamOf ([] ++ emptyAnswer)).length = 5 := by rfl
    obtain ⟨n, rfl⟩ : ∃ m, n = m + 1 := ⟨n - 1, by omega⟩
    -- the `+` in front of the empty frame is taken with those before it
    have hstream : List.replicate k chPlus ++ streamOf ([] ++ emptyAnswer) =
        List.replicate (k + 1) chPlus ++ emptyReply.bytes := by
      rw [List.replicate_succ', List.append_assoc]
      rfl
    rw [hstream] at h
    rw [discardLoop, Exec.wp_bind]
    apply (wp_gdbRemoteRecv_queued hqueue fuel (by omega) hfits h).mono _ fun _ _ h => h
    rintro ⟨r, stored⟩ s₁ ⟨hstored, hrest, hwire⟩
    obtain rfl : stored = [0] := hstored
    refine Exec.wp_ite.mpr ⟨fun _ => ⟨hrest, ?_⟩, fun hmore => absurd rfl hmore⟩
    rw [hwire, List.replicate_succ', emptyAnswer]
    simp [StaleItem.wire]
  | cons item items ih =>
    intro k n first rest s hfits hfuel hn h
    rw [List.cons_append, streamOf_cons] at hfuel hn h
    rw [List.length_append] at hfuel hn
    cases item with
    | ack =>
      have hstream : List.replicate k chPlus ++ (StaleItem.bytes .ack ++ streamOf (items ++ emptyAnswer)) =
          List.replicate (k + 1) chPlus ++ streamOf (items ++ emptyAnswer) := by
        rw [List.replicate_succ', List.append_assoc]
        rfl
      rw [hstream] at h
      have hone : (StaleItem.bytes .ack).length = 1 := rfl
      apply (ih (k + 1) n first rest s hfits (by omega) (by omega) h).mono _ fun _ _ h => h
      rintro _ s' ⟨hrest, hwire⟩
      refine ⟨hrest, ?_⟩
      rw [hwire, List.replicate_succ', List.cons_append, List.flatMap_cons]
      simp [StaleItem.wire]
    | reply p =>
      obtain ⟨hbody, hnul, hroom, hfits⟩ := hfits
      have hlen : (StaleItem.bytes (.reply p)).length = p.body.length + 4 := p.length_bytes
      obtain ⟨n, rfl⟩ : ∃ m, n = m + 1 := ⟨n - 1, by omega⟩
      rw [← List.append_assoc, List.append_assoc _ _ rest] at h
      rw [discardLoop, Exec.wp_bind]
      apply (wp_gdbRemoteRecv_queued hqueue fuel (by omega) hroom h).mono _ fun _ _ h => h
      rintro ⟨r, stored⟩ s₁ ⟨hstored, hrest, hwire⟩
      -- the payload begins with a byte that is not NUL
      obtain ⟨b, body, hcons⟩ := List.exists_cons_of_ne_nil hbody
      obtain rfl : stored = (b :: body).take 4095 ++ [0] := hcons ▸ hstored
      have hb : b ≠ 0 := by
        rintro rfl
        apply hnul
        rw [hcons]
        exact List.mem_cons_self ..
      refine Exec.wp_ite.mpr ⟨fun hzero => absurd hzero hb, fun _ => ?_⟩
      apply (ih 0 n _ rest s₁ hfits (by omega) (by omega) hrest).mono _ fun _ _ h => h
      rintro _ s' ⟨hrest', hwire'⟩
      refine ⟨hrest', ?_⟩
      rw [hwire', hwire, List.cons_append, List.flatMap_cons]
      simp [List.append_assoc]

end Driver

/-- The frame of `vMustReplyEmpty`, as the host sends it. -/
def discardRequest : List UInt8 := (Packet.command (ascii "vMustReplyEmpty")).bytes

/-- The state of the link when the request has gone out. -/
def requested (link : Link σ) (l : σ) : σ := (link.send discardRequest (link.stack l).2).2

/-- **Resynchronisation.** When a backlog and the empty answer are under way, `gdb_remote_discard_all`
returns and has taken exactly these; it has sent the request once, and one `+` behind every frame. -/
theorem gdbRemoteDiscardAll_resyncs (link : Link σ) (pending : σ → List UInt8)
    (hqueue : Queued link pending) (items : List StaleItem) (hitems : Backlog 0 items) (rest : List UInt8)
    (s : Port σ) (hstream : streamOf (items ++ emptyAnswer) ++ rest <+: pending (requested link s.link))
    (fuel : Nat) (hfuel : (streamOf (items ++ emptyAnswer)).length ≤ fuel) :
    ∃ s', gdbRemoteDiscardAll link fuel s = (.ok clSuccess, s') ∧ rest <+: pending s'.link ∧
      s'.wire = s.wire ++ .sent discardRequest :: (items ++ emptyAnswer).flatMap StaleItem.wire := by
  have hwp : Exec.wp (gdbRemoteDiscardAll link fuel)
      (fun r s' => r = clSuccess ∧ rest <+: pending s'.link ∧
        s'.wire = s.wire ++ .sent discardRequest :: (items ++ emptyAnswer).flatMap StaleItem.wire)
      (fun _ _ => False) s := by
    have hlen : 5 ≤ (streamOf (items ++ emptyAnswer)).length := by
      rw [streamOf, List.flatMap_append, List.length_append]
      exact Nat.le_add_left 5 _
    obtain ⟨n, rfl⟩ : ∃ n, fuel = n + 1 := ⟨fuel - 1, by omega⟩
    have hsent : gdbRemoteSend link (n + 1) (ascii "vMustReplyEmpty") false
        { s with link := (link.stack s.link).2 } = _ :=
      gdbRemoteSend_of_resend link (n + 1)
        (resend_once link (n + 1) (Prod.ext (hqueue.send discardRequest _).1 rfl) n)
    rw [gdbRemoteDiscardAll, Exec.wp_bind]
    show Exec.wp _ _ _ { s with link := (link.stack s.link).2 }
    rw [Exec.wp_bind, Exec.wp_of_ok hsent, Exec.wp_bind]
    have hloop := discardLoop_backlog hqueue (n + 1) items 0 (n + 1) ((link.stack s.link).1 0) rest { s with
      link := requested link s.link
      wire := s.wire ++ [Wire.sent discardRequest]
      log := s.log ++ [GdbCall.send (ascii "vMustReplyEmpty") clSuccess] } hitems (by omega) hfuel hstream
    apply hloop.mono _ fun _ _ h => h
    rintro _ s' ⟨hrest, hwire⟩
    refine ⟨rfl, hrest, ?_⟩
    rw [hwire]
    simp
  rcases hrun : gdbRemoteDiscardAll link fuel s with ⟨e | r, s'⟩
  · exact (hwp.error hrun).elim
  · obtain ⟨rfl, hrest, hwire⟩ := hwp.ok hrun
    exact ⟨s', rfl, hrest, hwire⟩

/-! ### A stop reply that came too late -/

/-- `scripted` hands out what is in its queue. -/
theorem queued_scripted : Queued scripted id where
  recv l b bs h := by
    obtain rfl : l = b :: bs := h
    exact ⟨rfl, List.prefix_refl _⟩
  send bs l := ⟨rfl, List.prefix_refl _⟩

/-- Two acknowledgements and `S05`, one more and `OK`, and two. -/
def lateReplies : List StaleItem :=
  [.ack, .ack, .reply (.of (ascii "S05") (by decide)), .ack, .reply (.of (ascii "OK") (by decide)), .ack, .ack]

theorem lateReplies_discarded : ∃ s', gdbRemoteDiscardAll scripted 30
      { link := streamOf (lateReplies ++ emptyAnswer) ++ ascii "+$E01#a6" } = (.ok clSuccess, s') ∧
    ascii "+$E01#a6" <+: id s'.link ∧
    s'.wire = [] ++ .sent discardRequest :: (lateReplies ++ emptyAnswer).flatMap StaleItem.wire :=
  gdbRemoteDiscardAll_resyncs scripted id queued_scripted lateReplies
    ⟨by decide, by decide, by decide, by decide, by decide, by decide,
      (by decide : 2 + 1 + emptyReply.bytes.length ≤ buflen)⟩ (ascii "+$E01#a6") _
    (List.prefix_refl _) 30 (by decide)

end BaremetalCrt
