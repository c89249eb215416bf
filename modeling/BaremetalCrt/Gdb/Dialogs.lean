/-
# BaremetalCrt.Gdb.Dialogs — where a dialog can be while the host waits.

Each wait of the driver is a set of dialogs that the stub does not leave on its own: for the `+` of a
command (`AwaitingAck`), for its packets (`Replying`), for a running target to stop while an interrupt is
under way (`Interrupting`, `Stopping`), and for the answer to the resynchronisation behind a stop packet
that may come late (`Halting`, `Resyncing`).  What is read in each of them leads to the next.

Each of these sets is kept by a step of the stub (the lemmas `kept_…`), so that the host may read as late as
it likes; and each says which packet can come next (the lemmas `delivers_…`), so that a receive ends in a
set that is known. The operations of a session are chains of them.
-/
import BaremetalCrt.Gdb.Peer

namespace BaremetalCrt

open Lib

/-- The dialog with `us` in front of what the host has not read. -/
def Dialog.behind (a : Dialog) (us : List Out) : Dialog := { a with unread := us ++ a.unread }

/-- What the stub does is behind what was unread before. -/
theorem DialogStep.of_behind {a a' : Dialog} {us : List Out} (h : DialogStep (a.behind us) a') :
    ∃ b, DialogStep a b ∧ a' = b.behind us := by
  obtain ⟨taken, mode, items, unread⟩ := a
  generalize ha : Dialog.behind _ us = all at h
  cases h with
  | take =>
    cases ha
    exact ⟨_, .take, by simp [Dialog.behind]⟩
  | reply hanswers =>
    cases ha
    exact ⟨_, .reply hanswers, by simp [Dialog.behind]⟩
  | interrupt hmode =>
    cases ha
    exact ⟨_, .interrupt hmode, rfl⟩
  | late stop =>
    cases ha
    exact ⟨_, .late stop, by simp [Dialog.behind]⟩

theorem kept_idle (n : Nat) : Kept (· = Dialog.idle n) := by
  rintro a a' rfl h
  cases h

/-! ## One command -/

/-- A packet that answers command number `n`, which is `cmd`. -/
def own (n : Nat) (cmd : List UInt8) (p : Packet) : Out := .packet ⟨some (n, cmd), p⟩

/-- Packets that answer a command come, and the last of them ends it. -/
inductive Replying (n : Nat) (cmd : List UInt8) : Dialog → Prop
  | busy {ps : List Packet} (h : ∀ p ∈ ps, StubAnswers cmd p false) :
      Replying n cmd ⟨n + 1, .busy n cmd, [], ps.map (own n cmd)⟩
  | done {ps : List Packet} {p : Packet} (h : ∀ p ∈ ps, StubAnswers cmd p false)
      (last : StubAnswers cmd p true) :
      Replying n cmd ⟨n + 1, .halted, [], ps.map (own n cmd) ++ [own n cmd p]⟩

/-- Command `n` was sent and is not acknowledged for the host yet: either the stub has not read it, or its
`+` is the next the host reads. -/
inductive AwaitingAck (n : Nat) (cmd : List UInt8) : Dialog → Prop
  | queued : AwaitingAck n cmd ⟨n, .halted, [.command cmd], []⟩
  | taken {a : Dialog} (h : Replying n cmd a) : AwaitingAck n cmd (a.behind [.plus])

theorem replying_nil (n : Nat) (cmd : List UInt8) : Replying n cmd ⟨n + 1, .busy n cmd, [], []⟩ := by
  have hnone : ∀ p ∈ ([] : List Packet), StubAnswers cmd p false := fun p hp => by cases hp
  exact .busy hnone

theorem kept_replying (n : Nat) (cmd : List UInt8) : Kept (Replying n cmd) := by
  intro a a' ha h
  cases ha with
  | @busy ps hps =>
    cases h with
    | @reply _ _ _ p last _ _ hanswers =>
      cases last with
      | false =>
        have hall := List.forall_mem_append.mpr ⟨hps, List.forall_mem_singleton.mpr hanswers⟩
        have hnext := Replying.busy (n := n) hall
        rwa [List.map_append] at hnext
      | true => exact .done hps hanswers
  | done hps hlast => cases h

theorem kept_awaitingAck (n : Nat) (cmd : List UInt8) : Kept (AwaitingAck n cmd) := by
  intro a a' ha h
  cases ha with
  | queued =>
    cases h with
    | take => exact .taken (replying_nil n cmd)
  | taken hreplying =>
    obtain ⟨b, hb, rfl⟩ := h.of_behind
    exact .taken (kept_replying n cmd _ _ hreplying hb)

/-- Behind a packet of a command: it was the last, and the dialog is over, or there are more. -/
def ReplyRead (n : Nat) (cmd : List UInt8) (r : Reply) (a : Dialog) : Prop :=
  r.cause = some (n, cmd) ∧
    (StubAnswers cmd r.packet true ∧ a = .idle (n + 1) ∨
      StubAnswers cmd r.packet false ∧ Replying n cmd a)

theorem Replying.read {n : Nat} {cmd : List UInt8} {a : Dialog} (h : Replying n cmd a) {u : Out}
    {us : List Out} (hread : a.unread = u :: us) :
    ∃ p, u = own n cmd p ∧ ReplyRead n cmd ⟨some (n, cmd), p⟩ { a with unread := us } := by
  cases h with
  | @busy ps hps =>
    cases ps with
    | nil => cases hread
    | cons p ps =>
      obtain ⟨rfl, rfl⟩ := List.cons.inj hread
      exact ⟨p, rfl, rfl, Or.inr ⟨hps p (List.mem_cons_self ..), .busy fun q hq =>
        hps q (List.mem_cons_of_mem _ hq)⟩⟩
  | @done ps p hps hlast =>
    cases ps with
    | nil =>
      obtain ⟨rfl, rfl⟩ := List.cons.inj hread
      exact ⟨p, rfl, rfl, Or.inl ⟨hlast, rfl⟩⟩
    | cons q ps =>
      obtain ⟨rfl, rfl⟩ := List.cons.inj hread
      exact ⟨q, rfl, rfl, Or.inr ⟨hps q (List.mem_cons_self ..), .done (fun x hx =>
        hps x (List.mem_cons_of_mem _ hx)) hlast⟩⟩

theorem kept_replied (n : Nat) (cmd : List UInt8) (r : Reply) : Kept (ReplyRead n cmd r) := by
  rintro a a' ⟨hcause, ⟨hlast, hidle⟩ | ⟨hmore, hreplying⟩⟩ h
  · exact absurd h fun h => by
      subst hidle
      cases h
  · exact ⟨hcause, Or.inr ⟨hmore, kept_replying n cmd _ _ hreplying h⟩⟩

theorem delivers_replying (n : Nat) (cmd : List UInt8) :
    Delivers (fun _ => Replying n cmd) (ReplyRead n cmd) where
  pre _ := kept_replying n cmd
  post := kept_replied n cmd
  plus j a us h hread := by
    obtain ⟨p, hp, -⟩ := h.read hread
    cases hp
  packet j a r us h hread := by
    obtain ⟨p, hp, hreplied⟩ := h.read hread
    cases hp
    exact hreplied

/-! ## Stop -/

/-- An interrupt that finds the target halted: on its way, read without an answer, or answered with one
more stop packet. -/
inductive Late : List Item → List Out → Prop
  | waiting : Late [.interrupt] []
  | quiet : Late [] []
  | spoken {p : Packet} (stop : IsStop p.body) : Late [] [.packet ⟨none, p⟩]

/-- Behind the `+` of command number `n`, which runs the target: console packets and a stop packet come,
and the interrupt is under way or was read. -/
inductive Stopping (n : Nat) : Dialog → Prop
  | running {ps : List Packet} {items : List Item} (late : Late items [])
      (h : ∀ p ∈ ps, p.body.head? = some 0x4f) :
      Stopping n ⟨n + 1, .busy n runCmd, items, ps.map (own n runCmd)⟩
  | stopped {ps : List Packet} {p : Packet} {items : List Item} {extra : List Out} (late : Late items extra)
      (h : ∀ p ∈ ps, p.body.head? = some 0x4f) (stop : IsStop p.body) :
      Stopping n ⟨n + 1, .halted, items, ps.map (own n runCmd) ++ own n runCmd p :: extra⟩

/-- The run request and the interrupt behind it are under way, or the stub has read them and its `+` is the
next the host reads. -/
inductive Interrupting (n : Nat) : Dialog → Prop
  | queued : Interrupting n ⟨n, .halted, [.command runCmd, .interrupt], []⟩
  | taken {a : Dialog} (h : Stopping n a) : Interrupting n (a.behind [.plus])

/-- Behind the stop packet of the command before number `n`. -/
inductive Halting (n : Nat) : Dialog → Prop
  | late {items : List Item} {extra : List Out} (h : Late items extra) :
      Halting n ⟨n, .halted, items, extra⟩

/-- Command number `n` resynchronises behind a stop. -/
inductive Resyncing (n : Nat) : Dialog → Prop
  | queued {items : List Item} {extra : List Out} (h : Late items extra) :
      Resyncing n ⟨n, .halted, items ++ [.command resyncCmd], extra⟩
  | taken {a : Dialog} {extra : List Out} (h : Late [] extra) (reply : Replying n resyncCmd a) :
      Resyncing n (a.behind (extra ++ [.plus]))

/-- What the stub says of a running target. -/
theorem StubAnswers.run {p : Packet} {last : Bool} (h : StubAnswers runCmd p last) :
    bif last then IsStop p.body else p.body.head? = some 0x4f := by
  cases h with
  | memory h => exact absurd h (by decide)
  | console h => exact absurd h (by decide)
  | ok h => exact absurd h (by decide)
  | resync h => exact absurd h (by decide)
  | running _ hp => exact hp
  | stopped _ hp => exact hp

/-- It answers the resynchronisation with the empty packet. -/
theorem StubAnswers.resyncBody {p : Packet} {last : Bool} (h : StubAnswers resyncCmd p last) :
    last = true ∧ p.body = [] := by
  cases h with
  | memory h => exact absurd h (by decide)
  | console h => exact absurd h (by decide)
  | ok h => exact absurd h (by decide)
  | resync _ hp => exact ⟨rfl, hp⟩
  | running h => exact absurd h (by decide)
  | stopped h => exact absurd h (by decide)

/-- The stub reads a late interrupt, and does nothing else of its own. -/
theorem Late.step {n : Nat} {items : List Item} {extra : List Out} {a' : Dialog} (h : Late items extra)
    (step : DialogStep ⟨n, .halted, items, extra⟩ a') :
    ∃ extra', Late [] extra' ∧ a' = ⟨n, .halted, [], extra'⟩ := by
  cases h with
  | waiting =>
    cases step with
    | interrupt => exact ⟨_, .quiet, rfl⟩
    | late stop => exact ⟨_, .spoken stop, rfl⟩
  | quiet => cases step
  | spoken stop => cases step

theorem kept_halting (n : Nat) : Kept (Halting n) := by
  rintro a a' ⟨hlate⟩ h
  obtain ⟨extra', hlate', rfl⟩ := hlate.step h
  exact .late hlate'

theorem kept_stopping (n : Nat) : Kept (Stopping n) := by
  intro a a' ha h
  cases ha with
  | @running ps items late hps =>
    generalize hmode : StubMode.busy n runCmd = mode at h
    cases h with
    | take => cases hmode
    | @reply _ _ _ p last _ _ hanswers =>
      cases hmode
      have hbody := hanswers.run
      cases last with
      | false =>
        have hall := List.forall_mem_append.mpr ⟨hps, List.forall_mem_singleton.mpr hbody⟩
        have hnext := Stopping.running (n := n) late hall
        rwa [List.map_append] at hnext
      | true => exact .stopped late hps hbody
    | interrupt =>
      cases hmode
      cases late with
      | waiting => exact .running .quiet hps
    | late => cases hmode
  | @stopped ps p items extra late hps stop =>
    -- what comes is behind the stop packet
    obtain ⟨b, hb, rfl⟩ : ∃ b, DialogStep ⟨n + 1, .halted, items, extra⟩ b ∧
        a' = b.behind (ps.map (own n runCmd) ++ [own n runCmd p]) := by
      apply DialogStep.of_behind
      simpa [Dialog.behind] using h
    obtain ⟨extra', hlate', rfl⟩ := late.step hb
    have hnext := Stopping.stopped (n := n) hlate' hps stop
    simpa [Dialog.behind] using hnext

theorem stopping_nil (n : Nat) : Stopping n ⟨n + 1, .busy n runCmd, [.interrupt], []⟩ := by
  have hnone : ∀ p ∈ ([] : List Packet), p.body.head? = some 0x4f := fun p hp => by cases hp
  exact .running .waiting hnone

theorem kept_interrupting (n : Nat) : Kept (Interrupting n) := by
  intro a a' ha h
  cases ha with
  | queued =>
    cases h with
    | take => exact .taken (stopping_nil n)
  | taken hstopping =>
    obtain ⟨b, hb, rfl⟩ := h.of_behind
    exact .taken (kept_stopping n _ _ hstopping hb)

theorem kept_resyncing (n : Nat) : Kept (Resyncing n) := by
  intro a a' ha h
  cases ha with
  | queued hlate =>
    -- the command is taken behind the interrupt
    have htake {extra : List Out} (hextra : Late [] extra) :
        Resyncing n ⟨n + 1, .busy n resyncCmd, [], extra ++ [.plus]⟩ := by
      have hnext := Resyncing.taken hextra (replying_nil n resyncCmd)
      simpa [Dialog.behind] using hnext
    cases hlate with
    | waiting =>
      cases h with
      | interrupt => exact .queued .quiet
      | late stop => exact .queued (.spoken stop)
    | quiet =>
      cases h with
      | take => exact htake .quiet
    | spoken stop =>
      cases h with
      | take => exact htake (.spoken stop)
  | taken hextra hreplying =>
    obtain ⟨b, hb, rfl⟩ := h.of_behind
    exact .taken hextra (kept_replying n _ _ _ hreplying hb)

/-! ## What is read on the way to a stop -/

/-- Behind a packet of a target that is to stop: it was the stop packet, or the target runs on. -/
def StopRead (n : Nat) (r : Reply) (a : Dialog) : Prop :=
  r.cause = some (n, runCmd) ∧
    (IsStop r.packet.body ∧ Halting (n + 1) a ∨ r.packet.body.head? = some 0x4f ∧ Stopping n a)

theorem kept_stopRead (n : Nat) (r : Reply) : Kept (StopRead n r) := by
  rintro a a' ⟨hcause, ⟨hstop, hhalting⟩ | ⟨hmore, hstopping⟩⟩ h
  · exact ⟨hcause, Or.inl ⟨hstop, kept_halting _ _ _ hhalting h⟩⟩
  · exact ⟨hcause, Or.inr ⟨hmore, kept_stopping _ _ _ hstopping h⟩⟩

theorem Stopping.read {n : Nat} {a : Dialog} (h : Stopping n a) {u : Out} {us : List Out}
    (hread : a.unread = u :: us) :
    ∃ p, u = own n runCmd p ∧ StopRead n ⟨some (n, runCmd), p⟩ { a with unread := us } := by
  cases h with
  | @running ps items late hps =>
    cases ps with
    | nil => cases hread
    | cons p ps =>
      obtain ⟨rfl, rfl⟩ := List.cons.inj hread
      obtain ⟨hp, hps⟩ := List.forall_mem_cons.mp hps
      exact ⟨p, rfl, rfl, Or.inr ⟨hp, .running late hps⟩⟩
  | @stopped ps p items extra late hps stop =>
    cases ps with
    | nil =>
      obtain ⟨rfl, rfl⟩ := List.cons.inj hread
      exact ⟨p, rfl, rfl, Or.inl ⟨stop, .late late⟩⟩
    | cons q ps =>
      obtain ⟨rfl, rfl⟩ := List.cons.inj hread
      obtain ⟨hq, hps⟩ := List.forall_mem_cons.mp hps
      exact ⟨q, rfl, rfl, Or.inr ⟨hq, .stopped late hps stop⟩⟩

/-- While the target is to stop, its `+` may be unread or read. -/
def stopWait (n : Nat) : Nat → Dialog → Prop
  | 0 => Stopping n
  | _ => fun a => Interrupting n a ∨ Stopping n a

theorem delivers_stopWait (n : Nat) : Delivers (stopWait n) (StopRead n) where
  pre j := by
    cases j with
    | zero => exact kept_stopping n
    | succ j =>
      rintro a a' (ha | ha) h
      · exact Or.inl (kept_interrupting n _ _ ha h)
      · exact Or.inr (kept_stopping n _ _ ha h)
  post := kept_stopRead n
  plus j a us h hread := by
    have hno (hs : Stopping n a) : False := by
      obtain ⟨p, hp, -⟩ := hs.read hread
      cases hp
    cases j with
    | zero => exact (hno h).elim
    | succ j =>
      refine ⟨j, rfl, ?_⟩
      rcases h with h | h
      · cases h with
        | queued => cases hread
        | taken hstopping =>
          obtain ⟨-, rfl⟩ := List.cons.inj hread
          cases j with
          | zero => exact hstopping
          | succ j => exact Or.inr hstopping
      · exact (hno h).elim
  packet j a r us h hread := by
    have hyes (hs : Stopping n a) : StopRead n r { a with unread := us } := by
      obtain ⟨p, hp, hstop⟩ := hs.read hread
      cases hp
      exact hstop
    cases j with
    | zero => exact hyes h
    | succ j =>
      rcases h with h | h
      · cases h with
        | queued => cases hread
        | taken hstopping => cases hread
      · exact hyes h

/-- Behind a packet of the resynchronisation: it was one more stop packet, or the empty one. -/
def ResyncRead (n : Nat) (r : Reply) (a : Dialog) : Prop :=
  r.cause = none ∧ IsStop r.packet.body ∧ AwaitingAck n resyncCmd a ∨
    r.cause = some (n, resyncCmd) ∧ r.packet.body = [] ∧ a = .idle (n + 1)

theorem kept_resyncRead (n : Nat) (r : Reply) : Kept (ResyncRead n r) := by
  rintro a a' (⟨hcause, hstop, hawaiting⟩ | ⟨-, -, rfl⟩) h
  · exact Or.inl ⟨hcause, hstop, kept_awaitingAck _ _ _ _ hawaiting h⟩
  · cases h

/-- The resynchronisation waits behind a late stop packet, for its `+` or for its answer. -/
def resyncWait (n : Nat) : Nat → Dialog → Prop
  | 0 => Replying n resyncCmd
  | _ => fun a => Resyncing n a ∨ AwaitingAck n resyncCmd a ∨ Replying n resyncCmd a

theorem Replying.readResync {n : Nat} {a : Dialog} (h : Replying n resyncCmd a) {u : Out} {us : List Out}
    (hread : a.unread = u :: us) :
    ∃ r, u = .packet r ∧ ResyncRead n r { a with unread := us } := by
  obtain ⟨p, rfl, -, ⟨hlast, hidle⟩ | ⟨hmore, -⟩⟩ := h.read hread
  · exact ⟨_, rfl, Or.inr ⟨rfl, hlast.resyncBody.2, hidle⟩⟩
  · exact absurd hmore.resyncBody.1 (by decide)

theorem delivers_resyncWait (n : Nat) : Delivers (resyncWait n) (ResyncRead n) where
  pre j := by
    cases j with
    | zero => exact kept_replying n _
    | succ j =>
      rintro a a' (ha | ha | ha) h
      · exact Or.inl (kept_resyncing n _ _ ha h)
      · exact Or.inr (Or.inl (kept_awaitingAck n _ _ _ ha h))
      · exact Or.inr (Or.inr (kept_replying n _ _ _ ha h))
  post := kept_resyncRead n
  plus j a us h hread := by
    have hno (hs : Replying n resyncCmd a) : False := by
      obtain ⟨r, hr, -⟩ := hs.readResync hread
      cases hr
    have hwait {b : Dialog} (j : Nat) (hb : Replying n resyncCmd b) : resyncWait n j b := by
      cases j with
      | zero => exact hb
      | succ j => exact Or.inr (Or.inr hb)
    cases j with
    | zero => exact (hno h).elim
    | succ j =>
      refine ⟨j, rfl, ?_⟩
      rcases h with h | h | h
      · cases h with
        | queued hlate =>
          cases hlate with
          | waiting => cases hread
          | quiet => cases hread
          | spoken stop => cases hread
        | taken hlate hreplying =>
          cases hlate with
          | quiet =>
            obtain ⟨-, rfl⟩ := List.cons.inj hread
            exact hwait j hreplying
          | spoken stop => cases hread
      · cases h with
        | queued => cases hread
        | taken hreplying =>
          obtain ⟨-, rfl⟩ := List.cons.inj hread
          exact hwait j hreplying
      · exact (hno h).elim
  packet j a r us h hread := by
    have hyes (hs : Replying n resyncCmd a) : ResyncRead n r { a with unread := us } := by
      obtain ⟨r', hr, hresync⟩ := hs.readResync hread
      cases hr
      exact hresync
    cases j with
    | zero => exact hyes h
    | succ j =>
      rcases h with h | h | h
      · cases h with
        | queued hlate =>
          cases hlate with
          | waiting => cases hread
          | quiet => cases hread
          | spoken stop =>
            obtain ⟨hr, rfl⟩ := List.cons.inj hread
            cases hr
            exact Or.inl ⟨rfl, stop, .queued⟩
        | taken hlate hreplying =>
          cases hlate with
          | quiet => cases hread
          | spoken stop =>
            obtain ⟨hr, rfl⟩ := List.cons.inj hread
            cases hr
            exact Or.inl ⟨rfl, stop, .taken hreplying⟩
      · cases h with
        | queued => cases hread
        | taken hreplying => cases hread
      · exact hyes h

end BaremetalCrt
