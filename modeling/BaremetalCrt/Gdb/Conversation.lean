/-
# BaremetalCrt.Gdb.Conversation — what the other end of the link does, call by call.

The framing functions of the driver are loops over socket calls.  This module says what such a loop
meets in terms of the link alone, without the driver's fuel, its variables or its record:

* `Gives`: the character that a `recv` yields when it is repeated as long as it is interrupted;
* `GivesAll`: the characters that one such `recv` after the other yields;
* `Puts`: that a single character is sent, again repeated as long as the call is interrupted;
* `Carries`: whether the link takes the frame of a request, which goes out again for every `-`.

A link is a function of its state, so that each relation determines its outcome and the state of the link
behind it (the `unique` lemmas).  A loop of the driver that returns has done what its relation says (the
`wp` lemmas).  What a stub does can so be stated ahead of a run of the driver, and a run be compared
with it.
-/
import BaremetalCrt.Gdb.Link

namespace BaremetalCrt

open Lib

variable {σ : Type}

/-! ## Characters -/

/-- From the state `l` the link gives the character `c` and is in the state `l'`: a byte of the stream, an
error, or at the end of the stream whatever the local variable holds that nothing was stored to. -/
inductive Gives (link : Link σ) : σ → Got → σ → Prop
  | byte {l l' : σ} {b : UInt8} (h : link.recv l = (.byte b, l')) : Gives link l (.byte b) l'
  | eof {l l₁ : σ} (h : link.recv l = (.eof, l₁)) :
      Gives link l (.stale ((link.stack l₁).1 0)) (link.stack l₁).2
  | failed {l l' : σ} (h : link.recv l = (.failed, l')) : Gives link l .failed l'
  | interrupted {l l₁ l' : σ} {c : Got} (h : link.recv l = (.interrupted, l₁))
      (again : Gives link l₁ c l') : Gives link l c l'

/-- One after the other the link gives these characters. -/
inductive GivesAll (link : Link σ) : σ → List Got → σ → Prop
  | nil (l : σ) : GivesAll link l [] l
  | cons {l l₁ l' : σ} {c : Got} {cs : List Got} (first : Gives link l c l₁)
      (rest : GivesAll link l₁ cs l') : GivesAll link l (c :: cs) l'

/-- The link is sent a single character; whether it takes the character makes no difference to the
driver, except that an interrupted call is repeated. -/
inductive Puts (link : Link σ) (ch : UInt8) : σ → σ → Prop
  | done {l l' : σ} {n : Sent} (h : link.send [ch] l = (n, l')) (hn : n ≠ .interrupted)
      (hb : n ≠ .blocked) : Puts link ch l l'
  | interrupted {l l₁ l' : σ} (h : link.send [ch] l = (.interrupted, l₁))
      (again : Puts link ch l₁ l') : Puts link ch l l'

variable {link : Link σ} {l l₁ l₂ l' : σ}

theorem Gives.unique {c d : Got} (h : Gives link l c l₁) : Gives link l d l₂ → c = d ∧ l₁ = l₂ := by
  induction h with
  | byte h =>
    intro h'
    cases h' with
    | byte h' => cases h.symm.trans h'; exact ⟨rfl, rfl⟩
    | eof h' => cases h.symm.trans h'
    | failed h' => cases h.symm.trans h'
    | interrupted h' again => cases h.symm.trans h'
  | eof h =>
    intro h'
    cases h' with
    | byte h' => cases h.symm.trans h'
    | eof h' => cases h.symm.trans h'; exact ⟨rfl, rfl⟩
    | failed h' => cases h.symm.trans h'
    | interrupted h' again => cases h.symm.trans h'
  | failed h =>
    intro h'
    cases h' with
    | byte h' => cases h.symm.trans h'
    | eof h' => cases h.symm.trans h'
    | failed h' => cases h.symm.trans h'; exact ⟨rfl, rfl⟩
    | interrupted h' again => cases h.symm.trans h'
  | interrupted h again ih =>
    intro h'
    cases h' with
    | byte h' => cases h.symm.trans h'
    | eof h' => cases h.symm.trans h'
    | failed h' => cases h.symm.trans h'
    | interrupted h' again' => cases h.symm.trans h'; exact ih again'

theorem GivesAll.snoc {cs : List Got} {c : Got} (h : GivesAll link l cs l₁) (hc : Gives link l₁ c l') :
    GivesAll link l (cs ++ [c]) l' := by
  induction h with
  | nil l => exact .cons hc (.nil _)
  | cons first rest ih => exact .cons first (ih hc)

theorem GivesAll.unique {cs : List Got} (h : GivesAll link l cs l₁) : GivesAll link l cs l₂ → l₁ = l₂ := by
  induction h with
  | nil l =>
    intro h'
    cases h'
    rfl
  | cons first rest ih =>
    intro h'
    cases h' with
    | cons first' rest' =>
      obtain ⟨-, rfl⟩ := first.unique first'
      exact ih rest'

/-- Of what a link gives from one state, the shorter text is the front of the longer one. -/
theorem GivesAll.prefix {cs ds : List Got} (h : GivesAll link l cs l₁) :
    GivesAll link l ds l₂ → cs.length ≤ ds.length → cs <+: ds := by
  induction h generalizing ds with
  | nil l => exact fun _ _ => List.nil_prefix
  | cons first rest ih =>
    intro h' hlen
    cases h' with
    | nil => simp at hlen
    | cons first' rest' =>
      obtain ⟨rfl, rfl⟩ := first.unique first'
      exact List.cons_prefix_cons.mpr ⟨rfl, ih rest' (Nat.le_of_succ_le_succ hlen)⟩

theorem Puts.unique {ch : UInt8} (h : Puts link ch l l₁) : Puts link ch l l₂ → l₁ = l₂ := by
  induction h with
  | done h hn hb =>
    intro h'
    cases h' with
    | done h' _ _ => cases h.symm.trans h'; rfl
    | interrupted h' again => cases h.symm.trans h'; exact absurd rfl hn
  | interrupted h again ih =>
    intro h'
    cases h' with
    | done h' hn _ => cases h.symm.trans h'; exact absurd rfl hn
    | interrupted h' again' => cases h.symm.trans h'; exact ih again'

/-! ## Frames -/

/-- The link is sent a frame and answers it: whether it takes the frame, and its state behind the answer.
It takes it when the frame goes out whole and the answer is `+`; for a `-` the frame goes out again, and
whatever else happens to it is no success. -/
inductive Carries (link : Link σ) (frame : List UInt8) : σ → Bool → σ → Prop
  | cut {l l' : σ} {n : Sent} (h : link.send frame l = (n, l')) (hn : n ≠ .count frame.length)
      (hb : n ≠ .blocked) : Carries link frame l false l'
  | acked {l l₁ l' : σ} {c : Got} (h : link.send frame l = (.count frame.length, l₁))
      (answer : Gives link l₁ c l') (hc : c.toInt = chPlus.toNat) : Carries link frame l true l'
  | other {l l₁ l' : σ} {c : Got} (h : link.send frame l = (.count frame.length, l₁))
      (answer : Gives link l₁ c l') (hplus : c.toInt ≠ chPlus.toNat) (hminus : c.toInt ≠ chMinus.toNat) :
      Carries link frame l false l'
  | again {l l₁ l₂ l' : σ} {c : Got} {ok : Bool} (h : link.send frame l = (.count frame.length, l₁))
      (answer : Gives link l₁ c l₂) (hc : c.toInt = chMinus.toNat) (rest : Carries link frame l₂ ok l') :
      Carries link frame l ok l'

/-- `+` is not `-`. -/
theorem Got.plus_ne_minus {c : Got} (hc : c.toInt = chPlus.toNat) : c.toInt ≠ chMinus.toNat := by
  rw [hc]
  decide

theorem Carries.unique {frame : List UInt8} {ok ok' : Bool} (h : Carries link frame l ok l₁) :
    Carries link frame l ok' l₂ → ok = ok' ∧ l₁ = l₂ := by
  induction h with
  | cut h hn hb =>
    intro h'
    cases h' with
    | cut h' _ _ => cases h.symm.trans h'; exact ⟨rfl, rfl⟩
    | acked h' _ _ => cases h.symm.trans h'; exact absurd rfl hn
    | other h' _ _ _ => cases h.symm.trans h'; exact absurd rfl hn
    | again h' _ _ _ => cases h.symm.trans h'; exact absurd rfl hn
  | acked h answer hc =>
    intro h'
    cases h' with
    | cut h' hn _ => cases h.symm.trans h'; exact absurd rfl hn
    | acked h' answer' _ => cases h.symm.trans h'; exact ⟨rfl, (answer.unique answer').2⟩
    | other h' answer' hplus _ =>
      cases h.symm.trans h'
      exact absurd hc ((answer.unique answer').1 ▸ hplus)
    | again h' answer' hminus _ =>
      cases h.symm.trans h'
      exact absurd ((answer.unique answer').1 ▸ hminus) (Got.plus_ne_minus hc)
  | other h answer hplus hminus =>
    intro h'
    cases h' with
    | cut h' hn _ => cases h.symm.trans h'; exact absurd rfl hn
    | acked h' answer' hc =>
      cases h.symm.trans h'
      exact absurd ((answer.unique answer').1 ▸ hc) hplus
    | other h' answer' _ _ => cases h.symm.trans h'; exact ⟨rfl, (answer.unique answer').2⟩
    | again h' answer' hc _ =>
      cases h.symm.trans h'
      exact absurd ((answer.unique answer').1 ▸ hc) hminus
  | again h answer hc rest ih =>
    intro h'
    cases h' with
    | cut h' hn _ => cases h.symm.trans h'; exact absurd rfl hn
    | acked h' answer' hplus =>
      cases h.symm.trans h'
      exact absurd hc (Got.plus_ne_minus ((answer.unique answer').1 ▸ hplus))
    | other h' answer' _ hminus =>
      cases h.symm.trans h'
      exact absurd hc ((answer.unique answer').1 ▸ hminus)
    | again h' answer' _ rest' =>
      cases h.symm.trans h'
      obtain ⟨-, rfl⟩ := answer.unique answer'
      exact ih rest'

/-! ## The loops of the driver -/

section Driver

variable (link) (fuel : Nat)

theorem sockRecv_eq {s : Port σ} {a : Received} (h : link.recv s.link = (a, l')) :
    sockRecv link s = (.ok a, { s with link := l', wire := s.wire ++ a.wire }) := by
  show (Except.ok (link.recv s.link).1, _) = _
  rw [h]

theorem sockSend_eq {s : Port σ} {bs : List UInt8} {n : Sent} (h : link.send bs s.link = (n, l')) :
    sockSend link bs s = (.ok n, { s with link := l', wire := s.wire ++ n.wire bs }) := by
  show (Except.ok (link.send bs s.link).1, _) = _
  rw [h]

/-- What the link takes whole is on record as it was given. -/
theorem sockSend_whole {s : Port σ} {bs : List UInt8} (h : link.send bs s.link = (.count bs.length, l')) :
    sockSend link bs s = (.ok (.count bs.length), { s with link := l', wire := s.wire ++ [.sent bs] }) := by
  rw [sockSend_eq link h, Sent.wire, List.take_length]

theorem gdbRemotePutchar_eq {s : Port σ} {ch : UInt8} (h : link.send [ch] s.link = (.count 1, l'))
    (hfuel : 0 < fuel) :
    gdbRemotePutchar link fuel ch s = (.ok (), { s with link := l', wire := s.wire ++ [.sent [ch]] }) := by
  obtain ⟨n, rfl⟩ : ∃ n, fuel = n + 1 := ⟨fuel - 1, by omega⟩
  rw [gdbRemotePutchar, retrySend, Exec.bind_ok (sockSend_whole link h)]
  rfl

/-- A frame whose acknowledgement is not waited for is sent once. -/
theorem resend_once {s : Port σ} {bs : List UInt8} (h : link.send bs s.link = (.count bs.length, l'))
    (n : Nat) : resend link fuel bs false (n + 1) s =
      (.ok clSuccess, { s with link := l', wire := s.wire ++ [.sent bs] }) := by
  rw [resend, Exec.bind_ok (sockSend_whole link h), if_neg (by simp), if_neg (by simp), if_neg (by simp)]
  rfl

theorem wp_gdbRemoteGetchar (s : Port σ) :
    Exec.wp (gdbRemoteGetchar link fuel) (fun c s' => Gives link s.link c s'.link) (fun _ _ => True) s := by
  have hall (n : Nat) : ∀ s : Port σ,
      Exec.wp (retryRecv link n) (fun c s' => Gives link s.link c s'.link) (fun _ _ => True) s := by
    induction n with
    | zero => exact fun _ => trivial
    | succ n ih =>
      intro s
      rcases hrecv : link.recv s.link with ⟨a, l₁⟩
      rw [retryRecv, Exec.wp_bind, Exec.wp_of_ok (sockRecv_eq link hrecv)]
      cases a with
      | byte b => exact .byte hrecv
      | eof => exact .eof hrecv
      | interrupted => exact (ih _).mono (fun c s' h => .interrupted hrecv h) (fun _ _ _ => trivial)
      | failed => exact .failed hrecv
      | blocked => trivial
  exact hall fuel s

theorem wp_gdbRemotePutchar (ch : UInt8) (s : Port σ) :
    Exec.wp (gdbRemotePutchar link fuel ch) (fun _ s' => Puts link ch s.link s'.link) (fun _ _ => True) s := by
  have hall (n : Nat) : ∀ s : Port σ,
      Exec.wp (retrySend link ch n) (fun _ s' => Puts link ch s.link s'.link) (fun _ _ => True) s := by
    induction n with
    | zero => exact fun _ => trivial
    | succ n ih =>
      intro s
      rcases hsend : link.send [ch] s.link with ⟨a, l₁⟩
      rw [retrySend, Exec.wp_bind, Exec.wp_of_ok (sockSend_eq link hsend)]
      cases a with
      | count n => exact .done hsend (by simp) (by simp)
      | interrupted => exact (ih _).mono (fun _ s' h => .interrupted hsend h) (fun _ _ _ => trivial)
      | failed => exact .done hsend (by simp) (by simp)
      | blocked => trivial
  exact hall fuel s

theorem wp_resend (frame : List UInt8) (n : Nat) : ∀ s : Port σ,
    Exec.wp (resend link fuel frame true n)
      (fun r s' => Carries link frame s.link (decide (r = clSuccess)) s'.link) (fun _ _ => True) s := by
  induction n with
  | zero => exact fun _ => trivial
  | succ n ih =>
    intro s
    rcases hsend : link.send frame s.link with ⟨a, l₁⟩
    rw [resend, Exec.wp_bind, Exec.wp_of_ok (sockSend_eq link hsend)]
    refine Exec.wp_ite.mpr ⟨fun _ => trivial, fun hb => Exec.wp_ite.mpr ⟨fun hn => ?_, fun hn => ?_⟩⟩
    · exact .cut hsend hn hb
    · obtain rfl : a = .count frame.length := not_not.mp hn
      rw [if_pos rfl, Exec.wp_bind]
      refine (wp_gdbRemoteGetchar link fuel _).mono (fun c s₁ hc => ?_) (fun _ _ _ => trivial)
      refine Exec.wp_ite.mpr ⟨fun hplus => .acked hsend hc hplus, fun hplus => ?_⟩
      refine Exec.wp_ite.mpr ⟨fun hminus => ?_, fun hminus => .other hsend hc hplus hminus⟩
      exact (ih s₁).mono (fun r s' h => .again hsend hc hminus h) (fun _ _ _ => trivial)

end Driver

end BaremetalCrt
