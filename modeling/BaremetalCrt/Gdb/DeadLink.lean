/-
# BaremetalCrt.Gdb.DeadLink — the reply loops on a link that dies.

Behind its last byte every `recv` of a dead link fails, and the error code is read as one more
character of the payload.  A receive ends nevertheless, at the latest when its buffer is full; whether
the loops around it end is decided by what they do with its result.  `gdb_remote_openocd_reset` and
`gdb_remote_stop` look at the code; `gdb_remote_discard_all` looks at the text only, and goes on until
it is empty (`EmptyReplyIn`).

The stream up to its end may hold anything. `replyBody`, `replyRest` and `replyFirst` say of such a stream
where the payload of the next reply starts, what a receive of it leaves, and which character the loops look
at; `deadLink_returns_iff` says which of the loops return in the end, and for which streams.
-/
import BaremetalCrt.Gdb.Frame
import BaremetalCrt.Gdb.Remote

namespace BaremetalCrt

open Lib

variable {σ : Type}

/-! ## The link -/

/-- A link with finitely many bytes under way, behind which every `recv` fails.  Its calls return, and a
call is interrupted at most `patience` times. -/
structure DeadAfter (link : Link σ) (pending : σ → List UInt8) (tries : σ → Nat) (patience : Nat) :
    Prop where
  recvNil : ∀ l, pending l = [] → (link.recv l).1 = .failed ∧ pending (link.recv l).2 = []
  recvCons : ∀ l b bs, pending l = b :: bs →
    (link.recv l).1 = .byte b ∧ pending (link.recv l).2 = bs ∨
      (link.recv l).1 = .interrupted ∧ pending (link.recv l).2 = b :: bs ∧
        tries (link.recv l).2 < tries l
  sendReturns : ∀ bs l, (link.send bs l).1 ≠ .blocked
  sendPending : ∀ bs l, pending (link.send bs l).2 = pending l
  sendTries : ∀ bs l, (link.send bs l).1 = .interrupted → tries (link.send bs l).2 < tries l
  stack : ∀ l, pending (link.stack l).2 = pending l
  tries_le : ∀ l, tries l ≤ patience

/-- What is read off a stream: its next byte, or the error. -/
def nextOf : List UInt8 → Got × List UInt8
  | [] => (.failed, [])
  | b :: bs => (.byte b, bs)

/-- The character is `d` just when the stream begins with it; the error code is no character. -/
theorem char_iff {c : Got} {d : UInt8} {cs rest : List UInt8} (h : (c, rest) = nextOf cs) :
    c.toInt = (d.toNat : Int) ↔ cs.head? = some d := by
  cases cs with
  | nil =>
    obtain ⟨rfl, -⟩ := Prod.mk.inj h
    have hneg : Got.failed.toInt < 0 := by decide
    exact ⟨fun heq => by omega, fun heq => by cases heq⟩
  | cons b bs =>
    obtain ⟨rfl, -⟩ := Prod.mk.inj h
    exact Got.toInt_byte_eq.trans (by simp)

theorem cons_of_char {c : Got} {d : UInt8} {cs rest : List UInt8} (h : (c, rest) = nextOf cs)
    (hc : c.toInt = (d.toNat : Int)) : cs = d :: rest := by
  have hhead := (char_iff h).mp hc
  cases cs with
  | nil => cases hhead
  | cons b bs =>
    obtain ⟨-, rfl⟩ := Prod.mk.inj h
    rw [Option.some.inj hhead]

/-! ## One reply -/

/-- The stream behind the acknowledgements: where `gdb_remote_recv` looks for its `$`. -/
def behindAcks (bs : List UInt8) : List UInt8 := bs.dropWhile (· = chPlus)

/-- The stream behind the acknowledgements and the `$`. -/
def replyBody (bs : List UInt8) : List UInt8 :=
  if (behindAcks bs).head? = some chDollar then (behindAcks bs).drop 1 else behindAcks bs

/-- The payload: the characters up to the `#`, when there is one. -/
def payloadOf (body : List UInt8) : List UInt8 := body.takeWhile (· ≠ chHash)

/-- With `len` characters in `buf`, the last of them the first of `body`, the payload ends before `buf`
is full. -/
def EndsIn (len : Nat) (body : List UInt8) : Prop :=
  chHash ∈ body ∧ (payloadOf body = [] ∨ len + (payloadOf body).length < buflen)

instance (len : Nat) (body : List UInt8) : Decidable (EndsIn len body) :=
  inferInstanceAs (Decidable (_ ∧ (_ ∨ _)))

/-- How many characters are in `buf` with the first of the body. -/
def bodyStart (bs : List UInt8) : Nat := bs.length - (replyBody bs).length + 1

/-- What a receive leaves of a stream: it takes the check digits also, or as many characters as fill
`buf`. -/
def replyRest (bs : List UInt8) : List UInt8 :=
  if EndsIn (bodyStart bs) (replyBody bs) then
    (replyBody bs).drop ((payloadOf (replyBody bs)).length + 3)
  else (replyBody bs).drop (max 2 (buflen + 1 - bodyStart bs))

/-- The first byte that a receive stores: that of the payload, its terminator when there is none, or the
error code behind the end of the stream. -/
def replyFirst (bs : List UInt8) : UInt8 :=
  match (replyBody bs).head? with
  | none => Got.failed.toByte
  | some c => if c = chHash then 0 else c

theorem payloadOf_cons {b : UInt8} (hb : b ≠ chHash) (bs : List UInt8) :
    payloadOf (b :: bs) = b :: payloadOf bs := List.takeWhile_cons_of_pos (decide_eq_true hb)

theorem endsIn_hash (len : Nat) (bs : List UInt8) : EndsIn len (chHash :: bs) :=
  ⟨List.mem_cons_self .., Or.inl (List.takeWhile_cons_of_neg (by simp))⟩

theorem endsIn_cons {len : Nat} {b : UInt8} {bs : List UInt8} (hb : b ≠ chHash) :
    EndsIn len (b :: bs) ↔ len + 1 < buflen ∧ EndsIn (len + 1) bs := by
  have hmem : chHash ∈ b :: bs ↔ chHash ∈ bs := by
    rw [List.mem_cons]
    exact or_iff_right (Ne.symm hb)
  rw [EndsIn, EndsIn, hmem, payloadOf_cons hb, List.length_cons]
  constructor
  · rintro ⟨hhash, hnil | hlt⟩
    · cases hnil
    · exact ⟨by omega, hhash, Or.inr (by omega)⟩
  · rintro ⟨hroom, hhash, hnil | hlt⟩
    · exact ⟨hhash, Or.inr (by rw [hnil]; exact hroom)⟩
    · exact ⟨hhash, Or.inr (by omega)⟩

/-- A reply of the stream is complete and fits into `cmdlen` bytes. -/
def WholeReply (cmdlen : Nat) (bs : List UInt8) : Prop :=
  EndsIn (bodyStart bs) (replyBody bs) ∧ (payloadOf (replyBody bs)).length ≤ cmdlen - 1

instance (cmdlen : Nat) (bs : List UInt8) : Decidable (WholeReply cmdlen bs) :=
  inferInstanceAs (Decidable (_ ∧ _))

theorem length_replyBody_le (bs : List UInt8) : (replyBody bs).length ≤ bs.length := by
  have hdrop : (behindAcks bs).length ≤ bs.length := (List.dropWhile_sublist _).length_le
  unfold replyBody
  split
  · rw [List.length_drop]
    omega
  · exact hdrop

/-- Every receive takes a byte, as long as there is one. -/
theorem length_replyRest_lt {bs : List UInt8} (hne : bs ≠ []) : (replyRest bs).length < bs.length := by
  have hbody := length_replyBody_le bs
  have hpos := List.length_pos_iff.mpr hne
  unfold replyRest
  split <;> rw [List.length_drop] <;> omega

theorem WholeReply.ne_nil {cmdlen : Nat} {bs : List UInt8} (h : WholeReply cmdlen bs) : bs ≠ [] := by
  rintro rfl
  exact absurd h.1.1 (by decide)

/-! ## When the loops end -/

/-- Taken apart reply by reply, the stream has an empty one, or one that begins with NUL. -/
inductive EmptyReplyIn : List UInt8 → Prop
  | here {bs : List UInt8} (first : replyFirst bs = 0) : EmptyReplyIn bs
  | later {bs : List UInt8} (rest : EmptyReplyIn (replyRest bs)) : EmptyReplyIn bs

/-- The reply says that the target has stopped: "T.." or "W..". -/
def StopReply (bs : List UInt8) : Prop := replyFirst bs = 0x54 ∨ replyFirst bs = 0x57

/-- The stream ends, or has a reply that does not fit, before the target says that it has stopped, or
has an empty reply behind the one that says so. -/
inductive StopEndsIn : List UInt8 → Prop
  | broken {bs : List UInt8} (broken : ¬ WholeReply 4095 bs) : StopEndsIn bs
  | stopped {bs : List UInt8} (whole : WholeReply 4095 bs) (stop : StopReply bs)
      (rest : EmptyReplyIn (replyRest bs)) : StopEndsIn bs
  | other {bs : List UInt8} (whole : WholeReply 4095 bs) (other : ¬ StopReply bs)
      (rest : StopEndsIn (replyRest bs)) : StopEndsIn bs

instance (bs : List UInt8) : Decidable (StopReply bs) := inferInstanceAs (Decidable (_ ∨ _))

theorem not_emptyReplyIn_nil : ¬ EmptyReplyIn [] := by
  intro h
  generalize heq : ([] : List UInt8) = bs at h
  induction h with
  | here first =>
    subst heq
    exact absurd first (by decide)
  | later rest ih =>
    subst heq
    exact ih rfl

theorem EmptyReplyIn.ne_nil {bs : List UInt8} (h : EmptyReplyIn bs) : bs ≠ [] := by
  rintro rfl
  exact not_emptyReplyIn_nil h

/-! ## Receiving on a dead link -/

section Driver

variable {link : Link σ} {pending : σ → List UInt8} {tries : σ → Nat} {patience : Nat}
  (dead : DeadAfter link pending tries patience) (fuel : Nat)

include dead

theorem retryRecv_dead (n : Nat) : ∀ s : Port σ, Exec.wp (retryRecv link n)
    (fun c s' => (c, pending s'.link) = nextOf (pending s.link)) (fun _ _ => n ≤ tries s.link) s := by
  induction n with
  | zero => exact fun s => Nat.zero_le _
  | succ n ih =>
    intro s
    have hsock : sockRecv link s = (.ok (link.recv s.link).1,
        { s with link := (link.recv s.link).2, wire := s.wire ++ (link.recv s.link).1.wire }) := rfl
    rw [retryRecv, Exec.wp_bind, Exec.wp_of_ok hsock]
    cases hpending : pending s.link with
    | nil =>
      obtain ⟨hfail, hnil⟩ := dead.recvNil s.link hpending
      rw [hfail]
      exact Prod.ext rfl hnil
    | cons b bs =>
      rcases dead.recvCons s.link b bs hpending with ⟨hbyte, hrest⟩ | ⟨hintr, hsame, hlt⟩
      · rw [hbyte]
        exact Prod.ext rfl hrest
      · rw [hintr]
        refine (ih _).mono (fun c s' h => ?_) fun _ _ h => ?_
        · rw [← hsame]
          exact h
        · exact Nat.succ_le_of_lt (Nat.lt_of_le_of_lt h hlt)

theorem getchar_dead (s : Port σ) : Exec.wp (gdbRemoteGetchar link fuel)
    (fun c s' => (c, pending s'.link) = nextOf (pending s.link)) (fun _ _ => fuel ≤ patience) s :=
  (retryRecv_dead dead fuel s).mono (fun _ _ h => h) fun _ _ h => h.trans (dead.tries_le _)

theorem putchar_dead (ch : UInt8) (s : Port σ) : Exec.wp (gdbRemotePutchar link fuel ch)
    (fun _ s' => pending s'.link = pending s.link) (fun _ _ => fuel ≤ patience) s := by
  have hall (n : Nat) : ∀ s : Port σ, Exec.wp (retrySend link ch n)
      (fun _ s' => pending s'.link = pending s.link) (fun _ _ => n ≤ tries s.link) s := by
    induction n with
    | zero => exact fun s => Nat.zero_le _
    | succ n ih =>
      intro s
      have hsock : sockSend link [ch] s = (.ok (link.send [ch] s.link).1,
          { s with link := (link.send [ch] s.link).2,
                   wire := s.wire ++ (link.send [ch] s.link).1.wire [ch] }) := rfl
      have hkept := dead.sendPending [ch] s.link
      rw [retrySend, Exec.wp_bind, Exec.wp_of_ok hsock]
      cases hsent : (link.send [ch] s.link).1 with
      | interrupted =>
        refine (ih _).mono (fun _ s' h => h.trans hkept) fun _ _ h => ?_
        exact Nat.succ_le_of_lt (Nat.lt_of_le_of_lt h (dead.sendTries [ch] s.link hsent))
      | blocked => exact absurd hsent (dead.sendReturns [ch] s.link)
      | count _ => exact hkept
      | failed => exact hkept
  exact (hall fuel s).mono (fun _ _ h => h) fun _ _ h => h.trans (dead.tries_le _)

theorem nextChar_dead (buf : List Got) (s : Port σ) : Exec.wp (nextChar link fuel buf)
    (fun out s' => out.1 = buf ++ [out.2] ∧ (out.2, pending s'.link) = nextOf (pending s.link))
    (fun _ _ => fuel ≤ patience) s := by
  rw [nextChar, Exec.wp_bind]
  exact (getchar_dead dead fuel s).mono (fun c s' h => ⟨rfl, h⟩) fun _ _ h => h

/-- The acknowledgements, with `c` the first character of the stream `cs`. -/
theorem skipAcks_dead (n : Nat) : ∀ (cs : List UInt8) (buf : List Got) (c : Got) (s : Port σ),
    (c, pending s.link) = nextOf cs →
    Exec.wp (skipAcks link fuel buf c n)
      (fun out s' => (out.2, pending s'.link) = nextOf (behindAcks cs) ∧
        out.1.length + (behindAcks cs).length = buf.length + cs.length)
      (fun _ _ => fuel ≤ patience ∨ n < cs.length) s := by
  -- at a character that is no acknowledgement the loop is over
  have hdone {cs : List UInt8} {c : Got} {rest : List UInt8} (hc : (c, rest) = nextOf cs)
      (hplus : c.toInt ≠ chPlus.toNat) : behindAcks cs = cs := by
    rw [ne_eq, char_iff hc] at hplus
    cases cs with
    | nil => rfl
    | cons b bs => exact List.dropWhile_cons_of_neg (by simpa using hplus)
  induction n with
  | zero =>
    intro cs buf c s hc
    rw [skipAcks]
    refine Exec.wp_ite.mpr ⟨fun hplus => Or.inr ?_, fun hplus => ?_⟩
    · rw [cons_of_char hc hplus]
      exact Nat.succ_pos _
    · rw [hdone hc hplus]
      exact ⟨hc, rfl⟩
  | succ n ih =>
    intro cs buf c s hc
    rw [skipAcks]
    refine Exec.wp_ite.mpr ⟨fun hplus => ?_, fun hplus => ?_⟩
    · obtain rfl := cons_of_char hc hplus
      have hskip : behindAcks (chPlus :: pending s.link) = behindAcks (pending s.link) :=
        List.dropWhile_cons_of_pos (by decide)
      rw [Exec.wp_bind]
      refine (nextChar_dead dead fuel buf s).mono (fun out s₁ h => ?_) fun _ _ h => Or.inl h
      obtain ⟨buf₁, c₁⟩ := out
      obtain ⟨rfl, hnext⟩ : buf₁ = buf ++ [c₁] ∧ (c₁, pending s₁.link) = nextOf (pending s.link) := h
      refine (ih _ _ c₁ s₁ hnext).mono (fun out s' h => ?_) fun _ _ h => h.imp id fun h => ?_
      · rw [hskip, h.2]
        refine ⟨h.1, ?_⟩
        simp only [List.length_append, List.length_cons, List.length_nil]
        omega
      · exact Nat.succ_lt_succ h
    · rw [hdone hc hplus]
      exact ⟨hc, rfl⟩

/-- What the payload loop makes of a body, entered with `len` characters in `buf`. -/
inductive TakesPayload (cmdlen len : Nat) (payload : List Got) (body : List UInt8) :
    Bool × Payload → List UInt8 → Prop
  | ended {f : Payload} (ends : EndsIn len body)
      (after : f.After cmdlen (payload ++ (payloadOf body).map .byte)) :
      TakesPayload cmdlen len payload body (true, f) (body.drop ((payloadOf body).length + 1))
  | tooLong {f : Payload} {more : List Got} (long : ¬ EndsIn len body)
      (after : f.After cmdlen (payload ++ (nextOf body).1 :: more)) :
      TakesPayload cmdlen len payload body (false, f) (body.drop (max 2 (buflen + 1 - len)))

omit dead in
theorem TakesPayload.cons {cmdlen len : Nat} {payload : List Got} {c : Got} {body bs rest : List UInt8}
    {out : Bool × Payload} (hc : (c, bs) = nextOf body) (hno : c.toInt ≠ chHash.toNat)
    (hroom : len + 1 < buflen) (h : TakesPayload cmdlen (len + 1) (payload ++ [c]) bs out rest) :
    TakesPayload cmdlen len payload body out rest := by
  have hmax : max 2 (buflen + 1 - len) = max 2 (buflen + 1 - (len + 1)) + 1 := by omega
  cases body with
  | nil =>
    obtain ⟨rfl, rfl⟩ := Prod.mk.inj hc
    have hnone (n : Nat) : ¬ EndsIn n [] := fun h => by cases h.1
    cases h with
    | ended ends => exact absurd ends (hnone _)
    | tooLong long after =>
      rw [List.append_assoc] at after
      have := TakesPayload.tooLong (hnone len) after
      rwa [List.drop_nil] at this ⊢
  | cons b bs =>
    obtain ⟨rfl, rfl⟩ := Prod.mk.inj hc
    have hb : b ≠ chHash := fun heq => hno (by rw [heq]; rfl)
    cases h with
    | ended ends after =>
      rw [List.append_assoc] at after
      have := TakesPayload.ended ((endsIn_cons hb).mpr ⟨hroom, ends⟩)
        (by rw [payloadOf_cons hb]; exact after)
      rwa [payloadOf_cons hb] at this
    | tooLong long after =>
      rw [List.append_assoc] at after
      have := TakesPayload.tooLong (mt (fun h => ((endsIn_cons hb).mp h).2) long) after
      rwa [hmax, List.drop_succ_cons] at this

omit dead in
/-- The next character fills `buf`. -/
theorem TakesPayload.full {cmdlen len : Nat} {payload : List Got} {c d : Got}
    {body bs rest : List UInt8} {f : Payload} (hc : (c, bs) = nextOf body)
    (hno : c.toInt ≠ chHash.toNat) (hfull : buflen ≤ len + 1) (hd : (d, rest) = nextOf bs)
    (hafter : f.After cmdlen (payload ++ [c])) :
    TakesPayload cmdlen len payload body (false, f) rest := by
  have htwo : max 2 (buflen + 1 - len) = 2 := by omega
  have hlong : ¬ EndsIn len body := by
    intro h
    cases body with
    | nil => cases h.1
    | cons b bs =>
      obtain ⟨rfl, -⟩ := Prod.mk.inj hc
      have hroom := ((endsIn_cons fun heq => hno (by rw [heq]; rfl)).mp h).1
      omega
  have hrest : rest = body.drop 2 := by
    cases body with
    | nil =>
      obtain ⟨-, rfl⟩ := Prod.mk.inj hc
      exact (Prod.mk.inj hd).2
    | cons b bs =>
      obtain ⟨-, rfl⟩ := Prod.mk.inj hc
      cases bs with
      | nil => exact (Prod.mk.inj hd).2
      | cons => exact (Prod.mk.inj hd).2
  obtain rfl : c = (nextOf body).1 := congrArg Prod.fst hc
  have h : TakesPayload cmdlen len payload body (false, f) (body.drop (max 2 (buflen + 1 - len))) :=
    .tooLong hlong hafter
  rwa [htwo, ← hrest] at h

/-- The payload, with `c` the first character of the body. -/
theorem recvPayload_dead {cmdlen : Nat} (n : Nat) :
    ∀ (body : List UInt8) (payload : List Got) (f : Payload) (c : Got) (s : Port σ),
    (c, pending s.link) = nextOf body → f.After cmdlen payload → 0 < n → buflen < f.buf.length + n →
    Exec.wp (recvPayload link fuel cmdlen f c n)
      (fun out s' => TakesPayload cmdlen f.buf.length payload body out (pending s'.link))
      (fun _ _ => fuel ≤ patience) s := by
  induction n with
  | zero => exact fun body payload f c s _ _ hn => absurd hn (Nat.lt_irrefl 0)
  | succ n ih =>
    intro body payload f c s hc hafter _ hn
    rw [recvPayload]
    refine Exec.wp_ite.mpr ⟨fun hhash => ?_, fun hhash => ?_⟩
    · obtain rfl := cons_of_char hc hhash
      have hnil : payloadOf (chHash :: pending s.link) = [] := List.takeWhile_cons_of_neg (by simp)
      have h : TakesPayload cmdlen f.buf.length payload (chHash :: pending s.link) (true, f)
          (List.drop ((payloadOf (chHash :: pending s.link)).length + 1) (chHash :: pending s.link)) :=
        .ended (endsIn_hash f.buf.length (pending s.link)) (by rw [hnil]; simpa using hafter)
      rwa [hnil] at h
    · rw [Exec.wp_bind]
      refine (wp_put hafter c s).mono (fun f₁ s₁ h => ?_) (fun _ _ => False.elim)
      obtain ⟨hsame, hafter₁, ⟨hlink, -⟩, -⟩ := h
      rw [Exec.wp_bind]
      refine (nextChar_dead dead fuel f₁.buf s₁).mono (fun out s₂ h => ?_) fun _ _ h => h
      obtain ⟨buf, d⟩ := out
      obtain ⟨hbuf, hnext⟩ : buf = f₁.buf ++ [d] ∧ (d, pending s₂.link) = nextOf (pending s₁.link) := h
      have hlen : buf.length = f.buf.length + 1 := by
        rw [hbuf, hsame, List.length_append, List.length_singleton]
      have hafter₂ : Payload.After cmdlen (payload ++ [c]) { f₁ with buf := buf } :=
        ⟨hafter₁.stored, hafter₁.r, hafter₁.sum⟩
      rw [hlink] at hnext
      refine Exec.wp_ite.mpr ⟨fun hfull => ?_, fun hroom => ?_⟩
      · exact .full hc hhash (hlen ▸ hfull) hnext hafter₂
      · refine (ih _ _ { f₁ with buf := buf } d s₂ hnext hafter₂ (by omega) (by simp only [hlen]; omega)).mono
          (fun out s₃ h => ?_) fun _ _ h => h
        rw [show ({ f₁ with buf := buf } : Payload).buf.length = f.buf.length + 1 from hlen] at h
        exact h.cons hc hhash (by omega)

theorem recvSum_dead (h1 h2 : Got) (s : Port σ) : Exec.wp (recvSum link h1 h2)
    (fun _ s' => pending s'.link = pending s.link) (fun _ _ => False) s := by
  unfold recvSum
  cases scanHex2 [h1.toByte, h2.toByte] with
  | some v => exact rfl
  | none => exact dead.stack s.link

theorem recvCheck_dead (f : Payload) (s : Port σ) : Exec.wp (recvCheck link fuel f true)
    (fun out s' => out = (f.r, f.stored ++ [0]) ∧ pending s'.link = (pending s.link).drop 2)
    (fun _ _ => fuel ≤ patience) s := by
  have hdrop {c : Got} {bs rest : List UInt8} (h : (c, rest) = nextOf bs) : rest = bs.drop 1 := by
    cases bs <;> exact (Prod.mk.inj h).2
  rw [recvCheck, Exec.wp_bind]
  show Exec.wp _ _ _ { s with stores := s.stores ++ [RecvStore.cmd f.stored.length 0] }
  rw [Exec.wp_bind]
  refine (nextChar_dead dead fuel f.buf _).mono (fun out s₁ h => ?_) fun _ _ h => h
  obtain ⟨buf₁, h1⟩ := out
  have hone : pending s₁.link = (pending s.link).drop 1 := hdrop h.2
  rw [Exec.wp_bind]
  refine (nextChar_dead dead fuel buf₁ s₁).mono (fun out s₂ h => ?_) fun _ _ h => h
  obtain ⟨buf₂, h2⟩ := out
  have htwo : pending s₂.link = (pending s.link).drop 2 := by
    rw [hdrop h.2, hone, List.drop_drop]
  rw [Exec.wp_bind]
  refine (recvSum_dead dead h1 h2 s₂).mono (fun sumRecv s₃ h => ?_) fun _ _ => False.elim
  rw [if_pos rfl, Exec.wp_bind]
  refine (putchar_dead dead fuel _ s₃).mono (fun _ s₄ h' => ?_) fun _ _ h => h
  exact ⟨rfl, (h'.trans h).trans htwo⟩

/-- What a receive returns on a dead link, the first byte that it stores, and what it leaves. -/
structure RecvDead (cmdlen : Nat) (bs : List UInt8) (out : ClInt × List UInt8) (rest : List UInt8) :
    Prop where
  rest : rest = replyRest bs
  first : out.2.head? = some (replyFirst bs)
  ret : out.1 = clSuccess ↔ WholeReply cmdlen bs

omit dead in
/-- The payload was ended by its `#`. -/
theorem RecvDead.ended {cmdlen : Nat} {bs : List UInt8} {f : Payload} (hcmdlen : 1 < cmdlen)
    (ends : EndsIn (bodyStart bs) (replyBody bs))
    (after : f.After cmdlen ((payloadOf (replyBody bs)).map .byte)) :
    RecvDead cmdlen bs (f.r, f.stored ++ [0])
      (((replyBody bs).drop ((payloadOf (replyBody bs)).length + 1)).drop 2) := by
  refine ⟨?_, ?_, ?_⟩
  · rw [replyRest, if_pos ends, List.drop_drop]
  · show (f.stored ++ [0]).head? = _
    rw [after.stored, map_toByte_byte, replyFirst]
    generalize replyBody bs = body at ends
    cases body with
    | nil => cases ends.1
    | cons b body =>
      by_cases hb : b = chHash
      · subst hb
        have hnil : payloadOf (chHash :: body) = [] := List.takeWhile_cons_of_neg (by simp)
        rw [hnil, List.take_nil]
        rfl
      · rw [payloadOf_cons hb]
        obtain ⟨k, hk⟩ : ∃ k, cmdlen - 1 = k + 1 := ⟨cmdlen - 2, by omega⟩
        rw [hk, List.take_succ_cons]
        exact congrArg some (if_neg hb).symm
  · show f.r = _ ↔ _
    rw [after.r, List.length_map, payloadRet]
    constructor
    · intro h
      split at h
      · exact ⟨ends, by assumption⟩
      · exact absurd h (by decide)
    · exact fun h => if_pos h.2

omit dead in
/-- The payload was given up. -/
theorem RecvDead.tooLong {cmdlen : Nat} {bs : List UInt8} {f : Payload} {more : List Got}
    (hcmdlen : 1 < cmdlen) (long : ¬ EndsIn (bodyStart bs) (replyBody bs))
    (after : f.After cmdlen ((nextOf (replyBody bs)).1 :: more)) :
    RecvDead cmdlen bs (clOutOfHostMemory, f.stored)
      ((replyBody bs).drop (max 2 (buflen + 1 - bodyStart bs))) := by
  refine ⟨?_, ?_, ?_⟩
  · rw [replyRest, if_neg long]
  · show f.stored.head? = _
    obtain ⟨k, hk⟩ : ∃ k, cmdlen - 1 = k + 1 := ⟨cmdlen - 2, by omega⟩
    rw [after.stored, List.map_cons, hk, List.take_succ_cons, replyFirst]
    generalize replyBody bs = body at long
    cases body with
    | nil => rfl
    | cons b body =>
      have hb : b ≠ chHash := fun heq => long (heq ▸ endsIn_hash _ _)
      exact congrArg some ((Got.toByte_byte b).trans (if_neg hb).symm)
  · exact ⟨fun h => absurd h (show clOutOfHostMemory ≠ clSuccess by decide), fun h => absurd h.1 long⟩

/-- From the first character of the body on. -/
theorem recvBody_dead {cmdlen : Nat} (hcmdlen : 1 < cmdlen) {bs : List UInt8} {buf : List Got} {c : Got}
    {s : Port σ} (hc : (c, pending s.link) = nextOf (replyBody bs)) (hlen : buf.length = bodyStart bs) :
    Exec.wp (do
        let (ended, f) ← recvPayload link fuel cmdlen ⟨buf, [], clSuccess, 0⟩ c buflen
        if !ended then
          record (.recv f.buf none clOutOfHostMemory)
          return (clOutOfHostMemory, f.stored)
        recvCheck link fuel f true)
      (fun out s' => RecvDead cmdlen bs out (pending s'.link)) (fun _ _ => fuel ≤ patience) s := by
  have hafter : Payload.After cmdlen [] ⟨buf, [], clSuccess, 0⟩ := ⟨by simp, rfl, rfl⟩
  have hpos : 0 < buf.length := by
    rw [hlen]
    exact Nat.succ_pos _
  rw [Exec.wp_bind]
  refine (recvPayload_dead dead fuel buflen (replyBody bs) [] ⟨buf, [], clSuccess, 0⟩ c s hc hafter
    (by decide) (by show buflen < buf.length + buflen; omega)).mono (fun out s₁ h => ?_) fun _ _ h => h
  obtain ⟨ended, f⟩ := out
  rw [show (⟨buf, [], clSuccess, 0⟩ : Payload).buf.length = bodyStart bs from hlen] at h
  generalize hrest : pending s₁.link = rest at h
  cases h with
  | ended ends after =>
    refine (recvCheck_dead dead fuel f s₁).mono (fun out s₂ h => ?_) fun _ _ h => h
    obtain ⟨rfl, hpending⟩ := h
    rw [hpending, hrest]
    exact .ended hcmdlen ends after
  | tooLong long after =>
    show RecvDead cmdlen bs (clOutOfHostMemory, f.stored) (pending s₁.link)
    rw [hrest]
    exact .tooLong hcmdlen long after

theorem recvFrame_dead {cmdlen : Nat} (hcmdlen : 1 < cmdlen) {bs : List UInt8} {buf : List Got}
    {c : Got} {s : Port σ} (hc : (c, pending s.link) = nextOf (behindAcks bs))
    (hlen : buf.length + (behindAcks bs).length = bs.length + 1) :
    Exec.wp (recvFrame link fuel cmdlen true buf c)
      (fun out s' => RecvDead cmdlen bs out (pending s'.link)) (fun _ _ => fuel ≤ patience) s := by
  have hbody := length_replyBody_le bs
  rw [recvFrame]
  refine Exec.wp_ite.mpr ⟨fun hdollar => ?_, fun hdollar => ?_⟩
  · have hacks := cons_of_char hc hdollar
    have heq : replyBody bs = pending s.link := by
      rw [replyBody, hacks]
      rfl
    rw [Exec.wp_bind]
    refine (nextChar_dead dead fuel buf s).mono (fun out s₁ h => ?_) fun _ _ h => h
    obtain ⟨buf₁, c₁⟩ := out
    obtain ⟨rfl, hc₁⟩ : buf₁ = buf ++ [c₁] ∧ (c₁, pending s₁.link) = nextOf (pending s.link) := h
    refine recvBody_dead dead fuel hcmdlen (heq ▸ hc₁) ?_
    rw [hacks, List.length_cons] at hlen
    rw [bodyStart, List.length_append, List.length_singleton, heq]
    omega
  · have heq : replyBody bs = behindAcks bs := if_neg fun h => hdollar ((char_iff hc).mpr h)
    refine recvBody_dead dead fuel hcmdlen (heq ▸ hc) ?_
    rw [bodyStart, heq]
    rw [heq] at hbody
    omega

/-- A receive on a dead link returns, unless an interruption outlasts the fuel. -/
theorem gdbRemoteRecv_dead {cmdlen : Nat} (hcmdlen : 1 < cmdlen) (s : Port σ) :
    Exec.wp (gdbRemoteRecv link fuel cmdlen true)
      (fun out s' => RecvDead cmdlen (pending s.link) out (pending s'.link))
      (fun _ _ => fuel ≤ patience ∨ fuel < (pending s.link).length) s := by
  rw [gdbRemoteRecv, Exec.wp_bind]
  refine (nextChar_dead dead fuel [] s).mono (fun out s₁ h => ?_) fun _ _ h => Or.inl h
  obtain ⟨buf, c⟩ := out
  obtain ⟨rfl, hc⟩ : buf = [] ++ [c] ∧ (c, pending s₁.link) = nextOf (pending s.link) := h
  rw [Exec.wp_bind]
  refine (skipAcks_dead dead fuel fuel _ _ c s₁ hc).mono (fun out s₂ h => ?_) fun _ _ h => h
  obtain ⟨hc₂, hlen⟩ := h
  refine (recvFrame_dead dead fuel hcmdlen hc₂ ?_).mono (fun _ _ h => h) fun _ _ h => Or.inl h
  rw [hlen, List.nil_append, List.length_singleton, Nat.add_comm]

/-! ## The loops -/

theorem resend_dead (buf : List UInt8) (ack : Bool) (n : Nat) : ∀ s : Port σ,
    Exec.wp (resend link fuel buf ack n)
      (fun _ s' => (pending s'.link).length ≤ (pending s.link).length ∧
        (ack = false → pending s'.link = pending s.link))
      (fun _ _ => fuel ≤ patience ∨ n ≤ (pending s.link).length) s := by
  induction n with
  | zero => exact fun s => Or.inr (Nat.zero_le _)
  | succ n ih =>
    intro s
    have hsock : sockSend link buf s = (.ok (link.send buf s.link).1,
        { s with link := (link.send buf s.link).2, wire := s.wire ++ (link.send buf s.link).1.wire buf }) := rfl
    have hkept := dead.sendPending buf s.link
    rw [resend, Exec.wp_bind, Exec.wp_of_ok hsock]
    refine Exec.wp_ite.mpr ⟨fun h => absurd h (dead.sendReturns buf s.link), fun _ => ?_⟩
    refine Exec.wp_ite.mpr ⟨fun _ => ⟨(congrArg List.length hkept).le, fun _ => hkept⟩, fun _ => ?_⟩
    refine Exec.wp_ite.mpr ⟨fun hack => ?_, fun _ => ⟨(congrArg List.length hkept).le, fun _ => hkept⟩⟩
    rw [Exec.wp_bind]
    refine (getchar_dead dead fuel _).mono (fun c s₁ h => ?_) fun _ _ h => Or.inl h
    replace h : (c, pending s₁.link) = nextOf (pending s.link) := h.trans (congrArg nextOf hkept)
    have hle : (pending s₁.link).length ≤ (pending s.link).length := by
      cases hbs : pending s.link with
      | nil =>
        rw [hbs] at h
        rw [(Prod.mk.inj h).2]
      | cons b bs =>
        rw [hbs] at h
        rw [(Prod.mk.inj h).2]
        exact Nat.le_succ _
    have hno : ack ≠ false := by simpa using hack
    refine Exec.wp_ite.mpr ⟨fun _ => ⟨hle, fun h => absurd h hno⟩, fun _ => ?_⟩
    refine Exec.wp_ite.mpr ⟨fun hminus => ?_, fun _ => ⟨hle, fun h => absurd h hno⟩⟩
    -- every `-` that is answered was a byte of the stream
    have hcons := cons_of_char h hminus
    refine (ih s₁).mono (fun r s' h => ⟨h.1.trans hle, fun h => absurd h hno⟩) fun _ _ h => h.imp id fun h => ?_
    rw [hcons]
    exact Nat.succ_le_succ h

theorem gdbRemoteSend_dead (cmd : List UInt8) (ack : Bool) (s : Port σ) :
    Exec.wp (gdbRemoteSend link fuel cmd ack)
      (fun _ s' => (pending s'.link).length ≤ (pending s.link).length ∧
        (ack = false → pending s'.link = pending s.link))
      (fun _ _ => fuel ≤ patience ∨ fuel ≤ (pending s.link).length) s := by
  rw [gdbRemoteSend, Exec.wp_bind, sendFrame, gdbFrame_eq]
  exact (resend_dead dead fuel _ ack fuel s).mono (fun _ _ h => h) fun _ _ h => h

/-- The discarding ends just when an empty reply comes. -/
theorem discardLoop_dead (n : Nat) : ∀ (first : UInt8) (s : Port σ),
    Exec.wp (discardLoop link fuel first n) (fun _ _ => EmptyReplyIn (pending s.link))
      (fun _ _ => EmptyReplyIn (pending s.link) →
        fuel ≤ patience ∨ fuel < (pending s.link).length ∨ n ≤ (pending s.link).length) s := by
  induction n with
  | zero => exact fun first s _ => Or.inr (Or.inr (Nat.zero_le _))
  | succ n ih =>
    intro first s
    rw [discardLoop, Exec.wp_bind]
    refine (gdbRemoteRecv_dead dead fuel (by decide) s).mono (fun out s₁ h => ?_)
      fun _ _ h _ => h.imp id Or.inl
    obtain ⟨r, stored⟩ := out
    have hfirst : stored.headD first = replyFirst (pending s.link) := by
      rw [List.headD_eq_head?_getD, h.first]
      rfl
    refine Exec.wp_ite.mpr ⟨fun hzero => .here (hfirst.symm.trans hzero), fun hmore => ?_⟩
    refine (ih _ s₁).mono (fun _ _ h' => .later (h.rest ▸ h')) fun _ _ h' hempty => ?_
    have hlt := length_replyRest_lt hempty.ne_nil
    rw [← h.rest] at hlt
    cases hempty with
    | here hzero => exact absurd (hfirst.trans hzero) hmore
    | later hrest =>
      have := h' (h.rest ▸ hrest)
      omega

theorem gdbRemoteDiscardAll_dead (s : Port σ) :
    Exec.wp (gdbRemoteDiscardAll link fuel) (fun _ _ => EmptyReplyIn (pending s.link))
      (fun _ _ => EmptyReplyIn (pending s.link) → fuel ≤ patience ∨ fuel ≤ (pending s.link).length) s := by
  rw [gdbRemoteDiscardAll, Exec.wp_bind]
  show Exec.wp _ _ _ { s with link := (link.stack s.link).2 }
  have hstack := dead.stack s.link
  rw [Exec.wp_bind]
  refine (gdbRemoteSend_dead dead fuel (ascii "vMustReplyEmpty") false _).mono (fun _ s₁ h => ?_)
    fun _ _ h _ => ?_
  · have hsame : pending s₁.link = pending s.link := (h.2 rfl).trans hstack
    rw [Exec.wp_bind]
    refine (discardLoop_dead dead fuel fuel _ s₁).mono (fun _ _ h => hsame ▸ h) fun _ _ h hempty => ?_
    rw [hsame] at h
    have := h hempty
    omega
  · rw [← hstack]
    exact h

/-- The wait for the target to stop ends on its own, or with the discarding behind it. -/
theorem stopLoop_dead (n : Nat) : ∀ s : Port σ,
    Exec.wp (stopLoop link fuel n) (fun _ _ => StopEndsIn (pending s.link))
      (fun _ _ => StopEndsIn (pending s.link) →
        fuel ≤ patience ∨ fuel ≤ (pending s.link).length ∨ n ≤ (pending s.link).length) s := by
  induction n with
  | zero => exact fun s _ => Or.inr (Or.inr (Nat.zero_le _))
  | succ n ih =>
    intro s
    rw [stopLoop, Exec.wp_bind]
    refine (gdbRemoteRecv_dead dead fuel (by decide) s).mono (fun out s₁ h => ?_)
      fun _ _ h _ => h.imp id fun h => Or.inl (Nat.le_of_lt h)
    obtain ⟨r, tmp⟩ := out
    have hfirst : tmp.headD 0 = replyFirst (pending s.link) := by
      rw [List.headD_eq_head?_getD, h.first]
      rfl
    refine Exec.wp_ite.mpr ⟨fun hr => .broken (mt h.ret.mpr hr), fun hr => ?_⟩
    have hwhole : WholeReply 4095 (pending s.link) := h.ret.mp (not_not.mp hr)
    have hlt := length_replyRest_lt hwhole.ne_nil
    rw [← h.rest] at hlt
    have hagain (hother : ¬ StopReply (pending s.link)) : Exec.wp (stopLoop link fuel n)
        (fun _ _ => StopEndsIn (pending s.link))
        (fun _ _ => StopEndsIn (pending s.link) →
          fuel ≤ patience ∨ fuel ≤ (pending s.link).length ∨ n + 1 ≤ (pending s.link).length) s₁ := by
      refine (ih s₁).mono (fun _ _ h' => .other hwhole hother (h.rest ▸ h')) fun _ _ h' hends => ?_
      cases hends with
      | broken hbroken => exact absurd hwhole hbroken
      | stopped _ hstop => exact absurd hstop hother
      | other _ _ hrest =>
        have := h' (h.rest ▸ hrest)
        omega
    rw [hfirst]
    refine Exec.wp_ite.mpr ⟨fun hcons => hagain ?_, fun _ => Exec.wp_ite.mpr ⟨fun hstop => ?_, hagain⟩⟩
    · rintro (hT | hW)
      · exact absurd (hcons.symm.trans hT) (by decide)
      · exact absurd (hcons.symm.trans hW) (by decide)
    · rw [Exec.wp_bind]
      refine (gdbRemoteDiscardAll_dead dead fuel s₁).mono
        (fun _ _ h' => .stopped hwhole hstop (h.rest ▸ h')) fun _ _ h' hends => ?_
      cases hends with
      | broken hbroken => exact absurd hwhole hbroken
      | stopped _ _ hrest =>
        have := h' (h.rest ▸ hrest)
        omega
      | other _ hother => exact absurd hstop hother

/-- The wait for "OK" ends with the stream. -/
theorem openocdResetLoop_dead (n : Nat) : ∀ s : Port σ,
    Exec.wp (openocdResetLoop link fuel n) (fun _ _ => True)
      (fun _ _ => fuel ≤ patience ∨ fuel < (pending s.link).length ∨ n ≤ (pending s.link).length) s := by
  induction n with
  | zero => exact fun s => Or.inr (Or.inr (Nat.zero_le _))
  | succ n ih =>
    intro s
    rw [openocdResetLoop, Exec.wp_bind]
    refine (gdbRemoteRecv_dead dead fuel (by decide) s).mono (fun out s₁ h => ?_)
      fun _ _ h => h.imp id Or.inl
    refine Exec.wp_ite.mpr ⟨fun _ => trivial, fun hr => Exec.wp_ite.mpr ⟨fun _ => trivial, fun _ => ?_⟩⟩
    have hwhole : WholeReply 4095 (pending s.link) := h.ret.mp (not_not.mp hr)
    have hlt := length_replyRest_lt hwhole.ne_nil
    rw [← h.rest] at hlt
    refine (ih s₁).mono (fun _ _ _ => trivial) fun _ _ h' => ?_
    omega

end Driver

/-! ## Whether they return -/

/-- A call of the driver returns after finitely many system calls. -/
def Returns {α : Type} (run : Nat → Gdb σ α) (s : Port σ) : Prop := ∃ fuel a s', run fuel s = (.ok a, s')

theorem returns_iff {α : Type} {run : Nat → Gdb σ α} {P : Prop} {s : Port σ} (bound : Nat)
    (h : ∀ fuel, Exec.wp (run fuel) (fun _ _ => P) (fun _ _ => P → fuel ≤ bound) s) : Returns run s ↔ P := by
  constructor
  · rintro ⟨fuel, a, s', hrun⟩
    exact (h fuel).ok hrun
  · intro hP
    rcases hrun : run (bound + 1) s with ⟨e | a, s'⟩
    · exact absurd ((h (bound + 1)).error hrun hP) (Nat.not_succ_le_self bound)
    · exact ⟨bound + 1, a, s', hrun⟩

section Driver

variable {link : Link σ} {pending : σ → List UInt8} {tries : σ → Nat} {patience : Nat}
  (dead : DeadAfter link pending tries patience) (s : Port σ)

include dead

theorem discardAll_returns_iff :
    Returns (fun fuel => gdbRemoteDiscardAll link fuel) s ↔ EmptyReplyIn (pending s.link) := by
  refine returns_iff (patience + (pending s.link).length) fun fuel => ?_
  refine (gdbRemoteDiscardAll_dead dead fuel s).mono (fun _ _ h => h) fun _ _ h hempty => ?_
  have := h hempty
  omega

theorem stop_returns_iff :
    Returns (fun fuel => gdbRemoteStop (some link) fuel) s ↔ StopEndsIn (pending s.link) := by
  refine returns_iff (patience + (pending s.link).length) fun fuel => ?_
  show Exec.wp (gdbRemoteSendInterrupt link >>= fun _ => stopLoop link fuel fuel) _ _ s
  have hkept := dead.sendPending [0x03] s.link
  have hinterrupt : Exec.wp (gdbRemoteSendInterrupt link)
      (fun _ s' => pending s'.link = pending s.link) (fun _ _ => False) s := by
    rw [gdbRemoteSendInterrupt, Exec.wp_bind]
    exact Exec.wp_ite.mpr ⟨fun h => absurd h (dead.sendReturns [0x03] s.link), fun _ => hkept⟩
  rw [Exec.wp_bind]
  refine hinterrupt.mono (fun _ s₁ hsame => ?_) fun _ _ => False.elim
  refine (stopLoop_dead dead fuel fuel s₁).mono (fun _ _ h => hsame ▸ h) fun _ _ h hends => ?_
  rw [hsame] at h
  have := h hends
  omega

theorem openocdReset_returns : Returns (fun fuel => gdbRemoteOpenocdReset (some link) fuel) s := by
  suffices h : Returns (fun fuel => gdbRemoteOpenocdReset (some link) fuel) s ↔ True from h.mpr trivial
  refine returns_iff (patience + (pending s.link).length) fun fuel => ?_
  show Exec.wp (gdbRemoteSend link fuel openocdResetCmd true >>= _) _ _ s
  rw [Exec.wp_bind]
  refine (gdbRemoteSend_dead dead fuel openocdResetCmd true s).mono (fun r s₁ h => ?_) fun _ _ h _ => ?_
  · refine Exec.wp_ite.mpr ⟨fun _ => trivial, fun _ => ?_⟩
    refine (openocdResetLoop_dead dead fuel fuel s₁).mono (fun _ _ _ => trivial) fun _ _ h' _ => ?_
    have := h.1
    omega
  · omega

/-- **On a link that dies** the OpenOCD reset returns; the discarding returns just when an empty reply
comes before the end of the stream, and the stop just when it does not get as far as the discarding or
an empty reply comes behind the reply that led there. -/
theorem deadLink_returns_iff :
    (Returns (fun fuel => gdbRemoteDiscardAll link fuel) s ↔ EmptyReplyIn (pending s.link)) ∧
      (Returns (fun fuel => gdbRemoteStop (some link) fuel) s ↔ StopEndsIn (pending s.link)) ∧
      Returns (fun fuel => gdbRemoteOpenocdReset (some link) fuel) s :=
  ⟨discardAll_returns_iff dead s, stop_returns_iff dead s, openocdReset_returns dead s⟩

end Driver

/-- A link whose bytes are all in the receive queue, and that is cut behind them. -/
def cutOff : Link (List UInt8) where
  recv
    | [] => (.failed, [])
    | b :: bs => (.byte b, bs)
  send bs queue := (.count bs.length, queue)
  calloc queue := (true, queue)
  stack queue := (fun _ => 0, queue)

theorem deadAfter_cutOff : DeadAfter cutOff id (fun _ => 0) 0 where
  recvNil l h := by
    obtain rfl : l = [] := h
    exact ⟨rfl, rfl⟩
  recvCons l b bs h := by
    obtain rfl : l = b :: bs := h
    exact Or.inl ⟨rfl, rfl⟩
  sendReturns _ _ h := by cases h
  sendPending _ _ := rfl
  sendTries _ _ h := by cases h
  stack _ := rfl
  tries_le _ := Nat.le_refl 0

/-- The stub says that the target has stopped, and answers the resynchronisation. -/
theorem answered_stop_returns :
    Returns (fun fuel => gdbRemoteStop (some cutOff) fuel) { link := ascii "$T05#b9$#00" } :=
  (deadLink_returns_iff deadAfter_cutOff _).2.1.mpr
    (.stopped (by decide +kernel) (by decide +kernel) (.here (by decide +kernel)))

/-- A link that is dead from the start, and one that dies behind the reply that the target has stopped. -/
theorem cutOff_hangs :
    ¬ Returns (fun fuel => gdbRemoteDiscardAll cutOff fuel) { link := [] } ∧
      ¬ Returns (fun fuel => gdbRemoteStop (some cutOff) fuel) { link := ascii "$T05#b9" } := by
  refine ⟨fun h => not_emptyReplyIn_nil ((discardAll_returns_iff deadAfter_cutOff _).mp h), fun h => ?_⟩
  have hrest : replyRest (ascii "$T05#b9") = [] := by decide +kernel
  cases (stop_returns_iff deadAfter_cutOff _).mp h with
  | broken hbroken => exact hbroken (by decide +kernel)
  | stopped _ _ hempty => exact not_emptyReplyIn_nil (hrest ▸ hempty)
  | other _ hother => exact hother (by decide +kernel)

end BaremetalCrt
