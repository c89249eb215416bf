/-
# BaremetalCrt.Gdb.Pieces — what a memory transfer reports.

A transfer goes piece by piece, and the calls it made are the calls of its pieces one after the other
(`EachPiece`).  The piece functions end in `err_out`, which returns `CL_SUCCESS` whatever happened
before: only what comes before that label, an allocation and, for a read, the request, is reported.
So a transfer may succeed although the stub refused a piece.

When it does not is a condition on the link alone, ahead of any run (`WriteReported`, `ReadReported`): an
allocation fails at a piece that is reached (of a read, or a request is not taken), or every piece is
served.  What takes the link from one piece to the next is told by the relations of `Gdb.Conversation`;
that these have one outcome is what ties the condition to the record of a run (`Ran`).
-/
import BaremetalCrt.Gdb.Frame
import BaremetalCrt.Gdb.Remote

namespace BaremetalCrt

open Lib

variable {σ : Type}

/-! ## Pieces -/

/-- The calls of a transfer from byte `p` on are, piece by piece, such calls. -/
inductive EachPiece (len : Nat) (P : Nat → Nat → List GdbCall → Prop) : Nat → List GdbCall → Prop
  | done {p : Nat} (stop : len ≤ p) : EachPiece len P p []
  | piece {p : Nat} {seg es : List GdbCall} (more : p < len) (this : P p (pieceLen len p) seg)
      (rest : EachPiece len P (p + pieceLen len p) es) : EachPiece len P p (seg ++ es)

/-- From byte `p` and the state `l` on, every piece of a transfer takes the link to the next as `T` says. -/
inductive EveryPiece (len : Nat) (T : Nat → Nat → σ → σ → Prop) : Nat → σ → Prop
  | done {p : Nat} {l : σ} (stop : len ≤ p) : EveryPiece len T p l
  | piece {p : Nat} {l l' : σ} (more : p < len) (this : T p (pieceLen len p) l l')
      (rest : EveryPiece len T (p + pieceLen len p) l') : EveryPiece len T p l

/-- From byte `p` and the state `l` on, some piece of a transfer finds the link as `B` says, and the pieces
before it take the link there as `T` says. -/
inductive SomePiece (len : Nat) (T : Nat → Nat → σ → σ → Prop) (B : Nat → Nat → σ → Prop) :
    Nat → σ → Prop
  | here {p : Nat} {l : σ} (more : p < len) (this : B p (pieceLen len p) l) : SomePiece len T B p l
  | later {p : Nat} {l l' : σ} (more : p < len) (before : T p (pieceLen len p) l l')
      (rest : SomePiece len T B (p + pieceLen len p) l') : SomePiece len T B p l

/-- A transfer from byte `p` and the state `l` on did its pieces with these calls. -/
inductive Ran (len : Nat) (D : Nat → Nat → σ → List GdbCall → σ → Prop) : Nat → σ → List GdbCall → Prop
  | done {p : Nat} {l : σ} (stop : len ≤ p) : Ran len D p l []
  | piece {p : Nat} {l l' : σ} {seg es : List GdbCall} (more : p < len)
      (this : D p (pieceLen len p) l seg l') (rest : Ran len D (p + pieceLen len p) l' es) :
      Ran len D p l (seg ++ es)

theorem pieceLen_le (len p : Nat) : pieceLen len p ≤ maxPiece := Nat.min_le_right _ _

theorem pieceLen_pos {len p : Nat} (h : p < len) : 0 < pieceLen len p := by
  unfold pieceLen maxPiece
  omega

section Pieces

variable {len p : Nat} {l : σ} {es : List GdbCall} {R : Nat → Nat → List GdbCall → Prop}
  {T T' G : Nat → Nat → σ → σ → Prop} {B B' : Nat → Nat → σ → Prop}
  {D : Nat → Nat → σ → List GdbCall → σ → Prop}

theorem SomePiece.mono (h : SomePiece len T B p l) (hT : ∀ q n l l', T q n l l' → T' q n l l')
    (hB : ∀ q n l, B q n l → B' q n l) : SomePiece len T' B' p l := by
  induction h with
  | here more this => exact .here more (hB _ _ _ this)
  | later more before rest ih => exact .later more (hT _ _ _ _ before) ih

/-- Pieces that were all done met no such state, since they lead from state to state in one way. -/
theorem Ran.not_somePiece (h : Ran len D p l es) (hD : ∀ q n l seg l', D q n l seg l' → T q n l l')
    (hT : ∀ q n l l₁ l₂, T q n l l₁ → T q n l l₂ → l₁ = l₂)
    (hB : ∀ q n l seg l', D q n l seg l' → ¬ B q n l) : ¬ SomePiece len T B p l := by
  induction h with
  | done stop =>
    intro hsome
    cases hsome with
    | here more _ => omega
    | later more _ _ => omega
  | piece more this rest ih =>
    intro hsome
    cases hsome with
    | here _ hb => exact hB _ _ _ _ _ this hb
    | later _ before hrest =>
      obtain rfl := hT _ _ _ _ _ (hD _ _ _ _ _ this) before
      exact ih hrest

/-- What holds of the calls of every piece, and what holds of the link at every piece, is the same when
it is so for a single piece. -/
theorem Ran.eachPiece_iff (h : Ran len D p l es) (hD : ∀ q n l seg l', D q n l seg l' → T q n l l')
    (hT : ∀ q n l l₁ l₂, T q n l l₁ → T q n l l₂ → l₁ = l₂)
    (hG : ∀ q n l l', G q n l l' → T q n l l')
    (hcut : ∀ q n l seg l' seg' es es', D q n l seg l' → R q n seg' → seg ++ es = seg' ++ es' → seg = seg')
    (hR : ∀ q n l seg l', 0 < n → D q n l seg l' → (R q n seg ↔ G q n l l')) :
    EachPiece len R p es ↔ EveryPiece len G p l := by
  induction h with
  | done stop => exact ⟨fun _ => .done stop, fun _ => .done stop⟩
  | @piece p l l' seg es more this rest ih =>
    constructor
    · intro h
      generalize heq : seg ++ es = all at h
      cases h with
      | done stop => omega
      | piece _ this' rest' =>
        obtain rfl := hcut _ _ _ _ _ _ _ _ this this' heq
        obtain rfl := List.append_cancel_left heq
        exact .piece more ((hR _ _ _ _ _ (pieceLen_pos more) this).mp this') (ih.mp rest')
    · intro h
      cases h with
      | done stop => omega
      | piece _ this' rest' =>
        obtain rfl := hT _ _ _ _ _ (hD _ _ _ _ _ this) (hG _ _ _ _ this')
        exact .piece more ((hR _ _ _ _ _ (pieceLen_pos more) this).mpr this') (ih.mpr rest')

end Pieces

variable {len : Nat}

/-- What one piece does is known: a transfer that succeeds did that piece by piece, and one that fails
came to a piece that failed. -/
theorem wp_pieces {one : Nat → Nat → Gdb σ (ClInt × List UInt8)}
    {One : Nat → Nat → σ → List GdbCall → ClInt → List UInt8 → σ → Prop}
    (hone : ∀ q n (s : Port σ), n ≤ maxPiece → Exec.wp (one q n)
      (fun out s' => ∃ seg, s'.log = s.log ++ seg ∧ One q n s.link seg out.1 out.2 s'.link)
      (fun _ _ => True) s)
    (hfit : ∀ q n l seg r bytes l', One q n l seg r bytes l' → bytes.length ≤ n) (k : Nat) :
    ∀ (p : Nat) (got : Nat → Option UInt8) (s : Port σ), len ≤ p + k → (∀ i, p ≤ i → got i = none) →
      Exec.wp (pieces one len k p got)
        (fun out s' => ∃ es, s'.log = s.log ++ es ∧ (∀ i, i < p → out.2 i = got i) ∧
          ((out.1 = clSuccess ∧ Ran len (fun q n l seg l' => ∃ bytes, One q n l seg clSuccess bytes l' ∧
              ∀ j, j < n → out.2 (q + j) = bytes[j]?) p s.link es) ∨
            (out.1 ≠ clSuccess ∧ SomePiece len
              (fun q n l l' => ∃ seg bytes, One q n l seg clSuccess bytes l')
              (fun q n l => ∃ seg r bytes l', r ≠ clSuccess ∧ One q n l seg r bytes l') p s.link)))
        (fun _ _ => True) s := by
  induction k with
  | zero =>
    intro p got s hk _
    exact ⟨[], (List.append_nil _).symm, fun _ _ => rfl, Or.inl ⟨rfl, .done (by omega)⟩⟩
  | succ k ih =>
    intro p got s hk hnone
    rw [pieces]
    refine Exec.wp_ite.mpr ⟨fun hp => ?_, fun hp => ?_⟩
    · rw [Exec.wp_bind]
      refine (hone p (pieceLen len p) s (pieceLen_le ..)).mono (fun out s₁ h => ?_) (fun _ _ _ => trivial)
      obtain ⟨r, bytes⟩ := out
      obtain ⟨seg, hlog₁, hseg⟩ := h
      have hlen : bytes.length ≤ pieceLen len p := hfit _ _ _ _ _ _ _ hseg
      have hpos := pieceLen_pos hp
      refine Exec.wp_ite.mpr ⟨fun hr => ?_, fun hr => ?_⟩
      · exact ⟨seg, hlog₁, fun i hi => if_neg (by omega),
          Or.inr ⟨hr, .here hp ⟨seg, r, bytes, s₁.link, hr, hseg⟩⟩⟩
      · obtain rfl : r = clSuccess := not_not.mp hr
        refine (ih (p + pieceLen len p) _ s₁ (by omega) fun i hi => ?_).mono (fun out s₂ h => ?_)
          (fun _ _ _ => trivial)
        · rw [if_neg (by omega)]
          exact hnone i (by omega)
        obtain ⟨es, hlog₂, hkeep, hend⟩ := h
        refine ⟨seg ++ es, ?_, fun i hi => ?_, hend.imp (fun h => ⟨h.1, .piece hp ⟨bytes, hseg, ?_⟩ h.2⟩)
          fun h => ⟨h.1, .later hp ⟨seg, bytes, hseg⟩ h.2⟩⟩
        · rw [hlog₂, hlog₁, List.append_assoc]
        · rw [hkeep i (by omega), if_neg (by omega)]
        · intro j hj
          rw [hkeep (p + j) (by omega), Nat.add_sub_cancel_left]
          by_cases hb : j < bytes.length
          · exact if_pos (by omega)
          · rw [if_neg (by omega), List.getElem?_eq_none (by omega)]
            exact hnone _ (by omega)
    · exact ⟨[], (List.append_nil _).symm, fun _ _ => rfl, Or.inl ⟨rfl, .done (by omega)⟩⟩

/-! ## Sending -/

section Driver

variable (link : Link σ) (fuel : Nat)

theorem wp_gdbRemoteSend_log (cmd : List UInt8) (ack : Bool) (s : Port σ) :
    Exec.wp (gdbRemoteSend link fuel cmd ack)
      (fun r s' => s'.log = s.log ++ [.send cmd r]) (fun _ s' => s'.log = s.log) s := by
  have hall (buf : List UInt8) (n : Nat) : Exec.Keeps Quiet (resend link fuel buf ack n) := by
    induction n with
    | zero => exact fun _ => ⟨rfl, rfl⟩
    | succ n ih =>
      have hquiet {α : Type} {m : Gdb σ α} (h : ∀ s, (m s).2 = s) : Exec.Keeps Quiet m :=
        Exec.Keeps.of_refl (fun _ => ⟨rfl, rfl⟩) h
      refine Exec.Keeps.bind Quiet.trans (fun _ => ⟨rfl, rfl⟩) fun nsent => ?_
      refine Exec.Keeps.ite (hquiet fun _ => rfl) (Exec.Keeps.ite (hquiet fun _ => rfl) ?_)
      refine Exec.Keeps.ite ?_ (hquiet fun _ => rfl)
      refine Exec.Keeps.bind Quiet.trans (keeps_gdbRemoteGetchar link fuel) fun c => ?_
      exact Exec.Keeps.ite (hquiet fun _ => rfl) (Exec.Keeps.ite ih (hquiet fun _ => rfl))
  have hsend : Quiet s (sendFrame link fuel cmd ack s).2 := by
    unfold sendFrame
    cases gdbFrame cmd with
    | none => exact ⟨rfl, rfl⟩
    | some buf => exact hall buf fuel s
  rw [gdbRemoteSend, Exec.wp_bind]
  refine (Exec.wp_state.mpr hsend).mono (fun r s₁ hq => ?_) (fun _ _ hq => hq.1)
  show s₁.log ++ [_] = _
  rw [hq.1]

/-- A command was sent just when the link took its packet. -/
theorem wp_gdbRemoteSend_carries (cmd : List UInt8) (s : Port σ) :
    Exec.wp (gdbRemoteSend link fuel cmd true)
      (fun r s' => s'.log = s.log ++ [.send cmd r] ∧
        Carries link (Packet.command cmd).bytes s.link (decide (r = clSuccess)) s'.link)
      (fun _ _ => True) s := by
  have htaken : Exec.wp (gdbRemoteSend link fuel cmd true)
      (fun r s' => Carries link (Packet.command cmd).bytes s.link (decide (r = clSuccess)) s'.link)
      (fun _ _ => True) s := by
    rw [gdbRemoteSend, Exec.wp_bind, sendFrame, gdbFrame_eq]
    exact (wp_resend link fuel (Packet.command cmd).bytes fuel s).mono (fun r s₁ h => h)
      (fun _ _ _ => trivial)
  exact ((wp_gdbRemoteSend_log link fuel cmd true s).and htaken).mono (fun _ _ h => h)
    (fun _ _ _ => trivial)

end Driver

/-! ## Converting -/

/-- Byte `j` is written in a text as two digits at its own position. -/
def ByteAt (text : List UInt8) (j : Nat) (b : UInt8) : Prop :=
  ∃ c d, text[2 * j]? = some c ∧ text[2 * j + 1]? = some d ∧ hexPair c d = some b.toNat

theorem ByteAt.append {text : List UInt8} {j : Nat} {b : UInt8} (h : ByteAt text j b)
    (rest : List UInt8) : ByteAt (text ++ rest) j b := by
  obtain ⟨c, d, hc, hd, hpair⟩ := h
  have hlt := (List.getElem?_eq_some_iff.mp hc).1
  have hlt' := (List.getElem?_eq_some_iff.mp hd).1
  exact ⟨c, d, by rw [List.getElem?_append_left hlt, hc], by rw [List.getElem?_append_left hlt', hd],
    hpair⟩

theorem length_convert_le (strbuf : List UInt8) (n : Nat) : ∀ i buflen,
    (convert strbuf i n buflen).2.length ≤ n := by
  induction n with
  | zero => exact fun _ _ => Nat.le_refl 0
  | succ n ih =>
    intro i buflen
    rw [convert]
    split
    · exact Nat.zero_le _
    · split
      · exact Nat.zero_le _
      · exact Nat.succ_le_succ (ih (i + 1) (buflen - 2))

/-- Digits at their own positions are converted to their bytes. -/
theorem convert_byteAt {strbuf : List UInt8} (n : Nat) : ∀ i buflen, 2 * n ≤ buflen →
    (∀ j, j < n → ∃ b, ByteAt strbuf (i + j) b) → ∀ j, j < n → ∀ b, ByteAt strbuf (i + j) b →
      (convert strbuf i n buflen).2[j]? = some b := by
  induction n with
  | zero => exact fun _ _ _ _ j hj => absurd hj (Nat.not_lt_zero j)
  | succ n ih =>
    intro i buflen hbuf hall j hj b hb
    have hscan {b' : UInt8} (h : ByteAt strbuf i b') :
        scanHex2 (strbuf.drop (2 * i)) = some (b'.toNat : Int) := by
      obtain ⟨c, d, hc, hd, hpair⟩ := h
      obtain ⟨hlt, rfl⟩ := List.getElem?_eq_some_iff.mp hc
      obtain ⟨hlt', rfl⟩ := List.getElem?_eq_some_iff.mp hd
      rw [List.drop_eq_getElem_cons hlt, List.drop_eq_getElem_cons hlt']
      exact scanHex2_of_hexPair hpair _
    obtain ⟨b₀, hb₀⟩ := hall 0 (Nat.succ_pos n)
    rw [convert, if_neg (by omega), hscan hb₀]
    cases j with
    | zero =>
      have hsame := (hscan hb₀).symm.trans (hscan hb)
      rw [Option.some.injEq, Int.natCast_inj, UInt8.toNat_inj] at hsame
      show some (UInt8.ofInt (b₀.toNat : Int)) = some b
      rw [← hsame]
      exact congrArg some (Got.toByte_byte b₀)
    | succ j =>
      have hshift (k : Nat) : i + (k + 1) = i + 1 + k := by omega
      exact ih (i + 1) (buflen - 2) (by omega)
        (fun k hk => by rw [← hshift]; exact hall (k + 1) (by omega)) j (by omega) b
        (by rw [← hshift]; exact hb)

/-! ## One piece -/

/-- What one piece of a write may do between two states of the link; its code says nothing of what comes
behind the allocation. -/
inductive WriteOne (link : Link σ) (request : List UInt8) : σ → List GdbCall → ClInt → σ → Prop
  | noMemory {l l' : σ} (room : link.calloc l = (false, l')) :
      WriteOne link request l [.calloc false] clOutOfHostMemory l'
  | unsent {l l₁ l' : σ} {r : ClInt} (room : link.calloc l = (true, l₁))
      (sent : Carries link (Packet.command request).bytes l₁ false l') (h : r ≠ clSuccess) :
      WriteOne link request l [.calloc true, .send request r] clSuccess l'
  | answered {l l₁ l₂ l' : σ} (read : List Got) (ack : Option UInt8) (r : ClInt)
      (room : link.calloc l = (true, l₁)) (sent : Carries link (Packet.command request).bytes l₁ true l₂)
      (reply : Replies link l₂ read l') :
      WriteOne link request l [.calloc true, .send request clSuccess, .recv read ack r] clSuccess l'

/-- What one piece of a read of `n` bytes may do between two states of the link, and the bytes it stores. -/
inductive ReadOne (link : Link σ) (request : List UInt8) (n : Nat) :
    σ → List GdbCall → ClInt → List UInt8 → σ → Prop
  | unsent {l l' : σ} {r : ClInt} (sent : Carries link (Packet.command request).bytes l false l')
      (h : r ≠ clSuccess) : ReadOne link request n l [.send request r] r [] l'
  | noMemory {l l₁ l' : σ} (sent : Carries link (Packet.command request).bytes l true l₁)
      (room : link.calloc l₁ = (false, l')) :
      ReadOne link request n l [.send request clSuccess, .calloc false] clOutOfHostMemory [] l'
  | refused {l l₁ l₂ l' : σ} {read : List Got} {ack : Option UInt8} {r : ClInt} {stored : List UInt8}
      (sent : Carries link (Packet.command request).bytes l true l₁) (room : link.calloc l₁ = (true, l₂))
      (reply : Replies link l₂ read l') (reads : Reads (n * 2 + 64 - 1) read r stored)
      (h : r ≠ clSuccess) :
      ReadOne link request n l [.send request clSuccess, .calloc true, .recv read ack r] clSuccess [] l'
  | answered {l l₁ l₂ l' : σ} {read : List Got} {ack : Option UInt8} {stored : List UInt8}
      (sent : Carries link (Packet.command request).bytes l true l₁) (room : link.calloc l₁ = (true, l₂))
      (reply : Replies link l₂ read l') (reads : Reads (n * 2 + 64 - 1) read clSuccess stored) :
      ReadOne link request n l [.send request clSuccess, .calloc true, .recv read ack clSuccess] clSuccess
        (convert stored 0 n (n * 2 + 64)).2 l'

section Driver

variable (link : Link σ) (fuel : Nat)

theorem wp_writeOne (request : UInt64 → List UInt8 → List UInt8) (paddr : UInt64) (bs : List UInt8)
    (hlen : bs.length ≤ maxPiece) (s : Port σ) :
    Exec.wp (writeOne link fuel request paddr bs)
      (fun r s' => ∃ seg, s'.log = s.log ++ seg ∧ WriteOne link (request paddr bs) s.link seg r s'.link)
      (fun _ _ => True) s := by
  rw [writeOne]
  refine Exec.wp_ite.mpr ⟨fun h => absurd h (by omega), fun _ => ?_⟩
  rcases hroom : link.calloc s.link with ⟨ok, l₁⟩
  have hcalloc : onLink link.calloc s = (.ok ok, { s with link := l₁ }) := by
    show (Except.ok (link.calloc s.link).1, _) = _
    rw [hroom]
  rw [Exec.wp_bind, Exec.wp_of_ok hcalloc]
  show Exec.wp (if !ok then _ else _) _ _ { s with link := l₁, log := s.log ++ [GdbCall.calloc ok] }
  cases ok with
  | false => exact ⟨_, rfl, .noMemory hroom⟩
  | true =>
    refine (Exec.wp_bind ..).mpr ((wp_gdbRemoteSend_carries link fuel (request paddr bs) _).mono
      (fun r s₁ h => ?_) (fun _ _ _ => trivial))
    obtain ⟨hlog, htakes⟩ := h
    refine Exec.wp_ite.mpr ⟨fun hr => ⟨[.calloc true, .send (request paddr bs) r], ?_, ?_⟩, fun hr => ?_⟩
    · rw [hlog]
      simp
    · rw [decide_eq_false hr] at htakes
      exact .unsent hroom htakes hr
    · obtain rfl : r = clSuccess := not_not.mp hr
      refine (Exec.wp_bind ..).mpr ((wp_gdbRemoteRecv_replies link fuel 3 true s₁).mono
        (fun out s₂ h => ?_) (fun _ _ _ => trivial))
      obtain ⟨read, ack, -, hlog', -, -, hreplies⟩ := h
      exact ⟨_, by rw [hlog', hlog, List.append_assoc, List.append_assoc]; rfl,
        .answered read ack out.1 hroom htakes (hreplies rfl)⟩

theorem wp_gdbRemoteReadMemOne (paddr : UInt64) (n : Nat) (hlen : n ≤ maxPiece) (s : Port σ) :
    Exec.wp (gdbRemoteReadMemOne link fuel paddr n)
      (fun out s' => ∃ seg, s'.log = s.log ++ seg ∧
        ReadOne link (readRequest paddr n) n s.link seg out.1 out.2 s'.link)
      (fun _ _ => True) s := by
  rw [gdbRemoteReadMemOne]
  refine Exec.wp_ite.mpr ⟨fun h => absurd h (by omega), fun _ => ?_⟩
  refine (Exec.wp_bind ..).mpr ((wp_gdbRemoteSend_carries link fuel (readRequest paddr n) s).mono
    (fun r s₁ h => ?_) (fun _ _ _ => trivial))
  obtain ⟨hlog, htakes⟩ := h
  refine Exec.wp_ite.mpr ⟨fun hr => ⟨_, hlog, ?_⟩, fun hr => ?_⟩
  · rw [decide_eq_false hr] at htakes
    exact .unsent htakes hr
  obtain rfl : r = clSuccess := not_not.mp hr
  rcases hroom : link.calloc s₁.link with ⟨ok, l₁⟩
  have hcalloc : onLink link.calloc s₁ = (.ok ok, { s₁ with link := l₁ }) := by
    show (Except.ok (link.calloc s₁.link).1, _) = _
    rw [hroom]
  rw [Exec.wp_bind, Exec.wp_of_ok hcalloc]
  show Exec.wp (if !ok then _ else _) _ _ { s₁ with link := l₁, log := s₁.log ++ [GdbCall.calloc ok] }
  cases ok with
  | false => exact ⟨_, by rw [hlog, List.append_assoc]; rfl, .noMemory htakes hroom⟩
  | true =>
    refine (Exec.wp_bind ..).mpr ((wp_gdbRemoteRecv_replies link fuel (n * 2 + 64 - 1) true _).mono
      (fun out s₂ h => ?_) (fun _ _ _ => trivial))
    obtain ⟨r, stored⟩ := out
    obtain ⟨read, ack, -, hlog', hreads, -, hreplies⟩ := h
    have hlog₂ : s₂.log = s.log ++
        [.send (readRequest paddr n) clSuccess, .calloc true, .recv read ack r] := by
      rw [hlog', hlog]
      simp
    refine Exec.wp_ite.mpr ⟨fun hr => ⟨_, hlog₂, .refused htakes hroom (hreplies rfl) hreads hr⟩, fun hr => ?_⟩
    obtain rfl : r = clSuccess := not_not.mp hr
    exact ⟨_, hlog₂, .answered htakes hroom (hreplies rfl) hreads⟩

end Driver

/-! ## What the link does at a piece -/

/-- A piece of a write gets its memory, and takes the link from `l` to `l'` whatever the stub makes of it. -/
inductive WritePassed (link : Link σ) (request : List UInt8) : σ → σ → Prop
  | unsent {l l₁ l' : σ} (room : link.calloc l = (true, l₁))
      (sent : Carries link (Packet.command request).bytes l₁ false l') : WritePassed link request l l'
  | answered {l l₁ l₂ l' : σ} {read : List Got} (room : link.calloc l = (true, l₁))
      (sent : Carries link (Packet.command request).bytes l₁ true l₂) (reply : Replies link l₂ read l') :
      WritePassed link request l l'

/-- A piece of a write gets its memory, and the stub takes the request and replies "OK". -/
def WriteServed (link : Link σ) (request : List UInt8) (l l' : σ) : Prop :=
  ∃ l₁ l₂ read, link.calloc l = (true, l₁) ∧ Carries link (Packet.command request).bytes l₁ true l₂ ∧
    Replies link l₂ read l' ∧ Answer read (ascii "OK")

/-- A piece of a read is asked for and gets its memory, and takes the link from `l` to `l'` whatever the
stub replies. -/
def ReadPassed (link : Link σ) (request : List UInt8) (l l' : σ) : Prop :=
  ∃ l₁ l₂ read, Carries link (Packet.command request).bytes l true l₁ ∧ link.calloc l₁ = (true, l₂) ∧
    Replies link l₂ read l'

/-- The stub does not take the request of a piece, or there is no memory behind that. -/
def ReadStopped (link : Link σ) (request : List UInt8) (l : σ) : Prop :=
  ∃ ok l₁, Carries link (Packet.command request).bytes l ok l₁ ∧ (ok = true → (link.calloc l₁).1 = false)

/-- A reply `Exx`, with the two digits of an error number. -/
def IsErrorReply (body : List UInt8) : Prop :=
  ∃ c d, body = [0x45, c, d] ∧ (hexVal c).isSome ∧ (hexVal d).isSome

/-- These characters are an intact reply to a read of `n` bytes: no error, not more than the receive has
room for, and two digits at the position of each byte. -/
def BytesReply (n : Nat) (read : List Got) : Prop :=
  ∃ body, Answer read body ∧ ¬ IsErrorReply body ∧ body.length ≤ 2 * n + 62 ∧
    ∀ j, j < n → ∃ b, ByteAt body j b

/-- A piece of a read of `n` bytes is asked for, gets its memory and is replied to with its bytes. -/
def ReadServed (link : Link σ) (request : List UInt8) (n : Nat) (l l' : σ) : Prop :=
  ∃ l₁ l₂ read, Carries link (Packet.command request).bytes l true l₁ ∧ link.calloc l₁ = (true, l₂) ∧
    Replies link l₂ read l' ∧ BytesReply n read

/-- From the state `l` on the link makes a write of `bs` fail openly, by an allocation that fails, or
serves every piece of it. -/
def WriteReported (link : Link σ) (request : UInt64 → List UInt8 → List UInt8) (paddr : UInt64)
    (bs : List UInt8) (l : σ) : Prop :=
  SomePiece bs.length (fun q n => WritePassed link (request (paddr + UInt64.ofNat q) ((bs.drop q).take n)))
      (fun _ _ l => (link.calloc l).1 = false) 0 l ∨
    EveryPiece bs.length
      (fun q n => WriteServed link (request (paddr + UInt64.ofNat q) ((bs.drop q).take n))) 0 l

/-- From the state `l` on the link makes a read of `len` bytes fail openly, by a request that it does not
take or an allocation that fails, or serves every piece of it. -/
def ReadReported (link : Link σ) (paddr : UInt64) (len : Nat) (l : σ) : Prop :=
  SomePiece len (fun q n => ReadPassed link (readRequest (paddr + UInt64.ofNat q) n))
      (fun q n => ReadStopped link (readRequest (paddr + UInt64.ofNat q) n)) 0 l ∨
    EveryPiece len (fun q n => ReadServed link (readRequest (paddr + UInt64.ofNat q) n) n) 0 l

section Link

variable {link : Link σ} {request : List UInt8} {n : Nat} {l l₁ l₂ l' : σ} {seg : List GdbCall}

theorem WritePassed.unique (h : WritePassed link request l l₁) (h' : WritePassed link request l l₂) :
    l₁ = l₂ := by
  cases h with
  | unsent room sent =>
    cases h' with
    | unsent room' sent' =>
      obtain ⟨-, rfl⟩ := Prod.mk.inj (room.symm.trans room')
      exact (sent.unique sent').2
    | answered room' sent' _ =>
      obtain ⟨-, rfl⟩ := Prod.mk.inj (room.symm.trans room')
      cases (sent.unique sent').1
  | answered room sent reply =>
    cases h' with
    | unsent room' sent' =>
      obtain ⟨-, rfl⟩ := Prod.mk.inj (room.symm.trans room')
      cases (sent.unique sent').1
    | answered room' sent' reply' =>
      obtain ⟨-, rfl⟩ := Prod.mk.inj (room.symm.trans room')
      obtain ⟨-, rfl⟩ := sent.unique sent'
      exact (reply.unique reply').2

theorem WriteServed.passed (h : WriteServed link request l l') : WritePassed link request l l' := by
  obtain ⟨l₁, l₂, read, room, sent, reply, -⟩ := h
  exact .answered room sent reply

theorem WriteOne.passed (h : WriteOne link request l seg clSuccess l') : WritePassed link request l l' := by
  generalize hs : clSuccess = r at h
  cases h with
  | noMemory => cases hs
  | unsent room sent _ => exact .unsent room sent
  | answered read ack r room sent reply => exact .answered room sent reply

theorem ReadPassed.unique (h : ReadPassed link request l l₁) (h' : ReadPassed link request l l₂) :
    l₁ = l₂ := by
  obtain ⟨m₁, m₂, read, sent, room, reply⟩ := h
  obtain ⟨m₁', m₂', read', sent', room', reply'⟩ := h'
  obtain ⟨-, rfl⟩ := sent.unique sent'
  obtain ⟨-, rfl⟩ := Prod.mk.inj (room.symm.trans room')
  exact (reply.unique reply').2

theorem ReadServed.passed (h : ReadServed link request n l l') : ReadPassed link request l l' := by
  obtain ⟨l₁, l₂, read, sent, room, reply, -⟩ := h
  exact ⟨l₁, l₂, read, sent, room, reply⟩

theorem ReadOne.passed {bytes : List UInt8} (h : ReadOne link request n l seg clSuccess bytes l') :
    ReadPassed link request l l' := by
  generalize hs : clSuccess = r at h
  cases h with
  | unsent _ h => exact absurd hs.symm h
  | noMemory => cases hs
  | refused sent room reply _ _ => exact ⟨_, _, _, sent, room, reply⟩
  | answered sent room reply _ => exact ⟨_, _, _, sent, room, reply⟩

theorem ReadPassed.not_stopped (h : ReadPassed link request l l') : ¬ ReadStopped link request l := by
  rintro ⟨ok, l₁, sent, hstop⟩
  obtain ⟨m₁, m₂, read, sent', room, -⟩ := h
  obtain ⟨rfl, rfl⟩ := sent.unique sent'
  rw [room] at hstop
  exact absurd (hstop rfl) (by simp)

end Link

/-! ## Whole transfers -/

/-- The calls of one piece that went well: the request with the bytes of this piece was sent, and the answer
is `OK`. -/
def PieceOk (request : UInt64 → List UInt8 → List UInt8) (paddr : UInt64) (bs : List UInt8)
    (q l : Nat) (seg : List GdbCall) : Prop :=
  ∃ read ack r, seg = [.calloc true,
      .send (request (paddr + UInt64.ofNat q) ((bs.drop q).take l)) clSuccess, .recv read ack r] ∧
    Answer read (ascii "OK")

/-- The piece was asked for and answered, with no error, and every byte of it was set from its digits. -/
def PieceSet (paddr : UInt64) (got : Nat → Option UInt8) (q l : Nat) (seg : List GdbCall) : Prop :=
  ∃ read ack r body, seg = [.send (readRequest (paddr + UInt64.ofNat q) l) clSuccess, .calloc true,
      .recv read ack r] ∧ Answer read body ∧ ¬ IsErrorReply body ∧
    ∀ j, j < l → ∃ b, ByteAt body j b ∧ got (q + j) = some b

section Ops

variable {link : Link σ} {paddr : UInt64} {q n : Nat} {l l' : σ} {seg : List GdbCall}

/-- A piece of a write that succeeded was answered "OK" just when the link served it. -/
theorem pieceOk_iff {request : UInt64 → List UInt8 → List UInt8} {bs : List UInt8}
    (h : WriteOne link (request (paddr + UInt64.ofNat q) ((bs.drop q).take n)) l seg clSuccess l') :
    PieceOk request paddr bs q n seg ↔
      WriteServed link (request (paddr + UInt64.ofNat q) ((bs.drop q).take n)) l l' := by
  generalize hs : clSuccess = r at h
  cases h with
  | noMemory => cases hs
  | unsent room sent hr =>
    refine iff_of_false (fun hok => ?_) (fun hserved => ?_)
    · obtain ⟨read, ack, r, hseg, -⟩ := hok
      simp at hseg
    · obtain ⟨m₁, m₂, read, room', sent', -⟩ := hserved
      obtain ⟨-, rfl⟩ := Prod.mk.inj (room.symm.trans room')
      cases (sent.unique sent').1
  | answered read ack r room sent reply =>
    constructor
    · rintro ⟨read', ack', r', hseg, hanswer⟩
      obtain ⟨rfl, -, -⟩ : read = read' ∧ ack = ack' ∧ r = r' := by simpa using hseg
      exact ⟨_, _, read, room, sent, reply, hanswer⟩
    · rintro ⟨m₁, m₂, read', room', sent', reply', hanswer⟩
      obtain ⟨-, rfl⟩ := Prod.mk.inj (room.symm.trans room')
      obtain ⟨-, rfl⟩ := sent.unique sent'
      obtain ⟨rfl, -⟩ := reply.unique reply'
      exact ⟨read, ack, r, rfl, hanswer⟩

/-- A piece of a read that succeeded set its bytes just when the link served it. -/
theorem pieceSet_iff {got : Nat → Option UInt8} {bytes : List UInt8} (hn : 0 < n)
    (h : ReadOne link (readRequest (paddr + UInt64.ofNat q) n) n l seg clSuccess bytes l')
    (hgot : ∀ j, j < n → got (q + j) = bytes[j]?) :
    PieceSet paddr got q n seg ↔ ReadServed link (readRequest (paddr + UInt64.ofNat q) n) n l l' := by
  generalize hs : clSuccess = r at h
  cases h with
  | unsent _ hr => exact absurd hs.symm hr
  | noMemory => cases hs
  | @refused _ _ _ read ack r stored sent room reply reads hr =>
    refine iff_of_false (fun hset => ?_) (fun hserved => ?_)
    · -- nothing was stored, so that no byte was set
      obtain ⟨_, _, _, body, -, -, -, hall⟩ := hset
      obtain ⟨b, -, hb⟩ := hall 0 hn
      rw [hgot 0 hn] at hb
      cases hb
    · obtain ⟨m₁', m₂', read', sent', room', reply', body, hanswer, -, hfit, -⟩ := hserved
      obtain ⟨-, rfl⟩ := sent.unique sent'
      obtain ⟨-, rfl⟩ := Prod.mk.inj (room.symm.trans room')
      obtain ⟨rfl, -⟩ := reply.unique reply'
      refine hr ((reads.answer hanswer).1.trans ?_)
      rw [payloadRet, if_pos (by omega)]
  | @answered _ _ _ read ack stored sent room reply reads =>
    constructor
    · rintro ⟨read', ack', r', body, hseg, hanswer, herr, hall⟩
      obtain ⟨rfl, -, -⟩ : read = read' ∧ ack = ack' ∧ clSuccess = r' := by simpa using hseg
      refine ⟨_, _, read, sent, room, reply, body, hanswer, herr, ?_, fun j hj => ?_⟩
      · have hret := (reads.answer hanswer).1
        unfold payloadRet at hret
        split at hret
        · omega
        · exact absurd hret (by decide)
      · obtain ⟨b, hb, -⟩ := hall j hj
        exact ⟨b, hb⟩
    · rintro ⟨m₁', m₂', read', sent', room', reply', body, hanswer, herr, hfit, hall⟩
      obtain ⟨-, rfl⟩ := sent.unique sent'
      obtain ⟨-, rfl⟩ := Prod.mk.inj (room.symm.trans room')
      obtain ⟨rfl, -⟩ := reply.unique reply'
      refine ⟨read, ack, clSuccess, body, rfl, hanswer, herr, fun j hj => ?_⟩
      obtain ⟨b, hb⟩ := hall j hj
      refine ⟨b, hb, ?_⟩
      have hstored := (reads.answer hanswer).2
      rw [List.take_of_length_le (by omega)] at hstored
      rw [hgot j hj, hstored]
      have hat {k : Nat} {b' : UInt8} (h : ByteAt body k b') : ByteAt (body ++ [0]) (0 + k) b' := by
        rw [Nat.zero_add]
        exact h.append [0]
      exact convert_byteAt n 0 _ (by omega) (fun k hk => (hall k hk).imp fun b' h => hat h) j hj b (hat hb)

variable (link) (fuel : Nat) (l) (paddr)

/-- A write that returns was silent about nothing just when the link made it fail openly or served it. -/
theorem wp_writePieces {request : UInt64 → List UInt8 → List UInt8} {bs : List UInt8} :
    Exec.wp (writePieces (writeOne link fuel request) paddr bs)
      (fun r s' => (r = clSuccess → EachPiece bs.length (PieceOk request paddr bs) 0 s'.log) ↔
        WriteReported link request paddr bs l)
      (fun _ _ => True) { link := l } := by
  let One (q n : Nat) (l : σ) (seg : List GdbCall) (r : ClInt) (bytes : List UInt8) (l' : σ) : Prop :=
    WriteOne link (request (paddr + UInt64.ofNat q) ((bs.drop q).take n)) l seg r l' ∧ bytes = []
  rw [writePieces, Exec.wp_bind]
  have hone (q n : Nat) (s : Port σ) (hn : n ≤ maxPiece) : Exec.wp
      (do
        let r ← writeOne link fuel request (paddr + UInt64.ofNat q) ((bs.drop q).take n)
        return (r, []))
      (fun out s' => ∃ seg, s'.log = s.log ++ seg ∧ One q n s.link seg out.1 out.2 s'.link)
      (fun _ _ => True) s := by
    rw [Exec.wp_bind]
    refine (wp_writeOne link fuel request _ _ ((List.length_take_le ..).trans hn) s).mono
      (fun r s' h => ?_) (fun _ _ _ => trivial)
    obtain ⟨seg, hlog, hseg⟩ := h
    exact ⟨seg, hlog, hseg, rfl⟩
  have hfit (q n : Nat) (l : σ) (seg : List GdbCall) (r : ClInt) (bytes : List UInt8) (l' : σ)
      (h : One q n l seg r bytes l') : bytes.length ≤ n := by
    rw [h.2]
    exact Nat.zero_le _
  refine (wp_pieces hone hfit bs.length 0 _ _ (by omega) fun _ _ => rfl).mono (fun out s₁ h => ?_)
    (fun _ _ _ => trivial)
  obtain ⟨es, hlog, -, h⟩ := h
  obtain ⟨r, got⟩ := out
  replace hlog : s₁.log = es := hlog
  show (r = clSuccess → EachPiece bs.length (PieceOk request paddr bs) 0 s₁.log) ↔ _
  rw [hlog]
  rcases h with ⟨hr, hran⟩ | ⟨hr, hsome⟩
  · have hpassed : ∀ q n l seg l', (∃ bytes, One q n l seg clSuccess bytes l' ∧
        ∀ j, j < n → got (q + j) = bytes[j]?) →
        WritePassed link (request (paddr + UInt64.ofNat q) ((bs.drop q).take n)) l l' := by
      rintro q n l seg l' ⟨bytes, ⟨hone, -⟩, -⟩
      exact hone.passed
    have hunique : ∀ q n l l₁ l₂,
        WritePassed link (request (paddr + UInt64.ofNat q) ((bs.drop q).take n)) l l₁ →
        WritePassed link (request (paddr + UInt64.ofNat q) ((bs.drop q).take n)) l l₂ → l₁ = l₂ :=
      fun _ _ _ _ _ => WritePassed.unique
    have hnone := hran.not_somePiece hpassed hunique (B := fun _ _ l => (link.calloc l).1 = false)
      fun q n l seg l' h => by
        cases hpassed q n l seg l' h with
        | unsent room _ => simp [room]
        | answered room _ _ => simp [room]
    have heach := hran.eachPiece_iff (R := PieceOk request paddr bs) hpassed hunique
      (G := fun q n => WriteServed link (request (paddr + UInt64.ofNat q) ((bs.drop q).take n)))
      (fun q n l l' h => h.passed) (fun q n l seg l' seg' es es' h hok heq => ?_)
      (fun q n l seg l' _ h => by
        obtain ⟨bytes, ⟨hone, -⟩, -⟩ := h
        exact pieceOk_iff hone)
    · exact (forall_prop_of_true hr).trans (heach.trans (or_iff_right hnone).symm)
    · -- a piece that was not sent is no piece that was answered
      obtain ⟨bytes, ⟨hone, -⟩, -⟩ := h
      obtain ⟨read, ack, r, rfl, -⟩ := hok
      generalize hs : clSuccess = r at hone
      cases hone with
      | noMemory => cases hs
      | unsent _ _ hr =>
        simp only [List.cons_append, List.cons.injEq, GdbCall.send.injEq] at heq
        exact absurd heq.2.1.2 hr
      | answered read' ack' r' _ _ _ => exact (List.append_inj heq rfl).1
  · refine iff_of_true (fun h => absurd h hr) (Or.inl (hsome.mono (fun q n l l' h => ?_)
      (fun q n l h => ?_)))
    · obtain ⟨seg, bytes, hone, -⟩ := h
      exact hone.passed
    · obtain ⟨seg, r, bytes, l', hr, hone, -⟩ := h
      cases hone with
      | noMemory room => rw [room]
      | unsent _ _ _ => exact absurd rfl hr
      | answered _ _ _ _ _ _ => exact absurd rfl hr

/-- A read that returns was silent about nothing just when the link made it fail openly or served it. -/
theorem wp_gdbRemoteReadMem (len : Nat) :
    Exec.wp (gdbRemoteReadMem (some link) fuel paddr len)
      (fun out s' => (out.1 = clSuccess → EachPiece len (PieceSet paddr out.2) 0 s'.log) ↔
        ReadReported link paddr len l)
      (fun _ _ => True) { link := l } := by
  rw [gdbRemoteReadMem]
  refine (wp_pieces (fun q n s hn => wp_gdbRemoteReadMemOne link fuel _ n hn s)
    (fun q n l seg r bytes l' h => ?_) len 0 _ _ (by omega) fun _ _ => rfl).mono (fun out s₁ h => ?_)
    (fun _ _ _ => trivial)
  · cases h with
    | answered _ _ _ _ => exact length_convert_le ..
    | _ => exact Nat.zero_le _
  obtain ⟨es, hlog, -, h⟩ := h
  obtain ⟨r, got⟩ := out
  replace hlog : s₁.log = es := hlog
  show (r = clSuccess → EachPiece len (PieceSet paddr got) 0 s₁.log) ↔ _
  rw [hlog]
  rcases h with ⟨hr, hran⟩ | ⟨hr, hsome⟩
  · have hpassed : ∀ q n l seg l',
        (∃ bytes, ReadOne link (readRequest (paddr + UInt64.ofNat q) n) n l seg clSuccess bytes l' ∧
          ∀ j, j < n → got (q + j) = bytes[j]?) →
        ReadPassed link (readRequest (paddr + UInt64.ofNat q) n) l l' := by
      rintro q n l seg l' ⟨bytes, hone, -⟩
      exact hone.passed
    have hunique : ∀ q n l l₁ l₂, ReadPassed link (readRequest (paddr + UInt64.ofNat q) n) l l₁ →
        ReadPassed link (readRequest (paddr + UInt64.ofNat q) n) l l₂ → l₁ = l₂ :=
      fun _ _ _ _ _ => ReadPassed.unique
    have hnone := hran.not_somePiece hpassed hunique
      (B := fun q n => ReadStopped link (readRequest (paddr + UInt64.ofNat q) n))
      fun q n l seg l' h => (hpassed q n l seg l' h).not_stopped
    have heach := hran.eachPiece_iff (R := PieceSet paddr got) hpassed hunique
      (G := fun q n => ReadServed link (readRequest (paddr + UInt64.ofNat q) n) n)
      (fun q n l l' h => h.passed) (fun q n l seg l' seg' es es' h hset heq => ?_)
      (fun q n l seg l' hn h => by
        obtain ⟨bytes, hone, hgot⟩ := h
        exact pieceSet_iff hn hone hgot)
    · exact (forall_prop_of_true hr).trans (heach.trans (or_iff_right hnone).symm)
    · obtain ⟨bytes, hone, -⟩ := h
      obtain ⟨read, ack, r, body, rfl, -⟩ := hset
      generalize hs : clSuccess = r at hone
      cases hone with
      | unsent _ h => exact absurd hs.symm h
      | noMemory => cases hs
      | refused _ _ _ _ _ => exact (List.append_inj heq rfl).1
      | answered _ _ _ _ => exact (List.append_inj heq rfl).1
  · refine iff_of_true (fun h => absurd h hr) (Or.inl (hsome.mono (fun q n l l' h => ?_)
      (fun q n l h => ?_)))
    · obtain ⟨seg, bytes, hone⟩ := h
      exact hone.passed
    · obtain ⟨seg, r, bytes, l', hr, hone⟩ := h
      cases hone with
      | unsent sent _ => exact ⟨false, _, sent, fun h => by cases h⟩
      | noMemory sent room => exact ⟨true, _, sent, fun _ => by rw [room]⟩
      | refused _ _ _ _ _ => exact absurd rfl hr
      | answered _ _ _ _ => exact absurd rfl hr

end Ops

/-- **When a transfer loses nothing silently.** Of a transfer that returns, success means that every piece
was answered "OK", or for a read that every byte was set from its digits, just when the link, from the
state the transfer finds it in, makes it fail openly or serves every piece. -/
theorem gdbRemote_lossless_iff (link : Link σ) (fuel : Nat) (l : σ) (paddr : UInt64) :
    (∀ bs, Exec.wp (gdbRemoteWriteMem (some link) fuel paddr bs)
      (fun r s' => (r = clSuccess → EachPiece bs.length (PieceOk writeMemRequest paddr bs) 0 s'.log) ↔
        WriteReported link writeMemRequest paddr bs l)
      (fun _ _ => True) { link := l }) ∧
    (∀ bs, Exec.wp (gdbRemoteWriteBin (some link) fuel paddr bs)
      (fun r s' => (r = clSuccess → EachPiece bs.length (PieceOk writeBinRequest paddr bs) 0 s'.log) ↔
        WriteReported link writeBinRequest paddr bs l)
      (fun _ _ => True) { link := l }) ∧
    ∀ len, Exec.wp (gdbRemoteReadMem (some link) fuel paddr len)
      (fun out s' => (out.1 = clSuccess → EachPiece len (PieceSet paddr out.2) 0 s'.log) ↔
        ReadReported link paddr len l)
      (fun _ _ => True) { link := l } :=
  ⟨fun _ => wp_writePieces link paddr l fuel, fun _ => wp_writePieces link paddr l fuel,
    fun len => wp_gdbRemoteReadMem link paddr l fuel len⟩

/-! ## A refusal is lost -/

/-- A byte is written, and the stub answers "E01". -/
def refusedWriteMem : Except Hang ClInt × Port (List UInt8) :=
  gdbRemoteWriteMem (some scripted) 10 0x80000000 [0xab] { link := ascii "+$E01#a6" }

/-- A write of one byte with an `X` packet, which the stub refuses with `E01`. -/
def refusedWriteBin : Except Hang ClInt × Port (List UInt8) :=
  gdbRemoteWriteBin (some scripted) 10 0x80000000 [0xab] { link := ascii "+$E01#a6" }

/-- A read of one byte, which the stub refuses with `E01`. -/
def refusedReadMem : Except Hang (ClInt × (Nat → Option UInt8)) × Port (List UInt8) :=
  gdbRemoteReadMem (some scripted) 10 0x80000000 1 { link := ascii "+$E01#a6" }

/-- What a receive reads of that refusal. -/
def refusalRead : List Got := (ascii "$E01#a6").map Got.byte

theorem EachPiece.single {P : Nat → Nat → List GdbCall → Prop} {es : List GdbCall}
    (h : EachPiece 1 P 0 es) : P 0 1 es := by
  cases h with
  | done stop => omega
  | piece more this rest =>
    cases rest with
    | done stop => rw [List.append_nil]; exact this
    | piece more' => exact absurd more' (by decide)

theorem Answer.unpack {read : List Got} {body : List UInt8} (h : Answer read body) :
    Lib.unpack ((read.map Got.toByte).dropWhile (· = chPlus)) = some (body, []) := by
  obtain ⟨k, p, rfl, rfl⟩ := h
  have hplus : ∀ c ∈ List.replicate k chPlus, decide (c = chPlus) = true := fun c hc =>
    decide_eq_true (List.mem_replicate.mp hc).2
  have hfront : p.bytes.dropWhile (· = chPlus) = p.bytes ++ [] := by
    rw [List.append_nil]
    exact List.dropWhile_cons_of_neg (by decide)
  rw [map_toByte_byte, List.dropWhile_append_of_pos hplus, hfront, unpack_bytes]

/-- The refusal is read as an answer "E01" only. -/
theorem body_of_refusalRead {body : List UInt8} (h : Answer refusalRead body) : body = ascii "E01" := by
  have hbody := h.unpack
  rw [show Lib.unpack ((refusalRead.map Got.toByte).dropWhile (· = chPlus)) = some (ascii "E01", [])
    from by decide +kernel] at hbody
  exact ((Prod.mk.inj (Option.some.inj hbody)).1).symm

/-- Both writes of a byte and the read of one, refused, return `CL_SUCCESS`; the read sets its byte from
the `E0` of the refusal. -/
theorem refusal_lost :
    (refusedWriteMem.1 = .ok clSuccess ∧
      ¬ EachPiece 1 (PieceOk writeMemRequest 0x80000000 [0xab]) 0 refusedWriteMem.2.log) ∧
    (refusedWriteBin.1 = .ok clSuccess ∧
      ¬ EachPiece 1 (PieceOk writeBinRequest 0x80000000 [0xab]) 0 refusedWriteBin.2.log) ∧
    refusedReadMem.1.map (fun out => (out.1, out.2 0)) = .ok (clSuccess, some 0xe0) ∧
      ∀ got, ¬ EachPiece 1 (PieceSet 0x80000000 got) 0 refusedReadMem.2.log := by
  -- the answer to the piece is not "OK"
  have hwrite {request : UInt64 → List UInt8 → List UInt8} {log : List GdbCall} {c : GdbCall}
      {ack : Option UInt8} {r : ClInt} (hlog : log = [.calloc true, c, .recv refusalRead ack r]) :
      ¬ EachPiece 1 (PieceOk request 0x80000000 [0xab]) 0 log := by
    intro h
    obtain ⟨read, _, _, hseg, hanswer⟩ := h.single
    have hrecv := (List.cons.inj (List.cons.inj (List.cons.inj (hlog.symm.trans hseg)).2).2).1
    exact absurd (body_of_refusalRead ((GdbCall.recv.inj hrecv).1 ▸ hanswer)) (by decide)
  have hmem : refusedWriteMem.2.log = [.calloc true, .send (ascii "M80000000,1:ab") clSuccess,
      .recv refusalRead (some chPlus) clOutOfHostMemory] := by decide +kernel
  have hbin : refusedWriteBin.2.log = [.calloc true, .send (ascii "X80000000,1:" ++ [0xab]) clSuccess,
      .recv refusalRead (some chPlus) clOutOfHostMemory] := by decide +kernel
  have hread : refusedReadMem.2.log = [.send (ascii "m80000000,1") clSuccess, .calloc true,
      .recv refusalRead (some chPlus) clSuccess] := by decide +kernel
  have hmemRet : refusedWriteMem.1 = .ok clSuccess := by decide +kernel
  have hbinRet : refusedWriteBin.1 = .ok clSuccess := by decide +kernel
  have hreadRet : refusedReadMem.1.map (fun out => (out.1, out.2 0)) = .ok (clSuccess, some 0xe0) := by
    decide +kernel
  refine ⟨⟨hmemRet, hwrite hmem⟩, ⟨hbinRet, hwrite hbin⟩, hreadRet, fun got h => ?_⟩
  obtain ⟨read, _, _, body, hseg, hanswer, herr, -⟩ := h.single
  have hrecv := (List.cons.inj (List.cons.inj (List.cons.inj (hread.symm.trans hseg)).2).2).1
  obtain rfl := body_of_refusalRead ((GdbCall.recv.inj hrecv).1 ▸ hanswer)
  exact herr ⟨0x30, 0x31, by decide, by decide, by decide⟩

end BaremetalCrt
