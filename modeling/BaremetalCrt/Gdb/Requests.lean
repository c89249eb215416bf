/-
# BaremetalCrt.Gdb.Requests — the requests of a read, and the range they cover.

`gdb_remote_read_mem` asks for its range piece by piece, each request formatted into twenty characters.
An address of fifteen digits and more leaves fewer than three for the length, and a length that does not
fit is cut at its end: the request is well formed still and asks for less.  So the requests cover the
range just when every piece fits (`FitsRequest`).

The requests that a run sends are the ones that are listed here (`readRequests`), whether it gets to the end
or not, and each of them asks for a part of its own piece. A piece is covered just when its text fits; below
`2 ^ 56` every piece does.
-/
import BaremetalCrt.Gdb.Stub

namespace BaremetalCrt

open Lib

variable {σ : Type}

/-! ## One request -/

/-- The text that `snprintf` is asked to write for a read; the buffer may cut it. -/
def readText (paddr : UInt64) (len : Nat) : List UInt8 :=
  ascii "m" ++ hexText 8 paddr.toNat ++ ascii "," ++ hexText 1 len

theorem readRequest_eq_take (paddr : UInt64) (len : Nat) :
    readRequest paddr len = (readText paddr len).take 19 := rfl

/-- The request for `l` bytes from `addr` on fits its buffer. -/
def FitsRequest (addr l : Nat) : Prop :=
  addr < 2 ^ 56 ∨ addr < 2 ^ 60 ∧ l < 2 ^ 8 ∨ l < 2 ^ 4

instance (addr l : Nat) : Decidable (FitsRequest addr l) :=
  inferInstanceAs (Decidable (_ ∨ _ ∧ _ ∨ _))

theorem readText_eq (paddr : UInt64) (len : Nat) :
    readText paddr len = 0x6d :: (hexText 8 paddr.toNat ++ 0x2c :: hexText 1 len) := by
  have hletter : ascii "m" = [0x6d] := by decide
  have hcomma : ascii "," = [0x2c] := by decide
  simp [readText, hletter, hcomma]

theorem length_readText (paddr : UInt64) (len : Nat) :
    (readText paddr len).length = (hexText 8 paddr.toNat).length + (hexText 1 len).length + 2 := by
  rw [readText_eq]
  simp only [List.length_cons, List.length_append]
  omega

/-- Eight digits of the address at least and sixteen at most, one of the length at least. -/
theorem length_hexText_request (paddr : UInt64) (l : Nat) :
    8 ≤ (hexText 8 paddr.toNat).length ∧ (hexText 8 paddr.toNat).length ≤ 16 ∧
      1 ≤ (hexText 1 l).length := by
  refine ⟨?_, length_hexText_le (by decide) paddr.toNat_lt, ?_⟩
  · by_contra h
    exact absurd (length_hexText_le_iff.mp (Nat.lt_succ_iff.mp (Nat.not_le.mp h))).1 (by decide)
  · by_contra h
    exact absurd (length_hexText_le_iff.mp (Nat.lt_succ_iff.mp (Nat.not_le.mp h))).1 (by decide)

theorem length_readText_le_iff {paddr : UInt64} {l : Nat} (hlen : l ≤ maxPiece) :
    (readText paddr l).length ≤ 19 ↔ FitsRequest paddr.toNat l := by
  obtain ⟨hlow, hhigh, hone⟩ := length_hexText_request paddr l
  have haddr14 := length_hexText_le_iff (w := 8) (n := paddr.toNat) (k := 14)
  have haddr15 := length_hexText_le_iff (w := 8) (n := paddr.toNat) (k := 15)
  have hlen1 := length_hexText_le_iff (w := 1) (n := l) (k := 1)
  have hlen2 := length_hexText_le_iff (w := 1) (n := l) (k := 2)
  have hlen3 := length_hexText_le_iff (w := 1) (n := l) (k := 3)
  rw [length_readText]
  unfold FitsRequest
  unfold maxPiece at hlen
  omega

/-- The request asks for what is left of the length when its last digits are cut off. -/
theorem parseRead_readRequest {paddr : UInt64} {l : Nat} (hpos : 0 < l) :
    parseRead (readRequest paddr l) =
      some (paddr.toNat, l / 16 ^ ((readText paddr l).length - 19)) := by
  obtain ⟨hlow, hhigh, hone⟩ := length_hexText_request paddr l
  -- the address and the comma fit always
  let k := min (17 - (hexText 8 paddr.toNat).length) (hexText 1 l).length
  have hk : 0 < k ∧ k ≤ (hexText 1 l).length := by omega
  have htake : readRequest paddr l =
      0x6d :: (hexText 8 paddr.toNat ++ 0x2c :: (hexText 1 l).take k) := by
    have hroom : 18 - (hexText 8 paddr.toNat).length = 17 - (hexText 8 paddr.toNat).length + 1 := by
      omega
    rw [readRequest_eq_take, readText_eq, List.take_succ_cons, List.take_append,
      List.take_of_length_le (by omega), hroom, List.take_succ_cons]
    have hdigits : (hexText 1 l).take (17 - (hexText 8 paddr.toNat).length) = (hexText 1 l).take k :=
      List.take_eq_take_min ..
    rw [hdigits]
  have hcolon : (0x3a : UInt8) ∉ (hexText 1 l).take k := fun h =>
    notMem_hexText (by decide) 1 l (List.mem_of_mem_take h)
  rw [htake, parseRead, parseHead, if_pos rfl,
    cut_append (notMem_hexText (by decide) 8 paddr.toNat), cut_of_notMem hcolon,
    parseHex_hexText (by decide), parseHex_take_hexText hpos hk.1 hk.2]
  have hcut : (hexText 1 l).length - k = (readText paddr l).length - 19 := by
    rw [length_readText]
    omega
  rw [hcut]
  rfl

/-- A request that fits asks for the whole piece. -/
theorem parseRead_of_fits {paddr : UInt64} {l : Nat} (hpos : 0 < l) (hlen : l ≤ maxPiece)
    (h : FitsRequest paddr.toNat l) : parseRead (readRequest paddr l) = some (paddr.toNat, l) := by
  rw [parseRead_readRequest hpos, Nat.sub_eq_zero_of_le ((length_readText_le_iff hlen).mpr h),
    Nat.pow_zero, Nat.div_one]

/-- A request asks for no more than its piece, and for less when it does not fit. -/
theorem parseRead_le (paddr : UInt64) {l : Nat} (hpos : 0 < l) (hlen : l ≤ maxPiece) :
    ∃ l', parseRead (readRequest paddr l) = some (paddr.toNat, l') ∧ l' ≤ l ∧
      (l' = l → FitsRequest paddr.toNat l) := by
  refine ⟨_, parseRead_readRequest hpos, Nat.div_le_self .., fun heq => ?_⟩
  rw [← length_readText_le_iff hlen]
  by_contra hlong
  have hdiv : l / 16 ^ ((readText paddr l).length - 19) < l :=
    Nat.div_lt_self hpos (Nat.one_lt_pow (by omega) (by decide))
  omega

/-! ## All requests -/

/-- The requests of a read of `len` bytes from byte `p` on, in at most `n` pieces. -/
def readRequestsFrom (paddr : UInt64) (len : Nat) : Nat → Nat → List (List UInt8)
  | 0, _ => []
  | n + 1, p =>
    if p < len then
      readRequest (paddr + UInt64.ofNat p) (pieceLen len p) ::
        readRequestsFrom paddr len n (p + pieceLen len p)
    else []

/-- The requests of a read of `len` bytes, one a piece. -/
def readRequests (paddr : UInt64) (len : Nat) : List (List UInt8) := readRequestsFrom paddr len len 0

/-- The texts ask for consecutive ranges, of `0x7f0` bytes at most and none empty, from `a` up to `e`. -/
inductive TilesRange (e : Nat) : Nat → List (List UInt8) → Prop
  | done : TilesRange e e []
  | piece {a l : Nat} {text : List UInt8} {texts : List (List UInt8)}
      (parse : parseRead text = some (a, l)) (pos : 1 ≤ l) (short : l ≤ 0x7f0)
      (rest : TilesRange e (a + l) texts) : TilesRange e a (text :: texts)

theorem TilesRange.of_cons {e a : Nat} {text : List UInt8} {texts : List (List UInt8)}
    (h : TilesRange e a (text :: texts)) : ∃ l, parseRead text = some (a, l) ∧ TilesRange e (a + l) texts := by
  cases h with
  | piece parse pos short rest => exact ⟨_, parse, rest⟩

/-- Every piece of a read is requested by a text that fits. -/
def EachFits (paddr : UInt64) (len : Nat) : Prop :=
  ∀ q, q < len → maxPiece ∣ q → FitsRequest (paddr.toNat + q) (pieceLen len q)

/-- Every piece of a read is requested by the whole of its text. -/
def NoneTruncated (paddr : UInt64) (len : Nat) : Prop :=
  ∀ q, q < len → maxPiece ∣ q →
    readRequest (paddr + UInt64.ofNat q) (pieceLen len q) =
      readText (paddr + UInt64.ofNat q) (pieceLen len q)

/-- However they are cut, the requests do not reach beyond the range. -/
theorem end_le_of_tiles {paddr : UInt64} {len e : Nat} (n : Nat) :
    ∀ p a, TilesRange e a (readRequestsFrom paddr len n p) → e ≤ a + (len - p) := by
  induction n with
  | zero =>
    intro p a h
    cases h
    exact Nat.le_add_right ..
  | succ n ih =>
    intro p a h
    rw [readRequestsFrom] at h
    split at h
    · rename_i hp
      obtain ⟨l', hparse, hle, -⟩ := parseRead_le (paddr + UInt64.ofNat p) (pieceLen_pos hp)
        (pieceLen_le len p)
      obtain ⟨l, parse, rest⟩ := h.of_cons
      obtain ⟨rfl, rfl⟩ := Prod.mk.inj (Option.some.inj (parse.symm.trans hparse))
      have hrest := ih _ _ rest
      unfold pieceLen at hle hrest
      omega
    · cases h
      exact Nat.le_add_right ..

section Range

variable {paddr : UInt64} {len : Nat} (hend : paddr.toNat + len ≤ 2 ^ 64)

include hend

theorem toNat_piece {q : Nat} (hq : q < len) : (paddr + UInt64.ofNat q).toNat = paddr.toNat + q := by
  rw [UInt64.toNat_add, UInt64.toNat_ofNat', Nat.mod_eq_of_lt (a := q) (by omega),
    Nat.mod_eq_of_lt (by omega)]

theorem noneTruncated_iff : NoneTruncated paddr len ↔ EachFits paddr len := by
  refine forall_congr' fun q => forall_congr' fun hq => forall_congr' fun _ => ?_
  rw [readRequest_eq_take, List.take_eq_self_iff,
    length_readText_le_iff (pieceLen_le ..), toNat_piece hend hq]

/-- From a piece on, the requests cover the rest of the range just when each of them fits. -/
theorem tiles_from_iff (n : Nat) : ∀ p, len ≤ p + n → p ≤ len → (p < len → maxPiece ∣ p) →
    (TilesRange (paddr.toNat + len) (paddr.toNat + p) (readRequestsFrom paddr len n p) ↔
      ∀ q, p ≤ q → q < len → maxPiece ∣ q → FitsRequest (paddr.toNat + q) (pieceLen len q)) := by
  induction n with
  | zero =>
    intro p hn hp _
    obtain rfl : p = len := by omega
    exact ⟨fun _ q hq hlt => absurd hq (Nat.not_le.mpr hlt), fun _ => .done⟩
  | succ n ih =>
    intro p hn hp hdvd
    rw [readRequestsFrom]
    by_cases hlt : p < len
    · rw [if_pos hlt]
      have hpos := pieceLen_pos hlt
      have hmax := pieceLen_le len p
      have haddr := toNat_piece hend hlt
      have hfull : pieceLen len p = maxPiece ∨ p + pieceLen len p = len := by
        unfold pieceLen
        omega
      have hnext : p + pieceLen len p ≤ len := by
        unfold pieceLen
        omega
      have hdvd' : p + pieceLen len p < len → maxPiece ∣ p + pieceLen len p := fun h => by
        rw [hfull.resolve_right (Nat.ne_of_lt h)]
        exact (Nat.dvd_add_self_right).mpr (hdvd hlt)
      have hrest := ih (p + pieceLen len p) (by omega) hnext hdvd'
      -- no piece starts between this one and the next
      have hstep (q : Nat) (hq : p ≤ q) (hqlt : q < len) (hqdvd : maxPiece ∣ q) :
          q = p ∨ p + pieceLen len p ≤ q := by
        obtain ⟨k, rfl⟩ := hqdvd
        obtain ⟨j, rfl⟩ := hdvd hlt
        rcases Nat.eq_or_lt_of_le (Nat.le_of_mul_le_mul_left hq (by decide)) with rfl | hjk
        · exact Or.inl rfl
        · have hmul := Nat.mul_le_mul_left maxPiece (Nat.succ_le_of_lt hjk)
          rw [Nat.mul_succ] at hmul
          omega
      constructor
      · intro h
        obtain ⟨l', hparse, hle, hfits⟩ := parseRead_le (paddr + UInt64.ofNat p) hpos hmax
        obtain ⟨l, parse, rest⟩ := h.of_cons
        obtain ⟨-, rfl⟩ := Prod.mk.inj (Option.some.inj (parse.symm.trans hparse))
        -- what one request lacks, no later one makes up for
        have hlast := end_le_of_tiles n _ _ rest
        obtain rfl : l = pieceLen len p := Nat.le_antisymm hle (by omega)
        rw [Nat.add_assoc, hrest] at rest
        intro q hq hqlt hqdvd
        rcases hstep q hq hqlt hqdvd with rfl | hge
        · rw [← haddr]
          exact hfits rfl
        · exact rest q hge hqlt hqdvd
      · intro h
        have hparse : parseRead (readRequest (paddr + UInt64.ofNat p) (pieceLen len p)) =
            some (paddr.toNat + p, pieceLen len p) := by
          rw [← haddr]
          exact parseRead_of_fits hpos hmax (by rw [haddr]; exact h p le_rfl hlt (hdvd hlt))
        refine .piece hparse hpos hmax ?_
        rw [Nat.add_assoc, hrest]
        exact fun q hq => h q (by omega)
    · rw [if_neg hlt]
      obtain rfl : p = len := by omega
      exact ⟨fun _ q hq hqlt => absurd hq (Nat.not_le.mpr hqlt), fun _ => .done⟩

end Range

/-! ## The requests of a run -/

/-- The commands that were sent, with or without success, in order. -/
def sentCommands (es : List GdbCall) : List (List UInt8) :=
  es.filterMap fun
    | .send cmd _ => some cmd
    | _ => none

theorem sentCommands_append (es es' : List GdbCall) :
    sentCommands (es ++ es') = sentCommands es ++ sentCommands es' := List.filterMap_append ..

section Driver

variable (link : Link σ) (fuel : Nat)

/-- One piece builds one request, and no other. -/
theorem wp_gdbRemoteReadMemOne_sent (paddr : UInt64) (l : Nat) (hlen : l ≤ maxPiece) (s : Port σ) :
    Exec.wp (gdbRemoteReadMemOne link fuel paddr l)
      (fun _ s' => ∃ es, s'.log = s.log ++ es ∧ sentCommands es = [readRequest paddr l])
      (fun _ s' => ∃ es, s'.log = s.log ++ es ∧ sentCommands es <+: [readRequest paddr l]) s := by
  rw [gdbRemoteReadMemOne]
  refine Exec.wp_ite.mpr ⟨fun h => absurd h (by omega), fun _ => ?_⟩
  refine (Exec.wp_bind ..).mpr ((wp_gdbRemoteSend_log link fuel (readRequest paddr l) true s).mono
    (fun r s₁ hlog => ?_) fun _ s₁ hlog => ⟨[], by rw [hlog, List.append_nil], List.nil_prefix⟩)
  refine Exec.wp_ite.mpr ⟨fun _ => ⟨_, hlog, rfl⟩, fun hr => ?_⟩
  show Exec.wp (if !(link.calloc s₁.link).1 then _ else _) _ _
    { s₁ with link := (link.calloc s₁.link).2, log := s₁.log ++ [GdbCall.calloc (link.calloc s₁.link).1] }
  cases (link.calloc s₁.link).1 with
  | false => exact ⟨[.send (readRequest paddr l) r, .calloc false], by simp [hlog], rfl⟩
  | true =>
    refine (Exec.wp_bind ..).mpr ((wp_gdbRemoteRecv link fuel (l * 2 + 64 - 1) true _).mono
      (fun out s₂ h => ?_) fun _ s₂ h => ?_)
    · obtain ⟨read, ack, -, hlog', -⟩ := h
      have hlog₂ : s₂.log = s.log ++
          [.send (readRequest paddr l) r, .calloc true, .recv read ack out.1] := by
        rw [hlog', hlog]
        simp
      exact Exec.wp_ite.mpr ⟨fun _ => ⟨_, hlog₂, rfl⟩, fun _ => ⟨_, hlog₂, rfl⟩⟩
    · obtain ⟨read, stored, hreading, -⟩ := h
      have hlog₂ : s₂.log = s.log ++ [.send (readRequest paddr l) r, .calloc true] := by
        rw [hreading.log, hlog]
        simp
      exact ⟨_, hlog₂, List.prefix_refl _⟩

/-- A read builds its requests in their order, and all of them when it succeeds. -/
theorem wp_pieces_sent (paddr : UInt64) (len n : Nat) :
    ∀ (p : Nat) (got : Nat → Option UInt8) (s : Port σ),
    Exec.wp (pieces (fun p l => gdbRemoteReadMemOne link fuel (paddr + UInt64.ofNat p) l) len n p got)
      (fun out s' => ∃ es, s'.log = s.log ++ es ∧ sentCommands es <+: readRequestsFrom paddr len n p ∧
        (out.1 = clSuccess → sentCommands es = readRequestsFrom paddr len n p))
      (fun _ s' => ∃ es, s'.log = s.log ++ es ∧ sentCommands es <+: readRequestsFrom paddr len n p) s := by
  induction n with
  | zero => exact fun p got s => ⟨[], (List.append_nil _).symm, List.nil_prefix, fun _ => rfl⟩
  | succ n ih =>
    intro p got s
    rw [pieces, readRequestsFrom]
    refine Exec.wp_ite.mpr ⟨fun hp => ?_, fun hp => ?_⟩
    · rw [if_pos hp, Exec.wp_bind]
      refine (wp_gdbRemoteReadMemOne_sent link fuel (paddr + UInt64.ofNat p) (pieceLen len p)
        (pieceLen_le len p) s).mono (fun out s₁ h => ?_) fun _ s₁ h => ?_
      · obtain ⟨r, bytes⟩ := out
        obtain ⟨es, hlog, hsent⟩ := h
        have hfirst : sentCommands es <+: readRequest (paddr + UInt64.ofNat p) (pieceLen len p) ::
            readRequestsFrom paddr len n (p + pieceLen len p) := by
          rw [hsent]
          exact List.prefix_append ..
        refine Exec.wp_ite.mpr ⟨fun hr => ⟨es, hlog, hfirst, fun h => absurd h hr⟩, fun _ => ?_⟩
        have hmore {es' : List GdbCall} : sentCommands (es ++ es') =
            readRequest (paddr + UInt64.ofNat p) (pieceLen len p) :: sentCommands es' := by
          rw [sentCommands_append, hsent]
          rfl
        refine (ih (p + pieceLen len p) _ s₁).mono (fun out s₂ h => ?_) fun _ s₂ h => ?_
        · obtain ⟨es', hlog', hpre, hall⟩ := h
          refine ⟨es ++ es', by rw [hlog', hlog, List.append_assoc], ?_, fun hr => ?_⟩
          · rw [hmore]
            exact (List.cons_prefix_cons).mpr ⟨rfl, hpre⟩
          · rw [hmore, hall hr]
        · obtain ⟨es', hlog', hpre⟩ := h
          refine ⟨es ++ es', by rw [hlog', hlog, List.append_assoc], ?_⟩
          rw [hmore]
          exact (List.cons_prefix_cons).mpr ⟨rfl, hpre⟩
      · obtain ⟨es, hlog, hpre⟩ := h
        exact ⟨es, hlog, hpre.trans (List.prefix_append ..)⟩
    · rw [if_neg hp]
      exact ⟨[], (List.append_nil _).symm, List.nil_prefix, fun _ => rfl⟩

end Driver

/-- A read hands over its requests one after the other, and all of them when it succeeds. -/
def SendsRequests (link : Link σ) (fuel : Nat) (paddr : UInt64) (len : Nat) (s : Port σ) : Prop :=
  Exec.wp (gdbRemoteReadMem (some link) fuel paddr len)
    (fun out s' => ∃ es, s'.log = s.log ++ es ∧ sentCommands es <+: readRequests paddr len ∧
      (out.1 = clSuccess → sentCommands es = readRequests paddr len))
    (fun _ s' => ∃ es, s'.log = s.log ++ es ∧ sentCommands es <+: readRequests paddr len) s

/-- The requests of a read cover its range, and none of them is cut, just when every piece's address and
length have seventeen digits together at most. -/
theorem gdbRemoteReadMem_tiles_iff {paddr : UInt64} {len : Nat} (hend : paddr.toNat + len ≤ 2 ^ 64) :
    (∀ (σ : Type) (link : Link σ) (fuel : Nat) (s : Port σ), SendsRequests link fuel paddr len s) ∧
      (TilesRange (paddr.toNat + len) paddr.toNat (readRequests paddr len) ↔ EachFits paddr len) ∧
      (NoneTruncated paddr len ↔ EachFits paddr len) := by
  refine ⟨fun σ link fuel s => ?_, ?_, noneTruncated_iff hend⟩
  · exact wp_pieces_sent link fuel paddr len len 0 (fun _ => none) s
  · have hall := tiles_from_iff hend len 0 (Nat.le_add_left ..) (Nat.zero_le len) fun _ => Nat.dvd_zero _
    rw [Nat.add_zero] at hall
    exact hall.trans (forall_congr' fun q => by simp)

/-- Two pieces in the low memory. -/
theorem low_read_tiles : TilesRange 0x800007f1 0x80000000 (readRequests 0x80000000 0x7f1) := by
  have hfits : EachFits 0x80000000 0x7f1 := fun q hq _ => Or.inl (by
    have haddr : (0x80000000 : UInt64).toNat = 0x80000000 := rfl
    omega)
  have hend : (0x80000000 : UInt64).toNat + 0x7f1 ≤ 2 ^ 64 := by decide
  exact (gdbRemoteReadMem_tiles_iff hend).2.1.mpr hfits

/-- Sixteen bytes at an address of sixteen digits. -/
def highRead : Except Hang (ClInt × (Nat → Option UInt8)) × Port (List UInt8) :=
  gdbRemoteReadMem (some scripted) 10 0x1000000000000000 16 { link := ascii "+$ab#c3" }

/-- The request asks for one byte, and the read succeeds with that byte. -/
theorem high_read_truncated :
    readRequests 0x1000000000000000 16 = [ascii "m1000000000000000,1"] ∧
      ¬ TilesRange (0x1000000000000000 + 16) 0x1000000000000000 (readRequests 0x1000000000000000 16) ∧
      sentCommands highRead.2.log = [ascii "m1000000000000000,1"] ∧
      highRead.1.map (fun out => (out.1, out.2 0, out.2 1)) = .ok (clSuccess, some 0xab, none) := by
  have htexts : readRequests 0x1000000000000000 16 = [ascii "m1000000000000000,1"] := by decide +kernel
  have hparse : parseRead (ascii "m1000000000000000,1") = some (0x1000000000000000, 1) := by
    decide +kernel
  refine ⟨htexts, fun h => ?_, by decide +kernel, by decide +kernel⟩
  rw [htexts] at h
  obtain ⟨l, parse, rest⟩ := h.of_cons
  obtain ⟨-, rfl⟩ := Prod.mk.inj (Option.some.inj (parse.symm.trans hparse))
  cases rest

end BaremetalCrt
