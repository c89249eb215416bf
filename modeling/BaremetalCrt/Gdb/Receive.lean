/-
# BaremetalCrt.Gdb.Receive — what a receive makes of what it reads.

`gdb_remote_recv` reads acknowledgements, a `$` if there is one, a payload up to `#` and two check
digits, or gives the payload up when its buffer is full (`Reads`).  Its code and what it stores are a
function of these characters, whoever sent them.

The code says whether the payload fits the buffer of the caller, and nothing about the check digits; these
only choose the acknowledgement. `Replies` gives what a link answers to a receive as a relation, ahead of
any run of the driver, and `Cut` how the characters fall into acknowledgements, a start, a payload and what
ends it.
-/
import BaremetalCrt.Gdb.Conversation

namespace BaremetalCrt

open Lib

variable {σ : Type}

/-! ## Characters -/

@[simp] theorem Got.toInt_byte_eq {b c : UInt8} : (Got.byte b).toInt = (c.toNat : Int) ↔ b = c := by
  show (b.toNat : Int) = (c.toNat : Int) ↔ b = c
  rw [Int.natCast_inj, UInt8.toNat_inj]

@[simp] theorem Got.toByte_byte (b : UInt8) : (Got.byte b).toByte = b := by
  show UInt8.ofInt (b.toNat : Int) = b
  have hlt : (b.toNat : Int) % 2 ^ 8 = b.toNat := Int.emod_eq_of_lt (by omega) (by
    have := b.toNat_lt
    omega)
  rw [UInt8.ofInt, hlt, Int.toNat_natCast, UInt8.ofNat_toNat]

theorem map_toByte_byte (bs : List UInt8) : (bs.map Got.byte).map Got.toByte = bs := by
  rw [List.map_map]
  conv_rhs => rw [← List.map_id bs]
  exact List.map_congr_left fun b _ => Got.toByte_byte b

/-! ## Scanning -/

/-- A digit is no white space and no sign. -/
theorem plain_of_hexVal {c : UInt8} {n : Nat} (h : hexVal c = some n) :
    isSpace c = false ∧ c ≠ chPlus ∧ c ≠ chMinus := by
  have hall : ∀ c : Fin 256, (hexVal (UInt8.ofFin c)).isSome → isSpace (UInt8.ofFin c) = false ∧
      UInt8.ofFin c ≠ chPlus ∧ UInt8.ofFin c ≠ chMinus := by decide +kernel
  exact hall c.toFin (by rw [UInt8.ofFin_toFin, h]; rfl)

/-- Two digits are scanned as their value. -/
theorem scanHex2_of_hexPair {c d : UInt8} {n : Nat} (h : hexPair c d = some n) (rest : List UInt8) :
    scanHex2 (c :: d :: rest) = some n := by
  obtain ⟨hi, hhi, h⟩ := Option.bind_eq_some_iff.mp h
  obtain ⟨lo, hlo, h⟩ := Option.bind_eq_some_iff.mp h
  obtain rfl := Option.some.inj h
  obtain ⟨hspace, hplus, hminus⟩ := plain_of_hexVal hhi
  have hdrop : (c :: d :: rest).dropWhile isSpace = c :: d :: rest :=
    List.dropWhile_cons_of_neg (by rw [hspace]; decide)
  simp only [scanHex2, hdrop, if_neg hplus, if_neg hminus, hhi, List.head?_cons, Option.bind_some, hlo]
  rfl

/-! ## Stores -/

/-- The stores of a receive are those that put these contents into its two arrays. -/
structure Stores (sts : List RecvStore) (buf : List Got) (stored : List UInt8) : Prop where
  buf : ∀ p c, .buf p c ∈ sts ↔ buf[p]? = some c
  cmd : ∀ q b, .cmd q b ∈ sts ↔ stored[q]? = some b

theorem Stores.nil : Stores [] [] [] := ⟨fun _ _ => by simp, fun _ _ => by simp⟩

theorem getElem?_snoc_eq_some {α : Type} {xs : List α} {x y : α} {i : Nat} :
    (xs ++ [x])[i]? = some y ↔ xs[i]? = some y ∨ i = xs.length ∧ x = y := by
  rcases Nat.lt_trichotomy i xs.length with h | rfl | h
  · rw [List.getElem?_append_left h]
    exact ⟨Or.inl, fun h' => h'.resolve_right fun h' => absurd h'.1 (Nat.ne_of_lt h)⟩
  · simp
  · rw [List.getElem?_eq_none (by simp; omega), List.getElem?_eq_none (Nat.le_of_lt h)]
    constructor
    · exact fun h' => by cases h'
    · rintro (h' | ⟨rfl, -⟩)
      · cases h'
      · exact absurd h (Nat.lt_irrefl _)

variable {sts : List RecvStore} {buf : List Got} {stored : List UInt8}

theorem Stores.putBuf (h : Stores sts buf stored) (c : Got) :
    Stores (sts ++ [.buf buf.length c]) (buf ++ [c]) stored := by
  refine ⟨fun p d => ?_, fun q b => ?_⟩
  · rw [getElem?_snoc_eq_some, ← h.buf, List.mem_append, List.mem_singleton, RecvStore.buf.injEq]
    tauto
  · rw [← h.cmd, List.mem_append]
    simp

theorem Stores.putCmd (h : Stores sts buf stored) (b : UInt8) :
    Stores (sts ++ [.cmd stored.length b]) buf (stored ++ [b]) := by
  refine ⟨fun p d => ?_, fun q e => ?_⟩
  · rw [← h.buf, List.mem_append]
    simp
  · rw [getElem?_snoc_eq_some, ← h.cmd, List.mem_append, List.mem_singleton, RecvStore.cmd.injEq]
    tauto

/-- A receive that began at `s₀` has filled its arrays so far. -/
structure Reading (s₀ s : Port σ) (buf : List Got) (stored : List UInt8) : Prop where
  log : s.log = s₀.log
  stores : ∃ sts, s.stores = s₀.stores ++ sts ∧ Stores sts buf stored

theorem Reading.refl (s : Port σ) : Reading s s [] [] :=
  ⟨rfl, [], (List.append_nil _).symm, Stores.nil⟩

/-- A receive that has not hung has the characters from the link, one after the other. -/
structure Following (link : Link σ) (s₀ s : Port σ) (buf : List Got) (stored : List UInt8) : Prop
    extends Reading s₀ s buf stored where
  gives : GivesAll link s₀.link buf s.link

/-- The socket alone puts neither a call nor a store on the record. -/
def Quiet (s s' : Port σ) : Prop := s'.log = s.log ∧ s'.stores = s.stores

theorem Quiet.trans (a b c : Port σ) (h : Quiet a b) (h' : Quiet b c) : Quiet a c :=
  ⟨h'.1.trans h.1, h'.2.trans h.2⟩

variable {s₀ s s' : Port σ}

theorem Reading.quiet (h : Reading s₀ s buf stored) (hq : Quiet s s') : Reading s₀ s' buf stored :=
  ⟨hq.1.trans h.log, by rw [hq.2]; exact h.stores⟩

theorem Reading.putBuf (h : Reading s₀ s buf stored) (c : Got) :
    Reading s₀ { s with stores := s.stores ++ [.buf buf.length c] } (buf ++ [c]) stored := by
  obtain ⟨sts, heq, hsts⟩ := h.stores
  exact ⟨h.log, _, by rw [heq, List.append_assoc], hsts.putBuf c⟩

theorem Reading.putCmd (h : Reading s₀ s buf stored) (b : UInt8) :
    Reading s₀ { s with stores := s.stores ++ [.cmd stored.length b] } buf (stored ++ [b]) := by
  obtain ⟨sts, heq, hsts⟩ := h.stores
  exact ⟨h.log, _, by rw [heq, List.append_assoc], hsts.putCmd b⟩

section Socket

variable (link : Link σ) (fuel : Nat)

theorem keeps_gdbRemoteGetchar : Exec.Keeps Quiet (gdbRemoteGetchar link fuel) := by
  have hall (n : Nat) : Exec.Keeps Quiet (retryRecv link n) := by
    induction n with
    | zero => exact fun _ => ⟨rfl, rfl⟩
    | succ n ih =>
      refine Exec.Keeps.bind Quiet.trans (fun _ => ⟨rfl, rfl⟩) fun c => ?_
      cases c with
      | interrupted => exact ih
      | _ => exact fun _ => ⟨rfl, rfl⟩
  exact hall fuel

theorem keeps_gdbRemotePutchar (ch : UInt8) : Exec.Keeps Quiet (gdbRemotePutchar link fuel ch) := by
  have hall (n : Nat) : Exec.Keeps Quiet (retrySend link ch n) := by
    induction n with
    | zero => exact fun _ => ⟨rfl, rfl⟩
    | succ n ih =>
      refine Exec.Keeps.bind Quiet.trans (fun _ => ⟨rfl, rfl⟩) fun c => ?_
      cases c with
      | interrupted => exact ih
      | _ => exact fun _ => ⟨rfl, rfl⟩
  exact hall fuel

theorem wp_nextChar (h : Following link s₀ s buf stored) :
    Exec.wp (nextChar link fuel buf)
      (fun out s' => out.1 = buf ++ [out.2] ∧ Following link s₀ s' out.1 stored)
      (fun _ s' => Reading s₀ s' buf stored) s := by
  have hquiet := Exec.wp_state.mpr (keeps_gdbRemoteGetchar link fuel s)
  rw [nextChar, Exec.wp_bind]
  refine (hquiet.and (wp_gdbRemoteGetchar link fuel s)).mono (fun c s₁ hc => ?_)
    (fun _ _ hq => h.quiet hq.1)
  obtain ⟨hq, hgives⟩ := hc
  exact ⟨rfl, (h.quiet hq).putBuf c, h.gives.snoc hgives⟩

end Socket

/-! ## What is read -/

/-- The front of what is read: acknowledgements, and then `$` or a character that is neither. -/
structure Front (acks start rest : List Got) : Prop where
  acks : ∀ c ∈ acks, c.toInt = chPlus.toNat
  start : (∃ d, start = [d] ∧ d.toInt = chDollar.toNat) ∨
    start = [] ∧ ∀ c ∈ rest.head?, c.toInt ≠ chPlus.toNat ∧ c.toInt ≠ chDollar.toNat

theorem Front.congr {acks start rest rest' : List Got} (h : Front acks start rest)
    (heq : rest'.head? = rest.head?) : Front acks start rest' :=
  ⟨h.acks, by rw [heq]; exact h.start⟩

/-- The code of a receive into `cmdlen` bytes: the payload has to fit with its terminator. -/
def payloadRet (cmdlen n : Nat) : ClInt := if n ≤ cmdlen - 1 then clSuccess else clOutOfHostMemory

/-- Behind `pre` there was room in `buf` for the payload and the character that ended it. -/
def Room (pre payload : List Got) : Prop := payload = [] ∨ pre.length + payload.length + 1 < buflen

/-- The character behind the payload filled `buf`. -/
structure Full (pre payload : List Got) : Prop where
  some : payload ≠ []
  full : buflen ≤ pre.length + payload.length + 1
  first : payload.length = 1 ∨ pre.length + payload.length < buflen

theorem Full.snoc {pre payload : List Got} {c : Got} (hroom : Room pre payload)
    (hfull : buflen ≤ pre.length + (payload ++ [c]).length + 1) : Full pre (payload ++ [c]) := by
  have hlen : (payload ++ [c]).length = payload.length + 1 := by simp
  refine ⟨by simp, hfull, ?_⟩
  rcases hroom with rfl | hroom
  · exact Or.inl rfl
  · exact Or.inr (by omega)

/-- What a receive into `cmdlen` bytes returns and stores when it has read the given characters. -/
inductive Reads (cmdlen : Nat) : List Got → ClInt → List UInt8 → Prop
  | frame {acks start payload : List Got} {hash h1 h2 : Got}
      (front : Front acks start (payload ++ [hash]))
      (noHash : ∀ c ∈ payload, c.toInt ≠ chHash.toNat) (ends : hash.toInt = chHash.toNat)
      (room : Room (acks ++ start) payload) :
      Reads cmdlen (acks ++ start ++ payload ++ [hash, h1, h2]) (payloadRet cmdlen payload.length)
        ((payload.map Got.toByte).take (cmdlen - 1) ++ [0])
  | long {acks start payload : List Got} {last : Got} (front : Front acks start (payload ++ [last]))
      (noHash : ∀ c ∈ payload, c.toInt ≠ chHash.toNat) (full : Full (acks ++ start) payload) :
      Reads cmdlen (acks ++ start ++ payload ++ [last]) clOutOfHostMemory
        ((payload.map Got.toByte).take (cmdlen - 1))

/-- The number that two check digits are read as, and the state of the link behind that.  Where they are
none, it is whatever the local variable holds that nothing was stored to. -/
def checkDigits (link : Link σ) (h1 h2 : Got) (l : σ) : Int × σ :=
  match scanHex2 [h1.toByte, h2.toByte] with
  | some v => (v, l)
  | none => ((Int32.ofNat (leNat ((link.stack l).1.load 0 4))).toInt, (link.stack l).2)

/-- How a payload with that number behind it is acknowledged. -/
def ackOf (payload : List Got) (sum : Int) : UInt8 :=
  if (payload.map Got.toInt).sum % 256 ≠ sum then chMinus else chPlus

/-- From the state `l` the link gives a receive these characters, sees them acknowledged and is in the state
`l'`.  Where the receive ends is a matter of the characters only: at the two digits behind the first
`#`, or where its buffer is full, and then it acknowledges nothing. -/
inductive Replies (link : Link σ) : σ → List Got → σ → Prop
  | frame {l l₁ l' : σ} {acks start payload : List Got} {hash h1 h2 : Got}
      (front : Front acks start (payload ++ [hash]))
      (noHash : ∀ c ∈ payload, c.toInt ≠ chHash.toNat) (ends : hash.toInt = chHash.toNat)
      (room : Room (acks ++ start) payload)
      (gives : GivesAll link l (acks ++ start ++ payload ++ [hash, h1, h2]) l₁)
      (puts : Puts link (ackOf payload (checkDigits link h1 h2 l₁).1) (checkDigits link h1 h2 l₁).2 l') :
      Replies link l (acks ++ start ++ payload ++ [hash, h1, h2]) l'
  | long {l l' : σ} {acks start payload : List Got} {last : Got}
      (front : Front acks start (payload ++ [last]))
      (noHash : ∀ c ∈ payload, c.toInt ≠ chHash.toNat) (full : Full (acks ++ start) payload)
      (gives : GivesAll link l (acks ++ start ++ payload ++ [last]) l') :
      Replies link l (acks ++ start ++ payload ++ [last]) l'

/-- What stands behind the acknowledgements is no acknowledgement. -/
theorem Front.takeWhile_acks {acks start rest : List Got} (h : Front acks start rest) (hrest : rest ≠ [])
    (tail : List Got) :
    (acks ++ (start ++ (rest ++ tail))).takeWhile (fun c : Got => decide (c.toInt = chPlus.toNat)) = acks := by
  rw [List.takeWhile_append_of_pos fun c hc => decide_eq_true (h.acks c hc)]
  conv_rhs => rw [← List.append_nil acks]
  refine congrArg (acks ++ ·) ?_
  rcases h.start with ⟨d, rfl, hd⟩ | ⟨rfl, hhead⟩
  · have hne : (chDollar.toNat : Int) ≠ chPlus.toNat := by decide
    exact List.takeWhile_cons_of_neg (by rw [hd]; simpa using hne)
  · obtain ⟨c, cs, rfl⟩ := List.exists_cons_of_ne_nil hrest
    exact List.takeWhile_cons_of_neg (by simpa using (hhead c rfl).1)

/-- A text has one front. -/
theorem Front.unique {acks start rest acks' start' rest' tail tail' : List Got}
    (h : Front acks start rest) (h' : Front acks' start' rest') (hrest : rest ≠ []) (hrest' : rest' ≠ [])
    (heq : acks ++ (start ++ (rest ++ tail)) = acks' ++ (start' ++ (rest' ++ tail'))) :
    acks = acks' ∧ start = start' ∧ rest ++ tail = rest' ++ tail' := by
  have hacks : acks = acks' := by
    rw [← h.takeWhile_acks hrest tail, heq, h'.takeWhile_acks hrest' tail']
  subst hacks
  have hmore := List.append_cancel_left heq
  obtain ⟨c, cs, rfl⟩ := List.exists_cons_of_ne_nil hrest
  obtain ⟨c', cs', rfl⟩ := List.exists_cons_of_ne_nil hrest'
  rcases h.start with ⟨d, rfl, hd⟩ | ⟨rfl, hhead⟩
  · rcases h'.start with ⟨d', rfl, -⟩ | ⟨rfl, hhead'⟩
    · obtain ⟨rfl, hbehind⟩ := List.cons.inj hmore
      exact ⟨rfl, rfl, hbehind⟩
    · exact absurd ((List.cons.inj hmore).1 ▸ hd) (hhead' c' rfl).2
  · rcases h'.start with ⟨d', rfl, hd'⟩ | ⟨rfl, -⟩
    · exact absurd ((List.cons.inj hmore).1 ▸ hd') (hhead c rfl).2
    · exact ⟨rfl, rfl, hmore⟩

/-- A payload, and the character that ends it, the way a receive cuts them out of a text. -/
structure Cut (acks start payload : List Got) (last : Got) : Prop where
  front : Front acks start (payload ++ [last])
  noHash : ∀ c ∈ payload, c.toInt ≠ chHash.toNat
  ends : last.toInt = chHash.toNat ∧ Room (acks ++ start) payload ∨ Full (acks ++ start) payload

/-- There is not both room for a payload and none. -/
theorem Room.not_full {pre payload : List Got} (h : Room pre payload) : ¬ Full pre payload := by
  intro hfull
  rcases h with h | h
  · exact hfull.some h
  · exact absurd hfull.full (Nat.not_le.mpr h)

/-- The first end of a payload is its end. -/
theorem Cut.length_le {acks start payload payload' : List Got} {last last' : Got} {tail tail' : List Got}
    (h : Cut acks start payload last) (h' : Cut acks start payload' last')
    (heq : payload ++ [last] ++ tail = payload' ++ [last'] ++ tail') :
    payload'.length ≤ payload.length := by
  by_contra hlt
  have hlast : payload'[payload.length]? = some last := by
    have hat := congrArg (·[payload.length]?) heq
    simp only [List.append_assoc, List.getElem?_append_right (Nat.le_refl payload.length), Nat.sub_self,
      List.getElem?_append_left (Nat.lt_of_not_le hlt)] at hat
    exact hat.symm
  -- `last` is in the longer payload, so that it is no `#` and the shorter one filled the buffer
  have hfull : Full (acks ++ start) payload :=
    h.ends.resolve_left fun hhash => h'.noHash last (List.mem_of_getElem? hlast) hhash.1
  have hfill := hfull.full
  have hpos := List.length_pos_iff.mpr hfull.some
  rcases h'.ends with ⟨-, hroom⟩ | hfull'
  · rcases hroom with rfl | hroom
    · exact hlt (Nat.zero_le _)
    · omega
  · have hfirst := hfull'.first
    omega

/-- A text is cut in one way. -/
theorem Cut.unique {acks start payload acks' start' payload' : List Got} {last last' : Got}
    {tail tail' : List Got} (h : Cut acks start payload last) (h' : Cut acks' start' payload' last')
    (heq : acks ++ start ++ payload ++ last :: tail = acks' ++ start' ++ payload' ++ last' :: tail') :
    acks = acks' ∧ start = start' ∧ payload = payload' ∧ last = last' ∧ tail = tail' := by
  have hfronts : acks ++ (start ++ (payload ++ [last] ++ tail)) =
      acks' ++ (start' ++ (payload' ++ [last'] ++ tail')) := by simpa using heq
  obtain ⟨rfl, rfl, hmore⟩ := h.front.unique h'.front (by simp) (by simp) hfronts
  obtain ⟨hsame, rfl⟩ := List.append_inj hmore (by
    rw [List.length_append, List.length_append, Nat.le_antisymm (h'.length_le h hmore.symm)
      (h.length_le h' hmore)]
    rfl)
  obtain ⟨rfl, hlast⟩ := List.append_inj' hsame rfl
  exact ⟨rfl, rfl, rfl, List.singleton_inj.mp hlast, rfl⟩

variable {link : Link σ} {l l₁ l₂ : σ} {read read' : List Got}

theorem Replies.unique_of_le (h : Replies link l read l₁) (h' : Replies link l read' l₂)
    (hle : read.length ≤ read'.length) : read = read' ∧ l₁ = l₂ := by
  cases h with
  | frame front noHash ends room gives puts =>
    have hcut : Cut _ _ _ _ := ⟨front, noHash, Or.inl ⟨ends, room⟩⟩
    cases h' with
    | frame front' noHash' ends' room' gives' puts' =>
      obtain ⟨tail, htail⟩ := gives.prefix gives' hle
      obtain ⟨rfl, rfl, rfl, rfl, hdigits⟩ := hcut.unique ⟨front', noHash', Or.inl ⟨ends', room'⟩⟩
        (by simpa using htail)
      obtain ⟨rfl, hlo⟩ := List.cons.inj hdigits
      obtain ⟨rfl, -⟩ := List.cons.inj hlo
      obtain rfl := gives.unique gives'
      exact ⟨rfl, puts.unique puts'⟩
    | long front' noHash' full' gives' =>
      obtain ⟨tail, htail⟩ := gives.prefix gives' hle
      obtain ⟨rfl, rfl, rfl, -, -⟩ := hcut.unique ⟨front', noHash', Or.inr full'⟩ (by simpa using htail)
      exact absurd full' room.not_full
  | long front noHash full gives =>
    have hcut : Cut _ _ _ _ := ⟨front, noHash, Or.inr full⟩
    cases h' with
    | frame front' noHash' ends' room' gives' puts' =>
      obtain ⟨tail, htail⟩ := gives.prefix gives' hle
      obtain ⟨rfl, rfl, rfl, -, -⟩ := hcut.unique ⟨front', noHash', Or.inl ⟨ends', room'⟩⟩
        (by simpa using htail)
      exact absurd full room'.not_full
    | long front' noHash' full' gives' =>
      obtain ⟨tail, htail⟩ := gives.prefix gives' hle
      obtain ⟨rfl, rfl, rfl, rfl, -⟩ := hcut.unique ⟨front', noHash', Or.inr full'⟩ (by simpa using htail)
      exact ⟨rfl, gives.unique gives'⟩

theorem Replies.unique (h : Replies link l read l₁) (h' : Replies link l read' l₂) :
    read = read' ∧ l₁ = l₂ := by
  rcases Nat.le_total read.length read'.length with hle | hle
  · exact h.unique_of_le h' hle
  · obtain ⟨hread, hlink⟩ := h'.unique_of_le h hle
    exact ⟨hread.symm, hlink.symm⟩

/-- A receive that has not returned has read and stored the beginning of what a receive does. -/
def Incomplete (cmdlen : Nat) (read : List Got) (stored : List UInt8) : Prop :=
  ∃ rest r full, Reads cmdlen (read ++ rest) r full ∧ stored <+: full

/-- In front of the payload. -/
theorem Incomplete.front {cmdlen : Nat} {acks start : List Got}
    (hacks : ∀ c ∈ acks, c.toInt = chPlus.toNat)
    (hstart : (∃ d, start = [d] ∧ d.toInt = chDollar.toNat) ∨ start = []) :
    Incomplete cmdlen (acks ++ start) [] := by
  let hash : Got := .byte chHash
  have hfront : Front acks start ([] ++ [hash]) := by
    refine ⟨hacks, hstart.imp id fun h => ⟨h, fun c hc => ?_⟩⟩
    obtain rfl := Option.some.inj hc
    exact ⟨by decide, by decide⟩
  have hframe : Reads cmdlen (acks ++ start ++ [] ++ [hash, hash, hash]) _ _ :=
    .frame hfront (by simp) rfl (Or.inl rfl)
  rw [List.append_nil] at hframe
  exact ⟨_, _, _, hframe, List.nil_prefix⟩

/-- In the payload. -/
theorem Incomplete.payload {cmdlen : Nat} {acks start payload : List Got} {c : Got}
    (hfront : Front acks start (payload ++ [c])) (hno : ∀ x ∈ payload ++ [c], x.toInt ≠ chHash.toNat)
    (hroom : Room (acks ++ start) payload) {stored : List UInt8}
    (hstored : stored <+: ((payload ++ [c]).map Got.toByte).take (cmdlen - 1)) :
    Incomplete cmdlen (acks ++ start ++ (payload ++ [c])) stored := by
  have hfront' (d : Got) : Front acks start (payload ++ [c] ++ [d]) :=
    hfront.congr (by cases payload <;> rfl)
  by_cases hmore : Room (acks ++ start) (payload ++ [c])
  · refine ⟨[.byte chHash, .byte chHash, .byte chHash], _, _, .frame (hfront' _) hno rfl hmore, ?_⟩
    exact hstored.trans (List.prefix_append ..)
  · have hfull := (not_or.mp hmore).2
    exact ⟨[.byte chHash], _, _,
      .long (hfront' _) hno (.snoc hroom (Nat.not_lt.mp hfull)), hstored⟩

/-- What the receive's loop over a payload leaves behind: the characters that fit are stored, and all are
summed. -/
structure Payload.After (cmdlen : Nat) (payload : List Got) (f : Payload) : Prop where
  stored : f.stored = (payload.map Got.toByte).take (cmdlen - 1)
  r : f.r = payloadRet cmdlen payload.length
  sum : f.sum = (payload.map Got.toInt).sum

theorem wp_put {cmdlen : Nat} {payload : List Got} {f : Payload} (hafter : f.After cmdlen payload)
    (c : Got) (s : Port σ) :
    Exec.wp (f.put cmdlen c)
      (fun f' s' => f'.buf = f.buf ∧ f'.After cmdlen (payload ++ [c]) ∧
        (s'.link = s.link ∧ s'.log = s.log ∧ s'.wire = s.wire) ∧
          ∀ s₀, Reading s₀ s f.buf f.stored → Reading s₀ s' f'.buf f'.stored)
      (fun _ _ => False) s := by
  have hlen : f.stored.length = min (cmdlen - 1) payload.length := by
    rw [hafter.stored, List.length_take, List.length_map]
  have hsum : f.sum + c.toInt = ((payload ++ [c]).map Got.toInt).sum := by
    rw [hafter.sum, List.map_append, List.sum_append]
    simp
  unfold Payload.put
  refine Exec.wp_ite.mpr ⟨fun hroom => ?_, fun hroom => ?_⟩
  · refine ⟨rfl, ⟨?_, ?_, hsum⟩, ⟨rfl, rfl, rfl⟩, fun s₀ h => h.putCmd c.toByte⟩
    · show f.stored ++ [c.toByte] = _
      rw [hafter.stored, List.map_append, List.take_of_length_le (by simp; omega),
        List.take_of_length_le (by simp; omega)]
      rfl
    · show f.r = _
      rw [hafter.r, payloadRet, payloadRet, if_pos (by omega), if_pos (by simp; omega)]
  · have hge : cmdlen - 1 ≤ payload.length := by omega
    refine ⟨rfl, ⟨?_, ?_, hsum⟩, ⟨rfl, rfl, rfl⟩, fun s₀ h => h⟩
    · show f.stored = _
      rw [hafter.stored, List.map_append, List.take_append_of_le_length (by simpa using hge)]
    · show clOutOfHostMemory = _
      rw [payloadRet, if_neg (by simp; omega)]

section Recv

variable (link : Link σ) (fuel cmdlen : Nat)

/-- The payload loop, entered with `payload` read behind the front and `c` read behind that: what it
adds to `buf` ends with the `#`, or fills it. -/
theorem wp_recvPayload {acks start : List Got} (n : Nat) :
    ∀ (payload : List Got) (f : Payload) (c : Got) (s : Port σ),
    f.buf = acks ++ start ++ (payload ++ [c]) → Front acks start (payload ++ [c]) →
    f.After cmdlen payload → (∀ x ∈ payload, x.toInt ≠ chHash.toNat) → Room (acks ++ start) payload →
    Following link s₀ s f.buf f.stored →
    Exec.wp (recvPayload link fuel cmdlen f c n)
      (fun out s' => Following link s₀ s' out.2.buf out.2.stored ∧ ∃ (payload : List Got) (last : Got),
        out.2.buf = acks ++ start ++ (payload ++ [last]) ∧ Front acks start (payload ++ [last]) ∧
          out.2.After cmdlen payload ∧ (∀ x ∈ payload, x.toInt ≠ chHash.toNat) ∧
            bif out.1 then last.toInt = chHash.toNat ∧ Room (acks ++ start) payload
            else Full (acks ++ start) payload)
      (fun _ s' => ∃ read stored, Reading s₀ s' read stored ∧ Incomplete cmdlen read stored) s := by
  induction n with
  | zero =>
    intro payload f c s hbuf hfront hafter hno hroom hs
    rw [recvPayload]
    refine Exec.wp_ite.mpr ⟨fun hc => ⟨hs, payload, c, hbuf, hfront, hafter, hno, hc, hroom⟩,
      fun hc => ⟨f.buf, f.stored, hs.toReading, ?_⟩⟩
    rw [hbuf]
    refine .payload hfront (fun x hx => ?_) hroom ?_
    · rcases List.mem_append.mp hx with hx | hx
      · exact hno x hx
      · exact List.mem_singleton.mp hx ▸ hc
    · rw [hafter.stored, List.map_append]
      exact (List.prefix_append ..).take _
  | succ n ih =>
    intro payload f c s hbuf hfront hafter hno hroom hs
    rw [recvPayload]
    refine Exec.wp_ite.mpr ⟨fun hc => ⟨hs, payload, c, hbuf, hfront, hafter, hno, hc, hroom⟩,
      fun hc => ?_⟩
    have hno' : ∀ x ∈ payload ++ [c], x.toInt ≠ chHash.toNat := by
      intro x hx
      rcases List.mem_append.mp hx with hx | hx
      · exact hno x hx
      · exact List.mem_singleton.mp hx ▸ hc
    have hfront' (d : Got) : Front acks start (payload ++ [c] ++ [d]) :=
      hfront.congr (by cases payload <;> rfl)
    rw [Exec.wp_bind]
    refine (wp_put hafter c s).mono (fun f₁ s₁ h => ?_) (fun _ _ => False.elim)
    obtain ⟨hsame, hafter₁, ⟨hlink₁, -, -⟩, hreading⟩ := h
    have hs₁ : Following link s₀ s₁ f₁.buf f₁.stored :=
      ⟨hreading s₀ hs.toReading, by rw [hlink₁, hsame]; exact hs.gives⟩
    rw [Exec.wp_bind]
    refine (wp_nextChar link fuel hs₁).mono (fun out s₂ h => ?_) (fun _ s₂ h => ?_)
    · obtain ⟨buf, d⟩ := out
      obtain ⟨heq, hs₂⟩ := h
      have hsnoc : buf = f₁.buf ++ [d] := heq
      replace heq : buf = acks ++ start ++ (payload ++ [c] ++ [d]) := by
        rw [hsnoc, hsame, hbuf, List.append_assoc]
      have hafter₂ : Payload.After cmdlen (payload ++ [c]) { f₁ with buf := buf } :=
        ⟨hafter₁.stored, hafter₁.r, hafter₁.sum⟩
      have hlen : buf.length = (acks ++ start).length + (payload ++ [c]).length + 1 := by
        rw [heq]
        simp only [List.length_append, List.length_singleton]
        omega
      refine Exec.wp_ite.mpr ⟨fun hfull => ?_, fun hfull => ?_⟩
      · exact ⟨hs₂, payload ++ [c], d, heq, hfront' d, hafter₂, hno', .snoc hroom (hlen ▸ hfull)⟩
      · exact ih (payload ++ [c]) _ d s₂ heq (hfront' d) hafter₂ hno' (Or.inr (by omega)) hs₂
    · refine ⟨f₁.buf, f₁.stored, h, ?_⟩
      rw [hsame, hbuf, hafter₁.stored]
      exact .payload hfront hno' hroom (List.prefix_refl _)

/-- The acknowledgements at the front. -/
theorem wp_skipAcks (n : Nat) : ∀ (acks : List Got) (c : Got) (s : Port σ),
    (∀ x ∈ acks, x.toInt = chPlus.toNat) → Following link s₀ s (acks ++ [c]) [] →
    Exec.wp (skipAcks link fuel (acks ++ [c]) c n)
      (fun out s' => Following link s₀ s' out.1 [] ∧ ∃ acks', out.1 = acks' ++ [out.2] ∧
        (∀ x ∈ acks', x.toInt = chPlus.toNat) ∧ out.2.toInt ≠ chPlus.toNat)
      (fun _ s' => ∃ read, Reading s₀ s' read [] ∧ ∀ x ∈ read, x.toInt = chPlus.toNat) s := by
  have hsnoc {acks : List Got} {c : Got} (hacks : ∀ x ∈ acks, x.toInt = chPlus.toNat)
      (hc : c.toInt = chPlus.toNat) : ∀ x ∈ acks ++ [c], x.toInt = chPlus.toNat := by
    intro x hx
    rcases List.mem_append.mp hx with hx | hx
    · exact hacks x hx
    · exact List.mem_singleton.mp hx ▸ hc
  induction n with
  | zero =>
    intro acks c s hacks hs
    rw [skipAcks]
    exact Exec.wp_ite.mpr ⟨fun hc => ⟨_, hs.toReading, hsnoc hacks hc⟩, fun hc => ⟨hs, acks, rfl, hacks, hc⟩⟩
  | succ n ih =>
    intro acks c s hacks hs
    rw [skipAcks]
    refine Exec.wp_ite.mpr ⟨fun hc => ?_, fun hc => ⟨hs, acks, rfl, hacks, hc⟩⟩
    rw [Exec.wp_bind]
    refine (wp_nextChar link fuel hs).mono (fun out s₁ h => ?_) (fun _ s₁ h => ⟨_, h, hsnoc hacks hc⟩)
    obtain ⟨buf, d⟩ := out
    obtain ⟨heq, hs₁⟩ := h
    obtain rfl : buf = acks ++ [c] ++ [d] := heq
    exact ih (acks ++ [c]) d s₁ (hsnoc hacks hc) hs₁

theorem recvSum_eq (h1 h2 : Got) (s : Port σ) : recvSum link h1 h2 s =
    (.ok (checkDigits link h1 h2 s.link).1, { s with link := (checkDigits link h1 h2 s.link).2 }) := by
  unfold recvSum checkDigits
  cases scanHex2 [h1.toByte, h2.toByte] with
  | some v => rfl
  | none => rfl

/-- A receive is a function of what it reads, and reads what the link replies. -/
theorem wp_gdbRemoteRecv_replies (ack : Bool) (s : Port σ) :
    Exec.wp (gdbRemoteRecv link fuel cmdlen ack)
      (fun out s' => ∃ read ackChar sts, s'.log = s.log ++ [.recv read ackChar out.1] ∧
        Reads cmdlen read out.1 out.2 ∧ (s'.stores = s.stores ++ sts ∧ Stores sts read out.2) ∧
          (ack = true → Replies link s.link read s'.link))
      (fun _ s' => ∃ read stored, Reading s s' read stored ∧ Incomplete cmdlen read stored) s := by
  have hincomplete {s' : Port σ} (acks start : List Got) (hs' : Reading s s' (acks ++ start) [])
      (hacks : ∀ c ∈ acks, c.toInt = chPlus.toNat)
      (hstart : (∃ d, start = [d] ∧ d.toInt = chDollar.toNat) ∨ start = []) :
      ∃ read stored, Reading s s' read stored ∧ Incomplete cmdlen read stored :=
    ⟨_, _, hs', .front hacks hstart⟩
  rw [gdbRemoteRecv, Exec.wp_bind]
  refine (wp_nextChar link fuel ⟨Reading.refl s, .nil s.link⟩).mono (fun out s₁ h => ?_)
    (fun _ s₁ h => hincomplete [] [] h (by simp) (Or.inr rfl))
  obtain ⟨buf, c⟩ := out
  obtain ⟨heq, hs₁⟩ := h
  obtain rfl : buf = [] ++ [c] := heq
  rw [Exec.wp_bind]
  refine (wp_skipAcks link fuel fuel [] c s₁ (by simp) hs₁).mono (fun out s₂ h => ?_) (fun _ s₂ h => ?_)
  case refine_2 =>
    obtain ⟨read, hs₂, hacks⟩ := h
    exact hincomplete read [] (by rwa [List.append_nil]) hacks (Or.inr rfl)
  obtain ⟨buf, c₂⟩ := out
  obtain ⟨hs₂, acks, hbuf, hacks, hne⟩ := h
  replace hbuf : buf = acks ++ [c₂] := hbuf
  replace hne : c₂.toInt ≠ chPlus.toNat := hne
  replace hs₂ : Following link s s₂ (acks ++ [c₂]) [] := hbuf ▸ hs₂
  show Exec.wp (recvFrame link fuel cmdlen ack buf c₂) _ _ s₂
  rw [recvFrame]
  -- the `$` is passed over, or the payload starts without it
  suffices hrest : ∀ (start : List Got) (d : Got) (s₃ : Port σ),
      Following link s s₃ (acks ++ start ++ [d]) [] →
      Front acks start [d] →
      Exec.wp (do
        let out ← recvPayload link fuel cmdlen ⟨acks ++ start ++ [d], [], clSuccess, 0⟩ d buflen
        if !out.1 then
          record (.recv out.2.buf none clOutOfHostMemory)
          return (clOutOfHostMemory, out.2.stored)
        recvCheck link fuel out.2 ack : Gdb σ (ClInt × List UInt8))
        (fun out s' => ∃ read ackChar sts, s'.log = s.log ++ [.recv read ackChar out.1] ∧
          Reads cmdlen read out.1 out.2 ∧ (s'.stores = s.stores ++ sts ∧ Stores sts read out.2) ∧
            (ack = true → Replies link s.link read s'.link))
        (fun _ s' => ∃ read stored, Reading s s' read stored ∧ Incomplete cmdlen read stored) s₃ by
    refine Exec.wp_ite.mpr ⟨fun hd => ?_, fun hd => ?_⟩
    · rw [Exec.wp_bind, hbuf]
      refine (wp_nextChar link fuel hs₂).mono (fun out s₃ h => ?_)
        (fun _ s₃ h => hincomplete _ _ h hacks (Or.inl ⟨c₂, rfl, hd⟩))
      obtain ⟨buf', d⟩ := out
      obtain ⟨heq, hs₃⟩ := h
      obtain rfl : buf' = acks ++ [c₂] ++ [d] := heq
      exact hrest [c₂] d s₃ hs₃ ⟨hacks, Or.inl ⟨c₂, rfl, hd⟩⟩
    · have hstart := hrest [] c₂ s₂ (by rwa [List.append_nil]) ⟨hacks, Or.inr ⟨rfl, fun x hx => by
        obtain rfl := Option.some.inj hx
        exact ⟨hne, hd⟩⟩⟩
      rwa [List.append_nil, ← hbuf] at hstart
  intro start d s₃ hs₃ hfront
  have hzero : Payload.After cmdlen [] ⟨acks ++ start ++ [d], [], clSuccess, 0⟩ :=
    ⟨by simp, by rw [payloadRet, if_pos (by simp)], rfl⟩
  rw [Exec.wp_bind]
  refine (wp_recvPayload link fuel cmdlen buflen [] _ d s₃ rfl hfront hzero (by simp) (Or.inl rfl)
    hs₃).mono (fun out s₄ h => ?_) (fun _ _ h => h)
  obtain ⟨ended, f⟩ := out
  obtain ⟨hs₄, payload, last, hfbuf, hfront, hafter, hno, hend⟩ := h
  replace hs₄ : Following link s s₄ f.buf f.stored := hs₄
  replace hfbuf : f.buf = acks ++ start ++ payload ++ [last] := by
    rw [List.append_assoc]
    exact hfbuf
  replace hafter : f.After cmdlen payload := hafter
  cases ended with
  | false =>
    obtain ⟨sts, hsts, hstores⟩ := hs₄.stores
    refine ⟨f.buf, none, sts, ?_, ?_, ⟨hsts, hstores⟩, fun _ => ?_⟩
    · show s₄.log ++ [_] = _
      rw [hs₄.log]
    · show Reads cmdlen f.buf clOutOfHostMemory f.stored
      rw [hfbuf, hafter.stored]
      exact .long hfront hno hend
    · rw [hfbuf]
      exact .long hfront hno hend (hfbuf ▸ hs₄.gives)
  | true =>
    obtain ⟨hhash, hroom⟩ := hend
    have hframe (h1 h2 : Got) : f.buf ++ [h1] ++ [h2] = acks ++ start ++ payload ++ [last, h1, h2] := by
      rw [hfbuf]
      simp
    have hreads (h1 h2 : Got) : Reads cmdlen (f.buf ++ [h1] ++ [h2]) f.r (f.stored ++ [0]) := by
      rw [hframe, hafter.stored, hafter.r]
      exact .frame hfront hno hhash hroom
    have hhang {s' : Port σ} {read : List Got} (rest : List Got) (h : Reading s s' read (f.stored ++ [0]))
        (heq : ∃ h1 h2, read ++ rest = f.buf ++ [h1] ++ [h2]) :
        ∃ read stored, Reading s s' read stored ∧ Incomplete cmdlen read stored := by
      obtain ⟨h1, h2, heq⟩ := heq
      exact ⟨read, _, h, rest, _, _, heq ▸ hreads h1 h2, List.prefix_refl _⟩
    show Exec.wp (recvCheck link fuel f ack) _ _ s₄
    rw [recvCheck, Exec.wp_bind]
    show Exec.wp _ _ _ { s₄ with stores := s₄.stores ++ [RecvStore.cmd f.stored.length 0] }
    rw [Exec.wp_bind]
    refine (wp_nextChar link fuel ⟨hs₄.putCmd 0, hs₄.gives⟩).mono (fun out s₅ h => ?_)
      (fun _ _ h => hhang [.byte 0, .byte 0] h ⟨.byte 0, .byte 0, by simp⟩)
    obtain ⟨buf₁, h1⟩ := out
    obtain ⟨heq₁, hs₅⟩ := h
    obtain rfl : buf₁ = f.buf ++ [h1] := heq₁
    rw [Exec.wp_bind]
    refine (wp_nextChar link fuel hs₅).mono (fun out s₆ h => ?_)
      (fun _ _ h => hhang [.byte 0] h ⟨h1, .byte 0, rfl⟩)
    obtain ⟨buf₂, h2⟩ := out
    obtain ⟨heq₂, hs₆⟩ := h
    obtain rfl : buf₂ = f.buf ++ [h1] ++ [h2] := heq₂
    replace hs₆ : Following link s s₆ (f.buf ++ [h1] ++ [h2]) (f.stored ++ [0]) := hs₆
    show Exec.wp (recvSum link h1 h2 >>= _) _ _ s₆
    rw [Exec.wp_bind, Exec.wp_of_ok (recvSum_eq link h1 h2 s₆)]
    generalize hs₇ : ({ s₆ with link := (checkDigits link h1 h2 s₆.link).2 } : Port σ) = s₇
    have hquiet : Quiet s₆ s₇ := hs₇ ▸ ⟨rfl, rfl⟩
    have hdone {s₈ : Port σ} (h : Reading s s₈ (f.buf ++ [h1] ++ [h2]) (f.stored ++ [0]))
        (ackChar : Option UInt8)
        (hreplies : ack = true → Replies link s.link (f.buf ++ [h1] ++ [h2]) s₈.link) :
        ∃ read ackChar' sts,
          s₈.log ++ [.recv (f.buf ++ [h1] ++ [h2]) ackChar f.r] = s.log ++ [.recv read ackChar' f.r] ∧
            Reads cmdlen read f.r (f.stored ++ [0]) ∧
              (s₈.stores = s.stores ++ sts ∧ Stores sts read (f.stored ++ [0])) ∧
                (ack = true → Replies link s.link read s₈.link) := by
      obtain ⟨sts, hsts, hstores⟩ := h.stores
      exact ⟨_, ackChar, sts, by rw [h.log], hreads h1 h2, ⟨hsts, hstores⟩, hreplies⟩
    cases ack with
    | false => exact hdone (hs₆.quiet hquiet) none fun h => by cases h
    | true =>
      show Exec.wp (gdbRemotePutchar link fuel _ >>= _) _ _ s₇
      rw [Exec.wp_bind]
      have hkeep := Exec.wp_state.mpr (keeps_gdbRemotePutchar link fuel
        (if f.sum % 256 ≠ (checkDigits link h1 h2 s₆.link).1 then chMinus else chPlus) s₇)
      refine (hkeep.and (wp_gdbRemotePutchar link fuel _ s₇)).mono (fun _ s₈ h => ?_)
        (fun _ _ h => hhang [] ((hs₆.quiet hquiet).quiet h.1) ⟨h1, h2, List.append_nil _⟩)
      obtain ⟨hq, hputs⟩ := h
      refine hdone ((hs₆.quiet hquiet).quiet hq) _ fun _ => ?_
      rw [hafter.sum, ← hs₇] at hputs
      rw [hframe]
      exact .frame hfront hno hhash hroom (hframe h1 h2 ▸ hs₆.gives) hputs

/-- **A receive is a function of what it reads.** -/
theorem wp_gdbRemoteRecv (ack : Bool) (s : Port σ) :
    Exec.wp (gdbRemoteRecv link fuel cmdlen ack)
      (fun out s' => ∃ read ackChar sts, s'.log = s.log ++ [.recv read ackChar out.1] ∧
        Reads cmdlen read out.1 out.2 ∧ s'.stores = s.stores ++ sts ∧ Stores sts read out.2)
      (fun _ s' => ∃ read stored, Reading s s' read stored ∧ Incomplete cmdlen read stored) s := by
  refine (wp_gdbRemoteRecv_replies link fuel cmdlen ack s).mono (fun out s' h => ?_) (fun _ _ h => h)
  obtain ⟨read, ackChar, sts, hlog, hreads, hstores, -⟩ := h
  exact ⟨read, ackChar, sts, hlog, hreads, hstores⟩

end Recv

/-! ## Intact answers -/

/-- What was read is acknowledgements and an intact packet with this body. -/
def Answer (read : List Got) (body : List UInt8) : Prop :=
  ∃ k, ∃ p : Packet, p.body = body ∧ read = (List.replicate k chPlus ++ p.bytes).map Got.byte

/-- An intact answer is delivered, as far as there is room. -/
theorem Reads.answer {cmdlen : Nat} {read : List Got} {r : ClInt} {stored body : List UInt8}
    (h : Reads cmdlen read r stored) (ha : Answer read body) :
    r = payloadRet cmdlen body.length ∧ stored = body.take (cmdlen - 1) ++ [0] := by
  obtain ⟨k, p, rfl, hread⟩ := ha
  -- the acknowledgements and the `$` are where the receive takes them to be
  have hsplit {j : Nat} {acks start rest : List Got} (hfront : Front acks start rest)
      (heq : acks ++ (start ++ rest) = (List.replicate j chPlus ++ p.bytes).map Got.byte) :
      rest = (p.body ++ [chHash, p.hi, p.lo]).map Got.byte := by
    rw [List.map_append, List.map_replicate] at heq
    induction j generalizing acks with
    | zero =>
      cases acks with
      | cons a acks =>
        have ha := hfront.acks a (List.mem_cons_self ..)
        simp only [List.replicate_zero, List.nil_append, Packet.bytes, List.map_cons,
          List.cons_append, List.cons.injEq] at heq
        rw [heq.1] at ha
        exact absurd (Got.toInt_byte_eq.mp ha) (by decide)
      | nil =>
        simp only [List.replicate_zero, List.nil_append, Packet.bytes, List.map_cons] at heq
        rcases hfront.start with ⟨d, rfl, -⟩ | ⟨rfl, hhead⟩
        · exact (List.cons.inj heq).2
        · rw [List.nil_append] at heq
          have hd := (hhead (.byte chDollar) (by rw [heq]; rfl)).2
          exact absurd (Got.toInt_byte_eq.mpr rfl) hd
    | succ j ih =>
      rw [List.replicate_succ, List.cons_append] at heq
      cases acks with
      | cons a acks =>
        exact ih ⟨fun c hc => hfront.acks c (List.mem_cons_of_mem _ hc), hfront.start⟩
          (List.cons.inj heq).2
      | nil =>
        rw [List.nil_append] at heq
        rcases hfront.start with ⟨d, rfl, hd⟩ | ⟨rfl, hhead⟩
        · rw [(List.cons.inj heq).1] at hd
          exact absurd (Got.toInt_byte_eq.mp hd) (by decide)
        · rw [List.nil_append] at heq
          have hp := (hhead (.byte chPlus) (by rw [heq]; rfl)).1
          exact absurd (Got.toInt_byte_eq.mpr rfl) hp
  -- so is the `#`: it is the first one
  have hbody {payload tail : List Got} {hash : Got} (hno : ∀ c ∈ payload, c.toInt ≠ chHash.toNat)
      (hhash : hash.toInt = chHash.toNat)
      (heq : payload ++ hash :: tail = (p.body ++ [chHash, p.hi, p.lo]).map Got.byte) :
      payload = p.body.map Got.byte := by
    have hnoBody := p.noHash
    generalize p.body = bs at heq hnoBody
    induction payload generalizing bs with
    | nil =>
      cases bs with
      | nil => rfl
      | cons b bs =>
        rw [(List.cons.inj heq).1] at hhash
        exact absurd (Got.toInt_byte_eq.mp hhash) fun hb => hnoBody (hb ▸ List.mem_cons_self ..)
    | cons c payload ih =>
      cases bs with
      | nil =>
        have hc := hno c (List.mem_cons_self ..)
        rw [(List.cons.inj heq).1] at hc
        exact absurd (Got.toInt_byte_eq.mpr rfl) hc
      | cons b bs =>
        rw [List.map_cons, ih (fun x hx => hno x (List.mem_cons_of_mem _ hx)) bs (List.cons.inj heq).2
          fun hb => hnoBody (List.mem_cons_of_mem _ hb), (List.cons.inj heq).1]
  cases h with
  | @frame acks start payload hash h1 h2 hfront hno hhash =>
    have hfront' : Front acks start (payload ++ hash :: [h1, h2]) := by
      refine ⟨hfront.acks, hfront.start.imp id fun hs => ⟨hs.1, fun c hc => hs.2 c ?_⟩⟩
      cases payload <;> exact hc
    have hpayload : payload = p.body.map Got.byte :=
      hbody hno hhash (hsplit hfront' (by simpa using hread))
    subst hpayload
    exact ⟨by rw [List.length_map], by rw [map_toByte_byte]⟩
  | @long acks start payload last hfront hno =>
    have hrest := hsplit hfront (by simpa using hread)
    -- the `#` would be in the payload
    have hlast : payload = (p.body ++ [chHash, p.hi]).map Got.byte := by
      have heq : payload ++ [last] = (p.body ++ [chHash, p.hi]).map Got.byte ++ [.byte p.lo] := by
        rw [hrest]
        simp
      exact (List.append_inj' heq rfl).1
    exact absurd (Got.toInt_byte_eq.mpr rfl)
      (hno (.byte chHash) (by rw [hlast]; simp))

end BaremetalCrt
