/-
# BaremetalCrt.Lib.Rsp — the packets of the GDB remote serial protocol.

A packet is `$`, a body without `#`, `#` and the checksum of the body as two digits.  A sender escapes
`#`, `$`, `}` and `*` in the body with `}` and the byte with bit five flipped.  `Packet` is a packet on
the wire, whoever wrote it: a reply carries its own digits, of either case.

What is escaped is restored (`unescape_escape`), an escaped text has no `#` in it, so that every text of a
command has a packet (`Packet.command`), and the parts of a packet are found again in its bytes.
-/
import BaremetalCrt.Lib.Hex

namespace BaremetalCrt.Lib

/-- `#`, which ends the body of a packet; two digits of a checksum come behind it. -/
def chHash : UInt8 := 0x23

/-- `$`, which begins a packet. -/
def chDollar : UInt8 := 0x24

/-- `*`, which stands for repeated characters, and so is escaped, too. -/
def chStar : UInt8 := 0x2a

/-- `+`, the acknowledgement of a packet that arrived intact. -/
def chPlus : UInt8 := 0x2b

/-- `-`, which asks for the packet again. -/
def chMinus : UInt8 := 0x2d

/-- `}`, which stands in front of an escaped character. -/
def chBrace : UInt8 := 0x7d

/-- The sum of the bytes of a body, modulo 256. -/
def checksum (bs : List UInt8) : Nat := (bs.map UInt8.toNat).sum % 256

theorem checksum_lt (bs : List UInt8) : checksum bs < 256 := Nat.mod_lt _ (by decide)

/-! ## Escapes -/

/-- The characters that mean something in a packet. -/
def NeedsEscape (c : UInt8) : Prop := c = chHash ∨ c = chDollar ∨ c = chBrace ∨ c = chStar

instance (c : UInt8) : Decidable (NeedsEscape c) := inferInstanceAs (Decidable (_ ∨ _))

/-- A character as it stands in the body of a packet. -/
def escapeByte (c : UInt8) : List UInt8 := if NeedsEscape c then [chBrace, c ^^^ 0x20] else [c]

/-- A text as it stands in the body of a packet: the special characters are escaped. -/
def escape (cmd : List UInt8) : List UInt8 := cmd.flatMap escapeByte

/-- Undo the escapes of a body: a `}` is left out, and the character behind it is restored. -/
def unescape : List UInt8 → List UInt8
  | [] => []
  | [c] => [c]
  | c :: d :: cs => if c = chBrace then (d ^^^ 0x20) :: unescape cs else c :: unescape (d :: cs)

theorem unescape_cons_of_ne {c : UInt8} (hc : c ≠ chBrace) (cs : List UInt8) :
    unescape (c :: cs) = c :: unescape cs := by
  cases cs with
  | nil => rfl
  | cons d cs => rw [unescape, if_neg hc]

@[simp] theorem unescape_escape (cmd : List UInt8) : unescape (escape cmd) = cmd := by
  induction cmd with
  | nil => rfl
  | cons c cmd ih =>
    rw [escape, List.flatMap_cons, ← escape, escapeByte]
    by_cases hc : NeedsEscape c
    · rw [if_pos hc]
      show unescape (chBrace :: (c ^^^ 0x20) :: escape cmd) = _
      rw [unescape, if_pos rfl, ih]
      rcases hc with rfl | rfl | rfl | rfl <;> rfl
    · rw [if_neg hc]
      have hne : c ≠ chBrace := fun h => hc (Or.inr (Or.inr (Or.inl h)))
      show unescape (c :: escape cmd) = _
      rw [unescape_cons_of_ne hne, ih]

/-- No escaped body has a `#` or a `$` in it. -/
theorem notMem_escape {d : UInt8} (hd : d = chHash ∨ d = chDollar) (cmd : List UInt8) : d ∉ escape cmd := by
  intro hmem
  obtain ⟨c, -, hc⟩ := List.mem_flatMap.mp hmem
  unfold escapeByte at hc
  split at hc
  · next hesc =>
    rcases hd with rfl | rfl <;> rcases hesc with rfl | rfl | rfl | rfl <;> exact absurd hc (by decide)
  · next hesc =>
    obtain rfl := List.mem_singleton.mp hc
    exact hesc (hd.imp id Or.inl)

theorem hash_notMem_escape (cmd : List UInt8) : chHash ∉ escape cmd := notMem_escape (Or.inl rfl) cmd

theorem dollar_notMem_escape (cmd : List UInt8) : chDollar ∉ escape cmd := notMem_escape (Or.inr rfl) cmd

/-- Every escape makes the body one byte longer. -/
theorem length_escape (cmd : List UInt8) :
    (escape cmd).length = cmd.length + cmd.countP fun c => decide (NeedsEscape c) := by
  induction cmd with
  | nil => rfl
  | cons c cmd ih =>
    rw [escape, List.flatMap_cons, List.length_append, ← escape, ih, List.length_cons, List.countP_cons,
      escapeByte]
    by_cases hc : NeedsEscape c
    · simp only [hc, if_true, decide_true, List.length_cons, List.length_nil]
      omega
    · simp only [hc, if_false, decide_false, Bool.false_eq_true, List.length_cons, List.length_nil]
      omega

theorem length_escape_le (cmd : List UInt8) : (escape cmd).length ≤ 2 * cmd.length := by
  have hcount : (cmd.countP fun c => decide (NeedsEscape c)) ≤ cmd.length := List.countP_le_length
  rw [length_escape]
  omega

/-- A body is the command itself just when nothing in it needs an escape. -/
theorem escape_eq_self_iff {cmd : List UInt8} : escape cmd = cmd ↔ ∀ c ∈ cmd, ¬ NeedsEscape c := by
  constructor
  · intro h
    have hlen := length_escape cmd
    rw [h] at hlen
    have hzero : (cmd.countP fun c => decide (NeedsEscape c)) = 0 := by omega
    exact fun c hc hesc => List.countP_eq_zero.mp hzero c hc (decide_eq_true hesc)
  · intro h
    have hall : ∀ c ∈ cmd, escapeByte c = [c] := fun c hc => if_neg (h c hc)
    rw [escape, List.flatMap_congr hall, List.flatMap_singleton']

/-! ## Packets -/

/-- A packet on the wire with its two check digits; `#` ends the body, so that it has none. -/
structure Packet where
  body : List UInt8
  hi : UInt8
  lo : UInt8
  noHash : chHash ∉ body
  check : hexPair hi lo = some (checksum body)

/-- The packet as it goes over the line: `$`, body, `#` and the two digits. -/
def Packet.bytes (p : Packet) : List UInt8 := chDollar :: (p.body ++ [chHash, p.hi, p.lo])

theorem Packet.length_bytes (p : Packet) : p.bytes.length = p.body.length + 4 := by
  simp [bytes]

/-- The packet of a body that has no `#` in it, with the digits of its checksum. -/
def Packet.of (body : List UInt8) (h : chHash ∉ body) : Packet :=
  ⟨body, hexDigit (checksum body / 16 % 16), hexDigit (checksum body % 16), h,
    hexPair_hexByte (checksum_lt body)⟩

/-- The packet that carries a command, whatever characters are in it. -/
def Packet.command (cmd : List UInt8) : Packet := .of (escape cmd) (hash_notMem_escape cmd)

/-- Take an intact packet off the front of a stream: its body, and the rest. -/
def unpack : List UInt8 → Option (List UInt8 × List UInt8)
  | [] => none
  | c :: cs =>
    if c = chDollar then
      match cs.dropWhile (· ≠ chHash) with
      | _ :: hi :: lo :: rest =>
        if hexPair hi lo = some (checksum (cs.takeWhile (· ≠ chHash))) then
          some (cs.takeWhile (· ≠ chHash), rest)
        else none
      | _ => none
    else none

/-- A packet is taken off as it was put on. -/
theorem unpack_bytes (p : Packet) (rest : List UInt8) :
    unpack (p.bytes ++ rest) = some (p.body, rest) := by
  have hstream : p.bytes ++ rest = chDollar :: (p.body ++ chHash :: (p.hi :: p.lo :: rest)) := by
    simp [Packet.bytes]
  have hbody : ∀ c ∈ p.body, decide (c ≠ chHash) = true := by
    intro c hc
    exact decide_eq_true fun heq => p.noHash (heq ▸ hc)
  rw [hstream, unpack, if_pos rfl, List.takeWhile_append_of_pos hbody, List.dropWhile_append_of_pos hbody,
    List.takeWhile_cons_of_neg (by simp), List.dropWhile_cons_of_neg (by simp), List.append_nil]
  exact if_pos p.check

end BaremetalCrt.Lib
