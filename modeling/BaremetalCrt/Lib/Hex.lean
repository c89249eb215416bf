/-
# BaremetalCrt.Lib.Hex — hexadecimal text as bytes.

Numbers as `printf` writes them (`%0wx`: lower case, padded with zeros) and byte strings as two digits
a byte, with the readers that take both back.  A reader accepts digits of either case.

A digit has a value (`hexVal`), two digits are a byte (`hexPair`), and a text of digits is a number
(`parseHex`). What the writers put out, the readers take for what it was: `hexPair_hexByte`, and
`parseHex_hexText` for numbers of any width. The texts hold digits only, so that a separator behind a number
is found.
-/
import Mathlib.Data.Nat.Digits.Lemmas
import Mathlib.Data.List.Basic

namespace BaremetalCrt.Lib

/-! ## Digits -/

/-- The value of a digit, in either case. Other characters have none. -/
def hexVal (c : UInt8) : Option Nat :=
  if 48 ≤ c.toNat ∧ c.toNat ≤ 57 then some (c.toNat - 48)
  else if 97 ≤ c.toNat ∧ c.toNat ≤ 102 then some (c.toNat - 87)
  else if 65 ≤ c.toNat ∧ c.toNat ≤ 70 then some (c.toNat - 55)
  else none

/-- The lower-case digit of a value below sixteen. -/
def hexDigit (n : Nat) : UInt8 := UInt8.ofNat (if n < 10 then 48 + n else 87 + n)

theorem hexVal_hexDigit {n : Nat} (hn : n < 16) : hexVal (hexDigit n) = some n := by
  revert n
  decide

theorem hexVal_lt {c : UInt8} {n : Nat} (h : hexVal c = some n) : n < 16 := by
  unfold hexVal at h
  split at h
  · cases h
    omega
  split at h
  · cases h
    omega
  split at h
  · cases h
    omega
  · cases h

/-- The value of two digits, the high one first. -/
def hexPair (c d : UInt8) : Option Nat := do
  let hi ← hexVal c
  let lo ← hexVal d
  return 16 * hi + lo

theorem hexPair_lt {c d : UInt8} {n : Nat} (h : hexPair c d = some n) : n < 256 := by
  obtain ⟨hi, hhi, h⟩ := Option.bind_eq_some_iff.mp h
  obtain ⟨lo, hlo, h⟩ := Option.bind_eq_some_iff.mp h
  have := hexVal_lt hhi
  have := hexVal_lt hlo
  obtain rfl := Option.some.inj h
  omega

/-- `%02x` of a byte: two digits of lower case. -/
def hexByte (n : Nat) : List UInt8 := [hexDigit (n / 16 % 16), hexDigit (n % 16)]

theorem hexPair_hexByte {n : Nat} (hn : n < 256) :
    hexPair (hexDigit (n / 16 % 16)) (hexDigit (n % 16)) = some n := by
  rw [hexPair, hexVal_hexDigit (Nat.mod_lt _ (by decide)), hexVal_hexDigit (Nat.mod_lt _ (by decide))]
  show some (16 * (n / 16 % 16) + n % 16) = some n
  congr 1
  omega

/-! ## Byte strings -/

/-- The text of some bytes, two digits each. -/
def hexBytes (bs : List UInt8) : List UInt8 := bs.flatMap fun b => hexByte b.toNat

/-- The bytes of a text with two digits each, in either case. -/
def unhexBytes : List UInt8 → Option (List UInt8)
  | [] => some []
  | c :: d :: cs => do
    let n ← hexPair c d
    let bs ← unhexBytes cs
    return UInt8.ofNat n :: bs
  | [_] => none

@[simp] theorem length_hexBytes (bs : List UInt8) : (hexBytes bs).length = 2 * bs.length := by
  induction bs with
  | nil => rfl
  | cons b bs ih =>
    rw [hexBytes, List.flatMap_cons, List.length_append, ← hexBytes, ih]
    simp only [hexByte, List.length_cons, List.length_nil]
    omega

theorem unhexBytes_hexBytes (bs : List UInt8) : unhexBytes (hexBytes bs) = some bs := by
  induction bs with
  | nil => rfl
  | cons b bs ih =>
    have hpair : hexPair (hexDigit (b.toNat / 16 % 16)) (hexDigit (b.toNat % 16)) = some b.toNat :=
      hexPair_hexByte b.toNat_lt
    show unhexBytes (_ :: _ :: hexBytes bs) = _
    rw [unhexBytes, hpair, ih]
    simp

/-- A text that reads as bytes has two digits for each of them, at its place. -/
theorem hexPair_of_unhexBytes : ∀ {cs bs : List UInt8}, unhexBytes cs = some bs →
    cs.length = 2 * bs.length ∧
      ∀ i (hi : i < bs.length), ∃ c d, cs[2 * i]? = some c ∧ cs[2 * i + 1]? = some d ∧
        hexPair c d = some (bs[i].toNat)
  | [], bs, h => by
    obtain rfl := Option.some.inj h
    exact ⟨rfl, fun i hi => absurd hi (Nat.not_lt_zero i)⟩
  | [_], _, h => by cases h
  | c :: d :: cs, bs, h => by
    rw [unhexBytes] at h
    obtain ⟨n, hn, h⟩ := Option.bind_eq_some_iff.mp h
    obtain ⟨bs', hbs, h⟩ := Option.bind_eq_some_iff.mp h
    obtain rfl := Option.some.inj h
    obtain ⟨hlen, hall⟩ := hexPair_of_unhexBytes hbs
    refine ⟨by simp only [List.length_cons, hlen]; omega, fun i hi => ?_⟩
    cases i with
    | zero =>
      refine ⟨c, d, rfl, rfl, ?_⟩
      have hlt := hexPair_lt hn
      rw [hn]
      simp [Nat.mod_eq_of_lt hlt]
    | succ i =>
      obtain ⟨c', d', hc, hd, hval⟩ := hall i (by simpa using hi)
      exact ⟨c', d', hc, hd, hval⟩

/-! ## Numbers -/

/-- `%0wx` of a number: at least `w` digits, with zeros in front. -/
def hexText (w n : Nat) : List UInt8 :=
  ((Nat.digits 16 n).reverse.map hexDigit).leftpad w (hexDigit 0)

/-- The number a text of digits stands for; the empty text stands for none. -/
def parseHex (cs : List UInt8) : Option Nat :=
  if cs = [] then none else (cs.mapM hexVal).map fun ds => Nat.ofDigits 16 ds.reverse

theorem mapM_hexVal_lt : ∀ {cs : List UInt8} {ds : List Nat}, cs.mapM hexVal = some ds →
    ds.length = cs.length ∧ ∀ d ∈ ds, d < 16
  | [], ds, h => by
    obtain rfl := Option.some.inj h
    exact ⟨rfl, fun d hd => absurd hd List.not_mem_nil⟩
  | c :: cs, ds, h => by
    rw [List.mapM_cons] at h
    obtain ⟨d, hd, h⟩ := Option.bind_eq_some_iff.mp h
    obtain ⟨ds', hds, h⟩ := Option.bind_eq_some_iff.mp h
    obtain rfl := Option.some.inj h
    obtain ⟨hlen, hall⟩ := mapM_hexVal_lt hds
    refine ⟨by rw [List.length_cons, List.length_cons, hlen], fun x hx => ?_⟩
    rcases List.mem_cons.mp hx with rfl | hx
    · exact hexVal_lt hd
    · exact hall x hx

/-- `k` digits stand for a number below `16 ^ k`. -/
theorem parseHex_lt {cs : List UInt8} {n : Nat} (h : parseHex cs = some n) : n < 16 ^ cs.length := by
  unfold parseHex at h
  split at h
  · cases h
  · obtain ⟨ds, hds, rfl⟩ := Option.map_eq_some_iff.mp h
    obtain ⟨hlen, hall⟩ := mapM_hexVal_lt hds
    rw [← hlen, ← List.length_reverse]
    exact Nat.ofDigits_lt_base_pow_length (by decide) fun d hd => hall d (List.mem_reverse.mp hd)

theorem mapM_hexVal_map_hexDigit {ds : List Nat} (hds : ∀ d ∈ ds, d < 16) :
    (ds.map hexDigit).mapM hexVal = some ds := by
  induction ds with
  | nil => rfl
  | cons d ds ih =>
    rw [List.map_cons, List.mapM_cons, hexVal_hexDigit (hds d (List.mem_cons_self ..)),
      ih fun x hx => hds x (List.mem_cons_of_mem _ hx)]
    rfl

/-- The digits of the text, most significant first. -/
theorem hexText_eq (w n : Nat) : ∃ k,
    hexText w n = (List.replicate k 0 ++ (Nat.digits 16 n).reverse).map hexDigit := by
  refine ⟨w - (Nat.digits 16 n).length, ?_⟩
  rw [hexText, List.leftpad, List.map_append, List.map_replicate, List.length_map,
    List.length_reverse]

theorem digit_lt_of_mem {k n d : Nat}
    (hd : d ∈ List.replicate k 0 ++ (Nat.digits 16 n).reverse) : d < 16 := by
  rcases List.mem_append.mp hd with hd | hd
  · rw [(List.mem_replicate.mp hd).2]
    decide
  · exact Nat.digits_lt_base (by decide) (List.mem_reverse.mp hd)

/-- A number is read back from its text. -/
theorem parseHex_hexText {w : Nat} (hw : 0 < w) (n : Nat) : parseHex (hexText w n) = some n := by
  have hlen : w ≤ (hexText w n).length := by
    rw [hexText, List.length_leftpad]
    omega
  have hne : hexText w n ≠ [] := by
    intro hnil
    rw [hnil] at hlen
    simp at hlen
    omega
  obtain ⟨k, hk⟩ := hexText_eq w n
  rw [parseHex, if_neg hne, hk, mapM_hexVal_map_hexDigit fun d => digit_lt_of_mem]
  rw [Option.map_some, List.reverse_append, List.reverse_reverse, List.reverse_replicate,
    Nat.ofDigits_append, Nat.ofDigits_replicate_zero, Nat.ofDigits_digits, Nat.mul_zero, Nat.add_zero]

/-- The text consists of digits. -/
theorem isSome_hexVal_of_mem_hexText {w n : Nat} {c : UInt8} (hc : c ∈ hexText w n) :
    (hexVal c).isSome := by
  obtain ⟨k, hk⟩ := hexText_eq w n
  rw [hk] at hc
  obtain ⟨d, hd, rfl⟩ := List.mem_map.mp hc
  rw [hexVal_hexDigit (digit_lt_of_mem hd)]
  rfl

/-- The text of a number below `16 ^ k` has `k` digits at most, or as many as it is padded to. -/
theorem length_hexText_le {w n k : Nat} (hwk : w ≤ k) (hn : n < 16 ^ k) :
    (hexText w n).length ≤ k := by
  have hdigits := (Nat.digits_length_le_iff (b := 16) (by decide) n).mpr hn
  rw [hexText, List.length_leftpad, List.length_map, List.length_reverse]
  omega

/-- The text has `k` digits at most just when the padding has and the number is below `16 ^ k`. -/
theorem length_hexText_le_iff {w n k : Nat} : (hexText w n).length ≤ k ↔ w ≤ k ∧ n < 16 ^ k := by
  rw [hexText, List.length_leftpad, List.length_map, List.length_reverse, Nat.max_le,
    Nat.digits_length_le_iff (by decide)]

theorem length_hexText {w n : Nat} (hw : 0 < w) (hn : n < 16 ^ w) : (hexText w n).length = w := by
  have hle := length_hexText_le (Nat.le_refl w) hn
  have hge : ¬ (hexText w n).length ≤ w - 1 := by
    intro h
    have := (length_hexText_le_iff.mp h).1
    omega
  omega

/-- The text starts with a digit. -/
theorem hexText_cons {w : Nat} (hw : 0 < w) (n : Nat) :
    ∃ c cs v, hexText w n = c :: cs ∧ hexVal c = some v := by
  cases htext : hexText w n with
  | nil =>
    have hle : (hexText w n).length ≤ 0 := by rw [htext, List.length_nil]
    have := (length_hexText_le_iff.mp hle).1
    omega
  | cons c cs =>
    have hmem : c ∈ hexText w n := by
      rw [htext]
      exact List.mem_cons_self ..
    obtain ⟨v, hv⟩ := Option.isSome_iff_exists.mp (isSome_hexVal_of_mem_hexText hmem)
    exact ⟨c, cs, v, rfl, hv⟩

/-- The front of the text of a number has lost its last digits. -/
theorem parseHex_take_hexText {n k : Nat} (hn : 0 < n) (hk : 0 < k) (hle : k ≤ (hexText 1 n).length) :
    parseHex ((hexText 1 n).take k) = some (n / 16 ^ ((hexText 1 n).length - k)) := by
  have hpos : 0 < (Nat.digits 16 n).length :=
    List.length_pos_iff.mpr (Nat.digits_ne_nil_iff_ne_zero.mpr (Nat.pos_iff_ne_zero.mp hn))
  have htext : hexText 1 n = (Nat.digits 16 n).reverse.map hexDigit := by
    rw [hexText, List.leftpad, List.length_map, List.length_reverse, Nat.sub_eq_zero_of_le hpos,
      List.replicate_zero, List.nil_append]
  have hlen : (hexText 1 n).length = (Nat.digits 16 n).length := by
    rw [htext, List.length_map, List.length_reverse]
  rw [hlen] at hle ⊢
  have htake : (hexText 1 n).take k =
      ((Nat.digits 16 n).drop ((Nat.digits 16 n).length - k)).reverse.map hexDigit := by
    rw [htext, ← List.map_take, List.take_reverse]
  have hne : (hexText 1 n).take k ≠ [] := by
    intro hnil
    have hzero := congrArg List.length hnil
    rw [List.length_take, hlen, List.length_nil] at hzero
    omega
  have hds : ∀ d ∈ ((Nat.digits 16 n).drop ((Nat.digits 16 n).length - k)).reverse, d < 16 := fun d hd =>
    Nat.digits_lt_base (by decide) (List.mem_of_mem_drop (List.mem_reverse.mp hd))
  rw [parseHex, if_neg hne, htake, mapM_hexVal_map_hexDigit hds, Option.map_some, List.reverse_reverse,
    Nat.self_div_pow_eq_ofDigits_drop _ _ (by decide)]

theorem isSome_hexVal_of_mem_hexBytes {bs : List UInt8} {c : UInt8} (hc : c ∈ hexBytes bs) :
    (hexVal c).isSome := by
  obtain ⟨b, -, hb⟩ := List.mem_flatMap.mp hc
  have hdigit {d : Nat} (hd : d < 16) : (hexVal (hexDigit d)).isSome := by
    rw [hexVal_hexDigit hd]
    rfl
  simp only [hexByte, List.mem_cons, List.not_mem_nil, or_false] at hb
  rcases hb with rfl | rfl <;> exact hdigit (Nat.mod_lt _ (by decide))

end BaremetalCrt.Lib
