/-
# BaremetalCrt.Pci.DeviceList — the lines of `/proc/bus/pci/devices` (`drivers/pci/pci_sysfs.c`).

A line starts with where a device is, and with its ids: `sscanf` reads fields of two and of four characters,
each with white space in front and a sign or `0x` among them.  What the format writes is read back
(`scanLine_pciLineText`).

`scanHex` is one field of the format, `scanLine` the whole of the call; `PciLine.stored` is the conversion
to the types of the variables. `PciFunction` is a device as the bus has it, and `deviceList` the text that
is printed of a bus; it comes back as the numbers of its devices, line by line.
-/
import BaremetalCrt.Gdb.Receive
import BaremetalCrt.Gdb.Remote
import BaremetalCrt.Lib.Lines
import BaremetalCrt.Pci.Sysfs
import Mathlib.Data.List.TakeWhile

namespace BaremetalCrt

open Lib

/-! ## Lines -/

/-- The length of `0x` in front of the digits, or nothing. -/
def hexPrefix : List UInt8 → Nat
  | c :: x :: _ => if c = 0x30 ∧ (x = 0x78 ∨ x = 0x58) then 2 else 0
  | _ => 0

/-- The digits in front of a text. -/
def hexDigits (s : List UInt8) : List UInt8 := s.takeWhile fun c => (hexVal c).isSome

/-- A number in `w` characters at most, and what is left. -/
def scanNumber (w : Nat) (s : List UInt8) : Option (Nat × List UInt8) :=
  let k := hexPrefix (s.take w)
  let digits := hexDigits ((s.take w).drop k)
  (parseHex digits).map fun v => (v, s.drop (k + digits.length))

/-- `%0wx` of `sscanf`: white space is skipped, and a sign is one of the characters. -/
def scanHex (w : Nat) (s : List UInt8) : Option (Int × List UInt8) :=
  match s.dropWhile isSpace with
  | [] => none
  | c :: rest =>
    if c = chPlus then (scanNumber (w - 1) rest).map fun p => (Int.ofNat p.1, p.2)
    else if c = chMinus then (scanNumber (w - 1) rest).map fun p => (- Int.ofNat p.1, p.2)
    else (scanNumber w (c :: rest)).map fun p => (Int.ofNat p.1, p.2)

/-- What is read from a line: the four numbers, as `sscanf` stores them. -/
structure PciLine where
  pcibus : Int
  devfn : Int
  vid : Int
  did : Int
  deriving DecidableEq, Repr

/-- `sscanf(line, "%02x%02x\t%04x%04x", &pcibus, &devfn, &vid, &did)`, when it converts all four. -/
def scanLine (line : List UInt8) : Option PciLine := do
  let (pcibus, s) ← scanHex 2 (cstr line)
  let (devfn, s) ← scanHex 2 s
  -- the tab is any white space
  let (vid, s) ← scanHex 4 (s.dropWhile isSpace)
  let (did, _) ← scanHex 4 s
  return ⟨pcibus, devfn, vid, did⟩

/-- What is stored for a line: device and function are taken out of `devfn`, which is a signed number then. -/
def PciLine.stored (f : PciLine) : PciSysfsEnumInfo :=
  let devfn := Int32.ofInt f.devfn
  let pcidev := (devfn >>> 3) &&& 0x1f
  let pcifn := devfn &&& 0x07
  ⟨(Int32.ofInt f.pcibus).toUInt32, pcidev.toUInt32, pcifn.toUInt32,
    (Int32.ofInt f.vid).toUInt32.toUInt16, (Int32.ofInt f.did).toUInt32.toUInt16⟩

/-- `'\n'`, which ends a line. -/
def chNewline : UInt8 := 0x0a

/-- `sizeof(line)`: a longer line comes in pieces of one byte less. -/
def lineSize : Nat := 4096

/-! ## Fields -/

theorem scanNumber_lt {w : Nat} {p : Nat × List UInt8} {s : List UInt8} (h : scanNumber w s = some p) :
    p.1 < 16 ^ w := by
  obtain ⟨v, hv, rfl⟩ := Option.map_eq_some_iff.mp h
  have hlen : (hexDigits ((s.take w).drop (hexPrefix (s.take w)))).length ≤ w := by
    have htake := (List.takeWhile_prefix (l := (s.take w).drop (hexPrefix (s.take w)))
      fun c => (hexVal c).isSome).length_le
    rw [List.length_drop, List.length_take] at htake
    exact htake.trans (by omega)
  exact (parseHex_lt hv).trans_le (Nat.pow_le_pow_right (by decide) hlen)

/-- A field of `w` characters is a number below `16 ^ w`, with its sign. -/
theorem scanHex_lt {w : Nat} {p : Int × List UInt8} {s : List UInt8} (h : scanHex w s = some p) :
    -16 ^ w < p.1 ∧ p.1 < 16 ^ w := by
  have hnum {k : Nat} {q : Nat × List UInt8} {s : List UInt8} (hk : k ≤ w) (hq : scanNumber k s = some q) :
      (q.1 : Int) < 16 ^ w := by
    have hlt := (scanNumber_lt hq).trans_le (Nat.pow_le_pow_right (by decide) hk)
    exact_mod_cast hlt
  unfold scanHex at h
  split at h
  · cases h
  split at h
  · obtain ⟨q, hq, rfl⟩ := Option.map_eq_some_iff.mp h
    have := hnum (Nat.sub_le ..) hq
    simp only [Int.ofNat_eq_natCast]
    omega
  split at h
  · obtain ⟨q, hq, rfl⟩ := Option.map_eq_some_iff.mp h
    have := hnum (Nat.sub_le ..) hq
    simp only [Int.ofNat_eq_natCast]
    omega
  · obtain ⟨q, hq, rfl⟩ := Option.map_eq_some_iff.mp h
    have := hnum (Nat.le_refl _) hq
    simp only [Int.ofNat_eq_natCast]
    omega

/-- The ids of a line have sixteen bits and a sign. -/
theorem scanLine_lt {line : List UInt8} {f : PciLine} (h : scanLine line = some f) :
    (-16 ^ 4 < f.vid ∧ f.vid < 16 ^ 4) ∧ -16 ^ 4 < f.did ∧ f.did < 16 ^ 4 := by
  obtain ⟨pcibus, -, h⟩ := Option.bind_eq_some_iff.mp h
  obtain ⟨devfn, -, h⟩ := Option.bind_eq_some_iff.mp h
  obtain ⟨vid, hvid, h⟩ := Option.bind_eq_some_iff.mp h
  obtain ⟨did, hdid, h⟩ := Option.bind_eq_some_iff.mp h
  obtain rfl := Option.some.inj h
  exact ⟨scanHex_lt hvid, scanHex_lt hdid⟩

/-! ## Fields that are read back -/

theorem hexPrefix_of_digits : ∀ {ds : List UInt8}, (∀ c ∈ ds, (hexVal c).isSome) → hexPrefix ds = 0
  | [], _ => rfl
  | [_], _ => rfl
  | c :: x :: ds, h => by
    rw [hexPrefix, if_neg]
    rintro ⟨-, rfl | rfl⟩
    · exact absurd (h 0x78 (List.mem_cons_of_mem _ (List.mem_cons_self ..))) (by decide)
    · exact absurd (h 0x58 (List.mem_cons_of_mem _ (List.mem_cons_self ..))) (by decide)

theorem scanNumber_hexText {w n : Nat} (hw : 0 < w) (hn : n < 16 ^ w) (rest : List UInt8) :
    scanNumber w (hexText w n ++ rest) = some (n, rest) := by
  have hdigits : ∀ c ∈ hexText w n, (hexVal c).isSome := fun _ => isSome_hexVal_of_mem_hexText
  have hall : hexDigits (hexText w n) = hexText w n := List.takeWhile_eq_self_iff.mpr hdigits
  rw [scanNumber, List.take_left' (length_hexText hw hn), hexPrefix_of_digits hdigits, List.drop_zero, hall,
    parseHex_hexText hw, Nat.zero_add, Option.map_some, List.drop_left]

theorem dropWhile_hexText {w : Nat} (hw : 0 < w) (n : Nat) (rest : List UInt8) :
    (hexText w n ++ rest).dropWhile isSpace = hexText w n ++ rest := by
  obtain ⟨c, cs, v, htext, hv⟩ := hexText_cons hw n
  rw [htext, List.cons_append]
  apply List.dropWhile_cons_of_neg
  rw [(plain_of_hexVal hv).1]
  exact Bool.false_ne_true

/-- A number with as many digits as the field has characters is read back. -/
theorem scanHex_hexText {w n : Nat} (hw : 0 < w) (hn : n < 16 ^ w) (rest : List UInt8) :
    scanHex w (hexText w n ++ rest) = some ((n : Int), rest) := by
  have hnum := scanNumber_hexText hw hn rest
  obtain ⟨c, cs, v, htext, hv⟩ := hexText_cons hw n
  obtain ⟨-, hplus, hminus⟩ := plain_of_hexVal hv
  rw [scanHex, dropWhile_hexText hw]
  rw [htext, List.cons_append] at hnum ⊢
  dsimp only
  rw [if_neg hplus, if_neg hminus, hnum]
  rfl

/-- `printf("%02x%02x\t%04x%04x", bus, devfn, vid, did)`, and what follows. -/
def pciLineText (bus devfn vid did : Nat) (rest : List UInt8) : List UInt8 :=
  hexText 2 bus ++ (hexText 2 devfn ++ (0x09 :: (hexText 4 vid ++ (hexText 4 did ++ rest))))

theorem scanLine_eq_some {line s₁ s₂ s₃ s₄ : List UInt8} {pcibus devfn vid did : Int}
    (hbus : scanHex 2 (cstr line) = some (pcibus, s₁)) (hdevfn : scanHex 2 s₁ = some (devfn, s₂))
    (hvid : scanHex 4 (s₂.dropWhile isSpace) = some (vid, s₃)) (hdid : scanHex 4 s₃ = some (did, s₄)) :
    scanLine line = some ⟨pcibus, devfn, vid, did⟩ := by
  simp only [scanLine, hbus, Option.bind_eq_bind, Option.bind_some, hdevfn, hvid, hdid]
  rfl

/-- **A device is read back from its line.** -/
theorem scanLine_pciLineText {bus devfn vid did : Nat} (hbus : bus < 16 ^ 2) (hdevfn : devfn < 16 ^ 2)
    (hvid : vid < 16 ^ 4) (hdid : did < 16 ^ 4) (rest : List UInt8) :
    scanLine (pciLineText bus devfn vid did rest) = some ⟨bus, devfn, vid, did⟩ := by
  have htext (w n : Nat) : ∀ c ∈ hexText w n, decide (c ≠ 0) = true := by
    intro c hc
    apply decide_eq_true
    rintro rfl
    exact absurd (isSome_hexVal_of_mem_hexText hc) (by decide)
  have hstr : cstr (pciLineText bus devfn vid did rest) = pciLineText bus devfn vid did (cstr rest) := by
    rw [cstr, pciLineText, List.takeWhile_append_of_pos (htext 2 bus),
      List.takeWhile_append_of_pos (htext 2 devfn), List.takeWhile_cons_of_pos (by decide),
      List.takeWhile_append_of_pos (htext 4 vid), List.takeWhile_append_of_pos (htext 4 did)]
    rfl
  have hspace : (0x09 :: (hexText 4 vid ++ (hexText 4 did ++ cstr rest))).dropWhile isSpace =
      hexText 4 vid ++ (hexText 4 did ++ cstr rest) := by
    rw [List.dropWhile_cons_of_pos rfl, dropWhile_hexText (by decide)]
  apply scanLine_eq_some
  · rw [hstr, pciLineText]
    exact scanHex_hexText (by decide) hbus _
  · exact scanHex_hexText (by decide) hdevfn _
  · rw [hspace]
    exact scanHex_hexText (by decide) hvid _
  · exact scanHex_hexText (by decide) hdid _

/-! ## What is stored for a line -/

/-- The record of a line: `devfn` is a byte, with the device in its upper bits and the function in the lower
three. -/
def PciLine.info (f : PciLine) : PciSysfsEnumInfo :=
  let devfn := UInt8.ofInt f.devfn
  ⟨UInt32.ofInt f.pcibus, (devfn >>> 3).toUInt32, (devfn &&& 7).toUInt32, UInt16.ofInt f.vid,
    UInt16.ofInt f.did⟩

theorem toUInt32_ofInt (v : Int) : (Int32.ofInt v).toUInt32 = UInt32.ofInt v := by
  apply UInt32.toNat_inj.mp
  show (BitVec.ofInt 32 v).toNat = (UInt32.ofInt v).toNat
  rw [BitVec.toNat_ofInt, UInt32.ofInt, UInt32.toNat_ofNat']
  omega

theorem toUInt16_ofInt (v : Int) : (Int32.ofInt v).toUInt32.toUInt16 = UInt16.ofInt v := by
  apply UInt16.toNat_inj.mp
  rw [UInt32.toNat_toUInt16]
  show (BitVec.ofInt 32 v).toNat % 2 ^ 16 = (UInt16.ofInt v).toNat
  rw [BitVec.toNat_ofInt, UInt16.ofInt, UInt16.toNat_ofNat']
  omega

theorem toBitVec_byte (v : Int) : (UInt8.ofInt v).toBitVec = (BitVec.ofInt 32 v).setWidth 8 := by
  apply BitVec.eq_of_toNat_eq
  rw [BitVec.toNat_setWidth, BitVec.toNat_ofInt, UInt8.toNat_toBitVec, UInt8.ofInt, UInt8.toNat_ofNat']
  omega

/-- The mask leaves the bits of the low byte, also of a negative number. -/
theorem pcidev_bits (x : BitVec 32) : x.sshiftRight 3 &&& 31#32 = ((x.setWidth 8) >>> 3).setWidth 32 := by
  apply BitVec.eq_of_getLsbD_eq
  intro i hi
  have hmask : (31#32).getLsbD i = decide (i < 5) := by
    revert i
    decide
  rw [BitVec.getLsbD_and, hmask, BitVec.getLsbD_sshiftRight, BitVec.getLsbD_setWidth,
    BitVec.getLsbD_ushiftRight, BitVec.getLsbD_setWidth]
  by_cases h5 : i < 5
  · simp [h5, hi, show 3 + i < 8 by omega, show 3 + i < 32 by omega]
  · simp [h5, show ¬ 3 + i < 8 by omega]

theorem pcifn_bits (x : BitVec 32) : x &&& 7#32 = ((x.setWidth 8) &&& 7#8).setWidth 32 := by
  apply BitVec.eq_of_toNat_eq
  have h32 : (7#32).toNat = 2 ^ 3 - 1 := rfl
  have h8 : (7#8).toNat = 2 ^ 3 - 1 := rfl
  rw [BitVec.toNat_and, h32, BitVec.toNat_setWidth, BitVec.toNat_and, h8, BitVec.toNat_setWidth,
    Nat.and_two_pow_sub_one_eq_mod, Nat.and_two_pow_sub_one_eq_mod]
  omega

theorem PciLine.stored_eq_info (f : PciLine) : f.stored = f.info := by
  have hdev : ((Int32.ofInt f.devfn >>> 3) &&& 0x1f).toUInt32 = (UInt8.ofInt f.devfn >>> 3).toUInt32 := by
    apply UInt32.toBitVec_inj.mp
    have hbits := pcidev_bits (BitVec.ofInt 32 f.devfn)
    rw [← toBitVec_byte] at hbits
    exact hbits
  have hfn : (Int32.ofInt f.devfn &&& 0x07).toUInt32 = (UInt8.ofInt f.devfn &&& 7).toUInt32 := by
    apply UInt32.toBitVec_inj.mp
    have hbits := pcifn_bits (BitVec.ofInt 32 f.devfn)
    rw [← toBitVec_byte] at hbits
    exact hbits
  rw [stored, info, hdev, hfn, toUInt32_ofInt, toUInt16_ofInt, toUInt16_ofInt]

/-! ## The list of a bus -/

/-- `struct pci_sysfs_dev_id`: the ids that a driver takes. -/
structure PciSysfsDevId where
  vendor : UInt16
  device : UInt16
  deriving DecidableEq, Repr

/-- A function of a device: where it is, and what it is. -/
structure PciFunction where
  bus : UInt8
  devfn : UInt8
  id : PciSysfsDevId

namespace PciFunction

/-- Its line in the list; `rest` is what the driver does not read. -/
def line (d : PciFunction) (rest : List UInt8) : List UInt8 :=
  pciLineText d.bus.toNat d.devfn.toNat d.id.vendor.toNat d.id.device.toNat rest ++ [chNewline]

/-- The record that the enumeration makes of a device of its table. -/
def info (d : PciFunction) : PciSysfsEnumInfo :=
  ⟨d.bus.toUInt32, (d.devfn >>> 3).toUInt32, (d.devfn &&& 7).toUInt32, d.id.vendor, d.id.device⟩

/-- The numbers of the function's line, as they are read back. -/
def read (d : PciFunction) : PciLine := ⟨d.bus.toNat, d.devfn.toNat, d.id.vendor.toNat, d.id.device.toNat⟩

variable (d : PciFunction)

theorem scanLine_line (rest : List UInt8) : scanLine (d.line rest) = some d.read := by
  have happend : d.line rest =
      pciLineText d.bus.toNat d.devfn.toNat d.id.vendor.toNat d.id.device.toNat (rest ++ [chNewline]) := by
    simp only [line, pciLineText, List.append_assoc, List.cons_append]
  rw [happend]
  exact scanLine_pciLineText d.bus.toNat_lt d.devfn.toNat_lt d.id.vendor.toNat_lt d.id.device.toNat_lt _

theorem read_info : d.read.info = d.info := by
  have h8 (x : UInt8) : UInt8.ofInt x.toNat = x := by
    apply UInt8.toNat_inj.mp
    have := x.toNat_lt
    rw [UInt8.ofInt, UInt8.toNat_ofNat']
    omega
  have h32 (x : UInt8) : UInt32.ofInt x.toNat = x.toUInt32 := by
    apply UInt32.toNat_inj.mp
    have := x.toNat_lt
    rw [UInt32.ofInt, UInt32.toNat_ofNat', UInt8.toNat_toUInt32]
    omega
  have h16 (x : UInt16) : UInt16.ofInt x.toNat = x := by
    apply UInt16.toNat_inj.mp
    have := x.toNat_lt
    rw [UInt16.ofInt, UInt16.toNat_ofNat']
    omega
  rw [PciLine.info, read, info]
  dsimp only
  rw [h8, h32, h16, h16]

end PciFunction

/-- The list of a bus: what is on it, with the rest of each line. -/
def deviceList (ds : List (PciFunction × List UInt8)) : List UInt8 := ds.flatMap fun d => d.1.line d.2

theorem newline_notMem_pciLineText {bus devfn vid did : Nat} {rest : List UInt8} (h : chNewline ∉ rest) :
    chNewline ∉ pciLineText bus devfn vid did rest := by
  have htext (w n : Nat) : chNewline ∉ hexText w n := fun hmem =>
    absurd (isSome_hexVal_of_mem_hexText hmem) (by decide)
  have htab : chNewline ≠ 0x09 := by decide
  simp only [pciLineText, List.mem_append, List.mem_cons, htext, htab, h, or_self, not_false_eq_true]

variable {ds : List (PciFunction × List UInt8)}

theorem lines_deviceList (h : ∀ d ∈ ds, chNewline ∉ d.2) :
    lines chNewline (deviceList ds) = ds.map fun d => d.1.line d.2 := by
  induction ds with
  | nil => rfl
  | cons d ds ih =>
    have hds : ∀ d' ∈ ds, chNewline ∉ d'.2 := fun d' hd' => h d' (List.mem_cons_of_mem _ hd')
    show lines chNewline ((pciLineText _ _ _ _ d.2 ++ [chNewline]) ++ deviceList ds) = _
    rw [List.append_assoc, List.singleton_append,
      lines_append_sep (newline_notMem_pciLineText (h d (List.mem_cons_self ..))), ih hds]
    rfl

theorem PciFunction.length_line (d : PciFunction) (rest : List UInt8) :
    (d.line rest).length = rest.length + 14 := by
  simp only [PciFunction.line, pciLineText, List.length_append, List.length_cons, List.length_nil,
    length_hexText (by decide : 0 < 2) d.bus.toNat_lt, length_hexText (by decide : 0 < 2) d.devfn.toNat_lt,
    length_hexText (by decide : 0 < 4) d.id.vendor.toNat_lt,
    length_hexText (by decide : 0 < 4) d.id.device.toNat_lt]
  omega

theorem deviceList_ok (hrest : ∀ d ∈ ds, chNewline ∉ d.2 ∧ d.2.length + 14 < lineSize) :
    ∀ l ∈ lines chNewline (deviceList ds), l.length < lineSize ∧ (scanLine l).isSome := by
  intro l hl
  rw [lines_deviceList fun d hd => (hrest d hd).1] at hl
  obtain ⟨d, hd, rfl⟩ := List.mem_map.mp hl
  rw [d.1.length_line, d.1.scanLine_line]
  exact ⟨(hrest d hd).2, rfl⟩

end BaremetalCrt
