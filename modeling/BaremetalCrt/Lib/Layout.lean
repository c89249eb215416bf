/-
# BaremetalCrt.Lib.Layout — records at offsets of a buffer, and which of its bytes a program touches.

A buffer is seen from its start: `View` gives the byte at each offset, whether it belongs to the buffer
or not, and sums of offsets wrap like sums of pointers.  `Field` is a little-endian number at an offset of
a record.  `Touch` records an access; it is `Inside` when all of its bytes, in unbounded integers, belong
to the buffer.
-/
import BaremetalCrt.Lib.Bytes

namespace BaremetalCrt.Lib

/-- The bytes around an address, by their offsets from it. -/
abbrev View := UInt64 → UInt8

variable (m : View)

/-- The `n` bytes at `p`, whose addresses wrap as sums of 64 bits do. -/
def View.bytes (p : UInt64) (n : Nat) : List UInt8 := (List.range n).map fun i => m (p + UInt64.ofNat i)

/-- An access: to so many bytes, or to a string up to its terminator. -/
inductive Touch where
  | bytes (off : UInt64) (width : Nat)
  | cstr (off : UInt64)
  deriving DecidableEq, Repr

/-- Every byte of the access is one of the first `len`. -/
def Touch.Inside (len : Nat) : Touch → Prop
  | .bytes off width => off.toNat + width ≤ len
  | .cstr off => ∃ n, off.toNat + n < len ∧ m (off + UInt64.ofNat n) = 0

/-- The access finds the same bytes in another memory; a string ends at its first zero. -/
def Touch.Same (m' : View) : Touch → Prop
  | .bytes off width => ∀ i < width, m' (off + UInt64.ofNat i) = m (off + UInt64.ofNat i)
  | .cstr off => ∀ n, (∀ k < n, m (off + UInt64.ofNat k) ≠ 0) →
    m' (off + UInt64.ofNat n) = m (off + UInt64.ofNat n)

theorem Touch.Same.refl (m : View) (t : Touch) : t.Same m m := by
  cases t with
  | bytes off width => exact fun _ _ => rfl
  | cstr off => exact fun _ _ => rfl

/-! ## Fields -/

/-- A number in a record: where it is and how many bytes it takes. -/
structure Field where
  off : UInt64
  width : Nat
  deriving DecidableEq, Repr

/-- The field of the record at `base`, a little-endian number. -/
def Field.get (base : UInt64) (f : Field) : UInt64 := UInt64.ofNat (leNat (m.bytes (base + f.off) f.width))

/-- The bytes that are read for a field of the record at `base`. -/
def Field.touch (base : UInt64) (f : Field) : Touch := .bytes (base + f.off) f.width

/-- The fields lie in the first `size` bytes of the record. -/
def Within (size : Nat) (fs : List Field) : Prop := ∀ f ∈ fs, f.off.toNat + f.width ≤ size

instance (size : Nat) (fs : List Field) : Decidable (Within size fs) :=
  inferInstanceAs (Decidable (∀ f ∈ fs, _))

variable {m}

theorem leNat_lt (bs : List UInt8) : leNat bs < 256 ^ bs.length := by
  induction bs with
  | nil => exact Nat.one_pos
  | cons b bs ih =>
    have hb := b.toNat_lt
    rw [leNat, List.length_cons, Nat.pow_succ]
    omega

@[simp] theorem View.length_bytes (p : UInt64) (n : Nat) : (m.bytes p n).length = n := by
  simp [View.bytes]

theorem View.bytes_succ (p : UInt64) (n : Nat) : m.bytes p (n + 1) = m p :: m.bytes (p + 1) n := by
  rw [View.bytes, List.range_succ_eq_map, List.map_cons, List.map_map]
  refine congrArg₂ List.cons (congrArg m (UInt64.add_zero p)) (List.map_congr_left fun i _ => ?_)
  show m (p + UInt64.ofNat (i + 1)) = m (p + 1 + UInt64.ofNat i)
  rw [UInt64.ofNat_add, UInt64.add_assoc, UInt64.add_comm 1]
  rfl

theorem Field.get_lt {f : Field} (hf : f.width ≤ 8) (base : UInt64) :
    (f.get m base).toNat < 256 ^ f.width := by
  have hlt := leNat_lt (m.bytes (base + f.off) f.width)
  rw [View.length_bytes] at hlt
  have hpow : 256 ^ f.width ≤ 256 ^ 8 := Nat.pow_le_pow_right (by decide) hf
  rwa [Field.get, UInt64.toNat_ofNat_of_lt' (lt_of_lt_of_le hlt hpow)]

/-- A field that is found the same has the same value. -/
theorem Field.get_same {m' : View} {f : Field} {base : UInt64} (h : (f.touch base).Same m m') :
    f.get m' base = f.get m base := by
  have hbytes : m'.bytes (base + f.off) f.width = m.bytes (base + f.off) f.width :=
    List.map_congr_left fun i hi => h i (List.mem_range.mp hi)
  rw [Field.get, Field.get, hbytes]

/-- What stays in the buffer is found the same in a memory with the same buffer. -/
theorem Touch.Inside.same {m' : View} {t : Touch} {len : Nat} (hlen : len < 2 ^ 64) (h : t.Inside m len)
    (hm : ∀ off : UInt64, off.toNat < len → m' off = m off) : t.Same m m' := by
  have hoff (off : UInt64) {i : Nat} (hi : off.toNat + i < len) :
      (off + UInt64.ofNat i).toNat = off.toNat + i := by
    have hmod : (UInt64.ofNat i).toNat = i := UInt64.toNat_ofNat_of_lt' (by
      show i < 2 ^ 64
      omega)
    rw [UInt64.toNat_add, hmod, Nat.mod_eq_of_lt (by omega)]
  cases t with
  | bytes off width =>
    intro i hi
    have hin : off.toNat + width ≤ len := h
    exact hm _ (by rw [hoff off (by omega)]; omega)
  | cstr off =>
    obtain ⟨stop, hin, hzero⟩ := h
    intro n hn
    -- the string is not longer than up to the zero that is in the buffer
    have hle : n ≤ stop := Nat.le_of_not_lt fun hlt => hn stop hlt hzero
    exact hm _ (by rw [hoff off (by omega)]; omega)

/-- A field of a record that lies in the buffer lies in it. -/
theorem Field.touch_inside {f : Field} {base : UInt64} {size len : Nat} (hlen : len < 2 ^ 64)
    (hf : f.off.toNat + f.width ≤ size) (hbase : base.toNat + size ≤ len) :
    (f.touch base).Inside m len := by
  show (base + f.off).toNat + f.width ≤ len
  rw [UInt64.toNat_add, Nat.mod_eq_of_lt (by omega)]
  omega

/-! ## Files -/

/-- The number in the `width` bytes at `off` of a file. -/
def number (bs : List UInt8) (off width : Nat) : Nat := leNat ((bs.drop off).take width)

/-- The field of the record at `base` of a file, in unbounded integers. -/
def Field.read (bs : List UInt8) (base : Nat) (f : Field) : Nat := number bs (base + f.off.toNat) f.width

theorem View.drop_bytes (p : UInt64) (n k : Nat) :
    (m.bytes p n).drop k = m.bytes (p + UInt64.ofNat k) (n - k) := by
  apply List.ext_getElem
  · simp
  · intro i _ _
    simp only [View.bytes, List.getElem_drop, List.getElem_map, List.getElem_range]
    rw [UInt64.ofNat_add, UInt64.add_assoc]

theorem View.take_bytes (p : UInt64) {n k : Nat} (h : k ≤ n) : (m.bytes p n).take k = m.bytes p k := by
  rw [View.bytes, ← List.map_take, List.take_range, Nat.min_eq_left h]
  rfl

/-- The rest of a buffer, as a rest of a file. -/
theorem View.drop_file (m : View) (off : UInt64) (len : Nat) :
    (m.bytes 0 len).drop off.toNat = m.bytes off (len - off.toNat) := by
  rw [View.drop_bytes, UInt64.ofNat_toNat, UInt64.zero_add]

/-- A field of a record that lies in the buffer is the field of the file. -/
theorem Field.get_toNat {f : Field} {base : UInt64} {len : Nat} (hf : f.width ≤ 8) (hlen : len < 2 ^ 64)
    (hin : base.toNat + f.off.toNat + f.width ≤ len) :
    (f.get m base).toNat = f.read (m.bytes 0 len) base.toNat := by
  have hoff : (base + f.off).toNat = base.toNat + f.off.toNat := by
    rw [UInt64.toNat_add, Nat.mod_eq_of_lt (by omega)]
  have hfits : leNat (m.bytes (base + f.off) f.width) < 2 ^ 64 := by
    have hlt := leNat_lt (m.bytes (base + f.off) f.width)
    rw [View.length_bytes] at hlt
    exact lt_of_lt_of_le hlt (Nat.pow_le_pow_right (by decide) hf)
  rw [Field.get, UInt64.toNat_ofNat_of_lt' hfits, Field.read, number, ← hoff, View.drop_file,
    View.take_bytes _ (by omega)]

/-! ## Tables -/

/-- The address of entry `i` of a table at `base`. -/
def entry (base : UInt64) (stride i : Nat) : UInt64 := base + UInt64.ofNat (i * stride)

theorem entry_toNat {base : UInt64} {stride i : Nat} (h : base.toNat + i * stride < 2 ^ 64) :
    (entry base stride i).toNat = base.toNat + i * stride := by
  have hmul : (UInt64.ofNat (i * stride)).toNat = i * stride := UInt64.toNat_ofNat_of_lt' (by
    show i * stride < 2 ^ 64
    omega)
  rw [entry, UInt64.toNat_add, hmul, Nat.mod_eq_of_lt h]

/-- The entries of a table that lies in the buffer lie in it. -/
theorem entry_inside {base : UInt64} {stride n i size len : Nat} (hlen : len < 2 ^ 64) (hi : i < n)
    (hsize : size ≤ stride) (htable : base.toNat + n * stride ≤ len) :
    (entry base stride i).toNat = base.toNat + i * stride ∧ base.toNat + i * stride + size ≤ len := by
  have hle : (i + 1) * stride ≤ n * stride := Nat.mul_le_mul_right stride hi
  rw [Nat.add_mul, Nat.one_mul] at hle
  exact ⟨entry_toNat (by omega), by omega⟩

/-- Every field that is touched when the records at `bases` are read. -/
def touches (fs : List Field) (bases : List UInt64) : List Touch :=
  bases.flatMap fun base => fs.map (Field.touch base)

/-- Reading a table that lies in the buffer stays in it. -/
theorem touches_inside {fs : List Field} {base : UInt64} {stride n size len : Nat} (hlen : len < 2 ^ 64)
    (hfs : Within size fs) (hsize : size ≤ stride) (htable : base.toNat + n * stride ≤ len) :
    ∀ t ∈ touches fs ((List.range n).map (entry base stride)), t.Inside m len := by
  intro t ht
  obtain ⟨b, hb, ht⟩ := List.mem_flatMap.mp ht
  obtain ⟨i, hi, rfl⟩ := List.mem_map.mp hb
  obtain ⟨f, hf, rfl⟩ := List.mem_map.mp ht
  obtain ⟨hbase, hend⟩ := entry_inside hlen (List.mem_range.mp hi) hsize htable
  exact Field.touch_inside hlen (hfs f hf) (hbase ▸ hend)

end BaremetalCrt.Lib
