/-
# BaremetalCrt.Lib.Register — registers with hard-wired bits.

A write changes the writable bits of a register and no others, so that what was read from it before can be
written back.  A register that decodes an address in a window of `2 ^ k` bytes has the bits from `k` on
writable and those between its flags and `k` at zero: writing ones and reading back shows the size.

A register (`Reg`) has a mask of writable bits and a value. What it shows (`shown`) is the two's complement
of what is read back behind a write of ones, without its flag bits; where it decodes a window (`Decodes`),
that is the size of the window. Two registers side by side are one of both widths (`append`), and are sized
together.
-/
import Mathlib.Data.Nat.Bitwise
import Mathlib.Tactic.Common

namespace BaremetalCrt.Lib

/-- A register with bits that a write changes and bits that it does not. -/
structure Reg (w : Nat) where
  writable : BitVec w
  value : BitVec w

namespace Reg

variable {v w : Nat}

/-- A write reaches the writable bits; the others keep their value. -/
def write (r : Reg w) (x : BitVec w) : Reg w :=
  { r with value := x &&& r.writable ||| r.value &&& ~~~r.writable }

/-- Two registers side by side, as one of both widths. -/
def append (hi : Reg v) (lo : Reg w) : Reg (v + w) := ⟨hi.writable ++ lo.writable, hi.value ++ lo.value⟩

theorem write_write (r : Reg w) (x y : BitVec w) : (r.write x).write y = r.write y := by
  have hvalue : y &&& r.writable ||| (x &&& r.writable ||| r.value &&& ~~~r.writable) &&& ~~~r.writable =
      y &&& r.writable ||| r.value &&& ~~~r.writable := by
    ext i hi
    simp only [BitVec.getElem_or, BitVec.getElem_and, BitVec.getElem_not]
    -- a bit that is writable is the new one, and another stays
    cases r.writable[i] <;> simp
  rw [write, write, write]
  exact congrArg (Reg.mk r.writable) hvalue

@[simp] theorem write_value (r : Reg w) : r.write r.value = r := by
  have hvalue : r.value &&& r.writable ||| r.value &&& ~~~r.writable = r.value := by
    ext i hi
    simp only [BitVec.getElem_or, BitVec.getElem_and, BitVec.getElem_not]
    cases r.writable[i] <;> simp
  rw [write, hvalue]

/-- What was read is put back. -/
theorem restore (r : Reg w) (x : BitVec w) : (r.write x).write r.value = r := by
  rw [write_write, write_value]

theorem append_write (hi : Reg v) (lo : Reg w) (x : BitVec v) (y : BitVec w) :
    (hi.append lo).write (x ++ y) = (hi.write x).append (lo.write y) := by
  simp only [write, append, BitVec.not_append, BitVec.and_append, BitVec.or_append]

/-- The number that the register shows for a size, when the low `f` bits are flags. -/
def shown (f : Nat) (r : Reg w) : BitVec w :=
  ~~~((r.write (BitVec.allOnes w)).value &&& BitVec.allOnes w <<< f) + 1#w

/-- The register decodes an address that is a multiple of `2 ^ k`, in a window of that size. -/
structure Decodes (f k : Nat) (r : Reg w) : Prop where
  writable : r.writable = BitVec.allOnes w <<< k
  aligned : r.value.toNat % 2 ^ k < 2 ^ f

theorem toNat_allOnes_shiftLeft {k : Nat} (hk : k ≤ w) :
    (BitVec.allOnes w <<< k).toNat = 2 ^ w - 2 ^ k := by
  have hpos : 0 < 2 ^ k := Nat.two_pow_pos k
  have hle : 2 ^ k ≤ 2 ^ w := Nat.pow_le_pow_right (by decide) hk
  have hsplit : (2 ^ w - 1) * 2 ^ k = 2 ^ w - 2 ^ k + 2 ^ w * (2 ^ k - 1) := by
    have hmul : 2 ^ w ≤ 2 ^ w * 2 ^ k := Nat.le_mul_of_pos_right _ hpos
    rw [Nat.sub_mul, Nat.mul_sub, Nat.one_mul, Nat.mul_one]
    omega
  rw [BitVec.toNat_shiftLeft, BitVec.toNat_allOnes, Nat.shiftLeft_eq, hsplit, Nat.add_mul_mod_self_left,
    Nat.mod_eq_of_lt (by omega)]

/-- The bits that come back are those from `k` on. -/
theorem Decodes.readBack {f k : Nat} {r : Reg w} (h : r.Decodes f k) (hf : f ≤ k) :
    (r.write (BitVec.allOnes w)).value &&& BitVec.allOnes w <<< f = BitVec.allOnes w <<< k := by
  ext i hi
  have hbit : f ≤ i → i < k → r.value[i] = false := by
    intro hfi hik
    rw [← BitVec.getLsbD_eq_getElem, BitVec.getLsbD]
    have hlow : (r.value.toNat % 2 ^ k).testBit i = false :=
      Nat.testBit_lt_two_pow (Nat.lt_of_lt_of_le h.aligned (Nat.pow_le_pow_right (by decide) hfi))
    rwa [Nat.testBit_mod_two_pow, decide_eq_true hik, Bool.true_and] at hlow
  simp only [write, h.writable, BitVec.getElem_and, BitVec.getElem_or, BitVec.getElem_not,
    BitVec.getElem_shiftLeft, BitVec.getElem_allOnes]
  by_cases hik : i < k
  · by_cases hfi : i < f
    · simp [hik, hfi]
    · simp [hik, hfi, hbit (by omega) hik]
  · simp [hik, Nat.not_lt.mpr (Nat.le_trans hf (Nat.not_lt.mp hik))]

/-- **Sizing.** A register that decodes a window shows the size of the window. -/
theorem Decodes.shown_toNat {f k : Nat} {r : Reg w} (h : r.Decodes f k) (hf : f ≤ k) (hk : k < w) :
    (r.shown f).toNat = 2 ^ k := by
  have hlt : 2 ^ k < 2 ^ w := Nat.pow_lt_pow_right (by decide) hk
  have hpos : 0 < 2 ^ k := Nat.two_pow_pos k
  rw [shown, h.readBack hf, BitVec.toNat_add, BitVec.toNat_not, toNat_allOnes_shiftLeft (Nat.le_of_lt hk),
    BitVec.toNat_ofNat]
  have hone : 1 % 2 ^ w = 1 := Nat.mod_eq_of_lt (by omega)
  rw [hone, Nat.mod_eq_of_lt (by omega)]
  omega

end Reg

end BaremetalCrt.Lib
