/-
# BaremetalCrt.Pci.Sizing — what the sizing loop of `pci_sysfs_config` makes of the registers.

A configuration space is a row of registers with hard-wired bits, and the loop leaves it as it finds it
whatever they are (`sizeBars_run`).  It takes the type of a register from two of its bits, and where they
say that a register is the lower half of a wide one it goes on behind the upper half.

`ConfigSpace` says that the system calls on a descriptor read and write such a row of registers.
`slotRecord` says what the loop makes of a slot, and `Starts` in which slots it stops at a register of its
own; with both, the record of any row of registers is a function of the row.
-/
import BaremetalCrt.Lib.Register
import BaremetalCrt.Pci.Sysfs

namespace BaremetalCrt

open Lib

/-! ## Configuration space -/

/-- The file behind `fd` is a configuration space: what its first registers are can be seen from the state
of the system, and every access goes to them. -/
structure ConfigSpace {κ : Type} (os : PciKernel κ) (fd : Int) (regs : κ → Nat → Reg 32) : Prop where
  pread16 : ∀ k j h, j < 16 → h < 2 →
    (os.pread16 fd (4 * j + 2 * h) k).1 = .ofBitVec ((regs k j).value.extractLsb' (16 * h) 16) ∧
      regs (os.pread16 fd (4 * j + 2 * h) k).2 = regs k
  pread32 : ∀ k j, j < 16 → (os.pread32 fd (4 * j) k).1 = .ofBitVec (regs k j).value ∧
    regs (os.pread32 fd (4 * j) k).2 = regs k
  pread64 : ∀ k j, j + 1 < 16 →
    (os.pread64 fd (4 * j) k).1 = .ofBitVec ((regs k (j + 1)).append (regs k j)).value ∧
      regs (os.pread64 fd (4 * j) k).2 = regs k
  pwrite32 : ∀ k v j, j < 16 → (os.pwrite32 fd v (4 * j) k).1 = 4 ∧
    regs (os.pwrite32 fd v (4 * j) k).2 = Function.update (regs k) j ((regs k j).write v.toBitVec)
  pwrite64 : ∀ k (hi lo : BitVec 32) j, j + 1 < 16 →
    regs (os.pwrite64 fd (.ofBitVec (hi ++ lo)) (4 * j) k).2 =
      Function.update (Function.update (regs k) j ((regs k j).write lo)) (j + 1)
        ((regs k (j + 1)).write hi)
  openFile : ∀ path fds k, regs (os.openFile path fds k).2 = regs k
  mmap : ∀ fd' n k, regs (os.mmap fd' n k).2 = regs k

/-- The type bits of a register, as its value has them. -/
def regType (r : Reg 32) : UInt32 := barType (.ofBitVec r.value)

/-- What the driver keeps of a base address register, and what of its descriptor and mapping it does not. -/
structure BarRecord where
  bar : UInt64
  barSize : UInt64
  is64 : Bool
  valid : Bool
  deriving DecidableEq, Repr

/-- What sizing leaves in an entry: base, size, width, and whether there is a window at all. -/
def PciSysfsResource.record (res : PciSysfsResource) : BarRecord := ⟨res.bar, res.barSize, res.is64, res.valid⟩

/-- The entry with that in it; its descriptor and its mapping stay. -/
def PciSysfsResource.put (res : PciSysfsResource) (r : BarRecord) : PciSysfsResource :=
  { res with bar := r.bar, barSize := r.barSize, is64 := r.is64, valid := r.valid }

@[simp] theorem PciSysfsResource.record_put (res : PciSysfsResource) (r : BarRecord) :
    (res.put r).record = r := rfl

/-- The record of a register of 32 bits. -/
def lowRecord (r : Reg 32) : BarRecord :=
  let size := (UInt32.ofBitVec (r.shown 4)).toUInt64
  ⟨(UInt32.ofBitVec r.value).toUInt64, size, false, size ≠ 0⟩

/-- The record of a register of 64 bits, which takes up two slots. -/
def wideRecord (lo hi : Reg 32) : BarRecord :=
  let size := UInt64.ofBitVec ((hi.append lo).shown 4)
  ⟨.ofBitVec (hi.append lo).value, size, true, size ≠ 0⟩

/-- The record of a register that is not there, or that is the upper half of another. -/
def BarRecord.absent : BarRecord := ⟨0, 0, false, false⟩

theorem barAddr_eq (i : Nat) : barAddr i = 4 * (4 + i) := by
  unfold barAddr
  omega

/-- A state behind stores to the entries of `pci_res`. -/
def PciSys.sized {κ : Type} (s : PciSys κ) (k : κ) (pciRes : Nat → PciSysfsResource) (ws : List Nat) :
    PciSys κ :=
  { s with kern := k, prv := { s.prv with pciRes := pciRes }, stores := s.stores ++ ws }

@[simp] theorem PciSys.sized_pciRes {κ : Type} (s : PciSys κ) (k : κ) (pciRes : Nat → PciSysfsResource)
    (ws : List Nat) : (s.sized k pciRes ws).prv.pciRes = pciRes := rfl

theorem is64_wide (res : PciSysfsResource) (lo hi : Reg 32) : (res.put (wideRecord lo hi)).is64 = true := rfl

theorem is64_low (res : PciSysfsResource) (r : Reg 32) : ¬(res.put (lowRecord r)).is64 = true :=
  Bool.false_ne_true

section Space

variable {κ : Type} {os : PciKernel κ} {fd : Int} {regs : κ → Nat → Reg 32} (hs : ConfigSpace os fd regs)
include hs

/-- A register is as before when it was sized. -/
theorem sizeBarLow_run (s : PciSys κ) {i : Nat} (hi : i < pciResMax) :
    ∃ k, regs k = regs s.kern ∧ sizeBarLow os fd i s =
      (.ok (.ofBitVec (regs s.kern (4 + i)).value, .ofBitVec ((regs s.kern (4 + i)).shown 4)),
        { s with kern := k }) := by
  have hj : 4 + i < 16 := by
    unfold pciResMax at hi
    omega
  -- what it holds, all ones, what they leave, and what it held
  obtain ⟨hread, hkeep⟩ := hs.pread32 s.kern _ hj
  generalize hk₁ : (os.pread32 fd (4 * (4 + i)) s.kern).2 = k₁ at hkeep
  obtain ⟨-, hones⟩ := hs.pwrite32 k₁ tmpLow _ hj
  generalize hk₂ : (os.pwrite32 fd tmpLow (4 * (4 + i)) k₁).2 = k₂ at hones
  obtain ⟨hback, hkeep₂⟩ := hs.pread32 k₂ _ hj
  generalize hk₃ : (os.pread32 fd (4 * (4 + i)) k₂).2 = k₃ at hkeep₂
  obtain ⟨hcount, hrestore⟩ := hs.pwrite32 k₃ (.ofBitVec (regs s.kern (4 + i)).value) _ hj
  generalize hk₄ : (os.pwrite32 fd (.ofBitVec (regs s.kern (4 + i)).value) (4 * (4 + i)) k₃).2 = k₄ at hrestore
  refine ⟨k₄, ?_, ?_⟩
  · rw [hrestore, hkeep₂, hones, hkeep, Function.update_self, Function.update_idem]
    dsimp only
    rw [Reg.restore, Function.update_eq_self]
  · rw [hones, hkeep, Function.update_self] at hback
    simp only [sizeBarLow, barAddr_eq, sysCall, Exec.bind_apply, hread, hk₁, hk₂, hback, hk₃, hcount, hk₄,
      if_neg (by decide : ¬(4 : Int) ≠ 4), Exec.pure_apply]
    rfl

/-- So are two registers that are sized together. -/
theorem sizeBar64_run (s : PciSys κ) {i : Nat} (hi : i < pciResMax) :
    ∃ k, regs k = regs s.kern ∧ sizeBar64 os fd i s =
      (.ok (.ofBitVec ((regs s.kern (4 + i + 1)).append (regs s.kern (4 + i))).value,
        .ofBitVec (((regs s.kern (4 + i + 1)).append (regs s.kern (4 + i))).shown 4)),
        { s with kern := k }) := by
  have hj : 4 + i + 1 < 16 := by
    unfold pciResMax at hi
    omega
  have hne : 4 + i + 1 ≠ 4 + i := by omega
  set lo := regs s.kern (4 + i) with hlo
  set hi' := regs s.kern (4 + i + 1) with hhi
  obtain ⟨hread, hkeep⟩ := hs.pread64 s.kern _ hj
  generalize hk₁ : (os.pread64 fd (4 * (4 + i)) s.kern).2 = k₁ at hkeep
  -- one write of all ones reaches both registers
  have hones := hs.pwrite64 k₁ (BitVec.allOnes 32) (BitVec.allOnes 32) _ hj
  have htmp : UInt64.ofBitVec (BitVec.allOnes 32 ++ BitVec.allOnes 32) = tmp64 := by decide
  rw [htmp] at hones
  generalize hk₂ : (os.pwrite64 fd tmp64 (4 * (4 + i)) k₁).2 = k₂ at hones
  obtain ⟨hback, hkeep₂⟩ := hs.pread64 k₂ _ hj
  generalize hk₃ : (os.pread64 fd (4 * (4 + i)) k₂).2 = k₃ at hkeep₂
  have hrestore := hs.pwrite64 k₃ hi'.value lo.value _ hj
  have hvalue : UInt64.ofBitVec (hi'.value ++ lo.value) = .ofBitVec (hi'.append lo).value := rfl
  rw [hvalue] at hrestore
  generalize hk₄ : (os.pwrite64 fd (.ofBitVec (hi'.append lo).value) (4 * (4 + i)) k₃).2 = k₄ at hrestore
  have hlo₂ : regs k₂ (4 + i) = lo.write (BitVec.allOnes 32) := by
    rw [hones, hkeep, Function.update_of_ne hne.symm, Function.update_self]
  have hhi₂ : regs k₂ (4 + i + 1) = hi'.write (BitVec.allOnes 32) := by
    rw [hones, hkeep, Function.update_self]
  refine ⟨k₄, ?_, ?_⟩
  · rw [hrestore, hkeep₂, hlo₂, hhi₂, Reg.restore, Reg.restore, hones, hkeep]
    funext x
    by_cases hx : x = 4 + i + 1
    · rw [hx, Function.update_self]
    · rw [Function.update_of_ne hx]
      by_cases hx' : x = 4 + i
      · rw [hx', Function.update_self]
      · rw [Function.update_of_ne hx', Function.update_of_ne hx, Function.update_of_ne hx']
  · rw [hlo₂, hhi₂, ← Reg.append_write] at hback
    simp only [sizeBar64, barAddr_eq, sysCall, Exec.bind_apply, hread, hk₁, hk₂, hback, hk₃, ← hlo, ← hhi,
      hk₄, Exec.pure_apply]
    rfl

/-- A register of four bytes. -/
theorem sizeBar_low (s : PciSys κ) (hfd : s.prv.fdConfig = fd) {i : Nat} (hi : i < pciResMax)
    (htype : regType (regs s.kern (4 + i)) = 0 ∨ regType (regs s.kern (4 + i)) = 1) :
    ∃ k, regs k = regs s.kern ∧ sizeBar os i s = (.ok (), s.sized k
      (Function.update s.prv.pciRes i ((s.prv.pciRes i).put (lowRecord (regs s.kern (4 + i))))) [i, i]) := by
  obtain ⟨k, hk, hlow⟩ := sizeBarLow_run hs s hi
  have htype' : barType (.ofBitVec (regs s.kern (4 + i)).value) = 0 ∨
      barType (.ofBitVec (regs s.kern (4 + i)).value) = 1 := htype
  refine ⟨k, hk, ?_⟩
  rw [sizeBar, Exec.bind_ok (Exec.gets_apply ..), hfd, Exec.bind_ok hlow]
  simp only [decodeBar, if_pos htype', setRes, PciSysfsPriv.setRes, Exec.bind_apply, Exec.modify_apply,
    Exec.pure_apply, Function.update_self, Function.update_idem, PciSys.sized, List.append_assoc]
  rfl

/-- One of eight bytes: the entry behind it is stored to as well. -/
theorem sizeBar_wide (s : PciSys κ) (hfd : s.prv.fdConfig = fd) {i : Nat} (hi : i < pciResMax)
    (htype : regType (regs s.kern (4 + i)) = 2) :
    ∃ k, regs k = regs s.kern ∧ sizeBar os i s = (.ok (), s.sized k
      (Function.update (Function.update s.prv.pciRes (i + 1) ((s.prv.pciRes (i + 1)).put .absent)) i
        ((s.prv.pciRes i).put (wideRecord (regs s.kern (4 + i)) (regs s.kern (4 + i + 1))))) [i, i + 1, i]) := by
  obtain ⟨k, hk, hlow⟩ := sizeBarLow_run hs s hi
  have htype' : barType (.ofBitVec (regs s.kern (4 + i)).value) = 2 := htype
  let res := Function.update s.prv.pciRes i { s.prv.pciRes i with is64 := true }
  let s' := s.sized k (Function.update res (i + 1) ((res (i + 1)).put .absent)) [i, i + 1]
  obtain ⟨k', hk', hwide⟩ := sizeBar64_run hs s' hi
  have hkern : regs s'.kern = regs s.kern := hk
  rw [hkern] at hk' hwide
  have hswitch : decodeBar os fd i (.ofBitVec (regs s.kern (4 + i)).value)
      (.ofBitVec ((regs s.kern (4 + i)).shown 4)) { s with kern := k } = sizeBar64 os fd i s' := by
    rw [decodeBar, htype', if_neg (by decide), if_pos rfl]
    simp only [setRes, PciSysfsPriv.setRes, Exec.bind_apply, Exec.modify_apply, List.append_assoc]
    rfl
  have hne : i + 1 ≠ i := Nat.succ_ne_self i
  refine ⟨k', hk', ?_⟩
  rw [sizeBar, Exec.bind_ok (Exec.gets_apply ..), hfd, Exec.bind_ok hlow]
  dsimp only
  rw [Exec.bind_ok (hswitch.trans hwide)]
  simp only [s', res, setRes, PciSysfsPriv.setRes, Exec.modify_apply, PciSys.sized, List.append_assoc,
    Function.update_of_ne hne, Function.update_of_ne hne.symm, Function.update_self]
  rw [Function.update_comm hne, Function.update_idem, Function.update_comm hne.symm]
  rfl

/-- Any other is refused. -/
theorem sizeBar_unknown (s : PciSys κ) (hfd : s.prv.fdConfig = fd) {i : Nat} (hi : i < pciResMax)
    (htype : regType (regs s.kern (4 + i)) = 3) :
    ∃ k, regs k = regs s.kern ∧ sizeBar os i s = (.error clInvalidDevice, { s with kern := k }) := by
  obtain ⟨k, hk, hlow⟩ := sizeBarLow_run hs s hi
  have htype' : barType (.ofBitVec (regs s.kern (4 + i)).value) = 3 := htype
  refine ⟨k, hk, ?_⟩
  rw [sizeBar, Exec.bind_ok (Exec.gets_apply ..), hfd, Exec.bind_ok hlow]
  dsimp only
  rw [decodeBar, htype', if_neg (by decide), if_neg (by decide), Exec.exit_bind, Exec.exit_apply]

end Space

/-! ## The loop -/

theorem regType_cases (r : Reg 32) : regType r = 0 ∨ regType r = 1 ∨ regType r = 2 ∨ regType r = 3 := by
  have hlt : (regType r).toNat < 4 := by
    have hmod := Nat.and_two_pow_sub_one_eq_mod (UInt32.ofBitVec r.value >>> 1).toNat 2
    have hand : (regType r).toNat = (UInt32.ofBitVec r.value >>> 1).toNat &&& 2 ^ 2 - 1 := by
      rw [regType, barType, UInt32.toNat_and]
      rfl
    omega
  have hcases (n : UInt32) (hn : n.toNat = (regType r).toNat) : regType r = n := UInt32.toNat_inj.mp hn.symm
  have hnat : (regType r).toNat = 0 ∨ (regType r).toNat = 1 ∨ (regType r).toNat = 2 ∨
      (regType r).toNat = 3 := by omega
  exact hnat.imp (fun h => hcases 0 h.symm) (Or.imp (fun h => hcases 1 h.symm)
    (Or.imp (fun h => hcases 2 h.symm) fun h => hcases 3 h.symm))

section Loop

variable (bars : Nat → Reg 32)

/-- The loop comes to a slot unless the one in front of it was taken for the lower half of a wide register. -/
def Starts : Nat → Bool
  | 0 => true
  | i + 1 => !(Starts i && regType (bars i) = 2)

/-- From `i` to `m` there is no slot whose type is unknown. -/
def Clear (i m : Nat) : Prop := ∀ x, i ≤ x → x ≤ m → Starts bars x → regType (bars x) ≠ 3

/-- What a slot is recorded as: by its type, if a register starts there. -/
def slotRecord (i : Nat) : BarRecord :=
  if Starts bars i then
    if regType (bars i) = 2 then wideRecord (bars i) (bars (i + 1)) else lowRecord (bars i)
  else .absent

variable {bars}

theorem clear_iff {i m : Nat} :
    Clear bars i m ↔ (i ≤ m → Starts bars i → regType (bars i) ≠ 3) ∧ Clear bars (i + 1) m := by
  constructor
  · exact fun h => ⟨h i (Nat.le_refl i), fun x hx => h x (by omega)⟩
  · rintro ⟨hfirst, hrest⟩ x hx hxm
    rcases Nat.eq_or_lt_of_le hx with rfl | hlt
    · exact hfirst hxm
    · exact hrest x hlt hxm

theorem starts_succ_of_ne {i : Nat} (h : regType (bars i) ≠ 2) : Starts bars (i + 1) = true := by
  rw [Starts, decide_eq_false h, Bool.and_false, Bool.not_false]

theorem starts_succ_of_wide {i : Nat} (hi : Starts bars i) (h : regType (bars i) = 2) :
    Starts bars (i + 1) = false ∧ Starts bars (i + 2) = true := by
  have hnext : Starts bars (i + 1) = false := by
    rw [Starts, decide_eq_true h, hi]
    rfl
  refine ⟨hnext, ?_⟩
  rw [Starts, hnext, Bool.false_and, Bool.not_false]

end Loop

variable {κ : Type} {os : PciKernel κ} {fd : Int} {regs : κ → Nat → Reg 32}

/-- What the loop has made of a state when it began with slot `i`. -/
structure Decoded (regs : κ → Nat → Reg 32) (bars : Nat → Reg 32) (i : Nat) (s : PciSys κ)
    (out : Except ClInt Unit × PciSys κ) : Prop where
  regs : regs out.2.kern = regs s.kern
  ok : Clear bars i 5 → out.1 = .ok ()
  refused : ¬Clear bars i 5 → out.1 = .error clInvalidDevice
  done : ∀ m, m < pciResMax → i ≤ m → Clear bars i m → (out.2.prv.pciRes m).record = slotRecord bars m
  kept : ∀ m, m < pciResMax → ¬(i ≤ m ∧ Clear bars i m) →
    (out.2.prv.pciRes m).record = (s.prv.pciRes m).record
  stores : ∃ ws, out.2.stores = s.stores ++ ws ∧ (∀ x ∈ ws, x ≤ pciResMax) ∧
    (pciResMax ∈ ws ↔ i ≤ 5 ∧ Clear bars i 5 ∧ Starts bars 5 ∧ regType (bars 5) = 2)

section Run

variable {bars : Nat → Reg 32} {s s₁ : PciSys κ} {i i' : Nat} {out : Except ClInt Unit × PciSys κ}

/-- Behind the last slot. -/
theorem decoded_end (hi : pciResMax ≤ i) : Decoded regs bars i s (.ok (), s) where
  regs := rfl
  ok _ := rfl
  refused h := absurd (fun x hx hx5 => absurd hi (by unfold pciResMax; omega)) h
  done m hm him := absurd hi (by omega)
  kept _ _ _ := rfl
  stores := ⟨[], (List.append_nil _).symm, by simp, iff_of_false (by simp) fun h => by
    unfold pciResMax at hi
    omega⟩

/-- One pass of the loop that records the slots from `i` up to the one where the next pass begins. -/
theorem Decoded.step (hout : Decoded regs bars i' s₁ out) (hregs : regs s₁.kern = regs s.kern)
    (hclear : ∀ m, Clear bars i m ↔ Clear bars i' m) (hii' : i < i')
    (hset : ∀ m, i ≤ m → m < i' → (s₁.prv.pciRes m).record = slotRecord bars m)
    (hother : ∀ m, ¬(i ≤ m ∧ m < i') → (s₁.prv.pciRes m).record = (s.prv.pciRes m).record)
    {ws : List Nat} (hstores : s₁.stores = s.stores ++ ws) (hws : ∀ x ∈ ws, x ≤ pciResMax)
    (hfar : pciResMax ∈ ws ↔ i ≤ 5 ∧ 5 < i' ∧ Starts bars 5 ∧ regType (bars 5) = 2) :
    Decoded regs bars i s out where
  regs := hout.regs.trans hregs
  ok h := hout.ok ((hclear 5).mp h)
  refused h := hout.refused (mt (hclear 5).mpr h)
  done m hm him hm' := by
    by_cases hlt : m < i'
    · rw [hout.kept m hm fun h => absurd h.1 (by omega), hset m him hlt]
    · exact hout.done m hm (by omega) ((hclear m).mp hm')
  kept m hm hnot := by
    have hno : ¬(i' ≤ m ∧ Clear bars i' m) := fun h => hnot ⟨by omega, (hclear m).mpr h.2⟩
    rw [hout.kept m hm hno]
    refine hother m fun h => hnot ⟨h.1, (hclear m).mpr fun x hx hxm => absurd h.2 (by omega)⟩
  stores := by
    obtain ⟨ws', hws', hle, hin⟩ := hout.stores
    refine ⟨ws ++ ws', ?_, ?_, ?_⟩
    · rw [hws', hstores, List.append_assoc]
    · exact fun x hx => (List.mem_append.mp hx).elim (hws x) (hle x)
    · rw [List.mem_append, hfar, hin, hclear]
      constructor
      · rintro (⟨h5, hlt, hrest⟩ | ⟨h5, hrest⟩)
        · exact ⟨h5, fun x hx hx5 => absurd hx (by omega), hrest⟩
        · exact ⟨by omega, hrest⟩
      · rintro ⟨h5, hcl, hrest⟩
        by_cases hlt : 5 < i'
        · exact Or.inl ⟨h5, hlt, hrest⟩
        · exact Or.inr ⟨by omega, hcl, hrest⟩

/-- **The loop**, whatever the registers are. -/
theorem sizeBars_run (hs : ConfigSpace os fd regs) (n : Nat) : ∀ (i : Nat) (s : PciSys κ),
    pciResMax ≤ n + i → Starts bars i → s.prv.fdConfig = fd → (∀ j, regs s.kern (4 + j) = bars j) →
    Decoded regs bars i s (sizeBars os n i s) := by
  induction n with
  | zero => exact fun i s hn _ _ _ => decoded_end (by omega)
  | succ n ih =>
    intro i s hn hstart hfd hbars
    rw [sizeBars]
    by_cases hi : i < pciResMax
    swap
    · rw [if_neg hi]
      exact decoded_end (Nat.not_lt.mp hi)
    have h6 : i < 6 := hi
    rw [if_pos hi]
    have hbars' (k : κ) (hk : regs k = regs s.kern) (j : Nat) : regs k (4 + j) = bars j := by
      rw [hk, hbars]
    have hup : regs s.kern (4 + i + 1) = bars (i + 1) := hbars (i + 1)
    by_cases hunknown : regType (bars i) = 3
    · -- the loop ends here and has stored nothing for this slot
      obtain ⟨k, hk, hrun⟩ := sizeBar_unknown hs s hfd hi (by rwa [hbars])
      have hnot (m : Nat) (hm : i ≤ m) : ¬Clear bars i m := fun h => h i (Nat.le_refl i) hm hstart hunknown
      rw [Exec.bind_error hrun]
      exact ⟨hk, fun h => absurd h (hnot 5 (by omega)), fun _ => rfl,
        fun m _ him h => absurd h (hnot m him), fun _ _ _ => rfl,
        [], (List.append_nil _).symm, by simp, iff_of_false (by simp) fun h => hnot 5 h.1 h.2.1⟩
    by_cases hwide : regType (bars i) = 2
    · -- the next pass begins behind the upper half
      obtain ⟨k, hk, hrun⟩ := sizeBar_wide hs s hfd hi (by rwa [hbars])
      obtain ⟨hnext, hnext₂⟩ := starts_succ_of_wide hstart hwide
      have hrec : slotRecord bars i = wideRecord (bars i) (bars (i + 1)) := by
        rw [slotRecord, if_pos hstart, if_pos hwide]
      have habsent : slotRecord bars (i + 1) = .absent := by
        rw [slotRecord, hnext]
        rfl
      rw [hbars, hup] at hrun
      rw [Exec.bind_ok hrun, Exec.bind_ok (Exec.gets_apply ..)]
      rw [PciSys.sized_pciRes, Function.update_self, if_pos (is64_wide ..)]
      have hrest := ih (i + 2) (s.sized k (Function.update (Function.update s.prv.pciRes (i + 1)
        ((s.prv.pciRes (i + 1)).put .absent)) i ((s.prv.pciRes i).put (wideRecord (bars i) (bars (i + 1)))))
        [i, i + 1, i]) (by omega) hnext₂ hfd (hbars' k hk)
      refine hrest.step hk (fun m => ?_) (by omega) (fun m him hm => ?_) (fun m hm => ?_) rfl ?_ ?_
      · rw [clear_iff, clear_iff (i := i + 1), hnext, hwide]
        simp
      · by_cases heq : m = i
        · rw [heq, hrec, PciSys.sized_pciRes, Function.update_self, PciSysfsResource.record_put]
        · obtain rfl : m = i + 1 := by omega
          rw [habsent, PciSys.sized_pciRes, Function.update_of_ne heq, Function.update_self,
            PciSysfsResource.record_put]
      · have hne : m ≠ i := by omega
        have hne' : m ≠ i + 1 := by omega
        rw [PciSys.sized_pciRes, Function.update_of_ne hne, Function.update_of_ne hne']
      · simp only [List.mem_cons, List.not_mem_nil, or_false, pciResMax]
        omega
      · simp only [List.mem_cons, List.not_mem_nil, or_false, pciResMax]
        -- the entry behind it is outside only from the last slot
        constructor
        · intro h
          obtain rfl : i = 5 := by omega
          exact ⟨Nat.le_refl 5, by omega, hstart, hwide⟩
        · rintro ⟨h5, hlt, hstart5, -⟩
          rcases Nat.eq_or_lt_of_le h5 with rfl | hlt5
          · exact Or.inr (Or.inl rfl)
          · obtain rfl : i = 4 := by omega
            rw [hnext] at hstart5
            cases hstart5
    · -- the next pass begins with the next slot
      have hlow : regType (bars i) = 0 ∨ regType (bars i) = 1 := by
        rcases regType_cases (bars i) with h | h | h | h
        · exact Or.inl h
        · exact Or.inr h
        · exact absurd h hwide
        · exact absurd h hunknown
      obtain ⟨k, hk, hrun⟩ := sizeBar_low hs s hfd hi (by rwa [hbars])
      have hrec : slotRecord bars i = lowRecord (bars i) := by
        rw [slotRecord, if_pos hstart, if_neg hwide]
      rw [hbars] at hrun
      rw [Exec.bind_ok hrun, Exec.bind_ok (Exec.gets_apply ..)]
      rw [PciSys.sized_pciRes, Function.update_self, if_neg (is64_low _ _)]
      have hrest := ih (i + 1) (s.sized k (Function.update s.prv.pciRes i
        ((s.prv.pciRes i).put (lowRecord (bars i)))) [i, i]) (by omega) (starts_succ_of_ne hwide) hfd
        (hbars' k hk)
      refine hrest.step hk (fun m => ?_) (Nat.lt_succ_self i) (fun m him hm => ?_) (fun m hm => ?_) rfl ?_ ?_
      · rw [clear_iff]
        exact and_iff_right fun _ _ => hunknown
      · obtain rfl : m = i := by omega
        rw [hrec, PciSys.sized_pciRes, Function.update_self, PciSysfsResource.record_put]
      · have hne : m ≠ i := by omega
        rw [PciSys.sized_pciRes, Function.update_of_ne hne]
      · simp only [List.mem_cons, List.not_mem_nil, or_false, pciResMax]
        omega
      · simp only [List.mem_cons, List.not_mem_nil, or_false, pciResMax]
        constructor
        · intro h
          omega
        · rintro ⟨h5, hlt, -, htype⟩
          obtain rfl : i = 5 := by omega
          exact absurd htype hwide

end Run

end BaremetalCrt
