/-
# BaremetalCrt.Pci.Decode — which registers corrupt the decoding of the others.

The driver goes by the type bits of every register, also of an I/O register, where they are bits of the
address.  `HarmlessTypes` says when that does no harm: then nothing is stored behind `pci_res`, and an I/O
register counts for nothing but itself.

A register does harm in three ways: an I/O register whose address bits say that it is wide has the next
register taken for its upper half; a register in the last slot whose type says so makes the loop store
behind `pci_res`; and an I/O register whose bits are those of no known type makes the driver give up, where
nothing else does. `pciSysfsConfig_uncorrupted_iff` says that there are no others: nothing is corrupted just
when the type bits of the registers are harmless. Two devices are shown, one on either side of the line.
-/
import BaremetalCrt.Pci.Bars

namespace BaremetalCrt

open Lib

/-! ## I/O registers -/

section Registers

variable (bars : Nat → Reg 32)

/-- Bit 0 of the register is set: it is one of I/O space. -/
def IsIo (r : Reg 32) : Prop := r.value.getLsbD 0 = true

instance (r : Reg 32) : Decidable (IsIo r) := inferInstanceAs (Decidable (_ = _))

/-- A register begins in the slot: it is not the upper half of a memory window of eight bytes. -/
def Begins : Nat → Bool
  | 0 => true
  | i + 1 => !(Begins i && !decide (IsIo (bars i)) && regType (bars i) = 2)

/-- The loop comes to the slot, and was not ended by an unknown type before. -/
def Reached (j : Nat) : Prop := Starts bars j ∧ ∀ i, i < j → Starts bars i → regType (bars i) ≠ 3

/-- The registers that the loop comes to are told apart: no I/O register has the type bits of a wide one, nor
has the last one, and one that has the unknown type is not the only one. -/
structure HarmlessTypes : Prop where
  io : ∀ j, j < pciResMax → Reached bars j → IsIo (bars j) → regType (bars j) ≠ 2
  last : Reached bars 5 → regType (bars 5) ≠ 2
  unknown : ∀ j, j < pciResMax → Reached bars j → IsIo (bars j) → regType (bars j) = 3 →
    ∃ i, j < i ∧ i < pciResMax ∧ Starts bars i ∧ regType (bars i) = 3

variable {bars}

theorem Reached.before {i j : Nat} (h : Reached bars j) (hij : i < j) (hi : Starts bars i) : Reached bars i :=
  ⟨hi, fun x hx => h.2 x (Nat.lt_trans hx hij)⟩

theorem Reached.clear {j : Nat} (h : Reached bars j) (hj : regType (bars j) ≠ 3) : Clear bars 0 j := by
  intro x _ hx hstart
  rcases Nat.eq_or_lt_of_le hx with rfl | hlt
  · exact hj
  · exact h.2 x hlt hstart

theorem reached_of_clear {j : Nat} (h : Clear bars 0 j) (hj : Starts bars j) : Reached bars j :=
  ⟨hj, fun x hx => h x (Nat.zero_le x) (Nat.le_of_lt hx)⟩

/-- When the loop is ended, it is at a slot that it reaches. -/
theorem exists_reached (m : Nat) (h : ¬Clear bars 0 m) :
    ∃ a, a ≤ m ∧ Reached bars a ∧ regType (bars a) = 3 := by
  have hex : ∃ a, a ≤ m ∧ Starts bars a = true ∧ regType (bars a) = 3 := by
    by_contra hno
    exact h fun x _ hx hstart htype => hno ⟨x, hx, hstart, htype⟩
  -- the first of these slots has none in front of it
  obtain ⟨ha, hstart, htype⟩ := Nat.find_spec hex
  refine ⟨Nat.find hex, ha, ⟨hstart, fun i hi his hit => ?_⟩, htype⟩
  exact Nat.find_min hex hi ⟨Nat.le_of_lt (Nat.lt_of_lt_of_le hi ha), his, hit⟩

/-- As long as no I/O register is taken for a wide one, the loop comes to the slots where registers begin. -/
theorem begins_eq {j : Nat} (h : ∀ i, i < j → Starts bars i → IsIo (bars i) → regType (bars i) ≠ 2) :
    ∀ i, i ≤ j → Begins bars i = Starts bars i := by
  intro i hi
  induction i with
  | zero => rfl
  | succ i ih =>
    rw [Begins, Starts, ih (Nat.le_of_succ_le hi)]
    cases hstart : Starts bars i with
    | false => rfl
    | true =>
      by_cases hio : IsIo (bars i)
      · rw [decide_eq_true hio, decide_eq_false (h i hi hstart hio)]
        rfl
      · rw [decide_eq_false hio]
        rfl

theorem Reached.begins {j : Nat} (hreached : Reached bars j)
    (h : ∀ i, i < j → Reached bars i → IsIo (bars i) → regType (bars i) ≠ 2) : Begins bars j := by
  rw [begins_eq (fun i hi hstart => h i hi (hreached.before hi hstart)) j (Nat.le_refl j)]
  exact hreached.1

/-- Then the loop reaches a register that begins in a slot which it does not end in front of. -/
theorem HarmlessTypes.reached (h : HarmlessTypes bars) {j : Nat} (hj : j < pciResMax)
    (hreached : ∀ i, i ≤ j → Starts bars i → Reached bars i) (hbegins : Begins bars j) : Reached bars j := by
  refine hreached j (Nat.le_refl j) ?_
  rwa [← begins_eq (fun i hi hstart => h.io i (Nat.lt_trans hi hj) (hreached i (Nat.le_of_lt hi) hstart)) j
    (Nat.le_refl j)]

/-- The registers without the one in slot `j`, which reads as if it were not there. -/
def without (bars : Nat → Reg 32) (j : Nat) : Nat → Reg 32 := Function.update bars j ⟨0, 0⟩

theorem without_of_ne {i j : Nat} (h : i ≠ j) : without bars j i = bars i := Function.update_of_ne h ..

theorem regType_without (j : Nat) : regType (without bars j j) = 0 := by
  rw [without, Function.update_self]
  decide

theorem starts_without_le {i j : Nat} (h : i ≤ j) : Starts (without bars j) i = Starts bars i := by
  induction i with
  | zero => rfl
  | succ i ih => rw [Starts, Starts, ih (Nat.le_of_succ_le h), without_of_ne (Nat.ne_of_lt h)]

/-- A register that is not taken for a wide one decides nothing about where the loop goes. -/
theorem starts_without {j : Nat} (h : regType (bars j) ≠ 2) (i : Nat) :
    Starts (without bars j) i = Starts bars i := by
  induction i with
  | zero => rfl
  | succ i ih =>
    rw [Starts, Starts, ih]
    by_cases hij : i = j
    · subst hij
      rw [regType_without, decide_eq_false h]
      rfl
    · rw [without_of_ne hij]

/-- Nor about what the other slots are recorded as. -/
theorem slotRecord_without {i j : Nat} (h : regType (bars j) ≠ 2) (hj : Starts bars j) (hij : i ≠ j) :
    slotRecord (without bars j) i = slotRecord bars i := by
  rw [slotRecord, slotRecord, starts_without h, without_of_ne hij]
  by_cases hstart : Starts bars i
  · by_cases hwide : regType (bars i) = 2
    · -- its upper half is in another slot
      have hup : i + 1 ≠ j := by
        rintro rfl
        rw [(starts_succ_of_wide hstart hwide).1] at hj
        cases hj
      rw [without_of_ne hup]
    · rw [if_neg hwide, if_neg hwide]
  · rw [if_neg hstart, if_neg hstart]

end Registers

/-! ## Runs -/

section Runs

variable {κ : Type} {os : PciKernel κ}

theorem pciSysfsConfig_eq (os : PciKernel κ) :
    pciSysfsConfig os = sizing os >>= fun _ => mapBars os pciResMax 0 := by
  rw [sizing, bind_assoc]
  rfl

/-- Everything that was stored since is below `n`. -/
def StoresBelow (n : Nat) (s s' : PciSys κ) : Prop := ∃ ws, s'.stores = s.stores ++ ws ∧ ∀ x ∈ ws, x < n

theorem StoresBelow.refl (n : Nat) (s : PciSys κ) : StoresBelow n s s :=
  ⟨[], (List.append_nil _).symm, by simp⟩

theorem StoresBelow.trans {n : Nat} (a b c : PciSys κ) (h : StoresBelow n a b) (h' : StoresBelow n b c) :
    StoresBelow n a c := by
  obtain ⟨ws, hws, hlt⟩ := h
  obtain ⟨ws', hws', hlt'⟩ := h'
  refine ⟨ws ++ ws', by rw [hws', hws, List.append_assoc], fun x hx => ?_⟩
  exact (List.mem_append.mp hx).elim (hlt x) (hlt' x)

/-- What does not store. -/
theorem keeps_same {α : Type} {m : Pci κ α} (n : Nat) (h : ∀ s, (m s).2.stores = s.stores) :
    Exec.Keeps (StoresBelow n) m := fun s => ⟨[], by rw [h s, List.append_nil], by simp⟩

theorem keeps_setRes {n i : Nat} (hi : i < n) (f : PciSysfsResource → PciSysfsResource) :
    Exec.Keeps (StoresBelow n) (setRes i f : Pci κ Unit) := fun _ =>
  ⟨[i], rfl, fun _ hx => List.mem_singleton.mp hx ▸ hi⟩

theorem stores_openFd (path : List UInt8) (s : PciSys κ) : (openFd os path s).2.stores = s.stores :=
  s.afterOpen_stores ..

theorem keeps_mapBar {n i : Nat} (hi : i < n) : Exec.Keeps (StoresBelow n) (mapBar os i) := by
  refine .bind StoresBelow.trans (keeps_same n fun _ => rfl) fun prv => .ite ?_ (keeps_same n fun _ => rfl)
  refine .bind StoresBelow.trans (keeps_same n (stores_openFd _)) fun fd => ?_
  refine .bind StoresBelow.trans (keeps_setRes hi _) fun _ => .ite ?_ ?_
  · exact keeps_same n fun _ => rfl
  · refine .bind StoresBelow.trans (keeps_same n fun _ => rfl) fun p => ?_
    cases p with
    | none => exact .bind StoresBelow.trans (keeps_setRes hi _) fun _ => keeps_same n fun _ => rfl
    | some p => exact keeps_setRes hi _

/-- The mapping loop stores inside the array. -/
theorem keeps_mapBars (n : Nat) : ∀ i, n + i ≤ pciResMax →
    Exec.Keeps (StoresBelow pciResMax) (mapBars os n i) := by
  induction n with
  | zero => exact fun i _ => keeps_same _ fun _ => rfl
  | succ n ih =>
    intro i hi
    exact .bind StoresBelow.trans (keeps_mapBar (by omega)) fun _ => ih (i + 1) (by omega)

/-- What the slots are recorded as, if the device is not refused. -/
def decodeOf (out : Except ClInt Unit × PciSys κ) : Option (Nat → BarRecord) :=
  match out.1 with
  | .ok _ => some fun i => (out.2.prv.pciRes i).record
  | .error _ => none

section Decoded

variable {fd : Int} {regs : κ → Nat → Reg 32} {bars : Nat → Reg 32} {s s₁ : PciSys κ}
  {out : Except ClInt Unit × PciSys κ}

theorem Decoded.decodeOf_clear (h : Decoded regs bars 0 s₁ out) (hclear : Clear bars 0 5) {i : Nat}
    (hi : i < pciResMax) : (decodeOf out).map (· i) = some (slotRecord bars i) := by
  have hupto : Clear bars 0 i := fun x hx hxi => hclear x hx (by
    unfold pciResMax at hi
    omega)
  rw [decodeOf, h.ok hclear]
  exact congrArg some (h.done i hi (Nat.zero_le i) hupto)

theorem Decoded.decodeOf_eq_none (h : Decoded regs bars 0 s₁ out) (i : Nat) :
    (decodeOf out).map (· i) = none ↔ ¬Clear bars 0 5 := by
  constructor
  · intro hnone hclear
    rw [decodeOf, h.ok hclear] at hnone
    cases hnone
  · intro hclear
    rw [decodeOf, h.refused hclear]
    rfl

end Decoded

/-! ## When nothing is corrupted -/

/-- Nothing is stored behind `pci_res`, no I/O register is taken for the lower half of a wide one, and what
the other slots are recorded as is what they are recorded as without it. -/
structure Uncorrupted (os : PciKernel κ) (bars : Nat → Reg 32) (s : PciSys κ) (s' : Nat → PciSys κ) : Prop where
  inside : StoresBelow pciResMax s (pciSysfsConfig os s).2
  narrow : ∀ j, j < pciResMax → Begins bars j → IsIo (bars j) →
    ((sizing os s).2.prv.pciRes j).is64 = false
  same : ∀ j, j < pciResMax → Begins bars j → IsIo (bars j) → ∀ i, i < pciResMax → i ≠ j →
    (decodeOf (sizing os s)).map (· i) = (decodeOf (sizing os (s' j))).map (· i)

variable {fd : Int} {regs : κ → Nat → Reg 32} {s : PciSys κ}

/-- The mapping loop adds stores inside the array. -/
theorem stores_config (os : PciKernel κ) (s : PciSys κ) :
    ∃ ws, (pciSysfsConfig os s).2.stores = (sizing os s).2.stores ++ ws ∧ ∀ x ∈ ws, x < pciResMax := by
  rw [pciSysfsConfig_eq, Exec.bind_apply]
  rcases hrun : sizing os s with ⟨_ | _, t⟩
  · exact StoresBelow.refl pciResMax t
  · exact keeps_mapBars pciResMax 0 (Nat.le_refl _) t

/-- The one store that is not is that to the upper half of the last register. -/
theorem storesBelow_config_iff (hfound : ConfigFound os fd regs s) :
    StoresBelow pciResMax s (pciSysfsConfig os s).2 ↔
      (Clear (fun i => regs s.kern (4 + i)) 0 5 → Starts (fun i => regs s.kern (4 + i)) 5 →
        regType (regs s.kern (4 + 5)) ≠ 2) := by
  obtain ⟨s₁, hrun, -, -, hstores⟩ := sizing_run hfound
  obtain ⟨ws, hws, hle, hfar⟩ := hrun.stores
  obtain ⟨ws', hws', hlt'⟩ := stores_config os s
  rw [hws, hstores, List.append_assoc] at hws'
  constructor
  · rintro ⟨vs, hvs, hlt⟩ hclear hstart htype
    rw [hws', List.append_right_inj] at hvs
    have hmem : pciResMax ∈ ws := hfar.mpr ⟨Nat.zero_le 5, hclear, hstart, htype⟩
    exact Nat.lt_irrefl _ (hlt pciResMax (hvs ▸ List.mem_append_left ws' hmem))
  · intro h
    refine ⟨ws ++ ws', hws', fun x hx => ?_⟩
    rcases List.mem_append.mp hx with hx | hx
    · refine Nat.lt_of_le_of_ne (hle x hx) fun heq => ?_
      obtain ⟨-, hclear, hstart, htype⟩ := hfar.mp (heq ▸ hx)
      exact h hclear hstart htype
    · exact hlt' x hx

/-- The entries of a new device that are marked as wide. -/
theorem is64_iff (hfound : ConfigFound os fd regs s)
    (hnew : ∀ i, i < pciResMax → (s.prv.pciRes i).record = .absent) {j : Nat} (hj : j < pciResMax) :
    ((sizing os s).2.prv.pciRes j).is64 = true ↔
      Reached (fun i => regs s.kern (4 + i)) j ∧ regType (regs s.kern (4 + j)) = 2 := by
  obtain ⟨s₁, hrun, -, hres, -⟩ := sizing_run hfound
  have hrecord : ((sizing os s).2.prv.pciRes j).is64 = ((sizing os s).2.prv.pciRes j).record.is64 := rfl
  rw [hrecord]
  by_cases hclear : Clear (fun i => regs s.kern (4 + i)) 0 j
  · rw [hrun.done j hj (Nat.zero_le j) hclear, slotRecord]
    by_cases hstart : Starts (fun i => regs s.kern (4 + i)) j
    · rw [if_pos hstart]
      by_cases hwide : regType (regs s.kern (4 + j)) = 2
      · rw [if_pos hwide]
        exact iff_of_true rfl ⟨reached_of_clear hclear hstart, hwide⟩
      · rw [if_neg hwide]
        exact iff_of_false Bool.false_ne_true fun h => hwide h.2
    · rw [if_neg hstart]
      exact iff_of_false Bool.false_ne_true fun h => hstart h.1.1
  · -- the loop did not come so far, and the entry is as in the new device
    rw [hrun.kept j hj fun h => hclear h.2, hres, hnew j hj]
    exact iff_of_false Bool.false_ne_true fun h => hclear (h.1.clear (by rw [h.2]; decide))

end Runs

section Others

variable {bars : Nat → Reg 32}

theorem Clear.upTo {i j : Nat} (h : Clear bars 0 5) (hj : j < pciResMax) (hij : i ≤ j) : Clear bars 0 i :=
  fun x hx hxi => h x hx (Nat.le_trans hxi (Nat.le_trans hij (Nat.le_of_lt_succ hj)))

/-- Where no slot has an unknown type, the I/O registers are recorded as narrow. -/
theorem HarmlessTypes.narrow (h : HarmlessTypes bars) (hclear : Clear bars 0 5) {j : Nat} (hj : j < pciResMax)
    (hbegins : Begins bars j) (hio : IsIo (bars j)) : regType (bars j) ≠ 2 :=
  h.io j hj (h.reached hj (fun _ hx hstart => reached_of_clear (hclear.upTo hj hx) hstart) hbegins) hio

theorem not_clear {a m : Nat} (ha : a ≤ m) (hstart : Starts bars a) (htype : regType (bars a) = 3) :
    ¬Clear bars 0 m := fun h => h a (Nat.zero_le a) ha hstart htype

/-- Whether a device is refused is decided by the other registers. -/
theorem HarmlessTypes.clear_without (h : HarmlessTypes bars) {j : Nat} (hj : j < pciResMax)
    (hbegins : Begins bars j) (hio : IsIo (bars j)) : Clear (without bars j) 0 5 ↔ Clear bars 0 5 := by
  have hj5 : j ≤ 5 := Nat.le_of_lt_succ hj
  constructor
  · intro hclear
    by_contra hnot
    obtain ⟨a, ha5, ha, htype⟩ := exists_reached 5 hnot
    refine absurd hclear ?_
    -- the slot that ended the loop is behind this register, or is it, or is in front of it
    rcases Nat.lt_trichotomy j a with hlt | rfl | hlt
    · have hreached : Reached bars j :=
        h.reached hj (fun i hi => ha.before (Nat.lt_of_le_of_lt hi hlt)) hbegins
      have hnarrow : regType (bars j) ≠ 2 := h.io j hj hreached hio
      exact not_clear ha5 (by rw [starts_without hnarrow, ha.1])
        (by rw [without_of_ne (Nat.ne_of_gt hlt), htype])
    · obtain ⟨i, hji, hi, hstart, htype'⟩ := h.unknown j hj ha hio htype
      have hnarrow : regType (bars j) ≠ 2 := by
        rw [htype]
        decide
      exact not_clear (Nat.le_of_lt_succ hi) (by rw [starts_without hnarrow, hstart])
        (by rw [without_of_ne (Nat.ne_of_gt hji), htype'])
    · exact not_clear ha5 (by rw [starts_without_le (Nat.le_of_lt hlt), ha.1])
        (by rw [without_of_ne (Nat.ne_of_lt hlt), htype])
  · intro hclear x hx hx5 hstart
    have hnarrow : regType (bars j) ≠ 2 := h.narrow hclear hj hbegins hio
    by_cases hxj : x = j
    · rw [hxj, regType_without]
      decide
    · rw [without_of_ne hxj]
      rw [starts_without hnarrow] at hstart
      exact hclear x hx hx5 hstart

end Others

/-- **Which registers corrupt the decoding.** Nothing is stored outside `pci_res`, and an I/O register
counts for nothing but itself, exactly when the types of the registers that the loop comes to do no harm. -/
theorem pciSysfsConfig_uncorrupted_iff {κ : Type} (os : PciKernel κ) (fd : Int) (regs : κ → Nat → Reg 32)
    (s : PciSys κ) (hfound : ConfigFound os fd regs s)
    (hnew : ∀ i, i < pciResMax → (s.prv.pciRes i).record = .absent)
    (s' : Nat → PciSys κ) (hfound' : ∀ j, ConfigFound os fd regs (s' j))
    (hbars' : ∀ j, (fun i => regs (s' j).kern (4 + i)) = without (fun i => regs s.kern (4 + i)) j) :
    Uncorrupted os (fun i => regs s.kern (4 + i)) s s' ↔ HarmlessTypes fun i => regs s.kern (4 + i) := by
  obtain ⟨bars, hbars⟩ : ∃ bars, (fun i => regs s.kern (4 + i)) = bars := ⟨_, rfl⟩
  have hbar (i : Nat) : regs s.kern (4 + i) = bars i := congrFun hbars i
  obtain ⟨s₁, hrun, -, -, -⟩ := sizing_run hfound
  have hinside := storesBelow_config_iff hfound
  have his64 {j : Nat} (hj : j < pciResMax) := is64_iff hfound hnew hj
  have hrun' (j : Nat) : ∃ s₂, Decoded regs (without bars j) 0 s₂ (sizing os (s' j)) := by
    obtain ⟨s₂, hrun₂, -, -, -⟩ := sizing_run (hfound' j)
    rw [hbars', hbars] at hrun₂
    exact ⟨s₂, hrun₂⟩
  simp only [hbar] at hrun hinside his64 ⊢
  constructor
  · intro h
    -- the I/O registers in front are narrow, so that this one begins where the loop comes to it
    have hio : ∀ j, j < pciResMax → Reached bars j → IsIo (bars j) → regType (bars j) ≠ 2 := by
      intro j
      induction j using Nat.strong_induction_on with
      | _ j ih =>
        intro hj hreached hio htype
        have hbegins : Begins bars j :=
          hreached.begins fun i hi hreached' => ih i hi (Nat.lt_trans hi hj) hreached'
        have hwide := (his64 hj).mpr ⟨hreached, htype⟩
        rw [h.narrow j hj hbegins hio] at hwide
        cases hwide
    refine ⟨hio, fun hreached htype => ?_, fun j hj hreached hiobit htype => ?_⟩
    · exact hinside.mp h.inside (hreached.clear (by rw [htype]; decide)) hreached.1 htype
    · have hbegins : Begins bars j :=
        hreached.begins fun i hi hreached' => hio i (Nat.lt_trans hi hj) hreached'
      obtain ⟨i, hi, hij⟩ : ∃ i, i < pciResMax ∧ i ≠ j := by
        by_cases hj0 : j = 0
        · exact ⟨1, by decide, by omega⟩
        · exact ⟨0, by decide, by omega⟩
      -- the device is refused, so it is refused without this register as well
      have hsame := h.same j hj hbegins hiobit i hi hij
      rw [(hrun.decodeOf_eq_none i).mpr (not_clear (Nat.le_of_lt_succ hj) hreached.1 htype)] at hsame
      obtain ⟨s₂, hrun₂⟩ := hrun' j
      obtain ⟨a, ha5, ha, htype'⟩ := exists_reached 5 ((hrun₂.decodeOf_eq_none i).mp hsame.symm)
      have haj : a ≠ j := by
        rintro rfl
        rw [regType_without] at htype'
        exact absurd htype' (by decide)
      rw [without_of_ne haj] at htype'
      have hstart : Starts bars a := by
        rw [← starts_without (j := j) (by rw [htype]; decide)]
        exact ha.1
      rcases Nat.lt_or_gt_of_ne haj with hlt | hlt
      · exact absurd htype' (hreached.2 a hlt hstart)
      · exact ⟨a, hlt, Nat.lt_succ_of_le ha5, hstart, htype'⟩
  · intro h
    refine ⟨hinside.mpr fun hclear hstart => h.last (reached_of_clear hclear hstart), ?_, ?_⟩
    · intro j hj hbegins hio
      refine Bool.eq_false_iff.mpr fun hwide => ?_
      obtain ⟨hreached, htype⟩ := (his64 hj).mp hwide
      exact h.io j hj hreached hio htype
    · intro j hj hbegins hio i hi hij
      obtain ⟨s₂, hrun₂⟩ := hrun' j
      by_cases hclear : Clear bars 0 5
      · have hstart : Starts bars j :=
          (h.reached hj (fun x hx hstart => reached_of_clear (hclear.upTo hj hx) hstart) hbegins).1
        rw [hrun.decodeOf_clear hclear hi,
          hrun₂.decodeOf_clear ((h.clear_without hj hbegins hio).mpr hclear) hi,
          slotRecord_without (h.narrow hclear hj hbegins hio) hstart hij]
      · rw [(hrun.decodeOf_eq_none i).mpr hclear,
          (hrun₂.decodeOf_eq_none i).mpr (mt (h.clear_without hj hbegins hio).mp hclear)]

/-! ### Two devices -/

theorem bars_spaceSys (bars : Nat → Reg 32) : (fun i => id (spaceSys bars).kern (4 + i)) = bars := by
  funext i
  simp [spaceSys]

theorem absent_spaceSys (bars : Nat → Reg 32) (i : Nat) (hi : i < pciResMax) :
    ((spaceSys bars).prv.pciRes i).record = .absent := by
  rw [spaceSys, PciSysfsPriv.allocated]
  dsimp only
  rw [if_pos hi]
  rfl

/-- An I/O register of four ports at the address, and a window of four kilobytes behind it. -/
def ioBars (address : BitVec 32) : Nat → Reg 32
  | 0 => ⟨0xfffffffc, address ||| 1⟩
  | 1 => ⟨0xfffff000, 0xfe000000⟩
  | _ => ⟨0, 0⟩

theorem regType_ioBars (address : BitVec 32) (i : Nat) : regType (ioBars address (i + 1)) = 0 := by
  cases i with
  | zero => exact (by decide : regType ⟨0xfffff000, 0xfe000000⟩ = 0)
  | succ i => exact (by decide : regType ⟨0, 0⟩ = 0)

/-- The devices that the decoding of `ioBars` is compared with. -/
def ioWithout (address : BitVec 32) (j : Nat) : PciSys (Nat → Reg 32) := spaceSys (without (ioBars address) j)

/-- At `0x1000` the ports do no harm. -/
theorem ports1000_uncorrupted : Uncorrupted spaceKernel (fun i => id (spaceSys (ioBars 0x1000)).kern (4 + i))
    (spaceSys (ioBars 0x1000)) (ioWithout 0x1000) := by
  refine (pciSysfsConfig_uncorrupted_iff spaceKernel 3 id (spaceSys (ioBars 0x1000)) (found_spaceSys _)
    (absent_spaceSys _) (ioWithout 0x1000) (fun j => found_spaceSys _) fun j => ?_).mpr ?_
  · rw [bars_spaceSys, ioWithout, bars_spaceSys]
  · rw [bars_spaceSys]
    have htype (j : Nat) : regType (ioBars 0x1000 j) = 0 := by
      cases j with
      | zero => exact (by decide : regType ⟨0xfffffffc, 0x1000 ||| 1⟩ = 0)
      | succ j => exact regType_ioBars 0x1000 j
    constructor
    · intro j _ _ _
      rw [htype]
      decide
    · intro _
      rw [htype]
      decide
    · intro j _ _ _ hunknown
      rw [htype] at hunknown
      exact absurd hunknown (by decide)

/-- At `0x1004` bit 2 of the address makes them pass for the lower half of a window of eight bytes. -/
theorem ports1004_corrupt : ¬Uncorrupted spaceKernel (fun i => id (spaceSys (ioBars 0x1004)).kern (4 + i))
    (spaceSys (ioBars 0x1004)) (ioWithout 0x1004) := by
  intro h
  have hio : IsIo (ioBars 0x1004 0) := by decide
  rw [bars_spaceSys] at h
  have hreached : Reached (fun i => id (spaceSys (ioBars 0x1004)).kern (4 + i)) 0 :=
    ⟨rfl, fun i hi => absurd hi (Nat.not_lt_zero i)⟩
  have hwide : ((sizing spaceKernel (spaceSys (ioBars 0x1004))).2.prv.pciRes 0).is64 = true :=
    (is64_iff (found_spaceSys _) (absent_spaceSys _) (by decide)).mpr ⟨hreached, by decide⟩
  rw [h.narrow 0 (by decide) rfl hio] at hwide
  cases hwide

end BaremetalCrt
