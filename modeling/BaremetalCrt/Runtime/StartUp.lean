/-
# BaremetalCrt.Runtime.StartUp — whether a start-up is all or nothing.

When a device fails, the error exit is to undo what was done for the devices in front of it.  But it resets
the count of the devices before it calls the exit function, whose loop then finds none, so that the devices
that were added stay.  The start-up is all or nothing just when a failure comes at the first device, as it
always does where there is only one (`startUp_allOrNothing_iff`).
-/
import BaremetalCrt.Runtime.Drivers
import BaremetalCrt.Pci.Windows

namespace BaremetalCrt

open Lib

/-! ## What is in the list -/

namespace Registry

/-- The list has the devices `l` as before and the valid devices `m` behind them, and these were counted. -/
structure Listed (s₀ s : Registry) (l m : List Ptr) : Prop where
  chain : Chain s.next none ((l ++ m).map some)
  num : s.devNum = s₀.devNum + Int32.ofNat m.length
  kept : ∀ p ∈ l, ∃ link, s.devs p = { s₀.devs p with devNext := link }
  valid : ∀ p ∈ m, s.devIsValid p = clSuccess

/-- The list, its devices and the count are as they were. -/
structure Unchanged (s₀ s : Registry) (l : List Ptr) : Prop where
  head : s.headNext = s₀.headNext
  devs : ∀ p ∈ l, s.devs p = s₀.devs p
  num : s.devNum = s₀.devNum

variable {s₀ s : Registry} {l m : List Ptr} {p : Ptr}

theorem listed_start (h : Chain s.next none (l.map some)) : Listed s s l [] where
  chain := by rwa [List.append_nil]
  num := (Int32.add_zero _).symm
  kept p _ := ⟨(s.devs p).devNext, rfl⟩
  valid := by simp

/-- Everything is as it was just when nothing is behind. -/
theorem Listed.unchanged_iff (h : Listed s₀ s l m) (hstart : Chain s₀.next none (l.map some)) :
    Unchanged s₀ s l ↔ m = [] := by
  constructor
  · intro hsame
    have hnext : ∀ x ∈ none :: l.map some, s.next x = s₀.next x := by
      intro x hx
      have hdev : s.devNext x = s₀.devNext x := by
        cases x with
        | none => exact hsame.head
        | some p =>
          have hp : p ∈ l := by simpa using hx
          exact congrArg DevNode.devNext (hsame.devs p hp)
      rw [next, next, hdev]
    -- the same links make the same list
    have hlist := (hstart.congr hnext).unique h.chain
    rw [List.map_append] at hlist
    simpa using hlist
  · rintro rfl
    have hchain := h.chain
    rw [List.append_nil] at hchain
    have hnext := hstart.next_eq hchain
    refine ⟨devNext_eq_of_next (hnext none (List.mem_cons_self ..)), fun p hp => ?_, ?_⟩
    · obtain ⟨link, hlink⟩ := h.kept p hp
      have hdev := devNext_eq_of_next (hnext (some p) (List.mem_cons_of_mem _ (List.mem_map_of_mem hp)))
      rw [devNext, hlink] at hdev
      rw [hlink, show link = (s₀.devs p).devNext from hdev]
    · rw [h.num]
      exact Int32.add_zero _

/-- A device that is not in the list can be written. -/
theorem Listed.setDev (h : Listed s₀ s l m) (hp : p ∉ l ++ m) (node : DevNode) :
    Listed s₀ (s.setDev p node) l m := by
  have hother (q : Ptr) (hq : q ∈ l ++ m) : (s.setDev p node).devs q = s.devs q := by
    have hne : q ≠ p := by
      rintro rfl
      exact hp hq
    exact Function.update_of_ne hne ..
  refine ⟨h.chain.congr fun x hx => ?_, h.num, fun q hq => ?_, fun q hq => ?_⟩
  · have hdev : (s.setDev p node).devNext x = s.devNext x := by
      cases x with
      | none => rfl
      | some q => exact congrArg DevNode.devNext (hother q (by simpa using hx))
    rw [next, next, hdev]
  · rw [hother q (List.mem_append_left m hq)]
    exact h.kept q hq
  · rw [devIsValid, hother q (List.mem_append_right l hq)]
    exact h.valid q hq

/-- A new device is added behind the others. -/
theorem Listed.add (h : Listed s₀ s l m) (hp : p ∉ l ++ m) (hvalid : s.devIsValid p = clSuccess)
    (hlink : (s.devs p).devNext = 0) {fuel : Nat} (hfuel : (l ++ m).length < fuel) (ret : ClInt) :
    ∃ s', devAdd fuel p ret s = some (clSuccess, s') ∧ Listed s₀ s' l (m ++ [p]) := by
  obtain ⟨b, hwalk, hend⟩ := h.chain
  refine ⟨s.added p ret b, devAdd_eq hvalid hp hwalk hend hfuel, ?_⟩
  refine ⟨?_, ?_, fun q hq => ?_, fun q hq => ?_⟩
  · rw [← List.append_assoc]
    exact (added_chain_iff ret (ne_zero_of_devIsValid hvalid) hp (nodup_of_chain h.chain) hwalk).mpr hlink
  · rw [added_devNum, h.num, List.length_append, List.length_singleton, Int32.ofNat_add, Int32.add_assoc]
    rfl
  · obtain ⟨link, hq'⟩ := h.kept q hq
    have hne : q ≠ p := by
      rintro rfl
      exact hp (List.mem_append_left m hq)
    obtain ⟨link', hadded⟩ := added_devs (s := s) b hne
    exact ⟨link', by rw [hadded, hq']⟩
  · rw [added_devIsValid]
    rcases List.mem_append.mp hq with hq | hq
    · exact h.valid q hq
    · rw [List.mem_singleton.mp hq, hvalid]

/-- The first of the devices behind is removed. -/
theorem Listed.remove (h : Listed s₀ s l (p :: m)) {fuel : Nat} (hfuel : l.length < fuel) (ret : ClInt) :
    ∃ r s', devRemove fuel p ret s = some (r, s') ∧ Listed s₀ s' l m := by
  have hnodup := nodup_of_chain h.chain
  obtain ⟨r, prev, hrun, -, hchain, -⟩ :=
    devRemove_eq ret (h.valid p (List.mem_cons_self ..)) h.chain hfuel
  refine ⟨r, s.removed p prev, hrun, hchain, ?_, fun q hq => ?_, fun q hq => ?_⟩
  · rw [removed_devNum, h.num, List.length_cons, Int32.ofNat_add, ← Int32.add_assoc, Int32.add_assoc]
    exact Int32.add_zero _
  · obtain ⟨link, hq'⟩ := h.kept q hq
    have hne : q ≠ p := by
      rintro rfl
      exact List.disjoint_of_nodup_append hnodup hq (List.mem_cons_self ..)
    obtain ⟨link', hremoved⟩ := removed_devs (s := s) prev hne
    exact ⟨link', by rw [hremoved, hq']⟩
  · rw [removed_devIsValid]
    exact h.valid q (List.mem_cons_of_mem _ hq)

end Registry

/-! ## Setting up devices -/

/-- What `calloc` returns from the allocation `t` on is not in use. -/
structure DriverWorld.Fresh (w : DriverWorld) (l : List Ptr) (t : Nat) : Prop where
  new : ∀ n p, t ≤ n → w.calloc n = some p → p ≠ 0 ∧ p ∉ l
  distinct : ∀ i j p, t ≤ i → i < j → w.calloc i = some p → w.calloc j ≠ some p

theorem DriverWorld.Fresh.mono {w : DriverWorld} {l : List Ptr} {t t' : Nat} (h : w.Fresh l t) (ht : t ≤ t') :
    w.Fresh l t' where
  new n p hn := h.new n p (Nat.le_trans ht hn)
  distinct i j p hi := h.distinct i j p (Nat.le_trans ht hi)

/-- The device `i` cannot be set up, when its allocations are the two from `base + 2 * i` on. -/
def DriverWorld.Fails (w : DriverWorld) (s : Drivers) (platform : Ptr) (base i : Nat) : Prop :=
  s.platIsValid platform ≠ clSuccess ∨ w.calloc (base + 2 * i) = none ∨ w.calloc (base + 2 * i + 1) = none

section SetUp

variable {w : DriverWorld} {s₀ s : Drivers} {l m : List Ptr} {base fuel : Nat} {num : UInt32} {platform : Ptr}

/-- The devices `m` are set up: they are in the list, and in the array. -/
structure SetUp (w : DriverWorld) (s₀ : Drivers) (l : List Ptr) (base : Nat) (num : UInt32) (m : List Ptr)
    (s : Drivers) : Prop where
  listed : Registry.Listed s₀.registry s.registry l m
  plats : s.plats = s₀.plats
  allocs : s.allocs = base + 2 * m.length
  taken : ∀ p ∈ m, ∃ n, base ≤ n ∧ n < s.allocs ∧ w.calloc n = some p
  slots : ∀ j p, m[j]? = some p → s.slots j = p
  devsNum : s.devsNum = num

/-- A device that was allocated, and is not set up yet. -/
structure Allocated (w : DriverWorld) (s₀ : Drivers) (l : List Ptr) (base : Nat) (num : UInt32) (m : List Ptr)
    (p : Ptr) (s : Drivers) : Prop where
  listed : Registry.Listed s₀.registry s.registry l m
  plats : s.plats = s₀.plats
  allocs : s.allocs = base + 2 * m.length + 2
  taken : ∀ q ∈ m, ∃ n, base ≤ n ∧ n < base + 2 * m.length ∧ w.calloc n = some q
  slots : ∀ j p, m[j]? = some p → s.slots j = p
  devsNum : s.devsNum = num
  notMem : p ∉ l ++ m
  calloc : w.calloc (base + 2 * m.length) = some p
  valid : s.registry.devIsValid p = clSuccess
  devNext : (s.registry.devs p).devNext = 0

theorem wp_allocate {Q : Option Ptr → Drivers → Prop} {E : Stop → Drivers → Prop} :
    Exec.wp (allocate w) Q E s ↔ Q (w.calloc s.allocs) { s with allocs := s.allocs + 1 } := Iff.rfl

theorem wp_devAlloc {Q : Ptr → Drivers → Prop} {E : Stop → Drivers → Prop}
    (hplat : s.platIsValid platform ≠ clSuccess → E (.ret (s.platIsValid platform)) s)
    (hnone : w.calloc s.allocs = none → E (.ret clOutOfHostMemory) { s with allocs := s.allocs + 1 })
    (hsome : ∀ p, s.platIsValid platform = clSuccess → w.calloc s.allocs = some p → Q p { s with
      registry := s.registry.setDev p .allocated
      priv := Function.update s.priv p 0
      allocs := s.allocs + 1 }) : Exec.wp (devAlloc w platform) Q E s := by
  rw [devAlloc, Exec.wp_bind, Exec.wp_gets, Exec.wp_ite]
  refine ⟨hplat, fun hvalid => ?_⟩
  rw [Exec.wp_bind, wp_allocate]
  cases hcalloc : w.calloc s.allocs with
  | none => exact hnone hcalloc
  | some p => exact hsome p (not_not.mp hvalid) hcalloc

theorem setDev_setDev (g : Registry) (p : Ptr) (node node' : DevNode) :
    (g.setDev p node).setDev p node' = g.setDev p node' := by
  rw [Registry.setDev, Registry.setDev, Function.update_idem]
  rfl

@[simp] theorem setDev_devs (g : Registry) (p : Ptr) (node : DevNode) : (g.setDev p node).devs p = node :=
  Function.update_self ..

/-- A device is allocated, or one of its two allocations fails; the list does not change. -/
theorem SetUp.wp_allocDev (hs : SetUp w s₀ l base num m s) (hfresh : w.Fresh l base) (prv : DriverPriv) :
    Exec.wp (allocDev w prv platform)
      (fun p s' => Allocated w s₀ l base num m p s' ∧ ¬w.Fails s₀ platform base m.length)
      (fun e s' => e ≠ .endless ∧ w.Fails s₀ platform base m.length ∧
        Registry.Listed s₀.registry s'.registry l m) s := by
  have hplat : s.platIsValid platform = s₀.platIsValid platform := by
    rw [Drivers.platIsValid, Drivers.platIsValid, hs.plats]
  rw [allocDev, Exec.wp_bind]
  refine wp_devAlloc (fun hinvalid => ?_) (fun hnone => ?_) fun p hvalid hsome => ?_
  · rw [hplat] at hinvalid
    exact ⟨Stop.noConfusion, .inl hinvalid, hs.listed⟩
  · rw [hs.allocs] at hnone
    exact ⟨Stop.noConfusion, .inr (.inl hnone), hs.listed⟩
  · rw [hplat] at hvalid
    rw [hs.allocs] at hsome
    -- a block that is handed out now was not handed out for a device before
    have hp : p ∉ l ++ m := by
      intro hmem
      rcases List.mem_append.mp hmem with hmem | hmem
      · exact (hfresh.new _ p (by omega) hsome).2 hmem
      · obtain ⟨n, hlo, hhi, hn⟩ := hs.taken p hmem
        rw [hs.allocs] at hhi
        exact hfresh.distinct n _ p hlo hhi hn hsome
    rw [Exec.wp_bind, Exec.wp_modify, Exec.wp_bind, wp_allocate]
    dsimp only
    rw [setDev_setDev, setDev_devs]
    have hlisted := hs.listed.setDev hp { DevNode.allocated with devType := clDeviceTypeAccelerator }
    cases hcalloc : w.calloc (s.allocs + 1) with
    | none =>
      rw [hs.allocs] at hcalloc
      exact ⟨Stop.noConfusion, .inr (.inr hcalloc), hlisted⟩
    | some q =>
      rw [Exec.wp_bind, Exec.wp_modify, Exec.wp_pure]
      rw [hs.allocs] at hcalloc
      refine ⟨⟨hlisted, hs.plats, ?_, ?_, hs.slots, hs.devsNum, hp, hsome, ?_, ?_⟩, ?_⟩
      · dsimp only
        rw [hs.allocs]
      · intro x hx
        obtain ⟨n, hlo, hhi, hn⟩ := hs.taken x hx
        exact ⟨n, hlo, hs.allocs ▸ hhi, hn⟩
      · show isValid clInvalidDevice p _ = clSuccess
        rw [setDev_devs, isValid, if_neg (hfresh.new _ p (by omega) hsome).1]
        rfl
      · rw [setDev_devs]
        rfl
      · rintro (hfail | hfail | hfail)
        · exact hfail hvalid
        · rw [hsome] at hfail
          cases hfail
        · rw [hcalloc] at hfail
          cases hfail

theorem wp_alongList {f : Registry → Option (ClInt × Registry)} {r : ClInt} {g : Registry}
    (h : f s.registry = some (r, g)) {Q : ClInt → Drivers → Prop} {E : Stop → Drivers → Prop} :
    Exec.wp (alongList f) Q E s ↔ Q r { s with registry := g } := by
  simp only [Exec.wp, alongList, h]

/-- **One device.** It is set up behind the others, or an allocation fails and the list is left as it is:
`dev_add` does not fail, since the device is valid and new. -/
theorem SetUp.wp_setUpDev (hs : SetUp w s₀ l base num m s) (hfresh : w.Fresh l base)
    (hfuel : l.length + m.length < fuel) (prv : DriverPriv) (ops : Option DevHooks) :
    Exec.wp (setUpDev w fuel (allocDev w prv platform) ops m.length)
      (fun _ s' => (∃ p, SetUp w s₀ l base num (m ++ [p]) s') ∧ ¬w.Fails s₀ platform base m.length)
      (fun e s' => e ≠ .endless ∧ w.Fails s₀ platform base m.length ∧
        Registry.Listed s₀.registry s'.registry l m) s := by
  rw [setUpDev, Exec.wp_bind]
  apply (hs.wp_allocDev hfresh prv).mono _ fun _ _ h => h
  rintro p s₁ ⟨hp, hok⟩
  rw [Exec.wp_bind, Exec.wp_modify]
  have hlisted := hp.listed.setDev hp.notMem { s₁.registry.devs p with ops := ops }
  have hvalid : (s₁.registry.setDev p { s₁.registry.devs p with ops := ops }).devIsValid p = clSuccess := by
    rw [Registry.devIsValid, setDev_devs]
    exact hp.valid
  have hlink : ((s₁.registry.setDev p { s₁.registry.devs p with ops := ops }).devs p).devNext = 0 := by
    rw [setDev_devs]
    exact hp.devNext
  obtain ⟨g, hadd, hlisted'⟩ := hlisted.add hp.notMem hvalid hlink
    (by rw [List.length_append]; exact hfuel) (w.probe p)
  rw [Exec.wp_bind, wp_alongList hadd, Exec.wp_ite]
  refine ⟨fun h => absurd rfl h, fun _ => ?_⟩
  rw [Exec.wp_modify]
  refine ⟨⟨p, hlisted', hp.plats, ?_, fun x hx => ?_, fun j x hx => ?_, hp.devsNum⟩, hok⟩
  · dsimp only
    rw [hp.allocs, List.length_append, List.length_singleton]
    omega
  · dsimp only
    rw [hp.allocs]
    rcases List.mem_append.mp hx with hx | hx
    · obtain ⟨n, hlo, hhi, hn⟩ := hp.taken x hx
      exact ⟨n, hlo, by omega, hn⟩
    · rw [List.mem_singleton.mp hx]
      exact ⟨_, by omega, by omega, hp.calloc⟩
  · dsimp only
    rcases Nat.lt_or_ge j m.length with hj | hj
    · rw [List.getElem?_append_left hj] at hx
      rw [Function.update_of_ne (Nat.ne_of_lt hj)]
      exact hp.slots j x hx
    · rw [List.getElem?_append_right hj] at hx
      obtain ⟨hjm, rfl⟩ : j = m.length ∧ p = x := by
        have hlt := (List.getElem?_eq_some_iff.mp hx).1
        rw [List.length_singleton] at hlt
        have hj' : j = m.length := by omega
        subst hj'
        rw [Nat.sub_self] at hx
        exact ⟨rfl, Option.some.inj hx⟩
      rw [hjm, Function.update_self]

/-- **All of them.** The loop sets up every device, or it stops at the first one that fails and leaves those in
front of it in the list. -/
theorem SetUp.wp_setUpDevs (hfresh : w.Fresh l base) (prv : Nat → DriverPriv) (ops : Option DevHooks)
    (n : Nat) : ∀ {m : List Ptr} {s : Drivers}, SetUp w s₀ l base num m s → l.length + (m.length + n) ≤ fuel →
      Exec.wp (setUpDevs w fuel (fun i => allocDev w (prv i) platform) ops n m.length)
        (fun _ s' => ∃ m', SetUp w s₀ l base num m' s' ∧ m'.length = m.length + n ∧
          ∀ i, m.length ≤ i → i < m'.length → ¬w.Fails s₀ platform base i)
        (fun e s' => e ≠ .endless ∧ ∃ m', Registry.Listed s₀.registry s'.registry l m' ∧
          m.length ≤ m'.length ∧ m'.length < m.length + n ∧ w.Fails s₀ platform base m'.length ∧
          ∀ i, m.length ≤ i → i < m'.length → ¬w.Fails s₀ platform base i) s := by
  induction n with
  | zero =>
    intro m s hs _
    exact ⟨m, hs, rfl, fun i hlo hhi => absurd hhi (by omega)⟩
  | succ n ih =>
    intro m s hs hfuel
    rw [setUpDevs, Exec.wp_bind]
    apply (hs.wp_setUpDev hfresh (by omega) (prv m.length) ops).mono
    · rintro _ s₁ ⟨⟨p, hs₁⟩, hok⟩
      have hlen : (m ++ [p]).length = m.length + 1 := by
        rw [List.length_append, List.length_singleton]
      have hnot {k : Nat} (h : ∀ i, m.length + 1 ≤ i → i < k → ¬w.Fails s₀ platform base i) (i : Nat)
          (hlo : m.length ≤ i) (hhi : i < k) : ¬w.Fails s₀ platform base i := by
        rcases Nat.eq_or_lt_of_le hlo with rfl | hlt
        · exact hok
        · exact h i hlt hhi
      -- this device did not fail, and none between it and the one that does
      have hrest := ih hs₁ (by omega)
      rw [hlen] at hrest
      apply hrest.mono
      · rintro _ s₂ ⟨m', hs₂, hlen', hnone⟩
        exact ⟨m', hs₂, by omega, hnot hnone⟩
      · rintro e s₂ ⟨he, m', hlisted, hlo, hhi, hfail, hnone⟩
        exact ⟨he, m', hlisted, by omega, by omega, hfail, hnot hnone⟩
    · rintro e s₁ ⟨he, hfail, hlisted⟩
      exact ⟨he, m, hlisted, Nat.le_refl _, by omega, hfail, fun i hlo hhi => absurd hhi (by omega)⟩

/-! ## Ending -/

/-- The list of devices, and the array that the driver fills, are as before. -/
structure SameList (s s' : Drivers) : Prop where
  registry : s'.registry = s.registry
  slots : s'.slots = s.slots

theorem wp_release {p : Ptr} {Q : Unit → Drivers → Prop} {E : Stop → Drivers → Prop}
    (h : ∀ freed, Q () { s with freed := freed }) : Exec.wp (release p) Q E s := by
  rw [release, Exec.wp_modify]
  split
  · exact h s.freed
  · exact h _

theorem wp_devFree {dev : Ptr} (hs : SameList s₀ s) :
    Exec.wp (devFree dev) (fun _ => SameList s₀) (fun _ _ => False) s := by
  rw [devFree, Exec.wp_bind, Exec.wp_gets, Exec.wp_ite]
  refine ⟨fun _ => hs, fun _ => ?_⟩
  rw [Exec.wp_bind]
  exact wp_release fun _ => ⟨hs.registry, hs.slots⟩

/-- Freeing a device does not touch the list. -/
theorem wp_freeDev (clear : Bool) (dev : Ptr) :
    Exec.wp (freeDev clear dev) (fun _ => SameList s) (fun _ _ => False) s := by
  rw [freeDev, Exec.wp_ite]
  refine ⟨fun _ => ⟨rfl, rfl⟩, fun _ => ?_⟩
  rw [Exec.wp_bind, Exec.wp_gets, Exec.wp_ite]
  refine ⟨fun _ => ?_, fun _ => wp_devFree ⟨rfl, rfl⟩⟩
  rw [Exec.wp_bind]
  refine wp_release fun _ => ?_
  rw [Exec.wp_ite]
  refine ⟨fun _ => ?_, fun _ => wp_devFree ⟨rfl, rfl⟩⟩
  rw [Exec.wp_bind, Exec.wp_modify]
  exact wp_devFree ⟨rfl, rfl⟩

/-- The loop removes one device after the other, whatever their removals return. -/
theorem wp_removeDevs (clear : Bool) (m : List Ptr) : ∀ {i : Nat} {s : Drivers},
    Registry.Listed s₀.registry s.registry l m → (∀ j p, m[j]? = some p → s.slots (i + j) = p) →
    l.length < fuel →
    Exec.wp (removeDevs w fuel (freeDev clear) m.length i)
      (fun _ s' => Registry.Listed s₀.registry s'.registry l []) (fun _ _ => False) s := by
  induction m with
  | nil => exact fun hlisted _ _ => hlisted
  | cons p m ih =>
    intro i s hlisted hslots hfuel
    rw [List.length_cons, removeDevs, Exec.wp_bind, Exec.wp_gets, Exec.wp_bind]
    obtain ⟨r, g, hrun, hlisted'⟩ := hlisted.remove hfuel (w.remove p)
    have hfirst : s.slots i = p := hslots 0 p rfl
    rw [hfirst, wp_alongList hrun, Exec.wp_bind]
    apply (wp_freeDev clear p).mono _ fun _ _ h => h
    rintro _ s₁ ⟨hregistry, hsame⟩
    apply ih
    · rw [hregistry]
      exact hlisted'
    · intro j q hq
      rw [hsame, Nat.add_right_comm]
      exact hslots (j + 1) q hq
    · exact hfuel

/-- **The exit.** It removes the devices that are counted. -/
theorem SetUp.wp_driverExit (hs : SetUp w s₀ l base num m s) (hnum : num.toNat = m.length)
    (hfuel : l.length < fuel) (clear : Bool) :
    Exec.wp (driverExit w fuel (freeDev clear) true true)
      (fun r s' => r = clSuccess ∧ Registry.Listed s₀.registry s'.registry l []) (fun _ _ => False) s := by
  rw [driverExit, if_neg (by decide), Exec.wp_bind, Exec.wp_gets, Exec.wp_bind, hs.devsNum, hnum]
  apply (wp_removeDevs clear m hs.listed (fun j p hp => ?_) hfuel).mono _ fun _ _ h => h
  · intro _ s₁ hs₁
    rw [Exec.wp_bind, Exec.wp_gets, Exec.wp_bind]
    refine wp_release fun _ => ?_
    rw [Exec.wp_bind, Exec.wp_modify, Exec.wp_pure]
    exact ⟨rfl, hs₁⟩
  · rw [Nat.zero_add]
    exact hs.slots j p hp

/-- Where none is counted, it removes none. -/
theorem wp_driverExit_none (hnum : s.devsNum = 0) (free : Ptr → StartUp ClInt) :
    Exec.wp (driverExit w fuel free true true) (fun _ s' => s'.registry = s.registry) (fun _ _ => False) s := by
  have hzero : removeDevs w fuel free (UInt32.toNat 0) 0 = pure () := rfl
  rw [driverExit, if_neg (by decide), Exec.wp_bind, Exec.wp_gets, Exec.wp_bind, hnum, hzero, Exec.wp_pure,
    Exec.wp_bind, Exec.wp_gets, Exec.wp_bind]
  exact wp_release fun _ => rfl

end SetUp

/-! ## All or nothing -/

/-- After an error everything is as it was, and after a success the exit makes it so again. -/
def AllOrNothing (init : StartUp Unit) (exit : StartUp ClInt) (l : List Ptr) (s : Drivers) : Prop :=
  Exec.wp init
    (fun _ s₁ => Exec.wp exit
      (fun r s₂ => r = clSuccess ∧ Registry.Unchanged s.registry s₂.registry l) (fun _ _ => False) s₁)
    (fun e s₁ => e ≠ .endless ∧ Registry.Unchanged s.registry s₁.registry l) s

section AllOrNothing

variable (w : DriverWorld) (fuel : Nat) (platform : Ptr) (l : List Ptr) (s : Drivers)

/-- When `pci_sysfs_init` comes to the loop, a device that cannot be set up is the first one. -/
def PciSysfsFailsFirst (conf : Option PciSysfsConf) (devs devsNum : Bool)
    (enum : Except ClInt PciSysfsEnum) : Prop :=
  ∀ inf, conf.isSome → devs = true → devsNum = true → enum = .ok inf → (w.calloc s.allocs).isSome →
    ∀ i, i < inf.num.toNat → w.Fails s platform (s.allocs + 1) i → w.Fails s platform (s.allocs + 1) 0

variable {w fuel platform l s}

theorem Registry.unchanged_refl (hlist : Chain s.registry.next none (l.map some)) :
    Registry.Unchanged s.registry s.registry l :=
  ((Registry.listed_start hlist).unchanged_iff hlist).mpr rfl

/-- The array is allocated, and no device is set up yet, or it is not. -/
theorem wp_allocArray {Q : Bool → Drivers → Prop} {E : Stop → Drivers → Prop}
    (hnone : w.calloc s.allocs = none → Q false { s with allocs := s.allocs + 1 })
    (hsome : ∀ p, w.calloc s.allocs = some p →
      Q true { s with devs := p, slots := fun _ => 0, allocs := s.allocs + 1 }) :
    Exec.wp (allocArray w) Q E s := by
  rw [allocArray, Exec.wp_bind, wp_allocate]
  cases hcalloc : w.calloc s.allocs with
  | none => exact hnone hcalloc
  | some p => exact hsome p hcalloc

/-- Nothing is set up in a state with the list and the platforms of the start. -/
theorem setUp_nil (hlist : Chain s.registry.next none (l.map some)) {base : Nat} {num : UInt32} {s₁ : Drivers}
    (hregistry : s₁.registry = s.registry) (hplats : s₁.plats = s.plats) (hallocs : s₁.allocs = base)
    (hnum : s₁.devsNum = num) : SetUp w s l base num [] s₁ where
  listed := by
    rw [hregistry]
    exact Registry.listed_start hlist
  plats := hplats
  allocs := hallocs
  taken := by simp
  slots := by simp
  devsNum := hnum

/-- The error exit finds no device counted. -/
theorem wp_errOut {inf : Ptr} {r : ClInt} {exit : StartUp ClInt} {P : Stop → Registry → Prop}
    {Q : Unit → Drivers → Prop}
    (hexit : ∀ s' : Drivers, s'.devsNum = 0 →
      Exec.wp exit (fun _ s'' => s''.registry = s'.registry) (fun _ _ => False) s')
    (h : P (.ret r) s.registry) :
    Exec.wp (do
      Exec.modify fun s => { s with devs := 0, devsNum := 0 }
      release inf
      let _ ← exit
      Exec.exit (.ret r)) Q (fun e s' => P e s'.registry) s := by
  rw [Exec.wp_bind, Exec.wp_modify, Exec.wp_bind]
  refine wp_release fun freed => ?_
  rw [Exec.wp_bind]
  apply (hexit _ rfl).mono _ fun _ _ h => h.elim
  intro _ s' hs'
  rw [Exec.wp_exit, hs']
  exact h

theorem wp_pciSysfsInit (hlist : Chain s.registry.next none (l.map some)) (hfresh : w.Fresh l s.allocs)
    (hfuel : l.length + 2 ^ 32 ≤ fuel) (conf : Option PciSysfsConf) (devs devsNum : Bool)
    (enum : Except ClInt PciSysfsEnum) :
    Exec.wp (pciSysfsInit w fuel platform conf devs devsNum enum)
      (fun _ s₁ => PciSysfsFailsFirst w platform s conf devs devsNum enum ∧
        Exec.wp (pciSysfsExit w fuel true true)
          (fun r s₂ => r = clSuccess ∧ Registry.Unchanged s.registry s₂.registry l) (fun _ _ => False) s₁)
      (fun e s₁ => e ≠ .endless ∧ (Registry.Unchanged s.registry s₁.registry l ↔
        PciSysfsFailsFirst w platform s conf devs devsNum enum)) s := by
  have hsame := Registry.unchanged_refl hlist
  cases conf with
  | none =>
    refine ⟨Stop.noConfusion, iff_of_true hsame ?_⟩
    rintro inf hconf
    cases hconf
  | some conf =>
    unfold pciSysfsInit
    dsimp only
    rw [Exec.wp_ite]
    refine ⟨fun hargs => ?_, fun hargs => ?_⟩
    · refine ⟨Stop.noConfusion, iff_of_true hsame ?_⟩
      rintro inf - rfl rfl
      exact absurd hargs (by decide)
    rw [Exec.wp_bind, Exec.wp_modify]
    cases enum with
    | error r =>
      refine ⟨Stop.noConfusion, iff_of_true hsame ?_⟩
      rintro inf - - - henum
      cases henum
    | ok inf =>
      dsimp only
      rw [Exec.wp_bind, Exec.wp_modify, Exec.wp_bind, Exec.wp_attempt, Exec.wp_bind]
      have hnum : inf.num.toNat < 2 ^ 32 := inf.num.toNat_lt
      refine wp_allocArray (fun hnone => ?_) fun p hsome => ?_
      · rw [if_pos rfl, Exec.wp_bind, Exec.wp_exit]
        refine wp_errOut (P := fun e g => e ≠ .endless ∧ (Registry.Unchanged s.registry g l ↔ _))
          (fun s' hs' => wp_driverExit_none hs' _) ⟨Stop.noConfusion, iff_of_true hsame ?_⟩
        rintro inf' - - - - hcalloc
        rw [show w.calloc s.allocs = none from hnone] at hcalloc
        cases hcalloc
      · rw [if_neg (by decide)]
        have hstart : SetUp w s l (s.allocs + 1) inf.num [] { s with
            devs := p, slots := fun _ => 0, devsNum := inf.num, allocs := s.allocs + 1 } :=
          setUp_nil hlist rfl rfl rfl rfl
        refine (hstart.wp_setUpDevs (hfresh.mono (by omega)) _ conf.ops inf.num.toNat
          (by rw [List.length_nil]; omega)).mono ?_ ?_
        · -- every device is in the list, and all of them are counted
          rintro _ s₁ ⟨m, hs₁, hlen, hnone⟩
          rw [List.length_nil, Nat.zero_add] at hlen
          refine wp_release fun freed => ⟨?_, ?_⟩
          · rintro inf' - - - henum - i hi hfail
            obtain rfl := Except.ok.inj henum
            exact absurd hfail (hnone i (Nat.zero_le i) (by omega))
          · have hs₂ : SetUp w s l (s.allocs + 1) inf.num m { s₁ with freed := freed } :=
              ⟨hs₁.listed, hs₁.plats, hs₁.allocs, hs₁.taken, hs₁.slots, hs₁.devsNum⟩
            apply (hs₂.wp_driverExit hlen.symm (by omega) false).mono _ fun _ _ h => h
            rintro r s₃ ⟨hr, hlisted⟩
            exact ⟨hr, (hlisted.unchanged_iff hlist).mpr rfl⟩
        · rintro e s₁ ⟨he, m, hlisted, -, hlen, hfail, hnone⟩
          rw [List.length_nil, Nat.zero_add] at hlen
          cases e with
          | endless => exact absurd rfl he
          | ret r =>
            refine wp_errOut (P := fun e g => e ≠ .endless ∧ (Registry.Unchanged s.registry g l ↔ _))
              (fun s' hs' => wp_driverExit_none hs' _) ⟨he, ?_⟩
            rw [hlisted.unchanged_iff hlist]
            constructor
            · rintro rfl inf' - - - - - i - -
              exact hfail
            · intro hfirst
              -- the first device did not fail, if there is one in front of the one that did
              have hzero := hfirst inf rfl (by simpa using fun h => hargs (.inl h))
                (by simpa using fun h => hargs (.inr h)) rfl (by rw [hsome]; rfl) m.length hlen hfail
              by_contra hne
              exact hnone 0 (Nat.zero_le 0) (List.length_pos_of_ne_nil hne) hzero

/-- **PCI.** The start-up is all or nothing just when a device that cannot be set up is the first one. -/
theorem pciSysfs_allOrNothing_iff (hlist : Chain s.registry.next none (l.map some))
    (hfresh : w.Fresh l s.allocs) (hfuel : l.length + 2 ^ 32 ≤ fuel) (conf : Option PciSysfsConf)
    (devs devsNum : Bool) (enum : Except ClInt PciSysfsEnum) :
    AllOrNothing (pciSysfsInit w fuel platform conf devs devsNum enum) (pciSysfsExit w fuel true true) l s ↔
      PciSysfsFailsFirst w platform s conf devs devsNum enum := by
  apply (wp_pciSysfsInit hlist hfresh hfuel conf devs devsNum enum).iff
  · rintro _ s₁ ⟨hfirst, hexit⟩
    exact iff_of_true hexit hfirst
  · rintro e s₁ ⟨he, hiff⟩
    rw [hiff]
    exact and_iff_right he

/-- **GDB.** There is one device, so that nothing is in front of one that fails. -/
theorem gdbRemote_allOrNothing (hlist : Chain s.registry.next none (l.map some)) (hfresh : w.Fresh l s.allocs)
    (hfuel : l.length + 2 ^ 32 ≤ fuel) (conf : Option GdbRemoteConf) (devs devsNum : Bool) :
    AllOrNothing (gdbRemoteInit w fuel platform conf devs devsNum) (gdbRemoteExit w fuel true true) l s := by
  have hsame := Registry.unchanged_refl hlist
  unfold AllOrNothing
  cases conf with
  | none => exact ⟨Stop.noConfusion, hsame⟩
  | some conf =>
    unfold gdbRemoteInit
    dsimp only
    rw [Exec.wp_ite]
    refine ⟨fun _ => ⟨Stop.noConfusion, hsame⟩, fun _ => ?_⟩
    rw [Exec.wp_bind, Exec.wp_modify, Exec.wp_bind, gdbRemoteEnum, Exec.wp_bind, wp_allocate]
    dsimp only
    cases w.calloc s.allocs with
    | none => exact ⟨Stop.noConfusion, hsame⟩
    | some inf =>
      rw [Exec.wp_pure, Exec.wp_bind, Exec.wp_modify, Exec.wp_bind]
      refine wp_allocArray (fun _ => ⟨Stop.noConfusion, hsame⟩) fun p _ => ?_
      rw [if_neg (by decide), Exec.wp_bind, Exec.wp_attempt]
      have hstart : SetUp w s l (s.allocs + 2) 1 [] { s with
          devs := p, slots := fun _ => 0, devsNum := 1, allocs := s.allocs + 2 } :=
        setUp_nil hlist rfl rfl rfl rfl
      refine (hstart.wp_setUpDevs (hfresh.mono (by omega)) _ conf.ops 1
        (by rw [List.length_nil]; omega)).mono ?_ ?_
      · rintro _ s₁ ⟨m, hs₁, hlen, -⟩
        apply (hs₁.wp_driverExit hlen.symm (by omega) true).mono _ fun _ _ h => h
        rintro r s₂ ⟨hr, hlisted⟩
        exact ⟨hr, (hlisted.unchanged_iff hlist).mpr rfl⟩
      · rintro e s₁ ⟨he, m, hlisted, -, hlen, -, -⟩
        cases e with
        | endless => exact absurd rfl he
        | ret r =>
          refine wp_errOut (P := fun e g => e ≠ .endless ∧ Registry.Unchanged s.registry g l)
            (fun s' hs' => wp_driverExit_none hs' _) ⟨he, ?_⟩
          -- the loop has only one pass
          have hempty : m = [] := List.eq_nil_of_length_eq_zero (Nat.lt_one_iff.mp hlen)
          exact (hlisted.unchanged_iff hlist).mpr hempty

end AllOrNothing

/-- **All or nothing.** With memory from `calloc` that is not in use, the start-up of the GDB driver is all or
nothing, and that of the PCI driver is just when a device that cannot be set up is the first one. -/
theorem startUp_allOrNothing_iff (w : DriverWorld) (fuel : Nat) (platform : Ptr) (l : List Ptr) (s : Drivers)
    (hlist : Chain s.registry.next none (l.map some)) (hfresh : w.Fresh l s.allocs)
    (hfuel : l.length + 2 ^ 32 ≤ fuel) (devs devsNum : Bool) (pci : Option PciSysfsConf)
    (enum : Except ClInt PciSysfsEnum) (gdb : Option GdbRemoteConf) :
    (AllOrNothing (pciSysfsInit w fuel platform pci devs devsNum enum) (pciSysfsExit w fuel true true) l s ↔
      PciSysfsFailsFirst w platform s pci devs devsNum enum) ∧
    AllOrNothing (gdbRemoteInit w fuel platform gdb devs devsNum) (gdbRemoteExit w fuel true true) l s :=
  ⟨pciSysfs_allOrNothing_iff hlist hfresh hfuel pci devs devsNum enum,
    gdbRemote_allOrNothing hlist hfresh hfuel gdb devs devsNum⟩

-- the runs below have no variables: comparing their statements must not evaluate them
attribute [irreducible] AllOrNothing

/-! ### Two devices -/

/-- A world where just one allocation fails, if any, and the second of two probes. -/
def twoWorld (failing : Option Nat) : DriverWorld where
  calloc n := if failing = some n then none else some (100 + n)
  probe p := if p = 103 then clOutOfResources else clSuccess
  remove _ := clSuccess
  behind _ := ⟨0, 0, false, false, -1, 0⟩

theorem calloc_twoWorld {failing : Option Nat} {n p : Nat} (h : (twoWorld failing).calloc n = some p) :
    p = 100 + n := by
  replace h : (if failing = some n then none else some (100 + n)) = some p := h
  split at h
  · cases h
  · exact (Option.some.inj h).symm

theorem fresh_twoWorld (failing : Option Nat) : (twoWorld failing).Fresh [] 0 where
  new n p _ hp := by
    have hne : (100 + n : Nat) ≠ 0 := by omega
    rw [calloc_twoWorld hp]
    exact ⟨hne, List.not_mem_nil⟩
  distinct i j p _ hij hi hj := by
    have hpi := calloc_twoWorld hi
    have hpj := calloc_twoWorld hj
    omega

/-- Nothing was started yet; the only platform is at 1. -/
def notStarted : Drivers where
  registry := ⟨0, fun _ => ⟨0, none, 0, false, 0⟩, 0⟩
  plats p := if p = 1 then openclIcdMagic else 0
  priv _ := 0
  privs _ := none
  devs := 0
  slots _ := 0
  devsNum := 0
  allocs := 0
  freed := []

theorem chain_notStarted : Chain notStarted.registry.next none (([] : List Ptr).map some) :=
  (chain_nil_iff (by decide)).mpr rfl

/-- The configuration of a PCI device of the test driver. -/
def pciConf : PciSysfsConf := ⟨testMapTable, some ⟨true, true⟩⟩

/-- The configuration of an OpenOCD server, whose driver has a probe and a removal. -/
def gdbConf : GdbRemoteConf := ⟨openocdInfo.node, openocdInfo.service, some ⟨true, true⟩⟩

/-- An enumeration that found two devices of one kind. -/
def twoFound : PciSysfsEnum := ⟨50, fun _ => ⟨0, 1, 0, 0x1af4, 0x1050⟩, 2⟩

/-- Where every allocation succeeds, no device fails. -/
theorem failsFirst_twoFound :
    PciSysfsFailsFirst (twoWorld none) 1 notStarted (some pciConf) true true (.ok twoFound) := by
  have hsome (n : Nat) : (twoWorld none).calloc n ≠ none := by
    show (if none = some n then none else some (100 + n)) ≠ none
    simp
  intro inf _ _ _ _ _ i _ hfails
  rcases hfails with hplat | hnone | hnone
  · exact absurd rfl hplat
  · exact absurd hnone (hsome _)
  · exact absurd hnone (hsome _)

/-- Both drivers start all of their devices or none. -/
theorem twoDevices_allOrNothing :
    AllOrNothing (pciSysfsInit (twoWorld none) (2 ^ 32) 1 (some pciConf) true true (.ok twoFound))
      (pciSysfsExit (twoWorld none) (2 ^ 32) true true) [] notStarted ∧
    AllOrNothing (gdbRemoteInit (twoWorld none) (2 ^ 32) 1 (some gdbConf) true true)
      (gdbRemoteExit (twoWorld none) (2 ^ 32) true true) [] notStarted :=
  (startUp_allOrNothing_iff (twoWorld none) (2 ^ 32) 1 [] notStarted chain_notStarted (fresh_twoWorld none)
    (Nat.le_refl _) true true (some pciConf) (.ok twoFound) (some gdbConf)).imp_left
      fun hpci => hpci.mpr failsFirst_twoFound

/-- The second device is not allocated, and the first one stays in the list. -/
theorem secondDevice_leaves_first : Chain notStarted.registry.next none (([] : List Ptr).map some) ∧
    (twoWorld (some 3)).Fresh [] notStarted.allocs ∧
    ¬AllOrNothing (pciSysfsInit (twoWorld (some 3)) (2 ^ 32) 1 (some pciConf) true true (.ok twoFound))
      (pciSysfsExit (twoWorld (some 3)) (2 ^ 32) true true) [] notStarted := by
  refine ⟨chain_notStarted, fresh_twoWorld (some 3), ?_⟩
  have hfuel : ([] : List Ptr).length + 2 ^ 32 ≤ 2 ^ 32 := Nat.le_refl _
  rw [pciSysfs_allOrNothing_iff chain_notStarted (fresh_twoWorld (some 3)) hfuel]
  intro h
  have hsecond : (twoWorld (some 3)).Fails notStarted 1 1 1 := .inr (.inl rfl)
  have hzero := h twoFound rfl rfl rfl rfl rfl 1 (by decide) hsecond
  revert hzero
  unfold DriverWorld.Fails
  decide

end BaremetalCrt
