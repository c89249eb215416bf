/-
# BaremetalCrt.Runtime.Discovery — finding devices (`in_clGetDeviceIDs`, `dev_init`).

The first call starts the drivers, and every call then goes along the list.  A driver that failed is not
started again, so that the next call does not know of it (`inClGetDeviceIDs_repeat_iff`); and the count is
that of the entries that were stored, if there is room for fewer than there are devices
(`inClGetDeviceIDs_filter_iff`).
-/
import BaremetalCrt.Runtime.Registry

namespace BaremetalCrt

open Lib

/-! ## The calls -/

/-- `struct dev_group`.  What its `init` does is the driver's. -/
structure DevGroup where
  init : Option (Ptr → Registry → ClInt × Registry)
  inited : Bool

/-- `in_dev_groups`, the list of devices, and the magic behind a `cl_platform_id`. -/
structure Discovery where
  groups : List DevGroup
  registry : Registry
  plats : Ptr → UInt32

/-- `plat_is_valid`: the handle is not NULL and its object has the magic number of the library. -/
def Discovery.platIsValid (st : Discovery) (platform : Ptr) : ClInt :=
  isValid clInvalidPlatform platform (st.plats platform)

section Calls

variable (platform : Ptr)

/-- Call `init`, if it is there: `res`, and the list. -/
def DevGroup.start (grp : DevGroup) (res : ClInt) (s : Registry) : ClInt × Registry :=
  match grp.init with
  | none => (res, s)
  | some init =>
    let (r, s) := init platform s
    (if r ≠ clSuccess then r else res, s)

/-- The loop of `dev_init`: each driver is started once, be it with success or not; `res` is the last code
that was not success. -/
def devInitLoop : List DevGroup → ClInt → Registry → ClInt × List DevGroup × Registry
  | [], res, s => (res, [], s)
  | grp :: grps, res, s =>
    if grp.inited then
      let (res, grps, s) := devInitLoop grps res s
      (res, grp :: grps, s)
    else
      let (res, s) := grp.start platform res s
      let (res, grps, s) := devInitLoop grps res s
      -- also when `init` failed
      (res, { grp with inited := true } :: grps, s)

/-- `dev_init`: every group of devices that is not started yet is started, and the last code that was not success
is returned. -/
def devInit (st : Discovery) : ClInt × Discovery :=
  let (res, groups, registry) := devInitLoop platform st.groups clSuccess st.registry
  (res, { st with groups := groups, registry := registry })

/-- What `in_clGetDeviceIDs` returns, and what it stores at `devices` and `num_devices`. -/
structure DeviceIDs where
  ret : ClInt
  devices : List Ptr
  numDevices : Option UInt32
  deriving DecidableEq, Repr

/-- `in_clGetDeviceIDs`; `devices` and `numDevices` say whether the pointers are there. -/
def inClGetDeviceIDs (fuel : Nat) (deviceType : UInt64) (numEntries : UInt32) (devices numDevices : Bool)
    (st : Discovery) : Option (DeviceIDs × Discovery) :=
  if st.platIsValid platform ≠ clSuccess then some (⟨st.platIsValid platform, [], none⟩, st)
  else if devices = true ∧ numEntries = 0 then some (⟨clInvalidValue, [], none⟩, st)
  else if devices = false ∧ numDevices = false then some (⟨clInvalidValue, [], none⟩, st)
  else
    let (r, st) := devInit platform st
    if r ≠ clSuccess then some (⟨r, [], none⟩, st)
    else do
      let (r, out, num) ← devGetDevices fuel devices deviceType (some numEntries) st.registry
      if r ≠ clSuccess then
        return (⟨r, out, none⟩, st)
      return (⟨r, out, if numDevices then num else none⟩, st)

end Calls

/-! ## Along the list -/

section Filter

variable (typ : UInt64) (s : Registry)

/-- The device is enabled, and of one of the types. -/
def Registry.Matches (p : Ptr) : Prop := (s.devs p).devType &&& typ ≠ 0 ∧ (s.devs p).enabled = true

instance (p : Ptr) : Decidable (s.Matches typ p) := inferInstanceAs (Decidable (_ ∧ _))

/-- The devices that an enumeration is about: those that are enabled and of the type that was asked for. -/
def Registry.matching (l : List Ptr) : List Ptr := l.filter fun p => decide (s.Matches typ p)

theorem Registry.matching_cons (p : Ptr) (l : List Ptr) :
    s.matching typ (p :: l) = if s.Matches typ p then p :: s.matching typ l else s.matching typ l := by
  simp [matching, List.filter_cons]

variable {s}

theorem Registry.devNext_of_nil {d : Option Ptr} (h : Chain s.next d []) : s.devNext d = 0 := by
  obtain ⟨b, hwalk, hend⟩ := h
  cases hwalk
  exact next_eq_none_iff.mp hend

theorem Registry.devNext_of_cons {d : Option Ptr} {p : Ptr} {l : List Ptr}
    (h : Chain s.next d ((p :: l).map some)) :
    s.devNext d ≠ 0 ∧ s.devNext d = p ∧ Chain s.next (some p) (l.map some) := by
  obtain ⟨b, hwalk, hend⟩ := h
  cases hwalk with
  | cons link rest =>
    obtain ⟨hne, heq⟩ := next_eq_some link
    exact ⟨hne, Option.some.inj heq, b, rest, hend⟩

variable {typ} in
/-- A pass of the loop. -/
theorem getDevicesLoop_succ {pdev : Bool} {sz : UInt32} {d : Option Ptr} {p : Ptr} (n : Nat) (out : List Ptr)
    (cnt : UInt32) (hne : s.devNext d ≠ 0) (hp : s.devNext d = p) :
    getDevicesLoop pdev typ sz s (n + 1) d out cnt =
      if (s.devs p).devType &&& typ = 0 then getDevicesLoop pdev typ sz s n (some p) out cnt
      else if pdev ∧ sz ≤ (if (s.devs p).enabled then cnt + 1 else cnt) then
        some (if (s.devs p).enabled ∧ pdev then out ++ [p] else out,
          if (s.devs p).enabled then cnt + 1 else cnt)
      else getDevicesLoop pdev typ sz s n (some p) (if (s.devs p).enabled ∧ pdev then out ++ [p] else out)
        (if (s.devs p).enabled then cnt + 1 else cnt) := by
  rw [getDevicesLoop, if_neg hne, hp]

/-- Without an array the loop counts. -/
theorem getDevicesLoop_count (sz : UInt32) (l : List Ptr) : ∀ (d : Option Ptr) (n : Nat) (cnt : UInt32),
    Chain s.next d (l.map some) → l.length < n →
    getDevicesLoop false typ sz s n d [] cnt = some ([], cnt + UInt32.ofNat (s.matching typ l).length) := by
  induction l with
  | nil =>
    intro d n cnt hchain hn
    obtain ⟨n, rfl⟩ : ∃ k, n = k + 1 := ⟨n - 1, by omega⟩
    rw [getDevicesLoop, if_pos (Registry.devNext_of_nil hchain)]
    simp [Registry.matching]
  | cons p l ih =>
    intro d n cnt hchain hn
    rw [List.length_cons] at hn
    obtain ⟨n, rfl⟩ : ∃ k, n = k + 1 := ⟨n - 1, by omega⟩
    obtain ⟨hne, hp, hrest⟩ := Registry.devNext_of_cons hchain
    have hrun (cnt : UInt32) := ih (some p) n cnt hrest (by omega)
    rw [getDevicesLoop_succ n [] cnt hne hp, Registry.matching_cons]
    by_cases htype : (s.devs p).devType &&& typ = 0
    · rw [if_pos htype, hrun, if_neg fun h => h.1 htype]
    · rw [if_neg htype, if_neg (by simp), if_neg (by simp), hrun]
      by_cases hon : (s.devs p).enabled = true
      · rw [if_pos hon, if_pos ⟨htype, hon⟩, List.length_cons, Nat.add_comm, UInt32.ofNat_add,
          UInt32.add_assoc]
        rfl
      · rw [if_neg hon, if_neg fun h => hon h.2]

/-- With an array it stores as many as there is room for, and counts these. -/
theorem getDevicesLoop_store (sz : UInt32) (l : List Ptr) : ∀ (d : Option Ptr) (n : Nat) (out : List Ptr),
    Chain s.next d (l.map some) → l.length < n → out.length < sz.toNat →
    ∃ out', out' = out ++ (s.matching typ l).take (sz.toNat - out.length) ∧
      getDevicesLoop true typ sz s n d out (UInt32.ofNat out.length) =
        some (out', UInt32.ofNat out'.length) := by
  induction l with
  | nil =>
    intro d n out hchain hn hroom
    obtain ⟨n, rfl⟩ : ∃ k, n = k + 1 := ⟨n - 1, by omega⟩
    refine ⟨out, by simp [Registry.matching], ?_⟩
    rw [getDevicesLoop, if_pos (Registry.devNext_of_nil hchain)]
  | cons p l ih =>
    intro d n out hchain hn hroom
    rw [List.length_cons] at hn
    obtain ⟨n, rfl⟩ : ∃ k, n = k + 1 := ⟨n - 1, by omega⟩
    obtain ⟨hne, hp, hrest⟩ := Registry.devNext_of_cons hchain
    have hsz := sz.toNat_lt
    rw [getDevicesLoop_succ n out _ hne hp, Registry.matching_cons]
    by_cases htype : (s.devs p).devType &&& typ = 0
    · obtain ⟨out', hout, hrun⟩ := ih (some p) n out hrest (by omega) hroom
      refine ⟨out', by rw [if_neg fun h => h.1 htype]; exact hout, ?_⟩
      rw [if_pos htype, hrun]
    · by_cases hon : (s.devs p).enabled = true
      · have hcnt : UInt32.ofNat out.length + 1 = UInt32.ofNat (out ++ [p]).length := by
          rw [List.length_append, List.length_singleton, UInt32.ofNat_add]
          rfl
        have hlen : (out ++ [p]).length = out.length + 1 := by simp
        have hto : (UInt32.ofNat (out ++ [p]).length).toNat = out.length + 1 := by
          rw [UInt32.toNat_ofNat', hlen, Nat.mod_eq_of_lt (by omega)]
        have hmatches : s.Matches typ p := ⟨htype, hon⟩
        have hstore : (s.devs p).enabled = true ∧ true = true := ⟨hon, rfl⟩
        rw [if_pos hmatches, if_neg htype, if_pos hon, if_pos hstore, hcnt]
        by_cases hfull : sz ≤ UInt32.ofNat (out ++ [p]).length
        · -- the array is full
          have hone : sz.toNat - out.length = 1 := by
            have hle := UInt32.le_iff_toNat_le.mp hfull
            omega
          exact ⟨out ++ [p], by rw [hone]; rfl, if_pos ⟨rfl, hfull⟩⟩
        · have hmore : out.length + 1 < sz.toNat := by
            have hlt := UInt32.lt_iff_toNat_lt.mp (UInt32.not_le.mp hfull)
            omega
          obtain ⟨out', hout, hrun⟩ := ih (some p) n (out ++ [p]) hrest (by omega) (by omega)
          refine ⟨out', ?_, by rw [if_neg fun h => hfull h.2, hrun]⟩
          obtain ⟨k, hk⟩ : ∃ k, sz.toNat - out.length = k + 1 := ⟨sz.toNat - out.length - 1, by omega⟩
          have hk' : sz.toNat - (out ++ [p]).length = k := by omega
          rw [hout, hk, hk', List.take_succ_cons, List.append_assoc]
          rfl
      · obtain ⟨out', hout, hrun⟩ := ih (some p) n out hrest (by omega) hroom
        have hnot : ¬sz ≤ UInt32.ofNat out.length := by
          rw [UInt32.not_le, UInt32.lt_iff_toNat_lt, UInt32.toNat_ofNat', Nat.mod_eq_of_lt (by omega)]
          exact hroom
        have hstore : ¬((s.devs p).enabled = true ∧ true = true) := fun h => hon h.1
        refine ⟨out', by rw [if_neg fun h => hon h.2]; exact hout, ?_⟩
        rw [if_neg htype, if_neg hon, if_neg hstore, if_neg fun h => hnot h.2, hrun]

/-- What an enumeration of a list returns and stores, with an array and without. -/
theorem devGetDevices_eq {fuel : Nat} {l : List Ptr} (hlist : Chain s.next none (l.map some))
    (hfuel : l.length < fuel) (sz : UInt32) :
    (devGetDevices fuel false typ (some sz) s = some
      (if UInt32.ofNat (s.matching typ l).length = 0 then clDeviceNotFound else clSuccess, [],
        some (UInt32.ofNat (s.matching typ l).length))) ∧
    (sz ≠ 0 → devGetDevices fuel true typ (some sz) s = some
      (if s.matching typ l = [] then clDeviceNotFound else clSuccess, (s.matching typ l).take sz.toNat,
        some (UInt32.ofNat (min sz.toNat (s.matching typ l).length)))) := by
  constructor
  · have hloop := getDevicesLoop_count typ sz l none fuel 0 hlist hfuel
    rw [UInt32.zero_add] at hloop
    rw [devGetDevices, hloop]
    rfl
  · intro hsz
    have hpos : 0 < sz.toNat := Nat.pos_of_ne_zero fun h => hsz (UInt32.toNat_inj.mp h)
    have hlt := sz.toNat_lt
    obtain ⟨out, hout, hloop⟩ := getDevicesLoop_store typ sz l none fuel [] hlist hfuel hpos
    rw [List.nil_append, List.length_nil, Nat.sub_zero] at hout
    have hlen : out.length = min sz.toNat (s.matching typ l).length := by rw [hout, List.length_take]
    have hnone : UInt32.ofNat out.length = 0 ↔ s.matching typ l = [] := by
      rw [← UInt32.toNat_inj, UInt32.toNat_ofNat', Nat.mod_eq_of_lt (by omega), hlen, ← List.length_eq_zero_iff]
      show min sz.toNat _ = 0 ↔ _
      omega
    rw [devGetDevices]
    show (getDevicesLoop true typ sz s fuel none [] (UInt32.ofNat ([] : List Ptr).length)).bind _ = _
    rw [hloop, Option.bind_some, hlen, ← hout]
    rw [hlen] at hnone
    simp only [hnone]
    rfl

end Filter

/-! ## Starting the drivers -/

section Start

variable (platform : Ptr)

/-- What the drivers that were not started yet return, one after the other. -/
def startCodes : List DevGroup → Registry → List ClInt
  | [], _ => []
  | grp :: grps, s =>
    if grp.inited then startCodes grps s
    else match grp.init with
      | none => startCodes grps s
      | some init => (init platform s).1 :: startCodes grps (init platform s).2

/-- The code of the last one that failed, if any did. -/
def lastFailure (rs : List ClInt) : Option ClInt := (rs.filter (· ≠ clSuccess)).getLast?

theorem lastFailure_cons (r : ClInt) (rs : List ClInt) (res : ClInt) :
    (lastFailure (r :: rs)).getD res = (lastFailure rs).getD (if r ≠ clSuccess then r else res) := by
  unfold lastFailure
  by_cases hr : r = clSuccess
  · simp [hr]
  · rw [List.filter_cons, if_pos (by simpa using hr), List.getLast?_cons, if_pos hr]
    cases (rs.filter (· ≠ clSuccess)).getLast? <;> rfl

/-- The loop returns the code of the last driver that failed, and starts none twice. -/
theorem devInitLoop_eq (grps : List DevGroup) : ∀ (res : ClInt) (s : Registry),
    (devInitLoop platform grps res s).1 = (lastFailure (startCodes platform grps s)).getD res ∧
      ∀ grp ∈ (devInitLoop platform grps res s).2.1, grp.inited = true := by
  induction grps with
  | nil => exact fun res s => ⟨rfl, by simp [devInitLoop]⟩
  | cons grp grps ih =>
    intro res s
    rw [devInitLoop, startCodes]
    by_cases hinited : grp.inited = true
    · rw [if_pos hinited, if_pos hinited]
      obtain ⟨hret, hall⟩ := ih res s
      refine ⟨hret, fun g hg => ?_⟩
      rcases List.mem_cons.mp hg with rfl | hg
      · exact hinited
      · exact hall g hg
    · rw [if_neg hinited, if_neg hinited]
      have hmark (init : Option (Ptr → Registry → ClInt × Registry)) (res : ClInt) (s : Registry) :
          ∀ g ∈ ⟨init, true⟩ :: (devInitLoop platform grps res s).2.1, g.inited = true := by
        intro g hg
        rcases List.mem_cons.mp hg with rfl | hg
        · rfl
        · exact (ih res s).2 g hg
      cases hinit : grp.init with
      | none =>
        rw [DevGroup.start, hinit]
        exact ⟨(ih res s).1, hmark none res s⟩
      | some init =>
        rw [DevGroup.start, hinit]
        refine ⟨?_, hmark (some init) _ _⟩
        exact ((ih _ _).1).trans (lastFailure_cons ..).symm

theorem devInitLoop_again (grps : List DevGroup) (hinited : ∀ grp ∈ grps, grp.inited = true) (res : ClInt)
    (s : Registry) : devInitLoop platform grps res s = (res, grps, s) := by
  induction grps with
  | nil => rfl
  | cons grp grps ih =>
    rw [devInitLoop, if_pos (hinited grp (List.mem_cons_self ..)),
      ih fun g hg => hinited g (List.mem_cons_of_mem _ hg)]

/-- Another `dev_init` has nothing to do, whatever the first one returned. -/
theorem devInit_again (st : Discovery) :
    devInit platform (devInit platform st).2 = (clSuccess, (devInit platform st).2) := by
  have hagain := devInitLoop_again platform (devInit platform st).2.groups
    (devInitLoop_eq platform st.groups clSuccess st.registry).2 clSuccess (devInit platform st).2.registry
  rw [devInit, hagain]

end Start

/-! ## The count -/

section Enumerate

variable {platform : Ptr} {typ : UInt64} {fuel : Nat} {st : Discovery}

/-- The call is refused before the drivers are started. -/
def RefusedEarly (st : Discovery) (platform : Ptr) (numEntries : UInt32) (devices numDevices : Bool) : Prop :=
  st.platIsValid platform ≠ clSuccess ∨ devices = true ∧ numEntries = 0 ∨
    devices = false ∧ numDevices = false

instance (numEntries : UInt32) (devices numDevices : Bool) :
    Decidable (RefusedEarly st platform numEntries devices numDevices) := inferInstanceAs (Decidable (_ ∨ _))

theorem inClGetDeviceIDs_refused (fuel : Nat) (typ : UInt64) {numEntries : UInt32} {devices numDevices : Bool}
    (h : RefusedEarly st platform numEntries devices numDevices) :
    ∃ out, inClGetDeviceIDs platform fuel typ numEntries devices numDevices st = some (out, st) := by
  unfold inClGetDeviceIDs
  split
  · exact ⟨_, rfl⟩
  next hplat =>
    split
    · exact ⟨_, rfl⟩
    next hnum =>
      exact ⟨_, if_pos ((h.resolve_left hplat).resolve_left hnum)⟩

/-- What comes behind the start of the drivers: the list is counted and copied out. -/
def enumerate (fuel : Nat) (typ : UInt64) (numEntries : UInt32) (devices numDevices : Bool) (s : Registry) :
    Option DeviceIDs :=
  (devGetDevices fuel devices typ (some numEntries) s).map fun (r, out, num) =>
    ⟨r, out, if r ≠ clSuccess ∨ numDevices = false then none else num⟩

theorem inClGetDeviceIDs_started {numEntries : UInt32} {devices numDevices : Bool}
    (h : ¬RefusedEarly st platform numEntries devices numDevices) :
    inClGetDeviceIDs platform fuel typ numEntries devices numDevices st =
      if (devInit platform st).1 ≠ clSuccess then
        some (⟨(devInit platform st).1, [], none⟩, (devInit platform st).2)
      else (enumerate fuel typ numEntries devices numDevices (devInit platform st).2.registry).map
        (·, (devInit platform st).2) := by
  obtain ⟨hplat, hrest⟩ := not_or.mp h
  obtain ⟨hnum, hnull⟩ := not_or.mp hrest
  rw [inClGetDeviceIDs, if_neg hplat, if_neg hnum, if_neg hnull]
  rcases devInit platform st with ⟨res, st'⟩
  dsimp only
  by_cases hres : res ≠ clSuccess
  · rw [if_pos hres, if_pos hres]
  · rw [if_neg hres, if_neg hres, enumerate]
    cases devGetDevices fuel devices typ (some numEntries) st'.registry with
    | none => rfl
    | some x =>
      obtain ⟨r, out, num⟩ := x
      by_cases hr : r = clSuccess
      · cases numDevices <;> simp [hr]
      · simp [hr]

theorem clDeviceNotFound_ne : clDeviceNotFound ≠ clSuccess := by decide

theorem enumerate_count {s : Registry} {l : List Ptr} (hlist : Chain s.next none (l.map some))
    (hfuel : l.length < fuel) (sz : UInt32) : enumerate fuel typ sz false true s =
      some (if UInt32.ofNat (s.matching typ l).length = 0 then ⟨clDeviceNotFound, [], none⟩
        else ⟨clSuccess, [], some (UInt32.ofNat (s.matching typ l).length)⟩) := by
  rw [enumerate, (devGetDevices_eq typ hlist hfuel sz).1]
  by_cases hnone : UInt32.ofNat (s.matching typ l).length = 0
  · simp [hnone, clDeviceNotFound_ne]
  · simp [hnone]

theorem enumerate_store {s : Registry} {l : List Ptr} (hlist : Chain s.next none (l.map some))
    (hfuel : l.length < fuel) {sz : UInt32} (hsz : sz ≠ 0) (numDevices : Bool) :
    enumerate fuel typ sz true numDevices s =
      some (if s.matching typ l = [] then ⟨clDeviceNotFound, [], none⟩
        else ⟨clSuccess, (s.matching typ l).take sz.toNat,
          if numDevices then some (UInt32.ofNat (min sz.toNat (s.matching typ l).length)) else none⟩) := by
  rw [enumerate, (devGetDevices_eq typ hlist hfuel sz).2 hsz]
  by_cases hnone : s.matching typ l = []
  · simp [hnone, clDeviceNotFound_ne]
  · cases numDevices <;> simp [hnone]

/-- What a call with room for `numEntries` devices makes of the enabled devices of matching type, and what
the call without an array makes of them.  The first devices are stored, as many as there is room for; and
where the caller gives a place for the number, the call succeeds and stores the number of all of them
there, and so does the call without an array. -/
structure ConsistentFilter (matching : List Ptr) (numEntries : UInt32) (numDevices : Bool)
    (r count : DeviceIDs) : Prop where
  devices : r.devices = matching.take (min numEntries.toNat matching.length)
  num : numDevices = true →
    r.ret = clSuccess ∧ ∃ n, r.numDevices = some n ∧ n.toNat = matching.length
  same : numDevices = true → count.ret = clSuccess ∧ count.numDevices = r.numDevices

end Enumerate

/-- **When enumerating is a consistent filter.** With room for an entry or more, the right devices are stored
in any case.  Where the caller asks for their number it is stored exactly when there are some and there is
room for all of them: without any the call ends in `CL_DEVICE_NOT_FOUND`, and with less room the number is
that of the entries. -/
theorem inClGetDeviceIDs_filter_iff (fuel : Nat) (platform : Ptr) (typ : UInt64) (numEntries : UInt32)
    (hentries : numEntries ≠ 0) (numDevices : Bool) (numEntries' : UInt32) (st : Discovery)
    (hplat : st.platIsValid platform = clSuccess) (hinit : (devInit platform st).1 = clSuccess)
    (l : List Ptr) (hlist : Chain (devInit platform st).2.registry.next none (l.map some))
    (hfuel : l.length < fuel) :
    ∃ r count, inClGetDeviceIDs platform fuel typ numEntries true numDevices st =
        some (r, (devInit platform st).2) ∧
      inClGetDeviceIDs platform fuel typ numEntries' false true st = some (count, (devInit platform st).2) ∧
      (ConsistentFilter ((devInit platform st).2.registry.matching typ l) numEntries numDevices r count ↔
        numDevices = false ∨ (devInit platform st).2.registry.matching typ l ≠ [] ∧
          ((devInit platform st).2.registry.matching typ l).length ≤ numEntries.toNat) := by
  have hstarted : ¬RefusedEarly st platform numEntries true numDevices := by
    simp [RefusedEarly, hplat, hentries]
  have hstarted' : ¬RefusedEarly st platform numEntries' false true := by simp [RefusedEarly, hplat]
  have hok : ¬(devInit platform st).1 ≠ clSuccess := not_not.mpr hinit
  rw [inClGetDeviceIDs_started hstarted, inClGetDeviceIDs_started hstarted', if_neg hok, if_neg hok,
    enumerate_store hlist hfuel hentries, enumerate_count hlist hfuel]
  refine ⟨_, _, rfl, rfl, ?_⟩
  generalize (devInit platform st).2.registry.matching typ l = matching
  have hlt := numEntries.toNat_lt
  cases numDevices with
  | false =>
    refine iff_of_true ⟨?_, fun h => (by cases h), fun h => (by cases h)⟩ (Or.inl rfl)
    by_cases hnone : matching = []
    · rw [if_pos hnone, hnone, List.take_nil]
    · rw [if_neg hnone]
      exact List.take_eq_take_min
  | true =>
    rw [or_iff_right (by decide)]
    by_cases hnone : matching = []
    · -- there is none, and no number is stored
      refine iff_of_false (fun h => ?_) (fun h => h.1 hnone)
      obtain ⟨hret, -⟩ := h.num rfl
      rw [if_pos hnone] at hret
      exact clDeviceNotFound_ne hret
    · have hpos : 0 < matching.length := List.length_pos_iff.mpr hnone
      rw [if_neg hnone]
      constructor
      · intro h
        obtain ⟨-, n, hn, hall⟩ := h.num rfl
        obtain rfl := Option.some.inj hn
        rw [UInt32.toNat_ofNat', Nat.mod_eq_of_lt (by omega)] at hall
        exact ⟨hnone, by omega⟩
      · rintro ⟨-, hle⟩
        have hto : (UInt32.ofNat matching.length).toNat = matching.length := by
          rw [UInt32.toNat_ofNat', Nat.mod_eq_of_lt (by omega)]
        have hcount : UInt32.ofNat matching.length ≠ 0 := by
          intro hzero
          rw [hzero] at hto
          exact Nat.ne_of_lt hpos hto
        refine ⟨List.take_eq_take_min, fun _ => ⟨rfl, _, rfl, ?_⟩, fun _ => ?_⟩
        · rw [Nat.min_eq_right hle, hto]
        · rw [if_neg hcount, if_pos rfl, Nat.min_eq_right hle]
          exact ⟨rfl, rfl⟩

/-! ### Two devices -/

/-- Two devices in the list, an accelerator and a processor that both are enabled. -/
def twoListed : Registry where
  headNext := 1
  devs p := ⟨openclIcdMagic, none, if p = 1 then 8 else 10, true, if p = 1 then 2 else 0⟩
  devNum := 2

/-- Two devices are listed, and no driver is left to be started. -/
def twoKnown : Discovery := ⟨[⟨none, true⟩], twoListed, fun _ => openclIcdMagic⟩

theorem chain_twoListed : Chain twoListed.next none ([1, 2].map some) :=
  ⟨some 2, .cons rfl (.cons rfl (.nil _)), rfl⟩

/-- There are two and there is room for two, so that enumerating them is a consistent filter. -/
theorem roomForTwo : ∃ r count, inClGetDeviceIDs 0x10 3 8 2 true true twoKnown = some (r, twoKnown) ∧
    inClGetDeviceIDs 0x10 3 8 0 false true twoKnown = some (count, twoKnown) ∧
    ConsistentFilter (twoListed.matching 8 [1, 2]) 2 true r count := by
  obtain ⟨r, count, hcall, hcount, hiff⟩ := inClGetDeviceIDs_filter_iff 3 0x10 8 2 (by decide) true 0
    twoKnown rfl rfl [1, 2] chain_twoListed (by decide)
  exact ⟨r, count, hcall, hcount, hiff.mpr (Or.inr ⟨by decide, by decide⟩)⟩

/-- With room for one the number is one, and without an array it is two. -/
theorem roomForOne : ∃ r count, inClGetDeviceIDs 0x10 3 8 1 true true twoKnown = some (r, twoKnown) ∧
    inClGetDeviceIDs 0x10 3 8 0 false true twoKnown = some (count, twoKnown) ∧
    ¬ConsistentFilter (twoListed.matching 8 [1, 2]) 1 true r count := by
  refine ⟨⟨clSuccess, [1], some 1⟩, ⟨clSuccess, [], some 2⟩, rfl, rfl, fun h => ?_⟩
  obtain ⟨-, hsame⟩ := h.same rfl
  exact absurd hsame (by decide)

/-! ## The next call -/

/-- Nothing is listed that an enumeration finds; without an array it goes by a count of 32 bits. -/
def NoneListed (devices : Bool) (matching : List Ptr) : Prop :=
  if devices then matching = [] else UInt32.ofNat matching.length = 0

section Again

variable {platform : Ptr} (typ : UInt64) {fuel : Nat} {st : Discovery} {numEntries : UInt32}
  {devices numDevices : Bool}

/-- What an enumeration ends with. -/
theorem enumerate_ret {l : List Ptr} {s : Registry} (hlist : Chain s.next none (l.map some))
    (hfuel : l.length < fuel) (h : ¬RefusedEarly st platform numEntries devices numDevices) :
    ∃ r, enumerate fuel typ numEntries devices numDevices s = some r ∧
      (NoneListed devices (s.matching typ l) → r = ⟨clDeviceNotFound, [], none⟩) ∧
      (¬NoneListed devices (s.matching typ l) → r.ret = clSuccess) := by
  obtain ⟨hnum, hnull⟩ := not_or.mp (not_or.mp h).2
  cases devices with
  | true =>
    refine ⟨_, enumerate_store hlist hfuel (fun hzero => hnum ⟨rfl, hzero⟩) numDevices, fun hnone => ?_,
      fun hsome => ?_⟩
    · exact if_pos hnone
    · replace hsome : s.matching typ l ≠ [] := hsome
      rw [if_neg hsome]
  | false =>
    have hthere : numDevices = true := by simpa using hnull
    subst hthere
    refine ⟨_, enumerate_count hlist hfuel numEntries, fun hnone => ?_, fun hsome => ?_⟩
    · exact if_pos hnone
    · replace hsome : UInt32.ofNat (s.matching typ l).length ≠ 0 := hsome
      rw [if_neg hsome]

theorem refusedEarly_again : RefusedEarly (devInit platform st).2 platform numEntries devices numDevices ↔
    RefusedEarly st platform numEntries devices numDevices := Iff.rfl

theorem lastFailure_ne {rs : List ClInt} {r : ClInt} (h : lastFailure rs = some r) : r ≠ clSuccess := by
  have hmem := List.mem_of_getLast? h
  simpa using (List.mem_filter.mp hmem).2

end Again

/-- **When the next call says the same.** It does exactly if the call is refused, or none of the drivers that
it starts fails, or the last one to fail returns just what the next call does, which finds no device. -/
theorem inClGetDeviceIDs_repeat_iff (fuel : Nat) (platform : Ptr) (typ : UInt64) (numEntries : UInt32)
    (devices numDevices : Bool) (st : Discovery) (l : List Ptr)
    (hlist : Chain (devInit platform st).2.registry.next none (l.map some)) (hfuel : l.length < fuel) :
    ∃ r₁ st₁ r₂ st₂, inClGetDeviceIDs platform fuel typ numEntries devices numDevices st = some (r₁, st₁) ∧
      inClGetDeviceIDs platform fuel typ numEntries devices numDevices st₁ = some (r₂, st₂) ∧
      (r₁ = r₂ ↔ RefusedEarly st platform numEntries devices numDevices ∨
        lastFailure (startCodes platform st.groups st.registry) = none ∨
        lastFailure (startCodes platform st.groups st.registry) = some clDeviceNotFound ∧
          NoneListed devices ((devInit platform st).2.registry.matching typ l)) := by
  by_cases hrefused : RefusedEarly st platform numEntries devices numDevices
  · obtain ⟨r, hcall⟩ := inClGetDeviceIDs_refused fuel typ hrefused
    exact ⟨r, st, r, st, hcall, hcall, iff_of_true rfl (Or.inl hrefused)⟩
  · have hcode : (devInit platform st).1 =
        (lastFailure (startCodes platform st.groups st.registry)).getD clSuccess :=
      (devInitLoop_eq platform st.groups clSuccess st.registry).1
    obtain ⟨r, henum, hnone, hsome⟩ := enumerate_ret typ hlist hfuel hrefused
    -- the second call starts no driver
    have hsecond : inClGetDeviceIDs platform fuel typ numEntries devices numDevices (devInit platform st).2 =
        some (r, (devInit platform st).2) := by
      rw [inClGetDeviceIDs_started (mt refusedEarly_again.mp hrefused), devInit_again,
        if_neg (not_not.mpr rfl), henum]
      rfl
    rw [inClGetDeviceIDs_started hrefused]
    cases hlast : lastFailure (startCodes platform st.groups st.registry) with
    | none =>
      rw [hlast, Option.getD_none] at hcode
      have hok : ¬(devInit platform st).1 ≠ clSuccess := not_not.mpr hcode
      rw [if_neg hok, henum]
      exact ⟨r, _, r, _, rfl, hsecond, iff_of_true rfl (Or.inr (Or.inl rfl))⟩
    | some res =>
      rw [hlast, Option.getD_some] at hcode
      have hne : (devInit platform st).1 ≠ clSuccess := by
        rw [hcode]
        exact lastFailure_ne hlast
      rw [if_pos hne]
      refine ⟨_, _, r, _, rfl, hsecond, ?_⟩
      rw [hcode]
      constructor
      · intro h
        right
        right
        by_cases hlisted : NoneListed devices ((devInit platform st).2.registry.matching typ l)
        · rw [hnone hlisted] at h
          exact ⟨congrArg some (congrArg DeviceIDs.ret h), hlisted⟩
        · have hret := congrArg DeviceIDs.ret h
          rw [hsome hlisted] at hret
          exact absurd hret (lastFailure_ne hlast)
      · rintro (h | h | ⟨h, hlisted⟩)
        · exact absurd h hrefused
        · cases h
        · rw [hnone hlisted, Option.some.inj h]

/-! ### A driver that fails -/

/-- One driver that fails, beside a device that is listed. -/
def failing : Discovery :=
  ⟨[⟨some fun _ s => (clOutOfHostMemory, s), false⟩], twoListed, fun _ => openclIcdMagic⟩

/-- The same with a driver that is left to be started, and does not fail. -/
def starting : Discovery := { failing with groups := [⟨some fun _ s => (clSuccess, s), false⟩] }

/-- Its driver starts, so that a second call says what the first one says. -/
theorem starting_repeats : ∃ r₁ st₁ r₂ st₂,
    inClGetDeviceIDs 0x10 3 8 1 true false starting = some (r₁, st₁) ∧
    inClGetDeviceIDs 0x10 3 8 1 true false st₁ = some (r₂, st₂) ∧ r₁ = r₂ := by
  obtain ⟨r₁, st₁, r₂, st₂, hfirst, hsecond, hiff⟩ :=
    inClGetDeviceIDs_repeat_iff 3 0x10 8 1 true false starting [1, 2] chain_twoListed (by decide)
  exact ⟨r₁, st₁, r₂, st₂, hfirst, hsecond, hiff.mpr (Or.inr (Or.inl rfl))⟩

/-- The first call fails, and the second one finds a device. -/
theorem failing_differs : ∃ r₁ st₁ r₂ st₂,
    inClGetDeviceIDs 0x10 3 8 1 true false failing = some (r₁, st₁) ∧
    inClGetDeviceIDs 0x10 3 8 1 true false st₁ = some (r₂, st₂) ∧ r₁ ≠ r₂ :=
  ⟨⟨clOutOfHostMemory, [], none⟩, _, ⟨clSuccess, [1], none⟩, _, rfl, rfl, by decide⟩

end BaremetalCrt
