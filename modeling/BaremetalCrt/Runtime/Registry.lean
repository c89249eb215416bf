/-
# BaremetalCrt.Runtime.Registry — the list of devices (`drivers/device.c`).

The list is intrusive: `dev_next` is a field of the device, which `dev_add` does not touch and
`dev_remove` leaves as it is.  So a device that is added again brings with it what was behind it when it
was removed, and the list stays what it should be just when nothing was (`devRegistry_iff`).

A node of the list is a device, or `in_head` (`none`).  A loop along the list that does not end within
its fuel has no result.

`Roll` is what the list should be: the devices that were added and not removed since, in the order in which
they were added, and what the others were left with in their link. `Tracks` is the invariant that ties the
state to it, kept by every call that returns (`added_inOrder_iff`, `Tracks.remove`); the condition of
`devRegistry_iff` is on the sequence of calls alone.
-/
import BaremetalCrt.Lib.Chain
import BaremetalCrt.Runtime.Objects
import Mathlib.Data.List.Induction

namespace BaremetalCrt

open Lib

/-! ## The list -/

/-- Which of the two operations of a driver that the list calls are there. -/
structure DevHooks where
  probe : Bool
  remove : Bool

/-- `struct _cl_device_id`, as the list sees it: its fields, and the link to the next one. -/
structure DevNode where
  magic : UInt32
  ops : Option DevHooks
  devType : UInt64
  enabled : Bool
  devNext : Ptr

/-- `in_head.dev_next`, the devices, and `in_dev_num`. -/
structure Registry where
  headNext : Ptr
  devs : Ptr → DevNode
  devNum : Int32

namespace Registry

/-- `d->dev_next`, where `d` is the head of the list or one of its devices. -/
def devNext (s : Registry) : Option Ptr → Ptr
  | none => s.headNext
  | some p => (s.devs p).devNext

/-- `d->dev_next = p`, where `d` is the head of the list or one of its devices. -/
def setDevNext (s : Registry) (d : Option Ptr) (p : Ptr) : Registry :=
  match d with
  | none => { s with headNext := p }
  | some q => { s with devs := Function.update s.devs q { s.devs q with devNext := p } }

/-- `dev->enabled = v`; the links are as before. -/
def setEnabled (s : Registry) (dev : Ptr) (v : Bool) : Registry :=
  { s with devs := Function.update s.devs dev { s.devs dev with enabled := v } }

/-- `in_dev_num += n`, for a step of one up or down. -/
def addDevNum (s : Registry) (n : Int32) : Registry := { s with devNum := s.devNum + n }

/-- `dev_is_valid`: the handle is not NULL and its object has the magic number of the library. -/
def devIsValid (s : Registry) (dev : Ptr) : ClInt := isValid clInvalidDevice dev (s.devs dev).magic

/-- Where the loop of `dev_add` and `dev_remove` ends: behind a node it finds the device, or the node is
the last. -/
inductive WalkEnd where
  | found (prev : Option Ptr)
  | last (d : Option Ptr)
  deriving DecidableEq, Repr

/-- `while (d->dev_next != NULL)`, from `d` on: up to the device that links to `dev`, or to the last one. -/
def walk (s : Registry) (dev : Ptr) : Nat → Option Ptr → Option WalkEnd
  | 0, _ => none
  | n + 1, d =>
    if s.devNext d = 0 then some (.last d)
    else if s.devNext d = dev then some (.found d)
    else walk s dev n (some (s.devNext d))

end Registry

section Calls

variable (fuel : Nat) (dev : Ptr)

/-- `dev_add`, when `ops->probe` returns `probe`: the device is linked behind the last one, if it is in no
list yet. -/
def devAdd (probe : ClInt) (s : Registry) : Option (ClInt × Registry) :=
  if s.devIsValid dev ≠ clSuccess then some (s.devIsValid dev, s)
  else match s.walk dev fuel none with
    | none => none
    | some (.found _) => some (clInvalidValue, s)
    | some (.last d) =>
      let s := s.setEnabled dev true
      let s := if (s.devs dev).ops.any (·.probe) ∧ probe ≠ clSuccess then s.setEnabled dev false else s
      some (clSuccess, (s.setDevNext d dev).addDevNum 1)

/-- `dev_remove`, when `ops->remove` returns `remove`. -/
def devRemove (remove : ClInt) (s : Registry) : Option (ClInt × Registry) :=
  if s.devIsValid dev ≠ clSuccess then some (s.devIsValid dev, s)
  else match s.walk dev fuel none with
    | none => none
    | some (.last _) => some (clInvalidValue, s)
    | some (.found prev) =>
      let res := if (s.devs dev).ops.any (·.remove) then remove else clSuccess
      let s := s.setEnabled dev false
      -- the link of the device itself stays
      some (res, (s.setDevNext prev (s.devNext (some dev))).addDevNum (-1))

end Calls

/-- The loop of `dev_get_devices`, from `dev` on: what was stored at `pdev`, and `cnt`. -/
def getDevicesLoop (pdev : Bool) (typ : UInt64) (sz : UInt32) (s : Registry) :
    Nat → Option Ptr → List Ptr → UInt32 → Option (List Ptr × UInt32)
  | 0, _, _, _ => none
  | n + 1, dev, out, cnt =>
    if s.devNext dev = 0 then some (out, cnt)
    else
      let dev := s.devNext dev
      -- a device of another type is passed over before the room is looked at
      if (s.devs dev).devType &&& typ = 0 then getDevicesLoop pdev typ sz s n (some dev) out cnt
      else
        let hit := (s.devs dev).enabled
        let out := if hit ∧ pdev then out ++ [dev] else out
        let cnt := if hit then cnt + 1 else cnt
        if pdev ∧ sz ≤ cnt then some (out, cnt)
        else getDevicesLoop pdev typ sz s n (some dev) out cnt

/-- `dev_get_devices`: the code, what was stored at `pdev`, and `*sz`.  `pdev` says whether it is there,
and `sz` is what it points to. -/
def devGetDevices (fuel : Nat) (pdev : Bool) (typ : UInt64) (sz : Option UInt32) (s : Registry) :
    Option (ClInt × List Ptr × Option UInt32) :=
  match sz with
  | none => some (clInvalidValue, [], none)
  | some sz => do
    let (out, cnt) ← getDevicesLoop pdev typ sz s fuel none [] 0
    return (if cnt = 0 then clDeviceNotFound else clSuccess, out, some cnt)

/-- A call, with what the driver's operation returns. -/
inductive RegistryCall where
  | add (dev : Ptr) (ret : ClInt)
  | remove (dev : Ptr) (ret : ClInt)
  deriving DecidableEq, Repr

/-- The device that is added or removed by a call. -/
def RegistryCall.dev : RegistryCall → Ptr
  | .add dev _ => dev
  | .remove dev _ => dev

/-- The call: a code and the list behind it, or none where it has no end. -/
def RegistryCall.run (fuel : Nat) : RegistryCall → Registry → Option (ClInt × Registry)
  | .add dev ret => devAdd fuel dev ret
  | .remove dev ret => devRemove fuel dev ret

/-- The state behind a sequence of calls; none if a walk does not come back. -/
def callAll (fuel : Nat) (calls : List RegistryCall) (s : Registry) : Option Registry :=
  calls.foldlM (fun s c => (c.run fuel s).map Prod.snd) s

/-! ## The list as it should be -/

/-- The devices that are in the list, in order, and what the others were left with in `dev_next`. -/
structure Roll where
  list : List Ptr
  left : Ptr → Ptr

/-- A device goes to the end when it is added, unless it is there; when it is removed, what was behind
it is left in it. -/
def Roll.call (h : Roll) : RegistryCall → Roll
  | .add dev _ => if dev ∈ h.list then h else { h with list := h.list ++ [dev] }
  | .remove dev _ =>
    if dev ∈ h.list then
      ⟨h.list.erase dev, Function.update h.left dev ((h.list.dropWhile (· ≠ dev)).tail.headD 0)⟩
    else h

/-- What is tracked of a run of calls, from the empty list on. -/
def roll (calls : List RegistryCall) : Roll := calls.foldl Roll.call ⟨[], fun _ => 0⟩

theorem roll_snoc (calls : List RegistryCall) (c : RegistryCall) :
    roll (calls ++ [c]) = (roll calls).call c := by
  rw [roll, List.foldl_append]
  rfl

theorem length_roll_le (calls : List RegistryCall) : (roll calls).list.length ≤ calls.length := by
  induction calls using List.reverseRecOn with
  | nil => exact Nat.le_refl 0
  | append_singleton calls c ih =>
    rw [roll_snoc, List.length_append, List.length_singleton]
    cases c with
    | add dev ret =>
      rw [Roll.call]
      split
      · omega
      · rw [List.length_append, List.length_singleton]
        omega
    | remove dev ret =>
      rw [Roll.call]
      split
      · have herase := List.length_erase_le (a := dev) (l := (roll calls).list)
        show ((roll calls).list.erase dev).length ≤ _
        omega
      · omega

namespace Registry

/-- The links of the list, as a chain has them. -/
def next (s : Registry) (d : Option Ptr) : Option (Option Ptr) :=
  if s.devNext d = 0 then none else some (some (s.devNext d))

/-- The chain from `in_head` ends and has just these devices in this order, each once, and the count is
theirs. -/
structure InOrder (s : Registry) (l : List Ptr) : Prop where
  chain : Chain s.next none (l.map some)
  nodup : l.Nodup
  num : s.devNum.toInt = l.length

/-- Nothing was added yet, and no device has a link (`calloc`). -/
structure Fresh (s : Registry) : Prop where
  head : s.headNext = 0
  num : s.devNum = 0
  devs : ∀ p, s.devIsValid p = clSuccess → (s.devs p).devNext = 0

/-! ### What the updates do to the links -/

variable (s : Registry)

@[simp] theorem next_setEnabled (dev : Ptr) (v : Bool) : (s.setEnabled dev v).next = s.next := by
  funext d
  have hdev : (s.setEnabled dev v).devNext d = s.devNext d := by
    cases d with
    | none => rfl
    | some p =>
      by_cases hp : p = dev
      · subst hp
        simp [devNext, setEnabled]
      · simp [devNext, setEnabled, hp]
  rw [next, hdev, next]

@[simp] theorem next_addDevNum (n : Int32) : (s.addDevNum n).next = s.next := rfl

@[simp] theorem devIsValid_addDevNum (n : Int32) : (s.addDevNum n).devIsValid = s.devIsValid := rfl

theorem devNext_setDevNext (d : Option Ptr) (p : Ptr) :
    (s.setDevNext d p).devNext = Function.update s.devNext d p := by
  funext x
  cases d with
  | none => cases x <;> simp [devNext, setDevNext]
  | some q =>
    cases x with
    | none => simp [devNext, setDevNext]
    | some x =>
      by_cases hx : x = q
      · subst hx
        simp [devNext, setDevNext]
      · simp [devNext, setDevNext, hx]

theorem next_setDevNext (d : Option Ptr) (p : Ptr) :
    (s.setDevNext d p).next = Function.update s.next d (if p = 0 then none else some (some p)) := by
  funext x
  rw [next, devNext_setDevNext]
  by_cases hx : x = d
  · subst hx
    simp
  · simp [hx, next]

theorem devIsValid_setDevNext (d : Option Ptr) (p : Ptr) :
    (s.setDevNext d p).devIsValid = s.devIsValid := by
  funext x
  cases d with
  | none => rfl
  | some q =>
    by_cases hx : x = q
    · subst hx
      simp [devIsValid, setDevNext]
    · simp [devIsValid, setDevNext, hx]

theorem devIsValid_setEnabled (dev : Ptr) (v : Bool) :
    (s.setEnabled dev v).devIsValid = s.devIsValid := by
  funext x
  by_cases hx : x = dev
  · subst hx
    simp [devIsValid, setEnabled]
  · simp [devIsValid, setEnabled, hx]

/-! ### The loop -/

variable {s} {dev : Ptr}

theorem next_eq_none_iff {d : Option Ptr} : s.next d = none ↔ s.devNext d = 0 := by
  unfold next
  split
  · next h => exact iff_of_true rfl h
  · next h => exact iff_of_false (by simp) h

theorem next_eq_some {d e : Option Ptr} (h : s.next d = some e) :
    s.devNext d ≠ 0 ∧ some (s.devNext d) = e := by
  unfold next at h
  split at h
  · cases h
  · next hd => exact ⟨hd, Option.some.inj h⟩

/-- A device that is not on the way is looked for to the end. -/
theorem walk_last {d b : Option Ptr} {m : List (Option Ptr)} (h : Walk s.next d m b)
    (hend : s.next b = none) (hdev : some dev ∉ m) {n : Nat} (hn : m.length < n) :
    s.walk dev n d = some (.last b) := by
  induction h generalizing n with
  | nil d =>
    obtain ⟨n, rfl⟩ : ∃ k, n = k + 1 := ⟨n - 1, by omega⟩
    rw [walk, if_pos (next_eq_none_iff.mp hend)]
  | cons link rest ih =>
    obtain ⟨n, rfl⟩ : ∃ k, n = k + 1 := ⟨n - 1, by omega⟩
    obtain ⟨hne, rfl⟩ := next_eq_some link
    rw [List.length_cons] at hn
    have hother : s.devNext _ ≠ dev := fun heq => hdev (heq ▸ List.mem_cons_self ..)
    rw [walk, if_neg hne, if_neg hother]
    exact ih hend (fun h => hdev (List.mem_cons_of_mem _ h)) (by omega)

/-- A device is found behind the node that has it as its link. -/
theorem walk_found {d b : Option Ptr} {m : List (Option Ptr)} (h : Walk s.next d m b)
    (hlink : s.next b = some (some dev)) (hdev : some dev ∉ m) {n : Nat} (hn : m.length < n) :
    s.walk dev n d = some (.found b) := by
  induction h generalizing n with
  | nil d =>
    obtain ⟨n, rfl⟩ : ∃ k, n = k + 1 := ⟨n - 1, by omega⟩
    obtain ⟨hne, heq⟩ := next_eq_some hlink
    rw [walk, if_neg hne, if_pos (Option.some.inj heq)]
  | cons link rest ih =>
    obtain ⟨n, rfl⟩ : ∃ k, n = k + 1 := ⟨n - 1, by omega⟩
    obtain ⟨hne, rfl⟩ := next_eq_some link
    rw [List.length_cons] at hn
    have hother : s.devNext _ ≠ dev := fun heq => hdev (heq ▸ List.mem_cons_self ..)
    rw [walk, if_neg hne, if_neg hother]
    exact ih hlink (fun h => hdev (List.mem_cons_of_mem _ h)) (by omega)

/-! ### One call -/

/-- The state behind the calls is the one that is tracked: the list is in order, and the links of the
valid devices outside it are what was left in them. -/
structure Tracks (s : Registry) (h : Roll) : Prop where
  inOrder : s.InOrder h.list
  left : ∀ d, s.devIsValid d = clSuccess → d ∉ h.list → s.devNext (some d) = h.left d

variable {fuel : Nat} {ret : ClInt} {h : Roll} {l : List Ptr}

theorem notMem_map_some (hdev : dev ∉ l) : some dev ∉ l.map some := fun h => by
  obtain ⟨d, hd, heq⟩ := List.mem_map.mp h
  exact hdev (Option.some.inj heq ▸ hd)

theorem nodup_none_cons (hl : l.Nodup) : (none :: l.map some).Nodup :=
  List.nodup_cons.mpr ⟨by simp, hl.map fun _ _ => Option.some.inj⟩

/-- A list that ends has no device twice. -/
theorem nodup_of_chain (h : Chain s.next none (l.map some)) : l.Nodup :=
  (List.nodup_cons.mp h.nodup).2.of_map

/-- What `dev_add` makes of a state, when it takes the device. -/
def added (s : Registry) (dev : Ptr) (ret : ClInt) (d : Option Ptr) : Registry :=
  let s := s.setEnabled dev true
  let s := if (s.devs dev).ops.any (·.probe) ∧ ret ≠ clSuccess then s.setEnabled dev false else s
  (s.setDevNext d dev).addDevNum 1

@[simp] theorem added_next (d : Option Ptr) : (s.added dev ret d).next =
    Function.update s.next d (if dev = 0 then none else some (some dev)) := by
  unfold added
  dsimp only
  split
  · rw [next_addDevNum, next_setDevNext, next_setEnabled, next_setEnabled]
  · rw [next_addDevNum, next_setDevNext, next_setEnabled]

@[simp] theorem added_devIsValid (d : Option Ptr) : (s.added dev ret d).devIsValid = s.devIsValid := by
  unfold added
  dsimp only
  split
  · exact (devIsValid_setDevNext ..).trans ((devIsValid_setEnabled ..).trans (devIsValid_setEnabled ..))
  · exact (devIsValid_setDevNext ..).trans (devIsValid_setEnabled ..)

@[simp] theorem added_devNum (d : Option Ptr) : (s.added dev ret d).devNum = s.devNum + 1 := by
  unfold added
  dsimp only
  cases d <;> split <;> rfl

/-- An update of a link changes nothing else. -/
theorem devs_setDevNext (d : Option Ptr) (q p : Ptr) :
    ∃ link, (s.setDevNext d q).devs p = { s.devs p with devNext := link } := by
  cases d with
  | none => exact ⟨_, rfl⟩
  | some x =>
    by_cases hp : p = x
    · subst hp
      exact ⟨q, Function.update_self ..⟩
    · exact ⟨_, Function.update_of_ne hp ..⟩

theorem devs_setEnabled_of_ne {p : Ptr} (hp : p ≠ dev) (v : Bool) : (s.setEnabled dev v).devs p = s.devs p :=
  Function.update_of_ne hp ..

theorem ops_setEnabled (p : Ptr) (v : Bool) : ((s.setEnabled dev v).devs p).ops = (s.devs p).ops := by
  by_cases hp : p = dev
  · subst hp
    simp [setEnabled]
  · rw [devs_setEnabled_of_ne hp]

theorem added_ops (d : Option Ptr) (p : Ptr) : ((s.added dev ret d).devs p).ops = (s.devs p).ops := by
  have hlink (s : Registry) : (((s.setDevNext d dev).addDevNum 1).devs p).ops = (s.devs p).ops := by
    obtain ⟨link, hlink⟩ := devs_setDevNext (s := s) d dev p
    show ((s.setDevNext d dev).devs p).ops = _
    rw [hlink]
  unfold added
  dsimp only
  split
  · rw [hlink, ops_setEnabled, ops_setEnabled]
  · rw [hlink, ops_setEnabled]

/-- The other devices are linked to it at most. -/
theorem added_devs (d : Option Ptr) {p : Ptr} (hp : p ≠ dev) :
    ∃ link, (s.added dev ret d).devs p = { s.devs p with devNext := link } := by
  have hlink (s : Registry) := devs_setDevNext (s := s) d dev p
  unfold added
  dsimp only
  split
  · obtain ⟨link, h⟩ := hlink ((s.setEnabled dev true).setEnabled dev false)
    exact ⟨link, h.trans (by rw [devs_setEnabled_of_ne hp, devs_setEnabled_of_ne hp])⟩
  · obtain ⟨link, h⟩ := hlink (s.setEnabled dev true)
    exact ⟨link, h.trans (by rw [devs_setEnabled_of_ne hp])⟩

/-- The links of the other nodes. -/
theorem devNext_eq_of_next {s s' : Registry} {d : Option Ptr} (h : s'.next d = s.next d) :
    s'.devNext d = s.devNext d := by
  unfold next at h
  split at h <;> split at h
  · next h₁ h₂ => rw [h₁, h₂]
  · cases h
  · cases h
  · exact Option.some.inj (Option.some.inj h)

/-- The count goes up by one as long as an `int` can. -/
theorem toInt_add_one_iff {n : Int32} {k : Nat} (h : n.toInt = k) :
    (n + 1).toInt = (k + 1 : Nat) ↔ k + 1 < 2 ^ 31 := by
  have hlt : n.toInt < 2 ^ 31 := Int32.toInt_lt n
  have hone : (1 : Int32).toInt = 1 := rfl
  have hadd : (n + 1).toInt = ((k : Int) + 1).bmod (2 ^ 32) := by rw [Int32.toInt_add, h, hone]
  have hbound : (n + 1).toInt < 2 ^ 31 := Int32.toInt_lt (n + 1)
  constructor
  · intro heq
    omega
  · intro hk
    rw [hadd, Int.bmod_eq_of_le (by omega) (by omega)]
    omega

/-- The count goes down by one. -/
theorem toInt_add_neg_one {n : Int32} {k : Nat} (h : n.toInt = (k + 1 : Nat)) :
    (n + -1).toInt = k := by
  have hlt : n.toInt < 2 ^ 31 := Int32.toInt_lt n
  have hone : (-1 : Int32).toInt = -1 := rfl
  rw [Int32.toInt_add, h, hone, Int.bmod_eq_of_le (by omega) (by omega)]
  omega

theorem ne_zero_of_devIsValid (hvalid : s.devIsValid dev = clSuccess) : dev ≠ 0 := by
  rintro rfl
  rw [devIsValid, isValid, if_pos rfl] at hvalid
  exact absurd hvalid (by decide)

/-- A device that is not in the list goes behind its last node. -/
theorem devAdd_eq (hvalid : s.devIsValid dev = clSuccess) (hdev : dev ∉ l) {d : Option Ptr}
    (hwalk : Walk s.next none (l.map some) d) (hend : s.next d = none) (hfuel : l.length < fuel) :
    devAdd fuel dev ret s = some (clSuccess, s.added dev ret d) := by
  have hfound := walk_last hwalk hend (notMem_map_some hdev) (n := fuel) (by rwa [List.length_map])
  rw [devAdd, if_neg (not_not.mpr hvalid), hfound]
  rfl

/-- It is the last one then just when nothing comes with it. -/
theorem added_chain_iff (ret : ClInt) (hne : dev ≠ 0) (hdev : dev ∉ l) (hnodup : l.Nodup) {d : Option Ptr}
    (hwalk : Walk s.next none (l.map some) d) :
    Chain (s.added dev ret d).next none ((l ++ [dev]).map some) ↔ s.devNext (some dev) = 0 := by
  have hnext : (s.added dev ret d).next = Function.update s.next d (some (some dev)) := by
    rw [added_next, if_neg hne]
  have hother : some dev ≠ d := by
    rintro rfl
    exact (List.mem_cons.mp hwalk.end_mem).elim (by simp) (notMem_map_some hdev)
  have hkeep : (s.added dev ret d).next (some dev) = s.next (some dev) := by
    rw [hnext, Function.update_of_ne hother]
  have hsplit : (l ++ [dev]).map some = l.map some ++ some dev :: [] := List.map_append
  rw [hnext, hwalk.link_iff (nodup_none_cons hnodup), hsplit, ← hnext]
  constructor
  · rintro ⟨r, hr, b, hrest, hend⟩
    obtain rfl : [] = r := (List.cons.inj (List.append_cancel_left hr)).2
    cases hrest
    rwa [hkeep, next_eq_none_iff] at hend
  · exact fun h => ⟨[], rfl, some dev, .nil _, by rw [hkeep, next_eq_none_iff, h]⟩

/-- **Adding.** The list is in order behind it just when nothing comes with the device. -/
theorem added_inOrder_iff (hvalid : s.devIsValid dev = clSuccess) (hdev : dev ∉ l) (hs : s.InOrder l)
    {d : Option Ptr} (hwalk : Walk s.next none (l.map some) d) :
    (s.added dev ret d).InOrder (l ++ [dev]) ↔ s.devNext (some dev) = 0 ∧ l.length + 1 < 2 ^ 31 := by
  have hchain := added_chain_iff ret (ne_zero_of_devIsValid hvalid) hdev hs.nodup hwalk
  have hnum : (s.added dev ret d).devNum.toInt = (l ++ [dev]).length ↔ l.length + 1 < 2 ^ 31 := by
    rw [added_devNum, List.length_append, List.length_singleton]
    exact toInt_add_one_iff hs.num
  constructor
  · exact fun h => ⟨hchain.mp h.chain, hnum.mp h.num⟩
  · rintro ⟨hleft, hlen⟩
    refine ⟨hchain.mpr hleft, ?_, hnum.mpr hlen⟩
    exact hs.nodup.append (List.nodup_singleton dev) (List.disjoint_singleton.mpr hdev)

/-- A step of `dev_add` that keeps the list in order is tracked. -/
theorem Tracks.add (hs : s.Tracks h) (ret : ClInt) (hvalid : s.devIsValid dev = clSuccess)
    (hdev : dev ∉ h.list) (hfuel : h.list.length < fuel) :
    ∃ s', devAdd fuel dev ret s = some (clSuccess, s') ∧ s'.devIsValid = s.devIsValid ∧
      (s'.InOrder (h.list ++ [dev]) ↔ h.left dev = 0 ∧ h.list.length + 1 < 2 ^ 31) ∧
      (s'.InOrder (h.list ++ [dev]) → s'.Tracks (h.call (.add dev ret))) := by
  obtain ⟨d, hwalk, hend⟩ := hs.inOrder.chain
  refine ⟨s.added dev ret d, devAdd_eq hvalid hdev hwalk hend hfuel, added_devIsValid d, ?_,
    fun horder => ?_⟩
  · rw [added_inOrder_iff hvalid hdev hs.inOrder hwalk, hs.left dev hvalid hdev]
  · have hcall : h.call (.add dev ret) = { h with list := h.list ++ [dev] } := if_neg hdev
    rw [hcall]
    refine ⟨horder, fun x hx hnot => ?_⟩
    rw [added_devIsValid] at hx
    have hout : x ∉ h.list := fun hmem => hnot (List.mem_append_left _ hmem)
    have hother : some x ≠ d := by
      rintro rfl
      exact (List.mem_cons.mp hwalk.end_mem).elim (by simp) (notMem_map_some hout)
    have hsame : (s.added dev ret d).next (some x) = s.next (some x) := by
      rw [added_next, Function.update_of_ne hother]
    exact (devNext_eq_of_next hsame).trans (hs.left x hx hout)

/-- What `dev_remove` makes of a state, when it finds the device behind `prev`. -/
def removed (s : Registry) (dev : Ptr) (prev : Option Ptr) : Registry :=
  ((s.setEnabled dev false).setDevNext prev ((s.setEnabled dev false).devNext (some dev))).addDevNum (-1)

theorem removed_next (prev : Option Ptr) :
    (s.removed dev prev).next = Function.update s.next prev (s.next (some dev)) := by
  have hdev : (s.setEnabled dev false).devNext (some dev) = s.devNext (some dev) :=
    devNext_eq_of_next (congrFun (next_setEnabled ..) _)
  rw [removed, next_addDevNum, next_setDevNext, next_setEnabled, hdev]
  rfl

theorem removed_devIsValid (prev : Option Ptr) : (s.removed dev prev).devIsValid = s.devIsValid := by
  rw [removed, devIsValid_addDevNum, devIsValid_setDevNext, devIsValid_setEnabled]

theorem removed_devNum (prev : Option Ptr) : (s.removed dev prev).devNum = s.devNum + -1 := by
  cases prev <;> rfl

theorem removed_devs (prev : Option Ptr) {p : Ptr} (hp : p ≠ dev) :
    ∃ link, (s.removed dev prev).devs p = { s.devs p with devNext := link } := by
  obtain ⟨link, h⟩ := devs_setDevNext (s := s.setEnabled dev false) prev
    ((s.setEnabled dev false).devNext (some dev)) p
  exact ⟨link, h.trans (by rw [devs_setEnabled_of_ne hp])⟩

/-- A device of the list is found. -/
theorem walk_listed (hlist : Chain s.next none (l.map some)) (hdev : dev ∈ l) (hfuel : l.length ≤ fuel) :
    ∃ prev, s.walk dev fuel none = some (.found prev) := by
  obtain ⟨l₁, l₂, rfl, hfirst⟩ := List.eq_append_cons_of_mem hdev
  obtain ⟨b, hwalk, hend⟩ := hlist
  rw [List.map_append, List.map_cons] at hwalk
  rw [List.length_append, List.length_cons] at hfuel
  obtain ⟨prev, hfront, hback⟩ := hwalk.split
  cases hback with
  | cons hlink hrest =>
    refine ⟨prev, walk_found hfront hlink (notMem_map_some hfirst) ?_⟩
    rw [List.length_map]
    omega

/-- A device of the list is found, and the node in front of it takes its link. -/
theorem devRemove_eq (ret : ClInt) (hvalid : s.devIsValid dev = clSuccess) {l₁ l₂ : List Ptr}
    (hlist : Chain s.next none ((l₁ ++ dev :: l₂).map some)) (hfuel : l₁.length < fuel) :
    ∃ r prev, devRemove fuel dev ret s = some (r, s.removed dev prev) ∧ prev ∈ none :: l₁.map some ∧
      Chain (s.removed dev prev).next none ((l₁ ++ l₂).map some) ∧ Chain s.next (some dev) (l₂.map some) := by
  have hsplit : (l₁ ++ dev :: l₂).map some = l₁.map some ++ some dev :: l₂.map some := by
    rw [List.map_append, List.map_cons]
  have hnodup := nodup_of_chain hlist
  have hfirst : dev ∉ l₁ := fun hmem =>
    List.disjoint_of_nodup_append hnodup hmem (List.mem_cons_self ..)
  obtain ⟨b, hwalk, hend⟩ := hlist
  rw [hsplit] at hwalk
  obtain ⟨prev, hfront, hback⟩ := hwalk.split
  cases hback with
  | cons hlink hrest =>
    have hrest' : Chain s.next (some dev) (l₂.map some) := ⟨b, hrest, hend⟩
    have hfound := walk_found hfront hlink (notMem_map_some hfirst) (n := fuel) (by rwa [List.length_map])
    have hnodup' : (none :: (l₁.map some ++ some dev :: l₂.map some)).Nodup := by
      rw [← hsplit]
      exact nodup_none_cons hnodup
    have hrun : ∃ r, devRemove fuel dev ret s = some (r, s.removed dev prev) := by
      rw [devRemove, if_neg (not_not.mpr hvalid), hfound]
      exact ⟨_, rfl⟩
    obtain ⟨r, hrun⟩ := hrun
    refine ⟨r, prev, hrun, hfront.end_mem, ?_, hrest'⟩
    rw [removed_next, List.map_append]
    exact hfront.unlink hlink hrest' hnodup'

/-- **Removing.** A device is taken out of the list, and keeps its link. -/
theorem Tracks.remove (hs : s.Tracks h) (ret : ClInt) (hvalid : s.devIsValid dev = clSuccess)
    (hdev : dev ∈ h.list) (hfuel : h.list.length < fuel) :
    ∃ r s', devRemove fuel dev ret s = some (r, s') ∧ s'.devIsValid = s.devIsValid ∧
      s'.Tracks (h.call (.remove dev ret)) := by
  obtain ⟨l₁, l₂, hlist, hfirst⟩ := List.eq_append_cons_of_mem hdev
  have hchain := hs.inOrder.chain
  have hnodup := hs.inOrder.nodup
  have hnum := hs.inOrder.num
  have hlen : l₁.length + (l₂.length + 1) = h.list.length := by
    rw [hlist, List.length_append, List.length_cons]
  rw [hlist] at hchain hnodup hnum
  obtain ⟨r, prev, hrun, hprevmem, hremoved, hrest⟩ :=
    devRemove_eq ret hvalid hchain (by omega : l₁.length < fuel)
  have hleft : s.devNext (some dev) = l₂.headD 0 := by
    obtain ⟨b, hrest, hend⟩ := hrest
    cases l₂ with
    | nil =>
      cases hrest
      exact next_eq_none_iff.mp hend
    | cons e l₂ =>
      cases hrest with
      | cons link rest => exact Option.some.inj (next_eq_some link).2
  have hdrop : ((l₁ ++ dev :: l₂).dropWhile (· ≠ dev)).tail = l₂ := by
    have hpos : ∀ x ∈ l₁, decide (x ≠ dev) = true := fun x hx =>
      decide_eq_true fun heq => hfirst (heq ▸ hx)
    rw [List.dropWhile_append_of_pos hpos, List.dropWhile_cons_of_neg (by simp)]
    rfl
  have hcall : h.call (.remove dev ret) = ⟨l₁ ++ l₂, Function.update h.left dev (l₂.headD 0)⟩ := by
    rw [Roll.call, if_pos hdev, hlist, hdrop, List.erase_append_right _ hfirst, List.erase_cons_head]
  -- the node in front of the device is `in_head` or a device of the first part
  have hprev (x : Ptr) (hx : x ∉ l₁) : some x ≠ prev := by
    rintro rfl
    exact (List.mem_cons.mp hprevmem).elim (by simp) (notMem_map_some hx)
  have hsame (x : Ptr) (hx : x ∉ l₁) : (s.removed dev prev).devNext (some x) = s.devNext (some x) :=
    devNext_eq_of_next (by rw [removed_next, Function.update_of_ne (hprev x hx)])
  refine ⟨r, s.removed dev prev, hrun, removed_devIsValid prev, ?_⟩
  rw [hcall]
  refine ⟨⟨hremoved, ?_, ?_⟩, fun x hx hnot => ?_⟩
  · exact hnodup.sublist ((List.Sublist.refl l₁).append (List.sublist_cons_self dev l₂))
  · rw [removed_devNum]
    refine toInt_add_neg_one ?_
    rw [hnum, List.length_append, List.length_append, List.length_cons]
    rfl
  · rw [removed_devIsValid] at hx
    have hout₁ : x ∉ l₁ := fun hmem => hnot (List.mem_append_left _ hmem)
    rw [hsame x hout₁]
    by_cases hxd : x = dev
    · subst hxd
      show _ = Function.update h.left x (l₂.headD 0) x
      rw [Function.update_self, hleft]
    · have hout : x ∉ h.list := by
        rw [hlist]
        intro hmem
        rcases List.mem_append.mp hmem with hmem | hmem
        · exact hout₁ hmem
        · rcases List.mem_cons.mp hmem with hmem | hmem
          · exact hxd hmem
          · exact hnot (List.mem_append_right _ hmem)
      show _ = Function.update h.left dev (l₂.headD 0) x
      rw [Function.update_of_ne hxd]
      exact hs.left x hx hout

/-- A call that has nothing to do leaves everything as it is. -/
theorem Tracks.idle (hs : s.Tracks h) (hvalid : s.devIsValid dev = clSuccess) (hfuel : h.list.length < fuel) :
    (dev ∈ h.list → devAdd fuel dev ret s = some (clInvalidValue, s)) ∧
      (dev ∉ h.list → devRemove fuel dev ret s = some (clInvalidValue, s)) := by
  obtain ⟨b, hwalk, hend⟩ := hs.inOrder.chain
  constructor
  · intro hdev
    obtain ⟨l₁, l₂, hlist, hfirst⟩ := List.eq_append_cons_of_mem hdev
    have hlen : l₁.length + (l₂.length + 1) = h.list.length := by
      rw [hlist, List.length_append, List.length_cons]
    rw [hlist, List.map_append, List.map_cons] at hwalk
    obtain ⟨prev, hfront, hback⟩ := hwalk.split
    cases hback with
    | cons hlink hrest =>
      have hfound := walk_found hfront hlink (notMem_map_some hfirst) (n := fuel)
        (by rw [List.length_map]; omega)
      rw [devAdd, if_neg (not_not.mpr hvalid), hfound]
  · intro hdev
    have hlast := walk_last hwalk hend (notMem_map_some hdev) (n := fuel) (by rwa [List.length_map])
    rw [devRemove, if_neg (not_not.mpr hvalid), hlast]

end Registry

/-! ## Whole runs -/

/-- No device is added again with something left in it, and the count does not leave `int`. -/
def CleanAdds (calls : List RegistryCall) : Prop :=
  ∀ pre dev ret, pre ++ [.add dev ret] <+: calls → dev ∉ (roll pre).list →
    (roll pre).left dev = 0 ∧ (roll pre).list.length + 1 < 2 ^ 31

theorem CleanAdds.of_prefix {calls calls' : List RegistryCall} (h : CleanAdds calls) (hpre : calls' <+: calls) :
    CleanAdds calls' := fun pre dev ret hcalls => h pre dev ret (hcalls.trans hpre)

theorem callAll_snoc (fuel : Nat) (calls : List RegistryCall) (c : RegistryCall) (s : Registry) :
    callAll fuel (calls ++ [c]) s = (callAll fuel calls s).bind fun s => (c.run fuel s).map Prod.snd := by
  rw [callAll, List.foldlM_append, ← callAll]
  show (callAll fuel calls s).bind _ = _
  congr 1
  funext s
  simp [List.foldlM]

section Runs

variable {fuel : Nat} {s₀ : Registry} (hfresh : s₀.Fresh)
include hfresh

theorem tracks_nil : s₀.Tracks (roll []) := by
  have hhead : s₀.next none = none := Registry.next_eq_none_iff.mpr hfresh.head
  refine ⟨⟨(chain_nil_iff hhead).mpr rfl, List.nodup_nil, ?_⟩, fun d hd _ => hfresh.devs d hd⟩
  rw [hfresh.num]
  rfl

/-- Calls that add no device with something left in it are tracked to their end. -/
theorem tracks_callAll (calls : List RegistryCall) : (∀ c ∈ calls, s₀.devIsValid c.dev = clSuccess) →
    calls.length < fuel → CleanAdds calls →
    ∃ s, callAll fuel calls s₀ = some s ∧ s.devIsValid = s₀.devIsValid ∧ s.Tracks (roll calls) := by
  induction calls using List.reverseRecOn with
  | nil => exact fun _ _ _ => ⟨s₀, rfl, rfl, tracks_nil hfresh⟩
  | append_singleton calls c ih =>
    intro hvalid hfuel hclean
    rw [List.length_append, List.length_singleton] at hfuel
    have hcalls : calls <+: calls ++ [c] := List.prefix_append ..
    obtain ⟨s, hrun, hvalids, hs⟩ := ih (fun c hc => hvalid c (hcalls.subset hc)) (by omega)
      (hclean.of_prefix hcalls)
    have hlen : (roll calls).list.length < fuel := Nat.lt_of_le_of_lt (length_roll_le calls) (by omega)
    have hdev : s.devIsValid c.dev = clSuccess := by
      rw [hvalids]
      exact hvalid c (List.mem_append_right _ (List.mem_singleton_self c))
    rw [callAll_snoc, hrun, Option.bind_some, roll_snoc]
    cases c with
    | add dev ret =>
      replace hdev : s.devIsValid dev = clSuccess := hdev
      by_cases hmem : dev ∈ (roll calls).list
      · have hidle : devAdd fuel dev ret s = some (clInvalidValue, s) := (hs.idle hdev hlen).1 hmem
        have hcall : (roll calls).call (.add dev ret) = roll calls := if_pos hmem
        rw [hcall]
        exact ⟨s, by rw [RegistryCall.run, hidle]; rfl, hvalids, hs⟩
      · obtain ⟨s', hadd, hvalid', horder, htracks⟩ := hs.add ret hdev hmem hlen
        refine ⟨s', by rw [RegistryCall.run, hadd]; rfl, hvalid'.trans hvalids, htracks (horder.mpr ?_)⟩
        exact hclean calls dev ret List.prefix_rfl hmem
    | remove dev ret =>
      replace hdev : s.devIsValid dev = clSuccess := hdev
      by_cases hmem : dev ∈ (roll calls).list
      · obtain ⟨r, s', hremove, hvalid', htracks⟩ := hs.remove ret hdev hmem hlen
        exact ⟨s', by rw [RegistryCall.run, hremove]; rfl, hvalid'.trans hvalids, htracks⟩
      · have hidle : devRemove fuel dev ret s = some (clInvalidValue, s) := (hs.idle hdev hlen).2 hmem
        have hcall : (roll calls).call (.remove dev ret) = roll calls := if_neg hmem
        rw [hcall]
        exact ⟨s, by rw [RegistryCall.run, hidle]; rfl, hvalids, hs⟩

end Runs

/-- **When the list is what it should be.** The calls all return, and behind each of them the list has
the devices that were added and not removed since, in the order of their latest addition, and the count
is theirs, just when no device is added again with another one left in it that was behind it when it was
removed. -/
theorem devRegistry_iff (fuel : Nat) (s₀ : Registry) (hfresh : s₀.Fresh) (calls : List RegistryCall)
    (hvalid : ∀ c ∈ calls, s₀.devIsValid c.dev = clSuccess) (hfuel : calls.length < fuel) :
    (∀ pre, pre <+: calls → ∃ s, callAll fuel pre s₀ = some s ∧ s.InOrder (roll pre).list) ↔
      CleanAdds calls := by
  constructor
  · intro h
    induction calls using List.reverseRecOn with
    | nil =>
      intro pre dev ret hpre
      exact absurd (List.prefix_nil.mp hpre) (by simp)
    | append_singleton calls c ih =>
      have hcalls : calls <+: calls ++ [c] := List.prefix_append ..
      rw [List.length_append, List.length_singleton] at hfuel
      have hvalids : ∀ c ∈ calls, s₀.devIsValid c.dev = clSuccess := fun c hc =>
        hvalid c (hcalls.subset hc)
      have hclean : CleanAdds calls := ih hvalids (by omega) fun pre hpre => h pre (hpre.trans hcalls)
      intro pre dev ret hpre hmem
      rcases List.prefix_concat_iff.mp hpre with heq | hpre
      · -- the last call is the one that adds
        obtain ⟨rfl, hc⟩ := List.append_inj' heq rfl
        obtain rfl := (List.cons.inj hc).1
        have hshort : pre.length < fuel := by omega
        obtain ⟨s, hrun, hsame, hs⟩ := tracks_callAll hfresh pre hvalids hshort hclean
        have hdev : s.devIsValid dev = clSuccess := by
          rw [hsame]
          exact hvalid _ (List.mem_append_right _ (List.mem_singleton_self _))
        have hlen : (roll pre).list.length < fuel := Nat.lt_of_le_of_lt (length_roll_le pre) (by omega)
        obtain ⟨s', hadd, -, horder, -⟩ := hs.add ret hdev hmem hlen
        obtain ⟨s'', hrun', hs''⟩ := h _ List.prefix_rfl
        have hstep : callAll fuel (pre ++ [.add dev ret]) s₀ = some s' := by
          rw [callAll_snoc, hrun, Option.bind_some, RegistryCall.run, hadd]
          rfl
        obtain rfl := Option.some.inj (hstep.symm.trans hrun')
        have hlist : (roll (pre ++ [.add dev ret])).list = (roll pre).list ++ [dev] := by
          rw [roll_snoc, Roll.call, if_neg hmem]
        rw [hlist] at hs''
        exact horder.mp hs''
      · exact hclean pre dev ret hpre hmem
  · intro hclean pre hpre
    obtain ⟨s, hrun, -, hs⟩ := tracks_callAll hfresh pre (fun c hc => hvalid c (hpre.subset hc))
      (Nat.lt_of_le_of_lt hpre.length_le hfuel) (hclean.of_prefix hpre)
    exact ⟨s, hrun, hs.inOrder⟩

/-! ## A device that is added again -/

/-- Three devices, none of them in the list yet. -/
def threeDevices : Registry :=
  ⟨0, fun p => ⟨if 1 ≤ p ∧ p ≤ 3 then openclIcdMagic else 0, none, 1, false, 0⟩, 0⟩

theorem fresh_threeDevices : threeDevices.Fresh := ⟨rfl, rfl, fun _ _ => rfl⟩

/-- The last device of the list is removed and added again. -/
def lastAgain : List RegistryCall := [.add 1 0, .add 2 0, .remove 2 0, .add 2 0]

/-- It had no device behind it. -/
theorem cleanAdds_lastAgain : CleanAdds lastAgain := by
  have hall : ∀ n, n < 4 → ∀ dev, lastAgain[n]? = some (.add dev 0) →
      (roll (lastAgain.take n)).left dev = 0 ∧ (roll (lastAgain.take n)).list.length + 1 < 2 ^ 31 := by
    intro n hn dev hdev
    have hcases : n = 0 ∨ n = 1 ∨ n = 2 ∨ n = 3 := by omega
    rcases hcases with rfl | rfl | rfl | rfl
    · obtain rfl : 1 = dev := (RegistryCall.add.inj (Option.some.inj hdev)).1
      decide
    · obtain rfl : 2 = dev := (RegistryCall.add.inj (Option.some.inj hdev)).1
      decide
    · cases hdev
    · obtain rfl : 2 = dev := (RegistryCall.add.inj (Option.some.inj hdev)).1
      decide
  intro pre dev ret hpre _
  obtain ⟨rest, hrest⟩ := hpre
  have hlen := congrArg List.length hrest
  simp only [List.length_append, List.length_singleton] at hlen
  have hlt : pre.length < 4 := by
    have hfour : lastAgain.length = 4 := rfl
    omega
  have hat : lastAgain[pre.length]? = some (.add dev ret) := by
    rw [← hrest, List.append_assoc, List.getElem?_append_right (Nat.le_refl _), Nat.sub_self]
    rfl
  have hfront : lastAgain.take pre.length = pre := by
    rw [← hrest, List.append_assoc, List.take_left]
  have hret : ret = 0 := by
    have hmem := List.mem_of_getElem? hat
    simp only [lastAgain, List.mem_cons, List.not_mem_nil, or_false, RegistryCall.add.injEq, reduceCtorEq,
      false_or] at hmem
    rcases hmem with h | h | h <;> exact h.2
  subst hret
  exact hfront ▸ hall pre.length hlt dev hat

/-- The list is in order behind these calls, with the device at its end again. -/
theorem devRegistry_lastAgain :
    ∃ s, callAll 5 lastAgain threeDevices = some s ∧ s.InOrder [1, 2] :=
  (devRegistry_iff 5 threeDevices fresh_threeDevices lastAgain (by decide) (by decide)).mpr cleanAdds_lastAgain
    lastAgain (List.prefix_refl _)

/-- Two devices are added, and the first is removed and added again. -/
def readded : Option Registry :=
  callAll 5 [.add 1 0, .add 2 0, .remove 1 0, .add 1 0] threeDevices

/-- Then the list goes round: no chain ends, and a third device is looked for without end. -/
theorem readded_endless : threeDevices.Fresh ∧
    (∀ dev, 1 ≤ dev → dev ≤ 3 → threeDevices.devIsValid dev = clSuccess) ∧
    ∃ s, readded = some s ∧ (∀ l, ¬ s.InOrder l) ∧ ∀ n, s.walk 3 n none = none := by
  have hvalid (dev : Ptr) (hlo : 1 ≤ dev) (hhi : dev ≤ 3) : threeDevices.devIsValid dev = clSuccess := by
    show isValid clInvalidDevice dev (if 1 ≤ dev ∧ dev ≤ 3 then openclIcdMagic else 0) = clSuccess
    rw [if_pos ⟨hlo, hhi⟩, isValid, if_neg (Nat.ne_of_gt hlo), if_neg (not_not.mpr rfl)]
  have hlinks : readded.map (fun s => (s.devNext none, s.devNext (some 1), s.devNext (some 2))) =
      some (2, 2, 1) := by decide
  obtain ⟨s, hs, hlinks⟩ := Option.map_eq_some_iff.mp hlinks
  obtain ⟨hhead, hone, htwo⟩ : s.devNext none = 2 ∧ s.devNext (some 1) = 2 ∧
      s.devNext (some 2) = 1 := by
    simpa only [Prod.mk.injEq] using hlinks
  refine ⟨fresh_threeDevices, hvalid, s, hs, fun l hl => ?_, fun n => ?_⟩
  · have hnext {d : Option Ptr} {p : Ptr} (h : s.devNext d = p) (hp : p ≠ 0) : s.next d = some (some p) := by
      rw [Registry.next, h, if_neg hp]
    obtain ⟨r, -, hr⟩ := (chain_cons_iff (hnext hhead (by decide))).mp hl.chain
    obtain ⟨r₁, rfl, hr₁⟩ := (chain_cons_iff (hnext htwo (by decide))).mp hr
    obtain ⟨r₂, rfl, hr₂⟩ := (chain_cons_iff (hnext hone (by decide))).mp hr₁
    have hlen := congrArg List.length (hr.unique hr₂)
    simp only [List.length_cons] at hlen
    omega
  · have hround (k : Nat) : s.walk 3 k (some 1) = none ∧ s.walk 3 k (some 2) = none := by
      induction k with
      | zero => exact ⟨rfl, rfl⟩
      | succ k ih =>
        refine ⟨?_, ?_⟩
        · rw [Registry.walk, hone, if_neg (by decide), if_neg (by decide)]
          exact ih.2
        · rw [Registry.walk, htwo, if_neg (by decide), if_neg (by decide)]
          exact ih.1
    cases n with
    | zero => rfl
    | succ n =>
      rw [Registry.walk, hhead, if_neg (by decide), if_neg (by decide)]
      exact (hround n).2

end BaremetalCrt
