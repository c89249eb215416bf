/-
# BaremetalCrt.Pci.Enum — which PCI devices there are (`pci_sysfs_enum`, `drivers/pci/pci_sysfs.c`).

A line of the device list whose ids are in the table of the driver gives a record of an array that doubles
when it is full.  The records are those of the lines, in their order, and the store of each is inside the
array (`pciSysfsEnum_records`).

What the list says and what the allocations return is an `EnumWorld`.
-/
import BaremetalCrt.Pci.DeviceList
import BaremetalCrt.Runtime.Drivers

namespace BaremetalCrt

open Lib

/-! ## Data -/

/-- The test that the scan of the table goes on with. -/
def PciSysfsDevId.Goes (e : PciSysfsDevId) : Prop := e.vendor ≠ 0xffff ∧ e.device ≠ 0xffff

instance (e : PciSysfsDevId) : Decidable e.Goes := inferInstanceAs (Decidable (_ ∧ _))

/-- `id_table`: an array that an entry with `0xffff` in one of its fields ends. -/
structure IdTable where
  entries : List PciSysfsDevId
  ended : ∃ e ∈ entries, ¬ e.Goes

/-- The scan of the table, from an entry on and up to the one that ends it. -/
def matchId (vid did : Int32) : List PciSysfsDevId → Bool
  | [] => false
  | e :: es =>
    if e.Goes then
      if Int32.ofNat e.vendor.toNat = vid ∧ Int32.ofNat e.device.toNat = did then true
      else matchId vid did es
    else false

/-! ## Allocation -/

/-- What `calloc` leaves in an entry of the array. -/
def PciSysfsEnumInfo.zero : PciSysfsEnumInfo := ⟨0, 0, 0, 0, 0⟩

/-- `sizeof(struct pci_sysfs_enum_info)`, of four words. -/
def sizeofEnumInfo : UInt64 := 16

/-- `num_pci * sizeof(struct pci_sysfs_enum_info)`, of an `int` that is converted to 64 bits. -/
def bytesFor (numPci : Int32) : UInt64 := numPci.toInt64.toUInt64 * sizeofEnumInfo

/-- What the call does not decide: whether the list can be opened and what its bytes are, what each
allocation returns, and what a grown array holds where nothing was.  No block is of `2 ^ 63` bytes or
more, since the difference of two pointers into it is a `ptrdiff_t`. -/
structure EnumWorld where
  file : Option (List UInt8)
  alloc : Nat → UInt64 → Option Ptr
  fresh : Nat → Int → PciSysfsEnumInfo
  alloc_lt : ∀ {k bytes p}, alloc k bytes = some p → bytes.toNat < 2 ^ 63

/-- What the call does outside its locals: it asks for memory, stores to the array, frees it, and closes the
file. -/
inductive EnumEvent where
  | alloc (bytes : UInt64) (ok : Bool)
  /-- `pciinf[index] = …`, when the block has `bytes` bytes. -/
  | store (index : Int) (numPci : Int32) (bytes : UInt64)
  | free (p : Ptr)
  | fclose
  deriving DecidableEq, Repr

/-- The locals of `pci_sysfs_enum`, and the block behind `pciinf` with its size. -/
structure EnumState where
  n : Int32
  numPci : Int32
  pciinf : Option Ptr
  bytes : UInt64
  infos : Int → PciSysfsEnumInfo
  allocs : Nat
  log : List EnumEvent

/-- The locals as they are initialised: no array, and room for one. -/
def EnumState.start : EnumState := ⟨0, 1, none, 0, fun _ => .zero, 0, []⟩

/-- The stores to `pciinf[n]`, and `n++`. -/
def EnumState.put (s : EnumState) (info : PciSysfsEnumInfo) : EnumState :=
  { s with
    infos := Function.update s.infos s.n.toInt info
    log := s.log ++ [.store s.n.toInt s.numPci s.bytes]
    n := s.n + 1 }

/-- A step of the enumeration: it stops with a code at an `err_out`. -/
abbrev PciEnum := Exec EnumState ClInt

section Enum

variable (w : EnumWorld)

/-- `calloc` or `realloc`: a block of so many bytes, if there is memory for it; the request is on record. -/
def requestBlock (bytes : UInt64) : PciEnum (Option Ptr) := fun s =>
  (.ok (w.alloc s.allocs bytes),
    { s with allocs := s.allocs + 1, log := s.log ++ [.alloc bytes (w.alloc s.allocs bytes).isSome] })

/-- `pciinf = calloc(num_pci, …)`: the first array. -/
def callocInfos : PciEnum Unit := do
  let bytes ← Exec.gets fun s => bytesFor s.numPci
  match ← requestBlock w bytes with
  | none => Exec.exit clOutOfHostMemory
  | some p => Exec.modify fun s => { s with pciinf := some p, bytes := bytes, infos := fun _ => .zero }

/-- `num_pci *= 2; pciinf = realloc(pciinf, …)`: the array is full, and twice as large from now on. -/
def growInfos : PciEnum Unit := do
  -- the product of two `int`s wraps around
  Exec.modify fun s => { s with numPci := s.numPci * 2 }
  let bytes ← Exec.gets fun s => bytesFor s.numPci
  match ← requestBlock w bytes with
  | none =>
    -- the old block is still there, and nothing points to it
    Exec.modify fun s => { s with pciinf := none }
    Exec.exit clOutOfHostMemory
  | some p => Exec.modify fun s => { s with
      pciinf := some p
      bytes := bytes
      infos := fun i => if 16 * (i + 1) ≤ s.bytes.toNat then s.infos i else w.fresh s.allocs i }

/-- What the loop does for a line that is found: it stores the record, and makes room when the array is
full. -/
def storeInfo (info : PciSysfsEnumInfo) : PciEnum Unit := do
  Exec.modify (·.put info)
  let full ← Exec.gets fun s => decide (s.n = s.numPci)
  if full then
    growInfos w

/-- The body of the loop, for one line: a line that cannot be read ends the call. -/
def enumLine (idTable : IdTable) (line : List UInt8) : PciEnum Unit :=
  match scanLine line with
  | none => Exec.exit clOutOfHostMemory
  | some f =>
    if matchId (Int32.ofInt f.vid) (Int32.ofInt f.did) idTable.entries then storeInfo w f.stored
    else return ()

/-- The loop over the lines of the file. -/
def enumLines (idTable : IdTable) : List (List UInt8) → PciEnum Unit
  | [] => return ()
  | line :: rest => do
    enumLine w idTable line
    enumLines idTable rest

/-- `err_out`: the array is freed, and the file is closed. -/
def errOut (s : EnumState) : EnumState :=
  { s with log := s.log ++ (s.pciinf.toList.map EnumEvent.free) ++ [.fclose] }

/-- `pci_sysfs_enum`; of `conf` only the table is read, and `inf` and `num` say whether the pointers are
there. -/
def pciSysfsEnum (conf : Option IdTable) (inf num : Bool) : PciEnum PciSysfsEnum := do
  match conf with
  | none => Exec.exit clInvalidValue
  | some idTable =>
    if inf = false ∨ num = false then
      Exec.exit clInvalidValue
    match w.file with
    | none => Exec.exit clOutOfHostMemory
    | some file =>
      let body : PciEnum Unit := do
        callocInfos w
        -- a read takes a byte at least, so there are not more of them than bytes
        enumLines w idTable (readLines chNewline (lineSize - 1) file.length file)
      match ← Exec.attempt body with
      | .ok _ => Exec.gets fun s => ⟨s.pciinf.getD 0, fun i => s.infos i, s.n.toUInt32⟩
      | .error r =>
        Exec.modify errOut
        Exec.exit r

end Enum

/-! ## What the list says -/

/-- The ids of a table, when its first entry with `0xffff` is the sentinel `{0xffff, 0xffff}`. -/
def IdTable.Ends (t : IdTable) (ids : List PciSysfsDevId) : Prop :=
  (∀ e ∈ ids, e.vendor ≠ 0xffff ∧ e.device ≠ 0xffff) ∧ ∃ rest, t.entries = ids ++ ⟨0xffff, 0xffff⟩ :: rest

/-- The ids of the line are in the table, compared as numbers. -/
def InTable (ids : List PciSysfsDevId) (f : PciLine) : Prop :=
  ∃ e ∈ ids, (e.vendor.toNat : Int) = f.vid ∧ (e.device.toNat : Int) = f.did

instance (ids : List PciSysfsDevId) : DecidablePred (InTable ids) := fun _ =>
  inferInstanceAs (Decidable (∃ _ ∈ _, _))

/-- The records of the lines whose ids are in the table. -/
def enumRecords (ids : List PciSysfsDevId) (ls : List (List UInt8)) : List PciSysfsEnumInfo :=
  ((ls.filterMap scanLine).filter fun f => InTable ids f).map PciLine.info

theorem enumRecords_cons (ids : List PciSysfsDevId) {line : List UInt8} {f : PciLine}
    (hf : scanLine line = some f) (ls : List (List UInt8)) :
    enumRecords ids (line :: ls) = (if InTable ids f then [f.info] else []) ++ enumRecords ids ls := by
  rw [enumRecords, List.filterMap_cons_some hf, List.filter_cons]
  by_cases hin : InTable ids f
  · rw [if_pos (decide_eq_true hin), if_pos hin]
    rfl
  · rw [if_neg (by simpa using hin), if_neg hin]
    rfl

/-- The store is inside the array and inside its block. -/
def EnumEvent.Inside : EnumEvent → Prop
  | .store index numPci bytes => 0 ≤ index ∧ index < numPci.toInt ∧ 16 * (index + 1) ≤ bytes.toNat
  | _ => True

instance : DecidablePred EnumEvent.Inside
  | .store .. => inferInstanceAs (Decidable (_ ∧ _))
  | .alloc .. => isTrue trivial
  | .free .. => isTrue trivial
  | .fclose => isTrue trivial

/-- An allocation of the call has failed. -/
def EnumState.Refused (s : EnumState) : Prop := ∃ bytes, EnumEvent.alloc bytes false ∈ s.log

/-! ## The table -/

theorem ofNat_eq_ofInt_iff {n : Nat} {v : Int} (hn : n < 2 ^ 16) (hv : -16 ^ 4 < v ∧ v < 16 ^ 4) :
    Int32.ofNat n = Int32.ofInt v ↔ (n : Int) = v := by
  rw [← Int32.ofInt_eq_ofNat, ← Int32.toInt_inj, Int32.toInt_ofInt_of_le (by omega) (by omega),
    Int32.toInt_ofInt_of_le (by omega) (by omega)]

theorem inTable_cons {e : PciSysfsDevId} {ids : List PciSysfsDevId} {f : PciLine} :
    InTable (e :: ids) f ↔
      ((e.vendor.toNat : Int) = f.vid ∧ (e.device.toNat : Int) = f.did) ∨ InTable ids f := by
  simp only [InTable, List.mem_cons, exists_eq_or_imp]

/-- The scan finds the ids that are in the table, and stops at the sentinel. -/
theorem matchId_iff {ids rest : List PciSysfsDevId} (hids : ∀ e ∈ ids, e.Goes) {f : PciLine}
    (hvid : -16 ^ 4 < f.vid ∧ f.vid < 16 ^ 4) (hdid : -16 ^ 4 < f.did ∧ f.did < 16 ^ 4) :
    matchId (Int32.ofInt f.vid) (Int32.ofInt f.did) (ids ++ ⟨0xffff, 0xffff⟩ :: rest) = true ↔
      InTable ids f := by
  induction ids with
  | nil =>
    have hstop : ¬ PciSysfsDevId.Goes ⟨0xffff, 0xffff⟩ := fun h => h.1 rfl
    rw [List.nil_append, matchId, if_neg hstop]
    simp [InTable]
  | cons e ids ih =>
    have hids' : ∀ e' ∈ ids, e'.Goes := fun e' he' => hids e' (List.mem_cons_of_mem _ he')
    have hsame := and_congr (ofNat_eq_ofInt_iff e.vendor.toNat_lt hvid)
      (ofNat_eq_ofInt_iff e.device.toNat_lt hdid)
    rw [List.cons_append, matchId, if_pos (hids e (List.mem_cons_self ..)), inTable_cons, ← hsame]
    split
    · next hmatch => exact iff_of_true rfl (Or.inl hmatch)
    · next hmatch => rw [ih hids', or_iff_right hmatch]

/-! ## The array -/

theorem toNat_bytesFor (c : Int32) : ((bytesFor c).toNat : Int) = 16 * c.toInt % 2 ^ 64 := by
  have hword : (c.toInt64.toUInt64.toNat : Int) = c.toInt % 2 ^ 64 := by
    have hcond := BitVec.toInt_eq_toNat_cond c.toInt64.toBitVec
    have hint : c.toInt64.toBitVec.toInt = c.toInt := Int32.toInt_toInt64 c
    have hnat : c.toInt64.toBitVec.toNat = c.toInt64.toUInt64.toNat := rfl
    have hlt := c.toInt64.toUInt64.toNat_lt
    rw [hint, hnat] at hcond
    omega
  have hsize : sizeofEnumInfo.toNat = 16 := rfl
  rw [bytesFor, UInt64.toNat_mul, hsize]
  omega

theorem toInt_double {c : Int32} (hpos : 0 < c.toInt) : (c * 2).toInt = 2 * c.toInt ∨ (c * 2).toInt < 0 := by
  have hlt := c.toInt_lt
  have htwo : (2 : Int32).toInt = 2 := rfl
  rw [Int32.toInt_mul, htwo, Int.bmod_def]
  omega

/-- The records that are stored, in an array that they fit in. -/
structure Stored (infos : List PciSysfsEnumInfo) (s : EnumState) : Prop where
  n : s.n.toInt = infos.length
  pos : 0 < s.numPci.toInt
  fits : (infos.length : Int) ≤ s.numPci.toInt
  bytes : (s.bytes.toNat : Int) = 16 * s.numPci.toInt
  infos : ∀ i (hi : i < infos.length), s.infos i = infos[i]
  inside : ∀ e ∈ s.log, e.Inside

/-- The records so far are stored, and there is room for the next one. -/
def Ready (infos : List PciSysfsEnumInfo) (s : EnumState) : Prop :=
  Stored infos s ∧ (infos.length : Int) < s.numPci.toInt

section Run

variable {w : EnumWorld} {infos : List PciSysfsEnumInfo} {s : EnumState}

/-- A request is refused, or the block is of the size that was asked for. -/
theorem wp_requestBlock {bytes : UInt64} {Q : Option Ptr → EnumState → Prop} {E : ClInt → EnumState → Prop}
    (hnone : Q none { s with allocs := s.allocs + 1, log := s.log ++ [.alloc bytes false] })
    (hsome : ∀ p, bytes.toNat < 2 ^ 63 →
      Q (some p) { s with allocs := s.allocs + 1, log := s.log ++ [.alloc bytes true] }) :
    Exec.wp (requestBlock w bytes) Q E s := by
  show Q (w.alloc s.allocs bytes) _
  cases halloc : w.alloc s.allocs bytes with
  | none => exact hnone
  | some p => exact hsome p (w.alloc_lt halloc)

theorem refused_snoc (log : List EnumEvent) (bytes : UInt64) :
    ∃ b, EnumEvent.alloc b false ∈ log ++ [.alloc bytes false] :=
  ⟨bytes, List.mem_append_right _ (List.mem_singleton_self _)⟩

theorem inside_snoc {log : List EnumEvent} {e : EnumEvent} (hlog : ∀ e ∈ log, e.Inside) (he : e.Inside) :
    ∀ e' ∈ log ++ [e], e'.Inside := by
  intro e' he'
  rcases List.mem_append.mp he' with he' | he'
  · exact hlog e' he'
  · rw [List.mem_singleton.mp he']
    exact he

theorem wp_callocInfos : Exec.wp (callocInfos w) (fun _ s' => Ready [] s') (fun _ s' => s'.Refused) .start := by
  rw [callocInfos, Exec.wp_bind, Exec.wp_gets, Exec.wp_bind]
  apply wp_requestBlock
  · exact refused_snoc _ _
  · intro p _
    have hone : 0 < (1 : Int32).toInt := by decide
    refine ⟨⟨rfl, hone, hone.le, rfl, ?_, ?_⟩, hone⟩
    · exact fun i hi => absurd hi (Nat.not_lt_zero i)
    · exact inside_snoc (fun e he => absurd he List.not_mem_nil) trivial

/-- The array doubles and keeps its records; when its size overflows, no block is that large. -/
theorem wp_growInfos (h : Stored infos s) :
    Exec.wp (growInfos w) (fun _ s' => Ready infos s') (fun _ s' => s'.Refused) s := by
  rw [growInfos, Exec.wp_bind, Exec.wp_modify, Exec.wp_bind, Exec.wp_gets, Exec.wp_bind]
  apply wp_requestBlock
  · exact refused_snoc _ _
  · intro p hlt
    have hbytes := toNat_bytesFor (s.numPci * 2)
    have hle := (s.numPci * 2).le_toInt
    have hpos := h.pos
    have hfits := h.fits
    have hold := h.bytes
    dsimp only at hlt
    rcases toInt_double h.pos with hdouble | hwrap
    · refine ⟨⟨h.n, ?_, ?_, ?_, ?_, inside_snoc h.inside trivial⟩, ?_⟩ <;> dsimp only
      · omega
      · omega
      · have := (s.numPci * 2).toInt_lt
        omega
      · intro i hi
        rw [if_pos (by omega)]
        exact h.infos i hi
      · omega
    · -- a negative size is converted to one of almost `2 ^ 64`
      omega

/-- A record is stored where there is room. -/
theorem Ready.put (h : Ready infos s) (info : PciSysfsEnumInfo) : Stored (infos ++ [info]) (s.put info) := by
  obtain ⟨hstored, hroom⟩ := h
  have hn := hstored.n
  have hlt := s.numPci.toInt_lt
  have hbytes := hstored.bytes
  have hone : (1 : Int32).toInt = 1 := rfl
  have hlen : (infos ++ [info]).length = infos.length + 1 := by
    rw [List.length_append, List.length_singleton]
  refine ⟨?_, hstored.pos, ?_, hbytes, ?_, inside_snoc hstored.inside ?_⟩
  · show (s.n + 1).toInt = _
    rw [Int32.toInt_add, hone, Int.bmod_def, hlen]
    omega
  · rw [hlen]
    exact hroom
  · intro i hi
    show Function.update s.infos s.n.toInt info i = _
    rw [hlen] at hi
    rcases Nat.lt_or_ge i infos.length with hlow | hhigh
    · rw [Function.update_of_ne (by omega), List.getElem_append_left hlow]
      exact hstored.infos i hlow
    · obtain rfl : i = infos.length := by omega
      rw [hn, Function.update_self, List.getElem_concat_length rfl]
  · refine ⟨?_, ?_, ?_⟩ <;> omega

/-- **And then there is room for the next one.** -/
theorem wp_storeInfo (h : Ready infos s) (info : PciSysfsEnumInfo) :
    Exec.wp (storeInfo w info) (fun _ s' => Ready (infos ++ [info]) s') (fun _ s' => s'.Refused) s := by
  have hput := h.put info
  rw [storeInfo, Exec.wp_bind, Exec.wp_modify, Exec.wp_bind, Exec.wp_gets, Exec.wp_ite]
  refine ⟨fun _ => wp_growInfos hput, fun hfull => ⟨hput, ?_⟩⟩
  have hne : (s.put info).n ≠ (s.put info).numPci := by simpa using hfull
  have hne' : (s.put info).n.toInt ≠ (s.put info).numPci.toInt := fun heq => hne (Int32.toInt_inj.mp heq)
  have hn := hput.n
  have hfits := hput.fits
  omega

variable {t : IdTable} {ids : List PciSysfsDevId}

/-- The record of a line is stored, or the line is passed over. -/
theorem wp_enumLine (ht : t.Ends ids) (h : Ready infos s) {line : List UInt8} {f : PciLine}
    (hf : scanLine line = some f) :
    Exec.wp (enumLine w t line) (fun _ s' => Ready (infos ++ if InTable ids f then [f.info] else []) s')
      (fun _ s' => s'.Refused) s := by
  obtain ⟨hids, rest, hentries⟩ := ht
  obtain ⟨hvid, hdid⟩ := scanLine_lt hf
  have hmatch : matchId (Int32.ofInt f.vid) (Int32.ofInt f.did) t.entries = true ↔ InTable ids f := by
    rw [hentries]
    exact matchId_iff hids hvid hdid
  rw [enumLine, hf]
  dsimp only
  by_cases hin : InTable ids f
  · rw [if_pos (hmatch.mpr hin), if_pos hin, f.stored_eq_info]
    exact wp_storeInfo h f.info
  · rw [if_neg (mt hmatch.mp hin), if_neg hin, List.append_nil]
    exact h

/-- **The loop.** -/
theorem wp_enumLines (ht : t.Ends ids) {ls : List (List UInt8)} (hls : ∀ line ∈ ls, (scanLine line).isSome)
    (h : Ready infos s) :
    Exec.wp (enumLines w t ls) (fun _ s' => Ready (infos ++ enumRecords ids ls) s')
      (fun _ s' => s'.Refused) s := by
  induction ls generalizing infos s with
  | nil =>
    have hnone : enumRecords ids [] = [] := rfl
    rw [hnone, List.append_nil]
    exact h
  | cons line ls ih =>
    obtain ⟨f, hf⟩ := Option.isSome_iff_exists.mp (hls line (List.mem_cons_self ..))
    rw [enumLines, Exec.wp_bind]
    apply (wp_enumLine ht h hf).mono _ fun _ _ he => he
    intro _ s' hs'
    rw [enumRecords_cons ids hf, ← List.append_assoc]
    exact ih (fun l hl => hls l (List.mem_cons_of_mem _ hl)) hs'

/-- What the call returns is the list of records: their number, and each at its index. -/
structure PciSysfsEnum.Holds (out : PciSysfsEnum) (infos : List PciSysfsEnumInfo) : Prop where
  num : out.num.toNat = infos.length
  infos : ∀ i (hi : i < infos.length), out.infos i = infos[i]

theorem Stored.holds (h : Stored infos s) :
    PciSysfsEnum.Holds ⟨s.pciinf.getD 0, fun i => s.infos i, s.n.toUInt32⟩ infos where
  num := by
    have hn := h.n
    have hcond := BitVec.toInt_eq_toNat_cond s.n.toBitVec
    have hint : s.n.toBitVec.toInt = s.n.toInt := rfl
    have hnat : s.n.toBitVec.toNat = s.n.toUInt32.toNat := rfl
    have hlt := s.n.toUInt32.toNat_lt
    rw [hint, hnat] at hcond
    dsimp only
    omega
  infos := h.infos

theorem wp_pciSysfsEnum (ht : t.Ends ids) {file : List UInt8} (hfile : w.file = some file)
    (hlines : ∀ line ∈ lines chNewline file, line.length < lineSize ∧ (scanLine line).isSome) :
    Exec.wp (pciSysfsEnum w (some t) true true)
      (fun out s' => out.Holds (enumRecords ids (lines chNewline file)) ∧ ∀ e ∈ s'.log, e.Inside)
      (fun _ s' => s'.Refused) .start := by
  have hreads : readLines chNewline (lineSize - 1) file.length file = lines chNewline file :=
    readLines_eq_lines (Nat.le_refl _) fun l hl => Nat.le_pred_of_lt (hlines l hl).1
  unfold pciSysfsEnum
  rw [hfile]
  dsimp only
  rw [hreads, if_neg (by decide), Exec.wp_bind, Exec.wp_attempt, Exec.wp_bind]
  apply wp_callocInfos.mono
  · intro _ s' hs'
    apply (wp_enumLines ht (fun l hl => (hlines l hl).2) hs').mono
    · rintro _ s'' ⟨hstored, -⟩
      exact ⟨hstored.holds, hstored.inside⟩
    · rintro e s'' ⟨bytes, hmem⟩
      exact ⟨bytes, List.mem_append_left _ (List.mem_append_left _ hmem)⟩
  · rintro e s' ⟨bytes, hmem⟩
    exact ⟨bytes, List.mem_append_left _ (List.mem_append_left _ hmem)⟩

end Run

/-! ## The functions of a bus -/

theorem PciFunction.inTable_read (d : PciFunction) {ids : List PciSysfsDevId} :
    InTable ids d.read ↔ d.id ∈ ids := by
  constructor
  · rintro ⟨e, he, hvendor, hdevice⟩
    have hid : e = d.id := by
      obtain ⟨vendor, device⟩ := e
      have hv : vendor = d.id.vendor := UInt16.toNat_inj.mp (Int.ofNat_inj.mp hvendor)
      have hd : device = d.id.device := UInt16.toNat_inj.mp (Int.ofNat_inj.mp hdevice)
      rw [hv, hd]
    exact hid ▸ he
  · intro h
    exact ⟨d.id, h, rfl, rfl⟩

theorem enumRecords_deviceList (ids : List PciSysfsDevId) (ds : List (PciFunction × List UInt8)) :
    enumRecords ids (ds.map fun d => d.1.line d.2) =
      (ds.filter fun d => d.1.id ∈ ids).map fun d => d.1.info := by
  induction ds with
  | nil => rfl
  | cons d ds ih =>
    rw [List.map_cons, enumRecords_cons ids (d.1.scanLine_line d.2), ih, List.filter_cons, d.1.read_info]
    by_cases hid : d.1.id ∈ ids
    · rw [if_pos (d.1.inTable_read.mpr hid), if_pos (decide_eq_true hid)]
      rfl
    · rw [if_neg (mt d.1.inTable_read.mp hid), if_neg (by simpa using hid)]
      rfl

/-! ## The enumeration -/

/-- **No device is lost, and none is made up.**  Every line is read, the table ends with its sentinel and no
allocation fails: the records are those of the lines with ids in the table, in their order, and every store
is inside the array. -/
theorem pciSysfsEnum_records (w : EnumWorld) {t : IdTable} {ids : List PciSysfsDevId} (ht : t.Ends ids)
    {file : List UInt8} (hfile : w.file = some file)
    (hlines : ∀ line ∈ lines chNewline file, line.length < lineSize ∧ (scanLine line).isSome)
    (halloc : ¬ (pciSysfsEnum w (some t) true true .start).2.Refused) :
    ∃ out s, pciSysfsEnum w (some t) true true .start = (.ok out, s) ∧
      out.Holds (enumRecords ids (lines chNewline file)) ∧ ∀ e ∈ s.log, e.Inside := by
  have hspec := wp_pciSysfsEnum (w := w) ht hfile hlines
  rcases hrun : pciSysfsEnum w (some t) true true .start with ⟨r, s⟩
  cases r with
  | ok out =>
    obtain ⟨hholds, hinside⟩ := hspec.ok hrun
    exact ⟨out, s, rfl, hholds, hinside⟩
  | error e =>
    rw [hrun] at halloc
    exact absurd (hspec.error hrun) halloc

/-- Four devices, of which three are of one vendor. -/
def fourDevices : List (PciFunction × List UInt8) :=
  [(⟨0, 0x08, 0x1af4, 0x1050⟩, []), (⟨0, 0x10, 0x8086, 0x1050⟩, []), (⟨1, 0xff, 0x1af4, 0x1041⟩, [0x09, 0x62]),
    (⟨2, 0x19, 0x1af4, 0x1050⟩, [])]

/-- Two ids of that vendor, which a table may hold. -/
def twoIds : List PciSysfsDevId := [⟨0x1af4, 0x1050⟩, ⟨0x1af4, 0x1041⟩]

/-- A table of the two ids, with its sentinel. -/
def twoIdTable : IdTable where
  entries := twoIds ++ [⟨0xffff, 0xffff⟩]
  ended := ⟨⟨0xffff, 0xffff⟩, by simp, fun h => h.1 rfl⟩

/-- The list can be opened, and every block that can be is allocated. -/
def EnumWorld.generous (file : List UInt8) : EnumWorld where
  file := some file
  alloc k bytes := if bytes.toNat < 2 ^ 63 then some (k + 1) else none
  fresh _ _ := .zero
  alloc_lt := by
    intro k bytes p h
    split at h
    · assumption
    · cases h

/-- The array doubles twice on the way. -/
theorem pciSysfsEnum_fourDevices :
    ∃ out s,
      pciSysfsEnum (.generous (deviceList fourDevices)) (some twoIdTable) true true .start = (.ok out, s) ∧
      out.Holds [⟨0, 1, 0, 0x1af4, 0x1050⟩, ⟨1, 31, 7, 0x1af4, 0x1041⟩, ⟨2, 3, 1, 0x1af4, 0x1050⟩] ∧
      ∀ e ∈ s.log, e.Inside := by
  have hrecords : enumRecords twoIds (lines chNewline (deviceList fourDevices)) =
      [⟨0, 1, 0, 0x1af4, 0x1050⟩, ⟨1, 31, 7, 0x1af4, 0x1041⟩, ⟨2, 3, 1, 0x1af4, 0x1050⟩] := by
    rw [lines_deviceList (by decide), enumRecords_deviceList]
    decide
  have hlog : (pciSysfsEnum (.generous (deviceList fourDevices)) (some twoIdTable) true true .start).2.log =
      [.alloc 16 true, .store 0 1 16, .alloc 32 true, .store 1 2 32, .alloc 64 true, .store 2 4 64] := by
    decide +kernel
  rw [← hrecords]
  apply pciSysfsEnum_records _ ⟨by decide, [], rfl⟩ rfl
  · exact deviceList_ok (by decide)
  · rintro ⟨bytes, hmem⟩
    rw [hlog] at hmem
    simp at hmem

end BaremetalCrt
