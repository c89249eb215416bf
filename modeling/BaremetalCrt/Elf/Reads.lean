/-
# BaremetalCrt.Elf.Reads — a load depends on what it reads, and on nothing else.

The accesses that the loader records are all that it takes from the memory: over a memory that holds the
same bytes there, the load is the same.  `Follows` says so of a part of the loader, and its rules say so
of the whole.

So the bytes behind the buffer count only where they are read, and a load that stays inside its buffer is
the same whatever stands around it. `follows_prgElfLoad` is the statement for the whole load.
-/
import BaremetalCrt.Elf.Load

namespace BaremetalCrt

open Lib Exec

/-- The second program does what the first does wherever the accesses of the first find the same bytes. -/
def Follows (V V' : View) {α : Type} (m m' : Load α) : Prop := ∀ s,
  s.reads ⊆ (m s).2.reads ∧ ((∀ t ∈ (m s).2.reads, t.Same V V') → m' s = m s)

namespace Follows

variable {V V' : View} {α β : Type} {m m' n n' : Load α} {f f' : α → Load β}

/-- A part that does not look at the memory. -/
theorem of_reads (h : ∀ s, (m s).2.reads = s.reads) : Follows V V' m m := fun s =>
  ⟨fun _ ht => by rwa [h s], fun _ => rfl⟩

theorem pure (a : α) : Follows V V' (pure a : Load α) (Pure.pure a) := of_reads fun _ => rfl

theorem stop (r : ClInt) : Follows V V' (stop r : Load α) (BaremetalCrt.stop r) := of_reads fun _ => rfl

theorem demand (r : ClInt) : Follows V V' (demand r) (BaremetalCrt.demand r) := of_reads fun s => by
  unfold BaremetalCrt.demand
  split <;> rfl

/-- The accesses of the first part are among those of the whole. -/
theorem bind (hm : Follows V V' m m') (hf : ∀ a, Follows V V' (f a) (f' a)) :
    Follows V V' (m >>= f) (m' >>= f') := by
  intro s
  obtain ⟨hreads, hsame⟩ := hm s
  rw [bind_apply, bind_apply]
  rcases hr : m s with ⟨e | a, t⟩ <;> rw [hr] at hreads hsame
  · exact ⟨hreads, fun h => by rw [hsame h]⟩
  · obtain ⟨hreads', hsame'⟩ := hf a t
    refine ⟨List.Subset.trans hreads hreads', fun h => ?_⟩
    rw [hsame fun t' ht' => h t' (hreads' ht')]
    exact hsame' h

theorem ite {c : Prop} [Decidable c] (hm : Follows V V' m m') (hn : Follows V V' n n') :
    Follows V V' (if c then m else n) (if c then m' else n') := by
  by_cases h : c
  · rw [if_pos h, if_pos h]
    exact hm
  · rw [if_neg h, if_neg h]
    exact hn

end Follows

/-! ## The routines of the loader -/

section Loader

variable {b b' : Binary} (hbuf : b'.buf = b.buf) (hlen : b'.len = b.len)

theorem follows_readField (base : UInt64) (f : Field) :
    Follows b.view b'.view (readField b base f) (readField b' base f) := by
  intro s
  refine ⟨List.subset_append_left .., fun h => ?_⟩
  have hget := Field.get_same (h (f.touch base) (List.mem_append_right _ (List.mem_singleton_self _)))
  rw [readField, readField, hget]

theorem follows_readMag (cs : List UInt8) : ∀ i : UInt64,
    Follows b.view b'.view (readMag b i cs) (readMag b' i cs) := by
  induction cs with
  | nil => exact fun _ => .pure _
  | cons c cs ih =>
    intro i
    refine (follows_readField _ _).bind fun x => ?_
    exact .ite ((Follows.stop _).bind fun _ => ih (i + 1)) (ih (i + 1))

theorem follows_prgElfGetClass : Follows b.view b'.view (prgElfGetClass b) (prgElfGetClass b') := by
  refine (follows_readMag _ _).bind fun _ => (follows_readField _ _).bind fun x => ?_
  exact .ite (.pure _) (.ite (.pure _) (.stop _))

/-- One field after the other. -/
theorem follows_readEhdr (l : EhdrLayout) : Follows b.view b'.view (readEhdr b l) (readEhdr b' l) := by
  iterate 13 refine (follows_readField _ _).bind fun _ => ?_
  have hend (e : ElfHeader) (c : Prop) [Decidable c] : Follows b.view b'.view
      (if c then stop clInvalidBinary >>= fun (_ : Unit) => pure e else pure e)
      (if c then stop clInvalidBinary >>= fun (_ : Unit) => pure e else pure e) :=
    .ite ((Follows.stop _).bind fun _ => .pure _) (.pure _)
  exact .ite ((Follows.stop _).bind fun _ => hend _ _) (hend _ _)

theorem follows_prgElfReadElf (cls : ElfClass) :
    Follows b.view b'.view (prgElfReadElf b cls) (prgElfReadElf b' cls) := by
  cases cls with
  | elf32 => exact follows_readEhdr _
  | elf64 => exact follows_readEhdr _

theorem follows_readPhdr (l : PhdrLayout) (base : UInt64) :
    Follows b.view b'.view (readPhdr b l base) (readPhdr b' l base) := by
  iterate 8 refine (follows_readField _ _).bind fun _ => ?_
  exact .pure _

theorem follows_readShdr (l : ShdrLayout) (base : UInt64) :
    Follows b.view b'.view (readShdr b l base) (readShdr b' l base) := by
  iterate 10 refine (follows_readField _ _).bind fun _ => ?_
  exact .pure _

theorem follows_readTable {V V' : View} {α : Type} {read read' : UInt64 → Load α}
    (hread : ∀ base, Follows V V' (read base) (read' base)) (ent : UInt64) (entsize : UInt32) (n : Nat) :
    ∀ i, Follows V V' (readTable read ent entsize i n) (readTable read' ent entsize i n) := by
  induction n with
  | zero => exact fun _ => .pure _
  | succ n ih => exact fun i => (hread _).bind fun _ => (ih (i + 1)).bind fun _ => .pure _

theorem follows_readPhs (e : ElfHeader) (cls : ElfClass) :
    Follows b.view b'.view (readPhs b e cls) (readPhs b' e cls) := by
  cases cls with
  | elf32 => exact follows_readTable (follows_readPhdr _) _ _ _ _
  | elf64 => exact follows_readTable (follows_readPhdr _) _ _ _ _

theorem follows_readShs (e : ElfHeader) (cls : ElfClass) :
    Follows b.view b'.view (readShs b e cls) (readShs b' e cls) := by
  cases cls with
  | elf32 => exact follows_readTable (follows_readShdr _) _ _ _ _
  | elf64 => exact follows_readTable (follows_readShdr _) _ _ _ _

theorem follows_putChunk {V V' : View} (i : UInt32) (chunk : ProgramChunk) :
    Follows V V' (putChunk i chunk) (putChunk i chunk) := by
  refine Follows.bind (.of_reads fun _ => rfl) fun p => (Follows.demand _).bind fun _ => ?_
  exact .ite ((Follows.stop _).bind fun _ => .of_reads fun _ => rfl) (.of_reads fun _ => rfl)

include hbuf in
/-- A chunk is a place in the buffer, whatever is there. -/
theorem follows_setChunks (phs : List PrgHeader) : ∀ i : UInt32,
    Follows b.view b'.view (setChunks b i phs) (setChunks b' i phs) := by
  induction phs with
  | nil => exact fun _ => .pure _
  | cons ph phs ih =>
    intro i
    -- of the binary it has the address, not the bytes
    have hchunk : ph.chunk b' = ph.chunk b := by
      simp only [PrgHeader.chunk, Binary.ptr, hbuf]
    rw [setChunks, setChunks, hchunk]
    exact .ite ((follows_putChunk i _).bind fun _ => ih (i + 1)) (ih (i + 1))

include hbuf in
theorem follows_prgElfReadPh (a : Allocs) (cls : ElfClass) (e : ElfHeader) :
    Follows b.view b'.view (prgElfReadPh b a cls e) (prgElfReadPh b' a cls e) := by
  have hnum (V V' : View) : Follows V V' (prgSetNumChunks a.chunks e.ePhnum.toNat)
      (prgSetNumChunks a.chunks e.ePhnum.toNat) := by
    refine Follows.bind (.of_reads fun _ => rfl) fun p => (Follows.demand _).bind fun _ => ?_
    exact .ite (.of_reads fun _ => rfl) (Follows.bind (.of_reads fun _ => rfl) fun _ => .stop _)
  have hrest : Follows b.view b'.view
      (readPhs b e cls >>= fun phs => prgSetNumChunks a.chunks e.ePhnum.toNat >>= fun _ => setChunks b 0 phs)
      (readPhs b' e cls >>= fun phs => prgSetNumChunks a.chunks e.ePhnum.toNat >>= fun _ =>
        setChunks b' 0 phs) :=
    (follows_readPhs e cls).bind fun phs => (hnum _ _).bind fun _ => follows_setChunks hbuf phs 0
  exact .ite ((Follows.stop _).bind fun _ => hrest) hrest

/-! ## The scan -/

/-- A comparison goes no further than the string does. -/
theorem nameAt_same {V V' : View} (name : List UInt8) : ∀ {off : UInt64}, (0 : UInt8) ∉ name →
    (Touch.cstr off).Same V V' → nameAt V' off name = nameAt V off name := by
  have hzero (off : UInt64) : off + UInt64.ofNat 0 = off := UInt64.add_zero off
  induction name with
  | nil =>
    intro off _ h
    have hfirst := h 0 fun k hk => absurd hk (Nat.not_lt_zero k)
    rw [hzero] at hfirst
    rw [nameAt, nameAt, hfirst]
  | cons c cs ih =>
    intro off hname h
    obtain ⟨hc, hcs⟩ := not_or.mp (mt List.mem_cons.mpr hname)
    have hfirst := h 0 fun k hk => absurd hk (Nat.not_lt_zero k)
    rw [hzero] at hfirst
    rw [nameAt, nameAt, hfirst]
    by_cases heq : V off = c
    · -- the string goes on behind `c`
      have hnext (n : Nat) : off + 1 + UInt64.ofNat n = off + UInt64.ofNat (n + 1) := by
        rw [UInt64.ofNat_add, UInt64.add_assoc, UInt64.add_comm 1]
        rfl
      have hrest := ih hcs fun n hn => by
        rw [hnext]
        refine h (n + 1) fun k hk => ?_
        cases k with
        | zero =>
          rw [hzero, heq]
          exact fun hnul => hc hnul.symm
        | succ k => exact hnext k ▸ hn k (by omega)
      rw [hrest]
    · rw [decide_eq_false heq, Bool.false_and, Bool.false_and]

theorem follows_strcmpIs {name : List UInt8} (hname : (0 : UInt8) ∉ name) (place : ShName) :
    Follows b.view b'.view (strcmpIs b name place) (strcmpIs b' name place) := by
  match place with
  | .unknown => exact .pure _
  | .at off =>
    intro s
    refine ⟨List.subset_append_left .., fun h => ?_⟩
    have hsame := nameAt_same name hname (h (.cstr off) (List.mem_append_right _ (List.mem_singleton_self _)))
    rw [strcmpIs, strcmpIs, hsame]

theorem follows_scanCommArea (name : ShName) (sec : SecHeader) (scan : Scan) :
    Follows b.view b'.view (scanCommArea b name sec scan) (scanCommArea b' name sec scan) :=
  (follows_strcmpIs (by decide) name).bind fun _ => .ite (.pure _) (.pure _)

theorem follows_scanSection (shstr sec : SecHeader) (scan : Scan) :
    Follows b.view b'.view (scanSection b shstr sec scan) (scanSection b' shstr sec scan) := by
  refine (follows_strcmpIs (by decide) _).bind fun _ => .ite ?_ (follows_scanCommArea _ _ _)
  exact (follows_readField _ _).bind fun _ => .ite (.pure _) (follows_scanCommArea _ _ _)

theorem follows_scanSections (shstr : SecHeader) (secs : List SecHeader) : ∀ scan,
    Follows b.view b'.view (scanSections b shstr secs scan) (scanSections b' shstr secs scan) := by
  induction secs with
  | nil => exact fun _ => .pure _
  | cons sec secs ih => exact fun scan => (follows_scanSection _ _ _).bind fun scan => ih scan

theorem follows_prgElfReadShs (a : Allocs) (cls : ElfClass) (e : ElfHeader) :
    Follows b.view b'.view (prgElfReadShs b a cls e) (prgElfReadShs b' a cls e) := by
  have hcomm (comm : ProgramComm) : Follows b.view b'.view (prgSetComm comm) (prgSetComm comm) :=
    Follows.bind (.of_reads fun _ => rfl) fun p => (Follows.demand _).bind fun _ => .of_reads fun _ => rfl
  refine .ite ((Follows.stop _).bind fun _ => ?_) ?_
  all_goals
    refine (follows_readShs e cls).bind fun shs => (follows_scanSections _ shs _).bind fun scan => ?_
    have harea : Follows b.view b'.view
        (if ¬ scan.foundCommArea then stop clInvalidBinary >>= fun (_ : Unit) => prgSetComm scan.comm
          else prgSetComm scan.comm) _ := .ite ((Follows.stop _).bind fun _ => hcomm _) (hcomm _)
    exact .ite ((Follows.stop _).bind fun _ => harea) harea

include hbuf hlen in
/-- **The load is the same** where all that it reads is. -/
theorem follows_prgElfLoad (a : Allocs) : Follows b.view b'.view (prgElfLoad b a) (prgElfLoad b' a) := by
  have hload : Follows b.view b'.view
      (prgElfGetClass b >>= fun cls => prgElfReadElf b cls >>= fun e =>
        demand (prgElfIsValidHeader b.len e) >>= fun _ => prgElfReadPh b a cls e >>= fun _ =>
          prgElfReadShs b a cls e)
      (prgElfGetClass b' >>= fun cls => prgElfReadElf b' cls >>= fun e =>
        demand (prgElfIsValidHeader b'.len e) >>= fun _ => prgElfReadPh b' a cls e >>= fun _ =>
          prgElfReadShs b' a cls e) := by
    refine follows_prgElfGetClass.bind fun cls => (follows_prgElfReadElf cls).bind fun e => ?_
    rw [hlen]
    refine (Follows.demand _).bind fun _ => (follows_prgElfReadPh hbuf a cls e).bind fun _ => ?_
    exact follows_prgElfReadShs a cls e
  refine Follows.bind (.of_reads fun _ => rfl) fun p => (Follows.demand _).bind fun _ => ?_
  exact .ite (Follows.bind (.of_reads fun _ => rfl) fun _ => hload) hload

end Loader

end BaremetalCrt
