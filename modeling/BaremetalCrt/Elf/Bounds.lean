/-
# BaremetalCrt.Elf.Bounds — which binaries are read inside their buffer.

`len` is compared with the ends of the two tables, and with nothing else: the identification, the ELF
header, the names of the sections and the magic number are read wherever they are, and the sums that are
compared wrap.

`Binary.ReadSafe` is the condition, phase by phase: on the bytes that the identification looks at, the size
of the header, the two tables where the header says they are, the names with their terminators, and the
magic number of a section named `.comm`. No load of the binary reads outside its buffer, whatever the
allocations return, exactly when it holds (`prgElfLoad_readsInside_iff`).
-/
import BaremetalCrt.Elf.Phases

namespace BaremetalCrt

open Lib

variable {b : Binary} {m : View}

/-! ## The identification -/

/-- Comparing with `cs` and reading one byte more, if all of it is there, stays inside unless the buffer
ends before a difference. -/
theorem magTouches_inside {len : Nat} (cs : List UInt8) : ∀ (i : UInt64) (n : Nat), i.toNat + n = len →
    i.toNat + cs.length + 1 < 2 ^ 64 →
    (((∀ t ∈ magTouches m i cs, t.Inside m len) ∧
      (magMatches m i cs = true → i.toNat + cs.length + 1 ≤ len)) ↔ ¬ m.bytes i n <+: cs) := by
  induction cs with
  | nil =>
    intro i n hlen _
    rw [List.prefix_nil]
    constructor
    · rintro ⟨-, hend⟩ hnil
      have hzero : n = 0 := by rw [← View.length_bytes (m := m) i n, hnil, List.length_nil]
      have hle := hend rfl
      rw [List.length_nil] at hle
      omega
    · intro hne
      refine ⟨fun t ht => absurd ht List.not_mem_nil, fun _ => ?_⟩
      have hpos : n ≠ 0 := fun hn => hne (by rw [hn]; rfl)
      rw [List.length_nil]
      omega
  | cons c cs ih =>
    intro i n hlen hfits
    rw [List.length_cons] at hfits
    have hone : (1 : UInt64).toNat = 1 := rfl
    have hsucc : (i + 1).toNat = i.toNat + 1 := by
      rw [UInt64.toNat_add, hone]
      exact Nat.mod_eq_of_lt (by omega)
    cases n with
    | zero =>
      refine iff_of_false (fun h => ?_) (not_not.mpr List.nil_prefix)
      have hin : i.toNat + 1 ≤ len := h.1 _ List.mem_cons_self
      omega
    | succ n =>
      have hrest := ih (i + 1) n (by omega) (by omega)
      have hhead : (Touch.bytes i 1).Inside m len := show i.toNat + 1 ≤ len by omega
      rw [View.bytes_succ, List.cons_prefix_cons, magTouches, magMatches, List.forall_mem_cons,
        List.length_cons]
      by_cases hc : m i = c
      · rw [if_pos hc, decide_eq_true hc, Bool.true_and, not_and]
        rw [hsucc] at hrest
        constructor
        · rintro ⟨⟨-, hin⟩, hend⟩ -
          exact hrest.mp ⟨hin, fun hm => by have := hend hm; omega⟩
        · intro h
          obtain ⟨hin, hend⟩ := hrest.mpr (h hc)
          exact ⟨⟨hhead, hin⟩, fun hm => by have := hend hm; omega⟩
      · rw [if_neg hc, decide_eq_false hc, Bool.false_and]
        refine iff_of_true ⟨⟨hhead, fun t ht => absurd ht List.not_mem_nil⟩, fun h => ?_⟩ (mt And.left hc)
        exact absurd h Bool.false_ne_true

theorem Binary.ptr_eq {off : UInt64} (h : off.toNat < b.len.toNat) : b.ptr off = b.buf + off.toNat :=
  Nat.mod_eq_of_lt (lt_of_lt_of_le (Nat.add_lt_add_left h b.buf) b.fits)

theorem Binary.file_eq (b : Binary) : b.file = b.view.bytes 0 b.len.toNat := by
  refine List.map_congr_left fun i hi => ?_
  have hlt : i < b.len.toNat := List.mem_range.mp hi
  have hoff : (0 + UInt64.ofNat i).toNat = i := by
    rw [UInt64.zero_add]
    exact UInt64.toNat_ofNat_of_lt' (lt_trans hlt b.len.toNat_lt)
  have hptr := Binary.ptr_eq (b := b) (hoff.symm ▸ hlt)
  rw [hoff] at hptr
  exact congrArg b.mem hptr.symm

/-- The identification is read inside the buffer, unless the buffer is a beginning of the magic number. -/
theorem identTouches_inside (b : Binary) :
    (∀ t ∈ identTouches b.view, t.Inside b.view b.len.toNat) ↔ ¬ b.file <+: elfMag := by
  have hzero : (0 : UInt64).toNat = 0 := rfl
  rw [Binary.file_eq, ← magTouches_inside elfMag 0 b.len.toNat (by rw [hzero, Nat.zero_add]) (by decide),
    identTouches, List.forall_mem_append, magMatches_elfMag]
  refine and_congr_right fun _ => ?_
  by_cases hmag : b.view.bytes 0 4 = elfMag
  · rw [if_pos hmag, List.forall_mem_singleton]
    exact (true_imp_iff.symm.trans (imp_congr_left (iff_of_true trivial hmag)))
  · rw [if_neg hmag]
    exact iff_of_true (fun t ht => absurd ht List.not_mem_nil) fun h => absurd h hmag

/-! ## The layouts -/

theorem ehdr_within (cls : ElfClass) : Within cls.ehdr.size cls.ehdr.fields := by
  cases cls <;> decide

theorem phdr_within (cls : ElfClass) : Within cls.ehdr.phdrSize.toNat cls.phdr.fields := by
  cases cls <;> decide

theorem shdr_within (cls : ElfClass) : Within cls.ehdr.shdrSize.toNat cls.shdr.fields := by
  cases cls <;> decide

/-- The ELF header has a field that ends with it. -/
theorem ehdr_last (cls : ElfClass) : ∃ f ∈ cls.ehdr.fields, f.off.toNat + f.width = cls.ehdr.size := by
  cases cls
  · exact ⟨elf32Ehdr.eShstrndx, by decide, rfl⟩
  · exact ⟨elf64Ehdr.eShstrndx, by decide, rfl⟩

/-- Every entry has a field that begins with it. -/
theorem phdr_first (cls : ElfClass) : (⟨0, 4⟩ : Field) ∈ cls.phdr.fields := by
  cases cls <;> decide

theorem shdr_first (cls : ElfClass) : (⟨0, 4⟩ : Field) ∈ cls.shdr.fields := by
  cases cls <;> decide

theorem ehdrTouches_inside (cls : ElfClass) {len : Nat} (hlen : len < 2 ^ 64) :
    (∀ t ∈ cls.ehdr.fields.map (Field.touch 0), t.Inside m len) ↔ cls.ehdr.size ≤ len := by
  have hzero : (0 : UInt64).toNat = 0 := rfl
  constructor
  · intro h
    obtain ⟨f, hf, hend⟩ := ehdr_last cls
    have hin : (0 + f.off).toNat + f.width ≤ len := h _ (List.mem_map_of_mem hf)
    rwa [UInt64.zero_add, hend] at hin
  · intro hsize t ht
    obtain ⟨f, hf, rfl⟩ := List.mem_map.mp ht
    exact Field.touch_inside hlen (ehdr_within cls f hf) (by omega)

/-! ## The tables -/

/-- The table of `num` entries at `off` does not wrap. -/
def NoWrap (off : UInt64) (num entsize : UInt32) : Prop :=
  off.toNat + num.toNat * entsize.toNat < 2 ^ 64

/-- A table that passed its check is read inside the buffer, unless it wraps: then its first entry lies
in front of the buffer. -/
theorem tableTouches_inside {len off : UInt64} {num entsize : UInt32} {fs : List Field} {size : Nat}
    (hlen : len.toNat < 2 ^ 63) (hnum : num.toNat < 2 ^ 16) (hentsize : entsize.toNat < 2 ^ 16)
    (hend : exceedsFile len off num entsize = false) (hpos : 0 < num.toNat) (hfs : Within size fs)
    (hsize : size ≤ entsize.toNat) (hfirst : (⟨0, 4⟩ : Field) ∈ fs) :
    (∀ t ∈ touches fs ((List.range num.toNat).map (entry off entsize.toNat)), t.Inside m len.toNat) ↔
      NoWrap off num entsize := by
  have hmul : num.toNat * entsize.toNat < 2 ^ 32 :=
    lt_of_le_of_lt (Nat.mul_le_mul (Nat.le_sub_one_of_lt hnum) (Nat.le_sub_one_of_lt hentsize)) (by decide)
  constructor
  · intro h
    have hmem : (⟨0, 4⟩ : Field).touch (entry off entsize.toNat 0) ∈
        touches fs ((List.range num.toNat).map (entry off entsize.toNat)) :=
      List.mem_flatMap.mpr ⟨_, List.mem_map_of_mem (List.mem_range.mpr hpos), List.mem_map_of_mem hfirst⟩
    have hin : (off + UInt64.ofNat (0 * entsize.toNat) + 0).toNat + 4 ≤ len.toNat := h _ hmem
    rw [Nat.zero_mul] at hin
    rw [show off + UInt64.ofNat 0 + 0 = off from by simp] at hin
    unfold NoWrap
    omega
  · intro hwrap
    have hle : ¬ len.toNat < (off.toNat + num.toNat * entsize.toNat) % 2 ^ 64 := by
      rw [← exceedsFile_iff hnum hentsize, hend]
      exact Bool.false_ne_true
    rw [Nat.mod_eq_of_lt hwrap, Nat.not_lt] at hle
    exact touches_inside (lt_trans hlen (by decide)) hfs hsize hle

/-! ## The sections -/

/-- The name of the section, if it has one, is a string of the buffer. -/
def SecHeader.NameInside (sec : SecHeader) (m : View) (len : Nat) (shstr : SecHeader) : Prop :=
  sec.shName.toUInt64 < shstr.shSize →
    ∃ n, (shstr.shOffset + sec.shName.toUInt64).toNat + n < len ∧
      m (shstr.shOffset + sec.shName.toUInt64 + UInt64.ofNat n) = 0

/-- The magic number of a section `.comm` is in the buffer. -/
def SecHeader.MagicInside (sec : SecHeader) (m : View) (len : Nat) (shstr : SecHeader) : Prop :=
  sec.Named m shstr commSection → sec.shOffset.toNat + 4 ≤ len

theorem nameTouches_inside {len : Nat} (shstr sec : SecHeader) :
    (∀ t ∈ (getShName shstr sec.shName).touches, t.Inside m len) ↔ sec.NameInside m len shstr := by
  unfold getShName SecHeader.NameInside
  by_cases hle : shstr.shSize ≤ sec.shName.toUInt64
  · rw [if_pos hle]
    exact iff_of_true (fun t ht => absurd ht List.not_mem_nil)
      fun hlt => absurd hlt (UInt64.not_lt.mpr hle)
  · rw [if_neg hle, ShName.touches, List.forall_mem_singleton]
    exact (imp_iff_right (UInt64.not_le.mp hle)).symm

theorem scanTouches_inside {len : Nat} (shstr sec : SecHeader) :
    (∀ t ∈ scanTouches m shstr sec, t.Inside m len) ↔
      sec.NameInside m len shstr ∧ sec.MagicInside m len shstr := by
  rw [scanTouches, List.forall_mem_append, nameTouches_inside, SecHeader.MagicInside]
  refine and_congr_right fun hname => ?_
  have hagain : ∀ t ∈ (getShName shstr sec.shName).touches, t.Inside m len :=
    (nameTouches_inside shstr sec).mpr hname
  by_cases hcomm : sec.Named m shstr commSection
  · rw [if_pos hcomm, List.forall_mem_cons, imp_iff_right hcomm]
    refine and_iff_left_of_imp fun _ => ?_
    by_cases hmagic : sec.HasMagic m
    · rwa [if_pos hmagic]
    · rw [if_neg hmagic]
      exact fun t ht => absurd ht List.not_mem_nil
  · rw [if_neg hcomm]
    exact iff_of_true hagain fun h => absurd h hcomm

/-! ## The load -/

/-- Everything that a load reads from the buffer lies in it, whichever allocations succeed. -/
def Binary.ReadsInside (b : Binary) : Prop :=
  ∀ (a : Allocs) (s : Loading), s.prg.magic = openclIcdMagic → s.reads = [] →
    ∀ t ∈ (prgElfLoad b a s).2.reads, t.Inside b.view b.len.toNat

/-- What the loader does not check of the tables: they do not wrap, and the names and the magic numbers
of the sections are in the buffer. -/
structure Binary.TablesSafe (b : Binary) (cls : ElfClass) : Prop where
  phdrs : NoWrap (b.header cls).ePhoff (b.header cls).ePhnum (b.header cls).ePhentsize
  shdrs : NoWrap (b.header cls).eShoff (b.header cls).eShnum (b.header cls).eShentsize
  names : ∀ sec ∈ b.secHeaders cls, sec.NameInside b.view b.len.toNat (b.shstr cls)
  magics : ∀ sec ∈ b.secHeaders cls, sec.MagicInside b.view b.len.toNat (b.shstr cls)

/-- What the loader does not check: the buffer is no beginning of the magic number, its ELF header is in
it, and what an accepted header leads to is. -/
structure Binary.ReadSafe (b : Binary) : Prop where
  ident : ¬ b.file <+: elfMag
  ehdr : ∀ cls, b.cls? = some cls → cls.ehdr.size ≤ b.len.toNat
  tables : ∀ cls, b.cls? = some cls → b.HeaderOk cls → b.TablesSafe cls

theorem phdrTouches_inside {cls : ElfClass} (hok : b.HeaderOk cls) :
    (∀ t ∈ b.phdrTouches cls, t.Inside b.view b.len.toNat) ↔
      NoWrap (b.header cls).ePhoff (b.header cls).ePhnum (b.header cls).ePhentsize := by
  have hvalid := prgElfIsValidHeader_iff.mp hok.2
  have hnarrow := header_narrow b cls
  have hpos : (b.header cls).ePhnum.toNat ≠ 0 := fun h =>
    hvalid.phdrs.2.1 (UInt32.toNat_inj.mp h)
  exact tableTouches_inside b.small hnarrow.phnum hnarrow.phentsize hvalid.phdrsEnd
    (Nat.pos_of_ne_zero hpos) (phdr_within cls) hok.1.1 (phdr_first cls)

theorem shdrTouches_inside {cls : ElfClass} (hok : b.HeaderOk cls) :
    (∀ t ∈ b.shdrTouches cls, t.Inside b.view b.len.toNat) ↔
      NoWrap (b.header cls).eShoff (b.header cls).eShnum (b.header cls).eShentsize := by
  have hvalid := prgElfIsValidHeader_iff.mp hok.2
  have hnarrow := header_narrow b cls
  exact tableTouches_inside b.small hnarrow.shnum hnarrow.shentsize hvalid.shdrsEnd
    (Nat.zero_lt_of_lt hvalid.shstrndx) (shdr_within cls) hok.1.2 (shdr_first cls)

theorem namesTouches_inside (cls : ElfClass) :
    (∀ t ∈ b.nameTouches cls, t.Inside b.view b.len.toNat) ↔
      ∀ sec ∈ b.secHeaders cls, sec.NameInside b.view b.len.toNat (b.shstr cls) ∧
        sec.MagicInside b.view b.len.toNat (b.shstr cls) := by
  rw [Binary.nameTouches, List.forall_mem_flatMap]
  exact forall₂_congr fun sec _ => scanTouches_inside (b.shstr cls) sec

/-- The process has memory enough: all allocations of a load succeed. -/
def Allocs.all : Allocs := ⟨true, true, true, true⟩

theorem tableTouches_all (b : Binary) (cls : ElfClass) :
    b.tableTouches cls .all = b.phdrTouches cls ++ (b.shdrTouches cls ++ b.nameTouches cls) := rfl

theorem loadTouches_all (b : Binary) :
    b.loadTouches .all = match b.cls? with
      | none => identTouches b.view
      | some cls => b.headTouches cls ++ if b.HeaderOk cls then b.tableTouches cls .all else [] := rfl

theorem tableTouches_inside_iff {cls : ElfClass} (hok : b.HeaderOk cls) :
    (∀ t ∈ b.tableTouches cls .all, t.Inside b.view b.len.toNat) ↔ b.TablesSafe cls := by
  rw [tableTouches_all, List.forall_mem_append, List.forall_mem_append, phdrTouches_inside hok,
    shdrTouches_inside hok, namesTouches_inside]
  constructor
  · rintro ⟨hph, hsh, hsecs⟩
    exact ⟨hph, hsh, fun sec hsec => (hsecs sec hsec).1, fun sec hsec => (hsecs sec hsec).2⟩
  · rintro ⟨hph, hsh, hnames, hmagics⟩
    exact ⟨hph, hsh, fun sec hsec => ⟨hnames sec hsec, hmagics sec hsec⟩⟩

/-- When an allocation fails, nothing else is touched. -/
theorem loadTouches_subset (a : Allocs) : b.loadTouches a ⊆ b.loadTouches .all := by
  have htables (cls : ElfClass) : b.tableTouches cls a ⊆ b.tableTouches cls .all := by
    rw [tableTouches_all, Binary.tableTouches]
    split_ifs
    · exact List.Subset.refl _
    · rw [List.append_nil]
      exact List.subset_append_left _ _
    · exact List.nil_subset _
  rw [loadTouches_all, Binary.loadTouches]
  by_cases hinfo : a.elfInfo = true
  · rw [if_pos hinfo]
    cases b.cls? with
    | none => exact List.Subset.refl _
    | some cls =>
      by_cases hok : b.HeaderOk cls
      · simp only [if_pos hok]
        intro t ht
        exact (List.mem_append.mp ht).elim (List.mem_append_left _) fun h =>
          List.mem_append_right _ (htables cls h)
      · simp only [if_neg hok]
        exact List.Subset.refl _
  · rw [if_neg hinfo]
    exact List.nil_subset _

/-- The accesses do not depend on the program, and are the most when all allocations succeed. -/
theorem readsInside_iff (b : Binary) :
    b.ReadsInside ↔ ∀ t ∈ b.loadTouches .all, t.Inside b.view b.len.toNat := by
  constructor
  · intro h t ht
    let s : Loading := ⟨⟨openclIcdMagic, 0, none, ⟨0, 0⟩⟩, []⟩
    apply h .all s rfl rfl t
    rw [prgElfLoad_reads .all s rfl]
    exact List.mem_append_right _ ht
  · intro h a s hmagic hnil t ht
    rw [prgElfLoad_reads a s hmagic, hnil, List.nil_append] at ht
    exact h t (loadTouches_subset a ht)

/-- Every byte that the load of a binary reads lies in the buffer exactly if the binary is as the loader
takes it to be. -/
theorem prgElfLoad_readsInside_iff (b : Binary) : b.ReadsInside ↔ b.ReadSafe := by
  rw [readsInside_iff, loadTouches_all]
  cases hcls : b.cls? with
  | none =>
    have hnone {P : ElfClass → Prop} : ∀ cls, b.cls? = some cls → P cls := by
      intro cls hsome
      rw [hcls] at hsome
      cases hsome
    constructor
    · intro h
      exact ⟨(identTouches_inside b).mp h, hnone, hnone⟩
    · intro h
      exact (identTouches_inside b).mpr h.ident
  | some cls =>
    have hlen : b.len.toNat < 2 ^ 64 := b.len.toNat_lt
    have hsome {P : ElfClass → Prop} : (∀ c, b.cls? = some c → P c) ↔ P cls := by
      rw [hcls]
      exact ⟨fun h => h cls rfl, fun h c hc => Option.some.inj hc ▸ h⟩
    have htables : (∀ t ∈ if b.HeaderOk cls then b.tableTouches cls .all else [],
        t.Inside b.view b.len.toNat) ↔ (b.HeaderOk cls → b.TablesSafe cls) := by
      by_cases hok : b.HeaderOk cls
      · rw [if_pos hok, tableTouches_inside_iff hok, imp_iff_right hok]
      · rw [if_neg hok]
        exact iff_of_true (fun t ht => absurd ht List.not_mem_nil) fun h => absurd h hok
    show (∀ t ∈ b.headTouches cls ++ _, _) ↔ _
    rw [Binary.headTouches, List.forall_mem_append, List.forall_mem_append, identTouches_inside,
      ehdrTouches_inside cls hlen, htables]
    constructor
    · rintro ⟨⟨hident, hsize⟩, htab⟩
      exact ⟨hident, hsome.mpr hsize, hsome.mpr htab⟩
    · rintro ⟨hident, hsize, htab⟩
      exact ⟨⟨hident, hsome.mp hsize⟩, hsome.mp htab⟩

/-- A buffer of one byte, which is the first of the magic number. -/
def oneByte : Binary where
  mem := fun a => if a = 0x1000 then 0x7f else 0
  buf := 0x1000
  len := 1
  fits := by decide
  small := by decide

/-- Loading it reads the byte behind it. -/
theorem oneByte_overread :
    1 ≤ oneByte.len.toNat ∧
      ∃ (a : Allocs) (s : Loading), s.prg.magic = openclIcdMagic ∧ s.reads = [] ∧
        ∃ t ∈ (prgElfLoad oneByte a s).2.reads, ¬ t.Inside oneByte.view oneByte.len.toNat := by
  refine ⟨by decide, .all, ⟨⟨openclIcdMagic, 0, none, ⟨0, 0⟩⟩, []⟩, rfl, rfl, .bytes 1 1, by decide, ?_⟩
  intro hin
  exact absurd hin (by decide : ¬ (1 : UInt64).toNat + 1 ≤ oneByte.len.toNat)

end BaremetalCrt
