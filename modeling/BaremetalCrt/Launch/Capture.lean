/-
# BaremetalCrt.Launch.Capture — what a launch takes from the memory of the host.

A value argument and the areas of a program are pointers into the caller's memory until the moment they
are sent.  Two launches from states that differ in the plain bytes of the host go in lockstep as long as
what is about to be sent is the same in both (`SameSources`): they make the same writes, and leave the
same objects and the same device.

The pointers are those of the values, of the buffers that the kernel reads, and of the chunks that are not
on the device yet. `SameSources` says of two hosts that these have the same bytes. A launch that gets as far
as the run has sent all of them, so that another byte in any of them is another write (`launchOps_iff`).
-/
import BaremetalCrt.Launch.Receive
import BaremetalCrt.Launch.Transfer
import BaremetalCrt.Lib.Lockstep

namespace BaremetalCrt

open Lib Exec

variable {δ : Type}

/-! ## Two hosts -/

/-- The two hosts have the same objects; the plain bytes in their memories may differ. -/
structure Host.Alike (h h' : Host δ) : Prop where
  cmdqs : h'.cmdqs = h.cmdqs
  ctxs : h'.ctxs = h.ctxs
  devs : h'.devs = h.devs
  prgs : h'.prgs = h.prgs
  kerns : h'.kerns = h.kerns
  mems : h'.mems = h.mems

/-- What a launch of `kernel` sends of the caller's memory is the same in both: the areas that are not on
the device yet, the values, and the buffers that the kernel will read. -/
structure SameSources (prg kernel : Ptr) (h h' : Host δ) : Prop where
  areas : ∀ i < (h.prgs prg).numChunks.toNat, ¬ ((h.prgs prg).chunkAt i).Skipped →
    ((h.prgs prg).chunkAt i).data h' = ((h.prgs prg).chunkAt i).data h
  values : ∀ arg ∈ (h.kerns kernel).args, arg.argtype = commArgVal →
    h'.read arg.val arg.size.toNat = h.read arg.val arg.size.toNat
  buffers : ∀ arg ∈ (h.kerns kernel).args, arg.argtype = commArgMem →
    memCanRead (h.mems arg.val.handle) = true →
      h'.bytes.load (h.mems arg.val.handle).ptr (h.mems arg.val.handle).size.toNat =
        h.bytes.load (h.mems arg.val.handle).ptr (h.mems arg.val.handle).size.toNat

/-- Two states of a launch: alike but for the bytes, of which `F` is known, with the same device and the
same writes behind them. -/
structure Sys.Alike (F : Host δ → Host δ → Prop) (s s' : Sys δ) : Prop where
  host : s.host.Alike s'.host
  same : F s.host s'.host
  dev : s'.dev = s.dev
  hComm : s'.hComm = s.hComm
  writes : (writesOf s'.trace).map Event.op = (writesOf s.trace).map Event.op

namespace Host.Alike

variable {h h' : Host δ} (ha : h.Alike h')
include ha

theorem getDevice (cmdq : Ptr) :
    ctxGetDevice h' (cmdqGetContext h' cmdq) = ctxGetDevice h (cmdqGetContext h cmdq) := by
  unfold ctxGetDevice cmdqGetContext ctxIsValid cmdqIsValid
  rw [ha.ctxs, ha.cmdqs]

theorem kernGetProgram (kern : Ptr) :
    BaremetalCrt.kernGetProgram h' kern = BaremetalCrt.kernGetProgram h kern := by
  unfold BaremetalCrt.kernGetProgram kernIsValid
  rw [ha.kerns]

theorem prgGetNumChunks (prg : Ptr) :
    BaremetalCrt.prgGetNumChunks h' prg = BaremetalCrt.prgGetNumChunks h prg := by
  simp only [BaremetalCrt.prgGetNumChunks, prgIsValid, ha.prgs]

theorem prgGetChunk (prg : Ptr) (i : Int) :
    BaremetalCrt.prgGetChunk h' prg i = BaremetalCrt.prgGetChunk h prg i := by
  simp only [BaremetalCrt.prgGetChunk, prgIsValid, ha.prgs]

theorem prgGetComm (prg : Ptr) : BaremetalCrt.prgGetComm h' prg = BaremetalCrt.prgGetComm h prg := by
  simp only [BaremetalCrt.prgGetComm, prgIsValid, ha.prgs]

theorem kernGetNumArgs (kern : Ptr) :
    BaremetalCrt.kernGetNumArgs h' kern = BaremetalCrt.kernGetNumArgs h kern := by
  simp only [BaremetalCrt.kernGetNumArgs, kernIsValid, ha.kerns]

theorem kernGetArg (kern : Ptr) (i : UInt32) :
    BaremetalCrt.kernGetArg h' kern i = BaremetalCrt.kernGetArg h kern i := by
  simp only [BaremetalCrt.kernGetArg, kernIsValid, ha.kerns]

theorem enqueueSource (arg : KernArg) :
    BaremetalCrt.enqueueSource h' arg = BaremetalCrt.enqueueSource h arg := by
  simp only [BaremetalCrt.enqueueSource, memIsValid, ha.mems]

theorem dequeueTarget (arg : KernArg) :
    BaremetalCrt.dequeueTarget h' arg = BaremetalCrt.dequeueTarget h arg := by
  simp only [BaremetalCrt.dequeueTarget, memIsValid, ha.mems]

/-- The chunk tables change alike. -/
theorem prgSetChunk (prg : Ptr) (i : Int) (c : ProgramChunk) :
    BaremetalCrt.prgSetChunk h' prg i c =
      (BaremetalCrt.prgSetChunk h prg i c).map fun k => { h' with prgs := k.prgs } := by
  simp only [BaremetalCrt.prgSetChunk, prgIsValid, ha.prgs]
  rcases check (isValid clInvalidProgram prg (h.prgs prg).magic) with e | _
  · rfl
  · by_cases hi : i < 0 ∨ (h.prgs prg).numChunks ≤ i
    · simp only [if_pos hi]
      rfl
    · simp only [if_neg hi]
      rfl

end Host.Alike

/-! ## The steps of a launch -/

section Steps

variable {F G : Host δ → Host δ → Prop} {dev : Ptr}

theorem Sys.Alike.mono {s s' : Sys δ} (h : s.Alike F s') (hFG : ∀ k k', F k k' → G k k') : s.Alike G s' :=
  ⟨h.host, hFG _ _ h.same, h.dev, h.hComm, h.writes⟩

/-- A question about the objects has the same answer, which the second part knows. -/
theorem lockstep_query {α β : Type} {f : Host δ → Except ClInt α} {g : α → Launch δ β}
    (hf : ∀ h h', h.Alike h' → f h' = f h) (hFG : ∀ h h', F h h' → G h h')
    (hg : ∀ a, Lockstep (Sys.Alike fun h h' => F h h' ∧ f h = .ok a) (Sys.Alike G) (g a) (g a)) :
    Lockstep (Sys.Alike F) (Sys.Alike G) (query f >>= g) (query f >>= g) := by
  intro s s' hs
  have hsame : f s'.host = f s.host := hf _ _ hs.host
  rcases hr : f s.host with e | a
  · have hq : query f s = (.error e, s) := Prod.ext hr rfl
    have hq' : query f s' = (.error e, s') := Prod.ext (hsame.trans hr) rfl
    rw [bind_error hq, bind_error hq']
    exact ⟨rfl, hs.mono hFG⟩
  · have hq : query f s = (.ok a, s) := Prod.ext hr rfl
    have hq' : query f s' = (.ok a, s') := Prod.ext (hsame.trans hr) rfl
    rw [bind_ok hq, bind_ok hq']
    exact hg a s s' ⟨hs.host, ⟨hs.same, hr⟩, hs.dev, hs.hComm, hs.writes⟩

/-- Two calls with the same result that leave alike states behind. -/
theorem lockstep_devCall {event : Sys δ → Event δ}
    (h : ∀ s s', s.Alike F s' → (event s').ret = (event s).ret ∧
      (s.push (event s)).Alike G (s'.push (event s'))) :
    Lockstep (Sys.Alike F) (Sys.Alike G) (devCall event) (devCall event) := fun s s' hs =>
  ⟨congrArg check (h s s' hs).1, (h s s' hs).2⟩

theorem writes_snoc {tr tr' : List (Event δ)} {e e' : Event δ}
    (h : (writesOf tr').map Event.op = (writesOf tr).map Event.op) (he : e'.op = e.op) :
    (writesOf (tr' ++ [e'])).map Event.op = (writesOf (tr ++ [e])).map Event.op := by
  unfold writesOf at h ⊢
  rw [List.filter_append, List.filter_append, List.map_append, List.map_append, h]
  simp only [List.filter_cons, List.filter_nil, he]
  split <;> simp [he]

theorem lockstep_control (op : DevOp) (slot : DevOps δ → Option (δ → ClInt × δ)) :
    Lockstep (Sys.Alike F) (Sys.Alike F) (devCall (controlEvent op slot dev))
      (devCall (controlEvent op slot dev)) := by
  refine lockstep_devCall fun s s' hs => ?_
  have hout : devControlRet slot s'.host dev s'.dev = devControlRet slot s.host dev s.dev := by
    rw [devControlRet_congr hs.host.devs, hs.dev]
  refine ⟨congrArg Prod.fst hout, ?_, hs.same, congrArg Prod.snd hout, hs.hComm, writes_snoc hs.writes rfl⟩
  exact ⟨hs.host.cmdqs, hs.host.ctxs, hs.host.devs, hs.host.prgs, hs.host.kerns, hs.host.mems⟩

/-- A write that sends the same bytes. -/
theorem lockstep_write (cargo : Cargo) (paddr : UInt64) {buf : CPtr} {len : UInt64}
    (hread : ∀ h h', F h h' → h'.read buf len.toNat = h.read buf len.toNat) :
    Lockstep (Sys.Alike F) (Sys.Alike F) (devWriteMem cargo dev paddr buf len)
      (devWriteMem cargo dev paddr buf len) := by
  refine lockstep_devCall fun s s' hs => ?_
  have hbytes := hread _ _ hs.same
  have hout : devWriteMemRet s'.host dev paddr buf len s'.dev =
      devWriteMemRet s.host dev paddr buf len s.dev := by
    unfold devWriteMemRet devMemRet
    rw [devIsValid_congr hs.host.devs, hs.host.devs, hs.dev, hbytes]
  refine ⟨congrArg Prod.fst hout, ?_, hs.same, congrArg Prod.snd hout, hs.hComm, ?_⟩
  · exact ⟨hs.host.cmdqs, hs.host.ctxs, hs.host.devs, hs.host.prgs, hs.host.kerns, hs.host.mems⟩
  · exact writes_snoc hs.writes (congrArg (DevOp.writeMem cargo paddr) hbytes)

/-- Bytes of the runtime's own are the same. -/
theorem lockstep_writeOwn (cargo : Cargo) (paddr : UInt64) (bs : List UInt8) (len : UInt64) :
    Lockstep (Sys.Alike F) (Sys.Alike F) (devWriteMem cargo dev paddr (.own bs) len)
      (devWriteMem cargo dev paddr (.own bs) len) := lockstep_write cargo paddr fun _ _ _ => rfl

end Steps

/-! ## The phases of a launch -/

section Phases

variable {F : Host δ → Host δ → Prop} {prg kernel dev : Ptr}

theorem prgGetChunk_ok {h : Host δ} {i : Nat} {c : ProgramChunk} (hc : prgGetChunk h prg i = .ok c) :
    prgIsValid h prg = clSuccess ∧ (i : Int) < (h.prgs prg).numChunks ∧ c = (h.prgs prg).chunkAt i := by
  by_cases hv : prgIsValid h prg = clSuccess
  · by_cases hi : (i : Int) < 0 ∨ (h.prgs prg).numChunks ≤ i
    · simp only [prgGetChunk, hv, check_success, if_pos hi] at hc
      cases hc
    · have hlt : (i : Int) < (h.prgs prg).numChunks := by omega
      rw [prgGetChunk_eq_ok hv hlt] at hc
      exact ⟨hv, hlt, (Except.ok.inj hc).symm⟩
  · simp only [prgGetChunk, check, if_neg hv] at hc
    cases hc

/-- A chunk that is marked is sent no more than before. -/
theorem SameSources.markLoaded {h h' : Host δ} (hs : SameSources prg kernel h h') (i : Nat) :
    SameSources prg kernel (h.markLoaded prg i)
      { h' with prgs := (h.markLoaded prg i).prgs } := by
  have hprg : (h.markLoaded prg i).prgs prg =
      (h.prgs prg).putChunk i { (h.prgs prg).chunkAt i with loaded := true } := Function.update_self ..
  refine ⟨fun j hj hskip => ?_, hs.values, hs.buffers⟩
  rw [hprg] at hj hskip ⊢
  by_cases hji : j = i
  · subst hji
    rcases chunkAt_putChunk_self (h.prgs prg) j { (h.prgs prg).chunkAt j with loaded := true }
      with hsame | hput
    · rw [hsame] at hskip ⊢
      exact hs.areas j hj hskip
    · rw [hput] at hskip ⊢
      exact hs.areas j hj fun hbefore => hskip ⟨hbefore.1, rfl⟩
  · rw [chunkAt_putChunk_ne hji] at hskip ⊢
    exact hs.areas j hj hskip

theorem lockstep_sendChunk (i : Nat) :
    Lockstep (Sys.Alike (δ := δ) (SameSources prg kernel)) (Sys.Alike (SameSources prg kernel))
      (sendChunk dev prg i) (sendChunk dev prg i) := by
  refine lockstep_query (fun _ _ h => h.prgGetChunk prg i) (fun _ _ h => h) fun chunk => ?_
  by_cases hskip : chunk.readonly = true ∧ chunk.loaded = true
  · rw [if_pos hskip]
    exact (Lockstep.pure _).mono (fun _ _ hs => hs.mono fun _ _ h => h.1) fun _ _ h => h
  rw [if_neg hskip]
  have hsize : chunk.size.toUInt64.toNat = chunk.size.toNat := UInt32.toNat_toUInt64 ..
  refine Lockstep.bind (lockstep_write (.chunk i) chunk.paddr fun h h' hsame => ?_)
    (fun _ _ hs => hs.mono fun _ _ h => h.1) fun _ => ?_
  · obtain ⟨-, hlt, rfl⟩ := prgGetChunk_ok hsame.2
    rw [hsize]
    exact hsame.1.areas i (by omega) hskip
  · -- the chunk is marked in both
    intro s s' hs
    obtain ⟨hv, hlt, rfl⟩ := prgGetChunk_ok hs.same.2
    have hset := hs.host.prgSetChunk prg i { (s.host.prgs prg).chunkAt i with loaded := true }
    rw [prgSetChunk_eq_ok _ hv hlt] at hset
    have hq : query (prgSetChunk · prg i { (s.host.prgs prg).chunkAt i with loaded := true }) s =
        (.ok (s.host.markLoaded prg i), s) := Prod.ext (prgSetChunk_eq_ok _ hv hlt) rfl
    have hq' : query (prgSetChunk · prg i { (s.host.prgs prg).chunkAt i with loaded := true }) s' =
        (.ok { s'.host with prgs := (s.host.markLoaded prg i).prgs }, s') := Prod.ext hset rfl
    rw [bind_ok hq, bind_ok hq']
    refine ⟨rfl, ⟨?_, hs.same.1.markLoaded i, hs.dev, hs.hComm, hs.writes⟩⟩
    exact ⟨hs.host.cmdqs, hs.host.ctxs, hs.host.devs, rfl, hs.host.kerns, hs.host.mems⟩

theorem lockstep_sendImage :
    Lockstep (Sys.Alike (δ := δ) (SameSources prg kernel)) (Sys.Alike (SameSources prg kernel))
      (sendImage dev prg) (sendImage dev prg) := by
  have hall (n : Nat) : ∀ i, Lockstep (Sys.Alike (δ := δ) (SameSources prg kernel))
      (Sys.Alike (SameSources prg kernel)) (sendChunks dev prg i n) (sendChunks dev prg i n) := by
    induction n with
    | zero => exact fun _ => Lockstep.pure _
    | succ n ih => exact fun i => (lockstep_sendChunk i).bind (fun _ _ h => h) fun _ => ih (i + 1)
  refine lockstep_query (fun _ _ h => h.prgGetNumChunks prg) (fun _ _ h => h) fun num => ?_
  exact (hall _ 0).mono (fun _ _ hs => hs.mono fun _ _ h => h.1) fun _ _ h => h

/-- What an argument sends is the same in both. -/
theorem SameSources.read {h h' : Host δ} (hs : SameSources prg kernel h h') {arg : KernArg}
    (harg : arg ∈ argList (h.kerns kernel)) {ptr : CPtr} {size : UInt64}
    (hsrc : enqueueSource h arg = .ok (ptr, size, true)) :
    h'.read ptr size.toNat = h.read ptr size.toNat := by
  rcases List.mem_cons.mp harg with rfl | harg
  · -- the name is the runtime's own
    have hname : enqueueSource h (nameArg (h.kerns kernel)) =
        .ok ((nameArg (h.kerns kernel)).val, (nameArg (h.kerns kernel)).size, true) := rfl
    obtain ⟨rfl, -⟩ := Prod.mk.inj (Except.ok.inj (hname.symm.trans hsrc))
    rfl
  rcases enqueueSource_eq_ok.mp hsrc with ⟨hval, hsent⟩ | ⟨hmem, -, hsent⟩
  · obtain ⟨rfl, hrest⟩ := Prod.mk.inj hsent
    obtain ⟨rfl, -⟩ := Prod.mk.inj hrest
    exact hs.values arg harg hval
  · obtain ⟨rfl, hrest⟩ := Prod.mk.inj hsent
    obtain ⟨rfl, hread⟩ := Prod.mk.inj hrest
    exact hs.buffers arg harg hmem hread.symm

/-- Sending one argument, which is one of the kernel's. -/
theorem lockstep_enqueueArg (prg kernel : Ptr) (arg : KernArg) (comm : ProgramComm) (paddr : UInt64)
    (harg : ∀ h h' : Host δ, F h h' → SameSources prg kernel h h' ∧ arg ∈ argList (h.kerns kernel)) :
    Lockstep (Sys.Alike F) (Sys.Alike F) (enqueueArg dev arg comm paddr) (enqueueArg dev arg comm paddr) := by
  refine lockstep_query (fun _ _ h => h.enqueueSource arg) (fun _ _ h => h) fun src => ?_
  obtain ⟨ptr, size, need⟩ := src
  refine Lockstep.mono (Q := Sys.Alike fun h h' => F h h' ∧ enqueueSource h arg = .ok (ptr, size, need)) ?_
    (fun _ _ h => h) fun _ _ hs => hs.mono fun _ _ h => h.1
  refine Lockstep.ite (Lockstep.exit _) ?_
  refine Lockstep.bind (lockstep_writeOwn _ _ _ _) (fun _ _ h => h) fun _ => ?_
  cases need with
  | false => exact Lockstep.pure _
  | true =>
    refine Lockstep.bind (lockstep_write .argPayload _ fun h h' hsame => ?_) (fun _ _ h => h) fun _ =>
      Lockstep.pure _
    obtain ⟨hs, hmem⟩ := harg h h' hsame.1
    exact hs.read hmem hsame.2

theorem kernGetArg_mem {h : Host δ} {i : UInt32} {arg : KernArg} (harg : kernGetArg h kernel i = .ok arg) :
    arg ∈ (h.kerns kernel).args := by
  by_cases hv : kernIsValid h kernel = clSuccess
  · by_cases hi : (h.kerns kernel).numArgs ≤ i
    · simp only [kernGetArg, hv, check_success, if_pos hi] at harg
      cases harg
    · have hlt : i.toNat < (h.kerns kernel).args.length := by
        rw [(h.kerns kernel).args_length]
        exact UInt32.lt_iff_toNat_lt.mp (UInt32.not_le.mp hi)
      rw [kernGetArg_eq_ok hv hlt] at harg
      obtain rfl := Except.ok.inj harg
      exact List.getElem_mem hlt
  · simp only [kernGetArg, check, if_neg hv] at harg
    cases harg

theorem lockstep_enqueueArgs (comm : ProgramComm) (n : Nat) : ∀ (i : UInt32) (paddr : UInt64),
    Lockstep (Sys.Alike (δ := δ) (SameSources prg kernel)) (Sys.Alike (SameSources prg kernel))
      (enqueueArgs dev kernel comm i n paddr) (enqueueArgs dev kernel comm i n paddr) := by
  induction n with
  | zero => exact fun _ _ => Lockstep.pure _
  | succ n ih =>
    intro i paddr
    refine lockstep_query (fun _ _ h => h.kernGetArg kernel i) (fun _ _ h => h) fun arg => ?_
    refine Lockstep.bind (Q := Sys.Alike fun h h' => SameSources prg kernel h h' ∧
        kernGetArg h kernel i = .ok arg) (lockstep_enqueueArg prg kernel arg comm paddr fun h h' hsame => ?_)
      (fun _ _ hs => hs.mono fun _ _ h => h.1) fun p => ?_
    · exact ⟨hsame.1, List.mem_cons_of_mem _ (kernGetArg_mem hsame.2)⟩
    · exact (ih (i + 1) p).mono (fun _ _ hs => hs.mono fun _ _ h => h.1) fun _ _ h => h

theorem lockstep_sendArguments :
    Lockstep (Sys.Alike (δ := δ) (SameSources prg kernel)) (Sys.Alike (SameSources prg kernel))
      (sendArguments dev prg kernel) (sendArguments dev prg kernel) := by
  refine lockstep_query (fun _ _ h => h.prgGetComm prg) (fun _ _ h => h) fun comm => ?_
  refine Lockstep.mono ?_ (fun _ _ hs => hs.mono fun _ _ h => h.1) fun _ _ h => h
  refine lockstep_query (fun _ _ h => h.kernGetNumArgs kernel) (fun _ _ h => h) fun numArgs => ?_
  refine Lockstep.mono ?_ (fun _ _ hs => hs.mono fun _ _ h => h.1) fun _ _ h => h
  refine Lockstep.bind (Lockstep.modify fun s s' hs => ⟨hs.host, hs.same, hs.dev, rfl, hs.writes⟩)
    (fun _ _ h => h) fun _ => ?_
  refine Lockstep.bind (lockstep_writeOwn _ _ _ _) (fun _ _ h => h) fun _ => ?_
  refine Lockstep.bind_gets (fun s s' hs => by rw [hs.host.kerns]) fun name => ?_
  -- the name is an argument of the kernel like the others
  have hone (paddr : UInt64) : Lockstep
      (Sys.Alike (δ := δ) fun h h' => SameSources prg kernel h h' ∧ nameArg (h.kerns kernel) = name)
      (Sys.Alike fun h h' => SameSources prg kernel h h' ∧ nameArg (h.kerns kernel) = name)
      (enqueueArg dev name comm paddr) (enqueueArg dev name comm paddr) :=
    lockstep_enqueueArg prg kernel name comm paddr fun h h' hsame =>
      ⟨hsame.1, hsame.2 ▸ List.mem_cons_self ..⟩
  refine Lockstep.mono ((hone _).bind (fun _ _ hs => hs.mono fun _ _ h => h.1) fun p => ?_)
    (fun s s' hs => ⟨hs.1.host, ⟨hs.1.same, hs.2⟩, hs.1.dev, hs.1.hComm, hs.1.writes⟩) fun _ _ h => h
  refine Lockstep.mono ?_ (fun _ _ hs => hs.mono fun _ _ h => h.1) fun _ _ h => h
  exact (lockstep_enqueueArgs comm _ 0 p).bind (fun _ _ h => h) fun _ => Lockstep.pure _

/-- A read of the record has the same answer. -/
theorem lockstep_readHComm (paddr : UInt64) :
    Lockstep (Sys.Alike F) (Sys.Alike F) (devReadHComm dev paddr) (devReadHComm dev paddr) := by
  intro s s' hs
  have hout : devReadMemRet s'.host dev paddr false sizeofCommAreaHeader s'.dev =
      devReadMemRet s.host dev paddr false sizeofCommAreaHeader s.dev := by
    rw [devReadMemRet_congr hs.host.devs, hs.dev]
  have hafter : hCommAfter dev paddr s' = hCommAfter dev paddr s := by
    simp only [hCommAfter, hout, hs.hComm]
  refine ⟨congrArg (fun out : (ClInt × (Nat → Option UInt8)) × δ => check out.1.1) hout, ?_⟩
  refine ⟨?_, hs.same, congrArg Prod.snd hout, hafter, ?_⟩
  · exact ⟨hs.host.cmdqs, hs.host.ctxs, hs.host.devs, hs.host.prgs, hs.host.kerns, hs.host.mems⟩
  · exact writes_snoc hs.writes (congrArg (DevOp.readMem .areaHeader paddr) hafter)

theorem lockstep_poll (comm : ProgramComm) (n : Nat) :
    Lockstep (Sys.Alike F) (Sys.Alike F) (poll dev comm n) (poll dev comm n) := by
  induction n with
  | zero => exact Lockstep.pure _
  | succ n ih =>
    refine (lockstep_control .stop _).bind (fun _ _ h => h) fun _ => ?_
    refine (lockstep_readHComm _).bind (fun _ _ h => h) fun _ => ?_
    refine Lockstep.bind_gets (fun s s' hs => by rw [hs.hComm]) fun header => ?_
    refine Lockstep.mono ?_ (fun _ _ hs => hs.1) fun _ _ h => h
    refine Lockstep.ite (Lockstep.exit _) (Lockstep.ite (Lockstep.pure _) ?_)
    exact (lockstep_control .run _).bind (fun _ _ h => h) fun _ => ih

theorem lockstep_execute (comm : ProgramComm) :
    Lockstep (Sys.Alike F) (Sys.Alike F) (execute dev comm) (execute dev comm) := by
  refine (lockstep_control .run _).bind (fun _ _ h => h) fun _ => ?_
  refine (lockstep_poll comm maxPolls).bind (fun _ _ h => h) fun done => ?_
  exact Lockstep.ite (Lockstep.exit _) (Lockstep.pure _)

/-- What is read into the memory of the host changes its bytes only. -/
theorem lockstep_read (paddr : UInt64) (ptr : Ptr) (len : UInt64) :
    Lockstep (Sys.Alike (δ := δ) fun _ _ => True) (Sys.Alike fun _ _ => True)
      (devReadMem dev paddr ptr len) (devReadMem dev paddr ptr len) := by
  refine lockstep_devCall fun s s' hs => ?_
  have hout : devReadMemRet s'.host dev paddr (ptr == 0) len s'.dev =
      devReadMemRet s.host dev paddr (ptr == 0) len s.dev := by
    rw [devReadMemRet_congr hs.host.devs, hs.dev]
  refine ⟨congrArg (fun out => out.1.1) hout, ?_⟩
  refine ⟨?_, trivial, congrArg Prod.snd hout, hs.hComm, ?_⟩
  · exact ⟨hs.host.cmdqs, hs.host.ctxs, hs.host.devs, hs.host.prgs, hs.host.kerns, hs.host.mems⟩
  · show (writesOf (s'.trace ++ [_])).map Event.op = (writesOf (s.trace ++ [_])).map Event.op
    rw [writesOf_snoc rfl, writesOf_snoc rfl]
    exact hs.writes

theorem lockstep_recvArguments (comm : ProgramComm) (numArgs : UInt32) :
    Lockstep (Sys.Alike (δ := δ) fun _ _ => True) (Sys.Alike fun _ _ => True)
      (recvArguments dev kernel comm numArgs) (recvArguments dev kernel comm numArgs) := by
  have hone (arg : KernArg) (paddr : UInt64) :
      Lockstep (Sys.Alike (δ := δ) fun _ _ => True) (Sys.Alike fun _ _ => True)
        (dequeueArg dev arg comm paddr) (dequeueArg dev arg comm paddr) := by
    refine lockstep_query (fun _ _ h => h.dequeueTarget arg) (fun _ _ h => h) fun target => ?_
    obtain ⟨ptr, size, need⟩ := target
    refine Lockstep.mono ?_ (fun _ _ hs => hs.mono fun _ _ _ => trivial) fun _ _ h => h
    refine Lockstep.ite (Lockstep.exit _) (Lockstep.ite ?_ (Lockstep.pure _))
    exact (lockstep_read _ ptr size).bind (fun _ _ h => h) fun _ => Lockstep.pure _
  have hall (n : Nat) : ∀ i paddr, Lockstep (Sys.Alike (δ := δ) fun _ _ => True)
      (Sys.Alike fun _ _ => True) (dequeueArgs dev kernel comm i n paddr)
      (dequeueArgs dev kernel comm i n paddr) := by
    induction n with
    | zero => exact fun _ _ => Lockstep.pure _
    | succ n ih =>
      intro i paddr
      refine lockstep_query (fun _ _ h => h.kernGetArg kernel i) (fun _ _ h => h) fun arg => ?_
      refine Lockstep.mono ?_ (fun _ _ hs => hs.mono fun _ _ _ => trivial) fun _ _ h => h
      exact (hone arg paddr).bind (fun _ _ h => h) fun p => ih (i + 1) p
  refine Lockstep.bind_gets (fun s s' hs => by rw [hs.host.kerns]) fun name => ?_
  refine Lockstep.mono ?_ (fun _ _ hs => hs.1) fun _ _ h => h
  refine (hone name _).bind (fun _ _ h => h) fun p => ?_
  exact (hall _ 0 p).bind (fun _ _ h => h) fun _ => Lockstep.pure _

/-- **Two launches that find the same sources** go in lockstep. -/
theorem lockstep_launch (cmdq kernel : Ptr) :
    Lockstep (Sys.Alike (δ := δ) fun h h' => SameSources (kernGetProgram h kernel) kernel h h')
      (Sys.Alike fun _ _ => True) (launch cmdq kernel) (launch cmdq kernel) := by
  refine Lockstep.bind_gets (fun s s' hs => hs.host.getDevice cmdq) fun dev => ?_
  refine Lockstep.bind_gets (fun s s' hs => hs.1.host.kernGetProgram kernel) fun prg => ?_
  refine Lockstep.mono (P := Sys.Alike (SameSources prg kernel)) ?_ (fun s s' hs => ?_) fun _ _ h => h
  · have hdone (s s' : Sys δ) (hs : s.Alike (SameSources prg kernel) s') : s.Alike (fun _ _ => True) s' :=
      hs.mono fun _ _ _ => trivial
    refine (lockstep_control .reset _).bind hdone fun _ => ?_
    refine lockstep_sendImage.bind hdone fun _ => ?_
    refine lockstep_sendArguments.bind hdone fun out => ?_
    obtain ⟨comm, numArgs⟩ := out
    refine Lockstep.mono ?_ hdone fun _ _ h => h
    exact (lockstep_execute comm).bind (fun _ _ h => h) fun _ => lockstep_recvArguments comm numArgs
  · obtain ⟨⟨hs, -⟩, rfl⟩ := hs
    exact ⟨hs.host, hs.same, hs.dev, hs.hComm, hs.writes⟩

end Phases

/-! ## What a launch shows -/

section Outcome

variable {h h' : Host δ} {cmdq kernel : Ptr} {d : δ}

/-- The writes to the device that a launch makes, in order and with their bytes. -/
def launchOps (cmdq kernel : Ptr) (h : Host δ) (d : δ) : List DevOp :=
  (writesOf (clEnqueueNDRangeKernel cmdq kernel h d).trace).map Event.op

/-- **Where the sources are the same**, so are the writes, the result, the objects and the device. -/
theorem launch_alike (cmdq : Ptr) (d : δ) (ha : h.Alike h')
    (hs : SameSources (kernGetProgram h kernel) kernel h h') :
    launchOps cmdq kernel h' d = launchOps cmdq kernel h d ∧
      (clEnqueueNDRangeKernel cmdq kernel h' d).ret = (clEnqueueNDRangeKernel cmdq kernel h d).ret ∧
      (clEnqueueNDRangeKernel cmdq kernel h d).host.Alike (clEnqueueNDRangeKernel cmdq kernel h' d).host ∧
      (clEnqueueNDRangeKernel cmdq kernel h' d).dev = (clEnqueueNDRangeKernel cmdq kernel h d).dev := by
  obtain ⟨hret, hend⟩ := lockstep_launch cmdq kernel ⟨h, d, [], []⟩ ⟨h', d, [], []⟩ ⟨ha, hs, rfl, rfl, rfl⟩
  exact ⟨hend.writes, congrArg retOf hret, hend.host, hend.dev⟩

theorem launchPuts_alike (ha : h.Alike h') (prg : Ptr) :
    launchPuts h' prg kernel = launchPuts h prg kernel := by
  simp only [launchPuts, commPlan, ha.prgs, ha.kerns, argPlan_congr ha.mems]

/-- What is transferred is what the sources hold. -/
theorem sameSources_of_data (hup : Uploads h cmdq kernel d)
    (hdata : ∀ p ∈ launchPuts h (kernGetProgram h kernel) kernel, p.data h' = p.data h) :
    SameSources (kernGetProgram h kernel) kernel h h' := by
  obtain ⟨paddr, hplan⟩ := hup.plan
  obtain ⟨hputs, hargs⟩ := argPlan_slots hplan
  have hpayload (arg : KernArg) (harg : arg ∈ (h.kerns kernel).args) : ∃ s : Slot, s.arg = arg ∧
      s.WellFormed h ∧ (s.sent = true → h'.read s.buf s.size.toNat = h.read s.buf s.size.toNat) := by
    have hmem : arg ∈ argList (h.kerns kernel) := List.mem_cons_of_mem _ harg
    rw [← hargs] at hmem
    obtain ⟨s, hs, rfl⟩ := List.mem_map.mp hmem
    refine ⟨s, rfl, argSlots_wellFormed s hs, fun hsent => ?_⟩
    refine hdata ⟨.argPayload, s.payload, s.buf, s.size⟩ (List.mem_append_right _ (List.mem_cons_of_mem _ ?_))
    rw [hputs]
    refine List.mem_flatMap.mpr ⟨s, hs, ?_⟩
    simp [Slot.puts, slotPuts, hsent, Slot.payload]
  refine ⟨fun i hi hskip => ?_, fun arg harg hval => ?_, fun arg harg hmem hread => ?_⟩
  · have hput := hdata (chunkPut i ((h.prgs (kernGetProgram h kernel)).chunkAt i))
      (List.mem_append_left _ ((mem_chunkPuts _ 0).mpr ⟨i, Nat.zero_le i, by omega, hskip, rfl⟩))
    rw [chunkPut_data, chunkPut_data] at hput
    exact hput
  · obtain ⟨s, rfl, hwf, hsame⟩ := hpayload arg harg
    rcases hwf with ⟨-, hbuf, hsize, hsent⟩ | ⟨hmem, -⟩
    · rw [← hbuf, ← hsize]
      exact hsame hsent
    · rw [hval] at hmem
      exact absurd hmem (by decide)
  · obtain ⟨s, rfl, hwf, hsame⟩ := hpayload arg harg
    rcases hwf with ⟨hval, -⟩ | ⟨-, -, hbuf, hsize, hsent⟩
    · rw [hmem] at hval
      exact absurd hval (by decide)
    · have hbytes := hsame (hsent.trans hread)
      rw [hbuf, hsize] at hbytes
      exact hbytes

/-- **A launch that gets as far as the run** shows its sources: other bytes there are other writes. -/
theorem launchOps_iff (ha : h.Alike h') (hup : Uploads h cmdq kernel d) :
    launchOps cmdq kernel h' d = launchOps cmdq kernel h d ↔
      SameSources (kernGetProgram h kernel) kernel h h' := by
  refine ⟨fun hops => ?_, fun hs => (launch_alike _ _ ha hs).1⟩
  have hdev := ha.getDevice cmdq
  have hprg := ha.kernGetProgram kernel
  -- all transfers went through in the first
  have hfirst : launchOps cmdq kernel h d =
      (launchPuts h (kernGetProgram h kernel) kernel).map (Put.op h) := by
    rw [launchOps, clEnqueueNDRangeKernel_writes, launchWrites, if_pos ⟨hup.reset, hup.program⟩]
    exact (transfer_ok hup.sent).1
  have hsecond : launchOps cmdq kernel h' d <+:
      (launchPuts h (kernGetProgram h kernel) kernel).map (Put.op h') := by
    rw [launchOps, clEnqueueNDRangeKernel_writes, launchWrites, hprg, launchPuts_alike ha]
    split
    · exact transfer_events_initial _ _
    · exact List.nil_prefix
  rw [hops, hfirst] at hsecond
  have hsame := hsecond.eq_of_length (by rw [List.length_map, List.length_map])
  refine sameSources_of_data hup fun p hp => ?_
  have hop : p.op h = p.op h' := List.map_inj_left.mp hsame p hp
  injection hop with _ _ hdata
  exact hdata.symm

end Outcome

end BaremetalCrt
