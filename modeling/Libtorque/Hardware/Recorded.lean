import Libtorque.Hardware.Apic
import Libtorque.Hardware.AmdCaches
import Libtorque.Hardware.Enumeration

/-! # What is recorded of a processor

Where `x86cpuid` or `cudaid` succeeds, the fields of every cache and TLB are
set. The exception is a size: leaf 4 may describe a cache whose bytes are a
multiple of 4 GB. -/
namespace Libtorque.Hardware

/-! ## CUDA -/

/-- The answers of the CUDA library for a device, whose version numbers are not
negative, and whether there is memory for its name. -/
structure CudaDevice where
  deviceGet : Bool
  properties : Option (Nat × Nat)
  warpSize : Option Int
  multiprocessorCount : Option Int
  totalMem : Bool
  malloc : Bool
  name : Option String

/-- `cuDeviceGetAttribute`, where the answer is to be positive. -/
def cudaAttribute (attr : Option Int) : Option Nat :=
  attr.bind fun attr => if attr ≤ 0 then none else some attr.toNat

def cudaid (dev : CudaDevice) : Except TorqueErr TorqueCput :=
  if !dev.deviceGet then .error .inval
  else match dev.properties with
    | none => .error .inval
    | some (major, minor) =>
      match cudaAttribute dev.warpSize, cudaAttribute dev.multiprocessorCount with
      | some _, some coresperpackage =>
        if !dev.totalMem then .error .assert
        else if !dev.malloc then .error .resource
        else match dev.name with
          | none => .error .assert
          | some strdescription => .ok
            { elements := 0, threadspercore := 1, coresperpackage, tlbdescs := []
              strdescription, memdescs := [], spec := .nvidia major minor }
      | _, _ => .error .assert

/-! ## Descriptions -/

/-- All but the size is set; the numbers of bytes fit a `uintmax_t`. -/
structure TorqueMem.Described (m : TorqueMem) : Prop where
  memtype : m.memtype ≠ .unknown
  totalsize : m.totalsize < 2 ^ 64
  linesize : 0 < m.linesize ∧ m.linesize < 2 ^ 64
  associativity : 0 < m.associativity
  sharedways : 0 < m.sharedways
  level : 0 < m.level

structure TorqueTlb.Described (t : TorqueTlb) : Prop where
  tlbtype : t.tlbtype ≠ .unknown
  pagesize : 0 < t.pagesize ∧ t.pagesize < 2 ^ 64
  associativity : 0 < t.associativity
  sharedways : 0 < t.sharedways
  entries : 0 < t.entries ∧ t.entries < 2 ^ 64
  level : 0 < t.level

/-- The tables of a processor are filled in. The size of a cache is 0 only where
`wraps` holds of it. -/
structure Described (wraps : TorqueMem → Prop) (cpu : TorqueCput) : Prop where
  threads : 0 < cpu.threadspercore
  memories : ∀ m ∈ cpu.memdescs, m.Described
  sizes : ∀ m ∈ cpu.memdescs, m.totalsize = 0 → wraps m
  tlbs : ∀ t ∈ cpu.tlbdescs, t.Described

/-- What holds of the processor that a step yields. -/
def Yields (p : TorqueCput → Prop) (x : Option TorqueCput) : Prop := ∀ c, x = some c → p c

section Yields
variable {α : Type} {p q : TorqueCput → Prop} {x y : Option TorqueCput} {c : TorqueCput}

theorem yields_none : Yields p none := fun _ h => by cases h

theorem yields_some (h : p c) : Yields p (some c) := fun _ hc => Option.some.inj hc ▸ h

theorem yields_ite {b : Prop} [Decidable b] (hx : b → Yields p x) (hy : ¬ b → Yields p y) :
    Yields p (if b then x else y) := by
  split
  · exact hx ‹b›
  · exact hy ‹¬ b›

theorem yields_bind {o : Option α} {f : α → Option TorqueCput}
    (h : ∀ a, o = some a → Yields p (f a)) : Yields p (o >>= f) := by
  intro c hc
  obtain ⟨a, ha, hc⟩ := Option.bind_eq_some_iff.mp hc
  exact h a ha c hc

theorem Yields.bind {f : TorqueCput → Option TorqueCput} (hx : Yields p x)
    (hf : ∀ c, p c → Yields q (f c)) : Yields q (x >>= f) :=
  yields_bind fun c hc => hf c (hx c hc)

theorem Yields.mono (hx : Yields p x) (h : ∀ c, p c → q c) : Yields q x := fun c hc => h c (hx c hc)

end Yields

variable {P : Processor} {cpu c : TorqueCput} {wraps : TorqueMem → Prop} {maxlevel : Word} {n : Nat}
  {ff : FeatureFlags} {m : TorqueMem} {t : TorqueTlb}

theorem addHwmem_described (h : Described wraps cpu) (hm : m.Described)
    (hsize : m.totalsize = 0 → wraps m) :
    Yields (fun c => Described wraps c ∧ SameCounts cpu c) (addHwmem P cpu m) := by
  refine yields_ite (fun _ => yields_some ⟨⟨h.threads, ?_, ?_, h.tlbs⟩, rfl, rfl⟩)
    fun _ => yields_none
  · intro a ha
    rcases List.mem_cons.mp ((insertDesc_perm m cpu.memdescs).mem_iff.mp ha) with rfl | ha
    · exact hm
    · exact h.memories a ha
  · intro a ha
    rcases List.mem_cons.mp ((insertDesc_perm m cpu.memdescs).mem_iff.mp ha) with rfl | ha
    · exact hsize
    · exact h.sizes a ha

theorem addTlb_described (h : Described wraps cpu) (ht : t.Described) :
    Yields (fun c => Described wraps c ∧ SameCounts cpu c) (addTlb P cpu t) := by
  refine yields_ite (fun _ => yields_some ⟨⟨h.threads, h.memories, h.sizes, ?_⟩, rfl, rfl⟩)
    fun _ => yields_none
  intro a ha
  rcases List.mem_cons.mp ((insertDesc_perm t cpu.tlbdescs).mem_iff.mp ha) with rfl | ha
  · exact ht
  · exact h.tlbs a ha

/-! ## Intel -/

theorem getIntelCache_described {descriptor ways : Nat} (hways : 0 < ways)
    (h : getIntelCache descriptor ways = some m) : m.Described ∧ m.totalsize ≠ 0 := by
  have htable : ∀ d ∈ intelCacheDescriptors, d.memtype ≠ .unknown ∧
      (0 < d.linesize ∧ d.linesize < 2 ^ 64) ∧ 0 < d.associativity ∧ 0 < d.level ∧
      d.totalsize ≠ 0 ∧ d.totalsize < 2 ^ 64 := by decide +kernel
  obtain ⟨d, hd, rfl⟩ := Option.map_eq_some_iff.mp h
  obtain ⟨htype, hline, hassoc, hlevel, hsize, hfits⟩ := htable d (List.mem_of_find?_eq_some hd)
  exact ⟨⟨htype, hfits, hline, hassoc, hways, hlevel⟩, hsize⟩

theorem getIntelTlb_described {descriptor ways : Nat} (hways : 0 < ways)
    (h : getIntelTlb descriptor ways = some t) : t.Described := by
  have htable : ∀ d ∈ intelTlbDescriptors, d.tlbtype ≠ .unknown ∧
      (0 < d.pagesize ∧ d.pagesize < 2 ^ 64) ∧ 0 < d.associativity ∧
      (0 < d.entries ∧ d.entries < 2 ^ 64) ∧ 0 < d.level := by decide +kernel
  obtain ⟨d, hd, rfl⟩ := Option.map_eq_some_iff.mp h
  obtain ⟨htype, hpage, hassoc, hentries, hlevel⟩ := htable d (List.mem_of_find?_eq_some hd)
  exact ⟨htype, hpage, hassoc, hways, hentries, hlevel⟩

theorem decodeIntelDescriptor_described {descriptor : Nat} (h : Described wraps cpu) :
    Yields (Described wraps) (decodeIntelDescriptor P cpu descriptor) := by
  unfold decodeIntelDescriptor
  refine yields_ite (fun _ => yields_some h) fun _ => ?_
  split
  · rename_i mem hmem
    obtain ⟨hm, hsize⟩ := getIntelCache_described h.threads hmem
    refine yields_ite (fun _ => yields_some h) fun _ => ?_
    exact (addHwmem_described h hm fun hzero => absurd hzero hsize).mono fun _ hc => hc.1
  · split
    · rename_i tlb htlb
      exact (addTlb_described h (getIntelTlb_described h.threads htlb)).mono fun _ hc => hc.1
    · exact yields_ite (fun _ => yields_some h) fun _ =>
        yields_ite (fun _ => yields_some h) fun _ => yields_none

theorem foldlM_described {bytes : List Nat} (h : Described wraps cpu) :
    Yields (Described wraps) (bytes.foldlM (decodeIntelDescriptor P) cpu) := by
  induction bytes generalizing cpu with
  | nil => exact yields_some h
  | cons b bytes ih =>
    rw [List.foldlM_cons]
    exact (decodeIntelDescriptor_described h).bind fun _ hc => ih hc

theorem idIntelCachesOld_described (h : Described wraps cpu) :
    Yields (Described wraps) (idIntelCachesOld P maxlevel cpu) :=
  yields_ite (fun _ => yields_none) fun _ =>
    yields_ite (fun _ => yields_none) fun _ => foldlM_described h

theorem intelCores_described {cpp : Nat} (h : Described wraps cpu) :
    Yields (Described wraps) (intelCores maxlevel cpp cpu) := by
  have hkept {k : Nat} : Described wraps { cpu with coresperpackage := k } :=
    ⟨h.threads, h.memories, h.sizes, h.tlbs⟩
  refine yields_ite (fun _ => yields_ite (fun _ => ?_) fun _ => yields_some hkept) fun _ => ?_
  · refine yields_ite (fun _ => yields_none) fun hne => yields_some ?_
    exact ⟨Nat.pos_of_ne_zero hne, h.memories, h.sizes, h.tlbs⟩
  · exact yields_ite (fun _ => yields_none) fun _ =>
      yields_ite (fun _ => yields_none) fun _ => yields_some h

theorem intelMem_described {r : Regs} {memtype : TorqueMemtype} {ways : Nat}
    (h : intelCachetype (intelType r) = some memtype) (hlevel : 0 < intelLevel r) :
    (intelMem ways r).Described where
  memtype := by
    unfold intelMem
    rw [h, Option.getD_some]
    have htype : memtype ≠ .unknown := by
      unfold intelCachetype at h
      split at h <;> cases h <;> decide
    exact htype
  totalsize := Nat.lt_trans (Nat.mod_lt _ (by decide)) (by decide : 2 ^ 32 < 2 ^ 64)
  linesize := ⟨Nat.succ_pos _, Nat.lt_of_le_of_lt (Nat.succ_le_succ (field_le _ _ _)) (by decide)⟩
  associativity := by
    unfold intelMem
    dsimp only
    split
    · exact Nat.one_pos
    · exact Nat.succ_pos _
  sharedways := Nat.lt_of_lt_of_le (Nat.succ_pos _) (Nat.le_max_left _ _)
  level := hlevel

/-- One pass over leaf 4. -/
theorem intelCacheLoop_described {level k i maxdc : Nat} {x : Nat × TorqueCput} (hlevel : 0 < level)
    (hwraps : ∀ i ways, intelTotalsize (leaf4 P i) = 0 → wraps (intelMem ways (leaf4 P i)))
    (h : Described wraps cpu)
    (hx : intelCacheLoop P maxlevel level k i maxdc cpu = some x) : Described wraps x.2 := by
  induction k generalizing i maxdc cpu with
  | zero => cases hx
  | succ k ih =>
    rw [intelCacheLoop_succ] at hx
    split at hx
    · cases hx
      exact h
    obtain ⟨memtype, hmemtype, hx⟩ := Option.bind_eq_some_iff.mp hx
    dsimp only at hx
    split at hx
    · exact ih h hx
    · rename_i hsame
      have hpos : 0 < intelLevel (leaf4 P i) := by omega
      obtain ⟨c, hcores, hx⟩ := Option.bind_eq_some_iff.mp hx
      obtain ⟨d, hadd, hx⟩ := Option.bind_eq_some_iff.mp hx
      rw [intelMem_memtype hmemtype] at hadd
      have hc := intelCores_described h c hcores
      have hd := addHwmem_described hc (intelMem_described hmemtype hpos) (hwraps i _) d hadd
      exact ih hd.1 hx

theorem intelCacheLevels_described {m k level maxdc : Nat} (hlevel : 0 < level)
    (hwraps : ∀ i ways, intelTotalsize (leaf4 P i) = 0 → wraps (intelMem ways (leaf4 P i)))
    (h : Described wraps cpu) :
    Yields (Described wraps) (intelCacheLevels P maxlevel m k level maxdc cpu) := by
  induction k generalizing level maxdc cpu with
  | zero => exact yields_none
  | succ k ih =>
    refine yields_bind fun x hx => ?_
    have hpass := intelCacheLoop_described hlevel hwraps h hx
    exact yields_ite (fun _ => ih (Nat.succ_pos level) hpass) fun _ => yields_some hpass

theorem idIntelCaches_described (ff : FeatureFlags)
    (hwraps : ¬ maxlevel < 0x4 → ∀ i ways, intelTotalsize (leaf4 P i) = 0 →
      wraps (intelMem ways (leaf4 P i)))
    (h : Described wraps cpu) : Yields (Described wraps) (idIntelCaches n P maxlevel ff cpu) := by
  refine yields_ite (fun _ => ?_) fun hmax => ?_
  · exact idIntelCachesOld_described ⟨h.threads, h.memories, h.sizes, h.tlbs⟩
  · exact (intelCacheLevels_described Nat.one_pos (hwraps hmax) h).bind fun _ hc =>
      idIntelCachesOld_described hc

/-! ## AMD -/

theorem nonzero_pos {assoc ents : Nat} {r : Nat × Nat} (h : nonzero assoc ents = some r) :
    0 < r.1 ∧ 0 < r.2 ∧ r.2 = ents := by
  unfold nonzero at h
  split at h
  · rename_i hne
    cases h
    exact ⟨Nat.pos_of_ne_zero hne.1, Nat.pos_of_ne_zero hne.2, rfl⟩
  · cases h

/-- What an AMD processor has been described as by now: it has cores, too. -/
def AmdDescribed (wraps : TorqueMem → Prop) (cpu : TorqueCput) : Prop :=
  Described wraps cpu ∧ 0 < cpu.coresperpackage

theorem addHwmem_amd (h : AmdDescribed wraps cpu) (hm : m.Described) (hsize : m.totalsize ≠ 0) :
    Yields (AmdDescribed wraps) (addHwmem P cpu m) :=
  (addHwmem_described h.1 hm fun hzero => absurd hzero hsize).mono fun _ hc =>
    ⟨hc.1, hc.2.2 ▸ h.2⟩

theorem addTlb_amd (h : AmdDescribed wraps cpu) (ht : t.Described) :
    Yields (AmdDescribed wraps) (addTlb P cpu t) :=
  (addTlb_described h.1 ht).mono fun _ hc => ⟨hc.1, hc.2.2 ▸ h.2⟩

theorem addAmdTlb_amd {present : Bool} {assoc ents pagesize level : Nat} {tlbtype : TorqueMemtype}
    (h : AmdDescribed wraps cpu) (hpage : 0 < pagesize ∧ pagesize < 2 ^ 64) (hents : ents < 2 ^ 64)
    (htype : tlbtype ≠ .unknown)
    (hlevel : 0 < level) :
    Yields (AmdDescribed wraps)
      (addAmdTlb P present (nonzero assoc ents) pagesize tlbtype level cpu) := by
  refine yields_ite (fun _ => yields_bind fun r hr => ?_) fun _ => yields_some h
  obtain ⟨hassoc, hpos, hle⟩ := nonzero_pos hr
  exact addTlb_amd h ⟨htype, hpage, hassoc, h.1.threads, ⟨hpos, hle ▸ hents⟩, hlevel⟩

theorem scaleAmdL23tlb_lt {dents psize : Nat} (h : dents < 2 ^ 64) :
    scaleAmdL23tlb dents psize < 2 ^ 64 := by
  unfold scaleAmdL23tlb
  repeat' split
  all_goals omega

theorem field_lt {w : Word} {lo : Nat} {mask : Word} : field w lo mask < 2 ^ 64 :=
  Nat.lt_of_le_of_lt (field_le w lo mask) (Nat.lt_trans mask.isLt (by decide))

theorem addAmdDtlb_amd {reg : Word} {psize level : Nat}
    (hpage : 0 < psize ∧ psize < 2 ^ 64) (hlevel : 0 < level) (h : AmdDescribed wraps cpu) :
    Yields (AmdDescribed wraps) (addAmdDtlb P reg psize level cpu) :=
  addAmdTlb_amd h hpage (scaleAmdL23tlb_lt field_lt) (by decide) hlevel

theorem addAmdItlb_amd {reg : Word} {psize level : Nat}
    (hpage : 0 < psize ∧ psize < 2 ^ 64) (hlevel : 0 < level) (h : AmdDescribed wraps cpu) :
    Yields (AmdDescribed wraps) (addAmdItlb P reg psize level cpu) :=
  addAmdTlb_amd h hpage (scaleAmdL23tlb_lt field_lt) (by decide) hlevel

theorem decodeAmdL1cache_pos {reg : Word} {r : Nat × Nat × Nat}
    (h : decodeAmdL1cache reg = some r) :
    (r.1 ≠ 0 ∧ r.1 < 2 ^ 64) ∧ 0 < r.2.1 ∧ 0 < r.2.2 ∧ r.2.2 < 2 ^ 64 := by
  unfold decodeAmdL1cache at h
  dsimp only at h
  split at h
  · cases h
  · rename_i hline
    split at h
    · rename_i hne
      cases h
      have hfits : field reg 24 0xff * 1024 < 2 ^ 64 := by
        have hle := field_le reg 24 0xff
        have hmask : (0xff : Word).toNat = 255 := rfl
        omega
      exact ⟨⟨hne.1, hfits⟩, Nat.pos_of_ne_zero hne.2, Nat.pos_of_ne_zero hline, field_lt⟩
    · cases h

theorem decodeAmdL23cache_pos {reg : Word} {shift mul : Nat} {r : Nat × Nat × Nat}
    (h : decodeAmdL23cache reg shift mul = some r) :
    (r.1 ≠ 0 ∧ r.1 < 2 ^ 64) ∧ 0 < r.2.1 ∧ 0 < r.2.2 ∧ r.2.2 < 2 ^ 64 := by
  unfold decodeAmdL23cache at h
  dsimp only at h
  split at h
  · cases h
  · rename_i hline
    split at h
    · rename_i hne
      cases h
      have hfits : (reg.toNat >>> shift) * 1024 * mul % 2 ^ 32 < 2 ^ 64 :=
        Nat.lt_trans (Nat.mod_lt _ (by decide)) (by decide)
      exact ⟨⟨hne.1, hfits⟩, Nat.pos_of_ne_zero hne.2, Nat.pos_of_ne_zero hline, field_lt⟩
    · cases h

theorem decodeAmdL1tlb_pos {reg : Word} {r : (Nat × Nat) × (Nat × Nat)}
    (h : decodeAmdL1tlb reg = some r) :
    (0 < r.1.1 ∧ 0 < r.1.2 ∧ r.1.2 < 2 ^ 64) ∧ 0 < r.2.1 ∧ 0 < r.2.2 ∧ r.2.2 < 2 ^ 64 := by
  obtain ⟨d, hd, h⟩ := Option.bind_eq_some_iff.mp h
  obtain ⟨i, hi, h⟩ := Option.bind_eq_some_iff.mp h
  cases h
  obtain ⟨hassoc, hpos, heq⟩ := nonzero_pos hd
  obtain ⟨hassoc', hpos', heq'⟩ := nonzero_pos hi
  exact ⟨⟨hassoc, hpos, heq ▸ field_lt⟩, hassoc', hpos', heq' ▸ field_lt⟩

theorem addAmdCache_amd {reg : Word} {shift mul sharedways level : Nat}
    (h : AmdDescribed wraps cpu) (hways : 0 < sharedways) (hlevel : 0 < level) :
    Yields (AmdDescribed wraps) (addAmdCache P reg shift mul sharedways level cpu) := by
  refine yields_ite (fun _ => yields_bind fun r hr => ?_) fun _ => yields_some h
  obtain ⟨⟨hsize, hfits⟩, hassoc, hline⟩ := decodeAmdL23cache_pos hr
  have htype : TorqueMemtype.unified ≠ .unknown := by decide
  exact addHwmem_amd h ⟨htype, hfits, hline, hassoc, hways, hlevel⟩ hsize

theorem determineAmdPagesize_pos (ff : FeatureFlags) :
    0 < determineAmdPagesize ff ∧ determineAmdPagesize ff < 2 ^ 64 := by
  unfold determineAmdPagesize
  split <;> decide

theorem idAmdGbtlbs_amd (h : AmdDescribed wraps cpu) :
    Yields (AmdDescribed wraps) (idAmdGbtlbs P maxlevel ff cpu) := by
  refine yields_ite (fun _ => yields_some h) fun _ => ?_
  refine yields_ite (fun _ => yields_some h) fun _ => ?_
  refine (addAmdDtlb_amd (by decide) (by decide) h).bind fun _ h => ?_
  refine (addAmdItlb_amd (by decide) (by decide) h).bind fun _ h => ?_
  refine (addAmdDtlb_amd (by decide) (by decide) h).bind fun _ h => ?_
  exact addAmdItlb_amd (by decide) (by decide) h

theorem idAmd23caches_amd (h : AmdDescribed wraps cpu) :
    Yields (AmdDescribed wraps) (idAmd23caches P maxlevel ff cpu) := by
  have hpage := determineAmdPagesize_pos ff
  refine yields_ite (fun _ => yields_some h) fun _ => ?_
  refine (addAmdCache_amd h h.1.threads (by decide)).bind fun _ h => ?_
  refine (addAmdCache_amd h h.2 (by decide)).bind fun _ h => ?_
  refine (addAmdDtlb_amd hpage (by decide) h).bind fun _ h => ?_
  refine (addAmdItlb_amd hpage (by decide) h).bind fun _ h => ?_
  refine (addAmdDtlb_amd (by decide) (by decide) h).bind fun _ h => ?_
  refine (addAmdItlb_amd (by decide) (by decide) h).bind fun _ h => ?_
  exact idAmdGbtlbs_amd h

theorem idAmdCaches_amd (maxlevel : Word) (h : AmdDescribed wraps cpu) :
    Yields (AmdDescribed wraps) (idAmdCaches P maxlevel ff cpu) := by
  have hpage := determineAmdPagesize_pos ff
  have hways := h.1.threads
  refine yields_ite (fun _ => yields_none) fun _ => ?_
  refine yields_bind fun i hi => yields_bind fun d hd => yields_bind fun tlbs htlbs => ?_
  obtain ⟨⟨isize, ifits⟩, iassoc, iline⟩ := decodeAmdL1cache_pos hi
  obtain ⟨⟨dsize, dfits⟩, dassoc, dline⟩ := decodeAmdL1cache_pos hd
  obtain ⟨d24, i24⟩ := decodeAmdL1tlb_pos htlbs
  refine yields_bind fun tlbs htlbs => ?_
  obtain ⟨d4, i4⟩ := decodeAmdL1tlb_pos htlbs
  have hcode : TorqueMemtype.code ≠ .unknown := by decide
  have hdata : TorqueMemtype.data ≠ .unknown := by decide
  have hone : 0 < 1 := Nat.one_pos
  have hsmall : 0 < 4096 ∧ 4096 < 2 ^ 64 := by decide
  refine (addHwmem_amd h ⟨hcode, ifits, iline, iassoc, hways, hone⟩ isize).bind fun c hc => ?_
  refine (addHwmem_amd hc ⟨hdata, dfits, dline, dassoc, hways, hone⟩ dsize).bind fun c hc => ?_
  refine (addTlb_amd hc ⟨hdata, hsmall, d4.1, hways, d4.2, hone⟩).bind fun c hc => ?_
  refine (addTlb_amd hc ⟨hdata, hpage, d24.1, hways, d24.2, hone⟩).bind fun c hc => ?_
  refine (addTlb_amd hc ⟨hcode, hsmall, i4.1, hways, i4.2, hone⟩).bind fun c hc => ?_
  refine (addTlb_amd hc ⟨hcode, hpage, i24.1, hways, i24.2, hone⟩).bind fun c hc => ?_
  exact idAmd23caches_amd hc

/-! ## The whole description -/

/-- The family in leaf 1. -/
def processorFamily (P : Processor) : Nat :=
  field (P.cpuid 0x1 0).eax 17 0x7f8 ||| field (P.cpuid 0x1 0).eax 8 0xf

/-- The cache is that of an entry of Intel's leaf 4, whose size does not leave
anything in 32 bits. -/
def Wraps (P : Processor) (m : TorqueMem) : Prop :=
  lookupVendor (P.cpuid 0x0 0) = some .intel ∧ ¬ (P.cpuid 0x0 0).eax < 0x4 ∧
    ∃ i ways, m = intelMem ways (leaf4 P i) ∧ intelTotalsize (leaf4 P i) = 0

/-- An x86 processor of a known type and this family. -/
def OfFamily (family : Nat) (s : Spec) : Prop :=
  ∃ x, s = .x86 x ∧ x.x86type ≠ .unknown ∧ x.family = family

/-- A description without tables. -/
structure Blank (family : Nat) (cpu : TorqueCput) : Prop where
  memdescs : cpu.memdescs = []
  tlbdescs : cpu.tlbdescs = []
  spec : OfFamily family cpu.spec

/-- One that tells the number of threads, and of cores where it is AMD's. -/
structure Outlined (vendor : X86Vendor) (family : Nat) (cpu : TorqueCput) : Prop
    extends Blank family cpu where
  threads : vendor ≠ .via → 0 < cpu.threadspercore
  cores : vendor = .amd → 0 < cpu.coresperpackage

variable {family : Nat} {vendor : X86Vendor}

theorem Blank.described (h : Blank family cpu) (hthreads : 0 < cpu.threadspercore) :
    Described wraps cpu where
  threads := hthreads
  memories := by simp [h.memdescs]
  sizes := by simp [h.memdescs]
  tlbs := by simp [h.tlbdescs]

theorem le_roundUp (n t : Nat) : t ≤ roundUp n t := by
  induction n generalizing t with
  | zero => exact Nat.le_refl t
  | succ n ih =>
    rw [roundUp]
    split
    · exact Nat.le_trans (Nat.le_succ t) (ih (t + 1))
    · exact Nat.le_refl t

theorem idX86Topology_outlined (h : Blank family cpu)
    (hcores : vendor = .amd → 0 < cpu.coresperpackage) :
    Yields (Outlined vendor family) (idX86Topology P maxlevel ff cpu) := by
  refine yields_ite (fun _ => yields_none) fun _ => yields_ite (fun _ => yields_none) fun hne => ?_
  refine yields_some ⟨⟨h.memdescs, h.tlbdescs, h.spec⟩, fun _ => ?_, hcores⟩
  exact Nat.lt_of_lt_of_le (Nat.pos_of_ne_zero hne) (le_roundUp _ _)

theorem storeApic_outlined (h : Outlined vendor family cpu) :
    Yields (Outlined vendor family) (storeApic n P maxlevel cpu) := by
  refine yields_bind fun apic _ => yields_some ?_
  obtain ⟨x, hx, htype, hfamily⟩ := h.spec
  unfold TorqueCput.modifyX86
  rw [hx]
  exact ⟨⟨h.memdescs, h.tlbdescs, _, rfl, htype, hfamily⟩, h.threads, h.cores⟩

theorem idIntelTopology_outlined (h : Blank family cpu) :
    Yields (Outlined .intel family) (idIntelTopology n P maxlevel ff cpu) := by
  refine yields_ite (fun _ => idX86Topology_outlined h nofun) fun _ => ?_
  refine yields_ite (fun _ => yields_none) fun _ => yields_ite (fun _ => yields_none) fun hne => ?_
  refine yields_ite (fun _ => yields_none) fun _ => yields_ite (fun _ => yields_none) fun _ => ?_
  exact storeApic_outlined
    ⟨⟨h.memdescs, h.tlbdescs, h.spec⟩, fun _ => Nat.pos_of_ne_zero hne, nofun⟩

theorem idAmdTopology_outlined (h : Blank family cpu) :
    Yields (Outlined .amd family) (idAmdTopology n P maxlevel ff cpu) := by
  have hblank (k : Nat) : Blank family { cpu with coresperpackage := k } :=
    ⟨h.memdescs, h.tlbdescs, h.spec⟩
  refine yields_ite (fun _ => idX86Topology_outlined (hblank 1) fun _ => Nat.one_pos) fun _ => ?_
  have hcores (w : Word) :
      0 < if field w 12 0xf ≠ 0 then 2 ^ field w 12 0xf else field w 0 0xff + 1 := by
    split
    · exact Nat.two_pow_pos _
    · exact Nat.succ_pos _
  refine yields_ite (fun _ => idX86Topology_outlined (hblank _) fun _ => hcores _) fun _ => ?_
  exact storeApic_outlined
    ⟨⟨h.memdescs, h.tlbdescs, h.spec⟩, fun _ => Nat.one_pos, fun _ => hcores _⟩

theorem topfxn_outlined (h : Blank family cpu) :
    Yields (Outlined vendor family) (vendor.topfxn n P maxlevel ff cpu) := by
  cases vendor with
  | intel => exact idIntelTopology_outlined h
  | amd => exact idAmdTopology_outlined h
  | via => exact yields_some ⟨h, fun hne => absurd rfl hne, nofun⟩

theorem memfxn_described (h : Outlined vendor family cpu) (hvendor : vendor ≠ .via)
    (hwraps : vendor = .intel → ¬ maxlevel < 0x4 → ∀ i ways, intelTotalsize (leaf4 P i) = 0 →
      wraps (intelMem ways (leaf4 P i))) :
    Yields (Described wraps) (vendor.memfxn n P maxlevel ff cpu) := by
  have hdescribed : Described wraps _ := h.described (h.threads hvendor)
  cases vendor with
  | intel => exact idIntelCaches_described ff (hwraps rfl) hdescribed
  | amd => exact (idAmdCaches_amd maxlevel ⟨hdescribed, h.cores rfl⟩).mono fun _ hc => hc.1
  | via => exact absurd rfl hvendor

theorem x86Getprocsig_typed {x x' : X86Details} {ff : FeatureFlags}
    (h : x86Getprocsig P maxlevel x = some (x', ff)) :
    x'.x86type ≠ .unknown ∧ x'.family = processorFamily P := by
  have htype (b : Prop) [Decidable b] : (if b then X86Type.oem else .dual) ≠ .unknown := by
    split <;> decide
  unfold x86Getprocsig at h
  split at h
  · cases h
  · dsimp only at h
    split at h
    all_goals
      cases h
      exact ⟨htype _, rfl⟩

/-- Nothing but the name is written. -/
theorem x86Getbrandname_described (h : Described wraps cpu) :
    Yields (Described wraps) (x86Getbrandname P cpu) :=
  yields_ite (fun _ => yields_none) fun _ =>
    yields_ite (fun _ => yields_some ⟨h.threads, h.memories, h.sizes, h.tlbs⟩) fun _ => yields_none

theorem x86Getbrandname_threads (h : x86Getbrandname P cpu = some c) :
    c.threadspercore = cpu.threadspercore := by
  have hkept : Yields (·.threadspercore = cpu.threadspercore) (x86Getbrandname P cpu) :=
    yields_ite (fun _ => yields_none) fun _ =>
      yields_ite (fun _ => yields_some rfl) fun _ => yields_none
  exact hkept c h

theorem x86topology_threads {apic : Nat} {r : Nat × Nat × Nat}
    (h : x86topology cpu apic = some r) : 0 < cpu.threadspercore := by
  unfold x86topology at h
  dsimp only at h
  split at h
  · cases h
  · rename_i hne
    exact Nat.pos_of_ne_zero hne

theorem described_of_x86cpuid {d : Detected} (h : x86cpuid n P = some d) :
    Described (Wraps P) d.details ∧ OfFamily (processorFamily P) d.details.spec := by
  unfold x86cpuid at h
  split at h
  swap
  · cases h
  obtain ⟨vendor, hv, h⟩ := Option.bind_eq_some_iff.mp h
  obtain ⟨⟨sig, ff⟩, hsig, h⟩ := Option.bind_eq_some_iff.mp h
  obtain ⟨c1, h1, h⟩ := Option.bind_eq_some_iff.mp h
  obtain ⟨c2, h2, h⟩ := Option.bind_eq_some_iff.mp h
  obtain ⟨c3, h3, h⟩ := Option.bind_eq_some_iff.mp h
  obtain ⟨place, htop, h⟩ := Option.bind_eq_some_iff.mp h
  cases h
  obtain ⟨htype, hfamily⟩ := x86Getprocsig_typed hsig
  have hblank : Blank (processorFamily P) (blankCput.modifyX86 fun _ => sig) :=
    ⟨rfl, rfl, sig, rfl, htype, hfamily⟩
  have hc1 := topfxn_outlined hblank c1 h1
  have hspec : c3.spec = c1.spec :=
    (keeps_x86Getbrandname rfl c3 h3).trans (keeps_memfxn vendor rfl c2 h2)
  have hvendor : vendor ≠ .via := by
    rintro rfl
    have hnone : c1.threadspercore = 0 := by
      cases h1
      rfl
    have hthreads := x86topology_threads htop
    rw [x86Getbrandname_threads h3, (addHwmem_grows h2).counts.1, hnone] at hthreads
    exact absurd hthreads (Nat.lt_irrefl 0)
  have hwraps (hintel : vendor = .intel) (hmax : ¬ (P.cpuid 0x0 0).eax < 0x4) (i ways : Nat)
      (hzero : intelTotalsize (leaf4 P i) = 0) : Wraps P (intelMem ways (leaf4 P i)) :=
    ⟨hintel ▸ hv, hmax, i, ways, rfl, hzero⟩
  have hc2 := memfxn_described hc1 hvendor hwraps c2 h2
  have hc3 := x86Getbrandname_described hc2 c3 h3
  refine ⟨⟨hc3.threads, hc3.memories, hc3.sizes, hc3.tlbs⟩, ?_⟩
  have hpadded : (c3.padded P).spec = c1.spec := hspec
  rw [hpadded]
  exact hc1.spec

theorem cudaid_described {dev : CudaDevice} {d : TorqueCput} (h : cudaid dev = .ok d) :
    Described (fun _ => False) d ∧ ∃ major minor, dev.properties = some (major, minor) ∧
      d.spec = .nvidia major minor := by
  unfold cudaid at h
  split at h
  · cases h
  split at h
  · cases h
  rename_i major minor hprops
  split at h
  · split at h
    · cases h
    split at h
    · cases h
    split at h
    · cases h
    cases h
    exact ⟨⟨Nat.one_pos, by simp, by simp, by simp⟩, major, minor, hprops, rfl⟩
  · cases h

/-- **What is recorded is complete.** On every processor that `x86cpuid` accepts,
the type is known, there are threads, and the fields of each cache and TLB are
set; the size of a cache is 0 only where it is that of leaf 4 and 32 bits do not
hold it. -/
theorem x86cpuid_described {d : Detected} (h : x86cpuid n P = some d) :
    Described (Wraps P) d.details ∧ OfFamily (processorFamily P) d.details.spec :=
  described_of_x86cpuid h

theorem x86cpuid_described_dual : ∃ d, x86cpuid 2 (dualCore 1) = some d ∧
    Described (Wraps (dualCore 1)) d.details ∧
      OfFamily (processorFamily (dualCore 1)) d.details.spec := by
  obtain ⟨d, hd⟩ := Option.isSome_iff_exists.mp (by decide +kernel :
    (x86cpuid 2 (dualCore 1)).isSome = true)
  exact ⟨d, hd, x86cpuid_described hd⟩

end Libtorque.Hardware
