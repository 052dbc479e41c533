import Libtorque.Hardware.Descriptors

/-! # The caches and TLBs of AMD's processors

What `decode_amd_l1cache` and `decode_amd_l23cache` make of a register, with
the division that they do first, and what `id_amd_caches` records of the
extended leaves. -/
namespace Libtorque.Hardware

/-! ## One register -/

/-- A division by 0, -1, or the size, associativity and line size. -/
inductive Decoded where
  | fault
  | invalid
  | cache (size assoc lsize : Nat)
deriving DecidableEq, Repr

def Decoded.toOption : Decoded → Option (Nat × Nat × Nat)
  | fault | invalid => none
  | cache size assoc lsize => some (size, assoc, lsize)

/-- What a size and a line size give, with the code of the associativity:
`*size / *lsize` comes before the check. -/
def amdCacheOutcome (size lsize : Nat) (assocOf : Nat → Nat) : Decoded :=
  if lsize = 0 then .fault
  else
    let assoc := assocOf (size / lsize)
    if size ≠ 0 ∧ assoc ≠ 0 ∧ lsize ≠ 0 then .cache size assoc lsize else .invalid

/-- `decode_amd_l1cache` -/
def amdL1cacheOutcome (reg : Word) : Decoded :=
  amdCacheOutcome (field reg 24 0xff * 1024) (field reg 0 0xff) (amdL1assoc (field reg 16 0xff))

/-- `decode_amd_l23cache`: the product is of 32 bits. -/
def amdL23cacheOutcome (reg : Word) (shift mul : Nat) : Decoded :=
  amdCacheOutcome ((reg.toNat >>> shift) * 1024 * mul % 2 ^ 32) (field reg 0 0xff)
    (amdL23assoc (field reg 12 0xf))

theorem decodeAmdL1cache_eq (reg : Word) :
    decodeAmdL1cache reg = (amdL1cacheOutcome reg).toOption := by
  unfold decodeAmdL1cache amdL1cacheOutcome amdCacheOutcome
  dsimp only
  split
  · rfl
  · rename_i hline
    simp only [hline, not_false_eq_true, and_true, ne_eq]
    split <;> rfl

theorem decodeAmdL23cache_eq (reg : Word) (shift mul : Nat) :
    decodeAmdL23cache reg shift mul = (amdL23cacheOutcome reg shift mul).toOption := by
  unfold decodeAmdL23cache amdL23cacheOutcome amdCacheOutcome
  dsimp only
  split
  · rfl
  · rename_i hline
    simp only [hline, not_false_eq_true, and_true, ne_eq]
    split <;> rfl

/-- -1 where the register is not valid, and its size where it is. -/
def Decoded.Exact (valid : Prop) (size : Nat) (r : Decoded) : Prop :=
  (¬ valid → r = .invalid) ∧ (valid → ∃ assoc lsize, r = .cache size assoc lsize)

/-- The codes of an associativity that are neither reserved nor "disabled". -/
def amdAssocCodes : List Nat := [0x1, 0x2, 0x4, 0x6, 0x8, 0xa, 0xb, 0xc, 0xd, 0xe, 0xf]

/-- A size in kilobytes, an associativity and a line size. -/
def AmdL1Valid (reg : Word) : Prop :=
  field reg 24 0xff ≠ 0 ∧ field reg 16 0xff ≠ 0 ∧ field reg 0 0xff ≠ 0

/-- A size from bit `shift` on, an associativity and a line size. -/
def AmdL23Valid (shift : Nat) (reg : Word) : Prop :=
  reg.toNat >>> shift ≠ 0 ∧ field reg 12 0xf ∈ amdAssocCodes ∧ field reg 0 0xff ≠ 0

variable {reg : Word} {shift mul : Nat}

theorem amdL1assoc_ne_zero {idx lines : Nat} (hlines : lines ≠ 0) :
    amdL1assoc idx lines ≠ 0 ↔ idx ≠ 0 := by
  unfold amdL1assoc
  split
  · omega
  · exact Iff.rfl

theorem amdL23assoc_ne_zero {idx lines : Nat} (hlines : lines ≠ 0) :
    amdL23assoc idx lines ≠ 0 ↔ idx ∈ amdAssocCodes := by
  unfold amdL23assoc amdAssocCodes
  split
  case h_12 => simp_all
  all_goals simp [hlines]

theorem exact_ne_fault {valid : Prop} {size : Nat} {r : Decoded} (h : r.Exact valid size) :
    r ≠ .fault := by
  rintro rfl
  by_cases hvalid : valid
  · obtain ⟨_, _, hcache⟩ := h.2 hvalid
    cases hcache
  · cases h.1 hvalid

/-- Where there is a line size, and a size of at least as much. -/
theorem amdCacheOutcome_exact {size lsize : Nat} {assocOf : Nat → Nat} {coded : Prop}
    (hline : lsize ≠ 0) (hsize : size ≠ 0 → lsize ≤ size)
    (hassoc : ∀ lines, lines ≠ 0 → (assocOf lines ≠ 0 ↔ coded)) :
    (amdCacheOutcome size lsize assocOf).Exact (size ≠ 0 ∧ coded ∧ lsize ≠ 0) size := by
  unfold Decoded.Exact amdCacheOutcome
  rw [if_neg hline]
  by_cases hzero : size = 0
  · rw [if_neg (fun h => h.1 hzero)]
    exact ⟨fun _ => rfl, fun h => absurd hzero h.1⟩
  · have hpos := Nat.div_pos (hsize hzero) (by omega)
    have hcoded := hassoc (size / lsize) (by omega)
    by_cases hc : coded
    · rw [if_pos ⟨hzero, hcoded.mpr hc, hline⟩]
      exact ⟨fun h => absurd ⟨hzero, hc, hline⟩ h, fun _ => ⟨_, _, rfl⟩⟩
    · rw [if_neg (fun h => hc (hcoded.mp h.2.1))]
      exact ⟨fun _ => rfl, fun h => absurd h.2.1 hc⟩

theorem amdL1_exact_iff (reg : Word) :
    (amdL1cacheOutcome reg).Exact (AmdL1Valid reg) (field reg 24 0xff * 1024) ↔
      field reg 0 0xff ≠ 0 := by
  have hle : field reg 0 0xff ≤ 255 := field_le reg 0 0xff
  constructor
  · intro h hline
    apply exact_ne_fault h
    rw [amdL1cacheOutcome, amdCacheOutcome, if_pos hline]
  · intro hline
    have hassoc : ∀ lines, lines ≠ 0 →
        (amdL1assoc (field reg 16 0xff) lines ≠ 0 ↔ field reg 16 0xff ≠ 0) :=
      fun _ hlines => amdL1assoc_ne_zero hlines
    have hsize : field reg 24 0xff * 1024 ≠ 0 → field reg 0 0xff ≤ field reg 24 0xff * 1024 := by
      omega
    have hexact := amdCacheOutcome_exact hline hsize hassoc
    have hvalid : AmdL1Valid reg ↔
        field reg 24 0xff * 1024 ≠ 0 ∧ field reg 16 0xff ≠ 0 ∧ field reg 0 0xff ≠ 0 := by
      unfold AmdL1Valid
      omega
    rw [hvalid]
    exact hexact

theorem line_of_exact {valid : Prop} {size : Nat}
    (h : (amdL23cacheOutcome reg shift mul).Exact valid size) : field reg 0 0xff ≠ 0 := by
  intro hline
  apply exact_ne_fault h
  rw [amdL23cacheOutcome, amdCacheOutcome, if_pos hline]

theorem size_ne_zero {kbytes : Nat} (hmul : 0 < mul) : kbytes * 1024 * mul ≠ 0 ↔ kbytes ≠ 0 := by
  rw [Nat.mul_ne_zero_iff, Nat.mul_ne_zero_iff]
  omega

theorem amdL23_exact (hline : field reg 0 0xff ≠ 0) (hmul : 0 < mul)
    (hfits : (reg.toNat >>> shift) * 1024 * mul < 2 ^ 32) :
    (amdL23cacheOutcome reg shift mul).Exact (AmdL23Valid shift reg)
      ((reg.toNat >>> shift) * 1024 * mul) := by
  have hle : field reg 0 0xff ≤ 255 := field_le reg 0 0xff
  have hvalid : AmdL23Valid shift reg ↔ (reg.toNat >>> shift) * 1024 * mul ≠ 0 ∧
      field reg 12 0xf ∈ amdAssocCodes ∧ field reg 0 0xff ≠ 0 := by
    unfold AmdL23Valid
    rw [size_ne_zero hmul]
  have hsize : (reg.toNat >>> shift) * 1024 * mul ≠ 0 →
      field reg 0 0xff ≤ (reg.toNat >>> shift) * 1024 * mul := by
    intro hne
    have hfield : 0 < reg.toNat >>> shift := Nat.pos_of_ne_zero ((size_ne_zero hmul).mp hne)
    have hmany := Nat.mul_le_mul (Nat.mul_le_mul_right 1024 hfield) hmul
    omega
  rw [hvalid, amdL23cacheOutcome, Nat.mod_eq_of_lt hfits]
  exact amdCacheOutcome_exact hline hsize fun _ hlines => amdL23assoc_ne_zero hlines

theorem amdL2_exact_iff (reg : Word) :
    (amdL23cacheOutcome reg 16 1).Exact (AmdL23Valid 16 reg) ((reg.toNat >>> 16) * 1024) ↔
      field reg 0 0xff ≠ 0 := by
  constructor
  · exact line_of_exact
  · intro hline
    have hlt := reg.isLt
    have hfits : (reg.toNat >>> 16) * 1024 * 1 < 2 ^ 32 := by
      rw [Nat.shiftRight_eq_div_pow]
      omega
    have hexact := amdL23_exact hline Nat.one_pos hfits
    rwa [Nat.mul_one] at hexact

/-- The associativity of a valid register has a code; others are -1 whatever
their size. -/
theorem amdL23_invalid (hline : field reg 0 0xff ≠ 0) (hcode : field reg 12 0xf ∉ amdAssocCodes) :
    amdL23cacheOutcome reg shift mul = .invalid := by
  have hassoc : ∀ lines, amdL23assoc (field reg 12 0xf) lines = 0 := by
    intro lines
    by_contra hne
    refine hcode ((amdL23assoc_ne_zero (Nat.succ_ne_zero lines)).mp ?_)
    unfold amdL23assoc at hne ⊢
    split at hne <;> simp_all
  rw [amdL23cacheOutcome, amdCacheOutcome, if_neg hline, hassoc, if_neg (by simp)]

theorem amdL3_exact_iff (reg : Word) :
    (amdL23cacheOutcome reg 18 512).Exact (AmdL23Valid 18 reg) ((reg.toNat >>> 18) * 1024 * 512) ↔
      field reg 0 0xff ≠ 0 ∧ (reg.toNat >>> 18 < 8192 ∨ field reg 12 0xf ∉ amdAssocCodes) := by
  constructor
  · intro h
    have hline := line_of_exact h
    refine ⟨hline, ?_⟩
    by_contra hnot
    obtain ⟨hbig, hcode⟩ := not_or.mp hnot
    have hvalid : AmdL23Valid 18 reg := ⟨by omega, not_not.mp hcode, hline⟩
    obtain ⟨assoc, lsize, hcache⟩ := h.2 hvalid
    rw [amdL23cacheOutcome, amdCacheOutcome, if_neg hline] at hcache
    dsimp only at hcache
    split at hcache
    · -- the size recorded is below 2 ^ 32
      injection hcache with hsize
      have hlt := Nat.mod_lt ((reg.toNat >>> 18) * 1024 * 512) (by decide : 2 ^ 32 > 0)
      omega
    · cases hcache
  · rintro ⟨hline, hsmall | hcode⟩
    · exact amdL23_exact hline (by decide) (by omega)
    · refine ⟨fun _ => amdL23_invalid hline hcode, fun hvalid => ?_⟩
      exact absurd hvalid.2.1 hcode

/-- **What the decoders get right.** A register is decoded as it should be, by
the decoder of each level, exactly when it has a line size and, for the third
level, its size is below 4 GB (or the code of its associativity is reserved, so
that it gives -1). -/
theorem amdCaches_decoded_iff (reg : Word) :
    ((amdL1cacheOutcome reg).Exact (AmdL1Valid reg) (field reg 24 0xff * 1024) ↔
      field reg 0 0xff ≠ 0) ∧
    ((amdL23cacheOutcome reg 16 1).Exact (AmdL23Valid 16 reg) ((reg.toNat >>> 16) * 1024) ↔
      field reg 0 0xff ≠ 0) ∧
    ((amdL23cacheOutcome reg 18 512).Exact (AmdL23Valid 18 reg)
        ((reg.toNat >>> 18) * 1024 * 512) ↔
      field reg 0 0xff ≠ 0 ∧ (reg.toNat >>> 18 < 8192 ∨ field reg 12 0xf ∉ amdAssocCodes)) :=
  ⟨amdL1_exact_iff reg, amdL2_exact_iff reg, amdL3_exact_iff reg⟩

/-- A register of zeros, as an emulator may give for the first level, has no
line size to divide by; and a third level of 4 GB, present, with 16 ways and
lines of 64 bytes, is taken for one of no size. -/
theorem amdCaches_fault_and_wrap :
    amdL1cacheOutcome 0 = .fault ∧ ¬ (amdL1cacheOutcome 0).Exact (AmdL1Valid 0) 0 ∧
    amdCachePresentp 0x80008140 = true ∧
    amdL23cacheOutcome 0x80008140 18 512 = .invalid ∧
    ¬ (amdL23cacheOutcome 0x80008140 18 512).Exact (AmdL23Valid 18 0x80008140)
      (8192 * 1024 * 512) := by
  refine ⟨by decide, ?_, by decide, by decide, ?_⟩
  · intro h
    exact exact_ne_fault h (by decide)
  · intro h
    have hvalid : AmdL23Valid 18 0x80008140 := ⟨by decide, by decide, by decide⟩
    obtain ⟨assoc, lsize, hcache⟩ := h.2 hvalid
    have hinvalid : amdL23cacheOutcome 0x80008140 18 512 = .invalid := by decide
    rw [hinvalid] at hcache
    cases hcache

/-! ## What the leaves describe -/

/-- The size, associativity and line size of an L1 cache. -/
def amdL1geometry (reg : Word) : Nat × Nat × Nat :=
  let size := field reg 24 0xff * 1024
  (size, amdL1assoc (field reg 16 0xff) (size / field reg 0 0xff), field reg 0 0xff)

def amdL1cache (reg : Word) (memtype : TorqueMemtype) (sharedways : Nat) : TorqueMem :=
  let (size, assoc, lsize) := amdL1geometry reg
  ⟨size, lsize, assoc, sharedways, memtype, 1⟩

/-- The cache of a register with this size, unless it is disabled. -/
def amdL23caches (reg : Word) (size sharedways level : Nat) : List TorqueMem :=
  if field reg 12 0xf = 0 then []
  else
    let lsize := field reg 0 0xff
    [⟨size, lsize, amdL23assoc (field reg 12 0xf) (size / lsize), sharedways, .unified, level⟩]

/-- The data TLB of the upper half of a register, the code TLB of the lower. -/
def amdL1tlbs (reg : Word) (pagesize sharedways : Nat) : List TorqueTlb :=
  let dents := field reg 16 0xff
  let ients := field reg 0 0xff
  [⟨dents, pagesize, amdL1assoc (field reg 24 0xff) dents, sharedways, .data, 1⟩,
    ⟨ients, pagesize, amdL1assoc (field reg 8 0xff) ients, sharedways, .code, 1⟩]

/-- A half with an associativity and entries. -/
def amdTlbHalf (assoc entries pagesize sharedways : Nat) (tlbtype : TorqueMemtype) (level : Nat) :
    List TorqueTlb :=
  if assoc = 0 ∨ entries = 0 then []
  else
    let ents := scaleAmdL23tlb entries pagesize
    [⟨ents, pagesize, amdL23assoc assoc ents, sharedways, tlbtype, level⟩]

def amdL23tlbs (reg : Word) (pagesize sharedways level : Nat) : List TorqueTlb :=
  amdTlbHalf (field reg 28 0xf) (field reg 16 0xfff) pagesize sharedways .data level ++
    amdTlbHalf (field reg 12 0xf) (field reg 0 0xfff) pagesize sharedways .code level

/-- The caches of leaves 0x80000005 and 0x80000006. -/
def amdMems (P : Processor) (cpu : TorqueCput) : List TorqueMem :=
  let l1 := P.cpuid 0x80000005 0
  let l23 := P.cpuid 0x80000006 0
  [amdL1cache l1.ecx .data cpu.threadspercore, amdL1cache l1.edx .code cpu.threadspercore] ++
    if identifyExtendedCpuid P < 0x80000006 then []
    else
      amdL23caches l23.ecx ((l23.ecx.toNat >>> 16) * 1024) cpu.threadspercore 2 ++
        amdL23caches l23.edx ((l23.edx.toNat >>> 18) * 1024 * 512) cpu.coresperpackage 3

/-- The TLBs of leaves 0x80000005, 0x80000006 and 0x80000019. -/
def amdTlbs (P : Processor) (ff : FeatureFlags) (cpu : TorqueCput) : List TorqueTlb :=
  let maxex := identifyExtendedCpuid P
  let large := determineAmdPagesize ff
  let ways := cpu.threadspercore
  let l1 := P.cpuid 0x80000005 0
  let l23 := P.cpuid 0x80000006 0
  let gb := P.cpuid 0x80000019 0
  (amdL1tlbs l1.eax large ways ++ amdL1tlbs l1.ebx 4096 ways) ++
    (if maxex < 0x80000006 then []
      else amdL23tlbs l23.eax large ways 2 ++ amdL23tlbs l23.ebx 4096 ways 2) ++
    if ff.gbpt = false ∨ maxex < 0x80000019 then []
    else amdL23tlbs gb.eax (1024 * 1024 * 1024) ways 1 ++ amdL23tlbs gb.ebx (1024 * 1024 * 1024) ways 2

/-- The tables are in order, and have exactly what the leaves describe. -/
structure AmdTables (P : Processor) (ff : FeatureFlags) (cpu cpu' : TorqueCput) : Prop where
  mem_order : InOrder compareMemdetails cpu'.memdescs
  mem_perm : cpu'.memdescs.Perm (amdMems P cpu)
  tlb_order : InOrder compareTlbdetails cpu'.tlbdescs
  tlb_perm : cpu'.tlbdescs.Perm (amdTlbs P ff cpu)

/-! ## What `id_amd_caches` records -/

variable {P : Processor} {ff : FeatureFlags} {cpu cpu' : TorqueCput}

/-- A field that is tested in its place. -/
theorem flag_shiftLeft {w : Word} (mask : Word) (lo : Nat) (hmask : (mask <<< lo) >>> lo = mask) :
    flag w (mask <<< lo) = true ↔ field w lo mask ≠ 0 := by
  have hzero : w &&& mask <<< lo = 0 ↔ (w >>> lo) &&& mask = 0 := by
    constructor
    · intro h
      have hshift := congrArg (fun v : Word => v >>> lo) h
      simpa [BitVec.ushiftRight_and_distrib, hmask] using hshift
    · intro h
      have hshift := congrArg (fun v : Word => v <<< lo) h
      apply BitVec.eq_of_getLsbD_eq
      intro i hi
      have hbit := congrArg (fun v : Word => v.getLsbD i) hshift
      simp only [BitVec.getLsbD_shiftLeft, BitVec.getLsbD_and, BitVec.getLsbD_ushiftRight] at hbit ⊢
      by_cases hlo : i < lo
      · simp [hlo]
      · simpa [hlo, hi, Nat.add_sub_cancel' (Nat.not_lt.mp hlo)] using hbit
  unfold flag field
  rw [bne_iff_ne, ne_eq, hzero, ← BitVec.toNat_inj]
  rfl

theorem nonzero_some {assoc ents : Nat} {r : Nat × Nat} (h : nonzero assoc ents = some r) :
    r = (assoc, ents) := by
  unfold nonzero at h
  split at h
  · cases h
    rfl
  · cases h

/-- A half is added when it is present. -/
theorem addAmdTlb_grows {present : Bool} {assoc entries psize level : Nat}
    {tlbtype : TorqueMemtype} (hpresent : present = true ↔ assoc ≠ 0 ∧ entries ≠ 0)
    (h : addAmdTlb P present
      (nonzero (amdL23assoc assoc (scaleAmdL23tlb entries psize)) (scaleAmdL23tlb entries psize))
      psize tlbtype level cpu = some cpu') :
    Grows cpu cpu' [] (amdTlbHalf assoc entries psize cpu.threadspercore tlbtype level) := by
  unfold addAmdTlb at h
  unfold amdTlbHalf
  split at h
  · rename_i hp
    obtain ⟨r, hr, h⟩ := Option.bind_eq_some_iff.mp h
    rw [nonzero_some hr] at h
    obtain ⟨hassoc, hentries⟩ := hpresent.mp hp
    rw [if_neg (by simp [hassoc, hentries])]
    exact addTlb_grows h
  · rename_i hp
    cases h
    rw [if_pos]
    · exact .refl
    · by_contra hnot
      obtain ⟨hassoc, hentries⟩ := not_or.mp hnot
      exact hp (hpresent.mpr ⟨hassoc, hentries⟩)

theorem addAmdDtlb_grows {psize level : Nat} (h : addAmdDtlb P reg psize level cpu = some cpu') :
    Grows cpu cpu' []
      (amdTlbHalf (field reg 28 0xf) (field reg 16 0xfff) psize cpu.threadspercore .data level) := by
  refine addAmdTlb_grows ?_ h
  have hassoc := flag_shiftLeft (w := reg) 0xf 28 (by decide)
  have hentries := flag_shiftLeft (w := reg) 0xfff 16 (by decide)
  rw [amdDtlbPresentp, Bool.and_eq_true]
  exact and_congr hassoc hentries

theorem addAmdItlb_grows {psize level : Nat} (h : addAmdItlb P reg psize level cpu = some cpu') :
    Grows cpu cpu' []
      (amdTlbHalf (field reg 12 0xf) (field reg 0 0xfff) psize cpu.threadspercore .code level) := by
  refine addAmdTlb_grows ?_ h
  have hassoc := flag_shiftLeft (w := reg) 0xf 12 (by decide)
  have hentries := flag_shiftLeft (w := reg) 0xfff 0 (by decide)
  rw [amdItlbPresentp, Bool.and_eq_true]
  exact and_congr hassoc hentries

/-- Both halves of a register. -/
theorem addAmdTlbs_grow {psize level : Nat} {f : TorqueCput → Option TorqueCput}
    (h : (addAmdDtlb P reg psize level cpu >>= fun c => addAmdItlb P reg psize level c >>= f) =
      some cpu') :
    ∃ c, Grows cpu c [] (amdL23tlbs reg psize cpu.threadspercore level) ∧ f c = some cpu' := by
  obtain ⟨c, hc, h⟩ := Option.bind_eq_some_iff.mp h
  obtain ⟨d, hd, h⟩ := Option.bind_eq_some_iff.mp h
  have hdata := addAmdDtlb_grows hc
  have hcode := addAmdItlb_grows hd
  rw [hdata.counts.1] at hcode
  exact ⟨d, hdata.trans hcode, h⟩

theorem idAmdGbtlbs_grows {maxexlevel : Word}
    (h : idAmdGbtlbs P maxexlevel ff cpu = some cpu') :
    Grows cpu cpu' [] (if ff.gbpt = false ∨ maxexlevel < 0x80000019 then []
      else amdL23tlbs (P.cpuid 0x80000019 0).eax (1024 * 1024 * 1024) cpu.threadspercore 1 ++
        amdL23tlbs (P.cpuid 0x80000019 0).ebx (1024 * 1024 * 1024) cpu.threadspercore 2) := by
  unfold idAmdGbtlbs at h
  split at h
  · rename_i hgbpt
    cases h
    rw [if_pos (.inl hgbpt)]
    exact .refl
  · rename_i hgbpt
    split at h
    · rename_i hmax
      cases h
      rw [if_pos (.inr hmax)]
      exact .refl
    · rename_i hmax
      rw [if_neg (not_or.mpr ⟨hgbpt, hmax⟩)]
      obtain ⟨c, hc, h⟩ := addAmdTlbs_grow h
      have hrest : (addAmdDtlb P (P.cpuid 0x80000019 0).ebx (1024 * 1024 * 1024) 2 c >>= fun d =>
          addAmdItlb P (P.cpuid 0x80000019 0).ebx (1024 * 1024 * 1024) 2 d >>= some) = some cpu' := by
        simpa using h
      obtain ⟨d, hd, h⟩ := addAmdTlbs_grow hrest
      cases h
      rw [hc.counts.1] at hd
      exact hc.trans hd

theorem addAmdCache_grows {sharedways level : Nat}
    (h : addAmdCache P reg shift mul sharedways level cpu = some cpu') :
    Grows cpu cpu'
      (amdL23caches reg ((reg.toNat >>> shift) * 1024 * mul % 2 ^ 32) sharedways level) [] := by
  unfold addAmdCache at h
  unfold amdL23caches
  split at h
  · rename_i hpresent
    obtain ⟨⟨size, assoc, lsize⟩, hdecode, h⟩ := Option.bind_eq_some_iff.mp h
    rw [if_neg (by simpa [amdCachePresentp] using hpresent)]
    unfold decodeAmdL23cache at hdecode
    dsimp only at hdecode
    split at hdecode
    · cases hdecode
    · split at hdecode
      · cases hdecode
        exact addHwmem_grows h
      · cases hdecode
  · rename_i hpresent
    cases h
    rw [if_pos (by simpa [amdCachePresentp] using hpresent)]
    exact .refl

/-- The caches of leaf 0x80000006, with the sizes as they are recorded. -/
def amdL23recorded (P : Processor) (cpu : TorqueCput) : List TorqueMem :=
  let l23 := P.cpuid 0x80000006 0
  if identifyExtendedCpuid P < 0x80000006 then []
  else
    amdL23caches l23.ecx ((l23.ecx.toNat >>> 16) * 1024 * 1 % 2 ^ 32) cpu.threadspercore 2 ++
      amdL23caches l23.edx ((l23.edx.toNat >>> 18) * 1024 * 512 % 2 ^ 32) cpu.coresperpackage 3

theorem idAmd23caches_grows
    (h : idAmd23caches P (identifyExtendedCpuid P) ff cpu = some cpu') :
    Grows cpu cpu' (amdL23recorded P cpu)
      ((if identifyExtendedCpuid P < 0x80000006 then []
        else amdL23tlbs (P.cpuid 0x80000006 0).eax (determineAmdPagesize ff) cpu.threadspercore 2 ++
          amdL23tlbs (P.cpuid 0x80000006 0).ebx 4096 cpu.threadspercore 2) ++
        if ff.gbpt = false ∨ identifyExtendedCpuid P < 0x80000019 then []
        else amdL23tlbs (P.cpuid 0x80000019 0).eax (1024 * 1024 * 1024) cpu.threadspercore 1 ++
          amdL23tlbs (P.cpuid 0x80000019 0).ebx (1024 * 1024 * 1024) cpu.threadspercore 2) := by
  unfold idAmd23caches at h
  unfold amdL23recorded
  split at h
  · rename_i hmax
    cases h
    have hgb : identifyExtendedCpuid P < 0x80000019 := by bv_omega
    simp only [if_pos hmax, if_pos (Or.inr hgb)]
    exact .refl
  · rename_i hmax
    simp only [if_neg hmax]
    obtain ⟨c1, h1, h⟩ := Option.bind_eq_some_iff.mp h
    obtain ⟨c2, h2, h⟩ := Option.bind_eq_some_iff.mp h
    obtain ⟨c3, h3, h⟩ := addAmdTlbs_grow h
    obtain ⟨c4, h4, h⟩ := addAmdTlbs_grow h
    have g1 := addAmdCache_grows h1
    have g2 := addAmdCache_grows h2
    have g5 := idAmdGbtlbs_grows h
    rw [g1.counts.2] at g2
    have g12 := g1.trans g2
    rw [g12.counts.1] at h3
    have g13 := g12.trans h3
    rw [g13.counts.1] at h4
    have g14 := g13.trans h4
    rw [g14.counts.1] at g5
    simpa using g14.trans g5

theorem perm_of_four {α : Type} (a b c d : α) (l : List α) :
    (a :: b :: c :: d :: l).Perm ([b, d] ++ [a, c] ++ l) := by
  have hab : (a :: b :: c :: d :: l).Perm (b :: a :: c :: d :: l) := .swap b a _
  have hd : (a :: c :: d :: l).Perm (d :: a :: c :: l) :=
    .trans (.cons a (.swap d c l)) (.swap d a (c :: l))
  exact hab.trans (hd.cons b)

theorem decodeAmdL1cache_geometry {r : Nat × Nat × Nat} (h : decodeAmdL1cache reg = some r) :
    r = amdL1geometry reg := by
  unfold decodeAmdL1cache at h
  dsimp only at h
  split at h
  · cases h
  · split at h
    · cases h
      rfl
    · cases h

theorem decodeAmdL1tlb_some {d i : Nat × Nat} (h : decodeAmdL1tlb reg = some (d, i)) :
    d = (amdL1assoc (field reg 24 0xff) (field reg 16 0xff), field reg 16 0xff) ∧
      i = (amdL1assoc (field reg 8 0xff) (field reg 0 0xff), field reg 0 0xff) := by
  obtain ⟨d', hd, h⟩ := Option.bind_eq_some_iff.mp h
  obtain ⟨i', hi, h⟩ := Option.bind_eq_some_iff.mp h
  cases h
  exact ⟨nonzero_some hd, nonzero_some hi⟩

/-- What is recorded: as the leaves have it, but for the L1 caches, each of
which gets the register of the other, and a size that wraps. -/
theorem idAmdCaches_grows {maxlevel : Word} (h : idAmdCaches P maxlevel ff cpu = some cpu') :
    ∃ tlbs, tlbs.Perm (amdTlbs P ff cpu) ∧
      Grows cpu cpu' ([amdL1cache (P.cpuid 0x80000005 0).ecx .code cpu.threadspercore,
        amdL1cache (P.cpuid 0x80000005 0).edx .data cpu.threadspercore] ++ amdL23recorded P cpu)
        tlbs := by
  unfold idAmdCaches at h
  dsimp only at h
  split at h
  · cases h
  obtain ⟨ri, hri, h⟩ := Option.bind_eq_some_iff.mp h
  obtain ⟨rd, hrd, h⟩ := Option.bind_eq_some_iff.mp h
  obtain ⟨⟨d24, i24⟩, h24, h⟩ := Option.bind_eq_some_iff.mp h
  obtain ⟨⟨d, i⟩, h4, h⟩ := Option.bind_eq_some_iff.mp h
  obtain ⟨hd24, hi24⟩ := decodeAmdL1tlb_some h24
  obtain ⟨hd, hi⟩ := decodeAmdL1tlb_some h4
  rw [decodeAmdL1cache_geometry hri, decodeAmdL1cache_geometry hrd] at h
  obtain ⟨c1, h1, h⟩ := Option.bind_eq_some_iff.mp h
  obtain ⟨c2, h2, h⟩ := Option.bind_eq_some_iff.mp h
  obtain ⟨c3, h3, h⟩ := Option.bind_eq_some_iff.mp h
  obtain ⟨c4, h4, h⟩ := Option.bind_eq_some_iff.mp h
  obtain ⟨c5, h5, h⟩ := Option.bind_eq_some_iff.mp h
  obtain ⟨c6, h6, h⟩ := Option.bind_eq_some_iff.mp h
  have g := ((((addHwmem_grows h1).trans (addHwmem_grows h2)).trans (addTlb_grows h3)).trans
    (addTlb_grows h4)).trans ((addTlb_grows h5).trans (addTlb_grows h6))
  have grest := idAmd23caches_grows h
  have hrecorded : amdL23recorded P c6 = amdL23recorded P cpu := by
    unfold amdL23recorded
    rw [g.counts.1, g.counts.2]
  rw [g.counts.1, hrecorded] at grest
  refine ⟨_, ?_, g.trans grest⟩
  rw [hd24, hi24, hd, hi]
  refine (perm_of_four _ _ _ _ _).trans ?_
  unfold amdTlbs
  rw [List.append_assoc, List.append_assoc, List.append_assoc]
  exact .refl _

/-! ## When that is what the leaves describe -/

/-- Both L1 registers encode the same cache, and a third level is below 4 GB. -/
def AmdSame (P : Processor) : Prop :=
  let l1 := P.cpuid 0x80000005 0
  let l23 := P.cpuid 0x80000006 0
  amdL1geometry l1.ecx = amdL1geometry l1.edx ∧
    (identifyExtendedCpuid P < 0x80000006 ∨ field l23.edx 12 0xf = 0 ∨
      l23.edx.toNat >>> 18 < 8192)

theorem filter_code_amdL23caches (reg : Word) (size sharedways level : Nat) :
    (amdL23caches reg size sharedways level).filter (·.memtype = .code) = [] := by
  unfold amdL23caches
  split
  · rfl
  · rfl

theorem filter_level_amdL23caches (reg : Word) (size sharedways level l : Nat) :
    (amdL23caches reg size sharedways level).filter (·.level = l) =
      if level = l then amdL23caches reg size sharedways level else [] := by
  unfold amdL23caches
  split
  · simp
  · simp [List.filter_cons]

/-- The size of the second level does not wrap. -/
theorem amdL2_size (reg : Word) :
    (reg.toNat >>> 16) * 1024 * 1 % 2 ^ 32 = (reg.toNat >>> 16) * 1024 := by
  have hlt := reg.isLt
  rw [Nat.mul_one, Nat.mod_eq_of_lt]
  rw [Nat.shiftRight_eq_div_pow]
  omega

theorem amdL3_size_iff (reg : Word) :
    (reg.toNat >>> 18) * 1024 * 512 % 2 ^ 32 = (reg.toNat >>> 18) * 1024 * 512 ↔
      reg.toNat >>> 18 < 8192 := by
  omega

/-- The code caches of the first level are the same one. -/
theorem geometry_of_perm {ecx edx : Word} {ways : Nat} {l m : List TorqueMem}
    (hl : l.filter (·.memtype = .code) = []) (hm : m.filter (·.memtype = .code) = [])
    (hperm : ([amdL1cache ecx .code ways, amdL1cache edx .data ways] ++ l).Perm
      ([amdL1cache ecx .data ways, amdL1cache edx .code ways] ++ m)) :
    amdL1geometry ecx = amdL1geometry edx := by
  have hcode := hperm.filter (fun m => decide (m.memtype = .code))
  have hone : amdL1cache ecx .code ways = amdL1cache edx .code ways := by
    rw [List.filter_append, List.filter_append, hl, hm] at hcode
    exact List.singleton_perm_singleton.mp hcode
  simp only [amdL1cache, TorqueMem.mk.injEq] at hone
  obtain ⟨hsize, hline, hassoc, -⟩ := hone
  exact Prod.ext hsize (Prod.ext hassoc hline)

/-- So are the caches of the third level, if there is one. -/
theorem small_of_perm {edx : Word} {ways : Nat} {l m : List TorqueMem}
    (hl : l.filter (·.level = 3) = []) (hm : m.filter (·.level = 3) = [])
    (hon : field edx 12 0xf ≠ 0)
    (hperm : (l ++ amdL23caches edx ((edx.toNat >>> 18) * 1024 * 512 % 2 ^ 32) ways 3).Perm
      (m ++ amdL23caches edx ((edx.toNat >>> 18) * 1024 * 512) ways 3)) :
    edx.toNat >>> 18 < 8192 := by
  have hthird := hperm.filter (fun m => decide (m.level = 3))
  rw [List.filter_append, List.filter_append, hl, hm, filter_level_amdL23caches,
    filter_level_amdL23caches, if_pos rfl, if_pos rfl, amdL23caches, amdL23caches, if_neg hon,
    if_neg hon] at hthird
  have hone := List.singleton_perm_singleton.mp hthird
  rw [TorqueMem.mk.injEq] at hone
  exact (amdL3_size_iff edx).mp hone.1

variable (P cpu) in
theorem recorded_perm_iff :
    ([amdL1cache (P.cpuid 0x80000005 0).ecx .code cpu.threadspercore,
        amdL1cache (P.cpuid 0x80000005 0).edx .data cpu.threadspercore] ++
      amdL23recorded P cpu).Perm (amdMems P cpu) ↔ AmdSame P := by
  unfold amdMems amdL23recorded AmdSame
  generalize hl1 : P.cpuid 0x80000005 0 = l1
  generalize hl23 : P.cpuid 0x80000006 0 = l23
  dsimp only
  rw [amdL2_size]
  constructor
  · intro hperm
    constructor
    · refine geometry_of_perm ?_ ?_ hperm
      · split
        · rfl
        · rw [List.filter_append, filter_code_amdL23caches, filter_code_amdL23caches]
          rfl
      · split
        · rfl
        · rw [List.filter_append, filter_code_amdL23caches, filter_code_amdL23caches]
          rfl
    · by_cases hmax : identifyExtendedCpuid P < 0x80000006
      · exact .inl hmax
      · by_cases hoff : field l23.edx 12 0xf = 0
        · exact .inr (.inl hoff)
        · rw [if_neg hmax, if_neg hmax, ← List.append_assoc, ← List.append_assoc] at hperm
          refine .inr (.inr (small_of_perm ?_ ?_ hoff hperm))
          · rw [List.filter_append, filter_level_amdL23caches]
            rfl
          · rw [List.filter_append, filter_level_amdL23caches]
            rfl
  · rintro ⟨hgeometry, hthird⟩
    have hfirst : [amdL1cache l1.ecx .code cpu.threadspercore,
        amdL1cache l1.edx .data cpu.threadspercore].Perm
        [amdL1cache l1.ecx .data cpu.threadspercore,
          amdL1cache l1.edx .code cpu.threadspercore] := by
      unfold amdL1cache
      rw [hgeometry]
      exact .swap _ _ _
    refine hfirst.append ?_
    split
    · exact .refl _
    · rename_i hmax
      refine .append_left _ ?_
      rcases hthird with hlow | hoff | hsmall
      · exact absurd hlow hmax
      · rw [amdL23caches, amdL23caches, if_pos hoff, if_pos hoff]
      · rw [(amdL3_size_iff l23.edx).mpr hsmall]

/-- **The caches of AMD's processors.** The tables that `id_amd_caches` makes
are in order and have exactly what the leaves describe if and only if the L1
caches, whose registers it takes for each other's, are alike and a third level
is below 4 GB. -/
theorem idAmdCaches_tables_iff {maxlevel : Word} (hmems : cpu.memdescs = [])
    (htlbs : cpu.tlbdescs = []) (h : idAmdCaches P maxlevel ff cpu = some cpu') :
    AmdTables P ff cpu cpu' ↔ AmdSame P := by
  obtain ⟨tlbs, htlbperm, g⟩ := idAmdCaches_grows h
  have hmemperm := g.mem_perm
  rw [hmems, List.nil_append] at hmemperm
  have htlbs' := g.tlb_perm
  rw [htlbs, List.nil_append] at htlbs'
  rw [← recorded_perm_iff P cpu]
  constructor
  · intro htables
    exact hmemperm.symm.trans htables.mem_perm
  · intro hperm
    refine ⟨g.mem_order ?_, hmemperm.trans hperm, g.tlb_order ?_, htlbs'.trans htlbperm⟩
    · rw [hmems]
      exact .nil
    · rw [htlbs]
      exact .nil

/-- A processor with these L1 registers, no further caches, and TLBs of 32
entries, fully associative, for pages of each size. -/
def amdProcessor (ecx edx : Word) : Processor where
  cpuidAvailable := true
  cpuid leaf _ :=
    if leaf = 0x80000000 then ⟨0x80000005, 0, 0, 0⟩
    else if leaf = 0x80000005 then ⟨0xff20ff20, 0xff20ff20, ecx, edx⟩
    else {}
  memdesc _ := true
  tlbdesc _ := true
  strdup := true

/-- Two L1 caches of 64 kB, each with 2 ways and lines of 64 bytes. -/
theorem amdProcessor_alike : ∃ cpu',
    idAmdCaches (amdProcessor 0x40020140 0x40020140) 0 {} blankCput = some cpu' ∧
      (AmdTables (amdProcessor 0x40020140 0x40020140) {} blankCput cpu' ↔
        AmdSame (amdProcessor 0x40020140 0x40020140)) := by
  obtain ⟨cpu', h⟩ := Option.isSome_iff_exists.mp (by decide +kernel :
    (idAmdCaches (amdProcessor 0x40020140 0x40020140) 0 {} blankCput).isSome = true)
  exact ⟨cpu', h, idAmdCaches_tables_iff rfl rfl h⟩

/-- A data cache of 32 kB with 8 ways, and a code cache of 64 kB with 2: each
is recorded as the other. -/
theorem amdProcessor_swapped : ∃ cpu',
    idAmdCaches (amdProcessor 0x20080140 0x40020140) 0 {} blankCput = some cpu' ∧
      cpu'.memdescs = [⟨32 * 1024, 64, 8, 0, .code, 1⟩, ⟨64 * 1024, 64, 2, 0, .data, 1⟩] ∧
      ¬ AmdTables (amdProcessor 0x20080140 0x40020140) {} blankCput cpu' := by
  obtain ⟨cpu', h, hmems⟩ := Option.map_eq_some_iff.mp (by decide +kernel :
    (idAmdCaches (amdProcessor 0x20080140 0x40020140) 0 {} blankCput).map (·.memdescs) =
      some [⟨32 * 1024, 64, 8, 0, .code, 1⟩, ⟨64 * 1024, 64, 2, 0, .data, 1⟩])
  refine ⟨cpu', h, hmems, fun htables => ?_⟩
  have hmem := htables.mem_perm.mem_iff (a := ⟨32 * 1024, 64, 8, 0, .code, 1⟩)
  rw [hmems] at hmem
  exact absurd (hmem.mp List.mem_cons_self) (by decide +kernel)

end Libtorque.Hardware
