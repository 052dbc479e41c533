import Libtorque.Hardware.Cpuid

/-! # Whose APIC id the topology is derived from

`x86apic` stores the id, and is called on two of the vendors' paths; on the
others the id stays as it was cleared. Nothing that runs after the vendor's
topology function stores to the `spec` union. -/
namespace Libtorque.Hardware

/-- The processor's own id: EDX of leaf 0xb where there is one, else
EBX[31:24] of leaf 1. -/
def ownApic (P : Processor) : Word :=
  if 0xb ≤ (P.cpuid 0x0 0).eax then (P.cpuid 0xb 0).edx
  else ((P.cpuid 0x1 0).ebx >>> 24) &&& 0xff

/-- The processor got its own id, and its place by it. -/
def PlacedByOwnApic (P : Processor) (d : Detected) : Prop :=
  d.details.apic = (ownApic P).toNat ∧
    x86topology d.details (ownApic P).toNat = some (d.thread, d.core, d.pkg)

/-- The processors for which the id is stored: those of Intel with leaf 0xb,
and those of AMD whose highest standard leaf is at least 0x80000008 and which
have CmpLegacy set. -/
def StoresApic (P : Processor) : Prop :=
  let gpregs := P.cpuid 0x0 0
  (lookupVendor gpregs = some .intel ∧ 0xb ≤ gpregs.eax) ∨
    (lookupVendor gpregs = some .amd ∧ 0x80000008 ≤ gpregs.eax ∧
      flag (P.cpuid 0x80000008 0).edx 0x00000002 = true)

/-! ## What leaves `spec` alone -/

/-- A result, if there is one, has this `spec`. -/
def Keeps (s : Spec) (x : Option TorqueCput) : Prop := ∀ c, x = some c → c.spec = s

variable {s : Spec} {α : Type} {P : Processor} {maxlevel : Word} {cpu : TorqueCput}
  {ff : FeatureFlags} {n : Nat}

theorem keeps_none : Keeps s none := fun _ h => nomatch h

theorem keeps_some {c : TorqueCput} (h : c.spec = s) : Keeps s (some c) := by
  intro d hd
  cases hd
  exact h

theorem Keeps.bind {x : Option TorqueCput} {f : TorqueCput → Option TorqueCput}
    (hx : Keeps s x) (hf : ∀ c, c.spec = s → Keeps s (f c)) : Keeps s (x >>= f) := by
  intro d hd
  obtain ⟨c, hc, hd⟩ := Option.bind_eq_some_iff.mp hd
  exact hf c (hx c hc) d hd

theorem keeps_bind {x : Option α} {f : α → Option TorqueCput} (hf : ∀ a, Keeps s (f a)) :
    Keeps s (x >>= f) := by
  intro d hd
  obtain ⟨a, -, hd⟩ := Option.bind_eq_some_iff.mp hd
  exact hf a d hd

theorem keeps_ite {p : Prop} [Decidable p] {x y : Option TorqueCput} (hx : Keeps s x)
    (hy : Keeps s y) : Keeps s (if p then x else y) := by
  split
  · exact hx
  · exact hy

theorem keeps_addHwmem (amem : TorqueMem) (h : cpu.spec = s) : Keeps s (addHwmem P cpu amem) :=
  keeps_ite (keeps_some h) keeps_none

theorem keeps_addTlb (tlb : TorqueTlb) (h : cpu.spec = s) : Keeps s (addTlb P cpu tlb) :=
  keeps_ite (keeps_some h) keeps_none

theorem keeps_decodeIntelDescriptor (descriptor : Nat) (h : cpu.spec = s) :
    Keeps s (decodeIntelDescriptor P cpu descriptor) := by
  unfold decodeIntelDescriptor
  refine keeps_ite (keeps_some h) ?_
  split
  · exact keeps_ite (keeps_some h) (keeps_addHwmem _ h)
  · split
    · exact keeps_addTlb _ h
    · exact keeps_ite (keeps_some h) (keeps_ite (keeps_some h) keeps_none)

theorem keeps_foldlM (descriptors : List Nat) (h : cpu.spec = s) :
    Keeps s (descriptors.foldlM (decodeIntelDescriptor P) cpu) := by
  induction descriptors generalizing cpu with
  | nil => exact keeps_some h
  | cons d descriptors ih =>
    rw [List.foldlM_cons]
    exact (keeps_decodeIntelDescriptor d h).bind fun c hc => ih hc

theorem keeps_idIntelCachesOld (h : cpu.spec = s) : Keeps s (idIntelCachesOld P maxlevel cpu) :=
  keeps_ite keeps_none (keeps_ite keeps_none (keeps_foldlM _ h))

theorem keeps_intelCores (cpp : Nat) (h : cpu.spec = s) :
    Keeps s (intelCores maxlevel cpp cpu) :=
  keeps_ite (keeps_ite (keeps_ite keeps_none (keeps_some h)) (keeps_some h))
    (keeps_ite keeps_none (keeps_ite keeps_none (keeps_some h)))

theorem intelCacheLoop_spec {level i maxdc : Nat} {r : Nat × TorqueCput}
    (h : intelCacheLoop P maxlevel level n i maxdc cpu = some r) : r.2.spec = cpu.spec := by
  induction n generalizing i maxdc cpu with
  | zero => cases h
  | succ n ih =>
    simp only [intelCacheLoop] at h
    split at h
    · cases h
      rfl
    · obtain ⟨memtype, -, h⟩ := Option.bind_eq_some_iff.mp h
      split at h
      · exact ih h
      · obtain ⟨c, hc, h⟩ := Option.bind_eq_some_iff.mp h
        obtain ⟨d, hd, h⟩ := Option.bind_eq_some_iff.mp h
        rw [ih h, keeps_addHwmem _ rfl d hd, keeps_intelCores _ rfl c hc]

theorem keeps_intelCacheLevels {m level maxdc : Nat} (h : cpu.spec = s) :
    Keeps s (intelCacheLevels P maxlevel m n level maxdc cpu) := by
  induction n generalizing level maxdc cpu with
  | zero => exact keeps_none
  | succ n ih =>
    intro c hc
    obtain ⟨⟨maxdc', cpu'⟩, hloop, hc⟩ := Option.bind_eq_some_iff.mp hc
    have hspec := (intelCacheLoop_spec hloop).trans h
    exact keeps_ite (ih hspec) (keeps_some hspec) c hc

theorem keeps_idIntelCaches (ff : FeatureFlags) (h : cpu.spec = s) :
    Keeps s (idIntelCaches n P maxlevel ff cpu) :=
  keeps_ite (keeps_idIntelCachesOld h)
    ((keeps_intelCacheLevels h).bind fun _ hc => keeps_idIntelCachesOld hc)

theorem keeps_addAmdTlb (present : Bool) (decoded : Option (Nat × Nat)) (pagesize : Nat)
    (tlbtype : TorqueMemtype) (level : Nat) (h : cpu.spec = s) :
    Keeps s (addAmdTlb P present decoded pagesize tlbtype level cpu) :=
  keeps_ite (keeps_bind fun _ => keeps_addTlb _ h) (keeps_some h)

theorem keeps_addAmdCache (reg : Word) (shift mul sharedways level : Nat) (h : cpu.spec = s) :
    Keeps s (addAmdCache P reg shift mul sharedways level cpu) :=
  keeps_ite (keeps_bind fun _ => keeps_addHwmem _ h) (keeps_some h)

theorem keeps_idAmdGbtlbs (h : cpu.spec = s) : Keeps s (idAmdGbtlbs P maxlevel ff cpu) := by
  refine keeps_ite (keeps_some h) (keeps_ite (keeps_some h) ?_)
  refine (keeps_addAmdTlb _ _ _ _ _ h).bind fun _ h => ?_
  refine (keeps_addAmdTlb _ _ _ _ _ h).bind fun _ h => ?_
  refine (keeps_addAmdTlb _ _ _ _ _ h).bind fun _ h => ?_
  exact keeps_addAmdTlb _ _ _ _ _ h

theorem keeps_idAmd23caches (h : cpu.spec = s) : Keeps s (idAmd23caches P maxlevel ff cpu) := by
  refine keeps_ite (keeps_some h) ?_
  refine (keeps_addAmdCache _ _ _ _ _ h).bind fun _ h => ?_
  refine (keeps_addAmdCache _ _ _ _ _ h).bind fun _ h => ?_
  refine (keeps_addAmdTlb _ _ _ _ _ h).bind fun _ h => ?_
  refine (keeps_addAmdTlb _ _ _ _ _ h).bind fun _ h => ?_
  refine (keeps_addAmdTlb _ _ _ _ _ h).bind fun _ h => ?_
  refine (keeps_addAmdTlb _ _ _ _ _ h).bind fun _ h => ?_
  exact keeps_idAmdGbtlbs h

theorem keeps_idAmdCaches (maxlevel : Word) (h : cpu.spec = s) :
    Keeps s (idAmdCaches P maxlevel ff cpu) := by
  refine keeps_ite keeps_none ?_
  refine keeps_bind fun _ => keeps_bind fun _ => keeps_bind fun _ => keeps_bind fun _ => ?_
  refine (keeps_addHwmem _ h).bind fun _ h => ?_
  refine (keeps_addHwmem _ h).bind fun _ h => ?_
  refine (keeps_addTlb _ h).bind fun _ h => ?_
  refine (keeps_addTlb _ h).bind fun _ h => ?_
  refine (keeps_addTlb _ h).bind fun _ h => ?_
  refine (keeps_addTlb _ h).bind fun _ h => ?_
  exact keeps_idAmd23caches h

theorem keeps_memfxn (vendor : X86Vendor) (h : cpu.spec = s) :
    Keeps s (vendor.memfxn n P maxlevel ff cpu) := by
  cases vendor with
  | intel => exact keeps_idIntelCaches ff h
  | amd => exact keeps_idAmdCaches maxlevel h
  | via => exact keeps_addHwmem _ h

theorem keeps_x86Getbrandname (h : cpu.spec = s) : Keeps s (x86Getbrandname P cpu) :=
  keeps_ite keeps_none (keeps_ite (keeps_some h) keeps_none)

theorem keeps_idX86Topology (maxlevel : Word) (ff : FeatureFlags) (h : cpu.spec = s) :
    Keeps s (idX86Topology P maxlevel ff cpu) :=
  keeps_ite keeps_none (keeps_ite keeps_none (keeps_some h))

theorem idX86Topology_spec {c : TorqueCput} (h : idX86Topology P maxlevel ff cpu = some c) :
    c.spec = cpu.spec :=
  keeps_idX86Topology maxlevel ff rfl c h

/-! ## What stores the id -/

/-- `x86apic` finds the processor's own id. -/
theorem x86apic_eq {apic : Word} (h : x86apic n P (P.cpuid 0x0 0).eax = some apic) :
    apic = ownApic P := by
  unfold x86apic at h
  unfold ownApic
  split at h
  · cases h
  · split at h
    · rename_i hlt
      cases h
      rw [if_neg (BitVec.not_le.mpr hlt)]
    · rename_i hge
      rw [if_pos (BitVec.not_lt.mp hge)]
      dsimp only at h
      split at h
      · cases h
      · obtain ⟨-, -, h⟩ := Option.bind_eq_some_iff.mp h
        cases h
        rfl

theorem apic_modifyX86 {d : X86Details} (h : cpu.spec = .x86 d) (f : X86Details → X86Details) :
    (cpu.modifyX86 f).apic = (f d).apic := by
  unfold TorqueCput.modifyX86
  rw [h]
  rfl

theorem storeApic_apic {c : TorqueCput} {d : X86Details}
    (h : storeApic n P (P.cpuid 0x0 0).eax cpu = some c) (hd : cpu.spec = .x86 d) :
    c.apic = (ownApic P).toNat := by
  obtain ⟨apic, hapic, h⟩ := Option.bind_eq_some_iff.mp h
  cases h
  rw [apic_modifyX86 hd, x86apic_eq hapic]

theorem apic_of_spec {c : TorqueCput} (h : c.spec = cpu.spec) : c.apic = cpu.apic := by
  unfold TorqueCput.apic
  rw [h]

/-- The id after the vendor's topology function. -/
theorem topfxn_apic {vendor : X86Vendor} {c : TorqueCput} {d : X86Details}
    (hv : lookupVendor (P.cpuid 0x0 0) = some vendor) (hd : cpu.spec = .x86 d)
    (hzero : d.apic = 0) (h : vendor.topfxn n P (P.cpuid 0x0 0).eax ff cpu = some c) :
    (StoresApic P ∧ c.apic = (ownApic P).toNat) ∨ (¬ StoresApic P ∧ c.apic = 0) := by
  have hcpu : cpu.apic = 0 := by
    unfold TorqueCput.apic
    rw [hd]
    exact hzero
  have hkept : ∀ {c' : TorqueCput}, c'.spec = cpu.spec → c'.apic = 0 := by
    intro c' hc'
    rw [apic_of_spec hc', hcpu]
  unfold StoresApic
  simp only [hv, Option.some.injEq]
  cases vendor with
  | intel =>
    simp only [X86Vendor.topfxn, idIntelTopology] at h
    split at h
    · rename_i hlt
      have hs := idX86Topology_spec h
      refine .inr ⟨?_, hkept hs⟩
      simp only [true_and, reduceCtorEq, false_and, or_false]
      exact BitVec.not_le.mpr hlt
    · rename_i hge
      refine .inl ⟨.inl ⟨rfl, BitVec.not_lt.mp hge⟩, ?_⟩
      split at h
      · cases h
      · split at h
        · cases h
        · split at h
          · cases h
          · split at h
            · cases h
            · exact storeApic_apic h hd
  | amd =>
    simp only [X86Vendor.topfxn, idAmdTopology] at h
    split at h
    · rename_i hlt
      have hs := idX86Topology_spec h
      refine .inr ⟨?_, hkept hs⟩
      simp only [true_and, reduceCtorEq, false_and, false_or, not_and]
      intro hle
      exact absurd hle (BitVec.not_le.mpr hlt)
    · rename_i hge
      split at h
      · rename_i hflag
        have hs := idX86Topology_spec h
        refine .inr ⟨?_, hkept hs⟩
        rintro (⟨hvendor, -⟩ | ⟨-, -, hset⟩)
        · cases hvendor
        · rw [hflag] at hset
          cases hset
      · rename_i hflag
        refine .inl ⟨.inr ⟨rfl, BitVec.not_lt.mp hge, ?_⟩, storeApic_apic h hd⟩
        simpa using hflag
  | via =>
    cases h
    refine .inr ⟨?_, hcpu⟩
    simp

theorem x86Getprocsig_apic {cpu cpu' : X86Details} {ff : FeatureFlags}
    (h : x86Getprocsig P maxlevel cpu = some (cpu', ff)) : cpu'.apic = cpu.apic := by
  unfold x86Getprocsig at h
  split at h
  · cases h
  · dsimp only at h
    split at h
    · cases h
      rfl
    · cases h
      rfl

/-- **The id is the processor's own where it is stored.** On every processor
that `x86cpuid` accepts, the id that thread, core and package are derived from
is the processor's own exactly when it is stored, or is 0. -/
theorem x86cpuid_apic_iff {d : Detected} (h : x86cpuid n P = some d) :
    PlacedByOwnApic P d ↔ StoresApic P ∨ ownApic P = 0 := by
  unfold x86cpuid at h
  split at h
  swap
  · cases h
  obtain ⟨vendor, hv, h⟩ := Option.bind_eq_some_iff.mp h
  obtain ⟨⟨sig, ff⟩, hsig, h⟩ := Option.bind_eq_some_iff.mp h
  obtain ⟨c1, h1, h⟩ := Option.bind_eq_some_iff.mp h
  obtain ⟨c2, h2, h⟩ := Option.bind_eq_some_iff.mp h
  obtain ⟨c3, h3, h⟩ := Option.bind_eq_some_iff.mp h
  obtain ⟨⟨thread, core, pkg⟩, htop, h⟩ := Option.bind_eq_some_iff.mp h
  cases h
  have hspec : (c3.padded P).spec = c1.spec :=
    (keeps_x86Getbrandname rfl c3 h3).trans (keeps_memfxn vendor rfl c2 h2)
  have htop : x86topology (c3.padded P) (c3.padded P).apic = some (thread, core, pkg) := htop
  have hzero : sig.apic = 0 := x86Getprocsig_apic hsig
  have hplaced : PlacedByOwnApic P ⟨c3.padded P, thread, core, pkg⟩ ↔ c1.apic = (ownApic P).toNat := by
    unfold PlacedByOwnApic
    rw [apic_of_spec hspec]
    constructor
    · intro h
      exact h.1
    · intro h
      rw [apic_of_spec hspec, h] at htop
      exact ⟨h, htop⟩
  rw [hplaced]
  rcases topfxn_apic hv rfl hzero h1 with ⟨hstores, hc⟩ | ⟨hnot, hc⟩
  · exact ⟨fun _ => .inl hstores, fun _ => hc⟩
  · rw [hc]
    constructor
    · intro h
      exact .inr (BitVec.eq_of_toNat_eq h.symm)
    · rintro (hstores | hown)
      · exact absurd hstores hnot
      · rw [hown]
        rfl

/-! ## A processor without leaf 0xb -/

/-- A dual core of Intel's whose highest leaf is 0xa. -/
def dualCore (apic : Word) : Processor where
  cpuidAvailable := true
  cpuid leaf sub :=
    match leaf, sub with
    | 0x0, _ => ⟨0xa, 0x756e6547, 0x6c65746e, 0x49656e69⟩
    | 0x1, _ => ⟨0x6f6, apic <<< 24 ||| 0x00020000, 0, 0x10000000⟩
    | 0x2, _ => ⟨0x1, 0, 0, 0⟩
    | 0x4, 0 => ⟨0x04000021, 0x01c0003f, 0x3f, 0⟩
    | 0x80000000, _ => ⟨0x80000008, 0, 0, 0⟩
    | _, _ => {}
  memdesc _ := true
  tlbdesc _ := true
  strdup := true

/-- Core 0 of the dual core, whose id is 0. -/
theorem dualCore_placed : ∃ d, x86cpuid 2 (dualCore 0) = some d ∧
    (PlacedByOwnApic (dualCore 0) d ↔ StoresApic (dualCore 0) ∨ ownApic (dualCore 0) = 0) := by
  obtain ⟨d, hd⟩ := Option.isSome_iff_exists.mp (by decide +kernel :
    (x86cpuid 2 (dualCore 0)).isSome = true)
  exact ⟨d, hd, x86cpuid_apic_iff hd⟩

/-- Core 1 is taken for thread 0 of core 0 of package 0. -/
theorem dualCore_zero_identity : ∃ d, x86cpuid 2 (dualCore 1) = some d ∧
    (d.thread, d.core, d.pkg) = (0, 0, 0) ∧ ¬ PlacedByOwnApic (dualCore 1) d := by
  obtain ⟨d, hd, hplace⟩ := Option.map_eq_some_iff.mp (by decide +kernel :
    (x86cpuid 2 (dualCore 1)).map (fun d => (d.details.apic, d.thread, d.core, d.pkg)) =
      some (0, 0, 0, 0))
  simp only [Prod.mk.injEq] at hplace
  obtain ⟨hapic, hthread, hcore, hpkg⟩ := hplace
  refine ⟨d, hd, by rw [hthread, hcore, hpkg], fun hown => ?_⟩
  have hone : (ownApic (dualCore 1)).toNat = 1 := by decide +kernel
  rw [PlacedByOwnApic, hapic, hone] at hown
  exact absurd hown.1 (by decide)

end Libtorque.Hardware
