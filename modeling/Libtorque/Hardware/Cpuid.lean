import Libtorque.Hardware.IntelDescriptors

/-! # `x86cpuid`

What the functions of `x86cpuid.c` read from a processor and make of it. They
give `none` where the code returns -1, divides by 0 or does not come to an
end. -/
namespace Libtorque.Hardware

abbrev Word := BitVec 32

/-- The four registers that `cpuid` stores. -/
structure Regs where
  eax : Word := 0
  ebx : Word := 0
  ecx : Word := 0
  edx : Word := 0
deriving DecidableEq, Repr

/-- A processor as `cpuid` shows it, by leaf and subleaf, and the allocator:
whether there is memory for the `n`th descriptor and for the name. What the stack
held behind a `torque_memt` is the padding of its place in the table. -/
structure Processor where
  cpuidAvailable : Bool
  cpuid : Word → Word → Regs
  memdesc : Nat → Bool
  tlbdesc : Nat → Bool
  strdup : Bool
  padding : Nat → Word := fun _ => 0

/-- `struct feature_flags` -/
structure FeatureFlags where
  dca : Bool := false
  x2apic : Bool := false
  pse : Bool := false
  pae : Bool := false
  pse36 : Bool := false
  ht : Bool := false
  gbpt : Bool := false
  lme : Bool := false
deriving DecidableEq, Repr

/-- `w[hi .. lo]` for a mask of the width of the field. -/
def field (w : Word) (lo : Nat) (mask : Word) : Nat := ((w >>> lo) &&& mask).toNat

def flag (w mask : Word) : Bool := w &&& mask != 0

/-- `spec.x86` is stored to. -/
def TorqueCput.modifyX86 (cpu : TorqueCput) (f : X86Details → X86Details) : TorqueCput :=
  match cpu.spec with
  | .x86 d => { cpu with spec := .x86 (f d) }
  | .nvidia .. => cpu

def identifyExtendedCpuid (P : Processor) : Word := (P.cpuid 0x80000000 0).eax

/-! ## The tables of descriptors -/

/-- `MEMTYPE_*` as they are numbered. -/
def TorqueMemtype.value : TorqueMemtype → Nat
  | unknown => 0
  | code => 1
  | data => 2
  | unified => 3

/-- The macro `CMP`: the comparison goes on with `k` when the fields agree. -/
def cmpField (a b : Nat) (k : Int) : Int := if a < b then -1 else if a > b then 1 else k

/-- Sharing is not compared. -/
def compareMemdetails (a b : TorqueMem) : Int :=
  cmpField a.level b.level <| cmpField a.memtype.value b.memtype.value <|
    cmpField a.totalsize b.totalsize <| cmpField a.linesize b.linesize <|
    cmpField a.associativity b.associativity 0

def compareTlbdetails (a b : TorqueTlb) : Int :=
  cmpField a.level b.level <| cmpField a.tlbtype.value b.tlbtype.value <|
    cmpField a.pagesize b.pagesize <| cmpField a.entries b.entries <|
    cmpField a.associativity b.associativity 0

/-- A slot is made before the first entry that is greater. -/
def insertDesc {α : Type} (compare : α → α → Int) (a : α) : List α → List α
  | [] => [a]
  | t :: ts => if compare t a > 0 then a :: t :: ts else t :: insertDesc compare a ts

def addHwmem (P : Processor) (cpu : TorqueCput) (amem : TorqueMem) : Option TorqueCput :=
  if P.memdesc cpu.memdescs.length then
    some { cpu with memdescs := insertDesc compareMemdetails amem cpu.memdescs }
  else none

def addTlb (P : Processor) (cpu : TorqueCput) (tlb : TorqueTlb) : Option TorqueCput :=
  if P.tlbdesc cpu.tlbdescs.length then
    some { cpu with tlbdescs := insertDesc compareTlbdetails tlb cpu.tlbdescs }
  else none

/-! ## Intel -/

def getIntelCache (descriptor sharedways : Nat) : Option TorqueMem :=
  (intelCacheDescriptors.find? fun d => d.descriptor = descriptor).map fun d =>
    ⟨d.totalsize, d.linesize, d.associativity, sharedways, d.memtype, d.level⟩

def getIntelTlb (descriptor sharedways : Nat) : Option TorqueTlb :=
  (intelTlbDescriptors.find? fun d => d.descriptor = descriptor).map fun d =>
    ⟨d.entries, d.pagesize, d.associativity, sharedways, d.tlbtype, d.level⟩

def matchMemtype (types : List TorqueMem) (amem : TorqueMem) : Bool :=
  types.any fun t => compareMemdetails t amem = 0

/-- One descriptor of leaf 2. -/
def decodeIntelDescriptor (P : Processor) (cpu : TorqueCput) (descriptor : Nat) :
    Option TorqueCput :=
  if descriptor = 0 then some cpu
  else match getIntelCache descriptor cpu.threadspercore with
    | some mem => if matchMemtype cpu.memdescs mem then some cpu else addHwmem P cpu mem
    | none => match getIntelTlb descriptor cpu.threadspercore with
      | some tlb => addTlb P cpu tlb
      | none =>
        if descriptor ∈ intelTraceDescriptors then some cpu
        -- prefetching, no higher level, and "call with leaf 4"
        else if descriptor ∈ [0xf0, 0xf1, 0x40, 0xff] then some cpu
        else none

/-- The bytes of a register that are descriptors, from the highest; those of
EAX end before AL. -/
def descriptorBytes (low : Bool) (w : Word) : List Nat :=
  if flag w 0x80000000 then []
  else [field w 24 0xff, field w 16 0xff, field w 8 0xff] ++ if low then [field w 0 0xff] else []

def decodeIntelFunc2 (P : Processor) (cpu : TorqueCput) (gpregs : Regs) : Option TorqueCput :=
  (descriptorBytes false gpregs.eax ++ descriptorBytes true gpregs.ebx ++
    descriptorBytes true gpregs.ecx ++ descriptorBytes true gpregs.edx).foldlM
      (decodeIntelDescriptor P) cpu

/-- Leaf 2, which is to be read once. -/
def idIntelCachesOld (P : Processor) (maxlevel : Word) (cpu : TorqueCput) : Option TorqueCput :=
  if maxlevel < 0x2 then none
  else
    let gpregs := P.cpuid 0x2 0
    if field gpregs.eax 0 0xff ≠ 1 then none else decodeIntelFunc2 P cpu gpregs

/-- A type of leaf 4. -/
def intelCachetype : Nat → Option TorqueMemtype
  | 1 => some .data
  | 2 => some .code
  | 3 => some .unified
  | _ => none

/-- What leaf 4 tells of the cores of a package. -/
def intelCores (maxlevel : Word) (cpp : Nat) (cpu : TorqueCput) : Option TorqueCput :=
  if cpu.coresperpackage = 0 then
    if maxlevel < 0xb then
      let tpc := cpu.threadspercore / cpp
      if tpc = 0 then none else some { cpu with threadspercore := tpc, coresperpackage := cpp }
    else some { cpu with coresperpackage := cpp }
  else if cpu.threadspercore = 0 then none
  else if cpu.coresperpackage / cpu.threadspercore > cpp then none
  else some cpu

/-- The subleaves of leaf 4 from `i` on, for the caches of one level. -/
def intelCacheLoop (P : Processor) (maxlevel : Word) (level : Nat) :
    Nat → Nat → Nat → TorqueCput → Option (Nat × TorqueCput)
  | 0, _, _, _ => none
  | n + 1, i, maxdc, cpu =>
    let gpregs := P.cpuid 0x4 (BitVec.ofNat 32 i)
    let lev := field gpregs.eax 5 0x7
    if field gpregs.eax 0 0x1f = 0 then some (maxdc, cpu)
    else do
      let memtype ← intelCachetype (field gpregs.eax 0 0x1f)
      let maxdc := max lev maxdc
      if lev ≠ level then intelCacheLoop P maxlevel level n (i + 1) maxdc cpu
      else
        let linesize := field gpregs.ebx 0 0xfff + 1
        let associativity := if flag gpregs.eax 0x200 then 1 else field gpregs.ebx 22 0x3ff + 1
        let totalsize :=
          associativity * (field gpregs.ebx 12 0x1ff + 1) * linesize * (gpregs.ecx.toNat + 1) % 2 ^ 32
        let cpu ← intelCores maxlevel (field gpregs.eax 26 0x3f + 1) cpu
        let sharedways := max (field gpregs.eax 14 0xfff + 1) cpu.threadspercore
        let cpu ← addHwmem P cpu ⟨totalsize, linesize, associativity, sharedways, memtype, lev⟩
        intelCacheLoop P maxlevel level n (i + 1) maxdc cpu

/-- The levels of caches from `level` on. -/
def intelCacheLevels (P : Processor) (maxlevel : Word) (m : Nat) :
    Nat → Nat → Nat → TorqueCput → Option TorqueCput
  | 0, _, _, _ => none
  | n + 1, level, maxdc, cpu => do
    let (maxdc, cpu) ← intelCacheLoop P maxlevel level m 0 maxdc cpu
    if level + 1 ≤ maxdc then intelCacheLevels P maxlevel m n (level + 1) maxdc cpu
    else some cpu

/-- `n` bounds the loops. -/
def idIntelCaches (n : Nat) (P : Processor) (maxlevel : Word) (_ff : FeatureFlags)
    (cpu : TorqueCput) : Option TorqueCput :=
  if maxlevel < 0x4 then idIntelCachesOld P maxlevel { cpu with coresperpackage := 1 }
  else do
    let cpu ← intelCacheLevels P maxlevel n n 1 1 cpu
    idIntelCachesOld P maxlevel cpu

/-! ## AMD -/

def amdDtlbPresentp (reg : Word) : Bool := flag reg 0xf0000000 && flag reg 0x0fff0000

def amdItlbPresentp (reg : Word) : Bool := flag reg 0x0000f000 && flag reg 0x00000fff

def amdCachePresentp (reg : Word) : Bool := field reg 12 0xf != 0

def amdL23assoc (idx lines : Nat) : Nat :=
  match idx with
  | 0xf => lines
  | 0xe => 128
  | 0xd => 96
  | 0xc => 64
  | 0xb => 48
  | 0xa => 32
  | 0x8 => 16
  | 0x6 => 8
  | 0x4 => 4
  | 0x2 => 2
  | 0x1 => 1
  | _ => 0

def scaleAmdL23tlb (dents psize : Nat) : Nat :=
  if psize = 4 * 1024 * 1024 then dents / 2
  else if psize = 2 * 1024 * 1024 then dents
  else if psize = 1 * 1024 * 1024 * 1024 then dents
  else if psize = 4 * 1024 then dents
  else 0

/-- The associativity and the entries, if there are any. -/
def nonzero (assoc ents : Nat) : Option (Nat × Nat) :=
  if assoc ≠ 0 ∧ ents ≠ 0 then some (assoc, ents) else none

def decodeAmdL23dtlb (reg : Word) (psize : Nat) : Option (Nat × Nat) :=
  let dents := scaleAmdL23tlb (field reg 16 0xfff) psize
  nonzero (amdL23assoc (field reg 28 0xf) dents) dents

def decodeAmdL23itlb (reg : Word) (psize : Nat) : Option (Nat × Nat) :=
  let ients := scaleAmdL23tlb (field reg 0 0xfff) psize
  nonzero (amdL23assoc (field reg 12 0xf) ients) ients

/-- The size, associativity and line size. -/
def decodeAmdL23cache (reg : Word) (shift mul : Nat) : Option (Nat × Nat × Nat) :=
  let size := (reg.toNat >>> shift) * 1024 * mul % 2 ^ 32
  let lsize := field reg 0 0xff
  if lsize = 0 then none
  else
    let assoc := amdL23assoc (field reg 12 0xf) (size / lsize)
    if size ≠ 0 ∧ assoc ≠ 0 then some (size, assoc, lsize) else none

/-- A TLB that a register describes, if one is present. -/
def addAmdTlb (P : Processor) (present : Bool) (decoded : Option (Nat × Nat)) (pagesize : Nat)
    (tlbtype : TorqueMemtype) (level : Nat) (cpu : TorqueCput) : Option TorqueCput :=
  if present then do
    let (assoc, ents) ← decoded
    addTlb P cpu ⟨ents, pagesize, assoc, cpu.threadspercore, tlbtype, level⟩
  else some cpu

def addAmdDtlb (P : Processor) (reg : Word) (psize level : Nat) : TorqueCput → Option TorqueCput :=
  addAmdTlb P (amdDtlbPresentp reg) (decodeAmdL23dtlb reg psize) psize .data level

def addAmdItlb (P : Processor) (reg : Word) (psize level : Nat) : TorqueCput → Option TorqueCput :=
  addAmdTlb P (amdItlbPresentp reg) (decodeAmdL23itlb reg psize) psize .code level

def idAmdGbtlbs (P : Processor) (maxexlevel : Word) (ff : FeatureFlags) (cpu : TorqueCput) :
    Option TorqueCput :=
  if ff.gbpt = false then some cpu
  else if maxexlevel < 0x80000019 then some cpu
  else do
    let gpregs := P.cpuid 0x80000019 0
    let psize := 1024 * 1024 * 1024
    let cpu ← addAmdDtlb P gpregs.eax psize 1 cpu
    let cpu ← addAmdItlb P gpregs.eax psize 1 cpu
    let cpu ← addAmdDtlb P gpregs.ebx psize 2 cpu
    addAmdItlb P gpregs.ebx psize 2 cpu

def determineAmdPagesize (ff : FeatureFlags) : Nat :=
  if ff.lme then 1024 * 1024 * 4 else 1024 * 1024 * 2

/-- A cache that a register describes, if one is present. -/
def addAmdCache (P : Processor) (reg : Word) (shift mul sharedways level : Nat)
    (cpu : TorqueCput) : Option TorqueCput :=
  if amdCachePresentp reg then do
    let (size, assoc, lsize) ← decodeAmdL23cache reg shift mul
    addHwmem P cpu ⟨size, lsize, assoc, sharedways, .unified, level⟩
  else some cpu

def idAmd23caches (P : Processor) (maxexlevel : Word) (ff : FeatureFlags) (cpu : TorqueCput) :
    Option TorqueCput :=
  if maxexlevel < 0x80000006 then some cpu
  else do
    let gpregs := P.cpuid 0x80000006 0
    let cpu ← addAmdCache P gpregs.ecx 16 1 cpu.threadspercore 2 cpu
    let cpu ← addAmdCache P gpregs.edx 18 512 cpu.coresperpackage 3 cpu
    let cpu ← addAmdDtlb P gpregs.eax (determineAmdPagesize ff) 2 cpu
    let cpu ← addAmdItlb P gpregs.eax (determineAmdPagesize ff) 2 cpu
    let cpu ← addAmdDtlb P gpregs.ebx 4096 2 cpu
    let cpu ← addAmdItlb P gpregs.ebx 4096 2 cpu
    idAmdGbtlbs P maxexlevel ff cpu

def amdL1assoc (idx lines : Nat) : Nat := if idx = 0xff then lines else idx

/-- The data and the code TLB, each with associativity and entries. -/
def decodeAmdL1tlb (reg : Word) : Option ((Nat × Nat) × (Nat × Nat)) := do
  let dents := field reg 16 0xff
  let ients := field reg 0 0xff
  let d ← nonzero (amdL1assoc (field reg 24 0xff) dents) dents
  let i ← nonzero (amdL1assoc (field reg 8 0xff) ients) ients
  some (d, i)

def decodeAmdL1cache (reg : Word) : Option (Nat × Nat × Nat) :=
  let size := field reg 24 0xff * 1024
  let lsize := field reg 0 0xff
  if lsize = 0 then none
  else
    let assoc := amdL1assoc (field reg 16 0xff) (size / lsize)
    if size ≠ 0 ∧ assoc ≠ 0 then some (size, assoc, lsize) else none

def idAmdCaches (P : Processor) (_maxlevel : Word) (ff : FeatureFlags) (cpu : TorqueCput) :
    Option TorqueCput :=
  let maxex := identifyExtendedCpuid P
  if maxex < 0x80000005 then none
  else do
    let gpregs := P.cpuid 0x80000005 0
    let ways := cpu.threadspercore
    let (isize, iassoc, iline) ← decodeAmdL1cache gpregs.ecx
    let (dsize, dassoc, dline) ← decodeAmdL1cache gpregs.edx
    let (d24, i24) ← decodeAmdL1tlb gpregs.eax
    let (d, i) ← decodeAmdL1tlb gpregs.ebx
    let psize := determineAmdPagesize ff
    let cpu ← addHwmem P cpu ⟨isize, iline, iassoc, ways, .code, 1⟩
    let cpu ← addHwmem P cpu ⟨dsize, dline, dassoc, ways, .data, 1⟩
    let cpu ← addTlb P cpu ⟨d.2, 4096, d.1, ways, .data, 1⟩
    let cpu ← addTlb P cpu ⟨d24.2, psize, d24.1, ways, .data, 1⟩
    let cpu ← addTlb P cpu ⟨i.2, 4096, i.1, ways, .code, 1⟩
    let cpu ← addTlb P cpu ⟨i24.2, psize, i24.1, ways, .code, 1⟩
    idAmd23caches P maxex ff cpu

/-! ## VIA -/

def idViaCaches (P : Processor) (_maxlevel : Word) (_ff : FeatureFlags) (cpu : TorqueCput) :
    Option TorqueCput :=
  addHwmem P cpu ⟨0, 32, 0, 0, .unknown, 1⟩

/-! ## The topology of a package, and the APIC id -/

/-- `while(t & (t - 1)) ++t`, for a byte. -/
def roundUp : Nat → Nat → Nat
  | 0, t => t
  | n + 1, t => if t &&& (t - 1) ≠ 0 then roundUp n (t + 1) else t

def idX86Topology (P : Processor) (maxfunc : Word) (ff : FeatureFlags) (cpu : TorqueCput) :
    Option TorqueCput :=
  if maxfunc < 0x1 then none
  else
    let gpregs := P.cpuid 0x1 0
    let threads := if ff.ht then field gpregs.ebx 16 0xff else 1
    if threads = 0 then none
    -- the nearest power of 2 from there on
    else some { cpu with threadspercore := roundUp 256 threads }

/-- The levels of leaf 0xb, each of which is to show the same id. -/
def x86apicLevels (P : Processor) (apic : Word) : Nat → Regs → Option Unit
  | 0, _ => none
  | n + 1, gpregs =>
    let lev := field gpregs.ecx 8 0xff
    if lev = 0 then some ()
    else if lev ≠ 0x1 ∧ lev ≠ 0x2 then none
    else
      let gpregs := P.cpuid 0xb (BitVec.ofNat 32 (lev + 1))
      if gpregs.edx ≠ apic then none else x86apicLevels P apic n gpregs

def x86apic (n : Nat) (P : Processor) (maxlevel : Word) : Option Word :=
  if maxlevel < 0x1 then none
  else
    let apic := ((P.cpuid 0x1 0).ebx >>> 24) &&& 0xff
    if maxlevel < 0xb then some apic
    else
      let gpregs := P.cpuid 0xb 0
      if gpregs.edx &&& 0xff ≠ apic then none
      else do
        x86apicLevels P gpregs.edx n gpregs
        some gpregs.edx

/-- `x86apic(maxfunc, &cpu->spec.x86.apic)` -/
def storeApic (n : Nat) (P : Processor) (maxfunc : Word) (cpu : TorqueCput) :
    Option TorqueCput := do
  let apic ← x86apic n P maxfunc
  some (cpu.modifyX86 fun d => { d with apic := apic.toNat })

def idAmdTopology (n : Nat) (P : Processor) (maxfunc : Word) (ff : FeatureFlags)
    (cpu : TorqueCput) : Option TorqueCput :=
  let cpu := { cpu with coresperpackage := 1 }
  if maxfunc < 0x80000008 then idX86Topology P maxfunc ff cpu
  else
    let gpregs := P.cpuid 0x80000008 0
    let apiccorebits := field gpregs.ecx 12 0xf
    let cpu := { cpu with coresperpackage :=
      if apiccorebits ≠ 0 then 2 ^ apiccorebits else field gpregs.ecx 0 0xff + 1 }
    if flag gpregs.edx 0x00000002 = false then idX86Topology P maxfunc ff cpu
    else storeApic n P maxfunc { cpu with threadspercore := 1 }

def idIntelTopology (n : Nat) (P : Processor) (maxfunc : Word) (ff : FeatureFlags)
    (cpu : TorqueCput) : Option TorqueCput :=
  if maxfunc < 0xb then idX86Topology P maxfunc ff cpu
  else
    let gpregs := P.cpuid 0xb 0
    if field gpregs.ecx 8 0xff ≠ 1 then none
    else
      let threads := field gpregs.ebx 0 0xffff
      if threads = 0 then none
      else
        let gpregs := P.cpuid 0xb 1
        if field gpregs.ecx 8 0xff ≠ 2 then none
        else
          let cores := field gpregs.ebx 0 0xffff
          if cores = 0 then none
          else storeApic n P maxfunc
            { cpu with threadspercore := threads, coresperpackage := cores }

/-! ## The processor -/

inductive X86Vendor where
  | intel
  | amd
  | via
deriving DecidableEq, Repr

/-- The four bytes of a register, from the lowest. -/
def bytes (w : Word) : List Char :=
  [0, 8, 16, 24].map fun lo => Char.ofNat (field w lo 0xff)

/-- `lookup_vendor`, by the twelve bytes of EBX, ECX and EDX. -/
def lookupVendor (gpregs : Regs) : Option X86Vendor :=
  let signet := bytes gpregs.ebx ++ bytes gpregs.ecx ++ bytes gpregs.edx
  if signet = "GenuntelineI".toList then some .intel
  else if signet = "AuthcAMDenti".toList then some .amd
  else if signet = "CentaulsaurH".toList then some .via
  else none

def X86Vendor.topfxn (n : Nat) (P : Processor) (maxlevel : Word) (ff : FeatureFlags)
    (cpu : TorqueCput) : X86Vendor → Option TorqueCput
  | intel => idIntelTopology n P maxlevel ff cpu
  | amd => idAmdTopology n P maxlevel ff cpu
  | via => some cpu

def X86Vendor.memfxn (n : Nat) (P : Processor) (maxlevel : Word) (ff : FeatureFlags)
    (cpu : TorqueCput) : X86Vendor → Option TorqueCput
  | intel => idIntelCaches n P maxlevel ff cpu
  | amd => idAmdCaches P maxlevel ff cpu
  | via => idViaCaches P maxlevel ff cpu

/-- The processor's signature and features. -/
def x86Getprocsig (P : Processor) (maxfunc : Word) (cpu : X86Details) :
    Option (X86Details × FeatureFlags) :=
  if maxfunc < 0x1 then none
  else
    let r := P.cpuid 0x1 0
    let cpu := { cpu with
      stepping := field r.eax 0 0xf
      x86type := if field r.eax 12 0x2 = 0 then .oem else .dual
      model := field r.eax 12 0xf0 ||| field r.eax 4 0xf
      family := field r.eax 17 0x7f8 ||| field r.eax 8 0xf
      features :=
        { cpu.features with
          sse3 := flag r.ecx 0x00000001, ssse3 := flag r.ecx 0x00000200
          sse41 := flag r.ecx 0x00080000, sse42 := flag r.ecx 0x00100000
          sse4a := flag r.ecx 0x00000040, mmx := flag r.edx 0x00800000
          sse := flag r.edx 0x02000000, sse2 := flag r.edx 0x04000000 } }
    let ff : FeatureFlags :=
      { dca := flag r.ecx 0x00040000, x2apic := flag r.ecx 0x00200000
        pse := flag r.edx 0x00000008, pae := flag r.edx 0x00000040
        pse36 := flag r.edx 0x00020000, ht := flag r.edx 0x10000000 }
    if identifyExtendedCpuid P ≥ 0x80000001 then
      let r := P.cpuid 0x80000001 0
      some ({ cpu with features := { cpu.features with
          xop := flag r.ecx 0x00000800, fma4 := flag r.ecx 0x00010000 } },
        { ff with lme := flag r.edx 0x20000000, gbpt := flag r.edx 0x04000000 })
    else some (cpu, ff)

/-- Leading and repeated spaces are dropped. -/
def squeeze : Bool → List Char → List Char
  | _, [] => []
  | hadspace, c :: cs =>
    if c ≠ ' ' ∨ hadspace = false then c :: squeeze (c = ' ') cs else squeeze hadspace cs

def x86Getbrandname (P : Processor) (cpu : TorqueCput) : Option TorqueCput :=
  if identifyExtendedCpuid P < 0x80000004 then none
  else
    let name := [0x80000002, 0x80000003, 0x80000004].flatMap fun op =>
      let gpregs := P.cpuid op 0
      bytes gpregs.eax ++ bytes gpregs.ebx ++ bytes gpregs.ecx ++ bytes gpregs.edx
    -- the copy ends at the first NUL
    let brandname := (squeeze true name).takeWhile fun c => c ≠ Char.ofNat 0
    if P.strdup then some { cpu with strdescription := String.ofList brandname } else none

/-- `while((k /= 2)) apic >>= 1`, for a word. -/
def shiftOut : Nat → Nat → Nat → Nat
  | 0, _, apic => apic
  | n + 1, k, apic => if k / 2 = 0 then apic else shiftOut n (k / 2) (apic / 2)

/-- The thread, core and package that an APIC id encodes. -/
def x86topology (cpu : TorqueCput) (apic : Nat) : Option (Nat × Nat × Nat) :=
  let tpc := cpu.threadspercore
  let cpp := cpu.coresperpackage
  if tpc = 0 then none
  else if cpp = 0 then none
  else
    let core := shiftOut 32 tpc apic
    some (apic &&& (tpc - 1), core &&& (cpp - 1), shiftOut 32 cpp core)

/-- `spec.x86.apic` -/
def TorqueCput.apic (cpu : TorqueCput) : Nat :=
  match cpu.spec with
  | .x86 d => d.apic
  | .nvidia .. => 0

/-- `cpudesc` as it is before anything is read. -/
def blankCput : TorqueCput where
  elements := 0
  threadspercore := 0
  coresperpackage := 0
  tlbdescs := []
  strdescription := ""
  memdescs := []
  spec := .x86 ⟨0, 0, 0, .unknown, {}, 0⟩

/-- With what `add_hwmem` copied behind the members of the entries. -/
def TorqueCput.padded (cpu : TorqueCput) (P : Processor) : TorqueCput :=
  { cpu with padding := (List.range cpu.memdescs.length).map P.padding }

def x86cpuid (n : Nat) (P : Processor) : Option Detected :=
  if P.cpuidAvailable then do
    let gpregs := P.cpuid 0x0 0
    let maxlevel := gpregs.eax
    let vendor ← lookupVendor gpregs
    let (sig, ff) ← x86Getprocsig P maxlevel ⟨0, 0, 0, .unknown, {}, 0⟩
    let cpudesc ← vendor.topfxn n P maxlevel ff (blankCput.modifyX86 fun _ => sig)
    let cpudesc ← vendor.memfxn n P maxlevel ff cpudesc
    let cpudesc ← x86Getbrandname P cpudesc
    let (thread, core, pkg) ← x86topology cpudesc cpudesc.apic
    some ⟨cpudesc.padded P, thread, core, pkg⟩
  else none

end Libtorque.Hardware
