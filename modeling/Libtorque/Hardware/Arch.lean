import Libtorque.Hardware.Topology

/-! # Detection of the processors: `detect_cputypes`

What the machine answers at each step (the affinity mask, `cpuid` on each
processor, every allocation, every thread start) is the `Machine`. The
`topmap` array has as many elements as the mask has CPUs, and `topologize`
indexes it by CPU number. -/
namespace Libtorque.Hardware

inductive TorqueMemtype where
  | unknown
  | code
  | data
  | unified
deriving DecidableEq, Repr

/-- `torque_tlbt` -/
structure TorqueTlb where
  entries : Nat
  pagesize : Nat
  associativity : Nat
  sharedways : Nat
  tlbtype : TorqueMemtype
  level : Nat
deriving DecidableEq, Repr

/-- `torque_memt` -/
structure TorqueMem where
  totalsize : Nat
  linesize : Nat
  associativity : Nat
  sharedways : Nat
  memtype : TorqueMemtype
  level : Nat
deriving DecidableEq, Repr

inductive X86Type where
  | oem
  | overdrive
  | dual
  | unknown
deriving DecidableEq, Repr

/-- The feature bits of `x86_details`. -/
structure X86Features where
  mmx : Bool := false
  sse : Bool := false
  sse2 : Bool := false
  sse3 : Bool := false
  ssse3 : Bool := false
  sse41 : Bool := false
  sse42 : Bool := false
  sse4a : Bool := false
  avx : Bool := false
  xop : Bool := false
  fma4 : Bool := false
  cvt16 : Bool := false
deriving DecidableEq, Repr

structure X86Details where
  family : Nat
  model : Nat
  stepping : Nat
  x86type : X86Type
  features : X86Features
  apic : Nat
deriving DecidableEq, Repr

/-- The `spec` union of `torque_cput`, with its tag `isa`. -/
inductive Spec where
  | x86 (d : X86Details)
  | nvidia (major minor : Nat)
deriving DecidableEq, Repr

/-- `torque_cput`. The counts `tlbs` and `memories` are the lengths of the
tables; `padding` is what lies behind the last member of each `torque_memt` and
is copied along with it. -/
structure TorqueCput where
  elements : Nat
  threadspercore : Nat
  coresperpackage : Nat
  tlbdescs : List TorqueTlb
  strdescription : String
  memdescs : List TorqueMem
  spec : Spec
  padding : List (BitVec 32) := []
deriving DecidableEq, Repr

/-- `compare_cpudetails`; the raw comparison of the union covers `isa`, and that of
the tables their padding, which a `torque_tlbt` does not have. -/
def compareCpudetails (a b : TorqueCput) : Int :=
  if a.spec ≠ b.spec then -1
  else if a.memdescs.length ≠ b.memdescs.length ∨ a.tlbdescs.length ≠ b.tlbdescs.length then -1
  else if a.tlbdescs ≠ b.tlbdescs then -1
  else if a.memdescs ≠ b.memdescs ∨ a.padding ≠ b.padding then -1
  else if a.threadspercore ≠ b.threadspercore ∨ a.coresperpackage ≠ b.coresperpackage then -1
  else if a.strdescription ≠ b.strdescription then -1
  else 0

/-- `match_cputype`, as the index of the slot found. -/
def matchCputype (types : List TorqueCput) (acpu : TorqueCput) : Option Nat :=
  types.findIdx? fun t => compareCpudetails t acpu = 0

/-- `add_cputype`, with the index of the new slot. -/
def addCputype (realloc : Bool) (types : List TorqueCput) (acpu : TorqueCput) :
    Option (Nat × List TorqueCput) :=
  if realloc then some (types.length, types ++ [acpu]) else none

/-- What `x86cpuid` finds on one processor. -/
structure Detected where
  details : TorqueCput
  thread : Nat
  core : Nat
  pkg : Nat

/-- The outcomes of one pass of the detection loop. -/
structure Pass where
  pin : Bool
  cpuid : Option Detected
  realloc : Bool
  zones : ZoneMallocs
  spawn : Bool

/-- `detect_cpudetails` -/
def detectCpudetails (p : Pass) : Except TorqueErr Detected :=
  if !p.pin then .error .affinity
  else match p.cpuid with
    | none => .error .cpudetect
    | some d => .ok d

/-- All that `detect_cputypes` asks of its surroundings. -/
structure Machine where
  mask : Option CpuSet
  mallocTopmap : Bool
  pass : Nat → Pass
  unpin : Bool

/-- The part of the context that detection fills in. -/
structure Ctx where
  types : List TorqueCput := []
  topology : Topology := {}
  spawned : List Nat := []

/-- `match_cputype`, else `add_cputype`: the slot for a processor's details and
the table then. -/
def placeCputype (realloc : Bool) (types : List TorqueCput) (d : TorqueCput) :
    Option (Nat × List TorqueCput) :=
  match matchCputype types d with
  | some i => some (i, types.modify i fun t => { t with elements := t.elements + 1 })
  | none => addCputype realloc types { d with elements := 1 }

/-- The body of the detection loop for CPU `aid`. -/
def detectPass (p : Pass) (aid : Nat) (c : Ctx) : TorqueErr × Ctx :=
  match detectCpudetails p with
  | .error e => (e, c)
  | .ok d =>
    match placeCputype p.realloc c.types d.details with
    | none => (.resource, c)
    | some (slot, types) =>
      match topologize p.zones c.topology aid d.thread d.core d.pkg slot with
      | (.none, t) =>
        if p.spawn then (.none, ⟨types, t, c.spawned ++ [aid]⟩)
        else (.resource, ⟨types, t, c.spawned⟩)
      | (e, t) => (e, ⟨types, t, c.spawned⟩)

/-- The detection loop with `z` passes to go. -/
def detectLoop (M : Machine) (mask : CpuSet) : Nat → Nat → Ctx → TorqueErr × Ctx
  | 0, _, c => (.none, c)
  | z + 1, aid, c =>
    let aid := mask.next aid
    if aid = cpuSetsize then (.affinity, c)
    else match detectPass (M.pass aid) aid c with
      | (.none, c) => detectLoop M mask z (aid + 1) c
      | failed => failed

/-- The `err:` path: the threads are reaped and the table of types is freed.
The topology stays for `free_architecture`. -/
def detectFail (c : Ctx) : Ctx := { c with types := [], spawned := [] }

/-- `detect_cpucount`, and the mask it leaves behind. -/
def detectCpucount (M : Machine) : Nat := (M.mask.map CpuSet.count).getD 0

/-- `detect_cputypes`, on the context of `create_torque_ctx`. -/
def detectCputypes (M : Machine) : TorqueErr × Ctx :=
  match M.mask with
  | none => (.affinity, {})
  | some mask =>
    if detectCpucount M = 0 then (.affinity, {})
    else if !M.mallocTopmap then (.resource, {})
    else match detectLoop M mask (detectCpucount M) 0 {} with
      | (.none, c) => if M.unpin then (.none, c) else (.affinity, detectFail c)
      | (e, c) => (e, detectFail c)

/-- The elements of `topmap` that a detection makes `topologize` touch. -/
def topmapTouched (M : Machine) : List Nat := (detectCputypes M).2.topology.touched

/-- Whatever the machine answers, with this mask no element outside the
allocation is touched. -/
def TopmapInBounds (mask : CpuSet) : Prop :=
  ∀ M : Machine, M.mask = some mask → ∀ i ∈ topmapTouched M, i < detectCpucount M

/-! ## Only CPUs of the mask are touched -/

theorem detectPass_within (p : Pass) {aid : Nat} {c : Ctx} {cpus : Finset Nat}
    (ha : aid ∈ cpus) (hz : ZoneWithin cpus c.topology.zone)
    (ht : ∀ i ∈ c.topology.touched, i ∈ cpus) :
    ZoneWithin cpus (detectPass p aid c).2.topology.zone ∧
      ∀ i ∈ (detectPass p aid c).2.topology.touched, i ∈ cpus := by
  unfold detectPass
  split
  · exact ⟨hz, ht⟩
  · rename_i d _
    split
    · exact ⟨hz, ht⟩
    · rename_i slot types _
      have h := topologize_touched p.zones d.thread d.core d.pkg slot (fun _ => ha) hz ht
      split
      · rename_i t heq
        rw [heq] at h
        split <;> exact h
      · rename_i e t _ heq
        rw [heq] at h
        exact h

theorem detectLoop_within (M : Machine) {mask : CpuSet} (z : Nat) {aid : Nat} {c : Ctx}
    (haid : aid ≤ cpuSetsize) (hz : ZoneWithin mask.cpus c.topology.zone)
    (ht : ∀ i ∈ c.topology.touched, i ∈ mask.cpus) :
    ∀ i ∈ (detectLoop M mask z aid c).2.topology.touched, i ∈ mask.cpus := by
  induction z generalizing aid c with
  | zero => exact ht
  | succ z ih =>
    obtain ⟨_, hle, _, hmem⟩ := mask.next_spec haid
    simp only [detectLoop]
    split
    · exact ht
    · rename_i hne
      have hlt : mask.next aid < cpuSetsize := by omega
      have h := detectPass_within (M.pass (mask.next aid)) (hmem hlt) hz ht
      split
      · rename_i c' heq
        rw [heq] at h
        exact ih (by omega) h.1 h.2
      · exact h.2

theorem topmapTouched_mem {M : Machine} {mask : CpuSet} (hm : M.mask = some mask) :
    ∀ i ∈ topmapTouched M, i ∈ mask.cpus := by
  have h : ∀ i ∈ (detectLoop M mask (detectCpucount M) 0 {}).2.topology.touched, i ∈ mask.cpus :=
    detectLoop_within M _ (Nat.zero_le _) (by simp [ZoneWithin]) (by simp)
  unfold topmapTouched detectCputypes
  rw [hm]
  dsimp only
  split
  · simp
  split
  · simp
  split
  · rename_i c heq
    rw [heq] at h
    split <;> exact h
  · rename_i e c _ heq
    rw [heq] at h
    exact h

theorem detectCpucount_mask {M : Machine} {mask : CpuSet} (h : M.mask = some mask) :
    detectCpucount M = mask.count := by simp [detectCpucount, h]

/-! ## Every CPU of the mask is touched when all goes well -/

/-- A machine with this mask on which nothing fails: identical processors, each
in a package of its own. -/
def flatMachine (mask : CpuSet) : Machine where
  mask := some mask
  mallocTopmap := true
  pass aid :=
    { pin := true
      cpuid := some
        { details :=
            { elements := 1, threadspercore := 1, coresperpackage := 1, tlbdescs := []
              strdescription := "", memdescs := []
              spec := .x86 { family := 6, model := 0, stepping := 0, x86type := .oem
                             features := {}, apic := 0 } }
          thread := 0, core := 0, pkg := aid }
      realloc := true
      zones := ⟨true, true, true⟩
      spawn := true }
  unpin := true

theorem flatMachine_pass (mask : CpuSet) {aid : Nat} (h : aid < cpuSetsize) (c : Ctx) :
    ∃ c', detectPass ((flatMachine mask).pass aid) aid c = (.none, c') ∧
      aid ∈ c'.topology.touched ∧ ∀ i ∈ c.topology.touched, i ∈ c'.topology.touched := by
  unfold detectPass
  obtain ⟨slot, types, hp⟩ : ∃ slot types,
      placeCputype true c.types
        (match ((flatMachine mask).pass aid).cpuid with
          | some d => d.details
          | none => ⟨0, 0, 0, [], "", [], .nvidia 0 0, []⟩) = some (slot, types) := by
    simp only [placeCputype, addCputype, if_true]
    split
    · exact ⟨_, _, rfl⟩
    · exact ⟨_, _, rfl⟩
  simp only [flatMachine, detectCpudetails, Bool.not_true, Bool.false_eq_true, if_false] at hp ⊢
  rw [hp]
  obtain ⟨t, ht, hmem, hmono⟩ := topologize_ok (s := c.topology) 0 0 aid slot h
  simp only [ht, if_true]
  exact ⟨_, rfl, hmem, hmono⟩

theorem flatMachine_loop (mask : CpuSet) (z aid : Nat) (c : Ctx)
    (hz : (mask.cpus.filter (aid ≤ ·)).card ≤ z) (haid : aid ≤ cpuSetsize) :
    (∀ i ∈ c.topology.touched,
      i ∈ (detectLoop (flatMachine mask) mask z aid c).2.topology.touched) ∧
    ∀ i ∈ mask.cpus, aid ≤ i →
      i ∈ (detectLoop (flatMachine mask) mask z aid c).2.topology.touched := by
  induction z generalizing aid c with
  | zero =>
    refine ⟨fun i hi => hi, fun i hi hle => ?_⟩
    have : i ∈ mask.cpus.filter (aid ≤ ·) := Finset.mem_filter.mpr ⟨hi, hle⟩
    rw [Finset.card_eq_zero.mp (Nat.le_zero.mp hz)] at this
    simp at this
  | succ z ih =>
    obtain ⟨hge, hle, hskip, hmem⟩ := mask.next_spec haid
    simp only [detectLoop]
    by_cases heq : mask.next aid = cpuSetsize
    · rw [if_pos heq]
      refine ⟨fun i hi => hi, fun i hi hai => ?_⟩
      exact absurd hi (hskip i hai (by have := mask.bounded i hi; omega))
    · rw [if_neg heq]
      have hlt : mask.next aid < cpuSetsize := by omega
      obtain ⟨c', hc', htouch, hmono⟩ := flatMachine_pass mask hlt c
      rw [hc']
      have hcard := mask.card_after_next haid hlt
      obtain ⟨h1, h2⟩ := ih (mask.next aid + 1) c' (by omega) (by omega)
      refine ⟨fun i hi => h1 i (hmono i hi), fun i hi hai => ?_⟩
      by_cases hin : i = mask.next aid
      · exact hin ▸ h1 _ htouch
      · refine h2 i hi ?_
        by_contra hlt'
        exact hskip i hai (by omega) hi

theorem flatMachine_touched (mask : CpuSet) : ∀ i ∈ mask.cpus,
    i ∈ topmapTouched (flatMachine mask) := by
  intro i hi
  have hcount : detectCpucount (flatMachine mask) = mask.cpus.card :=
    (detectCpucount_mask rfl).trans mask.count_eq_card
  have h := (flatMachine_loop mask (detectCpucount (flatMachine mask)) 0 {}
    (by simp [hcount]) (Nat.zero_le _)).2 i hi (Nat.zero_le _)
  unfold topmapTouched detectCputypes
  simp only [flatMachine, Bool.not_true, Bool.false_eq_true, if_false] at hcount ⊢
  rw [if_neg (by rw [hcount]; exact Finset.card_ne_zero.mpr ⟨i, hi⟩)]
  split
  · rename_i c heq
    have heq' : detectLoop (flatMachine mask) mask (detectCpucount (flatMachine mask)) 0 {} =
        (.none, c) := heq
    rw [heq'] at h
    exact h
  · rename_i e c _ heq
    have heq' : detectLoop (flatMachine mask) mask (detectCpucount (flatMachine mask)) 0 {} =
        (e, c) := heq
    rw [heq'] at h
    exact h

theorem cpus_eq_range_of_subset {mask : CpuSet} (h : mask.cpus ⊆ Finset.range mask.count) :
    mask.cpus = Finset.range mask.count :=
  Finset.eq_of_subset_of_card_le h (by rw [Finset.card_range, mask.count_eq_card])

/-- **`topmap` suffices exactly for a mask without gaps.** The array has an
element for each CPU of the mask and is indexed by CPU number, so every access
is inside it, whatever the processors and the allocator answer, exactly when
the mask is `0, 1, …, n - 1`. -/
theorem topmapInBounds_iff (mask : CpuSet) :
    TopmapInBounds mask ↔ mask.cpus = Finset.range mask.count := by
  constructor
  · intro h
    refine cpus_eq_range_of_subset fun i hi => ?_
    have hlt := h (flatMachine mask) rfl i (flatMachine_touched mask i hi)
    rw [detectCpucount_mask rfl] at hlt
    exact Finset.mem_range.mpr hlt
  · intro h M hM i hi
    have hmem := topmapTouched_mem hM i hi
    rw [h] at hmem
    rw [detectCpucount_mask hM]
    exact Finset.mem_range.mp hmem

/-- Restricted to CPU 4 alone: one element is allocated, and element 4 written. -/
theorem topmap_overrun : ¬ TopmapInBounds (CpuSet.zero.set 4) := by
  intro h
  have hcpus : (CpuSet.zero.set 4).cpus = {4} := CpuSet.set_cpus (by decide) _
  have hlt := h (flatMachine (CpuSet.zero.set 4)) rfl 4
    (flatMachine_touched _ 4 (by rw [hcpus]; simp))
  rw [detectCpucount_mask rfl, CpuSet.count_eq_card, hcpus, Finset.card_singleton] at hlt
  omega

end Libtorque.Hardware
