import Libtorque.Hardware.Cpuid
import Libtorque.Lib.Bits

/-! # Which APIC ids `x86topology` tells apart

The masks are one less than the counts of threads and cores; the shifts are by
the integral part of the counts' logarithms. Mask and shift go together for
powers of two, to which only `id_x86_topology` rounds. -/
namespace Libtorque.Hardware

open Lib

variable {cpu : TorqueCput} {x y k n : Nat}

/-- The loop shifts by the logarithm of `k`. -/
theorem shiftOut_eq (hk : 0 < k) (hlt : k < 2 ^ (n + 1)) (x : Nat) :
    shiftOut n k x = x / 2 ^ k.log2 := by
  induction n generalizing k x with
  | zero =>
    have hone : k = 1 := by
      rw [Nat.zero_add, Nat.pow_one] at hlt
      omega
    have hlog : Nat.log2 1 = 0 := by decide
    rw [hone, hlog, shiftOut, Nat.pow_zero, Nat.div_one]
  | succ n ih =>
    rw [shiftOut]
    split
    · have hone : k = 1 := by omega
      have hlog : Nat.log2 1 = 0 := by decide
      rw [hone, hlog, Nat.pow_zero, Nat.div_one]
    · rename_i hne
      have hhalf : k / 2 < 2 ^ (n + 1) := by
        rw [Nat.pow_succ] at hlt
        omega
      rw [ih (by omega) hhalf, Nat.div_div_eq_div_mul, Nat.mul_comm, ← Nat.pow_succ,
        Nat.log2_def k, if_pos (by omega)]

/-- Bit `i` of an id is left in the thread, in the core or in the package. -/
def Kept (tpc cpp i : Nat) : Prop :=
  (tpc - 1).testBit i = true ∨
    (tpc.log2 ≤ i ∧ (cpp - 1).testBit (i - tpc.log2) = true) ∨
    tpc.log2 + cpp.log2 ≤ i

theorem x86topology_eq (ht : 0 < cpu.threadspercore) (htlt : cpu.threadspercore < 2 ^ 32)
    (hc : 0 < cpu.coresperpackage) (hclt : cpu.coresperpackage < 2 ^ 32) (apic : Nat) :
    x86topology cpu apic = some (apic &&& (cpu.threadspercore - 1),
      apic / 2 ^ cpu.threadspercore.log2 &&& (cpu.coresperpackage - 1),
      apic / 2 ^ (cpu.threadspercore.log2 + cpu.coresperpackage.log2)) := by
  have hlt : ∀ {k : Nat}, k < 2 ^ 32 → k < 2 ^ (32 + 1) := by
    intro k hk
    rw [Nat.pow_succ]
    omega
  rw [x86topology, if_neg (by omega), if_neg (by omega)]
  dsimp only
  rw [shiftOut_eq ht (hlt htlt), shiftOut_eq hc (hlt hclt), Nat.div_div_eq_div_mul, ← Nat.pow_add]

/-- Two ids have one place when they agree in the bits that are left. -/
theorem x86topology_eq_iff (ht : 0 < cpu.threadspercore) (htlt : cpu.threadspercore < 2 ^ 32)
    (hc : 0 < cpu.coresperpackage) (hclt : cpu.coresperpackage < 2 ^ 32) :
    x86topology cpu x = x86topology cpu y ↔
      ∀ i, Kept cpu.threadspercore cpu.coresperpackage i → x.testBit i = y.testBit i := by
  rw [x86topology_eq ht htlt hc hclt, x86topology_eq ht htlt hc hclt]
  simp only [Option.some.injEq, Prod.mk.injEq, and_eq_and_iff, div_two_pow_eq_iff,
    Nat.testBit_div_two_pow]
  constructor
  · rintro ⟨hthread, hcore, hpkg⟩ i (hi | ⟨hle, hi⟩ | hi)
    · exact hthread i hi
    · have hbit := hcore (i - cpu.threadspercore.log2) hi
      rwa [Nat.sub_add_cancel hle] at hbit
    · exact hpkg i hi
  · intro h
    refine ⟨fun i hi => h i (.inl hi), fun i hi => h _ (.inr (.inl ⟨by omega, ?_⟩)),
      fun i hi => h i (.inr (.inr hi))⟩
    rwa [Nat.add_sub_cancel]

/-- The count of threads is a power of two, and so is that of cores as far as
the bits of an id reach. -/
def PowersOfTwo (tpc cpp : Nat) : Prop :=
  2 ^ tpc.log2 = tpc ∧ 2 ^ min cpp.log2 (32 - tpc.log2) ∣ cpp

theorem kept_all_iff {tpc cpp : Nat} (ht : 0 < tpc) (htlt : tpc < 2 ^ 32) (hc : 0 < cpp) :
    (∀ i, i < 32 → Kept tpc cpp i) ↔ PowersOfTwo tpc cpp := by
  have ha : tpc.log2 < 32 := (Nat.log2_lt (by omega)).mpr htlt
  unfold PowersOfTwo
  rw [← testBit_pred_iff hc]
  constructor
  · intro h
    -- below the first shift, only the mask of the threads keeps a bit
    have hdvd : 2 ^ tpc.log2 ∣ tpc := by
      rw [← testBit_pred_iff ht]
      intro i hi
      obtain hk | ⟨hle, -⟩ | hle := h i (by omega)
      · exact hk
      · omega
      · omega
    have htpc := eq_two_pow_of_dvd ht Nat.lt_log2_self hdvd
    refine ⟨htpc.symm, fun i hi => ?_⟩
    obtain hk | ⟨-, hk⟩ | hle := h (tpc.log2 + i) (by omega)
    · rw [htpc, Nat.log2_two_pow, Nat.testBit_two_pow_sub_one, decide_eq_true_eq] at hk
      omega
    · rwa [Nat.add_sub_cancel_left] at hk
    · omega
  · intro h i hi
    obtain ⟨htpc, hcpp⟩ := h
    by_cases hlow : i < tpc.log2
    · left
      rw [← htpc, Nat.testBit_two_pow_sub_one, decide_eq_true_eq]
      exact hlow
    · by_cases hmid : i < tpc.log2 + cpp.log2
      · exact .inr (.inl ⟨by omega, hcpp (i - tpc.log2) (by omega)⟩)
      · exact .inr (.inr (by omega))

/-- Different ids have different places. -/
def DistinctPlaces (cpu : TorqueCput) : Prop :=
  ∀ x y : Word, x ≠ y → x86topology cpu x.toNat ≠ x86topology cpu y.toNat

/-- **Places are distinct for powers of two.** Whatever counts of threads and
cores there are, the processors of a type have distinct places in the topology
exactly when the counts are powers of two (that of the cores as far as an id's
bits reach). -/
theorem distinctPlaces_iff (cpu : TorqueCput)
    (ht : 1 ≤ cpu.threadspercore) (htlt : cpu.threadspercore < 2 ^ 32)
    (hc : 1 ≤ cpu.coresperpackage) (hclt : cpu.coresperpackage < 2 ^ 32) :
    DistinctPlaces cpu ↔ PowersOfTwo cpu.threadspercore cpu.coresperpackage := by
  rw [← kept_all_iff ht htlt hc, ← separates_iff]
  unfold DistinctPlaces
  constructor
  · intro h x y hxy
    by_contra hne
    exact h x y hne ((x86topology_eq_iff ht htlt hc hclt).mpr hxy)
  · intro h x y hne heq
    exact hne (h x y ((x86topology_eq_iff ht htlt hc hclt).mp heq))

/-- A type of so many threads to a core and cores to a package. -/
def cpuOf (tpc cpp : Nat) : TorqueCput :=
  { blankCput with threadspercore := tpc, coresperpackage := cpp }

/-- Eight processors, two threads to each of four cores. -/
theorem distinctPlaces_four_cores :
    DistinctPlaces (cpuOf 2 4) ↔ PowersOfTwo 2 4 :=
  distinctPlaces_iff (cpuOf 2 4) (by decide) (by decide) (by decide) (by decide)

/-- Leaf 0xb of a package of six cores with two threads each counts 2 and 12
processors: those with ids 0 and 8 are both taken for thread 0 of core 0. -/
theorem six_cores_share_place : ¬ ∀ cpu : TorqueCput, 1 ≤ cpu.threadspercore →
    cpu.threadspercore < 2 ^ 32 → 1 ≤ cpu.coresperpackage → cpu.coresperpackage < 2 ^ 32 →
    DistinctPlaces cpu := by
  intro h
  have hplaces := h (cpuOf 2 12) (by decide) (by decide) (by decide) (by decide)
  exact hplaces 0 8 (by decide) (by decide)

end Libtorque.Hardware
