import Mathlib.Data.Finset.Card
import Mathlib.Order.Interval.Finset.Nat

/-! # Affinity masks

A `cpu_set_t` holds CPU numbers below `CPU_SETSIZE` and nothing else. -/
namespace Libtorque.Hardware

/-- `CPU_SETSIZE` -/
def cpuSetsize : Nat := 1024

/-- `cpu_set_t` -/
structure CpuSet where
  cpus : Finset Nat
  bounded : ∀ c ∈ cpus, c < cpuSetsize

namespace CpuSet

@[ext] theorem ext {s t : CpuSet} (h : s.cpus = t.cpus) : s = t := by
  cases s; cases t; cases h; rfl

/-- `CPU_ZERO` -/
def zero : CpuSet := ⟨∅, by simp⟩

/-- `CPU_ISSET` -/
def isset (s : CpuSet) (cpu : Nat) : Bool := decide (cpu ∈ s.cpus)

/-- `CPU_SET`, which ignores a number that does not fit the mask. -/
def set (s : CpuSet) (cpu : Nat) : CpuSet :=
  if h : cpu < cpuSetsize then
    ⟨insert cpu s.cpus, by
      intro c hc
      rcases Finset.mem_insert.mp hc with rfl | hc
      · exact h
      · exact s.bounded c hc⟩
  else s

@[simp] theorem isset_iff (s : CpuSet) (cpu : Nat) : s.isset cpu = true ↔ cpu ∈ s.cpus := by
  simp [isset]

@[simp] theorem zero_cpus : zero.cpus = ∅ := rfl

theorem set_cpus {cpu : Nat} (h : cpu < cpuSetsize) (s : CpuSet) :
    (s.set cpu).cpus = insert cpu s.cpus := by simp [set, h]

theorem mem_set {s : CpuSet} {cpu c : Nat} (h : c ∈ (s.set cpu).cpus) : c = cpu ∨ c ∈ s.cpus := by
  unfold set at h
  split at h
  · exact Finset.mem_insert.mp h
  · exact .inr h

/-- Scan the mask upwards for at most `n` numbers, stopping at a member. -/
def scan (s : CpuSet) : Nat → Nat → Nat
  | 0, cpu => cpu
  | n + 1, cpu => if s.isset cpu then cpu else scan s n (cpu + 1)

/-- `while (aid < CPU_SETSIZE && !CPU_ISSET(aid, &mask)) ++aid;` -/
def next (s : CpuSet) (cpu : Nat) : Nat := s.scan (cpuSetsize - cpu) cpu

/-- `first_aid` -/
def firstAid (s : CpuSet) : Nat := s.next 0

/-- `share_level` -/
def shareLevel (s : CpuSet) : Bool := (List.range cpuSetsize).any s.isset

/-- `portable_cpuset_count` -/
def count (s : CpuSet) : Nat :=
  (List.range cpuSetsize).foldl (fun count cpu => if s.isset cpu then count + 1 else count) 0

theorem scan_spec (s : CpuSet) (n cpu : Nat) :
    cpu ≤ s.scan n cpu ∧ s.scan n cpu ≤ cpu + n ∧
      (∀ c, cpu ≤ c → c < s.scan n cpu → c ∉ s.cpus) ∧
      (s.scan n cpu < cpu + n → s.scan n cpu ∈ s.cpus) := by
  induction n generalizing cpu with
  | zero =>
    simp only [scan]
    exact ⟨Nat.le_refl _, Nat.le_refl _, fun c h h' => by omega, fun h => by omega⟩
  | succ n ih =>
    simp only [scan]
    by_cases h : s.isset cpu = true
    · rw [if_pos h]
      refine ⟨Nat.le_refl _, by omega, fun c h h' => by omega, fun _ => (s.isset_iff cpu).mp h⟩
    · rw [if_neg h]
      obtain ⟨h1, h2, h3, h4⟩ := ih (cpu + 1)
      refine ⟨by omega, by omega, fun c hc hlt => ?_, fun hlt => h4 (by omega)⟩
      by_cases hcc : c = cpu
      · subst hcc
        exact fun hm => h ((s.isset_iff c).mpr hm)
      · exact h3 c (by omega) hlt

/-- `next` is the first member from `cpu` on, or `CPU_SETSIZE`. -/
theorem next_spec (s : CpuSet) {cpu : Nat} (h : cpu ≤ cpuSetsize) :
    cpu ≤ s.next cpu ∧ s.next cpu ≤ cpuSetsize ∧
      (∀ c, cpu ≤ c → c < s.next cpu → c ∉ s.cpus) ∧
      (s.next cpu < cpuSetsize → s.next cpu ∈ s.cpus) := by
  obtain ⟨h1, h2, h3, h4⟩ := s.scan_spec (cpuSetsize - cpu) cpu
  exact ⟨h1, by unfold next; omega, h3, fun hlt => h4 (by unfold next at hlt; omega)⟩

/-- A member is left behind with each scan. -/
theorem card_after_next (s : CpuSet) {cpu : Nat} (h : cpu ≤ cpuSetsize)
    (hlt : s.next cpu < cpuSetsize) :
    (s.cpus.filter (s.next cpu + 1 ≤ ·)).card < (s.cpus.filter (cpu ≤ ·)).card := by
  obtain ⟨hge, -, -, hmem⟩ := s.next_spec h
  have hsub : insert (s.next cpu) (s.cpus.filter (s.next cpu + 1 ≤ ·)) ⊆
      s.cpus.filter (cpu ≤ ·) := by
    intro i hi
    simp only [Finset.mem_insert, Finset.mem_filter] at hi ⊢
    rcases hi with rfl | ⟨hi, hlti⟩
    · exact ⟨hmem hlt, hge⟩
    · exact ⟨hi, by omega⟩
  have hcard := Finset.card_le_card hsub
  rw [Finset.card_insert_of_notMem (by simp)] at hcard
  exact hcard

theorem shareLevel_iff (s : CpuSet) : s.shareLevel = true ↔ s.cpus.Nonempty := by
  simp only [shareLevel, List.any_eq_true, List.mem_range, isset_iff]
  exact ⟨fun ⟨c, _, hc⟩ => ⟨c, hc⟩, fun ⟨c, hc⟩ => ⟨c, s.bounded c hc, hc⟩⟩

theorem firstAid_mem {s : CpuSet} (h : s.cpus.Nonempty) : s.firstAid ∈ s.cpus := by
  obtain ⟨c, hc⟩ := h
  obtain ⟨_, h2, h3, h4⟩ := s.next_spec (Nat.zero_le cpuSetsize)
  by_cases hlt : s.next 0 < cpuSetsize
  · exact h4 hlt
  · exact absurd hc (h3 c (Nat.zero_le c) (by have := s.bounded c hc; omega))

theorem count_foldl (s : CpuSet) (l : List Nat) (k : Nat) :
    l.foldl (fun count cpu => if s.isset cpu then count + 1 else count) k =
      k + l.countP s.isset := by
  induction l generalizing k with
  | nil => rfl
  | cons c l ih =>
    rw [List.foldl_cons, ih, List.countP_cons]
    split <;> omega

theorem countP_range (n : Nat) (p : Nat → Bool) :
    (List.range n).countP p = ((Finset.range n).filter (p · = true)).card := by
  induction n with
  | zero => rfl
  | succ n ih =>
    rw [List.range_succ, List.countP_append, ih, Finset.range_add_one, Finset.filter_insert]
    by_cases h : p n = true
    · simp [h]
    · simp [h]

theorem count_eq_card (s : CpuSet) : s.count = s.cpus.card := by
  have hfilter : (Finset.range cpuSetsize).filter (fun c => s.isset c = true) = s.cpus := by
    ext c
    simp only [Finset.mem_filter, Finset.mem_range, isset_iff]
    exact ⟨And.right, fun h => ⟨s.bounded c h, h⟩⟩
  rw [count, count_foldl, Nat.zero_add, countP_range, hfilter]

end CpuSet

end Libtorque.Hardware
