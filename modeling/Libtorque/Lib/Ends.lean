import Libtorque.Lib.Lts
import Mathlib.Algebra.BigOperators.Group.Finset.Basic

/-! # Runs that come to an end

The steps that a system makes by itself use up a measure; those that come from
outside add no more than so much to it. There are then only so many steps of the
system's own in a run, and a run that none of them continues has come to one of
the states in which the system is at rest. -/
namespace Libtorque.Lib

variable {σ α : Type} {step : σ → α → Option σ} {outside : α → Bool} {μ : σ → Nat} {k : Nat}
  {I : σ → Prop}

structure Descends (step : σ → α → Option σ) (outside : α → Bool) (μ : σ → Nat) (k : Nat)
    (I : σ → Prop) : Prop where
  inv : ∀ {s a t}, I s → step s a = some t → I t
  own : ∀ {s a t}, I s → step s a = some t → outside a = false → μ t < μ s
  out : ∀ {s a t}, I s → step s a = some t → outside a = true → μ t ≤ μ s + k

/-- No step of the system's own is enabled. -/
def AtRest (step : σ → α → Option σ) (outside : α → Bool) (s : σ) : Prop :=
  ∀ a, outside a = false → step s a = none

theorem Descends.bounded (hd : Descends step outside μ k I) {s t : σ} {as : List α} (hi : I s)
    (h : exec step s as = some t) :
    as.countP (fun a => !outside a) + μ t ≤ μ s + k * as.countP outside := by
  induction as generalizing s with
  | nil =>
    cases h
    simp
  | cons a as ih =>
    obtain ⟨u, hu, h⟩ := Option.bind_eq_some_iff.mp h
    have hrest := ih (hd.inv hi hu) h
    cases ha : outside a with
    | false =>
      have hstep := hd.own hi hu ha
      simp only [List.countP_cons, ha, Bool.not_false, if_true, Bool.false_eq_true, if_false,
        Nat.add_zero]
      omega
    | true =>
      have hstep := hd.out hi hu ha
      simp only [List.countP_cons, ha, Bool.not_true, if_true, Bool.false_eq_true, if_false,
        Nat.add_zero, Nat.mul_add]
      omega

/-- A measure that adds up those of many parts, when one of them changes. -/
theorem sum_comp_update {ι β M : Type} [DecidableEq ι] [AddCommMonoid M] {parts : Finset ι}
    {i : ι} (hi : i ∈ parts) (f : β → M) (g : ι → β) (x : β) :
    ∑ j ∈ parts, f (Function.update g i x j) + f (g i) = ∑ j ∈ parts, f (g j) + f x := by
  have hrest : ∑ j ∈ parts.erase i, f (Function.update g i x j) =
      ∑ j ∈ parts.erase i, f (g j) := by
    refine Finset.sum_congr rfl ?_
    intro j hj
    rw [Function.update_of_ne (Finset.ne_of_mem_erase hj)]
  rw [← Finset.add_sum_erase _ _ hi, ← Finset.add_sum_erase _ (fun j => f (g j)) hi, hrest,
    Function.update_self]
  ac_rfl

/-- From each state the system can come to rest by itself. -/
theorem Descends.rests (hd : Descends step outside μ k I) {s : σ} (hi : I s) :
    ∃ as t, (∀ a ∈ as, outside a = false) ∧ exec step s as = some t ∧ AtRest step outside t := by
  induction hμ : μ s using Nat.strongRecOn generalizing s with
  | ind n ih =>
    by_cases hrest : AtRest step outside s
    · exact ⟨[], s, by simp, rfl, hrest⟩
    · obtain ⟨a, ha, hne⟩ : ∃ a, outside a = false ∧ step s a ≠ none := by
        simpa [AtRest] using hrest
      obtain ⟨u, hu⟩ := Option.ne_none_iff_exists'.mp hne
      have hlt : μ u < n := hμ ▸ hd.own hi hu ha
      obtain ⟨as, t, hown, hexec, ht⟩ := ih (μ u) hlt (hd.inv hi hu) rfl
      refine ⟨a :: as, t, ?_, ?_, ht⟩
      · intro b hb
        rcases List.mem_cons.mp hb with rfl | hb
        · exact ha
        · exact hown b hb
      · simp [exec, hu, hexec]

end Libtorque.Lib
