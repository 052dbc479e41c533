import Mathlib.Tactic.Common

/-! # Loops that may not end

A loop's body goes on with a state or ends the loop with a result. `iterate` is
`none` while the number of turns does not suffice; a loop halts when some number
does. -/
namespace Libtorque.Lib

variable {σ α : Type}

/-- At most so many turns. -/
def iterate (body : σ → σ ⊕ α) : Nat → σ → Option α
  | 0, _ => none
  | n + 1, s =>
    match body s with
    | .inl t => iterate body n t
    | .inr a => some a

def Halts (body : σ → σ ⊕ α) (s : σ) : Prop := ∃ n a, iterate body n s = some a

variable {body : σ → σ ⊕ α} {s t : σ} {a : α} {n m : Nat}

theorem iterate_inl (h : body s = .inl t) : iterate body (n + 1) s = iterate body n t := by
  rw [iterate, h]

theorem iterate_inr (h : body s = .inr a) : iterate body (n + 1) s = some a := by
  rw [iterate, h]

/-- More turns give the same result. -/
theorem iterate_mono (hle : n ≤ m) (h : iterate body n s = some a) : iterate body m s = some a := by
  induction n generalizing m s with
  | zero => cases h
  | succ n ih =>
    obtain ⟨m, rfl⟩ : ∃ k, m = k + 1 := ⟨m - 1, by omega⟩
    cases hb : body s with
    | inl t =>
      rw [iterate_inl hb] at h ⊢
      exact ih (by omega) h
    | inr b =>
      rw [iterate_inr hb] at h ⊢
      exact h

/-- What the turns preserve, and the result of the last. -/
theorem iterate_spec (I : σ → Prop) (Q : α → Prop)
    (hinl : ∀ s t, I s → body s = .inl t → I t) (hinr : ∀ s a, I s → body s = .inr a → Q a)
    (hs : I s) (h : iterate body n s = some a) : Q a := by
  induction n generalizing s with
  | zero => cases h
  | succ n ih =>
    cases hb : body s with
    | inl t =>
      rw [iterate_inl hb] at h
      exact ih (hinl s t hs hb) h
    | inr b =>
      rw [iterate_inr hb] at h
      cases h
      exact hinr s a hs hb

theorem halts_of_inr (h : body s = .inr a) : Halts body s := ⟨1, a, iterate_inr h⟩

theorem halts_iff_of_inl (h : body s = .inl t) : Halts body s ↔ Halts body t := by
  constructor
  · rintro ⟨n, a, hn⟩
    cases n with
    | zero => cases hn
    | succ n =>
      rw [iterate_inl h] at hn
      exact ⟨n, a, hn⟩
  · rintro ⟨n, a, hn⟩
    refine ⟨n + 1, a, ?_⟩
    rw [iterate_inl h]
    exact hn

/-- A loop that stays where it goes on does not halt. -/
theorem not_halts (I : σ → Prop) (hstep : ∀ s, I s → ∃ t, body s = .inl t ∧ I t) (hs : I s) :
    ¬ Halts body s := by
  rintro ⟨n, a, hn⟩
  induction n generalizing s with
  | zero => cases hn
  | succ n ih =>
    obtain ⟨t, ht, hI⟩ := hstep s hs
    rw [iterate_inl ht] at hn
    exact ih hI hn

/-- A loop halts when each turn brings it nearer to an end. -/
theorem halts_of_measure (I : σ → Prop) (μ : σ → Nat)
    (hstep : ∀ s t, I s → body s = .inl t → Halts body t ∨ (I t ∧ μ t < μ s)) (hs : I s) :
    Halts body s := by
  induction hμ : μ s using Nat.strongRecOn generalizing s with
  | ind k ih =>
    cases hb : body s with
    | inr a => exact halts_of_inr hb
    | inl t =>
      rw [halts_iff_of_inl hb]
      rcases hstep s t hs hb with ht | ⟨hI, hlt⟩
      · exact ht
      · exact ih (μ t) (by omega) hI rfl

end Libtorque.Lib
