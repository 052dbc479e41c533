import Mathlib.Logic.Function.Basic

/-! # Runs of a partial step function

A system is a function that gives, for a state and an action, the next state,
or `none` when the action is not enabled. `Always` is about the states a list
of actions passes through, `Meets` about its steps; an invariant that the steps
meeting a condition preserve holds always in the runs that meet it. -/
namespace Libtorque.Lib

variable {σ α : Type} (step : σ → α → Option σ)

/-- The state after a list of actions. -/
def exec : σ → List α → Option σ
  | s, [] => some s
  | s, a :: as => (step s a).bind fun t => exec t as

/-- Every state on the way, up to the first action that is not enabled. -/
def Always (P : σ → Prop) : σ → List α → Prop
  | s, [] => P s
  | s, a :: as => P s ∧ ∀ t, step s a = some t → Always P t as

/-- Every step on the way, in the state before it. -/
def Meets (C : σ → α → Prop) : σ → List α → Prop
  | _, [] => True
  | s, a :: as => ∀ t, step s a = some t → C s a ∧ Meets C t as

variable {step}

/-- Both can be evaluated on a given list of actions. -/
instance Always.decidable {P : σ → Prop} [DecidablePred P] :
    ∀ s as, Decidable (Always step P s as)
  | s, [] => inferInstanceAs (Decidable (P s))
  | s, a :: as =>
    match h : step s a with
    | none => decidable_of_iff (P s) (by simp [Always, h])
    | some t =>
      have : Decidable (Always step P t as) := Always.decidable t as
      decidable_of_iff (P s ∧ Always step P t as) (by simp [Always, h])

instance Meets.decidable {C : σ → α → Prop} [∀ s a, Decidable (C s a)] :
    ∀ s as, Decidable (Meets step C s as)
  | _, [] => isTrue trivial
  | s, a :: as =>
    match h : step s a with
    | none => isTrue (by simp [Meets, h])
    | some t =>
      have : Decidable (Meets step C t as) := Meets.decidable t as
      decidable_of_iff (C s a ∧ Meets step C t as) (by simp [Meets, h])

theorem Always.mono {P Q : σ → Prop} (h : ∀ s, P s → Q s) {s : σ} {as : List α}
    (hp : Always step P s as) : Always step Q s as := by
  induction as generalizing s with
  | nil => exact h s hp
  | cons a as ih => exact ⟨h s hp.1, fun t ht => ih (hp.2 t ht)⟩

theorem Always.and {P Q : σ → Prop} {s : σ} {as : List α} (hp : Always step P s as)
    (hq : Always step Q s as) : Always step (fun s => P s ∧ Q s) s as := by
  induction as generalizing s with
  | nil => exact ⟨hp, hq⟩
  | cons a as ih => exact ⟨⟨hp.1, hq.1⟩, fun t ht => ih (hp.2 t ht) (hq.2 t ht)⟩

theorem exec_append (s : σ) (as bs : List α) :
    exec step s (as ++ bs) = (exec step s as).bind fun t => exec step t bs := by
  induction as generalizing s with
  | nil => rfl
  | cons a as ih => simp only [List.cons_append, exec, ih, Option.bind_assoc]

/-- An inductive invariant, relative to a condition on the steps. -/
theorem always_of_meets {I : σ → Prop} {C : σ → α → Prop}
    (hstep : ∀ s a t, I s → C s a → step s a = some t → I t) {s : σ} {as : List α}
    (hs : I s) (hm : Meets step C s as) : Always step I s as := by
  induction as generalizing s with
  | nil => exact hs
  | cons a as ih =>
    exact ⟨hs, fun t ht => ih (hstep s a t hs (hm t ht).1 ht) (hm t ht).2⟩

/-- An inductive invariant. -/
theorem always_of_inv {I : σ → Prop} (hstep : ∀ s a t, I s → step s a = some t → I t)
    {s : σ} (hs : I s) (as : List α) : Always step I s as := by
  induction as generalizing s with
  | nil => exact hs
  | cons a as ih => exact ⟨hs, fun t ht => ih (hstep s a t hs ht)⟩

theorem meets_of_forall {C : σ → α → Prop} (h : ∀ s a, C s a) (s : σ) (as : List α) :
    Meets step C s as := by
  induction as generalizing s with
  | nil => trivial
  | cons a as ih => exact fun t _ => ⟨h s a, ih t⟩

/-- Steps that meet two conditions. -/
theorem Meets.both {C D E : σ → α → Prop} {s : σ} {as : List α} (h : ∀ s a, C s a → D s a → E s a)
    (hc : Meets step C s as) (hd : Meets step D s as) : Meets step E s as := by
  induction as generalizing s with
  | nil => trivial
  | cons a as ih =>
    intro t ht
    exact ⟨h s a (hc t ht).1 (hd t ht).1, ih (hc t ht).2 (hd t ht).2⟩

/-- What the states before and after a step tell about it. -/
theorem Always.meets {P : σ → Prop} {C : σ → α → Prop} {s : σ} {as : List α}
    (hp : Always step P s as) (h : ∀ s a t, step s a = some t → P s → P t → C s a) :
    Meets step C s as := by
  induction as generalizing s with
  | nil => trivial
  | cons a as ih =>
    intro t ht
    have hpt : P t := by
      have hrest := hp.2 t ht
      cases as with
      | nil => exact hrest
      | cons b bs => exact hrest.1
    exact ⟨h s a t ht hp.1 hpt, ih (hp.2 t ht)⟩

theorem Always.last {P : σ → Prop} {s t : σ} {as : List α} (h : Always step P s as)
    (he : exec step s as = some t) : P t := by
  induction as generalizing s with
  | nil =>
    cases he
    exact h
  | cons a as ih =>
    obtain ⟨u, hu, he⟩ := Option.bind_eq_some_iff.mp he
    exact ih (h.2 u hu) he

/-! ## Many copies of a system -/

section Family
variable {ι : Type} [DecidableEq ι]

/-- One step of one of them. -/
def family (step : σ → α → Option σ) (s : ι → σ) (x : ι × α) : Option (ι → σ) :=
  (step (s x.1) x.2).map fun t => Function.update s x.1 t

/-- Each of them keeps its own invariant, whatever the others do in between. -/
theorem always_family {I : ι → σ → Prop} {C : σ → α → Prop}
    (hstep : ∀ i s a t, I i s → C s a → step s a = some t → I i t) {s : ι → σ}
    {as : List (ι × α)} (hs : ∀ i, I i (s i))
    (hm : Meets (family step) (fun s x => C (s x.1) x.2) s as) :
    Always (family step) (fun s => ∀ i, I i (s i)) s as := by
  refine always_of_meets ?_ hs hm
  intro s x t hs hc ht i
  obtain ⟨u, hu, rfl⟩ := Option.map_eq_some_iff.mp ht
  by_cases hi : i = x.1
  · subst hi
    rw [Function.update_self]
    exact hstep x.1 _ _ _ (hs x.1) hc hu
  · rw [Function.update_of_ne hi]
    exact hs i

end Family

end Libtorque.Lib
