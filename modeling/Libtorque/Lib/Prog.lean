import Libtorque.Lib.Lts

/-! # Programs that call an environment

A program returns a value or performs an operation and goes on with its reply;
`cut` is where a loop has been followed as far as its bound, in the middle of
the run. `wp` is the weakest precondition of a program under a contract: what
is promised at each operation, and what may be assumed of its effect. -/
namespace Libtorque.Lib

inductive Prog (Op : Type) (Rep : Op → Type) (α : Type) where
  | ret (a : α)
  | call (o : Op) (k : Rep o → Prog Op Rep α)
  | cut

namespace Prog
variable {Op : Type} {Rep : Op → Type} {α β σ : Type}

def bind : Prog Op Rep α → (α → Prog Op Rep β) → Prog Op Rep β
  | ret a, f => f a
  | call o k, f => call o fun r => (k r).bind f
  | cut, _ => cut

theorem bind_assoc (p : Prog Op Rep α) (f : α → Prog Op Rep β) {γ : Type}
    (g : β → Prog Op Rep γ) : (p.bind f).bind g = p.bind fun a => (f a).bind g := by
  induction p with
  | ret a => rfl
  | call o k ih => simp only [bind, ih]
  | cut => rfl

instance : Monad (Prog Op Rep) where
  pure := ret
  bind := bind

def perform (o : Op) : Prog Op Rep (Rep o) := call o ret

/-- `body` over and over, from `b`, until it gives a result. -/
def loop (body : β → Prog Op Rep (β ⊕ α)) : Nat → β → Prog Op Rep α
  | 0, _ => cut
  | n + 1, b => (body b).bind fun
    | .inl b => loop body n b
    | .inr a => ret a

/-- The operation a program is about to perform. -/
def op : Prog Op Rep α → Option Op
  | call o _ => some o
  | _ => none

/-- One operation of a program, with the reply that the environment would give
to each operation. -/
def step (next : σ → (o : Op) → Rep o → Option σ) :
    σ × Prog Op Rep α → ((o : Op) → Rep o) → Option (σ × Prog Op Rep α)
  | (s, call o k), r => (next s o (r o)).map fun t => (t, k (r o))
  | _, _ => none

/-- An assumption on the replies, as a condition on the steps of a run. -/
def Assume (A : σ → (o : Op) → Rep o → Bool) :
    σ × Prog Op Rep α → ((o : Op) → Rep o) → Prop
  | (s, call o _), r => A s o (r o)
  | _, _ => True

instance {A : σ → (o : Op) → Rep o → Bool} :
    ∀ (x : σ × Prog Op Rep α) r, Decidable (Assume A x r)
  | (s, call o _), r => inferInstanceAs (Decidable (A s o (r o) = true))
  | (_, ret _), _ => isTrue trivial
  | (_, cut), _ => isTrue trivial

end Prog

/-- `ok` is promised at each operation, and with `none` where a loop is cut;
`next` is what may be assumed of the effect. -/
structure Contract (Op : Type) (Rep : Op → Type) (σ : Type) where
  ok : σ → Option Op → Prop
  next : σ → (o : Op) → Rep o → σ → Prop

/-- The environment itself, where its replies are as assumed, and the promises `P`. -/
def Contract.of {Op : Type} {Rep : Op → Type} {σ : Type}
    (next : σ → (o : Op) → Rep o → Option σ) (P : σ → Option Op → Prop)
    (A : σ → (o : Op) → Rep o → Bool) : Contract Op Rep σ where
  ok := P
  next s o r t := A s o r ∧ next s o r = some t

section Wp
variable {Op : Type} {Rep : Op → Type} {α β σ : Type} (K : Contract Op Rep σ)

def wp : Prog Op Rep α → (α → σ → Prop) → σ → Prop
  | .ret a, Q, s => Q a s
  | .call o k, Q, s => K.ok s (some o) ∧ ∀ r t, K.next s o r t → wp (k r) Q t
  | .cut, _, s => K.ok s none

variable {K} {Q R : α → σ → Prop} {s : σ}

theorem wp_bind {p : Prog Op Rep β} {f : β → Prog Op Rep α} :
    wp K (p.bind f) Q s ↔ wp K p (fun b t => wp K (f b) Q t) s := by
  induction p generalizing s with
  | ret b => rfl
  | call o k ih => simp only [Prog.bind, wp, ih]
  | cut => rfl

@[simp] theorem wp_do {p : Prog Op Rep β} {f : β → Prog Op Rep α} :
    wp K (p >>= f) Q s ↔ wp K p (fun b t => wp K (f b) Q t) s :=
  wp_bind

@[simp] theorem wp_pure {a : α} : wp K (pure a : Prog Op Rep α) Q s ↔ Q a s := Iff.rfl

theorem wp_op {o : Op} {Q : Rep o → σ → Prop} (hok : K.ok s (some o))
    (h : ∀ r t, K.next s o r t → Q r t) : wp K (Prog.perform o) Q s :=
  ⟨hok, h⟩

/-- Under a contract that promises less and allows no more. -/
theorem wp_weaken {K' : Contract Op Rep σ} {p : Prog Op Rep α} (hok : ∀ t o, K.ok t o → K'.ok t o)
    (hnext : ∀ t o r u, K'.next t o r u → K.next t o r u) (hp : wp K p Q s) : wp K' p Q s := by
  induction p generalizing s with
  | ret a => exact hp
  | call o k ih => exact ⟨hok s _ hp.1, fun r t ht => ih r (hp.2 r t (hnext s o r t ht))⟩
  | cut => exact hok s _ hp

theorem wp_mono {p : Prog Op Rep α} (h : ∀ a t, Q a t → R a t) (hp : wp K p Q s) :
    wp K p R s := by
  induction p generalizing s with
  | ret a => exact h a s hp
  | call o k ih => exact ⟨hp.1, fun r t ht => ih r (hp.2 r t ht)⟩
  | cut => exact hp

/-- A loop keeps its invariant and ends with what its body gives last. -/
theorem wp_loop {body : β → Prog Op Rep (β ⊕ α)} (J : β → σ → Prop)
    (hcut : ∀ b t, J b t → K.ok t none)
    (hbody : ∀ b t, J b t → wp K (body b) (fun x u => x.elim (J · u) (Q · u)) t)
    (n : Nat) {b : β} (h : J b s) : wp K (Prog.loop body n b) Q s := by
  induction n generalizing b s with
  | zero => exact hcut b s h
  | succ n ih =>
    rw [Prog.loop, wp_bind]
    refine wp_mono ?_ (hbody b s h)
    rintro (b | a) t ht
    · exact ih ht
    · exact ht

/-! ## What a program may come to -/

/-- Some replies that the contract allows make a program break a promise, or end
as `Q` says. -/
def may (K : Contract Op Rep σ) (p : Prog Op Rep α) (Q : α → σ → Prop) (s : σ) : Prop :=
  ¬ wp K p (fun a t => ¬ Q a t) s

theorem not_wp_of_may {p : Prog Op Rep α} (h : may K p (fun _ _ => False) s) : ¬ wp K p Q s :=
  fun hp => h (wp_mono (fun _ _ _ hf => hf) hp)

theorem may_do {p : Prog Op Rep β} {f : β → Prog Op Rep α} :
    may K (p >>= f) Q s ↔ may K p (fun b t => may K (f b) Q t) s := by
  unfold may
  simp only [wp_do, not_not]

theorem may_pure {a : α} : may K (pure a : Prog Op Rep α) Q s ↔ Q a s := not_not

theorem may_mono {p : Prog Op Rep α} (h : ∀ a t, Q a t → R a t) (hp : may K p Q s) :
    may K p R s :=
  fun hr => hp (wp_mono (fun a t hn hq => hn (h a t hq)) hr)

theorem may_break {o : Op} {k : Rep o → Prog Op Rep α} (h : ¬ K.ok s (some o)) :
    may K (.call o k) Q s :=
  fun hp => h hp.1

theorem may_op {o : Op} {Q : Rep o → σ → Prop} (r : Rep o) (t : σ) (ht : K.next s o r t)
    (hQ : Q r t) : may K (Prog.perform o) Q s :=
  fun hp => hp.2 r t ht hQ

/-! ## Programs that keep to some operations -/

/-- All the operations that a program may perform satisfy `p`. -/
def Prog.Only (p : Op → Prop) : Prog Op Rep α → Prop
  | .ret _ => True
  | .call o k => p o ∧ ∀ r, Only p (k r)
  | .cut => True

theorem only_bind {p : Op → Prop} {x : Prog Op Rep β} {f : β → Prog Op Rep α} (hx : Prog.Only p x)
    (hf : ∀ b, Prog.Only p (f b)) : Prog.Only p (x.bind f) := by
  induction x with
  | ret b => exact hf b
  | call o k ih => exact ⟨hx.1, fun r => ih r (hx.2 r)⟩
  | cut => trivial

theorem only_do {p : Op → Prop} {x : Prog Op Rep β} {f : β → Prog Op Rep α} (hx : Prog.Only p x)
    (hf : ∀ b, Prog.Only p (f b)) : Prog.Only p (x >>= f) :=
  only_bind hx hf

theorem only_pure {p : Op → Prop} {a : α} : Prog.Only p (pure a : Prog Op Rep α) := trivial

theorem only_perform {p : Op → Prop} {o : Op} (h : p o) :
    Prog.Only p (Prog.perform o : Prog Op Rep (Rep o)) :=
  ⟨h, fun _ => trivial⟩

theorem only_true (x : Prog Op Rep α) : Prog.Only (fun _ => True) x := by
  induction x with
  | ret a => trivial
  | call o k ih => exact ⟨trivial, ih⟩
  | cut => trivial

theorem only_loop {p : Op → Prop} {body : β → Prog Op Rep (β ⊕ α)} (h : ∀ b, Prog.Only p (body b))
    (n : Nat) (b : β) : Prog.Only p (Prog.loop body n b) := by
  induction n generalizing b with
  | zero => trivial
  | succ n ih =>
    refine only_bind (h b) ?_
    rintro (b | a)
    · exact ih b
    · trivial

/-- What some operations preserve, a program of such operations preserves. -/
theorem wp_only {p : Op → Prop} {I : σ → Prop} {x : Prog Op Rep α} (hx : Prog.Only p x)
    (hcut : ∀ t, I t → K.ok t none) (hok : ∀ o t, p o → I t → K.ok t (some o))
    (hstep : ∀ o r t u, p o → I t → K.next t o r u → I u) (hs : I s) :
    wp K x (fun _ t => I t) s := by
  induction x generalizing s with
  | ret a => exact hs
  | call o k ih =>
    exact ⟨hok o s hx.1 hs, fun r t ht => ih r (hx.2 r) (hstep o r s t hx.1 hs ht)⟩
  | cut => exact hcut s hs

/-- What is shown besides, under a contract that promises nothing. -/
theorem wp_and {L : Contract Op Rep σ} {p : Prog Op Rep α}
    (hnext : ∀ s o r t, K.next s o r t → L.next s o r t) (hq : wp K p Q s) (hr : wp L p R s) :
    wp K p (fun a t => Q a t ∧ R a t) s := by
  induction p generalizing s with
  | ret a => exact ⟨hq, hr⟩
  | call o k ih => exact ⟨hq.1, fun r t ht => ih r (hq.2 r t ht) (hr.2 r t (hnext s o r t ht))⟩
  | cut => exact hq

/-- Under a contract over other states, each step of which is one of the first
contract's over the states they stand for. -/
theorem wp_simulate {τ : Type} {L : Contract Op Rep τ} {I : σ → τ → Prop} {q : Op → Prop}
    {p : Prog Op Rep α} {t : τ} (hp : Prog.Only q p)
    (hcut : ∀ s t, I s t → K.ok s none → L.ok t none)
    (hok : ∀ s t o, q o → I s t → K.ok s (some o) → L.ok t (some o))
    (hnext : ∀ s t o r u, q o → I s t → L.next t o r u → ∃ v, K.next s o r v ∧ I v u)
    (hst : I s t) (h : wp K p Q s) : wp L p (fun a u => ∃ v, I v u ∧ Q a v) t := by
  induction p generalizing s t with
  | ret a => exact ⟨s, hst, h⟩
  | call o k ih =>
    refine ⟨hok s t o hp.1 hst h.1, fun r u hu => ?_⟩
    obtain ⟨v, hv, hvu⟩ := hnext s t o r u hp.1 hst hu
    exact ih r (hp.2 r) hvu (h.2 r v hv)
  | cut => exact hcut s t hst h

/-- Where nothing is promised, whatever always holds. -/
theorem wp_any {x : Prog Op Rep α} (hok : ∀ t o, K.ok t o) (h : ∀ a t, Q a t) : wp K x Q s :=
  wp_mono (fun a t _ => h a t)
    (wp_only (I := fun _ => True) (only_true x) (fun t _ => hok t none) (fun o t _ _ => hok t o)
      (fun _ _ _ _ _ _ _ => trivial) trivial)

/-- What a contract's promises make of a program in a state. -/
def Promised (K : Contract Op Rep σ) (Q : α → σ → Prop) (x : σ × Prog Op Rep α) : Prop :=
  match x.2 with
  | .ret a => Q a x.1
  | p => K.ok x.1 p.op

theorem promised_of_wp {p : Prog Op Rep α} (h : wp K p Q s) : Promised K Q (s, p) := by
  cases p with
  | ret a => exact h
  | call o k => exact h.1
  | cut => exact h

/-- A step with a reply that is as assumed leaves what is required of the rest. -/
theorem wp_step {next : σ → (o : Op) → Rep o → Option σ} {A : σ → (o : Op) → Rep o → Bool}
    (hnext : ∀ s o r t, A s o r → next s o r = some t → K.next s o r t)
    {x y : σ × Prog Op Rep α} {r : (o : Op) → Rep o} (h : wp K x.2 Q x.1)
    (ha : Prog.Assume A x r) (hstep : Prog.step next x r = some y) : wp K y.2 Q y.1 := by
  obtain ⟨s, p⟩ := x
  cases p with
  | call o k =>
    obtain ⟨u, hu, he⟩ := Option.map_eq_some_iff.mp hstep
    cases he
    exact h.2 _ _ (hnext s o (r o) _ ha hu)
  | ret a => cases hstep
  | cut => cases hstep

/-- The promises are kept in all the runs whose replies are as assumed. -/
theorem always_of_wp {next : σ → (o : Op) → Rep o → Option σ}
    {A : σ → (o : Op) → Rep o → Bool}
    (hnext : ∀ s o r t, A s o r → next s o r = some t → K.next s o r t)
    {p : Prog Op Rep α} (h : wp K p Q s) {rs : List ((o : Op) → Rep o)}
    (hm : Meets (Prog.step next) (Prog.Assume A) (s, p) rs) :
    Always (Prog.step next) (Promised K Q) (s, p) rs := by
  refine Always.mono (P := fun x : σ × Prog Op Rep α => wp K x.2 Q x.1) (fun _ hx => promised_of_wp hx) ?_
  exact always_of_meets (C := Prog.Assume A) (fun _ _ _ hx ha => wp_step hnext hx ha) h hm

/-- What is kept wherever a run comes is required; `r₀` stands for the replies to
operations that a run does not come to. -/
theorem wp_of_exec {next : σ → (o : Op) → Rep o → Option σ} {P : σ → Option Op → Prop}
    {A : σ → (o : Op) → Rep o → Bool} (r₀ : (o : Op) → Rep o) {p : Prog Op Rep α}
    (h : ∀ rs x, Meets (Prog.step next) (Prog.Assume A) (s, p) rs →
      exec (Prog.step next) (s, p) rs = some x → Promised (.of next P A) Q x) :
    wp (.of next P A) p Q s := by
  classical
  induction p generalizing s with
  | ret a => exact h [] (s, .ret a) trivial rfl
  | cut => exact h [] (s, .cut) trivial rfl
  | call o k ih =>
    refine ⟨h [] (s, .call o k) trivial rfl, ?_⟩
    rintro r t ⟨ha, ht⟩
    have hr : Function.update r₀ o r o = r := Function.update_self ..
    have hstep : Prog.step next (s, .call o k) (Function.update r₀ o r) = some (t, k r) := by
      simp only [Prog.step, hr, ht, Option.map_some]
    refine ih r fun rs x hm he => h (Function.update r₀ o r :: rs) x ?_ ?_
    · intro y hy
      cases hstep.symm.trans hy
      refine ⟨?_, hm⟩
      show A s o (Function.update r₀ o r o) = true
      rwa [hr]
    · rw [exec, hstep]
      exact he

/-- What a finished program has been shown to end with. -/
theorem last_of_wp {next : σ → (o : Op) → Rep o → Option σ} {A : σ → (o : Op) → Rep o → Bool}
    (hnext : ∀ s o r t, A s o r → next s o r = some t → K.next s o r t)
    {p : Prog Op Rep α} (h : wp K p Q s) {rs : List ((o : Op) → Rep o)}
    (hm : Meets (Prog.step next) (Prog.Assume A) (s, p) rs) {t : σ} {a : α}
    (he : exec (Prog.step next) (s, p) rs = some (t, .ret a)) : Q a t :=
  (always_of_wp hnext h hm).last he

/-- Where every reply is possible. -/
theorem exec_of_wp {next : σ → (o : Op) → Rep o → Option σ} {p : Prog Op Rep α}
    (h : wp (.of next (fun _ _ => True) fun _ _ _ => true) p Q s) {rs : List ((o : Op) → Rep o)}
    {t : σ} {a : α} (he : exec (Prog.step next) (s, p) rs = some (t, .ret a)) : Q a t := by
  have hassume : ∀ (x : σ × Prog Op Rep α) r, Prog.Assume (fun _ _ _ => true) x r := by
    rintro ⟨t, q⟩ r
    cases q <;> trivial
  exact last_of_wp (fun _ _ _ _ ha ht => And.intro ha ht) h (meets_of_forall hassume _ _) he

/-- Where all the replies of a run are as assumed. -/
theorem exec_of_replies {next : σ → (o : Op) → Rep o → Option σ} {B : ((o : Op) → Rep o) → Prop}
    (hnext : ∀ s o r t, B r → next s o (r o) = some t → K.next s o (r o) t)
    {p : Prog Op Rep α} (h : wp K p Q s) {rs : List ((o : Op) → Rep o)} (hB : ∀ r ∈ rs, B r)
    {t : σ} {a : α} (he : exec (Prog.step next) (s, p) rs = some (t, .ret a)) : Q a t := by
  induction rs generalizing s p with
  | nil =>
    cases he
    exact h
  | cons r rs ih =>
    obtain ⟨⟨u, q⟩, hu, he⟩ := Option.bind_eq_some_iff.mp he
    cases p with
    | ret a => cases hu
    | cut => cases hu
    | call o k =>
      obtain ⟨v, hv, hvu⟩ := Option.map_eq_some_iff.mp hu
      cases hvu
      exact ih (h.2 (r o) u (hnext s o r u (hB r List.mem_cons_self) hv))
        (fun r hr => hB r (List.mem_cons_of_mem _ hr)) he

/-- So they are in all the runs of many programs side by side. -/
theorem always_family_of_wp {ι : Type} [DecidableEq ι] {next : σ → (o : Op) → Rep o → Option σ}
    {A : σ → (o : Op) → Rep o → Bool}
    (hnext : ∀ s o r t, A s o r → next s o r = some t → K.next s o r t)
    {x : ι → σ × Prog Op Rep α} (h : ∀ i, wp K (x i).2 Q (x i).1)
    {rs : List (ι × ((o : Op) → Rep o))}
    (hm : Meets (family (Prog.step next)) (fun x r => Prog.Assume A (x r.1) r.2) x rs) :
    Always (family (Prog.step next)) (fun x => ∀ i, Promised K Q (x i)) x rs := by
  refine Always.mono (P := fun x : ι → σ × Prog Op Rep α => ∀ i, wp K (x i).2 Q (x i).1)
    (fun _ hx i => promised_of_wp (hx i)) ?_
  refine always_family (I := fun _ y => wp K (Prod.snd y) Q (Prod.fst y))
    (C := Prog.Assume A) ?_ h hm
  intro _ y r z hy ha hz
  exact wp_step hnext hy ha hz

/-! ## Whether a run has met a condition -/

/-- The environment alone, with whether all the steps so far have met `A`. -/
def tracking (next : σ → (o : Op) → Rep o → Option σ) (A : σ → (o : Op) → Rep o → Bool) :
    Contract Op Rep (σ × Prop) where
  ok _ _ := True
  next x o r y := next x.1 o r = some y.1 ∧ (y.2 ↔ x.2 ∧ A x.1 o r)

/-- What holds of a finished program, and of whether its run has met `A`. -/
theorem exec_tracking {next : σ → (o : Op) → Rep o → Option σ}
    {A : σ → (o : Op) → Rep o → Bool} {p : Prog Op Rep α} {Q : α → σ × Prop → Prop} {φ : Prop}
    {t : σ} {a : α} {rs : List ((o : Op) → Rep o)} (h : wp (tracking next A) p Q (s, φ))
    (he : exec (Prog.step next) (s, p) rs = some (t, .ret a)) :
    Q a (t, φ ∧ Meets (Prog.step next) (Prog.Assume A) (s, p) rs) := by
  induction rs generalizing s p φ with
  | nil =>
    cases he
    rw [Meets, and_true]
    exact h
  | cons r rs ih =>
    obtain ⟨⟨u, q⟩, hu, he⟩ := Option.bind_eq_some_iff.mp he
    cases p with
    | ret a => cases hu
    | cut => cases hu
    | call o k =>
      obtain ⟨v, hv, hvu⟩ := Option.map_eq_some_iff.mp hu
      cases hvu
      have hmeets : Meets (Prog.step next) (Prog.Assume A) (s, .call o k) (r :: rs) ↔
          A s o (r o) ∧ Meets (Prog.step next) (Prog.Assume A) (u, k (r o)) rs := by
        simp only [Meets, hu, Option.some.injEq, forall_eq']
        exact Iff.rfl
      rw [hmeets, ← and_assoc]
      exact ih (h.2 (r o) (u, φ ∧ A s o (r o)) ⟨hv, Iff.rfl⟩) he

/-- What is promised besides holds in all the runs. -/
theorem always_tracking {next : σ → (o : Op) → Rep o → Option σ}
    {A : σ → (o : Op) → Rep o → Bool} {P : σ → Option Op → Prop} {p : Prog Op Rep α}
    {Q : α → σ × Prop → Prop} {φ : Prop}
    (h : wp { tracking next A with ok := fun x => P x.1 } p Q (s, φ)) (rs : List ((o : Op) → Rep o)) :
    Always (Prog.step next) (fun x => ∀ o, x.2.op = some o → P x.1 (some o)) (s, p) rs := by
  have hhere (t : σ) (q : Prog Op Rep α) (ψ : Prop)
      (hq : wp { tracking next A with ok := fun x => P x.1 } q Q (t, ψ)) :
      ∀ o, q.op = some o → P t (some o) := by
    intro o ho
    cases q with
    | call o' k =>
      cases ho
      exact hq.1
    | ret a => cases ho
    | cut => cases ho
  induction rs generalizing s p φ with
  | nil => exact hhere s p φ h
  | cons r rs ih =>
    refine ⟨hhere s p φ h, ?_⟩
    rintro ⟨t, q⟩ ht
    cases p with
    | call o k =>
      obtain ⟨u, hu, he⟩ := Option.map_eq_some_iff.mp ht
      cases he
      exact ih (h.2 (r o) (t, φ ∧ A s o (r o)) ⟨hu, Iff.rfl⟩)
    | ret a => cases ht
    | cut => cases ht

end Wp

/-! ## Programs among others' operations -/

section Embed
variable {Op Op' : Type} {Rep : Op → Type} {Rep' : Op' → Type} {α σ : Type}
  (f : Op → Op') (g : (o : Op) → Rep' (f o) → Rep o)

/-- A program whose operations are some of those of another kind of program. -/
def Prog.embed : Prog Op Rep α → Prog Op' Rep' α
  | .ret a => .ret a
  | .call o k => .call (f o) fun r => (k (g o r)).embed
  | .cut => .cut

/-- What a contract says of those operations. -/
def Contract.pull (K : Contract Op' Rep' σ) : Contract Op Rep σ where
  ok s o := K.ok s (o.map f)
  next s o r t := ∃ r', g o r' = r ∧ K.next s (f o) r' t

theorem wp_embed {K : Contract Op' Rep' σ} {p : Prog Op Rep α} {Q : α → σ → Prop} {s : σ} :
    wp K (p.embed f g) Q s ↔ wp (K.pull f g) p Q s := by
  induction p generalizing s with
  | ret a => rfl
  | cut => rfl
  | call o k ih =>
    refine and_congr Iff.rfl ⟨?_, ?_⟩
    · intro h r t hr
      obtain ⟨r', rfl, ht⟩ := hr
      exact (ih _).mp (h r' t ht)
    · intro h r' t ht
      exact (ih _).mpr (h (g o r') t ⟨r', rfl, ht⟩)

end Embed

end Libtorque.Lib
