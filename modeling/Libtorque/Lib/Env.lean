import Libtorque.Lib.Prog

/-! # A program in one environment

An environment answers every operation out of a state of its own, so that a
program has one run in it: `none` where a loop is cut. -/
namespace Libtorque.Lib

/-- A loop that carries more than another, of which its body is the same apart
from that. -/
theorem loop_map {Op : Type} {Rep : Op → Type} {α β γ δ : Type}
    {body : β → Prog Op Rep (β ⊕ α)} {body' : γ → Prog Op Rep (γ ⊕ δ)} (f : β → γ) (g : α → δ)
    (h : ∀ b, ((body b).bind fun r => .ret (r.map f g)) = body' (f b)) (n : Nat) (b : β) :
    ((Prog.loop body n b).bind fun a => .ret (g a)) = Prog.loop body' n (f b) := by
  induction n generalizing b with
  | zero => rfl
  | succ n ih =>
    rw [Prog.loop, Prog.loop, ← h, Prog.bind_assoc, Prog.bind_assoc]
    congr 1
    funext r
    cases r with
    | inl b => exact ih b
    | inr a => rfl

structure Env (Op : Type) (Rep : Op → Type) (σ : Type) where
  reply : σ → (o : Op) → Rep o
  next : σ → Op → σ

variable {Op : Type} {Rep : Op → Type} {σ α β : Type}

/-- The result, and the environment's state after it. -/
def Prog.runIn (env : Env Op Rep σ) : Prog Op Rep α → σ → Option (α × σ)
  | .ret a, s => some (a, s)
  | .call o k, s => (k (env.reply s o)).runIn env (env.next s o)
  | .cut, _ => none

variable {env : Env Op Rep σ} {s : σ}

@[simp] theorem runIn_perform (o : Op) :
    (Prog.perform o).runIn env s = some (env.reply s o, env.next s o) :=
  rfl

theorem runIn_bind (p : Prog Op Rep β) (f : β → Prog Op Rep α) :
    (p.bind f).runIn env s = (p.runIn env s).bind fun x => (f x.1).runIn env x.2 := by
  induction p generalizing s with
  | ret b => rfl
  | call o k ih => exact ih (env.reply s o)
  | cut => rfl

@[simp] theorem runIn_do (p : Prog Op Rep β) (f : β → Prog Op Rep α) :
    (p >>= f).runIn env s = (p.runIn env s).bind fun x => (f x.1).runIn env x.2 :=
  runIn_bind p f

/-- One turn of a loop. -/
theorem runIn_loop_succ (body : β → Prog Op Rep (β ⊕ α)) (n : Nat) (b : β) :
    (Prog.loop body (n + 1) b).runIn env s =
      ((body b).runIn env s).bind fun x =>
        match x.1 with
        | .inl b => (Prog.loop body n b).runIn env x.2
        | .inr a => some (a, x.2) := by
  rw [Prog.loop, runIn_bind]
  congr 1
  funext x
  obtain ⟨r, t⟩ := x
  cases r <;> rfl

/-- A loop keeps its invariant, and ends with what its body gives last. -/
theorem runIn_loop_spec {body : β → Prog Op Rep (β ⊕ α)} (I : β → σ → Prop) {Q : α → σ → Prop}
    (hbody : ∀ b s y t, I b s → (body b).runIn env s = some (y, t) → y.elim (I · t) (Q · t))
    {n : Nat} {b : β} {a : α} {t : σ} (hs : I b s)
    (h : (Prog.loop body n b).runIn env s = some (a, t)) : Q a t := by
  induction n generalizing b s with
  | zero => cases h
  | succ n ih =>
    rw [runIn_loop_succ] at h
    obtain ⟨⟨y, u⟩, hturn, h⟩ := Option.bind_eq_some_iff.mp h
    have hy := hbody b s y u hs hturn
    cases y with
    | inl b => exact ih hy h
    | inr a =>
      cases h
      exact hy

/-- No loop is cut, whatever the replies. -/
def Prog.Uncut : Prog Op Rep α → Prop
  | .ret _ => True
  | .call _ k => ∀ r, (k r).Uncut
  | .cut => False

theorem uncut_do {p : Prog Op Rep β} {f : β → Prog Op Rep α} (hp : p.Uncut)
    (hf : ∀ b, (f b).Uncut) : (p >>= f).Uncut := by
  induction p with
  | ret b => exact hf b
  | call o k ih => exact fun r => ih r (hp r)
  | cut => exact hp.elim

theorem runIn_of_uncut {p : Prog Op Rep α} (h : p.Uncut) (env : Env Op Rep σ) (s : σ) :
    ∃ x, p.runIn env s = some x := by
  induction p generalizing s with
  | ret a => exact ⟨_, rfl⟩
  | call o k ih => exact ih _ (h _) _
  | cut => exact h.elim

/-- A program with a bound on its loops comes to its end under some bound. -/
def Finishes (env : Env Op Rep σ) (p : Nat → Prog Op Rep α) (s : σ) : Prop :=
  ∃ n x, (p n).runIn env s = some x

theorem not_finishes {p : Nat → Prog Op Rep α} (h : ∀ n, (p n).runIn env s = none) :
    ¬ Finishes env p s := by
  rintro ⟨n, x, hx⟩
  rw [h n] at hx
  cases hx

end Libtorque.Lib
