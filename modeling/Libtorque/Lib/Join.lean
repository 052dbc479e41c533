/-! # `pthread_join` among a set of parties

A party may wait for another to exit. A call fails at once with `EDEADLK` when
its target is the caller or is itself waiting for the caller, with `EINVAL`
when the target already has a waiting joiner; otherwise the caller waits. -/
namespace Libtorque.Lib

variable {τ : Type} [DecidableEq τ]

inductive JoinResult where
  | edeadlk
  | einval
  | wait
deriving DecidableEq, Repr

/-- The outcome of `pthread_join(t)` called by `caller`, where `waitsFor` tells
whose exit each of the parties is waiting for. -/
def pthreadJoin (waitsFor : τ → Option τ) (parties : List τ) (caller t : τ) : JoinResult :=
  if t = caller ∨ waitsFor t = some caller then .edeadlk
  else if parties.any fun p => waitsFor p = some t then .einval
  else .wait

variable {waitsFor : τ → Option τ} {parties : List τ} {caller t : τ}

theorem pthreadJoin_self : pthreadJoin waitsFor parties t t = .edeadlk := by
  simp [pthreadJoin]

/-- A target that has a joiner is not waited for again. -/
theorem pthreadJoin_taken {p : τ} (hp : p ∈ parties) (hw : waitsFor p = some t) :
    pthreadJoin waitsFor parties caller t ≠ .wait := by
  unfold pthreadJoin
  split
  · simp
  · rw [if_pos (List.any_eq_true.mpr ⟨p, hp, by simp [hw]⟩)]
    simp

/-- A call waits when nobody else waits for its target, which is another party
and does not wait for the caller. -/
theorem pthreadJoin_free (hne : t ≠ caller) (hd : waitsFor t ≠ some caller)
    (hf : ∀ p ∈ parties, waitsFor p ≠ some t) :
    pthreadJoin waitsFor parties caller t = .wait := by
  unfold pthreadJoin
  rw [if_neg (by simp [hne, hd]), if_neg]
  simp only [List.any_eq_true, not_exists, not_and]
  intro p hp
  simp [hf p hp]

end Libtorque.Lib
