import Libtorque.Lib.Lts
import Mathlib.Data.Finset.Basic

/-! # A mutex with a condition variable

A party that waits gives up the mutex and sleeps, until it is woken or, now and
then, of itself; it goes on when it has the mutex again. No sleeper is forgotten
where parties go to sleep only as long as what they wait for is not there, who
brings it about wakes the sleepers later, and nobody is done with that while one
sleeps. -/
namespace Libtorque.Lib

/-- Who holds the mutex, and who sleeps on the condition. -/
structure Monitor (τ : Type) where
  holder : Option τ := none
  sleepers : Finset τ := ∅

namespace Monitor
variable {τ : Type} [DecidableEq τ]

/-- `pthread_mutex_lock`, where it need not block. -/
def lock (m : Monitor τ) (t : τ) : Option (Monitor τ) :=
  if m.holder = none then some { m with holder := some t } else none

def unlock (m : Monitor τ) (t : τ) : Option (Monitor τ) :=
  if m.holder = some t then some { m with holder := none } else none

/-- `pthread_cond_wait`, up to where the party sleeps. -/
def wait (m : Monitor τ) (t : τ) : Option (Monitor τ) :=
  if m.holder = some t then some { holder := none, sleepers := insert t m.sleepers } else none

/-- The rest of `pthread_cond_wait`, for a party that sleeps no more. -/
def relock (m : Monitor τ) (t : τ) : Option (Monitor τ) :=
  if t ∈ m.sleepers then none else m.lock t

/-- A party wakes up of itself. -/
def wake (m : Monitor τ) (t : τ) : Option (Monitor τ) :=
  if t ∈ m.sleepers then some { m with sleepers := m.sleepers.erase t } else none

def broadcast (m : Monitor τ) : Monitor τ := { m with sleepers := ∅ }

/-- `pthread_cond_signal` wakes a party, if one sleeps. -/
def signal (m : Monitor τ) : Option τ → Option (Monitor τ)
  | some t => m.wake t
  | none => if m.sleepers = ∅ then some m else none

variable {m m' : Monitor τ} {t : τ}

omit [DecidableEq τ] in
theorem lock_cases (h : m.lock t = some m') :
    m.holder = none ∧ m' = { m with holder := some t } := by
  obtain ⟨hfree, he⟩ := Option.ite_none_right_eq_some.mp h
  exact ⟨hfree, (Option.some.inj he).symm⟩

theorem unlock_cases (h : m.unlock t = some m') :
    m.holder = some t ∧ m' = { m with holder := none } := by
  obtain ⟨hheld, he⟩ := Option.ite_none_right_eq_some.mp h
  exact ⟨hheld, (Option.some.inj he).symm⟩

theorem wait_cases (h : m.wait t = some m') :
    m.holder = some t ∧ m' = { holder := none, sleepers := insert t m.sleepers } := by
  obtain ⟨hheld, he⟩ := Option.ite_none_right_eq_some.mp h
  exact ⟨hheld, (Option.some.inj he).symm⟩

theorem relock_cases (h : m.relock t = some m') :
    t ∉ m.sleepers ∧ m.holder = none ∧ m' = { m with holder := some t } := by
  obtain ⟨hawake, he⟩ := Option.ite_none_left_eq_some.mp h
  exact ⟨hawake, lock_cases he⟩

theorem wake_cases (h : m.wake t = some m') :
    t ∈ m.sleepers ∧ m' = { m with sleepers := m.sleepers.erase t } := by
  obtain ⟨hsleeps, he⟩ := Option.ite_none_right_eq_some.mp h
  exact ⟨hsleeps, (Option.some.inj he).symm⟩

/-- A signal goes to a sleeper, or nobody sleeps. -/
theorem signal_cases {o : Option τ} (h : m.signal o = some m') :
    m'.holder = m.holder ∧ m'.sleepers ⊆ m.sleepers ∧
      (m.sleepers = ∅ ∨ ∃ t ∈ m.sleepers, m'.sleepers = m.sleepers.erase t) := by
  cases o with
  | none =>
    obtain ⟨hnone, he⟩ := Option.ite_none_right_eq_some.mp h
    cases he
    exact ⟨rfl, Finset.Subset.refl _, .inl hnone⟩
  | some t =>
    obtain ⟨hsleeps, rfl⟩ := wake_cases h
    exact ⟨rfl, Finset.erase_subset _ _, .inr ⟨t, hsleeps, rfl⟩⟩

/-- Some signal is always possible. -/
theorem exists_signal (m : Monitor τ) : ∃ o, (m.signal o).isSome := by
  by_cases hnone : m.sleepers = ∅
  · exact ⟨none, by simp [signal, hnone]⟩
  · obtain ⟨t, ht⟩ := Finset.nonempty_iff_ne_empty.mpr hnone
    exact ⟨some t, by simp [signal, wake, ht]⟩

/-! ## Sleepers are not forgotten -/

section Discipline
variable {σ α : Type}

/-- How the parties of a system use the monitor `mon`: `ready` is what the
sleepers wait for, and `owing` that somebody is yet to wake them. -/
structure Discipline (step : σ → α → Option σ) (I : σ → Prop) (mon : σ → Monitor τ)
    (ready owing : σ → Prop) : Prop where
  sleeps : ∀ {s a s'}, I s → step s a = some s' → ready s' →
    (mon s').sleepers ⊆ (mon s).sleepers
  readies : ∀ {s a s'}, I s → step s a = some s' → ¬ ready s → ready s' →
    owing s' ∨ (mon s').sleepers = ∅
  wakes : ∀ {s a s'}, I s → step s a = some s' → ready s' → owing s →
    owing s' ∨ (mon s').sleepers = ∅

/-- Where somebody sleeps through what he waits for, he is yet to be woken. -/
def Remembered (mon : σ → Monitor τ) (ready owing : σ → Prop) (s : σ) : Prop :=
  ready s → (mon s).sleepers.Nonempty → owing s

variable {step : σ → α → Option σ} {I : σ → Prop} {mon : σ → Monitor τ} {ready owing : σ → Prop}

omit [DecidableEq τ] in
theorem Discipline.remembered (hd : Discipline step I mon ready owing) {s s' : σ} {a : α} (hi : I s)
    (h : step s a = some s') (hr : Remembered mon ready owing s) :
    Remembered mon ready owing s' := by
  intro hready hsome
  by_cases hbefore : ready s
  · have hold : (mon s).sleepers.Nonempty := hsome.mono (hd.sleeps hi h hready)
    exact (hd.wakes hi h hready (hr hbefore hold)).resolve_right hsome.ne_empty
  · exact (hd.readies hi h hbefore hready).resolve_right hsome.ne_empty

omit [DecidableEq τ] in
theorem Discipline.always (hd : Discipline step I mon ready owing)
    (hstep : ∀ s a s', I s → step s a = some s' → I s') {s : σ} (hi : I s)
    (hr : Remembered mon ready owing s) (as : List α) :
    Always step (fun s => I s ∧ Remembered mon ready owing s) s as := by
  refine always_of_inv ?_ ⟨hi, hr⟩ as
  intro s a s' hs h
  exact ⟨hstep s a s' hs.1 h, hd.remembered hs.1 h hs.2⟩

end Discipline

end Monitor

end Libtorque.Lib
