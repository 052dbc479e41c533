import Libtorque.Torquehost.Lookups
import Mathlib.Algebra.Order.BigOperators.Group.Finset

/-! # The wait of torquehost

The counter is the number of lookups that are left, with the one of the main
thread while it has not begun to wait; each lookup is in the hands of one thread
at most. So nobody counts below 0, the main thread waits until all lookups have
been answered and no longer, and each marshal is freed once. -/
namespace Libtorque.Torquehost
open Libtorque.Lib

/-! ## What holds all the time -/

/-- Whether a lookup is counted in `results`. -/
@[grind] def Lookup.left : Lookup → Int
  | counted | marshalled | refused | asked | answered _ => 1
  | _ => 0

/-- The thread that has the answer. -/
@[grind] def Lookup.worker : Lookup → Option Nat
  | answered t | settled t => some t
  | _ => none

/-- `torque_addlookup_dns` has succeeded. -/
@[grind] def Lookup.added : Lookup → Bool
  | asked | answered _ | settled _ | freed => true
  | _ => false

@[grind] def Lookup.frees : Lookup → Nat
  | refused | freed => 1
  | _ => 0

/-- The main thread's own share of `results`. -/
@[grind] def Main.own : Main → Int
  | test | asleep | unlock | stop | returned _ => 0
  | _ => 1

@[grind] def Main.holds : Main → Bool
  | spool _ .count | spool _ .unlock | release | test | unlock => true
  | _ => false

/-- The main thread has waited. -/
@[grind] def Main.past : Main → Bool
  | unlock | stop | returned _ => true
  | _ => false

/-- How far the main thread has got with a lookup. -/
@[grind] def Add.fits (l : Lookup) : Add → Bool
  | lock | count => l = .unadded
  | unlock | marshal => l = .counted
  | submit => l = .marshalled
  | load => l.added

@[grind] def Main.fits (n k : Nat) (l : Lookup) : Main → Bool
  | spool j a => if k < j then l.added else if j < k then l = .unadded else a.fits l
  | err | failed => true
  | _ => if k < n then l.added else l = .unadded

/-- The lookup that a thread has in its hands, and how far it is. -/
@[grind] def Thread.works (t : Nat) : Thread → Option (Nat × Lookup)
  | lock k | decrement k => some (k, .answered t)
  | unlock k _ | signal k _ | freeMarshal k => some (k, .settled t)
  | _ => none

@[grind] def Thread.holds : Thread → Bool
  | decrement _ | unlock _ _ => true
  | _ => false

/-- What a thread has counted down to. -/
@[grind] def Thread.returns : Thread → Option Int
  | unlock _ r | signal _ r => some r
  | _ => none

/-- Each thread works on the lookup that it has taken, and no other thread does. -/
def WorksOn (threads : Nat → Thread) (lookups : Nat → Lookup) : Prop :=
  ∀ t k l, (threads t).works t = some (k, l) ↔ lookups k = l ∧ l.worker = some t

def HeldBy (threads : Nat → Thread) (holder : Option Party) : Prop :=
  ∀ t, (threads t).holds = true ↔ holder = some (.thread t)

/-- The lookups that are left. -/
def left (n : Nat) (lookups : Nat → Lookup) : Int := ∑ k ∈ Finset.range n, (lookups k).left

structure HostInv (n m : Nat) (s : Host) : Prop where
  results : s.results = s.main.own + left n s.lookups
  fits : ∀ k, s.main.fits n k (s.lookups k) = true
  few : ∀ k, s.lookups k ≠ .unadded → k < n
  adds : ∀ k a, s.main = .spool k a → a = .lock ∨ k < n
  frees : s.late = false → ∀ k, s.frees k = (s.lookups k).frees
  past : s.main.past = true → s.results = 0
  sleepers : ∀ p ∈ s.monitor.sleepers, p = .main ∧ s.main = .asleep
  mainHolds : s.main.holds = true ↔ s.monitor.holder = some .main
  heldBy : HeldBy s.threads s.monitor.holder
  worksOn : WorksOn s.threads s.lookups
  threads : ∀ t, s.threads t ≠ .idle → t < m
  returns : ∀ t r, (s.threads t).returns = some r → 0 ≤ r
  late : s.late = true → s.main = .err ∨ s.main = .failed

theorem left_update {n k : Nat} (hk : k < n) (lookups : Nat → Lookup) (l : Lookup) :
    left n (Function.update lookups k l) = left n lookups - (lookups k).left + l.left := by
  have hsum := sum_comp_update (Finset.mem_range.mpr hk) Lookup.left lookups l
  unfold left
  omega

theorem left_nonneg (l : Lookup) : 0 ≤ l.left := by
  cases l <;> simp [Lookup.left]

theorem own_nonneg (main : Main) : 0 ≤ main.own := by
  cases main <;> simp [Main.own]

/-- One that is left is among those that are. -/
theorem left_le {n k : Nat} (hk : k < n) (lookups : Nat → Lookup) :
    (lookups k).left ≤ left n lookups :=
  Finset.single_le_sum (f := fun i => (lookups i).left) (fun i _ => left_nonneg (lookups i))
    (Finset.mem_range.mpr hk)

section Threads
variable {threads : Nat → Thread} {lookups : Nat → Lookup} {holder : Option Party} {t k : Nat}
  {th : Thread} {l : Lookup}

theorem WorksOn.thread (h : WorksOn threads lookups) (hth : th.works t = (threads t).works t) :
    WorksOn (Function.update threads t th) lookups := by
  intro u i x
  by_cases hu : u = t
  · rw [hu, Function.update_self, hth]
    exact h t i x
  · rw [Function.update_of_ne hu]
    exact h u i x

/-- A lookup that no thread has goes on without one. -/
theorem WorksOn.lookup (h : WorksOn threads lookups) (hold : (lookups k).worker = none)
    (hnew : l.worker = none) : WorksOn threads (Function.update lookups k l) := by
  intro u i x
  rw [h u i x]
  by_cases hi : i = k
  · rw [hi, Function.update_self]
    constructor
    · rintro ⟨rfl, hx⟩
      rw [hold] at hx
      cases hx
    · rintro ⟨rfl, hx⟩
      rw [hnew] at hx
      cases hx
  · rw [Function.update_of_ne hi]

/-- A thread takes a lookup, goes on with it, or is done with it. -/
theorem WorksOn.move (h : WorksOn threads lookups)
    (hold : (threads t).works t = (lookups k).worker.map fun _ => (k, lookups k))
    (hnew : th.works t = l.worker.map fun _ => (k, l)) (hl : ∀ u ∈ l.worker, u = t) :
    WorksOn (Function.update threads t th) (Function.update lookups k l) := by
  have hmine : ∀ u, (lookups k).worker = some u → u = t := by
    intro u hu
    rw [hu] at hold
    have hkt := (h t k _).mp hold
    rw [hu] at hkt
    exact Option.some.inj hkt.2
  intro u i x
  by_cases hi : i = k
  · subst hi
    rw [Function.update_self]
    by_cases hu : u = t
    · subst hu
      rw [Function.update_self, hnew]
      cases hw : l.worker with
      | none =>
        simp only [Option.map_none, reduceCtorEq, false_iff, not_and]
        rintro rfl
        simp [hw]
      | some v =>
        have hv := hl v hw
        simp only [Option.map_some, Option.some.injEq, Prod.mk.injEq, true_and]
        constructor
        · rintro rfl
          exact ⟨rfl, hv ▸ hw⟩
        · exact And.left
    · rw [Function.update_of_ne hu, h u i x]
      constructor
      · rintro ⟨rfl, hx⟩
        exact absurd (hmine u hx) hu
      · rintro ⟨rfl, hx⟩
        exact absurd (hl u hx) hu
  · rw [Function.update_of_ne hi]
    by_cases hu : u = t
    · subst hu
      rw [Function.update_self, hnew, ← h u i x, hold]
      have hother : ∀ (o : Option Nat) (y : Lookup), (o.map fun _ => (k, y)) ≠ some (i, x) := by
        intro o y he
        cases o with
        | none => cases he
        | some v =>
          simp only [Option.map_some, Option.some.injEq, Prod.mk.injEq] at he
          exact hi he.1.symm
      simp only [hother]
    · rw [Function.update_of_ne hu]
      exact h u i x

theorem HeldBy.thread (h : HeldBy threads holder) (hth : th.holds = (threads t).holds) :
    HeldBy (Function.update threads t th) holder := by
  intro u
  by_cases hu : u = t
  · rw [hu, Function.update_self, hth]
    exact h t
  · rw [Function.update_of_ne hu]
    exact h u

theorem HeldBy.lock (h : HeldBy threads none) (hth : th.holds = true) :
    HeldBy (Function.update threads t th) (some (.thread t)) := by
  intro u
  by_cases hu : u = t
  · simp [hu, hth]
  · have hno := h u
    simp only [reduceCtorEq, iff_false] at hno
    simp [Function.update_of_ne hu, hno, Ne.symm hu]

theorem HeldBy.unlock (h : HeldBy threads (some (.thread t))) (hth : th.holds = false) :
    HeldBy (Function.update threads t th) none := by
  intro u
  by_cases hu : u = t
  · simp [hu, hth]
  · rw [Function.update_of_ne hu, h u]
    simp [Ne.symm hu]

/-- The main thread takes the lock, or leaves it. -/
theorem HeldBy.main {holder' : Option Party} (h : HeldBy threads holder)
    (hold : ∀ u, holder ≠ some (.thread u)) (hnew : ∀ u, holder' ≠ some (.thread u)) :
    HeldBy threads holder' := by
  intro u
  rw [h u]
  simp [hold u, hnew u]

end Threads

section Lookups
variable {n k : Nat} {lookups : Nat → Lookup} {frees : Nat → Nat} {l : Lookup}

theorem few_update (h : ∀ i, lookups i ≠ .unadded → i < n) (hk : k < n) (i : Nat)
    (hne : Function.update lookups k l i ≠ .unadded) : i < n := by
  by_cases hik : i = k
  · exact hik ▸ hk
  · rw [Function.update_of_ne hik] at hne
    exact h i hne

theorem frees_keep (h : ∀ i, frees i = (lookups i).frees) (hl : l.frees = (lookups k).frees)
    (i : Nat) : frees i = (Function.update lookups k l i).frees := by
  by_cases hik : i = k
  · rw [hik, Function.update_self, hl]
    exact h k
  · rw [Function.update_of_ne hik]
    exact h i

theorem frees_more (h : ∀ i, frees i = (lookups i).frees) (hl : l.frees = (lookups k).frees + 1)
    (i : Nat) :
    Function.update frees k (frees k + 1) i = (Function.update lookups k l i).frees := by
  by_cases hik : i = k
  · rw [hik, Function.update_self, Function.update_self, hl, h k]
  · rw [Function.update_of_ne hik, Function.update_of_ne hik]
    exact h i

theorem Main.fits_add {a b : Add} (h : ∀ i, Main.fits n i (lookups i) (.spool k a) = true)
    (hl : b.fits l = true) (i : Nat) :
    Main.fits n i (Function.update lookups k l i) (.spool k b) = true := by
  have hi := h i
  by_cases hik : i = k
  · subst hik
    simpa [Main.fits] using hl
  · rw [Function.update_of_ne hik]
    simp only [Main.fits] at hi ⊢
    split at hi
    · rename_i hlt
      rw [if_pos hlt]
      exact hi
    · rename_i hlt
      have hgt : k < i := by omega
      rw [if_pos hgt] at hi
      rw [if_neg hlt, if_pos hgt]
      exact hi

theorem Main.fits_stay {a b : Add} (h : ∀ i, Main.fits n i (lookups i) (.spool k a) = true)
    (hl : b.fits (lookups k) = true) (i : Nat) :
    Main.fits n i (lookups i) (.spool k b) = true := by
  have hi := Main.fits_add h hl i
  rwa [Function.update_eq_self] at hi

/-- What a thread does with a lookup is nothing to the main thread. -/
theorem Main.fits_thread {main : Main} (h : ∀ i, main.fits n i (lookups i) = true)
    (hold : (lookups k).added = true) (hnew : l.added = true) (i : Nat) :
    main.fits n i (Function.update lookups k l i) = true := by
  have hi := h i
  by_cases hik : i = k
  · subst hik
    rw [Function.update_self]
    have hne : lookups i ≠ .unadded := by
      intro hx
      rw [hx] at hold
      cases hold
    have hadd (a : Add) (ha : a.fits (lookups i) = true) : a.fits l = true := by
      cases a <;> grind -linarith
    cases main <;> grind -linarith
  · rwa [Function.update_of_ne hik]

end Lookups

section Steps
variable {n m : Nat} {s s' : Host}

theorem HostInv.awake (hi : HostInv n m s) (hm : s.main ≠ .asleep) :
    s.monitor.sleepers = ∅ := by
  refine Finset.eq_empty_of_forall_notMem ?_
  intro p hp
  exact hm (hi.sleepers p hp).2

/-- What is late has made the main thread fail. -/
theorem HostInv.early {p : Prop} (hi : HostInv n m s) (hm : s.main ≠ .err ∧ s.main ≠ .failed)
    (hlate : s.late = true) : p := by
  rcases hi.late hlate with h | h
  · exact absurd h hm.1
  · exact absurd h hm.2

theorem HostInv.add {k : Nat} {a : Add} (hm : s.main = .spool k a) (hk : k < n)
    (hi : HostInv n m s) (h : AddMoves s k a s') : HostInv n m s' := by
  have hnone : s.monitor.sleepers = ∅ := hi.awake (by rw [hm]; simp)
  have hfits : ∀ i, Main.fits n i (s.lookups i) (.spool k a) = true := hm ▸ hi.fits
  have hearly {p : Prop} : s.late = true → p := hi.early (by rw [hm]; simp)
  have hstage : a.fits (s.lookups k) = true := by simpa [Main.fits] using hfits k
  have hsum := left_update hk s.lookups
  obtain ⟨hresults, -, hfew, -, hfrees, -, -, hmain, hheld, hworks, hthreads, hret, -⟩ := hi
  have hadds (b : Add) : ∀ j c, Main.spool k b = .spool j c → c = .lock ∨ j < n := by
    intro j c he
    cases he
    exact .inr hk
  rw [hm] at hresults hmain
  cases h with
  | lock hfree =>
    rw [hfree] at hheld
    exact ⟨hresults, Main.fits_stay hfits hstage, hfew, hadds _, hfrees, nofun, by simp [hnone],
      by simp [Main.holds], hheld.main (by simp) (by simp), hworks, hthreads, hret, hearly⟩
  | lockFails =>
    exact ⟨hresults, fun _ => rfl, hfew, nofun, hfrees, nofun, by simp [hnone], hmain, hheld,
      hworks, hthreads, hret, hearly⟩
  | count =>
    have hx : s.lookups k = .unadded := by simpa [Add.fits] using hstage
    refine ⟨?_, Main.fits_add hfits rfl, few_update hfew hk, hadds _,
      fun hl => frees_keep (hfrees hl) (by rw [hx]; rfl), nofun, by simp [Host.setLookup, hnone], hmain, hheld,
      hworks.lookup (by rw [hx]; rfl) rfl, hthreads, hret, hearly⟩
    simp only [Host.setLookup, hresults, hsum, hx, Lookup.left, Main.own]
    omega
  | unlock hself =>
    rw [hself] at hheld
    exact ⟨hresults, Main.fits_stay hfits hstage, hfew, hadds _, hfrees, nofun, by simp [hnone],
      by simp [Main.holds], hheld.main (by simp) (by simp), hworks, hthreads, hret, hearly⟩
  | marshal =>
    have hx : s.lookups k = .counted := by simpa [Add.fits] using hstage
    refine ⟨?_, Main.fits_add hfits rfl, few_update hfew hk, hadds _,
      fun hl => frees_keep (hfrees hl) (by rw [hx]; rfl), nofun, by simp [Host.setLookup, hnone], hmain, hheld,
      hworks.lookup (by rw [hx]; rfl) rfl, hthreads, hret, hearly⟩
    simp only [Host.setLookup, hresults, hsum, hx, Lookup.left, Main.own]
    omega
  | marshalFails =>
    exact ⟨hresults, fun _ => rfl, hfew, nofun, hfrees, nofun, by simp [hnone], hmain, hheld,
      hworks, hthreads, hret, hearly⟩
  | submit =>
    have hx : s.lookups k = .marshalled := by simpa [Add.fits] using hstage
    refine ⟨?_, Main.fits_add hfits rfl, few_update hfew hk, hadds _,
      fun hl => frees_keep (hfrees hl) (by rw [hx]; rfl), nofun, by simp [Host.setLookup, hnone], hmain, hheld,
      hworks.lookup (by rw [hx]; rfl) rfl, hthreads, hret, hearly⟩
    simp only [Host.setLookup, hresults, hsum, hx, Lookup.left, Main.own]
    omega
  | submitFails =>
    have hx : s.lookups k = .marshalled := by simpa [Add.fits] using hstage
    refine ⟨?_, fun _ => rfl, few_update hfew hk, nofun,
      fun hl => frees_more (hfrees hl) (by rw [hx]; rfl), nofun,
      by simp [Host.setLookup, Host.free, hnone], hmain, hheld,
      hworks.lookup (by rw [hx]; rfl) rfl, hthreads, hret, hearly⟩
    simp only [Host.setLookup, Host.free, hresults, hsum, hx, Lookup.left, Main.own]
    omega
  | load =>
    refine ⟨hresults, ?_, hfew, ?_, hfrees, nofun, by simp [hnone], hmain, hheld, hworks,
      hthreads, hret, hearly⟩
    · intro i
      have hi := hfits i
      have hadded : (s.lookups k).added = true := hstage
      grind -linarith
    · intro j c he
      cases he
      exact .inl rfl
  | loadFails hx =>
    refine ⟨?_, fun _ => rfl, few_update hfew hk, nofun,
      fun hl => frees_more (hfrees hl) (by rw [hx]; rfl), nofun,
      by simp [Host.setLookup, Host.free, hnone], hmain, hheld,
      hworks.lookup (by rw [hx]; rfl) rfl, hthreads, hret, hearly⟩
    simp only [Host.setLookup, Host.free, hresults, hsum, hx, Lookup.left, Main.own]
    omega
  | loadFailsLate =>
    exact ⟨hresults, fun _ => rfl, hfew, nofun, nofun, nofun, by simp [Host.free, hnone], hmain,
      hheld, hworks, hthreads, hret, fun _ => .inl rfl⟩

theorem HostInv.main (hi : HostInv n m s) (h : MainMoves n s s') : HostInv n m s' := by
  have hi' := hi
  have hearly {p : Prop} (hm : s.main ≠ .err ∧ s.main ≠ .failed) : s.late = true → p :=
    hi.early hm
  obtain ⟨hresults, hfits, hfew, hadds, hfrees, hpast, hsleep, hmain, hheld, hworks, hthreads,
    hret, -⟩ := hi
  cases h with
  | add k a hm hk ha => exact hi'.add hm hk ha
  | spooled k a hm hk =>
    have ha : a = .lock := (hadds k a hm).resolve_right (by omega)
    subst ha
    have hnone := hi'.awake (by rw [hm]; simp)
    rw [hm] at hresults hmain
    refine ⟨hresults, ?_, hfew, nofun, hfrees, nofun, by simp [hnone], hmain, hheld, hworks,
      hthreads, hret, hearly (by rw [hm]; simp)⟩
    intro i
    have hi := hfits i
    rw [hm] at hi
    have hnew : ¬ i < n → s.lookups i = .unadded := fun hge => not_imp_comm.mp (hfew i) hge
    grind -linarith
  | lock hm hfree =>
    rw [hm] at hresults hfits
    rw [hfree] at hheld
    have hnone := hi'.awake (by rw [hm]; simp)
    exact ⟨hresults, hfits, hfew, nofun, hfrees, nofun, by simp [hnone], by simp [Main.holds],
      hheld.main (by simp) (by simp), hworks, hthreads, hret, hearly (by rw [hm]; simp)⟩
  | release hm =>
    rw [hm] at hresults hfits hmain
    have hnone := hi'.awake (by rw [hm]; simp)
    refine ⟨?_, hfits, hfew, nofun, hfrees, nofun, by simp [hnone], hmain, hheld, hworks, hthreads,
      hret, hearly (by rw [hm]; simp)⟩
    simp only [hresults, Main.own]
    omega
  | wait hm hr hself =>
    rw [hm] at hresults hfits
    rw [hself] at hheld
    have hnone := hi'.awake (by rw [hm]; simp)
    exact ⟨hresults, hfits, hfew, nofun, hfrees, nofun, by simp [hnone], by simp [Main.holds],
      hheld.main (by simp) (by simp), hworks, hthreads, hret, hearly (by rw [hm]; simp)⟩
  | pass hm hr =>
    rw [hm] at hresults hfits hmain
    have hnone := hi'.awake (by rw [hm]; simp)
    exact ⟨hresults, hfits, hfew, nofun, hfrees, fun _ => hr, by simp [hnone], hmain, hheld, hworks,
      hthreads, hret, hearly (by rw [hm]; simp)⟩
  | relock hm hawake hfree =>
    rw [hm] at hresults hfits
    rw [hfree] at hheld
    have hnone : s.monitor.sleepers = ∅ := by
      refine Finset.eq_empty_of_forall_notMem ?_
      intro p hp
      exact hawake ((hsleep p hp).1 ▸ hp)
    exact ⟨hresults, hfits, hfew, nofun, hfrees, nofun, by simp [hnone], by simp [Main.holds],
      hheld.main (by simp) (by simp), hworks, hthreads, hret, hearly (by rw [hm]; simp)⟩
  | unlock hm hself =>
    rw [hm] at hresults hfits hpast
    rw [hself] at hheld
    have hnone := hi'.awake (by rw [hm]; simp)
    exact ⟨hresults, hfits, hfew, nofun, hfrees, hpast, by simp [hnone], by simp [Main.holds],
      hheld.main (by simp) (by simp), hworks, hthreads, hret, hearly (by rw [hm]; simp)⟩
  | stop ok hm =>
    rw [hm] at hresults hfits hpast hmain
    have hnone := hi'.awake (by rw [hm]; simp)
    exact ⟨hresults, hfits, hfew, nofun, hfrees, hpast, by simp [hnone], hmain, hheld, hworks,
      hthreads, hret, hearly (by rw [hm]; simp)⟩
  | err hm =>
    rw [hm] at hresults hmain
    have hnone := hi'.awake (by rw [hm]; simp)
    exact ⟨hresults, fun _ => rfl, hfew, nofun, hfrees, nofun, by simp [hnone], hmain, hheld, hworks,
      hthreads, hret, fun _ => .inr rfl⟩

/-- A thread moves on, with the lock or the sleepers. -/
theorem HostInv.setThread {t : Nat} {th : Thread} {mon : Monitor Party} (ht : t < m)
    (hi : HostInv n m s) (hworks : th.works t = (s.threads t).works t)
    (hheld : HeldBy (Function.update s.threads t th) mon.holder)
    (hmain : s.main.holds = true ↔ mon.holder = some .main)
    (hsub : mon.sleepers ⊆ s.monitor.sleepers) (hret : ∀ r, th.returns = some r → 0 ≤ r) :
    HostInv n m { s.setThread t th with monitor := mon } where
  __ := hi
  sleepers p hp := hi.sleepers p (hsub hp)
  mainHolds := hmain
  heldBy := hheld
  worksOn := hi.worksOn.thread hworks
  threads u hu := by
    by_cases hut : u = t
    · exact hut ▸ ht
    · exact hi.threads u (by simpa [Host.setThread, hut] using hu)
  returns u r hu := by
    by_cases hut : u = t
    · subst hut
      exact hret r (by simpa [Host.setThread] using hu)
    · exact hi.returns u r (by simpa [Host.setThread, hut] using hu)

/-- A thread moves on with nothing else. -/
theorem HostInv.move {t : Nat} {th : Thread} (ht : t < m) (hi : HostInv n m s)
    (hworks : th.works t = (s.threads t).works t) (hholds : th.holds = (s.threads t).holds)
    (hret : ∀ r, th.returns = some r → 0 ≤ r) : HostInv n m (s.setThread t th) := by
  have hstay : s.monitor.sleepers ⊆ s.monitor.sleepers := Finset.Subset.refl _
  exact hi.setThread ht hworks (hi.heldBy.thread hholds) hi.mainHolds hstay hret

/-- A thread moves on with the lookup that it takes or has. -/
theorem HostInv.setBoth {t k : Nat} {th : Thread} {l : Lookup} (ht : t < m) (hi : HostInv n m s)
    (hadded : (s.lookups k).added = true) (hnew : l.added = true)
    (hold : (s.threads t).works t = (s.lookups k).worker.map fun _ => (k, s.lookups k))
    (hworks : th.works t = l.worker.map fun _ => (k, l)) (hl : ∀ u ∈ l.worker, u = t)
    (hholds : th.holds = (s.threads t).holds) (hret : ∀ r, th.returns = some r → 0 ≤ r)
    {results : Int} (hresults : results = s.results - (s.lookups k).left + l.left)
    (hpast : s.main.past = true → results = 0) {frees : Nat → Nat}
    (hfrees : s.late = false → ∀ i, frees i = (Function.update s.lookups k l i).frees) :
    HostInv n m
      { (s.setLookup k l).setThread t th with results := results, frees := frees } := by
  have hk : k < n := by
    refine hi.few k ?_
    intro hx
    rw [hx] at hadded
    cases hadded
  refine ⟨?_, Main.fits_thread hi.fits hadded hnew, few_update hi.few hk, hi.adds, hfrees, hpast,
    hi.sleepers, hi.mainHolds, hi.heldBy.thread hholds, hi.worksOn.move hold hworks hl, ?_, ?_,
    hi.late⟩
  · simp only [Host.setLookup, Host.setThread, left_update hk, hresults, hi.results]
    omega
  · intro u hu
    by_cases hut : u = t
    · exact hut ▸ ht
    · exact hi.threads u (by simpa [Host.setThread, Host.setLookup, hut] using hu)
  · intro u r hu
    by_cases hut : u = t
    · subst hut
      exact hret r (by simpa [Host.setThread] using hu)
    · exact hi.returns u r (by simpa [Host.setThread, Host.setLookup, hut] using hu)

theorem HostInv.thread {t : Nat} (ht : t < m) (hi : HostInv n m s) (h : ThreadMoves s t s') :
    HostInv n m s' := by
  cases h with
  | nothing hx =>
    exact hi.move ht (by rw [hx]; rfl) (by rw [hx]; rfl) (by simp [Thread.returns])
  | check k hx hk =>
    refine hi.setBoth ht (by rw [hk]; rfl) rfl (by rw [hx, hk]; rfl) rfl (by simp [Lookup.worker])
      (by rw [hx]; rfl) (by simp [Thread.returns]) ?_ hi.past ?_
    · simp [hk, Lookup.left]
    · exact fun hlate => frees_keep (hi.frees hlate) (by rw [hk]; rfl)
  | lock k hx hfree =>
    have hheld := hi.heldBy
    have hmain := hi.mainHolds
    rw [hfree] at hheld hmain
    refine hi.setThread ht (by rw [hx]; rfl) (hheld.lock rfl) ?_ (Finset.Subset.refl _)
      (by simp [Thread.returns])
    simpa using hmain
  | decrement k hx =>
    obtain ⟨hk, -⟩ := (hi.worksOn t k (.answered t)).mp (by rw [hx]; rfl)
    -- the lookup is one of those that are left
    have hpos : 1 ≤ s.results := by
      have hleft := left_le (hi.few k (by rw [hk]; simp)) s.lookups
      rw [hk] at hleft
      have hown := own_nonneg s.main
      rw [hi.results]
      simp only [Lookup.left] at hleft
      omega
    refine hi.setBoth ht (by rw [hk]; rfl) rfl (by rw [hx, hk]; rfl) rfl (by simp [Lookup.worker])
      (by rw [hx]; rfl) ?_ ?_ ?_ ?_
    · intro r hr
      cases hr
      omega
    · simp [hk, Lookup.left]
    · intro hpast
      have hzero := hi.past hpast
      omega
    · exact fun hlate => frees_keep (hi.frees hlate) (by rw [hk]; rfl)
  | unlock k returns hx hself =>
    have hheld := hi.heldBy
    have hmain := hi.mainHolds
    rw [hself] at hheld hmain
    have hret : 0 ≤ returns := hi.returns t returns (by rw [hx]; rfl)
    split
    · refine hi.setThread ht (by rw [hx]; rfl) (hheld.unlock rfl) ?_ (Finset.Subset.refl _) ?_
      · simpa using hmain
      · intro r hr
        cases hr
        exact hret
    · refine hi.setThread ht (by rw [hx]; rfl) (hheld.unlock rfl) ?_ (Finset.Subset.refl _) ?_
      · simpa using hmain
      · simp [Thread.returns]
  | signal k returns mon hx hholder hsub =>
    refine hi.setThread ht (by rw [hx]; rfl) ?_ ?_ hsub (by simp [Thread.returns])
    · rw [hholder]
      exact hi.heldBy.thread (by rw [hx]; rfl)
    · rw [hholder]
      exact hi.mainHolds
  | freeMarshal k hx =>
    obtain ⟨hk, -⟩ := (hi.worksOn t k (.settled t)).mp (by rw [hx]; rfl)
    refine hi.setBoth ht (by rw [hk]; rfl) rfl (by rw [hx, hk]; rfl) rfl (by simp [Lookup.worker])
      (by rw [hx]; rfl) (by simp [Thread.returns]) ?_ hi.past ?_
    · simp [hk, Lookup.left]
    · exact fun hlate => frees_more (hi.frees hlate) (by rw [hk]; rfl)
  | freeAnswer k hx =>
    exact hi.move ht (by rw [hx]; rfl) (by rw [hx]; rfl) (by simp [Thread.returns])

theorem HostInv.outside (hi : HostInv n m s) (h : OutsideMoves m s s') : HostInv n m s' := by
  cases h with
  | readable t ht hx =>
    exact hi.move ht (by rw [hx]; rfl) (by rw [hx]; rfl) (by simp [Thread.returns])
  | wake => exact { hi with sleepers := fun p hp => hi.sleepers p (Finset.erase_subset _ _ hp) }

theorem HostInv.step {a : Act} (hi : HostInv n m s) (h : s.step n m a = some s') :
    HostInv n m s' := by
  rcases step_cases h with hm | ⟨t, ht, hm⟩ | ⟨-, hm⟩
  · exact hi.main hm
  · exact hi.thread ht hm
  · exact hi.outside hm

theorem init_inv (n m : Nat) : HostInv n m {} where
  results := by simp [left, Lookup.left, Main.own]
  fits k := by simp [Main.fits, Add.fits]
  few k h := absurd rfl h
  adds k a h := by
    cases h
    exact .inl rfl
  frees _ _ := rfl
  past h := by cases h
  sleepers p h := by cases h
  mainHolds := by simp [Main.holds]
  heldBy t := by simp [Thread.holds]
  worksOn t k l := by
    constructor
    · intro h
      cases h
    · rintro ⟨rfl, h⟩
      cases h
  threads t h := absurd rfl h
  returns t r h := by cases h
  late h := by cases h

/-- One that has been added and is not left has been counted off. -/
theorem settled_of_not_left {l : Lookup} (hadded : l.added = true) (hleft : l.left ≤ 0) :
    l = .freed ∨ ∃ t, l = .settled t := by
  cases l with
  | settled t => exact .inr ⟨t, rfl⟩
  | freed => exact .inl rfl
  | asked | answered t => simp [Lookup.left] at hleft
  | _ => cases hadded

/-- The main thread has no share in `results` while it waits. -/
theorem Main.added_of_own {main : Main} {k : Nat} {l : Lookup} (hown : main.own = 0) (hk : k < n)
    (h : main.fits n k l = true) : l.added = true := by
  cases main <;> grind -linarith

theorem Main.own_of_past {main : Main} (h : main.past = true) : main.own = 0 := by
  cases main <;> grind -linarith

theorem HostInv.settled (hi : HostInv n m s) (hp : s.main.past = true) {k : Nat} (hk : k < n) :
    s.lookups k = .freed ∨ ∃ t, s.lookups k = .settled t := by
  have hzero := hi.past hp
  have hresults := hi.results
  have hown := Main.own_of_past hp
  have hle := left_le hk s.lookups
  exact settled_of_not_left (Main.added_of_own hown hk (hi.fits k)) (by omega)

theorem HostInv.nonneg (hi : HostInv n m s) : 0 ≤ s.results := by
  rw [hi.results]
  exact Int.add_nonneg (own_nonneg _) (Finset.sum_nonneg fun k _ => left_nonneg (s.lookups k))

theorem host_always (n m : Nat) (as : List Act) :
    Always (Host.step n m) (HostInv n m) {} as :=
  always_of_inv (fun _ _ _ hi h => hi.step h) (init_inv n m) as

end Steps

/-- In every run, when the main thread has waited, each lookup has been answered
and counted off; nobody counts below 0, so that no return is ever found to be an
extra one; and each marshal is freed once at most, unless a lookup is cancelled
that adns has given to a thread already. -/
theorem waits_for_all (n m : Nat) (as : List Act) :
    Always (Host.step n m) (fun s =>
      (s.main.past = true → ∀ k < n, s.lookups k = .freed ∨ ∃ t, s.lookups k = .settled t) ∧
      0 ≤ s.results ∧ (∀ t r, (s.threads t).returns = some r → 0 ≤ r) ∧
      (s.late = false → ∀ k, s.frees k ≤ 1)) {} as := by
  refine (host_always n m as).mono ?_
  intro s hi
  refine ⟨fun hp k hk => hi.settled hp hk, hi.nonneg, hi.returns, ?_⟩
  intro hlate k
  rw [hi.frees hlate k]
  cases s.lookups k <;> simp [Lookup.frees]

end Libtorque.Torquehost
