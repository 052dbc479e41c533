import Libtorque.Lib.Ends
import Libtorque.Lib.Monitor
import Mathlib.Algebra.BigOperators.Group.Finset.Basic

/-! # torquehost

The main thread adds a lookup for each target and waits until all have been
answered. Any number of event threads meanwhile run `adns_rx_callback`, which
gives each answer that adns has to `lookup_callback`. The lookups that are left
are counted, with one more as long as some are still to be added. What adns does
at each call is one step, although its struct is not locked; `add_lookup` unlocks
without fail; and the count, a C `int`, has no bounds here. -/
namespace Libtorque.Torquehost
open Libtorque.Lib

/-! ## The code -/

inductive Party where
  | main
  | thread (t : Nat)
deriving DecidableEq, Repr

/-- How far a lookup is: `refused` by `adns_submit`, asked of adns, or taken from
it by a thread, counted off, and done with. -/
inductive Lookup where
  | unadded
  | counted
  | marshalled
  | refused
  | asked
  | answered (t : Nat)
  | settled (t : Nat)
  | freed
deriving DecidableEq, Repr

/-- Where `add_lookup` is, from `marshal` on in `torque_addlookup_dns`. -/
inductive Add where
  | lock
  | count
  | unlock
  | marshal
  | submit
  | load
deriving DecidableEq, Repr

/-- Where `main` is; `spool` is inside `spool_targets`, and `asleep` inside
`pthread_cond_wait`; `err` is the way out when something has failed. -/
inductive Main where
  | spool (target : Nat) (a : Add)
  | lock
  | release
  | test
  | asleep
  | unlock
  | stop
  | returned (success : Bool)
  | err
  | failed
deriving DecidableEq, Repr

/-- Where an event thread is, from `lock` on in `lookup_callback` for a target,
with what it has found `returns` to be, and then in `adns_rx_callback` again. -/
inductive Thread where
  | idle
  | check
  | lock (target : Nat)
  | decrement (target : Nat)
  | unlock (target : Nat) (returns : Int)
  | signal (target : Nat) (returns : Int)
  | freeMarshal (target : Nat)
  | freeAnswer (target : Nat)
deriving DecidableEq, Repr

/-- `frees` counts how often the marshal of a lookup has been freed; `late` is
that one has been cancelled which adns had given to a thread already. -/
structure Host where
  main : Main := .spool 0 .lock
  threads : Nat → Thread := fun _ => .idle
  monitor : Monitor Party := {}
  results : Int := 1
  lookups : Nat → Lookup := fun _ => .unadded
  frees : Nat → Nat := fun _ => 0
  late : Bool := false

def Host.setLookup (s : Host) (k : Nat) (l : Lookup) : Host :=
  { s with lookups := Function.update s.lookups k l }

def Host.setThread (s : Host) (t : Nat) (th : Thread) : Host :=
  { s with threads := Function.update s.threads t th }

def Host.free (s : Host) (k : Nat) : Host :=
  { s with frees := Function.update s.frees k (s.frees k + 1) }

/-- `adns_cancel`. -/
def Host.cancel (s : Host) (k : Nat) : Host :=
  if s.lookups k = .asked then s.setLookup k .refused else { s with late := true }

/-- `add_lookup` for target `k`; `ok` is whether what it calls succeeds. -/
def Host.addLookup (s : Host) (k : Nat) (ok : Bool) : Add → Option Host
  | .lock =>
    if ok then (s.monitor.lock .main).map fun m => { s with monitor := m, main := .spool k .count }
    else some { s with main := .err }
  | .count =>
    some { s.setLookup k .counted with results := s.results + 1, main := .spool k .unlock }
  | .unlock =>
    (s.monitor.unlock .main).map fun m => { s with monitor := m, main := .spool k .marshal }
  | .marshal =>
    if ok then some { s.setLookup k .marshalled with main := .spool k .submit }
    else some { s with main := .err }
  | .submit =>
    if ok then some { s.setLookup k .asked with main := .spool k .load }
    else some { (s.setLookup k .refused).free k with main := .err }
  | .load =>
    if ok then some { s with main := .spool (k + 1) .lock }
    else some { (s.cancel k).free k with main := .err }

/-- `main`, with `n` targets. -/
def Host.mainStep (n : Nat) (s : Host) (ok : Bool) : Option Host :=
  match s.main with
  | .spool k a => if k < n then s.addLookup k ok a else some { s with main := .lock }
  | .lock => (s.monitor.lock .main).map fun m => { s with monitor := m, main := .release }
  | .release => some { s with results := s.results - 1, main := .test }
  | .test =>
    if s.results ≠ 0 then
      (s.monitor.wait .main).map fun m => { s with monitor := m, main := .asleep }
    else some { s with main := .unlock }
  | .asleep => (s.monitor.relock .main).map fun m => { s with monitor := m, main := .test }
  | .unlock => (s.monitor.unlock .main).map fun m => { s with monitor := m, main := .stop }
  | .stop => some { s with main := .returned ok }
  | .err => some { s with main := .failed }
  | .returned _ | .failed => none

/-- `adns_check` has the answer to a lookup, or no more. -/
def Host.checkStep (s : Host) (t : Nat) : Option Nat → Option Host
  | none => some (s.setThread t .idle)
  | some k =>
    if s.lookups k = .asked then some ((s.setLookup k (.answered t)).setThread t (.lock k))
    else none

/-- `woken` is the party that a signal goes to. -/
def Host.threadStep (s : Host) (t : Nat) (woken : Option Party) : Option Host :=
  match s.threads t with
  | .lock k =>
    (s.monitor.lock (.thread t)).map fun m => { s.setThread t (.decrement k) with monitor := m }
  | .decrement k =>
    some { (s.setLookup k (.settled t)).setThread t (.unlock k (s.results - 1)) with
      results := s.results - 1 }
  | .unlock k returns =>
    (s.monitor.unlock (.thread t)).map fun m =>
      { s.setThread t (if returns ≤ 0 then .signal k returns else .freeMarshal k) with
        monitor := m }
  | .signal k _ =>
    (s.monitor.signal woken).map fun m => { s.setThread t (.freeMarshal k) with monitor := m }
  | .freeMarshal k => some (((s.setLookup k .freed).free k).setThread t (.freeAnswer k))
  | .freeAnswer _ => some (s.setThread t .check)
  | _ => none

/-- Who moves; a descriptor of adns becomes readable for a thread, or the main
thread wakes up of itself. -/
inductive Act where
  | main (ok : Bool)
  | check (t : Nat) (target : Option Nat)
  | thread (t : Nat) (woken : Option Party)
  | readable (t : Nat)
  | wake
deriving DecidableEq, Repr

def Act.outside : Act → Bool
  | readable _ | wake => true
  | _ => false

/-- With `n` targets and `m` event threads. -/
def Host.step (n m : Nat) (s : Host) : Act → Option Host
  | .main ok => s.mainStep n ok
  | .check t k => if t < m ∧ s.threads t = .check then s.checkStep t k else none
  | .thread t woken => if t < m then s.threadStep t woken else none
  | .readable t => if t < m ∧ s.threads t = .idle then some (s.setThread t .check) else none
  | .wake => (s.monitor.wake .main).map fun mon => { s with monitor := mon }

/-! ## What a step does -/

inductive AddMoves (s : Host) (k : Nat) : Add → Host → Prop
  | lock : s.monitor.holder = none →
      AddMoves s k .lock
        { s with monitor := { s.monitor with holder := some .main }, main := .spool k .count }
  | lockFails : AddMoves s k .lock { s with main := .err }
  | count :
      AddMoves s k .count
        { s.setLookup k .counted with results := s.results + 1, main := .spool k .unlock }
  | unlock : s.monitor.holder = some .main →
      AddMoves s k .unlock
        { s with monitor := { s.monitor with holder := none }, main := .spool k .marshal }
  | marshal : AddMoves s k .marshal { s.setLookup k .marshalled with main := .spool k .submit }
  | marshalFails : AddMoves s k .marshal { s with main := .err }
  | submit : AddMoves s k .submit { s.setLookup k .asked with main := .spool k .load }
  | submitFails : AddMoves s k .submit { (s.setLookup k .refused).free k with main := .err }
  | load : AddMoves s k .load { s with main := .spool (k + 1) .lock }
  | loadFails : s.lookups k = .asked →
      AddMoves s k .load { (s.setLookup k .refused).free k with main := .err }
  | loadFailsLate : s.lookups k ≠ .asked →
      AddMoves s k .load { s.free k with main := .err, late := true }

inductive MainMoves (n : Nat) (s : Host) : Host → Prop
  | add {t : Host} (k : Nat) (a : Add) : s.main = .spool k a → k < n → AddMoves s k a t →
      MainMoves n s t
  | spooled (k : Nat) (a : Add) : s.main = .spool k a → n ≤ k →
      MainMoves n s { s with main := .lock }
  | lock : s.main = .lock → s.monitor.holder = none →
      MainMoves n s
        { s with monitor := { s.monitor with holder := some .main }, main := .release }
  | release : s.main = .release →
      MainMoves n s { s with results := s.results - 1, main := .test }
  | wait : s.main = .test → s.results ≠ 0 → s.monitor.holder = some .main →
      MainMoves n s
        { s with
          monitor := { holder := none, sleepers := insert .main s.monitor.sleepers }
          main := .asleep }
  | pass : s.main = .test → s.results = 0 → MainMoves n s { s with main := .unlock }
  | relock : s.main = .asleep → .main ∉ s.monitor.sleepers → s.monitor.holder = none →
      MainMoves n s { s with monitor := { s.monitor with holder := some .main }, main := .test }
  | unlock : s.main = .unlock → s.monitor.holder = some .main →
      MainMoves n s { s with monitor := { s.monitor with holder := none }, main := .stop }
  | stop (ok : Bool) : s.main = .stop → MainMoves n s { s with main := .returned ok }
  | err : s.main = .err → MainMoves n s { s with main := .failed }

/-- What event thread `t` does. -/
inductive ThreadMoves (s : Host) (t : Nat) : Host → Prop
  | nothing : s.threads t = .check → ThreadMoves s t (s.setThread t .idle)
  | check (k : Nat) : s.threads t = .check → s.lookups k = .asked →
      ThreadMoves s t ((s.setLookup k (.answered t)).setThread t (.lock k))
  | lock (k : Nat) : s.threads t = .lock k → s.monitor.holder = none →
      ThreadMoves s t
        { s.setThread t (.decrement k) with
          monitor := { s.monitor with holder := some (.thread t) } }
  | decrement (k : Nat) : s.threads t = .decrement k →
      ThreadMoves s t
        { (s.setLookup k (.settled t)).setThread t (.unlock k (s.results - 1)) with
          results := s.results - 1 }
  | unlock (k : Nat) (returns : Int) : s.threads t = .unlock k returns →
      s.monitor.holder = some (.thread t) →
      ThreadMoves s t
        { s.setThread t (if returns ≤ 0 then .signal k returns else .freeMarshal k) with
          monitor := { s.monitor with holder := none } }
  | signal (k : Nat) (returns : Int) (m : Monitor Party) : s.threads t = .signal k returns →
      m.holder = s.monitor.holder → m.sleepers ⊆ s.monitor.sleepers →
      (s.monitor.sleepers = ∅ ∨ ∃ p ∈ s.monitor.sleepers, m.sleepers = s.monitor.sleepers.erase p) →
      ThreadMoves s t { s.setThread t (.freeMarshal k) with monitor := m }
  | freeMarshal (k : Nat) : s.threads t = .freeMarshal k →
      ThreadMoves s t (((s.setLookup k .freed).free k).setThread t (.freeAnswer k))
  | freeAnswer (k : Nat) : s.threads t = .freeAnswer k → ThreadMoves s t (s.setThread t .check)

inductive OutsideMoves (m : Nat) (s : Host) : Host → Prop
  | readable (t : Nat) : t < m → s.threads t = .idle → OutsideMoves m s (s.setThread t .check)
  | wake : .main ∈ s.monitor.sleepers →
      OutsideMoves m s
        { s with monitor := { s.monitor with sleepers := s.monitor.sleepers.erase .main } }

variable {n m : Nat} {s s' : Host}

theorem addLookup_cases {k : Nat} {ok : Bool} {a : Add} (h : s.addLookup k ok a = some s') :
    AddMoves s k a s' := by
  cases a with
  | lock =>
    cases ok with
    | true =>
      obtain ⟨mon, hm, rfl⟩ := Option.map_eq_some_iff.mp h
      obtain ⟨hfree, rfl⟩ := Monitor.lock_cases hm
      exact .lock hfree
    | false =>
      cases h
      exact .lockFails
  | count =>
    cases h
    exact .count
  | unlock =>
    obtain ⟨mon, hm, rfl⟩ := Option.map_eq_some_iff.mp h
    obtain ⟨hheld, rfl⟩ := Monitor.unlock_cases hm
    exact .unlock hheld
  | marshal =>
    cases ok with
    | true =>
      cases h
      exact .marshal
    | false =>
      cases h
      exact .marshalFails
  | submit =>
    cases ok with
    | true =>
      cases h
      exact .submit
    | false =>
      cases h
      exact .submitFails
  | load =>
    cases ok with
    | true =>
      cases h
      exact .load
    | false =>
      cases h
      by_cases hk : s.lookups k = .asked
      · rw [Host.cancel, if_pos hk]
        exact .loadFails hk
      · rw [Host.cancel, if_neg hk]
        exact .loadFailsLate hk

theorem mainStep_cases {ok : Bool} (h : s.mainStep n ok = some s') : MainMoves n s s' := by
  cases hm : s.main with
  | spool k a =>
    simp only [Host.mainStep, hm] at h
    split at h
    · rename_i hk
      exact .add k a hm hk (addLookup_cases h)
    · rename_i hk
      cases h
      exact .spooled k a hm (Nat.le_of_not_lt hk)
  | lock =>
    simp only [Host.mainStep, hm] at h
    obtain ⟨mon, hl, rfl⟩ := Option.map_eq_some_iff.mp h
    obtain ⟨hfree, rfl⟩ := Monitor.lock_cases hl
    exact .lock hm hfree
  | release =>
    simp only [Host.mainStep, hm] at h
    cases h
    exact .release hm
  | test =>
    simp only [Host.mainStep, hm] at h
    split at h
    · rename_i hr
      obtain ⟨mon, hw, rfl⟩ := Option.map_eq_some_iff.mp h
      obtain ⟨hheld, rfl⟩ := Monitor.wait_cases hw
      exact .wait hm hr hheld
    · rename_i hr
      cases h
      exact .pass hm (Decidable.of_not_not hr)
  | asleep =>
    simp only [Host.mainStep, hm] at h
    obtain ⟨mon, hl, rfl⟩ := Option.map_eq_some_iff.mp h
    obtain ⟨hawake, hfree, rfl⟩ := Monitor.relock_cases hl
    exact .relock hm hawake hfree
  | unlock =>
    simp only [Host.mainStep, hm] at h
    obtain ⟨mon, hl, rfl⟩ := Option.map_eq_some_iff.mp h
    obtain ⟨hheld, rfl⟩ := Monitor.unlock_cases hl
    exact .unlock hm hheld
  | stop =>
    simp only [Host.mainStep, hm] at h
    cases h
    exact .stop ok hm
  | err =>
    simp only [Host.mainStep, hm] at h
    cases h
    exact .err hm
  | returned _ | failed =>
    simp only [Host.mainStep, hm] at h
    cases h

theorem threadStep_cases {t : Nat} {woken : Option Party} (h : s.threadStep t woken = some s') :
    ThreadMoves s t s' := by
  cases ht : s.threads t with
  | lock k =>
    simp only [Host.threadStep, ht] at h
    obtain ⟨mon, hl, rfl⟩ := Option.map_eq_some_iff.mp h
    obtain ⟨hfree, rfl⟩ := Monitor.lock_cases hl
    exact .lock k ht hfree
  | decrement k =>
    simp only [Host.threadStep, ht] at h
    cases h
    exact .decrement k ht
  | unlock k returns =>
    simp only [Host.threadStep, ht] at h
    obtain ⟨mon, hl, rfl⟩ := Option.map_eq_some_iff.mp h
    obtain ⟨hheld, rfl⟩ := Monitor.unlock_cases hl
    exact .unlock k returns ht hheld
  | signal k returns =>
    simp only [Host.threadStep, ht] at h
    obtain ⟨mon, hs, rfl⟩ := Option.map_eq_some_iff.mp h
    obtain ⟨hholder, hsub, hwoken⟩ := Monitor.signal_cases hs
    exact .signal k returns mon ht hholder hsub hwoken
  | freeMarshal k =>
    simp only [Host.threadStep, ht] at h
    cases h
    exact .freeMarshal k ht
  | freeAnswer k =>
    simp only [Host.threadStep, ht] at h
    cases h
    exact .freeAnswer k ht
  | idle | check =>
    simp only [Host.threadStep, ht] at h
    cases h

theorem step_cases {a : Act} (h : s.step n m a = some s') :
    MainMoves n s s' ∨ (∃ t < m, ThreadMoves s t s') ∨
      (a.outside = true ∧ OutsideMoves m s s') := by
  cases a with
  | main ok => exact .inl (mainStep_cases h)
  | check t k =>
    obtain ⟨⟨ht, hx⟩, h⟩ := Option.ite_none_right_eq_some.mp h
    refine .inr (.inl ⟨t, ht, ?_⟩)
    cases k with
    | none =>
      cases h
      exact .nothing hx
    | some k =>
      obtain ⟨hk, he⟩ := Option.ite_none_right_eq_some.mp h
      cases he
      exact .check k hx hk
  | thread t woken =>
    obtain ⟨ht, h⟩ := Option.ite_none_right_eq_some.mp h
    exact .inr (.inl ⟨t, ht, threadStep_cases h⟩)
  | readable t =>
    obtain ⟨⟨ht, hx⟩, he⟩ := Option.ite_none_right_eq_some.mp h
    cases he
    exact .inr (.inr ⟨rfl, .readable t ht hx⟩)
  | wake =>
    obtain ⟨mon, hm, rfl⟩ := Option.map_eq_some_iff.mp h
    obtain ⟨hsleeps, rfl⟩ := Monitor.wake_cases hm
    exact .inr (.inr ⟨rfl, .wake hsleeps⟩)

end Libtorque.Torquehost
