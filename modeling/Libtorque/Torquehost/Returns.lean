import Libtorque.Torquehost.Waits

/-! # The return of torquehost

A thread that counts down to 0 is yet to signal, so that the main thread does not
sleep through it; and each answer makes for only so many steps. So the main
thread comes back as soon as adns has answered each lookup. -/
namespace Libtorque.Torquehost
open Libtorque.Lib

/-! ## How far it is -/

def Add.rank : Add → Nat
  | lock => 6
  | count => 5
  | unlock => 4
  | marshal => 3
  | submit => 2
  | load => 1

def Main.rank (n : Nat) (sleeps : Bool) : Main → Nat
  | spool k a => 1 + 6 * (n - k) + a.rank
  | lock => 6
  | release => 5
  | test => 4
  | asleep => if sleeps then 3 else 5
  | unlock => 2
  | stop | err => 1
  | returned _ | failed => 0

def Thread.rank : Thread → Nat
  | idle => 0
  | check => 1
  | freeAnswer _ => 2
  | freeMarshal _ => 3
  | signal _ _ => 6
  | unlock _ _ => 7
  | decrement _ => 8
  | lock _ => 9

/-- What a thread will have to do with a lookup that it has yet to take. -/
def Lookup.rank : Lookup → Nat
  | unadded | counted | marshalled | asked => 10
  | _ => 0

def Host.measure (n m : Nat) (s : Host) : Nat :=
  s.main.rank n (decide (.main ∈ s.monitor.sleepers)) +
    ∑ t ∈ Finset.range m, (s.threads t).rank + ∑ k ∈ Finset.range n, (s.lookups k).rank

section Measure
variable {n m : Nat} {s s' : Host}

theorem AddMoves.measure_lt {k : Nat} {a : Add} (hi : HostInv n m s) (hm : s.main = .spool k a)
    (hk : k < n) (h : AddMoves s k a s') : s'.measure n m < s.measure n m := by
  have hsum (l : Lookup) := sum_comp_update (Finset.mem_range.mpr hk) Lookup.rank s.lookups l
  have hstage : a.fits (s.lookups k) = true := by simpa [hm, Main.fits] using hi.fits k
  unfold Host.measure
  rw [hm]
  cases h with
  | lock | lockFails | unlock | marshalFails | loadFailsLate =>
    simp only [Main.rank, Add.rank, Host.free]
    omega
  | load =>
    simp only [Main.rank, Add.rank]
    omega
  | count =>
    have hx : s.lookups k = .unadded := by simpa [Add.fits] using hstage
    have hnew := hsum .counted
    rw [hx] at hnew
    simp only [Main.rank, Add.rank, Lookup.rank, Host.setLookup] at hnew ⊢
    omega
  | marshal =>
    have hx : s.lookups k = .counted := by simpa [Add.fits] using hstage
    have hnew := hsum .marshalled
    rw [hx] at hnew
    simp only [Main.rank, Add.rank, Lookup.rank, Host.setLookup] at hnew ⊢
    omega
  | submit =>
    have hx : s.lookups k = .marshalled := by simpa [Add.fits] using hstage
    have hnew := hsum .asked
    rw [hx] at hnew
    simp only [Main.rank, Add.rank, Lookup.rank, Host.setLookup] at hnew ⊢
    omega
  | submitFails | loadFails =>
    have hnew := hsum .refused
    simp only [Main.rank, Add.rank, Lookup.rank, Host.setLookup, Host.free] at hnew ⊢
    omega

theorem MainMoves.measure_lt (hi : HostInv n m s) (h : MainMoves n s s') :
    s'.measure n m < s.measure n m := by
  cases h with
  | add k a hm hk ha => exact ha.measure_lt hi hm hk
  | spooled k a hm hk =>
    have ha : a = .lock := (hi.adds k a hm).resolve_right (by omega)
    simp only [Host.measure, hm, ha, Main.rank, Add.rank]
    omega
  | wait hm =>
    simp only [Host.measure, hm, Main.rank, Finset.mem_insert_self, decide_true, if_true]
    omega
  | relock hm hawake =>
    simp only [Host.measure, hm, Main.rank, hawake, decide_false, Bool.false_eq_true, if_false]
    omega
  | lock hm | release hm | pass hm | unlock hm | stop ok hm | err hm =>
    simp only [Host.measure, hm, Main.rank]
    omega

/-- To be woken costs the main thread two steps. -/
theorem Main.rank_le (n : Nat) (b b' : Bool) (main : Main) :
    main.rank n b ≤ main.rank n b' + 2 := by
  cases main with
  | asleep => cases b <;> cases b' <;> simp [Main.rank]
  | _ => simp [Main.rank]

theorem threads_rank {t : Nat} {th : Thread} (ht : t < m) (hx : s.threads t = th)
    (th' : Thread) :
    ∑ u ∈ Finset.range m, (Function.update s.threads t th' u).rank + th.rank =
      ∑ u ∈ Finset.range m, (s.threads u).rank + th'.rank :=
  hx ▸ sum_comp_update (Finset.mem_range.mpr ht) Thread.rank s.threads th'

theorem lookups_rank {k : Nat} {l : Lookup} (hk : k < n) (hl : s.lookups k = l) (l' : Lookup) :
    ∑ i ∈ Finset.range n, (Function.update s.lookups k l' i).rank + l.rank =
      ∑ i ∈ Finset.range n, (s.lookups i).rank + l'.rank :=
  hl ▸ sum_comp_update (Finset.mem_range.mpr hk) Lookup.rank s.lookups l'

/-- A thread moves on by itself. -/
theorem measure_thread {t : Nat} {th th' : Thread} (ht : t < m) (hx : s.threads t = th)
    (hmain : s'.main = s.main) (hsleep : s'.monitor.sleepers = s.monitor.sleepers)
    (hthreads : s'.threads = Function.update s.threads t th') (hlookups : s'.lookups = s.lookups)
    (hless : th'.rank < th.rank) : s'.measure n m < s.measure n m := by
  have hnew := threads_rank ht hx th'
  simp only [Host.measure, hmain, hsleep, hthreads, hlookups]
  omega

/-- A thread moves on with a lookup. -/
theorem measure_both {t k : Nat} {th th' : Thread} {l l' : Lookup} (ht : t < m)
    (hx : s.threads t = th) (hk : k < n) (hl : s.lookups k = l) (hmain : s'.main = s.main)
    (hsleep : s'.monitor.sleepers = s.monitor.sleepers)
    (hthreads : s'.threads = Function.update s.threads t th')
    (hlookups : s'.lookups = Function.update s.lookups k l')
    (hless : th'.rank + l'.rank < th.rank + l.rank) : s'.measure n m < s.measure n m := by
  have hnew := threads_rank ht hx th'
  have htaken := lookups_rank hk hl l'
  simp only [Host.measure, hmain, hsleep, hthreads, hlookups]
  omega

theorem ThreadMoves.measure_lt {t : Nat} (hi : HostInv n m s) (ht : t < m)
    (h : ThreadMoves s t s') : s'.measure n m < s.measure n m := by
  have hfew {k : Nat} {l : Lookup} (hl : s.lookups k = l) (hne : l ≠ .unadded) : k < n :=
    hi.few k (hl ▸ hne)
  have hworks := hi.worksOn t
  cases h with
  | nothing hx | lock k hx | freeAnswer k hx =>
    exact measure_thread ht hx rfl rfl rfl rfl (by simp [Thread.rank])
  | check k hx hk =>
    exact measure_both ht hx (hfew hk nofun) hk rfl rfl rfl rfl (by simp [Thread.rank, Lookup.rank])
  | decrement k hx =>
    obtain ⟨hk, -⟩ := (hworks k (.answered t)).mp (by rw [hx]; rfl)
    exact measure_both ht hx (hfew hk nofun) hk rfl rfl rfl rfl (by simp [Thread.rank, Lookup.rank])
  | unlock k returns hx =>
    refine measure_thread ht hx rfl rfl rfl rfl ?_
    split <;> simp [Thread.rank]
  | signal k returns mon hx =>
    have hnew := threads_rank ht hx (.freeMarshal k)
    have hmain := s.main.rank_le n (decide (.main ∈ mon.sleepers))
      (decide (.main ∈ s.monitor.sleepers))
    have hold : (Thread.signal k returns).rank = 6 := rfl
    have hless : (Thread.freeMarshal k).rank = 3 := rfl
    dsimp only [Host.measure, Host.setThread]
    omega
  | freeMarshal k hx =>
    obtain ⟨hk, -⟩ := (hworks k (.settled t)).mp (by rw [hx]; rfl)
    exact measure_both ht hx (hfew hk nofun) hk rfl rfl rfl rfl (by simp [Thread.rank, Lookup.rank])

theorem OutsideMoves.measure_le (h : OutsideMoves m s s') :
    s'.measure n m ≤ s.measure n m + 2 := by
  cases h with
  | readable t ht hx =>
    have hnew := threads_rank ht hx .check
    have hold : Thread.idle.rank = 0 := rfl
    have hmore : Thread.check.rank = 1 := rfl
    dsimp only [Host.measure, Host.setThread]
    omega
  | wake =>
    have hmain := s.main.rank_le n (decide (.main ∈ s.monitor.sleepers.erase .main))
      (decide (.main ∈ s.monitor.sleepers))
    dsimp only [Host.measure]
    omega

theorem host_descends (n m : Nat) :
    Descends (Host.step n m) Act.outside (Host.measure n m) 2 (HostInv n m) where
  inv hi h := hi.step h
  own {s a s'} hi h ha := by
    rcases step_cases h with hm | ⟨t, ht, hm⟩ | ⟨hout, -⟩
    · exact hm.measure_lt hi
    · exact hm.measure_lt hi ht
    · rw [ha] at hout
      cases hout
  out {s a s'} hi h _ := by
    rcases step_cases h with hm | ⟨t, ht, hm⟩ | ⟨-, hm⟩
    · exact Nat.le_add_right_of_le (hm.measure_lt hi).le
    · exact Nat.le_add_right_of_le (hm.measure_lt hi ht).le
    · exact hm.measure_le

end Measure

/-! ## No wake-up is lost -/

/-- A thread that has counted down to 0 is about to signal. -/
def Host.Owing (s : Host) : Prop :=
  ∃ t k, s.threads t = .unlock k 0 ∨ s.threads t = .signal k 0

section Wake
variable {n m : Nat} {s s' : Host}

theorem MainMoves.threads_eq (h : MainMoves n s s') : s'.threads = s.threads := by
  cases h with
  | add k a hm hk ha => cases ha <;> rfl
  | _ => rfl

/-- The main thread goes to sleep only while something is left. -/
theorem MainMoves.sleeps (h : MainMoves n s s') (hready : s'.results = 0) :
    s'.monitor.sleepers ⊆ s.monitor.sleepers := by
  cases h with
  | add k a hm hk ha => cases ha <;> exact Finset.Subset.refl _
  | wait hm hr => exact absurd hready hr
  | _ => exact Finset.Subset.refl _

/-- What the main thread does with the counter, it does awake. -/
theorem MainMoves.readies (hi : HostInv n m s) (h : MainMoves n s s') (hbefore : s.results ≠ 0)
    (hready : s'.results = 0) : s'.monitor.sleepers = ∅ := by
  have hpos := hi.nonneg
  cases h with
  | add k a hm hk ha =>
    have hnone := hi.awake (by rw [hm]; simp)
    cases ha <;> exact hnone
  | release hm => exact hi.awake (by rw [hm]; simp)
  | _ => exact absurd hready hbefore

/-- A thread that is about to signal goes on to do so, and others leave it alone. -/
theorem ThreadMoves.owing {t : Nat} (hi : HostInv n m s) (h : ThreadMoves s t s')
    (howing : s.Owing) : s'.Owing ∨ s'.monitor.sleepers = ∅ := by
  obtain ⟨u, k, hu⟩ := howing
  by_cases hut : u = t
  · subst hut
    cases h with
    | unlock j r hx =>
      rcases hu with hu | hu
      · rw [hx] at hu
        cases hu
        exact .inl ⟨u, k, .inr (by simp [Host.setThread])⟩
      · rw [hx] at hu
        cases hu
    | signal j r mon hx hholder hsub hwoken =>
      refine .inr ?_
      rcases hwoken with hnone | ⟨p, hp, he⟩
      · exact Finset.subset_empty.mp (hnone ▸ hsub)
      · refine Finset.eq_empty_of_forall_notMem ?_
        intro q hq
        have hqp : q = p := by
          rw [(hi.sleepers q (hsub hq)).1, (hi.sleepers p hp).1]
        have hmem : q ∈ s.monitor.sleepers.erase p := he ▸ hq
        exact Finset.notMem_erase p _ (hqp ▸ hmem)
    | nothing hx | check j hx | lock j hx | decrement j hx | freeMarshal j hx | freeAnswer j hx =>
      rcases hu with hu | hu <;> rw [hx] at hu <;> cases hu
  · have hstay : s'.threads u = s.threads u := by
      cases h <;> simp [Host.setThread, Host.free, Host.setLookup, hut]
    exact .inl ⟨u, k, by rwa [hstay]⟩

theorem host_discipline (n m : Nat) : Monitor.Discipline (Host.step n m) (HostInv n m)
    Host.monitor (fun s => s.results = 0) Host.Owing where
  sleeps {s a s'} hi h hready := by
    rcases step_cases h with hm | ⟨t, ht, hm⟩ | ⟨-, hm⟩
    · exact hm.sleeps hready
    · cases hm with
      | signal k r mon hx hholder hsub => exact hsub
      | _ => exact Finset.Subset.refl _
    · cases hm with
      | readable => exact Finset.Subset.refl _
      | wake => exact Finset.erase_subset _ _
  readies {s a s'} hi h hbefore hready := by
    rcases step_cases h with hm | ⟨t, ht, hm⟩ | ⟨-, hm⟩
    · exact .inr (hm.readies hi hbefore hready)
    · cases hm with
      | decrement k hx =>
        have hzero : s.results - 1 = 0 := hready
        exact .inl ⟨t, k, .inl (by simp [Host.setThread, hzero])⟩
      | _ => exact absurd hready hbefore
    · cases hm with
      | readable | wake => exact absurd hready hbefore
  wakes {s a s'} hi h hready howing := by
    rcases step_cases h with hm | ⟨t, ht, hm⟩ | ⟨-, hm⟩
    · exact .inl (by rwa [Host.Owing, hm.threads_eq])
    · exact hm.owing hi howing
    · cases hm with
      | readable t ht hx =>
        obtain ⟨u, k, hu⟩ := howing
        have hut : u ≠ t := by
          rintro rfl
          rw [hx] at hu
          rcases hu with hu | hu <;> cases hu
        exact .inl ⟨u, k, by simpa [Host.setThread, hut] using hu⟩
      | wake => exact .inl howing

end Wake

/-! ## Where it ends -/

section Rest
variable {n m : Nat} {s : Host}

/-- The main thread goes on wherever it is, but for the lock and its sleep. -/
theorem mainStep_enabled (hi : HostInv n m s) (hrest : s.mainStep n true = none)
    (hfree : s.main.holds = false → s.monitor.holder = none) :
    (∃ b, s.main = .returned b) ∨ s.main = .failed ∨
      (s.main = .asleep ∧ .main ∈ s.monitor.sleepers) := by
  have hheld := hi.mainHolds.mp
  cases hm : s.main with
  | returned b => exact .inl ⟨b, rfl⟩
  | failed => exact .inr (.inl rfl)
  | asleep =>
    have hnone := hfree (by rw [hm]; rfl)
    refine .inr (.inr ⟨rfl, ?_⟩)
    by_contra hawake
    simp [Host.mainStep, hm, Monitor.relock, hawake, Monitor.lock, hnone] at hrest
  | spool k a =>
    simp only [Host.mainStep, hm] at hrest
    split at hrest
    · cases a with
      | lock =>
        have hnone := hfree (by rw [hm]; rfl)
        simp [Host.addLookup, Monitor.lock, hnone] at hrest
      | unlock =>
        have hself := hheld (by rw [hm]; rfl)
        simp [Host.addLookup, Monitor.unlock, hself] at hrest
      | _ => cases hrest
    · cases hrest
  | lock =>
    have hnone := hfree (by rw [hm]; rfl)
    simp [Host.mainStep, hm, Monitor.lock, hnone] at hrest
  | unlock =>
    have hself := hheld (by rw [hm]; rfl)
    simp [Host.mainStep, hm, Monitor.unlock, hself] at hrest
  | test =>
    have hself := hheld (by rw [hm]; rfl)
    simp only [Host.mainStep, hm, Monitor.wait, hself, if_true, Option.map_some] at hrest
    split at hrest <;> cases hrest
  | release | stop | err => simp [Host.mainStep, hm] at hrest

/-- So does a thread, but for the lock and its wait for adns. -/
theorem threadStep_enabled (hi : HostInv n m s) {t : Nat}
    (hrest : ∀ a, a.outside = false → s.step n m a = none)
    (hfree : (s.threads t).holds = false → s.monitor.holder = none) : s.threads t = .idle := by
  by_contra hbusy
  have ht : t < m := hi.threads t hbusy
  have hheld := (hi.heldBy t).mp
  have hcheck := hrest (.check t none) rfl
  have hthread (woken : Option Party) : s.threadStep t woken = none := by
    simpa [Host.step, ht] using hrest (.thread t woken) rfl
  cases hx : s.threads t with
  | idle => exact hbusy hx
  | check => simp [Host.step, ht, hx, Host.checkStep] at hcheck
  | lock k =>
    have hnone := hfree (by rw [hx]; rfl)
    simpa [Host.threadStep, hx, Monitor.lock, hnone] using hthread none
  | unlock k r =>
    have hself := hheld (by rw [hx]; rfl)
    simpa [Host.threadStep, hx, Monitor.unlock, hself] using hthread none
  | signal k r =>
    obtain ⟨woken, hw⟩ := s.monitor.exists_signal
    obtain ⟨mon, hmon⟩ := Option.isSome_iff_exists.mp hw
    simpa [Host.threadStep, hx, hmon] using hthread woken
  | decrement k | freeMarshal k | freeAnswer k => simpa [Host.threadStep, hx] using hthread none

/-- One of the lookups that are left, once all have been added. -/
theorem HostInv.exists_left (hi : HostInv n m s) (hown : s.main.own = 0) (hne : s.results ≠ 0) :
    ∃ k < n, s.lookups k = .asked ∨ ∃ t, s.lookups k = .answered t := by
  have hleft : left n s.lookups ≠ 0 := by
    have hresults := hi.results
    omega
  obtain ⟨k, hk, hone⟩ := Finset.exists_ne_zero_of_sum_ne_zero hleft
  have hkn := Finset.mem_range.mp hk
  have hadded := Main.added_of_own hown hkn (hi.fits k)
  refine ⟨k, hkn, ?_⟩
  cases hl : s.lookups k with
  | asked => exact .inl rfl
  | answered t => exact .inr ⟨t, rfl⟩
  | unadded | counted | marshalled | refused =>
    rw [hl] at hadded
    cases hadded
  | settled t | freed => simp [hl, Lookup.left] at hone

/-- When nobody can go on, the main thread has come back, or it sleeps and adns
has yet to answer a lookup. -/
theorem host_rests (hi : HostInv n m s)
    (hr : Monitor.Remembered Host.monitor (fun s => s.results = 0) Host.Owing s)
    (hrest : AtRest (Host.step n m) Act.outside s) :
    (∀ t, s.threads t = .idle) ∧ ((∃ b, s.main = .returned b) ∨ s.main = .failed ∨
      (s.main = .asleep ∧ ∃ k < n, s.lookups k = .asked)) := by
  have hmain : s.mainStep n true = none := hrest (.main true) rfl
  -- whoever holds the lock can go on
  have hfree : s.monitor.holder = none := by
    cases hh : s.monitor.holder with
    | none => rfl
    | some p =>
      cases p with
      | main =>
        have hholds := hi.mainHolds.mpr hh
        rcases mainStep_enabled hi hmain (by simp [hholds]) with ⟨b, h⟩ | h | ⟨h, -⟩ <;>
          rw [h] at hholds <;> cases hholds
      | thread t =>
        have hholds := (hi.heldBy t).mpr hh
        have hidle := threadStep_enabled hi hrest (t := t) (by simp [hholds])
        rw [hidle] at hholds
        cases hholds
  have hidle (t : Nat) : s.threads t = .idle := threadStep_enabled hi hrest fun _ => hfree
  refine ⟨hidle, ?_⟩
  rcases mainStep_enabled hi hmain (fun _ => hfree) with h | h | ⟨h, hsleeps⟩
  · exact .inl h
  · exact .inr (.inl h)
  · refine .inr (.inr ⟨h, ?_⟩)
    have hne : s.results ≠ 0 := by
      intro hzero
      obtain ⟨t, k, hx⟩ := hr hzero ⟨_, hsleeps⟩
      rw [hidle t] at hx
      rcases hx with hx | hx <;> cases hx
    obtain ⟨k, hk, hasked | ⟨t, ht⟩⟩ := hi.exists_left (by rw [h]; rfl) hne
    · exact ⟨k, hk, hasked⟩
    · have hworks := (hi.worksOn t k (.answered t)).mpr ⟨ht, rfl⟩
      rw [hidle t] at hworks
      cases hworks

end Rest

/-- A run with `n` targets takes only so many steps besides those at which a
descriptor becomes readable or the main thread wakes up of itself. One that
cannot go on has come back, or waits for adns to answer a lookup; and from
everywhere it can go on to there. -/
theorem main_returns {n m : Nat} {as : List Act} {s : Host}
    (hrun : exec (Host.step n m) {} as = some s) :
    as.countP (fun a => !a.outside) ≤ 16 * n + 7 + 2 * as.countP Act.outside ∧
      (AtRest (Host.step n m) Act.outside s →
        (∃ b, s.main = .returned b) ∨ s.main = .failed ∨
          (s.main = .asleep ∧ ∃ k < n, s.lookups k = .asked)) ∧
      ∃ bs u, (∀ b ∈ bs, b.outside = false) ∧ exec (Host.step n m) s bs = some u ∧
        AtRest (Host.step n m) Act.outside u := by
  have hdesc := host_descends n m
  have hi : HostInv n m s := (host_always n m as).last hrun
  refine ⟨?_, ?_, hdesc.rests hi⟩
  · have hbound := hdesc.bounded (init_inv n m) hrun
    have hstart : Host.measure n m {} = 16 * n + 7 := by
      simp [Host.measure, Main.rank, Add.rank, Thread.rank, Lookup.rank]
      omega
    omega
  · intro hrest
    have hr := (host_discipline n m).always (fun _ _ _ hi h => hi.step h) (init_inv n m)
      (fun _ hsome => absurd rfl hsome.ne_empty) as
    exact (host_rests hi (hr.last hrun).2 hrest).2

/-- Two targets, and two threads that answer them while the main thread sleeps. -/
def twoTargets : List Act :=
  List.replicate 16 (.main true) ++
    [.readable 0, .readable 1, .check 0 (some 1), .check 1 (some 0), .thread 0 none,
      .thread 0 none, .thread 0 none, .thread 1 none, .thread 1 none, .thread 1 none,
      .thread 1 (some .main)] ++ List.replicate 4 (.main true)

theorem main_returns_two : ∃ s, exec (Host.step 2 2) {} twoTargets = some s ∧
    twoTargets.countP (fun a => !a.outside) ≤ 16 * 2 + 7 + 2 * twoTargets.countP Act.outside := by
  obtain ⟨s, hrun⟩ : ∃ s, exec (Host.step 2 2) {} twoTargets = some s := ⟨_, rfl⟩
  exact ⟨s, hrun, (main_returns hrun).1⟩

end Libtorque.Torquehost
