import Libtorque.Lib.Ledger
import Libtorque.Lib.Prog

/-! # OpenSSL's locks

The two globals of `ssl.c` that say which mutexes there are, and the functions
that set them up and give them up. The world counts, for each mutex, how often
it has been initialised and destroyed. -/
namespace Libtorque.Protos
open Libtorque.Lib

/-- `&openssl_locks[z]`: the pointer, and the index. -/
abbrev LockRef := Option Nat × Nat

/-- `numlocks` and `openssl_locks`, which is NULL or the address of an array. -/
structure SslGlobals where
  numlocks : Nat := 0
  opensslLocks : Option Nat := none
deriving DecidableEq, Repr

/-- What `CRYPTO_set_*_callback` sets. -/
inductive SslCallback where
  | locking
  | id
  | dynlockCreate
  | dynlockLock
  | dynlockDestroy
deriving DecidableEq, Repr

inductive SslOp where
  | libraryInit
  | loadErrorStrings
  | randStatus
  | randCleanup
  | cryptoNumLocks
  /-- `malloc` of so many mutexes: an address, or NULL -/
  | mallocLocks (numlocks : Nat)
  | freeLocks (locks : Option Nat)
  | mutexInit (m : LockRef)
  | mutexDestroy (m : LockRef)
  | setCallback (c : SslCallback) (null : Bool)
deriving DecidableEq, Repr

@[reducible] def SslOp.Rep : SslOp → Type
  | .libraryInit | .randStatus | .cryptoNumLocks | .mutexInit _ | .mutexDestroy _ => Int
  | .mallocLocks _ => Option Nat
  | .loadErrorStrings | .randCleanup | .freeLocks _ | .setCallback .. => Unit

abbrev SslProg := Lib.Prog SslOp SslOp.Rep

def sslCall (o : SslOp) : SslProg o.Rep := Lib.Prog.perform o

/-! ## The code -/

/-- `while(z--)` -/
def destroyLocks (locks : Option Nat) : Nat → SslProg Unit
  | 0 => pure ()
  | z + 1 => do
    let _ ← sslCall (.mutexDestroy (locks, z))
    destroyLocks locks z

/-- The locks from `z` on, with `n` to go: whether one fails, and the globals. -/
def initLocks (g : SslGlobals) : Nat → Nat → SslProg (Bool × SslGlobals)
  | _, 0 => pure (false, g)
  | z, n + 1 => do
    let e ← sslCall (.mutexInit (g.opensslLocks, z))
    if e ≠ 0 then
      destroyLocks g.opensslLocks z
      sslCall (.freeLocks g.opensslLocks)
      sslCall .randCleanup
      pure (true, { numlocks := 0, opensslLocks := none })
    else initLocks g (z + 1) n

def setLockCallbacks : SslProg Unit := do
  sslCall (.setCallback .locking false)
  sslCall (.setCallback .id false)
  sslCall (.setCallback .dynlockCreate false)
  sslCall (.setCallback .dynlockLock false)
  sslCall (.setCallback .dynlockDestroy false)

/-- From the allocation on, when there are `nlocks` of them. -/
def makeLocks (g : SslGlobals) (nlocks : Nat) : SslProg (Int × SslGlobals) := do
  let g := { g with numlocks := nlocks }
  let locks ← sslCall (.mallocLocks nlocks)
  let g := { g with opensslLocks := locks }
  if locks = none then
    sslCall .randCleanup
    pure (-1, g)
  else
    let (failed, g) ← initLocks g 0 g.numlocks
    if failed then pure (-1, g)
    else
      setLockCallbacks
      pure (0, g)

def torqueInitSsl (g : SslGlobals) : SslProg (Int × SslGlobals) := do
  if (← sslCall .libraryInit) ≠ 1 then pure (-1, g)
  else
    sslCall .loadErrorStrings
    if (← sslCall .randStatus) ≠ 1 then pure (-1, g)
    else
      let nlocks : Int ← sslCall .cryptoNumLocks
      if nlocks < 0 then
        sslCall .randCleanup
        pure (-1, g)
      else if nlocks = 0 then pure (0, g)
      else makeLocks g nlocks.toNat

/-- The loop of `torque_stop_ssl` from `z` on, with `n` to go. -/
def stopLocks (locks : Option Nat) : Nat → Nat → Int → SslProg Int
  | _, 0, ret => pure ret
  | z, n + 1, ret => do
    let e ← sslCall (.mutexDestroy (locks, z))
    stopLocks locks (z + 1) n (if e ≠ 0 then -1 else ret)

def torqueStopSsl (g : SslGlobals) : SslProg (Int × SslGlobals) := do
  sslCall .randCleanup
  sslCall (.setCallback .locking true)
  sslCall (.setCallback .id true)
  let ret ← stopLocks g.opensslLocks 0 g.numlocks 0
  sslCall (.freeLocks g.opensslLocks)
  pure (ret, { numlocks := 0, opensslLocks := none })

/-! ## The mutexes -/

/-- `stray`: a mutex was destroyed that was not initialised. -/
structure SslWorld where
  initialised : LockRef → Nat := fun _ => 0
  destroyed : LockRef → Nat := fun _ => 0
  stray : Bool := false

def SslWorld.next (w : SslWorld) : (o : SslOp) → o.Rep → Option SslWorld
  | .mutexInit m, e =>
    if e = 0 then some { w with initialised := gain w.initialised m } else some w
  | .mutexDestroy m, _ =>
    some { w with
      destroyed := gain w.destroyed m
      stray := w.stray || decide (w.initialised m ≤ w.destroyed m) }
  | _, _ => some w

/-- Each mutex that was initialised has been destroyed, once, and no other. -/
structure SslWorld.Settled (w : SslWorld) : Prop where
  stray : w.stray = false
  once : ∀ m, w.initialised m ≤ 1
  destroyed : ∀ m, w.destroyed m = w.initialised m

/-- The mutexes `lo .. hi - 1` of an array, once each. -/
def locksIn (locks : Option Nat) (lo hi : Nat) : LockRef → Nat :=
  fun m => if m.1 = locks ∧ lo ≤ m.2 ∧ m.2 < hi then 1 else 0

section LocksIn
variable {locks : Option Nat} {lo hi : Nat}

@[simp] theorem locksIn_self : locksIn locks lo lo = fun _ => 0 := by
  funext m
  exact if_neg (by omega)

theorem locksIn_le_one (m : LockRef) : locksIn locks lo hi m ≤ 1 := by
  unfold locksIn
  split <;> omega

theorem gain_locksIn_hi (h : lo ≤ hi) :
    gain (locksIn locks lo hi) (locks, hi) = locksIn locks lo (hi + 1) := by
  refine gain_eq ?_ ?_
  · simp [locksIn, h]
  · rintro ⟨p, z⟩ hne
    by_cases hp : p = locks
    · have hz : z ≠ hi := fun hz => hne (by rw [hp, hz])
      simp only [locksIn, hp, true_and]
      split <;> split <;> omega
    · simp [locksIn, hp]

theorem gain_locksIn_lo (h : lo < hi) :
    gain (locksIn locks (lo + 1) hi) (locks, lo) = locksIn locks lo hi := by
  refine gain_eq ?_ ?_
  · simp [locksIn, h]
  · rintro ⟨p, z⟩ hne
    by_cases hp : p = locks
    · have hz : z ≠ lo := fun hz => hne (by rw [hp, hz])
      simp only [locksIn, hp, true_and]
      split <;> split <;> omega
    · simp [locksIn, hp]

end LocksIn

/-! ## Setting up -/

/-- The array gets its memory where it is asked for. -/
def ArrayAllocated (_ : SslWorld) : (o : SslOp) → o.Rep → Bool
  | .mallocLocks _, p => p.isSome
  | _, _ => true

abbrev allocating : Contract SslOp SslOp.Rep (SslWorld × Prop) :=
  tracking SslWorld.next ArrayAllocated

/-- The world, and whether the array has got its memory. -/
structure Stage (w : SslWorld) (φ : Prop) (x : SslWorld × Prop) : Prop where
  world : x.1 = w
  allocated : x.2 ↔ φ

section Init
variable {w : SslWorld} {φ : Prop} {x : SslWorld × Prop} {g : SslGlobals} {locks : Option Nat}

theorem wp_sslCall {o : SslOp} {Q : o.Rep → SslWorld × Prop → Prop} (h : Stage w φ x)
    (hQ : ∀ r v y, w.next o r = some v → Stage v (φ ∧ ArrayAllocated w o r) y → Q r y) :
    wp allocating (sslCall o) Q x := by
  refine wp_op trivial ?_
  rintro r y ⟨hv, hφ⟩
  rw [h.world] at hv hφ
  exact hQ r y.1 y hv ⟨rfl, hφ.trans (and_congr_left' h.allocated)⟩

/-- Calls that touch no mutex. -/
theorem wp_sslAside {o : SslOp} {Q : o.Rep → SslWorld × Prop → Prop} (h : Stage w φ x)
    (hn : ∀ r, w.next o r = some w) (ha : ∀ r, ArrayAllocated w o r)
    (hQ : ∀ r y, Stage w φ y → Q r y) : wp allocating (sslCall o) Q x := by
  refine wp_sslCall h ?_
  intro r v y hv hy
  rw [hn r, Option.some.injEq] at hv
  subst hv
  exact hQ r y { hy with allocated := hy.allocated.trans (and_iff_left (ha r)) }

/-- The first `k` mutexes of an array are initialised, and of those the ones from
`z` on are destroyed. -/
def SslWorld.undone (locks : Option Nat) (z k : Nat) : SslWorld where
  initialised := locksIn locks 0 k
  destroyed := locksIn locks z k

theorem wp_destroyLocks {z k : Nat} {Q : Unit → SslWorld × Prop → Prop} (hz : z ≤ k)
    (h : Stage (.undone locks z k) φ x) (hQ : ∀ y, Stage (.undone locks 0 k) φ y → Q () y) :
    wp allocating (destroyLocks locks z) Q x := by
  induction z generalizing x with
  | zero => exact hQ x h
  | succ z ih =>
    rw [destroyLocks, wp_do]
    refine wp_sslCall h ?_
    intro e v y hv hy
    refine ih (by omega) ⟨hy.world.trans ?_, hy.allocated.trans (and_iff_left rfl)⟩
    have hlive : ¬ locksIn locks 0 k (locks, z) ≤ locksIn locks (z + 1) k (locks, z) := by
      simp [locksIn, Nat.lt_of_succ_le hz]
    simp only [SslWorld.next, SslWorld.undone, Option.some.injEq, gain_locksIn_lo hz, hlive,
      decide_false, Bool.or_self] at hv
    exact hv.symm

theorem wp_initLocks {z n : Nat} {Q : Bool × SslGlobals → SslWorld × Prop → Prop}
    (h : Stage (.undone g.opensslLocks z z) φ x)
    (hno : ∀ k y, Stage (.undone g.opensslLocks 0 k) φ y → Q (true, {}) y)
    (hok : ∀ y, Stage (.undone g.opensslLocks (z + n) (z + n)) φ y → Q (false, g) y) :
    wp allocating (initLocks g z n) Q x := by
  induction n generalizing x z with
  | zero => exact hok x h
  | succ n ih =>
    rw [initLocks, wp_do]
    refine wp_sslCall h ?_
    intro e v y hv hy
    replace hy : Stage v φ y := { hy with allocated := hy.allocated.trans (and_iff_left rfl) }
    by_cases he : e = 0
    · rw [if_neg (not_not.mpr he)]
      refine ih (z := z + 1) ?_ (by simpa only [Nat.add_assoc, Nat.add_comm 1 n] using hok)
      refine { hy with world := hy.world.trans ?_ }
      simp only [SslWorld.next, he, if_true, SslWorld.undone, Option.some.injEq,
        gain_locksIn_hi (Nat.zero_le z), locksIn_self] at hv
      simp only [SslWorld.undone, locksIn_self, ← hv]
    · rw [if_pos he, wp_do]
      simp only [SslWorld.next, he, if_false, Option.some.injEq] at hv
      subst hv
      refine wp_destroyLocks (Nat.le_refl z) hy ?_
      intro y hy
      rw [wp_do]
      refine wp_sslAside hy (fun _ => rfl) (fun _ => rfl) ?_
      intro _ y hy
      rw [wp_do]
      exact wp_sslAside hy (fun _ => rfl) (fun _ => rfl) fun _ => hno z

/-- The calls after the mutexes have been made. -/
theorem wp_setLockCallbacks {Q : Unit → SslWorld × Prop → Prop} (h : Stage w φ x)
    (hQ : ∀ y, Stage w φ y → Q () y) : wp allocating setLockCallbacks Q x := by
  unfold setLockCallbacks
  rw [wp_do]
  refine wp_sslAside h (fun _ => rfl) (fun _ => rfl) fun _ y hy => ?_
  rw [wp_do]
  refine wp_sslAside hy (fun _ => rfl) (fun _ => rfl) fun _ y hy => ?_
  rw [wp_do]
  refine wp_sslAside hy (fun _ => rfl) (fun _ => rfl) fun _ y hy => ?_
  rw [wp_do]
  refine wp_sslAside hy (fun _ => rfl) (fun _ => rfl) fun _ y hy => ?_
  exact wp_sslAside hy (fun _ => rfl) (fun _ => rfl) fun _ => hQ

/-- How `torque_init_ssl` ends: with no locks, with all of them, or with a number
of locks that there is no array for. -/
inductive LocksMade : Int → SslGlobals → SslWorld × Prop → Prop where
  | none {y : SslWorld × Prop} (locks : Option Nat) (k : Nat)
      (hy : Stage (.undone locks 0 k) True y) : LocksMade (-1) {} y
  | all {y : SslWorld × Prop} {g : SslGlobals}
      (hy : Stage (.undone g.opensslLocks g.numlocks g.numlocks) True y) : LocksMade 0 g y
  | unallocated {y : SslWorld × Prop} (n : Nat) (hy : Stage {} False y) :
      LocksMade (-1) ⟨n + 1, .none⟩ y

theorem wp_makeLocks {n : Nat} (h : Stage {} True x) :
    wp allocating (makeLocks {} (n + 1)) (fun ret y => LocksMade ret.1 ret.2 y) x := by
  unfold makeLocks
  dsimp only
  rw [wp_do]
  refine wp_sslCall h ?_
  intro locks v y hv hy
  cases hv
  cases locks with
  | none =>
    rw [if_pos rfl, wp_do]
    refine wp_sslAside hy (fun _ => rfl) (fun _ => rfl) fun _ y hy => ?_
    exact .unallocated n { hy with allocated := hy.allocated.trans (by simp [ArrayAllocated]) }
  | some a =>
    rw [if_neg (by simp), wp_do]
    have hstart : Stage (.undone (some a) 0 0) True y := by
      refine ⟨?_, hy.allocated.trans (by simp [ArrayAllocated])⟩
      simpa only [SslWorld.undone, locksIn_self] using hy.world
    refine wp_initLocks hstart ?_ ?_
    · intro k y hy
      exact .none (some a) k hy
    · intro y hy
      dsimp only
      rw [if_neg (by simp), wp_do]
      refine wp_setLockCallbacks hy fun y hy => ?_
      refine .all ?_
      simpa only [Nat.zero_add] using hy

theorem wp_torqueInitSsl (h : Stage {} True x) :
    wp allocating (torqueInitSsl {}) (fun ret y => LocksMade ret.1 ret.2 y) x := by
  have early (y : SslWorld × Prop) (hy : Stage {} True y) : LocksMade (-1) {} y :=
    .none none 0 (by simpa only [SslWorld.undone, locksIn_self] using hy)
  unfold torqueInitSsl
  rw [wp_do]
  refine wp_sslAside h (fun _ => rfl) (fun _ => rfl) fun e y hy => ?_
  split
  · exact early y hy
  rw [wp_do]
  refine wp_sslAside hy (fun _ => rfl) (fun _ => rfl) fun _ y hy => ?_
  rw [wp_do]
  refine wp_sslAside hy (fun _ => rfl) (fun _ => rfl) fun e y hy => ?_
  split
  · exact early y hy
  rw [wp_do]
  refine wp_sslAside hy (fun _ => rfl) (fun _ => rfl) fun nlocks y hy => ?_
  split
  · rw [wp_do]
    exact wp_sslAside hy (fun _ => rfl) (fun _ => rfl) fun _ => early
  split
  · exact .all (by simpa only [SslWorld.undone, locksIn_self] using hy)
  · obtain ⟨n, hn⟩ : ∃ n, nlocks.toNat = n + 1 := ⟨nlocks.toNat - 1, by omega⟩
    rw [hn]
    exact wp_makeLocks hy

end Init

/-! ## Giving up -/

/-- The first `k` mutexes of an array are initialised, and of those the first `z`
are destroyed. -/
def SslWorld.stopping (locks : Option Nat) (z k : Nat) : SslWorld where
  initialised := locksIn locks 0 k
  destroyed := locksIn locks 0 z

section Stop
variable {w : SslWorld} {φ : Prop} {x : SslWorld × Prop} {g : SslGlobals} {locks : Option Nat}

theorem settled_stopping (k : Nat) : (SslWorld.stopping locks k k).Settled where
  stray := rfl
  once := locksIn_le_one
  destroyed _ := rfl

theorem wp_stopLocks {z n : Nat} {ret : Int} {Q : Int → SslWorld × Prop → Prop}
    (h : Stage (.stopping locks z (z + n)) φ x)
    (hQ : ∀ ret y, Stage (.stopping locks (z + n) (z + n)) φ y → Q ret y) :
    wp allocating (stopLocks locks z n ret) Q x := by
  induction n generalizing x z ret with
  | zero => exact hQ ret x h
  | succ n ih =>
    have hsum : z + (n + 1) = z + 1 + n := by omega
    rw [hsum] at h hQ
    rw [stopLocks, wp_do]
    refine wp_sslCall h ?_
    intro e v y hv hy
    refine ih ⟨hy.world.trans ?_, hy.allocated.trans (and_iff_left rfl)⟩ hQ
    have hlive : ¬ locksIn locks 0 (z + 1 + n) (locks, z) ≤ locksIn locks 0 z (locks, z) := by
      have hlt : z < z + 1 + n := by omega
      simp [locksIn, hlt]
    simp only [SslWorld.next, SslWorld.stopping, Option.some.injEq, hlive,
      gain_locksIn_hi (Nat.zero_le z), decide_false, Bool.or_self] at hv
    exact hv.symm

/-- Nothing happens to the mutexes before the loop of `torque_stop_ssl` and after it. -/
theorem wp_torqueStopSsl {v : SslWorld} (h : Stage w φ x)
    (hloop : ∀ y, Stage w φ y →
      wp allocating (stopLocks g.opensslLocks 0 g.numlocks 0) (fun _ y => Stage v φ y) y) :
    wp allocating (torqueStopSsl g) (fun _ y => y.1 = v) x := by
  unfold torqueStopSsl
  rw [wp_do]
  refine wp_sslAside h (fun _ => rfl) (fun _ => rfl) fun _ y hy => ?_
  rw [wp_do]
  refine wp_sslAside hy (fun _ => rfl) (fun _ => rfl) fun _ y hy => ?_
  rw [wp_do]
  refine wp_sslAside hy (fun _ => rfl) (fun _ => rfl) fun _ y hy => ?_
  rw [wp_do]
  refine wp_mono ?_ (hloop y hy)
  intro ret y hy
  rw [wp_do]
  exact wp_sslAside hy (fun _ => rfl) (fun _ => rfl) fun _ y hy => hy.world

/-- What `torque_stop_ssl` ends with when the globals say which mutexes there are. -/
theorem wp_torqueStopSsl_all
    (h : Stage (.undone g.opensslLocks g.numlocks g.numlocks) φ x) :
    wp allocating (torqueStopSsl g)
      (fun _ y => y.1 = .stopping g.opensslLocks g.numlocks g.numlocks) x := by
  refine wp_torqueStopSsl h ?_
  intro y hy
  refine wp_stopLocks (φ := φ) ⟨?_, hy.allocated⟩ ?_
  · simpa only [SslWorld.undone, SslWorld.stopping, locksIn_self, Nat.zero_add] using hy.world
  · intro ret y hy
    rw [Nat.zero_add] at hy
    exact hy

/-- Without locks there is nothing to destroy. -/
theorem wp_torqueStopSsl_none (h : Stage w φ x) :
    wp allocating (torqueStopSsl {}) (fun _ y => y.1 = w) x :=
  wp_torqueStopSsl h fun _ hy => hy

end Stop

/-! ## The locks of a program -/

/-- What is wanted of a `torque_init_ssl` that has returned `r` with the globals
`g`, and of a `torque_stop_ssl` after it. -/
structure LocksSound (r : Int) (g : SslGlobals) (w : SslWorld) : Prop where
  failed : r = -1 → g = { numlocks := 0, opensslLocks := none } ∧ w.Settled
  stopped : ∀ replies v ret,
    exec (Lib.Prog.step SslWorld.next) (w, torqueStopSsl g) replies = some (v, .ret ret) →
      v.Settled ∧
        (r = 0 → ∀ m, v.destroyed m = if m.1 = g.opensslLocks ∧ m.2 < g.numlocks then 1 else 0)

theorem LocksMade.sound_iff {r : Int} {g : SslGlobals} {x : SslWorld × Prop}
    (h : LocksMade r g x) : LocksSound r g x.1 ↔ x.2 := by
  cases h with
  | none locks k hx =>
    have hsettled : (SslWorld.undone locks 0 k).Settled := settled_stopping k
    refine iff_of_true ⟨?_, ?_⟩ (hx.allocated.mpr trivial)
    · intro _
      rw [hx.world]
      exact ⟨rfl, hsettled⟩
    · intro replies v ret hrun
      have hstart : Stage x.1 True (x.1, True) := ⟨rfl, Iff.rfl⟩
      have hv : v = x.1 := exec_tracking (wp_torqueStopSsl_none hstart) hrun
      rw [hv, hx.world]
      exact ⟨hsettled, fun hr => absurd hr (by decide)⟩
  | all hx =>
    refine iff_of_true ⟨fun hr => absurd hr (by decide), ?_⟩ (hx.allocated.mpr trivial)
    intro replies v ret hrun
    have hv : v = .stopping g.opensslLocks g.numlocks g.numlocks :=
      exec_tracking (wp_torqueStopSsl_all ⟨hx.world, Iff.rfl⟩) hrun
    rw [hv]
    refine ⟨settled_stopping _, fun _ m => ?_⟩
    simp [SslWorld.stopping, locksIn]
  | unallocated n hx =>
    refine iff_of_false ?_ hx.allocated.mp
    intro hs
    cases (hs.failed rfl).1

/-- Whatever the outcomes of the calls, the globals and the mutexes agree just in
case the array of locks has got its memory, if it was asked for. -/
theorem torqueInitSsl_sound_iff (replies : List ((o : SslOp) → o.Rep)) (w : SslWorld) (r : Int)
    (g : SslGlobals)
    (hrun : exec (Lib.Prog.step SslWorld.next) ({}, torqueInitSsl {}) replies =
      some (w, .ret (r, g))) :
    LocksSound r g w ↔
      Meets (Lib.Prog.step SslWorld.next) (Lib.Prog.Assume ArrayAllocated) ({}, torqueInitSsl {})
        replies := by
  have hmade := exec_tracking (wp_torqueInitSsl ⟨rfl, Iff.rfl⟩) hrun
  rw [hmade.sound_iff, true_and]

/-- Two locks, in an array that gets its memory or does not; the second mutex
cannot be initialised. -/
def twoLocks (locks : Option Nat) : (o : SslOp) → o.Rep
  | .libraryInit | .randStatus => 1
  | .cryptoNumLocks => 2
  | .mutexInit m => m.2
  | .mutexDestroy _ => 0
  | .mallocLocks _ => locks
  | .loadErrorStrings | .randCleanup | .freeLocks _ | .setCallback .. => ()

/-- The first mutex is destroyed when the second cannot be initialised. -/
theorem torqueInitSsl_second_mutex_fails : ∃ w : SslWorld,
    exec (Lib.Prog.step SslWorld.next) ({}, torqueInitSsl {})
        (List.replicate 10 (twoLocks (some 64))) = some (w, .ret (-1, {})) ∧
    LocksSound (-1) {} w := by
  refine ⟨_, rfl, ?_⟩
  exact (torqueInitSsl_sound_iff (List.replicate 10 (twoLocks (some 64))) _ (-1) {} rfl).mpr
    (by decide)

/-- Without memory for the array, `numlocks` stays 2, and `torque_stop_ssl`
destroys mutexes that were never initialised. -/
theorem torqueInitSsl_without_array : ∃ (w v : SslWorld) (g : SslGlobals),
    exec (Lib.Prog.step SslWorld.next) ({}, torqueInitSsl {})
        (List.replicate 6 (twoLocks none)) = some (w, .ret (-1, g)) ∧
    g.numlocks = 2 ∧
    exec (Lib.Prog.step SslWorld.next) (w, torqueStopSsl g)
        (List.replicate 6 (twoLocks none)) = some (v, .ret (0, {})) ∧
    v.stray = true ∧ ¬ LocksSound (-1) g w := by
  refine ⟨_, _, _, rfl, rfl, rfl, rfl, fun hs => ?_⟩
  exact absurd (congrArg SslGlobals.numlocks (hs.failed rfl).1) (by decide)

end Libtorque.Protos
