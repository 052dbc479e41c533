import Libtorque.Lib.Ends
import Libtorque.Lib.Monitor
import Libtorque.Schedule.Ring

/-! # `spawn_thread` and `thread`, step by step

The guard is on the stack of `spawn_thread`, which waits on its condition until
the new thread has told how it got on, and then destroys it. In `Ring` all this
is one step; here the two threads run in any interleaving, and the one that
waits may wake up of itself. What the new thread does in its event loop is left
out: it exits some time, or never. -/
namespace Libtorque.Schedule
open Libtorque.Lib

/-! ## The code -/

/-- Which of the calls succeed, `pthread_create` among them (`launch.launched`).
`lock` is the lock of the guard taken by a thread that has its handler, `relock`
the one on its error path. The parent can lock the guard's mutex. -/
structure Calls where
  attrInit : Bool
  getStack : Bool
  attrSetstack : Bool
  mutexInit : Bool
  condInit : Bool
  launch : Launch
  attrDestroy : Bool
  condDestroy : Bool
  mutexDestroy : Bool
  lock : Bool
  relock : Bool
deriving DecidableEq, Repr

inductive Role where
  | parent
  | child
deriving DecidableEq, Repr

/-- Where `spawn_thread` is; `asleep` is inside `pthread_cond_wait`. -/
inductive Parent where
  | begin
  | attrDestroy
  | lock
  | check
  | asleep
  | read
  | unlock
  | condDestroy
  | mutexDestroy
  | join
  | returned (failed : Bool)
deriving DecidableEq, Repr

/-- Where `thread` is, on its error path from `earlyLock` on. -/
inductive Child where
  | unborn
  | setcancelstate
  | createEvhandler
  | lock
  | dropEvhandler
  | link
  | started
  | broadcast
  | unlock
  | eventThread
  | earlyLock
  | prefail
  | earlyBroadcast
  | earlyUnlock
  | earlyDestroy
  | exited
deriving DecidableEq, Repr

inductive Life where
  | absent
  | live
  | gone
deriving DecidableEq, Repr

/-- `stack`, `attr`, `mutex` and `cond` are the parent's; `ev` is the handler of
the thread, and `destroyed` counts the calls of `destroy_evhandler` with it. -/
structure Spawn where
  parent : Parent := .begin
  child : Child := .unborn
  monitor : Monitor Role := {}
  status : Status := .unlaunched
  failed : Bool := false
  stack : Life := .absent
  attr : Life := .absent
  mutex : Life := .absent
  cond : Life := .absent
  ev : Option Nat := none
  destroyed : Nat := 0
  handlers : Handlers

/-- `setup_thread_stack` -/
def setupThreadStack (c : Calls) (s : Spawn) : Bool × Spawn :=
  if !c.attrInit then (false, s)
  else if !c.getStack then (false, { s with attr := .gone })
  else if !c.attrSetstack then (false, { s with stack := .gone, attr := .gone })
  else (true, { s with stack := .live, attr := .live })

/-- `spawn_thread` as far as `pthread_create`, with the thread there is then. -/
def createThread (c : Calls) (s : Spawn) : Spawn :=
  match setupThreadStack c s with
  | (false, s) => { s with parent := .returned true }
  | (true, s) =>
    if !c.mutexInit then { s with stack := .gone, attr := .gone, parent := .returned true }
    else if !c.condInit then
      { s with mutex := .gone, stack := .gone, attr := .gone, parent := .returned true }
    else if !c.launch.launched then
      { s with mutex := .gone, cond := .gone, stack := .gone, attr := .gone,
               parent := .returned true }
    else { s with mutex := .live, cond := .live, parent := .attrDestroy, child := .setcancelstate }

def Spawn.parentStep (c : Calls) (s : Spawn) : Option Spawn :=
  match s.parent with
  | .begin => some (createThread c s)
  | .attrDestroy =>
    some { s with attr := .gone, failed := s.failed || !c.attrDestroy, parent := .lock }
  | .lock => (s.monitor.lock .parent).map fun m => { s with monitor := m, parent := .check }
  | .check =>
    if s.status = .unlaunched then
      (s.monitor.wait .parent).map fun m => { s with monitor := m, parent := .asleep }
    else some { s with parent := .read }
  | .asleep => (s.monitor.relock .parent).map fun m => { s with monitor := m, parent := .check }
  | .read => some { s with failed := s.failed || s.status ≠ .started, parent := .unlock }
  | .unlock =>
    (s.monitor.unlock .parent).map fun m => { s with monitor := m, parent := .condDestroy }
  | .condDestroy =>
    some { s with cond := .gone, failed := s.failed || !c.condDestroy, parent := .mutexDestroy }
  | .mutexDestroy =>
    let failed := s.failed || !c.mutexDestroy
    some { s with mutex := .gone, failed := failed,
                  parent := if failed then .join else .returned false }
  | .join => if s.child = .exited then some { s with parent := .returned true } else none
  | .returned _ => none

/-- The thread has entered the ring, with its handler. -/
def Handlers.enter (c : Handlers) (self ev : Nat) : Handlers :=
  let c := c.link self ev
  { c with handler := Function.update c.handler self (some ev) }

/-- `destroy_evhandler` -/
def Spawn.destroyEvhandler (s : Spawn) : Spawn :=
  match s.ev with
  | none => s
  | some ev =>
    { s with
      destroyed := s.destroyed + 1
      handlers :=
        { s.handlers with nexttid := Function.update s.handlers.nexttid ev none } }

def Spawn.childStep (c : Calls) (s : Spawn) : Option Spawn :=
  match s.child with
  | .unborn => none
  | .setcancelstate =>
    some { s with child := if c.launch.setcancelstate then .createEvhandler else .earlyLock }
  | .createEvhandler =>
    match c.launch.evhandler with
    | none => some { s with child := .earlyLock }
    | some ev => some { s with ev := some ev, handlers := s.handlers.create ev, child := .lock }
  | .lock =>
    if c.lock then (s.monitor.lock .child).map fun m => { s with monitor := m, child := .link }
    else some { s with child := .dropEvhandler }
  | .dropEvhandler => some { s.destroyEvhandler with child := .earlyLock }
  | .link =>
    match s.ev with
    | none => none
    | some ev => some { s with handlers := s.handlers.enter c.launch.tid ev, child := .started }
  | .started => some { s with status := .started, child := .broadcast }
  | .broadcast => some { s with monitor := s.monitor.broadcast, child := .unlock }
  | .unlock =>
    (s.monitor.unlock .child).map fun m => { s with monitor := m, child := .eventThread }
  | .eventThread => none
  -- it goes on whatever the lock has returned
  | .earlyLock =>
    if c.relock then (s.monitor.lock .child).map fun m => { s with monitor := m, child := .prefail }
    else some { s with child := .prefail }
  | .prefail => some { s with status := .prefail, child := .earlyBroadcast }
  | .earlyBroadcast => some { s with monitor := s.monitor.broadcast, child := .earlyUnlock }
  | .earlyUnlock =>
    if c.relock then
      (s.monitor.unlock .child).map fun m => { s with monitor := m, child := .earlyDestroy }
    else some { s with child := .earlyDestroy }
  | .earlyDestroy => some { s.destroyEvhandler with child := .exited }
  | .exited => none

/-- Who moves: one of the two, or the parent wakes up of itself, or the thread
leaves its event loop for good. -/
inductive SpawnAct where
  | parent
  | child
  | wake
  | exit
deriving DecidableEq, Repr

def SpawnAct.outside : SpawnAct → Bool
  | wake | exit => true
  | _ => false

def Spawn.step (c : Calls) (s : Spawn) : SpawnAct → Option Spawn
  | .parent => s.parentStep c
  | .child => s.childStep c
  | .wake => (s.monitor.wake .parent).map fun m => { s with monitor := m }
  | .exit => if s.child = .eventThread then some { s with child := .exited } else none

def spawnInit (handlers : Handlers) : Spawn := { handlers := handlers }

/-! ## What a step does -/

inductive ParentMoves (c : Calls) (s : Spawn) : Spawn → Prop
  | begin : s.parent = .begin → ParentMoves c s (createThread c s)
  | attrDestroy : s.parent = .attrDestroy →
      ParentMoves c s
        { s with attr := .gone, failed := s.failed || !c.attrDestroy, parent := .lock }
  | lock : s.parent = .lock → s.monitor.holder = none →
      ParentMoves c s
        { s with monitor := { s.monitor with holder := some .parent }, parent := .check }
  | wait : s.parent = .check → s.status = .unlaunched → s.monitor.holder = some .parent →
      ParentMoves c s
        { s with
          monitor := { holder := none, sleepers := insert .parent s.monitor.sleepers }
          parent := .asleep }
  | checked : s.parent = .check → s.status ≠ .unlaunched →
      ParentMoves c s { s with parent := .read }
  | relock : s.parent = .asleep → .parent ∉ s.monitor.sleepers → s.monitor.holder = none →
      ParentMoves c s
        { s with monitor := { s.monitor with holder := some .parent }, parent := .check }
  | read : s.parent = .read →
      ParentMoves c s { s with failed := s.failed || s.status ≠ .started, parent := .unlock }
  | unlock : s.parent = .unlock → s.monitor.holder = some .parent →
      ParentMoves c s
        { s with monitor := { s.monitor with holder := none }, parent := .condDestroy }
  | condDestroy : s.parent = .condDestroy →
      ParentMoves c s
        { s with cond := .gone, failed := s.failed || !c.condDestroy, parent := .mutexDestroy }
  | fails : s.parent = .mutexDestroy → (s.failed || !c.mutexDestroy) = true →
      ParentMoves c s { s with mutex := .gone, failed := true, parent := .join }
  | succeeds : s.parent = .mutexDestroy → (s.failed || !c.mutexDestroy) = false →
      ParentMoves c s { s with mutex := .gone, failed := false, parent := .returned false }
  | join : s.parent = .join → s.child = .exited →
      ParentMoves c s { s with parent := .returned true }

inductive ChildMoves (c : Calls) (s : Spawn) : Spawn → Prop
  | setcancelstate : s.child = .setcancelstate → c.launch.setcancelstate = true →
      ChildMoves c s { s with child := .createEvhandler }
  | uncancelled : s.child = .setcancelstate → c.launch.setcancelstate = false →
      ChildMoves c s { s with child := .earlyLock }
  | noEvhandler : s.child = .createEvhandler → c.launch.evhandler = none →
      ChildMoves c s { s with child := .earlyLock }
  | createEvhandler (ev : Nat) : s.child = .createEvhandler → c.launch.evhandler = some ev →
      ChildMoves c s { s with ev := some ev, handlers := s.handlers.create ev, child := .lock }
  | lock : s.child = .lock → c.lock = true → s.monitor.holder = none →
      ChildMoves c s
        { s with monitor := { s.monitor with holder := some .child }, child := .link }
  | lockFails : s.child = .lock → c.lock = false →
      ChildMoves c s { s with child := .dropEvhandler }
  | dropEvhandler : s.child = .dropEvhandler →
      ChildMoves c s { s.destroyEvhandler with child := .earlyLock }
  | link (ev : Nat) : s.child = .link → s.ev = some ev →
      ChildMoves c s
        { s with handlers := s.handlers.enter c.launch.tid ev, child := .started }
  | started : s.child = .started →
      ChildMoves c s { s with status := .started, child := .broadcast }
  | broadcast : s.child = .broadcast →
      ChildMoves c s { s with monitor := s.monitor.broadcast, child := .unlock }
  | unlock : s.child = .unlock → s.monitor.holder = some .child →
      ChildMoves c s { s with monitor := { s.monitor with holder := none }, child := .eventThread }
  | earlyLock : s.child = .earlyLock → c.relock = true → s.monitor.holder = none →
      ChildMoves c s
        { s with monitor := { s.monitor with holder := some .child }, child := .prefail }
  | earlyLockFails : s.child = .earlyLock → c.relock = false →
      ChildMoves c s { s with child := .prefail }
  | prefail : s.child = .prefail →
      ChildMoves c s { s with status := .prefail, child := .earlyBroadcast }
  | earlyBroadcast : s.child = .earlyBroadcast →
      ChildMoves c s { s with monitor := s.monitor.broadcast, child := .earlyUnlock }
  | earlyUnlock : s.child = .earlyUnlock → c.relock = true → s.monitor.holder = some .child →
      ChildMoves c s { s with monitor := { s.monitor with holder := none }, child := .earlyDestroy }
  | earlyUnlockFails : s.child = .earlyUnlock → c.relock = false →
      ChildMoves c s { s with child := .earlyDestroy }
  | earlyDestroy : s.child = .earlyDestroy →
      ChildMoves c s { s.destroyEvhandler with child := .exited }

/-- What happens from outside. -/
inductive OutsideMoves (s : Spawn) : Spawn → Prop
  | wake : .parent ∈ s.monitor.sleepers →
      OutsideMoves s
        { s with monitor := { s.monitor with sleepers := s.monitor.sleepers.erase .parent } }
  | exit : s.child = .eventThread → OutsideMoves s { s with child := .exited }

theorem parentStep_cases {c : Calls} {s t : Spawn} (h : s.parentStep c = some t) :
    ParentMoves c s t := by
  cases hp : s.parent with
  | begin =>
    simp only [Spawn.parentStep, hp] at h
    cases h
    exact .begin hp
  | attrDestroy =>
    simp only [Spawn.parentStep, hp] at h
    cases h
    exact .attrDestroy hp
  | lock =>
    simp only [Spawn.parentStep, hp] at h
    obtain ⟨m, hm, rfl⟩ := Option.map_eq_some_iff.mp h
    obtain ⟨hfree, rfl⟩ := Monitor.lock_cases hm
    exact .lock hp hfree
  | check =>
    simp only [Spawn.parentStep, hp] at h
    split at h
    · rename_i hs
      obtain ⟨m, hm, rfl⟩ := Option.map_eq_some_iff.mp h
      obtain ⟨hheld, rfl⟩ := Monitor.wait_cases hm
      exact .wait hp hs hheld
    · rename_i hs
      cases h
      exact .checked hp hs
  | asleep =>
    simp only [Spawn.parentStep, hp] at h
    obtain ⟨m, hm, rfl⟩ := Option.map_eq_some_iff.mp h
    obtain ⟨hawake, hfree, rfl⟩ := Monitor.relock_cases hm
    exact .relock hp hawake hfree
  | read =>
    simp only [Spawn.parentStep, hp] at h
    cases h
    exact .read hp
  | unlock =>
    simp only [Spawn.parentStep, hp] at h
    obtain ⟨m, hm, rfl⟩ := Option.map_eq_some_iff.mp h
    obtain ⟨hheld, rfl⟩ := Monitor.unlock_cases hm
    exact .unlock hp hheld
  | condDestroy =>
    simp only [Spawn.parentStep, hp] at h
    cases h
    exact .condDestroy hp
  | mutexDestroy =>
    simp only [Spawn.parentStep, hp] at h
    cases hf : s.failed || !c.mutexDestroy with
    | true =>
      rw [hf] at h
      cases h
      exact .fails hp hf
    | false =>
      rw [hf] at h
      cases h
      exact .succeeds hp hf
  | join =>
    simp only [Spawn.parentStep, hp] at h
    obtain ⟨hx, he⟩ := Option.ite_none_right_eq_some.mp h
    cases he
    exact .join hp hx
  | returned f =>
    simp only [Spawn.parentStep, hp] at h
    cases h

theorem childStep_cases {c : Calls} {s t : Spawn} (h : s.childStep c = some t) :
    ChildMoves c s t := by
  cases hx : s.child with
  | unborn =>
    simp only [Spawn.childStep, hx] at h
    cases h
  | setcancelstate =>
    simp only [Spawn.childStep, hx] at h
    cases hc : c.launch.setcancelstate with
    | true =>
      rw [hc] at h
      cases h
      exact .setcancelstate hx hc
    | false =>
      rw [hc] at h
      cases h
      exact .uncancelled hx hc
  | createEvhandler =>
    simp only [Spawn.childStep, hx] at h
    cases hev : c.launch.evhandler with
    | none =>
      rw [hev] at h
      cases h
      exact .noEvhandler hx hev
    | some ev =>
      rw [hev] at h
      cases h
      exact .createEvhandler ev hx hev
  | lock =>
    simp only [Spawn.childStep, hx] at h
    cases hl : c.lock with
    | true =>
      rw [hl] at h
      obtain ⟨m, hm, rfl⟩ := Option.map_eq_some_iff.mp h
      obtain ⟨hfree, rfl⟩ := Monitor.lock_cases hm
      exact .lock hx hl hfree
    | false =>
      rw [hl] at h
      cases h
      exact .lockFails hx hl
  | dropEvhandler =>
    simp only [Spawn.childStep, hx] at h
    cases h
    exact .dropEvhandler hx
  | link =>
    simp only [Spawn.childStep, hx] at h
    split at h
    · cases h
    · rename_i ev hev
      cases h
      exact .link ev hx hev
  | started =>
    simp only [Spawn.childStep, hx] at h
    cases h
    exact .started hx
  | broadcast =>
    simp only [Spawn.childStep, hx] at h
    cases h
    exact .broadcast hx
  | unlock =>
    simp only [Spawn.childStep, hx] at h
    obtain ⟨m, hm, rfl⟩ := Option.map_eq_some_iff.mp h
    obtain ⟨hheld, rfl⟩ := Monitor.unlock_cases hm
    exact .unlock hx hheld
  | eventThread =>
    simp only [Spawn.childStep, hx] at h
    cases h
  | earlyLock =>
    simp only [Spawn.childStep, hx] at h
    cases hl : c.relock with
    | true =>
      rw [hl] at h
      obtain ⟨m, hm, rfl⟩ := Option.map_eq_some_iff.mp h
      obtain ⟨hfree, rfl⟩ := Monitor.lock_cases hm
      exact .earlyLock hx hl hfree
    | false =>
      rw [hl] at h
      cases h
      exact .earlyLockFails hx hl
  | prefail =>
    simp only [Spawn.childStep, hx] at h
    cases h
    exact .prefail hx
  | earlyBroadcast =>
    simp only [Spawn.childStep, hx] at h
    cases h
    exact .earlyBroadcast hx
  | earlyUnlock =>
    simp only [Spawn.childStep, hx] at h
    cases hl : c.relock with
    | true =>
      rw [hl] at h
      obtain ⟨m, hm, rfl⟩ := Option.map_eq_some_iff.mp h
      obtain ⟨hheld, rfl⟩ := Monitor.unlock_cases hm
      exact .earlyUnlock hx hl hheld
    | false =>
      rw [hl] at h
      cases h
      exact .earlyUnlockFails hx hl
  | earlyDestroy =>
    simp only [Spawn.childStep, hx] at h
    cases h
    exact .earlyDestroy hx
  | exited =>
    simp only [Spawn.childStep, hx] at h
    cases h

theorem spawnStep_cases {c : Calls} {s t : Spawn} {a : SpawnAct} (h : s.step c a = some t) :
    ParentMoves c s t ∨ ChildMoves c s t ∨ OutsideMoves s t := by
  cases a with
  | parent => exact .inl (parentStep_cases h)
  | child => exact .inr (.inl (childStep_cases h))
  | wake =>
    obtain ⟨m, hm, rfl⟩ := Option.map_eq_some_iff.mp h
    obtain ⟨hsleeps, rfl⟩ := Monitor.wake_cases hm
    exact .inr (.inr (.wake hsleeps))
  | exit =>
    obtain ⟨hx, he⟩ := Option.ite_none_right_eq_some.mp h
    cases he
    exact .inr (.inr (.exit hx))

/-! ## The guard -/

/-- `spawn_thread` gets as far as a thread. -/
def Calls.creates (c : Calls) : Bool :=
  c.attrInit && c.getStack && c.attrSetstack && c.mutexInit && c.condInit && c.launch.launched

/-- The thread takes its error path. -/
def Calls.fails (c : Calls) : Bool :=
  !(c.launch.setcancelstate && c.launch.evhandler.isSome && c.lock)

@[grind] def Parent.holds : Parent → Bool
  | check | read | unlock => true
  | _ => false

/-- The wait is over. -/
@[grind] def Parent.past : Parent → Bool
  | read | unlock | condDestroy | mutexDestroy | join | returned _ => true
  | _ => false

@[grind] def Child.holds : Child → Bool
  | link | started | broadcast | unlock | prefail | earlyBroadcast | earlyUnlock => true
  | _ => false

/-- The thread has not told yet. -/
@[grind] def Child.untold : Child → Bool
  | broadcast | unlock | eventThread | earlyBroadcast | earlyUnlock | earlyDestroy | exited => false
  | _ => true

/-- There is no thread that has yet to use the guard. -/
@[grind] def Child.done : Child → Bool
  | unborn | eventThread | earlyDestroy | exited => true
  | _ => false

@[grind] def Child.early : Child → Bool
  | dropEvhandler | earlyLock | prefail | earlyBroadcast | earlyUnlock | earlyDestroy => true
  | _ => false

/-- The guard is there as long as the thread uses it. -/
def Spawn.GuardThere (s : Spawn) : Prop :=
  s.child.done = false →
    s.mutex = .live ∧ s.cond = .live ∧ ∀ failed, s.parent ≠ .returned failed

structure SpawnInv (c : Calls) (s : Spawn) : Prop where
  begin : s.parent = .begin → s = spawnInit s.handlers
  unborn : s.child = .unborn → s.parent = .begin ∨ s.parent = .returned true
  parentHolds : s.parent.holds = true ↔ s.monitor.holder = some .parent
  childHolds : s.child.holds = true ↔ s.monitor.holder = some .child
  awake : s.parent ≠ .asleep → .parent ∉ s.monitor.sleepers
  alone : .child ∉ s.monitor.sleepers
  told : s.status = .unlaunched ↔ s.child.untold = true
  past : s.parent.past = true → s.child.done = true
  guard : s.child ≠ .unborn → s.parent.past = false → s.mutex = .live ∧ s.cond = .live
  early : s.child.early = true → c.fails = true
  created : s.child ≠ .unborn → c.creates = true

theorem createThread_cases (c : Calls) (handlers : Handlers) :
    (c.creates = false ∧ ∃ stack attr mutex cond,
      stack ≠ .live ∧ attr ≠ .live ∧ mutex ≠ .live ∧ cond ≠ .live ∧
      createThread c (spawnInit handlers) =
        { handlers := handlers, stack := stack, attr := attr, mutex := mutex, cond := cond
          parent := .returned true }) ∨
    (c.creates = true ∧ createThread c (spawnInit handlers) =
      { handlers := handlers, stack := .live, attr := .live, mutex := .live, cond := .live
        parent := .attrDestroy, child := .setcancelstate }) := by
  by_cases hc : c.creates = true
  · right
    refine ⟨hc, ?_⟩
    simp only [Calls.creates, Bool.and_eq_true] at hc
    simp [createThread, setupThreadStack, hc, spawnInit]
  · left
    refine ⟨by simpa using hc, ?_⟩
    simp only [Calls.creates, Bool.and_eq_true] at hc
    unfold createThread setupThreadStack
    by_cases hattr : c.attrInit = true
    · by_cases hget : c.getStack = true
      · by_cases hset : c.attrSetstack = true
        · by_cases hmutex : c.mutexInit = true
          · by_cases hcond : c.condInit = true
            · have hl : c.launch.launched = false := by simp_all
              simp [*, spawnInit]
            · simp [*, spawnInit]
          · simp [*, spawnInit]
        · simp [*, spawnInit]
      · simp [*, spawnInit]
    · simp [*, spawnInit]

/-- A thread that has told and does not hold the lock is done with the guard. -/
theorem Child.done_of {x : Child} (ht : x.untold = false) (hh : x.holds = false) :
    x.done = true := by
  cases x <;> grind -linarith

theorem Child.told_of_done {x : Child} (hd : x.done = true) (hb : x ≠ .unborn) :
    x.untold = false := by
  cases x <;> grind -linarith

theorem Spawn.destroyEvhandler_frame (s : Spawn) :
    ∃ destroyed handlers,
      s.destroyEvhandler = { s with destroyed := destroyed, handlers := handlers } := by
  unfold Spawn.destroyEvhandler
  split
  · exact ⟨s.destroyed, s.handlers, rfl⟩
  · exact ⟨_, _, rfl⟩

section Guard
variable {c : Calls} {s t : Spawn}

theorem SpawnInv.parent (hi : SpawnInv c s) (hm : ParentMoves c s t) : SpawnInv c t := by
  obtain ⟨hbegin, hunborn, hparent, hchild, hawake, halone, htold, hpast, hguard, hearly, hcreated⟩ := hi
  cases hm with
  | begin hp =>
    rw [hbegin hp]
    rcases createThread_cases c s.handlers with ⟨-, _, _, _, _, -, -, -, -, he⟩ | ⟨hnew, he⟩
    · rw [he]
      constructor <;> grind -linarith
    · rw [he]
      constructor <;> grind -linarith
  | checked hp hs =>
    -- the parent has the lock, so the thread, which has told, has left it
    have hfree : s.child.holds = false := by grind -linarith
    have hdone : s.child.done = true := Child.done_of (by grind -linarith) hfree
    constructor <;> grind -linarith
  | _ => constructor <;> grind -linarith

theorem SpawnInv.child (hc : c.creates = true → c.fails = true → c.relock = true)
    (hi : SpawnInv c s) (hm : ChildMoves c s t) : SpawnInv c t := by
  have hstart : s.child ≠ .unborn → s.parent ≠ .begin := by
    intro hx hp
    rw [hi.begin hp] at hx
    exact hx rfl
  obtain ⟨hbegin, hunborn, hparent, hchild, hawake, halone, htold, hpast, hguard, hearly, hcreated⟩ := hi
  cases hm with
  | dropEvhandler hx | earlyDestroy hx =>
    obtain ⟨_, _, he⟩ := s.destroyEvhandler_frame
    rw [he]
    constructor <;> grind -linarith
  | _ => constructor <;> grind -linarith [Monitor.broadcast, Calls.fails]

theorem SpawnInv.outside (hi : SpawnInv c s) (hm : OutsideMoves s t) : SpawnInv c t := by
  have hstart : s.parent = .begin → s.child = .unborn ∧ s.monitor.sleepers = ∅ := by
    intro hp
    rw [hi.begin hp]
    exact ⟨rfl, rfl⟩
  obtain ⟨hbegin, hunborn, hparent, hchild, hawake, halone, htold, hpast, hguard, hearly, hcreated⟩ := hi
  cases hm with
  | wake | exit => constructor <;> grind -linarith

theorem SpawnInv.step (hc : c.creates = true → c.fails = true → c.relock = true) {a : SpawnAct}
    (hi : SpawnInv c s) (h : s.step c a = some t) : SpawnInv c t := by
  rcases spawnStep_cases h with hm | hm | hm
  · exact hi.parent hm
  · exact hi.child hc hm
  · exact hi.outside hm

theorem spawnInit_inv (c : Calls) (handlers : Handlers) : SpawnInv c (spawnInit handlers) := by
  constructor <;> grind -linarith [spawnInit]

theorem SpawnInv.guardThere (hi : SpawnInv c s) : s.GuardThere := by
  intro hused
  have hpast : s.parent.past = false := by
    cases hp : s.parent.past with
    | false => rfl
    | true =>
      rw [hi.past hp] at hused
      cases hused
  have hborn : s.child ≠ .unborn := by
    intro hx
    rw [hx] at hused
    cases hused
  obtain ⟨hmutex, hcond⟩ := hi.guard hborn hpast
  refine ⟨hmutex, hcond, ?_⟩
  intro failed hp
  rw [hp] at hpast
  cases hpast

end Guard

/-- Up to where a thread that has to tell of its failure would lock the guard. -/
theorem fails_run {c : Calls} (hc : c.creates = true) (hf : c.fails = true) (handlers : Handlers) :
    ∃ as t, exec (Spawn.step c) (spawnInit handlers) as = some t ∧ t.child = .earlyLock ∧
      t.parent = .lock ∧ t.monitor = {} ∧ t.status = .unlaunched := by
  have hnew : createThread c (spawnInit handlers) =
      { handlers := handlers, stack := .live, attr := .live, mutex := .live, cond := .live
        parent := .attrDestroy, child := .setcancelstate } := by
    rcases createThread_cases c handlers with ⟨hno, -⟩ | ⟨-, he⟩
    · rw [hc] at hno
      cases hno
    · exact he
  have hbegin : (spawnInit handlers).parent = .begin := rfl
  cases hcancel : c.launch.setcancelstate with
  | false =>
    refine ⟨[.parent, .parent, .child], ?_⟩
    simp [exec, Spawn.step, Spawn.parentStep, Spawn.childStep, hbegin, hnew, hcancel]
  | true =>
    cases hev : c.launch.evhandler with
    | none =>
      refine ⟨[.parent, .parent, .child, .child], ?_⟩
      simp [exec, Spawn.step, Spawn.parentStep, Spawn.childStep, hbegin, hnew, hcancel, hev]
    | some ev =>
      have hlock : c.lock = false := by simpa [Calls.fails, hcancel, hev] using hf
      refine ⟨[.parent, .parent, .child, .child, .child, .child], ?_⟩
      simp [exec, Spawn.step, Spawn.parentStep, Spawn.childStep, hbegin, hnew, hcancel, hev, hlock,
        Spawn.destroyEvhandler]

/-- Whatever the schedule, the guard is there when the thread uses it, if and
only if a thread that fails has got the lock by then. -/
theorem guard_there_iff (c : Calls) (handlers : Handlers) :
    (∀ as, Always (Spawn.step c) Spawn.GuardThere (spawnInit handlers) as) ↔
      (c.creates = true → c.fails = true → c.relock = true) := by
  constructor
  · intro h hc hf
    by_contra hl
    obtain ⟨as, t, hrun, hx, hp, hm, hs⟩ := fails_run hc hf handlers
    -- the status is told without the lock, and read before the thread is done
    let bs : List SpawnAct := [.child, .child, .parent, .parent, .parent, .parent, .parent]
    obtain ⟨u, hu, hux, huc⟩ : ∃ u, exec (Spawn.step c) t bs = some u ∧
        u.child = .earlyBroadcast ∧ u.cond = .gone := by
      simp [bs, exec, Spawn.step, Spawn.parentStep, Spawn.childStep, hx, hp, hm, hl, Monitor.lock,
        Monitor.unlock]
    have hthere : u.GuardThere := by
      refine (h (as ++ bs)).last ?_
      rw [exec_append, hrun]
      exact hu
    obtain ⟨-, hcond, -⟩ := hthere (by rw [hux]; rfl)
    rw [huc] at hcond
    cases hcond
  · intro hc as
    have hinv : Always (Spawn.step c) (SpawnInv c) (spawnInit handlers) as :=
      always_of_inv (fun _ _ _ hi h => hi.step hc h) (spawnInit_inv c handlers) as
    exact hinv.mono fun _ hi => hi.guardThere

end Libtorque.Schedule
