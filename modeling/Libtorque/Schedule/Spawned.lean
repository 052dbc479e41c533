import Libtorque.Schedule.Handshake

/-! # What comes of `spawn_thread`

Each of the two threads goes its own way, so that all it has done is told by
where it is. Together they do what `spawnThread` does in one step, and come to
an end. -/
namespace Libtorque.Schedule
open Libtorque.Lib

/-- What the calls amount to where `spawn_thread` is one step. -/
def Calls.outcome (c : Calls) : Launch :=
  { c.launch with
    launched := c.creates
    evhandler := if c.lock then c.launch.evhandler else none }

theorem Calls.outcome_starts (c : Calls) : c.outcome.starts = (c.creates && !c.fails) := by
  simp only [Launch.starts, Calls.outcome, Calls.fails]
  cases c.lock <;> cases c.launch.setcancelstate <;> cases c.creates <;> simp

/-- The handlers with the one of the new thread, before it is in the ring. -/
def Calls.created (c : Calls) (handlers : Handlers) : Handlers :=
  (c.launch.evhandler.map handlers.create).getD handlers

def Calls.entered (c : Calls) (handlers : Handlers) : Handlers :=
  (c.launch.evhandler.map fun ev => (handlers.create ev).enter c.launch.tid ev).getD handlers

/-- What the calls have been by the time that the thread is at a place. -/
@[grind] def Calls.leadTo (c : Calls) : Child → Bool
  | .createEvhandler => c.launch.setcancelstate
  | .lock => c.launch.setcancelstate && c.launch.evhandler.isSome
  | .dropEvhandler => c.launch.setcancelstate && c.launch.evhandler.isSome && !c.lock
  | .link | .started | .broadcast | .unlock | .eventThread => !c.fails
  | .earlyLock | .prefail | .earlyBroadcast | .earlyUnlock | .earlyDestroy => c.fails
  | _ => true

/-- The handler that the thread has been given. -/
@[grind] def Calls.evAt (c : Calls) : Child → Option Nat
  | .unborn | .setcancelstate | .createEvhandler => none
  | _ => if c.launch.setcancelstate then c.launch.evhandler else none

@[grind] def Calls.handlersAt (c : Calls) (handlers : Handlers) : Child → Handlers
  | .lock | .dropEvhandler | .link => c.created handlers
  | .started | .broadcast | .unlock | .eventThread => c.entered handlers
  | .exited => if c.fails then handlers else c.entered handlers
  | _ => handlers

@[grind] def Calls.destroyedAt (c : Calls) : Child → Nat
  | .earlyLock | .prefail | .earlyBroadcast | .earlyUnlock | .earlyDestroy =>
    if (c.evAt .earlyLock).isSome then 1 else 0
  | .exited => if c.fails && (c.evAt .exited).isSome then 2 else 0
  | _ => 0

/-- `ret` is not 0. -/
@[grind] def Calls.failedAt (c : Calls) : Parent → Bool
  | .begin | .attrDestroy => false
  | .lock | .check | .asleep | .read => !c.attrDestroy
  | .unlock | .condDestroy => !c.attrDestroy || c.fails
  | .mutexDestroy => !c.attrDestroy || c.fails || !c.condDestroy
  | _ => !c.attrDestroy || c.fails || !c.condDestroy || !c.mutexDestroy

/-- All that the two have done is told by where they are. -/
structure SpawnData (c : Calls) (handlers : Handlers) (s : Spawn) : Prop where
  leadTo : c.leadTo s.child = true
  ev : s.ev = c.evAt s.child
  handlers : s.handlers = c.handlersAt handlers s.child
  destroyed : s.destroyed = c.destroyedAt s.child
  uncreated : s.parent ≠ .begin → s.child = .unborn → c.creates = false
  failed : s.child ≠ .unborn → s.failed = c.failedAt s.parent
  status : s.status = .started → c.fails = false
  prefail : s.status = .prefail → c.fails = true
  joining : s.parent = .join → s.failed = true
  returned : ∀ f, s.parent = .returned f → s.child ≠ .unborn → f = s.failed
  joined : s.parent = .returned true → s.child = .unborn ∨ s.child = .exited
  stack : s.stack = .live ↔ s.child ≠ .unborn
  attr : s.attr = .live → s.parent = .attrDestroy
  cond : s.cond = .live → s.parent ≠ .mutexDestroy ∧ s.parent ≠ .join ∧ ∀ f, s.parent ≠ .returned f
  mutex : s.mutex = .live → s.parent ≠ .join ∧ ∀ f, s.parent ≠ .returned f

theorem Calls.handlersAt_done {c : Calls} {handlers : Handlers} {x : Child} (hd : x.done = true)
    (hb : x ≠ .unborn) (hl : c.leadTo x = true) (hf : c.fails = false) :
    c.handlersAt handlers x = c.entered handlers := by
  cases x <;> grind -linarith

/-- A handler is given memory of its own. -/
def Calls.Fresh (c : Calls) (handlers : Handlers) : Prop :=
  ∀ ev, c.launch.evhandler = some ev → handlers.nexttid ev = none

theorem Handlers.forget_fresh {handlers : Handlers} {ev : Nat} (h : handlers.nexttid ev = none) :
    { handlers with nexttid := Function.update handlers.nexttid ev none } = handlers := by
  rw [← h, Function.update_eq_self]

theorem Handlers.forget_create {handlers : Handlers} {ev : Nat} (h : handlers.nexttid ev = none) :
    { handlers.create ev with
      nexttid := Function.update (handlers.create ev).nexttid ev none } = handlers := by
  simp only [Handlers.create, Function.update_idem]
  exact Handlers.forget_fresh h

section Data
variable {c : Calls} {handlers : Handlers} {s t : Spawn}

theorem SpawnData.parent (hi : SpawnInv c s) (hd : SpawnData c handlers s)
    (hm : ParentMoves c s t) : SpawnData c handlers t := by
  have hstart : s.parent = .begin → s = spawnInit s.handlers := hi.begin
  have hread : s.parent = .read → decide (s.status ≠ .started) = c.fails := by
    intro hp
    have hdone : s.child.done = true := hi.past (by rw [hp]; rfl)
    have hborn : s.child ≠ .unborn := by
      intro hx
      rcases hi.unborn hx with h | h <;> rw [hp] at h <;> cases h
    have htold : s.status ≠ .unlaunched := by
      intro hs
      have huntold := hi.told.mp hs
      rw [Child.told_of_done hdone hborn] at huntold
      cases huntold
    cases hs : s.status with
    | unlaunched => exact absurd hs htold
    | prefail => simp [hd.prefail hs]
    | started => simp [hd.status hs]
  have hunborn := hi.unborn
  obtain ⟨hlead, hev, hhand, hdest, huncreated, hfailed, hstatus, hprefail, hjoin, hret, hjoined, hstack,
    hattr, hcond, hmutex⟩ := hd
  cases hm with
  | begin hp =>
    have hs := hstart hp
    have hold : s.child = .unborn := by rw [hs]; rfl
    rw [hold] at hhand
    rw [hs]
    rcases createThread_cases c s.handlers with ⟨hno, _, _, _, _, h1, h2, h3, h4, he⟩ | ⟨hnew, he⟩
    · rw [he]
      constructor <;> grind -linarith
    · rw [he]
      constructor <;> grind -linarith
  | _ => constructor <;> grind -linarith

theorem SpawnData.child (hf : c.Fresh handlers) (hi : SpawnInv c s) (hd : SpawnData c handlers s)
    (hm : ChildMoves c s t) : SpawnData c handlers t := by
  have hunborn := hi.unborn
  have hstart : s.parent = .begin → s.child = .unborn := by
    intro hp
    rw [hi.begin hp]
    rfl
  obtain ⟨hlead, hev, hhand, hdest, huncreated, hfailed, hstatus, hprefail, hjoin, hret, hjoined, hstack,
    hattr, hcond, hmutex⟩ := hd
  cases hm with
  | createEvhandler ev hx he =>
    have hnew : c.created handlers = s.handlers.create ev := by
      rw [hhand, hx]
      simp [Calls.created, Calls.handlersAt, he]
    constructor <;> grind -linarith
  | link ev hx he =>
    have hcancel : c.launch.setcancelstate = true := by grind -linarith [Calls.fails]
    have hgiven : c.launch.evhandler = some ev := by grind -linarith
    have hnew : c.entered handlers = s.handlers.enter c.launch.tid ev := by
      rw [hhand, hx]
      simp [Calls.entered, Calls.handlersAt, Calls.created, hgiven]
    constructor <;> grind -linarith
  | dropEvhandler hx =>
    obtain ⟨ev, hgiven⟩ : ∃ ev, c.launch.evhandler = some ev := by
      rw [hx] at hlead
      simp only [Calls.leadTo, Bool.and_eq_true] at hlead
      exact Option.isSome_iff_exists.mp hlead.1.2
    have hmine : s.ev = some ev := by grind -linarith
    have hold : s.destroyEvhandler =
        { s with destroyed := 1, handlers := handlers } := by
      rw [hx] at hhand hdest
      simp only [Calls.handlersAt, Calls.created, hgiven, Option.map_some, Option.getD_some] at hhand
      simp only [Spawn.destroyEvhandler, hmine, hhand, hdest, Calls.destroyedAt]
      rw [Handlers.forget_create (hf ev hgiven)]
    rw [hold]
    constructor <;> grind -linarith [Calls.fails]
  | earlyDestroy hx =>
    have hold : s.destroyEvhandler =
        { s with destroyed := if s.ev.isSome then s.destroyed + 1 else s.destroyed } := by
      rw [hx] at hhand
      unfold Spawn.destroyEvhandler
      split
      · rename_i he
        rw [if_neg (by simp [he])]
      · rename_i ev he
        have hgiven : c.launch.evhandler = some ev := by grind -linarith
        simp only [Calls.handlersAt] at hhand
        rw [hhand, Handlers.forget_fresh (hf ev hgiven)]
        simp [he]
    rw [hold]
    constructor <;> grind -linarith
  | _ => constructor <;> grind -linarith [Calls.fails]

theorem SpawnData.outside (hd : SpawnData c handlers s) (hm : OutsideMoves s t) :
    SpawnData c handlers t := by
  obtain ⟨hlead, hev, hhand, hdest, huncreated, hfailed, hstatus, hprefail, hjoin, hret, hjoined,
    hstack, hattr, hcond, hmutex⟩ := hd
  cases hm with
  | wake | exit => constructor <;> grind -linarith

theorem SpawnData.step (hf : c.Fresh handlers) {a : SpawnAct} (hi : SpawnInv c s)
    (hd : SpawnData c handlers s) (h : s.step c a = some t) : SpawnData c handlers t := by
  rcases spawnStep_cases h with hm | hm | hm
  · exact hd.parent hi hm
  · exact hd.child hf hi hm
  · exact hd.outside hm

theorem spawnInit_data (c : Calls) (handlers : Handlers) :
    SpawnData c handlers (spawnInit handlers) := by
  constructor <;> grind -linarith [spawnInit]

theorem spawn_always (hf : c.Fresh handlers)
    (hc : c.creates = true → c.fails = true → c.relock = true) (as : List SpawnAct) :
    Always (Spawn.step c) (fun s => SpawnInv c s ∧ SpawnData c handlers s) (spawnInit handlers)
      as := by
  refine always_of_inv ?_ ⟨spawnInit_inv c handlers, spawnInit_data c handlers⟩ as
  intro s a t hs h
  exact ⟨hs.1.step hc h, hs.2.step hf hs.1 h⟩

/-- The handlers at the end are those of the one step. -/
theorem SpawnData.handlers_eq (hi : SpawnInv c s) (hd : SpawnData c handlers s) {f : Bool}
    (hret : s.parent = .returned f) : s.handlers = (spawnThread handlers c.outcome).2 := by
  have hpast : s.child.done = true := hi.past (by rw [hret]; rfl)
  rw [hd.handlers]
  by_cases hborn : s.child = .unborn
  · have hno : c.outcome.starts = false := by
      simp [c.outcome_starts, hd.uncreated (by rw [hret]; simp) hborn]
    rw [spawnThread_fails hno, hborn]
    rfl
  · have hnew : c.creates = true := hi.created hborn
    cases hfails : c.fails with
    | true =>
      have hno : c.outcome.starts = false := by simp [c.outcome_starts, hfails]
      have hf : f = true := by
        rw [hd.returned f hret hborn, hd.failed hborn, hret]
        simp [Calls.failedAt, hfails]
      have hx : s.child = .exited := (hd.joined (hf ▸ hret)).resolve_left hborn
      rw [spawnThread_fails hno, hx]
      simp [Calls.handlersAt, hfails]
    | false =>
      rw [Calls.handlersAt_done hpast hborn hd.leadTo hfails]
      simp only [Calls.fails, Bool.not_eq_false', Bool.and_eq_true] at hfails
      obtain ⟨⟨hcancel, hev⟩, hlock⟩ := hfails
      obtain ⟨ev, hgiven⟩ := Option.isSome_iff_exists.mp hev
      simp [Calls.entered, spawnThread, thread, Calls.outcome, hnew, hcancel, hlock, hgiven,
        Handlers.enter]

/-- The result is that of the one step, but for what fails after it. -/
theorem SpawnData.failed_iff (hi : SpawnInv c s) (hd : SpawnData c handlers s) {f : Bool}
    (hret : s.parent = .returned f) :
    f = false ↔ (spawnThread handlers c.outcome).1 = 0 ∧ c.attrDestroy = true ∧
      c.condDestroy = true ∧ c.mutexDestroy = true := by
  have hzero : (spawnThread handlers c.outcome).1 = 0 ↔ c.creates = true ∧ c.fails = false := by
    have hstarts := c.outcome_starts
    cases hs : c.outcome.starts with
    | false =>
      rw [hs] at hstarts
      rw [spawnThread_fails hs]
      have hno : ¬ (c.creates = true ∧ c.fails = false) := by simpa using hstarts.symm
      simp [hno]
    | true =>
      rw [hs] at hstarts
      obtain ⟨ev, -, he⟩ := spawnThread_starts (c := handlers) hs
      rw [he]
      simpa using hstarts.symm
  rw [hzero]
  by_cases hborn : s.child = .unborn
  · have hno : c.creates = false := hd.uncreated (by rw [hret]; simp) hborn
    have hf : f = true := by
      rcases hi.unborn hborn with h | h <;> rw [hret] at h
      · cases h
      · exact Parent.returned.inj h
    simp [hno, hf]
  · have hf : f = c.failedAt (.returned f) := by
      rw [← hret, ← hd.failed hborn]
      exact hd.returned f hret hborn
    rw [hf]
    simp only [Calls.failedAt, hi.created hborn, Bool.or_eq_false_iff, Bool.not_eq_false']
    tauto

end Data

/-- All calls succeed. -/
def plainCalls : Calls where
  attrInit := true
  getStack := true
  attrSetstack := true
  mutexInit := true
  condInit := true
  launch := ⟨true, 7, true, some 64⟩
  attrDestroy := true
  condDestroy := true
  mutexDestroy := true
  lock := true
  relock := true

/-- The parent sleeps until the thread has started. -/
def plainRun : List SpawnAct :=
  List.replicate 4 .parent ++ List.replicate 7 .child ++ List.replicate 6 .parent

theorem plainCalls_fresh : plainCalls.Fresh {} := fun _ _ => rfl

/-- Whatever the schedule, `spawn_thread` comes to the handlers that the one
step comes to and, unless it cannot destroy what it has made, to its result;
what it has made is destroyed, but for the stack of a thread that it has
created; and a thread that has failed is gone. -/
theorem spawn_returns {c : Calls} {handlers : Handlers} (hf : c.Fresh handlers)
    (hc : c.creates = true → c.fails = true → c.relock = true) {as : List SpawnAct} {t : Spawn}
    (hrun : exec (Spawn.step c) (spawnInit handlers) as = some t) {f : Bool}
    (hret : t.parent = .returned f) :
    t.handlers = (spawnThread handlers c.outcome).2 ∧
      (f = false ↔ (spawnThread handlers c.outcome).1 = 0 ∧ c.attrDestroy = true ∧
        c.condDestroy = true ∧ c.mutexDestroy = true) ∧
      t.attr ≠ .live ∧ t.mutex ≠ .live ∧ t.cond ≠ .live ∧ (t.stack = .live ↔ c.creates = true) ∧
      (f = true → t.child = .unborn ∨ t.child = .exited) := by
  obtain ⟨hi, hd⟩ := (spawn_always hf hc as).last hrun
  refine ⟨hd.handlers_eq hi hret, hd.failed_iff hi hret, ?_, ?_, ?_, ?_, ?_⟩
  · intro hlive
    rw [hd.attr hlive] at hret
    cases hret
  · intro hlive
    exact (hd.mutex hlive).2 f hret
  · intro hlive
    exact (hd.cond hlive).2.2 f hret
  · rw [hd.stack]
    constructor
    · exact hi.created
    · intro hnew hborn
      rw [hd.uncreated (by rw [hret]; simp) hborn] at hnew
      cases hnew
  · intro hfail
    exact hd.joined (hfail ▸ hret)

theorem spawn_returns_plain : ∃ t, exec (Spawn.step plainCalls) (spawnInit {}) plainRun = some t ∧
    t.handlers = (spawnThread {} plainCalls.outcome).2 ∧ t.stack = .live := by
  obtain ⟨t, hrun, hret⟩ : ∃ t, exec (Spawn.step plainCalls) (spawnInit {}) plainRun = some t ∧
      t.parent = .returned false := ⟨_, rfl, rfl⟩
  have h := spawn_returns plainCalls_fresh (fun _ _ => rfl) hrun hret
  exact ⟨t, hrun, h.1, h.2.2.2.2.2.1.mpr rfl⟩

/-- The handler is destroyed once at most, if and only if a thread that has got
one can lock the guard. -/
theorem destroys_once_iff {c : Calls} {handlers : Handlers} (hf : c.Fresh handlers)
    (hc : c.creates = true → c.fails = true → c.relock = true) :
    (∀ as, Always (Spawn.step c) (fun s => s.destroyed ≤ 1) (spawnInit handlers) as) ↔
      (c.creates = true → c.launch.setcancelstate = true → c.launch.evhandler.isSome = true →
        c.lock = true) := by
  constructor
  · intro honce hnew hcancel hev
    by_contra hlock
    have hfails : c.fails = true := by
      simp only [Bool.not_eq_true] at hlock
      simp [Calls.fails, hlock]
    have hrelock : c.relock = true := hc hnew hfails
    obtain ⟨as, t, hrun, hx, hp, hm, -⟩ := fails_run hnew hfails handlers
    let bs : List SpawnAct := [.child, .child, .child, .child, .child]
    obtain ⟨u, hu, hux⟩ : ∃ u, exec (Spawn.step c) t bs = some u ∧ u.child = .exited := by
      simp [bs, exec, Spawn.step, Spawn.childStep, hx, hm, hrelock, Monitor.lock, Monitor.unlock,
        Monitor.broadcast]
    have hrun' : exec (Spawn.step c) (spawnInit handlers) (as ++ bs) = some u := by
      rw [exec_append, hrun]
      exact hu
    have hd := ((spawn_always hf hc (as ++ bs)).last hrun').2
    have htwo : u.destroyed = 2 := by
      rw [hd.destroyed, hux]
      simp [Calls.destroyedAt, hfails, Calls.evAt, hcancel, hev]
    have hone := (honce (as ++ bs)).last hrun'
    omega
  · intro hlock as
    refine (spawn_always hf hc as).mono ?_
    rintro s ⟨hi, hd⟩
    rw [hd.destroyed]
    cases hx : s.child with
    | exited =>
      have hnew : c.creates = true := hi.created (by rw [hx]; simp)
      have hnone : ¬ (c.fails = true ∧ (c.evAt .exited).isSome = true) := by
        rintro ⟨hfails, hev⟩
        cases hcancel : c.launch.setcancelstate with
        | false => simp [Calls.evAt, hcancel] at hev
        | true =>
          simp only [Calls.evAt, hcancel, if_true] at hev
          simp [Calls.fails, hcancel, hev, hlock hnew hcancel hev] at hfails
      simp only [Calls.destroyedAt, Bool.and_eq_true, if_neg hnone]
      omega
    | earlyLock | prefail | earlyBroadcast | earlyUnlock | earlyDestroy =>
      simp only [Calls.destroyedAt]
      split <;> omega
    | _ => simp [Calls.destroyedAt]

theorem destroys_once_plain :
    Always (Spawn.step plainCalls) (fun s => s.destroyed ≤ 1) (spawnInit {}) plainRun :=
  (destroys_once_iff plainCalls_fresh fun _ _ => rfl).mpr (fun _ _ _ => rfl) plainRun

/-! ## It comes to an end -/

@[grind] def Child.rank : Child → Nat
  | unborn => 13
  | setcancelstate => 12
  | createEvhandler => 11
  | lock => 10
  | dropEvhandler | link => 9
  | started | earlyLock => 8
  | broadcast | prefail => 7
  | unlock | earlyBroadcast => 6
  | eventThread | earlyUnlock => 5
  | earlyDestroy => 4
  | exited => 0

/-- One who has been woken has yet to look again. -/
@[grind] def Parent.rank (sleeps : Bool) : Parent → Nat
  | begin => 12
  | attrDestroy => 11
  | lock => 10
  | check => 9
  | asleep => if sleeps then 8 else 10
  | read => 6
  | unlock => 5
  | condDestroy => 4
  | mutexDestroy => 3
  | join => 2
  | returned _ => 0

theorem Parent.rank_le (p : Parent) (sleeps sleeps' : Bool) :
    p.rank sleeps' ≤ p.rank sleeps + 2 := by
  cases p <;> cases sleeps <;> cases sleeps' <;> simp [Parent.rank]

def Spawn.measure (s : Spawn) : Nat :=
  3 * s.child.rank + s.parent.rank (decide (.parent ∈ s.monitor.sleepers))

section Ends
variable {c : Calls} {handlers : Handlers} {s t : Spawn}

theorem ParentMoves.measure_lt (hi : SpawnInv c s) (hm : ParentMoves c s t) :
    t.measure < s.measure := by
  have hawake := hi.awake
  unfold Spawn.measure
  cases hm with
  | begin hp =>
    rw [hi.begin hp]
    rcases createThread_cases c s.handlers with ⟨-, _, _, _, _, -, -, -, -, he⟩ | ⟨-, he⟩
    · rw [he]
      simp [spawnInit, Child.rank, Parent.rank]
    · rw [he]
      simp [spawnInit, Child.rank, Parent.rank]
  | _ => grind -linarith

theorem ChildMoves.measure_lt (hm : ChildMoves c s t) : t.measure < s.measure := by
  unfold Spawn.measure
  cases hm with
  | dropEvhandler hx | earlyDestroy hx =>
    obtain ⟨_, _, he⟩ := s.destroyEvhandler_frame
    rw [he]
    grind -linarith
  | broadcast hx | earlyBroadcast hx =>
    have hlook := s.parent.rank_le (decide (.parent ∈ s.monitor.sleepers)) false
    simp only [Monitor.broadcast, hx, Child.rank, Finset.notMem_empty, decide_false]
    omega
  | _ => grind -linarith

theorem OutsideMoves.measure_le (hm : OutsideMoves s t) : t.measure ≤ s.measure + 2 := by
  unfold Spawn.measure
  cases hm with
  | wake hsleeps =>
    have hlook := s.parent.rank_le (decide (.parent ∈ s.monitor.sleepers))
      (decide (.parent ∈ s.monitor.sleepers.erase .parent))
    dsimp only
    omega
  | exit => grind -linarith

theorem spawn_descends (hc : c.creates = true → c.fails = true → c.relock = true) :
    Descends (Spawn.step c) SpawnAct.outside Spawn.measure 2 (SpawnInv c) where
  inv hi h := hi.step hc h
  own {s a t} hi h ha := by
    cases a with
    | parent => exact (parentStep_cases h).measure_lt hi
    | child => exact (childStep_cases h).measure_lt
    | wake | exit => cases ha
  out {s a t} hi h ha := by
    rcases spawnStep_cases h with hm | hm | hm
    · exact Nat.le_add_right_of_le (hm.measure_lt hi).le
    · exact Nat.le_add_right_of_le hm.measure_lt.le
    · exact hm.measure_le

/-- The thread is about to wake its parent. -/
def Spawn.Owing (s : Spawn) : Prop := s.child = .broadcast ∨ s.child = .earlyBroadcast

/-- Nothing of this is done before there is a thread. -/
theorem createThread_frame (hi : SpawnInv c s) (hp : s.parent = .begin) :
    (createThread c s).monitor = s.monitor ∧ (createThread c s).status = s.status ∧
      s.child = .unborn := by
  rw [hi.begin hp]
  rcases createThread_cases c s.handlers with ⟨-, _, _, _, _, -, -, -, -, he⟩ | ⟨-, he⟩
  · rw [he]
    exact ⟨rfl, rfl, rfl⟩
  · rw [he]
    exact ⟨rfl, rfl, rfl⟩

/-- The parent sleeps only while there is nothing to be told. -/
theorem spawn_discipline : Monitor.Discipline (Spawn.step c) (SpawnInv c) Spawn.monitor
    (fun s => s.status ≠ .unlaunched) Spawn.Owing where
  sleeps {s a t} hi h hready := by
    rcases spawnStep_cases h with hm | hm | hm
    · cases hm with
      | begin hp => rw [(createThread_frame hi hp).1]
      | wait hp hs => exact absurd hs hready
      | _ => exact Finset.Subset.refl _
    · cases hm with
      | dropEvhandler | earlyDestroy =>
        obtain ⟨_, _, he⟩ := s.destroyEvhandler_frame
        rw [he]
      | broadcast | earlyBroadcast => exact Finset.empty_subset _
      | _ => exact Finset.Subset.refl _
    · cases hm with
      | wake => exact Finset.erase_subset _ _
      | exit => exact Finset.Subset.refl _
  readies {s a t} hi h hbefore hready := by
    rcases spawnStep_cases h with hm | hm | hm
    · cases hm with
      | begin hp =>
        rw [(createThread_frame hi hp).2.1] at hready
        exact absurd hready hbefore
      | _ => exact absurd hready hbefore
    · cases hm with
      | started => exact .inl (.inl rfl)
      | prefail => exact .inl (.inr rfl)
      | dropEvhandler | earlyDestroy =>
        obtain ⟨_, _, he⟩ := s.destroyEvhandler_frame
        rw [he] at hready
        exact absurd hready hbefore
      | _ => exact absurd hready hbefore
    · cases hm with
      | wake | exit => exact absurd hready hbefore
  wakes {s a t} hi h hready howing := by
    rcases spawnStep_cases h with hm | hm | hm
    · cases hm with
      | begin hp =>
        have hborn := (createThread_frame hi hp).2.2
        rcases howing with hx | hx <;> rw [hborn] at hx <;> cases hx
      | _ => exact .inl howing
    · cases hm with
      | broadcast | earlyBroadcast => exact .inr rfl
      | _ => rcases howing with hx | hx <;> simp_all
    · cases hm with
      | wake => exact .inl howing
      | exit hx => rcases howing with h' | h' <;> rw [hx] at h' <;> cases h'

/-- The thread goes on wherever it is, but for the locks and its event loop. -/
theorem childStep_enabled (hi : SpawnInv c s) (hd : SpawnData c handlers s)
    (hlive : s.child ≠ .unborn ∧ s.child ≠ .eventThread ∧ s.child ≠ .exited)
    (hfree : s.child = .lock ∨ s.child = .earlyLock → s.monitor.holder = none) :
    s.childStep c ≠ none := by
  have hheld := hi.childHolds.mp
  cases hx : s.child with
  | unborn | eventThread | exited => simp [hx] at hlive
  | createEvhandler =>
    simp only [Spawn.childStep, hx]
    cases c.launch.evhandler <;> simp
  | lock =>
    have hnone := hfree (.inl hx)
    cases hl : c.lock <;> simp [Spawn.childStep, hx, Monitor.lock, hnone, hl]
  | earlyLock =>
    have hnone := hfree (.inr hx)
    cases hl : c.relock <;> simp [Spawn.childStep, hx, Monitor.lock, hnone, hl]
  | link =>
    have hlead := hd.leadTo
    have hev := hd.ev
    simp only [hx, Calls.leadTo, Calls.fails, Bool.not_not, Bool.and_eq_true] at hlead
    simp only [hx, Calls.evAt, hlead.1.1, if_true] at hev
    obtain ⟨ev, hgiven⟩ := Option.isSome_iff_exists.mp hlead.1.2
    simp [Spawn.childStep, hx, hev, hgiven]
  | unlock =>
    have hself : s.monitor.holder = some .child := hheld (by rw [hx]; rfl)
    simp [Spawn.childStep, hx, Monitor.unlock, hself]
  | earlyUnlock =>
    have hself : s.monitor.holder = some .child := hheld (by rw [hx]; rfl)
    cases hl : c.relock <;> simp [Spawn.childStep, hx, Monitor.unlock, hself, hl]
  | _ => simp [Spawn.childStep, hx]

/-- When neither of the two can go on, `spawn_thread` has returned, or it has
failed after the thread was started, and waits for that thread to exit. -/
theorem spawn_rests (hi : SpawnInv c s) (hd : SpawnData c handlers s)
    (hr : Monitor.Remembered Spawn.monitor (fun s => s.status ≠ .unlaunched) Spawn.Owing s)
    (hrest : AtRest (Spawn.step c) SpawnAct.outside s) :
    (∃ f, s.parent = .returned f) ∨ (s.parent = .join ∧ s.child = .eventThread) := by
  have hparent : s.parentStep c = none := hrest .parent rfl
  have hchild : s.childStep c = none := hrest .child rfl
  -- who does not hold the lock waits for the other, or for nobody
  have hfree : s.parent.holds = false → s.monitor.holder = none := by
    intro hp
    cases hh : s.monitor.holder with
    | none => rfl
    | some r =>
      cases r with
      | parent =>
        rw [hi.parentHolds.mpr hh] at hp
        cases hp
      | child =>
        have hx : s.child.holds = true := hi.childHolds.mpr hh
        refine absurd hchild (childStep_enabled hi hd ?_ ?_)
        · refine ⟨?_, ?_, ?_⟩ <;> intro h <;> rw [h] at hx <;> cases hx
        · rintro (h | h) <;> rw [h] at hx <;> cases hx
  cases hp : s.parent with
  | returned f => exact .inl ⟨f, rfl⟩
  | lock => simp [Spawn.parentStep, hp, Monitor.lock, hfree (by rw [hp]; rfl)] at hparent
  | check =>
    have hself : s.monitor.holder = some .parent := hi.parentHolds.mp (by rw [hp]; rfl)
    simp only [Spawn.parentStep, hp, Monitor.wait, hself, if_true, Option.map_some] at hparent
    split at hparent <;> cases hparent
  | unlock =>
    have hself : s.monitor.holder = some .parent := hi.parentHolds.mp (by rw [hp]; rfl)
    simp [Spawn.parentStep, hp, Monitor.unlock, hself] at hparent
  | asleep =>
    have hnone : s.monitor.holder = none := hfree (by rw [hp]; rfl)
    have hsleeps : .parent ∈ s.monitor.sleepers := by
      by_contra hawake
      simp [Spawn.parentStep, hp, Monitor.relock, hawake, Monitor.lock, hnone] at hparent
    have hborn : s.child ≠ .unborn := by
      intro hx
      rcases hi.unborn hx with h | h <;> rw [hp] at h <;> cases h
    refine absurd hchild (childStep_enabled hi hd ⟨hborn, ?_, ?_⟩ fun _ => hnone)
    -- a thread that has gone on has told, and then it has woken its parent
    all_goals
      intro hx
      have htold : s.status ≠ .unlaunched := by
        intro hs
        have huntold := hi.told.mp hs
        rw [hx] at huntold
        cases huntold
      rcases hr htold ⟨_, hsleeps⟩ with h | h <;> rw [hx] at h <;> cases h
  | join =>
    right
    refine ⟨rfl, ?_⟩
    have hborn : s.child ≠ .unborn := by
      intro hx
      rcases hi.unborn hx with h | h <;> rw [hp] at h <;> cases h
    have hout : s.child ≠ .exited := by
      intro hx
      simp [Spawn.parentStep, hp, hx] at hparent
    by_contra hloop
    have hnone : s.monitor.holder = none := hfree (by rw [hp]; rfl)
    exact childStep_enabled hi hd ⟨hborn, hloop, hout⟩ (fun _ => hnone) hchild
  | _ => simp [Spawn.parentStep, hp] at hparent

end Ends

/-- A run of `spawn_thread` takes only so many steps besides those at which the
parent wakes up of itself or the thread's event loop ends; one that cannot go on
has returned, unless the parent, which could not destroy what it had made, waits
for a thread that runs; and from everywhere it can go on to there. -/
theorem spawn_ends {c : Calls} {handlers : Handlers} (hf : c.Fresh handlers)
    (hc : c.creates = true → c.fails = true → c.relock = true) {as : List SpawnAct} {t : Spawn}
    (hrun : exec (Spawn.step c) (spawnInit handlers) as = some t) :
    as.countP (fun a => !a.outside) ≤ 51 + 2 * as.countP SpawnAct.outside ∧
      (AtRest (Spawn.step c) SpawnAct.outside t →
        (∃ f, t.parent = .returned f) ∨ (t.parent = .join ∧ t.child = .eventThread)) ∧
      ∃ bs u, (∀ b ∈ bs, b.outside = false) ∧ exec (Spawn.step c) t bs = some u ∧
        AtRest (Spawn.step c) SpawnAct.outside u := by
  have hdesc := spawn_descends hc
  have hi : SpawnInv c t := (spawn_always hf hc as).last hrun |>.1
  refine ⟨?_, ?_, hdesc.rests hi⟩
  · have hbound := hdesc.bounded (spawnInit_inv c handlers) hrun
    have hstart : (spawnInit handlers).measure = 51 := by
      simp [Spawn.measure, spawnInit, Child.rank, Parent.rank]
    omega
  · have hr := spawn_discipline.always (fun _ _ _ hi h => hi.step hc h)
      (spawnInit_inv c handlers) (fun hready => absurd rfl hready) as
    exact spawn_rests hi ((spawn_always hf hc as).last hrun).2 (hr.last hrun).2

theorem spawn_ends_plain : ∃ t, exec (Spawn.step plainCalls) (spawnInit {}) plainRun = some t ∧
    plainRun.countP (fun a => !a.outside) ≤ 51 + 2 * plainRun.countP SpawnAct.outside := by
  obtain ⟨t, hrun⟩ : ∃ t, exec (Spawn.step plainCalls) (spawnInit {}) plainRun = some t :=
    ⟨_, rfl⟩
  exact ⟨t, hrun, (spawn_ends plainCalls_fresh (fun _ _ => rfl) hrun).1⟩

end Libtorque.Schedule
