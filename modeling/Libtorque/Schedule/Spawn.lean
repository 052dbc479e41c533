import Mathlib.Data.List.Basic
import Mathlib.Logic.Function.Basic

/-! # The ring of event threads: `thread` as started by `spawn_thread`

Each event thread's handler holds the id of the thread it is to signal and
join at termination. The threads are numbered in the order they are started. -/
namespace Libtorque.Schedule

/-- `ctx->ev`, as the thread whose handler it is, and the `nexttid` of every
thread's handler. -/
structure Threads where
  ev : Option Nat := none
  nexttid : Nat → Nat := fun _ => 0

/-- The part of `thread` under `marshal->lock`: thread `self` enters the ring. -/
def threadLink (s : Threads) (self : Nat) : Threads :=
  match s.ev with
  | none => { ev := some self, nexttid := Function.update s.nexttid self self }
  | some leader =>
    let nexttid := Function.update s.nexttid self (s.nexttid leader)
    { s with nexttid := Function.update nexttid leader self }

/-- `n` threads started one after another. -/
def spawnThreads (n : Nat) : Threads := (List.range n).foldl threadLink {}

/-- The thread that `ctx->ev->nexttid` names. -/
def Threads.joinTarget (s : Threads) : Nat := s.nexttid (s.ev.getD 0)

theorem spawnThreads_succ (n : Nat) :
    spawnThreads (n + 1) = threadLink (spawnThreads n) n := by
  simp [spawnThreads, List.range_succ]

theorem threadLink_some {s : Threads} {leader : Nat} (h : s.ev = some leader) (self : Nat) :
    threadLink s self =
      { s with
        nexttid := Function.update (Function.update s.nexttid self (s.nexttid leader)) leader
          self } := by
  simp [threadLink, h]

/-- The first thread leads; its next is the last one started, and every other
thread's next is the one started before it. -/
theorem spawnThreads_ring (m : Nat) :
    (spawnThreads (m + 1)).ev = some 0 ∧ (spawnThreads (m + 1)).nexttid 0 = m ∧
      ∀ i < m, (spawnThreads (m + 1)).nexttid (i + 1) = i := by
  induction m with
  | zero => simp [spawnThreads, threadLink]
  | succ m ih =>
    obtain ⟨hev, h0, hi⟩ := ih
    rw [spawnThreads_succ, threadLink_some hev]
    refine ⟨hev, by simp, fun i him => ?_⟩
    dsimp only
    rw [Function.update_of_ne (Nat.succ_ne_zero i), h0]
    by_cases h : i = m
    · rw [h, Function.update_self]
    · rw [Function.update_of_ne (by omega)]
      exact hi i (by omega)

@[simp] theorem joinTarget_spawnThreads (m : Nat) :
    (spawnThreads (m + 1)).joinTarget = m := by
  obtain ⟨hev, h0, _⟩ := spawnThreads_ring m
  simp [Threads.joinTarget, hev, h0]

end Libtorque.Schedule
