import Libtorque.Lib.Join
import Libtorque.Lib.Lts
import Libtorque.Schedule.Spawn

/-! # Termination: `rxcommonsignal` around the ring, `torque_stop`, `torque_block`

A thread that takes SIGTERM signals its next thread, joins it, destroys its own
handler and exits. The controlling thread of `torque_stop` sends the signal to
the process and joins `ctx->ev->nexttid`; that of `torque_block` is waiting in
this join already. Both go on to `free_torque_ctx` whatever the join returned. -/
namespace Libtorque.Schedule
open Libtorque.Lib

/-- Where an event thread is: in its event loop, or at a step of
`rxcommonsignal`. -/
inductive Phase where
  | running
  | killing
  | joining
  | waiting
  | destroying
  | exiting
  | exited
deriving DecidableEq, Repr

/-- Where the controlling thread is; `free` is the call of `free_torque_ctx`. -/
inductive Control where
  | kill
  | join
  | waiting
  | free
deriving DecidableEq, Repr

inductive Party where
  | control
  | event (i : Nat)
deriving DecidableEq, Repr

/-- `pending i`: SIGTERM is directed to thread `i`; `procPending`: to the
process, for any one thread to take. -/
structure Shutdown where
  control : Control
  phase : Nat → Phase := fun _ => .running
  pending : Nat → Bool := fun _ => false
  procPending : Bool := false

inductive Act where
  | deliver (i : Nat)
  | kill
  | ctlJoin
  | ctlJoined
  | take (i : Nat)
  | signalNext (i : Nat)
  | join (i : Nat)
  | joined (i : Nat)
  | destroy (i : Nat)
  | exit (i : Nat)
deriving DecidableEq, Repr

/-- A step of the program, not a signal from outside. -/
def Act.program : Act → Bool
  | .deliver _ => false
  | _ => true

section Steps
variable (n : Nat)

def nexttid (i : Nat) : Nat := (spawnThreads n).nexttid i

def joinTarget : Nat := (spawnThreads n).joinTarget

def parties : List Party := .control :: (List.range n).map .event

/-- Whose exit a party is waiting for. -/
def Shutdown.waitsFor (s : Shutdown) : Party → Option Party
  | .control => if s.control = .waiting then some (.event (joinTarget n)) else none
  | .event i => if i < n ∧ s.phase i = .waiting then some (.event (nexttid n i)) else none

def Shutdown.setPhase (s : Shutdown) (i : Nat) (p : Phase) : Shutdown :=
  { s with phase := Function.update s.phase i p }

def Shutdown.setPending (s : Shutdown) (i : Nat) (b : Bool) : Shutdown :=
  { s with pending := Function.update s.pending i b }

/-- One step, with `n` event threads. -/
def Shutdown.step (s : Shutdown) : Act → Option Shutdown
  | .deliver i => if i < n then some (s.setPending i true) else none
  | .kill =>
    if s.control = .kill then some { s with control := .join, procPending := true } else none
  | .ctlJoin =>
    if s.control = .join then
      match pthreadJoin (s.waitsFor n) (parties n) .control (.event (joinTarget n)) with
      | .wait => some { s with control := .waiting }
      -- `block_thread` returns -1, and `torque_stop` frees the context all the same
      | _ => some { s with control := .free }
    else none
  | .ctlJoined =>
    if s.control = .waiting ∧ s.phase (joinTarget n) = .exited then
      some { s with control := .free }
    else none
  | .take i =>
    if i < n ∧ s.phase i = .running then
      if s.pending i then some ((s.setPending i false).setPhase i .killing)
      else if s.procPending then
        some { s.setPhase i .killing with procPending := false }
      else none
    else none
  | .signalNext i =>
    if i < n ∧ s.phase i = .killing then
      some ((s.setPending (nexttid n i) true).setPhase i .joining)
    else none
  | .join i =>
    if i < n ∧ s.phase i = .joining then
      match pthreadJoin (s.waitsFor n) (parties n) (.event i) (.event (nexttid n i)) with
      | .wait => some (s.setPhase i .waiting)
      | _ => some (s.setPhase i .destroying)
    else none
  | .joined i =>
    if i < n ∧ s.phase i = .waiting ∧ s.phase (nexttid n i) = .exited then
      some (s.setPhase i .destroying)
    else none
  | .destroy i =>
    if i < n ∧ s.phase i = .destroying then some (s.setPhase i .exiting) else none
  | .exit i => if i < n ∧ s.phase i = .exiting then some (s.setPhase i .exited) else none

end Steps

/-- `torque_stop` is about to send the signal. -/
def stopInit : Shutdown := { control := .kill }

/-- `torque_block` is waiting in its join. -/
def blockInit : Shutdown := { control := .waiting }

def Shutdown.AllExited (n : Nat) (s : Shutdown) : Prop := ∀ i < n, s.phase i = .exited

/-- The context is freed only once every event thread has exited. -/
def Shutdown.FreesLast (n : Nat) (s : Shutdown) : Prop := s.control = .free → s.AllExited n

/-- SIGTERM has reached thread `i`, if only its signal queue. -/
def Shutdown.Signalled (s : Shutdown) (i : Nat) : Prop :=
  s.pending i = true ∨ s.phase i ≠ .running

/-- Once some thread has been signalled, the program has a step until all have
exited. -/
def Shutdown.NoDeadlock (n : Nat) (s : Shutdown) : Prop :=
  (∃ i < n, s.Signalled i) → ¬ s.AllExited n → ∃ a : Act, a.program ∧ (s.step n a).isSome

/-- When the controlling thread calls `pthread_join`, the leader (thread 0) is
not blocked joining the same thread, and that thread has not exited ahead of
the leader. -/
def JoinInTime (n : Nat) (s : Shutdown) (a : Act) : Prop :=
  a = .ctlJoin →
    s.phase 0 ≠ .waiting ∧ (s.phase (joinTarget n) = .exited → s.phase 0 = .exited)

instance (n : Nat) (s : Shutdown) : Decidable (s.AllExited n) :=
  inferInstanceAs (Decidable (∀ i < n, s.phase i = .exited))

instance (n : Nat) (s : Shutdown) : Decidable (s.FreesLast n) :=
  inferInstanceAs (Decidable (s.control = .free → s.AllExited n))

instance (n : Nat) (s : Shutdown) (a : Act) : Decidable (JoinInTime n s a) :=
  inferInstanceAs (Decidable (a = .ctlJoin →
    s.phase 0 ≠ .waiting ∧ (s.phase (joinTarget n) = .exited → s.phase 0 = .exited)))

/-! ## What a step does -/

/-- How thread `i` moves on. -/
inductive Moves (n : Nat) (s : Shutdown) (i : Nat) : Phase → Prop
  | take : s.phase i = .running → Moves n s i .killing
  | signalNext : s.phase i = .killing → Moves n s i .joining
  | join : s.phase i = .joining →
      pthreadJoin (s.waitsFor n) (parties n) (.event i) (.event (nexttid n i)) = .wait →
      Moves n s i .waiting
  | joinFails : s.phase i = .joining →
      pthreadJoin (s.waitsFor n) (parties n) (.event i) (.event (nexttid n i)) ≠ .wait →
      Moves n s i .destroying
  | joined : s.phase i = .waiting → s.phase (nexttid n i) = .exited → Moves n s i .destroying
  | destroy : s.phase i = .destroying → Moves n s i .exiting
  | exit : s.phase i = .exiting → Moves n s i .exited

/-- How the controlling thread moves on. -/
inductive CtlMoves (n : Nat) (s : Shutdown) : Act → Control → Prop
  | kill : s.control = .kill → CtlMoves n s .kill .join
  | join : s.control = .join →
      pthreadJoin (s.waitsFor n) (parties n) .control (.event (joinTarget n)) = .wait →
      CtlMoves n s .ctlJoin .waiting
  | joinFails : s.control = .join →
      pthreadJoin (s.waitsFor n) (parties n) .control (.event (joinTarget n)) ≠ .wait →
      CtlMoves n s .ctlJoin .free
  | joined : s.control = .waiting → s.phase (joinTarget n) = .exited →
      CtlMoves n s .ctlJoined .free

theorem step_cases {n : Nat} {s t : Shutdown} {a : Act} (h : s.step n a = some t) :
    (t.phase = s.phase ∧ t.control = s.control ∧ ∃ i, t.pending = Function.update s.pending i true) ∨
    (t.phase = s.phase ∧ t.pending = s.pending ∧ CtlMoves n s a t.control) ∨
    (∃ i p, i < n ∧ Moves n s i p ∧ t.phase = Function.update s.phase i p ∧
      t.control = s.control ∧ (∀ j, j ≠ i → s.pending j → t.pending j) ∧
      (p ≠ .killing → s.pending i → t.pending i) ∧ (p = .joining → t.pending (nexttid n i))) := by
  cases a with
  | deliver i =>
    simp only [Shutdown.step] at h
    split at h <;> cases h
    exact .inl ⟨rfl, rfl, i, rfl⟩
  | kill =>
    simp only [Shutdown.step] at h
    split at h <;> cases h
    exact .inr (.inl ⟨rfl, rfl, .kill ‹_›⟩)
  | ctlJoin =>
    simp only [Shutdown.step] at h
    split at h
    · split at h
      · cases h; exact .inr (.inl ⟨rfl, rfl, .join ‹_› ‹_›⟩)
      · cases h; exact .inr (.inl ⟨rfl, rfl, .joinFails ‹_› ‹_›⟩)
    · cases h
  | ctlJoined =>
    simp only [Shutdown.step] at h
    split at h
    · rename_i hc
      cases h; exact .inr (.inl ⟨rfl, rfl, .joined hc.1 hc.2⟩)
    · cases h
  | take i =>
    simp only [Shutdown.step] at h
    split at h
    · rename_i hc
      split at h
      · cases h
        exact .inr (.inr ⟨i, _, hc.1, .take hc.2, rfl, rfl,
          fun j hj hp => by simpa [Shutdown.setPhase, Shutdown.setPending, hj] using hp,
          fun hk => absurd rfl hk, nofun⟩)
      · split at h <;> cases h
        exact .inr (.inr ⟨i, _, hc.1, .take hc.2, rfl, rfl, fun _ _ hp => hp, fun _ hp => hp,
          nofun⟩)
    · cases h
  | signalNext i =>
    simp only [Shutdown.step] at h
    split at h
    · rename_i hc
      cases h
      have hmono : ∀ j, s.pending j →
          ((s.setPending (nexttid n i) true).setPhase i .joining).pending j := by
        intro j hp
        by_cases hj : j = nexttid n i <;>
          simp [Shutdown.setPhase, Shutdown.setPending, hj, hp]
      exact .inr (.inr ⟨i, _, hc.1, .signalNext hc.2, rfl, rfl, fun j _ => hmono j,
        fun _ => hmono i, fun _ => by simp [Shutdown.setPhase, Shutdown.setPending]⟩)
    · cases h
  | join i =>
    simp only [Shutdown.step] at h
    split at h
    · rename_i hc
      split at h
      · cases h
        exact .inr (.inr ⟨i, _, hc.1, .join hc.2 ‹_›, rfl, rfl, fun _ _ hp => hp,
          fun _ hp => hp, nofun⟩)
      · cases h
        exact .inr (.inr ⟨i, _, hc.1, .joinFails hc.2 ‹_›, rfl, rfl, fun _ _ hp => hp,
          fun _ hp => hp, nofun⟩)
    · cases h
  | joined i =>
    simp only [Shutdown.step] at h
    split at h
    · rename_i hc
      cases h
      exact .inr (.inr ⟨i, _, hc.1, .joined hc.2.1 hc.2.2, rfl, rfl, fun _ _ hp => hp,
        fun _ hp => hp, nofun⟩)
    · cases h
  | destroy i =>
    simp only [Shutdown.step] at h
    split at h
    · rename_i hc
      cases h
      exact .inr (.inr ⟨i, _, hc.1, .destroy hc.2, rfl, rfl, fun _ _ hp => hp, fun _ hp => hp,
        nofun⟩)
    · cases h
  | exit i =>
    simp only [Shutdown.step] at h
    split at h
    · rename_i hc
      cases h
      exact .inr (.inr ⟨i, _, hc.1, .exit hc.2, rfl, rfl, fun _ _ hp => hp, fun _ hp => hp,
        nofun⟩)
    · cases h

theorem Moves.not_exited {n : Nat} {s : Shutdown} {i : Nat} {p : Phase} (h : Moves n s i p) :
    s.phase i ≠ .exited := by
  cases h <;> simp_all

/-! ## The chain of joins -/

/-- The join of `rxcommonsignal` is over. -/
def Phase.pastJoin : Phase → Bool
  | .destroying | .exiting | .exited => true
  | _ => false

section Ring
variable {m : Nat} {s t : Shutdown}

theorem nexttid_zero : nexttid (m + 1) 0 = m := (spawnThreads_ring m).2.1

theorem nexttid_succ {i : Nat} (h : i < m) : nexttid (m + 1) (i + 1) = i :=
  (spawnThreads_ring m).2.2 i h

theorem joinTarget_eq : joinTarget (m + 1) = m := joinTarget_spawnThreads m

/-- From thread `l` on, a thread whose join is over has seen the next one exit. -/
def ChainFrom (m l : Nat) (s : Shutdown) : Prop :=
  ∀ i, l ≤ i → i < m → (s.phase (i + 1)).pastJoin → s.phase i = .exited

theorem chain_exited {l : Nat} (hc : ChainFrom m l s) (hm : s.phase m = .exited) :
    ∀ i, l ≤ i → i ≤ m → s.phase i = .exited := by
  intro i hl hi
  obtain ⟨k, rfl⟩ := Nat.exists_eq_add_of_le hi
  induction k generalizing i with
  | zero => exact hm
  | succ k ih =>
    refine hc i hl (by omega) ?_
    rw [ih (i + 1) (by omega)
      (by rw [show i + 1 + k = i + (k + 1) by omega]; exact hc)
      (by rw [show i + 1 + k = i + (k + 1) by omega]; exact hm) (by omega)]
    rfl

/-- Only the leader and the controlling thread join the last thread. -/
theorem waitsFor_eq {p : Party} {i : Nat} (h : s.waitsFor (m + 1) p = some (.event i)) :
    (p = .control ∧ s.control = .waiting ∧ i = m) ∨
      (p = .event 0 ∧ s.phase 0 = .waiting ∧ i = m) ∨
      (p = .event (i + 1) ∧ s.phase (i + 1) = .waiting ∧ i < m) := by
  cases p with
  | control =>
    simp only [Shutdown.waitsFor, joinTarget_eq] at h
    split at h <;> simp_all
  | event j =>
    simp only [Shutdown.waitsFor] at h
    split at h
    · rename_i hj
      simp only [Option.some.injEq, Party.event.injEq] at h
      cases j with
      | zero =>
        rw [nexttid_zero] at h
        exact .inr (.inl ⟨rfl, hj.2, h.symm⟩)
      | succ j =>
        rw [nexttid_succ (by omega)] at h
        subst h
        exact .inr (.inr ⟨rfl, hj.2, by omega⟩)
    · cases h

/-- A thread other than the leader waits in its join, for the thread started
before it: nobody else joins that one. -/
theorem join_waits {i : Nat} (hi : i < m) (hp : s.phase (i + 1) = .joining)
    (h0 : i = 0 → s.phase 0 ≠ .waiting) :
    pthreadJoin (s.waitsFor (m + 1)) (parties (m + 1)) (.event (i + 1))
      (.event (nexttid (m + 1) (i + 1))) = .wait := by
  rw [nexttid_succ hi]
  apply pthreadJoin_free
  · simp
  · intro hw
    rcases waitsFor_eq hw with ⟨h, -, -⟩ | ⟨h, hw0, -⟩ | ⟨h, -, -⟩
    · cases h
    · cases h; exact h0 rfl hw0
    · simp only [Party.event.injEq] at h; omega
  · intro p _ hw
    rcases waitsFor_eq hw with ⟨-, -, h⟩ | ⟨-, -, h⟩ | ⟨-, h, -⟩
    · omega
    · omega
    · rw [hp] at h; cases h

/-- The leader's join fails while the controlling thread waits for the same
thread, and always when it is the only thread. -/
theorem leader_join_fails (h : m = 0 ∨ s.control = .waiting) :
    pthreadJoin (s.waitsFor (m + 1)) (parties (m + 1)) (.event 0)
      (.event (nexttid (m + 1) 0)) ≠ .wait := by
  rw [nexttid_zero]
  rcases h with rfl | h
  · rw [pthreadJoin_self]; simp
  · exact pthreadJoin_taken (p := .control) (by simp [parties])
      (by simp [Shutdown.waitsFor, h, joinTarget_eq])

/-- The controlling thread waits in its join unless the leader does already. -/
theorem control_join_waits (hc : s.control = .join) (h0 : s.phase 0 ≠ .waiting) :
    pthreadJoin (s.waitsFor (m + 1)) (parties (m + 1)) .control
      (.event (joinTarget (m + 1))) = .wait := by
  rw [joinTarget_eq]
  apply pthreadJoin_free
  · simp
  · intro hw
    simp only [Shutdown.waitsFor] at hw
    split at hw <;> simp at hw
  · intro p _ hw
    rcases waitsFor_eq hw with ⟨-, h, -⟩ | ⟨-, h, -⟩ | ⟨-, -, h⟩
    · rw [hc] at h; cases h
    · exact h0 h
    · omega

/-- A thread moving on keeps the chain, provided the leader is not waiting
where the chain includes it. -/
theorem ChainFrom.move {l k : Nat} {p : Phase} (hc : ChainFrom m l s)
    (h0 : l = 0 → s.phase 0 ≠ .waiting) (hm : Moves (m + 1) s k p)
    (ht : t.phase = Function.update s.phase k p) : ChainFrom m l t := by
  intro i hl hi hpast
  rw [ht] at hpast ⊢
  by_cases hk : k = i + 1
  · subst hk
    rw [Function.update_self] at hpast
    rw [Function.update_of_ne (by omega)]
    cases hm with
    | take h => cases hpast
    | signalNext h => cases hpast
    | join h _ => cases hpast
    | joinFails h hf => exact absurd (join_waits hi h (fun hi0 => h0 (by omega))) hf
    | joined h hx => rwa [nexttid_succ hi] at hx
    | destroy h => exact hc i hl hi (by rw [h]; rfl)
    | exit h => exact hc i hl hi (by rw [h]; rfl)
  · rw [Function.update_of_ne (Ne.symm hk)] at hpast
    have hx := hc i hl hi hpast
    by_cases hki : k = i
    · subst hki
      exact absurd hx hm.not_exited
    · rwa [Function.update_of_ne (Ne.symm hki)]

/-- What holds at each place of the controlling thread, if it joins in time. -/
def RingInv (m : Nat) (s : Shutdown) : Prop :=
  match s.control with
  | .kill | .join =>
    ChainFrom m 1 s ∧ (s.phase 0 ≠ .waiting → s.phase m ≠ .exited → ChainFrom m 0 s)
  | .waiting => s.phase 0 ≠ .waiting ∧ ChainFrom m 0 s
  | .free => s.AllExited (m + 1)

/-- An event thread's move keeps the invariant. -/
theorem ringInv_move {k : Nat} {p : Phase} (hs : RingInv m s) (hk : k < m + 1)
    (hm : Moves (m + 1) s k p) (ht : t.phase = Function.update s.phase k p)
    (hct : t.control = s.control) : RingInv m t := by
  unfold RingInv at hs ⊢
  rw [hct]
  have before (hs : ChainFrom m 1 s ∧
      (s.phase 0 ≠ .waiting → s.phase m ≠ .exited → ChainFrom m 0 s)) :
      ChainFrom m 1 t ∧ (t.phase 0 ≠ .waiting → t.phase m ≠ .exited → ChainFrom m 0 t) := by
    refine ⟨hs.1.move (by simp) hm ht, fun h0 hx => ?_⟩
    have hxs : s.phase m ≠ .exited := by
      intro hxs
      apply hx
      rw [ht, Function.update_of_ne (by rintro rfl; exact hm.not_exited hxs)]
      exact hxs
    have h0s : s.phase 0 ≠ .waiting := by
      intro h0s
      -- a waiting leader only stops waiting when the last thread has exited
      by_cases hk0 : k = 0
      · subst hk0
        cases hm with
        | joined _ hx => rw [nexttid_zero] at hx; exact hxs hx
        | _ => simp_all
      · rw [ht, Function.update_of_ne (Ne.symm hk0)] at h0
        exact h0 h0s
    exact (hs.2 h0s hxs).move (fun _ => h0s) hm ht
  cases hc : s.control with
  | kill => rw [hc] at hs; exact before hs
  | join => rw [hc] at hs; exact before hs
  | waiting =>
    rw [hc] at hs
    refine ⟨?_, hs.2.move (fun _ => hs.1) hm ht⟩
    rw [ht]
    by_cases hk0 : k = 0
    · subst hk0
      rw [Function.update_self]
      cases hm with
      | join _ hw => exact absurd hw (leader_join_fails (.inr hc))
      | _ => simp
    · rw [Function.update_of_ne (Ne.symm hk0)]
      exact hs.1
  | free =>
    rw [hc] at hs
    exact absurd (hs k hk) hm.not_exited

/-- The controlling thread's move keeps the invariant, if its join is in time. -/
theorem ringInv_control {a : Act} (hs : RingInv m s) (hj : JoinInTime (m + 1) s a)
    (hm : CtlMoves (m + 1) s a t.control) (ht : t.phase = s.phase) : RingInv m t := by
  have hchain (l : Nat) (h : ChainFrom m l s) : ChainFrom m l t := by
    intro i hl hi hp
    rw [ht] at hp ⊢
    exact h i hl hi hp
  unfold RingInv at hs ⊢
  generalize hct : t.control = c at hm ⊢
  cases hm with
  | kill hc =>
    rw [hc] at hs
    exact ⟨hchain 1 hs.1, fun h0 hx => hchain 0 (hs.2 (ht ▸ h0) (ht ▸ hx))⟩
  | join hc _ =>
    rw [hc] at hs
    obtain ⟨h0, hx⟩ := hj rfl
    refine ⟨ht ▸ h0, hchain 0 ?_⟩
    by_cases hmx : s.phase m = .exited
    · rw [joinTarget_eq] at hx
      intro i _ hi _
      rcases Nat.eq_zero_or_pos i with rfl | hpos
      · exact hx hmx
      · exact chain_exited hs.1 hmx i hpos (Nat.le_of_lt hi)
    · exact hs.2 h0 hmx
  | joinFails hc hf => exact absurd (control_join_waits hc (hj rfl).1) hf
  | joined hc hx =>
    rw [hc] at hs
    rw [joinTarget_eq] at hx
    intro i hi
    rw [ht]
    exact chain_exited hs.2 hx i (Nat.zero_le i) (by omega)

theorem ringInv_step {a : Act} (hs : RingInv m s) (hj : JoinInTime (m + 1) s a)
    (h : s.step (m + 1) a = some t) : RingInv m t := by
  rcases step_cases h with ⟨hp, hc, -⟩ | ⟨hp, -, hm⟩ | ⟨k, p, hk, hm, ht, hc, -⟩
  · unfold RingInv ChainFrom Shutdown.AllExited at hs ⊢
    rw [hp, hc]
    exact hs
  · exact ringInv_control hs hj hm hp
  · exact ringInv_move hs hk hm ht hc

theorem RingInv.freesLast (h : RingInv m s) : s.FreesLast (m + 1) := by
  intro hc
  unfold RingInv at h
  rwa [hc] at h

theorem ringInv_stopInit : RingInv m stopInit :=
  ⟨fun _ _ _ hp => (nomatch hp), fun _ _ _ _ _ hp => (nomatch hp)⟩

theorem ringInv_blockInit : RingInv m blockInit :=
  ⟨nofun, fun _ _ _ hp => (nomatch hp)⟩

/-! ## `torque_stop` -/

/-- Of the exit of the leader and the join of the controlling thread: the
leader is not blocked in a join of the same thread when the call is made, and
has exited by the time it returns. -/
def LeaderInTime (s : Shutdown) (a : Act) : Prop :=
  (a = .ctlJoin → s.phase 0 ≠ .waiting) ∧ (a = .ctlJoined → s.phase 0 = .exited)

theorem leaderInTime_of_freesLast {a : Act} (h : s.step (m + 1) a = some t)
    (ht : t.FreesLast (m + 1)) : LeaderInTime s a := by
  constructor
  · rintro rfl h0
    simp only [Shutdown.step] at h
    split at h
    · split at h <;> rename_i hw
      · refine absurd hw (pthreadJoin_taken (p := .event 0) (by simp [parties]) ?_)
        simp [Shutdown.waitsFor, h0, joinTarget_eq, nexttid_zero]
      · cases h
        have := ht rfl 0 (Nat.succ_pos m)
        rw [h0] at this
        cases this
    · cases h
  · rintro rfl
    simp only [Shutdown.step] at h
    split at h
    · cases h
      exact ht rfl 0 (Nat.succ_pos m)
    · cases h

theorem freesLast_step {a : Act} (hs : ChainFrom m 1 s ∧ s.FreesLast (m + 1))
    (hl : LeaderInTime s a) (h : s.step (m + 1) a = some t) :
    ChainFrom m 1 t ∧ t.FreesLast (m + 1) := by
  obtain ⟨hc, hf⟩ := hs
  rcases step_cases h with ⟨hp, hct, -⟩ | ⟨hp, -, hm⟩ | ⟨k, p, hk, hm, ht, hct, -⟩
  · unfold ChainFrom Shutdown.FreesLast Shutdown.AllExited at *
    rw [hp, hct]
    exact ⟨hc, hf⟩
  · refine ⟨?_, fun hfree i hi => ?_⟩
    · unfold ChainFrom
      rw [hp]
      exact hc
    · rw [hp]
      rw [hfree] at hm
      cases hm with
      | joinFails hj hf => exact absurd (control_join_waits hj (hl.1 rfl)) hf
      | joined _ hx =>
        rw [joinTarget_eq] at hx
        rcases Nat.eq_zero_or_pos i with rfl | hpos
        · exact hl.2 rfl
        · exact chain_exited hc hx i hpos (Nat.le_of_lt_succ hi)
  · refine ⟨hc.move (by simp) hm ht, fun hfree => ?_⟩
    rw [hct] at hfree
    exact absurd (hf hfree k hk) hm.not_exited

/-- `torque_stop` frees the context last exactly in the runs in which the
leader is in time. -/
theorem torqueStop_frees_last_iff (m : Nat) (acts : List Act) :
    Always (Shutdown.step (m + 1)) (Shutdown.FreesLast (m + 1)) stopInit acts ↔
      Meets (Shutdown.step (m + 1)) LeaderInTime stopInit acts := by
  constructor
  · intro h
    exact h.meets fun _ _ _ hstep _ ht => leaderInTime_of_freesLast hstep ht
  · intro h
    have hinit : ChainFrom m 1 stopInit ∧ stopInit.FreesLast (m + 1) :=
      ⟨fun _ _ _ hp => (nomatch hp), nofun⟩
    exact (always_of_meets (fun _ _ _ hs hl hstep => freesLast_step hs hl hstep) hinit h).mono
      fun _ hs => hs.2

/-- The leader takes the signal and joins the last thread first: the
controlling thread's join fails and the context is freed at once. -/
theorem torqueStop_frees_early :
    ¬ Always (Shutdown.step 2) (Shutdown.FreesLast 2) stopInit
      [.kill, .take 0, .signalNext 0, .join 0, .ctlJoin] := by
  decide

/-- It is enough that the controlling thread joins before the leader does. -/
theorem torqueStop_frees_last_of_joinInTime (acts : List Act)
    (hj : Meets (Shutdown.step (m + 1)) (JoinInTime (m + 1)) stopInit acts) :
    Always (Shutdown.step (m + 1)) (Shutdown.FreesLast (m + 1)) stopInit acts :=
  (always_of_meets (fun _ _ _ hs hc h => ringInv_step hs hc h) ringInv_stopInit hj).mono
    fun _ => RingInv.freesLast

/-! ## `torque_block` -/

/-- `rxcommonsignal` has signalled the next thread. -/
def Phase.pastSignal : Phase → Bool
  | .running | .killing => false
  | _ => true

/-- The signal has been handed on to the thread after every one that got that far. -/
def SignalInv (m : Nat) (s : Shutdown) : Prop :=
  ∀ i < m + 1, (s.phase i).pastSignal → s.Signalled (nexttid (m + 1) i)

theorem signalled_step {n : Nat} {a : Act} (h : s.step n a = some t) {j : Nat}
    (hs : s.Signalled j) : t.Signalled j := by
  unfold Shutdown.Signalled at hs ⊢
  rcases step_cases h with ⟨hp, -, i, hi⟩ | ⟨hp, hq, -⟩ | ⟨i, p, -, hm, hp, -, hj, hi, -⟩
  · rw [hp, hi]
    by_cases hji : j = i
    · exact .inl (by simp [hji])
    · rwa [Function.update_of_ne hji]
  · rwa [hp, hq]
  · by_cases hji : j = i
    · subst hji
      refine .inr ?_
      rw [hp, Function.update_self]
      cases hm <;> simp
    · rw [hp, Function.update_of_ne hji]
      exact hs.imp_left (hj j hji)

theorem signalInv_step {a : Act} (hs : SignalInv m s) (h : s.step (m + 1) a = some t) :
    SignalInv m t := by
  intro j hj hpast
  by_cases hold : (s.phase j).pastSignal
  · exact signalled_step h (hs j hj hold)
  · rcases step_cases h with ⟨hp, -⟩ | ⟨hp, -⟩ | ⟨i, p, -, hm, hp, -, -, -, hn⟩
    · rw [hp] at hpast; exact absurd hpast hold
    · rw [hp] at hpast; exact absurd hpast hold
    · rw [hp] at hpast
      by_cases hji : j = i
      · subst hji
        rw [Function.update_self] at hpast
        cases hm with
        | take => cases hpast
        | signalNext => exact .inl (hn rfl)
        | _ => simp_all [Phase.pastSignal]
      · rw [Function.update_of_ne hji] at hpast
        exact absurd hpast hold

/-- Where no step is enabled, a thread that has been signalled is waiting in
its join or has exited. -/
theorem stuck_phase {n i : Nat} (hi : i < n)
    (hstuck : ∀ a : Act, a.program → s.step n a = none) (hs : s.Signalled i) :
    s.phase i = .waiting ∨ s.phase i = .exited := by
  cases hp : s.phase i with
  | running =>
    have hpend := hs.resolve_right (by simp [hp])
    simpa [Shutdown.step, hi, hp, hpend] using hstuck (.take i) rfl
  | killing => simpa [Shutdown.step, hi, hp] using hstuck (.signalNext i) rfl
  | joining =>
    have h := hstuck (.join i) rfl
    simp only [Shutdown.step, hi, hp, and_self, if_true] at h
    split at h <;> cases h
  | waiting => exact .inl rfl
  | destroying => simpa [Shutdown.step, hi, hp] using hstuck (.destroy i) rfl
  | exiting => simpa [Shutdown.step, hi, hp] using hstuck (.exit i) rfl
  | exited => exact .inr rfl

/-- A signal goes all the way round a ring in which no step is enabled. -/
theorem stuck_signalled (hs : SignalInv m s)
    (hstuck : ∀ a : Act, a.program → s.step (m + 1) a = none) {i : Nat} (hi : i < m + 1)
    (hsig : s.Signalled i) : ∀ j < m + 1, s.Signalled j := by
  have hnext {k : Nat} (hk : k < m + 1) (h : s.Signalled k) :
      s.Signalled (nexttid (m + 1) k) := by
    apply hs k hk
    rcases stuck_phase hk hstuck h with hp | hp <;> rw [hp] <;> rfl
  have hdown (k : Nat) (hk : k < m + 1) (h : s.Signalled k) : ∀ j ≤ k, s.Signalled j := by
    induction k with
    | zero => intro j hj; rwa [Nat.le_zero.mp hj]
    | succ k ih =>
      intro j hj
      rcases Nat.le_succ_iff.mp hj with hj | rfl
      · have := hnext hk h
        rw [nexttid_succ (by omega)] at this
        exact ih (by omega) this j hj
      · exact h
  have hlast := hnext (Nat.succ_pos m) (hdown i hi hsig 0 (Nat.zero_le i))
  rw [nexttid_zero] at hlast
  exact fun j hj => hdown m (Nat.lt_succ_self m) hlast j (by omega)

/-- The joins of the ring do not deadlock when the leader is not part of them. -/
theorem ring_noDeadlock (h0 : s.phase 0 ≠ .waiting) (hs : SignalInv m s) :
    s.NoDeadlock (m + 1) := by
  rintro ⟨i, hi, hsig⟩ hex
  by_contra hno
  have hstuck : ∀ a : Act, a.program → s.step (m + 1) a = none := by
    intro a ha
    cases hstep : s.step (m + 1) a with
    | none => rfl
    | some t => exact absurd ⟨a, ha, by simp [hstep]⟩ hno
  have hall := stuck_signalled hs hstuck hi hsig
  apply hex
  intro j hj
  induction j with
  | zero => exact (stuck_phase hj hstuck (hall 0 hj)).resolve_left h0
  | succ j ih =>
    refine (stuck_phase hj hstuck (hall _ hj)).resolve_left fun hw => ?_
    simpa [Shutdown.step, hj, hw, nexttid_succ (show j < m by omega), ih (by omega)]
      using hstuck (.joined (j + 1)) rfl

/-- The states of `torque_block`'s shutdown. -/
def BlockInv (m : Nat) (s : Shutdown) : Prop :=
  RingInv m s ∧ (s.control = .waiting ∨ s.control = .free) ∧ SignalInv m s

theorem blockInv_step {a : Act} (hs : BlockInv m s) (h : s.step (m + 1) a = some t) :
    BlockInv m t := by
  obtain ⟨hr, hc, hsig⟩ := hs
  have hj : JoinInTime (m + 1) s a := by
    rintro rfl
    rcases hc with hc | hc <;> simp [Shutdown.step, hc] at h
  refine ⟨ringInv_step hr hj h, ?_, signalInv_step hsig h⟩
  rcases step_cases h with ⟨-, ht, -⟩ | ⟨-, -, hm⟩ | ⟨_, _, -, -, -, ht, -⟩
  · rwa [ht]
  · generalize t.control = c at hm ⊢
    cases hm <;> simp_all
  · rwa [ht]

theorem BlockInv.noDeadlock (h : BlockInv m s) : s.NoDeadlock (m + 1) := by
  obtain ⟨hr, hc | hc, hsig⟩ := h
  · unfold RingInv at hr
    rw [hc] at hr
    exact ring_noDeadlock hr.1 hsig
  · exact fun _ hex => absurd (hr.freesLast hc) hex

/-- However signals arrive and threads are scheduled, `torque_block`'s join
returns last, and the ring of joins never deadlocks. -/
theorem torqueBlock_joins_last (m : Nat) (acts : List Act) :
    Always (Shutdown.step (m + 1))
      (fun s => s.FreesLast (m + 1) ∧ s.NoDeadlock (m + 1)) blockInit acts :=
  (always_of_inv (fun _ _ _ hs h => blockInv_step hs h)
    ⟨ringInv_blockInit, .inl rfl, fun _ _ hp => (nomatch hp)⟩ acts).mono
    fun _ h => ⟨h.1.freesLast, h.noDeadlock⟩

end Ring

end Libtorque.Schedule
