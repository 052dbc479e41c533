import Libtorque.Lib.Lts
import Mathlib.Algebra.Group.Nat.Defs
import Mathlib.Data.Set.Subsingleton

/-! # Numbers for threads

`pthread_self_getnumeric`, as FreeBSD's threads call it: a thread gets its number
at its first call, from a counter under `openssl_lock`, and keeps it under
`openssl_id_key`. Allocation and the calls of libpthread succeed, and the
threads do not exit. -/
namespace Libtorque.Schedule.Numeric
open Libtorque.Lib

/-! ## The code -/

/-- Where a thread is: outside, in `pthread_self_getnumeric`, or, from `malloc` to
`ret`, in `setup_new_sslid`. `++openssl_id_idx` is a load and a store. -/
inductive Stage where
  | idle
  | once
  | keyCreate
  | getspecific
  | malloc
  | setspecific (ret : Nat)
  | lock (ret : Nat)
  | load (ret : Nat)
  | store (ret v : Nat)
  | assign (ret v : Nat)
  | ret (ret : Nat)
  | deref (key : Nat)
deriving DecidableEq, Repr

/-- `openssl_once` -/
inductive Once (ι : Type) where
  | fresh
  | running (t : ι)
  | done
deriving DecidableEq, Repr

/-- The globals, the memory that `malloc` gives, and the threads with what their
calls have returned. -/
structure State (ι : Type) where
  opensslOnce : Once ι := .fresh
  opensslIdIdx : Nat := 0
  opensslLock : Option ι := none
  specific : ι → Option Nat := fun _ => none
  cells : Nat → Option Nat := fun _ => none
  pc : ι → Stage := fun _ => .idle
  returned : ι → List Nat := fun _ => []

/-- A step of a thread, with the address that `malloc` gives it there, and what is
in that memory. -/
structure Act (ι : Type) where
  thread : ι
  addr : Nat := 0
  junk : Nat := 0

variable {ι : Type} [DecidableEq ι]

def State.goto (s : State ι) (t : ι) (p : Stage) : State ι :=
  { s with pc := Function.update s.pc t p }

/-- `none` where the thread has to wait. -/
def step (s : State ι) (a : Act ι) : Option (State ι) :=
  let t := a.thread
  match s.pc t with
  | .idle => some (s.goto t .once)
  | .once =>
    match s.opensslOnce with
    | .fresh => some ({ s with opensslOnce := .running t }.goto t .keyCreate)
    | .running _ => none
    | .done => some (s.goto t .getspecific)
  | .keyCreate => some ({ s with opensslOnce := .done }.goto t .getspecific)
  | .getspecific =>
    match s.specific t with
    | some key => some (s.goto t (.deref key))
    | none => some (s.goto t .malloc)
  | .malloc =>
    if s.cells a.addr = none then
      some ({ s with cells := Function.update s.cells a.addr (some a.junk) }.goto t
        (.setspecific a.addr))
    else none
  | .setspecific ret =>
    some ({ s with specific := Function.update s.specific t (some ret) }.goto t (.lock ret))
  | .lock ret =>
    if s.opensslLock = none then
      some ({ s with opensslLock := some t }.goto t (.load ret))
    else none
  | .load ret => some (s.goto t (.store ret ((s.opensslIdIdx + 1) % 2 ^ 64)))
  | .store ret v => some ({ s with opensslIdIdx := v }.goto t (.assign ret v))
  | .assign ret v =>
    some ({ s with cells := Function.update s.cells ret (some v) }.goto t (.ret ret))
  -- `setup_new_sslid` returns without `pthread_mutex_unlock`
  | .ret ret => some (s.goto t (.deref ret))
  | .deref key =>
    match s.cells key with
    | some v =>
      some ({ s with returned := Function.update s.returned t (s.returned t ++ [v]) }.goto t .idle)
    | none => none

/-! ## What is wanted -/

/-- In `setup_new_sslid`. -/
def Stage.inSetup : Stage → Bool
  | .malloc | .setspecific _ | .lock _ | .load _ | .store .. | .assign .. | .ret _ => true
  | .idle | .once | .keyCreate | .getspecific | .deref _ => false

/-- The lock is held by none but a thread in `setup_new_sslid`. -/
def LockInside (s : State ι) : Prop := ∀ t, s.opensslLock = some t → (s.pc t).inSetup

/-- A thread gets the same number from all its calls, and one of its own. -/
structure Consistent (s : State ι) : Prop where
  same : ∀ t, ∀ v ∈ s.returned t, ∀ w ∈ s.returned t, v = w
  distinct : ∀ t u, t ≠ u → ∀ v ∈ s.returned t, v ∉ s.returned u

/-- The call that a thread is in can return. -/
def Returns (s : State ι) (t : ι) : Prop :=
  ∃ as s', exec step s as = some s' ∧ s'.pc t = .idle

/-- No step returns from `setup_new_sslid`. -/
def StaysInSetup (s : State ι) (a : Act ι) : Prop := ∀ ret, s.pc a.thread ≠ .ret ret

/-! ## The steps -/

/-- What the steps of a thread are, and when it can take them. -/
inductive Moves (s : State ι) (t : ι) : State ι → Prop where
  | call (hpc : s.pc t = .idle) : Moves s t (s.goto t .once)
  | first (hpc : s.pc t = .once) (ho : s.opensslOnce = .fresh) :
      Moves s t ({ s with opensslOnce := .running t }.goto t .keyCreate)
  | later (hpc : s.pc t = .once) (ho : s.opensslOnce = .done) : Moves s t (s.goto t .getspecific)
  | created (hpc : s.pc t = .keyCreate) :
      Moves s t ({ s with opensslOnce := .done }.goto t .getspecific)
  | found (key : Nat) (hpc : s.pc t = .getspecific) (hs : s.specific t = some key) :
      Moves s t (s.goto t (.deref key))
  | missing (hpc : s.pc t = .getspecific) (hs : s.specific t = none) : Moves s t (s.goto t .malloc)
  | malloc (addr junk : Nat) (hpc : s.pc t = .malloc) (hfree : s.cells addr = none) :
      Moves s t ({ s with cells := Function.update s.cells addr (some junk) }.goto t
        (.setspecific addr))
  | setspecific (ret : Nat) (hpc : s.pc t = .setspecific ret) :
      Moves s t ({ s with specific := Function.update s.specific t (some ret) }.goto t (.lock ret))
  | lock (ret : Nat) (hpc : s.pc t = .lock ret) (hfree : s.opensslLock = none) :
      Moves s t ({ s with opensslLock := some t }.goto t (.load ret))
  | load (ret : Nat) (hpc : s.pc t = .load ret) :
      Moves s t (s.goto t (.store ret ((s.opensslIdIdx + 1) % 2 ^ 64)))
  | store (ret v : Nat) (hpc : s.pc t = .store ret v) :
      Moves s t ({ s with opensslIdIdx := v }.goto t (.assign ret v))
  | assign (ret v : Nat) (hpc : s.pc t = .assign ret v) :
      Moves s t ({ s with cells := Function.update s.cells ret (some v) }.goto t (.ret ret))
  | ret (ret : Nat) (hpc : s.pc t = .ret ret) : Moves s t (s.goto t (.deref ret))
  | deref (key v : Nat) (hpc : s.pc t = .deref key) (hv : s.cells key = some v) :
      Moves s t
        ({ s with returned := Function.update s.returned t (s.returned t ++ [v]) }.goto t .idle)

section Steps
variable {s s' : State ι} {a : Act ι} {t u : ι}

theorem step_moves (h : step s a = some s') : Moves s a.thread s' := by
  unfold step at h
  cases hpc : s.pc a.thread with
  | once =>
    cases ho : s.opensslOnce with
    | fresh =>
      simp only [hpc, ho, Option.some.injEq] at h
      exact h ▸ .first hpc ho
    | running w => simp [hpc, ho] at h
    | done =>
      simp only [hpc, ho, Option.some.injEq] at h
      exact h ▸ .later hpc ho
  | getspecific =>
    cases hs : s.specific a.thread with
    | none =>
      simp only [hpc, hs, Option.some.injEq] at h
      exact h ▸ .missing hpc hs
    | some key =>
      simp only [hpc, hs, Option.some.injEq] at h
      exact h ▸ .found key hpc hs
  | malloc =>
    simp only [hpc, Option.ite_none_right_eq_some, Option.some.injEq] at h
    exact h.2 ▸ .malloc a.addr a.junk hpc h.1
  | lock ret =>
    simp only [hpc, Option.ite_none_right_eq_some, Option.some.injEq] at h
    exact h.2 ▸ .lock ret hpc h.1
  | deref key =>
    cases hv : s.cells key with
    | none => simp [hpc, hv] at h
    | some v =>
      simp only [hpc, hv, Option.some.injEq] at h
      exact h ▸ .deref key v hpc hv
  | idle =>
    simp only [hpc, Option.some.injEq] at h
    exact h ▸ .call hpc
  | keyCreate =>
    simp only [hpc, Option.some.injEq] at h
    exact h ▸ .created hpc
  | setspecific ret =>
    simp only [hpc, Option.some.injEq] at h
    exact h ▸ .setspecific ret hpc
  | load ret =>
    simp only [hpc, Option.some.injEq] at h
    exact h ▸ .load ret hpc
  | store ret v =>
    simp only [hpc, Option.some.injEq] at h
    exact h ▸ .store ret v hpc
  | assign ret v =>
    simp only [hpc, Option.some.injEq] at h
    exact h ▸ .assign ret v hpc
  | ret ret =>
    simp only [hpc, Option.some.injEq] at h
    exact h ▸ .ret ret hpc

@[simp] theorem goto_pc_self (s : State ι) (p : Stage) : (s.goto t p).pc t = p :=
  Function.update_self ..

theorem goto_pc_of_ne (s : State ι) (p : Stage) (hu : u ≠ t) : (s.goto t p).pc u = s.pc u :=
  Function.update_of_ne hu ..

/-- Another thread stays where it is, with what it has. -/
theorem Moves.other (h : Moves s t s') (hu : u ≠ t) :
    s'.pc u = s.pc u ∧ s'.specific u = s.specific u ∧ s'.returned u = s.returned u := by
  cases h <;> simp [State.goto, hu]

/-- The lock is taken when it is free, and not given up. -/
theorem Moves.lock_cases (h : Moves s t s') :
    s'.opensslLock = s.opensslLock ∨ s.opensslLock = none ∧ s'.opensslLock = some t := by
  cases h with
  | lock ret hpc hfree => exact .inr ⟨hfree, rfl⟩
  | _ => exact .inl rfl

end Steps

/-! ## What holds whatever the threads do -/

/-- Of a thread without the lock: it has no number yet. -/
def Waiting (s : State ι) (t : ι) : Prop :=
  s.returned t = [] ∧
    match s.pc t with
    | .idle | .once | .keyCreate | .getspecific | .malloc => s.specific t = none
    | .setspecific ret => s.specific t = none ∧ s.cells ret ≠ none
    | .lock ret => s.specific t = some ret ∧ s.cells ret ≠ none
    | .load _ | .store .. | .assign .. | .ret _ | .deref _ => False

/-- Of the thread with the lock: its number is 1, or is going to be. -/
def Holding (s : State ι) (t : ι) : Prop :=
  (∀ v ∈ s.returned t, v = 1) ∧
    ∃ key, s.specific t = some key ∧
      match s.pc t with
      | .idle | .once | .keyCreate | .getspecific => s.cells key = some 1
      | .load ret => ret = key ∧ s.cells key ≠ none ∧ s.opensslIdIdx = 0
      | .store ret v | .assign ret v => ret = key ∧ s.cells key ≠ none ∧ v = 1
      | .ret ret | .deref ret => ret = key ∧ s.cells key = some 1
      | .malloc | .setspecific _ | .lock _ => False

structure Inv (s : State ι) : Prop where
  bounded : ∃ n, ∀ a, n ≤ a → s.cells a = none
  once : ∀ t, s.opensslOnce = .running t → s.pc t = .keyCreate
  start : s.opensslLock = none → s.opensslIdIdx = 0
  waiting : ∀ t, s.opensslLock ≠ some t → Waiting s t
  holding : ∀ t, s.opensslLock = some t → Holding s t

omit [DecidableEq ι] in
theorem inv_start : Inv ({} : State ι) where
  bounded := ⟨0, fun _ _ => rfl⟩
  once _ h := by cases h
  start _ := rfl
  waiting _ _ := ⟨rfl, rfl⟩
  holding _ h := by cases h

section Step
variable {s s' : State ι} {a : Act ι} {t u : ι}

/-- The memory in use stays so, and a thread without the lock changes neither it
nor the counter. -/
theorem Moves.memory (hi : Inv s) (h : Moves s t s') :
    (∀ r, s.cells r ≠ none → s'.cells r ≠ none) ∧
      (s.opensslLock ≠ some t → s'.opensslIdIdx = s.opensslIdIdx ∧
        ∀ r, s.cells r ≠ none → s'.cells r = s.cells r) := by
  have hw := hi.waiting t
  cases h with
  | malloc addr junk hpc hfree =>
    have hold (r : Nat) (hr : s.cells r ≠ none) :
        Function.update s.cells addr (some junk) r = s.cells r :=
      Function.update_of_ne (fun hra : r = addr => hr (hra ▸ hfree)) ..
    refine ⟨?_, fun _ => ⟨rfl, hold⟩⟩
    intro r hr
    rw [← hold r hr] at hr
    exact hr
  | assign ret v hpc =>
    refine ⟨?_, fun hl => ?_⟩
    · intro r hr
      by_cases hret : r = ret
      · simp [State.goto, hret]
      · simpa [State.goto, hret] using hr
    · simpa [Waiting, hpc] using hw hl
  | store ret v hpc =>
    refine ⟨fun r hr => hr, fun hl => ?_⟩
    simpa [Waiting, hpc] using hw hl
  | _ => exact ⟨fun r hr => hr, fun _ => ⟨rfl, fun r _ => rfl⟩⟩

/-- A thread that has the lock after its step. -/
theorem Moves.holding (hi : Inv s) (h : Moves s t s') (hl : s'.opensslLock = some t) :
    Holding s' t := by
  cases h with
  | lock ret hpc hfree =>
    obtain ⟨hnone, hw⟩ := hi.waiting t (by simp [hfree])
    rw [hpc] at hw
    refine ⟨?_, ret, hw.1, ?_⟩
    · intro v hv
      simp [State.goto, hnone] at hv
    · rw [goto_pc_self]
      exact ⟨rfl, hw.2, hi.start hfree⟩
  | call hpc => simpa [Holding, hpc, State.goto] using hi.holding t hl
  | first hpc ho => simpa [Holding, hpc, State.goto] using hi.holding t hl
  | later hpc ho => simpa [Holding, hpc, State.goto] using hi.holding t hl
  | created hpc => simpa [Holding, hpc, State.goto] using hi.holding t hl
  | found key hpc hs =>
    simpa [Holding, hpc, hs, State.goto] using hi.holding t hl
  | missing hpc hs =>
    simpa [Holding, hpc, hs, State.goto] using hi.holding t hl
  | malloc addr junk hpc hfree => simpa [Holding, hpc, State.goto] using hi.holding t hl
  | setspecific ret hpc => simpa [Holding, hpc, State.goto] using hi.holding t hl
  | load ret hpc =>
    obtain ⟨hall, key, hs, hkey⟩ := hi.holding t hl
    rw [hpc] at hkey
    obtain ⟨rfl, hcell, hidx⟩ := hkey
    refine ⟨hall, ret, hs, ?_⟩
    rw [goto_pc_self, hidx]
    exact ⟨rfl, hcell, rfl⟩
  | store ret v hpc => simpa [Holding, hpc, State.goto] using hi.holding t hl
  | assign ret v hpc =>
    obtain ⟨hall, key, hs, hkey⟩ := hi.holding t hl
    rw [hpc] at hkey
    obtain ⟨rfl, -, rfl⟩ := hkey
    refine ⟨hall, ret, hs, ?_⟩
    rw [goto_pc_self]
    exact ⟨rfl, Function.update_self ..⟩
  | ret ret hpc => simpa [Holding, hpc, State.goto] using hi.holding t hl
  | deref key v hpc hv =>
    obtain ⟨hall, ret, hs, hkey⟩ := hi.holding t hl
    rw [hpc] at hkey
    obtain ⟨rfl, hcell⟩ := hkey
    rw [hv, Option.some.injEq] at hcell
    subst hcell
    refine ⟨?_, key, hs, ?_⟩
    · simpa [State.goto, or_imp, forall_and] using hall
    · rw [goto_pc_self]
      exact hv

/-- A thread that does not have the lock after its step. -/
theorem Moves.waiting (hi : Inv s) (h : Moves s t s') (hl : s'.opensslLock ≠ some t) :
    Waiting s' t := by
  cases h with
  | lock ret hpc hfree => exact absurd rfl hl
  | call hpc => simpa [Waiting, hpc, State.goto] using hi.waiting t hl
  | first hpc ho => simpa [Waiting, hpc, State.goto] using hi.waiting t hl
  | later hpc ho => simpa [Waiting, hpc, State.goto] using hi.waiting t hl
  | created hpc => simpa [Waiting, hpc, State.goto] using hi.waiting t hl
  | found key hpc hs => simpa [Waiting, hpc, hs, State.goto] using hi.waiting t hl
  | missing hpc hs => simpa [Waiting, hpc, State.goto] using hi.waiting t hl
  | malloc addr junk hpc hfree => simpa [Waiting, hpc, State.goto] using hi.waiting t hl
  | setspecific ret hpc =>
    obtain ⟨hnone, hw⟩ := hi.waiting t hl
    rw [hpc] at hw
    simpa [Waiting, State.goto, hnone] using hw.2
  | load ret hpc => simpa [Waiting, hpc, State.goto] using hi.waiting t hl
  | store ret v hpc => simpa [Waiting, hpc, State.goto] using hi.waiting t hl
  | assign ret v hpc => simpa [Waiting, hpc, State.goto] using hi.waiting t hl
  | ret ret hpc => simpa [Waiting, hpc, State.goto] using hi.waiting t hl
  | deref key v hpc hv => simpa [Waiting, hpc, State.goto] using hi.waiting t hl

theorem Moves.once (hi : Inv s) (h : Moves s t s') (w : ι) (hw : s'.opensslOnce = .running w) :
    s'.pc w = .keyCreate := by
  cases h
  case first hpc ho =>
    obtain rfl : t = w := by simpa [State.goto] using hw
    exact goto_pc_self ..
  case created hpc => cases hw
  all_goals
    have hcreates := hi.once w hw
    have hne : w ≠ t := by
      rintro rfl
      simp_all
    rw [goto_pc_of_ne _ _ hne]
    exact hcreates

theorem bounded_update {cells : Nat → Option Nat} {n r : Nat} {v : Option Nat}
    (h : ∀ a, n ≤ a → cells a = none) (a : Nat) (ha : max n (r + 1) ≤ a) :
    Function.update cells r v a = none := by
  rw [Function.update_of_ne (by omega)]
  exact h a (by omega)

theorem Moves.bounded (hi : Inv s) (h : Moves s t s') : ∃ n, ∀ a, n ≤ a → s'.cells a = none := by
  obtain ⟨n, hn⟩ := hi.bounded
  cases h with
  | malloc addr junk hpc hfree => exact ⟨max n (addr + 1), bounded_update hn⟩
  | assign ret v hpc => exact ⟨max n (ret + 1), bounded_update hn⟩
  | _ => exact ⟨n, hn⟩

/-- What a step does to the threads that do not take it. -/
theorem inv_step (hi : Inv s) (h : step s a = some s') : Inv s' := by
  have hm := step_moves h
  obtain ⟨hkeeps, hsame⟩ := hm.memory hi
  refine ⟨hm.bounded hi, hm.once hi, ?_, ?_, ?_⟩
  · intro hfree
    have hstill : s.opensslLock = none := by
      rcases hm.lock_cases with hl | ⟨-, hl⟩
      · rw [← hl, hfree]
      · rw [hfree] at hl
        cases hl
    rw [(hsame (by simp [hstill])).1]
    exact hi.start hstill
  · intro u hu
    by_cases hut : u = a.thread
    · subst hut
      exact hm.waiting hi hu
    · obtain ⟨hpc, hspec, hret⟩ := hm.other hut
      have hbefore : s.opensslLock ≠ some u := by
        rcases hm.lock_cases with hl | ⟨hl, -⟩
        · rw [← hl]
          exact hu
        · simp [hl]
      obtain ⟨hnone, hw⟩ := hi.waiting u hbefore
      refine ⟨hret.trans hnone, ?_⟩
      rw [hpc, hspec]
      revert hw
      cases s.pc u with
      | setspecific ret => exact And.imp_right (hkeeps ret)
      | lock ret => exact And.imp_right (hkeeps ret)
      | _ => exact id
  · intro u hu
    by_cases hut : u = a.thread
    · subst hut
      exact hm.holding hi hu
    · obtain ⟨hpc, hspec, hret⟩ := hm.other hut
      have hbefore : s.opensslLock = some u := by
        rcases hm.lock_cases with hl | ⟨-, hl⟩
        · rw [← hl, hu]
        · rw [hu, Option.some.injEq] at hl
          exact absurd hl hut
      obtain ⟨hidx, hcells⟩ := hsame (by simpa [hbefore] using hut)
      obtain ⟨hall, key, hkey, hw⟩ := hi.holding u hbefore
      refine ⟨by rwa [hret], key, by rw [hspec, hkey], ?_⟩
      have hused : s.cells key ≠ none := by
        revert hw
        cases s.pc u <;> simp +contextual
      rw [hpc, hidx, hcells key hused]
      exact hw

end Step

theorem always_inv (as : List (Act ι)) : Always step Inv ({} : State ι) as :=
  always_of_inv (fun _ _ _ hi h => inv_step hi h) inv_start as

/-! ## Numbers -/

section Numbers
variable {s : State ι}

omit [DecidableEq ι] in
/-- Only the thread with the lock has a number, and it is 1. -/
theorem Inv.consistent (hi : Inv s) : Consistent s := by
  have hone (t : ι) (v : Nat) (hv : v ∈ s.returned t) : s.opensslLock = some t ∧ v = 1 := by
    by_cases hl : s.opensslLock = some t
    · exact ⟨hl, (hi.holding t hl).1 v hv⟩
    · rw [(hi.waiting t hl).1] at hv
      cases hv
  constructor
  · intro t v hv w hw
    rw [(hone t v hv).2, (hone t w hw).2]
  · intro t u htu v hv hvu
    have ht := (hone t v hv).1
    rw [(hone u v hvu).1, Option.some.injEq] at ht
    exact htu ht.symm

end Numbers

/-! ## The lock -/

section Lock
variable {s s' : State ι} {a : Act ι} {t u : ι}

theorem Moves.lockInside (h : Moves s t s') (hin : LockInside s)
    (hstay : ∀ ret, s.pc t ≠ .ret ret) : LockInside s' := by
  intro u hu
  by_cases hut : u = t
  · subst hut
    cases h with
    | lock ret hpc hfree => simp [Stage.inSetup]
    | malloc addr junk hpc hfree => simp [Stage.inSetup]
    | setspecific ret hpc => simp [Stage.inSetup]
    | load ret hpc => simp [Stage.inSetup]
    | store ret v hpc => simp [Stage.inSetup]
    | assign ret v hpc => simp [Stage.inSetup]
    | ret ret hpc => exact absurd hpc (hstay ret)
    | missing hpc hs => simp [Stage.inSetup]
    | call hpc => simpa [hpc, Stage.inSetup] using hin u hu
    | first hpc ho => simpa [hpc, Stage.inSetup] using hin u hu
    | later hpc ho => simpa [hpc, Stage.inSetup] using hin u hu
    | created hpc => simpa [hpc, Stage.inSetup] using hin u hu
    | found key hpc hs => simpa [hpc, Stage.inSetup] using hin u hu
    | deref key v hpc hv => simpa [hpc, Stage.inSetup] using hin u hu
  · rw [(h.other hut).1]
    rcases h.lock_cases with hl | ⟨-, hl⟩
    · exact hin u (by rw [← hl, hu])
    · rw [hu, Option.some.injEq] at hl
      exact absurd hl hut

/-- A step from `ret` takes the lock out of `setup_new_sslid`. -/
theorem Moves.stays (hi : Inv s) (h : Moves s t s') (hin : LockInside s') (ret : Nat) :
    s.pc t ≠ .ret ret := by
  intro hpc
  have hl : s.opensslLock = some t := by
    by_contra hl
    have hw := (hi.waiting t hl).2
    rw [hpc] at hw
    exact hw
  cases h <;> simp_all
  have := hin t hl
  simp [Stage.inSetup] at this

/-- The lock is out of `setup_new_sslid` as soon as that has returned. -/
theorem always_lockInside_iff (as : List (Act ι)) :
    Always step LockInside ({} : State ι) as ↔ Meets step StaysInSetup ({} : State ι) as := by
  constructor
  · intro hin
    refine ((always_inv as).and hin).meets ?_
    intro s a s' h hs hs' ret
    exact (step_moves h).stays hs.1 hs'.2 ret
  · intro hm
    refine always_of_meets ?_ (fun _ h => by cases h) hm
    intro s a s' hin hstay h
    exact (step_moves h).lockInside hin hstay

end Lock

/-! ## Calls that return -/

/-- How far a call is from its end. -/
def Stage.rank : Stage → Nat
  | .idle => 0
  | .deref _ => 1
  | .ret _ => 2
  | .assign .. => 3
  | .store .. => 4
  | .load _ => 5
  | .lock _ => 6
  | .setspecific _ => 7
  | .malloc => 8
  | .getspecific => 9
  | .keyCreate => 10
  | .once => 11

section Returns
variable {s s' : State ι} {a : Act ι} {t u : ι}

/-- Neither the lock nor the key's creation keeps the thread waiting. -/
structure Clear (s : State ι) (t : ι) : Prop where
  lock : s.opensslLock = none ∨ s.opensslLock = some t
  once : ∀ u, s.opensslOnce = .running u → u = t

/-- A thread that nothing keeps waiting can take a step. -/
theorem Clear.advance (hi : Inv s) (hc : Clear s t) (hpc : s.pc t ≠ .idle) :
    ∃ (a : Act ι) (s' : State ι),
      step s a = some s' ∧ Clear s' t ∧ (s'.pc t).rank < (s.pc t).rank := by
  obtain ⟨n, hn⟩ := hi.bounded
  have hstep (p : Stage) (s₁ : State ι) (h : step s ⟨t, n, 0⟩ = some (s₁.goto t p))
      (hlock : s₁.opensslLock = s.opensslLock ∨ s₁.opensslLock = some t)
      (honce : ∀ u, s₁.opensslOnce = .running u → u = t) (hp : p.rank < (s.pc t).rank) :
      ∃ (a : Act ι) (s' : State ι),
        step s a = some s' ∧ Clear s' t ∧ (s'.pc t).rank < (s.pc t).rank := by
    refine ⟨_, _, h, ⟨?_, honce⟩, by simpa using hp⟩
    rcases hlock with hl | hl
    · exact hc.lock.imp hl.trans hl.trans
    · exact .inr hl
  cases hp : s.pc t with
  | idle => exact absurd hp hpc
  | once =>
    rw [← hp]
    cases ho : s.opensslOnce with
    | fresh =>
      refine hstep .keyCreate { s with opensslOnce := .running t } (by simp [step, hp, ho])
        (.inl rfl) ?_ (by simp [hp, Stage.rank])
      intro u hu
      cases hu
      rfl
    | running w =>
      obtain rfl := hc.once w ho
      rw [hi.once w ho] at hp
      cases hp
    | done =>
      exact hstep .getspecific s (by simp [step, hp, ho]) (.inl rfl) hc.once
        (by simp [hp, Stage.rank])
  | keyCreate =>
    rw [← hp]
    exact hstep .getspecific { s with opensslOnce := .done } (by simp [step, hp]) (.inl rfl)
      (fun u hu => by cases hu) (by simp [hp, Stage.rank])
  | getspecific =>
    rw [← hp]
    cases hs : s.specific t with
    | none =>
      exact hstep .malloc s (by simp [step, hp, hs]) (.inl rfl) hc.once (by simp [hp, Stage.rank])
    | some key =>
      exact hstep (.deref key) s (by simp [step, hp, hs]) (.inl rfl) hc.once
        (by simp [hp, Stage.rank])
  | malloc =>
    rw [← hp]
    exact hstep (.setspecific n) { s with cells := Function.update s.cells n (some 0) }
      (by simp [step, hp, hn n (Nat.le_refl n)]) (.inl rfl) hc.once (by simp [hp, Stage.rank])
  | setspecific ret =>
    rw [← hp]
    exact hstep (.lock ret) { s with specific := Function.update s.specific t (some ret) }
      (by simp [step, hp]) (.inl rfl) hc.once (by simp [hp, Stage.rank])
  | lock ret =>
    rw [← hp]
    have hfree : s.opensslLock = none := by
      refine hc.lock.resolve_right fun hl => ?_
      obtain ⟨-, key, -, hkey⟩ := hi.holding t hl
      rw [hp] at hkey
      exact hkey
    exact hstep (.load ret) { s with opensslLock := some t } (by simp [step, hp, hfree])
      (.inr rfl) hc.once (by simp [hp, Stage.rank])
  | load ret =>
    rw [← hp]
    exact hstep _ s (by simp [step, hp]; rfl) (.inl rfl) hc.once (by simp [hp, Stage.rank])
  | store ret v =>
    rw [← hp]
    exact hstep (.assign ret v) { s with opensslIdIdx := v } (by simp [step, hp]) (.inl rfl)
      hc.once (by simp [hp, Stage.rank])
  | assign ret v =>
    rw [← hp]
    exact hstep (.ret ret) { s with cells := Function.update s.cells ret (some v) }
      (by simp [step, hp]) (.inl rfl) hc.once (by simp [hp, Stage.rank])
  | ret ret =>
    rw [← hp]
    exact hstep (.deref ret) s (by simp [step, hp]) (.inl rfl) hc.once (by simp [hp, Stage.rank])
  | deref key =>
    rw [← hp]
    obtain ⟨v, hv⟩ : ∃ v, s.cells key = some v := by
      by_cases hl : s.opensslLock = some t
      · obtain ⟨-, r, -, hr⟩ := hi.holding t hl
        rw [hp] at hr
        exact ⟨1, hr.1 ▸ hr.2⟩
      · have hw := (hi.waiting t hl).2
        rw [hp] at hw
        exact hw.elim
    exact hstep .idle { s with returned := Function.update s.returned t (s.returned t ++ [v]) }
      (by simp [step, hp, hv]) (.inl rfl) hc.once (by simp [hp, Stage.rank])

theorem Clear.returns (hi : Inv s) (hc : Clear s t) : Returns s t := by
  induction hk : (s.pc t).rank using Nat.strongRecOn generalizing s with
  | ind k ih =>
    by_cases hpc : s.pc t = .idle
    · exact ⟨[], s, rfl, hpc⟩
    · obtain ⟨a, s', h, hc', hlt⟩ := hc.advance hi hpc
      obtain ⟨as, s'', has, hidle⟩ := ih _ (hk ▸ hlt) (inv_step hi h) hc' rfl
      refine ⟨a :: as, s'', ?_, hidle⟩
      simpa [exec, h] using has

/-- A thread in a call while another has the lock. -/
def Stuck (s : State ι) (t : ι) : Prop :=
  s.pc t ≠ .idle ∧ ∃ u, u ≠ t ∧ s.opensslLock = some u

theorem Stuck.step (hi : Inv s) (hs : Stuck s t) (h : step s a = some s') : Stuck s' t := by
  obtain ⟨hpc, u, hut, hl⟩ := hs
  have hm := step_moves h
  have hl' : s'.opensslLock = some u := by
    rcases hm.lock_cases with hl' | ⟨hfree, -⟩
    · rw [hl', hl]
    · rw [hl] at hfree
      cases hfree
  refine ⟨?_, u, hut, hl'⟩
  by_cases hta : t = a.thread
  · subst hta
    have hw := (hm.waiting hi (by simpa [hl'] using hut)).2
    cases hm with
    | deref key v hk hv =>
      have hold := (hi.waiting _ (by simpa [hl] using hut)).2
      rw [hk] at hold
      exact hold.elim
    | _ => simp
  · rw [(hm.other hta).1]
    exact hpc

theorem Stuck.not_returns (hi : Inv s) (hs : Stuck s t) : ¬ Returns s t := by
  rintro ⟨as, s', h, hidle⟩
  have hkeeps : Always Numeric.step (fun s => Inv s ∧ Stuck s t) s as :=
    always_of_inv (fun _ _ _ hs h => ⟨inv_step hs.1 h, hs.2.step hs.1 h⟩) ⟨hi, hs⟩ as
  exact (hkeeps.last h).2.1 hidle

/-- A call can return just in case no other thread has the lock. -/
theorem returns_iff (hi : Inv s) (hpc : s.pc t ≠ .idle) :
    Returns s t ↔ s.opensslLock = none ∨ s.opensslLock = some t := by
  constructor
  · intro hr
    cases hl : s.opensslLock with
    | none => exact .inl rfl
    | some u =>
      refine .inr (congrArg some ?_)
      by_contra hut
      exact Stuck.not_returns hi ⟨hpc, u, hut, hl⟩ hr
  · intro hl
    cases ho : s.opensslOnce with
    | fresh => exact Clear.returns hi ⟨hl, fun u hu => by simp [ho] at hu⟩
    | done => exact Clear.returns hi ⟨hl, fun u hu => by simp [ho] at hu⟩
    | running w =>
      -- the key is created first
      have h : step s ⟨w, 0, 0⟩ = some ({ s with opensslOnce := .done }.goto w .getspecific) := by
        simp [step, hi.once w ho]
      obtain ⟨as, s', has, hidle⟩ := Clear.returns (inv_step hi h) (t := t)
        ⟨hl, fun u hu => by cases hu⟩
      refine ⟨⟨w, 0, 0⟩ :: as, s', ?_, hidle⟩
      simpa [exec, h] using has

/-- Only threads of `T` have taken steps. -/
def Only (T : Set ι) (s : State ι) : Prop :=
  ∀ u, u ∉ T → s.pc u = .idle ∧ s.opensslLock ≠ some u

theorem Only.step {T : Set ι} (hT : Only T s) (ha : a.thread ∈ T) (h : step s a = some s') :
    Only T s' := by
  intro u hu
  have hm := step_moves h
  have hua : u ≠ a.thread := fun he => hu (he ▸ ha)
  rw [(hm.other hua).1]
  refine ⟨(hT u hu).1, ?_⟩
  rcases hm.lock_cases with hl | ⟨-, hl⟩
  · rw [hl]
    exact (hT u hu).2
  · rw [hl]
    exact fun he => hua (Option.some.inj he).symm

theorem always_only {T : Set ι} {as : List (Act ι)} (has : ∀ a ∈ as, a.thread ∈ T) (hT : Only T s) :
    Always step (Only T) s as := by
  induction as generalizing s with
  | nil => exact hT
  | cons a as ih =>
    refine ⟨hT, fun s' h => ih (fun b hb => has b (List.mem_cons_of_mem a hb)) ?_⟩
    exact hT.step (has a List.mem_cons_self) h

/-- `t` takes the lock, and `u` makes a call. -/
def blockedRun (t u : ι) : List (Act ι) := List.replicate 7 ⟨t, 0, 0⟩ ++ [⟨u, 0, 0⟩]

theorem exec_blockedRun (hut : u ≠ t) :
    ∃ s, exec step ({} : State ι) (blockedRun t u) = some s ∧ Stuck s u := by
  simp [blockedRun, List.replicate, exec, step, State.goto, Stuck, hut, hut.symm]

/-- With one thread at most, nothing is waited for. -/
theorem always_returns_iff (T : Set ι) :
    (∀ as : List (Act ι), (∀ a ∈ as, a.thread ∈ T) →
      Always step (fun s => ∀ t, s.pc t ≠ .idle → Returns s t) {} as) ↔ T.Subsingleton := by
  constructor
  · intro hall t ht u hu
    by_contra htu
    obtain ⟨s, hs, hstuck⟩ := exec_blockedRun (t := t) (Ne.symm htu)
    have hrun : ∀ a ∈ blockedRun t u, a.thread ∈ T := by
      intro a ha
      rcases List.mem_append.mp ha with ha | ha
      · rw [List.eq_of_mem_replicate ha]
        exact ht
      · rw [List.mem_singleton.mp ha]
        exact hu
    exact Stuck.not_returns ((always_inv _).last hs) hstuck ((hall _ hrun).last hs u hstuck.1)
  · intro hT as has
    have honly : Always step (Only T) {} as := always_only has fun _ _ => ⟨rfl, by simp⟩
    refine Always.mono ?_ ((always_inv as).and honly)
    intro s hs t ht
    refine (returns_iff hs.1 ht).mpr ?_
    cases hl : s.opensslLock with
    | none => exact .inl rfl
    | some u =>
      have hmem (v : ι) (hv : ¬ (s.pc v = .idle ∧ s.opensslLock ≠ some v)) : v ∈ T :=
        not_not.mp fun hvT => hv (hs.2 v hvT)
      have huT : u ∈ T := hmem u fun h => h.2 hl
      have htT : t ∈ T := hmem t fun h => ht h.1
      rw [hT huT htT]
      exact .inr rfl

end Returns

/-- Whatever calls the threads make: the numbers are right in any case, the lock is
kept inside `setup_new_sslid` as long as that has not returned, and all calls can
return just in case no two threads make any. -/
theorem pthreadSelfGetnumeric_calls :
    (∀ as, Always step Consistent ({} : State ι) as) ∧
      (∀ as, Always step LockInside ({} : State ι) as ↔
        Meets step StaysInSetup ({} : State ι) as) ∧
      ∀ T : Set ι, (∀ as : List (Act ι), (∀ a ∈ as, a.thread ∈ T) →
        Always step (fun s => ∀ t, s.pc t ≠ .idle → Returns s t) {} as) ↔ T.Subsingleton :=
  ⟨fun as => (always_inv as).mono fun _ hi => hi.consistent, always_lockInside_iff,
    always_returns_iff⟩

/-- The first thread has got its number, and holds the lock outside of
`setup_new_sslid`; the call of the second never returns. -/
theorem pthreadSelfGetnumeric_deadlock : ∃ s : State Bool,
    exec step {} (List.replicate 12 ⟨false, 0, 0⟩ ++ [⟨true, 0, 0⟩]) = some s ∧
      s.returned false = [1] ∧ s.opensslLock = some false ∧ s.pc false = .idle ∧
      ¬ LockInside s ∧ s.pc true ≠ .idle ∧ ¬ Returns s true := by
  refine ⟨_, rfl, rfl, rfl, rfl, fun hin => ?_, by decide, ?_⟩
  · exact absurd (hin false rfl) (by decide)
  · refine Stuck.not_returns ?_ ⟨by decide, false, by decide, rfl⟩
    exact (always_inv (List.replicate 12 ⟨false, 0, 0⟩ ++ [⟨true, 0, 0⟩])).last rfl

end Libtorque.Schedule.Numeric
