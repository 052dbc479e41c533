import Libtorque.Errors
import Mathlib.Data.List.Basic
import Mathlib.Data.List.ReduceOption

/-! # Event retrieval: `kevent_retrieve`, `Kevent` and the loop of `event_thread`

The kernel's side is the list of outcomes that successive `epoll_wait` calls
have; a call that returns a batch leaves `errno` alone. The retry loop of
`kevent_retrieve` (the `signalfd` build) tests `ret < 0 || errno == EINTR`, so
what it returns depends on the `errno` left by earlier calls. A handler may
leave any `errno` behind; `leave` is its value after the events handled so
far. -/
namespace Libtorque.Events

variable {ε : Type}

/-- What one `epoll_wait` call hands out. -/
inductive EpollWait (ε : Type) where
  | batch (events : List ε)
  | fail (errno : Errno)
deriving DecidableEq, Repr

namespace EpollWait

def ret : EpollWait ε → Int
  | .batch events => events.length
  | .fail _ => -1

/-- `errno` after the call: only a failure sets it. -/
def errno (before : Errno) : EpollWait ε → Errno
  | .batch _ => before
  | .fail e => e

/-- The entries of the event vector that the call filled. -/
def events : EpollWait ε → List ε
  | .batch events => events
  | .fail _ => []

/-- A failure with `EINTR`. -/
def interrupted : EpollWait ε → Bool
  | .fail .eintr => true
  | _ => false

end EpollWait

/-- The end of a retrieval: the outcome it returned with, `errno` then, and
the outcomes still to come; or the outcomes ran out inside the retry loop. -/
inductive Retrieved (ε : Type) where
  | returned (outcome : EpollWait ε) (errno : Errno) (rest : List (EpollWait ε))
  | waiting (errno : Errno)
deriving DecidableEq, Repr

/-- `do { ret = epoll_wait(..) } while (ret < 0 || errno == EINTR)` -/
def keventRetrieve : Errno → List (EpollWait ε) → Retrieved ε
  | errno, [] => .waiting errno
  | errno, o :: rest =>
    if o.ret < 0 ∨ o.errno errno = .eintr then keventRetrieve (o.errno errno) rest
    else .returned o (o.errno errno) rest

/-- `Kevent`: the changes first (`none` for an accepted `epoll_ctl`, else its
`errno`), then, unless one failed or no event is asked for, the retrieval. -/
def kevent (ctls : List (Option Errno)) (nevents : Nat) (errno : Errno)
    (outs : List (EpollWait ε)) : Retrieved ε :=
  match ctls.reduceOption.getLast? with
  | some e => .returned (.fail e) e outs
  | none => if nevents = 0 then .returned (.batch []) errno outs else keventRetrieve errno outs

/-- The part of an event thread that its loop reads and writes: `errno`, the
events passed to `handle_event` in order, and the counters of its `stats`. -/
structure EventThread (ε : Type) where
  errno : Errno
  handled : List ε := []
  rounds : Nat := 0
  pollerr : Nat := 0
  events : Nat := 0
deriving DecidableEq, Repr

/-- `handle_event` on one event, and `++e->stats.events`. -/
def EventThread.handle (leave : List ε → Errno → Errno) (t : EventThread ε) (e : ε) :
    EventThread ε :=
  { t with
    handled := t.handled ++ [e]
    errno := leave (t.handled ++ [e]) t.errno
    events := t.events + 1 }

/-- The body of `event_thread`'s loop after `Kevent` returned. The batch is
walked from its end (`while (events--)`). -/
def EventThread.round (leave : List ε → Errno → Errno) (t : EventThread ε)
    (o : EpollWait ε) (errno : Errno) : EventThread ε :=
  let t := { t with rounds := t.rounds + 1, errno := errno }
  if o.ret < 0 then
    if t.errno ≠ .eintr then { t with pollerr := t.pollerr + 1 } else t
  else o.events.reverse.foldl (EventThread.handle leave) t

/-- The length of the event vector (`init_evectors`). -/
def vsizes : Nat := 512

/-- `event_thread` for at most the given number of rounds. -/
def eventThread (leave : List ε → Errno → Errno) :
    Nat → EventThread ε → List (EpollWait ε) → EventThread ε
  | 0, t, _ => t
  | n + 1, t, outs => match kevent [] vsizes t.errno outs with
    | .waiting errno => { t with errno := errno }
    | .returned o errno rest => eventThread leave n (t.round leave o errno) rest

/-! ## What a retrieval is for -/

/-- The first outcome that is not an `EINTR` failure, with what follows it. -/
def firstUninterrupted (outs : List (EpollWait ε)) : Option (EpollWait ε × List (EpollWait ε)) :=
  match outs.dropWhile EpollWait.interrupted with
  | [] => none
  | o :: rest => some (o, rest)

/-- The outcome a retrieval returned with, and what follows it. -/
def Retrieved.outcome : Retrieved ε → Option (EpollWait ε × List (EpollWait ε))
  | .returned o _ rest => some (o, rest)
  | .waiting _ => none

/-- Every event of the batches that `epoll_wait` handed out. -/
def handedOut (outs : List (EpollWait ε)) : List ε := outs.flatMap EpollWait.events

/-- The failures other than `EINTR`. -/
def failures (outs : List (EpollWait ε)) : Nat :=
  outs.countP fun o => decide (o.ret < 0) && !o.interrupted

/-- Every batch was passed on, once, and every failure was counted, once. -/
def Delivers (t : EventThread ε) (outs : List (EpollWait ε)) : Prop :=
  t.handled.Perm (handedOut outs) ∧ t.pollerr = failures outs

/-- `errno` once the handlers of a batch have run, one after the other. -/
def errnoLeft (leave : List ε → Errno → Errno) : List ε → Errno → List ε → Errno
  | _, errno, [] => errno
  | h, errno, e :: es => errnoLeft leave (h ++ [e]) (leave (h ++ [e]) errno) es

/-- The outcomes contain no failure but `EINTR`, and no batch with an event in
it meets the `errno` value `EINTR`, be it left by the start, by an interrupted
call or by the handlers of an earlier batch. -/
def Untainted (leave : List ε → Errno → Errno) :
    List ε → Errno → List (EpollWait ε) → Prop
  | _, _, [] => True
  | h, _, .fail e :: rest => e = .eintr ∧ Untainted leave h e rest
  | h, errno, .batch [] :: rest => Untainted leave h errno rest
  | h, errno, .batch (e :: es) :: rest =>
    errno ≠ .eintr ∧
      Untainted leave (h ++ (e :: es).reverse) (errnoLeft leave h errno (e :: es).reverse) rest

/-! ## One call -/

@[simp] theorem keventRetrieve_fail (errno e : Errno) (rest : List (EpollWait ε)) :
    keventRetrieve errno (.fail e :: rest) = keventRetrieve e rest := by
  simp [keventRetrieve, EpollWait.ret, EpollWait.errno]

@[simp] theorem keventRetrieve_batch (errno : Errno) (es : List ε) (rest : List (EpollWait ε)) :
    keventRetrieve errno (.batch es :: rest) =
      if errno = .eintr then keventRetrieve errno rest
      else .returned (.batch es) errno rest := by
  have hret : ¬ (es.length : Int) < 0 := by omega
  simp [keventRetrieve, EpollWait.ret, EpollWait.errno, hret]

@[simp] theorem kevent_noChanges (errno : Errno) (outs : List (EpollWait ε)) :
    kevent [] vsizes errno outs = keventRetrieve errno outs := by
  simp [kevent, vsizes]

/-- A retrieval consumes what it returns and never returns a failure: the loop
has no exit for one. -/
theorem keventRetrieve_outcome {errno : Errno} {outs rest : List (EpollWait ε)}
    {o : EpollWait ε} (h : (keventRetrieve errno outs).outcome = some (o, rest)) :
    rest.length < outs.length ∧ ∃ es, o = .batch es := by
  induction outs generalizing errno with
  | nil => simp [keventRetrieve, Retrieved.outcome] at h
  | cons x xs ih =>
    cases x with
    | fail e =>
      rw [keventRetrieve_fail] at h
      obtain ⟨hl, hb⟩ := ih h
      exact ⟨by simp only [List.length_cons]; omega, hb⟩
    | batch es =>
      rw [keventRetrieve_batch] at h
      split at h
      · obtain ⟨hl, hb⟩ := ih h
        exact ⟨by simp only [List.length_cons]; omega, hb⟩
      · simp only [Retrieved.outcome, Option.some.injEq, Prod.mk.injEq] at h
        obtain ⟨rfl, rfl⟩ := h
        exact ⟨by simp, es, rfl⟩

@[simp] theorem firstUninterrupted_eintr (rest : List (EpollWait ε)) :
    firstUninterrupted (.fail .eintr :: rest) = firstUninterrupted rest := rfl

theorem firstUninterrupted_cons {o : EpollWait ε} (h : o.interrupted = false)
    (rest : List (EpollWait ε)) : firstUninterrupted (o :: rest) = some (o, rest) := by
  simp [firstUninterrupted, h]

/-- A call returns with the first outcome that is not an interruption exactly
when there is none to return, or a batch comes at once and `errno` was not
`EINTR` on entry. -/
theorem keventRetrieve_first (errno : Errno) (outs : List (EpollWait ε)) :
    (keventRetrieve errno outs).outcome = firstUninterrupted outs ↔
      (∀ o ∈ outs, o = .fail .eintr) ∨
        (errno ≠ .eintr ∧ ∃ es rest, outs = .batch es :: rest) := by
  induction outs generalizing errno with
  | nil => simp [keventRetrieve, Retrieved.outcome, firstUninterrupted]
  | cons x xs ih =>
    cases x with
    | fail e =>
      rw [keventRetrieve_fail]
      by_cases he : e = .eintr
      · subst he
        rw [firstUninterrupted_eintr, ih]
        simp
      · have hi : (EpollWait.fail e : EpollWait ε).interrupted = false := by
          cases e <;> simp_all [EpollWait.interrupted]
        rw [firstUninterrupted_cons hi]
        constructor
        · intro h
          obtain ⟨-, es, hb⟩ := keventRetrieve_outcome h
          cases hb
        · simp [he]
    | batch es =>
      rw [firstUninterrupted_cons rfl, keventRetrieve_batch]
      by_cases he : errno = .eintr
      · rw [if_pos he]
        constructor
        · intro h
          have := (keventRetrieve_outcome h).1
          omega
        · simp [he]
      · rw [if_neg he]
        simp [Retrieved.outcome, he]

/-! ## Whole runs -/

section Runs
variable (leave : List ε → Errno → Errno)

theorem foldl_handle (t : EventThread ε) (es : List ε) :
    es.foldl (EventThread.handle leave) t =
      { t with
        handled := t.handled ++ es
        errno := errnoLeft leave t.handled t.errno es
        events := t.events + es.length } := by
  induction es generalizing t with
  | nil => simp [errnoLeft]
  | cons e es ih =>
    rw [List.foldl_cons, ih]
    simp [EventThread.handle, errnoLeft, Nat.add_assoc, Nat.add_comm 1]

theorem round_batch (t : EventThread ε) (es : List ε) (errno : Errno) :
    t.round leave (.batch es) errno =
      { t with
        handled := t.handled ++ es.reverse
        errno := errnoLeft leave t.handled errno es.reverse
        events := t.events + es.length
        rounds := t.rounds + 1 } := by
  have hret : ¬ (es.length : Int) < 0 := by omega
  simp only [EventThread.round, EpollWait.ret, EpollWait.events, hret, if_false, foldl_handle,
    List.length_reverse]

theorem eventThread_nil (n : Nat) (t : EventThread ε) : eventThread leave n t [] = t := by
  cases n with
  | zero => rfl
  | succ n => simp [eventThread, keventRetrieve]

theorem eventThread_fail (n : Nat) (t : EventThread ε) (e : Errno)
    (rest : List (EpollWait ε)) :
    eventThread leave (n + 1) t (.fail e :: rest) =
      eventThread leave (n + 1) { t with errno := e } rest := by
  simp only [eventThread, kevent_noChanges, keventRetrieve_fail]
  split <;> rfl

/-- A batch that meets `EINTR` is dropped. -/
theorem eventThread_stale {t : EventThread ε} (h : t.errno = .eintr) (n : Nat) (es : List ε)
    (rest : List (EpollWait ε)) :
    eventThread leave (n + 1) t (.batch es :: rest) = eventThread leave (n + 1) t rest := by
  simp only [eventThread, kevent_noChanges, keventRetrieve_batch, if_pos h]

theorem eventThread_batch {t : EventThread ε} (h : t.errno ≠ .eintr) (n : Nat) (es : List ε)
    (rest : List (EpollWait ε)) :
    eventThread leave (n + 1) t (.batch es :: rest) =
      eventThread leave n (t.round leave (.batch es) t.errno) rest := by
  simp only [eventThread, kevent_noChanges, keventRetrieve_batch, if_neg h]

/-- No failure is ever counted, and nothing is handled that was not handed out. -/
theorem eventThread_bounds (n : Nat) (t : EventThread ε) (outs : List (EpollWait ε))
    (hn : outs.length ≤ n) :
    (eventThread leave n t outs).pollerr = t.pollerr ∧
      (eventThread leave n t outs).handled.length ≤
        t.handled.length + (handedOut outs).length := by
  induction outs generalizing n t with
  | nil => simp [eventThread_nil]
  | cons o rest ih =>
    obtain ⟨m, rfl⟩ : ∃ m, n = m + 1 := ⟨n - 1, by simp only [List.length_cons] at hn; omega⟩
    simp only [List.length_cons, Nat.add_le_add_iff_right] at hn
    cases o with
    | fail e =>
      rw [eventThread_fail]
      exact ih (m + 1) _ (by omega)
    | batch es =>
      by_cases he : t.errno = .eintr
      · rw [eventThread_stale leave he]
        obtain ⟨hp, hl⟩ := ih (m + 1) t (by omega)
        refine ⟨hp, Nat.le_trans hl ?_⟩
        simp [handedOut]
      · rw [eventThread_batch leave he, round_batch]
        obtain ⟨hp, hl⟩ := ih m _ hn
        refine ⟨hp, Nat.le_trans hl ?_⟩
        simp [handedOut, EpollWait.events, Nat.add_assoc]

/-- What a run delivers on top of what its start had, and when it is all. -/
theorem eventThread_delivers (n : Nat) (t : EventThread ε) (outs : List (EpollWait ε))
    (hn : outs.length ≤ n) :
    ((eventThread leave n t outs).handled.Perm (t.handled ++ handedOut outs) ∧
      (eventThread leave n t outs).pollerr = t.pollerr + failures outs) ↔
        Untainted leave t.handled t.errno outs := by
  induction outs generalizing n t with
  | nil => simp [eventThread_nil, handedOut, failures, Untainted]
  | cons o rest ih =>
    obtain ⟨m, rfl⟩ : ∃ m, n = m + 1 := ⟨n - 1, by simp only [List.length_cons] at hn; omega⟩
    simp only [List.length_cons, Nat.add_le_add_iff_right] at hn
    cases o with
    | fail e =>
      rw [eventThread_fail]
      by_cases he : e = .eintr
      · subst he
        have := ih (m + 1) { t with errno := .eintr } (by omega)
        simpa [Untainted, handedOut, failures, EpollWait.events, EpollWait.interrupted] using this
      · have hf : 0 < failures (EpollWait.fail e :: rest) := by
          cases e <;> simp_all [failures, EpollWait.ret, EpollWait.interrupted]
        have hp := (eventThread_bounds leave (m + 1) { t with errno := e } rest (by omega)).1
        simp only [Untainted, he, false_and, iff_false, not_and]
        intro _ h
        rw [hp] at h
        simp only at h
        omega
    | batch es =>
      have hfail : failures (.batch es :: rest) = failures rest := by
        have hret : ¬ (es.length : Int) < 0 := by omega
        simp [failures, EpollWait.ret, hret]
      have hout : handedOut (.batch es :: rest) = es ++ handedOut rest := by
        simp [handedOut, EpollWait.events]
      rw [hfail, hout]
      by_cases he : t.errno = .eintr
      · rw [eventThread_stale leave he]
        cases es with
        | nil => simpa [Untainted] using ih (m + 1) t (by omega)
        | cons e es =>
          have hl := (eventThread_bounds leave (m + 1) t rest (by omega)).2
          simp only [Untainted, he, ne_eq, not_true_eq_false, false_and, iff_false, not_and]
          intro hperm
          have := hperm.length_eq
          simp only [List.length_append, List.length_cons] at this
          omega
      · rw [eventThread_batch leave he, round_batch]
        have key := ih m { t with
          handled := t.handled ++ es.reverse
          errno := errnoLeft leave t.handled t.errno es.reverse
          events := t.events + es.length
          rounds := t.rounds + 1 } hn
        have hrev : (t.handled ++ es.reverse ++ handedOut rest).Perm
            (t.handled ++ (es ++ handedOut rest)) := by
          rw [List.append_assoc]
          exact ((List.reverse_perm es).append_right _).append_left _
        rw [← hrev.congr_right]
        cases es with
        | nil => simpa [Untainted, errnoLeft] using key
        | cons e es => simpa only [Untainted, ne_eq, he, not_false_eq_true, true_and] using key

end Runs

/-- **Retrieval loses nothing exactly on untainted outcomes.** A `Kevent` call
of `event_thread` returns with the first outcome that is not an interruption
exactly when there is none, or a batch comes at once and `errno` is not `EINTR`
on entry; and a run passes on every event of every batch, once, and counts
every other failure, once, exactly when its outcomes are `Untainted`. The run
has rounds enough to consume all the outcomes. -/
theorem eventThread_lossless_iff (leave : List ε → Errno → Errno) (errno : Errno)
    (outs : List (EpollWait ε)) (k : Nat) :
    ((kevent [] vsizes errno outs).outcome = firstUninterrupted outs ↔
      (∀ o ∈ outs, o = .fail .eintr) ∨
        (errno ≠ .eintr ∧ ∃ es rest, outs = .batch es :: rest)) ∧
    (Delivers (eventThread leave (outs.length + k) { errno := errno } outs) outs ↔
      Untainted leave [] errno outs) := by
  constructor
  · rw [kevent_noChanges]
    exact keventRetrieve_first errno outs
  · have h := eventThread_delivers leave (outs.length + k) { errno := errno } outs (by omega)
    simpa [Delivers] using h

/-- One interrupted `epoll_wait` followed by a batch: the batch is dropped, and
so is a failure reported after it. -/
theorem eventThread_drops :
    firstUninterrupted [.fail .eintr, .batch [7], .fail (.other 9)] =
        some (.batch [7], [.fail (.other 9)]) ∧
      (kevent [] vsizes (.other 0) [.fail .eintr, .batch [7], .fail (.other 9)]).outcome = none ∧
      ¬ Delivers (eventThread (fun _ e => e) 3 { errno := .other 0 }
        [.fail .eintr, .batch [7], .fail (.other 9)])
        [.fail .eintr, .batch [7], .fail (.other 9)] := by
  refine ⟨rfl, by decide, ?_⟩
  rintro ⟨-, hp⟩
  exact absurd hp (by decide)

end Libtorque.Events
