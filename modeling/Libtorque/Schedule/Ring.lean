import Libtorque.Lib.Circle
import Libtorque.Lib.Lts
import Libtorque.Schedule.Spawn
import Mathlib.Data.List.Induction

/-! # The handlers of the event threads

`thread` and `spawn_thread` as they work on the memory: a handler is created
for each thread, and entered in the ring of `ctx->ev`. Threads and handlers are
named by their `pthread_t` and their addresses. -/
namespace Libtorque.Schedule
open Libtorque.Lib

/-! ## The code -/

/-- `ctx->ev`, the `nexttid` of each handler there is, and the handler that each
event thread runs with. -/
structure Handlers where
  ev : Option Nat := none
  nexttid : Nat → Option Nat := fun _ => none
  handler : Nat → Option Nat := fun _ => none

inductive Status where
  | unlaunched
  | prefail
  | started
deriving DecidableEq, Repr

/-- How the calls of one `spawn_thread` turn out, where the guard's lock and
condition work: whether `thread` is launched, with which `pthread_self()`,
whether its cancellation state can be set, and which handler it is given. -/
structure Launch where
  launched : Bool
  tid : Nat
  setcancelstate : Bool
  evhandler : Option Nat
deriving DecidableEq, Repr

/-- A handler is all zeros at first. -/
def Handlers.create (c : Handlers) (ev : Nat) : Handlers :=
  { c with nexttid := Function.update c.nexttid ev (some 0) }

/-- What `thread` does while it has the lock. -/
def Handlers.link (c : Handlers) (self ev : Nat) : Handlers :=
  let c :=
    match c.ev with
    | none => { c with ev := some ev }
    | some leader => { c with nexttid := Function.update c.nexttid ev (c.nexttid leader) }
  match c.ev with
  | none => c
  | some leader => { c with nexttid := Function.update c.nexttid leader (some self) }

/-- With the status that it sets. A thread that starts goes on to `event_thread`
with its handler. -/
def thread (c : Handlers) (l : Launch) : Status × Handlers :=
  if l.setcancelstate then
    match l.evhandler with
    | none => (.prefail, c)
    | some ev =>
      let c := (c.create ev).link l.tid ev
      (.started, { c with handler := Function.update c.handler l.tid (some ev) })
  else (.prefail, c)

def spawnThread (c : Handlers) (l : Launch) : Int × Handlers :=
  if l.launched then
    let (status, c) := thread c l
    if status ≠ .started then (-1, c) else (0, c)
  else (-1, c)

/-! ## Runs -/

/-- A thread that runs keeps its id, and a handler its memory. -/
def Launch.possible (c : Handlers) (l : Launch) : Bool :=
  c.handler l.tid = none && l.evhandler.all fun ev => c.nexttid ev = none

def Handlers.step (c : Handlers) (l : Launch) : Option Handlers :=
  if l.possible c then some (spawnThread c l).2 else none

/-- Whether a thread is started. -/
def Launch.starts (l : Launch) : Bool := l.launched && l.setcancelstate && l.evhandler.isSome

/-- The threads started by a list of calls, in their order. -/
def startedBy (ls : List Launch) : List Nat := (ls.filter Launch.starts).map Launch.tid

/-- The thread after a thread, by the `nexttid` of its handler. -/
def Handlers.next (c : Handlers) (t : Nat) : Option Nat := (c.handler t).bind c.nexttid

/-- The links form one cycle over the threads `started`, from the first of them,
whose handler is `ctx->ev`, to the last. -/
structure RingOf (c : Handlers) (started : List Nat) : Prop where
  nodup : started.Nodup
  ev : c.ev = started.head?.bind c.handler
  last : c.ev.bind c.nexttid = started.getLast?
  cycle : ∀ first ∈ started.head?, ∃ l, Visits c.next first l first ∧ l.Perm started

/-! ## The ring of the threads -/

/-- The threads that enter the ring one after another. -/
def linkThreads (ts : List Nat) : Threads := ts.foldl threadLink {}

theorem linkThreads_snoc (ts : List Nat) (t : Nat) :
    linkThreads (ts ++ [t]) = threadLink (linkThreads ts) t := by
  simp [linkThreads]

theorem threadLink_none {s : Threads} (h : s.ev = none) (self : Nat) :
    threadLink s self =
      { ev := some self, nexttid := Function.update s.nexttid self self } := by
  simp [threadLink, h]

/-- The last thread that entered comes after the first, and so on back to the
first. -/
theorem linkThreads_ring {first : Nat} {rest : List Nat} (h : (first :: rest).Nodup) :
    (linkThreads (first :: rest)).ev = some first ∧
      Visits (fun t => some ((linkThreads (first :: rest)).nexttid t)) first
        (first :: rest.reverse) first := by
  induction rest using List.reverseRecOn with
  | nil => exact ⟨rfl, .cons (by simp [linkThreads, threadLink]) (.nil first)⟩
  | append_singleton rest self ih =>
    rw [← List.cons_append, List.nodup_append] at h
    obtain ⟨hrest, -, hself⟩ := h
    obtain ⟨hev, hring⟩ := ih hrest
    have hnew : self ∉ first :: rest.reverse := by
      intro hmem
      have hold : self ∈ first :: rest := by simpa using hmem
      exact hself self hold self List.mem_cons_self rfl
    have hfirst : first ∉ rest.reverse := by simpa using (List.nodup_cons.mp hrest).1
    rw [← List.cons_append, linkThreads_snoc, threadLink_some hev]
    refine ⟨hev, ?_⟩
    have hnext := hring.insert hfirst hnew
    rw [List.reverse_append, List.reverse_singleton, List.singleton_append]
    refine hnext.congr fun t _ => ?_
    simp only [Function.update_apply]
    split
    · rfl
    · split <;> rfl

/-! ## The handlers show the ring -/

/-- The threads `started`, and no others, run, each with a handler of its own;
the ring is that of `s`. -/
structure Shows (c : Handlers) (started : List Nat) (s : Threads) : Prop where
  running : ∀ t, t ∈ started ↔ c.handler t ≠ none
  live : ∀ t a, c.handler t = some a → c.nexttid a ≠ none
  own : ∀ t u a, c.handler t = some a → c.handler u = some a → t = u
  leads : ∀ leader, s.ev = some leader → leader ∈ started
  ev : c.ev = s.ev.bind c.handler
  next : ∀ t ∈ started, c.next t = some (s.nexttid t)

section Shows
variable {c : Handlers} {started : List Nat} {s : Threads} {self ev : Nat}

theorem shows_nothing : Shows {} [] {} where
  running _ := by simp
  live _ _ h := by cases h
  own _ _ _ h := by cases h
  leads _ h := by cases h
  ev := rfl
  next _ h := by cases h

theorem link_first (h : c.ev = none) :
    (c.create ev).link self ev =
      { c with ev := some ev, nexttid := Function.update c.nexttid ev (some self) } := by
  simp [Handlers.link, Handlers.create, h]

theorem link_after {leader : Nat} (h : c.ev = some leader) (hne : leader ≠ ev) :
    (c.create ev).link self ev =
      { c with
        nexttid := Function.update (Function.update c.nexttid ev (c.nexttid leader)) leader
          (some self) } := by
  simp [Handlers.link, Handlers.create, h, hne]

/-- A thread starts, with a handler of its own, and the links are as `s'` has them. -/
theorem Shows.enter (h : Shows c started s) (hself : c.handler self = none)
    (hev : c.nexttid ev = none) {ev' : Option Nat} {nexttid' : Nat → Option Nat} {s' : Threads}
    (hleads : ∀ leader, s'.ev = some leader → leader ∈ started ++ [self])
    (hev' : ev' = s'.ev.bind (Function.update c.handler self (some ev)))
    (hnew : nexttid' ev = some (s'.nexttid self))
    (hold : ∀ t a, c.handler t = some a → nexttid' a = some (s'.nexttid t)) :
    Shows ⟨ev', nexttid', Function.update c.handler self (some ev)⟩ (started ++ [self]) s' := by
  have hupdate (t a : Nat) (ht : Function.update c.handler self (some ev) t = some a) :
      t = self ∧ a = ev ∨ c.handler t = some a ∧ a ≠ ev := by
    by_cases hts : t = self
    · rw [hts, Function.update_self, Option.some.injEq] at ht
      exact .inl ⟨hts, ht.symm⟩
    · rw [Function.update_of_ne hts] at ht
      refine .inr ⟨ht, ?_⟩
      rintro rfl
      exact h.live t a ht hev
  have hlinked (t a : Nat) (ht : Function.update c.handler self (some ev) t = some a) :
      nexttid' a = some (s'.nexttid t) := by
    rcases hupdate t a ht with ⟨rfl, rfl⟩ | ⟨ht, -⟩
    · exact hnew
    · exact hold t a ht
  have hrunning (t : Nat) :
      t ∈ started ++ [self] ↔ Function.update c.handler self (some ev) t ≠ none := by
    by_cases hts : t = self
    · simp [hts]
    · rw [Function.update_of_ne hts, ← h.running t]
      simp [hts]
  refine ⟨hrunning, ?_, ?_, hleads, hev', ?_⟩
  · intro t a ht
    simp [hlinked t a ht]
  · intro t u a ht hu
    rcases hupdate t a ht with ⟨rfl, rfl⟩ | ⟨ht, hne⟩
    · rcases hupdate u a hu with ⟨rfl, -⟩ | ⟨-, hne⟩
      · rfl
      · exact absurd rfl hne
    · rcases hupdate u a hu with ⟨-, rfl⟩ | ⟨hu, -⟩
      · exact absurd rfl hne
      · exact h.own t u a ht hu
  · intro t ht
    obtain ⟨a, ha⟩ := Option.ne_none_iff_exists'.mp ((hrunning t).mp ht)
    simp only [Handlers.next, ha, Option.bind_some]
    exact hlinked t a ha

/-- Entering the ring is `threadLink`. -/
theorem Shows.link (h : Shows c started s) (hself : c.handler self = none)
    (hev : c.nexttid ev = none) :
    Shows { (c.create ev).link self ev with
      handler := Function.update c.handler self (some ev) } (started ++ [self])
      (threadLink s self) := by
  have hne (t a : Nat) (ht : c.handler t = some a) : t ≠ self ∧ a ≠ ev := by
    constructor
    · rintro rfl
      rw [hself] at ht
      cases ht
    · rintro rfl
      exact h.live t a ht hev
  have hnext (t a : Nat) (ht : c.handler t = some a) : c.nexttid a = some (s.nexttid t) := by
    have hstarted : t ∈ started := (h.running t).mpr (by simp [ht])
    have := h.next t hstarted
    simpa [Handlers.next, ht] using this
  cases hs : s.ev with
  | none =>
    have hnone : c.ev = none := by rw [h.ev, hs, Option.bind_none]
    rw [link_first hnone, threadLink_none hs]
    refine h.enter hself hev (by simp) (by simp) (by simp) ?_
    intro t a ht
    dsimp only
    rw [Function.update_of_ne (hne t a ht).2, Function.update_of_ne (hne t a ht).1]
    exact hnext t a ht
  | some leader =>
    have hleader : leader ∈ started := h.leads leader hs
    obtain ⟨a, ha⟩ := Option.ne_none_iff_exists'.mp ((h.running leader).mp hleader)
    obtain ⟨hls, hae⟩ := hne leader a ha
    have hsome : c.ev = some a := by rw [h.ev, hs, Option.bind_some, ha]
    rw [link_after hsome hae, threadLink_some hs]
    refine h.enter hself hev ?_ ?_ ?_ ?_
    · intro t ht
      obtain rfl : leader = t := by simpa [hs] using ht
      exact List.mem_append_left _ hleader
    · simp [hs, Function.update_of_ne hls, ha, hsome]
    · simp [Function.update_of_ne hae.symm, Function.update_of_ne hls.symm, hnext leader a ha]
    · intro t b ht
      by_cases htl : t = leader
      · obtain rfl : a = b := by simpa [htl, ha] using ht
        simp [htl]
      · have hba : b ≠ a := fun hba => htl (h.own t leader b ht (by rw [ha, hba]))
        simp only [Function.update_of_ne hba, Function.update_of_ne (hne t b ht).2,
          Function.update_of_ne htl, Function.update_of_ne (hne t b ht).1]
        exact hnext t b ht

theorem spawnThread_fails {l : Launch} (hl : l.starts = false) : spawnThread c l = (-1, c) := by
  obtain ⟨launched, tid, setcancelstate, evhandler⟩ := l
  cases launched <;> cases setcancelstate <;> cases evhandler <;> first | rfl | cases hl

theorem spawnThread_starts {l : Launch} (hl : l.starts = true) :
    ∃ ev, l.evhandler = some ev ∧ spawnThread c l =
      (0, { (c.create ev).link l.tid ev with
        handler := Function.update c.handler l.tid (some ev) }) := by
  obtain ⟨launched, tid, setcancelstate, evhandler⟩ := l
  simp only [Launch.starts, Bool.and_eq_true] at hl
  obtain ⟨⟨rfl, rfl⟩, hsome⟩ := hl
  obtain ⟨ev, rfl⟩ := Option.isSome_iff_exists.mp hsome
  have hhandler : ((c.create ev).link tid ev).handler = c.handler := by
    obtain ⟨leader, nexttid, handler⟩ := c
    cases leader <;> rfl
  exact ⟨ev, rfl, by simp [spawnThread, thread, hhandler]⟩

/-- One call, in which the thread is started or not. -/
theorem step_shows (h : Shows c started s) {l : Launch} {c' : Handlers}
    (hstep : c.step l = some c') :
    Shows c' (if l.starts then started ++ [l.tid] else started)
      (if l.starts then threadLink s l.tid else s) := by
  unfold Handlers.step at hstep
  split at hstep
  · rename_i hp
    cases hstep
    obtain ⟨hself, hfree⟩ := Bool.and_eq_true_iff.mp hp
    cases hl : l.starts with
    | false =>
      rw [spawnThread_fails hl]
      exact h
    | true =>
      obtain ⟨ev, hev, hspawn⟩ := spawnThread_starts (c := c) hl
      rw [hspawn]
      rw [hev, Option.all_some, decide_eq_true_iff] at hfree
      exact h.link (by simpa using hself) hfree
  · cases hstep

/-- A run of calls links the threads that it starts. -/
theorem exec_shows (h : Shows c started s) {ls : List Launch} {c' : Handlers}
    (hrun : exec Handlers.step c ls = some c') :
    Shows c' (started ++ startedBy ls) ((startedBy ls).foldl threadLink s) := by
  induction ls generalizing c started s with
  | nil =>
    cases hrun
    simpa [startedBy] using h
  | cons l ls ih =>
    obtain ⟨d, hd, hrun⟩ := Option.bind_eq_some_iff.mp hrun
    have hrest := ih (step_shows h hd) hrun
    cases hl : l.starts <;> simpa [startedBy, hl] using hrest

end Shows

/-! ## The ring of the handlers -/

/-- The threads started are different, as each runs from then on. -/
theorem nodup_startedBy {c c' : Handlers} {started : List Nat} {s : Threads} {ls : List Launch}
    (h : Shows c started s) (hn : started.Nodup) (hrun : exec Handlers.step c ls = some c') :
    (started ++ startedBy ls).Nodup := by
  induction ls generalizing c started s with
  | nil => simpa [startedBy] using hn
  | cons l ls ih =>
    obtain ⟨d, hd, hrun⟩ := Option.bind_eq_some_iff.mp hrun
    have hnew : l.tid ∉ started := by
      unfold Handlers.step at hd
      split at hd
      · rename_i hp
        have hself : c.handler l.tid = none := by simpa using (Bool.and_eq_true_iff.mp hp).1
        rw [h.running, not_not]
        exact hself
      · cases hd
    have hrest := ih (step_shows h hd)
    cases hl : l.starts with
    | false => simpa [startedBy, hl] using hrest (by simpa [hl] using hn) hrun
    | true =>
      have hn' : (started ++ [l.tid]).Nodup :=
        (List.perm_append_singleton l.tid started).nodup_iff.mpr (List.nodup_cons.mpr ⟨hnew, hn⟩)
      simpa [startedBy, hl] using hrest (by simpa [hl] using hn') hrun

/-- Whatever calls of `spawn_thread` are made, and whichever of them start their
thread, the handlers form one ring over the threads started. -/
theorem spawnThread_ring (ls : List Launch) (c : Handlers)
    (hrun : exec Handlers.step {} ls = some c) : RingOf c (startedBy ls) := by
  have hnodup : (startedBy ls).Nodup := nodup_startedBy shows_nothing .nil hrun
  have hshows : Shows c (startedBy ls) (linkThreads (startedBy ls)) := exec_shows shows_nothing hrun
  cases hts : startedBy ls with
  | nil =>
    rw [hts] at hshows
    have hev : c.ev = none := hshows.ev
    exact ⟨.nil, hev, by rw [hev]; rfl, by simp⟩
  | cons first rest =>
    rw [hts] at hshows hnodup
    obtain ⟨hlead, hring⟩ := linkThreads_ring hnodup
    have hev : c.ev = c.handler first := by rw [hshows.ev, hlead, Option.bind_some]
    have hcycle : Visits c.next first (first :: rest.reverse) first := by
      refine hring.congr fun t ht => hshows.next t ?_
      simpa using ht
    refine ⟨hnodup, hev, ?_, ?_⟩
    · have hlink : c.next first = (rest.reverse ++ [first]).head? := hcycle.link
      rw [hev]
      refine hlink.trans ?_
      rw [← List.reverse_cons, List.head?_reverse]
    · intro t ht
      obtain rfl : first = t := by simpa using ht
      exact ⟨_, hcycle, (List.reverse_perm rest).cons first⟩

/-- Three threads start; before the third, one has no handler, and its id is used again. -/
theorem spawnThread_ring_three : ∃ c, exec Handlers.step {}
      [⟨true, 5, true, some 64⟩, ⟨true, 9, true, some 32⟩, ⟨true, 7, true, none⟩,
        ⟨true, 7, true, some 96⟩] = some c ∧ RingOf c [5, 9, 7] :=
  ⟨_, rfl, spawnThread_ring [⟨true, 5, true, some 64⟩, ⟨true, 9, true, some 32⟩,
    ⟨true, 7, true, none⟩, ⟨true, 7, true, some 96⟩] _ rfl⟩

end Libtorque.Schedule
