import Libtorque.Events.Thread
import Libtorque.World

/-! # Threads that dispatch events

Any number of threads retrieve batches of events and handle them one operation
at a time, in any interleaving, while threads of the application open
descriptors and register them. -/
namespace Libtorque

/-- An event as it was retrieved. The library sees its descriptor and mask;
`src` is the registration it was reported for. -/
structure Event where
  fd : Nat
  mask : Events
  src : Source
deriving DecidableEq, Repr

/-- What a thread has done with the event that it is dispatching, `cur`: it is
inside one of its handlers, and there in a callback of the client; it has closed
the descriptor, or armed it again. `fds` are the descriptors that it has opened
and has neither registered nor closed. -/
structure Local where
  cur : Option Event := none
  inside : Bool := false
  calling : Bool := false
  closed : Bool := false
  rearmed : Bool := false
  fds : List Nat := []
deriving DecidableEq, Repr

namespace Local

/-- The thread closes a descriptor: that of its event, or one of its own. -/
def close (l : Local) (fd : Nat) : Local :=
  if l.cur.any (·.fd = fd) ∧ ¬ l.closed then { l with closed := true }
  else { l with fds := l.fds.filter (· ≠ fd) }

def next (l : Local) : (o : Op) → o.Rep → Local
  | .enter .., _ => { l with inside := true, calling := false }
  | .leave, _ => { l with inside := false }
  | .callback .., _ => { l with calling := true }
  | .client _, .ret _ => { l with calling := false }
  | .close fd, _ => l.close fd
  | .epollCtl .add fd _, ok => if ok then { l with fds := l.fds.filter (· ≠ fd) } else l
  | .epollCtl .mod _ _, ok => if ok then { l with rearmed := true } else l
  | .accept _, some fd => { l with fds := fd :: l.fds }
  | .timerfdCreate, some fd => { l with fds := fd :: l.fds }
  | _, _ => l

/-- A thread that has closed its event's descriptor, or armed it again, is done
with it: it closes, arms or alters nothing more, and finds no second callback
to call. It does not arm the descriptor in a callback, and closes it only if it
was registered for one event at a time. -/
def Abides (l : Local) : (o : Op) → o.Rep → Bool
  | .evsource _, evs => l.closed ∨ l.rearmed → evs.txfxn = none
  | .setEvsourceRx fd _, _ => l.closed → fd ∈ l.fds
  | .setEvsourceTx fd _, _ => l.closed → fd ∈ l.fds
  | .close fd, _ =>
    if l.cur.any (·.fd = fd) ∧ ¬ l.closed then l.cur.any (·.src.oneshot) else fd ∈ l.fds
  | .epollCtl .mod _ _, ok => ok → ¬ l.closed ∧ ¬ l.calling
  | _, _ => true

end Local

/-- `batch` are the events retrieved and not yet dispatched. -/
structure Thread extends Local where
  batch : List Event := []
  prog : Prog Unit := .ret ()

def Thread.idle (th : Thread) : Bool :=
  match th.prog with
  | .ret _ => true
  | _ => false

/-- The event in whose handlers or callbacks a thread is. One that is about to
leave is no longer in them. -/
def Thread.busy (th : Thread) : Option Event :=
  if th.inside ∧ th.prog.op ≠ some .leave then th.cur else none

structure System where
  world : World := {}
  threads : Nat → Thread := fun _ => {}

/-- Nothing is open, and the tables are for so many descriptors. -/
def System.init (fdarraysize : Nat) : System where
  world := { fdarraysize := fdarraysize }

/-! ## Steps -/

def EPOLLERR : Events := 0x008
def EPOLLHUP : Events := 0x010

/-- A mask that the kernel can report of a descriptor armed with another. -/
def reportable (armed mask : Events) : Bool :=
  mask ≠ 0 ∧ mask &&& ~~~(armed ||| EPOLLERR ||| EPOLLHUP) = 0

/-- The kernel reports an event, which spends a one-shot registration. -/
def World.report (w : World) (fd : Nat) (mask : Events) : Option (World × Event) :=
  match w.fds fd with
  | .watched r =>
    match r.armed with
    | some e =>
      if reportable e mask then
        some (w.setFd fd (.watched { r with armed := if r.oneshot then none else some e,
                                            reported := true }),
          { fd := fd, mask := mask, src := r.toSource })
      else none
    | none => none
  | _ => none

/-- `epoll_wait`: some events, at most one for each descriptor. -/
def World.reports (w : World) : List (Nat × Events) → Option (World × List Event)
  | [] => some (w, [])
  | (fd, mask) :: evs =>
    if fd ∈ evs.map Prod.fst then none
    else
      (w.report fd mask).bind fun (w, ev) =>
        (w.reports evs).map fun (w, batch) => (w, ev :: batch)

/-- The descriptor that a call is for, unless the library opens it. -/
def AddCall.fd : AddCall → Option Int
  | addfd fd .. => some fd
  | addfdUnbuffered fd .. => some fd
  | addfdConcurrent fd .. => some fd
  | addconnector fd .. => some fd
  | addconnectorUnbuffered fd .. => some fd
  | addssl fd .. => some fd
  | addtimer .. => none

/-- What a thread does next: the application opens or closes a descriptor or
calls the library with one, or the thread retrieves events (here in the order in
which it handles them), begins with the first of them (following each loop at
most `n` times), or goes on with its program. -/
inductive Act where
  | openFd (fd : Nat)
  | dropFd (fd : Nat)
  | call (c : AddCall)
  | retrieve (evs : List (Nat × Events))
  | begin (n : Nat)
  | op (reply : (o : Op) → o.Rep)

namespace System
open Function (update)

def put (s : System) (w : World) (t : Nat) (th : Thread) : System :=
  { world := w, threads := update s.threads t th }

def step (s : System) : Nat × Act → Option System
  | (t, .openFd fd) =>
    let th := s.threads t
    if th.idle then (s.world.openFd fd).map fun w => s.put w t { th with fds := fd :: th.fds }
    else none
  | (t, .dropFd fd) =>
    let th := s.threads t
    if th.idle ∧ fd ∈ th.fds then
      some (s.put (s.world.setFd fd .closed) t { th with fds := th.fds.filter (· ≠ fd) })
    else none
  | (t, .call c) =>
    let th := s.threads t
    if th.idle ∧ c.fd.all (fun fd => fd < 0 ∨ unsigned fd ∈ th.fds) then
      some (s.put s.world t { th with cur := none, prog := do let _ ← c.prog })
    else none
  | (t, .retrieve evs) =>
    let th := s.threads t
    if th.idle ∧ th.batch = [] then
      (s.world.reports evs).map fun (w, batch) => s.put w t { th with batch := batch }
    else none
  | (t, .begin n) =>
    let th := s.threads t
    match th.batch with
    | ev :: batch =>
      if th.idle then
        some (s.put s.world t { th with cur := some ev, closed := false, rearmed := false,
                                        batch := batch, prog := handleEvent n ev.fd ev.mask })
      else none
    | [] => none
  | (t, .op reply) =>
    let th := s.threads t
    match th.prog with
    | .call o k =>
      (s.world.next o (reply o)).map fun w =>
        s.put w t { th with toLocal := th.toLocal.next o (reply o), prog := k (reply o) }
    | _ => none

/-! ## What is claimed, and when it holds -/

/-- Whoever is about to call a handler does so for the registration that its
event was reported for, with its state and one of its callbacks, and neither
has the registration been closed nor the state been freed. -/
def LiveCallbacks (s : System) : Prop :=
  ∀ t f fd st, (s.threads t).prog.op = some (.enter f fd st) →
    ∃ ev r, (s.threads t).cur = some ev ∧ ev.fd = fd ∧ ev.src.state = st ∧
      s.world.fds fd = .watched r ∧ r.toSource = ev.src ∧
      (some f = (s.world.fdarray fd).rxfxn ∨ some f = (s.world.fdarray fd).txfxn) ∧
      ∀ c, st = .object c → s.world.objs c = .live

/-- No two threads are in handlers or callbacks of one one-shot registration. -/
def Exclusive (s : System) : Prop :=
  ∀ t u ev ev', t ≠ u → (s.threads t).busy = some ev → (s.threads u).busy = some ev' →
    ev.src.id = ev'.src.id → ev.src.oneshot = false

/-- Every step of a handler abides. -/
def Abides (s : System) : Nat × Act → Prop
  | (t, .op reply) =>
    match (s.threads t).prog with
    | .call o _ => (s.threads t).toLocal.Abides o (reply o)
    | _ => True
  | _ => True

/-- A timer is not reported a second time. -/
def FiresOnce (s : System) : Nat × Act → Prop
  | (_, .retrieve evs) =>
    evs.all fun e =>
      match s.world.fds e.1 with
      | .watched r => r.oneshot ∨ r.state matches .client _ ∨ ¬ r.reported
      | _ => true
  | _ => True

end System

end Libtorque
