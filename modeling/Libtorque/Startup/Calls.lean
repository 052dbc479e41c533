import Libtorque.Hardware.Arch
import Libtorque.Lib.Ledger
import Libtorque.Lib.Prog

/-! # What `torque_init` calls, and what it then holds

The outcome of each call is a reply. The ledger counts what has been created
and not given back, and the event threads that run. -/
namespace Libtorque.Startup
open Libtorque.Hardware Libtorque.Lib

/-- What is created on the way. `details` are the tables that one `torque_cput`
points to, `cpudescs` the array of them; `zone` is a node of the topology. -/
inductive Resource where
  | ctx
  | fdarray
  | sigarray
  | signalfd
  | dns
  | efd
  | topmap
  | cpudescs
  | details
  | zone
  | psizevals
  | manodes
deriving DecidableEq, Repr

/-- Calls that succeed or fail, and create nothing. -/
inductive Call where
  | ignoreSigpipe
  | sigfillset
  | sigdelset
  | sigemptyset
  | sigaddset
  | sigBlock
  | sigSetmask
  | handleTerm
  | handleInt
  | adnsBeforepoll
  | keventAdd
  | pinThread
  | unpinThread
  | attrInit
  | getStack
  | attrSetstack
  | mutexInit
  | condInit
  | pthreadCreate
  | attrDestroy
  | mutexLock
  | mutexUnlock
  | condDestroy
  | mutexDestroy
  | killTerm
deriving DecidableEq, Repr

inductive Op where
  /-- `sigaction(SIGPIPE, NULL, &oldact)`, and whether SIG_DFL was found -/
  | sigaction
  /-- whether the call fails -/
  | call (c : Call)
  /-- `malloc`, `signalfd`, `epoll_create` and `adns_init`, by what they create -/
  | create (r : Resource)
  /-- `realloc` to one element more, of a pointer that is NULL or not -/
  | realloc (r : Resource) (null : Bool)
  /-- `free`, `close` and `adns_finish` -/
  | release (r : Resource)
  | openMax
  | dtablesize
  | sigrtmax
  | getaffinity
  /-- what it finds; `none` when it fails, perhaps with tables allocated -/
  | x86cpuid (aid : Nat)
  /-- which of its allocations would get their memory; `topmap` has `elems`
  elements -/
  | topologize (elems : Nat) (t : Topology) (aid thread core pkg cputype : Nat)
  /-- what `spawn_thread` finds when it has the guard again: whether a wait
  failed, and whether the status is THREAD_STARTED -/
  | condWait
  | pthreadJoin
  /-- `block_thread` in `reap_thread` -/
  | blockThread
  | cudadevcount
  | cudaid (devno : Nat)
  | pagesize
  /-- `_SC_PHYS_PAGES`, `_SC_PAGESIZE`, and `rlim_cur` of RLIMIT_AS -/
  | sysmem

@[reducible] def Op.Rep : Op → Type
  | .sigaction => Option Bool
  | .call _ | .create _ | .realloc .. | .blockThread => Bool
  | .release _ | .pthreadJoin => Unit
  | .openMax | .dtablesize | .cudadevcount | .pagesize => Int
  | .sigrtmax => Nat
  | .getaffinity => Option CpuSet
  | .x86cpuid _ => Option Detected
  | .topologize .. => ZoneMallocs
  | .condWait => Bool × Bool
  | .cudaid _ => Int × TorqueCput
  | .sysmem => Int × Int × Option Nat

abbrev Prog := Lib.Prog Op Op.Rep

/-- `threads` counts the event threads that run; `orphans`, those that ran when
the context was freed. `refused`: there was no memory for the context. `wild`: an
element that `topmap` does not have has been read or written. -/
structure Ledger where
  held : Resource → Nat := fun _ => 0
  threads : Nat := 0
  orphans : Nat := 0
  refused : Bool := false
  wild : Bool := false

mutual
/-- How many nodes a topology has. -/
def nodes : List TorqueTopt → Nat
  | [] => 0
  | n :: rest => nodesOf n + nodes rest

def nodesOf : TorqueTopt → Nat
  | ⟨_, _, _, sub⟩ => 1 + nodes sub
end

namespace Ledger

def create (s : Ledger) (r : Resource) : Ledger := { s with held := gain s.held r }

/-- What is not held cannot be given back. -/
def release (s : Ledger) (r : Resource) : Option Ledger :=
  if s.held r = 0 then none
  else
    let s := { s with held := give s.held r }
    some (if r = .ctx then { s with orphans := s.threads } else s)

/-- What `topologize` allocates is in the topology, also when it fails. -/
def grow (s : Ledger) (before after : Topology) : Ledger :=
  let n := s.held .zone + (nodes after.zone - nodes before.zone)
  { s with held := Function.update s.held .zone n }

/-- These elements of `topmap` have been touched. -/
def touch (s : Ledger) (elems : Nat) (touched : List Nat) : Ledger :=
  { s with wild := s.wild || touched.any (elems ≤ ·) }

def next (s : Ledger) : (o : Op) → o.Rep → Option Ledger
  | .create r, ok =>
    if ok then some (s.create r)
    else some (if r = .ctx then { s with refused := true } else s)
  | .realloc r null, ok => some (if ok && null then s.create r else s)
  | .release r, _ => s.release r
  | .x86cpuid _, _ => some (s.create .details)
  | .cudaid _, (e, _) => some (if e = 0 then s.create .details else s)
  | .topologize elems t aid thread core pkg cputype, mem =>
    let after := (Hardware.topologize mem t aid thread core pkg cputype).2
    some ((s.grow t after).touch elems after.touched)
  | .call .pthreadCreate, failed => some (if failed then s else { s with threads := s.threads + 1 })
  -- the thread has ended
  | .pthreadJoin, _ => some { s with threads := s.threads - 1 }
  -- so have all of them
  | .blockThread, _ => some { s with threads := 0 }
  | _, _ => some s

end Ledger

def fails (c : Call) : Prog Bool := Lib.Prog.perform (Op.call c)

def create (r : Resource) : Prog Bool := Lib.Prog.perform (Op.create r)

def release (r : Resource) : Prog Unit := Lib.Prog.perform (Op.release r)

def realloc (r : Resource) (null : Bool) : Prog Bool := Lib.Prog.perform (Op.realloc r null)

end Libtorque.Startup
