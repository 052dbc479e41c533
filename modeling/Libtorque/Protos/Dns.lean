import Libtorque.Torque
import Libtorque.Dispatch.Threads

/-! # Lookups

The descriptors that adns waits on are registered one-shot, by `load_dns_fds`,
and armed again by `restore_dns_fds`. What adns waits on is its own affair: any
of its calls may change it, and open and close descriptors. -/
namespace Libtorque.Dns
open Lib

/-! ## adns -/

/-- The events of poll(2). -/
abbrev PollEvents := BitVec 16

def POLLIN : PollEvents := 0x001
def POLLPRI : PollEvents := 0x002
def POLLOUT : PollEvents := 0x004

structure Pollfd where
  fd : Nat
  events : PollEvents
deriving DecidableEq, Repr

def Pollfd.reads (p : Pollfd) : Bool := p.events &&& (POLLIN ||| POLLPRI) != 0

def Pollfd.writes (p : Pollfd) : Bool := p.events &&& POLLOUT != 0

/-- What a call of adns leaves: what `adns_beforepoll` reports from then on, and
the descriptors that the call has closed and opened. -/
structure Adns where
  waits : List Pollfd := []
  closed : List Nat := []
  opened : List Nat := []
  few : waits.length ≤ 4 := by decide
  once : (waits.map Pollfd.fd).Nodup := by decide
  ints : ∀ p ∈ waits, p.fd < 2 ^ 31 := by decide
deriving DecidableEq

/-- The event queue and tables, and adns. -/
structure DnsWorld extends World where
  adns : Adns := {}
  commonSignalfd : Int := -1

namespace DnsWorld

/-- After a call of adns. -/
def after (s : DnsWorld) (a : Adns) : DnsWorld :=
  { s with
    fds := fun fd => if fd ∈ a.opened then .idle else if fd ∈ a.closed then .closed else s.fds fd
    adns := a }

/-- A call of adns, whose descriptors are its own. -/
def calls (s : DnsWorld) (a : Adns) : Option DnsWorld :=
  if (∀ fd ∈ a.opened, s.fds fd = .closed ∨ fd ∈ a.closed) ∧
      ∀ p ∈ a.waits, (p.fd : Int) ≠ s.commonSignalfd then
    some (s.after a)
  else none

theorem calls_cases {s t : DnsWorld} {a : Adns} (h : s.calls a = some t) :
    (∀ p ∈ a.waits, (p.fd : Int) ≠ s.commonSignalfd) ∧ t = s.after a := by
  obtain ⟨hown, ht⟩ := Option.ite_none_right_eq_some.mp h
  cases ht
  exact ⟨hown.2, rfl⟩

/-- An event queue in which nothing is registered. -/
def unwatched (s : DnsWorld) : DnsWorld :=
  { s with fds := fun fd => match s.fds fd with | .watched _ => .idle | d => d }

end DnsWorld

/-! ## Operations -/

inductive DnsOp where
  | sys (o : Op)
  | adnsInit
  | adnsFinish
  | adnsSubmit (dm : Nat)
  | adnsCancel
  | adnsBeforepoll
  | adnsProcessany
  | adnsCheck
  | adnsAfterpoll (fd : Nat)
  | gettimeofday
  | createEfd
  | closeEfd
  | commonSignalfd
  | callback (cb : Option Nat) (cbstate : Nat)
  | freeAnswer

/-- The calls of adns that return something return an `errno`; `adns_check` gives
the context of an answer as well. -/
abbrev DnsOp.Rep : DnsOp → Type
  | sys o => o.Rep
  | adnsInit | adnsSubmit _ | adnsBeforepoll | adnsProcessany => Int × Adns
  | adnsCheck => Int × Nat × Adns
  | adnsFinish | adnsCancel | adnsAfterpoll _ => Adns
  | gettimeofday | createEfd => Bool
  | commonSignalfd => Int
  -- the client may do anything, further lookups included
  | callback .. => DnsWorld
  | closeEfd | freeAnswer => Unit

/-- `adns_beforepoll` only fails for want of space. -/
def DnsWorld.next (s : DnsWorld) : (o : DnsOp) → o.Rep → Option DnsWorld
  | .sys o, r => (s.toWorld.next o r).map fun w => { s with toWorld := w }
  | .adnsInit, (_, a) => s.calls a
  | .adnsSubmit _, (_, a) => s.calls a
  | .adnsBeforepoll, (r, a) => if r = 0 then s.calls a else none
  | .adnsProcessany, (_, a) => s.calls a
  | .adnsCheck, (_, _, a) => s.calls a
  | .adnsFinish, a => s.calls a
  | .adnsCancel, a => s.calls a
  | .adnsAfterpoll _, a => s.calls a
  | .createEfd, ok => some (if ok then s.unwatched else s)
  | .closeEfd, _ => some s.unwatched
  | .commonSignalfd, fd => if fd = s.commonSignalfd then some s else none
  | .callback cb _, t => if cb = none then none else some t
  | .gettimeofday, _ => some s
  | .freeAnswer, _ => some s

abbrev DnsProg (α : Type) := Lib.Prog DnsOp DnsOp.Rep α

abbrev dns (o : DnsOp) : DnsProg o.Rep := Lib.Prog.perform o

abbrev sys {α : Type} (p : Prog α) : DnsProg α := p.embed .sys fun _ r => r

/-! ## The code -/

/-- The event tables hold `adns_rx_callback` and `adns_tx_callback` in the way
in which they hold functions of the client. -/
def rxfxn : Fn := .client 1

def txfxn : Fn := .client 2

def torqueDnsInit : DnsProg Int := do
  let (r, _) ← dns .adnsInit
  if r ≠ 0 then pure (-1) else pure 0

def torqueDnsShutdown : DnsProg Unit := do
  let _ ← dns .adnsFinish

/-- `while(nfds--)`, over what `adns_beforepoll` has reported. -/
def eachPollfd (f : Pollfd → DnsProg Int) (ret : Int) : List Pollfd → DnsProg Int
  | [] => pure ret
  | p :: ps => do
    let r ← f p
    eachPollfd f (if r ≠ 0 then -1 else ret) ps

def restorePollfd (p : Pollfd) : DnsProg Int :=
  let flags := if p.reads then EVREAD else 0
  let flags := flags ||| if p.writes then EVWRITE else 0
  sys (restorefd p.fd flags)

def restoreDnsFds : DnsProg Int := do
  let (r, a) ← dns .adnsBeforepoll
  if r ≠ 0 then pure (-1) else eachPollfd restorePollfd 0 a.waits.reverse

def createDnsmarshal (cb : Option Nat) (cbstate : Nat) : Prog (Option Nat) := do
  match ← malloc with
  | none => pure none
  | some ret =>
    setFields ret { cbstate := cbstate, txfxn := cb }
    pure (some ret)

/-- The answers that there are, each given to its callback. -/
def checkAnswers (n : Nat) : DnsProg Int :=
  Lib.Prog.loop (fun _ : Unit => do
    let (r, ds, _) ← dns .adnsCheck
    if r = 0 then do
      let marsh ← sys (fields ds)
      let _ ← dns (.callback marsh.txfxn marsh.cbstate)
      sys (free ds)
      dns .freeAnswer
      pure (.inl ())
    else pure (.inr r)) n ()

def adnsRxCallback (n : Nat) : DnsProg Unit := do
  let (r, _) ← dns .adnsProcessany
  if r ≠ 0 then pure ()
  else
    let _ ← checkAnswers n
    let _ ← restoreDnsFds

def adnsTxCallback (fd : Nat) : DnsProg Unit := do
  let _ ← dns .gettimeofday
  let _ ← dns (.adnsAfterpoll fd)

def loadPollfd (dctx : Nat) (p : Pollfd) : DnsProg Int :=
  sys (addFdToEvhandler p.fd (if p.reads then some rxfxn else none)
    (if p.writes then some txfxn else none) (.client dctx) EVONESHOT)

/-- Descriptors that cannot be added are passed over. -/
def loadDnsFds (dctx : Nat) : DnsProg Int := do
  let (r, a) ← dns .adnsBeforepoll
  if r ≠ 0 then pure (-1)
  else
    let _ ← eachPollfd (loadPollfd dctx) 0 a.waits.reverse
    pure 0

/-! ## Its callers -/

def addCommonfdsToEvhandler (fd : Int) : DnsProg Int :=
  if fd < 0 then pure (-1)
  else do
    if ← sys (epollCtl .add fd.toNat EVREAD) then pure 0 else pure (-1)

def addEvqueueBaseevents (dctx : Nat) : DnsProg Int := do
  if (← loadDnsFds dctx) ≠ 0 then pure (-1)
  else addCommonfdsToEvhandler (← dns .commonSignalfd)

def initEvqueue (dctx : Nat) : DnsProg Int := do
  if (← torqueDnsInit) ≠ 0 then pure (-1)
  else if ← dns .createEfd then
    if (← addEvqueueBaseevents dctx) ≠ 0 then
      dns .closeEfd
      torqueDnsShutdown
      pure (-1)
    else pure 0
  else
    torqueDnsShutdown
    pure (-1)

def torqueAddlookupDns (dctx : Nat) (rx : Option Nat) (state : Nat) : DnsProg Int := do
  match ← sys (createDnsmarshal rx state) with
  | none => pure TorqueErr.resource.code
  | some dm =>
    let (r, _) ← dns (.adnsSubmit dm)
    if r ≠ 0 then
      sys (free dm)
      pure TorqueErr.inval.code
    else if (← loadDnsFds dctx) ≠ 0 then
      let _ ← dns .adnsCancel
      sys (free dm)
      pure TorqueErr.assert.code
    else pure 0

/-- A call after which what adns waits on is to be watched; a callback, which
returns nothing, returns 0 here. -/
inductive DnsCall where
  | init (dctx : Nat)
  | addlookup (dctx : Nat) (rx : Option Nat) (state : Nat)
  | rx (n : Nat)
  | tx (fd : Nat)

def DnsCall.prog : DnsCall → DnsProg Int
  | init dctx => initEvqueue dctx
  | addlookup dctx f state => torqueAddlookupDns dctx f state
  | rx n => do
    adnsRxCallback n
    pure 0
  | tx fd => do
    adnsTxCallback fd
    pure 0

end Libtorque.Dns
