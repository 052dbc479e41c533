import Libtorque.Ops
import Mathlib.Algebra.Group.Int.Defs

/-! # Entries of the event tables, and their registration with epoll -/
namespace Libtorque

def setEvsourceRx (fd : Nat) (rx : Option Fn) : Prog Unit := perform (.setEvsourceRx fd rx)

def setEvsourceTx (fd : Nat) (tx : Option Fn) : Prog Unit := perform (.setEvsourceTx fd tx)

def setupEvsource (fd : Nat) (rfxn tfxn : Option Fn) (v : CbState) : Prog Unit := do
  setEvsourceRx fd rfxn
  setEvsourceTx fd tfxn
  perform (.setEvsourceState fd v)

/-- Arms a one-shot descriptor again. -/
def restorefd (fd : Nat) (eflags : Events) : Prog Int := do
  if ← epollCtl .mod fd (EVEDGET ||| EVONESHOT ||| eflags) then pure 0 else pure (-1)

def addFdEvent (fd : Nat) (rfxn tfxn : Option Fn) (eflags : Events) : Prog Int :=
  -- enforce allowed eflags
  if eflags &&& ~~~EPOLLONESHOT ≠ 0 then pure (-1)
  else do
    let e := EPOLLET ||| EPOLLPRI ||| eflags
    let e := if rfxn.isSome then e ||| EVREAD else e
    let e := if tfxn.isSome then e ||| EVWRITE else e
    if ← epollCtl .add fd e then pure 0 else pure (-1)

/-- The descriptor as the `unsigned` that is compared with `fdarraysize`. -/
def unsigned (fd : Int) : Nat := (fd % 2 ^ 32).toNat

/-- The entry is set up before the kernel is asked. -/
def addFdToEvhandler (fd : Int) (rfxn tfxn : Option Fn) (cbstate : CbState)
    (eflags : Events) : Prog Int := do
  let size ← perform .fdarraysize
  if unsigned fd ≥ size then pure (-1)
  else
    setupEvsource (unsigned fd) rfxn tfxn cbstate
    let r ← addFdEvent (unsigned fd) rfxn tfxn eflags
    if r ≠ 0 then pure (-1) else pure 0

end Libtorque
