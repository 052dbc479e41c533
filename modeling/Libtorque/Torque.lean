import Libtorque.Protos.Ssl

/-! # Registration: the `torque_add*` calls

Each gives a `torque_err`, or the -1 of `add_fd_to_evhandler`, as an `int`. -/
namespace Libtorque

/-! ## Connections in progress -/

def createConncb (rx tx : Option Nat) (state : Nat) : Prog (Option Nat) := do
  match ← malloc with
  | none => pure none
  | some ret =>
    setFields ret { cbstate := state, txfxn := tx, rxfxn := rx }
    pure (some ret)

def freeConncb (c : Nat) : Prog Unit := free c

/-! ## Timers -/

def createTimerfdMarshal (tfxn : Option Nat) (cbstate : Nat) : Prog (Option Nat) := do
  match ← malloc with
  | none => pure none
  | some ret =>
    setFields ret { cbstate := cbstate, txfxn := tfxn }
    pure (some ret)

def addTimerToEvhandler (tfxn : Option Nat) (cbstate : Nat) : Prog Int := do
  match ← createTimerfdMarshal tfxn cbstate with
  | none => pure TorqueErr.resource.code
  | some tm =>
    match ← perform .timerfdCreate with
    | none =>
      free tm
      let e ← errno
      if e = .other 22 then pure TorqueErr.inval.code          -- EINVAL
      else if e = .other 19 ∨ e = .other 38 then pure TorqueErr.unavail.code -- ENODEV, ENOSYS
      else pure TorqueErr.resource.code
    | some fd =>
      if ← perform (.timerfdSettime fd) then
        let r ← addFdToEvhandler fd (some .timerPassthru) none (.object tm) 0
        if r ≠ 0 then
          close fd
          free tm
          pure TorqueErr.assert.code
        else pure 0
      else
        close fd
        free tm
        pure TorqueErr.inval.code

/-! ## The calls -/

def torqueAddtimer (fxn : Option Nat) (state : Nat) : Prog Int := addTimerToEvhandler fxn state

def torqueAddfd (fd : Int) (rx tx : Option Nat) (state : Nat) : Prog Int := do
  if fd < 0 then pure TorqueErr.inval.code
  else
    match ← createRxbuffercb rx tx state with
    | none => pure TorqueErr.resource.code
    | some cbctx =>
      let ret ← addFdToEvhandler fd (rx.map fun _ => .bufferedRxfxn)
        (tx.map fun _ => .bufferedTxfxn) (.object cbctx) EVONESHOT
      if ret ≠ 0 then
        freeRxbuffercb cbctx
        pure ret
      else pure ret

def torqueAddfdUnbuffered (fd : Int) (rx tx : Option Fn) (state : CbState) : Prog Int :=
  if fd < 0 then pure TorqueErr.inval.code
  else addFdToEvhandler fd rx tx state EVONESHOT

def torqueAddfdConcurrent (fd : Int) (rx tx : Option Fn) (state : CbState) : Prog Int :=
  if fd < 0 then pure TorqueErr.inval.code
  else addFdToEvhandler fd rx tx state 0

/-- What `torque_addconnector` and `torque_addconnector_unbuffered` share:
`add` registers a descriptor that is connected at once. -/
def addconnector (fd : Int) (rx tx : Option Nat) (state : Nat) (add : Prog Int) : Prog Int := do
  if fd < 0 then pure TorqueErr.inval.code
  else if ← perform (.connect fd.toNat) then add
  else
    let e ← errno
    if e = .einprogress then
      match ← createConncb rx tx state with
      | none =>
        let e ← errno
        pure (TorqueErr.syscall e).code
      | some connctx =>
        let ret ← addFdToEvhandler fd none (some .connUnbufferedTxfxn) (.object connctx) EVONESHOT
        if ret ≠ 0 then
          freeConncb connctx
          pure ret
        else pure ret
    else pure (TorqueErr.syscall e).code

def torqueAddconnector (fd : Int) (rx tx : Option Nat) (state : Nat) : Prog Int :=
  addconnector fd rx tx state (torqueAddfd fd rx tx state)

def torqueAddconnectorUnbuffered (fd : Int) (rx tx : Option Nat) (state : Nat) : Prog Int :=
  addconnector fd rx tx state
    (torqueAddfdUnbuffered fd (rx.map .client) (tx.map .client) (.client state))

def torqueAddssl (fd : Int) (sslctx : Nat) (rx tx : Option Nat) (state : Nat) : Prog Int := do
  match ← createSslCbstate sslctx state rx tx with
  | none => pure TorqueErr.resource.code
  | some cbs =>
    let r ← torqueAddfdUnbuffered fd (some .sslAcceptRxfxn) none (.object cbs)
    if r ≠ 0 then
      freeSslCbstate cbs
      pure TorqueErr.resource.code
    else pure 0

/-- A call made by the client, with its arguments. -/
inductive AddCall where
  | addfd (fd : Int) (rx tx : Option Nat) (state : Nat)
  | addfdUnbuffered (fd : Int) (rx tx : Option Nat) (state : Nat)
  | addfdConcurrent (fd : Int) (rx tx : Option Nat) (state : Nat)
  | addconnector (fd : Int) (rx tx : Option Nat) (state : Nat)
  | addconnectorUnbuffered (fd : Int) (rx tx : Option Nat) (state : Nat)
  | addssl (fd : Int) (sslctx : Nat) (rx tx : Option Nat) (state : Nat)
  | addtimer (fxn : Option Nat) (state : Nat)
deriving DecidableEq, Repr

def AddCall.prog : AddCall → Prog Int
  | addfd fd rx tx state => torqueAddfd fd rx tx state
  | addfdUnbuffered fd rx tx state =>
    torqueAddfdUnbuffered fd (rx.map .client) (tx.map .client) (.client state)
  | addfdConcurrent fd rx tx state =>
    torqueAddfdConcurrent fd (rx.map .client) (tx.map .client) (.client state)
  | addconnector fd rx tx state => torqueAddconnector fd rx tx state
  | addconnectorUnbuffered fd rx tx state => torqueAddconnectorUnbuffered fd rx tx state
  | addssl fd sslctx rx tx state => torqueAddssl fd sslctx rx tx state
  | addtimer fxn state => torqueAddtimer fxn state

end Libtorque
