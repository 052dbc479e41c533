import Libtorque.Torque

/-! # SSL connections: accepting them -/
namespace Libtorque

/-- The slots that a connection has once its handshake is done. -/
def sslSlots (sc : CbFields) : Option Fn × Option Fn :=
  (sc.rxfxn.map fun _ => .sslRxfxn, sc.txfxn.map fun _ => .sslTxfxn)

def acceptContrxfxn (fd c : Nat) : Prog Unit := do
  let sc ← fields c
  let ret ← sslAccept sc.ssl
  if ret = 1 then
    let (rx, tx) := sslSlots sc
    let r ← initializeRxbuffer c
    if r ≠ 0 then freeAndClose c fd
    else
      setEvsourceRx fd rx
      setEvsourceTx fd tx
      let r ← restorefd fd
        ((if rx.isSome then EVREAD else 0) ||| (if tx.isSome then EVWRITE else 0))
      if r ≠ 0 then freeAndClose c fd else pure ()
  else
    match ← sslGetError sc.ssl ret with
    | .wantWrite =>
      setEvsourceRx fd none
      setEvsourceTx fd (some .acceptConttxfxn)
      let r ← restorefd fd EVWRITE
      if r ≠ 0 then freeAndClose c fd else pure ()
    | .wantRead =>
      -- just let it loop
      let r ← restorefd fd EVREAD
      if r ≠ 0 then freeAndClose c fd else pure ()
    | .other _ => freeAndClose c fd

/-- As above, but the descriptor is not armed again. -/
def acceptConttxfxn (fd c : Nat) : Prog Unit := do
  let sc ← fields c
  let ret ← sslAccept sc.ssl
  if ret = 1 then
    let (rx, tx) := sslSlots sc
    let r ← initializeRxbuffer c
    if r ≠ 0 then freeAndClose c fd
    else
      setEvsourceRx fd rx
      setEvsourceTx fd tx
  else
    match ← sslGetError sc.ssl ret with
    | .wantRead =>
      setEvsourceRx fd (some .acceptContrxfxn)
      setEvsourceTx fd none
    | .wantWrite => pure ()
    | .other _ => freeAndClose c fd

/-- Registers an accepted connection, or frees its state. -/
def sslRegister (sd csc : Nat) (rx tx : Option Fn) : Prog Int := do
  let r ← torqueAddfdUnbuffered sd rx tx (.object csc)
  if r ≠ 0 then
    freeSslCbstate csc
    pure (-1)
  else pure 0

/-- The handshake of `ssl_accept_internal`, once the state exists. -/
def sslHandshake (sd csc : Nat) (ssl : Option Nat) (sc : CbFields) : Prog Int := do
  let ret ← sslAccept ssl
  if ret = 1 then
    let (rx, tx) := sslSlots sc
    let r ← initializeRxbuffer csc
    if r ≠ 0 then
      freeSslCbstate csc
      pure (-1)
    else sslRegister sd csc rx tx
  else
    match ← sslGetError ssl ret with
    | .wantWrite => sslRegister sd csc none (some .acceptConttxfxn)
    | .wantRead => sslRegister sd csc (some .acceptContrxfxn) none
    | .other _ =>
      freeSslCbstate csc
      pure (-1)

/-- `sc` is the state of the listening descriptor. -/
def sslAcceptInternal (sd : Nat) (sc : CbFields) : Prog Int := do
  match ← createSslCbstate sc.sslctx sc.cbstate sc.rxfxn sc.txfxn with
  | none => pure (-1)
  | some csc =>
    match ← perform (.sslNew sc.sslctx) with
    | none =>
      freeSslCbstate csc
      pure (-1)
    | some ssl =>
      let f ← fields csc
      setFields csc { f with ssl := some ssl }
      let r ← perform (.sslSetFd (some ssl) sd)
      if r ≠ 1 then
        freeSslCbstate csc
        pure (-1)
      else sslHandshake sd csc (some ssl) sc

/-- One pass of the loop around `accept`: `some sd` for a connection, `none`
to give up. -/
def acceptOne (n fd : Nat) : Prog (Option Nat) :=
  loop n () fun _ => do
    match ← perform (.accept fd) with
    | some sd => pure (.inr (some sd))
    | none =>
      let e ← errno
      -- loop on EINTR
      if e ≠ .eintr then
        let _ ← restorefd fd EVREAD
        pure (.inr none)
      else pure (.inl ())

def sslAcceptRxfxn (n fd c : Nat) : Prog Unit :=
  loop n () fun _ => do
    match ← acceptOne n fd with
    | none => pure (.inr ())
    | some sd =>
      if ← perform (.fcntl sd) then
        let sc ← fields c
        let r ← sslAcceptInternal sd sc
        if r ≠ 0 then
          close sd
          pure (.inl ())
        else pure (.inl ())
      else
        close sd
        pure (.inl ())

end Libtorque
