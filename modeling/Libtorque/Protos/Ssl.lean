import Libtorque.Buffers

/-! # SSL connections: the callback state, `ssl_tx`, and the data handlers -/
namespace Libtorque

/-! ## The callback state -/

def createSslCbstate (sslctx cbstate : Nat) (rx tx : Option Nat) : Prog (Option Nat) := do
  match ← malloc with
  | none => pure none
  | some ret =>
    let r ← initializeRxbuffer ret
    if r = 0 then
      setFields ret
        { sslctx := sslctx, ssl := none, cbstate := cbstate, rxfxn := rx, txfxn := tx }
      pure (some ret)
    else
      free ret
      pure none

def freeSslCbstate (c : Nat) : Prog Unit := do
  let sc ← fields c
  perform (.sslFree sc.ssl)
  freeRxbuffer c
  free c

/-- The end of every handler's error path. -/
def freeAndClose (c fd : Nat) : Prog Unit := do
  freeSslCbstate c
  close fd

/-! ## Sending -/

/-- What `ssl_tx` does when `SSL_write` has failed, having sent `ret` bytes. -/
def sslTxError (fd : Nat) (err : SslErr) (ret : Int) : Prog Int := do
  match err with
  | .wantRead =>
    setEvsourceRx fd (some .sslRxfxn)
    setEvsourceTx fd none
    let r ← restorefd fd EVREAD
    if r ≠ 0 then pure (-1) else pure ret
  | .wantWrite =>
    let r ← restorefd fd (EVREAD ||| EVWRITE)
    if r ≠ 0 then pure (-1) else pure ret
  | .other _ => pure (-1)

def sslTx (n fd c : Nat) (len : Int) : Prog Int :=
  loop n 0 fun ret => do
    if ret < len then
      let ssl ← fields c
      let r ← perform (.sslWrite ssl.ssl (len - ret))
      if r ≥ 0 then pure (.inl (ret + r))
      else
        let err ← sslGetError ssl.ssl r
        let out ← sslTxError fd err ret
        pure (.inr out)
    else pure (.inr ret)

/-- A callback of an SSL connection, which may also send. -/
def callSsl (n : Nat) (kind : CbKind) (f : Option Nat) (fd c : Nat) : Prog Int := do
  perform (.callback kind f fd)
  loop n () fun _ => do
    match ← perform (.client kind) with
    | .advance s =>
      perform (.rxbufferAdvance c s)
      pure (.inl ())
    | .sslTx len =>
      let _ ← sslTx n fd c len
      pure (.inl ())
    | .close =>
      close fd
      pure (.inl ())
    | .ret v => pure (.inr v)

/-! ## Receiving -/

/-- The bytes go to where the client's window begins. -/
def rxbufferSsl (c : Nat) (ssl : Option Nat) : Prog Int := do
  let rxb ← rxbuf c
  let res ← perform (.sslRead ssl c rxb.bufate (intOf (sizeSub rxb.buftot rxb.bufoff)))
  if res.value > 0 then
    setRxbuf c { rxb with bufoff := sizeAdd rxb.bufoff res.value.toNat }
    pure res.value
  else pure res.value

/-- The loop of `ssl_rxfxn` and `ssl_txrxfxn`: `none` when the client asks for
the connection to be closed, else what `SSL_read` returned last. -/
def sslReadLoop (more : Int → Bool) (n fd c : Nat) : Prog (Option Int) :=
  loop n () fun _ => do
    let sc ← fields c
    let r ← rxbufferSsl c sc.ssl
    if more r then
      let sc ← fields c
      let cb ← callSsl n .sslRx sc.rxfxn fd c
      if cb ≠ 0 then pure (.inr none) else pure (.inl ())
    else pure (.inr (some r))

def sslTxrxfxn (n fd c : Nat) : Prog Unit := do
  match ← sslReadLoop (fun r => r > 0) n fd c with
  | none => freeAndClose c fd
  | some r =>
    let sc ← fields c
    match ← sslGetError sc.ssl r with
    | .wantRead =>
      setEvsourceRx fd (some .sslRxfxn)
      setEvsourceTx fd none
      let r ← restorefd fd EVREAD
      if r ≠ 0 then freeAndClose c fd else pure ()
    | .wantWrite =>
      -- just let it loop
      let r ← restorefd fd (EVREAD ||| EVWRITE)
      if r ≠ 0 then freeAndClose c fd else pure ()
    | .other _ => freeAndClose c fd

def sslRxfxn (n fd c : Nat) : Prog Unit := do
  match ← sslReadLoop (fun r => r ≥ 0) n fd c with
  | none => freeAndClose c fd
  | some r =>
    let sc ← fields c
    match ← sslGetError sc.ssl r with
    | .wantWrite =>
      setEvsourceRx fd none
      setEvsourceTx fd (some .sslTxrxfxn)
      let r ← restorefd fd (EVWRITE ||| EVREAD)
      if r ≠ 0 then freeAndClose c fd else pure ()
    | .wantRead =>
      -- just let it loop
      let r ← restorefd fd EVREAD
      if r ≠ 0 then freeAndClose c fd else pure ()
    | .other _ => freeAndClose c fd

def sslTxfxn (n fd c : Nat) : Prog Unit := do
  let sc ← fields c
  if sc.txfxn = none then freeAndClose c fd
  else
    let r ← callSsl n .sslTx sc.txfxn fd c
    if r ≠ 0 then freeAndClose c fd else pure ()

end Libtorque
