import Libtorque.Events.Sources

/-! # Buffered sources: the receive buffer and its handlers -/
namespace Libtorque

/-! ## The buffer -/

/-- `rxbuffer_advance`, of a buffer and the bytes it points to. -/
def rxbufferAdvance (rxb : RxBuf) (buffer : List UInt8) (s : Nat) : RxBuf × List UInt8 :=
  let rxb := { rxb with bufate := sizeAdd rxb.bufate s }
  if rxb.bufate = rxb.buftot then ({ rxb with bufoff := 0, bufate := 0 }, buffer)
  else if rxb.bufoff = rxb.buftot then
    -- memmove(buffer, buffer + bufate, n)
    let n := sizeSub rxb.bufoff rxb.bufate
    ({ rxb with bufoff := n, bufate := 0 },
      (buffer.drop rxb.bufate).take n ++ buffer.drop n)
  else (rxb, buffer)

/-- `rxbuffer_valid`: how much input the client has yet to release, and what it is. -/
def rxbufferValid (rxb : RxBuf) (buffer : List UInt8) : Nat × List UInt8 :=
  (sizeSub rxb.bufoff rxb.bufate, buffer.drop rxb.bufate)

def initializeRxbuffer (c : Nat) : Prog Int := do
  let rxb ← rxbuf c
  match ← getBigPage with
  | (s, some page) =>
    setRxbuf c { rxb with buffer := some page.ptr, buftot := s, bufoff := 0, bufate := 0 }
    pure 0
  | (s, none) =>
    setRxbuf c { rxb with buffer := none, buftot := s }
    pure (-1)

def freeRxbuffer (c : Nat) : Prog Unit := do
  let rxb ← rxbuf c
  dealloc rxb.buffer rxb.buftot

def createRxbuffercb (rx tx : Option Nat) (cbstate : Nat) : Prog (Option Nat) := do
  match ← malloc with
  | none => pure none
  | some ret =>
    let r ← initializeRxbuffer ret
    if r = 0 then
      let rxb ← rxbuf ret
      setRxbuf ret { rxb with rx := rx, tx := tx }
      setFields ret { cbstate := cbstate }
      pure (some ret)
    else
      free ret
      pure none

/-- Only the pages go back. -/
def freeRxbuffercb (c : Nat) : Prog Unit := freeRxbuffer c

/-! ## The client's callbacks -/

/-- A buffered callback: the client may release input and close its descriptor
before it returns. -/
def callBuffered (n : Nat) (kind : CbKind) (f : Option Nat) (fd c : Nat) : Prog Int := do
  perform (.callback kind f fd)
  loop n () fun _ => do
    match ← perform (.client kind) with
    | .advance s =>
      perform (.rxbufferAdvance c s)
      pure (.inl ())
    | .close =>
      close fd
      pure (.inl ())
    | .sslTx _ => pure (.inl ())
    | .ret v => pure (.inr v)

/-! ## The handlers -/

def rxback (n fd c : Nat) : Prog Int := do
  let rxb ← rxbuf c
  if sizeSub rxb.bufoff rxb.bufate ≠ 0 then callBuffered n .rx rxb.rx fd c
  else pure 0

def txback (n fd c : Nat) : Prog Int := do
  let rxb ← rxbuf c
  if sizeSub rxb.bufoff rxb.bufate ≠ 0 then
    let r ← callBuffered n .tx rxb.tx fd c
    if r = 0 then restorefd fd EVREAD else pure (-1)
  else pure 0

def growrxbuf (c : Nat) : Prog Int := do
  let rxb ← rxbuf c
  let news := sizeMul rxb.buftot 2
  match ← perform (.modPages rxb.buffer rxb.buftot news) with
  | none => pure (-1)
  | some tmp =>
    setRxbuf c { rxb with buffer := some tmp.ptr, buftot := news }
    pure 0

def bufferedTxfxn (n fd c : Nat) : Prog Unit := do
  let r ← txback n fd c
  if r ≠ 0 then close fd else pure ()

/-- How `buffered_rxfxn` leaves its loop: by `break`, to close the descriptor,
or by `return`. -/
inductive Leave where
  | brk
  | ret
deriving DecidableEq, Repr

/-- On any internal error, we're responsible for closing the fd. -/
def Leave.finish (fd : Nat) : Leave → Prog Unit
  | brk => close fd
  | ret => pure ()

/-- What the loop does first when the buffer is full. -/
def bufferedRxfxnFull (n fd c : Nat) : Prog (Option Leave) := do
  let cb ← rxback n fd c
  if cb ≠ 0 then pure (some .ret)
  else
    let rxb ← rxbuf c
    if sizeSub rxb.buftot rxb.bufoff = 0 then
      let r ← growrxbuf c
      if r ≠ 0 then pure (some .brk) else pure none
    else pure none

/-- The rest of the loop's body. -/
def bufferedRxfxnRead (n fd c : Nat) : Prog (Unit ⊕ Leave) := do
  let rxb ← rxbuf c
  let res ← perform (.read fd c rxb.bufoff (sizeSub rxb.buftot rxb.bufoff))
  if res.value > 0 then
    setRxbuf c { rxb with bufoff := sizeAdd rxb.bufoff res.value.toNat }
    pure (.inl ())
  else if res.value = 0 then
    let cb ← callBuffered n .rx rxb.rx fd c
    if cb ≠ 0 then pure (.inr .ret)
    else
      let r ← restorefd fd EVWRITE
      if r ≠ 0 then pure (.inr .brk) else pure (.inr .ret)
  else
    let e ← errno
    if e = .eagain then
      let cb ← rxback n fd c
      if cb ≠ 0 then pure (.inr .ret)
      else
        let r ← restorefd fd EVREAD
        if r ≠ 0 then pure (.inr .brk) else pure (.inr .ret)
    else if e ≠ .eintr then pure (.inr .brk)
    else pure (.inl ())

def bufferedRxfxn (n fd c : Nat) : Prog Unit := do
  let out ← loop n () fun _ => do
    let rxb ← rxbuf c
    if sizeSub rxb.buftot rxb.bufoff = 0 then
      match ← bufferedRxfxnFull n fd c with
      | some out => pure (.inr out)
      | none => bufferedRxfxnRead n fd c
    else bufferedRxfxnRead n fd c
  out.finish fd

end Libtorque
