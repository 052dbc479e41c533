import Libtorque.Startup.Detect

/-! # `torque_init` and `torque_stop`

`*e` is passed along as a number. Whether a function that returns an int fails
is a Bool. -/
namespace Libtorque.Startup

/-- The calls in turn, up to the first that fails. -/
def anyFails : List Call → Prog Bool
  | [] => pure false
  | c :: cs => do if ← fails c then pure true else anyFails cs

/-! ## Event tables -/

def prepCommonSigset : Prog Bool := anyFails [.sigemptyset, .sigaddset, .sigaddset]

def initSignalHandlers : Prog Bool := do
  let _ ← fails .sigfillset
  anyFails [.handleTerm, .handleInt]

/-- EVTHREAD_TERM is SIGTERM, EVTHREAD_INT is SIGINT. -/
def initializeCommonSources (sigarraysize : Nat) : Prog Bool := do
  if 15 ≥ sigarraysize ∨ 2 ≥ sigarraysize then pure true
  else if ← prepCommonSigset then pure true
  else if ← create .signalfd then initSignalHandlers
  else pure true

def maxFds : Prog Int := do
  let sc ← Lib.Prog.perform Op.openMax
  if sc ≤ 0 then
    let sc ← Lib.Prog.perform Op.dtablesize
    -- FOPEN_MAX
    if sc ≤ 0 then pure 16 else pure sc
  else pure sc

/-- `fdarraysize` is an unsigned int. -/
def initializeEtables : Prog Bool := do
  let fds ← maxFds
  if fds.toNat % 2 ^ 32 = 0 then pure true
  else if ← create .fdarray then
    let sigarraysize ← Lib.Prog.perform Op.sigrtmax
    if ← create .sigarray then
      if ← initializeCommonSources sigarraysize then
        release .sigarray
        release .fdarray
        pure true
      else pure false
    else
      release .fdarray
      pure true
  else pure true

def freeEtables : Prog Unit := do
  release .signalfd
  release .sigarray
  release .fdarray

/-! ## The event queue -/

/-- `load_dns_fds`, whose registrations may fail unnoticed and create nothing,
and `add_commonfds_to_evhandler`. -/
def addEvqueueBaseevents : Prog Bool := anyFails [.adnsBeforepoll, .keventAdd]

/-- EPOLL_CLOEXEC is not 0, so `create_efd` leaves the flags alone. -/
def initEvqueue : Prog Bool := do
  if ← create .dns then
    if ← create .efd then
      if ← addEvqueueBaseevents then
        release .efd
        release .dns
        pure true
      else pure false
    else
      release .dns
      pure true
  else pure true

def destroyEvqueue : Prog Unit := do
  release .efd
  release .dns

/-! ## The context -/

/-- Without memory for the context, `*e` stays as it is. -/
def createTorqueCtx (e : Int) : Prog (Option TorqueCtx × Int) := do
  if ← create .ctx then
    if ← initializeEtables then
      release .ctx
      pure (none, TorqueErr.resource.code)
    else if ← initEvqueue then
      freeEtables
      release .ctx
      pure (none, TorqueErr.resource.code)
    else pure (some {}, e)
  else pure (none, e)

def freeTorqueCtx (c : TorqueCtx) : Prog Unit := do
  freeEtables
  let _ ← freeArchitecture c
  destroyEvqueue
  release .ctx

def torqueInitSigmasked (e : Int) : Prog (Option TorqueCtx × Int) := do
  match ← createTorqueCtx e with
  | (none, e) => pure (none, e)
  | (some c, _) =>
    let (e, c) ← detectArchitecture c
    if e ≠ 0 then
      freeTorqueCtx c
      pure (none, e)
    else pure (some c, e)

/-- The signals left unblocked: ILL, ABRT, FPE, SEGV, BUS, XCPU, STKFLT. -/
def makesigmask : Prog Bool := anyFails (.sigfillset :: List.replicate 7 .sigdelset)

def torqueSigmask : Prog Int := do
  if ← anyFails [.sigemptyset, .sigaddset, .sigaddset] then pure TorqueErr.assert.code
  else if ← fails .sigBlock then pure TorqueErr.assert.code
  else pure 0

/-- What it returns is not looked at. -/
def torqueStop : Option TorqueCtx → Prog Unit
  | none => pure ()
  | some c => do
    if (← torqueSigmask) ≠ 0 then pure ()
    else
      let _ ← reapThreads c
      freeTorqueCtx c
      let _ ← fails .sigSetmask
      pure ()

/-- SIGPIPE is ignored if nothing else has been done about it. -/
def ignoreSigpipe (dfl : Bool) : Prog Bool := if dfl then fails .ignoreSigpipe else pure false

/-- What is returned, and `*e`. -/
def torqueInit : Prog (Option TorqueCtx × Int) := do
  match ← Lib.Prog.perform Op.sigaction with
  | none => pure (none, TorqueErr.assert.code)
  | some dfl =>
    if ← ignoreSigpipe dfl then pure (none, TorqueErr.assert.code)
    else if ← makesigmask then pure (none, TorqueErr.assert.code)
    else if ← fails .sigBlock then pure (none, TorqueErr.assert.code)
    else
      let (ret, e) ← torqueInitSigmasked TorqueErr.none.code
      if ← fails .sigSetmask then
        torqueStop ret
        pure (none, TorqueErr.assert.code)
      else pure (ret, e)

end Libtorque.Startup
