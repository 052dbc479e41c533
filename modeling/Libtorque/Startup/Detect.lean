import Libtorque.Startup.Calls

/-! # Starting the threads, and detecting the hardware: `detect_architecture`

The functions thread the context through that they work on: those of its fields
that own memory, and whether `ctx->ev` is set. -/
namespace Libtorque.Startup
open Libtorque.Hardware

/-- `torque_nodet`; the number of page sizes is the length of the list. -/
structure TorqueNode where
  count : Nat
  psizevals : List Nat
  size : Nat

/-- The tables of a `torque_ctx` after `eventtables` and `evq`. The counts are
the lengths of the lists, and an empty one is a NULL pointer. -/
structure TorqueCtx where
  cpudescs : List TorqueCput := []
  topology : Topology := {}
  manodes : List TorqueNode := []
  ev : Bool := false

/-! ## Threads

The stack of a thread is not followed here: nothing gives it back. -/

def setupThreadStack : Prog Bool := do
  if ← fails .attrInit then pure true
  else if ← fails .getStack then
    let _ ← fails .attrDestroy
    pure true
  else if ← fails .attrSetstack then
    let _ ← fails .attrDestroy
    pure true
  else pure false

/-- Whether it fails. A thread that has started has entered itself in the
context by then, also when one of the calls after that fails. -/
def spawnThread (c : TorqueCtx) : Prog (Bool × TorqueCtx) := do
  if ← setupThreadStack then pure (true, c)
  else if ← fails .mutexInit then
    let _ ← fails .attrDestroy
    pure (true, c)
  else if ← fails .condInit then
    let _ ← fails .mutexDestroy
    let _ ← fails .attrDestroy
    pure (true, c)
  else if ← fails .pthreadCreate then
    let _ ← fails .mutexDestroy
    let _ ← fails .condDestroy
    let _ ← fails .attrDestroy
    pure (true, c)
  else
    let attr ← fails .attrDestroy
    let lock ← fails .mutexLock
    let (wait, started) ← Lib.Prog.perform Op.condWait
    let unlock ← fails .mutexUnlock
    let cond ← fails .condDestroy
    let mutex ← fails .mutexDestroy
    let c := { c with ev := c.ev || started }
    if attr || lock || wait || !started || unlock || cond || mutex then
      Lib.Prog.perform Op.pthreadJoin
      pure (true, c)
    else pure (false, c)

def reapThreads (c : TorqueCtx) : Prog Bool := do
  if c.ev then
    let kill ← fails .killTerm
    let block ← Lib.Prog.perform Op.blockThread
    pure (kill || block)
  else pure false

/-! ## Processors -/

def freeCpudetails : Prog Unit := release .details

/-- `free_cpudetails` of every type, and `free` of the array. -/
def freeCpudescs (c : TorqueCtx) : Prog TorqueCtx := do
  c.cpudescs.forM fun _ => freeCpudetails
  if c.cpudescs = [] then pure c
  else
    release .cpudescs
    pure { c with cpudescs := [] }

def detectCpudetails (aid : Nat) : Prog (Except TorqueErr Detected) := do
  if ← fails .pinThread then pure (.error .affinity)
  else match ← Lib.Prog.perform (Op.x86cpuid aid) with
    | none =>
      freeCpudetails
      pure (.error .cpudetect)
    | some d => pure (.ok d)

/-- `match_cputype`, else `add_cputype`, with the index of the slot. -/
def placeCputype (c : TorqueCtx) (d : TorqueCput) : Prog (Option Nat × TorqueCtx) :=
  match matchCputype c.cpudescs d with
  | some i => do
    freeCpudetails
    let types := c.cpudescs.modify i fun t => { t with elements := t.elements + 1 }
    pure (some i, { c with cpudescs := types })
  | none => do
    match addCputype (← realloc .cpudescs c.cpudescs.isEmpty) c.cpudescs { d with elements := 1 } with
    | none =>
      freeCpudetails
      pure (none, c)
    | some (i, types) => pure (some i, { c with cpudescs := types })

/-- The body of the loop of `detect_cputypes`; `elems` is the number of elements of
`topmap`. -/
def detectPass (elems : Nat) (c : TorqueCtx) (aid : Nat) : Prog (TorqueErr × TorqueCtx) := do
  match ← detectCpudetails aid with
  | .error e => pure (e, c)
  | .ok d =>
    match ← placeCputype c d.details with
    | (none, c) => pure (.resource, c)
    | (some cputype, c) =>
      let mem ← Lib.Prog.perform
        (Op.topologize elems c.topology aid d.thread d.core d.pkg cputype)
      match topologize mem c.topology aid d.thread d.core d.pkg cputype with
      | (.none, t) =>
        let (failed, c) ← spawnThread { c with topology := t }
        pure (if failed then .resource else .none, c)
      | (e, t) => pure (e, { c with topology := t })

/-- The loop of `detect_cputypes`, with `z` passes to go. -/
def detectLoop (elems : Nat) (mask : CpuSet) :
    Nat → Nat → TorqueCtx → Prog (TorqueErr × TorqueCtx)
  | 0, _, c => pure (.none, c)
  | z + 1, aid, c => do
    let aid := mask.next aid
    if aid = cpuSetsize then pure (.affinity, c)
    else match ← detectPass elems c aid with
      | (.none, c) => detectLoop elems mask z (aid + 1) c
      | (e, c) => pure (e, c)

/-- The `err:` path of `detect_cputypes`. -/
def cputypesErr (topmap : Bool) (ret : TorqueErr) (c : TorqueCtx) :
    Prog (TorqueErr × TorqueCtx) := do
  let _ ← fails .unpinThread
  let _ ← reapThreads c
  let c ← freeCpudescs c
  if topmap then
    release .topmap
    pure (ret, c)
  else pure (ret, c)

/-- The number of CPUs in the mask, and the mask. -/
def detectCpucount : Prog (Nat × CpuSet) := do
  match ← Lib.Prog.perform Op.getaffinity with
  | none => pure (0, .zero)
  | some mask => pure (mask.count, mask)

def detectCputypes (c : TorqueCtx) : Prog (TorqueErr × TorqueCtx) := do
  let (cpucount, mask) ← detectCpucount
  if cpucount = 0 then cputypesErr false .affinity c
  else if ← create .topmap then
    match ← detectLoop cpucount mask cpucount 0 c with
    | (.none, c) =>
      if ← fails .unpinThread then cputypesErr true .affinity c
      else
        release .topmap
        pure (.none, c)
    | (e, c) => cputypesErr true e c
  else cputypesErr false .resource c

/-! ## GPUs -/

/-- The loop of `detect_cuda`, with `n` devices to go. A device that `cudaid`
cannot identify gives -1, which is no `torque_err`. -/
def cudaLoop : Nat → Nat → TorqueCtx → Prog (Int × TorqueCtx)
  | 0, _, c => pure (0, c)
  | n + 1, i, c => do
    let (e, d) ← Lib.Prog.perform (Op.cudaid i)
    if e ≠ 0 then pure (-1, c)
    else match ← placeCputype c d with
      | (none, c) => pure (TorqueErr.resource.code, c)
      | (some _, c) => cudaLoop n (i + 1) c

def detectCuda (c : TorqueCtx) : Prog (Int × TorqueCtx) := do
  let devs ← Lib.Prog.perform Op.cudadevcount
  if devs < 0 then pure (TorqueErr.gpudetect.code, c) else cudaLoop devs.toNat 0 c

/-! ## Memories -/

/-- `add_pagesize`: the sizes stay sorted. -/
def addPagesize (vals : List Nat) (psize : Nat) : Prog (Option (List Nat)) := do
  if ← realloc .psizevals vals.isEmpty then
    pure (some (vals.takeWhile (· ≤ psize) ++ psize :: vals.dropWhile (· ≤ psize)))
  else pure none

def matchPagesize (vals : List Nat) (ps : Nat) : Bool := vals.any (ps ≤ ·)

/-- The loops of `determine_pagesizes` over the TLBs of all types: whether they
fail, and the page sizes so far. -/
def addTlbs : List Nat → List TorqueTlb → Prog (Bool × List Nat)
  | vals, [] => pure (false, vals)
  | vals, tlb :: tlbs =>
    if matchPagesize vals tlb.pagesize then addTlbs vals tlbs
    else do
      match ← addPagesize vals tlb.pagesize with
      | none => pure (true, vals)
      | some vals => addTlbs vals tlbs

def determinePagesizes (c : TorqueCtx) : Prog (Bool × List Nat) := do
  let psize ← Lib.Prog.perform Op.pagesize
  if psize ≤ 0 then pure (true, [])
  else match ← addPagesize [] psize.toNat with
    | none => pure (true, [])
    | some vals => addTlbs vals (c.cpudescs.flatMap TorqueCput.tlbdescs)

/-- In bytes, with the arithmetic of `uintmax_t`; 0 where it cannot be told. -/
def determineSysmem (pages psize : Int) (asrlim : Option Nat) : Nat :=
  if pages ≤ 0 ∨ psize ≤ 0 then 0
  else
    let ret := pages.toNat * psize.toNat % 2 ^ 64
    match asrlim with
    | none => ret
    | some lim => if 0 < lim ∧ lim ≠ 2 ^ 64 - 1 ∧ lim < ret then lim else ret

/-- Whatever libnuma says. -/
def detectNuma : Bool := false

def freeMemories (c : TorqueCtx) : Prog TorqueCtx := do
  c.manodes.forM fun node => if node.psizevals = [] then pure () else release .psizevals
  if c.manodes = [] then pure c
  else
    release .manodes
    pure { c with manodes := [] }

/-- The `err:` path of `detect_memories`. -/
def memoriesErr (vals : List Nat) (c : TorqueCtx) : Prog (Bool × TorqueCtx) := do
  let c ← freeMemories c
  if vals = [] then pure (true, c)
  else
    release .psizevals
    pure (true, c)

def detectMemories (c : TorqueCtx) : Prog (Bool × TorqueCtx) := do
  let (failed, vals) ← determinePagesizes c
  if failed then memoriesErr vals c
  else
    let (pages, psize, asrlim) ← Lib.Prog.perform Op.sysmem
    let size := determineSysmem pages psize asrlim
    if size = 0 then memoriesErr vals c
    else if ← realloc .manodes c.manodes.isEmpty then
      let c := { c with manodes := c.manodes ++ [⟨1, vals, size⟩] }
      if detectNuma then memoriesErr vals c else pure (false, c)
    else memoriesErr vals c

/-! ## The whole -/

mutual
def freeTopology : List TorqueTopt → Prog Unit
  | [] => pure ()
  | top :: next => do
    freeZone top
    freeTopology next

/-- A node, with the level under it. -/
def freeZone : TorqueTopt → Prog Unit
  | ⟨_, _, _, sub⟩ => do
    freeTopology sub
    release .zone
end

def freeArchitecture (c : TorqueCtx) : Prog TorqueCtx := do
  freeTopology c.topology.zone
  let c ← freeCpudescs { c with topology := { c.topology with zone := [] } }
  freeMemories c

def detectArchitecture (c : TorqueCtx) : Prog (Int × TorqueCtx) := do
  let err (ret : Int) (c : TorqueCtx) : Prog (Int × TorqueCtx) := do
    let c ← freeArchitecture c
    pure (ret, c)
  let (e, c) ← detectCputypes c
  if e.code ≠ 0 then err e.code c
  else
    let (e, c) ← detectCuda c
    if e ≠ 0 then err e c
    else
      let (failed, c) ← detectMemories c
      if failed then err TorqueErr.memdetect.code c else pure (0, c)

end Libtorque.Startup
