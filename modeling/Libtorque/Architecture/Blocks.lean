import Libtorque.Hardware.Cpuid
import Libtorque.Lib.Heap
import Libtorque.Startup.Detect

/-! # The detection of the hardware, with the memory it takes

`detect_architecture` and `free_architecture` with the block that each pointer
points to, and what `torque_init` does around them. In `Startup` what is held is
counted; here each block is told from the others, and so is where it ends. What the
processor, the driver and the system say is a reply; so is whether the threads
start, and whether the event tables and the queue can be made, which have blocks of
their own. -/
namespace Libtorque.Architecture
open Libtorque.Hardware Libtorque.Lib Libtorque.Lib.Heap

/-! ## What there is in memory -/

inductive Kind where
  | ctx
  | topmap
  | cpudescs
  | tlbdescs
  | memdescs
  | strdescription
  | zone
  | psizevals
  | manodes
deriving DecidableEq, Repr

/-- A `torque_cput`, with the pointers to its tables and its name. -/
structure Cput where
  details : TorqueCput
  tlbdescs : Option Nat := none
  memdescs : Option Nat := none
  strdescription : Option Nat := none

/-- A `torque_topt` in its block. The `next` pointers are the list it is in. -/
structure Topt where
  block : Nat
  schedulable : CpuSet
  groupid : Nat
  cpudesc : Nat
  sub : List Topt

/-- A `torque_nodet`; `psizes` is the length of the table. -/
structure Nodet where
  count : Nat
  psizevals : Table Nat
  size : Nat

/-- The fields of the context that the detection fills in, as
`create_torque_ctx` leaves them. -/
structure Ctx where
  cpuTypecount : Nat := 0
  cpudescs : Table Cput := .null
  schedZone : List Topt := []
  nodecount : Nat := 0
  manodes : Table Nodet := .null

/-- What `add_tlb` or `add_hwmem` is to add. -/
inductive Entry where
  | tlb (t : TorqueTlb)
  | mem (m : TorqueMem)
deriving DecidableEq, Repr

/-- What `cpuid` makes the functions of `x86cpuid.c` do: the entries that
`topfxn` and `memfxn` add as far as they get, what they store besides, and the
name; `none` where a function fails without having wanted memory. The padding of
the `torque_memt`s is what the stack holds there. -/
structure Answers where
  entries : List Entry
  padding : List (BitVec 32)
  vendor : Option (Spec × Nat × Nat)
  brandname : Option String

inductive Ask where
  /-- whether they fail -/
  | pinThread
  | unpinThread
  | spawnThread
  | reapThreads
  | initializeEtables
  | initEvqueue
  | freeEtables
  | destroyEvqueue
  | getaffinity
  | x86cpuid (aid : Nat)
  | cudadevcount
  /-- the attributes of a device -/
  | cudaAttributes (devno : Nat)
  | cudaName (devno : Nat)
  | pagesize
  /-- `_SC_PHYS_PAGES`, `_SC_PAGESIZE`, and `rlim_cur` of RLIMIT_AS -/
  | sysmem

@[reducible] def Ask.Rep : Ask → Type
  | .getaffinity => Option CpuSet
  | .x86cpuid _ => Answers
  | .cudadevcount | .pagesize => Int
  | .cudaAttributes _ => Except TorqueErr TorqueCput
  | .cudaName _ => Option String
  | .sysmem => Int × Int × Option Nat
  | _ => Bool

abbrev Op := Heap.Op Kind Ask

abbrev Prog := Lib.Prog Op (Heap.Op.Rep Ask.Rep)

def query (o : Ask) : Prog o.Rep := ask o

/-! ## A description -/

/-- `memset` to 0 -/
def Cput.zero : Cput := { details := { blankCput with spec := .x86 ⟨0, 0, 0, .oem, {}, 0⟩ } }

def freeCpudetails (details : Cput) : Prog Cput := do
  Heap.free details.tlbdescs
  Heap.free details.memdescs
  Heap.free details.strdescription
  pure .zero

/-- `add_tlb` and `add_hwmem` -/
def addEntry (d : Cput) : Entry → Prog (Option Cput)
  | .tlb t => do
    let tlbdescs := insertDesc compareTlbdetails t d.details.tlbdescs
    pure ((← Heap.realloc .tlbdescs d.tlbdescs).map fun b =>
      { d with tlbdescs := some b, details := { d.details with tlbdescs := tlbdescs } })
  | .mem m => do
    let memdescs := insertDesc compareMemdetails m d.details.memdescs
    pure ((← Heap.realloc .memdescs d.memdescs).map fun b =>
      { d with memdescs := some b, details := { d.details with memdescs := memdescs } })

/-- Up to the first for which there is no memory; whether there was for all. -/
def addEntries : Cput → List Entry → Prog (Bool × Cput)
  | d, [] => pure (true, d)
  | d, e :: es => do
    match ← addEntry d e with
    | none => pure (false, d)
    | some d => addEntries d es

/-- The thread, core and package, and the description as far as it got. -/
def x86cpuid (aid : Nat) : Prog (Option (Nat × Nat × Nat) × Cput) := do
  let answers ← query (.x86cpuid aid)
  let (added, d) ← addEntries { details := blankCput } answers.entries
  match added, answers.vendor, answers.brandname with
  | true, some (spec, threads, cores), some name =>
    match ← Heap.malloc .strdescription with
    | none => pure (none, d)
    | some b =>
      let details := { d.details with
        spec := spec, threadspercore := threads, coresperpackage := cores, strdescription := name,
        padding := answers.padding }
      pure (x86topology details details.apic, { d with details, strdescription := some b })
  | _, _, _ => pure (none, d)

def detectCpudetails (aid : Nat) : Prog (Except TorqueErr (Cput × Nat × Nat × Nat)) := do
  if ← query .pinThread then pure (.error .affinity)
  else match ← x86cpuid aid with
    | (none, d) =>
      let _ ← freeCpudetails d
      pure (.error .cpudetect)
    | (some place, d) => pure (.ok (d, place))

/-- `add_cputype`, with the index of the new slot. The description is copied,
pointers and all. -/
def addCputype (c : Ctx) (acpu : Cput) : Prog (Option (Nat × Ctx)) := do
  let types := c.cpudescs.elems.take c.cpuTypecount ++ [acpu]
  pure ((← c.cpudescs.grow .cpudescs types).map fun cpudescs =>
    (c.cpuTypecount, { c with cpudescs, cpuTypecount := c.cpuTypecount + 1 }))

def matchCputype (c : Ctx) (acpu : Cput) : Option Nat :=
  Hardware.matchCputype ((c.cpudescs.elems.take c.cpuTypecount).map Cput.details) acpu.details

/-- A description finds its type, or becomes one; with the index of the slot. -/
def placeCputype (c : Ctx) (cpudetails : Cput) : Prog (Option Nat × Ctx) := do
  match matchCputype c cpudetails with
  | some i =>
    let _ ← freeCpudetails cpudetails
    let cpudescs := c.cpudescs.modify fun types => types.modify i fun t =>
      { t with details := { t.details with elements := t.details.elements + 1 } }
    pure (some i, { c with cpudescs })
  | none =>
    let cpudetails := { cpudetails with details := { cpudetails.details with elements := 1 } }
    match ← addCputype c cpudetails with
    | none =>
      let _ ← freeCpudetails cpudetails
      pure (none, c)
    | some (i, c) => pure (some i, c)

/-- `while((*cputc)--)`; the slot is that of the count, already decremented. -/
def freeTypes : Nat → Table Cput → Prog (Table Cput)
  | 0, types => pure types
  | n + 1, types => do
    let details ← freeCpudetails (← types.fetch n)
    freeTypes n (types.modify fun types => types.set n details)

/-- The count is `ctx->cpu_typecount` also where it goes by `*cputc`. -/
def freeCpudescs (c : Ctx) : Prog Ctx := do
  let types ← freeTypes c.cpuTypecount c.cpudescs
  Heap.free types.ptr
  pure { c with cpuTypecount := 0, cpudescs := .null }

/-! ## The topology -/

def createZone (id cputype : Nat) : Prog (Option Topt) := do
  pure ((← Heap.malloc .zone).map fun b => ⟨b, .zero, id, cputype, []⟩)

/-- The group, with the nodes before and after it. -/
def findSchedGroup (id cputype : Nat) : List Topt → Prog (Option (List Topt × Topt × List Topt))
  | [] => do pure ((← createZone id cputype).map fun sg => ([], sg, []))
  | n :: rest => do
    if n.groupid = id then pure (some ([], n, rest))
    else if n.groupid > id then
      pure ((← createZone id cputype).map fun sg => ([], sg, n :: rest))
    else
      pure ((← findSchedGroup id cputype rest).map fun (before, sg, after) =>
        (n :: before, sg, after))

/-- `CPU_SET(aid, &n->schedulable)` -/
def Topt.addCpu (n : Topt) (aid : Nat) : Topt :=
  { n with schedulable := n.schedulable.set aid }

/-- The block under `sg->sub == NULL`. -/
def openSub (tm : Table TopMap) (cputype : Nat) (sg : Topt) : Prog (TorqueErr × Topt) := do
  match sg.sub with
  | _ :: _ => pure (.none, sg)
  | [] =>
    let oid := sg.schedulable.firstAid
    if cpuSetsize ≤ oid then pure (.assert, sg)
    else
      let map ← tm.fetch oid
      match ← createZone map.core cputype with
      | none => pure (.resource, sg)
      | some sub => pure (.none, { sg with sub := [sub.addCpu oid] })

/-- The block under `share_level(sg)`. -/
def topologizeCore (tm : Table TopMap) (aid core cputype : Nat) (sg : Topt) :
    Prog (TorqueErr × Topt) := do
  match ← openSub tm cputype sg with
  | (.none, sg) =>
    match ← findSchedGroup core cputype sg.sub with
    | none => pure (.resource, sg)
    | some (before, sc, after) =>
      pure (.none, { sg with sub := before ++ sc.addCpu aid :: after })
  | failed => pure failed

/-- The end of `topologize`, with what has become of the group. -/
def enterCpu (c : Ctx) (tm : Table TopMap) (aid : Nat) (place : TopMap) (before after : List Topt) :
    TorqueErr × Topt → Prog (TorqueErr × Ctx × Table TopMap)
  | (.none, sg) => do
    let c := { c with schedZone := before ++ sg.addCpu aid :: after }
    pure (.none, c, ← tm.store aid place)
  | (e, sg) => pure (e, { c with schedZone := before ++ sg :: after }, tm)

def topologize (c : Ctx) (tm : Table TopMap) (aid thread core pkg cputype : Nat) :
    Prog (TorqueErr × Ctx × Table TopMap) := do
  if cpuSetsize ≤ aid then pure (.assert, c, tm)
  else match ← findSchedGroup pkg cputype c.schedZone with
    | none => pure (.resource, c, tm)
    | some (before, sg, after) =>
      let grouped ← if sg.schedulable.shareLevel then topologizeCore tm aid core cputype sg
        else pure (.none, sg)
      enterCpu c tm aid ⟨thread, core, pkg⟩ before after grouped

mutual
def freeTopology : List Topt → Prog Unit
  | [] => pure ()
  | top :: next => do
    freeTopt top
    freeTopology next

/-- A node, with the level under it. -/
def freeTopt : Topt → Prog Unit
  | ⟨block, _, _, _, sub⟩ => do
    freeTopology sub
    Heap.free (some block)
end

/-! ## The processors -/

/-- The body of the loop of `detect_cputypes`. -/
def detectPass (c : Ctx) (tm : Table TopMap) (aid : Nat) :
    Prog (TorqueErr × Ctx × Table TopMap) := do
  match ← detectCpudetails aid with
  | .error e => pure (e, c, tm)
  | .ok (cpudetails, thread, core, pkg) =>
    match ← placeCputype c cpudetails with
    | (none, c) => pure (.resource, c, tm)
    | (some cputype, c) =>
      match ← topologize c tm aid thread core pkg cputype with
      | (.none, c, tm) =>
        if ← query .spawnThread then pure (.resource, c, tm) else pure (.none, c, tm)
      | failed => pure failed

/-- The loop, with `z` passes to go. -/
def detectLoop (mask : CpuSet) : Nat → Nat → Ctx → Table TopMap → Prog (TorqueErr × Ctx)
  | 0, _, c, _ => pure (.none, c)
  | z + 1, aid, c, tm => do
    let aid := mask.next aid
    if aid = cpuSetsize then pure (.affinity, c)
    else match ← detectPass c tm aid with
      | (.none, c, tm) => detectLoop mask z (aid + 1) c tm
      | (e, c, _) => pure (e, c)

/-- The `err:` path of `detect_cputypes`. -/
def cputypesErr (topmap : Option Nat) (ret : TorqueErr) (c : Ctx) : Prog (TorqueErr × Ctx) := do
  let _ ← query .unpinThread
  let _ ← query .reapThreads
  let c ← freeCpudescs c
  Heap.free topmap
  pure (ret, c)

def detectCpucount : Prog (Nat × CpuSet) := do
  match ← query .getaffinity with
  | none => pure (0, .zero)
  | some mask => pure (mask.count, mask)

/-- `detect_cputypes` from where it has `topmap`, which has an element for each CPU
of the mask. -/
def detectCpus (topmap cpucount : Nat) (mask : CpuSet) (c : Ctx) : Prog (TorqueErr × Ctx) := do
  match ← detectLoop mask cpucount 0 c (.block topmap (List.replicate cpucount {})) with
  | (.none, c) =>
    if ← query .unpinThread then cputypesErr (some topmap) .affinity c
    else
      Heap.free (some topmap)
      pure (.none, c)
  | (e, c) => cputypesErr (some topmap) e c

def detectCputypes (c : Ctx) : Prog (TorqueErr × Ctx) := do
  let c := { c with cpuTypecount := 0, cpudescs := .null }
  let (cpucount, mask) ← detectCpucount
  if cpucount = 0 then cputypesErr none .affinity c
  else match ← Heap.malloc .topmap with
    | none => cputypesErr none .resource c
    | some topmap => detectCpus topmap cpucount mask c

/-! ## GPUs -/

def cudaid (devno : Nat) : Prog (Except TorqueErr Cput) := do
  match ← query (.cudaAttributes devno) with
  | .error e => pure (.error e)
  | .ok details =>
    match ← Heap.malloc .strdescription with
    | none => pure (.error .resource)
    | some str =>
      match ← query (.cudaName devno) with
      | none =>
        Heap.free (some str)
        pure (.error .assert)
      | some name =>
        let details := { details with strdescription := name, tlbdescs := [], memdescs := [] }
        pure (.ok { details, strdescription := some str })

/-- The loop of `detect_cuda`, with `n` devices to go. -/
def cudaLoop : Nat → Nat → Ctx → Prog (Int × Ctx)
  | 0, _, c => pure (0, c)
  | n + 1, i, c => do
    match ← cudaid i with
    | .error _ => pure (-1, c)
    | .ok cpudetails =>
      match ← placeCputype c cpudetails with
      | (none, c) => pure (TorqueErr.resource.code, c)
      | (some _, c) => cudaLoop n (i + 1) c

def detectCuda (c : Ctx) : Prog (Int × Ctx) := do
  let devs ← query .cudadevcount
  if devs < 0 then pure (TorqueErr.gpudetect.code, c) else cudaLoop devs.toNat 0 c

/-! ## Memories -/

/-- The sizes stay sorted. -/
def addPagesize (psizevals : Table Nat) (psize : Nat) : Prog (Option (Table Nat)) :=
  let vals := psizevals.elems
  psizevals.grow .psizevals (vals.takeWhile (· ≤ psize) ++ psize :: vals.dropWhile (· ≤ psize))

/-- The loops of `determine_pagesizes` over the TLBs: whether they fail, and the
table so far. -/
def addTlbs : Table Nat → List TorqueTlb → Prog (Bool × Table Nat)
  | psizevals, [] => pure (false, psizevals)
  | psizevals, tlb :: tlbs =>
    if Startup.matchPagesize psizevals.elems tlb.pagesize then addTlbs psizevals tlbs
    else do
      match ← addPagesize psizevals tlb.pagesize with
      | none => pure (true, psizevals)
      | some psizevals => addTlbs psizevals tlbs

def determinePagesizes (c : Ctx) : Prog (Bool × Table Nat) := do
  let psize ← query .pagesize
  if psize ≤ 0 then pure (true, .null)
  else match ← addPagesize .null psize.toNat with
    | none => pure (true, .null)
    | some psizevals =>
      addTlbs psizevals ((c.cpudescs.elems.take c.cpuTypecount).flatMap (·.details.tlbdescs))

/-- The node is copied, with its pointer. -/
def addNode (c : Ctx) (node : Nodet) : Prog (Option Ctx) := do
  let nodes := c.manodes.elems.take c.nodecount ++ [node]
  pure ((← c.manodes.grow .manodes nodes).map fun manodes =>
    { c with manodes, nodecount := c.nodecount + 1 })

/-- The loop of `free_memories`, from `z` with `n` nodes to go. -/
def freeNodes (manodes : Table Nodet) : Nat → Nat → Prog Unit
  | 0, _ => pure ()
  | n + 1, z => do
    Heap.free (← manodes.fetch z).psizevals.ptr
    freeNodes manodes n (z + 1)

def freeMemories (c : Ctx) : Prog Ctx := do
  freeNodes c.manodes c.nodecount 0
  Heap.free c.manodes.ptr
  pure { c with manodes := .null, nodecount := 0 }

/-- The `err:` path of `detect_memories`. -/
def memoriesErr (psizevals : Table Nat) (c : Ctx) : Prog (Bool × Ctx) := do
  let c ← freeMemories c
  Heap.free psizevals.ptr
  pure (true, c)

def detectMemories (c : Ctx) : Prog (Bool × Ctx) := do
  let (failed, psizevals) ← determinePagesizes c
  if failed then memoriesErr psizevals c
  else
    let (pages, psize, asrlim) ← query .sysmem
    let size := Startup.determineSysmem pages psize asrlim
    if size = 0 then memoriesErr psizevals c
    else match ← addNode c ⟨1, psizevals, size⟩ with
      | none => memoriesErr psizevals c
      | some c => if Startup.detectNuma then memoriesErr psizevals c else pure (false, c)

/-! ## The whole -/

def resetTopology (c : Ctx) : Prog Ctx := do
  freeTopology c.schedZone
  pure { c with schedZone := [] }

def freeArchitecture (c : Ctx) : Prog Ctx := do
  let c ← resetTopology c
  let c ← freeCpudescs c
  freeMemories c

/-- The `err:` path of `detect_architecture`. -/
def architectureErr (ret : Int) (c : Ctx) : Prog (Int × Ctx) := do
  let c ← freeArchitecture c
  pure (ret, c)

def detectArchitecture (c : Ctx) : Prog (Int × Ctx) := do
  let (e, c) ← detectCputypes c
  if e.code ≠ 0 then architectureErr e.code c
  else
    let (e, c) ← detectCuda c
    if e ≠ 0 then architectureErr e c
    else
      let (failed, c) ← detectMemories c
      if failed then architectureErr TorqueErr.memdetect.code c else pure (0, c)

/-- The context is given by its block and its fields. -/
def createTorqueCtx : Prog (Option (Nat × Ctx)) := do
  match ← Heap.malloc .ctx with
  | none => pure none
  | some ctx =>
    if ← query .initializeEtables then
      Heap.free (some ctx)
      pure none
    else if ← query .initEvqueue then
      let _ ← query .freeEtables
      Heap.free (some ctx)
      pure none
    else pure (some (ctx, {}))

def freeTorqueCtx (ctx : Nat) (c : Ctx) : Prog Unit := do
  let _ ← query .freeEtables
  let _ ← freeArchitecture c
  let _ ← query .destroyEvqueue
  Heap.free (some ctx)

/-- What is returned; `*e` is not followed here. -/
def torqueInitSigmasked : Prog (Option (Nat × Ctx)) := do
  match ← createTorqueCtx with
  | none => pure none
  | some (ctx, c) =>
    let (e, c) ← detectArchitecture c
    if e ≠ 0 then
      freeTorqueCtx ctx c
      pure none
    else pure (some (ctx, c))

end Libtorque.Architecture
