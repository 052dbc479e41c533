import Libtorque.Archdetect.Units
import Libtorque.Archdetect.ReadBack
import Libtorque.Startup.Machine

/-! # The report of archdetect

After the topology come the nodes of memory and the types of processors. What
is printed is checked in some places only; what is reported on is checked
throughout. -/
namespace Libtorque.Archdetect
open Libtorque.Lib Libtorque.Hardware Libtorque.Startup

/-! ## The code -/

def memoryType : TorqueMemtype → Option String
  | .data => some "data"
  | .code => some "code"
  | .unified => some "unified"
  | .unknown => none

def tlbType : TorqueMemtype → Option String
  | .data => some "data"
  | .code => some "code"
  | .unified => some "mixed"
  | .unknown => none

def x86Type : X86Type → Option String
  | .oem => some "OEM"
  | .overdrive => some "OverDrive"
  | .dual => some "MP"
  | .unknown => none

def isaType : Spec → String
  | .x86 _ => "x86"
  | .nvidia .. => "CUDA"

/-- A `printf` whose result is dropped. -/
def say (texts : List (List Char)) : Printer Complaint Unit := Printer.attempt texts.flatten

/-- The check of a number that is not to be 0, with its message. -/
def require (what : String) (n : Nat) : Printer Complaint Unit :=
  if n = 0 then Printer.stop (.error (what.toList ++ decimal n ++ ['\n'])) else return

/-- The name of a type, with the message where it has none. -/
def named (what : String) (name : Option String) (value : Nat) : Printer Complaint (List Char) :=
  match name with
  | some name => return name.toList
  | none => Printer.stop (.error (what.toList ++ decimal value ++ ['\n']))

def sayShared (sharedways : Nat) : Printer Complaint Unit :=
  if sharedways = 1 then say ["unshared ".toList] else say [decimal sharedways, "-shared ".toList]

def detailMemory (L : Locale) (mem : TorqueMem) : Printer Complaint Unit := do
  let memt ← named "Error: invalid or unknown memory type " (memoryType mem.memtype)
    mem.memtype.value
  require "Error: memory total size of " mem.totalsize
  require "Error: memory linesize of " mem.linesize
  require "Error: memory associativity of " mem.associativity
  require "Error: memory sharedways of " mem.sharedways
  require "Error: memory level of " mem.level
  fprintfBunit L "B".toList mem.totalsize
  say [" total, ".toList]
  fprintfBunit L "B".toList mem.linesize
  say [" line, ".toList, decimal mem.associativity, "-assoc, ".toList]
  sayShared mem.sharedways
  say ["(L".toList, decimal mem.level, [' '], memt, ")\n".toList]

def detailTlb (L : Locale) (tlb : TorqueTlb) : Printer Complaint Unit := do
  let tlbt ← named "Error: invalid or unknown tlbory type " (tlbType tlb.tlbtype) tlb.tlbtype.value
  require "Error: TLB pagesize of " tlb.pagesize
  require "Error: TLB associativity of " tlb.associativity
  require "Error: TLB sharedways of " tlb.sharedways
  require "Error: TLB entries of " tlb.entries
  require "Error: TLB level of " tlb.level
  fprintfBunit L "B".toList tlb.pagesize
  say [" pages, ".toList]
  fprintfBunit L "-entry".toList tlb.entries
  say [", ".toList, decimal tlb.associativity, "-assoc, ".toList]
  sayShared tlb.sharedways
  say ["(L".toList, decimal tlb.level, [' '], tlbt, ")\n".toList]

/-- The features that are printed, in their order. -/
def extensions (features : X86Features) : List (Bool × String) :=
  [(features.mmx, "MMX "), (features.sse, "SSE "), (features.sse2, "SSE2 "),
    (features.sse3, "SSE3 "), (features.ssse3, "SSSE3 "), (features.sse41, "SSE4.1 "),
    (features.sse42, "SSE4.2 "), (features.sse4a, "SSE4a "), (features.avx, "AVX "),
    (features.xop, "XOP "), (features.fma4, "FMA4 "), (features.cvt16, "CVT16 ")]

/-- `%0*x` -/
def hexadecimal (width n : Nat) : List Char := (Nat.toDigits 16 n).leftpad width '0'

def detailX86 (x86 : X86Details) : Printer Complaint Unit := do
  say ["\n\tExtensions: ".toList]
  (extensions x86.features).forM fun x => if x.1 then say [x.2.toList] else return
  say [['\n']]
  match x86Type x86.x86type with
  | none => Printer.stop (.error "Error: invalid x86 type information\n".toList)
  | some x86type =>
    if x86.family = 0 then Printer.stop (.error "Error: invalid processor family\n".toList)
    else say ["\tFamily: 0x".toList, hexadecimal 3 x86.family, " (".toList, decimal x86.family,
      ") Model: 0x".toList, hexadecimal 2 x86.model, " (".toList, decimal x86.model,
      ") Stepping: ".toList, decimal x86.stepping, " (".toList, x86type.toList, ")\n".toList]

def detailNvidia (major minor : Nat) : Printer Complaint Unit :=
  if major = 0 then Printer.stop (.error "Error: invalid CUDA version information\n".toList)
  else say ["\n\tCUDA compute capabilities: ".toList, decimal major, ['.'], decimal minor, ['\n']]

def detailSpec : Spec → Printer Complaint Unit
  | .x86 x86 => detailX86 x86
  | .nvidia major minor => detailNvidia major minor

def plural (n : Nat) : List Char := if n ≠ 1 then ['s'] else []

def sayThreads (threads cores : Nat) : Printer Complaint Unit :=
  if threads = 1 then
    say ["\t1 thread per processing core, ".toList, decimal cores, " core".toList, plural cores,
      " per package\n".toList]
  else
    say [['\t'], decimal threads, " threads per processing core, ".toList, decimal cores,
      " core".toList, plural cores, " (".toList, decimal (cores - cores / threads),
      " logical) per package\n".toList]

/-- The entries of a table, each with its number. -/
def detailTable {α : Type} (what : String) (detail : α → Printer Complaint Unit) (table : List α) :
    Printer Complaint Unit :=
  table.zipIdx.forM fun x => do
    say [['\t'], what.toList, [' '], decimal (x.2 + 1), " of ".toList, decimal table.length,
      ": ".toList]
    detail x.1

def detailProcessingUnit (L : Locale) (pudesc : TorqueCput) : Printer Complaint Unit := do
  say [(isaType pudesc.spec).toList]
  detailSpec pudesc.spec
  say ["\tBrand name: ".toList, pudesc.strdescription.toList, ['\n']]
  if pudesc.threadspercore = 0 then
    Printer.stop (.error "Error: invalid SMT information\n".toList)
  else do
    sayThreads pudesc.threadspercore pudesc.coresperpackage
    detailTable "Cache" (detailMemory L) pudesc.memdescs
    detailTable "TLB" (detailTlb L) pudesc.tlbdescs

def torqueCpuGetdesc (ctx : TorqueCtx) (n : Nat) : Option TorqueCput :=
  if ctx.cpudescs.length ≤ n then none else ctx.cpudescs[n]?

def torqueNodeGetdesc (ctx : TorqueCtx) (n : Nat) : Option TorqueNode :=
  if n < ctx.manodes.length then ctx.manodes[n]? else none

def detailProcessingUnits (L : Locale) (ctx : TorqueCtx) (cpuTypecount : Nat) :
    Printer Complaint Unit :=
  (List.range cpuTypecount).forM fun n =>
    match torqueCpuGetdesc ctx n with
    | none => Printer.stop (.error ("Couldn't look up CPU type ".toList ++ decimal n ++ ['\n']))
    | some pudesc => do
      require "Error: element count of " pudesc.elements
      say [['('], padded 4 pudesc.elements, "x) Processing unit type ".toList, decimal (n + 1),
        " of ".toList, decimal cpuTypecount, ": ".toList]
      detailProcessingUnit L pudesc

/-- What comes after the `z`th of the page sizes. -/
def separator (z psizes : Nat) : Printer Complaint Unit :=
  if z + 1 < psizes then
    if z + 2 = psizes then say [" and ".toList] else say [", ".toList]
  else return

def detailMemoryNodes (L : Locale) (ctx : TorqueCtx) (memNodecount : Nat) :
    Printer Complaint Unit :=
  (List.range memNodecount).forM fun n =>
    match torqueNodeGetdesc ctx n with
    | none => Printer.stop (.error ("Couldn't look up mem node ".toList ++ decimal n ++ ['\n']))
    | some mdesc => do
      require "Error: page size count of " mdesc.psizevals.length
      say [['('], padded 4 mdesc.count, "x) Memory node ".toList, decimal (n + 1), " of ".toList,
        decimal memNodecount, ":\n\t".toList]
      Printer.regardless (fprintfBunit L "B".toList mdesc.size)
      say [" total in ".toList]
      mdesc.psizevals.zipIdx.forM fun x => do
        Printer.regardless (fprintfBunit L "B".toList x.1)
        separator x.2 mdesc.psizevals.length
      say [" pages\n".toList]

/-- What `main` does with the context that it has. -/
def report (L : Locale) (ctx : TorqueCtx) : Printer Complaint Unit :=
  if ctx.topology.zone.isEmpty then
    Printer.stop (.error "Couldn't look up topology\n".toList)
  else do
    Printer.mapError .stop (printTopology ctx.topology.zone)
    require "Got invalid memory node count: " ctx.manodes.length
    detailMemoryNodes L ctx ctx.manodes.length
    require "Got invalid CPU type count: " ctx.cpudescs.length
    detailProcessingUnits L ctx ctx.cpudescs.length

/-- The status that `main` returns, with what `torque_init` gives it, and how
`torque_stop` ends. -/
def main (L : Locale) (ctx : Option TorqueCtx) (stopped : TorqueErr) (o : Stream) : Nat :=
  let ret := match ctx with
    | none => 1
    | some ctx => match (report L ctx o).1 with
      | .ok () => 0
      | .error _ => 1
  if stopped ≠ .none then 1 else ret

/-! ## What has to be right -/

/-- The printer goes through just when `c`, the checked writes allowing. -/
abbrev Needs (p : Printer Complaint Unit) (c : Prop) : Prop :=
  Printer.Depends (Complaint.stop .failed) p c

variable {L : Locale} {ctx : TorqueCtx}

theorem needs_return : Needs (return) True := .of_offers (Printer.offers_pure _ ()) trivial

theorem needs_say (texts : List (List Char)) : Needs (say texts) True :=
  .of_offers (Printer.offers_attempt _ _) trivial

theorem needs_require (what : String) (n : Nat) : Needs (require what n) (n ≠ 0) :=
  (Printer.depends_ite fun _ => needs_return).congr (and_iff_left trivial)

theorem needs_require_of {n : Nat} (what : String) (h : 0 < n) : Needs (require what n) True :=
  (needs_require what n).congr (iff_true_intro (Nat.pos_iff_ne_zero.mp h))

theorem offers_named {name : Option String} {t : String} (what : String) (value : Nat)
    (h : name = some t) :
    Printer.Offers (Complaint.stop .failed) (named what name value) [] t.toList := by
  subst h
  exact Printer.offers_pure _ t.toList

theorem needs_bunit {val : Nat} (suffix : List Char) (h : val < 2 ^ 64) :
    Needs (fprintfBunit L suffix val) True := by
  obtain ⟨ts, hts, -⟩ := bunit_figures L suffix h
  exact .of_offers hts.offers trivial

theorem needs_shared (sharedways : Nat) : Needs (sayShared sharedways) True := by
  unfold sayShared
  split <;> exact needs_say _

theorem memoryType_some {t : TorqueMemtype} (h : t ≠ .unknown) :
    ∃ name, memoryType t = some name := by
  cases t with
  | unknown => exact absurd rfl h
  | _ => exact ⟨_, rfl⟩

theorem tlbType_some {t : TorqueMemtype} (h : t ≠ .unknown) : ∃ name, tlbType t = some name := by
  cases t with
  | unknown => exact absurd rfl h
  | _ => exact ⟨_, rfl⟩

/-- A described cache is reported, unless it has no size. -/
theorem needs_memory {m : TorqueMem} (h : m.Described) :
    Needs (detailMemory L m) (m.totalsize ≠ 0) := by
  obtain ⟨memt, hmemt⟩ := memoryType_some h.memtype
  refine (offers_named _ _ hmemt).depends ?_
  refine .congr (.then (needs_require _ _) ?_) (and_iff_left trivial)
  refine .after (needs_require_of _ h.linesize.1) ?_
  refine .after (needs_require_of _ h.associativity) ?_
  refine .after (needs_require_of _ h.sharedways) ?_
  refine .after (needs_require_of _ h.level) ?_
  refine .after (needs_bunit _ h.totalsize) (.after (needs_say _) ?_)
  refine .after (needs_bunit _ h.linesize.2) (.after (needs_say _) ?_)
  exact .after (needs_shared _) (needs_say _)

theorem needs_tlb {t : TorqueTlb} (h : t.Described) : Needs (detailTlb L t) True := by
  obtain ⟨tlbt, htlbt⟩ := tlbType_some h.tlbtype
  refine (offers_named _ _ htlbt).depends ?_
  refine .after (needs_require_of _ h.pagesize.1) ?_
  refine .after (needs_require_of _ h.associativity) ?_
  refine .after (needs_require_of _ h.sharedways) ?_
  refine .after (needs_require_of _ h.entries.1) ?_
  refine .after (needs_require_of _ h.level) ?_
  refine .after (needs_bunit _ h.pagesize.2) (.after (needs_say _) ?_)
  refine .after (needs_bunit _ h.entries.2) (.after (needs_say _) ?_)
  exact .after (needs_shared _) (needs_say _)

/-! ## The types of processors -/

theorem needs_table {α : Type} (what : String) {detail : α → Printer Complaint Unit}
    {table : List α} {c : α → Prop} (h : ∀ a ∈ table, Needs (detail a) (c a)) :
    Needs (detailTable what detail table) (∀ a ∈ table, c a) := by
  have hall : Needs (detailTable what detail table) (∀ x ∈ table.zipIdx, c x.1) :=
    Printer.depends_forM fun x hx =>
      .after (needs_say _) (h x.1 (List.fst_mem_of_mem_zipIdx hx))
  refine hall.congr ⟨fun hc a ha => ?_, fun hc x hx => hc x.1 (List.fst_mem_of_mem_zipIdx hx)⟩
  obtain ⟨i, hi, rfl⟩ := List.mem_iff_getElem.mp ha
  exact hc (table[i], i) (List.mem_zipIdx_iff_getElem?.mpr (List.getElem?_eq_getElem hi))

theorem needs_x86 {x : X86Details} (h : x.x86type ≠ .unknown) :
    Needs (detailX86 x) (x.family ≠ 0) := by
  have hfeatures : Needs ((extensions x.features).forM fun f =>
      if f.1 then say [f.2.toList] else return) True := by
    refine (Printer.depends_forM (c := fun _ => True) fun f _ => ?_).congr (by simp)
    split
    · exact needs_say _
    · exact needs_return
  have htype : ∃ name, x86Type x.x86type = some name := by
    cases hx : x.x86type with
    | unknown => exact absurd hx h
    | _ => exact ⟨_, rfl⟩
  obtain ⟨x86type, htype⟩ := htype
  refine .after (needs_say _) (.after hfeatures (.after (needs_say _) ?_))
  rw [htype]
  exact (Printer.depends_ite fun _ => needs_say _).congr (and_iff_left trivial)

theorem needs_nvidia (major minor : Nat) : Needs (detailNvidia major minor) (major ≠ 0) :=
  (Printer.depends_ite fun _ => needs_say _).congr (and_iff_left trivial)

/-- What a description is reported for: an x86 processor with a family, and
caches with a size, or a device with a version. -/
def Presentable (t : TorqueCput) : Prop :=
  (match t.spec with
    | .x86 x => x.family ≠ 0
    | .nvidia major _ => major ≠ 0) ∧ ∀ m ∈ t.memdescs, m.totalsize ≠ 0

instance (t : TorqueCput) : Decidable (Presentable t) :=
  match ht : t.spec with
  | .x86 x => decidable_of_iff (x.family ≠ 0 ∧ ∀ m ∈ t.memdescs, m.totalsize ≠ 0)
    (by rw [Presentable, ht])
  | .nvidia major _ => decidable_of_iff (major ≠ 0 ∧ ∀ m ∈ t.memdescs, m.totalsize ≠ 0)
    (by rw [Presentable, ht])

theorem needs_processingUnit {wraps : TorqueMem → Prop} {t : TorqueCput} (h : Described wraps t)
    (htype : KnownType t.spec) : Needs (detailProcessingUnit L t) (Presentable t) := by
  have hspec : Needs (detailSpec t.spec) (match t.spec with
      | .x86 x => x.family ≠ 0
      | .nvidia major _ => major ≠ 0) := by
    cases hs : t.spec with
    | x86 x =>
      rw [hs] at htype
      exact needs_x86 htype
    | nvidia major minor => exact needs_nvidia major minor
  have hthreads (threads cores : Nat) : Needs (sayThreads threads cores) True := by
    unfold sayThreads
    split <;> exact needs_say _
  have htables : Needs (do
      sayThreads t.threadspercore t.coresperpackage
      detailTable "Cache" (detailMemory L) t.memdescs
      detailTable "TLB" (detailTlb L) t.tlbdescs) (∀ m ∈ t.memdescs, m.totalsize ≠ 0) := by
    refine .after (hthreads _ _) (.congr (.then ?_ ?_) (and_iff_left trivial))
    · exact needs_table "Cache" fun m hm => needs_memory (h.memories m hm)
    · exact (needs_table "TLB" fun t ht => needs_tlb (h.tlbs t ht)).congr (by simp)
  refine .after (needs_say _) (.then hspec (.after (needs_say _) ?_))
  have hne : t.threadspercore ≠ 0 := Nat.pos_iff_ne_zero.mp h.threads
  exact (Printer.depends_ite fun _ => htables).congr (and_iff_right hne)

/-! ## The whole report -/

theorem bunit_prints_or (suffix : List Char) (val : Nat) :
    (∃ ts, Printer.Prints (Complaint.stop .failed) (fprintfBunit L suffix val) ts ()) ∨
      fprintfBunit L suffix val = Printer.stop (.stop .failed) := by
  unfold fprintfBunit
  split
  · exact .inl ⟨_, Printer.prints_write _ _⟩
  split
  · exact .inr rfl
  left
  split
  · split
    · exact ⟨_, (Printer.prints_write _ _).bind (Printer.prints_write _ _)⟩
    · exact ⟨_, (Printer.prints_write _ _).bind (Printer.prints_pure _ ())⟩
  · exact ⟨_, (Printer.prints_write _ _).bind (Printer.prints_pure _ ())⟩

theorem needs_regardless (suffix : List Char) (val : Nat) :
    Needs (Printer.regardless (fprintfBunit L suffix val)) True := by
  rcases bunit_prints_or (L := L) suffix val with ⟨ts, hts⟩ | hstop
  · exact .of_offers (hts.regardless _) trivial
  · rw [hstop]
    exact ⟨fun _ => ⟨[], fun o => rfl⟩, fun hnot => absurd trivial hnot⟩

theorem needs_memoryNodes (h : ∀ node ∈ ctx.manodes, node.psizevals ≠ []) :
    Needs (detailMemoryNodes L ctx ctx.manodes.length) True := by
  refine (Printer.depends_forM (c := fun _ => True) fun n hn => ?_).congr (by simp)
  have hlt := List.mem_range.mp hn
  have hget : torqueNodeGetdesc ctx n = some ctx.manodes[n] := by
    rw [torqueNodeGetdesc, if_pos hlt, List.getElem?_eq_getElem hlt]
  rw [hget]
  have hne : 0 < ctx.manodes[n].psizevals.length :=
    List.length_pos_iff.mpr (h _ (List.getElem_mem hlt))
  refine .after (needs_require_of _ hne) (.after (needs_say _) ?_)
  refine .after (needs_regardless _ _) (.after (needs_say _) (.after ?_ (needs_say _)))
  refine (Printer.depends_forM (c := fun _ => True) fun x _ => ?_).congr (by simp)
  refine .after (needs_regardless _ _) ?_
  unfold separator
  split
  · split <;> exact needs_say _
  · exact needs_return

theorem needs_processingUnits
    (h : ∀ t ∈ ctx.cpudescs, 0 < t.elements ∧ KnownType t.spec ∧ ∃ wraps, Described wraps t) :
    Needs (detailProcessingUnits L ctx ctx.cpudescs.length)
      (∀ t ∈ ctx.cpudescs, Presentable t) := by
  have hall : Needs (detailProcessingUnits L ctx ctx.cpudescs.length)
      (∀ n ∈ List.range ctx.cpudescs.length, ∀ t, ctx.cpudescs[n]? = some t → Presentable t) := by
    refine Printer.depends_forM fun n hn => ?_
    have hlt := List.mem_range.mp hn
    have hget : torqueCpuGetdesc ctx n = some ctx.cpudescs[n] := by
      rw [torqueCpuGetdesc, if_neg (Nat.not_le.mpr hlt), List.getElem?_eq_getElem hlt]
    rw [hget, List.getElem?_eq_getElem hlt]
    obtain ⟨helements, hknown, wraps, hdescribed⟩ := h _ (List.getElem_mem hlt)
    have hunit := needs_processingUnit (L := L) hdescribed hknown
    exact .congr (.after (needs_require_of _ helements) (.after (needs_say _) hunit)) (by simp)
  refine hall.congr ⟨fun hc t ht => ?_, fun hc n _ t ht => hc t (List.mem_of_getElem? ht)⟩
  obtain ⟨n, hn, rfl⟩ := List.mem_iff_getElem.mp ht
  exact hc n (List.mem_range.mpr hn) _ (List.getElem?_eq_getElem hn)

section Report
variable (hnodes : ctx.manodes ≠ []) (hsizes : ∀ node ∈ ctx.manodes, node.psizevals ≠ [])
  (htypes : ctx.cpudescs ≠ [])
  (h : ∀ t ∈ ctx.cpudescs, 0 < t.elements ∧ KnownType t.spec ∧ ∃ wraps, Described wraps t)
include hnodes hsizes htypes h

/-- After the topology, where the nodes have page sizes and the types are
described. -/
theorem needs_details :
    Needs (do
      require "Got invalid memory node count: " ctx.manodes.length
      detailMemoryNodes L ctx ctx.manodes.length
      require "Got invalid CPU type count: " ctx.cpudescs.length
      detailProcessingUnits L ctx ctx.cpudescs.length) (∀ t ∈ ctx.cpudescs, Presentable t) := by
  refine .after (needs_require_of _ (List.length_pos_iff.mpr hnodes)) ?_
  refine .after (needs_memoryNodes hsizes) ?_
  refine .after (needs_require_of _ (List.length_pos_iff.mpr htypes)) ?_
  exact needs_processingUnits h

variable (hzone : ctx.topology.zone ≠ []) (hp : Partitioned ctx.topology.zone)
include hzone hp

theorem needs_report : Needs (report L ctx) (∀ t ∈ ctx.cpudescs, Presentable t) := by
  unfold report
  rw [if_neg (by simpa using hzone)]
  obtain ⟨ts, hts, -⟩ := prints_topology hp
  exact .after (.of_offers (hts.offers.mapError Complaint.stop) trivial)
    (needs_details hnodes hsizes htypes h)

/-- The writes of the topology are all checked, so that a report that succeeds
begins with the whole listing. -/
theorem report_lists {o : Stream} (hok : (report L ctx o).1 = .ok ()) :
    ∃ rest, (report L ctx o).2.text = o.text ++ (listing ctx.topology.zone ++ rest) := by
  revert hok
  unfold report
  rw [if_neg (by simpa using hzone)]
  obtain ⟨ts, hts, htext⟩ := prints_topology hp
  obtain ⟨n, hwritten, hn⟩ := hts.text o
  rw [Printer.bind_apply, Printer.mapError]
  cases hprint : printTopology ctx.topology.zone o with
  | mk result o' =>
    cases result with
    | error e =>
      intro hok
      cases hok
    | ok u =>
      intro hok
      obtain ⟨rest, hrest⟩ := (needs_details (L := L) hnodes hsizes htypes h).text hok
      have hholds : o.Holds ts.length := (hts.ok_iff o).mp (by rw [hprint])
      rw [hprint, hn hholds, List.take_length, htext] at hwritten
      exact ⟨rest, by rw [hrest, hwritten, List.append_assoc]⟩

end Report

/-! ## Whatever `torque_init` returns -/

variable {n : Nat} {mask : Option CpuSet} {P : Nat → Processor} {devices : Int}
  {D : Nat → CudaDevice} {pagesize : Int} {sysmem : Int × Int × Option Nat}

/-- What a context that has been found is reported for, and what it lists. -/
theorem reports_found {c : TorqueCtx}
    (h : Found (machine n mask P devices D pagesize sysmem) c) :
    Needs (report L c) (∀ t ∈ c.cpudescs, Presentable t) ∧
      (∀ o : Stream, (report L c o).1 = .ok () →
        ∃ rest, (report L c o).2.text = o.text ++ (listing c.topology.zone ++ rest)) ∧
      (listed c.topology.zone).Nodup ∧
      ∀ cpu, cpu ∈ listed c.topology.zone ↔ ∃ m, mask = some m ∧ cpu ∈ m.cpus := by
  obtain ⟨m, hmask, ⟨cpu, hcpu⟩, hwalked⟩ := h.cpus
  obtain ⟨S, hinv, himage, -⟩ := hwalked.registered
  obtain ⟨hnodup, hmem⟩ := listed_once hinv
  have hlisted : ∀ cpu, cpu ∈ listed c.topology.zone ↔ cpu ∈ m.cpus := by
    intro cpu
    rw [hmem, ← himage, Finset.mem_image]
  have hzone : c.topology.zone ≠ [] := by
    intro hnil
    have hnone := (hlisted cpu).mpr hcpu
    rw [hnil] at hnone
    cases hnone
  have htypes : c.cpudescs ≠ [] := by
    intro hnil
    have hsum := hwalked.table.elements
    have hpos : 0 < m.cpus.card := Finset.card_pos.mpr ⟨cpu, hcpu⟩
    rw [hnil, List.map_nil, List.sum_nil] at hsum
    omega
  have hnodes : c.manodes ≠ [] := by
    rw [h.nodes]
    exact List.cons_ne_nil _ _
  have hsizes : ∀ node ∈ c.manodes, node.psizevals ≠ [] := by
    intro node hnode
    rw [h.nodes] at hnode
    rw [List.mem_singleton.mp hnode]
    exact List.ne_nil_of_mem (mem_records_of_mem List.mem_cons_self)
  have hall : ∀ t ∈ c.cpudescs, 0 < t.elements ∧ KnownType t.spec ∧
      ∃ wraps, Described wraps t := by
    intro t ht
    obtain ⟨hdescribed, hknown⟩ := found_described h ht
    exact ⟨hwalked.table.counted t ht, hknown, _, hdescribed⟩
  have hp := hinv.partitioned
  refine ⟨needs_report hnodes hsizes htypes hall hzone hp, fun o hok => ?_, hnodup, fun cpu => ?_⟩
  · exact report_lists hnodes hsizes htypes hall hzone hp hok
  · have hsome : mask = some m := hmask
    rw [hlisted, hsome]
    simp

theorem main_some (L : Locale) (c : TorqueCtx) (stopped : TorqueErr) (o : Stream) :
    main L (some c) stopped o = 0 ↔ stopped = .none ∧ (report L c o).1 = .ok () := by
  unfold main
  by_cases hstop : stopped = .none
  · rw [if_neg (not_not.mpr hstop)]
    dsimp only
    cases hr : (report L c o).1 with
    | ok u => simp [hstop]
    | error e => simp [hstop]
  · rw [if_pos hstop]
    simp [hstop]

end Libtorque.Archdetect
