import Libtorque.Hardware.Groups
import Libtorque.Lib.Printer
import Libtorque.Lib.Texts

/-! # The listing of archdetect

`print_topology` writes a line for each package and, under a package that has
been split, one for each core. -/
namespace Libtorque.Archdetect
open Libtorque.Lib Libtorque.Hardware

/-! ## The code -/

/-- A function returns -1, or an array is read past its end. -/
inductive Stop where
  | failed
  | wild
deriving DecidableEq, Repr

/-- `printf`, where the caller returns -1 as soon as it fails. -/
def printf (t : List Char) : Printer Stop Int := do
  Printer.write .failed t
  return t.length

/-- `depth_terms`, up to the `NULL`. -/
def depthTerms : List String := ["Package", "Core", "Thread"]

def depthTerm (depth : Nat) : Printer Stop (List Char) :=
  match depthTerms[depth]? with
  | some term => return term.toList
  | none => Printer.stop .wild

/-- The loop that prints one tab, and one more for each level. -/
def printTabs : Nat → Printer Stop Int
  | 0 => printf ['\t']
  | n + 1 => do
    let ret ← printf ['\t']
    let r ← printTabs n
    return ret + r

/-- The variables of the loop over the numbers below `CPU_SETSIZE`. -/
structure Scan where
  r : Int
  total : Nat
  lastset : Nat

def printCpus (sched : CpuSet) (leaf : Bool) : List Nat → Scan → Printer Stop Scan
  | [], scan => return scan
  | z :: zs, scan =>
    if sched.isset z then do
      let ret ← if leaf then printf (padded 3 z ++ [' ']) else pure 0
      printCpus sched leaf zs { r := scan.r + ret, total := scan.total + 1, lastset := z }
    else printCpus sched leaf zs scan

/-- The line of a group. -/
def printGroup (s : TorqueTopt) (depth : Nat) : Printer Stop Int := do
  let r ← printTabs depth
  let term ← depthTerm depth
  let ret ← printf (term ++ ' ' :: decimal s.groupid ++ ": ".toList)
  let scan ← printCpus s.schedulable s.sub.isEmpty (List.range cpuSetsize)
    { r := r + ret, total := 0, lastset := cpuSetsize }
  if scan.total = 0 ∨ scan.lastset = cpuSetsize then
    Printer.stop .failed
  else
    let ret ← if s.sub.isEmpty then
        printf ('(' :: decimal scan.total ++ "x processor type ".toList ++
          decimal (s.cpudesc + 1) ++ ")\n".toList)
      else printf ('(' :: decimal scan.total ++ " threads total)\n".toList)
    return scan.r + ret

mutual

/-- `print_cpuset` -/
def printCpuset : List TorqueTopt → Nat → Printer Stop Int
  | [], _ => return 0
  | s :: next, depth => do
    let r ← printSub s depth
    let ret ← printCpuset next depth
    return r + ret

/-- `print_cpuset`, without the groups of the same list. -/
def printSub : TorqueTopt → Nat → Printer Stop Int
  | ⟨schedulable, groupid, cpudesc, sub⟩, depth => do
    let r ← printGroup ⟨schedulable, groupid, cpudesc, sub⟩ depth
    let ret ← printCpuset sub (depth + 1)
    return r + ret

end

/-- `print_topology` -/
def printTopology (t : List TorqueTopt) : Printer Stop Unit := do
  let ret ← printCpuset t 0
  if ret < 0 then Printer.stop .failed else return

/-! ## The lines -/

/-- What a line tells: the CPUs and the type only where the group has no others
under it. -/
structure Line where
  depth : Nat
  groupid : Nat
  cpus : List Nat
  total : Nat
  cputype : Option Nat
deriving DecidableEq

def term (depth : Nat) : List Char := (depthTerms[depth]?.getD "").toList

def tail (cputype : Option Nat) : List Char :=
  cputype.elim " threads total)\n".toList fun type =>
    "x processor type ".toList ++ (decimal (type + 1) ++ ")\n".toList)

def Line.text (l : Line) : List Char :=
  List.replicate (l.depth + 1) '\t' ++ (term l.depth ++ (' ' :: (decimal l.groupid ++
    (": ".toList ++ (l.cpus.flatMap (fun z => padded 3 z ++ [' ']) ++
      ('(' :: (decimal l.total ++ tail l.cputype)))))))

def cpuList (s : CpuSet) : List Nat := (List.range cpuSetsize).filter s.isset

/-- The line of a node of the tree. -/
def nodeLine (depth : Nat) (n : TorqueTopt) : Line where
  depth := depth
  groupid := n.groupid
  cpus := if n.sub.isEmpty then cpuList n.schedulable else []
  total := (cpuList n.schedulable).length
  cputype := if n.sub.isEmpty then some n.cpudesc else none

def lines (zone : List TorqueTopt) : List Line :=
  zone.flatMap fun n => nodeLine 0 n :: n.sub.map (nodeLine 1)

def listing (zone : List TorqueTopt) : List Char := (lines zone).flatMap Line.text

/-! ## What is printed -/

/-- A printer that writes a text and counts its bytes. -/
def Printed (p : Printer Stop Int) (t : List Char) : Prop :=
  ∃ ts, Printer.Prints .failed p ts (t.length : Int) ∧ ts.flatten = t

theorem prints_printf (t : List Char) :
    Printer.Prints .failed (printf t) [t] (t.length : Int) :=
  (Printer.prints_write Stop.failed t).bind (Printer.prints_pure .failed (t.length : Int))

theorem printed_printf (t : List Char) : Printed (printf t) t :=
  ⟨[t], prints_printf t, by simp⟩

theorem Printed.add {p q : Printer Stop Int} {t u : List Char} (hp : Printed p t)
    (hq : Printed q u) :
    Printed (do let r ← p; let ret ← q; return r + ret) (t ++ u) := by
  obtain ⟨ts, hts, rfl⟩ := hp
  obtain ⟨us, hus, rfl⟩ := hq
  refine ⟨ts ++ us, ?_, List.flatten_append⟩
  have hsum := hts.bind (f := fun r => do let ret ← q; return r + ret)
    (hus.bind (Printer.prints_pure Stop.failed _))
  simpa only [List.append_nil, List.length_append, Int.natCast_add] using hsum

theorem printed_tabs (n : Nat) : Printed (printTabs n) (List.replicate (n + 1) '\t') := by
  induction n with
  | zero => exact printed_printf ['\t']
  | succ n ih => exact (printed_printf ['\t']).add ih

/-- The loop over the CPUs counts those of the set, and ends with the last. -/
theorem prints_cpus (sched : CpuSet) (leaf : Bool) (zs : List Nat) (scan : Scan) :
    ∃ ts scan', Printer.Prints .failed (printCpus sched leaf zs scan) ts scan' ∧
      ts.flatten =
        (if leaf then zs.filter sched.isset else []).flatMap (fun z => padded 3 z ++ [' ']) ∧
      scan'.r = scan.r + (ts.flatten.length : Int) ∧
      scan'.total = scan.total + (zs.filter sched.isset).length ∧
      scan'.lastset = (zs.filter sched.isset).getLastD scan.lastset := by
  induction zs generalizing scan with
  | nil =>
    refine ⟨[], scan, Printer.prints_pure .failed scan, ?_, ?_⟩
    · cases leaf <;> rfl
    · simp
  | cons z zs ih =>
    rw [printCpus]
    by_cases hz : sched.isset z = true
    · rw [if_pos hz, List.filter_cons_of_pos hz]
      let go := fun ret => printCpus sched leaf zs
        { r := scan.r + ret, total := scan.total + 1, lastset := z }
      cases leaf with
      | true =>
        obtain ⟨ts, scan', hts, htext, hr, htotal, hlast⟩ := ih
          { r := scan.r + ((padded 3 z ++ [' ']).length : Int), total := scan.total + 1
            lastset := z }
        refine ⟨(padded 3 z ++ [' ']) :: ts, scan',
          (prints_printf (padded 3 z ++ [' '])).bind (f := go) hts, ?_, ?_, ?_, ?_⟩
        · rw [List.flatten_cons, htext]
          rfl
        · simp only [hr, List.flatten_cons, List.length_append, Int.natCast_add]
          omega
        · rw [htotal, List.length_cons]
          dsimp only
          omega
        · rw [hlast, List.getLastD_cons]
      | false =>
        obtain ⟨ts, scan', hts, htext, hr, htotal, hlast⟩ := ih
          { r := scan.r + 0, total := scan.total + 1, lastset := z }
        refine ⟨ts, scan', (Printer.prints_pure .failed 0).bind (f := go) hts, htext, ?_, ?_, ?_⟩
        · rw [hr]
          dsimp only
          omega
        · rw [htotal, List.length_cons]
          dsimp only
          omega
        · rw [hlast, List.getLastD_cons]
    · rw [if_neg hz, List.filter_cons_of_neg hz]
      exact ih scan

theorem depthTerm_eq {depth : Nat} (h : depth < depthTerms.length) :
    depthTerm depth = (pure (term depth) : Printer Stop (List Char)) := by
  unfold depthTerm term
  rw [List.getElem?_eq_getElem h]
  rfl

theorem mem_cpuList {s : CpuSet} {cpu : Nat} : cpu ∈ cpuList s ↔ cpu ∈ s.cpus := by
  rw [cpuList, List.mem_filter, List.mem_range, s.isset_iff]
  exact and_iff_right_of_imp (s.bounded cpu)

theorem cpuList_ne_nil {s : CpuSet} (h : s.cpus.Nonempty) : cpuList s ≠ [] := by
  obtain ⟨cpu, hcpu⟩ := h
  exact List.ne_nil_of_mem (mem_cpuList.mpr hcpu)

theorem getLastD_cpuList {s : CpuSet} (h : s.cpus.Nonempty) (d : Nat) :
    (cpuList s).getLastD d < cpuSetsize := by
  have hne := cpuList_ne_nil h
  rw [List.getLastD_eq_getLast?, List.getLast?_eq_some_getLast hne, Option.getD_some]
  exact s.bounded _ (mem_cpuList.mp (List.getLast_mem hne))

/-- The end of the line of a group. -/
def groupTail (n : TorqueTopt) (total : Nat) : List Char :=
  '(' :: decimal total ++ tail (if n.sub.isEmpty then some n.cpudesc else none)

theorem prints_tail (n : TorqueTopt) (total : Nat) (r : Int) :
    Printer.Prints .failed (do
      let ret ← if n.sub.isEmpty then
          printf ('(' :: decimal total ++ "x processor type ".toList ++
            decimal (n.cpudesc + 1) ++ ")\n".toList)
        else printf ('(' :: decimal total ++ " threads total)\n".toList)
      return r + ret) [groupTail n total] (r + ((groupTail n total).length : Int)) := by
  unfold groupTail tail
  by_cases hleaf : n.sub.isEmpty = true
  · rw [if_pos hleaf, if_pos hleaf]
    simp only [Option.elim, List.append_assoc, List.cons_append]
    exact (prints_printf _).bind (Printer.prints_pure .failed _)
  · rw [if_neg hleaf, if_neg hleaf]
    exact (prints_printf _).bind (Printer.prints_pure .failed _)

/-- A group with a CPU is written as one line. -/
theorem printed_group {n : TorqueTopt} (h : n.schedulable.cpus.Nonempty) {depth : Nat}
    (hd : depth < depthTerms.length) : Printed (printGroup n depth) (nodeLine depth n).text := by
  obtain ⟨tabs, htabs, htabsText⟩ := printed_tabs depth
  let head := term depth ++ ' ' :: decimal n.groupid ++ ": ".toList
  obtain ⟨cpus, scan, hcpus, hcpusText, hr, htotal, hlast⟩ := prints_cpus n.schedulable
    n.sub.isEmpty (List.range cpuSetsize)
    { r := ((List.replicate (depth + 1) '\t').length : Int) + (head.length : Int), total := 0
      lastset := cpuSetsize }
  have hsome : 0 < (cpuList n.schedulable).length := List.length_pos_iff.mpr (cpuList_ne_nil h)
  have hgo : ¬ (scan.total = 0 ∨ scan.lastset = cpuSetsize) := by
    have hlt := getLastD_cpuList h cpuSetsize
    rw [htotal, hlast]
    unfold cpuList at hsome hlt
    dsimp only
    omega
  have hterm : Printer.Prints .failed (depthTerm depth) [] (term depth) := by
    rw [depthTerm_eq hd]
    exact Printer.prints_pure .failed (term depth)
  have htotal' : scan.total = (cpuList n.schedulable).length := by
    rw [htotal]
    exact Nat.zero_add _
  have htext : (tabs ++ ([] ++ ([head] ++ (cpus ++ [groupTail n scan.total])))).flatten =
      (nodeLine depth n).text := by
    simp only [List.flatten_append, htabsText, hcpusText, groupTail, nodeLine, Line.text, cpuList,
      htotal', head, List.flatten_cons, List.flatten_nil, List.append_nil, List.nil_append,
      List.append_assoc, List.cons_append]
  have hlen : ((nodeLine depth n).text.length : Int) =
      scan.r + ((groupTail n scan.total).length : Int) := by
    rw [← htext, hr]
    simp only [List.flatten_append, htabsText, List.flatten_cons, List.flatten_nil,
      List.append_nil, List.nil_append, List.length_append, Int.natCast_add]
    omega
  refine ⟨_, ?_, htext⟩
  unfold printGroup
  rw [hlen]
  refine htabs.bind (hterm.bind ((prints_printf head).bind (hcpus.bind ?_)))
  rw [if_neg hgo]
  exact prints_tail n scan.total scan.r

theorem printed_sub {n : TorqueTopt} (h : n.schedulable.cpus.Nonempty) {depth : Nat}
    (hd : depth < depthTerms.length) {t : List Char}
    (hsub : Printed (printCpuset n.sub (depth + 1)) t) :
    Printed (printSub n depth) ((nodeLine depth n).text ++ t) := by
  cases n with
  | mk schedulable groupid cpudesc sub =>
    rw [printSub]
    exact (printed_group h hd).add hsub

theorem printed_nil (depth : Nat) : Printed (printCpuset [] depth) [] := by
  rw [printCpuset]
  exact ⟨[], Printer.prints_pure .failed 0, rfl⟩

theorem printed_cores {sub : List TorqueTopt}
    (h : ∀ c ∈ sub, c.schedulable.cpus.Nonempty ∧ c.sub = []) {depth : Nat}
    (hd : depth < depthTerms.length) :
    Printed (printCpuset sub depth) ((sub.map (nodeLine depth)).flatMap Line.text) := by
  induction sub with
  | nil => exact printed_nil depth
  | cons c sub ih =>
    obtain ⟨hc, hleaf⟩ := h c List.mem_cons_self
    have hrest := ih fun d hd => h d (List.mem_cons_of_mem _ hd)
    have hone := printed_sub hc hd (hleaf ▸ printed_nil (depth + 1))
    rw [List.append_nil] at hone
    rw [printCpuset, List.map_cons, List.flatMap_cons]
    exact hone.add hrest

theorem printed_listing {zone : List TorqueTopt} (h : Partitioned zone) :
    Printed (printCpuset zone 0) (listing zone) := by
  induction zone with
  | nil => exact printed_nil 0
  | cons n zone ih =>
    have hrest := ih fun m hm => h m (List.mem_cons_of_mem _ hm)
    obtain ⟨hn, hsub⟩ := h n List.mem_cons_self
    have hcores : ∀ c ∈ n.sub, c.schedulable.cpus.Nonempty ∧ c.sub = [] := by
      intro c hc
      exact (hsub (List.ne_nil_of_mem hc)).2.2 c hc
    have hdepth : 0 + 1 < depthTerms.length := by decide
    have hone := printed_sub hn (Nat.lt_of_succ_lt hdepth) (printed_cores hcores hdepth)
    rw [printCpuset, listing, lines, List.flatMap_cons, List.flatMap_append, List.flatMap_cons]
    exact hone.add hrest

theorem prints_topology {zone : List TorqueTopt} (h : Partitioned zone) :
    ∃ ts, Printer.Prints .failed (printTopology zone) ts () ∧ ts.flatten = listing zone := by
  obtain ⟨ts, hts, htext⟩ := printed_listing h
  have hpos : ¬ ((listing zone).length : Int) < 0 := by omega
  refine ⟨ts ++ [], hts.bind ?_, by rw [List.append_nil, htext]⟩
  rw [if_neg hpos]
  exact Printer.prints_pure Stop.failed ()

end Libtorque.Archdetect
