import Libtorque.Startup.Undone
import Libtorque.Hardware.Cpuid
import Libtorque.Lib.Records
import Mathlib.Data.List.TakeWhile

/-! # The page sizes of a node

`match_pagesize` takes any size that is not greater than one of those in the
table for one that is there, so that `determine_pagesizes` keeps the records of
the TLBs' page sizes, in their order, over that of the system. -/
namespace Libtorque.Startup
open Libtorque.Hardware Libtorque.Lib

/-- The system, which remembers what it gave for `_SC_PAGESIZE`. -/
def sysconf (s : Option Int) : (o : Op) → o.Rep → Option (Option Int)
  | .pagesize, psize => some (some psize)
  | _, _ => some s

/-- The page sizes of all TLBs, in the order of the tables. -/
def tlbPagesizes (cpudescs : List TorqueCput) : List Nat :=
  (cpudescs.flatMap TorqueCput.tlbdescs).map TorqueTlb.pagesize

/-- The table is increasing, and has the system's page size and those of the
TLBs. -/
structure PagesizesExact (cpudescs : List TorqueCput) (psize : Nat) (psizevals : List Nat) :
    Prop where
  increasing : psizevals.Pairwise (· < ·)
  mem_iff : ∀ v, v ∈ psizevals ↔
    v = psize ∨ ∃ cpu ∈ cpudescs, ∃ tlb ∈ cpu.tlbdescs, tlb.pagesize = v

variable {c : TorqueCtx} {vals : List Nat}

/-- Every reply is possible; the system's page size is remembered. -/
def anyReply : Contract Op Op.Rep (Option Int) := .of sysconf (fun _ _ => True) fun _ _ _ => true

theorem realloc_any {null : Bool} {s : Option Int} {r : Resource} {Q : Bool → Option Int → Prop}
    (h : ∀ ok, Q ok s) : wp anyReply (realloc r null) Q s := by
  refine wp_op trivial ?_
  rintro ok t ⟨-, ht⟩
  cases ht
  exact h ok

/-- A size that is not matched goes to the end of the table. -/
theorem addPagesize_end {psize : Nat} (hnew : matchPagesize vals psize = false)
    {s : Option Int} {Q : Option (List Nat) → Option Int → Prop} (hsome : Q (some (vals ++ [psize])) s)
    (hnone : Q none s) : wp anyReply (addPagesize vals psize) Q s := by
  have hall : ∀ v ∈ vals, decide (v ≤ psize) = true := by
    intro v hv
    have hlt : ¬ psize ≤ v := by
      intro hle
      have hany : vals.any (psize ≤ ·) = true :=
        List.any_eq_true.mpr ⟨v, hv, decide_eq_true hle⟩
      rw [matchPagesize] at hnew
      rw [hnew] at hany
      cases hany
    exact decide_eq_true (by omega)
  unfold addPagesize
  rw [wp_do]
  apply realloc_any
  intro ok
  cases ok with
  | true =>
    have htake : vals.takeWhile (· ≤ psize) = vals := List.takeWhile_eq_self_iff.mpr hall
    have hdrop : vals.dropWhile (· ≤ psize) = [] := List.dropWhile_eq_nil_iff.mpr hall
    rw [if_pos rfl, htake, hdrop, wp_pure]
    exact hsome
  | false => exact hnone

/-- The loops over the TLBs, where they do not fail. -/
theorem addTlbs_records (tlbs : List TorqueTlb) (s : Option Int) :
    wp anyReply (addTlbs vals tlbs)
      (fun r t => r.1 = false → t = s ∧ r.2 = records vals (tlbs.map TorqueTlb.pagesize)) s := by
  induction tlbs generalizing vals with
  | nil => exact fun _ => ⟨rfl, rfl⟩
  | cons tlb tlbs ih =>
    have hmatch : matchPagesize vals tlb.pagesize = true ↔ ∃ v ∈ vals, tlb.pagesize ≤ v := by
      simp [matchPagesize]
    rw [addTlbs, List.map_cons, records]
    split
    · rename_i hold
      rw [if_pos (hmatch.mp hold)]
      exact ih
    · rename_i hnew
      rw [if_neg (fun h => hnew (hmatch.mpr h)), wp_do]
      refine addPagesize_end (by simpa using hnew) ih ?_
      intro h
      cases h

theorem determinePagesizes_records :
    wp anyReply (determinePagesizes c)
      (fun r t => r.1 = false → ∃ psize, t = some psize ∧
        r.2 = records [psize.toNat] (tlbPagesizes c.cpudescs)) none := by
  unfold determinePagesizes
  rw [wp_do]
  refine wp_op trivial ?_
  rintro psize t ⟨-, ht⟩
  cases ht
  split
  · intro h
    cases h
  · rw [wp_do]
    refine addPagesize_end rfl ?_ ?_
    · refine wp_mono ?_ (addTlbs_records (c.cpudescs.flatMap TorqueCput.tlbdescs) (some psize))
      intro r t hr hok
      exact ⟨psize, hr hok⟩
    · intro h
      cases h

theorem mem_tlbPagesizes {cpudescs : List TorqueCput} {v : Nat} :
    v ∈ tlbPagesizes cpudescs ↔ ∃ cpu ∈ cpudescs, ∃ tlb ∈ cpu.tlbdescs, tlb.pagesize = v := by
  simp only [tlbPagesizes, List.mem_map, List.mem_flatMap]
  constructor
  · rintro ⟨tlb, ⟨cpu, hcpu, htlb⟩, hv⟩
    exact ⟨cpu, hcpu, tlb, htlb, hv⟩
  · rintro ⟨cpu, hcpu, tlb, htlb, hv⟩
    exact ⟨tlb, ⟨cpu, hcpu, htlb⟩, hv⟩

theorem records_exact_iff {cpudescs : List TorqueCput} {psize : Nat} :
    PagesizesExact cpudescs psize (records [psize] (tlbPagesizes cpudescs)) ↔
      Growing [psize] (tlbPagesizes cpudescs) := by
  rw [← subset_records_iff fun _ => Iff.rfl]
  constructor
  · intro h v hv
    exact (h.mem_iff v).mpr (.inr (mem_tlbPagesizes.mp hv))
  · intro h
    refine ⟨records_sorted (List.pairwise_singleton _ _), fun v => ?_⟩
    rw [← mem_tlbPagesizes]
    constructor
    · intro hv
      exact (mem_of_mem_records hv).imp_left List.mem_singleton.mp
    · rintro (rfl | hv)
      · exact mem_records_of_mem List.mem_cons_self
      · exact h v hv

/-- **The table is exact when the sizes grow.** In every run of
`determine_pagesizes` that succeeds, the table is increasing and has exactly
the page sizes there are if and only if each TLB's page size has occurred
before or exceeds all before it, the system's first. -/
theorem determinePagesizes_exact_iff (c : TorqueCtx) (replies : List ((o : Op) → o.Rep))
    (psize : Int) (psizevals : List Nat)
    (hrun : exec (Lib.Prog.step sysconf) (none, determinePagesizes c) replies =
      some (some psize, .ret (false, psizevals))) :
    PagesizesExact c.cpudescs psize.toNat psizevals ↔
      Growing [psize.toNat] (tlbPagesizes c.cpudescs) := by
  obtain ⟨psize', hpsize, hvals⟩ := exec_of_wp determinePagesizes_records hrun rfl
  cases hpsize
  dsimp only at hvals
  rw [hvals]
  exact records_exact_iff

/-- A context with one type of CPU, with code TLBs for pages of the first size
and data TLBs for pages of the second. -/
def ctxOf (code data : Nat) : TorqueCtx where
  cpudescs := [{ blankCput with
    tlbdescs := [⟨64, code, 4, 1, .code, 1⟩, ⟨64, data, 4, 1, .data, 1⟩] }]

/-- Pages of 4 kB and 2 MB. -/
theorem determinePagesizes_two_sizes :
    PagesizesExact (ctxOf 4096 0x200000).cpudescs 4096 [4096, 0x200000] ↔
      Growing [4096] (tlbPagesizes (ctxOf 4096 0x200000).cpudescs) :=
  determinePagesizes_exact_iff (ctxOf 4096 0x200000) (List.replicate 3 (without fun _ => false))
    4096 [4096, 0x200000] rfl

/-- The data TLB's pages of 2 MB are not in the table, as the code TLB's are
of 4 MB. -/
theorem determinePagesizes_drops_smaller : ∃ s psizevals,
    exec (Lib.Prog.step sysconf) (none, determinePagesizes (ctxOf 0x400000 0x200000))
        (List.replicate 3 (without fun _ => false)) = some (s, .ret (false, psizevals)) ∧
      s = some 4096 ∧
      ¬ PagesizesExact (ctxOf 0x400000 0x200000).cpudescs 4096 psizevals := by
  refine ⟨_, _, rfl, rfl, fun hexact => ?_⟩
  have hmem := (hexact.mem_iff 0x200000).mpr
    (.inr (mem_tlbPagesizes.mp (by decide)))
  revert hmem
  decide

end Libtorque.Startup
