import Libtorque.Startup.Machine
import Libtorque.Session.Connection

/-! # The pages of a receive buffer

`get_big_page` maps as much as the greatest page size of all nodes. The context
that `torque_init` returns has one, so that a buffer is never refused for want
of it. -/
namespace Libtorque.Startup
open Libtorque.Hardware Libtorque.Lib

/-- The inner loop of `large_system_pagesize`. -/
def largerPagesize (ret : Nat) (psizevals : List Nat) : Nat :=
  psizevals.foldl (fun ret p => if p > ret then p else ret) ret

def largeSystemPagesize (c : TorqueCtx) : Nat :=
  c.manodes.foldl (fun ret node => largerPagesize ret node.psizevals) 0

/-- `getPages` is what `get_pages` finds. -/
def getBigPage (c : TorqueCtx) (getPages : Nat → Option Pages) : Nat × Option Pages :=
  let s := largeSystemPagesize c
  if s = 0 then (s, none) else (s, getPages s)

theorem largerPagesize_isGreatest (ret : Nat) (psizevals : List Nat) :
    IsGreatest {v | v = ret ∨ v ∈ psizevals} (largerPagesize ret psizevals) := by
  induction psizevals generalizing ret with
  | nil => exact ⟨.inl rfl, fun v hv => (hv.resolve_right List.not_mem_nil).le⟩
  | cons p psizevals ih =>
    obtain ⟨hmem, hup⟩ := ih (if p > ret then p else ret)
    have hlarger : ret ≤ (if p > ret then p else ret) ∧ p ≤ (if p > ret then p else ret) := by
      split <;> omega
    have hone : (if p > ret then p else ret) = ret ∨ (if p > ret then p else ret) = p := by
      split
      · exact .inr rfl
      · exact .inl rfl
    refine ⟨?_, fun v hv => ?_⟩
    · rcases hmem with hmem | hmem
      · exact hone.imp hmem.trans fun hp => List.mem_cons.mpr (.inl (hmem.trans hp))
      · exact .inr (List.mem_cons_of_mem p hmem)
    · rcases hv with rfl | hv
      · exact hlarger.1.trans (hup (.inl rfl))
      rcases List.mem_cons.mp hv with rfl | hv
      · exact hlarger.2.trans (hup (.inl rfl))
      · exact hup (.inr hv)

section Found
variable {M : Answers} {c : TorqueCtx}

/-- The page sizes of the system and of all TLBs. -/
def Answers.pagesizes (M : Answers) (cpudescs : List TorqueCput) : Set Nat :=
  {v | v = M.pagesize.toNat ∨ ∃ cpu ∈ cpudescs, ∃ tlb ∈ cpu.tlbdescs, tlb.pagesize = v}

/-- The sizes that `match_pagesize` drops are not the greatest. -/
theorem Found.largest (h : Found M c) :
    IsGreatest (M.pagesizes c.cpudescs) (largeSystemPagesize c) := by
  have hlarge : largeSystemPagesize c =
      largerPagesize 0 (records [M.pagesize.toNat] (tlbPagesizes c.cpudescs)) := by
    rw [largeSystemPagesize, h.nodes]
    rfl
  obtain ⟨hmem, hup⟩ :=
    largerPagesize_isGreatest 0 (records [M.pagesize.toNat] (tlbPagesizes c.cpudescs))
  rw [← hlarge] at hmem hup
  have hsystem := hup (.inr (mem_records_of_mem List.mem_cons_self))
  have hpos := h.paged
  have hrecord : largeSystemPagesize c ∈
      records [M.pagesize.toNat] (tlbPagesizes c.cpudescs) := by
    refine hmem.resolve_left fun hzero => ?_
    omega
  obtain ⟨hfound, hgreatest⟩ := isGreatest_records ⟨hrecord, fun v hv => hup (.inr hv)⟩
  have hiff (v : Nat) : v ∈ M.pagesizes c.cpudescs ↔
      v ∈ [M.pagesize.toNat] ∨ v ∈ tlbPagesizes c.cpudescs := by
    rw [List.mem_singleton, mem_tlbPagesizes]
    rfl
  exact ⟨(hiff _).mpr hfound, fun v hv => hgreatest ((hiff v).mp hv)⟩

theorem Found.largest_pos (h : Found M c) : 0 < largeSystemPagesize c := by
  have hsystem := h.largest.2 (.inl rfl)
  have hpos := h.paged
  omega

end Found

variable {n : Nat} {mask : Option CpuSet} {P : Nat → Processor} {devices : Int}
  {D : Nat → CudaDevice} {pagesize : Int} {sysmem : Int × Int × Option Nat}

/-- It is a `size_t`. -/
theorem Found.largest_le {c : TorqueCtx}
    (h : Found (machine n mask P devices D pagesize sysmem) c) (hlong : pagesize < 2 ^ 63) :
    largeSystemPagesize c ≤ sizeMax := by
  rcases h.largest.1 with hsystem | ⟨cpu, hcpu, tlb, htlb, hsize⟩
  · rw [hsystem, sizeMax]
    have hsame : (machine n mask P devices D pagesize sysmem).pagesize = pagesize := rfl
    omega
  · have hbound := ((found_described h hcpu).1.tlbs tlb htlb).pagesize.2
    rw [← hsize, sizeMax]
    omega

/-- **Buffers have pages.** In every run of `torque_init` that returns a context,
`get_big_page` of it asks for the greatest of the page sizes of the system and
of all TLBs, and fails only where that cannot be mapped; what it gives is what
connections assume of it. -/
theorem torqueInit_pages (replies : List ((o : Startup.Op) → o.Rep)) (s : Ledger) (c : TorqueCtx)
    (e : Int) (hlong : pagesize < 2 ^ 63)
    (hreplies : ∀ r ∈ replies, ∀ o, (machine n mask P devices D pagesize sysmem).Gives o (r o))
    (hrun : exec (Lib.Prog.step Ledger.next) ({}, torqueInit) replies =
      some (s, .ret (some c, e))) :
    IsGreatest ((machine n mask P devices D pagesize sysmem).pagesizes c.cpudescs)
        (largeSystemPagesize c) ∧
      ∀ getPages : Nat → Option Pages, (∀ k page, getPages k = some page → page.bytes.length = k) →
        (getBigPage c getPages).2 = getPages (largeSystemPagesize c) ∧
          ∀ conn : Conn, (conn.next .getBigPage (getBigPage c getPages)).isSome = true := by
  have hfound : Found (machine n mask P devices D pagesize sysmem) c := found_of_run hreplies hrun
  have hpos := hfound.largest_pos
  refine ⟨hfound.largest, fun getPages hlength => ?_⟩
  have hpages : getBigPage c getPages = (largeSystemPagesize c, getPages (largeSystemPagesize c)) :=
    if_neg (Nat.pos_iff_ne_zero.mp hpos)
  rw [hpages]
  refine ⟨rfl, fun conn => ?_⟩
  simp only [Conn.next, Conn.getBigPage]
  cases hpage : getPages (largeSystemPagesize c) with
  | none => rfl
  | some page =>
    dsimp only
    rw [if_pos ⟨hpos, hfound.largest_le hlong, hlength _ _ hpage⟩]
    rfl

theorem torqueInit_pages_dual : ∃ (s : Ledger) (c : TorqueCtx) (e : Int),
    exec (Lib.Prog.step Ledger.next) ({}, torqueInit) (List.replicate 68 dualMachine.replies) =
      some (s, .ret (some c, e)) ∧
        IsGreatest (dualMachine.pagesizes c.cpudescs) (largeSystemPagesize c) := by
  obtain ⟨s, c, e, hrun, -⟩ :=
    Answers.run_of_starts (by decide +kernel : dualMachine.starts 68 (fun _ => true) = true)
  have hpages := torqueInit_pages _ s c e (by decide) (dualMachine.gives_replies 68) hrun
  exact ⟨s, c, e, hrun, hpages.1⟩

end Libtorque.Startup
