import Libtorque.Hardware.Recorded
import Libtorque.Startup.Found

/-! # A machine of processors and devices

What `x86cpuid` and `cudaid` show of it is described in full, and so is what a
context has found of it. -/
namespace Libtorque.Startup
open Libtorque.Hardware

/-- The type is known. -/
def KnownType : Spec → Prop
  | .x86 x => x.x86type ≠ .unknown
  | .nvidia .. => True

/-- A machine of these processors and devices; `n` bounds the loops of
`x86cpuid`. -/
def machine (n : Nat) (mask : Option CpuSet) (P : Nat → Processor) (devices : Int)
    (D : Nat → CudaDevice) (pagesize : Int) (sysmem : Int × Int × Option Nat) : Answers where
  mask := mask
  x86cpuid aid := Hardware.x86cpuid n (P aid)
  devices := devices
  cudaid devno := match Hardware.cudaid (D devno) with
    | .ok d => (0, d)
    | .error e => (e.code, blankCput)
  pagesize := pagesize
  sysmem := sysmem

theorem cudaid_error {dev : CudaDevice} {e : TorqueErr} (h : Hardware.cudaid dev = .error e) :
    e ≠ .none := by
  unfold Hardware.cudaid at h
  repeat' split at h
  all_goals cases h
  all_goals decide

variable {n : Nat} {mask : Option CpuSet} {P : Nat → Processor} {devices : Int}
  {D : Nat → CudaDevice} {pagesize : Int} {sysmem : Int × Int × Option Nat}

/-- What a machine shows is described. -/
theorem shows_described {d : TorqueCput}
    (h : (machine n mask P devices D pagesize sysmem).Shows d) :
    Described (fun _ => True) d ∧ KnownType d.spec := by
  have hweaken {wraps : TorqueMem → Prop} (hd : Described wraps d) : Described (fun _ => True) d :=
    ⟨hd.threads, hd.memories, fun _ _ _ => trivial, hd.tlbs⟩
  cases h with
  | cpu hfound =>
    obtain ⟨hd, x, hspec, htype, -⟩ := described_of_x86cpuid hfound
    refine ⟨hweaken hd, ?_⟩
    rw [hspec]
    exact htype
  | device hfound =>
    have hok : ∃ devno, Hardware.cudaid (D devno) = .ok d := by
      rename_i devno
      unfold machine at hfound
      dsimp only at hfound
      split at hfound
      · rename_i d' hd'
        cases hfound
        exact ⟨devno, hd'⟩
      · rename_i e he
        exact absurd (Prod.mk.inj hfound).1 (code_ne_zero (cudaid_error he))
    obtain ⟨devno, hok⟩ := hok
    obtain ⟨hd, major, minor, -, hspec⟩ := cudaid_described hok
    refine ⟨hweaken hd, ?_⟩
    rw [hspec]
    trivial

/-- So is what compares as equal. -/
theorem described_of_compare {t d : TorqueCput} (hcmp : compareCpudetails t d = 0)
    (hd : Described (fun _ => True) d ∧ KnownType d.spec) :
    Described (fun _ => True) t ∧ KnownType t.spec := by
  obtain ⟨hspec, htlbs, hmems, hthreads, -, -⟩ := compareCpudetails_eq_zero.mp hcmp
  obtain ⟨hd, hknown⟩ := hd
  rw [hspec]
  refine ⟨⟨?_, ?_, fun _ _ _ => trivial, ?_⟩, hknown⟩
  · rw [hthreads]
    exact hd.threads
  · rw [hmems]
    exact hd.memories
  · rw [htlbs]
    exact hd.tlbs

theorem found_described {c : TorqueCtx} {t : TorqueCput}
    (h : Found (machine n mask P devices D pagesize sysmem) c) (ht : t ∈ c.cpudescs) :
    Described (fun _ => True) t ∧ KnownType t.spec := by
  obtain ⟨m, -, -, hwalked⟩ := h.cpus
  obtain ⟨d, hcmp, hshown⟩ := hwalked.table.shown t ht
  exact described_of_compare hcmp (shows_described hshown)

/-- The dual core, both of whose cores are in the mask. -/
def dualMachine : Answers :=
  machine 2 (some ((CpuSet.zero.set 0).set 1)) (fun aid => dualCore (BitVec.ofNat 32 aid)) 0
    (fun _ => ⟨false, none, none, none, false, false, none⟩) 4096 (0x40000, 4096, none)

end Libtorque.Startup
