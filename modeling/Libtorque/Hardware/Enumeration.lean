import Libtorque.Hardware.IntelCaches
import Libtorque.Lib.Loop

/-! # Whether the enumeration of a processor ends

The loops of `x86apic` and `id_intel_caches` go on for as long as the processor
tells them to. Here each is run for a number of turns, so that a run that has
not ended is told apart from one that gives -1. -/
namespace Libtorque.Hardware

open Lib

variable {P : Processor} {maxlevel : Word} {cpu cpu' c : TorqueCput} {level n m i k maxdc : Nat}

/-! ## `x86apic` -/

/-- Bits 15:8 of ECX, the type of a level of leaf 0xb. -/
def levelType (r : Regs) : Nat := field r.ecx 8 0xff

/-- The read after `r`: its subleaf is one more than the type of `r`. -/
def nextLevel (P : Processor) (r : Regs) : Regs := P.cpuid 0xb (BitVec.ofNat 32 (levelType r + 1))

/-- One turn of the loop over leaf 0xb. -/
def x86apicTurn (P : Processor) (apic : Word) (gpregs : Regs) : Regs ⊕ Option Unit :=
  if levelType gpregs = 0 then .inr (some ())
  else if levelType gpregs ≠ 0x1 ∧ levelType gpregs ≠ 0x2 then .inr none
  else if (nextLevel P gpregs).edx ≠ apic then .inr none
  else .inl (nextLevel P gpregs)

theorem x86apicLevels_succ {apic : Word} {gpregs : Regs} : x86apicLevels P apic (n + 1) gpregs =
    (if levelType gpregs = 0 then some ()
    else if levelType gpregs ≠ 0x1 ∧ levelType gpregs ≠ 0x2 then none
    else if (nextLevel P gpregs).edx ≠ apic then none
    else x86apicLevels P apic n (nextLevel P gpregs)) :=
  rfl

theorem x86apicLevels_eq (apic : Word) (n : Nat) (gpregs : Regs) :
    x86apicLevels P apic n gpregs = (iterate (x86apicTurn P apic) n gpregs).join := by
  induction n generalizing gpregs with
  | zero => rfl
  | succ n ih =>
    rw [x86apicLevels_succ, iterate, x86apicTurn]
    split
    · rfl
    · split
      · rfl
      · split
        · rfl
        · exact ih _

/-- EBX[31:24] of leaf 1 -/
def legacyApic (P : Processor) : Word := ((P.cpuid 0x1 0).ebx >>> 24) &&& 0xff

/-- `x86apic` after so many turns of its loop: `none` while it goes on, and its
result when it returns. -/
def x86apicRun (n : Nat) (P : Processor) (maxlevel : Word) : Option (Option Word) :=
  if maxlevel < 0x1 then some none
  else
    let apic := legacyApic P
    if maxlevel < 0xb then some (some apic)
    else
      let gpregs := P.cpuid 0xb 0
      if gpregs.edx &&& 0xff ≠ apic then some none
      else (iterate (x86apicTurn P gpregs.edx) n gpregs).map fun r => r.map fun _ => gpregs.edx

theorem x86apic_eq_run : x86apic n P maxlevel = (x86apicRun n P maxlevel).join := by
  unfold x86apic x86apicRun legacyApic
  dsimp only
  split
  · rfl
  · split
    · rfl
    · split
      · rfl
      · rw [x86apicLevels_eq]
        cases iterate (x86apicTurn P (P.cpuid 0xb 0).edx) n (P.cpuid 0xb 0) with
        | none => rfl
        | some r => cases r <;> rfl

/-- A level of a type that the loop knows. -/
def Known (r : Regs) : Prop := levelType r = 0x1 ∨ levelType r = 0x2

instance : DecidablePred Known := fun _ => inferInstanceAs (Decidable (_ ∨ _))

/-- `x86apic` does not come to its loop, or one of the first three reads of leaf
0xb ends it: a type that is not known, or an id that is another. -/
def ApicStops (P : Processor) (maxlevel : Word) : Prop :=
  let first := P.cpuid 0xb 0
  let second := nextLevel P first
  let third := nextLevel P second
  maxlevel < 0xb ∨ first.edx &&& 0xff ≠ legacyApic P ∨
    ¬ (Known first ∧ second.edx = first.edx ∧ Known second ∧ third.edx = first.edx ∧ Known third)

theorem x86apicTurn_inl_iff {apic : Word} {r t : Regs} :
    x86apicTurn P apic r = .inl t ↔ Known r ∧ (nextLevel P r).edx = apic ∧ t = nextLevel P r := by
  unfold x86apicTurn Known
  split
  · rename_i hzero
    simp [hzero]
  · split
    · rename_i hunknown
      simp [hunknown]
    · rename_i hknown
      have hk : levelType r = 0x1 ∨ levelType r = 0x2 := by
        by_contra hnot
        exact hknown (not_or.mp hnot)
      split
      · rename_i hid
        simp [hid]
      · rename_i hid
        rw [Sum.inl.injEq]
        constructor
        · rintro rfl
          exact ⟨hk, not_not.mp hid, rfl⟩
        · rintro ⟨-, -, rfl⟩
          rfl

/-- The subleaves after the first are 2 and 3, so that the fourth read is one
of the two before it. -/
theorem nextLevel_repeats {r : Regs} (h1 : Known r) (h2 : Known (nextLevel P r))
    (h3 : Known (nextLevel P (nextLevel P r))) :
    nextLevel P (nextLevel P (nextLevel P r)) = nextLevel P r ∨
      nextLevel P (nextLevel P (nextLevel P r)) = nextLevel P (nextLevel P r) := by
  have hsame : ∀ {a b : Regs}, levelType a = levelType b → nextLevel P a = nextLevel P b := by
    intro a b h
    rw [nextLevel, h]
    rfl
  by_cases hthird : levelType (nextLevel P (nextLevel P r)) = levelType r
  · exact .inl (hsame hthird)
  · by_cases hsecond : levelType (nextLevel P (nextLevel P r)) = levelType (nextLevel P r)
    · exact .inr (hsame hsecond)
    · -- the first two types are the same, and so the second and third reads
      have hfirst : levelType (nextLevel P r) = levelType r := by
        unfold Known at h1 h2 h3
        omega
      have hreads := hsame hfirst
      rw [hreads]
      exact .inl hreads

theorem x86apic_loop_halts_iff {apic : Word} {r : Regs} :
    Halts (x86apicTurn P apic) r ↔
      ¬ (Known r ∧ (nextLevel P r).edx = apic ∧ Known (nextLevel P r) ∧
        (nextLevel P (nextLevel P r)).edx = apic ∧ Known (nextLevel P (nextLevel P r))) := by
  constructor
  · intro hhalts hgoes
    obtain ⟨h1, hid1, h2, hid2, h3⟩ := hgoes
    -- the loop stays among the first three reads
    refine not_halts (fun s => s = r ∨ s = nextLevel P r ∨ s = nextLevel P (nextLevel P r)) ?_
      (.inl rfl) hhalts
    rintro s (rfl | rfl | rfl)
    · exact ⟨_, x86apicTurn_inl_iff.mpr ⟨h1, hid1, rfl⟩, .inr (.inl rfl)⟩
    · exact ⟨_, x86apicTurn_inl_iff.mpr ⟨h2, hid2, rfl⟩, .inr (.inr rfl)⟩
    · rcases nextLevel_repeats h1 h2 h3 with heq | heq
      · refine ⟨_, x86apicTurn_inl_iff.mpr ⟨h3, ?_, rfl⟩, .inr (.inl heq)⟩
        rw [heq, hid1]
      · refine ⟨_, x86apicTurn_inl_iff.mpr ⟨h3, ?_, rfl⟩, .inr (.inr heq)⟩
        rw [heq, hid2]
  · intro hstops
    by_contra hloops
    have hturn : ∀ s, ¬ Halts (x86apicTurn P apic) s →
        Known s ∧ (nextLevel P s).edx = apic ∧ ¬ Halts (x86apicTurn P apic) (nextLevel P s) := by
      intro s hs
      cases hb : x86apicTurn P apic s with
      | inr a => exact absurd (halts_of_inr hb) hs
      | inl t =>
        obtain ⟨hknown, hid, rfl⟩ := x86apicTurn_inl_iff.mp hb
        exact ⟨hknown, hid, fun h => hs ((halts_iff_of_inl hb).mpr h)⟩
    obtain ⟨h1, hid1, hloops⟩ := hturn r hloops
    obtain ⟨h2, hid2, hloops⟩ := hturn _ hloops
    obtain ⟨h3, -, -⟩ := hturn _ hloops
    exact hstops ⟨h1, hid1, h2, hid2, h3⟩

def ApicReturns (P : Processor) (maxlevel : Word) : Prop := ∃ n r, x86apicRun n P maxlevel = some r

theorem apicReturns_iff : ApicReturns P maxlevel ↔ ApicStops P maxlevel := by
  by_cases hnone : maxlevel < 0x1
  · have hlow : maxlevel < 0xb := by bv_omega
    refine iff_of_true ⟨0, none, ?_⟩ (.inl hlow)
    rw [x86apicRun, if_pos hnone]
  by_cases hlow : maxlevel < 0xb
  · refine iff_of_true ⟨0, some (legacyApic P), ?_⟩ (.inl hlow)
    rw [x86apicRun, if_neg hnone]
    exact if_pos hlow
  by_cases hid : (P.cpuid 0xb 0).edx &&& 0xff = legacyApic P
  swap
  · refine iff_of_true ⟨0, none, ?_⟩ (.inr (.inl hid))
    rw [x86apicRun, if_neg hnone]
    dsimp only
    rw [if_neg hlow, if_pos hid]
  have hrun : ∀ n, x86apicRun n P maxlevel =
      (iterate (x86apicTurn P (P.cpuid 0xb 0).edx) n (P.cpuid 0xb 0)).map
        fun r => r.map fun _ => (P.cpuid 0xb 0).edx := by
    intro n
    rw [x86apicRun, if_neg hnone]
    dsimp only
    rw [if_neg hlow, if_neg (not_not.mpr hid)]
  have hstops : ApicStops P maxlevel ↔
      Halts (x86apicTurn P (P.cpuid 0xb 0).edx) (P.cpuid 0xb 0) := by
    rw [x86apic_loop_halts_iff]
    unfold ApicStops
    dsimp only
    rw [or_iff_right hlow, or_iff_right (not_not.mpr hid)]
  rw [hstops]
  constructor
  · rintro ⟨n, r, h⟩
    rw [hrun] at h
    obtain ⟨a, ha, -⟩ := Option.map_eq_some_iff.mp h
    exact ⟨n, a, ha⟩
  · rintro ⟨n, a, ha⟩
    refine ⟨n, a.map fun _ => (P.cpuid 0xb 0).edx, ?_⟩
    rw [hrun, ha]
    rfl

/-! ## `id_intel_caches` -/

/-- One turn of the inner loop: the subleaf, `maxdc` and the tables go on, or
the loop ends, with -1 or at the entry of type 0. -/
def intelCacheTurn (P : Processor) (maxlevel : Word) (level : Nat) (s : Nat × Nat × TorqueCput) :
    (Nat × Nat × TorqueCput) ⊕ Option (Nat × TorqueCput) :=
  let (i, maxdc, cpu) := s
  if intelType (leaf4 P i) = 0 then .inr (some (maxdc, cpu))
  else match intelCachetype (intelType (leaf4 P i)) with
    | none => .inr none
    | some memtype =>
      let maxdc := max (intelLevel (leaf4 P i)) maxdc
      if intelLevel (leaf4 P i) ≠ level then .inl (i + 1, maxdc, cpu)
      else match intelCores maxlevel (intelCpp (leaf4 P i)) cpu with
        | none => .inr none
        | some cpu =>
          match addHwmem P cpu { intelMem cpu.threadspercore (leaf4 P i) with memtype := memtype } with
          | none => .inr none
          | some cpu => .inl (i + 1, maxdc, cpu)

theorem intelCacheLoop_eq (n i maxdc : Nat) (cpu : TorqueCput) :
    intelCacheLoop P maxlevel level n i maxdc cpu =
      (iterate (intelCacheTurn P maxlevel level) n (i, maxdc, cpu)).join := by
  induction n generalizing i maxdc cpu with
  | zero => rfl
  | succ n ih =>
    rw [intelCacheLoop_succ, iterate, intelCacheTurn]
    dsimp only
    split
    · rfl
    · cases intelCachetype (intelType (leaf4 P i)) with
      | none => rfl
      | some memtype =>
        dsimp only [Option.bind_eq_bind, Option.bind_some]
        split
        · exact ih _ _ _
        · cases intelCores maxlevel (intelCpp (leaf4 P i)) cpu with
          | none => rfl
          | some c =>
            dsimp only [Option.bind_some]
            cases addHwmem P c { intelMem c.threadspercore (leaf4 P i) with memtype := memtype } with
            | none => rfl
            | some d => exact ih _ _ _

/-- The levels from `level` on, with `m` turns for the inner loop and `n` for
the outer. -/
def intelCacheLevelsRun (P : Processor) (maxlevel : Word) (m : Nat) :
    Nat → Nat → Nat → TorqueCput → Option (Option TorqueCput)
  | 0, _, _, _ => none
  | n + 1, level, maxdc, cpu =>
    match iterate (intelCacheTurn P maxlevel level) m (0, maxdc, cpu) with
    | none => none
    | some none => some none
    | some (some (maxdc, cpu)) =>
      if level + 1 ≤ maxdc then intelCacheLevelsRun P maxlevel m n (level + 1) maxdc cpu
      else some (some cpu)

/-- `id_intel_caches` after so many turns: `none` while it goes on, and its
result when it returns. -/
def idIntelCachesRun (n : Nat) (P : Processor) (maxlevel : Word) (cpu : TorqueCput) :
    Option (Option TorqueCput) :=
  if maxlevel < 0x4 then some (idIntelCachesOld P maxlevel { cpu with coresperpackage := 1 })
  else (intelCacheLevelsRun P maxlevel n n 1 1 cpu).map fun r =>
    r.bind fun cpu => idIntelCachesOld P maxlevel cpu

theorem intelCacheLevels_eq (m n level maxdc : Nat) (cpu : TorqueCput) :
    intelCacheLevels P maxlevel m n level maxdc cpu =
      (intelCacheLevelsRun P maxlevel m n level maxdc cpu).join := by
  induction n generalizing level maxdc cpu with
  | zero => rfl
  | succ n ih =>
    rw [intelCacheLevels, intelCacheLevelsRun, intelCacheLoop_eq]
    cases iterate (intelCacheTurn P maxlevel level) m (0, maxdc, cpu) with
    | none => rfl
    | some r =>
      cases r with
      | none => rfl
      | some x =>
        obtain ⟨maxdc, cpu⟩ := x
        dsimp only [Option.join_some, Option.bind_eq_bind, Option.bind_some]
        split
        · exact ih _ _ _
        · rfl

theorem idIntelCaches_eq_run {ff : FeatureFlags} :
    idIntelCaches n P maxlevel ff cpu = (idIntelCachesRun n P maxlevel cpu).join := by
  unfold idIntelCaches idIntelCachesRun
  split
  · rfl
  · rw [intelCacheLevels_eq]
    cases intelCacheLevelsRun P maxlevel n n 1 1 cpu with
    | none => rfl
    | some r => cases r <;> rfl

/-! ## When leaf 4 lets the loops end -/

/-- No subleaf ends a pass over leaf 4. -/
def Unending (P : Processor) : Prop := ∀ i, intelType (leaf4 P i) ∈ [1, 2, 3]

theorem intelCores_memdescs {cpp : Nat} (h : intelCores maxlevel cpp cpu = some c) :
    c.memdescs = cpu.memdescs := by
  unfold intelCores at h
  dsimp only at h
  repeat' split at h
  all_goals cases h
  all_goals rfl

variable (maxlevel) in
/-- Only the counts matter. -/
theorem intelCores_counts {a b : TorqueCput} (cpp : Nat) (h : SameCounts a b) :
    (intelCores maxlevel cpp a).isSome = (intelCores maxlevel cpp b).isSome := by
  unfold intelCores
  rw [h.1, h.2]
  dsimp only
  repeat' split
  all_goals rfl

theorem intelCores_of_set {cpp : Nat} (hset : cpu.coresperpackage ≠ 0)
    (h : intelCores maxlevel cpp cpu = some c) : c = cpu := by
  unfold intelCores at h
  rw [if_neg hset] at h
  split at h
  · cases h
  · split at h
    · cases h
    · cases h
      rfl

/-- What a turn that goes on has found. -/
theorem intelCacheTurn_inl {t : Nat × Nat × TorqueCput}
    (h : intelCacheTurn P maxlevel level (i, maxdc, cpu) = .inl t) :
    t.1 = i + 1 ∧ t.2.1 = max (intelLevel (leaf4 P i)) maxdc ∧
      intelType (leaf4 P i) ∈ [1, 2, 3] ∧
      (intelLevel (leaf4 P i) ≠ level → t.2.2 = cpu) ∧
      (intelLevel (leaf4 P i) = level →
        ∃ c, intelCores maxlevel (intelCpp (leaf4 P i)) cpu = some c ∧
          P.memdesc cpu.memdescs.length = true ∧ SameCounts c t.2.2 ∧
          t.2.2.memdescs.length = cpu.memdescs.length + 1) := by
  unfold intelCacheTurn at h
  dsimp only at h
  split at h
  · cases h
  rename_i hzero
  split at h
  · cases h
  rename_i memtype hmemtype
  have htype : intelType (leaf4 P i) ∈ [1, 2, 3] := by
    generalize intelType (leaf4 P i) = x at *
    unfold intelCachetype at hmemtype
    split at hmemtype <;> simp at hmemtype ⊢
  split at h
  · rename_i hother
    cases h
    exact ⟨rfl, rfl, htype, fun _ => rfl, fun heq => absurd heq hother⟩
  · rename_i hlevel
    split at h
    · cases h
    rename_i c hcores
    split at h
    · cases h
    rename_i d hadd
    cases h
    refine ⟨rfl, rfl, htype, fun hne => absurd hne hlevel, fun _ => ⟨c, hcores, ?_⟩⟩
    have hgrows := addHwmem_grows hadd
    have hlength := hgrows.mem_perm.length_eq
    rw [List.length_append, intelCores_memdescs hcores] at hlength
    unfold addHwmem at hadd
    split at hadd
    · rename_i hmem
      rw [intelCores_memdescs hcores] at hmem
      exact ⟨hmem, hgrows.counts, hlength⟩
    · cases hadd

/-- An entry that is a cache of another level is passed over. -/
theorem intelCacheTurn_other (htype : intelType (leaf4 P i) ∈ [1, 2, 3])
    (hlevel : intelLevel (leaf4 P i) ≠ level) :
    intelCacheTurn P maxlevel level (i, maxdc, cpu) =
      .inl (i + 1, max (intelLevel (leaf4 P i)) maxdc, cpu) := by
  unfold intelCacheTurn
  dsimp only
  generalize intelType (leaf4 P i) = x at htype
  simp only [List.mem_cons, List.not_mem_nil, or_false] at htype
  rcases htype with rfl | rfl | rfl <;> exact if_pos hlevel

variable (maxdc) in
/-- One of the level goes on when the cores agree and there is memory. -/
theorem intelCacheTurn_found (htype : intelType (leaf4 P i) ∈ [1, 2, 3])
    (hlevel : intelLevel (leaf4 P i) = level)
    (hcores : intelCores maxlevel (intelCpp (leaf4 P i)) cpu = some c)
    (hmem : P.memdesc cpu.memdescs.length = true) :
    ∃ t, intelCacheTurn P maxlevel level (i, maxdc, cpu) = .inl t := by
  have hadd : ∀ amem, ∃ d, addHwmem P c amem = some d := by
    intro amem
    unfold addHwmem
    rw [intelCores_memdescs hcores, if_pos hmem]
    exact ⟨_, rfl⟩
  unfold intelCacheTurn
  dsimp only
  rw [hcores]
  have hsome : ∃ memtype, intelCachetype (intelType (leaf4 P i)) = some memtype := by
    simp only [List.mem_cons, List.not_mem_nil, or_false] at htype
    rcases htype with h | h | h <;> rw [h] <;> exact ⟨_, rfl⟩
  have hzero : intelType (leaf4 P i) ≠ 0 := by
    intro h0
    rw [h0] at htype
    simp at htype
  obtain ⟨memtype, hmemtype⟩ := hsome
  obtain ⟨d, hd⟩ := hadd { intelMem c.threadspercore (leaf4 P i) with memtype := memtype }
  rw [if_neg hzero, hmemtype]
  dsimp only
  rw [if_neg (not_not.mpr hlevel), hd]
  exact ⟨_, rfl⟩

variable (maxlevel) in
/-- A pass comes to a subleaf that ends it. -/
theorem pass_halts (h : intelType (leaf4 P k) ∉ [1, 2, 3]) (level maxdc : Nat) (cpu : TorqueCput) :
    Halts (intelCacheTurn P maxlevel level) (0, maxdc, cpu) := by
  refine halts_of_measure (fun s => s.1 ≤ k) (fun s => k - s.1) ?_ (Nat.zero_le k)
  rintro ⟨i, maxdc, cpu⟩ t hle ht
  obtain ⟨hnext, -, htype, -⟩ := intelCacheTurn_inl ht
  have hne : i ≠ k := by
    rintro rfl
    exact h htype
  dsimp only at hle ⊢
  right
  omega

/-- The highest level is of three bits. -/
theorem pass_maxdc {r : Nat × TorqueCput} (hle : maxdc ≤ 7)
    (h : iterate (intelCacheTurn P maxlevel level) n (0, maxdc, cpu) = some (some r)) : r.1 ≤ 7 := by
  refine iterate_spec (fun s => s.2.1 ≤ 7) (fun a => ∀ r, a = some r → r.1 ≤ 7) ?_ ?_ hle h r rfl
  · rintro ⟨i, maxdc, cpu⟩ t hmax ht
    obtain ⟨-, hmax', -⟩ := intelCacheTurn_inl ht
    have hlevel : intelLevel (leaf4 P i) ≤ 7 := field_le _ 5 0x7
    dsimp only at hmax
    rw [hmax']
    omega
  · rintro ⟨i, maxdc, cpu⟩ a hmax ha r rfl
    unfold intelCacheTurn at ha
    dsimp only at ha
    repeat' split at ha
    all_goals cases ha
    exact hmax

variable (maxlevel) in
/-- There are at most eight passes. -/
theorem levels_return (h : intelType (leaf4 P k) ∉ [1, 2, 3]) (hle : maxdc ≤ 7)
    (hlevel : level ≤ 7) (cpu : TorqueCput) :
    ∃ N r, ∀ m n, N ≤ m → N ≤ n →
      intelCacheLevelsRun P maxlevel m n level maxdc cpu = some r := by
  induction hd : 7 - level using Nat.strongRecOn generalizing level maxdc cpu with
  | ind d ih =>
    obtain ⟨N, a, ha⟩ := pass_halts maxlevel h level maxdc cpu
    cases a with
    | none =>
      refine ⟨N + 1, none, fun m n hm hn => ?_⟩
      obtain ⟨n, rfl⟩ : ∃ j, n = j + 1 := ⟨n - 1, by omega⟩
      rw [intelCacheLevelsRun, iterate_mono (by omega) ha]
    | some r =>
      obtain ⟨maxdc', c⟩ := r
      have hmax := pass_maxdc hle ha
      dsimp only at hmax
      by_cases hmore : level + 1 ≤ maxdc'
      · obtain ⟨N', r', hrest⟩ :=
          ih (7 - (level + 1)) (by omega) hmax (by omega : level + 1 ≤ 7) c rfl
        refine ⟨N + N' + 1, r', fun m n hm hn => ?_⟩
        obtain ⟨n, rfl⟩ : ∃ j, n = j + 1 := ⟨n - 1, by omega⟩
        rw [intelCacheLevelsRun, iterate_mono (by omega) ha]
        dsimp only
        rw [if_pos hmore]
        exact hrest m n (by omega) (by omega)
      · refine ⟨N + 1, some c, fun m n hm hn => ?_⟩
        obtain ⟨n, rfl⟩ : ∃ j, n = j + 1 := ⟨n - 1, by omega⟩
        rw [intelCacheLevelsRun, iterate_mono (by omega) ha]
        dsimp only
        rw [if_neg hmore]

/-! ## Passes that only a failure can end -/

/-- The first entry of level 1. -/
structure FirstOfLevel (P : Processor) (k : Nat) : Prop where
  level : intelLevel (leaf4 P k) = 1
  first : ∀ j, j < k → intelLevel (leaf4 P j) ≠ 1

/-- The first entry of level 1 is refused for its count of cores, or another is
once that has been taken, or there comes a descriptor without memory for it. -/
def Refused (P : Processor) (maxlevel : Word) (cpu : TorqueCput) : Prop :=
  ∃ k, FirstOfLevel P k ∧ ∀ c, intelCores maxlevel (intelCpp (leaf4 P k)) cpu = some c →
    (∃ i, intelLevel (leaf4 P i) = 1 ∧ intelCores maxlevel (intelCpp (leaf4 P i)) c = none) ∨
    ∃ m, cpu.memdescs.length ≤ m ∧ P.memdesc m = false

/-- The subleaves repeat after 2 ^ 32. -/
theorem leaf4_repeats (h : i % 2 ^ 32 = k % 2 ^ 32) : leaf4 P i = leaf4 P k := by
  have heq : BitVec.ofNat 32 i = BitVec.ofNat 32 k := by
    apply BitVec.eq_of_toNat_eq
    rw [BitVec.toNat_ofNat, BitVec.toNat_ofNat, h]
  rw [leaf4, heq]
  rfl

/-- How many subleaves there are from `i` on to the next that is `k`. -/
def ahead (k i : Nat) : Nat := (k + (2 ^ 32 - 1) * i) % 2 ^ 32

theorem ahead_eq_zero (h : ahead k i = 0) : i % 2 ^ 32 = k % 2 ^ 32 := by
  unfold ahead at h
  omega

theorem ahead_succ (h : ahead k i ≠ 0) : ahead k (i + 1) + 1 = ahead k i := by
  unfold ahead at h ⊢
  omega

theorem ahead_lt (k i : Nat) : ahead k i < 2 ^ 32 := Nat.mod_lt _ (by decide)

/-- After an entry whose count is taken, one with another count is refused. -/
theorem halts_of_contradiction {s : Nat × Nat × TorqueCput} (hlevel : intelLevel (leaf4 P i) = level)
    (hset : c.coresperpackage ≠ 0)
    (hrefused : intelCores maxlevel (intelCpp (leaf4 P i)) c = none) (hs : SameCounts c s.2.2) :
    Halts (intelCacheTurn P maxlevel level) s := by
  refine halts_of_measure (fun s => SameCounts c s.2.2) (fun s => ahead i s.1) ?_ hs
  rintro ⟨j, maxdc, cpu⟩ t hcounts ht
  obtain ⟨hnext, -, -, hother, hfound⟩ := intelCacheTurn_inl ht
  dsimp only at hcounts ⊢
  right
  have hkept : SameCounts c t.2.2 := by
    by_cases hl : intelLevel (leaf4 P j) = level
    · obtain ⟨d, hd, -, hsame, -⟩ := hfound hl
      have hsame' : d = cpu := by
        refine intelCores_of_set ?_ hd
        rw [hcounts.2]
        exact hset
      rw [hsame'] at hsame
      exact hcounts.trans hsame
    · rw [hother hl]
      exact hcounts
  refine ⟨hkept, ?_⟩
  rw [hnext]
  have hahead : ahead i j ≠ 0 := by
    intro hzero
    have hsame := leaf4_repeats (P := P) (ahead_eq_zero hzero)
    rw [hsame] at hfound
    obtain ⟨d, hd, -⟩ := hfound hlevel
    have hsome := intelCores_counts maxlevel (intelCpp (leaf4 P i)) hcounts
    rw [hrefused, hd] at hsome
    cases hsome
  have hsucc := ahead_succ hahead
  omega

/-- Descriptors are added until there is no memory for one. -/
theorem halts_of_memory {s : Nat × Nat × TorqueCput} (hlevel : intelLevel (leaf4 P k) = level)
    (hmem : P.memdesc m = false) (hs : s.2.2.memdescs.length ≤ m) :
    Halts (intelCacheTurn P maxlevel level) s := by
  refine halts_of_measure (fun s => s.2.2.memdescs.length ≤ m)
    (fun s => (m - s.2.2.memdescs.length) * 2 ^ 32 + ahead k s.1) ?_ hs
  rintro ⟨j, maxdc, cpu⟩ t hle ht
  obtain ⟨hnext, -, -, hother, hfound⟩ := intelCacheTurn_inl ht
  dsimp only at hle ⊢
  right
  rw [hnext]
  have hlt := ahead_lt k (j + 1)
  by_cases hl : intelLevel (leaf4 P j) = level
  · obtain ⟨d, -, hgranted, -, hlength⟩ := hfound hl
    have hne : cpu.memdescs.length ≠ m := by
      intro heq
      rw [heq, hmem] at hgranted
      cases hgranted
    rw [hlength]
    omega
  · rw [hother hl]
    refine ⟨hle, ?_⟩
    have hahead : ahead k j ≠ 0 := by
      intro hzero
      apply hl
      rw [leaf4_repeats (P := P) (ahead_eq_zero hzero)]
      exact hlevel
    have hsucc := ahead_succ hahead
    omega

/-- Up to the first entry of the level the pass changes nothing; after it, it
cannot go on for ever. -/
theorem refused_halts (h : Refused P maxlevel cpu) (maxdc : Nat) :
    Halts (intelCacheTurn P maxlevel 1) (0, maxdc, cpu) := by
  obtain ⟨k, hk, hrefused⟩ := h
  refine halts_of_measure (fun s => s.1 ≤ k ∧ s.2.2 = cpu) (fun s => k - s.1) ?_ ⟨Nat.zero_le k, rfl⟩
  rintro ⟨i, maxdc, cpu'⟩ t ⟨hle, hsame⟩ ht
  dsimp only at hle hsame ⊢
  rw [hsame] at ht
  obtain ⟨hnext, -, -, hother, hfound⟩ := intelCacheTurn_inl ht
  rcases Nat.lt_or_eq_of_le hle with hlt | rfl
  · right
    rw [hnext, hother (hk.first i hlt)]
    exact ⟨⟨hlt, rfl⟩, by omega⟩
  · left
    obtain ⟨c, hc, hgranted, hcounts, hlength⟩ := hfound hk.level
    rcases hrefused c hc with ⟨j, hj, hnone⟩ | ⟨m, hm, hmem⟩
    · exact halts_of_contradiction hj (intelCores_spec (Nat.succ_ne_zero _) hc).2.set hnone hcounts
    · refine halts_of_memory hk.level hmem ?_
      have hne : cpu.memdescs.length ≠ m := by
        rintro rfl
        rw [hmem] at hgranted
        cases hgranted
      omega

/-- Where nothing is refused, the first entry of level 1 is taken, and so is
each that comes after it. -/
theorem taken_of_not_refused (hnot : ¬ Refused P maxlevel cpu) (hk : FirstOfLevel P k) :
    ∃ c, intelCores maxlevel (intelCpp (leaf4 P k)) cpu = some c ∧
      (∀ i, intelLevel (leaf4 P i) = 1 → intelCores maxlevel (intelCpp (leaf4 P i)) c ≠ none) ∧
      ∀ m, cpu.memdescs.length ≤ m → P.memdesc m = true := by
  by_contra hnone
  refine hnot ⟨k, hk, fun c hc => ?_⟩
  by_contra hneither
  obtain ⟨hcores, hmem⟩ := not_or.mp hneither
  refine hnone ⟨c, hc, fun i hi hrefused => hcores ⟨i, hi, hrefused⟩, fun m hm => ?_⟩
  by_contra hfalse
  exact hmem ⟨m, hm, by simpa using hfalse⟩

theorem intelCacheTurn_taken (htype : intelType (leaf4 P i) ∈ [1, 2, 3])
    (hlevel : intelLevel (leaf4 P i) = level)
    (hcores : intelCores maxlevel (intelCpp (leaf4 P i)) cpu = some c)
    (hmem : P.memdesc cpu.memdescs.length = true) (maxdc : Nat) :
    ∃ t, intelCacheTurn P maxlevel level (i, maxdc, cpu) = .inl t ∧ SameCounts c t.2.2 ∧
      t.2.2.memdescs.length = cpu.memdescs.length + 1 := by
  obtain ⟨t, ht⟩ := intelCacheTurn_found maxdc htype hlevel hcores hmem
  obtain ⟨-, -, -, -, hfound⟩ := intelCacheTurn_inl ht
  obtain ⟨d, hd, -, hcounts, hlength⟩ := hfound hlevel
  rw [hcores] at hd
  cases hd
  exact ⟨t, ht, hcounts, hlength⟩

/-- Once the counts are set, an entry that is not refused leaves them. -/
theorem intelCores_kept {cpp : Nat} (hset : c.coresperpackage ≠ 0) (hcounts : SameCounts c cpu)
    (hcores : intelCores maxlevel cpp c ≠ none) : intelCores maxlevel cpp cpu = some cpu := by
  have hsome := intelCores_counts maxlevel cpp hcounts
  rw [Option.isSome_iff_ne_none.mpr hcores] at hsome
  obtain ⟨d, hd⟩ := Option.isSome_iff_exists.mp hsome.symm
  rw [← hcounts.2] at hset
  rw [hd, intelCores_of_set hset hd]

/-- Where no subleaf ends the pass and nothing fails, it goes on. -/
theorem pass_goes_on (hunending : Unending P) (hnot : ¬ Refused P maxlevel cpu) (maxdc : Nat) :
    ¬ Halts (intelCacheTurn P maxlevel 1) (0, maxdc, cpu) := by
  -- nothing of the level so far, or its first entry taken
  refine not_halts (fun s =>
    ((∀ j, j < s.1 → intelLevel (leaf4 P j) ≠ 1) ∧ s.2.2 = cpu) ∨
    ∃ k c, FirstOfLevel P k ∧ intelCores maxlevel (intelCpp (leaf4 P k)) cpu = some c ∧
      SameCounts c s.2.2 ∧ cpu.memdescs.length ≤ s.2.2.memdescs.length) ?_ ?_
  · rintro ⟨i, maxdc, cpu'⟩ hs
    dsimp only at hs
    by_cases hl : intelLevel (leaf4 P i) = 1
    · rcases hs with ⟨hfirst, rfl⟩ | ⟨k, c, hk, hc, hcounts, hlength⟩
      · obtain ⟨c, hc, -, hmem⟩ := taken_of_not_refused hnot ⟨hl, hfirst⟩
        obtain ⟨t, ht, hcounts, hlength⟩ :=
          intelCacheTurn_taken (hunending i) hl hc (hmem _ le_rfl) maxdc
        exact ⟨t, ht, .inr ⟨i, c, ⟨hl, hfirst⟩, hc, hcounts, by omega⟩⟩
      · obtain ⟨c', hc', hcores, hmem⟩ := taken_of_not_refused hnot hk
        rw [hc] at hc'
        cases hc'
        have hset : c.coresperpackage ≠ 0 := (intelCores_spec (Nat.succ_ne_zero _) hc).2.set
        have hkept := intelCores_kept hset hcounts (hcores i hl)
        obtain ⟨t, ht, hsame, hlonger⟩ :=
          intelCacheTurn_taken (hunending i) hl hkept (hmem _ hlength) maxdc
        exact ⟨t, ht, .inr ⟨k, c, hk, hc, hcounts.trans hsame, by omega⟩⟩
    · refine ⟨_, intelCacheTurn_other (hunending i) hl, ?_⟩
      rcases hs with ⟨hfirst, rfl⟩ | hafter
      · refine .inl ⟨fun j hj => ?_, rfl⟩
        rcases Nat.lt_or_eq_of_le (Nat.le_of_lt_succ hj) with hlt | rfl
        · exact hfirst j hlt
        · exact hl
      · exact .inr hafter
  · exact .inl ⟨fun j hj => absurd hj (Nat.not_lt_zero j), rfl⟩

/-- Where no subleaf ends a pass, one that ends has failed. -/
theorem pass_fails (hunending : Unending P) {s : Nat × Nat × TorqueCput}
    {a : Option (Nat × TorqueCput)} (ha : iterate (intelCacheTurn P maxlevel level) n s = some a) :
    a = none := by
  refine iterate_spec (fun _ => True) (fun a => a = none) (fun _ _ _ _ => trivial) ?_ trivial ha
  rintro ⟨i, maxdc, cpu⟩ a - hturn
  have hzero : intelType (leaf4 P i) ≠ 0 := by
    intro h0
    have htype := hunending i
    rw [h0] at htype
    simp at htype
  unfold intelCacheTurn at hturn
  dsimp only at hturn
  rw [if_neg hzero] at hturn
  repeat' split at hturn
  all_goals cases hturn
  all_goals rfl

def IntelCachesReturn (P : Processor) (maxlevel : Word) (cpu : TorqueCput) : Prop :=
  ∃ n r, idIntelCachesRun n P maxlevel cpu = some r

/-- There is no leaf 4, or a subleaf of it has another type than 1 to 3, or an
entry of the first level fails. -/
def CachesStop (P : Processor) (maxlevel : Word) (cpu : TorqueCput) : Prop :=
  maxlevel < 0x4 ∨ ¬ Unending P ∨ Refused P maxlevel cpu

theorem intelCachesReturn_iff : IntelCachesReturn P maxlevel cpu ↔ CachesStop P maxlevel cpu := by
  unfold IntelCachesReturn CachesStop idIntelCachesRun
  by_cases hlow : maxlevel < 0x4
  · simp only [if_pos hlow]
    exact iff_of_true ⟨0, _, rfl⟩ (.inl hlow)
  · simp only [if_neg hlow]
    rw [or_iff_right hlow]
    constructor
    · rintro ⟨n, r, h⟩
      by_contra hnot
      obtain ⟨hunending, hrefused⟩ := not_or.mp hnot
      apply pass_goes_on (not_not.mp hunending) hrefused 1
      obtain ⟨a, ha, -⟩ := Option.map_eq_some_iff.mp h
      cases n with
      | zero => cases ha
      | succ n =>
        rw [intelCacheLevelsRun] at ha
        cases hpass : iterate (intelCacheTurn P maxlevel 1) (n + 1) (0, 1, cpu) with
        | none =>
          rw [hpass] at ha
          cases ha
        | some a => exact ⟨n + 1, a, hpass⟩
    · intro hstop
      by_cases hunending : Unending P
      · -- the first pass fails
        have hrefused := hstop.resolve_left (not_not.mpr hunending)
        obtain ⟨n, a, ha⟩ := refused_halts hrefused 1
        refine ⟨n + 1, none, ?_⟩
        rw [intelCacheLevelsRun, iterate_mono (Nat.le_succ n) ha, pass_fails hunending ha]
        rfl
      · obtain ⟨k, hk⟩ := not_forall.mp hunending
        obtain ⟨N, r, hrun⟩ := levels_return maxlevel hk (by decide : 1 ≤ 7)
          (by decide : 1 ≤ 7) cpu
        refine ⟨N, r.bind fun cpu => idIntelCachesOld P maxlevel cpu, ?_⟩
        rw [hrun N N le_rfl le_rfl]
        rfl

/-- **When enumeration ends.** `x86apic` returns exactly when one of the first
three reads of leaf 0xb ends its loop; `id_intel_caches` returns exactly when a
subleaf of leaf 4 ends a pass over it, or an entry of the first level fails. -/
theorem enumeration_returns_iff (P : Processor) (maxlevel : Word) (cpu : TorqueCput) :
    (ApicReturns P maxlevel ↔ ApicStops P maxlevel) ∧
      (IntelCachesReturn P maxlevel cpu ↔ CachesStop P maxlevel cpu) :=
  ⟨apicReturns_iff, intelCachesReturn_iff⟩

/-- A processor that answers without regard to the subleaf: leaf 4 has a cache
of level 2, and leaf 0xb the level of the threads. -/
def deafProcessor : Processor where
  cpuidAvailable := true
  cpuid leaf _ :=
    if leaf = 0x4 then ⟨0x43, 0x01c0003f, 0x3f, 0⟩
    else if leaf = 0xb then ⟨0, 1, 0x100, 0⟩
    else {}
  memdesc _ := true
  tlbdesc _ := true
  strdup := true

/-- Neither function returns on it. -/
theorem deafProcessor_never_returns :
    ¬ ApicReturns deafProcessor 0xb ∧ ¬ IntelCachesReturn deafProcessor 0xb blankCput := by
  constructor
  · rw [apicReturns_iff]
    intro hstops
    rcases hstops with hlow | hid | hgoes
    · exact absurd hlow (by decide)
    · exact hid (by decide)
    · exact hgoes (by decide)
  · rw [intelCachesReturn_iff]
    have hentry : ∀ i, leaf4 deafProcessor i = ⟨0x43, 0x01c0003f, 0x3f, 0⟩ := fun _ => rfl
    rintro (hlow | hends | ⟨k, hk, -⟩)
    · exact absurd hlow (by decide)
    · refine hends fun i => ?_
      rw [hentry]
      decide
    · have hlevel := hk.level
      rw [hentry] at hlevel
      exact absurd hlevel (by decide)

end Libtorque.Hardware
