import Libtorque.Hardware.Descriptors

/-! # The caches and TLBs of Intel's processors

Leaf 4 is read once for each level of caches, until an entry of type 0; the
descriptor bytes of leaf 2 come after it. -/
namespace Libtorque.Hardware

/-! ## The entries of leaf 4 -/

/-- EAX[4:0] -/
def intelType (r : Regs) : Nat := field r.eax 0 0x1f

/-- EAX[7:5] -/
def intelLevel (r : Regs) : Nat := field r.eax 5 0x7

/-- EAX[31:26] + 1, the cores of a package. -/
def intelCpp (r : Regs) : Nat := field r.eax 26 0x3f + 1

/-- The size that is recorded. -/
def intelTotalsize (r : Regs) : Nat :=
  let associativity := if flag r.eax 0x200 then 1 else field r.ebx 22 0x3ff + 1
  let linesize := field r.ebx 0 0xfff + 1
  associativity * (field r.ebx 12 0x1ff + 1) * linesize * (r.ecx.toNat + 1) % 2 ^ 32

/-- The record of an entry, on a processor with so many threads to a core. -/
def intelMem (threadspercore : Nat) (r : Regs) : TorqueMem where
  totalsize := intelTotalsize r
  linesize := field r.ebx 0 0xfff + 1
  associativity := if flag r.eax 0x200 then 1 else field r.ebx 22 0x3ff + 1
  sharedways := max (field r.eax 14 0xfff + 1) threadspercore
  memtype := (intelCachetype (intelType r)).getD .unknown
  level := intelLevel r

def leaf4 (P : Processor) (i : Nat) : Regs := P.cpuid 0x4 (BitVec.ofNat 32 i)

/-- `k` entries from the `i`th on. -/
def leaf4Entries (P : Processor) : Nat → Nat → List Regs
  | _, 0 => []
  | i, k + 1 => leaf4 P i :: leaf4Entries P (i + 1) k

/-- Leaf 4 lists `k` caches from the `i`th entry on, before one of type 0. -/
structure Lists (P : Processor) (i k : Nat) : Prop where
  caches : ∀ j, j < k → intelType (leaf4 P (i + j)) ∈ [1, 2, 3]
  last : intelType (leaf4 P (i + k)) = 0

variable {P : Processor} {cpu cpu' c : TorqueCput} {maxlevel : Word} {n m i k level maxdc maxdc' : Nat}

theorem Lists.next (h : Lists P i (k + 1)) : Lists P (i + 1) k where
  caches := by
    intro j hj
    have hcache := h.caches (j + 1) (by omega)
    rwa [Nat.add_comm j 1, ← Nat.add_assoc] at hcache
  last := by
    have hlast := h.last
    rwa [Nat.add_comm k 1, ← Nat.add_assoc] at hlast

/-- The count of cores is set by then, and what it was if it was set before. -/
structure Counted (cpu cpu' : TorqueCput) : Prop where
  set : cpu'.coresperpackage ≠ 0
  kept : cpu.coresperpackage ≠ 0 → SameCounts cpu cpu'

theorem intelCores_spec {cpp : Nat} (hcpp : cpp ≠ 0) (h : intelCores maxlevel cpp cpu = some cpu') :
    Adds cpu cpu' [] [] ∧ Counted cpu cpu' := by
  unfold intelCores at h
  split at h
  · rename_i hunset
    split at h
    · dsimp only at h
      split at h
      · cases h
      · cases h
        exact ⟨.of_eq rfl rfl, hcpp, fun hset => absurd hunset hset⟩
    · cases h
      exact ⟨.of_eq rfl rfl, hcpp, fun hset => absurd hunset hset⟩
  · rename_i hset
    split at h
    · cases h
    · split at h
      · cases h
      · cases h
        exact ⟨.refl, hset, fun _ => ⟨rfl, rfl⟩⟩

/-- One turn of the loop. -/
theorem intelCacheLoop_succ : intelCacheLoop P maxlevel level (n + 1) i maxdc cpu =
    (if intelType (leaf4 P i) = 0 then some (maxdc, cpu)
    else do
      let memtype ← intelCachetype (intelType (leaf4 P i))
      let maxdc := max (intelLevel (leaf4 P i)) maxdc
      if intelLevel (leaf4 P i) ≠ level then intelCacheLoop P maxlevel level n (i + 1) maxdc cpu
      else
        let cpu ← intelCores maxlevel (intelCpp (leaf4 P i)) cpu
        let cpu ← addHwmem P cpu
          { intelMem cpu.threadspercore (leaf4 P i) with memtype := memtype }
        intelCacheLoop P maxlevel level n (i + 1) maxdc cpu) :=
  rfl

theorem intelMem_memtype {r : Regs} {memtype : TorqueMemtype} {tpc : Nat}
    (h : intelCachetype (intelType r) = some memtype) :
    { intelMem tpc r with memtype := memtype } = intelMem tpc r := by
  unfold intelMem
  rw [h]
  rfl

/-- An entry that is a cache is recorded when it is of the level. -/
theorem intelCacheLoop_cache {x : Nat × TorqueCput} (htype : intelType (leaf4 P i) ∈ [1, 2, 3])
    (h : intelCacheLoop P maxlevel level (n + 1) i maxdc cpu = some x) :
    ∃ c, intelCacheLoop P maxlevel level n (i + 1) (max (intelLevel (leaf4 P i)) maxdc) c = some x ∧
      if intelLevel (leaf4 P i) = level then
        Adds cpu c [intelMem c.threadspercore (leaf4 P i)] [] ∧ Counted cpu c
      else c = cpu := by
  have hzero : intelType (leaf4 P i) ≠ 0 := by
    intro h0
    rw [h0] at htype
    simp at htype
  rw [intelCacheLoop_succ, if_neg hzero] at h
  obtain ⟨memtype, hmemtype, h⟩ := Option.bind_eq_some_iff.mp h
  split at h
  · rename_i hother
    exact ⟨cpu, h, by rw [if_neg hother]⟩
  · rename_i hlevel
    obtain ⟨c, hcores, h⟩ := Option.bind_eq_some_iff.mp h
    obtain ⟨d, hadd, h⟩ := Option.bind_eq_some_iff.mp h
    refine ⟨d, h, ?_⟩
    rw [if_pos (not_not.mp hlevel)]
    obtain ⟨hadds, hcounted⟩ := intelCores_spec (Nat.succ_ne_zero _) hcores
    rw [intelMem_memtype hmemtype] at hadd
    have hgrows := addHwmem_grows hadd
    rw [hgrows.counts.1]
    refine ⟨hadds.trans hgrows.toAdds, ?_, fun hset => ?_⟩
    · rw [hgrows.counts.2]
      exact hcounted.set
    · exact (hcounted.kept hset).trans hgrows.counts

/-- The highest level of the entries, and of what there was before. -/
def topLevel (maxdc : Nat) : List Regs → Nat
  | [] => maxdc
  | r :: rs => topLevel (max (intelLevel r) maxdc) rs

/-- The records of a pass over `k` entries: those of the level, in their order. -/
theorem intelCacheLoop_adds (hlists : Lists P i k)
    (h : intelCacheLoop P maxlevel level n i maxdc cpu = some (maxdc', cpu')) :
    let found := (leaf4Entries P i k).filter (intelLevel · = level)
    maxdc' = topLevel maxdc (leaf4Entries P i k) ∧
      Adds cpu cpu' (found.map (intelMem cpu'.threadspercore)) [] ∧
      (found = [] → cpu' = cpu) ∧ (found ≠ [] → Counted cpu cpu') := by
  induction k generalizing i n maxdc cpu with
  | zero =>
    cases n with
    | zero => cases h
    | succ n =>
      have hlast : intelType (leaf4 P i) = 0 := hlists.last
      rw [intelCacheLoop_succ, if_pos hlast] at h
      cases h
      exact ⟨rfl, .refl, fun _ => rfl, fun h => absurd rfl h⟩
  | succ k ih =>
    cases n with
    | zero => cases h
    | succ n =>
      have hcache : intelType (leaf4 P i) ∈ [1, 2, 3] := hlists.caches 0 (by omega)
      obtain ⟨c, h, hc⟩ := intelCacheLoop_cache hcache h
      obtain ⟨hmax, hadds, hempty, hfound⟩ := ih hlists.next h
      dsimp only [leaf4Entries, topLevel]
      rw [List.filter_cons]
      split at hc
      · rename_i hlevel
        obtain ⟨hadd, hcounted⟩ := hc
        rw [if_pos (decide_eq_true hlevel)]
        -- the later entries leave the counts alone
        have hkept : SameCounts c cpu' := by
          by_cases hnone : (leaf4Entries P (i + 1) k).filter (intelLevel · = level) = []
          · rw [hempty hnone]
            exact ⟨rfl, rfl⟩
          · exact (hfound hnone).kept hcounted.set
        refine ⟨hmax, ?_, ?_, ?_⟩
        · rw [← hkept.1] at hadd
          exact hadd.trans hadds
        · intro h
          cases h
        · intro _
          refine ⟨?_, fun hset => (hcounted.kept hset).trans hkept⟩
          rw [hkept.2]
          exact hcounted.set
      · rename_i hlevel
        rw [if_neg (by simpa using hlevel)]
        rw [hc] at hadds hempty hfound
        exact ⟨hmax, hadds, hempty, hfound⟩

theorem le_topLevel (rs : List Regs) : maxdc ≤ topLevel maxdc rs := by
  induction rs generalizing maxdc with
  | nil => exact le_refl maxdc
  | cons r rs ih => exact (le_max_right _ _).trans ih

theorem level_le_topLevel {r : Regs} {rs : List Regs} (maxdc : Nat) (h : r ∈ rs) :
    intelLevel r ≤ topLevel maxdc rs := by
  induction rs generalizing maxdc with
  | nil => cases h
  | cons s rs ih =>
    rcases List.mem_cons.mp h with rfl | h
    · exact (le_max_left _ _).trans (le_topLevel rs)
    · exact ih _ h

/-- The entries of a level, and those of the levels above it. -/
theorem filter_levels_perm (level : Nat) (rs : List Regs) :
    (rs.filter (intelLevel · = level) ++ rs.filter (level + 1 ≤ intelLevel ·)).Perm
      (rs.filter (level ≤ intelLevel ·)) := by
  induction rs with
  | nil => exact .refl _
  | cons r rs ih =>
    rcases Nat.lt_trichotomy (intelLevel r) level with hlt | heq | hgt
    · have hne : ¬ intelLevel r = level := by omega
      have hover : ¬ level + 1 ≤ intelLevel r := by omega
      have hle : ¬ level ≤ intelLevel r := by omega
      rw [List.filter_cons, List.filter_cons, List.filter_cons, if_neg (by rwa [decide_eq_true_eq]),
        if_neg (by rwa [decide_eq_true_eq]), if_neg (by rwa [decide_eq_true_eq])]
      exact ih
    · have hover : ¬ level + 1 ≤ intelLevel r := by omega
      have hle : level ≤ intelLevel r := by omega
      rw [List.filter_cons, List.filter_cons, List.filter_cons, if_pos (by rwa [decide_eq_true_eq]),
        if_neg (by rwa [decide_eq_true_eq]), if_pos (by rwa [decide_eq_true_eq])]
      exact ih.cons r
    · have hne : ¬ intelLevel r = level := by omega
      have hover : level + 1 ≤ intelLevel r := hgt
      have hle : level ≤ intelLevel r := by omega
      rw [List.filter_cons, List.filter_cons, List.filter_cons, if_neg (by rwa [decide_eq_true_eq]),
        if_pos (by rwa [decide_eq_true_eq]), if_pos (by rwa [decide_eq_true_eq])]
      exact List.perm_middle.trans (ih.cons r)

/-- The records of the levels from `level` on: each entry has one. -/
theorem intelCacheLevels_adds (hlists : Lists P 0 k)
    (h : intelCacheLevels P maxlevel m n level maxdc cpu = some cpu') :
    ∃ mems, mems.Perm (((leaf4Entries P 0 k).filter (level ≤ intelLevel ·)).map
        (intelMem cpu'.threadspercore)) ∧
      Adds cpu cpu' mems [] ∧ (cpu.coresperpackage ≠ 0 → SameCounts cpu cpu') := by
  induction n generalizing level maxdc cpu with
  | zero => cases h
  | succ n ih =>
    obtain ⟨⟨maxdc', c⟩, hloop, h⟩ := Option.bind_eq_some_iff.mp h
    obtain ⟨hmax, hadds, hempty, hfound⟩ := intelCacheLoop_adds hlists hloop
    dsimp only at h
    generalize hrs : leaf4Entries P 0 k = rs at *
    have hkept : cpu.coresperpackage ≠ 0 → SameCounts cpu c := by
      intro hset
      by_cases hnone : rs.filter (intelLevel · = level) = []
      · rw [hempty hnone]
        exact ⟨rfl, rfl⟩
      · exact (hfound hnone).kept hset
    split at h
    · obtain ⟨mems, hperm, hrest, hcounts⟩ := ih h
      -- the records of this pass have the count of threads that is left
      have hways : (rs.filter (intelLevel · = level)).map (intelMem c.threadspercore) =
          (rs.filter (intelLevel · = level)).map (intelMem cpu'.threadspercore) := by
        by_cases hnone : rs.filter (intelLevel · = level) = []
        · rw [hnone]
          rfl
        · rw [(hcounts (hfound hnone).set).1]
      rw [hways] at hadds
      refine ⟨_, ?_, hadds.trans hrest, fun hset => ?_⟩
      · refine (hperm.append_left _).trans ?_
        rw [← List.map_append]
        exact (filter_levels_perm level rs).map _
      · have hset' : c.coresperpackage ≠ 0 := by
          rw [(hkept hset).2]
          exact hset
        exact (hkept hset).trans (hcounts hset')
    · rename_i hlast
      cases h
      refine ⟨_, ?_, hadds, hkept⟩
      apply List.Perm.map
      have hnone : rs.filter (level + 1 ≤ intelLevel ·) = [] := by
        rw [List.filter_eq_nil_iff]
        intro r hr
        have hle := level_le_topLevel maxdc hr
        rw [← hmax] at hle
        rw [decide_eq_true_eq]
        omega
      have hperm := filter_levels_perm level rs
      rwa [hnone, List.append_nil] at hperm

/-! ## The descriptors of leaf 2 -/

/-- The registers of leaf 2, each with the lowest bits of the bytes that may be
descriptors: AL is none. -/
def leaf2Registers (r : Regs) : List (Word × List Nat) :=
  [(r.eax, [24, 16, 8]), (r.ebx, [24, 16, 8, 0]), (r.ecx, [24, 16, 8, 0]), (r.edx, [24, 16, 8, 0])]

def byteAt (w : Word) (lo : Nat) : Nat := (w >>> lo).toNat % 256

/-- The bytes of the registers whose top bit is clear. -/
def leaf2Bytes (r : Regs) : List Nat :=
  ((leaf2Registers r).filter fun x => !x.1.msb).flatMap fun x => x.2.map (byteAt x.1)

/-- Those caches that do not compare as equal to one that is present by then. -/
def newCaches (present : List TorqueMem) : List TorqueMem → List TorqueMem
  | [] => []
  | mem :: mems =>
    if ∃ p ∈ present, compareMemdetails p mem = 0 then newCaches present mems
    else mem :: newCaches (present ++ [mem]) mems

theorem newCaches_congr {l l' : List TorqueMem} (h : ∀ p, p ∈ l ↔ p ∈ l') (mems : List TorqueMem) :
    newCaches l mems = newCaches l' mems := by
  induction mems generalizing l l' with
  | nil => rfl
  | cons mem mems ih =>
    have hmatch : (∃ p ∈ l, compareMemdetails p mem = 0) ↔ ∃ p ∈ l', compareMemdetails p mem = 0 := by
      simp only [h]
    have hstep : ∀ p, p ∈ l ++ [mem] ↔ p ∈ l' ++ [mem] := by
      intro p
      rw [List.mem_append, List.mem_append, h]
    rw [newCaches, newCaches, ih h, ih hstep]
    simp only [hmatch]

/-- No descriptor is both of a cache and of a TLB. -/
theorem intelTlb_of_cache {descriptor ways : Nat} {mem : TorqueMem}
    (h : getIntelCache descriptor ways = some mem) : getIntelTlb descriptor ways = none := by
  have hdisjoint : ∀ c ∈ intelCacheDescriptors, ∀ t ∈ intelTlbDescriptors,
      t.descriptor ≠ c.descriptor := by decide +kernel
  obtain ⟨c, hc, -⟩ := Option.map_eq_some_iff.mp h
  have hmem := List.mem_of_find?_eq_some hc
  have heq : c.descriptor = descriptor := by simpa using List.find?_some hc
  rw [← heq, getIntelTlb, Option.map_eq_none_iff, List.find?_eq_none]
  intro t ht
  simpa using hdisjoint c hmem t ht

theorem intelCache_zero (ways : Nat) : getIntelCache 0 ways = none := by
  have hzero : intelCacheDescriptors.find? (fun d => d.descriptor = 0) = none := by decide
  rw [getIntelCache, hzero]
  rfl

theorem intelTlb_zero (ways : Nat) : getIntelTlb 0 ways = none := by
  have hzero : intelTlbDescriptors.find? (fun d => d.descriptor = 0) = none := by decide
  rw [getIntelTlb, hzero]
  rfl

theorem newCaches_append (present mems mems' : List TorqueMem) :
    newCaches present (mems ++ mems') =
      newCaches present mems ++ newCaches (present ++ newCaches present mems) mems' := by
  induction mems generalizing present with
  | nil =>
    rw [newCaches, List.append_nil]
    rfl
  | cons mem mems ih =>
    rw [List.cons_append, newCaches, newCaches]
    split
    · exact ih present
    · rw [ih, List.cons_append, List.append_assoc, List.singleton_append]

/-- One byte: at most one descriptor is added. -/
theorem decodeIntelDescriptor_grows {descriptor : Nat}
    (h : decodeIntelDescriptor P cpu descriptor = some cpu') :
    Grows cpu cpu'
      (newCaches cpu.memdescs (getIntelCache descriptor cpu.threadspercore).toList)
      (getIntelTlb descriptor cpu.threadspercore).toList := by
  unfold decodeIntelDescriptor at h
  split at h
  · rename_i hzero
    cases h
    rw [hzero, intelCache_zero, intelTlb_zero]
    exact .refl
  · split at h
    · rename_i mem hcache
      rw [hcache, intelTlb_of_cache hcache, Option.toList_some, newCaches, newCaches]
      have hmatch : matchMemtype cpu.memdescs mem = true ↔
          ∃ p ∈ cpu.memdescs, compareMemdetails p mem = 0 := by
        simp [matchMemtype]
      split at h
      · rename_i hold
        cases h
        rw [if_pos (hmatch.mp hold)]
        exact .refl
      · rename_i hnew
        rw [if_neg (fun hold => hnew (hmatch.mpr hold))]
        exact addHwmem_grows h
    · rename_i hcache
      rw [hcache, Option.toList_none, newCaches]
      split at h
      · rename_i tlb htlb
        rw [htlb]
        exact addTlb_grows h
      · rename_i htlb
        rw [htlb]
        split at h
        · cases h
          exact .refl
        · split at h
          · cases h
            exact .refl
          · cases h

theorem foldlM_decode_grows {bytes : List Nat}
    (h : bytes.foldlM (decodeIntelDescriptor P) cpu = some cpu') :
    Grows cpu cpu'
      (newCaches cpu.memdescs (bytes.filterMap (getIntelCache · cpu.threadspercore)))
      (bytes.filterMap (getIntelTlb · cpu.threadspercore)) := by
  induction bytes generalizing cpu with
  | nil =>
    cases h
    exact .refl
  | cons b bytes ih =>
    rw [List.foldlM_cons] at h
    obtain ⟨c, hc, h⟩ := Option.bind_eq_some_iff.mp h
    have hfirst := decodeIntelDescriptor_grows hc
    have hrest := ih h
    have hpresent := newCaches_congr (fun p => hfirst.mem_perm.mem_iff (a := p))
      (bytes.filterMap (getIntelCache · cpu.threadspercore))
    rw [hfirst.counts.1, hpresent] at hrest
    have hcons : ∀ {α : Type} (f : Nat → Option α),
        (b :: bytes).filterMap f = (f b).toList ++ bytes.filterMap f := by
      intro α f
      rw [List.filterMap_cons]
      cases f b <;> rfl
    rw [hcons, hcons, newCaches_append]
    exact hfirst.trans hrest

theorem flag_top (w : Word) : flag w 0x80000000 = w.msb := by
  have hmask : (0x80000000 : Word) = BitVec.twoPow 32 31 := by decide
  rw [flag, hmask, BitVec.and_twoPow, BitVec.msb_eq_getLsbD_last]
  cases w.getLsbD 31 <;> rfl

theorem field_byte (w : Word) (lo : Nat) : field w lo 0xff = byteAt w lo := by
  rw [field, BitVec.toNat_and]
  exact Nat.and_two_pow_sub_one_eq_mod _ 8

theorem descriptorBytes_eq (low : Bool) (w : Word) : descriptorBytes low w =
    if w.msb then [] else ([24, 16, 8] ++ if low then [0] else []).map (byteAt w) := by
  unfold descriptorBytes
  rw [flag_top, field_byte, field_byte, field_byte, field_byte]
  split
  · rfl
  · cases low <;> rfl

theorem decodeIntelFunc2_eq (r : Regs) :
    decodeIntelFunc2 P cpu r = (leaf2Bytes r).foldlM (decodeIntelDescriptor P) cpu := by
  have hbytes : descriptorBytes false r.eax ++ descriptorBytes true r.ebx ++
      descriptorBytes true r.ecx ++ descriptorBytes true r.edx = leaf2Bytes r := by
    simp only [descriptorBytes_eq, leaf2Bytes, leaf2Registers, List.filter_cons, List.filter_nil]
    cases r.eax.msb <;> cases r.ebx.msb <;> cases r.ecx.msb <;> cases r.edx.msb <;> simp
  rw [decodeIntelFunc2, hbytes]

/-! ## The tables -/

/-- The caches of leaf 4 at level 1 and above. -/
def leaf4Mems (entries : List Regs) (threadspercore : Nat) : List TorqueMem :=
  (entries.filter (1 ≤ intelLevel ·)).map (intelMem threadspercore)

/-- The tables are in order. They have a record for each entry of leaf 4 at
level 1 and above, one for each further cache that a byte of leaf 2 describes,
and one for each byte that describes a TLB. -/
structure IntelTables (entries : List Regs) (leaf2 : Regs) (cpu' : TorqueCput) : Prop where
  mem_order : InOrder compareMemdetails cpu'.memdescs
  mem_perm :
    let listed := leaf4Mems entries cpu'.threadspercore
    let described := (leaf2Bytes leaf2).filterMap (getIntelCache · cpu'.threadspercore)
    cpu'.memdescs.Perm (listed ++ newCaches listed described)
  tlb_order : InOrder compareTlbdetails cpu'.tlbdescs
  tlb_perm : cpu'.tlbdescs.Perm
    ((leaf2Bytes leaf2).filterMap (getIntelTlb · cpu'.threadspercore))

/-- Leaf 2, after the caches of leaf 4 or without them. -/
theorem idIntelCachesOld_tables {entries : List Regs} {mems : List TorqueMem}
    (hperm : mems.Perm (leaf4Mems entries c.threadspercore)) (hc : Adds cpu c mems [])
    (hmems : cpu.memdescs = []) (htlbs : cpu.tlbdescs = [])
    (h : idIntelCachesOld P maxlevel c = some cpu') :
    IntelTables entries (P.cpuid 0x2 0) cpu' := by
  unfold idIntelCachesOld at h
  dsimp only at h
  split at h
  · cases h
  split at h
  · cases h
  rw [decodeIntelFunc2_eq] at h
  have hgrows := foldlM_decode_grows h
  have hlisted : c.memdescs.Perm (leaf4Mems entries cpu'.threadspercore) := by
    have hadded := hc.mem_perm
    rw [hmems, List.nil_append] at hadded
    rw [hgrows.counts.1]
    exact hadded.trans hperm
  have hnone : c.tlbdescs = [] := by
    have hadded := hc.tlb_perm
    rw [htlbs, List.append_nil] at hadded
    exact hadded.eq_nil
  refine ⟨hgrows.mem_order (hc.mem_order ?_), ?_, hgrows.tlb_order (hc.tlb_order ?_), ?_⟩
  · rw [hmems]
    exact .nil
  · have hperm' := hgrows.mem_perm
    rw [newCaches_congr (fun p => hlisted.mem_iff (a := p)), ← hgrows.counts.1] at hperm'
    exact hperm'.trans (hlisted.append_right _)
  · rw [htlbs]
    exact .nil
  · have hperm' := hgrows.tlb_perm
    rw [hnone, List.nil_append, ← hgrows.counts.1] at hperm'
    exact hperm'

/-- The entries of leaf 4, where a processor has it. -/
def listedEntries (P : Processor) (maxlevel : Word) (k : Nat) : List Regs :=
  if maxlevel < 0x4 then [] else leaf4Entries P 0 k

theorem tables_of_idIntelCaches {ff : FeatureFlags} (hlists : ¬ maxlevel < 0x4 → Lists P 0 k)
    (hmems : cpu.memdescs = []) (htlbs : cpu.tlbdescs = [])
    (h : idIntelCaches n P maxlevel ff cpu = some cpu') :
    IntelTables (listedEntries P maxlevel k) (P.cpuid 0x2 0) cpu' := by
  unfold idIntelCaches at h
  unfold listedEntries
  split at h
  · rename_i hlow
    rw [if_pos hlow]
    have hadds : Adds cpu { cpu with coresperpackage := 1 } [] [] := .of_eq rfl rfl
    exact idIntelCachesOld_tables (.refl []) hadds hmems htlbs h
  · rename_i hhigh
    rw [if_neg hhigh]
    obtain ⟨c, hlevels, h⟩ := Option.bind_eq_some_iff.mp h
    obtain ⟨mems, hperm, hadds, -⟩ := intelCacheLevels_adds (hlists hhigh) hlevels
    exact idIntelCachesOld_tables hperm hadds hmems htlbs h

/-- **The caches of Intel's processors.** Where leaf 4 lists finitely many
caches, the passes over it, one for each level, and the bytes of leaf 2 leave
tables that are in order and neither lose nor repeat a descriptor. -/
theorem idIntelCaches_tables {ff : FeatureFlags} (hlists : ¬ maxlevel < 0x4 → Lists P 0 k)
    (hmems : cpu.memdescs = []) (htlbs : cpu.tlbdescs = [])
    (h : idIntelCaches n P maxlevel ff cpu = some cpu') :
    IntelTables (listedEntries P maxlevel k) (P.cpuid 0x2 0) cpu' :=
  tables_of_idIntelCaches hlists hmems htlbs h

/-- A processor with these entries in leaf 4, and this leaf 2. -/
def intelProcessor (entries : List Regs) (leaf2 : Regs) : Processor where
  cpuidAvailable := true
  cpuid leaf sub :=
    if leaf = 0x2 then leaf2
    else if leaf = 0x4 then entries.getD sub.toNat {}
    else {}
  memdesc _ := true
  tlbdesc _ := true
  strdup := true

/-- Two L1 caches of 32 kB and an L2 cache of 4 MB, all of which leaf 2
describes again, with five TLBs. -/
def coreTwo : Processor :=
  intelProcessor [⟨0x04000121, 0x01c0003f, 0x3f, 0⟩, ⟨0x04000122, 0x01c0003f, 0x3f, 0⟩,
    ⟨0x04004143, 0x03c0003f, 0xfff, 0⟩] ⟨0x00b0b101, 0x005657f0, 0, 0x2cb43049⟩

theorem coreTwo_tables : ∃ cpu',
    idIntelCaches 5 coreTwo 0xa {} { blankCput with threadspercore := 2 } = some cpu' ∧
      IntelTables (listedEntries coreTwo 0xa 3) (coreTwo.cpuid 0x2 0) cpu' := by
  obtain ⟨cpu', h⟩ := Option.isSome_iff_exists.mp (by decide +kernel :
    (idIntelCaches 5 coreTwo 0xa {} { blankCput with threadspercore := 2 }).isSome = true)
  refine ⟨cpu', h, idIntelCaches_tables (fun _ => ⟨?_, by decide +kernel⟩) rfl rfl h⟩
  decide +kernel

/-! ## The size of a cache -/

/-- Ways, partitions, line size and sets. -/
def intelExactsize (r : Regs) : Nat :=
  (if flag r.eax 0x200 then 1 else field r.ebx 22 0x3ff + 1) * (field r.ebx 12 0x3ff + 1) *
    (field r.ebx 0 0xfff + 1) * (r.ecx.toNat + 1)

/-- At most 512 partitions, and less than 4 GB. -/
def SizeKept (r : Regs) : Prop := field r.ebx 12 0x3ff < 512 ∧ intelExactsize r < 2 ^ 32

theorem field_mod (w : Word) (lo k : Nat) (mask : Word) (hmask : mask.toNat = 2 ^ k - 1) :
    field w lo mask = (w >>> lo).toNat % 2 ^ k := by
  rw [field, BitVec.toNat_and, hmask]
  exact Nat.and_two_pow_sub_one_eq_mod _ k

/-- The mask of the partitions is a bit short. -/
theorem partitions_mod (w : Word) : field w 12 0x1ff = field w 12 0x3ff % 512 := by
  rw [field_mod w 12 9 0x1ff rfl, field_mod w 12 10 0x3ff rfl]
  exact (Nat.mod_mod_of_dvd _ (by decide : 2 ^ 9 ∣ 2 ^ 10)).symm

theorem intelTotalsize_eq_iff (r : Regs) : intelTotalsize r = intelExactsize r ↔ SizeKept r := by
  unfold SizeKept intelTotalsize intelExactsize
  dsimp only
  rw [partitions_mod]
  generalize hways : (if flag r.eax 0x200 then 1 else field r.ebx 22 0x3ff + 1) = ways
  have hpos : 0 < ways := by
    rw [← hways]
    split <;> omega
  generalize field r.ebx 12 0x3ff = partitions
  generalize field r.ebx 0 0xfff = line
  generalize r.ecx.toNat = sets
  by_cases hfew : partitions < 512
  · rw [Nat.mod_eq_of_lt hfew]
    generalize ways * (partitions + 1) * (line + 1) * (sets + 1) = size
    omega
  · -- fewer partitions make a smaller product
    have hless : ways * (partitions % 512 + 1) * (line + 1) * (sets + 1) <
        ways * (partitions + 1) * (line + 1) * (sets + 1) := by
      have hmod := Nat.mod_lt partitions (by decide : 512 > 0)
      apply Nat.mul_lt_mul_of_pos_right _ (Nat.succ_pos sets)
      apply Nat.mul_lt_mul_of_pos_right _ (Nat.succ_pos line)
      exact Nat.mul_lt_mul_of_pos_left (by omega) hpos
    have hmod := Nat.mod_le (ways * (partitions % 512 + 1) * (line + 1) * (sets + 1)) (2 ^ 32)
    refine iff_of_false ?_ (fun h => hfew h.1)
    omega

/-- **The size of a cache.** Of every entry that is recorded, the size is exact
if and only if it has at most 512 partitions and less than 4 GB; two such
entries of different sizes are never taken as equal. -/
theorem intelMem_totalsize_iff {ff : FeatureFlags} (hlists : ¬ maxlevel < 0x4 → Lists P 0 k)
    (hmems : cpu.memdescs = []) (htlbs : cpu.tlbdescs = [])
    (h : idIntelCaches n P maxlevel ff cpu = some cpu') (r : Regs)
    (hr : r ∈ listedEntries P maxlevel k) (hlevel : 1 ≤ intelLevel r) :
    ∃ mem ∈ cpu'.memdescs, mem = intelMem cpu'.threadspercore r ∧
      (mem.totalsize = intelExactsize r ↔ SizeKept r) ∧
      ∀ s ∈ listedEntries P maxlevel k, SizeKept r → SizeKept s →
        intelExactsize r ≠ intelExactsize s →
        compareMemdetails mem (intelMem cpu'.threadspercore s) ≠ 0 := by
  have htables := tables_of_idIntelCaches hlists hmems htlbs h
  refine ⟨intelMem cpu'.threadspercore r, ?_, rfl, intelTotalsize_eq_iff r, ?_⟩
  · apply htables.mem_perm.mem_iff.mpr
    apply List.mem_append_left
    exact List.mem_map.mpr ⟨r, List.mem_filter.mpr ⟨hr, decide_eq_true hlevel⟩, rfl⟩
  · intro s _ hkr hks hne hequal
    rw [compareMemdetails_eq_zero] at hequal
    simp only [TorqueMem.key, List.cons.injEq] at hequal
    apply hne
    rw [← (intelTotalsize_eq_iff r).mpr hkr, ← (intelTotalsize_eq_iff s).mpr hks]
    exact hequal.2.2.1

/-- The L2 cache of `coreTwo` has 4 MB. -/
theorem coreTwo_totalsize : ∃ cpu',
    idIntelCaches 5 coreTwo 0xa {} { blankCput with threadspercore := 2 } = some cpu' ∧
    ∃ mem ∈ cpu'.memdescs,
      mem = intelMem cpu'.threadspercore ⟨0x04004143, 0x03c0003f, 0xfff, 0⟩ ∧
      (mem.totalsize = intelExactsize ⟨0x04004143, 0x03c0003f, 0xfff, 0⟩ ↔
        SizeKept ⟨0x04004143, 0x03c0003f, 0xfff, 0⟩) ∧
      ∀ s ∈ listedEntries coreTwo 0xa 3, SizeKept ⟨0x04004143, 0x03c0003f, 0xfff, 0⟩ → SizeKept s →
        intelExactsize ⟨0x04004143, 0x03c0003f, 0xfff, 0⟩ ≠ intelExactsize s →
        compareMemdetails mem (intelMem cpu'.threadspercore s) ≠ 0 := by
  obtain ⟨cpu', h⟩ := Option.isSome_iff_exists.mp (by decide +kernel :
    (idIntelCaches 5 coreTwo 0xa {} { blankCput with threadspercore := 2 }).isSome = true)
  refine ⟨cpu', h, intelMem_totalsize_iff (fun _ => ⟨?_, by decide +kernel⟩) rfl rfl h
    ⟨0x04004143, 0x03c0003f, 0xfff, 0⟩ ?_ (by decide)⟩
  · decide +kernel
  · decide +kernel

/-- Two L4 caches with 16 ways and lines of 64 bytes, of 4 GB and of 8 GB. -/
def bigCaches : Processor :=
  intelProcessor [⟨0x04000183, 0x03c0003f, 0x3fffff, 0⟩, ⟨0x04000183, 0x03c0003f, 0x7fffff, 0⟩]
    ⟨0x00000001, 0, 0, 0⟩

/-- Both are recorded with no size, and taken as equal. -/
theorem bigCaches_without_size : ∃ cpu' a b,
    idIntelCaches 5 bigCaches 0xa {} { blankCput with threadspercore := 2 } = some cpu' ∧
      cpu'.memdescs = [a, b] ∧ a.totalsize = 0 ∧ b.totalsize = 0 ∧ compareMemdetails a b = 0 ∧
      intelExactsize (leaf4 bigCaches 0) = 4 * 2 ^ 30 ∧
      intelExactsize (leaf4 bigCaches 1) = 8 * 2 ^ 30 := by
  obtain ⟨cpu', h, hmems⟩ := Option.map_eq_some_iff.mp (by decide +kernel :
    (idIntelCaches 5 bigCaches 0xa {} { blankCput with threadspercore := 2 }).map (·.memdescs) =
      some [⟨0, 64, 16, 1, .unified, 4⟩, ⟨0, 64, 16, 1, .unified, 4⟩])
  exact ⟨cpu', _, _, h, hmems, rfl, rfl, by decide, by decide +kernel, by decide +kernel⟩

end Libtorque.Hardware
