import Libtorque.Hardware.Cpuid
import Mathlib.Data.List.Sort
import Mathlib.Data.List.Lex

/-! # The tables of descriptors

Both comparisons go by keys, lists of fields in lexicographic order. A table to
which `add_hwmem` or `add_tlb` adds stays in that order, and has what it had and
the descriptor. -/
namespace Libtorque.Hardware

theorem field_le (w : Word) (lo : Nat) (mask : Word) : field w lo mask ≤ mask.toNat := by
  unfold field
  rw [BitVec.toNat_and]
  exact Nat.and_le_right

/-- A comparison that goes by a key. -/
def ComparesBy {α : Type} (compare : α → α → Int) (key : α → List Nat) : Prop :=
  ∀ a b, compare a b ≤ 0 ↔ key a ≤ key b

/-- The order of a table. -/
def InOrder {α : Type} (compare : α → α → Int) (l : List α) : Prop :=
  l.Pairwise fun a b => compare a b ≤ 0

theorem cmpField_le_zero {x y : Nat} {xs ys : List Nat} {k : Int} (hk : k ≤ 0 ↔ xs ≤ ys) :
    cmpField x y k ≤ 0 ↔ x :: xs ≤ y :: ys := by
  have hcons : x :: xs ≤ y :: ys ↔ ¬ (y < x ∨ y = x ∧ ¬ xs ≤ ys) := by
    rw [← not_lt, List.cons_lt_cons_iff, not_le]
  rw [hcons, ← hk]
  unfold cmpField
  split
  · omega
  · split <;> omega

/-- The fields that `compare_memdetails` compares. -/
def TorqueMem.key (m : TorqueMem) : List Nat :=
  [m.level, m.memtype.value, m.totalsize, m.linesize, m.associativity]

/-- The fields that `compare_tlbdetails` compares. -/
def TorqueTlb.key (t : TorqueTlb) : List Nat :=
  [t.level, t.tlbtype.value, t.pagesize, t.entries, t.associativity]

theorem compareMemdetails_by_key : ComparesBy compareMemdetails TorqueMem.key := by
  intro a b
  unfold compareMemdetails TorqueMem.key
  exact cmpField_le_zero (cmpField_le_zero (cmpField_le_zero (cmpField_le_zero
    (cmpField_le_zero (by simp)))))

theorem compareTlbdetails_by_key : ComparesBy compareTlbdetails TorqueTlb.key := by
  intro a b
  unfold compareTlbdetails TorqueTlb.key
  exact cmpField_le_zero (cmpField_le_zero (cmpField_le_zero (cmpField_le_zero
    (cmpField_le_zero (by simp)))))

theorem cmpField_eq_zero {x y : Nat} {k : Int} : cmpField x y k = 0 ↔ x = y ∧ k = 0 := by
  unfold cmpField
  split
  · omega
  · split <;> omega

/-- Descriptors that compare as equal agree in all the fields compared. -/
theorem compareMemdetails_eq_zero {a b : TorqueMem} :
    compareMemdetails a b = 0 ↔ a.key = b.key := by
  simp [compareMemdetails, TorqueMem.key, cmpField_eq_zero]

section
variable {α : Type} {compare : α → α → Int} {key : α → List Nat} {a : α} {l : List α}

theorem insertDesc_perm (a : α) (l : List α) : (insertDesc compare a l).Perm (a :: l) := by
  induction l with
  | nil => exact .refl _
  | cons t ts ih =>
    rw [insertDesc]
    split
    · exact .refl _
    · exact (ih.cons t).trans (.swap a t ts)

theorem insertDesc_inOrder (hcmp : ComparesBy compare key) (h : InOrder compare l) :
    InOrder compare (insertDesc compare a l) := by
  induction l with
  | nil => exact List.pairwise_singleton _ _
  | cons t ts ih =>
    obtain ⟨ht, hts⟩ := List.pairwise_cons.mp h
    rw [insertDesc]
    split
    · rename_i hgt
      have hat : key a ≤ key t := by
        have hlt : ¬ key t ≤ key a := by
          rw [← hcmp]
          omega
        exact le_of_lt (not_le.mp hlt)
      refine List.pairwise_cons.mpr ⟨?_, h⟩
      intro b hb
      rw [hcmp]
      rcases List.mem_cons.mp hb with rfl | hb
      · exact hat
      · exact hat.trans ((hcmp t b).mp (ht b hb))
    · rename_i hle
      refine List.pairwise_cons.mpr ⟨?_, ih hts⟩
      intro b hb
      rcases List.mem_cons.mp ((insertDesc_perm a ts).mem_iff.mp hb) with rfl | hb
      · omega
      · exact ht b hb

end

/-! ## What a step of the detection adds -/

/-- The tables stay in order, and have what they had, these caches and these
TLBs. -/
structure Adds (cpu cpu' : TorqueCput) (mems : List TorqueMem) (tlbs : List TorqueTlb) : Prop where
  mem_order : InOrder compareMemdetails cpu.memdescs → InOrder compareMemdetails cpu'.memdescs
  mem_perm : cpu'.memdescs.Perm (cpu.memdescs ++ mems)
  tlb_order : InOrder compareTlbdetails cpu.tlbdescs → InOrder compareTlbdetails cpu'.tlbdescs
  tlb_perm : cpu'.tlbdescs.Perm (cpu.tlbdescs ++ tlbs)

/-- The counts, by which sharing is told. -/
def SameCounts (cpu cpu' : TorqueCput) : Prop :=
  cpu'.threadspercore = cpu.threadspercore ∧ cpu'.coresperpackage = cpu.coresperpackage

variable {cpu cpu' cpu'' : TorqueCput} {mem : TorqueMem} {tlb : TorqueTlb} {P : Processor}
  {mems mems' : List TorqueMem} {tlbs tlbs' : List TorqueTlb}

theorem SameCounts.trans (h : SameCounts cpu cpu') (h' : SameCounts cpu' cpu'') :
    SameCounts cpu cpu'' :=
  ⟨h'.1.trans h.1, h'.2.trans h.2⟩

theorem Adds.of_eq (hm : cpu'.memdescs = cpu.memdescs) (ht : cpu'.tlbdescs = cpu.tlbdescs) :
    Adds cpu cpu' [] [] where
  mem_order := by
    rw [hm]
    exact id
  mem_perm := by rw [hm, List.append_nil]
  tlb_order := by
    rw [ht]
    exact id
  tlb_perm := by rw [ht, List.append_nil]

theorem Adds.refl : Adds cpu cpu [] [] := .of_eq rfl rfl

theorem Adds.trans (h : Adds cpu cpu' mems tlbs) (h' : Adds cpu' cpu'' mems' tlbs') :
    Adds cpu cpu'' (mems ++ mems') (tlbs ++ tlbs') where
  mem_order := h'.mem_order ∘ h.mem_order
  mem_perm := by
    rw [← List.append_assoc]
    exact h'.mem_perm.trans (h.mem_perm.append_right mems')
  tlb_order := h'.tlb_order ∘ h.tlb_order
  tlb_perm := by
    rw [← List.append_assoc]
    exact h'.tlb_perm.trans (h.tlb_perm.append_right tlbs')

/-- Descriptors are added, and the counts are left alone. -/
structure Grows (cpu cpu' : TorqueCput) (mems : List TorqueMem) (tlbs : List TorqueTlb) : Prop
    extends Adds cpu cpu' mems tlbs where
  counts : SameCounts cpu cpu'

theorem Grows.refl : Grows cpu cpu [] [] := ⟨.refl, rfl, rfl⟩

theorem Grows.trans (h : Grows cpu cpu' mems tlbs) (h' : Grows cpu' cpu'' mems' tlbs') :
    Grows cpu cpu'' (mems ++ mems') (tlbs ++ tlbs') :=
  ⟨h.toAdds.trans h'.toAdds, h.counts.trans h'.counts⟩

theorem addHwmem_grows (h : addHwmem P cpu mem = some cpu') : Grows cpu cpu' [mem] [] := by
  unfold addHwmem at h
  split at h
  · cases h
    refine ⟨⟨insertDesc_inOrder compareMemdetails_by_key, ?_, id, ?_⟩, rfl, rfl⟩
    · exact (insertDesc_perm mem cpu.memdescs).trans (List.perm_append_singleton _ _).symm
    · rw [List.append_nil]
  · cases h

theorem addTlb_grows (h : addTlb P cpu tlb = some cpu') : Grows cpu cpu' [] [tlb] := by
  unfold addTlb at h
  split at h
  · cases h
    refine ⟨⟨id, ?_, insertDesc_inOrder compareTlbdetails_by_key, ?_⟩, rfl, rfl⟩
    · rw [List.append_nil]
    · exact (insertDesc_perm tlb cpu.tlbdescs).trans (List.perm_append_singleton _ _).symm
  · cases h

end Libtorque.Hardware
