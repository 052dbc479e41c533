import Libtorque.Hardware.Descriptors
import Libtorque.Lib.Insertion
import Libtorque.Startup.Detect

/-! # The tables as arrays

`add_hwmem`, `add_tlb` and `add_pagesize` as they work on the memory of a
table; the lists of descriptors and of page sizes are what the tables hold. The
counts are `unsigned` in the source, and do not wrap here. -/
namespace Libtorque.Startup
open Libtorque.Hardware Libtorque.Lib

/-! ## The code -/

/-- With the slot, or NULL. -/
def Slots.addHwmem (mems : Slots TorqueMem) (amem : TorqueMem) (realloc : Bool) :
    Option (Option Nat × Slots TorqueMem) :=
  mems.insert (fun t a => compareMemdetails t a > 0) amem realloc

def Slots.addTlb (tlbdescs : Slots TorqueTlb) (tlb : TorqueTlb) (realloc : Bool) :
    Option (Option Nat × Slots TorqueTlb) :=
  tlbdescs.insert (fun t a => compareTlbdetails t a > 0) tlb realloc

/-- With 0, or -1. -/
def Slots.addPagesize (psizevals : Slots Nat) (psize : Nat) (realloc : Bool) :
    Option (Int × Slots Nat) :=
  (psizevals.insert (fun t a => t > a) psize realloc).map fun (slot, vals) =>
    (if slot.isSome then 0 else -1, vals)

/-! ## What the tables hold -/

/-- The order of page sizes. -/
def comparePagesizes (a b : Nat) : Int := cmpField a b 0

/-- What is wanted of an empty table after calls of `add`, the items of which are
compared by `compare`: it has the entries `l`, and a call that fails is going to
leave it as it is. -/
structure HoldsInserted {α ρ : Type} (compare : α → α → Int)
    (add : Slots α → α → Bool → Option (ρ × Slots α)) (failed : ρ) (calls : List (α × Bool))
    (l : List α) : Prop where
  run : exec (fun t c => (add t c.1 c.2).map Prod.snd) {} calls = some (.ofList l)
  order : InOrder compare l
  perm : l.Perm (Slots.inserted calls)
  stable : ∀ a, l.filter (fun b => compare b a = 0) =
    (Slots.inserted calls).filter fun b => compare b a = 0
  unchanged : ∀ a, add (.ofList l) a false = some (failed, .ofList l)

/-- The next call that succeeds gives the slot that the item is in. -/
def GivesSlot {α : Type} (add : Slots α → α → Bool → Option (Option Nat × Slots α))
    (l : List α) : Prop :=
  ∀ a, ∃ i l', add (.ofList l) a true = some (some i, .ofList l') ∧ l'[i]? = some a

section Compare
variable {α : Type} {compare : α → α → Int} {key : α → List Nat}

theorem compare_pos_iff (hcmp : ComparesBy compare key) (a b : α) :
    decide (compare a b > 0) = true ↔ key b < key a := by
  rw [decide_eq_true_iff, ← not_le, ← hcmp a b]
  omega

/-- The list that the calls make, whatever `add` returns besides. -/
theorem holdsInserted_insert {ρ : Type} {add : Slots α → α → Bool → Option (ρ × Slots α)}
    {f : Option Nat → ρ} (hcmp : ComparesBy compare key)
    (hzero : ∀ a b, compare a b = 0 ↔ key a = key b)
    (hadd : ∀ t a ok, add t a ok =
      (t.insert (fun t a => compare t a > 0) a ok).map fun r => (f r.1, r.2))
    (calls : List (α × Bool)) : ∃ l, HoldsInserted compare add (f none) calls l := by
  obtain ⟨l, hrun, hord⟩ := Slots.exec_call (compare_pos_iff hcmp) Slots.ordered_nil calls
  have hstep : (fun t c => (add t c.1 c.2).map Prod.snd) =
      Slots.call fun t a => compare t a > 0 := by
    funext t c
    rw [hadd, Slots.call, Option.map_map]
    rfl
  refine ⟨l, ⟨?_, ?_, hord.perm, ?_, ?_⟩⟩
  · rw [hstep]
    exact hrun
  · exact hord.sorted.imp fun h => (hcmp _ _).mpr h
  · intro a
    refine hord.stable (key a) _ fun b => ?_
    rw [decide_eq_true_iff]
    exact hzero b a
  · intro a
    rw [hadd]
    rfl

theorem givesSlot_insert (compare : α → α → Int) (l : List α) :
    GivesSlot (fun t a ok => t.insert (fun t a => compare t a > 0) a ok) l :=
  fun a => ⟨_, _, Slots.insert_ofList _ a l, Slots.getElem?_placed a l⟩

end Compare

theorem compareTlbdetails_eq_zero {a b : TorqueTlb} :
    compareTlbdetails a b = 0 ↔ a.key = b.key := by
  simp [compareTlbdetails, TorqueTlb.key, cmpField_eq_zero]

theorem comparePagesizes_by_key : ComparesBy comparePagesizes fun a => [a] := by
  intro a b
  exact cmpField_le_zero (by simp)

theorem comparePagesizes_eq_zero {a b : Nat} : comparePagesizes a b = 0 ↔ [a] = [b] := by
  simp [comparePagesizes, cmpField_eq_zero]

theorem comparePagesizes_pos {a b : Nat} : comparePagesizes a b > 0 ↔ a > b := by
  unfold comparePagesizes cmpField
  split
  · omega
  · split <;> omega

/-! ## The lists that the rest of the detection works on -/

theorem insertDesc_eq_placed {α : Type} (compare : α → α → Int) (a : α) (l : List α) :
    insertDesc compare a l = Slots.placed (fun t a => compare t a > 0) a l := by
  induction l with
  | nil => rfl
  | cons t ts ih =>
    rw [insertDesc, Slots.placed_cons, ih]
    simp only [decide_eq_true_iff]

theorem addHwmem_slots (P : Processor) (cpu : TorqueCput) (amem : TorqueMem) :
    ∃ slot, Slots.addHwmem (.ofList cpu.memdescs) amem (P.memdesc cpu.memdescs.length) =
        some (slot, .ofList ((addHwmem P cpu amem).getD cpu).memdescs) ∧
      (slot = none ↔ addHwmem P cpu amem = none) := by
  unfold addHwmem Slots.addHwmem
  cases P.memdesc cpu.memdescs.length with
  | true =>
    rw [Slots.insert_ofList, ← insertDesc_eq_placed]
    exact ⟨_, rfl, by simp⟩
  | false => exact ⟨none, rfl, by simp⟩

theorem addTlb_slots (P : Processor) (cpu : TorqueCput) (tlb : TorqueTlb) :
    ∃ slot, Slots.addTlb (.ofList cpu.tlbdescs) tlb (P.tlbdesc cpu.tlbdescs.length) =
        some (slot, .ofList ((addTlb P cpu tlb).getD cpu).tlbdescs) ∧
      (slot = none ↔ addTlb P cpu tlb = none) := by
  unfold addTlb Slots.addTlb
  cases P.tlbdesc cpu.tlbdescs.length with
  | true =>
    rw [Slots.insert_ofList, ← insertDesc_eq_placed]
    exact ⟨_, rfl, by simp⟩
  | false => exact ⟨none, rfl, by simp⟩

theorem addPagesize_slots (vals : List Nat) (psize : Nat) :
    Slots.addPagesize (.ofList vals) psize true = some (0,
      .ofList (vals.takeWhile (· ≤ psize) ++ psize :: vals.dropWhile (· ≤ psize))) := by
  have hle : (fun t => !decide (t > psize)) = fun t => decide (t ≤ psize) := by
    funext t
    rw [← decide_not]
    exact decide_eq_decide.mpr (by omega)
  rw [Slots.addPagesize, Slots.insert_ofList, Slots.placed, hle]
  rfl

/-- Whatever calls are made on an empty table, and whichever of them get their
memory, it holds the items of those in order, equal ones as they came. -/
theorem insertions_hold :
    (∀ calls, ∃ l, HoldsInserted compareMemdetails Slots.addHwmem none calls l ∧
      GivesSlot Slots.addHwmem l) ∧
    (∀ calls, ∃ l, HoldsInserted compareTlbdetails Slots.addTlb none calls l ∧
      GivesSlot Slots.addTlb l) ∧
    ∀ calls, ∃ l, HoldsInserted comparePagesizes Slots.addPagesize (-1) calls l := by
  refine ⟨?_, ?_, ?_⟩
  · intro calls
    have hall : ∃ l, HoldsInserted compareMemdetails Slots.addHwmem none calls l :=
      holdsInserted_insert (f := id) compareMemdetails_by_key
        (fun _ _ => compareMemdetails_eq_zero) (fun t a ok => (Option.map_id' ..).symm) calls
    obtain ⟨l, hl⟩ := hall
    exact ⟨l, hl, givesSlot_insert _ l⟩
  · intro calls
    have hall : ∃ l, HoldsInserted compareTlbdetails Slots.addTlb none calls l :=
      holdsInserted_insert (f := id) compareTlbdetails_by_key
        (fun _ _ => compareTlbdetails_eq_zero) (fun t a ok => (Option.map_id' ..).symm) calls
    obtain ⟨l, hl⟩ := hall
    exact ⟨l, hl, givesSlot_insert _ l⟩
  · intro calls
    refine holdsInserted_insert (f := fun slot => if slot.isSome then 0 else -1)
      comparePagesizes_by_key (fun _ _ => comparePagesizes_eq_zero) ?_ calls
    intro t a ok
    simp only [comparePagesizes_pos]
    rfl

end Libtorque.Startup
