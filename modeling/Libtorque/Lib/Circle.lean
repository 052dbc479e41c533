import Mathlib.Logic.Function.Basic

/-! # Links that lead back to where they start -/
namespace Libtorque.Lib

variable {α : Type}

/-- Following `next` from `a`, one passes the elements of a list and comes to
another. -/
inductive Visits (next : α → Option α) : α → List α → α → Prop where
  | nil (a : α) : Visits next a [] a
  | cons {a b c : α} {l : List α} (h : next a = some b) (hl : Visits next b l c) :
      Visits next a (a :: l) c

variable {next next' : α → Option α} {a b c : α} {l : List α}

/-- Only the links of the elements passed matter. -/
theorem Visits.congr (h : Visits next a l c) (hsame : ∀ x ∈ l, next' x = next x) :
    Visits next' a l c := by
  induction h with
  | nil a => exact .nil a
  | cons hab hl ih =>
    refine .cons ?_ (ih fun x hx => hsame x (List.mem_cons_of_mem _ hx))
    rw [hsame _ List.mem_cons_self, hab]

/-- The first link leads to the second element, or to the end. -/
theorem Visits.link (h : Visits next a (a :: l) c) : next a = (l ++ [c]).head? := by
  cases h with
  | cons hab hl =>
    cases hl with
    | nil => exact hab
    | cons => exact hab

/-- An element that is put after the first is passed after it. -/
theorem Visits.insert [DecidableEq α] (h : Visits next a (a :: l) c) (ha : a ∉ l) (hb : b ∉ a :: l) :
    Visits (Function.update (Function.update next b (next a)) a (some b)) a (a :: b :: l) c := by
  obtain ⟨hba, hbl⟩ := not_or.mp (List.mem_cons.not.mp hb)
  cases h with
  | cons hab hl =>
    refine .cons (Function.update_self ..) (.cons ?_ (hl.congr ?_))
    · rw [Function.update_of_ne hba, Function.update_self, hab]
    · intro x hx
      have hxa : x ≠ a := fun h => ha (h ▸ hx)
      have hxb : x ≠ b := fun h => hbl (h ▸ hx)
      rw [Function.update_of_ne hxa, Function.update_of_ne hxb]

end Libtorque.Lib
