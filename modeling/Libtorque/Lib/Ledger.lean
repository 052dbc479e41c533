import Mathlib.Data.List.Count
import Mathlib.Logic.Function.Basic

/-! # Counting what is held

How many of each kind of thing are held, against what is to be given back: the
things on a list, and those that a structure owns. -/
namespace Libtorque.Lib

variable {R : Type} [DecidableEq R]

/-- One more `r`. -/
def gain (h : R → Nat) (r : R) : R → Nat := Function.update h r (h r + 1)

/-- One `r` less. -/
def give (h : R → Nat) (r : R) : R → Nat := Function.update h r (h r - 1)

/-- Exactly the things listed and those owned are held. -/
def Owes (h own : R → Nat) (l : List R) : Prop := ∀ r, h r = l.count r + own r

variable {h own : R → Nat} {l m : List R} {r : R}

theorem gain_self : gain h r r = h r + 1 := Function.update_self ..

theorem gain_of_ne {q : R} (hq : q ≠ r) : gain h r q = h q := Function.update_of_ne hq ..

theorem gain_eq {g : R → Nat} (hr : g r = h r + 1) (hne : ∀ q, q ≠ r → g q = h q) :
    gain h r = g := by
  funext q
  by_cases hq : q = r
  · rw [hq, gain_self, hr]
  · rw [gain_of_ne hq, hne q hq]

theorem give_self : give h r r = h r - 1 := Function.update_self ..

theorem give_of_ne {q : R} (hq : q ≠ r) : give h r q = h q := Function.update_of_ne hq ..

theorem owes_nil : Owes (fun _ : R => 0) (fun _ => 0) [] := fun _ => rfl

theorem Owes.perm (ho : Owes h own l) (hp : l.Perm m) : Owes h own m := by
  intro r
  rw [ho r, hp.count_eq]

theorem Owes.gain (ho : Owes h own l) : Owes (gain h r) own (r :: l) := by
  intro q
  by_cases hq : q = r
  · subst hq
    rw [gain_self, ho q, List.count_cons_self]
    omega
  · rw [gain_of_ne hq, ho q, List.count_cons_of_ne (Ne.symm hq)]

theorem Owes.give (ho : Owes h own (r :: l)) : Owes (give h r) own l := by
  intro q
  by_cases hq : q = r
  · subst hq
    rw [give_self, ho q, List.count_cons_self]
    omega
  · rw [give_of_ne hq, ho q, List.count_cons_of_ne (Ne.symm hq)]

theorem Owes.pos (ho : Owes h own l) (hr : r ∈ l) : 0 < h r := by
  rw [ho r]
  exact Nat.add_pos_left (List.count_pos_iff.mpr hr) _

theorem Owes.eq_zero (ho : Owes h own l) (hr : r ∉ l) (hown : own r = 0) : h r = 0 := by
  rw [ho r, hown, List.count_eq_zero.mpr hr]

/-- A thing on the list gets an owner. -/
theorem Owes.owned (ho : Owes h own (r :: l)) : Owes h (Lib.gain own r) l := by
  intro q
  by_cases hq : q = r
  · subst hq
    rw [gain_self, ho q, List.count_cons_self]
    omega
  · rw [gain_of_ne hq, ho q, List.count_cons_of_ne (Ne.symm hq)]

/-- All that is owned of a kind is listed instead. -/
theorem Owes.disown (ho : Owes h own l) (r : R) :
    Owes h (Function.update own r 0) (List.replicate (own r) r ++ l) := by
  intro q
  rw [ho q, List.count_append]
  by_cases hq : q = r
  · subst hq
    rw [Function.update_self, List.count_replicate_self]
    omega
  · rw [Function.update_of_ne hq, List.count_replicate, if_neg (by simpa using Ne.symm hq)]
    omega

/-- With nothing owned, nothing is held when the list has become empty. -/
theorem Owes.nothing (ho : Owes h (fun _ => 0) l) : (∀ r, h r = 0) ↔ l = [] := by
  constructor
  · intro hz
    rw [List.eq_nil_iff_forall_not_mem]
    intro r hr
    exact Nat.ne_of_gt (ho.pos hr) (hz r)
  · rintro rfl r
    exact ho r

end Libtorque.Lib
