import Mathlib.Algebra.Order.Group.Nat

/-! # An address space

What is mapped at each address, and the calls that map and unmap whole pages.
An anonymous map is put where nothing is mapped, and is all zeros. -/
namespace Libtorque.Lib

/-- `none` where nothing is mapped. -/
abbrev Space := Nat → Option UInt8

namespace Space

/-- So many bytes, in whole pages. -/
def pages (pagesize len : Nat) : Nat := (len + pagesize - 1) / pagesize * pagesize

def inRange (p len a : Nat) : Prop := p ≤ a ∧ a < p + len

instance (p len a : Nat) : Decidable (inRange p len a) := inferInstanceAs (Decidable (_ ∧ _))

def zeroed (m : Space) (p len : Nat) : Space := fun a => if inRange p len a then some 0 else m a

def unmapped (m : Space) (p len : Nat) : Space := fun a => if inRange p len a then none else m a

def copied (m : Space) (dst src len : Nat) : Space :=
  fun a => if inRange dst len a then m (src + (a - dst)) else m a

/-- Nothing is mapped in the range. -/
def Free (m : Space) (p len : Nat) : Prop := ∀ a, inRange p len a → m a = none

/-- All of the range is mapped. -/
def Full (m : Space) (p len : Nat) : Prop := ∀ a, inRange p len a → m a ≠ none

variable {m : Space} {p q len n : Nat}

theorem le_pages {pagesize : Nat} (h : 0 < pagesize) (len : Nat) : len ≤ pages pagesize len := by
  have := Nat.div_add_mod (len + pagesize - 1) pagesize
  have := Nat.mod_lt (len + pagesize - 1) h
  unfold pages
  rw [Nat.mul_comm]
  omega

theorem Full.mono (h : Full m p n) (hlen : len ≤ n) : Full m p len :=
  fun a ha => h a ⟨ha.1, by have := ha.2; omega⟩

/-- A map that is given back leaves no trace. -/
theorem unmapped_zeroed (h : Free m p len) : unmapped (zeroed m p len) p len = m := by
  funext a
  unfold unmapped zeroed
  split
  · rename_i ha
    exact (h a ha).symm
  · rfl

theorem zeroed_of_mapped {a : Nat} (h : Free m p len) (ha : m a ≠ none) :
    zeroed m p len a = m a :=
  if_neg fun hin => ha (h a hin)

/-- What is mapped is apart from a map that is made. -/
theorem Full.apart (hq : Full m q n) (hp : Free m p len) {a : Nat} (ha : inRange p len a) :
    ¬ inRange q n a :=
  fun hin => hq a hin (hp a ha)

/-- The first `n` bytes of a map of `n'` are copied to a new one, and the old one is
given back. -/
def moved (m : Space) (p len q n n' : Nat) : Space :=
  unmapped (copied (zeroed m p len) p q n) q n'

variable {n' : Nat}

theorem moved_content (hq : Full m q n') (hn : n ≤ n') (hp : Free m p len) (hlen : n ≤ len)
    {i : Nat} (hi : i < n) : moved m p len q n n' (p + i) = m (q + i) := by
  have hin : inRange p len (p + i) := ⟨by omega, by omega⟩
  have hold : m (q + i) ≠ none := hq _ ⟨by omega, by omega⟩
  unfold moved unmapped
  rw [if_neg (hq.apart hp hin), copied, if_pos ⟨by omega, by omega⟩, Nat.add_sub_cancel_left]
  exact zeroed_of_mapped hp hold

theorem moved_full (hq : Full m q n') (hn : n ≤ n') (hp : Free m p len) :
    Full (moved m p len q n n') p len := by
  intro a ha
  unfold moved unmapped
  rw [if_neg (hq.apart hp ha), copied]
  split
  · rename_i hcopy
    have hold : m (q + (a - p)) ≠ none := hq _ ⟨by omega, by have := hcopy.2; have := ha.1; omega⟩
    rw [zeroed_of_mapped hp hold]
    exact hold
  · rw [zeroed, if_pos ha]
    simp

end Space

end Libtorque.Lib
