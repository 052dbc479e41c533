import Mathlib.Data.List.TakeWhile

/-! # Writing to a buffer through a pointer

A cell of the buffer that has not been written has no value. A store outside the
buffer, and a string that runs into such a cell or to the end, give `none`. -/
namespace Libtorque.Lib

structure Cursor (α : Type) where
  cells : List (Option α)
  pos : Nat

namespace Cursor
variable {α : Type}

def fresh (n : Nat) : Cursor α := ⟨List.replicate n none, 0⟩

/-- `*p++ = a` -/
def put (c : Cursor α) (a : α) : Option (Cursor α) :=
  if c.pos < c.cells.length then some ⟨c.cells.set c.pos (some a), c.pos + 1⟩ else none

/-- What is read up to a terminator. -/
def readUntil (stop : α → Bool) : List (Option α) → Option (List α)
  | some a :: cells => if stop a then some [] else (readUntil stop cells).map (a :: ·)
  | _ => none

/-- A buffer of `n` cells to which `l` has been written. -/
def Written (n : Nat) (l : List α) (c : Cursor α) : Prop :=
  c.cells = l.map some ++ List.replicate (n - l.length) none ∧ c.pos = l.length

variable {n : Nat} {l : List α} {c : Cursor α} {a : α} {stop : α → Bool}

theorem written_fresh (n : Nat) : Written n [] (fresh n : Cursor α) := ⟨rfl, rfl⟩

theorem Written.put (h : Written n l c) (hn : l.length < n) (a : α) :
    ∃ c', c.put a = some c' ∧ Written n (l ++ [a]) c' := by
  obtain ⟨hcells, hpos⟩ := h
  obtain ⟨k, hk⟩ : ∃ k, n - l.length = k + 1 := ⟨n - l.length - 1, by omega⟩
  have hlen : c.pos < c.cells.length := by
    rw [hcells, hpos, hk]
    simp
  refine ⟨_, if_pos hlen, ?_, ?_⟩
  · have hrest : n - (l ++ [a]).length = k := by
      rw [List.length_append, List.length_singleton]
      omega
    rw [hcells, hpos, hrest, hk, List.replicate_succ]
    simp
  · simp [hpos]

theorem readUntil_append (ha : stop a = true) (l : List α) (rest : List (Option α)) :
    readUntil stop ((l ++ [a]).map some ++ rest) = some (l.takeWhile fun b => !stop b) := by
  induction l with
  | nil => simp [readUntil, ha]
  | cons b l ih =>
    rw [List.cons_append, List.map_cons, List.cons_append, readUntil, ih]
    cases hb : stop b <;> simp [hb]

/-- A string ends at the first terminator that was written. -/
theorem Written.readUntil (h : Written n (l ++ [a]) c) (ha : stop a = true) :
    readUntil stop c.cells = some (l.takeWhile fun b => !stop b) := by
  rw [h.1]
  exact readUntil_append ha l _

end Cursor

end Libtorque.Lib
