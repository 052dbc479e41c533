import Libtorque.Lib.Lts
import Mathlib.Data.List.Sort

/-! # Insertion into an array that grows by one

The array is reallocated, searched for the first entry above the new one, and
its tail moved up to make room. An access outside the allocation, or to a cell
that was never written, gives `none`. Counts are natural numbers: where a program
counts in fewer bits, they stand for its counts as long as these do not wrap. -/
namespace Libtorque.Lib

/-- The cells of an allocation, and how many of them are entries. -/
structure Slots (α : Type) where
  cells : List (Option α) := []
  count : Nat := 0
deriving DecidableEq

namespace Slots
variable {α β : Type}

def ofList (l : List α) : Slots α := ⟨l.map some, l.length⟩

/-- Cells that are added have not been written. -/
def resize (cells : List (Option α)) (n : Nat) : List (Option α) :=
  cells.take n ++ List.replicate (n - cells.length) none

def read (cells : List (Option α)) (i : Nat) : Option α := cells[i]?.join

def write (cells : List (Option α)) (i : Nat) (a : α) : Option (List (Option α)) :=
  if i < cells.length then some (cells.set i (some a)) else none

/-- `len` cells from `src` on are copied to `dst` and after. -/
def move (cells : List (Option α)) (dst src len : Nat) : Option (List (Option α)) :=
  if dst + len ≤ cells.length ∧ src + len ≤ cells.length then
    some (cells.take dst ++ (cells.drop src).take len ++ cells.drop (dst + len))
  else none

/-- The search from cell `i` on, with `n` entries to go, and the move. -/
def makeRoom (above : α → Bool) (cells : List (Option α)) :
    Nat → Nat → Option (Nat × List (Option α))
  | i, 0 => some (i, cells)
  | i, n + 1 => do
    let a ← read cells i
    if above a then
      let cells ← move cells (i + 1) i (n + 1)
      some (i, cells)
    else makeRoom above cells (i + 1) n

/-- Where `realloc` fails, nothing has changed and there is no slot. -/
def insert (above : α → α → Bool) (t : Slots α) (a : α) (realloc : Bool) :
    Option (Option Nat × Slots α) :=
  if realloc then do
    let cells := resize t.cells (t.count + 1)
    let (i, cells) ← makeRoom (above · a) cells 0 t.count
    let cells ← write cells i a
    some (some i, ⟨cells, t.count + 1⟩)
  else some (none, t)

/-- One call: the item, and whether `realloc` succeeds. -/
def call (above : α → α → Bool) (t : Slots α) (c : α × Bool) : Option (Slots α) :=
  (insert above t c.1 c.2).map Prod.snd

/-! ## The entries -/

/-- `a` goes before the first entry that is above it. -/
def placed (above : α → α → Bool) (a : α) (l : List α) : List α :=
  l.takeWhile (fun b => !above b a) ++ a :: l.dropWhile fun b => !above b a

/-- The items of the calls that succeed, in the order of the calls. -/
def inserted (calls : List (α × Bool)) : List α := (calls.filter Prod.snd).map Prod.fst

variable {above : α → α → Bool} {a : α} {l : List α} {t : Slots α} {calls : List (α × Bool)}

theorem read_append (l₁ l₂ : List α) (junk : List (Option α)) :
    read ((l₁ ++ a :: l₂).map some ++ junk) l₁.length = some a := by
  simp [read]

/-- The tail is moved over the one cell that is not an entry. -/
theorem move_append (l₁ l₂ : List α) (junk : Option α) :
    move ((l₁ ++ a :: l₂).map some ++ [junk]) (l₁.length + 1) l₁.length (l₂.length + 1) =
      some (l₁.map some ++ some a :: (a :: l₂).map some) := by
  have hlen : ((l₁ ++ a :: l₂).map some ++ [junk]).length = l₁.length + l₂.length + 2 := by
    simp
    omega
  rw [move, if_pos (by omega)]
  have hsplit : (l₁ ++ a :: l₂).map some ++ [junk] =
      l₁.map some ++ some a :: (l₂.map some ++ [junk]) := by simp
  have hend : ((l₁ ++ a :: l₂).map some ++ [junk]).drop (l₁.length + 1 + (l₂.length + 1)) = [] :=
    List.drop_eq_nil_of_le (by omega)
  rw [hend, hsplit, List.append_nil]
  simp [List.take_append, List.take_of_length_le]

/-- The search ends at the first entry above the item, with a free cell there. -/
theorem makeRoom_spec (p : α → Bool) (l₁ l₂ : List α) (junk : Option α) :
    ∃ gap, makeRoom p ((l₁ ++ l₂).map some ++ [junk]) l₁.length l₂.length =
      some ((l₁ ++ l₂.takeWhile fun b => !p b).length,
        (l₁ ++ l₂.takeWhile fun b => !p b).map some ++
          gap :: (l₂.dropWhile fun b => !p b).map some) := by
  induction l₂ generalizing l₁ with
  | nil => exact ⟨junk, by simp [makeRoom]⟩
  | cons b l₂ ih =>
    rw [List.length_cons, makeRoom, read_append, Option.bind_eq_bind, Option.bind_some]
    by_cases hp : p b = true
    · refine ⟨some b, ?_⟩
      rw [if_pos hp, move_append]
      simp [hp]
    · obtain ⟨gap, hgap⟩ := ih (l₁ ++ [b])
      refine ⟨gap, ?_⟩
      rw [if_neg hp]
      simpa [hp] using hgap

/-- The item is written to the free cell. -/
theorem insert_ofList (above : α → α → Bool) (a : α) (l : List α) :
    insert above (ofList l) a true =
      some (some (l.takeWhile fun b => !above b a).length, ofList (placed above a l)) := by
  obtain ⟨gap, hgap⟩ := makeRoom_spec (above · a) [] l none
  have hsize : resize (ofList l).cells ((ofList l).count + 1) = l.map some ++ [none] := by
    simp [resize, ofList, List.take_of_length_le]
  have hcount : (placed above a l).length = l.length + 1 := by
    have := congrArg List.length (List.takeWhile_append_dropWhile (p := fun b => !above b a) (l := l))
    rw [List.length_append] at this
    simp only [placed, List.length_append, List.length_cons]
    omega
  rw [insert, if_pos rfl, hsize]
  simp only [List.nil_append, List.length_nil] at hgap
  simp only [ofList, hgap, hcount, Option.bind_eq_bind, Option.bind_some]
  rw [write, if_pos (by simp)]
  simp [placed]

theorem placed_perm (a : α) (l : List α) : (placed above a l).Perm (a :: l) := by
  refine List.perm_middle.trans (.cons a ?_)
  rw [List.takeWhile_append_dropWhile]

theorem getElem?_placed (a : α) (l : List α) :
    (placed above a l)[(l.takeWhile fun b => !above b a).length]? = some a := by
  simp [placed]

/-! ## Entries in the order of a key -/

/-- The items inserted, in the order of their keys; those of one key in the order
in which they came. -/
structure Ordered [LinearOrder β] (key : α → β) (items l : List α) : Prop where
  sorted : l.Pairwise fun a b => key a ≤ key b
  perm : l.Perm items
  stable : ∀ (k : β) (p : α → Bool), (∀ a, p a = true ↔ key a = k) → l.filter p = items.filter p

section Key
variable [LinearOrder β] {key : α → β} {items : List α}
  (habove : ∀ a b, above a b = true ↔ key b < key a)

theorem ordered_nil : Ordered key [] [] := ⟨.nil, .refl _, fun _ _ _ => rfl⟩

theorem placed_cons (a b : α) (l : List α) :
    placed above a (b :: l) = if above b a then a :: b :: l else b :: placed above a l := by
  by_cases hb : above b a = true
  · simp [placed, hb]
  · simp [placed, hb]

include habove

theorem placed_sorted (h : l.Pairwise fun a b => key a ≤ key b) :
    (placed above a l).Pairwise fun a b => key a ≤ key b := by
  induction l with
  | nil => exact List.pairwise_singleton _ a
  | cons b l ih =>
    obtain ⟨hb, hl⟩ := List.pairwise_cons.mp h
    rw [placed_cons]
    split
    · rename_i hab
      have hlt : key a < key b := (habove b a).mp hab
      refine List.pairwise_cons.mpr ⟨?_, h⟩
      intro c hc
      rcases List.mem_cons.mp hc with rfl | hc
      · exact hlt.le
      · exact hlt.le.trans (hb c hc)
    · rename_i hab
      refine List.pairwise_cons.mpr ⟨?_, ih hl⟩
      intro c hc
      rcases List.mem_cons.mp ((placed_perm a l).mem_iff.mp hc) with rfl | hc
      · exact not_lt.mp fun hlt => hab ((habove b c).mpr hlt)
      · exact hb c hc

/-- The item comes after the entries with its key. -/
theorem placed_stable (h : l.Pairwise fun a b => key a ≤ key b) {k : β} {p : α → Bool}
    (hp : ∀ a, p a = true ↔ key a = k) :
    (placed above a l).filter p = l.filter p ++ [a].filter p := by
  induction l with
  | nil => rfl
  | cons b l ih =>
    obtain ⟨hb, hl⟩ := List.pairwise_cons.mp h
    rw [placed_cons]
    split
    · rename_i hab
      have hlt : key a < key b := (habove b a).mp hab
      by_cases hk : p a = true
      · have hnone : (b :: l).filter p = [] := by
          rw [List.filter_eq_nil_iff]
          intro c hc
          have hle : key b ≤ key c := by
            rcases List.mem_cons.mp hc with rfl | hc
            · exact le_rfl
            · exact hb c hc
          rw [hp c, ← (hp a).mp hk]
          exact (hlt.trans_le hle).ne'
        rw [List.filter_cons_of_pos hk, hnone]
        simp [hk]
      · simp [hk]
    · by_cases hk : p b = true
      · rw [List.filter_cons_of_pos hk, List.filter_cons_of_pos hk, ih hl, List.cons_append]
      · rw [List.filter_cons_of_neg hk, List.filter_cons_of_neg hk, ih hl]

theorem Ordered.placed (h : Ordered key items l) (a : α) :
    Ordered key (items ++ [a]) (Slots.placed above a l) where
  sorted := placed_sorted habove h.sorted
  perm := (placed_perm a l).trans ((h.perm.cons a).trans (List.perm_append_singleton a items).symm)
  stable k p hp := by rw [placed_stable habove h.sorted hp, h.stable k p hp, List.filter_append]

/-- Calls on a table in order leave one in order, with the items of those that
have succeeded. -/
theorem exec_call (h : Ordered key items l) (calls : List (α × Bool)) :
    ∃ l', exec (call above) (ofList l) calls = some (ofList l') ∧
      Ordered key (items ++ inserted calls) l' := by
  induction calls generalizing items l with
  | nil => exact ⟨l, rfl, by simpa [inserted] using h⟩
  | cons c calls ih =>
    obtain ⟨a, ok⟩ := c
    cases ok with
    | false =>
      obtain ⟨l', hrun, hord⟩ := ih h
      exact ⟨l', hrun, hord⟩
    | true =>
      obtain ⟨l', hrun, hord⟩ := ih (h.placed habove a)
      refine ⟨l', ?_, ?_⟩
      · simpa [exec, call, insert_ofList] using hrun
      · simpa [inserted] using hord

end Key

end Slots

end Libtorque.Lib
