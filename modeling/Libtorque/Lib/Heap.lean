import Libtorque.Lib.Prog

/-! # Blocks of memory

A block is numbered when it is made, and a block that is moved becomes a new
one. A program owns the blocks of a list when each block that was ever made is
either once on the list or has once been given back. -/
namespace Libtorque.Lib

/-- What the blocks were made for, by their numbers, and those given back. -/
structure Heap (κ : Type) where
  made : List κ := []
  freed : List Nat := []

namespace Heap
variable {κ Ω : Type} {R : Ω → Type}

def Live (h : Heap κ) (b : Nat) : Prop := b < h.made.length ∧ b ∉ h.freed

instance (h : Heap κ) (b : Nat) : Decidable (h.Live b) :=
  inferInstanceAs (Decidable (b < h.made.length ∧ b ∉ h.freed))

def make (h : Heap κ) (k : κ) : Heap κ := { h with made := h.made ++ [k] }

def give (h : Heap κ) (b : Nat) : Heap κ := { h with freed := b :: h.freed }

inductive Op (κ Ω : Type) where
  /-- `realloc`, which is `malloc` where there is no block yet -/
  | realloc (k : κ) (old : Option Nat)
  | free (b : Nat)
  /-- an access outside of a block -/
  | wild
  | other (o : Ω)

@[reducible] def Op.Rep (R : Ω → Type) : Op κ Ω → Type
  | .realloc .. => Option Nat
  | .free _ | .wild => Unit
  | .other o => R o

/-- A block grows where it is, or moves. -/
def next (h : Heap κ) : (o : Op κ Ω) → o.Rep R → Option (Heap κ)
  | .realloc .., none => some h
  | .realloc k none, some b => if b = h.made.length then some (h.make k) else none
  | .realloc k (some a), some b =>
    if h.Live a then
      if b = a then some h
      else if b = h.made.length then some ((h.make k).give a)
      else none
    else none
  | .free b, _ => if h.Live b then some (h.give b) else none
  | .wild, _ => none
  | .other _, _ => some h

/-- What is given back or made to grow is there, and so is what is accessed. -/
def Sound (h : Heap κ) : Option (Op κ Ω) → Prop
  | some (.realloc _ (some b)) | some (.free b) => h.Live b
  | some .wild => False
  | _ => True

/-- Each block has been given back, and not twice. -/
def FreedOnce (h : Heap κ) : Prop := ∀ b k, h.made[b]? = some k → h.freed.count b = 1

structure Owns (h : Heap κ) (l : List Nat) : Prop where
  once : ∀ b, l.count b + h.freed.count b = if b < h.made.length then 1 else 0

variable {h : Heap κ} {l m : List Nat} {a b : Nat} {k : κ}

theorem owns_start : Owns ({} : Heap κ) [] := ⟨fun _ => rfl⟩

theorem Owns.of_count (ho : Owns h l) (hc : ∀ b, m.count b = l.count b) : Owns h m where
  once b := by
    rw [hc]
    exact ho.once b

theorem Owns.swap {n : List Nat} (ho : Owns h (l ++ (m ++ n))) : Owns h (m ++ (l ++ n)) := by
  refine ho.of_count fun b => ?_
  simp only [List.count_append]
  omega

theorem Owns.live (ho : Owns h (b :: l)) : h.Live b := by
  have hb := ho.once b
  rw [List.count_cons_self] at hb
  have hlt : b < h.made.length := by
    by_contra hge
    rw [if_neg hge] at hb
    omega
  rw [if_pos hlt] at hb
  refine ⟨hlt, List.count_eq_zero.mp ?_⟩
  omega

theorem Owns.make (ho : Owns h l) (k : κ) : Owns (h.make k) (h.made.length :: l) where
  once b := by
    have hb := ho.once b
    simp only [Heap.make, List.count_cons, List.length_append, List.length_singleton]
    by_cases hnew : h.made.length = b
    · subst hnew
      rw [if_neg (Nat.lt_irrefl _)] at hb
      rw [if_pos (Nat.lt_succ_self _), if_pos (beq_self_eq_true _)]
      omega
    · have hiff : b < h.made.length + 1 ↔ b < h.made.length := by omega
      simpa [hnew, hiff] using hb

theorem Owns.give (ho : Owns h (b :: l)) : Owns (h.give b) l where
  once a := by
    have ha := ho.once a
    show l.count a + (b :: h.freed).count a = if a < h.made.length then 1 else 0
    rw [← ha, List.count_cons, List.count_cons]
    omega

/-- With nothing owned, all there was has been given back. -/
theorem Owns.freedOnce (ho : Owns h []) : h.FreedOnce := by
  intro b k hk
  have hlt : b < h.made.length := (List.getElem?_eq_some_iff.mp hk).1
  simpa [hlt] using ho.once b

/-! ## Programs -/

section Programs
variable {α : Type}

def realloc (k : κ) (old : Option Nat) : Prog (Op κ Ω) (Op.Rep R) (Option Nat) :=
  Prog.perform (Op.realloc k old)

def malloc (k : κ) : Prog (Op κ Ω) (Op.Rep R) (Option Nat) := realloc k none

/-- Nothing is done about NULL. -/
def free : Option Nat → Prog (Op κ Ω) (Op.Rep R) Unit
  | none => pure ()
  | some b => Prog.perform (Op.free b)

def ask (o : Ω) : Prog (Op κ Ω) (Op.Rep R) (R o) := Prog.perform (Op.other o)

variable {A : Heap κ → (o : Op κ Ω) → o.Rep R → Bool}

/-- Replies as assumed, with nothing done that is not sound. -/
def sound (A : Heap κ → (o : Op κ Ω) → o.Rep R → Bool) : Contract (Op κ Ω) (Op.Rep R) (Heap κ) :=
  .of next Sound A

theorem wp_realloc {old : Option Nat} {Q : Option Nat → Heap κ → Prop}
    (ho : Owns h (old.toList ++ l)) (hno : Q none h)
    (hyes : ∀ b h', Owns h' (b :: l) → Q (some b) h') :
    wp (sound A) (realloc k old) Q h := by
  cases old with
  | none =>
    refine wp_op trivial ?_
    rintro r h' ⟨-, hr⟩
    cases r with
    | none =>
      cases hr
      exact hno
    | some b =>
      obtain ⟨hb, he⟩ := Option.ite_none_right_eq_some.mp hr
      cases he
      subst hb
      exact hyes _ _ (ho.make k)
  | some a =>
    have hlive : h.Live a := ho.live
    refine wp_op hlive ?_
    rintro r h' ⟨-, hr⟩
    cases r with
    | none =>
      cases hr
      exact hno
    | some b =>
      simp only [next, hlive, if_true] at hr
      split at hr
      · rename_i hb
        cases hr
        subst hb
        exact hyes _ _ ho
      · obtain ⟨hb, he⟩ := Option.ite_none_right_eq_some.mp hr
        cases he
        subst hb
        refine hyes _ _ (Owns.give ?_)
        refine (ho.make k).of_count fun c => ?_
        simp only [List.count_cons, Option.toList_some, List.singleton_append]
        omega

theorem wp_malloc {Q : Option Nat → Heap κ → Prop} (ho : Owns h l) (hno : Q none h)
    (hyes : ∀ b h', Owns h' (b :: l) → Q (some b) h') : wp (sound A) (malloc k) Q h := by
  have hnull : Owns h ((none : Option Nat).toList ++ l) := ho
  exact wp_realloc hnull hno hyes

theorem wp_free {p : Option Nat} {Q : Unit → Heap κ → Prop} (ho : Owns h (p.toList ++ l))
    (hQ : ∀ h', Owns h' l → Q () h') : wp (sound A) (free p) Q h := by
  cases p with
  | none => exact hQ h ho
  | some b =>
    have hlive : h.Live b := ho.live
    refine wp_op hlive ?_
    rintro u h' ⟨-, hr⟩
    obtain ⟨-, he⟩ := Option.ite_none_right_eq_some.mp hr
    cases he
    exact hQ _ ho.give

theorem wp_ask {o : Ω} {Q : R o → Heap κ → Prop} (hQ : ∀ r, A h (.other o) r → Q r h) :
    wp (sound A) (ask o : Prog (Op κ Ω) (Op.Rep R) (R o)) Q h := by
  refine wp_op trivial ?_
  rintro r h' ⟨ha, hr⟩
  cases hr
  exact hQ r ha

/-- Whatever the block, it is there or what is done is not sound. -/
theorem may_realloc {old : Option Nat} {Q : Option Nat → Heap κ → Prop}
    (hA : ∀ b, A h (.realloc k old) (some b)) (hQ : ∀ b h', Q (some b) h') :
    may (sound A) (realloc k old) Q h := by
  cases old with
  | none =>
    refine may_op (some h.made.length) (h.make k) ⟨hA _, ?_⟩ (hQ _ _)
    simp [next]
  | some a =>
    by_cases hlive : h.Live a
    · refine may_op (some a) h ⟨hA a, ?_⟩ (hQ _ _)
      simp [next, hlive]
    · exact may_break hlive

theorem may_free {p : Option Nat} {Q : Unit → Heap κ → Prop} (hA : ∀ b, A h (.free b) ())
    (hQ : ∀ h', Q () h') : may (sound A) (free p) Q h := by
  cases p with
  | none => exact may_pure.mpr (hQ h)
  | some b =>
    by_cases hlive : h.Live b
    · refine may_op () (h.give b) ⟨hA b, ?_⟩ (hQ _)
      simp [next, hlive]
    · exact may_break hlive

theorem may_ask {o : Ω} {Q : R o → Heap κ → Prop} (r : R o) (hA : A h (.other o) r) (hQ : Q r h) :
    may (sound A) (ask o : Prog (Op κ Ω) (Op.Rep R) (R o)) Q h :=
  may_op r h ⟨hA, rfl⟩ hQ

/-- All the runs of a program whose replies are as assumed are sound, and end as
`Q` says. -/
def Correct (A : Heap κ → (o : Op κ Ω) → o.Rep R → Bool) (p : Prog (Op κ Ω) (Op.Rep R) α)
    (h : Heap κ) (Q : α → Heap κ → Prop) : Prop :=
  ∀ rs : List ((o : Op κ Ω) → o.Rep R), Meets (Prog.step next) (Prog.Assume A) (h, p) rs →
    Always (Prog.step next) (fun x => Sound x.1 x.2.op) (h, p) rs ∧
      ∀ h' a, exec (Prog.step next) (h, p) rs = some (h', .ret a) → Q a h'

variable {p : Prog (Op κ Ω) (Op.Rep R) α} {Q : α → Heap κ → Prop}

theorem correct_of_wp (hp : wp (sound A) p Q h) : Correct A p h Q := by
  intro rs hm
  have hall := always_of_wp (fun _ _ _ _ ha ht => And.intro ha ht) hp hm
  refine ⟨hall.mono ?_, fun h' a he => hall.last he⟩
  rintro ⟨h, q⟩ hq
  cases q with
  | ret a => trivial
  | call o k => exact hq
  | cut => trivial

theorem wp_of_correct (r₀ : (o : Op κ Ω) → o.Rep R) (hp : Correct A p h Q) :
    wp (sound A) p Q h := by
  refine wp_of_exec r₀ ?_
  rintro rs ⟨h', q⟩ hm he
  obtain ⟨hsound, hend⟩ := hp rs hm
  cases q with
  | ret a => exact hend h' a he
  | call o k => exact hsound.last he
  | cut => trivial

end Programs

/-! ## Tables -/

/-- A pointer to a block with entries, or NULL. -/
inductive Table (α : Type) where
  | null
  | block (b : Nat) (elems : List α)

namespace Table
variable {α : Type} {A : Heap κ → (o : Op κ Ω) → o.Rep R → Bool}

def elems : Table α → List α
  | null => []
  | block _ elems => elems

def ptr : Table α → Option Nat
  | null => none
  | block b _ => some b

def modify (t : Table α) (f : List α → List α) : Table α :=
  match t with
  | null => null
  | block b elems => block b (f elems)

theorem length_set {t : Table α} {i : Nat} {a : α} :
    (t.modify (·.set i a)).elems.length = t.elems.length := by
  cases t with
  | null => rfl
  | block b elems => exact List.length_set

def fetch (t : Table α) (i : Nat) : Prog (Op κ Ω) (Op.Rep R) α :=
  match t.elems[i]? with
  | some a => pure a
  | none => .call .wild fun _ => .cut

/-- What is written to the `i`th entry, and the table then. -/
def store (t : Table α) (i : Nat) (a : α) : Prog (Op κ Ω) (Op.Rep R) (Table α) :=
  if i < t.elems.length then pure (t.modify (·.set i a)) else .call .wild fun _ => .cut

/-- The table with more entries, where there is memory for them. -/
def grow (k : κ) (t : Table α) (elems : List α) :
    Prog (Op κ Ω) (Op.Rep R) (Option (Table α)) := do
  pure ((← realloc k t.ptr).map fun b => block b elems)

theorem wp_fetch {t : Table α} {i : Nat} {a : α} (ha : t.elems[i]? = some a)
    {Q : α → Heap κ → Prop} (hQ : Q a h) : wp (sound A) (t.fetch i) Q h := by
  rw [fetch, ha]
  exact hQ

theorem wp_store {t : Table α} {i : Nat} {a : α} (hi : i < t.elems.length)
    {Q : Table α → Heap κ → Prop} (hQ : Q (t.modify (·.set i a)) h) :
    wp (sound A) (t.store i a) Q h := by
  rw [store, if_pos hi]
  exact hQ

theorem may_fetch {t : Table α} {i : Nat} {Q : α → Heap κ → Prop} (hQ : ∀ a, Q a h) :
    may (sound A) (t.fetch i) Q h := by
  unfold fetch
  split
  · exact may_pure.mpr (hQ _)
  · exact may_break id

theorem may_store {t : Table α} {i : Nat} {a : α} {Q : Table α → Heap κ → Prop}
    (hQ : i < t.elems.length → Q (t.modify (·.set i a)) h) :
    may (sound A) (t.store i a) Q h := by
  unfold store
  split
  · rename_i hi
    exact may_pure.mpr (hQ hi)
  · exact may_break id

theorem may_grow {t : Table α} {elems : List α} {Q : Option (Table α) → Heap κ → Prop}
    (hA : ∀ b, A h (.realloc k t.ptr) (some b)) (hQ : ∀ b h', Q (some (block b elems)) h') :
    may (sound A) (t.grow k elems) Q h := by
  unfold grow
  rw [may_do]
  exact may_realloc hA fun b h' => may_pure.mpr (hQ b h')

theorem wp_grow {t : Table α} {elems : List α} {Q : Option (Table α) → Heap κ → Prop}
    (ho : Owns h (t.ptr.toList ++ l)) (hno : Q none h)
    (hyes : ∀ b h', Owns h' (b :: l) → Q (some (block b elems)) h') :
    wp (sound A) (t.grow k elems) Q h := by
  unfold grow
  rw [wp_do]
  exact wp_realloc ho hno hyes

end Table

end Heap

end Libtorque.Lib
