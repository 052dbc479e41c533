import Mathlib.Order.Bounds.Defs
import Mathlib.Order.Lattice
import Mathlib.Data.List.Basic
import Mathlib.Tactic.Common

/-! # The records of a sequence

What is left of a sequence when every element is dropped that does not exceed
all those kept before it. Nothing is lost exactly when each element is a record
or has occurred before. -/
namespace Libtorque.Lib

variable {α : Type} [LinearOrder α] {kept seen as : List α} {a b : α}

/-- `kept`, and the records of the rest of the sequence over them. -/
def records (kept : List α) : List α → List α
  | [] => kept
  | a :: as => if ∃ b ∈ kept, a ≤ b then records kept as else records (kept ++ [a]) as

/-- Each element has been seen, or exceeds all that have been. -/
def Growing : List α → List α → Prop
  | _, [] => True
  | seen, a :: as => (a ∈ seen ∨ ∀ b ∈ seen, b < a) ∧ Growing (seen ++ [a]) as

instance Growing.decidable : ∀ seen as : List α, Decidable (Growing seen as)
  | _, [] => isTrue trivial
  | seen, a :: as =>
    have : Decidable (Growing (seen ++ [a]) as) := Growing.decidable (seen ++ [a]) as
    inferInstanceAs (Decidable ((a ∈ seen ∨ ∀ b ∈ seen, b < a) ∧ Growing (seen ++ [a]) as))

theorem forall_lt_of_new (h : ¬ ∃ b ∈ kept, a ≤ b) : ∀ b ∈ kept, b < a :=
  fun b hb => not_le.mp fun hle => h ⟨b, hb, hle⟩

theorem mem_records_of_mem (h : b ∈ kept) : b ∈ records kept as := by
  induction as generalizing kept with
  | nil => exact h
  | cons a as ih =>
    rw [records]
    split
    · exact ih h
    · exact ih (List.mem_append_left [a] h)

theorem mem_of_mem_records (h : b ∈ records kept as) : b ∈ kept ∨ b ∈ as := by
  induction as generalizing kept with
  | nil => exact .inl h
  | cons a as ih =>
    rw [records] at h
    split at h
    · exact (ih h).imp_right (List.mem_cons_of_mem a)
    · rcases ih h with hb | hb
      · rcases List.mem_append.mp hb with hb | hb
        · exact .inl hb
        · rw [List.mem_singleton.mp hb]
          exact .inr List.mem_cons_self
      · exact .inr (List.mem_cons_of_mem a hb)

/-- What is added later exceeds all that was kept. -/
theorem lt_of_mem_records (h : b ∈ records kept as) : b ∈ kept ∨ ∀ c ∈ kept, c < b := by
  induction as generalizing kept with
  | nil => exact .inl h
  | cons a as ih =>
    rw [records] at h
    split at h
    · exact ih h
    · rename_i hnew
      rcases ih h with hb | hlt
      · rcases List.mem_append.mp hb with hb | hb
        · exact .inl hb
        · rw [List.mem_singleton.mp hb]
          exact .inr (forall_lt_of_new hnew)
      · exact .inr fun c hc => hlt c (List.mem_append_left [a] hc)

/-- Nothing exceeds all the records. -/
theorem exists_record_ge (h : b ∈ kept ∨ b ∈ as) : ∃ c ∈ records kept as, b ≤ c := by
  induction as generalizing kept b with
  | nil => exact ⟨b, h.resolve_right List.not_mem_nil, le_rfl⟩
  | cons a as ih =>
    rw [records]
    split
    · rename_i hold
      rcases h with hb | hb
      · exact ih (.inl hb)
      rcases List.mem_cons.mp hb with rfl | hb
      · obtain ⟨c, hc, hbc⟩ := hold
        obtain ⟨d, hd, hcd⟩ := ih (.inl hc)
        exact ⟨d, hd, hbc.trans hcd⟩
      · exact ih (.inr hb)
    · rcases h with hb | hb
      · exact ih (.inl (List.mem_append_left [a] hb))
      rcases List.mem_cons.mp hb with rfl | hb
      · exact ih (.inl (List.mem_append_right kept List.mem_cons_self))
      · exact ih (.inr hb)

/-- The greatest element is the greatest record. -/
theorem isGreatest_records {g : α} (h : IsGreatest {b | b ∈ records kept as} g) :
    IsGreatest {b | b ∈ kept ∨ b ∈ as} g := by
  refine ⟨mem_of_mem_records h.1, fun b hb => ?_⟩
  obtain ⟨c, hc, hbc⟩ := exists_record_ge hb
  exact hbc.trans (h.2 hc)

theorem records_sorted (h : kept.Pairwise (· < ·)) : (records kept as).Pairwise (· < ·) := by
  induction as generalizing kept with
  | nil => exact h
  | cons a as ih =>
    rw [records]
    split
    · exact ih h
    · rename_i hnew
      apply ih
      rw [List.pairwise_append]
      refine ⟨h, List.pairwise_singleton _ _, ?_⟩
      intro c hc d hd
      rw [List.mem_singleton.mp hd]
      exact forall_lt_of_new hnew c hc

/-- Nothing is dropped, if nothing has been dropped so far. -/
theorem subset_records_iff (hseen : ∀ b, b ∈ kept ↔ b ∈ seen) :
    (∀ b ∈ as, b ∈ records kept as) ↔ Growing seen as := by
  induction as generalizing kept seen with
  | nil => simp [Growing]
  | cons a as ih =>
    rw [Growing, List.forall_mem_cons, records]
    split
    · rename_i hold
      obtain ⟨c, hc, hac⟩ := hold
      have hfirst : a ∈ records kept as ↔ a ∈ seen ∨ ∀ b ∈ seen, b < a := by
        constructor
        · intro h
          rcases lt_of_mem_records h with ha | hlt
          · exact .inl ((hseen a).mp ha)
          · exact absurd (hlt c hc) (not_lt.mpr hac)
        · rintro (ha | hlt)
          · exact mem_records_of_mem ((hseen a).mpr ha)
          · exact absurd (hlt c ((hseen c).mp hc)) (not_lt.mpr hac)
      rw [hfirst]
      refine and_congr_right fun hgrow => ih fun b => ?_
      have ha : a ∈ seen := by
        rcases hgrow with ha | hlt
        · exact ha
        · exact absurd (hlt c ((hseen c).mp hc)) (not_lt.mpr hac)
      rw [hseen, List.mem_append, List.mem_singleton]
      constructor
      · exact .inl
      · rintro (hb | rfl)
        · exact hb
        · exact ha
    · rename_i hnew
      have ha : a ∈ records (kept ++ [a]) as :=
        mem_records_of_mem (List.mem_append_right kept List.mem_cons_self)
      have hlt : a ∈ seen ∨ ∀ b ∈ seen, b < a := by
        right
        intro b hb
        exact forall_lt_of_new hnew b ((hseen b).mpr hb)
      rw [iff_true_intro ha, iff_true_intro hlt, true_and, true_and]
      apply ih
      intro b
      rw [List.mem_append, List.mem_append, hseen]

end Libtorque.Lib
