import Mathlib.Data.Finset.Basic
import Mathlib.Data.Finset.Image
import Mathlib.Data.List.Sort

/-! # The groups of a finite set under a key

A list of groups in increasing order of the key, each with what its members are
known by. Such a list is determined by the set; a member is added to a group
that is there, or opens a new one in its place. -/
namespace Libtorque.Lib

variable {α κ μ : Type} [LinearOrder κ] [DecidableEq μ]

/-- `l` lists the groups of `S` under `key`, whose members are known by `elem`. -/
structure Groups (S : Finset α) (key : α → κ) (elem : α → μ) (l : List (κ × Finset μ)) :
    Prop where
  sorted : l.Pairwise fun g h => g.1 < h.1
  members : ∀ g ∈ l, g.2 = (S.filter fun a => key a = g.1).image elem
  nonempty : ∀ g ∈ l, g.2.Nonempty
  covers : ∀ a ∈ S, ∃ g ∈ l, g.1 = key a

namespace Groups
variable {S : Finset α} {key : α → κ} {elem : α → μ} {l l' before after : List (κ × Finset μ)}

theorem empty : Groups (∅ : Finset α) key elem [] where
  sorted := .nil
  members := by simp
  nonempty := by simp
  covers := by simp

theorem mem_iff (h : Groups S key elem l) (g : κ × Finset μ) :
    g ∈ l ↔ (∃ a ∈ S, key a = g.1) ∧ g.2 = (S.filter fun a => key a = g.1).image elem := by
  constructor
  · intro hg
    have hm := h.members g hg
    obtain ⟨m, hmem⟩ := h.nonempty g hg
    rw [hm] at hmem
    obtain ⟨a, ha, -⟩ := Finset.mem_image.mp hmem
    obtain ⟨haS, hk⟩ := Finset.mem_filter.mp ha
    exact ⟨⟨a, haS, hk⟩, hm⟩
  · rintro ⟨⟨a, ha, hk⟩, hm⟩
    obtain ⟨g', hg', hk'⟩ := h.covers a ha
    have heq : g' = g := by
      refine Prod.ext (hk'.trans hk) ?_
      rw [h.members g' hg', hm, hk', hk]
    exact heq ▸ hg'

/-- The set determines its groups. -/
theorem unique (h : Groups S key elem l) (h' : Groups S key elem l') : l = l' := by
  have : Std.Irrefl fun g h : κ × Finset μ => g.1 < h.1 := ⟨fun g => lt_irrefl g.1⟩
  have : Std.Antisymm fun g h : κ × Finset μ => g.1 < h.1 :=
    ⟨fun g h hgh hhg => absurd (lt_trans hgh hhg) (lt_irrefl g.1)⟩
  refine h.sorted.eq_of_mem_iff h'.sorted fun g => ?_
  rw [h.mem_iff, h'.mem_iff]

/-- Every member is in a group. -/
theorem union (h : Groups S key elem l) (m : μ) : m ∈ S.image elem ↔ ∃ g ∈ l, m ∈ g.2 := by
  constructor
  · intro hm
    obtain ⟨a, ha, rfl⟩ := Finset.mem_image.mp hm
    obtain ⟨g, hg, hk⟩ := h.covers a ha
    refine ⟨g, hg, ?_⟩
    rw [h.members g hg]
    exact Finset.mem_image_of_mem _ (Finset.mem_filter.mpr ⟨ha, hk.symm⟩)
  · rintro ⟨g, hg, hm⟩
    rw [h.members g hg] at hm
    exact Finset.image_subset_image (Finset.filter_subset _ _) hm

/-- No two groups share a member. -/
theorem disjoint (h : Groups S key elem l) (hinj : Set.InjOn elem S) :
    l.Pairwise fun g g' => Disjoint g.2 g'.2 := by
  refine h.sorted.imp_of_mem fun {g g'} hg hg' hlt => ?_
  rw [h.members g hg, h.members g' hg', Finset.disjoint_left]
  intro m hm hm'
  obtain ⟨a, ha, rfl⟩ := Finset.mem_image.mp hm
  obtain ⟨b, hb, heq⟩ := Finset.mem_image.mp hm'
  obtain ⟨haS, hka⟩ := Finset.mem_filter.mp ha
  obtain ⟨hbS, hkb⟩ := Finset.mem_filter.mp hb
  have hab : b = a := hinj hbS haS heq
  subst hab
  exact absurd (hka.symm.trans hkb) (ne_of_lt hlt)

/-- The group of a member that is known by `elem a` is the group of `a`. -/
theorem key_of_mem (h : Groups S key elem l) (hinj : Set.InjOn elem S) {a : α} (ha : a ∈ S)
    {g : κ × Finset μ} (hg : g ∈ l) (hm : elem a ∈ g.2) : g.1 = key a := by
  rw [h.members g hg] at hm
  obtain ⟨b, hb, heq⟩ := Finset.mem_image.mp hm
  obtain ⟨hbS, hkb⟩ := Finset.mem_filter.mp hb
  rw [← hinj hbS ha heq, hkb]

variable [DecidableEq α]

theorem filter_insert_ne (S : Finset α) {a : α} {k : κ} (h : key a ≠ k) :
    (insert a S).filter (fun b => key b = k) = S.filter fun b => key b = k := by
  rw [Finset.filter_insert, if_neg h]

theorem filter_insert_eq (S : Finset α) (a : α) :
    (insert a S).filter (fun b => key b = key a) = insert a (S.filter fun b => key b = key a) := by
  rw [Finset.filter_insert, if_pos rfl]

/-- What adding a member makes of the groups, wherever its own group stands. -/
theorem place {a : α} {s : Finset μ} (h : Groups S key elem l)
    (hs : s = (S.filter fun b => key b = key a).image elem)
    (hrest : ∀ g ∈ before ++ after, g ∈ l)
    (hl : ∀ g ∈ l, g.1 ≠ key a → g ∈ before ++ after)
    (hsort : (before ++ (key a, s) :: after).Pairwise fun g h => g.1 < h.1) :
    Groups (insert a S) key elem (before ++ (key a, insert (elem a) s) :: after) := by
  rw [List.pairwise_append, List.pairwise_cons] at hsort
  obtain ⟨hb, ⟨hka, haft⟩, hcross⟩ := hsort
  have hne : ∀ g ∈ before ++ after, key a ≠ g.1 := by
    intro g hg
    rcases List.mem_append.mp hg with hg | hg
    · exact (ne_of_lt (hcross g hg _ List.mem_cons_self)).symm
    · exact ne_of_lt (hka g hg)
  have hsplit : ∀ g ∈ before ++ (key a, insert (elem a) s) :: after,
      g = (key a, insert (elem a) s) ∨ g ∈ before ++ after := by
    intro g hg
    simp only [List.mem_append, List.mem_cons] at hg ⊢
    tauto
  refine ⟨?_, ?_, ?_, ?_⟩
  · rw [List.pairwise_append, List.pairwise_cons]
    refine ⟨hb, ⟨hka, haft⟩, fun g hg g' hg' => ?_⟩
    rcases List.mem_cons.mp hg' with rfl | hg'
    · exact hcross g hg (key a, s) List.mem_cons_self
    · exact hcross g hg g' (List.mem_cons_of_mem _ hg')
  · intro g hg
    rcases hsplit g hg with rfl | hg
    · rw [filter_insert_eq, Finset.image_insert, ← hs]
    · rw [filter_insert_ne S (hne g hg)]
      exact h.members g (hrest g hg)
  · intro g hg
    rcases hsplit g hg with rfl | hg
    · exact Finset.insert_nonempty _ _
    · exact h.nonempty g (hrest g hg)
  · intro b hbS
    by_cases hkb : key b = key a
    · exact ⟨(key a, insert (elem a) s), List.mem_append_right _ List.mem_cons_self, hkb.symm⟩
    · obtain ⟨g, hg, hk⟩ := h.covers b
        ((Finset.mem_insert.mp hbS).resolve_left fun heq => hkb (heq ▸ rfl))
      have hmem := hl g hg (hk ▸ hkb)
      refine ⟨g, ?_, hk⟩
      simp only [List.mem_append, List.mem_cons] at hmem ⊢
      tauto

/-- A member joins the group of its key. -/
theorem join {a : α} {s : Finset μ} (h : Groups S key elem (before ++ (key a, s) :: after)) :
    Groups (insert a S) key elem (before ++ (key a, insert (elem a) s) :: after) := by
  have hown : (key a, s) ∈ before ++ (key a, s) :: after :=
    List.mem_append_right _ List.mem_cons_self
  refine h.place (h.members _ hown) ?_ ?_ h.sorted
  · intro g hg
    simp only [List.mem_append, List.mem_cons] at hg ⊢
    tauto
  · intro g hg hk
    simp only [List.mem_append, List.mem_cons] at hg ⊢
    rcases hg with hg | rfl | hg
    · exact .inl hg
    · exact absurd rfl hk
    · exact .inr hg

/-- A member whose key has no group opens one. -/
theorem found {a : α} (h : Groups S key elem (before ++ after))
    (hbefore : ∀ g ∈ before, g.1 < key a) (hafter : ∀ g ∈ after, key a < g.1) :
    Groups (insert a S) key elem (before ++ (key a, {elem a}) :: after) := by
  have hnone : S.filter (fun b => key b = key a) = ∅ := by
    refine Finset.filter_eq_empty_iff.mpr fun b hb hk => ?_
    obtain ⟨g, hg, hkg⟩ := h.covers b hb
    rcases List.mem_append.mp hg with hg | hg
    · exact ne_of_lt (hbefore g hg) (hkg.trans hk)
    · exact ne_of_lt (hafter g hg) (hk.symm.trans hkg.symm)
  refine h.place (s := ∅) (by rw [hnone, Finset.image_empty]) (fun g hg => hg)
    (fun g hg _ => hg) ?_
  have hs := h.sorted
  rw [List.pairwise_append] at hs
  rw [List.pairwise_append, List.pairwise_cons]
  refine ⟨hs.1, ⟨hafter, hs.2.1⟩, fun g hg g' hg' => ?_⟩
  rcases List.mem_cons.mp hg' with rfl | hg'
  · exact hbefore g hg
  · exact hs.2.2 g hg g' hg'

end Groups

end Libtorque.Lib
