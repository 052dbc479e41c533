import Libtorque.Dispatch.Shared

/-! # The states of registrations

A state that the library has allocated is that of one registration. It is live
as long as an event of the registration can come or be dispatched, if timers
fire once. -/
namespace Libtorque
open Lib
open Function (update)

/-- Its events whose states it has not freed. -/
def Party.alive (p : Party) : List Event :=
  (if p.view.rearmed ∨ p.view.freed then [] else p.view.cur.toList) ++ p.batch

/-- What holds of the objects: those of the threads, and the states of registrations. -/
structure Objects (w : World) (l : Leases) (p : Nat → Party) : Prop where
  own : ∀ {t c}, c ∈ (p t).view.objs → w.objs c = .live
  disjoint : ∀ {t u c}, t ≠ u → c ∈ (p t).view.objs → c ∉ (p u).view.objs
  used : ∀ {i c}, i < w.regs → (l.src i).state = .object c →
    w.objs c ≠ .fresh ∧ ∀ t, c ∉ (p t).view.objs
  injective : ∀ {i j c}, i < w.regs → j < w.regs → (l.src i).state = .object c →
    (l.src j).state = .object c → i = j
  alive : ∀ {t ev c}, ev ∈ (p t).alive → ev.src.state = .object c → w.objs c = .live
  awaiting : ∀ {fd r c}, w.fds fd = .watched r → r.awaits → r.state = .object c →
    w.objs c = .live

section
variable {w w' : World} {l l' : Leases} {p : Nat → Party} {q : Party} {t c : Nat} {ev : Event}

theorem Party.mem_alive_pending (h : ev ∈ q.alive) : ev ∈ q.pending := by
  unfold alive at h
  unfold pending
  by_cases hr : q.view.rearmed = true
  · simpa [hr] using h
  · by_cases hf : q.view.freed = true
    · simp only [hr, hf, or_true, if_true, List.nil_append] at h
      exact List.mem_append_right _ h
    · simpa [hr, hf] using h

theorem Party.mem_alive (hcur : q.view.cur = some ev) (hr : q.view.rearmed = false)
    (hf : q.view.freed = false) : ev ∈ q.alive := by
  simp [alive, hcur, hr, hf]

theorem Party.mem_alive_batch (h : ev ∈ q.batch) : ev ∈ q.alive := List.mem_append_right _ h

/-- Nothing is allocated, freed or registered. -/
theorem Objects.keep (h : Objects w l p) (hobjs : w'.objs = w.objs) (hregs : w'.regs = w.regs)
    (hsrc : l'.src = l.src) (hown : q.view.objs = (p t).view.objs)
    (halive : ∀ ev c, ev ∈ q.alive → ev.src.state = .object c → w.objs c = .live)
    (hawait : ∀ fd r c, w'.fds fd = .watched r → r.awaits → r.state = .object c →
      w.objs c = .live) : Objects w' l' (update p t q) := by
  have hsame := update_party_eq (p := p) (t := t) (fun x => x.view.objs) hown
  refine ⟨?_, ?_, ?_, ?_, ?_, ?_⟩
  · intro u c hc
    rw [hsame] at hc
    rw [hobjs]
    exact h.own hc
  · intro a b c hab hc
    rw [hsame] at hc ⊢
    exact h.disjoint hab hc
  · intro i c hi hst
    rw [hregs] at hi
    rw [hsrc] at hst
    obtain ⟨hne, hnot⟩ := h.used hi hst
    refine ⟨hobjs ▸ hne, fun u => ?_⟩
    rw [hsame]
    exact hnot u
  · rw [hregs, hsrc]
    exact h.injective
  · intro u ev c hev hst
    rw [hobjs]
    by_cases hu : u = t
    · subst hu
      rw [Function.update_self] at hev
      exact halive ev c hev hst
    · rw [Function.update_of_ne hu] at hev
      exact h.alive hev hst
  · rw [hobjs]
    exact fun {fd r c} => hawait fd r c

theorem setObj_of_ne {w : World} {c d : Nat} {x : Life} (h : d ≠ c) :
    (w.setObj c x).objs d = w.objs d := Function.update_of_ne h _ _

theorem Objects.allocate (h : Objects w l p) (hc : w.objs c = .fresh) :
    Objects (w.setObj c .live) l (update p t
      ⟨{ (p t).view with objs := c :: (p t).view.objs }, (p t).batch⟩) := by
  have live {d : Nat} (hd : w.objs d = .live) : (w.setObj c .live).objs d = .live := by
    have hne : d ≠ c := by
      intro heq
      rw [heq, hc] at hd
      cases hd
    rwa [setObj_of_ne hne]
  have hmem {u d : Nat} (hd : d ∈ (update p t
      ⟨{ (p t).view with objs := c :: (p t).view.objs }, (p t).batch⟩ u).view.objs) :
      u = t ∧ d = c ∨ d ∈ (p u).view.objs := by
    by_cases hu : u = t
    · subst hu
      rw [Function.update_self] at hd
      exact (List.mem_cons.mp hd).imp (fun heq => ⟨rfl, heq⟩) id
    · rw [Function.update_of_ne hu] at hd
      exact .inr hd
  have hnew {u : Nat} : c ∉ (p u).view.objs := by
    intro hin
    rw [h.own hin] at hc
    cases hc
  refine ⟨?_, ?_, ?_, h.injective, ?_, ?_⟩
  · intro u d hd
    rcases hmem hd with ⟨-, rfl⟩ | hd
    · exact Function.update_self _ _ _
    · exact live (h.own hd)
  · intro a b d hab hd hd'
    rcases hmem hd with ⟨rfl, rfl⟩ | hx
    · rcases hmem hd' with ⟨rfl, -⟩ | hy
      · exact hab rfl
      · exact hnew hy
    · rcases hmem hd' with ⟨-, rfl⟩ | hy
      · exact hnew hx
      · exact h.disjoint hab hx hy
  · intro i d hi hst
    obtain ⟨hne, hnot⟩ := h.used hi hst
    have hdc : d ≠ c := fun heq => hne (heq ▸ hc)
    refine ⟨by rwa [setObj_of_ne hdc], ?_⟩
    intro u hd
    rcases hmem hd with ⟨-, heq⟩ | hd
    · exact hdc heq
    · exact hnot u hd
  · intro u ev d hev hst
    have hsame := update_party_eq (p := p) (t := t) Party.alive
      (q := ⟨{ (p t).view with objs := c :: (p t).view.objs }, (p t).batch⟩) rfl u
    rw [hsame] at hev
    exact live (h.alive hev hst)
  · exact fun hw ha hst => live (h.awaiting hw ha hst)

/-- An object is freed that nobody else has, and no event left is of. -/
theorem Objects.release (h : Objects w l p) (hc : w.objs c = .live)
    (hothers : ∀ u, u ≠ t → c ∉ (p u).view.objs)
    (hq : q.view.objs = (p t).view.objs.filter (· ≠ c)) (halive : q.alive ⊆ (p t).alive)
    (hdead : ∀ u ev, ev ∈ (update p t q u).alive → ev.src.state ≠ .object c)
    (hawait : ∀ fd r, w.fds fd = .watched r → r.awaits → r.state ≠ .object c) :
    Objects (w.setObj c .freed) l (update p t q) := by
  have hmem {u d : Nat} (hd : d ∈ (update p t q u).view.objs) : d ≠ c ∧ d ∈ (p u).view.objs := by
    by_cases hu : u = t
    · subst hu
      rw [Function.update_self, hq] at hd
      obtain ⟨hd, hne⟩ := List.mem_filter.mp hd
      exact ⟨by simpa using hne, hd⟩
    · rw [Function.update_of_ne hu] at hd
      exact ⟨fun heq => hothers u hu (heq ▸ hd), hd⟩
  refine ⟨?_, ?_, ?_, h.injective, ?_, ?_⟩
  · intro u d hd
    obtain ⟨hne, hd⟩ := hmem hd
    rw [setObj_of_ne hne]
    exact h.own hd
  · intro a b d hab hd hd'
    exact h.disjoint hab (hmem hd).2 (hmem hd').2
  · intro i d hi hst
    obtain ⟨hne, hnot⟩ := h.used hi hst
    refine ⟨?_, fun u hd => hnot u (hmem hd).2⟩
    by_cases hdc : d = c
    · subst hdc
      simp [World.setObj]
    · rwa [setObj_of_ne hdc]
  · intro u ev d hev hst
    have hne : d ≠ c := fun heq => hdead u ev hev (heq ▸ hst)
    rw [setObj_of_ne hne]
    by_cases hu : u = t
    · subst hu
      rw [Function.update_self] at hev
      exact h.alive (halive hev) hst
    · rw [Function.update_of_ne hu] at hev
      exact h.alive hev hst
  · intro fd r d hw ha hst
    have hne : d ≠ c := fun heq => hawait fd r hw ha (heq ▸ hst)
    rw [setObj_of_ne hne]
    exact h.awaiting hw ha hst

/-- The thread frees an object that it has allocated. -/
theorem Objects.freeOwn (h : Objects w l p) (hs : Shared true w l p)
    (hc : c ∈ (p t).view.objs) :
    Objects (w.setObj c .freed) l (update p t
      ⟨{ (p t).view with objs := (p t).view.objs.filter (· ≠ c) }, (p t).batch⟩) := by
  refine h.release (h.own hc) (fun u hu => h.disjoint (Ne.symm hu) hc) rfl (List.Subset.refl _)
    ?_ ?_
  · intro u ev hev hst
    have hsame := update_party_eq (p := p) (t := t) Party.alive
      (q := ⟨{ (p t).view with objs := (p t).view.objs.filter (· ≠ c) }, (p t).batch⟩) rfl u
    rw [hsame] at hev
    obtain ⟨hsrc, hlt⟩ := (hs.holds u).known ev (Party.mem_alive_pending hev)
    exact (h.used hlt (hsrc.symm ▸ hst)).2 t hc
  · intro fd r hw _ hst
    obtain ⟨hlt, hsrc, -⟩ := hs.registry.registered hw
    exact (h.used hlt (hsrc.symm ▸ hst)).2 t hc

theorem single_of_object {s : Source} (h : s.state = .object c) : s.single true = true := by
  simp [Source.single, h]

/-- The thread frees the state of its event. -/
theorem Objects.freeEvent (h : Objects w l p) (hs : Shared true w l p)
    (hcur : (p t).view.cur = some ev) (hr : (p t).view.rearmed = false)
    (hst : ev.src.state = .object c) (hc : w.objs c = .live) :
    Objects (w.setObj c .freed) l (update p t
      ⟨{ (p t).view with freed := true, objs := (p t).view.objs.filter (· ≠ c) },
        (p t).batch⟩) := by
  have hpend := Party.mem_pending hcur hr
  obtain ⟨hsrc, hlt⟩ := (hs.holds t).known ev hpend
  have hmine := (hs.holds t).leased ev hpend (single_of_object hst)
  obtain ⟨-, hnot⟩ := h.used hlt (hsrc.symm ▸ hst)
  -- another event with this state is of the same registration, which this thread has leased
  have hsole {u : Nat} {ev' : Event} (hev' : ev' ∈ (p u).pending)
      (hst' : ev'.src.state = .object c) : u = t ∧ ev'.src.id = ev.src.id := by
    obtain ⟨hsrc', hlt'⟩ := (hs.holds u).known ev' hev'
    have hid := h.injective hlt' hlt (hsrc'.symm ▸ hst') (hsrc.symm ▸ hst)
    have hother := (hs.holds u).leased ev' hev' (single_of_object hst')
    rw [hid, hmine] at hother
    exact ⟨(Option.some.inj hother).symm, hid⟩
  have hbatch : ∀ ev' ∈ (p t).batch, ev'.src.state ≠ .object c := by
    intro ev' hev' hst'
    exact (hs.holds t).batch_distinct hcur hr (single_of_object hst) ev' hev'
      (single_of_object hst') (hsole (Party.mem_pending_batch hev') hst').2
  have halive : (⟨{ (p t).view with freed := true, objs := (p t).view.objs.filter (· ≠ c) },
      (p t).batch⟩ : Party).alive = (p t).batch := by
    simp [Party.alive]
  refine h.release hc (fun u _ => hnot u) rfl ?_ ?_ ?_
  · rw [halive]
    exact List.subset_append_right _ _
  · intro u ev' hev' hst'
    by_cases hu : u = t
    · subst hu
      rw [Function.update_self, halive] at hev'
      exact hbatch ev' hev' hst'
    · rw [Function.update_of_ne hu] at hev'
      exact hu (hsole (Party.mem_alive_pending hev') hst').1
  · intro fd r hw ha hst'
    obtain ⟨hlt', hsrc', -⟩ := hs.registry.registered hw
    have hid := h.injective hlt' hlt (hsrc'.symm ▸ hst') (hsrc.symm ▸ hst)
    have hnone := hs.registry.unleased hw ha (single_of_object hst')
    rw [hid, hmine] at hnone
    cases hnone

/-- The thread registers a descriptor, with a state of the client or an object
that it has allocated. -/
theorem Objects.add {fd : Nat} {r : Reg} (h : Objects w l p)
    (hown : ∀ c, r.state = .object c → c ∈ (p t).view.objs)
    (hq : q.view.objs = (p t).view.objs.filter (fun c => r.state ≠ .object c))
    (halive : q.alive = (p t).alive) :
    Objects { w.setFd fd (.watched r) with regs := w.regs + 1 }
      { l with src := update l.src w.regs r.toSource } (update p t q) := by
  have hmem {u d : Nat} (hd : d ∈ (update p t q u).view.objs) :
      d ∈ (p u).view.objs ∧ (u = t → r.state ≠ .object d) := by
    by_cases hu : u = t
    · subst hu
      rw [Function.update_self, hq] at hd
      obtain ⟨hd, hne⟩ := List.mem_filter.mp hd
      exact ⟨hd, fun _ => by simpa using hne⟩
    · rw [Function.update_of_ne hu] at hd
      exact ⟨hd, fun heq => absurd heq hu⟩
  have hwas {i d : Nat} (hi : i < w.regs + 1)
      (hst : (update l.src w.regs r.toSource i).state = .object d) :
      i = w.regs ∧ r.state = .object d ∨ i < w.regs ∧ (l.src i).state = .object d := by
    by_cases hlast : i = w.regs
    · subst hlast
      rw [Function.update_self] at hst
      exact .inl ⟨rfl, hst⟩
    · rw [Function.update_of_ne hlast] at hst
      exact .inr ⟨by omega, hst⟩
  refine ⟨fun hd => h.own (hmem hd).1, fun hab hd hd' => h.disjoint hab (hmem hd).1 (hmem hd').1,
    ?_, ?_, ?_, ?_⟩
  · intro i d hi hst
    rcases hwas hi hst with ⟨-, hst⟩ | ⟨hlt, hst⟩
    · have hd := hown d hst
      refine ⟨fun hfresh => ?_, fun u hu => ?_⟩
      · have hlive : w.objs d = .live := h.own hd
        have hfresh : w.objs d = .fresh := hfresh
        rw [hlive] at hfresh
        cases hfresh
      · obtain ⟨hin, hne⟩ := hmem hu
        by_cases hut : u = t
        · exact hne hut hst
        · exact h.disjoint (Ne.symm hut) hd hin
    · obtain ⟨hne, hnot⟩ := h.used hlt hst
      exact ⟨hne, fun u hu => hnot u (hmem hu).1⟩
  · intro i j d hi hj hsti hstj
    rcases hwas hi hsti with ⟨hi, hsti⟩ | ⟨hi, hsti⟩ <;>
      rcases hwas hj hstj with ⟨hj, hstj⟩ | ⟨hj, hstj⟩
    · rw [hi, hj]
    · exact absurd (hown d hsti) ((h.used hj hstj).2 t)
    · exact absurd (hown d hstj) ((h.used hi hsti).2 t)
    · exact h.injective hi hj hsti hstj
  · intro u ev d hev hst
    rw [update_party_eq (p := p) (t := t) Party.alive halive u] at hev
    exact h.alive hev hst
  · intro d x c hx ha hst
    by_cases hd : d = fd
    · subst hd
      simp only [World.setFd, Function.update_self, Fd.watched.injEq] at hx
      subst hx
      exact h.own (hown c hst)
    · have hx : w.fds d = .watched x := by simpa [World.setFd, hd] using hx
      exact h.awaiting hx ha hst

end

end Libtorque
