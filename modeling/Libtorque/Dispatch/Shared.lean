import Libtorque.Dispatch.Programs

/-! # One thread to a registration

An event of a registration that is reported once for each arming is a lease of
it: the thread that has retrieved the event is the only one that has. What any
thread does within its lease, or with descriptors of its own, no other thread
can tell. -/
namespace Libtorque
open Lib
open Function (update)

/-- It is reported once for each arming, or, a timer, if it is reported once at all. -/
def Source.single (timers : Bool) (s : Source) : Bool :=
  s.oneshot || timers && (s.state matches .object _)

/-- The first event since it was armed is yet to be reported. -/
def Reg.awaits (r : Reg) : Prop := r.armed.isSome = true ∧ (r.oneshot = true ∨ r.reported = false)

/-- A thread: what it knows, and the events that it has yet to dispatch. -/
structure Party where
  view : View
  batch : List Event

namespace Party

/-- Its events that it has not armed again. -/
def pending (p : Party) : List Event :=
  (if p.view.rearmed then [] else p.view.cur.toList) ++ p.batch

/-- Its events that it has neither armed again nor closed. -/
def active (p : Party) : List Event :=
  (if p.view.rearmed ∨ p.view.closed then [] else p.view.cur.toList) ++ p.batch

/-- What becomes of a descriptor is nothing to it. -/
def Apart (p : Party) (fd : Nat) : Prop := fd ∉ p.view.fds ∧ ∀ ev ∈ p.active, ev.fd ≠ fd

end Party

/-- The registrations that there have been, and which thread has the event of each. -/
structure Leases where
  src : Nat → Source
  holder : Nat → Option Nat

/-- What holds of the event tables and the kernel's descriptors. -/
structure Registry (timers : Bool) (w : World) (l : Leases) : Prop where
  registered : ∀ {fd r}, w.fds fd = .watched r →
    r.id < w.regs ∧ l.src r.id = r.toSource ∧
      Typed r.oneshot (w.fdarray fd) ∧ (w.fdarray fd).cbstate = r.state
  injective : ∀ {fd fd' r r'}, w.fds fd = .watched r → w.fds fd' = .watched r' →
    r.id = r'.id → fd = fd'
  unleased : ∀ {fd r}, w.fds fd = .watched r → r.awaits → r.single timers = true →
    l.holder r.id = none
  known : ∀ {i t}, l.holder i = some t → i < w.regs

/-- What holds of thread `t`. -/
structure Holds (timers : Bool) (w : World) (l : Leases) (t : Nat) (p : Party) : Prop where
  own : ∀ fd ∈ p.view.fds, w.fds fd = .idle ∧ p.view.table fd = w.fdarray fd
  known : ∀ ev ∈ p.pending, l.src ev.src.id = ev.src ∧ ev.src.id < w.regs
  leased : ∀ ev ∈ p.pending, ev.src.single timers = true → l.holder ev.src.id = some t
  distinct : ((p.pending.filter (·.src.single timers)).map (·.src.id)).Nodup
  watched : ∀ ev ∈ p.active, ∃ r, w.fds ev.fd = .watched r ∧ r.toSource = ev.src
  entry : ∀ ev, p.view.cur = some ev → p.view.rearmed = false → p.view.closed = false →
    p.view.table ev.fd = w.fdarray ev.fd

/-- What holds of all of them. -/
structure Shared (timers : Bool) (w : World) (l : Leases) (p : Nat → Party) : Prop where
  registry : Registry timers w l
  holds : ∀ t, Holds timers w l t (p t)
  disjoint : ∀ {t u fd}, t ≠ u → fd ∈ (p t).view.fds → fd ∉ (p u).view.fds

section
variable {timers : Bool} {w w' : World} {l l' : Leases} {p : Nat → Party} {q : Party}
  {t u fd : Nat} {ev : Event}

theorem Party.mem_active_pending (h : ev ∈ q.active) : ev ∈ q.pending := by
  unfold active at h
  unfold pending
  by_cases hr : q.view.rearmed = true
  · simpa [hr] using h
  · by_cases hc : q.view.closed = true
    · simp only [hr, hc, or_true, if_true, List.nil_append] at h
      exact List.mem_append_right _ h
    · simpa [hr, hc] using h

theorem Party.mem_pending (hcur : q.view.cur = some ev) (hr : q.view.rearmed = false) :
    ev ∈ q.pending := by
  simp [pending, hcur, hr]

theorem Party.mem_active (hcur : q.view.cur = some ev) (hr : q.view.rearmed = false)
    (hc : q.view.closed = false) : ev ∈ q.active := by
  simp [active, hcur, hr, hc]

theorem Party.mem_pending_batch (h : ev ∈ q.batch) : ev ∈ q.pending := List.mem_append_right _ h

theorem Party.mem_active_batch (h : ev ∈ q.batch) : ev ∈ q.active := List.mem_append_right _ h

theorem update_party_eq {α : Type} (f : Party → α) (h : f q = f (p t)) (u : Nat) :
    f (update p t q u) = f (p u) := by
  by_cases hu : u = t
  · subst hu
    rwa [Function.update_self]
  · rw [Function.update_of_ne hu]

theorem Shared.disjoint_update (h : Shared timers w l p) (hq : q.view.fds = (p t).view.fds)
    {a b : Nat} (hab : a ≠ b) (hfd : fd ∈ (update p t q a).view.fds) :
    fd ∉ (update p t q b).view.fds := by
  have hsame := update_party_eq (p := p) (t := t) (fun x => x.view.fds) hq
  rw [hsame] at hfd ⊢
  exact h.disjoint hab hfd

/-- A registration that is reported once for each arming has its event with one
thread. -/
theorem Shared.alone (h : Shared timers w l p) {ev' : Event} (hev : ev ∈ (p t).active)
    (hev' : ev' ∈ (p u).active) (hfd : ev.fd = ev'.fd) (hs : ev.src.single timers = true) :
    t = u := by
  obtain ⟨r, hr, hsrc⟩ := (h.holds t).watched ev hev
  obtain ⟨r', hr', hsrc'⟩ := (h.holds u).watched ev' hev'
  have hrr : Fd.watched r = .watched r' := by
    rw [← hr, ← hr', hfd]
  cases hrr
  have heq : ev.src = ev'.src := hsrc.symm.trans hsrc'
  have ht := (h.holds t).leased ev (Party.mem_active_pending hev) hs
  have hu := (h.holds u).leased ev' (Party.mem_active_pending hev') (heq ▸ hs)
  rw [heq, hu] at ht
  exact (Option.some.inj ht).symm

/-- The event at hand is of no registration that has another event in the batch. -/
theorem Holds.batch_distinct (h : Holds timers w l t q) (hcur : q.view.cur = some ev)
    (hr : q.view.rearmed = false) (hs : ev.src.single timers = true) :
    ∀ ev' ∈ q.batch, ev'.src.single timers = true → ev'.src.id ≠ ev.src.id := by
  intro ev' hev' hs' heq
  have hd := h.distinct
  simp only [Party.pending, hr, hcur, Bool.false_eq_true, if_false, Option.toList_some,
    List.singleton_append, List.filter_cons, hs, if_true, List.map_cons, List.nodup_cons] at hd
  exact hd.1 (List.mem_map.mpr ⟨ev', List.mem_filter.mpr ⟨hev', hs'⟩, heq⟩)

/-- No event in the batch is of the descriptor at hand. -/
theorem Holds.batch_ne (h : Holds timers w l t q) (hcur : q.view.cur = some ev)
    (hr : q.view.rearmed = false) (hc : q.view.closed = false)
    (hs : ev.src.single timers = true) : ∀ ev' ∈ q.batch, ev'.fd ≠ ev.fd := by
  intro ev' hmem hfd
  obtain ⟨r, hwr, hsrc⟩ := h.watched ev (Party.mem_active hcur hr hc)
  obtain ⟨r', hwr', hsrc'⟩ := h.watched ev' (Party.mem_active_batch hmem)
  have hrr : Fd.watched r = .watched r' := by
    rw [← hwr, ← hwr', hfd]
  cases hrr
  have heq : ev.src = ev'.src := hsrc.symm.trans hsrc'
  exact h.batch_distinct hcur hr hs ev' hmem (heq ▸ hs) (by rw [heq])

/-! ## Descriptors that others have nothing to do with -/

theorem Shared.apart_own (h : Shared timers w l p) (hfd : fd ∈ (p t).view.fds) (hu : u ≠ t) :
    (p u).Apart fd := by
  refine ⟨h.disjoint (Ne.symm hu) hfd, ?_⟩
  intro ev hev heq
  obtain ⟨r, hr, -⟩ := (h.holds u).watched ev hev
  rw [heq, ((h.holds t).own fd hfd).1] at hr
  cases hr

theorem Shared.apart_event (h : Shared timers w l p) (hev : ev ∈ (p t).active)
    (hs : ev.src.single timers = true) (hu : u ≠ t) : (p u).Apart ev.fd := by
  refine ⟨?_, ?_⟩
  · intro hown
    obtain ⟨r, hr, -⟩ := (h.holds t).watched ev hev
    rw [((h.holds u).own ev.fd hown).1] at hr
    cases hr
  · intro ev' hev' heq
    exact hu (h.alone hev hev' heq.symm hs).symm

theorem Holds.apart_closed (h : Holds timers w l u q) (hfd : w.fds fd = .closed) : q.Apart fd := by
  refine ⟨?_, ?_⟩
  · intro hown
    rw [(h.own fd hown).1] at hfd
    cases hfd
  · intro ev hev heq
    obtain ⟨r, hr, -⟩ := h.watched ev hev
    rw [heq, hfd] at hr
    cases hr

/-- A thread does not notice what happens to a descriptor that it has nothing
to do with. -/
theorem Holds.frame (h : Holds timers w l u q) (hfd : q.Apart fd)
    (hsame : ∀ d, d ≠ fd → w'.fds d = w.fds d ∧ w'.fdarray d = w.fdarray d)
    (hregs : w.regs ≤ w'.regs) (hsrc : ∀ i < w.regs, l'.src i = l.src i)
    (hheld : ∀ i, l.holder i = some u → l'.holder i = some u) : Holds timers w' l' u q where
  own := by
    intro d hd
    have hne : d ≠ fd := fun heq => hfd.1 (heq ▸ hd)
    rw [(hsame d hne).1, (hsame d hne).2]
    exact h.own d hd
  known := by
    intro ev hev
    obtain ⟨hk, hlt⟩ := h.known ev hev
    exact ⟨(hsrc _ hlt).trans hk, Nat.lt_of_lt_of_le hlt hregs⟩
  leased := fun ev hev hs => hheld _ (h.leased ev hev hs)
  distinct := h.distinct
  watched := by
    intro ev hev
    rw [(hsame _ (hfd.2 ev hev)).1]
    exact h.watched ev hev
  entry := by
    intro ev hcur hr hc
    rw [(hsame _ (hfd.2 ev (Party.mem_active hcur hr hc))).2]
    exact h.entry ev hcur hr hc

/-- What one thread does with a descriptor that the others have nothing to do with. -/
theorem Shared.change (h : Shared timers w l p) (t fd : Nat)
    (hapart : ∀ u, u ≠ t → (p u).Apart fd)
    (hsame : ∀ d, d ≠ fd → w'.fds d = w.fds d ∧ w'.fdarray d = w.fdarray d)
    (hregs : w.regs ≤ w'.regs) (hsrc : ∀ i < w.regs, l'.src i = l.src i)
    (hheld : ∀ i u, u ≠ t → l.holder i = some u → l'.holder i = some u)
    (hregistry : Registry timers w' l') (hq : Holds timers w' l' t q)
    (hfds : q.view.fds ⊆ fd :: (p t).view.fds) : Shared timers w' l' (update p t q) where
  registry := hregistry
  holds := by
    intro u
    by_cases hu : u = t
    · subst hu
      rwa [Function.update_self]
    · rw [Function.update_of_ne hu]
      exact (h.holds u).frame (hapart u hu) hsame hregs hsrc fun i => hheld i u hu
  disjoint := by
    have htu (u d : Nat) (hu : u ≠ t) (hd : d ∈ q.view.fds) : d ∉ (p u).view.fds := by
      rcases List.mem_cons.mp (hfds hd) with rfl | hd
      · exact (hapart u hu).1
      · exact h.disjoint (Ne.symm hu) hd
    intro a b d hab hd
    by_cases ha : a = t
    · subst ha
      rw [Function.update_self] at hd
      rw [Function.update_of_ne (Ne.symm hab)]
      exact htu b d (Ne.symm hab) hd
    · rw [Function.update_of_ne ha] at hd
      by_cases hb : b = t
      · subst hb
        rw [Function.update_self]
        exact fun hin => htu a d ha hin hd
      · rw [Function.update_of_ne hb]
        exact h.disjoint hab hd

/-! ## What a thread does -/

/-- The thread does nothing to descriptors and entries. -/
theorem Shared.quiet (h : Shared timers w l p) {v : View} (hfds : w'.fds = w.fds)
    (harr : w'.fdarray = w.fdarray) (hregs : w'.regs = w.regs)
    (hcur : v.cur = (p t).view.cur) (hr : v.rearmed = (p t).view.rearmed)
    (hc : v.closed = (p t).view.closed) (hown : v.fds = (p t).view.fds)
    (htable : v.table = (p t).view.table) :
    Shared timers w' l (update p t ⟨v, (p t).batch⟩) := by
  have hpend : (⟨v, (p t).batch⟩ : Party).pending = (p t).pending := by
    simp [Party.pending, hcur, hr]
  have hact : (⟨v, (p t).batch⟩ : Party).active = (p t).active := by
    simp [Party.active, hcur, hr, hc]
  have hregistry : Registry timers w' l := by
    refine ⟨?_, ?_, ?_, ?_⟩
    · rw [hfds, harr, hregs]
      exact h.registry.registered
    · rw [hfds]
      exact h.registry.injective
    · rw [hfds]
      exact h.registry.unleased
    · rw [hregs]
      exact h.registry.known
  have holds (u : Nat) : Holds timers w' l u (p u) := by
    have hu := h.holds u
    refine ⟨?_, ?_, hu.leased, hu.distinct, ?_, ?_⟩
    · rw [hfds, harr]
      exact hu.own
    · rw [hregs]
      exact hu.known
    · rw [hfds]
      exact hu.watched
    · rw [harr]
      exact hu.entry
  have ht := holds t
  refine ⟨hregistry, ?_, ?_⟩
  · intro u
    by_cases hu : u = t
    · subst hu
      rw [Function.update_self]
      refine ⟨?_, ?_, ?_, ?_, ?_, ?_⟩
      · simpa only [hown, htable] using ht.own
      · simpa only [hpend] using ht.known
      · simpa only [hpend] using ht.leased
      · simpa only [hpend] using ht.distinct
      · simpa only [hact] using ht.watched
      · simpa only [hcur, hr, hc, htable] using ht.entry
    · rw [Function.update_of_ne hu]
      exact holds u
  · exact h.disjoint_update hown

theorem setEntry_same (w : World) (fd : Nat) (e : EvSource) (d : Nat) (h : d ≠ fd) :
    (w.setEntry fd e).fds d = w.fds d ∧ (w.setEntry fd e).fdarray d = w.fdarray d :=
  ⟨rfl, Function.update_of_ne h _ _⟩

theorem setFd_same (w : World) (fd : Nat) (x : Fd) (d : Nat) (h : d ≠ fd) :
    (w.setFd fd x).fds d = w.fds d ∧ (w.setFd fd x).fdarray d = w.fdarray d :=
  ⟨Function.update_of_ne h _ _, rfl⟩

/-- An entry is changed. -/
theorem Registry.setEntry (h : Registry timers w l) {e : EvSource}
    (he : ∀ r, w.fds fd = .watched r → Typed r.oneshot e ∧ e.cbstate = r.state) :
    Registry timers (w.setEntry fd e) l := by
  refine ⟨?_, h.injective, h.unleased, h.known⟩
  intro d r hr
  obtain ⟨hlt, hsrc, hty, hst⟩ := h.registered hr
  refine ⟨hlt, hsrc, ?_⟩
  by_cases hd : d = fd
  · subst hd
    simpa [World.setEntry] using he r hr
  · simpa [World.setEntry, hd] using And.intro hty hst

theorem Holds.setEntry (h : Holds timers w l t q) (e : EvSource) :
    Holds timers (w.setEntry fd e) l t
      ⟨{ q.view with table := update q.view.table fd e }, q.batch⟩ := by
  refine ⟨?_, h.known, h.leased, h.distinct, h.watched, ?_⟩
  · intro d hd
    obtain ⟨hidle, hsame⟩ := h.own d hd
    refine ⟨hidle, ?_⟩
    by_cases hdf : d = fd
    · subst hdf
      simp [World.setEntry]
    · simpa [World.setEntry, hdf] using hsame
  · intro ev hcur hr hc
    by_cases hdf : ev.fd = fd
    · subst hdf
      simp [World.setEntry]
    · simpa [World.setEntry, hdf] using h.entry ev hcur hr hc

theorem Shared.setEntry (h : Shared timers w l p) {e : EvSource}
    (hapart : ∀ u, u ≠ t → (p u).Apart fd)
    (he : ∀ r, w.fds fd = .watched r → Typed r.oneshot e ∧ e.cbstate = r.state) :
    Shared timers (w.setEntry fd e) l (update p t
      ⟨{ (p t).view with table := update (p t).view.table fd e }, (p t).batch⟩) :=
  h.change t fd hapart (setEntry_same w fd e) (Nat.le_refl _) (fun _ _ => rfl)
    (fun _ _ _ hi => hi) (h.registry.setEntry he) ((h.holds t).setEntry e) (List.subset_cons_self _ _)

theorem watched_of_setFd {x : Fd} (hx : ∀ r, x ≠ .watched r) {d : Nat} {r : Reg}
    (hr : (w.setFd fd x).fds d = .watched r) : w.fds d = .watched r := by
  by_cases hd : d = fd
  · subst hd
    simp only [World.setFd, Function.update_self] at hr
    exact absurd hr (hx r)
  · simpa [World.setFd, hd] using hr

/-- A descriptor is opened, or closed, that no one watches. -/
theorem Registry.setFd (h : Registry timers w l) {x : Fd} (hx : ∀ r, x ≠ .watched r) :
    Registry timers (w.setFd fd x) l := by
  refine ⟨?_, ?_, ?_, h.known⟩
  · exact fun hr => h.registered (watched_of_setFd hx hr)
  · exact fun hr hr' => h.injective (watched_of_setFd hx hr) (watched_of_setFd hx hr')
  · exact fun hr => h.unleased (watched_of_setFd hx hr)

theorem Shared.open (h : Shared timers w l p) (hfd : w.fds fd = .closed) :
    Shared timers (w.setFd fd .idle) l (update p t
      ⟨{ (p t).view with fds := fd :: (p t).view.fds,
                         table := update (p t).view.table fd (w.fdarray fd) }, (p t).batch⟩) := by
  have ht := h.holds t
  refine h.change t fd (fun u _ => (h.holds u).apart_closed hfd) (setFd_same w fd _) (Nat.le_refl _)
    (fun _ _ => rfl) (fun _ _ _ hi => hi) (h.registry.setFd (by simp)) ?_ (List.Subset.refl _)
  have hapart := ht.apart_closed hfd
  refine ⟨?_, ht.known, ht.leased, ht.distinct, ?_, ?_⟩
  · intro d hd
    by_cases hdf : d = fd
    · subst hdf
      simp [World.setFd]
    · have hmem : d ∈ (p t).view.fds := (List.mem_cons.mp hd).resolve_left hdf
      simpa [World.setFd, hdf] using ht.own d hmem
  · intro ev hev
    rw [(setFd_same w fd _ _ (hapart.2 ev hev)).1]
    exact ht.watched ev hev
  · intro ev hcur hr hc
    have hne := hapart.2 ev (Party.mem_active hcur hr hc)
    simpa [World.setFd, hne] using ht.entry ev hcur hr hc

theorem Shared.closeOwn (h : Shared timers w l p) (hfd : fd ∈ (p t).view.fds) :
    Shared timers (w.setFd fd .closed) l (update p t
      ⟨{ (p t).view with fds := (p t).view.fds.filter (· ≠ fd) }, (p t).batch⟩) := by
  have ht := h.holds t
  refine h.change t fd (fun u hu => h.apart_own hfd hu) (setFd_same w fd _) (Nat.le_refl _)
    (fun _ _ => rfl) (fun _ _ _ hi => hi) (h.registry.setFd (by simp)) ?_
    (fun d hd => List.mem_cons_of_mem _ (List.mem_filter.mp hd).1)
  refine ⟨?_, ht.known, ht.leased, ht.distinct, ?_, ht.entry⟩
  · intro d hd
    obtain ⟨hmem, hne⟩ := List.mem_filter.mp hd
    have hne : d ≠ fd := by simpa using hne
    rw [(setFd_same w fd _ d hne).1]
    exact ht.own d hmem
  · intro ev hev
    obtain ⟨r, hr, hsrc⟩ := ht.watched ev hev
    have hne : ev.fd ≠ fd := by
      intro heq
      rw [heq, (ht.own fd hfd).1] at hr
      cases hr
    rw [(setFd_same w fd _ _ hne).1]
    exact ⟨r, hr, hsrc⟩

/-- The thread closes the descriptor of its event. -/
theorem Shared.closeEvent (h : Shared timers w l p) (hcur : (p t).view.cur = some ev)
    (hr : (p t).view.rearmed = false) (hc : (p t).view.closed = false)
    (hs : ev.src.single timers = true) :
    Shared timers (w.setFd ev.fd .closed) l (update p t
      ⟨{ (p t).view with closed := true }, (p t).batch⟩) := by
  have ht := h.holds t
  have hev := Party.mem_active hcur hr hc
  have hbatch := ht.batch_ne hcur hr hc hs
  have hactive : (⟨{ (p t).view with closed := true }, (p t).batch⟩ : Party).active =
      (p t).batch := by
    simp [Party.active]
  refine h.change t ev.fd (fun u hu => h.apart_event hev hs hu) (setFd_same w ev.fd _)
    (Nat.le_refl _) (fun _ _ => rfl) (fun _ _ _ hi => hi) (h.registry.setFd (by simp)) ?_
    (List.subset_cons_self _ _)
  refine ⟨?_, ht.known, ht.leased, ht.distinct, ?_, ?_⟩
  · intro d hd
    obtain ⟨r, hwr, -⟩ := ht.watched ev hev
    have hne : d ≠ ev.fd := by
      intro heq
      rw [← heq, (ht.own d hd).1] at hwr
      cases hwr
    rw [(setFd_same w ev.fd _ d hne).1]
    exact ht.own d hd
  · intro ev' hev'
    rw [hactive] at hev'
    rw [(setFd_same w ev.fd _ _ (hbatch ev' hev')).1]
    exact ht.watched ev' (Party.mem_active_batch hev')
  · intro ev' _ _ hopen
    simp at hopen

/-- A registration that is changed, but for its mask, is the same. -/
theorem watched_again {r r' x : Reg} {d : Nat} (hw : w.fds fd = .watched r)
    (hsrc : r'.toSource = r.toSource) (hx : (w.setFd fd (.watched r')).fds d = .watched x) :
    ∃ y : Reg, w.fds d = .watched y ∧ y.toSource = x.toSource ∧ (d = fd → x = r') ∧
      (d ≠ fd → y = x) := by
  by_cases hd : d = fd
  · subst hd
    simp only [World.setFd, Function.update_self, Fd.watched.injEq] at hx
    subst hx
    exact ⟨r, hw, hsrc.symm, fun _ => rfl, fun hne => absurd rfl hne⟩
  · rw [(setFd_same w fd _ d hd).1] at hx
    exact ⟨x, hx, rfl, fun heq => absurd heq hd, fun _ => rfl⟩

theorem Registry.again (h : Registry timers w l) {r r' : Reg} (hw : w.fds fd = .watched r)
    (hsrc : r'.toSource = r.toSource) (hl : l'.src = l.src)
    (hfree : r'.awaits → r'.single timers = true → l'.holder r'.id = none)
    (hothers : ∀ i, i ≠ r.id → l'.holder i = l.holder i) :
    Registry timers (w.setFd fd (.watched r')) l' := by
  refine ⟨?_, ?_, ?_, ?_⟩
  · intro d x hx
    obtain ⟨y, hy, hyx, -⟩ := watched_again hw hsrc hx
    rw [hl, ← hyx]
    exact h.registered hy
  · intro d d' x x' hx hx' hid
    obtain ⟨y, hy, hyx, -⟩ := watched_again hw hsrc hx
    obtain ⟨y', hy', hyx', -⟩ := watched_again hw hsrc hx'
    refine h.injective hy hy' ?_
    rw [hyx, hyx']
    exact hid
  · intro d x hx hawaits hsx
    obtain ⟨y, hy, hyx, hhere, helse⟩ := watched_again hw hsrc hx
    by_cases hd : d = fd
    · cases hhere hd
      exact hfree hawaits hsx
    · cases helse hd
      have hid : x.id ≠ r.id := fun heq => hd (h.injective hy hw heq)
      rw [hothers _ hid]
      exact h.unleased hy hawaits hsx
  · intro i u hi
    by_cases hid : i = r.id
    · rw [hid]
      exact (h.registered hw).1
    · rw [hothers i hid] at hi
      exact h.known hi

/-- The thread arms the descriptor of its event, and has the event no more. -/
theorem Shared.arm (h : Shared timers w l p) (hcur : (p t).view.cur = some ev)
    (hr : (p t).view.rearmed = false) (hc : (p t).view.closed = false)
    (hs : ev.src.single timers = true) {r : Reg} (hw : w.fds ev.fd = .watched r) (e : Events) :
    Shared timers (w.setFd ev.fd (.watched { r with armed := some e }))
      { l with holder := update l.holder ev.src.id none }
      (update p t ⟨{ (p t).view with rearmed := true }, (p t).batch⟩) := by
  have ht := h.holds t
  have hev := Party.mem_active hcur hr hc
  have hbatch := ht.batch_ne hcur hr hc hs
  have hid : r.id = ev.src.id := by
    obtain ⟨r', hr', hsrc⟩ := ht.watched ev hev
    rw [hw] at hr'
    cases hr'
    rw [hsrc]
  have hmine := ht.leased ev (Party.mem_pending hcur hr) hs
  have hpend : (⟨{ (p t).view with rearmed := true }, (p t).batch⟩ : Party).pending =
      (p t).batch := by
    simp [Party.pending]
  have hactive : (⟨{ (p t).view with rearmed := true }, (p t).batch⟩ : Party).active =
      (p t).batch := by
    simp [Party.active]
  refine h.change t ev.fd (fun u hu => h.apart_event hev hs hu) (setFd_same w ev.fd _)
    (Nat.le_refl _) (fun _ _ => rfl) ?_ (h.registry.again hw rfl rfl ?_ ?_) ⟨?_, ?_, ?_, ?_, ?_, ?_⟩
    (List.subset_cons_self _ _)
  · intro i u hu hi
    have hne : i ≠ ev.src.id := by
      intro heq
      rw [heq, hmine] at hi
      exact hu (Option.some.inj hi).symm
    simpa [hne] using hi
  · intro _ _
    rw [hid]
    exact Function.update_self _ _ _
  · intro i hi
    rw [hid] at hi
    exact Function.update_of_ne hi _ _
  · intro d hd
    have hne : d ≠ ev.fd := by
      intro heq
      rw [← heq, (ht.own d hd).1] at hw
      cases hw
    rw [(setFd_same w ev.fd _ d hne).1]
    exact ht.own d hd
  · rw [hpend]
    exact fun ev' hev' => ht.known ev' (Party.mem_pending_batch hev')
  · rw [hpend]
    intro ev' hev' hs'
    have hne := ht.batch_distinct hcur hr hs ev' hev' hs'
    simpa [hne] using ht.leased ev' (Party.mem_pending_batch hev') hs'
  · rw [hpend]
    have hd := ht.distinct
    simp only [Party.pending, List.filter_append, List.map_append] at hd
    exact (List.nodup_append.mp hd).2.1
  · rw [hactive]
    intro ev' hev'
    rw [(setFd_same w ev.fd _ _ (hbatch ev' hev')).1]
    exact ht.watched ev' (Party.mem_active_batch hev')
  · intro ev' _ hr'
    simp at hr'

/-- A registration more, which no thread has an event of yet. -/
theorem Registry.add (h : Registry timers w l) {r : Reg} (hid : r.id = w.regs)
    (hty : Typed r.oneshot (w.fdarray fd)) (hst : (w.fdarray fd).cbstate = r.state) :
    Registry timers { w.setFd fd (.watched r) with regs := w.regs + 1 }
      { l with src := update l.src w.regs r.toSource } := by
  have hwas {d : Nat} {x : Reg} (hx : (w.setFd fd (.watched r)).fds d = .watched x) :
      d = fd ∧ x = r ∨ w.fds d = .watched x := by
    by_cases hd : d = fd
    · subst hd
      simp only [World.setFd, Function.update_self, Fd.watched.injEq] at hx
      exact .inl ⟨rfl, hx.symm⟩
    · rw [(setFd_same w fd _ d hd).1] at hx
      exact .inr hx
  refine ⟨?_, ?_, ?_, ?_⟩
  · intro d x hx
    rcases hwas hx with ⟨rfl, rfl⟩ | hx
    · refine ⟨hid ▸ Nat.lt_succ_self _, ?_, hty, hst⟩
      rw [hid]
      exact Function.update_self _ _ _
    · obtain ⟨hlt, hk, hrest⟩ := h.registered hx
      exact ⟨Nat.lt_succ_of_lt hlt, (Function.update_of_ne (Nat.ne_of_lt hlt) _ _).trans hk, hrest⟩
  · intro d d' x x' hx hx' heq
    rcases hwas hx with ⟨rfl, rfl⟩ | hy <;> rcases hwas hx' with ⟨rfl, rfl⟩ | hy'
    · rfl
    · exact absurd (heq.symm.trans hid) (Nat.ne_of_lt (h.registered hy').1)
    · exact absurd (heq.trans hid) (Nat.ne_of_lt (h.registered hy).1)
    · exact h.injective hy hy' heq
  · intro d x hx hawaits hsx
    rcases hwas hx with ⟨rfl, rfl⟩ | hx
    · cases hheld : l.holder x.id with
      | none => rfl
      | some u => exact absurd hid (Nat.ne_of_lt (h.known hheld))
    · exact h.unleased hx hawaits hsx
  · intro i u hi
    exact Nat.lt_succ_of_lt (h.known hi)

/-- The thread registers a descriptor of its own. -/
theorem Shared.add (h : Shared timers w l p) (hfd : fd ∈ (p t).view.fds) (objs : List Nat)
    {e : Events} (hty : Typed (e.has EPOLLONESHOT) (w.fdarray fd)) (r : Reg)
    (hr : r = { id := w.regs, oneshot := e.has EPOLLONESHOT,
                state := (w.fdarray fd).cbstate, armed := some e }) :
    Shared timers { w.setFd fd (.watched r) with regs := w.regs + 1 }
      { l with src := update l.src w.regs r.toSource }
      (update p t ⟨{ (p t).view with fds := (p t).view.fds.filter (· ≠ fd), objs := objs },
        (p t).batch⟩) := by
  have ht := h.holds t
  have hidle := (ht.own fd hfd).1
  have hsrc (i : Nat) (hi : i < w.regs) : update l.src w.regs r.toSource i = l.src i :=
    Function.update_of_ne (Nat.ne_of_lt hi) _ _
  have hsame (d : Nat) (hd : d ≠ fd) : (w.setFd fd (.watched r)).fds d = w.fds d ∧
      (w.setFd fd (.watched r)).fdarray d = w.fdarray d := setFd_same w fd _ d hd
  have hapart : ∀ ev ∈ (p t).active, ev.fd ≠ fd := by
    intro ev hev heq
    obtain ⟨x, hx, -⟩ := ht.watched ev hev
    rw [heq, hidle] at hx
    cases hx
  have hregistry : Registry timers { w.setFd fd (.watched r) with regs := w.regs + 1 }
      { l with src := update l.src w.regs r.toSource } := by
    refine h.registry.add ?_ ?_ ?_ <;> rw [hr]
    exact hty
  refine h.change t fd (fun u hu => h.apart_own hfd hu) hsame (Nat.le_succ _) hsrc
    (fun _ _ _ hi => hi) hregistry ⟨?_, ?_, ht.leased, ht.distinct, ?_, ht.entry⟩
    (fun d hd => List.mem_cons_of_mem _ (List.mem_filter.mp hd).1)
  · intro d hd
    obtain ⟨hmem, hne⟩ := List.mem_filter.mp hd
    have hne : d ≠ fd := by simpa using hne
    have hown := ht.own d hmem
    rw [← (hsame d hne).1] at hown
    exact hown
  · intro ev hev
    obtain ⟨hk, hlt⟩ := ht.known ev hev
    exact ⟨(hsrc _ hlt).trans hk, Nat.lt_succ_of_lt hlt⟩
  · intro ev hev
    have hwatched := ht.watched ev hev
    rw [← (hsame ev.fd (hapart ev hev)).1] at hwatched
    exact hwatched

/-! ## Reports -/

theorem report_some {mask : Events} (h : w.report fd mask = some (w', ev)) :
    ∃ r e, w.fds fd = .watched r ∧ r.armed = some e ∧ ev.fd = fd ∧ ev.src = r.toSource ∧
      w' = w.setFd fd (.watched
        { r with armed := if r.oneshot then none else some e, reported := true }) := by
  unfold World.report at h
  cases hfd : w.fds fd with
  | watched r =>
    cases harmed : r.armed with
    | none => simp [hfd, harmed] at h
    | some e =>
      simp only [hfd, harmed, Option.ite_none_right_eq_some, Option.some.injEq,
        Prod.mk.injEq] at h
      obtain ⟨-, rfl, rfl⟩ := h
      exact ⟨r, e, rfl, harmed, rfl, rfl, rfl⟩
  | closed => simp [hfd] at h
  | idle => simp [hfd] at h

theorem Holds.again (h : Holds timers w l u q) {r r' : Reg} (hw : w.fds fd = .watched r)
    (hsrc : r'.toSource = r.toSource) (hl : l'.src = l.src)
    (hheld : ∀ i, l.holder i = some u → l'.holder i = some u) :
    Holds timers (w.setFd fd (.watched r')) l' u q := by
  refine ⟨?_, ?_, fun ev hev hs => hheld _ (h.leased ev hev hs), h.distinct, ?_, h.entry⟩
  · intro d hd
    have hne : d ≠ fd := by
      intro heq
      rw [← heq, (h.own d hd).1] at hw
      cases hw
    rw [(setFd_same w fd _ d hne).1]
    exact h.own d hd
  · rw [hl]
    exact h.known
  · intro ev hev
    obtain ⟨x, hx, hxs⟩ := h.watched ev hev
    by_cases hd : ev.fd = fd
    · refine ⟨r', by simp [World.setFd, hd], ?_⟩
      rw [hd, hw] at hx
      cases hx
      rw [hsrc, hxs]
    · rw [(setFd_same w fd _ _ hd).1]
      exact ⟨x, hx, hxs⟩

/-- A timer has not been reported before. -/
def Reg.Fires (timers : Bool) (r : Reg) : Prop :=
  timers = true → r.oneshot = true ∨ (∃ k, r.state = .client k) ∨ r.reported = false

theorem Reg.Fires.awaits {r : Reg} {e : Events} (h : r.Fires timers) (harmed : r.armed = some e)
    (hs : r.single timers = true) : r.awaits := by
  refine ⟨by simp [harmed], ?_⟩
  cases hone : r.oneshot with
  | true => exact .inl rfl
  | false =>
    refine .inr ?_
    simp only [Source.single, hone, Bool.false_or, Bool.and_eq_true] at hs
    rcases h hs.1 with hyes | ⟨k, hk⟩ | hrep
    · exact absurd hyes (by simp [hone])
    · simp [hk] at hs
    · exact hrep

/-- An event more, of a registration that the thread has no other event of, if it
is reported once for each arming. -/
theorem Holds.retrieved (h : Holds timers w l t q) {r : Reg} (hw : w.fds ev.fd = .watched r)
    (hsrc : r.toSource = ev.src) (hknown : l.src ev.src.id = ev.src ∧ ev.src.id < w.regs)
    (hheld : ev.src.single timers = true → l.holder ev.src.id = some t)
    (hnew : ev.src.single timers = true → ∀ ev' ∈ q.pending, ev'.src.single timers = true →
      ev'.src.id ≠ ev.src.id) : Holds timers w l t ⟨q.view, q.batch ++ [ev]⟩ := by
  have hpend : (⟨q.view, q.batch ++ [ev]⟩ : Party).pending = q.pending ++ [ev] := by
    simp [Party.pending]
  have hactive : (⟨q.view, q.batch ++ [ev]⟩ : Party).active = q.active ++ [ev] := by
    simp [Party.active]
  refine ⟨h.own, ?_, ?_, ?_, ?_, h.entry⟩
  · rw [hpend]
    intro ev' hev'
    rcases List.mem_append.mp hev' with hev' | hev'
    · exact h.known ev' hev'
    · cases List.mem_singleton.mp hev'
      exact hknown
  · rw [hpend]
    intro ev' hev' hs
    rcases List.mem_append.mp hev' with hev' | hev'
    · exact h.leased ev' hev' hs
    · cases List.mem_singleton.mp hev'
      exact hheld hs
  · rw [hpend, List.filter_append, List.map_append]
    refine List.nodup_append.mpr ⟨h.distinct, ?_, ?_⟩
    · by_cases hs : ev.src.single timers = true <;> simp [hs]
    · intro i hi j hj
      obtain ⟨ev', hev', rfl⟩ := List.mem_map.mp hi
      obtain ⟨hev', hs'⟩ := List.mem_filter.mp hev'
      obtain ⟨ev'', hev'', rfl⟩ := List.mem_map.mp hj
      obtain ⟨hev'', hs''⟩ := List.mem_filter.mp hev''
      cases List.mem_singleton.mp hev''
      exact hnew hs'' ev' hev' hs'
  · rw [hactive]
    intro ev' hev'
    rcases List.mem_append.mp hev' with hev' | hev'
    · exact h.watched ev' hev'
    · cases List.mem_singleton.mp hev'
      exact ⟨r, hw, hsrc⟩

/-- A thread that retrieves an event has a lease of its registration. -/
theorem Shared.report (h : Shared timers w l p) (t : Nat) {mask : Events}
    (hrep : w.report fd mask = some (w', ev))
    (hfires : ∀ r, w.fds fd = .watched r → r.Fires timers) :
    ∃ l', l'.src = l.src ∧
      Shared timers w' l' (update p t ⟨(p t).view, (p t).batch ++ [ev]⟩) := by
  obtain ⟨r, e, hw, harmed, rfl, hevsrc, rfl⟩ := report_some hrep
  obtain ⟨hlt, hsrc, hty, hst⟩ := h.registry.registered hw
  have hnone (hs : r.single timers = true) : l.holder r.id = none :=
    h.registry.unleased hw ((hfires r hw).awaits harmed hs) hs
  let l' : Leases := { l with holder := if r.single timers then update l.holder r.id (some t)
                                        else l.holder }
  have hheld (i u : Nat) (hi : l.holder i = some u) : l'.holder i = some u := by
    by_cases hs : r.single timers = true
    · have hne : i ≠ r.id := by
        intro heq
        rw [heq, hnone hs] at hi
        cases hi
      simpa [l', hs, hne] using hi
    · simpa [l', hs] using hi
  have holds (u : Nat) : Holds timers (w.setFd ev.fd (.watched
      { r with armed := if r.oneshot then none else some e, reported := true })) l' u (p u) :=
    (h.holds u).again hw (by rfl) rfl fun i => hheld i u
  refine ⟨l', rfl, ?_, ?_, ?_⟩
  · refine h.registry.again hw rfl rfl ?_ ?_
    · -- what has been reported does not await it
      rintro ⟨hsome, hone | hno⟩ hs
      · have hone : r.oneshot = true := hone
        simp [hone] at hsome
      · cases hno
    · intro i hi
      by_cases hs : r.single timers = true <;> simp [l', hs, hi]
  · intro u
    by_cases hu : u = t
    · subst hu
      rw [Function.update_self]
      refine (holds u).retrieved
        (r := { r with armed := if r.oneshot then none else some e, reported := true })
        (Function.update_self _ _ _) hevsrc.symm ?_ ?_ ?_
      · rw [hevsrc]
        exact ⟨hsrc, hlt⟩
      · rw [hevsrc]
        intro hs
        simp [l', hs]
      · rw [hevsrc]
        intro hs ev' hev' hs' heq
        have hl := (h.holds u).leased ev' hev' hs'
        rw [heq, hnone hs] at hl
        cases hl
    · rw [Function.update_of_ne hu]
      exact holds u
  · exact fun hab hd => h.disjoint_update (by rfl) hab hd

/-- A thread turns to what it does next. -/
theorem Shared.turn (h : Shared timers w l p) (hfds : q.view.fds = (p t).view.fds)
    (htable : ∀ fd ∈ q.view.fds, q.view.table fd = (p t).view.table fd)
    (hpend : q.pending.Sublist (p t).pending) (hactive : q.active ⊆ (p t).active)
    (hentry : ∀ ev, q.view.cur = some ev → q.view.rearmed = false → q.view.closed = false →
      q.view.table ev.fd = w.fdarray ev.fd) : Shared timers w l (update p t q) := by
  have ht := h.holds t
  refine ⟨h.registry, ?_, ?_⟩
  · intro u
    by_cases hu : u = t
    · subst hu
      rw [Function.update_self]
      refine ⟨?_, ?_, ?_, ?_, ?_, hentry⟩
      · intro d hd
        rw [htable d hd]
        exact ht.own d (hfds ▸ hd)
      · exact fun ev hev => ht.known ev (hpend.subset hev)
      · exact fun ev hev => ht.leased ev (hpend.subset hev)
      · exact ((hpend.filter _).map _).nodup ht.distinct
      · exact fun ev hev => ht.watched ev (hactive hev)
    · rw [Function.update_of_ne hu]
      exact h.holds u
  · exact h.disjoint_update hfds

end

end Libtorque
