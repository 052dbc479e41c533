import Libtorque.Dispatch.Objects

/-! # Live registrations and exclusive handlers

What threads share, and the states of registrations, are kept by every operation
of a program that keeps to its lease, and by every other step of a system. -/
namespace Libtorque
open Lib
open Function (update)

/-! ## Operations -/

/-- Operations that leave descriptors, entries, registrations and objects as they are. -/
def Op.still : (o : Op) → o.Rep → Bool
  | .setEvsourceRx .., _ | .setEvsourceTx .., _ | .setEvsourceState .., _ | .close _, _
  | .free _, _ => false
  | .epollCtl .., ok => !ok
  | .accept _, r => r.isNone
  | .timerfdCreate, r => r.isNone
  | .malloc, r => r.isNone
  | _, _ => true

/-- What all of this is about is the same in two worlds. -/
def World.Same (w w' : World) : Prop :=
  w'.fds = w.fds ∧ w'.fdarray = w.fdarray ∧ w'.regs = w.regs ∧ w'.objs = w.objs

theorem same_mapPage {w w' : World} {page : Option Pages} (h : w.mapPage page = some w') :
    w.Same w' := by
  cases page with
  | none =>
    cases h
    exact ⟨rfl, rfl, rfl, rfl⟩
  | some page =>
    simp only [World.mapPage, Option.ite_none_right_eq_some, Option.some.injEq] at h
    obtain ⟨-, rfl⟩ := h
    exact ⟨rfl, rfl, rfl, rfl⟩

theorem same_unmap {w w' : World} {buffer : Option Nat} (h : w.unmap buffer = some w') :
    w.Same w' := by
  cases buffer with
  | none =>
    cases h
    exact ⟨rfl, rfl, rfl, rfl⟩
  | some m =>
    simp only [World.unmap, Option.ite_none_right_eq_some, Option.some.injEq] at h
    obtain ⟨-, rfl⟩ := h
    exact ⟨rfl, rfl, rfl, rfl⟩

theorem same_of_still {w w' : World} {o : Op} {r : o.Rep} (hq : o.still r = true)
    (h : w.next o r = some w') : w.Same w' := by
  have guarded {c : Prop} [Decidable c] {v : World} (hv : w.Same v)
      (hc : (if c then some v else none) = some w') : w.Same w' := by
    simp only [Option.ite_none_right_eq_some, Option.some.injEq] at hc
    obtain ⟨-, rfl⟩ := hc
    exact hv
  have same : w.Same w := ⟨rfl, rfl, rfl, rfl⟩
  cases o with
  | event => cases h
  | setEvsourceRx | setEvsourceTx | setEvsourceState | close | free => cases hq
  | rxbuf | fields | evsource | fdarraysize => exact guarded same h
  | setRxbuf | rxbufferAdvance | setFields =>
    refine guarded ?_ h
    exact ⟨rfl, rfl, rfl, rfl⟩
  | epollCtl =>
    cases r with
    | false =>
      cases h
      exact same
    | true => cases hq
  | accept | timerfdCreate | malloc =>
    cases r with
    | none =>
      cases h
      exact same
    | some => cases hq
  | getBigPage => exact same_mapPage h
  | dealloc => exact same_unmap h
  | modPages =>
    cases r with
    | none =>
      cases h
      exact same
    | some page =>
      obtain ⟨v, hv, h⟩ := Option.bind_eq_some_iff.mp h
      obtain ⟨h1, h2, h3, h4⟩ := same_unmap hv
      obtain ⟨h1', h2', h3', h4'⟩ := same_mapPage h
      exact ⟨h1'.trans h1, h2'.trans h2, h3'.trans h3, h4'.trans h4⟩
  | read | sslRead =>
    cases r with
    | bytes => exact guarded same h
    | ret => exact guarded same h
  | sslWrite => exact guarded same h
  | callback =>
    obtain ⟨-, rfl⟩ := World.callback_cases h
    exact same
  | _ =>
    cases h
    exact same

theorem view_of_still (v : View) (evs : EvSource) {o : Op} {r : o.Rep} (hq : o.still r = true) :
    (v.next evs o r).cur = v.cur ∧ (v.next evs o r).rearmed = v.rearmed ∧
      (v.next evs o r).closed = v.closed ∧ (v.next evs o r).fds = v.fds ∧
      (v.next evs o r).table = v.table ∧ (v.next evs o r).objs = v.objs ∧
      (v.next evs o r).freed = v.freed := by
  cases o with
  | setEvsourceRx | setEvsourceTx | setEvsourceState | close | free => cases hq
  | epollCtl op =>
    cases r with
    | false => cases op <;> exact ⟨rfl, rfl, rfl, rfl, rfl, rfl, rfl⟩
    | true => cases hq
  | accept | timerfdCreate | malloc =>
    cases r with
    | none => exact ⟨rfl, rfl, rfl, rfl, rfl, rfl, rfl⟩
    | some => cases hq
  | client => cases r <;> exact ⟨rfl, rfl, rfl, rfl, rfl, rfl, rfl⟩
  | _ => exact ⟨rfl, rfl, rfl, rfl, rfl, rfl, rfl⟩

/-- What threads share, and the states of their registrations. -/
structure Inv (timers : Bool) (w : World) (l : Leases) (p : Nat → Party) : Prop where
  shared : Shared timers w l p
  objects : timers = true → Objects w l p

section
variable {timers : Bool} {w w' : World} {l l' : Leases} {p : Nat → Party} {q : Party}
  {t fd c : Nat} {ev : Event}

theorem Inv.quiet (h : Inv timers w l p) {evs : EvSource} {o : Op} {r : o.Rep}
    (hq : o.still r = true) (hw : w.next o r = some w') :
    Inv timers w' l (update p t ⟨(p t).view.next evs o r, (p t).batch⟩) := by
  obtain ⟨hfds, harr, hregs, hobjs⟩ := same_of_still hq hw
  obtain ⟨hcur, hr, hc, hown, htable, hvobjs, hfreed⟩ :=
    view_of_still (p t).view evs hq
  refine ⟨h.shared.quiet hfds harr hregs hcur hr hc hown htable, ?_⟩
  intro ht
  refine (h.objects ht).keep hobjs hregs rfl hvobjs ?_ ?_
  · intro ev c hev hst
    have halive : (⟨(p t).view.next evs o r, (p t).batch⟩ : Party).alive = (p t).alive := by
      simp [Party.alive, hcur, hr, hfreed]
    exact (h.objects ht).alive (halive ▸ hev) hst
  · rw [hfds]
    exact fun fd r c => (h.objects ht).awaiting

theorem Shared.sees (h : Shared timers w l p) {o : Op} {r : o.Rep} (hw : w.next o r = some w') :
    (p t).view.Sees o r := by
  have opened (fd : Nat) (hfd : w.openFd fd = some w') :
      fd ∉ (p t).view.fds ∧ fd < 2 ^ 31 ∧
        ((p t).view.closed = false → ¬ (p t).view.At fun ev => ev.fd = fd) := by
    obtain ⟨⟨hclosed, hlt⟩, -⟩ := World.openFd_cases hfd
    have hapart := (h.holds t).apart_closed hclosed
    refine ⟨hapart.1, hlt, ?_⟩
    rintro hopen ⟨hr, ev, hcur, rfl⟩
    exact hapart.2 ev (Party.mem_active hcur hr hopen) rfl
  cases o with
  | evsource fd =>
    obtain ⟨rfl, -⟩ := World.evsource_cases hw
    rintro hopen ⟨hr, ev, hcur, rfl⟩
    exact ((h.holds t).entry ev hcur hr hopen).symm
  | accept =>
    cases r with
    | none => trivial
    | some fd => exact opened fd hw
  | timerfdCreate =>
    cases r with
    | none => trivial
    | some fd => exact opened fd hw
  | _ => trivial

theorem single_of_oneshot {s : Source} (h : s.oneshot = true) : s.single timers = true := by
  simp [Source.single, h]

/-- Whatever else is the same, the objects are kept. -/
theorem Inv.same_objects (h : Inv timers w l p) (hshared : Shared timers w' l' (update p t q))
    (hobjs : w'.objs = w.objs) (hregs : w'.regs = w.regs) (hsrc : l'.src = l.src)
    (hown : q.view.objs = (p t).view.objs) (halive : q.alive ⊆ (p t).alive)
    (hawait : ∀ fd r, w'.fds fd = .watched r → w.fds fd = .watched r) :
    Inv timers w' l' (update p t q) := by
  refine ⟨hshared, fun ht => (h.objects ht).keep hobjs hregs hsrc hown ?_ ?_⟩
  · exact fun ev c hev => (h.objects ht).alive (halive hev)
  · exact fun fd r c hw => (h.objects ht).awaiting (hawait fd r hw)

/-- A slot is set, of a descriptor of the thread's own or of its event. -/
theorem Inv.setSlot (h : Inv timers w l p) (e : EvSource → EvSource)
    (he : ∀ evs, (e evs).cbstate = evs.cbstate)
    (hok : fd ∈ (p t).view.fds ∨ (p t).view.Writes fd (e ((p t).view.table fd)))
    (hclosed : (p t).view.closed = false ∨ fd ∈ (p t).view.fds) :
    Inv timers (w.setEntry fd (e (w.fdarray fd))) l (update p t
      ⟨{ (p t).view with table := update (p t).view.table fd (e ((p t).view.table fd)) },
        (p t).batch⟩) := by
  have ht := h.shared.holds t
  suffices hboth : (p t).view.table fd = w.fdarray fd ∧ (∀ u, u ≠ t → (p u).Apart fd) ∧
      ∀ r, w.fds fd = .watched r →
        Typed r.oneshot (e (w.fdarray fd)) ∧ (e (w.fdarray fd)).cbstate = r.state by
    obtain ⟨htable, hapart, hty⟩ := hboth
    rw [htable]
    exact h.same_objects (h.shared.setEntry hapart hty) rfl rfl rfl rfl (List.Subset.refl _)
      fun _ _ hw => hw
  by_cases hin : fd ∈ (p t).view.fds
  · obtain ⟨hidle, htable⟩ := ht.own fd hin
    refine ⟨htable, fun u hu => h.shared.apart_own hin hu, ?_⟩
    intro r hr
    rw [hidle] at hr
    cases hr
  · have hopen := hclosed.resolve_right hin
    obtain ⟨hr, ev, hcur, rfl, hone, hty⟩ := hok.resolve_left hin
    have hev := Party.mem_active hcur hr hopen
    have htable := ht.entry ev hcur hr hopen
    refine ⟨htable, fun u hu => h.shared.apart_event hev (single_of_oneshot hone) hu, ?_⟩
    intro r hw
    obtain ⟨r', hw', hsrc⟩ := ht.watched ev hev
    rw [hw] at hw'
    cases hw'
    obtain ⟨-, -, -, hst⟩ := h.shared.registry.registered hw
    have hro : r.oneshot = true := by rw [hsrc, hone]
    refine ⟨?_, (he _).trans hst⟩
    rw [hro, ← htable]
    exact hty hopen

theorem Inv.setState (h : Inv timers w l p) (hfd : fd ∈ (p t).view.fds) (st : CbState) :
    Inv timers (w.setEntry fd { w.fdarray fd with cbstate := st }) l (update p t
      ⟨{ (p t).view with table := update (p t).view.table fd
                          { (p t).view.table fd with cbstate := st } }, (p t).batch⟩) := by
  obtain ⟨hidle, htable⟩ := (h.shared.holds t).own fd hfd
  rw [htable]
  refine h.same_objects (h.shared.setEntry (fun u hu => h.shared.apart_own hfd hu) ?_) rfl rfl rfl
    rfl (List.Subset.refl _) fun _ _ hw => hw
  intro r hr
  rw [hidle] at hr
  cases hr

theorem Inv.open (h : Inv timers w l p) (hfd : w.openFd fd = some w') :
    Inv timers w' l (update p t
      ⟨{ (p t).view with fds := fd :: (p t).view.fds,
                         table := update (p t).view.table fd (w.fdarray fd) }, (p t).batch⟩) := by
  obtain ⟨⟨hclosed, -⟩, rfl⟩ := World.openFd_cases hfd
  exact h.same_objects (h.shared.open hclosed) rfl rfl rfl rfl (List.Subset.refl _)
    fun _ _ => watched_of_setFd (by simp)

theorem Inv.closeOwn (h : Inv timers w l p) (hfd : fd ∈ (p t).view.fds) :
    Inv timers (w.setFd fd .closed) l (update p t
      ⟨{ (p t).view with fds := (p t).view.fds.filter (· ≠ fd) }, (p t).batch⟩) :=
  h.same_objects (h.shared.closeOwn hfd) rfl rfl rfl rfl (List.Subset.refl _)
    fun _ _ => watched_of_setFd (by simp)

theorem Inv.closeEvent (h : Inv timers w l p) (hcur : (p t).view.cur = some ev)
    (hr : (p t).view.rearmed = false) (hc : (p t).view.closed = false)
    (hone : ev.src.oneshot = true) :
    Inv timers (w.setFd ev.fd .closed) l (update p t
      ⟨{ (p t).view with closed := true }, (p t).batch⟩) :=
  h.same_objects (h.shared.closeEvent hcur hr hc (single_of_oneshot hone)) rfl rfl rfl rfl
    (List.Subset.refl _) fun _ _ => watched_of_setFd (by simp)

theorem Inv.arm (h : Inv timers w l p) (hcur : (p t).view.cur = some ev)
    (hr : (p t).view.rearmed = false) (hc : (p t).view.closed = false)
    (hfree : (p t).view.freed = false) (hone : ev.src.oneshot = true) {e : Events}
    (hw : w.epollCtl .mod ev.fd e = some w') :
    Inv timers w' { l with holder := update l.holder ev.src.id none }
      (update p t ⟨{ (p t).view with rearmed := true }, (p t).batch⟩) := by
  obtain ⟨r, hwr, hsrc⟩ := (h.shared.holds t).watched ev (Party.mem_active hcur hr hc)
  simp only [World.epollCtl, hwr, Option.some.injEq] at hw
  subst hw
  refine ⟨h.shared.arm hcur hr hc (single_of_oneshot hone) hwr e, ?_⟩
  intro ht
  refine (h.objects ht).keep rfl rfl rfl rfl ?_ ?_
  · intro ev' c hev'
    have hbatch : ev' ∈ (p t).batch := by simpa [Party.alive] using hev'
    exact (h.objects ht).alive (Party.mem_alive_batch hbatch)
  · intro d x c hx ha hst
    by_cases hd : d = ev.fd
    · subst hd
      simp only [World.setFd, Function.update_self, Fd.watched.injEq] at hx
      subst hx
      have hevst : ev.src.state = .object c := by rw [← hsrc]; exact hst
      exact (h.objects ht).alive (Party.mem_alive hcur hr hfree) hevst
    · have hx : w.fds d = .watched x := by simpa [World.setFd, hd] using hx
      exact (h.objects ht).awaiting hx ha hst

theorem Inv.add (h : Inv timers w l p) (hfd : fd ∈ (p t).view.fds) {e : Events}
    (hty : Typed (e.has EPOLLONESHOT) ((p t).view.table fd))
    (hst : ∀ c, ((p t).view.table fd).cbstate = .object c → c ∈ (p t).view.objs)
    (hw : w.epollCtl .add fd e = some w') :
    ∃ l', Inv timers w' l' (update p t
      ⟨{ (p t).view with
          fds := (p t).view.fds.filter (· ≠ fd),
          objs := (p t).view.objs.filter fun c => ((p t).view.table fd).cbstate ≠ .object c },
        (p t).batch⟩) := by
  obtain ⟨hidle, htable⟩ := (h.shared.holds t).own fd hfd
  simp only [World.epollCtl, hidle, Option.some.injEq] at hw
  subst hw
  rw [htable] at hty hst ⊢
  let r : Reg := { id := w.regs, oneshot := e.has EPOLLONESHOT,
                   state := (w.fdarray fd).cbstate, armed := some e }
  refine ⟨{ l with src := update l.src w.regs r.toSource }, h.shared.add hfd _ hty r rfl, ?_⟩
  intro ht
  exact (h.objects ht).add (r := r) hst rfl rfl

theorem Inv.allocate (h : Inv timers w l p) (hc : w.objs c = .fresh) :
    Inv timers (w.setObj c .live) l (update p t
      ⟨{ (p t).view with objs := c :: (p t).view.objs }, (p t).batch⟩) :=
  ⟨h.shared.quiet rfl rfl rfl rfl rfl rfl rfl rfl, fun ht => (h.objects ht).allocate hc⟩

theorem Inv.free {evs : EvSource} (h : Inv timers w l p) (hc : w.objs c = .live)
    (hok : (p t).view.Ok (.free c)) :
    Inv timers (w.setObj c .freed) l (update p t
      ⟨(p t).view.next evs (.free c) (), (p t).batch⟩) := by
  refine ⟨h.shared.quiet rfl rfl rfl rfl rfl rfl rfl rfl, ?_⟩
  rintro rfl
  have hobjects := h.objects rfl
  by_cases hin : c ∈ (p t).view.objs
  · have hnext : (p t).view.next evs (.free c) () =
        { (p t).view with objs := (p t).view.objs.filter (· ≠ c) } := by
      simp [View.next, View.freedAfter, View.objsAfter, View.tableAfter, Local.next, hin]
    rw [hnext]
    exact hobjects.freeOwn h.shared hin
  · obtain ⟨hr, ev, hcur, hst⟩ := hok.resolve_left hin
    have hnext : (p t).view.next evs (.free c) () =
        { (p t).view with freed := true, objs := (p t).view.objs.filter (· ≠ c) } := by
      simp [View.next, View.freedAfter, View.objsAfter, View.tableAfter, Local.next, hin]
    rw [hnext]
    exact hobjects.freeEvent h.shared hcur hr hst hc

theorem Inv.close {evs : EvSource} (h : Inv timers w l p) (hok : (p t).view.Ok (.close fd))
    (ha : (p t).view.Abides (.close fd) () = true) :
    Inv timers (w.setFd fd .closed) l (update p t
      ⟨(p t).view.next evs (.close fd) (), (p t).batch⟩) := by
  have own (hfd : fd ∈ (p t).view.fds)
      (hclose : (p t).view.toLocal.close fd =
        { (p t).view.toLocal with fds := (p t).view.fds.filter (· ≠ fd) }) :
      Inv timers (w.setFd fd .closed) l (update p t
        ⟨(p t).view.next evs (.close fd) (), (p t).batch⟩) := by
    have hnext : (p t).view.next evs (.close fd) () =
        { (p t).view with fds := (p t).view.fds.filter (· ≠ fd) } := by
      simp [View.next, View.freedAfter, View.objsAfter, View.tableAfter, Local.next, hclose]
    rw [hnext]
    exact h.closeOwn hfd
  rcases hok with ⟨hfd, hother⟩ | ⟨hr, ev, hcur, rfl⟩
  · exact own hfd (close_own hother)
  · by_cases hc : (p t).view.closed = true
    · have hfd : ev.fd ∈ (p t).view.fds := by simpa [Local.Abides, hc] using ha
      exact own hfd (close_own fun hopen => by simp [hc] at hopen)
    · have hopen : (p t).view.closed = false := by simpa using hc
      have hone : ev.src.oneshot = true := by
        simpa [Local.Abides, hopen, hcur] using ha
      have hnext : (p t).view.next evs (.close ev.fd) () = { (p t).view with closed := true } := by
        simp [View.next, View.freedAfter, View.objsAfter, View.tableAfter, Local.next, Local.close,
          hopen, hcur]
      rw [hnext]
      exact h.closeEvent hcur hr hopen hone

/-- An operation that a thread may perform, with its reply, surprises neither it
nor the others. -/
theorem Inv.op (h : Inv timers w l p) {o : Op} {r : o.Rep} (hok : (p t).view.Ok o)
    (ha : (p t).view.Abides o r = true) (hw : w.next o r = some w') :
    ∃ l' evs, (p t).view.Sees o r ∧
      Inv timers w' l' (update p t ⟨(p t).view.next evs o r, (p t).batch⟩) := by
  have hsees := h.shared.sees (t := t) hw
  by_cases hq : o.still r = true
  · exact ⟨l, {}, hsees, h.quiet hq hw⟩
  · cases o with
    | setEvsourceRx fd f =>
      cases hw
      refine ⟨l, {}, hsees, h.setSlot (fun evs => { evs with rxfxn := f }) (fun _ => rfl) hok ?_⟩
      simpa [Local.Abides] using ha
    | setEvsourceTx fd f =>
      cases hw
      refine ⟨l, {}, hsees, h.setSlot (fun evs => { evs with txfxn := f }) (fun _ => rfl) hok ?_⟩
      simpa [Local.Abides] using ha
    | setEvsourceState fd st =>
      cases hw
      exact ⟨l, {}, hsees, h.setState hok st⟩
    | epollCtl op fd e =>
      cases r with
      | false => exact absurd rfl hq
      | true =>
        cases op with
        | add =>
          obtain ⟨hfd, hty, hst⟩ := hok
          obtain ⟨l', hinv⟩ := h.add hfd hty hst hw
          exact ⟨l', {}, hsees, hinv⟩
        | mod =>
          obtain ⟨hfree, hr, ev, hcur, rfl, hone⟩ := hok
          have hopen : (p t).view.closed = false ∧ (p t).view.calling = false := by
            simpa [Local.Abides] using ha
          exact ⟨_, {}, hsees, h.arm hcur hr hopen.1 hfree hone hw⟩
    | close fd =>
      cases hw
      exact ⟨l, {}, hsees, h.close hok ha⟩
    | accept =>
      cases r with
      | none => exact absurd rfl hq
      | some fd => exact ⟨l, w.fdarray fd, hsees, h.open hw⟩
    | timerfdCreate =>
      cases r with
      | none => exact absurd rfl hq
      | some fd => exact ⟨l, w.fdarray fd, hsees, h.open hw⟩
    | malloc =>
      cases r with
      | none => exact absurd rfl hq
      | some c =>
        obtain ⟨hc, rfl⟩ := World.malloc_cases hw
        exact ⟨l, {}, hsees, h.allocate hc⟩
    | free c =>
      obtain ⟨hc, rfl⟩ := World.free_cases hw
      exact ⟨l, {}, hsees, h.free hc hok⟩
    | _ => exact absurd rfl hq

/-! ## Reports -/

theorem Inv.report (h : Inv timers w l p) (t : Nat) {mask : Events}
    (hrep : w.report fd mask = some (w', ev))
    (hfires : ∀ r, w.fds fd = .watched r → r.Fires timers) :
    ∃ l', Inv timers w' l' (update p t ⟨(p t).view, (p t).batch ++ [ev]⟩) := by
  obtain ⟨l', hsrc, hshared⟩ := h.shared.report t hrep hfires
  obtain ⟨r, e, hw, harmed, -, hevsrc, rfl⟩ := report_some hrep
  refine ⟨l', hshared, fun ht => ?_⟩
  have hobjects := h.objects ht
  refine hobjects.keep rfl rfl hsrc rfl ?_ ?_
  · intro ev' c hev' hst
    have hmem : ev' ∈ (p t).alive ∨ ev' = ev := by
      simpa [Party.alive, or_assoc] using hev'
    rcases hmem with hev' | rfl
    · exact hobjects.alive hev' hst
    · rw [hevsrc] at hst
      have hs : r.single timers = true := by simp [Source.single, ht, hst]
      exact hobjects.awaiting hw ((hfires r hw).awaits harmed hs) hst
  · intro d x c hx ha hst
    obtain ⟨y, hy, hyx, hhere, helse⟩ :=
      watched_again hw (by rfl) hx
    by_cases hd : d = fd
    · -- what has been reported does not await it
      cases hhere hd
      obtain ⟨hsome, hone | hno⟩ := ha
      · have hone : r.oneshot = true := hone
        simp [hone] at hsome
      · cases hno
    · cases helse hd
      exact hobjects.awaiting hy ha hst

/-- The events retrieved are reported one after another, each descriptor once. -/
theorem Inv.reports {evs : List (Nat × Events)} (h : Inv timers w l p) (t : Nat)
    {batch : List Event} (hrep : w.reports evs = some (w', batch))
    (hfires : ∀ e ∈ evs, ∀ r, w.fds e.1 = .watched r → r.Fires timers) :
    ∃ l', Inv timers w' l' (update p t ⟨(p t).view, (p t).batch ++ batch⟩) := by
  induction evs generalizing w l p batch with
  | nil =>
    cases hrep
    refine ⟨l, ?_⟩
    simpa using h
  | cons e evs ih =>
    obtain ⟨fd, mask⟩ := e
    simp only [World.reports, Option.ite_none_left_eq_some, Option.bind_eq_some_iff,
      Option.map_eq_some_iff] at hrep
    obtain ⟨hnot, ⟨w1, ev⟩, hone, ⟨w2, rest⟩, hrest, heq⟩ := hrep
    cases heq
    obtain ⟨l1, h1⟩ := h.report t hone fun r hr => hfires _ List.mem_cons_self r hr
    obtain ⟨r, e, -, -, -, -, rfl⟩ := report_some hone
    have hothers : ∀ e' ∈ evs, ∀ x,
        (w.setFd fd (.watched { r with armed := if r.oneshot then none else some e,
                                       reported := true })).fds e'.1 = .watched x →
          x.Fires timers := by
      intro e' he' x hx
      have hne : e'.1 ≠ fd := fun heq => hnot (heq ▸ List.mem_map.mpr ⟨e', he', rfl⟩)
      rw [(setFd_same w fd _ _ hne).1] at hx
      exact hfires e' (List.mem_cons_of_mem _ he') x hx
    obtain ⟨l2, h2⟩ := ih h1 hrest hothers
    refine ⟨l2, ?_⟩
    simpa using h2

end

/-! ## Runs -/

/-- What holds of a system, with what its threads know. -/
structure Leased (timers : Bool) (s : System) (l : Leases) (views : Nat → View) : Prop where
  local_eq : ∀ t, (views t).toLocal = (s.threads t).toLocal
  keeps : ∀ t, wp leasing (s.threads t).prog (fun _ u => u.inside = false) (views t)
  inv : Inv timers s.world l fun t => ⟨views t, (s.threads t).batch⟩

section
variable {timers : Bool} {s s' : System} {l : Leases} {views : Nat → View} {t : Nat}

theorem leased_init (fdarraysize : Nat) :
    Leased timers (.init fdarraysize) ⟨fun _ => ⟨0, false, .client 0⟩, fun _ => none⟩
      fun _ => {} := by
  refine ⟨fun _ => rfl, fun _ => rfl, ⟨⟨?_, ?_, ?_, ?_⟩, fun t => ⟨?_, ?_, ?_, ?_, ?_, ?_⟩, ?_⟩,
    fun _ => ⟨?_, ?_, ?_, ?_, ?_, ?_⟩⟩
  all_goals simp [System.init, Party.pending, Party.active, Party.alive]

theorem Leased.put (h : Leased timers s l views) {w : World} {l' : Leases} {th : Thread}
    {v : View} (hlocal : v.toLocal = th.toLocal)
    (hkeeps : wp leasing th.prog (fun _ u => u.inside = false) v)
    (hinv : Inv timers w l'
      (update (fun t => ⟨views t, (s.threads t).batch⟩) t ⟨v, th.batch⟩)) :
    Leased timers (s.put w t th) l' (update views t v) := by
  have hparty : (fun u => (⟨update views t v u, ((s.put w t th).threads u).batch⟩ : Party)) =
      update (fun t => ⟨views t, (s.threads t).batch⟩) t ⟨v, th.batch⟩ := by
    funext u
    by_cases hu : u = t
    · subst hu
      simp [System.put]
    · simp [System.put, hu]
  refine ⟨?_, ?_, ?_⟩
  · intro u
    by_cases hu : u = t
    · subst hu
      simpa [System.put] using hlocal
    · simpa [System.put, hu] using h.local_eq u
  · intro u
    by_cases hu : u = t
    · subst hu
      simpa [System.put] using hkeeps
    · simpa [System.put, hu] using h.keeps u
  · rw [hparty]
    exact hinv

/-- A thread without a program is in no handler. -/
theorem Leased.outside (h : Leased timers s l views) (hidle : (s.threads t).idle = true) :
    (s.threads t).prog = .ret () ∧ (views t).inside = false := by
  have hkeeps := h.keeps t
  unfold Thread.idle at hidle
  cases hprog : (s.threads t).prog with
  | ret a =>
    rw [hprog] at hkeeps
    exact ⟨rfl, hkeeps⟩
  | call o k => simp [hprog] at hidle
  | cut => simp [hprog] at hidle

theorem Leased.openFd (h : Leased timers s l views) {fd : Nat}
    (hstep : System.step s (t, .openFd fd) = some s') : ∃ l' views', Leased timers s' l' views' := by
  simp only [System.step, Option.ite_none_right_eq_some, Option.map_eq_some_iff] at hstep
  obtain ⟨hidle, w, hw, rfl⟩ := hstep
  obtain ⟨hprog, hin⟩ := h.outside hidle
  have hopen := h.inv.open (t := t) hw
  refine ⟨l, _, h.put ?_ ?_ hopen⟩
  · simp [h.local_eq t]
  · rw [hprog]
    exact hin

theorem Leased.dropFd (h : Leased timers s l views) {fd : Nat}
    (hstep : System.step s (t, .dropFd fd) = some s') : ∃ l' views', Leased timers s' l' views' := by
  simp only [System.step, Option.ite_none_right_eq_some, Option.some.injEq] at hstep
  obtain ⟨⟨hidle, hfd⟩, rfl⟩ := hstep
  obtain ⟨hprog, hin⟩ := h.outside hidle
  have hfd : fd ∈ (views t).fds := by
    rw [h.local_eq t]
    exact hfd
  have hclose := h.inv.closeOwn (t := t) hfd
  refine ⟨l, _, h.put ?_ ?_ hclose⟩
  · simp [h.local_eq t]
  · rw [hprog]
    exact hin

theorem Leased.call (h : Leased timers s l views) {c : AddCall}
    (hstep : System.step s (t, .call c) = some s') : ∃ l' views', Leased timers s' l' views' := by
  simp only [System.step, Option.ite_none_right_eq_some, Option.some.injEq] at hstep
  obtain ⟨⟨hidle, hc⟩, rfl⟩ := hstep
  obtain ⟨-, hin⟩ := h.outside hidle
  let v : View := { views t with cur := none }
  have hwork : Work none v :=
    ⟨rfl, hin, fun h => by simp at h, fun h => by simp at h, fun ev he => by cases he⟩
  have hc : c.fd.all (fun fd => fd < 0 ∨ unsigned fd ∈ v.fds) = true := by
    simpa [v, h.local_eq t] using hc
  refine ⟨l, _, h.put (v := v) ?_ ?_ (h.inv.same_objects (h.inv.shared.turn rfl ?_ ?_ ?_ ?_) rfl rfl
    rfl rfl ?_ ?_)⟩
  · simp [v, h.local_eq t]
  · show wp leasing (do let _ ← c.prog) _ v
    rw [wp_do]
    refine wp_mono ?_ (works_call hwork c hc)
    intro r u hu
    exact hu.inside
  · exact fun _ _ => rfl
  · have hpend : (⟨v, (s.threads t).batch⟩ : Party).pending = (s.threads t).batch := by
      simp [Party.pending, v]
    rw [hpend]
    exact List.sublist_append_right _ _
  · have hactive : (⟨v, (s.threads t).batch⟩ : Party).active = (s.threads t).batch := by
      simp [Party.active, v]
    rw [hactive]
    exact List.subset_append_right _ _
  · intro ev he
    cases he
  · have halive : (⟨v, (s.threads t).batch⟩ : Party).alive = (s.threads t).batch := by
      simp [Party.alive, v]
    rw [halive]
    exact List.subset_append_right _ _
  · exact fun _ _ hw => hw

theorem Leased.retrieve (h : Leased timers s l views) {evs : List (Nat × Events)}
    (hfires : timers = true → s.FiresOnce (t, .retrieve evs))
    (hstep : System.step s (t, .retrieve evs) = some s') :
    ∃ l' views', Leased timers s' l' views' := by
  simp only [System.step, Option.ite_none_right_eq_some, Option.map_eq_some_iff] at hstep
  obtain ⟨⟨hidle, hbatch⟩, ⟨w, batch⟩, hw, rfl⟩ := hstep
  have fires : ∀ e ∈ evs, ∀ r, s.world.fds e.1 = .watched r → r.Fires timers := by
    intro e he r hr ht
    have hone := List.all_eq_true.mp (hfires ht) e he
    simp only [hr, decide_eq_true_eq] at hone
    rcases hone with hone | hone | hone
    · exact .inl hone
    · cases hst : r.state with
      | client k => exact .inr (.inl ⟨k, rfl⟩)
      | object c => simp [hst] at hone
    · exact .inr (.inr (by simpa using hone))
  obtain ⟨l', hinv⟩ := h.inv.reports t hw fires
  rw [hbatch, List.nil_append] at hinv
  exact ⟨l', _, h.put (h.local_eq t) (h.keeps t) hinv⟩

theorem Leased.begin (h : Leased timers s l views) {n : Nat}
    (hstep : System.step s (t, .begin n) = some s') : ∃ l' views', Leased timers s' l' views' := by
  simp only [System.step] at hstep
  split at hstep
  · rename_i ev batch hbatch
    simp only [Option.ite_none_right_eq_some, Option.some.injEq] at hstep
    obtain ⟨hidle, rfl⟩ := hstep
    obtain ⟨-, hin⟩ := h.outside hidle
    have ht := h.inv.shared.holds t
    have hev : ev ∈ (⟨views t, (s.threads t).batch⟩ : Party).active :=
      Party.mem_active_batch (by simp [hbatch])
    obtain ⟨r, hr, hsrc⟩ := ht.watched ev hev
    obtain ⟨-, -, hty, hst⟩ := h.inv.shared.registry.registered hr
    have hout : ev.fd ∉ (views t).fds := by
      intro hown
      rw [(ht.own ev.fd hown).1] at hr
      cases hr
    let v : View := { views t with
      cur := some ev, closed := false, rearmed := false, freed := false,
      table := update (views t).table ev.fd (s.world.fdarray ev.fd) }
    have hfresh : Fresh ev v := by
      refine ⟨rfl, hin, rfl, rfl, rfl, ?_, ?_, hout⟩
      · simpa [v, ← hsrc] using hty
      · simpa [v, ← hsrc] using hst
    have hpend : (⟨v, batch⟩ : Party).pending = ev :: batch := rfl
    have hactive : (⟨v, batch⟩ : Party).active = ev :: batch := by simp [Party.active, v]
    have halive : (⟨v, batch⟩ : Party).alive = ev :: batch := by simp [Party.alive, v]
    refine ⟨l, _, h.put (v := v) ?_ (leaves_handleEvent hfresh) (h.inv.same_objects
      (h.inv.shared.turn rfl ?_ ?_ ?_ ?_) rfl rfl rfl rfl ?_ ?_)⟩
    · simp [v, h.local_eq t]
    · intro fd hfd
      have hne : fd ≠ ev.fd := fun heq => hout (heq ▸ hfd)
      simp [v, hne]
    · rw [hpend, ← hbatch]
      exact List.sublist_append_right _ _
    · rw [hactive, ← hbatch]
      exact List.subset_append_right _ _
    · intro ev' he _ _
      cases he
      simp [v]
    · rw [halive, ← hbatch]
      exact List.subset_append_right _ _
    · exact fun _ _ hw => hw
  · cases hstep

theorem Leased.op (h : Leased timers s l views) {reply : (o : Op) → o.Rep}
    (habides : s.Abides (t, .op reply)) (hstep : System.step s (t, .op reply) = some s') :
    ∃ l' views', Leased timers s' l' views' := by
  simp only [System.step] at hstep
  split at hstep
  · rename_i o k hprog
    simp only [Option.map_eq_some_iff] at hstep
    obtain ⟨w, hw, rfl⟩ := hstep
    have hkeeps := h.keeps t
    rw [hprog] at hkeeps
    obtain ⟨⟨hok, -⟩, hnext⟩ := hkeeps
    have ha : (views t).Abides o (reply o) = true := by
      simp only [System.Abides, hprog] at habides
      rwa [h.local_eq t]
    obtain ⟨l', evs, hsees, hinv⟩ := h.inv.op (t := t) hok ha hw
    refine ⟨l', _, h.put (v := (views t).next evs o (reply o)) ?_ ?_ hinv⟩
    · rw [← h.local_eq t]
      rfl
    · exact hnext _ _ ⟨ha, hsees, evs, rfl⟩
  · cases hstep

theorem Leased.step (h : Leased timers s l views) {a : Nat × Act} (habides : s.Abides a)
    (hfires : timers = true → s.FiresOnce a) (hstep : System.step s a = some s') :
    ∃ l' views', Leased timers s' l' views' := by
  obtain ⟨t, a⟩ := a
  cases a with
  | openFd fd => exact h.openFd hstep
  | dropFd fd => exact h.dropFd hstep
  | call c => exact h.call hstep
  | retrieve evs => exact h.retrieve hfires hstep
  | begin n => exact h.begin hstep
  | op reply => exact h.op habides hstep

/-- What a thread promises of a callback that it enters, and what others leave
alone, make it one of a live registration. -/
theorem Leased.liveCallbacks (h : Leased true s l views) : s.LiveCallbacks := by
  intro t f fd st hop
  have hkeeps := h.keeps t
  cases hprog : (s.threads t).prog with
  | ret a => simp [hprog, Prog.op] at hop
  | cut => simp [hprog, Prog.op] at hop
  | call o k =>
    obtain rfl : o = .enter f fd st := by simpa [hprog, Prog.op] using hop
    rw [hprog] at hkeeps
    obtain ⟨⟨⟨hopen, hfree, hr, ev, hcur, rfl, rfl, hf⟩, -⟩, -⟩ := hkeeps
    have ht := h.inv.shared.holds t
    obtain ⟨r, hw, hsrc⟩ := ht.watched ev (Party.mem_active hcur hr hopen)
    have hentry : (views t).table ev.fd = s.world.fdarray ev.fd := ht.entry ev hcur hr hopen
    refine ⟨ev, r, ?_, rfl, rfl, hw, hsrc, hentry ▸ hf, ?_⟩
    · rw [← h.local_eq t]
      exact hcur
    · exact fun c => (h.inv.objects rfl).alive (Party.mem_alive hcur hr hfree)

/-- Who is in a callback has not armed its descriptor, since only leaving it
follows that. -/
theorem Leased.pending_of_busy (h : Leased timers s l views) {ev : Event}
    (hbusy : (s.threads t).busy = some ev) :
    ev ∈ (⟨views t, (s.threads t).batch⟩ : Party).pending := by
  simp only [Thread.busy, Option.ite_none_right_eq_some] at hbusy
  obtain ⟨⟨hin, hop⟩, hcur⟩ := hbusy
  rw [← h.local_eq t] at hin hcur
  have hkeeps := h.keeps t
  have hr : (views t).rearmed = false := by
    by_contra hr
    have hr : (views t).rearmed = true := by simpa using hr
    cases hprog : (s.threads t).prog with
    | ret a =>
      rw [hprog] at hkeeps
      exact absurd (hkeeps.symm.trans hin) (by decide)
    | cut =>
      rw [hprog] at hkeeps
      exact absurd ((hkeeps hr).symm.trans hin) (by decide)
    | call o k =>
      rw [hprog] at hkeeps hop
      exact hop (congrArg some (hkeeps.1.2 hr hin))
  exact Party.mem_pending hcur hr

theorem Leased.exclusive (h : Leased timers s l views) : s.Exclusive := by
  intro t u ev ev' htu hbusy hbusy' hid
  have hpend := h.pending_of_busy hbusy
  have hpend' := h.pending_of_busy hbusy'
  have hsrc : ev.src = ev'.src := by
    rw [← ((h.inv.shared.holds t).known ev hpend).1, hid,
      ((h.inv.shared.holds u).known ev' hpend').1]
  by_contra hone
  have hone : ev.src.oneshot = true := by simpa using hone
  have ht := (h.inv.shared.holds t).leased ev hpend (single_of_oneshot hone)
  have hu := (h.inv.shared.holds u).leased ev' hpend' (single_of_oneshot (hsrc ▸ hone))
  rw [hid, hu] at ht
  exact htu (Option.some.inj ht).symm

end

namespace System

/-- A run in which each operation of a program finds what is there, or gets the
result listed. -/
def played : System → List (Nat × (Act ⊕ Option Answer)) → List (Nat × Act)
  | _, [] => []
  | s, (t, x) :: xs =>
    let a := (t, x.elim id fun answer => .op (s.world.loads.reply answer))
    a :: match s.step a with
      | some s => s.played xs
      | none => []

instance : ∀ s a, Decidable (Abides s a)
  | s, (t, .op reply) => by
    unfold Abides
    dsimp only
    split <;> infer_instance
  | _, (_, .openFd _) | _, (_, .dropFd _) | _, (_, .call _) | _, (_, .retrieve _)
  | _, (_, .begin _) => isTrue trivial

instance : ∀ s a, Decidable (FiresOnce s a)
  | _, (_, .retrieve _) => inferInstanceAs (Decidable (_ = true))
  | _, (_, .openFd _) | _, (_, .dropFd _) | _, (_, .call _) | _, (_, .begin _) | _, (_, .op _) =>
    isTrue trivial

/-- Thread 0 registers descriptor 5 with both callbacks, and begins with an event of it. -/
def begins (mask : Events) : List (Nat × (Act ⊕ Option Answer)) :=
  [(0, .inl (.openFd 5)), (0, .inl (.call (.addfd 5 (some 1) (some 2) 0))),
    (0, .inr (some (.ptr (some 0)))), (0, .inr none),
    (0, .inr (some (.page 4 (some ⟨0, [0, 0, 0, 0]⟩))))] ++
  List.replicate 8 (0, .inr none) ++
  [(0, .inr (some (.flag true))), (0, .inl (.retrieve [(5, mask)])), (0, .inl (.begin 3))]

/-- Its read handler cannot read, which is because of `e`. -/
def failsToRead (e : Errno) : List (Nat × (Act ⊕ Option Answer)) :=
  List.replicate 4 (0, .inr none) ++
  [(0, .inr (some (.io (.ret (-1))))), (0, .inr (some (.errno e))), (0, .inr none)]

/-- Thread 1 retrieves an event of it, and enters its handler. -/
def retrieves : List (Nat × (Act ⊕ Option Answer)) :=
  [(1, .inl (.retrieve [(5, EVREAD)])), (1, .inl (.begin 3)), (1, .inr none), (1, .inr none)]

/-- The descriptor is armed after nothing was there to be read, and the next
event goes to another thread. -/
def handedOn : List (Nat × Act) :=
  played (.init 1024) (begins EVREAD ++ failsToRead .eagain ++
    [(0, .inr (some (.flag true))), (0, .inr none)] ++ retrieves)

/-- Any number of threads, in the runs whose handlers are done with a descriptor
once they have closed or armed it, and whose timers fire once: every callback is
called for the registration that its event was reported for, which has not been
closed, and whose state has not been freed. -/
theorem always_liveCallbacks (fdarraysize : Nat) (acts : List (Nat × Act))
    (h : Meets step (fun s a => s.Abides a ∧ s.FiresOnce a) (.init fdarraysize) acts) :
    Always step LiveCallbacks (.init fdarraysize) acts := by
  refine Always.mono (P := fun s => ∃ l views, Leased true s l views) ?_ ?_
  · rintro s ⟨l, views, hs⟩
    exact hs.liveCallbacks
  · refine always_of_meets ?_ ⟨_, _, leased_init fdarraysize⟩ h
    rintro s a s' ⟨l, views, hs⟩ ⟨habides, hfires⟩ hstep
    exact hs.step habides (fun _ => hfires) hstep

theorem always_liveCallbacks_handedOn : Always step LiveCallbacks (.init 1024) handedOn :=
  always_liveCallbacks 1024 handedOn (by decide +kernel)

/-- A read error closes the descriptor, and the write callback of the same event
is called after that. -/
theorem not_always_liveCallbacks :
    ¬ ∀ (fdarraysize : Nat) (acts : List (Nat × Act)),
      Always step LiveCallbacks (.init fdarraysize) acts := by
  let acts := played (.init 1024) (begins (EVREAD ||| EVWRITE) ++ failsToRead (.other 5) ++
    [(0, .inr none), (0, .inr none)])
  have hrun : (exec step (.init 1024) acts).any (fun s =>
      (s.threads 0).prog.op = some (.enter .bufferedTxfxn 5 (.object 0)) ∧
        s.world.fds 5 = .closed) = true := by
    decide +kernel
  intro h
  obtain ⟨s, hs, hat⟩ := (Option.any_eq_true _ _).mp hrun
  obtain ⟨hop, hclosed⟩ := of_decide_eq_true hat
  obtain ⟨ev, r, -, -, -, hr, -⟩ := (h 1024 acts).last hs 0 _ _ _ hop
  rw [hclosed] at hr
  cases hr

/-- Any number of threads, in the runs whose handlers are done with a descriptor
once they have closed or armed it: no two are in handlers or callbacks of one
registration, if it is for one event at a time. -/
theorem always_exclusive (fdarraysize : Nat) (acts : List (Nat × Act))
    (h : Meets step Abides (.init fdarraysize) acts) :
    Always step Exclusive (.init fdarraysize) acts := by
  refine Always.mono (P := fun s => ∃ l views, Leased false s l views) ?_ ?_
  · rintro s ⟨l, views, hs⟩
    exact hs.exclusive
  · refine always_of_meets ?_ ⟨_, _, leased_init fdarraysize⟩ h
    rintro s a s' ⟨l, views, hs⟩ habides hstep
    exact hs.step habides (fun hno => by cases hno) hstep

theorem always_exclusive_handedOn : Always step Exclusive (.init 1024) handedOn :=
  always_exclusive 1024 handedOn (by decide +kernel)

/-- The read handler arms the descriptor, and its thread goes on to the write
callback of the same event while another thread handles the next one. -/
theorem not_always_exclusive :
    ¬ ∀ (fdarraysize : Nat) (acts : List (Nat × Act)),
      Always step Exclusive (.init fdarraysize) acts := by
  let acts := played (.init 1024) (begins (EVREAD ||| EVWRITE) ++ failsToRead .eagain ++
    [(0, .inr (some (.flag true))), (0, .inr none), (0, .inr none), (0, .inr none)] ++ retrieves)
  let src : Source := { id := 0, oneshot := true, state := .object 0 }
  have hrun : (exec step (.init 1024) acts).any (fun s =>
      (s.threads 0).busy = some ⟨5, EVREAD ||| EVWRITE, src⟩ ∧
        (s.threads 1).busy = some ⟨5, EVREAD, src⟩) = true := by
    decide +kernel
  intro h
  obtain ⟨s, hs, hat⟩ := (Option.any_eq_true _ _).mp hrun
  obtain ⟨hbusy, hbusy'⟩ := of_decide_eq_true hat
  have hno := (h 1024 acts).last hs 0 1 _ _ (by decide) hbusy hbusy' rfl
  cases hno

end System

end Libtorque
