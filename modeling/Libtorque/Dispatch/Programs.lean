import Libtorque.Dispatch.Lease

/-! # Every program of a thread keeps to its lease

What a thread opens and allocates is its own until it is registered; a handler
has the entry, the state and the descriptor of its event. From a fresh event, or
with none, every program of the library does only what it may. -/
namespace Libtorque
open Lib

/-! ## What a thread owns -/

section Registration
variable {o : Option Event} {v : View} {n c : Nat}
open Function (update)

theorem Work.settled (h : Work o v) {fd : Nat} (hfd : fd ∈ v.fds) (evs : EvSource) :
    Work o { v with table := update v.table fd evs } := by
  refine ⟨h.cur, h.inside, h.rearmed, h.freed, ?_⟩
  intro ev he hopen
  obtain ⟨hty, hs, hout⟩ := h.entry ev he hopen
  have hne : ev.fd ≠ fd := fun heq => hout (heq ▸ hfd)
  refine ⟨?_, ?_, hout⟩ <;> simpa only [Function.update_of_ne hne]

theorem Work.less (h : Work o v) {fds : List Nat} (hfds : fds ⊆ v.fds) (objs : List Nat) :
    Work o { v with fds := fds, objs := objs } := by
  refine ⟨h.cur, h.inside, h.rearmed, h.freed, ?_⟩
  intro ev he hopen
  obtain ⟨hty, hs, hout⟩ := h.entry ev he hopen
  exact ⟨hty, hs, fun hin => hout (hfds hin)⟩

theorem Work.opened (h : Work o v) {fd : Nat} (evs : EvSource)
    (hfd : v.closed = false → ¬ v.At fun ev => ev.fd = fd) :
    Work o { v with fds := fd :: v.fds, table := update v.table fd evs } := by
  refine ⟨h.cur, h.inside, h.rearmed, h.freed, ?_⟩
  intro ev he hopen
  obtain ⟨hty, hs, hout⟩ := h.entry ev he hopen
  have hne : ev.fd ≠ fd := by
    intro heq
    subst he
    exact hfd hopen (h.at heq)
  refine ⟨?_, ?_, ?_⟩
  · simpa only [Function.update_of_ne hne]
  · simpa only [Function.update_of_ne hne]
  · simpa [hne] using hout

theorem wp_allocates {Q : Option Nat → View → Prop} (h : Work o v) (hno : Q none v)
    (hyes : ∀ c u, Work o u → u.fds = v.fds → c ∈ u.objs → Q (some c) u) :
    wp leasing malloc Q v := by
  refine wp_op ⟨trivial, h.order⟩ ?_
  rintro r u ⟨-, -, evs, rfl⟩
  cases r with
  | none => exact hno
  | some c => exact hyes c _ (h.less (List.Subset.refl _) _) rfl List.mem_cons_self

theorem wp_freesOwn {Q : Unit → View → Prop} (h : Work o v) (hc : c ∈ v.objs)
    (hQ : ∀ u, Work o u → u.fds = v.fds → Q () u) : wp leasing (free c) Q v := by
  refine wp_op ⟨.inl hc, h.order⟩ ?_
  rintro _ u ⟨-, -, evs, rfl⟩
  refine hQ _ ⟨h.cur, h.inside, h.rearmed, ?_, h.entry⟩ rfl
  intro ho
  simpa [View.next, View.freedAfter, hc] using h.freed ho

theorem close_own {l : Local} {fd : Nat}
    (h : l.closed = false → l.cur.all (fun ev => ev.fd ≠ fd) = true) :
    l.close fd = { l with fds := l.fds.filter (· ≠ fd) } := by
  refine if_neg ?_
  rintro ⟨hcur, hopen⟩
  obtain ⟨ev, he, hev⟩ := (Option.any_eq_true _ _).mp hcur
  have hne := (Option.all_eq_true _ _).mp (h (by simpa using hopen)) ev he
  exact of_decide_eq_true hne (of_decide_eq_true hev)

theorem wp_closesOwn {fd : Nat} {Q : Unit → View → Prop} (h : Work o v) (hfd : fd ∈ v.fds)
    (hQ : ∀ u, Work o u → u.objs = v.objs → Q () u) : wp leasing (close fd) Q v := by
  have hother : v.closed = false → v.cur.all (fun ev => ev.fd ≠ fd) = true := by
    intro hopen
    rw [h.cur, Option.all_eq_true]
    intro ev he
    have hout := (h.entry ev he hopen).2.2
    exact decide_eq_true fun heq => hout (heq ▸ hfd)
  refine wp_op ⟨.inl ⟨hfd, hother⟩, h.order⟩ ?_
  rintro _ u ⟨-, -, evs, rfl⟩
  have hclose := close_own hother
  have hless := h.less (List.filter_sublist (p := fun x => x ≠ fd)).subset v.objs
  refine hQ _ ?_ rfl
  refine ⟨?_, ?_, ?_, h.freed, ?_⟩
  · simpa [View.next, Local.next, hclose] using hless.cur
  · simpa [View.next, Local.next, hclose] using hless.inside
  · simpa [View.next, Local.next, hclose] using hless.rearmed
  · simpa [View.next, Local.next, hclose, View.tableAfter] using hless.entry

/-- The mask that a descriptor is added with is one-shot just in case it is to be. -/
theorem wp_addsFdEvent {fd : Nat} {rx tx : Option Fn} {flags : Events} {Q : Int → View → Prop}
    (h : Work o v) (hfd : fd ∈ v.fds) (hflags : flags = EVONESHOT ∨ flags = 0)
    (hty : Typed (flags.has EPOLLONESHOT) (v.table fd))
    (hst : ∀ c, (v.table fd).cbstate = .object c → c ∈ v.objs) (hok : ∀ u, Work o u → Q 0 u)
    (hno : Q (-1) v) : wp leasing (addFdEvent fd rx tx flags) Q v := by
  have adds (e : Events) (he : e.has EPOLLONESHOT = flags.has EPOLLONESHOT) :
      wp leasing (do if ← epollCtl .add fd e then pure 0 else pure (-1)) Q v := by
    rw [wp_do]
    refine wp_op ⟨⟨hfd, he ▸ hty, hst⟩, h.order⟩ ?_
    rintro ok u ⟨-, -, evs, rfl⟩
    cases ok with
    | false => exact hno
    | true => exact hok _ (h.less List.filter_sublist.subset _)
  unfold addFdEvent
  dsimp only
  rcases hflags with rfl | rfl
  · rw [if_neg (by decide)]
    refine adds _ ?_
    generalize rx.isSome = b, tx.isSome = b'
    revert b b'
    decide
  · rw [if_neg (by decide)]
    refine adds _ ?_
    generalize rx.isSome = b, tx.isSome = b'
    revert b b'
    decide

theorem wp_setsUp {fd : Nat} {rx tx : Option Fn} {st : CbState} {Q : Unit → View → Prop}
    (h : Work o v) (hfd : fd ∈ v.fds)
    (hQ : ∀ u, Work o u → u.fds = v.fds → u.objs = v.objs → u.table fd = ⟨rx, tx, st⟩ → Q () u) :
    wp leasing (setupEvsource fd rx tx st) Q v := by
  unfold setupEvsource setEvsourceRx setEvsourceTx
  rw [wp_do]
  refine wp_op ⟨.inl hfd, h.order⟩ ?_
  rintro _ v1 ⟨-, -, _, rfl⟩
  have h1 := h.settled hfd { v.table fd with rxfxn := rx }
  rw [wp_do]
  refine wp_op ⟨.inl hfd, h1.order⟩ ?_
  rintro _ v2 ⟨-, -, _, rfl⟩
  have h2 := h1.settled hfd { rxfxn := rx, txfxn := tx, cbstate := (v.table fd).cbstate }
  refine wp_op ⟨hfd, h.order⟩ ?_
  rintro _ v3 ⟨-, -, _, rfl⟩
  have h3 := h2.settled hfd ⟨rx, tx, st⟩
  refine hQ _ ?_ rfl rfl ?_
  · simpa [View.next, View.tableAfter, View.freedAfter, View.objsAfter, Local.next] using h3
  · simp [View.next, View.tableAfter]

theorem wp_registersFd {fd : Int} {rx tx : Option Fn} {st : CbState} {flags : Events}
    {Q : Int → View → Prop} (h : Work o v) (hfd : unsigned fd ∈ v.fds)
    (hflags : flags = EVONESHOT ∨ flags = 0) (hty : Typed (flags.has EPOLLONESHOT) ⟨rx, tx, st⟩)
    (hst : ∀ c, st = .object c → c ∈ v.objs) (hok : ∀ u, Work o u → Q 0 u)
    (hno : ∀ u, Work o u → u.fds = v.fds → u.objs = v.objs → Q (-1) u) :
    wp leasing (addFdToEvhandler fd rx tx st flags) Q v := by
  unfold addFdToEvhandler
  rw [wp_do]
  refine wp_inert h rfl ?_
  intro size
  split
  · exact hno v h rfl rfl
  · rw [wp_do]
    refine wp_setsUp h hfd ?_
    intro u hu hfds hobjs htable
    rw [wp_do]
    refine wp_addsFdEvent hu (hfds ▸ hfd) hflags (htable ▸ hty) ?_ ?_ ?_
    · intro c hc
      rw [htable] at hc
      exact hobjs ▸ hst c hc
    · exact hok
    · exact hno u hu hfds hobjs

/-- A new object that was not registered. -/
theorem wp_unmakes {Q : Unit → View → Prop} (h : Work o v) (hc : c ∈ v.objs)
    (hQ : ∀ u, Work o u → u.fds = v.fds → Q () u) : wp leasing (freeSslCbstate c) Q v :=
  wp_freesSslCbstate h (wp_freesOwn h hc hQ)

/-- A new object, with a buffer of its own. -/
theorem wp_makes (fill : Nat → Prog Unit) {Q : Option Nat → View → Prop} (h : Work o v)
    (hfill : ∀ c, (fill c).Only (fun q => q.inert = true))
    (hno : ∀ u, Work o u → u.fds = v.fds → Q none u)
    (hyes : ∀ c u, Work o u → u.fds = v.fds → c ∈ u.objs → Q (some c) u) :
    wp leasing (do
      match ← malloc with
      | none => pure none
      | some c =>
        let r ← initializeRxbuffer c
        if r = 0 then
          fill c
          pure (some c)
        else
          free c
          pure none) Q v := by
  rw [wp_do]
  refine wp_allocates h (hno v h rfl) ?_
  intro c u hu hfds hc
  dsimp only
  rw [wp_do]
  refine wp_allInert hu does_initializeRxbuffer ?_
  intro r
  split
  · rw [wp_do]
    exact wp_allInert hu (hfill c) fun _ => hyes c u hu hfds hc
  · rw [wp_do]
    refine wp_freesOwn hu hc ?_
    intro t ht htfds
    exact hno t ht (htfds.trans hfds)

theorem wp_createsSslCbstate {ctx st : Nat} {rx tx : Option Nat} {Q : Option Nat → View → Prop}
    (h : Work o v) (hno : ∀ u, Work o u → u.fds = v.fds → Q none u)
    (hyes : ∀ c u, Work o u → u.fds = v.fds → c ∈ u.objs → Q (some c) u) :
    wp leasing (createSslCbstate ctx st rx tx) Q v :=
  wp_makes (fun c => setFields c
    { sslctx := ctx, ssl := none, cbstate := st, rxfxn := rx, txfxn := tx }) h
    (fun _ => only_perform rfl) hno hyes

theorem wp_createsRxbuffercb {st : Nat} {rx tx : Option Nat} {Q : Option Nat → View → Prop}
    (h : Work o v) (hno : ∀ u, Work o u → u.fds = v.fds → Q none u)
    (hyes : ∀ c u, Work o u → u.fds = v.fds → c ∈ u.objs → Q (some c) u) :
    wp leasing (createRxbuffercb rx tx st) Q v :=
  wp_makes (fun c => do
    let rxb ← rxbuf c
    setRxbuf c { rxb with rx := rx, tx := tx }
    setFields c { cbstate := st }) h
    (fun _ => only_do (only_perform rfl) fun _ => only_do (only_perform rfl) fun _ =>
      only_perform rfl) hno hyes

theorem wp_addsFdUnbuffered {fd : Int} {rx tx : Option Fn} {st : CbState}
    {Q : Int → View → Prop} (h : Work o v) (hfd : 0 ≤ fd → unsigned fd ∈ v.fds)
    (hty : Typed true ⟨rx, tx, st⟩) (hst : ∀ c, st = .object c → c ∈ v.objs)
    (hok : ∀ u, Work o u → Q 0 u)
    (hno : ∀ r u, r ≠ 0 → Work o u → u.fds = v.fds → u.objs = v.objs → Q r u) :
    wp leasing (torqueAddfdUnbuffered fd rx tx st) Q v := by
  unfold torqueAddfdUnbuffered
  split
  · exact hno _ v (by decide) h rfl rfl
  · rename_i hneg
    refine wp_registersFd h (hfd (by omega)) (.inl rfl) ?_ hst hok ?_
    · exact hty
    · exact fun u => hno (-1) u (by decide)

end Registration

/-! ## Accepting -/

section Accepting
variable {o : Option Event} {ev : Event} {v : View} {n c sd : Nat}

theorem unsigned_natCast (h : sd < 2 ^ 31) : unsigned sd = sd := by
  unfold unsigned
  omega

theorem typed_oneshot {rx tx : Option Fn} {st : CbState} (hrc : rx ≠ some .connUnbufferedTxfxn)
    (hrt : rx ≠ some .timerPassthru) (htt : tx ≠ some .timerPassthru) : Typed true ⟨rx, tx, st⟩ :=
  ⟨hrc, htt, fun h => absurd h hrt, fun h => absurd h (by simp)⟩

/-- The connection is registered, or still to be closed. -/
def Taken (o : Option Event) (sd : Nat) (r : Int) (v : View) : Prop :=
  Work o v ∧ (r ≠ 0 → sd ∈ v.fds)

theorem taken_unmade (h : Work o v) (hsd : sd ∈ v.fds) (hc : c ∈ v.objs) :
    wp leasing (do freeSslCbstate c; pure (-1)) (Taken o sd) v := by
  rw [wp_do]
  refine wp_unmakes h hc ?_
  intro u hu hfds
  exact ⟨hu, fun _ => hfds ▸ hsd⟩

theorem taken_sslRegister {rx tx : Option Fn} (h : Work o v) (hsd : sd ∈ v.fds) (hlt : sd < 2 ^ 31)
    (hc : c ∈ v.objs) (hty : Typed true ⟨rx, tx, .object c⟩) :
    wp leasing (sslRegister sd c rx tx) (Taken o sd) v := by
  unfold sslRegister
  rw [wp_do]
  refine wp_addsFdUnbuffered h ?_ hty ?_ ?_ ?_
  · intro _
    rwa [unsigned_natCast hlt]
  · rintro _ ⟨⟩
    exact hc
  · intro u hu
    exact ⟨hu, fun h => absurd rfl h⟩
  · intro r u hr hu hfds hobjs
    rw [if_pos hr]
    exact taken_unmade hu (hfds ▸ hsd) (hobjs ▸ hc)

theorem taken_sslHandshake {ssl : Option Nat} {sc : CbFields} (h : Work o v) (hsd : sd ∈ v.fds)
    (hlt : sd < 2 ^ 31) (hc : c ∈ v.objs) :
    wp leasing (sslHandshake sd c ssl sc) (Taken o sd) v := by
  unfold sslHandshake
  rw [wp_do]
  refine wp_inert h rfl ?_
  intro ret
  split
  · obtain ⟨hrc, hrt, htt⟩ := sslSlots_untimed sc
    dsimp only
    rw [wp_do]
    refine wp_allInert h does_initializeRxbuffer ?_
    intro r
    split
    · exact taken_unmade h hsd hc
    · exact taken_sslRegister h hsd hlt hc (typed_oneshot hrc hrt htt)
  · rw [wp_do]
    refine wp_inert h rfl ?_
    intro err
    cases err with
    | wantWrite =>
      exact taken_sslRegister h hsd hlt hc (typed_oneshot (by simp) (by simp) (by simp))
    | wantRead =>
      exact taken_sslRegister h hsd hlt hc (typed_oneshot (by simp) (by simp) (by simp))
    | other _ => exact taken_unmade h hsd hc

theorem taken_sslAcceptInternal {sc : CbFields} (h : Work o v) (hsd : sd ∈ v.fds)
    (hlt : sd < 2 ^ 31) : wp leasing (sslAcceptInternal sd sc) (Taken o sd) v := by
  unfold sslAcceptInternal
  rw [wp_do]
  refine wp_createsSslCbstate h ?_ ?_
  · intro u hu hfds
    exact ⟨hu, fun _ => hfds ▸ hsd⟩
  · intro c u hu hfds hc
    have husd : sd ∈ u.fds := hfds ▸ hsd
    dsimp only
    rw [wp_do]
    refine wp_inert hu rfl ?_
    intro ssl
    cases ssl with
    | none => exact taken_unmade hu husd hc
    | some ssl =>
      dsimp only
      rw [wp_do]
      refine wp_inert hu rfl ?_
      intro f
      rw [wp_do]
      refine wp_inert hu rfl ?_
      intro _
      rw [wp_do]
      refine wp_inert hu rfl ?_
      intro r
      split
      · exact taken_unmade hu husd hc
      · exact taken_sslHandshake hu husd hlt hc

/-- A connection is new; without one the listening descriptor has been armed. -/
def Accepted (ev : Event) (sd : Option Nat) (v : View) : Prop :=
  match sd with
  | some sd => Work (some ev) v ∧ sd ∈ v.fds ∧ sd < 2 ^ 31
  | none => Spent ev v

theorem accepted_acceptOne (h : Work (some ev) v) (hone : ev.src.oneshot = true) :
    wp leasing (acceptOne n ev.fd) (Accepted ev) v := by
  unfold acceptOne
  refine wp_loop (fun _ => Work (some ev)) (fun _ _ hu => hu.cut) ?_ n h
  intro _ v h
  rw [wp_do]
  refine wp_op ⟨trivial, h.order⟩ ?_
  rintro r u ⟨-, hsees, evs, rfl⟩
  cases r with
  | some sd =>
    obtain ⟨-, hlt, hnew⟩ := hsees
    exact ⟨h.opened evs hnew, List.mem_cons_self, hlt⟩
  | none =>
    dsimp only
    rw [wp_do]
    refine wp_inert h rfl ?_
    intro e
    split
    · rw [wp_do]
      refine wp_restores h hone ?_ h.spent
      intro _ t hcur hr
      exact Spent.of_rearmed hcur hr
    · exact h

theorem spent_sslAcceptRxfxn (h : Work (some ev) v) (hone : ev.src.oneshot = true) :
    wp leasing (sslAcceptRxfxn n ev.fd c) (fun _ u => Spent ev u) v := by
  have gives_up (sd : Nat) (u : View) (hu : Work (some ev) u) (hsd : sd ∈ u.fds) :
      wp leasing (do close sd; pure (.inl ()) : Prog (Unit ⊕ Unit))
        (fun x t => x.elim (fun _ => Work (some ev) t) (fun _ => Spent ev t)) u := by
    rw [wp_do]
    exact wp_closesOwn hu hsd fun t ht _ => ht
  unfold sslAcceptRxfxn
  refine wp_loop (fun _ => Work (some ev)) (fun _ _ hu => hu.cut) ?_ n h
  intro _ v h
  rw [wp_do]
  refine wp_mono ?_ (accepted_acceptOne h hone)
  intro sd u hu
  cases sd with
  | none => exact hu
  | some sd =>
    obtain ⟨hu, hsd, hlt⟩ := hu
    dsimp only
    rw [wp_do]
    refine wp_inert hu rfl ?_
    intro ok
    cases ok with
    | false => exact gives_up sd u hu hsd
    | true =>
      rw [if_pos rfl, wp_do]
      refine wp_inert hu rfl ?_
      intro sc
      rw [wp_do]
      refine wp_mono ?_ (taken_sslAcceptInternal hu hsd hlt)
      rintro r t ⟨ht, htsd⟩
      split
      · rename_i hr
        exact gives_up sd t ht (htsd hr)
      · exact ht

end Accepting

/-! ## The calls of the application -/

section Calls
variable {v : View} {fd : Int}

theorem works_torqueAddfdUnbuffered {o : Option Event} {rx tx : Option Fn} {st : CbState}
    (h : Work o v) (hfd : 0 ≤ fd → unsigned fd ∈ v.fds) (hty : Typed true ⟨rx, tx, st⟩)
    (hst : ∀ c, st ≠ .object c) :
    wp leasing (torqueAddfdUnbuffered fd rx tx st) (fun _ u => Work o u) v :=
  wp_addsFdUnbuffered h hfd hty (fun c hc => absurd hc (hst c)) (fun _ hu => hu)
    fun _ _ _ hu _ _ => hu

theorem works_torqueAddfdConcurrent {o : Option Event} {rx tx : Option Nat} {state : Nat}
    (h : Work o v) (hfd : 0 ≤ fd → unsigned fd ∈ v.fds) :
    wp leasing (torqueAddfdConcurrent fd (rx.map .client) (tx.map .client) (.client state))
      (fun _ u => Work o u) v := by
  have hclient (slot : Option Nat) (f : Fn) (hf : slot.map Fn.client = some f) :
      ∃ k, f = .client k := by
    obtain ⟨k, -, rfl⟩ := Option.map_eq_some_iff.mp hf
    exact ⟨k, rfl⟩
  unfold torqueAddfdConcurrent
  split
  · exact h
  · rename_i hneg
    refine wp_registersFd h (hfd (by omega)) (.inr rfl) ?_ (by simp) (fun _ hu => hu)
      fun _ hu _ _ => hu
    refine ⟨by simp, by simp, by simp, ?_⟩
    rintro - f (hf | hf)
    · exact .inr (hclient rx f hf)
    · exact .inr (hclient tx f hf)

theorem works_torqueAddfd {o : Option Event} {rx tx : Option Nat} {state : Nat} (h : Work o v)
    (hfd : 0 ≤ fd → unsigned fd ∈ v.fds) :
    wp leasing (torqueAddfd fd rx tx state) (fun _ u => Work o u) v := by
  unfold torqueAddfd
  split
  · exact h
  · rename_i hneg
    rw [wp_do]
    refine wp_createsRxbuffercb h ?_ ?_
    · intro u hu _
      exact hu
    · intro c u hu hfds hc
      dsimp only
      rw [wp_do]
      refine wp_registersFd hu (hfds ▸ hfd (by omega)) (.inl rfl) ?_ ?_ ?_ ?_
      · exact typed_oneshot (by simp) (by simp) (by simp)
      · rintro _ ⟨⟩
        exact hc
      · intro t ht
        exact ht
      · intro t ht _ _
        rw [if_pos (by decide), wp_do]
        exact wp_allInert ht does_freeRxbuffer fun _ => ht

theorem works_addconnector {o : Option Event} {rx tx : Option Nat} {state : Nat} {add : Prog Int}
    (h : Work o v) (hfd : 0 ≤ fd → unsigned fd ∈ v.fds)
    (hadd : wp leasing add (fun _ u => Work o u) v) :
    wp leasing (addconnector fd rx tx state add) (fun _ u => Work o u) v := by
  unfold addconnector
  split
  · exact h
  · rename_i hneg
    rw [wp_do]
    refine wp_inert h rfl ?_
    intro now
    split
    · exact hadd
    · rw [wp_do]
      refine wp_inert h rfl ?_
      intro e
      split
      · unfold createConncb
        rw [wp_do, wp_do]
        refine wp_allocates h ?_ ?_
        · rw [wp_pure]
          dsimp only
          rw [wp_do]
          exact wp_inert h rfl fun _ => h
        · intro c u hu hfds hc
          dsimp only
          rw [wp_do]
          refine wp_inert hu rfl ?_
          intro _
          rw [wp_pure]
          dsimp only
          rw [wp_do]
          refine wp_registersFd hu (hfds ▸ hfd (by omega)) (.inl rfl) ?_ ?_ ?_ ?_
          · exact ⟨by simp, by simp, by simp, fun h => absurd h (by decide)⟩
          · rintro _ ⟨⟩
            exact hc
          · intro t ht
            exact ht
          · intro t ht _ hobjs
            rw [if_pos (by decide), wp_do]
            exact wp_freesOwn ht (hobjs ▸ hc) fun x hx _ => hx
      · exact h

theorem works_torqueAddssl {o : Option Event} {ctx : Nat} {rx tx : Option Nat} {state : Nat}
    (h : Work o v) (hfd : 0 ≤ fd → unsigned fd ∈ v.fds) :
    wp leasing (torqueAddssl fd ctx rx tx state) (fun _ u => Work o u) v := by
  unfold torqueAddssl
  rw [wp_do]
  refine wp_createsSslCbstate h ?_ ?_
  · intro u hu _
    exact hu
  · intro c u hu hfds hc
    dsimp only
    rw [wp_do]
    refine wp_addsFdUnbuffered hu (hfds ▸ hfd) ?_ ?_ ?_ ?_
    · exact typed_oneshot (by simp) (by simp) (by simp)
    · rintro _ ⟨⟩
      exact hc
    · intro t ht
      exact ht
    · intro r t hr ht _ hobjs
      rw [if_pos hr, wp_do]
      exact wp_unmakes ht (hobjs ▸ hc) fun x hx _ => hx

theorem works_torqueAddtimer {o : Option Event} {fxn : Option Nat} {state : Nat} (h : Work o v) :
    wp leasing (torqueAddtimer fxn state) (fun _ u => Work o u) v := by
  have undoes (fd c : Nat) (r : Int) (u : View) (hu : Work o u) (hfd : fd ∈ u.fds)
      (hc : c ∈ u.objs) :
      wp leasing (do close fd; free c; pure r) (fun _ t => Work o t) u := by
    rw [wp_do]
    refine wp_closesOwn hu hfd ?_
    intro t ht hobjs
    rw [wp_do]
    exact wp_freesOwn ht (hobjs ▸ hc) fun x hx _ => hx
  unfold torqueAddtimer addTimerToEvhandler createTimerfdMarshal
  rw [wp_do, wp_do]
  refine wp_allocates h h ?_
  intro c u hu hfds hc
  dsimp only
  rw [wp_do]
  refine wp_inert hu rfl ?_
  intro _
  rw [wp_pure]
  dsimp only
  rw [wp_do]
  refine wp_op ⟨trivial, hu.order⟩ ?_
  rintro r t ⟨-, hsees, evs, rfl⟩
  cases r with
  | none =>
    dsimp only
    rw [wp_do]
    refine wp_freesOwn hu hc ?_
    intro t ht _
    rw [wp_do]
    refine wp_inert ht rfl ?_
    intro e
    split
    · exact ht
    · split <;> exact ht
  | some fd =>
    obtain ⟨-, hlt, hnew⟩ := hsees
    have hopened := hu.opened evs hnew
    dsimp only
    rw [wp_do]
    refine wp_inert hopened rfl ?_
    intro ok
    cases ok with
    | false => exact undoes fd c _ _ hopened List.mem_cons_self hc
    | true =>
      rw [if_pos rfl, wp_do]
      refine wp_registersFd hopened ?_ (.inr rfl) ?_ ?_ ?_ ?_
      · rw [unsigned_natCast hlt]
        exact List.mem_cons_self
      · refine ⟨by simp, by simp, fun _ => ⟨rfl, rfl⟩, ?_⟩
        rintro - f (hf | hf)
        · exact .inl (Option.some.inj hf.symm)
        · cases hf
      · rintro _ ⟨⟩
        exact hc
      · intro t ht
        exact ht
      · intro t ht htfds htobjs
        rw [if_pos (by decide)]
        exact undoes fd c _ t ht (htfds ▸ List.mem_cons_self) (htobjs ▸ hc)

/-- A call is for a descriptor of the thread's own, if for any. -/
theorem works_call {o : Option Event} (h : Work o v) (c : AddCall)
    (hc : c.fd.all (fun fd => fd < 0 ∨ unsigned fd ∈ v.fds) = true) :
    wp leasing c.prog (fun _ u => Work o u) v := by
  have own (fd : Int) (hfd : c.fd = some fd) (h0 : 0 ≤ fd) : unsigned fd ∈ v.fds := by
    have hor : fd < 0 ∨ unsigned fd ∈ v.fds := by simpa [hfd] using hc
    exact hor.resolve_left (by omega)
  cases c with
  | addfd fd => exact works_torqueAddfd h (own fd rfl)
  | addfdUnbuffered fd =>
    exact works_torqueAddfdUnbuffered h (own fd rfl)
      (typed_oneshot (by simp) (by simp) (by simp)) (by simp)
  | addfdConcurrent fd => exact works_torqueAddfdConcurrent h (own fd rfl)
  | addconnector fd => exact works_addconnector h (own fd rfl) (works_torqueAddfd h (own fd rfl))
  | addconnectorUnbuffered fd =>
    exact works_addconnector h (own fd rfl) (works_torqueAddfdUnbuffered h (own fd rfl)
      (typed_oneshot (by simp) (by simp) (by simp)) (by simp))
  | addssl fd => exact works_torqueAddssl h (own fd rfl)
  | addtimer => exact works_torqueAddtimer h

end Calls

/-! ## Dispatching -/

/-- An event that no handler has been called for. -/
structure Fresh (ev : Event) (v : View) : Prop where
  cur : v.cur = some ev
  inside : v.inside = false
  closed : v.closed = false
  rearmed : v.rearmed = false
  freed : v.freed = false
  typed : Typed ev.src.oneshot (v.table ev.fd)
  state : (v.table ev.fd).cbstate = ev.src.state
  unowned : ev.fd ∉ v.fds

section Dispatching
variable {ev : Event} {v : View} {n : Nat} {f : Fn}

theorem Fresh.spent (h : Fresh ev v) : Spent ev v :=
  ⟨h.cur, fun _ _ => ⟨h.typed, h.state, h.unowned, fun hf => absurd hf (by simp [h.freed])⟩⟩

theorem does_callUnbuffered {g : Option Nat} :
    (callUnbuffered n g ev.fd).Only (Op.Works ev) := by
  refine only_do (only_perform trivial) fun _ => only_loop (fun _ => ?_) n ()
  refine only_do (only_perform trivial) fun act => ?_
  cases act with
  | close => exact only_do (only_perform rfl) fun _ => only_pure
  | ret r => exact only_pure
  | advance s => exact only_pure
  | sslTx len => exact only_pure

/-- A timer is called once: its state is freed, and there is no second callback. -/
theorem spent_timerCurry {c : Nat} (h : Work (some ev) v) (hc : ev.src.state = .object c)
    (htx : (v.table ev.fd).txfxn = none) :
    wp leasing (timerCurry ev.fd c) (fun _ u => Spent ev u) v := by
  unfold timerCurry
  rw [wp_do]
  refine wp_inert h rfl ?_
  intro marsh
  rw [wp_do]
  refine wp_op ⟨trivial, h.order⟩ ?_
  rintro _ u ⟨-, -, evs, rfl⟩
  have hu : Work (some ev) (v.next evs (.callback .timer marsh.txfxn ev.fd) ()) := h.callback
  refine wp_op ⟨.inr (hu.at hc), hu.order⟩ ?_
  rintro _ t ⟨-, -, evs', rfl⟩
  refine ⟨h.cur, ?_⟩
  intro hopen _
  obtain ⟨hty, hs, hout⟩ := h.entry ev rfl hopen
  exact ⟨hty, hs, hout, fun _ => htx⟩

theorem ends_connUnbufferedTxfxn {c : Nat} (h : Work (some ev) v) (hc : ev.src.state = .object c) :
    wp leasing (connUnbufferedTxfxn n ev.fd c) (fun _ _ => True) v := by
  unfold connUnbufferedTxfxn
  rw [wp_do]
  refine wp_inert h rfl ?_
  intro ok
  split
  · rw [wp_do]
    refine wp_inert h rfl ?_
    intro cbctx
    rw [wp_do]
    refine wp_works h does_callUnbuffered ?_
    intro _ u hu
    exact wp_op ⟨.inr (hu.at hc), hu.order⟩ fun _ _ _ => trivial
  · trivial

/-- The library's handlers, but that of a timer, are for one event at a time. -/
theorem Typed.oneshot_eq {oneshot : Bool} {evs : EvSource} (h : Typed oneshot evs)
    (hf : evs.rxfxn = some f ∨ evs.txfxn = some f) (ht : f ≠ .timerPassthru)
    (hk : ∀ k, f ≠ .client k) : oneshot = true := by
  cases oneshot with
  | true => rfl
  | false =>
    rcases h.shared rfl f hf with rfl | ⟨k, rfl⟩
    · exact absurd rfl ht
    · exact absurd rfl (hk k)

/-- A handler, other than the one that reads a timer and the one that awaits a
connection. -/
theorem spent_run (h : Work (some ev) v) (hopen : v.closed = false)
    (hf : (v.table ev.fd).rxfxn = some f ∨ (v.table ev.fd).txfxn = some f)
    (hc : f ≠ .connUnbufferedTxfxn) (ht : f ≠ .timerPassthru) :
    wp leasing (f.run n ev.fd ev.src.state) (fun _ u => Spent ev u) v := by
  have hone := (h.entry ev rfl hopen).1.oneshot_eq hf ht
  cases hst : ev.src.state with
  | client k =>
    cases f with
    | client g => exact wp_works h does_callUnbuffered fun _ u hu => hu.spent
    | _ => exact h.cut
  | object c =>
    cases f with
    | bufferedRxfxn => exact spent_bufferedRxfxn h (hone (by simp))
    | bufferedTxfxn => exact spent_bufferedTxfxn h (hone (by simp))
    | sslRxfxn => exact spent_sslRxfxn h (hone (by simp)) hst
    | sslTxrxfxn => exact spent_sslTxrxfxn h (hone (by simp)) hst
    | sslTxfxn => exact spent_sslTxfxn h (hone (by simp)) hst
    | acceptContrxfxn => exact spent_acceptContrxfxn h (hone (by simp)) hst
    | acceptConttxfxn => exact spent_acceptConttxfxn h (hone (by simp)) hst
    | sslAcceptRxfxn => exact spent_sslAcceptRxfxn h (hone (by simp))
    | connUnbufferedTxfxn => exact absurd rfl hc
    | timerPassthru => exact absurd rfl ht
    | client g => exact wp_works h does_callUnbuffered fun _ u hu => hu.spent

theorem spent_runRx (h : Work (some ev) v) (hopen : v.closed = false)
    (hf : (v.table ev.fd).rxfxn = some f) :
    wp leasing (f.run n ev.fd ev.src.state) (fun _ u => Spent ev u) v := by
  obtain ⟨hty, -, -⟩ := h.entry ev rfl hopen
  have hc : f ≠ .connUnbufferedTxfxn := fun heq => hty.rxConn (heq ▸ hf)
  by_cases ht : f = .timerPassthru
  · subst ht
    cases hst : ev.src.state with
    | client k => exact h.cut
    | object c => exact spent_timerCurry h hst (hty.rxTimer hf).2
  · exact spent_run h hopen (.inl hf) hc ht

theorem ends_runTx (h : Work (some ev) v) (hopen : v.closed = false)
    (hf : (v.table ev.fd).txfxn = some f) :
    wp leasing (f.run n ev.fd ev.src.state) (fun _ _ => True) v := by
  obtain ⟨hty, -, -⟩ := h.entry ev rfl hopen
  have ht : f ≠ .timerPassthru := fun heq => hty.txTimer (heq ▸ hf)
  by_cases hc : f = .connUnbufferedTxfxn
  · subst hc
    cases hst : ev.src.state with
    | client k => exact h.cut
    | object c => exact ends_connUnbufferedTxfxn h hst
  · exact wp_mono (fun _ _ _ => trivial) (spent_run h hopen (.inr hf) hc ht)

/-- A callback is entered from outside of any, and the event is at work in it. -/
theorem wp_enters {Q : Unit → View → Prop} (h : Spent ev v) (hin : v.inside = false)
    (hopen : v.closed = false) (hr : v.rearmed = false) (hfree : v.freed = false)
    (hf : some f = (v.table ev.fd).rxfxn ∨ some f = (v.table ev.fd).txfxn)
    (hQ : ∀ u, Work (some ev) u → u.closed = false → u.table = v.table → Q () u) :
    wp leasing (perform (.enter f ev.fd ev.src.state)) Q v := by
  refine wp_op ⟨⟨hopen, hfree, hr, ev, h.cur, rfl, rfl, hf⟩, fun _ hi => ?_⟩ ?_
  · exact absurd hi (by simp [hin])
  · rintro _ u ⟨-, -, evs, rfl⟩
    refine hQ _ ⟨h.cur, rfl, fun _ => hr, fun _ => hfree, ?_⟩ hopen rfl
    rintro _ ⟨⟩ _
    obtain ⟨hty, hs, hout, -⟩ := h.entry hopen hr
    exact ⟨hty, hs, hout⟩

/-- Having left a handler the thread is outside of any, whatever it did there. -/
theorem wp_leaves {Q : Unit → View → Prop}
    (hQ : ∀ u, u.inside = false → u.toLocal = { v.toLocal with inside := false } →
      u.freed = v.freed → u.table = v.table → Q () u) :
    wp leasing (perform .leave) Q v := by
  refine wp_op ⟨trivial, fun _ _ => rfl⟩ ?_
  rintro _ u ⟨-, -, evs, rfl⟩
  exact hQ _ rfl rfl rfl rfl

theorem spent_readSlot (h : Fresh ev v) :
    wp leasing (evsource ev.fd) (fun evs => wp leasing (handleSlot n ev.fd evs.rxfxn evs.cbstate)
      fun _ u => Spent ev u ∧ u.inside = false) v := by
  refine wp_op ⟨trivial, fun _ hi => absurd hi (by simp [h.inside])⟩ ?_
  rintro evs u ⟨-, hsees, _, rfl⟩
  obtain rfl : evs = v.table ev.fd := hsees h.closed ⟨h.rearmed, ev, h.cur, rfl⟩
  refine wp_slot (fun _ => ⟨h.spent, h.inside⟩) fun f hf => ?_
  rw [h.state]
  refine wp_enters (v := v) h.spent h.inside h.closed h.rearmed h.freed (.inl hf.symm) ?_
  intro u hu hopen htable
  refine wp_mono ?_ (spent_runRx hu hopen (htable ▸ hf))
  intro _ t ht
  refine wp_leaves ?_
  intro x hx hlocal hfreed htab
  refine ⟨⟨?_, ?_⟩, hx⟩
  · rw [hlocal]
    exact ht.cur
  · rw [hlocal, hfreed, htab]
    exact ht.entry

theorem leaves_writeSlot (h : Spent ev v) (hin : v.inside = false) :
    wp leasing (evsource ev.fd) (fun evs => wp leasing (handleSlot n ev.fd evs.txfxn evs.cbstate)
      fun _ u => u.inside = false) v := by
  refine wp_op ⟨trivial, fun _ hi => absurd hi (by simp [hin])⟩ ?_
  rintro evs u ⟨habides, hsees, _, rfl⟩
  refine wp_slot (fun _ => hin) fun f hf => ?_
  have hdone : v.closed = false ∧ v.rearmed = false ∨ evs.txfxn = none := by
    simpa [Local.Abides] using habides
  -- had the descriptor been closed or armed there would be no callback
  obtain ⟨hopen, hr⟩ := hdone.resolve_right (by simp [hf])
  obtain rfl : evs = v.table ev.fd := hsees hopen ⟨hr, ev, h.cur, rfl⟩
  obtain ⟨hty, hs, hout, hfreed⟩ := h.entry hopen hr
  have hfree : v.freed = false := by
    by_contra hyes
    simp [hfreed (by simpa using hyes)] at hf
  rw [hs]
  refine wp_enters (v := v) h hin hopen hr hfree (.inr hf.symm) ?_
  intro u hu huopen htable
  refine wp_mono ?_ (ends_runTx hu huopen (htable ▸ hf))
  intro _ t _
  exact wp_leaves fun x hx _ _ _ => hx

theorem leaves_handleEvent {mask : Events} (h : Fresh ev v) :
    wp leasing (handleEvent n ev.fd mask) (fun _ u => u.inside = false) v :=
  wp_handleEvent (M := fun u => Spent ev u ∧ u.inside = false) (fun _ => spent_readSlot h)
    (fun _ => ⟨h.spent, h.inside⟩) (fun _ hu _ => leaves_writeSlot hu.1 hu.2) fun _ hu _ => hu.2

end Dispatching

end Libtorque
