import Libtorque.Protos.Dns
import Mathlib.Data.List.Nodup

/-! # What adns waits on is watched

`load_dns_fds` adds the descriptors that adns reports to the event queue and
passes over those that are registered already; `restore_dns_fds` arms those that
are registered, and neither adds one nor alters its entry. A callback that ends
with neither leaves the queue as it is: what was watched after the last call, and
has not been touched since, still is. -/
namespace Libtorque.Dns
open Lib

/-! ## The property -/

/-- Whether a mask has all of the bits of another. -/
def covers (e f : Events) : Bool := e &&& f == f

/-- Registered, and armed for all of these events. -/
def armedWith (e : Events) : Fd → Bool
  | .watched r => r.armed.any (covers · e)
  | _ => false

/-- Registered and armed for the directions that are reported, with the callbacks
for them in its entry. -/
structure Pollfd.WatchedIn (p : Pollfd) (w : World) : Prop where
  entry : p.reads ∨ p.writes → p.fd < w.fdarraysize
  read : p.reads → armedWith EVREAD (w.fds p.fd) ∧ (w.fdarray p.fd).rxfxn = some rxfxn
  write : p.writes → armedWith EVWRITE (w.fds p.fd) ∧ (w.fdarray p.fd).txfxn = some txfxn

theorem Pollfd.watchedIn_iff {p : Pollfd} {w : World} : p.WatchedIn w ↔
    (p.reads ∨ p.writes → p.fd < w.fdarraysize) ∧
    (p.reads → armedWith EVREAD (w.fds p.fd) ∧ (w.fdarray p.fd).rxfxn = some rxfxn) ∧
    (p.writes → armedWith EVWRITE (w.fds p.fd) ∧ (w.fdarray p.fd).txfxn = some txfxn) :=
  ⟨fun h => ⟨h.entry, h.read, h.write⟩, fun h => ⟨h.1, h.2.1, h.2.2⟩⟩

instance (p : Pollfd) (w : World) : Decidable (p.WatchedIn w) :=
  decidable_of_iff _ Pollfd.watchedIn_iff.symm

/-- All that `adns_beforepoll` would report is watched. -/
def Watched (s : DnsWorld) : Prop := ∀ p ∈ s.adns.waits, p.WatchedIn s.toWorld

instance : DecidablePred Watched := fun s =>
  inferInstanceAs (Decidable (∀ p ∈ s.adns.waits, p.WatchedIn s.toWorld))

/-! ## The condition -/

/-- The descriptor is armed for the directions in a mask. -/
def covered (w : World) (fd : Nat) (e : Events) : Bool :=
  (covers e EVREAD → armedWith EVREAD (w.fds fd)) ∧
    (covers e EVWRITE → armedWith EVWRITE (w.fds fd))

/-- Its entry has the callbacks for the directions in a mask. -/
def hasEntry (w : World) (fd : Nat) (e : Events) : Bool :=
  (covers e EVREAD → (w.fdarray fd).rxfxn = some rxfxn) ∧
    (covers e EVWRITE → (w.fdarray fd).txfxn = some txfxn)

/-- adns is left waiting on some of the descriptors and directions known only, and
has neither closed nor opened these. -/
def Known (known : List Pollfd) (a : Adns) : Bool :=
  ∀ p ∈ a.waits, p.reads ∨ p.writes → p.fd ∉ a.opened ∧ p.fd ∉ a.closed ∧
    ∃ q ∈ known, q.fd = p.fd ∧ (p.reads → q.reads) ∧ (p.writes → q.writes)

/-- What adns reports has entries in the tables; a descriptor that is added is
not registered, or armed already; one that is armed is registered, with its
callbacks; and where nothing is armed, adns waits on nothing new. -/
def Keeps (known : List Pollfd) (s : DnsWorld) : (o : DnsOp) → o.Rep → Bool
  | .adnsBeforepoll, (_, a) => ∀ p ∈ a.waits, p.reads ∨ p.writes → p.fd < s.fdarraysize
  | .adnsProcessany, (r, a) => r ≠ 0 → Known known a
  | .adnsAfterpoll _, a => Known known a
  | .sys (.epollCtl .add fd e), ok => ok ∨ covered s.toWorld fd e
  | .sys (.epollCtl .mod fd e), ok => (ok ∨ covered s.toWorld fd e) ∧ hasEntry s.toWorld fd e
  | _, _ => true

/-! ## One descriptor -/

/-- Nothing is different in `t` but what is of these descriptors. -/
structure Apart (ds : List Nat) (s t : DnsWorld) : Prop where
  adns : t.adns = s.adns
  commonSignalfd : t.commonSignalfd = s.commonSignalfd
  size : t.fdarraysize = s.fdarraysize
  fds : ∀ fd, fd ∉ ds → t.fds fd = s.fds fd
  entries : ∀ fd, fd ∉ ds → t.fdarray fd = s.fdarray fd

theorem Apart.refl (ds : List Nat) (s : DnsWorld) : Apart ds s s :=
  ⟨rfl, rfl, rfl, fun _ _ => rfl, fun _ _ => rfl⟩

theorem Apart.trans {ds es : List Nat} {s t u : DnsWorld} (h : Apart ds s t) (h' : Apart es t u)
    {fs : List Nat} (hds : ds ⊆ fs) (hes : es ⊆ fs) : Apart fs s u where
  adns := h'.adns.trans h.adns
  commonSignalfd := h'.commonSignalfd.trans h.commonSignalfd
  size := h'.size.trans h.size
  fds fd hfd := (h'.fds fd fun hm => hfd (hes hm)).trans (h.fds fd fun hm => hfd (hds hm))
  entries fd hfd :=
    (h'.entries fd fun hm => hfd (hes hm)).trans (h.entries fd fun hm => hfd (hds hm))

theorem Apart.watchedIn {ds : List Nat} {s t : DnsWorld} (h : Apart ds s t) {p : Pollfd}
    (hp : p.fd ∉ ds) : p.WatchedIn t.toWorld ↔ p.WatchedIn s.toWorld := by
  rw [p.watchedIn_iff, p.watchedIn_iff, h.size, h.fds _ hp, h.entries _ hp]

/-- Whether all the steps so far have met the condition. -/
abbrev keeping (known : List Pollfd) : Contract DnsOp DnsOp.Rep (DnsWorld × Prop) :=
  tracking DnsWorld.next (Keeps known)

abbrev keepingSys (known : List Pollfd) : Contract Op Op.Rep (DnsWorld × Prop) :=
  (keeping known).pull .sys fun _ r => r

variable {known : List Pollfd}

/-- What is known to be watched still is. -/
theorem watched_of_known {s : DnsWorld} {a : Adns} (hknown : ∀ q ∈ known, q.WatchedIn s.toWorld)
    (ha : Known known a) : Watched (s.after a) := by
  intro p hp
  by_cases hdir : p.reads ∨ p.writes
  · obtain ⟨hopened, hclosed, q, hq, hfd, hreads, hwrites⟩ := of_decide_eq_true ha p hp hdir
    have hwatched := hknown q hq
    rw [q.watchedIn_iff, hfd] at hwatched
    obtain ⟨hentry, hread, hwrite⟩ := hwatched
    have hsame : (s.after a).fds p.fd = s.fds p.fd := by
      simp only [DnsWorld.after, hopened, hclosed, if_false]
    refine ⟨fun _ => hentry (hdir.imp hreads hwrites), fun hr => ?_, fun hw => ?_⟩
    · rw [hsame]
      exact hread (hreads hr)
    · rw [hsame]
      exact hwrite (hwrites hw)
  · exact ⟨fun h => absurd h hdir, fun h => absurd (.inl h) hdir, fun h => absurd (.inr h) hdir⟩

theorem wp_dns {o : DnsOp} {Q : o.Rep → DnsWorld × Prop → Prop} {x : DnsWorld × Prop}
    (h : ∀ r s, x.1.next o r = some s → Q r (s, x.2 ∧ Keeps known x.1 o r)) :
    wp (keeping known) (dns o) Q x := by
  refine wp_op trivial fun r y hy => ?_
  obtain ⟨s, ψ⟩ := y
  obtain ⟨hs, hψ⟩ := hy
  obtain rfl : ψ = _ := propext hψ
  exact h r s hs

theorem wp_sys {o : Op} {Q : o.Rep → DnsWorld × Prop → Prop} {x : DnsWorld × Prop}
    (h : ∀ r w, x.1.toWorld.next o r = some w →
      Q r (⟨w, x.1.adns, x.1.commonSignalfd⟩, x.2 ∧ Keeps known x.1 (.sys o) r)) :
    wp (keepingSys known) (perform o) Q x := by
  refine wp_op trivial fun r y hy => ?_
  obtain ⟨r', rfl, hs, hψ⟩ := hy
  obtain ⟨w, hw, hy⟩ := Option.map_eq_some_iff.mp hs
  obtain ⟨s, ψ⟩ := y
  cases hy
  obtain rfl : ψ = _ := propext hψ
  exact h r' w hw

theorem wp_sysFree {o : Op} {Q : o.Rep → DnsWorld × Prop → Prop} {x : DnsWorld × Prop}
    (hkeeps : ∀ r, Keeps known x.1 (.sys o) r = true)
    (h : ∀ r w, x.1.toWorld.next o r = some w → Q r (⟨w, x.1.adns, x.1.commonSignalfd⟩, x.2)) :
    wp (keepingSys known) (perform o) Q x := by
  refine wp_sys fun r w hw => ?_
  rw [hkeeps r, eq_self_iff_true, and_true]
  exact h r w hw

/-- `epoll_ctl`, when it succeeds. -/
theorem epollCtl_armed {w v : World} {op : EpollOp} {fd : Nat} {e : Events}
    (h : w.epollCtl op fd e = some v) : (∃ r : Reg, v.fds fd = .watched r ∧ r.armed = some e) ∧
      (∀ d, d ≠ fd → v.fds d = w.fds d) ∧ v.fdarray = w.fdarray ∧
        v.fdarraysize = w.fdarraysize := by
  unfold World.epollCtl at h
  split at h <;> cases h
  · exact ⟨⟨_, Function.update_self .., rfl⟩, fun d hd => Function.update_of_ne hd .., rfl, rfl⟩
  · exact ⟨⟨_, Function.update_self .., rfl⟩, fun d hd => Function.update_of_ne hd .., rfl, rfl⟩

/-- Whether it succeeds or not, all else is as it was. -/
theorem epollCtl_others {w v : World} {op : EpollOp} {fd : Nat} {e : Events} {ok : Bool}
    (h : w.next (.epollCtl op fd e) ok = some v) :
    (∀ d, d ≠ fd → v.fds d = w.fds d) ∧ v.fdarray = w.fdarray ∧ v.fdarraysize = w.fdarraysize := by
  rcases World.epollCtl_cases h with ⟨-, h⟩ | ⟨-, rfl⟩
  · exact (epollCtl_armed h).2
  · exact ⟨fun _ _ => rfl, rfl, rfl⟩

/-- Whether `epoll_ctl` leaves a descriptor watched. -/
theorem watchedIn_epollCtl {p : Pollfd} {w v : World} {op : EpollOp} {e : Events} {ok : Bool}
    (h : w.next (.epollCtl op p.fd e) ok = some v) (hread : covers e EVREAD = p.reads)
    (hwrite : covers e EVWRITE = p.writes)
    (hbound : p.reads ∨ p.writes → p.fd < w.fdarraysize) :
    p.WatchedIn v ↔ (ok ∨ covered w p.fd e) ∧ hasEntry w p.fd e := by
  have harmed : (p.reads → armedWith EVREAD (v.fds p.fd)) ∧
      (p.writes → armedWith EVWRITE (v.fds p.fd)) ↔ ok ∨ covered w p.fd e := by
    rcases World.epollCtl_cases h with ⟨rfl, h⟩ | ⟨rfl, rfl⟩
    · obtain ⟨⟨r, hr, he⟩, -⟩ := epollCtl_armed h
      refine iff_of_true ⟨fun hp => ?_, fun hp => ?_⟩ (.inl rfl)
      · simp only [hr, armedWith, he, Option.any_some, hread, hp]
      · simp only [hr, armedWith, he, Option.any_some, hwrite, hp]
    · simp only [covered, hread, hwrite, decide_eq_true_eq, Bool.false_eq_true, false_or]
  obtain ⟨-, hentry, hsize⟩ := epollCtl_others h
  rw [← harmed, p.watchedIn_iff, hentry, hsize]
  simp only [hasEntry, hread, hwrite, decide_eq_true_eq]
  constructor
  · intro hp
    exact ⟨⟨fun hr => (hp.2.1 hr).1, fun hw => (hp.2.2 hw).1⟩, fun hr => (hp.2.1 hr).2,
      fun hw => (hp.2.2 hw).2⟩
  · intro hp
    exact ⟨hbound, fun hr => ⟨hp.1.1 hr, hp.2.1 hr⟩, fun hw => ⟨hp.1.2 hw, hp.2.2 hw⟩⟩

theorem wp_setEntryDns {fd : Nat} {rfxn tfxn : Option Fn} {st : CbState}
    {Q : Unit → DnsWorld × Prop → Prop} {x : DnsWorld × Prop}
    (hQ : Q () (⟨x.1.toWorld.setEntry fd ⟨rfxn, tfxn, st⟩, x.1.adns, x.1.commonSignalfd⟩, x.2)) :
    wp (keepingSys known) (setupEvsource fd rfxn tfxn st) Q x := by
  unfold setupEvsource setEvsourceRx setEvsourceTx
  rw [wp_do]
  refine wp_sysFree (fun _ => rfl) fun _ w hw => ?_
  cases hw
  rw [wp_do]
  refine wp_sysFree (fun _ => rfl) fun _ w hw => ?_
  cases hw
  refine wp_sysFree (fun _ => rfl) fun _ w hw => ?_
  cases hw
  simpa only [World.setEntry, Function.update_self, Function.update_idem] using hQ

/-- The mask that a descriptor is added with. -/
theorem covers_added (reads writes : Bool) :
    let e := EPOLLET ||| EPOLLPRI ||| EVONESHOT
    let e := if (if reads then some rxfxn else none).isSome then e ||| EVREAD else e
    let e := if (if writes then some txfxn else none).isSome then e ||| EVWRITE else e
    covers e EVREAD = reads ∧ covers e EVWRITE = writes := by
  revert reads writes
  decide

/-- The mask that a descriptor is armed with. -/
theorem covers_restored (reads writes : Bool) :
    let flags := if reads then EVREAD else 0
    let flags := flags ||| if writes then EVWRITE else 0
    covers (EVEDGET ||| EVONESHOT ||| flags) EVREAD = reads ∧
      covers (EVEDGET ||| EVONESHOT ||| flags) EVWRITE = writes := by
  revert reads writes
  decide

section Pollfds
variable {p : Pollfd} {x : DnsWorld × Prop} {Q : Int → DnsWorld × Prop → Prop}

/-- Only what is of the descriptor is different, and it is watched exactly when
the condition has still been met. -/
def Settles (p : Pollfd) (x y : DnsWorld × Prop) : Prop :=
  Apart [p.fd] x.1 y.1 ∧ (y.2 ↔ x.2 ∧ p.WatchedIn y.1.toWorld)

/-- A step of `epoll_ctl`, whose condition is that of the other steps and this. -/
theorem settles_epollCtl {w : World} {op : EpollOp} {e : Events} {ok : Bool} {ψ : Prop}
    (hw : x.1.toWorld.next (.epollCtl op p.fd e) ok = some w) (hread : covers e EVREAD = p.reads)
    (hwrite : covers e EVWRITE = p.writes)
    (hbound : x.2 → p.reads ∨ p.writes → p.fd < x.1.fdarraysize)
    (hψ : ψ ↔ x.2 ∧ (ok ∨ covered x.1.toWorld p.fd e) ∧ hasEntry x.1.toWorld p.fd e) :
    Settles p x (⟨w, x.1.adns, x.1.commonSignalfd⟩, ψ) := by
  obtain ⟨hfds, hentries, hsize⟩ := epollCtl_others hw
  refine ⟨⟨rfl, rfl, hsize, fun d hd => hfds d (List.ne_of_not_mem_cons hd), fun d _ => ?_⟩, ?_⟩
  · dsimp only
    rw [hentries]
  · rw [hψ]
    exact and_congr_right fun hx => (watchedIn_epollCtl hw hread hwrite (hbound hx)).symm

theorem Settles.later {s : DnsWorld} {ψ : Prop} {y : DnsWorld × Prop} (h : Settles p (s, ψ) y)
    (hs : Apart [p.fd] x.1 s) : Settles p (x.1, ψ) y :=
  ⟨hs.trans h.1 (List.Subset.refl _) (List.Subset.refl _), h.2⟩

theorem wp_restorePollfd (hbound : x.2 → p.reads ∨ p.writes → p.fd < x.1.fdarraysize)
    (hQ : ∀ r y, Settles p x y → Q r y) : wp (keeping known) (restorePollfd p) Q x := by
  obtain ⟨hread, hwrite⟩ := covers_restored p.reads p.writes
  unfold restorePollfd restorefd
  rw [wp_embed, wp_do]
  refine wp_sys fun ok w hw => ?_
  have hsettles := settles_epollCtl hw hread hwrite hbound
    (and_congr_right fun _ => decide_eq_true_iff)
  cases ok with
  | true => exact hQ 0 _ hsettles
  | false => exact hQ (-1) _ hsettles

theorem wp_loadPollfd {dctx : Nat} (hfd : p.fd < 2 ^ 31)
    (hbound : x.2 → p.reads ∨ p.writes → p.fd < x.1.fdarraysize)
    (hQ : ∀ r y, Settles p x y → Q r y) : wp (keeping known) (loadPollfd dctx p) Q x := by
  unfold loadPollfd addFdToEvhandler
  rw [wp_embed, wp_do]
  refine wp_sysFree (fun _ => rfl) fun size w hw => ?_
  obtain ⟨rfl, rfl⟩ := World.fdarraysize_cases hw
  have hunsigned : unsigned p.fd = p.fd := by
    unfold unsigned
    omega
  rw [hunsigned]
  split
  · rename_i hlarge
    -- an entry that the tables do not have
    refine hQ (-1) x ⟨.refl .., (and_iff_left_of_imp fun hx => ?_).symm⟩
    have hnone : ¬ (p.reads ∨ p.writes) := fun hp => by
      have := hbound hx hp
      omega
    exact ⟨fun hp => absurd hp hnone, fun hp => absurd (.inl hp) hnone,
      fun hp => absurd (.inr hp) hnone⟩
  · rw [wp_do]
    refine wp_setEntryDns ?_
    generalize hentry : x.1.toWorld.setEntry p.fd _ = w
    have hapart : Apart [p.fd] x.1 ⟨w, x.1.adns, x.1.commonSignalfd⟩ := by
      subst hentry
      exact ⟨rfl, rfl, rfl, fun _ _ => rfl,
        fun d hd => Function.update_of_ne (List.ne_of_not_mem_cons hd) ..⟩
    unfold addFdEvent
    rw [wp_do, if_neg (by decide), wp_do]
    refine wp_sys fun ok v hv => ?_
    obtain ⟨hread, hwrite⟩ := covers_added p.reads p.writes
    have hkeeps (e : Events) (hr : covers e EVREAD = p.reads) (hw : covers e EVWRITE = p.writes) :
        Keeps known ⟨w, x.1.adns, x.1.commonSignalfd⟩ (.sys (.epollCtl .add p.fd e)) ok = true ↔
          (ok ∨ covered w p.fd e) ∧ hasEntry w p.fd e := by
      have hentry : hasEntry w p.fd e = true := by
        subst hentry
        simp only [hasEntry, World.setEntry, Function.update_self, hr, hw, decide_eq_true_eq]
        exact ⟨fun hp => if_pos hp, fun hp => if_pos hp⟩
      rw [hentry, eq_self_iff_true, and_true]
      exact decide_eq_true_iff
    have hbound' : x.2 → p.reads ∨ p.writes → p.fd < w.fdarraysize := by
      subst hentry
      exact hbound
    have hsettles := (settles_epollCtl (x := (⟨w, x.1.adns, x.1.commonSignalfd⟩, x.2)) hv hread
      hwrite hbound' (and_congr_right fun _ => hkeeps _ hread hwrite)).later hapart
    cases ok with
    | true => exact hQ 0 _ hsettles
    | false => exact hQ (-1) _ hsettles

end Pollfds

/-! ## All of them -/

/-- A step of the loops, for descriptors that are in the tables. -/
def SettlesEach (known : List Pollfd) (f : Pollfd → DnsProg Int) : Prop :=
  ∀ (p : Pollfd) (x : DnsWorld × Prop) (Q : Int → DnsWorld × Prop → Prop), p.fd < 2 ^ 31 →
    (x.2 → p.reads ∨ p.writes → p.fd < x.1.fdarraysize) → (∀ r y, Settles p x y → Q r y) →
      wp (keeping known) (f p) Q x

theorem settlesEach_restore : SettlesEach known restorePollfd :=
  fun _ _ _ _ hbound hQ => wp_restorePollfd hbound hQ

theorem settlesEach_load (dctx : Nat) : SettlesEach known (loadPollfd dctx) :=
  fun _ _ _ hfd hbound hQ => wp_loadPollfd hfd hbound hQ

theorem wp_eachPollfd {f : Pollfd → DnsProg Int} (hf : SettlesEach known f) {ps : List Pollfd}
    {ret : Int} {x : DnsWorld × Prop} {Q : Int → DnsWorld × Prop → Prop}
    (hints : ∀ p ∈ ps, p.fd < 2 ^ 31) (honce : (ps.map Pollfd.fd).Nodup)
    (hbound : x.2 → ∀ p ∈ ps, p.reads ∨ p.writes → p.fd < x.1.fdarraysize)
    (hQ : ∀ r y, Apart (ps.map Pollfd.fd) x.1 y.1 →
      (y.2 ↔ x.2 ∧ ∀ p ∈ ps, p.WatchedIn y.1.toWorld) → Q r y) :
    wp (keeping known) (eachPollfd f ret ps) Q x := by
  induction ps generalizing ret x with
  | nil => exact hQ ret x (.refl ..) (by simp)
  | cons p ps ih =>
    obtain ⟨hp, honce⟩ := List.nodup_cons.mp honce
    rw [eachPollfd, wp_do]
    refine hf p x _ (hints p (List.mem_cons_self ..)) (fun hx => hbound hx p (List.mem_cons_self ..))
      fun r y hy => ?_
    obtain ⟨hapart, hiff⟩ := hy
    refine ih (fun q hq => hints q (List.mem_cons_of_mem _ hq)) honce (fun hy q hq => ?_)
      fun r z hz hzψ => ?_
    · rw [hapart.size]
      exact hbound (hiff.mp hy).1 q (List.mem_cons_of_mem _ hq)
    · refine hQ r z (hapart.trans hz ?_ (List.subset_cons_self ..)) ?_
      · exact List.cons_subset_cons _ (List.nil_subset _)
      · -- the rest of the loop leaves this descriptor as it is
        rw [hzψ, hiff, ← hz.watchedIn hp, List.forall_mem_cons, and_assoc]

/-- What a loop over all that adns reports leaves. -/
structure Settled (x y : DnsWorld × Prop) : Prop where
  watched : y.2 ↔ x.2 ∧ Watched y.1
  commonSignalfd : y.1.commonSignalfd = x.1.commonSignalfd
  own : ∀ p ∈ y.1.adns.waits, (p.fd : Int) ≠ x.1.commonSignalfd

/-- `adns_beforepoll`, and the loop over what it reports. -/
theorem wp_beforepoll {f : Pollfd → DnsProg Int} (hf : SettlesEach known f)
    {x : DnsWorld × Prop} {Q : Int → DnsWorld × Prop → Prop} (hQ : ∀ r y, Settled x y → Q r y) :
    wp (keeping known) (dns .adnsBeforepoll)
      (fun polled y => polled.1 = 0 ∧
        wp (keeping known) (eachPollfd f 0 polled.2.waits.reverse) Q y) x := by
  refine wp_dns fun polled s hs => ?_
  obtain ⟨r, a⟩ := polled
  obtain ⟨hr, hs⟩ := Option.ite_none_right_eq_some.mp hs
  obtain ⟨hown, rfl⟩ := DnsWorld.calls_cases hs
  refine ⟨hr, ?_⟩
  refine wp_eachPollfd hf (fun p hp => a.ints p (List.mem_reverse.mp hp)) ?_ ?_ ?_
  · rw [List.map_reverse, List.nodup_reverse]
    exact a.once
  · intro hx p hp
    exact of_decide_eq_true hx.2 p (List.mem_reverse.mp hp)
  · intro r y hapart hiff
    have hadns : y.1.adns = a := hapart.adns
    have hsize : y.1.fdarraysize = x.1.fdarraysize := hapart.size
    refine hQ r y ⟨?_, hapart.commonSignalfd, ?_⟩
    · rw [hiff, Watched, hadns]
      simp only [List.mem_reverse]
      constructor
      · intro h
        exact ⟨h.1.1, h.2⟩
      · intro h
        refine ⟨⟨h.1, decide_eq_true fun p hp => ?_⟩, h.2⟩
        rw [← hsize]
        exact (h.2 p hp).entry
    · rw [hadns]
      exact hown

/-! ## The calls -/

/-- After a call that succeeds, all is watched if the condition has been met. -/
def Ends (r : Int) (y : DnsWorld × Prop) : Prop := r = 0 → y.2 → Watched y.1

theorem wp_anything {α : Type} {p : DnsProg α} {x : DnsWorld × Prop}
    {Q : α → DnsWorld × Prop → Prop} (h : ∀ a y, Q a y) : wp (keeping known) p Q x :=
  wp_any (fun _ _ => trivial) h

theorem wp_fails {α : Type} {p : DnsProg α} {e : Int} {x : DnsWorld × Prop} (he : e ≠ 0) :
    wp (keeping known) (do let _ ← p; pure e) Ends x := by
  rw [wp_do]
  exact wp_anything fun _ _ hr => absurd hr he

theorem wp_loadDnsFds {dctx : Nat} {x : DnsWorld × Prop} {Q : Int → DnsWorld × Prop → Prop}
    (hQ : ∀ y, Settled x y → Q 0 y) : wp (keeping known) (loadDnsFds dctx) Q x := by
  unfold loadDnsFds
  rw [wp_do]
  refine wp_mono ?_ (wp_beforepoll (settlesEach_load dctx) fun _ => hQ)
  intro polled y hy
  obtain ⟨hr, hy⟩ := hy
  dsimp only
  rw [if_neg (not_not.mpr hr), wp_do]
  exact hy

theorem wp_restoreDnsFds {x : DnsWorld × Prop} {Q : Int → DnsWorld × Prop → Prop}
    (hQ : ∀ r y, Settled x y → Q r y) : wp (keeping known) restoreDnsFds Q x := by
  unfold restoreDnsFds
  rw [wp_do]
  refine wp_mono ?_ (wp_beforepoll settlesEach_restore hQ)
  intro polled y hy
  obtain ⟨hr, hy⟩ := hy
  dsimp only
  rw [if_neg (not_not.mpr hr)]
  exact hy

theorem ends_rx (n : Nat) {s : DnsWorld} (hknown : ∀ q ∈ known, q.WatchedIn s.toWorld) :
    wp (keeping known) (DnsCall.rx n).prog Ends (s, True) := by
  show wp (keeping known) (do adnsRxCallback n; pure 0) Ends (s, True)
  unfold adnsRxCallback
  rw [wp_do, wp_do]
  refine wp_dns fun processed t ht => ?_
  obtain ⟨r, a⟩ := processed
  obtain ⟨-, rfl⟩ := DnsWorld.calls_cases ht
  dsimp only
  split
  · rename_i hr
    intro _ hkeeps
    exact watched_of_known hknown (of_decide_eq_true hkeeps.2 hr)
  · rw [wp_do]
    refine wp_anything fun _ y => ?_
    rw [wp_do]
    refine wp_restoreDnsFds fun _ z hz => ?_
    exact fun _ hkeeps => (hz.watched.mp hkeeps).2

theorem ends_tx (fd : Nat) {s : DnsWorld} (hknown : ∀ q ∈ known, q.WatchedIn s.toWorld) :
    wp (keeping known) (DnsCall.tx fd).prog Ends (s, True) := by
  show wp (keeping known) (do adnsTxCallback fd; pure 0) Ends (s, True)
  unfold adnsTxCallback
  rw [wp_do, wp_do]
  refine wp_dns fun _ t ht => ?_
  cases ht
  rw [wp_do]
  refine wp_dns fun a u hu => ?_
  obtain ⟨-, rfl⟩ := DnsWorld.calls_cases hu
  intro _ hkeeps
  exact watched_of_known hknown hkeeps.2

theorem ends_addlookup (dctx : Nat) (f : Option Nat) (state : Nat) (s : DnsWorld) :
    wp (keeping known) (DnsCall.addlookup dctx f state).prog Ends (s, True) := by
  show wp (keeping known) (torqueAddlookupDns dctx f state) Ends (s, True)
  unfold torqueAddlookupDns
  rw [wp_do]
  refine wp_anything fun dm y => ?_
  cases dm with
  | none => exact fun hr => absurd hr (by decide)
  | some dm =>
    dsimp only
    rw [wp_do]
    refine wp_anything fun submitted z => ?_
    obtain ⟨r, a⟩ := submitted
    dsimp only
    split
    · exact wp_fails (by decide)
    · rw [wp_do]
      refine wp_loadDnsFds fun u hu => ?_
      rw [if_neg (by decide)]
      exact fun _ hkeeps => (hu.watched.mp hkeeps).2

/-- The signal descriptor is not one of those that adns waits on. -/
theorem ends_commonfds {s : DnsWorld} {ψ : Prop} (hψ : ψ → Watched s)
    (hown : ∀ p ∈ s.adns.waits, (p.fd : Int) ≠ s.commonSignalfd) :
    wp (keeping known) (addCommonfdsToEvhandler s.commonSignalfd) Ends (s, ψ) := by
  unfold addCommonfdsToEvhandler
  split
  · exact fun hr => absurd hr (by decide)
  · rename_i hneg
    rw [wp_do, wp_embed]
    refine wp_sys fun ok w hw => ?_
    cases ok with
    | false => exact fun hr => absurd hr (by decide)
    | true =>
      intro _ hkeeps
      obtain ⟨-, hfds, hentries, hsize⟩ := epollCtl_armed hw
      have hapart : Apart [s.commonSignalfd.toNat] s ⟨w, s.adns, s.commonSignalfd⟩ := by
        refine ⟨rfl, rfl, hsize, fun d hd => hfds d (List.ne_of_not_mem_cons hd), fun d _ => ?_⟩
        dsimp only
        rw [hentries]
      intro p hp
      have hne := hown p hp
      refine (hapart.watchedIn ?_).mpr (hψ hkeeps.1 p hp)
      rw [List.mem_singleton]
      omega

theorem ends_baseevents (dctx : Nat) {x : DnsWorld × Prop} :
    wp (keeping known) (addEvqueueBaseevents dctx) Ends x := by
  unfold addEvqueueBaseevents
  rw [wp_do]
  refine wp_loadDnsFds fun y hy => ?_
  rw [if_neg (by decide), wp_do]
  refine wp_dns fun fd s hs => ?_
  obtain ⟨hfd, hs⟩ := Option.ite_none_right_eq_some.mp hs
  cases hs
  rw [hfd]
  refine ends_commonfds (fun hkeeps => (hy.watched.mp hkeeps.1).2) ?_
  rw [hy.commonSignalfd]
  exact hy.own

theorem ends_init (dctx : Nat) (s : DnsWorld) :
    wp (keeping known) (DnsCall.init dctx).prog Ends (s, True) := by
  show wp (keeping known) (initEvqueue dctx) Ends (s, True)
  unfold initEvqueue
  rw [wp_do]
  refine wp_anything fun r x => ?_
  split
  · exact fun hr => absurd hr (by decide)
  · rw [wp_do]
    refine wp_anything fun ok y => ?_
    split
    · rw [wp_do]
      refine wp_mono ?_ (ends_baseevents dctx)
      intro r z hz
      split
      · rw [wp_do]
        exact wp_anything fun _ _ => wp_fails (by decide)
      · rename_i hr
        exact fun _ => hz (not_not.mp hr)
    · exact wp_fails (by decide)

theorem ends_prog (c : DnsCall) {s : DnsWorld} (hknown : ∀ q ∈ known, q.WatchedIn s.toWorld) :
    wp (keeping known) c.prog Ends (s, True) := by
  cases c with
  | init dctx => exact ends_init dctx s
  | addlookup dctx f state => exact ends_addlookup dctx f state s
  | rx n => exact ends_rx n hknown
  | tx fd => exact ends_tx fd hknown

/-! ## Runs -/

/-- `settled`: a call has just succeeded. `known` is what adns waited on when a
call last succeeded, as far as nothing has touched its registration since. -/
structure DnsRun where
  world : DnsWorld
  settled : Bool := false
  known : List Pollfd := []

/-- A call that comes to its end, with the replies to its operations; an event
that the kernel reports, which spends its registration; or anything else that
the program does. -/
inductive DnsAct where
  | call (c : DnsCall) (replies : List ((o : DnsOp) → o.Rep))
  | report (fd : Nat) (mask : Events)
  | other (s : DnsWorld)

namespace DnsRun

/-- With the same registration and entry as before. -/
def untouched (s : DnsRun) (t : DnsWorld) : List Pollfd :=
  s.known.filter fun p => t.fds p.fd = s.world.fds p.fd ∧
    t.fdarray p.fd = s.world.fdarray p.fd ∧ t.fdarraysize = s.world.fdarraysize

def leave (s : DnsRun) (t : DnsWorld) : DnsRun := { world := t, known := s.untouched t }

def step (s : DnsRun) : DnsAct → Option DnsRun
  | .call c replies =>
    match exec (Prog.step DnsWorld.next) (s.world, c.prog) replies with
    | some (t, .ret r) => some (if r = 0 then ⟨t, true, t.adns.waits⟩ else s.leave t)
    | _ => none
  | .report fd mask =>
    (s.world.toWorld.report fd mask).map fun (w, _) => s.leave { s.world with toWorld := w }
  | .other t => some (s.leave t)

/-- What adns waits on is watched after each call that succeeds. -/
def AllWatched (s : DnsRun) : Prop := s.settled → Watched s.world

instance : DecidablePred AllWatched := fun s =>
  inferInstanceAs (Decidable (s.settled = true → Watched s.world))

/-- Each step of a call that succeeds meets the condition. -/
def Keeps (s : DnsRun) : DnsAct → Prop
  | .call c replies => (s.step (.call c replies)).any settled →
      Meets (Prog.step DnsWorld.next) (Prog.Assume (Dns.Keeps s.known)) (s.world, c.prog) replies
  | _ => True

instance : ∀ s a, Decidable (Keeps s a)
  | s, .call c replies => inferInstanceAs (Decidable ((s.step (.call c replies)).any settled → _))
  | _, .report _ _ => isTrue trivial
  | _, .other _ => isTrue trivial

/-- What is known is watched, and all is when a call has just succeeded. -/
structure Good (s : DnsRun) : Prop where
  known : ∀ q ∈ s.known, q.WatchedIn s.world.toWorld
  watched : s.AllWatched

theorem Good.leave {s : DnsRun} (h : s.Good) (t : DnsWorld) : (s.leave t).Good := by
  refine ⟨fun q hq => ?_, fun hsettled => absurd hsettled Bool.false_ne_true⟩
  obtain ⟨hq, hsame⟩ := List.mem_filter.mp hq
  obtain ⟨hfd, hentry, hsize⟩ := of_decide_eq_true hsame
  have hwatched := h.known q hq
  rw [q.watchedIn_iff] at hwatched ⊢
  rwa [← hfd, ← hentry, ← hsize] at hwatched

theorem Good.call {s t : DnsRun} (h : s.Good) {c : DnsCall} {replies : List ((o : DnsOp) → o.Rep)}
    (hkeeps : s.Keeps (.call c replies)) (hs : s.step (.call c replies) = some t) : t.Good := by
  rw [Keeps, hs, Option.any_some] at hkeeps
  rw [step] at hs
  split at hs
  · rename_i v r he
    cases hs
    by_cases hr : r = 0
    · rw [if_pos hr] at hkeeps ⊢
      have hwatched := exec_tracking (ends_prog c h.known) he hr ⟨trivial, hkeeps rfl⟩
      exact ⟨hwatched, fun _ => hwatched⟩
    · rw [if_neg hr]
      exact h.leave v
  · cases hs

theorem Good.step {s t : DnsRun} (h : s.Good) {a : DnsAct} (hkeeps : s.Keeps a)
    (hs : s.step a = some t) : t.Good := by
  cases a with
  | call c replies => exact h.call hkeeps hs
  | report fd mask =>
    obtain ⟨w, -, rfl⟩ := Option.map_eq_some_iff.mp hs
    exact h.leave _
  | other v =>
    cases hs
    exact h.leave v

end DnsRun

/-- **DNS descriptors.** In every run in which the steps of the calls that succeed
meet the condition, all that adns waits on is registered, armed and has its
callbacks after each of these calls. `load_dns_fds` and `restore_dns_fds` leave it
so exactly when their own steps meet it. -/
theorem dns_watched (s : DnsWorld) :
    (∀ acts, Meets DnsRun.step DnsRun.Keeps { world := s } acts →
      Always DnsRun.step DnsRun.AllWatched { world := s } acts) ∧
    ∀ known dctx p replies t r, p = loadDnsFds dctx ∨ p = restoreDnsFds →
      exec (Prog.step DnsWorld.next) (s, p) replies = some (t, .ret r) →
      (Watched t ↔ Meets (Prog.step DnsWorld.next) (Prog.Assume (Keeps known)) (s, p) replies) := by
  refine ⟨fun acts hm => ?_, fun known dctx p replies t r hp he => ?_⟩
  · have hstart : DnsRun.Good { world := s } :=
      ⟨fun q hq => absurd hq List.not_mem_nil, fun h => absurd h Bool.false_ne_true⟩
    refine (always_of_meets (C := DnsRun.Keeps) ?_ hstart hm).mono fun _ h => h.watched
    intro u a v hu ha hv
    exact hu.step ha hv
  · have hsettled : wp (keeping known) p (fun _ y => y.2 ↔ Watched y.1) (s, True) := by
      rcases hp with rfl | rfl
      · exact wp_loadDnsFds fun y hy => hy.watched.trans (and_iff_right trivial)
      · exact wp_restoreDnsFds fun _ y hy => hy.watched.trans (and_iff_right trivial)
    have hiff := exec_tracking hsettled he
    rw [true_and] at hiff
    exact hiff.symm

/-- A resolver with a socket that it waits to read from. -/
def waiting (opened : List Nat) : Adns := { waits := [⟨5, POLLIN⟩], opened := opened }

/-- adns returns `r` and leaves `a`; the kernel refuses nothing. -/
def socketReply (r : Int) (a : Adns) : (o : DnsOp) → o.Rep
  | .sys o => World.loads {} |>.reply (some (.flag true)) o
  | .adnsInit | .adnsSubmit _ | .adnsBeforepoll | .adnsProcessany => (r, a)
  | .adnsCheck => (r, 0, a)
  | .adnsFinish | .adnsCancel | .adnsAfterpoll _ => a
  | .gettimeofday | .createEfd => true
  | .commonSignalfd => 4
  | .callback .. => {}
  | .closeEfd | .freeAnswer => ()

/-- There is a descriptor for signals. -/
def signalWorld : DnsWorld where
  fds := Function.update (fun _ => .closed) 4 .idle
  commonSignalfd := 4

/-- A socket to read from and one to write to; the query is written, nothing more
is to be, and an answer is read. -/
def lookup : List DnsAct :=
  let both : Adns := { waits := [⟨5, POLLIN⟩, ⟨6, POLLOUT⟩] }
  [.call (.init 0) (socketReply 0 { both with opened := [5, 6] } ::
      List.replicate 14 (socketReply 0 both)),
    .report 6 EPOLLOUT, .call (.tx 6) (List.replicate 2 (socketReply 0 (waiting []))),
    .report 5 EPOLLIN,
    .call (.rx 1) [socketReply 0 (waiting []), socketReply 11 (waiting []),
      socketReply 0 (waiting []), socketReply 0 (waiting [])]]

theorem lookup_watched :
    (exec DnsRun.step { world := signalWorld } lookup).isSome ∧
      Always DnsRun.step DnsRun.AllWatched { world := signalWorld } lookup :=
  ⟨rfl, (dns_watched signalWorld).1 lookup (by decide)⟩

/-- The socket is added, and an event of it is reported, but adns fails. -/
def failedLookup : List DnsAct :=
  [.call (.init 0) (socketReply 0 (waiting [5]) :: List.replicate 9 (socketReply 0 (waiting []))),
    .report 5 EPOLLIN, .call (.rx 1) [socketReply 5 (waiting [])]]

/-- Nothing watches the socket from then on. -/
theorem failedLookup_unwatched :
    ¬ Always DnsRun.step DnsRun.AllWatched { world := signalWorld } failedLookup := by
  intro h
  exact absurd (h.last rfl) (by decide)

end Libtorque.Dns
