import Libtorque.Session.SslStream

/-! # SSL connections that stay armed

An accepted connection is armed for one event at a time, so a handler that has
finished must leave it armed for the next one, in a direction that has a
callback, or else close it. `Rearms` names the branches that do not. -/
namespace Libtorque
open Lib

/-- A mask asks for some direction, and the entry has a callback for each. -/
structure EvSource.Serves (evs : EvSource) (e : Events) : Prop where
  some : e.has (EVREAD ||| EVWRITE)
  rx : e.has EVREAD → evs.rxfxn ≠ none
  tx : e.has EVWRITE → evs.txfxn ≠ none

instance (evs : EvSource) (e : Events) : Decidable (evs.Serves e) :=
  decidable_of_iff (e.has (EVREAD ||| EVWRITE) ∧ (e.has EVREAD → evs.rxfxn ≠ none) ∧
    (e.has EVWRITE → evs.txfxn ≠ none)) ⟨fun ⟨h, hr, ht⟩ => ⟨h, hr, ht⟩,
      fun h => ⟨h.some, h.rx, h.tx⟩⟩

/-- Closed and freed, or armed for directions that have their callbacks. -/
def Link.Served (s : Link) : Prop :=
  (s.closed ∧ s.freed) ∨ ∃ e ∈ s.armed, s.slots.Serves e

instance (s : Link) : Decidable s.Served :=
  decidable_of_iff ((s.closed ∧ s.freed) ∨ s.armed.any fun e => s.slots.Serves e)
    (by simp [Link.Served, Option.any_eq_true])

/-- When `restorefd`, if it gives `ok`, is right to arm, or to leave, the
descriptor as it does. -/
def Link.RearmOk (s : Link) (ok : Bool) : Prop :=
  match s.running, s.calling with
  -- a client without callbacks is armed for nothing
  | some .acceptContrxfxn, _ => ok → s.slots.rxfxn ≠ none ∨ s.slots.txfxn ≠ none
  -- armed for reading too, when the slot has just been cleared
  | some .sslRxfxn, none => ok → s.want ≠ some .wantWrite
  | some .sslTxrxfxn, none =>
    ok → s.want = some .wantWrite → s.slots.rxfxn ≠ none ∧ s.slots.txfxn ≠ none
  -- `ssl_tx`, called by the client
  | some .sslTxfxn, _ =>
    (ok → s.want = some .wantWrite → s.slots.rxfxn ≠ none ∧ s.slots.txfxn ≠ none) ∧
      (¬ ok → s.want = some .wantRead → ¬ s.armed.any (·.has EVWRITE))
  | _, _ => True

instance (s : Link) (ok : Bool) : Decidable (s.RearmOk ok) := by
  unfold Link.RearmOk
  cases s.running with
  | none => exact isTrue trivial
  | some f =>
    cases f <;> cases s.calling <;> first | exact isTrue trivial | dsimp only; infer_instance

/-- The branches that leave the connection armed: `accept_conttxfxn` only ends
it, `ssl_txfxn`'s callback goes on only when the descriptor is armed, and what
`restorefd` arms has its callbacks. -/
def Rearms (s : Conn) : (o : Op) → o.Rep → Bool
  | .sslGetError .., err =>
    s.running = some .acceptConttxfxn → err ≠ .wantRead ∧ err ≠ .wantWrite
  | .getBigPage, (_, page) => s.running = some .acceptConttxfxn → page = none
  | .epollCtl .., ok => s.RearmOk ok
  | .client .sslTx, .ret v => v = 0 → s.armed ≠ none
  | _, _ => true

/-- Each handler leaves the connection served. -/
def armedContract : Contract Op Op.Rep Conn where
  ok s o := o = some .leave → s.Served
  next s o r t := Rearms s o r ∧ s.next o r = some t

/-! ## Masks -/

theorem has_restored (e : Events) {f : Events} (hf : (EVEDGET ||| EVONESHOT) &&& f = 0) :
    (EVEDGET ||| EVONESHOT ||| e).has f = e.has f := by
  unfold Events.has
  rw [BitVec.and_comm, BitVec.and_or_distrib_left, BitVec.and_comm f, hf, BitVec.and_comm f]
  simp

theorem serves_restored {evs : EvSource} {e : Events} (h : evs.Serves e) :
    evs.Serves (EVEDGET ||| EVONESHOT ||| e) := by
  obtain ⟨hsome, hrx, htx⟩ := h
  refine ⟨?_, ?_, ?_⟩
  · rwa [has_restored e (by decide)]
  · rwa [has_restored e (by decide)]
  · rwa [has_restored e (by decide)]

theorem serves_read {evs : EvSource} (h : evs.rxfxn ≠ none) : evs.Serves EVREAD :=
  ⟨by decide, fun _ => h, fun hw => absurd hw (by decide)⟩

theorem serves_write {evs : EvSource} (h : evs.txfxn ≠ none) : evs.Serves EVWRITE :=
  ⟨by decide, fun hr => absurd hr (by decide), fun _ => h⟩

theorem serves_both {evs : EvSource} (h : evs.rxfxn ≠ none ∧ evs.txfxn ≠ none) :
    evs.Serves (EVREAD ||| EVWRITE) :=
  ⟨by decide, fun _ => h.1, fun _ => h.2⟩

/-! ## Between and within the handlers -/

/-- Not in a callback, and armed, if at all, for what has its callbacks. -/
structure Link.Opened (s : Link) : Prop where
  slots : HandSlots s.slots ∨ DataSlots s.slots
  armed : ∀ e ∈ s.armed, s.slots.Serves e
  idle : s.calling = none

def Link.Gone (s : Link) : Prop := s.closed = true ∧ s.freed = true

/-- What a handler leaves. -/
def Link.Done (s : Link) : Prop := s.Gone ∨ s.Opened ∧ s.armed ≠ none

theorem Link.Done.served {s : Link} (h : s.Done) : s.Served := by
  rcases h with hgone | ⟨hopen, harmed⟩
  · exact .inl hgone
  · obtain ⟨e, he⟩ := Option.ne_none_iff_exists'.mp harmed
    exact .inr ⟨e, he, hopen.armed e he⟩

/-- While `f`, a handler of the data phase, runs. `ssl_txfxn` relies on what
its callback does for the descriptor's being armed. -/
structure Link.Within (f : Fn) (s : Link) : Prop where
  slots : DataSlots s.slots
  running : s.running = some f
  rx : f = .sslRxfxn → s.slots.rxfxn = some .sslRxfxn
  armed : f = .sslTxfxn → ∀ e ∈ s.armed, s.slots.Serves e

def Op.inside : Op → Bool
  | .leave => false
  | _ => true

section Steps
variable {s : Conn} {n fd c : Nat}

theorem wp_run {o : Op} {Q : o.Rep → Conn → Prop}
    (ho : o.inside) (h : ∀ r t, Rearms s o r → s.next o r = some t → Q r t) :
    wp armedContract (perform o) Q s := by
  apply wp_op
  · intro he
    cases he
    cases ho
  · intro r t hstep
    obtain ⟨ha, ht⟩ := hstep
    exact h r t ha ht

theorem armed_cut : armedContract.ok s none := fun h => absurd h (Option.some_ne_none _).symm

theorem wp_aside {o : Op} {Q : o.Rep → Conn → Prop} (hq : o.aside)
    (h : ∀ r t, Rearms s o r → t.toLink = s.toLink → Q r t) :
    wp armedContract (perform o) Q s := by
  refine wp_run ?_ fun r t ha ht => h r t ha (next_aside hq ht)
  cases o <;> trivial

theorem wp_getError {ssl : Option Nat} {v : Int} {Q : SslErr → Conn → Prop}
    (h : ∀ err t, Rearms s (.sslGetError ssl v) err →
      t.toLink = { s.toLink with want := some err } → Q err t) :
    wp armedContract (sslGetError ssl v) Q s := by
  refine wp_run rfl ?_
  intro err t ha ht
  cases ht
  exact h err _ ha rfl

/-- A handler puts others in its place. -/
theorem wp_setSlots {rx tx : Option Fn} {α : Type} {k : Prog α} {Q : α → Conn → Prop}
    (h : ∀ t, t.toLink = { s.toLink with slots := ⟨rx, tx, s.slots.cbstate⟩ } →
      wp armedContract k Q t) :
    wp armedContract (do
      setEvsourceRx fd rx
      setEvsourceTx fd tx
      k) Q s := by
  rw [wp_do]
  refine wp_run rfl ?_
  intro _ t _ ht
  cases ht
  rw [wp_do]
  refine wp_run rfl ?_
  intro _ u _ hu
  cases hu
  exact h _ rfl

theorem wp_restore {e : Events} {Q : Int → Conn → Prop}
    (hok : ∀ t, s.RearmOk true →
      t.toLink = { s.toLink with armed := some (EVEDGET ||| EVONESHOT ||| e) } → Q 0 t)
    (hfail : s.RearmOk false → Q (-1) s) : wp armedContract (restorefd fd e) Q s := by
  unfold restorefd
  rw [wp_do]
  refine wp_run rfl ?_
  intro ok t ha ht
  rcases epollCtl_cases ht with ⟨rfl, -, rfl⟩ | ⟨rfl, rfl⟩
  · exact hok _ (of_decide_eq_true ha) rfl
  · exact hfail (of_decide_eq_true ha)

theorem wp_gone {Q : Unit → Conn → Prop} (hQ : ∀ t : Conn, t.Gone → Q () t) :
    wp armedContract (freeAndClose c fd) Q s := by
  unfold freeAndClose freeSslCbstate freeRxbuffer
  rw [wp_do, wp_do]
  refine wp_aside rfl ?_
  intro sc t _ _
  rw [wp_do]
  refine wp_aside rfl ?_
  intro _ u _ _
  rw [wp_do, wp_do]
  refine wp_aside rfl ?_
  intro rxb v _ _
  refine wp_aside rfl ?_
  intro _ w _ _
  refine wp_run rfl ?_
  intro _ x _ hx
  cases hx
  refine wp_run rfl ?_
  intro _ y _ hy
  cases hy
  exact hQ _ ⟨rfl, rfl⟩

/-- The end of a handler that re-arms the descriptor itself. -/
theorem wp_rearmed {e : Events} {Q : Unit → Conn → Prop}
    (hslots : HandSlots s.slots ∨ DataSlots s.slots) (hidle : s.calling = none)
    (he : s.RearmOk true → s.slots.Serves e) (hQ : ∀ t : Conn, t.Done → Q () t) :
    wp armedContract (do
      let r ← restorefd fd e
      if r ≠ 0 then freeAndClose c fd else pure ()) Q s := by
  rw [wp_do]
  apply wp_restore
  · intro t hok ht
    rw [if_neg (by simp)]
    refine hQ t (.inr ⟨⟨?_, ?_, ?_⟩, ?_⟩)
    · rw [ht]
      exact hslots
    · rw [ht]
      rintro _ ⟨⟩
      exact serves_restored (he hok)
    · rw [ht]
      exact hidle
    · rw [ht]
      exact Option.some_ne_none _
  · intro _
    rw [if_pos (by decide)]
    exact wp_gone fun t ht => hQ t (.inl ht)

end Steps

/-! ## The data phase -/

section DataPhase
variable {s : Conn} {n fd c : Nat} {f : Fn}

theorem Link.Within.want {s : Link} {err : SslErr} (h : s.Within f) :
    Link.Within f { s with want := some err } :=
  ⟨h.slots, h.running, h.rx, h.armed⟩

/-- What `ssl_tx` puts in the slots to wait for input. -/
theorem dataSlots_read {evs : EvSource} (h : DataSlots evs) :
    DataSlots ⟨some .sslRxfxn, none, evs.cbstate⟩ :=
  ⟨.inr rfl, .inl rfl, h.state⟩

/-- `ssl_tx` after a failed `SSL_write`, called by the client. -/
theorem within_sslTxError {err : SslErr} {ret : Int} {Q : Int → Conn → Prop} (h : s.Within f)
    (hw : s.want = some err) (hQ : ∀ v t : _, Link.Within f t.toLink → Q v t) :
    wp armedContract (sslTxError fd err ret) Q s := by
  cases err with
  | wantRead =>
    unfold sslTxError
    refine wp_setSlots fun u hu => ?_
    have hrun : u.running = some f := by rw [hu]; exact h.running
    have hwant : u.want = some .wantRead := by rw [hu]; exact hw
    rw [wp_do]
    apply wp_restore
    · intro v _ hv
      rw [if_neg (by simp)]
      refine hQ ret v ⟨?_, ?_, ?_, ?_⟩
      · rw [hv, hu]
        exact dataSlots_read h.slots
      · rw [hv]
        exact hrun
      · intro _
        rw [hv, hu]
      · intro _
        rw [hv, hu]
        rintro _ ⟨⟩
        exact serves_restored (serves_read (Option.some_ne_none _))
    · intro hok
      rw [if_pos (by decide)]
      refine hQ (-1) u ⟨?_, hrun, ?_, ?_⟩
      · rw [hu]
        exact dataSlots_read h.slots
      · intro _
        rw [hu]
      · -- still armed as before, and so not for writing
        intro hf e he
        subst hf
        unfold Link.RearmOk at hok
        rw [hrun] at hok
        have hno : ¬ e.has EVWRITE := by
          intro hw
          refine hok.2 (by decide) hwant ?_
          rw [Option.mem_def.mp he]
          exact hw
        rw [hu] at he
        obtain ⟨hsome, -, -⟩ := h.armed rfl e he
        rw [hu]
        exact ⟨hsome, fun _ => Option.some_ne_none _, fun ht => absurd ht hno⟩
  | wantWrite =>
    unfold sslTxError
    rw [wp_do]
    apply wp_restore
    · intro t hok ht
      rw [if_neg (by simp)]
      refine hQ ret t ⟨?_, ?_, ?_, ?_⟩
      · rw [ht]
        exact h.slots
      · rw [ht]
        exact h.running
      · intro hf
        rw [ht]
        exact h.rx hf
      · intro hf
        subst hf
        unfold Link.RearmOk at hok
        rw [h.running] at hok
        rw [ht]
        rintro _ ⟨⟩
        exact serves_restored (serves_both (hok.1 rfl hw))
    · intro _
      rw [if_pos (by decide)]
      exact hQ (-1) s h
  | other _ => exact hQ (-1) s h

theorem within_sslTx {len : Int} {Q : Int → Conn → Prop} (h : s.Within f)
    (hQ : ∀ v t : _, Link.Within f t.toLink → Q v t) :
    wp armedContract (sslTx n fd c len) Q s := by
  refine wp_loop (fun _ t => t.Within f) (fun _ _ _ => armed_cut) ?_ n h
  intro ret t ht
  split
  · rw [wp_do]
    refine wp_aside rfl fun sc u _ hu => ?_
    rw [wp_do]
    refine wp_aside rfl fun r v _ hv => ?_
    have hwv : v.Within f := by rw [hv, hu]; exact ht
    split
    · exact hwv
    · rw [wp_do]
      refine wp_getError fun err w _ hw => ?_
      have hww : w.Within f := by rw [hw]; exact hwv.want
      rw [wp_do]
      exact within_sslTxError hww (by rw [hw]) hQ
  · exact hQ ret t ht

/-- A callback of the client. After `ssl_txfxn`'s, the descriptor is armed. -/
theorem within_callSsl {kind : CbKind} {cb : Option Nat} {Q : Int → Conn → Prop}
    (h : s.Within f) (hQ : ∀ (v : Int) (t : Conn), t.Within f → t.calling = none →
      (kind = .sslTx → v = 0 → t.armed ≠ none) → Q v t) :
    wp armedContract (callSsl n kind cb fd c) Q s := by
  unfold callSsl
  rw [wp_do]
  refine wp_run rfl fun _ t _ ht => ?_
  obtain ⟨-, rfl⟩ := callback_cases ht
  refine wp_loop (fun _ t => t.Within f) (fun _ _ _ => armed_cut) ?_ n
    ⟨h.slots, h.running, h.rx, h.armed⟩
  intro _ t ht
  rw [wp_do]
  refine wp_run rfl fun a u ha hu => ?_
  simp only [Conn.next, Conn.client] at hu
  cases a with
  | advance k =>
    dsimp only at hu
    split at hu <;> cases hu
    rw [wp_do]
    refine wp_aside rfl fun _ v _ hv => ?_
    show v.Within f
    rw [hv]
    exact ht
  | sslTx len =>
    cases hu
    rw [wp_do]
    exact within_sslTx ht fun _ v hv => hv
  | close =>
    cases hu
    rw [wp_do]
    refine wp_run rfl fun _ v _ hv => ?_
    cases hv
    exact ⟨ht.slots, ht.running, ht.rx, fun _ e he => absurd he (Option.not_mem_none e)⟩
  | ret v =>
    cases hu
    refine hQ v _ ⟨ht.slots, ht.running, ht.rx, ht.armed⟩ rfl ?_
    rintro rfl hz
    exact of_decide_eq_true ha hz

theorem within_sslReadLoop {more : Int → Bool} {Q : Option Int → Conn → Prop}
    (h : s.Within f) (hidle : s.calling = none) (hclose : ∀ t, Q none t)
    (hend : ∀ (r : Int) (t : Conn), t.Within f → t.calling = none → Q (some r) t) :
    wp armedContract (sslReadLoop more n fd c) Q s := by
  refine wp_loop (fun _ t => t.Within f ∧ t.calling = none) (fun _ _ _ => armed_cut) ?_ n ⟨h, hidle⟩
  intro _ t ⟨ht, hti⟩
  rw [wp_do]
  refine wp_aside rfl fun sc u _ hu => ?_
  rw [wp_do]
  unfold rxbufferSsl
  rw [wp_do]
  refine wp_aside rfl fun rxb v _ hv => ?_
  rw [wp_do]
  refine wp_aside rfl fun res w _ hw => ?_
  have hww : w.toLink = t.toLink := by rw [hw, hv, hu]
  have more (r : Int) (w : Conn) (hww : w.toLink = t.toLink) : wp armedContract
      (if more r then do
        let sc ← fields c
        let cb ← callSsl n .sslRx sc.rxfxn fd c
        if cb ≠ 0 then pure (.inr none) else pure (.inl ())
      else pure (.inr (some r)) : Prog (Unit ⊕ Option Int))
      (fun x t => x.elim (fun _ => t.Within f ∧ t.calling = none) (Q · t)) w := by
    split
    · rw [wp_do]
      refine wp_aside rfl fun sc x _ hx => ?_
      have hwx : x.Within f := by rw [hx, hww]; exact ht
      rw [wp_do]
      refine within_callSsl hwx fun cb y hy hyi _ => ?_
      split
      · exact hclose y
      · exact ⟨hy, hyi⟩
    · refine hend r w ?_ ?_
      · rw [hww]; exact ht
      · rw [hww]; exact hti
  split
  · rw [wp_do]
    refine wp_aside rfl fun _ x _ hx => ?_
    exact more _ x (hx.trans hww)
  · exact more _ w hww

theorem done_sslTxrxfxn {Q : Unit → Conn → Prop} (h : s.Within .sslTxrxfxn)
    (hidle : s.calling = none) (hQ : ∀ t : Conn, t.Done → Q () t) :
    wp armedContract (sslTxrxfxn n fd c) Q s := by
  have gone (t : Conn) : wp armedContract (freeAndClose c fd) Q t :=
    wp_gone fun u hu => hQ u (.inl hu)
  unfold sslTxrxfxn
  rw [wp_do]
  refine within_sslReadLoop h hidle gone fun r t ht hti => ?_
  dsimp only
  rw [wp_do]
  refine wp_aside rfl fun sc u _ hu => ?_
  rw [wp_do]
  refine wp_getError fun err v _ hv => ?_
  rw [hu] at hv
  cases err with
  | wantRead =>
    dsimp only
    refine wp_setSlots fun x hx => ?_
    rw [hv] at hx
    apply wp_rearmed
    · rw [hx]
      exact .inr (dataSlots_read ht.slots)
    · rw [hx]
      exact hti
    · intro _
      rw [hx]
      exact serves_read (Option.some_ne_none _)
    · exact hQ
  | wantWrite =>
    apply wp_rearmed
    · rw [hv]
      exact .inr ht.slots
    · rw [hv]
      exact hti
    · intro hok
      unfold Link.RearmOk at hok
      have hrun : v.running = some .sslTxrxfxn := by rw [hv]; exact ht.running
      have hcall : v.calling = none := by rw [hv]; exact hti
      rw [hrun, hcall] at hok
      exact serves_both (hok rfl (by rw [hv]))
    · exact hQ
  | other _ => exact gone v

theorem done_sslRxfxn {Q : Unit → Conn → Prop} (h : s.Within .sslRxfxn)
    (hidle : s.calling = none) (hQ : ∀ t : Conn, t.Done → Q () t) :
    wp armedContract (sslRxfxn n fd c) Q s := by
  have gone (t : Conn) : wp armedContract (freeAndClose c fd) Q t :=
    wp_gone fun u hu => hQ u (.inl hu)
  unfold sslRxfxn
  rw [wp_do]
  refine within_sslReadLoop h hidle gone fun r t ht hti => ?_
  dsimp only
  rw [wp_do]
  refine wp_aside rfl fun sc u _ hu => ?_
  rw [wp_do]
  refine wp_getError fun err v _ hv => ?_
  rw [hu] at hv
  cases err with
  | wantWrite =>
    dsimp only
    refine wp_setSlots fun x hx => ?_
    rw [hv] at hx
    apply wp_rearmed
    · rw [hx]
      exact .inr ⟨.inl rfl, .inr (.inl rfl), ht.slots.state⟩
    · rw [hx]
      exact hti
    · -- reading is asked for although its slot is empty
      intro hok
      unfold Link.RearmOk at hok
      have hrun : x.running = some .sslRxfxn := by rw [hx]; exact ht.running
      have hcall : x.calling = none := by rw [hx]; exact hti
      rw [hrun, hcall] at hok
      exact absurd (by rw [hx]) (hok rfl)
    · exact hQ
  | wantRead =>
    apply wp_rearmed
    · rw [hv]
      exact .inr ht.slots
    · rw [hv]
      exact hti
    · intro _
      refine serves_read ?_
      rw [hv]
      show t.slots.rxfxn ≠ none
      rw [ht.rx rfl]
      exact Option.some_ne_none _
    · exact hQ
  | other _ => exact gone v

theorem done_sslTxfxn {Q : Unit → Conn → Prop} (h : s.Within .sslTxfxn)
    (hQ : ∀ t : Conn, t.Done → Q () t) : wp armedContract (sslTxfxn n fd c) Q s := by
  have gone (t : Conn) : wp armedContract (freeAndClose c fd) Q t :=
    wp_gone fun u hu => hQ u (.inl hu)
  unfold sslTxfxn
  rw [wp_do]
  refine wp_aside rfl fun sc t _ ht => ?_
  split
  · exact gone t
  · have hwt : t.Within .sslTxfxn := by rw [ht]; exact h
    rw [wp_do]
    refine within_callSsl hwt fun r u hu hidle harmed => ?_
    split
    · exact gone u
    · rename_i hz
      exact hQ u (.inr ⟨⟨.inr hu.slots, hu.armed rfl, hidle⟩, harmed rfl (not_not.mp hz)⟩)

end DataPhase

/-! ## The handshake -/

section Handshake
variable {s : Conn} {n fd c : Nat} {Q : Unit → Conn → Prop}

/-- Only `accept_conttxfxn` cares about how a buffer is found. -/
theorem wp_newRxbuffer {Q : Int → Conn → Prop}
    (hok : ∀ t, (s.running ≠ some .acceptConttxfxn) → t.toLink = s.toLink → Q 0 t)
    (hfail : ∀ t, t.toLink = s.toLink → Q (-1) t) :
    wp armedContract (initializeRxbuffer c) Q s := by
  unfold initializeRxbuffer
  rw [wp_do]
  refine wp_aside rfl fun rxb t _ ht => ?_
  rw [wp_do]
  refine wp_aside rfl fun r u ha hu => ?_
  obtain ⟨size, _ | page⟩ := r
  · dsimp only
    rw [wp_do]
    refine wp_aside rfl fun _ v _ hv => ?_
    exact hfail v (by rw [hv, hu, ht])
  · dsimp only
    rw [wp_do]
    refine wp_aside rfl fun _ v _ hv => ?_
    refine hok v ?_ (by rw [hv, hu, ht])
    intro hrun
    rw [← ht] at hrun
    cases of_decide_eq_true ha hrun

theorem serves_sslSlots (rx tx : Option Fn) (st : CbState) (h : rx ≠ none ∨ tx ≠ none) :
    EvSource.Serves ⟨rx, tx, st⟩
      ((if rx.isSome then EVREAD else 0) ||| (if tx.isSome then EVWRITE else 0)) := by
  cases rx with
  | none =>
    cases tx with
    | none => simp at h
    | some f => simpa using @serves_write ⟨none, some f, st⟩ (Option.some_ne_none f)
  | some f =>
    cases tx with
    | none => simpa using @serves_read ⟨some f, none, st⟩ (Option.some_ne_none f)
    | some g =>
      simpa using @serves_both ⟨some f, some g, st⟩ ⟨Option.some_ne_none f, Option.some_ne_none g⟩

theorem done_acceptContrxfxn (h : HandSlots s.slots) (hrun : s.running = some .acceptContrxfxn)
    (hrx : s.slots.rxfxn ≠ none) (hidle : s.calling = none) (hQ : ∀ t : Conn, t.Done → Q () t) :
    wp armedContract (acceptContrxfxn fd c) Q s := by
  have gone (t : Conn) : wp armedContract (freeAndClose c fd) Q t :=
    wp_gone fun u hu => hQ u (.inl hu)
  unfold acceptContrxfxn
  rw [wp_do]
  refine wp_aside rfl fun sc t _ ht => ?_
  rw [wp_do]
  refine wp_aside rfl fun ret u _ hu => ?_
  have hus : u.toLink = s.toLink := hu.trans ht
  split
  · dsimp only
    rw [wp_do]
    apply wp_newRxbuffer
    · intro v _ hv
      rw [if_neg (by simp)]
      refine wp_setSlots fun w hw => ?_
      rw [hv, hus] at hw
      apply wp_rearmed
      · rw [hw]
        obtain ⟨hrx, htx⟩ := sslSlots_data sc
        exact .inr ⟨hrx, htx, h.state⟩
      · rw [hw]
        exact hidle
      · -- armed for what the client has callbacks for
        intro hok
        unfold Link.RearmOk at hok
        rw [hw] at hok ⊢
        rw [hrun] at hok
        exact serves_sslSlots _ _ _ (hok rfl)
      · exact hQ
    · intro v _
      rw [if_pos (by decide)]
      exact gone v
  · rw [wp_do]
    refine wp_getError fun err v _ hv => ?_
    rw [hus] at hv
    cases err with
    | wantWrite =>
      refine wp_setSlots fun w hw => ?_
      rw [hv] at hw
      apply wp_rearmed
      · rw [hw]
        exact .inl ⟨.inl rfl, .inr rfl, h.state⟩
      · rw [hw]
        exact hidle
      · intro _
        rw [hw]
        exact serves_write (Option.some_ne_none _)
      · exact hQ
    | wantRead =>
      apply wp_rearmed
      · rw [hv]
        exact .inl h
      · rw [hv]
        exact hidle
      · intro _
        rw [hv]
        exact serves_read hrx
      · exact hQ
    | other _ => exact gone v

/-- Never armed again: the handler may only end the connection. -/
theorem done_acceptConttxfxn (hrun : s.running = some .acceptConttxfxn)
    (hQ : ∀ t : Conn, t.Done → Q () t) : wp armedContract (acceptConttxfxn fd c) Q s := by
  have gone (t : Conn) : wp armedContract (freeAndClose c fd) Q t :=
    wp_gone fun u hu => hQ u (.inl hu)
  unfold acceptConttxfxn
  rw [wp_do]
  refine wp_aside rfl fun sc t _ ht => ?_
  rw [wp_do]
  refine wp_aside rfl fun ret u _ hu => ?_
  have hrun : u.running = some .acceptConttxfxn := by rw [hu, ht]; exact hrun
  split
  · dsimp only
    rw [wp_do]
    apply wp_newRxbuffer
    · intro v hno _
      exact absurd hrun hno
    · intro v _
      rw [if_pos (by decide)]
      exact gone v
  · rw [wp_do]
    refine wp_getError fun err v ha hv => ?_
    obtain ⟨hread, hwrite⟩ := of_decide_eq_true ha hrun
    cases err with
    | wantRead => exact absurd rfl hread
    | wantWrite => exact absurd rfl hwrite
    | other _ => exact gone v

end Handshake

/-! ## Events, from the first handshake on -/

section Session
variable {s : Conn} {n sd fd c : Nat} {sc : CbFields}

/-- Waiting for an event, with what has registered the connection. -/
def Link.Waits (s : Link) : Prop :=
  s.Gone ∨ (HandSlots s.slots ∨ DataSlots s.slots) ∧ s.calling = none

theorem Link.Opened.waits {s : Link} (h : s.Gone ∨ s.Opened) : s.Waits :=
  h.imp_right fun h => ⟨h.slots, h.idle⟩

theorem wp_entry {Q : EvSource → Conn → Prop} (hQ : Q s.slots s) :
    wp armedContract (evsource fd) Q s := by
  refine wp_run rfl fun r t _ ht => ?_
  obtain ⟨rfl, rfl⟩ := evsource_cases ht
  exact hQ

/-- A handler found in a slot ends with the connection served. -/
theorem served_handleSlot {slot : Option Fn} {Q : Unit → Conn → Prop} (h : s.Gone ∨ s.Opened)
    (hslot : slot = s.slots.rxfxn ∨ slot = s.slots.txfxn)
    (hQ : ∀ t : Conn, t.Gone ∨ t.Opened → Q () t) :
    wp armedContract (handleSlot n fd slot s.slots.cbstate) Q s := by
  have leave (t : Conn) (ht : t.Done) : wp armedContract (perform .leave) Q t := by
    refine wp_op (fun _ => ht.served) ?_
    intro _ u hstep
    obtain ⟨-, hu⟩ := hstep
    cases hu
    rcases ht with hgone | ⟨hopen, -⟩
    · exact hQ _ (.inl hgone)
    · exact hQ _ (.inr ⟨hopen.slots, hopen.armed, hopen.idle⟩)
  refine wp_slot (fun _ => hQ s h) fun f hsome => ?_
  subst hsome
  refine wp_run rfl fun _ t _ ht => ?_
  obtain ⟨hfreed, rfl⟩ := enter_cases ht
  rcases h with ⟨-, hgone⟩ | ⟨hslots, harmed, hidle⟩
  · exact absurd hgone (Bool.eq_false_iff.mp hfreed)
  rcases hslots with hs | hs
  · obtain ⟨c, hc⟩ := hs.state
    rw [hc]
    rcases hslot with hf | hf
    · have hrx : s.slots.rxfxn ≠ none := hf ▸ Option.some_ne_none f
      rcases hs.rx with hrx' | hrx' <;> rw [hrx'] at hf <;> cases hf
      exact done_acceptContrxfxn hs rfl hrx hidle leave
    · rcases hs.tx with htx | htx <;> rw [htx] at hf <;> cases hf
      exact done_acceptConttxfxn rfl leave
  · obtain ⟨c, hc⟩ := hs.state
    rw [hc]
    rcases hslot with hf | hf
    · rcases hs.rx with hrx | hrx <;> rw [hrx] at hf <;> cases hf
      exact done_sslRxfxn ⟨hs, rfl, fun _ => hrx, fun hf => absurd hf (by decide)⟩ hidle leave
    · rcases hs.tx with htx | htx | htx <;> rw [htx] at hf <;> cases hf
      · exact done_sslTxrxfxn ⟨hs, rfl, fun hf => absurd hf (by decide),
          fun hf => absurd hf (by decide)⟩ hidle leave
      · exact done_sslTxfxn ⟨hs, rfl, fun hf => absurd hf (by decide), fun _ => harmed⟩ leave

theorem served_handleEvents (h : s.Waits) :
    wp armedContract (handleEvents n fd) (fun _ _ => True) s := by
  refine wp_loop (fun _ t => t.Waits) (fun _ _ _ => armed_cut) ?_ n h
  intro _ t ht
  rw [wp_do]
  refine wp_run rfl fun e u _ hu => ?_
  obtain ⟨hlive, -, rfl⟩ := event_cases hu
  -- the one-shot registration is spent
  have hu : Link.Gone { t with armed := none } ∨ Link.Opened { t with armed := none } := by
    rcases ht with ⟨hclosed, -⟩ | ⟨hslots, hidle⟩
    · exact absurd hclosed (Bool.eq_false_iff.mp hlive)
    · exact .inr ⟨hslots, fun e he => absurd he (Option.not_mem_none e), hidle⟩
  rw [wp_do]
  refine wp_handleEvent (M := fun v : Conn => v.Gone ∨ v.Opened) (fun _ => ?_) (fun _ => hu)
    (fun v hv _ => ?_) fun v hv _ => Link.Opened.waits hv
  · exact wp_entry (served_handleSlot hu (.inl rfl) fun _ hv => hv)
  · exact wp_entry (served_handleSlot hv (.inr rfl) fun _ hw => Link.Opened.waits hw)

theorem freed_sslCbstate {Q : Unit → Conn → Prop} (hQ : ∀ t, Q () t) :
    wp armedContract (freeSslCbstate c) Q s := by
  unfold freeSslCbstate freeRxbuffer
  rw [wp_do]
  refine wp_aside rfl fun sc t _ _ => ?_
  rw [wp_do]
  refine wp_aside rfl fun _ u _ _ => ?_
  rw [wp_do, wp_do]
  refine wp_aside rfl fun rxb v _ _ => ?_
  refine wp_aside rfl fun _ w _ _ => ?_
  exact wp_run rfl fun _ x _ _ => hQ x

theorem waits_sslRegister {rx tx : Option Fn} {Q : Int → Conn → Prop} (hidle : s.calling = none)
    (hsl : HandSlots ⟨rx, tx, .object c⟩ ∨ DataSlots ⟨rx, tx, .object c⟩)
    (hok : ∀ t : Conn, t.Waits → Q 0 t) (hfail : ∀ t, Q (-1) t) :
    wp armedContract (sslRegister sd c rx tx) Q s := by
  have fail (t : Conn) : wp armedContract
      (if (-1 : Int) ≠ 0 then do freeSslCbstate c; pure (-1) else pure 0) Q t := by
    rw [if_pos (by decide), wp_do]
    exact freed_sslCbstate hfail
  unfold sslRegister torqueAddfdUnbuffered addFdToEvhandler
  rw [wp_do, if_neg (by omega), wp_do]
  refine wp_aside rfl fun size t _ ht => ?_
  split
  · exact fail t
  · unfold setupEvsource
    rw [wp_do, wp_do]
    refine wp_run rfl fun _ u _ hu => ?_
    cases hu
    rw [wp_do]
    refine wp_run rfl fun _ u _ hu => ?_
    cases hu
    refine wp_run rfl fun _ u _ hu => ?_
    cases hu
    unfold addFdEvent
    rw [wp_do, if_neg (by decide), wp_do]
    refine wp_run rfl fun ok u _ hu => ?_
    rcases epollCtl_cases hu with ⟨rfl, -, rfl⟩ | ⟨rfl, rfl⟩
    · refine hok _ (.inr ⟨hsl, ?_⟩)
      show t.calling = none
      rw [ht]
      exact hidle
    · exact fail _

theorem waits_sslHandshake {ssl : Option Nat} {Q : Int → Conn → Prop} (hidle : s.calling = none)
    (hok : ∀ t : Conn, t.Waits → Q 0 t) (hfail : ∀ t, Q (-1) t) :
    wp armedContract (sslHandshake sd c ssl sc) Q s := by
  have free (t : Conn) : wp armedContract (do freeSslCbstate c; pure (-1)) Q t := by
    rw [wp_do]
    exact freed_sslCbstate hfail
  unfold sslHandshake
  rw [wp_do]
  refine wp_aside rfl fun ret t _ ht => ?_
  by_cases hret : ret = 1
  · rw [if_pos hret]
    dsimp only
    rw [wp_do]
    apply wp_newRxbuffer
    · intro u _ hu
      rw [if_neg (by simp)]
      obtain ⟨hrx, htx⟩ := sslSlots_data sc
      exact waits_sslRegister (by rw [hu, ht]; exact hidle) (.inr ⟨hrx, htx, c, rfl⟩) hok hfail
    · intro u _
      rw [if_pos (by decide)]
      exact free u
  · rw [if_neg hret, wp_do]
    refine wp_getError fun err u _ hu => ?_
    have hui : u.calling = none := by rw [hu, ht]; exact hidle
    cases err with
    | wantWrite => exact waits_sslRegister hui (.inl ⟨.inl rfl, .inr rfl, c, rfl⟩) hok hfail
    | wantRead => exact waits_sslRegister hui (.inl ⟨.inr rfl, .inl rfl, c, rfl⟩) hok hfail
    | other _ => exact free u

theorem waits_sslAcceptInternal {Q : Int → Conn → Prop} (hidle : s.calling = none)
    (hok : ∀ t : Conn, t.Waits → Q 0 t) (hfail : ∀ t, Q (-1) t) :
    wp armedContract (sslAcceptInternal sd sc) Q s := by
  have free (c : Nat) (t : Conn) : wp armedContract (do freeSslCbstate c; pure (-1)) Q t := by
    rw [wp_do]
    exact freed_sslCbstate hfail
  unfold sslAcceptInternal createSslCbstate
  rw [wp_do, wp_do]
  refine wp_aside rfl fun r t _ ht => ?_
  cases r with
  | none => exact hfail t
  | some c =>
    dsimp only
    rw [wp_do]
    apply wp_newRxbuffer
    · intro u _ hu
      rw [if_pos rfl, wp_do]
      refine wp_aside rfl fun _ v _ hv => ?_
      rw [wp_pure]
      dsimp only
      rw [wp_do]
      refine wp_aside rfl fun ssl w _ hw => ?_
      cases ssl with
      | none => exact free c w
      | some ssl =>
        dsimp only
        rw [wp_do]
        refine wp_aside rfl fun f x _ hx => ?_
        rw [wp_do]
        refine wp_aside rfl fun _ y _ hy => ?_
        rw [wp_do]
        refine wp_aside rfl fun r z _ hz => ?_
        have hzs : z.toLink = s.toLink := by rw [hz, hy, hx, hw, hv, hu, ht]
        split
        · exact free c z
        · exact waits_sslHandshake (by rw [hzs]; exact hidle) hok hfail
    · intro u _
      rw [if_neg (by decide), wp_do]
      exact wp_run rfl fun _ v _ _ => hfail v

theorem served_sslSession (h : s.calling = none) :
    wp armedContract (sslSession n sd sc) (fun _ _ => True) s := by
  unfold sslSession
  rw [wp_do]
  apply waits_sslAcceptInternal h
  · intro t ht
    rw [if_neg (by simp)]
    exact served_handleEvents ht
  · intro t
    rw [if_pos (by decide)]
    exact wp_run rfl fun _ _ _ _ => trivial

/-- An accepted connection, in the runs that keep away from the branches that
do not re-arm it: whenever a handler has finished with an event, the connection
has been closed and freed, or is armed for what its slots have callbacks for. -/
theorem sslSession_served (n sd : Nat) (sc : CbFields) (replies : List ((o : Op) → o.Rep))
    (hc : Meets (Prog.step Conn.next) (Prog.Assume Rearms) ({}, sslSession n sd sc) replies) :
    Always (Prog.step Conn.next) (fun x => x.2.op = some .leave → x.1.Served)
      ({}, sslSession n sd sc) replies := by
  refine (always_of_wp (K := armedContract) (fun _ _ _ _ ha ht => ⟨ha, ht⟩)
    (served_sslSession rfl) hc).mono ?_
  rintro ⟨s, _ | _ | _⟩ h hop
  · cases hop
  · exact h hop
  · cases hop

/-- Data comes in, is answered, and the next event finds the connection in error. -/
theorem sslSession_served_data :
    Always (Prog.step Conn.next) (fun x => x.2.op = some .leave → x.1.Served)
      ({}, sslSession 9 5 { rxfxn := some 1 })
      (script Conn.next Conn.loads 60 ({}, sslSession 9 5 { rxfxn := some 1 })
        (connected [.io (.bytes [1, 2]), .act (.advance 2), .act (.sslTx 1), .int 1, .act (.ret 0),
          .io (.ret (-1)), .err .wantRead, .flag true, .events EVREAD, .io (.ret (-1)),
          .err (.other 1)])) :=
  sslSession_served 9 5 _ _ (by decide)

/-- The handshake wants to write, is done at the next event, and is never
armed again. -/
theorem sslSession_stuck :
    ¬ Always (Prog.step Conn.next) (fun x => x.2.op = some .leave → x.1.Served)
      ({}, sslSession 3 5 { rxfxn := some 1 })
      (script Conn.next Conn.loads 26 ({}, sslSession 3 5 { rxfxn := some 1 })
        [.ptr (some 0), .page 4 (some ⟨0, [0, 0, 0, 0]⟩), .ptr (some 9), .int 1, .int (-1),
          .err .wantWrite, .flag true, .events EVWRITE, .int 1,
          .page 4 (some ⟨1, [0, 0, 0, 0]⟩)]) := by
  decide

end Session

end Libtorque
