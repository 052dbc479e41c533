import Libtorque.Session.Armed
import Libtorque.Session.Observed

/-! # Buffered descriptors that stay armed

A buffered descriptor is armed for one event at a time too. Its handlers arm it
again after input has run out, at its end, and after `tx` has been called, and
an event that leads to none of these leaves the descriptor unwatched. -/
namespace Libtorque
open Lib

/-- Closed, or armed for a direction that has a callback. A callback that has
returned something else than 0 has closed the descriptor. -/
def Observed.Rearmed (s : Observed) : Prop :=
  s.closed ∨ s.quit ∨ ∃ e ∈ s.armed,
    (e.has EVREAD ∧ s.slots.rxfxn ≠ none) ∨ (e.has EVWRITE ∧ s.slots.txfxn ≠ none)

instance (s : Observed) : Decidable s.Rearmed :=
  decidable_of_iff (s.closed ∨ s.quit ∨ s.armed.any fun e =>
      (e.has EVREAD ∧ s.slots.rxfxn ≠ none) ∨ (e.has EVWRITE ∧ s.slots.txfxn ≠ none))
    (by simp [Observed.Rearmed, Option.any_eq_true])

/-- An event finds `rx` for input, or `tx` for output while there is input left
to release; and at the end of the input there is a `tx` to be armed for. -/
def Resumes (s : Observed) : (o : Op) → o.Rep → Bool
  | .event, e =>
    s.quit ∨ (e.has EVREAD ∧ s.slots.rxfxn ≠ none) ∨
      (e.has EVWRITE ∧ s.slots.txfxn ≠ none ∧ sizeSub s.rxb.bufoff s.rxb.bufate ≠ 0)
  | .epollCtl .mod _ _, ok =>
    ok → s.running = some .bufferedRxfxn → s.eof → s.quit ∨ s.slots.txfxn ≠ none
  | _, _ => true

/-- Between events the descriptor is armed. -/
def resumedContract : Contract Op Op.Rep Observed :=
  observing (fun s o => o = some .event → s.Rearmed) Resumes

/-! ## What a handler keeps -/

/-- Closed for good: what happens to it does not matter any more. -/
def Observed.Over (s : Observed) : Prop := s.closed = true ∨ s.quit = true

theorem Observed.Over.rearmed {s : Observed} (h : s.Over) : s.Rearmed := by
  rcases h with h | h
  · exact .inl h
  · exact .inr (.inl h)

/-- Operations that do not change what is registered, nor whether the input has ended. -/
def Op.withinHandler : Op → Bool
  | .event | .enter .. | .leave | .setEvsourceRx .. | .setEvsourceTx .. | .setEvsourceState ..
  | .epollCtl .. | .read .. => false
  | _ => true

theorem next_within {s t : Conn} {o : Op} {r : o.Rep} (ho : o.withinHandler)
    (h : s.next o r = some t) :
    t.slots = s.slots ∧ t.running = s.running ∧ t.eof = s.eof := by
  cases o <;> simp only [Op.withinHandler, Bool.false_eq_true] at ho <;>
    simp only [Conn.next, reduceCtorEq, Option.some.injEq] at h
  case client =>
    unfold Conn.client at h
    split at h
    · split at h <;> cases h
      exact ⟨rfl, rfl, rfl⟩
    · cases h; exact ⟨rfl, rfl, rfl⟩
    · cases h; exact ⟨rfl, rfl, rfl⟩
  case sslRead =>
    rcases sslRead_cases h with ⟨_, _, _, _, rfl⟩ | ⟨_, _, _, rfl⟩ <;> exact ⟨rfl, rfl, rfl⟩
  case getBigPage =>
    unfold Conn.getBigPage at h
    split at h
    · cases h; exact ⟨rfl, rfl, rfl⟩
    · split at h <;> cases h
      exact ⟨rfl, rfl, rfl⟩
  case modPages =>
    unfold Conn.modPages at h
    split at h
    · cases h; exact ⟨rfl, rfl, rfl⟩
    · split at h <;> cases h
      exact ⟨rfl, rfl, rfl⟩
  all_goals
    first
    | (subst h; exact ⟨rfl, rfl, rfl⟩)
    | (split at h <;> cases h; exact ⟨rfl, rfl, rfl⟩)

/-- How the descriptor is registered, and which handler of it runs. -/
structure Observed.Runs (f : Fn) (evs : EvSource) (s : Observed) : Prop where
  slots : s.slots = evs
  running : s.running = some f

section Handlers
variable {s : Observed} {n fd c : Nat} {f : Fn} {evs : EvSource}

theorem resumed_cut : resumedContract.ok s none := fun h => absurd h (Option.some_ne_none _).symm

/-- Steps in which nothing happens to the registration. -/
theorem wp_inside {o : Op} {Q : o.Rep → Observed → Prop} (ho : o.withinHandler)
    (h : s.Runs f evs) (hQ : ∀ r t, Observed.Runs f evs t → t.eof = s.eof → Q r t) :
    wp resumedContract (perform o) Q s := by
  refine wp_observe ?_ ?_
  · intro he
    cases he
    cases ho
  · intro r t _ ht
    obtain ⟨hslots, hrun, heof⟩ := next_within ho ht
    refine hQ r _ ⟨?_, ?_⟩ ?_
    · rw [after_conn, hslots]
      exact h.slots
    · rw [after_conn, hrun]
      exact h.running
    · rw [after_conn, heof]

theorem wp_closeInside {Q : Unit → Observed → Prop} (hQ : ∀ t : Observed, t.Over → Q () t) :
    wp resumedContract (close fd) Q s := by
  refine wp_observe (fun he => by cases he) ?_
  intro _ t _ ht
  cases ht
  exact hQ _ (.inl rfl)

/-- A callback of the client has closed the descriptor, or has returned 0. -/
theorem wp_callResumed {kind : CbKind} {cb : Option Nat} {Q : Int → Observed → Prop}
    (h : s.Runs f evs)
    (hQ : ∀ v t, Observed.Runs f evs t → t.eof = s.eof → (v ≠ 0 → t.Over) → Q v t) :
    wp resumedContract (callBuffered n kind cb fd c) Q s := by
  unfold callBuffered
  rw [wp_do]
  refine wp_inside rfl h fun _ t ht heof => ?_
  refine wp_loop (fun _ u => u.Runs f evs ∧ u.eof = s.eof) (fun _ _ _ => resumed_cut) ?_ n
    ⟨ht, heof⟩
  intro _ u hu
  obtain ⟨hu, heof⟩ := hu
  rw [wp_do]
  refine wp_observe (fun he => by cases he) fun a v _ hv => ?_
  have hframe := next_within rfl hv
  have hrun : ∀ x : Observed, x.toConn = v → x.Runs f evs ∧ x.eof = s.eof := by
    intro x hx
    refine ⟨⟨?_, ?_⟩, ?_⟩
    · rw [hx, hframe.1]
      exact hu.slots
    · rw [hx, hframe.2.1]
      exact hu.running
    · rw [hx, hframe.2.2]
      exact heof
  cases a with
  | advance k =>
    obtain ⟨hx, hxe⟩ := hrun _ (after_conn u v (.client kind) (.advance k))
    rw [wp_do]
    refine wp_inside rfl hx fun _ y hy hye => ?_
    exact ⟨hy, hye.trans hxe⟩
  | sslTx len => exact hrun _ (after_conn u v (.client kind) (.sslTx len))
  | close =>
    obtain ⟨hx, hxe⟩ := hrun _ (after_conn u v (.client kind) .close)
    rw [wp_do]
    refine wp_inside rfl hx fun _ y hy hye => ?_
    exact ⟨hy, hye.trans hxe⟩
  | ret w =>
    obtain ⟨hx, hxe⟩ := hrun _ (after_conn u v (.client kind) (.ret w))
    refine hQ w _ hx hxe ?_
    intro hw
    refine .inr ?_
    simp [Observed.after, hw]

/-- `restorefd` succeeds, or the handler closes the descriptor. -/
theorem wp_resume {e : Events} {Q : Int → Observed → Prop}
    (hok : Resumes s (.epollCtl .mod fd (EVEDGET ||| EVONESHOT ||| e)) true →
      Q 0 { s with armed := some (EVEDGET ||| EVONESHOT ||| e) })
    (hfail : Q (-1) s) : wp resumedContract (restorefd fd e) Q s :=
  wp_rearm_observed (fun _ he => by cases he) (fun ha _ => hok ha) hfail

/-- Armed for a direction that has its callback. -/
theorem rearmed_for {e : Events}
    (h : (e.has EVREAD ∧ s.slots.rxfxn ≠ none) ∨ (e.has EVWRITE ∧ s.slots.txfxn ≠ none)) :
    Observed.Rearmed { s with armed := some (EVEDGET ||| EVONESHOT ||| e) } := by
  refine .inr (.inr ⟨_, rfl, ?_⟩)
  rw [has_restored e (by decide), has_restored e (by decide)]
  exact h

theorem resumed_rxback {Q : Int → Observed → Prop} (h : s.Runs f evs)
    (hQ : ∀ v t, Observed.Runs f evs t → t.eof = s.eof → (v ≠ 0 → t.Over) → Q v t) :
    wp resumedContract (rxback n fd c) Q s := by
  unfold rxback
  rw [wp_do]
  refine wp_inside rfl h fun rxb t ht heof => ?_
  split
  · refine wp_callResumed ht fun v u hu hue hv => ?_
    exact hQ v u hu (hue.trans heof) hv
  · exact hQ 0 t ht heof fun hz => absurd rfl hz

theorem resumed_growrxbuf {Q : Int → Observed → Prop} (h : s.Runs f evs)
    (hQ : ∀ v t, Observed.Runs f evs t → Q v t) :
    wp resumedContract (growrxbuf c) Q s := by
  unfold growrxbuf
  rw [wp_do]
  refine wp_inside rfl h fun rxb t ht _ => ?_
  dsimp only
  rw [wp_do]
  refine wp_inside rfl ht fun page u hu _ => ?_
  cases page with
  | none => exact hQ (-1) u hu
  | some page =>
    dsimp only
    rw [wp_do]
    exact wp_inside rfl hu fun _ v hv _ => hQ 0 v hv

/-! ## The write handler -/

/-- With input left to release, `tx` is called and the descriptor armed again;
with none, it stays as it is. -/
theorem resumed_bufferedTxfxn (evs : EvSource) {Q : Unit → Observed → Prop}
    (h : s.Runs .bufferedTxfxn evs)
    (hrx : sizeSub s.rxb.bufoff s.rxb.bufate ≠ 0 → evs.rxfxn ≠ none)
    (hstay : sizeSub s.rxb.bufoff s.rxb.bufate = 0 → Q () s)
    (hQ : ∀ t : Observed, t.Over ∨ t.Runs .bufferedTxfxn evs ∧ t.Rearmed ∧ evs.rxfxn ≠ none →
      Q () t) :
    wp resumedContract (bufferedTxfxn n fd c) Q s := by
  have gone (t : Observed) : wp resumedContract (close fd) Q t :=
    wp_closeInside fun u hu => hQ u (.inl hu)
  unfold bufferedTxfxn txback
  rw [wp_do, wp_do]
  refine wp_loadRxbuf (fun he => by cases he) fun _ => ?_
  by_cases hw : sizeSub s.rxb.bufoff s.rxb.bufate = 0
  · rw [if_neg (not_not.mpr hw)]
    rw [wp_pure, if_neg (by simp)]
    exact hstay hw
  · rw [if_pos hw, wp_do]
    refine wp_callResumed h fun r t ht _ _ => ?_
    split
    · apply wp_resume
      · intro _
        rw [if_neg (by simp)]
        refine hQ _ (.inr ⟨⟨ht.slots, ht.running⟩, rearmed_for (.inl ⟨by decide, ?_⟩), hrx hw⟩)
        rw [ht.slots]
        exact hrx hw
      · rw [if_pos (by decide)]
        exact gone t
    · rw [wp_pure, if_pos (by decide)]
      exact gone t

/-! ## The read handler -/

/-- How the read handler's loop is left: to close the descriptor, or with the
descriptor armed again or closed. -/
def Left (evs : EvSource) (out : Leave) (t : Observed) : Prop :=
  out = .brk ∨ t.Over ∨ t.Runs .bufferedRxfxn evs ∧ t.Rearmed

theorem resumed_bufferedRxfxnFull {Q : Option Leave → Observed → Prop}
    (h : s.Runs .bufferedRxfxn evs)
    (hgo : ∀ t, Observed.Runs .bufferedRxfxn evs t → Q none t)
    (hend : ∀ out t, Left evs out t → Q (some out) t) :
    wp resumedContract (bufferedRxfxnFull n fd c) Q s := by
  unfold bufferedRxfxnFull
  rw [wp_do]
  refine resumed_rxback h fun cb t ht _ hcb => ?_
  split
  · rename_i hne
    exact hend .ret t (.inr (.inl (hcb hne)))
  · rw [wp_do]
    refine wp_inside rfl ht fun rxb u hu _ => ?_
    split
    · rw [wp_do]
      refine resumed_growrxbuf hu fun r v hv => ?_
      split
      · exact hend .brk v (.inl rfl)
      · exact hgo v hv
    · exact hgo u hu

/-- The end of a pass that arms the descriptor again. -/
theorem resumed_pass {e : Events} {Q : Unit ⊕ Leave → Observed → Prop}
    (h : s.Runs .bufferedRxfxn evs)
    (he : Resumes s (.epollCtl .mod fd (EVEDGET ||| EVONESHOT ||| e)) true →
      s.Over ∨ (e.has EVREAD ∧ evs.rxfxn ≠ none) ∨ (e.has EVWRITE ∧ evs.txfxn ≠ none))
    (hend : ∀ out t, Left evs out t → Q (.inr out) t) :
    wp resumedContract (do
      let r ← restorefd fd e
      if r ≠ 0 then pure (.inr .brk) else pure (.inr .ret)) Q s := by
  rw [wp_do]
  apply wp_resume
  · intro ha
    rw [if_neg (by simp)]
    refine hend .ret _ ?_
    rcases he ha with hover | harmed
    · exact .inr (.inl hover)
    · refine .inr (.inr ⟨⟨h.slots, h.running⟩, rearmed_for ?_⟩)
      rw [h.slots]
      exact harmed
  · rw [if_pos (by decide)]
    exact hend .brk s (.inl rfl)

theorem resumed_bufferedRxfxnRead {Q : Unit ⊕ Leave → Observed → Prop}
    (h : s.Runs .bufferedRxfxn evs) (hrx : evs.rxfxn ≠ none)
    (hgo : ∀ t, Observed.Runs .bufferedRxfxn evs t → Q (.inl ()) t)
    (hend : ∀ out t, Left evs out t → Q (.inr out) t) :
    wp resumedContract (bufferedRxfxnRead n fd c) Q s := by
  unfold bufferedRxfxnRead
  rw [wp_do]
  refine wp_inside rfl h fun rxb t ht _ => ?_
  rw [wp_do]
  refine wp_observe (fun he => by cases he) fun res u _ hu => ?_
  have hframe : Observed.Runs .bufferedRxfxn evs
      (t.after u (.read fd c rxb.bufoff (sizeSub rxb.buftot rxb.bufoff)) res) := by
    rcases read_cases hu with ⟨_, _, _, _, _, rfl⟩ | ⟨_, rfl⟩ | ⟨_, rfl⟩ <;>
      exact ⟨ht.slots, ht.running⟩
  split
  · rw [wp_do]
    exact wp_inside rfl hframe fun _ v hv _ => hgo v hv
  · rename_i hpos
    split
    · rename_i hzero
      -- the end of the input
      have heof : u.eof = true := by
        rcases read_cases hu with ⟨bs, rfl, _, _, hmax, rfl⟩ | ⟨_, rfl⟩ | ⟨rfl, rfl⟩
        · exfalso
          unfold maxRwCount at hmax
          change intOf bs.length = 0 at hzero
          rw [intOf_eq (by omega)] at hzero
          omega
        · rfl
        · cases hzero
      rw [wp_do]
      refine wp_callResumed hframe fun cb v hv hve hcb => ?_
      split
      · rename_i hne
        exact hend .ret v (.inr (.inl (hcb hne)))
      · refine resumed_pass hv ?_ hend
        intro ha
        rcases of_decide_eq_true ha rfl hv.running (hve.trans heof) with hquit | htx
        · exact .inl (.inr hquit)
        · refine .inr (.inr ⟨by decide, ?_⟩)
          rw [← hv.slots]
          exact htx
    · rw [wp_do]
      refine wp_inside rfl hframe fun e v hv _ => ?_
      split
      · rw [wp_do]
        refine resumed_rxback hv fun cb w hw _ hcb => ?_
        split
        · rename_i hne
          exact hend .ret w (.inr (.inl (hcb hne)))
        · exact resumed_pass hw (fun _ => .inr (.inl ⟨by decide, hrx⟩)) hend
      · split
        · exact hend .brk v (.inl rfl)
        · exact hgo v hv

theorem resumed_bufferedRxfxn {Q : Unit → Observed → Prop} (h : s.Runs .bufferedRxfxn evs)
    (hrx : evs.rxfxn ≠ none)
    (hQ : ∀ t : Observed, t.Over ∨ t.Runs .bufferedRxfxn evs ∧ t.Rearmed → Q () t) :
    wp resumedContract (bufferedRxfxn n fd c) Q s := by
  unfold bufferedRxfxn
  rw [wp_do]
  have hfinish (out : Leave) (t : Observed) (ht : Left evs out t) :
      wp resumedContract (out.finish fd) Q t := by
    cases out with
    | brk => exact wp_closeInside fun u hu => hQ u (.inl hu)
    | ret =>
      rcases ht with hbrk | ht
      · cases hbrk
      · exact hQ t ht
  refine wp_loop (fun _ t => t.Runs .bufferedRxfxn evs) (fun _ _ _ => resumed_cut) ?_ n h
  intro _ t ht
  rw [wp_do]
  refine wp_inside rfl ht fun rxb u hu _ => ?_
  split
  · rw [wp_do]
    refine resumed_bufferedRxfxnFull hu (fun v hv => ?_) fun out v hv => hfinish out v hv
    exact resumed_bufferedRxfxnRead hv hrx (fun w hw => hw) hfinish
  · exact resumed_bufferedRxfxnRead hu hrx (fun v hv => hv) hfinish

end Handlers

/-! ## From registration on -/

theorem closed_next {s t : Conn} {o : Op} {r : o.Rep} (h : s.next o r = some t)
    (hc : s.closed = true) : t.closed = true := by
  by_cases ho : o.aside
  · rw [next_aside ho h]
    exact hc
  · cases o <;> simp only [Op.aside, not_true_eq_false] at ho <;>
      simp only [Conn.next, hc, true_or, if_true, reduceCtorEq, Option.some.injEq] at h
    case client =>
      unfold Conn.client at h
      split at h
      · split at h <;> cases h
        exact hc
      · cases h; exact hc
      · cases h; exact hc
    case epollCtl =>
      split at h <;> cases h
      exact hc
    all_goals
      first
      | (subst h; rfl)
      | (split at h <;> cases h; rfl)

theorem Observed.Over.next {s t : Observed} {o : Op} {r : o.Rep} (hs : s.Over)
    (h : s.next o r = some t) : t.Over := by
  obtain ⟨u, hu, rfl⟩ := Option.map_eq_some_iff.mp h
  rcases hs with hs | hs
  · refine .inl ?_
    rw [after_conn]
    exact closed_next hu hs
  · refine .inr ?_
    unfold Observed.after
    split <;> simp [hs]

theorem wp_over {s : Observed} {α : Type} (p : Prog α) (h : s.Over) :
    wp resumedContract p (fun _ t => t.Over) s :=
  wp_only (only_true p) (fun _ _ he => absurd he (Option.some_ne_none _).symm)
    (fun _ _ _ ht _ => ht.rearmed) (fun _ _ _ _ _ ht hstep => ht.next hstep.2) h

/-- The slots of a buffered descriptor, which has no input if it has no `rx`. -/
structure Observed.Buffered (s : Observed) : Prop where
  rx : s.slots.rxfxn = none ∨ s.slots.rxfxn = some .bufferedRxfxn
  tx : s.slots.txfxn = none ∨ s.slots.txfxn = some .bufferedTxfxn
  state : ∃ c, s.slots.cbstate = .object c
  window : s.slots.rxfxn = none → sizeSub s.rxb.bufoff s.rxb.bufate = 0

/-- What an event finds. -/
def Observed.Waiting (s : Observed) : Prop := s.Over ∨ s.Buffered ∧ s.Rearmed

theorem Observed.Waiting.rearmed {s : Observed} (h : s.Waiting) : s.Rearmed := by
  rcases h with h | ⟨-, h⟩
  · exact h.rearmed
  · exact h

section Session
variable {s : Observed} {n fd : Nat} {rx tx : Option Nat} {state : Nat}

theorem wp_slotOver {slot : Option Fn} {Q : Unit → Observed → Prop} (h : s.Over)
    (hQ : ∀ t : Observed, t.Over → Q () t) :
    wp resumedContract (handleSlot n fd slot s.slots.cbstate) Q s :=
  wp_mono (fun _ t ht => hQ t ht) (wp_over _ h)

/-- `rx` found in its slot leaves the descriptor armed. -/
theorem resumed_readSlot {Q : Unit → Observed → Prop} (h : s.Buffered)
    (hnone : s.slots.rxfxn = none → Q () s)
    (hQ : ∀ t : Observed, t.Waiting → Q () t) :
    wp resumedContract (handleSlot n fd s.slots.rxfxn s.slots.cbstate) Q s := by
  refine wp_slot hnone fun f hf => ?_
  obtain ⟨c, hc⟩ := h.state
  have hrx : s.slots.rxfxn = some .bufferedRxfxn := by
    rcases h.rx with hrx | hrx
    · rw [hrx] at hf
      cases hf
    · exact hrx
  have hsome : s.slots.rxfxn ≠ none := by
    rw [hrx]
    exact Option.some_ne_none _
  rw [hrx] at hf
  cases hf
  rw [hc]
  refine wp_observe (fun he => by cases he) fun _ t _ ht => ?_
  obtain ⟨-, rfl⟩ := enter_cases ht
  refine resumed_bufferedRxfxn ⟨rfl, rfl⟩ hsome fun t ht => ?_
  refine wp_observe (fun he => by cases he) fun _ u _ hu => ?_
  cases hu
  refine hQ _ ?_
  rcases ht with hover | ⟨hrun, harmed⟩
  · exact .inl hover
  · obtain ⟨hslots, -⟩ := hrun
    refine .inr ⟨⟨?_, ?_, ?_, ?_⟩, harmed⟩
    · exact .inr (hslots ▸ hrx)
    · show t.slots.txfxn = none ∨ t.slots.txfxn = some .bufferedTxfxn
      rw [hslots]
      exact h.tx
    · exact ⟨c, hslots ▸ hc⟩
    · intro hnone
      exact absurd (hslots ▸ hnone) hsome

/-- So does `tx`, unless it has nothing to do and finds it armed. -/
theorem resumed_writeSlot {Q : Unit → Observed → Prop} (h : s.Buffered)
    (harmed : s.Rearmed ∨ s.slots.txfxn ≠ none ∧ sizeSub s.rxb.bufoff s.rxb.bufate ≠ 0)
    (hQ : ∀ t : Observed, t.Waiting → Q () t) :
    wp resumedContract (handleSlot n fd s.slots.txfxn s.slots.cbstate) Q s := by
  refine wp_slot (fun hnone => ?_) fun f hf => ?_
  · refine hQ s (.inr ⟨h, ?_⟩)
    rcases harmed with harmed | ⟨hne, -⟩
    · exact harmed
    · exact absurd hnone hne
  obtain ⟨c, hc⟩ := h.state
  have htx : s.slots.txfxn = some .bufferedTxfxn := by
    rcases h.tx with htx | htx
    · rw [htx] at hf
      cases hf
    · exact htx
  rw [htx] at hf
  cases hf
  rw [hc]
  have leave (t : Observed) (ht : t.Waiting) : wp resumedContract (perform .leave) Q t := by
    refine wp_observe (fun he => by cases he) fun _ u _ hu => ?_
    cases hu
    refine hQ _ ?_
    rcases ht with hover | ⟨hbuf, harmed⟩
    · exact .inl hover
    · exact .inr ⟨⟨hbuf.rx, hbuf.tx, hbuf.state, hbuf.window⟩, harmed⟩
  refine wp_observe (fun he => by cases he) fun _ t _ ht => ?_
  obtain ⟨-, rfl⟩ := enter_cases ht
  refine resumed_bufferedTxfxn s.slots ⟨rfl, rfl⟩ ?_ ?_ ?_
  · intro hwin hnone
    exact hwin (h.window hnone)
  · intro hwin
    refine leave _ (.inr ⟨⟨h.rx, h.tx, h.state, h.window⟩, ?_⟩)
    rcases harmed with harmed | ⟨-, hne⟩
    · exact harmed
    · exact absurd hwin hne
  · intro t ht
    refine leave t ?_
    rcases ht with hover | ⟨⟨hslots, -⟩, harmed, hrx⟩
    · exact .inl hover
    · refine .inr ⟨⟨?_, ?_, ?_, ?_⟩, harmed⟩
      · rw [hslots]
        exact h.rx
      · rw [hslots]
        exact .inr htx
      · rw [hslots]
        exact ⟨c, hc⟩
      · rw [hslots]
        exact fun hnone => absurd hnone hrx

theorem resumed_handleEvents (h : s.Waiting) :
    wp resumedContract (handleEvents n fd) (fun _ _ => True) s := by
  refine wp_loop (fun _ t => t.Waiting) (fun _ _ _ => resumed_cut) ?_ n h
  intro _ t ht
  rw [wp_do]
  refine wp_observe (fun _ => ht.rearmed) fun e u ha hu => ?_
  obtain ⟨-, -, rfl⟩ := event_cases hu
  rcases ht with hover | ⟨hbuf, -⟩
  · rw [wp_do]
    exact wp_mono (fun _ _ hv => Or.inl hv) (wp_over _ hover)
  rcases of_decide_eq_true ha with hquit | hwake
  · rw [wp_do]
    exact wp_mono (fun _ _ hv => Or.inl hv) (wp_over _ (.inr hquit))
  -- the one-shot registration is spent
  have hspent : Observed.Buffered { t with armed := none } :=
    ⟨hbuf.rx, hbuf.tx, hbuf.state, hbuf.window⟩
  rw [wp_do]
  refine wp_handleEvent (M := fun v : Observed => v.Waiting ∨ v.Buffered ∧ e.has EVWRITE ∧
    v.slots.txfxn ≠ none ∧ sizeSub v.rxb.bufoff v.rxb.bufate ≠ 0) (fun _ => ?_) (fun hno => ?_)
    (fun v hv _ => ?_) fun v hv hno => ?_
  · refine wp_loadEvsource (fun he => by cases he) ?_
    refine resumed_readSlot hspent (fun hnone => ?_) fun u hu => .inl hu
    rcases hwake with ⟨-, hrx⟩ | hwake
    · exact absurd hnone hrx
    · exact .inr ⟨hspent, hwake⟩
  · rcases hwake with ⟨hr, -⟩ | hwake
    · exact absurd hr hno
    · exact .inr ⟨hspent, hwake⟩
  · refine wp_loadEvsource (fun he => by cases he) ?_
    rcases hv with (hover | ⟨hbuf, harmed⟩) | ⟨hbuf, -, htx⟩
    · exact wp_slotOver hover fun _ hw => .inl hw
    · exact resumed_writeSlot hbuf (.inl harmed) fun _ hw => hw
    · exact resumed_writeSlot hbuf (.inr htx) fun _ hw => hw
  · rcases hv with hv | ⟨-, hw, -⟩
    · exact hv
    · exact absurd hw hno

theorem Observed.Registered.waiting {s : Observed} (h : s.Registered rx tx)
    (hcb : rx ≠ none ∨ tx ≠ none) : s.Waiting := by
  obtain ⟨⟨c, hslots⟩, ⟨hoff, hate⟩, -, ⟨e, he, hr, hw⟩, -⟩ := h
  refine .inr ⟨⟨?_, ?_, ⟨c, by rw [hslots]⟩, fun _ => by rw [hoff, hate]; rfl⟩, .inr (.inr ?_)⟩
  · rw [hslots]
    cases rx <;> simp
  · rw [hslots]
    cases tx <;> simp
  · refine ⟨e, he, ?_⟩
    rw [hslots]
    rcases hcb with hrx | htx
    · exact .inl ⟨hr hrx, by simpa using hrx⟩
    · exact .inr ⟨hw htx, by simpa using htx⟩

/-- A descriptor registered with `torque_addfd`, in the runs whose events find a
callback with something to do, and in which there is a `tx` once the input has
ended: whenever an event has been handled, the descriptor has been closed or is
armed for a direction that has a callback. -/
theorem torqueAddfd_rearmed (n fd : Nat) (rx tx : Option Nat) (state : Nat)
    (hcb : rx ≠ none ∨ tx ≠ none) (replies : List ((o : Op) → o.Rep))
    (hc : Meets (Prog.step Observed.next) (Prog.Assume Resumes)
      ({}, plainSession n fd rx tx state) replies) :
    Always (Prog.step Observed.next) (fun x => x.2.op = some .event → x.1.Rearmed)
      ({}, plainSession n fd rx tx state) replies := by
  refine always_observed (P := fun s o => o = some .event → s.Rearmed) ?_ hc
  unfold plainSession
  rw [wp_do]
  refine registered_addfd ?_ (fun _ _ _ _ _ he => by cases he) ⟨rfl, rfl⟩ rfl ?_ ?_
  · intro t o ho _ _ he
    cases he
    cases ho
  · intro t ht
    rw [if_pos rfl]
    exact wp_mono (fun _ _ _ => resumed_cut) (resumed_handleEvents (ht.waiting hcb))
  · intro v t hv _ _
    rw [if_neg hv]
    exact resumed_cut

/-- Registered, with a buffer of four bytes. -/
def registered (data : List Answer) : List Answer :=
  [.ptr (some 0), .page 4 (some ⟨0, [0, 0, 0, 0]⟩), .flag true] ++ data

/-- Input comes in and is released in part, the rest of it by `tx`. -/
theorem torqueAddfd_rearmed_data :
    Always (Prog.step Observed.next) (fun x => x.2.op = some .event → x.1.Rearmed)
      ({}, plainSession 9 5 (some 1) (some 2) 0)
      (script Observed.next Observed.loads 60 ({}, plainSession 9 5 (some 1) (some 2) 0)
        (registered [.events EVREAD, .io (.bytes [1, 2]), .io (.ret (-1)), .errno .eagain,
          .act (.advance 1), .act (.ret 0), .flag true, .events (EVREAD ||| EVWRITE),
          .io (.ret (-1)), .errno .eagain, .act (.ret 0), .flag true, .act (.advance 1),
          .act (.ret 0), .flag true, .events EVREAD, .io (.ret (-1)), .errno (.other 104)])) :=
  torqueAddfd_rearmed 9 5 _ _ 0 (.inl (Option.some_ne_none _)) _ (by decide)

/-- EPOLLHUP comes alone, and no handler is called. -/
theorem torqueAddfd_hangup_stuck :
    ¬ Always (Prog.step Observed.next) (fun x => x.2.op = some .event → x.1.Rearmed)
      ({}, plainSession 3 5 (some 1) (some 2) 0)
      (script Observed.next Observed.loads 20 ({}, plainSession 3 5 (some 1) (some 2) 0)
        (registered [.events 0x10])) := by
  decide

end Session

end Libtorque
