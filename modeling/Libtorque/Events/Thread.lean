import Libtorque.Protos.Accept

/-! # Dispatch: `handle_event` and the callbacks it finds in the table -/
namespace Libtorque

/-- An unbuffered callback of the client, which may close its descriptor. -/
def callUnbuffered (n : Nat) (f : Option Nat) (fd : Nat) : Prog Unit := do
  perform (.callback .unbuffered f fd)
  loop n () fun _ => do
    match ← perform (.client .unbuffered) with
    | .close =>
      close fd
      pure (.inl ())
    | .ret _ => pure (.inr ())
    | _ => pure (.inl ())

def connUnbufferedTxfxn (n fd c : Nat) : Prog Unit := do
  if ← perform (.connect fd) then
    let cbctx ← fields c
    callUnbuffered n cbctx.txfxn fd
    freeConncb c
  else pure ()

def timerCurry (fd c : Nat) : Prog Unit := do
  let marsh ← fields c
  perform (.callback .timer marsh.txfxn fd)
  free c

/-- A callback found in the table, called on its descriptor and state. -/
def Fn.run (n fd : Nat) : Fn → CbState → Prog Unit
  | bufferedRxfxn, .object c => Libtorque.bufferedRxfxn n fd c
  | bufferedTxfxn, .object c => Libtorque.bufferedTxfxn n fd c
  | sslRxfxn, .object c => Libtorque.sslRxfxn n fd c
  | sslTxrxfxn, .object c => Libtorque.sslTxrxfxn n fd c
  | sslTxfxn, .object c => Libtorque.sslTxfxn n fd c
  | acceptContrxfxn, .object c => Libtorque.acceptContrxfxn fd c
  | acceptConttxfxn, .object c => Libtorque.acceptConttxfxn fd c
  | sslAcceptRxfxn, .object c => Libtorque.sslAcceptRxfxn n fd c
  | connUnbufferedTxfxn, .object c => Libtorque.connUnbufferedTxfxn n fd c
  | timerPassthru, .object c => timerCurry fd c
  | client f, _ => callUnbuffered n (some f) fd
  -- the library's own handlers are only ever registered with objects of its own
  | _, .client _ => .cut

/-- Calls what a slot holds, if anything. -/
def handleSlot (n fd : Nat) (slot : Option Fn) (st : CbState) : Prog Unit :=
  match slot with
  | none => pure ()
  | some f => do
    perform (.enter f fd st)
    f.run n fd st
    perform .leave

def handleEvsourceRead (n fd : Nat) : Prog Unit := do
  let evs ← evsource fd
  handleSlot n fd evs.rxfxn evs.cbstate

def handleEvsourceWrite (n fd : Nat) : Prog Unit := do
  let evs ← evsource fd
  handleSlot n fd evs.txfxn evs.cbstate

def handleEvent (n fd : Nat) (events : Events) : Prog Unit := do
  (if events.has EVREAD then handleEvsourceRead n fd else pure () : Prog Unit)
  (if events.has EVWRITE then handleEvsourceWrite n fd else pure () : Prog Unit)

/-- The events of one descriptor, handled one after another. -/
def handleEvents (n fd : Nat) : Prog Unit :=
  loop n () fun _ => do
    let e ← perform .event
    handleEvent n fd e
    pure (.inl ())

/-! ## What is to be shown of them -/

section Rules
open Lib
variable {σ : Type} {K : Contract Op Op.Rep σ} {Q : Unit → σ → Prop} {s : σ} {n fd : Nat}

theorem wp_slot {slot : Option Fn} {st : CbState} (hnone : slot = none → Q () s)
    (hrun : ∀ f, slot = some f → wp K (perform (.enter f fd st))
      (fun _ => wp K (f.run n fd st) fun _ => wp K (perform .leave) Q) s) :
    wp K (handleSlot n fd slot st) Q s := by
  cases slot with
  | none => exact hnone rfl
  | some f =>
    unfold handleSlot
    rw [wp_do]
    refine wp_mono (fun _ t ht => ?_) (hrun f rfl)
    rw [wp_do]
    exact ht

/-- The read handler first: `M` is what it leaves, or what there is without it. -/
theorem wp_handleEvent {e : Events} {M : σ → Prop}
    (hread : e.has EVREAD → wp K (evsource fd)
      (fun evs => wp K (handleSlot n fd evs.rxfxn evs.cbstate) fun _ t => M t) s)
    (hskip : ¬ e.has EVREAD → M s)
    (hwrite : ∀ t, M t → e.has EVWRITE → wp K (evsource fd)
      (fun evs => wp K (handleSlot n fd evs.txfxn evs.cbstate) Q) t)
    (hrest : ∀ t, M t → ¬ e.has EVWRITE → Q () t) :
    wp K (handleEvent n fd e) Q s := by
  have hfirst : wp K (if e.has EVREAD then handleEvsourceRead n fd else pure ())
      (fun _ t => M t) s := by
    split
    · rename_i hr
      unfold handleEvsourceRead
      rw [wp_do]
      exact hread hr
    · rename_i hr
      exact hskip hr
  unfold handleEvent
  rw [wp_do]
  refine wp_mono (fun _ t ht => ?_) hfirst
  split
  · rename_i hw
    unfold handleEvsourceWrite
    rw [wp_do]
    exact hwrite t ht hw
  · rename_i hw
    exact hrest t ht hw

/-- `I` holds between the events, and between the handlers of one. -/
theorem wp_eventLoop {I : σ → Prop} (hcut : ∀ t, I t → K.ok t none)
    (hevent : ∀ t, I t → wp K (perform .event) (fun _ u => I u) t)
    (hread : ∀ t, I t → wp K (evsource fd)
      (fun evs => wp K (handleSlot n fd evs.rxfxn evs.cbstate) fun _ u => I u) t)
    (hwrite : ∀ t, I t → wp K (evsource fd)
      (fun evs => wp K (handleSlot n fd evs.txfxn evs.cbstate) fun _ u => I u) t)
    (hs : I s) : wp K (handleEvents n fd) Q s := by
  refine wp_loop (fun _ t => I t) (fun _ => hcut) (fun _ t ht => ?_) n hs
  rw [wp_do]
  refine wp_mono (fun e u hu => ?_) (hevent t ht)
  rw [wp_do]
  exact wp_handleEvent (fun _ => hread u hu) (fun _ => hu) (fun v hv _ => hwrite v hv)
    fun _ hv _ => hv

end Rules

end Libtorque
