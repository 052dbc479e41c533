import Libtorque.Dispatch.Register
import Libtorque.Dispatch.Threads

/-! # Connections in progress

Where `connect` succeeds at once, a connector registers its callbacks. Where it
is still in progress the connector registers `conn_unbuffered_txfxn`, which calls
`connect` again, without an address, when the connection is there. Where that
succeeds, the transmit callback is called as an unbuffered one; the kernel fails
it, and then nothing is done. Nothing is registered in either case. -/
namespace Libtorque
open Lib

/-! ## Registrations compared -/

/-- The client's state, or buffers with the same callbacks and state in them. -/
def SameState (v w : World) : CbState → CbState → Prop
  | .client a, .client b => a = b
  | .object c, .object d =>
    v.objs c = .live ∧ w.objs d = .live ∧ (v.rxbs c).rx = (w.rxbs d).rx ∧
      (v.rxbs c).tx = (w.rxbs d).tx ∧ (v.fields c).cbstate = (w.fields d).cbstate
  | _, _ => False

def Fd.armedFor (e : Events) : Fd → Bool
  | .watched r => r.armed.any (·.has e)
  | _ => false

/-- The same callbacks with the same state, armed for the same directions. -/
structure SameRegistration (fd : Nat) (v w : World) : Prop where
  rx : (v.fdarray fd).rxfxn = (w.fdarray fd).rxfxn
  tx : (v.fdarray fd).txfxn = (w.fdarray fd).txfxn
  state : SameState v w (v.fdarray fd).cbstate (w.fdarray fd).cbstate
  read : (v.fds fd).armedFor EVREAD = (w.fds fd).armedFor EVREAD
  write : (v.fds fd).armedFor EVWRITE = (w.fds fd).armedFor EVWRITE

/-! ## Runs -/

def AddCall.connector (buffered : Bool) (fd : Int) (rx tx : Option Nat) (state : Nat) : AddCall :=
  if buffered then .addconnector fd rx tx state else .addconnectorUnbuffered fd rx tx state

/-- `connect` succeeds. -/
def Connects (_ : World) : (o : Op) → o.Rep → Bool
  | .connect _, ok => ok
  | _, _ => true

/-- `connect` fails with EINPROGRESS. -/
def InProgress (_ : World) : (o : Op) → o.Rep → Bool
  | .connect _, ok => !ok
  | .errno, e => e = .einprogress
  | _, _ => true

/-- The transmit callback is what is called, if anything is. -/
def CallsTx (tx : Option Nat) (o : Option Op) : Prop :=
  ∀ kind f fd, o = some (.callback kind f fd) → f = tx

/-- Nothing is promised. -/
def registerContract (A : World → (o : Op) → o.Rep → Bool) : Contract Op Op.Rep World :=
  .of World.next (fun _ _ => True) A

/-- `connect` gives anything. -/
def completeContract (tx : Option Nat) : Contract Op Op.Rep World :=
  .of World.next (fun _ o => CallsTx tx o) fun _ _ _ => true

section Registering
variable {A : World → (o : Op) → o.Rep → Bool} {w : World} {fd : Int} {rx tx : Option Nat}
  {rfxn tfxn : Option Fn} {st : CbState} {flags : Events} {state c : Nat}

theorem wp_register {o : Op} {Q : o.Rep → World → Prop}
    (h : ∀ r v, A w o r → w.next o r = some v → Q r v) :
    wp (registerContract A) (perform o) Q w :=
  wp_op trivial fun r v hv => h r v hv.1 hv.2

theorem wp_whatever {α : Type} {p : Prog α} {Q : α → World → Prop} (h : ∀ a v, Q a v) :
    wp (registerContract A) p Q w :=
  wp_any (fun _ _ => trivial) h

theorem wp_setEntry {d : Nat} {Q : Unit → World → Prop}
    (hQ : ∀ v, v.fdarray d = ⟨rfxn, tfxn, st⟩ → v.fields = w.fields → v.objs = w.objs → Q () v) :
    wp (registerContract A) (setupEvsource d rfxn tfxn st) Q w := by
  unfold setupEvsource setEvsourceRx setEvsourceTx
  rw [wp_do]
  refine wp_register fun _ v _ hv => ?_
  cases hv
  rw [wp_do]
  refine wp_register fun _ v _ hv => ?_
  cases hv
  refine wp_register fun _ v _ hv => ?_
  cases hv
  exact hQ _ (by simp [World.setEntry]) rfl rfl

theorem epollCtl_add {d : Nat} {e : Events} {v : World} (h : w.epollCtl .add d e = some v) :
    (∃ r : Reg, v.fds d = .watched r ∧ r.oneshot = e.has EPOLLONESHOT ∧ r.armed = some e) ∧
      v.fdarray = w.fdarray ∧ v.fields = w.fields ∧ v.objs = w.objs := by
  unfold World.epollCtl at h
  split at h
  · cases h
    exact ⟨⟨_, Function.update_self .., rfl, rfl⟩, rfl, rfl, rfl⟩
  · rename_i he _
    cases he
  · cases h

/-- The mask that `add_fd_event` registers with. -/
def EvSource.addedMask (evs : EvSource) (eflags : Events) : Events :=
  let e := EPOLLET ||| EPOLLPRI ||| eflags
  let e := if evs.rxfxn.isSome then e ||| EVREAD else e
  if evs.txfxn.isSome then e ||| EVWRITE else e

/-- Registered, where `w` was before. -/
structure World.Added (w v : World) (d : Nat) (evs : EvSource) (eflags : Events) : Prop where
  watched : ∃ r : Reg, v.fds d = .watched r ∧ r.oneshot = (evs.addedMask eflags).has EPOLLONESHOT ∧
    r.armed = some (evs.addedMask eflags)
  entry : v.fdarray d = evs
  fields : v.fields = w.fields
  objs : v.objs = w.objs

/-- A registration that succeeds leaves its entry, and the descriptor watched. -/
theorem wp_registered {Q : Int → World → Prop} (hfail : ∀ v, Q (-1) v)
    (hok : ∀ v, w.Added v (unsigned fd) ⟨rfxn, tfxn, st⟩ flags → Q 0 v) :
    wp (registerContract A) (addFdToEvhandler fd rfxn tfxn st flags) Q w := by
  unfold addFdToEvhandler
  rw [wp_do]
  refine wp_register fun size v _ hv => ?_
  obtain ⟨-, rfl⟩ := World.fdarraysize_cases hv
  split
  · exact hfail v
  · rw [wp_do]
    refine wp_setEntry fun v hentry hfields hobjs => ?_
    unfold addFdEvent
    rw [wp_do]
    split
    · exact hfail v
    · rw [wp_do]
      refine wp_register fun ok u _ hu => ?_
      cases ok with
      | false => exact hfail u
      | true =>
        obtain ⟨hwatched, htable, hfs, hos⟩ := epollCtl_add hu
        refine hok u ⟨hwatched, ?_, hfs.trans hfields, hos.trans hobjs⟩
        rw [htable, hentry]

/-! ## Connected at once -/

/-- What a connector that succeeds has put into the transmit slot. -/
def Registers (d : Nat) (r : Int) (v : World) : Prop :=
  r = 0 → (v.fdarray d).txfxn ≠ some .connUnbufferedTxfxn

theorem registers_addfd : wp (registerContract A) (torqueAddfd fd rx tx state)
    (Registers (unsigned fd)) w := by
  unfold torqueAddfd
  split
  · exact fun h => absurd h (by decide)
  · rw [wp_do]
    refine wp_whatever fun cbctx v => ?_
    cases cbctx with
    | none => exact fun h => absurd h (by decide)
    | some cbctx =>
      dsimp only
      rw [wp_do]
      refine wp_registered (fun u => ?_) fun u hadded => ?_
      · rw [if_pos (by decide), wp_do]
        exact wp_whatever fun _ _ h => absurd h (by decide)
      · rw [if_neg (by simp)]
        intro _
        rw [hadded.entry]
        cases tx <;> simp

theorem registers_addfdUnbuffered : wp (registerContract A)
    (torqueAddfdUnbuffered fd (rx.map .client) (tx.map .client) (.client state))
    (Registers (unsigned fd)) w := by
  unfold torqueAddfdUnbuffered
  split
  · exact fun h => absurd h (by decide)
  · refine wp_registered (fun u h => absurd h (by decide)) fun u hadded => ?_
    intro _
    rw [hadded.entry]
    cases tx <;> simp

theorem registers_addconnector {add : Prog Int}
    (hadd : ∀ v, wp (registerContract Connects) add (Registers (unsigned fd)) v) :
    wp (registerContract Connects) (addconnector fd rx tx state add) (Registers (unsigned fd)) w := by
  unfold addconnector
  split
  · exact fun h => absurd h (by decide)
  · rw [wp_do]
    refine wp_register fun ok v ha _ => ?_
    have hok : ok = true := ha
    rw [if_pos hok]
    exact hadd v

/-! ## In progress -/

/-- What a connection in progress is registered as. -/
structure Pending (tx : Option Nat) (d c : Nat) (v : World) : Prop where
  entry : v.fdarray d = ⟨none, some .connUnbufferedTxfxn, .object c⟩
  tx : (v.fields c).txfxn = tx

theorem code_syscall (e : Errno) : (TorqueErr.syscall e).code ≠ 0 := by
  cases e with
  | other n =>
    show (9 : Int) + n ≠ 0
    omega
  | _ => decide

theorem pending_addconnector {add : Prog Int} :
    wp (registerContract InProgress) (addconnector fd rx tx state add)
      (fun r v => r = 0 → ∃ c, Pending tx (unsigned fd) c v) w := by
  unfold addconnector
  split
  · exact fun h => absurd h (by decide)
  · rw [wp_do]
    refine wp_register fun ok v ha _ => ?_
    have hok : ok = false := by simpa [InProgress] using ha
    rw [hok, if_neg (by simp), wp_do]
    refine wp_register fun e v he _ => ?_
    rw [if_pos (of_decide_eq_true he), wp_do]
    unfold createConncb
    rw [wp_do]
    refine wp_register fun c v _ _ => ?_
    cases c with
    | none =>
      rw [wp_pure]
      dsimp only
      rw [wp_do]
      exact wp_register fun e v _ _ h => absurd h (code_syscall e)
    | some c =>
      dsimp only
      rw [wp_do]
      refine wp_register fun _ u _ hu => ?_
      obtain ⟨-, rfl⟩ := World.setFields_cases hu
      rw [wp_pure]
      dsimp only
      rw [wp_do]
      refine wp_registered (fun x => ?_) fun x hadded => ?_
      · rw [if_pos (by decide), wp_do]
        exact wp_whatever fun _ _ h => absurd h (by decide)
      · rw [if_neg (by simp)]
        intro _
        refine ⟨c, hadded.entry, ?_⟩
        rw [hadded.fields]
        simp

end Registering

/-! ## Completed -/

section Completing
variable {w : World} {tx : Option Nat} {n d c : Nat}

theorem callsTx_other {o : Op} (hc : ∀ kind f fd, o ≠ .callback kind f fd) :
    CallsTx tx (some o) :=
  fun kind f fd he => absurd (Option.some.inj he) (hc kind f fd)

theorem callsTx_none : CallsTx tx none :=
  fun _ _ _ he => absurd he (Option.some_ne_none _).symm

theorem wp_complete {o : Op} {Q : o.Rep → World → Prop} (hc : ∀ kind f fd, o ≠ .callback kind f fd)
    (h : ∀ r v, w.next o r = some v → Q r v) : wp (completeContract tx) (perform o) Q w :=
  wp_op (callsTx_other hc) fun r v hv => h r v hv.2

/-- The client may close the descriptor, and the entry stays. -/
theorem pending_callUnbuffered {Q : Unit → World → Prop} (h : Pending tx d c w)
    (hQ : ∀ v : World, (v.fdarray d).txfxn = some .connUnbufferedTxfxn → Q () v) :
    wp (completeContract tx) (callUnbuffered n tx d) Q w := by
  unfold callUnbuffered
  rw [wp_do]
  refine wp_op ?_ ?_
  · rintro _ _ _ ⟨⟩
    rfl
  · intro _ v hstep
    obtain ⟨-, hv⟩ := hstep
    obtain ⟨-, rfl⟩ := World.callback_cases hv
    refine wp_loop (fun _ (v : World) => (v.fdarray d).txfxn = some .connUnbufferedTxfxn)
      (fun _ _ _ => callsTx_none) ?_ n (by rw [h.entry])
    intro _ v hv
    rw [wp_do]
    refine wp_complete (by simp) fun a u hu => ?_
    cases hu
    cases a with
    | close =>
      dsimp only
      rw [wp_do]
      refine wp_complete (by simp) fun _ x hx => ?_
      cases hx
      exact hv
    | ret r => exact hQ v hv
    | advance k => exact hv
    | sslTx len => exact hv

/-- The entry stays, whatever `connect` gives. -/
theorem pending_connUnbufferedTxfxn (h : Pending tx d c w) :
    wp (completeContract tx) (connUnbufferedTxfxn n d c)
      (fun _ v => (v.fdarray d).txfxn = some .connUnbufferedTxfxn) w := by
  unfold connUnbufferedTxfxn
  rw [wp_do]
  refine wp_complete (by simp) fun ok v hv => ?_
  cases hv
  cases ok with
  | false =>
    show (w.fdarray d).txfxn = some .connUnbufferedTxfxn
    rw [h.entry]
  | true =>
    rw [if_pos rfl, wp_do]
    refine wp_complete (by simp) fun f v hv => ?_
    obtain ⟨-, rfl, rfl⟩ := World.fields_cases hv
    rw [h.tx, wp_do]
    refine pending_callUnbuffered h fun v hv => ?_
    refine wp_complete (by simp) fun _ x hx => ?_
    obtain ⟨-, rfl⟩ := World.free_cases hx
    exact hv

/-- The event that finds the connection there. -/
theorem pending_handleEvent {mask : Events} (h : Pending tx d c w) (hw : mask.has EVWRITE) :
    wp (completeContract tx) (handleEvent n d mask)
      (fun _ v => (v.fdarray d).txfxn = some .connUnbufferedTxfxn) w := by
  refine wp_handleEvent (M := (· = w)) (fun _ => ?_) (fun _ => rfl) ?_ fun _ _ hno => absurd hw hno
  · refine wp_complete (by simp) fun evs v hv => ?_
    obtain ⟨rfl, rfl⟩ := World.evsource_cases hv
    rw [h.entry]
    rfl
  · rintro _ rfl -
    refine wp_complete (by simp) fun evs v hv => ?_
    obtain ⟨rfl, rfl⟩ := World.evsource_cases hv
    refine wp_slot (fun hnone => ?_) fun f hf => ?_
    · rw [h.entry] at hnone
      cases hnone
    · refine wp_complete (by simp) fun _ v hv => ?_
      cases hv
      rw [h.entry] at hf ⊢
      cases hf
      refine wp_mono ?_ (pending_connUnbufferedTxfxn h)
      intro _ u hu
      refine wp_complete (by simp) fun _ x hx => ?_
      cases hx
      exact hu

end Completing

theorem registers_connector (buffered : Bool) (fd : Int) (rx tx : Option Nat) (state : Nat)
    (w : World) : wp (registerContract Connects) (AddCall.connector buffered fd rx tx state).prog
      (Registers (unsigned fd)) w := by
  cases buffered with
  | false => exact registers_addconnector fun _ => registers_addfdUnbuffered
  | true => exact registers_addconnector fun _ => registers_addfd

theorem pending_connector (buffered : Bool) (fd : Int) (rx tx : Option Nat) (state : Nat)
    (w : World) : wp (registerContract InProgress) (AddCall.connector buffered fd rx tx state).prog
      (fun r v => r = 0 → ∃ c, Pending tx (unsigned fd) c v) w := by
  cases buffered with
  | false => exact pending_addconnector
  | true => exact pending_addconnector

theorem Pending.report {w v : World} {tx : Option Nat} {d c : Nat} {mask : Events} {ev : Event}
    (h : Pending tx d c w) (hr : w.report d mask = some (v, ev)) :
    Pending tx d c v ∧ ev.fd = d ∧ ev.mask = mask := by
  unfold World.report at hr
  split at hr
  · split at hr
    · split at hr <;> cases hr
      exact ⟨⟨h.entry, h.tx⟩, rfl, rfl⟩
    · cases hr
  · cases hr

/-- A connector whose connection is in progress when it returns never ends up
registered as it is when the connection is there at once, whatever `connect` gives
at the event that is reported for it; what is called then, if anything, is the
transmit callback, which may be NULL. -/
theorem connector_never_agrees (buffered : Bool) (fd : Int) (rx tx : Option Nat) (state n : Nat)
    (mask : Events) (w v u x : World) (ev : Event) (atOnce later event : List ((o : Op) → o.Rep))
    (hv : exec (Prog.step World.next) (w, (AddCall.connector buffered fd rx tx state).prog) atOnce =
      some (v, .ret 0))
    (hconnects : Meets (Prog.step World.next) (Prog.Assume Connects)
      (w, (AddCall.connector buffered fd rx tx state).prog) atOnce)
    (hu : exec (Prog.step World.next) (w, (AddCall.connector buffered fd rx tx state).prog) later =
      some (u, .ret 0))
    (hprogress : Meets (Prog.step World.next) (Prog.Assume InProgress)
      (w, (AddCall.connector buffered fd rx tx state).prog) later)
    (hx : u.report (unsigned fd) mask = some (x, ev)) (hmask : mask.has EVWRITE) :
    Always (Prog.step World.next) (fun y => CallsTx tx y.2.op)
        (x, handleEvent n ev.fd ev.mask) event ∧
      ∀ y, exec (Prog.step World.next) (x, handleEvent n ev.fd ev.mask) event = some (y, .ret ()) →
        ¬ SameRegistration (unsigned fd) v y := by
  obtain ⟨c, hpending⟩ := last_of_wp (K := registerContract InProgress)
    (fun _ _ _ _ ha ht => ⟨ha, ht⟩) (pending_connector buffered fd rx tx state w) hprogress hu rfl
  obtain ⟨hpending, hfd, hm⟩ := hpending.report hx
  rw [hfd, hm]
  have hwp := pending_handleEvent (n := n) hpending hmask
  have hany : Meets (Prog.step World.next) (Prog.Assume fun _ _ _ => true)
      (x, handleEvent n (unsigned fd) mask) event := by
    refine meets_of_forall ?_ _ _
    rintro ⟨s, _ | _ | _⟩ r <;> trivial
  refine ⟨?_, ?_⟩
  · refine (always_of_wp (K := completeContract tx) (fun _ _ _ _ ha ht => ⟨ha, ht⟩) hwp hany).mono ?_
    rintro ⟨s, _ | _ | _⟩ h
    · exact callsTx_none
    · exact h
    · exact callsTx_none
  · intro y hy hsame
    have hslot := last_of_wp (K := completeContract tx) (fun _ _ _ _ ha ht => ⟨ha, ht⟩) hwp hany hy
    have hat := last_of_wp (K := registerContract Connects) (fun _ _ _ _ ha ht => ⟨ha, ht⟩)
      (registers_connector buffered fd rx tx state w) hconnects hv rfl
    exact hat (hsame.tx.trans hslot)

/-- Descriptor 5 is open. -/
def World.opened : World where
  fds := Function.update (fun _ => .closed) 5 .idle

/-- What happens to a connector at once and later, and at the event, where the
kernel fails a `connect` without an address. -/
def atOnceReplies : List ((o : Op) → o.Rep) :=
  AddCall.replies (.connector true 5 (some 1) (some 2) 0) World.opened
    [.flag true, .ptr (some 0), .page 4 (some ⟨0, [0, 0, 0, 0]⟩), .flag true]

def laterReplies (call : AddCall) : List ((o : Op) → o.Rep) :=
  call.replies World.opened [.flag false, .errno .einprogress, .ptr (some 0), .flag true]

def eventReplies (x : World) (ev : Event) : List ((o : Op) → o.Rep) :=
  script World.next World.loads 20 (x, handleEvent 3 ev.fd ev.mask) [.flag false]

theorem connector_never_agrees_buffered :
    ∃ v u x y ev,
      exec (Prog.step World.next) (World.opened, (AddCall.connector true 5 (some 1) (some 2) 0).prog)
        atOnceReplies = some (v, .ret 0) ∧
      exec (Prog.step World.next) (World.opened, (AddCall.connector true 5 (some 1) (some 2) 0).prog)
        (laterReplies (.connector true 5 (some 1) (some 2) 0)) = some (u, .ret 0) ∧
      u.report 5 EVWRITE = some (x, ev) ∧
      exec (Prog.step World.next) (x, handleEvent 3 ev.fd ev.mask) (eventReplies x ev) =
        some (y, .ret ()) ∧
      ¬ SameRegistration 5 v y := by
  obtain ⟨v, u, x, y, ev, hv, hu, hx, hy⟩ : ∃ v u x y ev,
      exec (Prog.step World.next) (World.opened, (AddCall.connector true 5 (some 1) (some 2) 0).prog)
        atOnceReplies = some (v, .ret 0) ∧
      exec (Prog.step World.next) (World.opened, (AddCall.connector true 5 (some 1) (some 2) 0).prog)
        (laterReplies (.connector true 5 (some 1) (some 2) 0)) = some (u, .ret 0) ∧
      u.report 5 EVWRITE = some (x, ev) ∧
      exec (Prog.step World.next) (x, handleEvent 3 ev.fd ev.mask) (eventReplies x ev) =
        some (y, .ret ()) :=
    ⟨_, _, _, _, _, rfl, rfl, rfl, rfl⟩
  refine ⟨v, u, x, y, ev, hv, hu, hx, hy, ?_⟩
  exact (connector_never_agrees true 5 (some 1) (some 2) 0 3 EVWRITE World.opened v u x ev _ _ _
    hv (by decide) hu (by decide) hx (by decide)).2 y hy

/-- An unbuffered connector with a receive callback only: connected at once, the
descriptor is armed for it; later, `conn_unbuffered_txfxn` leaves itself in the
entry, and the descriptor spent. -/
theorem connector_stays_pending :
    ∃ v u x y ev,
      exec (Prog.step World.next) (World.opened, (AddCall.connector false 5 (some 1) none 0).prog)
          (AddCall.replies (.connector false 5 (some 1) none 0) World.opened
            [.flag true, .flag true]) = some (v, .ret 0) ∧
      exec (Prog.step World.next) (World.opened, (AddCall.connector false 5 (some 1) none 0).prog)
          (laterReplies (.connector false 5 (some 1) none 0)) = some (u, .ret 0) ∧
      u.report 5 EVWRITE = some (x, ev) ∧
      exec (Prog.step World.next) (x, handleEvent 3 ev.fd ev.mask) (eventReplies x ev) =
        some (y, .ret ()) ∧
      (v.fdarray 5 = ⟨some (.client 1), none, .client 0⟩ ∧ (v.fds 5).armedFor EVREAD) ∧
      (y.fdarray 5 = ⟨none, some .connUnbufferedTxfxn, .object 0⟩ ∧
        ¬ (y.fds 5).armedFor EVREAD ∧ ¬ (y.fds 5).armedFor EVWRITE) ∧
      ¬ SameRegistration 5 v y := by
  refine ⟨_, _, _, _, _, rfl, rfl, rfl, rfl, by decide, by decide, fun h => ?_⟩
  have hread := h.read
  revert hread
  decide

end Libtorque
