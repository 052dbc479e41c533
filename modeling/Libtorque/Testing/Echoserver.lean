import Libtorque.Session.Closes

/-! # echoserver

The client of the library that writes back what it is shown: a connection that
`torque_addfd` registers with `echo_server`. What the writes of each call of it
come to is given beforehand. -/
namespace Libtorque
open Lib

/-! ## The code -/

inductive WriteRes where
  | wrote (r : Nat)
  | failed (e : Errno)
deriving DecidableEq, Repr

/-- How the loop of `echo_server` is left. -/
inductive EchoExit where
  | done
  | blocked
  | error
deriving DecidableEq, Repr

/-- The loop of `echo_server`, with `w` of the `len` bytes at `buf` written: the
bytes that are written from there on, how many there are in all, and how it is
left. It goes on where the results end, and none is for more than was asked. -/
def writeLoop (buf : List UInt8) (len w : Nat) :
    List WriteRes → Option (List UInt8 × Nat × EchoExit)
  | [] => if w < len then none else some ([], w, .done)
  | res :: rest =>
    if w < len then
      match res with
      | .wrote r =>
        if r ≤ len - w then
          (writeLoop buf len (w + r) rest).map fun out => ((buf.drop w).take r ++ out.1, out.2)
        else none
      | .failed .eagain => some ([], w, .blocked)
      | .failed .eintr => writeLoop buf len w rest
      | .failed _ => some ([], w, .error)
    else some ([], w, .done)

/-- What a call of `echo_server` writes, and what else it does. -/
structure EchoOutcome where
  wrote : List UInt8
  acts : List ClientAct
  exit : EchoExit
deriving DecidableEq, Repr

def echoServer (rxb : RxBuf) (buffer : List UInt8) (results : List WriteRes) : Option EchoOutcome :=
  let (len, buf) := rxbufferValid rxb buffer
  if len = 0 then some ⟨[], [.close, .ret (-1)], .done⟩
  else
    match writeLoop buf len 0 results with
    | none => none
    | some (wrote, _, .error) => some ⟨wrote, [.close, .ret (-1)], .error⟩
    | some (wrote, w, exit) => some ⟨wrote, [.advance w, .ret 0], exit⟩

/-! ## Its connections -/

/-- A connection that `echo_server` serves. `script` has the results of the
writes to come, those of a call together; `sent` is all that has been written,
`acts` what the call has yet to do, and `exit` how the last one's loop was left. -/
structure Served extends Conn where
  script : List (List WriteRes) := []
  sent : List UInt8 := []
  acts : List ClientAct := []
  exit : EchoExit := .done

def Served.callback (s : Served) (t : Conn) : Option Served :=
  match s.script with
  | [] => none
  | results :: script =>
    (echoServer s.rxb s.mem results).map fun out =>
      { toConn := t, script, sent := s.sent ++ out.wrote, acts := out.acts, exit := out.exit }

def Served.client (s : Served) (t : Conn) (a : ClientAct) : Option Served :=
  match s.acts with
  | [] => none
  | b :: acts => if a = b then some { s with toConn := t, acts } else none

def Served.next (s : Served) (o : Op) (r : o.Rep) : Option Served :=
  (s.toConn.next o r).bind fun t =>
    match o, r with
    | .callback .., _ => s.callback t
    | .client _, a => s.client t a
    | _, _ => some { s with toConn := t }

/-- What has been written is how the input begins: all that has been released,
outside of the callback. When the descriptor waits for input again, all the
input has been sent, or a write would have blocked; it is armed for anything
else, which nothing handles, at the end of the input only. The callback closes
it when a write has failed, or at the end of the input with all of it sent. -/
structure Served.EchoOk (s : Served) (o : Option Op) : Prop where
  echoed : s.sent <+: s.input
  caught : s.calling = none → s.closed = false → s.sent = s.released
  waits : ∀ fd e, o = some (.epollCtl .mod fd e) → e.has EVREAD = true →
    s.sent = s.input ∨ s.exit = .blocked
  ends : ∀ fd e, o = some (.epollCtl .mod fd e) → e.has EVREAD = false →
    s.eof = true ∧ s.slots.txfxn = none
  closes : ∀ fd, o = some (.close fd) → s.calling ≠ none →
    s.exit = .error ∨ s.eof = true ∧ s.sent = s.input

def echoContract : Contract Op Op.Rep Served := .of Served.next Served.EchoOk fun _ _ _ => true

/-! ## What a call does -/

section Call
variable {buf out : List UInt8} {len w w' : Nat} {exit : EchoExit} {results : List WriteRes}

/-- The bytes from `w` to `w'` have been written, all that are left where the
loop ran to its end. -/
structure WrittenFrom (buf : List UInt8) (len w : Nat) (out : List UInt8) (w' : Nat)
    (exit : EchoExit) : Prop where
  ge : w ≤ w'
  le : w' ≤ len
  out : out = (buf.drop w).take (w' - w)
  done : exit = .done → w' = len

theorem WrittenFrom.nothing (hw : w ≤ len) (hdone : exit = .done → w = len) :
    WrittenFrom buf len w [] w exit :=
  ⟨Nat.le_refl w, hw, by simp, hdone⟩

/-- Each write begins where the one before it has ended. -/
theorem writeLoop_writes (hw : w ≤ len) (h : writeLoop buf len w results = some (out, w', exit)) :
    WrittenFrom buf len w out w' exit := by
  induction results generalizing w out with
  | nil =>
    unfold writeLoop at h
    split at h
    · cases h
    · cases h
      exact .nothing hw fun _ => by omega
  | cons res rest ih =>
    unfold writeLoop at h
    split at h
    · split at h
      · rename_i r
        split at h
        · obtain ⟨⟨out', x⟩, hrest, hout⟩ := Option.map_eq_some_iff.mp h
          cases hout
          have hwritten := ih (by omega) hrest
          have hge := hwritten.ge
          refine ⟨by omega, hwritten.le, ?_, hwritten.done⟩
          have hsplit : w' - w = r + (w' - (w + r)) := by omega
          dsimp only
          rw [hwritten.out, hsplit, List.take_add, List.drop_drop]
        · cases h
      · cases h
        exact .nothing hw nofun
      · exact ih hw h
      · cases h
        exact .nothing hw nofun
    · cases h
      exact .nothing hw fun _ => by omega

end Call

/-- A call with nothing to show closes; one with something writes some of it, and
releases that or closes. -/
inductive Echoes (s : Stream) : EchoOutcome → Prop
  | ended : s.window = [] → Echoes s ⟨[], [.close, .ret (-1)], .done⟩
  | error (w : Nat) : Echoes s ⟨s.window.take w, [.close, .ret (-1)], .error⟩
  | wrote (w : Nat) (exit : EchoExit) : w ≤ s.window.length →
      (exit = .blocked ∨ w = s.window.length) →
      Echoes s ⟨s.window.take w, [.advance w, .ret 0], exit⟩

theorem echoServer_echoes {s : Stream} {results : List WriteRes} {out : EchoOutcome} (hs : s.Bounds)
    (h : echoServer s.rxb s.mem results = some out) : Echoes s out := by
  have hlen : (rxbufferValid s.rxb s.mem).1 = s.window.length := by
    rw [rxbufferValid, used_eq hs, window_length hs]
  have htake (w : Nat) (hw : w ≤ s.window.length) :
      ((rxbufferValid s.rxb s.mem).2.drop 0).take (w - 0) = s.window.take w := by
    rw [window_length hs] at hw
    rw [Stream.window, List.drop_take, List.take_take, Nat.min_eq_left hw]
    rfl
  unfold echoServer at h
  dsimp only at h
  rw [hlen] at h
  split at h
  · rename_i hempty
    cases h
    exact .ended (List.length_eq_zero_iff.mp hempty)
  split at h
  · cases h
  · rename_i hloop
    cases h
    have hwritten := writeLoop_writes (Nat.zero_le _) hloop
    rw [hwritten.out, htake _ hwritten.le]
    exact .error _
  · rename_i wrote w exit hne hloop
    cases h
    have hwritten := writeLoop_writes (Nat.zero_le _) hloop
    rw [hwritten.out, htake _ hwritten.le]
    refine .wrote _ _ hwritten.le ?_
    cases exit with
    | done => exact .inr (hwritten.done rfl)
    | blocked => exact .inl rfl
    | error => exact (hne rfl).elim

/-! ## Operations of the library -/

/-- What `torque_addfd` registers `echo_server` with. -/
def EchoSlots : EvSource → Prop := SlotsIn (· = .bufferedRxfxn) fun _ => False

/-- Operations at which nothing is to be shown but that the callback has kept up. -/
def Op.steady : Op → Bool
  | .close _ | .epollCtl .mod .. => false
  | _ => true

/-- Operations that make a descriptor and its buffer ready. -/
def Op.Prepares : Op → Prop
  | .event | .callback .. | .client _ | .rxbufferAdvance .. | .close _ | .epollCtl .mod ..
  | .read .. | .sslRead .. | .sslWrite .. => False
  | .setEvsourceRx _ f => ∀ g ∈ f, g = .bufferedRxfxn
  | .setEvsourceTx _ f => f = none
  | _ => True

theorem Op.Prepares.keeps {o : Op} (h : o.Prepares) :
    o.Keeps (· = .bufferedRxfxn) fun _ => False := by
  cases o <;> first | trivial | exact h.elim | exact h | (cases h; exact nofun)

theorem Op.Prepares.dry {o : Op} (h : o.Prepares) : o.dry := by
  cases o <;> first | rfl | exact h.elim

/-- Between the operations of the handlers. -/
structure Served.Rest (s : Served) : Prop where
  plain : PlainInv s.toStream s.slots
  slots : EchoSlots s.slots
  idle : s.calling = none
  echoed : s.sent <+: s.input
  caught : s.closed = false → s.sent = s.released

section Steps
variable {s : Served} {n fd c : Nat}

theorem echoOk_of_steady {o : Option Op} (ho : o.all Op.steady) (hechoed : s.sent <+: s.input)
    (hcaught : s.calling = none → s.closed = false → s.sent = s.released) : s.EchoOk o where
  echoed := hechoed
  caught := hcaught
  waits _ _ he := by subst he; cases ho
  ends _ _ he := by subst he; cases ho
  closes _ he := by subst he; cases ho

theorem echoOk_of_close (hechoed : s.sent <+: s.input)
    (hcaught : s.calling = none → s.closed = false → s.sent = s.released)
    (hwhy : s.calling ≠ none → s.exit = .error ∨ s.eof = true ∧ s.sent = s.input) :
    s.EchoOk (some (.close fd)) where
  echoed := hechoed
  caught := hcaught
  waits _ _ he := by cases he
  ends _ _ he := by cases he
  closes _ _ := hwhy

theorem Served.Rest.ok {o : Option Op} (h : s.Rest) (ho : o.all Op.steady) : s.EchoOk o :=
  echoOk_of_steady ho h.echoed fun _ => h.caught

theorem echoSlots_tx {evs : EvSource} (h : EchoSlots evs) : evs.txfxn = none :=
  Option.eq_none_iff_forall_ne_some.mpr fun g hg => h.tx g hg

/-- A step that is not one of the callback's. -/
theorem wp_serve {o : Op} {Q : o.Rep → Served → Prop} (hok : s.EchoOk (some o))
    (ho : o.Keeps (fun _ => True) fun _ => True)
    (h : ∀ r t, s.toConn.next o r = some t → Q r { s with toConn := t }) :
    wp echoContract (perform o) Q s := by
  refine wp_op hok fun r t hstep => ?_
  obtain ⟨u, hu, hut⟩ := Option.bind_eq_some_iff.mp hstep.2
  cases o <;> first | exact ho.elim | (cases hut; exact h r u hu)

theorem wp_serveRxbuf {Q : RxBuf → Served → Prop} (hok : s.EchoOk (some (.rxbuf c)))
    (hQ : Q s.rxb s) : wp echoContract (rxbuf c) Q s := by
  refine wp_serve hok trivial fun r t ht => ?_
  obtain ⟨-, rfl, rfl⟩ := rxbuf_cases ht
  exact hQ

/-- The descriptor is armed for input, or at its end for anything else. -/
theorem wp_serveRestorefd {e : Events} {Q : Int → Served → Prop} (h : s.Rest)
    (hwaits : (EVEDGET ||| EVONESHOT ||| e).has EVREAD = true →
      s.sent = s.input ∨ s.exit = .blocked)
    (hends : (EVEDGET ||| EVONESHOT ||| e).has EVREAD = false → s.eof = true)
    (hQ : ∀ v t, t.Rest → Q v t) : wp echoContract (restorefd fd e) Q s := by
  unfold restorefd
  rw [wp_do]
  refine wp_serve ⟨h.echoed, fun _ => h.caught, ?_, ?_, nofun⟩ trivial fun ok t ht => ?_
  · intro _ _ he
    cases he
    exact hwaits
  · intro _ _ he
    cases he
    exact fun hnot => ⟨hends hnot, echoSlots_tx h.slots⟩
  · rcases epollCtl_cases ht with ⟨rfl, -, rfl⟩ | ⟨rfl, rfl⟩
    · exact hQ _ _ ⟨h.plain, h.slots, h.idle, h.echoed, h.caught⟩
    · exact hQ _ _ h

end Steps

/-! ## The callback -/

/-- Where a call is, by what it has yet to do. -/
inductive EchoPhase (s : Served) : List ClientAct → Prop
  | wrote (w : Nat) (hopen : s.closed = false) (hw : w ≤ s.window.length)
      (hsent : s.sent = s.released ++ s.window.take w)
      (hall : s.exit = .blocked ∨ w = s.window.length) : EchoPhase s [.advance w, .ret 0]
  | released (hopen : s.closed = false) (hsent : s.sent = s.released)
      (hall : s.sent = s.input ∨ s.exit = .blocked) : EchoPhase s [.ret 0]
  | closing (hsent : s.sent <+: s.input)
      (hwhy : s.exit = .error ∨ s.eof = true ∧ s.sent = s.input) :
      EchoPhase s [.close, .ret (-1)]
  | closed (hsent : s.sent <+: s.input) (hclosed : s.closed = true) : EchoPhase s [.ret (-1)]

theorem EchoPhase.echoed {s : Served} {acts : List ClientAct} (hs : s.Streamed)
    (h : EchoPhase s acts) : s.sent <+: s.input := by
  cases h with
  | wrote w _ hw hsent hall =>
    rw [hsent, ← hs]
    exact (List.prefix_append_right_inj _).mpr (List.take_prefix w _)
  | released _ hsent hall =>
    rw [hsent, ← hs]
    exact List.prefix_append _ _
  | closing hsent _ => exact hsent
  | closed hsent _ => exact hsent

/-- Inside a call, at the end of the input or not. -/
structure Served.InCall (eof : Bool) (s : Served) : Prop where
  plain : PlainInv s.toStream s.slots
  slots : EchoSlots s.slots
  busy : s.calling ≠ none
  same : s.eof = eof
  phase : EchoPhase s s.acts

section Callback
variable {s : Served} {n fd c : Nat} {eof : Bool} {kind : CbKind}

theorem Served.InCall.ok {o : Option Op} (h : s.InCall eof) (ho : o.all Op.steady) :
    s.EchoOk o :=
  echoOk_of_steady ho (h.phase.echoed h.plain.calm.streamed) fun hidle => absurd hidle h.busy

/-- What the call does next is as it goes on. -/
theorem wp_echoClient {Q : ClientAct → Served → Prop} (h : s.InCall eof)
    (hQ : ∀ a acts t, s.acts = a :: acts → s.toConn.client a = some t →
      Q a { s with toConn := t, acts }) :
    wp echoContract (perform (.client kind)) Q s := by
  refine wp_op (h.ok rfl) fun a t hstep => ?_
  obtain ⟨u, hu, hut⟩ := Option.bind_eq_some_iff.mp hstep.2
  dsimp only at hut
  unfold Served.client at hut
  split at hut
  · cases hut
  · rename_i b acts hacts
    split at hut
    · rename_i hab
      cases hut
      cases hab
      exact hQ a acts u hacts hu
    · cases hut

/-- One turn of the loop in which the call is followed. -/
theorem wp_echoTurn {Q : Int → Served → Prop} (h : s.InCall eof)
    (hdone : ∀ t : Served, t.Rest → t.closed = false → t.eof = eof →
      (t.sent = t.input ∨ t.exit = .blocked) → Q 0 t)
    (hover : ∀ v (t : Served), v ≠ 0 → t.Rest → Q v t) :
    wp echoContract
      (do match ← perform (.client kind) with
        | .advance k =>
          perform (.rxbufferAdvance c k)
          pure (.inl ())
        | .close =>
          close fd
          pure (.inl ())
        | .sslTx _ => pure (.inl ())
        | .ret v => pure (.inr v) : Prog (Unit ⊕ Int))
      (fun x u => x.elim (fun _ : Unit => u.InCall eof) (Q · u)) s := by
  rw [wp_do]
  refine wp_echoClient h fun a acts t hacts ht => ?_
  have hstreamed := h.plain.calm.streamed
  have hechoed : s.sent <+: s.input := h.phase.echoed hstreamed
  have hphase := h.phase
  rw [hacts] at hphase
  cases hphase with
  | wrote w hopen hw hsent hall =>
    rw [Conn.client, if_pos hw] at ht
    cases ht
    dsimp only
    rw [wp_do]
    refine wp_serve (echoOk_of_steady rfl hechoed fun hidle => absurd hidle h.busy) trivial
      fun r u hu => ?_
    obtain ⟨-, hu⟩ := Option.ite_none_left_eq_some.mp hu
    cases hu
    refine ⟨h.plain.of_calm (advance_calm h.plain.calm hw), h.slots, h.busy, h.same, ?_⟩
    refine .released hopen hsent ?_
    rcases hall with hblocked | rfl
    · exact .inr hblocked
    · left
      rw [List.take_length] at hsent
      exact hsent.trans hstreamed
  | released hopen hsent hall =>
    cases ht
    exact hdone _ ⟨h.plain, h.slots, rfl, hechoed, fun _ => hsent⟩ hopen h.same hall
  | closing hsent hwhy =>
    cases ht
    dsimp only
    rw [wp_do]
    refine wp_op (echoOk_of_close hsent (fun hidle => absurd hidle h.busy) fun _ => hwhy)
      fun r u hstep => ?_
    cases hstep.2
    exact ⟨h.plain, h.slots, h.busy, h.same, .closed hsent rfl⟩
  | closed hsent hclosed =>
    cases ht
    refine hover (-1) _ (by decide) ⟨h.plain, h.slots, rfl, hsent, fun hopen => ?_⟩
    exact absurd (hclosed.symm.trans hopen) (by decide)

/-- The results of the writes are those that come next. -/
theorem wp_echoCallback {f : Option Nat} {Q : Unit → Served → Prop} (h : s.Rest)
    (hopen : s.closed = false) (hrx : s.window = [] → s.eof = true)
    (hQ : ∀ t : Served, t.InCall s.eof → Q () t) :
    wp echoContract (perform (.callback kind f fd)) Q s := by
  refine wp_op (h.ok rfl) fun r t hstep => ?_
  obtain ⟨u, hu, hut⟩ := Option.bind_eq_some_iff.mp hstep.2
  obtain ⟨-, rfl⟩ := callback_cases hu
  dsimp only at hut
  unfold Served.callback at hut
  split at hut
  · cases hut
  · rename_i results script _
    obtain ⟨out, hout, ht⟩ := Option.map_eq_some_iff.mp hut
    cases ht
    have hcaught := h.caught hopen
    have hstreamed := h.plain.calm.streamed
    refine hQ _ ⟨h.plain, h.slots, Option.some_ne_none _, rfl, ?_⟩
    cases echoServer_echoes h.plain.calm.toBounds hout with
    | ended hempty =>
      have hall : s.sent = s.input := by
        rw [hcaught, ← hstreamed, hempty, List.append_nil]
      refine .closing ?_ (.inr ⟨hrx hempty, ?_⟩)
      · rw [List.append_nil]
        exact h.echoed
      · rw [List.append_nil]
        exact hall
    | error w =>
      refine .closing ?_ (.inl rfl)
      show s.sent ++ s.window.take w <+: s.input
      rw [hcaught, ← hstreamed]
      exact (List.prefix_append_right_inj _).mpr (List.take_prefix w _)
    | wrote w exit hw hall =>
      refine .wrote w hopen hw ?_ hall
      show s.sent ++ s.window.take w = s.released ++ s.window.take w
      rw [hcaught]

theorem wp_callEcho {f : Option Nat} {Q : Int → Served → Prop} (h : s.Rest)
    (hopen : s.closed = false) (hrx : s.window = [] → s.eof = true)
    (hdone : ∀ t : Served, t.Rest → t.closed = false → t.eof = s.eof →
      (t.sent = t.input ∨ t.exit = .blocked) → Q 0 t)
    (hover : ∀ v (t : Served), v ≠ 0 → t.Rest → Q v t) :
    wp echoContract (callBuffered n kind f fd c) Q s := by
  unfold callBuffered
  rw [wp_do]
  refine wp_echoCallback h hopen hrx fun t ht => ?_
  exact wp_loop (fun _ t => t.InCall s.eof) (fun _ _ hc => hc.ok rfl)
    (fun _ u hu => wp_echoTurn hu hdone hover) n ht

end Callback

/-! ## The handlers -/

section Handlers
variable {s : Served} {n fd c : Nat}

theorem wp_echoRxback {Q : Int → Served → Prop} (h : s.Rest) (hopen : s.closed = false)
    (hdone : ∀ t : Served, t.Rest → t.closed = false →
      (t.sent = t.input ∨ t.exit = .blocked) → Q 0 t)
    (hover : ∀ v (t : Served), v ≠ 0 → t.Rest → Q v t) :
    wp echoContract (rxback n fd c) Q s := by
  unfold rxback
  rw [wp_do]
  refine wp_serveRxbuf (h.ok rfl) ?_
  rw [used_eq h.plain.calm.toBounds, ← window_length h.plain.calm.toBounds]
  split
  · rename_i hne
    refine wp_callEcho h hopen (fun hempty => absurd ?_ hne) (fun t ht hto _ => hdone t ht hto)
      hover
    rw [hempty, List.length_nil]
  · rename_i hzero
    have hempty : s.window = [] := List.length_eq_zero_iff.mp (not_not.mp hzero)
    refine hdone s h hopen (.inl ?_)
    rw [h.caught hopen, ← h.plain.calm.streamed, hempty, List.append_nil]

theorem only_growrxbuf_prepares : (growrxbuf c).Only Op.Prepares := by
  refine only_do (only_perform trivial) fun rxb => only_do (only_perform trivial) fun page => ?_
  cases page with
  | none => exact only_pure
  | some page => exact only_do (only_perform trivial) fun _ => only_pure

/-- What stays as it is while a descriptor is made ready. -/
structure Served.Ready (eof : Bool) (s : Served) : Prop where
  slots : EchoSlots s.slots
  idle : s.calling = none
  open_ : s.closed = false
  same : s.eof = eof
  echoed : s.sent <+: s.input
  caught : s.sent = s.released

theorem Served.Ready.next {t : Served} {u : Conn} {eof : Bool} {o : Op} {r : o.Rep}
    (h : s.Ready eof) (ho : o.Prepares) (hu : s.toConn.next o r = some u)
    (ht : t = { s with toConn := u }) : t.Ready eof := by
  obtain ⟨hclosed, hcalling, hslots⟩ := next_kept ho.keeps hu h.slots
  obtain ⟨hinput, hreleased, heof, -⟩ := next_dry ho.dry hu
  subst ht
  refine ⟨hslots, hcalling.trans h.idle, hclosed.trans h.open_, heof.trans h.same, ?_,
    h.caught.trans hreleased.symm⟩
  show s.sent <+: u.input
  rw [hinput]
  exact h.echoed

theorem Served.Ready.ok {eof : Bool} {o : Option Op} (h : s.Ready eof)
    (ho : ∀ o' ∈ o, o'.Prepares) : s.EchoOk o where
  echoed := h.echoed
  caught _ _ := h.caught
  waits _ _ he := (ho _ he).elim
  ends _ _ he := (ho _ he).elim
  closes _ he := (ho _ he).elim

/-- Programs that make it ready are followed as those of any connection are. -/
theorem wp_prepare {α : Type} {p : Prog α} {Q : α → Conn → Prop} {R : α → Served → Prop}
    {eof : Bool} (hp : p.Only Op.Prepares) (h : s.Ready eof)
    (hwp : wp (streamContract fun _ _ _ => true) p Q s.toConn)
    (hR : ∀ a (t : Served), t.Ready eof → Q a t.toConn → R a t) : wp echoContract p R s := by
  refine wp_mono ?_ (wp_simulate (I := fun u (t : Served) => t.toConn = u ∧ t.Ready eof) hp ?_ ?_ ?_
    ⟨rfl, h⟩ hwp)
  · rintro a t ⟨u, ⟨rfl, ht⟩, hq⟩
    exact hR a t ht hq
  · exact fun _ t ht _ => ht.2.ok nofun
  · exact fun _ t o ho ht _ => ht.2.ok fun _ he => Option.some.inj he ▸ ho
  · rintro _ t o r v ho ⟨rfl, ht⟩ hstep
    obtain ⟨u, hu, hut⟩ := Option.bind_eq_some_iff.mp hstep.2
    have hv : v = { t with toConn := u } := by
      cases o <;> first | exact ho.elim | exact (Option.some.inj hut).symm
    exact ⟨u, ⟨rfl, hu⟩, by rw [hv], ht.next ho hu hv⟩

theorem Served.Rest.ready (h : s.Rest) (hopen : s.closed = false) : s.Ready s.eof :=
  ⟨h.slots, h.idle, hopen, rfl, h.echoed, h.caught hopen⟩

theorem Served.Ready.rest {eof : Bool} (h : s.Ready eof) (hplain : PlainInv s.toStream s.slots) :
    s.Rest :=
  ⟨hplain, h.slots, h.idle, h.echoed, fun _ => h.caught⟩

theorem wp_echoGrow {Q : Int → Served → Prop} (h : s.Rest) (hopen : s.closed = false)
    (hfull : s.rxb.bufoff = s.rxb.buftot)
    (hok : ∀ t : Served, t.Rest → t.closed = false → t.rxb.bufoff < t.rxb.buftot → Q 0 t)
    (hfail : ∀ v (t : Served), v ≠ 0 → t.Rest → Q v t) :
    wp echoContract (growrxbuf c) Q s := by
  refine wp_prepare (Q := fun v u => PlainInv u.toStream u.slots ∧
    (v = 0 → u.rxb.bufoff < u.rxb.buftot)) only_growrxbuf_prepares (h.ready hopen) ?_ ?_
  · exact wp_growrxbuf h.plain hfull (fun t ht hlt => ⟨ht, fun _ => hlt⟩) fun t ht => ⟨ht, nofun⟩
  · rintro v t ht ⟨hplain, hlt⟩
    by_cases hv : v = 0
    · subst hv
      exact hok t (ht.rest hplain) ht.open_ (hlt rfl)
    · exact hfail v t hv (ht.rest hplain)

theorem wp_echoFull {Q : Option Leave → Served → Prop} (h : s.Rest) (hopen : s.closed = false)
    (hout : ∀ l (t : Served), t.Rest → Q (some l) t)
    (hroom : ∀ t : Served, t.Rest → t.closed = false → t.rxb.bufoff < t.rxb.buftot → Q none t) :
    wp echoContract (bufferedRxfxnFull n fd c) Q s := by
  unfold bufferedRxfxnFull
  rw [wp_do]
  refine wp_echoRxback h hopen (fun t ht hto _ => ?_) fun v t hv ht => ?_
  · rw [if_neg (by decide), wp_do]
    refine wp_serveRxbuf (ht.ok rfl) ?_
    rw [room_eq ht.plain.calm.toBounds]
    have hoff := ht.plain.calm.off
    split
    · rw [wp_do]
      refine wp_echoGrow ht hto (by omega) (fun u hu huo hlt => ?_) fun v u hv hu => ?_
      · rw [if_neg (by decide)]
        exact hroom u hu huo hlt
      · rw [if_pos hv]
        exact hout _ u hu
    · exact hroom t ht hto (by omega)
  · rw [if_pos hv]
    exact hout _ t ht

/-- After the callback, the descriptor is armed again. -/
theorem wp_echoRearm {e : Events} {Q : Unit ⊕ Leave → Served → Prop} (h : s.Rest)
    (hwaits : (EVEDGET ||| EVONESHOT ||| e).has EVREAD = true →
      s.sent = s.input ∨ s.exit = .blocked)
    (hends : (EVEDGET ||| EVONESHOT ||| e).has EVREAD = false → s.eof = true)
    (hQ : ∀ l (t : Served), t.Rest → Q (.inr l) t) :
    wp echoContract
      (do
        let r ← restorefd fd e
        if r ≠ 0 then pure (.inr .brk) else pure (.inr .ret)) Q s := by
  rw [wp_do]
  refine wp_serveRestorefd h hwaits hends fun v t ht => ?_
  split <;> exact hQ _ t ht

theorem wp_echoRead {Q : Unit ⊕ Leave → Served → Prop} (h : s.Rest) (hopen : s.closed = false)
    (hroom : s.rxb.bufoff < s.rxb.buftot)
    (hon : ∀ t : Served, t.Rest → t.closed = false → Q (.inl ()) t)
    (hout : ∀ l (t : Served), t.Rest → Q (.inr l) t) :
    wp echoContract (bufferedRxfxnRead n fd c) Q s := by
  unfold bufferedRxfxnRead
  rw [wp_do]
  refine wp_serveRxbuf (h.ok rfl) ?_
  rw [wp_do, room_eq h.plain.calm.toBounds]
  refine wp_serve (h.ok rfl) trivial fun res t ht => ?_
  rcases read_cases ht with ⟨bs, hbs⟩ | ⟨rfl, rfl⟩ | ⟨rfl, rfl⟩
  · obtain ⟨rfl, hbs⟩ := hbs
    have hpos := hbs.1
    have hle := hbs.2.1
    have hmax := hbs.2.2.1
    obtain rfl := hbs.2.2.2
    have hr : (IoRes.bytes bs).value = (bs.length : Int) := by
      unfold maxRwCount at hmax
      exact intOf_eq (by omega)
    have hsize := h.plain.calm.size
    have hadd : sizeAdd s.rxb.bufoff bs.length = s.rxb.bufoff + bs.length :=
      sizeAdd_eq (by omega)
    have hechoed : s.sent <+: s.input ++ bs := h.echoed.trans (List.prefix_append _ _)
    rw [hr, if_pos (by omega), wp_do, Int.toNat_natCast, hadd]
    refine wp_serve (echoOk_of_steady rfl hechoed fun _ => h.caught) trivial fun _ u hu => ?_
    obtain ⟨-, rfl⟩ := setRxbuf_cases hu
    refine hon _ ⟨h.plain.of_calm ?_, h.slots, h.idle, hechoed, h.caught⟩ hopen
    exact read_calm h.plain.calm (by omega) rfl rfl rfl rfl
  · have hr : (IoRes.ret 0).value = 0 := rfl
    rw [hr, if_neg (by decide), if_pos rfl, wp_do]
    refine wp_callEcho ⟨h.plain, h.slots, h.idle, h.echoed, h.caught⟩ hopen (fun _ => rfl) ?_ ?_
    · intro t ht hto heof _
      rw [if_neg (by decide)]
      exact wp_echoRearm ht (fun hread => absurd hread (by decide)) (fun _ => heof) hout
    · intro v t hv ht
      rw [if_pos hv]
      exact hout _ t ht
  · have hr : (IoRes.ret (-1)).value = -1 := rfl
    rw [hr, if_neg (by decide), if_neg (by decide), wp_do]
    have hrest : Served.Rest { s with eof := false } :=
      ⟨h.plain, h.slots, h.idle, h.echoed, h.caught⟩
    refine wp_serve (hrest.ok rfl) trivial fun e t ht => ?_
    cases ht
    split
    · rw [wp_do]
      refine wp_echoRxback hrest hopen (fun t ht hto hall => ?_) fun v t hv ht => ?_
      · rw [if_neg (by decide)]
        exact wp_echoRearm ht (fun _ => hall) (fun hnot => absurd hnot (by decide)) hout
      · rw [if_pos hv]
        exact hout _ t ht
    · split
      · exact hout _ _ hrest
      · exact hon _ hrest hopen

theorem wp_echoRxfxn {Q : Unit → Served → Prop} (h : s.Rest) (hopen : s.closed = false)
    (hQ : ∀ t : Served, t.Rest → Q () t) :
    wp echoContract (bufferedRxfxn n fd c) Q s := by
  unfold bufferedRxfxn
  rw [wp_do]
  refine wp_loop (fun _ (t : Served) => t.Rest ∧ t.closed = false) (fun _ t ht => ht.1.ok rfl) ?_ n
    ⟨h, hopen⟩
  rintro _ t ⟨ht, hto⟩
  have hout (l : Leave) (u : Served) (hu : u.Rest) :
      wp echoContract (l.finish fd) Q u := by
    cases l with
    | brk =>
      refine wp_op (echoOk_of_close hu.echoed (fun _ => hu.caught) fun hbusy => ?_)
        fun _ v hstep => ?_
      · exact absurd hu.idle hbusy
      · cases hstep.2
        exact hQ _ ⟨hu.plain, hu.slots, hu.idle, hu.echoed, nofun⟩
    | ret => exact hQ u hu
  rw [wp_do]
  refine wp_serveRxbuf (ht.ok rfl) ?_
  rw [room_eq ht.plain.calm.toBounds]
  have hoff := ht.plain.calm.off
  split
  · rw [wp_do]
    exact wp_echoFull ht hto hout fun u hu huo hlt =>
      wp_echoRead hu huo hlt (fun v hv hvo => ⟨hv, hvo⟩) hout
  · exact wp_echoRead ht hto (by omega) (fun v hv hvo => ⟨hv, hvo⟩) hout

/-! ## The whole of it -/

theorem wp_echoSlot {Q : Unit → Served → Prop} (h : s.Rest) (hopen : s.closed = false)
    (hQ : ∀ t : Served, t.Rest → Q () t) :
    wp echoContract (handleSlot n fd s.slots.rxfxn s.slots.cbstate) Q s := by
  obtain ⟨c, hc⟩ := h.plain.state
  rw [hc]
  refine wp_slot (fun _ => hQ s h) fun f hf => ?_
  obtain rfl : f = .bufferedRxfxn := h.slots.rx f hf
  refine wp_serve (h.ok rfl) trivial fun _ t ht => ?_
  obtain ⟨-, rfl⟩ := enter_cases ht
  refine wp_echoRxfxn ⟨h.plain, h.slots, h.idle, h.echoed, h.caught⟩ hopen fun u hu => ?_
  refine wp_serve (hu.ok rfl) trivial fun _ v hv => ?_
  cases hv
  exact hQ _ ⟨hu.plain, hu.slots, hu.idle, hu.echoed, hu.caught⟩

/-- No event comes for a descriptor that is closed. -/
theorem wp_echoEvents {Q : Unit → Served → Prop} (h : s.Rest) :
    wp echoContract (handleEvents n fd) Q s := by
  unfold handleEvents
  refine wp_loop (fun _ (t : Served) => t.Rest) (fun _ _ ht => ht.ok rfl) (fun _ t ht => ?_) n h
  rw [wp_do]
  refine wp_serve (ht.ok rfl) trivial fun e u hu => ?_
  obtain ⟨hopen, -, rfl⟩ := event_cases hu
  have hrest : Served.Rest { t with armed := none } :=
    ⟨ht.plain, ht.slots, ht.idle, ht.echoed, ht.caught⟩
  rw [wp_do]
  refine wp_handleEvent (M := Served.Rest) (fun _ => ?_) (fun _ => hrest) (fun v hv _ => ?_)
    fun _ hv _ => hv
  · refine wp_serve (hrest.ok rfl) trivial fun evs v hv => ?_
    obtain ⟨rfl, rfl⟩ := evsource_cases hv
    exact wp_echoSlot hrest hopen fun _ hw => hw
  · refine wp_serve (hv.ok rfl) trivial fun evs w hw => ?_
    obtain ⟨rfl, rfl⟩ := evsource_cases hw
    rw [echoSlots_tx hv.slots]
    exact hv

end Handlers

theorem only_addFd {fd : Int} {f : Option Nat} {v : CbState} :
    (addFdToEvhandler fd (f.map fun _ => .bufferedRxfxn) none v EVONESHOT).Only Op.Prepares := by
  refine only_do (only_perform trivial) fun size => ?_
  split
  · exact only_pure
  refine only_do (only_do (only_perform ?_) fun _ => only_do (only_perform rfl) fun _ =>
    only_perform trivial) fun _ => only_do ?_ fun r => ?_
  · intro g hg
    obtain ⟨-, -, rfl⟩ := Option.map_eq_some_iff.mp hg
    rfl
  · unfold addFdEvent
    split
    · exact only_pure
    · refine only_do (only_perform trivial) fun ok => ?_
      cases ok <;> exact only_pure
  · split <;> exact only_pure

theorem only_torqueAddfd {fd : Int} {f : Option Nat} {state : Nat} :
    (torqueAddfd fd f none state).Only Op.Prepares := by
  unfold torqueAddfd
  split
  · exact only_pure
  refine only_do (only_do (only_perform trivial) fun c => ?_) fun c => ?_
  · cases c with
    | none => exact only_pure
    | some c =>
      refine only_do (only_do (only_perform trivial) fun rxb => only_do (only_perform trivial)
        fun page => ?_) fun r => ?_
      · obtain ⟨size, _ | page⟩ := page
        · exact only_do (only_perform trivial) fun _ => only_pure
        · exact only_do (only_perform trivial) fun _ => only_pure
      · split
        · refine only_do (only_perform trivial) fun rxb => ?_
          refine only_do (only_perform trivial) fun _ => ?_
          exact only_do (only_perform trivial) fun _ => only_pure
        · exact only_do (only_perform trivial) fun _ => only_pure
  · cases c with
    | none => exact only_pure
    | some c =>
      refine only_do only_addFd fun r => ?_
      split
      · refine only_do ?_ fun _ => only_pure
        exact only_do (only_perform trivial) fun rxb => only_perform trivial
      · exact only_pure

theorem wp_echoSession {script : List (List WriteRes)} {n fd f : Nat} :
    wp echoContract (plainSession n fd (some f) none 0) (fun _ t => t.EchoOk none) { script } := by
  unfold plainSession
  rw [wp_do]
  refine wp_prepare only_torqueAddfd
    ⟨⟨nofun, nofun⟩, rfl, rfl, rfl, List.prefix_refl _, rfl⟩
    (wp_torqueAddfd (Q := fun r u => r = 0 → PlainInv u.toStream u.slots) ⟨rfl, rfl, rfl, rfl⟩
      (fun _ ht _ => ht) fun _ _ _ hr hzero => absurd hzero hr) fun r t ht hplain => ?_
  split
  · rename_i hr
    exact wp_echoEvents (ht.rest (hplain hr))
  · exact ht.ok nofun

/-- **What is read is sent back.** In every run of a connection of echoserver,
whatever is read and whatever becomes of the writes: what has been sent is how
the input begins, and all of it when the descriptor waits for more, unless a
write would have blocked. The callback closes it at the end of the input with
all sent, or when a write fails; else it is left, at the end of the input, armed
for what has no handler. -/
theorem echo_session (script : List (List WriteRes)) (n fd f : Nat)
    (replies : List ((o : Op) → o.Rep)) :
    Always (Prog.step Served.next) (fun x => x.1.EchoOk x.2.op)
      ({ script }, plainSession n fd (some f) none 0) replies := by
  have hm : Meets (Prog.step Served.next) (Prog.Assume fun _ _ _ => true)
      ({ script }, plainSession n fd (some f) none 0) replies :=
    meets_of_forall (fun x r => by rcases x with ⟨s, _ | _ | _⟩ <;> trivial) _ _
  refine (always_of_wp (K := echoContract) (fun _ _ _ _ ha ht => ⟨ha, ht⟩) wp_echoSession
    hm).mono ?_
  rintro ⟨s, _ | _ | _⟩ h <;> exact h

end Libtorque
