import Libtorque.Session.SslStream

/-! # The callback of torquessl

The SSL client of the library sends back with `ssl_tx` all that it is shown. It
never leaves anything in the buffer, which is what the receive path needs of its
clients. -/
namespace Libtorque
open Lib

/-! ## The code -/

/-- Where `ssl_conn_handler` is: at its beginning, past `ssl_tx` for `len` bytes,
or past `rxbuffer_advance`. -/
inductive HandlerAt where
  | begin
  | sending (len : Nat)
  | advanced
deriving DecidableEq, Repr

/-- A connection that `ssl_conn_handler` serves. `wrote` is how much `SSL_write`
has taken of what the call at hand sends, `sent` all that it has taken, and
`short` is that a call has sent less than it was shown. -/
structure SslServed extends Conn where
  handler : HandlerAt := .begin
  wrote : Nat := 0
  sent : List UInt8 := []
  short : Bool := false

/-- What `ssl_conn_handler` does next. `ssl_tx` has returned less than `len` just
when less has been written: see `wp_sendBack`. -/
def SslServed.handle (s : SslServed) : ClientAct × SslServed :=
  match s.handler with
  | .begin =>
    let (len, _) := rxbufferValid s.rxb s.mem
    if len = 0 then (.ret (-1), s)
    else (.sslTx (intOf len), { s with handler := .sending len, wrote := 0 })
  | .sending len =>
    if (s.wrote : Int) < intOf len then (.ret (-1), { s with handler := .begin, short := true })
    else (.advance len, { s with handler := .advanced })
  | .advanced => (.ret 0, { s with handler := .begin })

def SslServed.client (s : SslServed) (t : Conn) (a : ClientAct) : Option SslServed :=
  if a = s.handle.1 then some { s.handle.2 with toConn := t } else none

/-- `SSL_write` from `buf + ret` on. -/
def SslServed.write (s : SslServed) (t : Conn) (r : Int) : SslServed :=
  if r ≥ 0 then
    let (_, buf) := rxbufferValid s.rxb s.mem
    { s with toConn := t, wrote := s.wrote + r.toNat,
             sent := s.sent ++ (buf.drop s.wrote).take r.toNat }
  else { s with toConn := t }

def SslServed.next (s : SslServed) (o : Op) (r : o.Rep) : Option SslServed :=
  (s.toConn.next o r).bind fun t =>
    match o, r with
    | .client _, a => s.client t a
    | .sslWrite .., r => some (s.write t r)
    | _, _ => some { s with toConn := t }

/-- What has been sent is how the input begins. All of the input has been sent
when more is read, and when the descriptor is armed, outside of the callback; so
it has when the connection is closed, unless a call has sent too little. -/
structure SslServed.EchoOk (s : SslServed) (o : Option Op) : Prop where
  stream : s.StreamOk o
  echoed : s.sent <+: s.input
  reads : ∀ ssl c off len, o = some (.sslRead ssl c off len) → s.sent = s.input
  waits : ∀ op fd e, o = some (.epollCtl op fd e) → s.calling = none → s.sent = s.input
  closes : ∀ fd, o = some (.close fd) → s.sent = s.input ∨ s.short = true

/-- Pages are of less than 4 GiB. -/
def SmallPages (_ : SslServed) : (o : Op) → o.Rep → Bool
  | .getBigPage, (size, some _) => size < 2 ^ 32
  | _, _ => true

def sslEchoContract : Contract Op Op.Rep SslServed := .of SslServed.next SslServed.EchoOk SmallPages

/-! ## Operations -/

/-- Operations that are not the callback's. -/
def Op.library : Op → Bool
  | .client _ | .sslWrite .. => false
  | _ => true

theorem library_of_dry {o : Op} (h : o.dry) : o.library := by
  cases o <;> first | rfl | exact h

/-- Operations at which a handler may be about to end. -/
def Op.ends : Op → Bool
  | .read .. | .sslRead .. | .callback .. | .epollCtl .. => false
  | _ => true

theorem plain_of_ends {o : Op} (h : o.ends) : o.plain := by
  cases o <;> first | rfl | cases h

/-- Operations within a call. -/
def Op.within : Op → Bool
  | .read .. | .sslRead .. | .callback .. | .close _ => false
  | _ => true

theorem plain_of_within {o : Op} (h : o.within) : o.plain := by
  cases o <;> first | rfl | cases h

/-- Operations at which nothing is to be shown but that the input is in order, and
that what has been sent is how it begins. -/
def Op.aloof : Op → Bool
  | .sslRead .. | .epollCtl .. | .close _ => false
  | _ => true

/-! ## Between the operations -/

/-- Everything that has come has been sent back. -/
structure SslServed.Idle (s : SslServed) : Prop where
  idle : s.calling = none
  handler : s.handler = .begin
  same : s.sent = s.input

/-- Nothing has been read. -/
structure SslServed.Fresh (s : SslServed) : Prop extends s.Idle where
  input : s.input = []
  released : s.released = []
  small : s.mem.length < 2 ^ 32

/-- Ready for `SSL_read`, with nothing in the buffer. -/
structure SslServed.Ready (s : SslServed) : Prop extends s.Idle where
  slots : DataSlots s.slots
  calm : s.Calm
  small : s.rxb.buftot < 2 ^ 32
  empty : s.rxb.bufate = s.rxb.bufoff
  room : s.rxb.bufoff < s.rxb.buftot

/-- Nothing more is done but to free the connection and close it. -/
structure SslServed.Over (s : SslServed) : Prop where
  settled : s.Settled
  echoed : s.sent <+: s.input
  why : s.sent = s.input ∨ s.short = true

/-- Between the handlers. -/
inductive SslServed.Rest (s : SslServed) : Prop
  | hand (fresh : s.Fresh) (unread : Unread s.toConn) (slots : HandSlots s.slots)
  | ready (ready : s.Ready)
  | gone (unsent : s.Over) (freed : s.freed = true)

section Steps
variable {s : SslServed} {n fd c : Nat}

theorem sslEchoOk_of_aloof {o : Option Op} (ho : o.all Op.aloof) (hs : s.StreamOk o)
    (hechoed : s.sent <+: s.input) : s.EchoOk o where
  stream := hs
  echoed := hechoed
  reads _ _ _ _ he := by subst he; cases ho
  waits _ _ _ he := by subst he; cases ho
  closes _ he := by subst he; cases ho

theorem SslServed.Idle.ok {o : Option Op} (h : s.Idle) (hs : s.StreamOk o) : s.EchoOk o where
  stream := hs
  echoed := h.same ▸ List.prefix_refl _
  reads _ _ _ _ _ := h.same
  waits _ _ _ _ _ := h.same
  closes _ _ := .inl h.same

theorem SslServed.Ready.ok {o : Option Op} (h : s.Ready) (ho : o.all Op.plain) : s.EchoOk o :=
  h.toIdle.ok (Stream.Calm.ok h.calm ho)

theorem SslServed.Over.ok {o : Option Op} (h : s.Over) (ho : o.all Op.ends) : s.EchoOk o where
  stream := h.settled.ok (by
    cases o with
    | none => rfl
    | some o => exact plain_of_ends ho)
  echoed := h.echoed
  reads _ _ _ _ he := by subst he; cases ho
  waits _ _ _ he := by subst he; cases ho
  closes _ _ := h.why

theorem SslServed.Ready.toOver (h : s.Ready) : s.Over :=
  ⟨h.calm.settled, h.same ▸ List.prefix_refl _, .inl h.same⟩

theorem SslServed.Ready.of_stream {t : Conn} (h : s.Ready) (hstream : t.toStream = s.toStream)
    (hslots : DataSlots t.slots) (hcalling : t.calling = s.calling) :
    SslServed.Ready { s with toConn := t } where
  idle := hcalling.trans h.idle
  handler := h.handler
  same := by rw [hstream]; exact h.same
  slots := hslots
  calm := by rw [hstream]; exact h.calm
  small := by rw [hstream]; exact h.small
  empty := by rw [hstream]; exact h.empty
  room := by rw [hstream]; exact h.room

theorem SslServed.Over.of_stream {t : Conn} (h : s.Over) (hstream : t.toStream = s.toStream) :
    SslServed.Over { s with toConn := t } where
  settled := by rw [hstream]; exact h.settled
  echoed := by rw [hstream]; exact h.echoed
  why := by rw [hstream]; exact h.why

theorem wp_library {o : Op} {Q : o.Rep → SslServed → Prop} (hok : s.EchoOk (some o))
    (ho : o.library)
    (h : ∀ r t, SmallPages s o r → s.toConn.next o r = some t → Q r { s with toConn := t }) :
    wp sslEchoContract (perform o) Q s := by
  refine wp_op hok fun r t hstep => ?_
  obtain ⟨u, hu, hut⟩ := Option.bind_eq_some_iff.mp hstep.2
  cases o <;> first | (cases hut; exact h r u hstep.1 hu) | cases ho

/-- What leaves the buffer and the slots as they are keeps it ready. -/
theorem wp_ready {o : Op} {Q : o.Rep → SslServed → Prop} (h : s.Ready) (hq : o.quiet) (hd : o.dry)
    (hp : o.plain) (hQ : ∀ r t, t.Ready → Q r t) : wp sslEchoContract (perform o) Q s := by
  refine wp_library (h.ok (by simpa using hp)) (library_of_dry hd) fun r t _ ht => hQ r _ ?_
  obtain ⟨hstream, hslots⟩ := next_quiet hq ht
  obtain ⟨-, -, -, hcalling⟩ := next_dry hd ht
  exact h.of_stream hstream (hslots ▸ h.slots) hcalling

theorem wp_readyRx {rx : Option Fn} {Q : Unit → SslServed → Prop} (h : s.Ready)
    (hrx : rx = none ∨ rx = some .sslRxfxn) (hQ : ∀ t : SslServed, t.Ready → Q () t) :
    wp sslEchoContract (setEvsourceRx fd rx) Q s := by
  refine wp_library (h.ok rfl) rfl fun _ t _ ht => ?_
  cases ht
  exact hQ _ (h.of_stream rfl ⟨hrx, h.slots.tx, h.slots.state⟩ rfl)

theorem wp_readyTx {tx : Option Fn} {Q : Unit → SslServed → Prop} (h : s.Ready)
    (htx : tx = none ∨ tx = some .sslTxrxfxn ∨ tx = some .sslTxfxn)
    (hQ : ∀ t : SslServed, t.Ready → Q () t) :
    wp sslEchoContract (setEvsourceTx fd tx) Q s := by
  refine wp_library (h.ok rfl) rfl fun _ t _ ht => ?_
  cases ht
  exact hQ _ (h.of_stream rfl ⟨h.slots.rx, htx, h.slots.state⟩ rfl)

theorem wp_giveUp {o : Op} {Q : o.Rep → SslServed → Prop} (h : s.Over) (he : o.ends) (hq : o.quiet)
    (hd : o.dry) (hQ : ∀ r t, s.toConn.next o r = some t → { s with toConn := t }.Over →
      Q r { s with toConn := t }) : wp sslEchoContract (perform o) Q s := by
  refine wp_library (h.ok (by simpa using he)) (library_of_dry hd) fun r t _ ht => hQ r t ht ?_
  obtain ⟨hstream, -⟩ := next_quiet hq ht
  exact h.of_stream hstream

theorem wp_overFree {Q : Unit → SslServed → Prop} (h : s.Over)
    (hQ : ∀ t : SslServed, t.Rest → Q () t) :
    wp sslEchoContract (freeAndClose c fd) Q s := by
  unfold freeAndClose freeSslCbstate freeRxbuffer
  rw [wp_do, wp_do]
  refine wp_giveUp h rfl rfl rfl fun _ t _ ht => ?_
  rw [wp_do]
  refine wp_giveUp ht rfl rfl rfl fun _ u _ hu => ?_
  rw [wp_do, wp_do]
  refine wp_giveUp hu rfl rfl rfl fun _ v _ hv => ?_
  refine wp_giveUp hv rfl rfl rfl fun _ w _ hw => ?_
  refine wp_giveUp hw rfl rfl rfl fun _ x hx hxo => ?_
  refine wp_giveUp hxo rfl rfl rfl fun _ y hy hyo => ?_
  refine hQ _ (.gone hyo ?_)
  cases hx
  cases hy
  rfl

theorem wp_sslEchoArm {e : Events} {Q : Unit → SslServed → Prop} (h : s.Ready)
    (hQ : ∀ t : SslServed, t.Rest → Q () t) :
    wp sslEchoContract (do
      let r ← restorefd fd e
      if r ≠ 0 then freeAndClose c fd else pure ()) Q s := by
  have hend (v : Int) (t : SslServed) (ht : t.Ready) :
      wp sslEchoContract (if v ≠ 0 then freeAndClose c fd else pure ()) Q t := by
    split
    · exact wp_overFree ht.toOver hQ
    · exact hQ t (.ready ht)
  unfold restorefd
  rw [wp_do, wp_do]
  refine wp_ready h rfl rfl rfl fun ok t ht => ?_
  split <;> exact hend _ t ht

end Steps

/-! ## The callback -/

/-- How far a call is: nothing has been sent, `wrote` of what it is shown, or all
of it, which has been released too. -/
inductive HandlerPhase (s : Stream) (sent : List UInt8) (wrote : Nat) : HandlerAt → Prop
  | begin (hsent : sent = s.released) : HandlerPhase s sent wrote .begin
  | sending (hw : wrote ≤ s.window.length) (hsent : sent = s.released ++ s.window.take wrote) :
      HandlerPhase s sent wrote (.sending s.window.length)
  | advanced (hsent : sent = s.input) (hempty : s.rxb.bufate = s.rxb.bufoff)
      (hroom : s.rxb.bufoff < s.rxb.buftot) : HandlerPhase s sent wrote .advanced

theorem HandlerPhase.echoed {s : Stream} {sent : List UInt8} {wrote : Nat} {h : HandlerAt}
    (hs : s.Streamed) (hp : HandlerPhase s sent wrote h) : sent <+: s.input := by
  cases hp with
  | begin hsent =>
    rw [hsent, ← hs]
    exact List.prefix_append _ _
  | sending hw hsent =>
    rw [hsent, ← hs]
    exact (List.prefix_append_right_inj _).mpr (List.take_prefix _ _)
  | advanced hsent _ _ => exact hsent ▸ List.prefix_refl _

/-- A buffer that came in with what one `SSL_read` has found. -/
structure SslServed.Filled (s : SslServed) : Prop where
  slots : DataSlots s.slots
  calm : s.Calm
  small : s.rxb.buftot < 2 ^ 32
  few : s.window.length < 2 ^ 31

/-- Inside a call. -/
structure SslServed.InCall (s : SslServed) : Prop extends s.Filled where
  busy : s.calling ≠ none
  phase : HandlerPhase s.toStream s.sent s.wrote s.handler

section Call
variable {s : SslServed} {n fd c len : Nat}

theorem SslServed.InCall.ok {o : Option Op} (h : s.InCall) (ho : o.all Op.within) :
    s.EchoOk o where
  stream := Stream.Calm.ok h.calm (by
    cases o with
    | none => rfl
    | some o => exact plain_of_within ho)
  echoed := h.phase.echoed h.calm.streamed
  reads _ _ _ _ he := by subst he; cases ho
  waits _ _ _ _ hidle := absurd hidle h.busy
  closes _ he := by subst he; cases ho

/-- What leaves the buffer as it is keeps a call where it is. -/
theorem SslServed.InCall.of_stream {t : Conn} (h : s.InCall) (hstream : t.toStream = s.toStream)
    (hslots : DataSlots t.slots) (hcalling : t.calling = s.calling) :
    SslServed.InCall { s with toConn := t } := by
  obtain ⟨⟨-, hcalm, hsmall, hfew⟩, hbusy, hphase⟩ := h
  refine ⟨⟨hslots, ?_, ?_, ?_⟩, ?_, ?_⟩
  · rw [hstream]; exact hcalm
  · rw [hstream]; exact hsmall
  · show t.window.length < 2 ^ 31
    rw [hstream]; exact hfew
  · rw [hcalling]; exact hbusy
  · show HandlerPhase t.toStream s.sent s.wrote s.handler
    rw [hstream]; exact hphase

theorem wp_inCall {o : Op} {Q : o.Rep → SslServed → Prop} (h : s.InCall) (hq : o.quiet)
    (hd : o.dry) (hw : o.within)
    (hQ : ∀ r t, t.InCall → t.handler = s.handler → t.wrote = s.wrote → Q r t) :
    wp sslEchoContract (perform o) Q s := by
  refine wp_library (h.ok (by simpa using hw)) (library_of_dry hd) fun r t _ ht => ?_
  obtain ⟨hstream, hslots⟩ := next_quiet hq ht
  exact hQ r _ (h.of_stream hstream (hslots ▸ h.slots) (next_dry hd ht).2.2.2) rfl rfl

theorem wp_inCallArm {e : Events} {Q : Int → SslServed → Prop} (h : s.InCall)
    (hQ : ∀ v t, t.InCall → t.handler = s.handler → t.wrote = s.wrote → Q v t) :
    wp sslEchoContract (restorefd fd e) Q s := by
  unfold restorefd
  rw [wp_do]
  refine wp_inCall h rfl rfl rfl fun ok t ht hh hw => ?_
  split <;> exact hQ _ t ht hh hw

/-- Where `SSL_write` has failed, `ssl_tx` returns what has been written, or -1. -/
theorem wp_sendBackError {err : SslErr} {ret : Int} {Q : Int → SslServed → Prop} (h : s.InCall)
    (hQ : ∀ v t, t.InCall → t.handler = s.handler → t.wrote = s.wrote → v = -1 ∨ v = ret →
      Q v t) : wp sslEchoContract (sslTxError fd err ret) Q s := by
  have hend (t : SslServed) (e : Events) (ht : t.InCall) (hh : t.handler = s.handler)
      (hw : t.wrote = s.wrote) : wp sslEchoContract (do
        let r ← restorefd fd e
        if r ≠ 0 then pure (-1) else pure ret) Q t := by
    rw [wp_do]
    refine wp_inCallArm ht fun r u hu huh huw => ?_
    split
    · exact hQ _ u hu (huh.trans hh) (huw.trans hw) (.inl rfl)
    · exact hQ _ u hu (huh.trans hh) (huw.trans hw) (.inr rfl)
  cases err with
  | wantRead =>
    unfold sslTxError
    rw [wp_do]
    refine wp_library (h.ok rfl) rfl fun _ t _ ht => ?_
    cases ht
    rw [wp_do]
    refine wp_library (SslServed.InCall.ok (h.of_stream rfl
      ⟨.inr rfl, h.slots.tx, h.slots.state⟩ rfl) rfl) rfl fun _ t _ ht => ?_
    cases ht
    exact hend _ _ (h.of_stream rfl ⟨.inr rfl, .inl rfl, h.slots.state⟩ rfl) rfl rfl
  | wantWrite => exact hend s _ h rfl rfl
  | other _ => exact hQ _ s h rfl rfl (.inl rfl)

theorem sslWrite_cases {u v : Conn} {ssl : Option Nat} {k r : Int}
    (h : u.next (.sslWrite ssl k) r = some v) : r ≤ k ∧ v = u := by
  obtain ⟨hle, hsame⟩ := Option.ite_none_right_eq_some.mp h
  exact ⟨hle, (Option.some.inj hsame).symm⟩

/-- One `SSL_write`: what it takes comes after what has been sent. -/
theorem wp_sslWrite {ssl : Option Nat} {Q : Int → SslServed → Prop} (h : s.InCall)
    (hh : s.handler = .sending len)
    (hQ : ∀ r t, t.InCall → t.handler = .sending len → (0 ≤ r → (t.wrote : Int) = s.wrote + r) →
      (r < 0 → t.wrote = s.wrote) → Q r t) :
    wp sslEchoContract (perform (.sslWrite ssl ((len : Int) - s.wrote))) Q s := by
  refine wp_op (h.ok rfl) fun r t hstep => ?_
  obtain ⟨u, hu, hut⟩ := Option.bind_eq_some_iff.mp hstep.2
  cases hut
  obtain ⟨hle, rfl⟩ := sslWrite_cases hu
  have hphase := h.phase
  rw [hh] at hphase
  by_cases hr : 0 ≤ r
  · have hwrite : s.write s.toConn r = { s with
        wrote := s.wrote + r.toNat
        sent := s.sent ++ ((s.mem.drop s.rxb.bufate).drop s.wrote).take r.toNat } := if_pos hr
    rw [hwrite]
    refine hQ r _ ⟨⟨h.slots, h.calm, h.small, h.few⟩, h.busy, ?_⟩ hh (fun _ => ?_) (fun hneg => ?_)
    · show HandlerPhase s.toStream _ (s.wrote + r.toNat) s.handler
      rw [hh]
      cases hphase with
      | sending hw hsent =>
        have hlen := window_length h.calm.toBounds
        have hate := h.calm.ate
        refine .sending (by omega) ?_
        have htake : ((s.mem.drop s.rxb.bufate).drop s.wrote).take r.toNat =
            (s.window.drop s.wrote).take r.toNat := by
          rw [Stream.window, List.drop_take, List.drop_take, List.take_take,
            Nat.min_eq_left (by omega)]
        rw [hsent, htake, List.take_add, List.append_assoc]
    · show ((s.wrote + r.toNat : Nat) : Int) = s.wrote + r
      omega
    · exact absurd hr (Int.not_le.mpr hneg)
  · have hwrite : s.write s.toConn r = s := if_neg hr
    rw [hwrite]
    exact hQ r s h hh (fun hpos => absurd hpos hr) fun _ => rfl

/-- `ssl_tx` of all that is shown returns less just when less has been written. -/
theorem wp_sendBack {Q : Int → SslServed → Prop} (h : s.InCall) (hh : s.handler = .sending len)
    (hwrote : s.wrote = 0)
    (hQ : ∀ v t, t.InCall → t.handler = .sending len → (v < (len : Int) ↔ t.wrote < len) →
      Q v t) :
    wp sslEchoContract (sslTx n fd c len) Q s := by
  unfold sslTx
  refine wp_loop (fun ret t => t.InCall ∧ t.handler = .sending len ∧ ret = t.wrote)
    (fun _ _ ht => ht.1.ok rfl) ?_ n ⟨h, hh, by rw [hwrote]; rfl⟩
  rintro _ t ⟨ht, hth, rfl⟩
  split
  · rename_i hlt
    rw [wp_do]
    refine wp_inCall ht rfl rfl rfl fun sc u hu huh huw => ?_
    rw [wp_do, ← huw]
    refine wp_sslWrite hu (huh.trans hth) fun r v hv hvh hpos hneg => ?_
    split
    · rename_i hr
      exact ⟨hv, hvh, (hpos hr).symm⟩
    · rename_i hr
      rw [wp_do]
      refine wp_inCall hv rfl rfl rfl fun err w hw hwh hww => ?_
      rw [wp_do]
      refine wp_sendBackError hw fun x y hy hyh hyw hx => ?_
      have hless : y.wrote < len := by
        rw [hyw, hww, hneg (Int.not_le.mp hr), huw]
        exact Int.ofNat_lt.mp hlt
      refine hQ x y hy (hyh.trans (hwh.trans hvh)) (iff_of_true ?_ hless)
      rcases hx with rfl | rfl
      · omega
      · rw [huw]
        exact hlt
  · rename_i hge
    exact hQ _ t ht hth (iff_of_false hge fun hlt => hge (Int.ofNat_lt.mpr hlt))

/-- What the callback does next is as `ssl_conn_handler` goes on. -/
theorem wp_sslClient {kind : CbKind} {Q : ClientAct → SslServed → Prop} {a : ClientAct}
    {u : SslServed} (h : s.InCall) (hhandle : s.handle = (a, u))
    (hQ : ∀ t, s.toConn.client a = some t → Q a { u with toConn := t }) :
    wp sslEchoContract (perform (.client kind)) Q s := by
  refine wp_op (h.ok rfl) fun b v hstep => ?_
  obtain ⟨t, ht, hut⟩ := Option.bind_eq_some_iff.mp hstep.2
  dsimp only at hut
  rw [SslServed.client, hhandle] at hut
  obtain ⟨hab, hv⟩ := Option.ite_none_right_eq_some.mp hut
  cases hv
  cases hab
  exact hQ t ht

/-- Everything that was shown has been released. -/
theorem advance_all {s : Stream} (h : s.Calm) :
    (s.advance s.window.length).rxb.bufate = (s.advance s.window.length).rxb.bufoff ∧
      (s.advance s.window.length).rxb.bufoff < (s.advance s.window.length).rxb.buftot := by
  have hpos := h.pos
  have hoff := h.off
  have hate := h.ate
  have hsize := h.size
  have hlen := window_length h.toBounds
  have hadd : sizeAdd s.rxb.bufate s.window.length = s.rxb.bufoff := by
    rw [sizeAdd_eq (by omega)]
    omega
  simp only [Stream.advance, rxbufferAdvance, hadd]
  split
  · exact ⟨rfl, hpos⟩
  · rename_i hne
    exact ⟨rfl, Nat.lt_of_le_of_ne hoff hne⟩

/-- One turn of the loop in which the call is followed. -/
theorem wp_sslTurn {kind : CbKind} {Q : Int → SslServed → Prop} (h : s.InCall)
    (hready : ∀ t : SslServed, t.Ready → Q 0 t)
    (hover : ∀ v (t : SslServed), v ≠ 0 → t.Over → Q v t) :
    wp sslEchoContract (perform (.client kind)) (fun a t => wp sslEchoContract
      (match a with
        | .advance k => do
          perform (.rxbufferAdvance c k)
          pure (.inl ())
        | .sslTx len => do
          let _ ← sslTx n fd c len
          pure (.inl ())
        | .close => do
          close fd
          pure (.inl ())
        | .ret v => pure (.inr v) : Prog (Unit ⊕ Int))
      (fun x u => x.elim (fun _ : Unit => u.InCall) (Q · u)) t) s := by
  have hcalm := h.calm
  have hlen : (rxbufferValid s.rxb s.mem).1 = s.window.length := by
    rw [rxbufferValid, used_eq hcalm.toBounds, window_length hcalm.toBounds]
  have hphase := h.phase
  cases hh : s.handler with
  | begin =>
    rw [hh] at hphase
    cases hphase with
    | begin hsent =>
      by_cases hempty : s.window.length = 0
      · have hhandle : s.handle = (.ret (-1), s) := by
          simp [SslServed.handle, hh, hlen, hempty]
        refine wp_sslClient h hhandle fun t ht => ?_
        cases ht
        have hall : s.sent = s.input := by
          rw [hsent, ← hcalm.streamed, List.length_eq_zero_iff.mp hempty, List.append_nil]
        exact hover (-1) _ (by decide) ⟨hcalm.settled, hall ▸ List.prefix_refl _, .inl hall⟩
      · have hhandle : s.handle = (.sslTx s.window.length,
            { s with handler := .sending s.window.length, wrote := 0 }) := by
          simp [SslServed.handle, hh, hlen, hempty, intOf_eq h.few]
        refine wp_sslClient h hhandle fun t ht => ?_
        cases ht
        dsimp only
        rw [wp_do]
        refine wp_sendBack ⟨⟨h.slots, h.calm, h.small, h.few⟩, h.busy, .sending ?_ ?_⟩ rfl rfl
          fun _ u hu _ _ => hu
        · exact Nat.zero_le _
        · rw [List.take_zero, List.append_nil]
          exact hsent
  | sending len =>
    rw [hh] at hphase
    cases hphase with
    | sending hw hsent =>
      by_cases hless : s.wrote < s.window.length
      · have hhandle : s.handle = (.ret (-1), { s with handler := .begin, short := true }) := by
          simp [SslServed.handle, hh, intOf_eq h.few, hless]
        refine wp_sslClient h hhandle fun t ht => ?_
        cases ht
        exact hover (-1) _ (by decide) ⟨hcalm.settled, h.phase.echoed hcalm.streamed, .inr rfl⟩
      · have hhandle : s.handle = (.advance s.window.length, { s with handler := .advanced }) := by
          simp [SslServed.handle, hh, intOf_eq h.few, hless]
        have hall : s.sent = s.input := by
          rw [hsent, List.take_of_length_le (Nat.le_of_not_lt hless)]
          exact hcalm.streamed
        refine wp_sslClient h hhandle fun t ht => ?_
        rw [Conn.client, if_pos (Nat.le_refl _)] at ht
        cases ht
        dsimp only
        rw [wp_do]
        refine wp_library (sslEchoOk_of_aloof rfl (Stream.Calm.ok hcalm rfl)
          (hall ▸ List.prefix_refl _)) rfl fun _ u _ hu => ?_
        obtain ⟨-, hu⟩ := Option.ite_none_left_eq_some.mp hu
        cases hu
        obtain ⟨-, hwindow, htot⟩ := advance_bounds hcalm.toBounds (Nat.le_refl _)
        obtain ⟨hdone, hroom⟩ := advance_all hcalm
        refine ⟨⟨h.slots, advance_calm hcalm (Nat.le_refl _), ?_, ?_⟩, h.busy,
          .advanced hall hdone hroom⟩
        · show (s.advance s.window.length).rxb.buftot < 2 ^ 32
          rw [htot]
          exact h.small
        · show (s.advance s.window.length).window.length < 2 ^ 31
          rw [hwindow, List.drop_length]
          decide
  | advanced =>
    rw [hh] at hphase
    cases hphase with
    | advanced hsent hempty hroom =>
      have hhandle : s.handle = (.ret 0, { s with handler := .begin }) := by
        simp [SslServed.handle, hh]
      refine wp_sslClient h hhandle fun t ht => ?_
      cases ht
      exact hready _ {
        idle := rfl, handler := rfl, same := hsent
        slots := h.slots, calm := hcalm, small := h.small, empty := hempty, room := hroom }

/-- Called with all that came before sent back, it sends back what has come now. -/
theorem wp_handlerCall {kind : CbKind} {f : Option Nat} {Q : Int → SslServed → Prop}
    (hkind : kind ≠ .rx) (h : s.Filled) (hh : s.handler = .begin)
    (hsent : s.sent = s.released) (hready : ∀ t : SslServed, t.Ready → Q 0 t)
    (hover : ∀ v (t : SslServed), v ≠ 0 → t.Over → Q v t) :
    wp sslEchoContract (callSsl n kind f fd c) Q s := by
  have hstream : s.StreamOk (some (.callback kind f fd)) :=
    Stream.Calm.ok h.calm (by cases kind <;> first | rfl | exact absurd rfl hkind)
  have hechoed : s.sent <+: s.input := by
    rw [hsent, ← h.calm.streamed]
    exact List.prefix_append _ _
  unfold callSsl
  rw [wp_do]
  refine wp_library (sslEchoOk_of_aloof rfl hstream hechoed) rfl fun _ t _ ht => ?_
  obtain ⟨-, rfl⟩ := callback_cases ht
  refine wp_loop (fun _ t => t.InCall) (fun _ _ hc => hc.ok rfl) ?_ n
    ⟨⟨h.slots, h.calm, h.small, h.few⟩, Option.some_ne_none kind, ?_⟩
  · intro _ u hu
    rw [wp_do]
    exact wp_sslTurn hu hready hover
  · show HandlerPhase s.toStream s.sent s.wrote s.handler
    rw [hh]
    exact .begin hsent

end Call

end Libtorque
