import Libtorque.Testing.SslConnHandler

/-! # torquessl

A connection that `torque_addssl` has accepted, with `ssl_conn_handler` for its
callback: the handlers, the handshake, and all of it. The handlers run one after
another, though `ssl_tx` arms the descriptor while the callback has it. -/
namespace Libtorque
open Lib

/-! ## The handlers -/

section Handlers
variable {s : SslServed} {n fd c : Nat}

theorem SslServed.Ready.window (h : s.Ready) : s.window = [] := by
  have hempty := h.empty
  rw [← List.length_eq_zero_iff, window_length h.calm.toBounds]
  omega

theorem SslServed.Ready.released (h : s.Ready) : s.sent = s.released := by
  rw [h.same, ← h.calm.streamed, h.window, List.append_nil]

theorem SslServed.Ready.filled (h : s.Ready) : s.Filled :=
  ⟨h.slots, h.calm, h.small, by rw [h.window]; decide⟩

/-- What `SSL_read` finds comes in behind an empty window. -/
theorem wp_sslFill {ssl : Option Nat} {Q : Int → SslServed → Prop} (h : s.Ready)
    (hdata : ∀ r (t : SslServed), 0 < r → t.Filled → t.handler = .begin → t.sent = t.released →
      Q r t)
    (hnone : ∀ r (t : SslServed), r ≤ 0 → t.Ready → Q r t) :
    wp sslEchoContract (rxbufferSsl c ssl) Q s := by
  have hcalm := h.calm
  have hsize := hcalm.size
  have hroom := h.room
  have hsmall := h.small
  unfold rxbufferSsl
  rw [wp_do]
  refine wp_library (h.ok rfl) rfl fun _ t _ ht => ?_
  obtain ⟨-, rfl, rfl⟩ := rxbuf_cases ht
  rw [wp_do, room_eq hcalm.toBounds]
  have hasks : intOf (s.rxb.buftot - s.rxb.bufoff) ≠ 0 := intOf_ne_zero (by omega)
  refine wp_library (h.toIdle.ok ⟨hcalm.toOrdered, fun _ => hcalm.streamed, ?_, ?_⟩) rfl
    fun res t _ ht => ?_
  · exact fun hz => hasks (Option.some.inj hz)
  · exact fun hcalls => by cases hcalls
  have hreleased : s.sent = s.released := h.released
  rcases sslRead_cases ht with ⟨bs, hbs⟩ | ⟨r, hr⟩
  · obtain rfl := hbs.1
    obtain rfl := hbs.2.2.2
    have hpos := hbs.2.1
    have hle := le_of_le_intOf hbs.2.2.1
    have hr : (IoRes.bytes bs).value = (bs.length : Int) := intOf_eq hle.2
    have hadd : sizeAdd s.rxb.bufoff bs.length = s.rxb.bufoff + bs.length :=
      sizeAdd_eq (by omega)
    rw [hr, if_pos (by omega), wp_do, Int.toNat_natCast, hadd]
    refine wp_library (sslEchoOk_of_aloof rfl
      (Stream.Ordered.ok_counts ⟨hcalm.ate, hcalm.off⟩) ?_) rfl fun _ u _ hu => ?_
    · exact h.same ▸ List.prefix_append _ _
    obtain ⟨-, rfl⟩ := setRxbuf_cases hu
    have hfilled : Stream.Calm { s.toStream with
        mem := overwrite s.mem s.rxb.bufate bs
        input := s.input ++ bs
        rxb := { s.rxb with bufoff := s.rxb.bufoff + bs.length } } :=
      read_calm hcalm (by omega) (by rw [← h.empty]) rfl rfl rfl
    refine hdata _ _ (by omega) ⟨h.slots, hfilled, hsmall, ?_⟩ h.handler hreleased
    show List.length (Stream.window _) < 2 ^ 31
    rw [window_length hfilled.toBounds]
    have hempty := h.empty
    show s.rxb.bufoff + bs.length - s.rxb.bufate < 2 ^ 31
    omega
  · obtain rfl := hr.1
    obtain rfl := hr.2.2
    have hle := hr.2.1
    have hv : (IoRes.ret r).value = r := rfl
    rw [hv, if_neg (by omega)]
    exact hnone r _ hle h

theorem wp_sslEchoLoop {more : Int → Bool} {Q : Option Int → SslServed → Prop}
    (hmore : ∀ r, 0 < r → more r) (h : s.Ready) (hclose : ∀ t : SslServed, t.Over → Q none t)
    (hend : ∀ r (t : SslServed), t.Ready → Q (some r) t) :
    wp sslEchoContract (sslReadLoop more n fd c) Q s := by
  refine wp_loop (fun _ t => t.Ready) (fun _ t ht => ht.ok rfl) (fun _ t ht => ?_) n h
  have hcall (f : Option Nat) (u : SslServed) (hu : u.Filled) (hh : u.handler = .begin)
      (hsent : u.sent = u.released) :
      wp sslEchoContract (do
        let cb ← callSsl n .sslRx f fd c
        if cb ≠ 0 then pure (.inr none) else pure (.inl ()) : Prog (Unit ⊕ Option Int))
        (fun x v => x.elim (fun _ => v.Ready) (Q · v)) u := by
    rw [wp_do]
    refine wp_handlerCall (by decide) hu hh hsent (fun v hv => ?_) fun r v hr hv => ?_
    · rw [if_neg (by decide)]
      exact hv
    · rw [if_pos hr]
      exact hclose v hv
  rw [wp_do]
  refine wp_ready ht rfl rfl rfl fun sc u hu => ?_
  rw [wp_do]
  refine wp_sslFill hu (fun r v hr hv hh hsent => ?_) fun r v hr hv => ?_
  · rw [if_pos (hmore r hr), wp_do]
    refine wp_library (sslEchoOk_of_aloof rfl (Stream.Calm.ok hv.calm rfl) ?_) rfl
      fun sc w _ hw => ?_
    · rw [hsent, ← hv.calm.streamed]
      exact List.prefix_append _ _
    obtain ⟨-, -, rfl⟩ := fields_cases hw
    exact hcall _ v hv hh hsent
  · split
    · rw [wp_do]
      refine wp_ready hv rfl rfl rfl fun sc w hw => ?_
      exact hcall _ w hw.filled hw.handler hw.released
    · exact hend r v hv

theorem wp_sslEchoTxrxfxn {Q : Unit → SslServed → Prop} (h : s.Ready)
    (hQ : ∀ t : SslServed, t.Rest → Q () t) :
    wp sslEchoContract (sslTxrxfxn n fd c) Q s := by
  unfold sslTxrxfxn
  rw [wp_do]
  refine wp_sslEchoLoop (by simp) h (fun _ ht => wp_overFree ht hQ) fun r t ht => ?_
  dsimp only
  rw [wp_do]
  refine wp_ready ht rfl rfl rfl fun sc u hu => ?_
  rw [wp_do]
  refine wp_ready hu rfl rfl rfl fun err v hv => ?_
  cases err with
  | wantRead =>
    dsimp only
    rw [wp_do]
    refine wp_readyRx hv (.inr rfl) fun w hw => ?_
    rw [wp_do]
    exact wp_readyTx hw (.inl rfl) fun x hx => wp_sslEchoArm hx hQ
  | wantWrite => exact wp_sslEchoArm hv hQ
  | other _ => exact wp_overFree hv.toOver hQ

theorem wp_sslEchoRxfxn {Q : Unit → SslServed → Prop} (h : s.Ready)
    (hQ : ∀ t : SslServed, t.Rest → Q () t) :
    wp sslEchoContract (sslRxfxn n fd c) Q s := by
  unfold sslRxfxn
  rw [wp_do]
  refine wp_sslEchoLoop (fun r hr => by simp; omega) h (fun _ ht => wp_overFree ht hQ)
    fun r t ht => ?_
  dsimp only
  rw [wp_do]
  refine wp_ready ht rfl rfl rfl fun sc u hu => ?_
  rw [wp_do]
  refine wp_ready hu rfl rfl rfl fun err v hv => ?_
  cases err with
  | wantWrite =>
    dsimp only
    rw [wp_do]
    refine wp_readyRx hv (.inl rfl) fun w hw => ?_
    rw [wp_do]
    exact wp_readyTx hw (.inr (.inl rfl)) fun x hx => wp_sslEchoArm hx hQ
  | wantRead => exact wp_sslEchoArm hv hQ
  | other _ => exact wp_overFree hv.toOver hQ

theorem wp_sslEchoTxfxn {Q : Unit → SslServed → Prop} (h : s.Ready)
    (hQ : ∀ t : SslServed, t.Rest → Q () t) :
    wp sslEchoContract (sslTxfxn n fd c) Q s := by
  unfold sslTxfxn
  rw [wp_do]
  refine wp_ready h rfl rfl rfl fun sc t ht => ?_
  split
  · exact wp_overFree ht.toOver hQ
  · rw [wp_do]
    refine wp_handlerCall (by decide) ht.filled ht.handler ht.released (fun u hu => ?_)
      fun r u hr hu => ?_
    · rw [if_neg (by decide)]
      exact hQ u (.ready hu)
    · rw [if_pos hr]
      exact wp_overFree hu hQ

end Handlers

/-! ## The handshake -/

/-- Operations of the handshake. -/
def Op.Hands : Op → Prop
  | .modPages .. => False
  | o => o.dry

theorem dry_of_hands {o : Op} (h : o.Hands) : o.dry := by
  cases o <;> first | rfl | exact h

section Handshake
variable {s : SslServed} {n fd sd c : Nat} {ssl : Option Nat} {sc : CbFields}

/-- A buffer is one of the pages that were found. -/
theorem hands_small {t : Conn} {o : Op} {r : o.Rep} (ho : o.Hands) (hr : SmallPages s o r)
    (h : s.toConn.next o r = some t) (hs : s.mem.length < 2 ^ 32) : t.mem.length < 2 ^ 32 := by
  by_cases hq : o.quiet
  · rw [(next_quiet hq h).1]
    exact hs
  cases o <;> first | exact absurd rfl hq | (cases ho; done) | skip
  case getBigPage =>
    obtain ⟨size, page⟩ := r
    simp only [Conn.next, Conn.getBigPage] at h
    cases page with
    | none =>
      cases h
      exact hs
    | some page =>
      dsimp only at h
      split at h
      · rename_i hp
        cases h
        show page.bytes.length < 2 ^ 32
        rw [hp.2.2]
        exact of_decide_eq_true hr
      · cases h
  case setRxbuf =>
    obtain ⟨-, rfl⟩ := setRxbuf_cases h
    exact hs
  all_goals
    cases h
    exact hs

theorem SslServed.Fresh.of_stream {t : Conn} (h : s.Fresh) (hstream : t.toStream = s.toStream)
    (hcalling : t.calling = s.calling) : SslServed.Fresh { s with toConn := t } where
  idle := hcalling.trans h.idle
  handler := h.handler
  same := by rw [hstream]; exact h.same
  input := by rw [hstream]; exact h.input
  released := by rw [hstream]; exact h.released
  small := by rw [hstream]; exact h.small

theorem SslServed.Fresh.next {t : Conn} {o : Op} {r : o.Rep} (h : s.Fresh) (ho : o.Hands)
    (hr : SmallPages s o r) (ht : s.toConn.next o r = some t) :
    SslServed.Fresh { s with toConn := t } := by
  obtain ⟨hinput, hreleased, -, hcalling⟩ := next_dry (dry_of_hands ho) ht
  exact {
    idle := hcalling.trans h.idle
    handler := h.handler
    same := h.same.trans hinput.symm
    input := hinput.trans h.input
    released := hreleased.trans h.released
    small := hands_small ho hr ht h.small }

theorem consumes_of_hands {t : Conn} {o : Op} {r : o.Rep} (ho : o.Hands) (hr : SmallPages s o r)
    (h : s.toConn.next o r = some t) : Consumes s.toConn o r := by
  cases o <;> first | rfl | (cases ho; done) | skip
  obtain ⟨size, page⟩ := r
  cases page with
  | none => rfl
  | some page =>
    simp only [Conn.next, Conn.getBigPage] at h
    obtain ⟨hp, -⟩ := Option.ite_none_right_eq_some.mp h
    have hsize : size < 2 ^ 32 := of_decide_eq_true hr
    refine decide_eq_true ?_
    rw [Nat.mod_eq_of_lt hsize]
    exact Nat.pos_iff_ne_zero.mp hp.1

/-- Programs of the handshake are followed as those of any connection are. -/
theorem wp_hands {α : Type} {p : Prog α} {Q : α → Conn → Prop} {R : α → SslServed → Prop}
    (hp : p.Only Op.Hands) (h : s.Fresh) (hwp : wp (streamContract Consumes) p Q s.toConn)
    (hR : ∀ a (t : SslServed), t.Fresh → Q a t.toConn → R a t) : wp sslEchoContract p R s := by
  refine wp_mono ?_ (wp_simulate (I := fun u (t : SslServed) => t.toConn = u ∧ t.Fresh) hp ?_ ?_ ?_
    ⟨rfl, h⟩ hwp)
  · rintro a t ⟨u, ⟨rfl, ht⟩, hq⟩
    exact hR a t ht hq
  · rintro _ t ⟨rfl, ht⟩ hok
    exact ht.toIdle.ok hok
  · rintro _ t o _ ⟨rfl, ht⟩ hok
    exact ht.toIdle.ok hok
  · rintro _ t o r v ho ⟨rfl, ht⟩ hstep
    obtain ⟨u, hu, hut⟩ := Option.bind_eq_some_iff.mp hstep.2
    have hv : v = { t with toConn := u } := by
      cases o <;> first | exact (Option.some.inj hut).symm | cases ho
    exact ⟨u, ⟨consumes_of_hands ho hstep.1 hu, hu⟩, by rw [hv], hv ▸ ht.next ho hstep.1 hu⟩

theorem hands_freeSslCbstate : (freeSslCbstate c).Only Op.Hands := by
  refine only_do (only_perform rfl) fun sc => only_do (only_perform rfl) fun _ => ?_
  refine only_do (only_do (only_perform rfl) fun rxb => only_perform rfl) fun _ => ?_
  exact only_perform rfl

theorem hands_freeAndClose : (freeAndClose c fd).Only Op.Hands :=
  only_do hands_freeSslCbstate fun _ => only_perform rfl

theorem hands_initializeRxbuffer : (initializeRxbuffer c).Only Op.Hands := by
  refine only_do (only_perform rfl) fun rxb => only_do (only_perform rfl) fun r => ?_
  obtain ⟨size, _ | page⟩ := r
  · exact only_do (only_perform rfl) fun _ => only_pure
  · exact only_do (only_perform rfl) fun _ => only_pure

theorem hands_arm {e : Events} : Prog.Only Op.Hands (do
    let r ← restorefd fd e
    if r ≠ 0 then freeAndClose c fd else pure ()) := by
  have hend (v : Int) : Prog.Only Op.Hands (if v ≠ 0 then freeAndClose c fd else pure ()) := by
    split
    · exact hands_freeAndClose
    · exact only_pure
  refine only_do (only_do (only_perform rfl) fun ok => ?_) hend
  split <;> exact only_pure

theorem hands_acceptContrxfxn : (acceptContrxfxn fd c).Only Op.Hands := by
  refine only_do (only_perform rfl) fun sc => only_do (only_perform rfl) fun ret => ?_
  split
  · refine only_do hands_initializeRxbuffer fun r => ?_
    split
    · exact hands_freeAndClose
    · exact only_do (only_perform rfl) fun _ => only_do (only_perform rfl) fun _ => hands_arm
  · refine only_do (only_perform rfl) fun err => ?_
    cases err with
    | wantWrite =>
      exact only_do (only_perform rfl) fun _ => only_do (only_perform rfl) fun _ => hands_arm
    | wantRead => exact hands_arm
    | other _ => exact hands_freeAndClose

theorem hands_acceptConttxfxn : (acceptConttxfxn fd c).Only Op.Hands := by
  refine only_do (only_perform rfl) fun sc => only_do (only_perform rfl) fun ret => ?_
  split
  · refine only_do hands_initializeRxbuffer fun r => ?_
    split
    · exact hands_freeAndClose
    · exact only_do (only_perform rfl) fun _ => only_perform rfl
  · refine only_do (only_perform rfl) fun err => ?_
    cases err with
    | wantRead => exact only_do (only_perform rfl) fun _ => only_perform rfl
    | wantWrite => exact only_pure
    | other _ => exact hands_freeAndClose

theorem hands_sslRegister {rx tx : Option Fn} : (sslRegister sd c rx tx).Only Op.Hands := by
  refine only_do ?_ fun r => ?_
  · unfold torqueAddfdUnbuffered addFdToEvhandler
    rw [if_neg (by omega)]
    refine only_do (only_perform rfl) fun size => ?_
    split
    · exact only_pure
    · refine only_do ?_ fun _ => only_do ?_ fun r => ?_
      · exact only_do (only_perform rfl) fun _ => only_do (only_perform rfl) fun _ =>
          only_perform rfl
      · unfold addFdEvent
        rw [if_neg (by decide)]
        refine only_do (only_perform rfl) fun ok => ?_
        split <;> exact only_pure
      · split <;> exact only_pure
  · split
    · exact only_do hands_freeSslCbstate fun _ => only_pure
    · exact only_pure

theorem hands_sslHandshake : (sslHandshake sd c ssl sc).Only Op.Hands := by
  have hfree : Prog.Only Op.Hands (do freeSslCbstate c; pure (-1) : Prog Int) :=
    only_do hands_freeSslCbstate fun _ => only_pure
  refine only_do (only_perform rfl) fun ret => ?_
  split
  · refine only_do hands_initializeRxbuffer fun r => ?_
    split
    · exact hfree
    · exact hands_sslRegister
  · refine only_do (only_perform rfl) fun err => ?_
    cases err with
    | wantWrite => exact hands_sslRegister
    | wantRead => exact hands_sslRegister
    | other _ => exact hfree

theorem hands_sslAcceptInternal : (sslAcceptInternal sd sc).Only Op.Hands := by
  have hfree (c : Nat) : Prog.Only Op.Hands (do freeSslCbstate c; pure (-1) : Prog Int) :=
    only_do hands_freeSslCbstate fun _ => only_pure
  refine only_do ?_ fun r => ?_
  · refine only_do (only_perform rfl) fun r => ?_
    cases r with
    | none => exact only_pure
    | some c =>
      refine only_do hands_initializeRxbuffer fun r => ?_
      split
      · exact only_do (only_perform rfl) fun _ => only_pure
      · exact only_do (only_perform rfl) fun _ => only_pure
  · cases r with
    | none => exact only_pure
    | some c =>
      refine only_do (only_perform rfl) fun ssl => ?_
      cases ssl with
      | none => exact hfree c
      | some ssl =>
        refine only_do (only_perform rfl) fun f => only_do (only_perform rfl) fun _ => ?_
        refine only_do (only_perform rfl) fun r => ?_
        split
        · exact hfree c
        · exact hands_sslHandshake

/-- Past the handshake, nothing has been read yet. -/
theorem SslServed.Fresh.rest (h : s.Fresh) (hb : Between s.toConn) : s.Rest := by
  cases hb with
  | hand hu hs => exact .hand h hu hs
  | data hd =>
    have hcalm := hd.stream.toCalm
    have hroom := hd.stream.room
    have hsize := hcalm.size
    have htot := hcalm.tot
    have hsmall := h.small
    have hstreamed := hcalm.streamed
    rw [Stream.Streamed, h.input, List.append_eq_nil_iff] at hstreamed
    have hwindow := window_length hcalm.toBounds
    rw [hstreamed.2, List.length_nil] at hwindow
    have hate := hcalm.ate
    have hoff := hcalm.off
    have hempty : s.rxb.bufate = s.rxb.bufoff := by omega
    refine .ready { h.toIdle with
      slots := hd.toDataSlots, calm := hcalm, small := by omega, empty := hempty
      room := Nat.lt_of_le_of_ne hoff fun hfull => hroom ?_ }
    rw [room_eq hcalm.toBounds, hfull, Nat.sub_self]
    exact Nat.zero_mod _
  | dead hd => exact .gone ⟨hd.settled, h.same ▸ List.prefix_refl _, .inl h.same⟩ hd.freed

end Handshake

/-! ## The whole of it -/

section Session
variable {s : SslServed} {n sd fd : Nat} {sc : CbFields}

theorem SslServed.Rest.ok {o : Option Op} (h : s.Rest) (ho : o.all Op.ends) : s.EchoOk o := by
  have hplain : o.all Op.plain := by
    cases o with
    | none => rfl
    | some o => exact plain_of_ends ho
  cases h with
  | hand hf hu _ => exact hf.toIdle.ok (hu.ok hplain)
  | ready hr => exact hr.ok hplain
  | gone h _ => exact h.ok ho

/-- Which handler runs, and what the descriptor is armed for, does not matter. -/
theorem SslServed.Rest.link {t : Conn} (h : s.Rest) (hstream : t.toStream = s.toStream)
    (hslots : t.slots = s.slots) (hcalling : t.calling = s.calling) (hfreed : t.freed = s.freed) :
    SslServed.Rest { s with toConn := t } := by
  cases h with
  | hand hf hu hs =>
    exact .hand (hf.of_stream hstream hcalling) (hu.of_stream hstream) (hslots ▸ hs)
  | ready hr => exact .ready (hr.of_stream hstream (hslots ▸ hr.slots) hcalling)
  | gone ho hf => exact .gone (ho.of_stream hstream) (hfreed.trans hf)

/-- A handler found in a slot leaves the connection between handlers. -/
theorem wp_sslEchoSlot {slot : Option Fn} {Q : Unit → SslServed → Prop} (h : s.Rest)
    (hslot : slot = s.slots.rxfxn ∨ slot = s.slots.txfxn) (hQ : ∀ t : SslServed, t.Rest → Q () t) :
    wp sslEchoContract (handleSlot n fd slot s.slots.cbstate) Q s := by
  have hleave (t : SslServed) (ht : t.Rest) : wp sslEchoContract (perform .leave) Q t := by
    refine wp_library (ht.ok rfl) rfl fun _ u _ hu => ?_
    cases hu
    exact hQ _ (ht.link rfl rfl rfl rfl)
  refine wp_slot (fun _ => hQ s h) fun f hsome => ?_
  subst hsome
  refine wp_library (h.ok rfl) rfl fun _ t _ ht => ?_
  obtain ⟨hfreed, rfl⟩ := enter_cases ht
  cases h with
  | gone _ hdead => exact absurd hdead (Bool.eq_false_iff.mp hfreed)
  | hand hf hu hs =>
    obtain ⟨c, hc⟩ := hs.state
    rw [hc]
    have hfresh : SslServed.Fresh { s with toConn := { s.toConn with running := some f } } :=
      hf.of_stream rfl rfl
    have hunread : Unread { s.toConn with running := some f } := hu.of_stream rfl
    have hrun {p : Prog Unit} (hp : p.Only Op.Hands)
        (hwp : wp (streamContract Consumes) p (fun _ u => Between u)
          { s.toConn with running := some f }) :
        wp sslEchoContract p (fun _ => wp sslEchoContract (perform .leave) Q)
          { s with toConn := { s.toConn with running := some f } } :=
      wp_hands hp hfresh hwp fun _ u hu hb => hleave u (hu.rest hb)
    rcases hslot with hf | hf
    · rcases hs.rx with hrx | hrx <;> rw [hrx] at hf <;> cases hf
      exact hrun hands_acceptContrxfxn (wp_acceptContrxfxn hunread hs fun _ hb => hb)
    · rcases hs.tx with htx | htx <;> rw [htx] at hf <;> cases hf
      exact hrun hands_acceptConttxfxn (wp_acceptConttxfxn hunread hs fun _ hb => hb)
  | ready hr =>
    obtain ⟨c, hc⟩ := hr.slots.state
    rw [hc]
    have hready : SslServed.Ready { s with toConn := { s.toConn with running := some f } } :=
      hr.of_stream rfl hr.slots rfl
    rcases hslot with hf | hf
    · rcases hr.slots.rx with hrx | hrx <;> rw [hrx] at hf <;> cases hf
      exact wp_sslEchoRxfxn hready hleave
    · rcases hr.slots.tx with htx | htx | htx <;> rw [htx] at hf <;> cases hf
      · exact wp_sslEchoTxrxfxn hready hleave
      · exact wp_sslEchoTxfxn hready hleave

theorem wp_sslEchoEvents {Q : Unit → SslServed → Prop} (h : s.Rest) :
    wp sslEchoContract (handleEvents n fd) Q s := by
  have hload (t : SslServed) (ht : t.Rest) {Q : EvSource → SslServed → Prop} (hQ : Q t.slots t) :
      wp sslEchoContract (evsource fd) Q t := by
    refine wp_library (ht.ok rfl) rfl fun _ u _ hu => ?_
    obtain ⟨rfl, rfl⟩ := evsource_cases hu
    exact hQ
  refine wp_eventLoop (I := SslServed.Rest) (fun _ ht => ht.ok rfl) (fun t ht => ?_)
    (fun t ht => ?_) (fun t ht => ?_) h
  · refine wp_library (ht.ok rfl) rfl fun _ u _ hu => ?_
    obtain ⟨-, -, rfl⟩ := event_cases hu
    exact ht.link rfl rfl rfl rfl
  · exact hload t ht (wp_sslEchoSlot ht (.inl rfl) fun _ hu => hu)
  · exact hload t ht (wp_sslEchoSlot ht (.inr rfl) fun _ hu => hu)

theorem wp_sslEchoSession :
    wp sslEchoContract (sslSession n sd sc) (fun _ t => t.EchoOk none) {} := by
  have hfresh : SslServed.Fresh {} := ⟨⟨rfl, rfl, rfl⟩, rfl, rfl, by decide⟩
  unfold sslSession
  rw [wp_do]
  refine wp_hands (Q := fun r u => if r = 0 then Between u else u.Settled)
    hands_sslAcceptInternal hfresh ?_ fun r t ht hb => ?_
  · exact wp_sslAcceptInternal ⟨rfl, rfl, rfl, rfl⟩ (fun _ hb => by rwa [if_pos rfl])
      fun _ hs => by rwa [if_neg (by decide)]
  · split
    · rename_i hr
      rw [if_neg hr] at hb
      refine wp_library (ht.toIdle.ok (Stream.Settled.ok hb rfl)) rfl fun _ u _ hu => ?_
      cases hu
      exact SslServed.Idle.ok ⟨ht.idle, ht.handler, ht.same⟩ (Stream.Settled.ok hb rfl)
    · rename_i hr
      rw [if_pos (not_not.mp hr)] at hb
      exact wp_sslEchoEvents (ht.rest hb)

/-- **What is decrypted is sent back.** In every run of a connection of torquessl
whose pages are of less than 4 GiB, with its handlers one at a time as far as they
find their state, whatever its SSL calls come to, in the handshake, reading and
sending: it is never asked for nothing nor reads over what is unsent; what has been
sent is how the input begins, and all of it when more is read or the descriptor is
armed outside of the callback; and it is closed with less sent only where `ssl_tx`
has sent too little. -/
theorem ssl_echo_session (n sd : Nat) (sc : CbFields) (replies : List ((o : Op) → o.Rep))
    (hsmall : Meets (Prog.step SslServed.next) (Prog.Assume SmallPages)
      ({}, sslSession n sd sc) replies) :
    Always (Prog.step SslServed.next) (fun x => x.1.EchoOk x.2.op)
      ({}, sslSession n sd sc) replies := by
  refine (always_of_wp (K := sslEchoContract) (fun _ _ _ _ ha ht => ⟨ha, ht⟩) wp_sslEchoSession
    hsmall).mono ?_
  rintro ⟨s, _ | _ | _⟩ h <;> exact h

/-- Two bytes come, and are sent back. -/
theorem ssl_echo_session_two :
    Always (Prog.step SslServed.next) (fun x => x.1.EchoOk x.2.op)
      ({}, sslSession 9 5 { rxfxn := some 1 })
      (script SslServed.next (fun s => s.loads) 48 ({}, sslSession 9 5 { rxfxn := some 1 })
        (connected [.io (.bytes [1, 2]), .act (.sslTx 2), .int 2, .act (.advance 2), .act (.ret 0),
          .io (.ret (-1)), .err .wantRead, .flag true])) :=
  ssl_echo_session 9 5 _ _ (by decide)

end Session

end Libtorque
