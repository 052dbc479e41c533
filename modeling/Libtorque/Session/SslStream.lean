import Libtorque.Session.Stream

/-! # The stream of an SSL connection

`rxbuffer_ssl` has `SSL_read` store at the beginning of the window, and asks
for as many bytes as there are behind it. The stream is kept in the runs in
which the window is empty whenever data comes in, and the buffer never stays
full. -/
namespace Libtorque
open Lib

/-- The `int` length given to `SSL_read` is not 0. -/
def RxBuf.Room (rxb : RxBuf) : Prop := sizeSub rxb.buftot rxb.bufoff % 2 ^ 32 ≠ 0

instance (rxb : RxBuf) : Decidable rxb.Room :=
  inferInstanceAs (Decidable (sizeSub rxb.buftot rxb.bufoff % 2 ^ 32 ≠ 0))

/-- The client has released everything when more data comes in, no receive
callback leaves the buffer full, and the page size is not a multiple of 4 GiB. -/
def Consumes (s : Conn) : (o : Op) → o.Rep → Bool
  | .sslRead .., .bytes _ => s.rxb.bufate = s.rxb.bufoff
  | .client .sslRx, .ret v => v = 0 → s.rxb.Room
  | .getBigPage, (size, some _) => size % 2 ^ 32 ≠ 0
  | _, _ => true

theorem intOf_ne_zero {n : Nat} (h : n % 2 ^ 32 ≠ 0) : intOf n ≠ 0 := by
  unfold intOf
  rw [Int.bmod_def]
  omega

/-- What an `int` length allows is no more than the `size_t` it came from. -/
theorem le_of_le_intOf {k n : Nat} (h : (k : Int) ≤ intOf n) : k ≤ n ∧ k < 2 ^ 31 := by
  unfold intOf at h
  rw [Int.bmod_def] at h
  omega

/-! ## The buffer of a connection -/

/-- In order, with pages of a size that an `int` length sees. -/
structure Stream.Paged (s : Stream) : Prop extends s.Calm where
  page : s.rxb.buftot % 2 ^ 32 ≠ 0

/-- Ready for `SSL_read`. -/
structure Stream.Roomy (s : Stream) : Prop extends s.Paged where
  room : s.rxb.Room

section Buffer
variable {s : Stream}

theorem advance_paged {n : Nat} (h : s.Paged) (hn : n ≤ s.window.length) :
    (s.advance n).Paged := by
  obtain ⟨-, -, ht⟩ := advance_bounds h.toBounds hn
  exact { toCalm := advance_calm h.toCalm hn, page := ht ▸ h.page }

theorem advance_roomy {n : Nat} (h : s.Roomy) (hn : n ≤ s.window.length) :
    (s.advance n).Roomy := by
  refine { toPaged := advance_paged h.toPaged hn, room := ?_ }
  have hsize := h.size
  have hpage := h.page
  have hroom := h.room
  unfold RxBuf.Room at hroom ⊢
  simp only [Stream.advance, rxbufferAdvance]
  split
  · -- reset: all of the pages are free
    show sizeSub s.rxb.buftot 0 % 2 ^ 32 ≠ 0
    rwa [sizeSub_eq (Nat.zero_le _) hsize]
  · split
    · -- compaction only happens when the buffer is full
      rename_i hfull
      exfalso
      apply hroom
      show sizeSub s.rxb.buftot s.rxb.bufoff % 2 ^ 32 = 0
      rw [show s.rxb.bufoff = s.rxb.buftot from hfull, sizeSub_eq (Nat.le_refl _) hsize]
      simp
    · exact hroom

end Buffer

/-! ## The data phase -/

structure DataSlots (e : EvSource) : Prop where
  rx : e.rxfxn = none ∨ e.rxfxn = some .sslRxfxn
  tx : e.txfxn = none ∨ e.txfxn = some .sslTxrxfxn ∨ e.txfxn = some .sslTxfxn
  state : ∃ c, e.cbstate = .object c

/-- A connection past its handshake, with a buffer of which `R` holds. -/
structure Data (R : Stream → Prop) (s : Stream) (e : EvSource) : Prop extends DataSlots e where
  stream : R s

theorem Data.mono {R R' : Stream → Prop} {s : Stream} {e : EvSource} (h : Data R s e)
    (hR : R s → R' s) : Data R' s e :=
  { h with stream := hR h.stream }

section DataPhase
variable {A : Conn → (o : Op) → o.Rep → Bool} {s : Conn} {n fd c : Nat} {R : Stream → Prop}

theorem wp_setDataRx {rx : Option Fn} {Q : Unit → Conn → Prop} (hR : ∀ s, R s → s.Calm)
    (h : Data R s.toStream s.slots) (hrx : rx = none ∨ rx = some .sslRxfxn)
    (hQ : ∀ t, Data R t.toStream t.slots → Q () t) :
    wp (streamContract A) (setEvsourceRx fd rx) Q s := by
  refine wp_op ((hR _ h.stream).ok rfl) ?_
  intro _ t hstep
  obtain ⟨-, ht⟩ := hstep
  cases ht
  exact hQ _ { rx := hrx, tx := h.tx, state := h.state, stream := h.stream }

theorem wp_setDataTx {tx : Option Fn} {Q : Unit → Conn → Prop} (hR : ∀ s, R s → s.Calm)
    (h : Data R s.toStream s.slots)
    (htx : tx = none ∨ tx = some .sslTxrxfxn ∨ tx = some .sslTxfxn)
    (hQ : ∀ t, Data R t.toStream t.slots → Q () t) :
    wp (streamContract A) (setEvsourceTx fd tx) Q s := by
  refine wp_op ((hR _ h.stream).ok rfl) ?_
  intro _ t hstep
  obtain ⟨-, ht⟩ := hstep
  cases ht
  exact hQ _ { rx := h.rx, tx := htx, state := h.state, stream := h.stream }

theorem wp_sslTx {len : Int} {Q : Int → Conn → Prop} (hR : ∀ s, R s → s.Calm)
    (h : Data R s.toStream s.slots) (hQ : ∀ v t, Data R t.toStream t.slots → Q v t) :
    wp (streamContract A) (sslTx n fd c len) Q s := by
  have hcalm (t : Stream) (e : EvSource) (ht : Data R t e) : t.Calm := hR t ht.stream
  have rearmed (ret r : Int) (t : Conn) (ht : Data R t.toStream t.slots) :
      wp (streamContract A) (if r ≠ 0 then pure (-1) else pure ret)
        (fun b u => wp (streamContract A) (pure (.inr b : Int ⊕ Int))
          (fun x v => x.elim (fun _ => Data R v.toStream v.slots) (Q · v)) u) t := by
    split <;> exact hQ _ t ht
  refine wp_loop (fun _ t => Data R t.toStream t.slots)
    (fun _ t ht => (hcalm _ _ ht).ok rfl) ?_ n h
  intro ret t ht
  split
  · rw [wp_do]
    refine wp_quiet (hcalm _ _ ht) ht rfl rfl fun ssl t _ ht => ?_
    rw [wp_do]
    refine wp_quiet (hcalm _ _ ht) ht rfl rfl fun r t _ ht => ?_
    split
    · exact ht
    · rw [wp_do]
      refine wp_quiet (hcalm _ _ ht) ht rfl rfl fun err t _ ht => ?_
      rw [wp_do]
      cases err with
      | wantRead =>
        unfold sslTxError
        rw [wp_do]
        refine wp_setDataRx hR ht (.inr rfl) fun t ht => ?_
        rw [wp_do]
        refine wp_setDataTx hR ht (.inl rfl) fun t ht => ?_
        rw [wp_do]
        exact wp_restorefd hcalm ht (rearmed ret)
      | wantWrite =>
        unfold sslTxError
        rw [wp_do]
        exact wp_restorefd hcalm ht (rearmed ret)
      | other _ => exact hQ _ t ht
  · exact hQ _ t ht

/-- A callback keeps what the client's releases keep. -/
theorem wp_callSsl {kind : CbKind} {f : Option Nat} {Q : Int → Conn → Prop}
    (hkind : kind ≠ .rx) (hR : ∀ s, R s → s.Calm)
    (hadv : ∀ s n, R s → n ≤ s.window.length → R (s.advance n))
    (h : Data R s.toStream s.slots)
    (hQ : ∀ v t u, A t (.client kind) (.ret v) → u.toStream = t.toStream →
      Data R u.toStream u.slots → Q v u) :
    wp (streamContract A) (callSsl n kind f fd c) Q s := by
  have hcalm (t : Stream) (e : EvSource) (ht : Data R t e) : t.Calm := hR t ht.stream
  unfold callSsl
  rw [wp_do]
  refine wp_quiet (hcalm _ _ h) h rfl (by cases kind <;> trivial) fun _ t _ ht => ?_
  refine wp_loop (fun _ t => Data R t.toStream t.slots)
    (fun _ t ht => (hcalm _ _ ht).ok rfl) ?_ n ht
  intro _ t ht
  rw [wp_do]
  refine wp_client (hcalm _ _ ht) fun a u ha hu hus hle => ?_
  have hd : Data R u.toStream u.slots := hu ▸ hus ▸ ht
  cases a with
  | advance k =>
    rw [wp_do]
    refine wp_advance (hcalm _ _ hd) fun v hv hsl => ?_
    show Data R _ _
    rw [hv, hsl]
    exact { hd with stream := hadv _ k hd.stream (hu ▸ hle k rfl) }
  | sslTx len =>
    rw [wp_do]
    exact wp_sslTx hR hd fun _ v hv => hv
  | close =>
    rw [wp_do]
    exact wp_quiet (hcalm _ _ hd) hd rfl rfl fun _ v _ hv => hv
  | ret v => exact hQ v t u ha hu hd

/-- Data comes in where the window begins, which is where it ends. -/
theorem wp_rxbufferSsl {ssl : Option Nat} {Q : Int → Conn → Prop}
    (h : Data Stream.Roomy s.toStream s.slots)
    (hA : ∀ s ssl c off len bs, A s (.sslRead ssl c off len) (.bytes bs) →
      s.rxb.bufate = s.rxb.bufoff)
    (hdata : ∀ r t, 0 < r → Data Stream.Paged t.toStream t.slots → Q r t)
    (hnone : ∀ r t, r ≤ 0 → Data Stream.Roomy t.toStream t.slots → Q r t) :
    wp (streamContract A) (rxbufferSsl c ssl) Q s := by
  have hcalm := h.stream.toCalm
  have hsize := hcalm.size
  unfold rxbufferSsl
  rw [wp_do]
  refine wp_rxbuf hcalm ?_
  rw [wp_do]
  refine wp_op ⟨hcalm.toOrdered, fun _ => hcalm.streamed,
    fun hz => intOf_ne_zero h.stream.room (Option.some.inj hz), nofun⟩ ?_
  intro res t hstep
  obtain ⟨ha, ht⟩ := hstep
  rcases sslRead_cases ht with ⟨bs, hbs⟩ | ⟨r, hr⟩
  · obtain rfl := hbs.1
    obtain rfl := hbs.2.2.2
    have hpos := hbs.2.1
    have hle := le_of_le_intOf hbs.2.2.1
    rw [room_eq hcalm.toBounds] at hle
    have hr : (IoRes.bytes bs).value = (bs.length : Int) := intOf_eq hle.2
    have hate : s.rxb.bufate = s.rxb.bufoff := hA _ _ _ _ _ _ ha
    have hadd : sizeAdd s.rxb.bufoff bs.length = s.rxb.bufoff + bs.length :=
      sizeAdd_eq (by omega)
    rw [hr, if_pos (by omega), wp_do, Int.toNat_natCast, hadd]
    refine wp_op (Stream.Ordered.ok_counts ⟨hcalm.ate, hcalm.off⟩) ?_
    intro _ u hstep
    obtain ⟨-, hu⟩ := hstep
    obtain ⟨-, rfl⟩ := setRxbuf_cases hu
    refine hdata _ _ (by omega) { h with stream := ?_ }
    refine { toCalm := ?_, page := h.stream.page }
    exact read_calm hcalm (by omega) (by rw [← hate]) rfl rfl rfl
  · obtain rfl := hr.1
    obtain rfl := hr.2.2
    have hv : (IoRes.ret r).value = r := rfl
    have hle := hr.2.1
    rw [hv, if_neg (by omega)]
    exact hnone r _ hle h

end DataPhase

/-! ## The handlers -/

/-- The callback state has been freed: no handler gets beyond its first access. -/
structure Dead (s : Conn) : Prop where
  freed : s.freed = true
  settled : s.Settled

/-- The slots during the handshake. -/
structure HandSlots (e : EvSource) : Prop where
  rx : e.rxfxn = none ∨ e.rxfxn = some .acceptContrxfxn
  tx : e.txfxn = none ∨ e.txfxn = some .acceptConttxfxn
  state : ∃ c, e.cbstate = .object c

/-- Between the handlers of a connection. -/
inductive Between (s : Conn) : Prop
  | hand (unread : Unread s) (slots : HandSlots s.slots)
  | data (data : Data Stream.Roomy s.toStream s.slots)
  | dead (dead : Dead s)

theorem Between.settled {s : Conn} (h : Between s) : s.Settled := by
  cases h with
  | hand hu _ => exact hu.settled
  | data hd => exact hd.stream.toCalm.settled
  | dead hd => exact hd.settled

section Handlers
variable {A : Conn → (o : Op) → o.Rep → Bool} {s : Conn} {n fd c : Nat}
  {Q : Unit → Conn → Prop}

theorem wp_fields {Q : CbFields → Conn → Prop} (hs : s.Settled)
    (hQ : s.freed = false → Q s.fields s) : wp (streamContract A) (fields c) Q s := by
  refine wp_op (hs.ok rfl) ?_
  intro r t hstep
  obtain ⟨-, ht⟩ := hstep
  obtain ⟨hfreed, rfl, rfl⟩ := fields_cases ht
  exact hQ hfreed

theorem wp_freeSslCbstate (hs : s.Settled) (hQ : ∀ t, Dead t → Q () t) :
    wp (streamContract A) (freeSslCbstate c) Q s := by
  unfold freeSslCbstate freeRxbuffer
  rw [wp_do]
  refine wp_fields hs fun _ => ?_
  rw [wp_do]
  refine wp_still (hs.ok rfl) rfl fun _ t _ ht _ => ?_
  have hst : t.Settled := ht ▸ hs
  rw [wp_do, wp_do]
  refine wp_load (hst.ok rfl) ?_
  refine wp_still (hst.ok rfl) rfl fun _ u _ hu _ => ?_
  have hsu : u.Settled := hu ▸ hst
  refine wp_op (hsu.ok rfl) ?_
  intro _ v hstep
  obtain ⟨-, hv⟩ := hstep
  cases hv
  exact hQ _ ⟨rfl, hsu⟩

theorem wp_freeAndClose (hs : s.Settled) (hQ : ∀ t, Dead t → Q () t) :
    wp (streamContract A) (freeAndClose c fd) Q s := by
  unfold freeAndClose
  rw [wp_do]
  refine wp_freeSslCbstate hs fun t ht => ?_
  refine wp_op (ht.settled.ok rfl) ?_
  intro _ u hstep
  obtain ⟨-, hu⟩ := hstep
  cases hu
  exact hQ _ ⟨ht.freed, ht.settled⟩

/-- Once the descriptor is armed again, or closed, the handler is done. -/
theorem wp_armOrClose {e : Events} (h : Data Stream.Roomy s.toStream s.slots)
    (hQ : ∀ t, Between t → Q () t) :
    wp (streamContract A) (do
      let r ← restorefd fd e
      if r ≠ 0 then freeAndClose c fd else pure ()) Q s := by
  rw [wp_do]
  refine wp_restorefd (fun _ _ h => h.stream.toCalm) h fun r t ht => ?_
  split
  · exact wp_freeAndClose ht.stream.toCalm.settled fun u hu => hQ u (.dead hu)
  · exact hQ t (.data ht)

theorem wp_sslReadLoop {more : Int → Bool} {Q : Option Int → Conn → Prop}
    (hmore : ∀ r, 0 < r → more r) (h : Data Stream.Roomy s.toStream s.slots)
    (hclose : ∀ t, Data Stream.Paged t.toStream t.slots → Q none t)
    (hend : ∀ r t, Data Stream.Roomy t.toStream t.slots → Q (some r) t) :
    wp (streamContract Consumes) (sslReadLoop more n fd c) Q s := by
  refine wp_loop (fun _ t => Data Stream.Roomy t.toStream t.slots)
    (fun _ t ht => ht.stream.toCalm.ok rfl) ?_ n h
  intro _ t ht
  -- the client's receive callback, which is to leave room if it wants to go on
  have callback (t : Conn) (ht : Data Stream.Paged t.toStream t.slots) (f : Option Nat) :
      wp (streamContract Consumes) (do
        let cb ← callSsl n .sslRx f fd c
        if cb ≠ 0 then pure (.inr none) else pure (.inl ()) : Prog (Unit ⊕ Option Int))
        (fun x v => x.elim (fun _ => Data Stream.Roomy v.toStream v.slots) (Q · v)) t := by
    rw [wp_do]
    refine wp_callSsl (by decide) (fun _ h => h.toCalm) (fun _ _ h hn => advance_paged h hn) ht fun v t u hv hut hu => ?_
    split
    · exact hclose u hu
    · rename_i hz
      exact hu.mono fun hp => { toPaged := hp, room := hut ▸ of_decide_eq_true hv (not_not.mp hz) }
  rw [wp_do]
  refine wp_quiet ht.stream.toCalm ht rfl rfl fun sc t _ ht => ?_
  rw [wp_do]
  refine wp_rxbufferSsl ht (fun _ _ _ _ _ _ h => of_decide_eq_true h) (fun r u hr hu => ?_) fun r u hr hu => ?_
  · rw [if_pos (hmore r hr), wp_do]
    exact wp_quiet hu.stream.toCalm hu rfl rfl fun sc v _ hv => callback v hv _
  · split
    · rw [wp_do]
      exact wp_quiet hu.stream.toCalm hu rfl rfl fun sc v _ hv =>
        callback v (hv.mono Stream.Roomy.toPaged) _
    · exact hend r u hu

theorem wp_sslTxrxfxn (h : Data Stream.Roomy s.toStream s.slots)
    (hQ : ∀ t, Between t → Q () t) :
    wp (streamContract Consumes) (sslTxrxfxn n fd c) Q s := by
  have dead (t : Conn) (ht : t.Settled) :
      wp (streamContract Consumes) (freeAndClose c fd) Q t :=
    wp_freeAndClose ht fun u hu => hQ u (.dead hu)
  unfold sslTxrxfxn
  rw [wp_do]
  refine wp_sslReadLoop (by simp) h (fun t ht => dead t ht.stream.toCalm.settled) fun r t ht => ?_
  dsimp only
  rw [wp_do]
  refine wp_quiet ht.stream.toCalm ht rfl rfl fun sc t _ ht => ?_
  rw [wp_do]
  refine wp_quiet ht.stream.toCalm ht rfl rfl fun err t _ ht => ?_
  cases err with
  | wantRead =>
    dsimp only
    rw [wp_do]
    refine wp_setDataRx (fun _ h => h.toCalm) ht (.inr rfl) fun t ht => ?_
    rw [wp_do]
    exact wp_setDataTx (fun _ h => h.toCalm) ht (.inl rfl) fun t ht => wp_armOrClose ht hQ
  | wantWrite => exact wp_armOrClose ht hQ
  | other _ => exact dead t ht.stream.toCalm.settled

theorem wp_sslRxfxn (h : Data Stream.Roomy s.toStream s.slots)
    (hQ : ∀ t, Between t → Q () t) :
    wp (streamContract Consumes) (sslRxfxn n fd c) Q s := by
  have dead (t : Conn) (ht : t.Settled) :
      wp (streamContract Consumes) (freeAndClose c fd) Q t :=
    wp_freeAndClose ht fun u hu => hQ u (.dead hu)
  unfold sslRxfxn
  rw [wp_do]
  refine wp_sslReadLoop (fun r hr => by simp; omega) h
    (fun t ht => dead t ht.stream.toCalm.settled) fun r t ht => ?_
  dsimp only
  rw [wp_do]
  refine wp_quiet ht.stream.toCalm ht rfl rfl fun sc t _ ht => ?_
  rw [wp_do]
  refine wp_quiet ht.stream.toCalm ht rfl rfl fun err t _ ht => ?_
  cases err with
  | wantWrite =>
    dsimp only
    rw [wp_do]
    refine wp_setDataRx (fun _ h => h.toCalm) ht (.inl rfl) fun t ht => ?_
    rw [wp_do]
    exact wp_setDataTx (fun _ h => h.toCalm) ht (.inr (.inl rfl)) fun t ht => wp_armOrClose ht hQ
  | wantRead => exact wp_armOrClose ht hQ
  | other _ => exact dead t ht.stream.toCalm.settled

theorem wp_sslTxfxn (h : Data Stream.Roomy s.toStream s.slots)
    (hQ : ∀ t, Between t → Q () t) :
    wp (streamContract Consumes) (sslTxfxn n fd c) Q s := by
  have dead (t : Conn) (ht : Data Stream.Roomy t.toStream t.slots) :
      wp (streamContract Consumes) (freeAndClose c fd) Q t :=
    wp_freeAndClose ht.stream.toCalm.settled fun u hu => hQ u (.dead hu)
  unfold sslTxfxn
  rw [wp_do]
  refine wp_quiet h.stream.toCalm h rfl rfl fun sc t _ ht => ?_
  split
  · exact dead t ht
  · rw [wp_do]
    refine wp_callSsl (by decide) (fun _ h => h.toCalm) (fun _ _ h hn => advance_roomy h hn) ht fun v _ u _ _ hu => ?_
    split
    · exact dead u hu
    · exact hQ u (.data hu)

/-! ## The handshake -/

theorem wp_setHandRx {rx : Option Fn} {Q : Unit → Conn → Prop} (h : Unread s)
    (hsl : HandSlots s.slots) (hrx : rx = none ∨ rx = some .acceptContrxfxn)
    (hQ : ∀ t, Unread t → HandSlots t.slots → Q () t) :
    wp (streamContract A) (setEvsourceRx fd rx) Q s := by
  refine wp_op (h.ok rfl) ?_
  intro _ t hstep
  obtain ⟨-, ht⟩ := hstep
  cases ht
  exact hQ _ ⟨h.off, h.ate, h.input, h.released⟩ { hsl with rx := hrx }

theorem wp_setHandTx {tx : Option Fn} {Q : Unit → Conn → Prop} (h : Unread s)
    (hsl : HandSlots s.slots) (htx : tx = none ∨ tx = some .acceptConttxfxn)
    (hQ : ∀ t, Unread t → HandSlots t.slots → Q () t) :
    wp (streamContract A) (setEvsourceTx fd tx) Q s := by
  refine wp_op (h.ok rfl) ?_
  intro _ t hstep
  obtain ⟨-, ht⟩ := hstep
  cases ht
  exact hQ _ ⟨h.off, h.ate, h.input, h.released⟩ { hsl with tx := htx }

theorem wp_armHand {e : Events} (h : Unread s) (hsl : HandSlots s.slots)
    (hQ : ∀ t, Between t → Q () t) :
    wp (streamContract A) (do
      let r ← restorefd fd e
      if r ≠ 0 then freeAndClose c fd else pure ()) Q s := by
  have done (v : Int) (t : Conn) (ht : t.toStream = s.toStream) (hs : t.slots = s.slots) :
      wp (streamContract A) (if v ≠ 0 then freeAndClose c fd else pure ()) Q t := by
    have hu := h.of_stream ht
    split
    · exact wp_freeAndClose hu.settled fun u hu => hQ u (.dead hu)
    · exact hQ t (.hand hu (hs ▸ hsl))
  unfold restorefd
  rw [wp_do, wp_do]
  refine wp_still (h.ok rfl) rfl fun ok t _ ht hs => ?_
  split <;> exact done _ t ht hs

theorem sslSlots_data (f : CbFields) :
    ((sslSlots f).1 = none ∨ (sslSlots f).1 = some .sslRxfxn) ∧
      ((sslSlots f).2 = none ∨ (sslSlots f).2 = some .sslTxrxfxn ∨
        (sslSlots f).2 = some .sslTxfxn) := by
  unfold sslSlots
  cases f.rxfxn <;> cases f.txfxn <;> simp

/-- The handshake is done: a fresh buffer, and the slots of the data phase. -/
theorem wp_established {f : CbFields} {k : Prog Unit} (h : Unread s) (hsl : HandSlots s.slots)
    (hk : ∀ t, Data Stream.Roomy t.toStream t.slots → wp (streamContract Consumes) k Q t)
    (hQ : ∀ t, Between t → Q () t) :
    wp (streamContract Consumes) (do
      let r ← initializeRxbuffer c
      if r ≠ 0 then freeAndClose c fd
      else
        setEvsourceRx fd (sslSlots f).1
        setEvsourceTx fd (sslSlots f).2
        k) Q s := by
  rw [wp_do]
  refine wp_initializeRxbuffer h (fun t hu ht hts ha => ?_) fun t ht _ => ?_
  · obtain ⟨u, page, ha⟩ := ha
    have hpage : t.rxb.buftot % 2 ^ 32 ≠ 0 := of_decide_eq_true ha
    have hroom : Stream.Roomy t.toStream := by
      refine { toCalm := ht, page := hpage, room := ?_ }
      unfold RxBuf.Room
      rw [hu.off, sizeSub_eq (Nat.zero_le _) ht.size]
      exact hpage
    rw [if_neg (by simp), wp_do]
    refine wp_op (ht.ok rfl) ?_
    intro _ v hstep
    obtain ⟨-, hv⟩ := hstep
    cases hv
    rw [wp_do]
    refine wp_op (Stream.Calm.ok ht rfl) ?_
    intro _ v hstep
    obtain ⟨-, hv⟩ := hstep
    cases hv
    obtain ⟨c', hc'⟩ := hsl.state
    refine hk _ { rx := (sslSlots_data f).1, tx := (sslSlots_data f).2, state := ⟨c', ?_⟩,
                  stream := hroom }
    show t.slots.cbstate = _
    rw [hts, hc']
  · rw [if_pos (by decide)]
    exact wp_freeAndClose ht.settled fun u hu => hQ u (.dead hu)

theorem wp_acceptContrxfxn (h : Unread s) (hsl : HandSlots s.slots)
    (hQ : ∀ t, Between t → Q () t) :
    wp (streamContract Consumes) (acceptContrxfxn fd c) Q s := by
  unfold acceptContrxfxn
  rw [wp_do]
  refine wp_still (h.ok rfl) rfl fun sc t _ ht hts => ?_
  have hut := h.of_stream ht
  have hst : HandSlots t.slots := hts ▸ hsl
  rw [wp_do]
  refine wp_still (hut.ok rfl) rfl fun ret u _ hu hus => ?_
  have huu := hut.of_stream hu
  have hsu : HandSlots u.slots := hus ▸ hst
  split
  · exact wp_established huu hsu (fun v hv => wp_armOrClose hv hQ) hQ
  · rw [wp_do]
    refine wp_still (huu.ok rfl) rfl fun err v _ hv hvs => ?_
    have huv := huu.of_stream hv
    have hsv : HandSlots v.slots := hvs ▸ hsu
    cases err with
    | wantWrite =>
      dsimp only
      rw [wp_do]
      refine wp_setHandRx huv hsv (.inl rfl) fun w huw hsw => ?_
      rw [wp_do]
      exact wp_setHandTx huw hsw (.inr rfl) fun x hux hsx => wp_armHand hux hsx hQ
    | wantRead => exact wp_armHand huv hsv hQ
    | other _ => exact wp_freeAndClose huv.settled fun w hw => hQ w (.dead hw)

theorem wp_acceptConttxfxn (h : Unread s) (hsl : HandSlots s.slots)
    (hQ : ∀ t, Between t → Q () t) :
    wp (streamContract Consumes) (acceptConttxfxn fd c) Q s := by
  unfold acceptConttxfxn
  rw [wp_do]
  refine wp_still (h.ok rfl) rfl fun sc t _ ht hts => ?_
  have hut := h.of_stream ht
  have hst : HandSlots t.slots := hts ▸ hsl
  rw [wp_do]
  refine wp_still (hut.ok rfl) rfl fun ret u _ hu hus => ?_
  have huu := hut.of_stream hu
  have hsu : HandSlots u.slots := hus ▸ hst
  split
  · exact wp_established huu hsu (k := pure ()) (fun v hv => hQ v (.data hv)) hQ
  · rw [wp_do]
    refine wp_still (huu.ok rfl) rfl fun err v _ hv hvs => ?_
    have huv := huu.of_stream hv
    have hsv : HandSlots v.slots := hvs ▸ hsu
    cases err with
    | wantRead =>
      dsimp only
      rw [wp_do]
      refine wp_setHandRx huv hsv (.inr rfl) fun w huw hsw => ?_
      exact wp_setHandTx huw hsw (.inl rfl) fun x hux hsx => hQ x (.hand hux hsx)
    | wantWrite => exact hQ v (.hand huv hsv)
    | other _ => exact wp_freeAndClose huv.settled fun w hw => hQ w (.dead hw)

end Handlers

/-! ## From the first handshake on -/

/-- `ssl_accept_internal` for an accepted descriptor, and then its events. -/
def sslSession (n sd : Nat) (sc : CbFields) : Prog Unit := do
  let r ← sslAcceptInternal sd sc
  if r ≠ 0 then close sd else handleEvents n sd

section Session
variable {s : Conn} {n sd fd c : Nat} {sc : CbFields} {Q : Unit → Conn → Prop}

/-- A handler found in a slot leaves the connection between handlers. -/
theorem wp_handleSslSlot {slot : Option Fn} (h : Between s)
    (hslot : slot = s.slots.rxfxn ∨ slot = s.slots.txfxn) (hQ : ∀ t, Between t → Q () t) :
    wp (streamContract Consumes) (handleSlot n fd slot s.slots.cbstate) Q s := by
  have leave (t : Conn) (ht : Between t) : wp (streamContract Consumes) (perform .leave) Q t := by
    refine wp_op (ht.settled.ok rfl) ?_
    intro _ u hstep
    obtain ⟨-, hu⟩ := hstep
    cases hu
    refine hQ _ ?_
    cases ht with
    | hand hu hs => exact .hand ⟨hu.off, hu.ate, hu.input, hu.released⟩ hs
    | data hd => exact .data hd
    | dead hd => exact .dead ⟨hd.freed, hd.settled⟩
  refine wp_slot (fun _ => hQ s h) fun f hsome => ?_
  subst hsome
  refine wp_op (h.settled.ok rfl) ?_
  intro _ t hstep
  obtain ⟨-, ht⟩ := hstep
  obtain ⟨hfreed, rfl⟩ := enter_cases ht
  cases h with
  | dead hd => exact absurd hd.freed (Bool.eq_false_iff.mp hfreed)
  | hand hu hs =>
    obtain ⟨c, hc⟩ := hs.state
    rw [hc]
    have hu' : Unread { s with running := some f } := ⟨hu.off, hu.ate, hu.input, hu.released⟩
    rcases hslot with hf | hf
    · rcases hs.rx with hrx | hrx <;> rw [hrx] at hf <;> cases hf
      exact wp_acceptContrxfxn hu' hs leave
    · rcases hs.tx with htx | htx <;> rw [htx] at hf <;> cases hf
      exact wp_acceptConttxfxn hu' hs leave
  | data hd =>
    obtain ⟨c, hc⟩ := hd.state
    rw [hc]
    have hd' : Data Stream.Roomy { s with running := some f }.toStream
        { s with running := some f }.slots := hd
    rcases hslot with hf | hf
    · rcases hd.rx with hrx | hrx <;> rw [hrx] at hf <;> cases hf
      exact wp_sslRxfxn hd' leave
    · rcases hd.tx with htx | htx | htx <;> rw [htx] at hf <;> cases hf
      · exact wp_sslTxrxfxn hd' leave
      · exact wp_sslTxfxn hd' leave

theorem wp_loadSlots {Q : EvSource → Conn → Prop} (hs : s.Settled) (hQ : Q s.slots s) :
    wp (streamContract Consumes) (evsource fd) Q s := by
  refine wp_op (hs.ok rfl) ?_
  intro r t hstep
  obtain ⟨-, ht⟩ := hstep
  obtain ⟨rfl, rfl⟩ := evsource_cases ht
  exact hQ

theorem wp_handleSslEvents (h : Between s) :
    wp (streamContract Consumes) (handleEvents n fd) Q s := by
  refine wp_eventLoop (I := Between) (fun _ ht => ht.settled.ok rfl) (fun t ht => ?_)
    (fun t ht => ?_) (fun t ht => ?_) h
  · refine wp_op (ht.settled.ok rfl) ?_
    intro e u hstep
    obtain ⟨-, hu⟩ := hstep
    obtain ⟨-, -, rfl⟩ := event_cases hu
    cases ht with
    | hand hu hs => exact .hand ⟨hu.off, hu.ate, hu.input, hu.released⟩ hs
    | data hd => exact .data hd
    | dead hd => exact .dead ⟨hd.freed, hd.settled⟩
  · exact wp_loadSlots ht.settled (wp_handleSslSlot ht (.inl rfl) fun _ hu => hu)
  · exact wp_loadSlots ht.settled (wp_handleSslSlot ht (.inr rfl) fun _ hu => hu)

/-- The connection is registered with the handlers of its phase, or closed. -/
theorem wp_sslRegister {rx tx : Option Fn} {Q : Int → Conn → Prop} (hs : s.Calm)
    (hok : ∀ t : Conn, t.toStream = s.toStream → t.slots = ⟨rx, tx, .object c⟩ → Q 0 t)
    (hfail : ∀ t : Conn, t.Settled → Q (-1) t) :
    wp (streamContract Consumes) (sslRegister sd c rx tx) Q s := by
  unfold sslRegister torqueAddfdUnbuffered
  rw [wp_do, if_neg (by omega)]
  refine wp_addFdToEvhandler hs (fun t ht hsl => ?_) fun t ht => ?_
  · rw [if_neg (by simp)]
    exact hok t ht hsl
  · rw [if_pos (by decide), wp_do]
    refine wp_freeSslCbstate (Stream.Calm.settled (ht ▸ hs)) fun u hu => ?_
    exact hfail u hu.settled

theorem wp_sslHandshake {ssl : Option Nat} {Q : Int → Conn → Prop} (h : Unread s)
    (hs : s.Calm) (hok : ∀ t, Between t → Q 0 t)
    (hfail : ∀ t : Conn, t.Settled → Q (-1) t) :
    wp (streamContract Consumes) (sslHandshake sd c ssl sc) Q s := by
  have free (t : Conn) (ht : t.Settled) :
      wp (streamContract Consumes) (do freeSslCbstate c; pure (-1)) Q t := by
    rw [wp_do]
    exact wp_freeSslCbstate ht fun u hu => hfail u hu.settled
  unfold sslHandshake
  rw [wp_do]
  refine wp_still (hs.ok rfl) rfl fun ret t _ ht _ => ?_
  have hut := h.of_stream ht
  have hct : t.Calm := ht ▸ hs
  split
  · dsimp only
    rw [wp_do]
    refine wp_initializeRxbuffer hut (fun u hu hcu _ ha => ?_) fun u hu _ => ?_
    · obtain ⟨w, page, ha⟩ := ha
      have hpage : u.rxb.buftot % 2 ^ 32 ≠ 0 := of_decide_eq_true ha
      have hroom : Stream.Roomy u.toStream := by
        refine { toCalm := hcu, page := hpage, room := ?_ }
        unfold RxBuf.Room
        rw [hu.off, sizeSub_eq (Nat.zero_le _) hcu.size]
        exact hpage
      rw [if_neg (by simp)]
      refine wp_sslRegister hcu (fun v hv hsl => hok v (.data ?_)) hfail
      exact { rx := hsl ▸ (sslSlots_data sc).1, tx := hsl ▸ (sslSlots_data sc).2,
              state := ⟨c, by rw [hsl]⟩, stream := hv ▸ hroom }
    · rw [if_pos (by decide)]
      exact free u hu.settled
  · rw [wp_do]
    refine wp_still (hct.ok rfl) rfl fun err u _ hu _ => ?_
    have huu := hut.of_stream hu
    have hcu : u.Calm := hu ▸ hct
    cases err with
    | wantWrite =>
      refine wp_sslRegister hcu (fun v hv hsl => hok v (.hand (huu.of_stream hv) ?_)) hfail
      exact { rx := .inl (by rw [hsl]), tx := .inr (by rw [hsl]), state := ⟨c, by rw [hsl]⟩ }
    | wantRead =>
      refine wp_sslRegister hcu (fun v hv hsl => hok v (.hand (huu.of_stream hv) ?_)) hfail
      exact { rx := .inr (by rw [hsl]), tx := .inl (by rw [hsl]), state := ⟨c, by rw [hsl]⟩ }
    | other _ => exact free u hcu.settled

theorem wp_sslAcceptInternal {Q : Int → Conn → Prop} (h : Unread s)
    (hok : ∀ t, Between t → Q 0 t) (hfail : ∀ t : Conn, t.Settled → Q (-1) t) :
    wp (streamContract Consumes) (sslAcceptInternal sd sc) Q s := by
  have free (c : Nat) (t : Conn) (ht : t.Settled) :
      wp (streamContract Consumes) (do freeSslCbstate c; pure (-1)) Q t := by
    rw [wp_do]
    exact wp_freeSslCbstate ht fun u hu => hfail u hu.settled
  unfold sslAcceptInternal createSslCbstate
  rw [wp_do, wp_do]
  refine wp_still (h.ok rfl) rfl fun r t _ ht _ => ?_
  have hut := h.of_stream ht
  cases r with
  | none => exact hfail t hut.settled
  | some c =>
    dsimp only
    rw [wp_do]
    refine wp_initializeRxbuffer hut (fun u hu hcu _ _ => ?_) fun u hu _ => ?_
    · rw [if_pos rfl, wp_do]
      refine wp_still (hcu.ok rfl) rfl fun _ v _ hv _ => ?_
      have huv := hu.of_stream hv
      have hcv : v.Calm := hv ▸ hcu
      rw [wp_pure]
      dsimp only
      rw [wp_do]
      refine wp_still (hcv.ok rfl) rfl fun ssl w _ hw _ => ?_
      have huw := huv.of_stream hw
      have hcw : w.Calm := hw ▸ hcv
      cases ssl with
      | none => exact free c w hcw.settled
      | some ssl =>
        dsimp only
        rw [wp_do]
        refine wp_still (hcw.ok rfl) rfl fun f x _ hx _ => ?_
        have hux := huw.of_stream hx
        have hcx : x.Calm := hx ▸ hcw
        rw [wp_do]
        refine wp_still (hcx.ok rfl) rfl fun _ y _ hy _ => ?_
        have huy := hux.of_stream hy
        have hcy : y.Calm := hy ▸ hcx
        rw [wp_do]
        refine wp_still (hcy.ok rfl) rfl fun r z _ hz _ => ?_
        have huz := huy.of_stream hz
        have hcz : z.Calm := hz ▸ hcy
        split
        · exact free c z hcz.settled
        · exact wp_sslHandshake huz hcz hok hfail
    · rw [if_neg (by decide), wp_do]
      refine wp_still (hu.ok rfl) rfl fun _ v _ hv _ => ?_
      exact hfail v (hu.of_stream hv).settled

theorem wp_sslSession (h : Unread s) :
    wp (streamContract Consumes) (sslSession n sd sc) (fun _ t => t.StreamOk none) s := by
  unfold sslSession
  rw [wp_do]
  refine wp_sslAcceptInternal h (fun t ht => ?_) fun t ht => ?_
  · rw [if_neg (by simp)]
    exact wp_handleSslEvents ht
  · rw [if_pos (by decide)]
    refine wp_op (ht.ok rfl) ?_
    intro _ u hstep
    obtain ⟨-, hu⟩ := hstep
    cases hu
    exact Stream.Settled.ok ht rfl

/-- An accepted connection: in the runs in which the client has released
everything whenever `SSL_read` finds data, and leaves no full buffer behind,
the bytes released and the window are the bytes that `SSL_read` returned, and
it is never asked for nothing. -/
theorem sslSession_stream (n sd : Nat) (sc : CbFields) (replies : List ((o : Op) → o.Rep))
    (hc : Meets (Prog.step Conn.next) (Prog.Assume Consumes) ({}, sslSession n sd sc) replies) :
    Always (Prog.step Conn.next) (fun x => x.1.StreamOk x.2.op)
      ({}, sslSession n sd sc) replies := by
  refine (always_of_wp (K := streamContract Consumes) (fun _ _ _ _ ha ht => ⟨ha, ht⟩)
    (wp_sslSession ⟨rfl, rfl, rfl, rfl⟩) hc).mono ?_
  rintro ⟨s, _ | _ | _⟩ h <;> exact h

/-- A connection accepted at once, with a buffer of four bytes, on which data arrives. -/
def connected (data : List Answer) : List Answer :=
  [.ptr (some 0), .page 4 (some ⟨0, [0, 0, 0, 0]⟩), .ptr (some 9), .int 1, .int 1,
    .page 4 (some ⟨1, [0, 0, 0, 0]⟩), .flag true, .events EVREAD] ++ data

/-- The client releases both of the bytes that arrived before the third arrives. -/
theorem sslSession_stream_consumed :
    Always (Prog.step Conn.next) (fun x => x.1.StreamOk x.2.op)
      ({}, sslSession 9 5 { rxfxn := some 1 })
      (script Conn.next Conn.loads 48 ({}, sslSession 9 5 { rxfxn := some 1 })
        (connected [.io (.bytes [1, 2]), .act (.advance 2), .act (.ret 0), .io (.bytes [3]),
          .act (.advance 1), .act (.ret 0), .io (.ret (-1)), .err .wantRead, .flag true])) :=
  sslSession_stream 9 5 _ _ (by decide)

/-- The client releases one byte of two, and the third overwrites the second. -/
theorem sslSession_loses_input :
    ¬ Always (Prog.step Conn.next) (fun x => x.1.StreamOk x.2.op)
      ({}, sslSession 9 5 { rxfxn := some 1 })
      (script Conn.next Conn.loads 40 ({}, sslSession 9 5 { rxfxn := some 1 })
        (connected [.io (.bytes [1, 2]), .act (.advance 1), .act (.ret 0), .io (.bytes [3])])) := by
  decide

end Session

end Libtorque
