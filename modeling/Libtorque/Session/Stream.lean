import Libtorque.Session.Connection

/-! # The stream of a buffered descriptor

The bytes released so far, followed by the window, are the bytes read so far:
`Streamed`. Shown first of each change of the buffer, then of the handlers. -/
namespace Libtorque
open Lib

/-! ## The buffer -/

structure Stream.Ordered (s : Stream) : Prop where
  ate : s.rxb.bufate ≤ s.rxb.bufoff
  off : s.rxb.bufoff ≤ s.rxb.buftot

/-- The offsets are in order, and the bytes are there. -/
structure Stream.Bounds (s : Stream) : Prop extends s.Ordered where
  tot : s.rxb.buftot ≤ s.mem.length
  size : s.rxb.buftot < 2 ^ 64

def Stream.Streamed (s : Stream) : Prop := s.released ++ s.window = s.input

/-- The buffer is in order, with nothing read that is not in the window. -/
structure Stream.Calm (s : Stream) : Prop extends s.Bounds where
  pos : 0 < s.rxb.buftot
  streamed : s.Streamed

/-- What can be told of a buffer even where there is none. -/
structure Stream.Settled (s : Stream) : Prop extends s.Ordered where
  streamed : s.Streamed

section Buffer
variable {s : Stream}

theorem Stream.Calm.settled (h : s.Calm) : s.Settled := ⟨h.toOrdered, h.streamed⟩

theorem window_length (h : s.Bounds) : s.window.length = s.rxb.bufoff - s.rxb.bufate := by
  have := h.off
  have := h.tot
  simp only [Stream.window, List.length_drop, List.length_take]
  omega

theorem used_eq (h : s.Bounds) :
    sizeSub s.rxb.bufoff s.rxb.bufate = s.rxb.bufoff - s.rxb.bufate :=
  sizeSub_eq h.ate (Nat.lt_of_le_of_lt h.off h.size)

theorem room_eq (h : s.Bounds) :
    sizeSub s.rxb.buftot s.rxb.bufoff = s.rxb.buftot - s.rxb.bufoff :=
  sizeSub_eq h.off h.size

/-- The three branches of `rxbuffer_advance`. -/
theorem advance_bounds {n : Nat} (h : s.Bounds) (hn : n ≤ s.window.length) :
    (s.advance n).Bounds ∧ (s.advance n).window = s.window.drop n ∧
      (s.advance n).rxb.buftot = s.rxb.buftot := by
  obtain ⟨⟨hate, hoff⟩, htot, hsize⟩ := h
  rw [window_length ⟨⟨hate, hoff⟩, htot, hsize⟩] at hn
  have hadd : sizeAdd s.rxb.bufate n = s.rxb.bufate + n := sizeAdd_eq (by omega)
  simp only [Stream.advance, rxbufferAdvance, hadd]
  by_cases hreset : s.rxb.bufate + n = s.rxb.buftot
  · rw [if_pos hreset]
    refine ⟨⟨⟨Nat.le_refl 0, Nat.zero_le _⟩, htot, hsize⟩, ?_, rfl⟩
    -- all of the buffer has been released
    have hempty : (s.mem.take s.rxb.bufoff).length ≤ s.rxb.bufate + n := by
      rw [List.length_take]; omega
    simp [Stream.window, List.drop_drop, List.drop_eq_nil_of_le hempty]
  · rw [if_neg hreset]
    by_cases hfull : s.rxb.bufoff = s.rxb.buftot
    · rw [if_pos hfull]
      have hsub : sizeSub s.rxb.bufoff (s.rxb.bufate + n) = s.rxb.bufoff - (s.rxb.bufate + n) :=
        sizeSub_eq (by omega) (by omega)
      have hmove : ((s.mem.drop (s.rxb.bufate + n)).take
          (s.rxb.bufoff - (s.rxb.bufate + n))).length = s.rxb.bufoff - (s.rxb.bufate + n) := by
        rw [List.length_take, List.length_drop]; omega
      refine ⟨⟨⟨Nat.zero_le _, ?_⟩, ?_, hsize⟩, ?_, rfl⟩
      · show sizeSub s.rxb.bufoff (s.rxb.bufate + n) ≤ s.rxb.buftot
        omega
      · show s.rxb.buftot ≤ List.length (_ ++ _)
        rw [List.length_append, hsub, hmove, List.length_drop]
        omega
      · show List.drop 0 (List.take (sizeSub _ _) (_ ++ _)) = _
        rw [hsub, List.drop_zero, List.take_left' hmove, Stream.window, List.drop_drop,
          List.drop_take]
    · rw [if_neg hfull]
      refine ⟨⟨⟨?_, hoff⟩, htot, hsize⟩, ?_, rfl⟩
      · show s.rxb.bufate + n ≤ s.rxb.bufoff
        omega
      · simp [Stream.window, List.drop_drop]

theorem advance_calm {n : Nat} (h : s.Calm) (hn : n ≤ s.window.length) : (s.advance n).Calm := by
  obtain ⟨hb, hw, ht⟩ := advance_bounds h.toBounds hn
  refine { toBounds := hb, pos := ht ▸ h.pos, streamed := ?_ }
  show (s.released ++ s.window.take n) ++ (s.advance n).window = s.input
  rw [hw, List.append_assoc, List.take_append_drop]
  exact h.streamed

/-- `bs` is stored behind the window, and `bufoff` counts it. -/
theorem read_calm {t : Stream} {bs : List UInt8} (h : s.Calm)
    (hbs : s.rxb.bufoff + bs.length ≤ s.rxb.buftot)
    (hmem : t.mem = overwrite s.mem s.rxb.bufoff bs) (hin : t.input = s.input ++ bs)
    (hrel : t.released = s.released)
    (hrxb : t.rxb = { s.rxb with bufoff := s.rxb.bufoff + bs.length }) : t.Calm := by
  have hate := h.ate
  have htot := h.tot
  have htake : (s.mem.take s.rxb.bufoff).length = s.rxb.bufoff := by
    rw [List.length_take]; omega
  have hlen : (s.mem.take s.rxb.bufoff ++ bs).length = s.rxb.bufoff + bs.length := by
    rw [List.length_append, htake]
  refine { ate := ?_, off := ?_, tot := ?_, size := ?_, pos := ?_, streamed := ?_ }
  · rw [hrxb]; exact Nat.le_add_right_of_le hate
  · rw [hrxb]; exact hbs
  · rw [hrxb, hmem, overwrite, List.length_append, hlen, List.length_drop]
    show s.rxb.buftot ≤ _
    omega
  · rw [hrxb]; exact h.size
  · rw [hrxb]; exact h.pos
  · unfold Stream.Streamed Stream.window
    rw [hrxb, hmem, hrel, hin, overwrite]
    show s.released ++ List.drop s.rxb.bufate (List.take (s.rxb.bufoff + bs.length) _) = _
    rw [List.take_left' hlen, List.drop_append_of_le_length (by omega), ← List.append_assoc]
    exact congrArg (· ++ bs) h.streamed

/-- Pages of another size, with the old contents where the buffer has any. -/
theorem pages_bounds {t : Stream} (h : s.Bounds)
    (hmem : t.mem.take s.rxb.buftot = s.mem.take s.rxb.buftot) (hrxb : t.rxb = s.rxb) :
    t.Bounds ∧ t.window = s.window := by
  have htot := h.tot
  refine ⟨⟨⟨hrxb ▸ h.ate, hrxb ▸ h.off⟩, ?_, hrxb ▸ h.size⟩, ?_⟩
  · have := congrArg List.length hmem
    rw [List.length_take, List.length_take] at this
    rw [hrxb]
    omega
  · have hoff : t.mem.take s.rxb.bufoff = s.mem.take s.rxb.bufoff := by
      rw [← Nat.min_eq_left h.off, ← List.take_take, hmem, List.take_take]
    rw [Stream.window, hrxb, hoff, Stream.window]

end Buffer

/-! ## The contract -/

/-- The store to `bufoff` that counts what was read comes right after the read. -/
def Op.counts : Op → Bool
  | .setRxbuf .. => true
  | _ => false

/-- The length asked for. -/
def Op.readLen : Op → Option Int
  | .read _ _ _ len => some len
  | .sslRead _ _ _ len => some len
  | _ => none

/-- The call of the client's `rx`. -/
def Op.callsRx : Op → Bool
  | .callback .rx _ _ => true
  | _ => false

/-- What holds at each operation: the offsets are in order, the bytes released
and the window are those read (but between a read and the store that counts it),
no read is for nothing, and `rx` is shown an empty window only at the end of
the input. -/
structure Conn.StreamOk (s : Conn) (o : Option Op) : Prop where
  ordered : s.Ordered
  streamed : ¬ o.any Op.counts → s.Streamed
  asks : o.bind Op.readLen ≠ some 0
  rx : o.any Op.callsRx → s.window = [] → s.eof

instance (s : Stream) : Decidable s.Ordered :=
  decidable_of_iff (s.rxb.bufate ≤ s.rxb.bufoff ∧ s.rxb.bufoff ≤ s.rxb.buftot)
    ⟨fun h => ⟨h.1, h.2⟩, fun h => ⟨h.ate, h.off⟩⟩

instance (s : Conn) (o : Option Op) : Decidable (s.StreamOk o) :=
  decidable_of_iff (s.Ordered ∧ (¬ o.any Op.counts → s.released ++ s.window = s.input) ∧
      o.bind Op.readLen ≠ some 0 ∧ (o.any Op.callsRx → s.window = [] → s.eof))
    ⟨fun h => ⟨h.1, h.2.1, h.2.2.1, h.2.2.2⟩, fun h => ⟨h.ordered, h.streamed, h.asks, h.rx⟩⟩

/-- `A` is assumed of the replies. -/
def streamContract (A : Conn → (o : Op) → o.Rep → Bool) : Contract Op Op.Rep Conn where
  ok := Conn.StreamOk
  next s o r t := A s o r ∧ s.next o r = some t

/-- Operations at which nothing is to be shown but that the stream is in order. -/
def Op.plain : Op → Bool
  | .read .. | .sslRead .. | .callback .rx _ _ => false
  | _ => true

theorem Stream.Settled.ok {s : Conn} {o : Option Op} (h : s.Settled) (ho : o.all Op.plain) :
    s.StreamOk o where
  ordered := h.toOrdered
  streamed _ := h.streamed
  asks := by
    cases o with
    | none => simp
    | some o => cases o <;> simp_all [Op.plain, Op.readLen]
  rx hc := by
    cases o with
    | none => cases hc
    | some o =>
      cases o <;> simp only [Option.any_some, Op.callsRx, Bool.false_eq_true] at hc
      rename_i kind _ _
      cases kind <;> simp_all [Op.plain]

/-- The store that counts what was read needs no more. -/
theorem Stream.Ordered.ok_counts {s : Conn} {c : Nat} {rxb : RxBuf} (h : s.Ordered) :
    s.StreamOk (some (.setRxbuf c rxb)) where
  ordered := h
  streamed hc := absurd rfl hc
  asks := by simp [Op.readLen]
  rx hc := by cases hc

theorem Stream.Calm.ok {s : Conn} {o : Option Op} (h : s.Calm) (ho : o.all Op.plain) :
    s.StreamOk o :=
  Stream.Settled.ok h.settled ho

/-! ## Operations that leave the stream alone -/

section Quiet
variable {A : Conn → (o : Op) → o.Rep → Bool} {s : Conn} {J : Stream → EvSource → Prop}

/-- An operation that leaves all of it as it is. -/
theorem wp_still {o : Op} {Q : o.Rep → Conn → Prop} (hok : s.StreamOk (some o))
    (hq : o.quiet) (hQ : ∀ r t, A s o r → t.toStream = s.toStream → t.slots = s.slots → Q r t) :
    wp (streamContract A) (perform o) Q s :=
  wp_op hok fun r t ⟨ha, ht⟩ => hQ r t ha (next_quiet hq ht).1 (next_quiet hq ht).2

theorem wp_quiet {o : Op} {Q : o.Rep → Conn → Prop} (hs : s.Calm)
    (h : J s.toStream s.slots) (hq : o.quiet) (ho : o.plain)
    (hQ : ∀ r t, A s o r → J t.toStream t.slots → Q r t) :
    wp (streamContract A) (perform o) Q s :=
  wp_still (hs.ok (by simpa using ho)) hq fun r t ha hst hsl => hQ r t ha (hst ▸ hsl ▸ h)

/-- A load gives what is there. -/
theorem wp_load {c : Nat} {Q : RxBuf → Conn → Prop} (hok : s.StreamOk (some (.rxbuf c)))
    (hQ : Q s.rxb s) : wp (streamContract A) (rxbuf c) Q s := by
  refine wp_op hok ?_
  intro r t hstep
  obtain ⟨-, ht⟩ := hstep
  obtain ⟨-, rfl, rfl⟩ := rxbuf_cases ht
  exact hQ

theorem wp_rxbuf {c : Nat} {Q : RxBuf → Conn → Prop} (hs : s.Calm) (hQ : Q s.rxb s) :
    wp (streamContract A) (rxbuf c) Q s :=
  wp_load (hs.ok rfl) hQ

theorem wp_restorefd {fd : Nat} {e : Events} {Q : Int → Conn → Prop}
    (hJ : ∀ t e, J t e → t.Calm) (h : J s.toStream s.slots)
    (hQ : ∀ v t, J t.toStream t.slots → Q v t) :
    wp (streamContract A) (restorefd fd e) Q s := by
  unfold restorefd
  rw [wp_do]
  refine wp_quiet (hJ _ _ h) h rfl rfl fun ok t _ ht => ?_
  split <;> exact hQ _ t ht

/-- The client never asks to release more than the window. -/
theorem wp_client {kind : CbKind} {Q : ClientAct → Conn → Prop} (hs : s.Calm)
    (hQ : ∀ a t, A s (.client kind) a → t.toStream = s.toStream → t.slots = s.slots →
      (∀ k, a = .advance k → k ≤ s.window.length) → Q a t) :
    wp (streamContract A) (perform (.client kind)) Q s := by
  refine wp_op (hs.ok rfl) ?_
  intro a t hstep
  obtain ⟨ha, ht⟩ := hstep
  obtain ⟨hst, hsl⟩ := next_quiet rfl ht
  refine hQ a t ha hst hsl fun k hk => ?_
  subst hk
  simp only [Conn.next, Conn.client] at ht
  split at ht
  · assumption
  · cases ht

theorem wp_advance {c k : Nat} {Q : Unit → Conn → Prop} (hs : s.Calm)
    (hQ : ∀ t : Conn, t.toStream = s.advance k → t.slots = s.slots → Q () t) :
    wp (streamContract A) (perform (.rxbufferAdvance c k)) Q s := by
  refine ⟨hs.ok rfl, ?_⟩
  intro _ t hstep
  obtain ⟨-, ht⟩ := hstep
  simp only [Conn.next] at ht
  split at ht <;> cases ht
  exact hQ _ rfl rfl

end Quiet

/-! ## Plain descriptors -/

/-- Between the operations of the plain handlers. -/
structure PlainInv (s : Stream) (e : EvSource) : Prop where
  calm : s.Calm
  rx : e.rxfxn = none ∨ e.rxfxn = some .bufferedRxfxn
  tx : e.txfxn = none ∨ e.txfxn = some .bufferedTxfxn
  state : ∃ c, e.cbstate = .object c

/-- The buffer changes, and the slots stay. -/
theorem PlainInv.of_calm {s t : Stream} {e : EvSource} (h : PlainInv s e) (ht : t.Calm) :
    PlainInv t e :=
  { h with calm := ht }

section Plain
variable {A : Conn → (o : Op) → o.Rep → Bool} {s : Conn} {n fd c : Nat}

theorem wp_callBuffered {kind : CbKind} {f : Option Nat} {Q : Int → Conn → Prop}
    (h : PlainInv s.toStream s.slots) (hrx : s.window = [] → s.eof)
    (hQ : ∀ v t, PlainInv t.toStream t.slots → Q v t) :
    wp (streamContract A) (callBuffered n kind f fd c) Q s := by
  unfold callBuffered
  rw [wp_do]
  refine ⟨⟨h.calm.toOrdered, fun _ => h.calm.streamed, nofun, fun _ => hrx⟩, ?_⟩
  intro _ t ⟨_, ht⟩
  obtain ⟨hst, hsl⟩ := next_quiet rfl ht
  rw [← hst, ← hsl] at h
  refine wp_loop (fun _ t => PlainInv t.toStream t.slots) (fun _ _ hc => hc.calm.ok rfl) ?_ n h
  intro _ t h
  rw [wp_do]
  refine wp_client h.calm fun a u _ hu hus hk => ?_
  rw [← hu, ← hus] at h
  cases a with
  | advance k =>
    rw [wp_do]
    refine wp_advance h.calm fun v hv hsl => ?_
    show PlainInv _ _
    rw [hv, hsl]
    exact h.of_calm (advance_calm h.calm (hu ▸ hk k rfl))
  | close =>
    rw [wp_do]
    exact wp_quiet h.calm h rfl rfl fun _ _ _ hc => hc
  | sslTx len => exact h
  | ret v => exact hQ v u h

/-- `rx` is called with something to show. -/
theorem wp_rxback {Q : Int → Conn → Prop} (h : PlainInv s.toStream s.slots)
    (hQ : ∀ v t, PlainInv t.toStream t.slots → Q v t) :
    wp (streamContract A) (rxback n fd c) Q s := by
  unfold rxback
  rw [wp_do]
  refine wp_rxbuf h.calm ?_
  rw [used_eq h.calm.toBounds]
  split
  · rename_i hne
    refine wp_callBuffered h (fun hw => absurd ?_ hne) hQ
    rw [← window_length h.calm.toBounds, hw, List.length_nil]
  · exact hQ 0 s h

theorem wp_bufferedTxfxn {Q : Unit → Conn → Prop} (h : PlainInv s.toStream s.slots)
    (hQ : ∀ t, PlainInv t.toStream t.slots → Q () t) :
    wp (streamContract A) (bufferedTxfxn n fd c) Q s := by
  have close_or (v : Int) (t : Conn) (ht : PlainInv t.toStream t.slots) :
      wp (streamContract A) (if v ≠ 0 then close fd else pure ()) Q t := by
    split
    · exact wp_quiet ht.calm ht rfl rfl fun _ t _ hc => hQ t hc
    · exact hQ t ht
  unfold bufferedTxfxn txback
  rw [wp_do, wp_do]
  refine wp_rxbuf h.calm ?_
  rw [used_eq h.calm.toBounds]
  split
  · rename_i hne
    rw [wp_do]
    refine wp_callBuffered h (fun hw => absurd ?_ hne) fun v t ht => ?_
    · rw [← window_length h.calm.toBounds, hw, List.length_nil]
    · split
      · exact wp_restorefd (fun _ _ hc => hc.calm) ht close_or
      · exact close_or _ t ht
  · exact close_or _ s h

/-- Growing the buffer makes room, or fails. -/
theorem wp_growrxbuf {Q : Int → Conn → Prop} (h : PlainInv s.toStream s.slots)
    (hfull : s.rxb.bufoff = s.rxb.buftot)
    (hok : ∀ t : Conn, PlainInv t.toStream t.slots → t.rxb.bufoff < t.rxb.buftot → Q 0 t)
    (hfail : ∀ t : Conn, PlainInv t.toStream t.slots → Q (-1) t) :
    wp (streamContract A) (growrxbuf c) Q s := by
  unfold growrxbuf
  rw [wp_do]
  refine wp_rxbuf h.calm ?_
  rw [wp_do]
  refine ⟨h.calm.ok rfl, ?_⟩
  intro r t hstep
  obtain ⟨-, ht⟩ := hstep
  simp only [Conn.next, Conn.modPages] at ht
  cases r with
  | none =>
    cases ht
    exact hfail _ h
  | some page =>
    dsimp only at ht
    split at ht
    · rename_i hp
      obtain ⟨hsize, hlen, hkeep⟩ := hp
      cases ht
      have hpos := h.calm.pos
      unfold sizeMax at hsize
      have hnews : sizeMul s.rxb.buftot 2 = 2 * s.rxb.buftot := by
        unfold sizeMul
        omega
      rw [hnews] at hlen
      -- the new pages, while `buftot` still has the old size
      let u : Conn := { s with mem := page.bytes }
      obtain ⟨hb, hw⟩ := pages_bounds (t := u.toStream) h.calm.toBounds hkeep rfl
      rw [hnews]
      refine ⟨Stream.Ordered.ok_counts hb.toOrdered, ?_⟩
      intro _ v hstep
      obtain ⟨-, hv⟩ := hstep
      obtain ⟨-, rfl⟩ := setRxbuf_cases hv
      refine hok _ (h.of_calm ?_) (by show s.rxb.bufoff < 2 * s.rxb.buftot; omega)
      refine { ate := h.calm.ate, off := ?_, tot := ?_, size := ?_, pos := ?_, streamed := ?_ }
      · show s.rxb.bufoff ≤ 2 * s.rxb.buftot
        omega
      · exact Nat.le_of_eq hlen.symm
      · show 2 * s.rxb.buftot < 2 ^ 64
        omega
      · show 0 < 2 * s.rxb.buftot
        omega
      · show s.released ++ u.window = s.input
        rw [hw]
        exact h.calm.streamed
    · cases ht

theorem wp_bufferedRxfxnFull {Q : Option Leave → Conn → Prop}
    (h : PlainInv s.toStream s.slots) (hout : ∀ l t, PlainInv t.toStream t.slots → Q (some l) t)
    (hroom : ∀ t, PlainInv t.toStream t.slots → t.rxb.bufoff < t.rxb.buftot → Q none t) :
    wp (streamContract A) (bufferedRxfxnFull n fd c) Q s := by
  unfold bufferedRxfxnFull
  rw [wp_do]
  refine wp_rxback h fun v t ht => ?_
  split
  · exact hout _ t ht
  · rw [wp_do]
    refine wp_rxbuf ht.calm ?_
    rw [room_eq ht.calm.toBounds]
    have hoff := ht.calm.off
    split
    · rw [wp_do]
      refine wp_growrxbuf ht (by omega) (fun u hu hlt => ?_) fun u hu => ?_
      · exact hroom u hu hlt
      · exact hout _ u hu
    · exact hroom t ht (by omega)

/-- After the callback, the descriptor is armed again. -/
theorem wp_rearm {e : Events} {v : Int} {Q : Unit ⊕ Leave → Conn → Prop}
    (h : PlainInv s.toStream s.slots) (hQ : ∀ l t, PlainInv t.toStream t.slots → Q (.inr l) t) :
    wp (streamContract A)
      (if v ≠ 0 then pure (.inr .ret)
       else do
        let r ← restorefd fd e
        if r ≠ 0 then pure (.inr .brk) else pure (.inr .ret)) Q s := by
  split
  · exact hQ _ s h
  · rw [wp_do]
    refine wp_restorefd (fun _ _ hc => hc.calm) h fun r t ht => ?_
    split <;> exact hQ _ t ht

theorem wp_bufferedRxfxnRead {Q : Unit ⊕ Leave → Conn → Prop}
    (h : PlainInv s.toStream s.slots) (hroom : s.rxb.bufoff < s.rxb.buftot)
    (hQ : ∀ x t, PlainInv t.toStream t.slots → Q x t) :
    wp (streamContract A) (bufferedRxfxnRead n fd c) Q s := by
  unfold bufferedRxfxnRead
  rw [wp_do]
  refine wp_rxbuf h.calm ?_
  rw [wp_do, room_eq h.calm.toBounds]
  refine wp_op ⟨h.calm.toOrdered, fun _ => h.calm.streamed, ?_, nofun⟩ ?_
  · intro hz
    simp only [Option.bind_some, Op.readLen, Option.some.injEq] at hz
    omega
  intro res t hstep
  obtain ⟨-, ht⟩ := hstep
  rcases read_cases ht with hbs | ⟨rfl, rfl⟩ | ⟨rfl, rfl⟩
  · obtain ⟨bs, hbs⟩ := hbs
    obtain ⟨rfl, hbs⟩ := hbs
    have hpos := hbs.1
    have hle := hbs.2.1
    have hmax := hbs.2.2.1
    obtain rfl := hbs.2.2.2
    have hr : (IoRes.bytes bs).value = (bs.length : Int) := by
      unfold maxRwCount at hmax
      exact intOf_eq (by omega)
    have hsize := h.calm.size
    have hadd : sizeAdd s.rxb.bufoff bs.length = s.rxb.bufoff + bs.length :=
      sizeAdd_eq (by omega)
    rw [hr, if_pos (by omega), wp_do, Int.toNat_natCast, hadd]
    -- `bufoff` does not count the bytes yet
    refine wp_op (Stream.Ordered.ok_counts ⟨h.calm.ate, h.calm.off⟩) ?_
    intro _ u hstep
    obtain ⟨-, hu⟩ := hstep
    obtain ⟨-, rfl⟩ := setRxbuf_cases hu
    exact hQ _ _ (h.of_calm (read_calm h.calm (by omega) rfl rfl rfl rfl))
  · have hr : (IoRes.ret 0).value = 0 := rfl
    rw [hr, if_neg (by decide), if_pos rfl, wp_do]
    exact wp_callBuffered h (fun _ => rfl) fun v t ht => wp_rearm ht fun l u hu => hQ _ u hu
  · have hr : (IoRes.ret (-1)).value = -1 := rfl
    rw [hr, if_neg (by decide), if_neg (by decide), wp_do]
    refine wp_quiet h.calm h rfl rfl fun e t _ ht => ?_
    split
    · rw [wp_do]
      exact wp_rxback ht fun v u hu => wp_rearm hu fun l w hw => hQ _ w hw
    · split
      · exact hQ _ t ht
      · exact hQ _ t ht

theorem wp_bufferedRxfxn {Q : Unit → Conn → Prop} (h : PlainInv s.toStream s.slots)
    (hQ : ∀ t, PlainInv t.toStream t.slots → Q () t) :
    wp (streamContract A) (bufferedRxfxn n fd c) Q s := by
  unfold bufferedRxfxn
  rw [wp_do]
  refine wp_loop (fun _ t => PlainInv t.toStream t.slots) (fun _ _ hc => hc.calm.ok rfl) ?_ n h
  intro _ t h
  have out (x : Unit ⊕ Leave) (u : Conn) (hu : PlainInv u.toStream u.slots) :
      x.elim (fun _ : Unit => PlainInv u.toStream u.slots)
        (fun l => wp (streamContract A) (l.finish fd) Q u) := by
    cases x with
    | inl => exact hu
    | inr l =>
      cases l with
      | brk => exact wp_quiet hu.calm hu rfl rfl fun _ v _ hv => hQ v hv
      | ret => exact hQ u hu
  rw [wp_do]
  refine wp_rxbuf h.calm ?_
  rw [room_eq h.calm.toBounds]
  have hoff := h.calm.off
  split
  · rw [wp_do]
    exact wp_bufferedRxfxnFull h (fun l u hu => out (.inr l) u hu)
      fun u hu hlt => wp_bufferedRxfxnRead hu hlt out
  · exact wp_bufferedRxfxnRead h (by omega) out

/-! ## From registration on -/

theorem wp_handleSlot {slot : Option Fn} {Q : Unit → Conn → Prop}
    (h : PlainInv s.toStream s.slots)
    (hslot : slot = none ∨ slot = some .bufferedRxfxn ∨ slot = some .bufferedTxfxn)
    (hQ : ∀ t, PlainInv t.toStream t.slots → Q () t) :
    wp (streamContract A) (handleSlot n fd slot s.slots.cbstate) Q s := by
  have leave (t : Conn) (ht : PlainInv t.toStream t.slots) :
      wp (streamContract A) (perform .leave) Q t :=
    wp_quiet ht.calm ht rfl rfl fun _ u _ hu => hQ u hu
  obtain ⟨c, hc⟩ := h.state
  rw [hc]
  refine wp_slot (fun _ => hQ s h) fun f hf => ?_
  refine wp_quiet h.calm h rfl rfl fun _ t _ ht => ?_
  rcases hslot with rfl | rfl | rfl <;> cases hf
  · exact wp_bufferedRxfxn ht leave
  · exact wp_bufferedTxfxn ht leave

/-- An entry is loaded as it is. -/
theorem wp_evsource {Q : EvSource → Conn → Prop} (hs : s.Calm) (hQ : Q s.slots s) :
    wp (streamContract A) (evsource fd) Q s := by
  refine ⟨hs.ok rfl, ?_⟩
  intro r t hstep
  obtain ⟨-, ht⟩ := hstep
  obtain ⟨rfl, rfl⟩ := evsource_cases ht
  exact hQ

theorem wp_handleEvents {Q : Unit → Conn → Prop} (h : PlainInv s.toStream s.slots) :
    wp (streamContract A) (handleEvents n fd) Q s := by
  refine wp_eventLoop (I := fun t => PlainInv t.toStream t.slots) (fun _ ht => ht.calm.ok rfl)
    (fun t ht => ?_) (fun t ht => ?_) (fun t ht => ?_) h
  · exact wp_quiet ht.calm ht rfl rfl fun _ _ _ hu => hu
  · refine wp_evsource ht.calm (wp_handleSlot ht ?_ fun _ hu => hu)
    exact ht.rx.imp id .inl
  · refine wp_evsource ht.calm (wp_handleSlot ht ?_ fun _ hu => hu)
    exact ht.tx.imp id .inr

end Plain

/-! ## From registration on -/

/-- Nothing has been read, and there may be no buffer yet. -/
structure Unread (s : Conn) : Prop where
  off : s.rxb.bufoff = 0
  ate : s.rxb.bufate = 0
  input : s.input = []
  released : s.released = []

section Registration
variable {A : Conn → (o : Op) → o.Rep → Bool} {s : Conn} {c : Nat}

theorem Unread.settled (h : Unread s) : s.Settled :=
  ⟨⟨by simp [h.off, h.ate], by simp [h.off]⟩, by
    simp [Stream.Streamed, Stream.window, h.off, h.input, h.released]⟩

theorem Unread.ok {o : Option Op} (h : Unread s) (ho : o.all Op.plain) : s.StreamOk o :=
  Stream.Settled.ok h.settled ho

theorem Unread.of_stream {t : Conn} (h : Unread s) (ht : t.toStream = s.toStream) : Unread t :=
  ⟨ht ▸ h.off, ht ▸ h.ate, ht ▸ h.input, ht ▸ h.released⟩

/-- A buffer is found, or none is. -/
theorem wp_initializeRxbuffer {Q : Int → Conn → Prop} (h : Unread s)
    (hok : ∀ t, Unread t → t.Calm → t.slots = s.slots →
      (∃ u page, A u .getBigPage (t.rxb.buftot, some page)) → Q 0 t)
    (hfail : ∀ t, Unread t → t.slots = s.slots → Q (-1) t) :
    wp (streamContract A) (initializeRxbuffer c) Q s := by
  unfold initializeRxbuffer
  rw [wp_do]
  refine wp_load (h.ok rfl) ?_
  rw [wp_do]
  refine wp_op (h.ok rfl) ?_
  intro r t hstep
  obtain ⟨ha, ht⟩ := hstep
  obtain ⟨size, page⟩ := r
  simp only [Conn.next, Conn.getBigPage] at ht
  cases page with
  | none =>
    cases ht
    rw [wp_do]
    refine wp_op (h.ok rfl) ?_
    intro _ u hstep
    obtain ⟨-, hu⟩ := hstep
    obtain ⟨-, rfl⟩ := setRxbuf_cases hu
    exact hfail _ ⟨h.off, h.ate, h.input, h.released⟩ rfl
  | some page =>
    dsimp only at ht
    split at ht
    · rename_i hp
      obtain ⟨hpos, hmax, hlen⟩ := hp
      cases ht
      rw [wp_do]
      have hu : Unread { s with mem := page.bytes } := ⟨h.off, h.ate, h.input, h.released⟩
      refine wp_op (hu.ok rfl) ?_
      intro _ u hstep
      obtain ⟨-, hu⟩ := hstep
      obtain ⟨-, rfl⟩ := setRxbuf_cases hu
      unfold sizeMax at hmax
      refine hok _ ⟨rfl, rfl, h.input, h.released⟩ ?_ rfl ⟨s, page, ha⟩
      refine { ate := Nat.le_refl 0, off := Nat.zero_le _, tot := Nat.le_of_eq hlen.symm,
               size := ?_, pos := hpos, streamed := ?_ }
      · show size < 2 ^ 64
        omega
      · simp [Stream.Streamed, Stream.window, h.input, h.released]
    · cases ht

theorem wp_setupEvsource {fd : Nat} {rx tx : Option Fn} {v : CbState} {Q : Unit → Conn → Prop}
    (hs : s.Calm) (hQ : ∀ t : Conn, t.toStream = s.toStream → t.slots = ⟨rx, tx, v⟩ → Q () t) :
    wp (streamContract A) (setupEvsource fd rx tx v) Q s := by
  unfold setupEvsource setEvsourceRx setEvsourceTx
  rw [wp_do]
  refine wp_op (hs.ok rfl) ?_
  intro _ t hstep
  obtain ⟨-, ht⟩ := hstep
  cases ht
  rw [wp_do]
  refine wp_op (Stream.Calm.ok hs rfl) ?_
  intro _ t hstep
  obtain ⟨-, ht⟩ := hstep
  cases ht
  refine wp_op (Stream.Calm.ok hs rfl) ?_
  intro _ t hstep
  obtain ⟨-, ht⟩ := hstep
  cases ht
  exact hQ _ rfl rfl

theorem wp_addFdToEvhandler {fd : Int} {rx tx : Option Fn} {v : CbState}
    {Q : Int → Conn → Prop} (hs : s.Calm)
    (hok : ∀ t : Conn, t.toStream = s.toStream → t.slots = ⟨rx, tx, v⟩ → Q 0 t)
    (hfail : ∀ t : Conn, t.toStream = s.toStream → Q (-1) t) :
    wp (streamContract A) (addFdToEvhandler fd rx tx v EVONESHOT) Q s := by
  unfold addFdToEvhandler
  rw [wp_do]
  refine wp_still (hs.ok rfl) rfl fun size t _ hst _ => ?_
  split
  · exact hfail t hst
  · rw [wp_do]
    have ht : t.Calm := hst ▸ hs
    refine wp_setupEvsource ht fun u hu hsl => ?_
    have hcu : u.Calm := hu ▸ ht
    rw [wp_do]
    unfold addFdEvent
    rw [if_neg (by decide), wp_do]
    refine wp_still (hcu.ok rfl) rfl fun ok w _ hw hwsl => ?_
    have hws : w.toStream = s.toStream := hw.trans (hu.trans hst)
    cases ok with
    | true => exact hok w hws (hwsl.trans hsl)
    | false => exact hfail w hws

end Registration

/-- `torque_addfd`, and then the events of the descriptor. -/
def plainSession (n fd : Nat) (rx tx : Option Nat) (state : Nat) : Prog Unit := do
  let r ← torqueAddfd fd rx tx state
  if r = 0 then handleEvents n fd else pure ()

section Session
variable {A : Conn → (o : Op) → o.Rep → Bool} {s : Conn} {n fd state : Nat}
  {rx tx : Option Nat}

/-- What `torque_addfd` leaves behind. -/
theorem wp_torqueAddfd {Q : Int → Conn → Prop} (h : Unread s)
    (hok : ∀ t, PlainInv t.toStream t.slots → Q 0 t)
    (hfail : ∀ v t, t.StreamOk none → v ≠ 0 → Q v t) :
    wp (streamContract A) (torqueAddfd fd rx tx state) Q s := by
  unfold torqueAddfd createRxbuffercb
  rw [if_neg (by omega), wp_do, wp_do]
  refine wp_still (h.ok rfl) rfl fun r t _ hst _ => ?_
  have ht := h.of_stream hst
  cases r with
  | none => exact hfail _ t (ht.ok rfl) (by decide)
  | some c =>
    dsimp only
    rw [wp_do]
    refine wp_initializeRxbuffer ht (fun u _ hu _ _ => ?_) fun u hu _ => ?_
    · rw [if_pos rfl, wp_do]
      refine wp_rxbuf hu ?_
      rw [wp_do]
      refine wp_op (hu.ok rfl) ?_
      intro _ w hstep
      obtain ⟨-, hw⟩ := hstep
      obtain ⟨-, rfl⟩ := setRxbuf_cases hw
      -- the callbacks are stored in the buffer
      have hw : Stream.Calm { u.toStream with rxb := { u.rxb with rx := rx, tx := tx } } :=
        { ate := hu.ate, off := hu.off, tot := hu.tot, size := hu.size, pos := hu.pos,
          streamed := hu.streamed }
      rw [wp_do]
      refine wp_still (Stream.Calm.ok hw rfl) rfl fun _ v _ hv _ => ?_
      have hvc : v.Calm := hv ▸ hw
      rw [wp_pure]
      dsimp only
      rw [wp_do]
      refine wp_addFdToEvhandler hvc (fun x hx hsl => ?_) fun x hx => ?_
      · rw [if_neg (by simp)]
        refine hok x { calm := hx ▸ hvc, rx := ?_, tx := ?_, state := ⟨c, by rw [hsl]⟩ }
        · rw [hsl]; cases rx <;> simp
        · rw [hsl]; cases tx <;> simp
      · have hxc : x.Calm := hx ▸ hvc
        rw [if_pos (by decide), wp_do]
        unfold freeRxbuffercb freeRxbuffer
        rw [wp_do]
        refine wp_rxbuf hxc ?_
        refine wp_still (hxc.ok rfl) rfl fun _ y _ hy _ => ?_
        exact hfail _ y (Stream.Calm.ok (hy ▸ hxc) rfl) (by decide)
    · rw [if_neg (by decide), wp_do]
      refine wp_still (hu.ok rfl) rfl fun _ w _ hw _ => ?_
      exact hfail _ w ((hu.of_stream hw).ok rfl) (by decide)

theorem wp_plainSession (h : Unread s) :
    wp (streamContract A) (plainSession n fd rx tx state) (fun _ t => t.StreamOk none) s := by
  unfold plainSession
  rw [wp_do]
  refine wp_torqueAddfd h (fun t ht => ?_) fun v t ht hv => ?_
  · rw [if_pos rfl]
    exact wp_handleEvents ht
  · rw [if_neg hv]
    exact ht

/-- A descriptor registered with `torque_addfd`, whatever is read and whatever
the client releases: the offsets are in order, the bytes released and the window
are the bytes read, `read` is never asked for nothing, and `rx` is shown an
empty window only at the end of the input. -/
theorem torqueAddfd_stream (n fd : Nat) (rx tx : Option Nat) (state : Nat)
    (replies : List ((o : Op) → o.Rep)) :
    Always (Prog.step Conn.next) (fun x => x.1.StreamOk x.2.op)
      ({}, plainSession n fd rx tx state) replies := by
  have hm : Meets (Prog.step Conn.next) (Prog.Assume fun _ _ _ => true)
      ({}, plainSession n fd rx tx state) replies :=
    meets_of_forall (fun x r => by rcases x with ⟨s, _ | _ | _⟩ <;> trivial) _ _
  refine (always_of_wp (K := streamContract fun _ _ _ => true) (fun _ _ _ _ ha ht => ⟨ha, ht⟩)
    (wp_plainSession ⟨rfl, rfl, rfl, rfl⟩) hm).mono ?_
  rintro ⟨s, _ | _ | _⟩ h <;> exact h

end Session

end Libtorque
