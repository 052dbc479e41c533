import Libtorque.Session.Observed
import Mathlib.Algebra.BigOperators.Group.Finset.Piecewise
import Mathlib.Algebra.Order.BigOperators.Group.Finset

/-! # The receive buffers that are held

A connection maps its receive buffer when it is registered, and an SSL
connection maps another when its handshake is done. The handlers of plain
descriptors close them and keep the buffer. -/
namespace Libtorque
open Lib

/-- Neither closed, nor reported as closed by a callback. Until the handler in
which that happens has returned, a descriptor counts as open. -/
def Observed.isOpen (s : Observed) : Bool := ¬ s.closed ∧ ¬ s.quit ∨ s.running ≠ none

/-- At most one mapping is held, and none once the descriptor is closed. -/
def Observed.Balanced (s : Observed) : Prop := s.maps.length ≤ if s.isOpen then 1 else 0

instance (s : Observed) : Decidable s.Balanced := inferInstanceAs (Decidable (_ ≤ _))

/-- The mapping that an operation gives back. -/
def Op.returned : Op → Option Nat
  | .dealloc buffer _ => buffer
  | _ => none

/-- Only what is held is given back. -/
def Observed.Accounted (s : Observed) (o : Option Op) : Prop :=
  s.Balanced ∧ ∀ m ∈ o.bind Op.returned, m ∈ s.maps

/-- A plain descriptor is not closed: its reads only fail to wait, its buffer
grows, it is armed again, its callbacks do not close it and return 0. An SSL
handshake is not done. -/
def KeepsOne (s : Observed) : (o : Op) → o.Rep → Bool
  | .errno, e => e = .eagain ∨ e = .eintr
  | .modPages .., page => page.isSome
  | .epollCtl .mod .., ok =>
    s.running = some .bufferedRxfxn ∨ s.running = some .bufferedTxfxn → ok
  | .client .rx, .close | .client .tx, .close => false
  | .client .rx, .ret v | .client .tx, .ret v => v = 0
  | .sslAccept _, r => r ≠ 1
  | _, _ => true

def mappingsContract : Contract Op Op.Rep Observed := observing Observed.Accounted KeepsOne

/-! ## What most operations keep -/

/-- Operations that have to do neither with mappings nor with closing. -/
def Op.Holds (p q : Fn → Prop) : Op → Prop
  | .close _ | .client _ | .getBigPage | .modPages .. | .dealloc .. | .setRxbuf .. | .enter ..
  | .leave => False
  | .setEvsourceRx _ f => ∀ g ∈ f, p g
  | .setEvsourceTx _ f => ∀ g ∈ f, q g
  | _ => True

structure Alike (p q : Fn → Prop) (s t : Observed) : Prop where
  maps : t.maps = s.maps
  buffer : t.rxb.buffer = s.rxb.buffer
  closed : t.closed = s.closed
  quit : t.quit = s.quit
  running : t.running = s.running
  slots : SlotsIn p q t.slots

section Holding
variable {p q : Fn → Prop} {s t u : Observed} {n fd c : Nat}

theorem advance_buffer (s : Stream) (k : Nat) : (s.advance k).rxb.buffer = s.rxb.buffer := by
  unfold Stream.advance rxbufferAdvance
  dsimp only
  split
  · rfl
  · split <;> rfl

theorem conn_alike {s t : Conn} {o : Op} {r : o.Rep} (ho : o.Holds p q) (h : s.next o r = some t)
    (hs : SlotsIn p q s.slots) :
    t.rxb.buffer = s.rxb.buffer ∧ t.closed = s.closed ∧ t.running = s.running ∧
      SlotsIn p q t.slots := by
  cases o <;> simp only [Op.Holds] at ho <;>
    simp only [Conn.next, reduceCtorEq, Option.some.injEq] at h
  case setEvsourceRx =>
    cases h
    exact ⟨rfl, rfl, rfl, ho, hs.tx⟩
  case setEvsourceTx =>
    cases h
    exact ⟨rfl, rfl, rfl, hs.rx, ho⟩
  case setEvsourceState =>
    cases h
    exact ⟨rfl, rfl, rfl, hs.rx, hs.tx⟩
  case rxbufferAdvance =>
    split at h <;> cases h
    exact ⟨advance_buffer _ _, rfl, rfl, hs⟩
  case epollCtl =>
    split at h
    · split at h <;> cases h
      exact ⟨rfl, rfl, rfl, hs⟩
    · cases h
      exact ⟨rfl, rfl, rfl, hs⟩
  case read =>
    rcases read_cases h with ⟨_, _, _, _, _, rfl⟩ | ⟨_, rfl⟩ | ⟨_, rfl⟩ <;> exact ⟨rfl, rfl, rfl, hs⟩
  case sslRead =>
    rcases sslRead_cases h with ⟨_, _, _, _, rfl⟩ | ⟨_, _, _, rfl⟩ <;> exact ⟨rfl, rfl, rfl, hs⟩
  all_goals
    first
    | (subst h; exact ⟨rfl, rfl, rfl, hs⟩)
    | (split at h <;> cases h; exact ⟨rfl, rfl, rfl, hs⟩)

theorem after_holds {o : Op} {r : o.Rep} {v : Conn} (ho : o.Holds p q) :
    (s.after v o r).maps = s.maps ∧ (s.after v o r).quit = s.quit := by
  unfold Observed.after
  split <;> first | exact ⟨rfl, rfl⟩ | exact ho.elim

theorem alike_after {o : Op} {r : o.Rep} {v : Conn} (ho : o.Holds p q)
    (hs : SlotsIn p q s.slots) (h : s.toConn.next o r = some v) : Alike p q s (s.after v o r) := by
  obtain ⟨hbuffer, hclosed, hrunning, hslots⟩ := conn_alike ho h hs
  refine ⟨(after_holds ho).1, ?_, ?_, (after_holds ho).2, ?_, ?_⟩
  · rw [after_conn, hbuffer]
  · rw [after_conn, hclosed]
  · rw [after_conn, hrunning]
  · rw [after_conn]
    exact hslots

theorem accounted_holds {o : Op} (ho : o.Holds p q) (hs : s.Balanced) : s.Accounted (some o) := by
  refine ⟨hs, ?_⟩
  intro m hm
  cases o <;> first | exact ho.elim | cases hm

/-- One such operation, with the reply that it had. -/
theorem wp_alikeStep {o : Op} {Q : o.Rep → Observed → Prop} (ho : o.Holds p q)
    (hb : s.Balanced) (hs : SlotsIn p q s.slots)
    (hQ : ∀ r t, KeepsOne s o r → Alike p q s t → Q r t) :
    wp mappingsContract (perform o) Q s := by
  refine wp_observe (accounted_holds ho hb) fun r t ha ht => ?_
  exact hQ r _ ha (alike_after ho hs ht)

theorem balanced_open (h : s.Open) (hone : s.maps.length ≤ 1) : s.Balanced := by
  unfold Observed.Balanced Observed.isOpen
  rw [h.1, h.2]
  exact hone

/-- An open connection with its one buffer. -/
structure Observed.Holding (s : Observed) : Prop where
  buffer : ∃ m, s.rxb.buffer = some m ∧ s.maps = [m]
  open_ : s.Open

theorem Observed.Holding.balanced (h : s.Holding) : s.Balanced := by
  obtain ⟨⟨m, -, hm⟩, hopen⟩ := h
  refine balanced_open hopen ?_
  rw [hm]
  exact Nat.le_refl 1

theorem Alike.holding (h : Alike p q s t) (hs : s.Holding) : t.Holding := by
  obtain ⟨⟨m, hbuffer, hm⟩, hopen⟩ := hs
  exact ⟨⟨m, h.buffer.trans hbuffer, h.maps.trans hm⟩, h.closed.trans hopen.1, h.quit.trans hopen.2⟩

theorem balanced_none (h : s.maps = []) : s.Balanced := by
  unfold Observed.Balanced
  rw [h]
  exact Nat.zero_le _

end Holding

/-! ## Plain descriptors -/

/-- While a handler of a plain descriptor runs. -/
structure Observed.Works (f : Fn) (s : Observed) : Prop where
  holding : s.Holding
  slots : PlainSlots s.slots
  running : s.running = some f

section Plain
variable {s : Observed} {n fd c : Nat} {f : Fn}

theorem Observed.Works.alike {t : Observed} (h : s.Works f)
    (ht : Alike (· = .bufferedRxfxn) (· = .bufferedTxfxn) s t) : t.Works f :=
  ⟨ht.holding h.holding, ht.slots, ht.running.trans h.running⟩

theorem works_step {o : Op} {Q : o.Rep → Observed → Prop}
    (ho : o.Holds (· = .bufferedRxfxn) (· = .bufferedTxfxn)) (h : s.Works f)
    (hQ : ∀ r t, KeepsOne s o r → Observed.Works f t → Q r t) :
    wp mappingsContract (perform o) Q s :=
  wp_alikeStep ho h.holding.balanced h.slots fun r t ha ht => hQ r t ha (h.alike ht)

theorem works_rxbuf {Q : RxBuf → Observed → Prop} (h : s.Works f) (hQ : Q s.rxb s) :
    wp mappingsContract (rxbuf c) Q s :=
  wp_loadRxbuf (accounted_holds (p := fun _ => True) (q := fun _ => True) trivial
    h.holding.balanced) fun _ => hQ

theorem works_cut (h : s.Works f) : mappingsContract.ok s none :=
  ⟨h.holding.balanced, fun _ hm => by cases hm⟩

/-- The callbacks do not close the descriptor, and return 0. -/
theorem works_callBuffered {kind : CbKind} {cb : Option Nat} {Q : Int → Observed → Prop}
    (hkind : kind = .rx ∨ kind = .tx) (h : s.Works f) (hQ : ∀ t : Observed, t.Works f → Q 0 t) :
    wp mappingsContract (callBuffered n kind cb fd c) Q s := by
  unfold callBuffered
  rw [wp_do]
  refine works_step trivial h fun _ t _ ht => ?_
  refine wp_loop (fun _ t => t.Works f) (fun _ _ ht => works_cut ht) ?_ n ht
  intro _ t ht
  obtain ⟨⟨hbuffer, hopen⟩, hslots, hrun⟩ := ht
  have ht : t.Works f := ⟨⟨hbuffer, hopen⟩, hslots, hrun⟩
  rw [wp_do]
  refine wp_observe ⟨ht.holding.balanced, fun _ hm => by cases hm⟩ fun a u ha hu => ?_
  simp only [Conn.next, Conn.client] at hu
  cases a with
  | advance k =>
    dsimp only at hu
    split at hu <;> cases hu
    rw [wp_do]
    exact works_step trivial ht fun _ v _ hv => hv
  | sslTx len =>
    cases hu
    exact ht
  | close => rcases hkind with rfl | rfl <;> cases ha
  | ret v =>
    cases hu
    have hv : v = 0 := by rcases hkind with rfl | rfl <;> exact of_decide_eq_true ha
    subst hv
    refine hQ _ ⟨⟨hbuffer, hopen.1, ?_⟩, hslots, hrun⟩
    show (t.quit || decide (0 ≠ (0 : Int))) = false
    rw [hopen.2]
    rfl

theorem works_rxback {Q : Int → Observed → Prop} (h : s.Works f)
    (hQ : ∀ t : Observed, t.Works f → Q 0 t) : wp mappingsContract (rxback n fd c) Q s := by
  unfold rxback
  rw [wp_do]
  refine works_rxbuf h ?_
  split
  · exact works_callBuffered (.inl rfl) h hQ
  · exact hQ s h

/-- A plain descriptor is armed again. -/
theorem works_restorefd {e : Events} {Q : Int → Observed → Prop} (h : s.Works f)
    (hf : f = .bufferedRxfxn ∨ f = .bufferedTxfxn) (hQ : ∀ t : Observed, t.Works f → Q 0 t) :
    wp mappingsContract (restorefd fd e) Q s := by
  unfold restorefd
  rw [wp_do]
  refine works_step trivial h fun ok t ha ht => ?_
  have hok : ok = true := by
    refine of_decide_eq_true ha ?_
    rw [h.running]
    rcases hf with rfl | rfl
    · exact .inl rfl
    · exact .inr rfl
  rw [if_pos hok]
  exact hQ t ht

/-- The larger mapping takes the place of the old one. -/
theorem works_growrxbuf {Q : Int → Observed → Prop} (h : s.Works f)
    (hQ : ∀ t : Observed, t.Works f → Q 0 t) : wp mappingsContract (growrxbuf c) Q s := by
  obtain ⟨⟨⟨m, hbuffer, hmaps⟩, hopen⟩, hslots, hrun⟩ := h
  have hbal : s.Balanced := Observed.Holding.balanced ⟨⟨m, hbuffer, hmaps⟩, hopen⟩
  unfold growrxbuf
  rw [wp_do]
  refine works_rxbuf ⟨⟨⟨m, hbuffer, hmaps⟩, hopen⟩, hslots, hrun⟩ ?_
  rw [wp_do]
  refine wp_observe ⟨hbal, fun _ hm => by cases hm⟩ fun page t ha ht => ?_
  cases page with
  | none => cases ha
  | some page =>
    simp only [Conn.next, Conn.modPages] at ht
    split at ht <;> cases ht
    have hone : page.ptr :: s.maps.filter (s.rxb.buffer ≠ some ·) = [page.ptr] := by
      rw [hbuffer, hmaps]
      simp
    dsimp only
    rw [wp_do]
    refine wp_storeRxbuf ⟨?_, fun _ hm => by cases hm⟩ ?_
    · refine balanced_open hopen ?_
      show (page.ptr :: s.maps.filter (s.rxb.buffer ≠ some ·)).length ≤ 1
      rw [hone]
      exact Nat.le_refl 1
    · exact hQ _ ⟨⟨⟨page.ptr, rfl, hone⟩, hopen⟩, hslots, hrun⟩

theorem works_bufferedTxfxn {Q : Unit → Observed → Prop} (h : s.Works .bufferedTxfxn)
    (hQ : ∀ t : Observed, t.Works .bufferedTxfxn → Q () t) :
    wp mappingsContract (bufferedTxfxn n fd c) Q s := by
  unfold bufferedTxfxn txback
  rw [wp_do, wp_do]
  refine works_rxbuf h ?_
  split
  · rw [wp_do]
    refine works_callBuffered (.inr rfl) h fun t ht => ?_
    rw [if_pos rfl]
    refine works_restorefd ht (.inr rfl) fun u hu => ?_
    rw [if_neg (by simp)]
    exact hQ u hu
  · exact hQ s h

theorem works_bufferedRxfxnFull {Q : Option Leave → Observed → Prop}
    (h : s.Works .bufferedRxfxn) (hQ : ∀ t : Observed, t.Works .bufferedRxfxn → Q none t) :
    wp mappingsContract (bufferedRxfxnFull n fd c) Q s := by
  unfold bufferedRxfxnFull
  rw [wp_do]
  refine works_rxback h fun t ht => ?_
  rw [if_neg (by simp), wp_do]
  refine works_rxbuf ht ?_
  split
  · rw [wp_do]
    refine works_growrxbuf ht fun u hu => ?_
    rw [if_neg (by simp)]
    exact hQ u hu
  · exact hQ t ht

/-- What is read is counted, in the buffer that there is. -/
theorem works_store {k : Nat} {Q : Unit → Observed → Prop} {rxb : RxBuf}
    (h : s.Works .bufferedRxfxn) (hrxb : rxb.buffer = s.rxb.buffer)
    (hQ : ∀ t : Observed, t.Works .bufferedRxfxn → Q () t) :
    wp mappingsContract (setRxbuf c { rxb with bufoff := k }) Q s := by
  obtain ⟨⟨⟨m, hbuffer, hmaps⟩, hopen⟩, hslots, hrun⟩ := h
  refine wp_storeRxbuf ⟨Observed.Holding.balanced ⟨⟨m, hbuffer, hmaps⟩, hopen⟩,
    fun _ hm => by cases hm⟩ ?_
  exact hQ _ ⟨⟨⟨m, hrxb.trans hbuffer, hmaps⟩, hopen⟩, hslots, hrun⟩

theorem works_bufferedRxfxnRead {Q : Unit ⊕ Leave → Observed → Prop}
    (h : s.Works .bufferedRxfxn)
    (hQ : ∀ out t, Observed.Works .bufferedRxfxn t → out ≠ .inr .brk → Q out t) :
    wp mappingsContract (bufferedRxfxnRead n fd c) Q s := by
  have again {e : Events} (t : Observed) (ht : t.Works .bufferedRxfxn) :
      wp mappingsContract (do
        let r ← restorefd fd e
        if r ≠ 0 then pure (.inr .brk) else pure (.inr .ret)) Q t := by
    rw [wp_do]
    refine works_restorefd ht (.inl rfl) fun u hu => ?_
    rw [if_neg (by simp)]
    exact hQ _ u hu (by simp)
  unfold bufferedRxfxnRead
  rw [wp_do]
  refine works_rxbuf h ?_
  rw [wp_do]
  refine wp_alikeStep trivial h.holding.balanced h.slots fun res t _ ht => ?_
  have htw : t.Works .bufferedRxfxn := h.alike ht
  split
  · rw [wp_do]
    exact works_store htw ht.buffer.symm fun u hu => hQ _ u hu (by simp)
  · split
    · rw [wp_do]
      refine works_callBuffered (.inl rfl) htw fun u hu => ?_
      rw [if_neg (by simp)]
      exact again u hu
    · rw [wp_do]
      refine works_step trivial htw fun e u ha hu => ?_
      split
      · rw [wp_do]
        refine works_rxback hu fun v hv => ?_
        rw [if_neg (by simp)]
        exact again v hv
      · rename_i hagain
        split
        · rename_i hintr
          rcases of_decide_eq_true ha with he | he
          · exact absurd he hagain
          · exact absurd he hintr
        · exact hQ _ u hu (by simp)

theorem works_bufferedRxfxn {Q : Unit → Observed → Prop} (h : s.Works .bufferedRxfxn)
    (hQ : ∀ t : Observed, t.Works .bufferedRxfxn → Q () t) :
    wp mappingsContract (bufferedRxfxn n fd c) Q s := by
  unfold bufferedRxfxn
  rw [wp_do]
  have read {t : Observed} (ht : t.Works .bufferedRxfxn) :
      wp mappingsContract (bufferedRxfxnRead n fd c)
        (fun x u => x.elim (fun _ => u.Works .bufferedRxfxn)
          fun out => wp mappingsContract (out.finish fd) Q u) t := by
    refine works_bufferedRxfxnRead ht fun out u hu hne => ?_
    rcases out with _ | _ | _
    · exact hu
    · exact absurd rfl hne
    · exact hQ u hu
  refine wp_loop (fun _ t => t.Works .bufferedRxfxn) (fun _ _ ht => works_cut ht) ?_ n h
  intro _ t ht
  rw [wp_do]
  refine works_rxbuf ht ?_
  split
  · rw [wp_do]
    exact works_bufferedRxfxnFull ht fun u hu => read hu
  · exact read ht

end Plain

/-! ## SSL connections that are shaking hands -/

/-- The slots until the handshake is done. -/
def ShakingSlots : EvSource → Prop := SlotsIn (· = .acceptContrxfxn) (· = .acceptConttxfxn)

/-- Between the handlers of a connection that never gets beyond its handshake. -/
def Observed.Shaking (s : Observed) : Prop :=
  ShakingSlots s.slots ∧ (s.Holding ∨ s.freed = true ∧ s.maps = [])

section Shaking
variable {p q : Fn → Prop} {s : Observed} {n fd sd c : Nat} {sc : CbFields} {Q : Unit → Observed → Prop}

theorem Observed.Shaking.balanced (h : s.Shaking) : s.Balanced := by
  rcases h.2 with h | ⟨-, h⟩
  · exact h.balanced
  · exact balanced_none h

theorem holding_step {o : Op} {Q : o.Rep → Observed → Prop} (ho : o.Holds p q)
    (h : s.Holding) (hs : SlotsIn p q s.slots)
    (hQ : ∀ r t, KeepsOne s o r → Observed.Holding t → SlotsIn p q t.slots → Q r t) :
    wp mappingsContract (perform o) Q s :=
  wp_alikeStep ho h.balanced hs fun r t ha ht => hQ r t ha (ht.holding h) ht.slots

theorem wp_released (h : s.Holding) (hs : SlotsIn p q s.slots)
    (hQ : ∀ t : Observed, SlotsIn p q t.slots → t.Open → t.freed = true →
      t.maps = [] → Q () t) :
    wp mappingsContract (freeSslCbstate c) Q s := by
  unfold freeSslCbstate freeRxbuffer
  rw [wp_do]
  refine holding_step trivial h hs fun sc t _ ht hts => ?_
  rw [wp_do]
  refine holding_step trivial ht hts fun _ u _ hu hus => ?_
  obtain ⟨⟨m, hbuffer, hmaps⟩, hopen⟩ := hu
  have hbal : u.Balanced := Observed.Holding.balanced ⟨⟨m, hbuffer, hmaps⟩, hopen⟩
  rw [wp_do, wp_do]
  refine wp_loadRxbuf ⟨hbal, fun _ hm => by cases hm⟩ fun _ => ?_
  rw [hbuffer]
  refine wp_observe ⟨hbal, ?_⟩ fun _ v _ hv => ?_
  · rintro _ ⟨⟩
    rw [hmaps]
    exact List.mem_singleton_self m
  · cases hv
    have hnone : u.maps.filter (some m ≠ some ·) = [] := by
      rw [hmaps]
      simp
    refine wp_observe ⟨balanced_none hnone, fun _ hm => by cases hm⟩ fun _ w _ hw => ?_
    cases hw
    exact hQ _ hus hopen rfl hnone

theorem shaking_freeAndClose (h : s.Holding) (hs : ShakingSlots s.slots)
    (hQ : ∀ t : Observed, t.Shaking → Q () t) : wp mappingsContract (freeAndClose c fd) Q s := by
  unfold freeAndClose
  rw [wp_do]
  refine wp_released h hs fun t ht _ hfreed hnone => ?_
  refine wp_observe ⟨balanced_none hnone, fun _ hm => by cases hm⟩ fun _ u _ hu => ?_
  cases hu
  exact hQ _ ⟨ht, .inr ⟨hfreed, hnone⟩⟩

theorem shaking_armed {e : Events} (h : s.Holding) (hs : ShakingSlots s.slots)
    (hQ : ∀ t : Observed, t.Shaking → Q () t) :
    wp mappingsContract (do
      let r ← restorefd fd e
      if r ≠ 0 then freeAndClose c fd else pure ()) Q s := by
  unfold restorefd
  rw [wp_do, wp_do]
  refine holding_step trivial h hs fun ok t _ ht hts => ?_
  cases ok with
  | true =>
    rw [if_pos rfl, wp_pure, if_neg (by simp)]
    exact hQ t ⟨hts, .inl ht⟩
  | false =>
    rw [if_neg (by simp), wp_pure, if_pos (by decide)]
    exact shaking_freeAndClose ht hts hQ

theorem shaking_setSlots {rx tx : Option Fn} {k : Prog Unit} (hrx : ∀ f ∈ rx, f = .acceptContrxfxn)
    (htx : ∀ f ∈ tx, f = .acceptConttxfxn) (h : s.Holding) (hs : ShakingSlots s.slots)
    (hk : ∀ t : Observed, t.Holding → ShakingSlots t.slots → wp mappingsContract k Q t) :
    wp mappingsContract (do
      setEvsourceRx fd rx
      setEvsourceTx fd tx
      k) Q s := by
  rw [wp_do]
  refine holding_step hrx h hs fun _ t _ ht hts => ?_
  rw [wp_do]
  exact holding_step htx ht hts fun _ u _ hu hus => hk u hu hus

theorem shaking_acceptContrxfxn (h : s.Holding) (hs : ShakingSlots s.slots)
    (hQ : ∀ t : Observed, t.Shaking → Q () t) :
    wp mappingsContract (acceptContrxfxn fd c) Q s := by
  unfold acceptContrxfxn
  rw [wp_do]
  refine holding_step trivial h hs fun sc t _ ht hts => ?_
  rw [wp_do]
  refine holding_step trivial ht hts fun ret u ha hu hus => ?_
  rw [if_neg (of_decide_eq_true ha), wp_do]
  refine holding_step trivial hu hus fun err v _ hv hvs => ?_
  cases err with
  | wantWrite =>
    refine shaking_setSlots ?_ ?_ hv hvs fun w hw hws => shaking_armed hw hws hQ
    · rintro _ ⟨⟩
    · rintro _ ⟨⟩
      rfl
  | wantRead => exact shaking_armed hv hvs hQ
  | other _ => exact shaking_freeAndClose hv hvs hQ

theorem shaking_acceptConttxfxn (h : s.Holding) (hs : ShakingSlots s.slots)
    (hQ : ∀ t : Observed, t.Shaking → Q () t) :
    wp mappingsContract (acceptConttxfxn fd c) Q s := by
  unfold acceptConttxfxn
  rw [wp_do]
  refine holding_step trivial h hs fun sc t _ ht hts => ?_
  rw [wp_do]
  refine holding_step trivial ht hts fun ret u ha hu hus => ?_
  rw [if_neg (of_decide_eq_true ha), wp_do]
  refine holding_step trivial hu hus fun err v _ hv hvs => ?_
  cases err with
  | wantRead =>
    refine shaking_setSlots (k := pure ()) ?_ ?_ hv hvs fun w hw hws => hQ w ⟨hws, .inl hw⟩
    · rintro _ ⟨⟩
      rfl
    · rintro _ ⟨⟩
  | wantWrite => exact hQ v ⟨hvs, .inl hv⟩
  | other _ => exact shaking_freeAndClose hv hvs hQ

/-! ### Accepting -/

/-- Accepting has failed, and the state has been freed. -/
def Observed.Dropped (s : Observed) : Prop := s.Open ∧ s.maps = []

theorem slotsIn_true (evs : EvSource) : SlotsIn (fun _ => True) (fun _ => True) evs :=
  ⟨fun _ _ => trivial, fun _ _ => trivial⟩

theorem wp_dropped {Q : Int → Observed → Prop} (h : s.Holding)
    (hQ : ∀ t : Observed, t.Dropped → Q (-1) t) :
    wp mappingsContract (do freeSslCbstate c; pure (-1)) Q s := by
  rw [wp_do]
  exact wp_released h (slotsIn_true _) fun t _ hopen _ hnone => hQ t ⟨hopen, hnone⟩

theorem accounted_registers {o : Op} (ho : o.registers) (hopen : s.Open)
    (hone : s.maps.length ≤ 1) : s.Accounted (some o) := by
  refine ⟨?_, ?_⟩
  · exact balanced_open hopen hone
  · intro m hm
    cases o <;> first | (cases hm; done) | cases ho

theorem shaking_sslRegister {rx tx : Option Fn} {Q : Int → Observed → Prop}
    (hrx : ∀ f ∈ rx, f = .acceptContrxfxn) (htx : ∀ f ∈ tx, f = .acceptConttxfxn)
    (h : s.Holding) (hok : ∀ t : Observed, t.Shaking → Q 0 t)
    (hfail : ∀ t : Observed, t.Dropped → Q (-1) t) :
    wp mappingsContract (sslRegister sd c rx tx) Q s := by
  obtain ⟨⟨m, hbuffer, hmaps⟩, hopen⟩ := h
  unfold sslRegister torqueAddfdUnbuffered
  rw [wp_do, if_neg (by omega)]
  refine registered_addFd (fun t o ho hopen hone => accounted_registers ho hopen hone) hopen
    (by rw [hmaps]; exact Nat.le_refl 1) ?_ ?_
  · intro e _ _
    rw [if_neg (by simp)]
    exact hok _ ⟨⟨hrx, htx⟩, .inl ⟨⟨m, hbuffer, hmaps⟩, hopen⟩⟩
  · intro t ht hrxb _ hopen
    rw [if_pos (by decide)]
    exact wp_dropped ⟨⟨m, (congrArg RxBuf.buffer hrxb).trans hbuffer, ht.trans hmaps⟩, hopen⟩ hfail

theorem shaking_sslHandshake {ssl : Option Nat} {Q : Int → Observed → Prop} (h : s.Holding)
    (hok : ∀ t : Observed, t.Shaking → Q 0 t) (hfail : ∀ t : Observed, t.Dropped → Q (-1) t) :
    wp mappingsContract (sslHandshake sd c ssl sc) Q s := by
  unfold sslHandshake
  rw [wp_do]
  refine holding_step trivial h (slotsIn_true _) fun ret t ha ht _ => ?_
  rw [if_neg (of_decide_eq_true ha), wp_do]
  refine holding_step trivial ht (slotsIn_true _) fun err u _ hu _ => ?_
  cases err with
  | wantWrite =>
    refine shaking_sslRegister ?_ ?_ hu hok hfail
    · rintro _ ⟨⟩
    · rintro _ ⟨⟩
      rfl
  | wantRead =>
    refine shaking_sslRegister ?_ ?_ hu hok hfail
    · rintro _ ⟨⟩
      rfl
    · rintro _ ⟨⟩
  | other _ => exact wp_dropped hu hfail

theorem shaking_sslAcceptInternal {Q : Int → Observed → Prop} (h : s.Dropped)
    (hok : ∀ t : Observed, t.Shaking → Q 0 t) (hfail : ∀ t : Observed, t.Dropped → Q (-1) t) :
    wp mappingsContract (sslAcceptInternal sd sc) Q s := by
  obtain ⟨hopen, hnone⟩ := h
  unfold sslAcceptInternal createSslCbstate
  rw [wp_do, wp_do]
  refine wp_alikeStep trivial (balanced_none hnone) (slotsIn_true _) fun r t _ ht => ?_
  have hnone : t.maps = [] := ht.maps.trans hnone
  have hopen : t.Open := ⟨ht.closed.trans hopen.1, ht.quit.trans hopen.2⟩
  cases r with
  | none => exact hfail t ⟨hopen, hnone⟩
  | some c =>
    dsimp only
    rw [wp_do]
    refine registered_initialize (fun t o ho hopen hone => accounted_registers ho hopen hone)
      hopen hnone ?_ ?_
    · intro m size bytes
      have hu : Observed.Holding { t with
          rxb := { t.rxb with buffer := some m, buftot := size, bufoff := 0, bufate := 0 },
          mem := bytes, maps := [m] } := ⟨⟨m, rfl, rfl⟩, hopen⟩
      rw [if_pos rfl, wp_do]
      refine holding_step trivial hu (slotsIn_true _) fun _ v _ hv _ => ?_
      rw [wp_pure]
      dsimp only
      rw [wp_do]
      refine holding_step trivial hv (slotsIn_true _) fun ssl w _ hw _ => ?_
      cases ssl with
      | none => exact wp_dropped hw hfail
      | some ssl =>
        dsimp only
        rw [wp_do]
        refine holding_step trivial hw (slotsIn_true _) fun f x _ hx _ => ?_
        rw [wp_do]
        refine holding_step trivial hx (slotsIn_true _) fun _ y _ hy _ => ?_
        rw [wp_do]
        refine holding_step trivial hy (slotsIn_true _) fun r z _ hz _ => ?_
        split
        · exact wp_dropped hz hfail
        · exact shaking_sslHandshake hz hok hfail
    · intro size
      rw [if_neg (by decide), wp_do]
      refine wp_alikeStep trivial (balanced_none hnone) (slotsIn_true _) fun _ v _ hv => ?_
      exact hfail v ⟨⟨hv.closed.trans hopen.1, hv.quit.trans hopen.2⟩, hv.maps.trans hnone⟩

end Shaking

/-! ## Events -/

section Session
variable {s : Observed} {n fd : Nat}

/-- A handler runs, and leaves a state in which the descriptor counts as what it is. -/
theorem accounted_slot {slot : Option Fn} {st : CbState} {Q : Unit → Observed → Prop}
    (hb : s.Balanced) (hnone : slot = none → Q () s)
    (hrun : ∀ f ∈ slot, s.freed = false →
      wp mappingsContract (f.run n fd st) (fun _ t => t.Balanced ∧ Q () { t with running := none })
        { s with running := some f }) :
    wp mappingsContract (handleSlot n fd slot st) Q s := by
  refine wp_slot hnone fun f hf => ?_
  refine wp_observe ⟨hb, fun _ hm => by cases hm⟩ fun _ t _ ht => ?_
  obtain ⟨hfreed, rfl⟩ := enter_cases ht
  refine wp_mono ?_ (hrun f hf hfreed)
  intro _ u hu
  refine wp_observe ⟨hu.1, fun _ hm => by cases hm⟩ fun _ v _ hv => ?_
  cases hv
  exact hu.2

theorem works_rx {st : CbState} {Q : Unit → Observed → Prop} (h : s.Works .bufferedRxfxn)
    (hQ : ∀ t : Observed, t.Works .bufferedRxfxn → Q () t) :
    wp mappingsContract (Fn.bufferedRxfxn.run n fd st) Q s := by
  cases st with
  | client v => exact works_cut h
  | object c => exact works_bufferedRxfxn h hQ

theorem works_tx {st : CbState} {Q : Unit → Observed → Prop} (h : s.Works .bufferedTxfxn)
    (hQ : ∀ t : Observed, t.Works .bufferedTxfxn → Q () t) :
    wp mappingsContract (Fn.bufferedTxfxn.run n fd st) Q s := by
  cases st with
  | client v => exact works_cut h
  | object c => exact works_bufferedTxfxn h hQ

theorem accounted_plainEvents (h : s.Holding) (hs : PlainSlots s.slots) :
    wp mappingsContract (handleEvents n fd) (fun _ t => t.Accounted none) s := by
  refine wp_eventLoop (I := fun t : Observed => t.Holding ∧ PlainSlots t.slots)
    (fun _ ht => ⟨ht.1.balanced, fun _ hm => by cases hm⟩) (fun t ht => ?_) (fun t ht => ?_)
    (fun t ht => ?_) ⟨h, hs⟩
  · refine wp_observe ⟨ht.1.balanced, fun _ hm => by cases hm⟩ fun e u _ hu => ?_
    obtain ⟨-, -, rfl⟩ := event_cases hu
    exact ⟨⟨ht.1.buffer, ht.1.open_⟩, ht.2⟩
  · refine wp_loadEvsource ⟨ht.1.balanced, fun _ hm => by cases hm⟩ ?_
    refine accounted_slot ht.1.balanced (fun _ => ht) fun f hf _ => ?_
    cases ht.2.rx f hf
    refine works_rx ⟨⟨ht.1.buffer, ht.1.open_⟩, ht.2, rfl⟩ fun v hv => ?_
    exact ⟨hv.holding.balanced, ⟨hv.holding.buffer, hv.holding.open_⟩, hv.slots⟩
  · refine wp_loadEvsource ⟨ht.1.balanced, fun _ hm => by cases hm⟩ ?_
    refine accounted_slot ht.1.balanced (fun _ => ht) fun f hf _ => ?_
    cases ht.2.tx f hf
    refine works_tx ⟨⟨ht.1.buffer, ht.1.open_⟩, ht.2, rfl⟩ fun v hv => ?_
    exact ⟨hv.holding.balanced, ⟨hv.holding.buffer, hv.holding.open_⟩, hv.slots⟩

theorem shaking_rx {st : CbState} {Q : Unit → Observed → Prop} (h : s.Holding)
    (hs : ShakingSlots s.slots) (hQ : ∀ t : Observed, t.Shaking → Q () t) :
    wp mappingsContract (Fn.acceptContrxfxn.run n fd st) Q s := by
  cases st with
  | client v => exact ⟨h.balanced, fun _ hm => by cases hm⟩
  | object c => exact shaking_acceptContrxfxn h hs hQ

theorem shaking_tx {st : CbState} {Q : Unit → Observed → Prop} (h : s.Holding)
    (hs : ShakingSlots s.slots) (hQ : ∀ t : Observed, t.Shaking → Q () t) :
    wp mappingsContract (Fn.acceptConttxfxn.run n fd st) Q s := by
  cases st with
  | client v => exact ⟨h.balanced, fun _ hm => by cases hm⟩
  | object c => exact shaking_acceptConttxfxn h hs hQ

theorem Observed.Shaking.left {t : Observed} (h : t.Shaking) :
    Observed.Shaking { t with running := none } :=
  ⟨h.1, h.2.imp_left fun h => ⟨h.buffer, h.open_⟩⟩

theorem accounted_sslEvents (h : s.Shaking) :
    wp mappingsContract (handleEvents n fd) (fun _ t => t.Accounted none) s := by
  have held (t : Observed) (ht : t.Shaking) (hfreed : t.freed = false) : t.Holding := by
    rcases ht.2 with h | ⟨hgone, -⟩
    · exact h
    · rw [hfreed] at hgone
      cases hgone
  refine wp_eventLoop (I := Observed.Shaking)
    (fun _ ht => ⟨ht.balanced, fun _ hm => by cases hm⟩) (fun t ht => ?_) (fun t ht => ?_)
    (fun t ht => ?_) h
  · refine wp_observe ⟨ht.balanced, fun _ hm => by cases hm⟩ fun e u _ hu => ?_
    obtain ⟨-, -, rfl⟩ := event_cases hu
    exact ⟨ht.1, ht.2.imp_left fun h => ⟨h.buffer, h.open_⟩⟩
  · refine wp_loadEvsource ⟨ht.balanced, fun _ hm => by cases hm⟩ ?_
    refine accounted_slot ht.balanced (fun _ => ht) fun f hf hfreed => ?_
    cases ht.1.rx f hf
    have hh := held t ht hfreed
    exact shaking_rx ⟨hh.buffer, hh.open_⟩ ht.1 fun v hv => ⟨hv.balanced, hv.left⟩
  · refine wp_loadEvsource ⟨ht.balanced, fun _ hm => by cases hm⟩ ?_
    refine accounted_slot ht.balanced (fun _ => ht) fun f hf hfreed => ?_
    cases ht.1.tx f hf
    have hh := held t ht hfreed
    exact shaking_tx ⟨hh.buffer, hh.open_⟩ ht.1 fun v hv => ⟨hv.balanced, hv.left⟩

theorem accounted_session (n fd : Nat) (setup : Setup) :
    wp mappingsContract (setup.session n fd) (fun _ t => t.Accounted none) {} := by
  have dropped {t : Observed} (hnone : t.maps = []) : t.Accounted none :=
    ⟨balanced_none hnone, fun _ hm => by cases hm⟩
  cases setup with
  | plain rx tx state =>
    unfold Setup.session plainSession
    dsimp only
    rw [wp_do]
    refine registered_addfd (fun t o ho hopen hone => accounted_registers ho hopen hone) ?_
      ⟨rfl, rfl⟩ rfl ?_ ?_
    · intro t m k hopen hm
      refine ⟨?_, ?_⟩
      · refine balanced_open hopen ?_
        rw [hm]
        exact Nat.le_refl 1
      · rintro _ ⟨⟩
        rw [hm]
        exact List.mem_singleton_self m
    · intro t ht
      rw [if_pos rfl]
      exact accounted_plainEvents ⟨ht.buffer, ht.open_⟩ ht.plainSlots
    · intro v t hv _ hnone
      rw [if_neg hv]
      exact dropped hnone
  | ssl sc =>
    unfold Setup.session sslSession
    dsimp only
    rw [wp_do]
    refine shaking_sslAcceptInternal ⟨⟨rfl, rfl⟩, rfl⟩ ?_ ?_
    · intro t ht
      rw [if_neg (by simp)]
      exact accounted_sslEvents ht
    · intro t ht
      rw [if_pos (by decide)]
      refine wp_observe ⟨balanced_none ht.2, fun _ hm => by cases hm⟩ fun _ u _ hu => ?_
      cases hu
      exact dropped ht.2

/-- Any number of connections side by side, registered with `torque_addfd` or
accepted for an SSL listener, in the runs in which no plain descriptor is closed
and no SSL handshake is done: the mappings held are no more than the open
connections, one for each, and only mappings that are held are given back. -/
theorem sessions_hold_one (n : Nat) (fds : Nat → Nat) (setups : Nat → Setup)
    (run : List (Nat × ((o : Op) → o.Rep)))
    (hc : Meets (family (Prog.step Observed.next)) (fun xs a => Prog.Assume KeepsOne (xs a.1) a.2)
      (fun i => ({}, (setups i).session n (fds i))) run) :
    Always (family (Prog.step Observed.next))
      (fun xs => (∀ i, (xs i).1.Accounted (xs i).2.op) ∧
        ∀ I : Finset Nat, ∑ i ∈ I, (xs i).1.maps.length ≤ (I.filter fun i => (xs i).1.isOpen).card)
      (fun i => ({}, (setups i).session n (fds i))) run := by
  refine (always_family_of_wp (K := mappingsContract) (fun _ _ _ _ ha ht => ⟨ha, ht⟩)
    (fun i => accounted_session n (fds i) (setups i)) hc).mono ?_
  intro xs h
  have hacc : ∀ i, (xs i).1.Accounted (xs i).2.op := by
    intro i
    have hi := h i
    rcases hx : xs i with ⟨s, _ | _ | _⟩ <;> rw [hx] at hi <;> exact hi
  refine ⟨hacc, fun I => ?_⟩
  calc ∑ i ∈ I, (xs i).1.maps.length
      ≤ ∑ i ∈ I, if (xs i).1.isOpen then 1 else 0 := Finset.sum_le_sum fun i _ => (hacc i).1
    _ = (I.filter fun i => (xs i).1.isOpen).card := (Finset.card_filter _ _).symm

/-- A plain descriptor and an SSL connection. -/
def twoSetups (i : Nat) : Setup :=
  if i = 0 then .plain (some 1) none 0 else .ssl { rxfxn := some 1 }

/-- The replies of one of two connections, to be put in the order of a run. -/
def repliesOf (i : Nat) (answers : List Answer) : List (Nat × ((o : Op) → o.Rep)) :=
  (script Observed.next Observed.loads 60 ({}, (twoSetups i).session 9 i) answers).map (i, ·)

/-- Input for one connection, and an error in the handshake of the other. -/
theorem sessions_hold_one_two :
    Always (family (Prog.step Observed.next))
      (fun xs => (∀ i, (xs i).1.Accounted (xs i).2.op) ∧
        ∀ I : Finset Nat, ∑ i ∈ I, (xs i).1.maps.length ≤ (I.filter fun i => (xs i).1.isOpen).card)
      (fun i => ({}, (twoSetups i).session 9 i))
      (repliesOf 0 [.ptr (some 0), .page 4 (some ⟨0, [0, 0, 0, 0]⟩), .flag true, .events EVREAD,
          .io (.bytes [1, 2]), .io (.ret (-1)), .errno .eagain, .act (.advance 2), .act (.ret 0),
          .flag true] ++
        repliesOf 1 [.ptr (some 0), .page 4 (some ⟨1, [0, 0, 0, 0]⟩), .ptr (some 9), .int 1,
          .int (-1), .err .wantRead, .flag true, .events EVREAD, .int (-1), .err (.other 1)]) :=
  sessions_hold_one 9 (fun i => i) twoSetups _ (by decide)

/-- The handshake is done, and the connection has two mappings. -/
theorem sessions_hold_two :
    ¬ Always (family (Prog.step Observed.next))
      (fun xs => (∀ i, (xs i).1.Accounted (xs i).2.op) ∧
        ∀ I : Finset Nat, ∑ i ∈ I, (xs i).1.maps.length ≤ (I.filter fun i => (xs i).1.isOpen).card)
      (fun i => ({}, (twoSetups i).session 9 i)) (repliesOf 1 (connected [])) := by
  intro h
  have hone := h.mono (Q := fun xs => (xs 1).1.Balanced) fun xs hx => (hx.1 1).1
  revert hone
  decide

end Session

end Libtorque
