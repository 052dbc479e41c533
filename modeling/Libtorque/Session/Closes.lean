import Libtorque.Session.Observed

/-! # Who closes a descriptor

A buffered callback returns -1 exactly when it has closed its descriptor.
`buffered_rxfxn` then leaves it alone; `buffered_txfxn` and the handlers of SSL
connections close it again. So does the write handler of an SSL connection that
`handle_event` calls after the read handler has freed and closed it: the runs here
go on where freed memory is used. -/
namespace Libtorque
open Lib

/-- A connection whose handlers do not stop at memory that they have freed, and
find anything there. -/
def Conn.onward (s : Conn) : (o : Op) → o.Rep → Option Conn
  | .enter f _ _, _ => some { s with running := some f }
  | .rxbuf _, rxb => if s.freed ∨ rxb = s.rxb then some s else none
  | .setRxbuf _ rxb, _ => some { s with rxb := rxb }
  | .rxbufferAdvance _ n, _ => some { s with toStream := s.toStream.advance n }
  | .fields _, f => if s.freed ∨ f = s.fields then some s else none
  | .setFields _ f, _ => some { s with fields := f }
  | o, r => s.next o r

def Observed.onward (s : Observed) (o : Op) (r : o.Rep) : Option Observed :=
  (s.toConn.onward o r).map fun t => s.after t o r

/-- What the rule asks of a callback, which closes its descriptor once at most. -/
def FollowsRule (s : Observed) : (o : Op) → o.Rep → Bool
  | .client _, .close => ¬ s.mine
  | .client _, .ret v => v = if s.mine then -1 else 0
  | _, _ => true

/-- Only `rx` of a plain descriptor may report it as closed, and `tx` is not
called for a descriptor that the read handler's event has closed, nor a handler
for a connection that it has freed. -/
def LeavesClosing (s : Observed) : (o : Op) → o.Rep → Bool
  | .enter .., _ => ¬ s.freed
  | .callback .tx _ _, _ => ¬ s.closed
  | .client kind, .ret v => kind ≠ .rx → v = 0
  | _, _ => true

def Op.closes : Op → Bool
  | .close _ => true
  | _ => false

/-- Nobody closes a descriptor that is closed. -/
def closesContract : Contract Op Op.Rep Observed :=
  .of Observed.onward (fun s o => o.any Op.closes → s.closed = false)
    fun s o r => FollowsRule s o r && LeavesClosing s o r

theorem wp_onward {s : Observed} {o : Op} {Q : o.Rep → Observed → Prop}
    (hP : o.closes → s.closed = false)
    (h : ∀ r t, (FollowsRule s o r && LeavesClosing s o r) = true → s.toConn.onward o r = some t →
      Q r (s.after t o r)) : wp closesContract (perform o) Q s := by
  refine wp_op hP ?_
  intro r t hstep
  obtain ⟨ha, ht⟩ := hstep
  obtain ⟨u, hu, rfl⟩ := Option.map_eq_some_iff.mp ht
  exact h r u ha hu

theorem onward_rxbuf {s : Observed} {c : Nat} {Q : RxBuf → Observed → Prop} (hQ : ∀ rxb, Q rxb s) :
    wp closesContract (rxbuf c) Q s := by
  refine wp_onward (fun he => by cases he) fun rxb t _ ht => ?_
  simp only [Conn.onward] at ht
  split at ht <;> cases ht
  exact hQ rxb

theorem onward_evsource {s : Observed} {fd : Nat} {Q : EvSource → Observed → Prop} (hQ : Q s.slots s) :
    wp closesContract (evsource fd) Q s := by
  refine wp_onward (fun he => by cases he) fun r t _ ht => ?_
  obtain ⟨rfl, rfl⟩ := evsource_cases ht
  exact hQ

/-! ## What most operations keep -/

/-- Operations other than closing, and other than those of a callback. -/
def Op.Keeps (p q : Fn → Prop) : Op → Prop
  | .close _ | .callback .. | .client _ => False
  | .setEvsourceRx _ f => ∀ g ∈ f, p g
  | .setEvsourceTx _ f => ∀ g ∈ f, q g
  | _ => True

structure Kept (p q : Fn → Prop) (s t : Observed) : Prop where
  closed : t.closed = s.closed
  mine : t.mine = s.mine
  calling : t.calling = s.calling
  slots : SlotsIn p q t.slots

section Keeping
variable {p q : Fn → Prop} {s t u : Observed} {n fd c : Nat}

theorem Kept.trans (h : Kept p q s t) (h' : Kept p q t u) : Kept p q s u :=
  ⟨h'.closed.trans h.closed, h'.mine.trans h.mine, h'.calling.trans h.calling, h'.slots⟩

theorem next_kept {s t : Conn} {o : Op} {r : o.Rep} (ho : o.Keeps p q) (h : s.next o r = some t)
    (hs : SlotsIn p q s.slots) :
    t.closed = s.closed ∧ t.calling = s.calling ∧ SlotsIn p q t.slots := by
  by_cases haside : o.aside
  · have hlink := next_aside haside h
    rw [hlink]
    exact ⟨rfl, rfl, hs⟩
  · cases o <;> simp only [Op.aside, not_true_eq_false] at haside <;>
      simp only [Op.Keeps] at ho <;>
      simp only [Conn.next, Option.some.injEq] at h
    case setEvsourceRx =>
      cases h
      exact ⟨rfl, rfl, ho, hs.tx⟩
    case setEvsourceTx =>
      cases h
      exact ⟨rfl, rfl, hs.rx, ho⟩
    case setEvsourceState =>
      cases h
      exact ⟨rfl, rfl, hs.rx, hs.tx⟩
    case epollCtl =>
      split at h
      · split at h <;> cases h
        exact ⟨rfl, rfl, hs⟩
      · cases h
        exact ⟨rfl, rfl, hs⟩
    all_goals
      first
      | (subst h; exact ⟨rfl, rfl, hs⟩)
      | (split at h <;> cases h; exact ⟨rfl, rfl, hs⟩)

theorem onward_kept {s t : Conn} {o : Op} {r : o.Rep} (ho : o.Keeps p q)
    (h : s.onward o r = some t) (hs : SlotsIn p q s.slots) :
    t.closed = s.closed ∧ t.calling = s.calling ∧ SlotsIn p q t.slots := by
  unfold Conn.onward at h
  split at h
  case h_7 => exact next_kept ho h hs
  all_goals
    first
    | (cases h; exact ⟨rfl, rfl, hs⟩)
    | (split at h <;> cases h; exact ⟨rfl, rfl, hs⟩)

theorem after_mine {o : Op} {r : o.Rep} {v : Conn} (ho : o.Keeps p q) :
    (s.after v o r).mine = s.mine := by
  unfold Observed.after
  split <;> first | rfl | exact ho.elim

/-- Programs of such operations keep to the contract. -/
theorem wp_kept {α : Type} {x : Prog α} {Q : α → Observed → Prop} (hx : x.Only (Op.Keeps p q))
    (hs : SlotsIn p q s.slots) (hQ : ∀ a t, Kept p q s t → Q a t) :
    wp closesContract x Q s := by
  refine wp_mono (fun a t ht => hQ a t ht) (wp_only (I := Kept p q s) hx ?_ ?_ ?_ ?_)
  · intro t _ he
    cases he
  · intro o t ho _ he
    cases o <;> first | exact ho.elim | cases he
  · intro o r t u ho ht hstep
    obtain ⟨-, hu⟩ := hstep
    obtain ⟨v, hv, rfl⟩ := Option.map_eq_some_iff.mp hu
    obtain ⟨hclosed, hcalling, hslots⟩ := onward_kept ho hv ht.slots
    refine ht.trans ⟨?_, after_mine ho, ?_, ?_⟩
    · rw [after_conn, hclosed]
    · rw [after_conn, hcalling]
    · rw [after_conn]
      exact hslots
  · exact ⟨rfl, rfl, rfl, hs⟩

theorem only_restorefd {e : Events} : (restorefd fd e).Only (Op.Keeps p q) :=
  only_do (only_perform trivial) fun ok => by cases ok <;> exact only_pure

theorem only_initializeRxbuffer : (initializeRxbuffer c).Only (Op.Keeps p q) := by
  refine only_do (only_perform trivial) fun rxb => only_do (only_perform trivial) fun r => ?_
  obtain ⟨size, _ | page⟩ := r
  · exact only_do (only_perform trivial) fun _ => only_pure
  · exact only_do (only_perform trivial) fun _ => only_pure

theorem only_setSlots {rx tx : Option Fn} {α : Type} {x : Prog α} (hrx : ∀ f ∈ rx, p f)
    (htx : ∀ f ∈ tx, q f) (hx : x.Only (Op.Keeps p q)) :
    Prog.Only (Op.Keeps p q) (do
      setEvsourceRx fd rx
      setEvsourceTx fd tx
      x) :=
  only_do (only_perform hrx) fun _ => only_do (only_perform htx) fun _ => hx

theorem only_addFdToEvhandler {sd : Int} {rx tx : Option Fn} {v : CbState} (hrx : ∀ f ∈ rx, p f)
    (htx : ∀ f ∈ tx, q f) : (addFdToEvhandler sd rx tx v EVONESHOT).Only (Op.Keeps p q) := by
  unfold addFdToEvhandler
  refine only_do (only_perform trivial) fun size => ?_
  split
  · exact only_pure
  · refine only_do ?_ fun _ => only_do ?_ fun r => ?_
    · exact only_setSlots hrx htx (only_perform trivial)
    · unfold addFdEvent
      rw [if_neg (by decide)]
      exact only_do (only_perform trivial) fun ok => by cases ok <;> exact only_pure
    · split <;> exact only_pure

theorem wp_closeOnce {Q : Unit → Observed → Prop} (h : s.closed = false)
    (hQ : ∀ t : Observed, t.slots = s.slots → t.freed = s.freed → Q () t) :
    wp closesContract (close fd) Q s := by
  refine wp_onward (fun _ => h) fun _ t _ ht => ?_
  cases ht
  exact hQ _ rfl rfl

end Keeping

/-! ## The client's callbacks -/

/-- A callback of either kind of connection, which sends as `send` does. -/
def clientCall (n : Nat) (kind : CbKind) (f : Option Nat) (fd c : Nat) (send : Int → Prog Unit) :
    Prog Int := do
  perform (.callback kind f fd)
  loop n () fun _ => do
    match ← perform (.client kind) with
    | .advance s =>
      perform (.rxbufferAdvance c s)
      pure (.inl ())
    | .sslTx len =>
      send len
      pure (.inl ())
    | .close =>
      close fd
      pure (.inl ())
    | .ret v => pure (.inr v)

section Callbacks
variable {p q : Fn → Prop} {s : Observed} {n fd c : Nat} {kind : CbKind} {cb : Option Nat}
  {Q : Int → Observed → Prop}

theorem callBuffered_eq :
    callBuffered n kind cb fd c = clientCall n kind cb fd c fun _ => pure () := by
  unfold callBuffered clientCall
  congr
  funext _
  congr
  funext _
  congr
  funext a
  cases a <;> rfl

theorem callSsl_eq :
    callSsl n kind cb fd c = clientCall n kind cb fd c fun len => (do
      let _ ← sslTx n fd c len
      pure ()) := by
  unfold callSsl clientCall
  congr
  funext _
  congr
  funext _
  congr
  funext a
  cases a with
  | sslTx len =>
    dsimp only
    exact (Lib.Prog.bind_assoc (sslTx n fd c len) (fun _ => .ret ())
      fun _ => (.ret (.inl ()) : Prog (Unit ⊕ Int))).symm
  | _ => rfl

/-- A callback that returns 0 has not closed the descriptor, and only `rx` of a
plain descriptor returns anything else. -/
theorem closes_clientCall {send : Int → Prog Unit} (hsend : ∀ len, (send len).Only (Op.Keeps p q))
    (hs : SlotsIn p q s.slots) (hopen : kind ≠ .tx → s.closed = false)
    (hQ : ∀ v t, SlotsIn p q t.slots → (v = 0 → t.closed = false) →
      (kind ≠ .rx → v = 0) → Q v t) :
    wp closesContract (clientCall n kind cb fd c send) Q s := by
  unfold clientCall
  rw [wp_do]
  refine wp_onward (fun he => by cases he) fun _ t ha ht => ?_
  replace ht : s.toConn.next (.callback kind cb fd) () = some t := ht
  obtain ⟨-, rfl⟩ := callback_cases ht
  have hopen : s.closed = false := by
    by_cases hkind : kind = .tx
    · subst hkind
      simpa [FollowsRule, LeavesClosing] using ha
    · exact hopen hkind
  refine wp_loop (fun _ (t : Observed) => SlotsIn p q t.slots ∧ t.closed = t.mine ∧
    t.calling = some kind) (fun _ _ _ he => by cases he) ?_ n ⟨hs, hopen, rfl⟩
  intro _ t ht
  obtain ⟨hslots, hmine, hcalling⟩ := ht
  rw [wp_do]
  refine wp_onward (fun he => by cases he) fun a u ha hu => ?_
  replace hu : t.toConn.client a = some u := hu
  unfold Conn.client at hu
  have keep {x : Prog Unit} (v : Observed) (hx : x.Only (Op.Keeps p q))
      (hv : SlotsIn p q v.slots ∧ v.closed = v.mine ∧ v.calling = some kind) :
      wp closesContract x (fun _ t => SlotsIn p q t.slots ∧ t.closed = t.mine ∧
        t.calling = some kind) v := by
    refine wp_kept hx hv.1 fun _ w hw => ⟨hw.slots, ?_, hw.calling.trans hv.2.2⟩
    rw [hw.closed, hw.mine, hv.2.1]
  cases a with
  | advance k =>
    dsimp only at hu
    split at hu <;> cases hu
    rw [wp_do]
    exact keep _ (only_perform trivial) ⟨hslots, hmine, hcalling⟩
  | sslTx len =>
    cases hu
    rw [wp_do]
    exact keep _ (hsend len) ⟨hslots, hmine, hcalling⟩
  | close =>
    cases hu
    have hnot : t.mine = false := by simpa [FollowsRule, LeavesClosing] using ha
    rw [wp_do]
    refine wp_onward (fun _ => hmine.trans hnot) fun _ v _ hv => ?_
    cases hv
    refine ⟨hslots, ?_, hcalling⟩
    show true = t.calling.isSome
    rw [hcalling]
    rfl
  | ret v =>
    cases hu
    simp only [FollowsRule, LeavesClosing, Bool.and_eq_true, decide_eq_true_eq] at ha
    obtain ⟨hv, hzero⟩ := ha
    refine hQ v _ hslots ?_ hzero
    intro hz
    show t.closed = false
    rw [hmine]
    cases hm : t.mine with
    | false => rfl
    | true =>
      rw [hm, hz] at hv
      cases hv

end Callbacks

/-! ## Plain descriptors -/

section Plain
variable {s : Observed} {n fd c : Nat}

theorem closes_callBuffered {kind : CbKind} {cb : Option Nat} {Q : Int → Observed → Prop}
    (hs : PlainSlots s.slots) (hopen : kind ≠ .tx → s.closed = false)
    (hQ : ∀ v t, PlainSlots t.slots → (v = 0 → t.closed = false) → (kind ≠ .rx → v = 0) → Q v t) :
    wp closesContract (callBuffered n kind cb fd c) Q s := by
  rw [callBuffered_eq]
  exact closes_clientCall (fun _ => only_pure) hs hopen hQ

theorem closes_rxback {Q : Int → Observed → Prop} (hs : PlainSlots s.slots)
    (hopen : s.closed = false)
    (hQ : ∀ v t, PlainSlots t.slots → (v = 0 → t.closed = false) → Q v t) :
    wp closesContract (rxback n fd c) Q s := by
  unfold rxback
  rw [wp_do]
  refine onward_rxbuf fun _ => ?_
  split
  · exact closes_callBuffered hs (fun _ => hopen) fun v t ht hv _ => hQ v t ht hv
  · exact hQ 0 s hs fun _ => hopen

/-- Called for a descriptor that the read handler has closed, too, but then
with nothing to do. -/
theorem closes_bufferedTxfxn {Q : Unit → Observed → Prop} (hs : PlainSlots s.slots)
    (hQ : ∀ t : Observed, PlainSlots t.slots → Q () t) :
    wp closesContract (bufferedTxfxn n fd c) Q s := by
  unfold bufferedTxfxn txback
  rw [wp_do, wp_do]
  refine onward_rxbuf fun _ => ?_
  split
  · rw [wp_do]
    refine closes_callBuffered hs (fun hne => absurd rfl hne) fun r t ht hopen hzero => ?_
    have hz : r = 0 := hzero (by decide)
    rw [if_pos hz]
    refine wp_kept only_restorefd ht fun v u hu => ?_
    split
    · refine wp_closeOnce (hu.closed.trans (hopen hz)) fun w hw _ => hQ w ?_
      rw [hw]
      exact hu.slots
    · exact hQ u hu.slots
  · exact hQ s hs

theorem only_growrxbuf {p q : Fn → Prop} : (growrxbuf c).Only (Op.Keeps p q) := by
  refine only_do (only_perform trivial) fun rxb => only_do (only_perform trivial) fun page => ?_
  cases page with
  | none => exact only_pure
  | some page => exact only_do (only_perform trivial) fun _ => only_pure

/-- How the read handler's loop is left: a descriptor that is to be closed is
not closed yet. -/
def LeftOpen (out : Leave) (t : Observed) : Prop :=
  PlainSlots t.slots ∧ (out = .brk → t.closed = false)

theorem closes_bufferedRxfxnFull {Q : Option Leave → Observed → Prop} (hs : PlainSlots s.slots)
    (hopen : s.closed = false)
    (hgo : ∀ t : Observed, PlainSlots t.slots → t.closed = false → Q none t)
    (hend : ∀ out t, LeftOpen out t → Q (some out) t) :
    wp closesContract (bufferedRxfxnFull n fd c) Q s := by
  unfold bufferedRxfxnFull
  rw [wp_do]
  refine closes_rxback hs hopen fun cb t ht hcb => ?_
  split
  · exact hend .ret t ⟨ht, fun he => by cases he⟩
  · rename_i hz
    have hopen := hcb (not_not.mp hz)
    rw [wp_do]
    refine onward_rxbuf fun _ => ?_
    split
    · rw [wp_do]
      refine wp_kept only_growrxbuf ht fun r u hu => ?_
      split
      · exact hend .brk u ⟨hu.slots, fun _ => hu.closed.trans hopen⟩
      · exact hgo u hu.slots (hu.closed.trans hopen)
    · exact hgo t ht hopen

theorem closes_pass {e : Events} {Q : Unit ⊕ Leave → Observed → Prop} (hs : PlainSlots s.slots)
    (hopen : s.closed = false) (hend : ∀ out t, LeftOpen out t → Q (.inr out) t) :
    wp closesContract (do
      let r ← restorefd fd e
      if r ≠ 0 then pure (.inr .brk) else pure (.inr .ret)) Q s := by
  rw [wp_do]
  refine wp_kept only_restorefd hs fun r t ht => ?_
  split
  · exact hend .brk t ⟨ht.slots, fun _ => ht.closed.trans hopen⟩
  · exact hend .ret t ⟨ht.slots, fun he => by cases he⟩

theorem closes_bufferedRxfxnRead {Q : Unit ⊕ Leave → Observed → Prop} (hs : PlainSlots s.slots)
    (hopen : s.closed = false)
    (hgo : ∀ t : Observed, PlainSlots t.slots → t.closed = false → Q (.inl ()) t)
    (hend : ∀ out t, LeftOpen out t → Q (.inr out) t) :
    wp closesContract (bufferedRxfxnRead n fd c) Q s := by
  have back {e : Events} {x : Prog Int} (t : Observed)
      (hx : wp closesContract x (fun v u => PlainSlots u.slots ∧ (v = 0 → u.closed = false)) t) :
      wp closesContract (do
        let cb ← x
        if cb ≠ 0 then pure (.inr .ret)
        else
          let r ← restorefd fd e
          if r ≠ 0 then pure (.inr .brk) else pure (.inr .ret)) Q t := by
    rw [wp_do]
    refine wp_mono (fun cb u hu => ?_) hx
    split
    · exact hend .ret u ⟨hu.1, fun he => by cases he⟩
    · rename_i hz
      exact closes_pass hu.1 (hu.2 (not_not.mp hz)) hend
  unfold bufferedRxfxnRead
  rw [wp_do]
  refine onward_rxbuf fun _ => ?_
  rw [wp_do]
  refine wp_kept (only_perform trivial) hs fun res t ht => ?_
  have hopen : t.closed = false := ht.closed.trans hopen
  split
  · rw [wp_do]
    refine wp_kept (only_perform trivial) ht.slots fun _ u hu => ?_
    exact hgo u hu.slots (hu.closed.trans hopen)
  · split
    · exact back t (closes_callBuffered ht.slots (fun _ => hopen) fun _ _ hu hv _ => ⟨hu, hv⟩)
    · rw [wp_do]
      refine wp_kept (only_perform trivial) ht.slots fun e u hu => ?_
      have hopen : u.closed = false := hu.closed.trans hopen
      split
      · exact back u (closes_rxback hu.slots hopen fun _ _ hv hz => ⟨hv, hz⟩)
      · split
        · exact hend .brk u ⟨hu.slots, fun _ => hopen⟩
        · exact hgo u hu.slots hopen

theorem closes_bufferedRxfxn {Q : Unit → Observed → Prop} (hs : PlainSlots s.slots)
    (hopen : s.closed = false) (hQ : ∀ t : Observed, PlainSlots t.slots → Q () t) :
    wp closesContract (bufferedRxfxn n fd c) Q s := by
  unfold bufferedRxfxn
  rw [wp_do]
  have hfinish (out : Leave) (t : Observed) (ht : LeftOpen out t) :
      wp closesContract (out.finish fd) Q t := by
    cases out with
    | brk =>
      refine wp_closeOnce (ht.2 rfl) fun u hu _ => hQ u ?_
      rw [hu]
      exact ht.1
    | ret => exact hQ t ht.1
  refine wp_loop (fun _ t => PlainSlots t.slots ∧ t.closed = false)
    (fun _ _ _ he => by cases he) ?_ n ⟨hs, hopen⟩
  intro _ t ht
  rw [wp_do]
  refine onward_rxbuf fun _ => ?_
  split
  · rw [wp_do]
    refine closes_bufferedRxfxnFull ht.1 ht.2 (fun u hu hopen => ?_) hfinish
    exact closes_bufferedRxfxnRead hu hopen (fun v hv hopen => ⟨hv, hopen⟩) hfinish
  · exact closes_bufferedRxfxnRead ht.1 ht.2 (fun v hv hopen => ⟨hv, hopen⟩) hfinish

theorem only_plainBuffer {rx tx : Option Nat} {state : Nat} {p q : Fn → Prop} :
    (createRxbuffercb rx tx state).Only (Op.Keeps p q) := by
  refine only_do (only_perform trivial) fun r => ?_
  cases r with
  | none => exact only_pure
  | some c =>
    refine only_do only_initializeRxbuffer fun r => ?_
    split
    · refine only_do (only_perform trivial) fun rxb => only_do (only_perform trivial) fun _ => ?_
      exact only_do (only_perform trivial) fun _ => only_pure
    · exact only_do (only_perform trivial) fun _ => only_pure

theorem only_plainAddfd {fd : Int} {rx tx : Option Nat} {state : Nat} :
    (torqueAddfd fd rx tx state).Only
      (Op.Keeps (· = .bufferedRxfxn) (· = .bufferedTxfxn)) := by
  unfold torqueAddfd
  split
  · exact only_pure
  refine only_do only_plainBuffer fun r => ?_
  cases r with
  | none => exact only_pure
  | some c =>
    refine only_do (only_addFdToEvhandler ?_ ?_) fun ret => ?_
    · intro f hf
      cases rx <;> cases hf
      rfl
    · intro f hf
      cases tx <;> cases hf
      rfl
    · split
      · refine only_do (only_do (only_perform trivial) fun rxb => only_perform trivial) fun _ => ?_
        exact only_pure
      · exact only_pure

end Plain

/-! ## SSL connections -/

def Fn.ofSsl : Fn → Bool
  | sslRxfxn | sslTxrxfxn | sslTxfxn | acceptContrxfxn | acceptConttxfxn => true
  | _ => false

def SslSlots : EvSource → Prop := SlotsIn (·.ofSsl) (·.ofSsl)

/-- Operations of an SSL connection that leave it open. -/
abbrev Op.KeepsSsl : Op → Prop := Op.Keeps (·.ofSsl) (·.ofSsl)

/-- A handler leaves the connection open, or closed and freed. -/
def Observed.Ended (s : Observed) : Prop :=
  SslSlots s.slots ∧ (s.closed = false ∨ s.freed = true)

section Only
variable {n fd sd c : Nat} {sc : CbFields} {ssl : Option Nat}

theorem only_sslTxError {err : SslErr} {ret : Int} :
    (sslTxError fd err ret).Only Op.KeepsSsl := by
  have hend (r : Int) : Prog.Only Op.KeepsSsl
      (if r ≠ 0 then pure (-1) else pure ret : Prog Int) := by
    split <;> exact only_pure
  cases err with
  | wantRead =>
    refine only_setSlots ?_ ?_ (only_do only_restorefd hend)
    · rintro _ ⟨⟩
      rfl
    · rintro _ ⟨⟩
  | wantWrite => exact only_do only_restorefd hend
  | other _ => exact only_pure

theorem only_sslTx {len : Int} : (sslTx n fd c len).Only Op.KeepsSsl := by
  refine only_loop (fun ret => ?_) n 0
  split
  · refine only_do (only_perform trivial) fun ssl => only_do (only_perform trivial) fun r => ?_
    split
    · exact only_pure
    · refine only_do (only_perform trivial) fun err => ?_
      exact only_do only_sslTxError fun _ => only_pure
  · exact only_pure

theorem only_rxbufferSsl : (rxbufferSsl c ssl).Only Op.KeepsSsl := by
  refine only_do (only_perform trivial) fun rxb => only_do (only_perform trivial) fun res => ?_
  split
  · exact only_do (only_perform trivial) fun _ => only_pure
  · exact only_pure

theorem only_freeSslCbstate : (freeSslCbstate c).Only Op.KeepsSsl := by
  refine only_do (only_perform trivial) fun sc => only_do (only_perform trivial) fun _ => ?_
  refine only_do (only_do (only_perform trivial) fun rxb => only_perform trivial) fun _ => ?_
  exact only_perform trivial

theorem sslSlots_ofSsl (sc : CbFields) :
    (∀ f ∈ (sslSlots sc).1, f.ofSsl) ∧ ∀ f ∈ (sslSlots sc).2, f.ofSsl := by
  obtain ⟨hrx, htx⟩ := sslSlots_data sc
  constructor
  · intro f hf
    rcases hrx with h | h <;> rw [h] at hf <;> cases hf
    rfl
  · intro f hf
    rcases htx with h | h | h <;> rw [h] at hf <;> cases hf <;> rfl

theorem only_sslRegister {rx tx : Option Fn} (hrx : ∀ f ∈ rx, f.ofSsl)
    (htx : ∀ f ∈ tx, f.ofSsl) : (sslRegister sd c rx tx).Only Op.KeepsSsl := by
  refine only_do ?_ fun r => ?_
  · unfold torqueAddfdUnbuffered
    rw [if_neg (by omega)]
    exact only_addFdToEvhandler hrx htx
  · split
    · exact only_do only_freeSslCbstate fun _ => only_pure
    · exact only_pure

theorem only_sslHandshake : (sslHandshake sd c ssl sc).Only Op.KeepsSsl := by
  have free : Prog.Only Op.KeepsSsl (do freeSslCbstate c; pure (-1) : Prog Int) :=
    only_do only_freeSslCbstate fun _ => only_pure
  refine only_do (only_perform trivial) fun ret => ?_
  by_cases hret : ret = 1
  · rw [if_pos hret]
    refine only_do only_initializeRxbuffer fun r => ?_
    obtain ⟨hrx, htx⟩ := sslSlots_ofSsl sc
    split
    · exact free
    · exact only_sslRegister hrx htx
  · rw [if_neg hret]
    refine only_do (only_perform trivial) fun err => ?_
    cases err with
    | wantWrite =>
      refine only_sslRegister ?_ ?_
      · rintro _ ⟨⟩
      · rintro _ ⟨⟩
        rfl
    | wantRead =>
      refine only_sslRegister ?_ ?_
      · rintro _ ⟨⟩
        rfl
      · rintro _ ⟨⟩
    | other _ => exact free

theorem only_sslAcceptInternal : (sslAcceptInternal sd sc).Only Op.KeepsSsl := by
  have free (c : Nat) : Prog.Only Op.KeepsSsl (do freeSslCbstate c; pure (-1) : Prog Int) :=
    only_do only_freeSslCbstate fun _ => only_pure
  refine only_do ?_ fun r => ?_
  · refine only_do (only_perform trivial) fun r => ?_
    cases r with
    | none => exact only_pure
    | some c =>
      refine only_do only_initializeRxbuffer fun r => ?_
      split
      · exact only_do (only_perform trivial) fun _ => only_pure
      · exact only_do (only_perform trivial) fun _ => only_pure
  · cases r with
    | none => exact only_pure
    | some c =>
      refine only_do (only_perform trivial) fun ssl => ?_
      cases ssl with
      | none => exact free c
      | some ssl =>
        refine only_do (only_perform trivial) fun f => only_do (only_perform trivial) fun _ => ?_
        refine only_do (only_perform trivial) fun r => ?_
        split
        · exact free c
        · exact only_sslHandshake

end Only

section Ssl
variable {s : Observed} {n fd c : Nat} {Q : Unit → Observed → Prop}

theorem closes_freeAndClose (hs : SslSlots s.slots) (hopen : s.closed = false)
    (hQ : ∀ t : Observed, t.Ended → Q () t) : wp closesContract (freeAndClose c fd) Q s := by
  unfold freeAndClose freeSslCbstate
  rw [wp_do, wp_do]
  refine wp_kept (only_perform trivial) hs fun sc t ht => ?_
  rw [wp_do]
  refine wp_kept (only_perform trivial) ht.slots fun _ u hu => ?_
  rw [wp_do]
  refine wp_kept (only_do (only_perform trivial) fun _ => only_perform trivial) hu.slots
    fun _ v hv => ?_
  refine wp_onward (fun he => by cases he) fun _ w _ hw => ?_
  cases hw
  have hopen : v.closed = false := (hv.closed.trans (hu.closed.trans ht.closed)).trans hopen
  refine wp_closeOnce hopen fun x hx hfreed => hQ x ⟨?_, .inr hfreed⟩
  rw [hx]
  exact hv.slots

/-- What follows operations that leave the connection open. -/
theorem wp_keptOpen {α : Type} {x : Prog α} {Q : α → Observed → Prop}
    (hx : x.Only Op.KeepsSsl) (hs : SslSlots s.slots) (hopen : s.closed = false)
    (hQ : ∀ (a : α) (t : Observed), SslSlots t.slots → t.closed = false → Q a t) :
    wp closesContract x Q s :=
  wp_kept hx hs fun a t ht => hQ a t ht.slots (ht.closed.trans hopen)

theorem closes_setSlots {rx tx : Option Fn} {α : Type} {k : Prog α} {Q : α → Observed → Prop}
    (hrx : ∀ f ∈ rx, f.ofSsl) (htx : ∀ f ∈ tx, f.ofSsl) (hs : SslSlots s.slots)
    (hopen : s.closed = false)
    (hk : ∀ t : Observed, SslSlots t.slots → t.closed = false → wp closesContract k Q t) :
    wp closesContract (do
      setEvsourceRx fd rx
      setEvsourceTx fd tx
      k) Q s := by
  rw [wp_do]
  refine wp_keptOpen (only_perform hrx) hs hopen fun _ t ht hopen => ?_
  rw [wp_do]
  exact wp_keptOpen (only_perform htx) ht hopen fun _ u hu hopen => hk u hu hopen

theorem closes_armed {x : Prog Int} (hx : x.Only Op.KeepsSsl) (hs : SslSlots s.slots)
    (hopen : s.closed = false) (hQ : ∀ t : Observed, t.Ended → Q () t) :
    wp closesContract (do
      let r ← x
      if r ≠ 0 then freeAndClose c fd else pure ()) Q s := by
  rw [wp_do]
  refine wp_keptOpen hx hs hopen fun r t ht hopen => ?_
  split
  · exact closes_freeAndClose ht hopen hQ
  · exact hQ t ⟨ht, .inl hopen⟩

theorem closes_callSsl {kind : CbKind} {cb : Option Nat} {Q : Int → Observed → Prop}
    (hkind : kind ≠ .rx) (hs : SslSlots s.slots) (hopen : s.closed = false)
    (hQ : ∀ t : Observed, SslSlots t.slots → t.closed = false → Q 0 t) :
    wp closesContract (callSsl n kind cb fd c) Q s := by
  rw [callSsl_eq]
  refine closes_clientCall (fun len => only_do only_sslTx fun _ => only_pure) hs
    (fun _ => hopen) fun v t ht hopen hzero => ?_
  have hz := hzero hkind
  subst hz
  exact hQ t ht (hopen rfl)

theorem closes_sslReadLoop {more : Int → Bool} {Q : Option Int → Observed → Prop}
    (hs : SslSlots s.slots) (hopen : s.closed = false)
    (hQ : ∀ (r : Int) (t : Observed), SslSlots t.slots → t.closed = false → Q (some r) t) :
    wp closesContract (sslReadLoop more n fd c) Q s := by
  refine wp_loop (fun _ t => SslSlots t.slots ∧ t.closed = false)
    (fun _ _ _ he => by cases he) ?_ n ⟨hs, hopen⟩
  intro _ t ht
  rw [wp_do]
  refine wp_keptOpen (only_perform trivial) ht.1 ht.2 fun sc u hu hopen => ?_
  rw [wp_do]
  refine wp_keptOpen only_rxbufferSsl hu hopen fun r v hv hopen => ?_
  split
  · rw [wp_do]
    refine wp_keptOpen (only_perform trivial) hv hopen fun sc w hw hopen => ?_
    rw [wp_do]
    refine closes_callSsl (by decide) hw hopen fun x hx hopen => ?_
    rw [if_neg (by simp)]
    exact ⟨hx, hopen⟩
  · exact hQ r v hv hopen

theorem closes_sslTxrxfxn (hs : SslSlots s.slots) (hopen : s.closed = false)
    (hQ : ∀ t : Observed, t.Ended → Q () t) : wp closesContract (sslTxrxfxn n fd c) Q s := by
  unfold sslTxrxfxn
  rw [wp_do]
  refine closes_sslReadLoop hs hopen fun r t ht hopen => ?_
  dsimp only
  rw [wp_do]
  refine wp_keptOpen (only_perform trivial) ht hopen fun sc u hu hopen => ?_
  rw [wp_do]
  refine wp_keptOpen (only_perform trivial) hu hopen fun err v hv hopen => ?_
  cases err with
  | wantRead =>
    refine closes_setSlots ?_ ?_ hv hopen fun w hw hopen => closes_armed only_restorefd hw hopen hQ
    · rintro _ ⟨⟩
      rfl
    · rintro _ ⟨⟩
  | wantWrite => exact closes_armed only_restorefd hv hopen hQ
  | other _ => exact closes_freeAndClose hv hopen hQ

theorem closes_sslRxfxn (hs : SslSlots s.slots) (hopen : s.closed = false)
    (hQ : ∀ t : Observed, t.Ended → Q () t) : wp closesContract (sslRxfxn n fd c) Q s := by
  unfold sslRxfxn
  rw [wp_do]
  refine closes_sslReadLoop hs hopen fun r t ht hopen => ?_
  dsimp only
  rw [wp_do]
  refine wp_keptOpen (only_perform trivial) ht hopen fun sc u hu hopen => ?_
  rw [wp_do]
  refine wp_keptOpen (only_perform trivial) hu hopen fun err v hv hopen => ?_
  cases err with
  | wantWrite =>
    refine closes_setSlots ?_ ?_ hv hopen fun w hw hopen => closes_armed only_restorefd hw hopen hQ
    · rintro _ ⟨⟩
    · rintro _ ⟨⟩
      rfl
  | wantRead => exact closes_armed only_restorefd hv hopen hQ
  | other _ => exact closes_freeAndClose hv hopen hQ

theorem closes_sslTxfxn (hs : SslSlots s.slots) (hopen : s.closed = false)
    (hQ : ∀ t : Observed, t.Ended → Q () t) : wp closesContract (sslTxfxn n fd c) Q s := by
  unfold sslTxfxn
  rw [wp_do]
  refine wp_keptOpen (only_perform trivial) hs hopen fun sc t ht hopen => ?_
  split
  · exact closes_freeAndClose ht hopen hQ
  · rw [wp_do]
    refine closes_callSsl (by decide) ht hopen fun u hu hopen => ?_
    rw [if_neg (by simp)]
    exact hQ u ⟨hu, .inl hopen⟩

theorem closes_acceptContrxfxn (hs : SslSlots s.slots) (hopen : s.closed = false)
    (hQ : ∀ t : Observed, t.Ended → Q () t) : wp closesContract (acceptContrxfxn fd c) Q s := by
  unfold acceptContrxfxn
  rw [wp_do]
  refine wp_keptOpen (only_perform trivial) hs hopen fun sc t ht hopen => ?_
  rw [wp_do]
  refine wp_keptOpen (only_perform trivial) ht hopen fun ret u hu hopen => ?_
  split
  · dsimp only
    obtain ⟨hrx, htx⟩ := sslSlots_ofSsl sc
    rw [wp_do]
    refine wp_keptOpen only_initializeRxbuffer hu hopen fun r v hv hopen => ?_
    split
    · exact closes_freeAndClose hv hopen hQ
    · exact closes_setSlots hrx htx hv hopen fun w hw hopen =>
        closes_armed only_restorefd hw hopen hQ
  · rw [wp_do]
    refine wp_keptOpen (only_perform trivial) hu hopen fun err v hv hopen => ?_
    cases err with
    | wantWrite =>
      refine closes_setSlots ?_ ?_ hv hopen fun w hw hopen =>
        closes_armed only_restorefd hw hopen hQ
      · rintro _ ⟨⟩
      · rintro _ ⟨⟩
        rfl
    | wantRead => exact closes_armed only_restorefd hv hopen hQ
    | other _ => exact closes_freeAndClose hv hopen hQ

theorem closes_acceptConttxfxn (hs : SslSlots s.slots) (hopen : s.closed = false)
    (hQ : ∀ t : Observed, t.Ended → Q () t) : wp closesContract (acceptConttxfxn fd c) Q s := by
  have go (t : Observed) (ht : SslSlots t.slots) (hopen : t.closed = false) :
      wp closesContract (pure ()) Q t :=
    hQ t ⟨ht, .inl hopen⟩
  unfold acceptConttxfxn
  rw [wp_do]
  refine wp_keptOpen (only_perform trivial) hs hopen fun sc t ht hopen => ?_
  rw [wp_do]
  refine wp_keptOpen (only_perform trivial) ht hopen fun ret u hu hopen => ?_
  split
  · dsimp only
    obtain ⟨hrx, htx⟩ := sslSlots_ofSsl sc
    rw [wp_do]
    refine wp_keptOpen only_initializeRxbuffer hu hopen fun r v hv hopen => ?_
    split
    · exact closes_freeAndClose hv hopen hQ
    · exact closes_setSlots (k := pure ()) hrx htx hv hopen go
  · rw [wp_do]
    refine wp_keptOpen (only_perform trivial) hu hopen fun err v hv hopen => ?_
    cases err with
    | wantRead =>
      refine closes_setSlots (k := pure ()) ?_ ?_ hv hopen go
      · rintro _ ⟨⟩
        rfl
      · rintro _ ⟨⟩
    | wantWrite => exact go v hv hopen
    | other _ => exact closes_freeAndClose hv hopen hQ

end Ssl

/-! ## Events -/

section Session
variable {s : Observed} {n fd : Nat} {f : Fn} {st : CbState}

/-- A handler of the connection runs. -/
theorem closes_slot {slot : Option Fn} {Q : Unit → Observed → Prop} (hnone : slot = none → Q () s)
    (hrun : ∀ f ∈ slot, s.freed = false →
      wp closesContract (f.run n fd st) (fun _ t => Q () { t with running := none })
        { s with running := some f }) :
    wp closesContract (handleSlot n fd slot st) Q s := by
  refine wp_slot hnone fun f hf => ?_
  refine wp_onward (fun he => by cases he) fun _ t ha ht => ?_
  cases ht
  have hfreed : s.freed = false := by simpa [FollowsRule, LeavesClosing] using ha
  refine wp_mono ?_ (hrun f hf hfreed)
  intro _ u hu
  refine wp_onward (fun he => by cases he) fun _ v _ hv => ?_
  cases hv
  exact hu

theorem closes_ssl {Q : Unit → Observed → Prop} (hf : f.ofSsl) (hs : SslSlots s.slots)
    (hopen : s.closed = false) (hQ : ∀ t : Observed, t.Ended → Q () t) :
    wp closesContract (f.run n fd st) Q s := by
  cases st with
  | client v => cases f <;> first | exact fun he => by cases he | cases hf
  | object c =>
    cases f <;> simp only [Fn.ofSsl, Bool.false_eq_true] at hf
    case sslRxfxn => exact closes_sslRxfxn hs hopen hQ
    case sslTxrxfxn => exact closes_sslTxrxfxn hs hopen hQ
    case sslTxfxn => exact closes_sslTxfxn hs hopen hQ
    case acceptContrxfxn => exact closes_acceptContrxfxn hs hopen hQ
    case acceptConttxfxn => exact closes_acceptConttxfxn hs hopen hQ

/-- Events of an SSL connection. -/
theorem closes_sslEvents (h : s.Ended) :
    wp closesContract (handleEvents n fd) (fun _ _ => True) s := by
  have slot {slot : Option Fn} {Q : Unit → Observed → Prop} (t : Observed) (ht : t.Ended)
      (hslot : slot = t.slots.rxfxn ∨ slot = t.slots.txfxn) (hQ : ∀ u : Observed, u.Ended → Q () u) :
      wp closesContract (handleSlot n fd slot t.slots.cbstate) Q t := by
    refine closes_slot (fun _ => hQ t ht) fun f hf hfreed => ?_
    have hssl : f.ofSsl := by
      rcases hslot with rfl | rfl
      · exact ht.1.rx f hf
      · exact ht.1.tx f hf
    have hopen : t.closed = false := by
      rcases ht.2 with hopen | hgone
      · exact hopen
      · rw [hfreed] at hgone
        cases hgone
    exact closes_ssl hssl ht.1 hopen fun u hu => hQ _ ⟨hu.1, hu.2⟩
  refine wp_eventLoop (I := Observed.Ended) (fun _ _ he => by cases he) (fun t ht => ?_)
    (fun t ht => ?_) (fun t ht => ?_) h
  · refine wp_onward (fun he => by cases he) fun e u _ hu => ?_
    obtain ⟨-, -, rfl⟩ := event_cases (e := e) hu
    exact ht
  · exact onward_evsource (slot t ht (.inl rfl) fun _ hu => hu)
  · exact onward_evsource (slot t ht (.inr rfl) fun _ hu => hu)

theorem closes_plainRead {Q : Unit → Observed → Prop} (hs : PlainSlots s.slots)
    (hopen : s.closed = false) (hQ : ∀ t : Observed, PlainSlots t.slots → Q () t) :
    wp closesContract (Fn.bufferedRxfxn.run n fd st) Q s := by
  cases st with
  | client v => exact fun he => by cases he
  | object c => exact closes_bufferedRxfxn hs hopen hQ

theorem closes_plainWrite {Q : Unit → Observed → Prop} (hs : PlainSlots s.slots)
    (hQ : ∀ t : Observed, PlainSlots t.slots → Q () t) :
    wp closesContract (Fn.bufferedTxfxn.run n fd st) Q s := by
  cases st with
  | client v => exact fun he => by cases he
  | object c => exact closes_bufferedTxfxn hs hQ

/-- Events of a plain descriptor: the read handler comes first, and only if the
descriptor has not been closed. -/
theorem closes_plainEvents (h : PlainSlots s.slots) :
    wp closesContract (handleEvents n fd) (fun _ _ => True) s := by
  refine wp_loop (fun _ t => PlainSlots t.slots) (fun _ _ _ he => by cases he) ?_ n h
  intro _ t ht
  rw [wp_do]
  refine wp_onward (fun he => by cases he) fun e u _ hu => ?_
  obtain ⟨hopen, -, rfl⟩ := event_cases (e := e) hu
  rw [wp_do]
  refine wp_handleEvent (M := fun v : Observed => PlainSlots v.slots) (fun _ => ?_) (fun _ => ht)
    (fun v hv _ => ?_) fun _ hv _ => hv
  · refine onward_evsource ?_
    refine closes_slot (fun _ => ht) fun f hf _ => ?_
    cases ht.rx f hf
    exact closes_plainRead ht hopen fun _ hv => hv
  · refine onward_evsource ?_
    refine closes_slot (fun _ => hv) fun f hf _ => ?_
    cases hv.tx f hf
    exact closes_plainWrite hv fun _ hw => hw

theorem closes_session (n fd : Nat) (setup : Setup) :
    wp closesContract (setup.session n fd) (fun _ _ => True) {} := by
  cases setup with
  | plain rx tx state =>
    unfold Setup.session plainSession
    dsimp only
    rw [wp_do]
    have hempty : PlainSlots ({} : EvSource) :=
      ⟨fun _ hf => absurd hf (Option.not_mem_none _), fun _ hf => absurd hf (Option.not_mem_none _)⟩
    refine wp_kept only_plainAddfd hempty fun r t ht => ?_
    split
    · exact closes_plainEvents ht.slots
    · trivial
  | ssl sc =>
    unfold Setup.session sslSession
    dsimp only
    rw [wp_do]
    have hempty : SslSlots ({} : EvSource) :=
      ⟨fun _ hf => absurd hf (Option.not_mem_none _), fun _ hf => absurd hf (Option.not_mem_none _)⟩
    refine wp_keptOpen only_sslAcceptInternal hempty rfl fun r t ht hopen => ?_
    split
    · exact wp_closeOnce hopen fun _ _ _ => trivial
    · exact closes_sslEvents ⟨ht, .inl hopen⟩

/-- A connection whose callbacks follow the rule, in the runs in which no
callback but `rx` of a plain descriptor reports it as closed, in which `tx` is not
called after the read handler has seen it closed, and no handler after the read
handler has freed the state: nobody closes it twice. -/
theorem session_closes_once (n fd : Nat) (setup : Setup) (replies : List ((o : Op) → o.Rep))
    (hrule : Meets (Prog.step Observed.onward) (Prog.Assume FollowsRule)
      ({}, setup.session n fd) replies)
    (hc : Meets (Prog.step Observed.onward) (Prog.Assume LeavesClosing)
      ({}, setup.session n fd) replies) :
    Always (Prog.step Observed.onward) (fun x => x.2.op.any Op.closes → x.1.closed = false)
      ({}, setup.session n fd) replies := by
  have hm : Meets (Prog.step Observed.onward)
      (Prog.Assume fun s o r => FollowsRule s o r && LeavesClosing s o r)
      ({}, setup.session n fd) replies := by
    refine hrule.both ?_ hc
    rintro ⟨s, _ | ⟨o, k⟩ | _⟩ r hr hl
    · trivial
    · exact Bool.and_eq_true_iff.mpr ⟨hr, hl⟩
    · trivial
  have hall := always_of_wp (fun _ _ _ _ ha ht => And.intro ha ht) (closes_session n fd setup) hm
  refine hall.mono ?_
  rintro ⟨s, _ | ⟨o, k⟩ | _⟩ h
  · intro he
    cases he
  · exact h
  · exact h

/-- `rx` closes the descriptor, and `buffered_rxfxn` leaves it alone. -/
theorem session_closes_once_rx :
    Always (Prog.step Observed.onward) (fun x => x.2.op.any Op.closes → x.1.closed = false)
      ({}, Setup.session 9 5 (.plain (some 1) none 0))
      (script Observed.onward Observed.loads 40 ({}, Setup.session 9 5 (.plain (some 1) none 0))
        [.ptr (some 0), .page 4 (some ⟨0, [0, 0, 0, 0]⟩), .flag true, .events EVREAD,
          .io (.bytes [1]), .io (.ret 0), .act .close, .act (.ret (-1))]) :=
  session_closes_once 9 5 _ _ (by decide) (by decide)

/-- The receive callback of an SSL connection closes the descriptor and says
so, as the rule asks, and `ssl_rxfxn` closes it again. -/
theorem sslSession_closes_twice :
    let x : Observed × Prog Unit := ({}, Setup.session 9 5 (.ssl { rxfxn := some 1 }))
    let replies := script Observed.onward Observed.loads 60 x
      (connected [.io (.bytes [1, 2]), .act .close, .act (.ret (-1))])
    Meets (Prog.step Observed.onward) (Prog.Assume FollowsRule) x replies ∧
      ¬ Always (Prog.step Observed.onward) (fun x => x.2.op.any Op.closes → x.1.closed = false)
        x replies := by
  decide

/-- Nor need a callback be called: `ssl_rxfxn` fails, frees the state and closes, and
`ssl_txfxn` for the same event finds NULL where `txfxn` was. -/
example :
    let x : Observed × Prog Unit :=
      ({}, Setup.session 9 5 (.ssl { rxfxn := some 1, txfxn := some 2 }))
    let loads (s : Observed) : Loads :=
      if s.freed then { s.loads with fields := fun _ => {} } else s.loads
    let replies := script Observed.onward loads 60 x
      ((connected []).dropLast ++ [.events (EVREAD ||| EVWRITE), .io (.ret (-1)), .err (.other 1)])
    Meets (Prog.step Observed.onward) (Prog.Assume FollowsRule) x replies ∧
      ¬ Always (Prog.step Observed.onward) (fun x => x.2.op.any Op.closes → x.1.closed = false)
        x replies := by
  decide

end Session

end Libtorque
