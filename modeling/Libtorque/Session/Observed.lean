import Libtorque.Session.SslStream

/-! # Connections under observation

A connection together with what its handlers do not keep: the mappings that it
has obtained and not given back, and what the client's callbacks have done. -/
namespace Libtorque
open Lib

/-- `maps` are the mappings held; `mine`: the callback called last has closed
the descriptor; `quit`: a callback has returned something else than 0. -/
structure Observed extends Conn where
  maps : List Nat := []
  mine : Bool := false
  quit : Bool := false
deriving DecidableEq, Repr

/-- What is seen of an operation that leaves the connection as `t`. -/
def Observed.after (s : Observed) (t : Conn) : (o : Op) → o.Rep → Observed
  | .getBigPage, (_, some page) => { s with toConn := t, maps := page.ptr :: s.maps }
  | .modPages buffer _ _, some page =>
    { s with toConn := t, maps := page.ptr :: s.maps.filter (buffer ≠ some ·) }
  | .dealloc buffer _, _ => { s with toConn := t, maps := s.maps.filter (buffer ≠ some ·) }
  | .callback .., _ => { s with toConn := t, mine := false }
  | .close _, _ => { s with toConn := t, mine := s.calling.isSome }
  | .client _, .ret v => { s with toConn := t, quit := s.quit || v ≠ 0 }
  | _, _ => { s with toConn := t }

theorem after_conn (s : Observed) (t : Conn) (o : Op) (r : o.Rep) :
    (s.after t o r).toConn = t := by
  unfold Observed.after
  split <;> rfl

def Observed.next (s : Observed) (o : Op) (r : o.Rep) : Option Observed :=
  (s.toConn.next o r).map fun t => s.after t o r

/-- What the loads of a handler find. -/
def Observed.loads (s : Observed) : Loads := s.toConn.loads

/-- The promises `P`, where the replies are as assumed. -/
def observing (P : Observed → Option Op → Prop) (A : Observed → (o : Op) → o.Rep → Bool) :
    Contract Op Op.Rep Observed :=
  .of Observed.next P A

/-- A connection registered with `torque_addfd`, or accepted for an SSL listener. -/
inductive Setup where
  | plain (rx tx : Option Nat) (state : Nat)
  | ssl (sc : CbFields)
deriving DecidableEq, Repr

def Setup.session (n fd : Nat) : Setup → Prog Unit
  | plain rx tx state => plainSession n fd rx tx state
  | ssl sc => sslSession n fd sc

section Rules
variable {P : Observed → Option Op → Prop} {A : Observed → (o : Op) → o.Rep → Bool}
  {s : Observed}

theorem wp_observe {o : Op} {Q : o.Rep → Observed → Prop} (hP : P s (some o))
    (h : ∀ r t, A s o r → s.toConn.next o r = some t → Q r (s.after t o r)) :
    wp (observing P A) (perform o) Q s := by
  refine wp_op hP ?_
  intro r t hstep
  obtain ⟨ha, ht⟩ := hstep
  obtain ⟨u, hu, rfl⟩ := Option.map_eq_some_iff.mp ht
  exact h r u ha hu

/-- In all the runs of a session whose replies are as assumed, the promises are kept. -/
theorem always_observed {p : Prog Unit} (h : wp (observing P A) p (fun _ t => P t none) {})
    {replies : List ((o : Op) → o.Rep)}
    (hm : Meets (Prog.step Observed.next) (Prog.Assume A) ({}, p) replies) :
    Always (Prog.step Observed.next) (fun x => P x.1 x.2.op) ({}, p) replies := by
  refine (always_of_wp (K := observing P A) (fun _ _ _ _ ha ht => ⟨ha, ht⟩) h hm).mono ?_
  rintro ⟨s, _ | _ | _⟩ h <;> exact h

theorem wp_loadRxbuf {c : Nat} {Q : RxBuf → Observed → Prop} (hP : P s (some (.rxbuf c)))
    (hQ : s.freed = false → Q s.rxb s) : wp (observing P A) (rxbuf c) Q s := by
  refine wp_observe hP ?_
  intro r t _ ht
  obtain ⟨hfreed, rfl, rfl⟩ := rxbuf_cases ht
  exact hQ hfreed

theorem wp_loadEvsource {fd : Nat} {Q : EvSource → Observed → Prop}
    (hP : P s (some (.evsource fd))) (hQ : Q s.slots s) :
    wp (observing P A) (evsource fd) Q s := by
  refine wp_observe hP ?_
  intro r t _ ht
  obtain ⟨rfl, rfl⟩ := evsource_cases ht
  exact hQ

theorem wp_storeRxbuf {c : Nat} {rxb : RxBuf} {Q : Unit → Observed → Prop}
    (hP : P s (some (.setRxbuf c rxb))) (hQ : Q () { s with rxb := rxb }) :
    wp (observing P A) (setRxbuf c rxb) Q s := by
  refine wp_observe hP ?_
  intro _ t _ ht
  obtain ⟨-, rfl⟩ := setRxbuf_cases ht
  exact hQ

/-- `restorefd` arms the descriptor, or leaves it as it was. -/
theorem wp_rearm_observed {fd : Nat} {e : Events} {Q : Int → Observed → Prop}
    (hP : ∀ e, P s (some (.epollCtl .mod fd e)))
    (hok : A s (.epollCtl .mod fd (EVEDGET ||| EVONESHOT ||| e)) true → s.closed = false →
      Q 0 { s with armed := some (EVEDGET ||| EVONESHOT ||| e) })
    (hfail : Q (-1) s) : wp (observing P A) (restorefd fd e) Q s := by
  unfold restorefd
  rw [wp_do]
  refine wp_observe (hP _) ?_
  intro ok t ha ht
  rcases epollCtl_cases ht with ⟨rfl, hopen, rfl⟩ | ⟨rfl, rfl⟩
  · exact hok ha hopen
  · exact hfail

end Rules

/-! ## Registration -/

/-- The slots hold such functions only. -/
structure SlotsIn (p q : Fn → Prop) (evs : EvSource) : Prop where
  rx : ∀ f ∈ evs.rxfxn, p f
  tx : ∀ f ∈ evs.txfxn, q f

/-- What `torque_addfd` puts into the slots. -/
def PlainSlots : EvSource → Prop := SlotsIn (· = .bufferedRxfxn) (· = .bufferedTxfxn)

/-- What a `torque_add*` call performs, the return of memory apart. -/
def Op.registers : Op → Bool
  | .rxbuf _ | .setRxbuf .. | .fields _ | .setFields .. | .setEvsourceRx .. | .setEvsourceTx ..
  | .setEvsourceState .. | .fdarraysize | .epollCtl .add .. | .malloc | .free _
  | .getBigPage => true
  | _ => false

/-- Neither closed, nor reported as closed by a callback. -/
def Observed.Open (s : Observed) : Prop := s.closed = false ∧ s.quit = false

/-- What `torque_addfd` leaves: an armed descriptor with an empty buffer of its own. -/
structure Observed.Registered (rx tx : Option Nat) (s : Observed) : Prop where
  slots : ∃ c, s.slots =
    ⟨rx.map fun _ => .bufferedRxfxn, tx.map fun _ => .bufferedTxfxn, .object c⟩
  empty : s.rxb.bufoff = 0 ∧ s.rxb.bufate = 0
  buffer : ∃ m, s.rxb.buffer = some m ∧ s.maps = [m]
  armed : ∃ e ∈ s.armed, (rx ≠ none → e.has EVREAD) ∧ (tx ≠ none → e.has EVWRITE)
  open_ : s.Open

theorem Observed.Registered.plainSlots {rx tx : Option Nat} {s : Observed}
    (h : s.Registered rx tx) : PlainSlots s.slots := by
  obtain ⟨c, hslots⟩ := h.slots
  rw [hslots]
  refine ⟨?_, ?_⟩
  · intro f hf
    cases rx <;> cases hf
    rfl
  · intro f hf
    cases tx <;> cases hf
    rfl

section Registration
variable {P : Observed → Option Op → Prop} {A : Observed → (o : Op) → o.Rep → Bool}
  {s : Observed} {fd state : Nat} {rx tx : Option Nat}

theorem wp_registerStep {o : Op} {Q : o.Rep → Observed → Prop} (ho : o.registers)
    (hP : ∀ t o, o.registers → t.Open → t.maps.length ≤ 1 → P t (some o))
    (hopen : s.Open) (hone : s.maps.length ≤ 1)
    (h : ∀ r t, A s o r → s.toConn.next o r = some t → Q r (s.after t o r)) :
    wp (observing P A) (perform o) Q s :=
  wp_observe (hP s o ho hopen hone) h

theorem registered_addFd {rfxn tfxn : Option Fn} {v : CbState} {Q : Int → Observed → Prop}
    (hP : ∀ t o, o.registers → t.Open → t.maps.length ≤ 1 → P t (some o))
    (hopen : s.Open) (hone : s.maps.length ≤ 1)
    (hok : ∀ e, (rfxn ≠ none → e.has EVREAD) → (tfxn ≠ none → e.has EVWRITE) →
      Q 0 { s with slots := ⟨rfxn, tfxn, v⟩, armed := some e })
    (hfail : ∀ t : Observed, t.maps = s.maps → t.rxb = s.rxb → t.freed = s.freed →
      t.Open → Q (-1) t) :
    wp (observing P A) (addFdToEvhandler fd rfxn tfxn v EVONESHOT) Q s := by
  unfold addFdToEvhandler
  rw [wp_do]
  refine wp_registerStep rfl hP hopen hone fun size t _ ht => ?_
  cases ht
  split
  · exact hfail s rfl rfl rfl hopen
  · unfold setupEvsource setEvsourceRx setEvsourceTx
    rw [wp_do, wp_do]
    refine wp_registerStep rfl hP hopen hone fun _ t _ ht => ?_
    cases ht
    rw [wp_do]
    refine wp_registerStep rfl hP hopen hone fun _ t _ ht => ?_
    cases ht
    refine wp_registerStep rfl hP hopen hone fun _ t _ ht => ?_
    cases ht
    unfold addFdEvent
    rw [wp_do, if_neg (by decide), wp_do]
    refine wp_registerStep rfl hP hopen hone fun ok t _ ht => ?_
    rcases epollCtl_cases ht with ⟨rfl, -, rfl⟩ | ⟨rfl, rfl⟩
    · refine hok _ ?_ ?_
      · intro hr
        rw [if_pos (Option.isSome_iff_ne_none.mpr hr)]
        split <;> decide
      · intro hw
        rw [if_pos (Option.isSome_iff_ne_none.mpr hw)]
        split <;> decide
    · exact hfail _ rfl rfl rfl hopen

/-- A buffer is found, or none is. -/
theorem registered_initialize {c : Nat} {Q : Int → Observed → Prop}
    (hP : ∀ t o, o.registers → t.Open → t.maps.length ≤ 1 → P t (some o))
    (hopen : s.Open) (hnone : s.maps = [])
    (hok : ∀ m size bytes, Q 0 { s with
      rxb := { s.rxb with buffer := some m, buftot := size, bufoff := 0, bufate := 0 },
      mem := bytes, maps := [m] })
    (hfail : ∀ size, Q (-1) { s with rxb := { s.rxb with buffer := none, buftot := size } }) :
    wp (observing P A) (initializeRxbuffer c) Q s := by
  have hone : s.maps.length ≤ 1 := by rw [hnone]; exact Nat.zero_le 1
  unfold initializeRxbuffer
  rw [wp_do]
  refine wp_loadRxbuf (hP _ _ rfl hopen hone) fun _ => ?_
  rw [wp_do]
  refine wp_registerStep rfl hP hopen hone fun r t _ ht => ?_
  obtain ⟨size, page⟩ := r
  simp only [Conn.next, Conn.getBigPage] at ht
  cases page with
  | none =>
    cases ht
    dsimp only
    rw [wp_do]
    exact wp_storeRxbuf (hP _ _ rfl hopen hone) (hfail size)
  | some page =>
    dsimp only at ht
    split at ht <;> cases ht
    dsimp only
    rw [wp_do]
    refine wp_storeRxbuf (hP _ _ rfl hopen ?_) ?_
    · show (page.ptr :: s.maps).length ≤ 1
      rw [hnone]
      exact Nat.le_refl 1
    · have h := hok page.ptr size page.bytes
      rw [← hnone] at h
      exact h

/-- What `torque_addfd` leaves behind. -/
theorem registered_addfd {Q : Int → Observed → Prop}
    (hP : ∀ t o, o.registers → t.Open → t.maps.length ≤ 1 → P t (some o))
    (hdealloc : ∀ t m k, t.Open → t.maps = [m] → P t (some (.dealloc (some m) k)))
    (hopen : s.Open) (hnone : s.maps = [])
    (hok : ∀ t, Observed.Registered rx tx t → Q 0 t)
    (hfail : ∀ v t, v ≠ 0 → t.Open → t.maps = [] → Q v t) :
    wp (observing P A) (torqueAddfd fd rx tx state) Q s := by
  have hone : s.maps.length ≤ 1 := by rw [hnone]; exact Nat.zero_le 1
  unfold torqueAddfd createRxbuffercb
  rw [if_neg (by omega), wp_do, wp_do]
  refine wp_registerStep rfl hP hopen hone fun r t _ ht => ?_
  cases ht
  cases r with
  | none => exact hfail _ _ (by decide) hopen hnone
  | some c =>
    dsimp only
    rw [wp_do]
    apply registered_initialize hP hopen hnone
    · intro m size bytes
      rw [if_pos rfl, wp_do]
      refine wp_loadRxbuf (hP _ _ rfl hopen (Nat.le_refl 1)) fun _ => ?_
      rw [wp_do]
      refine wp_storeRxbuf (hP _ _ rfl hopen (Nat.le_refl 1)) ?_
      rw [wp_do]
      refine wp_registerStep rfl hP hopen (Nat.le_refl 1) fun _ t _ ht => ?_
      simp only [Conn.next] at ht
      split at ht <;> cases ht
      rw [wp_pure]
      dsimp only
      rw [wp_do]
      refine registered_addFd hP hopen (Nat.le_refl 1) ?_ ?_
      · intro e hr hw
        rw [if_neg (by simp)]
        refine hok _ ⟨⟨c, rfl⟩, ⟨rfl, rfl⟩, ⟨m, rfl, rfl⟩, ⟨e, rfl, ?_, ?_⟩, hopen⟩
        · intro hrx
          refine hr ?_
          rwa [Ne, Option.map_eq_none_iff]
        · intro htx
          refine hw ?_
          rwa [Ne, Option.map_eq_none_iff]
      · intro t hmaps hrxb _ hopen
        replace hmaps : t.maps = [m] := hmaps
        have hbuffer : t.rxb.buffer = some m := congrArg RxBuf.buffer hrxb
        rw [if_pos (by decide), wp_do]
        unfold freeRxbuffercb freeRxbuffer
        rw [wp_do]
        refine wp_loadRxbuf (hP _ _ rfl hopen (by rw [hmaps]; exact Nat.le_refl 1)) fun _ => ?_
        rw [hbuffer]
        refine wp_observe (hdealloc t m _ hopen hmaps) fun _ u _ hu => ?_
        cases hu
        refine hfail _ _ (by decide) hopen ?_
        show t.maps.filter (some m ≠ some ·) = []
        rw [hmaps]
        simp
    · intro size
      rw [if_neg (by decide), wp_do]
      refine wp_registerStep rfl hP hopen hone fun _ t _ ht => ?_
      cases ht
      exact hfail _ _ (by decide) hopen hnone

end Registration

end Libtorque
