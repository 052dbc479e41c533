import Libtorque.Dispatch.Threads

/-! # What a thread does with the event that it dispatches

An event is a lease: until its handler arms the descriptor again, the thread
alone uses the entry, the state and the descriptor of the registration that it
was reported for. What a thread opens and allocates is its own likewise, until
it registers it. A `View` is what a thread knows of what is its own, and the
contract says that it touches nothing else, and arms the descriptor last of all. -/
namespace Libtorque
open Lib

/-- What the slots of a descriptor may hold, by whether it is registered for one
event at a time. -/
structure Typed (oneshot : Bool) (evs : EvSource) : Prop where
  rxConn : evs.rxfxn ≠ some .connUnbufferedTxfxn
  txTimer : evs.txfxn ≠ some .timerPassthru
  rxTimer : evs.rxfxn = some .timerPassthru → oneshot = false ∧ evs.txfxn = none
  shared : oneshot = false → ∀ f, evs.rxfxn = some f ∨ evs.txfxn = some f →
    f = .timerPassthru ∨ ∃ k, f = .client k

/-- What a thread knows: of its event, `freed` tells whether the state has been
freed; `objs` are the objects that it has allocated and neither freed nor
registered; `table` are the entries of its own descriptors and of its event's. -/
structure View extends Local where
  freed : Bool := false
  objs : List Nat := []
  table : Nat → EvSource := fun _ => {}

namespace View
open Function (update)

/-- It has an event that it has not armed again. -/
def At (v : View) (p : Event → Prop) : Prop := v.rearmed = false ∧ ∃ ev, v.cur = some ev ∧ p ev

/-- A handler of the event may put `f` into a slot of the entry `evs`. -/
def Writes (v : View) (fd : Nat) (evs : EvSource) : Prop :=
  v.At fun ev => ev.fd = fd ∧ ev.src.oneshot = true ∧ (v.closed = false → Typed true evs)

/-- What the thread may do. -/
def Ok (v : View) : Op → Prop
  | .enter f fd st => v.closed = false ∧ v.freed = false ∧ v.At fun ev =>
      ev.fd = fd ∧ st = ev.src.state ∧
        (some f = (v.table fd).rxfxn ∨ some f = (v.table fd).txfxn)
  | .setEvsourceRx fd f => fd ∈ v.fds ∨ v.Writes fd { v.table fd with rxfxn := f }
  | .setEvsourceTx fd f => fd ∈ v.fds ∨ v.Writes fd { v.table fd with txfxn := f }
  | .setEvsourceState fd _ => fd ∈ v.fds
  | .epollCtl .add fd e =>
    fd ∈ v.fds ∧ Typed (e.has EPOLLONESHOT) (v.table fd) ∧
      ∀ c, (v.table fd).cbstate = .object c → c ∈ v.objs
  | .epollCtl .mod fd _ => v.freed = false ∧ v.At fun ev => ev.fd = fd ∧ ev.src.oneshot = true
  | .close fd =>
    (fd ∈ v.fds ∧ (v.closed = false → v.cur.all (·.fd ≠ fd))) ∨ v.At fun ev => ev.fd = fd
  | .free c => c ∈ v.objs ∨ v.At fun ev => ev.src.state = .object c
  | _ => True

/-- A reply that the thread cannot be surprised by. -/
def Sees (v : View) : (o : Op) → o.Rep → Prop
  | .evsource fd, evs =>
    v.closed = false → (v.At fun ev => ev.fd = fd) → evs = v.table fd
  | .accept _, some fd | .timerfdCreate, some fd =>
    fd ∉ v.fds ∧ fd < 2 ^ 31 ∧ (v.closed = false → ¬ v.At fun ev => ev.fd = fd)
  | _, _ => True

def freedAfter (v : View) : Op → Bool
  | .free c => if c ∈ v.objs then v.freed else true
  | _ => v.freed

def objsAfter (v : View) : (o : Op) → o.Rep → List Nat
  | .malloc, some c => c :: v.objs
  | .free c, _ => v.objs.filter (· ≠ c)
  | .epollCtl .add fd _, ok =>
    if ok then v.objs.filter (fun c => (v.table fd).cbstate ≠ .object c) else v.objs
  | _, _ => v.objs

/-- `evs` is what the entry of a new descriptor holds. -/
def tableAfter (v : View) (evs : EvSource) : (o : Op) → o.Rep → Nat → EvSource
  | .setEvsourceRx fd f, _ => update v.table fd { v.table fd with rxfxn := f }
  | .setEvsourceTx fd f, _ => update v.table fd { v.table fd with txfxn := f }
  | .setEvsourceState fd st, _ => update v.table fd { v.table fd with cbstate := st }
  | .accept _, some fd | .timerfdCreate, some fd => update v.table fd evs
  | _, _ => v.table

def next (v : View) (evs : EvSource) (o : Op) (r : o.Rep) : View where
  toLocal := v.toLocal.next o r
  freed := v.freedAfter o
  objs := v.objsAfter o r
  table := v.tableAfter evs o r

end View

/-- The thread does what it may, and in a handler nothing after it has armed the
descriptor again. Its steps abide. -/
def leasing : Contract Op Op.Rep View where
  ok v
    | some o => v.Ok o ∧ (v.rearmed = true → v.inside = true → o = .leave)
    | none => v.rearmed = true → v.inside = false
  next v o r u := v.Abides o r ∧ v.Sees o r ∧ ∃ evs, u = v.next evs o r

/-! ## At work -/

/-- The thread dispatches `o` and is in a handler of it, or it dispatches
nothing. -/
structure Work (o : Option Event) (v : View) : Prop where
  cur : v.cur = o
  inside : v.inside = o.isSome
  rearmed : o.isSome → v.rearmed = false
  freed : o.isSome → v.freed = false
  entry : ∀ ev, o = some ev → v.closed = false →
    Typed ev.src.oneshot (v.table ev.fd) ∧ (v.table ev.fd).cbstate = ev.src.state ∧ ev.fd ∉ v.fds

/-- A handler of `ev` has returned. -/
structure Spent (ev : Event) (v : View) : Prop where
  cur : v.cur = some ev
  entry : v.closed = false → v.rearmed = false →
    Typed ev.src.oneshot (v.table ev.fd) ∧ (v.table ev.fd).cbstate = ev.src.state ∧
      ev.fd ∉ v.fds ∧ (v.freed = true → (v.table ev.fd).txfxn = none)

/-- Operations that change nothing that a thread knows. -/
def Op.inert : Op → Bool
  | .rxbuf _ | .setRxbuf .. | .rxbufferAdvance .. | .fields _ | .setFields .. | .fdarraysize
  | .errno | .read .. | .fcntl _ | .connect _ | .timerfdSettime _ | .getBigPage | .modPages ..
  | .dealloc .. | .sslNew _ | .sslSetFd .. | .sslFree _ | .sslAccept _ | .sslRead ..
  | .sslWrite .. | .sslGetError .. => true
  | _ => false

/-- What a handler of `ev` may do before it arms the descriptor or frees. -/
def Op.Works (ev : Event) : Op → Prop
  | .callback .. | .client _ => True
  | .close fd => fd = ev.fd
  | o => o.inert = true

section Rules
variable {o : Option Event} {ev : Event} {v : View}

theorem Work.spent (h : Work (some ev) v) : Spent ev v := by
  refine ⟨h.cur, fun hc _ => ?_⟩
  obtain ⟨ht, hs, hfd⟩ := h.entry ev rfl hc
  exact ⟨ht, hs, hfd, fun hf => absurd (h.freed rfl) (by simp [hf])⟩

theorem Work.at (h : Work (some ev) v) {p : Event → Prop} (hp : p ev) : v.At p :=
  ⟨h.rearmed rfl, ev, h.cur, hp⟩

theorem Work.order (h : Work o v) {q : Op} : v.rearmed = true → v.inside = true → q = .leave := by
  intro hr hi
  cases o with
  | none => simp [h.inside] at hi
  | some ev => simp [h.rearmed rfl] at hr

theorem Work.cut (h : Work o v) : v.rearmed = true → v.inside = false := by
  intro hr
  cases o with
  | none => exact h.inside
  | some ev => simp [h.rearmed rfl] at hr

theorem next_inert {q : Op} {r : q.Rep} {evs : EvSource} (hq : q.inert = true) :
    v.next evs q r = v := by
  cases q <;> simp only [Op.inert, Bool.false_eq_true] at hq <;> rfl

theorem ok_inert {q : Op} (hq : q.inert = true) : v.Ok q := by
  cases q <;> simp only [Op.inert, Bool.false_eq_true] at hq <;> trivial

theorem wp_inert {q : Op} {Q : q.Rep → View → Prop} (h : Work o v) (hq : q.inert = true)
    (hQ : ∀ r, Q r v) : wp leasing (perform q) Q v := by
  refine wp_op ⟨ok_inert hq, h.order⟩ ?_
  rintro r u ⟨-, -, evs, rfl⟩
  rw [next_inert hq]
  exact hQ r

theorem wp_allInert {α : Type} {p : Prog α} {Q : α → View → Prop} (h : Work o v)
    (hp : p.Only (fun q => q.inert = true)) (hQ : ∀ a, Q a v) : wp leasing p Q v := by
  refine wp_mono ?_ (wp_only (I := fun u => u = v) hp ?_ ?_ ?_ rfl)
  · rintro a u rfl
    exact hQ a
  · rintro u rfl
    exact h.cut
  · rintro q u hq rfl
    exact ⟨ok_inert hq, h.order⟩
  · rintro q r u t hq rfl ⟨-, -, evs, rfl⟩
    exact next_inert hq

theorem Work.close {evs : EvSource} (h : Work (some ev) v) :
    Work (some ev) (v.next evs (.close ev.fd) ()) ∧
      (v.next evs (.close ev.fd) ()).closed = true := by
  have hcur : v.cur.any (fun e => e.fd = ev.fd) = true := by simp [h.cur]
  by_cases hc : v.closed = true
  · have hnext : v.toLocal.close ev.fd = { v.toLocal with fds := v.fds.filter (· ≠ ev.fd) } := by
      simp [Local.close, hc]
    refine ⟨⟨?_, ?_, ?_, h.freed, ?_⟩, ?_⟩
    · simpa [View.next, Local.next, hnext] using h.cur
    · simpa [View.next, Local.next, hnext] using h.inside
    · simpa [View.next, Local.next, hnext] using h.rearmed
    · intro ev' _ hopen
      simp [View.next, Local.next, hnext, hc] at hopen
    · simp [View.next, Local.next, hnext, hc]
  · have hnext : v.toLocal.close ev.fd = { v.toLocal with closed := true } := by
      simp [Local.close, hc, hcur]
    refine ⟨⟨?_, ?_, ?_, h.freed, ?_⟩, ?_⟩
    · simpa [View.next, Local.next, hnext] using h.cur
    · simpa [View.next, Local.next, hnext] using h.inside
    · simpa [View.next, Local.next, hnext] using h.rearmed
    · intro ev' _ hopen
      simp [View.next, Local.next, hnext] at hopen
    · simp [View.next, Local.next, hnext]

theorem Work.calling (h : Work o v) (b : Bool) : Work o { v with calling := b } :=
  ⟨h.cur, h.inside, h.rearmed, h.freed, h.entry⟩

theorem wp_closes {Q : Unit → View → Prop} (h : Work (some ev) v)
    (hQ : ∀ u, Work (some ev) u → u.closed = true → Q () u) :
    wp leasing (close ev.fd) Q v := by
  refine wp_op ⟨.inr (h.at rfl), h.order⟩ ?_
  rintro _ u ⟨-, -, evs, rfl⟩
  exact hQ _ h.close.1 h.close.2

theorem Work.callback {evs : EvSource} {kind : CbKind} {f : Option Nat} {fd : Nat} (h : Work o v) :
    Work o (v.next evs (.callback kind f fd) ()) :=
  h.calling true

theorem Work.client {evs : EvSource} {kind : CbKind} (h : Work o v) (r : ClientAct) :
    Work o (v.next evs (.client kind) r) := by
  cases r with
  | ret _ => exact h.calling false
  | _ => exact h

theorem ok_works {q : Op} (h : Work (some ev) v) (hq : q.Works ev) : v.Ok q := by
  cases q with
  | callback => trivial
  | client => trivial
  | close fd =>
    obtain rfl : fd = ev.fd := hq
    exact .inr (h.at rfl)
  | _ => exact ok_inert hq

theorem Work.works {evs : EvSource} {q : Op} {r : q.Rep} (h : Work (some ev) v) (hq : q.Works ev) :
    Work (some ev) (v.next evs q r) := by
  cases q with
  | callback => exact h.callback
  | client => exact h.client r
  | close fd =>
    obtain rfl : fd = ev.fd := hq
    exact h.close.1
  | _ =>
    rw [next_inert hq]
    exact h

theorem wp_works {α : Type} {p : Prog α} {Q : α → View → Prop} (h : Work (some ev) v)
    (hp : p.Only (Op.Works ev)) (hQ : ∀ a u, Work (some ev) u → Q a u) : wp leasing p Q v := by
  refine wp_mono hQ (wp_only (I := Work (some ev)) hp (fun _ hu => hu.cut) ?_ ?_ h)
  · intro q u hq hu
    exact ⟨ok_works hu hq, hu.order⟩
  · rintro q r u t hq hu ⟨-, -, evs, rfl⟩
    exact hu.works hq

/-- Either the descriptor is armed, and the handler is to return, or not. -/
theorem wp_restores {e : Events} {Q : Int → View → Prop} (h : Work (some ev) v)
    (hone : ev.src.oneshot = true)
    (hok : v.calling = false → ∀ u, u.cur = some ev → u.rearmed = true → Q 0 u)
    (hno : Q (-1) v) : wp leasing (restorefd ev.fd e) Q v := by
  unfold restorefd
  rw [wp_do]
  refine wp_op ⟨⟨h.freed rfl, h.at ⟨rfl, hone⟩⟩, h.order⟩ ?_
  rintro ok u ⟨ha, -, evs, rfl⟩
  cases ok with
  | false => exact hno
  | true =>
    have habides : v.closed = false ∧ v.calling = false := by simpa [Local.Abides] using ha
    exact hok habides.2 _ h.cur rfl

theorem Spent.of_rearmed {u : View} (hcur : u.cur = some ev) (hr : u.rearmed = true) :
    Spent ev u :=
  ⟨hcur, fun _ hn => absurd hr (by simp [hn])⟩

/-- Another callback in the entry of the event. -/
theorem Work.stored {u : View} {evs : EvSource} (h : Work (some ev) v)
    (hone : ev.src.oneshot = true) (hlocal : u.toLocal = v.toLocal) (hfreed : u.freed = v.freed)
    (hentry : u.table ev.fd = evs) (hstate : evs.cbstate = (v.table ev.fd).cbstate)
    (htyped : v.closed = false → Typed true evs) : Work (some ev) u := by
  refine ⟨?_, ?_, ?_, ?_, ?_⟩
  · rw [hlocal]
    exact h.cur
  · rw [hlocal]
    exact h.inside
  · rw [hlocal]
    exact h.rearmed
  · rw [hfreed]
    exact h.freed
  · intro ev' he hopen
    cases he
    rw [hlocal] at hopen
    obtain ⟨-, hs, hfd⟩ := h.entry ev rfl hopen
    rw [hentry, hone, hstate, hlocal]
    exact ⟨htyped hopen, hs, hfd⟩

theorem wp_setRx {f : Option Fn} {Q : Unit → View → Prop} (h : Work (some ev) v)
    (hone : ev.src.oneshot = true) (hc : f ≠ some .connUnbufferedTxfxn) (ht : f ≠ some .timerPassthru)
    (hQ : ∀ u, Work (some ev) u → u.calling = v.calling → Q () u) :
    wp leasing (setEvsourceRx ev.fd f) Q v := by
  have htyped (hopen : v.closed = false) : Typed true { v.table ev.fd with rxfxn := f } := by
    obtain ⟨hty, -, -⟩ := h.entry ev rfl hopen
    exact ⟨hc, hty.txTimer, fun hf => absurd hf ht, fun hf => absurd hf (by simp)⟩
  refine wp_op ⟨.inr (h.at ⟨rfl, hone, htyped⟩), h.order⟩ ?_
  rintro _ u ⟨-, -, evs, rfl⟩
  refine hQ _ (h.stored hone rfl rfl ?_ ?_ htyped) rfl
  · simp [View.next, View.tableAfter]
  · rfl

theorem wp_setTx {f : Option Fn} {Q : Unit → View → Prop} (h : Work (some ev) v)
    (hone : ev.src.oneshot = true) (ht : f ≠ some .timerPassthru)
    (hQ : ∀ u, Work (some ev) u → u.calling = v.calling → Q () u) :
    wp leasing (setEvsourceTx ev.fd f) Q v := by
  have htyped (hopen : v.closed = false) : Typed true { v.table ev.fd with txfxn := f } := by
    obtain ⟨hty, -, -⟩ := h.entry ev rfl hopen
    refine ⟨hty.rxConn, ht, fun hf => ?_, fun hf => absurd hf (by simp)⟩
    simpa [hone] using (hty.rxTimer hf).1
  refine wp_op ⟨.inr (h.at ⟨rfl, hone, htyped⟩), h.order⟩ ?_
  rintro _ u ⟨-, -, evs, rfl⟩
  refine hQ _ (h.stored hone rfl rfl ?_ ?_ htyped) rfl
  · simp [View.next, View.tableAfter]
  · rfl

theorem does_freeRxbuffer {c : Nat} : (freeRxbuffer c).Only (fun q => q.inert = true) :=
  only_do (only_perform rfl) fun _ => only_perform rfl

/-- Freeing the object comes last, after what else belongs to it. -/
theorem wp_freesSslCbstate {c : Nat} {Q : Unit → View → Prop} (h : Work o v)
    (hfree : wp leasing (free c) Q v) : wp leasing (freeSslCbstate c) Q v := by
  unfold freeSslCbstate
  rw [wp_do]
  refine wp_inert h rfl ?_
  intro sc
  rw [wp_do]
  refine wp_inert h rfl ?_
  intro _
  rw [wp_do]
  exact wp_allInert h does_freeRxbuffer fun _ => hfree

/-- The state of the event is freed, and the descriptor closed after that. -/
theorem wp_freesAndCloses {c : Nat} {Q : Unit → View → Prop} (h : Work (some ev) v)
    (hc : ev.src.state = .object c) (hQ : ∀ u, Spent ev u → Q () u) :
    wp leasing (freeAndClose c ev.fd) Q v := by
  unfold freeAndClose
  rw [wp_do]
  refine wp_freesSslCbstate h (wp_op ⟨.inr (h.at hc), h.order⟩ ?_)
  rintro _ u ⟨-, -, evs, rfl⟩
  -- freed, the descriptor not yet closed
  refine wp_op ⟨.inr (h.at rfl), h.order⟩ ?_
  rintro _ u ⟨-, -, evs', rfl⟩
  have hclose : Work (some ev) (v.next evs' (.close ev.fd) ()) ∧
      (v.next evs' (.close ev.fd) ()).closed = true := h.close
  refine hQ _ ⟨?_, fun hopen => ?_⟩
  · exact hclose.1.cur
  · exact absurd (hclose.2.symm.trans hopen) (by decide)

end Rules

/-! ## Buffered handlers -/

section Buffered
variable {ev : Event} {v : View} {n c : Nat}

theorem does_callBuffered {kind : CbKind} {f : Option Nat} :
    (callBuffered n kind f ev.fd c).Only (Op.Works ev) := by
  refine only_do (only_perform trivial) fun _ => only_loop (fun _ => ?_) n ()
  refine only_do (only_perform trivial) fun act => ?_
  cases act with
  | advance s => exact only_do (only_perform rfl) fun _ => only_pure
  | close => exact only_do (only_perform rfl) fun _ => only_pure
  | sslTx len => exact only_pure
  | ret r => exact only_pure

theorem does_rxback : (rxback n ev.fd c).Only (Op.Works ev) := by
  refine only_do (only_perform rfl) fun rxb => ?_
  split
  · exact does_callBuffered
  · exact only_pure

theorem does_growrxbuf : (growrxbuf c).Only (Op.Works ev) := by
  refine only_do (only_perform rfl) fun rxb => only_do (only_perform rfl) fun page => ?_
  cases page with
  | none => exact only_pure
  | some page => exact only_do (only_perform rfl) fun _ => only_pure

theorem does_bufferedRxfxnFull : (bufferedRxfxnFull n ev.fd c).Only (Op.Works ev) := by
  refine only_do does_rxback fun cb => ?_
  split
  · exact only_pure
  · refine only_do (only_perform rfl) fun rxb => ?_
    split
    · refine only_do does_growrxbuf fun r => ?_
      split <;> exact only_pure
    · exact only_pure

/-- How the loop of `buffered_rxfxn` is left: with the descriptor armed there is
nothing more to do. -/
def LeftAt (ev : Event) (out : Leave) (v : View) : Prop :=
  Work (some ev) v ∨ out = .ret ∧ Spent ev v

theorem spent_finish {out : Leave} (h : LeftAt ev out v) :
    wp leasing (out.finish ev.fd) (fun _ u => Spent ev u) v := by
  rcases h with h | ⟨rfl, h⟩
  · cases out with
    | brk => exact wp_closes h fun u hu _ => hu.spent
    | ret => exact h.spent
  · exact h

/-- The callback, unless it says otherwise, is followed by arming. -/
theorem wp_passes {e : Events} {cb : Int} {Q : Unit ⊕ Leave → View → Prop} (h : Work (some ev) v)
    (hone : ev.src.oneshot = true) (hQ : ∀ out u, LeftAt ev out u → Q (.inr out) u) :
    wp leasing (if cb ≠ 0 then pure (.inr .ret) else do
      let r ← restorefd ev.fd e
      if r ≠ 0 then pure (.inr .brk) else pure (.inr .ret)) Q v := by
  split
  · exact hQ .ret v (.inl h)
  · rw [wp_do]
    refine wp_restores h hone ?_ ?_
    · intro _ u hcur hr
      exact hQ .ret u (.inr ⟨rfl, .of_rearmed hcur hr⟩)
    · exact hQ .brk v (.inl h)

theorem wp_readsBuffered {Q : Unit ⊕ Leave → View → Prop} (h : Work (some ev) v)
    (hone : ev.src.oneshot = true) (hgo : ∀ u, Work (some ev) u → Q (.inl ()) u)
    (hQ : ∀ out u, LeftAt ev out u → Q (.inr out) u) :
    wp leasing (bufferedRxfxnRead n ev.fd c) Q v := by
  unfold bufferedRxfxnRead
  rw [wp_do]
  refine wp_inert h rfl ?_
  intro rxb
  rw [wp_do]
  refine wp_inert h rfl ?_
  intro res
  split
  · rw [wp_do]
    exact wp_inert h rfl fun _ => hgo v h
  · split
    · rw [wp_do]
      exact wp_works h does_callBuffered fun cb u hu => wp_passes hu hone hQ
    · rw [wp_do]
      refine wp_inert h rfl ?_
      intro e
      split
      · rw [wp_do]
        exact wp_works h does_rxback fun cb u hu => wp_passes hu hone hQ
      · split
        · exact hQ .brk v (.inl h)
        · exact hgo v h

theorem spent_bufferedRxfxn (h : Work (some ev) v) (hone : ev.src.oneshot = true) :
    wp leasing (bufferedRxfxn n ev.fd c) (fun _ u => Spent ev u) v := by
  unfold bufferedRxfxn
  rw [wp_do]
  refine wp_mono (fun out u => spent_finish) ?_
  refine wp_loop (fun _ => Work (some ev)) (fun _ _ hu => hu.cut) ?_ n h
  intro _ v h
  rw [wp_do]
  refine wp_inert h rfl ?_
  intro rxb
  split
  · rw [wp_do]
    refine wp_works h does_bufferedRxfxnFull ?_
    intro out u hu
    cases out with
    | some out => exact .inl hu
    | none => exact wp_readsBuffered hu hone (fun u hu => hu) fun out u hu => hu
  · exact wp_readsBuffered h hone (fun u hu => hu) fun out u hu => hu

theorem spent_bufferedTxfxn (h : Work (some ev) v) (hone : ev.src.oneshot = true) :
    wp leasing (bufferedTxfxn n ev.fd c) (fun _ u => Spent ev u) v := by
  have closes (r : Int) (u : View) (hu : Work (some ev) u) :
      wp leasing (if r ≠ 0 then close ev.fd else pure ()) (fun _ u => Spent ev u) u := by
    split
    · exact wp_closes hu fun u hu _ => hu.spent
    · exact hu.spent
  unfold bufferedTxfxn txback
  rw [wp_do, wp_do]
  refine wp_inert h rfl ?_
  intro rxb
  split
  · rw [wp_do]
    refine wp_works h does_callBuffered ?_
    intro cb u hu
    split
    · refine wp_restores hu hone ?_ (closes (-1) u hu)
      intro _ t hcur hr
      exact Spent.of_rearmed hcur hr
    · exact closes (-1) u hu
  · exact closes 0 v h

end Buffered

/-! ## Handlers of SSL connections -/

section Ssl
variable {ev : Event} {v : View} {n c : Nat}

/-- In a callback of the client the descriptor is not armed. -/
theorem wp_sends {len : Int} {Q : Int → View → Prop} (h : Work (some ev) v)
    (hone : ev.src.oneshot = true) (hcall : v.calling = true)
    (hQ : ∀ r u, Work (some ev) u → u.calling = true → Q r u) :
    wp leasing (sslTx n ev.fd c len) Q v := by
  have restores (e : Events) (ret : Int) (u : View) (hu : Work (some ev) u)
      (huc : u.calling = true) :
      wp leasing (do let r ← restorefd ev.fd e; if r ≠ 0 then pure (-1) else pure ret) Q u := by
    rw [wp_do]
    refine wp_restores hu hone ?_ (hQ _ u hu huc)
    intro hno
    simp [huc] at hno
  unfold sslTx
  refine wp_loop (fun _ u => Work (some ev) u ∧ u.calling = true) (fun _ _ hu => hu.1.cut) ?_ n
    ⟨h, hcall⟩
  rintro ret v ⟨h, hcall⟩
  split
  · rw [wp_do]
    refine wp_inert h rfl ?_
    intro ssl
    rw [wp_do]
    refine wp_inert h rfl ?_
    intro r
    split
    · exact ⟨h, hcall⟩
    · rw [wp_do]
      refine wp_inert h rfl ?_
      intro err
      rw [wp_do]
      cases err with
      | wantRead =>
        unfold sslTxError
        dsimp only
        rw [wp_do]
        refine wp_setRx h hone (by simp) (by simp) ?_
        intro u hu huc
        rw [wp_do]
        refine wp_setTx hu hone (by simp) ?_
        intro t ht htc
        exact restores _ ret t ht (htc.trans (huc.trans hcall))
      | wantWrite => exact restores _ ret v h hcall
      | other _ => exact hQ _ v h hcall
  · exact hQ ret v h hcall

theorem wp_callsSsl {kind : CbKind} {f : Option Nat} {Q : Int → View → Prop} (h : Work (some ev) v)
    (hone : ev.src.oneshot = true) (hQ : ∀ r u, Work (some ev) u → Q r u) :
    wp leasing (callSsl n kind f ev.fd c) Q v := by
  unfold callSsl
  rw [wp_do]
  refine wp_op ⟨trivial, h.order⟩ ?_
  rintro _ u ⟨-, -, evs, rfl⟩
  refine wp_loop (fun _ u => Work (some ev) u ∧ u.calling = true) (fun _ _ hu => hu.1.cut) ?_ n
    ⟨h.callback, rfl⟩
  rintro _ u ⟨hu, huc⟩
  rw [wp_do]
  refine wp_op ⟨trivial, hu.order⟩ ?_
  rintro act t ⟨-, -, evs', rfl⟩
  cases act with
  | advance s =>
    rw [wp_do]
    exact wp_inert (hu.client (.advance s)) rfl fun _ => ⟨hu.client (.advance s), huc⟩
  | sslTx len =>
    rw [wp_do]
    refine wp_sends (hu.client (.sslTx len)) hone huc ?_
    intro _ t ht htc
    exact ⟨ht, htc⟩
  | close =>
    rw [wp_do]
    refine wp_op ⟨.inr ((hu.client .close).at rfl), (hu.client .close).order⟩ ?_
    rintro _ t ⟨-, -, evs'', rfl⟩
    refine ⟨(hu.client .close).close.1, ?_⟩
    have hsame (l : Local) (fd : Nat) : (l.close fd).calling = l.calling := by
      unfold Local.close
      split <;> rfl
    exact (hsame _ _).trans huc
  | ret r => exact hQ r _ (hu.client (.ret r))

theorem does_rxbufferSsl {ssl : Option Nat} :
    (rxbufferSsl c ssl).Only (fun q => q.inert = true) := by
  refine only_do (only_perform rfl) fun rxb => only_do (only_perform rfl) fun res => ?_
  split
  · exact only_do (only_perform rfl) fun _ => only_pure
  · exact only_pure

theorem wp_readsSsl {more : Int → Bool} {Q : Option Int → View → Prop} (h : Work (some ev) v)
    (hone : ev.src.oneshot = true) (hQ : ∀ r u, Work (some ev) u → Q r u) :
    wp leasing (sslReadLoop more n ev.fd c) Q v := by
  unfold sslReadLoop
  refine wp_loop (fun _ => Work (some ev)) (fun _ _ hu => hu.cut) ?_ n h
  intro _ v h
  rw [wp_do]
  refine wp_inert h rfl ?_
  intro sc
  rw [wp_do]
  refine wp_allInert h does_rxbufferSsl ?_
  intro r
  split
  · rw [wp_do]
    refine wp_inert h rfl ?_
    intro sc
    rw [wp_do]
    refine wp_callsSsl h hone ?_
    intro cb u hu
    split
    · exact hQ none u hu
    · exact hu
  · exact hQ (some r) v h

/-- The descriptor is armed, or else the connection is given up. -/
theorem spent_arms {e : Events} (h : Work (some ev) v) (hone : ev.src.oneshot = true)
    (hc : ev.src.state = .object c) :
    wp leasing (do let r ← restorefd ev.fd e; if r ≠ 0 then freeAndClose c ev.fd else pure ())
      (fun _ u => Spent ev u) v := by
  rw [wp_do]
  refine wp_restores h hone ?_ ?_
  · intro _ u hcur hr
    exact Spent.of_rearmed hcur hr
  · exact wp_freesAndCloses h hc fun u hu => hu

theorem wp_setSlotsOf {rx tx : Option Fn} {α : Type} {p : Prog α} {Q : α → View → Prop}
    (h : Work (some ev) v) (hone : ev.src.oneshot = true) (hrc : rx ≠ some .connUnbufferedTxfxn)
    (hrt : rx ≠ some .timerPassthru) (htt : tx ≠ some .timerPassthru)
    (hQ : ∀ u, Work (some ev) u → wp leasing p Q u) :
    wp leasing (do setEvsourceRx ev.fd rx; setEvsourceTx ev.fd tx; p) Q v := by
  rw [wp_do]
  refine wp_setRx h hone hrc hrt ?_
  intro u hu _
  rw [wp_do]
  exact wp_setTx hu hone htt fun t ht _ => hQ t ht

theorem spent_sslTxrxfxn (h : Work (some ev) v) (hone : ev.src.oneshot = true)
    (hc : ev.src.state = .object c) :
    wp leasing (sslTxrxfxn n ev.fd c) (fun _ u => Spent ev u) v := by
  unfold sslTxrxfxn
  rw [wp_do]
  refine wp_readsSsl h hone ?_
  intro r u hu
  cases r with
  | none => exact wp_freesAndCloses hu hc fun u hu => hu
  | some r =>
    dsimp only
    rw [wp_do]
    refine wp_inert hu rfl ?_
    intro sc
    rw [wp_do]
    refine wp_inert hu rfl ?_
    intro err
    cases err with
    | wantRead =>
      exact wp_setSlotsOf hu hone (by simp) (by simp) (by simp) fun t ht => spent_arms ht hone hc
    | wantWrite => exact spent_arms hu hone hc
    | other _ => exact wp_freesAndCloses hu hc fun u hu => hu

theorem spent_sslRxfxn (h : Work (some ev) v) (hone : ev.src.oneshot = true)
    (hc : ev.src.state = .object c) :
    wp leasing (sslRxfxn n ev.fd c) (fun _ u => Spent ev u) v := by
  unfold sslRxfxn
  rw [wp_do]
  refine wp_readsSsl h hone ?_
  intro r u hu
  cases r with
  | none => exact wp_freesAndCloses hu hc fun u hu => hu
  | some r =>
    dsimp only
    rw [wp_do]
    refine wp_inert hu rfl ?_
    intro sc
    rw [wp_do]
    refine wp_inert hu rfl ?_
    intro err
    cases err with
    | wantRead => exact spent_arms hu hone hc
    | wantWrite =>
      exact wp_setSlotsOf hu hone (by simp) (by simp) (by simp) fun t ht => spent_arms ht hone hc
    | other _ => exact wp_freesAndCloses hu hc fun u hu => hu

theorem spent_sslTxfxn (h : Work (some ev) v) (hone : ev.src.oneshot = true)
    (hc : ev.src.state = .object c) :
    wp leasing (sslTxfxn n ev.fd c) (fun _ u => Spent ev u) v := by
  unfold sslTxfxn
  rw [wp_do]
  refine wp_inert h rfl ?_
  intro sc
  split
  · exact wp_freesAndCloses h hc fun u hu => hu
  · rw [wp_do]
    refine wp_callsSsl h hone ?_
    intro r u hu
    split
    · exact wp_freesAndCloses hu hc fun u hu => hu
    · exact hu.spent

theorem does_initializeRxbuffer : (initializeRxbuffer c).Only (fun q => q.inert = true) := by
  refine only_do (only_perform rfl) fun rxb => only_do (only_perform rfl) fun page => ?_
  obtain ⟨s, _ | page⟩ := page
  · exact only_do (only_perform rfl) fun _ => only_pure
  · exact only_do (only_perform rfl) fun _ => only_pure

theorem sslSlots_untimed (sc : CbFields) :
    (sslSlots sc).1 ≠ some .connUnbufferedTxfxn ∧ (sslSlots sc).1 ≠ some .timerPassthru ∧
      (sslSlots sc).2 ≠ some .timerPassthru := by
  unfold sslSlots
  refine ⟨?_, ?_, ?_⟩ <;> simp

theorem spent_acceptContrxfxn (h : Work (some ev) v) (hone : ev.src.oneshot = true)
    (hc : ev.src.state = .object c) :
    wp leasing (acceptContrxfxn ev.fd c) (fun _ u => Spent ev u) v := by
  unfold acceptContrxfxn
  rw [wp_do]
  refine wp_inert h rfl ?_
  intro sc
  rw [wp_do]
  refine wp_inert h rfl ?_
  intro ret
  obtain ⟨hrc, hrt, htt⟩ := sslSlots_untimed sc
  split
  · dsimp only
    rw [wp_do]
    refine wp_allInert h does_initializeRxbuffer ?_
    intro r
    split
    · exact wp_freesAndCloses h hc fun u hu => hu
    · exact wp_setSlotsOf h hone hrc hrt htt fun t ht => spent_arms ht hone hc
  · rw [wp_do]
    refine wp_inert h rfl ?_
    intro err
    cases err with
    | wantRead => exact spent_arms h hone hc
    | wantWrite =>
      exact wp_setSlotsOf h hone (by simp) (by simp) (by simp) fun t ht => spent_arms ht hone hc
    | other _ => exact wp_freesAndCloses h hc fun u hu => hu

theorem spent_acceptConttxfxn (h : Work (some ev) v) (hone : ev.src.oneshot = true)
    (hc : ev.src.state = .object c) :
    wp leasing (acceptConttxfxn ev.fd c) (fun _ u => Spent ev u) v := by
  have sets (rx tx : Option Fn) (hrc : rx ≠ some .connUnbufferedTxfxn)
      (hrt : rx ≠ some .timerPassthru) (htt : tx ≠ some .timerPassthru) :
      wp leasing (do setEvsourceRx ev.fd rx; setEvsourceTx ev.fd tx) (fun _ u => Spent ev u) v := by
    rw [wp_do]
    refine wp_setRx h hone hrc hrt ?_
    intro u hu _
    exact wp_setTx hu hone htt fun t ht _ => ht.spent
  unfold acceptConttxfxn
  rw [wp_do]
  refine wp_inert h rfl ?_
  intro sc
  rw [wp_do]
  refine wp_inert h rfl ?_
  intro ret
  obtain ⟨hrc, hrt, htt⟩ := sslSlots_untimed sc
  split
  · dsimp only
    rw [wp_do]
    refine wp_allInert h does_initializeRxbuffer ?_
    intro r
    split
    · exact wp_freesAndCloses h hc fun u hu => hu
    · exact sets _ _ hrc hrt htt
  · rw [wp_do]
    refine wp_inert h rfl ?_
    intro err
    cases err with
    | wantRead => exact sets _ _ (by simp) (by simp) (by simp)
    | wantWrite => exact h.spent
    | other _ => exact wp_freesAndCloses h hc fun u hu => hu

end Ssl

end Libtorque
