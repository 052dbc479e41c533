import Libtorque.Protos.Accept
import Mathlib.Logic.Function.Basic

/-! # The event tables, the kernel's descriptors, and the heap

What all threads share, and the effect of each operation on it. A reply that
cannot occur, or a use of memory that is not allocated, has no effect defined. -/
namespace Libtorque

/-- A registration, which `id` tells from later ones of its descriptor. -/
structure Source where
  id : Nat
  oneshot : Bool
  state : CbState
deriving DecidableEq, Repr

/-- `armed` is the mask watched for, unless a one-shot registration is spent;
`reported`: an event of it has been retrieved before. -/
structure Reg extends Source where
  armed : Option Events
  reported : Bool := false
deriving DecidableEq, Repr

/-- A descriptor, and the epoll set as far as it is in it. -/
inductive Fd where
  | closed
  | idle
  | watched (r : Reg)
deriving DecidableEq, Repr

/-- An object, whose name is not used again. -/
inductive Life where
  | fresh
  | live
  | freed
deriving DecidableEq, Repr

structure World where
  fdarraysize : Nat := 1024
  fdarray : Nat → EvSource := fun _ => {}
  fds : Nat → Fd := fun _ => .closed
  objs : Nat → Life := fun _ => .fresh
  maps : Nat → Life := fun _ => .fresh
  rxbs : Nat → RxBuf := fun _ => {}
  fields : Nat → CbFields := fun _ => {}
  regs : Nat := 0

namespace World
open Function (update)

def setEntry (w : World) (fd : Nat) (e : EvSource) : World :=
  { w with fdarray := update w.fdarray fd e }

def setFd (w : World) (fd : Nat) (d : Fd) : World := { w with fds := update w.fds fd d }

def setObj (w : World) (c : Nat) (l : Life) : World := { w with objs := update w.objs c l }

def setMap (w : World) (m : Nat) (l : Life) : World := { w with maps := update w.maps m l }

/-- Descriptors are ints. -/
def openFd (w : World) (fd : Nat) : Option World :=
  if w.fds fd = .closed ∧ fd < 2 ^ 31 then some (w.setFd fd .idle) else none

def mapPage (w : World) : Option Pages → Option World
  | none => some w
  | some page => if w.maps page.ptr = .fresh then some (w.setMap page.ptr .live) else none

def unmap (w : World) : Option Nat → Option World
  | none => some w
  | some m => if w.maps m = .live then some (w.setMap m .freed) else none

/-- `epoll_ctl`, which refuses a descriptor that is watched already. -/
def epollCtl (w : World) (op : EpollOp) (fd : Nat) (e : Events) : Option World :=
  match op, w.fds fd with
  | .add, .idle =>
    let r : Reg := { id := w.regs, oneshot := e.has EPOLLONESHOT,
                     state := (w.fdarray fd).cbstate, armed := some e }
    some { w.setFd fd (.watched r) with regs := w.regs + 1 }
  | .mod, .watched r => some (w.setFd fd (.watched { r with armed := some e }))
  | _, _ => none

def next (w : World) : (o : Op) → o.Rep → Option World
  | .event, _ => none
  | .rxbuf c, rxb => if w.objs c = .live ∧ rxb = w.rxbs c then some w else none
  | .setRxbuf c rxb, _ =>
    if w.objs c = .live then some { w with rxbs := update w.rxbs c rxb } else none
  | .rxbufferAdvance c s, _ =>
    if w.objs c = .live then
      some { w with rxbs := update w.rxbs c (rxbufferAdvance (w.rxbs c) [] s).1 }
    else none
  | .fields c, f => if w.objs c = .live ∧ f = w.fields c then some w else none
  | .setFields c f, _ =>
    if w.objs c = .live then some { w with fields := update w.fields c f } else none
  | .evsource fd, evs => if evs = w.fdarray fd then some w else none
  | .setEvsourceRx fd f, _ => some (w.setEntry fd { w.fdarray fd with rxfxn := f })
  | .setEvsourceTx fd f, _ => some (w.setEntry fd { w.fdarray fd with txfxn := f })
  | .setEvsourceState fd st, _ => some (w.setEntry fd { w.fdarray fd with cbstate := st })
  | .fdarraysize, n => if n = w.fdarraysize then some w else none
  | .epollCtl op fd e, ok => if ok then w.epollCtl op fd e else some w
  | .close fd, _ => some (w.setFd fd .closed)
  | .accept _, some fd => w.openFd fd
  | .timerfdCreate, some fd => w.openFd fd
  | .malloc, some c => if w.objs c = .fresh then some (w.setObj c .live) else none
  | .free c, _ => if w.objs c = .live then some (w.setObj c .freed) else none
  | .getBigPage, (_, page) => w.mapPage page
  | .modPages buffer _ _, some page => (w.unmap buffer).bind (mapPage · (some page))
  | .dealloc buffer _, _ => w.unmap buffer
  | .read _ _ _ len, .bytes bs => if 0 < bs.length ∧ bs.length ≤ len then some w else none
  | .sslRead _ _ _ len, .bytes bs => if 0 < bs.length ∧ bs.length ≤ len then some w else none
  | .read .., .ret r => if r = 0 ∨ r = -1 then some w else none
  | .sslRead .., .ret r => if r ≤ 0 then some w else none
  | .sslWrite _ len, r => if r ≤ len then some w else none
  -- a call of NULL
  | .callback _ f _, _ => if f = none then none else some w
  | _, _ => some w

/-! ## What has an effect, and which -/

section Effects
variable {w v : World} {c fd : Nat}

theorem rxbuf_cases {rxb : RxBuf} (h : w.next (.rxbuf c) rxb = some v) :
    w.objs c = .live ∧ rxb = w.rxbs c ∧ v = w := by
  obtain ⟨⟨hlive, hload⟩, hv⟩ := Option.ite_none_right_eq_some.mp h
  cases hv
  exact ⟨hlive, hload, rfl⟩

theorem setRxbuf_cases {rxb : RxBuf} {r : Unit} (h : w.next (.setRxbuf c rxb) r = some v) :
    w.objs c = .live ∧ v = { w with rxbs := update w.rxbs c rxb } := by
  obtain ⟨hlive, hv⟩ := Option.ite_none_right_eq_some.mp h
  cases hv
  exact ⟨hlive, rfl⟩

theorem fields_cases {f : CbFields} (h : w.next (.fields c) f = some v) :
    w.objs c = .live ∧ f = w.fields c ∧ v = w := by
  obtain ⟨⟨hlive, hload⟩, hv⟩ := Option.ite_none_right_eq_some.mp h
  cases hv
  exact ⟨hlive, hload, rfl⟩

theorem setFields_cases {f : CbFields} {r : Unit} (h : w.next (.setFields c f) r = some v) :
    w.objs c = .live ∧ v = { w with fields := update w.fields c f } := by
  obtain ⟨hlive, hv⟩ := Option.ite_none_right_eq_some.mp h
  cases hv
  exact ⟨hlive, rfl⟩

theorem evsource_cases {evs : EvSource} (h : w.next (.evsource fd) evs = some v) :
    evs = w.fdarray fd ∧ v = w := by
  obtain ⟨hload, hv⟩ := Option.ite_none_right_eq_some.mp h
  cases hv
  exact ⟨hload, rfl⟩

theorem fdarraysize_cases {n : Nat} (h : w.next .fdarraysize n = some v) :
    n = w.fdarraysize ∧ v = w := by
  obtain ⟨hload, hv⟩ := Option.ite_none_right_eq_some.mp h
  cases hv
  exact ⟨hload, rfl⟩

/-- `accept` and `timerfd_create` open what they return. -/
theorem openFd_cases (h : w.openFd fd = some v) :
    (w.fds fd = .closed ∧ fd < 2 ^ 31) ∧ v = w.setFd fd .idle := by
  obtain ⟨hfd, hv⟩ := Option.ite_none_right_eq_some.mp h
  cases hv
  exact ⟨hfd, rfl⟩

theorem malloc_cases (h : w.next .malloc (some c) = some v) :
    w.objs c = .fresh ∧ v = w.setObj c .live := by
  obtain ⟨hfresh, hv⟩ := Option.ite_none_right_eq_some.mp h
  cases hv
  exact ⟨hfresh, rfl⟩

theorem free_cases {r : Unit} (h : w.next (.free c) r = some v) :
    w.objs c = .live ∧ v = w.setObj c .freed := by
  obtain ⟨hlive, hv⟩ := Option.ite_none_right_eq_some.mp h
  cases hv
  exact ⟨hlive, rfl⟩

theorem callback_cases {kind : CbKind} {f : Option Nat} {r : Unit}
    (h : w.next (.callback kind f fd) r = some v) : f ≠ none ∧ v = w := by
  obtain ⟨hf, hv⟩ := Option.ite_none_left_eq_some.mp h
  cases hv
  exact ⟨hf, rfl⟩

theorem epollCtl_cases {op : EpollOp} {e : Events} {ok : Bool}
    (h : w.next (.epollCtl op fd e) ok = some v) :
    (ok = true ∧ w.epollCtl op fd e = some v) ∨ (ok = false ∧ v = w) := by
  cases ok with
  | true => exact .inl ⟨rfl, h⟩
  | false =>
    cases h
    exact .inr ⟨rfl, rfl⟩

end Effects

/-- What loads find. -/
def loads (w : World) : Loads where
  rxbuf := w.rxbs
  fields := w.fields
  evsource := w.fdarray
  fdarraysize := w.fdarraysize

end World

end Libtorque
