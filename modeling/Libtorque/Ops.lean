import Libtorque.Errors
import Libtorque.Lib.Prog
import Mathlib.Algebra.Group.Nat.Defs

/-! # What the library's code is about: sources, buffers, and the world it calls

The callbacks and states kept in `evsource` entries, the `torque_rxbuf` of a
buffered source, and the operations through which the handlers reach the
kernel, OpenSSL, the allocator, the event tables and the client's code. -/
namespace Libtorque

/-- A callback: one of the library's handlers, or a function of the client. -/
inductive Fn where
  | bufferedRxfxn
  | bufferedTxfxn
  | sslRxfxn
  | sslTxrxfxn
  | sslTxfxn
  | acceptContrxfxn
  | acceptConttxfxn
  | sslAcceptRxfxn
  | connUnbufferedTxfxn
  | timerPassthru
  | client (f : Nat)
deriving DecidableEq, Repr

/-- A callback state: the client's own, or an object of the library. -/
inductive CbState where
  | client (v : Nat)
  | object (c : Nat)
deriving DecidableEq, Repr

structure EvSource where
  rxfxn : Option Fn := none
  txfxn : Option Fn := none
  cbstate : CbState := .client 0
deriving DecidableEq, Repr

/-- `torque_rxbuf`; `buffer` names a mapping, and `rx` and `tx` are functions
of the client. -/
structure RxBuf where
  buffer : Option Nat := none
  buftot : Nat := 0
  bufoff : Nat := 0
  bufate : Nat := 0
  rx : Option Nat := none
  tx : Option Nat := none
deriving DecidableEq, Repr

/-- The other fields of a `torque_rxbufcb`, `ssl_cbstate`, `torque_conncb` or
`timerfd_marshal`, whose one callback is `txfxn` here. -/
structure CbFields where
  sslctx : Nat := 0
  ssl : Option Nat := none
  cbstate : Nat := 0
  rxfxn : Option Nat := none
  txfxn : Option Nat := none
deriving DecidableEq, Repr

/-! ## Machine integers -/

/-- `size_t` has 64 bits. -/
def sizeMax : Nat := 2 ^ 64 - 1

def sizeAdd (a b : Nat) : Nat := (a + b) % 2 ^ 64

def sizeSub (a b : Nat) : Nat := (a + (2 ^ 64 - b)) % 2 ^ 64

def sizeMul (a b : Nat) : Nat := (a * b) % 2 ^ 64

/-- A length as an `int`. -/
def intOf (n : Nat) : Int := (n : Int).bmod (2 ^ 32)

theorem sizeAdd_eq {a b : Nat} (h : a + b < 2 ^ 64) : sizeAdd a b = a + b := Nat.mod_eq_of_lt h

theorem sizeSub_eq {a b : Nat} (h : b ≤ a) (ha : a < 2 ^ 64) : sizeSub a b = a - b := by
  unfold sizeSub
  omega

theorem intOf_eq {n : Nat} (h : n < 2 ^ 31) : intOf n = n := by
  unfold intOf
  rw [Int.bmod_eq_of_le] <;> omega

/-! ## Events -/

/-- An event mask of epoll(7). -/
abbrev Events := BitVec 32

def EPOLLIN : Events := 0x001
def EPOLLPRI : Events := 0x002
def EPOLLOUT : Events := 0x004
def EPOLLRDHUP : Events := 0x2000
def EPOLLONESHOT : Events := 1 <<< 30
def EPOLLET : Events := 1 <<< 31

def EVREAD : Events := EPOLLIN ||| EPOLLPRI ||| EPOLLRDHUP
def EVWRITE : Events := EPOLLOUT
def EVONESHOT : Events := EPOLLONESHOT
def EVEDGET : Events := EPOLLET

/-- Whether a mask has one of the bits of another. -/
def Events.has (e f : Events) : Bool := e &&& f != 0

inductive EpollOp where
  | add
  | mod
deriving DecidableEq, Repr

/-! ## Replies -/

/-- What `read` or `SSL_read` did: it stored some bytes, or returned `r ≤ 0`. -/
inductive IoRes where
  | bytes (bs : List UInt8)
  | ret (r : Int)
deriving DecidableEq, Repr

/-- The value returned, as the `int` that the callers keep it in. -/
def IoRes.value : IoRes → Int
  | bytes bs => intOf bs.length
  | ret r => r

/-- The result of `SSL_get_error`. -/
inductive SslErr where
  | wantRead
  | wantWrite
  | other (n : Nat)
deriving DecidableEq, Repr

/-- Freshly mapped pages and what they hold. -/
structure Pages where
  ptr : Nat
  bytes : List UInt8
deriving DecidableEq, Repr

/-- In which role a function of the client is called. -/
inductive CbKind where
  | rx
  | tx
  | sslRx
  | sslTx
  | unbuffered
  | timer
deriving DecidableEq, Repr

/-- What a callback of the client does next with its own descriptor. -/
inductive ClientAct where
  | advance (s : Nat)
  | sslTx (len : Int)
  | close
  | ret (v : Int)
deriving DecidableEq, Repr

/-! ## Operations -/

/-- `event`, `enter` and `leave` are not calls: they mark where an event is
received for a descriptor and where one of its handlers runs. -/
inductive Op where
  | event
  | enter (f : Fn) (fd : Nat) (st : CbState)
  | leave
  | rxbuf (c : Nat)
  | setRxbuf (c : Nat) (b : RxBuf)
  | rxbufferAdvance (c s : Nat)
  | fields (c : Nat)
  | setFields (c : Nat) (f : CbFields)
  | evsource (fd : Nat)
  | setEvsourceRx (fd : Nat) (f : Option Fn)
  | setEvsourceTx (fd : Nat) (f : Option Fn)
  | setEvsourceState (fd : Nat) (st : CbState)
  | fdarraysize
  | epollCtl (op : EpollOp) (fd : Nat) (e : Events)
  | errno
  | read (fd c off len : Nat)
  | close (fd : Nat)
  | accept (fd : Nat)
  | fcntl (fd : Nat)
  | connect (fd : Nat)
  | timerfdCreate
  | timerfdSettime (fd : Nat)
  | malloc
  | free (c : Nat)
  | getBigPage
  | modPages (buffer : Option Nat) (olds news : Nat)
  | dealloc (buffer : Option Nat) (s : Nat)
  | sslNew (ctx : Nat)
  | sslSetFd (ssl : Option Nat) (fd : Nat)
  | sslFree (ssl : Option Nat)
  | sslAccept (ssl : Option Nat)
  | sslRead (ssl : Option Nat) (c off : Nat) (len : Int)
  | sslWrite (ssl : Option Nat) (len : Int)
  | sslGetError (ssl : Option Nat) (r : Int)
  | callback (kind : CbKind) (f : Option Nat) (fd : Nat)
  | client (kind : CbKind)
deriving DecidableEq, Repr

/-- A call that may fail gives `none` or `false`. -/
abbrev Op.Rep : Op → Type
  | event => Events
  | rxbuf _ => RxBuf
  | fields _ => CbFields
  | evsource _ => EvSource
  | fdarraysize => Nat
  | epollCtl .. | fcntl _ | connect _ | timerfdSettime _ => Bool
  | errno => Errno
  | read .. | sslRead .. => IoRes
  | accept _ | timerfdCreate | malloc | sslNew _ => Option Nat
  -- the page size as well, which is stored whether pages are found or not
  | getBigPage => Nat × Option Pages
  | modPages .. => Option Pages
  | sslSetFd .. | sslAccept _ | sslWrite .. => Int
  | sslGetError .. => SslErr
  | client _ => ClientAct
  | _ => Unit

/-- The library's code. -/
abbrev Prog (α : Type) := Lib.Prog Op Op.Rep α

abbrev perform (o : Op) : Prog o.Rep := Lib.Prog.perform o

abbrev loop {α β : Type} (n : Nat) (b : β) (body : β → Prog (β ⊕ α)) : Prog α :=
  Lib.Prog.loop body n b

abbrev rxbuf (c : Nat) : Prog RxBuf := perform (.rxbuf c)
abbrev setRxbuf (c : Nat) (b : RxBuf) : Prog Unit := perform (.setRxbuf c b)
abbrev fields (c : Nat) : Prog CbFields := perform (.fields c)
abbrev setFields (c : Nat) (f : CbFields) : Prog Unit := perform (.setFields c f)
abbrev evsource (fd : Nat) : Prog EvSource := perform (.evsource fd)
abbrev epollCtl (op : EpollOp) (fd : Nat) (e : Events) : Prog Bool := perform (.epollCtl op fd e)
abbrev errno : Prog Errno := perform .errno
abbrev close (fd : Nat) : Prog Unit := perform (.close fd)
abbrev malloc : Prog (Option Nat) := perform .malloc
abbrev free (c : Nat) : Prog Unit := perform (.free c)
abbrev getBigPage : Prog (Nat × Option Pages) := perform .getBigPage
abbrev dealloc (buffer : Option Nat) (s : Nat) : Prog Unit := perform (.dealloc buffer s)
abbrev sslAccept (ssl : Option Nat) : Prog Int := perform (.sslAccept ssl)
abbrev sslGetError (ssl : Option Nat) (r : Int) : Prog SslErr := perform (.sslGetError ssl r)

/-! ## Runs on given results -/

/-- A result for an operation. -/
inductive Answer where
  | events (e : Events)
  | io (r : IoRes)
  | int (r : Int)
  | flag (b : Bool)
  | ptr (p : Option Nat)
  | page (size : Nat) (page : Option Pages)
  | err (e : SslErr)
  | errno (e : Errno)
  | act (a : ClientAct)
deriving DecidableEq, Repr

/-- Operations whose reply the state does not give. -/
def Op.open : Op → Bool
  | event | epollCtl .. | errno | read .. | accept _ | fcntl _ | connect _ | timerfdCreate
  | timerfdSettime _ | malloc | getBigPage | modPages .. | sslNew _ | sslSetFd .. | sslAccept _
  | sslRead .. | sslWrite .. | sslGetError .. | client _ => true
  | _ => false

/-- What a load finds. -/
structure Loads where
  rxbuf : Nat → RxBuf
  fields : Nat → CbFields
  evsource : Nat → EvSource
  fdarraysize : Nat

def Loads.reply (l : Loads) (a : Option Answer) : (o : Op) → o.Rep
  | .rxbuf c => l.rxbuf c
  | .fields c => l.fields c
  | .evsource fd => l.evsource fd
  | .fdarraysize => l.fdarraysize
  | .event => match a with | some (.events e) => e | _ => 0
  | .epollCtl .. | .fcntl _ | .connect _ | .timerfdSettime _ =>
    match a with | some (.flag b) => b | _ => false
  | .errno => match a with | some (.errno e) => e | _ => .eintr
  | .read .. | .sslRead .. => match a with | some (.io r) => r | _ => .ret (-1)
  | .accept _ | .timerfdCreate | .malloc | .sslNew _ =>
    match a with | some (.ptr p) => p | _ => none
  | .getBigPage => match a with | some (.page size page) => (size, page) | _ => (0, none)
  | .modPages .. => match a with | some (.page _ page) => page | _ => none
  | .sslSetFd .. | .sslAccept _ | .sslWrite .. => match a with | some (.int r) => r | _ => -1
  | .sslGetError .. => match a with | some (.err e) => e | _ => .other 0
  | .client _ => match a with | some (.act a) => a | _ => .ret 0
  | .enter .. | .leave | .setRxbuf .. | .rxbufferAdvance .. | .setFields .. | .setEvsourceRx ..
  | .setEvsourceTx .. | .setEvsourceState .. | .close _ | .free _ | .dealloc .. | .sslFree _
  | .callback .. => ()

/-- The replies of a run of at most `n` operations, where loads find what is
there and the other operations give the results listed. -/
def script {σ α : Type} (next : σ → (o : Op) → o.Rep → Option σ) (loads : σ → Loads) :
    Nat → σ × Prog α → List Answer → List ((o : Op) → o.Rep)
  | 0, _, _ => []
  | n + 1, x, as =>
    match x.2.op with
    | none => []
    | some o =>
      let r := (loads x.1).reply (if o.open then as.head? else none)
      match Lib.Prog.step next x r with
      | none => [r]
      | some y => r :: script next loads n y (if o.open then as.tail else as)

end Libtorque
