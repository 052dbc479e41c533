import Libtorque.Events.Thread

/-! # One descriptor, its callback state, and what its handlers do to them

The state of one registered descriptor while its events are handled one after
another, and the effect of each operation of its handlers. An operation whose
reply cannot occur, or that uses the callback state after it was freed, has no
effect defined: the run ends there. So it does where `handle_event` enters the
write handler with a state that the read handler of the same event has freed. -/
namespace Libtorque

/-- The buffer of a descriptor, with the bytes it holds, all the bytes that
were read into it, and all that the client has released. -/
structure Stream where
  rxb : RxBuf := {}
  mem : List UInt8 := []
  input : List UInt8 := []
  released : List UInt8 := []
deriving DecidableEq, Repr

/-- The window [bufate, bufoff). -/
def Stream.window (s : Stream) : List UInt8 := (s.mem.take s.rxb.bufoff).drop s.rxb.bufate

def Stream.advance (s : Stream) (n : Nat) : Stream :=
  let (rxb, mem) := rxbufferAdvance s.rxb s.mem n
  { s with rxb := rxb, mem := mem, released := s.released ++ s.window.take n }

/-- How a descriptor is registered, and where its handlers are. `armed` is the
mask that epoll watches for, unless the one-shot registration is spent;
`running` is the handler at work, `calling` the callback of the client that it
is in, and `want` the last result of `SSL_get_error`. -/
structure Link where
  slots : EvSource := {}
  armed : Option Events := none
  closed : Bool := false
  freed : Bool := false
  running : Option Fn := none
  calling : Option CbKind := none
  want : Option SslErr := none
deriving DecidableEq, Repr

/-- `eof`: the last `read` returned 0. -/
structure Conn extends Stream, Link where
  fields : CbFields := {}
  eof : Bool := false
deriving DecidableEq, Repr

/-- `buffer[off ..]` is overwritten with `bs`. -/
def overwrite (buffer : List UInt8) (off : Nat) (bs : List UInt8) : List UInt8 :=
  buffer.take off ++ bs ++ buffer.drop (off + bs.length)

/-- On Linux one `read` transfers at most this many bytes. -/
def maxRwCount : Nat := 0x7ffff000

/-- `read` at offset `off` of the buffer, for up to `len` bytes. -/
def Conn.read (s : Conn) (off len : Nat) : IoRes → Option Conn
  | .bytes bs =>
    if 0 < bs.length ∧ bs.length ≤ len ∧ bs.length ≤ maxRwCount ∧ ¬ s.closed then
      some { s with mem := overwrite s.mem off bs, input := s.input ++ bs, eof := false }
    else none
  | .ret r => if r = 0 ∨ r = -1 then some { s with eof := r = 0 } else none

/-- `SSL_read` likewise. -/
def Conn.sslRead (s : Conn) (off : Nat) (len : Int) : IoRes → Option Conn
  | .bytes bs =>
    if 0 < bs.length ∧ bs.length ≤ len then
      some { s with mem := overwrite s.mem off bs, input := s.input ++ bs }
    else none
  | .ret r => if r ≤ 0 then some s else none

/-- What pages are found, if their size is not 0. -/
def Conn.getBigPage (s : Conn) : Nat × Option Pages → Option Conn
  | (_, none) => some s
  | (size, some page) =>
    if 0 < size ∧ size ≤ sizeMax ∧ page.bytes.length = size then
      some { s with mem := page.bytes }
    else none

/-- `mod_pages` keeps the old contents when it succeeds, and fails when the
doubled size would exceed `SIZE_MAX`. -/
def Conn.modPages (s : Conn) (olds news : Nat) : Option Pages → Option Conn
  | none => some s
  | some page =>
    if 2 * olds ≤ sizeMax ∧ page.bytes.length = news ∧
        page.bytes.take olds = s.mem.take olds then
      some { s with mem := page.bytes }
    else none

/-- The client releases no more than `rxbuffer_valid` shows it. -/
def Conn.client (s : Conn) : ClientAct → Option Conn
  | .advance n => if n ≤ s.window.length then some s else none
  | .ret _ => some { s with calling := none }
  | _ => some s

def Conn.next (s : Conn) : (o : Op) → o.Rep → Option Conn
  | .event, _ => if s.closed ∨ s.armed = none then none else some { s with armed := none }
  | .enter f _ _, _ => if s.freed then none else some { s with running := some f }
  | .leave, _ => some { s with running := none }
  | .rxbuf _, rxb => if s.freed ∨ rxb ≠ s.rxb then none else some s
  | .setRxbuf _ rxb, _ => if s.freed then none else some { s with rxb := rxb }
  | .rxbufferAdvance _ n, _ =>
    if s.freed then none else some { s with toStream := s.toStream.advance n }
  | .fields _, f => if s.freed ∨ f ≠ s.fields then none else some s
  | .setFields _ f, _ => if s.freed then none else some { s with fields := f }
  | .evsource _, evs => if evs ≠ s.slots then none else some s
  | .setEvsourceRx _ f, _ => some { s with slots := { s.slots with rxfxn := f } }
  | .setEvsourceTx _ f, _ => some { s with slots := { s.slots with txfxn := f } }
  | .setEvsourceState _ st, _ => some { s with slots := { s.slots with cbstate := st } }
  | .epollCtl _ _ e, ok =>
    if ok then if s.closed then none else some { s with armed := some e } else some s
  | .close _, _ => some { s with closed := true, armed := none }
  | .free _, _ => some { s with freed := true }
  | .read _ _ off len, res => s.read off len res
  | .sslRead _ _ off len, res => s.sslRead off len res
  | .getBigPage, res => s.getBigPage res
  | .modPages _ olds news, res => s.modPages olds news res
  | .sslWrite _ len, r => if r ≤ len then some s else none
  | .sslGetError .., err => some { s with want := some err }
  -- a call of NULL
  | .callback kind f _, _ => if f = none then none else some { s with calling := some kind }
  | .client _, a => s.client a
  -- other descriptors
  | .accept _, _ | .connect _, _ | .fcntl _, _ | .timerfdCreate, _ | .timerfdSettime _, _ => none
  | _, _ => some s

theorem read_cases {s t : Conn} {off len : Nat} {res : IoRes} (h : s.read off len res = some t) :
    (∃ bs, res = .bytes bs ∧ 0 < bs.length ∧ bs.length ≤ len ∧ bs.length ≤ maxRwCount ∧
      t = { s with mem := overwrite s.mem off bs, input := s.input ++ bs, eof := false }) ∨
    (res = .ret 0 ∧ t = { s with eof := true }) ∨
    (res = .ret (-1) ∧ t = { s with eof := false }) := by
  unfold Conn.read at h
  cases res with
  | bytes bs =>
    dsimp only at h
    by_cases hbs : 0 < bs.length ∧ bs.length ≤ len ∧ bs.length ≤ maxRwCount ∧ ¬ s.closed
    · rw [if_pos hbs] at h
      cases h
      exact .inl ⟨bs, rfl, hbs.1, hbs.2.1, hbs.2.2.1, rfl⟩
    · rw [if_neg hbs] at h
      cases h
  | ret r =>
    dsimp only at h
    split at h
    · rename_i hr
      cases h
      rcases hr with rfl | rfl
      · exact .inr (.inl ⟨rfl, rfl⟩)
      · exact .inr (.inr ⟨rfl, rfl⟩)
    · cases h

theorem sslRead_cases {s t : Conn} {off : Nat} {len : Int} {res : IoRes}
    (h : s.sslRead off len res = some t) :
    (∃ bs, res = .bytes bs ∧ 0 < bs.length ∧ (bs.length : Int) ≤ len ∧
      t = { s with mem := overwrite s.mem off bs, input := s.input ++ bs }) ∨
    (∃ r, res = .ret r ∧ r ≤ 0 ∧ t = s) := by
  unfold Conn.sslRead at h
  cases res with
  | bytes bs =>
    dsimp only at h
    by_cases hbs : 0 < bs.length ∧ (bs.length : Int) ≤ len
    · rw [if_pos hbs] at h
      cases h
      exact .inl ⟨bs, rfl, hbs.1, hbs.2, rfl⟩
    · rw [if_neg hbs] at h
      cases h
  | ret r =>
    dsimp only at h
    by_cases hr : r ≤ 0
    · rw [if_pos hr] at h
      cases h
      exact .inr ⟨r, rfl, hr, rfl⟩
    · rw [if_neg hr] at h
      cases h

/-! ## What has an effect, and which -/

section Effects
variable {s t : Conn}

theorem event_cases {e : Events} (h : s.next .event e = some t) :
    s.closed = false ∧ s.armed ≠ none ∧ t = { s with armed := none } := by
  obtain ⟨hlive, ht⟩ := Option.ite_none_left_eq_some.mp h
  cases ht
  rw [not_or, Bool.not_eq_true] at hlive
  exact ⟨hlive.1, hlive.2, rfl⟩

theorem enter_cases {f : Fn} {fd : Nat} {st : CbState} {r : Unit}
    (h : s.next (.enter f fd st) r = some t) :
    s.freed = false ∧ t = { s with running := some f } := by
  obtain ⟨hfreed, ht⟩ := Option.ite_none_left_eq_some.mp h
  cases ht
  exact ⟨eq_false_of_ne_true hfreed, rfl⟩

/-- A load gives what is there. -/
theorem rxbuf_cases {c : Nat} {rxb : RxBuf} (h : s.next (.rxbuf c) rxb = some t) :
    s.freed = false ∧ rxb = s.rxb ∧ t = s := by
  obtain ⟨hload, ht⟩ := Option.ite_none_left_eq_some.mp h
  cases ht
  rw [not_or, not_not, Bool.not_eq_true] at hload
  exact ⟨hload.1, hload.2, rfl⟩

theorem fields_cases {c : Nat} {f : CbFields} (h : s.next (.fields c) f = some t) :
    s.freed = false ∧ f = s.fields ∧ t = s := by
  obtain ⟨hload, ht⟩ := Option.ite_none_left_eq_some.mp h
  cases ht
  rw [not_or, not_not, Bool.not_eq_true] at hload
  exact ⟨hload.1, hload.2, rfl⟩

theorem evsource_cases {fd : Nat} {evs : EvSource} (h : s.next (.evsource fd) evs = some t) :
    evs = s.slots ∧ t = s := by
  obtain ⟨hload, ht⟩ := Option.ite_none_left_eq_some.mp h
  cases ht
  exact ⟨not_not.mp hload, rfl⟩

theorem setRxbuf_cases {c : Nat} {rxb : RxBuf} {r : Unit}
    (h : s.next (.setRxbuf c rxb) r = some t) :
    s.freed = false ∧ t = { s with rxb := rxb } := by
  obtain ⟨hfreed, ht⟩ := Option.ite_none_left_eq_some.mp h
  cases ht
  exact ⟨eq_false_of_ne_true hfreed, rfl⟩

theorem callback_cases {kind : CbKind} {f : Option Nat} {fd : Nat} {r : Unit}
    (h : s.next (.callback kind f fd) r = some t) :
    f ≠ none ∧ t = { s with calling := some kind } := by
  obtain ⟨hf, ht⟩ := Option.ite_none_left_eq_some.mp h
  cases ht
  exact ⟨hf, rfl⟩

theorem epollCtl_cases {op : EpollOp} {fd : Nat} {e : Events} {ok : Bool}
    (h : s.next (.epollCtl op fd e) ok = some t) :
    (ok = true ∧ s.closed = false ∧ t = { s with armed := some e }) ∨ (ok = false ∧ t = s) := by
  cases ok with
  | true =>
    obtain ⟨hclosed, ht⟩ := Option.ite_none_left_eq_some.mp h
    cases ht
    exact .inl ⟨rfl, eq_false_of_ne_true hclosed, rfl⟩
  | false =>
    cases h
    exact .inr ⟨rfl, rfl⟩

end Effects

/-- Operations that leave the buffer, the stream and the slots as they are. -/
def Op.quiet : Op → Bool
  | .setRxbuf .. | .rxbufferAdvance .. | .setEvsourceRx .. | .setEvsourceTx ..
  | .setEvsourceState .. | .read .. | .sslRead .. | .getBigPage | .modPages .. => false
  | _ => true

theorem next_quiet {s t : Conn} {o : Op} {r : o.Rep} (hq : o.quiet) (h : s.next o r = some t) :
    t.toStream = s.toStream ∧ t.slots = s.slots := by
  cases o <;> simp only [Op.quiet, Bool.false_eq_true] at hq <;>
    simp only [Conn.next, reduceCtorEq, Option.some.injEq] at h
  case client =>
    unfold Conn.client at h
    split at h
    · split at h <;> cases h
      exact ⟨rfl, rfl⟩
    · cases h; exact ⟨rfl, rfl⟩
    · cases h; exact ⟨rfl, rfl⟩
  case epollCtl =>
    split at h
    · split at h <;> cases h
      exact ⟨rfl, rfl⟩
    · cases h; exact ⟨rfl, rfl⟩
  all_goals
    first
    | (subst h; exact ⟨rfl, rfl⟩)
    | (split at h <;> cases h; exact ⟨rfl, rfl⟩)

/-- Operations that have nothing to do with how the descriptor is registered. -/
def Op.aside : Op → Bool
  | .event | .enter .. | .leave | .setEvsourceRx .. | .setEvsourceTx .. | .setEvsourceState ..
  | .epollCtl .. | .close _ | .free _ | .sslGetError .. | .callback .. | .client _ => false
  | _ => true

theorem next_aside {s t : Conn} {o : Op} {r : o.Rep} (hq : o.aside) (h : s.next o r = some t) :
    t.toLink = s.toLink := by
  cases o <;> simp only [Op.aside, Bool.false_eq_true] at hq <;>
    simp only [Conn.next, reduceCtorEq, Option.some.injEq] at h
  case read =>
    rcases read_cases h with ⟨_, _, _, _, _, rfl⟩ | ⟨_, rfl⟩ | ⟨_, rfl⟩ <;> rfl
  case sslRead =>
    rcases sslRead_cases h with ⟨_, _, _, _, rfl⟩ | ⟨_, _, _, rfl⟩ <;> rfl
  case getBigPage =>
    unfold Conn.getBigPage at h
    split at h
    · cases h; rfl
    · split at h <;> cases h
      rfl
  case modPages =>
    unfold Conn.modPages at h
    split at h
    · cases h; rfl
    · split at h <;> cases h
      rfl
  all_goals
    first
    | (subst h; rfl)
    | (split at h <;> cases h; rfl)

/-- Operations that neither read nor release, and are not a callback's. -/
def Op.dry : Op → Bool
  | .read .. | .sslRead .. | .rxbufferAdvance .. | .callback .. | .client _ | .sslWrite .. => false
  | _ => true

theorem next_dry {s t : Conn} {o : Op} {r : o.Rep} (ho : o.dry) (h : s.next o r = some t) :
    t.input = s.input ∧ t.released = s.released ∧ t.eof = s.eof ∧ t.calling = s.calling := by
  cases o <;> simp only [Op.dry, Bool.false_eq_true] at ho <;>
    simp only [Conn.next, reduceCtorEq, Option.some.injEq] at h
  case getBigPage =>
    unfold Conn.getBigPage at h
    split at h
    · cases h; exact ⟨rfl, rfl, rfl, rfl⟩
    · split at h <;> cases h
      exact ⟨rfl, rfl, rfl, rfl⟩
  case modPages =>
    unfold Conn.modPages at h
    split at h
    · cases h; exact ⟨rfl, rfl, rfl, rfl⟩
    · split at h <;> cases h
      exact ⟨rfl, rfl, rfl, rfl⟩
  case epollCtl =>
    split at h
    · split at h <;> cases h
      exact ⟨rfl, rfl, rfl, rfl⟩
    · cases h; exact ⟨rfl, rfl, rfl, rfl⟩
  all_goals
    first
    | (subst h; exact ⟨rfl, rfl, rfl, rfl⟩)
    | (split at h <;> cases h; exact ⟨rfl, rfl, rfl, rfl⟩)

/-- What the loads of a handler find. -/
def Conn.loads (s : Conn) : Loads where
  rxbuf _ := s.rxb
  fields _ := s.fields
  evsource _ := s.slots
  fdarraysize := 1024

end Libtorque
