import Libtorque.Dispatch.Connector
import Libtorque.Dispatch.Programs

/-! # Expirations of a timer

A timer's descriptor is registered without `EPOLLONESHOT`, and `timer_curry` frees
the marshal that the registration refers to. What keeps a second expiration from
being handled with the marshal that the first has freed is that nobody reads the
descriptor: the kernel does not report it again before. Any number of threads
handle the expirations of one timer here, in any interleaving, while the rest of
the program goes on. -/
namespace Libtorque
open Lib

/-! ## The timer -/

structure Timespec where
  sec : Nat
  nsec : Nat
deriving DecidableEq, Repr

structure Itimerspec where
  interval : Timespec
  value : Timespec
deriving DecidableEq, Repr

namespace Itimerspec

/-- Whether a timer set with `timerfd_settime` may expire, having expired so
many times: not at all if its value is 0, and once if its interval is. -/
def mayExpire (t : Itimerspec) (expired : Nat) : Bool :=
  t.value ≠ ⟨0, 0⟩ ∧ (t.interval ≠ ⟨0, 0⟩ ∨ expired = 0)

end Itimerspec

/-- The descriptor is watched, for the callback `f` by way of the marshal `tm`. -/
structure World.Timer (w : World) (fd tm f : Nat) : Prop where
  watched : ∃ r : Reg, w.fds fd = .watched r ∧ r.oneshot = false ∧
    r.armed = some (EPOLLET ||| EPOLLPRI ||| EVREAD)
  entry : w.fdarray fd = ⟨some .timerPassthru, none, .object tm⟩
  fields : (w.fields tm).txfxn = some f

/-! ## Runs -/

/-- `handlers` handle the expirations that have been reported; `unread`: nobody has
read the descriptor since the last of them. -/
structure TimerRun where
  world : World
  handlers : List (Prog Unit) := []
  expired : Nat := 0
  unread : Bool := false

/-- An expiration is reported, and a thread is to handle it (following each loop
at most `n` times); the `i`th of these threads goes on; or something else
happens, that does not concern the timer: its descriptor is the library's own. -/
inductive TimerAct where
  | expire (n : Nat)
  | op (i : Nat) (reply : (o : Op) → o.Rep)
  | other (w : World)

/-- The descriptor is read. -/
def Op.reads (fd : Nat) : Op → Bool
  | .read d .. => d = fd
  | _ => false

namespace TimerRun

/-- An edge-triggered timer is reported when it expires, and a timer that has
expired goes on only when it is read. -/
def step (t : Itimerspec) (fd tm : Nat) (s : TimerRun) : TimerAct → Option TimerRun
  | .expire n =>
    if t.mayExpire s.expired ∧ ¬ s.unread then
      (s.world.report fd EPOLLIN).map fun (w, ev) =>
        { world := w, handlers := handleEvent n ev.fd ev.mask :: s.handlers,
          expired := s.expired + 1, unread := true }
    else none
  | .op i reply =>
    s.handlers[i]?.bind fun p =>
      (Prog.step World.next (s.world, p) reply).map fun (w, q) =>
        { s with world := w, handlers := s.handlers.set i q,
                 unread := s.unread ∧ ¬ p.op.any (Op.reads fd) }
  | .other w =>
    if w.fds fd = s.world.fds fd ∧ w.fdarray fd = s.world.fdarray fd ∧
        w.fields tm = s.world.fields tm ∧ w.objs tm = s.world.objs tm then
      some { s with world := w }
    else none

/-- Whoever is about to read the marshal, or to free it, finds that it has not
been freed. -/
def MarshalHeld (tm : Nat) (s : TimerRun) : Prop :=
  ∀ p ∈ s.handlers, p.op = some (.fields tm) ∨ p.op = some (.free tm) → s.world.objs tm = .live

end TimerRun

/-! ## How far a thread has come -/

/-- What a thread that handles an expiration does next. -/
inductive Stage where
  | event (n : Nat)
  | entering
  | reading
  | calling
  | releasing
  | leaving
  | done
deriving DecidableEq

namespace Stage

def prog (fd tm f : Nat) : Stage → Prog Unit
  | event n => handleEvent n fd EPOLLIN
  | entering => do
    perform (.enter .timerPassthru fd (.object tm))
    timerCurry fd tm
    perform .leave
  | reading => do
    timerCurry fd tm
    perform .leave
  | calling => do
    perform (.callback .timer (some f) fd)
    free tm
    perform .leave
  | releasing => do
    free tm
    perform .leave
  | leaving => perform .leave
  | done => pure ()

def next : Stage → Stage
  | event _ => entering
  | entering => reading
  | reading => calling
  | calling => releasing
  | releasing => leaving
  | _ => done

/-- It has freed the marshal. -/
def past : Stage → Bool
  | leaving | done => true
  | _ => false

/-- It is about to read the marshal, or to free it. -/
def uses : Stage → Bool
  | reading | releasing => true
  | _ => false

/-- The operation it is about to perform. -/
def op (fd tm f : Nat) : Stage → Option Op
  | event _ => some (.evsource fd)
  | entering => some (.enter .timerPassthru fd (.object tm))
  | reading => some (.fields tm)
  | calling => some (.callback .timer (some f) fd)
  | releasing => some (.free tm)
  | leaving => some .leave
  | done => none

theorem prog_op (fd tm f : Nat) (st : Stage) : (st.prog fd tm f).op = st.op fd tm f := by
  cases st <;> rfl

theorem uses_iff (fd tm f : Nat) (st : Stage) :
    (st.prog fd tm f).op = some (.fields tm) ∨ (st.prog fd tm f).op = some (.free tm) ↔
      st.uses = true := by
  rw [prog_op]
  cases st <;> simp [op, uses]

/-- None of it reads the descriptor. -/
theorem reads_nothing (fd tm f : Nat) (st : Stage) :
    (st.prog fd tm f).op.any (Op.reads fd) = false := by
  rw [prog_op]
  cases st <;> rfl

/-- What one step of a handler does. -/
theorem step_cases {w : World} {fd tm f : Nat} (h : w.Timer fd tm f) {st : Stage}
    {reply : (o : Op) → o.Rep} {x : World × Prog Unit}
    (hx : Prog.step World.next (w, st.prog fd tm f) reply = some x) :
    st ≠ done ∧ x.2 = st.next.prog fd tm f ∧
      (x.1 = if st = releasing then w.setObj tm .freed else w) ∧
      (st.uses = true → w.objs tm = .live) := by
  obtain ⟨v, p⟩ := x
  cases st with
  | event n =>
    obtain ⟨w', hw, he⟩ := Option.map_eq_some_iff.mp hx
    cases he
    obtain ⟨hentry, rfl⟩ := World.evsource_cases hw
    rw [hentry, h.entry]
    exact ⟨by simp, rfl, rfl, fun h => absurd h Bool.false_ne_true⟩
  | entering =>
    cases hx
    exact ⟨by simp, rfl, rfl, fun h => absurd h Bool.false_ne_true⟩
  | reading =>
    obtain ⟨w', hw, he⟩ := Option.map_eq_some_iff.mp hx
    cases he
    obtain ⟨hlive, hmarsh, rfl⟩ := World.fields_cases hw
    rw [hmarsh]
    refine ⟨by simp, ?_, rfl, fun _ => hlive⟩
    rw [next, prog, ← h.fields]
    rfl
  | calling =>
    cases hx
    exact ⟨by simp, rfl, rfl, fun h => absurd h Bool.false_ne_true⟩
  | releasing =>
    obtain ⟨w', hw, he⟩ := Option.map_eq_some_iff.mp hx
    cases he
    obtain ⟨hlive, rfl⟩ := World.free_cases hw
    exact ⟨by simp, rfl, rfl, fun _ => hlive⟩
  | leaving =>
    cases hx
    exact ⟨by simp, rfl, rfl, fun h => absurd h Bool.false_ne_true⟩
  | done => cases hx

end Stage

namespace TimerRun
variable {t : Itimerspec} {fd tm f : Nat} {s s' : TimerRun} {stages : List Stage}

/-- The threads are at these stages, and one of them at most is past its release
of the marshal. -/
structure At (fd tm f : Nat) (s : TimerRun) (stages : List Stage) : Prop where
  timer : s.world.Timer fd tm f
  handlers : s.handlers = stages.map (Stage.prog fd tm f)
  expired : stages.length = s.expired
  unread : s.expired = 0 ∨ s.expired = 1 ∧ s.unread = true
  freed : s.world.objs tm = .live ∧ stages.countP Stage.past = 0 ∨
    s.world.objs tm = .freed ∧ stages.countP Stage.past = 1

/-- Who is about to use the marshal finds it, since no other thread is there. -/
theorem At.held (h : At fd tm f s stages) : MarshalHeld tm s := by
  have hone : s.expired ≤ 1 := by
    rcases h.unread with hnone | ⟨hone, -⟩ <;> omega
  intro p hp hop
  rw [h.handlers] at hp
  obtain ⟨st, hst, rfl⟩ := List.mem_map.mp hp
  rw [Stage.uses_iff] at hop
  rw [← h.expired] at hone
  obtain ⟨hlive, -⟩ | ⟨-, hcount⟩ := h.freed
  · exact hlive
  · -- another thread has freed it
    have hlength := List.length_eq_countP_add_countP Stage.past (l := stages)
    have hthis : 0 < stages.countP (fun st => ¬ st.past) := by
      refine List.countP_pos_iff.mpr ⟨st, hst, ?_⟩
      cases st <;> first | rfl | cases hop
    omega

theorem timer_setObj {w : World} (h : w.Timer fd tm f) (l : Life) :
    (w.setObj tm l).Timer fd tm f :=
  ⟨h.watched, h.entry, h.fields⟩

/-- A thread goes on, and reads nothing. -/
theorem At.op (h : At fd tm f s stages) {i : Nat} {reply : (o : Op) → o.Rep}
    (hs : s.step t fd tm (.op i reply) = some s') : ∃ stages', At fd tm f s' stages' := by
  obtain ⟨p, hp, hs⟩ := Option.bind_eq_some_iff.mp hs
  obtain ⟨⟨w, p'⟩, hx, rfl⟩ := Option.map_eq_some_iff.mp hs
  rw [h.handlers, List.getElem?_map] at hp
  obtain ⟨st, hi, rfl⟩ := Option.map_eq_some_iff.mp hp
  obtain ⟨hdone, rfl, rfl, huses⟩ := Stage.step_cases h.timer hx
  obtain ⟨hlt, hst⟩ := List.getElem?_eq_some_iff.mp hi
  obtain ⟨l, l', hstages, hset⟩ : ∃ l l', stages = l ++ st :: l' ∧
      stages.set i st.next = l ++ st.next :: l' := by
    obtain ⟨l, l', hstages, -, hset⟩ := List.exists_of_set hlt
    rw [hst] at hstages
    exact ⟨l, l', hstages, hset⟩
  have hcount (x : Stage) : (l ++ x :: l').countP Stage.past =
      (l ++ l').countP Stage.past + (if x.past then 1 else 0) := by
    rw [List.countP_append, List.countP_cons, List.countP_append, Nat.add_assoc]
  refine ⟨l ++ st.next :: l', ?_, ?_, ?_, ?_, ?_⟩
  · dsimp only
    split
    · exact timer_setObj h.timer .freed
    · exact h.timer
  · dsimp only
    rw [← hset, h.handlers, List.map_set]
  · rw [← hset, List.length_set]
    exact h.expired
  · dsimp only
    rw [Stage.reads_nothing]
    simpa using h.unread
  · have hfreed := h.freed
    rw [hstages, hcount] at hfreed
    rw [hcount]
    cases st with
    | releasing =>
      have hnone : (l ++ l').countP Stage.past = 0 := by
        have hlive := huses rfl
        simp_all [Stage.past]
      exact .inr ⟨Function.update_self .., by rw [hnone]; rfl⟩
    | done => exact absurd rfl hdone
    | _ => exact hfreed

/-- An expiration leaves the descriptor armed. -/
theorem At.report (h : At fd tm f s stages) :
    ∃ w ev, s.world.report fd EPOLLIN = some (w, ev) ∧ ev.fd = fd ∧ ev.mask = EPOLLIN ∧
      w.Timer fd tm f ∧ w.objs = s.world.objs := by
  obtain ⟨r, hr, honeshot, harmed⟩ := h.timer.watched
  refine ⟨s.world.setFd fd (.watched { r with armed := r.armed, reported := true }),
    ⟨fd, EPOLLIN, r.toSource⟩, ?_, rfl, rfl, ⟨⟨_, Function.update_self .., ?_⟩, h.timer.entry,
      h.timer.fields⟩, rfl⟩
  · have hreportable : reportable (EPOLLET ||| EPOLLPRI ||| EVREAD) EPOLLIN = true := by decide
    simp only [World.report, hr, harmed, hreportable, if_true, honeshot, Bool.false_eq_true,
      if_false]
  · exact ⟨honeshot, harmed⟩

/-- It is the first expiration. -/
theorem At.expire {n : Nat} (h : At fd tm f s stages)
    (hs : s.step t fd tm (.expire n) = some s') : At fd tm f s' (.event n :: stages) := by
  obtain ⟨w, ev, hw, hfd, hmask, htimer, hobjs⟩ := h.report
  rw [step] at hs
  split at hs
  · rename_i hmay
    have hfirst : s.expired = 0 := by
      rcases h.unread with hnone | ⟨-, hunread⟩
      · exact hnone
      · exact absurd hunread hmay.2
    rw [hw] at hs
    cases hs
    refine ⟨htimer, ?_, congrArg Nat.succ h.expired, .inr ⟨?_, rfl⟩, ?_⟩
    · dsimp only
      rw [List.map_cons, ← h.handlers, hfd, hmask]
      rfl
    · dsimp only
      rw [hfirst]
    · dsimp only
      rw [hobjs, List.countP_cons_of_neg Bool.false_ne_true]
      exact h.freed
  · cases hs

theorem At.other {w : World} (h : At fd tm f s stages)
    (hs : s.step t fd tm (.other w) = some s') : At fd tm f s' stages := by
  rw [step] at hs
  split at hs
  · rename_i hsame
    obtain ⟨hfd, hentry, hfields, hobjs⟩ := hsame
    cases hs
    refine ⟨⟨?_, ?_, ?_⟩, h.handlers, h.expired, h.unread, ?_⟩
    · rw [hfd]
      exact h.timer.watched
    · rw [hentry]
      exact h.timer.entry
    · rw [hfields]
      exact h.timer.fields
    · dsimp only
      rw [hobjs]
      exact h.freed
  · cases hs

/-- What any step does. -/
theorem At.step {a : TimerAct} (h : At fd tm f s stages) (hs : s.step t fd tm a = some s') :
    ∃ stages', At fd tm f s' stages' := by
  cases a with
  | expire n => exact ⟨_, h.expire hs⟩
  | op i reply => exact h.op hs
  | other w => exact ⟨stages, h.other hs⟩

end TimerRun

/-! ## Registration -/

/-- Any reply that the world has. -/
def anyReply (_ : World) (o : Op) (_ : o.Rep) : Bool := true

/-- A timer that is not set, or not registered. -/
theorem wp_abandon {w : World} {fd tm : Nat} {e : Int} {P : World → Prop} (he : e ≠ 0) :
    wp (registerContract anyReply)
      (do
        close fd
        free tm
        pure e)
      (fun r v => r = 0 → P v) w := by
  rw [wp_do]
  refine wp_whatever fun _ u => ?_
  rw [wp_do]
  exact wp_whatever fun _ _ hr => absurd hr he

/-- What `torque_addtimer` leaves when it succeeds. -/
theorem wp_torqueAddtimer (w : World) (f state : Nat) :
    wp (registerContract anyReply) (torqueAddtimer (some f) state)
      (fun r v => r = 0 → ∃ fd tm, v.Timer fd tm f ∧ v.objs tm = .live) w := by
  unfold torqueAddtimer addTimerToEvhandler createTimerfdMarshal
  rw [wp_do, wp_do]
  refine wp_register fun tm w₁ _ h₁ => ?_
  cases tm with
  | none => exact fun h => absurd h (by decide)
  | some tm =>
    obtain ⟨-, rfl⟩ := World.malloc_cases h₁
    dsimp only
    rw [wp_do]
    refine wp_register fun _ w₂ _ h₂ => ?_
    obtain ⟨hlive, rfl⟩ := World.setFields_cases h₂
    rw [wp_pure]
    dsimp only
    rw [wp_do]
    refine wp_register fun fd w₃ _ h₃ => ?_
    cases fd with
    | none =>
      dsimp only
      rw [wp_do]
      refine wp_whatever fun _ _ => ?_
      rw [wp_do]
      refine wp_whatever fun _ _ => ?_
      split
      · exact fun h => absurd h (by decide)
      · split <;> exact fun h => absurd h (by decide)
    | some fd =>
      obtain ⟨hfd, rfl⟩ := World.openFd_cases h₃
      dsimp only
      rw [wp_do]
      refine wp_register fun ok w₄ _ h₄ => ?_
      cases h₄
      cases ok with
      | false => exact wp_abandon (by decide)
      | true =>
        rw [if_pos rfl, wp_do]
        refine wp_registered (fun v => ?_) fun v hadded => ?_
        · exact wp_abandon (by decide)
        · intro _
          rw [unsigned_natCast hfd.2] at hadded
          obtain ⟨r, hr, honeshot, harmed⟩ := hadded.watched
          -- not one-shot, since `eflags` is 0
          have hmask : EvSource.addedMask ⟨some .timerPassthru, none, .object tm⟩ 0 =
              EPOLLET ||| EPOLLPRI ||| EVREAD := rfl
          rw [hmask] at honeshot harmed
          have htimer : v.Timer fd tm f :=
            { watched := ⟨r, hr, honeshot.trans (by decide), harmed⟩
              entry := hadded.entry
              fields := by
                rw [hadded.fields]
                simp [World.setFd] }
          refine ⟨fd, tm, htimer, ?_⟩
          rw [hadded.objs]
          exact hlive

/-- **A timer's marshal.** When `torque_addtimer` has succeeded, with whatever
`itimerspec`, nobody reads the marshal or frees it after it has been freed. -/
theorem timerMarshal_held (t : Itimerspec) (f state : Nat) (w v : World)
    (replies : List ((o : Op) → o.Rep))
    (hadd : exec (Prog.step World.next) (w, torqueAddtimer (some f) state) replies =
      some (v, .ret 0)) :
    ∃ fd tm, v.Timer fd tm f ∧
      ∀ acts, Always (TimerRun.step t fd tm) (TimerRun.MarshalHeld tm) { world := v } acts := by
  obtain ⟨fd, tm, htimer, hlive⟩ := exec_of_wp (wp_torqueAddtimer w f state) hadd rfl
  have hat : TimerRun.At fd tm f { world := v } [] := ⟨htimer, rfl, rfl, .inl rfl, .inl ⟨hlive, rfl⟩⟩
  have hstep (s : TimerRun) (a : TimerAct) (s' : TimerRun)
      (hs : ∃ stages, TimerRun.At fd tm f s stages) (ha : s.step t fd tm a = some s') :
      ∃ stages, TimerRun.At fd tm f s' stages := by
    obtain ⟨stages, hs⟩ := hs
    exact hs.step ha
  refine ⟨fd, tm, htimer, fun acts => (always_of_inv hstep ⟨[], hat⟩ acts).mono fun s hs => ?_⟩
  obtain ⟨stages, hs⟩ := hs
  exact hs.held

/-- A timer for which 0 is allocated, and which is descriptor 3. -/
def timerReplies (f state : Nat) : List ((o : Op) → o.Rep) :=
  script World.next World.loads 20 ({}, torqueAddtimer (some f) state)
    [.ptr (some 0), .ptr (some 3), .flag true, .flag true]

def oneSecond : Timespec := ⟨1, 0⟩

/-- One that expires every second. -/
theorem timerMarshal_held_periodic :
    ∃ v, exec (Prog.step World.next) ({}, torqueAddtimer (some 1) 0) (timerReplies 1 0) =
        some (v, .ret 0) ∧
      ∃ fd tm, v.Timer fd tm 1 ∧
        ∀ acts, Always (TimerRun.step ⟨oneSecond, oneSecond⟩ fd tm) (TimerRun.MarshalHeld tm)
          { world := v } acts :=
  ⟨_, rfl, timerMarshal_held ⟨oneSecond, oneSecond⟩ 1 0 {} _ (timerReplies 1 0) rfl⟩

/-- A thread that handles an expiration finds the entry and the marshal. -/
def timerLoads : Loads where
  rxbuf := fun _ => {}
  fields := fun _ => { txfxn := some 1 }
  evsource := fun _ => ⟨some .timerPassthru, none, .object 0⟩
  fdarraysize := 1024

/-- The expiration is handled to the end, and another is not reported. -/
example :
    (exec (Prog.step World.next) ({}, torqueAddtimer (some 1) 0) (timerReplies 1 0)).any fun x =>
      let s := exec (TimerRun.step ⟨oneSecond, oneSecond⟩ 3 0) { world := x.1 }
        (.expire 0 :: List.replicate 6 (.op 0 (timerLoads.reply none)))
      s.any (fun s => s.world.objs 0 = .freed) &&
        (s.bind fun s => s.step ⟨oneSecond, oneSecond⟩ 3 0 (.expire 0)).isNone := by
  decide

end Libtorque
