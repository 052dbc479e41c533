import Libtorque.Errors
import Mathlib.Data.Finset.Basic
import Mathlib.Order.Interval.Finset.Nat

/-! # Signals: `torque_addsignal` and `signalfd_demultiplexer`

Each accepted call registers a signalfd of its own for its set. All of them
look the callback up in one table, by the number of the signal delivered. -/
namespace Libtorque.Events

def sigint : Nat := 2
def sigkill : Nat := 9
def sigterm : Nat := 15
def sigstop : Nat := 19
def sigrtmax : Nat := 64

def evthreadInt : Nat := sigint
def evthreadTerm : Nat := sigterm

/-- `sigset_t` -/
structure SigSet where
  sigs : Finset Nat
  range : ∀ s ∈ sigs, 1 ≤ s ∧ s ≤ sigrtmax

def SigSet.sigismember (s : SigSet) (sig : Nat) : Bool := decide (sig ∈ s.sigs)

/-- The callback of a signal: the library's own, or one of the client's. -/
inductive SigFn where
  | rxcommonsignal
  | client (f : Nat)
deriving DecidableEq, Repr

inductive SigState where
  | null
  | ctx
  | client (v : Nat)
deriving DecidableEq, Repr

/-- An entry of `sigarray`, none of which has a write callback. -/
structure SigSource where
  rxfxn : Option SigFn := none
  cbstate : SigState := .null
deriving DecidableEq, Repr

/-- `sigarray` with its size, and the signalfds registered with epoll. -/
structure Etables where
  sigarraysize : Nat
  sigarray : Nat → SigSource := fun _ => {}
  signalfds : List (Nat × SigSet) := []

/-- `setup_evsource(ctx->eventtables.sigarray,z,rfxn,NULL,cbstate)` -/
def Etables.setupEvsource (t : Etables) (z : Nat) (rfxn : Option SigFn) (cbstate : SigState) :
    Etables :=
  { t with sigarray := fun i => if i = z then ⟨rfxn, cbstate⟩ else t.sigarray i }

/-- The tables after `initialize_etables` has succeeded. -/
def initializeEtables : Etables :=
  let t : Etables := { sigarraysize := sigrtmax }
  let t := t.setupEvsource evthreadTerm (some .rxcommonsignal) .ctx
  t.setupEvsource evthreadInt (some .rxcommonsignal) .ctx

/-- A call of `torque_addsignal`, with the outcomes of what it calls:
`pthread_sigmask`, `signalfd` and `add_fd_to_evhandler`. -/
structure SigCall where
  sigs : SigSet
  fxn : Option Nat
  state : Nat
  sigmask : Bool
  signalfd : Except Errno Nat
  addFd : Bool

/-- The loop of `add_signal_to_evhandler`. -/
def setupSignals (t : Etables) (c : SigCall) : Etables :=
  (List.range' 1 (t.sigarraysize - 1)).foldl (fun t z =>
    if c.sigs.sigismember z then t.setupEvsource z (c.fxn.map .client) (.client c.state)
    else t) t

def addSignalToEvhandler (t : Etables) (c : SigCall) : Int × Etables :=
  let t := setupSignals t c
  match c.signalfd with
  | .error e =>
    -- ENOSYS
    if e = .other 38 then (TorqueErr.unavail.code, t) else (TorqueErr.resource.code, t)
  | .ok fd =>
    if c.addFd then (0, { t with signalfds := (fd, c.sigs) :: t.signalfds }) else (-1, t)

def torqueAddsignal (t : Etables) (c : SigCall) : Int × Etables :=
  if c.sigs.sigismember evthreadTerm || c.sigs.sigismember sigkill ||
      c.sigs.sigismember sigstop then
    (TorqueErr.inval.code, t)
  else if !c.sigmask then (TorqueErr.assert.code, t)
  else addSignalToEvhandler t c

/-- The tables after these calls. -/
def afterCalls (calls : List SigCall) : Etables :=
  calls.foldl (fun t c => (torqueAddsignal t c).2) initializeEtables

/-! ## Delivery -/

/-- A callback run for a signal. -/
structure SigRun where
  fxn : SigFn
  sig : Nat
  cbstate : SigState
deriving DecidableEq, Repr

/-- `handle_evsource_read(ctx->eventtables.sigarray,sig)`: what it runs, or
`none` for an index that is not in the table. -/
def handleSigsource (t : Etables) (sig : Nat) : Option (List SigRun) :=
  if sig < t.sigarraysize then
    match (t.sigarray sig).rxfxn with
    | none => some []
    | some f => some [⟨f, sig, (t.sigarray sig).cbstate⟩]
  else none

/-- What `read` gives on a signalfd. -/
inductive SigRead where
  | info (signo : Nat)
  | short
  | error (e : Errno)
deriving DecidableEq, Repr

/-- `signalfd_demultiplexer`, on the results of its reads: what it runs, unless
it leaves the table. -/
def signalfdDemultiplexer (t : Etables) : List SigRead → Option (List SigRun)
  | [] => some []
  | .info sig :: rest => do
    let now ← handleSigsource t sig
    let later ← signalfdDemultiplexer t rest
    some (now ++ later)
  | .short :: rest => signalfdDemultiplexer t rest
  | .error e :: rest => if e = .eintr then signalfdDemultiplexer t rest else some []

/-! ## What calls come to -/

/-- The call gets to the table of signals. -/
def SigCall.reaches (c : SigCall) : Bool :=
  !(c.sigs.sigismember evthreadTerm || c.sigs.sigismember sigkill ||
    c.sigs.sigismember sigstop) && c.sigmask

/-- The call returns 0. -/
def SigCall.accepted (c : SigCall) : Bool :=
  c.reaches && c.addFd && match c.signalfd with
    | .ok _ => true
    | .error _ => false

/-- What a call asks to be run for a signal. -/
def SigCall.runs (c : SigCall) (sig : Nat) : List SigRun :=
  (c.fxn.map fun f => ⟨.client f, sig, .client c.state⟩).toList

/-- The latest of some calls with a signal in its set. -/
def latest (calls : List SigCall) (sig : Nat) : Option SigCall :=
  (calls.filter fun c => c.sigs.sigismember sig).getLast?

/-- What the latest accepted calls ask to be run for what is read. -/
def asked (calls : List SigCall) : List SigRead → List SigRun
  | [] => []
  | .info sig :: rest =>
    ((latest (calls.filter SigCall.accepted) sig).map fun c => c.runs sig).getD [] ++
      asked calls rest
  | .short :: rest => asked calls rest
  | .error e :: rest => if e = .eintr then asked calls rest else []

/-- The signals read are ones that a registered signalfd delivers. -/
def Delivered (calls : List SigCall) (reads : List SigRead) : Prop :=
  ∀ sig, .info sig ∈ reads → ∃ fd ∈ (afterCalls calls).signalfds, sig ∈ fd.2.sigs

/-- Whatever the signalfds deliver, the table is not left, and what is run is
what the latest accepted call with the signal asks for; the handler of
`EVTHREAD_TERM` stays. -/
def SignalsServed (calls : List SigCall) : Prop :=
  (∀ reads, Delivered calls reads →
    signalfdDemultiplexer (afterCalls calls) reads = some (asked calls reads)) ∧
  (afterCalls calls).sigarray evthreadTerm = ⟨some .rxcommonsignal, .ctx⟩

/-- No accepted set has `SIGRTMAX`, and no call that failed after it had been
to the table asks for something else than the latest accepted one. -/
def TableHolds (calls : List SigCall) : Prop :=
  (∀ c ∈ calls, c.accepted → sigrtmax ∉ c.sigs.sigs) ∧
  ∀ sig c d, latest (calls.filter SigCall.accepted) sig = some c →
    latest (calls.filter SigCall.reaches) sig = some d → d.runs sig = c.runs sig

/-! ## The table -/

/-- How a call goes: it is refused before the table, it fails after it has been
there, or it is accepted. -/
theorem torqueAddsignal_cases (t : Etables) (c : SigCall) :
    (c.reaches = false ∧ c.accepted = false ∧ (torqueAddsignal t c).1 ≠ 0 ∧
      (torqueAddsignal t c).2 = t) ∨
    (c.reaches = true ∧ c.accepted = false ∧ (torqueAddsignal t c).1 ≠ 0 ∧
      (torqueAddsignal t c).2 = setupSignals t c) ∨
    (c.reaches = true ∧ c.accepted = true ∧ ∃ fd, c.signalfd = .ok fd ∧
      torqueAddsignal t c = (0, { setupSignals t c with
        signalfds := (fd, c.sigs) :: (setupSignals t c).signalfds })) := by
  unfold torqueAddsignal SigCall.accepted SigCall.reaches addSignalToEvhandler
  generalize (c.sigs.sigismember evthreadTerm || c.sigs.sigismember sigkill ||
    c.sigs.sigismember sigstop) = refused
  cases refused with
  | true => exact .inl (by simp [TorqueErr.code])
  | false =>
    cases hmask : c.sigmask with
    | false => exact .inl (by simp [TorqueErr.code])
    | true =>
      right
      cases hsfd : c.signalfd with
      | error e =>
        left
        by_cases he : e = .other 38 <;> simp [he, TorqueErr.code]
      | ok fd =>
        cases hadd : c.addFd with
        | false => exact .inl (by simp)
        | true => exact .inr (by simp)

theorem setupSignals_fold (c : SigCall) (zs : List Nat) (t : Etables) :
    let u := zs.foldl (fun t z => if c.sigs.sigismember z then
      t.setupEvsource z (c.fxn.map .client) (.client c.state) else t) t
    u.sigarraysize = t.sigarraysize ∧ ∀ sig, u.sigarray sig =
      if sig ∈ zs ∧ sig ∈ c.sigs.sigs then ⟨c.fxn.map .client, .client c.state⟩
      else t.sigarray sig := by
  induction zs generalizing t with
  | nil => exact ⟨rfl, fun sig => by simp⟩
  | cons z zs ih =>
    rw [List.foldl_cons]
    obtain ⟨hsize, harray⟩ := ih (if c.sigs.sigismember z then
      t.setupEvsource z (c.fxn.map .client) (.client c.state) else t)
    refine ⟨?_, fun sig => ?_⟩
    · rw [hsize]
      split <;> rfl
    · rw [harray sig]
      by_cases hin : sig ∈ zs ∧ sig ∈ c.sigs.sigs
      · rw [if_pos hin, if_pos ⟨List.mem_cons_of_mem _ hin.1, hin.2⟩]
      · rw [if_neg hin]
        by_cases hz : c.sigs.sigismember z = true
        · rw [if_pos hz]
          have hz : z ∈ c.sigs.sigs := of_decide_eq_true hz
          by_cases heq : sig = z
          · rw [heq, if_pos ⟨List.mem_cons_self, hz⟩]
            simp [Etables.setupEvsource]
          · rw [if_neg]
            · simp [Etables.setupEvsource, heq]
            · rintro ⟨hmem, hsig⟩
              exact hin ⟨(List.mem_cons.mp hmem).resolve_left heq, hsig⟩
        · rw [if_neg hz, if_neg]
          rintro ⟨hmem, hsig⟩
          rcases List.mem_cons.mp hmem with heq | hmem
          · rw [heq] at hsig
            exact hz (decide_eq_true hsig)
          · exact hin ⟨hmem, hsig⟩

/-- What one call does to the table. -/
theorem torqueAddsignal_table (t : Etables) (c : SigCall) :
    (torqueAddsignal t c).2.sigarraysize = t.sigarraysize ∧
      ∀ sig, 1 ≤ sig → sig < t.sigarraysize → (torqueAddsignal t c).2.sigarray sig =
        if c.reaches = true ∧ sig ∈ c.sigs.sigs then ⟨c.fxn.map .client, .client c.state⟩
        else t.sigarray sig := by
  have hfold := setupSignals_fold c (List.range' 1 (t.sigarraysize - 1)) t
  have hset : (setupSignals t c).sigarraysize = t.sigarraysize ∧
      ∀ sig, 1 ≤ sig → sig < t.sigarraysize → (setupSignals t c).sigarray sig =
        if sig ∈ c.sigs.sigs then ⟨c.fxn.map .client, .client c.state⟩ else t.sigarray sig := by
    refine ⟨hfold.1, fun sig hlo hhi => ?_⟩
    have hmem : sig ∈ List.range' 1 (t.sigarraysize - 1) := by
      rw [List.mem_range'_1]
      omega
    refine (hfold.2 sig).trans ?_
    simp only [hmem, true_and]
  rcases torqueAddsignal_cases t c with ⟨hr, -, -, heq⟩ | ⟨hr, -, -, heq⟩ | ⟨hr, -, fd, -, heq⟩
  · rw [heq, hr]
    exact ⟨rfl, fun sig _ _ => by simp⟩
  · rw [heq, hr]
    simpa only [true_and] using hset
  · rw [heq, hr]
    simpa only [true_and] using hset

theorem latest_concat (calls : List SigCall) (c : SigCall) (sig : Nat) :
    latest (calls ++ [c]) sig = if sig ∈ c.sigs.sigs then some c else latest calls sig := by
  unfold latest SigSet.sigismember
  rw [List.filter_append]
  by_cases h : sig ∈ c.sigs.sigs
  · simp [h]
  · simp [h]

/-- What stands in the table after some calls. -/
theorem afterCalls_table (calls : List SigCall) :
    (afterCalls calls).sigarraysize = sigrtmax ∧
      ∀ sig, 1 ≤ sig → sig < sigrtmax → (afterCalls calls).sigarray sig =
        match latest (calls.filter SigCall.reaches) sig with
        | some d => ⟨d.fxn.map .client, .client d.state⟩
        | none => initializeEtables.sigarray sig := by
  induction calls using List.reverseRecOn with
  | nil => exact ⟨rfl, fun sig _ _ => rfl⟩
  | append_singleton calls c ih =>
    obtain ⟨hsize, harray⟩ := ih
    obtain ⟨hsize', hone⟩ := torqueAddsignal_table (afterCalls calls) c
    have hstep : afterCalls (calls ++ [c]) = (torqueAddsignal (afterCalls calls) c).2 := by
      simp [afterCalls]
    rw [hstep]
    refine ⟨hsize'.trans hsize, fun sig hlo hhi => ?_⟩
    rw [hone sig hlo (by rw [hsize]; exact hhi), List.filter_append]
    cases hr : c.reaches with
    | false =>
      rw [if_neg (by simp), harray sig hlo hhi]
      simp [hr]
    | true =>
      have hsingle : [c].filter SigCall.reaches = [c] := by simp [hr]
      rw [hsingle, latest_concat]
      by_cases hsig : sig ∈ c.sigs.sigs
      · rw [if_pos ⟨rfl, hsig⟩, if_pos hsig]
      · rw [if_neg fun h => hsig h.2, if_neg hsig]
        exact harray sig hlo hhi

theorem latest_some {calls : List SigCall} {sig : Nat} {c : SigCall}
    (h : latest calls sig = some c) : c ∈ calls ∧ sig ∈ c.sigs.sigs := by
  have hmem := List.mem_of_getLast? h
  obtain ⟨hc, hsig⟩ := List.mem_filter.mp hmem
  exact ⟨hc, of_decide_eq_true hsig⟩

theorem exists_latest {calls : List SigCall} {sig : Nat} {c : SigCall} (hc : c ∈ calls)
    (hsig : sig ∈ c.sigs.sigs) : ∃ d, latest calls sig = some d := by
  have hmem : c ∈ calls.filter fun c => c.sigs.sigismember sig :=
    List.mem_filter.mpr ⟨hc, decide_eq_true hsig⟩
  have hne : (calls.filter fun c => c.sigs.sigismember sig) ≠ [] := List.ne_nil_of_mem hmem
  exact ⟨_, List.getLast?_eq_some_getLast hne⟩

theorem reaches_of_accepted {c : SigCall} (h : c.accepted = true) : c.reaches = true := by
  unfold SigCall.accepted at h
  rw [Bool.and_eq_true, Bool.and_eq_true] at h
  exact h.1.1

/-- What a delivered signal below `SIGRTMAX` runs. -/
theorem handleSigsource_eq {calls : List SigCall} {sig : Nat} {d : SigCall} (hlo : 1 ≤ sig)
    (hhi : sig < sigrtmax) (hd : latest (calls.filter SigCall.reaches) sig = some d) :
    handleSigsource (afterCalls calls) sig = some (d.runs sig) := by
  obtain ⟨hsize, harray⟩ := afterCalls_table calls
  unfold handleSigsource SigCall.runs
  rw [hsize, if_pos hhi, harray sig hlo hhi, hd]
  cases hf : d.fxn <;> simp [hf]

theorem handleSigsource_sigrtmax (calls : List SigCall) :
    handleSigsource (afterCalls calls) sigrtmax = none := by
  unfold handleSigsource
  rw [(afterCalls_table calls).1, if_neg (Nat.lt_irrefl _)]

theorem demultiplexer_one (t : Etables) (sig : Nat) :
    signalfdDemultiplexer t [.info sig] = handleSigsource t sig := by
  simp only [signalfdDemultiplexer]
  cases handleSigsource t sig <;> simp

theorem torqueAddsignal_signalfds (t : Etables) (c : SigCall) :
    (torqueAddsignal t c).2.signalfds =
      if c.accepted then
        match c.signalfd with
        | .ok fd => (fd, c.sigs) :: t.signalfds
        | .error _ => t.signalfds
      else t.signalfds := by
  have hfold : ∀ (zs : List Nat) (t : Etables), (zs.foldl (fun t z =>
      if c.sigs.sigismember z then t.setupEvsource z (c.fxn.map .client) (.client c.state)
      else t) t).signalfds = t.signalfds := by
    intro zs
    induction zs with
    | nil => exact fun t => rfl
    | cons z zs ih =>
      intro t
      rw [List.foldl_cons, ih]
      split <;> rfl
  have hset : (setupSignals t c).signalfds = t.signalfds := hfold _ t
  rcases torqueAddsignal_cases t c with
    ⟨-, hacc, -, heq⟩ | ⟨-, hacc, -, heq⟩ | ⟨-, hacc, fd, hfd, heq⟩
  · simp [hacc, heq]
  · simp [hacc, heq, hset]
  · simp [hacc, heq, hfd, hset]

/-- The signalfds registered are those of the accepted calls. -/
theorem signalfds_iff (calls : List SigCall) (sig : Nat) :
    (∃ fd ∈ (afterCalls calls).signalfds, sig ∈ fd.2.sigs) ↔
      ∃ c ∈ calls, c.accepted ∧ sig ∈ c.sigs.sigs := by
  induction calls using List.reverseRecOn with
  | nil =>
    have hnil : (afterCalls []).signalfds = [] := rfl
    simp [hnil]
  | append_singleton calls c ih =>
    have hstep : afterCalls (calls ++ [c]) = (torqueAddsignal (afterCalls calls) c).2 := by
      simp [afterCalls]
    rw [hstep, torqueAddsignal_signalfds]
    have hlast : (∃ d ∈ calls ++ [c], d.accepted ∧ sig ∈ d.sigs.sigs) ↔
        (∃ d ∈ calls, d.accepted ∧ sig ∈ d.sigs.sigs) ∨ (c.accepted ∧ sig ∈ c.sigs.sigs) := by
      simp only [List.mem_append, List.mem_singleton, or_and_right, exists_or, exists_eq_left]
    rw [hlast, ← ih]
    by_cases hacc : c.accepted = true
    · obtain ⟨fd, hfd⟩ : ∃ fd, c.signalfd = .ok fd := by
        unfold SigCall.accepted at hacc
        cases hfd : c.signalfd with
        | ok fd => exact ⟨fd, rfl⟩
        | error e => simp [hfd] at hacc
      rw [if_pos hacc, hfd]
      simp only [List.mem_cons, exists_eq_or_imp, hacc, true_and]
      exact or_comm
    · rw [if_neg hacc]
      simp [hacc]

/-- No call that is let through names `EVTHREAD_TERM`. -/
theorem evthreadTerm_kept (calls : List SigCall) :
    (afterCalls calls).sigarray evthreadTerm = ⟨some .rxcommonsignal, .ctx⟩ := by
  rw [(afterCalls_table calls).2 evthreadTerm (by decide) (by decide)]
  cases hd : latest (calls.filter SigCall.reaches) evthreadTerm with
  | none => rfl
  | some d =>
    obtain ⟨hmem, hsig⟩ := latest_some hd
    have hr := (List.mem_filter.mp hmem).2
    simp [SigCall.reaches, SigSet.sigismember, hsig] at hr

/-- **Signals are served as long as the table holds them.** What the signalfds
of accepted calls deliver is looked up inside the table and runs what the
latest accepted call asks for exactly when no accepted set has `SIGRTMAX` and
no failed call has left something else in the table. -/
theorem signalsServed_iff (calls : List SigCall) : SignalsServed calls ↔ TableHolds calls := by
  constructor
  · rintro ⟨hserved, -⟩
    have hmax : ∀ c ∈ calls, c.accepted → sigrtmax ∉ c.sigs.sigs := by
      intro c hc hacc hsig
      have hone : Delivered calls [.info sigrtmax] := by
        intro sig hmem
        cases List.mem_singleton.mp hmem
        exact (signalfds_iff ..).mpr ⟨c, hc, hacc, hsig⟩
      have hnone := hserved _ hone
      rw [demultiplexer_one, handleSigsource_sigrtmax] at hnone
      cases hnone
    refine ⟨hmax, fun sig c d hc hd => ?_⟩
    obtain ⟨hmem, hsig⟩ := latest_some hc
    obtain ⟨hcm, hacc⟩ := List.mem_filter.mp hmem
    obtain ⟨hlo, hle⟩ := c.sigs.range sig hsig
    have hhi : sig < sigrtmax := Nat.lt_of_le_of_ne hle fun heq => hmax c hcm hacc (heq ▸ hsig)
    have hone : Delivered calls [.info sig] := by
      intro sig' hmem
      cases List.mem_singleton.mp hmem
      exact (signalfds_iff ..).mpr ⟨c, hcm, hacc, hsig⟩
    have hrun := hserved _ hone
    rw [demultiplexer_one, handleSigsource_eq hlo hhi hd] at hrun
    have := Option.some.inj hrun
    simpa [asked, hc] using this
  · rintro ⟨hmax, hsame⟩
    refine ⟨fun reads hdel => ?_, evthreadTerm_kept calls⟩
    induction reads with
    | nil => rfl
    | cons r reads ih =>
      have ih := ih fun sig hmem => hdel sig (List.mem_cons_of_mem _ hmem)
      cases r with
      | info sig =>
        obtain ⟨c, hc, hacc, hsig⟩ := (signalfds_iff ..).mp (hdel sig List.mem_cons_self)
        obtain ⟨hlo, hle⟩ := c.sigs.range sig hsig
        have hhi : sig < sigrtmax :=
          Nat.lt_of_le_of_ne hle fun heq => hmax c hc hacc (heq ▸ hsig)
        obtain ⟨a, ha⟩ := exists_latest (List.mem_filter.mpr ⟨hc, hacc⟩) hsig
        obtain ⟨d, hd⟩ := exists_latest
          (List.mem_filter.mpr ⟨hc, reaches_of_accepted hacc⟩) hsig
        simp only [signalfdDemultiplexer, asked, handleSigsource_eq hlo hhi hd, ih, ha,
          hsame sig a d ha hd]
        rfl
      | short => exact ih
      | error e =>
        simp only [signalfdDemultiplexer, asked]
        split
        · exact ih
        · rfl

/-- An accepted call for `SIGRTMAX` alone: the table has no entry for it. -/
theorem sigrtmax_leaves_table :
    ¬ SignalsServed [⟨⟨{sigrtmax}, by decide⟩, some 0, 0, true, .ok 5, true⟩] := by
  intro h
  have hout := h.1 [.info sigrtmax] (by
    intro sig hmem
    cases List.mem_singleton.mp hmem
    exact (signalfds_iff ..).mpr ⟨_, List.mem_cons_self, by decide, by decide⟩)
  rw [demultiplexer_one, handleSigsource_sigrtmax] at hout
  cases hout

end Libtorque.Events
