import Libtorque.Startup.TorqueInit

/-! # What `torque_init` owes, and the rules for its calls

Each function gives back what it has created when it fails, but for five slips.
`detect_cputypes` makes `topmap` with an element for each CPU of the mask, and it
is indexed by their numbers.
`create_torque_ctx` does not set `*e` when there is no memory for the context.
`initialize_common_sources` keeps the signalfd when the handlers cannot be
installed. `detect_architecture` leaves the threads running when the GPUs or the
memories cannot be detected. `torque_stop` gives up before it has freed anything
when it cannot block the signals. -/
namespace Libtorque.Startup
open Libtorque.Hardware Libtorque.Lib

/-- A call that returns NULL says why, has ended its threads before it freed the
context, and has given back all it created. No call touches memory besides
`topmap`. -/
structure Settled (ret : Option TorqueCtx) (e : Int) (s : Ledger) : Prop where
  inside : s.wild = false
  null : ret.isNone ↔ e ≠ TorqueErr.none.code
  threads : ret.isNone → s.orphans = 0
  released : ret.isNone → ∀ r, s.held r = 0

/-- A reply after which everything is still undone when the call fails. The
signal handlers can be installed. Once there is an event queue, the signals that
`torque_stop` needs can be blocked. Once `topmap` has been freed, and so outside
`detect_cputypes`, no table stays too small, and the GPUs and memories are found.
The mask is not restored after the context was refused its memory. The CPUs that
are entered have numbers below that of the elements of `topmap`. -/
def Handled (s : Ledger) : (o : Op) → o.Rep → Bool
  | .call .handleTerm, failed | .call .handleInt, failed => !failed
  | .call .sigemptyset, failed | .call .sigaddset, failed | .call .sigBlock, failed =>
    failed → s.held .efd = 0
  | .call .sigSetmask, failed => failed ∨ !s.refused
  | .realloc .., ok => ok ∨ s.held .topmap ≠ 0
  | .cudadevcount, devs => 0 ≤ devs
  | .cudaid _, (e, _) => e = 0
  | .pagesize, psize => 0 < psize
  | .sysmem, (pages, psize, asrlim) => determineSysmem pages psize asrlim ≠ 0
  | .topologize elems t aid thread core pkg cputype, mem =>
    (topologize mem t aid thread core pkg cputype).1 = .none → aid < elems
  | _, _ => true

/-- What is given back is held. -/
def Gives (s : Ledger) (o : Option Op) : Prop := ∀ r, o = some (.release r) → s.held r ≠ 0

/-- The calls of a run, with whether all so far were handled. -/
def undoing : Contract Op Op.Rep (Ledger × Prop) :=
  { tracking Ledger.next Handled with ok := fun x => Gives x.1 }

/-! ## What the context owns -/

def TorqueCtx.owns (c : TorqueCtx) : Resource → Nat
  | .cpudescs => if c.cpudescs.isEmpty then 0 else 1
  | .details => c.cpudescs.length
  | .zone => nodes c.topology.zone
  | .manodes => if c.manodes.isEmpty then 0 else 1
  | .psizevals => c.manodes.countP fun node => !node.psizevals.isEmpty
  | _ => 0

/-- What is held is on the list or owned, `n` threads run, and no context has
been freed or refused; `w` tells whether `topmap` has been left, and `φ` whether
all replies were handled besides. -/
structure Stands (w : Bool) (own : Resource → Nat) (l : List Resource) (n : Nat) (φ : Prop)
    (x : Ledger × Prop) : Prop where
  owes : Owes x.1.held own l
  threads : x.1.threads = n
  orphans : x.1.orphans = 0
  refused : x.1.refused = false
  wild : x.1.wild = w
  handled : x.2 ↔ w = false ∧ φ

/-- A context without an event handler has no threads. -/
def Idle (c : TorqueCtx) (n : Nat) : Prop := c.ev = false → n = 0

section Rules
variable {w : Bool} {own : Resource → Nat} {l m : List Resource} {n : Nat} {φ ψ : Prop}
variable {x y : Ledger × Prop} {r : Resource}

theorem Stands.perm (h : Stands w own l n φ x) (hp : l.Perm m) : Stands w own m n φ x :=
  { h with owes := h.owes.perm hp }

theorem wp_reply {o : Op} {Q : o.Rep → Ledger × Prop → Prop} (ho : ∀ r, o ≠ .release r)
    (hQ : ∀ r s ψ, x.1.next o r = some s → (ψ ↔ x.2 ∧ Handled x.1 o r) → Q r (s, ψ)) :
    wp undoing (Lib.Prog.perform o) Q x := by
  refine wp_op (fun r hr => absurd (Option.some.inj hr) (ho r)) ?_
  intro r y hy
  exact hQ r y.1 y.2 hy.1 hy.2

/-- Questions: whatever the reply, nothing changes. -/
theorem wp_asked {o : Op} {Q : o.Rep → Ledger × Prop → Prop} (h : Stands w own l n φ x)
    (ho : ∀ r, o ≠ .release r) (hn : ∀ r, x.1.next o r = some x.1) (hh : ∀ r, Handled x.1 o r)
    (hQ : ∀ r y, Stands w own l n φ y → Q r y) : wp undoing (Lib.Prog.perform o) Q x := by
  refine wp_reply ho ?_
  intro r s ψ hs hψ
  rw [hn r, Option.some.injEq] at hs
  subst hs
  refine hQ r _ { h with handled := ?_ }
  rw [hψ, hh r, and_iff_left rfl]
  exact h.handled

/-- Calls whose failure makes no difference to what must be undone. -/
theorem wp_quiet {c : Call} {Q : Bool → Ledger × Prop → Prop} (h : Stands w own l n φ x)
    (hc : c ≠ .pthreadCreate) (hh : ∀ failed, Handled x.1 (.call c) failed)
    (hQ : ∀ failed y, Stands w own l n φ y → Q failed y) : wp undoing (fails c) Q x := by
  refine wp_asked h (by simp) ?_ hh hQ
  intro failed
  cases c <;> first | exact (hc rfl).elim | rfl

theorem wp_create {Q : Bool → Ledger × Prop → Prop} (h : Stands w own l n φ x) (hr : r ≠ .ctx)
    (hno : ∀ y, Stands w own l n φ y → Q false y)
    (hyes : ∀ y, Stands w own (r :: l) n φ y → Q true y) : wp undoing (create r) Q x := by
  refine wp_reply (by simp) ?_
  intro ok s ψ hs hψ
  replace hψ : ψ ↔ w = false ∧ φ := (hψ.trans (and_iff_left rfl)).trans h.handled
  cases ok with
  | false =>
    simp only [Ledger.next, hr, if_false, Bool.false_eq_true, Option.some.injEq] at hs
    subst hs
    exact hno _ { h with handled := hψ }
  | true =>
    simp only [Ledger.next, if_true, Option.some.injEq] at hs
    subst hs
    exact hyes _ { h with owes := h.owes.gain, handled := hψ }

theorem wp_release {Q : Unit → Ledger × Prop → Prop} (h : Stands w own (r :: l) n φ x)
    (hr : r ≠ .ctx) (hQ : ∀ y, Stands w own l n φ y → Q () y) : wp undoing (release r) Q x := by
  have hpos : x.1.held r ≠ 0 := Nat.ne_of_gt (h.owes.pos List.mem_cons_self)
  refine wp_op ?_ ?_
  · rintro q hq
    cases hq
    exact hpos
  · intro u y hy
    obtain ⟨hs, hψ⟩ := hy
    simp only [Ledger.next, Ledger.release, hpos, hr, if_false, Option.some.injEq] at hs
    refine hQ y ⟨?_, ?_, ?_, ?_, ?_, ?_⟩
    · rw [← hs]
      exact h.owes.give
    · rw [← hs]
      exact h.threads
    · rw [← hs]
      exact h.orphans
    · rw [← hs]
      exact h.refused
    · rw [← hs]
      exact h.wild
    · exact (hψ.trans (and_iff_left rfl)).trans h.handled

theorem Stands.gained {s : Ledger} (h : Stands w own l n φ x) (hs : s = x.1.create r)
    (hψ : ψ ↔ w = false ∧ φ) :
    Stands w own (r :: l) n φ (s, ψ) := by
  subst hs
  exact { h with owes := h.owes.gain, handled := hψ }

theorem wp_realloc {null : Bool} {Q : Bool → Ledger × Prop → Prop} (h : Stands w own l n φ x)
    (htop : own .topmap = 0) (hno : ∀ y, Stands w own l n (φ ∧ .topmap ∈ l) y → Q false y)
    (hyes : ∀ y, Stands w own (if null then r :: l else l) n φ y → Q true y) :
    wp undoing (realloc r null) Q x := by
  refine wp_reply (by simp) ?_
  intro ok s ψ hs hψ
  cases ok with
  | false =>
    simp only [Ledger.next, Bool.false_and, Bool.false_eq_true, if_false, Option.some.injEq] at hs
    subst hs
    refine hno _ { h with handled := ?_ }
    rw [hψ, h.handled, and_assoc]
    refine and_congr_right' (and_congr_right' ?_)
    by_cases hmem : Resource.topmap ∈ l
    · simpa [Handled, hmem] using Nat.ne_of_gt (h.owes.pos hmem)
    · simpa [Handled, hmem] using h.owes.eq_zero hmem htop
  | true =>
    replace hψ : ψ ↔ w = false ∧ φ := by simpa [Handled, h.handled] using hψ
    cases null with
    | false =>
      simp only [Ledger.next, Bool.and_false, Bool.false_eq_true, if_false, Option.some.injEq] at hs
      subst hs
      exact hyes _ { h with handled := hψ }
    | true =>
      simp only [Ledger.next, Bool.and_self, if_true, Option.some.injEq] at hs
      exact hyes _ (h.gained hs.symm hψ)

theorem Stands.unhandled (h : Stands w own l n φ x) (hφ : ¬ φ) : Stands w own l n False x :=
  { h with handled := h.handled.trans (and_congr_right' (iff_of_false hφ id)) }

/-- A question whose answers may be ones that are not handled. -/
theorem wp_probed {o : Op} {Q : o.Rep → Ledger × Prop → Prop} (h : Stands w own l n φ x)
    (ho : ∀ r, o ≠ .release r) (hn : ∀ r, x.1.next o r = some x.1)
    (hQ : ∀ r y, Stands w own l n (φ ∧ Handled x.1 o r) y → Q r y) :
    wp undoing (Lib.Prog.perform o) Q x := by
  refine wp_reply ho ?_
  intro r s ψ hs hψ
  rw [hn r, Option.some.injEq] at hs
  subst hs
  exact hQ r _ { h with handled := (hψ.trans (and_congr_left' h.handled)).trans and_assoc }

end Rules

/-! ## Threads -/

section Threads
variable {w : Bool} {c : TorqueCtx} {l : List Resource} {n : Nat} {φ : Prop}
variable {x : Ledger × Prop}

theorem Stands.counted {own : Resource → Nat} {k : Nat} {s : Ledger} {ψ : Prop}
    (h : Stands w own l n φ x) (hs : s = { x.1 with threads := k }) (hψ : ψ ↔ x.2 ∧ true) :
    Stands w own l k φ (s, ψ) := by
  subst hs
  exact { h with threads := rfl, handled := (hψ.trans (and_iff_left rfl)).trans h.handled }

theorem wp_setupThreadStack {own : Resource → Nat} {Q : Bool → Ledger × Prop → Prop}
    (h : Stands w own l n φ x) (hQ : ∀ failed y, Stands w own l n φ y → Q failed y) :
    wp undoing setupThreadStack Q x := by
  unfold setupThreadStack
  rw [wp_do]
  refine wp_quiet h (by simp) (fun _ => rfl) ?_
  intro attr y hy
  split
  · exact hQ true y hy
  · rw [wp_do]
    refine wp_quiet hy (by simp) (fun _ => rfl) ?_
    intro stack y hy
    split
    · rw [wp_do]
      refine wp_quiet hy (by simp) (fun _ => rfl) ?_
      intro _ y hy
      exact hQ true y hy
    · rw [wp_do]
      refine wp_quiet hy (by simp) (fun _ => rfl) ?_
      intro set y hy
      split
      · rw [wp_do]
        refine wp_quiet hy (by simp) (fun _ => rfl) ?_
        intro _ y hy
        exact hQ true y hy
      · exact hQ false y hy

/-- A thread runs on only when `spawn_thread` says so, and then the context
knows of it. -/
theorem wp_spawnThread {Q : Bool × TorqueCtx → Ledger × Prop → Prop} (h : Stands w c.owns l n φ x)
    (hidle : Idle c n)
    (hQ : ∀ failed c' k y, c'.topology = c.topology → Stands w c'.owns l k φ y → Idle c' k →
      (failed = false → 0 < k) → Q (failed, c') y) : wp undoing (spawnThread c) Q x := by
  have early (y : Ledger × Prop) (hy : Stands w c.owns l n φ y) : Q (true, c) y :=
    hQ true c n y rfl hy hidle (by simp)
  unfold spawnThread
  rw [wp_do]
  refine wp_setupThreadStack h ?_
  intro stack y hy
  split
  · exact early y hy
  rw [wp_do]
  refine wp_quiet hy (by simp) (fun _ => rfl) ?_
  intro mutex y hy
  split
  · rw [wp_do]
    exact wp_quiet hy (by simp) (fun _ => rfl) fun _ => early
  rw [wp_do]
  refine wp_quiet hy (by simp) (fun _ => rfl) ?_
  intro cond y hy
  split
  · rw [wp_do]
    refine wp_quiet hy (by simp) (fun _ => rfl) ?_
    intro _ y hy
    rw [wp_do]
    exact wp_quiet hy (by simp) (fun _ => rfl) fun _ => early
  rw [wp_do]
  refine wp_reply (by simp) ?_
  intro failed s ψ hs hψ
  cases failed with
  | true =>
    cases hs
    have hsame : Stands w c.owns l n φ (y.1, ψ) := hy.counted (by rw [← hy.threads]) hψ
    rw [if_pos rfl, wp_do]
    refine wp_quiet hsame (by simp) (fun _ => rfl) ?_
    intro _ y hy
    rw [wp_do]
    refine wp_quiet hy (by simp) (fun _ => rfl) ?_
    intro _ y hy
    rw [wp_do]
    exact wp_quiet hy (by simp) (fun _ => rfl) fun _ => early
  | false =>
    cases hs
    have hmore : Stands w c.owns l (n + 1) φ ({ y.1 with threads := y.1.threads + 1 }, ψ) :=
      hy.counted (by rw [hy.threads]) hψ
    rw [if_neg (by simp), wp_do]
    refine wp_quiet hmore (by simp) (fun _ => rfl) ?_
    intro attr y hy
    rw [wp_do]
    refine wp_quiet hy (by simp) (fun _ => rfl) ?_
    intro lock y hy
    rw [wp_do]
    refine wp_asked hy (by simp) (fun _ => rfl) (fun _ => rfl) ?_
    rintro ⟨wait, started⟩ y hy
    rw [wp_do]
    refine wp_quiet hy (by simp) (fun _ => rfl) ?_
    intro unlock y hy
    rw [wp_do]
    refine wp_quiet hy (by simp) (fun _ => rfl) ?_
    intro cond y hy
    rw [wp_do]
    refine wp_quiet hy (by simp) (fun _ => rfl) ?_
    intro mutex y hy
    dsimp only
    split
    · rw [wp_do]
      refine wp_reply (by simp) ?_
      intro _ s ψ hs hψ
      cases hs
      refine hQ true _ n _ rfl (hy.counted (by rw [hy.threads, Nat.add_sub_cancel]) hψ) ?_ (by simp)
      intro hev
      exact hidle (Bool.or_eq_false_iff.mp hev).1
    · rename_i hret
      refine hQ false _ (n + 1) y rfl hy ?_ (fun _ => Nat.succ_pos n)
      intro hev
      simp [(Bool.or_eq_false_iff.mp hev).2] at hret

/-- It is taken that all the threads end, whatever `block_thread` returns. -/
theorem wp_reapThreads {own : Resource → Nat} {Q : Bool → Ledger × Prop → Prop}
    (h : Stands w own l n φ x) (hidle : Idle c n)
    (hQ : ∀ ret y, Stands w own l 0 φ y → Q ret y) : wp undoing (reapThreads c) Q x := by
  unfold reapThreads
  split
  · rw [wp_do]
    refine wp_quiet h (by simp) (fun _ => rfl) ?_
    intro kill y hy
    rw [wp_do]
    refine wp_reply (by simp) ?_
    intro block s ψ hs hψ
    cases hs
    exact hQ _ _ (hy.counted rfl hψ)
  · rename_i hev
    have hn : n = 0 := hidle (by simpa using hev)
    subst hn
    exact hQ false x h

end Threads

end Libtorque.Startup
