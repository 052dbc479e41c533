import Libtorque.Startup.Tables

/-! # What a failed `torque_init` leaves behind -/
namespace Libtorque.Startup
open Libtorque.Hardware Libtorque.Lib

/-! ## Event tables and the event queue -/

section Eventtables
variable {w : Bool} {own : Resource → Nat} {l : List Resource} {n : Nat} {φ P : Prop}
variable {x : Ledger × Prop}

/-- `P` tells whether a failure of the calls is handled. -/
theorem wp_anyFails {cs : List Call} {Q : Bool → Ledger × Prop → Prop} (h : Stands w own l n φ x)
    (hcs : ∀ c ∈ cs, c ≠ .pthreadCreate ∧ ∀ y, Stands w own l n φ y →
      Handled y.1 (.call c) false ∧ (Handled y.1 (.call c) true ↔ P))
    (hfail : ∀ y, Stands w own l n (φ ∧ P) y → Q true y)
    (hok : ∀ y, Stands w own l n φ y → Q false y) : wp undoing (anyFails cs) Q x := by
  induction cs generalizing x with
  | nil => exact hok x h
  | cons c cs ih =>
    obtain ⟨hne, hc⟩ := hcs c List.mem_cons_self
    rw [anyFails, wp_do]
    refine wp_probed h (by simp) ?_ ?_
    · intro failed
      cases c <;> first | exact (hne rfl).elim | rfl
    intro failed y hy
    cases failed with
    | true =>
      have hφ := and_congr_right' (a := φ) (hc x h).2
      exact hfail y { hy with handled := hy.handled.trans (and_congr_right' hφ) }
    | false =>
      refine ih ?_ fun d hd => hcs d (List.mem_cons_of_mem c hd)
      have hφ := and_iff_left (a := φ) (hc x h).1
      exact { hy with handled := hy.handled.trans (and_congr_right' hφ) }

theorem wp_maxFds {Q : Int → Ledger × Prop → Prop} (h : Stands w own l n φ x)
    (hQ : ∀ fds y, Stands w own l n φ y → Q fds y) : wp undoing maxFds Q x := by
  unfold maxFds
  rw [wp_do]
  refine wp_asked h (by simp) (fun _ => rfl) (fun _ => rfl) ?_
  intro sc y hy
  split
  · rw [wp_do]
    refine wp_asked hy (by simp) (fun _ => rfl) (fun _ => rfl) ?_
    intro sc y hy
    split
    · exact hQ 16 y hy
    · exact hQ sc y hy
  · exact hQ sc y hy

/-- Without the handlers the signalfd stays. -/
theorem wp_initializeCommonSources {sigarraysize : Nat} {Q : Bool → Ledger × Prop → Prop}
    (h : Stands w own l n φ x) (hown : own .efd = 0) (hefd : .efd ∉ l)
    (hno : ∀ y, Stands w own l n φ y → Q true y)
    (hleak : ∀ y, Stands w own (.signalfd :: l) n False y → Q true y)
    (hok : ∀ y, Stands w own (.signalfd :: l) n φ y → Q false y) :
    wp undoing (initializeCommonSources sigarraysize) Q x := by
  unfold initializeCommonSources
  split
  · exact hno x h
  rw [wp_do]
  refine wp_anyFails (P := True) h ?_ ?_ ?_
  · intro c hc
    have hc' : c = .sigemptyset ∨ c = .sigaddset := by simpa using hc
    refine ⟨by rcases hc' with rfl | rfl <;> simp, ?_⟩
    intro y hy
    have hclosed := hy.owes.eq_zero hefd hown
    rcases hc' with rfl | rfl <;> simp [Handled, hclosed]
  · intro y hy
    rw [if_pos rfl]
    exact hno y (by simpa using hy)
  intro y hy
  rw [if_neg (by simp), wp_do]
  refine wp_create hy (by simp) ?_ ?_
  · intro y hy
    exact hno y hy
  · intro y hy
    rw [if_pos rfl]
    unfold initSignalHandlers
    rw [wp_do]
    refine wp_quiet hy (by simp) (fun _ => rfl) ?_
    intro _ y hy
    refine wp_anyFails (P := False) hy ?_ ?_ hok
    · intro c hc
      have hc' : c = .handleTerm ∨ c = .handleInt := by simpa using hc
      rcases hc' with rfl | rfl <;> simp [Handled]
    · intro y hy
      exact hleak y (hy.unhandled And.right)

theorem wp_initializeEtables {Q : Bool → Ledger × Prop → Prop}
    (h : Stands w own l n φ x) (hown : own .efd = 0) (hefd : .efd ∉ l)
    (hno : ∀ y, Stands w own l n φ y → Q true y)
    (hleak : ∀ y, Stands w own (.signalfd :: l) n False y → Q true y)
    (hok : ∀ y, Stands w own (.signalfd :: .sigarray :: .fdarray :: l) n φ y → Q false y) :
    wp undoing initializeEtables Q x := by
  unfold initializeEtables
  rw [wp_do]
  refine wp_maxFds h ?_
  intro fds y hy
  split
  · exact hno y hy
  rw [wp_do]
  refine wp_create hy (by simp) ?_ ?_
  · intro y hy
    exact hno y hy
  intro y hy
  rw [if_pos rfl, wp_do]
  refine wp_asked hy (by simp) (fun _ => rfl) (fun _ => rfl) ?_
  intro sigarraysize y hy
  rw [wp_do]
  refine wp_create hy (by simp) ?_ ?_
  · intro y hy
    rw [if_neg (by simp), wp_do]
    exact wp_release hy (by simp) hno
  intro y hy
  rw [if_pos rfl, wp_do]
  refine wp_initializeCommonSources hy hown (by simpa using hefd) ?_ ?_ ?_
  · intro y hy
    rw [if_pos rfl, wp_do]
    refine wp_release hy (by simp) ?_
    intro y hy
    rw [wp_do]
    exact wp_release hy (by simp) hno
  · intro y hy
    rw [if_pos rfl, wp_do]
    refine wp_release (hy.perm (.swap _ _ _)) (by simp) ?_
    intro y hy
    rw [wp_do]
    exact wp_release (hy.perm (.swap _ _ _)) (by simp) hleak
  · intro y hy
    exact hok y hy

theorem wp_freeEtables {Q : Unit → Ledger × Prop → Prop}
    (h : Stands w own (.signalfd :: .sigarray :: .fdarray :: l) n φ x)
    (hQ : ∀ y, Stands w own l n φ y → Q () y) : wp undoing freeEtables Q x := by
  unfold freeEtables
  rw [wp_do]
  refine wp_release h (by simp) ?_
  intro y hy
  rw [wp_do]
  refine wp_release hy (by simp) ?_
  intro y hy
  exact wp_release hy (by simp) hQ

theorem wp_initEvqueue {Q : Bool → Ledger × Prop → Prop} (h : Stands w own l n φ x)
    (hno : ∀ y, Stands w own l n φ y → Q true y)
    (hok : ∀ y, Stands w own (.efd :: .dns :: l) n φ y → Q false y) :
    wp undoing initEvqueue Q x := by
  unfold initEvqueue
  rw [wp_do]
  refine wp_create h (by simp) ?_ ?_
  · intro y hy
    exact hno y hy
  intro y hy
  rw [if_pos rfl, wp_do]
  refine wp_create hy (by simp) ?_ ?_
  · intro y hy
    rw [if_neg (by simp), wp_do]
    exact wp_release hy (by simp) hno
  intro y hy
  rw [if_pos rfl, wp_do]
  refine wp_anyFails (P := True) hy ?_ ?_ ?_
  · intro c hc
    have hc' : c = .adnsBeforepoll ∨ c = .keventAdd := by simpa using hc
    rcases hc' with rfl | rfl <;> simp [Handled]
  · intro y hy
    rw [if_pos rfl, wp_do]
    refine wp_release hy (by simp) ?_
    intro y hy
    rw [wp_do]
    refine wp_release hy (by simp) ?_
    intro y hy
    exact hno y (by simpa using hy)
  · intro y hy
    exact hok y hy

end Eventtables

/-! ## The context -/

/-- The context has been freed, with `k` threads running, and what is listed is
still held. -/
structure Left (l : List Resource) (k : Nat) (φ : Prop) (x : Ledger × Prop) : Prop where
  owes : Owes x.1.held (fun _ => 0) l
  orphans : x.1.orphans = k
  refused : x.1.refused = false
  handled : x.2 ↔ x.1.wild = false ∧ φ

/-- There was no memory for the context. -/
structure Refused (φ : Prop) (x : Ledger × Prop) : Prop where
  owes : Owes x.1.held (fun _ => 0) []
  orphans : x.1.orphans = 0
  refused : x.1.refused = true
  handled : x.2 ↔ x.1.wild = false ∧ φ

/-- What a complete context holds besides its tables. -/
def complete : List Resource := [.efd, .dns, .signalfd, .sigarray, .fdarray, .ctx]

/-- What is asserted of the result: it is settled just in case all was handled. -/
def Ends (r : Option TorqueCtx × Int) (y : Ledger × Prop) : Prop := Settled r.1 r.2 y.1 ↔ y.2

section Context
variable {w : Bool} {c : TorqueCtx} {own : Resource → Nat} {l : List Resource} {n k : Nat}
variable {φ : Prop} {e : Int} {x : Ledger × Prop}

theorem owns_empty : TorqueCtx.owns {} = fun _ => 0 := by
  funext r
  cases r <;> rfl

theorem wp_releaseCtx {Q : Unit → Ledger × Prop → Prop} (h : Stands w own (.ctx :: l) n φ x)
    (hown : own = fun _ => 0) (hQ : ∀ y, Left l n φ y → Q () y) :
    wp undoing (release .ctx) Q x := by
  subst hown
  have hpos : x.1.held .ctx ≠ 0 := Nat.ne_of_gt (h.owes.pos List.mem_cons_self)
  refine wp_op ?_ ?_
  · rintro q hq
    cases hq
    exact hpos
  · intro u y hy
    obtain ⟨hs, hψ⟩ := hy
    simp only [Ledger.next, Ledger.release, hpos, if_true, if_false, Option.some.injEq] at hs
    have hwild : y.1.wild = w := by
      rw [← hs]
      exact h.wild
    refine hQ y { owes := ?_, orphans := ?_, refused := ?_, handled := ?_ }
    · rw [← hs]
      exact h.owes.give
    · rw [← hs]
      exact h.threads
    · rw [← hs]
      exact h.refused
    · rw [hwild]
      exact (hψ.trans (and_iff_left rfl)).trans h.handled

theorem wp_createTorqueCtx {Q : Option TorqueCtx × Int → Ledger × Prop → Prop}
    (h : Stands w (fun _ => 0) [] 0 φ x) (hrefused : ∀ y, Refused φ y → Q (none, e) y)
    (hno : ∀ y, Left [] 0 φ y → Q (none, TorqueErr.resource.code) y)
    (hleak : ∀ y, Left [.signalfd] 0 False y → Q (none, TorqueErr.resource.code) y)
    (hok : ∀ y, Stands w (fun _ => 0) complete 0 φ y → Q (some {}, e) y) :
    wp undoing (createTorqueCtx e) Q x := by
  unfold createTorqueCtx
  rw [wp_do]
  refine wp_reply (by simp) ?_
  intro ok s ψ hs hψ
  replace hψ : ψ ↔ w = false ∧ φ := (hψ.trans (and_iff_left rfl)).trans h.handled
  cases ok with
  | false =>
    cases hs
    exact hrefused _ ⟨h.owes, h.orphans, rfl, by rwa [← h.wild] at hψ⟩
  | true =>
    have hmade : Stands w (fun _ => 0) [.ctx] 0 φ (s, ψ) := h.gained (Option.some.inj hs).symm hψ
    rw [if_pos rfl, wp_do]
    refine wp_initializeEtables hmade rfl (by simp) ?_ ?_ ?_
    · intro y hy
      rw [if_pos rfl, wp_do]
      exact wp_releaseCtx hy rfl hno
    · intro y hy
      rw [if_pos rfl, wp_do]
      exact wp_releaseCtx (hy.perm (.swap _ _ _)) rfl hleak
    · intro y hy
      rw [if_neg (by simp), wp_do]
      refine wp_initEvqueue hy ?_ ?_
      · intro y hy
        rw [if_pos rfl, wp_do]
        refine wp_freeEtables hy ?_
        intro y hy
        rw [wp_do]
        exact wp_releaseCtx hy rfl hno
      · exact hok

theorem wp_freeTorqueCtx {Q : Unit → Ledger × Prop → Prop} (h : Stands w c.owns complete n φ x)
    (hQ : ∀ y, Left [] n φ y → Q () y) : wp undoing (freeTorqueCtx c) Q x := by
  have htables : complete.Perm [.signalfd, .sigarray, .fdarray, .efd, .dns, .ctx] := by decide
  unfold freeTorqueCtx
  rw [wp_do]
  refine wp_freeEtables (h.perm htables) ?_
  intro y hy
  rw [wp_do]
  refine wp_freeArchitecture hy ?_
  intro c' y hc' _ hy
  unfold destroyEvqueue
  rw [wp_do, wp_do]
  refine wp_release hy (by simp) ?_
  intro y hy
  refine wp_release hy (by simp) ?_
  intro y hy
  exact wp_releaseCtx hy hc' hQ

theorem wp_torqueInitSigmasked {Q : Option TorqueCtx × Int → Ledger × Prop → Prop}
    (h : Stands w (fun _ => 0) [] 0 φ x) (hrefused : ∀ y, Refused φ y → Q (none, e) y)
    (hno : ∀ e' l k ψ y, e' ≠ 0 → Left l k ψ y → (ψ ↔ φ ∧ l = [] ∧ k = 0) → Q (none, e') y)
    (hok : ∀ c k w' y, Stands w' c.owns complete k φ y → Idle c k → Q (some c, 0) y) :
    wp undoing (torqueInitSigmasked e) Q x := by
  unfold torqueInitSigmasked
  rw [wp_do]
  refine wp_createTorqueCtx h hrefused ?_ ?_ ?_
  · intro y hy
    exact hno _ [] 0 φ y (by decide) hy (by simp)
  · intro y hy
    exact hno _ [.signalfd] 0 False y (by decide) hy (by simp)
  · intro y hy
    dsimp only
    rw [wp_do]
    rw [← owns_empty] at hy
    refine wp_detectArchitecture hy (fun _ => rfl) (by decide) rfl ?_ ?_
    · intro c k w' y hy hk
      dsimp only
      rw [if_neg (by simp)]
      exact hok c k w' y hy hk
    · intro e c k ψ w' y he hc hy hψ
      dsimp only
      rw [if_pos he, wp_do]
      refine wp_freeTorqueCtx hy ?_
      intro y hy
      exact hno e [] k ψ y he hy (by simpa using hψ)

/-- The signals are masked, or `torque_stop` gives up. -/
theorem wp_torqueSigmask {Q : Int → Ledger × Prop → Prop} (h : Stands w own complete n φ x)
    (hno : ∀ r y, r ≠ 0 → Stands w own complete n False y → Q r y)
    (hok : ∀ y, Stands w own complete n φ y → Q 0 y) : wp undoing torqueSigmask Q x := by
  have unhandled (c : Call) (hc : c = .sigemptyset ∨ c = .sigaddset ∨ c = .sigBlock)
      (y : Ledger × Prop) (hy : Stands w own complete n φ y) :
      Handled y.1 (.call c) false ∧ (Handled y.1 (.call c) true ↔ False) := by
    have hopen : y.1.held .efd ≠ 0 := Nat.ne_of_gt (hy.owes.pos (by decide))
    rcases hc with rfl | rfl | rfl <;> simp [Handled, hopen]
  unfold torqueSigmask
  rw [wp_do]
  refine wp_anyFails (P := False) h ?_ ?_ ?_
  · intro c hc
    have hc' : c = .sigemptyset ∨ c = .sigaddset := by simpa using hc
    exact ⟨by rcases hc' with rfl | rfl <;> simp, unhandled c (hc'.imp_right .inl)⟩
  · intro y hy
    exact hno _ y (by decide) (hy.unhandled And.right)
  · intro y hy
    rw [if_neg (by simp), wp_do]
    refine wp_probed hy (by simp) (fun _ => rfl) ?_
    intro failed z hz
    obtain ⟨hfalse, htrue⟩ := unhandled .sigBlock (by simp) y hy
    cases failed with
    | true => exact hno _ z (by decide) (hz.unhandled fun hφ => htrue.mp hφ.2)
    | false =>
      have hφ := and_iff_left (a := φ) hfalse
      exact hok z { hz with handled := hz.handled.trans (and_congr_right' hφ) }

theorem ends_null (howes : Owes x.1.held (fun _ => 0) l) (hk : x.1.orphans = k) (he : e ≠ 0)
    (hx : x.2 ↔ x.1.wild = false ∧ l = [] ∧ k = 0) : Ends (none, e) x := by
  refine Iff.trans ?_ hx.symm
  constructor
  · intro hs
    exact ⟨hs.inside, howes.nothing.mp (hs.released rfl), hk.symm.trans (hs.threads rfl)⟩
  · rintro ⟨hw, hl, hzero⟩
    exact ⟨hw, iff_of_true rfl he, fun _ => hk.trans hzero, fun _ => howes.nothing.mpr hl⟩

/-- After it has given up, the context and its threads are still there. -/
theorem Stands.ends_unhandled (h : Stands w own complete n False x) : Ends (none, e) x := by
  refine iff_of_false (fun hs => ?_) (fun hx => (h.handled.mp hx).2)
  exact Nat.ne_of_gt (h.owes.pos (r := .ctx) (by decide)) (hs.released rfl .ctx)

/-- The mask is restored when there is no context to give up for it. -/
theorem wp_restored {Q : Bool → Ledger × Prop → Prop}
    (hQ : ∀ (failed : Bool) ψ, (ψ ↔ x.2 ∧ (failed ∨ !x.1.refused)) → Q failed (x.1, ψ)) :
    wp undoing (fails .sigSetmask) Q x := by
  refine wp_reply (by simp) ?_
  intro failed s ψ hs hψ
  cases hs
  exact hQ failed ψ (by simpa [Handled] using hψ)

theorem ends_torqueStop (h : Stands w c.owns complete n True x) (hidle : Idle c n) (he : e ≠ 0) :
    wp undoing (do torqueStop (some c); pure (none, e)) Ends x := by
  rw [wp_do]
  unfold torqueStop
  rw [wp_do]
  refine wp_torqueSigmask h ?_ ?_
  · intro r y hr hy
    rw [if_pos hr]
    exact hy.ends_unhandled
  · intro y hy
    rw [if_neg (by simp), wp_do]
    refine wp_reapThreads hy hidle ?_
    intro _ y hy
    rw [wp_do]
    refine wp_freeTorqueCtx hy ?_
    intro y hy
    rw [wp_do]
    refine wp_restored ?_
    intro failed ψ hψ
    exact ends_null hy.owes hy.orphans he (by simp [hψ, hy.handled, hy.refused])

theorem wp_ignoreSigpipe {dfl : Bool} {Q : Bool → Ledger × Prop → Prop} (h : Stands w own l n φ x)
    (hQ : ∀ failed y, Stands w own l n φ y → Q failed y) : wp undoing (ignoreSigpipe dfl) Q x := by
  unfold ignoreSigpipe
  split
  · exact wp_quiet h (by simp) (fun _ => rfl) hQ
  · exact hQ false x h

theorem wp_makesigmask {Q : Bool → Ledger × Prop → Prop} (h : Stands w own l n φ x)
    (hQ : ∀ failed y, Stands w own l n φ y → Q failed y) : wp undoing makesigmask Q x := by
  refine wp_anyFails (P := True) h ?_ ?_ (hQ false)
  · intro c hc
    have hc' : c = .sigfillset ∨ c = .sigdelset := by simpa using hc
    rcases hc' with rfl | rfl <;> simp [Handled]
  · intro y hy
    exact hQ true y (by simpa using hy)

/-- With `*e` still `TORQUE_ERR_NONE`, all is well only if the mask cannot be
restored. -/
theorem Refused.ends {failed : Bool} {ψ : Prop} (h : Refused True x)
    (hψ : ψ ↔ x.2 ∧ (failed ∨ !x.1.refused)) :
    wp undoing (if failed then do torqueStop none; pure (none, TorqueErr.assert.code)
      else pure (none, TorqueErr.none.code)) Ends (x.1, ψ) := by
  cases failed with
  | true =>
    exact ends_null h.owes h.orphans (by decide) (by simp [hψ, h.handled])
  | false =>
    refine iff_of_false (fun hs => ?_) (fun hx => ?_)
    · exact absurd rfl (hs.null.mp rfl)
    · simpa [h.refused] using (hψ.mp hx).2

theorem ends_torqueInit (h : Stands w (fun _ => 0) [] 0 True x) : wp undoing torqueInit Ends x := by
  have early (y : Ledger × Prop) (hy : Stands w (fun _ => 0) [] 0 True y) :
      Ends (none, TorqueErr.assert.code) y :=
    ends_null hy.owes hy.orphans (by decide) (by simp [hy.handled, hy.wild])
  unfold torqueInit
  rw [wp_do]
  refine wp_asked h (by simp) (fun _ => rfl) (fun _ => rfl) ?_
  intro dfl y hy
  cases dfl with
  | none => exact early y hy
  | some dfl =>
    dsimp only
    rw [wp_do]
    refine wp_ignoreSigpipe hy ?_
    intro sigpipe y hy
    split
    · exact early y hy
    rw [wp_do]
    refine wp_makesigmask hy ?_
    intro mask y hy
    split
    · exact early y hy
    rw [wp_do]
    refine wp_quiet hy (by simp) ?_ ?_
    · intro failed
      have hclosed := hy.owes.eq_zero (r := .efd) (by simp) rfl
      simp [Handled, hclosed]
    intro block y hy
    split
    · exact early y hy
    rw [wp_do]
    refine wp_torqueInitSigmasked hy ?_ ?_ ?_
    · intro y hy
      dsimp only
      rw [wp_do]
      refine wp_restored ?_
      intro failed ψ hψ
      exact hy.ends hψ
    · intro e l k φ y he hy hφ
      dsimp only
      rw [wp_do]
      refine wp_restored ?_
      intro failed ψ hψ
      have hall : ψ ↔ y.1.wild = false ∧ l = [] ∧ k = 0 := by
        simp [hψ, hy.handled, hy.refused, hφ]
      cases failed with
      | true => exact ends_null hy.owes hy.orphans (by decide) hall
      | false => exact ends_null hy.owes hy.orphans he hall
    · intro c k w' y hy hk
      dsimp only
      rw [wp_do]
      refine wp_restored ?_
      intro failed ψ hψ
      have hstands : Stands w' c.owns complete k True (y.1, ψ) := by
        refine { hy with handled := ?_ }
        simp [hψ, hy.handled, hy.refused]
      cases failed with
      | true => exact ends_torqueStop hstands hk (by decide)
      | false =>
        refine Iff.trans ?_ hstands.handled.symm
        rw [and_true, ← hstands.wild]
        exact ⟨Settled.inside, fun hw => ⟨hw, by simp [TorqueErr.code], by simp, by simp⟩⟩

end Context

/-- Whatever the outcomes of the calls, a `torque_init` that has returned is
settled just in case each of them was handled. -/
theorem torqueInit_settled_iff (replies : List ((o : Op) → o.Rep)) (s : Ledger)
    (ret : Option TorqueCtx) (e : Int)
    (hrun : exec (Lib.Prog.step Ledger.next) ({}, torqueInit) replies = some (s, .ret (ret, e))) :
    Settled ret e s ↔
      Meets (Lib.Prog.step Ledger.next) (Lib.Prog.Assume Handled) ({}, torqueInit) replies := by
  have hstart : Stands false (fun _ => 0) [] 0 True ({}, True) :=
    ⟨owes_nil, rfl, rfl, rfl, rfl, by simp⟩
  have hends : wp (tracking Ledger.next Handled) torqueInit Ends ({}, True) :=
    wp_weaken (K := undoing) (fun _ _ _ => trivial) (fun _ _ _ _ h => h) (ends_torqueInit hstart)
  have hlast := exec_tracking hends hrun
  rw [true_and] at hlast
  exact hlast

/-- Nothing is given back that is not held, and so nothing twice. -/
theorem torqueInit_releases_held (replies : List ((o : Op) → o.Rep)) :
    Always (Lib.Prog.step Ledger.next)
      (fun x => ∀ r, x.2.op = some (.release r) → x.1.held r ≠ 0) ({}, torqueInit) replies := by
  have hstart : Stands false (fun _ => 0) [] 0 True ({}, True) :=
    ⟨owes_nil, rfl, rfl, rfl, rfl, by simp⟩
  refine Always.mono ?_ (always_tracking (P := Gives) (ends_torqueInit hstart) replies)
  intro x hx r hr
  exact hx _ hr r rfl

/-- A machine with one CPU, no GPU, and a failure of the operation named. -/
def without (fails : Op → Bool) : (o : Op) → o.Rep
  | .sigaction => some false
  | .call c => fails (.call c)
  | .create r => !fails (.create r)
  | .realloc r null => !fails (.realloc r null)
  | .release _ | .pthreadJoin => ()
  | .openMax => 1024
  | .dtablesize => 1024
  | .sigrtmax => 64
  | .getaffinity => some (CpuSet.zero.set 0)
  | .x86cpuid _ => none
  | .topologize .. => ⟨true, true, true⟩
  | .condWait => (false, true)
  | .blockThread => false
  | .cudadevcount => 0
  | .cudaid _ => (TorqueErr.inval.code, ⟨0, 0, 0, [], "", [], .nvidia 0 0, []⟩)
  | .pagesize => 4096
  | .sysmem => (1, 4096, none)

/-- Without a signalfd, the tables and the context are given back. -/
theorem torqueInit_no_signalfd : ∃ s : Ledger,
    exec (Lib.Prog.step Ledger.next) ({}, torqueInit)
        (List.replicate 23 (without fun | .create .signalfd => true | _ => false)) =
      some (s, .ret (none, TorqueErr.resource.code)) ∧
    Settled none TorqueErr.resource.code s := by
  refine ⟨_, rfl, ?_⟩
  exact (torqueInit_settled_iff
    (List.replicate 23 (without fun | .create .signalfd => true | _ => false)) _ none _ rfl).mpr
    (by decide)

/-- Without memory for the context, NULL is returned and `*e` is
`TORQUE_ERR_NONE`. -/
theorem torqueInit_null_without_error : ∃ s : Ledger,
    exec (Lib.Prog.step Ledger.next) ({}, torqueInit)
        (List.replicate 12 (without fun | .create .ctx => true | _ => false)) =
      some (s, .ret (none, TorqueErr.none.code)) ∧
    ¬ Settled none TorqueErr.none.code s := by
  refine ⟨_, rfl, fun hs => ?_⟩
  exact absurd rfl (hs.null.mp rfl)

end Libtorque.Startup
