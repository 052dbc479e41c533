import Libtorque.World

/-! # Registrations that fail

`add_fd_to_evhandler` sets up the table's entry before it asks epoll, and leaves
it so when epoll refuses; `free_rxbuffercb` returns a buffer's pages and keeps
the structure around them. A call that fails changes nothing exactly when it
has not got that far: `Early`. -/
namespace Libtorque
open Lib

/-- No entry is different, and nothing is held in addition. -/
structure World.Unchanged (w v : World) : Prop where
  fdarray : v.fdarray = w.fdarray
  objs : ∀ c, v.objs c = .live ↔ w.objs c = .live
  maps : ∀ m, v.maps m = .live ↔ w.maps m = .live
  fds : v.fds = w.fds

/-- Whether a call makes a receive buffer of `torque_addfd`'s. -/
def AddCall.buffered : AddCall → Bool
  | addfd .. | addconnector .. => true
  | _ => false

/-- An entry is only written with what is in it, and no receive buffer is
allocated by `torque_addfd`. -/
def Early (call : AddCall) (w : World) : (o : Op) → o.Rep → Bool
  | .setEvsourceRx fd f, _ => (w.fdarray fd).rxfxn = f
  | .setEvsourceTx fd f, _ => (w.fdarray fd).txfxn = f
  | .setEvsourceState fd st, _ => (w.fdarray fd).cbstate = st
  | .getBigPage, (_, page) => call.buffered → page = none
  | _, _ => true

/-! ## What a call holds so far -/

/-- `v` is as `w`, apart from the table and from what memory contains, but for
an object, a mapping and a descriptor. -/
structure World.Holds (w v : World) (obj map fd : Option Nat) : Prop where
  objs : ∀ c, v.objs c = .live ↔ w.objs c = .live ∨ c ∈ obj
  newObj : ∀ c ∈ obj, w.objs c ≠ .live
  maps : ∀ m, v.maps m = .live ↔ w.maps m = .live ∨ m ∈ map
  newMap : ∀ m ∈ map, w.maps m ≠ .live
  fds : ∀ d, d ∉ fd → v.fds d = w.fds d
  newFd : ∀ d ∈ fd, w.fds d = .closed

/-- Operations that leave the table, the descriptors and the heap as they are. -/
def Op.stays : Op → Bool
  | .rxbuf _ | .setRxbuf .. | .fields _ | .setFields .. | .fdarraysize | .errno | .connect _
  | .timerfdSettime _ | .sslFree _ => true
  | _ => false

section Holding
variable {w v u : World} {obj map fd : Option Nat}

theorem World.Holds.refl (w : World) : w.Holds w none none none where
  objs := by simp
  newObj := by simp
  maps := by simp
  newMap := by simp
  fds _ _ := rfl
  newFd := by simp

/-- Nothing but the table and the contents of memory is different in `u`. -/
theorem World.Holds.transfer (h : w.Holds v obj map fd) (ho : u.objs = v.objs)
    (hm : u.maps = v.maps) (hf : u.fds = v.fds) : w.Holds u obj map fd := by
  obtain ⟨h1, h2, h3, h4, h5, h6⟩ := h
  exact ⟨ho ▸ h1, h2, hm ▸ h3, h4, hf ▸ h5, h6⟩

theorem World.Holds.malloc {c : Nat} (h : w.Holds v none map fd) (hc : v.objs c = .fresh) :
    w.Holds (v.setObj c .live) (some c) map fd := by
  have hnew : w.objs c ≠ .live := by
    intro hl
    have := (h.objs c).mpr (.inl hl)
    rw [hc] at this
    cases this
  refine { h with objs := ?_, newObj := ?_ }
  · intro d
    by_cases hd : d = c
    · subst hd
      simp [World.setObj]
    · have := h.objs d
      simp only [World.setObj, Function.update_of_ne hd, this]
      simp [Ne.symm hd]
  · rintro d ⟨⟩
    exact hnew

theorem World.Holds.free {c : Nat} (h : w.Holds v (some c) map fd) :
    w.Holds (v.setObj c .freed) none map fd := by
  refine { h with objs := ?_, newObj := by simp }
  intro d
  by_cases hd : d = c
  · subst hd
    have := h.newObj d rfl
    simp [World.setObj, this]
  · have := h.objs d
    simp only [World.setObj, Function.update_of_ne hd, this]
    simp [Ne.symm hd]

theorem World.Holds.mmap {m : Nat} (h : w.Holds v obj none fd) (hm : v.maps m = .fresh) :
    w.Holds (v.setMap m .live) obj (some m) fd := by
  have hnew : w.maps m ≠ .live := by
    intro hl
    have := (h.maps m).mpr (.inl hl)
    rw [hm] at this
    cases this
  refine { h with maps := ?_, newMap := ?_ }
  · intro d
    by_cases hd : d = m
    · subst hd
      simp [World.setMap]
    · have := h.maps d
      simp only [World.setMap, Function.update_of_ne hd, this]
      simp [Ne.symm hd]
  · rintro d ⟨⟩
    exact hnew

theorem World.Holds.munmap {m : Nat} (h : w.Holds v obj (some m) fd) :
    w.Holds (v.setMap m .freed) obj none fd := by
  refine { h with maps := ?_, newMap := by simp }
  intro d
  by_cases hd : d = m
  · subst hd
    have := h.newMap d rfl
    simp [World.setMap, this]
  · have := h.maps d
    simp only [World.setMap, Function.update_of_ne hd, this]
    simp [Ne.symm hd]

theorem World.Holds.open {d : Nat} (h : w.Holds v obj map none) (hd : v.fds d = .closed) :
    w.Holds (v.setFd d .idle) obj map (some d) := by
  refine { h with fds := ?_, newFd := ?_ }
  · intro e he
    have hne : e ≠ d := fun h => he (h ▸ rfl)
    simp only [World.setFd, Function.update_of_ne hne]
    exact h.fds e (by simp)
  · rintro e ⟨⟩
    rw [← h.fds d (by simp)]
    exact hd

theorem World.Holds.close {d : Nat} (h : w.Holds v obj map (some d)) :
    w.Holds (v.setFd d .closed) obj map none := by
  refine { h with fds := ?_, newFd := by simp }
  intro e _
  by_cases he : e = d
  · subst he
    simp [World.setFd, h.newFd e rfl]
  · simp only [World.setFd, Function.update_of_ne he]
    exact h.fds e (fun hm => he (Option.some.inj hm).symm)

theorem next_stays {o : Op} {r : o.Rep} (ho : o.stays) (h : v.next o r = some u) :
    u.fdarray = v.fdarray ∧ u.objs = v.objs ∧ u.maps = v.maps ∧ u.fds = v.fds := by
  cases o <;> simp only [Op.stays, Bool.false_eq_true] at ho <;> simp only [World.next] at h
  all_goals
    first
    | (cases h; exact ⟨rfl, rfl, rfl, rfl⟩)
    | (split at h <;> cases h; exact ⟨rfl, rfl, rfl, rfl⟩)

theorem next_live {o : Op} {r : o.Rep} {c : Nat} (ho : ∀ d, o ≠ .free d)
    (h : v.next o r = some u) (hc : v.objs c = .live) : u.objs c = .live := by
  cases o
  case free d => exact absurd rfl (ho d)
  case event => cases h
  case malloc =>
    cases r with
    | none => cases h; exact hc
    | some d =>
      obtain ⟨-, rfl⟩ := World.malloc_cases h
      simp only [World.setObj, Function.update_apply, hc, ite_self]
  case epollCtl op fd e =>
    rcases World.epollCtl_cases h with ⟨-, h⟩ | ⟨-, rfl⟩
    · unfold World.epollCtl at h
      split at h <;> cases h <;> exact hc
    · exact hc
  case modPages buffer _ _ =>
    cases r with
    | none => cases h; exact hc
    | some page =>
      cases buffer <;> simp only [World.next, World.unmap, World.mapPage] at h
      · simp only [Option.bind_some] at h
        split at h <;> cases h
        exact hc
      · split at h
        · simp only [Option.bind_some] at h
          split at h <;> cases h
          exact hc
        · cases h
  case getBigPage =>
    obtain ⟨_, _ | page⟩ := r
    · cases h; exact hc
    · simp only [World.next, World.mapPage] at h
      split at h <;> cases h
      exact hc
  case dealloc buffer _ =>
    cases buffer <;> simp only [World.next, World.unmap] at h
    · cases h; exact hc
    · split at h <;> cases h
      exact hc
  case accept fd =>
    cases r with
    | none => cases h; exact hc
    | some d =>
      obtain ⟨-, rfl⟩ := World.openFd_cases h
      exact hc
  case timerfdCreate =>
    cases r with
    | none => cases h; exact hc
    | some d =>
      obtain ⟨-, rfl⟩ := World.openFd_cases h
      exact hc
  case read =>
    cases r <;> simp only [World.next] at h <;> split at h <;> cases h <;> exact hc
  case sslRead =>
    cases r <;> simp only [World.next] at h <;> split at h <;> cases h <;> exact hc
  all_goals
    simp only [World.next] at h
    first
    | (cases h; exact hc)
    | (split at h <;> cases h; exact hc)

end Holding

/-- What a call that fails is to have done: exactly then nothing is different. -/
def Ends (w : World) (e : Int) (y : World × Prop) : Prop := e ≠ 0 → (w.Unchanged y.1 ↔ y.2)

/-- So far the call has met `Early` just in case the table is as it was. -/
structure Sofar (w : World) (obj map fd : Option Nat) (x : World × Prop) : Prop
    extends w.Holds x.1 obj map fd where
  early : x.2 ↔ x.1.fdarray = w.fdarray

theorem Sofar.ends {w : World} {y : World × Prop} {e : Int} (h : Sofar w none none none y) :
    Ends w e y := by
  intro _
  rw [h.early]
  refine ⟨fun hu => hu.fdarray, fun hf => ⟨hf, ?_, ?_, ?_⟩⟩
  · intro c
    simpa using h.objs c
  · intro m
    simpa using h.maps m
  · funext d
    exact h.fds d (by simp)

/-- The call is no longer early, and holds an object that it does not free. -/
def Lost (w : World) (x : World × Prop) : Prop :=
  ¬ x.2 ∧ ∃ c, x.1.objs c = .live ∧ w.objs c ≠ .live

theorem Lost.ends {w : World} {y : World × Prop} {e : Int} (h : Lost w y) : Ends w e y := by
  obtain ⟨hearly, c, hlive, hnew⟩ := h
  intro _
  refine iff_of_false (fun hu => ?_) hearly
  exact hnew ((hu.objs c).mp hlive)

section Steps
variable {w : World} {call : AddCall} {x : World × Prop} {obj map fd : Option Nat} {c : Nat}

theorem wp_early {o : Op} {Q : o.Rep → World × Prop → Prop}
    (h : ∀ r v ψ, x.1.next o r = some v → (ψ ↔ x.2 ∧ Early call x.1 o r) → Q r (v, ψ)) :
    wp (tracking World.next (Early call)) (perform o) Q x :=
  wp_op trivial fun r y hy => h r y.1 y.2 hy.1 hy.2

theorem early_stays {o : Op} {r : o.Rep} (ho : o.stays) : Early call x.1 o r := by
  cases o <;> simp only [Op.stays, Bool.false_eq_true] at ho <;> trivial

theorem wp_stays {o : Op} {Q : o.Rep → World × Prop → Prop} (ho : o.stays)
    (h : Sofar w obj map fd x) (hQ : ∀ r y, x.1.next o r = some y.1 → Sofar w obj map fd y →
      y.1.fdarray = x.1.fdarray → Q r y) :
    wp (tracking World.next (Early call)) (perform o) Q x := by
  refine wp_early ?_
  intro r v ψ hv hψ
  obtain ⟨hentry, hobj, hmap, hfds⟩ := next_stays ho hv
  refine hQ r (v, ψ) hv { toHolds := h.transfer hobj hmap hfds, early := ?_ } hentry
  rw [hψ, and_iff_left (early_stays ho), h.early]
  exact iff_of_eq (congrArg (· = w.fdarray) hentry.symm)

theorem wp_malloc {Q : Option Nat → World × Prop → Prop} (h : Sofar w none map fd x)
    (hnone : ∀ y, Sofar w none map fd y → y.1.fdarray = x.1.fdarray → Q none y)
    (hsome : ∀ c y, Sofar w (some c) map fd y → y.1.fdarray = x.1.fdarray → Q (some c) y) :
    wp (tracking World.next (Early call)) malloc Q x := by
  refine wp_early ?_
  intro r v ψ hv hψ
  replace hψ : ψ ↔ x.2 := hψ.trans (and_iff_left rfl)
  cases r with
  | none =>
    cases hv
    exact hnone (x.1, ψ) { toHolds := h.toHolds, early := hψ.trans h.early } rfl
  | some c =>
    obtain ⟨hc, rfl⟩ := World.malloc_cases hv
    exact hsome c (_, ψ) { toHolds := h.malloc hc, early := hψ.trans h.early } rfl

theorem wp_free {Q : Unit → World × Prop → Prop} (h : Sofar w (some c) map fd x)
    (hQ : ∀ y, Sofar w none map fd y → y.1.fdarray = x.1.fdarray → Q () y) :
    wp (tracking World.next (Early call)) (free c) Q x := by
  refine wp_early ?_
  intro r v ψ hv hψ
  replace hψ : ψ ↔ x.2 := hψ.trans (and_iff_left rfl)
  obtain ⟨-, rfl⟩ := World.free_cases hv
  exact hQ (_, ψ) { toHolds := h.free, early := hψ.trans h.early } rfl

theorem wp_dealloc {m n : Nat} {Q : Unit → World × Prop → Prop} (h : Sofar w obj (some m) fd x)
    (hQ : ∀ y, Sofar w obj none fd y → y.1.fdarray = x.1.fdarray → Q () y) :
    wp (tracking World.next (Early call)) (dealloc (some m) n) Q x := by
  refine wp_early ?_
  intro r v ψ hv hψ
  replace hψ : ψ ↔ x.2 := hψ.trans (and_iff_left rfl)
  simp only [World.next, World.unmap] at hv
  split at hv <;> cases hv
  exact hQ (_, ψ) { toHolds := h.munmap, early := hψ.trans h.early } rfl

theorem wp_close {d : Nat} {Q : Unit → World × Prop → Prop} (h : Sofar w obj map (some d) x)
    (hQ : ∀ y, Sofar w obj map none y → Q () y) :
    wp (tracking World.next (Early call)) (close d) Q x := by
  refine wp_early ?_
  intro r v ψ hv hψ
  replace hψ : ψ ↔ x.2 := hψ.trans (and_iff_left rfl)
  cases hv
  exact hQ (_, ψ) { toHolds := h.close, early := hψ.trans h.early }

/-- The pages come with a buffer that names them. Where `torque_addfd` gets
them, the call is no longer early. -/
theorem wp_initialize {Q : Int → World × Prop → Prop} (h : Sofar w obj none fd x)
    (hx : x.1.fdarray = w.fdarray)
    (hok : ∀ m y, w.Holds y.1 obj (some m) fd → y.1.fdarray = w.fdarray →
      (y.1.rxbs c).buffer = some m → (y.2 ↔ ¬ call.buffered) → Q 0 y)
    (hfail : ∀ y, Sofar w obj none fd y → y.1.fdarray = w.fdarray → Q (-1) y) :
    wp (tracking World.next (Early call)) (initializeRxbuffer c) Q x := by
  unfold initializeRxbuffer
  rw [wp_do]
  refine wp_stays rfl h ?_
  intro rxb y _ hy hyx
  have hyw := hyx.trans hx
  rw [wp_do]
  refine wp_early ?_
  intro r v ψ hv hψ
  obtain ⟨size, _ | page⟩ := r
  · replace hψ : ψ ↔ y.2 := hψ.trans (and_iff_left (by simp [Early]))
    cases hv
    dsimp only
    rw [wp_do]
    refine wp_stays rfl ⟨hy.toHolds, hψ.trans hy.early⟩ ?_
    intro _ z _ hz hzy
    exact hfail z hz (hzy.trans hyw)
  · simp only [World.next, World.mapPage] at hv
    split at hv <;> cases hv
    rename_i hfresh
    dsimp only
    rw [wp_do]
    refine wp_early ?_
    intro _ u χ hu hχ
    obtain ⟨-, rfl⟩ := World.setRxbuf_cases hu
    refine hok page.ptr (_, χ) ((hy.mmap hfresh).transfer rfl rfl rfl) hyw ?_ ?_
    · simp
    · rw [hχ, hψ, hy.early]
      simp [hyw, Early]

/-- What is lost stays lost, unless it is freed. -/
theorem wp_lost {o : Op} {Q : o.Rep → World × Prop → Prop} (ho : ∀ d, o ≠ .free d)
    (h : Lost w x) (hQ : ∀ r y, Lost w y → Q r y) :
    wp (tracking World.next (Early call)) (perform o) Q x := by
  refine wp_early ?_
  intro r v ψ hv hψ
  obtain ⟨hearly, c, hlive, hnew⟩ := h
  refine hQ r (v, ψ) ⟨fun hp => hearly (hψ.mp hp).1, c, next_live ho hv hlive, hnew⟩

theorem wp_fdEvent {n : Nat} {rx tx : Option Fn} {flags : Events} {Q : Int → World × Prop → Prop}
    (hok : ∀ y, Q 0 y) (hfail : ∀ y, y.1 = x.1 → (y.2 ↔ x.2) → Q (-1) y) :
    wp (tracking World.next (Early call)) (addFdEvent n rx tx flags) Q x := by
  unfold addFdEvent
  split
  · exact hfail x rfl Iff.rfl
  · rw [wp_do]
    refine wp_early ?_
    intro ok v ψ hv hψ
    cases ok with
    | true => exact hok (v, ψ)
    | false =>
      cases hv
      exact hfail (x.1, ψ) rfl (hψ.trans (and_iff_left rfl))

/-- The entry is written, if there is one, and stays written when epoll refuses. -/
theorem wp_addFd {d : Int} {rx tx : Option Fn} {st : CbState} {flags : Events}
    {Q : Int → World × Prop → Prop} (hok : ∀ y, Q 0 y)
    (hfail : ∀ y f, y.1 = { x.1 with fdarray := f } → (y.2 ↔ x.2 ∧ f = x.1.fdarray) → Q (-1) y) :
    wp (tracking World.next (Early call)) (addFdToEvhandler d rx tx st flags) Q x := by
  unfold addFdToEvhandler
  rw [wp_do]
  refine wp_early ?_
  intro size v ψ hv hψ
  replace hψ : ψ ↔ x.2 := hψ.trans (and_iff_left rfl)
  obtain ⟨-, rfl⟩ := World.fdarraysize_cases hv
  split
  · exact hfail (x.1, ψ) x.1.fdarray rfl (by simp [hψ])
  · unfold setupEvsource
    rw [wp_do, wp_do]
    refine wp_early ?_
    intro _ v1 ψ1 hv1 hψ1
    cases hv1
    rw [wp_do]
    refine wp_early ?_
    intro _ v2 ψ2 hv2 hψ2
    cases hv2
    refine wp_early ?_
    intro _ v3 ψ3 hv3 hψ3
    cases hv3
    rw [wp_do]
    apply wp_fdEvent
    · intro y
      rw [if_neg (by simp)]
      exact hok y
    · intro y hy hyψ
      rw [if_pos (by decide)]
      refine hfail y _ (hy.trans rfl) ?_
      rw [hyψ, hψ3, hψ2, hψ1, hψ]
      simp only [Early, World.setEntry, Function.update_idem, Function.update_self,
        Function.update_eq_self_iff, and_assoc]
      refine and_congr_right fun _ => ?_
      cases x.1.fdarray (unsigned d)
      simp [eq_comm]

/-! ## The calls -/

/-- A buffer of `torque_addfd` is not given back once it is there. -/
theorem wp_rxbuffercb {rx tx : Option Nat} {n : Nat} {Q : Option Nat → World × Prop → Prop}
    (hc : call.buffered) (h : Sofar w none none fd x) (hx : x.1.fdarray = w.fdarray)
    (hnone : ∀ y, Sofar w none none fd y → Q none y) (hsome : ∀ c y, Lost w y → Q (some c) y) :
    wp (tracking World.next (Early call)) (createRxbuffercb rx tx n) Q x := by
  unfold createRxbuffercb
  rw [wp_do]
  apply wp_malloc h
  · intro y hy _
    exact hnone y hy
  · intro c y hy hyx
    dsimp only
    rw [wp_do]
    apply wp_initialize hy (hyx.trans hx)
    · intro m z hz _ _ hearly
      have hlost : Lost w z :=
        ⟨fun hp => hearly.mp hp hc, c, (hz.objs c).mpr (.inr rfl), hz.newObj c rfl⟩
      rw [if_pos rfl, wp_do]
      refine wp_lost nofun hlost ?_
      intro _ z1 h1
      rw [wp_do]
      refine wp_lost nofun h1 ?_
      intro _ z2 h2
      rw [wp_do]
      refine wp_lost nofun h2 ?_
      intro _ z3 h3
      exact hsome c z3 h3
    · intro z hz _
      rw [if_neg (by decide), wp_do]
      refine wp_free hz ?_
      intro u hu _
      exact hnone u hu

theorem ends_addfd {d : Int} {rx tx : Option Nat} {n : Nat} (hc : call.buffered)
    (h : Sofar w none none none x) (hx : x.1.fdarray = w.fdarray) :
    wp (tracking World.next (Early call)) (torqueAddfd d rx tx n) (Ends w) x := by
  unfold torqueAddfd
  split
  · exact h.ends
  · rw [wp_do]
    apply wp_rxbuffercb hc h hx
    · intro y hy
      exact hy.ends
    · intro c y ⟨hearly, c', hlive, hnew⟩
      dsimp only
      rw [wp_do]
      apply wp_addFd
      · intro z
        exact fun he => absurd rfl he
      · intro z f hz hzψ
        have hlost : Lost w z := ⟨fun hp => hearly (hzψ.mp hp).1, c', hz ▸ hlive, hnew⟩
        rw [if_pos (by decide), wp_do]
        unfold freeRxbuffercb freeRxbuffer
        rw [wp_do]
        refine wp_lost nofun hlost ?_
        intro _ z1 h1
        refine wp_lost nofun h1 ?_
        intro _ z2 h2
        exact h2.ends

/-- What is held, and whether the table has changed, after `add_fd_to_evhandler`. -/
theorem Sofar.of_addFd {y : World × Prop} {f : Nat → EvSource} (h : Sofar w obj map fd x)
    (hx : x.1.fdarray = w.fdarray) (hy : y.1 = { x.1 with fdarray := f })
    (hyψ : y.2 ↔ x.2 ∧ f = x.1.fdarray) : Sofar w obj map fd y := by
  obtain ⟨v, ψ⟩ := y
  cases hy
  refine { toHolds := h.transfer rfl rfl rfl, early := ?_ }
  rw [hyψ, h.early]
  simp [hx]

/-- Nothing is to be given back by the caller. -/
theorem ends_addFdToEvhandler {d : Int} {rx tx : Option Fn} {st : CbState} {flags : Events}
    (h : Sofar w none none none x) (hx : x.1.fdarray = w.fdarray) :
    wp (tracking World.next (Early call)) (addFdToEvhandler d rx tx st flags) (Ends w) x := by
  apply wp_addFd
  · intro y
    exact fun he => absurd rfl he
  · intro y f hy hyψ
    exact (h.of_addFd hx hy hyψ).ends

theorem ends_addfdUnbuffered {d : Int} {rx tx : Option Fn} {st : CbState}
    (h : Sofar w none none none x) (hx : x.1.fdarray = w.fdarray) :
    wp (tracking World.next (Early call)) (torqueAddfdUnbuffered d rx tx st) (Ends w) x := by
  unfold torqueAddfdUnbuffered
  split
  · exact h.ends
  · exact ends_addFdToEvhandler h hx

theorem ends_addfdConcurrent {d : Int} {rx tx : Option Fn} {st : CbState}
    (h : Sofar w none none none x) (hx : x.1.fdarray = w.fdarray) :
    wp (tracking World.next (Early call)) (torqueAddfdConcurrent d rx tx st) (Ends w) x := by
  unfold torqueAddfdConcurrent
  split
  · exact h.ends
  · exact ends_addFdToEvhandler h hx

theorem ends_addconnector {d : Int} {rx tx : Option Nat} {n : Nat} {add : Prog Int}
    (hadd : ∀ y, Sofar w none none none y → y.1.fdarray = w.fdarray →
      wp (tracking World.next (Early call)) add (Ends w) y)
    (h : Sofar w none none none x) (hx : x.1.fdarray = w.fdarray) :
    wp (tracking World.next (Early call)) (addconnector d rx tx n add) (Ends w) x := by
  unfold addconnector
  split
  · exact h.ends
  rw [wp_do]
  refine wp_stays rfl h ?_
  intro connected y _ hy hyx
  split
  · exact hadd y hy (hyx.trans hx)
  rw [wp_do]
  refine wp_stays rfl hy ?_
  intro e z _ hz hzy
  split
  · unfold createConncb
    rw [wp_do, wp_do]
    apply wp_malloc hz
    · intro u hu _
      rw [wp_pure]
      dsimp only
      rw [wp_do]
      refine wp_stays rfl hu ?_
      intro _ v _ hv _
      exact hv.ends
    · intro c u hu huz
      dsimp only
      rw [wp_do]
      refine wp_stays rfl hu ?_
      intro _ v _ hv hvu
      rw [wp_pure]
      dsimp only
      rw [wp_do]
      apply wp_addFd
      · intro t
        exact fun he => absurd rfl he
      · intro t f ht htψ
        have hvw : v.1.fdarray = w.fdarray := by rw [hvu, huz, hzy, hyx, hx]
        rw [if_pos (by decide), wp_do]
        refine wp_free (hv.of_addFd hvw ht htψ) ?_
        intro a ha _
        exact ha.ends
  · exact hz.ends

theorem wp_releaseSsl {m : Nat} {Q : Unit → World × Prop → Prop}
    (h : Sofar w (some c) (some m) fd x) (hm : (x.1.rxbs c).buffer = some m)
    (hQ : ∀ y, Sofar w none none fd y → Q () y) :
    wp (tracking World.next (Early call)) (freeSslCbstate c) Q x := by
  unfold freeSslCbstate freeRxbuffer
  rw [wp_do]
  refine wp_stays rfl h ?_
  intro sc y hxy hy _
  rw [wp_do]
  refine wp_stays rfl hy ?_
  intro _ z hyz hz _
  rw [wp_do, wp_do]
  refine wp_stays rfl hz ?_
  intro rxb u hzu hu _
  have hbuffer : rxb.buffer = some m := by
    obtain ⟨-, -, hy⟩ := World.fields_cases hxy
    obtain ⟨-, hload, -⟩ := World.rxbuf_cases hzu
    rw [hload, ← Option.some.inj hyz, hy]
    exact hm
  rw [hbuffer]
  refine wp_dealloc hu ?_
  intro v hv _
  refine wp_free hv ?_
  intro t ht _
  exact hQ t ht

theorem wp_sslCbstate {ctx n : Nat} {rx tx : Option Nat} {Q : Option Nat → World × Prop → Prop}
    (hc : ¬ call.buffered) (h : Sofar w none none fd x) (hx : x.1.fdarray = w.fdarray)
    (hnone : ∀ y, Sofar w none none fd y → Q none y)
    (hsome : ∀ c m y, Sofar w (some c) (some m) fd y → y.1.fdarray = w.fdarray →
      (y.1.rxbs c).buffer = some m → Q (some c) y) :
    wp (tracking World.next (Early call)) (createSslCbstate ctx n rx tx) Q x := by
  unfold createSslCbstate
  rw [wp_do]
  apply wp_malloc h
  · intro y hy _
    exact hnone y hy
  · intro c y hy hyx
    dsimp only
    rw [wp_do]
    apply wp_initialize hy (hyx.trans hx)
    · intro m z hz hzw hbuffer hearly
      have hz : Sofar w (some c) (some m) fd z :=
        { toHolds := hz, early := iff_of_true (hearly.mpr hc) hzw }
      rw [if_pos rfl, wp_do]
      refine wp_stays rfl hz ?_
      intro _ u hzu hu huz
      refine hsome c m u hu (huz.trans hzw) ?_
      obtain ⟨-, hu⟩ := World.setFields_cases hzu
      rw [hu]
      exact hbuffer
    · intro z hz _
      rw [if_neg (by decide), wp_do]
      refine wp_free hz ?_
      intro u hu _
      exact hnone u hu

theorem ends_addssl {d : Int} {ctx : Nat} {rx tx : Option Nat} {n : Nat} (hc : ¬ call.buffered)
    (h : Sofar w none none none x) (hx : x.1.fdarray = w.fdarray) :
    wp (tracking World.next (Early call)) (torqueAddssl d ctx rx tx n) (Ends w) x := by
  unfold torqueAddssl
  rw [wp_do]
  apply wp_sslCbstate hc h hx
  · intro y hy
    exact hy.ends
  · intro c m y hy hyw hbuffer
    -- whatever it is that failed, the state is released
    have failed (r : Int) (hr : r ≠ 0) (z : World × Prop) (f : Nat → EvSource)
        (hz : z.1 = { y.1 with fdarray := f }) (hzψ : z.2 ↔ y.2 ∧ f = y.1.fdarray) :
        wp (tracking World.next (Early call))
          (if r ≠ 0 then do
            freeSslCbstate c
            pure TorqueErr.resource.code
          else pure 0) (Ends w) z := by
      rw [if_pos hr, wp_do]
      refine wp_releaseSsl (hy.of_addFd hyw hz hzψ) ?_ ?_
      · rw [hz]
        exact hbuffer
      · intro t ht
        exact ht.ends
    dsimp only
    rw [wp_do]
    unfold torqueAddfdUnbuffered
    split
    · exact failed _ (by decide) y y.1.fdarray rfl (by simp)
    · apply wp_addFd
      · intro z
        exact fun he => absurd rfl he
      · intro z f hz hzψ
        exact failed (-1) (by decide) z f hz hzψ

theorem ends_addtimer {f : Option Nat} {n : Nat} (h : Sofar w none none none x)
    (hx : x.1.fdarray = w.fdarray) :
    wp (tracking World.next (Early call)) (torqueAddtimer f n) (Ends w) x := by
  unfold torqueAddtimer addTimerToEvhandler createTimerfdMarshal
  rw [wp_do, wp_do]
  apply wp_malloc h
  · intro y hy _
    exact hy.ends
  · intro c y hy hyx
    -- the error paths after the descriptor has been opened
    have failed (d : Nat) (e : Int) (z : World × Prop) (hz : Sofar w (some c) none (some d) z) :
        wp (tracking World.next (Early call)) (do close d; free c; pure e) (Ends w) z := by
      rw [wp_do]
      refine wp_close hz ?_
      intro z1 h1
      rw [wp_do]
      refine wp_free h1 ?_
      intro z2 h2 _
      exact h2.ends
    dsimp only
    rw [wp_do]
    refine wp_stays rfl hy ?_
    intro _ z _ hz hzy
    rw [wp_pure]
    dsimp only
    rw [wp_do]
    refine wp_early ?_
    intro r v ψ hv hψ
    replace hψ : ψ ↔ z.2 := hψ.trans (and_iff_left rfl)
    have hzw : z.1.fdarray = w.fdarray := by rw [hzy, hyx, hx]
    cases r with
    | none =>
      cases hv
      dsimp only
      rw [wp_do]
      refine wp_free ⟨hz.toHolds, hψ.trans hz.early⟩ ?_
      intro u hu _
      rw [wp_do]
      refine wp_stays rfl hu ?_
      intro e t _ ht _
      split
      · exact ht.ends
      · split <;> exact ht.ends
    | some d =>
      obtain ⟨hd, rfl⟩ := World.openFd_cases hv
      have hzd : Sofar w (some c) none (some d) (z.1.setFd d .idle, ψ) :=
        ⟨hz.toHolds.open hd.1, hψ.trans hz.early⟩
      dsimp only
      rw [wp_do]
      refine wp_stays rfl hzd ?_
      intro ok u _ hu huz
      split
      · rw [wp_do]
        apply wp_addFd
        · intro t
          exact fun he => absurd rfl he
        · intro t g ht htψ
          rw [if_pos (by decide)]
          exact failed d _ t (hu.of_addFd (huz.trans hzw) ht htψ)
      · exact failed d _ u hu

theorem ends_prog (h : Sofar w none none none x) (hx : x.1.fdarray = w.fdarray) :
    wp (tracking World.next (Early call)) call.prog (Ends w) x := by
  cases hcall : call with
  | addfd => exact ends_addfd rfl h hx
  | addfdUnbuffered => exact ends_addfdUnbuffered h hx
  | addfdConcurrent => exact ends_addfdConcurrent h hx
  | addconnector => exact ends_addconnector (fun _ hy hyw => ends_addfd rfl hy hyw) h hx
  | addconnectorUnbuffered =>
    exact ends_addconnector (fun _ hy hyw => ends_addfdUnbuffered hy hyw) h hx
  | addssl => exact ends_addssl Bool.false_ne_true h hx
  | addtimer => exact ends_addtimer h hx

end Steps

/-- A call that fails, whatever it was called in and whatever its steps gave:
every entry is as it was, and everything allocated has been released, exactly
when it has written no entry that was different, and no receive buffer had been
allocated by `torque_addfd`. -/
theorem addCall_unchanged_iff (call : AddCall) (w v : World) (e : Int)
    (replies : List ((o : Op) → o.Rep))
    (hrun : exec (Prog.step World.next) (w, call.prog) replies = some (v, .ret e)) (he : e ≠ 0) :
    w.Unchanged v ↔
      Meets (Prog.step World.next) (Prog.Assume (Early call)) (w, call.prog) replies := by
  have hends : wp (tracking World.next (Early call)) call.prog (Ends w) (w, True) :=
    ends_prog { toHolds := .refl w, early := by simp } rfl
  simpa using exec_tracking hends hrun he

/-- The replies of a call whose steps give the results listed. -/
def AddCall.replies (call : AddCall) (w : World) (answers : List Answer) :
    List ((o : Op) → o.Rep) :=
  script World.next World.loads 25 (w, call.prog) answers

/-- A timer for which the kernel has no descriptor left. -/
theorem addtimer_unchanged :
    ∃ v, exec (Prog.step World.next) ({}, (AddCall.addtimer (some 1) 0).prog)
        ((AddCall.addtimer (some 1) 0).replies {} [.ptr (some 0), .ptr none, .errno (.other 24)]) =
      some (v, .ret TorqueErr.resource.code) ∧ World.Unchanged {} v := by
  refine ⟨_, rfl, ?_⟩
  refine (addCall_unchanged_iff (.addtimer (some 1) 0) {} _ TorqueErr.resource.code
    ((AddCall.addtimer (some 1) 0).replies {} [.ptr (some 0), .ptr none, .errno (.other 24)])
    rfl (by decide)).mpr ?_
  decide

/-- A descriptor that is watched with a buffer of its own. -/
def World.watching : World where
  fdarray := Function.update (fun _ => {}) 5 ⟨some .bufferedRxfxn, none, .object 7⟩
  fds := Function.update (fun _ => .closed) 5
    (.watched { id := 0, oneshot := true, state := .object 7, armed := some EVREAD })
  objs := Function.update (fun _ => .fresh) 7 .live
  regs := 1

/-- `torque_addssl` on it: epoll refuses, the state is freed, and the
descriptor is still watched, with an entry that names what was freed. -/
theorem addssl_changes_watched :
    ∃ v, exec (Prog.step World.next) (World.watching, (AddCall.addssl 5 0 none none 0).prog)
        ((AddCall.addssl 5 0 none none 0).replies World.watching
          [.ptr (some 0), .page 4 (some ⟨0, [0, 0, 0, 0]⟩), .flag false]) =
      some (v, .ret TorqueErr.resource.code) ∧
      v.fds 5 = World.watching.fds 5 ∧ (v.fdarray 5).cbstate = .object 0 ∧ v.objs 0 = .freed ∧
      ¬ World.watching.Unchanged v := by
  refine ⟨_, rfl, by decide, by decide, by decide, fun hu => ?_⟩
  exact absurd (congrArg EvSource.cbstate (congrFun hu.fdarray 5)) (by decide)

end Libtorque
