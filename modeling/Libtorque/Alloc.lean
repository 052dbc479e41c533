import Libtorque.Buffers
import Libtorque.Lib.Space

/-! # `mod_pages` without `mremap`

A map is made larger by another after it, or by a larger one that takes its
place, and `growrxbuf` with it. The outcomes of the two calls of `mmap` are
given: the address, or that it fails. -/
namespace Libtorque.Alloc
open Libtorque.Lib

/-- `(void *)-1` -/
def mapFailed : Nat := 2 ^ 64 - 1

section Code
variable (pagesize : Nat)

def mmap (m : Space) (len : Nat) : Option Nat → Nat × Space
  | none => (mapFailed, m)
  | some p => (p, m.zeroed p (Space.pages pagesize len))

def munmap (m : Space) (map len : Nat) : Space := m.unmapped map (Space.pages pagesize len)

/-- The pointer returned, which is 0 for NULL, and what is mapped then. -/
def modPages (m : Space) (map olds news : Nat) (first second : Option Nat) : Nat × Space :=
  let (ret, m) := mmap pagesize m (news - olds) first
  if ret = mapFailed then (0, m)
  else if ret ≠ map + olds then
    let m := munmap pagesize m ret (news - olds)
    let (ret, m) := mmap pagesize m news second
    if ret = mapFailed then (ret, m)
    else
      let m := m.copied ret map olds
      (ret, munmap pagesize m map olds)
  else (ret, m)

/-- A buffer and the memory, as `growrxbuf` works on them. -/
def growing (first second : Option Nat) (s : RxBuf × Space) :
    (o : Op) → o.Rep → Option (RxBuf × Space)
  | .rxbuf _, b => if b = s.1 then some s else none
  | .modPages buffer olds news, page =>
    let (ret, m) := modPages pagesize s.2 (buffer.getD 0) olds news first second
    if page.map Pages.ptr = (if ret = 0 then none else some ret) then some (s.1, m) else none
  | .setRxbuf _ b, _ => some (b, s.2)
  | _, _ => none

end Code

/-! ## What is wanted -/

/-- Either NULL, with the old bytes as they were, or a map of `news` bytes that
starts with them. -/
def Grown (m : Space) (map olds news : Nat) (res : Nat × Space) : Prop :=
  (res.1 = 0 ∧ m.Full map olds ∧ ∀ i < olds, res.2 (map + i) = m (map + i)) ∨
    (res.2.Full res.1 news ∧ ∀ i < olds, res.2 (res.1 + i) = m (map + i))

/-- The bytes received and not yet released. -/
def window (m : Space) (rxb : RxBuf) : List (Option UInt8) :=
  (List.range (rxb.bufoff - rxb.bufate)).map fun i => m (rxb.buffer.getD 0 + (rxb.bufate + i))

/-! ## The outcomes of `mmap` -/

/-- What a successful `mmap` of `len` bytes gives: free pages of user space. -/
structure Gives (pagesize : Nat) (m : Space) (len p : Nat) : Prop where
  pos : 0 < p
  lt : p < 2 ^ 63
  free : m.Free p (Space.pages pagesize len)

/-- A call of `mod_pages` for a map of `olds` bytes, and what `mmap` may give it. -/
structure MapCall (pagesize : Nat) (m : Space) (map olds news : Nat) (first second : Option Nat) :
    Prop where
  page_pos : 0 < pagesize
  grows : olds < news
  user : ∀ a, m a ≠ none → 0 < a ∧ a < 2 ^ 63
  mapped : m.Full map (Space.pages pagesize olds)
  first : ∀ p, first = some p → Gives pagesize m (news - olds) p
  second : ∀ p, second = some p → Gives pagesize m news p

/-- The memory after the old map, when it has been extended, happens to be mapped
and to read as the old map does. -/
def Repeats (pagesize : Nat) (m : Space) (map olds news : Nat) : Prop :=
  let extended := m.zeroed (map + olds) (Space.pages pagesize (news - olds))
  extended.Full (map + olds) news ∧ ∀ i < olds, extended (map + olds + i) = m (map + i)

/-- There is no memory, or it is elsewhere, also for the whole. -/
def Handled (pagesize : Nat) (m : Space) (map olds news : Nat) (first second : Option Nat) :
    Prop :=
  match first with
  | none => True
  | some p => if p = map + olds then Repeats pagesize m map olds news else second.isSome

section Call
variable {pagesize : Nat} {m : Space} {map olds news : Nat} {first second : Option Nat}

theorem Gives.ne_mapFailed {len p : Nat} (h : Gives pagesize m len p) : p ≠ mapFailed := by
  have := h.lt
  unfold mapFailed
  omega

/-- The memory is where it was asked for. -/
theorem modPages_extended {p : Nat} (h : Gives pagesize m (news - olds) p) (hp : p = map + olds) :
    modPages pagesize m map olds news (some p) second =
      (p, m.zeroed p (Space.pages pagesize (news - olds))) := by
  simp [modPages, mmap, hp ▸ h.ne_mapFailed, hp]

/-- The memory is elsewhere, and there is none for the whole. -/
theorem modPages_failed {p : Nat} (h : Gives pagesize m (news - olds) p) (hp : p ≠ map + olds) :
    modPages pagesize m map olds news (some p) none = (mapFailed, m) := by
  simp [modPages, mmap, munmap, h.ne_mapFailed, hp, Space.unmapped_zeroed h.free]

/-- The memory is elsewhere, and there is some for the whole. -/
theorem modPages_moved {p q : Nat} (h : Gives pagesize m (news - olds) p) (hp : p ≠ map + olds)
    (hq : Gives pagesize m news q) :
    modPages pagesize m map olds news (some p) (some q) =
      (q, m.moved q (Space.pages pagesize news) map olds (Space.pages pagesize olds)) := by
  simp [modPages, mmap, munmap, h.ne_mapFailed, hp, hq.ne_mapFailed,
    Space.unmapped_zeroed h.free, Space.moved]

theorem grown_modPages_iff (h : MapCall pagesize m map olds news first second) :
    Grown m map olds news (modPages pagesize m map olds news first second) ↔
      Handled pagesize m map olds news first second := by
  have hfull : m.Full map olds := h.mapped.mono (Space.le_pages h.page_pos olds)
  have hgrows := h.grows
  cases first with
  | none => exact iff_of_true (.inl ⟨rfl, hfull, fun _ _ => rfl⟩) trivial
  | some p =>
    have hp := h.first p rfl
    by_cases hext : p = map + olds
    · have hpos := hp.pos
      rw [modPages_extended hp hext, Handled, if_pos hext, hext]
      refine ⟨fun hg => hg.resolve_left fun hnull => ?_, .inr⟩
      have := hnull.1
      omega
    · simp only [Handled, if_neg hext]
      cases second with
      | none =>
        rw [modPages_failed hp hext]
        refine iff_of_false ?_ (by simp)
        rintro (⟨hnull, -⟩ | ⟨hmapped, -⟩)
        · cases hnull
        · have := (h.user _ (hmapped mapFailed ⟨by omega, by omega⟩)).2
          unfold mapFailed at this
          omega
      | some q =>
        have hq := h.second q rfl
        have hold := Space.le_pages h.page_pos olds
        have hnew := Space.le_pages h.page_pos news
        rw [modPages_moved hp hext hq]
        refine iff_of_true (.inr ⟨?_, ?_⟩) rfl
        · exact (Space.moved_full h.mapped hold hq.free).mono hnew
        · intro i hi
          exact Space.moved_content h.mapped hold hq.free (by omega) hi

/-- NULL leaves all as it was. -/
theorem modPages_null (h : MapCall pagesize m map olds news first second)
    (hnull : (modPages pagesize m map olds news first second).1 = 0) :
    (modPages pagesize m map olds news first second).2 = m := by
  cases first with
  | none => rfl
  | some p =>
    have hp := h.first p rfl
    by_cases hext : p = map + olds
    · rw [modPages_extended hp hext] at hnull
      exact absurd hnull (Nat.ne_of_gt hp.pos)
    · cases second with
      | none =>
        rw [modPages_failed hp hext]
      | some q =>
        rw [modPages_moved hp hext (h.second q rfl)] at hnull
        exact absurd hnull (Nat.ne_of_gt (h.second q rfl).pos)

/-- The window is where the old bytes are. -/
theorem window_eq {m' : Space} {rxb rxb' : RxBuf} {q : Nat} (hbuffer : rxb.buffer = some map)
    (hoff : rxb.bufoff ≤ olds) (hrxb : rxb' = { rxb with buffer := some q, buftot := rxb'.buftot })
    (hbytes : ∀ i < olds, m' (q + i) = m (map + i)) : window m' rxb' = window m rxb := by
  rw [hrxb]
  refine List.map_congr_left fun i hi => ?_
  rw [List.mem_range] at hi
  dsimp only at hi ⊢
  rw [hbuffer]
  exact hbytes _ (by omega)

theorem growing_modPages {s t : RxBuf × Space} {buffer : Option Nat} {page : Option Pages}
    (h : growing pagesize first second s (.modPages buffer olds news) page = some t) :
    ∃ ret m', modPages pagesize s.2 (buffer.getD 0) olds news first second = (ret, m') ∧
      page.map Pages.ptr = (if ret = 0 then none else some ret) ∧ t = (s.1, m') := by
  simp only [growing, Option.ite_none_right_eq_some, Option.some.injEq] at h
  exact ⟨_, _, rfl, h.1, h.2.symm⟩

/-- Where `mod_pages` keeps the bytes, `growrxbuf` keeps the window. -/
theorem window_growrxbuf (h : MapCall pagesize m map olds news first second)
    (hgrown : Grown m map olds news (modPages pagesize m map olds news first second))
    {rxb : RxBuf} (hbuffer : rxb.buffer = some map) (htot : rxb.buftot = olds)
    (hnews : sizeMul olds 2 = news) (hoff : rxb.bufoff ≤ olds) (c : Nat) :
    wp (.of (growing pagesize first second) (fun _ _ => True) fun _ _ _ => true) (growrxbuf c)
      (fun _ t => window t.2 t.1 = window m rxb) (rxb, m) := by
  unfold growrxbuf
  rw [wp_do]
  refine wp_op trivial ?_
  rintro b s ⟨-, hs⟩
  simp only [growing, Option.ite_none_right_eq_some, Option.some.injEq] at hs
  obtain ⟨rfl, rfl⟩ := hs
  dsimp only
  rw [wp_do, htot, hnews, hbuffer]
  refine wp_op trivial ?_
  rintro page s ⟨-, hs⟩
  obtain ⟨ret, m', hres, hpage, rfl⟩ := growing_modPages hs
  rw [Option.getD_some] at hres
  have hnull := modPages_null h
  rw [hres] at hgrown hnull
  cases page with
  | none =>
    have hret : ret = 0 := by
      by_contra hne
      rw [if_neg hne] at hpage
      cases hpage
    dsimp only
    rw [wp_pure, hnull hret]
  | some tmp =>
    have hptr : ret ≠ 0 ∧ ret = tmp.ptr := by
      split at hpage
      · cases hpage
      · rename_i hne
        exact ⟨hne, (Option.some.inj hpage).symm⟩
    obtain ⟨hne, rfl⟩ := hptr
    dsimp only
    rw [wp_do]
    refine wp_op trivial ?_
    rintro u s ⟨-, hs⟩
    cases hs
    rw [wp_pure]
    exact window_eq hbuffer hoff rfl (hgrown.resolve_left fun hg => hne hg.1).2

/-- What `mod_pages` returns is right, and so is the window after `growrxbuf`, just
in case there is no memory at all, or it is elsewhere and there is some for the
whole; or what follows the old map reads like it. -/
theorem modPages_sound_iff (h : MapCall pagesize m map olds news first second) :
    (Grown m map olds news (modPages pagesize m map olds news first second) ∧
      ∀ (rxb : RxBuf) (c : Nat) (replies : List ((o : Op) → o.Rep)) (t : RxBuf × Space) (r : Int),
        rxb.buffer = some map → rxb.buftot = olds → sizeMul olds 2 = news → rxb.bufoff ≤ olds →
        exec (Lib.Prog.step (growing pagesize first second)) ((rxb, m), growrxbuf c) replies =
          some (t, .ret r) →
        window t.2 t.1 = window m rxb) ↔
      Handled pagesize m map olds news first second := by
  rw [← grown_modPages_iff h, and_iff_left_iff_imp]
  intro hgrown rxb c replies t r hbuffer htot hnews hoff hrun
  exact exec_of_wp (window_growrxbuf h hgrown hbuffer htot hnews hoff c) hrun

end Call

/-! ## A page -/

/-- A map of one page at 4096, which holds sevens. -/
def onePage : Space := fun a => if Space.inRange 4096 4096 a then some 7 else none

/-- Free pages, wherever they are above. -/
theorem gives_above {len p : Nat} (hp : 8192 ≤ p) (hlt : p < 2 ^ 63) :
    Gives 4096 onePage len p where
  pos := by omega
  lt := hlt
  free a ha := if_neg fun hin => by
    have := ha.1
    have := hin.2
    omega

theorem onePage_call {first second : Option Nat} (hfirst : ∀ p ∈ first, 8192 ≤ p ∧ p < 2 ^ 63)
    (hsecond : ∀ p ∈ second, 8192 ≤ p ∧ p < 2 ^ 63) :
    MapCall 4096 onePage 4096 4096 8192 first second where
  page_pos := by decide
  grows := by decide
  user a ha := by
    have hin : Space.inRange 4096 4096 a := by
      by_contra hout
      exact ha (if_neg hout)
    have := hin.1
    have := hin.2
    omega
  mapped a ha := by
    have hpages : Space.pages 4096 4096 = 4096 := by decide
    rw [hpages] at ha
    simp [onePage, ha]
  first p hp := gives_above (hfirst p hp).1 (hfirst p hp).2
  second p hp := gives_above (hsecond p hp).1 (hsecond p hp).2

/-- The page is moved when the next one is not free. -/
theorem modPages_onePage_moved :
    Grown onePage 4096 4096 8192 (modPages 4096 onePage 4096 4096 8192 (some 16384) (some 32768)) :=
  ((modPages_sound_iff (onePage_call (by simp) (by simp))).mpr (by simp [Handled])).1

/-- A buffer of one page with one byte received, and the replies when the page after
it is found. -/
def oneByte : RxBuf := { buffer := some 4096, buftot := 4096, bufoff := 1 }

def nextPage : (o : Op) → o.Rep :=
  Loads.reply ⟨fun _ => oneByte, fun _ => {}, fun _ => {}, 0⟩ (some (.page 0 (some ⟨8192, []⟩)))

/-- The page is extended, and the pointer returned is to the new one: the window
that held a seven holds a zero. Without memory for the whole, the pointer is
`MAP_FAILED`. -/
theorem modPages_onePage_extended :
    MapCall 4096 onePage 4096 4096 8192 (some 8192) none ∧
      (modPages 4096 onePage 4096 4096 8192 (some 8192) none).1 = 8192 ∧
      ¬ Grown onePage 4096 4096 8192 (modPages 4096 onePage 4096 4096 8192 (some 8192) none) ∧
      (∃ t, exec (Lib.Prog.step (growing 4096 (some 8192) none)) ((oneByte, onePage), growrxbuf 0)
          (List.replicate 3 nextPage) = some (t, .ret 0) ∧
        window onePage oneByte = [some 7] ∧ window t.2 t.1 = [some 0]) ∧
      (modPages 4096 onePage 4096 4096 8192 (some 16384) none).1 = mapFailed := by
  refine ⟨onePage_call (by simp) (by simp), rfl, ?_, ⟨_, rfl, rfl, rfl⟩, rfl⟩
  rintro (⟨hnull, -⟩ | ⟨-, hbytes⟩)
  · exact absurd hnull (by decide)
  · exact absurd (hbytes 0 (by decide)) (by decide)

end Libtorque.Alloc
