import Libtorque.Startup.Stands

/-! # The tables of the context, made and given back

What `detect_cputypes` has put into the context it takes out again when it
fails; `free_architecture` takes out everything. -/
namespace Libtorque.Startup
open Libtorque.Hardware Libtorque.Lib

/-! ## The topology only grows -/

theorem nodes_append (a b : List TorqueTopt) : nodes (a ++ b) = nodes a + nodes b := by
  induction a with
  | nil => simp [nodes]
  | cons n a ih => rw [List.cons_append, nodes, nodes, ih, Nat.add_assoc]

theorem nodesOf_eq (n : TorqueTopt) : nodesOf n = 1 + nodes n.sub := by
  cases n
  rw [nodesOf]

@[simp] theorem nodesOf_addCpu (n : TorqueTopt) (aid : Nat) : nodesOf (n.addCpu aid) = nodesOf n := by
  rw [nodesOf_eq, nodesOf_eq, TorqueTopt.addCpu]

theorem nodes_list (f : Focus) : nodes f.list = nodes f.before + (nodesOf f.node + nodes f.after) := by
  rw [Focus.list, nodes_append, nodes]

theorem nodes_findSchedGroup {malloc : Bool} {id cputype : Nat} {zone : List TorqueTopt} {f : Focus}
    (h : findSchedGroup malloc id cputype zone = some f) : nodes zone ≤ nodes f.list := by
  induction zone generalizing f with
  | nil => exact Nat.zero_le _
  | cons n rest ih =>
    rw [findSchedGroup] at h
    split at h
    · cases h
      exact Nat.le_refl _
    · split at h
      · split at h
        · cases h
          exact Nat.le_add_left _ _
        · cases h
      · obtain ⟨g, hg, rfl⟩ := Option.map_eq_some_iff.mp h
        exact Nat.add_le_add_left (ih hg) _

theorem nodes_openSub (malloc : Bool) (tm : Nat → TopMap) (cputype : Nat) (sg : TorqueTopt) :
    nodesOf sg ≤ nodesOf (openSub malloc tm cputype sg).2.1 := by
  unfold openSub
  split
  · exact Nat.le_refl _
  · rename_i hsub
    dsimp only
    split
    · exact Nat.le_refl _
    · split
      · rw [nodesOf_eq, hsub]
        exact Nat.add_le_add_left (Nat.zero_le _) 1
      · exact Nat.le_refl _

theorem nodes_topologizeCore (mem : ZoneMallocs) (tm : Nat → TopMap) (aid core cputype : Nat)
    (sg : TorqueTopt) : nodesOf sg ≤ nodesOf (topologizeCore mem tm aid core cputype sg).2.1 := by
  have hopen := nodes_openSub mem.first tm cputype sg
  unfold topologizeCore
  split
  · rename_i sg' read hsub
    rw [hsub] at hopen
    split
    · exact hopen
    · rename_i sc hsc
      refine hopen.trans ?_
      rw [nodesOf_eq, nodesOf_eq]
      have hle := nodes_findSchedGroup hsc
      rw [nodes_list] at hle ⊢
      rw [nodesOf_addCpu]
      exact Nat.add_le_add_left hle 1
  · exact hopen

theorem nodes_topologize (mem : ZoneMallocs) (t : Topology) (aid thread core pkg cputype : Nat) :
    nodes t.zone ≤ nodes (topologize mem t aid thread core pkg cputype).2.zone := by
  unfold topologize
  split
  · exact Nat.le_refl _
  · split
    · exact Nat.le_refl _
    · rename_i f hf
      have hle := nodes_findSchedGroup hf
      rw [nodes_list] at hle
      have hcore : nodesOf f.node ≤ nodesOf
          (if f.node.schedulable.shareLevel then topologizeCore mem t.tm aid core cputype f.node
            else (.none, f.node, [])).2.1 := by
        split
        · exact nodes_topologizeCore mem t.tm aid core cputype f.node
        · exact Nat.le_refl _
      generalize (if f.node.schedulable.shareLevel then
        topologizeCore mem t.tm aid core cputype f.node else (.none, f.node, [])) = z at hcore ⊢
      obtain ⟨err, sg, read⟩ := z
      have hgrown : nodes t.zone ≤ nodes f.before + (nodesOf sg + nodes f.after) :=
        hle.trans (Nat.add_le_add_left (Nat.add_le_add_right hcore _) _)
      dsimp only
      split
      · rw [nodes_list, nodesOf_addCpu]
        exact hgrown
      · rw [nodes_list]
        exact hgrown

/-! ## Tables -/

theorem owns_noCpudescs (c : TorqueCtx) :
    TorqueCtx.owns { c with cpudescs := [] } =
      Function.update (Function.update c.owns .details 0) .cpudescs 0 := by
  funext r
  cases r <;> simp [TorqueCtx.owns, Function.update]

theorem owns_noManodes (c : TorqueCtx) :
    TorqueCtx.owns { c with manodes := [] } =
      Function.update (Function.update c.owns .psizevals 0) .manodes 0 := by
  funext r
  cases r <;> simp [TorqueCtx.owns, Function.update]

theorem owns_topology (c : TorqueCtx) (t : Topology) :
    TorqueCtx.owns { c with topology := t } = Function.update c.owns .zone (nodes t.zone) := by
  funext r
  cases r <;> simp [TorqueCtx.owns, Function.update]

theorem owns_slot (c : TorqueCtx) (d : TorqueCput) :
    TorqueCtx.owns { c with cpudescs := c.cpudescs ++ [d] } =
      gain (if c.cpudescs.isEmpty then gain c.owns .cpudescs else c.owns) .details := by
  funext r
  by_cases he : c.cpudescs.isEmpty <;> cases r <;>
    simp [TorqueCtx.owns, gain, Function.update, he]

theorem owns_node (c : TorqueCtx) (node : TorqueNode) (hv : node.psizevals ≠ []) :
    TorqueCtx.owns { c with manodes := c.manodes ++ [node] } =
      gain (if c.manodes.isEmpty then gain c.owns .manodes else c.owns) .psizevals := by
  funext r
  by_cases he : c.manodes.isEmpty <;> cases r <;>
    simp [TorqueCtx.owns, gain, Function.update, he, hv]

section Tables
variable {w : Bool} {c : TorqueCtx} {own : Resource → Nat} {l : List Resource} {n : Nat}
variable {φ : Prop} {x : Ledger × Prop} {r : Resource}

theorem Stands.disown (h : Stands w own l n φ x) (r : Resource) :
    Stands w (Function.update own r 0) (List.replicate (own r) r ++ l) n φ x :=
  { h with owes := h.owes.disown r }

theorem Stands.owned (h : Stands w own (r :: l) n φ x) : Stands w (gain own r) l n φ x :=
  { h with owes := h.owes.owned }

/-- A list of things, each of which may point to something to be released. -/
theorem wp_forM_release {α : Type} {p : α → Bool} {xs : List α} {f : α → Prog Unit}
    {Q : Unit → Ledger × Prop → Prop} (hr : r ≠ .ctx)
    (hf : ∀ a, f a = if p a then release r else pure ())
    (h : Stands w own (List.replicate (xs.countP p) r ++ l) n φ x)
    (hQ : ∀ y, Stands w own l n φ y → Q () y) : wp undoing (xs.forM f) Q x := by
  induction xs generalizing x with
  | nil => exact hQ x h
  | cons a xs ih =>
    show wp undoing (f a >>= fun _ => xs.forM f) Q x
    rw [wp_do, hf]
    by_cases ha : p a
    · rw [List.countP_cons_of_pos ha, List.replicate_succ, List.cons_append] at h
      rw [if_pos ha]
      exact wp_release h hr fun y hy => ih hy
    · rw [List.countP_cons_of_neg ha] at h
      rw [if_neg ha]
      exact ih h

theorem wp_freeCpudescs {Q : TorqueCtx → Ledger × Prop → Prop} (h : Stands w c.owns l n φ x)
    (hQ : ∀ y, Stands w (TorqueCtx.owns { c with cpudescs := [] }) l n φ y →
      Q { c with cpudescs := [] } y) : wp undoing (freeCpudescs c) Q x := by
  unfold freeCpudescs
  rw [wp_do]
  have hdetails : Stands w (Function.update c.owns .details 0)
      (List.replicate (c.cpudescs.countP fun _ => true) .details ++ l) n φ x := by
    simpa [TorqueCtx.owns] using h.disown .details
  refine wp_forM_release (by simp) (fun _ => rfl) hdetails ?_
  intro y hy
  have harray := hy.disown .cpudescs
  rw [← owns_noCpudescs] at harray
  by_cases he : c.cpudescs = []
  · rw [if_pos he, wp_pure]
    have hc : ({ c with cpudescs := [] } : TorqueCtx) = c := by rw [← he]
    rw [← hc]
    refine hQ y ?_
    simpa [TorqueCtx.owns, Function.update, he] using harray
  · rw [if_neg he, wp_do]
    refine wp_release ?_ (by simp) hQ
    simpa [TorqueCtx.owns, Function.update, he] using harray

theorem wp_freeMemories {Q : TorqueCtx → Ledger × Prop → Prop} (h : Stands w c.owns l n φ x)
    (hQ : ∀ y, Stands w (TorqueCtx.owns { c with manodes := [] }) l n φ y →
      Q { c with manodes := [] } y) : wp undoing (freeMemories c) Q x := by
  unfold freeMemories
  rw [wp_do]
  have hvals := h.disown .psizevals
  refine wp_forM_release (by simp) ?_ hvals ?_
  · intro node
    by_cases hv : node.psizevals = [] <;> simp [hv]
  intro y hy
  have harray := hy.disown .manodes
  rw [← owns_noManodes] at harray
  by_cases he : c.manodes = []
  · rw [if_pos he, wp_pure]
    have hc : ({ c with manodes := [] } : TorqueCtx) = c := by rw [← he]
    rw [← hc]
    refine hQ y ?_
    simpa [TorqueCtx.owns, Function.update, he] using harray
  · rw [if_neg he, wp_do]
    refine wp_release ?_ (by simp) hQ
    simpa [TorqueCtx.owns, Function.update, he] using harray

mutual
theorem wp_freeTopology {Q : Unit → Ledger × Prop → Prop} {l : List Resource}
    {x : Ledger × Prop} : ∀ zone : List TorqueTopt,
    Stands w own (List.replicate (nodes zone) .zone ++ l) n φ x →
    (∀ y, Stands w own l n φ y → Q () y) → wp undoing (freeTopology zone) Q x
  | [], h, hQ => hQ x h
  | top :: next, h, hQ => by
    rw [freeTopology, wp_do]
    rw [nodes, List.replicate_add, List.append_assoc] at h
    exact wp_freeZone top h fun y hy => wp_freeTopology next hy hQ

theorem wp_freeZone {Q : Unit → Ledger × Prop → Prop} {l : List Resource}
    {x : Ledger × Prop} : ∀ top : TorqueTopt,
    Stands w own (List.replicate (nodesOf top) .zone ++ l) n φ x →
    (∀ y, Stands w own l n φ y → Q () y) → wp undoing (freeZone top) Q x
  | ⟨_, _, _, sub⟩, h, hQ => by
    rw [freeZone, wp_do]
    rw [nodesOf, Nat.add_comm, List.replicate_succ', List.append_assoc] at h
    exact wp_freeTopology sub h fun y hy => wp_release hy (by simp) hQ
end

theorem wp_freeArchitecture {Q : TorqueCtx → Ledger × Prop → Prop} (h : Stands w c.owns l n φ x)
    (hQ : ∀ c' y, c'.owns = (fun _ => 0) → c'.ev = c.ev → Stands w c'.owns l n φ y → Q c' y) :
    wp undoing (freeArchitecture c) Q x := by
  unfold freeArchitecture
  rw [wp_do]
  refine wp_freeTopology c.topology.zone (h.disown .zone) ?_
  intro y hy
  rw [wp_do]
  have hzone : Stands w
      (TorqueCtx.owns { c with topology := { c.topology with zone := [] } }) l n φ y := by
    rw [owns_topology]
    exact hy
  refine wp_freeCpudescs hzone ?_
  intro y hy
  refine wp_freeMemories hy ?_
  intro y hy
  refine hQ _ y ?_ rfl hy
  funext r
  cases r <;> rfl

end Tables

/-! ## Processors -/

section Processors
variable {w : Bool} {c : TorqueCtx} {l : List Resource} {n elems : Nat} {φ : Prop}
variable {x : Ledger × Prop}

/-- The CPUs of a topology have elements in `topmap`, and no others were touched. -/
structure Inside (elems : Nat) (t : Topology) : Prop where
  zone : ZoneWithin (Finset.range elems) t.zone
  touched : ∀ i ∈ t.touched, i ∈ Finset.range elems

theorem Inside.topologize {mem : ZoneMallocs} {t : Topology} {aid thread core pkg cputype : Nat}
    (h : Inside elems t)
    (haid : (topologize mem t aid thread core pkg cputype).1 = .none → aid < elems) :
    Inside elems (topologize mem t aid thread core pkg cputype).2 := by
  obtain ⟨hzone, htouched⟩ := topologize_touched mem thread core pkg cputype
    (fun hnone => Finset.mem_range.mpr (haid hnone)) h.zone h.touched
  exact ⟨hzone, htouched⟩

/-- `topmap` is left where a CPU is entered whose number is too great. -/
theorem Inside.any_iff {mem : ZoneMallocs} {t : Topology} {aid thread core pkg cputype : Nat}
    (h : Inside elems t) :
    ((Hardware.topologize mem t aid thread core pkg cputype).2.touched.any (elems ≤ ·)) = false ↔
      ((Hardware.topologize mem t aid thread core pkg cputype).1 = .none → aid < elems) := by
  rw [List.any_eq_false]
  constructor
  · intro hany hnone
    have htouch := (topologize_touches (Prod.ext hnone rfl :
      Hardware.topologize mem t aid thread core pkg cputype = (.none, _))).1
    simpa using hany aid htouch
  · intro haid i hi
    simpa using (h.topologize haid).touched i hi

theorem wp_topologize {aid thread core pkg cputype : Nat} {Q : ZoneMallocs → Ledger × Prop → Prop}
    (h : Stands w c.owns l n φ x) (hin : w = false → Inside elems c.topology)
    (hQ : ∀ mem w' y, (w' = false → Inside elems
        (topologize mem c.topology aid thread core pkg cputype).2) →
      Stands w' (TorqueCtx.owns { c with
        topology := (topologize mem c.topology aid thread core pkg cputype).2 }) l n φ y → Q mem y) :
    wp undoing (Lib.Prog.perform (Op.topologize elems c.topology aid thread core pkg cputype))
      Q x := by
  refine wp_reply (by simp) ?_
  intro mem s ψ hs hψ
  have hle := nodes_topologize mem c.topology aid thread core pkg cputype
  cases hs
  have hwild : (x.1.wild || (topologize mem c.topology aid thread core pkg cputype).2.touched.any
      (elems ≤ ·)) = false ↔
        w = false ∧ ((topologize mem c.topology aid thread core pkg cputype).1 = .none →
          aid < elems) := by
    rw [Bool.or_eq_false_iff, h.wild]
    exact and_congr_right fun hw => (hin hw).any_iff
  refine hQ mem _ _ ?_ ⟨?_, h.threads, h.orphans, h.refused, rfl, ?_⟩
  · intro hw
    obtain ⟨hw, haid⟩ := hwild.mp hw
    exact (hin hw).topologize haid
  swap
  · rw [hψ, h.handled, and_right_comm]
    refine and_congr_left' (Iff.trans ?_ hwild.symm)
    simp only [Handled, decide_eq_true_eq]
  intro r
  have hr := h.owes r
  rw [owns_topology]
  by_cases hz : r = .zone
  · subst hz
    simp only [Ledger.touch, Ledger.grow, Function.update_self, hr, TorqueCtx.owns]
    omega
  · simp only [Ledger.touch, Ledger.grow, Function.update_of_ne hz, hr]

/-- The details found become the table's, or are given back. -/
theorem wp_placeCputype {d : TorqueCput} {Q : Option Nat × TorqueCtx → Ledger × Prop → Prop}
    (h : Stands w c.owns (.details :: l) n φ x)
    (hno : ∀ y, Stands w c.owns l n (φ ∧ .topmap ∈ l) y → Q (none, c) y)
    (hyes : ∀ i c' y, c'.ev = c.ev → c'.topology = c.topology → Stands w c'.owns l n φ y →
      Q (some i, c') y) :
    wp undoing (placeCputype c d) Q x := by
  unfold placeCputype
  split
  · rename_i i _
    rw [wp_do]
    refine wp_release h (by simp) ?_
    intro y hy
    refine hyes i _ y rfl rfl ?_
    have howns : TorqueCtx.owns { c with
        cpudescs := c.cpudescs.modify i fun t => { t with elements := t.elements + 1 } } =
          c.owns := by
      funext r
      cases r <;> simp [TorqueCtx.owns]
    rw [howns]
    exact hy
  · rw [wp_do]
    refine wp_realloc h rfl ?_ ?_
    · intro y hy
      show wp undoing (freeCpudetails >>= fun _ => pure (none, c)) Q y
      rw [wp_do]
      refine wp_release hy (by simp) ?_
      intro y hy
      refine hno y ?_
      simpa using hy
    · intro y hy
      refine hyes _ { c with cpudescs := c.cpudescs ++ [{ d with elements := 1 }] } y rfl rfl ?_
      rw [owns_slot]
      split at hy
      · rename_i he
        rw [if_pos he]
        exact hy.owned.owned
      · rename_i he
        rw [if_neg he]
        exact hy.owned

/-- A pass of the detection loop: unless it fails, a thread runs. -/
theorem wp_detectPass {aid : Nat} {Q : TorqueErr × TorqueCtx → Ledger × Prop → Prop}
    (h : Stands w c.owns l n φ x) (hidle : Idle c n) (htop : .topmap ∈ l)
    (hin : w = false → Inside elems c.topology)
    (hQ : ∀ e c' k w' y, Stands w' c'.owns l k φ y → Idle c' k → (e = .none → 0 < k) →
      (w' = false → Inside elems c'.topology) → Q (e, c') y) :
    wp undoing (detectPass elems c aid) Q x := by
  unfold detectPass detectCpudetails
  rw [wp_do, wp_do]
  refine wp_quiet h (by simp) (fun _ => rfl) ?_
  intro pin y hy
  split
  · exact hQ .affinity c n w y hy hidle (by simp) hin
  rw [wp_do]
  refine wp_reply (by simp) ?_
  intro found s ψ hs hψ
  have hmade : Stands w c.owns (.details :: l) n φ (s, ψ) :=
    hy.gained (Option.some.inj hs).symm ((hψ.trans (and_iff_left rfl)).trans hy.handled)
  cases found with
  | none =>
    dsimp only
    rw [wp_do]
    refine wp_release hmade (by simp) ?_
    intro y hy
    exact hQ .cpudetect c n w y hy hidle (by simp) hin
  | some d =>
    rw [wp_pure]
    dsimp only
    rw [wp_do]
    refine wp_placeCputype hmade ?_ ?_
    · intro y hy
      refine hQ .resource c n w y ?_ hidle (by simp) hin
      rw [and_iff_left htop] at hy
      exact hy
    · intro cputype c' y hev htopology hy
      dsimp only
      rw [wp_do]
      refine wp_topologize hy (htopology ▸ hin) ?_
      intro mem w' y hin' hy
      have hidle' : Idle c' n := fun he => hidle (hev ▸ he)
      split
      · rename_i t ht
        rw [ht] at hy hin'
        rw [wp_do]
        refine wp_spawnThread hy hidle' ?_
        intro failed c'' k y htopology hy hk hpos
        dsimp only at htopology ⊢
        rw [← htopology] at hin'
        cases failed with
        | true => exact hQ .resource c'' k w' y hy hk (by simp) hin'
        | false => exact hQ .none c'' k w' y hy hk (fun _ => hpos rfl) hin'
      · rename_i e t he ht
        rw [ht] at hy hin'
        exact hQ e _ n w' y hy hidle' (fun h => (he h).elim) hin'

theorem wp_detectLoop {mask : CpuSet} {Q : TorqueErr × TorqueCtx → Ledger × Prop → Prop}
    (z aid : Nat) (h : Stands w c.owns l n φ x) (hidle : Idle c n) (hrun : z = 0 → 0 < n)
    (htop : .topmap ∈ l) (hin : w = false → Inside elems c.topology)
    (hQ : ∀ e c' k w' y, Stands w' c'.owns l k φ y → Idle c' k → (e = .none → 0 < k) →
      Q (e, c') y) :
    wp undoing (detectLoop elems mask z aid c) Q x := by
  induction z generalizing w aid c n x with
  | zero => exact hQ .none c n w x h hidle fun _ => hrun rfl
  | succ z ih =>
    rw [detectLoop]
    split
    · exact hQ .affinity c n w x h hidle (by simp)
    · rw [wp_do]
      refine wp_detectPass h hidle htop hin ?_
      intro e c' k w' y hy hk hpos hin'
      cases e with
      | none => exact ih (mask.next aid + 1) hy hk (fun _ => hpos rfl) hin'
      | _ => exact hQ _ c' k w' y hy hk (by simp)

/-- The `err:` path of `detect_cputypes` undoes all of it. -/
theorem wp_cputypesErr (topmap : Bool) {ret : TorqueErr}
    {Q : TorqueErr × TorqueCtx → Ledger × Prop → Prop}
    (h : Stands w c.owns (if topmap then .topmap :: l else l) n φ x) (hidle : Idle c n)
    (hQ : ∀ c' y, Stands w c'.owns l 0 φ y → Q (ret, c') y) :
    wp undoing (cputypesErr topmap ret c) Q x := by
  unfold cputypesErr
  rw [wp_do]
  refine wp_quiet h (by simp) (fun _ => rfl) ?_
  intro _ y hy
  rw [wp_do]
  refine wp_reapThreads hy hidle ?_
  intro _ y hy
  rw [wp_do]
  refine wp_freeCpudescs hy ?_
  intro y hy
  cases topmap with
  | true =>
    rw [if_pos rfl, wp_do]
    exact wp_release hy (by simp) fun y hy => hQ _ y hy
  | false => exact hQ _ y hy

theorem wp_detectCpucount {own : Resource → Nat} {Q : Nat × CpuSet → Ledger × Prop → Prop}
    (h : Stands w own l n φ x) (hQ : ∀ cpucount mask y, Stands w own l n φ y → Q (cpucount, mask) y) :
    wp undoing detectCpucount Q x := by
  unfold detectCpucount
  rw [wp_do]
  refine wp_asked h (by simp) (fun _ => rfl) (fun _ => rfl) ?_
  intro found y hy
  cases found with
  | none => exact hQ 0 .zero y hy
  | some mask => exact hQ mask.count mask y hy

theorem wp_detectCputypes {Q : TorqueErr × TorqueCtx → Ledger × Prop → Prop}
    (h : Stands w c.owns l n φ x) (hidle : Idle c n) (hnew : c.topology = {})
    (hok : ∀ c' k w' y, Stands w' c'.owns l k φ y → Idle c' k → 0 < k → Q (.none, c') y)
    (herr : ∀ e c' w' y, e ≠ .none → Stands w' c'.owns l 0 φ y → Q (e, c') y) :
    wp undoing (detectCputypes c) Q x := by
  unfold detectCputypes
  rw [wp_do]
  refine wp_detectCpucount h ?_
  intro cpucount mask y hy
  dsimp only
  split
  · exact wp_cputypesErr false hy hidle fun c' y => herr _ c' _ y (by simp)
  rename_i hcount
  rw [wp_do]
  refine wp_create hy (by simp) ?_ ?_
  · intro y hy
    exact wp_cputypesErr false hy hidle fun c' y => herr _ c' _ y (by simp)
  · intro y hy
    rw [if_pos rfl, wp_do]
    have hin : Inside cpucount c.topology := by
      rw [hnew]
      exact ⟨by simp [ZoneWithin], by simp⟩
    refine wp_detectLoop cpucount 0 hy hidle (fun hz => (hcount hz).elim) List.mem_cons_self
      (fun _ => hin) ?_
    intro e c' k w' y hy hk hpos
    cases e with
    | none =>
      dsimp only
      rw [wp_do]
      refine wp_quiet hy (by simp) (fun _ => rfl) ?_
      intro unpin y hy
      split
      · exact wp_cputypesErr true hy hk fun c' y => herr _ c' _ y (by simp)
      · rw [wp_do]
        exact wp_release hy (by simp) fun y hy => hok c' k w' y hy hk (hpos rfl)
    | _ => exact wp_cputypesErr true hy hk fun c' y => herr _ c' _ y (by simp)

end Processors

/-! ## GPUs and memories

Here a failure is not handled, as nothing ends the threads any more. -/

section Memories
variable {w : Bool} {c : TorqueCtx} {own : Resource → Nat} {l : List Resource} {n : Nat} {φ : Prop}
variable {x : Ledger × Prop}

theorem wp_cudaLoop {Q : Int × TorqueCtx → Ledger × Prop → Prop} (k i : Nat)
    (h : Stands w c.owns l n φ x) (htop : .topmap ∉ l)
    (hok : ∀ c' y, c'.ev = c.ev → Stands w c'.owns l n φ y → Q (0, c') y)
    (herr : ∀ e c' y, e ≠ 0 → Stands w c'.owns l n False y → Q (e, c') y) :
    wp undoing (cudaLoop k i c) Q x := by
  induction k generalizing i c x with
  | zero => exact hok c x rfl h
  | succ k ih =>
    rw [cudaLoop, wp_do]
    refine wp_reply (by simp) ?_
    rintro ⟨e, d⟩ s ψ hs hψ
    dsimp only
    by_cases he : e = 0
    · subst he
      have hmade : Stands w c.owns (.details :: l) n φ (s, ψ) :=
        h.gained (Option.some.inj hs).symm ((hψ.trans (and_iff_left rfl)).trans h.handled)
      rw [if_neg (by simp), wp_do]
      refine wp_placeCputype hmade ?_ ?_
      · intro y hy
        exact herr _ c y (by decide) (hy.unhandled fun hφ => htop hφ.2)
      · intro slot c' y hev _ hy
        exact ih (i + 1) hy fun c'' y hev' => hok c'' y (hev'.trans hev)
    · rw [if_pos he]
      simp only [Ledger.next, he, if_false, Option.some.injEq] at hs
      subst hs
      have hno : ¬ ψ := by
        rw [hψ]
        simp [Handled, he]
      exact herr (-1) c _ (by decide) { h with handled := iff_of_false hno And.right }

theorem wp_detectCuda {Q : Int × TorqueCtx → Ledger × Prop → Prop} (h : Stands w c.owns l n φ x)
    (htop : .topmap ∉ l) (hok : ∀ c' y, c'.ev = c.ev → Stands w c'.owns l n φ y → Q (0, c') y)
    (herr : ∀ e c' y, e ≠ 0 → Stands w c'.owns l n False y → Q (e, c') y) :
    wp undoing (detectCuda c) Q x := by
  unfold detectCuda
  rw [wp_do]
  refine wp_probed h (by simp) (fun _ => rfl) ?_
  intro devs y hy
  split
  · rename_i hdevs
    refine herr _ c y (by decide) (hy.unhandled ?_)
    simp [Handled, Int.not_le.mpr hdevs]
  · rename_i hdevs
    have hy' : Stands w c.owns l n φ y := by simpa [Handled, Int.not_lt.mp hdevs] using hy
    exact wp_cudaLoop _ 0 hy' htop hok herr

theorem wp_addPagesize {vals : List Nat} {psize : Nat}
    {Q : Option (List Nat) → Ledger × Prop → Prop} (h : Stands w own l n φ x)
    (hown : own .topmap = 0) (htop : .topmap ∉ l) (hno : ∀ y, Stands w own l n False y → Q none y)
    (hyes : ∀ vals' y, vals' ≠ [] →
      Stands w own (if vals.isEmpty then .psizevals :: l else l) n φ y → Q (some vals') y) :
    wp undoing (addPagesize vals psize) Q x := by
  unfold addPagesize
  rw [wp_do]
  refine wp_realloc h hown ?_ ?_
  · intro y hy
    exact hno y (hy.unhandled fun hφ => htop hφ.2)
  · intro y hy
    exact hyes _ y (by simp) hy

theorem wp_addTlbs {Q : Bool × List Nat → Ledger × Prop → Prop} (tlbs : List TorqueTlb)
    {vals : List Nat} (hvals : vals ≠ []) (h : Stands w own (.psizevals :: l) n φ x)
    (hown : own .topmap = 0) (htop : .topmap ∉ l)
    (hQ : ∀ failed vals' y, vals' ≠ [] → Stands w own (.psizevals :: l) n (φ ∧ failed = false) y →
      Q (failed, vals') y) : wp undoing (addTlbs vals tlbs) Q x := by
  induction tlbs generalizing vals x with
  | nil =>
    refine hQ false vals x hvals ?_
    simpa using h
  | cons tlb tlbs ih =>
    rw [addTlbs]
    split
    · exact ih hvals h
    · rw [wp_do]
      refine wp_addPagesize h hown (by simpa using htop) ?_ ?_
      · intro y hy
        refine hQ true vals y hvals ?_
        simpa using hy
      · intro vals' y hvals' hy
        rw [if_neg (by simpa using hvals)] at hy
        exact ih hvals' hy

theorem wp_determinePagesizes {Q : Bool × List Nat → Ledger × Prop → Prop}
    (h : Stands w own l n φ x) (hown : own .topmap = 0) (htop : .topmap ∉ l)
    (hQ : ∀ failed vals y, (failed = false → vals ≠ []) →
      Stands w own (if vals = [] then l else .psizevals :: l) n (φ ∧ failed = false) y →
        Q (failed, vals) y) : wp undoing (determinePagesizes c) Q x := by
  unfold determinePagesizes
  rw [wp_do]
  refine wp_probed h (by simp) (fun _ => rfl) ?_
  intro psize y hy
  split
  · rename_i hpsize
    refine hQ true [] y (by simp) ?_
    simpa [Handled, Int.not_lt.mpr hpsize] using hy
  · rename_i hpsize
    have hy' : Stands w own l n φ y := by simpa [Handled, Int.not_le.mp hpsize] using hy
    rw [wp_do]
    refine wp_addPagesize hy' hown htop ?_ ?_
    · intro y hy
      refine hQ true [] y (by simp) ?_
      simpa using hy
    · intro vals y hvals hy
      refine wp_addTlbs _ hvals hy hown htop ?_
      intro failed vals' y hvals' hy
      refine hQ failed vals' y (fun _ => hvals') ?_
      rw [if_neg hvals']
      exact hy

theorem wp_memoriesErr {vals : List Nat} {Q : Bool × TorqueCtx → Ledger × Prop → Prop}
    (h : Stands w c.owns (if vals = [] then l else .psizevals :: l) n φ x)
    (hQ : ∀ c' y, Stands w c'.owns l n φ y → Q (true, c') y) :
    wp undoing (memoriesErr vals c) Q x := by
  unfold memoriesErr
  rw [wp_do]
  refine wp_freeMemories h ?_
  intro y hy
  split
  · rename_i hv
    rw [if_pos hv] at hy
    exact hQ _ y hy
  · rename_i hv
    rw [if_neg hv] at hy
    rw [wp_do]
    exact wp_release hy (by simp) fun y => hQ _ y

theorem wp_detectMemories {Q : Bool × TorqueCtx → Ledger × Prop → Prop} (h : Stands w c.owns l n φ x)
    (htop : .topmap ∉ l) (hok : ∀ c' y, c'.ev = c.ev → Stands w c'.owns l n φ y → Q (false, c') y)
    (herr : ∀ c' y, Stands w c'.owns l n False y → Q (true, c') y) :
    wp undoing (detectMemories c) Q x := by
  unfold detectMemories
  rw [wp_do]
  refine wp_determinePagesizes h rfl htop ?_
  intro failed vals y hvals hy
  cases failed with
  | true =>
    refine wp_memoriesErr hy ?_
    intro c' y hy
    exact herr c' y (hy.unhandled (by simp))
  | false =>
    have hne : vals ≠ [] := hvals rfl
    rw [if_neg hne] at hy
    dsimp only
    rw [if_neg (by simp), wp_do]
    refine wp_probed hy (by simp) (fun _ => rfl) ?_
    rintro ⟨pages, psize, asrlim⟩ y hy
    dsimp only
    split
    · rename_i hsize
      refine wp_memoriesErr (by rwa [if_neg hne]) ?_
      intro c' y hy
      exact herr c' y (hy.unhandled (by simp [Handled, hsize]))
    · rename_i hsize
      have hy' : Stands w c.owns (.psizevals :: l) n φ y := by simpa [Handled, hsize] using hy
      rw [wp_do]
      refine wp_realloc hy' rfl ?_ ?_
      · intro y hy
        rw [if_neg (by simp)]
        refine wp_memoriesErr (by rwa [if_neg hne]) ?_
        intro c' y hy
        exact herr c' y (hy.unhandled (by simpa using fun _ => htop))
      · intro y hy
        rw [if_pos rfl]
        refine hok _ y rfl ?_
        rw [owns_node _ _ hne]
        split at hy
        · rename_i he
          rw [if_pos he]
          exact hy.owned.owned
        · rename_i he
          rw [if_neg he]
          exact hy.owned

end Memories

/-! ## The architecture -/

section Architecture
variable {w : Bool} {c : TorqueCtx} {l : List Resource} {n : Nat} {φ : Prop} {x : Ledger × Prop}

theorem code_ne_zero {e : TorqueErr} (he : e ≠ .none) : e.code ≠ 0 := by
  cases e with
  | none => exact absurd rfl he
  | syscall errno => cases errno <;> simp only [TorqueErr.code, Errno.code] <;> omega
  | _ => decide

/-- A failure leaves no tables. It is handled unless threads run on. -/
theorem wp_detectArchitecture {Q : Int × TorqueCtx → Ledger × Prop → Prop}
    (h : Stands w c.owns l n φ x) (hidle : Idle c n) (htop : .topmap ∉ l) (hnew : c.topology = {})
    (hok : ∀ c' k w' y, Stands w' c'.owns l k φ y → Idle c' k → Q (0, c') y)
    (herr : ∀ e c' k ψ w' y, e ≠ 0 → c'.owns = (fun _ => 0) → Stands w' c'.owns l k ψ y →
      (ψ ↔ φ ∧ k = 0) → Q (e, c') y) :
    wp undoing (detectArchitecture c) Q x := by
  have handled (e : Int) (he : e ≠ 0) (c' : TorqueCtx) (w' : Bool) (y : Ledger × Prop)
      (hy : Stands w' c'.owns l 0 φ y) :
      wp undoing (do let c ← freeArchitecture c'; pure (e, c)) Q y := by
    rw [wp_do]
    refine wp_freeArchitecture hy ?_
    intro c'' z hz _ hz'
    exact herr e c'' 0 φ w' z he hz hz' (and_iff_left rfl).symm
  have unhandled (e : Int) (he : e ≠ 0) (c' : TorqueCtx) (k : Nat) (hk : 0 < k) (w' : Bool)
      (y : Ledger × Prop) (hy : Stands w' c'.owns l k False y) :
      wp undoing (do let c ← freeArchitecture c'; pure (e, c)) Q y := by
    rw [wp_do]
    refine wp_freeArchitecture hy ?_
    intro c'' z hz _ hz'
    refine herr e c'' k False w' z he hz hz' ?_
    exact iff_of_false id fun hφ => Nat.ne_of_gt hk hφ.2
  unfold detectArchitecture
  dsimp only
  rw [wp_do]
  refine wp_detectCputypes h hidle hnew ?_ ?_
  · intro c1 k w' y hy hk hpos
    dsimp only
    rw [if_neg (by decide), wp_do]
    refine wp_detectCuda hy htop ?_ ?_
    · intro c2 y hev hy
      dsimp only
      rw [if_neg (by decide), wp_do]
      refine wp_detectMemories hy htop ?_ ?_
      · intro c3 y hev' hy
        refine hok c3 k w' y hy fun he => hk ?_
        rw [← hev, ← hev', he]
      · intro c3 y hy
        exact unhandled _ (by decide) c3 k hpos w' y hy
    · intro e c2 y he hy
      dsimp only
      rw [if_pos he]
      exact unhandled e he c2 k hpos w' y hy
  · intro e c1 w' y he hy
    dsimp only
    rw [if_pos (code_ne_zero he)]
    exact handled e.code (code_ne_zero he) c1 w' y hy

end Architecture

end Libtorque.Startup
