import Libtorque.Archdetect.Listing

/-! # What the listing tells

A line can be read back, and so can the listing: it tells the tree, with the type
of each group that has no others under it. -/
namespace Libtorque.Archdetect
open Libtorque.Lib Libtorque.Hardware

/-! ## A line -/

theorem clear_tail : Clear tail := by
  have htype : Clear fun type => decimal (type + 1) ++ ")\n".toList := by
    have hnumber := Clear.decimal (clear_text ")\n".toList) fun _ => ⟨')', rfl, by decide⟩
    exact hnumber.comp (g := fun type => (type + 1, ())) fun a b h => by simpa using h
  have hone := htype.after "x processor type ".toList
  exact hone.option (apart_of_head (p := (· == 'x')) (fun _ => ⟨'x', rfl, rfl⟩)
    fun _ => ⟨' ', rfl, rfl⟩)

theorem clear_total :
    Clear fun p : Nat × Option Nat => '(' :: (decimal p.1 ++ tail p.2) := by
  have htail : ∀ cputype, ∃ c ∈ (tail cputype).head?, c.isDigit = false := by
    intro cputype
    cases cputype with
    | none => exact ⟨' ', rfl, by decide⟩
    | some type => exact ⟨'x', rfl, by decide⟩
  exact (clear_tail.decimal htail).after ['(']

theorem clear_cpus :
    Clear fun p : List Nat × Nat × Option Nat =>
      p.1.flatMap (fun z => padded 3 z ++ [' ']) ++ '(' :: (decimal p.2.1 ++ tail p.2.2) := by
  have hcpu : Clear fun z => padded 3 z ++ [' '] := by
    have hnumber := Clear.padded (clear_text [' ']) (fun _ => ⟨' ', rfl, by decide⟩) 3
    exact hnumber.comp (g := fun z => (z, ())) fun a b h => by simpa using h
  refine hcpu.list clear_total (apart_of_head (p := (· != '(')) ?_ fun _ => ⟨'(', rfl, rfl⟩)
  intro z
  obtain ⟨c, hc, hwhich⟩ := padded_head 3 z
  refine ⟨c, ?_, ?_⟩
  · rw [List.head?_append_of_ne_nil]
    · exact hc
    · rintro hnil
      rw [hnil] at hc
      cases hc
  · rcases hwhich with rfl | hdigit
    · rfl
    · simp only [bne_iff_ne]
      rintro rfl
      cases hdigit

theorem term_head (depth : Nat) (t : List Char) :
    ∃ c ∈ (term depth ++ ([' '] ++ t)).head?, (c == '\t') = false := by
  match depth with
  | 0 => exact ⟨'P', rfl, rfl⟩
  | 1 => exact ⟨'C', rfl, rfl⟩
  | 2 => exact ⟨'T', rfl, rfl⟩
  | n + 3 => exact ⟨' ', rfl, rfl⟩

/-- A line tells all of it. -/
theorem clear_line : Clear Line.text := by
  have hcolon := clear_cpus.after ": ".toList
  have hgroup := hcolon.decimal fun _ => ⟨':', rfl, by decide⟩
  have hterm (n : Nat) := (hgroup.after [' ']).after (term (n - 1))
  have hline := Clear.replicate (c := '\t') hterm fun n _ => term_head (n - 1) _
  refine hline.comp (g := fun l : Line => (l.depth + 1, l.groupid, l.cpus, l.total, l.cputype)) ?_
  intro k l h
  cases k
  cases l
  simp_all

theorem text_ne_nil (l : Line) : l.text ≠ [] := by
  intro h
  have hhead := congrArg List.head? h
  simp [Line.text, List.replicate_succ] at hhead

theorem listing_eq_iff (zone zone' : List TorqueTopt) :
    listing zone = listing zone' ↔ lines zone = lines zone' :=
  (clear_line.flatMap_injective text_ne_nil).eq_iff

/-! ## The tree -/

/-- The groups under which there are no others. -/
def leaves (n : TorqueTopt) : List TorqueTopt := if n.sub.isEmpty then [n] else n.sub

/-- The types that are told, package by package. -/
def leafTypes (zone : List TorqueTopt) : List (List Nat) :=
  zone.map fun n => (leaves n).map (·.cpudesc)

theorem map_eq_of {α β γ : Type} {p : α → β} {q : α → γ} {l l' : List α} (h : l.map p = l'.map p)
    (hq : ∀ a ∈ l, ∀ b ∈ l', p a = p b → q a = q b) : l.map q = l'.map q := by
  have hpair := congrArg (List.map Prod.snd) (map_pair_eq h hq)
  rwa [List.map_map, List.map_map] at hpair

theorem cpuList_inj {s t : CpuSet} (h : cpuList s = cpuList t) : s = t := by
  ext cpu
  rw [← mem_cpuList, h, mem_cpuList]

section Leaf
variable {c d : TorqueTopt} {depth : Nat}

theorem nodeLine_leaf (h : c.sub = []) : nodeLine depth c =
    { depth := depth, groupid := c.groupid, cpus := cpuList c.schedulable
      total := (cpuList c.schedulable).length, cputype := some c.cpudesc } := by
  simp [nodeLine, h]

theorem nodeLine_inner (h : c.sub ≠ []) : nodeLine depth c =
    { depth := depth, groupid := c.groupid, cpus := []
      total := (cpuList c.schedulable).length, cputype := none } := by
  simp [nodeLine, h]

/-- A leaf's line tells its identity, its CPUs and its type. -/
theorem nodeLine_leaf_eq_iff (hc : c.sub = []) (hd : d.sub = []) :
    nodeLine depth c = nodeLine depth d ↔
      ((c.groupid, c.schedulable.cpus), c.cpudesc) =
        ((d.groupid, d.schedulable.cpus), d.cpudesc) := by
  rw [nodeLine_leaf hc, nodeLine_leaf hd]
  constructor
  · intro h
    simp only [Line.mk.injEq, Option.some.injEq] at h
    rw [h.2.1, cpuList_inj h.2.2.1, h.2.2.2.2]
  · intro h
    simp only [Prod.mk.injEq] at h
    rw [h.1.1, CpuSet.ext h.1.2, h.2]

end Leaf

/-- The lines of the cores of a package. -/
theorem cores_eq_iff {sub sub' : List TorqueTopt} (h : ∀ c ∈ sub, c.sub = [])
    (h' : ∀ c ∈ sub', c.sub = []) :
    sub.map (nodeLine 1) = sub'.map (nodeLine 1) ↔
      groupsOf sub = groupsOf sub' ∧ sub.map (·.cpudesc) = sub'.map (·.cpudesc) := by
  constructor
  · intro hlines
    have hall := map_eq_of hlines fun c hc d hd => (nodeLine_leaf_eq_iff (h c hc) (h' d hd)).mp
    exact ⟨map_eq_of hall fun _ _ _ _ heq => (Prod.mk.injEq .. ▸ heq).1,
      map_eq_of hall fun _ _ _ _ heq => (Prod.mk.injEq .. ▸ heq).2⟩
  · rintro ⟨hgroups, htypes⟩
    have hall := congrArg₂ List.zip hgroups htypes
    rw [groupsOf, groupsOf, List.zip_map', List.zip_map'] at hall
    exact map_eq_of hall fun c hc d hd => (nodeLine_leaf_eq_iff (h c hc) (h' d hd)).mpr

/-- What is told of a package. -/
theorem package_eq_iff {zone zone' : List TorqueTopt} (hp : Partitioned zone)
    (hp' : Partitioned zone') {n n' : TorqueTopt} (hn : n ∈ zone) (hn' : n' ∈ zone') :
    (nodeLine 0 n, n.sub.map (nodeLine 1)) = (nodeLine 0 n', n'.sub.map (nodeLine 1)) ↔
      (((n.groupid, n.schedulable.cpus), groupsOf n.sub), (leaves n).map (·.cpudesc)) =
        (((n'.groupid, n'.schedulable.cpus), groupsOf n'.sub), (leaves n').map (·.cpudesc)) := by
  have hcores : ∀ c ∈ n.sub, c.sub = [] := fun c hc =>
    (((hp n hn).2 (List.ne_nil_of_mem hc)).2.2 c hc).2
  have hcores' : ∀ c ∈ n'.sub, c.sub = [] := fun c hc =>
    (((hp' n' hn').2 (List.ne_nil_of_mem hc)).2.2 c hc).2
  by_cases hleaf : n.sub = []
  · by_cases hleaf' : n'.sub = []
    · have hone : nodeLine 0 n = nodeLine 0 n' ↔ _ := nodeLine_leaf_eq_iff hleaf hleaf'
      simp only [Prod.mk.injEq] at hone ⊢
      simp [hone, hleaf, hleaf', leaves, groupsOf]
    · constructor
      · intro h
        simp [hleaf, hleaf'] at h
      · intro h
        simp [hleaf, hleaf', groupsOf] at h
  · by_cases hleaf' : n'.sub = []
    · constructor
      · intro h
        simp [hleaf, hleaf'] at h
      · intro h
        simp [hleaf, hleaf', groupsOf] at h
    · have hunion : groupsOf n.sub = groupsOf n'.sub →
          n.schedulable.cpus = n'.schedulable.cpus := by
        intro heq
        ext cpu
        rw [((hp n hn).2 hleaf).1 cpu, ((hp' n' hn').2 hleaf').1 cpu]
        have hgroups : ∀ sub : List TorqueTopt,
            (∃ c ∈ sub, cpu ∈ c.schedulable.cpus) ↔ ∃ g ∈ groupsOf sub, cpu ∈ g.2 := by
          simp [groupsOf]
        rw [hgroups, hgroups, heq]
      have hlines := cores_eq_iff hcores hcores'
      rw [nodeLine_inner hleaf, nodeLine_inner hleaf']
      simp only [Prod.mk.injEq, Line.mk.injEq, hlines, leaves, List.isEmpty_iff, hleaf, hleaf',
        if_false]
      constructor
      · rintro ⟨⟨-, hid, -⟩, hsub, htypes⟩
        exact ⟨⟨⟨hid, hunion hsub⟩, hsub⟩, htypes⟩
      · rintro ⟨⟨⟨hid, hcpus⟩, hsub⟩, htypes⟩
        rw [CpuSet.ext hcpus]
        exact ⟨⟨trivial, hid, trivial, rfl, trivial⟩, hsub, htypes⟩

theorem lines_eq_iff {zone zone' : List TorqueTopt} (hp : Partitioned zone)
    (hp' : Partitioned zone') :
    lines zone = lines zone' ↔ shape zone = shape zone' ∧ leafTypes zone = leafTypes zone' := by
  constructor
  · intro h
    have hpairs := headed_unique (p := fun l : Line => l.depth == 1) (fun _ => rfl)
      (fun n l hl => by obtain ⟨c, -, rfl⟩ := List.mem_map.mp hl; rfl) h
    have hall := map_eq_of hpairs fun n hn n' hn' => (package_eq_iff hp hp' hn hn').mp
    exact ⟨map_eq_of hall fun _ _ _ _ heq => (Prod.mk.injEq .. ▸ heq).1,
      map_eq_of hall fun _ _ _ _ heq => (Prod.mk.injEq .. ▸ heq).2⟩
  · rintro ⟨hshape, htypes⟩
    have hall := congrArg₂ List.zip hshape htypes
    rw [shape, shape, leafTypes, leafTypes, List.zip_map', List.zip_map'] at hall
    have hpairs := map_eq_of hall fun n hn n' hn' => (package_eq_iff hp hp' hn hn').mpr
    have hlines : ∀ zone, lines zone =
        (zone.map fun n => (nodeLine 0 n, n.sub.map (nodeLine 1))).flatMap
          fun l => l.1 :: l.2 := by
      intro zone
      rw [lines, List.flatMap_map]
    rw [hlines, hlines, hpairs]

/-! ## The CPUs -/

/-- The CPUs as they are printed. -/
def listed (zone : List TorqueTopt) : List Nat := (lines zone).flatMap (·.cpus)

theorem listed_eq {zone : List TorqueTopt} (hp : Partitioned zone) :
    listed zone = zone.flatMap fun n => (leaves n).flatMap fun c => cpuList c.schedulable := by
  rw [listed, lines, List.flatMap_assoc]
  refine List.flatMap_congr fun n hn => ?_
  by_cases hleaf : n.sub = []
  · simp [leaves, hleaf, nodeLine]
  · have hcores := ((hp n hn).2 hleaf).2.2
    rw [List.flatMap_cons, nodeLine_inner hleaf, List.flatMap_map]
    simp only [List.nil_append, leaves, List.isEmpty_iff, hleaf, if_false]
    refine List.flatMap_congr fun c hc => ?_
    rw [nodeLine_leaf (hcores c hc).2]

theorem cpuList_nodup (s : CpuSet) : (cpuList s).Nodup := List.nodup_range.filter _

theorem mem_leaves {zone : List TorqueTopt} (hp : Partitioned zone) {n : TorqueTopt} (hn : n ∈ zone)
    (cpu : Nat) :
    cpu ∈ (leaves n).flatMap (fun c => cpuList c.schedulable) ↔ cpu ∈ n.schedulable.cpus := by
  rw [List.mem_flatMap]
  simp only [mem_cpuList]
  by_cases hleaf : n.sub = []
  · simp [leaves, hleaf]
  · rw [((hp n hn).2 hleaf).1 cpu]
    simp [leaves, hleaf]

theorem nodup_leaves {zone : List TorqueTopt} (hp : Partitioned zone) {n : TorqueTopt}
    (hn : n ∈ zone) : ((leaves n).flatMap fun c => cpuList c.schedulable).Nodup := by
  by_cases hleaf : n.sub = []
  · simpa [leaves, hleaf] using cpuList_nodup n.schedulable
  · simp only [leaves, List.isEmpty_iff, hleaf, if_false]
    rw [List.nodup_flatMap]
    refine ⟨fun c _ => cpuList_nodup c.schedulable, ((hp n hn).2 hleaf).2.1.imp ?_⟩
    intro c d hdisj cpu hc hd
    exact Finset.disjoint_left.mp hdisj (mem_cpuList.mp hc) (mem_cpuList.mp hd)

/-- Each CPU that has been registered is printed once. -/
theorem listed_once {S : Finset Reg} {t : Topology} (hi : Inv S t) :
    (listed t.zone).Nodup ∧ ∀ cpu, cpu ∈ listed t.zone ↔ ∃ r ∈ S, r.aid = cpu := by
  have hp := hi.partitioned
  rw [listed_eq hp]
  constructor
  · rw [List.nodup_flatMap]
    refine ⟨fun n hn => nodup_leaves hp hn, ?_⟩
    have hdisj := hi.packages.disjoint hi.aids
    rw [groupsOf, List.pairwise_map] at hdisj
    refine hdisj.imp_of_mem ?_
    intro m n hm hn hmn cpu hc hd
    exact Finset.disjoint_left.mp hmn ((mem_leaves hp hm cpu).mp hc) ((mem_leaves hp hn cpu).mp hd)
  · intro cpu
    have hunion := hi.packages.union cpu
    simp only [Finset.mem_image] at hunion
    rw [hunion, List.mem_flatMap]
    constructor
    · rintro ⟨n, hn, hcpu⟩
      exact ⟨_, mem_groupsOf hn, (mem_leaves hp hn cpu).mp hcpu⟩
    · rintro ⟨g, hg, hcpu⟩
      obtain ⟨n, hn, rfl⟩ := List.mem_map.mp hg
      exact ⟨n, hn, (mem_leaves hp hn cpu).mpr hcpu⟩

/-! ## The results -/

section Results
variable {cs cs' : List (Reg × ZoneMallocs)}

/-- Whatever has been registered, no array is read past its end, and the listing
is printed whole unless a write fails; each CPU is in it once. -/
theorem print_topology_lists (hd : (cs.map (·.1.aid)).Nodup)
    (hb : ∀ c ∈ cs, c.1.aid < cpuSetsize) :
    (∃ writes, ∀ o : Stream,
      ((printTopology (topologyOf cs).zone o).1 = .ok () ↔ o.Holds writes) ∧
      ((printTopology (topologyOf cs).zone o).1 = .error .failed ↔ ¬ o.Holds writes) ∧
      (o.Holds writes →
        (printTopology (topologyOf cs).zone o).2.text = o.text ++ listing (topologyOf cs).zone)) ∧
    (listed (topologyOf cs).zone).Nodup ∧
      ∀ cpu, cpu ∈ listed (topologyOf cs).zone ↔ ∃ r ∈ registered cs, r.aid = cpu := by
  have hi : Inv (registered cs) (topologyOf cs) := topologizeAll_inv Inv.empty hd hb (by simp)
  obtain ⟨ts, hts, htext⟩ := prints_topology hi.partitioned
  refine ⟨⟨ts.length, fun o => ⟨hts.ok_iff o, hts.error_iff o, ?_⟩⟩, listed_once hi⟩
  intro hroom
  obtain ⟨n, hwritten, hn⟩ := hts.text o
  rw [hwritten, hn hroom, List.take_length, htext]

/-- Two cores of a package, and a package of one CPU. -/
def threeCpus : List (Reg × ZoneMallocs) :=
  [(⟨2, 0, 0, 0, 0⟩, .all), (⟨3, 0, 1, 0, 0⟩, .all), (⟨5, 0, 0, 1, 1⟩, .all)]

theorem print_topology_lists_three : (listed (topologyOf threeCpus).zone).Nodup :=
  (print_topology_lists (by decide) (by decide)).2.1

/-- The listing tells the packages, their cores and all their CPUs, and the type
of each group that has no others under it, and nothing else. -/
theorem listing_tells (hd : (cs.map (·.1.aid)).Nodup) (hb : ∀ c ∈ cs, c.1.aid < cpuSetsize)
    (hd' : (cs'.map (·.1.aid)).Nodup) (hb' : ∀ c ∈ cs', c.1.aid < cpuSetsize) :
    listing (topologyOf cs).zone = listing (topologyOf cs').zone ↔
      shape (topologyOf cs).zone = shape (topologyOf cs').zone ∧
        leafTypes (topologyOf cs).zone = leafTypes (topologyOf cs').zone := by
  have hi : Inv (registered cs) (topologyOf cs) := topologizeAll_inv Inv.empty hd hb (by simp)
  have hi' : Inv (registered cs') (topologyOf cs') := topologizeAll_inv Inv.empty hd' hb' (by simp)
  rw [listing_eq_iff, lines_eq_iff hi.partitioned hi'.partitioned]

/-- The type of the other package is told. -/
theorem listing_tells_three :
    listing (topologyOf threeCpus).zone ≠
      listing (topologyOf (threeCpus.take 2 ++ [(⟨5, 0, 0, 1, 0⟩, .all)])).zone := by
  rw [ne_eq, listing_tells (by decide) (by decide) (by decide) (by decide)]
  decide +kernel

end Results

end Libtorque.Archdetect
