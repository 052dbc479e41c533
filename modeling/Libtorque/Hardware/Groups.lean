import Libtorque.Lib.Grouping
import Libtorque.Hardware.Topology

/-! # What the topology represents

The packages are the groups of the registered CPUs under `package`, and the
cores of a package those of its CPUs under `core`. A call that fails for want
of memory may leave a lone CPU of a package with its core written down. -/
namespace Libtorque.Hardware

open Lib

/-- A CPU as it is given to `topologize`. -/
structure Reg where
  aid : Nat
  thread : Nat
  core : Nat
  pkg : Nat
  cputype : Nat
deriving DecidableEq, Repr

/-- A call of `topologize`, with the allocator as it then is. -/
def Topology.call (t : Topology) (c : Reg × ZoneMallocs) : TorqueErr × Topology :=
  topologize c.2 t c.1.aid c.1.thread c.1.core c.1.pkg c.1.cputype

/-- One call after another; the set collects those that returned 0. -/
def topologizeAll : List (Reg × ZoneMallocs) → Finset Reg × Topology → Finset Reg × Topology
  | [], x => x
  | c :: cs, (S, t) => match t.call c with
    | (.none, t) => topologizeAll cs (insert c.1 S, t)
    | (_, t) => topologizeAll cs (S, t)

/-- The CPUs whose registration returned 0, from an empty topology on. -/
def registered (cs : List (Reg × ZoneMallocs)) : Finset Reg := (topologizeAll cs (∅, {})).1

/-- The topology after these calls. -/
def topologyOf (cs : List (Reg × ZoneMallocs)) : Topology := (topologizeAll cs (∅, {})).2

/-- The identity and the CPUs of each node of a list. -/
def groupsOf (zone : List TorqueTopt) : List (Nat × Finset Nat) :=
  zone.map fun n => (n.groupid, n.schedulable.cpus)

/-- The CPUs of a set that are in the package of a node. -/
def inPkg (S : Finset Reg) (pkg : Nat) : Finset Reg := S.filter fun r => r.pkg = pkg

/-- The tree represents the set: a node for each package and, under each
package of more than one CPU, a node for each core. -/
structure Represents (S : Finset Reg) (zone : List TorqueTopt) : Prop where
  packages : Groups S Reg.pkg Reg.aid (groupsOf zone)
  cores : ∀ n ∈ zone, 2 ≤ n.schedulable.cpus.card →
    Groups (inPkg S n.groupid) Reg.core Reg.aid (groupsOf n.sub)

/-- Every group has a CPU, and is the disjoint union of its subgroups. -/
def Partitioned (zone : List TorqueTopt) : Prop :=
  ∀ n ∈ zone, n.schedulable.cpus.Nonempty ∧ (n.sub ≠ [] →
    (∀ cpu, cpu ∈ n.schedulable.cpus ↔ ∃ c ∈ n.sub, cpu ∈ c.schedulable.cpus) ∧
    (n.sub.Pairwise fun c d => Disjoint c.schedulable.cpus d.schedulable.cpus) ∧
    ∀ c ∈ n.sub, c.schedulable.cpus.Nonempty ∧ c.sub = [])

/-- The second list shows what the first shows: the same packages, and the same
node for each that has more than one CPU. -/
def Intact (zone zone' : List TorqueTopt) : Prop :=
  groupsOf zone' = groupsOf zone ∧ ∀ n ∈ zone, 2 ≤ n.schedulable.cpus.card → n ∈ zone'

/-- All that a tree says of identities and CPUs. -/
def shape (zone : List TorqueTopt) : List ((Nat × Finset Nat) × List (Nat × Finset Nat)) :=
  zone.map fun n => ((n.groupid, n.schedulable.cpus), groupsOf n.sub)

/-! ## What one call does -/

theorem findSchedGroup_sorted {malloc : Bool} {id cputype : Nat} {zone : List TorqueTopt}
    {f : Focus} (hs : zone.Pairwise fun m n => m.groupid < n.groupid)
    (h : findSchedGroup malloc id cputype zone = some f) :
    (f.node.groupid = id ∧ f.list = zone) ∨
      (f.node = createZone id cputype ∧ f.before ++ f.after = zone ∧
        (∀ n ∈ f.before, n.groupid < id) ∧ ∀ n ∈ f.after, id < n.groupid) := by
  induction zone generalizing f with
  | nil =>
    simp only [findSchedGroup] at h
    split at h
    · cases h
      exact .inr ⟨rfl, rfl, by simp, by simp⟩
    · cases h
  | cons n rest ih =>
    rw [List.pairwise_cons] at hs
    simp only [findSchedGroup] at h
    split at h
    · rename_i hid
      cases h
      exact .inl ⟨hid, rfl⟩
    · rename_i hne
      split at h
      · rename_i hlt
        split at h
        · cases h
          refine .inr ⟨rfl, rfl, by simp, fun m hm => ?_⟩
          rcases List.mem_cons.mp hm with rfl | hm
          · exact hlt
          · exact Nat.lt_trans hlt (hs.1 m hm)
        · cases h
      · rename_i hge
        obtain ⟨g, hg, rfl⟩ := Option.map_eq_some_iff.mp h
        rcases ih hs.2 hg with ⟨hid, hl⟩ | ⟨hn, hl, hb, ha⟩
        · exact .inl ⟨hid, by simp [Focus.list, ← hl]⟩
        · refine .inr ⟨hn, by simp [hl], fun m hm => ?_, ha⟩
          rcases List.mem_cons.mp hm with rfl | hm
          · omega
          · exact hb m hm

theorem TorqueTopt.with_sub (n : TorqueTopt) :
    TorqueTopt.mk n.schedulable n.groupid n.cpudesc n.sub = n := by
  cases n
  rfl

/-- The list of cores that a package has once its second CPU is there. -/
def openedSub (tm : Nat → TopMap) (cputype : Nat) (sg : TorqueTopt) : List TorqueTopt :=
  match sg.sub with
  | [] =>
    let oid := sg.schedulable.firstAid
    [(createZone (tm oid).core cputype).addCpu oid]
  | sub => sub

theorem openedSub_nil {tm : Nat → TopMap} {cputype : Nat} {sg : TorqueTopt} (h : sg.sub = []) :
    openedSub tm cputype sg =
      [(createZone (tm sg.schedulable.firstAid).core cputype).addCpu sg.schedulable.firstAid] := by
  unfold openedSub
  rw [h]

theorem openedSub_cons {tm : Nat → TopMap} {cputype : Nat} {sg : TorqueTopt} (h : sg.sub ≠ []) :
    openedSub tm cputype sg = sg.sub := by
  unfold openedSub
  split
  · rename_i hnil
    exact absurd hnil h
  · rfl

theorem openSub_cases (malloc : Bool) (tm : Nat → TopMap) (cputype : Nat) {sg : TorqueTopt}
    (hs : sg.schedulable.cpus.Nonempty) :
    (∃ read, openSub malloc tm cputype sg =
      (.none, { sg with sub := openedSub tm cputype sg }, read)) ∨
    (∃ err read, err ≠ .none ∧ openSub malloc tm cputype sg = (err, sg, read)) := by
  have hlt := sg.schedulable.bounded _ (CpuSet.firstAid_mem hs)
  unfold openSub
  split
  · rename_i c cs hsub
    rw [openedSub_cons (by simp [hsub]), TorqueTopt.with_sub]
    exact .inl ⟨[], rfl⟩
  · rename_i hsub
    dsimp only
    rw [if_neg (by omega), openedSub_nil hsub]
    cases malloc with
    | true => exact .inl ⟨_, rfl⟩
    | false => exact .inr ⟨.resource, _, by simp, rfl⟩

theorem topologizeCore_cases (mem : ZoneMallocs) (tm : Nat → TopMap) (aid core cputype : Nat)
    {sg : TorqueTopt} (hs : sg.schedulable.cpus.Nonempty) :
    (∃ g read, findSchedGroup mem.core core cputype (openedSub tm cputype sg) = some g ∧
      topologizeCore mem tm aid core cputype sg =
        (.none, { sg with sub := { g with node := g.node.addCpu aid }.list }, read)) ∨
    (∃ err sg' read, err ≠ .none ∧ topologizeCore mem tm aid core cputype sg = (err, sg', read) ∧
      (sg' = sg ∨ sg' = { sg with sub := openedSub tm cputype sg })) := by
  unfold topologizeCore
  rcases openSub_cases mem.first tm cputype hs with ⟨read, h⟩ | ⟨err, read, herr, h⟩
  · rw [h]
    dsimp only
    cases hg : findSchedGroup mem.core core cputype (openedSub tm cputype sg) with
    | some g => exact .inl ⟨g, read, rfl, rfl⟩
    | none => exact .inr ⟨.resource, _, read, by simp, rfl, .inr rfl⟩
  · rw [h]
    refine .inr ⟨err, sg, read, herr, ?_, .inl rfl⟩
    split
    · rename_i heq
      cases heq
      exact absurd rfl herr
    · rfl

/-- A call that succeeds: the CPU joins its package and, where that had a CPU
already, its core. -/
structure Joined (t t' : Topology) (r : Reg) (f : Focus) (sg : TorqueTopt) : Prop where
  found : ∃ malloc, findSchedGroup malloc r.pkg r.cputype t.zone = some f
  zone : t'.zone = { f with node := sg.addCpu r.aid }.list
  tm : t'.tm = fun i => if i = r.aid then ⟨r.thread, r.core, r.pkg⟩ else t.tm i
  node : (f.node.schedulable.cpus = ∅ ∧ sg = f.node) ∨
    (f.node.schedulable.cpus.Nonempty ∧ ∃ malloc g,
      findSchedGroup malloc r.core r.cputype (openedSub t.tm r.cputype f.node) = some g ∧
      sg = { f.node with sub := { g with node := g.node.addCpu r.aid }.list })

/-- A call that fails leaves all as it was, but for the list of cores it may
have opened. -/
structure Missed (t t' : Topology) (r : Reg) : Prop where
  tm : t'.tm = t.tm
  zone : t'.zone = t.zone ∨ ∃ f ∈ t.zone, ∃ before after, f.schedulable.cpus.Nonempty ∧
    t.zone = before ++ f :: after ∧
    t'.zone = before ++ { f with sub := openedSub t.tm r.cputype f } :: after

theorem call_cases {t t' : Topology} {c : Reg × ZoneMallocs} {err : TorqueErr}
    (ha : c.1.aid < cpuSetsize) (h : t.call c = (err, t')) :
    (err = .none ∧ ∃ f sg, Joined t t' c.1 f sg) ∨ (err ≠ .none ∧ Missed t t' c.1) := by
  obtain ⟨r, mem⟩ := c
  unfold Topology.call topologize at h
  rw [if_neg (by omega)] at h
  cases hf : findSchedGroup mem.package r.pkg r.cputype t.zone with
  | none =>
    rw [hf] at h
    cases h
    exact .inr ⟨by simp, rfl, .inl rfl⟩
  | some f =>
    rw [hf] at h
    dsimp only at h
    by_cases hs : f.node.schedulable.shareLevel = true
    · have hne := (CpuSet.shareLevel_iff _).mp hs
      rw [if_pos hs] at h
      rcases topologizeCore_cases mem t.tm r.aid r.core r.cputype hne with
        ⟨g, read, hg, heq⟩ | ⟨e, sg, read, he, heq, hsg⟩
      · rw [heq] at h
        cases h
        exact .inl ⟨rfl, f, _, ⟨_, hf⟩, rfl, rfl, .inr ⟨hne, _, g, hg, rfl⟩⟩
      · rw [heq] at h
        dsimp only at h
        rw [if_neg he] at h
        cases h
        refine .inr ⟨he, rfl, ?_⟩
        -- a node with a CPU was there before
        rcases findSchedGroup_list hf with ⟨hm, hl⟩ | ⟨hn, hl⟩
        · rcases hsg with rfl | rfl
          · exact .inl hl
          · exact .inr ⟨f.node, hm, f.before, f.after, hne, hl.symm, rfl⟩
        · rw [hn] at hne
          exact absurd hne (by simp [createZone])
    · have hempty : f.node.schedulable.cpus = ∅ := by
        rw [← Finset.not_nonempty_iff_eq_empty, ← CpuSet.shareLevel_iff]
        exact hs
      rw [if_neg hs] at h
      cases h
      exact .inl ⟨rfl, f, f.node, ⟨_, hf⟩, rfl, rfl, .inl ⟨hempty, rfl⟩⟩

/-! ## What every call preserves -/

/-- The list of cores of a package whose CPUs are `P`: there is none as long as
they are fewer than two, unless a call has failed. -/
def Cores (P : Finset Reg) (sub : List TorqueTopt) : Prop :=
  (sub = [] ∧ P.card ≤ 1) ∨
    (sub ≠ [] ∧ Groups P Reg.core Reg.aid (groupsOf sub) ∧ ∀ c ∈ sub, c.sub = [])

structure Inv (S : Finset Reg) (t : Topology) : Prop where
  aids : Set.InjOn Reg.aid S
  packages : Groups S Reg.pkg Reg.aid (groupsOf t.zone)
  cores : ∀ n ∈ t.zone, Cores (inPkg S n.groupid) n.sub
  notes : ∀ r ∈ S, (t.tm r.aid).core = r.core

@[simp] theorem groupsOf_list (before after : List TorqueTopt) (n : TorqueTopt) :
    groupsOf (before ++ n :: after) =
      groupsOf before ++ (n.groupid, n.schedulable.cpus) :: groupsOf after := by
  simp [groupsOf]

theorem mem_groupsOf {zone : List TorqueTopt} {n : TorqueTopt} (h : n ∈ zone) :
    (n.groupid, n.schedulable.cpus) ∈ groupsOf zone :=
  List.mem_map_of_mem h

theorem pairwise_groupid {S : Finset Reg} {key : Reg → Nat} {zone : List TorqueTopt}
    (h : Groups S key Reg.aid (groupsOf zone)) :
    zone.Pairwise fun m n => m.groupid < n.groupid := by
  have hs := h.sorted
  rw [groupsOf, List.pairwise_map] at hs
  exact hs

theorem members_of {S : Finset Reg} {key : Reg → Nat} {zone : List TorqueTopt}
    (h : Groups S key Reg.aid (groupsOf zone)) {n : TorqueTopt} (hn : n ∈ zone) :
    n.schedulable.cpus = (S.filter fun r => key r = n.groupid).image Reg.aid :=
  h.members _ (mem_groupsOf hn)

/-- The node found holds the CPUs of its group, and a new one holds none. -/
theorem findSchedGroup_members {S : Finset Reg} {key : Reg → Nat} {zone : List TorqueTopt}
    {malloc : Bool} {id cputype : Nat} {f : Focus}
    (hg : Groups S key Reg.aid (groupsOf zone))
    (h : findSchedGroup malloc id cputype zone = some f) :
    f.node.groupid = id ∧
      f.node.schedulable.cpus = (S.filter fun r => key r = id).image Reg.aid := by
  rcases findSchedGroup_sorted (pairwise_groupid hg) h with ⟨hid, hl⟩ | ⟨hn, hl, hb, ha⟩
  · have hmem : f.node ∈ zone := hl ▸ List.mem_append_right _ List.mem_cons_self
    refine ⟨hid, ?_⟩
    rw [members_of hg hmem, hid]
  · have hnone : (S.filter fun r => key r = id) = ∅ := by
      refine Finset.filter_eq_empty_iff.mpr fun r hr hk => ?_
      obtain ⟨g, hgl, hkg⟩ := hg.covers r hr
      obtain ⟨m, hm, rfl⟩ := List.mem_map.mp hgl
      have hid : m.groupid = id := hkg.trans hk
      rcases List.mem_append.mp (hl ▸ hm) with hm | hm
      · exact Nat.ne_of_lt (hb m hm) hid
      · exact Nat.ne_of_lt (ha m hm) hid.symm
    rw [hn, hnone]
    exact ⟨rfl, rfl⟩

/-- A CPU set in the node found makes the groups of one CPU more. -/
theorem findSchedGroup_groups {S : Finset Reg} {key : Reg → Nat} {zone : List TorqueTopt}
    {malloc : Bool} {cputype : Nat} {f : Focus} {r : Reg} {n : TorqueTopt}
    (hg : Groups S key Reg.aid (groupsOf zone))
    (h : findSchedGroup malloc (key r) cputype zone = some f) (hr : r.aid < cpuSetsize)
    (hid : n.groupid = f.node.groupid) (hs : n.schedulable = f.node.schedulable) :
    Groups (insert r S) key Reg.aid (groupsOf { f with node := n.addCpu r.aid }.list) := by
  have hnode : (n.addCpu r.aid).schedulable.cpus = insert r.aid f.node.schedulable.cpus := by
    rw [TorqueTopt.addCpu, CpuSet.set_cpus hr, hs]
  have hgid : (n.addCpu r.aid).groupid = f.node.groupid := hid
  rw [Focus.list, groupsOf_list, hnode, hgid]
  rcases findSchedGroup_sorted (pairwise_groupid hg) h with ⟨hkey, hl⟩ | ⟨hn, hl, hb, ha⟩
  · rw [← hl, Focus.list, groupsOf_list, hkey] at hg
    rw [hkey]
    exact hg.join
  · rw [← hl, groupsOf, List.map_append] at hg
    rw [hn]
    refine hg.found (fun g hm => ?_) (fun g hm => ?_)
    · obtain ⟨m, hmem, rfl⟩ := List.mem_map.mp hm
      exact hb m hmem
    · obtain ⟨m, hmem, rfl⟩ := List.mem_map.mp hm
      exact ha m hmem

/-- In a sorted list the other nodes have other identities. -/
theorem others_ne {before after : List TorqueTopt} {n : TorqueTopt}
    (h : (before ++ n :: after).Pairwise fun m n => m.groupid < n.groupid) :
    ∀ m ∈ before ++ after, m.groupid ≠ n.groupid := by
  rw [List.pairwise_append, List.pairwise_cons] at h
  intro m hm
  rcases List.mem_append.mp hm with hm | hm
  · exact Nat.ne_of_lt (h.2.2 m hm n List.mem_cons_self)
  · exact (Nat.ne_of_lt (h.2.1.1 m hm)).symm

theorem inPkg_insert_ne (S : Finset Reg) {r : Reg} {pkg : Nat} (h : r.pkg ≠ pkg) :
    inPkg (insert r S) pkg = inPkg S pkg :=
  Groups.filter_insert_ne S h

theorem inPkg_insert_eq (S : Finset Reg) (r : Reg) :
    inPkg (insert r S) r.pkg = insert r (inPkg S r.pkg) :=
  Groups.filter_insert_eq S r

/-- A lone CPU of a package is written down with the core it was given. -/
theorem openedSub_cores (cputype : Nat) {P : Finset Reg} {tm : Nat → TopMap} {n : TorqueTopt}
    (hne : n.schedulable.cpus.Nonempty) (hm : n.schedulable.cpus = P.image Reg.aid)
    (hc : Cores P n.sub) (hnotes : ∀ r ∈ P, (tm r.aid).core = r.core) :
    openedSub tm cputype n ≠ [] ∧
      Groups P Reg.core Reg.aid (groupsOf (openedSub tm cputype n)) ∧
      ∀ c ∈ openedSub tm cputype n, c.sub = [] := by
  rcases hc with ⟨hsub, hcard⟩ | ⟨hsub, hg, hleaf⟩
  · have hfirst := CpuSet.firstAid_mem hne
    have hlt := n.schedulable.bounded _ hfirst
    rw [openedSub_nil hsub]
    rw [hm] at hfirst
    obtain ⟨a, ha, haid⟩ := Finset.mem_image.mp hfirst
    rw [← haid] at hlt
    have hP : P = insert a ∅ :=
      Finset.eq_singleton_iff_unique_mem.mpr
        ⟨ha, fun b hb => Finset.card_le_one.mp hcard b hb a ha⟩
    refine ⟨by simp, ?_, ?_⟩
    · have hcpus : ((createZone (tm a.aid).core cputype).addCpu a.aid).schedulable.cpus =
          {a.aid} := CpuSet.set_cpus hlt CpuSet.zero
      have hnode : groupsOf [(createZone (tm a.aid).core cputype).addCpu a.aid] =
          [] ++ (a.core, {a.aid}) :: [] := by
        rw [← hnotes a ha, ← hcpus]
        rfl
      rw [← haid, hnode, hP]
      exact Groups.found Groups.empty (by simp) (by simp)
    · intro c hcm
      rw [List.mem_singleton.mp hcm]
      rfl
  · rw [openedSub_cons hsub]
    exact ⟨hsub, hg, hleaf⟩

theorem findSchedGroup_rest {malloc : Bool} {id cputype : Nat} {zone : List TorqueTopt}
    {f : Focus} (h : findSchedGroup malloc id cputype zone = some f) :
    ∀ n ∈ f.before ++ f.after, n ∈ zone := by
  intro n hn
  rcases findSchedGroup_list h with ⟨-, hl⟩ | ⟨-, hl⟩
  · rw [← hl, Focus.list]
    rcases List.mem_append.mp hn with hn | hn
    · exact List.mem_append_left _ hn
    · exact List.mem_append_right _ (List.mem_cons_of_mem _ hn)
  · exact hl ▸ hn

theorem mem_list {f : Focus} {x n : TorqueTopt} (h : n ∈ { f with node := x }.list) :
    n = x ∨ n ∈ f.before ++ f.after := by
  simp only [Focus.list, List.mem_append, List.mem_cons] at h ⊢
  tauto

/-- A node that has a CPU was there before the search. -/
theorem findSchedGroup_old {malloc : Bool} {id cputype : Nat} {zone : List TorqueTopt}
    {f : Focus} (h : findSchedGroup malloc id cputype zone = some f)
    (hne : f.node.schedulable.cpus.Nonempty) : f.node ∈ zone := by
  rcases findSchedGroup_list h with ⟨hmem, -⟩ | ⟨hmade, -⟩
  · exact hmem
  · rw [hmade] at hne
    exact absurd hne (by simp [createZone])

theorem Joined.sg_eq {t t' : Topology} {r : Reg} {f : Focus} {sg : TorqueTopt}
    (h : Joined t t' r f sg) :
    sg.groupid = f.node.groupid ∧ sg.schedulable = f.node.schedulable := by
  rcases h.node with ⟨-, rfl⟩ | ⟨-, m, g, -, rfl⟩
  · exact ⟨rfl, rfl⟩
  · exact ⟨rfl, rfl⟩

/-- The list of cores of the package that the CPU joins. -/
theorem Inv.joined_sub {S : Finset Reg} {t t' : Topology} {r : Reg} {f : Focus}
    {sg : TorqueTopt} (hi : Inv S t) (hr : r.aid < cpuSetsize) (h : Joined t t' r f sg) :
    Cores (insert r (inPkg S r.pkg)) sg.sub := by
  obtain ⟨malloc, hf⟩ := h.found
  obtain ⟨hid, hcpus⟩ := findSchedGroup_members hi.packages hf
  rcases h.node with ⟨hempty, rfl⟩ | ⟨hne, m, g, hg, rfl⟩
  · -- a package without CPUs is one just made
    have hnone : inPkg S r.pkg = ∅ := Finset.image_eq_empty.mp (hcpus.symm.trans hempty)
    rw [hnone]
    rcases findSchedGroup_list hf with ⟨hmem, -⟩ | ⟨hmade, -⟩
    · exact absurd hempty (hi.packages.nonempty _ (mem_groupsOf hmem)).ne_empty
    · exact .inl ⟨by rw [hmade]; rfl, by simp⟩
  · have hcores := hi.cores _ (findSchedGroup_old hf hne)
    rw [hid] at hcores
    obtain ⟨-, hopen, hleaf⟩ := openedSub_cores r.cputype hne hcpus hcores
      fun s hs => hi.notes s (Finset.mem_of_mem_filter s hs)
    refine .inr ⟨by simp [Focus.list], findSchedGroup_groups hopen hg hr rfl rfl, ?_⟩
    intro c hc
    rcases mem_list hc with rfl | hc
    · rcases findSchedGroup_list hg with ⟨hgm, -⟩ | ⟨hgm, -⟩
      · exact hleaf g.node hgm
      · rw [hgm]
        rfl
    · exact hleaf c (findSchedGroup_rest hg c hc)

theorem Inv.joined {S : Finset Reg} {t t' : Topology} {r : Reg} {f : Focus} {sg : TorqueTopt}
    (hi : Inv S t) (hr : r.aid < cpuSetsize) (hnew : r.aid ∉ S.image Reg.aid)
    (h : Joined t t' r f sg) : Inv (insert r S) t' := by
  obtain ⟨malloc, hf⟩ := h.found
  have hid := (findSchedGroup_members hi.packages hf).1
  have hpack := findSchedGroup_groups hi.packages hf hr h.sg_eq.1 h.sg_eq.2
  refine ⟨?_, by rw [h.zone]; exact hpack, ?_, ?_⟩
  · rw [Finset.coe_insert]
    refine (Set.injOn_insert fun hmem => hnew (Finset.mem_image_of_mem _ hmem)).mpr
      ⟨hi.aids, ?_⟩
    rw [← Finset.coe_image]
    exact hnew
  · intro n hn
    rw [h.zone] at hn
    rcases mem_list hn with rfl | hrest
    · have hgid : (sg.addCpu r.aid).groupid = r.pkg := h.sg_eq.1.trans hid
      rw [hgid, inPkg_insert_eq]
      have hsub := hi.joined_sub hr h
      exact hsub
    · have hne : n.groupid ≠ r.pkg := by
        have hgid : (sg.addCpu r.aid).groupid = r.pkg := h.sg_eq.1.trans hid
        exact hgid ▸ others_ne (pairwise_groupid hpack) n hrest
      rw [inPkg_insert_ne S hne.symm]
      exact hi.cores n (findSchedGroup_rest hf n hrest)
  · intro s hs
    rw [h.tm]
    dsimp only
    rcases Finset.mem_insert.mp hs with rfl | hs
    · rw [if_pos rfl]
    · have hne : s.aid ≠ r.aid := by
        intro heq
        exact hnew (heq ▸ Finset.mem_image_of_mem _ hs)
      rw [if_neg hne]
      exact hi.notes s hs

/-- What a failed call leaves. -/
theorem Inv.missed {S : Finset Reg} {t t' : Topology} {r : Reg} (hi : Inv S t)
    (h : Missed t t' r) : Inv S t' ∧ Intact t.zone t'.zone := by
  rcases h.zone with hz | ⟨f, hf, before, after, hne, hz, hz'⟩
  · refine ⟨⟨hi.aids, hz ▸ hi.packages, hz ▸ hi.cores, ?_⟩, by rw [hz], fun n hn _ => hz ▸ hn⟩
    rw [h.tm]
    exact hi.notes
  · have hcores := hi.cores f hf
    have hmem := members_of hi.packages hf
    have hopen := openedSub_cores r.cputype hne hmem hcores
      fun s hs => hi.notes s (Finset.mem_of_mem_filter s hs)
    have hgroups : groupsOf t'.zone = groupsOf t.zone := by
      rw [hz, hz', groupsOf_list, groupsOf_list]
    refine ⟨⟨hi.aids, by rw [hgroups]; exact hi.packages, ?_, ?_⟩, hgroups, ?_⟩
    · intro n hn
      rw [hz', List.mem_append, List.mem_cons] at hn
      rcases hn with hn | rfl | hn
      · exact hi.cores n (hz ▸ List.mem_append_left _ hn)
      · exact .inr hopen
      · exact hi.cores n (hz ▸ List.mem_append_right _ (List.mem_cons_of_mem _ hn))
    · rw [h.tm]
      exact hi.notes
    · intro n hn hcard
      rw [hz, List.mem_append, List.mem_cons] at hn
      rw [hz']
      rcases hn with hn | rfl | hn
      · exact List.mem_append_left _ hn
      · -- more than one CPU: the list of cores was there
        have hsub : n.sub ≠ [] := by
          rcases hcores with ⟨-, hle⟩ | ⟨hsub, -⟩
          · rw [hmem] at hcard
            have := (hcard.trans Finset.card_image_le).trans hle
            omega
          · exact hsub
        rw [openedSub_cons hsub, TorqueTopt.with_sub]
        exact List.mem_append_right _ List.mem_cons_self
      · exact List.mem_append_right _ (List.mem_cons_of_mem _ hn)

/-! ## Runs -/

theorem Inv.empty : Inv ∅ {} where
  aids := by simp
  packages := Groups.empty
  cores := by simp
  notes := by simp

theorem fresh_insert {cs : List (Reg × ZoneMallocs)} {S : Finset Reg} {r : Reg}
    (hr : r.aid ∉ cs.map (·.1.aid)) (hnew : ∀ c ∈ cs, c.1.aid ∉ S.image Reg.aid) :
    ∀ c ∈ cs, c.1.aid ∉ (insert r S).image Reg.aid := by
  intro c hc
  rw [Finset.image_insert, Finset.mem_insert]
  rintro (heq | hmem)
  · rw [← heq] at hr
    exact hr (List.mem_map.mpr ⟨c, hc, rfl⟩)
  · exact hnew c hc hmem

theorem topologizeAll_inv {cs : List (Reg × ZoneMallocs)} {S : Finset Reg} {t : Topology}
    (hi : Inv S t) (hd : (cs.map (·.1.aid)).Nodup) (hb : ∀ c ∈ cs, c.1.aid < cpuSetsize)
    (hnew : ∀ c ∈ cs, c.1.aid ∉ S.image Reg.aid) :
    Inv (topologizeAll cs (S, t)).1 (topologizeAll cs (S, t)).2 := by
  induction cs generalizing S t with
  | nil => exact hi
  | cons c cs ih =>
    obtain ⟨hc, hd⟩ := List.nodup_cons.mp hd
    have hbc := hb c List.mem_cons_self
    have hb' : ∀ d ∈ cs, d.1.aid < cpuSetsize := fun d hd => hb d (List.mem_cons_of_mem _ hd)
    have hnew' : ∀ d ∈ cs, d.1.aid ∉ S.image Reg.aid :=
      fun d hd => hnew d (List.mem_cons_of_mem _ hd)
    rcases hcall : t.call c with ⟨err, t'⟩
    rcases call_cases hbc hcall with ⟨rfl, f, sg, hj⟩ | ⟨herr, hm⟩
    · simp only [topologizeAll, hcall]
      exact ih (hi.joined hbc (hnew c List.mem_cons_self) hj) hd hb' (fresh_insert hc hnew')
    · have hrun : topologizeAll (c :: cs) (S, t) = topologizeAll cs (S, t') := by
        cases err with
        | none => exact absurd rfl herr
        | _ => simp only [topologizeAll, hcall]
      rw [hrun]
      exact ih (hi.missed hm).1 hd hb' hnew'

theorem Inv.represents {S : Finset Reg} {t : Topology} (hi : Inv S t) :
    Represents S t.zone := by
  refine ⟨hi.packages, fun n hn hcard => ?_⟩
  rcases hi.cores n hn with ⟨-, hle⟩ | ⟨-, hg, -⟩
  · rw [members_of hi.packages hn] at hcard
    have := (hcard.trans Finset.card_image_le).trans hle
    omega
  · exact hg

theorem Inv.partitioned {S : Finset Reg} {t : Topology} (hi : Inv S t) :
    Partitioned t.zone := by
  intro n hn
  refine ⟨hi.packages.nonempty _ (mem_groupsOf hn), fun hsub => ?_⟩
  rcases hi.cores n hn with ⟨hnil, -⟩ | ⟨-, hg, hleaf⟩
  · exact absurd hnil hsub
  have hinj : Set.InjOn Reg.aid (inPkg S n.groupid) :=
    hi.aids.mono (Finset.coe_subset.mpr (Finset.filter_subset _ _))
  refine ⟨fun cpu => ?_, ?_, fun c hc => ⟨hg.nonempty _ (mem_groupsOf hc), hleaf c hc⟩⟩
  · have hmem := members_of hi.packages hn
    have hunion := hg.union cpu
    rw [inPkg, ← hmem] at hunion
    rw [hunion]
    simp [groupsOf]
  · have hdisj := hg.disjoint hinj
    rw [groupsOf, List.pairwise_map] at hdisj
    exact hdisj

/-! ## When memory suffices -/

/-- An allocator that gives every node its memory. -/
def ZoneMallocs.all : ZoneMallocs := ⟨true, true, true⟩

/-- Only a package of more than one CPU has a list of cores. -/
def Whole (zone : List TorqueTopt) : Prop :=
  ∀ n ∈ zone, n.sub ≠ [] → 2 ≤ n.schedulable.cpus.card

theorem Joined.whole {S : Finset Reg} {t t' : Topology} {r : Reg} {f : Focus}
    {sg : TorqueTopt} (hi : Inv S t) (hr : r.aid < cpuSetsize)
    (hnew : r.aid ∉ S.image Reg.aid) (h : Joined t t' r f sg) (hw : Whole t.zone) :
    Whole t'.zone := by
  obtain ⟨malloc, hf⟩ := h.found
  intro n hn hsub
  rw [h.zone] at hn
  rcases mem_list hn with rfl | hrest
  · rcases h.node with ⟨hempty, rfl⟩ | ⟨hne, -⟩
    · rcases findSchedGroup_list hf with ⟨hmem, -⟩ | ⟨hmade, -⟩
      · exact absurd hempty (hi.packages.nonempty _ (mem_groupsOf hmem)).ne_empty
      · rw [hmade] at hsub
        exact absurd rfl hsub
    · have hout : r.aid ∉ f.node.schedulable.cpus := by
        rw [(findSchedGroup_members hi.packages hf).2]
        exact fun hmem => hnew (Finset.image_subset_image (Finset.filter_subset _ _) hmem)
      rw [TorqueTopt.addCpu, CpuSet.set_cpus hr, h.sg_eq.2, Finset.card_insert_of_notMem hout]
      have := hne.card_pos
      omega
  · exact hw n (findSchedGroup_rest hf n hrest) hsub

theorem topologizeAll_whole {cs : List (Reg × ZoneMallocs)} {S : Finset Reg} {t : Topology}
    (hi : Inv S t) (hw : Whole t.zone) (hd : (cs.map (·.1.aid)).Nodup)
    (hb : ∀ c ∈ cs, c.1.aid < cpuSetsize) (hnew : ∀ c ∈ cs, c.1.aid ∉ S.image Reg.aid)
    (hall : ∀ c ∈ cs, c.2 = .all) :
    (topologizeAll cs (S, t)).1 = S ∪ (cs.map (·.1)).toFinset ∧
      Whole (topologizeAll cs (S, t)).2.zone := by
  induction cs generalizing S t with
  | nil => exact ⟨by simp [topologizeAll], hw⟩
  | cons c cs ih =>
    obtain ⟨hc, hd⟩ := List.nodup_cons.mp hd
    have hbc := hb c List.mem_cons_self
    have hnewc := hnew c List.mem_cons_self
    obtain ⟨t', hok, -⟩ := topologize_ok (s := t) c.1.thread c.1.core c.1.pkg c.1.cputype hbc
    have hcall : t.call c = (.none, t') := by
      rw [Topology.call, hall c List.mem_cons_self]
      exact hok
    rcases call_cases hbc hcall with ⟨-, f, sg, hj⟩ | ⟨herr, -⟩
    · simp only [topologizeAll, hcall]
      obtain ⟨h1, h2⟩ := ih (hi.joined hbc hnewc hj) (hj.whole hi hbc hnewc hw) hd
        (fun d hdm => hb d (List.mem_cons_of_mem _ hdm))
        (fresh_insert hc fun d hdm => hnew d (List.mem_cons_of_mem _ hdm))
        (fun d hdm => hall d (List.mem_cons_of_mem _ hdm))
      refine ⟨?_, h2⟩
      rw [h1, List.map_cons, List.toFinset_cons, Finset.insert_union, Finset.union_insert]
    · exact absurd rfl herr

theorem map_pair_eq {α β γ : Type} {p : α → β} {q : α → γ} {l l' : List α}
    (h : l.map p = l'.map p) (hq : ∀ a ∈ l, ∀ b ∈ l', p a = p b → q a = q b) :
    l.map (fun a => (p a, q a)) = l'.map fun a => (p a, q a) := by
  induction l generalizing l' with
  | nil =>
    cases l' with
    | nil => rfl
    | cons b l' => cases h
  | cons a l ih =>
    cases l' with
    | nil => cases h
    | cons b l' =>
      rw [List.map_cons, List.map_cons, List.cons.injEq] at h
      rw [List.map_cons, List.map_cons, h.1, hq a List.mem_cons_self b List.mem_cons_self h.1,
        ih h.2 fun c hc d hd => hq c (List.mem_cons_of_mem _ hc) d (List.mem_cons_of_mem _ hd)]

/-- The set decides the tree, where no call has failed. -/
theorem Inv.shape_unique {S : Finset Reg} {t t' : Topology} (hi : Inv S t) (hi' : Inv S t')
    (hw : Whole t.zone) (hw' : Whole t'.zone) : shape t.zone = shape t'.zone := by
  refine map_pair_eq (hi.packages.unique hi'.packages) fun n hn n' hn' heq => ?_
  obtain ⟨hid, hcpus⟩ := Prod.mk.injEq .. ▸ heq
  by_cases hcard : 2 ≤ n.schedulable.cpus.card
  · have hg := hi.represents.cores n hn hcard
    have hg' := hi'.represents.cores n' hn' (hcpus ▸ hcard)
    rw [← hid] at hg'
    exact hg.unique hg'
  · have hnil : n.sub = [] := by
      by_contra hne
      exact hcard (hw n hn hne)
    have hnil' : n'.sub = [] := by
      by_contra hne
      exact hcard (hcpus ▸ hw' n' hn' hne)
    rw [hnil, hnil']

/-- **The topology represents the CPUs whose registration succeeded.** After
any calls, whichever of their allocations failed, the tree represents the calls
that returned 0; a call that fails then leaves it so, and intact. When memory
suffices every call returns 0, and the order of the calls does not matter. -/
theorem topologizeAll_represents (cs : List (Reg × ZoneMallocs))
    (hd : (cs.map (·.1.aid)).Nodup) (hb : ∀ c ∈ cs, c.1.aid < cpuSetsize) :
    (Represents (registered cs) (topologyOf cs).zone ∧ Partitioned (topologyOf cs).zone) ∧
    (∀ c, c.1.aid < cpuSetsize → ((topologyOf cs).call c).1 ≠ .none →
      Represents (registered cs) ((topologyOf cs).call c).2.zone ∧
        Partitioned ((topologyOf cs).call c).2.zone ∧
        Intact (topologyOf cs).zone ((topologyOf cs).call c).2.zone) ∧
    ((∀ c ∈ cs, c.2 = .all) → registered cs = (cs.map (·.1)).toFinset ∧
      ∀ cs' : List (Reg × ZoneMallocs), (∀ c ∈ cs', c.2 = .all) →
        (cs'.map (·.1)).Perm (cs.map (·.1)) →
        shape (topologyOf cs').zone = shape (topologyOf cs).zone) := by
  have hi : Inv (registered cs) (topologyOf cs) := topologizeAll_inv Inv.empty hd hb (by simp)
  refine ⟨⟨hi.represents, hi.partitioned⟩, ?_, ?_⟩
  · intro c hc herr
    rcases hcall : (topologyOf cs).call c with ⟨err, t'⟩
    rw [hcall] at herr
    rcases call_cases hc hcall with ⟨hnone, -⟩ | ⟨-, hm⟩
    · exact absurd hnone herr
    · obtain ⟨hi', hintact⟩ := hi.missed hm
      exact ⟨hi'.represents, hi'.partitioned, hintact⟩
  · intro hall
    have hwhole : Whole [] := by simp [Whole]
    have hrun : ∀ cs : List (Reg × ZoneMallocs), (cs.map (·.1.aid)).Nodup →
        (∀ c ∈ cs, c.1.aid < cpuSetsize) → (∀ c ∈ cs, c.2 = .all) →
        registered cs = (cs.map (·.1)).toFinset ∧ Whole (topologyOf cs).zone := by
      intro cs hd hb hall
      have hw := topologizeAll_whole Inv.empty hwhole hd hb (by simp) hall
      rw [Finset.empty_union] at hw
      exact hw
    obtain ⟨hS, hw⟩ := hrun cs hd hb hall
    refine ⟨hS, fun cs' hall' hperm => ?_⟩
    have hd' : (cs'.map (·.1.aid)).Nodup := by
      have := (hperm.map Reg.aid).nodup_iff
      rw [List.map_map, List.map_map] at this
      exact this.mpr hd
    have hb' : ∀ c ∈ cs', c.1.aid < cpuSetsize := by
      intro c hc
      obtain ⟨d, hdm, heq⟩ := List.mem_map.mp (hperm.mem_iff.mp (List.mem_map_of_mem hc))
      exact heq ▸ hb d hdm
    have hi' : Inv (registered cs') (topologyOf cs') :=
      topologizeAll_inv Inv.empty hd' hb' (by simp)
    obtain ⟨hS', hw'⟩ := hrun cs' hd' hb' hall'
    rw [List.toFinset_eq_of_perm _ _ hperm, ← hS] at hS'
    rw [hS'] at hi'
    exact hi'.shape_unique hi hw' hw

/-- Two CPUs of one package, in either order. -/
theorem topologizeAll_represents_swapped :
    shape (topologyOf [(⟨2, 0, 0, 0, 0⟩, .all), (⟨3, 0, 1, 0, 0⟩, .all)]).zone =
      shape (topologyOf [(⟨3, 0, 1, 0, 0⟩, .all), (⟨2, 0, 0, 0, 0⟩, .all)]).zone :=
  ((topologizeAll_represents [(⟨3, 0, 1, 0, 0⟩, .all), (⟨2, 0, 0, 0, 0⟩, .all)]
    (by decide) (by decide)).2.2 (by simp)).2
    [(⟨2, 0, 0, 0, 0⟩, .all), (⟨3, 0, 1, 0, 0⟩, .all)] (by simp) (List.Perm.swap ..)

end Libtorque.Hardware
