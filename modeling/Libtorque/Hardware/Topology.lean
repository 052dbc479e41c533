import Libtorque.Errors
import Libtorque.Hardware.CpuSet

/-! # The scheduling topology: `topologize`

The topology is a list of packages sorted by `groupid`; a package with more
than one CPU carries a list of cores. The per-CPU notes taken on the way
(`struct top_map`) are an array indexed by CPU number; `touched` lists the
elements of it that were read or written. -/
namespace Libtorque.Hardware

/-- `torque_topt`. The `next` pointers are the list the node stands in. -/
structure TorqueTopt where
  schedulable : CpuSet
  groupid : Nat
  cpudesc : Nat
  sub : List TorqueTopt

/-- `struct top_map` -/
structure TopMap where
  thread : Nat := 0
  core : Nat := 0
  package : Nat := 0
deriving DecidableEq, Repr

structure Topology where
  zone : List TorqueTopt := []
  tm : Nat → TopMap := fun _ => {}
  touched : List Nat := []

/-- Which of the three `create_zone` calls of one `topologize` would get their
memory. -/
structure ZoneMallocs where
  package : Bool
  first : Bool
  core : Bool
deriving DecidableEq, Repr

def createZone (id cputype : Nat) : TorqueTopt :=
  { schedulable := .zero, groupid := id, cpudesc := cputype, sub := [] }

/-- A node of a list, with the nodes before and after it: the pointer that
`find_sched_group` returns. -/
structure Focus where
  before : List TorqueTopt
  node : TorqueTopt
  after : List TorqueTopt

def Focus.list (f : Focus) : List TorqueTopt := f.before ++ f.node :: f.after

/-- `find_sched_group`: the node of the group, inserted in order when it is
missing; `none` when that needs memory there is not. -/
def findSchedGroup (malloc : Bool) (id cputype : Nat) : List TorqueTopt → Option Focus
  | [] => if malloc then some ⟨[], createZone id cputype, []⟩ else none
  | n :: rest =>
    if n.groupid = id then some ⟨[], n, rest⟩
    else if n.groupid > id then
      if malloc then some ⟨[], createZone id cputype, n :: rest⟩ else none
    else (findSchedGroup malloc id cputype rest).map fun f => { f with before := n :: f.before }

/-- `CPU_SET(aid, &n->schedulable)` -/
def TorqueTopt.addCpu (n : TorqueTopt) (aid : Nat) : TorqueTopt :=
  { n with schedulable := n.schedulable.set aid }

/-- The block under `sg->sub == NULL`: a package gets its list of cores when a
second CPU arrives, holding the core of the first. The list names the element
of the top map that is read. -/
def openSub (malloc : Bool) (tm : Nat → TopMap) (cputype : Nat) (sg : TorqueTopt) :
    TorqueErr × TorqueTopt × List Nat :=
  match sg.sub with
  | _ :: _ => (.none, sg, [])
  | [] =>
    let oid := sg.schedulable.firstAid
    if cpuSetsize ≤ oid then (.assert, sg, [])
    else if malloc then
      (.none, { sg with sub := [(createZone (tm oid).core cputype).addCpu oid] }, [oid])
    else (.resource, sg, [oid])

/-- The block under `share_level(sg)`. -/
def topologizeCore (mem : ZoneMallocs) (tm : Nat → TopMap) (aid core cputype : Nat)
    (sg : TorqueTopt) : TorqueErr × TorqueTopt × List Nat :=
  match openSub mem.first tm cputype sg with
  | (.none, sg, read) => match findSchedGroup mem.core core cputype sg.sub with
    | none => (.resource, sg, read)
    | some sc => (.none, { sg with sub := { sc with node := sc.node.addCpu aid }.list }, read)
  | failed => failed

/-- `topologize` -/
def topologize (mem : ZoneMallocs) (s : Topology) (aid thread core pkg cputype : Nat) :
    TorqueErr × Topology :=
  if cpuSetsize ≤ aid then (.assert, s)
  else match findSchedGroup mem.package pkg cputype s.zone with
    | none => (.resource, s)
    | some f =>
      let (err, sg, read) :=
        if f.node.schedulable.shareLevel then topologizeCore mem s.tm aid core cputype f.node
        else (.none, f.node, [])
      if err = .none then
        (.none, { zone := { f with node := sg.addCpu aid }.list
                  tm := fun i => if i = aid then ⟨thread, core, pkg⟩ else s.tm i
                  touched := s.touched ++ read ++ [aid] })
      else (err, { s with zone := { f with node := sg }.list, touched := s.touched ++ read })

/-! ## Where the top map is touched -/

/-- The CPUs of a package come from `cpus`. -/
def ZoneWithin (cpus : Finset Nat) (zone : List TorqueTopt) : Prop :=
  ∀ n ∈ zone, n.schedulable.cpus ⊆ cpus

theorem findSchedGroup_list {malloc : Bool} {id cputype : Nat} {zone : List TorqueTopt}
    {f : Focus} (h : findSchedGroup malloc id cputype zone = some f) :
    (f.node ∈ zone ∧ f.list = zone) ∨
      (f.node = createZone id cputype ∧ f.before ++ f.after = zone) := by
  induction zone generalizing f with
  | nil =>
    simp only [findSchedGroup] at h
    split at h
    · cases h; exact .inr ⟨rfl, rfl⟩
    · cases h
  | cons n rest ih =>
    simp only [findSchedGroup] at h
    split at h
    · cases h; exact .inl ⟨by simp, rfl⟩
    · split at h
      · split at h
        · cases h; exact .inr ⟨rfl, rfl⟩
        · cases h
      · obtain ⟨g, hg, rfl⟩ := Option.map_eq_some_iff.mp h
        rcases ih hg with ⟨hm, hl⟩ | ⟨hn, hl⟩
        · exact .inl ⟨List.mem_cons_of_mem _ hm, by simp [Focus.list, ← hl]⟩
        · exact .inr ⟨hn, by simp [hl]⟩

theorem findSchedGroup_within {malloc : Bool} {id cputype : Nat} {zone : List TorqueTopt}
    {f : Focus} {cpus : Finset Nat} (h : findSchedGroup malloc id cputype zone = some f)
    (hz : ZoneWithin cpus zone) :
    f.node.schedulable.cpus ⊆ cpus ∧ (∀ n ∈ f.before ++ f.after, n.schedulable.cpus ⊆ cpus) := by
  rcases findSchedGroup_list h with ⟨hm, hl⟩ | ⟨hn, hl⟩
  · refine ⟨hz _ hm, fun n hn => hz n ?_⟩
    rw [← hl, Focus.list]
    simp only [List.mem_append, List.mem_cons] at hn ⊢
    tauto
  · refine ⟨by simp [hn, createZone], fun n hn => hz n (hl ▸ hn)⟩

theorem zoneWithin_focus {f : Focus} {cpus : Finset Nat}
    (hn : f.node.schedulable.cpus ⊆ cpus)
    (hr : ∀ n ∈ f.before ++ f.after, n.schedulable.cpus ⊆ cpus) : ZoneWithin cpus f.list := by
  intro n hm
  simp only [Focus.list, List.mem_append, List.mem_cons] at hm
  rcases hm with hm | rfl | hm
  · exact hr n (by simp [hm])
  · exact hn
  · exact hr n (by simp [hm])

theorem openSub_spec (malloc : Bool) (tm : Nat → TopMap) (cputype : Nat) {sg : TorqueTopt}
    (hs : sg.schedulable.cpus.Nonempty) :
    (openSub malloc tm cputype sg).2.1.schedulable = sg.schedulable ∧
      ∀ i ∈ (openSub malloc tm cputype sg).2.2, i ∈ sg.schedulable.cpus := by
  unfold openSub
  split
  · simp
  · dsimp only
    split
    · simp
    · split <;> simp [CpuSet.firstAid_mem hs]

theorem topologizeCore_spec (mem : ZoneMallocs) (tm : Nat → TopMap) (aid core cputype : Nat)
    {sg : TorqueTopt} (hs : sg.schedulable.cpus.Nonempty) :
    (topologizeCore mem tm aid core cputype sg).2.1.schedulable = sg.schedulable ∧
      ∀ i ∈ (topologizeCore mem tm aid core cputype sg).2.2, i ∈ sg.schedulable.cpus := by
  have h := openSub_spec mem.first tm cputype hs
  unfold topologizeCore
  split
  · rename_i sg' read heq
    rw [heq] at h
    split
    · exact h
    · exact h
  · exact h

/-- One call touches the element of its own CPU if it succeeds, and that of the
first CPU of the package. -/
theorem topologize_touched (mem : ZoneMallocs) {s : Topology} {aid : Nat}
    (thread core pkg cputype : Nat) {cpus : Finset Nat}
    (ha : (topologize mem s aid thread core pkg cputype).1 = .none → aid ∈ cpus)
    (hz : ZoneWithin cpus s.zone) (ht : ∀ i ∈ s.touched, i ∈ cpus) :
    ZoneWithin cpus (topologize mem s aid thread core pkg cputype).2.zone ∧
      ∀ i ∈ (topologize mem s aid thread core pkg cputype).2.touched, i ∈ cpus := by
  revert ha
  unfold topologize
  split
  · exact fun _ => ⟨hz, ht⟩
  rename_i hlt
  split
  · exact fun _ => ⟨hz, ht⟩
  rename_i f hf
  obtain ⟨hn, hr⟩ := findSchedGroup_within hf hz
  -- what the block under `share_level` does to the node, and what it reads
  obtain ⟨err, sg, read, hsg, hread, heq⟩ : ∃ err sg read,
      sg.schedulable = f.node.schedulable ∧ (∀ i ∈ read, i ∈ f.node.schedulable.cpus) ∧
      (if f.node.schedulable.shareLevel then topologizeCore mem s.tm aid core cputype f.node
        else (.none, f.node, [])) = (err, sg, read) := by
    by_cases hs : f.node.schedulable.shareLevel = true
    · obtain ⟨h1, h2⟩ := topologizeCore_spec mem s.tm aid core cputype
        ((CpuSet.shareLevel_iff _).mp hs)
      exact ⟨_, _, _, h1, h2, by rw [if_pos hs]⟩
    · exact ⟨.none, f.node, [], rfl, by simp, by rw [if_neg hs]⟩
  rw [heq]
  have hread' : ∀ i ∈ s.touched ++ read, i ∈ cpus := by
    intro i hi
    rcases List.mem_append.mp hi with hi | hi
    · exact ht i hi
    · exact hn (hread i hi)
  dsimp only
  split
  · intro ha
    replace ha : aid ∈ cpus := ha rfl
    refine ⟨zoneWithin_focus ?_ hr, ?_⟩
    · rw [TorqueTopt.addCpu, CpuSet.set_cpus (by omega), hsg]
      exact Finset.insert_subset ha hn
    · intro i hi
      rcases List.mem_append.mp hi with hi | hi
      · exact hread' i hi
      · rw [List.mem_singleton.mp hi]; exact ha
  · exact fun _ => ⟨zoneWithin_focus (by rw [hsg]; exact hn) hr, hread'⟩

/-! ## When memory suffices -/

theorem findSchedGroup_some (id cputype : Nat) (zone : List TorqueTopt) :
    ∃ f, findSchedGroup true id cputype zone = some f := by
  induction zone with
  | nil => exact ⟨_, rfl⟩
  | cons n rest ih =>
    obtain ⟨f, hf⟩ := ih
    simp only [findSchedGroup, hf, Option.map_some]
    split
    · exact ⟨_, rfl⟩
    · split <;> exact ⟨_, rfl⟩

theorem openSub_ok (tm : Nat → TopMap) (cputype : Nat) {sg : TorqueTopt}
    (hs : sg.schedulable.cpus.Nonempty) : (openSub true tm cputype sg).1 = .none := by
  have := sg.schedulable.bounded _ (CpuSet.firstAid_mem hs)
  unfold openSub
  split
  · rfl
  · simp [Nat.not_le.mpr this]

theorem topologizeCore_ok {tm : Nat → TopMap} {aid core cputype : Nat} {sg : TorqueTopt}
    (hs : sg.schedulable.cpus.Nonempty) :
    (topologizeCore ⟨true, true, true⟩ tm aid core cputype sg).1 = .none := by
  have h := openSub_ok tm cputype hs
  unfold topologizeCore
  split
  · rename_i sg' read heq
    obtain ⟨f, hf⟩ := findSchedGroup_some core cputype sg'.sub
    simp [hf]
  · exact h

/-- A call that gets its memory succeeds, and touches the element of its CPU. -/
theorem topologize_ok {s : Topology} {aid : Nat} (thread core pkg cputype : Nat)
    (ha : aid < cpuSetsize) :
    ∃ t, topologize ⟨true, true, true⟩ s aid thread core pkg cputype = (.none, t) ∧
      aid ∈ t.touched ∧ ∀ i ∈ s.touched, i ∈ t.touched := by
  obtain ⟨f, hf⟩ := findSchedGroup_some pkg cputype s.zone
  obtain ⟨sg, read, heq⟩ : ∃ sg read,
      (if f.node.schedulable.shareLevel then
        topologizeCore ⟨true, true, true⟩ s.tm aid core cputype f.node
        else (.none, f.node, [])) = (.none, sg, read) := by
    by_cases hs : f.node.schedulable.shareLevel = true
    · rw [if_pos hs]
      exact ⟨_, _, Prod.ext (topologizeCore_ok ((CpuSet.shareLevel_iff _).mp hs)) rfl⟩
    · rw [if_neg hs]; exact ⟨_, _, rfl⟩
  unfold topologize
  rw [if_neg (by omega), hf]
  dsimp only
  rw [heq]
  refine ⟨_, rfl, by simp, fun i hi => by simp [hi]⟩

/-- A call that succeeds touches the element of its CPU. -/
theorem topologize_touches {mem : ZoneMallocs} {s t : Topology}
    {aid thread core pkg cputype : Nat}
    (h : topologize mem s aid thread core pkg cputype = (.none, t)) :
    aid ∈ t.touched ∧ ∀ i ∈ s.touched, i ∈ t.touched := by
  unfold topologize at h
  split at h
  · cases h
  split at h
  · cases h
  rename_i f hf
  generalize (if f.node.schedulable.shareLevel then
    topologizeCore mem s.tm aid core cputype f.node else (.none, f.node, [])) = grouped at h
  obtain ⟨err, sg, read⟩ := grouped
  dsimp only at h
  split at h
  · cases h
    exact ⟨by simp, fun i hi => by simp [hi]⟩
  · rename_i herr
    exact absurd (Prod.mk.inj h).1 herr

end Libtorque.Hardware
