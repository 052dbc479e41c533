import Libtorque.Hardware.Groups

/-! # Looking a CPU up

`lookup_aid` descends to the leaf that holds a CPU. The leaf of a core gets its
type when it is made: the first core of a package is made for the package's
second CPU. -/
namespace Libtorque.Hardware

open Lib

/-- `torque_cpu_getdesc`; a descriptor is known by its place in the table. -/
def torqueCpuGetdesc (typecount n : Nat) : Option Nat := if n ≥ typecount then none else some n

/-- `lookup_aid_intop`, whose loop ends with the list. -/
def lookupAidIntop (typecount aid : Nat) : List TorqueTopt → Option Nat
  | [] => none
  | ⟨schedulable, _, cpudesc, sub⟩ :: next =>
    if schedulable.isset aid then
      if sub.isEmpty then torqueCpuGetdesc typecount cpudesc
      else lookupAidIntop typecount aid sub
    else lookupAidIntop typecount aid next

/-- `lookup_aid`, which reads the first node of the topology: `none` when there
is none to read. -/
def lookupAid (typecount : Nat) (t : Topology) (aid : Nat) : Option (Option Nat) :=
  if t.zone.isEmpty then none else some (lookupAidIntop typecount aid t.zone)

/-- One call after another as long as each returns 0. -/
def callAll : List (Reg × ZoneMallocs) → Topology → Option Topology
  | [], t => some t
  | c :: cs, t => match t.call c with
    | (.none, t) => callAll cs t
    | _ => none

/-- A leaf cannot be heterogeneous. -/
def Homogeneous (rs : List Reg) : Prop :=
  ∀ r ∈ rs, ∀ s ∈ rs, r.pkg = s.pkg → r.core = s.core → r.cputype = s.cputype

/-- Every CPU is found with its type, and no other number is found. -/
def LooksUp (typecount : Nat) (rs : List Reg) (t : Topology) : Prop :=
  (∀ r ∈ rs, lookupAid typecount t r.aid = some (some r.cputype)) ∧
    ∀ aid < cpuSetsize, aid ∉ rs.map Reg.aid → lookupAid typecount t aid = some none

/-- The first two CPUs of each package are of one type. -/
def FirstTwoAlike (rs : List Reg) : Prop :=
  ∀ pkg a b rest, rs.filter (fun r => r.pkg = pkg) = a :: b :: rest → a.cputype = b.cputype

/-- The type kept for a CPU among those of its package. -/
def leafType (P : List Reg) (r : Reg) : Nat :=
  match P with
  | a :: b :: _ => if r.core = a.core then b.cputype else r.cputype
  | _ => r.cputype

/-! ## The types of the leaves -/

/-- The CPUs of a package, in the order of their registration. -/
def pkgOf (rs : List Reg) (pkg : Nat) : List Reg := rs.filter fun r => r.pkg = pkg

theorem mem_pkgOf {rs : List Reg} {pkg : Nat} {r : Reg} :
    r ∈ pkgOf rs pkg ↔ r ∈ rs ∧ r.pkg = pkg := by
  simp [pkgOf]

theorem pkgOf_append_ne (rs : List Reg) {r : Reg} {pkg : Nat} (h : r.pkg ≠ pkg) :
    pkgOf (rs ++ [r]) pkg = pkgOf rs pkg := by
  simp [pkgOf, h]

theorem pkgOf_append_eq (rs : List Reg) (r : Reg) :
    pkgOf (rs ++ [r]) r.pkg = pkgOf rs r.pkg ++ [r] := by
  simp [pkgOf]

theorem inPkg_toFinset (rs : List Reg) (pkg : Nat) :
    inPkg rs.toFinset pkg = (pkgOf rs pkg).toFinset := by
  ext r
  simp [inPkg, pkgOf]

/-- What the nodes of a package say of the types of its CPUs `P`. -/
structure NodeTyped (P : List Reg) (cpudesc : Nat) (sub : List TorqueTopt) : Prop where
  lone : sub = [] → ∀ r ∈ P, cpudesc = r.cputype
  many : sub ≠ [] → 2 ≤ P.length
  leaves : ∀ c ∈ sub, ∀ r ∈ P, r.core = c.groupid → c.cpudesc = leafType P r

/-- What the tree says of the types of the CPUs `rs`. -/
def Typed (rs : List Reg) (t : Topology) : Prop :=
  ∀ n ∈ t.zone, NodeTyped (pkgOf rs n.groupid) n.cpudesc n.sub

theorem leafType_append {P : List Reg} (r : Reg) {s : Reg} (h : 2 ≤ P.length) :
    leafType (P ++ [r]) s = leafType P s := by
  match P, h with
  | a :: b :: rest, _ => rfl

/-- Two CPUs of one core have the same type kept. -/
theorem leafType_eq {P : List Reg} {r s : Reg} (hcore : r.core = s.core)
    (htype : r.cputype = s.cputype) : leafType P r = leafType P s := by
  unfold leafType
  rw [hcore, htype]

/-- A CPU on a core of its own keeps its type. -/
theorem leafType_alone {P : List Reg} {r : Reg} (h : ∀ s ∈ P, s.core ≠ r.core) :
    leafType P r = r.cputype := by
  unfold leafType
  split
  · rename_i a b rest
    rw [if_neg fun heq => h a List.mem_cons_self heq.symm]
  · rfl

theorem leafType_alone_of {P : List Reg} (h : P.toFinset.card ≤ 1) (hd : P.Nodup) (r : Reg) :
    leafType P r = r.cputype := by
  rw [List.toFinset_card_of_nodup hd] at h
  match P, h with
  | [], _ => rfl
  | [a], _ => rfl

/-- The second CPU of a package gives its type to the core of the first. -/
theorem nodeTyped_second {tm : Nat → TopMap} {n : TorqueTopt} {a r : Reg} {malloc : Bool}
    {g : Focus} {cpudesc : Nat} (hsub : n.sub = [])
    (hg : findSchedGroup malloc r.core r.cputype (openedSub tm r.cputype n) = some g) :
    NodeTyped [a, r] cpudesc { g with node := g.node.addCpu r.aid }.list := by
  rw [openedSub_nil hsub] at hg
  have hdesc : ∀ c ∈ { g with node := g.node.addCpu r.aid }.list, c.cpudesc = r.cputype := by
    intro c hc
    rcases mem_list hc with rfl | hc
    · rcases findSchedGroup_list hg with ⟨hmem, -⟩ | ⟨hmade, -⟩
      · have hnode := List.mem_singleton.mp hmem
        have : (g.node.addCpu r.aid).cpudesc = g.node.cpudesc := rfl
        rw [this, hnode]
        rfl
      · have : (g.node.addCpu r.aid).cpudesc = g.node.cpudesc := rfl
        rw [this, hmade]
        rfl
    · rw [List.mem_singleton.mp (findSchedGroup_rest hg c hc)]
      rfl
  refine ⟨fun hnil => ?_, fun _ => by simp, fun c hc s hs hcore => ?_⟩
  · exact absurd hnil (by simp [Focus.list])
  · rw [hdesc c hc]
    rcases List.mem_cons.mp hs with rfl | hs
    · simp [leafType]
    · rw [List.mem_singleton.mp hs]
      simp [leafType]

/-- A later CPU of a package joins its core, or makes it. -/
theorem nodeTyped_later {P : List Reg} {sub : List TorqueTopt} {r : Reg} {malloc : Bool}
    {g : Focus} {cpudesc : Nat} (hp : 2 ≤ P.length)
    (hgroups : Groups P.toFinset Reg.core Reg.aid (groupsOf sub))
    (hleaves : ∀ c ∈ sub, ∀ s ∈ P, s.core = c.groupid → c.cpudesc = leafType P s)
    (hhom : ∀ s ∈ P, s.core = r.core → s.cputype = r.cputype)
    (hg : findSchedGroup malloc r.core r.cputype sub = some g) :
    NodeTyped (P ++ [r]) cpudesc { g with node := g.node.addCpu r.aid }.list := by
  -- a core that was there says the same of the new CPU
  have hold : ∀ c ∈ sub, ∀ s ∈ P ++ [r], s.core = c.groupid → c.cpudesc = leafType P s := by
    intro c hc s hs hcore
    rcases List.mem_append.mp hs with hs | hs
    · exact hleaves c hc s hs hcore
    · rw [List.mem_singleton.mp hs] at hcore ⊢
      obtain ⟨⟨s', hs', hkey⟩, -⟩ := (hgroups.mem_iff _).mp (mem_groupsOf hc)
      have hs' := List.mem_toFinset.mp hs'
      have hsame : s'.core = r.core := hkey.trans hcore.symm
      rw [hleaves c hc s' hs' hkey]
      exact leafType_eq hsame (hhom s' hs' hsame)
  refine ⟨fun hnil => ?_, fun _ => by simp; omega, fun c hc s hs hcore => ?_⟩
  · exact absurd hnil (by simp [Focus.list])
  · rw [leafType_append r hp]
    rcases mem_list hc with rfl | hc
    · rcases findSchedGroup_list hg with ⟨hmem, -⟩ | ⟨hmade, -⟩
      · exact hold g.node hmem s hs hcore
      · -- no CPU was on this core
        obtain ⟨hid, hcpus⟩ := findSchedGroup_members hgroups hg
        rw [hmade] at hcpus
        have hnone := Finset.filter_eq_empty_iff.mp
          (Finset.image_eq_empty.mp (hcpus.symm.trans rfl))
        have halone : ∀ s ∈ P, s.core ≠ r.core :=
          fun s hs => hnone (List.mem_toFinset.mpr hs)
        have hgid : (g.node.addCpu r.aid).groupid = g.node.groupid := rfl
        have hdesc : (g.node.addCpu r.aid).cpudesc = g.node.cpudesc := rfl
        rw [hgid, hid] at hcore
        rw [hdesc, hmade]
        rcases List.mem_append.mp hs with hs | hs
        · exact absurd hcore (halone s hs)
        · rw [List.mem_singleton.mp hs, leafType_alone halone]
          rfl
    · exact hold c (findSchedGroup_rest hg c hc) s hs hcore

theorem Typed.joined {rs : List Reg} {t t' : Topology} {r : Reg} {f : Focus} {sg : TorqueTopt}
    (hi : Inv rs.toFinset t) (ht : Typed rs t) (hd : rs.Nodup) (hr : r.aid < cpuSetsize)
    (hhom : ∀ s ∈ rs, s.pkg = r.pkg → s.core = r.core → s.cputype = r.cputype)
    (h : Joined t t' r f sg) : Typed (rs ++ [r]) t' := by
  obtain ⟨malloc, hf⟩ := h.found
  obtain ⟨hid, hcpus⟩ := findSchedGroup_members hi.packages hf
  have hpack := findSchedGroup_groups hi.packages hf hr h.sg_eq.1 h.sg_eq.2
  have hgid : (sg.addCpu r.aid).groupid = r.pkg := h.sg_eq.1.trans hid
  intro n hn
  rw [h.zone] at hn
  rcases mem_list hn with rfl | hrest
  · rw [hgid, pkgOf_append_eq]
    have hP : (pkgOf rs r.pkg).toFinset.image Reg.aid = f.node.schedulable.cpus := by
      rw [← inPkg_toFinset]
      exact hcpus.symm
    rcases h.node with ⟨hempty, rfl⟩ | ⟨hne, m, g, hg, rfl⟩
    · rw [hempty, Finset.image_eq_empty, List.toFinset_eq_empty_iff] at hP
      rcases findSchedGroup_list hf with ⟨hmem, -⟩ | ⟨hmade, -⟩
      · exact absurd hempty (hi.packages.nonempty _ (mem_groupsOf hmem)).ne_empty
      · rw [hP, hmade]
        refine ⟨fun _ s hs => ?_, fun hsub => absurd rfl hsub, fun c hc => ?_⟩
        swap
        · simp [TorqueTopt.addCpu, createZone] at hc
        rw [List.mem_singleton.mp hs]
        rfl
    · have hmem := findSchedGroup_old hf hne
      have hcores := hi.cores _ hmem
      have htyped := ht _ hmem
      rw [hid] at htyped
      rw [hid, inPkg_toFinset] at hcores
      rcases hcores with ⟨hsub, hcard⟩ | ⟨hsub, hgroups, -⟩
      · -- the second CPU of the package
        obtain ⟨a, ha⟩ : ∃ a, pkgOf rs r.pkg = [a] := by
          have hnodup : (pkgOf rs r.pkg).Nodup := hd.filter _
          rw [List.toFinset_card_of_nodup hnodup] at hcard
          have hpos : pkgOf rs r.pkg ≠ [] := by
            intro hnil
            rw [hnil] at hP
            exact hne.ne_empty (hP.symm.trans rfl)
          have := List.length_pos_iff.mpr hpos
          exact List.length_eq_one_iff.mp (by omega)
        rw [ha]
        exact nodeTyped_second hsub hg
      · rw [openedSub_cons hsub] at hg
        refine nodeTyped_later (htyped.many hsub) hgroups htyped.leaves (fun s hs hcore => ?_) hg
        obtain ⟨hs, hpkg⟩ := mem_pkgOf.mp hs
        exact hhom s hs hpkg hcore
  · have hne : n.groupid ≠ r.pkg := hgid ▸ others_ne (pairwise_groupid hpack) n hrest
    rw [pkgOf_append_ne rs hne.symm]
    exact ht n (findSchedGroup_rest hf n hrest)

/-! ## The lookup -/

/-- The lookup ends at a node that holds the CPU, if there is one. -/
theorem lookupAidIntop_cases (typecount aid : Nat) (zone : List TorqueTopt) :
    (∃ n ∈ zone, aid ∈ n.schedulable.cpus ∧ lookupAidIntop typecount aid zone =
      if n.sub.isEmpty then torqueCpuGetdesc typecount n.cpudesc
      else lookupAidIntop typecount aid n.sub) ∨
    ((∀ n ∈ zone, aid ∉ n.schedulable.cpus) ∧ lookupAidIntop typecount aid zone = none) := by
  induction zone with
  | nil => exact .inr ⟨by simp, by rw [lookupAidIntop]⟩
  | cons n next ih =>
    obtain ⟨schedulable, groupid, cpudesc, sub⟩ := n
    rw [lookupAidIntop]
    by_cases hin : aid ∈ schedulable.cpus
    · rw [if_pos ((CpuSet.isset_iff ..).mpr hin)]
      exact .inl ⟨_, List.mem_cons_self, hin, rfl⟩
    · rw [if_neg fun h => hin ((CpuSet.isset_iff ..).mp h)]
      rcases ih with ⟨n, hn, hmem, heq⟩ | ⟨hnone, heq⟩
      · exact .inl ⟨n, List.mem_cons_of_mem _ hn, hmem, heq⟩
      · refine .inr ⟨fun n hn => ?_, heq⟩
        rcases List.mem_cons.mp hn with rfl | hn
        · exact hin
        · exact hnone n hn

/-- The node of a CPU, by the groups that the list makes. -/
theorem lookup_node (typecount : Nat) {S : Finset Reg} {key : Reg → Nat}
    {zone : List TorqueTopt} {r : Reg} (hg : Groups S key Reg.aid (groupsOf zone))
    (hinj : Set.InjOn Reg.aid S) (hr : r ∈ S) :
    ∃ n ∈ zone, n.groupid = key r ∧ lookupAidIntop typecount r.aid zone =
      if n.sub.isEmpty then torqueCpuGetdesc typecount n.cpudesc
      else lookupAidIntop typecount r.aid n.sub := by
  rcases lookupAidIntop_cases typecount r.aid zone with ⟨n, hn, hmem, heq⟩ | ⟨hnone, -⟩
  · exact ⟨n, hn, hg.key_of_mem hinj hr (mem_groupsOf hn) hmem, heq⟩
  · obtain ⟨g, hgm, hmem⟩ := (hg.union r.aid).mp (Finset.mem_image_of_mem _ hr)
    obtain ⟨n, hn, rfl⟩ := List.mem_map.mp hgm
    exact absurd hmem (hnone n hn)

/-- The type that the lookup finds for a CPU. -/
theorem lookup_leaf {rs : List Reg} {t : Topology} {typecount : Nat}
    (hi : Inv rs.toFinset t) (ht : Typed rs t) (hd : rs.Nodup) {r : Reg} (hr : r ∈ rs) :
    lookupAidIntop typecount r.aid t.zone =
      torqueCpuGetdesc typecount (leafType (pkgOf rs r.pkg) r) := by
  have hrS : r ∈ rs.toFinset := List.mem_toFinset.mpr hr
  have hrP : r ∈ pkgOf rs r.pkg := mem_pkgOf.mpr ⟨hr, rfl⟩
  obtain ⟨n, hn, hid, heq⟩ := lookup_node typecount hi.packages hi.aids hrS
  have htyped := ht n hn
  have hcores := hi.cores n hn
  rw [hid] at htyped hcores
  rw [heq]
  rcases hcores with ⟨hsub, hcard⟩ | ⟨hsub, hgroups, hleaf⟩
  · -- alone in its package
    have hnodup : (pkgOf rs r.pkg).Nodup := hd.filter _
    rw [inPkg_toFinset] at hcard
    rw [hsub, htyped.lone hsub r hrP, leafType_alone_of hcard hnodup r]
    rfl
  · have hinj : Set.InjOn Reg.aid (inPkg rs.toFinset r.pkg) :=
      hi.aids.mono (Finset.coe_subset.mpr (Finset.filter_subset _ _))
    obtain ⟨c, hc, hkey, hceq⟩ := lookup_node typecount hgroups hinj
      (Finset.mem_filter.mpr ⟨hrS, rfl⟩)
    rw [if_neg (by simpa using hsub), hceq, hleaf c hc,
      htyped.leaves c hc r hrP hkey.symm]
    rfl

theorem lookup_none {S : Finset Reg} {t : Topology} {typecount aid : Nat} (hi : Inv S t)
    (h : aid ∉ S.image Reg.aid) : lookupAidIntop typecount aid t.zone = none := by
  rcases lookupAidIntop_cases typecount aid t.zone with ⟨n, hn, hmem, -⟩ | ⟨-, heq⟩
  · exact absurd ((hi.packages.union aid).mpr ⟨_, mem_groupsOf hn, hmem⟩) h
  · exact heq

/-! ## Runs -/

theorem call_bound {t t' : Topology} {c : Reg × ZoneMallocs} (h : t.call c = (.none, t')) :
    c.1.aid < cpuSetsize := by
  unfold Topology.call topologize at h
  by_contra hge
  rw [if_pos (by omega)] at h
  cases h

theorem callAll_typed {cs : List (Reg × ZoneMallocs)} {rs : List Reg} {t t' : Topology}
    (hi : Inv rs.toFinset t) (ht : Typed rs t)
    (hd : ((rs ++ cs.map (·.1)).map Reg.aid).Nodup)
    (hhom : Homogeneous (rs ++ cs.map (·.1))) (h : callAll cs t = some t') :
    Inv (rs ++ cs.map (·.1)).toFinset t' ∧ Typed (rs ++ cs.map (·.1)) t' := by
  induction cs generalizing rs t with
  | nil =>
    cases h
    rw [List.map_nil, List.append_nil]
    exact ⟨hi, ht⟩
  | cons c cs ih =>
    have happ : rs ++ (c :: cs).map (·.1) = (rs ++ [c.1]) ++ cs.map (·.1) := by simp
    rw [happ] at hd hhom ⊢
    rcases hcall : t.call c with ⟨err, t''⟩
    cases err with
    | none =>
      simp only [callAll, hcall] at h
      have hbound : c.1.aid < cpuSetsize := call_bound hcall
      rcases call_cases hbound hcall with ⟨-, f, sg, hj⟩ | ⟨herr, -⟩
      swap
      · exact absurd rfl herr
      have hd' := hd
      rw [List.map_append, List.map_append, List.nodup_append, List.nodup_append] at hd'
      have hnew : c.1.aid ∉ rs.toFinset.image Reg.aid := by
        rw [Finset.mem_image]
        rintro ⟨s, hs, heq⟩
        exact hd'.1.2.2 s.aid (List.mem_map_of_mem (List.mem_toFinset.mp hs)) c.1.aid
          (by simp) heq
      have hi' := hi.joined hbound hnew hj
      rw [← List.toFinset_cons, List.toFinset_eq_of_perm _ _ (List.perm_append_singleton c.1 rs).symm] at hi'
      refine ih hi' (ht.joined hi (List.Nodup.of_map _ hd'.1.1) hbound (fun s hs => ?_) hj) hd hhom h
      exact hhom s (by simp [hs]) c.1 (by simp)
    | _ =>
      simp only [callAll, hcall] at h
      cases h

/-- The types kept are the types given exactly when the first two CPUs of each
package are alike. -/
theorem leafType_iff {rs : List Reg} (hhom : Homogeneous rs) :
    (∀ r ∈ rs, leafType (pkgOf rs r.pkg) r = r.cputype) ↔ FirstTwoAlike rs := by
  constructor
  · intro h pkg a b rest hP
    have hP : pkgOf rs pkg = a :: b :: rest := hP
    obtain ⟨ha, hpkg⟩ := mem_pkgOf.mp (hP ▸ List.mem_cons_self : a ∈ pkgOf rs pkg)
    have hleaf := h a ha
    rw [hpkg, hP, leafType, if_pos rfl] at hleaf
    exact hleaf.symm
  · intro h r hr
    have hrP : r ∈ pkgOf rs r.pkg := mem_pkgOf.mpr ⟨hr, rfl⟩
    unfold leafType
    split
    · rename_i a b rest hP
      split
      · rename_i hcore
        obtain ⟨ha, hpkg⟩ := mem_pkgOf.mp (hP ▸ List.mem_cons_self : a ∈ pkgOf rs r.pkg)
        rw [← h r.pkg a b rest hP]
        exact hhom a ha r hr hpkg hcore.symm
      · rfl
    · rfl

theorem lookupAid_leaf (typecount : Nat) {cs : List (Reg × ZoneMallocs)} {t : Topology}
    (hne : cs ≠ []) (h : callAll cs {} = some t) (hd : (cs.map (·.1.aid)).Nodup)
    (htypes : ∀ c ∈ cs, c.1.cputype < typecount) (hhom : Homogeneous (cs.map (·.1))) :
    (∀ r ∈ cs.map (·.1), lookupAid typecount t r.aid =
      some (some (leafType (pkgOf (cs.map (·.1)) r.pkg) r))) ∧
    ∀ aid < cpuSetsize, aid ∉ (cs.map (·.1)).map Reg.aid →
      lookupAid typecount t aid = some none := by
  have haids : ((cs.map (·.1)).map Reg.aid).Nodup := by
    rw [List.map_map]
    exact hd
  obtain ⟨hi, ht⟩ := callAll_typed (show Inv (List.toFinset []) {} from Inv.empty) (by simp [Typed]) haids
    hhom h
  rw [List.nil_append] at hi ht
  have htc : ∀ r ∈ cs.map (·.1), r.cputype < typecount := by
    intro r hr
    obtain ⟨c, hc, rfl⟩ := List.mem_map.mp hr
    exact htypes c hc
  have hzone : t.zone.isEmpty = false := by
    obtain ⟨c, cs, rfl⟩ := List.exists_cons_of_ne_nil hne
    obtain ⟨g, hg, -⟩ := hi.packages.covers c.1 (by simp)
    rw [List.isEmpty_eq_false_iff]
    intro hnil
    rw [hnil] at hg
    cases hg
  -- the type kept is that of some CPU, so there is a descriptor for it
  have hleaf : ∀ r ∈ cs.map (·.1), leafType (pkgOf (cs.map (·.1)) r.pkg) r < typecount := by
    intro r hr
    unfold leafType
    split
    · rename_i a b rest hP
      have hb : b ∈ pkgOf (cs.map (·.1)) r.pkg := by rw [hP]; simp
      split
      · exact htc b (mem_pkgOf.mp hb).1
      · exact htc r hr
    · exact htc r hr
  constructor
  · intro r hr
    rw [lookupAid, if_neg (by simp [hzone]), lookup_leaf hi ht (List.Nodup.of_map _ haids) hr,
      torqueCpuGetdesc, if_neg (Nat.not_le.mpr (hleaf r hr))]
  · intro aid _ hout
    rw [lookupAid, if_neg (by simp [hzone]), lookup_none hi]
    rw [Finset.mem_image]
    rintro ⟨r, hr, rfl⟩
    exact hout (List.mem_map_of_mem (List.mem_toFinset.mp hr))

/-- **What `lookup_aid` finds of the registered types.** After registrations
that all succeed, every CPU is found with the type it was registered with, and
no other number is found, exactly when the first two CPUs of each package are
of one type. -/
theorem lookupAid_types_iff {cs : List (Reg × ZoneMallocs)} {t : Topology} {typecount : Nat}
    (hne : cs ≠ []) (h : callAll cs {} = some t) (hd : (cs.map (·.1.aid)).Nodup)
    (htypes : ∀ c ∈ cs, c.1.cputype < typecount) (hhom : Homogeneous (cs.map (·.1))) :
    LooksUp typecount (cs.map (·.1)) t ↔ FirstTwoAlike (cs.map (·.1)) := by
  obtain ⟨hfound, hmissing⟩ := lookupAid_leaf _ hne h hd htypes hhom
  rw [← leafType_iff hhom]
  constructor
  · intro hl r hr
    have := (hfound r hr).symm.trans (hl.1 r hr)
    exact Option.some.inj (Option.some.inj this)
  · intro hl
    exact ⟨fun r hr => by rw [hfound r hr, hl r hr], hmissing⟩

theorem callAll_ok (cs : List (Reg × ZoneMallocs)) (hb : ∀ c ∈ cs, c.1.aid < cpuSetsize)
    (hall : ∀ c ∈ cs, c.2 = .all) (t : Topology) : ∃ t', callAll cs t = some t' := by
  induction cs generalizing t with
  | nil => exact ⟨t, rfl⟩
  | cons c cs ih =>
    obtain ⟨t', hok, -⟩ := topologize_ok (s := t) c.1.thread c.1.core c.1.pkg c.1.cputype
      (hb c List.mem_cons_self)
    have hcall : t.call c = (.none, t') := by
      rw [Topology.call, hall c List.mem_cons_self]
      exact hok
    simp only [callAll, hcall]
    exact ih (fun d hd => hb d (List.mem_cons_of_mem _ hd))
      (fun d hd => hall d (List.mem_cons_of_mem _ hd)) t'

/-- Two cores of one package, of one type. -/
theorem lookupAid_types_alike : ∃ t,
    callAll [(⟨0, 0, 0, 0, 1⟩, .all), (⟨1, 0, 1, 0, 1⟩, .all)] {} = some t ∧
    (LooksUp 2 [⟨0, 0, 0, 0, 1⟩, ⟨1, 0, 1, 0, 1⟩] t ↔
      FirstTwoAlike [⟨0, 0, 0, 0, 1⟩, ⟨1, 0, 1, 0, 1⟩]) := by
  obtain ⟨t, h⟩ := callAll_ok [(⟨0, 0, 0, 0, 1⟩, .all), (⟨1, 0, 1, 0, 1⟩, .all)]
    (by decide) (by decide) {}
  exact ⟨t, h, lookupAid_types_iff (by decide) h (by decide) (by decide) (by simp [Homogeneous])⟩

/-- Two cores of one package, of types 0 and 1: the CPU of type 0 is found with
type 1. -/
theorem lookupAid_second_type : ∃ t,
    callAll [(⟨0, 0, 0, 0, 0⟩, .all), (⟨1, 0, 1, 0, 1⟩, .all)] {} = some t ∧
    Homogeneous [⟨0, 0, 0, 0, 0⟩, ⟨1, 0, 1, 0, 1⟩] ∧ lookupAid 2 t 0 = some (some 1) ∧
    ¬ LooksUp 2 [⟨0, 0, 0, 0, 0⟩, ⟨1, 0, 1, 0, 1⟩] t := by
  obtain ⟨t, h⟩ := callAll_ok [(⟨0, 0, 0, 0, 0⟩, .all), (⟨1, 0, 1, 0, 1⟩, .all)]
    (by decide) (by decide) {}
  have hhom : Homogeneous [⟨0, 0, 0, 0, 0⟩, ⟨1, 0, 1, 0, 1⟩] := by simp [Homogeneous]
  obtain ⟨hfound, -⟩ := lookupAid_leaf 2 (by decide) h (by decide) (by decide) hhom
  have hone : lookupAid 2 t 0 = some (some 1) := hfound ⟨0, 0, 0, 0, 0⟩ List.mem_cons_self
  refine ⟨t, h, hhom, hone, fun hl => ?_⟩
  have hzero : lookupAid 2 t 0 = some (some 0) := hl.1 ⟨0, 0, 0, 0, 0⟩ List.mem_cons_self
  rw [hone] at hzero
  cases hzero

end Libtorque.Hardware
