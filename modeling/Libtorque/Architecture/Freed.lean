import Libtorque.Architecture.Blocks

/-! # Each block of the detection is freed once

The blocks that a description, the topology and the context point to. Each
function keeps account of them: what it made and did not give back is in what it
returns, and `free_architecture` gives back all that is in the context. That is
so as long as nothing is written outside of the blocks: `topmap` has an element
for each CPU of the mask, and `topologize` goes by the number of the CPU. -/
namespace Libtorque.Architecture
open Libtorque.Hardware Libtorque.Lib Libtorque.Lib.Heap

/-! ## What is owned -/

def Cput.blocks (d : Cput) : List Nat :=
  d.tlbdescs.toList ++ (d.memdescs.toList ++ d.strdescription.toList)

mutual
def zoneBlocks : List Topt → List Nat
  | [] => []
  | n :: rest => toptBlocks n ++ zoneBlocks rest

def toptBlocks : Topt → List Nat
  | ⟨block, _, _, _, sub⟩ => zoneBlocks sub ++ [block]
end

def typesBlocks (types : Table Cput) : List Nat :=
  types.elems.flatMap Cput.blocks ++ types.ptr.toList

def nodesBlocks (nodes : Table Nodet) : List Nat :=
  nodes.elems.flatMap (·.psizevals.ptr.toList) ++ nodes.ptr.toList

def Ctx.blocks (c : Ctx) : List Nat :=
  zoneBlocks c.schedZone ++ (typesBlocks c.cpudescs ++ nodesBlocks c.manodes)

/-- The counts are those of the tables, and what is owned is in the context or on
the list. -/
structure Holds (h : Heap Kind) (c : Ctx) (l : List Nat) : Prop where
  types : c.cpuTypecount = c.cpudescs.elems.length
  nodes : c.nodecount = c.manodes.elems.length
  owns : Owns h (c.blocks ++ l)

/-- The mask that `sched_getaffinity` gives, where it does not fail. -/
def Given (mask : CpuSet) : Heap Kind → (o : Op) → o.Rep Ask.Rep → Bool
  | _, .other .getaffinity, r => Option.all (fun s : CpuSet => decide (s.cpus = mask.cpus)) r
  | _, _, _ => true

abbrev onMask (mask : CpuSet) : Contract Op (Heap.Op.Rep Ask.Rep) (Heap Kind) :=
  sound (Given mask)

variable {mask : CpuSet} {h : Heap Kind} {c : Ctx} {d : Cput} {l : List Nat}

/-- What has been made beside a context. -/
theorem Holds.beside (hc : Holds h c l) {h' : Heap Kind} {m : List Nat}
    (ho : Owns h' (m ++ (c.blocks ++ l))) : Holds h' c (m ++ l) :=
  ⟨hc.types, hc.nodes, ho.swap⟩

/-! ## A description -/

theorem wp_query {o : Ask} {Q : o.Rep → Heap Kind → Prop} (hQ : ∀ r, Q r h) :
    wp (onMask mask) (query o) Q h :=
  wp_ask fun r _ => hQ r

theorem wp_getaffinity {Q : Option CpuSet → Heap Kind → Prop} (hno : Q none h)
    (hyes : Q (some mask) h) : wp (onMask mask) (query .getaffinity) Q h := by
  refine wp_ask fun r hr => ?_
  cases r with
  | none => exact hno
  | some s =>
    have hs : s = mask := CpuSet.ext (of_decide_eq_true hr)
    exact hs ▸ hyes

theorem wp_freeCpudetails {Q : Cput → Heap Kind → Prop} (ho : Owns h (d.blocks ++ l))
    (hQ : ∀ h', Owns h' l → Q .zero h') : wp (onMask mask) (freeCpudetails d) Q h := by
  rw [Cput.blocks, List.append_assoc, List.append_assoc] at ho
  unfold freeCpudetails
  rw [wp_do]
  refine Heap.wp_free ho fun h' ho => ?_
  rw [wp_do]
  refine Heap.wp_free ho fun h' ho => ?_
  rw [wp_do]
  exact Heap.wp_free ho hQ

theorem wp_addEntry {e : Entry} {Q : Option Cput → Heap Kind → Prop} (ho : Owns h (d.blocks ++ l))
    (hno : Q none h)
    (hyes : ∀ d' h', d'.strdescription = d.strdescription → Owns h' (d'.blocks ++ l) →
      Q (some d') h') : wp (onMask mask) (addEntry d e) Q h := by
  cases e with
  | tlb t =>
    unfold addEntry
    rw [wp_do]
    rw [Cput.blocks, List.append_assoc] at ho
    refine Heap.wp_realloc ho hno fun b h' ho => hyes _ _ rfl ?_
    refine ho.of_count fun a => ?_
    simp only [Cput.blocks, Option.toList_some, List.count_append, List.count_cons, List.count_nil]
    omega
  | mem m =>
    unfold addEntry
    rw [wp_do]
    have hm : Owns h
        (d.memdescs.toList ++ (d.tlbdescs.toList ++ (d.strdescription.toList ++ l))) := by
      refine ho.of_count fun b => ?_
      simp only [Cput.blocks, List.count_append]
      omega
    refine Heap.wp_realloc hm hno fun b h' ho => hyes _ _ rfl ?_
    refine ho.of_count fun a => ?_
    simp only [Cput.blocks, Option.toList_some, List.count_append, List.count_cons, List.count_nil]
    omega

theorem wp_addEntries {es : List Entry} {Q : Bool × Cput → Heap Kind → Prop}
    (ho : Owns h (d.blocks ++ l))
    (hQ : ∀ ok d' h', d'.strdescription = d.strdescription → Owns h' (d'.blocks ++ l) →
      Q (ok, d') h') : wp (onMask mask) (addEntries d es) Q h := by
  induction es generalizing d h with
  | nil => exact hQ true d h rfl ho
  | cons e es ih =>
    rw [addEntries, wp_do]
    refine wp_addEntry ho (hQ false d h rfl ho) ?_
    intro d' h' hd ho
    refine ih ho fun ok d'' h'' hd' ho => ?_
    exact hQ ok d'' h'' (hd'.trans hd) ho

/-- The name is the last to be made. -/
theorem wp_x86cpuid {aid : Nat} {Q : Option (Nat × Nat × Nat) × Cput → Heap Kind → Prop}
    (ho : Owns h l) (hQ : ∀ place d h', Owns h' (d.blocks ++ l) → Q (place, d) h') :
    wp (onMask mask) (x86cpuid aid) Q h := by
  unfold x86cpuid
  rw [wp_do]
  refine wp_query fun answers => ?_
  rw [wp_do]
  refine wp_addEntries (d := { details := blankCput }) ho ?_
  intro added d h' hd ho
  dsimp only
  split
  · rw [wp_do]
    refine Heap.wp_malloc ho (hQ none d h' ho) ?_
    intro b h' ho
    refine hQ _ _ h' (ho.of_count fun a => ?_)
    simp only [Cput.blocks, hd, Option.toList_some, Option.toList_none, List.count_append,
      List.count_cons, List.count_nil]
    omega
  · exact hQ none d h' ho

theorem wp_detectCpudetails {aid : Nat}
    {Q : Except TorqueErr (Cput × Nat × Nat × Nat) → Heap Kind → Prop} (ho : Owns h l)
    (herr : ∀ e h', Owns h' l → Q (.error e) h')
    (hok : ∀ d place h', Owns h' (d.blocks ++ l) → Q (.ok (d, place)) h') :
    wp (onMask mask) (detectCpudetails aid) Q h := by
  unfold detectCpudetails
  rw [wp_do]
  refine wp_query fun pinned => ?_
  split
  · exact herr .affinity h ho
  · rw [wp_do]
    refine wp_x86cpuid ho ?_
    intro place d h' ho
    cases place with
    | none =>
      rw [wp_do]
      exact wp_freeCpudetails ho fun h' => herr .cpudetect h'
    | some place => exact hok d place h' ho

/-! ## The types -/

theorem flatMap_modify_blocks {f : Cput → Cput} (hf : ∀ d, (f d).blocks = d.blocks)
    (types : List Cput) (i : Nat) :
    (types.modify i f).flatMap Cput.blocks = types.flatMap Cput.blocks := by
  induction types generalizing i with
  | nil => simp
  | cons d types ih =>
    cases i with
    | zero => simp [hf]
    | succ i => simp [ih]

/-- Another element of a type changes nothing about its blocks. -/
theorem Holds.counted (hc : Holds h c l) {f : Cput → Cput} (hf : ∀ d, (f d).blocks = d.blocks)
    (i : Nat) :
    Holds h { c with cpudescs := c.cpudescs.modify fun types => types.modify i f } l := by
  obtain ⟨n, types, zone, m, nodes⟩ := c
  cases types with
  | null => exact hc
  | block b types =>
    refine ⟨?_, hc.nodes, hc.owns.of_count fun a => ?_⟩
    · exact hc.types.trans (List.length_modify ..).symm
    · simp only [Ctx.blocks, typesBlocks, Table.modify, Table.elems, flatMap_modify_blocks hf]
      rfl

/-- The pointers of a description become those of a type. -/
theorem wp_addCputype {Q : Option (Nat × Ctx) → Heap Kind → Prop} (hc : Holds h c (d.blocks ++ l))
    (hno : Q none h)
    (hyes : ∀ i c' h', c'.schedZone = c.schedZone → Holds h' c' l → Q (some (i, c')) h') :
    wp (onMask mask) (addCputype c d) Q h := by
  have htypes : c.cpudescs.elems.take c.cpuTypecount = c.cpudescs.elems := by
    rw [hc.types, List.take_length]
  have harray : Owns h (c.cpudescs.ptr.toList ++ (zoneBlocks c.schedZone ++
      (c.cpudescs.elems.flatMap Cput.blocks ++ (nodesBlocks c.manodes ++ (d.blocks ++ l))))) := by
    refine hc.owns.of_count fun b => ?_
    simp only [Ctx.blocks, typesBlocks, List.count_append]
    omega
  unfold addCputype
  rw [wp_do, htypes]
  refine Table.wp_grow harray hno fun b h' ho => ?_
  refine hyes _ _ h' rfl ⟨?_, hc.nodes, ho.of_count fun a => ?_⟩
  · simp [Table.elems, hc.types]
  · simp only [Ctx.blocks, typesBlocks, Table.elems, Table.ptr, List.flatMap_append,
      List.flatMap_singleton, Option.toList_some, List.count_append, List.count_cons,
      List.count_nil]
    omega

theorem wp_placeCputype {Q : Option Nat × Ctx → Heap Kind → Prop} (hc : Holds h c (d.blocks ++ l))
    (hQ : ∀ i c' h', c'.schedZone = c.schedZone → Holds h' c' l → Q (i, c') h') :
    wp (onMask mask) (placeCputype c d) Q h := by
  have hd : Owns h (d.blocks ++ (c.blocks ++ l)) := hc.owns.swap
  unfold placeCputype
  split
  · rw [wp_do]
    refine wp_freeCpudetails hd fun h' ho => ?_
    have hplaced : Holds h' c l := ⟨hc.types, hc.nodes, ho⟩
    refine hQ _ _ h' rfl (hplaced.counted ?_ _)
    intro t
    rfl
  · rw [wp_do]
    refine wp_addCputype (d := { d with details := { d.details with elements := 1 } }) hc ?_ ?_
    · dsimp only
      rw [wp_do]
      refine wp_freeCpudetails hd fun h' ho => ?_
      exact hQ none c h' rfl ⟨hc.types, hc.nodes, ho⟩
    · intro i c' h' hzone hc
      exact hQ (some i) c' h' hzone hc

/-- The slots below the count are given back, from the last. -/
theorem wp_freeTypes {n : Nat} {types : Table Cput} {Q : Table Cput → Heap Kind → Prop}
    (hn : n ≤ types.elems.length)
    (ho : Owns h ((types.elems.take n).flatMap Cput.blocks ++ l))
    (hQ : ∀ types' h', types'.ptr = types.ptr → Owns h' l → Q types' h') :
    wp (onMask mask) (freeTypes n types) Q h := by
  induction n generalizing types h with
  | zero => exact hQ types h rfl ho
  | succ n ih =>
    have hlt : n < types.elems.length := hn
    rw [List.take_succ_eq_append_getElem hlt, List.flatMap_append, List.flatMap_singleton] at ho
    rw [freeTypes, wp_do]
    refine Table.wp_fetch (List.getElem?_eq_getElem hlt) ?_
    rw [wp_do]
    rw [List.append_assoc] at ho
    refine wp_freeCpudetails ho.swap fun h' ho => ?_
    cases types with
    | null => cases hlt
    | block b elems =>
      refine ih ?_ ?_ hQ
      · simpa [Table.modify, Table.elems] using hlt.le
      · simpa [Table.modify, Table.elems, List.take_set_of_le] using ho

theorem wp_freeCpudescs {Q : Ctx → Heap Kind → Prop} (hc : Holds h c l)
    (hQ : ∀ h', Holds h' { c with cpuTypecount := 0, cpudescs := .null } l →
      Q { c with cpuTypecount := 0, cpudescs := .null } h') : wp (onMask mask) (freeCpudescs c) Q h := by
  have htypes : Owns h ((c.cpudescs.elems.take c.cpuTypecount).flatMap Cput.blocks ++
      (c.cpudescs.ptr.toList ++ (zoneBlocks c.schedZone ++ (nodesBlocks c.manodes ++ l)))) := by
    rw [hc.types, List.take_length]
    refine hc.owns.of_count fun b => ?_
    simp only [Ctx.blocks, typesBlocks, List.count_append]
    omega
  unfold freeCpudescs
  rw [wp_do]
  refine wp_freeTypes hc.types.le htypes ?_
  intro types h' hptr ho
  rw [wp_do, hptr]
  refine Heap.wp_free ho fun h' ho => hQ h' ⟨rfl, hc.nodes, ho.of_count fun b => ?_⟩
  simp only [Ctx.blocks, typesBlocks, Table.elems, Table.ptr, List.flatMap_nil, Option.toList_none,
    List.count_append, List.count_nil]
  omega

/-! ## The topology -/

section Topology
variable {zone : List Topt} {sg : Topt} {tm : Table TopMap} {id cputype aid core : Nat}

/-- The CPUs of the groups have elements of `topmap`. -/
def Mapped (tm : Table TopMap) (zone : List Topt) : Prop :=
  ∀ n ∈ zone, ∀ cpu ∈ n.schedulable.cpus, cpu < tm.elems.length

theorem zoneBlocks_append (a b : List Topt) :
    zoneBlocks (a ++ b) = zoneBlocks a ++ zoneBlocks b := by
  induction a with
  | nil => rfl
  | cons n a ih => rw [List.cons_append, zoneBlocks, zoneBlocks, ih, List.append_assoc]

theorem toptBlocks_eq (n : Topt) : toptBlocks n = zoneBlocks n.sub ++ [n.block] := by
  cases n
  rw [toptBlocks]

@[simp] theorem toptBlocks_addCpu (n : Topt) (aid : Nat) :
    toptBlocks (n.addCpu aid) = toptBlocks n := by
  rw [toptBlocks_eq, toptBlocks_eq, Topt.addCpu]

theorem wp_createZone {Q : Option Topt → Heap Kind → Prop} (ho : Owns h l) (hno : Q none h)
    (hyes : ∀ n h', n.schedulable = .zero → Owns h' (toptBlocks n ++ l) → Q (some n) h') :
    wp (onMask mask) (createZone id cputype) Q h := by
  unfold createZone
  rw [wp_do]
  exact Heap.wp_malloc ho hno fun b h' ho => hyes _ h' rfl ho

theorem mapped_nil : Mapped tm [] := by
  intro n hn
  cases hn

theorem mapped_cons {n : Topt} :
    Mapped tm (n :: zone) ↔ (∀ cpu ∈ n.schedulable.cpus, cpu < tm.elems.length) ∧ Mapped tm zone :=
  List.forall_mem_cons

theorem mapped_append {rest : List Topt} :
    Mapped tm (zone ++ rest) ↔ Mapped tm zone ∧ Mapped tm rest :=
  List.forall_mem_append

/-- A node without CPUs changes nothing. -/
theorem Mapped.made (hz : Mapped tm zone) {n : Topt} (hn : n.schedulable = .zero) :
    Mapped tm (n :: zone) := by
  refine mapped_cons.mpr ⟨fun cpu hcpu => ?_, hz⟩
  rw [hn] at hcpu
  cases hcpu

theorem Mapped.group {before after : List Topt} (hz : Mapped tm (before ++ sg :: after)) :
    ∀ cpu ∈ sg.schedulable.cpus, cpu < tm.elems.length :=
  (mapped_cons.mp (mapped_append.mp hz).2).1

/-- With another group in its place. -/
theorem Mapped.replace {before after : List Topt} {sg' : Topt}
    (hz : Mapped tm (before ++ sg :: after))
    (hmap : ∀ cpu ∈ sg'.schedulable.cpus, cpu < tm.elems.length) :
    Mapped tm (before ++ sg' :: after) := by
  obtain ⟨hbefore, hrest⟩ := mapped_append.mp hz
  exact mapped_append.mpr ⟨hbefore, mapped_cons.mpr ⟨hmap, (mapped_cons.mp hrest).2⟩⟩

theorem Mapped.of_length {tm' : Table TopMap} (hz : Mapped tm zone)
    (hlen : tm'.elems.length = tm.elems.length) : Mapped tm' zone := by
  intro n hn cpu hcpu
  exact hlen ▸ hz n hn cpu hcpu

/-- A node that is made is entered. -/
theorem wp_findSchedGroup (tm : Table TopMap)
    {Q : Option (List Topt × Topt × List Topt) → Heap Kind → Prop}
    (ho : Owns h (zoneBlocks zone ++ l)) (hno : ∀ h', Owns h' (zoneBlocks zone ++ l) → Q none h')
    (hyes : ∀ before sg after h', (Mapped tm zone → Mapped tm (before ++ sg :: after)) →
      Owns h' (zoneBlocks (before ++ sg :: after) ++ l) → Q (some (before, sg, after)) h') :
    wp (onMask mask) (findSchedGroup id cputype zone) Q h := by
  induction zone generalizing l h Q with
  | nil =>
    rw [findSchedGroup, wp_do]
    refine wp_createZone ho (hno h ho) fun n h' hn ho => hyes [] n [] h' (fun hz => hz.made hn) ?_
    simpa [zoneBlocks] using ho
  | cons n rest ih =>
    rw [findSchedGroup]
    split
    · exact hyes [] n rest h (fun hz => hz) ho
    split
    · rw [wp_do]
      refine wp_createZone ho (hno h ho) fun sg h' hsg ho =>
        hyes [] sg (n :: rest) h' (fun hz => hz.made hsg) ?_
      simpa [zoneBlocks] using ho
    · have hrest : Owns h (zoneBlocks rest ++ (toptBlocks n ++ l)) := by
        refine ho.of_count fun b => ?_
        simp only [zoneBlocks, List.count_append]
        omega
      rw [wp_do]
      refine ih hrest ?_ ?_
      · intro h' ho
        refine hno h' (ho.of_count fun b => ?_)
        simp only [zoneBlocks, List.count_append]
        omega
      · intro before sg after h' hmap ho
        refine hyes (n :: before) sg after h' (fun hz => ?_) (ho.of_count fun b => ?_)
        · exact mapped_cons.mpr ((mapped_cons.mp hz).imp_right hmap)
        · simp only [zoneBlocks, List.cons_append, List.count_append]
          omega

/-- The CPU whose core is looked up is one of the group. -/
theorem wp_openSub {Q : TorqueErr × Topt → Heap Kind → Prop} (ho : Owns h (toptBlocks sg ++ l))
    (hmap : ∀ cpu ∈ sg.schedulable.cpus, cpu < tm.elems.length)
    (hshare : sg.schedulable.cpus.Nonempty)
    (hQ : ∀ e sg' h', sg'.schedulable = sg.schedulable → Owns h' (toptBlocks sg' ++ l) →
      Q (e, sg') h') :
    wp (onMask mask) (openSub tm cputype sg) Q h := by
  unfold openSub
  split
  · exact hQ .none sg h rfl ho
  · rename_i hsub
    dsimp only
    split
    · exact hQ .assert sg h rfl ho
    · have hoid := hmap _ (CpuSet.firstAid_mem hshare)
      rw [wp_do]
      refine Table.wp_fetch (List.getElem?_eq_getElem hoid) ?_
      rw [wp_do]
      refine wp_createZone ho (hQ .resource sg h rfl ho) fun sub h' _ ho => ?_
      refine hQ .none _ h' rfl (ho.of_count fun b => ?_)
      simp only [toptBlocks_eq sg, hsub, toptBlocks, zoneBlocks, toptBlocks_addCpu,
        List.count_append, List.count_nil]
      omega

theorem wp_topologizeCore {Q : TorqueErr × Topt → Heap Kind → Prop}
    (ho : Owns h (toptBlocks sg ++ l))
    (hmap : ∀ cpu ∈ sg.schedulable.cpus, cpu < tm.elems.length)
    (hshare : sg.schedulable.cpus.Nonempty)
    (hQ : ∀ e sg' h', sg'.schedulable = sg.schedulable → Owns h' (toptBlocks sg' ++ l) →
      Q (e, sg') h') :
    wp (onMask mask) (topologizeCore tm aid core cputype sg) Q h := by
  unfold topologizeCore
  rw [wp_do]
  refine wp_openSub ho hmap hshare ?_
  intro e sg h' hsg ho
  split
  · rename_i sg' heq
    cases heq
    rw [toptBlocks_eq, List.append_assoc] at ho
    rw [wp_do]
    refine wp_findSchedGroup tm ho ?_ ?_
    · intro h' ho
      refine hQ .resource _ h' hsg ?_
      rw [toptBlocks_eq, List.append_assoc]
      exact ho
    · intro before sc after h' _ ho
      refine hQ .none _ h' hsg (ho.of_count fun b => ?_)
      simp only [toptBlocks, zoneBlocks_append, zoneBlocks, toptBlocks_addCpu, List.count_append]
      omega
  · exact hQ e sg h' hsg ho

/-- Whatever has become of the topology. -/
theorem Holds.topology {h' : Heap Kind} (hc : Holds h c l) (ho : Owns h' (zoneBlocks zone ++
    (typesBlocks c.cpudescs ++ (nodesBlocks c.manodes ++ l)))) :
    Holds h' { c with schedZone := zone } l := by
  refine ⟨hc.types, hc.nodes, ?_⟩
  simpa only [Ctx.blocks, List.append_assoc] using ho

theorem wp_enterCpu {Q : TorqueErr × Ctx × Table TopMap → Heap Kind → Prop} {h' : Heap Kind}
    {e : TorqueErr} {sg' : Topt} {place : TopMap} {before after : List Topt} (hc : Holds h c l)
    (hz : Mapped tm (before ++ sg :: after)) (haid : aid < tm.elems.length)
    (hsched : sg'.schedulable = sg.schedulable)
    (ho : Owns h' (toptBlocks sg' ++ (zoneBlocks before ++ (zoneBlocks after ++
      (typesBlocks c.cpudescs ++ (nodesBlocks c.manodes ++ l))))))
    (hQ : ∀ e c' tm' h', Holds h' c' l → Mapped tm' c'.schedZone →
      tm'.elems.length = tm.elems.length → Q (e, c', tm') h') :
    wp (onMask mask) (enterCpu c tm aid place before after (e, sg')) Q h' := by
  unfold enterCpu
  split
  · rename_i heq
    cases heq
    rw [wp_do]
    refine Table.wp_store haid ?_
    have hlen : (tm.modify (·.set aid place)).elems.length = tm.elems.length := Table.length_set
    refine hQ _ _ _ h' (hc.topology (ho.of_count fun b => ?_)) ?_ hlen
    · simp only [zoneBlocks_append, zoneBlocks, toptBlocks_addCpu, List.count_append]
      omega
    · refine (hz.replace ?_).of_length hlen
      intro cpu hcpu
      rcases CpuSet.mem_set hcpu with rfl | hcpu
      · exact haid
      · exact hz.group cpu (hsched ▸ hcpu)
  · rename_i heq
    cases heq
    refine hQ _ _ _ h' (hc.topology (ho.of_count fun b => ?_)) (hz.replace ?_) rfl
    · simp only [zoneBlocks_append, zoneBlocks, List.count_append]
      omega
    · rw [hsched]
      exact hz.group

/-- What a CPU with an element of `topmap` leaves of the zone and of `topmap`. -/
theorem wp_topologize {thread pkg : Nat} {Q : TorqueErr × Ctx × Table TopMap → Heap Kind → Prop}
    (hc : Holds h c l) (hz : Mapped tm c.schedZone) (haid : aid < tm.elems.length)
    (hQ : ∀ e c' tm' h', Holds h' c' l → Mapped tm' c'.schedZone →
      tm'.elems.length = tm.elems.length → Q (e, c', tm') h') :
    wp (onMask mask) (topologize c tm aid thread core pkg cputype) Q h := by
  have hzone : Owns h (zoneBlocks c.schedZone ++
      (typesBlocks c.cpudescs ++ (nodesBlocks c.manodes ++ l))) := by
    simpa only [Ctx.blocks, List.append_assoc] using hc.owns
  unfold topologize
  split
  · exact hQ .assert c tm h hc hz rfl
  rw [wp_do]
  refine wp_findSchedGroup tm hzone ?_ ?_
  · intro h' ho
    exact hQ .resource c tm h' (hc.topology ho) hz rfl
  · intro before sg after h' hmap ho
    have hgroup := hmap hz
    have hsg : Owns h' (toptBlocks sg ++ (zoneBlocks before ++ (zoneBlocks after ++
        (typesBlocks c.cpudescs ++ (nodesBlocks c.manodes ++ l))))) := by
      refine ho.of_count fun b => ?_
      simp only [zoneBlocks_append, zoneBlocks, List.count_append]
      omega
    dsimp only
    cases hshared : sg.schedulable.shareLevel with
    | true =>
      rw [if_pos rfl, wp_do]
      refine wp_topologizeCore hsg hgroup.group ((CpuSet.shareLevel_iff _).mp hshared) ?_
      intro e sg' h' hsched ho
      exact wp_enterCpu hc hgroup haid hsched ho hQ
    | false => exact wp_enterCpu (e := .none) hc hgroup haid rfl hsg hQ

mutual
theorem wp_freeTopology {Q : Unit → Heap Kind → Prop} {l : List Nat} {h : Heap Kind} :
    ∀ zone : List Topt, Owns h (zoneBlocks zone ++ l) → (∀ h', Owns h' l → Q () h') →
      wp (onMask mask) (freeTopology zone) Q h
  | [], ho, hQ => hQ h ho
  | top :: next, ho, hQ => by
    rw [freeTopology, wp_do]
    rw [zoneBlocks, List.append_assoc] at ho
    exact wp_freeTopt top ho fun h' ho => wp_freeTopology next ho hQ

theorem wp_freeTopt {Q : Unit → Heap Kind → Prop} {l : List Nat} {h : Heap Kind} :
    ∀ top : Topt, Owns h (toptBlocks top ++ l) → (∀ h', Owns h' l → Q () h') →
      wp (onMask mask) (freeTopt top) Q h
  | ⟨_, _, _, _, sub⟩, ho, hQ => by
    rw [freeTopt, wp_do]
    rw [toptBlocks, List.append_assoc] at ho
    exact wp_freeTopology sub ho fun h' ho => Heap.wp_free ho hQ
end

end Topology

/-! ## The processors -/

section Processors
variable {tm : Table TopMap} {aid : Nat}

theorem wp_detectPass {Q : TorqueErr × Ctx × Table TopMap → Heap Kind → Prop} (hc : Holds h c l)
    (hz : Mapped tm c.schedZone) (haid : aid < tm.elems.length)
    (hQ : ∀ e c' tm' h', Holds h' c' l → Mapped tm' c'.schedZone →
      tm'.elems.length = tm.elems.length → Q (e, c', tm') h') :
    wp (onMask mask) (detectPass c tm aid) Q h := by
  unfold detectPass
  rw [wp_do]
  refine wp_detectCpudetails hc.owns ?_ ?_
  · intro e h' ho
    exact hQ e c tm h' ⟨hc.types, hc.nodes, ho⟩ hz rfl
  · rintro d ⟨thread, core, pkg⟩ h' ho
    dsimp only
    rw [wp_do]
    refine wp_placeCputype (hc.beside ho) ?_
    intro i c' h' hzone hc
    rw [← hzone] at hz
    cases i with
    | none => exact hQ .resource c' tm h' hc hz rfl
    | some cputype =>
      dsimp only
      rw [wp_do]
      refine wp_topologize hc hz haid ?_
      intro e c tm' h' hc hz hlen
      split
      · rename_i c' tm'' heq
        cases heq
        rw [wp_do]
        refine wp_query fun failed => ?_
        split
        · exact hQ .resource c tm' h' hc hz hlen
        · exact hQ .none c tm' h' hc hz hlen
      · exact hQ e c tm' h' hc hz hlen

/-- A CPU that is found is of the mask. -/
theorem wp_detectLoop {z : Nat} {Q : TorqueErr × Ctx → Heap Kind → Prop}
    (hc : Holds h c l) (hz : Mapped tm c.schedZone) (haid : aid ≤ cpuSetsize)
    (hmask : ∀ cpu ∈ mask.cpus, cpu < tm.elems.length)
    (hQ : ∀ e c' h', Holds h' c' l → Q (e, c') h') :
    wp (onMask mask) (detectLoop mask z aid c tm) Q h := by
  induction z generalizing aid c tm h with
  | zero => exact hQ .none c h hc
  | succ z ih =>
    obtain ⟨-, hle, -, hmem⟩ := mask.next_spec haid
    rw [detectLoop]
    split
    · exact hQ .affinity c h hc
    · rename_i hne
      have hlt : mask.next aid < cpuSetsize := Nat.lt_of_le_of_ne hle hne
      rw [wp_do]
      refine wp_detectPass hc hz (hmask _ (hmem hlt)) ?_
      intro e c' tm' h' hc hz hlen
      split
      · rename_i heq
        cases heq
        refine ih hc hz hlt fun cpu hcpu => ?_
        exact hlen ▸ hmask cpu hcpu
      · rename_i heq
        cases heq
        exact hQ e c' h' hc

theorem wp_cputypesErr (topmap : Option Nat) {ret : TorqueErr}
    {Q : TorqueErr × Ctx → Heap Kind → Prop} (hc : Holds h c (topmap.toList ++ l))
    (hQ : ∀ h', Holds h' { c with cpuTypecount := 0, cpudescs := .null } l →
      Q (ret, { c with cpuTypecount := 0, cpudescs := .null }) h') :
    wp (onMask mask) (cputypesErr topmap ret c) Q h := by
  unfold cputypesErr
  rw [wp_do]
  refine wp_query fun _ => ?_
  rw [wp_do]
  refine wp_query fun _ => ?_
  rw [wp_do]
  refine wp_freeCpudescs hc fun h' hc => ?_
  rw [wp_do]
  exact Heap.wp_free hc.owns.swap fun h' ho => hQ h' ⟨hc.types, hc.nodes, ho⟩

theorem wp_detectCpus {topmap cpucount : Nat} {Q : TorqueErr × Ctx → Heap Kind → Prop}
    (hc : Holds h c (topmap :: l)) (hzone : c.schedZone = [])
    (hmask : ∀ cpu ∈ mask.cpus, cpu < cpucount)
    (hQ : ∀ e c' h', Holds h' c' l → Q (e, c') h') :
    wp (onMask mask) (detectCpus topmap cpucount mask c) Q h := by
  have hz : Mapped (.block topmap (List.replicate cpucount {})) c.schedZone := by
    rw [hzone]
    exact mapped_nil
  unfold detectCpus
  rw [wp_do]
  refine wp_detectLoop hc hz (Nat.zero_le _) ?_ ?_
  · simpa only [Table.elems, List.length_replicate] using hmask
  intro e c h' hc
  split
  · rename_i heq
    cases heq
    rw [wp_do]
    refine wp_query fun failed => ?_
    split
    · exact wp_cputypesErr (some topmap) hc fun h' => hQ .affinity _ h'
    · have htop : Owns h' ([topmap] ++ (c.blocks ++ l)) := hc.owns.swap
      rw [wp_do]
      exact Heap.wp_free htop fun h' ho => hQ .none c h' ⟨hc.types, hc.nodes, ho⟩
  · rename_i heq
    cases heq
    exact wp_cputypesErr (some topmap) hc fun h' => hQ e _ h'

theorem wp_detectCpucount {Q : Nat × CpuSet → Heap Kind → Prop} (hno : Q (0, .zero) h)
    (hyes : Q (mask.count, mask) h) : wp (onMask mask) detectCpucount Q h := by
  unfold detectCpucount
  rw [wp_do]
  exact wp_getaffinity hno hyes

/-- Where the CPUs are those below their number, `topmap` has an element for each. -/
theorem wp_detectCputypes {Q : TorqueErr × Ctx → Heap Kind → Prop} (ho : Owns h l)
    (hmask : mask.cpus = Finset.range mask.count)
    (hQ : ∀ e c' h', Holds h' c' l → Q (e, c') h') : wp (onMask mask) (detectCputypes {}) Q h := by
  have hstart : Holds h {} l := ⟨rfl, rfl, ho⟩
  have hinside (cpu : Nat) (hcpu : cpu ∈ mask.cpus) : cpu < mask.count := by
    rw [hmask] at hcpu
    exact Finset.mem_range.mp hcpu
  have herr (e : TorqueErr) : wp (onMask mask) (cputypesErr none e {}) Q h :=
    wp_cputypesErr none hstart fun h' => hQ e _ h'
  generalize hcount : mask.count = cpucount at hinside
  unfold detectCputypes
  rw [wp_do]
  refine wp_detectCpucount (herr .affinity) ?_
  rw [hcount]
  dsimp only
  split
  · exact herr .affinity
  · rw [wp_do]
    refine Heap.wp_malloc hstart.owns ?_ ?_
    · exact herr .resource
    · intro topmap h' ho
      exact wp_detectCpus (hstart.beside (m := [topmap]) ho) rfl hinside hQ

end Processors

/-! ## GPUs -/

theorem wp_cudaid {devno : Nat} {Q : Except TorqueErr Cput → Heap Kind → Prop} (ho : Owns h l)
    (herr : ∀ e h', Owns h' l → Q (.error e) h')
    (hok : ∀ d h', Owns h' (d.blocks ++ l) → Q (.ok d) h') : wp (onMask mask) (cudaid devno) Q h := by
  unfold cudaid
  rw [wp_do]
  refine wp_query fun attributes => ?_
  cases attributes with
  | error e => exact herr e h ho
  | ok details =>
    dsimp only
    rw [wp_do]
    refine Heap.wp_malloc ho (herr .resource h ho) ?_
    intro str h' ho
    dsimp only
    rw [wp_do]
    refine wp_query fun name => ?_
    cases name with
    | none =>
      dsimp only
      rw [wp_do]
      exact Heap.wp_free (p := some str) ho fun h' => herr .assert h'
    | some name => exact hok _ h' ho

theorem wp_cudaLoop {n i : Nat} {Q : Int × Ctx → Heap Kind → Prop} (hc : Holds h c l)
    (hQ : ∀ e c' h', Holds h' c' l → Q (e, c') h') : wp (onMask mask) (cudaLoop n i c) Q h := by
  induction n generalizing i c h with
  | zero => exact hQ 0 c h hc
  | succ n ih =>
    rw [cudaLoop, wp_do]
    refine wp_cudaid hc.owns ?_ ?_
    · intro e h' ho
      exact hQ (-1) c h' ⟨hc.types, hc.nodes, ho⟩
    · intro d h' ho
      dsimp only
      rw [wp_do]
      refine wp_placeCputype (hc.beside ho) ?_
      intro slot c' h' _ hc
      cases slot with
      | none => exact hQ _ c' h' hc
      | some cputype => exact ih hc

theorem wp_detectCuda {Q : Int × Ctx → Heap Kind → Prop} (hc : Holds h c l)
    (hQ : ∀ e c' h', Holds h' c' l → Q (e, c') h') : wp (onMask mask) (detectCuda c) Q h := by
  unfold detectCuda
  rw [wp_do]
  refine wp_query fun devs => ?_
  split
  · exact hQ _ c h hc
  · exact wp_cudaLoop hc hQ

/-! ## Memories -/

section Memories
variable {psizevals : Table Nat}

theorem wp_addPagesize {psize : Nat} {Q : Option (Table Nat) → Heap Kind → Prop}
    (ho : Owns h (psizevals.ptr.toList ++ l)) (hno : Q none h)
    (hyes : ∀ t h', Owns h' (t.ptr.toList ++ l) → Q (some t) h') :
    wp (onMask mask) (addPagesize psizevals psize) Q h :=
  Table.wp_grow ho hno fun _ h' ho => hyes _ h' ho

theorem wp_addTlbs {tlbs : List TorqueTlb} {Q : Bool × Table Nat → Heap Kind → Prop}
    (ho : Owns h (psizevals.ptr.toList ++ l))
    (hQ : ∀ failed t h', Owns h' (t.ptr.toList ++ l) → Q (failed, t) h') :
    wp (onMask mask) (addTlbs psizevals tlbs) Q h := by
  induction tlbs generalizing psizevals h with
  | nil => exact hQ false psizevals h ho
  | cons tlb tlbs ih =>
    rw [addTlbs]
    split
    · exact ih ho
    · rw [wp_do]
      exact wp_addPagesize ho (hQ true psizevals h ho) fun t h' ho => ih ho

theorem wp_determinePagesizes {Q : Bool × Table Nat → Heap Kind → Prop} (ho : Owns h l)
    (hQ : ∀ failed t h', Owns h' (t.ptr.toList ++ l) → Q (failed, t) h') :
    wp (onMask mask) (determinePagesizes c) Q h := by
  unfold determinePagesizes
  rw [wp_do]
  refine wp_query fun psize => ?_
  split
  · exact hQ true .null h ho
  · have hnull : Owns h ((Table.null : Table Nat).ptr.toList ++ l) := ho
    rw [wp_do]
    exact wp_addPagesize hnull (hQ true .null h ho) fun t h' ho => wp_addTlbs ho hQ

/-- The pointer of the node becomes that of the copy. -/
theorem wp_addNode {node : Nodet} {Q : Option Ctx → Heap Kind → Prop}
    (hc : Holds h c (node.psizevals.ptr.toList ++ l)) (hno : Q none h)
    (hyes : ∀ c' h', Holds h' c' l → Q (some c') h') : wp (onMask mask) (addNode c node) Q h := by
  have hnodes : c.manodes.elems.take c.nodecount = c.manodes.elems := by
    rw [hc.nodes, List.take_length]
  have harray : Owns h (c.manodes.ptr.toList ++ (zoneBlocks c.schedZone ++
      (typesBlocks c.cpudescs ++ (c.manodes.elems.flatMap (·.psizevals.ptr.toList) ++
        (node.psizevals.ptr.toList ++ l))))) := by
    refine hc.owns.of_count fun b => ?_
    simp only [Ctx.blocks, nodesBlocks, List.count_append]
    omega
  unfold addNode
  rw [wp_do, hnodes]
  refine Table.wp_grow harray hno fun b h' ho => ?_
  refine hyes _ h' ⟨hc.types, ?_, ho.of_count fun a => ?_⟩
  · simp [Table.elems, hc.nodes]
  · simp only [Ctx.blocks, nodesBlocks, Table.elems, Table.ptr, List.flatMap_append,
      List.flatMap_singleton, Option.toList_some, List.count_append, List.count_cons,
      List.count_nil]
    omega

/-- The nodes from the `z`th on are given up. -/
theorem wp_freeNodes {manodes : Table Nodet} {n z : Nat} {Q : Unit → Heap Kind → Prop}
    (hn : z + n = manodes.elems.length)
    (ho : Owns h ((manodes.elems.drop z).flatMap (·.psizevals.ptr.toList) ++ l))
    (hQ : ∀ h', Owns h' l → Q () h') : wp (onMask mask) (freeNodes manodes n z) Q h := by
  induction n generalizing z h with
  | zero =>
    rw [Nat.add_zero] at hn
    rw [hn, List.drop_length] at ho
    exact hQ h ho
  | succ n ih =>
    have hlt : z < manodes.elems.length := by omega
    rw [List.drop_eq_getElem_cons hlt, List.flatMap_cons, List.append_assoc] at ho
    rw [freeNodes, wp_do]
    refine Table.wp_fetch (List.getElem?_eq_getElem hlt) ?_
    rw [wp_do]
    refine Heap.wp_free ho fun h' ho => ih ?_ ho
    omega

theorem wp_freeMemories {Q : Ctx → Heap Kind → Prop} (hc : Holds h c l)
    (hQ : ∀ h', Holds h' { c with manodes := .null, nodecount := 0 } l →
      Q { c with manodes := .null, nodecount := 0 } h') : wp (onMask mask) (freeMemories c) Q h := by
  have hnodes : Owns h ((c.manodes.elems.drop 0).flatMap (·.psizevals.ptr.toList) ++
      (c.manodes.ptr.toList ++ (zoneBlocks c.schedZone ++ (typesBlocks c.cpudescs ++ l)))) := by
    refine hc.owns.of_count fun b => ?_
    simp only [Ctx.blocks, nodesBlocks, List.drop_zero, List.count_append]
    omega
  unfold freeMemories
  rw [wp_do]
  refine wp_freeNodes ((Nat.zero_add _).trans hc.nodes) hnodes fun h' ho => ?_
  rw [wp_do]
  refine Heap.wp_free ho fun h' ho => hQ h' ⟨hc.types, rfl, ho.of_count fun b => ?_⟩
  simp only [Ctx.blocks, nodesBlocks, Table.elems, Table.ptr, List.flatMap_nil, Option.toList_none,
    List.count_append, List.count_nil]
  omega

theorem wp_memoriesErr {Q : Bool × Ctx → Heap Kind → Prop}
    (hc : Holds h c (psizevals.ptr.toList ++ l)) (hQ : ∀ c' h', Holds h' c' l → Q (true, c') h') :
    wp (onMask mask) (memoriesErr psizevals c) Q h := by
  unfold memoriesErr
  rw [wp_do]
  refine wp_freeMemories hc fun h' hc => ?_
  rw [wp_do]
  exact Heap.wp_free hc.owns.swap fun h' ho => hQ _ h' ⟨hc.types, hc.nodes, ho⟩

/-- `detect_numa` does not fail, so that no node is freed whose table is then
freed again. -/
theorem wp_detectMemories {Q : Bool × Ctx → Heap Kind → Prop} (hc : Holds h c l)
    (hQ : ∀ failed c' h', Holds h' c' l → Q (failed, c') h') : wp (onMask mask) (detectMemories c) Q h := by
  unfold detectMemories
  rw [wp_do]
  refine wp_determinePagesizes hc.owns ?_
  intro failed psizevals h' ho
  have hvals : Holds h' c (psizevals.ptr.toList ++ l) := hc.beside ho
  dsimp only
  split
  · exact wp_memoriesErr hvals (hQ true)
  rw [wp_do]
  refine wp_query ?_
  rintro ⟨pages, psize, asrlim⟩
  dsimp only
  split
  · exact wp_memoriesErr hvals (hQ true)
  rw [wp_do]
  refine wp_addNode hvals (wp_memoriesErr hvals (hQ true)) ?_
  intro c h' hc
  exact hQ false c h' hc

end Memories

/-! ## The whole -/

/-- All is given back, and the context is as it was made. -/
theorem wp_freeArchitecture {Q : Ctx → Heap Kind → Prop} (hc : Holds h c l)
    (hQ : ∀ h', Owns h' l → Q {} h') : wp (onMask mask) (freeArchitecture c) Q h := by
  have hzone : Owns h (zoneBlocks c.schedZone ++
      (typesBlocks c.cpudescs ++ (nodesBlocks c.manodes ++ l))) := by
    simpa only [Ctx.blocks, List.append_assoc] using hc.owns
  unfold freeArchitecture resetTopology
  rw [wp_do, wp_do]
  refine wp_freeTopology c.schedZone hzone fun h' ho => ?_
  have hreset : Holds h' { c with schedZone := [] } l := by
    refine ⟨hc.types, hc.nodes, ?_⟩
    simpa only [Ctx.blocks, zoneBlocks, List.nil_append, List.append_assoc] using ho
  rw [wp_pure, wp_do]
  refine wp_freeCpudescs hreset fun h' hc => ?_
  exact wp_freeMemories hc fun h' hc => hQ h' hc.owns

/-- What `detect_architecture` leaves in the context is what it has made; when it
fails, that is nothing. -/
theorem wp_detectArchitecture {Q : Int × Ctx → Heap Kind → Prop}
    (hmask : mask.cpus = Finset.range mask.count) (ho : Owns h l)
    (herr : ∀ e h', e ≠ 0 → Owns h' l → Q (e, {}) h') (hok : ∀ c h', Holds h' c l → Q (0, c) h') :
    wp (onMask mask) (detectArchitecture {}) Q h := by
  have hfail (e : Int) (he : e ≠ 0) (c : Ctx) (h' : Heap Kind) (hc : Holds h' c l) :
      wp (onMask mask) (architectureErr e c) Q h' := by
    unfold architectureErr
    rw [wp_do]
    exact wp_freeArchitecture hc fun h' => herr e h' he
  unfold detectArchitecture
  rw [wp_do]
  refine wp_detectCputypes ho hmask ?_
  intro e c h' hc
  dsimp only
  split
  · rename_i he
    exact hfail e.code he c h' hc
  rw [wp_do]
  refine wp_detectCuda hc ?_
  intro e c h' hc
  dsimp only
  split
  · rename_i he
    exact hfail e he c h' hc
  rw [wp_do]
  refine wp_detectMemories hc ?_
  intro failed c h' hc
  dsimp only
  split
  · exact hfail TorqueErr.memdetect.code (by decide) c h' hc
  · exact hok c h' hc

theorem wp_torqueInitSigmasked (hmask : mask.cpus = Finset.range mask.count) :
    wp (onMask mask) torqueInitSigmasked (fun r h => r = none → h.FreedOnce) {} := by
  have hnull (h : Heap Kind) (ho : Owns h []) :
      wp (onMask mask) (pure none : Prog (Option (Nat × Ctx))) (fun r h => r = none → h.FreedOnce) h :=
    fun _ => ho.freedOnce
  unfold torqueInitSigmasked createTorqueCtx
  rw [wp_do, wp_do]
  refine Heap.wp_malloc owns_start (hnull _ owns_start) ?_
  intro ctx h ho
  dsimp only
  rw [wp_do]
  refine wp_query fun failed => ?_
  split
  · rw [wp_do]
    exact Heap.wp_free (p := some ctx) ho hnull
  rw [wp_do]
  refine wp_query fun failed => ?_
  split
  · rw [wp_do]
    refine wp_query fun _ => ?_
    rw [wp_do]
    exact Heap.wp_free (p := some ctx) ho hnull
  · rw [wp_pure, wp_do]
    refine wp_detectArchitecture hmask ho ?_ ?_
    · intro e h he ho
      dsimp only
      rw [if_pos he, wp_do]
      unfold freeTorqueCtx
      rw [wp_do]
      refine wp_query fun _ => ?_
      rw [wp_do]
      refine wp_freeArchitecture ⟨rfl, rfl, ho⟩ fun h ho => ?_
      rw [wp_do]
      refine wp_query fun _ => ?_
      exact Heap.wp_free (p := some ctx) ho hnull
    · intro c h hc
      exact fun h => nomatch h

/-- Every block has been given back, and not twice; the context is empty, so that
`free_architecture` has nothing more to free. -/
structure Discarded (h : Heap Kind) (c : Ctx) : Prop where
  freed : h.FreedOnce
  cpuTypecount : c.cpuTypecount = 0
  cpudescs : c.cpudescs = .null
  schedZone : c.schedZone = []
  nodecount : c.nodecount = 0
  manodes : c.manodes = .null
  again : freeArchitecture c = pure c

theorem discarded_of_owns (ho : Owns h []) : Discarded h {} :=
  ⟨ho.freedOnce, rfl, rfl, rfl, rfl, rfl, rfl⟩

/-! ## A CPU that has no element

Where all goes well, each CPU of the mask is entered, unless something that is not
sound has been done before. -/

section Beyond

theorem may_query {o : Ask} {Q : o.Rep → Heap Kind → Prop} (r : o.Rep)
    (hA : Given mask h (.other o) r) (hQ : Q r h) : may (onMask mask) (query o) Q h :=
  may_ask r hA hQ

theorem may_freeCpudetails {Q : Cput → Heap Kind → Prop} (hQ : ∀ d' h', Q d' h') :
    may (onMask mask) (freeCpudetails d) Q h := by
  unfold freeCpudetails
  rw [may_do]
  refine may_free (fun _ => rfl) fun h' => ?_
  rw [may_do]
  refine may_free (fun _ => rfl) fun h' => ?_
  rw [may_do]
  exact may_free (fun _ => rfl) fun h' => may_pure.mpr (hQ _ h')

/-- A processor without tables and with an empty name. -/
theorem may_detectCpudetails {aid : Nat}
    {Q : Except TorqueErr (Cput × Nat × Nat × Nat) → Heap Kind → Prop}
    (hQ : ∀ d place h', Q (.ok (d, place)) h') :
    may (onMask mask) (detectCpudetails aid) Q h := by
  have hcpuid : may (onMask mask) (x86cpuid aid) (fun r _ => ∃ place d, r = (some place, d)) h := by
    unfold x86cpuid
    rw [may_do]
    refine may_query
      { entries := [], padding := [], vendor := some (.x86 ⟨0, 0, 0, .oem, {}, 0⟩, 1, 1)
        brandname := some "" } rfl ?_
    rw [may_do]
    refine may_pure.mpr ?_
    rw [may_do]
    refine may_realloc (fun _ => rfl) fun b h' => may_pure.mpr ?_
    exact ⟨_, _, rfl⟩
  unfold detectCpudetails
  rw [may_do]
  refine may_query false rfl ?_
  rw [if_neg Bool.false_ne_true, may_do]
  refine may_mono ?_ hcpuid
  rintro _ h' ⟨place, d, rfl⟩
  exact may_pure.mpr (hQ d place h')

theorem may_placeCputype {Q : Option Nat × Ctx → Heap Kind → Prop}
    (hQ : ∀ i c' h', Q (some i, c') h') : may (onMask mask) (placeCputype c d) Q h := by
  unfold placeCputype
  split
  · rw [may_do]
    exact may_freeCpudetails fun _ h' => may_pure.mpr (hQ _ _ h')
  · unfold addCputype
    rw [may_do, may_do]
    refine Table.may_grow (fun _ => rfl) fun b h' => may_pure.mpr ?_
    exact may_pure.mpr (hQ _ _ h')

theorem may_createZone {id cputype : Nat} {Q : Option Topt → Heap Kind → Prop}
    (hQ : ∀ n h', Q (some n) h') : may (onMask mask) (createZone id cputype) Q h := by
  unfold createZone
  rw [may_do]
  exact may_realloc (fun _ => rfl) fun b h' => may_pure.mpr (hQ _ h')

theorem may_findSchedGroup {id cputype : Nat} {zone : List Topt}
    {Q : Option (List Topt × Topt × List Topt) → Heap Kind → Prop}
    (hQ : ∀ before sg after h', Q (some (before, sg, after)) h') :
    may (onMask mask) (findSchedGroup id cputype zone) Q h := by
  induction zone generalizing h Q with
  | nil =>
    rw [findSchedGroup, may_do]
    exact may_createZone fun n h' => may_pure.mpr (hQ [] n [] h')
  | cons n rest ih =>
    rw [findSchedGroup]
    split
    · exact may_pure.mpr (hQ [] n rest h)
    split
    · rw [may_do]
      exact may_createZone fun sg h' => may_pure.mpr (hQ [] sg (n :: rest) h')
    · rw [may_do]
      exact ih fun before sg after h' => may_pure.mpr (hQ (n :: before) sg after h')

variable {tm : Table TopMap} {aid : Nat}

theorem may_topologizeCore {sg : Topt} {core cputype : Nat}
    {Q : TorqueErr × Topt → Heap Kind → Prop} (hshare : sg.schedulable.cpus.Nonempty)
    (hQ : ∀ sg' h', Q (.none, sg') h') :
    may (onMask mask) (topologizeCore tm aid core cputype sg) Q h := by
  have hsub : may (onMask mask) (openSub tm cputype sg) (fun r _ => r.1 = .none) h := by
    unfold openSub
    split
    · exact may_pure.mpr rfl
    · have hoid := sg.schedulable.bounded _ (CpuSet.firstAid_mem hshare)
      dsimp only
      rw [if_neg (Nat.not_le.mpr hoid), may_do]
      refine Table.may_fetch fun map => ?_
      rw [may_do]
      exact may_createZone fun sub h' => may_pure.mpr rfl
  unfold topologizeCore
  rw [may_do]
  refine may_mono ?_ hsub
  rintro ⟨_, sg⟩ h' rfl
  rw [may_do]
  exact may_findSchedGroup fun before sc after h' => may_pure.mpr (hQ _ h')

/-- It is the last thing to be done that wants an element. -/
theorem may_topologize {thread core pkg cputype : Nat}
    {Q : TorqueErr × Ctx × Table TopMap → Heap Kind → Prop} (haid : aid < cpuSetsize)
    (hQ : aid < tm.elems.length → ∀ c' tm' h', tm'.elems.length = tm.elems.length →
      Q (.none, c', tm') h') :
    may (onMask mask) (topologize c tm aid thread core pkg cputype) Q h := by
  unfold topologize
  rw [if_neg (Nat.not_le.mpr haid), may_do]
  refine may_findSchedGroup fun before sg after h' => ?_
  have hentered (sg' : Topt) (h' : Heap Kind) :
      may (onMask mask) (enterCpu c tm aid ⟨thread, core, pkg⟩ before after (.none, sg')) Q h' := by
    rw [enterCpu, may_do]
    exact Table.may_store fun hin => may_pure.mpr (hQ hin _ _ h' Table.length_set)
  dsimp only
  cases hshared : sg.schedulable.shareLevel with
  | true =>
    rw [if_pos rfl, may_do]
    exact may_topologizeCore ((CpuSet.shareLevel_iff _).mp hshared) hentered
  | false => exact hentered sg h'

theorem may_detectPass {Q : TorqueErr × Ctx × Table TopMap → Heap Kind → Prop}
    (haid : aid < cpuSetsize)
    (hQ : aid < tm.elems.length → ∀ c' tm' h', tm'.elems.length = tm.elems.length →
      Q (.none, c', tm') h') : may (onMask mask) (detectPass c tm aid) Q h := by
  unfold detectPass
  rw [may_do]
  refine may_detectCpudetails ?_
  rintro d ⟨thread, core, pkg⟩ h'
  dsimp only
  rw [may_do]
  refine may_placeCputype fun cputype c h' => ?_
  dsimp only
  rw [may_do]
  refine may_topologize haid fun hin c' tm' h' hlen => ?_
  dsimp only
  rw [may_do]
  exact may_query false rfl (may_pure.mpr (hQ hin c' tm' h' hlen))

/-- The loop gets as far as a CPU that has no element. -/
theorem may_detectLoop {z i : Nat} (hi : i ∈ mask.cpus) (hle : aid ≤ i)
    (hout : tm.elems.length ≤ i) (hz : (mask.cpus.filter (aid ≤ ·)).card ≤ z) :
    may (onMask mask) (detectLoop mask z aid c tm) (fun _ _ => False) h := by
  induction z generalizing aid c tm h with
  | zero =>
    have hmem : i ∈ mask.cpus.filter (aid ≤ ·) := Finset.mem_filter.mpr ⟨hi, hle⟩
    rw [Finset.card_eq_zero.mp (Nat.le_zero.mp hz)] at hmem
    cases hmem
  | succ z ih =>
    have haid : aid ≤ cpuSetsize := hle.trans (mask.bounded i hi).le
    obtain ⟨-, -, hskip, -⟩ := mask.next_spec haid
    have hnext : mask.next aid ≤ i := by
      by_contra hlt
      exact hskip i hle (Nat.not_le.mp hlt) hi
    have hlt : mask.next aid < cpuSetsize := hnext.trans_lt (mask.bounded i hi)
    have hcard := mask.card_after_next haid hlt
    rw [detectLoop, if_neg hlt.ne, may_do]
    refine may_detectPass hlt fun hin c' tm' h' hlen => ?_
    exact ih (by omega) (by omega) (by omega)

theorem may_detectArchitecture {i : Nat} (hi : i ∈ mask.cpus) (hout : mask.count ≤ i) :
    may (onMask mask) (detectArchitecture {}) (fun _ _ => False) h := by
  have hcard : (mask.cpus.filter (0 ≤ ·)).card ≤ mask.count := by
    rw [mask.count_eq_card]
    exact Finset.card_filter_le ..
  have hcount : mask.count ≠ 0 := by
    rw [mask.count_eq_card]
    exact Finset.card_ne_zero_of_mem hi
  have hcpus (c : Ctx) (topmap : Nat) (h : Heap Kind) :
      may (onMask mask) (detectCpus topmap mask.count mask c) (fun _ _ => False) h := by
    unfold detectCpus
    rw [may_do]
    refine may_mono (fun _ _ => False.elim) (may_detectLoop hi (Nat.zero_le i) ?_ hcard)
    simpa only [Table.elems, List.length_replicate] using hout
  have hcputypes : may (onMask mask) (detectCputypes {}) (fun _ _ => False) h := by
    unfold detectCputypes detectCpucount
    rw [may_do, may_do]
    refine may_query (o := .getaffinity) (some mask) (decide_eq_true rfl) (may_pure.mpr ?_)
    generalize mask.count = cpucount at hcount hcpus
    dsimp only
    rw [if_neg hcount, may_do]
    exact may_realloc (fun _ => rfl) fun topmap h' => hcpus _ topmap h'
  unfold detectArchitecture
  rw [may_do]
  exact may_mono (fun _ _ => False.elim) hcputypes

end Beyond

/-- Whatever fails in `detect_architecture`, each block is freed once and the
context is empty again; so it is after `free_architecture` of a context that has
been filled. With the `free_torque_ctx` that follows the failure, no block is
left, and none is freed a second time. Nothing is done outside of the blocks. -/
structure Discards (mask : CpuSet) : Prop where
  failed : Correct (Given mask) (detectArchitecture {}) {} fun r h => r.1 ≠ 0 → Discarded h r.2
  again : Correct (Given mask) (detectArchitecture {} >>= fun r => freeArchitecture r.2) {}
    fun c h => Discarded h c
  undone : Correct (Given mask) torqueInitSigmasked {} fun r h => r = none → h.FreedOnce

theorem discards_of_dense (hmask : mask.cpus = Finset.range mask.count) : Discards mask where
  failed := by
    refine correct_of_wp (wp_detectArchitecture hmask owns_start ?_ ?_)
    · intro e h _ ho _
      exact discarded_of_owns ho
    · intro c h _ he
      exact absurd rfl he
  again := by
    refine correct_of_wp ?_
    rw [wp_do]
    refine wp_detectArchitecture hmask owns_start ?_ ?_
    · intro e h _ ho
      exact wp_freeArchitecture ⟨rfl, rfl, ho⟩ fun h ho => discarded_of_owns ho
    · intro c h hc
      exact wp_freeArchitecture hc fun h ho => discarded_of_owns ho
  undone := correct_of_wp (wp_torqueInitSigmasked hmask)

/-- Two CPUs of one type, and a driver that cannot count its devices; `b` is the
block for a call that wants one. -/
def oneType (b : Nat) : (o : Op) → o.Rep Ask.Rep
  | .realloc .. => some b
  | .free _ | .wild => ()
  | .other .getaffinity => some ((CpuSet.zero.set 0).set 1)
  | .other (.x86cpuid _) =>
    { padding := []
      entries := [.tlb ⟨64, 4096, 4, 1, .data, 1⟩]
      vendor := some (.x86 ⟨6, 0, 0, .oem, {}, 0⟩, 1, 2)
      brandname := some "" }
  | .other .cudadevcount => (-1 : Int)
  | .other .pagesize => (4096 : Int)
  | .other (.cudaAttributes _) => .error .inval
  | .other (.cudaName _) => none
  | .other .sysmem => (1, 4096, none)
  | .other .pinThread | .other .unpinThread | .other .spawnThread | .other .reapThreads
  | .other .initializeEtables | .other .initEvqueue | .other .freeEtables
  | .other .destroyEvqueue => false

theorem lt_count_of_discards (hd : Discards mask) {i : Nat} (hi : i ∈ mask.cpus) :
    i < mask.count := by
  by_contra hout
  have hmay := may_detectArchitecture (h := {}) hi (Nat.not_lt.mp hout)
  exact not_wp_of_may hmay (wp_of_correct (oneType 0) hd.failed)

/-- **Each block of the detection is freed once exactly for a mask without gaps.**
With a gap, `topologize` writes behind the elements of `topmap`, over what the
heap has there, before anything is freed. -/
theorem detectArchitecture_discards_iff (mask : CpuSet) :
    Discards mask ↔ mask.cpus = Finset.range mask.count := by
  constructor
  · intro hd
    refine cpus_eq_range_of_subset fun i hi => ?_
    exact Finset.mem_range.mpr (lt_count_of_discards hd hi)
  · exact discards_of_dense

/-- Eight blocks are made: 5 and 6 are the second CPU's, which is matched. -/
example : (exec (Lib.Prog.step Heap.next) ({}, detectArchitecture {})
      (([0, 0, 0, 0, 1, 2, 3, 4, 0, 0, 0, 5, 6, 0, 0, 7, 0, 0, 0, 0, 0, 0, 0, 0, 0] : List Nat).map
        oneType)).map (fun x => (x.1.made.length, x.1.freed)) =
    some (8, [3, 2, 1, 4, 7, 0, 6, 5]) := by
  decide +kernel

/-- CPU 4 alone: the block has one element, and the place goes to the fifth. -/
theorem detectArchitecture_overrun : ¬ Discards (CpuSet.zero.set 4) := by
  intro hd
  have hcpus : (CpuSet.zero.set 4).cpus = {4} := CpuSet.set_cpus (by decide) _
  have hmem : 4 ∈ (CpuSet.zero.set 4).cpus := by
    rw [hcpus]
    exact Finset.mem_singleton_self 4
  have hlt := lt_count_of_discards hd hmem
  rw [CpuSet.count_eq_card, hcpus, Finset.card_singleton] at hlt
  omega

end Libtorque.Architecture
