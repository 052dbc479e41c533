import Libtorque.Startup.Pagesizes
import Libtorque.Hardware.Groups
import Libtorque.Hardware.Types

/-! # What a context describes

A context that `torque_init` returns has each CPU of the mask in its topology,
under the place in the table of a type that is as the CPU was found. -/
namespace Libtorque.Startup
open Libtorque.Hardware Libtorque.Lib

/-- A machine as detection is shown it, whatever fails besides. -/
structure Answers where
  mask : Option CpuSet
  x86cpuid : Nat → Option Detected
  devices : Int
  cudaid : Nat → Int × TorqueCput
  pagesize : Int
  sysmem : Int × Int × Option Nat

/-- The replies are those of the machine. -/
def Answers.Gives (M : Answers) : (o : Op) → o.Rep → Prop
  | .getaffinity, mask => mask = M.mask
  | .x86cpuid aid, found => found = M.x86cpuid aid
  | .cudadevcount, devs => devs = M.devices
  | .cudaid devno, found => found = M.cudaid devno
  | .pagesize, psize => psize = M.pagesize
  | .sysmem, found => found = M.sysmem
  | _, _ => True

def Answers.contract (M : Answers) : Contract Op Op.Rep Ledger where
  ok _ _ := True
  next _ o r _ := M.Gives o r

/-- A processor of the machine. -/
inductive Answers.Shows (M : Answers) : TorqueCput → Prop where
  | cpu {aid : Nat} {d : Detected} (h : M.x86cpuid aid = some d) : M.Shows d.details
  | device {devno : Nat} {d : TorqueCput} (h : M.cudaid devno = (0, d)) : M.Shows d

/-- A table of types that differ, each of which is the type of a processor and
counts those that have it, of `n` in all. -/
structure Table (M : Answers) (types : List TorqueCput) (n : Nat) : Prop
    extends TableOk types n where
  counted : ∀ t ∈ types, 0 < t.elements
  shown : ∀ t ∈ types, ∃ d, compareCpudetails t d = 0 ∧ M.Shows d

/-- A CPU as it has been registered: with its place, and a type like its own. -/
def RegisteredAs (M : Answers) (types : List TorqueCput) (r : Reg) : Prop :=
  ∃ d, M.x86cpuid r.aid = some d ∧ HoldsType types r.cputype d.details ∧
    r.thread = d.thread ∧ r.core = d.core ∧ r.pkg = d.pkg

/-- The types of the groups are places in a table of this length. -/
def TypesBelow (n : Nat) (zone : List TorqueTopt) : Prop :=
  ∀ g ∈ zone, g.cpudesc < n ∧ ∀ c ∈ g.sub, c.cpudesc < n

/-- The CPUs `seen` so far are in the topology and in the table, with `n` devices;
of `topmap`, only their elements have been touched. -/
structure Walked (M : Answers) (seen : Finset Nat) (n : Nat) (c : TorqueCtx) : Prop where
  table : Table M c.cpudescs (seen.card + n)
  registered : ∃ S, Inv S c.topology ∧ S.image Reg.aid = seen ∧ ∀ r ∈ S, RegisteredAs M c.cpudescs r
  types : TypesBelow c.cpudescs.length c.topology.zone
  zone : ZoneWithin seen c.topology.zone
  touched : ∀ i ∈ c.topology.touched, i ∈ seen
  nodes : c.manodes = []

/-- All the memory, with the page sizes of the system and of the TLBs of these
types. -/
def Answers.node (M : Answers) (types : List TorqueCput) : TorqueNode where
  count := 1
  psizevals := records [M.pagesize.toNat] (tlbPagesizes types)
  size := determineSysmem M.sysmem.1 M.sysmem.2.1 M.sysmem.2.2

/-- What a context describes. -/
structure Found (M : Answers) (c : TorqueCtx) : Prop where
  cpus : ∃ mask, M.mask = some mask ∧ mask.cpus.Nonempty ∧
    Walked M mask.cpus M.devices.toNat { c with manodes := [] }
  nodes : c.manodes = [M.node c.cpudescs]
  paged : 0 < M.pagesize
  sized : 0 < (M.node c.cpudescs).size

variable {M : Answers} {c : TorqueCtx} {s : Ledger} {seen : Finset Nat} {n : Nat}
  {types types' : List TorqueCput}

/-! ## Calls -/

theorem wp_reply_of {o : Op} {Q : o.Rep → Ledger → Prop} (h : ∀ r t, M.Gives o r → Q r t) :
    wp M.contract (Prog.perform o) Q s :=
  wp_op trivial h

theorem wp_fails_any {call : Call} {Q : Bool → Ledger → Prop} (h : ∀ b t, Q b t) :
    wp M.contract (fails call) Q s :=
  wp_reply_of fun b t _ => h b t

/-- Where the result holds of everything. -/
theorem wp_anything {α : Type} {x : Prog α} {Q : α → Ledger → Prop} (h : ∀ a t, Q a t) :
    wp M.contract x Q s :=
  wp_any (fun _ _ => trivial) h

/-! ## Placing a processor -/

theorem Table.placed {realloc : Bool} {d : TorqueCput} {slot : Nat} (h : Table M types n)
    (hd : M.Shows d) (hp : Hardware.placeCputype realloc types d = some (slot, types')) :
    Table M types' (n + 1) ∧ HoldsType types' slot d ∧
      (∀ i e, HoldsType types i e → HoldsType types' i e) := by
  obtain ⟨hok, hslot, hkept⟩ := placeCputype_spec h.toTableOk hp
  have hall : ∀ t ∈ types', 0 < t.elements ∧ ∃ d, compareCpudetails t d = 0 ∧ M.Shows d := by
    intro t ht
    rcases placeCputype_mem hp ht with ⟨u, hu, hcmp, hle⟩ | ⟨hcmp, hpos⟩
    · obtain ⟨e, he, hshown⟩ := h.shown u hu
      have hcounted := h.counted u hu
      exact ⟨by omega, e, compareCpudetails_trans hcmp he, hshown⟩
    · exact ⟨hpos, d, hcmp, hd⟩
  exact ⟨⟨hok, fun t ht => (hall t ht).1, fun t ht => (hall t ht).2⟩, hslot, hkept⟩

theorem HoldsType.lt {i : Nat} {d : TorqueCput} (h : HoldsType types i d) : i < types.length := by
  obtain ⟨t, ht, -⟩ := h
  exact (List.getElem?_eq_some_iff.mp ht).1

theorem length_le_of_kept (h : ∀ i e, HoldsType types i e → HoldsType types' i e) :
    types.length ≤ types'.length := by
  rcases Nat.eq_zero_or_pos types.length with hzero | hpos
  · omega
  · have hlast : types.length - 1 < types.length := by omega
    have hself : HoldsType types (types.length - 1) types[types.length - 1] :=
      ⟨_, List.getElem?_eq_getElem hlast, compareCpudetails_self _⟩
    have hlt := HoldsType.lt (h _ _ hself)
    omega

/-- What `match_cputype`, else `add_cputype`, comes to. -/
theorem wp_placeCputype_of {d : TorqueCput} {Q : Option Nat × TorqueCtx → Ledger → Prop}
    (hnone : ∀ t, Q (none, c) t)
    (hsome : ∀ realloc slot types t,
      Hardware.placeCputype realloc c.cpudescs d = some (slot, types) →
        Q (some slot, { c with cpudescs := types }) t) :
    wp M.contract (placeCputype c d) Q s := by
  unfold placeCputype
  split
  · rename_i i hi
    rw [wp_do]
    refine wp_reply_of fun _ t _ => hsome true i _ t ?_
    unfold Hardware.placeCputype
    rw [hi]
  · rename_i hno
    rw [wp_do]
    refine wp_reply_of fun ok t _ => ?_
    split
    · rw [wp_do]
      exact wp_reply_of fun _ t _ => hnone t
    · rename_i i types hadd
      refine hsome ok i types t ?_
      unfold Hardware.placeCputype
      rw [hno]
      exact hadd

/-! ## Entering a CPU -/

theorem findSchedGroup_all {p : TorqueTopt → Prop} {malloc : Bool} {id cputype : Nat}
    {zone : List TorqueTopt} {f : Focus} (h : findSchedGroup malloc id cputype zone = some f)
    (hall : ∀ g ∈ zone, p g) (hnew : p (createZone id cputype)) : p f.node := by
  rcases findSchedGroup_list h with ⟨hmem, -⟩ | ⟨hmade, -⟩
  · exact hall _ hmem
  · rw [hmade]
    exact hnew

theorem TypesBelow.mono {zone : List TorqueTopt} {m : Nat} (h : TypesBelow n zone) (hle : n ≤ m) :
    TypesBelow m zone := fun g hg =>
  ⟨Nat.lt_of_lt_of_le (h g hg).1 hle, fun c hc => Nat.lt_of_lt_of_le ((h g hg).2 c hc) hle⟩

theorem TypesBelow.joined {t t' : Topology} {r : Reg} {f : Focus} {sg : TorqueTopt}
    (h : TypesBelow n t.zone) (hr : r.cputype < n) (hj : Joined t t' r f sg) :
    TypesBelow n t'.zone := by
  obtain ⟨malloc, hf⟩ := hj.found
  obtain ⟨hnode, hsub⟩ := findSchedGroup_all
    (p := fun g => g.cpudesc < n ∧ ∀ c ∈ g.sub, c.cpudesc < n) hf h ⟨hr, nofun⟩
  have hsg : sg.cpudesc < n ∧ ∀ c ∈ sg.sub, c.cpudesc < n := by
    rcases hj.node with ⟨-, rfl⟩ | ⟨-, m, g, hg, rfl⟩
    · exact ⟨hnode, hsub⟩
    · refine ⟨hnode, fun c hc => ?_⟩
      have hopened : ∀ c ∈ openedSub t.tm r.cputype f.node, c.cpudesc < n := by
        by_cases hnil : f.node.sub = []
        · rw [openedSub_nil hnil]
          intro c hc
          rw [List.mem_singleton.mp hc]
          exact hr
        · rw [openedSub_cons hnil]
          exact hsub
      rcases mem_list hc with rfl | hc
      · exact findSchedGroup_all (p := fun g => g.cpudesc < n) hg hopened hr
      · exact hopened c (findSchedGroup_rest hg c hc)
  intro g hg
  rw [hj.zone] at hg
  rcases mem_list hg with rfl | hg
  · exact hsg
  · exact h g (findSchedGroup_rest hf g hg)

theorem RegisteredAs.kept {r : Reg} (h : RegisteredAs M types r)
    (hkept : ∀ i e, HoldsType types i e → HoldsType types' i e) : RegisteredAs M types' r := by
  obtain ⟨d, hd, hholds, hplace⟩ := h
  exact ⟨d, hd, hkept _ _ hholds, hplace⟩

theorem Walked.entered {realloc : Bool} {aid slot : Nat} {d : Detected} {mem : ZoneMallocs}
    {t : Topology} {ev : Bool} (h : Walked M seen n c) (hnew : aid ∉ seen) (hlt : aid < cpuSetsize)
    (hd : M.x86cpuid aid = some d)
    (hplace : Hardware.placeCputype realloc c.cpudescs d.details = some (slot, types))
    (htop : topologize mem c.topology aid d.thread d.core d.pkg slot = (.none, t)) :
    Walked M (insert aid seen) n { c with cpudescs := types, topology := t, ev } := by
  obtain ⟨htable, hslot, hkept⟩ := h.table.placed (.cpu hd) hplace
  obtain ⟨S, hinv, himage, hregs⟩ := h.registered
  let r : Reg := ⟨aid, d.thread, d.core, d.pkg, slot⟩
  have hcall : c.topology.call (r, mem) = (.none, t) := htop
  rcases call_cases hlt hcall with ⟨-, f, sg, hjoined⟩ | ⟨herr, -⟩
  swap
  · exact absurd rfl herr
  have hsub : seen ⊆ insert aid seen := Finset.subset_insert aid seen
  have hinside := topologize_touched mem d.thread d.core d.pkg slot
    (fun _ => Finset.mem_insert_self aid seen) (fun g hg => (h.zone g hg).trans hsub)
    (fun i hi => hsub (h.touched i hi))
  rw [htop] at hinside
  refine ⟨?_, ⟨insert r S, hinv.joined hlt (himage ▸ hnew) hjoined, ?_, ?_⟩, ?_, hinside.1,
    hinside.2, h.nodes⟩
  · rw [Finset.card_insert_of_notMem hnew, Nat.add_right_comm]
    exact htable
  · rw [Finset.image_insert, himage]
  · intro r' hr'
    rcases Finset.mem_insert.mp hr' with rfl | hr'
    · exact ⟨d, hd, hslot, rfl, rfl, rfl⟩
    · exact (hregs r' hr').kept hkept
  · exact (h.types.mono (length_le_of_kept hkept)).joined (HoldsType.lt hslot) hjoined

/-- A device. -/
theorem Walked.added {realloc : Bool} {slot : Nat} {d : TorqueCput} (h : Walked M seen n c)
    (hd : M.Shows d) (hplace : Hardware.placeCputype realloc c.cpudescs d = some (slot, types)) :
    Walked M seen (n + 1) { c with cpudescs := types } := by
  obtain ⟨htable, -, hkept⟩ := h.table.placed hd hplace
  obtain ⟨S, hinv, himage, hregs⟩ := h.registered
  exact ⟨htable, ⟨S, hinv, himage, fun r hr => (hregs r hr).kept hkept⟩,
    h.types.mono (length_le_of_kept hkept), h.zone, h.touched, h.nodes⟩

/-! ## The loops -/

theorem wp_spawnThread_ev {Q : Bool × TorqueCtx → Ledger → Prop}
    (h : ∀ failed ev t, Q (failed, { c with ev }) t) : wp M.contract (spawnThread c) Q s := by
  have hsame : ∀ failed t, Q (failed, c) t := fun failed t => h failed c.ev t
  unfold spawnThread
  rw [wp_do]
  refine wp_anything fun setup t => ?_
  split
  · exact hsame true t
  rw [wp_do]
  refine wp_anything fun mutex t => ?_
  split
  · rw [wp_do]
    exact wp_anything fun _ t => hsame true t
  rw [wp_do]
  refine wp_anything fun cond t => ?_
  split
  · rw [wp_do]
    refine wp_anything fun _ t => ?_
    rw [wp_do]
    exact wp_anything fun _ t => hsame true t
  rw [wp_do]
  refine wp_anything fun create t => ?_
  split
  · rw [wp_do]
    refine wp_anything fun _ t => ?_
    rw [wp_do]
    refine wp_anything fun _ t => ?_
    rw [wp_do]
    exact wp_anything fun _ t => hsame true t
  · simp only [wp_do]
    refine wp_anything fun attr t => wp_anything fun lock t => wp_anything fun wait t => ?_
    refine wp_anything fun unlock t => wp_anything fun cond t => wp_anything fun mutex t => ?_
    split
    · rw [wp_do]
      exact wp_anything fun _ t => h true _ t
    · exact h false _ t

/-- The postcondition of a step that is to be right where it succeeds. -/
def WhenNone (p : TorqueCtx → Prop) (r : TorqueErr × TorqueCtx) (_ : Ledger) : Prop :=
  r.1 = .none → p r.2

theorem whenNone_of_ne {p : TorqueCtx → Prop} {e : TorqueErr} {t : Ledger} (h : e ≠ .none) :
    WhenNone p (e, c) t :=
  fun he => absurd he h

/-- One pass of `detect_cputypes`. -/
theorem wp_detectPass_enters {elems aid : Nat} (h : Walked M seen n c) (hnew : aid ∉ seen)
    (hlt : aid < cpuSetsize) :
    wp M.contract (detectPass elems c aid) (WhenNone (Walked M (insert aid seen) n)) s := by
  unfold detectPass detectCpudetails
  rw [wp_do, wp_do]
  refine wp_fails_any fun pin t => ?_
  split
  · exact nofun
  rw [wp_do]
  refine wp_reply_of fun found t hfound => ?_
  cases found with
  | none =>
    dsimp only
    rw [wp_do]
    exact wp_anything fun _ _ => nofun
  | some d =>
    rw [wp_pure]
    dsimp only
    rw [wp_do]
    refine wp_placeCputype_of (fun _ => nofun) fun realloc slot types t hplace => ?_
    dsimp only
    rw [wp_do]
    refine wp_anything fun mem t => ?_
    split
    · rename_i top htop
      rw [wp_do]
      refine wp_spawnThread_ev fun failed ev t => ?_
      cases failed with
      | true => exact nofun
      | false => exact fun _ => h.entered hnew hlt hfound.symm hplace htop
    · rename_i e top he htop
      exact fun hnone => absurd hnone he

/-- The loop, which ends when as many CPUs have been entered as are in the mask. -/
theorem wp_detectLoop_enters {elems : Nat} {mask : CpuSet} (z aid : Nat) (haid : aid ≤ cpuSetsize)
    (hseen : ∀ cpu ∈ seen, cpu < aid ∧ cpu ∈ mask.cpus) (hz : z + seen.card = mask.cpus.card)
    (h : Walked M seen n c) :
    wp M.contract (detectLoop elems mask z aid c) (WhenNone (Walked M mask.cpus n)) s := by
  induction z generalizing aid seen c s with
  | zero =>
    have hall : seen = mask.cpus :=
      Finset.eq_of_subset_of_card_le (fun cpu hcpu => (hseen cpu hcpu).2) (by omega)
    exact fun _ => hall ▸ h
  | succ z ih =>
    obtain ⟨hge, hle, -, hmem⟩ := mask.next_spec haid
    rw [detectLoop]
    split
    · exact whenNone_of_ne (by decide)
    rename_i hend
    have hlt : mask.next aid < cpuSetsize := by omega
    have hnew : mask.next aid ∉ seen := fun hold => by
      have hbelow := (hseen _ hold).1
      omega
    rw [wp_do]
    refine wp_mono ?_ (wp_detectPass_enters h hnew hlt)
    rintro ⟨e, c'⟩ t hc
    cases e with
    | none =>
      refine ih (mask.next aid + 1) hlt ?_ ?_ (hc rfl)
      · intro cpu hcpu
        rcases Finset.mem_insert.mp hcpu with rfl | hcpu
        · exact ⟨Nat.lt_succ_self _, hmem hlt⟩
        · have hold := hseen cpu hcpu
          exact ⟨by omega, hold.2⟩
      · rw [Finset.card_insert_of_notMem hnew]
        omega
    | _ => exact whenNone_of_ne fun he => by cases he

/-! ## The whole -/

theorem Walked.start : Walked M ∅ 0 {} where
  table := ⟨⟨.nil, rfl⟩, by simp, by simp⟩
  registered := ⟨∅, Inv.empty, rfl, by simp⟩
  types := by simp [TypesBelow]
  zone := by simp [ZoneWithin]
  touched := by simp
  nodes := rfl

theorem wp_cputypesErr_fails {topmap : Bool} {ret : TorqueErr} {p : TorqueCtx → Prop}
    (hret : ret ≠ .none) : wp M.contract (cputypesErr topmap ret c) (WhenNone p) s := by
  unfold cputypesErr
  simp only [wp_do]
  refine wp_anything fun _ t => wp_anything fun _ t => wp_anything fun c t => ?_
  split
  · rw [wp_do]
    exact wp_anything fun _ _ hnone => absurd hnone hret
  · exact fun hnone => absurd hnone hret

/-- The CPUs of the machine's mask. -/
def Entered (M : Answers) (n : Nat) (c : TorqueCtx) : Prop :=
  ∃ mask, M.mask = some mask ∧ mask.cpus.Nonempty ∧ Walked M mask.cpus n c

theorem wp_detectCputypes_enters :
    wp M.contract (detectCputypes {}) (WhenNone (Entered M 0)) s := by
  unfold detectCputypes detectCpucount
  rw [wp_do, wp_do]
  refine wp_reply_of fun found t hfound => ?_
  cases found with
  | none => exact wp_cputypesErr_fails (by decide)
  | some mask =>
    rw [wp_pure, mask.count_eq_card]
    dsimp only
    split
    · exact wp_cputypesErr_fails (by decide)
    rename_i hcount
    rw [wp_do]
    refine wp_anything fun topmap t => ?_
    split
    swap
    · exact wp_cputypesErr_fails (by decide)
    rw [wp_do]
    refine wp_mono ?_ (wp_detectLoop_enters mask.cpus.card 0 (Nat.zero_le cpuSetsize) (by simp)
      (by simp) Walked.start)
    rintro ⟨e, c⟩ t hc
    cases e with
    | none =>
      dsimp only
      rw [wp_do]
      refine wp_fails_any fun unpin t => ?_
      split
      · exact wp_cputypesErr_fails (by decide)
      · rw [wp_do]
        refine wp_anything fun _ t _ => ⟨mask, hfound.symm, ?_, hc rfl⟩
        exact Finset.card_pos.mp (Nat.pos_of_ne_zero hcount)
    | _ => exact wp_cputypesErr_fails nofun

/-- The devices that are left, from the `i`th on. -/
theorem wp_cudaLoop_adds {p : TorqueCtx → Prop} (k i : Nat) (h : Entered M i c)
    (hp : ∀ c, Entered M (i + k) c → p c) :
    wp M.contract (cudaLoop k i c) (fun r _ => r.1 = 0 → p r.2) s := by
  induction k generalizing i c s with
  | zero => exact fun _ => hp c h
  | succ k ih =>
    rw [cudaLoop, wp_do]
    refine wp_reply_of fun found t hfound => ?_
    obtain ⟨e, d⟩ := found
    dsimp only
    split
    · exact fun hzero : (-1 : Int) = 0 => absurd hzero (by decide)
    rename_i he
    rw [wp_do]
    refine wp_placeCputype_of (fun _ (hzero : TorqueErr.resource.code = 0) => ?_)
      fun realloc slot types t hplace => ?_
    · exact absurd hzero (by decide)
    obtain ⟨mask, hmask, hne, hwalked⟩ := h
    have hshown : M.Shows d := .device (hfound.symm.trans (by rw [not_not.mp he]))
    refine ih (i + 1) ⟨mask, hmask, hne, hwalked.added hshown hplace⟩ fun c hc => hp c ?_
    rwa [Nat.add_assoc, Nat.add_comm 1 k] at hc

theorem wp_detectCuda_adds (h : Entered M 0 c) :
    wp M.contract (detectCuda c) (fun r _ => r.1 = 0 → Entered M M.devices.toNat r.2) s := by
  unfold detectCuda
  rw [wp_do]
  refine wp_reply_of fun devs t hdevs => ?_
  split
  · exact nofun
  · refine wp_cudaLoop_adds devs.toNat 0 h fun c hc => ?_
    cases hdevs
    rwa [Nat.zero_add] at hc

/-! ## Memories -/

/-- The page size that is remembered is that of the machine. -/
theorem sysconf_gives (seen : Option Int) (_ : Ledger) (o : Op) (r : o.Rep) (_ : Ledger)
    (_ : True) (hseen : ∀ psize ∈ seen, psize = M.pagesize) (hgives : M.Gives o r) :
    ∃ seen', anyReply.next seen o r seen' ∧ ∀ psize ∈ seen', psize = M.pagesize := by
  cases o
  case pagesize =>
    refine ⟨some r, ⟨rfl, rfl⟩, fun psize hpsize => ?_⟩
    cases hpsize
    exact hgives
  all_goals exact ⟨seen, ⟨rfl, rfl⟩, hseen⟩

/-- `determine_pagesizes` needs no more of the replies than the page size. -/
theorem wp_determinePagesizes_records :
    wp M.contract (determinePagesizes c)
      (fun r _ => r.1 = false → 0 < M.pagesize ∧ r.2 = (M.node c.cpudescs).psizevals) s := by
  have hpos : wp M.contract (determinePagesizes c) (fun r _ => r.1 = false → 0 < M.pagesize) s := by
    unfold determinePagesizes
    rw [wp_do]
    refine wp_reply_of fun psize t hpsize => ?_
    split
    · exact nofun
    · rename_i hlt
      cases hpsize
      exact wp_anything fun _ _ _ => Int.not_le.mp hlt
  have hrecords := wp_simulate (K := anyReply) (L := M.contract) (t := s)
    (I := fun seen _ => ∀ psize ∈ seen, psize = M.pagesize) (only_true _)
    (fun _ _ _ _ => trivial) (fun _ _ _ _ _ _ => trivial) sysconf_gives (by simp)
    (determinePagesizes_records (c := c))
  refine wp_mono ?_ (wp_and (fun _ _ _ _ h => h) hpos hrecords)
  rintro r t ⟨hpaged, seen, hseen, hvals⟩ hok
  obtain ⟨psize, rfl, hfound⟩ := hvals hok
  rw [hseen psize rfl] at hfound
  exact ⟨hpaged hok, hfound⟩

theorem wp_memoriesErr_fails {vals : List Nat} {Q : Bool × TorqueCtx → Ledger → Prop}
    (h : ∀ c t, Q (true, c) t) : wp M.contract (memoriesErr vals c) Q s := by
  unfold memoriesErr
  rw [wp_do]
  refine wp_anything fun c t => ?_
  split
  · exact h c t
  · rw [wp_do]
    exact wp_anything fun _ t => h c t

theorem wp_detectMemories_adds (h : Entered M M.devices.toNat c) :
    wp M.contract (detectMemories c) (fun r _ => r.1 = false → Found M r.2) s := by
  unfold detectMemories
  rw [wp_do]
  refine wp_mono ?_ wp_determinePagesizes_records
  rintro ⟨failed, vals⟩ t hvals
  dsimp only at hvals ⊢
  split
  · exact wp_memoriesErr_fails fun _ _ => nofun
  rename_i hok
  obtain ⟨hpaged, rfl⟩ := hvals (by simpa using hok)
  rw [wp_do]
  refine wp_reply_of fun sysmem t hsysmem => ?_
  cases hsysmem
  split
  · exact wp_memoriesErr_fails fun _ _ => nofun
  rename_i hsize
  rw [wp_do]
  refine wp_anything fun realloc t => ?_
  split
  · obtain ⟨mask, hmask, hne, hwalked⟩ := h
    have hnodes := hwalked.nodes
    refine fun _ => ⟨⟨mask, hmask, hne, ?_⟩, ?_, hpaged, Nat.pos_of_ne_zero hsize⟩
    · rw [← hnodes]
      exact hwalked
    · rw [hnodes]
      rfl
  · exact wp_memoriesErr_fails fun _ _ => nofun

/-! ## The context -/

theorem wp_detectArchitecture_finds :
    wp M.contract (detectArchitecture {}) (fun r _ => r.1 = 0 → Found M r.2) s := by
  have herr {ret : Int} {c : TorqueCtx} {t : Ledger} (hret : ret ≠ 0) :
      wp M.contract (do let c ← freeArchitecture c; pure (ret, c))
        (fun r _ => r.1 = 0 → Found M r.2) t := by
    rw [wp_do]
    exact wp_anything fun _ _ hzero => absurd hzero hret
  unfold detectArchitecture
  rw [wp_do]
  refine wp_mono ?_ wp_detectCputypes_enters
  rintro ⟨e, c⟩ t hc
  dsimp only
  split
  · rename_i he
    exact herr he
  rename_i he
  have hnone : e = .none := by
    by_contra hne
    exact he (code_ne_zero hne)
  rw [wp_do]
  refine wp_mono ?_ (wp_detectCuda_adds (hc hnone))
  rintro ⟨e, c⟩ t hc
  dsimp only
  split
  · rename_i he
    exact herr he
  rename_i he
  rw [wp_do]
  refine wp_mono ?_ (wp_detectMemories_adds (hc (not_not.mp he)))
  rintro ⟨failed, c⟩ t hc
  dsimp only
  split
  · exact herr (by decide)
  · rename_i hok
    exact fun _ => hc (by simpa using hok)

/-- A context is made empty. -/
theorem wp_createTorqueCtx_empty {e : Int} :
    wp M.contract (createTorqueCtx e) (fun r _ => ∀ c, r.1 = some c → c = {}) s := by
  unfold createTorqueCtx
  rw [wp_do]
  refine wp_anything fun made t => ?_
  split
  swap
  · exact nofun
  rw [wp_do]
  refine wp_anything fun etables t => ?_
  split
  · rw [wp_do]
    exact wp_anything fun _ _ => nofun
  rw [wp_do]
  refine wp_anything fun evq t => ?_
  split
  · rw [wp_do]
    refine wp_anything fun _ t => ?_
    rw [wp_do]
    exact wp_anything fun _ _ => nofun
  · exact fun c hc => (Option.some.inj hc).symm

theorem wp_torqueInitSigmasked_finds {e : Int} :
    wp M.contract (torqueInitSigmasked e) (fun r _ => ∀ c, r.1 = some c → Found M c) s := by
  unfold torqueInitSigmasked
  rw [wp_do]
  refine wp_mono ?_ wp_createTorqueCtx_empty
  rintro ⟨ret, e⟩ t hret
  cases ret with
  | none => exact nofun
  | some c =>
    cases hret c rfl
    dsimp only
    rw [wp_do]
    refine wp_mono ?_ wp_detectArchitecture_finds
    rintro ⟨e, c⟩ t hc
    dsimp only
    split
    · rw [wp_do]
      exact wp_anything fun _ _ => nofun
    · rename_i he
      intro c' hc'
      cases hc'
      exact hc (not_not.mp he)

/-- What is returned has been found. -/
theorem wp_torqueInit_finds :
    wp M.contract torqueInit (fun r _ => ∀ c, r.1 = some c → Found M c) s := by
  have hnull {p : Prog (Option TorqueCtx × Int)} {t : Ledger} {e : Int}
      (hp : p = pure (none, e)) : wp M.contract p (fun r _ => ∀ c, r.1 = some c → Found M c) t := by
    subst hp
    exact fun _ hc => nomatch hc
  unfold torqueInit
  rw [wp_do]
  refine wp_anything fun found t => ?_
  cases found with
  | none => exact hnull rfl
  | some dfl =>
    dsimp only
    rw [wp_do]
    refine wp_anything fun pipe t => ?_
    split
    · exact hnull rfl
    rw [wp_do]
    refine wp_anything fun made t => ?_
    split
    · exact hnull rfl
    rw [wp_do]
    refine wp_anything fun block t => ?_
    split
    · exact hnull rfl
    rw [wp_do]
    refine wp_mono ?_ wp_torqueInitSigmasked_finds
    rintro ⟨ret, e⟩ t hret
    dsimp only
    rw [wp_do]
    refine wp_anything fun setmask t => ?_
    split
    · rw [wp_do]
      exact wp_anything fun _ _ => hnull rfl
    · exact hret

theorem found_of_run {replies : List ((o : Op) → o.Rep)} {e : Int}
    (hreplies : ∀ r ∈ replies, ∀ o, M.Gives o (r o))
    (hrun : exec (Lib.Prog.step Ledger.next) ({}, torqueInit) replies =
      some (s, .ret (some c, e))) : Found M c :=
  exec_of_replies (K := M.contract) (fun _ o _ _ hr _ => hr o) wp_torqueInit_finds hreplies hrun c
    rfl

/-- With a mask that has no gaps, all of `topmap` that was touched is there. -/
theorem Found.inside {mask : CpuSet} (h : Found M c) (hmask : M.mask = some mask)
    (hdense : mask.cpus = Finset.range mask.count) : ∀ i ∈ c.topology.touched, i < mask.count := by
  obtain ⟨mask', hmask', -, hwalked⟩ := h.cpus
  cases hmask.symm.trans hmask'
  intro i hi
  have hcpu := hwalked.touched i hi
  rw [hdense] at hcpu
  exact Finset.mem_range.mp hcpu

/-- The machine where nothing else fails. -/
def Answers.replies (M : Answers) : (o : Op) → o.Rep
  | .getaffinity => M.mask
  | .x86cpuid aid => M.x86cpuid aid
  | .cudadevcount => M.devices
  | .cudaid devno => M.cudaid devno
  | .pagesize => M.pagesize
  | .sysmem => M.sysmem
  | o => without (fun _ => false) o

theorem Answers.gives_replies (M : Answers) (k : Nat) :
    ∀ r ∈ List.replicate k M.replies, ∀ o, M.Gives o (r o) := by
  intro r hr o
  rw [List.eq_of_mem_replicate hr]
  cases o <;> first | rfl | trivial

/-- Whether `torque_init` returns a context with this property when it has been
given so many replies. -/
def Answers.starts (M : Answers) (k : Nat) (p : TorqueCtx → Bool) : Bool :=
  match exec (Lib.Prog.step Ledger.next) ({}, torqueInit) (List.replicate k M.replies) with
  | some (_, .ret (some c, _)) => p c
  | _ => false

theorem Answers.run_of_starts {k : Nat} {p : TorqueCtx → Bool} (h : M.starts k p = true) :
    ∃ (s : Ledger) (c : TorqueCtx) (e : Int),
      exec (Lib.Prog.step Ledger.next) ({}, torqueInit) (List.replicate k M.replies) =
        some (s, .ret (some c, e)) ∧ p c = true := by
  unfold Answers.starts at h
  split at h
  · rename_i s c e hrun
    exact ⟨s, c, e, hrun, h⟩
  · cases h

/-- CPUs 0 and 1, two cores of a package. -/
def twoCores : Answers where
  mask := some ((CpuSet.zero.set 0).set 1)
  x86cpuid aid := some
    { details :=
        { elements := 0, threadspercore := 1, coresperpackage := 2, tlbdescs := []
          strdescription := "", memdescs := []
          spec := .x86 { family := 6, model := 15, stepping := 0, x86type := .oem
                         features := {}, apic := 0 } }
      thread := 0, core := aid, pkg := 0 }
  devices := 0
  cudaid _ := (TorqueErr.unavail.code, ⟨0, 0, 0, [], "", [], .nvidia 0 0, []⟩)
  pagesize := 4096
  sysmem := (0x40000, 4096, none)

end Libtorque.Startup
