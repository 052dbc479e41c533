import Libtorque.Hardware.Arch
import Mathlib.Algebra.GroupWithZero.Nat

/-! # The processor types that detection finds

Each CPU of the mask is detected, placed in the table of types, entered into
the topology under its place in the table, and given a thread. The calls that
the detection makes are listed beside its result. -/
namespace Libtorque.Hardware

/-- What the detection loop calls, for which CPU. -/
inductive DetectCall where
  | details (aid : Nat)
  | topologize (aid cputype : Nat)
  | spawn (aid : Nat)
deriving DecidableEq, Repr

def DetectCall.details? : DetectCall → Option Nat
  | details aid => some aid
  | _ => none

def DetectCall.topologize? : DetectCall → Option Nat
  | topologize aid _ => some aid
  | _ => none

def DetectCall.spawn? : DetectCall → Option Nat
  | spawn aid => some aid
  | _ => none

/-- `detectPass`, with the calls it makes. -/
def detectPassLog (p : Pass) (aid : Nat) (c : Ctx) : (TorqueErr × Ctx) × List DetectCall :=
  match detectCpudetails p with
  | .error e => ((e, c), [.details aid])
  | .ok d =>
    match placeCputype p.realloc c.types d.details with
    | none => ((.resource, c), [.details aid])
    | some (slot, types) =>
      match topologize p.zones c.topology aid d.thread d.core d.pkg slot with
      | (.none, t) =>
        (if p.spawn then (.none, ⟨types, t, c.spawned ++ [aid]⟩)
          else (.resource, ⟨types, t, c.spawned⟩),
          [.details aid, .topologize aid slot, .spawn aid])
      | (e, t) => ((e, ⟨types, t, c.spawned⟩), [.details aid, .topologize aid slot])

/-- `detectLoop`, with the calls it makes. -/
def detectLoopLog (M : Machine) (mask : CpuSet) :
    Nat → Nat → Ctx → (TorqueErr × Ctx) × List DetectCall
  | 0, _, c => ((.none, c), [])
  | z + 1, aid, c =>
    let aid := mask.next aid
    if aid = cpuSetsize then ((.affinity, c), [])
    else match detectPassLog (M.pass aid) aid c with
      | ((.none, c), log) =>
        let (out, rest) := detectLoopLog M mask z (aid + 1) c
        (out, log ++ rest)
      | failed => failed

/-- The calls that a detection makes for its CPUs. -/
def detectCalls (M : Machine) : List DetectCall :=
  match M.mask with
  | none => []
  | some mask =>
    if detectCpucount M = 0 ∨ M.mallocTopmap = false then []
    else (detectLoopLog M mask (detectCpucount M) 0 {}).2

/-- The details but for the APIC id. -/
def Spec.noApic : Spec → Spec
  | x86 d => x86 { d with apic := 0 }
  | s => s

/-- The details agree in everything except the APIC id. What lies behind the
members of an entry is no detail. -/
def AgreeButApic (a b : TorqueCput) : Prop :=
  a.spec.noApic = b.spec.noApic ∧ a.tlbdescs = b.tlbdescs ∧ a.memdescs = b.memdescs ∧
    a.threadspercore = b.threadspercore ∧ a.coresperpackage = b.coresperpackage ∧
    a.strdescription = b.strdescription

def SameDetails (a b : TorqueCput) : Prop := AgreeButApic a b ∧ a.spec = b.spec

/-- What a successful detection with this mask should have done: each CPU was
detected, topologized and given a thread once, inside the elements of `topmap`;
the entries of the table differ and count every CPU; and CPUs that agree but for
the APIC id share one. -/
structure Classified (M : Machine) (mask : CpuSet) (types : List TorqueCput)
    (log : List DetectCall) : Prop where
  detected : ∀ cpu, (log.filterMap DetectCall.details?).count cpu =
    if cpu ∈ mask.cpus then 1 else 0
  topologized : ∀ cpu, (log.filterMap DetectCall.topologize?).count cpu =
    if cpu ∈ mask.cpus then 1 else 0
  inside : ∀ i ∈ topmapTouched M, i < detectCpucount M
  spawned : ∀ cpu, (log.filterMap DetectCall.spawn?).count cpu =
    if cpu ∈ mask.cpus then 1 else 0
  distinct : types.Pairwise fun a b => ¬ SameDetails a b
  elements : (types.map TorqueCput.elements).sum = mask.count
  shared : ∀ i j s s' d e, .topologize i s ∈ log → .topologize j s' ∈ log →
    detectCpudetails (M.pass i) = .ok d → detectCpudetails (M.pass j) = .ok e →
    AgreeButApic d.details e.details → s = s'

/-- CPUs of the mask that agree but for the APIC id have the same one, and the same
padding in their tables. -/
def AgreeThroughout (M : Machine) (mask : CpuSet) : Prop :=
  ∀ i ∈ mask.cpus, ∀ j ∈ mask.cpus, ∀ d e, detectCpudetails (M.pass i) = .ok d →
    detectCpudetails (M.pass j) = .ok e → AgreeButApic d.details e.details →
    d.details.spec = e.details.spec ∧ d.details.padding = e.details.padding

/-! ## The log is that of the detection -/

theorem detectPassLog_fst (p : Pass) (aid : Nat) (c : Ctx) :
    (detectPassLog p aid c).1 = detectPass p aid c := by
  unfold detectPassLog detectPass
  cases detectCpudetails p with
  | error e => rfl
  | ok d =>
    dsimp only
    cases placeCputype p.realloc c.types d.details with
    | none => rfl
    | some x =>
      obtain ⟨slot, types⟩ := x
      dsimp only
      rcases topologize p.zones c.topology aid d.thread d.core d.pkg slot with ⟨err, t⟩
      cases err <;> rfl

theorem detectLoopLog_fst (M : Machine) (mask : CpuSet) (z aid : Nat) (c : Ctx) :
    (detectLoopLog M mask z aid c).1 = detectLoop M mask z aid c := by
  induction z generalizing aid c with
  | zero => rfl
  | succ z ih =>
    simp only [detectLoopLog, detectLoop]
    split
    · rfl
    · rw [← detectPassLog_fst]
      rcases detectPassLog (M.pass (mask.next aid)) (mask.next aid) c with ⟨⟨err, c'⟩, log⟩
      cases err with
      | none => exact ih _ _
      | _ => rfl

/-! ## The table -/

/-- What the comparison looks at. -/
theorem compareCpudetails_eq_zero {a b : TorqueCput} :
    compareCpudetails a b = 0 ↔ a.spec = b.spec ∧ a.tlbdescs = b.tlbdescs ∧
      a.memdescs = b.memdescs ∧ a.threadspercore = b.threadspercore ∧
      a.coresperpackage = b.coresperpackage ∧ a.strdescription = b.strdescription ∧
      a.padding = b.padding := by
  unfold compareCpudetails
  constructor
  · intro h
    split at h
    · cases h
    · split at h
      · cases h
      · split at h
        · cases h
        · split at h
          · cases h
          · split at h
            · cases h
            · split at h
              · cases h
              · simp_all
  · rintro ⟨h1, h2, h3, h4, h5, h6, h7⟩
    simp [h1, h2, h3, h4, h5, h6, h7]

/-- The comparison looks at the APIC id and the padding besides the rest. -/
theorem compareCpudetails_of_agree {a b : TorqueCput} (h : AgreeButApic a b)
    (hspec : a.spec = b.spec) (hpadding : a.padding = b.padding) : compareCpudetails a b = 0 := by
  obtain ⟨-, htlbs, hmems, hthreads, hcores, hname⟩ := h
  exact compareCpudetails_eq_zero.mpr ⟨hspec, htlbs, hmems, hthreads, hcores, hname, hpadding⟩

theorem sameDetails_of_compare {a b : TorqueCput} (h : compareCpudetails a b = 0) :
    SameDetails a b := by
  obtain ⟨hspec, htlbs, hmems, hthreads, hcores, hname, -⟩ := compareCpudetails_eq_zero.mp h
  exact ⟨⟨by rw [hspec], htlbs, hmems, hthreads, hcores, hname⟩, hspec⟩

theorem SameDetails.symm {a b : TorqueCput} (h : SameDetails a b) : SameDetails b a := by
  obtain ⟨⟨h1, h2, h3, h4, h5, h6⟩, h7⟩ := h
  exact ⟨⟨h1.symm, h2.symm, h3.symm, h4.symm, h5.symm, h6.symm⟩, h7.symm⟩

theorem SameDetails.trans {a b c : TorqueCput} (hab : SameDetails a b) (hbc : SameDetails b c) :
    SameDetails a c := by
  obtain ⟨⟨h1, h2, h3, h4, h5, h6⟩, h7⟩ := hab
  obtain ⟨⟨k1, k2, k3, k4, k5, k6⟩, k7⟩ := hbc
  exact ⟨⟨h1.trans k1, h2.trans k2, h3.trans k3, h4.trans k4, h5.trans k5, h6.trans k6⟩,
    h7.trans k7⟩

theorem compareCpudetails_self (a : TorqueCput) : compareCpudetails a a = 0 :=
  compareCpudetails_eq_zero.mpr ⟨rfl, rfl, rfl, rfl, rfl, rfl, rfl⟩

theorem compareCpudetails_trans {a b c : TorqueCput} (hab : compareCpudetails a b = 0)
    (hbc : compareCpudetails b c = 0) : compareCpudetails a c = 0 := by
  rw [compareCpudetails_eq_zero] at *
  obtain ⟨h1, h2, h3, h4, h5, h6, h7⟩ := hab
  obtain ⟨k1, k2, k3, k4, k5, k6, k7⟩ := hbc
  exact ⟨h1.trans k1, h2.trans k2, h3.trans k3, h4.trans k4, h5.trans k5, h6.trans k6,
    h7.trans k7⟩

theorem compareCpudetails_symm {a b : TorqueCput} (h : compareCpudetails a b = 0) :
    compareCpudetails b a = 0 := by
  rw [compareCpudetails_eq_zero] at *
  obtain ⟨h1, h2, h3, h4, h5, h6, h7⟩ := h
  exact ⟨h1.symm, h2.symm, h3.symm, h4.symm, h5.symm, h6.symm, h7.symm⟩

/-- Entries that differ, and count `n` CPUs. -/
structure TableOk (types : List TorqueCput) (n : Nat) : Prop where
  distinct : types.Pairwise fun a b => compareCpudetails a b ≠ 0
  elements : (types.map TorqueCput.elements).sum = n

/-- Entry `s` of the table is of the kind `d`. -/
def HoldsType (types : List TorqueCput) (s : Nat) (d : TorqueCput) : Prop :=
  ∃ t, types[s]? = some t ∧ compareCpudetails t d = 0

theorem sum_modify {types : List TorqueCput} {i : Nat} (h : i < types.length) :
    ((types.modify i fun t => { t with elements := t.elements + 1 }).map
      TorqueCput.elements).sum = (types.map TorqueCput.elements).sum + 1 := by
  induction types generalizing i with
  | nil => cases h
  | cons t types ih =>
    cases i with
    | zero => simp [List.modify_zero_cons]; omega
    | succ i =>
      rw [List.modify_succ_cons, List.map_cons, List.map_cons, List.sum_cons, List.sum_cons,
        ih (Nat.lt_of_succ_lt_succ h)]
      omega

theorem pairwise_modify {types : List TorqueCput} (i : Nat)
    (h : types.Pairwise fun a b => compareCpudetails a b ≠ 0) :
    (types.modify i fun t => { t with elements := t.elements + 1 }).Pairwise
      fun a b => compareCpudetails a b ≠ 0 := by
  rw [List.pairwise_iff_getElem] at h ⊢
  intro j k hj hk hjk
  rw [List.length_modify] at hj hk
  have hne := h j k hj hk hjk
  rw [List.getElem_modify, List.getElem_modify]
  split <;> split <;> exact hne

/-- Where a processor's details are placed. -/
theorem placeCputype_spec {realloc : Bool} {types types' : List TorqueCput} {d : TorqueCput}
    {slot n : Nat} (hok : TableOk types n)
    (h : placeCputype realloc types d = some (slot, types')) :
    TableOk types' (n + 1) ∧ HoldsType types' slot d ∧
      ∀ s e, HoldsType types s e → HoldsType types' s e := by
  unfold placeCputype at h
  split at h
  · rename_i i hmatch
    cases h
    obtain ⟨hlt, hcmp, -⟩ := List.findIdx?_eq_some_iff_getElem.mp hmatch
    have hcmp : compareCpudetails types[slot] d = 0 := of_decide_eq_true hcmp
    refine ⟨⟨pairwise_modify slot hok.distinct, by rw [sum_modify hlt, hok.elements]⟩, ?_, ?_⟩
    · refine ⟨{ types[slot] with elements := types[slot].elements + 1 }, ?_, hcmp⟩
      rw [List.getElem?_modify_eq, List.getElem?_eq_getElem hlt]
      rfl
    · rintro s e ⟨t, ht, hc⟩
      refine ⟨if slot = s then { t with elements := t.elements + 1 } else t, ?_, ?_⟩
      · rw [List.getElem?_modify, ht]
        split <;> rfl
      · split <;> exact hc
  · rename_i hmatch
    unfold addCputype at h
    split at h
    · cases h
      have hnone := List.findIdx?_eq_none_iff.mp hmatch
      refine ⟨⟨?_, ?_⟩, ⟨{ d with elements := 1 }, ?_, ?_⟩, ?_⟩
      · rw [List.pairwise_append]
        refine ⟨hok.distinct, List.pairwise_singleton .., fun a ha b hb hc => ?_⟩
        rw [List.mem_singleton.mp hb] at hc
        exact of_decide_eq_false (hnone a ha) hc
      · rw [List.map_append, List.sum_append, hok.elements]
        rfl
      · rw [List.getElem?_append_right (Nat.le_refl _), Nat.sub_self]
        rfl
      · exact compareCpudetails_self d
      · rintro s e ⟨t, ht, hc⟩
        refine ⟨t, ?_, hc⟩
        rw [List.getElem?_append_left (List.getElem?_eq_some_iff.mp ht).1, ht]
    · cases h

/-- An entry was there before, or is the processor's. -/
theorem placeCputype_mem {realloc : Bool} {types types' : List TorqueCput} {d t : TorqueCput}
    {slot : Nat} (h : placeCputype realloc types d = some (slot, types')) (ht : t ∈ types') :
    (∃ u ∈ types, compareCpudetails t u = 0 ∧ u.elements ≤ t.elements) ∨
      compareCpudetails t d = 0 ∧ 0 < t.elements := by
  unfold placeCputype at h
  split at h
  · cases h
    obtain ⟨i, hi, rfl⟩ := List.mem_iff_getElem.mp ht
    rw [List.length_modify] at hi
    rw [List.getElem_modify]
    refine .inl ⟨types[i], List.getElem_mem hi, ?_⟩
    split
    · exact ⟨compareCpudetails_self types[i], Nat.le_succ _⟩
    · exact ⟨compareCpudetails_self types[i], Nat.le_refl _⟩
  · unfold addCputype at h
    split at h
    · cases h
      rcases List.mem_append.mp ht with ht | ht
      · exact .inl ⟨t, ht, compareCpudetails_self t, Nat.le_refl _⟩
      · rw [List.mem_singleton.mp ht]
        exact .inr ⟨compareCpudetails_self d, Nat.one_pos⟩
    · cases h

/-- Entries that hold one type are one entry. -/
theorem HoldsType.unique {types : List TorqueCput} {n s s' : Nat} {d e : TorqueCput}
    (hok : TableOk types n) (h : HoldsType types s d) (h' : HoldsType types s' e)
    (hde : compareCpudetails d e = 0) : s = s' := by
  obtain ⟨t, ht, hc⟩ := h
  obtain ⟨t', ht', hc'⟩ := h'
  have htt : compareCpudetails t t' = 0 :=
    compareCpudetails_trans hc (compareCpudetails_trans hde (compareCpudetails_symm hc'))
  obtain ⟨hlt, rfl⟩ := List.getElem?_eq_some_iff.mp ht
  obtain ⟨hlt', rfl⟩ := List.getElem?_eq_some_iff.mp ht'
  have hpair := List.pairwise_iff_getElem.mp hok.distinct
  rcases Nat.lt_trichotomy s s' with hlt'' | heq | hgt
  · exact absurd htt (hpair s s' hlt hlt' hlt'')
  · exact heq
  · exact absurd (compareCpudetails_symm htt) (hpair s' s hlt' hlt hgt)

/-! ## The passes -/

/-- The calls of one pass that succeeds. -/
def passCalls (v : Nat × Nat) : List DetectCall :=
  [.details v.1, .topologize v.1 v.2, .spawn v.1]

theorem detectCpudetails_error {p : Pass} {e : TorqueErr} (h : detectCpudetails p = .error e) :
    e ≠ .none := by
  unfold detectCpudetails at h
  split at h
  · cases h
    simp
  · split at h
    · cases h
      simp
    · cases h

theorem detectPassLog_ok {p : Pass} {aid : Nat} {c c' : Ctx} {log : List DetectCall}
    (h : detectPassLog p aid c = ((.none, c'), log)) :
    ∃ d slot, detectCpudetails p = .ok d ∧ log = passCalls (aid, slot) ∧
      placeCputype p.realloc c.types d.details = some (slot, c'.types) ∧
      aid ∈ c'.topology.touched ∧ ∀ i ∈ c.topology.touched, i ∈ c'.topology.touched := by
  unfold detectPassLog at h
  cases hd : detectCpudetails p with
  | error e =>
    rw [hd] at h
    cases h
    exact absurd rfl (detectCpudetails_error hd)
  | ok d =>
    rw [hd] at h
    dsimp only at h
    cases hplace : placeCputype p.realloc c.types d.details with
    | none =>
      rw [hplace] at h
      cases h
    | some x =>
      obtain ⟨slot, types⟩ := x
      rw [hplace] at h
      dsimp only at h
      rcases htop : topologize p.zones c.topology aid d.thread d.core d.pkg slot with ⟨err, t⟩
      rw [htop] at h
      cases err with
      | none =>
        dsimp only at h
        obtain ⟨hc, hlog⟩ := Prod.mk.inj h
        split at hc
        · cases hc
          exact ⟨d, slot, rfl, hlog.symm, hplace, topologize_touches htop⟩
        · cases hc
      | _ => cases h

/-- The entries of the table are those of CPUs of the mask. -/
def Shown (M : Machine) (mask : CpuSet) (types : List TorqueCput) : Prop :=
  ∀ t ∈ types, ∃ i ∈ mask.cpus, ∃ d, detectCpudetails (M.pass i) = .ok d ∧
    compareCpudetails t d.details = 0

theorem Shown.placed {M : Machine} {mask : CpuSet} {types types' : List TorqueCput}
    {realloc : Bool} {i slot : Nat} {d : Detected} (hs : Shown M mask types) (hi : i ∈ mask.cpus)
    (hd : detectCpudetails (M.pass i) = .ok d)
    (h : placeCputype realloc types d.details = some (slot, types')) : Shown M mask types' := by
  intro t ht
  rcases placeCputype_mem h ht with ⟨u, hu, hc, -⟩ | ⟨hc, -⟩
  · obtain ⟨j, hj, e, he, hce⟩ := hs u hu
    exact ⟨j, hj, e, he, compareCpudetails_trans hc hce⟩
  · exact ⟨i, hi, d, hd, hc⟩

/-- The passes of a loop that succeeds, as the CPUs with their entries. -/
structure Passes (M : Machine) (mask : CpuSet) (aid z : Nat) (c : Ctx) (visited : List (Nat × Nat)) :
    Prop where
  length : visited.length = z
  sorted : (visited.map Prod.fst).Pairwise (· < ·)
  members : ∀ v ∈ visited, aid ≤ v.1 ∧ v.1 ∈ mask.cpus
  types : ∀ v ∈ visited, ∃ d, detectCpudetails (M.pass v.1) = .ok d ∧
    HoldsType c.types v.2 d.details
  touched : ∀ v ∈ visited, v.1 ∈ c.topology.touched

theorem detectLoopLog_ok {M : Machine} {mask : CpuSet} {z aid n : Nat} {c c' : Ctx}
    {log : List DetectCall} (haid : aid ≤ cpuSetsize) (hok : TableOk c.types n)
    (hs : Shown M mask c.types) (h : detectLoopLog M mask z aid c = ((.none, c'), log)) :
    TableOk c'.types (n + z) ∧ Shown M mask c'.types ∧
      (∀ s e, HoldsType c.types s e → HoldsType c'.types s e) ∧
      (∀ i ∈ c.topology.touched, i ∈ c'.topology.touched) ∧
      ∃ visited, log = visited.flatMap passCalls ∧ Passes M mask aid z c' visited := by
  induction z generalizing aid n c log with
  | zero =>
    cases h
    exact ⟨hok, hs, fun _ _ h => h, fun _ h => h, [], rfl, rfl, .nil, by simp, by simp, by simp⟩
  | succ z ih =>
    simp only [detectLoopLog] at h
    obtain ⟨hge, hle, -, hmem⟩ := mask.next_spec haid
    split at h
    · cases h
    · rename_i hne
      rcases hpass : detectPassLog (M.pass (mask.next aid)) (mask.next aid) c with
        ⟨⟨err, c''⟩, plog⟩
      rw [hpass] at h
      cases err with
      | none =>
        dsimp only at h
        rcases hrest : detectLoopLog M mask z (mask.next aid + 1) c'' with ⟨out, rest⟩
        rw [hrest] at h
        obtain ⟨rfl, rfl⟩ := Prod.mk.inj h
        have hin : mask.next aid ∈ mask.cpus := hmem (by omega)
        obtain ⟨d, slot, hd, rfl, hplace, htouch, hbefore⟩ := detectPassLog_ok hpass
        obtain ⟨hok', hslot, hmono⟩ := placeCputype_spec hok hplace
        obtain ⟨hfin, hshown, hmono', hafter, visited, rfl, hv⟩ :=
          ih (by omega) hok' (hs.placed hin hd hplace) hrest
        refine ⟨by rw [Nat.add_assoc, Nat.add_comm 1 z] at hfin; exact hfin, hshown,
          fun s e h => hmono' s e (hmono s e h), fun i hi => hafter i (hbefore i hi),
          (mask.next aid, slot) :: visited, rfl, ?_⟩
        refine ⟨by rw [List.length_cons, hv.length], ?_, ?_, ?_, ?_⟩
        · rw [List.map_cons, List.pairwise_cons]
          refine ⟨fun i hi => ?_, hv.sorted⟩
          obtain ⟨v, hvm, rfl⟩ := List.mem_map.mp hi
          have := (hv.members v hvm).1
          omega
        · intro v hvm
          rcases List.mem_cons.mp hvm with rfl | hvm
          · exact ⟨hge, hin⟩
          · obtain ⟨hlt, hin⟩ := hv.members v hvm
            exact ⟨by omega, hin⟩
        · intro v hvm
          rcases List.mem_cons.mp hvm with rfl | hvm
          · exact ⟨d, hd, hmono' _ _ hslot⟩
          · exact hv.types v hvm
        · intro v hvm
          rcases List.mem_cons.mp hvm with rfl | hvm
          · exact hafter _ htouch
          · exact hv.touched v hvm
      | _ => cases h

/-! ## What has been done once -/

theorem count_passCalls (f : DetectCall → Option Nat) (visited : List (Nat × Nat))
    (hf : ∀ v, (passCalls v).filterMap f = [v.1]) :
    (visited.flatMap passCalls).filterMap f = visited.map Prod.fst := by
  induction visited with
  | nil => rfl
  | cons v visited ih =>
    rw [List.flatMap_cons, List.filterMap_append, hf, ih]
    rfl

/-- Passes as many as the mask has CPUs visit each once. -/
theorem Passes.count {M : Machine} {mask : CpuSet} {c : Ctx} {visited : List (Nat × Nat)}
    (h : Passes M mask 0 mask.count c visited) (cpu : Nat) :
    (visited.map Prod.fst).count cpu = if cpu ∈ mask.cpus then 1 else 0 := by
  have hnodup : (visited.map Prod.fst).Nodup := h.sorted.imp fun hlt => Nat.ne_of_lt hlt
  have hsub : (visited.map Prod.fst).toFinset ⊆ mask.cpus := by
    intro i hi
    obtain ⟨v, hv, rfl⟩ := List.mem_map.mp (List.mem_toFinset.mp hi)
    exact (h.members v hv).2
  have hcard : mask.cpus.card ≤ (visited.map Prod.fst).toFinset.card := by
    rw [List.toFinset_card_of_nodup hnodup, List.length_map, h.length, mask.count_eq_card]
  have heq := Finset.eq_of_subset_of_card_le hsub hcard
  rw [hnodup.count, ← heq]
  simp only [List.mem_toFinset]

theorem mem_passCalls {visited : List (Nat × Nat)} {i s : Nat}
    (h : DetectCall.topologize i s ∈ visited.flatMap passCalls) : (i, s) ∈ visited := by
  obtain ⟨v, hv, hmem⟩ := List.mem_flatMap.mp h
  simp only [passCalls, List.mem_cons, reduceCtorEq, DetectCall.topologize.injEq, false_or,
    List.not_mem_nil, or_false] at hmem
  rw [hmem.1, hmem.2]
  exact hv

theorem mem_details {visited : List (Nat × Nat)} {v : Nat × Nat} (h : v ∈ visited) :
    DetectCall.topologize v.1 v.2 ∈ visited.flatMap passCalls :=
  List.mem_flatMap.mpr ⟨v, h, by simp [passCalls]⟩

theorem detectCputypes_passes {M : Machine} {mask : CpuSet} {c : Ctx} (hm : M.mask = some mask)
    (h : detectCputypes M = (.none, c)) :
    ∃ visited, detectCalls M = visited.flatMap passCalls ∧ TableOk c.types mask.count ∧
      Shown M mask c.types ∧ Passes M mask 0 mask.count c visited := by
  have hcount : detectCpucount M = mask.count := detectCpucount_mask hm
  unfold detectCputypes at h
  unfold detectCalls
  rw [hm] at h ⊢
  dsimp only at h ⊢
  split at h
  · cases h
  rename_i hpos
  split at h
  · cases h
  rename_i hmalloc
  rw [if_neg (by simp_all)]
  rcases hlog : detectLoopLog M mask (detectCpucount M) 0 {} with ⟨out, log⟩
  have hfst := detectLoopLog_fst M mask (detectCpucount M) 0 {}
  rw [hlog] at hfst
  rw [← hfst] at h
  obtain ⟨err, c'⟩ := out
  cases err with
  | none =>
    dsimp only at h
    split at h
    · cases h
      obtain ⟨hok, hshown, -, -, visited, rfl, hv⟩ :=
        detectLoopLog_ok (n := 0) (Nat.zero_le _) ⟨.nil, rfl⟩ (fun t ht => by cases ht) hlog
      rw [hcount, Nat.zero_add] at hok
      rw [hcount] at hv
      exact ⟨visited, rfl, hok, hshown, hv⟩
    · cases h
  | _ => cases h

theorem Passes.visited {M : Machine} {mask : CpuSet} {c : Ctx} {visited : List (Nat × Nat)}
    (h : Passes M mask 0 mask.count c visited) {cpu : Nat} (hcpu : cpu ∈ mask.cpus) :
    ∃ v ∈ visited, v.1 = cpu := by
  have hone := h.count cpu
  rw [if_pos hcpu] at hone
  have hmem : cpu ∈ visited.map Prod.fst := List.count_pos_iff.mp (by omega)
  exact List.mem_map.mp hmem

/-- Sharing is where the APIC id and the padding come in. -/
theorem shared_iff {M : Machine} {mask : CpuSet} {c : Ctx} {visited : List (Nat × Nat)}
    (hok : TableOk c.types mask.count) (hv : Passes M mask 0 mask.count c visited) :
    (∀ i j s s' d e, .topologize i s ∈ visited.flatMap passCalls →
      .topologize j s' ∈ visited.flatMap passCalls →
      detectCpudetails (M.pass i) = .ok d → detectCpudetails (M.pass j) = .ok e →
      AgreeButApic d.details e.details → s = s') ↔ AgreeThroughout M mask := by
  constructor
  · intro h i hi j hj d e hd he hag
    obtain ⟨v, hvm, rfl⟩ := hv.visited hi
    obtain ⟨w, hwm, rfl⟩ := hv.visited hj
    obtain ⟨d', hd', hsd⟩ := hv.types v hvm
    obtain ⟨e', he', hse⟩ := hv.types w hwm
    cases hd.symm.trans hd'
    cases he.symm.trans he'
    have hslot := h v.1 w.1 v.2 w.2 d e (mem_details hvm) (mem_details hwm) hd he hag
    obtain ⟨t, ht, hct⟩ := hsd
    obtain ⟨u, hu, hcu⟩ := hse
    rw [← hslot, ht] at hu
    cases hu
    have hde := compareCpudetails_trans (compareCpudetails_symm hct) hcu
    obtain ⟨hspec, -, -, -, -, -, hpadding⟩ := compareCpudetails_eq_zero.mp hde
    exact ⟨hspec, hpadding⟩
  · intro h i j s s' d e hi hj hd he hag
    have hi := mem_passCalls hi
    have hj := mem_passCalls hj
    obtain ⟨d', hd', hsd⟩ := hv.types _ hi
    obtain ⟨e', he', hse⟩ := hv.types _ hj
    cases hd.symm.trans hd'
    cases he.symm.trans he'
    obtain ⟨hspec, hpadding⟩ := h i (hv.members _ hi).2 j (hv.members _ hj).2 d e hd he hag
    exact hsd.unique hok hse (compareCpudetails_of_agree hag hspec hpadding)

/-- The entries have different details where the comparison sees nothing else. -/
theorem AgreeThroughout.distinct {M : Machine} {mask : CpuSet} {types : List TorqueCput} {n : Nat}
    (h : AgreeThroughout M mask) (hok : TableOk types n) (hs : Shown M mask types) :
    types.Pairwise fun a b => ¬ SameDetails a b := by
  refine hok.distinct.imp_of_mem ?_
  intro a b ha hb hne hsame
  obtain ⟨i, hi, d, hd, had⟩ := hs a ha
  obtain ⟨j, hj, e, he, hbe⟩ := hs b hb
  have hagree : SameDetails d.details e.details :=
    (sameDetails_of_compare had).symm.trans (hsame.trans (sameDetails_of_compare hbe))
  obtain ⟨hspec, hpadding⟩ := h i hi j hj d e hd he hagree.1
  have hde := compareCpudetails_of_agree hagree.1 hspec hpadding
  exact hne (compareCpudetails_trans had
    (compareCpudetails_trans hde (compareCpudetails_symm hbe)))

/-- A detection that succeeds touches the element of each CPU of the mask. -/
theorem touched_of_success {M : Machine} {mask : CpuSet} {c : Ctx} {visited : List (Nat × Nat)}
    (h : detectCputypes M = (.none, c)) (hv : Passes M mask 0 mask.count c visited) {cpu : Nat}
    (hcpu : cpu ∈ mask.cpus) : cpu ∈ topmapTouched M := by
  obtain ⟨v, hvm, rfl⟩ := hv.visited hcpu
  rw [topmapTouched, h]
  exact hv.touched v hvm

/-- **Types are told apart by the APIC id and by padding.** After a detection that
succeeds, each CPU has been detected, entered and given a thread once, and the
table has different entries that count every CPU. CPUs that agree but for their
APIC id share an entry exactly when no two of them differ in it or in the padding
of their tables; and all happens inside `topmap` exactly when the mask has no
gaps. -/
theorem detectCputypes_classified_iff {M : Machine} {mask : CpuSet} {c : Ctx}
    (hm : M.mask = some mask) (h : detectCputypes M = (.none, c)) :
    Classified M mask c.types (detectCalls M) ↔
      AgreeThroughout M mask ∧ mask.cpus = Finset.range mask.count := by
  obtain ⟨visited, hlog, hok, hshown, hv⟩ := detectCputypes_passes hm h
  have hshared := shared_iff hok hv
  rw [← hlog] at hshared
  constructor
  · intro hc
    refine ⟨hshared.mp hc.shared, cpus_eq_range_of_subset fun cpu hcpu => ?_⟩
    rw [Finset.mem_range, ← detectCpucount_mask hm]
    exact hc.inside cpu (touched_of_success h hv hcpu)
  · rintro ⟨hagree, hdense⟩
    refine ⟨fun cpu => ?_, fun cpu => ?_, (topmapInBounds_iff mask).mpr hdense M hm, fun cpu => ?_,
      hagree.distinct hok hshown, hok.elements, hshared.mpr hagree⟩
    · rw [hlog, count_passCalls _ _ fun v => rfl]
      exact hv.count cpu
    · rw [hlog, count_passCalls _ _ fun v => rfl]
      exact hv.count cpu
    · rw [hlog, count_passCalls _ _ fun v => rfl]
      exact hv.count cpu

/-! ## When nothing fails -/

/-- A machine on which every step of the detection succeeds. -/
def Plentiful (M : Machine) : Prop :=
  M.mallocTopmap = true ∧ M.unpin = true ∧
    ∀ aid, ∃ d, M.pass aid = ⟨true, some d, true, ⟨true, true, true⟩, true⟩

theorem Plentiful.pass {M : Machine} (hM : Plentiful M) {aid : Nat} (h : aid < cpuSetsize)
    (c : Ctx) : ∃ c', detectPass (M.pass aid) aid c = (.none, c') := by
  obtain ⟨d, hd⟩ := hM.2.2 aid
  obtain ⟨slot, types, hp⟩ : ∃ slot types,
      placeCputype true c.types d.details = some (slot, types) := by
    unfold placeCputype
    split
    · exact ⟨_, _, rfl⟩
    · exact ⟨_, _, rfl⟩
  obtain ⟨t, ht, -⟩ := topologize_ok (s := c.topology) d.thread d.core d.pkg slot h
  refine ⟨⟨types, t, c.spawned ++ [aid]⟩, ?_⟩
  rw [hd, detectPass, detectCpudetails]
  simp only [Bool.not_true, Bool.false_eq_true, if_false, hp, ht, if_true]

theorem Plentiful.loop {M : Machine} (hM : Plentiful M) (mask : CpuSet) (z aid : Nat)
    (hz : z ≤ (mask.cpus.filter (aid ≤ ·)).card) (haid : aid ≤ cpuSetsize) (c : Ctx) :
    ∃ c', detectLoop M mask z aid c = (.none, c') := by
  induction z generalizing aid c with
  | zero => exact ⟨c, rfl⟩
  | succ z ih =>
    obtain ⟨hge, hle, hskip, hmem⟩ := mask.next_spec haid
    have hlt : mask.next aid < cpuSetsize := by
      by_contra hnlt
      obtain ⟨i, hi⟩ := Finset.card_pos.mp (Nat.lt_of_lt_of_le (Nat.succ_pos z) hz)
      obtain ⟨hi, hai⟩ := Finset.mem_filter.mp hi
      have := mask.bounded i hi
      exact hskip i hai (by omega) hi
    obtain ⟨c', hc'⟩ := hM.pass hlt c
    simp only [detectLoop]
    rw [if_neg (by omega), hc']
    refine ih _ ?_ (by omega) c'
    have hsub : mask.cpus.filter (aid ≤ ·) ⊆
        insert (mask.next aid) (mask.cpus.filter (mask.next aid + 1 ≤ ·)) := by
      intro i hi
      obtain ⟨him, hai⟩ := Finset.mem_filter.mp hi
      rw [Finset.mem_insert, Finset.mem_filter]
      by_contra hout
      rw [not_or] at hout
      exact hskip i hai (by
        have hnot : ¬ mask.next aid + 1 ≤ i := fun hle => hout.2 ⟨him, hle⟩
        have hne : i ≠ mask.next aid := hout.1
        omega) him
    have hcard := Finset.card_le_card hsub
    rw [Finset.card_insert_of_notMem (by simp)] at hcard
    omega

theorem Plentiful.detectCputypes {M : Machine} (hM : Plentiful M) {mask : CpuSet}
    (hm : M.mask = some mask) (hne : mask.cpus.Nonempty) :
    ∃ c, detectCputypes M = (.none, c) := by
  have hcount : detectCpucount M = mask.cpus.card :=
    (detectCpucount_mask hm).trans mask.count_eq_card
  have hpos := hne.card_pos
  obtain ⟨c, hc⟩ := hM.loop mask (detectCpucount M) 0
    (by simp [hcount]) (Nat.zero_le _) {}
  refine ⟨c, ?_⟩
  unfold Hardware.detectCputypes
  rw [hm]
  dsimp only
  rw [if_neg (by omega), hM.1, hc, hM.2.1]
  rfl

theorem cpus_zero_one : ((CpuSet.zero.set 0).set 1).cpus = {1, 0} := by
  rw [CpuSet.set_cpus (by decide), CpuSet.set_cpus (by decide)]
  rfl

theorem cpus_zero_one_dense : ((CpuSet.zero.set 0).set 1).cpus =
    Finset.range ((CpuSet.zero.set 0).set 1).count := by
  rw [CpuSet.count_eq_card, cpus_zero_one]
  decide

/-- Two processors that are alike share an entry. -/
theorem detectCputypes_classified_two : ∃ c,
    detectCputypes (flatMachine ((CpuSet.zero.set 0).set 1)) = (.none, c) ∧
    Classified (flatMachine ((CpuSet.zero.set 0).set 1)) ((CpuSet.zero.set 0).set 1) c.types
      (detectCalls (flatMachine ((CpuSet.zero.set 0).set 1))) := by
  have hplenty : Plentiful (flatMachine ((CpuSet.zero.set 0).set 1)) :=
    ⟨rfl, rfl, fun _ => ⟨_, rfl⟩⟩
  obtain ⟨c, hc⟩ := hplenty.detectCputypes rfl (by rw [cpus_zero_one]; simp)
  refine ⟨c, hc, (detectCputypes_classified_iff rfl hc).mpr ⟨?_, cpus_zero_one_dense⟩⟩
  rintro i - j - d e hd he -
  cases hd
  cases he
  exact ⟨rfl, rfl⟩

/-- Two processors that are identical but for their APIC ids, which are their
CPU numbers. -/
def apicMachine : Machine where
  mask := some ((CpuSet.zero.set 0).set 1)
  mallocTopmap := true
  pass aid :=
    ⟨true, some ⟨⟨0, 1, 1, [], "", [], .x86 ⟨6, 0, 0, .oem, {}, aid⟩, []⟩, 0, 0, aid⟩, true,
      ⟨true, true, true⟩, true⟩
  unpin := true

theorem apicMachine_plentiful : Plentiful apicMachine :=
  ⟨rfl, rfl, fun _ => ⟨_, rfl⟩⟩

/-- The two processors that differ in their APIC ids get an entry each. -/
theorem apicMachine_two_types : ∃ c, detectCputypes apicMachine = (.none, c) ∧
    ¬ Classified apicMachine ((CpuSet.zero.set 0).set 1) c.types (detectCalls apicMachine) := by
  obtain ⟨c, hc⟩ := apicMachine_plentiful.detectCputypes rfl (by rw [cpus_zero_one]; simp)
  refine ⟨c, hc, fun hcl => ?_⟩
  obtain ⟨visited, hlog, hok, -, hv⟩ := detectCputypes_passes (M := apicMachine) rfl hc
  have hshared := hcl.shared
  rw [hlog] at hshared
  have hagree := (shared_iff hok hv).mp hshared
  obtain ⟨hspec, -⟩ := hagree 0 (by simp [cpus_zero_one]) 1 (by simp [cpus_zero_one]) _ _ rfl rfl
    ⟨rfl, rfl, rfl, rfl, rfl, rfl⟩
  cases hspec

end Libtorque.Hardware
