import Mathlib.Data.List.TakeWhile
import Mathlib.Tactic.Common

/-! # The targets of torquehost

With `-f`, there is a target on each line of the standard input. The lines are
read through a buffer of 80 bytes. -/
namespace Libtorque.Torquehost

/-! ## The code -/

def newline : UInt8 := 10
def nul : UInt8 := 0

/-- A stream with what is left to be read, and whether reading fails at its end. -/
structure Input where
  text : List UInt8
  fails : Bool
  error : Bool := false
deriving DecidableEq, Repr

/-- A line, with the newline if there is one. -/
def throughNewline : List UInt8 → List UInt8
  | [] => []
  | b :: bs => if b = newline then [b] else b :: throughNewline bs

/-- `fgets` into `n` bytes. -/
def fgets (n : Nat) (fp : Input) : Option (List UInt8) × Input :=
  let line := throughNewline (fp.text.take (n - 1))
  let rest := { fp with text := fp.text.drop line.length }
  if newline ∈ line ∨ line.length = n - 1 then (some line, rest)
  -- the end has been reached
  else if fp.fails then (none, { rest with error := true })
  else if line = [] then (none, rest)
  else (some line, rest)

/-- The line, and whether `errno` has been set; `dup` is whether `strdup` finds
memory. -/
def fpgetline (dup : Bool) (fp : Input) : Option (List UInt8) × Bool × Input :=
  match fgets 80 fp with
  | (none, fp) => (none, fp.error, fp)
  | (some line, fp) =>
    -- the string ends at the first NUL
    let line := line.takeWhile (· ≠ nul)
    if newline ∈ line then
      if dup then (some (line.takeWhile (· ≠ newline)), false, fp) else (none, true, fp)
    else (none, false, fp)

/-- What fails at a line. -/
inductive Failure where
  | strdup
  | addLookup
deriving DecidableEq, Repr

theorem fgets_read {n : Nat} {line : List UInt8} {fp rest : Input} (hn : 1 < n)
    (h : fgets n fp = (some line, rest)) :
    line = throughNewline (fp.text.take (n - 1)) ∧ line ≠ [] ∧
      rest.text = fp.text.drop line.length := by
  unfold fgets at h
  dsimp only at h
  split at h
  · rename_i hend
    cases h
    refine ⟨rfl, fun hnil => ?_, rfl⟩
    rw [hnil] at hend
    rcases hend with hmem | hlen
    · cases hmem
    · rw [List.length_nil] at hlen
      omega
  split at h
  · cases h
  split at h
  · cases h
  · rename_i hne
    cases h
    exact ⟨rfl, hne, rfl⟩

/-- A line that has been read is gone from the stream. -/
theorem fpgetline_shorter {dup errno : Bool} {fp fp' : Input} {l : List UInt8}
    (h : fpgetline dup fp = (some l, errno, fp')) : fp'.text.length < fp.text.length := by
  unfold fpgetline at h
  split at h
  · cases h
  rename_i line rest hread
  have hrest : rest.text.length < fp.text.length := by
    obtain ⟨hline, hne, hdrop⟩ := fgets_read (by decide) hread
    have htext : fp.text ≠ [] := by
      intro hnil
      rw [hline, hnil] at hne
      exact hne rfl
    have hpos := List.length_pos_iff.mpr hne
    have hlen := List.length_pos_iff.mpr htext
    rw [hdrop, List.length_drop]
    omega
  dsimp only at h
  split at h
  · split at h <;> cases h
    exact hrest
  · cases h

/-- `spool_targets` from line `k` on: the targets that lookups are added for, and
whether it fails. -/
def spoolTargets (fails : Nat → Option Failure) (k : Nat) (fp : Input) :
    List (List UInt8) × Bool :=
  match h : fpgetline (fails k ≠ some .strdup) fp with
  | (none, errno, fp) => ([], errno || fp.error)
  | (some l, _, fp') =>
    if fails k = some .addLookup then ([], true)
    else
      let rest := spoolTargets fails (k + 1) fp'
      (l :: rest.1, rest.2)
termination_by fp.text.length
decreasing_by exact fpgetline_shorter h

/-! ## Lines -/

/-- A line that `fpgetline` can hand on. -/
structure Nameable (target : List UInt8) : Prop where
  short : target.length ≤ 78
  line : newline ∉ target
  string : nul ∉ target

/-- The text goes on with such a line. -/
def Begins (text : List UInt8) : Prop :=
  ∃ target rest, Nameable target ∧ text = target ++ newline :: rest

def unlines (targets : List (List UInt8)) : List UInt8 := targets.flatMap (· ++ [newline])

section Lines
variable {a b : List UInt8} {fp : Input}

theorem throughNewline_line (h : newline ∉ a) :
    throughNewline (a ++ newline :: b) = a ++ [newline] := by
  induction a with
  | nil => rfl
  | cons c a ih =>
    rw [List.mem_cons, not_or] at h
    rw [List.cons_append, throughNewline, if_neg (Ne.symm h.1), ih h.2, List.cons_append]

theorem throughNewline_unended (h : newline ∉ a) : throughNewline a = a := by
  induction a with
  | nil => rfl
  | cons c a ih =>
    rw [List.mem_cons, not_or] at h
    rw [throughNewline, if_neg (Ne.symm h.1), ih h.2]

theorem fgets_line (h : newline ∉ a) (hshort : a.length ≤ 78)
    (htext : fp.text = a ++ newline :: b) :
    fgets 80 fp = (some (a ++ [newline]), { fp with text := b }) := by
  have htake : fp.text.take (80 - 1) = a ++ newline :: b.take (78 - a.length) := by
    rw [htext, List.take_append, List.take_of_length_le (by omega),
      show 80 - 1 - a.length = (78 - a.length) + 1 by omega, List.take_succ_cons]
  unfold fgets
  dsimp only
  rw [htake, throughNewline_line h, if_pos (.inl (List.mem_append_right a List.mem_cons_self))]
  simp [htext]

/-- No line ends in the first 79 bytes. -/
theorem fgets_unended (h : newline ∉ fp.text.take 79) (hlong : 79 ≤ fp.text.length) :
    fgets 80 fp = (some (fp.text.take 79), { fp with text := fp.text.drop 79 }) := by
  have hline : throughNewline (fp.text.take (80 - 1)) = fp.text.take 79 := throughNewline_unended h
  have hlen : (fp.text.take 79).length = 79 := List.length_take_of_le hlong
  unfold fgets
  dsimp only
  rw [hline, if_pos (.inr hlen), hlen]

/-- The end comes before. -/
theorem fgets_last (h : newline ∉ fp.text) (hshort : fp.text.length < 79) :
    fgets 80 fp =
      if fp.fails then (none, { fp with text := [], error := true })
      else if fp.text = [] then (none, { fp with text := [] })
      else (some fp.text, { fp with text := [] }) := by
  have htake : fp.text.take (80 - 1) = fp.text := List.take_of_length_le (by omega)
  have hmore : ¬ (newline ∈ fp.text ∨ fp.text.length = 80 - 1) := by
    rintro (hmem | hlen)
    · exact h hmem
    · omega
  unfold fgets
  dsimp only
  rw [htake, throughNewline_unended h, if_neg hmore, List.drop_length]

/-- A line is handed on without its end. -/
theorem fpgetline_line (dup : Bool) (h : Nameable a) (htext : fp.text = a ++ newline :: b) :
    fpgetline dup fp =
      if dup then (some a, false, { fp with text := b })
      else (none, true, { fp with text := b }) := by
  have hstring : (a ++ [newline]).takeWhile (· ≠ nul) = a ++ [newline] := by
    rw [List.takeWhile_eq_self_iff]
    intro c hc
    rcases List.mem_append.mp hc with hc | hc
    · exact decide_eq_true fun hnul => h.string (hnul ▸ hc)
    · rw [List.mem_singleton.mp hc]
      decide
  have hcut : (a ++ [newline]).takeWhile (· ≠ newline) = a := by
    have hall : ∀ c ∈ a, decide (c ≠ newline) = true := by
      intro c hc
      exact decide_eq_true fun hnl => h.line (hnl ▸ hc)
    rw [List.takeWhile_append_of_pos hall]
    simp
  unfold fpgetline
  rw [fgets_line h.line h.short htext]
  dsimp only
  rw [hstring, if_pos (List.mem_append_right a List.mem_cons_self), hcut]

/-- Anything else ends the reading, noticed only where reading fails. -/
theorem fpgetline_else (dup : Bool) (h : ¬ Begins fp.text) (herror : fp.error = false) :
    ∃ fp', fpgetline dup fp = (none, fp'.error, fp') ∧
      (fp'.error = true ↔ fp.fails = true ∧ fp.text.length < 79 ∧ newline ∉ fp.text) := by
  have hplain {line : List UInt8} {rest : Input} (hread : fgets 80 fp = (some line, rest))
      (hline : newline ∉ line.takeWhile (· ≠ nul)) (hrest : rest.error = false) :
      fpgetline dup fp = (none, rest.error, rest) := by
    unfold fpgetline
    rw [hread]
    dsimp only
    rw [if_neg hline, hrest]
  have hwithin {line : List UInt8} (hline : newline ∉ line) :
      newline ∉ line.takeWhile (· ≠ nul) := fun hmem => hline (List.takeWhile_subset _ hmem)
  by_cases hnl : newline ∈ fp.text.take 79
  · obtain ⟨a, b, hab, ha⟩ := List.eq_append_cons_of_mem hnl
    have hlen : a.length ≤ 78 := by
      have htake := congrArg List.length hab
      rw [List.length_take, List.length_append, List.length_cons] at htake
      omega
    have htext : fp.text = a ++ newline :: (b ++ fp.text.drop 79) := by
      conv_lhs => rw [← List.take_append_drop 79 fp.text, hab]
      simp
    have hnul : nul ∈ a := by
      by_contra hnul
      exact h ⟨a, _, ⟨hlen, ha, hnul⟩, htext⟩
    obtain ⟨x, y, rfl, hx⟩ := List.eq_append_cons_of_mem hnul
    have hstring : (x ++ nul :: y ++ [newline]).takeWhile (· ≠ nul) = x := by
      have hall : ∀ c ∈ x, decide (c ≠ nul) = true := by
        intro c hc
        exact decide_eq_true fun hnul => hx (hnul ▸ hc)
      rw [List.append_assoc, List.takeWhile_append_of_pos hall]
      simp
    refine ⟨_, hplain (fgets_line ha hlen htext) ?_ herror, ?_⟩
    · rw [hstring]
      exact fun hmem => ha (List.mem_append_left _ hmem)
    · have hmem : newline ∈ fp.text := List.mem_of_mem_take hnl
      simp [herror, hmem]
  · by_cases hlong : 79 ≤ fp.text.length
    · refine ⟨_, hplain (fgets_unended hnl hlong) (hwithin hnl) herror, ?_⟩
      simp [herror, Nat.not_lt.mpr hlong]
    · rw [Nat.not_le] at hlong
      rw [List.take_of_length_le (by omega)] at hnl
      have hlast := fgets_last hnl hlong
      cases hfails : fp.fails with
      | true =>
        rw [if_pos hfails] at hlast
        refine ⟨{ fp with text := [], error := true }, ?_, by simp [hlong, hnl]⟩
        unfold fpgetline
        rw [hlast]
      | false =>
        rw [if_neg (by simp [hfails])] at hlast
        refine ⟨{ fp with text := [] }, ?_, by simp [herror]⟩
        split at hlast
        · unfold fpgetline
          rw [hlast]
        · exact hplain hlast (hwithin hnl) herror

end Lines

/-! ## All the targets -/

/-- The targets that a text begins with, and the rest of it, which does not go on
with another. -/
structure Lists (text : List UInt8) (targets : List (List UInt8)) (rest : List UInt8) : Prop where
  text : text = unlines targets ++ rest
  nameable : ∀ target ∈ targets, Nameable target
  ends : ¬ Begins rest

theorem exists_lists (text : List UInt8) : ∃ targets rest, Lists text targets rest := by
  induction h : text.length using Nat.strong_induction_on generalizing text with
  | _ n ih =>
    by_cases hbegins : Begins text
    · obtain ⟨target, text', hname, rfl⟩ := hbegins
      have hshorter : text'.length < n := by
        rw [List.length_append, List.length_cons] at h
        omega
      obtain ⟨targets, rest, hlists⟩ := ih _ hshorter text' rfl
      refine ⟨target :: targets, rest, ?_, ?_, hlists.ends⟩
      · rw [hlists.text, unlines, unlines, List.flatMap_cons]
        simp
      · exact List.forall_mem_cons.mpr ⟨hname, hlists.nameable⟩
    · exact ⟨[], text, rfl, nofun, hbegins⟩

section Spool
variable {fails : Nat → Option Failure} {fp : Input} {a b : List UInt8}

theorem spoolTargets_line {k : Nat} (h : Nameable a) (htext : fp.text = a ++ newline :: b) :
    spoolTargets fails k fp =
      if fails k = none then
        (a :: (spoolTargets fails (k + 1) { fp with text := b }).1,
          (spoolTargets fails (k + 1) { fp with text := b }).2)
      else ([], true) := by
  have hline := fpgetline_line (decide (fails k ≠ some .strdup)) h htext
  rw [spoolTargets]
  cases hk : fails k with
  | none =>
    rw [hk, if_pos (by decide)] at hline
    split
    · simp_all
    · simp_all
  | some failure =>
    rw [hk] at hline
    cases failure with
    | strdup =>
      rw [if_neg (by decide)] at hline
      split
      · simp_all
      · simp_all
    | addLookup =>
      rw [if_pos (by decide)] at hline
      split
      · simp_all
      · simp_all

/-- The rest is reported on where reading it fails before there are 79 bytes. -/
theorem spoolTargets_else (fails : Nat → Option Failure) (k : Nat) (h : ¬ Begins fp.text)
    (herror : fp.error = false) :
    (spoolTargets fails k fp).1 = [] ∧ ((spoolTargets fails k fp).2 = true ↔
      fp.fails = true ∧ fp.text.length < 79 ∧ newline ∉ fp.text) := by
  obtain ⟨fp', hread, hiff⟩ :=
    fpgetline_else (decide (fails k ≠ some .strdup)) h herror
  rw [spoolTargets]
  split
  · rename_i hnone
    rw [hread] at hnone
    cases hnone
    exact ⟨rfl, by rw [Bool.or_self]; exact hiff⟩
  · rename_i hsome
    rw [hread] at hsome
    cases hsome

/-- How many of the targets are spooled: all, or those before the first failure. -/
theorem spoolTargets_lists (k : Nat) {targets : List (List UInt8)} {rest : List UInt8}
    (herror : fp.error = false) (h : Lists fp.text targets rest) :
    ∃ n ≤ targets.length, (∀ i < n, fails (k + i) = none) ∧
      (n < targets.length → fails (k + n) ≠ none) ∧
      (spoolTargets fails k fp).1 = targets.take n ∧
      ((spoolTargets fails k fp).2 = true ↔ n < targets.length ∨
        fp.fails = true ∧ rest.length < 79 ∧ newline ∉ rest) := by
  induction targets generalizing fp k with
  | nil =>
    have htext : fp.text = rest := h.text
    obtain ⟨hnone, hiff⟩ := spoolTargets_else fails k (htext ▸ h.ends) herror
    refine ⟨0, Nat.le_refl 0, nofun, nofun, hnone, ?_⟩
    rw [hiff, htext]
    simp
  | cons target targets ih =>
    obtain ⟨hname, hnames⟩ := List.forall_mem_cons.mp h.nameable
    have htext : fp.text = target ++ newline :: (unlines targets ++ rest) := by
      rw [h.text, unlines, unlines, List.flatMap_cons]
      simp
    rw [spoolTargets_line hname htext]
    by_cases hk : fails k = none
    · obtain ⟨n, hn, hbefore, hat, hspooled, hiff⟩ :=
        @ih { fp with text := unlines targets ++ rest } (k + 1) herror ⟨rfl, hnames, h.ends⟩
      have hshift (i : Nat) : k + 1 + i = k + (i + 1) := by omega
      rw [if_pos hk]
      refine ⟨n + 1, Nat.succ_le_succ hn, fun i hi => ?_, fun hlt => ?_, ?_, ?_⟩
      · cases i with
        | zero => exact hk
        | succ i => exact hshift i ▸ hbefore i (Nat.lt_of_succ_lt_succ hi)
      · exact hshift n ▸ hat (Nat.lt_of_succ_lt_succ hlt)
      · dsimp only
        rw [hspooled, List.take_succ_cons]
      · rw [hiff, List.length_cons, Nat.add_lt_add_iff_right]
    · rw [if_neg hk]
      exact ⟨0, Nat.zero_le _, nofun, fun _ => hk, rfl, iff_of_true rfl (.inl (Nat.succ_pos _))⟩

end Spool

/-- Every text begins with targets that `spool_targets` adds lookups for in their
order, up to the first failure. The first line that is too long, not ended or cut
short by a NUL ends them, and what is left goes unreported unless reading itself
fails within 79 bytes of it. -/
theorem spoolTargets_reads (text : List UInt8) (bad : Bool) (fails : Nat → Option Failure) :
    (∃ targets rest, Lists text targets rest) ∧ ∀ targets rest, Lists text targets rest →
      ∃ n ≤ targets.length, (∀ i < n, fails i = none) ∧ (n < targets.length → fails n ≠ none) ∧
        (spoolTargets fails 0 ⟨text, bad, false⟩).1 = targets.take n ∧
        ((spoolTargets fails 0 ⟨text, bad, false⟩).2 = true ↔ n < targets.length ∨
          bad = true ∧ rest.length < 79 ∧ newline ∉ rest) := by
  refine ⟨exists_lists text, fun targets rest h => ?_⟩
  have hreads := @spoolTargets_lists fails ⟨text, bad, false⟩ 0 targets rest rfl h
  simp only [Nat.zero_add] at hreads
  exact hreads

end Libtorque.Torquehost
