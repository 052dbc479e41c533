import Libtorque.Archdetect.Listing
import Mathlib.Tactic.NormNum

/-! # Numbers of bytes: `fprintf_bunit`

A number is printed with the largest unit that divides it and, where that leaves
much to read, once more with a larger one. -/
namespace Libtorque.Archdetect
open Libtorque.Lib

/-- The text that a locale makes of a number with `%'ju`, and with `%.3f` of a
number that has been made a float and divided by 1024. What digits these are is
left open: the float may not hold the number, and they are rounded. -/
structure Locale where
  grouped : Nat → List Char
  thousandths : Nat → List Char

/-- Why a function does not return 0: as one of print_cpuset, or with a message. -/
inductive Complaint where
  | stop (s : Stop)
  | error (message : List Char)
deriving DecidableEq

def units : List Char := "KMGTPEZY".toList

/-- The first loop, with the current unit and those after it: -1 where they run
out. -/
def exactUnit : List Char → Nat → Option (Char × List Char × Nat)
  | [], _ => none
  | unit :: rest, val =>
    if 1024 ≤ val ∧ val % 1024 = 0 then exactUnit rest (val / 1024) else some (unit, rest, val)

/-- The second loop, with the units after the current one. -/
def roundedUnit : List Char → Nat → Option (Char × Nat)
  | [], _ => none
  | unit :: rest, val =>
    if 1000 ≤ val / 1024 ∧ val % 1024 ≠ 0 then roundedUnit rest (val / 1024) else some (unit, val)

def fprintfBunit (L : Locale) (suffix : List Char) (val : Nat) : Printer Complaint Unit :=
  if val < 1024 ∨ val % 1024 ≠ 0 then Printer.write (.stop .failed) (decimal val ++ suffix)
  else match exactUnit units (val / 1024) with
    | none => Printer.stop (.stop .failed)
    | some (unit, rest, val) => do
      Printer.write (.stop .failed) (L.grouped val ++ unit :: suffix)
      if 1024 ≤ val ∧ val % 1024 ≠ 0 then
        match roundedUnit rest val with
        | some (unit, val) =>
          Printer.write (.stop .failed)
            (" (".toList ++ L.thousandths val ++ ' ' :: unit :: (suffix ++ [')']))
        | none => return
      else return

/-! ## The loops -/

theorem exactUnit_spec {us : List Char} {val : Nat} (hpos : 0 < val)
    (hlt : val < 1024 ^ us.length) :
    ∃ i unit rest q, exactUnit us val = some (unit, rest, q) ∧ us.drop i = unit :: rest ∧
      q * 1024 ^ i = val ∧ ¬ (1024 ≤ q ∧ q % 1024 = 0) := by
  induction us generalizing val with
  | nil =>
    rw [List.length_nil, Nat.pow_zero] at hlt
    omega
  | cons u us ih =>
    rw [exactUnit]
    split
    · rename_i hdiv
      have hlt' : val / 1024 < 1024 ^ us.length := by
        rw [Nat.div_lt_iff_lt_mul (by decide), ← Nat.pow_succ]
        exact hlt
      obtain ⟨i, unit, rest, q, hq, hdrop, hval, hmax⟩ := ih (by omega) hlt'
      refine ⟨i + 1, unit, rest, q, hq, hdrop, ?_, hmax⟩
      rw [Nat.pow_succ, ← Nat.mul_assoc, hval]
      omega
    · rename_i hmax
      exact ⟨0, u, us, val, rfl, rfl, by rw [Nat.pow_zero, Nat.mul_one], hmax⟩

theorem roundedUnit_spec {us : List Char} {q : Nat} (hne : us ≠ [])
    (hlt : q < 1024000 * 1024 ^ (us.length - 1)) :
    ∃ i unit rest, roundedUnit us q = some (unit, q / 1024 ^ i) ∧ us.drop i = unit :: rest := by
  induction us generalizing q with
  | nil => exact absurd rfl hne
  | cons u us ih =>
    rw [roundedUnit]
    split
    · rename_i hlarge
      cases us with
      | nil =>
        rw [List.length_singleton, Nat.sub_self, Nat.pow_zero] at hlt
        omega
      | cons v vs =>
        have hlt' : q / 1024 < 1024000 * 1024 ^ ((v :: vs).length - 1) := by
          rw [Nat.div_lt_iff_lt_mul (by decide), Nat.mul_assoc, ← Nat.pow_succ]
          exact hlt
        obtain ⟨i, unit, rest, hq, hdrop⟩ := ih (List.cons_ne_nil v vs) hlt'
        refine ⟨i + 1, unit, rest, ?_, hdrop⟩
        rw [hq, Nat.div_div_eq_div_mul, Nat.pow_succ, Nat.mul_comm]
    · exact ⟨0, u, us, by rw [Nat.pow_zero, Nat.div_one], rfl⟩

/-! ## What is printed -/

/-- The `k`th unit. -/
def unitName (k : Nat) : List Char := (units.take k).drop (k - 1)

/-- `q` of the `k`th unit. -/
def exactText (L : Locale) (suffix : List Char) (k q : Nat) : List Char :=
  (if k = 0 then decimal q else L.grouped q) ++ unitName k ++ suffix

/-- `v / 1024` of the `k`th unit, in brackets. -/
def roundedText (L : Locale) (suffix : List Char) (k v : Nat) : List Char :=
  " (".toList ++ L.thousandths v ++ ' ' :: (unitName k ++ suffix ++ [')'])

/-- `q` of the `k`th unit are `val`, and no larger unit divides it. -/
structure Exact (val k q : Nat) : Prop where
  value : q * 1024 ^ k = val
  largest : ∀ j, k < j → 1024 ^ j ≤ val → ¬ 1024 ^ j ∣ val

theorem exact_of_not {val k q : Nat} (hval : q * 1024 ^ k = val)
    (hq : ¬ (1024 ≤ q ∧ q % 1024 = 0)) : Exact val k q := by
  refine ⟨hval, fun j hj hle hdvd => hq ?_⟩
  have hpos : 0 < 1024 ^ k := Nat.pow_pos (by decide)
  obtain ⟨i, rfl⟩ := Nat.exists_eq_add_of_lt hj
  have hsplit : 1024 ^ (k + i + 1) = 1024 ^ i * 1024 * 1024 ^ k := by
    rw [← Nat.pow_succ, ← Nat.pow_add]
    congr 1
    omega
  rw [hsplit, ← hval] at hle hdvd
  have hle' := Nat.le_of_mul_le_mul_right hle hpos
  have hdvd' := (Nat.dvd_of_mul_dvd_mul_right hpos hdvd)
  have hone : 1 ≤ 1024 ^ i := Nat.one_le_pow _ _ (by decide)
  exact ⟨by omega, Nat.mod_eq_zero_of_dvd (Dvd.dvd.trans (Dvd.intro_left _ rfl) hdvd')⟩

theorem unitName_of_drop {i : Nat} {unit : Char} {rest : List Char}
    (h : units.drop i = unit :: rest) : unitName (i + 1) = [unit] := by
  rw [unitName, Nat.add_sub_cancel, List.drop_take, h, Nat.add_sub_cancel_left]
  rfl

/-- Where the exact figure leaves off, there are units left for the other. -/
theorem units_left {i q : Nat} {unit : Char} {rest : List Char}
    (hdrop : units.drop i = unit :: rest) (hq : 1024 ≤ q) (hlt : q * 1024 ^ i < 2 ^ 54) :
    rest ≠ [] ∧ q < 1024000 * 1024 ^ (rest.length - 1) := by
  have hlength := congrArg List.length hdrop
  have hunits : units.length = 8 := rfl
  rw [List.length_drop, List.length_cons, hunits] at hlength
  have hi : i ≤ 4 := by
    by_contra hi
    have hle : 1024 ^ 5 ≤ 1024 ^ i := Nat.pow_le_pow_right (by decide) (by omega)
    have hprod := Nat.mul_le_mul hq hle
    omega
  refine ⟨List.ne_nil_of_length_pos (by omega), ?_⟩
  by_contra hle
  have hprod : 1024000 * 1024 ^ (rest.length - 1) * 1024 ^ i ≤ q * 1024 ^ i :=
    Nat.mul_le_mul_right _ (Nat.le_of_not_lt hle)
  have hsum : rest.length - 1 + i = 6 := by omega
  rw [Nat.mul_assoc, ← Nat.pow_add, hsum] at hprod
  omega

/-- `v` is the number of 1024ths of a unit, the rest cut off. -/
def Close (val k v : Nat) : Prop := v * 1024 ^ k ≤ val ∧ val < (v + 1) * 1024 ^ k

theorem close_div (q k i : Nat) : Close (q * 1024 ^ k) (k + i) (q / 1024 ^ i) := by
  have hpos : 0 < 1024 ^ k := Nat.pow_pos (by decide)
  have hsplit (v : Nat) : v * 1024 ^ (k + i) = v * 1024 ^ i * 1024 ^ k := by
    rw [Nat.mul_assoc, ← Nat.pow_add, Nat.add_comm i k]
  unfold Close
  rw [hsplit, hsplit]
  refine ⟨Nat.mul_le_mul_right _ (Nat.div_mul_le_self q _), Nat.mul_lt_mul_of_pos_right ?_ hpos⟩
  exact Nat.lt_mul_of_div_lt (Nat.lt_succ_self _) (Nat.pow_pos (by decide))

/-- What is printed of a number: with a unit that leaves 1024 or more, also the text
of a number of 1024ths of another unit. -/
inductive Figures (L : Locale) (suffix : List Char) (val : Nat) : List (List Char) → Prop where
  | plain {k q : Nat} (hexact : Exact val k q) (hq : k = 0 ∨ q < 1024) :
    Figures L suffix val [exactText L suffix k q]
  | rounded {k q l v : Nat} (hexact : Exact val (k + 1) q) (hq : 1024 ≤ q) (hl : k + 1 ≤ l)
      (hl8 : l < 8) (hclose : Close val l v) :
    Figures L suffix val [exactText L suffix (k + 1) q, roundedText L suffix (l + 1) v]

theorem bunit_figures (L : Locale) (suffix : List Char) {val : Nat} (h : val < 2 ^ 64) :
    ∃ ts, Printer.Prints (.stop .failed) (fprintfBunit L suffix val) ts () ∧
      Figures L suffix val ts := by
  unfold fprintfBunit
  by_cases hsmall : val < 1024 ∨ val % 1024 ≠ 0
  · have hplain : decimal val ++ suffix = exactText L suffix 0 val := by
      rw [exactText, if_pos rfl, unitName, List.take_zero, List.drop_nil, List.append_nil]
    rw [if_pos hsmall, hplain]
    refine ⟨_, Printer.prints_write _ _, .plain (k := 0) (q := val) ?_ (.inl rfl)⟩
    exact exact_of_not (by rw [Nat.pow_zero, Nat.mul_one]) (by omega)
  rw [if_neg hsmall]
  have hlt : val / 1024 < 1024 ^ units.length := by
    have hunits : units.length = 8 := rfl
    rw [hunits]
    omega
  obtain ⟨i, unit, rest, q, hq, hdrop, hval, hmax⟩ := exactUnit_spec (by omega) hlt
  rw [hq]
  have hexact : Exact val (i + 1) q := by
    refine exact_of_not ?_ hmax
    rw [Nat.pow_succ, ← Nat.mul_assoc, hval]
    omega
  have hname := unitName_of_drop hdrop
  have hfirst : L.grouped q ++ unit :: suffix = exactText L suffix (i + 1) q := by
    rw [exactText, if_neg (Nat.succ_ne_zero i), hname, List.append_assoc]
    rfl
  dsimp only
  rw [hfirst]
  by_cases hlarge : 1024 ≤ q ∧ q % 1024 ≠ 0
  · obtain ⟨hne, hroom⟩ := units_left hdrop hlarge.1 (by omega)
    obtain ⟨j, unit', rest', hround, hdrop'⟩ := roundedUnit_spec hne hroom
    rw [if_pos hlarge, hround]
    have hafter : units.drop (i + 1 + j) = unit' :: rest' := by
      rw [← List.drop_drop, ← List.tail_drop, hdrop]
      exact hdrop'
    have hshort : i + 1 + j < 8 := by
      have hlength := congrArg List.length hafter
      have hunits : units.length = 8 := rfl
      rw [List.length_drop, List.length_cons, hunits] at hlength
      omega
    have hclose := close_div q (i + 1) j
    rw [hexact.value] at hclose
    refine ⟨_, (Printer.prints_write _ _).bind (Printer.prints_write _ _), ?_⟩
    have hsecond :
        " (".toList ++ L.thousandths (q / 1024 ^ j) ++ ' ' :: unit' :: (suffix ++ [')']) =
          roundedText L suffix (i + 1 + j + 1) (q / 1024 ^ j) := by
      rw [roundedText, unitName_of_drop hafter]
      rfl
    rw [hsecond]
    exact .rounded hexact hlarge.1 (Nat.le_add_right _ _) hshort hclose
  · rw [if_neg hlarge]
    refine ⟨_, (Printer.prints_write _ _).bind (Printer.prints_pure _ _), ?_⟩
    exact .plain hexact (.inr (by omega))

/-- **No number is too large for the units.** A `uintmax_t` is printed with the
largest unit that divides it; where 1024 or more of that are left, the number of
1024ths of a larger unit, cut off, is handed on to be printed besides. -/
theorem fprintfBunit_figures (L : Locale) (suffix : List Char) (val : Nat) (h : val < 2 ^ 64) :
    ∃ ts, Printer.Prints (.stop .failed) (fprintfBunit L suffix val) ts () ∧
      Figures L suffix val ts :=
  bunit_figures L suffix h

/-- 1536 kB. -/
theorem fprintfBunit_figures_cache :
    ∃ ts, Printer.Prints (.stop .failed)
        (fprintfBunit ⟨decimal, fun _ => "1.500".toList⟩ ['B'] 0x180000) ts () ∧
      Figures ⟨decimal, fun _ => "1.500".toList⟩ ['B'] 0x180000 ts :=
  fprintfBunit_figures _ _ _ (by decide)

end Libtorque.Archdetect
