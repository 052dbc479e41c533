import Libtorque.Hardware.Cpuid
import Libtorque.Lib.Cursor
import Mathlib.Data.List.Destutter

/-! # The brand name of a processor

`x86_getbrandname` as it writes to its buffer, and the string that it stores:
the bytes of the three leaves up to the first NUL, without the spaces at the
front, and with one space for each run of them. -/
namespace Libtorque.Hardware
open Libtorque.Lib

/-! ## The loops over leaves, registers and bytes -/

/-- `aname` in `brandname`, and `hadspace`. -/
structure BrandState where
  aname : Cursor Char
  hadspace : Bool

def brandByte (b : BrandState) (c : Char) : Option BrandState :=
  if c ≠ ' ' ∨ b.hadspace = false then do
    let aname ← b.aname.put c
    some ⟨aname, c = ' '⟩
  else some b

def brandRegister (b : BrandState) (gpreg : Word) : Option BrandState :=
  (bytes gpreg).foldlM brandByte b

def brandLeaf (P : Processor) (b : BrandState) (op : Word) : Option BrandState :=
  let gpregs := P.cpuid op 0
  [gpregs.eax, gpregs.ebx, gpregs.ecx, gpregs.edx].foldlM brandRegister b

/-- `brandname` with its terminator; `none` where a store is outside of it. -/
def writeBrandname (P : Processor) : Option (Cursor Char) := do
  let b ← [0x80000002, 0x80000003, 0x80000004].foldlM (brandLeaf P) ⟨.fresh (16 * 3 + 1), true⟩
  b.aname.put (Char.ofNat 0)

/-! ## The string -/

/-- The 48 bytes of the leaves. -/
def brandBytes (P : Processor) : List Char :=
  [0x80000002, 0x80000003, 0x80000004].flatMap fun op =>
    let gpregs := P.cpuid op 0
    bytes gpregs.eax ++ bytes gpregs.ebx ++ bytes gpregs.ecx ++ bytes gpregs.edx

/-- What may follow `a` where runs of spaces are reduced to one. -/
def Follows (a b : Char) : Prop := a = ' ' → b ≠ ' '

instance : DecidableRel Follows := fun a b => inferInstanceAs (Decidable (a = ' ' → b ≠ ' '))

/-- Without the spaces at the front, and those after a space. -/
def normalise (l : List Char) : List Char := (l.dropWhile fun c => c = ' ').destutter Follows

theorem destutter'_eq_squeeze (a : Char) (l : List Char) :
    l.destutter' Follows a = a :: squeeze (a = ' ') l := by
  induction l generalizing a with
  | nil => rfl
  | cons b l ih =>
    rw [squeeze]
    by_cases hb : b = ' '
    · by_cases ha : a = ' '
      · have hrun : ¬ Follows a b := fun h => h ha hb
        rw [List.destutter'_cons_neg l hrun, ih]
        simp [ha, hb]
      · have hfirst : Follows a b := fun h => absurd h ha
        rw [List.destutter'_cons_pos l hfirst, ih]
        simp [ha]
    · have hword : Follows a b := fun _ => hb
      rw [List.destutter'_cons_pos l hword, ih]
      simp [hb]

/-- The automaton makes of a string what it is to be. -/
theorem squeeze_eq_normalise (l : List Char) : squeeze true l = normalise l := by
  induction l with
  | nil => rfl
  | cons a l ih =>
    rw [squeeze]
    by_cases ha : a = ' '
    · simpa [ha, normalise] using ih
    · simp [ha, normalise, List.destutter_cons', destutter'_eq_squeeze]

/-- A NUL is no space. -/
theorem takeWhile_squeeze (hadspace : Bool) (l : List Char) :
    (squeeze hadspace l).takeWhile (fun c => c ≠ Char.ofNat 0) =
      squeeze hadspace (l.takeWhile fun c => c ≠ Char.ofNat 0) := by
  induction l generalizing hadspace with
  | nil => rfl
  | cons a l ih =>
    rw [squeeze]
    by_cases hnul : a = Char.ofNat 0
    · subst hnul
      rw [if_pos (Or.inl (by decide)), List.takeWhile_cons_of_neg (by simp),
        List.takeWhile_cons_of_neg (by simp), squeeze]
    · rw [List.takeWhile_cons_of_pos (by simpa using hnul), squeeze]
      split
      · rw [List.takeWhile_cons_of_pos (by simpa using hnul), ih]
      · rw [ih]

theorem dropWhile_normalise (l : List Char) :
    (normalise l).dropWhile (fun c => c = ' ') = normalise l := by
  induction l with
  | nil => rfl
  | cons a l ih =>
    by_cases ha : a = ' '
    · have hdrop : normalise (a :: l) = normalise l := by
        rw [normalise, List.dropWhile_cons_of_pos (by simpa using ha), ← normalise]
      rw [hdrop, ih]
    · have hkeep : normalise (a :: l) = a :: squeeze (a = ' ') l := by
        rw [normalise, List.dropWhile_cons_of_neg (by simpa using ha), List.destutter_cons',
          destutter'_eq_squeeze]
      rw [hkeep, List.dropWhile_cons_of_neg (by simpa using ha)]

theorem normalise_idem (l : List Char) : normalise (normalise l) = normalise l := by
  rw [normalise, dropWhile_normalise]
  exact List.destutter_idem _ _

/-! ## The buffer -/

theorem length_squeeze_le (hadspace : Bool) (l : List Char) :
    (squeeze hadspace l).length ≤ l.length := by
  induction l generalizing hadspace with
  | nil => exact Nat.le_refl 0
  | cons a l ih =>
    rw [squeeze]
    split
    · exact Nat.succ_le_succ (ih _)
    · exact (ih _).trans (Nat.le_succ _)

/-- The flag goes over from a register to the next, and from a leaf to the next. -/
theorem foldlM_brandLeaf (P : Processor) (b : BrandState) :
    [0x80000002, 0x80000003, 0x80000004].foldlM (brandLeaf P) b =
      (brandBytes P).foldlM brandByte b := by
  simp [brandBytes, brandLeaf, brandRegister, List.foldlM_append, Option.bind_assoc]

/-- Each byte that is not dropped is written after the others. -/
theorem foldlM_brandByte {n : Nat} {w : List Char} {b : BrandState} (cs : List Char)
    (h : Cursor.Written n w b.aname) (hn : w.length + cs.length ≤ n) :
    ∃ b', cs.foldlM brandByte b = some b' ∧
      Cursor.Written n (w ++ squeeze b.hadspace cs) b'.aname := by
  induction cs generalizing w b with
  | nil => exact ⟨b, rfl, by simpa [squeeze] using h⟩
  | cons c cs ih =>
    rw [List.length_cons] at hn
    rw [List.foldlM_cons, brandByte, squeeze]
    split
    · obtain ⟨aname, hput, hw⟩ := h.put (by omega) c
      obtain ⟨b', hrun, hb'⟩ := ih (b := ⟨aname, c = ' '⟩) hw (by simp; omega)
      refine ⟨b', ?_, by simpa using hb'⟩
      rw [hput]
      exact hrun
    · exact ih h (by omega)

theorem length_brandBytes (P : Processor) : (brandBytes P).length = 48 := by
  simp [brandBytes, bytes]

/-- Whatever the leaves hold, no store is outside of `brandname`, and what is
stored is the string before the first NUL, normalised. -/
theorem x86Getbrandname_normalised (P : Processor) (cpu : TorqueCput) :
    ∃ brandname aname, writeBrandname P = some brandname ∧
      Cursor.readUntil (fun c => c = Char.ofNat 0) brandname.cells = some aname ∧
      aname = normalise ((brandBytes P).takeWhile fun c => c ≠ Char.ofNat 0) ∧
      normalise aname = aname ∧
      x86Getbrandname P cpu =
        if identifyExtendedCpuid P < 0x80000004 then none
        else if P.strdup then some { cpu with strdescription := String.ofList aname }
        else none := by
  have hfresh : Cursor.Written 49 [] (Cursor.fresh 49 : Cursor Char) := Cursor.written_fresh 49
  have hfits : ([] : List Char).length + (brandBytes P).length ≤ 49 := by simp [length_brandBytes]
  obtain ⟨b, hrun, hb⟩ := foldlM_brandByte (b := ⟨.fresh 49, true⟩) (brandBytes P) hfresh hfits
  have hlen : (squeeze true (brandBytes P)).length < 49 := by
    have := length_squeeze_le true (brandBytes P)
    rw [length_brandBytes] at this
    omega
  obtain ⟨brandname, hput, hwritten⟩ := Cursor.Written.put hb hlen (Char.ofNat 0)
  have hname : ((squeeze true (brandBytes P)).takeWhile fun c => c ≠ Char.ofNat 0) =
      normalise ((brandBytes P).takeWhile fun c => c ≠ Char.ofNat 0) := by
    rw [takeWhile_squeeze, squeeze_eq_normalise]
  refine ⟨brandname, normalise ((brandBytes P).takeWhile fun c => c ≠ Char.ofNat 0), ?_, ?_, rfl,
    normalise_idem _, ?_⟩
  · rw [writeBrandname, foldlM_brandLeaf, hrun]
    exact hput
  · rw [hwritten.readUntil (by decide), ← hname]
    simp
  · rw [← hname]
    rfl

end Libtorque.Hardware
