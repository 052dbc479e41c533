import Mathlib.Data.List.TakeWhile
import Mathlib.Data.List.Basic
import Mathlib.Logic.Function.Basic

/-! # Texts that can be read back

A way to write values is clear when the text tells the value, and where what
follows it begins. Clear ways make clear ways: one after the other, or one for
each element of a list. A number is clear with something behind that is no
digit. -/
namespace Libtorque.Lib

variable {α β : Type}

def Clear (f : α → List Char) : Prop :=
  ∀ ⦃a b : α⦄ ⦃x y : List Char⦄, f a ++ x = f b ++ y → a = b ∧ x = y

/-- No text of the one way is how a text of the other begins. -/
def Apart (f : α → List Char) (g : β → List Char) : Prop :=
  ∀ ⦃a : α⦄ ⦃b : β⦄ ⦃x y : List Char⦄, f a ++ x ≠ g b ++ y

theorem Clear.comp {f : α → List Char} (hf : Clear f) {g : β → α} (hg : Function.Injective g) :
    Clear fun b => f (g b) := by
  intro a b x y h
  obtain ⟨hab, hxy⟩ := hf h
  exact ⟨hg hab, hxy⟩

/-- A fixed text in front. -/
theorem Clear.after {f : α → List Char} (hf : Clear f) (t : List Char) :
    Clear fun a => t ++ f a := by
  intro a b x y h
  rw [List.append_assoc, List.append_assoc] at h
  exact hf (List.append_cancel_left h)

/-- One text only. -/
theorem clear_text (t : List Char) : Clear fun _ : Unit => t := by
  intro _ _ x y h
  exact ⟨rfl, List.append_cancel_left h⟩

/-- A value, or that there is none. -/
theorem Clear.option {f : α → List Char} {t : List Char} (hf : Clear f)
    (hft : Apart f fun _ : Unit => t) : Clear fun o : Option α => o.elim t f := by
  intro a b x y h
  cases a with
  | none =>
    cases b with
    | none => exact ⟨rfl, List.append_cancel_left h⟩
    | some b => exact (hft (b := ()) h.symm).elim
  | some a =>
    cases b with
    | none => exact (hft (b := ()) h).elim
    | some b =>
      obtain ⟨rfl, hxy⟩ := hf h
      exact ⟨rfl, hxy⟩

/-- Each element of a list, and then something else. -/
theorem Clear.list {f : α → List Char} {g : β → List Char} (hf : Clear f) (hg : Clear g)
    (hfg : Apart f g) : Clear fun p : List α × β => p.1.flatMap f ++ g p.2 := by
  rintro ⟨l, c⟩ ⟨m, d⟩ x y h
  induction l generalizing m with
  | nil =>
    cases m with
    | nil =>
      obtain ⟨rfl, hxy⟩ := hg h
      exact ⟨rfl, hxy⟩
    | cons b m =>
      simp only [List.flatMap_nil, List.nil_append, List.flatMap_cons, List.append_assoc] at h
      exact (hfg h.symm).elim
  | cons a l ih =>
    cases m with
    | nil =>
      simp only [List.flatMap_nil, List.nil_append, List.flatMap_cons, List.append_assoc] at h
      exact (hfg h).elim
    | cons b m =>
      simp only [List.flatMap_cons, List.append_assoc] at h
      obtain ⟨rfl, hrest⟩ := hf h
      obtain ⟨heq, hxy⟩ := ih m (by simpa only [List.append_assoc] using hrest)
      obtain ⟨rfl, rfl⟩ := Prod.mk.injEq .. ▸ heq
      exact ⟨rfl, hxy⟩

/-- A list to the end of the text. -/
theorem Clear.flatMap_injective {f : α → List Char} (hf : Clear f) (hne : ∀ a, f a ≠ []) :
    Function.Injective fun l : List α => l.flatMap f := by
  intro l m h
  induction l generalizing m with
  | nil =>
    cases m with
    | nil => rfl
    | cons b m => exact absurd (List.append_eq_nil_iff.mp h.symm).1 (hne b)
  | cons a l ih =>
    cases m with
    | nil => exact absurd (List.append_eq_nil_iff.mp h).1 (hne a)
    | cons b m =>
      obtain ⟨rfl, hrest⟩ := hf h
      rw [ih hrest]

/-! ## Where a run ends -/

theorem head_append {p : α → Prop} {t : List α} (z : List α) (h : ∃ c ∈ t.head?, p c) :
    ∀ c ∈ (t ++ z).head?, p c := by
  obtain ⟨d, hd, hpd⟩ := h
  intro c hc
  cases t with
  | nil => cases hd
  | cons e t =>
    cases hd
    cases hc
    exact hpd

theorem append_unique {p : α → Bool} {a b x y : List α} (ha : ∀ c ∈ a, p c = true)
    (hb : ∀ c ∈ b, p c = true) (hx : ∀ c ∈ x.head?, p c = false) (hy : ∀ c ∈ y.head?, p c = false)
    (h : a ++ x = b ++ y) : a = b ∧ x = y := by
  have hstop : ∀ z : List α, (∀ c ∈ z.head?, p c = false) → z.takeWhile p = [] := by
    intro z hz
    cases z with
    | nil => rfl
    | cons c z => simp [hz c rfl]
  have htake := congrArg (List.takeWhile p) h
  rw [List.takeWhile_append_of_pos ha, List.takeWhile_append_of_pos hb, hstop x hx, hstop y hy,
    List.append_nil, List.append_nil] at htake
  exact ⟨htake, List.append_cancel_left (htake ▸ h)⟩

/-- A list of heads, each with what belongs to it, tells them one by one. -/
theorem headed_unique {p : β → Bool} {head : α → β} {rest : α → List β}
    (hhead : ∀ a, p (head a) = false) (hrest : ∀ a, ∀ b ∈ rest a, p b = true) {l m : List α}
    (h : l.flatMap (fun a => head a :: rest a) = m.flatMap fun a => head a :: rest a) :
    l.map (fun a => (head a, rest a)) = m.map fun a => (head a, rest a) := by
  have hnext : ∀ n : List α, ∀ c ∈ (n.flatMap fun a => head a :: rest a).head?, p c = false := by
    intro n c hc
    cases n with
    | nil => cases hc
    | cons a n =>
      cases hc
      exact hhead a
  induction l generalizing m with
  | nil =>
    cases m with
    | nil => rfl
    | cons b m => cases h
  | cons a l ih =>
    cases m with
    | nil => cases h
    | cons b m =>
      simp only [List.flatMap_cons, List.cons_append, List.cons.injEq] at h
      obtain ⟨hab, hmore⟩ := append_unique (hrest a) (hrest b) (hnext l) (hnext m) h.2
      rw [List.map_cons, List.map_cons, ih hmore, h.1, hab]

/-- As many of one character as a number says. -/
theorem Clear.replicate {c : Char} {g : Nat → β → List Char} (hg : ∀ n, Clear (g n))
    (hhead : ∀ n b, ∃ d ∈ (g n b).head?, (d == c) = false) :
    Clear fun p : Nat × β => List.replicate p.1 c ++ g p.1 p.2 := by
  rintro ⟨m, a⟩ ⟨n, b⟩ x y h
  simp only [List.append_assoc] at h
  obtain ⟨hmn, hrest⟩ := append_unique (p := (· == c)) (by simp) (by simp)
    (head_append x (hhead m a)) (head_append y (hhead n b)) h
  obtain rfl : m = n := by simpa using congrArg List.length hmn
  obtain ⟨rfl, hxy⟩ := hg m hrest
  exact ⟨rfl, hxy⟩

/-- `%u` -/
def decimal (n : Nat) : List Char := Nat.toDigits 10 n

theorem decimal_digits {n : Nat} {c : Char} (h : c ∈ decimal n) : c.isDigit = true :=
  Nat.isDigit_of_mem_toDigits (by decide) (by decide) h

theorem decimal_ne_nil (n : Nat) : decimal n ≠ [] := Nat.toDigits_ne_nil

theorem decimal_injective : Function.Injective decimal := by
  intro m n h
  have hnum := congrArg (fun ds => Nat.ofDigitChars 10 ds 0) h
  simpa [decimal] using hnum

/-- A number, and then something that does not begin with a digit. -/
theorem Clear.decimal {g : β → List Char} (hg : Clear g)
    (hhead : ∀ b, ∃ c ∈ (g b).head?, c.isDigit = false) :
    Clear fun p : Nat × β => decimal p.1 ++ g p.2 := by
  rintro ⟨m, a⟩ ⟨n, b⟩ x y h
  simp only [List.append_assoc] at h
  obtain ⟨hmn, hrest⟩ := append_unique (fun _ => decimal_digits) (fun _ => decimal_digits)
    (head_append x (hhead a)) (head_append y (hhead b)) h
  obtain rfl := decimal_injective hmn
  obtain ⟨rfl, hxy⟩ := hg hrest
  exact ⟨rfl, hxy⟩

/-- `%3u` and the like. -/
def padded (width n : Nat) : List Char := (decimal n).leftpad width ' '

theorem decimal_head (n : Nat) : ∃ c ∈ (decimal n).head?, c.isDigit = true := by
  cases hd : decimal n with
  | nil => exact absurd hd (decimal_ne_nil n)
  | cons c cs => exact ⟨c, rfl, decimal_digits (hd ▸ List.mem_cons_self)⟩

theorem Clear.padded {g : β → List Char} (hg : Clear g)
    (hhead : ∀ b, ∃ c ∈ (g b).head?, c.isDigit = false) (width : Nat) :
    Clear fun p : Nat × β => padded width p.1 ++ g p.2 := by
  rintro ⟨m, a⟩ ⟨n, b⟩ x y h
  have hdigit : ∀ k, ∃ c ∈ (Lib.decimal k).head?, (c == ' ') = false := by
    intro k
    obtain ⟨c, hc, hdigit⟩ := decimal_head k
    refine ⟨c, hc, beq_false_of_ne ?_⟩
    rintro rfl
    cases hdigit
  simp only [Lib.padded, List.leftpad, List.append_assoc] at h
  obtain ⟨-, hrest⟩ := append_unique (p := (· == ' ')) (by simp) (by simp)
    (head_append _ (hdigit m)) (head_append _ (hdigit n)) h
  exact Clear.decimal hg hhead (a := (m, a)) (b := (n, b))
    (by simpa only [List.append_assoc] using hrest)

theorem padded_head (width n : Nat) :
    ∃ c ∈ (padded width n).head?, c = ' ' ∨ c.isDigit = true := by
  unfold padded List.leftpad
  cases width - (decimal n).length with
  | zero =>
    obtain ⟨c, hc, hdigit⟩ := decimal_head n
    exact ⟨c, by simpa using hc, .inr hdigit⟩
  | succ k => exact ⟨' ', by simp [List.replicate_succ], .inl rfl⟩

/-- What the first characters tell apart. -/
theorem apart_of_head {p : Char → Bool} {f : α → List Char} {g : β → List Char}
    (hf : ∀ a, ∃ c ∈ (f a).head?, p c = true) (hg : ∀ b, ∃ c ∈ (g b).head?, p c = false) :
    Apart f g := by
  intro a b x y h
  obtain ⟨c, hc, hpc⟩ := hf a
  obtain ⟨d, hd, hpd⟩ := hg b
  have hhead : ∀ {l z : List Char} {e : Char}, e ∈ l.head? → (l ++ z).head? = some e := by
    intro l z e he
    cases l with
    | nil => cases he
    | cons k l => exact he
  have hcd := (hhead hc).symm.trans ((congrArg List.head? h).trans (hhead hd))
  rw [Option.some.inj hcd, hpd] at hpc
  cases hpc

end Libtorque.Lib
