import Mathlib.Data.List.Basic

/-! # Programs that print

A printer writes to a stream, and may stop with an error. Any write to a stream
may fail, whether or not those before it did. A printer that checks each of them
prints its pieces one after the other, up to the first that cannot be written;
one that checks some of them goes on after the others. -/
namespace Libtorque.Lib

/-- What has been written, and whether the `n`th write from here on succeeds. -/
structure Stream where
  text : List Char := []
  ok : Nat → Bool := fun _ => true

namespace Stream

/-- The next `n` writes succeed. -/
def Holds (o : Stream) (n : Nat) : Prop := ∀ i < n, o.ok i = true

instance (o : Stream) (n : Nat) : Decidable (o.Holds n) :=
  inferInstanceAs (Decidable (∀ i < n, o.ok i = true))

def add (o : Stream) (t : List Char) : Stream :=
  { text := o.text ++ t, ok := fun n => o.ok (n + 1) }

/-- After a write that failed. -/
def skip (o : Stream) : Stream := { o with ok := fun n => o.ok (n + 1) }

/-- Write the pieces, up to the first that fails. -/
def put (o : Stream) : List (List Char) → Bool × Stream
  | [] => (true, o)
  | t :: ts => if o.ok 0 then (o.add t).put ts else (false, o.skip)

theorem put_append (o : Stream) (ts us : List (List Char)) :
    o.put (ts ++ us) = if (o.put ts).1 then (o.put ts).2.put us else o.put ts := by
  induction ts generalizing o with
  | nil => rfl
  | cons t ts ih =>
    rw [List.cons_append, put, put]
    split
    · exact ih (o.add t)
    · rfl

theorem holds_succ {o : Stream} (t : List Char) (n : Nat) :
    o.Holds (n + 1) ↔ o.ok 0 = true ∧ (o.add t).Holds n := by
  constructor
  · intro h
    exact ⟨h 0 (Nat.succ_pos n), fun i hi => h (i + 1) (Nat.succ_lt_succ hi)⟩
  · rintro ⟨hfirst, hrest⟩ i hi
    cases i with
    | zero => exact hfirst
    | succ i => exact hrest i (Nat.lt_of_succ_lt_succ hi)

theorem put_ok_iff (o : Stream) (ts : List (List Char)) :
    (o.put ts).1 = true ↔ o.Holds ts.length := by
  induction ts generalizing o with
  | nil => exact iff_of_true rfl fun i hi => absurd hi (Nat.not_lt_zero i)
  | cons t ts ih =>
    rw [put, List.length_cons, holds_succ t]
    split
    · rename_i h
      rw [ih, h, eq_self, true_and]
    · rename_i h
      exact iff_of_false Bool.false_ne_true fun hall => h hall.1

/-- All that is written is the beginning of the text. -/
theorem put_text (o : Stream) (ts : List (List Char)) :
    ∃ n, (o.put ts).2.text = o.text ++ (ts.take n).flatten ∧
      (o.Holds ts.length → n = ts.length) := by
  induction ts generalizing o with
  | nil => exact ⟨0, by simp [put], fun _ => rfl⟩
  | cons t ts ih =>
    rw [put]
    split
    · obtain ⟨n, htext, hn⟩ := ih (o.add t)
      refine ⟨n + 1, ?_, ?_⟩
      · rw [htext]
        simp [add]
      · intro hall
        rw [List.length_cons, hn ((holds_succ t _).mp hall).2]
    · rename_i h
      refine ⟨0, by simp [skip], ?_⟩
      intro hall
      exact absurd ((holds_succ t _).mp hall).1 h

/-- Write the pieces, each group of them up to the first that fails. What is not
checked is passed over when it cannot be written. -/
def offer (o : Stream) : List (Bool × List (List Char)) → Bool × Stream
  | [] => (true, o)
  | (checked, ts) :: gs =>
    if (o.put ts).1 = false ∧ checked then (false, (o.put ts).2) else (o.put ts).2.offer gs

/-- Each group that is checked can be written, after those before it. -/
def Accepts (o : Stream) : List (Bool × List (List Char)) → Prop
  | [] => True
  | (checked, ts) :: gs =>
    (checked → o.Holds ts.length) ∧ (o.put ts).2.Accepts gs

theorem offer_checked (o : Stream) (ts : List (List Char)) : o.offer [(true, ts)] = o.put ts := by
  rw [offer]
  by_cases hok : (o.put ts).1 = true
  · rw [if_neg (by simp [hok]), offer, ← hok]
  · rw [if_pos ⟨Bool.eq_false_iff.mpr hok, rfl⟩, ← Bool.eq_false_iff.mpr hok]

theorem offer_unchecked (o : Stream) (ts : List (List Char)) :
    o.offer [(false, ts)] = (true, (o.put ts).2) := by
  rw [offer, if_neg (by simp), offer]

theorem offer_append (o : Stream) (gs hs : List (Bool × List (List Char))) :
    o.offer (gs ++ hs) = if (o.offer gs).1 then (o.offer gs).2.offer hs else o.offer gs := by
  induction gs generalizing o with
  | nil => rfl
  | cons g gs ih =>
    obtain ⟨checked, ts⟩ := g
    rw [List.cons_append, offer, offer]
    split
    · rfl
    · exact ih _

theorem offer_ok_iff (o : Stream) (gs : List (Bool × List (List Char))) :
    (o.offer gs).1 = true ↔ o.Accepts gs := by
  induction gs generalizing o with
  | nil => exact iff_of_true rfl trivial
  | cons g gs ih =>
    obtain ⟨checked, ts⟩ := g
    rw [offer, Accepts, ← put_ok_iff]
    split
    · rename_i h
      simp [h.1, h.2]
    · rename_i h
      rw [ih, iff_and_self]
      intro _ hchecked
      by_contra hput
      exact h ⟨Bool.eq_false_iff.mpr hput, hchecked⟩

/-- What has been written stays. -/
theorem offer_text (o : Stream) (gs : List (Bool × List (List Char))) :
    ∃ rest, (o.offer gs).2.text = o.text ++ rest := by
  induction gs generalizing o with
  | nil => exact ⟨[], (List.append_nil _).symm⟩
  | cons g gs ih =>
    obtain ⟨checked, ts⟩ := g
    obtain ⟨n, hput, -⟩ := o.put_text ts
    rw [offer]
    split
    · exact ⟨_, hput⟩
    · obtain ⟨rest, hrest⟩ := ih (o.put ts).2
      exact ⟨(ts.take n).flatten ++ rest, by rw [hrest, hput, List.append_assoc]⟩

/-- A stream that never fails accepts everything. -/
theorem accepts_of_ok {o : Stream} (h : ∀ n, o.ok n = true)
    (gs : List (Bool × List (List Char))) : o.Accepts gs := by
  have hput (ts : List (List Char)) (o : Stream) (ho : ∀ n, o.ok n = true) (n : Nat) :
      (o.put ts).2.ok n = true := by
    induction ts generalizing o with
    | nil => exact ho n
    | cons t ts ih =>
      rw [put, if_pos (ho 0)]
      exact ih (o.add t) fun n => ho (n + 1)
  induction gs generalizing o with
  | nil => trivial
  | cons g gs ih => exact ⟨fun _ i _ => h i, ih (hput g.2 o h)⟩

end Stream

def Printer (ε α : Type) : Type := Stream → Except ε α × Stream

namespace Printer
variable {ε α β : Type}

instance : Monad (Printer ε) where
  pure a := fun o => (.ok a, o)
  bind p f := fun o =>
    match p o with
    | (.ok a, o) => f a o
    | (.error e, o) => (.error e, o)

theorem bind_apply (p : Printer ε α) (f : α → Printer ε β) (o : Stream) :
    (p >>= f) o = match p o with
      | (.ok a, o) => f a o
      | (.error e, o) => (.error e, o) := rfl

/-- A write that is checked. -/
def write (e : ε) (t : List Char) : Printer ε Unit := fun o =>
  if o.ok 0 then (.ok (), o.add t) else (.error e, o.skip)

def stop (e : ε) : Printer ε α := fun o => (.error e, o)

/-- The printer writes these pieces and comes to `a`; it stops with `e` where
one of them cannot be written. -/
def Prints (e : ε) (p : Printer ε α) (ts : List (List Char)) (a : α) : Prop :=
  ∀ o, p o = (if (o.put ts).1 then .ok a else .error e, (o.put ts).2)

variable {e : ε} {p : Printer ε α} {f : α → Printer ε β} {ts us : List (List Char)} {a : α} {b : β}

theorem prints_pure (e : ε) (a : α) : Prints e (pure a) [] a := fun _ => rfl

theorem prints_write (e : ε) (t : List Char) : Prints e (write e t) [t] () := by
  intro o
  unfold write Stream.put
  split <;> rfl

theorem Prints.bind (hp : Prints e p ts a) (hf : Prints e (f a) us b) :
    Prints e (p >>= f) (ts ++ us) b := by
  intro o
  rw [bind_apply, hp o, Stream.put_append]
  by_cases hok : (o.put ts).1 = true
  · simp only [hok, if_true]
    exact hf _
  · simp only [hok, if_false, Bool.false_eq_true]

theorem Prints.ok_iff (hp : Prints e p ts a) (o : Stream) :
    (p o).1 = .ok a ↔ o.Holds ts.length := by
  rw [hp o, ← Stream.put_ok_iff]
  by_cases hok : (o.put ts).1 = true <;> simp [hok]

theorem Prints.error_iff (hp : Prints e p ts a) (o : Stream) :
    (p o).1 = .error e ↔ ¬ o.Holds ts.length := by
  rw [hp o, ← Stream.put_ok_iff]
  by_cases hok : (o.put ts).1 = true <;> simp [hok]

/-- The text that is there in the end, or its beginning. -/
theorem Prints.text (hp : Prints e p ts a) (o : Stream) :
    ∃ n, (p o).2.text = o.text ++ (ts.take n).flatten ∧ (o.Holds ts.length → n = ts.length) := by
  rw [hp o]
  exact o.put_text ts

/-! ## Writes that are not checked -/

/-- A write whose result is dropped. -/
def attempt (t : List Char) : Printer ε Unit := fun o =>
  (.ok (), if o.ok 0 then o.add t else o.skip)

/-- A printer whose result is dropped. -/
def regardless (p : Printer ε Unit) : Printer ε Unit := fun o => (.ok (), (p o).2)

/-- A printer whose error is passed on as another. -/
def mapError {ε' : Type} (g : ε → ε') (p : Printer ε α) : Printer ε' α := fun o =>
  match p o with
  | (.ok a, o) => (.ok a, o)
  | (.error e, o) => (.error (g e), o)

variable {ws vs : List (Bool × List (List Char))}

/-- The printer offers these pieces to the stream, and comes to `a` unless one of
the checked cannot be written. -/
def Offers (e : ε) (p : Printer ε α) (ws : List (Bool × List (List Char))) (a : α) : Prop :=
  ∀ o, p o = (if (o.offer ws).1 then .ok a else .error e, (o.offer ws).2)

theorem Prints.offers (h : Prints e p ts a) : Offers e p [(true, ts)] a := by
  intro o
  rw [h o, Stream.offer_checked]

theorem offers_pure (e : ε) (a : α) : Offers e (pure a) [] a := fun _ => rfl

theorem Prints.regardless {q : Printer ε Unit} (h : Prints e q ts ()) (e' : ε) :
    Offers e' (regardless q) [(false, ts)] () := by
  intro o
  have hq : (q o).2 = (o.put ts).2 := by rw [h o]
  rw [Stream.offer_unchecked, Printer.regardless, hq]
  rfl

theorem Offers.mapError {ε' : Type} (h : Offers e p ws a) (g : ε → ε') :
    Offers (g e) (mapError g p) ws a := by
  intro o
  rw [Printer.mapError, h o]
  by_cases hok : (o.offer ws).1 = true <;> simp [hok]

theorem offers_attempt (e : ε) (t : List Char) : Offers e (attempt t) [(false, [t])] () := by
  intro o
  rw [Stream.offer_unchecked]
  unfold attempt Stream.put
  split <;> rfl

theorem Offers.bind (hp : Offers e p ws a) (hf : Offers e (f a) vs b) :
    Offers e (p >>= f) (ws ++ vs) b := by
  intro o
  rw [bind_apply, hp o, Stream.offer_append]
  by_cases hok : (o.offer ws).1 = true
  · simp only [hok, if_true]
    exact hf _
  · simp only [hok, if_false, Bool.false_eq_true]

theorem Offers.ok_iff (hp : Offers e p ws a) (o : Stream) :
    (p o).1 = .ok a ↔ o.Accepts ws := by
  rw [hp o, ← Stream.offer_ok_iff]
  by_cases hok : (o.offer ws).1 = true <;> simp [hok]

/-- The printer does not come to an end on any stream. -/
def Refuses (p : Printer ε α) : Prop := ∀ o, ∃ e, (p o).1 = .error e

theorem refuses_stop (e : ε) : Refuses (stop e : Printer ε α) := fun _ => ⟨e, rfl⟩

theorem Refuses.bind (hp : Refuses p) : Refuses (p >>= f) := by
  intro o
  obtain ⟨e, he⟩ := hp o
  rw [bind_apply]
  split
  · rename_i a o' heq
    rw [heq] at he
    cases he
  · exact ⟨_, rfl⟩

theorem Offers.refuses (hp : Offers e p ws a) (hf : Refuses (f a)) : Refuses (p >>= f) := by
  intro o
  rw [bind_apply, hp o]
  by_cases hok : (o.offer ws).1 = true
  · simp only [hok, if_true]
    exact hf _
  · simp only [hok, if_false, Bool.false_eq_true]
    exact ⟨e, rfl⟩

/-- The printer goes through just when `c`, writes allowing. -/
def Depends (e : ε) (p : Printer ε Unit) (c : Prop) : Prop :=
  (c → ∃ ws, Offers e p ws ()) ∧ (¬ c → Refuses p)

theorem Depends.of_offers {q : Printer ε Unit} {c : Prop} (h : Offers e q ws ()) (hc : c) :
    Depends e q c :=
  ⟨fun _ => ⟨ws, h⟩, fun hnot => absurd hc hnot⟩

theorem Depends.of_refuses {q : Printer ε Unit} {c : Prop} (h : Refuses q) (hc : ¬ c) :
    Depends e q c :=
  ⟨fun hyes => absurd hyes hc, fun _ => h⟩

theorem Depends.congr {q : Printer ε Unit} {c d : Prop} (h : Depends e q c) (hcd : c ↔ d) :
    Depends e q d :=
  propext hcd ▸ h

/-- A printer that comes to an end has only written more. -/
theorem Depends.text {q : Printer ε Unit} {c : Prop} (h : Depends e q c) {o : Stream}
    (hok : (q o).1 = .ok ()) : ∃ rest, (q o).2.text = o.text ++ rest := by
  by_cases hc : c
  · obtain ⟨ws, hws⟩ := h.1 hc
    rw [hws o]
    exact o.offer_text ws
  · obtain ⟨e', he'⟩ := h.2 hc o
    rw [he'] at hok
    cases hok

/-- One printer after the other. -/
theorem Depends.then {q : Printer ε Unit} {g : Unit → Printer ε Unit} {c d : Prop}
    (hq : Depends e q c) (hg : Depends e (g ()) d) : Depends e (q >>= g) (c ∧ d) := by
  by_cases hc : c
  · obtain ⟨ws, hws⟩ := hq.1 hc
    refine ⟨fun hcd => ?_, fun hnot => ?_⟩
    · obtain ⟨vs, hvs⟩ := hg.1 hcd.2
      exact ⟨ws ++ vs, hws.bind hvs⟩
    · exact hws.refuses (hg.2 fun hd => hnot ⟨hc, hd⟩)
  · exact .of_refuses (hq.2 hc).bind fun hcd => hc hcd.1

/-- After a printer that goes through. -/
theorem Depends.after {q : Printer ε Unit} {g : Unit → Printer ε Unit} {d : Prop}
    (hq : Depends e q True) (hg : Depends e (g ()) d) : Depends e (q >>= g) d :=
  (hq.then hg).congr (and_iff_right trivial)

theorem Offers.depends {g : α → Printer ε Unit} {d : Prop} (hp : Offers e p ws a)
    (hg : Depends e (g a) d) : Depends e (p >>= g) d := by
  refine ⟨fun hd => ?_, fun hnot => hp.refuses (hg.2 hnot)⟩
  obtain ⟨vs, hvs⟩ := hg.1 hd
  exact ⟨ws ++ vs, hp.bind hvs⟩

/-- A printer for each element. -/
theorem depends_forM {xs : List α} {g : α → Printer ε Unit} {c : α → Prop}
    (h : ∀ x ∈ xs, Depends e (g x) (c x)) : Depends e (xs.forM g) (∀ x ∈ xs, c x) := by
  induction xs with
  | nil => exact .of_offers (offers_pure e ()) nofun
  | cons x xs ih =>
    have hrest := ih fun y hy => h y (List.mem_cons_of_mem _ hy)
    exact ((h x List.mem_cons_self).then hrest).congr List.forall_mem_cons.symm

/-- A check before the rest. -/
theorem depends_ite {q : Printer ε Unit} {c d : Prop} [Decidable c] {e' : ε}
    (hq : ¬ c → Depends e q d) : Depends e (if c then stop e' else q) (¬ c ∧ d) := by
  by_cases hc : c
  · rw [if_pos hc]
    exact .of_refuses (refuses_stop e') fun h => h.1 hc
  · rw [if_neg hc]
    exact (hq hc).congr (and_iff_right hc).symm

end Printer

end Libtorque.Lib
