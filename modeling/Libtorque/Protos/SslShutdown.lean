import Libtorque.Protos.Ssl
import Libtorque.Lib.Env

/-! # SSL connections that are shut down

`SSL_read` and `SSL_write` return 0 from some point on. `ssl_txrxfxn` leaves its
loop at such a return; `ssl_rxfxn` and `ssl_tx` take it for progress. -/
namespace Libtorque

open Lib (Env Finishes runIn_loop_succ)

/-! ## The environment -/

/-- The time, and how many actions the client has taken. -/
abbrev Moment := Nat × Nat

/-- SSL calls return 0; the client's callbacks take these actions, one after
the other, and any other call gives any reply. -/
def shutDown (acts : Nat → ClientAct) (other : Nat → (o : Op) → o.Rep) :
    Env Op Op.Rep Moment where
  reply := fun s o =>
    match o with
    | .sslRead .. => IoRes.ret 0
    | .sslWrite .. => (0 : Int)
    | .client _ => acts s.2
    | o => other s.1 o
  next := fun s o =>
    match o with
    | .client _ => (s.1 + 1, s.2 + 1)
    | _ => (s.1 + 1, s.2)

/-- The client's callback returns another value than 0 from the `j`th action
on, and has not asked for anything to be sent before that. -/
def Relents (acts : Nat → ClientAct) (j : Nat) : Prop :=
  ∃ k, j ≤ k ∧ (∃ v, acts k = .ret v ∧ v ≠ 0) ∧
    ∀ i, j ≤ i → i < k → ∀ len, acts i = .sslTx len → len ≤ 0

/-- The body of the loop of `ssl_tx`. -/
def sslTxBody (fd c : Nat) (len ret : Int) : Prog (Int ⊕ Int) :=
  if ret < len then do
    let ssl ← fields c
    let r ← perform (.sslWrite ssl.ssl (len - ret))
    if r ≥ 0 then pure (.inl (ret + r))
    else
      let err ← sslGetError ssl.ssl r
      let out ← sslTxError fd err ret
      pure (.inr out)
  else pure (.inr ret)

/-- The loop of `ssl_tx` when `ret` bytes have been sent. -/
def sslTxFrom (fd c : Nat) (len ret : Int) (n : Nat) : Prog Int := loop n ret (sslTxBody fd c len)

theorem sslTx_eq (n fd c : Nat) (len : Int) : sslTx n fd c len = sslTxFrom fd c len 0 n := rfl

variable {acts : Nat → ClientAct} {other : Nat → (o : Op) → o.Rep} {fd c : Nat} {len ret : Int}
  {n m : Nat} {s : Moment}

/-! ## `ssl_tx` -/

theorem sslTxFrom_sent (h : len ≤ ret) :
    (sslTxFrom fd c len ret (n + 1)).runIn (shutDown acts other) s = some (ret, s) := by
  have hbody : sslTxBody fd c len ret = pure (.inr ret) := by
    rw [sslTxBody, if_neg (by omega)]
  rw [sslTxFrom, runIn_loop_succ, hbody]
  rfl

/-- A turn sends nothing. -/
theorem sslTxBody_turn (h : ret < len) :
    (sslTxBody fd c len ret).runIn (shutDown acts other) s = some (.inl ret, (s.1 + 2, s.2)) := by
  have hzero : (.inl ret : Int ⊕ Int) = .inl (ret + 0) := by rw [Int.add_zero]
  rw [sslTxBody, if_pos h, hzero]
  rfl

theorem sslTxFrom_none (h : ret < len) :
    (sslTxFrom fd c len ret n).runIn (shutDown acts other) s = none := by
  induction n generalizing s with
  | zero => rfl
  | succ n ih =>
    rw [sslTxFrom, runIn_loop_succ, sslTxBody_turn h]
    exact ih

theorem sslTxFrom_finishes_iff :
    Finishes (shutDown acts other) (sslTxFrom fd c len ret) s ↔ len ≤ ret := by
  constructor
  · rintro ⟨n, x, hx⟩
    by_contra hlt
    rw [sslTxFrom_none (by omega)] at hx
    cases hx
  · intro h
    exact ⟨1, _, sslTxFrom_sent h⟩

/-! ## The client's callbacks -/

theorem Relents.later {j : Nat} (h : Relents acts (j + 1))
    (hlen : ∀ len, acts j = .sslTx len → len ≤ 0) : Relents acts j := by
  obtain ⟨k, hk, hret, hsent⟩ := h
  refine ⟨k, by omega, hret, fun i hi hik len hact => ?_⟩
  rcases Nat.lt_or_eq_of_le hi with hlt | rfl
  · exact hsent i hlt hik len hact
  · exact hlen len hact

/-- What becomes of an action of the client. -/
def clientAct (n fd c : Nat) : ClientAct → Prog (Unit ⊕ Int)
  | .advance s => do
    perform (.rxbufferAdvance c s)
    pure (.inl ())
  | .sslTx len => do
    let _ ← sslTx n fd c len
    pure (.inl ())
  | .close => do
    close fd
    pure (.inl ())
  | .ret v => pure (.inr v)

/-- The body of the loop that the client runs in. -/
def clientBody (n : Nat) (kind : CbKind) (fd c : Nat) : Unit → Prog (Unit ⊕ Int) := fun _ => do
  clientAct n fd c (← perform (.client kind))

theorem callSsl_client (n : Nat) (kind : CbKind) (f : Option Nat) (fd c : Nat) :
    callSsl n kind f fd c = (do
      perform (.callback kind f fd)
      loop n () (clientBody n kind fd c)) := by
  unfold callSsl
  congr 1
  funext _
  congr 1
  funext _
  rw [clientBody]
  congr 1
  funext act
  cases act <;> rfl

variable (acts other fd c n s) in
/-- What the client's next action leads to. -/
theorem clientBody_runIn (kind : CbKind) :
    ∃ t, t.2 = s.2 + 1 ∧ (clientBody (n + 1) kind fd c ()).runIn (shutDown acts other) s =
      match acts s.2 with
      | .ret v => some (.inr v, t)
      | .sslTx len => if len ≤ 0 then some (.inl (), t) else none
      | _ => some (.inl (), t) := by
  have hclient : (clientBody (n + 1) kind fd c ()).runIn (shutDown acts other) s =
      (clientAct (n + 1) fd c (acts s.2)).runIn (shutDown acts other) (s.1 + 1, s.2 + 1) :=
    rfl
  rw [hclient]
  cases acts s.2 with
  | advance k => exact ⟨_, rfl, rfl⟩
  | close => exact ⟨_, rfl, rfl⟩
  | ret v => exact ⟨_, rfl, rfl⟩
  | sslTx len =>
    refine ⟨(s.1 + 1, s.2 + 1), rfl, ?_⟩
    rw [clientAct, Lib.runIn_do, sslTx_eq]
    dsimp only
    split
    · rename_i hlen
      rw [sslTxFrom_sent hlen]
      rfl
    · rename_i hlen
      rw [sslTxFrom_none (by omega)]
      rfl

/-- An action of a client that does not relent. -/
theorem clientBody_zero {kind : CbKind} {y : Unit ⊕ Int} {t : Moment} (hnot : ¬ Relents acts s.2)
    (h : (clientBody (n + 1) kind fd c ()).runIn (shutDown acts other) s = some (y, t)) :
    y.elim (fun _ => ¬ Relents acts t.2) (fun v => v = 0 ∧ ¬ Relents acts t.2) := by
  obtain ⟨u, hu, hbody⟩ := clientBody_runIn acts other fd c n s kind
  rw [hbody] at h
  have hlater : (∀ len, acts s.2 = .sslTx len → len ≤ 0) → ¬ Relents acts u.2 := by
    intro hlen hrelents
    rw [hu] at hrelents
    exact hnot (hrelents.later hlen)
  cases hact : acts s.2 with
  | advance k =>
    rw [hact] at h hlater
    cases h
    exact hlater fun len hlen => by cases hlen
  | close =>
    rw [hact] at h hlater
    cases h
    exact hlater fun len hlen => by cases hlen
  | sslTx len =>
    rw [hact] at h hlater
    dsimp only at h
    split at h
    · rename_i hle
      cases h
      refine hlater fun len' hlen => ?_
      cases hlen
      exact hle
    · cases h
  | ret v =>
    rw [hact] at h hlater
    cases h
    have hzero : v = 0 := by
      by_contra hne
      exact hnot ⟨s.2, Nat.le_refl _, ⟨v, hact, hne⟩, fun i hi hlt => absurd hi (by omega)⟩
    exact ⟨hzero, hlater fun len hlen => by cases hlen⟩

/-- A client that does not relent returns 0, if it returns. -/
theorem client_returns_zero {kind : CbKind} {x : Int × Moment} (hnot : ¬ Relents acts s.2)
    (h : (loop m () (clientBody (n + 1) kind fd c)).runIn (shutDown acts other) s = some x) :
    x.1 = 0 ∧ ¬ Relents acts x.2.2 :=
  Lib.runIn_loop_spec (fun _ t => ¬ Relents acts t.2)
    (fun _ _ _ _ ht hturn => clientBody_zero ht hturn) hnot h

variable (other fd c n) in
/-- One that relents at its `k`th action returns by then. -/
theorem client_returns (kind : CbKind) {k : Nat} {v : Int} (hact : acts k = .ret v) (hv : v ≠ 0)
    (hsent : ∀ i, s.2 ≤ i → i < k → ∀ len, acts i = .sslTx len → len ≤ 0) (hle : s.2 ≤ k)
    (hm : k - s.2 < m) :
    ∃ x, (loop m () (clientBody (n + 1) kind fd c)).runIn (shutDown acts other) s = some x ∧
      (x.1 = 0 → s.2 < x.2.2 ∧ x.2.2 ≤ k) := by
  induction m generalizing s with
  | zero => omega
  | succ m ih =>
    obtain ⟨t, ht, hbody⟩ := clientBody_runIn acts other fd c n s kind
    rw [runIn_loop_succ, hbody]
    by_cases heq : s.2 = k
    · rw [heq, hact]
      exact ⟨_, rfl, fun hzero => absurd hzero hv⟩
    · have hlater : ∃ x, (loop m () (clientBody (n + 1) kind fd c)).runIn (shutDown acts other) t =
          some x ∧ (x.1 = 0 → s.2 < x.2.2 ∧ x.2.2 ≤ k) := by
        obtain ⟨x, hx, hbounds⟩ := ih (s := t) (fun i hi hik => hsent i (by omega) hik) (by omega)
          (by omega)
        refine ⟨x, hx, fun hzero => ?_⟩
        have hb := hbounds hzero
        omega
      cases hnow : acts s.2 with
      | advance k => exact hlater
      | close => exact hlater
      | sslTx len =>
        dsimp only
        rw [if_pos (hsent s.2 (Nat.le_refl _) (by omega) len hnow)]
        exact hlater
      | ret w => exact ⟨_, rfl, fun _ => by dsimp only; omega⟩

/-! ## `ssl_rxfxn` -/

/-- The body of the loop of `ssl_rxfxn` and `ssl_txrxfxn`. -/
def readBody (more : Int → Bool) (n fd c : Nat) : Unit → Prog (Unit ⊕ Option Int) := fun _ => do
  let sc ← fields c
  let r ← rxbufferSsl c sc.ssl
  if more r then
    let sc ← fields c
    let cb ← callSsl n .sslRx sc.rxfxn fd c
    if cb ≠ 0 then pure (.inr none) else pure (.inl ())
  else pure (.inr (some r))

theorem sslReadLoop_eq (more : Int → Bool) (n fd c : Nat) :
    sslReadLoop more n fd c = loop n () (readBody more n fd c) :=
  rfl

variable (acts other fd c n s) in
/-- A turn of the loop: the callback is called. -/
theorem readBody_runIn {more : Int → Bool} (hmore : more 0 = true) :
    ∃ t, t.2 = s.2 ∧ (readBody more n fd c ()).runIn (shutDown acts other) s =
      ((loop n () (clientBody n .sslRx fd c)).runIn (shutDown acts other) t).bind fun x =>
        some (if x.1 ≠ 0 then .inr none else .inl (), x.2) := by
  have hread : (readBody more n fd c ()).runIn (shutDown acts other) s =
      (if more 0 then do
        let sc ← fields c
        let cb ← callSsl n .sslRx sc.rxfxn fd c
        if cb ≠ 0 then pure (.inr none) else pure (.inl ())
      else pure (.inr (some 0)) : Prog (Unit ⊕ Option Int)).runIn (shutDown acts other)
        (s.1 + 3, s.2) :=
    rfl
  refine ⟨(s.1 + 5, s.2), rfl, ?_⟩
  rw [hread, if_pos hmore, Lib.runIn_do, Lib.runIn_perform, Option.bind_some, Lib.runIn_do,
    callSsl_client, Lib.runIn_do, Lib.runIn_perform, Option.bind_some]
  congr 1
  funext x
  split <;> rfl

theorem readLoop_none {more : Int → Bool} (hmore : more 0 = true) (hnot : ¬ Relents acts s.2) :
    (loop m () (readBody more n fd c)).runIn (shutDown acts other) s = none := by
  induction m generalizing s with
  | zero => rfl
  | succ m ih =>
    obtain ⟨t, ht, hbody⟩ := readBody_runIn acts other fd c n s hmore
    rw [runIn_loop_succ, hbody]
    cases hclient : (loop n () (clientBody n .sslRx fd c)).runIn (shutDown acts other) t with
    | none => rfl
    | some x =>
      cases n with
      | zero => cases hclient
      | succ n =>
        rw [← ht] at hnot
        obtain ⟨hzero, hlater⟩ := client_returns_zero hnot hclient
        rw [Option.bind_some, Option.bind_some, if_neg (not_not.mpr hzero)]
        exact ih hlater

variable (other fd c) in
theorem readLoop_ends (more : Int → Bool) (hmore : more 0 = true) {k : Nat} {v : Int}
    (hact : acts k = .ret v) (hv : v ≠ 0)
    (hsent : ∀ i, s.2 ≤ i → i < k → ∀ len, acts i = .sslTx len → len ≤ 0) (hle : s.2 ≤ k)
    (hm : k - s.2 < m) (hn : k - s.2 < n) :
    ∃ t, (loop m () (readBody more n fd c)).runIn (shutDown acts other) s = some (none, t) := by
  induction m generalizing s with
  | zero => omega
  | succ m ih =>
    obtain ⟨n, rfl⟩ : ∃ i, n = i + 1 := ⟨n - 1, by omega⟩
    obtain ⟨t, ht, hbody⟩ := readBody_runIn acts other fd c (n + 1) s hmore
    rw [← ht] at hsent hle hm hn
    obtain ⟨x, hclient, hbounds⟩ := client_returns other fd c n .sslRx hact hv hsent hle hn
    rw [runIn_loop_succ, hbody, hclient, Option.bind_some, Option.bind_some]
    by_cases hzero : x.1 = 0
    · obtain ⟨hlt, hle'⟩ := hbounds hzero
      rw [if_neg (not_not.mpr hzero)]
      exact ih (fun i hi hik => hsent i (by dsimp only at hi; omega) hik) hle' (by dsimp only; omega)
        (by dsimp only; omega)
    · rw [if_pos hzero]
      exact ⟨x.2, rfl⟩

theorem uncut_freeAndClose : (freeAndClose c fd).Uncut := fun _ _ _ _ _ _ => trivial

/-- The end of the handlers, when `restorefd` has failed or not. -/
theorem uncut_restorefd (eflags : Events) :
    (do
      let r ← restorefd fd eflags
      if r ≠ 0 then freeAndClose c fd else pure ()).Uncut := by
  refine Lib.uncut_do ?_ fun r => ?_
  · intro ok
    cases ok <;> trivial
  · split
    · exact uncut_freeAndClose
    · trivial

theorem sslRxfxn_finishes_iff :
    Finishes (shutDown acts other) (fun n => sslRxfxn n fd c) s ↔ Relents acts s.2 := by
  constructor
  · rintro ⟨n, x, hx⟩
    by_contra hnot
    dsimp only at hx
    rw [sslRxfxn, Lib.runIn_do, sslReadLoop_eq, readLoop_none rfl hnot] at hx
    cases hx
  · rintro ⟨k, hle, ⟨v, hact, hv⟩, hsent⟩
    obtain ⟨t, ht⟩ := readLoop_ends other fd c (fun r => r ≥ 0) rfl hact hv hsent hle
      (Nat.lt_succ_self (k - s.2)) (Nat.lt_succ_self (k - s.2))
    have huncut : (freeAndClose c fd).Uncut := uncut_freeAndClose
    obtain ⟨x, hx⟩ := Lib.runIn_of_uncut huncut (shutDown acts other) t
    refine ⟨k - s.2 + 1, x, ?_⟩
    dsimp only
    rw [sslRxfxn, Lib.runIn_do, sslReadLoop_eq, ht, Option.bind_some]
    exact hx

/-- `ssl_txrxfxn` leaves its loop when nothing is read, whatever the client
would do. -/
theorem sslTxrxfxn_finishes : Finishes (shutDown acts other) (fun n => sslTxrxfxn n fd c) s := by
  have hread : (sslReadLoop (fun r => r > 0) 1 fd c).runIn (shutDown acts other) s =
      some (some 0, (s.1 + 3, s.2)) :=
    rfl
  refine ⟨1, ?_⟩
  dsimp only
  rw [sslTxrxfxn, Lib.runIn_do, hread, Option.bind_some]
  refine Lib.runIn_of_uncut ?_ (shutDown acts other) (s.1 + 3, s.2)
  intro sc err
  cases err with
  | wantRead => exact fun _ _ => uncut_restorefd EVREAD
  | wantWrite => exact uncut_restorefd (EVREAD ||| EVWRITE)
  | other => exact uncut_freeAndClose

/-! ## What `SSL_write` accepts -/

/-- The body of the loop of `ssl_tx`, with the bytes that `SSL_write` has
accepted. -/
def sslTxBufBody (fd c : Nat) (buf : List UInt8) (len : Int) (x : Int × List UInt8) :
    Prog ((Int × List UInt8) ⊕ (Int × List UInt8)) :=
  let (ret, accepted) := x
  if ret < len then do
    let ssl ← fields c
    -- `SSL_write(ssl->ssl, (const char *)buf + ret, len - ret)`
    let slice := (buf.drop ret.toNat).take (len - ret).toNat
    let r ← perform (.sslWrite ssl.ssl (len - ret))
    if r ≥ 0 then pure (.inl (ret + r, accepted ++ slice.take r.toNat))
    else
      let err ← sslGetError ssl.ssl r
      let out ← sslTxError fd err ret
      pure (.inr (out, accepted))
  else pure (.inr (ret, accepted))

/-- `ssl_tx`, with the bytes that it is to send. -/
def sslTxBuf (n fd c : Nat) (buf : List UInt8) (len : Int) : Prog (Int × List UInt8) :=
  loop n (0, []) (sslTxBufBody fd c buf len)

/-- Apart from the bytes, this is `ssl_tx`. -/
theorem sslTxBuf_eq (n fd c : Nat) (buf : List UInt8) (len : Int) :
    (do
      let x ← sslTxBuf n fd c buf len
      pure x.1) = sslTx n fd c len := by
  have hbody : ∀ x, (sslTxBufBody fd c buf len x).bind (fun r => pure (r.map Prod.fst Prod.fst)) =
      sslTxBody fd c len x.1 := by
    intro x
    obtain ⟨ret, accepted⟩ := x
    unfold sslTxBufBody sslTxBody
    dsimp only
    split
    · refine congrArg (Lib.Prog.call _) (funext fun ssl => ?_)
      refine congrArg (Lib.Prog.call _) (funext fun r => ?_)
      by_cases hr : r ≥ 0
      · simp only [Lib.Prog.bind, if_pos hr]
        rfl
      · simp only [Lib.Prog.bind, if_neg hr]
        refine congrArg (Lib.Prog.call _) (funext fun err => ?_)
        exact Lib.Prog.bind_assoc (sslTxError fd err ret) _ _
    · rfl
  exact Lib.loop_map Prod.fst Prod.fst hbody n (0, [])

variable {σ : Type} {env : Env Op Op.Rep σ} {u v : σ} {k : Int} {buf accepted : List UInt8}

/-- An error is -1, or the bytes sent so far. -/
theorem sslTxError_result {err : SslErr} {out : Int}
    (h : (sslTxError fd err ret).runIn env u = some (out, v)) : out = ret ∨ out = -1 := by
  have hrestore : ∀ (e : Events) (u : σ), (do
      let r ← restorefd fd e
      if r ≠ 0 then pure (-1) else pure ret : Prog Int).runIn env u = some (out, v) →
        out = ret ∨ out = -1 := by
    intro e u h
    rw [Lib.runIn_do] at h
    obtain ⟨x, -, h⟩ := Option.bind_eq_some_iff.mp h
    split at h
    · cases h
      exact .inr rfl
    · cases h
      exact .inl rfl
  cases err with
  | wantRead => exact hrestore _ _ h
  | wantWrite => exact hrestore _ _ h
  | other =>
    cases h
    exact .inr rfl

/-- A turn appends what it has sent. -/
theorem sslTxBufBody_runIn {x : Int × List UInt8} {y : (Int × List UInt8) ⊕ (Int × List UInt8)}
    (hwrite : ∀ s ssl m, 0 < m → env.reply s (.sslWrite ssl m) ≤ m)
    (hx : 0 ≤ x.1 ∧ x.2 = buf.take x.1.toNat)
    (h : (sslTxBufBody fd c buf len x).runIn env u = some (y, v)) :
    y.elim (fun x => 0 ≤ x.1 ∧ x.2 = buf.take x.1.toNat)
      (fun x => 0 ≤ x.1 → x.2 = buf.take x.1.toNat) := by
  obtain ⟨ret, accepted⟩ := x
  dsimp only at hx
  obtain ⟨hret, rfl⟩ := hx
  unfold sslTxBufBody at h
  dsimp only at h
  split at h
  · rename_i hlt
    rw [Lib.runIn_do, Lib.runIn_perform, Option.bind_some, Lib.runIn_do, Lib.runIn_perform,
      Option.bind_some] at h
    dsimp only at h
    generalize hu : env.next u (.fields c) = w at h
    generalize hssl : (env.reply u (.fields c)).ssl = ssl at h
    have hle := hwrite w ssl (len - ret) (by omega)
    generalize env.reply w (.sslWrite ssl (len - ret)) = r at h hle
    replace hle : len - ret ≥ r := hle
    split at h
    · rename_i hr
      replace hr : (0 : Int) ≤ r := hr
      cases h
      refine ⟨by dsimp only; omega, ?_⟩
      -- the bytes accepted are those that follow the first `ret`
      have hsum : (ret + r).toNat = ret.toNat + r.toNat := by omega
      have hslice : r.toNat ≤ (len - ret).toNat := by omega
      dsimp only [Sum.elim_inl]
      rw [hsum, List.take_add, List.take_take, Nat.min_eq_left hslice]
    · rw [Lib.runIn_do] at h
      obtain ⟨⟨err, w'⟩, -, h⟩ := Option.bind_eq_some_iff.mp h
      rw [Lib.runIn_do] at h
      obtain ⟨⟨out, w''⟩, hout, h⟩ := Option.bind_eq_some_iff.mp h
      cases h
      intro hk
      dsimp only at hk ⊢
      rcases sslTxError_result hout with rfl | rfl
      · rfl
      · omega
  · cases h
    exact fun _ => rfl

theorem sslTxBuf_accepted (hwrite : ∀ s ssl m, 0 < m → env.reply s (.sslWrite ssl m) ≤ m)
    (h : (sslTxBuf n fd c buf len).runIn env u = some ((k, accepted), v)) (hk : 0 ≤ k) :
    accepted = buf.take k.toNat :=
  Lib.runIn_loop_spec (fun x _ => 0 ≤ x.1 ∧ x.2 = buf.take x.1.toNat)
    (fun _ _ _ _ hx hturn => sslTxBufBody_runIn hwrite hx hturn) ⟨Int.le_refl 0, rfl⟩ h hk

/-- **SSL calls that return 0.** From the point where they all do, `ssl_rxfxn`
finishes exactly when the client's callback comes to return another value than
0, having sent nothing before that, and `ssl_tx` exactly when nothing is left
to be sent. What `SSL_write` has accepted in a call of `ssl_tx` is as much of
the buffer as it returns. -/
theorem ssl_finishes_iff (acts : Nat → ClientAct) (other : Nat → (o : Op) → o.Rep) (fd c : Nat)
    (len ret : Int) (s : Moment) (env : Env Op Op.Rep σ)
    (hwrite : ∀ s ssl m, 0 < m → env.reply s (.sslWrite ssl m) ≤ m) :
    (Finishes (shutDown acts other) (fun n => sslRxfxn n fd c) s ↔ Relents acts s.2) ∧
    (Finishes (shutDown acts other) (sslTxFrom fd c len ret) s ↔ len ≤ ret) ∧
    ∀ n buf u v k accepted,
      (sslTxBuf n fd c buf len).runIn env u = some ((k, accepted), v) → 0 ≤ k →
        accepted = buf.take k.toNat :=
  ⟨sslRxfxn_finishes_iff, sslTxFrom_finishes_iff,
    fun _ _ _ _ _ _ h hk => sslTxBuf_accepted hwrite h hk⟩

/-- What any call replies. -/
def anything : Nat → (o : Op) → o.Rep :=
  fun _ => Loads.reply ⟨fun _ => {}, fun _ => {}, fun _ => {}, 0⟩ none

/-- `SSL_write` accepts a byte at a time. -/
def byteAtATime : Env Op Op.Rep Unit where
  reply := fun _ o =>
    match o with
    | .sslWrite .. => (1 : Int)
    | o => anything 0 o
  next := fun _ _ => ()

/-- A callback that gives up at once, and three bytes. -/
theorem ssl_finishes_giving_up :
    (Finishes (shutDown (fun _ => .ret 1) anything) (fun n => sslRxfxn n 7 0) (0, 0) ↔
      Relents (fun _ => .ret 1) 0) ∧
    (Finishes (shutDown (fun _ => .ret 1) anything) (sslTxFrom 7 0 3 3) (0, 0) ↔ (3 : Int) ≤ 3) ∧
    ∀ n buf u v k accepted,
      (sslTxBuf n 7 0 buf 3).runIn byteAtATime u = some ((k, accepted), v) → 0 ≤ k →
        accepted = buf.take k.toNat :=
  ssl_finishes_iff (fun _ => .ret 1) anything 7 0 3 3 (0, 0) byteAtATime fun _ _ _ h => h

/-- A callback that keeps returning 0, and a byte that is to be sent. -/
theorem ssl_never_finishes :
    ¬ Finishes (shutDown (fun _ => .ret 0) anything) (fun n => sslRxfxn n 7 0) (0, 0) ∧
      ¬ Finishes (shutDown (fun _ => .ret 0) anything) (fun n => sslTx n 7 0 1) (0, 0) := by
  constructor
  · rw [sslRxfxn_finishes_iff]
    rintro ⟨k, -, ⟨v, hv, hne⟩, -⟩
    cases hv
    exact hne rfl
  · refine Lib.not_finishes fun n => ?_
    rw [sslTx_eq]
    exact sslTxFrom_none (by decide)

end Libtorque
