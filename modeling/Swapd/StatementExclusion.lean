import Swapd.SwapStatements

/-!
# Payments and refunds exclude each other, statement by statement

Each of the four transactions takes the row lock of its swap before it looks at the
locks of that swap, and writes to no locks of another (`RowWrite.Concerns`). So what a
transaction has counted is still so when it commits, although the count is of an older
snapshot than the commit. What a transaction has locked, and the writes it has made so
far, is its assertion (`Owning`); at its end, its writes have been shown to keep the
locks of its swap exclusive, from whatever tables with those locks (`Keeps`).
-/

namespace Swapd

namespace Sql

/-! ## What is kept -/

/-- A lock for a payment. -/
def Stored.isPayment (l : Stored LockRow) : Bool := l.row.lock.lock.isPayment

/-- The locks of a swap. -/
def locksOf (hash : PaymentHash) (t : StoredTables) : List (Stored LockRow) :=
  t.swapLocks.filter (fun l => l.row.lock.swapPaymentHash = hash)

/-- **The locks of a swap exclude each other**: there is no payment lock, or it is the
only lock. -/
def Exclusive (ls : List (Stored LockRow)) : Prop :=
  (∀ l ∈ ls, l.isPayment = false) ∨ ∃ l, ls = [l] ∧ l.isPayment = true

/-- A transaction has left no row. -/
structure NoRows (i : ℕ) (t : StoredTables) : Prop where
  locks : ∀ l ∈ t.swapLocks, l.xmin ≠ i
  attempts : ∀ r ∈ t.paymentAttempts, r.xmin ≠ i
  outputs : ∀ r ∈ t.paymentAttemptTxOutputs, r.xmin ≠ i

/-- The row of an attempt, with a result or without. -/
def IsAttemptRow (a : PaymentAttempt) (ns id : ℕ) (row : PaymentAttemptRow) : Prop :=
  ∃ success error, row = ⟨id, a.paymentHash, a.label, ns / 1000000000, a.amountMsat,
    a.paymentRequest, a.destination, success, error⟩

/-- **A payment lock comes with its attempt**: the transaction that wrote it is the
call that adds the attempt, whose row and outputs are there too. -/
def Recorded (calls : List LockCall) (t : StoredTables) (l : Stored LockRow) : Prop :=
  ∃ a ns id, calls[l.xmin]? = some (.lockAddPaymentAttempt a)
    ∧ l.row.lock = ⟨a.paymentHash, .payment a.label⟩
    ∧ SystemTime.sinceEpoch a.creationTime = some ns
    ∧ (∃ r ∈ t.paymentAttempts, IsAttemptRow a ns id r.row)
    ∧ (a.outputs.map (fun o => (⟨l.xmin, ⟨id, o⟩⟩ : Stored PaymentAttemptTxOutputRow))).Sublist
      t.paymentAttemptTxOutputs

/-! ### Writes -/

/-- **A write of one transaction**, that concerns the locks of one swap only. -/
def RowWrite.Concerns (i : ℕ) (hash : PaymentHash) : RowWrite → Prop
  | .insertLock l => l.xmin = i ∧ l.row.lock.swapPaymentHash = hash
  | .deleteLocks rows => ∀ l ∈ rows, l.row.lock.swapPaymentHash = hash
  | .insertAttempt r => r.xmin = i
  | .insertOutputs rows => ∀ r ∈ rows, r.xmin = i
  | .setPreimage _ _ => True
  | .setResult xmin _ _ _ => xmin = i

variable {i j : ℕ} {hash k : PaymentHash} {w : RowWrite} {t : StoredTables}
  {calls : List LockCall} {l : Stored LockRow}

/-- A write leaves the locks of other swaps alone. -/
theorem RowWrite.Concerns.locksOf_of_ne (h : w.Concerns i hash) (hne : k ≠ hash)
    (t : StoredTables) : locksOf k (w.apply t) = locksOf k t := by
  cases w with
  | insertLock l =>
    have hother : ¬l.row.lock.swapPaymentHash = k := h.2 ▸ hne.symm
    simp [locksOf, RowWrite.apply, List.filter_append, hother]
  | deleteLocks rows =>
    simp only [locksOf, RowWrite.apply, List.filter_filter]
    refine List.filter_congr (fun l _ => ?_)
    have hkeep : l.row.lock.swapPaymentHash = k → l ∉ rows := by
      rintro rfl hmem
      exact hne (h l hmem)
    by_cases hk : l.row.lock.swapPaymentHash = k
    · simp [hk, hkeep hk]
    · simp [hk]
  | _ => rfl

/-- A write leaves a row of its own transaction only. -/
theorem NoRows.apply (hrows : NoRows j t) (h : w.Concerns i hash) (hne : j ≠ i) :
    NoRows j (w.apply t) := by
  cases w with
  | insertLock l =>
    refine ⟨fun l' hl' => ?_, hrows.attempts, hrows.outputs⟩
    rcases List.mem_append.mp hl' with hl' | hl'
    · exact hrows.locks l' hl'
    · rw [List.mem_singleton.mp hl', h.1]
      exact hne.symm
  | deleteLocks rows =>
    exact ⟨fun l' hl' => hrows.locks l' (List.mem_filter.mp hl').1, hrows.attempts, hrows.outputs⟩
  | insertAttempt r =>
    refine ⟨hrows.locks, fun r' hr' => ?_, hrows.outputs⟩
    rcases List.mem_append.mp hr' with hr' | hr'
    · exact hrows.attempts r' hr'
    · rw [List.mem_singleton.mp hr', show r.xmin = i from h]
      exact hne.symm
  | insertOutputs rows =>
    refine ⟨hrows.locks, hrows.attempts, fun r' hr' => ?_⟩
    rcases List.mem_append.mp hr' with hr' | hr'
    · exact hrows.outputs r' hr'
    · rw [h r' hr']
      exact hne.symm
  | setPreimage hash preimage => exact ⟨hrows.locks, hrows.attempts, hrows.outputs⟩
  | setResult xmin ids success error =>
    refine ⟨hrows.locks, fun r' hr' => ?_, hrows.outputs⟩
    obtain ⟨r, hr, rfl⟩ := List.mem_map.mp hr'
    split
    · exact fun hj => hne (hj.symm.trans h)
    · exact hrows.attempts r hr

/-- **What is recorded stays recorded.** -/
theorem Recorded.apply (h : Recorded calls t l) (w : RowWrite) :
    Recorded calls (w.apply t) l := by
  obtain ⟨a, ns, id, hcall, hlock, hns, ⟨r, hr, hrow⟩, hout⟩ := h
  refine ⟨a, ns, id, hcall, hlock, hns, ?_, ?_⟩
  · cases w with
    | insertAttempt r' => exact ⟨r, List.mem_append_left _ hr, hrow⟩
    | setResult xmin ids success error =>
      refine ⟨_, List.mem_map_of_mem hr, ?_⟩
      obtain ⟨success', error', hrow⟩ := hrow
      split
      · exact ⟨some success, error.or error', by rw [hrow]; rfl⟩
      · exact ⟨success', error', hrow⟩
    | _ => exact ⟨r, hr, hrow⟩
  · cases w with
    | insertOutputs rows => exact hout.trans (List.sublist_append_left _ rows)
    | _ => exact hout

/-- A call that has been made has been made. -/
theorem called_of_prefix {calls' : List LockCall} {call : LockCall} (hcalls : calls <+: calls')
    (h : calls[i]? = some call) : calls'[i]? = some call := by
  obtain ⟨new, rfl⟩ := hcalls
  rw [List.getElem?_append_left (List.getElem?_eq_some_iff.mp h).1, h]

theorem Recorded.mono {calls' : List LockCall} (h : Recorded calls t l)
    (hcalls : calls <+: calls') : Recorded calls' t l := by
  obtain ⟨a, ns, id, hcall, hrest⟩ := h
  exact ⟨a, ns, id, called_of_prefix hcalls hcall, hrest⟩

/-! ### Writes, together -/

variable {ws : List RowWrite}

/-- The effect of the writes of a transaction. -/
abbrev applyAll (ws : List RowWrite) (t : StoredTables) : StoredTables :=
  Database.applyAll RowWrite.apply ws t

theorem locksOf_applyAll_of_ne (h : ∀ w ∈ ws, w.Concerns i hash) (hne : k ≠ hash)
    (t : StoredTables) : locksOf k (applyAll ws t) = locksOf k t :=
  Database.part_applyAll (fun w hw => (h w hw).locksOf_of_ne hne) t

theorem NoRows.applyAll (hrows : NoRows j t) (h : ∀ w ∈ ws, w.Concerns i hash) (hne : j ≠ i) :
    NoRows j (applyAll ws t) := by
  induction ws generalizing t with
  | nil => exact hrows
  | cons w ws ih =>
    rw [List.forall_mem_cons] at h
    exact ih (hrows.apply h.1 hne) h.2

theorem Recorded.applyAll (h : Recorded calls t l) (ws : List RowWrite) :
    Recorded calls (applyAll ws t) l := by
  induction ws generalizing t with
  | nil => exact h
  | cons w ws ih => exact ih (h.apply w)

/-- Locks of which some are deleted still exclude each other. -/
theorem Exclusive.filter {ls : List (Stored LockRow)} (h : Exclusive ls)
    (p : Stored LockRow → Bool) : Exclusive (ls.filter p) := by
  rcases h with hnone | ⟨l, rfl, hl⟩
  · exact Or.inl (fun l hl => hnone l (List.mem_filter.mp hl).1)
  · cases hp : p l with
    | true => exact Or.inr ⟨l, by rw [List.filter_singleton, hp]; rfl, hl⟩
    | false =>
      left
      rw [List.filter_singleton, hp]
      exact fun l' hl' => nomatch hl'

/-! ## The discipline -/

/-- **What always holds.** -/
structure Inv (s : State LockCall) : Prop where
  locked : s.db.Protected RowWrite.apply locksOf
  exclusive : ∀ hash, Exclusive (locksOf hash s.db.committed)
  recorded : ∀ l ∈ s.db.committed.swapLocks, l.isPayment = true →
    Recorded s.calls s.db.committed l
  fresh : ∀ i, s.calls.length ≤ i →
    s.db.pending i = [] ∧ i ∉ s.db.ended ∧ NoRows i s.db.committed

/-- **What a transaction may rely on.** -/
structure Relied (i : ℕ) (s s' : State LockCall) : Prop where
  db : s.db.Relies locksOf i s'.db
  noRows : NoRows i s.db.committed → NoRows i s'.db.committed
  calls : s.calls <+: s'.calls

/-- **How the database evolves**: a transaction that is over leaves no more rows. -/
structure Later (s s' : State LockCall) : Prop where
  ended : ∀ j ∈ s.db.ended, j ∈ s'.db.ended
  noRows : ∀ j ∈ s.db.ended, NoRows j s.db.committed → NoRows j s'.db.committed
  calls : s.calls <+: s'.calls

/-- What a statement may do: others may rely on what they have. -/
structure Guaranteed (i : ℕ) (s s' : State LockCall) : Prop where
  others : ∀ j, j ≠ i → Relied j s s'
  later : Later s s'

/-- **The discipline of the transactions**: a call that has failed has left no row. -/
abbrev discipline : Discipline machine where
  permits _ _ _ _ := True
  inv := Inv
  rely i _ s s' := Relied i s s'
  guar i _ _ s s' := Guaranteed i s s'
  later := Later
  post i _ result s := ∀ e, result = Except.error e → NoRows i s.db.committed

theorem Relied.refl (i : ℕ) (s : State LockCall) : Relied i s s :=
  ⟨.refl s.db, id, List.prefix_rfl⟩

theorem Relied.trans {s s' s'' : State LockCall} (h : Relied i s s') (h' : Relied i s' s'') :
    Relied i s s'' :=
  ⟨h.db.trans h'.db, h'.noRows ∘ h.noRows, h.calls.trans h'.calls⟩

theorem Later.refl (s : State LockCall) : Later s s :=
  ⟨fun _ h => h, fun _ _ h => h, List.prefix_rfl⟩

theorem Later.trans {s s' s'' : State LockCall} (h : Later s s') (h' : Later s' s'') :
    Later s s'' :=
  ⟨fun j hj => h'.ended j (h.ended j hj), fun j hj => h'.noRows j (h.ended j hj) ∘ h.noRows j hj,
    h.calls.trans h'.calls⟩

theorem Guaranteed.refl (i : ℕ) (s : State LockCall) : Guaranteed i s s :=
  ⟨fun j _ => .refl j s, .refl s⟩

theorem discipline_stable : discipline.Stable where
  rely_refl i _ s := Relied.refl i s
  rely_trans h h' := Relied.trans h h'

/-! ## The assertions of a transaction -/

variable {call : LockCall} {ls : List (Stored LockRow)} {s s' : State LockCall}

/-- **A transaction runs**, and has made these writes. -/
structure Running (i : ℕ) (call : LockCall) (ws : List RowWrite) (s : State LockCall) : Prop where
  unfinished : i ∉ s.db.ended
  pending : s.db.pending i = ws
  called : s.calls[i]? = some call
  noRows : NoRows i s.db.committed

/-- **A transaction has locked a swap**, found these locks on it, and has made these
writes. -/
structure Owning (i : ℕ) (call : LockCall) (hash : PaymentHash) (ls : List (Stored LockRow))
    (ws : List RowWrite) (s : State LockCall) : Prop extends Running i call ws s where
  held : s.db.holder hash = some i
  found : locksOf hash s.db.committed = ls
  concerns : ∀ w ∈ ws, w.Concerns i hash

/-- **Writes that keep the locks of a swap exclusive**, and come with what they
record. -/
def Keeps (i : ℕ) (call : LockCall) (hash : PaymentHash) (ls : List (Stored LockRow))
    (ws : List RowWrite) : Prop :=
  ∀ t, locksOf hash t = ls → Exclusive ls → Exclusive (locksOf hash (applyAll ws t))
    ∧ ∀ l ∈ locksOf hash (applyAll ws t), l.isPayment = true →
      l ∈ ls ∨ ∀ calls, calls[i]? = some call → Recorded calls (applyAll ws t) l

/-- A transaction that may commit. -/
def Ready (i : ℕ) (call : LockCall) (s : State LockCall) : Prop :=
  ∃ hash ls ws, Owning i call hash ls ws s ∧ Keeps i call hash ls ws

theorem Running.of_relied (h : Running i call ws s) (hr : Relied i s s') :
    Running i call ws s' where
  unfinished := mt hr.db.ended.mp h.unfinished
  pending := (hr.db.pending h.unfinished).trans h.pending
  called := called_of_prefix hr.calls h.called
  noRows := hr.noRows h.noRows

theorem Owning.of_relied (h : Owning i call hash ls ws s) (hr : Relied i s s') :
    Owning i call hash ls ws s' := by
  obtain ⟨hheld, hpart⟩ := hr.db.held h.unfinished hash h.held
  exact ⟨h.toRunning.of_relied hr, hheld, hpart.trans h.found, h.concerns⟩

theorem Ready.of_relied (h : Ready i call s) (hr : Relied i s s') : Ready i call s' := by
  obtain ⟨hash, ls, ws, hown, hkeeps⟩ := h
  exact ⟨hash, ls, ws, hown.of_relied hr, hkeeps⟩

/-- A running transaction is one of those called. -/
theorem Running.lt (h : Running i call ws s) : i < s.calls.length :=
  (List.getElem?_eq_some_iff.mp h.called).1

/-- What a transaction sees, while it has not written anything. -/
theorem Running.visible_eq (h : Running i call [] s) :
    s.db.visible RowWrite.apply i = s.db.committed := by
  rw [Database.visible, h.pending]
  rfl

/-! ## What a statement does -/

/-- **A row lock.** -/
theorem Running.acquire {db : Database StoredTables RowWrite PaymentHash}
    (h : Running i call [] s) (hinv : Inv s) (hdb : s.db.acquire i hash = some db) :
    Inv { s with db := db } ∧ Guaranteed i s { s with db := db } ∧
      Owning i call hash (locksOf hash s.db.committed) [] { s with db := db } := by
  obtain ⟨hcommitted, hpending, hended, hheld, -⟩ := Database.acquire_eq_some hdb
  have hrelies (j : ℕ) : s.db.Relies locksOf j db := Database.relies_acquire hdb
  refine ⟨⟨hinv.locked.acquire hdb, ?_, ?_, ?_⟩, ⟨fun j _ => ⟨hrelies j, ?_, List.prefix_rfl⟩, ?_⟩,
    ⟨⟨?_, ?_, h.called, ?_⟩, hheld, ?_, fun w hw => nomatch hw⟩⟩
  · exact fun hash' => hcommitted ▸ hinv.exclusive hash'
  · exact hcommitted ▸ hinv.recorded
  · exact fun j hj => hpending ▸ hended ▸ hcommitted ▸ hinv.fresh j hj
  · exact fun hnone => hcommitted ▸ hnone
  · exact ⟨fun j hj => hended ▸ hj, fun j _ hnone => hcommitted ▸ hnone, List.prefix_rfl⟩
  · exact hended ▸ h.unfinished
  · exact hpending ▸ h.pending
  · exact hcommitted ▸ h.noRows
  · exact congrArg (locksOf hash) hcommitted

/-- **A write.** -/
theorem Owning.write (h : Owning i call hash ls ws s) (hinv : Inv s) (hw : w.Concerns i hash)
    (hdb : s'.db = s.db.write i [w]) (hcalls : s'.calls = s.calls) :
    Inv s' ∧ Guaranteed i s s' ∧ Owning i call hash ls (ws ++ [w]) s' := by
  have hcommitted : s'.db.committed = s.db.committed := by rw [hdb]; rfl
  have hended : s'.db.ended = s.db.ended := by rw [hdb]; rfl
  have hholder : s'.db.holder = s.db.holder := by rw [hdb]; rfl
  have hprefix : s.calls <+: s'.calls := hcalls ▸ List.prefix_rfl
  have hlocked : s'.db.Protected RowWrite.apply locksOf := by
    rw [hdb]
    refine hinv.locked.write (fun k hk w' hw' => ?_)
    obtain rfl := List.mem_singleton.mp hw'
    refine hw.locksOf_of_ne ?_
    rintro rfl
    exact hk h.held
  have hrelied (j : ℕ) (hne : j ≠ i) : Relied j s s' :=
    ⟨hdb ▸ Database.relies_write hne, fun hnone => hcommitted ▸ hnone, hprefix⟩
  refine ⟨⟨hlocked, ?_, ?_, fun j hj => ?_⟩, ⟨hrelied, ?_⟩, ⟨⟨?_, ?_, ?_, ?_⟩, ?_, ?_, ?_⟩⟩
  · exact fun hash' => hcommitted ▸ hinv.exclusive hash'
  · exact hcommitted ▸ hcalls ▸ hinv.recorded
  · rw [hcalls] at hj
    have hne : j ≠ i := fun heq => absurd h.lt (Nat.not_lt.mpr (heq ▸ hj))
    obtain ⟨hpending, hopen, hnone⟩ := hinv.fresh j hj
    refine ⟨?_, hended ▸ hopen, hcommitted ▸ hnone⟩
    rw [(hrelied j hne).db.pending hopen, hpending]
  · exact ⟨fun j hj => hended ▸ hj, fun j _ hnone => hcommitted ▸ hnone, hprefix⟩
  · exact hended ▸ h.unfinished
  · rw [hdb, ← h.pending]
    exact if_pos rfl
  · exact hcalls ▸ h.called
  · exact hcommitted ▸ h.noRows
  · exact hholder ▸ h.held
  · exact hcommitted ▸ h.found
  · exact List.forall_mem_append.mpr ⟨h.concerns, List.forall_mem_singleton.mpr hw⟩

/-- **A commit.** -/
theorem Ready.commit (h : Ready i call s) (hinv : Inv s) :
    Inv { s with db := s.db.commit RowWrite.apply i } ∧
      Guaranteed i s { s with db := s.db.commit RowWrite.apply i } := by
  obtain ⟨hash, ls, ws, hown, hkeeps⟩ := h
  have hcommitted : (s.db.commit RowWrite.apply i).committed = applyAll ws s.db.committed := by
    show applyAll (s.db.pending i) s.db.committed = _
    rw [hown.pending]
  have hother {k : PaymentHash} (hne : k ≠ hash) :
      locksOf k (applyAll ws s.db.committed) = locksOf k s.db.committed :=
    locksOf_applyAll_of_ne hown.concerns hne s.db.committed
  obtain ⟨hexclusive, hrecords⟩ :=
    hkeeps s.db.committed hown.found (hown.found ▸ hinv.exclusive hash)
  have hnoRows {j : ℕ} (hne : j ≠ i) (hnone : NoRows j s.db.committed) :
      NoRows j (s.db.commit RowWrite.apply i).committed :=
    hcommitted ▸ hnone.applyAll hown.concerns hne
  have hrelies {j : ℕ} (hne : j ≠ i) : s.db.Relies locksOf j (s.db.commit RowWrite.apply i) :=
    hinv.locked.relies_commit hne
  refine ⟨⟨hinv.locked.commit, fun k => ?_, fun l hl hpay => ?_, fun j hj => ?_⟩,
    ⟨fun j hne => ⟨hrelies hne, hnoRows hne, List.prefix_rfl⟩, ?_⟩⟩
  · show Exclusive (locksOf k (s.db.commit RowWrite.apply i).committed)
    rw [hcommitted]
    by_cases hk : k = hash
    · exact hk ▸ hexclusive
    · exact hother hk ▸ hinv.exclusive k
  · have hl : l ∈ (s.db.commit RowWrite.apply i).committed.swapLocks := hl
    show Recorded s.calls (s.db.commit RowWrite.apply i).committed l
    rw [hcommitted] at hl ⊢
    have hmem : l ∈ locksOf l.row.lock.swapPaymentHash (applyAll ws s.db.committed) :=
      List.mem_filter.mpr ⟨hl, decide_eq_true rfl⟩
    have hold {k : PaymentHash} (hl : l ∈ locksOf k s.db.committed) :
        Recorded s.calls (applyAll ws s.db.committed) l :=
      (hinv.recorded l (List.mem_filter.mp hl).1 hpay).applyAll ws
    by_cases hk : l.row.lock.swapPaymentHash = hash
    · rw [hk] at hmem
      rcases hrecords l hmem hpay with hls | hnew
      · exact hold (hown.found ▸ hls)
      · exact hnew s.calls hown.called
    · rw [hother hk] at hmem
      exact hold hmem
  · have hne : j ≠ i := fun heq => absurd hown.lt (Nat.not_lt.mpr (heq ▸ hj))
    obtain ⟨hpending, hopen, hnone⟩ := hinv.fresh j hj
    refine ⟨((hrelies hne).pending hopen).trans hpending, ?_, hnoRows hne hnone⟩
    exact mt (hrelies hne).ended.mp hopen
  · have hne {j : ℕ} (hj : j ∈ s.db.ended) : j ≠ i := fun heq => hown.unfinished (heq ▸ hj)
    exact ⟨fun j hj => List.mem_cons_of_mem i hj, fun j hj => hnoRows (hne hj), List.prefix_rfl⟩

/-- **A transaction is dropped.** -/
theorem Inv.drop (hinv : Inv s) (hlt : i < s.calls.length) :
    Inv { s with db := s.db.drop i } ∧ Guaranteed i s { s with db := s.db.drop i } := by
  refine ⟨⟨hinv.locked.drop, hinv.exclusive, hinv.recorded, fun j hj => ?_⟩,
    ⟨fun j hne => ⟨Database.relies_drop hne, id, List.prefix_rfl⟩,
      ⟨fun j hj => List.mem_cons_of_mem i hj, fun _ _ h => h, List.prefix_rfl⟩⟩⟩
  obtain ⟨hpending, hopen, hnone⟩ := hinv.fresh j hj
  refine ⟨hpending, ?_, hnone⟩
  exact List.not_mem_cons_of_ne_of_not_mem
    (fun heq => absurd hlt (Nat.not_lt.mpr (heq ▸ hj))) hopen

/-! ## The transactions -/

open Prog

variable {α : Type} {R : α → State LockCall → Prop}

/-- How a part of a transaction ends: with an error, in a transaction that runs, or
with a result that is as required. -/
def Ends (i : ℕ) (call : LockCall) (R : α → State LockCall → Prop) (o : Except LockSwapError α)
    (s : State LockCall) : Prop :=
  onOutcome (fun _ => ∃ ws, Running i call ws s) (fun a => R a s) o

/-- An early end. -/
theorem safe_error {e : LockSwapError} (h : Running i call ws s) :
    discipline.Safe i call (Ends i call R) (.ret (.error e)) s :=
  Discipline.Safe.ret (fun _ hr _ => ⟨ws, h.of_relied hr⟩)

/-- **A statement, and what follows it.** -/
theorem safe_execute {P : State LockCall → Prop} {c : Statement} {f : c.Value → Tx α} (hP : P s)
    (hstable : ∀ s s', P s → Relied i s s' → P s') (hruns : ∀ s, P s → ∃ ws, Running i call ws s)
    (hfail : ∀ s : State LockCall, fail i s c = s)
    (h : ∀ s v s', P s → Inv s → answer i s c = some (v, s') →
      Inv s' ∧ Guaranteed i s s' ∧ discipline.Safe i call (Ends i call R) (f v).run s') :
    discipline.Safe i call (Ends i call R) (execute c >>= f).run s := by
  refine Discipline.Safe.call_of_stable hP (fun s s' hP hr _ => hstable s s' hP hr)
    (fun s' hP' hinv _ fate r s'' hserve => ?_)
  have hserve : serve i c fate s' = some (r, s'') := hserve
  obtain ⟨ws, hrunning⟩ := hruns s' hP'
  unfold serve at hserve
  rw [if_neg hrunning.unfinished] at hserve
  cases fate with
  | succeeds =>
    obtain ⟨⟨v, s₁⟩, hanswer, heq⟩ := Option.map_eq_some_iff.mp hserve
    obtain ⟨rfl, rfl⟩ := Prod.mk.inj heq
    exact h s' v s₁ hP' hinv hanswer
  | fails =>
    obtain ⟨rfl, rfl⟩ := Prod.mk.inj (Option.some.inj hserve)
    rw [hfail]
    exact ⟨hinv, .refl i s', safe_error hrunning⟩

/-- **The row lock**, and what follows it. -/
theorem safe_lockSwapForUpdate {f : Unit → Tx α} (hrunning : Running i call [] s)
    (h : ∀ ls s, Owning i call hash ls [] s →
      discipline.Safe i call (Ends i call R) (f ()).run s) :
    discipline.Safe i call (Ends i call R) (lockSwapForUpdate hash >>= f).run s := by
  rw [lockSwapForUpdate, bind_assoc]
  refine safe_execute hrunning (fun _ _ h hr => h.of_relied hr) (fun _ h => ⟨_, h⟩) (fun _ => rfl)
    (fun s v s' hrunning hinv hanswer => ?_)
  simp only [answer] at hanswer
  split at hanswer
  next =>
    obtain ⟨db, hdb, heq⟩ := Option.map_eq_some_iff.mp hanswer
    obtain ⟨rfl, rfl⟩ := Prod.mk.inj heq
    obtain ⟨hinv', hguar, hown⟩ := hrunning.acquire hinv hdb
    exact ⟨hinv', hguar, h _ _ hown⟩
  next =>
    obtain ⟨rfl, rfl⟩ := Prod.mk.inj (Option.some.inj hanswer)
    exact ⟨hinv, .refl i s, safe_error hrunning⟩

/-- **A statement that writes**, and what follows it. -/
theorem safe_write {c : Statement} {f : c.Value → Tx α} (hown : Owning i call hash ls ws s)
    (hfail : ∀ s : State LockCall, fail i s c = s)
    (h : ∀ s v s', Owning i call hash ls ws s → answer i s c = some (v, s') →
      ∃ w, s'.db = s.db.write i [w] ∧ s'.calls = s.calls ∧ w.Concerns i hash ∧
        ∀ s, Owning i call hash ls (ws ++ [w]) s →
          discipline.Safe i call (Ends i call R) (f v).run s) :
    discipline.Safe i call (Ends i call R) (execute c >>= f).run s := by
  refine safe_execute hown (fun _ _ h hr => h.of_relied hr) (fun _ h => ⟨_, h.toRunning⟩) hfail
    (fun s v s' hown hinv hanswer => ?_)
  obtain ⟨w, hdb, hcalls, hw, hrest⟩ := h s v s' hown hanswer
  obtain ⟨hinv', hguar, hown'⟩ := hown.write hinv hw hdb hcalls
  exact ⟨hinv', hguar, hrest s' hown'⟩

/-- **The last write of a transaction**, after which it may commit. -/
theorem safe_lastWrite {c : Statement} (hown : Owning i call hash ls ws s)
    (hfail : ∀ s : State LockCall, fail i s c = s)
    (h : ∀ (s : State LockCall) v s', answer i s c = some (v, s') →
      ∃ w, s'.db = s.db.write i [w] ∧ s'.calls = s.calls ∧ w.Concerns i hash ∧
        Keeps i call hash ls (ws ++ [w])) :
    discipline.Safe i call (Ends i call (fun _ => Ready i call)) (execute c).run s := by
  rw [← bind_pure (execute c)]
  refine safe_write hown hfail (fun s v s' _ hanswer => ?_)
  obtain ⟨w, hdb, hcalls, hw, hkeeps⟩ := h s v s' hanswer
  refine ⟨w, hdb, hcalls, hw, fun s hown => Discipline.Safe.ret (fun s' hr _ => ?_)⟩
  exact ⟨hash, ls, _, hown.of_relied hr, hkeeps⟩

/-- A transaction that may commit commits, or fails. -/
theorem safe_commit (h : Ready i call s) :
    discipline.Safe i call (Ends i call (fun _ _ => True)) (execute .commit).run s := by
  rw [← bind_pure (execute .commit)]
  refine safe_execute h (fun _ _ h hr => h.of_relied hr)
    (fun _ ⟨_, _, ws, hown, _⟩ => ⟨ws, hown.toRunning⟩) (fun _ => rfl)
    (fun s v s' hready hinv hanswer => ?_)
  obtain ⟨rfl, rfl⟩ := Prod.mk.inj (Option.some.inj hanswer)
  obtain ⟨hinv', hguar⟩ := hready.commit hinv
  exact ⟨hinv', hguar, Discipline.Safe.ret (fun _ _ _ => trivial)⟩

/-- **What is left of a call that has ended**: if with an error, no row. -/
def Final (i : ℕ) (result : Except LockSwapError Unit) (s : State LockCall) : Prop :=
  ∀ s', Later s s' → Inv s' → ∀ e, result = .error e → NoRows i s'.db.committed

/-- A call whose transaction has been dropped fails. -/
theorem safe_dropped {e : LockSwapError} (hended : i ∈ s.db.ended)
    (hnone : NoRows i s.db.committed) :
    discipline.Safe i call (Final i) (.ret (.error e)) s :=
  Discipline.Safe.ret (fun _ hr _ _ hl _ _ _ =>
    hl.noRows i (hr.db.ended.mpr hended) (hr.noRows hnone))

/-- **A transaction**, whose body makes it ready to commit. -/
theorem safe_transaction {body : Tx Unit} (hrunning : Running i call [] s)
    (hbody : ∀ s, Running i call [] s →
      discipline.Safe i call (Ends i call (fun _ => Ready i call)) body.run s) :
    discipline.Safe i call (Final i) (transaction body).run s := by
  refine Discipline.Safe.call_of_stable hrunning (fun _ _ h hr _ => h.of_relied hr)
    (fun s' hrunning hinv _ fate r s'' hserve => ?_)
  have hserve : serve i .begin fate s' = some (r, s'') := hserve
  unfold serve at hserve
  rw [if_neg hrunning.unfinished] at hserve
  cases fate with
  | fails =>
    obtain ⟨rfl, rfl⟩ := Prod.mk.inj (Option.some.inj hserve)
    obtain ⟨hinv', hguar⟩ := hinv.drop hrunning.lt
    exact ⟨hinv', hguar, safe_dropped List.mem_cons_self hrunning.noRows⟩
  | succeeds =>
    obtain ⟨rfl, rfl⟩ := Prod.mk.inj (Option.some.inj hserve)
    refine ⟨hinv, .refl i _, Discipline.Safe.tryCatch discipline_stable ?_ hinv⟩
    -- The body and the commit; what is left after an error is to drop the transaction.
    have hcommitted : discipline.Safe i call (Ends i call (fun _ _ => True))
        (body >>= fun _ => execute .commit).run s' := by
      refine Discipline.Safe.tryBind discipline_stable ((hbody s' hrunning).mono ?_) hinv
      rintro (e | ⟨⟩) s₁ _ ho
      · obtain ⟨ws, ho⟩ := ho
        exact safe_error ho
      · exact safe_commit ho
    refine hcommitted.mono ?_
    rintro (e | ⟨⟩) s₁ _ ho
    · obtain ⟨ws, hrunning⟩ := ho
      refine Discipline.Safe.call_of_stable hrunning (fun _ _ h hr _ => h.of_relied hr)
        (fun s₂ hrunning hinv _ fate r s₃ hserve => ?_)
      have hserve : serve i .drop fate s₂ = some (r, s₃) := hserve
      unfold serve at hserve
      rw [if_neg hrunning.unfinished] at hserve
      obtain ⟨hinv', hguar⟩ := hinv.drop hrunning.lt
      have hs₃ : s₃ = { s₂ with db := s₂.db.drop i } := by
        cases fate with
        | succeeds => exact (Prod.mk.inj (Option.some.inj hserve)).2.symm
        | fails => exact (Prod.mk.inj (Option.some.inj hserve)).2.symm
      rw [hs₃]
      exact ⟨hinv', hguar, safe_dropped List.mem_cons_self hrunning.noRows⟩
    · exact Discipline.Safe.ret (fun _ _ _ _ _ _ _ he => nomatch he)

/-! ### What they write -/

/-- Locks are only deleted. -/
theorem keeps_of_filter
    (h : ∀ t, ∃ p, locksOf hash (applyAll ws t) = (locksOf hash t).filter p) :
    Keeps i call hash ls ws := by
  intro t hls hexclusive
  obtain ⟨p, hp⟩ := h t
  rw [hp, hls]
  exact ⟨hexclusive.filter p, fun l hl _ => Or.inl (List.mem_filter.mp hl).1⟩

/-- A refund is locked for, beside other refunds. -/
theorem keeps_refund {id : ℕ} {refundId : String} (h : ∀ l ∈ ls, l.isPayment = false) :
    Keeps i call hash ls [.insertLock ⟨i, ⟨id, ⟨hash, .refund refundId⟩⟩⟩] := by
  intro t hls _
  have hlocks : locksOf hash (applyAll [.insertLock ⟨i, ⟨id, ⟨hash, .refund refundId⟩⟩⟩] t)
      = ls ++ [⟨i, ⟨id, ⟨hash, .refund refundId⟩⟩⟩] := by
    rw [← hls]
    simp [locksOf, applyAll, RowWrite.apply, List.filter_append]
  have hrefunds : ∀ l ∈ ls ++ [⟨i, ⟨id, ⟨hash, .refund refundId⟩⟩⟩], l.isPayment = false :=
    List.forall_mem_append.mpr ⟨h, List.forall_mem_singleton.mpr rfl⟩
  rw [hlocks]
  refine ⟨Or.inl hrefunds, fun l hl hpay => ?_⟩
  rw [hrefunds l hl] at hpay
  cases hpay

/-- A payment is locked for, on its own, with its attempt. -/
theorem keeps_payment {a : PaymentAttempt} {lockId id ns : ℕ}
    (hns : SystemTime.sinceEpoch a.creationTime = some ns) :
    Keeps i (.lockAddPaymentAttempt a) a.paymentHash []
      [.insertLock ⟨i, ⟨lockId, ⟨a.paymentHash, .payment a.label⟩⟩⟩,
        .insertAttempt ⟨i, ⟨id, a.paymentHash, a.label, ns / 1000000000, a.amountMsat,
          a.paymentRequest, a.destination, none, none⟩⟩,
        .insertOutputs (a.outputs.map (fun o => ⟨i, ⟨id, o⟩⟩))] := by
  intro t hls _
  have hlocks {w w' : RowWrite} {l : Stored LockRow}
      (hl : l.row.lock.swapPaymentHash = a.paymentHash)
      (hw : ∀ t, (w.apply t).swapLocks = t.swapLocks)
      (hw' : ∀ t, (w'.apply t).swapLocks = t.swapLocks) :
      locksOf a.paymentHash (applyAll [.insertLock l, w, w'] t) = [l] := by
    show List.filter _ (w'.apply (w.apply _)).swapLocks = _
    rw [hw', hw]
    show List.filter _ (t.swapLocks ++ [l]) = _
    rw [List.filter_append, show t.swapLocks.filter _ = [] from hls, List.filter_singleton]
    simp [hl]
  rw [hlocks rfl (fun _ => rfl) (fun _ => rfl)]
  refine ⟨Or.inr ⟨_, rfl, rfl⟩, fun l hl _ => Or.inr (fun calls hcall => ?_)⟩
  obtain rfl := List.mem_singleton.mp hl
  refine ⟨a, ns, id, hcall, rfl, hns, ⟨_, List.mem_append_right _ List.mem_cons_self, ?_⟩, ?_⟩
  · exact ⟨none, none, rfl⟩
  · exact List.sublist_append_right _ _

/-! ### What they count -/

theorem Owning.countLocks_eq (h : Owning i call hash ls [] s) :
    (s.rows i).countLocks hash = ls.length := by
  rw [← h.found, locksOf, ← List.countP_eq_length_filter]
  simp only [SwapTables.countLocks, State.rows, h.visible_eq, List.countP_map]
  rfl

theorem Owning.countPaymentLocks_eq (h : Owning i call hash ls [] s) :
    (s.rows i).countPaymentLocks hash = ls.countP Stored.isPayment := by
  rw [← h.found, locksOf, List.countP_filter]
  simp only [SwapTables.countPaymentLocks, State.rows, h.visible_eq, List.countP_map]
  refine List.countP_congr (fun l _ => ?_)
  simp [Stored.isPayment, and_comm]

/-! ### Each of them -/

/-- **A payment attempt is added and locked for.** -/
theorem safe_lockAddPaymentAttempt {a : PaymentAttempt}
    (hrunning : Running i (.lockAddPaymentAttempt a) [] s) :
    discipline.Safe i (.lockAddPaymentAttempt a) (Final i) (lockAddPaymentAttempt a).run s := by
  refine safe_transaction hrunning (fun s hrunning => ?_)
  refine safe_lockSwapForUpdate hrunning (fun ls s hown => ?_)
  refine safe_execute hown (fun _ _ h hr => h.of_relied hr) (fun _ h => ⟨_, h.toRunning⟩)
    (fun _ => rfl) (fun s count s' hown hinv hanswer => ?_)
  obtain ⟨rfl, rfl⟩ := Prod.mk.inj (Option.some.inj hanswer)
  refine ⟨hinv, .refl i s, ?_⟩
  rw [hown.countLocks_eq]
  unfold rejectIf
  split
  next => exact safe_error hown.toRunning
  next hzero =>
    obtain rfl : ls = [] := List.length_eq_zero_iff.mp (Nat.eq_zero_of_not_pos hzero)
    refine safe_write hown (fun _ => rfl) (fun s _ s' _ hanswer => ?_)
    obtain ⟨rfl, rfl⟩ := Prod.mk.inj (Option.some.inj hanswer)
    refine ⟨_, rfl, rfl, ⟨rfl, rfl⟩, fun s hown => ?_⟩
    split
    next ns hns =>
      refine safe_write hown (fun _ => rfl) (fun s _ s' _ hanswer => ?_)
      obtain ⟨rfl, rfl⟩ := Prod.mk.inj (Option.some.inj hanswer)
      refine ⟨_, rfl, rfl, rfl, fun s hown => ?_⟩
      refine safe_lastWrite hown (fun _ => rfl) (fun s _ s' hanswer => ?_)
      obtain ⟨rfl, rfl⟩ := Prod.mk.inj (Option.some.inj hanswer)
      refine ⟨_, rfl, rfl, fun r hr => ?_, keeps_payment hns⟩
      obtain ⟨o, -, rfl⟩ := List.mem_map.mp hr
      rfl
    next => exact safe_error hown.toRunning

/-- **A refund is locked for.** -/
theorem safe_lockSwapRefund {refundId : String}
    (hrunning : Running i (.lockSwapRefund hash refundId) [] s) :
    discipline.Safe i (.lockSwapRefund hash refundId) (Final i)
      (lockSwapRefund hash refundId).run s := by
  refine safe_transaction hrunning (fun s hrunning => ?_)
  refine safe_lockSwapForUpdate hrunning (fun ls s hown => ?_)
  refine safe_execute hown (fun _ _ h hr => h.of_relied hr) (fun _ h => ⟨_, h.toRunning⟩)
    (fun _ => rfl) (fun s count s' hown hinv hanswer => ?_)
  obtain ⟨rfl, rfl⟩ := Prod.mk.inj (Option.some.inj hanswer)
  refine ⟨hinv, .refl i s, ?_⟩
  rw [hown.countPaymentLocks_eq]
  unfold rejectIf
  split
  next => exact safe_error hown.toRunning
  next hzero =>
    have hnone : ∀ l ∈ ls, l.isPayment = false := by
      have := List.countP_eq_zero.mp (Nat.eq_zero_of_not_pos hzero)
      exact fun l hl => Bool.eq_false_iff.mpr (this l hl)
    refine safe_lastWrite hown (fun _ => rfl) (fun s _ s' hanswer => ?_)
    obtain ⟨rfl, rfl⟩ := Prod.mk.inj (Option.some.inj hanswer)
    exact ⟨_, rfl, rfl, ⟨rfl, rfl⟩, keeps_refund hnone⟩

/-- The locks found to be deleted are locks of the swap. -/
theorem concerns_deleteLocks {lock : SwapLock} :
    (RowWrite.deleteLocks (s.locks i ⟨hash, lock⟩)).Concerns i hash := by
  intro l hl
  rw [of_decide_eq_true (List.mem_filter.mp hl).2]

/-- **The result of a payment is added, and its lock is released.** -/
theorem safe_unlockAddPaymentResult {label : String} {result : PaymentResult}
    (hrunning : Running i (.unlockAddPaymentResult hash label result) [] s) :
    discipline.Safe i (.unlockAddPaymentResult hash label result) (Final i)
      (unlockAddPaymentResult hash label result).run s := by
  refine safe_transaction hrunning (fun s hrunning => ?_)
  refine safe_lockSwapForUpdate hrunning (fun ls s hown => ?_)
  refine safe_write hown (fun _ => rfl) (fun s _ s' _ hanswer => ?_)
  obtain ⟨rfl, rfl⟩ := Prod.mk.inj (Option.some.inj hanswer)
  refine ⟨_, rfl, rfl, concerns_deleteLocks, fun s' hown => ?_⟩
  cases result with
  | success preimage =>
    refine safe_write hown (fun _ => rfl) (fun s _ s' _ hanswer => ?_)
    obtain ⟨rfl, rfl⟩ := Prod.mk.inj (Option.some.inj hanswer)
    refine ⟨_, rfl, rfl, trivial, fun s hown => ?_⟩
    refine safe_lastWrite hown (fun _ => rfl) (fun s _ s' hanswer => ?_)
    obtain ⟨rfl, rfl⟩ := Prod.mk.inj (Option.some.inj hanswer)
    refine ⟨_, rfl, rfl, rfl, keeps_of_filter (fun t => ?_)⟩
    exact ⟨_, List.filter_comm _ _ _⟩
  | failure error =>
    refine safe_lastWrite hown (fun _ => rfl) (fun s _ s' hanswer => ?_)
    obtain ⟨rfl, rfl⟩ := Prod.mk.inj (Option.some.inj hanswer)
    refine ⟨_, rfl, rfl, rfl, keeps_of_filter (fun t => ?_)⟩
    exact ⟨_, List.filter_comm _ _ _⟩

/-- **The lock of a refund is released.** -/
theorem safe_unlockSwapRefund {refundId : String}
    (hrunning : Running i (.unlockSwapRefund hash refundId) [] s) :
    discipline.Safe i (.unlockSwapRefund hash refundId) (Final i)
      (unlockSwapRefund hash refundId).run s := by
  refine safe_transaction hrunning (fun s hrunning => ?_)
  refine safe_lockSwapForUpdate hrunning (fun ls s hown => ?_)
  refine safe_lastWrite hown (fun _ => rfl) (fun s _ s' hanswer => ?_)
  obtain ⟨rfl, rfl⟩ := Prod.mk.inj (Option.some.inj hanswer)
  refine ⟨_, rfl, rfl, concerns_deleteLocks, keeps_of_filter (fun t => ?_)⟩
  exact ⟨_, List.filter_comm _ _ _⟩

/-- **Each call keeps the discipline.** -/
theorem safe_program (hrunning : Running i call [] s) :
    discipline.Safe i call (Final i) call.program.run s := by
  cases call with
  | lockAddPaymentAttempt a => exact safe_lockAddPaymentAttempt hrunning
  | lockSwapRefund hash refundId => exact safe_lockSwapRefund hrunning
  | unlockAddPaymentResult hash label result => exact safe_unlockAddPaymentResult hrunning
  | unlockSwapRefund hash refundId => exact safe_unlockSwapRefund hrunning

/-! ## Any number of transactions -/

/-- **A call is made.** -/
theorem Inv.spawn (hinv : Inv s) : Inv { s with calls := s.calls ++ [call] } := by
  refine ⟨hinv.locked, hinv.exclusive, fun l hl hpay => ?_, fun j hj => ?_⟩
  · exact (hinv.recorded l hl hpay).mono (List.prefix_append _ _)
  · rw [List.length_append] at hj
    exact hinv.fresh j (Nat.le_of_add_right_le hj)

/-- A swap is added. -/
theorem Inv.addSwap (hinv : Inv s) (swaps : List SwapState) :
    Inv { s with db := { s.db with committed := { s.db.committed with swaps := swaps } } } := by
  refine ⟨hinv.locked, hinv.exclusive, hinv.recorded, fun j hj => ?_⟩
  obtain ⟨hpending, hopen, hnone⟩ := hinv.fresh j hj
  exact ⟨hpending, hopen, hnone.locks, hnone.attempts, hnone.outputs⟩

theorem Relied.addSwap (j : ℕ) (s : State LockCall) (swaps : List SwapState) :
    Relied j s { s with db := { s.db with committed := { s.db.committed with swaps := swaps } } } :=
  ⟨⟨Iff.rfl, fun _ => rfl, fun _ _ h => ⟨h, rfl⟩⟩, fun h => ⟨h.locks, h.attempts, h.outputs⟩,
    List.prefix_rfl⟩

/-- A transaction that is over is rolled back. -/
theorem Inv.rollback (hinv : Inv s) (hi : i ∈ s.db.ended) :
    Inv { s with db := s.db.rollback i } := by
  refine ⟨hinv.locked.rollback, hinv.exclusive, hinv.recorded, fun j hj => ?_⟩
  obtain ⟨hpending, hopen, hnone⟩ := hinv.fresh j hj
  exact ⟨(if_neg (fun heq : j = i => hopen (heq ▸ hi))).trans hpending, hopen, hnone⟩

theorem Relied.rollback (j : ℕ) (hi : i ∈ s.db.ended) :
    Relied j s { s with db := s.db.rollback i } :=
  ⟨Database.relies_rollback (fun hopen (heq : j = i) => hopen (heq ▸ hi)), id, List.prefix_rfl⟩

/-- **The discipline is sound.** -/
theorem discipline_sound : discipline.Sound where
  toStable := discipline_stable
  later_refl s := Later.refl s
  later_trans h h' := Later.trans h h'
  guar_rely hne _ _ hguar := hguar.others _ hne.symm
  guar_later _ _ hguar := hguar.later
  drift := by
    intro d s s' hinv hdrift
    cases d with
    | addSwap row =>
      simp only [machine] at hdrift
      split at hdrift
      next => cases hdrift
      next =>
        obtain rfl := Option.some.inj hdrift
        exact ⟨hinv.addSwap _, fun j _ => .addSwap j s _,
          ⟨fun _ h => h, fun _ _ h => ⟨h.locks, h.attempts, h.outputs⟩, List.prefix_rfl⟩⟩
    | rollback i =>
      simp only [machine] at hdrift
      split at hdrift
      next hi =>
        obtain rfl := Option.some.inj hdrift
        exact ⟨hinv.rollback hi, fun j _ => .rollback j hi,
          ⟨fun _ h => h, fun _ _ h => h, List.prefix_rfl⟩⟩
      next => cases hdrift
  spawn := by
    intro call n s t p s' hinv hspawn
    simp only [machine] at hspawn
    split at hspawn
    next hn =>
      obtain ⟨htp, rfl⟩ := Prod.mk.inj (Option.some.inj hspawn)
      obtain ⟨rfl, rfl⟩ := Prod.mk.inj htp
      have hcalls : s.calls <+: s.calls ++ [call] := List.prefix_append _ _
      obtain ⟨hpending, hopen, hnone⟩ := hinv.fresh n (Nat.le_of_eq hn.symm)
      refine ⟨hinv.spawn, fun j _ _ => ⟨.refl s.db, id, hcalls⟩,
        ⟨fun _ h => h, fun _ _ h => h, hcalls⟩, safe_program ⟨hopen, hpending, ?_, hnone⟩⟩
      rw [hn]
      exact List.getElem?_concat_length
    next => cases hspawn
  halt := by
    intro i s s' hinv hhalt
    simp only [machine] at hhalt
    split at hhalt
    next hlt =>
      obtain rfl := Option.some.inj hhalt
      obtain ⟨hinv', hguar⟩ := hinv.drop hlt
      exact ⟨hinv', fun j _ hj => hguar.others j (fun heq => of_decide_eq_false hj heq.symm),
        hguar.later⟩
    next => cases hhalt

/-- What a deployment starts with is in order. -/
theorem ok_of_isInitial {S : machine.Config} (h : IsInitial S) : discipline.Ok S := by
  obtain ⟨hthreads, hcalls, hpending, hholder, hended, hlocks, hattempts, houtputs⟩ := h
  have hnone (j : ℕ) : NoRows j S.state.db.committed :=
    ⟨fun l hl => by simp [hlocks] at hl, fun r hr => by simp [hattempts] at hr,
      fun r hr => by simp [houtputs] at hr⟩
  refine ⟨⟨fun j k _ w hw => ?_, fun hash => Or.inl (fun l hl => ?_), fun l hl => ?_,
    fun j _ => ⟨by rw [hpending], by rw [hended]; exact List.not_mem_nil, hnone j⟩⟩,
    fun j T hT => ?_⟩
  · rw [hpending] at hw
    cases hw
  · rw [locksOf, hlocks] at hl
    cases hl
  · rw [hlocks] at hl
    cases hl
  · rw [hthreads] at hT
    cases hT

/-- A statement makes no calls. -/
theorem serve_calls {c : Statement} {fate : Fate} {r : Option c.Value}
    (h : serve i c fate s = some (r, s')) : s'.calls = s.calls := by
  unfold serve at h
  split at h
  next => cases h
  next =>
    split at h
    next =>
      obtain ⟨⟨v, s₁⟩, hanswer, heq⟩ := Option.map_eq_some_iff.mp h
      obtain ⟨-, rfl⟩ := Prod.mk.inj heq
      cases c with
      | lockSwapForUpdate hash =>
        simp only [answer] at hanswer
        split at hanswer
        next =>
          obtain ⟨db, -, heq⟩ := Option.map_eq_some_iff.mp hanswer
          obtain ⟨-, rfl⟩ := Prod.mk.inj heq
          rfl
        next =>
          obtain ⟨-, rfl⟩ := Prod.mk.inj (Option.some.inj hanswer)
          rfl
      | _ =>
        obtain ⟨-, rfl⟩ := Prod.mk.inj (Option.some.inj hanswer)
        rfl
    next =>
      obtain ⟨-, rfl⟩ := Prod.mk.inj (Option.some.inj h)
      cases c <;> rfl

/-- **The calls made are those of the threads**, so every call that is made is
possible. -/
theorem calls_eq {S : machine.Config} (h : Machine.Reachable IsInitial S) :
    S.state.calls = S.threads.map (fun T => T.task) := by
  obtain ⟨S₀, hinit, hrun⟩ := h
  induction hrun with
  | refl => rw [hinit.1, hinit.2.1]; rfl
  | @tail S₁ S₂ _ hstep ih =>
    obtain ⟨a, -, hs⟩ := hstep
    cases a with
    | run i fate =>
      simp only [Machine.step] at hs
      split at hs
      next t c k hT =>
        obtain ⟨⟨r, s'⟩, hserve, rfl⟩ := Option.map_eq_some_iff.mp hs
        show s'.calls = _
        rw [serve_calls hserve, ih, Machine.map_task_set hT]
      next => cases hs
    | spawn call =>
      obtain ⟨⟨⟨t, p⟩, s'⟩, hspawn, rfl⟩ := Option.map_eq_some_iff.mp hs
      simp only [machine] at hspawn
      split at hspawn
      next =>
        obtain ⟨htp, rfl⟩ := Prod.mk.inj (Option.some.inj hspawn)
        obtain ⟨rfl, -⟩ := Prod.mk.inj htp
        rw [List.map_append, ← ih]
        rfl
      next => cases hspawn
    | halt i =>
      obtain ⟨s', hhalt, rfl⟩ := Option.map_eq_some_iff.mp hs
      simp only [machine] at hhalt
      split at hhalt
      next =>
        obtain rfl := Option.some.inj hhalt
        exact ih.trans Machine.map_task_halted.symm
      next => cases hhalt
    | drift d =>
      obtain ⟨s', hdrift, rfl⟩ := Option.map_eq_some_iff.mp hs
      cases d with
      | addSwap row =>
        simp only [machine] at hdrift
        split at hdrift
        next => cases hdrift
        next =>
          obtain rfl := Option.some.inj hdrift
          exact ih
      | rollback i =>
        simp only [machine] at hdrift
        split at hdrift
        next =>
          obtain rfl := Option.some.inj hdrift
          exact ih
        next => cases hdrift

/-- **The locks exclude each other at statement level.** In every state that any
number of lock transactions can lead to, whatever the order of their statements and
whichever of them fail or are abandoned: a swap has no payment lock, or a payment lock
and no other; a payment lock comes with the row of its attempt and its outputs; and a
call that has returned an error has left no row. -/
theorem statements_exclusive {S : machine.Config} (h : Machine.Reachable IsInitial S) :
    (∀ hash, Exclusive (locksOf hash S.state.db.committed))
      ∧ (∀ l ∈ S.state.db.committed.swapLocks, l.isPayment = true →
        Recorded S.state.calls S.state.db.committed l)
      ∧ ∀ i e, S.result i = some (.error e) → NoRows i S.state.db.committed := by
  have hok := discipline_sound.reachable (fun S hS => ok_of_isInitial hS) h
  refine ⟨hok.1.exclusive, hok.1.recorded, fun i e hresult => ?_⟩
  obtain ⟨t, hpost⟩ := hok.post discipline_sound hresult
  exact hpost e rfl

namespace Sample

/-- A hash. -/
def lockHash : PaymentHash := .ofByte 1

/-- A label of it. -/
def lockLabel : String := paymentLabel lockHash 5000000000

/-- A payment attempt. -/
def lockAttempt : PaymentAttempt := ⟨5000000000, lockLabel, lockHash, [⟨.ofByte 2, 0⟩], 1000, [], ""⟩

/-- A swap, and no locks. -/
def lockStart : machine.Config where
  state :=
    { db :=
        { committed := ⟨[⟨⟨0, ⟨⟨[]⟩, [], [], lockHash, 144, [], []⟩, ⟨.ofByte 3⟩⟩, none⟩], [], [], []⟩
          pending := fun _ => []
          holder := fun _ => none
          ended := [] }
      nextLockId := 0
      nextAttemptId := 0
      calls := [] }
  threads := []

/-- A payment and a refund are locked for at once. The refund has begun when the payment
takes the row lock, and counts the locks when the payment has been committed. -/
def lockRun : List machine.Action :=
  [.spawn (.lockAddPaymentAttempt lockAttempt), .spawn (.lockSwapRefund lockHash "refund"),
    .run 0 .succeeds, .run 1 .succeeds] ++ List.replicate 6 (.run 0 .succeeds) ++
    List.replicate 3 (.run 1 .succeeds) ++ [.drift (.rollback 1)]

/-- Where that leads. -/
def lockedOnce : machine.Config := Machine.after (fun _ _ _ _ => True) lockStart lockRun

end Sample

open Sql.Sample in
theorem statements_exclusive_sample :
    lockedOnce.result 0 = some (.ok ()) ∧ lockedOnce.result 1 = some (.error .alreadyLocked) ∧
      locksOf lockHash lockedOnce.state.db.committed
        = [⟨0, ⟨0, ⟨lockHash, .payment lockLabel⟩⟩⟩] ∧
      Recorded lockedOnce.state.calls lockedOnce.state.db.committed
        ⟨0, ⟨0, ⟨lockHash, .payment lockLabel⟩⟩⟩ ∧
      NoRows 1 lockedOnce.state.db.committed := by
  have hreachable : Machine.Reachable IsInitial lockedOnce :=
    ⟨lockStart, ⟨rfl, rfl, rfl, rfl, rfl, rfl, rfl, rfl⟩, Machine.reflTransGen_after _ _⟩
  have hlocks : lockedOnce.state.db.committed.swapLocks
      = [⟨0, ⟨0, ⟨lockHash, .payment lockLabel⟩⟩⟩] := by decide
  have hrefused : lockedOnce.result 1 = some (.error .alreadyLocked) := by decide
  obtain ⟨-, hrecorded, hnone⟩ := statements_exclusive hreachable
  refine ⟨by decide, hrefused, by decide, hrecorded _ ?_ rfl, hnone 1 _ hrefused⟩
  rw [hlocks]
  exact List.mem_cons_self

end Sql

end Swapd
