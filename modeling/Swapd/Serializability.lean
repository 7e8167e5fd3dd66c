import Swapd.SerialOrder

/-!
# The lock transactions are serializable

Any number of the four transactions, interleaved statement by statement, do to the
committed tables what the same calls do one after the other, each in one step: those
that have returned without an error, in the order of their commits
(`statements_serializable`). So `SwapRepository`, which takes each call for one step,
says of the tables what the statements do.
-/

namespace Swapd

namespace Sql

variable {i j : ℕ} {hash k : PaymentHash} {w : RowWrite} {ws : List RowWrite}
  {calls : List LockCall} {ls : List (Stored LockRow)} {keys : List (ℕ × String)}
  {call : LockCall} {s s' : State LockCall}

/-! ## The discipline -/

/-- An attempt is one that was asked for. -/
def Called (calls : List LockCall) (row : PaymentAttemptRow) : Prop :=
  ∃ a, .lockAddPaymentAttempt a ∈ calls ∧ row.swapPaymentHash = a.paymentHash ∧
    row.label = a.label

theorem Called.of_calls {calls' : List LockCall} {row : PaymentAttemptRow}
    (h : Called calls row) (hcalls : calls <+: calls') : Called calls' row := by
  obtain ⟨a, ha, hrow⟩ := h
  exact ⟨a, hcalls.subset ha, hrow⟩

/-- **The keys of attempts are distinct**, of those that are committed and of those that
are inserted by transactions that run. -/
structure Keyed (s : State LockCall) : Prop where
  locked : s.db.Protected RowWrite.apply attemptKeys
  nodup : (attemptIds s.db.committed).Nodup
  used : ∀ n ∈ attemptIds s.db.committed, n < s.nextAttemptId
  pendingNodup : ∀ i, (RowWrite.insertedIds (s.db.pending i)).Nodup
  pendingUsed : ∀ i, ∀ n ∈ RowWrite.insertedIds (s.db.pending i), n < s.nextAttemptId
  pendingFresh : ∀ i, ∀ n ∈ RowWrite.insertedIds (s.db.pending i),
    n ∉ attemptIds s.db.committed
  pendingOnce : ∀ i j n, n ∈ RowWrite.insertedIds (s.db.pending i) →
    n ∈ RowWrite.insertedIds (s.db.pending j) → i = j
  called : ∀ r ∈ s.db.committed.paymentAttempts, Called s.calls r.row
  pendingCalled : ∀ i, ∀ w ∈ s.db.pending i, ∀ row ∈ w.inserted, Called s.calls row
  holders : ∀ k j, s.db.holder k = some j → j < s.calls.length

/-- **What a transaction may rely on**: nobody changes the attempts of the swaps it has
locked, or removes a swap. -/
structure Stable (i : ℕ) (s s' : State LockCall) : Prop extends Relied i s s' where
  attempts : s.db.Relies attemptKeys i s'.db
  swaps : ∀ hash, (∃ row ∈ s.db.committed.swaps, row.swap.pub.hash = hash) →
    ∃ row ∈ s'.db.committed.swaps, row.swap.pub.hash = hash
  holds : ∀ k, s'.db.holder k = some i → s.db.holder k = some i

/-- **What a statement does to the committed tables**: nothing, unless it is a commit
that ends the transaction, which comes to the call. -/
def Comes (i : ℕ) (call : LockCall) (c : Statement) (s s' : State LockCall) : Prop :=
  s'.db.committed = s.db.committed ∧ (i ∈ s'.db.ended → c ≠ .commit) ∨
    c = .commit ∧ (LabelsAgree s.calls → call.Does s.db.committed.toRows s'.db.committed.toRows)

/-- **The discipline of serial transactions.** A transaction that waits for a row lock
holds none. -/
abbrev serially : Discipline machine where
  permits _ _ _ _ := True
  inv s := Inv s ∧ Keyed s
  rely i _ s s' := Stable i s s'
  guar i call c s s' := (∀ j, j ≠ i → Stable j s s') ∧ Comes i call c s s' ∧
    ∀ hash, c = .lockSwapForUpdate hash → ∀ k, s.db.holder k ≠ some i
  later _ _ := True
  post _ _ _ _ := True

/-- A statement that does nothing. -/
theorem comes_rfl {c : Statement} (h : i ∉ s.db.ended) : Comes i call c s s :=
  Or.inl ⟨rfl, fun hended => absurd hended h⟩

theorem Stable.refl (i : ℕ) (s : State LockCall) : Stable i s s :=
  ⟨.refl i s, .refl s.db, fun _ h => h, fun _ h => h⟩

theorem Stable.trans {s'' : State LockCall} (h : Stable i s s') (h' : Stable i s' s'') :
    Stable i s s'' :=
  ⟨h.toRelied.trans h'.toRelied, h.attempts.trans h'.attempts,
    fun hash hs => h'.swaps hash (h.swaps hash hs), fun k hk => h.holds k (h'.holds k hk)⟩

theorem serially_stable : serially.Stable where
  rely_refl i _ s := Stable.refl i s
  rely_trans h h' := Stable.trans h h'

/-! ## The assertions of a transaction -/

/-- A transaction has begun, and neither locked nor written anything. -/
structure Begun (i : ℕ) (call : LockCall) (s : State LockCall) : Prop
    extends Running i call [] s where
  free : ∀ k, s.db.holder k ≠ some i

/-- **A transaction has locked a swap**, found these locks and attempts of it, and has
made these writes. -/
structure Working (i : ℕ) (call : LockCall) (hash : PaymentHash) (ls : List (Stored LockRow))
    (keys : List (ℕ × String)) (ws : List RowWrite) (s : State LockCall) : Prop
    extends Owning i call hash ls ws s where
  keys : attemptKeys hash s.db.committed = keys
  swap : ∃ row ∈ s.db.committed.swaps, row.swap.pub.hash = hash

/-- **A transaction that may commit**: what it has written comes to its call. -/
def Serving (i : ℕ) (call : LockCall) (s : State LockCall) : Prop :=
  ∃ hash ls keys ws, Working i call hash ls keys ws s ∧ Keeps i call hash ls ws ∧
    ∀ calls, s.calls <+: calls → ComesTo call hash ls keys ws calls

theorem Begun.of_stable (h : Begun i call s) (hs : Stable i s s') : Begun i call s' :=
  ⟨h.toRunning.of_relied hs.toRelied, fun k hk => h.free k (hs.holds k hk)⟩

theorem Working.of_stable (h : Working i call hash ls keys ws s) (hs : Stable i s s') :
    Working i call hash ls keys ws s' := by
  obtain ⟨-, hpart⟩ := hs.attempts.held h.unfinished hash h.held
  exact ⟨h.toOwning.of_relied hs.toRelied, hpart.trans h.keys, hs.swaps hash h.swap⟩

theorem Serving.of_stable (h : Serving i call s) (hs : Stable i s s') : Serving i call s' := by
  obtain ⟨hash, ls, keys, ws, hworking, hkeeps, hcomes⟩ := h
  exact ⟨hash, ls, keys, ws, hworking.of_stable hs, hkeeps,
    fun calls hcalls => hcomes calls (hs.calls.trans hcalls)⟩

/-! ## What a statement does -/

/-- Where the committed data, what is pending and the keys stay as they are. -/
theorem Keyed.of_eq (h : Keyed s) (hcommitted : s'.db.committed = s.db.committed)
    (hpending : s'.db.pending = s.db.pending) (hnext : s'.nextAttemptId = s.nextAttemptId)
    (hcalls : s.calls <+: s'.calls) (hlocked : s'.db.Protected RowWrite.apply attemptKeys)
    (hholders : ∀ k j, s'.db.holder k = some j → j < s'.calls.length) : Keyed s' where
  locked := hlocked
  nodup := hcommitted ▸ h.nodup
  used := hcommitted ▸ hnext ▸ h.used
  pendingNodup := hpending ▸ h.pendingNodup
  pendingUsed := hpending ▸ hnext ▸ h.pendingUsed
  pendingFresh := hpending ▸ hcommitted ▸ h.pendingFresh
  pendingOnce := hpending ▸ h.pendingOnce
  called := fun r hr => (h.called r (hcommitted ▸ hr)).of_calls hcalls
  pendingCalled := fun i w hw row hrow =>
    (h.pendingCalled i w (hpending ▸ hw) row hrow).of_calls hcalls
  holders := hholders

/-- **A row lock.** -/
theorem Begun.acquire {db : Database StoredTables RowWrite PaymentHash} (h : Begun i call s)
    (hinv : Inv s ∧ Keyed s) (hswap : ∃ row ∈ s.db.committed.swaps, row.swap.pub.hash = hash)
    (hdb : s.db.acquire i hash = some db) :
    (Inv { s with db := db } ∧ Keyed { s with db := db }) ∧
      (∀ j, j ≠ i → Stable j s { s with db := db }) ∧
      Working i call hash (locksOf hash s.db.committed) (attemptKeys hash s.db.committed) []
        { s with db := db } := by
  obtain ⟨hcommitted, hpending, -, -, -⟩ := Database.acquire_eq_some hdb
  obtain ⟨hinv', hguar, hown⟩ := h.toRunning.acquire hinv.1 hdb
  refine ⟨⟨hinv', hinv.2.of_eq hcommitted hpending rfl List.prefix_rfl
    (hinv.2.locked.acquire hdb) (fun k j hk => ?_)⟩, fun j hne => ⟨hguar.others j hne,
      Database.relies_acquire hdb, fun _ hs => hcommitted ▸ hs, fun k hk => ?_⟩,
    ⟨hown, congrArg (attemptKeys hash) hcommitted, hcommitted ▸ hswap⟩⟩
  · rcases Database.holder_of_acquire hdb hk with rfl | hk
    · exact h.lt
    · exact hinv.2.holders k j hk
  · exact (Database.holder_of_acquire hdb hk).resolve_left hne

theorem RowWrite.insertedIds_append (ws ws' : List RowWrite) :
    insertedIds (ws ++ ws') = insertedIds ws ++ insertedIds ws' := List.filterMap_append

/-- **A write**, with the next key if it inserts an attempt, which is one that was asked
for. -/
theorem Working.write (h : Working i call hash ls keys ws s) (hinv : Inv s ∧ Keyed s)
    (hw : w.Concerns i hash) (hdb : s'.db = s.db.write i [w]) (hcalls : s'.calls = s.calls)
    (hrow : ∀ row ∈ w.inserted, row.swapPaymentHash = hash ∧ Called s.calls row)
    (hid : RowWrite.insertedIds [w] = [] ∧ s'.nextAttemptId = s.nextAttemptId ∨
      RowWrite.insertedIds [w] = [s.nextAttemptId] ∧ s'.nextAttemptId = s.nextAttemptId + 1) :
    (Inv s' ∧ Keyed s') ∧ (∀ j, j ≠ i → Stable j s s') ∧ Working i call hash ls keys (ws ++ [w]) s' := by
  obtain ⟨hinv', hguar, hown⟩ := h.toOwning.write hinv.1 hw hdb hcalls
  have hcommitted : s'.db.committed = s.db.committed := by rw [hdb]; rfl
  have hholder : s'.db.holder = s.db.holder := by rw [hdb]; rfl
  have hnext : s.nextAttemptId ≤ s'.nextAttemptId := by
    rcases hid with ⟨-, hid⟩ | ⟨-, hid⟩ <;> omega
  have hkeyed := hinv.2
  -- The new key is the next one.
  have hnew : ∀ n ∈ RowWrite.insertedIds [w], n = s.nextAttemptId ∧ n < s'.nextAttemptId := by
    rcases hid with ⟨hnone, -⟩ | ⟨hone, hid⟩
    · rw [hnone]
      exact nofun
    · rw [hone]
      exact List.forall_mem_singleton.mpr ⟨rfl, by omega⟩
  have hpending (j : ℕ) : RowWrite.insertedIds (s'.db.pending j) =
      RowWrite.insertedIds (s.db.pending j) ++ if j = i then RowWrite.insertedIds [w] else [] := by
    rw [hdb]
    show RowWrite.insertedIds (if j = i then s.db.pending i ++ [w] else s.db.pending j) = _
    split
    next heq => rw [heq, RowWrite.insertedIds_append]
    next => rw [List.append_nil]
  have hmem {j n : ℕ} (hn : n ∈ RowWrite.insertedIds (s'.db.pending j)) :
      n ∈ RowWrite.insertedIds (s.db.pending j) ∨ j = i ∧ n ∈ RowWrite.insertedIds [w] := by
    rw [hpending, List.mem_append] at hn
    refine hn.imp_right (fun hn => ?_)
    split at hn
    next heq => exact ⟨heq, hn⟩
    next => cases hn
  have hlocked : s'.db.Protected RowWrite.apply attemptKeys := by
    rw [hdb]
    refine hkeyed.locked.write (fun k hk w' hw' => ?_)
    obtain rfl := List.mem_singleton.mp hw'
    refine RowWrite.attemptKeys_apply_of_ne (fun row hrow' heq => hk ?_)
    rw [← heq, (hrow row hrow').1]
    exact h.held
  have hother (j : ℕ) (hne : j ≠ i) : Stable j s s' :=
    ⟨hguar.others j hne, hdb ▸ Database.relies_write hne, fun _ hs => hcommitted ▸ hs,
      fun k hk => hholder ▸ hk⟩
  refine ⟨⟨hinv', ?_⟩, hother, ⟨hown, ?_, hcommitted ▸ h.swap⟩⟩
  · exact {
      locked := hlocked
      nodup := hcommitted ▸ hkeyed.nodup
      used := fun n hn => Nat.lt_of_lt_of_le (hkeyed.used n (hcommitted ▸ hn)) hnext
      pendingNodup := fun j => by
        rw [hpending]
        split
        · refine List.nodup_append.mpr ⟨hkeyed.pendingNodup j, ?_, fun n hn m hm heq => ?_⟩
          · rcases hid with ⟨hnone, -⟩ | ⟨hone, -⟩
            · rw [hnone]; exact List.nodup_nil
            · rw [hone]; exact List.nodup_singleton _
          · exact absurd (hkeyed.pendingUsed j n hn) (by have := (hnew m hm).1; omega)
        · rw [List.append_nil]
          exact hkeyed.pendingNodup j
      pendingUsed := fun j n hn => by
        rcases hmem hn with hn | ⟨-, hn⟩
        · exact Nat.lt_of_lt_of_le (hkeyed.pendingUsed j n hn) hnext
        · exact (hnew n hn).2
      pendingFresh := fun j n hn => by
        rw [hcommitted]
        rcases hmem hn with hn | ⟨-, hn⟩
        · exact hkeyed.pendingFresh j n hn
        · exact fun hused => absurd (hkeyed.used n hused) (by have := (hnew n hn).1; omega)
      pendingOnce := fun j j' n hn hn' => by
        have hlt {j : ℕ} (hn : n ∈ RowWrite.insertedIds (s.db.pending j)) :
            n ∉ RowWrite.insertedIds [w] := fun hw =>
          absurd (hkeyed.pendingUsed j n hn) (by have := (hnew n hw).1; omega)
        rcases hmem hn with hn | ⟨rfl, hn⟩ <;> rcases hmem hn' with hn' | ⟨rfl, hn'⟩
        · exact hkeyed.pendingOnce j j' n hn hn'
        · exact absurd hn' (hlt hn)
        · exact absurd hn (hlt hn')
        · rfl
      called := fun r hr => hcalls ▸ hkeyed.called r (hcommitted ▸ hr)
      pendingCalled := fun j w' hw' row hrow' => by
        rw [hcalls]
        rw [hdb] at hw'
        have hw' : w' ∈ if j = i then s.db.pending i ++ [w] else s.db.pending j := hw'
        split at hw'
        next =>
          rcases List.mem_append.mp hw' with hw' | hw'
          · exact hkeyed.pendingCalled i w' hw' row hrow'
          · obtain rfl := List.mem_singleton.mp hw'
            exact (hrow row hrow').2
        next => exact hkeyed.pendingCalled j w' hw' row hrow'
      holders := fun k j hk => hcalls ▸ hkeyed.holders k j (hholder ▸ hk) }
  · exact (congrArg (attemptKeys hash) hcommitted).trans h.keys

/-- Attempts that writes leave were asked for. -/
theorem called_of_applyAll {t : StoredTables}
    (h : ∀ r ∈ t.paymentAttempts, Called calls r.row)
    (hws : ∀ w ∈ ws, ∀ row ∈ w.inserted, Called calls row) :
    ∀ r ∈ (applyAll ws t).paymentAttempts, Called calls r.row := by
  induction ws generalizing t with
  | nil => exact h
  | cons w ws ih =>
    rw [List.forall_mem_cons] at hws
    refine ih (fun r hr => ?_) hws.2
    have hmem : (r.row.swapPaymentHash, r.row.label) ∈
        (w.apply t).paymentAttempts.map (fun r => (r.row.swapPaymentHash, r.row.label)) :=
      List.mem_map_of_mem (f := fun r : Stored PaymentAttemptRow =>
        (r.row.swapPaymentHash, r.row.label)) hr
    rw [RowWrite.map_paymentAttempts (fun row => (row.swapPaymentHash, row.label))
      (fun _ _ _ => rfl), List.mem_append] at hmem
    have hcalled {row : PaymentAttemptRow} (hrow : Called calls row)
        (heq : (row.swapPaymentHash, row.label) = (r.row.swapPaymentHash, r.row.label)) :
        Called calls r.row := by
      obtain ⟨a, ha, hhash, hlabel⟩ := hrow
      obtain ⟨hhash', hlabel'⟩ := Prod.mk.inj heq
      exact ⟨a, ha, hhash' ▸ hhash, hlabel' ▸ hlabel⟩
    rcases hmem with hmem | hmem
    · obtain ⟨r', hr', heq⟩ := List.mem_map.mp hmem
      exact hcalled (h r' hr') heq
    · obtain ⟨row, hrow, heq⟩ := List.mem_map.mp hmem
      exact hcalled (hws.1 row (Option.mem_toList.mp hrow)) heq

/-- What a transaction sees when it commits. -/
theorem Working.sees (h : Working i call hash ls keys ws s) (hkeyed : Keyed s) :
    Sees hash ls keys ws s.calls s.db.committed where
  locks := h.found
  keys := h.keys
  swap := h.swap
  nodup := hkeyed.nodup
  fresh := fun n hn => hkeyed.pendingFresh i n (by rw [h.pending]; exact hn)
  called := hkeyed.called

/-- **A commit** comes to the call. -/
theorem Serving.commit (h : Serving i call s) (hinv : Inv s ∧ Keyed s) :
    (Inv { s with db := s.db.commit RowWrite.apply i } ∧
      Keyed { s with db := s.db.commit RowWrite.apply i }) ∧
    (∀ j, j ≠ i → Stable j s { s with db := s.db.commit RowWrite.apply i }) ∧
    Comes i call .commit s { s with db := s.db.commit RowWrite.apply i } := by
  obtain ⟨hash, ls, keys, ws, hworking, hkeeps, hcomes⟩ := h
  obtain ⟨hinv', hguar⟩ := Ready.commit ⟨hash, ls, ws, hworking.toOwning, hkeeps⟩ hinv.1
  have hkeyed := hinv.2
  have hcommitted : (s.db.commit RowWrite.apply i).committed = applyAll ws s.db.committed := by
    show applyAll (s.db.pending i) s.db.committed = _
    rw [hworking.pending]
  have hids : attemptIds (s.db.commit RowWrite.apply i).committed =
      attemptIds s.db.committed ++ RowWrite.insertedIds (s.db.pending i) := by
    rw [hcommitted, attemptIds_applyAll, hworking.pending]
  have hpending {j : ℕ} {w : RowWrite} (hw : w ∈ (s.db.commit RowWrite.apply i).pending j) :
      j ≠ i ∧ w ∈ s.db.pending j := by
    have hw : w ∈ if j = i then [] else s.db.pending j := hw
    split at hw
    next => cases hw
    next hne => exact ⟨hne, hw⟩
  have hinserted {j n : ℕ}
      (hn : n ∈ RowWrite.insertedIds ((s.db.commit RowWrite.apply i).pending j)) :
      j ≠ i ∧ n ∈ RowWrite.insertedIds (s.db.pending j) := by
    obtain ⟨w, hw, hid⟩ := List.mem_filterMap.mp hn
    exact ⟨(hpending hw).1, List.mem_filterMap.mpr ⟨w, (hpending hw).2, hid⟩⟩
  have hholder {k : PaymentHash} {j : ℕ}
      (hk : (s.db.commit RowWrite.apply i).holder k = some j) : s.db.holder k = some j := by
    have hk : (if s.db.holder k = some i then none else s.db.holder k) = some j := hk
    split at hk
    · cases hk
    · exact hk
  refine ⟨⟨hinv', ?_⟩, fun j hne => ⟨hguar.others j hne, hkeyed.locked.relies_commit hne, ?_,
    fun k hk => hholder hk⟩, Or.inr ⟨rfl, fun hlabels => ?_⟩⟩
  · exact {
      locked := hkeyed.locked.commit
      nodup := by
        show (attemptIds (s.db.commit RowWrite.apply i).committed).Nodup
        rw [hids]
        refine List.nodup_append.mpr ⟨hkeyed.nodup, hkeyed.pendingNodup i, fun n hn m hm heq => ?_⟩
        exact hkeyed.pendingFresh i m hm (heq ▸ hn)
      used := fun n hn => by
        have hn : n ∈ attemptIds (s.db.commit RowWrite.apply i).committed := hn
        rw [hids, List.mem_append] at hn
        exact hn.elim (hkeyed.used n) (hkeyed.pendingUsed i n)
      pendingNodup := fun j => by
        show (RowWrite.insertedIds (if j = i then [] else s.db.pending j)).Nodup
        split
        · exact List.nodup_nil
        · exact hkeyed.pendingNodup j
      pendingUsed := fun j n hn => hkeyed.pendingUsed j n (hinserted hn).2
      pendingFresh := fun j n hn hmem => by
        have hmem : n ∈ attemptIds (s.db.commit RowWrite.apply i).committed := hmem
        rw [hids, List.mem_append] at hmem
        obtain ⟨hne, hn⟩ := hinserted hn
        rcases hmem with hmem | hmem
        · exact hkeyed.pendingFresh j n hn hmem
        · exact hne (hkeyed.pendingOnce j i n hn hmem)
      pendingOnce := fun j j' n hn hn' =>
        hkeyed.pendingOnce j j' n (hinserted hn).2 (hinserted hn').2
      called := fun r hr => by
        have hr : r ∈ (s.db.commit RowWrite.apply i).committed.paymentAttempts := hr
        rw [hcommitted] at hr
        exact called_of_applyAll hkeyed.called
          (fun w hw => hkeyed.pendingCalled i w (hworking.pending ▸ hw)) r hr
      pendingCalled := fun j w hw => hkeyed.pendingCalled j w (hpending hw).2
      holders := fun k j hk => hkeyed.holders k j (hholder hk) }
  · intro hash' hs
    show ∃ row ∈ (s.db.commit RowWrite.apply i).committed.swaps, row.swap.pub.hash = hash'
    rw [hcommitted]
    have hmem : hash' ∈ (applyAll ws s.db.committed).swaps.map (fun s => s.swap.pub.hash) := by
      rw [hashes_applyAll]
      obtain ⟨row, hrow, rfl⟩ := hs
      exact List.mem_map_of_mem (f := fun s : SwapState => s.swap.pub.hash) hrow
    obtain ⟨row, hrow, hhash⟩ := List.mem_map.mp hmem
    exact ⟨row, hrow, hhash⟩
  · show call.Does _ (s.db.commit RowWrite.apply i).committed.toRows
    rw [hcommitted]
    exact hcomes s.calls List.prefix_rfl hlabels _ (hworking.sees hkeyed)

/-- **A transaction is dropped.** -/
theorem drop_serially (hinv : Inv s ∧ Keyed s) (hlt : i < s.calls.length) :
    (Inv { s with db := s.db.drop i } ∧ Keyed { s with db := s.db.drop i }) ∧
      ∀ j, j ≠ i → Stable j s { s with db := s.db.drop i } := by
  obtain ⟨hinv', hguar⟩ := hinv.1.drop hlt
  exact ⟨⟨hinv', hinv.2.of_eq rfl rfl rfl List.prefix_rfl hinv.2.locked.drop hinv.2.holders⟩,
    fun j hne => ⟨hguar.others j hne, Database.relies_drop hne, fun _ hs => hs, fun _ hk => hk⟩⟩

/-! ## The transactions -/

namespace Serially

open Prog

variable {α : Type} {R : α → State LockCall → Prop}

/-- An early end. -/
theorem safe_error {e : LockSwapError} (h : Running i call ws s) :
    serially.Safe i call (Ends i call R) (.ret (.error e)) s :=
  Discipline.Safe.ret (fun _ hr _ => ⟨ws, h.of_relied hr.toRelied⟩)

/-- **A statement, and what follows it.** -/
theorem safe_execute {P : State LockCall → Prop} {c : Statement} {f : c.Value → Tx α} (hP : P s)
    (hstable : ∀ s s', P s → Stable i s s' → P s') (hruns : ∀ s, P s → ∃ ws, Running i call ws s)
    (hfail : ∀ s : State LockCall, fail i s c = s)
    (hfree : ∀ s, P s → ∀ hash, c = .lockSwapForUpdate hash → ∀ k, s.db.holder k ≠ some i)
    (h : ∀ s v s', P s → Inv s ∧ Keyed s → answer i s c = some (v, s') →
      (Inv s' ∧ Keyed s') ∧ (∀ j, j ≠ i → Stable j s s') ∧ Comes i call c s s' ∧
        serially.Safe i call (Ends i call R) (f v).run s') :
    serially.Safe i call (Ends i call R) (execute c >>= f).run s := by
  refine Discipline.Safe.call_of_stable hP (fun s s' hP hr _ => hstable s s' hP hr)
    (fun s' hP' hinv _ fate r s'' hserve => ?_)
  have hserve : serve i c fate s' = some (r, s'') := hserve
  obtain ⟨ws, hrunning⟩ := hruns s' hP'
  unfold serve at hserve
  rw [if_neg hrunning.unfinished] at hserve
  cases fate with
  | succeeds =>
    obtain ⟨⟨v, s₁⟩, hanswer, heq⟩ := Option.map_eq_some_iff.mp hserve
    obtain ⟨rfl, rfl⟩ := Prod.mk.inj heq
    obtain ⟨hinv', hothers, hcomes, hsafe⟩ := h s' v s₁ hP' hinv hanswer
    exact ⟨hinv', ⟨hothers, hcomes, hfree s' hP'⟩, hsafe⟩
  | fails =>
    obtain ⟨rfl, rfl⟩ := Prod.mk.inj (Option.some.inj hserve)
    rw [hfail]
    exact ⟨hinv, ⟨fun j _ => .refl j s', comes_rfl hrunning.unfinished, hfree s' hP'⟩,
      safe_error hrunning⟩

/-- **The row lock**, and what follows it. -/
theorem safe_lockSwapForUpdate {f : Unit → Tx α} (hbegun : Begun i call s)
    (h : ∀ ls keys s, Working i call hash ls keys [] s →
      serially.Safe i call (Ends i call R) (f ()).run s) :
    serially.Safe i call (Ends i call R) (lockSwapForUpdate hash >>= f).run s := by
  rw [lockSwapForUpdate, bind_assoc]
  refine safe_execute hbegun (fun _ _ h hs => h.of_stable hs) (fun _ h => ⟨_, h.toRunning⟩)
    (fun _ => rfl) (fun _ h _ _ => h.free) (fun s v s' hbegun hinv hanswer => ?_)
  simp only [answer] at hanswer
  split at hanswer
  next hany =>
    obtain ⟨db, hdb, heq⟩ := Option.map_eq_some_iff.mp hanswer
    obtain ⟨rfl, rfl⟩ := Prod.mk.inj heq
    have hswap : ∃ row ∈ s.db.committed.swaps, row.swap.pub.hash = hash := by
      simpa [State.rows, hbegun.visible_eq] using hany
    obtain ⟨hinv', hothers, hworking⟩ := hbegun.acquire hinv hswap hdb
    exact ⟨hinv', hothers, Or.inl ⟨(Database.acquire_eq_some hdb).1,
      fun hended => absurd hended hworking.unfinished⟩, h _ _ _ hworking⟩
  next =>
    obtain ⟨rfl, rfl⟩ := Prod.mk.inj (Option.some.inj hanswer)
    exact ⟨hinv, fun j _ => .refl j s, comes_rfl hbegun.unfinished, safe_error hbegun.toRunning⟩

/-- **A statement that writes**, and what follows it. -/
theorem safe_write {c : Statement} {f : c.Value → Tx α}
    (hworking : Working i call hash ls keys ws s)
    (hfail : ∀ s : State LockCall, fail i s c = s) (hlock : ∀ k, c ≠ .lockSwapForUpdate k)
    (h : ∀ s v s', Working i call hash ls keys ws s → Keyed s → answer i s c = some (v, s') →
      ∃ w, s'.db = s.db.write i [w] ∧ s'.calls = s.calls ∧ w.Concerns i hash ∧
        (∀ row ∈ w.inserted, row.swapPaymentHash = hash ∧ Called s.calls row) ∧
        (RowWrite.insertedIds [w] = [] ∧ s'.nextAttemptId = s.nextAttemptId ∨
          RowWrite.insertedIds [w] = [s.nextAttemptId] ∧
            s'.nextAttemptId = s.nextAttemptId + 1) ∧
        (Working i call hash ls keys (ws ++ [w]) s' →
          serially.Safe i call (Ends i call R) (f v).run s')) :
    serially.Safe i call (Ends i call R) (execute c >>= f).run s := by
  refine safe_execute hworking (fun _ _ h hs => h.of_stable hs) (fun _ h => ⟨_, h.toRunning⟩)
    hfail (fun _ _ k hc => absurd hc (hlock k)) (fun s v s' hworking hinv hanswer => ?_)
  obtain ⟨w, hdb, hcalls, hw, hrow, hid, hrest⟩ := h s v s' hworking hinv.2 hanswer
  obtain ⟨hinv', hothers, hworking'⟩ := hworking.write hinv hw hdb hcalls hrow hid
  refine ⟨hinv', hothers, Or.inl ⟨?_, fun hended => absurd hended hworking'.unfinished⟩,
    hrest hworking'⟩
  rw [hdb]
  rfl

/-- **The last write of a transaction**, after which it may commit. -/
theorem safe_lastWrite {c : Statement} (hworking : Working i call hash ls keys ws s)
    (hfail : ∀ s : State LockCall, fail i s c = s) (hlock : ∀ k, c ≠ .lockSwapForUpdate k)
    (h : ∀ s v s', Working i call hash ls keys ws s → Keyed s → answer i s c = some (v, s') →
      ∃ w, s'.db = s.db.write i [w] ∧ s'.calls = s.calls ∧
        s'.nextAttemptId = s.nextAttemptId ∧ w.Concerns i hash ∧ w.inserted = none ∧
        Keeps i call hash ls (ws ++ [w]) ∧
        ∀ calls, s.calls <+: calls → ComesTo call hash ls keys (ws ++ [w]) calls) :
    serially.Safe i call (Ends i call (fun _ => Serving i call)) (execute c).run s := by
  rw [← bind_pure (execute c)]
  refine safe_write hworking hfail hlock (fun s v s' hworking hkeyed hanswer => ?_)
  obtain ⟨w, hdb, hcalls, hnext, hw, hnone, hkeeps, hcomes⟩ := h s v s' hworking hkeyed hanswer
  refine ⟨w, hdb, hcalls, hw, fun row hrow => ?_, Or.inl ⟨?_, hnext⟩, fun hworking' => ?_⟩
  · rw [hnone] at hrow
    cases hrow
  · rw [RowWrite.insertedIds_cons, hnone]
    rfl
  · refine Discipline.Safe.ret (fun s'' hs _ => Serving.of_stable ?_ hs)
    exact ⟨hash, ls, keys, _, hworking', hkeeps, hcalls ▸ hcomes⟩

/-- A transaction that may commit commits, or fails. -/
theorem safe_commit (h : Serving i call s) :
    serially.Safe i call (Ends i call (fun _ _ => True)) (execute .commit).run s := by
  rw [← bind_pure (execute .commit)]
  refine safe_execute h (fun _ _ h hs => h.of_stable hs)
    (fun _ ⟨_, _, _, ws, hworking, _⟩ => ⟨ws, hworking.toRunning⟩) (fun _ => rfl)
    (fun _ _ _ hc => nomatch hc) (fun s v s' hserving hinv hanswer => ?_)
  obtain ⟨rfl, rfl⟩ := Prod.mk.inj (Option.some.inj hanswer)
  obtain ⟨hinv', hothers, hcomes⟩ := hserving.commit hinv
  exact ⟨hinv', hothers, hcomes, Discipline.Safe.ret (fun _ _ _ => trivial)⟩

/-- A call that has ended. -/
theorem safe_over {o : Except LockSwapError Unit} :
    serially.Safe i call (fun _ _ => True) (.ret o) s :=
  Discipline.Safe.ret (fun _ _ _ => trivial)

/-- **A transaction**, whose body makes it ready to commit. -/
theorem safe_transaction {body : Tx Unit} (hbegun : Begun i call s)
    (hbody : ∀ s, Begun i call s →
      serially.Safe i call (Ends i call (fun _ => Serving i call)) body.run s) :
    serially.Safe i call (fun _ _ => True) (transaction body).run s := by
  have hfree {c : Statement} {s : State LockCall} (hlock : ∀ k, c ≠ .lockSwapForUpdate k) :
      ∀ hash, c = .lockSwapForUpdate hash → ∀ k, s.db.holder k ≠ some i :=
    fun k hc => absurd hc (hlock k)
  refine Discipline.Safe.call_of_stable hbegun (fun _ _ h hs _ => h.of_stable hs)
    (fun s' hbegun hinv _ fate r s'' hserve => ?_)
  have hserve : serve i .begin fate s' = some (r, s'') := hserve
  unfold serve at hserve
  rw [if_neg hbegun.unfinished] at hserve
  cases fate with
  | fails =>
    obtain ⟨rfl, rfl⟩ := Prod.mk.inj (Option.some.inj hserve)
    obtain ⟨hinv', hothers⟩ := drop_serially hinv hbegun.lt
    exact ⟨hinv', ⟨hothers, Or.inl ⟨rfl, nofun⟩, hfree nofun⟩, safe_over⟩
  | succeeds =>
    obtain ⟨rfl, rfl⟩ := Prod.mk.inj (Option.some.inj hserve)
    refine ⟨hinv, ⟨fun j _ => .refl j _, comes_rfl hbegun.unfinished, hfree nofun⟩,
      Discipline.Safe.tryCatch serially_stable ?_ hinv⟩
    -- The body and the commit; what is left after an error is to drop the transaction.
    have hcommitted : serially.Safe i call (Ends i call (fun _ _ => True))
        (body >>= fun _ => execute .commit).run s' := by
      refine Discipline.Safe.tryBind serially_stable ((hbody s' hbegun).mono ?_) hinv
      rintro (e | ⟨⟩) s₁ _ ho
      · obtain ⟨ws, ho⟩ := ho
        exact safe_error ho
      · exact safe_commit ho
    refine hcommitted.mono ?_
    rintro (e | ⟨⟩) s₁ _ ho
    · obtain ⟨ws, hrunning⟩ := ho
      refine Discipline.Safe.call_of_stable hrunning (fun _ _ h hs _ => h.of_relied hs.toRelied)
        (fun s₂ hrunning hinv _ fate r s₃ hserve => ?_)
      have hserve : serve i .drop fate s₂ = some (r, s₃) := hserve
      unfold serve at hserve
      rw [if_neg hrunning.unfinished] at hserve
      obtain ⟨hinv', hothers⟩ := drop_serially hinv hrunning.lt
      have hs₃ : s₃ = { s₂ with db := s₂.db.drop i } := by
        cases fate with
        | succeeds => exact (Prod.mk.inj (Option.some.inj hserve)).2.symm
        | fails => exact (Prod.mk.inj (Option.some.inj hserve)).2.symm
      rw [hs₃]
      exact ⟨hinv', ⟨hothers, Or.inl ⟨rfl, nofun⟩, hfree nofun⟩, safe_over⟩
    · exact fun _ _ _ => trivial

/-- **A count**, and what follows it. -/
theorem safe_count {c : Statement} {f : c.Value → Tx α} (hworking : Working i call hash ls keys ws s)
    (hfail : ∀ s : State LockCall, fail i s c = s) (hlock : ∀ k, c ≠ .lockSwapForUpdate k)
    (h : ∀ s v s', Working i call hash ls keys ws s → answer i s c = some (v, s') →
      s' = s ∧ serially.Safe i call (Ends i call R) (f v).run s) :
    serially.Safe i call (Ends i call R) (execute c >>= f).run s := by
  refine safe_execute hworking (fun _ _ h hs => h.of_stable hs) (fun _ h => ⟨_, h.toRunning⟩)
    hfail (fun _ _ k hc => absurd hc (hlock k)) (fun s v s' hworking hinv hanswer => ?_)
  obtain ⟨rfl, hrest⟩ := h s v s' hworking hanswer
  exact ⟨hinv, fun j _ => .refl j s', comes_rfl hworking.unfinished, hrest⟩

/-! ### What they find -/

/-- The locks that are found are those found before. -/
theorem locks_eq (h : Working i call hash ls keys [] s) (lock : SwapLock) :
    s.locks i ⟨hash, lock⟩ = ls.filter (fun l => l.row.lock = ⟨hash, lock⟩) := by
  rw [State.locks, h.visible_eq, ← h.found, locksOf, List.filter_filter]
  refine List.filter_congr (fun l _ => ?_)
  by_cases hlock : l.row.lock = ⟨hash, lock⟩
  · simp [hlock]
  · simp [hlock]

/-- **The attempts that are found are those of the swap**, where labels agree. -/
theorem attemptIds_eq {label : String} {result : PaymentResult}
    (h : Working i (.unlockAddPaymentResult hash label result) hash ls keys ws s)
    (hkeyed : Keyed s) (hlabels : LabelsAgree s.calls)
    (hws : (applyAll ws s.db.committed).paymentAttempts = s.db.committed.paymentAttempts) :
    s.attemptIds i label = labelIds keys label := by
  have hcall : .unlockAddPaymentResult hash label result ∈ s.calls :=
    List.mem_of_getElem? h.called
  have hown := hlabels.own hcall (h.sees hkeyed)
  have hvisible : (s.db.visible RowWrite.apply i).paymentAttempts
      = s.db.committed.paymentAttempts := by
    rw [Database.visible, h.pending]
    exact hws
  rw [State.attemptIds, labelIds, ← h.keys, attemptKeys]
  simp only [State.rows, hvisible, List.filter_map, List.map_map, List.filter_filter]
  refine congrArg (List.map _) (List.filter_congr (fun r hr => ?_))
  by_cases hlabel : r.row.label = label
  · simp [hlabel, hown r hr hlabel]
  · simp [hlabel]

/-! ### Each of them -/

/-- **A payment attempt is added and locked for.** -/
theorem safe_lockAddPaymentAttempt {a : PaymentAttempt}
    (hbegun : Begun i (.lockAddPaymentAttempt a) s) :
    serially.Safe i (.lockAddPaymentAttempt a) (fun _ _ => True) (lockAddPaymentAttempt a).run
      s := by
  refine safe_transaction hbegun (fun s hbegun => ?_)
  refine safe_lockSwapForUpdate hbegun (fun ls keys s hworking => ?_)
  refine safe_count hworking (fun _ => rfl) nofun (fun s count s' hworking hanswer => ?_)
  obtain ⟨rfl, rfl⟩ := Prod.mk.inj (Option.some.inj hanswer)
  refine ⟨rfl, ?_⟩
  rw [hworking.countLocks_eq]
  unfold rejectIf
  split
  next => exact safe_error hworking.toRunning
  next hzero =>
    obtain rfl : ls = [] := List.length_eq_zero_iff.mp (Nat.eq_zero_of_not_pos hzero)
    refine safe_write hworking (fun _ => rfl) nofun (fun s _ s' hworking _ hanswer => ?_)
    obtain ⟨rfl, rfl⟩ := Prod.mk.inj (Option.some.inj hanswer)
    refine ⟨_, rfl, rfl, ⟨rfl, rfl⟩, nofun, Or.inl ⟨rfl, rfl⟩, fun hworking => ?_⟩
    split
    next ns hns =>
      refine safe_write hworking (fun _ => rfl) nofun (fun s _ s' hworking _ hanswer => ?_)
      obtain ⟨rfl, rfl⟩ := Prod.mk.inj (Option.some.inj hanswer)
      refine ⟨_, rfl, rfl, rfl, fun row hrow => ?_, Or.inr ⟨rfl, rfl⟩, fun hworking => ?_⟩
      · obtain rfl := Option.some.inj hrow
        exact ⟨rfl, a, List.mem_of_getElem? hworking.called, rfl, rfl⟩
      refine safe_lastWrite hworking (fun _ => rfl) nofun (fun s _ s' _ _ hanswer => ?_)
      obtain ⟨rfl, rfl⟩ := Prod.mk.inj (Option.some.inj hanswer)
      refine ⟨_, rfl, rfl, rfl, fun r hr => ?_, rfl, keeps_payment hns,
        fun _ _ => comesTo_lockAddPaymentAttempt hns⟩
      obtain ⟨o, -, rfl⟩ := List.mem_map.mp hr
      rfl
    next => exact safe_error hworking.toRunning

/-- **A refund is locked for.** -/
theorem safe_lockSwapRefund {refundId : String}
    (hbegun : Begun i (.lockSwapRefund hash refundId) s) :
    serially.Safe i (.lockSwapRefund hash refundId) (fun _ _ => True)
      (lockSwapRefund hash refundId).run s := by
  refine safe_transaction hbegun (fun s hbegun => ?_)
  refine safe_lockSwapForUpdate hbegun (fun ls keys s hworking => ?_)
  refine safe_count hworking (fun _ => rfl) nofun (fun s count s' hworking hanswer => ?_)
  obtain ⟨rfl, rfl⟩ := Prod.mk.inj (Option.some.inj hanswer)
  refine ⟨rfl, ?_⟩
  rw [hworking.countPaymentLocks_eq]
  unfold rejectIf
  split
  next => exact safe_error hworking.toRunning
  next hzero =>
    have hnone : ∀ l ∈ ls, l.isPayment = false := by
      have := List.countP_eq_zero.mp (Nat.eq_zero_of_not_pos hzero)
      exact fun l hl => Bool.eq_false_iff.mpr (this l hl)
    refine safe_lastWrite hworking (fun _ => rfl) nofun (fun s _ s' _ _ hanswer => ?_)
    obtain ⟨rfl, rfl⟩ := Prod.mk.inj (Option.some.inj hanswer)
    exact ⟨_, rfl, rfl, rfl, ⟨rfl, rfl⟩, rfl, keeps_refund hnone,
      fun _ _ => comesTo_lockSwapRefund hnone⟩

/-- **The result of a payment is added, and its lock is released.** -/
theorem safe_unlockAddPaymentResult {label : String} {result : PaymentResult}
    (hbegun : Begun i (.unlockAddPaymentResult hash label result) s) :
    serially.Safe i (.unlockAddPaymentResult hash label result) (fun _ _ => True)
      (unlockAddPaymentResult hash label result).run s := by
  refine safe_transaction hbegun (fun s hbegun => ?_)
  refine safe_lockSwapForUpdate hbegun (fun ls keys s hworking => ?_)
  refine safe_write hworking (fun _ => rfl) nofun (fun s _ s' hworking _ hanswer => ?_)
  obtain ⟨rfl, rfl⟩ := Prod.mk.inj (Option.some.inj hanswer)
  refine ⟨_, rfl, rfl, concerns_deleteLocks, nofun, Or.inl ⟨rfl, rfl⟩, ?_⟩
  rw [locks_eq hworking]
  intro hworking
  cases result with
  | success preimage =>
    refine safe_write hworking (fun _ => rfl) nofun (fun s _ s' hworking _ hanswer => ?_)
    obtain ⟨rfl, rfl⟩ := Prod.mk.inj (Option.some.inj hanswer)
    refine ⟨_, rfl, rfl, trivial, nofun, Or.inl ⟨rfl, rfl⟩, fun hworking => ?_⟩
    refine safe_lastWrite hworking (fun _ => rfl) nofun (fun s _ s' hworking hkeyed hanswer => ?_)
    obtain ⟨rfl, rfl⟩ := Prod.mk.inj (Option.some.inj hanswer)
    refine ⟨_, rfl, rfl, rfl, rfl, rfl, keeps_of_filter (fun t => ⟨_, List.filter_comm _ _ _⟩),
      fun calls hcalls hlabels => ?_⟩
    rw [attemptIds_eq hworking hkeyed (hlabels.of_calls hcalls) rfl]
    exact comesTo_success (hcalls.subset (List.mem_of_getElem? hworking.called)) hlabels
  | failure error =>
    refine safe_lastWrite hworking (fun _ => rfl) nofun (fun s _ s' hworking hkeyed hanswer => ?_)
    obtain ⟨rfl, rfl⟩ := Prod.mk.inj (Option.some.inj hanswer)
    refine ⟨_, rfl, rfl, rfl, rfl, rfl, keeps_of_filter (fun t => ⟨_, List.filter_comm _ _ _⟩),
      fun calls hcalls hlabels => ?_⟩
    rw [attemptIds_eq hworking hkeyed (hlabels.of_calls hcalls) rfl]
    exact comesTo_failure (hcalls.subset (List.mem_of_getElem? hworking.called)) hlabels

/-- **The lock of a refund is released.** -/
theorem safe_unlockSwapRefund {refundId : String}
    (hbegun : Begun i (.unlockSwapRefund hash refundId) s) :
    serially.Safe i (.unlockSwapRefund hash refundId) (fun _ _ => True)
      (unlockSwapRefund hash refundId).run s := by
  refine safe_transaction hbegun (fun s hbegun => ?_)
  refine safe_lockSwapForUpdate hbegun (fun ls keys s hworking => ?_)
  refine safe_lastWrite hworking (fun _ => rfl) nofun (fun s _ s' hworking _ hanswer => ?_)
  obtain ⟨rfl, rfl⟩ := Prod.mk.inj (Option.some.inj hanswer)
  refine ⟨_, rfl, rfl, rfl, concerns_deleteLocks, rfl,
    keeps_of_filter (fun t => ⟨_, List.filter_comm _ _ _⟩), fun _ _ => ?_⟩
  rw [locks_eq hworking]
  exact comesTo_unlockSwapRefund

/-- **Each call keeps the discipline.** -/
theorem safe_program (hbegun : Begun i call s) :
    serially.Safe i call (fun _ _ => True) call.program.run s := by
  cases call with
  | lockAddPaymentAttempt a => exact safe_lockAddPaymentAttempt hbegun
  | lockSwapRefund hash refundId => exact safe_lockSwapRefund hbegun
  | unlockAddPaymentResult hash label result => exact safe_unlockAddPaymentResult hbegun
  | unlockSwapRefund hash refundId => exact safe_unlockSwapRefund hbegun

end Serially

/-! ## Any number of transactions -/

/-- A call is made. -/
theorem Keyed.spawn (h : Keyed s) : Keyed { s with calls := s.calls ++ [call] } :=
  h.of_eq rfl rfl rfl (List.prefix_append _ _) h.locked (fun k j hk =>
    Nat.lt_of_lt_of_le (h.holders k j hk) (by simp))

theorem Stable.spawn (j : ℕ) (s : State LockCall) :
    Stable j s { s with calls := s.calls ++ [call] } :=
  ⟨⟨.refl s.db, id, List.prefix_append _ _⟩, .refl s.db, fun _ h => h, fun _ h => h⟩

/-- A swap is added. -/
theorem Keyed.addSwap (h : Keyed s) (swaps : List SwapState) :
    Keyed { s with db := { s.db with committed := { s.db.committed with swaps := swaps } } } :=
  ⟨h.locked, h.nodup, h.used, h.pendingNodup, h.pendingUsed, h.pendingFresh, h.pendingOnce,
    h.called, h.pendingCalled, h.holders⟩

theorem Stable.addSwap (j : ℕ) (s : State LockCall) (row : SwapState) :
    Stable j s { s with db := { s.db with
      committed := { s.db.committed with swaps := s.db.committed.swaps ++ [row] } } } :=
  ⟨.addSwap j s _, ⟨Iff.rfl, fun _ => rfl, fun _ _ h => ⟨h, rfl⟩⟩,
    fun _ ⟨row, hrow, hhash⟩ => ⟨row, List.mem_append_left _ hrow, hhash⟩, fun _ h => h⟩

/-- A transaction that is over is rolled back. -/
theorem Keyed.rollback (h : Keyed s) : Keyed { s with db := s.db.rollback i } := by
  have hpending {j : ℕ} {w : RowWrite} (hw : w ∈ (s.db.rollback i).pending j) :
      w ∈ s.db.pending j := by
    have hw : w ∈ if j = i then [] else s.db.pending j := hw
    split at hw
    · cases hw
    · exact hw
  have hinserted {j n : ℕ} (hn : n ∈ RowWrite.insertedIds ((s.db.rollback i).pending j)) :
      n ∈ RowWrite.insertedIds (s.db.pending j) := by
    obtain ⟨w, hw, hid⟩ := List.mem_filterMap.mp hn
    exact List.mem_filterMap.mpr ⟨w, hpending hw, hid⟩
  have hholder {k : PaymentHash} {j : ℕ} (hk : (s.db.rollback i).holder k = some j) :
      s.db.holder k = some j := by
    have hk : (if s.db.holder k = some i then none else s.db.holder k) = some j := hk
    split at hk
    · cases hk
    · exact hk
  exact {
    locked := h.locked.rollback
    nodup := h.nodup
    used := h.used
    pendingNodup := fun j => by
      show (RowWrite.insertedIds (if j = i then [] else s.db.pending j)).Nodup
      split
      · exact List.nodup_nil
      · exact h.pendingNodup j
    pendingUsed := fun j n hn => h.pendingUsed j n (hinserted hn)
    pendingFresh := fun j n hn => h.pendingFresh j n (hinserted hn)
    pendingOnce := fun j j' n hn hn' => h.pendingOnce j j' n (hinserted hn) (hinserted hn')
    called := h.called
    pendingCalled := fun j w hw => h.pendingCalled j w (hpending hw)
    holders := fun k j hk => h.holders k j (hholder hk) }

theorem Stable.rollback (j : ℕ) (hi : i ∈ s.db.ended) :
    Stable j s { s with db := s.db.rollback i } := by
  refine ⟨.rollback j hi,
    Database.relies_rollback (fun hopen (heq : j = i) => hopen (heq ▸ hi)), fun _ h => h, ?_⟩
  intro k hk
  have hk : (if s.db.holder k = some i then none else s.db.holder k) = some j := hk
  split at hk
  · cases hk
  · exact hk

/-- **The discipline is sound.** -/
theorem serially_sound : serially.Sound where
  toStable := serially_stable
  later_refl _ := trivial
  later_trans _ _ := trivial
  guar_rely hne _ _ hguar := hguar.1 _ hne.symm
  guar_later _ _ _ := trivial
  drift := by
    intro d s s' hinv hdrift
    cases d with
    | addSwap row =>
      simp only [machine] at hdrift
      split at hdrift
      next => cases hdrift
      next =>
        obtain rfl := Option.some.inj hdrift
        exact ⟨⟨hinv.1.addSwap _, hinv.2.addSwap _⟩, fun j _ => .addSwap j s row, trivial⟩
    | rollback i =>
      simp only [machine] at hdrift
      split at hdrift
      next hi =>
        obtain rfl := Option.some.inj hdrift
        exact ⟨⟨hinv.1.rollback hi, hinv.2.rollback⟩, fun j _ => .rollback j hi, trivial⟩
      next => cases hdrift
  spawn := by
    intro call n s t p s' hinv hspawn
    simp only [machine] at hspawn
    split at hspawn
    next hn =>
      obtain ⟨htp, rfl⟩ := Prod.mk.inj (Option.some.inj hspawn)
      obtain ⟨rfl, rfl⟩ := Prod.mk.inj htp
      obtain ⟨hpending, hopen, hnone⟩ := hinv.1.fresh n (Nat.le_of_eq hn.symm)
      have hbegun : Begun n call { s with calls := s.calls ++ [call] } := by
        refine ⟨⟨hopen, hpending, ?_, hnone⟩, fun k hk => ?_⟩
        · rw [hn]
          exact List.getElem?_concat_length
        · exact absurd (hinv.2.holders k n hk) (Nat.not_lt.mpr (Nat.le_of_eq hn.symm))
      exact ⟨⟨hinv.1.spawn, hinv.2.spawn⟩, fun j _ _ => .spawn j s, trivial,
        (Serially.safe_program hbegun).mono (fun _ _ _ _ _ _ _ => trivial)⟩
    next => cases hspawn
  halt := by
    intro i s s' hinv hhalt
    simp only [machine] at hhalt
    split at hhalt
    next hlt =>
      obtain rfl := Option.some.inj hhalt
      obtain ⟨hinv', hothers⟩ := drop_serially hinv hlt
      exact ⟨hinv', fun j _ hj => hothers j (fun heq => of_decide_eq_false hj heq.symm), trivial⟩
    next => cases hhalt

/-- What a deployment starts with is in order. -/
theorem serially_ok_of_isInitial {S : machine.Config} (h : IsInitial S) : serially.Ok S := by
  have hinv := (ok_of_isInitial h).1
  obtain ⟨hthreads, hcalls, hpending, hholder, hended, hlocks, hattempts, houtputs⟩ := h
  have hids : attemptIds S.state.db.committed = [] := by rw [attemptIds, hattempts]; rfl
  refine ⟨⟨hinv, ?_⟩, fun j T hT => ?_⟩
  · exact {
      locked := fun j k _ w hw => by
        rw [hpending] at hw
        cases hw
      nodup := hids ▸ List.nodup_nil
      used := fun n hn => by
        rw [hids] at hn
        cases hn
      pendingNodup := fun i => by
        rw [hpending]
        exact List.nodup_nil
      pendingUsed := fun i n hn => by
        rw [hpending] at hn
        cases hn
      pendingFresh := fun i n hn => by
        rw [hpending] at hn
        cases hn
      pendingOnce := fun i j n hn => by
        rw [hpending] at hn
        cases hn
      called := fun r hr => by
        rw [hattempts] at hr
        cases hr
      pendingCalled := fun i w hw => by
        rw [hpending] at hw
        cases hw
      holders := fun k j hk => by
        rw [hholder] at hk
        cases hk }
  · rw [hthreads] at hT
    cases hT

/-! ## How a call ends -/

open Prog

/-- A statement of the body of a transaction. -/
def Statement.Inner (c : Statement) : Prop := c ≠ .begin ∧ c ≠ .commit ∧ c ≠ .drop

/-- **A program that ends its transaction**: it returns when it could not begin, with
an error; when it has committed, without one; and when it has dropped the transaction. -/
inductive Ending : Prog interface (Except LockSwapError Unit) → Prop where
  | begin {k : Option Unit → Prog interface (Except LockSwapError Unit)} :
    Ending (k (some ())) → (∃ e, k none = .ret (.error e)) → Ending (.call .begin k)
  | commit {k : Option Unit → Prog interface (Except LockSwapError Unit)} :
    k (some ()) = .ret (.ok ()) → Ending (k none) → Ending (.call .commit k)
  | drop {k : Option Unit → Prog interface (Except LockSwapError Unit)} :
    (∀ r, ∃ e, k r = .ret (.error e)) → Ending (.call .drop k)
  | inner {c : Statement} {k : Option c.Value → Prog interface (Except LockSwapError Unit)} :
    c.Inner → (∀ r, Ending (k r)) → Ending (.call c k)

theorem Ending.bind {α : Type} {p : Prog interface α}
    {f : α → Prog interface (Except LockSwapError Unit)} (hp : p.OnlyCalls Statement.Inner)
    (hf : ∀ a, Ending (f a)) : Ending (p >>= f) := by
  induction p with
  | ret a => exact hf a
  | call c k ih => exact .inner hp.1 (fun r => ih r (hp.2 r))

/-- **A transaction ends.** -/
theorem ending_transaction {body : Tx Unit} (hbody : body.run.OnlyCalls Statement.Inner) :
    Ending (transaction body).run := by
  refine .begin ?_ ⟨.general, rfl⟩
  show Ending ((body >>= fun _ => execute .commit).run >>= _)
  rw [run_bind_eq, bind_assoc]
  refine Ending.bind hbody ?_
  rintro (e | ⟨⟩)
  · exact .drop (fun _ => ⟨e, rfl⟩)
  · exact .commit rfl (.drop (fun _ => ⟨.general, rfl⟩))

theorem onlyCalls_execute {P : Statement → Prop} {c : Statement} (hc : P c) :
    (execute c).run.OnlyCalls P := by
  refine ⟨hc, fun r => ?_⟩
  cases r <;> trivial

theorem onlyCalls_lockSwapForUpdate : (lockSwapForUpdate hash).run.OnlyCalls Statement.Inner := by
  refine OnlyCalls.tryBind (onlyCalls_execute ⟨nofun, nofun, nofun⟩) (fun found => ?_)
  split <;> trivial

/-- **Every call ends its transaction.** -/
theorem ending_program (call : LockCall) : Ending call.program.run := by
  cases call with
  | lockAddPaymentAttempt a =>
    refine ending_transaction (onlyCalls_lockSwapForUpdate.tryBind (fun _ => ?_))
    refine OnlyCalls.tryBind (onlyCalls_execute ⟨nofun, nofun, nofun⟩) (fun count => ?_)
    refine OnlyCalls.tryBind rejectIf_onlyCalls (fun _ => ?_)
    refine OnlyCalls.tryBind (onlyCalls_execute ⟨nofun, nofun, nofun⟩) (fun _ => ?_)
    split
    · refine OnlyCalls.tryBind (onlyCalls_execute ⟨nofun, nofun, nofun⟩) (fun id => ?_)
      exact onlyCalls_execute ⟨nofun, nofun, nofun⟩
    · trivial
  | lockSwapRefund hash refundId =>
    refine ending_transaction (onlyCalls_lockSwapForUpdate.tryBind (fun _ => ?_))
    refine OnlyCalls.tryBind (onlyCalls_execute ⟨nofun, nofun, nofun⟩) (fun count => ?_)
    refine OnlyCalls.tryBind rejectIf_onlyCalls (fun _ => ?_)
    exact onlyCalls_execute ⟨nofun, nofun, nofun⟩
  | unlockAddPaymentResult hash label result =>
    refine ending_transaction (onlyCalls_lockSwapForUpdate.tryBind (fun _ => ?_))
    refine OnlyCalls.tryBind (onlyCalls_execute ⟨nofun, nofun, nofun⟩) (fun _ => ?_)
    cases result with
    | success preimage =>
      refine OnlyCalls.tryBind (onlyCalls_execute ⟨nofun, nofun, nofun⟩) (fun _ => ?_)
      exact onlyCalls_execute ⟨nofun, nofun, nofun⟩
    | failure error => exact onlyCalls_execute ⟨nofun, nofun, nofun⟩
  | unlockSwapRefund hash refundId =>
    refine ending_transaction (onlyCalls_lockSwapForUpdate.tryBind (fun _ => ?_))
    exact onlyCalls_execute ⟨nofun, nofun, nofun⟩

/-! ## What has been committed -/

/-- **A thread and its transaction**: it is at a program that ends the transaction,
which is not over; or it is over, and so is the transaction. -/
def Kept (i : ℕ) (T : machine.Thread) (s : State LockCall) : Prop :=
  (∃ p, T.prog = some p ∧ Ending p ∧ i ∉ s.db.ended) ∨
    (∀ c k, T.prog ≠ some (.call c k)) ∧ i ∈ s.db.ended

theorem Kept.congr {T : machine.Thread} (h : Kept i T s) (hended : i ∈ s'.db.ended ↔ i ∈ s.db.ended) :
    Kept i T s' := by
  rcases h with ⟨p, hp, hending, hopen⟩ | ⟨hover, hend⟩
  · exact Or.inl ⟨p, hp, hending, mt hended.mp hopen⟩
  · exact Or.inr ⟨hover, hended.mpr hend⟩

/-- A statement of the body of a transaction does not end it. -/
theorem ended_of_answer {c : Statement} {v : c.Value} (hc : c.Inner)
    (h : answer i s c = some (v, s')) : s'.db.ended = s.db.ended := by
  cases c with
  | lockSwapForUpdate hash =>
    simp only [answer] at h
    split at h
    next =>
      obtain ⟨db, hdb, heq⟩ := Option.map_eq_some_iff.mp h
      obtain ⟨-, rfl⟩ := Prod.mk.inj heq
      exact (Database.acquire_eq_some hdb).2.2.1
    next =>
      obtain ⟨-, rfl⟩ := Prod.mk.inj (Option.some.inj h)
      rfl
  | commit => exact absurd rfl hc.2.1
  | drop => exact absurd rfl hc.2.2
  | _ =>
    obtain ⟨-, rfl⟩ := Prod.mk.inj (Option.some.inj h)
    rfl

theorem fail_of_inner {c : Statement} (hc : c.Inner) (s : State LockCall) : fail i s c = s := by
  cases c with
  | begin => exact absurd rfl hc.1
  | drop => exact absurd rfl hc.2.2
  | _ => rfl

/-- **A statement of a program that ends its transaction.** -/
theorem Ending.serve {t : LockCall} {c : Statement}
    {k : Option c.Value → Prog interface (Except LockSwapError Unit)} {fate : Fate}
    {r : Option c.Value} (hending : Ending (.call c k)) (h : serve i c fate s = some (r, s')) :
    Kept i ⟨t, some (k r)⟩ s' := by
  unfold Sql.serve at h
  split at h
  next => cases h
  next hopen =>
    cases hending with
    | begin hsome hnone =>
      cases fate with
      | succeeds =>
        obtain ⟨rfl, rfl⟩ := Prod.mk.inj (Option.some.inj h)
        exact Or.inl ⟨_, rfl, hsome, hopen⟩
      | fails =>
        obtain ⟨rfl, rfl⟩ := Prod.mk.inj (Option.some.inj h)
        obtain ⟨e, he⟩ := hnone
        exact Or.inr ⟨by rw [he]; exact nofun, List.mem_cons_self⟩
    | commit hsome hnone =>
      cases fate with
      | succeeds =>
        obtain ⟨rfl, rfl⟩ := Prod.mk.inj (Option.some.inj h)
        exact Or.inr ⟨by rw [hsome]; exact nofun, List.mem_cons_self⟩
      | fails =>
        obtain ⟨rfl, rfl⟩ := Prod.mk.inj (Option.some.inj h)
        exact Or.inl ⟨_, rfl, hnone, hopen⟩
    | drop hdrop =>
      obtain ⟨e, he⟩ := hdrop r
      refine Or.inr ⟨by rw [he]; exact nofun, ?_⟩
      cases fate with
      | succeeds =>
        obtain ⟨-, rfl⟩ := Prod.mk.inj (Option.some.inj h)
        exact List.mem_cons_self
      | fails =>
        obtain ⟨-, rfl⟩ := Prod.mk.inj (Option.some.inj h)
        exact List.mem_cons_self
    | inner hinner hrest =>
      refine Or.inl ⟨_, rfl, hrest r, ?_⟩
      cases fate with
      | succeeds =>
        obtain ⟨⟨v, s₁⟩, hanswer, heq⟩ := Option.map_eq_some_iff.mp h
        obtain ⟨-, rfl⟩ := Prod.mk.inj heq
        rwa [ended_of_answer hinner hanswer]
      | fails =>
        obtain ⟨-, rfl⟩ := Prod.mk.inj (Option.some.inj h)
        rwa [fail_of_inner hinner]

/-- The threads are as they should be. -/
def AllKept (S : machine.Config) : Prop := ∀ i T, S.threads[i]? = some T → Kept i T S.state

/-- **Each step keeps the threads as they should be.** -/
theorem AllKept.step {S S' : machine.Config} {a : machine.Action} (h : AllKept S)
    (hok : serially.Ok S) (hm : Machine.Meets serially.permits S a)
    (hs : Machine.step S a = some S') : AllKept S' := by
  have hguar := (hok.step serially_sound hm hs).2
  cases a with
  | run i fate =>
    have hothers := hguar i fate rfl
    simp only [Machine.step] at hs
    split at hs
    next t c k hT =>
      obtain ⟨⟨r, s'⟩, hserve, rfl⟩ := Option.map_eq_some_iff.mp hs
      intro j T hj
      by_cases hij : i = j
      · subst hij
        rw [List.getElem?_set_self (List.getElem?_eq_some_iff.mp hT).1] at hj
        obtain rfl := Option.some.inj hj
        rcases h i _ hT with ⟨p, hp, hending, -⟩ | ⟨hover, -⟩
        · obtain rfl := Option.some.inj hp
          exact hending.serve hserve
        · exact absurd rfl (hover c k)
      · rw [List.getElem?_set_ne hij] at hj
        exact (h j T hj).congr ((hothers t c k hT).1 j (Ne.symm hij)).db.ended
    next => cases hs
  | spawn call =>
    obtain ⟨⟨⟨t, p⟩, s'⟩, hspawn, rfl⟩ := Option.map_eq_some_iff.mp hs
    simp only [machine] at hspawn
    split at hspawn
    next hlen =>
      obtain ⟨htp, rfl⟩ := Prod.mk.inj (Option.some.inj hspawn)
      obtain ⟨rfl, rfl⟩ := Prod.mk.inj htp
      intro j T hj
      rcases Nat.lt_or_ge j S.threads.length with hlt | hge
      · rw [List.getElem?_append_left hlt] at hj
        exact h j T hj
      · rw [List.getElem?_append_right hge, List.getElem?_singleton] at hj
        split at hj
        next =>
          obtain rfl := Option.some.inj hj
          refine Or.inl ⟨_, rfl, ending_program _, (hok.1.1.fresh j ?_).2.1⟩
          exact hlen ▸ hge
        next => cases hj
    next => cases hspawn
  | halt i =>
    obtain ⟨s', hhalt, rfl⟩ := Option.map_eq_some_iff.mp hs
    simp only [machine] at hhalt
    split at hhalt
    next =>
      obtain rfl := Option.some.inj hhalt
      intro j T hj
      rw [Machine.getElem?_mapIdx_halted] at hj
      obtain ⟨T, hT, rfl⟩ := Option.map_eq_some_iff.mp hj
      by_cases hij : i = j
      · subst hij
        refine Or.inr ⟨fun c k => ?_, List.mem_cons_self⟩
        obtain ⟨t, _ | (a | ⟨c', k'⟩)⟩ := T
        · exact fun h => by cases h
        · exact fun h => by cases h
        · simp [Machine.Thread.halted]
      · have hsame : Machine.Thread.halted i j T = T := by
          obtain ⟨t, _ | (a | ⟨c', k'⟩)⟩ := T
          · rfl
          · rfl
          · simp [Machine.Thread.halted, hij]
        rw [hsame]
        exact (h j T hT).congr (List.mem_cons.trans (or_iff_right (Ne.symm hij)))
    next => cases hhalt
  | drift d =>
    obtain ⟨s', hdrift, rfl⟩ := Option.map_eq_some_iff.mp hs
    have hrely := (serially_sound.drift hok.1 hdrift).2.1
    exact fun j T hj => (h j T hj).congr (hrely j T.task).db.ended

/-- **In every state that is reached**, transactions keep the discipline, and threads
are as they should be. -/
theorem kept_of_reachable {S : machine.Config} (h : Machine.Reachable IsInitial S) :
    serially.Ok S ∧ AllKept S := by
  obtain ⟨S₀, hinit, hrun⟩ := h
  induction hrun with
  | refl =>
    refine ⟨serially_ok_of_isInitial hinit, fun i T hT => ?_⟩
    rw [hinit.1] at hT
    cases hT
  | tail _ hstep ih =>
    obtain ⟨a, hm, hs⟩ := hstep
    exact ⟨(ih.1.step serially_sound hm hs).1, ih.2.step ih.1 hm hs⟩

/-- What a statement that has failed has done. -/
theorem eq_fail_of_serve {c : Statement} {fate : Fate} (h : serve i c fate s = some (none, s')) :
    s' = fail i s c := by
  unfold serve at h
  split at h
  next => cases h
  next =>
    cases fate with
    | succeeds =>
      obtain ⟨⟨v, s₁⟩, -, heq⟩ := Option.map_eq_some_iff.mp h
      cases (Prod.mk.inj heq).1
    | fails => exact (Prod.mk.inj (Option.some.inj h)).2.symm

/-- **Only a commit makes a call return without an error.** -/
theorem Ending.eq_commit {c : Statement}
    {k : Option c.Value → Prog interface (Except LockSwapError Unit)} {r : Option c.Value}
    (h : Ending (.call c k)) (hr : k r = .ret (.ok ())) : c = .commit := by
  have hnot {p : Prog interface (Except LockSwapError Unit)} (hp : Ending p) :
      p ≠ .ret (.ok ()) := by
    cases hp <;> exact nofun
  cases h with
  | begin hsome hnone =>
    cases r with
    | none =>
      obtain ⟨e, he⟩ := hnone
      rw [he] at hr
      cases hr
    | some => exact absurd hr (hnot hsome)
  | commit => rfl
  | drop hdrop =>
    obtain ⟨e, he⟩ := hdrop r
    rw [he] at hr
    cases hr
  | inner _ hrest => exact absurd hr (hnot (hrest r))

/-- **What a step does**, to the rows that are committed, and to who has returned without
an error. -/
inductive Advances (S S' : machine.Config) : Prop where
  | call (i : ℕ) (call : LockCall) : S.task i = some call → S.result i = none →
    S'.result i = some (.ok ()) → (∀ j, j ≠ i → S'.result j = S.result j) →
    (LabelsAgree S.state.calls →
      call.Does S.state.db.committed.toRows S'.state.db.committed.toRows) → Advances S S'
  | addSwap (row : SwapState) :
    (∀ s ∈ S.state.db.committed.swaps, s.swap.pub.hash ≠ row.swap.pub.hash) →
    S'.state.db.committed
      = { S.state.db.committed with swaps := S.state.db.committed.swaps ++ [row] } →
    (∀ j, S'.result j = S.result j) → Advances S S'
  | other : S'.state.db.committed = S.state.db.committed →
    (∀ j, S'.result j = some (.ok ()) ↔ S.result j = some (.ok ())) → Advances S S'

/-- **Each step is a call, a swap that is added, or neither.** -/
theorem advances_of_step {S S' : machine.Config} {a : machine.Action} (hkept : AllKept S)
    (hok : serially.Ok S) (hm : Machine.Meets serially.permits S a)
    (hs : Machine.step S a = some S') : Advances S S' := by
  have hguar := (hok.step serially_sound hm hs).2
  cases a with
  | run i fate =>
    have hcomes := hguar i fate rfl
    simp only [Machine.step] at hs
    split at hs
    next t c k hT =>
      obtain ⟨⟨r, s'⟩, hserve, rfl⟩ := Option.map_eq_some_iff.mp hs
      have hlt : i < S.threads.length := (List.getElem?_eq_some_iff.mp hT).1
      have hnone : S.result i = none := Machine.Config.result_of_call hT
      have hothers {T : machine.Thread} (j : ℕ) (hne : j ≠ i) :
          Machine.Config.result ⟨s', S.threads.set i T⟩ j = S.result j :=
        Machine.Config.result_congr (List.getElem?_set_ne (Ne.symm hne))
      have hself {p : Prog interface (Except LockSwapError Unit)} :
          (S.threads.set i ⟨t, some p⟩)[i]? = some ⟨t, some p⟩ := List.getElem?_set_self hlt
      rcases hkept i _ hT with ⟨p, hp, hending, -⟩ | ⟨hover, -⟩
      swap
      · exact absurd rfl (hover c k)
      obtain rfl := Option.some.inj hp
      -- The thread returns without an error exactly if it has committed.
      have hother (hsame : s'.db.committed = S.state.db.committed) (hr : k r ≠ .ret (.ok ())) :
          Advances S ⟨s', S.threads.set i ⟨t, some (k r)⟩⟩ := by
        refine .other hsame (fun j => ?_)
        by_cases hne : j = i
        · subst hne
          rw [hnone]
          refine ⟨fun hresult => ?_, fun h => by cases h⟩
          obtain ⟨t', hT'⟩ := Machine.Config.result_eq_some hresult
          rw [hself] at hT'
          exact absurd (Option.some.inj (congrArg Machine.Thread.prog (Option.some.inj hT'))) hr
        · rw [hothers j hne]
      rcases (hcomes t c k hT).2.1 with ⟨hsame, hopen⟩ | ⟨rfl, hdoes⟩
      · refine hother hsame (fun hr => ?_)
        refine hopen ?_ (hending.eq_commit hr)
        rcases hending.serve (t := t) hserve with ⟨p, hp, hp', -⟩ | ⟨-, hended⟩
        · obtain rfl := Option.some.inj hp
          rw [hr] at hp'
          cases hp'
        · exact hended
      · cases hending with
        | commit hsome hfailed =>
          cases r with
          | some =>
            refine .call i t ?_ hnone ?_ hothers hdoes
            · rw [Machine.Config.task, hT]
              rfl
            · exact Machine.Config.result_of_ret (hself.trans (by rw [hsome]))
          | none =>
            refine hother (by rw [eq_fail_of_serve hserve]; rfl) (fun hr => ?_)
            rw [hr] at hfailed
            cases hfailed
        | inner hinner => exact absurd rfl hinner.2.1
    next => cases hs
  | spawn call =>
    obtain ⟨⟨⟨t, p⟩, s'⟩, hspawn, rfl⟩ := Option.map_eq_some_iff.mp hs
    simp only [machine] at hspawn
    split at hspawn
    next hlen =>
      obtain ⟨htp, rfl⟩ := Prod.mk.inj (Option.some.inj hspawn)
      obtain ⟨rfl, rfl⟩ := Prod.mk.inj htp
      refine .other rfl (fun j => Machine.Config.result_append.trans (or_iff_left ?_))
      rintro ⟨-, hp⟩
      have hp : call.program.run = .ret (.ok ()) := Option.some.inj hp
      have hending := ending_program call
      rw [hp] at hending
      cases hending
    next => cases hspawn
  | halt i =>
    obtain ⟨s', hhalt, rfl⟩ := Option.map_eq_some_iff.mp hs
    simp only [machine] at hhalt
    split at hhalt
    next =>
      obtain rfl := Option.some.inj hhalt
      exact .other rfl (fun j => by rw [Machine.Config.result_halted])
    next => cases hhalt
  | drift d =>
    obtain ⟨s', hdrift, rfl⟩ := Option.map_eq_some_iff.mp hs
    cases d with
    | addSwap row =>
      simp only [machine] at hdrift
      split at hdrift
      next => cases hdrift
      next hfresh =>
        obtain rfl := Option.some.inj hdrift
        refine .addSwap row (fun s hs heq => hfresh ?_) rfl (fun _ => rfl)
        exact List.any_eq_true.mpr ⟨s, hs, decide_eq_true heq⟩
    | rollback i =>
      simp only [machine] at hdrift
      split at hdrift
      next =>
        obtain rfl := Option.some.inj hdrift
        exact .other rfl (fun _ => Iff.rfl)
      next => cases hdrift

/-- A run goes on from what can be reached. -/
theorem reachable_of_steps {S S' : machine.Config} (h : Machine.Reachable IsInitial S)
    (hrun : Relation.ReflTransGen (Machine.StepIf (fun _ _ _ _ => True)) S S') :
    Machine.Reachable IsInitial S' := by
  obtain ⟨S₀, hinit, hrun₀⟩ := h
  exact ⟨S₀, hinit, hrun₀.trans hrun⟩

theorem calls_of_steps {S S' : machine.Config} (h : Machine.Reachable IsInitial S)
    (hrun : Relation.ReflTransGen (Machine.StepIf (fun _ _ _ _ => True)) S S') :
    S.state.calls <+: S'.state.calls :=
  ((discipline_sound.reachable (fun _ hS => ok_of_isInitial hS) h).later_of_steps
    discipline_sound hrun).2.calls

/-- A thread has the task it was made for. -/
theorem task_of_steps {S S' : machine.Config} (h : Machine.Reachable IsInitial S)
    (hrun : Relation.ReflTransGen (Machine.StepIf (fun _ _ _ _ => True)) S S')
    (htask : S.task i = some call) : S'.task i = some call := by
  have hget {S : machine.Config} (h : Machine.Reachable IsInitial S) :
      S.task i = S.state.calls[i]? := by
    rw [calls_eq h, List.getElem?_map]
    rfl
  rw [hget (reachable_of_steps h hrun)]
  exact called_of_prefix (calls_of_steps h hrun) (hget h ▸ htask)

theorem advances_of_reachable {S S' : machine.Config} (h : Machine.Reachable IsInitial S)
    (hstep : Machine.StepIf (fun _ _ _ _ => True) S S') : Advances S S' := by
  obtain ⟨hok, hkept⟩ := kept_of_reachable h
  obtain ⟨a, hm, hs⟩ := hstep
  exact advances_of_step hkept hok hm hs

/-- A call that has returned without an error has done so for good. -/
theorem Advances.result {S S' : machine.Config} (h : Advances S S')
    (hresult : S.result i = some (.ok ())) : S'.result i = some (.ok ()) := by
  cases h with
  | call j call htask hnone hself hothers hdoes =>
    by_cases hne : i = j
    · exact hne ▸ hself
    · exact (hothers i hne).trans hresult
  | addSwap row hfresh hrows hsame => exact (hsame i).trans hresult
  | other hrows hsame => exact (hsame i).mpr hresult

theorem result_of_steps {S S' : machine.Config} (h : Machine.Reachable IsInitial S)
    (hrun : Relation.ReflTransGen (Machine.StepIf (fun _ _ _ _ => True)) S S')
    (hresult : S.result i = some (.ok ())) : S'.result i = some (.ok ()) := by
  induction hrun with
  | refl => exact hresult
  | tail hrun hstep ih => exact (advances_of_reachable (reachable_of_steps h hrun) hstep).result ih

/-- **The calls that have returned without an error** in a run are done one after the
other, each in one step. -/
theorem serial_of_steps {S S' : machine.Config} (h : Machine.Reachable IsInitial S)
    (hrun : Relation.ReflTransGen (Machine.StepIf (fun _ _ _ _ => True)) S S')
    (hlabels : LabelsAgree S'.state.calls) :
    ∃ done, Serial S.state.db.committed.toRows done S'.state.db.committed.toRows ∧
      (done.map Prod.fst).Nodup ∧
      ∀ i call, (i, call) ∈ done ↔ S'.task i = some call ∧ S'.result i = some (.ok ()) ∧
        S.result i ≠ some (.ok ()) := by
  induction hrun with
  | refl =>
    exact ⟨[], .nil _, List.nodup_nil, fun i call => ⟨nofun, fun ⟨_, hresult, hnot⟩ =>
      absurd hresult hnot⟩⟩
  | @tail S₁ S₂ hrun hstep ih =>
    have hreachable := reachable_of_steps h hrun
    have hlabels₁ := hlabels.of_calls (calls_of_steps hreachable (.single hstep))
    obtain ⟨done, hserial, hnodup, hdone⟩ := ih hlabels₁
    have htask {i : ℕ} {call : LockCall} (hresult : S₁.result i = some (.ok ())) :
        S₂.task i = some call ↔ S₁.task i = some call := by
      obtain ⟨t, hT⟩ := Machine.Config.result_eq_some hresult
      have h₁ : S₁.task i = some t := by rw [Machine.Config.task, hT]; rfl
      rw [task_of_steps hreachable (.single hstep) h₁, h₁]
    -- Where nobody else has returned, the calls that are done are the same.
    have hsame (hresults : ∀ j, S₂.result j = some (.ok ()) ↔ S₁.result j = some (.ok ()))
        (i : ℕ) (call : LockCall) : (i, call) ∈ done ↔
          S₂.task i = some call ∧ S₂.result i = some (.ok ()) ∧ S.result i ≠ some (.ok ()) := by
      rw [hdone, hresults, and_left_comm, and_left_comm (a := S₂.task i = some call)]
      exact and_congr_right (fun hresult => and_congr_left' (htask hresult).symm)
    cases advances_of_reachable hreachable hstep with
    | call i call hcall hnone hself hothers hdoes =>
      refine ⟨done ++ [(i, call)], .call hserial (hdoes hlabels₁), ?_, fun j call' => ?_⟩
      · rw [List.map_append, List.nodup_append]
        refine ⟨hnodup, List.nodup_singleton _, fun n hn m hm => ?_⟩
        obtain ⟨⟨j, call'⟩, hmem, rfl⟩ := List.mem_map.mp hn
        obtain rfl := List.mem_singleton.mp hm
        rintro rfl
        have hresult := ((hdone _ call').mp hmem).2.1
        rw [hnone] at hresult
        cases hresult
      · rw [List.mem_append, List.mem_singleton, Prod.mk.injEq]
        by_cases hne : j = i
        · subst hne
          have hstart : S.result j ≠ some (.ok ()) := fun hresult => by
            have := result_of_steps h hrun hresult
            rw [hnone] at this
            cases this
          rw [hdone, hnone, task_of_steps hreachable (.single hstep) hcall]
          simp [hself, hstart, eq_comm]
        · rw [hdone, hothers j hne, and_left_comm, and_left_comm (a := S₂.task j = some call')]
          simp only [hne, false_and, or_false]
          exact and_congr_right (fun hresult => and_congr_left' (htask hresult).symm)
    | addSwap row hfresh hrows hresults =>
      refine ⟨done, ?_, hnodup, hsame (fun j => by rw [hresults])⟩
      rw [hrows]
      exact .addSwap hserial hfresh
    | other hrows hresults => exact ⟨done, hrows ▸ hserial, hnodup, hsame hresults⟩

/-- **The lock transactions are serializable**, in an order that keeps to the order in
which they happen. Take any number of them, in any state they have come to, and any
further run: statements in any order, some of which fail, calls that are abandoned, and
swaps that are added. If a label is used for the attempts of one swap only, the committed
rows are what they would be had the calls that have returned without an error in that run
been done one after the other, each in one step and each of them once – and no other
call. Those that have returned by some moment come before those that have not. -/
theorem statements_serializable {S S' S'' : machine.Config} (h : Machine.Reachable IsInitial S)
    (hrun : Relation.ReflTransGen (Machine.StepIf (fun _ _ _ _ => True)) S S')
    (hrun' : Relation.ReflTransGen (Machine.StepIf (fun _ _ _ _ => True)) S' S'')
    (hlabels : LabelsAgree S''.state.calls) :
    ∃ done done', Serial S.state.db.committed.toRows (done ++ done')
        S''.state.db.committed.toRows ∧ ((done ++ done').map Prod.fst).Nodup ∧
      (∀ i call, (i, call) ∈ done ↔ S''.task i = some call ∧ S'.result i = some (.ok ()) ∧
        S.result i ≠ some (.ok ())) ∧
      ∀ i call, (i, call) ∈ done' ↔ S''.task i = some call ∧ S''.result i = some (.ok ()) ∧
        S'.result i ≠ some (.ok ()) := by
  have h' := reachable_of_steps h hrun
  obtain ⟨done, hserial, hnodup, hdone⟩ :=
    serial_of_steps h hrun (hlabels.of_calls (calls_of_steps h' hrun'))
  obtain ⟨done', hserial', hnodup', hdone'⟩ := serial_of_steps h' hrun' hlabels
  refine ⟨done, done', hserial.trans hserial', ?_, fun i call => ?_, hdone'⟩
  · rw [List.map_append, List.nodup_append]
    refine ⟨hnodup, hnodup', fun n hn m hm heq => ?_⟩
    obtain ⟨⟨i, call⟩, hmem, rfl⟩ := List.mem_map.mp hn
    obtain ⟨⟨j, call'⟩, hmem', rfl⟩ := List.mem_map.mp hm
    obtain rfl : i = j := heq
    exact ((hdone' _ _).mp hmem').2.2 ((hdone _ _).mp hmem).2.1
  · rw [hdone]
    constructor
    · rintro ⟨htask, hrest⟩
      exact ⟨task_of_steps h' hrun' htask, hrest⟩
    · rintro ⟨htask, hresult, hrest⟩
      obtain ⟨t, hT⟩ := Machine.Config.result_eq_some hresult
      have htask' : S'.task i = some t := by rw [Machine.Config.task, hT]; rfl
      rw [task_of_steps h' hrun' htask'] at htask
      exact ⟨htask'.trans htask, hresult, hrest⟩

namespace Sample

/-- The preimage that the payment comes back with. -/
def lockPreimage : Preimage := .ofByte 7

/-- The result of the payment is added, while another refund is locked for, which waits
for it. -/
def unlockRun : List machine.Action :=
  [.spawn (.unlockAddPaymentResult lockHash lockLabel (.success lockPreimage)),
    .spawn (.lockSwapRefund lockHash "again"), .run 3 .succeeds] ++
    List.replicate 6 (.run 2 .succeeds) ++ List.replicate 4 (.run 3 .succeeds)

/-- Where that leads, after the payment has been locked for. -/
def unlockedOnce : machine.Config := Machine.after (fun _ _ _ _ => True) lockedOnce unlockRun

/-- The calls. -/
def unlockCalls : List LockCall :=
  [.lockAddPaymentAttempt lockAttempt, .lockSwapRefund lockHash "refund",
    .unlockAddPaymentResult lockHash lockLabel (.success lockPreimage),
    .lockSwapRefund lockHash "again"]

theorem unlockCalls_agree : LabelsAgree unlockCalls := by
  refine labelsAgree_of_paymentLabel (fun call hcall hash label hlabel => ?_)
  simp only [unlockCalls, List.mem_cons, List.not_mem_nil, or_false] at hcall
  rcases hcall with rfl | rfl | rfl | rfl <;> cases hlabel <;> exact ⟨_, rfl⟩

end Sample

open Sql.Sample in
set_option maxRecDepth 4000 in
theorem statements_serializable_sample :
    ∃ done done', Serial lockStart.state.db.committed.toRows (done ++ done')
        unlockedOnce.state.db.committed.toRows ∧
      (0, .lockAddPaymentAttempt lockAttempt) ∈ done ∧
      (2, .unlockAddPaymentResult lockHash lockLabel (.success lockPreimage)) ∈ done' ∧
      (3, .lockSwapRefund lockHash "again") ∈ done' ∧ ∀ call, (1, call) ∉ done ++ done' := by
  have hstart : Machine.Reachable IsInitial lockStart :=
    ⟨lockStart, ⟨rfl, rfl, rfl, rfl, rfl, rfl, rfl, rfl⟩, .refl⟩
  have hcalls : unlockedOnce.state.calls = unlockCalls := by decide
  have hlabels : LabelsAgree unlockedOnce.state.calls := hcalls ▸ unlockCalls_agree
  obtain ⟨done, done', hserial, -, hdone, hdone'⟩ := statements_serializable hstart
    (Machine.reflTransGen_after _ lockRun) (Machine.reflTransGen_after _ unlockRun) hlabels
  refine ⟨done, done', hserial, (hdone _ _).mpr ⟨by decide, by decide, by decide⟩,
    (hdone' _ _).mpr ⟨by decide, by decide, by decide⟩,
    (hdone' _ _).mpr ⟨by decide, by decide, by decide⟩, fun call hmem => ?_⟩
  rcases List.mem_append.mp hmem with hmem | hmem
  · exact absurd ((hdone _ _).mp hmem).2.1 (by decide)
  · exact absurd ((hdone' _ _).mp hmem).2.1 (by decide)

end Sql

end Swapd
