import Swapd.StatementExclusion

/-!
# What a transaction comes to

`SwapRepository` takes each call for one step on the tables. Here is what it takes for
the writes of a transaction to come to just that when they are applied at its commit,
whatever others have committed since they were found: nobody else has changed the
locks of the swap, nor which attempts it has (`attemptKeys`), the keys of attempts are
distinct, and a label is used for the attempts of one swap only (`LabelsAgree`).
-/

namespace Swapd

namespace Sql

/-! ## The order in which calls are done -/

/-- **A call, in one step.** -/
def LockCall.atomically : LockCall → SwapTables → Except LockSwapError SwapTables
  | .lockAddPaymentAttempt a => SwapTables.lockAddPaymentAttempt a
  | .lockSwapRefund hash refundId => SwapTables.lockSwapRefund hash refundId
  | .unlockAddPaymentResult hash label result =>
    SwapTables.unlockAddPaymentResult hash label result
  | .unlockSwapRefund hash refundId => SwapTables.unlockSwapRefund hash refundId

/-- The tables of rows. The sequence behind the keys is not among them. -/
def StoredTables.toRows (t : StoredTables) : SwapTables where
  swaps := t.swaps
  paymentAttempts := t.paymentAttempts.map (fun r => r.row)
  paymentAttemptTxOutputs := t.paymentAttemptTxOutputs.map (fun r => r.row)
  swapLocks := t.swapLocks.map (fun r => r.row.lock)
  nextAttemptId := 0

/-- **A call is done**, where the sequence gives a key that is not taken. -/
def LockCall.Does (call : LockCall) (t t' : SwapTables) : Prop :=
  ∃ n t'', (∀ row ∈ t.paymentAttempts, row.id ≠ n) ∧
    call.atomically { t with nextAttemptId := n } = .ok t'' ∧ t' = { t'' with nextAttemptId := 0 }

/-- **Calls that are done one after the other**, with the transactions they are, and
swaps that are added in between. -/
inductive Serial : SwapTables → List (ℕ × LockCall) → SwapTables → Prop where
  | nil (t : SwapTables) : Serial t [] t
  | call {t t' t'' : SwapTables} {h : List (ℕ × LockCall)} {i : ℕ} {call : LockCall} :
    Serial t h t' → call.Does t' t'' → Serial t (h ++ [(i, call)]) t''
  | addSwap {t t' : SwapTables} {h : List (ℕ × LockCall)} {row : SwapState} :
    Serial t h t' → (∀ s ∈ t'.swaps, s.swap.pub.hash ≠ row.swap.pub.hash) →
      Serial t h { t' with swaps := t'.swaps ++ [row] }

theorem Serial.trans {t t' t'' : SwapTables} {h h' : List (ℕ × LockCall)} (hs : Serial t h t')
    (hs' : Serial t' h' t'') : Serial t (h ++ h') t'' := by
  induction hs' with
  | nil => rwa [List.append_nil]
  | call _ hdoes ih =>
    rw [← List.append_assoc]
    exact .call ih hdoes
  | addSwap _ hfresh ih => exact .addSwap ih hfresh

/-- The swap and the label a call is about, if it is about a label. -/
def LockCall.labelled : LockCall → Option (PaymentHash × String)
  | .lockAddPaymentAttempt a => some (a.paymentHash, a.label)
  | .unlockAddPaymentResult hash label _ => some (hash, label)
  | .lockSwapRefund _ _ | .unlockSwapRefund _ _ => none

/-- **The label of an attempt is used for its swap only.** -/
def LabelsAgree (calls : List LockCall) : Prop :=
  ∀ a, .lockAddPaymentAttempt a ∈ calls → ∀ call ∈ calls, ∀ hash,
    call.labelled = some (hash, a.label) → hash = a.paymentHash

theorem LabelsAgree.of_calls {calls calls' : List LockCall} (h : LabelsAgree calls')
    (hcalls : calls <+: calls') : LabelsAgree calls :=
  fun a ha call hcall => h a (hcalls.subset ha) call (hcalls.subset hcall)

/-- **The labels of payments agree**: each is of one swap. -/
theorem labelsAgree_of_paymentLabel {calls : List LockCall}
    (h : ∀ call ∈ calls, ∀ hash label, call.labelled = some (hash, label) →
      ∃ ns, label = paymentLabel hash ns) : LabelsAgree calls := by
  intro a ha call hcall hash hlabel
  obtain ⟨ns, hns⟩ := h _ ha a.paymentHash a.label rfl
  obtain ⟨ns', hns'⟩ := h call hcall hash a.label hlabel
  exact paymentLabel_hash (hns'.symm.trans hns)

/-! ## The attempts of a swap -/

/-- The keys and labels of the attempts of a swap. -/
def attemptKeys (hash : PaymentHash) (t : StoredTables) : List (ℕ × String) :=
  (t.paymentAttempts.filter (fun r => r.row.swapPaymentHash = hash)).map
    (fun r => (r.row.id, r.row.label))

/-- The keys of all attempts. -/
def attemptIds (t : StoredTables) : List ℕ := t.paymentAttempts.map (fun r => r.row.id)

namespace RowWrite

/-- The row of an attempt that is inserted. -/
def inserted : RowWrite → Option PaymentAttemptRow
  | insertAttempt r => some r.row
  | _ => none

/-- The keys of the attempts that are inserted. -/
def insertedIds (ws : List RowWrite) : List ℕ :=
  ws.filterMap (fun w => w.inserted.map (fun row => row.id))

theorem insertedIds_cons (w : RowWrite) (ws : List RowWrite) :
    insertedIds (w :: ws) = (w.inserted.map (fun row => row.id)).toList ++ insertedIds ws := by
  cases w <;> rfl

variable {w : RowWrite} {t : StoredTables} {hash k : PaymentHash}

/-- The keys, swaps and labels of attempts, after a write. -/
theorem map_paymentAttempts {α : Type} (f : PaymentAttemptRow → α)
    (hf : ∀ row success error, f (withResult success error row) = f row) (w : RowWrite)
    (t : StoredTables) :
    (w.apply t).paymentAttempts.map (fun r => f r.row)
      = t.paymentAttempts.map (fun r => f r.row) ++ w.inserted.toList.map f := by
  cases w with
  | insertAttempt r =>
    show (t.paymentAttempts ++ [r]).map _ = _
    rw [List.map_append]
    rfl
  | setResult xmin ids success error =>
    show (t.paymentAttempts.map _).map _ = _
    rw [List.map_map]
    refine (List.map_congr_left (fun r _ => ?_)).trans (List.append_nil _).symm
    show f (if _ then _ else r : Stored PaymentAttemptRow).row = f r.row
    split
    · exact hf _ _ _
    · rfl
  | _ => exact (List.append_nil _).symm

theorem attemptIds_apply (w : RowWrite) (t : StoredTables) :
    attemptIds (w.apply t) = attemptIds t ++ (w.inserted.map (fun row => row.id)).toList := by
  rw [attemptIds, attemptIds, map_paymentAttempts (fun row => row.id) (fun _ _ _ => rfl)]
  cases w.inserted <;> rfl

/-- The attempts of a swap, after a write. -/
theorem attemptKeys_apply (hash : PaymentHash) (w : RowWrite) (t : StoredTables) :
    attemptKeys hash (w.apply t) = attemptKeys hash t ++
      (w.inserted.toList.filter (fun row => row.swapPaymentHash = hash)).map
        (fun row => (row.id, row.label)) := by
  have hkeys (t : StoredTables) : attemptKeys hash t =
      ((t.paymentAttempts.map (fun r => (r.row.swapPaymentHash, r.row.id, r.row.label))).filter
        (fun x => x.1 = hash)).map Prod.snd := by
    rw [attemptKeys, List.filter_map, List.map_map]
    rfl
  rw [hkeys, hkeys, map_paymentAttempts
    (fun row => (row.swapPaymentHash, row.id, row.label)) (fun _ _ _ => rfl)]
  simp only [List.filter_append, List.map_append, List.filter_map, List.map_map]
  rfl

/-- A write that inserts no attempt of a swap leaves its attempts alone. -/
theorem attemptKeys_apply_of_ne (h : ∀ row ∈ w.inserted, row.swapPaymentHash ≠ k)
    (t : StoredTables) : attemptKeys k (w.apply t) = attemptKeys k t := by
  rw [attemptKeys_apply]
  cases hw : w.inserted with
  | none => exact List.append_nil _
  | some row =>
    have hne : row.swapPaymentHash ≠ k := h row hw
    simp [hne]

end RowWrite

variable {i j : ℕ} {hash k : PaymentHash} {w : RowWrite} {ws : List RowWrite} {t : StoredTables}
  {calls : List LockCall}

theorem attemptIds_applyAll (ws : List RowWrite) (t : StoredTables) :
    attemptIds (applyAll ws t) = attemptIds t ++ RowWrite.insertedIds ws := by
  induction ws generalizing t with
  | nil => exact (List.append_nil _).symm
  | cons w ws ih =>
    show attemptIds (applyAll ws (w.apply t)) = _
    rw [ih, RowWrite.attemptIds_apply, List.append_assoc, RowWrite.insertedIds_cons]

/-- No write removes a swap, or changes its hash. -/
theorem RowWrite.hashes_apply (w : RowWrite) (t : StoredTables) :
    (w.apply t).swaps.map (fun s => s.swap.pub.hash) = t.swaps.map (fun s => s.swap.pub.hash) := by
  cases w with
  | setPreimage hash preimage =>
    show (t.swaps.map _).map _ = _
    rw [List.map_map]
    refine List.map_congr_left (fun s _ => ?_)
    show (if _ then _ else s : SwapState).swap.pub.hash = s.swap.pub.hash
    split <;> rfl
  | _ => rfl

theorem hashes_applyAll (ws : List RowWrite) (t : StoredTables) :
    (applyAll ws t).swaps.map (fun s => s.swap.pub.hash)
      = t.swaps.map (fun s => s.swap.pub.hash) := by
  induction ws generalizing t with
  | nil => rfl
  | cons w ws ih => exact (ih (w.apply t)).trans (w.hashes_apply t)

/-! ## What a transaction has seen -/

/-- **What a transaction relies on** when it commits: the locks and attempts of the
swap, as it has found them; that the swap is there; and that keys and labels tell
attempts apart. -/
structure Sees (hash : PaymentHash) (ls : List (Stored LockRow)) (keys : List (ℕ × String))
    (ws : List RowWrite) (calls : List LockCall) (t : StoredTables) : Prop where
  locks : locksOf hash t = ls
  keys : attemptKeys hash t = keys
  swap : ∃ s ∈ t.swaps, s.swap.pub.hash = hash
  nodup : (attemptIds t).Nodup
  fresh : ∀ n ∈ RowWrite.insertedIds ws, n ∉ attemptIds t
  called : ∀ r ∈ t.paymentAttempts, ∃ a, .lockAddPaymentAttempt a ∈ calls ∧
    r.row.swapPaymentHash = a.paymentHash ∧ r.row.label = a.label

/-- **The writes of a transaction come to its call.** -/
def ComesTo (call : LockCall) (hash : PaymentHash) (ls : List (Stored LockRow))
    (keys : List (ℕ × String)) (ws : List RowWrite) (calls : List LockCall) : Prop :=
  LabelsAgree calls → ∀ t, Sees hash ls keys ws calls t →
    call.Does t.toRows (applyAll ws t).toRows

variable {ls : List (Stored LockRow)} {keys : List (ℕ × String)}

theorem Sees.hasSwap (h : Sees hash ls keys ws calls t) (n : ℕ) :
    ({ t.toRows with nextAttemptId := n } : SwapTables).HasSwap hash := h.swap

/-- The locks of a swap, as rows. -/
theorem mem_toRows_swapLocks {lock : SwapLockRow} :
    lock ∈ t.toRows.swapLocks ↔ ∃ l ∈ locksOf lock.swapPaymentHash t, l.row.lock = lock := by
  simp only [StoredTables.toRows, List.mem_map, locksOf, List.mem_filter, decide_eq_true_eq]
  constructor
  · rintro ⟨l, hl, rfl⟩
    exact ⟨l, ⟨hl, rfl⟩, rfl⟩
  · rintro ⟨l, ⟨hl, -⟩, rfl⟩
    exact ⟨l, hl, rfl⟩

/-- What is inserted is new. -/
theorem Sees.ne_of_inserted (h : Sees hash ls keys ws calls t) {n : ℕ}
    (hn : n ∈ RowWrite.insertedIds ws) : ∀ row ∈ t.toRows.paymentAttempts, row.id ≠ n := by
  intro row hrow hid
  obtain ⟨r, hr, rfl⟩ := List.mem_map.mp hrow
  exact h.fresh n hn (hid ▸ List.mem_map_of_mem hr)

/-- A key that is not taken, for a call that takes none. -/
theorem exists_fresh (t : SwapTables) : ∃ n, ∀ row ∈ t.paymentAttempts, row.id ≠ n := by
  have hbound (rows : List PaymentAttemptRow) : ∃ n, ∀ row ∈ rows, row.id < n := by
    induction rows with
    | nil => exact ⟨0, nofun⟩
    | cons row rows ih =>
      obtain ⟨n, hn⟩ := ih
      refine ⟨n + row.id + 1, List.forall_mem_cons.mpr ⟨by omega, fun r hr => ?_⟩⟩
      exact Nat.lt_of_lt_of_le (hn r hr) (by omega)
  obtain ⟨n, hn⟩ := hbound t.paymentAttempts
  exact ⟨n, fun row hrow => Nat.ne_of_lt (hn row hrow)⟩

/-- **Locking for a payment.** -/
theorem comesTo_lockAddPaymentAttempt {a : PaymentAttempt} {lockId id ns : ℕ}
    (hns : SystemTime.sinceEpoch a.creationTime = some ns) :
    ComesTo (.lockAddPaymentAttempt a) a.paymentHash [] keys
      [.insertLock ⟨i, ⟨lockId, ⟨a.paymentHash, .payment a.label⟩⟩⟩,
        .insertAttempt ⟨i, ⟨id, a.paymentHash, a.label, ns / 1000000000, a.amountMsat,
          a.paymentRequest, a.destination, none, none⟩⟩,
        .insertOutputs (a.outputs.map (fun o => ⟨i, ⟨id, o⟩⟩))] calls := by
  intro _ t h
  refine ⟨id, SwapTables.attempted a (ns / 1000000000) { t.toRows with nextAttemptId := id },
    h.ne_of_inserted List.mem_cons_self, ?_, ?_⟩
  · refine SwapTables.lockAddPaymentAttempt_eq_ok_iff.mpr ⟨h.hasSwap _, fun l hl hhash => ?_,
      ns, hns, rfl⟩
    obtain ⟨l', hl', -⟩ := mem_toRows_swapLocks.mp hl
    rw [hhash, h.locks] at hl'
    cases hl'
  · simp only [StoredTables.toRows, applyAll, Database.applyAll, RowWrite.apply, List.foldl_cons,
      List.foldl_nil, List.map_append, List.map_cons, List.map_nil, List.map_map,
      SwapTables.attempted, SwapTables.insertTxOutputs, SwapTables.insertPaymentAttempt,
      SwapTables.insertPaymentLock, Function.comp_def]

/-- **Locking for a refund.** -/
theorem comesTo_lockSwapRefund {lockId : ℕ} {refundId : String}
    (hnone : ∀ l ∈ ls, l.isPayment = false) :
    ComesTo (.lockSwapRefund hash refundId) hash ls keys
      [.insertLock ⟨i, ⟨lockId, ⟨hash, .refund refundId⟩⟩⟩] calls := by
  intro _ t h
  obtain ⟨n, hn⟩ := exists_fresh t.toRows
  refine ⟨n, SwapTables.insertRefundLock hash refundId { t.toRows with nextAttemptId := n },
    hn, ?_, ?_⟩
  · refine SwapTables.lockSwapRefund_eq_ok_iff.mpr ⟨h.hasSwap _, fun label hl => ?_, rfl⟩
    obtain ⟨l, hl, hlock⟩ := mem_toRows_swapLocks.mp hl
    have hpayment := hnone l (h.locks ▸ hl)
    rw [Stored.isPayment, hlock] at hpayment
    cases hpayment
  · simp only [StoredTables.toRows, applyAll, Database.applyAll, RowWrite.apply, List.foldl_cons,
      List.foldl_nil, List.map_append, List.map_cons, List.map_nil, SwapTables.insertRefundLock]

/-- The locks that are found are those that are deleted. -/
theorem Sees.map_deleteLocks (h : Sees hash ls keys ws calls t) (lock : SwapLock) :
    (t.swapLocks.filter (fun l => l ∉ ls.filter (fun l => l.row.lock = ⟨hash, lock⟩))).map
        (fun r => r.row.lock)
      = (t.swapLocks.map (fun r => r.row.lock)).filter (fun l => l ≠ ⟨hash, lock⟩) := by
  rw [List.filter_map]
  refine congrArg (List.map _) (List.filter_congr (fun l hl => ?_))
  have hiff : l ∈ ls.filter (fun l => l.row.lock = ⟨hash, lock⟩) ↔ l.row.lock = ⟨hash, lock⟩ := by
    rw [List.mem_filter, decide_eq_true_eq, and_iff_right_iff_imp]
    intro hlock
    rw [← h.locks, locksOf, List.mem_filter, hlock]
    exact ⟨hl, decide_eq_true rfl⟩
  simp [hiff]

/-- **Unlocking for a refund.** -/
theorem comesTo_unlockSwapRefund {refundId : String} :
    ComesTo (.unlockSwapRefund hash refundId) hash ls keys
      [.deleteLocks (ls.filter (fun l => l.row.lock = ⟨hash, .refund refundId⟩))] calls := by
  intro _ t h
  obtain ⟨n, hn⟩ := exists_fresh t.toRows
  refine ⟨n, SwapTables.deleteRefundLock hash refundId { t.toRows with nextAttemptId := n },
    hn, SwapTables.unlockSwapRefund_eq_ok_iff.mpr ⟨h.hasSwap _, rfl⟩, ?_⟩
  simp only [StoredTables.toRows, applyAll, Database.applyAll, RowWrite.apply, List.foldl_cons,
    List.foldl_nil, h.map_deleteLocks, SwapTables.deleteRefundLock]

/-- The keys of the attempts with a label. -/
def labelIds (keys : List (ℕ × String)) (label : String) : List ℕ :=
  (keys.filter (fun key => key.2 = label)).map Prod.fst

/-- **The attempts that are found are those with the label.** -/
theorem Sees.mem_labelIds (h : Sees hash ls keys ws calls t) {label : String}
    (hown : ∀ r ∈ t.paymentAttempts, r.row.label = label → r.row.swapPaymentHash = hash)
    {r : Stored PaymentAttemptRow} (hr : r ∈ t.paymentAttempts) :
    r.row.id ∈ labelIds keys label ↔ r.row.label = label := by
  simp only [labelIds, List.mem_map, List.mem_filter, decide_eq_true_eq, ← h.keys, attemptKeys]
  constructor
  · rintro ⟨_, ⟨⟨r', ⟨hr', -⟩, rfl⟩, rfl⟩, hid⟩
    rw [List.inj_on_of_nodup_map h.nodup hr' hr hid]
  · intro hlabel
    exact ⟨_, ⟨⟨r, ⟨hr, hown r hr hlabel⟩, rfl⟩, hlabel⟩, rfl⟩

/-- The results of the attempts with a label are set. -/
theorem Sees.map_setResult (h : Sees hash ls keys ws calls t) {label : String} {success : Bool}
    {error : Option String}
    (hown : ∀ r ∈ t.paymentAttempts, r.row.label = label → r.row.swapPaymentHash = hash) :
    (t.paymentAttempts.map (fun r => if r.row.id ∈ labelIds keys label then
        ⟨i, RowWrite.withResult success error r.row⟩ else r)).map (fun r => r.row)
      = (t.paymentAttempts.map (fun r => r.row)).map (fun row =>
          if row.label = label then RowWrite.withResult success error row else row) := by
  rw [List.map_map, List.map_map]
  refine List.map_congr_left (fun r hr => ?_)
  simp only [Function.comp_apply, h.mem_labelIds hown hr]
  split <;> rfl

/-- The label of a result belongs to the swap. -/
theorem LabelsAgree.own {label : String} {result : PaymentResult} (hlabels : LabelsAgree calls)
    (hcall : .unlockAddPaymentResult hash label result ∈ calls)
    (h : Sees hash ls keys ws calls t) :
    ∀ r ∈ t.paymentAttempts, r.row.label = label → r.row.swapPaymentHash = hash := by
  rintro r hr rfl
  obtain ⟨a, ha, hhash, hlabel⟩ := h.called r hr
  rw [hhash]
  exact (hlabels a ha _ hcall hash (by rw [← hlabel]; rfl)).symm

/-- **The result of a payment**, that has succeeded. -/
theorem comesTo_success {label : String} {preimage : Preimage}
    (hcall : .unlockAddPaymentResult hash label (.success preimage) ∈ calls) :
    ComesTo (.unlockAddPaymentResult hash label (.success preimage)) hash ls keys
      [.deleteLocks (ls.filter (fun l => l.row.lock = ⟨hash, .payment label⟩)),
        .setPreimage hash preimage, .setResult i (labelIds keys label) true none] calls := by
  intro hlabels t h
  obtain ⟨n, hn⟩ := exists_fresh t.toRows
  refine ⟨n, SwapTables.resulted hash label (.success preimage)
    { t.toRows with nextAttemptId := n }, hn, ?_, ?_⟩
  · unfold LockCall.atomically
    exact SwapTables.unlockAddPaymentResult_eq_ok_iff.mpr ⟨h.hasSwap n, rfl⟩
  simp only [StoredTables.toRows, applyAll, Database.applyAll, RowWrite.apply, List.foldl_cons,
    List.foldl_nil, h.map_deleteLocks, h.map_setResult (hlabels.own hcall h), SwapTables.resulted,
    SwapTables.updateSuccess, SwapTables.updatePreimage, SwapTables.deletePaymentLock]
  rfl

/-- **The result of a payment**, that has failed. -/
theorem comesTo_failure {label error : String}
    (hcall : .unlockAddPaymentResult hash label (.failure error) ∈ calls) :
    ComesTo (.unlockAddPaymentResult hash label (.failure error)) hash ls keys
      [.deleteLocks (ls.filter (fun l => l.row.lock = ⟨hash, .payment label⟩)),
        .setResult i (labelIds keys label) false (some error)] calls := by
  intro hlabels t h
  obtain ⟨n, hn⟩ := exists_fresh t.toRows
  refine ⟨n, SwapTables.resulted hash label (.failure error)
    { t.toRows with nextAttemptId := n }, hn, ?_, ?_⟩
  · unfold LockCall.atomically
    exact SwapTables.unlockAddPaymentResult_eq_ok_iff.mpr ⟨h.hasSwap n, rfl⟩
  simp only [StoredTables.toRows, applyAll, Database.applyAll, RowWrite.apply, List.foldl_cons,
    List.foldl_nil, h.map_deleteLocks, h.map_setResult (hlabels.own hcall h), SwapTables.resulted,
    SwapTables.updateFailure, SwapTables.deletePaymentLock]
  rfl

end Sql

end Swapd
