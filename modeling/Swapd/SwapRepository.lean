import Mathlib.Data.List.Nodup
import Swapd.Table
import Swapd.Types

/-!
# The swap tables

The four tables a swap lives in, and the repository calls that read and write
them. Each statement of a transaction is a function of its own, under a name
that says what the statement does, and a repository call composes the
statements in the order of its source. A call takes the row lock of its swap
first (`lockSwapForUpdate`), so calls for one swap are serialized and each of
them is one step; an error rolls the whole transaction back, which is why a
call returns tables only when it succeeds.

The lemmas say of each call exactly when it succeeds and what it then leaves
behind; nothing further on looks inside the calls again.
-/

namespace Swapd

/-- A row of `payment_attempts`. -/
structure PaymentAttemptRow where
  id : ℕ
  swapPaymentHash : PaymentHash
  label : String
  creationTime : ℕ
  amountMsat : UInt64
  paymentRequest : String
  destination : PublicKey
  success : Option Bool
  error : Option String
deriving DecidableEq

/-- A row of `payment_attempt_tx_outputs`. -/
structure PaymentAttemptTxOutputRow where
  paymentAttemptId : ℕ
  outpoint : OutPoint
deriving DecidableEq

/-- **What a swap is locked for**: a refund or a payment. The table has a
nullable column for each; every statement that inserts a row fills exactly one
of them, so the two columns are one value here. -/
inductive SwapLock where
  | refund (refundId : String)
  | payment (paymentAttemptLabel : String)
deriving DecidableEq

/-- Whether `payment_attempt_label IS NOT NULL`. -/
def SwapLock.isPayment : SwapLock → Bool
  | .refund _ => false
  | .payment _ => true

/-- A row of `swap_locks`. -/
structure SwapLockRow where
  swapPaymentHash : PaymentHash
  lock : SwapLock
deriving DecidableEq

/-- A row of the attempts, joined with one of their outputs. -/
structure JoinedAttemptRow where
  attempt : PaymentAttemptRow
  outpoint : Option OutPoint
deriving DecidableEq

/-- **What a query leaves open**: in which order rows come that it does not tell
apart, and in which order a hash map presents the values collected in it. -/
structure QueryOrder where
  rows : List ℕ
  values : List ℕ

/-- **The swap tables.** A row of `swaps` is a swap and its preimage;
`nextAttemptId` is the sequence behind the serial key of the attempts. -/
structure SwapTables where
  swaps : List SwapState
  paymentAttempts : List PaymentAttemptRow
  paymentAttemptTxOutputs : List PaymentAttemptTxOutputRow
  swapLocks : List SwapLockRow
  nextAttemptId : ℕ
deriving DecidableEq

namespace SwapTables

/-! ## Reading -/

/-- `get_swap_by_hash`. -/
def getSwapByHash (hash : PaymentHash) (db : SwapTables) :
    Except GetSwapsError SwapState :=
  match db.swaps.find? (fun s => s.swap.pub.hash = hash) with
  | some row => .ok row
  | none => .error .notFound

/-- `get_swap_by_address`. -/
def getSwapByAddress (address : Address) (db : SwapTables) :
    Except GetSwapsError SwapState :=
  match db.swaps.find? (fun s => s.swap.pub.address = address) with
  | some row => .ok row
  | none => .error .notFound

/-- A swap is entered in the map from addresses to swaps. -/
def insertByAddress (swaps : List SwapState) (s : SwapState) : List SwapState :=
  swaps.filter (fun t => t.swap.pub.address ≠ s.swap.pub.address) ++ [s]

/-- `get_swaps`: the swaps at the addresses given, one for each address. -/
def getSwaps (addresses : List Address) (db : SwapTables) : List SwapState :=
  (db.swaps.filter (fun s => s.swap.pub.address ∈ addresses)).foldl insertByAddress []

/-- The outputs recorded with an attempt. -/
def outputsOf (db : SwapTables) (id : ℕ) : List OutPoint :=
  (db.paymentAttemptTxOutputs.filter (fun o => o.paymentAttemptId = id)).map
    (fun o => o.outpoint)

/-- The rows that one attempt is joined to. -/
def joinRow (db : SwapTables) (row : PaymentAttemptRow) : List JoinedAttemptRow :=
  if db.outputsOf row.id = [] then [⟨row, none⟩]
  else (db.outputsOf row.id).map (fun o => ⟨row, some o⟩)

/-- `payment_attempts LEFT JOIN payment_attempt_tx_outputs`. -/
def joinOutputs (attempts : List PaymentAttemptRow) (db : SwapTables) :
    List JoinedAttemptRow :=
  attempts.flatMap db.joinRow

/-- `ORDER BY pa.creation_time`. -/
def orderByCreationTime (order : QueryOrder) (rows : List JoinedAttemptRow) :
    List JoinedAttemptRow :=
  Table.orderBy (fun r r' => r.attempt.creationTime ≤ r'.attempt.creationTime)
    (Table.permute order.rows rows)

/-- An attempt as it is read back from its row. -/
def readAttempt (row : PaymentAttemptRow) (outputs : List OutPoint) : PaymentAttempt where
  creationTime := row.creationTime * 1000000000
  label := row.label
  paymentHash := row.swapPaymentHash
  outputs := outputs
  amountMsat := row.amountMsat
  destination := row.destination
  paymentRequest := row.paymentRequest

/-- The entry of a label in the map that the attempts are collected in: the first
row with the label makes it, the outputs of all are pushed. -/
def collectAttempt (rows : List JoinedAttemptRow) : Option PaymentAttempt :=
  rows.head?.map (fun first =>
    readAttempt first.attempt (rows.filterMap JoinedAttemptRow.outpoint))

/-- `get_unhandled_payment_attempts`: the attempts without a result. -/
def getUnhandledPaymentAttempts (order : QueryOrder) (db : SwapTables) :
    List PaymentAttempt :=
  let rows := orderByCreationTime order
    (db.joinOutputs (db.paymentAttempts.filter (fun row => row.success = none)))
  let attempts := Table.groupByKey (fun r => r.attempt.label) rows
  Table.permute order.values (attempts.filterMap (fun g => collectAttempt g.2))

/-- The result of an attempt as it is read back. The preimage of a success is that of
the swap. -/
def readResult (preimage : Option Preimage) (row : PaymentAttemptRow) :
    Except GetPaymentAttemptsError (Option PaymentResult) :=
  match row.success with
  | some true =>
    match preimage with
    | some preimage => .ok (some (.success preimage))
    | none => .error .invalidPreimage
  | some false => .ok (some (.failure (row.error.getD "unknown error")))
  | none => .ok none

/-- The entry of a label, as for `collectAttempt`. -/
def collectAttemptWithResult (rows : List (JoinedAttemptRow × Option PaymentResult)) :
    Option PaymentAttemptWithResult := do
  let first ← rows.head?
  let attempt ← collectAttempt (rows.map Prod.fst)
  pure ⟨attempt, first.2⟩

/-- `get_swap_payment_attempts`: the attempts of a swap, with their results. -/
def getSwapPaymentAttempts (order : QueryOrder) (hash : PaymentHash) (db : SwapTables) :
    Except GetPaymentAttemptsError (List PaymentAttemptWithResult) :=
  match db.swaps.find? (fun s => s.swap.pub.hash = hash) with
  | none => .ok []
  | some s => do
    let rows ← (orderByCreationTime order
        (db.joinOutputs (db.paymentAttempts.filter (fun row => row.swapPaymentHash = hash)))).mapM
      (fun r => do
        let result ← readResult s.preimage r.attempt
        pure (r, result))
    let attempts := Table.groupByKey (fun r => r.1.attempt.label) rows
    pure (Table.permute order.values (attempts.filterMap (fun g => collectAttemptWithResult g.2)))

/-! ## Statements -/

/-- `SELECT * FROM swaps WHERE payment_hash = $1 FOR UPDATE`. -/
def lockSwapForUpdate (hash : PaymentHash) (db : SwapTables) :
    Except LockSwapError Unit :=
  if db.swaps.any (fun s => s.swap.pub.hash = hash) then .ok ()
  else .error .swapNotFound

/-- The locks of a swap. -/
def countLocks (hash : PaymentHash) (db : SwapTables) : ℕ :=
  db.swapLocks.countP (fun l => l.swapPaymentHash = hash)

/-- The payment locks of a swap. -/
def countPaymentLocks (hash : PaymentHash) (db : SwapTables) : ℕ :=
  db.swapLocks.countP
    (fun l => l.swapPaymentHash = hash && l.lock.isPayment)

/-- A payment lock is inserted. -/
def insertPaymentLock (hash : PaymentHash) (label : String) (db : SwapTables) :
    SwapTables :=
  { db with swapLocks := db.swapLocks ++ [⟨hash, .payment label⟩] }

/-- A refund lock is inserted. -/
def insertRefundLock (hash : PaymentHash) (refundId : String) (db : SwapTables) :
    SwapTables :=
  { db with swapLocks := db.swapLocks ++ [⟨hash, .refund refundId⟩] }

/-- The row of a payment attempt is inserted. -/
def insertPaymentAttempt (a : PaymentAttempt) (seconds : ℕ) (db : SwapTables) :
    SwapTables :=
  { db with
    paymentAttempts := db.paymentAttempts ++
      [⟨db.nextAttemptId, a.paymentHash, a.label, seconds, a.amountMsat,
        a.paymentRequest, a.destination, none, none⟩]
    nextAttemptId := db.nextAttemptId + 1 }

/-- The outputs of a payment attempt are inserted. -/
def insertTxOutputs (id : ℕ) (outputs : List OutPoint) (db : SwapTables) :
    SwapTables :=
  { db with
    paymentAttemptTxOutputs := db.paymentAttemptTxOutputs ++
      outputs.map (fun o => ⟨id, o⟩) }

/-- The payment lock of a label is deleted. -/
def deletePaymentLock (hash : PaymentHash) (label : String) (db : SwapTables) :
    SwapTables :=
  { db with
    swapLocks := db.swapLocks.filter (fun l => l ≠ ⟨hash, .payment label⟩) }

/-- A refund lock is deleted. -/
def deleteRefundLock (hash : PaymentHash) (refundId : String) (db : SwapTables) :
    SwapTables :=
  { db with
    swapLocks := db.swapLocks.filter (fun l => l ≠ ⟨hash, .refund refundId⟩) }

/-- The preimage of a swap is set. -/
def updatePreimage (hash : PaymentHash) (preimage : Preimage) (db : SwapTables) :
    SwapTables :=
  { db with
    swaps := db.swaps.map (fun s =>
      if s.swap.pub.hash = hash then { s with preimage := some preimage } else s) }

/-- The attempts of a label are marked successful. -/
def updateSuccess (label : String) (db : SwapTables) : SwapTables :=
  { db with
    paymentAttempts := db.paymentAttempts.map (fun row =>
      if row.label = label then { row with success := some true } else row) }

/-- The attempts of a label are marked failed. -/
def updateFailure (label error : String) (db : SwapTables) : SwapTables :=
  { db with
    paymentAttempts := db.paymentAttempts.map (fun row =>
      if row.label = label then { row with success := some false, error := some error }
      else row) }

/-! ## Transactions -/

/-- `lock_add_payment_attempt`: payments can only be locked if there is no
refund lock and no other payment lock. -/
def lockAddPaymentAttempt (a : PaymentAttempt) (db : SwapTables) :
    Except LockSwapError SwapTables := do
  lockSwapForUpdate a.paymentHash db
  if countLocks a.paymentHash db > 0 then
    throw .alreadyLocked
  let db₁ := insertPaymentLock a.paymentHash a.label db
  let some ns := SystemTime.sinceEpoch a.creationTime | throw .general
  let db₂ := insertPaymentAttempt a (ns / 1000000000) db₁
  pure (insertTxOutputs db₁.nextAttemptId a.outputs db₂)

/-- `lock_swap_refund`: refunds can be locked with another refund lock, but
not with a payment lock. -/
def lockSwapRefund (hash : PaymentHash) (refundId : String) (db : SwapTables) :
    Except LockSwapError SwapTables := do
  lockSwapForUpdate hash db
  if countPaymentLocks hash db > 0 then
    throw .alreadyLocked
  pure (insertRefundLock hash refundId db)

/-- `unlock_add_payment_result`. -/
def unlockAddPaymentResult (hash : PaymentHash) (label : String)
    (result : PaymentResult) (db : SwapTables) :
    Except LockSwapError SwapTables := do
  lockSwapForUpdate hash db
  let db₁ := deletePaymentLock hash label db
  match result with
  | .success preimage =>
    pure (updateSuccess label (updatePreimage hash preimage db₁))
  | .failure error => pure (updateFailure label error db₁)

/-- `unlock_swap_refund`. -/
def unlockSwapRefund (hash : PaymentHash) (refundId : String) (db : SwapTables) :
    Except LockSwapError SwapTables := do
  lockSwapForUpdate hash db
  pure (deleteRefundLock hash refundId db)

/-! ## What a call leaves behind -/

/-- The tables after a payment attempt has been added and locked for. -/
def attempted (a : PaymentAttempt) (seconds : ℕ) (db : SwapTables) : SwapTables :=
  insertTxOutputs db.nextAttemptId a.outputs
    (insertPaymentAttempt a seconds (insertPaymentLock a.paymentHash a.label db))

/-- The tables after the result of a payment has been added. -/
def resulted (hash : PaymentHash) (label : String) (result : PaymentResult)
    (db : SwapTables) : SwapTables :=
  match result with
  | .success preimage => updateSuccess label
      (updatePreimage hash preimage (deletePaymentLock hash label db))
  | .failure error => updateFailure label error (deletePaymentLock hash label db)

/-- A swap with this hash exists. -/
def HasSwap (db : SwapTables) (hash : PaymentHash) : Prop :=
  ∃ s ∈ db.swaps, s.swap.pub.hash = hash

/-- An attempt with this hash and label is recorded. -/
def HasAttempt (db : SwapTables) (hash : PaymentHash) (label : String) : Prop :=
  ∃ row ∈ db.paymentAttempts, row.swapPaymentHash = hash ∧ row.label = label

/-- The labels of all attempts recorded. -/
def labels (db : SwapTables) : List String :=
  db.paymentAttempts.map (fun row => row.label)

/-- The swap is locked for the payment with this label. -/
def PaymentLocked (db : SwapTables) (hash : PaymentHash) (label : String) : Prop :=
  (⟨hash, .payment label⟩ : SwapLockRow) ∈ db.swapLocks

instance (db : SwapTables) (hash : PaymentHash) (label : String) :
    Decidable (db.PaymentLocked hash label) :=
  inferInstanceAs (Decidable (_ ∈ db.swapLocks))

/-- The swap is locked for this refund. -/
def RefundLocked (db : SwapTables) (hash : PaymentHash) (refundId : String) : Prop :=
  (⟨hash, .refund refundId⟩ : SwapLockRow) ∈ db.swapLocks

theorem lockSwapForUpdate_eq_ok_iff {hash : PaymentHash} {db : SwapTables} :
    lockSwapForUpdate hash db = .ok () ↔ db.HasSwap hash := by
  unfold lockSwapForUpdate HasSwap
  simp only [List.any_eq_true, decide_eq_true_eq]
  split <;> simp_all

theorem lockSwapForUpdate_of_not {hash : PaymentHash} {db : SwapTables}
    (h : ¬ db.HasSwap hash) :
    lockSwapForUpdate hash db = .error .swapNotFound := by
  unfold lockSwapForUpdate
  rw [if_neg]
  simpa [HasSwap] using h

theorem countLocks_eq_zero_iff {hash : PaymentHash} {db : SwapTables} :
    countLocks hash db = 0 ↔ ∀ l ∈ db.swapLocks, l.swapPaymentHash ≠ hash := by
  simp [countLocks, List.countP_eq_zero]

theorem countPaymentLocks_eq_zero_iff {hash : PaymentHash} {db : SwapTables} :
    countPaymentLocks hash db = 0 ↔ ∀ label, ¬ db.PaymentLocked hash label := by
  simp only [countPaymentLocks, List.countP_eq_zero, Bool.and_eq_true,
    decide_eq_true_eq, not_and, PaymentLocked]
  constructor
  · intro h label hl
    exact h _ hl rfl rfl
  · rintro h ⟨hash', _ | label⟩ hl rfl
    · exact Bool.false_ne_true
    · exact absurd hl (h label)

/-- **When an attempt is locked for**: the swap exists, carries no lock at
all, and the attempt was made after the epoch. -/
theorem lockAddPaymentAttempt_eq_ok_iff {a : PaymentAttempt}
    {db db' : SwapTables} :
    lockAddPaymentAttempt a db = .ok db' ↔
      db.HasSwap a.paymentHash
        ∧ (∀ l ∈ db.swapLocks, l.swapPaymentHash ≠ a.paymentHash)
        ∧ ∃ ns, SystemTime.sinceEpoch a.creationTime = some ns
          ∧ db' = attempted a (ns / 1000000000) db := by
  rw [← countLocks_eq_zero_iff]
  by_cases hswap : db.HasSwap a.paymentHash
  · simp only [lockAddPaymentAttempt, lockSwapForUpdate_eq_ok_iff.mpr hswap,
      bind, Except.bind, throw, throwThe, MonadExceptOf.throw, pure, Except.pure]
    by_cases hcount : countLocks a.paymentHash db = 0
    · rw [if_neg (by omega)]
      cases hns : SystemTime.sinceEpoch a.creationTime with
      | none => simp
      | some ns =>
        simp only [Except.ok.injEq, hswap, hcount, true_and, Option.some.injEq,
          exists_eq_left']
        exact ⟨fun h => h.symm, fun h => h.symm⟩
    · rw [if_pos (by omega)]
      simp [hcount]
  · simp [lockAddPaymentAttempt, lockSwapForUpdate_of_not hswap, hswap, bind,
      Except.bind]

/-- **When a refund is locked for**: the swap exists and carries no payment
lock. -/
theorem lockSwapRefund_eq_ok_iff {hash : PaymentHash} {refundId : String}
    {db db' : SwapTables} :
    lockSwapRefund hash refundId db = .ok db' ↔
      db.HasSwap hash ∧ (∀ label, ¬ db.PaymentLocked hash label)
        ∧ db' = insertRefundLock hash refundId db := by
  rw [← countPaymentLocks_eq_zero_iff]
  by_cases hswap : db.HasSwap hash
  · simp only [lockSwapRefund, lockSwapForUpdate_eq_ok_iff.mpr hswap, bind,
      Except.bind, throw, throwThe, MonadExceptOf.throw, pure, Except.pure]
    by_cases hcount : countPaymentLocks hash db = 0
    · rw [if_neg (by omega)]
      simp only [Except.ok.injEq, hswap, hcount, true_and]
      exact ⟨fun h => h.symm, fun h => h.symm⟩
    · rw [if_pos (by omega)]
      simp [hcount]
  · simp [lockSwapRefund, lockSwapForUpdate_of_not hswap, hswap, bind,
      Except.bind]

/-- **A result can be added** whenever the swap exists. -/
theorem unlockAddPaymentResult_eq_ok_iff {hash : PaymentHash} {label : String}
    {result : PaymentResult} {db db' : SwapTables} :
    unlockAddPaymentResult hash label result db = .ok db' ↔
      db.HasSwap hash ∧ db' = resulted hash label result db := by
  by_cases hswap : db.HasSwap hash
  · simp only [unlockAddPaymentResult, lockSwapForUpdate_eq_ok_iff.mpr hswap,
      bind, Except.bind, hswap, true_and]
    cases result <;>
      exact ⟨fun h => (Except.ok.inj h).symm, fun h => congrArg Except.ok h.symm⟩
  · simp [unlockAddPaymentResult, lockSwapForUpdate_of_not hswap, hswap, bind,
      Except.bind]

/-- **A refund lock can be released** whenever the swap exists. -/
theorem unlockSwapRefund_eq_ok_iff {hash : PaymentHash} {refundId : String}
    {db db' : SwapTables} :
    unlockSwapRefund hash refundId db = .ok db' ↔
      db.HasSwap hash ∧ db' = deleteRefundLock hash refundId db := by
  by_cases hswap : db.HasSwap hash
  · simp only [unlockSwapRefund, lockSwapForUpdate_eq_ok_iff.mpr hswap, bind,
      Except.bind, hswap, true_and]
    exact ⟨fun h => (Except.ok.inj h).symm, fun h => congrArg Except.ok h.symm⟩
  · simp [unlockSwapRefund, lockSwapForUpdate_of_not hswap, hswap, bind,
      Except.bind]

/-- A lock for a refund is refused for a reason. -/
theorem lockSwapRefund_ne_general {hash : PaymentHash} {refundId : String} {db : SwapTables} :
    lockSwapRefund hash refundId db ≠ .error .general := by
  by_cases hswap : db.HasSwap hash
  · simp only [lockSwapRefund, lockSwapForUpdate_eq_ok_iff.mpr hswap, bind, Except.bind]
    split <;> nofun
  · simp [lockSwapRefund, lockSwapForUpdate_of_not hswap, bind, Except.bind]

theorem unlockSwapRefund_ne_general {hash : PaymentHash} {refundId : String} {db : SwapTables} :
    unlockSwapRefund hash refundId db ≠ .error .general := by
  by_cases hswap : db.HasSwap hash
  · rw [unlockSwapRefund_eq_ok_iff.mpr ⟨hswap, rfl⟩]
    nofun
  · simp [unlockSwapRefund, lockSwapForUpdate_of_not hswap, bind, Except.bind]

/-- A swap that is found by its hash has it. -/
theorem getSwapByHash_eq_ok {hash : PaymentHash} {db : SwapTables} {state : SwapState}
    (h : db.getSwapByHash hash = .ok state) :
    state ∈ db.swaps ∧ state.swap.pub.hash = hash := by
  unfold getSwapByHash at h
  split at h
  next row hrow =>
    obtain rfl := Except.ok.inj h
    exact ⟨List.mem_of_find?_eq_some hrow, by simpa using List.find?_some hrow⟩
  next => cases h

theorem attempt_of_mem_joinRow {db : SwapTables} {row : PaymentAttemptRow}
    {r : JoinedAttemptRow} (h : r ∈ db.joinRow row) : r.attempt = row := by
  unfold joinRow at h
  split at h
  · rw [List.mem_singleton.mp h]
  · obtain ⟨o, -, rfl⟩ := List.mem_map.mp h
    rfl

/-- A joined row is one of an attempt. -/
theorem mem_joinOutputs {attempts : List PaymentAttemptRow} {db : SwapTables}
    {r : JoinedAttemptRow} (h : r ∈ db.joinOutputs attempts) : r.attempt ∈ attempts := by
  obtain ⟨row, hrow, hr⟩ := List.mem_flatMap.mp h
  rw [attempt_of_mem_joinRow hr]
  exact hrow

theorem orderByCreationTime_perm {order : QueryOrder} {rows : List JoinedAttemptRow} :
    (orderByCreationTime order rows).Perm rows :=
  Table.orderBy_perm.trans (Table.permute_perm ..)

/-- **An unhandled attempt comes from a row without a result.** -/
theorem mem_getUnhandledPaymentAttempts {order : QueryOrder} {db : SwapTables}
    {a : PaymentAttempt} (h : a ∈ db.getUnhandledPaymentAttempts order) :
    ∃ row ∈ db.paymentAttempts, row.success = none ∧ row.swapPaymentHash = a.paymentHash
      ∧ row.label = a.label := by
  obtain ⟨g, hg, ha⟩ := List.mem_filterMap.mp (Table.mem_permute.mp h)
  obtain ⟨first, hfirst, rfl⟩ := Option.map_eq_some_iff.mp ha
  have hrow : first ∈ orderByCreationTime order
      (db.joinOutputs (db.paymentAttempts.filter (fun row => row.success = none))) := by
    have hmem := List.mem_of_mem_head? hfirst
    rw [(Table.mem_groupByKey.mp hg).1] at hmem
    exact List.mem_of_mem_filter hmem
  obtain ⟨hmem, hnone⟩ :=
    List.mem_filter.mp (mem_joinOutputs (orderByCreationTime_perm.mem_iff.mp hrow))
  exact ⟨first.attempt, hmem, of_decide_eq_true hnone, rfl, rfl⟩

/-! ## The tables, column by column -/

@[simp] theorem attempted_swaps (a : PaymentAttempt) (n : ℕ) (db : SwapTables) :
    (attempted a n db).swaps = db.swaps := rfl

@[simp] theorem attempted_swapLocks (a : PaymentAttempt) (n : ℕ) (db : SwapTables) :
    (attempted a n db).swapLocks
      = db.swapLocks ++ [⟨a.paymentHash, .payment a.label⟩] := rfl

@[simp] theorem attempted_paymentAttempts (a : PaymentAttempt) (n : ℕ)
    (db : SwapTables) :
    (attempted a n db).paymentAttempts = db.paymentAttempts ++
      [⟨db.nextAttemptId, a.paymentHash, a.label, n, a.amountMsat,
        a.paymentRequest, a.destination, none, none⟩] := rfl

@[simp] theorem resulted_swapLocks (hash : PaymentHash) (label : String)
    (result : PaymentResult) (db : SwapTables) :
    (resulted hash label result db).swapLocks
      = db.swapLocks.filter (fun l => l ≠ ⟨hash, .payment label⟩) := by
  cases result <;> rfl

@[simp] theorem insertRefundLock_swaps (hash : PaymentHash) (id : String)
    (db : SwapTables) : (insertRefundLock hash id db).swaps = db.swaps := rfl

@[simp] theorem insertRefundLock_paymentAttempts (hash : PaymentHash)
    (id : String) (db : SwapTables) :
    (insertRefundLock hash id db).paymentAttempts = db.paymentAttempts := rfl

@[simp] theorem deleteRefundLock_swaps (hash : PaymentHash) (id : String)
    (db : SwapTables) : (deleteRefundLock hash id db).swaps = db.swaps := rfl

@[simp] theorem deleteRefundLock_paymentAttempts (hash : PaymentHash)
    (id : String) (db : SwapTables) :
    (deleteRefundLock hash id db).paymentAttempts = db.paymentAttempts := rfl

/-! ## Attempts -/

theorem HasAttempt.mem_labels {db : SwapTables} {hash : PaymentHash} {label : String}
    (h : db.HasAttempt hash label) : label ∈ db.labels := by
  obtain ⟨row, hrow, -, rfl⟩ := h
  exact List.mem_map_of_mem (f := fun row : PaymentAttemptRow => row.label) hrow

@[simp] theorem labels_attempted (a : PaymentAttempt) (n : ℕ) (db : SwapTables) :
    (attempted a n db).labels = db.labels ++ [a.label] := by
  simp [labels]

/-- A result changes no label. -/
@[simp] theorem labels_resulted (hash : PaymentHash) (label : String)
    (result : PaymentResult) (db : SwapTables) :
    (resulted hash label result db).labels = db.labels := by
  have hmap {f : PaymentAttemptRow → PaymentAttemptRow}
      (hf : ∀ row, (f row).label = row.label) :
      (db.paymentAttempts.map f).map (fun row => row.label) = db.labels := by
    rw [List.map_map]
    exact congrFun (congrArg List.map (funext hf)) _
  cases result with
  | success preimage => exact hmap (fun row => by split <;> rfl)
  | failure error => exact hmap (fun row => by split <;> rfl)

@[simp] theorem hasAttempt_attempted {a : PaymentAttempt} {n : ℕ} {db : SwapTables}
    {hash : PaymentHash} {label : String} :
    (attempted a n db).HasAttempt hash label ↔
      db.HasAttempt hash label ∨ (hash = a.paymentHash ∧ label = a.label) := by
  simp only [HasAttempt, attempted_paymentAttempts, List.mem_append, List.mem_singleton,
    or_and_right, exists_or, exists_eq_left]
  exact or_congr Iff.rfl (and_congr eq_comm eq_comm)

/-- A result removes no attempt. -/
theorem HasAttempt.resulted {db : SwapTables} {hash h : PaymentHash} {label l : String}
    {result : PaymentResult} (ha : db.HasAttempt h l) :
    (resulted hash label result db).HasAttempt h l := by
  obtain ⟨row, hmem, hhash, hlabel⟩ := ha
  cases result with
  | success preimage =>
    refine ⟨_, List.mem_map_of_mem hmem, ?_⟩
    split <;> exact ⟨hhash, hlabel⟩
  | failure error =>
    refine ⟨_, List.mem_map_of_mem hmem, ?_⟩
    split <;> exact ⟨hhash, hlabel⟩

/-- A result changes the attempts with its label only. -/
theorem mem_of_mem_resulted {db : SwapTables} {hash : PaymentHash} {label : String}
    {result : PaymentResult} {row : PaymentAttemptRow}
    (h : row ∈ (resulted hash label result db).paymentAttempts) (hne : row.label ≠ label) :
    row ∈ db.paymentAttempts := by
  cases result with
  | success preimage =>
    obtain ⟨row₀, hrow₀, rfl⟩ := List.mem_map.mp h
    split at hne
    next heq => exact absurd heq hne
    next heq => rwa [if_neg heq]
  | failure error =>
    obtain ⟨row₀, hrow₀, rfl⟩ := List.mem_map.mp h
    split at hne
    next heq => exact absurd heq hne
    next heq => rwa [if_neg heq]

/-- Where labels are distinct, a label determines the hash. -/
theorem HasAttempt.hash_eq {db : SwapTables} {hash hash' : PaymentHash} {label : String}
    (hnodup : db.labels.Nodup) (h : db.HasAttempt hash label)
    (h' : db.HasAttempt hash' label) : hash = hash' := by
  obtain ⟨row, hrow, rfl, rfl⟩ := h
  obtain ⟨row', hrow', rfl, hlabel⟩ := h'
  rw [List.inj_on_of_nodup_map hnodup hrow' hrow hlabel]

/-! ## Locks -/

@[simp] theorem paymentLocked_attempted {a : PaymentAttempt} {n : ℕ}
    {db : SwapTables} {hash : PaymentHash} {label : String} :
    (attempted a n db).PaymentLocked hash label ↔
      db.PaymentLocked hash label ∨ (hash = a.paymentHash ∧ label = a.label) := by
  simp [PaymentLocked]

@[simp] theorem refundLocked_attempted {a : PaymentAttempt} {n : ℕ}
    {db : SwapTables} {hash : PaymentHash} {id : String} :
    (attempted a n db).RefundLocked hash id ↔ db.RefundLocked hash id := by
  simp [RefundLocked]

@[simp] theorem paymentLocked_resulted {hash h : PaymentHash} {label l : String}
    {result : PaymentResult} {db : SwapTables} :
    (resulted hash label result db).PaymentLocked h l ↔
      db.PaymentLocked h l ∧ ¬ (h = hash ∧ l = label) := by
  simp [PaymentLocked, -not_and, not_and_or]

@[simp] theorem refundLocked_resulted {hash h : PaymentHash} {label id : String}
    {result : PaymentResult} {db : SwapTables} :
    (resulted hash label result db).RefundLocked h id ↔ db.RefundLocked h id := by
  simp [RefundLocked]

@[simp] theorem paymentLocked_insertRefundLock {hash h : PaymentHash}
    {id label : String} {db : SwapTables} :
    (insertRefundLock hash id db).PaymentLocked h label ↔
      db.PaymentLocked h label := by
  simp [PaymentLocked, insertRefundLock]

@[simp] theorem refundLocked_insertRefundLock {hash h : PaymentHash}
    {id i : String} {db : SwapTables} :
    (insertRefundLock hash id db).RefundLocked h i ↔
      db.RefundLocked h i ∨ (h = hash ∧ i = id) := by
  simp [RefundLocked, insertRefundLock]

@[simp] theorem paymentLocked_deleteRefundLock {hash h : PaymentHash}
    {id label : String} {db : SwapTables} :
    (deleteRefundLock hash id db).PaymentLocked h label ↔
      db.PaymentLocked h label := by
  simp [PaymentLocked, deleteRefundLock]

@[simp] theorem refundLocked_deleteRefundLock {hash h : PaymentHash}
    {id i : String} {db : SwapTables} :
    (deleteRefundLock hash id db).RefundLocked h i ↔
      db.RefundLocked h i ∧ ¬ (h = hash ∧ i = id) := by
  simp [RefundLocked, deleteRefundLock, -not_and, not_and_or]

/-- **Exclusive locks**: a swap locked for a payment carries no other lock. -/
structure LocksExclusive (db : SwapTables) : Prop where
  payment_unique : ∀ {hash l l'}, db.PaymentLocked hash l →
    db.PaymentLocked hash l' → l = l'
  not_both : ∀ {hash l id}, db.PaymentLocked hash l → ¬ db.RefundLocked hash id

/-- An unlocked swap can be locked for a payment. -/
theorem LocksExclusive.attempted {db : SwapTables} (h : db.LocksExclusive)
    {a : PaymentAttempt} (n : ℕ)
    (hfree : ∀ l ∈ db.swapLocks, l.swapPaymentHash ≠ a.paymentHash) :
    (attempted a n db).LocksExclusive := by
  have hno : ∀ {l}, ¬ db.PaymentLocked a.paymentHash l := fun hl => hfree _ hl rfl
  have hno' : ∀ {id}, ¬ db.RefundLocked a.paymentHash id := fun hr => hfree _ hr rfl
  constructor
  · intro hash l l' hl hl'
    rcases paymentLocked_attempted.mp hl with hl | ⟨rfl, hlabel⟩ <;>
      rcases paymentLocked_attempted.mp hl' with hl' | ⟨hhash, hlabel'⟩
    · exact h.payment_unique hl hl'
    · exact absurd (hhash ▸ hl) hno
    · exact absurd hl' hno
    · exact hlabel.trans hlabel'.symm
  · intro hash l id hl hr
    rw [refundLocked_attempted] at hr
    rcases paymentLocked_attempted.mp hl with hl | ⟨rfl, rfl⟩
    · exact h.not_both hl hr
    · exact hno' hr

/-- A swap without a payment lock can be locked for a refund. -/
theorem LocksExclusive.insertRefundLock {db : SwapTables}
    (h : db.LocksExclusive) {hash : PaymentHash} (id : String)
    (hfree : ∀ label, ¬ db.PaymentLocked hash label) :
    (insertRefundLock hash id db).LocksExclusive := by
  constructor
  · intro h' l l' hl hl'
    rw [paymentLocked_insertRefundLock] at hl hl'
    exact h.payment_unique hl hl'
  · intro h' l i hl hr
    rw [paymentLocked_insertRefundLock] at hl
    rcases refundLocked_insertRefundLock.mp hr with hr | ⟨rfl, rfl⟩
    · exact h.not_both hl hr
    · exact hfree l hl

/-- Locks that were exclusive still are once some have been released. -/
theorem LocksExclusive.of_subset {db db' : SwapTables} (h : db.LocksExclusive)
    (hsub : db'.swapLocks ⊆ db.swapLocks) : db'.LocksExclusive :=
  ⟨fun hl hl' => h.payment_unique (hsub hl) (hsub hl'),
    fun hl hr => h.not_both (hsub hl) (hsub hr)⟩

end SwapTables

end Swapd
