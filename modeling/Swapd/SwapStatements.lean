import Swapd.Interference
import Swapd.ReadCommitted
import Swapd.SwapRepository

/-!
# The lock transactions, statement by statement

`SwapRepository` takes a repository call for one step. Here the four calls that lock
and unlock a swap are transactions of single statements, on a database that runs any
number of them at once. A statement sees what is committed when it is served, with
the writes of its own transaction, so a count and the insertion that follows it can
see different tables; what they share is the row lock taken before.

Every statement can fail. The call then returns, and its transaction is dropped; so
it is when the call is abandoned. The database rolls it back in its own time, and its
row lock is held until then.

Two things PostgreSQL does are left out. A `COMMIT` that fails, or whose call is abandoned
before it is answered, has no effect here: the commit that takes effect while its answer is
lost is not covered, and what is said of calls that have not returned is said without it.
And the only row that is waited for is the one selected `FOR UPDATE`: an `UPDATE` or a
`DELETE` takes no row locks and waits for none. More orders of theirs are covered for that
than there are, but nothing can be concluded about who waits for whom.
-/

namespace Swapd

namespace Sql

/-! ## The tables, as they are stored -/

/-- A row, and the transaction that wrote it. -/
structure Stored (ρ : Type) where
  xmin : ℕ
  row : ρ
deriving DecidableEq

/-- A row of `swap_locks`, with its key. -/
structure LockRow where
  id : ℕ
  lock : SwapLockRow
deriving DecidableEq

/-- **The swap tables as they are stored.** -/
structure StoredTables where
  swaps : List SwapState
  paymentAttempts : List (Stored PaymentAttemptRow)
  paymentAttemptTxOutputs : List (Stored PaymentAttemptTxOutputRow)
  swapLocks : List (Stored LockRow)
deriving DecidableEq

/-- **What a statement writes**: the rows it inserts, the rows it has found to delete,
or the keys of those it has found to update. -/
inductive RowWrite where
  | insertLock (row : Stored LockRow)
  | deleteLocks (rows : List (Stored LockRow))
  | insertAttempt (row : Stored PaymentAttemptRow)
  | insertOutputs (rows : List (Stored PaymentAttemptTxOutputRow))
  | setPreimage (hash : PaymentHash) (preimage : Preimage)
  | setResult (xmin : ℕ) (ids : List ℕ) (success : Bool) (error : Option String)

namespace RowWrite

/-- An attempt with its result. `UPDATE … SET success = true` leaves the error
alone. -/
def withResult (success : Bool) (error : Option String) (row : PaymentAttemptRow) :
    PaymentAttemptRow :=
  { row with success := some success, error := error.or row.error }

/-- The effect of a write. -/
def apply (w : RowWrite) (t : StoredTables) : StoredTables :=
  match w with
  | .insertLock row => { t with swapLocks := t.swapLocks ++ [row] }
  | .deleteLocks rows => { t with swapLocks := t.swapLocks.filter (fun l => l ∉ rows) }
  | .insertAttempt row => { t with paymentAttempts := t.paymentAttempts ++ [row] }
  | .insertOutputs rows =>
    { t with paymentAttemptTxOutputs := t.paymentAttemptTxOutputs ++ rows }
  | .setPreimage hash preimage => { t with
      swaps := t.swaps.map (fun s =>
        if s.swap.pub.hash = hash then { s with preimage := some preimage } else s) }
  | .setResult xmin ids success error => { t with
      paymentAttempts := t.paymentAttempts.map (fun r =>
        if r.row.id ∈ ids then ⟨xmin, withResult success error r.row⟩ else r) }

end RowWrite

/-- **The database**: its tables with the transactions that run, the sequences behind
the two serial keys, and the calls made so far, each of which is a transaction. -/
structure State (Task : Type) where
  db : Database StoredTables RowWrite PaymentHash
  nextLockId : ℕ
  nextAttemptId : ℕ
  /-- The calls, in the order in which they were made. -/
  calls : List Task

namespace State

variable {Task : Type}

/-- What a transaction sees, as tables of rows. -/
def rows (i : ℕ) (s : State Task) : SwapTables :=
  let t := s.db.visible RowWrite.apply i
  { swaps := t.swaps
    paymentAttempts := t.paymentAttempts.map (fun r => r.row)
    paymentAttemptTxOutputs := t.paymentAttemptTxOutputs.map (fun r => r.row)
    swapLocks := t.swapLocks.map (fun r => r.row.lock)
    nextAttemptId := s.nextAttemptId }

/-- A transaction makes a write. -/
def write (i : ℕ) (w : RowWrite) (s : State Task) : State Task :=
  { s with db := s.db.write i [w] }

/-- The stored rows of a lock, as a transaction sees them. -/
def locks (i : ℕ) (lock : SwapLockRow) (s : State Task) : List (Stored LockRow) :=
  (s.db.visible RowWrite.apply i).swapLocks.filter (fun l => l.row.lock = lock)

/-- The keys of the attempts with a label, as a transaction sees them. -/
def attemptIds (i : ℕ) (label : String) (s : State Task) : List ℕ :=
  ((s.rows i).paymentAttempts.filter (fun row => row.label = label)).map (fun row => row.id)

end State

/-! ## Statements -/

/-- The statements of the four transactions. -/
inductive Statement where
  | begin
  | lockSwapForUpdate (hash : PaymentHash)
  | countLocks (hash : PaymentHash)
  | countPaymentLocks (hash : PaymentHash)
  | insertPaymentLock (hash : PaymentHash) (label : String)
  | insertRefundLock (hash : PaymentHash) (refundId : String)
  | insertPaymentAttempt (a : PaymentAttempt) (seconds : ℕ)
  | insertTxOutputs (id : ℕ) (outputs : List OutPoint)
  | deletePaymentLock (hash : PaymentHash) (label : String)
  | deleteRefundLock (hash : PaymentHash) (refundId : String)
  | updatePreimage (hash : PaymentHash) (preimage : Preimage)
  | updateSuccess (label : String)
  | updateFailure (label error : String)
  | commit
  /-- The transaction goes out of scope. -/
  | drop

/-- What a statement returns: whether there is a row, a count, or the new key. -/
abbrev Statement.Value : Statement → Type
  | lockSwapForUpdate _ => Bool
  | countLocks _ | countPaymentLocks _ | insertPaymentAttempt _ _ => ℕ
  | _ => Unit

/-- **The interface to the database.** A statement that fails has no value. -/
abbrev interface : Interface where
  Call := Statement
  Reply c := Option c.Value

/-- How a statement fares. One that fails has had no effect on the rows, a `COMMIT`
included. -/
inductive Fate where
  | succeeds
  | fails
deriving DecidableEq

section Serve

variable {Task : Type}

/-- **A statement that succeeds**, with the value it returns; a row lock that another
transaction holds has to be waited for. -/
def answer (i : ℕ) (s : State Task) : (c : Statement) → Option (c.Value × State Task)
  | .begin => some ((), s)
  | .lockSwapForUpdate hash =>
    if (s.rows i).swaps.any (fun row => row.swap.pub.hash = hash) then
      (s.db.acquire i hash).map (fun db => (true, { s with db := db }))
    else some (false, s)
  | .countLocks hash => some ((s.rows i).countLocks hash, s)
  | .countPaymentLocks hash => some ((s.rows i).countPaymentLocks hash, s)
  | .insertPaymentLock hash label =>
    some ((), { s.write i (.insertLock ⟨i, ⟨s.nextLockId, ⟨hash, .payment label⟩⟩⟩) with
      nextLockId := s.nextLockId + 1 })
  | .insertRefundLock hash refundId =>
    some ((), { s.write i (.insertLock ⟨i, ⟨s.nextLockId, ⟨hash, .refund refundId⟩⟩⟩) with
      nextLockId := s.nextLockId + 1 })
  | .insertPaymentAttempt a seconds =>
    some (s.nextAttemptId, { s.write i (.insertAttempt ⟨i, ⟨s.nextAttemptId, a.paymentHash,
      a.label, seconds, a.amountMsat, a.paymentRequest, a.destination, none, none⟩⟩) with
      nextAttemptId := s.nextAttemptId + 1 })
  | .insertTxOutputs id outputs =>
    some ((), s.write i (.insertOutputs (outputs.map (fun o => ⟨i, ⟨id, o⟩⟩))))
  | .deletePaymentLock hash label =>
    some ((), s.write i (.deleteLocks (s.locks i ⟨hash, .payment label⟩)))
  | .deleteRefundLock hash refundId =>
    some ((), s.write i (.deleteLocks (s.locks i ⟨hash, .refund refundId⟩)))
  | .updatePreimage hash preimage => some ((), s.write i (.setPreimage hash preimage))
  | .updateSuccess label => some ((), s.write i (.setResult i (s.attemptIds i label) true none))
  | .updateFailure label error =>
    some ((), s.write i (.setResult i (s.attemptIds i label) false (some error)))
  | .commit => some ((), { s with db := s.db.commit RowWrite.apply i })
  | .drop => some ((), { s with db := s.db.drop i })

/-- What a statement that fails does: a transaction that could not begin is over. -/
def fail (i : ℕ) (s : State Task) : Statement → State Task
  | .begin | .drop => { s with db := s.db.drop i }
  | _ => s

/-- **Serving a statement** of a transaction that is not over. -/
def serve (i : ℕ) (c : Statement) (fate : Fate) (s : State Task) :
    Option (Option c.Value × State Task) :=
  if i ∈ s.db.ended then none
  else match fate with
    | .succeeds => (answer i s c).map (fun vs => (some vs.1, vs.2))
    | .fails => some (none, fail i s c)

end Serve

/-! ## Transactions -/

open Prog

/-- A program over the database that may fail. -/
abbrev Tx (α : Type) : Type := ExceptT LockSwapError (Prog interface) α

/-- A statement is executed. -/
def execute (c : Statement) : Tx c.Value := do
  match ← ask (I := interface) c with
  | some v => pure v
  | none => throw .general

/-- **A transaction**: committed at its end, and dropped with the first error. -/
def transaction (body : Tx Unit) : Tx Unit := do
  execute .begin
  tryCatch (do body; execute .commit) (fun e => do
    let _ ← ask (I := interface) .drop
    throw e)

/-- `lock_swap_for_update`. -/
def lockSwapForUpdate (hash : PaymentHash) : Tx Unit := do
  let found : Bool ← execute (.lockSwapForUpdate hash)
  if found then pure () else throw .swapNotFound

/-- `lock_add_payment_attempt`. -/
def lockAddPaymentAttempt (a : PaymentAttempt) : Tx Unit := transaction do
  lockSwapForUpdate a.paymentHash
  let count : ℕ ← execute (.countLocks a.paymentHash)
  rejectIf (0 < count) .alreadyLocked
  execute (.insertPaymentLock a.paymentHash a.label)
  let some ns := SystemTime.sinceEpoch a.creationTime | throw .general
  let id : ℕ ← execute (.insertPaymentAttempt a (ns / 1000000000))
  execute (.insertTxOutputs id a.outputs)

/-- `lock_swap_refund`. -/
def lockSwapRefund (hash : PaymentHash) (refundId : String) : Tx Unit := transaction do
  lockSwapForUpdate hash
  let count : ℕ ← execute (.countPaymentLocks hash)
  rejectIf (0 < count) .alreadyLocked
  execute (.insertRefundLock hash refundId)

/-- `unlock_add_payment_result`. -/
def unlockAddPaymentResult (hash : PaymentHash) (label : String) (result : PaymentResult) :
    Tx Unit := transaction do
  lockSwapForUpdate hash
  execute (.deletePaymentLock hash label)
  match result with
  | .success preimage =>
    execute (.updatePreimage hash preimage)
    execute (.updateSuccess label)
  | .failure error => execute (.updateFailure label error)

/-- `unlock_swap_refund`. -/
def unlockSwapRefund (hash : PaymentHash) (refundId : String) : Tx Unit := transaction do
  lockSwapForUpdate hash
  execute (.deleteRefundLock hash refundId)

/-! ## All of them at once -/

/-- A call of the repository. -/
inductive LockCall where
  | lockAddPaymentAttempt (a : PaymentAttempt)
  | lockSwapRefund (hash : PaymentHash) (refundId : String)
  | unlockAddPaymentResult (hash : PaymentHash) (label : String) (result : PaymentResult)
  | unlockSwapRefund (hash : PaymentHash) (refundId : String)
deriving DecidableEq

/-- The transaction of a call. -/
def LockCall.program : LockCall → Tx Unit
  | .lockAddPaymentAttempt a => Sql.lockAddPaymentAttempt a
  | .lockSwapRefund hash refundId => Sql.lockSwapRefund hash refundId
  | .unlockAddPaymentResult hash label result => Sql.unlockAddPaymentResult hash label result
  | .unlockSwapRefund hash refundId => Sql.unlockSwapRefund hash refundId

/-- What happens besides: a swap is added, or a transaction that is over is rolled
back. -/
inductive Background where
  | addSwap (row : SwapState)
  | rollback (i : ℕ)

/-- **Any number of lock transactions** on one database. Calls are made at any time,
and any of them can be abandoned between two of its statements.

An `UPDATE` or `DELETE` does not wait here for another one; all orders of theirs are
covered, those PostgreSQL rules out included. -/
abbrev machine : Machine interface where
  State := State LockCall
  Task := LockCall
  Result := Except LockSwapError Unit
  Choice := Fate
  Spawn := LockCall
  Halt := ℕ
  Drift := Background
  serve i _ c fate s := serve i c fate s
  spawn call n s :=
    if n = s.calls.length then some ((call, call.program.run), { s with calls := s.calls ++ [call] })
    else none
  stops i j _ := i = j
  halt i s := if i < s.calls.length then some { s with db := s.db.drop i } else none
  drift d s :=
    match d with
    | .addSwap row =>
      if s.db.committed.swaps.any (fun r => r.swap.pub.hash = row.swap.pub.hash) then none
      else some { s with db := { s.db with
        committed := { s.db.committed with swaps := s.db.committed.swaps ++ [row] } } }
    | .rollback i => if i ∈ s.db.ended then some { s with db := s.db.rollback i } else none

/-- **Where a deployment starts**: no transaction runs, and nothing is locked. -/
def IsInitial (S : machine.Config) : Prop :=
  S.threads = [] ∧ S.state.calls = [] ∧ S.state.db.pending = (fun _ => [])
    ∧ S.state.db.holder = (fun _ => none) ∧ S.state.db.ended = []
    ∧ S.state.db.committed.swapLocks = [] ∧ S.state.db.committed.paymentAttempts = []
    ∧ S.state.db.committed.paymentAttemptTxOutputs = []

end Sql

end Swapd
