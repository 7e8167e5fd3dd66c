import Swapd.Services

/-!
# The client of LND

Each method of the client, as the calls it makes to the node and to its own
table, which keeps the index LND gave to the payment of a label.

Three methods track a payment by its hash, and read the first message of the
stream; `trackPayment` is what they share. A stream of payment updates has some
number of messages, which nobody decides; `pay` reads them until one is final.
-/

namespace Swapd

namespace Lnd

/-- The value of a hexadecimal digit. -/
def hexValue (c : Char) : Option ℕ :=
  if '0' ≤ c ∧ c ≤ '9' then some (c.toNat - 48)
  else if 'a' ≤ c ∧ c ≤ 'f' then some (c.toNat - 87)
  else if 'A' ≤ c ∧ c ≤ 'F' then some (c.toNat - 55)
  else none

/-- The bytes of pairs of hexadecimal digits. -/
def hexBytes : List Char → Option Bytes
  | [] => some []
  | [_] => none
  | c :: d :: cs => do
    let high ← hexValue c
    let low ← hexValue d
    let bytes ← hexBytes cs
    some (UInt8.ofNat (16 * high + low) :: bytes)

/-- `hex::decode`, to thirty-two bytes. -/
def decodePreimage (text : String) : Option Preimage :=
  (hexBytes text.toList).bind Bytes32.ofBytes

/-- `PaymentStatus`. -/
inductive PaymentStatus where
  | unknown
  | inFlight
  | succeeded
  | failed
  | initiated
deriving DecidableEq

/-- `PaymentFailureReason`. -/
inductive PaymentFailureReason where
  | none
  | timeout
  | noRoute
  | error
  | incorrectPaymentDetails
  | insufficientBalance
  | canceled
deriving DecidableEq

/-- `as_str_name`. -/
def PaymentFailureReason.asStrName : PaymentFailureReason → String
  | none => "FAILURE_REASON_NONE"
  | timeout => "FAILURE_REASON_TIMEOUT"
  | noRoute => "FAILURE_REASON_NO_ROUTE"
  | error => "FAILURE_REASON_ERROR"
  | incorrectPaymentDetails => "FAILURE_REASON_INCORRECT_PAYMENT_DETAILS"
  | insufficientBalance => "FAILURE_REASON_INSUFFICIENT_BALANCE"
  | canceled => "FAILURE_REASON_CANCELED"

/-- `Payment`. -/
structure Payment where
  paymentHash : PaymentHash
  paymentIndex : UInt64
  status : PaymentStatus
  paymentPreimage : String
  failureReason : PaymentFailureReason
deriving DecidableEq

/-- `ListPaymentsRequest`. -/
structure ListPaymentsRequest where
  includeIncomplete : Bool
  indexOffset : UInt64
  maxPayments : UInt64
deriving DecidableEq

/-- `TrackPaymentRequest`. -/
structure TrackPaymentRequest where
  paymentHash : PaymentHash
  noInflightUpdates : Bool
deriving DecidableEq

/-- `SendPaymentRequest`. -/
structure SendPaymentRequest where
  paymentRequest : String
  feeLimitMsat : Int64
  timeoutSeconds : Int32
  cltvLimit : Int32
deriving DecidableEq

/-- `RepositoryError`. -/
inductive RepositoryError where
  | general (error : String)
deriving DecidableEq

end Lnd

/-- **The calls of the client.** The messages of a stream are numbered. -/
inductive LndCall where
  | getClient
  | getRouterClient
  | addLabel (label : String) (paymentIndex : UInt64)
  | getLabel (paymentIndex : UInt64)
  | getPaymentIndex (label : String)
  | listPayments (request : Lnd.ListPaymentsRequest)
  | trackPaymentV2 (request : Lnd.TrackPaymentRequest)
  | trackedPayment (request : Lnd.TrackPaymentRequest)
  | resetMissionControl
  | sendPaymentV2 (request : Lnd.SendPaymentRequest)
  | countUpdates (request : Lnd.SendPaymentRequest)
  | update (request : Lnd.SendPaymentRequest) (n : ℕ)
deriving DecidableEq

/-- What the node and the table answer. -/
@[reducible] def LndCall.Reply : LndCall → Type
  | getClient => Except LightningError Unit
  | getRouterClient => Except LightningError Unit
  | addLabel _ _ => Except Lnd.RepositoryError Unit
  | getLabel _ => Except Lnd.RepositoryError (Option String)
  | getPaymentIndex _ => Except Lnd.RepositoryError (Option UInt64)
  | listPayments _ => Except Status (List Lnd.Payment)
  | trackPaymentV2 _ => Except Status Unit
  | trackedPayment _ => Except Status (Option Lnd.Payment)
  | resetMissionControl => Except Status Unit
  | sendPaymentV2 _ => Except Status Unit
  | countUpdates _ => ℕ
  | update _ _ => Except Status (Option Lnd.Payment)

/-- The interface of the node. -/
@[reducible] def Lnd : Interface where
  Call := LndCall
  Reply := LndCall.Reply

/-- The programs of the client. -/
abbrev LndProgram (α : Type) : Type := ExceptT LightningError (Prog Lnd) α

namespace Lnd

/-- A call to the node that succeeds, or the connection has failed. -/
def orDisconnected {α : Type} (p : Prog Lnd (Except Status α)) : LndProgram α :=
  orFail (fun _ => .connectionFailed) p

/-- A call to the table. -/
def orGeneral {α : Type} (p : Prog Lnd (Except RepositoryError α)) : LndProgram α :=
  orFail (fun | .general error => .general (.internal error)) p

/-- A preimage in a payment. -/
def toPreimage (text : String) : LndProgram Preimage :=
  match decodePreimage text with
  | some preimage => pure preimage
  | none => throw .invalidPreimage

/-- The payment with a hash, from the first message of its stream, if there is
one. -/
def trackPayment (hash : PaymentHash) : LndProgram (Option Payment) := do
  match ← Prog.ask (I := Lnd) (.trackPaymentV2 ⟨hash, false⟩) with
  | .error e => if e.code = .notFound then return none else throw (.general e)
  | .ok _ =>
    match ← orDisconnected (Prog.perform (I := Lnd) (.trackedPayment ⟨hash, false⟩)) with
    | none => throw .connectionFailed
    | some payment => return some payment

/-- The state of a payment. -/
def stateOf (payment : Payment) : Except LightningError PaymentState :=
  match payment.status with
  | .unknown => .ok .pending
  | .inFlight => .ok .pending
  | .succeeded =>
    match decodePreimage payment.paymentPreimage with
    | some preimage => .ok (.success preimage)
    | none => .error .invalidPreimage
  | .failed => .ok (.failure payment.failureReason.asStrName)
  | .initiated => .ok .pending

/-- The payment that is listed for an index, if there is one. -/
def listPayment : Option UInt64 → LndProgram (Option Payment)
  | some paymentIndex => do
    let payments ← orDisconnected
      (Prog.perform (I := Lnd) (.listPayments ⟨true, paymentIndex, 1⟩))
    return payments.head?
  | none => return none

/-- `get_payment_state`. -/
def getPaymentState (hash : PaymentHash) (label : String) : LndProgram PaymentState := do
  let paymentIndex ← orGeneral (Prog.perform (I := Lnd) (.getPaymentIndex label))
  ExceptT.mk (Prog.perform (I := Lnd) .getClient)
  ExceptT.mk (Prog.perform (I := Lnd) .getRouterClient)
  match ← listPayment paymentIndex with
  | some payment => Prog.ofExcept (stateOf payment)
  | none =>
    match ← trackPayment hash with
    | some payment => Prog.ofExcept (stateOf payment)
    | none => throw .paymentNotFound

/-- The text of a preimage that is not known. -/
def zeroPreimage : String := "0000000000000000000000000000000000000000000000000000000000000000"

/-- `get_preimage`. -/
def getPreimage (hash : PaymentHash) : LndProgram (Option PreimageResult) := do
  ExceptT.mk (Prog.perform (I := Lnd) .getRouterClient)
  let some payment ← trackPayment hash
    | return none
  if payment.paymentPreimage = "" then
    return none
  if payment.paymentPreimage = zeroPreimage then
    return none
  let preimage ← toPreimage payment.paymentPreimage
  let label ← orGeneral (Prog.perform (I := Lnd) (.getLabel payment.paymentIndex))
  return some ⟨preimage, label.getD ""⟩

/-- `has_pending_or_complete_payment`. -/
def hasPendingOrCompletePayment (hash : PaymentHash) : LndProgram Bool := do
  ExceptT.mk (Prog.perform (I := Lnd) .getRouterClient)
  let some payment ← trackPayment hash
    | return false
  match payment.status with
  | .unknown => return true
  | .inFlight => return true
  | .succeeded => return true
  | .failed => return false
  | .initiated => return true

/-- The updates of a payment, from the `i`-th on. The label is stored with the
index in the first. -/
def readUpdates (request : SendPaymentRequest) (label : String) (i : ℕ) :
    ℕ → LndProgram PaymentResult
  | 0 => throw (.general (.internal "did not receive final update from payment"))
  | n + 1 => do
    let some update ← orDisconnected (Prog.perform (I := Lnd) (.update request i))
      | throw (.general (.internal "did not receive final update from payment"))
    if i = 0 then
      orGeneral (Prog.perform (I := Lnd) (.addLabel label update.paymentIndex))
    match update.status with
    | .unknown => readUpdates request label (i + 1) n
    | .inFlight => readUpdates request label (i + 1) n
    | .succeeded => return .success (← toPreimage update.paymentPreimage)
    | .failed => return .failure update.failureReason.asStrName
    | .initiated => readUpdates request label (i + 1) n

/-- `pay`. -/
def pay (request : PaymentRequest) : LndProgram PaymentResult := do
  ExceptT.mk (Prog.perform (I := Lnd) .getRouterClient)
  orDisconnected (Prog.perform (I := Lnd) .resetMissionControl)
  let send : SendPaymentRequest := ⟨request.bolt11, request.feeLimitMsat.toInt64,
    request.timeoutSeconds.toUInt32.toInt32, request.cltvLimit.toInt32⟩
  orDisconnected (Prog.perform (I := Lnd) (.sendPaymentV2 send))
  let updates ← Prog.ask (I := Lnd) (.countUpdates send)
  readUpdates send request.label 0 updates

end Lnd

/-- **The client of LND.** -/
def lndClient : Client Lnd
  | .getPaymentState hash label => (Lnd.getPaymentState hash label).run
  | .getPreimage hash => (Lnd.getPreimage hash).run
  | .hasPendingOrCompletePayment hash => (Lnd.hasPendingOrCompletePayment hash).run
  | .pay request => (Lnd.pay request).run

end Swapd
