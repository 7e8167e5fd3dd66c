import Swapd.Services

/-!
# The client of Core Lightning

Each method of the client, as the calls it makes to the node. Two queries that
are joined are served in either order, and tasks complete in any; both are
calls that answer with an order.

A node reports a failed `waitsendpay` as a status whose message contains its
code; `parseClnError` finds it there.
-/

namespace Swapd

/-- The statuses of a payment, and of a part. -/
inductive ListStatus where
  | pending
  | failed
  | complete
deriving DecidableEq

/-- `ListpaysPays`. -/
structure ListpaysPays where
  label : Option String
  status : ListStatus
  preimage : Option Bytes
deriving DecidableEq

/-- `ListsendpaysPayments`. -/
structure ListsendpaysPayments where
  groupid : UInt64
  partid : Option UInt64
  paymentPreimage : Option Bytes
deriving DecidableEq

/-- `PayRequest`. -/
structure PayRequest where
  label : String
  bolt11 : String
  maxfee : UInt64
  retryFor : UInt32
  maxdelay : UInt32
deriving DecidableEq

/-- `PayResponse`. -/
structure PayResponse where
  paymentPreimage : Bytes
  status : ListStatus
  warningPartialCompletion : Option String
deriving DecidableEq

/-- `WaitsendpayResponse`. -/
structure WaitsendpayResponse where
  paymentPreimage : Option Bytes
deriving DecidableEq

/-- **The calls of the client.** -/
inductive ClnCall where
  | getClient
  | listPays (hash : PaymentHash)
  | listSendPays (hash : PaymentHash) (status : ListStatus)
  | pay (request : PayRequest)
  | waitSendPay (hash : PaymentHash) (groupid : UInt64) (partid : Option UInt64)
  | firstServed
  | completionOrder (n : ℕ)
  | panic
deriving DecidableEq

/-- What the node answers. -/
@[reducible] def ClnCall.Reply : ClnCall → Type
  | getClient => Except LightningError Unit
  | listPays _ => Except Status (List ListpaysPays)
  | listSendPays _ _ => Except Status (List ListsendpaysPayments)
  | pay _ => Except Status PayResponse
  | waitSendPay _ _ _ => Except Status WaitsendpayResponse
  | firstServed => Bool
  | completionOrder _ => List ℕ
  | panic => Empty

/-- The interface of the node. -/
@[reducible] def Cln : Interface where
  Call := ClnCall
  Reply := ClnCall.Reply

/-- The programs of the client. -/
abbrev ClnProgram (α : Type) : Type := ExceptT LightningError (Prog Cln) α

namespace Cln

/-- The digits a text starts with. The pattern of the client also takes decimal digits
of other scripts for digits, which no node writes. -/
def digits (cs : List Char) : List Char := cs.takeWhile Char.isDigit

/-- The number of some digits. -/
def number (cs : List Char) : ℕ := cs.foldl (fun n c => 10 * n + (c.toNat - 48)) 0

/-- The code at the start of a text, in the form `Some(-1)`. -/
def codeAt : List Char → Option ℤ
  | 'S' :: 'o' :: 'm' :: 'e' :: '(' :: cs =>
    let negative := cs.head? = some '-'
    let cs := if negative then cs.tail else cs
    if digits cs ≠ [] ∧ (cs.drop (digits cs).length).head? = some ')' then
      some (if negative then -(number (digits cs)) else number (digits cs))
    else none
  | _ => none

/-- `parse_cln_error`: the first code in the message, if it is one of 32 bits. -/
def parseClnError (status : Status) : Option ℤ :=
  match status.message.toList.tails.findSome? codeAt with
  | some code => if -2 ^ 31 ≤ code ∧ code < 2 ^ 31 then some code else none
  | none => none

/-- The codes of a part that has failed. -/
def failureCodes : List ℤ := [202, 203, 204, 208, 209]

/-- A call to the node that succeeds, or the connection has failed. -/
def orDisconnected {α : Type} (r : Except Status α) : ClnProgram α :=
  Prog.ofExcept (r.mapError (fun _ => .connectionFailed))

/-- The client is connected. -/
def getClient : ClnProgram Unit := ExceptT.mk (Prog.perform (I := Cln) .getClient)

/-- A preimage in an answer of the node. -/
def toPreimage (bytes : Bytes) : ClnProgram Preimage :=
  match Bytes32.ofBytes bytes with
  | some preimage => pure preimage
  | none => throw .invalidPreimage

/-- Two queries that are joined. -/
def joinQueries {α : Type} (first second : Prog Cln α) : Prog Cln (α × α) := do
  if ← Prog.perform (I := Cln) .firstServed then
    let a ← first
    let b ← second
    pure (a, b)
  else
    let b ← second
    let a ← first
    pure (a, b)

/-- The two listings of the parts of a payment, pending and complete. -/
def listParts (hash : PaymentHash) : Prog Cln (Except Status (List ListsendpaysPayments)
    × Except Status (List ListsendpaysPayments)) :=
  joinQueries (Prog.perform (I := Cln) (.listSendPays hash .pending))
    (Prog.perform (I := Cln) (.listSendPays hash .complete))

/-- `get_payment_state`. -/
def getPaymentState (hash : PaymentHash) (label : String) : ClnProgram PaymentState := do
  getClient
  let pays ← orDisconnected (← Prog.ask (I := Cln) (.listPays hash))
  let some payment := pays.find? (fun pay => pay.label.getD "" = label)
    | throw .paymentNotFound
  match payment.status with
  | .complete =>
    match payment.preimage with
    | none => do
      let impossible ← Prog.ask (I := Cln) .panic
      nomatch impossible
    | some preimage => return .success (← toPreimage preimage)
  | .pending => return .pending
  | .failed => return .failure "payment failed"

/-- `get_preimage`. -/
def getPreimage (hash : PaymentHash) : ClnProgram (Option PreimageResult) := do
  getClient
  let pays ← orDisconnected (← Prog.ask (I := Cln) (.listPays hash))
  match pays.findSome? (fun pay => pay.preimage.map (fun preimage => (pay, preimage))) with
  | some (payment, preimage) => return some ⟨← toPreimage preimage, payment.label.getD ""⟩
  | none => return none

/-- `has_pending_or_complete_payment`. -/
def hasPendingOrCompletePayment (hash : PaymentHash) : ClnProgram Bool := do
  getClient
  let (pending, complete) ← ExceptT.lift (listParts hash)
  if (← orDisconnected pending) ≠ [] then
    return true
  if (← orDisconnected complete) ≠ [] then
    return true
  return false

/-- The results of the parts that are waited for, in the order in which they
come. -/
def collectParts (hash : PaymentHash) :
    List ListsendpaysPayments → ClnProgram (Option PaymentResult)
  | [] => return none
  | payment :: payments => do
    match ← Prog.ask (I := Cln) (.waitSendPay hash payment.groupid payment.partid) with
    | .ok ⟨some preimage⟩ => return some (.success (← toPreimage preimage))
    | .ok ⟨none⟩ => collectParts hash payments
    | .error status =>
      match parseClnError status with
      | some code =>
        if code ∈ failureCodes then collectParts hash payments else throw (.general status)
      | none => throw (.general status)

/-- `wait_payment`. -/
def waitPayment (hash : PaymentHash) : ClnProgram (Option PaymentResult) := do
  let (pending, completed) ← ExceptT.lift (listParts hash)
  let completed ← orDisconnected completed
  let pending ← orDisconnected pending
  match completed.findSome? (fun payment => payment.paymentPreimage) with
  | some preimage => return some (.success (← toPreimage preimage))
  | none =>
    let order ← Prog.ask (I := Cln) (.completionOrder pending.length)
    collectParts hash (Table.permute order pending)

/-- The result of waiting, for a payment that did not return one. -/
def waitForResult (hash : PaymentHash) : ClnProgram PaymentResult := do
  match ← waitPayment hash with
  | some result => return result
  | none => return .failure "unknown failure"

/-- `pay`. -/
def pay (request : PaymentRequest) : ClnProgram PaymentResult := do
  getClient
  match ← Prog.ask (I := Cln) (.pay ⟨request.label, request.bolt11, request.feeLimitMsat,
      request.timeoutSeconds.toUInt32, request.cltvLimit⟩) with
  | .error _ => waitForResult request.paymentHash
  | .ok resp =>
    match resp.status with
    | .complete => return .success (← toPreimage resp.paymentPreimage)
    | .pending => waitForResult request.paymentHash
    | .failed =>
      match resp.warningPartialCompletion with
      | some _ => waitForResult request.paymentHash
      | none => return .failure "unknown failure"

end Cln

/-- **The client of Core Lightning.** -/
def clnClient : Client Cln
  | .getPaymentState hash label => (Cln.getPaymentState hash label).run
  | .getPreimage hash => (Cln.getPreimage hash).run
  | .hasPendingOrCompletePayment hash => (Cln.hasPendingOrCompletePayment hash).run
  | .pay request => (Cln.pay request).run

/-- A code is found in the text of an error. -/
example : Cln.parseClnError ⟨.unknown, "code: Some(203), message: failed"⟩ = some 203 := by decide

end Swapd
