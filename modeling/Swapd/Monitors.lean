import Swapd.PublicServer

/-!
# The monitors of payments

Two background tasks write results of payments. The historical payment monitor
goes through the attempts that had no result when its process started, asks
the node about each, and keeps those still pending for its next pass. The
preimage monitor asks for the preimage of every swap that has unspent outputs
and none stored.

A process initializes its payment monitor before it starts serving; `main` is
that order, with the number of passes the monitor gets to make before the
process ends. A pass of the preimage monitor is a program of its own. Its
queries run concurrently in the source; here one pass makes them one after the
other, in the order in which they complete, and any number of passes run side
by side.
-/

namespace Swapd

/-- What a background task fails with; it is only logged. -/
inductive MonitorError where
  | general
deriving DecidableEq

namespace HistoricalPaymentMonitor

/-- What the monitor does with a payment that has a state: a final one is
stored, and an attempt that is pending is kept. -/
def handleState (attempt : PaymentAttempt) :
    PaymentState → Program MonitorError (List PaymentAttempt)
  | .success preimage => do
    orFail (fun _ => .general) (Prog.perform (I := Services Lightning)
      (.unlockAddPaymentResult attempt.paymentHash attempt.label (.success preimage)))
    pure []
  | .failure error => do
    orFail (fun _ => .general) (Prog.perform (I := Services Lightning)
      (.unlockAddPaymentResult attempt.paymentHash attempt.label (.failure error)))
    pure []
  | .pending => pure [attempt]

/-- One attempt is checked; the attempts returned are those still pending. -/
def checkPayment (attempt : PaymentAttempt) :
    Program MonitorError (List PaymentAttempt) := do
  match ← Prog.ask (I := Services Lightning)
      (.node (.getPaymentState attempt.paymentHash attempt.label)) with
  | .ok state => handleState attempt state
  | .error .paymentNotFound => handleState attempt (.failure "cancelled")
  | .error _ => throw .general

/-- `do_check_payments`. -/
def doCheckPayments : List PaymentAttempt →
    Program MonitorError (List PaymentAttempt)
  | [] => pure []
  | attempt :: attempts => do
    let pending ← checkPayment attempt
    let rest ← doCheckPayments attempts
    pure (pending ++ rest)

/-- `initialize`. -/
def initializeAttempts : Program MonitorError (List PaymentAttempt) := do
  let unhandledAttempts ← orFail (fun _ => .general)
    (Prog.perform (I := Services Lightning) .getUnhandledPaymentAttempts)
  doCheckPayments unhandledAttempts

/-- `start`, for as many passes as are left. A pass that fails leaves the list
as it was. -/
def start : ℕ → List PaymentAttempt → Prog (Services Lightning) Unit
  | 0, _ => pure ()
  | _, [] => pure ()
  | n + 1, attempts => (doCheckPayments attempts).run >>= fun r =>
    match r with
    | .ok pending => start n pending
    | .error _ => start n attempts

end HistoricalPaymentMonitor

/-- **A process**: the payment monitor is initialized, the servers and the
other monitors are started, and the payment monitor – if it could be
initialized – makes its passes. -/
def main (passes : ℕ) : Prog (Services Lightning) Unit :=
  HistoricalPaymentMonitor.initializeAttempts.run >>= fun r =>
    Prog.perform (I := Services Lightning) .ready >>= fun _ =>
      match r with
      | .ok attempts => HistoricalPaymentMonitor.start passes attempts
      | .error _ => pure ()

namespace PreimageMonitor

/-- The preimage of one hash is asked for, and stored if there is one. -/
def queryPreimage (hash : PaymentHash) : Prog (Services Lightning) Unit :=
  Prog.perform (I := Services Lightning) (.node (.getPreimage hash)) >>= fun r =>
    match r with
    | .ok (some result) =>
      Prog.perform (I := Services Lightning)
        (.unlockAddPaymentResult hash result.label (.success result.preimage)) >>=
        fun _ => pure ()
    | .ok none => pure ()
    | .error _ => pure ()

/-- The loop over the queries, in the order of completion. -/
def queryPreimages : List PaymentHash → Prog (Services Lightning) Unit
  | [] => pure ()
  | hash :: hashes => queryPreimage hash >>= fun _ => queryPreimages hashes

/-- `do_query_preimages`. -/
def doQueryPreimages : Program MonitorError Unit := do
  let utxos ← orFail (fun _ => .general)
    (Prog.perform (I := Services Lightning) .getUtxos)
  let addresses := utxos.map (fun u => u.address)
  let swaps ← orFail (fun _ => .general)
    (Prog.perform (I := Services Lightning) (.getSwaps addresses))
  let hashes := (swaps.filter (fun swap => swap.preimage.isNone)).map
    (fun swap => swap.swap.pub.hash)
  let order ← Prog.ask (I := Services Lightning) (.completionOrder hashes.length)
  ExceptT.lift (queryPreimages (Table.permute order hashes))

end PreimageMonitor

end Swapd
