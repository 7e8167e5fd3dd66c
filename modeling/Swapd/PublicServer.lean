import Swapd.ChainFilter
import Swapd.SwapService

/-!
# The public server

`pay_swap` and `refund_swap`, call by call in the order in which the source
awaits them. `paySwap` is cut where its meaning changes: what an invoice must
be like, what a swap must be like, how long the payment may take, which outputs
it is made for, the rehearsal of the claim, and – from the lock on – the payment
itself. Each part ends a request with the status its source returns.

What the libraries parse is a parameter, `Codec`. Sums of amounts wrap, as they
do in a release build.
-/

namespace Swapd

/-- What the server reads of an invoice. -/
structure Bolt11Invoice where
  amountMilliSatoshis : Option UInt64
  paymentHash : PaymentHash
  minFinalCltvExpiryDelta : UInt64
  payeePubKey : PublicKey
deriving DecidableEq

/-- **What the libraries parse**, on the network of the server. -/
structure Codec where
  /-- `str::parse::<Bolt11Invoice>`. -/
  parseInvoice : String → Option Bolt11Invoice
  /-- `Transaction::consensus_decode`. -/
  decodeTransaction : Bytes → Option Transaction
  /-- `MusigPubNonce::from_slice`. -/
  parsePubNonce : Bytes → Option MusigPubNonce
  /-- `str::parse::<Address>` and `require_network`. -/
  parseAddress : String → Option Address
  /-- Whether `Address::from_script` succeeds. -/
  standard : ScriptBuf → Bool

/-- **The public server**: its parameters. -/
structure SwapServer where
  maxSwapAmountSat : UInt64
  minConfirmations : UInt64
  minClaimBlocks : UInt32
  minUtxoAmountSat : UInt64
  minViableCltv : UInt32
  payFeeLimitBaseMsat : UInt64
  payFeeLimitPpm : UInt64
  payTimeoutSeconds : UInt16
  swapService : SwapService
  codec : Codec

/-- `SwapParameters`. -/
structure SwapParameters where
  maxSwapAmountSat : UInt64
  minSwapAmountSat : UInt64
  minUtxoAmountSat : UInt64
deriving DecidableEq

/-- A request of `pay_swap`. -/
structure PaySwapRequest where
  paymentRequest : String
deriving DecidableEq

/-- A response of `pay_swap`. -/
structure PaySwapResponse where
deriving DecidableEq

/-- A request of `refund_swap`. -/
structure RefundSwapRequest where
  transaction : Bytes
  inputIndex : UInt32
  pubNonce : Bytes
  address : String
deriving DecidableEq

/-- A response of `refund_swap`. -/
structure RefundSwapResponse where
  partialSignature : Bytes
  pubNonce : Bytes
deriving DecidableEq

/-- What `refund_swap` has done when it succeeds: the response, and the hash of
the swap it is for, which the client knows and the response does not repeat. -/
structure RefundedSwap where
  hash : PaymentHash
  response : RefundSwapResponse
deriving DecidableEq

/-- The preimage of the rehearsal. -/
def fakePreimage : Preimage := ⟨List.replicate 32 0, by simp⟩

/-- The confirmation target the minimum amount is computed for. -/
def minSwapAmountConfTarget : ℤ := 12

namespace SwapServer

open Prog (ask rejectIf)
open Status (invalidArgument failedPrecondition internal unknown)

/-- A single service call. -/
private abbrev perform (c : Call Lightning) : Prog (Services Lightning) c.Reply :=
  Prog.perform (I := Services Lightning) c

variable (server : SwapServer)

/-- The parameters a fee estimate leads to. -/
def swapParametersOf (feeEstimate : FeeEstimate) : SwapParameters :=
  -- Assume a transaction weight of 1000.
  let minUtxoAmountSat := feeEstimate.satPerKw.toUInt64 * 3 / 2
  let minUtxoAmountSat := max minUtxoAmountSat server.minUtxoAmountSat
  ⟨server.maxSwapAmountSat, minUtxoAmountSat, minUtxoAmountSat⟩

/-- `get_swap_parameters`. -/
def getSwapParameters : Program Status SwapParameters := do
  let feeEstimate ← orFail Status.ofFeeEstimateError
    (perform (.estimateFee minSwapAmountConfTarget))
  pure (server.swapParametersOf feeEstimate)

/-! ## `pay_swap` -/

/-- The invoice of a request: it parses, and its amount is one in satoshis. -/
def acceptInvoice (req : PaySwapRequest) :
    Program Status (Bolt11Invoice × UInt64) := do
  let some invoice := server.codec.parseInvoice req.paymentRequest
    | throw (invalidArgument "invalid payment request")
  let some amountMsat := invoice.amountMilliSatoshis
    | throw (invalidArgument "payment request must have an amount")
  rejectIf (amountMsat / 1000 * 1000 ≠ amountMsat)
    (invalidArgument "invoice amount must be a round satoshi amount")
  pure (invoice, amountMsat)

/-- The amount is within the bounds of the moment. -/
def acceptAmount (amountSat : UInt64) : Program Status SwapParameters := do
  let parameters ← server.getSwapParameters
  rejectIf (parameters.maxSwapAmountSat < amountSat)
    (invalidArgument "amount exceeds max swap amount")
  rejectIf (amountSat < parameters.minSwapAmountSat)
    (invalidArgument "amount is below min swap amount")
  pure parameters

/-- The swap of an invoice, if it has not been paid. -/
def unpaidSwap (hash : PaymentHash) : Program Status SwapState := do
  let swapState ← orFail Status.ofGetSwapsError (perform (.getSwapByHash hash))
  rejectIf (swapState.preimage.isSome) (failedPrecondition "swap already paid")
  pure swapState

/-- The smallest confirmation height. -/
def minConfirmationHeight : List Txo → Option UInt64
  | [] => none
  | txo :: txos => some (txos.foldl (fun m t => min m t.blockHeight) txo.blockHeight)

/-- The blocks a payment may take: those the swap has left, less the blocks
kept for claiming. -/
def payoutBlocksLeft (swapState : SwapState) (minHeight currentHeight : UInt64)
    (minFinalCltvExpiryDelta : UInt32) : Program Status UInt32 := do
  let left := swapState.blocksLeft minHeight currentHeight
  rejectIf (left < 0) (failedPrecondition "swap expired")
  let blocksLeft := (UInt32.ofNat left.toNat).saturatingSub server.minClaimBlocks
  rejectIf (blocksLeft = 0 ∨
      blocksLeft.saturatingSub minFinalCltvExpiryDelta < server.minViableCltv)
    (failedPrecondition "swap expired")
  pure blocksLeft

/-- Whether an output is confirmed and large enough to be paid for. -/
def isPayable (parameters : SwapParameters) (currentHeight : UInt64) (txo : Txo) : Bool :=
  !(txo.confirmations currentHeight < server.minConfirmations)
    && !(txo.txOut.value < parameters.minUtxoAmountSat)

/-- The outputs left by the chain filter, or all of them if it fails. -/
def filterOrKeep (txos : List Txo) : Program Status (List Txo) :=
  ExceptT.mk ((ChainFilter.filterTxos server.codec.standard txos).run >>= fun r =>
    match r with
    | .ok txos => pure (.ok txos)
    | .error _ => pure (.ok txos))

/-- The sum of the values of outputs. -/
def sumValues (txos : List Txo) : UInt64 :=
  txos.foldl (fun sum utxo => sum + utxo.txOut.value) 0

/-- The rehearsal of the claim, to a fake address and with a fake preimage. -/
def rehearseClaim (swap : Swap) (txos : List Txo) (currentHeight : UInt64) :
    Program Status Unit := do
  let feeEstimate ← orFail Status.ofFeeEstimateError (perform (.estimateFee 6))
  let some fakeKey := server.swapService.crypto.compressedPublicKeyFromSlice
      (List.replicate 33 0x02)
    | throw (internal "internal error")
  let fakeAddress := server.swapService.crypto.p2wpkh fakeKey
  let keys ← ask (I := Services Lightning) .newPrivateKeys
  let claimables := txos.map (fun utxo => ⟨swap, utxo, none, fakePreimage⟩)
  match server.swapService.createClaimTx keys claimables feeEstimate currentHeight
      fakeAddress with
  | .ok _ => pure ()
  | .error _ => throw (failedPrecondition "value too low")

/-- **A payment that has been accepted**: what the rest of `pay_swap` uses of
the checks before it. -/
structure Accepted where
  invoice : Bolt11Invoice
  amountMsat : UInt64
  parameters : SwapParameters
  swapState : SwapState
  currentHeight : UInt64
  blocksLeft : UInt32
  txos : List Txo

/-- `pay_swap`, from the unpaid swap to the lock: the outputs the payment is
for, and the time it may take. -/
def acceptOutputs (invoice : Bolt11Invoice) (amountMsat : UInt64)
    (parameters : SwapParameters) (swapState : SwapState) : Program Status Accepted := do
  rejectIf (2 ^ 32 ≤ invoice.minFinalCltvExpiryDelta.toNat)
    (invalidArgument "min_final_cltv_expiry_delta too high")
  let txos ← orFail Status.ofChainRepositoryError
    (perform (.getTxosForAddress swapState.swap.pub.address))
  let some minHeight := minConfirmationHeight txos
    | throw (failedPrecondition "no utxos found")
  let currentHeight ← orFail Status.ofChainError (perform .getBlockheight)
  let blocksLeft ← server.payoutBlocksLeft swapState minHeight currentHeight
    invoice.minFinalCltvExpiryDelta.toUInt32
  let txos ← server.filterOrKeep
    (txos.filter (server.isPayable parameters currentHeight))
  rejectIf (sumValues txos ≠ amountMsat / 1000)
    (failedPrecondition "confirmed utxo values don't match invoice value")
  server.rehearseClaim swapState.swap txos currentHeight
  pure ⟨invoice, amountMsat, parameters, swapState, currentHeight, blocksLeft, txos⟩

/-- `pay_swap`, up to the lock. -/
def acceptPayment (req : PaySwapRequest) : Program Status Accepted := do
  let (invoice, amountMsat) ← server.acceptInvoice req
  let parameters ← server.acceptAmount (amountMsat / 1000)
  let swapState ← unpaidSwap invoice.paymentHash
  server.acceptOutputs invoice amountMsat parameters swapState

/-- The attempt that is recorded for an accepted payment. -/
def Accepted.attempt (a : Accepted) (req : PaySwapRequest) (now : SystemTime)
    (label : String) : PaymentAttempt where
  creationTime := now
  label := label
  paymentHash := a.swapState.swap.pub.hash
  outputs := a.txos.map (fun utxo => utxo.outpoint)
  amountMsat := a.amountMsat
  destination := a.invoice.payeePubKey
  paymentRequest := req.paymentRequest

/-- The payment that is asked for once the lock is held. -/
def paymentRequest (a : Accepted) (req : PaySwapRequest) (label : String) :
    PaymentRequest where
  bolt11 := req.paymentRequest
  cltvLimit := a.blocksLeft
  paymentHash := a.invoice.paymentHash
  label := label
  feeLimitMsat := server.payFeeLimitBaseMsat
    + a.amountMsat.saturatingMul server.payFeeLimitPpm / 1000000
  timeoutSeconds := server.payTimeoutSeconds

/-- `pay_swap`: the swap is locked and the attempt recorded. -/
def lockForPayment (req : PaySwapRequest) (a : Accepted) : Program Status String := do
  let now ← ask (I := Services Lightning) .now
  let some unixNsNow := SystemTime.sinceEpoch now
    | throw (internal "internal error")
  let label := paymentLabel a.invoice.paymentHash unixNsNow
  match ← ask (I := Services Lightning)
      (.lockAddPaymentAttempt (a.attempt req now label)) with
  | .ok _ => pure label
  | .error .alreadyLocked => throw (failedPrecondition "swap is locked")
  | .error _ => throw (internal "internal error")

/-- `pay_swap`, from the lock on: the payment is made, and its result stored.
That the result could not be stored is only logged. -/
def payLocked (req : PaySwapRequest) (a : Accepted) (label : String) :
    Program Status PaySwapResponse := do
  let payResult ← orFail Status.ofLightningError
    (perform (.node (.pay (server.paymentRequest a req label))))
  let _ ← ask (I := Services Lightning)
    (.unlockAddPaymentResult a.swapState.swap.pub.hash label payResult)
  match payResult with
  | .success _ => pure ⟨⟩
  | .failure _ => throw (unknown "payment failed")

/-- **`pay_swap`.** -/
def paySwap (req : PaySwapRequest) : Program Status PaySwapResponse := do
  let a ← server.acceptPayment req
  let label ← lockForPayment req a
  server.payLocked req a label

/-! ## `refund_swap` -/

/-- The output an input spends. -/
def prevout (vin : TxIn) : Program Status TxOut := do
  let tx ← orFail (fun _ => invalidArgument "invalid transaction input")
    (perform (.getTransaction vin.previousOutput.txid))
  match tx.output[vin.previousOutput.vout.toNat]? with
  | none => throw (invalidArgument "invalid transaction input")
  | some txOut => pure txOut

/-- The outputs all inputs spend. Each of them is asked for before the first
error is returned. -/
def prevouts : List TxIn → Program Status (List TxOut)
  | [] => pure []
  | vin :: vins => do
    let first ← ExceptT.lift (prevout vin).run
    let rest ← ExceptT.lift (prevouts vins).run
    let first ← Prog.ofExcept first
    let rest ← Prog.ofExcept rest
    pure (first :: rest)

/-- What a refund request is about, once it has been checked. -/
structure RefundChecked where
  swap : SwapState
  partialSignature : MusigPartialSignature
  ourPubNonce : MusigPubNonce
  refundId : String

/-- `refund_swap`, up to the lock. -/
def checkRefund (req : RefundSwapRequest) : Program Status RefundChecked := do
  let some tx := server.codec.decodeTransaction req.transaction
    | throw (invalidArgument "invalid transaction")
  let some theirPubNonce := server.codec.parsePubNonce req.pubNonce
    | throw (invalidArgument "invalid pub_nonce")
  let inputIndex := req.inputIndex.toNat
  rejectIf (tx.input.length ≤ inputIndex) (invalidArgument "invalid input_index")
  let some address := server.codec.parseAddress req.address
    | throw (invalidArgument "invalid address")
  let swap ← orFail Status.ofGetSwapsError (perform (.getSwapByAddress address))
  let prevouts ← prevouts tx.input
  let some refundPrevout := prevouts[inputIndex]?
    | throw (invalidArgument "invalid input_index")
  let some refundPrevoutAddress :=
      Address.fromScript server.codec.standard refundPrevout.scriptPubkey
    | throw (invalidArgument "invalid transaction input")
  rejectIf (refundPrevoutAddress ≠ address)
    (invalidArgument "invalid transaction input")
  let keys ← ask (I := Services Lightning) .newPrivateKeys
  let (partialSignature, ourPubNonce) ← Prog.ofExcept
    ((server.swapService.partialSignRefundTx keys swap.swap tx prevouts inputIndex
      theirPubNonce).mapError (fun _ => internal "internal error"))
  let rnd ← orFail Status.ofRandomError (perform .rnd32)
  pure ⟨swap, partialSignature, ourPubNonce, rnd.toHex⟩

/-- `refund_swap`, from the lock on. The lock is taken for good, except where
the node knows of a payment or cannot say. -/
def lockForRefund (r : RefundChecked) : Program Status RefundedSwap := do
  let hash := r.swap.swap.pub.hash
  match ← ask (I := Services Lightning) (.lockSwapRefund hash r.refundId) with
  | .ok _ => pure ()
  | .error .alreadyLocked => throw (failedPrecondition "swap is locked")
  | .error _ => throw (internal "internal error")
  match ← ask (I := Services Lightning) (.node (.hasPendingOrCompletePayment hash)) with
  | .ok false => pure ⟨hash, r.partialSignature, r.ourPubNonce⟩
  | .ok true => do
    let _ ← ask (I := Services Lightning) (.unlockSwapRefund hash r.refundId)
    throw (failedPrecondition "swap is locked")
  | .error _ => do
    let _ ← ask (I := Services Lightning) (.unlockSwapRefund hash r.refundId)
    throw (internal "internal error")

/-- **`refund_swap`.** -/
def refundSwap (req : RefundSwapRequest) : Program Status RefundedSwap := do
  let r ← server.checkRefund req
  lockForRefund r

end SwapServer

end Swapd
