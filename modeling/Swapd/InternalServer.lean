import Swapd.ClaimMonitor

/-!
# Claims of the operator

The operator can claim any outputs that are claimable, at a fee rate and to an
address of their own, and says whether the monitor may bump the claim. That flag is
stored with the claim.
-/

namespace Swapd

/-- `ClaimRequest`. -/
structure ClaimRequest where
  outpoints : List String
  destinationAddress : Option String
  feePerKw : Option UInt32
  autoBump : Bool
deriving DecidableEq

/-- `ClaimResponse`. -/
structure ClaimResponse where
  txId : Txid
  feePerKw : UInt32
deriving DecidableEq

/-- **The server of the operator**, with what it parses and prints by libraries. -/
structure InternalServer where
  service : SwapService
  computeTxid : Transaction → Txid
  parseOutpoint : String → Option OutPoint
  /-- An address is parsed, and is of the network; or the text of the error. -/
  parseAddress : String → Except String Address
  /-- The text of a failure. -/
  describe : ClaimError → String

namespace InternalServer

open Prog

/-- The programs of the server. -/
abbrev ServerProgram (α : Type) : Type := ExceptT Status (Prog ClaimServices) α

variable (server : InternalServer)

/-- A failure that is passed on with its text. -/
def failWith {α : Type} (p : ClaimProgram α) : ServerProgram α :=
  orFail (fun e => Status.internal (server.describe e)) p.run

/-- An outpoint of the request is looked up among the claimables. -/
def selectClaimable (allClaimables : List ClaimableUtxo) (text : String) :
    Except Status ClaimableUtxo :=
  match server.parseOutpoint text with
  | none => .error (Status.invalidArgument ("invalid outpoint " ++ text))
  | some outpoint =>
    match ClaimMonitor.getClaimable allClaimables outpoint with
    | some claimable => .ok claimable
    | none => .error (Status.invalidArgument ("outpoint " ++ text ++ " not found"))

/-- The rate of the request, or an estimate. -/
def selectFee (request : ClaimRequest) (minBlocksLeft : ℤ) : ServerProgram FeeEstimate :=
  match request.feePerKw with
  | some feePerKw => pure ⟨feePerKw⟩
  | none => orFail Status.ofFeeEstimateError
      (perform (I := ClaimServices) (.estimateFee minBlocksLeft))

/-- The address of the request, or a new one. -/
def selectAddress (request : ClaimRequest) : ServerProgram Address :=
  match request.destinationAddress with
  | some text => Prog.ofExcept ((server.parseAddress text).mapError Status.invalidArgument)
  | none => server.failWith (ClaimMonitor.await (perform (I := ClaimServices) .newAddress))

/-- `claim`. -/
def claim (request : ClaimRequest) : ServerProgram ClaimResponse := do
  let allClaimables ← server.failWith ClaimMonitor.askClaimable
  let claimables ← Prog.ofExcept (request.outpoints.mapM (server.selectClaimable allClaimables))
  let currentHeight ← orFail Status.ofChainError (perform (I := ClaimServices) .getBlockheight)
  let some minBlocksLeft := (claimables.map (fun c => c.blocksLeft currentHeight)).min?
    | throw (Status.invalidArgument "no outpoints selected")
  let feeEstimate ← selectFee request minBlocksLeft
  let destinationAddress ← server.selectAddress request
  let tx ← server.failWith (ClaimMonitor.claimService server.service claimables feeEstimate
    currentHeight destinationAddress request.autoBump)
  pure ⟨server.computeTxid tx, feeEstimate.satPerKw⟩

end InternalServer

end Swapd
