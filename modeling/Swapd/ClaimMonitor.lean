import Swapd.ClaimService
import Swapd.Interaction
import Swapd.Services

/-!
# The claim monitor

A pass of the claim monitor sorts what is claimable: stored claims whose inputs
are all still claimable are rechecked, and what is no input of these and has
been paid is claimed, in one transaction for each swap. `planClaims` is that
sorting, with the maps and the set it goes through; `doClaim` is the pass, and
`recheckClaim` and `claim` are what it does with each part.

The source runs the parts concurrently. Here they run one after the other, in
the order in which they complete.
-/

namespace Swapd

/-- A claim transaction that was broadcast. -/
structure Claim where
  creationTime : SystemTime
  tx : Transaction
  destinationAddress : Address
  feePerKw : UInt32
  autoBump : Bool
deriving DecidableEq

/-- What broadcasting fails with. -/
inductive BroadcastError where
  | chain (error : ChainError)
  | insufficientFeeRejectingReplacement (message : String)
  | unknownError (message : String)
deriving DecidableEq

/-- What the claim monitor fails with; it is only logged. -/
inductive ClaimError where
  | general
deriving DecidableEq

/-! ## The services of the monitor -/

/-- **The calls of the claim monitor.** -/
inductive ClaimCall where
  | getBlockheight
  | getUtxos
  | getSwapsWithPaidOutpoints (addresses : List Address)
  | getClaims (outpoints : List OutPoint)
  | estimateFee (confTarget : ℤ)
  | newAddress
  | newPrivateKeys
  | broadcastTx (tx : Transaction)
  | now
  | addClaim (claim : Claim)
  | addWatchAddress (address : Address)
  | iterationOrder (n : ℕ)
  | completionOrder (n : ℕ)
  | panic

/-- Their replies. -/
@[reducible] def ClaimCall.Reply : ClaimCall → Type
  | getBlockheight => Except ChainError UInt64
  | getUtxos => Except ChainRepositoryError (List AddressUtxo)
  | getSwapsWithPaidOutpoints _ => Except GetSwapsError PaidSwaps
  | getClaims _ => Except GeneralError (List Claim)
  | estimateFee _ => Except FeeEstimateError FeeEstimate
  | newAddress => Except GeneralError Address
  | newPrivateKeys => ℕ → Except PrivateKeyError SecretKey
  | broadcastTx _ => Except BroadcastError Unit
  | now => SystemTime
  | addClaim _ => Except GeneralError Unit
  | addWatchAddress _ => Except ChainRepositoryError Unit
  | iterationOrder _ => List ℕ
  | completionOrder _ => List ℕ
  | panic => Empty

/-- The services of the claim monitor. -/
@[reducible] def ClaimServices : Interface where
  Call := ClaimCall
  Reply := ClaimCall.Reply

/-- The programs of the claim monitor. -/
abbrev ClaimProgram (α : Type) : Type := ExceptT ClaimError (Prog ClaimServices) α

namespace ClaimMonitor

/-- A call that succeeds, or the monitor fails. -/
def await {ε α : Type} (p : Prog ClaimServices (Except ε α)) : ClaimProgram α :=
  orFail (fun _ => .general) p

/-! ## Claiming -/

/-- `ClaimService::claim`. -/
def claimService (service : SwapService) (claimables : List ClaimableUtxo)
    (feeEstimate : FeeEstimate) (currentHeight : UInt64) (destinationAddress : Address)
    (autoBump : Bool) : ClaimProgram Transaction := do
  let keys ← Prog.ask (I := ClaimServices) .newPrivateKeys
  match service.createClaimTx keys claimables feeEstimate currentHeight destinationAddress with
  | .error _ => throw .general
  | .ok tx =>
    await (Prog.perform (I := ClaimServices) (.broadcastTx tx))
    let creationTime ← Prog.ask (I := ClaimServices) .now
    await (Prog.perform (I := ClaimServices)
      (.addClaim ⟨creationTime, tx, destinationAddress, feeEstimate.satPerKw, autoBump⟩))
    await (Prog.perform (I := ClaimServices) (.addWatchAddress destinationAddress))
    pure tx

/-- The fee rate by which a replacement must be higher. -/
def minReplacementDiffSatPerKw : UInt32 := 250

/-- A claim is replaced, not broadcast once more. -/
def Replaces (feePerKw : UInt32) (feeEstimate : FeeEstimate) : Prop :=
  ¬feePerKw + minReplacementDiffSatPerKw > feeEstimate.satPerKw

instance (feePerKw : UInt32) (feeEstimate : FeeEstimate) :
    Decidable (Replaces feePerKw feeEstimate) :=
  inferInstanceAs (Decidable (¬_))

/-- `recheck_claim`. -/
def recheckClaim (service : SwapService) (currentHeight : UInt64) (claim : Claim)
    (claimables : List ClaimableUtxo) : ClaimProgram Unit := do
  let some blocksLeft := (claimables.map (fun r => r.blocksLeft currentHeight)).min?
    | throw .general
  let feeEstimate ← await (Prog.perform (I := ClaimServices) (.estimateFee blocksLeft))
  if Replaces claim.feePerKw feeEstimate then
    let _replacement ← claimService service claimables feeEstimate currentHeight
      claim.destinationAddress claim.autoBump
  else
    match ← Prog.ask (I := ClaimServices) (.broadcastTx claim.tx) with
    | .ok () => pure ()
    | .error (.insufficientFeeRejectingReplacement _) => pure ()
    | .error (.chain _) => throw .general
    | .error (.unknownError _) => throw .general

/-- `claim`. -/
def claim (service : SwapService) (currentHeight : UInt64) (claimables : List ClaimableUtxo) :
    ClaimProgram Unit := do
  let some blocksLeft := (claimables.map (fun r => r.blocksLeft currentHeight)).min?
    | throw .general
  let feeEstimateRes ← Prog.ask (I := ClaimServices) (.estimateFee blocksLeft)
  let addressRes ← Prog.ask (I := ClaimServices) .newAddress
  let feeEstimate ← await (pure feeEstimateRes)
  let destinationAddress ← await (pure addressRes)
  let _tx ← claimService service claimables feeEstimate currentHeight destinationAddress true

/-! ## Sorting what is claimable -/

/-- The outputs a claim spends. -/
def inputsOf (claim : Claim) : List OutPoint := claim.tx.input.map TxIn.previousOutput

/-- An outpoint is looked up among the claimables. -/
def getClaimable (claimables : List ClaimableUtxo) (outpoint : OutPoint) : Option ClaimableUtxo :=
  claimables.find? (fun c => c.utxo.outpoint = outpoint)

/-- An input of a claim is handled: it is no longer in the set, and its
claimable is pushed. Nothing is returned where `expect` fails. -/
def takeInput (claimables : List ClaimableUtxo) (state : List OutPoint × List ClaimableUtxo)
    (outpoint : OutPoint) : Option (List OutPoint × List ClaimableUtxo) := do
  let c ← getClaimable claimables outpoint
  some (state.1.filter (fun o => o ≠ outpoint), state.2 ++ [c])

/-- A stored claim is considered: it is rechecked if its inputs are all
claimable, and skipped otherwise. -/
def considerClaim (claimables : List ClaimableUtxo)
    (state : List (Claim × List ClaimableUtxo) × List OutPoint) (claim : Claim) :
    Option (List (Claim × List ClaimableUtxo) × List OutPoint) := do
  if (inputsOf claim).all (fun o => (getClaimable claimables o).isSome) then
    let (unhandledOutpoints, currentClaimables) ←
      (inputsOf claim).foldlM (takeInput claimables) (state.2, [])
    some (state.1 ++ [(claim, currentClaimables)], unhandledOutpoints)
  else some state

/-- An outpoint that is left is put with those of its swap, if it was paid. -/
def groupOutpoint (claimables : List ClaimableUtxo)
    (swaps : List (PaymentHash × List ClaimableUtxo)) (outpoint : OutPoint) :
    Option (List (PaymentHash × List ClaimableUtxo)) := do
  let c ← getClaimable claimables outpoint
  if c.paidWithRequest.isNone then some swaps
  else some (Table.pushByKey (fun c => c.swap.pub.hash) swaps c)

/-- **What a pass does**: claims to recheck, and groups to claim. -/
structure ClaimPlan where
  recheckClaims : List (Claim × List ClaimableUtxo)
  swaps : List (PaymentHash × List ClaimableUtxo)

/-- The sorting. The set of the outpoints that are left is gone through in some
order. -/
def planClaims (claimables : List ClaimableUtxo) (claims : List Claim) (order : List ℕ) :
    Option ClaimPlan := do
  let outpoints := claimables.map (fun c => c.utxo.outpoint)
  let (recheckClaims, unhandledOutpoints) ←
    claims.foldlM (considerClaim claimables) ([], outpoints)
  let swaps ← (Table.permute order unhandledOutpoints).foldlM (groupOutpoint claimables) []
  some ⟨recheckClaims, swaps⟩

/-- The programs of a plan. -/
def ClaimPlan.futures (plan : ClaimPlan) (service : SwapService) (currentHeight : UInt64)
    (order : List ℕ) : List (ClaimProgram Unit) :=
  plan.recheckClaims.map (fun r => recheckClaim service currentHeight r.1 r.2)
    ++ (Table.permute order plan.swaps).map (fun g => claim service currentHeight g.2)

/-- Programs are run to their ends, and their errors logged. -/
def runAll : List (ClaimProgram Unit) → Prog ClaimServices Unit
  | [] => pure ()
  | p :: ps => p.run >>= fun _ => runAll ps

/-- `list_claimable`. -/
def askClaimable : ClaimProgram (List ClaimableUtxo) := do
  let utxos ← await (Prog.perform (I := ClaimServices) .getUtxos)
  let addresses := utxos.map (fun u => u.address)
  let swaps ← await (Prog.perform (I := ClaimServices) (.getSwapsWithPaidOutpoints addresses))
  pure (listClaimable swaps utxos)

/-- `do_claim`. -/
def doClaim (service : SwapService) : ClaimProgram Unit := do
  let currentHeight ← await (Prog.perform (I := ClaimServices) .getBlockheight)
  let claimables ← askClaimable
  let claimables := Table.toMap (fun c => c.utxo.outpoint) claimables
  let keysOrder ← Prog.ask (I := ClaimServices) (.iterationOrder claimables.length)
  let outpoints := Table.permute keysOrder (claimables.map (fun c => c.utxo.outpoint))
  let claims ← await (Prog.perform (I := ClaimServices) (.getClaims outpoints))
  let order ← Prog.ask (I := ClaimServices) (.iterationOrder claimables.length)
  match planClaims claimables claims order with
  | none => do
    let impossible ← Prog.ask (I := ClaimServices) .panic
    nomatch impossible
  | some plan =>
    let swapsOrder ← Prog.ask (I := ClaimServices) (.iterationOrder plan.swaps.length)
    let futures := plan.futures service currentHeight swapsOrder
    let done ← Prog.ask (I := ClaimServices) (.completionOrder futures.length)
    ExceptT.lift (runAll (Table.permute done futures))

/-! ## What is broadcast -/

/-- A call that is served, and broadcasts only transactions of one kind. -/
def Broadcasts (P : Transaction → Prop) : ClaimCall → Prop
  | .broadcastTx tx => P tx
  | .panic => False
  | _ => True

section Broadcast

variable {service : SwapService} {currentHeight : UInt64}

theorem Broadcasts.mono {P Q : Transaction → Prop} (h : ∀ tx, P tx → Q tx) (c : ClaimCall)
    (hc : Broadcasts P c) : Broadcasts Q c := by
  cases c with
  | broadcastTx tx => exact h tx hc
  | panic => exact hc
  | _ => trivial

theorem await_onlyCalls {ε α : Type} {P : ClaimCall → Prop} {c : ClaimCall}
    {k : ClaimCall.Reply c → Prog ClaimServices (Except ε α)} (hc : P c)
    (hk : ∀ r, (k r).OnlyCalls P) : (await (Prog.call c k)).run.OnlyCalls P :=
  orFail_onlyCalls hc hk

/-- The service broadcasts the transaction it creates. -/
theorem claimService_onlyCalls {claimables : List ClaimableUtxo} {feeEstimate : FeeEstimate}
    {destinationAddress : Address} {autoBump : Bool} :
    (claimService service claimables feeEstimate currentHeight destinationAddress
      autoBump).run.OnlyCalls (Broadcasts (fun tx => ∃ keys, service.createClaimTx keys claimables
        feeEstimate currentHeight destinationAddress = .ok tx)) := by
  refine Prog.OnlyCalls.tryBind ⟨trivial, fun _ => trivial⟩ (fun keys => ?_)
  cases htx : service.createClaimTx keys claimables feeEstimate currentHeight
      destinationAddress with
  | error e => trivial
  | ok tx =>
    refine Prog.OnlyCalls.tryBind (await_onlyCalls ⟨keys, htx⟩ (fun _ => trivial)) (fun _ => ?_)
    refine Prog.OnlyCalls.tryBind ⟨trivial, fun _ => trivial⟩ (fun _ => ?_)
    refine Prog.OnlyCalls.tryBind (await_onlyCalls trivial (fun _ => trivial)) (fun _ => ?_)
    exact Prog.OnlyCalls.tryBind (await_onlyCalls trivial (fun _ => trivial)) (fun _ => trivial)

/-- **A recheck broadcasts** the claim once more, or a replacement where the
estimate calls for one. -/
theorem recheckClaim_onlyCalls {claim : Claim} {claimables : List ClaimableUtxo} :
    (recheckClaim service currentHeight claim claimables).run.OnlyCalls
      (Broadcasts (fun tx => tx = claim.tx ∨ ∃ keys feeEstimate,
        Replaces claim.feePerKw feeEstimate ∧ service.createClaimTx keys claimables feeEstimate
          currentHeight claim.destinationAddress = .ok tx)) := by
  unfold recheckClaim
  split
  next blocksLeft _ =>
    refine Prog.OnlyCalls.tryBind (await_onlyCalls trivial (fun _ => trivial))
      (fun feeEstimate => ?_)
    by_cases hreplaces : Replaces claim.feePerKw feeEstimate
    · rw [if_pos hreplaces]
      refine Prog.OnlyCalls.tryBind (claimService_onlyCalls.mono (Broadcasts.mono ?_))
        (fun _ => trivial)
      rintro tx ⟨keys, htx⟩
      exact Or.inr ⟨keys, feeEstimate, hreplaces, htx⟩
    · rw [if_neg hreplaces]
      refine Prog.OnlyCalls.tryBind ⟨Or.inl rfl, fun _ => trivial⟩ (fun r => ?_)
      split <;> trivial
  next => trivial

/-- A claim broadcasts what it creates. -/
theorem claim_onlyCalls {claimables : List ClaimableUtxo} :
    (claim service currentHeight claimables).run.OnlyCalls
      (Broadcasts (fun tx => ∃ keys feeEstimate destinationAddress, service.createClaimTx keys
        claimables feeEstimate currentHeight destinationAddress = .ok tx)) := by
  unfold claim
  split
  next blocksLeft _ =>
    refine Prog.OnlyCalls.tryBind ⟨trivial, fun _ => trivial⟩ (fun feeEstimateRes => ?_)
    refine Prog.OnlyCalls.tryBind ⟨trivial, fun _ => trivial⟩ (fun addressRes => ?_)
    refine Prog.OnlyCalls.tryBind trivial (fun feeEstimate => ?_)
    refine Prog.OnlyCalls.tryBind trivial (fun destinationAddress => ?_)
    refine Prog.OnlyCalls.tryBind (claimService_onlyCalls.mono (Broadcasts.mono ?_))
      (fun _ => trivial)
    rintro tx ⟨keys, htx⟩
    exact ⟨keys, feeEstimate, destinationAddress, htx⟩
  next => trivial

end Broadcast

/-! ## What the sorting does -/

variable {claimables : List ClaimableUtxo} {outpoint : OutPoint} {c : ClaimableUtxo}

theorem getClaimable_isSome :
    (getClaimable claimables outpoint).isSome ↔
      outpoint ∈ claimables.map (fun c => c.utxo.outpoint) := by
  rw [getClaimable, List.find?_isSome, List.mem_map]
  simp only [decide_eq_true_eq]

theorem mem_of_getClaimable (h : getClaimable claimables outpoint = some c) : c ∈ claimables :=
  List.mem_of_find?_eq_some h

theorem outpoint_of_getClaimable (h : getClaimable claimables outpoint = some c) :
    c.utxo.outpoint = outpoint := by
  simpa using List.find?_some h

/-- The claimables of outpoints. -/
def claimablesOf (claimables : List ClaimableUtxo) (outpoints : List OutPoint) :
    List ClaimableUtxo :=
  outpoints.filterMap (getClaimable claimables)

/-- **The inputs of a claim are taken.** -/
theorem foldlM_takeInput {outpoints : List OutPoint} (state : List OutPoint × List ClaimableUtxo)
    (h : ∀ o ∈ outpoints, (getClaimable claimables o).isSome) :
    outpoints.foldlM (takeInput claimables) state
      = some (state.1.filter (fun o => o ∉ outpoints),
          state.2 ++ claimablesOf claimables outpoints) := by
  induction outpoints generalizing state with
  | nil =>
    rw [claimablesOf, List.filterMap_nil, List.append_nil]
    simp only [List.not_mem_nil, not_false_eq_true, decide_true, List.filter_true]
    rfl
  | cons o os ih =>
    obtain ⟨c, hc⟩ := Option.isSome_iff_exists.mp (h o List.mem_cons_self)
    have htake : takeInput claimables state o
        = some (state.1.filter (fun o' => o' ≠ o), state.2 ++ [c]) := by
      rw [takeInput, hc]
      rfl
    rw [List.foldlM_cons, htake, Option.bind_eq_bind, Option.bind_some,
      ih _ (fun o' ho' => h o' (List.mem_cons_of_mem o ho')), List.filter_filter,
      List.append_assoc, claimablesOf, claimablesOf, List.filterMap_cons_some hc,
      List.singleton_append]
    congr 2
    refine List.filter_congr (fun o' _ => ?_)
    rw [← Bool.decide_and, decide_eq_decide, List.mem_cons, not_or, and_comm]

/-- A claim is rechecked. -/
def IsRechecked (claimables : List ClaimableUtxo) (claim : Claim) : Prop :=
  ∀ o ∈ inputsOf claim, o ∈ claimables.map (fun c => c.utxo.outpoint)

instance : DecidablePred (IsRechecked claimables) :=
  fun claim => inferInstanceAs (Decidable (∀ o ∈ inputsOf claim, _))

/-- What is passed to `recheck_claim`. -/
def rechecks (claimables : List ClaimableUtxo) (claims : List Claim) :
    List (Claim × List ClaimableUtxo) :=
  (claims.filter (IsRechecked claimables)).map
    (fun claim => (claim, claimablesOf claimables (inputsOf claim)))

/-- **Claims are considered.** -/
theorem foldlM_considerClaim (claims : List Claim)
    (state : List (Claim × List ClaimableUtxo) × List OutPoint) :
    claims.foldlM (considerClaim claimables) state
      = some (state.1 ++ rechecks claimables claims,
          state.2.filter (fun o => ∀ r ∈ rechecks claimables claims, o ∉ inputsOf r.1)) := by
  induction claims generalizing state with
  | nil =>
    show some state = some (state.1 ++ [], _)
    rw [List.append_nil]
    simp [rechecks]
  | cons claim claims ih =>
    have hall : (inputsOf claim).all (fun o => (getClaimable claimables o).isSome) = true ↔
        IsRechecked claimables claim := by
      rw [List.all_eq_true]
      exact forall₂_congr (fun o _ => getClaimable_isSome)
    rw [List.foldlM_cons, considerClaim]
    by_cases hre : IsRechecked claimables claim
    · have hcons : rechecks claimables (claim :: claims)
          = (claim, claimablesOf claimables (inputsOf claim)) :: rechecks claimables claims := by
        rw [rechecks, List.filter_cons, if_pos (decide_eq_true hre), List.map_cons]
        rfl
      rw [if_pos (hall.mpr hre),
        foldlM_takeInput _ (fun o ho => getClaimable_isSome.mpr (hre o ho)), hcons]
      simp only [Option.bind_eq_bind, Option.bind_some, List.nil_append]
      rw [ih, List.append_assoc, List.singleton_append, List.filter_filter]
      congr 2
      refine List.filter_congr (fun o _ => ?_)
      rw [← Bool.decide_and, decide_eq_decide, List.forall_mem_cons, and_comm]
    · have hcons : rechecks claimables (claim :: claims) = rechecks claimables claims := by
        rw [rechecks, List.filter_cons, if_neg (fun h => hre (of_decide_eq_true h))]
        rfl
      rw [if_neg (fun h => hre (hall.mp h)), hcons]
      exact ih state

/-- **The outpoints that are left are grouped.** -/
theorem foldlM_groupOutpoint {outpoints : List OutPoint}
    (swaps : List (PaymentHash × List ClaimableUtxo))
    (h : ∀ o ∈ outpoints, (getClaimable claimables o).isSome) :
    outpoints.foldlM (groupOutpoint claimables) swaps
      = some (((claimablesOf claimables outpoints).filter
          (fun c => c.paidWithRequest.isSome)).foldl
            (Table.pushByKey (fun c => c.swap.pub.hash)) swaps) := by
  induction outpoints generalizing swaps with
  | nil => rfl
  | cons o os ih =>
    obtain ⟨c, hc⟩ := Option.isSome_iff_exists.mp (h o List.mem_cons_self)
    have ih := fun swaps => ih swaps (fun o' ho' => h o' (List.mem_cons_of_mem o ho'))
    rw [List.foldlM_cons, groupOutpoint, hc, claimablesOf, List.filterMap_cons_some hc]
    cases hpaid : c.paidWithRequest with
    | none =>
      rw [List.filter_cons, hpaid, if_neg (by decide)]
      simp only [Option.bind_eq_bind, Option.bind_some, hpaid, Option.isNone_none, if_true]
      exact ih swaps
    | some request =>
      rw [List.filter_cons, hpaid, if_pos (show (some request).isSome = true from rfl),
        List.foldl_cons]
      simp only [Option.bind_eq_bind, Option.bind_some, hpaid, Option.isNone_some]
      exact ih _

/-- What is claimed anew. -/
def fresh (claimables : List ClaimableUtxo) (claims : List Claim) (order : List ℕ) :
    List ClaimableUtxo :=
  (claimablesOf claimables (Table.permute order ((claimables.map (fun c => c.utxo.outpoint)).filter
    (fun o => ∀ r ∈ rechecks claimables claims, o ∉ inputsOf r.1)))).filter
      (fun c => c.paidWithRequest.isSome)

/-- **The sorting never fails.** -/
theorem planClaims_eq (claimables : List ClaimableUtxo) (claims : List Claim) (order : List ℕ) :
    planClaims claimables claims order = some ⟨rechecks claimables claims,
      Table.groupByKey (fun c => c.swap.pub.hash) (fresh claimables claims order)⟩ := by
  rw [planClaims, foldlM_considerClaim, List.nil_append]
  simp only [Option.bind_eq_bind, Option.bind_some]
  rw [foldlM_groupOutpoint]
  · rfl
  · intro o ho
    rw [Table.mem_permute, List.mem_filter] at ho
    exact getClaimable_isSome.mpr ho.1

/-- **No lookup that is expected to succeed fails**, whatever the services
answer. -/
theorem doClaim_onlyCalls (service : SwapService) :
    (doClaim service).run.OnlyCalls (Broadcasts (fun _ => True)) := by
  refine Prog.OnlyCalls.tryBind (await_onlyCalls trivial (fun _ => trivial))
    (fun currentHeight => ?_)
  refine Prog.OnlyCalls.tryBind ?_ (fun claimables => ?_)
  · refine Prog.OnlyCalls.tryBind (await_onlyCalls trivial (fun _ => trivial)) (fun utxos => ?_)
    exact Prog.OnlyCalls.tryBind (await_onlyCalls trivial (fun _ => trivial)) (fun _ => trivial)
  refine Prog.OnlyCalls.tryBind ⟨trivial, fun _ => trivial⟩ (fun keysOrder => ?_)
  refine Prog.OnlyCalls.tryBind (await_onlyCalls trivial (fun _ => trivial)) (fun claims => ?_)
  refine Prog.OnlyCalls.tryBind ⟨trivial, fun _ => trivial⟩ (fun order => ?_)
  rw [planClaims_eq]
  refine Prog.OnlyCalls.tryBind ⟨trivial, fun _ => trivial⟩ (fun swapsOrder => ?_)
  refine Prog.OnlyCalls.tryBind ⟨trivial, fun _ => trivial⟩ (fun done => ?_)
  have hall (ps : List (ClaimProgram Unit))
      (h : ∀ p ∈ ps, p.run.OnlyCalls (Broadcasts (fun _ => True))) :
      (runAll ps).OnlyCalls (Broadcasts (fun _ => True)) := by
    induction ps with
    | nil => trivial
    | cons p ps ih =>
      exact (h p List.mem_cons_self).bind
        (fun _ => ih (fun q hq => h q (List.mem_cons_of_mem p hq)))
  refine (hall _ (fun p hp => ?_)).bind (fun _ => trivial)
  rw [Table.mem_permute, ClaimPlan.futures, List.mem_append, List.mem_map, List.mem_map] at hp
  rcases hp with ⟨r, -, rfl⟩ | ⟨g, -, rfl⟩
  · exact recheckClaim_onlyCalls.mono (Broadcasts.mono (fun _ _ => trivial))
  · exact claim_onlyCalls.mono (Broadcasts.mono (fun _ _ => trivial))

/-! ## What a pass runs -/

section Runs

open Prog (Event Sat Runs Replied onOutcome)

/-- **A pass has run its plan**: the programs of the plan that is made of what the
services answered, each to its end, in some order. -/
def RunsPlan {σ : Type} (perf : (c : ClaimCall) → σ → c.Reply → σ → Prop) (service : SwapService)
    (tr : List (Event ClaimServices σ)) : Prop :=
  ∃ (before after : List (Event ClaimServices σ)) (currentHeight : UInt64)
    (utxos : List AddressUtxo) (swaps : PaidSwaps) (claims : List Claim) (plan : ClaimPlan)
    (keysOrder order swapsOrder done : List ℕ),
    tr = before ++ after ∧
    Replied before .getBlockheight (.ok currentHeight) ∧ Replied before .getUtxos (.ok utxos) ∧
    Replied before (.getSwapsWithPaidOutpoints (utxos.map (fun u => u.address))) (.ok swaps) ∧
    Replied before (.getClaims (Table.permute keysOrder
      ((Table.toMap (fun c => c.utxo.outpoint) (listClaimable swaps utxos)).map
        (fun c => c.utxo.outpoint)))) (.ok claims) ∧
    planClaims (Table.toMap (fun c => c.utxo.outpoint) (listClaimable swaps utxos)) claims order
      = some plan ∧
    Runs perf (runAll (Table.permute done (plan.futures service currentHeight swapsOrder))) after
      (.ret ())

variable {σ : Type} {perf : (c : ClaimCall) → σ → c.Reply → σ → Prop} {service : SwapService}

/-- What is claimable is what the repositories answered. -/
theorem askClaimable_sat (tr : List (Event ClaimServices σ)) :
    Sat perf (fun _ _ => True) (fun tr' => onOutcome (fun _ => True) (fun claimables => tr ⊆ tr' ∧
      ∃ utxos swaps, Replied tr' .getUtxos (.ok utxos) ∧
        Replied tr' (.getSwapsWithPaidOutpoints (utxos.map (fun u => u.address))) (.ok swaps) ∧
        claimables = listClaimable swaps utxos)) askClaimable.run tr := by
  refine Sat.tryBind ⟨trivial, fun s₁ r s₁' _ => ?_⟩
  cases r with
  | error e => trivial
  | ok utxos =>
    refine Sat.tryBind ⟨trivial, fun s₂ r s₂' _ => ?_⟩
    cases r with
    | error e => trivial
    | ok swaps =>
      refine ⟨fun e he => by simp [he], utxos, swaps, ⟨s₁, s₁', by simp⟩, ⟨s₂, s₂', by simp⟩, rfl⟩

/-- **A pass that succeeds has run its plan.** -/
theorem doClaim_runsPlan {tr : List (Event ClaimServices σ)}
    (h : Runs perf (doClaim service).run tr (.ret (.ok ()))) : RunsPlan perf service tr := by
  have hsat : Sat perf (fun _ _ => True)
      (fun tr => onOutcome (fun _ => True) (fun _ => RunsPlan perf service tr))
      (doClaim service).run [] := by
    rw [doClaim]
    simp only [planClaims_eq]
    refine Sat.tryBind ⟨trivial, fun s₁ r s₁' _ => ?_⟩
    cases r with
    | error e => trivial
    | ok currentHeight =>
      refine Sat.tryBind ((askClaimable_sat _).mono (fun before r hr => ?_))
      cases r with
      | error e => trivial
      | ok claimables =>
        obtain ⟨hsub, utxos, swaps, ⟨s₂, s₂', hutxos⟩, ⟨s₃, s₃', hswaps⟩, rfl⟩ := hr
        refine ⟨trivial, fun s₄ keysOrder s₄' _ => ?_⟩
        refine Sat.tryBind ⟨trivial, fun s₅ r s₅' _ => ?_⟩
        cases r with
        | error e => trivial
        | ok claims =>
          refine ⟨trivial, fun s₆ order s₆' _ => ⟨trivial, fun s₇ swapsOrder s₇' _ =>
            ⟨trivial, fun s₈ done s₈' _ => ?_⟩⟩⟩
          change Sat (I := ClaimServices) perf _ _ (runAll _ >>= _) _
          refine Sat.bind ((Sat.self (fun _ _ => trivial)).mono ?_)
          rintro tr' _ ⟨new, rfl, hrun⟩
          exact ⟨_, new, currentHeight, utxos, swaps, claims, _, keysOrder, order, swapsOrder,
            done, rfl, ⟨s₁, s₁', by simp [hsub (List.mem_singleton_self _)]⟩,
            ⟨s₂, s₂', by simp [hutxos]⟩, ⟨s₃, s₃', by simp [hswaps]⟩, ⟨s₅, s₅', by simp⟩,
            planClaims_eq _ _ _, hrun⟩
  exact hsat.runs h

end Runs

/-! ## What is handled -/

theorem mem_claimablesOf {outpoints : List OutPoint} :
    c ∈ claimablesOf claimables outpoints ↔
      c.utxo.outpoint ∈ outpoints ∧ getClaimable claimables c.utxo.outpoint = some c := by
  rw [claimablesOf, List.mem_filterMap]
  constructor
  · rintro ⟨o, ho, hc⟩
    rw [outpoint_of_getClaimable hc]
    exact ⟨ho, hc⟩
  · rintro ⟨ho, hc⟩
    exact ⟨_, ho, hc⟩

/-- Nothing is missing. -/
theorem map_outpoint_claimablesOf {outpoints : List OutPoint}
    (h : ∀ o ∈ outpoints, o ∈ claimables.map (fun c => c.utxo.outpoint)) :
    (claimablesOf claimables outpoints).map (fun c => c.utxo.outpoint) = outpoints := by
  induction outpoints with
  | nil => rfl
  | cons o os ih =>
    obtain ⟨c, hc⟩ :=
      Option.isSome_iff_exists.mp (getClaimable_isSome.mpr (h o List.mem_cons_self))
    rw [claimablesOf, List.filterMap_cons_some hc, List.map_cons, outpoint_of_getClaimable hc]
    exact congrArg (List.cons o) (ih (fun o' ho' => h o' (List.mem_cons_of_mem o ho')))

/-- **What is claimed anew**: what is claimable, paid, and no input of a claim
that is rechecked. -/
theorem mem_fresh {claims : List Claim} {order : List ℕ} :
    c ∈ fresh claimables claims order ↔ getClaimable claimables c.utxo.outpoint = some c ∧
      (∀ r ∈ rechecks claimables claims, c.utxo.outpoint ∉ inputsOf r.1) ∧
        c.paidWithRequest.isSome := by
  rw [fresh, List.mem_filter, mem_claimablesOf, Table.mem_permute, List.mem_filter,
    decide_eq_true_eq]
  constructor
  · rintro ⟨⟨⟨-, hinputs⟩, hget⟩, hpaid⟩
    exact ⟨hget, hinputs, hpaid⟩
  · rintro ⟨hget, hinputs, hpaid⟩
    exact ⟨⟨⟨List.mem_map_of_mem (mem_of_getClaimable hget), hinputs⟩, hget⟩, hpaid⟩

/-- **Every paid output is handled and nothing unpaid.** -/
structure HandlesPaid (db : SwapTables) (utxos : List AddressUtxo) (claims : List Claim)
    (claimables : List ClaimableUtxo) (plan : ClaimPlan) : Prop where
  /-- There is an entry for each output on the address of a swap with a stored
  preimage, and no other. -/
  listed : List.Forall₂ (IsClaimable db) (utxos.filter (IsOpen db)) claimables
  handled : ∀ c ∈ claimables, c.paidWithRequest.isSome →
    (∃ r ∈ plan.recheckClaims, c.utxo.outpoint ∈ inputsOf r.1) ∨
      ∃! g, g ∈ plan.swaps ∧ c.utxo.outpoint ∈ g.2.map (fun c => c.utxo.outpoint)
  nodup_swaps : (plan.swaps.map Prod.fst).Nodup
  groups : ∀ g ∈ plan.swaps, ∃ s ∈ db.swaps, ∀ c ∈ g.2, c ∈ claimables ∧ c.swap = s.swap ∧
    c.paidWithRequest.isSome ∧ ∀ r ∈ plan.recheckClaims, c.utxo.outpoint ∉ inputsOf r.1
  rechecked : ∀ r ∈ plan.recheckClaims, r.1 ∈ claims ∧
    r.2.map (fun c => c.utxo.outpoint) = inputsOf r.1 ∧ ∀ c ∈ r.2, c ∈ claimables

/-- What is listed is listed for an output. -/
theorem exists_isClaimable {db : SwapTables} {utxos : List AddressUtxo}
    {claimables : List ClaimableUtxo} {c : ClaimableUtxo}
    (h : List.Forall₂ (IsClaimable db) (utxos.filter (IsOpen db)) claimables)
    (hc : c ∈ claimables) : ∃ u ∈ utxos, IsClaimable db u c := by
  obtain ⟨n, hn, rfl⟩ := List.mem_iff_getElem.mp hc
  have hn' : n < (utxos.filter (IsOpen db)).length := h.length_eq ▸ hn
  exact ⟨_, (List.mem_filter.mp (List.getElem_mem hn')).1, h.get hn' hn⟩

/-- What is listed for one outpoint is of one swap. -/
theorem paidWithRequest_of_outpoint {db : SwapTables} {utxos : List AddressUtxo}
    {claimables : List ClaimableUtxo} {c c' : ClaimableUtxo}
    (haddress : (db.swaps.map (fun s => s.swap.pub.address)).Nodup)
    (hutxos : ∀ u ∈ utxos, ∀ v ∈ utxos, u.utxo.outpoint = v.utxo.outpoint → u.address = v.address)
    (hlisted : List.Forall₂ (IsClaimable db) (utxos.filter (IsOpen db)) claimables)
    (hc : c ∈ claimables) (hc' : c' ∈ claimables) (h : c.utxo.outpoint = c'.utxo.outpoint) :
    c.paidWithRequest.isSome ↔ c'.paidWithRequest.isSome := by
  obtain ⟨u, hu, hclaimable⟩ := exists_isClaimable hlisted hc
  obtain ⟨u', hu', hclaimable'⟩ := exists_isClaimable hlisted hc'
  have hpoint : u.utxo.outpoint = u'.utxo.outpoint := by
    rw [← hclaimable.utxo, h, hclaimable'.utxo]
  have haddr : c.swap.pub.address = c'.swap.pub.address := by
    rw [hclaimable.address, hutxos u hu u' hu' hpoint, hclaimable'.address]
  have hstate := List.inj_on_of_nodup_map haddress hclaimable.swap hclaimable'.swap haddr
  have hswap : c.swap = c'.swap := congrArg SwapState.swap hstate
  rw [hclaimable.paid, hclaimable'.paid, hpoint, hswap]

/-- **A pass handles every paid output and nothing unpaid**, for any unspent
outputs, swaps, attempts and stored claims, and in whatever order the maps and
the set are gone through. An outpoint is stored once, with its address; payment
hashes and addresses are those of one swap. -/
theorem doClaim_handlesPaid (db : SwapTables) (utxos : List AddressUtxo) (claims : List Claim)
    (rowsOrder order : List ℕ) (hhash : (db.swaps.map (fun s => s.swap.pub.hash)).Nodup)
    (haddress : (db.swaps.map (fun s => s.swap.pub.address)).Nodup)
    (hutxos : ∀ u ∈ utxos, ∀ v ∈ utxos,
      u.utxo.outpoint = v.utxo.outpoint → u.address = v.address) :
    ∃ swaps, db.getSwapsWithPaidOutpoints rowsOrder (utxos.map (fun u => u.address)) = .ok swaps ∧
      ∃ plan, planClaims (Table.toMap (fun c => c.utxo.outpoint) (listClaimable swaps utxos))
          claims order = some plan ∧
        HandlesPaid db utxos claims (listClaimable swaps utxos) plan := by
  obtain ⟨swaps, hswaps, hanswers⟩ :=
    SwapTables.getSwapsWithPaidOutpoints_eq_ok rowsOrder (utxos.map (fun u => u.address)) haddress
  have hlisted := listClaimable_forall₂ hanswers (fun u hu => List.mem_map_of_mem hu)
  refine ⟨swaps, hswaps, _, planClaims_eq _ _ _, hlisted, fun c hc hpaid => ?_,
    Table.nodup_groupByKey, fun g hg => ?_, fun r hr => ?_⟩
  · by_cases hin : ∃ r ∈ rechecks (Table.toMap (fun c => c.utxo.outpoint)
        (listClaimable swaps utxos)) claims, c.utxo.outpoint ∈ inputsOf r.1
    · exact Or.inl hin
    refine Or.inr ?_
    have hkey := Table.mem_keys_toMap.mpr
      (List.mem_map_of_mem (f := fun c : ClaimableUtxo => c.utxo.outpoint) hc)
    obtain ⟨c', hget⟩ := Option.isSome_iff_exists.mp (getClaimable_isSome.mpr hkey)
    have hpoint := outpoint_of_getClaimable hget
    have hpaid' : c'.paidWithRequest.isSome :=
      (paidWithRequest_of_outpoint haddress hutxos hlisted
        (Table.mem_of_mem_toMap (mem_of_getClaimable hget)) hc hpoint).mpr hpaid
    have hfresh : c' ∈ fresh (Table.toMap (fun c => c.utxo.outpoint) (listClaimable swaps utxos))
        claims order := by
      rw [mem_fresh, hpoint]
      exact ⟨hget, fun r hr hmem => hin ⟨r, hr, hmem⟩, hpaid'⟩
    obtain ⟨g, ⟨hg, hcg⟩, hunique⟩ : ∃! g, g ∈ Table.groupByKey (fun c => c.swap.pub.hash)
        (fresh (Table.toMap (fun c => c.utxo.outpoint) (listClaimable swaps utxos)) claims order) ∧
          c' ∈ g.2 := Table.existsUnique_mem_groupByKey hfresh
    refine ⟨g, ⟨hg, List.mem_map.mpr ⟨c', hcg, hpoint⟩⟩, ?_⟩
    rintro g' ⟨hg', hcg'⟩
    obtain ⟨c'', hc'', hpoint'⟩ := List.mem_map.mp hcg'
    have hfresh' := hc''
    rw [(Table.mem_groupByKey.mp hg').1, List.mem_filter, mem_fresh, hpoint', hget] at hfresh'
    rw [← Option.some.inj hfresh'.1.1] at hc''
    exact hunique g' ⟨hg', hc''⟩
  · have hmem (c : ClaimableUtxo) (hc : c ∈ g.2) : c ∈ listClaimable swaps utxos ∧
        c.swap.pub.hash = g.1 ∧ c.paidWithRequest.isSome ∧ ∀ r ∈ rechecks (Table.toMap
          (fun c => c.utxo.outpoint) (listClaimable swaps utxos)) claims,
            c.utxo.outpoint ∉ inputsOf r.1 := by
      rw [(Table.mem_groupByKey.mp hg).1, List.mem_filter, mem_fresh, decide_eq_true_eq] at hc
      obtain ⟨⟨hget, hinputs, hpaid⟩, hhash⟩ := hc
      exact ⟨Table.mem_of_mem_toMap (mem_of_getClaimable hget), hhash, hpaid, hinputs⟩
    obtain ⟨c₀, hc₀⟩ := List.exists_mem_of_ne_nil _ (Table.mem_groupByKey.mp hg).2
    obtain ⟨u₀, -, hclaimable₀⟩ := exists_isClaimable hlisted (hmem c₀ hc₀).1
    refine ⟨_, hclaimable₀.swap, fun c hc => ?_⟩
    obtain ⟨hlist, hkey, hpaid, hinputs⟩ := hmem c hc
    obtain ⟨u, -, hclaimable⟩ := exists_isClaimable hlisted hlist
    have hstate := List.inj_on_of_nodup_map hhash hclaimable.swap hclaimable₀.swap
      (hkey.trans (hmem c₀ hc₀).2.1.symm)
    exact ⟨hlist, congrArg SwapState.swap hstate, hpaid, hinputs⟩
  · obtain ⟨claim, hclaim, rfl⟩ := List.mem_map.mp hr
    rw [List.mem_filter, decide_eq_true_eq] at hclaim
    refine ⟨hclaim.1, map_outpoint_claimablesOf hclaim.2, fun c hc => ?_⟩
    exact Table.mem_of_mem_toMap (mem_of_getClaimable (mem_claimablesOf.mp hc).2)

end ClaimMonitor

namespace Sample

/-- Three outputs of the swap. -/
def openUtxos : List AddressUtxo :=
  [⟨⟨[0x51]⟩, ⟨.ofByte 3, 100, ⟨.ofByte 2, 0⟩, ⟨1000000, [0x51]⟩⟩⟩,
    ⟨⟨[0x51]⟩, ⟨.ofByte 3, 100, ⟨.ofByte 2, 1⟩, ⟨1000000, [0x51]⟩⟩⟩,
    ⟨⟨[0x51]⟩, ⟨.ofByte 3, 100, ⟨.ofByte 2, 2⟩, ⟨1000000, [0x51]⟩⟩⟩]

/-- The swap, paid for the first of them and the last. -/
def paidSwap : SwapTables where
  swaps := [⟨swap, some (.ofByte 7)⟩]
  paymentAttempts := [⟨0, .ofByte 1, "label", 0, 1000000000, "lnbc1", [], some true, none⟩]
  paymentAttemptTxOutputs := [⟨0, ⟨.ofByte 2, 0⟩⟩, ⟨0, ⟨.ofByte 2, 2⟩⟩]
  swapLocks := []
  nextAttemptId := 1

/-- A claim of the first, stored in a pass before. -/
def earlierClaim : Claim :=
  ⟨0, ⟨2, 0, [⟨⟨.ofByte 2, 0⟩, [], 0, []⟩], []⟩, ⟨[0x52]⟩, 1000, true⟩

end Sample

open Sample in
/-- The stored claim is rechecked, and the last output claimed. -/
theorem ClaimMonitor.doClaim_handlesPaid_sample :
    ∃ swaps plan, planClaims (Table.toMap (fun c => c.utxo.outpoint)
        (listClaimable swaps openUtxos)) [earlierClaim] [] = some plan ∧
      plan.recheckClaims.map Prod.fst = [earlierClaim] ∧
      plan.swaps.map (fun g => g.2.map (fun c => c.utxo.outpoint)) = [[⟨.ofByte 2, 2⟩]] ∧
      HandlesPaid paidSwap openUtxos [earlierClaim] (listClaimable swaps openUtxos) plan := by
  obtain ⟨swaps, hswaps, plan, hplan, h⟩ := doClaim_handlesPaid paidSwap openUtxos [earlierClaim]
    [] [] (by decide) (by decide) (by decide)
  have hswaps : .ok _ = (.ok swaps : Except GetSwapsError PaidSwaps) := hswaps
  obtain rfl := Except.ok.inj hswaps
  have hplan : some _ = some plan := hplan
  obtain rfl := Option.some.inj hplan
  exact ⟨_, _, rfl, by decide, by decide, h⟩

end Swapd
