import Swapd.ChainRepository
import Swapd.ClaimMonitor

/-!
# The claim tables

A claim is stored with the outputs it spends, in a table of their own. The claims
that are still pending are selected across the tables of claims and of the chain:
those that have an input whose transaction has no output that an indexed
transaction spends. Only the transactions are compared, not the outputs, so a
claim goes missing as soon as each of its inputs has a sibling that is spent
(`getClaims_returnsPending_iff`).

Claims are kept to the second. Which of several claims with one rate and one time
comes first is not said.
-/

namespace Swapd

/-- A row of `claims`; the time is in seconds. -/
structure ClaimRow where
  txId : Txid
  creationTime : ℤ
  tx : Transaction
  destinationAddress : Address
  feePerKw : UInt32
  autoBump : Bool
deriving DecidableEq

/-- A row of `claim_inputs`. -/
structure ClaimInputRow where
  claimTxId : Txid
  outpoint : OutPoint
deriving DecidableEq

/-- **The claim tables.** -/
structure ClaimTables where
  claims : List ClaimRow
  claimInputs : List ClaimInputRow
deriving DecidableEq

/-- `ClaimRepositoryError`. -/
inductive ClaimRepositoryError where
  | invalidTimestamp
  | general
deriving DecidableEq

/-- Nanoseconds in a second. -/
def nanosPerSecond : ℕ := 1000000000

/-- The claim of a row. -/
def ClaimRow.claim (r : ClaimRow) : Claim where
  creationTime := r.creationTime * nanosPerSecond
  tx := r.tx
  destinationAddress := r.destinationAddress
  feePerKw := r.feePerKw
  autoBump := r.autoBump

/-- A row is read. A negative time, taken as unsigned, is too late to be one. -/
def ClaimRow.read (r : ClaimRow) : Except ClaimRepositoryError Claim :=
  if r.creationTime < 0 then .error .invalidTimestamp else .ok r.claim

/-- `ORDER BY fee_per_kw DESC, creation_time DESC`. -/
def ClaimRow.before (a b : ClaimRow) : Prop :=
  b.feePerKw < a.feePerKw ∨ (a.feePerKw = b.feePerKw ∧ b.creationTime ≤ a.creationTime)

instance : DecidableRel ClaimRow.before := fun a b => by
  unfold ClaimRow.before; infer_instance

/-- The transactions an output of which is spent by an indexed transaction: the
join of `tx_inputs`, `tx_blocks` and `blocks`. -/
def ChainTables.spentTxIds (chain : ChainTables) : List Txid :=
  chain.txInputs.flatMap (fun i => (chain.blocksOf i.spendingTx).map (fun _ => i.outpoint.txid))

namespace ClaimTables

variable (db : ClaimTables) (chain : ChainTables)

/-- `add_claim`. -/
def addClaim (computeTxid : Transaction → Txid) (claim : Claim) :
    Except ClaimRepositoryError ClaimTables :=
  let txId := computeTxid claim.tx
  match claim.creationTime.sinceEpoch with
  | none => .error .general
  | some nanos =>
    if txId ∈ db.claims.map ClaimRow.txId then .error .general
    else
      .ok
        { claims := db.claims ++ [⟨txId, (nanos / nanosPerSecond : ℕ), claim.tx,
            claim.destinationAddress, claim.feePerKw, claim.autoBump⟩]
          claimInputs := db.claimInputs ++
            (ClaimMonitor.inputsOf claim).map (fun o => ⟨txId, o⟩) }

/-- The inputs whose transactions have no output that is spent. -/
def unspentInputs : List ClaimInputRow :=
  db.claimInputs.filter (fun ri => ri.outpoint.txid ∉ chain.spentTxIds)

/-- The rows that are selected, where rows come in some order. -/
def selectClaims (order : List ℕ) : List ClaimRow :=
  Table.orderBy ClaimRow.before
    ((Table.permute order db.claims).filter
      (fun r => r.txId ∈ (db.unspentInputs chain).map ClaimInputRow.claimTxId))

/-- `get_claims`. The outpoints it is given are not looked at. -/
def getClaims (order : List ℕ) (_outpoints : List OutPoint) :
    Except ClaimRepositoryError (List Claim) :=
  (db.selectClaims chain order).mapM ClaimRow.read

/-! ## What the tables hold -/

/-- **Tables that claims were added to**: the primary key holds, times are not
before the epoch, and the inputs of a claim are those of its transaction. -/
structure Consistent (computeTxid : Transaction → Txid) : Prop where
  nodup_txId : (db.claims.map ClaimRow.txId).Nodup
  txId_eq : ∀ r ∈ db.claims, r.txId = computeTxid r.tx
  creationTime_nonneg : ∀ r ∈ db.claims, 0 ≤ r.creationTime
  inputs : ∀ r ∈ db.claims, ∀ o,
    ⟨r.txId, o⟩ ∈ db.claimInputs ↔ o ∈ ClaimMonitor.inputsOf r.claim
  claimTxId_mem : ∀ ri ∈ db.claimInputs, ri.claimTxId ∈ db.claims.map ClaimRow.txId

/-- And each claim has an input. -/
structure Sound (computeTxid : Transaction → Txid) : Prop extends db.Consistent computeTxid where
  inputs_ne_nil : ∀ r ∈ db.claims, ClaimMonitor.inputsOf r.claim ≠ []

variable {db chain} {computeTxid : Transaction → Txid} {claim : Claim} {order : List ℕ}
  {r : ClaimRow}

theorem sound_empty : Sound ⟨[], []⟩ computeTxid where
  nodup_txId := List.nodup_nil
  txId_eq := List.forall_mem_nil _
  creationTime_nonneg := List.forall_mem_nil _
  inputs := List.forall_mem_nil _
  claimTxId_mem := List.forall_mem_nil _
  inputs_ne_nil := List.forall_mem_nil _

/-- **What adding a claim does**: it adds a row, and one for each input. -/
theorem addClaim_eq_ok {db' : ClaimTables} (hadd : db.addClaim computeTxid claim = .ok db') :
    computeTxid claim.tx ∉ db.claims.map ClaimRow.txId ∧ ∃ seconds : ℕ,
      db'.claims = db.claims ++ [⟨computeTxid claim.tx, seconds, claim.tx,
        claim.destinationAddress, claim.feePerKw, claim.autoBump⟩] ∧
      db'.claimInputs = db.claimInputs ++
        (ClaimMonitor.inputsOf claim).map (fun o => ⟨computeTxid claim.tx, o⟩) := by
  unfold ClaimTables.addClaim at hadd
  cases hnanos : claim.creationTime.sinceEpoch with
  | none =>
    rw [hnanos] at hadd
    cases hadd
  | some nanos =>
    simp only [hnanos] at hadd
    by_cases hmem : computeTxid claim.tx ∈ db.claims.map ClaimRow.txId
    · rw [if_pos hmem] at hadd
      cases hadd
    · rw [if_neg hmem] at hadd
      obtain rfl := Except.ok.inj hadd
      exact ⟨hmem, nanos / nanosPerSecond, rfl, rfl⟩

/-- Adding a claim keeps the tables consistent. -/
theorem Consistent.addClaim {db' : ClaimTables} (h : db.Consistent computeTxid)
    (hadd : db.addClaim computeTxid claim = .ok db') : db'.Consistent computeTxid := by
  obtain ⟨hmem, seconds, hclaims, hinputs⟩ := addClaim_eq_ok hadd
  have hold : ∀ r ∈ db.claims, r.txId ≠ computeTxid claim.tx :=
    fun r hr heq => hmem (heq ▸ List.mem_map_of_mem hr)
  constructor
  · rw [hclaims, List.map_append, List.map_singleton]
    refine h.nodup_txId.append (List.nodup_singleton _) ?_
    intro txId htxId heq
    obtain rfl : txId = computeTxid claim.tx := List.mem_singleton.mp heq
    exact hmem htxId
  · rw [hclaims]
    exact List.forall_mem_append.mpr ⟨h.txId_eq, List.forall_mem_singleton.mpr rfl⟩
  · rw [hclaims]
    exact List.forall_mem_append.mpr ⟨h.creationTime_nonneg,
      List.forall_mem_singleton.mpr (Int.natCast_nonneg _)⟩
  · rw [hclaims, hinputs]
    refine List.forall_mem_append.mpr ⟨fun r hr o => ?_, List.forall_mem_singleton.mpr ?_⟩
    · rw [List.mem_append, ← h.inputs r hr o, List.mem_map]
      refine or_iff_left ?_
      rintro ⟨o', -, heq⟩
      exact hold r hr (congrArg ClaimInputRow.claimTxId heq).symm
    · intro o
      rw [List.mem_append, List.mem_map]
      constructor
      · rintro (ho | ⟨o', ho', heq⟩)
        · exact absurd (h.claimTxId_mem _ ho) hmem
        · rw [← show o' = o from congrArg ClaimInputRow.outpoint heq]
          exact ho'
      · exact fun ho => Or.inr ⟨o, ho, rfl⟩
  · rw [hclaims, hinputs, List.map_append]
    refine List.forall_mem_append.mpr ⟨fun ri hri => ?_, fun ri hri => ?_⟩
    · exact List.mem_append_left _ (h.claimTxId_mem ri hri)
    · obtain ⟨o, -, rfl⟩ := List.mem_map.mp hri
      exact List.mem_append_right _ (List.mem_singleton_self _)

/-- And sound, where the claim has an input. -/
theorem Sound.addClaim {db' : ClaimTables} (h : db.Sound computeTxid)
    (hinput : claim.tx.input ≠ []) (hadd : db.addClaim computeTxid claim = .ok db') :
    db'.Sound computeTxid := by
  refine ⟨h.toConsistent.addClaim hadd, ?_⟩
  obtain ⟨-, seconds, hclaims, -⟩ := addClaim_eq_ok hadd
  rw [hclaims]
  refine List.forall_mem_append.mpr ⟨h.inputs_ne_nil, List.forall_mem_singleton.mpr ?_⟩
  exact fun hnil => hinput (List.map_eq_nil_iff.mp hnil)

/-! ## What is selected -/

/-- A transaction one of whose outputs is spent. -/
theorem mem_spentTxIds {txid : Txid} :
    txid ∈ chain.spentTxIds ↔ ∃ o : OutPoint, o.txid = txid ∧ chain.isSpent o := by
  simp only [ChainTables.spentTxIds, List.mem_flatMap, List.mem_map, ChainTables.isSpent_iff]
  constructor
  · rintro ⟨i, hi, b, hb, rfl⟩
    exact ⟨i.outpoint, rfl, i, hi, rfl, b, hb⟩
  · rintro ⟨o, rfl, i, hi, rfl, b, hb⟩
    exact ⟨i, hi, b, hb, rfl⟩

/-- **The claims that are selected.** -/
theorem mem_selectClaims (h : db.Consistent computeTxid) :
    r ∈ db.selectClaims chain order ↔ r ∈ db.claims ∧
      ∃ o ∈ ClaimMonitor.inputsOf r.claim, ∀ o' : OutPoint, o'.txid = o.txid →
        ¬ chain.isSpent o' := by
  rw [selectClaims, Table.mem_orderBy, List.mem_filter, Table.mem_permute, decide_eq_true_eq]
  refine and_congr_right (fun hr => ?_)
  have hnot (o : OutPoint) : o.txid ∉ chain.spentTxIds ↔
      ∀ o' : OutPoint, o'.txid = o.txid → ¬ chain.isSpent o' := by
    rw [mem_spentTxIds]
    push Not
    rfl
  rw [List.mem_map]
  constructor
  · rintro ⟨⟨txId, o⟩, hri, heq⟩
    obtain ⟨hri, hspent⟩ := List.mem_filter.mp hri
    obtain rfl : txId = r.txId := heq
    exact ⟨o, (h.inputs r hr o).mp hri, (hnot o).mp (of_decide_eq_true hspent)⟩
  · rintro ⟨o, ho, hspent⟩
    exact ⟨⟨r.txId, o⟩, List.mem_filter.mpr ⟨(h.inputs r hr o).mpr ho,
      decide_eq_true ((hnot o).mpr hspent)⟩, rfl⟩

/-- Every row is read. -/
theorem getClaims_eq (h : db.Consistent computeTxid) (outpoints : List OutPoint) :
    db.getClaims chain order outpoints =
      .ok ((db.selectClaims chain order).map ClaimRow.claim) := by
  have hread : ∀ r ∈ db.selectClaims chain order, r.read = .ok r.claim := fun r hr =>
    if_neg (not_lt_of_ge (h.creationTime_nonneg r ((mem_selectClaims h).mp hr).1))
  rw [getClaims]
  generalize db.selectClaims chain order = rows at hread
  induction rows with
  | nil => rfl
  | cons r rows ih =>
    rw [List.forall_mem_cons] at hread
    rw [List.mapM_cons, hread.1, ih hread.2]
    rfl

/-- A row is told by its transaction. -/
theorem Consistent.claim_inj (h : db.Consistent computeTxid) {r r' : ClaimRow} (hr : r ∈ db.claims)
    (hr' : r' ∈ db.claims) (heq : r.claim = r'.claim) : r = r' := by
  refine List.inj_on_of_nodup_map h.nodup_txId hr hr' ?_
  rw [h.txId_eq r hr, h.txId_eq r' hr', show r.tx = r'.tx from congrArg Claim.tx heq]

/-- The claims that are stored. -/
def storedClaims (db : ClaimTables) : List Claim := db.claims.map ClaimRow.claim

/-- **A claim is returned** if it has an input whose transaction has no output
that is spent. -/
theorem mem_getClaims (h : db.Consistent computeTxid) :
    claim ∈ (db.selectClaims chain order).map ClaimRow.claim ↔ claim ∈ db.storedClaims ∧
      ∃ o ∈ ClaimMonitor.inputsOf claim, ∀ o' : OutPoint, o'.txid = o.txid →
        ¬ chain.isSpent o' := by
  rw [storedClaims, List.mem_map, List.mem_map]
  constructor
  · rintro ⟨r, hr, rfl⟩
    have ⟨hstored, hinput⟩ := (mem_selectClaims h).mp hr
    exact ⟨⟨r, hstored, rfl⟩, hinput⟩
  · rintro ⟨⟨r, hr, rfl⟩, hinput⟩
    exact ⟨r, (mem_selectClaims h).mpr ⟨hr, hinput⟩, rfl⟩

/-- The rate and the time by which claims are ordered. -/
def ClaimBefore (a b : Claim) : Prop :=
  b.feePerKw < a.feePerKw ∨ (a.feePerKw = b.feePerKw ∧ b.creationTime ≤ a.creationTime)

theorem claimBefore_iff {a b : ClaimRow} : ClaimBefore a.claim b.claim ↔ a.before b := by
  refine or_congr_right (and_congr_right (fun _ => ?_))
  show b.creationTime * ((1000000000 : ℕ) : ℤ) ≤ a.creationTime * ((1000000000 : ℕ) : ℤ) ↔ _
  omega

/-- Claims are returned in order. -/
theorem pairwise_getClaims :
    ((db.selectClaims chain order).map ClaimRow.claim).Pairwise ClaimBefore := by
  refine List.pairwise_map.mpr (List.Pairwise.imp (fun hab => claimBefore_iff.mpr hab) ?_)
  refine Table.pairwise_orderBy (fun a b => ?_) (fun a b c => ?_)
  · simp only [ClaimRow.before, UInt32.lt_iff_toNat_lt, ← UInt32.toNat_inj]
    omega
  · simp only [ClaimRow.before, UInt32.lt_iff_toNat_lt, ← UInt32.toNat_inj]
    omega

/-- Claims are returned once. -/
theorem nodup_getClaims (h : db.Consistent computeTxid) :
    ((db.selectClaims chain order).map ClaimRow.claim).Nodup := by
  have hkeys : ((db.selectClaims chain order).map ClaimRow.txId).Nodup := by
    rw [selectClaims, Table.nodup_map_orderBy]
    exact (Table.nodup_map_permute.mpr h.nodup_txId).sublist (List.filter_sublist.map _)
  refine hkeys.of_map.map_on (fun r hr r' hr' heq => ?_)
  exact h.claim_inj ((mem_selectClaims h).mp hr).1 ((mem_selectClaims h).mp hr').1 heq

/-! ## Claims that are pending -/

end ClaimTables

/-- The chain as if only some outputs had been spent. -/
def ChainTables.spendingOnly (chain : ChainTables) (points : List OutPoint) : ChainTables :=
  { chain with txInputs := chain.txInputs.filter (fun i => i.outpoint ∈ points) }

theorem ChainTables.isSpent_spendingOnly {chain : ChainTables} {points : List OutPoint}
    {o : OutPoint} : (chain.spendingOnly points).isSpent o ↔ o ∈ points ∧ chain.isSpent o := by
  simp only [isSpent_iff, spendingOnly, List.mem_filter, decide_eq_true_eq]
  constructor
  · rintro ⟨i, ⟨hi, hpoint⟩, rfl, hblock⟩
    exact ⟨hpoint, i, hi, rfl, hblock⟩
  · rintro ⟨hpoint, i, hi, rfl, hblock⟩
    exact ⟨i, ⟨hi, hpoint⟩, rfl, hblock⟩

namespace ClaimTables

variable {db : ClaimTables} {chain : ChainTables} {computeTxid : Transaction → Txid}

/-- **The pending claims are returned**, once and in order: those that have no
spent input are, those that have no other are not, and what became of outputs that
a claim does not spend makes no difference to it. -/
structure ReturnsPending (db : ClaimTables) (chain : ChainTables) (order : List ℕ)
    (outpoints : List OutPoint) (claims : List Claim) : Prop where
  ordered : claims.Pairwise ClaimBefore
  nodup : claims.Nodup
  stored : ∀ claim ∈ claims, claim ∈ db.storedClaims
  pending : ∀ claim ∈ db.storedClaims,
    (∀ o ∈ ClaimMonitor.inputsOf claim, ¬ chain.isSpent o) → claim ∈ claims
  notSpent : ∀ claim ∈ claims, ∃ o ∈ ClaimMonitor.inputsOf claim, ¬ chain.isSpent o
  siblings : ∀ claim ∈ db.storedClaims, (claim ∈ claims ↔
    ∃ claims', db.getClaims (chain.spendingOnly (ClaimMonitor.inputsOf claim)) order outpoints =
      .ok claims' ∧ claim ∈ claims')

/-- **What it takes**: an input of a claim that no spent one of its inputs is a
sibling of has no spent sibling at all, or another input has none. -/
def SiblingsUnspent (db : ClaimTables) (chain : ChainTables) : Prop :=
  ∀ claim ∈ db.storedClaims,
    (∃ o ∈ ClaimMonitor.inputsOf claim, ∀ o' ∈ ClaimMonitor.inputsOf claim,
      o'.txid = o.txid → ¬ chain.isSpent o') →
    ∃ o ∈ ClaimMonitor.inputsOf claim, ∀ o' : OutPoint, o'.txid = o.txid → ¬ chain.isSpent o'

/-- **The pending claims are returned if and only if** no claim has only inputs
with spent siblings. -/
theorem getClaims_returnsPending_iff (h : db.Sound computeTxid) (chain : ChainTables)
    (order : List ℕ) (outpoints : List OutPoint) :
    (∃ claims, db.getClaims chain order outpoints = .ok claims ∧
      db.ReturnsPending chain order outpoints claims) ↔ db.SiblingsUnspent chain := by
  -- Whether a claim is returned where only its inputs are spent.
  have hown (claim : Claim) (hstored : claim ∈ db.storedClaims) :
      (∃ claims', db.getClaims (chain.spendingOnly (ClaimMonitor.inputsOf claim)) order
        outpoints = .ok claims' ∧ claim ∈ claims') ↔
      ∃ o ∈ ClaimMonitor.inputsOf claim, ∀ o' ∈ ClaimMonitor.inputsOf claim,
        o'.txid = o.txid → ¬ chain.isSpent o' := by
    simp only [getClaims_eq h.toConsistent, Except.ok.injEq, exists_eq_left', mem_getClaims h.toConsistent,
      ChainTables.isSpent_spendingOnly, hstored, true_and, not_and]
    exact exists_congr (fun o => and_congr_right (fun _ =>
      forall_congr' (fun o' => ⟨fun ho hmem heq => ho heq hmem, fun ho heq hmem => ho hmem heq⟩)))
  constructor
  · rintro ⟨claims, hclaims, hpending⟩ claim hstored hinput
    rw [getClaims_eq h.toConsistent] at hclaims
    obtain rfl := Except.ok.inj hclaims
    have hmem := (hpending.siblings claim hstored).mpr ((hown claim hstored).mpr hinput)
    exact ((mem_getClaims h.toConsistent).mp hmem).2
  · intro hsiblings
    refine ⟨_, getClaims_eq h.toConsistent outpoints, pairwise_getClaims, nodup_getClaims h.toConsistent,
      fun claim hmem => ((mem_getClaims h.toConsistent).mp hmem).1, fun claim hstored hunspent => ?_,
      fun claim hmem => ?_, fun claim hstored => ?_⟩
    · obtain ⟨r, hr, rfl⟩ := List.mem_map.mp hstored
      obtain ⟨o, ho⟩ := List.exists_mem_of_ne_nil _ (h.inputs_ne_nil r hr)
      exact (mem_getClaims h.toConsistent).mpr ⟨hstored,
        hsiblings _ hstored ⟨o, ho, fun o' ho' _ => hunspent o' ho'⟩⟩
    · obtain ⟨o, ho, hunspent⟩ := ((mem_getClaims h.toConsistent).mp hmem).2
      exact ⟨o, ho, hunspent o rfl⟩
    · rw [hown claim hstored, mem_getClaims h.toConsistent]
      constructor
      · rintro ⟨-, o, ho, hunspent⟩
        exact ⟨o, ho, fun o' _ => hunspent o'⟩
      · exact fun hinput => ⟨hstored, hsiblings claim hstored hinput⟩

end ClaimTables

namespace Sample

/-- Transaction ids are counted by the versions. -/
def txidOfVersion (tx : Transaction) : Txid := Bytes32.ofByte tx.version.toUInt8

/-- A claim of the second output of a transaction. -/
def siblingClaim : Claim where
  creationTime := 0
  tx := ⟨5, 0, [⟨⟨Bytes32.ofByte 1, 1⟩, [], 0, []⟩], [⟨40000, [0x52]⟩]⟩
  destinationAddress := ⟨[0x52]⟩
  feePerKw := 1000
  autoBump := true

/-- The claim is stored. -/
def siblingTables : ClaimTables where
  claims := [⟨Bytes32.ofByte 5, 0, siblingClaim.tx, ⟨[0x52]⟩, 1000, true⟩]
  claimInputs := [⟨Bytes32.ofByte 5, ⟨Bytes32.ofByte 1, 1⟩⟩]

theorem siblingTables_sound : siblingTables.Sound txidOfVersion := by
  have hadd : ClaimTables.addClaim ⟨[], []⟩ txidOfVersion siblingClaim = .ok siblingTables := rfl
  exact ClaimTables.sound_empty.addClaim (List.cons_ne_nil _ _) hadd

/-- Nothing is spent. -/
def unspentChain : ChainTables := ⟨[], [], [], [], []⟩

/-- The transaction pays two swaps, and its first output has been claimed to an
address that is under watch. -/
def siblingSpentChain : ChainTables where
  blocks := [⟨Bytes32.ofByte 9, 100, Bytes32.ofByte 8⟩, ⟨Bytes32.ofByte 10, 101, Bytes32.ofByte 9⟩]
  watchAddresses := [⟨[0x51]⟩, ⟨[0x53]⟩, ⟨[0x54]⟩]
  txOutputs := [⟨⟨Bytes32.ofByte 1, 0⟩, ⟨[0x51]⟩, 60000⟩, ⟨⟨Bytes32.ofByte 1, 1⟩, ⟨[0x53]⟩, 50000⟩,
    ⟨⟨Bytes32.ofByte 2, 0⟩, ⟨[0x54]⟩, 59000⟩]
  txInputs := [⟨⟨Bytes32.ofByte 1, 0⟩, Bytes32.ofByte 2, 0⟩]
  txBlocks := [⟨Bytes32.ofByte 1, Bytes32.ofByte 9⟩, ⟨Bytes32.ofByte 2, Bytes32.ofByte 10⟩]

end Sample

namespace ClaimTables

open Sample in
theorem getClaims_returnsPending_sample :
    ∃ claims, siblingTables.getClaims unspentChain [] [] = .ok claims ∧
      siblingTables.ReturnsPending unspentChain [] [] claims := by
  refine (getClaims_returnsPending_iff siblingTables_sound unspentChain [] []).mpr ?_
  rintro claim - ⟨o, ho, -⟩
  exact ⟨o, ho, fun _ _ => Bool.false_ne_true⟩

open Sample in
/-- **A pending claim is left out.** Another output of the transaction it claims
from has been spent. -/
theorem getClaims_omits_pending :
    siblingTables.Sound txidOfVersion ∧ siblingClaim ∈ siblingTables.storedClaims ∧
      (∀ o ∈ ClaimMonitor.inputsOf siblingClaim, ¬ siblingSpentChain.isSpent o) ∧
      siblingTables.getClaims siblingSpentChain [] [] = .ok [] ∧
      ¬ ∃ claims, siblingTables.getClaims siblingSpentChain [] [] = .ok claims ∧
        siblingTables.ReturnsPending siblingSpentChain [] [] claims := by
  have hstored : siblingClaim ∈ siblingTables.storedClaims := by decide
  have hunspent : ∀ o ∈ ClaimMonitor.inputsOf siblingClaim, ¬ siblingSpentChain.isSpent o := by
    decide
  have hnone : siblingTables.getClaims siblingSpentChain [] [] = .ok [] := by
    rw [getClaims_eq siblingTables_sound.toConsistent]
    refine congrArg Except.ok (List.map_eq_nil_iff.mpr ?_)
    decide
  refine ⟨siblingTables_sound, hstored, hunspent, hnone, ?_⟩
  rintro ⟨claims, hclaims, hpending⟩
  rw [hnone] at hclaims
  cases hclaims
  exact List.not_mem_nil (hpending.pending siblingClaim hstored hunspent)

end ClaimTables

end Swapd
