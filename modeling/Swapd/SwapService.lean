import Mathlib.Data.List.Sort
import Swapd.ChainRepository
import Swapd.Integer
import Swapd.Types

/-!
# Swap transactions

How many blocks a swap has left, the transaction that claims its outputs, and
the server's half of a cooperative refund signature. What the bitcoin and
secp256k1 libraries compute is a parameter, `Crypto`; the sizes that enter the
weight of a transaction are part of the types it returns.

A private key provider is the sequence of the answers it gives within one call
of the service.
-/

namespace Swapd

/-- The size of the witness of a claim input. -/
def claimInputWitnessSize : ℕ := 222

/-- The errors of the swap service. -/
inductive SwapError where
  | privateKey (error : PrivateKeyError)
  | invalidBlockHeight
  | fakeAddress
  | taproot
  | invalidWeight
  | amountTooLow
  | conversion
  | musigTweak
  | nonceGen
  | sign
deriving DecidableEq

/-- A public key hash: twenty bytes. -/
structure Hash160 where
  bytes : Bytes
  length_bytes : bytes.length = 20
deriving DecidableEq

/-- A Schnorr signature: sixty-four bytes. -/
structure SchnorrSignature where
  bytes : Bytes
  length_bytes : bytes.length = 64
deriving DecidableEq

/-- The control block of a leaf at depth one: the leaf version, the internal
key and one hash. -/
structure ControlBlock where
  bytes : Bytes
  length_bytes : bytes.length = 65
deriving DecidableEq

/-- The spend info of a tree with two leaves at depth one. -/
structure TaprootSpendInfo where
  outputKey : Bytes32
  tapTweak : Bytes32
  controlBlock : ScriptBuf → Option ControlBlock

/-- A MuSig key aggregation cache. -/
abbrev MusigKeyAggCache := Bytes
/-- A MuSig public nonce. -/
abbrev MusigPubNonce := Bytes
/-- A MuSig secret nonce. -/
abbrev MusigSecNonce := Bytes
/-- A MuSig partial signature. -/
abbrev MusigPartialSignature := Bytes

/-- **What the bitcoin and secp256k1 libraries compute.** -/
structure Crypto where
  /-- `CompressedPublicKey::from_slice`. -/
  compressedPublicKeyFromSlice : Bytes → Option PublicKey
  /-- The hash of a public key in a p2wpkh script. -/
  pubkeyHash : PublicKey → Hash160
  /-- `MusigKeyAggCache::new`, with the conversions of the keys. -/
  keyAggCacheNew : PublicKey → PublicKey → Except SwapError MusigKeyAggCache
  /-- `agg_pk`. -/
  aggPk : MusigKeyAggCache → Bytes32
  /-- `pubkey_xonly_tweak_add`. -/
  pubkeyXonlyTweakAdd : MusigKeyAggCache → Bytes32 → Except SwapError MusigKeyAggCache
  /-- `TaprootBuilder::finalize`, with the claim and refund scripts at depth one. -/
  finalize : ScriptBuf → ScriptBuf → Bytes32 → Except SwapError TaprootSpendInfo
  /-- `TapLeafHash::from_script`. -/
  tapLeafHash : ScriptBuf → Bytes32
  /-- `taproot_script_spend_signature_hash`. -/
  taprootScriptSpendSignatureHash :
    Transaction → ℕ → List TxOut → Bytes32 → Except SwapError Bytes32
  /-- `taproot_key_spend_signature_hash`. -/
  taprootKeySpendSignatureHash :
    Transaction → ℕ → List TxOut → Except SwapError Bytes32
  /-- `sign_schnorr_with_aux_rand`. -/
  signSchnorrWithAuxRand : Bytes32 → SecretKey → Bytes32 → SchnorrSignature
  /-- `nonce_gen`. -/
  nonceGen : MusigKeyAggCache → Bytes32 → PublicKey → Bytes32 → Bytes32 →
    Except SwapError (MusigSecNonce × MusigPubNonce)
  /-- `MusigAggNonce::new` and `MusigSession::partial_sign`. -/
  partialSign : MusigKeyAggCache → MusigPubNonce → MusigPubNonce → Bytes32 →
    MusigSecNonce → SecretKey → Except SwapError MusigPartialSignature

/-- `Address::p2wpkh`. -/
def Crypto.p2wpkh (crypto : Crypto) (key : PublicKey) : Address :=
  ⟨[0x00, 0x14] ++ (crypto.pubkeyHash key).bytes⟩

/-! ## Blocks left -/

/-- `SwapState::blocks_left`. -/
def SwapState.blocksLeft (state : SwapState)
    (confirmationHeight currentHeight : UInt64) : ℤ :=
  let lockHeight :=
    (confirmationHeight.saturatingAdd state.swap.pub.lockTime.toUInt64).toI64OrMax
  toI32OrZero (i64SaturatingSub lockHeight currentHeight.toI64OrMax)

/-- An output that can be claimed. -/
structure ClaimableUtxo where
  swap : Swap
  utxo : Txo
  paidWithRequest : Option String
  preimage : Preimage
deriving DecidableEq

/-- `ClaimableUtxo::blocks_left`. -/
def ClaimableUtxo.blocksLeft (claimable : ClaimableUtxo) (currentHeight : UInt64) : ℤ :=
  let confirmations := (claimable.utxo.confirmations currentHeight).asI64
  let blocksLeft := Int.bmod (claimable.swap.pub.lockTime.toNat - confirmations) (2 ^ 64)
  Int.bmod blocksLeft (2 ^ 32)

/-- The height from which on a lock time is a time, not a height. -/
def maxBlockHeight : ℕ := 500000000

/-! ## Weight -/

/-- The size of a variable-length integer. -/
def varIntSize (n : ℕ) : ℕ :=
  if n < 0xFD then 1 else if n ≤ 0xFFFF then 3 else if n ≤ 0xFFFFFFFF then 5 else 9

/-- The size of an input without its witness. -/
def TxIn.baseSize (input : TxIn) : ℕ :=
  36 + varIntSize input.scriptSig.length + input.scriptSig.length + 4

/-- The size of a witness. -/
def witnessSize (witness : List Bytes) : ℕ :=
  varIntSize witness.length + (witness.map (fun w => varIntSize w.length + w.length)).sum

/-- The size of an output. -/
def TxOut.size (output : TxOut) : ℕ :=
  8 + varIntSize output.scriptPubkey.length + output.scriptPubkey.length

/-- Whether a transaction is serialized with marker and flag. -/
def Transaction.usesSegwitSerialization (tx : Transaction) : Bool :=
  tx.input.any (fun i => !i.witness.isEmpty) || tx.input.isEmpty

/-- The size of a transaction without its witnesses. -/
def Transaction.baseSize (tx : Transaction) : ℕ :=
  4 + varIntSize tx.input.length + (tx.input.map TxIn.baseSize).sum
    + varIntSize tx.output.length + (tx.output.map TxOut.size).sum + 4

/-- The size of a transaction. -/
def Transaction.totalSize (tx : Transaction) : ℕ :=
  if tx.usesSegwitSerialization then
    tx.baseSize + 2 + (tx.input.map (fun i => witnessSize i.witness)).sum
  else tx.baseSize

/-- `tx.weight()`. -/
def Transaction.weight (tx : Transaction) : ℕ := tx.baseSize * 3 + tx.totalSize

/-! ## The service -/

/-- **The swap service.** -/
structure SwapService where
  dustLimitSat : UInt64
  lockTime : UInt16
  crypto : Crypto

/-- `a.utxo.outpoint.cmp(&b.utxo.outpoint)`, as an order. -/
def OutPoint.le (a b : OutPoint) : Prop :=
  a.txid.bytes < b.txid.bytes ∨ (a.txid = b.txid ∧ a.vout ≤ b.vout)

instance : DecidableRel OutPoint.le := fun a b => by
  unfold OutPoint.le; infer_instance

namespace SwapService

variable (service : SwapService)

/-- `key_agg_cache`. -/
def keyAggCache (swap : Swap) : Except SwapError MusigKeyAggCache :=
  service.crypto.keyAggCacheNew swap.pub.claimPubkey swap.pub.refundPubkey

/-- `taproot_spend_info`. -/
def taprootSpendInfo (swap : Swap) : Except SwapError TaprootSpendInfo := do
  let m ← service.keyAggCache swap
  let internalKey := service.crypto.aggPk m
  service.crypto.finalize swap.pub.claimScript swap.pub.refundScript internalKey

/-- The claim transaction before fees are taken and inputs are signed. -/
def unsignedClaimTx (claimables : List ClaimableUtxo) (lockTime : UInt32)
    (totalValue : UInt64) (destination : Address) : Transaction where
  version := 2
  lockTime := lockTime
  input := claimables.map (fun r => ⟨r.utxo.outpoint, [], 0, []⟩)
  output := [⟨totalValue, destination.scriptPubkey⟩]

/-- The witness of the `n`-th input is made. -/
def signInput (keys : ℕ → Except PrivateKeyError SecretKey) (prevouts : List TxOut)
    (tx : Transaction) (nc : ClaimableUtxo × ℕ) : Except SwapError Transaction := do
  let c := nc.1
  let n := nc.2
  let leafHash := service.crypto.tapLeafHash c.swap.pub.claimScript
  let sighash ←
    service.crypto.taprootScriptSpendSignatureHash tx n prevouts leafHash
  let rnd ← (keys n).mapError .privateKey
  let signature :=
    service.crypto.signSchnorrWithAuxRand sighash c.swap.priv.claimPrivkey rnd
  let info ← service.taprootSpendInfo c.swap
  let some controlBlock := info.controlBlock c.swap.pub.claimScript
    | throw .taproot
  let witness := [signature.bytes, c.preimage.bytes, c.swap.pub.claimScript,
    controlBlock.bytes]
  return { tx with input := tx.input.modify n (fun i => { i with witness := witness }) }

/-- The fee, in satoshis, of a transaction of the weight given. -/
def feeSat (weight : UInt64) (fee : FeeEstimate) : UInt64 :=
  (weight * fee.satPerKw.toUInt64).divCeil 1000

/-- `create_claim_tx`. -/
def createClaimTx (keys : ℕ → Except PrivateKeyError SecretKey)
    (claimables : List ClaimableUtxo) (fee : FeeEstimate) (currentHeight : UInt64)
    (destinationAddress : Address) : Except SwapError Transaction := do
  let claimables := claimables.insertionSort
    (fun a b => OutPoint.le a.utxo.outpoint b.utxo.outpoint)
  let totalValue := claimables.foldl (fun sum r => sum + r.utxo.txOut.value) 0
  if currentHeight.toUInt32 ≥ 500000000 then
    throw .invalidBlockHeight
  let tx := unsignedClaimTx claimables currentHeight.toUInt32 totalValue destinationAddress
  let weight := tx.weight + claimInputWitnessSize * tx.input.length
  if weight ≥ 2 ^ 64 then
    throw .invalidWeight
  let valueAfterFeesSat := totalValue.saturatingSub (feeSat (UInt64.ofNat weight) fee)
  if valueAfterFeesSat < service.dustLimitSat then
    throw .amountTooLow
  let tx := { tx with
    output := tx.output.modify 0 (fun o => { o with value := valueAfterFeesSat }) }
  let prevouts := claimables.map (fun u => u.utxo.txOut)
  claimables.zipIdx.foldlM (service.signInput keys prevouts) tx

/-- `partial_sign_refund_tx`. -/
def partialSignRefundTx (keys : ℕ → Except PrivateKeyError SecretKey)
    (swap : Swap) (tx : Transaction) (prevouts : List TxOut) (inputIndex : ℕ)
    (theirPubNonce : MusigPubNonce) :
    Except SwapError (MusigPartialSignature × MusigPubNonce) := do
  let info ← service.taprootSpendInfo swap
  let cache ← service.keyAggCache swap
  let cache ← service.crypto.pubkeyXonlyTweakAdd cache info.tapTweak
  let sessionId ← (keys 0).mapError .privateKey
  let msg ← service.crypto.taprootKeySpendSignatureHash tx inputIndex prevouts
  let extraRand ← (keys 1).mapError .privateKey
  let nonces ← service.crypto.nonceGen cache sessionId swap.pub.claimPubkey msg extraRand
  let partialSig ← service.crypto.partialSign cache nonces.2 theirPubNonce msg
    nonces.1 swap.priv.claimPrivkey
  return (partialSig, nonces.2)

variable {service : SwapService}

theorem exists_of_bind_eq_ok {ε α β : Type} {x : Except ε α} {f : α → Except ε β} {b : β}
    (h : (x >>= f) = .ok b) : ∃ a, x = .ok a ∧ f a = .ok b := by
  cases x with
  | error e => cases h
  | ok a => exact ⟨a, rfl, h⟩

/-- **What is signed** is the sighash of the input, over the outputs handed in, with
the key of the swap. -/
theorem partialSignRefundTx_eq_ok {keys : ℕ → Except PrivateKeyError SecretKey} {swap : Swap}
    {tx : Transaction} {prevouts : List TxOut} {inputIndex : ℕ}
    {theirPubNonce ourPubNonce : MusigPubNonce} {partialSig : MusigPartialSignature}
    (h : service.partialSignRefundTx keys swap tx prevouts inputIndex theirPubNonce
      = .ok (partialSig, ourPubNonce)) :
    ∃ sighash, service.crypto.taprootKeySpendSignatureHash tx inputIndex prevouts = .ok sighash ∧
      ∃ cache secNonce, service.crypto.partialSign cache ourPubNonce theirPubNonce sighash
        secNonce swap.priv.claimPrivkey = .ok partialSig := by
  obtain ⟨info, -, h⟩ := exists_of_bind_eq_ok h
  obtain ⟨untweaked, -, h⟩ := exists_of_bind_eq_ok h
  obtain ⟨cache, -, h⟩ := exists_of_bind_eq_ok h
  obtain ⟨sessionId, -, h⟩ := exists_of_bind_eq_ok h
  obtain ⟨sighash, hsighash, h⟩ := exists_of_bind_eq_ok h
  obtain ⟨extraRand, -, h⟩ := exists_of_bind_eq_ok h
  obtain ⟨nonces, -, h⟩ := exists_of_bind_eq_ok h
  obtain ⟨signature, hsign, h⟩ := exists_of_bind_eq_ok h
  obtain ⟨rfl, rfl⟩ := Prod.mk.inj (Except.ok.inj h)
  exact ⟨sighash, hsighash, cache, nonces.1, hsign⟩

end SwapService

/-! ## How long a swap has left -/

/-- **Blocks left, as a number.** While blocks are left, their number is what
remains of the lock time: no saturation and no cast adds to it. -/
theorem SwapState.blocksLeft_le {state : SwapState}
    {confirmationHeight currentHeight : UInt64}
    (h : 0 < state.blocksLeft confirmationHeight currentHeight) :
    state.blocksLeft confirmationHeight currentHeight + currentHeight.toNat
      ≤ confirmationHeight.toNat + state.swap.pub.lockTime.toNat
    ∧ state.blocksLeft confirmationHeight currentHeight < 2 ^ 31 := by
  have hlock : state.swap.pub.lockTime.toUInt64.toNat = state.swap.pub.lockTime.toNat :=
    UInt16.toNat_toUInt64 _
  simp only [blocksLeft, toI32OrZero, i64SaturatingSub, UInt64.toI64OrMax_eq,
    UInt64.toNat_saturatingAdd, hlock] at h ⊢
  split at h
  next hr =>
    rw [if_pos hr]
    omega
  next => exact absurd h (lt_irrefl 0)

/-- **Blocks left of a swap**, at heights in range: what remains of the lock time
counted from the confirmation height. -/
theorem SwapState.blocksLeft_eq {state : SwapState} {confirmationHeight currentHeight : UInt64}
    (hconfirmation : confirmationHeight.toNat < maxBlockHeight)
    (hcurrent : currentHeight.toNat < maxBlockHeight) :
    state.blocksLeft confirmationHeight currentHeight
      = confirmationHeight.toNat + state.swap.pub.lockTime.toNat - currentHeight.toNat := by
  have hlock : state.swap.pub.lockTime.toUInt64.toNat = state.swap.pub.lockTime.toNat :=
    UInt16.toNat_toUInt64 _
  have hlt := state.swap.pub.lockTime.toNat_lt
  unfold maxBlockHeight at hconfirmation hcurrent
  rw [blocksLeft, UInt64.toI64OrMax_eq, UInt64.toI64OrMax_eq, UInt64.toNat_saturatingAdd, hlock,
    i64SaturatingSub, toI32OrZero]
  split <;> omega

/-- The confirmations of an output, at heights in range. -/
theorem Txo.toNat_confirmations {txo : Txo} {currentHeight : UInt64}
    (hcurrent : currentHeight.toNat < maxBlockHeight) :
    (txo.confirmations currentHeight).toNat
      = currentHeight.toNat + 1 - txo.blockHeight.toNat := by
  unfold maxBlockHeight at hcurrent
  rw [Txo.confirmations, UInt64.toNat_saturatingSub, UInt64.toNat_saturatingAdd, UInt64.toNat_one]
  omega

/-- **Blocks left of an output**, at heights in range: what its confirmations
leave of the lock time. -/
theorem ClaimableUtxo.blocksLeft_eq {claimable : ClaimableUtxo} {currentHeight : UInt64}
    (hcurrent : currentHeight.toNat < maxBlockHeight) :
    claimable.blocksLeft currentHeight = claimable.swap.pub.lockTime.toNat
      - (currentHeight.toNat + 1 - claimable.utxo.blockHeight.toNat : ℕ) := by
  have hlt := claimable.swap.pub.lockTime.toNat_lt
  have hconfirmations := @Txo.toNat_confirmations claimable.utxo currentHeight hcurrent
  unfold maxBlockHeight at hcurrent
  simp only [blocksLeft]
  rw [UInt64.asI64_eq (by omega), hconfirmations, bmod_bmod_eq (by omega) (by omega)]

/-- **The two counts never agree.** At all heights in range the swap is said to
have more blocks left than its output: one more once the output is confirmed, and
as many more as the output is above the current height. -/
theorem blocksLeft_differ {state : SwapState} {claimable : ClaimableUtxo} {currentHeight : UInt64}
    (hswap : claimable.swap = state.swap)
    (hconfirmation : claimable.utxo.blockHeight.toNat < maxBlockHeight)
    (hcurrent : currentHeight.toNat < maxBlockHeight) :
    state.blocksLeft claimable.utxo.blockHeight currentHeight
        = claimable.blocksLeft currentHeight
          + max 1 (claimable.utxo.blockHeight.toNat - currentHeight.toNat : ℤ)
      ∧ state.blocksLeft claimable.utxo.blockHeight currentHeight
          ≠ claimable.blocksLeft currentHeight := by
  rw [SwapState.blocksLeft_eq hconfirmation hcurrent, ClaimableUtxo.blocksLeft_eq hcurrent, hswap]
  constructor <;> omega

namespace Sample

/-- Libraries whose every computation succeeds. -/
def crypto : Crypto where
  compressedPublicKeyFromSlice := some
  pubkeyHash := fun _ => ⟨List.replicate 20 0, rfl⟩
  keyAggCacheNew := fun _ _ => .ok []
  aggPk := fun _ => .ofByte 0
  pubkeyXonlyTweakAdd := fun cache _ => .ok cache
  finalize := fun _ _ key =>
    .ok ⟨key, .ofByte 0, fun _ => some ⟨List.replicate 65 0, by simp⟩⟩
  tapLeafHash := fun _ => .ofByte 0
  taprootScriptSpendSignatureHash := fun _ _ _ _ => .ok (.ofByte 0)
  taprootKeySpendSignatureHash := fun _ _ _ => .ok (.ofByte 0)
  signSchnorrWithAuxRand := fun _ _ _ => ⟨List.replicate 64 0, by simp⟩
  nonceGen := fun _ _ _ _ _ => .ok ([], [])
  partialSign := fun _ _ _ _ _ _ => .ok []

/-- The swap. -/
def swap : Swap where
  creationTime := 0
  pub := ⟨⟨[0x51]⟩, [], [], .ofByte 1, 288, [], []⟩
  priv := ⟨.ofByte 9⟩

/-- An output of the swap. -/
def swapOutput : ClaimableUtxo where
  swap := swap
  utxo := ⟨.ofByte 3, 100, ⟨.ofByte 2, 0⟩, ⟨100000, [0x51]⟩⟩
  paidWithRequest := none
  preimage := .ofByte 7

end Sample

theorem blocksLeft_differ_sample :
    (⟨Sample.swap, none⟩ : SwapState).blocksLeft 100 110 ≠ Sample.swapOutput.blocksLeft 110 :=
  (@blocksLeft_differ ⟨Sample.swap, none⟩ Sample.swapOutput 110 rfl (by decide) (by decide)).2

/-- **The two counts differ**, for an output with eleven confirmations. -/
theorem blocksLeft_not_alike : ¬ ∀ (state : SwapState) (claimable : ClaimableUtxo)
    (currentHeight : UInt64), claimable.swap = state.swap →
      claimable.utxo.blockHeight.toNat < maxBlockHeight → currentHeight.toNat < maxBlockHeight →
        state.blocksLeft claimable.utxo.blockHeight currentHeight
          = claimable.blocksLeft currentHeight := by
  intro h
  have heq := h ⟨Sample.swap, none⟩ Sample.swapOutput 110 rfl (by decide) (by decide)
  exact absurd heq (by decide)

end Swapd
