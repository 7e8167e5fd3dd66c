import Swapd.ClaimMonitor
import Swapd.ClaimTransaction
import Swapd.PublicServer

/-!
# The fee of a claim transaction

The fee is fixed before the inputs are signed, from a witness of 222 weight
units for each input. What is signed later is four items of 64, 32, 57 and 65
bytes, each with its length, and their count: 223 weight units, and two more
for marker and flag. So the estimate is short by one unit for each input and
two (`IsSigned.weight_eq`), and only the rounding of the fee to a whole satoshi
can make up for it.

The fee is computed modulo `2 ^ 64`. Where the product of weight and rate stays
below, a lower rate never leaves less (`valueAfterFees_mono`).
-/

namespace Swapd

/-! ## The claim script -/

/-- What `create_swap` computes with libraries, apart from `Crypto`. -/
structure SwapLibraries where
  /-- `public_key`. -/
  publicKey : SecretKey → PublicKey
  /-- `x_only_public_key`. -/
  xOnlyPublicKey : PublicKey → Bytes32
  /-- `ripemd160::Hash::hash`. -/
  ripemd160 : Bytes → Hash160
  /-- `Address::p2tr_tweaked`. -/
  p2trTweaked : Bytes32 → Address

/-- `push_int`: an opcode for a small number, or the bytes of a script number. -/
def pushInt (n : ℕ) : Bytes :=
  if n = 0 then [0x00]
  else if n ≤ 16 then [UInt8.ofNat (0x50 + n)]
  else if n < 0x80 then [0x01, UInt8.ofNat n]
  else if n < 0x8000 then [0x02, UInt8.ofNat (n % 256), UInt8.ofNat (n / 256)]
  else [0x03, UInt8.ofNat (n % 256), UInt8.ofNat (n / 256), 0x00]

/-- The claim script: `OP_HASH160`, the hash, `OP_EQUALVERIFY`, the claim key,
`OP_CHECKSIG`. -/
def claimScript (hash : Hash160) (claimKey : Bytes32) : ScriptBuf :=
  [0xa9, 0x14] ++ hash.bytes ++ [0x88, 0x20] ++ claimKey.bytes ++ [0xac]

/-- The refund script: the refund key, `OP_CHECKSIGVERIFY`, the lock time,
`OP_CSV`. -/
def refundScript (refundKey : Bytes32) (lockTime : UInt16) : ScriptBuf :=
  [0x20] ++ refundKey.bytes ++ [0xad] ++ pushInt lockTime.toNat ++ [0xb2]

namespace SwapService

/-- `create_swap`. -/
def createSwap (service : SwapService) (lib : SwapLibraries) (now : SystemTime)
    (privateKey : Except PrivateKeyError SecretKey) (refundPubkey : PublicKey)
    (hash : PaymentHash) (_currentHeight : UInt64) : Except SwapError Swap := do
  let claimPrivkey ← privateKey.mapError .privateKey
  let claimPubkey := lib.publicKey claimPrivkey
  let some fakeKey := service.crypto.compressedPublicKeyFromSlice (List.replicate 33 0x02)
    | throw .fakeAddress
  let swap : Swap :=
    { creationTime := now
      pub :=
        { address := service.crypto.p2wpkh fakeKey
          claimPubkey := claimPubkey
          claimScript := claimScript (lib.ripemd160 hash.bytes) (lib.xOnlyPublicKey claimPubkey)
          hash := hash
          lockTime := service.lockTime
          refundPubkey := refundPubkey
          refundScript := refundScript (lib.xOnlyPublicKey refundPubkey) service.lockTime }
      priv := ⟨claimPrivkey⟩ }
  let info ← service.taprootSpendInfo swap
  return { swap with pub := { swap.pub with address := lib.p2trTweaked info.outputKey } }

/-- **A claim script as built by `create_swap`**, of some service. -/
def IsCreated (script : ScriptBuf) : Prop :=
  ∃ (service : SwapService) (lib : SwapLibraries) (now : SystemTime)
    (privateKey : Except PrivateKeyError SecretKey) (refundPubkey : PublicKey)
    (hash : PaymentHash) (currentHeight : UInt64) (swap : Swap),
    service.createSwap lib now privateKey refundPubkey hash currentHeight = .ok swap ∧
      script = swap.pub.claimScript

theorem length_claimScript (hash : Hash160) (claimKey : Bytes32) :
    (claimScript hash claimKey).length = 57 := by
  simp only [claimScript, List.length_append, hash.length_bytes, claimKey.length_bytes,
    List.length_cons, List.length_nil]

/-- **Claim scripts have fifty-seven bytes.** -/
theorem IsCreated.length {script : ScriptBuf} (h : IsCreated script) : script.length = 57 := by
  obtain ⟨service, lib, now, privateKey, refundPubkey, hash, currentHeight, swap, hswap, rfl⟩ := h
  unfold createSwap at hswap
  cases privateKey with
  | error e => cases hswap
  | ok key =>
    change (match service.crypto.compressedPublicKeyFromSlice (List.replicate 33 0x02) with
      | some _ => _
      | _ => _) = _ at hswap
    cases hfake : service.crypto.compressedPublicKeyFromSlice (List.replicate 33 0x02) with
    | none =>
      rw [hfake] at hswap
      cases hswap
    | some fakeKey =>
      rw [hfake] at hswap
      obtain ⟨info, -, hret⟩ := exists_of_bind_eq_ok hswap
      rw [← Except.ok.inj hret]
      exact length_claimScript _ _

/-! ## The weight of what is signed -/

/-- A witness does not count in the size without witnesses. -/
theorem baseSize_stripped (tx : Transaction) : tx.stripped.baseSize = tx.baseSize := by
  rw [Transaction.baseSize, Transaction.baseSize, Transaction.stripped, List.length_map,
    List.map_map]
  rfl

variable {service : SwapService} {keys keys' : ℕ → Except PrivateKeyError SecretKey}
  {claimables claimables' : List ClaimableUtxo} {fee fee' : FeeEstimate}
  {currentHeight currentHeight' : UInt64} {destination : Address} {tx tx' : Transaction}

/-- **The witness of a claim input** has 223 weight units. -/
theorem IsWitness.witnessSize_eq {prevouts : List TxOut} {c : ClaimableUtxo} {n : ℕ}
    {witness : List Bytes} (h : IsWitness service keys prevouts tx c n witness)
    (hscript : c.swap.pub.claimScript.length = 57) : witnessSize witness = 223 := by
  obtain ⟨sighash, rnd, info, controlBlock, -, -, -, -, rfl⟩ := h.signed
  simp only [witnessSize, List.map_cons, List.map_nil, SchnorrSignature.length_bytes,
    Bytes32.length_bytes, hscript, ControlBlock.length_bytes]
  rfl

/-- **What is signed is heavier than the estimate**, by one unit for each input
and two. -/
theorem IsSigned.weight_eq
    (h : IsSigned service keys claimables fee currentHeight destination tx)
    (hne : claimables ≠ []) (hscripts : ∀ c ∈ claimables, IsCreated c.swap.pub.claimScript) :
    tx.weight = estimatedWeight claimables destination + claimables.length + 2 := by
  have hlen : tx.input.length = claimables.length :=
    h.length_input.trans (sortByOutpoint_perm claimables).length_eq
  have hwitness : ∀ i ∈ tx.input, witnessSize i.witness = 223 := by
    intro i hi
    obtain ⟨n, hn⟩ := List.mem_iff_getElem?.mp hi
    obtain ⟨c, hc, -, tx₀, -, hw⟩ := h.exists_witness hn
    exact hw.witnessSize_eq (hscripts c hc).length
  have hsum : (tx.input.map (fun i => witnessSize i.witness)).sum = 223 * claimables.length := by
    rw [List.map_congr_left hwitness, List.map_const', List.sum_replicate_nat, hlen, Nat.mul_comm]
  have huses : tx.usesSegwitSerialization = true := by
    obtain ⟨c, cs, hcs⟩ := List.exists_cons_of_ne_nil hne
    have hpos : 0 < tx.input.length := by
      rw [hlen, hcs]
      exact Nat.succ_pos _
    obtain ⟨i, hi⟩ := List.exists_mem_of_length_pos hpos
    rw [Transaction.usesSegwitSerialization, Bool.or_eq_true, List.any_eq_true]
    refine Or.inl ⟨i, hi, ?_⟩
    rw [Bool.not_eq_true', ← Bool.not_eq_true, List.isEmpty_iff]
    intro hnil
    have hsize := hwitness i hi
    rw [hnil] at hsize
    exact absurd hsize (by decide)
  have hbase : tx.baseSize = 17 + varIntSize claimables.length + 41 * claimables.length
      + varIntSize destination.scriptPubkey.length + destination.scriptPubkey.length := by
    rw [← baseSize_stripped, h.stripped, baseSize_unsignedClaimTx,
      (sortByOutpoint_perm claimables).length_eq]
  rw [Transaction.weight, Transaction.totalSize, huses, if_pos rfl, hsum, hbase, estimatedWeight,
    weight_unsignedClaimTx, if_neg hne, claimInputWitnessSize]
  omega

/-! ## What the fee is -/

/-- What the outputs are worth. -/
def inputValue (claimables : List ClaimableUtxo) : ℕ :=
  (claimables.map (fun c => c.utxo.txOut.value.toNat)).sum

/-- What a transaction pays out. -/
def outputValue (tx : Transaction) : ℕ := (tx.output.map (fun o => o.value.toNat)).sum

/-- The fee of a claim as it is computed, modulo the word size. -/
def wrappedFee (weight : ℕ) (fee : FeeEstimate) : ℕ :=
  (weight * fee.satPerKw.toNat % 2 ^ 64 + 999) / 1000

theorem toNat_feeSat_eq {weight : ℕ} (hweight : weight < 2 ^ 64) :
    (feeSat (UInt64.ofNat weight) fee).toNat = wrappedFee weight fee := by
  rw [feeSat, toNat_divCeil_thousand, UInt64.toNat_mul, UInt64.toNat_ofNat_of_lt' hweight,
    UInt32.toNat_toUInt64, wrappedFee]

theorem wrappedFee_eq {weight : ℕ} (h : weight * fee.satPerKw.toNat < 2 ^ 64) :
    wrappedFee weight fee = feeFor weight fee := by
  rw [wrappedFee, Nat.mod_eq_of_lt h, feeFor]

/-- **The value that is left**: the total less the fee, both modulo the word
size. -/
theorem toNat_valueAfterFees_eq (hweight : estimatedWeight claimables destination < 2 ^ 64) :
    (valueAfterFees claimables fee destination).toNat = inputValue claimables % 2 ^ 64
      - wrappedFee (estimatedWeight claimables destination) fee := by
  rw [valueAfterFees, UInt64.toNat_saturatingSub, toNat_totalValue, toNat_feeSat_eq hweight,
    inputValue]

/-- What a claim pays out. -/
theorem IsSigned.outputValue_eq
    (h : IsSigned service keys claimables fee currentHeight destination tx)
    (hweight : estimatedWeight claimables destination < 2 ^ 64) :
    outputValue tx = inputValue claimables % 2 ^ 64
      - wrappedFee (estimatedWeight claimables destination) fee := by
  have houtput : tx.output = [⟨valueAfterFees claimables fee destination,
      destination.scriptPubkey⟩] := congrArg Transaction.output h.stripped
  rw [outputValue, houtput, List.map_singleton, List.sum_singleton,
    toNat_valueAfterFees_eq hweight]

/-! ## The fee rate -/

/-- **A transaction pays a fee rate**, for its own weight. -/
def PaysRate (claimables : List ClaimableUtxo) (fee : FeeEstimate) (tx : Transaction) : Prop :=
  ((fee.satPerKw.toNat * tx.weight : ℕ) : ℤ) ≤ ((inputValue claimables : ℤ) - outputValue tx) * 1000

/-- **The rounding makes up for the estimate**: the fee for the estimated weight
does not overflow and is not above the total, and rounding it up to a whole
satoshi covers one weight unit for each input and two more. -/
structure RoundingCovers (claimables : List ClaimableUtxo) (fee : FeeEstimate)
    (destination : Address) : Prop where
  fits : estimatedWeight claimables destination * fee.satPerKw.toNat < 2 ^ 64
  affordable : feeFor (estimatedWeight claimables destination) fee ≤ inputValue claimables
  covers : fee.satPerKw.toNat * (claimables.length + 2)
    ≤ feeFor (estimatedWeight claimables destination) fee * 1000
      - estimatedWeight claimables destination * fee.satPerKw.toNat

/-- **A claim pays the fee rate exactly when the rounding makes up for the
estimate.** That it does is enough for any outputs; that it must holds where
their sum does not overflow. -/
theorem createClaimTx_paysRate_iff
    (h : service.createClaimTx keys claimables fee currentHeight destination = .ok tx)
    (hne : claimables ≠ []) (hscripts : ∀ c ∈ claimables, IsCreated c.swap.pub.claimScript) :
    (RoundingCovers claimables fee destination → PaysRate claimables fee tx) ∧
      (inputValue claimables < 2 ^ 64 →
        PaysRate claimables fee tx → RoundingCovers claimables fee destination) := by
  obtain ⟨-, hweight, -, hsigned⟩ := createClaimTx_eq_ok h
  have hout := hsigned.outputValue_eq hweight
  have hsize := hsigned.weight_eq hne hscripts
  set weight := estimatedWeight claimables destination
  have hmul : fee.satPerKw.toNat * tx.weight
      = weight * fee.satPerKw.toNat + fee.satPerKw.toNat * (claimables.length + 2) := by
    rw [hsize, Nat.add_assoc, Nat.mul_add, Nat.mul_comm]
  have hmod : inputValue claimables % 2 ^ 64 ≤ inputValue claimables := Nat.mod_le _ _
  constructor
  · intro hrounding
    have hfits : weight * fee.satPerKw.toNat < 2 ^ 64 := hrounding.fits
    have haffordable : feeFor weight fee ≤ inputValue claimables := hrounding.affordable
    have hcovers : fee.satPerKw.toNat * (claimables.length + 2)
        ≤ feeFor weight fee * 1000 - weight * fee.satPerKw.toNat := hrounding.covers
    rw [wrappedFee_eq hfits] at hout
    have hfee : weight * fee.satPerKw.toNat ≤ feeFor weight fee * 1000 := by
      rw [feeFor]
      omega
    rw [PaysRate, hmul]
    omega
  · intro hvalue hpays
    rw [PaysRate, hmul] at hpays
    rw [Nat.mod_eq_of_lt hvalue] at hout
    -- a fee that has wrapped around does not pay for the weight
    have hfits : weight * fee.satPerKw.toNat < 2 ^ 64 := by
      rw [wrappedFee] at hout
      omega
    rw [wrappedFee_eq hfits] at hout
    have haffordable : feeFor weight fee ≤ inputValue claimables := by
      rw [feeFor]
      omega
    have hcovers : fee.satPerKw.toNat * (claimables.length + 2)
        ≤ feeFor weight fee * 1000 - weight * fee.satPerKw.toNat := by omega
    exact ⟨hfits, haffordable, hcovers⟩

/-! ## Replacements -/

/-- The virtual size of a transaction: a quarter of its weight, rounded up. -/
def virtualSize (weight : ℕ) : ℕ := (weight + 3) / 4

/-- **A replacement pays enough**: it spends the same inputs, and its fee is
above that of the replaced transaction by a satoshi for each virtual byte. -/
def PaysReplacement (claimables : List ClaimableUtxo) (tx replacement : Transaction) : Prop :=
  replacement.input.map TxIn.previousOutput = tx.input.map TxIn.previousOutput ∧
    ((inputValue claimables : ℤ) - outputValue tx) + virtualSize replacement.weight
      ≤ (inputValue claimables : ℤ) - outputValue replacement

/-- **The rates are far enough apart**: the fee for the estimated weight at the
first rate and the size of what is signed are together below the total and the
fee at the second. -/
structure RatesApart (claimables : List ClaimableUtxo) (feePerKw : UInt32)
    (feeEstimate : FeeEstimate) (destination : Address) : Prop where
  affordable : wrappedFee (estimatedWeight claimables destination) ⟨feePerKw⟩
      + virtualSize (estimatedWeight claimables destination + claimables.length + 2)
    ≤ inputValue claimables % 2 ^ 64
  apart : (wrappedFee (estimatedWeight claimables destination) ⟨feePerKw⟩
      + virtualSize (estimatedWeight claimables destination + claimables.length + 2) - 1) * 1000
    < estimatedWeight claimables destination * feeEstimate.satPerKw.toNat % 2 ^ 64

theorem inputValue_perm (hperm : claimables.Perm claimables') :
    inputValue claimables = inputValue claimables' :=
  (hperm.map _).sum_eq

/-- **A replacement pays enough exactly when the rates are far enough apart**,
whatever the estimate for which it is made. The claim was stored with the rate
it was created at. -/
theorem recheckClaim_paysReplacement_iff {claim : Claim} {feeEstimate : FeeEstimate}
    (hclaim : service.createClaimTx keys claimables ⟨claim.feePerKw⟩ currentHeight
      claim.destinationAddress = .ok claim.tx)
    (hne : claimables ≠ []) (hscripts : ∀ c ∈ claimables, IsCreated c.swap.pub.claimScript)
    (hdistinct : (claimables.map (fun c => c.utxo.outpoint)).Nodup)
    (hperm : claimables.Perm claimables')
    (htx : service.createClaimTx keys' claimables' feeEstimate currentHeight'
      claim.destinationAddress = .ok tx) :
    PaysReplacement claimables claim.tx tx ↔
      RatesApart claimables claim.feePerKw feeEstimate claim.destinationAddress := by
  obtain ⟨-, hweight, -, hold⟩ := createClaimTx_eq_ok hclaim
  obtain ⟨-, hweight', -, hnew⟩ := createClaimTx_eq_ok htx
  have hout := hold.outputValue_eq hweight
  have hout' := hnew.outputValue_eq hweight'
  have hsize := hnew.weight_eq (fun hnil => hne (List.perm_nil.mp (hnil ▸ hperm)))
    (fun c hc => hscripts c (hperm.mem_iff.mpr hc))
  rw [← estimatedWeight_perm hperm, ← inputValue_perm hperm] at hout'
  rw [← estimatedWeight_perm hperm, ← hperm.length_eq] at hsize
  have hinputs : tx.input.map TxIn.previousOutput = claim.tx.input.map TxIn.previousOutput := by
    rw [hold.map_previousOutput, hnew.map_previousOutput, sortByOutpoint_eq hperm hdistinct]
  have hmod : inputValue claimables % 2 ^ 64 ≤ inputValue claimables := Nat.mod_le _ _
  have hpos : 0 < virtualSize (estimatedWeight claimables claim.destinationAddress
      + claimables.length + 2) := by
    rw [virtualSize]
    omega
  have hfee (q : ℕ) (hq : 0 < q) : q ≤ wrappedFee (estimatedWeight claimables
      claim.destinationAddress) feeEstimate ↔ (q - 1) * 1000 < estimatedWeight claimables
        claim.destinationAddress * feeEstimate.satPerKw.toNat % 2 ^ 64 := by
    rw [wrappedFee]
    omega
  rw [PaysReplacement, and_iff_right hinputs, hout, hout', hsize]
  constructor
  · intro hpays
    refine ⟨by omega, (hfee _ (by omega)).mp (by omega)⟩
  · rintro ⟨haffordable, hapart⟩
    have := (hfee _ (by omega)).mpr hapart
    omega

end SwapService

namespace Sample

/-- Libraries for the creation of swaps. -/
def swapLibraries : SwapLibraries where
  publicKey := fun _ => []
  xOnlyPublicKey := fun _ => .ofByte 4
  ripemd160 := crypto.pubkeyHash
  p2trTweaked := fun _ => ⟨[0x51]⟩

/-- The swap, as it is created. -/
def createdSwap : Swap where
  creationTime := 0
  pub := ⟨⟨[0x51]⟩, [], claimScript (crypto.pubkeyHash []) (.ofByte 4), .ofByte 1, 288, [],
    refundScript (.ofByte 4) 288⟩
  priv := ⟨.ofByte 9⟩

theorem createSwap_eq : swapService.createSwap swapLibraries 0 (.ok (.ofByte 9)) [] (.ofByte 1) 100
    = .ok createdSwap := rfl

/-- An output of that swap, worth a million satoshis. -/
def createdClaimable : ClaimableUtxo := { claimable 0 with swap := createdSwap }

/-- An address of the wallet. -/
def walletAddress : Address := crypto.p2wpkh []

theorem isCreated_createdClaimable :
    ∀ c ∈ [createdClaimable], SwapService.IsCreated c.swap.pub.claimScript := by
  intro c hc
  rw [List.mem_singleton.mp hc]
  exact ⟨swapService, swapLibraries, 0, .ok (.ofByte 9), [], .ofByte 1, 100, createdSwap,
    createSwap_eq, rfl⟩

end Sample

open Sample in
/-- At 253 satoshis per thousand weight units, the rounding makes up for it. -/
theorem SwapService.createClaimTx_paysRate_sample :
    ∃ tx, swapService.createClaimTx (fun _ => .ok (.ofByte 5)) [createdClaimable] ⟨253⟩ 110
        walletAddress = .ok tx ∧ PaysRate [createdClaimable] ⟨253⟩ tx := by
  obtain ⟨tx, htx⟩ : ∃ tx, swapService.createClaimTx (fun _ => .ok (.ofByte 5))
      [createdClaimable] ⟨253⟩ 110 walletAddress = .ok tx := ⟨_, rfl⟩
  have h := createClaimTx_paysRate_iff htx (List.cons_ne_nil _ _) isCreated_createdClaimable
  exact ⟨tx, htx, h.1 ⟨by decide, by decide, by decide⟩⟩

open Sample in
/-- **At a thousand it does not**: the fee is 550 satoshis, the weight is 553. -/
theorem SwapService.createClaimTx_underpays :
    ∃ (fee : FeeEstimate) (tx : Transaction),
      swapService.createClaimTx (fun _ => .ok (.ofByte 5)) [createdClaimable] fee 110
        walletAddress = .ok tx ∧
      (∀ c ∈ [createdClaimable], IsCreated c.swap.pub.claimScript) ∧
      ¬PaysRate [createdClaimable] fee tx :=
  ⟨⟨1000⟩, _, rfl, isCreated_createdClaimable, by unfold PaysRate; decide⟩

namespace Sample

/-- A claim of that output, at a thousand satoshis per thousand weight units. -/
def storedClaim (tx : Transaction) : Claim := ⟨0, tx, walletAddress, 1000, true⟩

end Sample

open Sample in
theorem SwapService.recheckClaim_paysReplacement_sample :
    ∃ (claim : Claim) (feeEstimate : FeeEstimate) (tx : Transaction),
      swapService.createClaimTx (fun _ => .ok (.ofByte 5)) [createdClaimable] feeEstimate 110
        walletAddress = .ok tx ∧
      ClaimMonitor.Replaces claim.feePerKw feeEstimate ∧
      PaysReplacement [createdClaimable] claim.tx tx := by
  obtain ⟨tx, htx⟩ : ∃ tx, swapService.createClaimTx (fun _ => .ok (.ofByte 5))
      [createdClaimable] ⟨1000⟩ 100 walletAddress = .ok tx := ⟨_, rfl⟩
  obtain ⟨tx', htx'⟩ : ∃ tx, swapService.createClaimTx (fun _ => .ok (.ofByte 5))
      [createdClaimable] ⟨1254⟩ 110 walletAddress = .ok tx := ⟨_, rfl⟩
  have h := @recheckClaim_paysReplacement_iff swapService _ _ _ _ _ _ _ (storedClaim tx) _ htx
    (List.cons_ne_nil _ _) isCreated_createdClaimable (by decide) (List.Perm.refl _) htx'
  have hreplaces : ClaimMonitor.Replaces 1000 ⟨1254⟩ := by decide
  have hapart : RatesApart [createdClaimable] 1000 ⟨1254⟩ walletAddress :=
    ⟨by decide, by decide⟩
  exact ⟨storedClaim tx, ⟨1254⟩, tx', htx', hreplaces, h.mpr hapart⟩

open Sample in
/-- **At the threshold it does not**: the fee rises by 138 satoshis, and the
replacement has 139 virtual bytes. -/
theorem SwapService.recheckClaim_underpaysReplacement :
    ∃ (claim : Claim) (feeEstimate : FeeEstimate) (tx : Transaction),
      swapService.createClaimTx (fun _ => .ok (.ofByte 5)) [createdClaimable] ⟨claim.feePerKw⟩ 100
        claim.destinationAddress = .ok claim.tx ∧
      claim.feePerKw + ClaimMonitor.minReplacementDiffSatPerKw = feeEstimate.satPerKw ∧
      ClaimMonitor.Replaces claim.feePerKw feeEstimate ∧
      swapService.createClaimTx (fun _ => .ok (.ofByte 5)) [createdClaimable] feeEstimate 110
        claim.destinationAddress = .ok tx ∧
      ¬PaysReplacement [createdClaimable] claim.tx tx := by
  obtain ⟨tx, htx⟩ : ∃ tx, swapService.createClaimTx (fun _ => .ok (.ofByte 5))
      [createdClaimable] ⟨1000⟩ 100 walletAddress = .ok tx := ⟨_, rfl⟩
  obtain ⟨tx', htx'⟩ : ∃ tx, swapService.createClaimTx (fun _ => .ok (.ofByte 5))
      [createdClaimable] ⟨1250⟩ 110 walletAddress = .ok tx := ⟨_, rfl⟩
  have hreplaces : ClaimMonitor.Replaces 1000 ⟨1250⟩ := by decide
  refine ⟨storedClaim tx, ⟨1250⟩, tx', htx, rfl, hreplaces, htx', ?_⟩
  obtain rfl := Except.ok.inj htx
  obtain rfl := Except.ok.inj htx'
  rintro ⟨-, hfee⟩
  revert hfee
  decide

end Swapd
