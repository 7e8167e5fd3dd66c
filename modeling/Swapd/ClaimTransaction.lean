import Swapd.SwapService

/-!
# The claim transaction

What `create_claim_tx` makes of a list of outputs. The list is sorted by
outpoint, and inputs, prevouts, keys, preimages and scripts are all read off
the sorted list; with distinct outpoints the sorted list does not depend on
the order given, so neither does the transaction, apart from its witnesses.

The inputs are signed one after the other, each on the transaction as the
signatures before have left it. A signature hash does not commit to witnesses
(`Crypto.SighashIgnoresWitnesses`), so what is signed is the transaction
without them.
-/

namespace Swapd

/-! ## The order of outpoints -/

namespace OutPoint

/-- The order is total. -/
theorem le_total (a b : OutPoint) : OutPoint.le a b ∨ OutPoint.le b a := by
  by_cases hab : a.txid.bytes < b.txid.bytes
  · exact Or.inl (Or.inl hab)
  · by_cases hba : b.txid.bytes < a.txid.bytes
    · exact Or.inr (Or.inl hba)
    · have hbytes : a.txid.bytes = b.txid.bytes := List.le_antisymm hba hab
      have htxid : a.txid = b.txid := by
        cases ha : a.txid
        cases hb : b.txid
        rw [ha, hb] at hbytes
        simpa using hbytes
      rcases UInt32.le_total a.vout b.vout with hv | hv
      · exact Or.inl (Or.inr ⟨htxid, hv⟩)
      · exact Or.inr (Or.inr ⟨htxid.symm, hv⟩)

theorem le_trans {a b c : OutPoint} (hab : OutPoint.le a b) (hbc : OutPoint.le b c) :
    OutPoint.le a c := by
  rcases hab with hab | ⟨hab, hvab⟩
  · rcases hbc with hbc | ⟨hbc, -⟩
    · exact Or.inl (List.lt_trans hab hbc)
    · exact Or.inl (hbc ▸ hab)
  · rcases hbc with hbc | ⟨hbc, hvbc⟩
    · exact Or.inl (hab ▸ hbc)
    · exact Or.inr ⟨hab.trans hbc, UInt32.le_trans hvab hvbc⟩

theorem le_antisymm {a b : OutPoint} (hab : OutPoint.le a b) (hba : OutPoint.le b a) :
    a = b := by
  rcases hab with hab | ⟨htxid, hvab⟩
  · rcases hba with hba | ⟨hba, -⟩
    · exact absurd hba (List.lt_asymm hab)
    · exact absurd hab (hba ▸ List.lt_irrefl _)
  · rcases hba with hba | ⟨-, hvba⟩
    · exact absurd hba (htxid ▸ List.lt_irrefl _)
    · cases a
      cases b
      exact OutPoint.mk.injEq .. ▸ ⟨htxid, UInt32.le_antisymm hvab hvba⟩

end OutPoint

/-! ## Transactions without witnesses -/

/-- A transaction without its witnesses. -/
def Transaction.stripped (tx : Transaction) : Transaction :=
  { tx with input := tx.input.map (fun i => { i with witness := [] }) }

/-- A witness is put on the `n`-th input. -/
def Transaction.withWitness (tx : Transaction) (n : ℕ) (witness : List Bytes) : Transaction :=
  { tx with input := tx.input.modify n (fun i => { i with witness := witness }) }

namespace Transaction

@[simp] theorem stripped_withWitness (tx : Transaction) (n : ℕ) (witness : List Bytes) :
    (tx.withWitness n witness).stripped = tx.stripped := by
  have hmap : (tx.input.modify n (fun i => { i with witness := witness })).map
      (fun i => { i with witness := [] }) = tx.input.map (fun i => { i with witness := [] }) := by
    refine List.ext_getElem? (fun j => ?_)
    rw [List.getElem?_map, List.getElem?_modify, List.getElem?_map]
    cases tx.input[j]? with
    | none => rfl
    | some i =>
      refine congrArg some ?_
      by_cases hj : n = j
      · simp only [if_pos hj]
      · simp only [if_neg hj]
  rw [withWitness, stripped, hmap]
  rfl

/-- What is left of an input without its witness. -/
theorem getElem?_stripped (tx : Transaction) (n : ℕ) :
    tx.stripped.input[n]? = tx.input[n]?.map (fun i => { i with witness := [] }) :=
  List.getElem?_map

end Transaction

/-- **A signature hash does not commit to witnesses.** -/
def Crypto.SighashIgnoresWitnesses (crypto : Crypto) : Prop :=
  ∀ tx tx' n prevouts leafHash, tx.stripped = tx'.stripped →
    crypto.taprootScriptSpendSignatureHash tx n prevouts leafHash
      = crypto.taprootScriptSpendSignatureHash tx' n prevouts leafHash

/-- **The libraries fail with errors of their own**, which the service wraps in
`Taproot`. -/
structure Crypto.FailsWithTaproot (crypto : Crypto) : Prop where
  sighash : ∀ {tx n prevouts leafHash e},
    crypto.taprootScriptSpendSignatureHash tx n prevouts leafHash = .error e → e = .taproot
  keyAggCache : ∀ {claimKey refundKey e},
    crypto.keyAggCacheNew claimKey refundKey = .error e → e = .taproot
  finalize : ∀ {claimScript refundScript key e},
    crypto.finalize claimScript refundScript key = .error e → e = .taproot

namespace SwapService

variable (service : SwapService)

/-! ## Before signing -/

/-- The claimables in the order of their outpoints. -/
def sortByOutpoint (claimables : List ClaimableUtxo) : List ClaimableUtxo :=
  claimables.insertionSort (fun a b => OutPoint.le a.utxo.outpoint b.utxo.outpoint)

/-- The sum of the values, as it is computed. -/
def totalValue (claimables : List ClaimableUtxo) : UInt64 :=
  claimables.foldl (fun sum r => sum + r.utxo.txOut.value) 0

/-- The weight for which the fee is computed. -/
def estimatedWeight (claimables : List ClaimableUtxo) (destination : Address) : ℕ :=
  (unsignedClaimTx claimables 0 0 destination).weight
    + claimInputWitnessSize * claimables.length

/-- The value that is left for the output. -/
def valueAfterFees (claimables : List ClaimableUtxo) (fee : FeeEstimate)
    (destination : Address) : UInt64 :=
  (totalValue claimables).saturatingSub
    (feeSat (UInt64.ofNat (estimatedWeight claimables destination)) fee)

theorem sortByOutpoint_perm (claimables : List ClaimableUtxo) :
    (sortByOutpoint claimables).Perm claimables :=
  List.perm_insertionSort _ _

theorem pairwise_sortByOutpoint (claimables : List ClaimableUtxo) :
    (sortByOutpoint claimables).Pairwise
      (fun a b => OutPoint.le a.utxo.outpoint b.utxo.outpoint) :=
  haveI : Std.Total (fun a b : ClaimableUtxo => OutPoint.le a.utxo.outpoint b.utxo.outpoint) :=
    ⟨fun _ _ => OutPoint.le_total _ _⟩
  haveI : IsTrans ClaimableUtxo (fun a b => OutPoint.le a.utxo.outpoint b.utxo.outpoint) :=
    ⟨fun _ _ _ => OutPoint.le_trans⟩
  List.pairwise_insertionSort _ _

/-- **The order given does not matter**, where the outpoints are distinct. -/
theorem sortByOutpoint_eq {claimables claimables' : List ClaimableUtxo}
    (hperm : claimables.Perm claimables')
    (hdistinct : (claimables.map (fun c => c.utxo.outpoint)).Nodup) :
    sortByOutpoint claimables = sortByOutpoint claimables' := by
  have hsorted := (sortByOutpoint_perm claimables).trans
    (hperm.trans (sortByOutpoint_perm claimables').symm)
  refine List.Perm.eq_of_pairwise (fun a b ha hb hab hba => ?_) (pairwise_sortByOutpoint _)
    (pairwise_sortByOutpoint _) hsorted
  have ha : a ∈ claimables := (sortByOutpoint_perm claimables).mem_iff.mp ha
  have hb : b ∈ claimables :=
    hperm.mem_iff.mpr ((sortByOutpoint_perm claimables').mem_iff.mp hb)
  exact List.inj_on_of_nodup_map hdistinct ha hb (OutPoint.le_antisymm hab hba)

/-- A sum does not depend on the order. -/
theorem totalValue_perm {claimables claimables' : List ClaimableUtxo}
    (hperm : claimables.Perm claimables') : totalValue claimables = totalValue claimables' := by
  refine List.Perm.foldl_eq' hperm (fun a _ b _ sum => ?_) 0
  rw [UInt64.add_assoc, UInt64.add_assoc, UInt64.add_comm b.utxo.txOut.value]

/-- The size of a claim without witnesses. -/
theorem baseSize_unsignedClaimTx (claimables : List ClaimableUtxo) (lockTime : UInt32)
    (value : UInt64) (destination : Address) :
    (unsignedClaimTx claimables lockTime value destination).baseSize
      = 17 + varIntSize claimables.length + 41 * claimables.length
        + varIntSize destination.scriptPubkey.length + destination.scriptPubkey.length := by
  have hsum (cs : List ClaimableUtxo) :
      ((cs.map (fun r => (⟨r.utxo.outpoint, [], 0, []⟩ : TxIn))).map TxIn.baseSize).sum
        = 41 * cs.length := by
    induction cs with
    | nil => rfl
    | cons c cs ih =>
      rw [List.map_cons, List.map_cons, List.sum_cons, ih, List.length_cons, Nat.mul_succ,
        Nat.add_comm]
      rfl
  show 4 + varIntSize (claimables.map _).length + ((claimables.map _).map TxIn.baseSize).sum
    + 1 + (8 + varIntSize destination.scriptPubkey.length
      + destination.scriptPubkey.length) + 4 = _
  rw [hsum, List.length_map]
  omega

/-- **The weight depends on the number of inputs** and the length of the script
of the output. -/
theorem weight_unsignedClaimTx (claimables : List ClaimableUtxo) (lockTime : UInt32)
    (value : UInt64) (destination : Address) :
    (unsignedClaimTx claimables lockTime value destination).weight
      = 4 * (17 + varIntSize claimables.length + 41 * claimables.length
          + varIntSize destination.scriptPubkey.length + destination.scriptPubkey.length)
        + if claimables = [] then 2 else 0 := by
  have huses : (unsignedClaimTx claimables lockTime value destination).usesSegwitSerialization
      = claimables.isEmpty := by
    show ((claimables.map _).any _ || (claimables.map _).isEmpty) = _
    rw [List.any_map]
    cases claimables with
    | nil => rfl
    | cons c cs =>
      rw [List.isEmpty_cons, List.map_cons, List.isEmpty_cons, Bool.or_false, ← Bool.not_eq_true,
        List.any_eq_true]
      rintro ⟨_, -, h⟩
      cases h
  rw [Transaction.weight, Transaction.totalSize, huses, baseSize_unsignedClaimTx]
  cases claimables with
  | nil =>
    rw [if_pos List.isEmpty_nil, if_pos rfl]
    show _ * 3 + (_ + 2 + 0) = _
    omega
  | cons c cs =>
    rw [List.isEmpty_cons, if_neg Bool.false_ne_true, if_neg (List.cons_ne_nil c cs)]
    omega

/-- The weight does not depend on the order. -/
theorem estimatedWeight_perm {claimables claimables' : List ClaimableUtxo}
    (hperm : claimables.Perm claimables') (destination : Address) :
    estimatedWeight claimables destination = estimatedWeight claimables' destination := by
  have hnil : claimables = [] ↔ claimables' = [] := by
    rw [← List.length_eq_zero_iff, ← List.length_eq_zero_iff, hperm.length_eq]
  rw [estimatedWeight, estimatedWeight, weight_unsignedClaimTx, weight_unsignedClaimTx,
    hperm.length_eq]
  simp only [hnil]

/-- **The steps of `create_claim_tx`**: the checks, and the loop that signs. -/
theorem createClaimTx_eq (keys : ℕ → Except PrivateKeyError SecretKey)
    (claimables : List ClaimableUtxo) (fee : FeeEstimate) (currentHeight : UInt64)
    (destination : Address) :
    service.createClaimTx keys claimables fee currentHeight destination
      = if currentHeight.toUInt32 ≥ 500000000 then .error .invalidBlockHeight
        else if estimatedWeight claimables destination ≥ 2 ^ 64 then .error .invalidWeight
        else if valueAfterFees claimables fee destination < service.dustLimitSat then
          .error .amountTooLow
        else (sortByOutpoint claimables).zipIdx.foldlM
          (service.signInput keys ((sortByOutpoint claimables).map (fun u => u.utxo.txOut)))
          (unsignedClaimTx (sortByOutpoint claimables) currentHeight.toUInt32
            (valueAfterFees claimables fee destination) destination) := by
  have hsort : claimables.insertionSort (fun a b => OutPoint.le a.utxo.outpoint b.utxo.outpoint)
      = sortByOutpoint claimables := rfl
  have htotal : (sortByOutpoint claimables).foldl (fun sum r => sum + r.utxo.txOut.value) 0
      = totalValue claimables := totalValue_perm (sortByOutpoint_perm claimables)
  have hweight : (unsignedClaimTx (sortByOutpoint claimables) currentHeight.toUInt32
      (totalValue claimables) destination).weight
        + claimInputWitnessSize * (unsignedClaimTx (sortByOutpoint claimables)
            currentHeight.toUInt32 (totalValue claimables) destination).input.length
      = estimatedWeight claimables destination := by
    show _ + claimInputWitnessSize * ((sortByOutpoint claimables).map _).length = _
    rw [List.length_map, ← estimatedWeight_perm (sortByOutpoint_perm claimables) destination,
      estimatedWeight, weight_unsignedClaimTx, weight_unsignedClaimTx]
  unfold createClaimTx
  simp only [hsort, htotal, hweight]
  by_cases hheight : currentHeight.toUInt32 ≥ 500000000
  · rw [if_pos hheight, if_pos hheight]
    rfl
  rw [if_neg hheight, if_neg hheight]
  by_cases hlarge : estimatedWeight claimables destination ≥ 2 ^ 64
  · rw [if_pos hlarge, if_pos hlarge]
    rfl
  rw [if_neg hlarge, if_neg hlarge]
  by_cases hlow : valueAfterFees claimables fee destination < service.dustLimitSat
  · rw [if_pos hlow]
    exact if_pos hlow
  rw [if_neg hlow]
  exact if_neg hlow

/-! ## Signing -/

variable {service} {keys keys' : ℕ → Except PrivateKeyError SecretKey} {prevouts : List TxOut}

/-- **A witness of a claimable**, as the `n`-th input of a transaction: a
signature by its claim key, its preimage, its claim script and the control
block of that script. -/
structure IsWitness (service : SwapService) (keys : ℕ → Except PrivateKeyError SecretKey)
    (prevouts : List TxOut) (tx : Transaction) (c : ClaimableUtxo) (n : ℕ)
    (witness : List Bytes) : Prop where
  signed : ∃ sighash rnd info controlBlock,
    service.crypto.taprootScriptSpendSignatureHash tx n prevouts
        (service.crypto.tapLeafHash c.swap.pub.claimScript) = .ok sighash ∧
      keys n = .ok rnd ∧ service.taprootSpendInfo c.swap = .ok info ∧
      info.controlBlock c.swap.pub.claimScript = some controlBlock ∧
      witness = [(service.crypto.signSchnorrWithAuxRand sighash c.swap.priv.claimPrivkey
        rnd).bytes, c.preimage.bytes, c.swap.pub.claimScript, controlBlock.bytes]

/-- **One input is signed.** -/
theorem signInput_eq_ok {tx tx' : Transaction} {c : ClaimableUtxo} {n : ℕ}
    (h : service.signInput keys prevouts tx (c, n) = .ok tx') :
    ∃ witness, IsWitness service keys prevouts tx c n witness ∧ tx' = tx.withWitness n witness := by
  unfold signInput at h
  dsimp only at h
  cases hsighash : service.crypto.taprootScriptSpendSignatureHash tx n prevouts
      (service.crypto.tapLeafHash c.swap.pub.claimScript) with
  | error e =>
    rw [hsighash] at h
    cases h
  | ok sighash =>
    rw [hsighash] at h
    cases hrnd : keys n with
    | error e =>
      rw [hrnd] at h
      cases h
    | ok rnd =>
      rw [hrnd] at h
      cases hinfo : service.taprootSpendInfo c.swap with
      | error e =>
        rw [hinfo] at h
        cases h
      | ok info =>
        rw [hinfo] at h
        cases hblock : info.controlBlock c.swap.pub.claimScript with
        | none =>
          dsimp only [bind, Except.bind, Except.mapError] at h
          rw [hblock] at h
          cases h
        | some controlBlock =>
          dsimp only [bind, Except.bind, Except.mapError] at h
          rw [hblock] at h
          exact ⟨_, ⟨sighash, rnd, info, controlBlock, hsighash, hrnd, hinfo, hblock, rfl⟩,
            (Except.ok.inj h).symm⟩

/-- **Results that agree up to witnesses**: the same error, or one transaction
with other witnesses. -/
def AgreeUpToWitnesses : Except SwapError Transaction → Except SwapError Transaction → Prop
  | .error e, .error e' => e = e'
  | .ok tx, .ok tx' => tx.stripped = tx'.stripped
  | _, _ => False

/-- Signing one input fails or succeeds whatever the randomness. -/
theorem signInput_agree (hsighash : service.crypto.SighashIgnoresWitnesses)
    (hkeys : ∀ n, ∃ key, keys n = .ok key) (hkeys' : ∀ n, ∃ key, keys' n = .ok key)
    {tx tx' : Transaction} (h : tx.stripped = tx'.stripped) (c : ClaimableUtxo) (n : ℕ) :
    AgreeUpToWitnesses (service.signInput keys prevouts tx (c, n))
      (service.signInput keys' prevouts tx' (c, n)) := by
  obtain ⟨rnd, hrnd⟩ := hkeys n
  obtain ⟨rnd', hrnd'⟩ := hkeys' n
  unfold signInput
  dsimp only
  rw [hsighash tx tx' n prevouts _ h]
  simp only [hrnd, hrnd']
  cases service.crypto.taprootScriptSpendSignatureHash tx' n prevouts
      (service.crypto.tapLeafHash c.swap.pub.claimScript) with
  | error e => rfl
  | ok sighash =>
    cases service.taprootSpendInfo c.swap with
    | error e => rfl
    | ok info =>
      dsimp only [bind, Except.bind, Except.mapError]
      cases info.controlBlock c.swap.pub.claimScript with
      | none => rfl
      | some controlBlock =>
        show (tx.withWitness n _).stripped = (tx'.withWitness n _).stripped
        rw [Transaction.stripped_withWitness, Transaction.stripped_withWitness, h]

/-- **Signing fails or succeeds whatever the randomness.** -/
theorem foldlM_signInput_agree (hsighash : service.crypto.SighashIgnoresWitnesses)
    (hkeys : ∀ n, ∃ key, keys n = .ok key) (hkeys' : ∀ n, ∃ key, keys' n = .ok key)
    (cs : List (ClaimableUtxo × ℕ)) {tx tx' : Transaction} (h : tx.stripped = tx'.stripped) :
    AgreeUpToWitnesses (cs.foldlM (service.signInput keys prevouts) tx)
      (cs.foldlM (service.signInput keys' prevouts) tx') := by
  induction cs generalizing tx tx' with
  | nil => exact h
  | cons c cs ih =>
    rw [List.foldlM_cons, List.foldlM_cons]
    have hstep : AgreeUpToWitnesses (service.signInput keys prevouts tx c)
        (service.signInput keys' prevouts tx' c) :=
      signInput_agree hsighash hkeys hkeys' h c.1 c.2
    cases h₁ : service.signInput keys prevouts tx c with
    | error e =>
      cases h₂ : service.signInput keys' prevouts tx' c with
      | error e' =>
        rw [h₁, h₂] at hstep
        exact hstep
      | ok t' =>
        rw [h₁, h₂] at hstep
        exact hstep.elim
    | ok t =>
      cases h₂ : service.signInput keys' prevouts tx' c with
      | error e' =>
        rw [h₁, h₂] at hstep
        exact hstep.elim
      | ok t' =>
        rw [h₁, h₂] at hstep
        exact ih hstep

/-- **The inputs are signed**, each on the transaction without witnesses. The
induction is on the claimables still to be signed, the next of which is the
`k`-th input. -/
theorem foldlM_signInput_eq_ok {cs : List ClaimableUtxo} {k : ℕ} {tx tx' : Transaction}
    (h : (cs.zipIdx k).foldlM (service.signInput keys prevouts) tx = .ok tx')
    (hlen : tx.input.length = k + cs.length) :
    tx'.stripped = tx.stripped ∧ (∀ j < k, tx'.input[j]? = tx.input[j]?) ∧
      ∀ n c, cs[n]? = some c → ∃ tx₀ input, tx₀.stripped = tx.stripped ∧
        tx'.input[k + n]? = some input ∧
        IsWitness service keys prevouts tx₀ c (k + n) input.witness := by
  induction cs generalizing k tx with
  | nil =>
    obtain rfl : tx = tx' := Except.ok.inj h
    exact ⟨rfl, fun _ _ => rfl, fun n c hc => nomatch hc⟩
  | cons c cs ih =>
    rw [List.zipIdx_cons, List.foldlM_cons] at h
    cases h₁ : service.signInput keys prevouts tx (c, k) with
    | error e =>
      rw [h₁] at h
      cases h
    | ok tx₁ =>
      rw [h₁] at h
      obtain ⟨witness, hwitness, rfl⟩ := signInput_eq_ok h₁
      have hlen₁ : (tx.withWitness k witness).input.length = k + 1 + cs.length := by
        show (tx.input.modify k _).length = _
        rw [List.length_modify, hlen, List.length_cons]
        omega
      obtain ⟨hstripped, hbefore, hsigned⟩ := ih h hlen₁
      rw [Transaction.stripped_withWitness] at hstripped
      refine ⟨hstripped, fun j hj => ?_, fun n c' hc' => ?_⟩
      · rw [hbefore j (by omega)]
        show (tx.input.modify k _)[j]? = _
        exact List.getElem?_modify_ne _ _ (Nat.ne_of_gt hj)
      · cases n with
        | zero =>
          obtain rfl : c = c' := Option.some.inj hc'
          obtain ⟨input, hinput⟩ : ∃ input, tx.input[k]? = some input :=
            ⟨_, List.getElem?_eq_getElem (by rw [hlen, List.length_cons]; omega)⟩
          refine ⟨tx, { input with witness := witness }, rfl, ?_, hwitness⟩
          rw [Nat.add_zero, hbefore k (by omega)]
          show (tx.input.modify k _)[k]? = _
          rw [List.getElem?_modify_eq, hinput]
          rfl
        | succ n =>
          obtain ⟨tx₀, input, htx₀, hinput, hw⟩ := hsigned n c' hc'
          rw [Transaction.stripped_withWitness] at htx₀
          rw [show k + (n + 1) = k + 1 + n by omega]
          exact ⟨tx₀, input, htx₀, hinput, hw⟩

/-! ## The main result -/

/-- The fee for a weight at a rate, in satoshis, rounded up. -/
def feeFor (weight : ℕ) (fee : FeeEstimate) : ℕ := (weight * fee.satPerKw.toNat + 999) / 1000

/-- **Totals that fit**: the values add up to no more than there is, and the
weight and the fee are computed without overflow. -/
structure TotalsFit (claimables : List ClaimableUtxo) (fee : FeeEstimate)
    (destination : Address) : Prop where
  value : (claimables.map (fun c => c.utxo.txOut.value.toNat)).sum ≤ ChainTables.maxMoneySat
  weight : estimatedWeight claimables destination < 2 ^ 64
  fee : estimatedWeight claimables destination * fee.satPerKw.toNat < 2 ^ 64

section Totals

variable {claimables : List ClaimableUtxo} {fee : FeeEstimate} {destination : Address}

/-- Dividing and rounding up. -/
theorem toNat_divCeil_thousand (a : UInt64) : (a.divCeil 1000).toNat = (a.toNat + 999) / 1000 := by
  have hthousand : (1000 : UInt64).toNat = 1000 := rfl
  have hlt := a.toNat_lt
  have hmod : a % 1000 = 0 ↔ a.toNat % 1000 = 0 := by
    rw [← UInt64.toNat_inj, UInt64.toNat_mod, hthousand]
    rfl
  rw [UInt64.divCeil]
  by_cases h : a % 1000 = 0
  · rw [if_pos h, UInt64.toNat_div, hthousand]
    have := hmod.mp h
    omega
  · have hne : a.toNat % 1000 ≠ 0 := fun h' => h (hmod.mpr h')
    rw [if_neg h, UInt64.toNat_add, UInt64.toNat_div, hthousand, show (1 : UInt64).toNat = 1 from rfl,
      Nat.mod_eq_of_lt (by omega)]
    omega

/-- **The fee, as a number**, where the multiplication does not overflow. -/
theorem toNat_feeSat {weight : ℕ} (hweight : weight < 2 ^ 64)
    (hfee : weight * fee.satPerKw.toNat < 2 ^ 64) :
    (feeSat (UInt64.ofNat weight) fee).toNat = feeFor weight fee := by
  rw [feeSat, toNat_divCeil_thousand, UInt64.toNat_mul, UInt64.toNat_ofNat_of_lt' hweight,
    UInt32.toNat_toUInt64, Nat.mod_eq_of_lt hfee, feeFor]

/-- **The total, as a number**, up to multiples of the word size. -/
theorem toNat_totalValue (claimables : List ClaimableUtxo) :
    (totalValue claimables).toNat
      = (claimables.map (fun c => c.utxo.txOut.value.toNat)).sum % 2 ^ 64 := by
  have key (cs : List ClaimableUtxo) (init : UInt64) :
      (cs.foldl (fun sum r => sum + r.utxo.txOut.value) init).toNat
        = (init.toNat + (cs.map (fun c => c.utxo.txOut.value.toNat)).sum) % 2 ^ 64 := by
    induction cs generalizing init with
    | nil => exact (Nat.mod_eq_of_lt init.toNat_lt).symm
    | cons c cs ih =>
      rw [List.foldl_cons, ih, UInt64.toNat_add, Nat.mod_add_mod, List.map_cons, List.sum_cons,
        Nat.add_assoc]
  rw [totalValue, key, UInt64.toNat_zero, Nat.zero_add]

/-- **The value that is left**: what the outputs are worth, less the fee. -/
theorem TotalsFit.toNat_valueAfterFees (h : TotalsFit claimables fee destination) :
    (valueAfterFees claimables fee destination).toNat
      = (claimables.map (fun c => c.utxo.txOut.value.toNat)).sum
        - feeFor (estimatedWeight claimables destination) fee := by
  have hmoney : ChainTables.maxMoneySat < 2 ^ 64 := by decide
  rw [valueAfterFees, UInt64.toNat_saturatingSub, toNat_totalValue,
    Nat.mod_eq_of_lt (h.value.trans_lt hmoney), toNat_feeSat h.weight h.fee]

end Totals

/-- **What a claim transaction is**, up to its witnesses: the outputs are spent
in ascending order, and what the fee leaves is paid to the destination. -/
structure IsClaim (service : SwapService) (claimables : List ClaimableUtxo) (fee : FeeEstimate)
    (currentHeight : UInt64) (destination : Address) (tx : Transaction) : Prop where
  version : tx.version = 2
  lockTime : tx.lockTime = currentHeight.toUInt32
  perm : (tx.input.map TxIn.previousOutput).Perm (claimables.map (fun c => c.utxo.outpoint))
  sorted : (tx.input.map TxIn.previousOutput).Pairwise OutPoint.le
  output : tx.output = [⟨valueAfterFees claimables fee destination, destination.scriptPubkey⟩]
  dust : service.dustLimitSat ≤ valueAfterFees claimables fee destination

/-- **Every input is signed with its own data.** -/
def SignsInputs (service : SwapService) (keys : ℕ → Except PrivateKeyError SecretKey)
    (claimables : List ClaimableUtxo) (tx : Transaction) : Prop :=
  ∃ ordered : List ClaimableUtxo, ordered.Perm claimables ∧
    ordered.map (fun c => c.utxo.outpoint) = tx.input.map TxIn.previousOutput ∧
    ∀ n input, tx.input[n]? = some input → ∃ c ∈ claimables,
      c.utxo.outpoint = input.previousOutput ∧ ∃ tx₀ : Transaction, tx₀.stripped = tx.stripped ∧
        IsWitness service keys (ordered.map (fun u => u.utxo.txOut)) tx₀ c n input.witness

variable {claimables claimables' : List ClaimableUtxo} {fee : FeeEstimate}
  {currentHeight : UInt64} {destination : Address} {tx : Transaction}

/-- **What signing leaves**: the transaction that was to be signed, each input
with the witness of the claimable at its position. -/
structure IsSigned (service : SwapService) (keys : ℕ → Except PrivateKeyError SecretKey)
    (claimables : List ClaimableUtxo) (fee : FeeEstimate) (currentHeight : UInt64)
    (destination : Address) (tx : Transaction) : Prop where
  stripped : tx.stripped = unsignedClaimTx (sortByOutpoint claimables) currentHeight.toUInt32
    (valueAfterFees claimables fee destination) destination
  signed : ∀ n c, (sortByOutpoint claimables)[n]? = some c → ∃ tx₀ input,
    tx₀.stripped = tx.stripped ∧ tx.input[n]? = some input ∧
      IsWitness service keys ((sortByOutpoint claimables).map (fun u => u.utxo.txOut)) tx₀ c n
        input.witness

/-- Nothing is stripped from a transaction that is not signed. -/
theorem stripped_unsignedClaimTx (claimables : List ClaimableUtxo) (lockTime : UInt32)
    (value : UInt64) (destination : Address) :
    (unsignedClaimTx claimables lockTime value destination).stripped
      = unsignedClaimTx claimables lockTime value destination := by
  rw [Transaction.stripped, unsignedClaimTx, List.map_map]
  rfl

/-- **A transaction that is returned** has passed the checks and is signed. -/
theorem createClaimTx_eq_ok
    (h : service.createClaimTx keys claimables fee currentHeight destination = .ok tx) :
    currentHeight.toUInt32 < 500000000 ∧ estimatedWeight claimables destination < 2 ^ 64 ∧
      service.dustLimitSat ≤ valueAfterFees claimables fee destination ∧
      IsSigned service keys claimables fee currentHeight destination tx := by
  rw [createClaimTx_eq] at h
  by_cases hheight : currentHeight.toUInt32 ≥ 500000000
  · rw [if_pos hheight] at h
    cases h
  rw [if_neg hheight] at h
  by_cases hlarge : estimatedWeight claimables destination ≥ 2 ^ 64
  · rw [if_pos hlarge] at h
    cases h
  rw [if_neg hlarge] at h
  by_cases hlow : valueAfterFees claimables fee destination < service.dustLimitSat
  · rw [if_pos hlow] at h
    cases h
  rw [if_neg hlow] at h
  have hlen : (unsignedClaimTx (sortByOutpoint claimables) currentHeight.toUInt32
      (valueAfterFees claimables fee destination) destination).input.length
        = 0 + (sortByOutpoint claimables).length := by
    show ((sortByOutpoint claimables).map _).length = _
    rw [List.length_map, Nat.zero_add]
  obtain ⟨hstripped, -, hsigned⟩ := foldlM_signInput_eq_ok h hlen
  refine ⟨UInt32.not_le.mp hheight, Nat.not_le.mp hlarge, UInt64.not_lt.mp hlow, ?_, ?_⟩
  · rw [hstripped, stripped_unsignedClaimTx]
  · intro n c hc
    obtain ⟨tx₀, input, htx₀, hinput, hwitness⟩ := hsigned n c hc
    rw [Nat.zero_add] at hinput hwitness
    exact ⟨tx₀, input, htx₀.trans hstripped.symm, hinput, hwitness⟩

/-- The inputs spend the outputs in order. -/
theorem IsSigned.map_previousOutput
    (h : IsSigned service keys claimables fee currentHeight destination tx) :
    tx.input.map TxIn.previousOutput
      = (sortByOutpoint claimables).map (fun c => c.utxo.outpoint) := by
  have hmap := congrArg (fun t => t.input.map TxIn.previousOutput) h.stripped
  simp only [Transaction.stripped, List.map_map] at hmap
  exact hmap.trans (List.map_map ..)

theorem IsSigned.length_input
    (h : IsSigned service keys claimables fee currentHeight destination tx) :
    tx.input.length = (sortByOutpoint claimables).length := by
  have hlen := congrArg List.length h.map_previousOutput
  rwa [List.length_map, List.length_map] at hlen

/-- **What is signed is a claim.** -/
theorem IsSigned.isClaim (h : IsSigned service keys claimables fee currentHeight destination tx)
    (hdust : service.dustLimitSat ≤ valueAfterFees claimables fee destination) :
    IsClaim service claimables fee currentHeight destination tx where
  version := congrArg Transaction.version h.stripped
  lockTime := congrArg Transaction.lockTime h.stripped
  perm := by
    rw [h.map_previousOutput]
    exact (sortByOutpoint_perm claimables).map _
  sorted := by
    rw [h.map_previousOutput]
    exact List.pairwise_map.mpr (pairwise_sortByOutpoint claimables)
  output := congrArg Transaction.output h.stripped
  dust := hdust

/-- **Every input has the witness of its claimable.** -/
theorem IsSigned.exists_witness
    (h : IsSigned service keys claimables fee currentHeight destination tx) {n : ℕ} {input : TxIn}
    (hinput : tx.input[n]? = some input) :
    ∃ c ∈ claimables, c.utxo.outpoint = input.previousOutput ∧ ∃ tx₀ : Transaction,
      tx₀.stripped = tx.stripped ∧ IsWitness service keys
        ((sortByOutpoint claimables).map (fun u => u.utxo.txOut)) tx₀ c n input.witness := by
  have hlt : n < (sortByOutpoint claimables).length := by
    rw [← h.length_input]
    exact (List.getElem?_eq_some_iff.mp hinput).1
  have hget := List.getElem?_eq_getElem hlt
  obtain ⟨tx₀, input', htx₀, hinput', hwitness⟩ := h.signed n _ hget
  obtain rfl : input = input' := Option.some.inj (hinput.symm.trans hinput')
  refine ⟨_, (sortByOutpoint_perm claimables).mem_iff.mp (List.getElem_mem hlt), ?_, tx₀, htx₀,
    hwitness⟩
  have hmap := congrArg (fun l => l[n]?) h.map_previousOutput
  simp only [List.getElem?_map, hinput, hget, Option.map_some] at hmap
  exact (Option.some.inj hmap).symm

/-- The spend info of a swap fails with an error of the libraries. -/
theorem taprootSpendInfo_error (hcrypto : service.crypto.FailsWithTaproot) {swap : Swap}
    {e : SwapError} (h : service.taprootSpendInfo swap = .error e) : e = .taproot := by
  unfold taprootSpendInfo at h
  cases hcache : service.keyAggCache swap with
  | error e' =>
    rw [hcache] at h
    rw [← Except.error.inj h]
    exact hcrypto.keyAggCache hcache
  | ok cache =>
    rw [hcache] at h
    exact hcrypto.finalize h

/-- Signing an input does not fail with `AmountTooLow`. -/
theorem signInput_ne_amountTooLow (hcrypto : service.crypto.FailsWithTaproot)
    {c : ClaimableUtxo × ℕ} : service.signInput keys prevouts tx c ≠ .error .amountTooLow := by
  intro h
  unfold signInput at h
  dsimp only at h
  cases hsighash : service.crypto.taprootScriptSpendSignatureHash tx c.2 prevouts
      (service.crypto.tapLeafHash c.1.swap.pub.claimScript) with
  | error e =>
    rw [hsighash] at h
    rw [Except.error.inj h] at hsighash
    cases hcrypto.sighash hsighash
  | ok sighash =>
    rw [hsighash] at h
    cases hrnd : keys c.2 with
    | error e =>
      rw [hrnd] at h
      cases h
    | ok rnd =>
      rw [hrnd] at h
      cases hinfo : service.taprootSpendInfo c.1.swap with
      | error e =>
        rw [hinfo] at h
        rw [Except.error.inj h] at hinfo
        cases taprootSpendInfo_error hcrypto hinfo
      | ok info =>
        rw [hinfo] at h
        dsimp only [bind, Except.bind, Except.mapError] at h
        cases hblock : info.controlBlock c.1.swap.pub.claimScript with
        | none =>
          rw [hblock] at h
          cases h
        | some controlBlock =>
          rw [hblock] at h
          cases h

/-- Signing does not fail with `AmountTooLow`. -/
theorem foldlM_signInput_ne_amountTooLow (hcrypto : service.crypto.FailsWithTaproot)
    {cs : List (ClaimableUtxo × ℕ)} :
    cs.foldlM (service.signInput keys prevouts) tx ≠ .error .amountTooLow := by
  induction cs generalizing tx with
  | nil => nofun
  | cons c cs ih =>
    rw [List.foldlM_cons]
    cases hstep : service.signInput keys prevouts tx c with
    | error e =>
      intro h
      rw [Except.error.inj h] at hstep
      exact signInput_ne_amountTooLow hcrypto hstep
    | ok tx₁ => exact ih

/-- **`AmountTooLow`** means that what is left is dust. -/
theorem createClaimTx_eq_amountTooLow (hcrypto : service.crypto.FailsWithTaproot)
    (hheight : currentHeight.toUInt32 < 500000000)
    (hweight : estimatedWeight claimables destination < 2 ^ 64) :
    service.createClaimTx keys claimables fee currentHeight destination = .error .amountTooLow ↔
      valueAfterFees claimables fee destination < service.dustLimitSat := by
  rw [createClaimTx_eq, if_neg (UInt32.not_le.mpr hheight), if_neg (Nat.not_le.mpr hweight)]
  by_cases hlow : valueAfterFees claimables fee destination < service.dustLimitSat
  · rw [if_pos hlow]
    exact iff_of_true rfl hlow
  · rw [if_neg hlow]
    exact iff_of_false (foldlM_signInput_ne_amountTooLow hcrypto) hlow

/-- **Lists that differ in their order only give the same result**, up to
witnesses. -/
theorem createClaimTx_agree (hsighash : service.crypto.SighashIgnoresWitnesses)
    (hkeys : ∀ n, ∃ key, keys n = .ok key) (hkeys' : ∀ n, ∃ key, keys' n = .ok key)
    (hperm : claimables.Perm claimables')
    (hdistinct : (claimables.map (fun c => c.utxo.outpoint)).Nodup) :
    AgreeUpToWitnesses
      (service.createClaimTx keys claimables fee currentHeight destination)
      (service.createClaimTx keys' claimables' fee currentHeight destination) := by
  have hsorted := sortByOutpoint_eq hperm hdistinct
  have hweight := estimatedWeight_perm hperm destination
  have hvalue : valueAfterFees claimables fee destination
      = valueAfterFees claimables' fee destination := by
    rw [valueAfterFees, valueAfterFees, totalValue_perm hperm, hweight]
  rw [createClaimTx_eq, createClaimTx_eq, hsorted, hweight, hvalue]
  by_cases hheight : currentHeight.toUInt32 ≥ 500000000
  · rw [if_pos hheight, if_pos hheight]
    rfl
  rw [if_neg hheight, if_neg hheight]
  by_cases hlarge : estimatedWeight claimables' destination ≥ 2 ^ 64
  · rw [if_pos hlarge, if_pos hlarge]
    rfl
  rw [if_neg hlarge, if_neg hlarge]
  by_cases hlow : valueAfterFees claimables' fee destination < service.dustLimitSat
  · rw [if_pos hlow, if_pos hlow]
    rfl
  rw [if_neg hlow, if_neg hlow]
  exact foldlM_signInput_agree hsighash hkeys hkeys' _ rfl

/-- **`create_claim_tx` does not depend on the order, conserves value and signs
each input with its own data.** -/
theorem createClaimTx_orderIndependent (hsighash : service.crypto.SighashIgnoresWitnesses)
    (hcrypto : service.crypto.FailsWithTaproot)
    (hkeys : ∀ n, ∃ key, keys n = .ok key) (hkeys' : ∀ n, ∃ key, keys' n = .ok key)
    (hperm : claimables.Perm claimables')
    (hdistinct : (claimables.map (fun c => c.utxo.outpoint)).Nodup)
    (hheight : currentHeight.toUInt32 < 500000000)
    (htotals : TotalsFit claimables fee destination) :
    AgreeUpToWitnesses
        (service.createClaimTx keys claimables fee currentHeight destination)
        (service.createClaimTx keys' claimables' fee currentHeight destination) ∧
      (service.createClaimTx keys claimables fee currentHeight destination
          = .error .amountTooLow ↔
        (claimables.map (fun c => c.utxo.txOut.value.toNat)).sum
            - feeFor (estimatedWeight claimables destination) fee
          < service.dustLimitSat.toNat) ∧
      ∀ tx, service.createClaimTx keys claimables fee currentHeight destination = .ok tx →
        IsClaim service claimables fee currentHeight destination tx ∧
          (valueAfterFees claimables fee destination).toNat
            = (claimables.map (fun c => c.utxo.txOut.value.toNat)).sum
              - feeFor (estimatedWeight claimables destination) fee ∧
          (0 < service.dustLimitSat → feeFor (estimatedWeight claimables destination) fee
            ≤ (claimables.map (fun c => c.utxo.txOut.value.toNat)).sum) ∧
          SignsInputs service keys claimables tx := by
  refine ⟨createClaimTx_agree hsighash hkeys hkeys' hperm hdistinct, ?_, fun tx htx => ?_⟩
  · rw [createClaimTx_eq_amountTooLow hcrypto hheight htotals.weight, UInt64.lt_iff_toNat_lt,
      htotals.toNat_valueAfterFees]
  · obtain ⟨-, -, hvalue, hsigned⟩ := createClaimTx_eq_ok htx
    refine ⟨hsigned.isClaim hvalue, htotals.toNat_valueAfterFees, fun hdust => ?_,
      sortByOutpoint claimables, sortByOutpoint_perm claimables, hsigned.map_previousOutput.symm,
      fun n input hinput => hsigned.exists_witness hinput⟩
    rw [UInt64.le_iff_toNat_le] at hvalue
    rw [htotals.toNat_valueAfterFees] at hvalue
    have hpos : 0 < service.dustLimitSat.toNat := UInt64.lt_iff_toNat_lt.mp hdust
    omega

end SwapService

namespace Sample

/-- An output of the swap, worth a million satoshis. -/
def claimable (vout : UInt32) : ClaimableUtxo where
  swap := swap
  utxo := ⟨.ofByte 3, 100, ⟨.ofByte 2, vout⟩, ⟨1000000, [0x51]⟩⟩
  paidWithRequest := none
  preimage := .ofByte 7

/-- A swap service. -/
def swapService : SwapService := ⟨546, 288, crypto⟩

theorem sighashIgnoresWitnesses_crypto : crypto.SighashIgnoresWitnesses :=
  fun _ _ _ _ _ _ => rfl

theorem failsWithTaproot_crypto : crypto.FailsWithTaproot where
  sighash := nofun
  keyAggCache := nofun
  finalize := nofun

end Sample

open Sample in
theorem SwapService.createClaimTx_orderIndependent_sample :
    ∃ tx, swapService.createClaimTx (fun _ => .ok (.ofByte 5)) [claimable 1, claimable 0] ⟨250⟩ 110
        ⟨[0x52]⟩ = .ok tx ∧
      IsClaim swapService [claimable 1, claimable 0] ⟨250⟩ 110 ⟨[0x52]⟩ tx ∧
      SignsInputs swapService (fun _ => .ok (.ofByte 5)) [claimable 1, claimable 0] tx := by
  have htotals : TotalsFit [claimable 1, claimable 0] ⟨250⟩ ⟨[0x52]⟩ :=
    ⟨by decide, by decide, by decide⟩
  have hkeys (key : SecretKey) (n : ℕ) :
      ∃ k, (fun _ => .ok key : ℕ → Except PrivateKeyError SecretKey) n = .ok k := ⟨key, rfl⟩
  have hheight : (110 : UInt64).toUInt32 < 500000000 := by decide
  have hperm : [claimable 1, claimable 0].Perm [claimable 0, claimable 1] :=
    List.Perm.swap _ _ _
  have h := @createClaimTx_orderIndependent swapService _ _ _ _ _ _ _
    sighashIgnoresWitnesses_crypto failsWithTaproot_crypto (hkeys (.ofByte 5))
    (hkeys (.ofByte 6)) hperm (by decide) hheight htotals
  obtain ⟨tx, htx⟩ : ∃ tx, swapService.createClaimTx (fun _ => .ok (.ofByte 5))
      [claimable 1, claimable 0] ⟨250⟩ 110 ⟨[0x52]⟩ = .ok tx := ⟨_, rfl⟩
  obtain ⟨hclaim, -, -, hsigns⟩ := h.2.2 tx htx
  exact ⟨tx, htx, hclaim, hsigns⟩

end Swapd
