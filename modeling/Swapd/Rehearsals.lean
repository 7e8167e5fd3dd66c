import Swapd.ClaimFees
import Swapd.PaySwapPayment

/-!
# The rehearsal of a claim

Before `pay_swap` pays, it makes the claim of what it pays for at the fee of the
moment, and throws it away. A later claim of the same outputs has the same
estimated weight, so at a rate that is no higher it leaves no less – as long as
the product of weight and rate fits in its word. Whether it does decides
(`paySwap_coversClaims_iff`): where the product has wrapped around, the fee of
the rehearsal is next to nothing, and a claim at a lower rate is out of reach.

It takes more than ten million outputs to get there, and an estimate for the
rehearsal far above the one for the amounts. Each output is worth one and a half
times the latter, so that with both estimates of the same order there is not
enough money (`feeFits_of_rates`).
-/

namespace Swapd

namespace SwapService

open SwapServer (rehearsed)

variable {service : SwapService} {keys : ℕ → Except PrivateKeyError SecretKey}
  {claimables claimables' : List ClaimableUtxo} {fee fee' : FeeEstimate}
  {currentHeight : UInt64} {destination : Address} {tx : Transaction}

/-! ## Later claims -/

/-- **Later claims are covered** up to a fee rate: no claim of the outputs, in
whatever order, with whatever preimage, at whatever height and to whatever
p2wpkh address, fails because too little is left, or pays out less than a given
value. -/
def CoversClaims (service : SwapService) (txos : List Txo) (feeEstimate : FeeEstimate)
    (value : ℕ) : Prop :=
  ∀ claimables : List ClaimableUtxo, (claimables.map ClaimableUtxo.utxo).Perm txos →
    ∀ keys (fee : FeeEstimate) (currentHeight : UInt64) key,
      fee.satPerKw ≤ feeEstimate.satPerKw → currentHeight.toUInt32 < 500000000 →
      service.createClaimTx keys claimables fee currentHeight (service.crypto.p2wpkh key)
          ≠ .error .amountTooLow ∧
        ∀ tx, service.createClaimTx keys claimables fee currentHeight (service.crypto.p2wpkh key)
          = .ok tx → value ≤ outputValue tx

/-- The estimate depends on the number of inputs and the length of the script. -/
theorem estimatedWeight_congr {destination' : Address}
    (hlength : claimables.length = claimables'.length)
    (hscript : destination.scriptPubkey.length = destination'.scriptPubkey.length) :
    estimatedWeight claimables destination = estimatedWeight claimables' destination' := by
  have hnil : claimables = [] ↔ claimables' = [] := by
    rw [← List.length_eq_zero_iff, ← List.length_eq_zero_iff, hlength]
  rw [estimatedWeight, estimatedWeight, weight_unsignedClaimTx, weight_unsignedClaimTx,
    hlength, hscript]
  simp only [hnil]

theorem length_p2wpkh (crypto : Crypto) (key : PublicKey) :
    (crypto.p2wpkh key).scriptPubkey.length = 22 := by
  show ([0x00, 0x14] ++ (crypto.pubkeyHash key).bytes).length = 22
  rw [List.length_append, (crypto.pubkeyHash key).length_bytes]
  rfl

theorem inputValue_eq (claimables : List ClaimableUtxo) : inputValue claimables
    = ((claimables.map ClaimableUtxo.utxo).map (fun t => t.txOut.value.toNat)).sum := by
  rw [inputValue, List.map_map]
  rfl

theorem map_utxo_rehearsed (swap : Swap) (txos : List Txo) :
    (rehearsed swap txos).map ClaimableUtxo.utxo = txos := by
  rw [rehearsed, List.map_map]
  exact List.map_id _

/-- A lower rate does not leave less, where the fee does not overflow. -/
theorem wrappedFee_mono {weight : ℕ} (hrates : fee.satPerKw ≤ fee'.satPerKw)
    (hfits : weight * fee'.satPerKw.toNat < 2 ^ 64) :
    wrappedFee weight fee ≤ wrappedFee weight fee' := by
  have hmul : weight * fee.satPerKw.toNat ≤ weight * fee'.satPerKw.toNat :=
    Nat.mul_le_mul_left _ (UInt32.le_iff_toNat_le.mp hrates)
  rw [wrappedFee_eq (hmul.trans_lt hfits), wrappedFee_eq hfits, feeFor, feeFor]
  omega

/-- **A rate at which the fee is out of reach**: where the fee overflows at some
rate, there is a lower one at which it is just below doing so. -/
theorem exists_wrappedFee_gt {weight : ℕ} (hweight : weight < 2 ^ 64)
    (hoverflow : ¬weight * fee.satPerKw.toNat < 2 ^ 64) :
    ∃ fee' : FeeEstimate, fee'.satPerKw ≤ fee.satPerKw ∧
      ChainTables.maxMoneySat < wrappedFee weight fee' := by
  have hmax : ChainTables.maxMoneySat = 2100000000000000 := by decide
  have hpos : 0 < weight := by
    refine Nat.pos_of_ne_zero (fun hzero => hoverflow ?_)
    rw [hzero, Nat.zero_mul]
    exact Nat.two_pow_pos 64
  -- the highest rate without overflow
  obtain ⟨rate, hrate⟩ : ∃ rate, rate = (2 ^ 64 - 1) / weight := ⟨_, rfl⟩
  have hle : weight * rate ≤ 2 ^ 64 - 1 := hrate ▸ Nat.mul_div_le _ _
  have hgt : 2 ^ 64 - 1 < weight * rate + weight := by
    rw [hrate, ← Nat.mul_succ]
    exact Nat.lt_mul_div_succ _ hpos
  have hone : weight * 1 ≤ weight * rate :=
    Nat.mul_le_mul_left _ (hrate ▸ Nat.div_pos (by omega) hpos)
  have hrates : rate < fee.satPerKw.toNat := by
    refine Nat.lt_of_mul_lt_mul_left (a := weight) ?_
    omega
  have hnat : (UInt32.ofNat rate).toNat = rate :=
    UInt32.toNat_ofNat_of_lt' (hrates.trans fee.satPerKw.toNat_lt)
  refine ⟨⟨UInt32.ofNat rate⟩, ?_, ?_⟩
  · rw [UInt32.le_iff_toNat_le, hnat]
    exact hrates.le
  · rw [wrappedFee, hnat, Nat.mod_eq_of_lt (by omega), hmax]
    omega

/-- **A claim covers later ones exactly when its fee does not overflow.**
That it does not is enough for any outputs; that it must not holds where they
are worth no more than there is, and a limit for dust is set. -/
theorem createClaimTx_coversClaims_iff {swap : Swap} {txos : List Txo}
    {feeEstimate : FeeEstimate} {fakeKey : PublicKey} (hcrypto : service.crypto.FailsWithTaproot)
    (h : service.createClaimTx keys (rehearsed swap txos) feeEstimate currentHeight
      (service.crypto.p2wpkh fakeKey) = .ok tx) :
    (estimatedWeight (rehearsed swap txos) (service.crypto.p2wpkh fakeKey)
        * feeEstimate.satPerKw.toNat < 2 ^ 64 →
      CoversClaims service txos feeEstimate (outputValue tx)) ∧
    (0 < service.dustLimitSat → inputValue (rehearsed swap txos) ≤ ChainTables.maxMoneySat →
      CoversClaims service txos feeEstimate (outputValue tx) →
      estimatedWeight (rehearsed swap txos) (service.crypto.p2wpkh fakeKey)
        * feeEstimate.satPerKw.toNat < 2 ^ 64) := by
  obtain ⟨hheight, hweight, hdust, hsigned⟩ := createClaimTx_eq_ok h
  have hout := hsigned.outputValue_eq hweight
  rw [UInt64.le_iff_toNat_le, toNat_valueAfterFees_eq hweight] at hdust
  constructor
  · intro hfits claimables hperm keys fee currentHeight key hrates hheight
    have hlength : claimables.length = (rehearsed swap txos).length := by
      rw [rehearsed, List.length_map, ← hperm.length_eq, List.length_map]
    have hsame : estimatedWeight claimables (service.crypto.p2wpkh key)
        = estimatedWeight (rehearsed swap txos) (service.crypto.p2wpkh fakeKey) :=
      estimatedWeight_congr hlength (by rw [length_p2wpkh, length_p2wpkh])
    have hvalue : inputValue claimables = inputValue (rehearsed swap txos) := by
      rw [inputValue_eq, inputValue_eq, map_utxo_rehearsed]
      exact (hperm.map _).sum_eq
    have hfee := wrappedFee_mono hrates hfits
    have hweight' := hsame ▸ hweight
    refine ⟨fun hlow => ?_, fun tx htx => ?_⟩
    · rw [createClaimTx_eq_amountTooLow hcrypto hheight hweight', UInt64.lt_iff_toNat_lt,
        toNat_valueAfterFees_eq hweight', hsame, hvalue] at hlow
      omega
    · obtain ⟨-, -, -, hsigned'⟩ := createClaimTx_eq_ok htx
      rw [hout, hsigned'.outputValue_eq hweight', hsame, hvalue]
      omega
  · intro hpos hmoney hcovers
    by_contra hoverflow
    obtain ⟨fee, hrates, hfee⟩ := exists_wrappedFee_gt hweight hoverflow
    have hperm : ((rehearsed swap txos).map ClaimableUtxo.utxo).Perm txos := by
      rw [map_utxo_rehearsed]
    refine (hcovers _ hperm keys fee currentHeight fakeKey hrates hheight).1 ?_
    rw [createClaimTx_eq_amountTooLow hcrypto hheight hweight, UInt64.lt_iff_toNat_lt,
      toNat_valueAfterFees_eq hweight]
    have hpos := UInt64.lt_iff_toNat_lt.mp hpos
    have hmod : inputValue (rehearsed swap txos) % 2 ^ 64 ≤ inputValue (rehearsed swap txos) :=
      Nat.mod_le _ _
    rw [UInt64.toNat_zero] at hpos
    omega

end SwapService

namespace SwapServer

open Prog (Event Sat Runs Replied onOutcome)
open SwapService (estimatedWeight inputValue outputValue CoversClaims)

variable {σ : Type} {perf : (c : Call Lightning) → σ → c.Reply → σ → Prop}
  {server : SwapServer} {req : PaySwapRequest}

/-! ## What a rehearsal is worth -/

/-- **The fee of a rehearsal fits** in its word. -/
def FeeFits (swap : Swap) (txos : List Txo) (fee : FeeEstimate) (destination : Address) : Prop :=
  estimatedWeight (rehearsed swap txos) destination * fee.satPerKw.toNat < 2 ^ 64

/-- What is payable is worth at least the estimate for the amounts. -/
theorem le_value_of_isPayable {fee : FeeEstimate} {currentHeight : UInt64} {txo : Txo}
    (h : server.isPayable (server.swapParametersOf fee) currentHeight txo) :
    fee.satPerKw.toNat ≤ txo.txOut.value.toNat := by
  have hvalue : ¬txo.txOut.value < (server.swapParametersOf fee).minUtxoAmountSat := by
    simpa using (Bool.and_eq_true_iff.mp h).2
  have hmax (a b : UInt64) : a.toNat ≤ (max a b).toNat := by
    simp only [Max.max]
    split
    next h => exact UInt64.le_iff_toNat_le.mp h
    next => exact le_refl _
  have hmin := hmax (fee.satPerKw.toUInt64 * 3 / 2) server.minUtxoAmountSat
  have hthird : (fee.satPerKw.toUInt64 * 3 / 2).toNat = fee.satPerKw.toNat * 3 / 2 := by
    have hlt := fee.satPerKw.toNat_lt
    rw [UInt64.toNat_div, UInt64.toNat_mul, UInt32.toNat_toUInt64]
    rw [Nat.mod_eq_of_lt (show fee.satPerKw.toNat * (3 : UInt64).toNat < 2 ^ 64 from by
      change fee.satPerKw.toNat * 3 < 2 ^ 64
      omega)]
    rfl
  have hle := UInt64.le_iff_toNat_le.mp (UInt64.not_lt.mp hvalue)
  change (max _ server.minUtxoAmountSat).toNat ≤ _ at hle
  omega

/-- Three hundred and eighty-six weight units for each input. -/
theorem estimatedWeight_le (claimables : List ClaimableUtxo) {destination : Address}
    (hscript : destination.scriptPubkey.length = 22) :
    estimatedWeight claimables destination ≤ 386 * claimables.length + 198 := by
  have hvarInt (n : ℕ) : varIntSize n ≤ 9 := by
    rw [varIntSize]
    split_ifs <;> decide
  have hlength := hvarInt claimables.length
  rw [estimatedWeight, SwapService.weight_unsignedClaimTx, claimInputWitnessSize, hscript]
  have h22 : varIntSize 22 = 1 := rfl
  rw [h22]
  split_ifs <;> omega

/-- **With estimates of the same order the fee fits**: at ten times the estimate
that the outputs are worth at least, there is not enough money for it not to. -/
theorem feeFits_of_rates {swap : Swap} {txos : List Txo} {fee minFee : FeeEstimate}
    {destination : Address} (hscript : destination.scriptPubkey.length = 22)
    (hvalues : ∀ txo ∈ txos, minFee.satPerKw.toNat ≤ txo.txOut.value.toNat)
    (hmoney : inputValue (rehearsed swap txos) ≤ ChainTables.maxMoneySat)
    (hrates : fee.satPerKw.toNat ≤ 10 * minFee.satPerKw.toNat) :
    FeeFits swap txos fee destination := by
  have hmax : ChainTables.maxMoneySat = 2100000000000000 := by decide
  have hsum : txos.length * minFee.satPerKw.toNat ≤ inputValue (rehearsed swap txos) := by
    rw [SwapService.inputValue_eq, SwapService.map_utxo_rehearsed]
    have hle := List.sum_le_sum hvalues
    rwa [List.map_const', List.sum_replicate_nat] at hle
  have hweight := estimatedWeight_le (rehearsed swap txos) hscript
  rw [rehearsed, List.length_map, ← rehearsed] at hweight
  have hfee := fee.satPerKw.toNat_lt
  have hproduct : txos.length * fee.satPerKw.toNat
      ≤ 10 * (txos.length * minFee.satPerKw.toNat) :=
    (Nat.mul_le_mul_left _ hrates).trans_eq (Nat.mul_left_comm _ _ _)
  calc estimatedWeight (rehearsed swap txos) destination * fee.satPerKw.toNat
      ≤ (386 * txos.length + 198) * fee.satPerKw.toNat := Nat.mul_le_mul_right _ hweight
    _ = 386 * (txos.length * fee.satPerKw.toNat) + 198 * fee.satPerKw.toNat := by
        rw [Nat.add_mul, Nat.mul_assoc]
    _ < 2 ^ 64 := by omega

/-- Every call is answered as given. -/
def Answered (answers : (c : Call Lightning) → Option c.Reply) (c : Call Lightning) (_ : Unit)
    (r : c.Reply) (_ : Unit) : Prop := answers c = some r

/-- **A program gets** to another, with the answers given. -/
def Reaches {α : Type} (answers : (c : Call Lightning) → Option c.Reply)
    (p q : Prog (Services Lightning) α) : Prop :=
  ∃ tr : Events Unit, Runs (Answered answers) p tr q

/-- A program, with the answers given to so many of its calls. -/
def played {α : Type} (answers : (c : Call Lightning) → Option c.Reply) (n : ℕ)
    (p : Prog (Services Lightning) α) : Events Unit × Prog (Services Lightning) α :=
  Prog.play (fun c _ => (answers c).map (fun r => (r, ()))) n () p

theorem runs_played {α : Type} (answers : (c : Call Lightning) → Option c.Reply) (n : ℕ)
    (p : Prog (Services Lightning) α) :
    Runs (Answered answers) p (played answers n p).1 (played answers n p).2 := by
  refine Prog.runs_play (fun c s r s' h => ?_) n () p
  obtain ⟨r', hr', heq⟩ := Option.map_eq_some_iff.mp h
  rw [Answered, hr', (Prod.mk.inj heq).1]

variable {answers : (c : Call Lightning) → Option c.Reply}

namespace Reaches

variable {ε α β : Type}

theorem refl (p : Prog (Services Lightning) α) : Reaches answers p p := ⟨[], .here p⟩

/-- The next call is answered. -/
theorem step {c : Call Lightning} {r : c.Reply} {k : c.Reply → Prog (Services Lightning) α}
    {q : Prog (Services Lightning) α} (hr : answers c = some r) (h : Reaches answers (k r) q) :
    Reaches answers (.call c k) q := by
  obtain ⟨tr, h⟩ := h
  exact ⟨⟨c, (), r, ()⟩ :: tr, .step hr h⟩

/-- The next call is answered, in a program that may fail. -/
theorem ask {c : Call Lightning} {r : c.Reply} {f : c.Reply → Program ε β}
    {q : Prog (Services Lightning) (Except ε β)} (hr : answers c = some r)
    (hf : Reaches answers (f r).run q) : Reaches answers (Prog.ask c >>= f).run q := step hr hf

theorem tryBind {x : Program ε α} {f : α → Program ε β} {a : α}
    {q : Prog (Services Lightning) (Except ε β)} (hx : Reaches answers x.run (.ret (.ok a)))
    (hf : Reaches answers (f a).run q) : Reaches answers (x >>= f).run q := by
  obtain ⟨tr, hx⟩ := hx
  obtain ⟨tr', hf⟩ := hf
  exact ⟨tr ++ tr', hx.tryBind hf⟩

/-- What is not rejected goes on. -/
theorem rejectIf {bad : Prop} [Decidable bad] {e : ε} {f : Unit → Program ε β}
    {q : Prog (Services Lightning) (Except ε β)} (hbad : ¬bad)
    (hf : Reaches answers (f ()).run q) :
    Reaches answers (Prog.rejectIf bad e >>= f).run q :=
  tryBind ⟨[], Prog.rejectIf_runs hbad⟩ hf

end Reaches

/-! ## Requests that pass -/

section Passes

variable {invoice : Bolt11Invoice} {amountMsat : UInt64} {minFee fee : FeeEstimate}
  {swapState : SwapState} {txos : List Txo} {minHeight currentHeight : UInt64}
  {fakeKey : PublicKey} {keys : ℕ → Except PrivateKeyError SecretKey} {tx : Transaction}

theorem acceptInvoice_reaches
    (hinvoice : server.codec.parseInvoice req.paymentRequest = some invoice)
    (hamount : invoice.amountMilliSatoshis = some amountMsat)
    (hround : amountMsat / 1000 * 1000 = amountMsat) :
    Reaches answers (server.acceptInvoice req).run (.ret (.ok (invoice, amountMsat))) := by
  rw [acceptInvoice, hinvoice]
  dsimp only
  rw [hamount]
  exact .rejectIf (not_not.mpr hround) (.refl _)

theorem acceptAmount_reaches {amountSat : UInt64}
    (hminFee : answers (.estimateFee minSwapAmountConfTarget) = some (.ok minFee))
    (hmax : amountSat ≤ (server.swapParametersOf minFee).maxSwapAmountSat)
    (hmin : (server.swapParametersOf minFee).minSwapAmountSat ≤ amountSat) :
    Reaches answers (server.acceptAmount amountSat).run
      (.ret (.ok (server.swapParametersOf minFee))) := by
  refine .step hminFee ?_
  exact .rejectIf (UInt64.not_lt.mpr hmax) (.rejectIf (UInt64.not_lt.mpr hmin) (.refl _))

theorem unpaidSwap_reaches {hash : PaymentHash}
    (hswap : answers (.getSwapByHash hash) = some (.ok swapState))
    (hunpaid : swapState.preimage = none) :
    Reaches answers (unpaidSwap hash).run (.ret (.ok swapState)) := by
  refine .step hswap ?_
  exact .rejectIf (by rw [hunpaid]; exact Bool.false_ne_true) (.refl _)

/-- The chain filter fails if it is not told of any transaction, and all outputs
are kept. -/
theorem filterOrKeep_reaches
    (horders : ∀ n, ∃ order, answers (.completionOrder n) = some order)
    (hfails : ∀ txid, answers (.getTransaction txid) = some (.error .general)) (hne : txos ≠ []) :
    Reaches answers (server.filterOrKeep txos).run (.ret (.ok txos)) := by
  obtain ⟨order, horder⟩ := horders txos.length
  obtain ⟨txo, rest, hpermute⟩ :=
    List.exists_cons_of_ne_nil (fun hnil : Table.permute order txos = [] =>
      hne (List.nil_perm.mp (hnil ▸ Table.permute_perm order txos)))
  refine .step horder ?_
  show Reaches _ ((ChainFilter.collectUnfiltered _ (Table.permute order txos)).run >>= _) _
  rw [hpermute]
  exact .step (hfails txo.outpoint.txid) (.refl _)

theorem rehearseClaim_reaches {swap : Swap} (hfee : answers (.estimateFee 6) = some (.ok fee))
    (hkeys : answers .newPrivateKeys = some keys)
    (hfakeKey : server.swapService.crypto.compressedPublicKeyFromSlice (List.replicate 33 0x02)
      = some fakeKey)
    (hmade : server.swapService.createClaimTx keys (rehearsed swap txos) fee
      currentHeight (server.swapService.crypto.p2wpkh fakeKey) = .ok tx) :
    Reaches answers (server.rehearseClaim swap txos currentHeight).run (.ret (.ok ())) := by
  unfold rehearsed at hmade
  rw [rehearseClaim, hfakeKey]
  refine .step hfee (.ask hkeys ?_)
  dsimp only
  rw [hmade]
  exact .refl _

/-- **The checks of the outputs** of a swap pass. -/
structure OutputsPass (server : SwapServer) (answers : (c : Call Lightning) → Option c.Reply)
    (invoice : Bolt11Invoice) (amountMsat : UInt64) (minFee : FeeEstimate)
    (swapState : SwapState) (txos : List Txo) (minHeight currentHeight : UInt64) : Prop where
  final : invoice.minFinalCltvExpiryDelta.toNat < 2 ^ 32
  told : answers (.getTxosForAddress swapState.swap.pub.address) = some (.ok txos)
  height : minConfirmationHeight txos = some minHeight
  current : answers .getBlockheight = some (.ok currentHeight)
  left : 0 ≤ swapState.blocksLeft minHeight currentHeight
  viable : ∀ blocksLeft : UInt32, blocksLeft
        = (UInt32.ofNat (swapState.blocksLeft minHeight currentHeight).toNat).saturatingSub
          server.minClaimBlocks →
      blocksLeft ≠ 0 ∧ server.minViableCltv
        ≤ blocksLeft.saturatingSub invoice.minFinalCltvExpiryDelta.toUInt32
  payable : ∀ txo ∈ txos,
    server.isPayable (server.swapParametersOf minFee) currentHeight txo
  orders : ∀ n, ∃ order, answers (.completionOrder n) = some order
  fails : ∀ txid, answers (.getTransaction txid) = some (.error .general)
  sum : sumValues txos = amountMsat / 1000

theorem acceptOutputs_reaches (h : OutputsPass server answers invoice amountMsat minFee swapState
      txos minHeight currentHeight) (hfee : answers (.estimateFee 6) = some (.ok fee))
    (hkeys : answers .newPrivateKeys = some keys)
    (hfakeKey : server.swapService.crypto.compressedPublicKeyFromSlice (List.replicate 33 0x02)
      = some fakeKey)
    (hmade : server.swapService.createClaimTx keys
      (rehearsed swapState.swap txos) fee currentHeight
      (server.swapService.crypto.p2wpkh fakeKey) = .ok tx) :
    ∃ a : Accepted, a.txos = txos ∧ a.invoice = invoice ∧ a.swapState = swapState ∧
      Reaches answers (server.acceptOutputs invoice amountMsat (server.swapParametersOf minFee)
        swapState).run (.ret (.ok a)) := by
  obtain ⟨hne, hcltv⟩ := h.viable _ rfl
  have htxos : txos ≠ [] := by
    intro hnil
    have hheight := h.height
    rw [hnil] at hheight
    cases hheight
  refine ⟨⟨invoice, amountMsat, server.swapParametersOf minFee, swapState, currentHeight,
    (UInt32.ofNat (swapState.blocksLeft minHeight currentHeight).toNat).saturatingSub
      server.minClaimBlocks, txos⟩,
    rfl, rfl, rfl, .rejectIf (Nat.not_le.mpr h.final) ?_⟩
  refine .tryBind (.step h.told (.refl _)) ?_
  rw [h.height]
  refine .step h.current ?_
  refine .tryBind (.rejectIf (not_lt.mpr h.left)
    (.rejectIf (not_or.mpr ⟨hne, UInt32.not_lt.mpr hcltv⟩) (.refl _))) ?_
  rw [List.filter_eq_self.mpr h.payable]
  refine .tryBind (filterOrKeep_reaches h.orders h.fails htxos) (.rejectIf (not_not.mpr h.sum) ?_)
  exact .tryBind (rehearseClaim_reaches hfee hkeys hfakeKey hmade) (.refl _)

/-- **A request that passes every check** comes to record an attempt, for the
outputs it passes with. -/
theorem paySwap_reaches
    (hinvoice : server.codec.parseInvoice req.paymentRequest = some invoice)
    (hamount : invoice.amountMilliSatoshis = some amountMsat)
    (hround : amountMsat / 1000 * 1000 = amountMsat)
    (hminFee : answers (.estimateFee minSwapAmountConfTarget) = some (.ok minFee))
    (hmax : amountMsat / 1000 ≤ (server.swapParametersOf minFee).maxSwapAmountSat)
    (hmin : (server.swapParametersOf minFee).minSwapAmountSat ≤ amountMsat / 1000)
    (hswap : answers (.getSwapByHash invoice.paymentHash) = some (.ok swapState))
    (hunpaid : swapState.preimage = none)
    (h : OutputsPass server answers invoice amountMsat minFee swapState txos minHeight
      currentHeight)
    (hfee : answers (.estimateFee 6) = some (.ok fee))
    (hkeys : answers .newPrivateKeys = some keys)
    (hfakeKey : server.swapService.crypto.compressedPublicKeyFromSlice (List.replicate 33 0x02)
      = some fakeKey)
    (hmade : server.swapService.createClaimTx keys
      (rehearsed swapState.swap txos) fee currentHeight
      (server.swapService.crypto.p2wpkh fakeKey) = .ok tx)
    (hnow : answers .now = some (0 : SystemTime)) :
    ∃ q, lockedOutputs q = some (txos.map Txo.outpoint) ∧
      Reaches answers (server.paySwap req).run q := by
  obtain ⟨a, htxos, rfl, rfl, haccepted⟩ := acceptOutputs_reaches h hfee hkeys hfakeKey hmade
  have hpaymentAccepted : Reaches answers (server.acceptPayment req).run (.ret (.ok a)) :=
    .tryBind (acceptInvoice_reaches hinvoice hamount hround)
      (.tryBind (acceptAmount_reaches hminFee hmax hmin)
        (.tryBind (unpaidSwap_reaches hswap hunpaid) haccepted))
  refine ⟨_, ?_, .tryBind hpaymentAccepted (.step hnow (.refl _))⟩
  exact congrArg (fun txos => some (txos.map Txo.outpoint)) htxos

end Passes

/-- The smallest height, where the first output has it. -/
theorem minConfirmationHeight_cons {txo : Txo} {txos : List Txo}
    (h : ∀ t ∈ txos, txo.blockHeight ≤ t.blockHeight) :
    minConfirmationHeight (txo :: txos) = some txo.blockHeight := by
  rw [minConfirmationHeight]
  refine congrArg some ?_
  induction txos with
  | nil => rfl
  | cons t ts ih =>
    have hmin : min txo.blockHeight t.blockHeight = txo.blockHeight :=
      if_pos (h t List.mem_cons_self)
    rw [List.foldl_cons, hmin]
    exact ih (fun t ht => h t (List.mem_cons_of_mem _ ht))

end SwapServer

namespace Sample
open SwapServer (rehearsed)

/-- What a request for the one output is told. -/
def answers : (c : Call Lightning) → Option c.Reply
  | .estimateFee _ => some (.ok ⟨250⟩)
  | .getSwapByHash _ => some (.ok ⟨swap, none⟩)
  | .getTxosForAddress _ => some (.ok (chainDb.getTxosForAddress swap.pub.address))
  | .getBlockheight => some (.ok 110)
  | .completionOrder n => some (List.range n)
  | .getTransaction _ => some (.ok fundingTx)
  | .hasFilteredAddress _ => some (.ok false)
  | .newPrivateKeys => some (fun _ => .ok (.ofByte 5))
  | .now => some 1
  | _ => none

/-- A digest for each number below `65536`. -/
def digest (n : ℕ) : Bytes32 :=
  ⟨[UInt8.ofNat (n / 256), UInt8.ofNat n] ++ List.replicate 30 0, by simp⟩

theorem digest_injOn {m n : ℕ} (hm : m < 65536) (hn : n < 65536) (h : digest m = digest n) :
    m = n := by
  have hbytes := congrArg Bytes32.bytes h
  obtain ⟨hhigh, hlow⟩ : UInt8.ofNat (m / 256) = UInt8.ofNat (n / 256) ∧
      UInt8.ofNat m = UInt8.ofNat n := by simpa [digest] using hbytes
  have hhigh := congrArg UInt8.toNat hhigh
  have hlow := congrArg UInt8.toNat hlow
  rw [UInt8.toNat_ofNat', UInt8.toNat_ofNat'] at hhigh hlow
  omega

/-- An output of a thousand satoshis: there are two thousand and forty-eight in a
transaction, and eight transactions in a block, from block 100 on. -/
def manyTxo (i : ℕ) : Txo :=
  ⟨digest (i / 16384), UInt64.ofNat (100 + i / 16384),
    ⟨digest (i / 2048), UInt32.ofNat (i % 2048)⟩, ⟨1000, [0x51]⟩⟩

/-- So many of them. -/
def manyTxos (n : ℕ) : List Txo := (List.range n).map manyTxo

theorem length_manyTxos (n : ℕ) : (manyTxos n).length = n := by
  rw [manyTxos, List.length_map, List.length_range]

theorem sum_manyTxos (n : ℕ) :
    ((manyTxos n).map (fun t => t.txOut.value.toNat)).sum = n * 1000 := by
  rw [manyTxos, List.map_map]
  show ((List.range n).map (fun _ => 1000)).sum = _
  rw [List.map_const', List.sum_replicate_nat, List.length_range]

theorem nodup_manyTxos : ((manyTxos (2 ^ 24)).map Txo.outpoint).Nodup := by
  rw [manyTxos, List.map_map]
  refine List.nodup_range.map_on ?_
  intro i hi j hj hij
  have hi := List.mem_range.mp hi
  have hj := List.mem_range.mp hj
  have htxid := digest_injOn (by omega) (by omega) (congrArg OutPoint.txid hij)
  have hvout : UInt32.ofNat (i % 2048) = UInt32.ofNat (j % 2048) := congrArg OutPoint.vout hij
  have hvout := congrArg UInt32.toNat hvout
  rw [UInt32.toNat_ofNat_of_lt' (by rw [UInt32.size]; omega),
    UInt32.toNat_ofNat_of_lt' (by rw [UInt32.size]; omega)] at hvout
  omega

theorem toNat_blockHeight_manyTxo {i : ℕ} (hi : i < 2 ^ 24) :
    (manyTxo i).blockHeight.toNat = 100 + i / 16384 :=
  UInt64.toNat_ofNat_of_lt' (by rw [UInt64.size]; omega)

theorem minConfirmationHeight_manyTxos {n : ℕ} (hn : n + 1 ≤ 2 ^ 24) :
    SwapServer.minConfirmationHeight (manyTxos (n + 1)) = some 100 := by
  rw [manyTxos, List.range_succ_eq_map, List.map_cons]
  refine SwapServer.minConfirmationHeight_cons (fun t ht => ?_)
  obtain ⟨i, hi, rfl⟩ := List.mem_map.mp ht
  obtain ⟨j, hj, rfl⟩ := List.mem_map.mp hi
  have hj := List.mem_range.mp hj
  rw [UInt64.le_iff_toNat_le, toNat_blockHeight_manyTxo (by omega),
    toNat_blockHeight_manyTxo (by omega)]
  omega

/-- The swap, with a lock time of two weeks. -/
def manySwap : Swap := { swap with pub := { swap.pub with lockTime := 2016 } }

/-- The invoice for all the outputs. -/
def manyInvoice : Bolt11Invoice := { invoice with amountMilliSatoshis := some 16777216000000 }

/-- A server that allows for as much. -/
def manyServer : SwapServer :=
  { server with
    maxSwapAmountSat := 20000000000
    swapService := ⟨546, 2016, crypto⟩
    codec := { codec with parseInvoice := fun _ => some manyInvoice } }

/-- What a request is told: that the swap has all the outputs, that there are 1200
blocks, and estimates that are far apart. -/
def manyAnswers : (c : Call Lightning) → Option c.Reply
  | .estimateFee target => some (.ok ⟨if target = 6 then 2848475641 else 250⟩)
  | .getSwapByHash _ => some (.ok ⟨manySwap, none⟩)
  | .getTxosForAddress _ => some (.ok (manyTxos (2 ^ 24)))
  | .getBlockheight => some (.ok 1200)
  | .completionOrder n => some (List.range n)
  | .getTransaction _ => some (.error .general)
  | .newPrivateKeys => some (fun _ => .ok (.ofByte 5))
  | .now => some 0
  | _ => none

/-- A claim of all the outputs. -/
def manyClaimables (preimage : Preimage) : List ClaimableUtxo :=
  (manyTxos (2 ^ 24)).map (fun utxo => ⟨manySwap, utxo, none, preimage⟩)

theorem estimatedWeight_manyClaimables (preimage : Preimage) :
    SwapService.estimatedWeight (manyClaimables preimage) (crypto.p2wpkh []) = 6476005556 := by
  have hlength : (manyClaimables preimage).length = 2 ^ 24 := by
    rw [manyClaimables, List.length_map, length_manyTxos]
  have hne : manyClaimables preimage ≠ [] := by
    intro hnil
    rw [hnil] at hlength
    exact absurd hlength (by decide)
  rw [SwapService.estimatedWeight, SwapService.weight_unsignedClaimTx, if_neg hne, hlength,
    SwapService.length_p2wpkh, claimInputWitnessSize]
  decide

theorem inputValue_manyClaimables (preimage : Preimage) :
    SwapService.inputValue (manyClaimables preimage) = 16777216000 := by
  rw [SwapService.inputValue, manyClaimables, List.map_map]
  exact sum_manyTxos (2 ^ 24)

/-- What a claim of all the outputs leaves, at a rate. -/
theorem toNat_valueAfterFees_manyClaimables (preimage : Preimage) (rate : UInt32) :
    (SwapService.valueAfterFees (manyClaimables preimage) ⟨rate⟩ (crypto.p2wpkh [])).toNat
      = 16777216000 - (6476005556 * rate.toNat % 2 ^ 64 + 999) / 1000 := by
  rw [SwapService.toNat_valueAfterFees_eq (by rw [estimatedWeight_manyClaimables]; decide),
    SwapService.wrappedFee, estimatedWeight_manyClaimables, inputValue_manyClaimables]
  rfl

/-- Signing always succeeds with these libraries. -/
theorem exists_foldlM_signInput (prevouts : List TxOut) (cs : List (ClaimableUtxo × ℕ))
    (tx : Transaction) : ∃ tx', cs.foldlM
      (manyServer.swapService.signInput (fun _ => .ok (.ofByte 5)) prevouts) tx = .ok tx' := by
  induction cs generalizing tx with
  | nil => exact ⟨tx, rfl⟩
  | cons c cs ih =>
    rw [List.foldlM_cons]
    exact ih _

theorem exists_createClaimTx_manyTxos : ∃ tx, manyServer.swapService.createClaimTx
    (fun _ => .ok (.ofByte 5)) (rehearsed manySwap (manyTxos (2 ^ 24))) ⟨2848475641⟩ 1200
      (crypto.p2wpkh []) = .ok tx := by
  show ∃ tx, manyServer.swapService.createClaimTx _ (manyClaimables fakePreimage) _ _ _ = .ok tx
  rw [SwapService.createClaimTx_eq, if_neg (by decide),
    if_neg (by rw [estimatedWeight_manyClaimables]; decide), if_neg]
  · exact exists_foldlM_signInput _ _ _
  · rw [UInt64.lt_iff_toNat_lt, toNat_valueAfterFees_manyClaimables]
    decide

/-- The checks pass, of all the outputs. -/
theorem outputsPass_manyTxos : manyServer.OutputsPass manyAnswers manyInvoice 16777216000000
    ⟨250⟩ ⟨manySwap, none⟩ (manyTxos (2 ^ 24)) 100 1200 where
  final := by decide
  told := rfl
  height := minConfirmationHeight_manyTxos (Nat.le_refl _)
  current := rfl
  left := by decide
  viable := by
    rintro blocksLeft rfl
    decide
  payable := by
    intro txo htxo
    obtain ⟨i, hi, rfl⟩ := List.mem_map.mp htxo
    have hheight := toNat_blockHeight_manyTxo (List.mem_range.mp hi)
    have hi := List.mem_range.mp hi
    have hconfirmed : ¬(manyTxo i).confirmations 1200 < manyServer.minConfirmations := by
      rw [UInt64.lt_iff_toNat_lt, Txo.toNat_confirmations (by decide), hheight]
      show ¬1200 + 1 - (100 + i / 16384) < 1
      omega
    rw [SwapServer.isPayable, Bool.and_eq_true, Bool.not_eq_true', Bool.not_eq_true']
    exact ⟨decide_eq_false hconfirmed, rfl⟩
  orders := fun n => ⟨List.range n, rfl⟩
  fails := fun _ => rfl
  sum := by
    rw [← UInt64.toNat_inj, SwapServer.toNat_sumValues (by rw [sum_manyTxos]; decide),
      sum_manyTxos]
    rfl

end Sample

end Swapd
