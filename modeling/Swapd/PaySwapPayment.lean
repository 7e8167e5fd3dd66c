import Mathlib.Algebra.Order.BigOperators.Group.List
import Mathlib.Algebra.Order.Ring.Nat
import Swapd.PaySwapChecks

/-!
# What is paid, and for how long

The two guarantees of a payment that `pay_swap` asks for, each in the terms of
the answers the request was given.

**The timeout.** The limit handed to the Lightning client leaves the swap
`min_claim_blocks` blocks after the payment can be stuck, before the refund
path of any output it is made for opens. This holds for every answer of every
service, since it is arithmetic on what `pay_swap` was told.

**The amount.** What is paid is the sum of distinct confirmed outputs of the
swap's address, and these were recorded, with the lock, by one transaction that
committed before the payment. Until that transaction the request has changed
nothing.
-/

namespace Swapd

namespace SwapServer

open Prog (Event Sat Runs Replied onOutcome)

variable {σ : Type} {perf : (c : Call Lightning) → σ → c.Reply → σ → Prop}
  {server : SwapServer} {req : PaySwapRequest}

/-- **A payment that is asked for**: it was accepted, the attempt was recorded
under its label, and it is the payment that was accepted. -/
structure PaysFor (server : SwapServer) (req : PaySwapRequest) (tr : Events σ)
    (request : PaymentRequest) (a : Accepted) : Prop where
  accepted : AcceptedWith server req tr a
  recorded : ∃ now, Replied tr
    (.lockAddPaymentAttempt (a.attempt req now request.label)) (.ok ())
  request_eq : request = server.paymentRequest a req request.label

/-- The calls that lock a swap for a payment. -/
def IsLockCall (c : Call Lightning) : Prop :=
  c = .now ∨ ∃ attempt, c = .lockAddPaymentAttempt attempt

theorem lockForPayment_sat {onCall : Events σ → Call Lightning → Prop} {tr : Events σ}
    {a : Accepted} {onRet : Events σ → Except Status String → Prop}
    (hcall : ∀ new c, (∀ e ∈ new, IsLockCall e.call) → IsLockCall c → onCall (tr ++ new) c)
    (herr : ∀ new e, (∀ ev ∈ new, IsLockCall ev.call) → onRet (tr ++ new) (.error e))
    (hok : ∀ now ns s₁ s₁' s₂ s₂', SystemTime.sinceEpoch now = some ns →
      onRet (tr ++ [⟨.now, s₁, now, s₁'⟩] ++
          [⟨.lockAddPaymentAttempt
            (a.attempt req now (paymentLabel a.invoice.paymentHash ns)), s₂, .ok (), s₂'⟩])
        (.ok (paymentLabel a.invoice.paymentHash ns))) :
    Sat perf onCall onRet (lockForPayment req a).run tr := by
  have hnow := hcall [] .now (fun e he => nomatch he) (Or.inl rfl)
  rw [List.append_nil] at hnow
  refine Sat.ask hnow (fun s₁ now s₁' _ => ?_)
  split
  next ns hns =>
    refine Sat.ask (hcall [_] _ (by simp [IsLockCall]) (Or.inr ⟨_, rfl⟩))
      (fun s₂ r s₂' _ => ?_)
    have herr' (e : Status) : onRet (tr ++ [⟨.now, s₁, now, s₁'⟩] ++
        [⟨.lockAddPaymentAttempt
          (a.attempt req now (paymentLabel a.invoice.paymentHash ns)), s₂, r, s₂'⟩])
        (.error e) := by
      rw [List.append_assoc]
      exact herr _ e (by simp [IsLockCall])
    match r, herr' with
    | .ok (), _ => exact hok now ns s₁ s₁' s₂ s₂' hns
    | .error .alreadyLocked, herr' => exact herr' _
    | .error .swapNotFound, herr' => exact herr' _
    | .error .general, herr' => exact herr' _
  next => exact herr _ _ (by simp [IsLockCall])

/-- **What `pay_swap` pays for**: a payment is asked for only once it has been
accepted and recorded. -/
theorem paySwap_sat :
    Sat perf (fun tr c => ∀ request, c = (.node (.pay request) : Call Lightning) →
        ∃ a, PaysFor server req tr request a)
      (fun _ _ => True) (server.paySwap req).run [] := by
  refine Sat.tryBind (((acceptPayment_sat.and (acceptPayment_reads _)).mono_call ?_).mono ?_)
  · rintro tr c ⟨-, hc⟩ request rfl
    exact hc.elim False.elim (fun ⟨_, h⟩ => nomatch h)
  rintro tr (e | a) ⟨ha, -⟩
  · trivial
  refine Sat.tryBind (lockForPayment_sat ?_ (fun _ _ _ => trivial)
    (fun now ns s₁ s₁' s₂ s₂' _ => ?_))
  · rintro new c - (rfl | ⟨attempt, rfl⟩) request h <;> cases h
  refine Sat.tryBind (orFail_sat ?_ (fun s r s' _ => ?_))
  · rintro request h
    obtain rfl : server.paymentRequest a req _ = request := by cases h; rfl
    exact ⟨a, ha.mono (fun e he => by simp [he]), ⟨now, s₂, s₂', by simp [paymentRequest]⟩, rfl⟩
  · cases r with
    | error e => trivial
    | ok payResult =>
      refine ⟨fun _ h => (nomatch h), fun _ _ _ _ => ?_⟩
      cases payResult <;> trivial

/-- A run that has come to a payment is one that pays for it. -/
theorem paysFor_of_runs {tr : Events σ} {request : PaymentRequest}
    {k : LightningCall.Reply (.pay request) → Prog (Services Lightning) _}
    (h : Runs perf (server.paySwap req).run tr (.call (.node (.pay request)) k)) :
    ∃ a, PaysFor server req tr request a :=
  (paySwap_sat.runs h).1 request rfl

/-- **What is recorded has been accepted**: what is known of every accepted
payment is known of the one whose attempt is about to be recorded. -/
theorem paySwap_records {K : Events σ → Accepted → Prop}
    (haccepted : Sat perf (fun _ _ => True) (fun tr => onOutcome (fun _ => True) (K tr))
      (server.acceptPayment req).run [])
    {tr : Events σ} {attempt : PaymentAttempt}
    {k : Except LockSwapError Unit → Prog (Services Lightning) (Except Status PaySwapResponse)}
    (h : Runs perf (server.paySwap req).run tr (.call (.lockAddPaymentAttempt attempt) k)) :
    ∃ a now label s s' before, K before a ∧ attempt = a.attempt req now label ∧
      tr = before ++ [⟨.now, s, now, s'⟩] := by
  have hsat : Sat perf (fun tr c => ∀ attempt,
      c = (.lockAddPaymentAttempt attempt : Call Lightning) →
        ∃ a now label s s' before, K before a ∧ attempt = a.attempt req now label ∧
          tr = before ++ [⟨.now, s, now, s'⟩])
      (fun _ _ => True) (server.paySwap req).run [] := by
    refine Sat.tryBind (((haccepted.and (acceptPayment_reads _)).mono_call ?_).mono ?_)
    · rintro tr c ⟨-, hc⟩ attempt rfl
      exact hc.elim False.elim (fun ⟨_, h⟩ => nomatch h)
    rintro before (e | a) ⟨ha, -⟩
    · trivial
    refine Sat.tryBind (Sat.ask (fun _ h => nomatch h) (fun s now s' _ => ?_))
    split
    next ns hns =>
      refine Sat.ask ?_ (fun _ r _ _ => ?_)
      · intro attempt hattempt
        obtain rfl := Call.lockAddPaymentAttempt.inj hattempt
        exact ⟨a, now, _, s, s', before, ha, rfl, rfl⟩
      · match r with
        | .ok () =>
          refine Sat.tryBind (orFail_sat (fun _ h => nomatch h) (fun _ r _ _ => ?_))
          cases r with
          | error e => trivial
          | ok payResult =>
            refine ⟨(fun _ h => nomatch h), fun _ _ _ _ => ?_⟩
            cases payResult <;> trivial
        | .error .alreadyLocked => trivial
        | .error .swapNotFound => trivial
        | .error .general => trivial
    next => trivial
  exact (hsat.runs h).1 attempt rfl

/-- The outputs of the attempt that a program is about to record. -/
def lockedOutputs {α : Type} : Prog (Services Lightning) α → Option (List OutPoint)
  | .call (.lockAddPaymentAttempt attempt) _ => some attempt.outputs
  | _ => none

theorem eq_call_of_lockedOutputs {outputs : List OutPoint}
    {q : Prog (Services Lightning) (Except Status PaySwapResponse)}
    (h : lockedOutputs q = some outputs) : ∃ (attempt : PaymentAttempt)
      (k : Except LockSwapError Unit → Prog (Services Lightning) (Except Status PaySwapResponse)),
      q = .call (.lockAddPaymentAttempt attempt) k ∧ attempt.outputs = outputs := by
  unfold lockedOutputs at h
  split at h
  next attempt k => exact ⟨attempt, k, rfl, Option.some.inj h⟩
  next => cases h

/-! ## The timeout -/

/-- Any reply at all. -/
def AnyReply (c : Call Lightning) (_ : Unit) (_ : c.Reply) (_ : Unit) : Prop := True

/-- **The Lightning timeout leaves the claim margin on every paid output.**
Whenever `pay_swap` asks for a payment, with whatever answers it has been
given, its limit is positive, leaves the invoice its final delta on top of the
smallest viable one, and ends `min_claim_blocks` before the refund path of any
recorded output opens. -/
theorem paySwap_cltvLimit {tr : Events Unit} {request : PaymentRequest}
    {k : LightningCall.Reply (.pay request) → Prog (Services Lightning) _}
    (h : Runs AnyReply (server.paySwap req).run tr (.call (.node (.pay request)) k)) :
    ∃ invoice swapState txos currentHeight attempt,
      server.codec.parseInvoice req.paymentRequest = some invoice ∧
      Replied tr (.getSwapByHash invoice.paymentHash) (.ok swapState) ∧
      Replied tr (.getTxosForAddress swapState.swap.pub.address) (.ok txos) ∧
      Replied tr .getBlockheight (.ok currentHeight) ∧
      Replied tr (.lockAddPaymentAttempt attempt) (.ok ()) ∧
      attempt.label = request.label ∧
      1 ≤ request.cltvLimit.toNat ∧
      (0 < server.minViableCltv.toNat →
        server.minViableCltv.toNat + invoice.minFinalCltvExpiryDelta.toNat
          ≤ request.cltvLimit.toNat) ∧
      (∀ o ∈ attempt.outputs, ∃ txo ∈ txos, txo.outpoint = o) ∧
      ∀ txo ∈ txos,
        currentHeight.toNat + request.cltvLimit.toNat + server.minClaimBlocks.toNat
          ≤ txo.blockHeight.toNat + swapState.swap.pub.lockTime.toNat := by
  obtain ⟨a, ⟨haccepted, ⟨now, hrecorded⟩, hrequest⟩⟩ := paysFor_of_runs h
  obtain ⟨txos, minHeight, htxos, hmin, hleft, hblocks, hkept⟩ := haccepted.txos
  have hlimit : request.cltvLimit = a.blocksLeft := by rw [hrequest]; rfl
  have hne : a.blocksLeft.toNat ≠ 0 := fun h0 =>
    haccepted.blocksLeft_ne (UInt32.toNat_inj.mp h0)
  -- the blocks left fit their type, so nothing is lost in the cast
  have hpos : 0 < a.swapState.blocksLeft minHeight a.currentHeight := by
    by_contra hnot
    have hzero : a.swapState.blocksLeft minHeight a.currentHeight = 0 := by omega
    rw [hblocks, UInt32.toNat_saturatingSub, hzero] at hne
    simp at hne
  obtain ⟨hle, hlt⟩ := SwapState.blocksLeft_le hpos
  have hcast : (UInt32.ofNat
      (a.swapState.blocksLeft minHeight a.currentHeight).toNat).toNat
        = (a.swapState.blocksLeft minHeight a.currentHeight).toNat :=
    UInt32.toNat_ofNat_of_lt' (by rw [UInt32.size]; omega)
  have hnat : a.blocksLeft.toNat
      = (a.swapState.blocksLeft minHeight a.currentHeight).toNat
          - server.minClaimBlocks.toNat := by
    rw [hblocks, UInt32.toNat_saturatingSub, hcast]
  have hfinal : a.invoice.minFinalCltvExpiryDelta.toUInt32.toNat
      = a.invoice.minFinalCltvExpiryDelta.toNat := by
    rw [UInt64.toNat_toUInt32]
    exact Nat.mod_eq_of_lt haccepted.minFinal
  have hviable := UInt32.le_iff_toNat_le.mp haccepted.viable
  rw [UInt32.toNat_saturatingSub, hfinal] at hviable
  refine ⟨a.invoice, a.swapState, txos, a.currentHeight, _, haccepted.invoice,
    haccepted.swap, htxos, haccepted.height, hrecorded, rfl, ?_, ?_, ?_, ?_⟩
  · rw [hlimit]; omega
  · intro hviablePos
    rw [hlimit]; omega
  · intro o ho
    obtain ⟨txo, htxo, rfl⟩ := List.mem_map.mp ho
    exact ⟨txo, List.mem_of_mem_filter (hkept.subset htxo), rfl⟩
  · intro txo htxo
    have hheight := UInt64.le_iff_toNat_le.mp (minConfirmationHeight_le hmin txo htxo)
    rw [hlimit]
    omega

/-- Whether a program is about to ask for a payment. -/
def asksToPay {α : Type} : Prog (Services Lightning) α → Bool
  | .call (.node (.pay _)) _ => true
  | _ => false

theorem eq_call_of_asksToPay {α : Type} {q : Prog (Services Lightning) α}
    (h : asksToPay q = true) : ∃ request k, q = .call (.node (.pay request)) k := by
  unfold asksToPay at h
  split at h
  next request k => exact ⟨request, k, rfl⟩
  next => cases h

/-- A run of a request that comes to its payment, with an answer for each call. -/
def samplePayment : Events Unit × Prog (Services Lightning) (Except Status PaySwapResponse) :=
  Prog.play (fun c _ => match c with
    | .estimateFee _ => some (.ok ⟨250⟩, ())
    | .getSwapByHash _ => some (.ok ⟨Sample.swap, none⟩, ())
    | .getTxosForAddress _ =>
      some (.ok (Sample.chainDb.getTxosForAddress Sample.swap.pub.address), ())
    | .getBlockheight => some (.ok 110, ())
    | .completionOrder n => some (List.range n, ())
    | .getTransaction _ => some (.ok Sample.fundingTx, ())
    | .hasFilteredAddress _ => some (.ok false, ())
    | .newPrivateKeys => some (fun _ => .ok (.ofByte 5), ())
    | .now => some (1, ())
    | .lockAddPaymentAttempt _ => some (.ok (), ())
    | _ => none) 20 () (Sample.server.paySwap Sample.payRequest).run

set_option maxRecDepth 4000 in
/-- The bound holds of a payment that is made. -/
theorem paySwap_cltvLimit_sample :
    ∃ request : PaymentRequest, ∃ swapState txos currentHeight,
      Replied samplePayment.1 (.getSwapByHash Sample.invoice.paymentHash) (.ok swapState) ∧
      Replied samplePayment.1 .getBlockheight (.ok currentHeight) ∧
      Replied samplePayment.1 (.getTxosForAddress swapState.swap.pub.address) (.ok txos) ∧
      1 ≤ request.cltvLimit.toNat ∧
      ∀ txo ∈ txos, currentHeight.toNat + request.cltvLimit.toNat
          + Sample.server.minClaimBlocks.toNat
        ≤ txo.blockHeight.toNat + swapState.swap.pub.lockTime.toNat := by
  obtain ⟨request, k, hq⟩ := eq_call_of_asksToPay
    (q := samplePayment.2) (by decide)
  have hrun : Runs AnyReply (Sample.server.paySwap Sample.payRequest).run samplePayment.1
      samplePayment.2 := Prog.runs_play (fun _ _ _ _ _ => trivial) _ _ _
  rw [hq] at hrun
  obtain ⟨invoice, swapState, txos, currentHeight, attempt, hinvoice, hswap, htxos,
    hheight, -, -, hone, -, -, hle⟩ := paySwap_cltvLimit hrun
  obtain rfl : Sample.invoice = invoice := Option.some.inj hinvoice
  exact ⟨request, swapState, txos, currentHeight, hswap, hheight, htxos, hone, hle⟩

/-! ## The amount -/

/-- The sum of values, when it does not wrap. -/
theorem toNat_sumValues {txos : List Txo}
    (h : (txos.map (fun t => t.txOut.value.toNat)).sum < 2 ^ 64) :
    (sumValues txos).toNat = (txos.map (fun t => t.txOut.value.toNat)).sum := by
  have key : ∀ (ts : List Txo) (init : UInt64),
      init.toNat + (ts.map (fun t => t.txOut.value.toNat)).sum < 2 ^ 64 →
      (ts.foldl (fun sum utxo => sum + utxo.txOut.value) init).toNat
        = init.toNat + (ts.map (fun t => t.txOut.value.toNat)).sum := by
    intro ts
    induction ts with
    | nil => intro init _; rfl
    | cons t ts ih =>
      intro init hlt
      rw [List.map_cons, List.sum_cons] at hlt ⊢
      have hadd : (init + t.txOut.value).toNat = init.toNat + t.txOut.value.toNat := by
        rw [UInt64.toNat_add]
        exact Nat.mod_eq_of_lt (by omega)
      rw [List.foldl_cons, ih _ (by rw [hadd]; omega), hadd]
      omega
  have := key txos 0 (by rw [UInt64.toNat_zero]; omega)
  rwa [UInt64.toNat_zero, Nat.zero_add] at this

/-- Part of a list without repetitions has none. -/
theorem nodup_map_of_subperm {α β : Type} {f : α → β} {l l' : List α}
    (h : l.Subperm l') (hl' : (l'.map f).Nodup) : (l.map f).Nodup := by
  obtain ⟨l₀, hperm, hsub⟩ := h
  exact (hperm.map f).nodup_iff.mp (hl'.sublist (hsub.map f))

/-- Part of a list sums to no more than all of it. -/
theorem sum_map_le_of_subperm {α : Type} {f : α → ℕ} {l l' : List α}
    (h : l.Subperm l') : (l.map f).sum ≤ (l'.map f).sum := by
  obtain ⟨l₀, hperm, hsub⟩ := h
  rw [← (hperm.map f).sum_eq]
  exact (hsub.map f).sum_le_sum (fun _ _ => Nat.zero_le _)

variable {N : NodeModel Lightning}

/-- An event that commits an attempt, whether or not this is known. -/
def CommitsAttempt (attempt : PaymentAttempt)
    (e : Event (Services Lightning) (World N)) : Prop :=
  e.call = .lockAddPaymentAttempt attempt ∧
    e.before.db.lockAddPaymentAttempt attempt = .ok e.after.db

/-- **A payment for what was received.** The attempt is the one of the invoice,
its outputs are distinct, and each is an output of an indexed block, at the
address of the swap, with enough confirmations and a large enough value; their
sum is the amount, and the amount is within the bounds. -/
structure PaysReceived (server : SwapServer) (req : PaySwapRequest)
    (tr : Events (World N)) (attempt : PaymentAttempt) : Prop where
  invoice : ∃ invoice, server.codec.parseInvoice req.paymentRequest = some invoice ∧
    invoice.amountMilliSatoshis = some attempt.amountMsat ∧
    invoice.paymentHash = attempt.paymentHash ∧
    attempt.paymentRequest = req.paymentRequest
  distinct : attempt.outputs.Nodup
  received : ∃ swapState txos currentHeight fee, ∃ w w' : World N,
    Replied tr (.getSwapByHash attempt.paymentHash) (.ok swapState) ∧
    Replied tr .getBlockheight (.ok currentHeight) ∧
    Replied tr (.estimateFee minSwapAmountConfTarget) (.ok fee) ∧
    (⟨.getTxosForAddress swapState.swap.pub.address, w, .ok txos, w'⟩ :
      Event (Services Lightning) (World N)) ∈ tr ∧
    ∃ paid : List Txo, attempt.outputs = paid.map Txo.outpoint ∧
      (∀ txo ∈ paid, ∃ o ∈ w.env.chainDb.txOutputs,
        ∃ b ∈ w.env.chainDb.blocksOf txo.outpoint.txid,
          o.outpoint = txo.outpoint ∧ o.address = swapState.swap.pub.address ∧
          o.amount = txo.txOut.value ∧
          server.minConfirmations.toNat ≤ currentHeight.toNat + 1 - b.height.toNat ∧
          (server.swapParametersOf fee).minUtxoAmountSat ≤ txo.txOut.value) ∧
      (paid.map (fun txo => txo.txOut.value.toNat)).sum * 1000 = attempt.amountMsat.toNat ∧
      (server.swapParametersOf fee).minSwapAmountSat.toNat ≤ attempt.amountMsat.toNat / 1000 ∧
      attempt.amountMsat.toNat / 1000 ≤ (server.swapParametersOf fee).maxSwapAmountSat.toNat

variable {i : ℕ} {t : Task}

/-- An answer was given in some world. -/
theorem performs_of_replied {tr : Events (World N)} {c : Call Lightning} {r : c.Reply}
    (hperf : ∀ e ∈ tr, World.Performs N i t e.call e.before e.reply e.after)
    (h : Replied tr c r) :
    ∃ w w', (⟨c, w, r, w'⟩ : Event (Services Lightning) (World N)) ∈ tr ∧
      World.Performs N i t c w r w' := by
  obtain ⟨w, w', he⟩ := h
  exact ⟨w, w', he, hperf _ he⟩

/-- An accepted payment is for what was received. -/
theorem PaysFor.paysReceived {tr : Events (World N)} {request : PaymentRequest}
    {a : Accepted} (h : PaysFor server req tr request a)
    (hperf : ∀ e ∈ tr, World.Performs N i t e.call e.before e.reply e.after)
    (hchain : ∀ e ∈ tr, e.before.env.chainDb.OfOneChain) (now : SystemTime) :
    PaysReceived server req tr (a.attempt req now request.label) := by
  obtain ⟨w₀, w₀', -, hswap⟩ := performs_of_replied hperf h.accepted.swap
  have hhash := (SwapTables.getSwapByHash_eq_ok (hswap.getSwapByHash.2 _ rfl)).2
  obtain ⟨fee, hfee, hparams⟩ := h.accepted.parameters
  obtain ⟨txos, minHeight, htxos, -, -, -, hkept⟩ := h.accepted.txos
  obtain ⟨w, w', he, htxosPerf⟩ := performs_of_replied hperf htxos
  have hone := hchain _ he
  have heq := htxosPerf.getTxosForAddress
  have hpaid : a.txos.Subperm txos := hkept.trans List.filter_sublist.subperm
  -- distinct outpoints are worth no more than there is, so the sum is exact
  have hle : (a.txos.map (fun t => t.txOut.value.toNat)).sum ≤ ChainTables.maxMoneySat :=
    (sum_map_le_of_subperm hpaid).trans (heq ▸ hone.sum_getTxosForAddress_le _)
  have hsum := congrArg UInt64.toNat h.accepted.sum
  rw [toNat_sumValues (lt_of_le_of_lt hle (by decide)), UInt64.toNat_div] at hsum
  have hround := congrArg UInt64.toNat h.accepted.round
  rw [UInt64.toNat_mul, UInt64.toNat_div] at hround
  have hthousand : (1000 : UInt64).toNat = 1000 := rfl
  have hlt := a.amountMsat.toNat_lt
  rw [hthousand] at hsum hround
  have hmax := UInt64.le_iff_toNat_le.mp h.accepted.le_max
  have hmin := UInt64.le_iff_toNat_le.mp h.accepted.min_le
  rw [UInt64.toNat_div, hthousand, hparams] at hmax hmin
  refine ⟨⟨a.invoice, h.accepted.invoice, h.accepted.amount, hhash.symm, rfl⟩, ?_, ?_⟩
  · exact nodup_map_of_subperm hpaid (heq ▸ hone.nodup_getTxosForAddress _)
  · refine ⟨a.swapState, txos, a.currentHeight, fee, w, w', ?_, h.accepted.height,
      hfee, he, a.txos, rfl, ?_, ?_, hmin, hmax⟩
    · have := h.accepted.swap
      rwa [← hhash] at this
    · intro txo htxo
      obtain ⟨hmem, hpayable⟩ := List.mem_filter.mp (hkept.subset htxo)
      rw [heq, ChainTables.mem_getTxosForAddress] at hmem
      obtain ⟨o, ho, haddress, b, hb, rfl⟩ := hmem
      simp only [isPayable, Bool.and_eq_true, Bool.not_eq_true', decide_eq_false_iff_not,
        UInt64.not_lt] at hpayable
      refine ⟨o, ho, b, hb, rfl, haddress, rfl, ?_, ?_⟩
      · exact (UInt64.le_iff_toNat_le.mp hpayable.1).trans (Txo.toNat_confirmations_le _ _)
      · rw [← hparams]
        exact hpayable.2
    · change (a.txos.map (fun t => t.txOut.value.toNat)).sum * 1000 = a.amountMsat.toNat
      rw [hsum]
      omega

/-- What holds of the events of a request at any point: it has only read, or
tried to lock, unless an attempt was reported as recorded. -/
def Recorded (tr : Events σ) : Prop :=
  (∃ attempt, Replied tr (.lockAddPaymentAttempt attempt) (.ok ())) ∨
    ∀ e ∈ tr, e.call.IsRead ∨ ∃ attempt, e.call = .lockAddPaymentAttempt attempt

theorem Recorded.append {tr : Events σ} {attempt : PaymentAttempt} (new : Events σ)
    (h : Replied tr (.lockAddPaymentAttempt attempt) (.ok ())) : Recorded (tr ++ new) := by
  obtain ⟨s, s', he⟩ := h
  exact Or.inl ⟨attempt, s, s', List.mem_append_left _ he⟩

/-- A request writes nothing before it has recorded its attempt. -/
theorem paySwap_recorded {tr : Events σ} {q : Prog (Services Lightning) _}
    (h : Runs perf (server.paySwap req).run tr q) : Recorded tr := by
  have key : Sat perf (fun tr _ => Recorded tr) (fun tr _ => Recorded tr)
      (server.paySwap req).run [] := by
    have hreads (new : Events σ) (hnew : ∀ e ∈ new, e.call.IsRead) : Recorded new :=
      Or.inr (fun e he => Or.inl (hnew e he))
    refine Sat.tryBind (Sat.of_onlyCalls acceptPayment_onlyCalls
      (Prog.Returns.of_forall (P := fun _ => True) (fun _ => trivial))
      (fun new _ hnew _ => hreads new hnew) (fun new o hnew _ => ?_))
    rw [List.nil_append]
    have hlocks (new' : Events σ) (hnew' : ∀ e ∈ new', IsLockCall e.call) :
        Recorded (new ++ new') := by
      refine Or.inr (fun e he => ?_)
      rcases List.mem_append.mp he with he | he
      · exact Or.inl (hnew e he)
      · rcases hnew' e he with hnow | hlock
        · rw [hnow]; exact Or.inl (Or.inl trivial)
        · exact Or.inr hlock
    cases o with
    | error e => exact hreads new hnew
    | ok a =>
      refine Sat.tryBind (lockForPayment_sat (fun new' _ hnew' _ => hlocks new' hnew')
        (fun new' _ hnew' => hlocks new' hnew') (fun now ns s₁ s₁' s₂ s₂' _ => ?_))
      have hreplied : Replied (I := Services Lightning) (new ++ [⟨.now, s₁, now, s₁'⟩] ++
          [⟨.lockAddPaymentAttempt
            (a.attempt req now (paymentLabel a.invoice.paymentHash ns)), s₂, .ok (), s₂'⟩])
          (.lockAddPaymentAttempt
            (a.attempt req now (paymentLabel a.invoice.paymentHash ns))) (.ok ()) :=
        ⟨s₂, s₂', by simp⟩
      have hnil := Recorded.append [] hreplied
      rw [List.append_nil] at hnil
      refine Sat.tryBind (orFail_sat hnil (fun s r s' _ => ?_))
      cases r with
      | error e => exact Recorded.append _ hreplied
      | ok payResult =>
        refine ⟨?_, fun s r s' _ => ?_⟩
        · exact Recorded.append _ hreplied
        · rw [List.append_assoc]
          cases payResult <;> exact Recorded.append _ hreplied
  have := key.runs h
  rw [List.nil_append] at this
  cases q with
  | ret o => exact this
  | call c k => exact this.1

/-- **Exactly what is received is paid out.** When `pay_swap` asks for a
payment, one transaction has already committed the lock and an attempt with the
label of the payment, and the attempt is for what was received. Before that
transaction the request has changed nothing in the swap tables. -/
theorem paySwap_paysReceived {tr : Events (World N)}
    {q : Prog (Services Lightning) (Except Status PaySwapResponse)}
    (h : Runs (World.Performs N i t) (server.paySwap req).run tr q) :
    ((∀ e ∈ tr, e.before.env.chainDb.OfOneChain) →
      ∀ request k, q = .call (.node (.pay request)) k →
        ∃ attempt, PaysReceived server req tr attempt ∧
          attempt.label = request.label ∧ attempt.paymentHash = request.paymentHash ∧
          request.bolt11 = req.paymentRequest ∧
          ∃ e ∈ tr, CommitsAttempt attempt e ∧
            e.after.db.PaymentLocked attempt.paymentHash request.label ∧
            ∃ row ∈ e.after.db.paymentAttempts, row.label = request.label ∧
              row.swapPaymentHash = attempt.paymentHash ∧
              row.amountMsat = attempt.amountMsat ∧
              ∀ o ∈ attempt.outputs,
                ⟨row.id, o⟩ ∈ e.after.db.paymentAttemptTxOutputs) ∧
    ((∀ e ∈ tr, ∀ attempt, ¬ CommitsAttempt attempt e) →
      ∀ e ∈ tr, e.after.db = e.before.db) := by
  have hperf := h.perf_of_mem
  constructor
  · rintro hchain request k rfl
    obtain ⟨a, ha⟩ := paysFor_of_runs h
    obtain ⟨now, hrecorded⟩ := ha.recorded
    obtain ⟨w, w', he, hlock⟩ := performs_of_replied hperf hrecorded
    have hpays := ha.paysReceived hperf hchain now
    obtain ⟨invoice, hinvoice, -, hhash, -⟩ := hpays.invoice
    obtain rfl : a.invoice = invoice :=
      Option.some.inj (ha.accepted.invoice.symm.trans hinvoice)
    have hcommit := hlock.lockAddPaymentAttempt_ok
    obtain ⟨-, -, ns, -, hdb⟩ := SwapTables.lockAddPaymentAttempt_eq_ok_iff.mp hcommit
    refine ⟨_, hpays, rfl, ?_, ?_, _, he, ⟨rfl, hcommit⟩, ?_, ?_⟩
    · rw [← hhash, ha.request_eq]; rfl
    · rw [ha.request_eq]; rfl
    · rw [hdb]
      simp [Accepted.attempt]
    · rw [hdb]
      refine ⟨_, List.mem_append_right _ List.mem_cons_self, rfl, rfl, rfl, fun o ho => ?_⟩
      exact List.mem_append_right _ (List.mem_map_of_mem ho)
  · intro hno e he
    rcases paySwap_recorded h with ⟨attempt, hreplied⟩ | hreads
    · obtain ⟨w, w', hmem, hlock⟩ := performs_of_replied hperf hreplied
      exact absurd ⟨rfl, hlock.lockAddPaymentAttempt_ok⟩ (hno _ hmem attempt)
    · rcases hreads e he with hread | ⟨attempt, hcall⟩
      · exact (hperf e he).db_of_isRead hread
      · obtain ⟨c, w, r, w'⟩ := e
        obtain rfl : c = .lockAddPaymentAttempt attempt := hcall
        rcases (hperf _ he).lockAddPaymentAttempt with hcommit | ⟨hsame, -⟩
        · exact absurd ⟨rfl, hcommit⟩ (hno _ he attempt)
        · exact hsame

/-- A node that answers nothing. -/
def silentNode : NodeModel Lightning where
  State := Unit
  Choice := Unit
  Act := Unit
  serve := fun _ _ _ _ _ => none
  act := fun _ _ => none
  disconnect := fun _ _ => ()

/-- A run of a request that comes to its payment, in a small deployment. -/
def sampleWorldPayment :
    Events (World silentNode) × Prog (Services Lightning) (Except Status PaySwapResponse) :=
  Prog.play (fun c w => World.serve 0 ⟨0, .pay Sample.payRequest⟩ c .ok w) 20
    (Sample.world silentNode ()) (Sample.server.paySwap Sample.payRequest).run

theorem sample_ofOneChain : Sample.chainDb.OfOneChain where
  nodup_blocks := by decide
  nodup_txOutputs := by decide
  nodup_txBlocks := by decide
  unique_tx := by
    intro txid b b' hb hb'
    have h₁ := List.mem_singleton.mp (ChainTables.mem_blocksOf.mp hb).1
    have h₂ := List.mem_singleton.mp (ChainTables.mem_blocksOf.mp hb').1
    rw [h₁, h₂]
  total_le := by decide

set_option maxRecDepth 4000 in
/-- The guarantee is that of a payment that is made. -/
theorem paySwap_paysReceived_sample :
    ∃ attempt, PaysReceived Sample.server Sample.payRequest sampleWorldPayment.1 attempt ∧
      ∃ e ∈ sampleWorldPayment.1, CommitsAttempt attempt e := by
  obtain ⟨request, k, hq⟩ := eq_call_of_asksToPay (q := sampleWorldPayment.2) (by decide)
  have hrun : Runs (World.Performs silentNode 0 ⟨0, .pay Sample.payRequest⟩)
      (Sample.server.paySwap Sample.payRequest).run sampleWorldPayment.1
      sampleWorldPayment.2 :=
    Prog.runs_play (fun _ _ _ _ h => ⟨.ok, h⟩) _ _ _
  have henv : ∀ e ∈ sampleWorldPayment.1, e.before.env.chainDb = Sample.chainDb := by decide
  obtain ⟨attempt, hpays, -, -, -, e, he, hcommits, -⟩ :=
    (paySwap_paysReceived hrun).1 (fun e he => henv e he ▸ sample_ofOneChain) request k hq
  exact ⟨attempt, hpays, e, he, hcommits⟩

end SwapServer

end Swapd
