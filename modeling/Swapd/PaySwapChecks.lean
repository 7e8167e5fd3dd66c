import Mathlib.Data.List.Perm.Subperm
import Swapd.System

/-!
# What is checked before a payment

`pay_swap` asks its questions one after the other, of services that change in
between, and pays if all answers are right. `AcceptedWith` says what is then
known, in terms of the answers that were given: it holds of every run, whatever
happens between two calls, since each fact is about one answer.

From it follow the two guarantees of a payment that is made. Its timeout leaves
the swap enough blocks to be claimed, for each output it is made for. And its
amount is the sum of distinct, confirmed outputs of the swap's address, which
are the ones recorded with it.
-/

namespace Swapd

namespace SwapServer

open Prog (Event Sat Runs Replied onOutcome rejectIf_onlyCalls)

variable {σ : Type} {perf : (c : Call Lightning) → σ → c.Reply → σ → Prop}
  {server : SwapServer} {req : PaySwapRequest}

/-- The events of a handler. -/
abbrev Events (σ : Type) : Type := List (Event (Services Lightning) σ)

/-! ## The parts of `pay_swap`, one by one

Each lemma says what has to be shown of a part for what comes after it to be
right: its errors are let through, its result is as checked, and the events it
adds are known. -/

section Parts

variable {onCall : Events σ → Call Lightning → Prop} {tr : Events σ}

theorem rejectIf_sat {ε : Type} {onRet : Events σ → Except ε Unit → Prop} {bad : Prop}
    [Decidable bad] {e : ε} (herr : onRet tr (.error e))
    (hok : ¬ bad → onRet tr (.ok ())) :
    Sat perf onCall onRet (Prog.rejectIf bad e).run tr := by
  unfold Prog.rejectIf
  split
  next => exact herr
  next h => exact hok h

/-- A call whose error ends the request. -/
theorem orFail_sat {ε α : Type} {onRet : Events σ → Except Status α → Prop}
    {toError : ε → Status} {c : Call Lightning}
    {k : c.Reply → Prog (Services Lightning) (Except ε α)} (hcall : onCall tr c)
    (h : ∀ s r s', perf c s r s' →
      Sat perf onCall (fun tr' o => onRet tr' (o.mapError toError)) (k r)
        (tr ++ [⟨c, s, r, s'⟩])) :
    Sat perf onCall onRet (orFail toError (Prog.call c k)).run tr :=
  ⟨hcall, fun s r s' hp => Sat.bind (h s r s' hp)⟩

theorem acceptInvoice_sat
    {onRet : Events σ → Except Status (Bolt11Invoice × UInt64) → Prop}
    (herr : ∀ e, onRet tr (.error e))
    (hok : ∀ invoice amountMsat, server.codec.parseInvoice req.paymentRequest = some invoice →
      invoice.amountMilliSatoshis = some amountMsat →
      amountMsat / 1000 * 1000 = amountMsat → onRet tr (.ok (invoice, amountMsat))) :
    Sat perf onCall onRet (server.acceptInvoice req).run tr := by
  unfold acceptInvoice
  split
  next invoice hparse =>
    split
    next amountMsat hamount =>
      refine Sat.tryBind (rejectIf_sat (herr _) (fun hround => ?_))
      exact hok invoice amountMsat hparse hamount (not_not.mp hround)
    next => exact herr _
  next => exact herr _

theorem acceptAmount_sat {amountSat : UInt64}
    {onRet : Events σ → Except Status SwapParameters → Prop}
    (hcall : onCall tr (.estimateFee minSwapAmountConfTarget))
    (herr : ∀ tr' e, onRet tr' (.error e))
    (hok : ∀ s fee s',
      amountSat ≤ (server.swapParametersOf fee).maxSwapAmountSat →
      (server.swapParametersOf fee).minSwapAmountSat ≤ amountSat →
      onRet (tr ++ [⟨.estimateFee minSwapAmountConfTarget, s, .ok fee, s'⟩])
        (.ok (server.swapParametersOf fee))) :
    Sat perf onCall onRet (server.acceptAmount amountSat).run tr := by
  refine Sat.tryBind (Sat.tryBind (orFail_sat hcall (fun s r s' _ => ?_)))
  cases r with
  | error e => exact herr _ _
  | ok fee =>
    refine Sat.tryBind (rejectIf_sat (herr _ _) (fun hmax => ?_))
    refine Sat.tryBind (rejectIf_sat (herr _ _) (fun hmin => ?_))
    exact hok s fee s' (UInt64.not_lt.mp hmax) (UInt64.not_lt.mp hmin)

theorem unpaidSwap_sat {hash : PaymentHash}
    {onRet : Events σ → Except Status SwapState → Prop}
    (hcall : onCall tr (.getSwapByHash hash))
    (herr : ∀ tr' e, onRet tr' (.error e))
    (hok : ∀ s swapState s', perf (.getSwapByHash hash) s (.ok swapState) s' →
      swapState.preimage = none →
      onRet (tr ++ [⟨.getSwapByHash hash, s, .ok swapState, s'⟩]) (.ok swapState)) :
    Sat perf onCall onRet (unpaidSwap hash).run tr := by
  refine Sat.tryBind (orFail_sat hcall (fun s r s' hp => ?_))
  cases r with
  | error e => exact herr _ _
  | ok swapState =>
    refine Sat.tryBind (rejectIf_sat (herr _ _) (fun hpre => ?_))
    exact hok s swapState s' hp (by simpa using hpre)

theorem payoutBlocksLeft_sat {swapState : SwapState} {minHeight currentHeight : UInt64}
    {minFinal : UInt32} {onRet : Events σ → Except Status UInt32 → Prop}
    (herr : ∀ e, onRet tr (.error e))
    (hok : ∀ blocksLeft : UInt32, 0 ≤ swapState.blocksLeft minHeight currentHeight →
      blocksLeft = (UInt32.ofNat (swapState.blocksLeft minHeight currentHeight).toNat).saturatingSub
        server.minClaimBlocks →
      blocksLeft ≠ 0 → server.minViableCltv ≤ blocksLeft.saturatingSub minFinal →
      onRet tr (.ok blocksLeft)) :
    Sat perf onCall onRet
      (server.payoutBlocksLeft swapState minHeight currentHeight minFinal).run tr := by
  refine Sat.tryBind (rejectIf_sat (herr _) (fun hleft => ?_))
  refine Sat.tryBind (rejectIf_sat (herr _) (fun hviable => ?_))
  rw [not_or] at hviable
  exact hok _ (not_lt.mp hleft) rfl hviable.1 (UInt32.not_lt.mp hviable.2)

/-- The chain filter keeps part of what it is given, and only reads. -/
theorem filterOrKeep_sat {txos : List Txo}
    {onRet : Events σ → Except Status (List Txo) → Prop}
    (hcall : ∀ tr' c, ChainFilter.IsFilterCall c → onCall tr' c)
    (hok : ∀ new result, (∀ e ∈ new, ChainFilter.IsFilterCall e.call) →
      result.Subperm txos → onRet (tr ++ new) (.ok result)) :
    Sat perf onCall onRet (server.filterOrKeep txos).run tr := by
  refine Sat.bind (Sat.of_onlyCalls (ChainFilter.filterTxos_onlyCalls _ _)
    (ChainFilter.filterTxos_returns _ _) (fun _ c _ hc => hcall _ c hc)
    (fun new o hnew ho => ?_))
  cases o with
  | error _ => exact hok new txos hnew (List.Subperm.refl _)
  | ok result => exact hok new result hnew ho

/-- The claimables of a rehearsal. -/
def rehearsed (swap : Swap) (txos : List Txo) : List ClaimableUtxo :=
  txos.map (fun utxo => ⟨swap, utxo, none, fakePreimage⟩)

/-- **A claim has been rehearsed**: at the fee that was told, with the fake
preimage and to the fake address, the transaction could be made. -/
structure Rehearsal (server : SwapServer) (tr : Events σ) (swap : Swap) (txos : List Txo)
    (currentHeight : UInt64) (fee : FeeEstimate) (destination : Address) (tx : Transaction) :
    Prop where
  estimate : Replied tr (.estimateFee 6) (.ok fee)
  fakeAddress : ∃ fakeKey,
    server.swapService.crypto.compressedPublicKeyFromSlice (List.replicate 33 0x02)
      = some fakeKey ∧ destination = server.swapService.crypto.p2wpkh fakeKey
  made : ∃ keys, Replied tr .newPrivateKeys keys ∧
    server.swapService.createClaimTx keys (rehearsed swap txos) fee currentHeight destination
      = .ok tx

theorem Rehearsal.mono {tr tr' : Events σ} {swap : Swap} {txos : List Txo}
    {currentHeight : UInt64} {fee : FeeEstimate} {destination : Address} {tx : Transaction}
    (h : server.Rehearsal tr swap txos currentHeight fee destination tx) (hsub : tr ⊆ tr') :
    server.Rehearsal tr' swap txos currentHeight fee destination tx := by
  have lift {c : Call Lightning} {r : c.Reply} : Replied tr c r → Replied tr' c r :=
    fun ⟨s, s', hm⟩ => ⟨s, s', hsub hm⟩
  obtain ⟨keys, hkeys, hmade⟩ := h.made
  exact ⟨lift h.estimate, h.fakeAddress, keys, lift hkeys, hmade⟩

/-- A call of the rehearsal of a claim. -/
def IsRehearsalCall : Call Lightning → Prop
  | .estimateFee _ | .newPrivateKeys => True
  | _ => False

theorem rehearseClaim_onlyCalls (swap : Swap) (txos : List Txo) (currentHeight : UInt64) :
    (server.rehearseClaim swap txos currentHeight).run.OnlyCalls IsRehearsalCall := by
  refine Prog.OnlyCalls.tryBind ⟨trivial, fun _ => trivial⟩ (fun fee => ?_)
  split
  next =>
    refine Prog.OnlyCalls.tryBind ⟨trivial, fun _ => trivial⟩ (fun keys => ?_)
    dsimp only
    split <;> trivial
  next => trivial

/-- The rehearsal does not call the filter. -/
theorem IsRehearsalCall.not_isFilterCall {c : Call Lightning} (h : IsRehearsalCall c) :
    ¬ChainFilter.IsFilterCall c := by
  cases c <;> first | exact h.elim | exact not_false

theorem rehearseClaim_sat {swap : Swap} {txos : List Txo} {currentHeight : UInt64}
    {onRet : Events σ → Except Status Unit → Prop}
    (hcall : ∀ tr' c, IsRehearsalCall c → onCall tr' c)
    (herr : ∀ tr' e, onRet tr' (.error e))
    (hok : ∀ new, (∀ e ∈ new, IsRehearsalCall e.call) →
      (∃ fee destination tx,
        server.Rehearsal (tr ++ new) swap txos currentHeight fee destination tx) →
      onRet (tr ++ new) (.ok ())) :
    Sat perf onCall onRet (server.rehearseClaim swap txos currentHeight).run tr := by
  refine Sat.tryBind (orFail_sat (hcall _ _ trivial) (fun s₁ r s₁' _ => ?_))
  cases r with
  | error e => exact herr _ _
  | ok fee =>
    simp only [Except.mapError, onOutcome, Sat.ret_iff]
    split
    next fakeKey hfakeKey =>
      refine Sat.ask (hcall _ _ trivial) (fun s₂ keys s₂' _ => ?_)
      split
      next tx htx =>
        have hok := hok [⟨.estimateFee 6, s₁, .ok fee, s₁'⟩, ⟨.newPrivateKeys, s₂, keys, s₂'⟩]
          (by simp [IsRehearsalCall])
          ⟨fee, _, tx, ⟨s₁, s₁', by simp⟩, ⟨fakeKey, hfakeKey, rfl⟩,
            ⟨keys, ⟨s₂, s₂', by simp⟩, htx⟩⟩
        rwa [List.append_cons] at hok
      next => exact herr _ _
    next => exact herr _ _

end Parts

/-- The smallest height is a lower bound. -/
theorem minConfirmationHeight_le {txos : List Txo} {m : UInt64}
    (h : minConfirmationHeight txos = some m) : ∀ t ∈ txos, m ≤ t.blockHeight := by
  cases txos with
  | nil => cases h
  | cons txo txos =>
    obtain rfl := Option.some.inj h
    have key : ∀ (ts : List Txo) (init : UInt64),
        ts.foldl (fun m t => min m t.blockHeight) init ≤ init ∧
          ∀ t ∈ ts, ts.foldl (fun m t => min m t.blockHeight) init ≤ t.blockHeight := by
      intro ts
      induction ts with
      | nil => exact fun init => ⟨UInt64.le_refl _, fun t ht => nomatch ht⟩
      | cons t ts ih =>
        intro init
        obtain ⟨h₁, h₂⟩ := ih (min init t.blockHeight)
        have hmin : min init t.blockHeight ≤ init ∧ min init t.blockHeight ≤ t.blockHeight := by
          simp only [Min.min, UInt64.le_iff_toNat_le]
          split <;> simp_all [UInt64.le_iff_toNat_le]; omega
        refine ⟨UInt64.le_trans h₁ hmin.1, fun u hu => ?_⟩
        rcases List.mem_cons.mp hu with rfl | hu
        · exact UInt64.le_trans h₁ hmin.2
        · exact h₂ u hu
    intro t ht
    rcases List.mem_cons.mp ht with rfl | ht
    · exact (key txos _).1
    · exact (key txos _).2 t ht

/-! ## What has been checked -/

/-- **What is known of an accepted payment**, from the answers given. -/
structure AcceptedWith (server : SwapServer) (req : PaySwapRequest) (tr : Events σ)
    (a : Accepted) : Prop where
  invoice : server.codec.parseInvoice req.paymentRequest = some a.invoice
  amount : a.invoice.amountMilliSatoshis = some a.amountMsat
  round : a.amountMsat / 1000 * 1000 = a.amountMsat
  /-- The bounds are those of a fee estimate, and the amount is within them. -/
  parameters : ∃ fee, Replied tr (.estimateFee minSwapAmountConfTarget) (.ok fee) ∧
    a.parameters = server.swapParametersOf fee
  le_max : a.amountMsat / 1000 ≤ a.parameters.maxSwapAmountSat
  min_le : a.parameters.minSwapAmountSat ≤ a.amountMsat / 1000
  /-- The swap is the one of the invoice, and was not paid. -/
  swap : Replied tr (.getSwapByHash a.invoice.paymentHash) (.ok a.swapState)
  unpaid : a.swapState.preimage = none
  minFinal : a.invoice.minFinalCltvExpiryDelta.toNat < 2 ^ 32
  height : Replied tr .getBlockheight (.ok a.currentHeight)
  /-- The outputs are payable ones of the swap's address; the blocks left are
  counted from the lowest of all outputs at the address. -/
  txos : ∃ txos minHeight,
    Replied tr (.getTxosForAddress a.swapState.swap.pub.address) (.ok txos) ∧
    minConfirmationHeight txos = some minHeight ∧
    0 ≤ a.swapState.blocksLeft minHeight a.currentHeight ∧
    a.blocksLeft =
      (UInt32.ofNat (a.swapState.blocksLeft minHeight a.currentHeight).toNat).saturatingSub
        server.minClaimBlocks ∧
    a.txos.Subperm (txos.filter (server.isPayable a.parameters a.currentHeight))
  blocksLeft_ne : a.blocksLeft ≠ 0
  viable : server.minViableCltv ≤
    a.blocksLeft.saturatingSub a.invoice.minFinalCltvExpiryDelta.toUInt32
  sum : sumValues a.txos = a.amountMsat / 1000
  /-- The claim of the outputs has been rehearsed. -/
  rehearsal : ∃ fee destination tx,
    server.Rehearsal tr a.swapState.swap a.txos a.currentHeight fee destination tx

/-- **An accepted payment has passed every check.** -/
theorem acceptPayment_sat :
    Sat perf (fun _ _ => True)
      (fun tr => onOutcome (fun _ => True) (AcceptedWith server req tr))
      (server.acceptPayment req).run [] := by
  refine Sat.tryBind (acceptInvoice_sat (fun _ => trivial)
    (fun invoice amountMsat hinvoice hamount hround => ?_))
  refine Sat.tryBind (acceptAmount_sat trivial (fun _ _ => trivial)
    (fun s₁ fee s₁' hmax hmin => ?_))
  refine Sat.tryBind (unpaidSwap_sat trivial (fun _ _ => trivial)
    (fun s₂ swapState s₂' _ hunpaid => ?_))
  refine Sat.tryBind (rejectIf_sat trivial (fun hfinal => ?_))
  refine Sat.tryBind (orFail_sat trivial (fun s₃ r s₃' _ => ?_))
  cases r with
  | error e => trivial
  | ok txos =>
    simp only [Except.mapError, onOutcome, Sat.ret_iff]
    split
    next minHeight hminHeight =>
      refine Sat.tryBind (orFail_sat trivial (fun s₄ r s₄' _ => ?_))
      cases r with
      | error e => trivial
      | ok currentHeight =>
        refine Sat.tryBind (payoutBlocksLeft_sat (fun _ => trivial)
          (fun blocksLeft hleft hblocks hne hviable => ?_))
        refine Sat.tryBind (filterOrKeep_sat (fun _ _ _ => trivial)
          (fun new kept _ hkept => ?_))
        refine Sat.tryBind (rejectIf_sat trivial (fun hsum => ?_))
        refine Sat.tryBind (rehearseClaim_sat (fun _ _ _ => trivial)
          (fun _ _ => trivial) (fun new' _ hrehearsal => ?_))
        exact {
          invoice := hinvoice
          amount := hamount
          round := hround
          parameters := ⟨fee, ⟨s₁, s₁', by simp⟩, rfl⟩
          le_max := hmax
          min_le := hmin
          swap := ⟨s₂, s₂', by simp⟩
          unpaid := hunpaid
          minFinal := Nat.lt_of_not_le hfinal
          height := ⟨s₄, s₄', by simp⟩
          txos := ⟨txos, minHeight, ⟨s₃, s₃', by simp⟩, hminHeight, hleft, hblocks, hkept⟩
          blocksLeft_ne := hne
          viable := hviable
          sum := not_not.mp hsum
          rehearsal := hrehearsal }
    next => trivial

/-- What is known stays known. -/
theorem AcceptedWith.mono {tr tr' : Events σ} {a : Accepted}
    (h : AcceptedWith server req tr a) (hsub : tr ⊆ tr') :
    AcceptedWith server req tr' a := by
  have lift {c : Call Lightning} {r : c.Reply} : Replied tr c r → Replied tr' c r :=
    fun ⟨s, s', hm⟩ => ⟨s, s', hsub hm⟩
  obtain ⟨fee, hfee, hparams⟩ := h.parameters
  obtain ⟨txos, minHeight, htxos, hrest⟩ := h.txos
  obtain ⟨fee', destination, tx, hrehearsal⟩ := h.rehearsal
  exact { h with
    parameters := ⟨fee, lift hfee, hparams⟩
    swap := lift h.swap
    height := lift h.height
    txos := ⟨txos, minHeight, lift htxos, hrest⟩
    rehearsal := ⟨fee', destination, tx, hrehearsal.mono hsub⟩ }

/-! ## The checks only read -/

theorem acceptInvoice_onlyCalls :
    (server.acceptInvoice req).run.OnlyCalls Call.IsQuery := by
  unfold acceptInvoice
  split
  next =>
    split
    next =>
      refine Prog.OnlyCalls.tryBind rejectIf_onlyCalls (fun _ => ?_)
      trivial
    next => trivial
  next => trivial

theorem acceptAmount_onlyCalls (amountSat : UInt64) :
    (server.acceptAmount amountSat).run.OnlyCalls Call.IsQuery := by
  refine Prog.OnlyCalls.tryBind ?_ (fun parameters => ?_)
  · refine Prog.OnlyCalls.tryBind (orFail_onlyCalls trivial (fun _ => trivial)) (fun _ => ?_)
    trivial
  · refine Prog.OnlyCalls.tryBind rejectIf_onlyCalls (fun _ => ?_)
    refine Prog.OnlyCalls.tryBind rejectIf_onlyCalls (fun _ => ?_)
    trivial

theorem unpaidSwap_onlyCalls (hash : PaymentHash) :
    (unpaidSwap hash).run.OnlyCalls Call.IsRead := by
  refine Prog.OnlyCalls.tryBind
    (orFail_onlyCalls (Or.inr ⟨hash, rfl⟩) (fun _ => trivial)) (fun _ => ?_)
  refine Prog.OnlyCalls.tryBind rejectIf_onlyCalls (fun _ => ?_)
  trivial

theorem acceptOutputs_onlyCalls (invoice : Bolt11Invoice) (amountMsat : UInt64)
    (parameters : SwapParameters) (swapState : SwapState) :
    (server.acceptOutputs invoice amountMsat parameters swapState).run.OnlyCalls
      Call.IsQuery := by
  refine Prog.OnlyCalls.tryBind rejectIf_onlyCalls (fun _ => ?_)
  refine Prog.OnlyCalls.tryBind (orFail_onlyCalls trivial (fun _ => trivial)) (fun txos => ?_)
  split
  next =>
    refine Prog.OnlyCalls.tryBind (orFail_onlyCalls trivial (fun _ => trivial))
      (fun currentHeight => ?_)
    refine Prog.OnlyCalls.tryBind ?_ (fun blocksLeft => ?_)
    · refine Prog.OnlyCalls.tryBind rejectIf_onlyCalls (fun _ => ?_)
      refine Prog.OnlyCalls.tryBind rejectIf_onlyCalls (fun _ => ?_)
      trivial
    refine Prog.OnlyCalls.tryBind ?_ (fun kept => ?_)
    · refine Prog.OnlyCalls.bind ?_ (fun o => by cases o <;> trivial)
      exact (ChainFilter.filterTxos_onlyCalls _ _).mono
        (fun c hc => by cases c <;> trivial)
    · refine Prog.OnlyCalls.tryBind rejectIf_onlyCalls (fun _ => ?_)
      refine Prog.OnlyCalls.tryBind ?_ (fun _ => trivial)
      exact (rehearseClaim_onlyCalls _ _ _).mono (fun c hc => by cases c <;> trivial)
  next => trivial

/-- **The checks only read.** -/
theorem acceptPayment_onlyCalls :
    (server.acceptPayment req).run.OnlyCalls Call.IsRead := by
  have query {α : Type} {x : Program Status α} (h : x.run.OnlyCalls Call.IsQuery) :
      x.run.OnlyCalls Call.IsRead := h.mono (fun _ => Or.inl)
  refine Prog.OnlyCalls.tryBind (query acceptInvoice_onlyCalls) (fun im => ?_)
  refine Prog.OnlyCalls.tryBind (query (acceptAmount_onlyCalls _)) (fun parameters => ?_)
  refine Prog.OnlyCalls.tryBind (unpaidSwap_onlyCalls _) (fun swapState => ?_)
  exact query (acceptOutputs_onlyCalls _ _ _ _)

/-- The checks only read, in a run. -/
theorem acceptPayment_reads (tr : Events σ) :
    Sat perf (fun _ c => Call.IsRead c) (fun _ _ => True) (server.acceptPayment req).run tr :=
  Sat.of_onlyCalls acceptPayment_onlyCalls
    (Prog.Returns.of_forall (P := fun _ => True) (fun _ => trivial))
    (fun _ _ _ hc => hc) (fun _ _ _ _ => trivial)

theorem prevouts_onlyCalls (vins : List TxIn) :
    (prevouts vins).run.OnlyCalls Call.IsQuery := by
  have hprevout (vin : TxIn) : (prevout vin).run.OnlyCalls Call.IsQuery := by
    refine Prog.OnlyCalls.tryBind (orFail_onlyCalls trivial (fun _ => trivial)) (fun tx => ?_)
    split <;> trivial
  induction vins with
  | nil => trivial
  | cons vin vins ih =>
    refine Prog.OnlyCalls.tryBind ((hprevout vin).bind (fun _ => trivial)) (fun first => ?_)
    refine Prog.OnlyCalls.tryBind (ih.bind (fun _ => trivial)) (fun rest => ?_)
    refine Prog.OnlyCalls.tryBind trivial (fun _ => ?_)
    exact Prog.OnlyCalls.tryBind trivial (fun _ => trivial)

/-- The checks of a refund only read. -/
theorem checkRefund_onlyCalls (req : RefundSwapRequest) :
    (server.checkRefund req).run.OnlyCalls Call.IsQuery := by
  unfold checkRefund
  split
  case h_2 => trivial
  split
  case h_2 => trivial
  refine Prog.OnlyCalls.tryBind rejectIf_onlyCalls (fun _ => ?_)
  split
  case h_2 => trivial
  refine Prog.OnlyCalls.tryBind (orFail_onlyCalls trivial (fun _ => trivial)) (fun swap => ?_)
  refine Prog.OnlyCalls.tryBind (prevouts_onlyCalls _) (fun prevouts => ?_)
  split
  case h_2 => trivial
  split
  case h_2 => trivial
  refine Prog.OnlyCalls.tryBind rejectIf_onlyCalls (fun _ => ⟨trivial, fun keys => ?_⟩)
  refine Prog.OnlyCalls.tryBind (x := Prog.ofExcept _) trivial (fun sig => ?_)
  exact Prog.OnlyCalls.tryBind (orFail_onlyCalls trivial (fun _ => trivial)) (fun _ => trivial)

/-- What is accepted is for the invoice and the swap it was accepted for. -/
theorem acceptOutputs_returns (invoice : Bolt11Invoice) (amountMsat : UInt64)
    (parameters : SwapParameters) (swapState : SwapState) :
    (server.acceptOutputs invoice amountMsat parameters swapState).run.Returns
      (onOutcome (fun _ => True)
        (fun a => a.invoice = invoice ∧ a.swapState = swapState)) := by
  have pass {α β : Type} {P : β → Prop} {x : Program Status α}
      {f : α → Program Status β}
      (h : ∀ a, (f a).run.Returns (onOutcome (fun _ => True) P)) :
      (x >>= f).run.Returns (onOutcome (fun _ => True) P) := by
    refine Prog.Returns.tryBind (Prog.Returns.of_forall (fun o => ?_))
    cases o with
    | error _ => trivial
    | ok a => exact h a
  refine pass (fun _ => pass (fun txos => ?_))
  split
  next =>
    refine pass (fun currentHeight => pass (fun blocksLeft => pass (fun kept => ?_)))
    exact pass (fun _ => pass (fun _ => ⟨rfl, rfl⟩))
  next => trivial

end SwapServer

end Swapd
