import Swapd.PaySwapPayment

/-!
# Money from filtered addresses

Which outputs a payment is not made for, and when. The chain filter can do its
work if its lookups succeed and every input of the funding transactions of the
candidates spends an output with an address (`FilterWorks`). If it cannot for
one candidate, it fails for all of them, and `pay_swap` goes on with all of them
(`filterOrKeep_filters`). So a payment leaves out the money of filtered addresses
exactly if the filter works, or if there is none of it among the candidates.

The lookups that succeed are truthful: a transaction is the one of its id, and
whether there is a filtered address among some is answered for these.
-/

namespace Swapd

namespace SwapServer

open Prog (Event Sat Runs Replied onOutcome)

/-- **What the filter looks up**: the transactions of the chain, and the
filtered addresses. -/
structure FilterData where
  standard : ScriptBuf → Bool
  transactions : Txid → Transaction
  filtered : List Address

namespace FilterData

variable (data : FilterData)

/-- The output an input spends. -/
def spent (vin : TxIn) : Option TxOut :=
  (data.transactions vin.previousOutput.txid).output[vin.previousOutput.vout.toNat]?

/-- The address an input spends from. -/
def sender (vin : TxIn) : Option Address :=
  (data.spent vin).bind (fun txOut => Address.fromScript data.standard txOut.scriptPubkey)

/-- **An output funded from a filtered address**: an input of its transaction
spends an output of one. -/
def FromFiltered (outpoint : OutPoint) : Prop :=
  ∃ vin ∈ (data.transactions outpoint.txid).input, ∃ a ∈ data.filtered,
    data.sender vin = some a

/-- **The senders of an output have addresses.** -/
def Resolves (outpoint : OutPoint) : Prop :=
  ∀ vin ∈ (data.transactions outpoint.txid).input, data.sender vin ≠ none

/-- A lookup that succeeds is truthful. -/
def Truthful (c : Call Lightning) (_ : Unit) (r : c.Reply) (_ : Unit) : Prop :=
  match c, r with
  | .getTransaction txid, r => ∀ tx, r = .ok tx → tx = data.transactions txid
  | .hasFilteredAddress addresses, r =>
    ∀ b, r = .ok b → (b = true ↔ ∃ a ∈ addresses, a ∈ data.filtered)
  | _, _ => True

end FilterData

/-- **A lookup of the filter has failed.** -/
def LookupFailed (tr : Events Unit) : Prop :=
  (∃ txid e, Replied tr (.getTransaction txid) (.error e)) ∨
    ∃ addresses e, Replied tr (.hasFilteredAddress addresses) (.error e)

theorem LookupFailed.mono {tr tr' : Events Unit} (h : LookupFailed tr) (hsub : tr ⊆ tr') :
    LookupFailed tr' := by
  have lift {c : Call Lightning} {r : c.Reply} : Replied tr c r → Replied tr' c r :=
    fun ⟨s, s', hm⟩ => ⟨s, s', hsub hm⟩
  rcases h with ⟨txid, e, h⟩ | ⟨addresses, e, h⟩
  · exact Or.inl ⟨txid, e, lift h⟩
  · exact Or.inr ⟨addresses, e, lift h⟩

theorem not_lookupFailed_append {tr new : Events Unit} (h : ¬LookupFailed tr)
    (hnew : ¬LookupFailed new) : ¬LookupFailed (tr ++ new) := by
  rintro (⟨txid, e, s, s', hmem⟩ | ⟨addresses, e, s, s', hmem⟩) <;>
    rcases List.mem_append.mp hmem with hmem | hmem
  · exact h (Or.inl ⟨txid, e, s, s', hmem⟩)
  · exact hnew (Or.inl ⟨txid, e, s, s', hmem⟩)
  · exact h (Or.inr ⟨addresses, e, s, s', hmem⟩)
  · exact hnew (Or.inr ⟨addresses, e, s, s', hmem⟩)

/-- What is no lookup does not fail as one. -/
theorem not_lookupFailed_of_calls {tr : Events Unit}
    (h : ∀ e ∈ tr, ¬ChainFilter.IsFilterCall e.call) : ¬LookupFailed tr := by
  rintro (⟨txid, e, s, s', hmem⟩ | ⟨addresses, e, s, s', hmem⟩)
  · exact h _ hmem trivial
  · exact h _ hmem trivial

/-! ## The filter -/

section Succeeds

variable {perf : (c : Call Lightning) → Unit → c.Reply → Unit → Prop}
  {onCall : Events Unit → Call Lightning → Prop} {tr : Events Unit}

theorem getTransaction_succeeds (hcall : ∀ tr c, onCall tr c) (txid : Txid)
    (htr : ¬LookupFailed tr) :
    Sat perf onCall (fun tr' => onOutcome (fun _ => True) (fun _ => ¬LookupFailed tr'))
      (ChainFilter.getTransaction txid).run tr := by
  refine ⟨hcall _ _, fun s r s' _ => ?_⟩
  cases r with
  | error e => trivial
  | ok tx => exact not_lookupFailed_append htr (by simp [LookupFailed, Prog.Replied])

theorem senderAddress_succeeds (hcall : ∀ tr c, onCall tr c) (standard : ScriptBuf → Bool)
    (vin : TxIn) (htr : ¬LookupFailed tr) :
    Sat perf onCall (fun tr' => onOutcome (fun _ => True) (fun _ => ¬LookupFailed tr'))
      (ChainFilter.senderAddress standard vin).run tr := by
  refine Sat.tryBind ((getTransaction_succeeds hcall _ htr).mono (fun tr' o ho => ?_))
  cases o with
  | error e => trivial
  | ok txin =>
    refine Sat.tryBind (rejectIf_sat trivial (fun _ => ?_))
    split
    next => exact ⟨hcall _ _, fun _ e _ _ => Empty.elim e⟩
    next txout _ => split <;> trivial

theorem shouldFilterTxo_succeeds (hcall : ∀ tr c, onCall tr c) (standard : ScriptBuf → Bool)
    (txo : Txo) (htr : ¬LookupFailed tr) :
    Sat perf onCall (fun tr' => onOutcome (fun _ => True) (fun _ => ¬LookupFailed tr'))
      (ChainFilter.shouldFilterTxo standard txo).run tr := by
  have hsenders : Sat perf onCall
      (fun tr' => onOutcome (fun _ => True) (fun _ => ¬LookupFailed tr'))
      (ChainFilter.getSenderAddresses standard [txo.outpoint]).run tr := by
    refine Sat.tryBind ((Sat.mapM_keeps (K := fun tr => ¬LookupFailed tr) _
      (fun o _ tr htr => ?_) htr).mono (fun tr' o ho => ?_))
    · refine Sat.tryBind ((getTransaction_succeeds hcall _ htr).mono (fun tr' r hr => ?_))
      cases r with
      | error e => trivial
      | ok tx =>
        exact Sat.mapM_keeps (K := fun tr => ¬LookupFailed tr) _
          (fun vin _ _ => senderAddress_succeeds hcall _ vin) hr
    · cases o with
      | error e => trivial
      | ok lists => exact ho
  refine Sat.tryBind (Sat.bind (hsenders.mono (fun tr' r hr => ?_)))
  cases r with
  | error e => trivial
  | ok addresses =>
    refine ⟨hcall _ _, fun s r s' _ => ?_⟩
    cases r with
    | error e => trivial
    | ok shouldFilter =>
      exact not_lookupFailed_append hr (by simp [LookupFailed, Prog.Replied])

/-- **A filter that succeeds has looked everything up.** -/
theorem filterTxos_succeeds (hcall : ∀ tr c, onCall tr c) (standard : ScriptBuf → Bool)
    (txos : List Txo) (htr : ¬LookupFailed tr) :
    Sat perf onCall (fun tr' => onOutcome (fun _ => True) (fun _ => ¬LookupFailed tr'))
      (ChainFilter.filterTxos standard txos).run tr := by
  have hcollect (txos : List Txo) {tr : Events Unit} (htr : ¬LookupFailed tr) :
      Sat perf onCall (fun tr' => onOutcome (fun _ => True) (fun _ => ¬LookupFailed tr'))
        (ChainFilter.collectUnfiltered standard txos).run tr := by
    induction txos generalizing tr with
    | nil => exact htr
    | cons txo txos ih =>
      refine Sat.tryBind ((shouldFilterTxo_succeeds hcall _ txo htr).mono (fun tr' r hr => ?_))
      cases r with
      | error e => trivial
      | ok shouldFilter =>
        refine Sat.tryBind ((ih hr).mono (fun tr'' r' hr' => ?_))
        cases r' with
        | error e => trivial
        | ok result => exact hr'
  refine Sat.ask (hcall _ _) (fun s order s' _ => hcollect _ ?_)
  exact not_lookupFailed_append htr (by simp [LookupFailed, Prog.Replied])

end Succeeds

section Filter

variable {data : FilterData} {onCall : Events Unit → Call Lightning → Prop} {tr : Events Unit}

theorem getTransaction_sat (hcall : ∀ tr c, onCall tr c) (txid : Txid) :
    Sat data.Truthful onCall (fun tr' => onOutcome (fun _ => LookupFailed tr')
      (fun tx => tx = data.transactions txid)) (ChainFilter.getTransaction txid).run tr := by
  refine ⟨hcall _ _, fun s r s' htruthful => ?_⟩
  cases r with
  | error e => exact Or.inl ⟨txid, e, s, s', List.mem_append_right _ (List.mem_singleton_self _)⟩
  | ok tx => exact htruthful tx rfl

/-- One sender is found, unless a lookup fails or it has no address. -/
theorem senderAddress_sat (hcall : ∀ tr c, onCall tr c) (vin : TxIn) :
    Sat data.Truthful onCall (fun tr' => onOutcome
      (fun _ => LookupFailed tr' ∨ data.sender vin = none) (fun a => data.sender vin = some a))
      (ChainFilter.senderAddress data.standard vin).run tr := by
  refine Sat.tryBind ((getTransaction_sat hcall _).mono (fun tr' o ho => ?_))
  cases o with
  | error e => exact Or.inl ho
  | ok txin =>
    obtain rfl : txin = data.transactions vin.previousOutput.txid := ho
    refine Sat.tryBind ?_
    by_cases hshort : (data.transactions vin.previousOutput.txid).output.length
        < vin.previousOutput.vout.toNat
    · rw [Prog.rejectIf, if_pos hshort]
      refine Or.inr ?_
      rw [FilterData.sender, FilterData.spent, List.getElem?_eq_none (Nat.le_of_lt hshort)]
      rfl
    rw [Prog.rejectIf, if_neg hshort]
    simp only [ExceptT.run_pure, Prog.pure_eq, Prog.Sat.ret_iff, onOutcome]
    rw [show (data.transactions vin.previousOutput.txid).output[vin.previousOutput.vout.toNat]?
      = data.spent vin from rfl]
    cases hspent : data.spent vin with
    | none => exact ⟨hcall _ _, fun _ e _ _ => Empty.elim e⟩
    | some txout =>
      have hsender : data.sender vin = Address.fromScript data.standard txout.scriptPubkey := by
        rw [FilterData.sender, hspent]
        rfl
      rw [hsender]
      dsimp only
      cases Address.fromScript data.standard txout.scriptPubkey with
      | none => exact Or.inr rfl
      | some address => rfl

/-- The results of elements, one for each. -/
theorem mem_of_forall₂ {α β : Type} {f : α → Option β} {xs : List α} {ys : List β}
    (h : List.Forall₂ (fun x y => f x = some y) xs ys) {y : β} :
    y ∈ ys ↔ ∃ x ∈ xs, f x = some y := by
  induction h with
  | nil => simp
  | cons h _ ih => simp [ih, h, eq_comm]

/-- An element with a result has one. -/
theorem ne_none_of_forall₂ {α β : Type} {f : α → Option β} {xs : List α} {ys : List β}
    (h : List.Forall₂ (fun x y => f x = some y) xs ys) : ∀ x ∈ xs, f x ≠ none := by
  induction h with
  | nil => exact List.forall_mem_nil _
  | cons h _ ih => exact List.forall_mem_cons.mpr ⟨by rw [h]; exact Option.some_ne_none _, ih⟩

/-- The senders of one output are found, unless a lookup fails or one has no
address. -/
theorem getSenderAddresses_sat (hcall : ∀ tr c, onCall tr c) (outpoint : OutPoint) :
    Sat data.Truthful onCall (fun tr' => onOutcome
      (fun _ => LookupFailed tr' ∨ ¬data.Resolves outpoint)
      (fun addresses => List.Forall₂ (fun vin a => data.sender vin = some a)
        (data.transactions outpoint.txid).input addresses))
      (ChainFilter.getSenderAddresses data.standard [outpoint]).run tr := by
  have hone : ∀ o ∈ [outpoint], ∀ tr, Sat data.Truthful onCall (fun tr' => onOutcome
      (fun _ => LookupFailed tr' ∨ ¬data.Resolves o)
      (fun addresses => List.Forall₂ (fun vin a => data.sender vin = some a)
        (data.transactions o.txid).input addresses))
      (do
        let tx ← ChainFilter.getTransaction o.txid
        tx.input.mapM (ChainFilter.senderAddress data.standard)).run tr := by
    intro o _ tr
    refine Sat.tryBind ((getTransaction_sat hcall _).mono (fun tr' r hr => ?_))
    cases r with
    | error e => exact Or.inl hr
    | ok tx =>
      obtain rfl : tx = data.transactions o.txid := hr
      refine (Sat.mapM _ (fun vin _ tr => senderAddress_sat hcall vin) tr').mono
        (fun tr'' r' hr' => ?_)
      cases r' with
      | error e =>
        obtain ⟨vin, hvin, hfailed⟩ := hr'
        exact hfailed.imp id (fun hnone hresolves => hresolves vin hvin hnone)
      | ok addresses => exact hr'
  refine Sat.tryBind ((Sat.mapM _ hone tr).mono (fun tr' r hr => ?_))
  cases r with
  | error e =>
    obtain ⟨o, ho, hfailed⟩ := hr
    rw [List.mem_singleton] at ho
    exact ho ▸ hfailed
  | ok lists =>
    cases hr with
    | cons h htail =>
      cases htail
      show List.Forall₂ _ _ (_ ++ [])
      rw [List.append_nil]
      exact h

/-- **One output is filtered if it is from a filtered address**, unless a lookup
fails or a sender has no address. -/
theorem shouldFilterTxo_sat (hcall : ∀ tr c, onCall tr c) (txo : Txo) :
    Sat data.Truthful onCall (fun tr' => onOutcome
      (fun _ => LookupFailed tr' ∨ ¬data.Resolves txo.outpoint)
      (fun shouldFilter => data.Resolves txo.outpoint ∧
        (shouldFilter = true ↔ data.FromFiltered txo.outpoint)))
      (ChainFilter.shouldFilterTxo data.standard txo).run tr := by
  refine Sat.tryBind (Sat.bind ((getSenderAddresses_sat hcall txo.outpoint).mono
    (fun tr' r hr => ?_)))
  cases r with
  | error e => exact hr
  | ok addresses =>
    refine ⟨hcall _ _, fun s r s' htruthful => ?_⟩
    cases r with
    | error e =>
      exact Or.inl (Or.inr ⟨addresses, e, s, s',
        List.mem_append_right _ (List.mem_singleton_self _)⟩)
    | ok shouldFilter =>
      refine ⟨ne_none_of_forall₂ hr, (htruthful shouldFilter rfl).trans ?_⟩
      constructor
      · rintro ⟨a, ha, hfiltered⟩
        obtain ⟨vin, hvin, hsender⟩ := (mem_of_forall₂ hr).mp ha
        exact ⟨vin, hvin, a, hfiltered, hsender⟩
      · rintro ⟨vin, hvin, a, hfiltered, hsender⟩
        exact ⟨a, (mem_of_forall₂ hr).mpr ⟨vin, hvin, hsender⟩, hfiltered⟩

/-- The loop keeps what is not from a filtered address, and every sender has an
address, unless it fails for a lookup or a sender. -/
theorem collectUnfiltered_sat (hcall : ∀ tr c, onCall tr c) (txos : List Txo)
    (tr : Events Unit) :
    Sat data.Truthful onCall (fun tr' => onOutcome
      (fun _ => LookupFailed tr' ∨ ∃ txo ∈ txos, ¬data.Resolves txo.outpoint)
      (fun result => (∀ txo ∈ txos, data.Resolves txo.outpoint) ∧
        ∀ txo ∈ result, ¬data.FromFiltered txo.outpoint))
      (ChainFilter.collectUnfiltered data.standard txos).run tr := by
  induction txos generalizing tr with
  | nil => exact ⟨List.forall_mem_nil _, List.forall_mem_nil _⟩
  | cons txo txos ih =>
    refine Sat.tryBind ((shouldFilterTxo_sat hcall txo).mono (fun tr' r hr => ?_))
    cases r with
    | error e => exact Or.imp id (fun hresolves => ⟨txo, List.mem_cons_self, hresolves⟩) hr
    | ok shouldFilter =>
      refine Sat.tryBind ((ih tr').mono (fun tr'' r' hr' => ?_))
      cases r' with
      | error e =>
        refine Or.imp id ?_ hr'
        rintro ⟨txo', htxo', hresolves⟩
        exact ⟨txo', List.mem_cons_of_mem txo htxo', hresolves⟩
      | ok result =>
        obtain ⟨hresolves, hfilter⟩ := hr
        refine ⟨List.forall_mem_cons.mpr ⟨hresolves, hr'.1⟩, ?_⟩
        cases shouldFilter with
        | true => exact hr'.2
        | false =>
          have hkept : ¬data.FromFiltered txo.outpoint :=
            fun hfrom => Bool.false_ne_true (hfilter.mpr hfrom)
          exact List.forall_mem_cons.mpr ⟨hkept, hr'.2⟩

/-- **The filter lets nothing through from a filtered address**, and every sender
of the candidates has an address, unless it fails for a lookup or a sender. -/
theorem filterTxos_sat (hcall : ∀ tr c, onCall tr c) (txos : List Txo) :
    Sat data.Truthful onCall (fun tr' => onOutcome
      (fun _ => LookupFailed tr' ∨ ∃ txo ∈ txos, ¬data.Resolves txo.outpoint)
      (fun result => (∀ txo ∈ txos, data.Resolves txo.outpoint) ∧
        ∀ txo ∈ result, ¬data.FromFiltered txo.outpoint))
      (ChainFilter.filterTxos data.standard txos).run tr := by
  refine Sat.ask (hcall _ _) (fun s order s' _ => ?_)
  refine (collectUnfiltered_sat hcall _ _).mono (fun tr' r hr => ?_)
  cases r with
  | error e =>
    refine Or.imp id ?_ hr
    rintro ⟨txo, htxo, hresolves⟩
    exact ⟨txo, Table.mem_permute.mp htxo, hresolves⟩
  | ok result => exact ⟨fun txo htxo => hr.1 txo (Table.mem_permute.mpr htxo), hr.2⟩

end Filter

/-! ## What a payment is made for -/

/-- **The candidates of a payment** for a swap: the outputs the request was told
of that are payable by the estimate and the height it was told. -/
def Candidates (server : SwapServer) (tr : Events Unit) (hash : PaymentHash)
    (candidates : List Txo) : Prop :=
  ∃ invoiceHash swapState txos fee currentHeight,
    Replied tr (.getSwapByHash invoiceHash) (.ok swapState) ∧ swapState.swap.pub.hash = hash ∧
    Replied tr (.getTxosForAddress swapState.swap.pub.address) (.ok txos) ∧
    Replied tr (.estimateFee minSwapAmountConfTarget) (.ok fee) ∧
    Replied tr .getBlockheight (.ok currentHeight) ∧
    candidates = txos.filter (server.isPayable (server.swapParametersOf fee) currentHeight)

/-- **The filter can do its work**: no lookup has failed, and every sender of the
candidates has an address. -/
def FilterWorks (data : FilterData) (tr : Events Unit) (candidates : List Txo) : Prop :=
  ¬LookupFailed tr ∧ ∀ txo ∈ candidates, data.Resolves txo.outpoint

variable {server : SwapServer} {req : PaySwapRequest} {data : FilterData}

theorem Candidates.mono {tr tr' : Events Unit} {hash : PaymentHash} {candidates : List Txo}
    (h : Candidates server tr hash candidates) (hsub : tr ⊆ tr') :
    Candidates server tr' hash candidates := by
  have lift {c : Call Lightning} {r : c.Reply} : Replied tr c r → Replied tr' c r :=
    fun ⟨s, s', hm⟩ => ⟨s, s', hsub hm⟩
  obtain ⟨invoiceHash, swapState, txos, fee, height, hswap, hhash, htxos, hfee, hheight, heq⟩ := h
  exact ⟨invoiceHash, swapState, txos, fee, height, lift hswap, hhash, lift htxos, lift hfee,
    lift hheight, heq⟩

/-- What comes after the filter does not bear on whether it works. -/
theorem filterWorks_append {tr new : Events Unit} {candidates : List Txo}
    (hnew : ∀ e ∈ new, ¬ChainFilter.IsFilterCall e.call) :
    FilterWorks data (tr ++ new) candidates ↔ FilterWorks data tr candidates := by
  refine and_congr_left' (not_congr ⟨fun h => ?_, fun h => h.mono (List.subset_append_left _ _)⟩)
  by_contra htr
  exact not_lookupFailed_append htr (not_lookupFailed_of_calls hnew) h

/-- **What is accepted** of some candidates is free of money from filtered
addresses exactly if the filter works, or if the candidates are. -/
def ExcludesFiltered (data : FilterData) (tr : Events Unit) (candidates txos : List Txo) : Prop :=
  (∀ txo ∈ txos, ¬data.FromFiltered txo.outpoint) ↔
    FilterWorks data tr candidates ∨ ∀ txo ∈ candidates, ¬data.FromFiltered txo.outpoint

/-- **What is left after the filter**: nothing from a filtered address if it
works, and everything if it does not. -/
theorem filterOrKeep_filters (hstandard : server.codec.standard = data.standard)
    (txos : List Txo) {tr : Events Unit} (htr : ¬LookupFailed tr) :
    Sat data.Truthful (fun _ _ => True) (fun tr' => onOutcome (fun _ => True)
      (fun kept => tr ⊆ tr' ∧ ExcludesFiltered data tr' txos kept))
      (server.filterOrKeep txos).run tr := by
  rw [filterOrKeep, hstandard]
  refine Sat.bind (((filterTxos_sat (fun _ _ => trivial) txos).and
    (filterTxos_succeeds (fun _ _ => trivial) data.standard txos htr)).mono_call
      (fun _ _ _ => trivial) |>.subset.mono (fun tr' r hr => ?_))
  obtain ⟨hsub, hfilter, hlookups⟩ := hr
  cases r with
  | error e =>
    -- The filter has failed: all are kept.
    have hfails : ¬FilterWorks data tr' txos := by
      rintro ⟨hlookups, hresolves⟩
      rcases hfilter with hfailed | ⟨txo, htxo, hnot⟩
      · exact hlookups hfailed
      · exact hnot (hresolves txo htxo)
    exact ⟨hsub, fun h => Or.inr h, fun h => h.resolve_left hfails⟩
  | ok kept =>
    obtain ⟨hresolves, hkept⟩ := hfilter
    exact ⟨hsub, fun _ => Or.inl ⟨hlookups, hresolves⟩, fun _ => hkept⟩

/-- **What is accepted**, of the candidates of the swap. -/
theorem acceptPayment_filters (hstandard : server.codec.standard = data.standard) :
    Sat data.Truthful (fun _ _ => True)
      (fun tr => onOutcome (fun _ => True) (fun a => ∃ candidates,
        Candidates server tr a.swapState.swap.pub.hash candidates ∧
        ExcludesFiltered data tr candidates a.txos))
      (server.acceptPayment req).run [] := by
  refine Sat.tryBind (acceptInvoice_sat (fun _ => trivial) (fun invoice amountMsat _ _ _ => ?_))
  refine Sat.tryBind (acceptAmount_sat trivial (fun _ _ => trivial) (fun s₁ fee s₁' _ _ => ?_))
  refine Sat.tryBind (unpaidSwap_sat trivial (fun _ _ => trivial)
    (fun s₂ swapState s₂' _ _ => ?_))
  refine Sat.tryBind (rejectIf_sat trivial (fun _ => ?_))
  refine Sat.tryBind (orFail_sat trivial (fun s₃ r s₃' _ => ?_))
  cases r with
  | error e => trivial
  | ok txos =>
    simp only [Except.mapError, onOutcome, Sat.ret_iff]
    split
    next minHeight _ =>
      refine Sat.tryBind (orFail_sat trivial (fun s₄ r s₄' _ => ?_))
      cases r with
      | error e => trivial
      | ok currentHeight =>
        refine Sat.tryBind (payoutBlocksLeft_sat (fun _ => trivial) (fun blocksLeft _ _ _ _ => ?_))
        refine Sat.tryBind ((filterOrKeep_filters hstandard _
          (not_lookupFailed_of_calls (by simp [ChainFilter.IsFilterCall]))).mono
          (fun tr' r hr => ?_))
        cases r with
        | error e => trivial
        | ok kept =>
          obtain ⟨hsub, hkept⟩ := hr
          refine Sat.tryBind (rejectIf_sat trivial (fun _ => ?_))
          refine Sat.tryBind (rehearseClaim_sat (fun _ _ _ => trivial) (fun _ _ => trivial)
            (fun new hnew _ => ?_))
          have hcandidates : Candidates server tr' swapState.swap.pub.hash
              (txos.filter (server.isPayable (server.swapParametersOf fee) currentHeight)) :=
            ⟨invoice.paymentHash, swapState, txos, fee, currentHeight,
              ⟨s₂, s₂', hsub (by simp)⟩, rfl,
              ⟨s₃, s₃', hsub (by simp)⟩, ⟨s₁, s₁', hsub (by simp)⟩, ⟨s₄, s₄', hsub (by simp)⟩, rfl⟩
          refine ⟨_, hcandidates.mono (List.subset_append_left _ _), ?_⟩
          refine hkept.trans (or_congr_left (filterWorks_append (fun e he => ?_)).symm)
          exact (hnew e he).not_isFilterCall
    next => trivial

/-- **Money from a filtered address is not paid out, exactly if the filter
works or there is none**: of any run of `pay_swap` that records an attempt, no
output of the attempt is funded from a filtered address if and only if every
lookup was answered and every sender of the candidates has an address, or no
candidate is funded from a filtered address. -/
theorem paySwap_excludesFiltered_iff (hstandard : server.codec.standard = data.standard)
    {tr : Events Unit} {attempt : PaymentAttempt}
    {k : Except LockSwapError Unit → Prog (Services Lightning) (Except Status PaySwapResponse)}
    (h : Runs data.Truthful (server.paySwap req).run tr
      (.call (.lockAddPaymentAttempt attempt) k)) :
    ∃ candidates, Candidates server tr attempt.paymentHash candidates ∧
      ((∀ o ∈ attempt.outputs, ¬data.FromFiltered o) ↔
        FilterWorks data tr candidates ∨
          ∀ txo ∈ candidates, ¬data.FromFiltered txo.outpoint) := by
  obtain ⟨a, now, label, s, s', before, ⟨candidates, hcandidates, hexcludes⟩, rfl, rfl⟩ :=
    paySwap_records (acceptPayment_filters hstandard) h
  refine ⟨candidates, hcandidates.mono (List.subset_append_left _ _), ?_⟩
  rw [filterWorks_append (by simp [ChainFilter.IsFilterCall])]
  exact List.forall_mem_map.trans hexcludes

namespace FilterData

/-- A request is answered, with the lookups as they are. -/
def serve (data : FilterData) : (c : Call Lightning) → Unit → Option (c.Reply × Unit)
  | .estimateFee _, _ => some (.ok ⟨250⟩, ())
  | .getSwapByHash _, _ => some (.ok ⟨Sample.swap, none⟩, ())
  | .getTxosForAddress _, _ =>
    some (.ok (Sample.chainDb.getTxosForAddress Sample.swap.pub.address), ())
  | .getBlockheight, _ => some (.ok 110, ())
  | .completionOrder n, _ => some (List.range n, ())
  | .getTransaction txid, _ => some (.ok (data.transactions txid), ())
  | .hasFilteredAddress addresses, _ =>
    some (.ok (decide (∃ a ∈ addresses, a ∈ data.filtered)), ())
  | .newPrivateKeys, _ => some (fun _ => .ok (.ofByte 5), ())
  | .now, _ => some (1, ())
  | _, _ => none

variable {data : FilterData}

/-- What is answered so is truthful. -/
theorem truthful_of_serve (c : Call Lightning) (s : Unit) (r : c.Reply) (s' : Unit)
    (h : data.serve c s = some (r, s')) : data.Truthful c s r s' := by
  cases c with
  | getTransaction txid =>
    intro tx htx
    have hr : Except.ok (data.transactions txid) = r := congrArg Prod.fst (Option.some.inj h)
    exact (Except.ok.inj (hr.trans htx)).symm
  | hasFilteredAddress addresses =>
    intro b hb
    have hr : Except.ok (decide (∃ a ∈ addresses, a ∈ data.filtered)) = r :=
      congrArg Prod.fst (Option.some.inj h)
    rw [← Except.ok.inj (hr.trans hb), decide_eq_true_iff]
  | _ => trivial

/-- No lookup fails. -/
theorem not_lookupFailed_of_serve {tr : Events Unit}
    {p q : Prog (Services Lightning) (Except Status PaySwapResponse)}
    (h : Runs (fun c s r s' => data.serve c s = some (r, s')) p tr q) : ¬LookupFailed tr := by
  rintro (⟨txid, e, s, s', hmem⟩ | ⟨addresses, e, s, s', hmem⟩)
  · have := congrArg Prod.fst (Option.some.inj (h.perf_of_mem _ hmem))
    cases this
  · have := congrArg Prod.fst (Option.some.inj (h.perf_of_mem _ hmem))
    cases this

end FilterData

/-- The swap is funded from an address that is not filtered. -/
def sampleFilter : FilterData where
  standard := fun _ => true
  transactions := fun txid =>
    if txid = .ofByte 2 then ⟨2, 0, [⟨⟨.ofByte 6, 0⟩, [], 0, []⟩], [⟨100000, [0x51]⟩]⟩
    else ⟨2, 0, [], [⟨200000, [0x53]⟩]⟩
  filtered := [⟨[0x52]⟩]

/-- The swap is funded by two inputs: one from a filtered address, and one whose
sender has no address. -/
def mixedFilter : FilterData where
  standard := fun script => script ≠ [0x54]
  transactions := fun txid =>
    if txid = .ofByte 2 then
      ⟨2, 0, [⟨⟨.ofByte 6, 0⟩, [], 0, []⟩, ⟨⟨.ofByte 6, 1⟩, [], 0, []⟩], [⟨100000, [0x51]⟩]⟩
    else ⟨2, 0, [], [⟨200000, [0x52]⟩, ⟨1000, [0x54]⟩]⟩
  filtered := [⟨[0x52]⟩]

/-- A server for the scripts that have addresses there. -/
def mixedServer : SwapServer :=
  { Sample.server with codec := { Sample.codec with standard := mixedFilter.standard } }

/-- A run that is about to record an attempt. -/
theorem exists_runs_lock {server : SwapServer} {data : FilterData} {outputs : List OutPoint}
    (h : lockedOutputs (Prog.play data.serve 20 () (server.paySwap Sample.payRequest).run).2
      = some outputs) :
    ∃ (tr : Events Unit) (attempt : PaymentAttempt)
      (k : Except LockSwapError Unit → Prog (Services Lightning) (Except Status PaySwapResponse)),
      Runs data.Truthful (server.paySwap Sample.payRequest).run tr
        (.call (.lockAddPaymentAttempt attempt) k) ∧ ¬LookupFailed tr ∧
        attempt.outputs = outputs := by
  obtain ⟨attempt, k, hq, houtputs⟩ := eq_call_of_lockedOutputs h
  have hserve : Runs (fun c s r s' => data.serve c s = some (r, s'))
      (server.paySwap Sample.payRequest).run _ _ :=
    Prog.runs_play (fun _ _ _ _ h => h) 20 () (server.paySwap Sample.payRequest).run
  have hrun : Runs data.Truthful (server.paySwap Sample.payRequest).run _ _ :=
    Prog.runs_play FilterData.truthful_of_serve 20 () (server.paySwap Sample.payRequest).run
  rw [hq] at hrun
  exact ⟨_, attempt, k, hrun, FilterData.not_lookupFailed_of_serve hserve, houtputs⟩

set_option maxRecDepth 4000 in
/-- A swap funded from an address that is not filtered is paid for. -/
theorem paySwap_excludesFiltered_iff_sample :
    ∃ (tr : Events Unit) (attempt : PaymentAttempt),
      attempt.outputs = [⟨.ofByte 2, 0⟩] ∧ ¬LookupFailed tr ∧
      ∃ candidates, Candidates Sample.server tr attempt.paymentHash candidates ∧
        ((∀ o ∈ attempt.outputs, ¬sampleFilter.FromFiltered o) ↔
          FilterWorks sampleFilter tr candidates ∨
            ∀ txo ∈ candidates, ¬sampleFilter.FromFiltered txo.outpoint) := by
  obtain ⟨tr, attempt, k, hrun, hlookups, houtputs⟩ : ∃ tr attempt k,
      Runs sampleFilter.Truthful (Sample.server.paySwap Sample.payRequest).run tr
        (.call (.lockAddPaymentAttempt attempt) k) ∧ ¬LookupFailed tr ∧
        attempt.outputs = [⟨.ofByte 2, 0⟩] := exists_runs_lock (by decide)
  exact ⟨tr, attempt, houtputs, hlookups, paySwap_excludesFiltered_iff rfl hrun⟩

set_option maxRecDepth 4000 in
/-- **One sender without an address lets the output through**, although another
input of its transaction spends from a filtered address and no lookup fails. -/
theorem paySwap_pays_filtered :
    ∃ (tr : Events Unit) (attempt : PaymentAttempt)
      (k : Except LockSwapError Unit → Prog (Services Lightning) (Except Status PaySwapResponse)),
      Runs mixedFilter.Truthful (mixedServer.paySwap Sample.payRequest).run tr
        (.call (.lockAddPaymentAttempt attempt) k) ∧ ¬LookupFailed tr ∧
      ∃ o ∈ attempt.outputs, mixedFilter.FromFiltered o := by
  obtain ⟨tr, attempt, k, hrun, hlookups, houtputs⟩ : ∃ tr attempt k,
      Runs mixedFilter.Truthful (mixedServer.paySwap Sample.payRequest).run tr
        (.call (.lockAddPaymentAttempt attempt) k) ∧ ¬LookupFailed tr ∧
        attempt.outputs = [⟨.ofByte 2, 0⟩] := exists_runs_lock (by decide)
  refine ⟨tr, attempt, k, hrun, hlookups, ⟨.ofByte 2, 0⟩, ?_, ⟨⟨.ofByte 6, 0⟩, [], 0, []⟩, ?_,
    ⟨[0x52]⟩, ?_, ?_⟩
  · rw [houtputs]
    exact List.mem_singleton_self _
  · exact List.mem_cons_self
  · exact List.mem_singleton_self _
  · decide

end SwapServer

end Swapd
