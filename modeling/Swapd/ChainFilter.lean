import Swapd.Services

/-!
# The chain filter

Outputs funded from a filtered address are not paid out. The senders of an
output are found by asking for its transaction and for the transactions its
inputs spend, and any error on the way is an error of the whole filter.
-/

namespace Swapd

namespace ChainFilter

/-- `get_transaction`, as the filter asks for it. -/
def getTransaction (txid : Txid) : Program ChainError Transaction :=
  orFail id (Prog.perform (I := Services Lightning) (.getTransaction txid))

/-- The address an input of a funding transaction spends from. The bound
checked lets the index one past the end through, which then panics. -/
def senderAddress (standard : ScriptBuf → Bool) (vin : TxIn) :
    Program ChainError Address := do
  let txin ← getTransaction vin.previousOutput.txid
  let vout := vin.previousOutput.vout.toNat
  Prog.rejectIf (txin.output.length < vout) .general
  match txin.output[vout]? with
  | none => do
    let e : Empty ← Prog.ask (I := Services Lightning) .panic
    nomatch e
  | some txout =>
    match Address.fromScript standard txout.scriptPubkey with
    | none => throw .general
    | some address => pure address

/-- `get_sender_addresses`. -/
def getSenderAddresses (standard : ScriptBuf → Bool) (utxos : List OutPoint) :
    Program ChainError (List Address) := do
  let addresses ← utxos.mapM (fun utxo => do
    let tx ← getTransaction utxo.txid
    tx.input.mapM (senderAddress standard))
  pure addresses.flatten

/-- `should_filter_txo`. -/
def shouldFilterTxo (standard : ScriptBuf → Bool) (txo : Txo) :
    Program GeneralError Bool := do
  let senderAddresses ←
    orFail (fun _ => .general) (getSenderAddresses standard [txo.outpoint]).run
  orFail id
    (Prog.perform (I := Services Lightning) (.hasFilteredAddress senderAddresses))

/-- The loop of `filter_txos` over the completed futures. -/
def collectUnfiltered (standard : ScriptBuf → Bool) :
    List Txo → Program GeneralError (List Txo)
  | [] => pure []
  | txo :: txos => do
    let shouldFilter ← shouldFilterTxo standard txo
    let result ← collectUnfiltered standard txos
    pure (if shouldFilter then result else txo :: result)

/-- `filter_txos`: the futures complete in any order. -/
def filterTxos (standard : ScriptBuf → Bool) (txos : List Txo) :
    Program GeneralError (List Txo) := do
  let order ← Prog.ask (I := Services Lightning) (.completionOrder txos.length)
  collectUnfiltered standard (Table.permute order txos)

/-- The calls the filter makes: reads of the chain and of the filtered
addresses. -/
def IsFilterCall : Call Lightning → Prop
  | .getTransaction _ | .hasFilteredAddress _ | .completionOrder _ | .panic => True
  | _ => False

/-! ## What the filter does -/

theorem getTransaction_onlyCalls (txid : Txid) :
    (getTransaction txid).run.OnlyCalls IsFilterCall :=
  ⟨trivial, fun _ => trivial⟩

theorem senderAddress_onlyCalls (standard : ScriptBuf → Bool) (vin : TxIn) :
    (senderAddress standard vin).run.OnlyCalls IsFilterCall := by
  refine Prog.OnlyCalls.tryBind (getTransaction_onlyCalls _) (fun txin => ?_)
  refine Prog.OnlyCalls.tryBind ?_ (fun _ => ?_)
  · unfold Prog.rejectIf
    split <;> trivial
  · split
    · exact ⟨trivial, fun e => nomatch e⟩
    · split <;> trivial

theorem shouldFilterTxo_onlyCalls (standard : ScriptBuf → Bool) (txo : Txo) :
    (shouldFilterTxo standard txo).run.OnlyCalls IsFilterCall := by
  refine Prog.OnlyCalls.tryBind ?_ (fun addresses => ⟨trivial, fun _ => trivial⟩)
  refine Prog.OnlyCalls.bind (Prog.OnlyCalls.tryBind ?_ (fun _ => trivial))
    (fun _ => trivial)
  refine Prog.OnlyCalls.mapM (fun utxo => ?_) _
  exact Prog.OnlyCalls.tryBind (getTransaction_onlyCalls _)
    (fun tx => Prog.OnlyCalls.mapM (senderAddress_onlyCalls standard) _)

theorem collectUnfiltered_onlyCalls (standard : ScriptBuf → Bool) (txos : List Txo) :
    (collectUnfiltered standard txos).run.OnlyCalls IsFilterCall := by
  induction txos with
  | nil => trivial
  | cons txo txos ih =>
    exact Prog.OnlyCalls.tryBind (shouldFilterTxo_onlyCalls standard txo)
      (fun _ => Prog.OnlyCalls.tryBind ih (fun _ => trivial))

/-- The filter only reads. -/
theorem filterTxos_onlyCalls (standard : ScriptBuf → Bool) (txos : List Txo) :
    (filterTxos standard txos).run.OnlyCalls IsFilterCall :=
  ⟨trivial, fun order =>
    collectUnfiltered_onlyCalls standard (Table.permute order txos)⟩

/-- What the loop collects is a sublist of what it goes through. -/
theorem collectUnfiltered_returns (standard : ScriptBuf → Bool) (txos : List Txo) :
    (collectUnfiltered standard txos).run.Returns
      (Prog.onOutcome (fun _ => True) (fun result => result.Sublist txos)) := by
  induction txos with
  | nil => exact List.Sublist.slnil
  | cons txo txos ih =>
    refine Prog.Returns.tryBind (Prog.Returns.of_forall (fun o => ?_))
    cases o with
    | error _ => trivial
    | ok shouldFilter =>
      refine Prog.Returns.tryBind (ih.mono (fun o ho => ?_))
      cases o with
      | error _ => trivial
      | ok result =>
        cases shouldFilter with
        | true => exact List.Sublist.cons _ ho
        | false => exact List.Sublist.cons_cons _ ho

/-- **The filter invents nothing**: what it lets through is, up to order, part
of what it was given. -/
theorem filterTxos_returns (standard : ScriptBuf → Bool) (txos : List Txo) :
    (filterTxos standard txos).run.Returns
      (Prog.onOutcome (fun _ => True) (fun result => result.Subperm txos)) := by
  refine fun order => (collectUnfiltered_returns standard _).mono (fun o ho => ?_)
  cases o with
  | error _ => trivial
  | ok result => exact ho.subperm.trans (Table.permute_perm order txos).subperm

end ChainFilter

end Swapd
