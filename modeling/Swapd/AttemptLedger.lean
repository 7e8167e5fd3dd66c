import Mathlib.Data.List.Perm.Basic
import Swapd.Serializability

/-!
# The ledger of payment attempts

What the swap tables are there for, as far as payments go: which attempts have been made,
and what has become of each. That is a ledger (`ledger`) that the calls write, one after
the other. The tables hold it, and the repository reads it back: the attempts that a
monitor looks after are those without a result (`unhandled_perm_openAttempts`), and the
attempts of a swap come with their results (`swapPaymentAttempts_perm_ledger`). Both come in
no particular order, and so do the outputs of an attempt: attempts are `SameAs` each other
if they differ in that only.
-/

namespace Swapd

open Sql

/-! ## The ledger -/

/-- An attempt as it is stored: its time is one of whole seconds. -/
def PaymentAttempt.stored (a : PaymentAttempt) : PaymentAttempt :=
  { a with creationTime := ((SystemTime.sinceEpoch a.creationTime).getD 0 / 1000000000 : ℕ) *
      1000000000 }

/-- **A call is recorded.** -/
def Sql.LockCall.record (call : LockCall) (l : List PaymentAttemptWithResult) :
    List PaymentAttemptWithResult :=
  match call with
  | .lockAddPaymentAttempt a => l ++ [⟨a.stored, none⟩]
  | .unlockAddPaymentResult _ label result =>
    l.map (fun e => if e.attempt.label = label then { e with result := some result } else e)
  | .lockSwapRefund _ _ | .unlockSwapRefund _ _ => l

/-- **The ledger** of calls that are done one after the other. -/
def ledger (calls : List LockCall) : List PaymentAttemptWithResult :=
  calls.foldl (fun l call => call.record l) []

/-- The attempts without a result. -/
def openAttempts (l : List PaymentAttemptWithResult) : List PaymentAttempt :=
  (l.filter (fun e => e.result = none)).map (fun e => e.attempt)

theorem ledger_append (calls : List LockCall) (call : LockCall) :
    ledger (calls ++ [call]) = call.record (ledger calls) := by
  rw [ledger, List.foldl_append]
  rfl

theorem mem_openAttempts {l : List PaymentAttemptWithResult} {a : PaymentAttempt} :
    a ∈ openAttempts l ↔ ⟨a, none⟩ ∈ l := by
  simp only [openAttempts, List.mem_map, List.mem_filter, decide_eq_true_eq]
  constructor
  · rintro ⟨⟨a, result⟩, ⟨hmem, rfl⟩, rfl⟩
    exact hmem
  · intro h
    exact ⟨_, ⟨h, rfl⟩, rfl⟩

/-! ## The tables hold the ledger -/

/-- An attempt with its outputs, from the tables. -/
def SwapTables.storedAttempt (t : SwapTables) (row : PaymentAttemptRow) : PaymentAttempt :=
  SwapTables.readAttempt row (t.outputsOf row.id)

/-- A row has a result, or none. -/
def PaymentAttemptRow.Has (row : PaymentAttemptRow) : Option PaymentResult → Prop
  | none => row.success = none
  | some (.success _) => row.success = some true
  | some (.failure error) => row.success = some false ∧ row.error = some error

/-- **Tables that hold a ledger.** -/
structure SwapTables.Holds (t : SwapTables) (calls : List LockCall)
    (l : List PaymentAttemptWithResult) : Prop where
  attempts : t.paymentAttempts.map t.storedAttempt = l.map (fun e => e.attempt)
  results : List.Forall₂ (fun row e => row.label = e.attempt.label ∧ row.Has e.result)
    t.paymentAttempts l
  /-- Outputs belong to attempts. -/
  outputs : ∀ o ∈ t.paymentAttemptTxOutputs, ∃ row ∈ t.paymentAttempts,
    row.id = o.paymentAttemptId
  /-- A swap is locked for what is open. -/
  locked : ∀ hash label, t.PaymentLocked hash label ↔
    ∃ a ∈ openAttempts l, a.paymentHash = hash ∧ a.label = label
  /-- One attempt is open for a swap at most. -/
  once : ((openAttempts l).map (fun a => a.paymentHash)).Nodup
  called : ∀ e ∈ l, ∃ a, .lockAddPaymentAttempt a ∈ calls ∧
    e.attempt.paymentHash = a.paymentHash ∧ e.attempt.label = a.label

variable {t t' : SwapTables} {calls : List LockCall} {call : LockCall}
  {l : List PaymentAttemptWithResult} {a : PaymentAttempt}

/-- An attempt that is locked for is recorded. -/
theorem SwapTables.Holds.attempted {n ns : ℕ} (h : t.Holds calls l)
    (hfresh : ∀ row ∈ t.paymentAttempts, row.id ≠ n)
    (hfree : ∀ lock ∈ t.swapLocks, lock.swapPaymentHash ≠ a.paymentHash)
    (hns : SystemTime.sinceEpoch a.creationTime = some ns)
    (hcall : .lockAddPaymentAttempt a ∈ calls) :
    SwapTables.Holds { SwapTables.attempted a (ns / 1000000000) { t with nextAttemptId := n } with
      nextAttemptId := 0 } calls (l ++ [⟨a.stored, none⟩]) := by
  have hnone : ∀ o ∈ t.paymentAttemptTxOutputs, ¬o.paymentAttemptId = n := by
    intro o ho hid
    obtain ⟨row, hrow, hrowId⟩ := h.outputs o ho
    exact hfresh row hrow (hrowId.trans hid)
  have hopen : openAttempts (l ++ [⟨a.stored, none⟩]) = openAttempts l ++ [a.stored] := by
    simp [openAttempts]
  have hclosed : ∀ b ∈ openAttempts l, b.paymentHash ≠ a.paymentHash := by
    intro b hb heq
    exact hfree _ ((h.locked b.paymentHash b.label).mpr ⟨b, hb, rfl, rfl⟩) heq
  refine ⟨?_, List.rel_append h.results (.cons ⟨rfl, rfl⟩ .nil), fun o ho => ?_, fun hash label => ?_, ?_,
    fun e he => ?_⟩
  · refine (List.map_append ..).trans ?_
    rw [List.map_append, ← h.attempts]
    refine congrArg₂ (· ++ ·) (List.map_congr_left (fun row hrow => ?_)) ?_
    · have hne : ¬n = row.id := fun heq => hfresh row hrow heq.symm
      simp [SwapTables.storedAttempt, SwapTables.readAttempt, SwapTables.outputsOf,
        SwapTables.attempted,
        SwapTables.insertTxOutputs, SwapTables.insertPaymentAttempt, SwapTables.insertPaymentLock,
        List.filter_append, List.filter_map, Function.comp_def, hne]
    · simpa [SwapTables.storedAttempt, SwapTables.readAttempt, SwapTables.outputsOf,
        SwapTables.attempted,
        SwapTables.insertTxOutputs, SwapTables.insertPaymentAttempt, SwapTables.insertPaymentLock,
        List.filter_append, List.filter_map, Function.comp_def, PaymentAttempt.stored, hns]
        using hnone
  · rcases List.mem_append.mp ho with ho | ho
    · obtain ⟨row, hrow, hid⟩ := h.outputs o ho
      exact ⟨row, List.mem_append_left _ hrow, hid⟩
    · obtain ⟨point, -, rfl⟩ := List.mem_map.mp ho
      exact ⟨_, List.mem_append_right _ List.mem_cons_self, rfl⟩
  · rw [hopen]
    show ⟨hash, .payment label⟩ ∈ t.swapLocks ++ [⟨a.paymentHash, .payment a.label⟩] ↔ _
    have hlocked := h.locked hash label
    unfold SwapTables.PaymentLocked at hlocked
    rw [List.mem_append, hlocked]
    simp only [List.mem_append, List.mem_singleton, or_and_right, exists_or, exists_eq_left,
      SwapLockRow.mk.injEq, SwapLock.payment.injEq]
    exact or_congr_right (and_congr eq_comm eq_comm)
  · rw [hopen, List.map_append, List.nodup_append]
    refine ⟨h.once, List.nodup_singleton _, fun x hx y hy => ?_⟩
    obtain ⟨b, hb, rfl⟩ := List.mem_map.mp hx
    obtain rfl := List.mem_singleton.mp hy
    exact hclosed b hb
  · rcases List.mem_append.mp he with he | he
    · exact h.called e he
    · obtain rfl := List.mem_singleton.mp he
      exact ⟨a, hcall, rfl, rfl⟩

/-- What is open once a label has a result. -/
theorem openAttempts_map {label : String} {result : PaymentResult} :
    openAttempts (l.map (fun e => if e.attempt.label = label then
        { e with result := some result } else e))
      = (openAttempts l).filter (fun a => a.label ≠ label) := by
  induction l with
  | nil => rfl
  | cons e l ih =>
    simp only [openAttempts, List.map_cons, List.filter_cons] at ih ⊢
    by_cases hlabel : e.attempt.label = label
    · by_cases hresult : e.result = none <;> simp [hlabel, hresult, ih]
    · by_cases hresult : e.result = none <;> simp [hlabel, hresult, ih]

/-- What is written to the attempts of a label. -/
def markResult (result : PaymentResult) (row : PaymentAttemptRow) : PaymentAttemptRow :=
  match result with
  | .success _ => { row with success := some true }
  | .failure error => { row with success := some false, error := some error }

theorem resulted_paymentAttempts (hash : PaymentHash) (label : String) (result : PaymentResult)
    (t : SwapTables) : (t.resulted hash label result).paymentAttempts
      = t.paymentAttempts.map (fun row =>
          if row.label = label then markResult result row else row) := by
  cases result <;> rfl

/-- A result is recorded. -/
theorem SwapTables.Holds.resulted {n : ℕ} {hash : PaymentHash} {label : String}
    {result : PaymentResult} (h : t.Holds calls l)
    (hown : ∀ e ∈ l, e.attempt.label = label → e.attempt.paymentHash = hash) :
    SwapTables.Holds { SwapTables.resulted hash label result { t with nextAttemptId := n } with
      nextAttemptId := 0 } calls (l.map (fun e => if e.attempt.label = label then
        { e with result := some result } else e)) := by
  have hrows : SwapTables.paymentAttempts { SwapTables.resulted hash label result
      { t with nextAttemptId := n } with nextAttemptId := 0 } = t.paymentAttempts.map (fun row =>
        if row.label = label then markResult result row else row) :=
    resulted_paymentAttempts hash label result { t with nextAttemptId := n }
  have hlocks : SwapTables.swapLocks { SwapTables.resulted hash label result
      { t with nextAttemptId := n } with nextAttemptId := 0 }
        = t.swapLocks.filter (fun lock => lock ≠ ⟨hash, .payment label⟩) :=
    SwapTables.resulted_swapLocks hash label result { t with nextAttemptId := n }
  refine ⟨?_, ?_, fun o ho => ?_, fun hash' label' => ?_, ?_, fun e he => ?_⟩
  · -- The attempts themselves are what they were.
    rw [hrows, List.map_map, List.map_map]
    refine (List.map_congr_left (fun row _ => ?_)).trans (h.attempts.trans
      (List.map_congr_left (fun e _ => ?_)))
    · rw [Function.comp_apply]
      split
      · cases result <;> rfl
      · cases result <;> rfl
    · rw [Function.comp_apply]
      split <;> rfl
  · rw [hrows, List.forall₂_map_left_iff, List.forall₂_map_right_iff]
    refine h.results.imp (fun row e hrow => ?_)
    rw [← hrow.1]
    split
    · cases result with
      | success preimage => exact ⟨hrow.1, rfl⟩
      | failure error => exact ⟨hrow.1, rfl, rfl⟩
    · exact hrow
  · have ho : o ∈ t.paymentAttemptTxOutputs := by
      cases result <;> exact ho
    obtain ⟨row, hrow, hid⟩ := h.outputs o ho
    rw [hrows]
    refine ⟨_, List.mem_map_of_mem hrow, ?_⟩
    split
    · cases result <;> exact hid
    · exact hid
  · have hlocked := h.locked hash' label'
    unfold SwapTables.PaymentLocked at hlocked ⊢
    rw [openAttempts_map, hlocks, List.mem_filter, hlocked]
    simp only [List.mem_filter, decide_eq_true_eq, ne_eq, SwapLockRow.mk.injEq,
      SwapLock.payment.injEq]
    constructor
    · rintro ⟨⟨a, ha, rfl, rfl⟩, hne⟩
      refine ⟨a, ⟨ha, fun hlabel => hne ⟨?_, hlabel⟩⟩, rfl, rfl⟩
      exact hown _ (mem_openAttempts.mp ha) hlabel
    · rintro ⟨a, ⟨ha, hlabel⟩, rfl, rfl⟩
      exact ⟨⟨a, ha, rfl, rfl⟩, fun heq => hlabel heq.2⟩
  · rw [openAttempts_map]
    exact h.once.sublist (List.filter_sublist.map _)
  · obtain ⟨e, he', rfl⟩ := List.mem_map.mp he
    obtain ⟨a, ha, hrest⟩ := h.called e he'
    refine ⟨a, ha, ?_⟩
    split <;> exact hrest

/-- What has nothing to do with attempts leaves the ledger alone. -/
theorem SwapTables.Holds.congr (h : t.Holds calls l)
    (hattempts : t'.paymentAttempts = t.paymentAttempts)
    (houtputs : t'.paymentAttemptTxOutputs = t.paymentAttemptTxOutputs)
    (hlocked : ∀ hash label, t'.PaymentLocked hash label ↔ t.PaymentLocked hash label) :
    t'.Holds calls l := by
  have hread : t'.storedAttempt = t.storedAttempt := by
    funext row
    rw [SwapTables.storedAttempt, SwapTables.storedAttempt, SwapTables.outputsOf,
      SwapTables.outputsOf, houtputs]
  exact ⟨hattempts ▸ hread ▸ h.attempts, hattempts ▸ h.results, houtputs ▸ hattempts ▸ h.outputs,
    fun hash label => (hlocked hash label).trans (h.locked hash label), h.once, h.called⟩

/-- An attempt that a result is for is one of its swap. -/
theorem SwapTables.Holds.own {hash : PaymentHash} {label : String} {result : PaymentResult}
    (h : t.Holds calls l) (hlabels : LabelsAgree calls)
    (hcall : .unlockAddPaymentResult hash label result ∈ calls) :
    ∀ e ∈ l, e.attempt.label = label → e.attempt.paymentHash = hash := by
  rintro e he rfl
  obtain ⟨a, ha, hhash, hlabel⟩ := h.called e he
  rw [hhash]
  exact (hlabels a ha _ hcall hash (by rw [← hlabel]; rfl)).symm

/-- **A call that is done is recorded.** -/
theorem SwapTables.Holds.does (h : t.Holds calls l) (hlabels : LabelsAgree calls)
    (hcall : call ∈ calls) (hdoes : call.Does t t') : t'.Holds calls (call.record l) := by
  obtain ⟨n, t'', hfresh, hok, rfl⟩ := hdoes
  cases call with
  | lockAddPaymentAttempt a =>
    obtain ⟨-, hfree, ns, hns, rfl⟩ := SwapTables.lockAddPaymentAttempt_eq_ok_iff.mp hok
    exact h.attempted hfresh hfree hns hcall
  | lockSwapRefund hash refundId =>
    obtain ⟨-, -, rfl⟩ := SwapTables.lockSwapRefund_eq_ok_iff.mp hok
    exact h.congr rfl rfl (fun hash' label => SwapTables.paymentLocked_insertRefundLock)
  | unlockAddPaymentResult hash label result =>
    obtain ⟨-, rfl⟩ := SwapTables.unlockAddPaymentResult_eq_ok_iff.mp hok
    exact h.resulted (h.own hlabels hcall)
  | unlockSwapRefund hash refundId =>
    obtain ⟨-, rfl⟩ := SwapTables.unlockSwapRefund_eq_ok_iff.mp hok
    exact h.congr rfl rfl (fun hash' label => SwapTables.paymentLocked_deleteRefundLock)

/-- **The tables hold the ledger** of the calls that are done. -/
theorem holds_of_serial {done : List (ℕ × LockCall)} (hserial : Serial t done t')
    (hattempts : t.paymentAttempts = []) (houtputs : t.paymentAttemptTxOutputs = [])
    (hlocks : t.swapLocks = []) (hlabels : LabelsAgree calls)
    (hdone : ∀ x ∈ done, x.2 ∈ calls) : t'.Holds calls (ledger (done.map Prod.snd)) := by
  induction hserial with
  | nil =>
    refine ⟨by rw [hattempts]; rfl, hattempts ▸ .nil, fun o ho => ?_, fun hash label => ?_,
      List.nodup_nil, nofun⟩
    · rw [houtputs] at ho
      cases ho
    · simp [SwapTables.PaymentLocked, hlocks, openAttempts, ledger]
  | call _ hdoes ih =>
    rw [List.forall_mem_append] at hdone
    rw [List.map_append, List.map_singleton, ledger_append]
    exact (ih hdone.1).does hlabels (hdone.2 _ (List.mem_singleton_self _)) hdoes
  | addSwap _ hfresh ih => exact (ih hdone).congr rfl rfl (fun _ _ => Iff.rfl)

/-! ## Reading back -/

/-- **The same attempt**: its outputs may come in another order. -/
def PaymentAttempt.SameAs (a b : PaymentAttempt) : Prop :=
  { a with outputs := b.outputs } = b ∧ a.outputs.Perm b.outputs

/-- The same attempt, with the same result. -/
def PaymentAttemptWithResult.SameAs (e e' : PaymentAttemptWithResult) : Prop :=
  e.attempt.SameAs e'.attempt ∧ e.result = e'.result

section Joined

variable {row : PaymentAttemptRow} {rows : List JoinedAttemptRow}
  {attempts : List PaymentAttemptRow}

theorem joinRow_ne_nil : t.joinRow row ≠ [] := by
  unfold SwapTables.joinRow
  split
  · exact List.cons_ne_nil _ _
  next h => exact fun hnil => h (List.map_eq_nil_iff.mp hnil)

theorem joinRow_label : ∀ row ∈ attempts, ∀ r ∈ t.joinRow row, r.attempt.label = row.label :=
  fun _ _ _ hr => congrArg PaymentAttemptRow.label (SwapTables.attempt_of_mem_joinRow hr)

/-- An attempt is joined to its outputs. -/
theorem filterMap_joinRow :
    (t.joinRow row).filterMap JoinedAttemptRow.outpoint = t.outputsOf row.id := by
  unfold SwapTables.joinRow
  split
  next h => exact h.symm
  next => rw [List.filterMap_map, Function.comp_def, List.filterMap_some]

/-- **An attempt is collected from the rows it is joined to**, in whatever order they
come. -/
theorem collectAttempt_of_perm (h : rows.Perm (t.joinRow row)) :
    ∃ a, SwapTables.collectAttempt rows = some a ∧ a.SameAs (t.storedAttempt row) := by
  cases rows with
  | nil => exact absurd (List.nil_perm.mp h) joinRow_ne_nil
  | cons first rows =>
    have hfirst := SwapTables.attempt_of_mem_joinRow (h.mem_iff.mp List.mem_cons_self)
    refine ⟨SwapTables.readAttempt first.attempt _, rfl, ?_, ?_⟩
    · rw [hfirst]
      rfl
    · exact (h.filterMap _).trans (.of_eq filterMap_joinRow)

end Joined

theorem PaymentAttemptRow.Has.success_iff {row : PaymentAttemptRow} {result : Option PaymentResult}
    (h : row.Has result) : row.success = none ↔ result = none := by
  cases result with
  | none => exact iff_of_true h rfl
  | some result =>
    refine iff_of_false (fun hnone => ?_) nofun
    cases result with
    | success preimage =>
      rw [show row.success = some true from h] at hnone
      cases hnone
    | failure error =>
      rw [h.1] at hnone
      cases hnone

/-- The rows without a result are the attempts that are open. -/
theorem map_filter_none {rows : List PaymentAttemptRow} {read : PaymentAttemptRow → PaymentAttempt}
    (hresults : List.Forall₂ (fun row e => row.label = e.attempt.label ∧ row.Has e.result) rows l)
    (hattempts : rows.map read = l.map (fun e => e.attempt)) :
    (rows.filter (fun row => row.success = none)).map read = openAttempts l := by
  induction hresults with
  | nil => rfl
  | @cons row e rows l hrow _ ih =>
    obtain ⟨hread, hrest⟩ := List.cons.inj hattempts
    have ih := ih hrest
    simp only [openAttempts, List.filter_cons, decide_eq_true_eq, hrow.2.success_iff] at ih ⊢
    split
    · rw [List.map_cons, List.map_cons, ih, hread]
    · exact ih

/-- A label is open once. -/
theorem SwapTables.Holds.nodup_labels (h : t.Holds calls l) (hlabels : LabelsAgree calls) :
    ((openAttempts l).map (fun a => a.label)).Nodup := by
  have honce := h.once
  rw [List.Nodup, List.pairwise_map] at honce ⊢
  refine honce.imp_of_mem (fun {a b} ha hb hne hlabel => hne ?_)
  obtain ⟨a', ha', hhash, halabel⟩ := h.called _ (mem_openAttempts.mp ha)
  obtain ⟨b', hb', hhash', hblabel⟩ := h.called _ (mem_openAttempts.mp hb)
  rw [show a.paymentHash = _ from hhash, show b.paymentHash = _ from hhash']
  refine hlabels b' hb' _ ha' _ ?_
  rw [← show b.label = b'.label from hblabel, ← hlabel, show a.label = a'.label from halabel]
  rfl

/-- **The attempts without a result are read back.** -/
theorem SwapTables.Holds.getUnhandledPaymentAttempts (h : t.Holds calls l)
    (hlabels : LabelsAgree calls) (order : QueryOrder) :
    ∃ attempts, (t.getUnhandledPaymentAttempts order).Perm attempts ∧
      List.Forall₂ PaymentAttempt.SameAs attempts (openAttempts l) := by
  have hopen := map_filter_none h.results h.attempts
  have hnodup : ((t.paymentAttempts.filter (fun row => row.success = none)).map
      (fun row => row.label)).Nodup := by
    have hlabel := h.nodup_labels hlabels
    rwa [← hopen, List.map_map] at hlabel
  have hsorted : (SwapTables.orderByCreationTime order (t.joinOutputs
      (t.paymentAttempts.filter (fun row => row.success = none)))).Perm
      (t.joinOutputs (t.paymentAttempts.filter (fun row => row.success = none))) :=
    SwapTables.orderByCreationTime_perm
  obtain ⟨groups, hperm, hgroups⟩ := Table.groupByKey_flatMap hsorted joinRow_label
    (fun row _ => joinRow_ne_nil) hnodup
  refine ⟨groups.filterMap (fun g => SwapTables.collectAttempt g.2),
    (Table.permute_perm ..).trans (hperm.filterMap _), ?_⟩
  rw [← hopen, ← List.filterMap_eq_map]
  refine List.rel_filterMap (fun g row hg => ?_) hgroups
  obtain ⟨a, ha, hsame⟩ := collectAttempt_of_perm hg
  rw [ha]
  exact .some hsame

/-- The rows of attempts are those of the ledger. -/
theorem SwapTables.Holds.rows (h : t.Holds calls l) :
    List.Forall₂ (fun row e => t.storedAttempt row = e.attempt ∧ row.Has e.result)
      t.paymentAttempts l := by
  have hattempts : List.Forall₂ (fun row e => t.storedAttempt row = PaymentAttemptWithResult.attempt e)
      t.paymentAttempts l := by
    rw [← List.forall₂_map_left_iff (f := t.storedAttempt)
      (R := fun a e => a = PaymentAttemptWithResult.attempt e), h.attempts,
      List.forall₂_map_left_iff]
    exact List.forall₂_same.mpr (fun _ _ => rfl)
  exact List.Forall₂.mp (fun _ _ hread hrow => ⟨hread, hrow.2⟩) hattempts h.results

/-! ### With their results -/

/-- **Preimages agree**: those of one swap are one. -/
def PreimagesAgree (calls : List LockCall) : Prop :=
  ∀ hash label label' preimage preimage',
    .unlockAddPaymentResult hash label (.success preimage) ∈ calls →
    .unlockAddPaymentResult hash label' (.success preimage') ∈ calls → preimage = preimage'

/-- **What has succeeded is paid**: its swap has the preimage. -/
structure SwapTables.Pays (t : SwapTables) (calls : List LockCall)
    (l : List PaymentAttemptWithResult) : Prop extends t.Holds calls l where
  swap : ∀ e ∈ l, t.HasSwap e.attempt.paymentHash
  preimages : ∀ e ∈ l, ∀ preimage, e.result = some (.success preimage) →
    ∀ s ∈ t.swaps, s.swap.pub.hash = e.attempt.paymentHash → s.preimage = some preimage
  succeeded : ∀ e ∈ l, ∀ preimage, e.result = some (.success preimage) →
    ∃ label, .unlockAddPaymentResult e.attempt.paymentHash label (.success preimage) ∈ calls

/-- A result is recorded, and what has succeeded is paid. -/
theorem SwapTables.Pays.resulted {n : ℕ} {hash : PaymentHash} {label : String}
    {result : PaymentResult} (h : t.Pays calls l)
    (hholds : SwapTables.Holds { SwapTables.resulted hash label result
      { t with nextAttemptId := n } with nextAttemptId := 0 } calls
        ((LockCall.unlockAddPaymentResult hash label result).record l))
    (hpreimages : PreimagesAgree calls)
    (hcall : .unlockAddPaymentResult hash label result ∈ calls)
    (hown : ∀ e ∈ l, e.attempt.label = label → e.attempt.paymentHash = hash) :
    SwapTables.Pays { SwapTables.resulted hash label result { t with nextAttemptId := n } with
      nextAttemptId := 0 } calls ((LockCall.unlockAddPaymentResult hash label result).record l) := by
  have hattempt (e : PaymentAttemptWithResult) : (if e.attempt.label = label then
      { e with result := some result } else e).attempt = e.attempt := by
    split <;> rfl
  refine ⟨hholds, fun e he => ?_, fun e he p hresult s hs hhash => ?_, fun e he p hresult => ?_⟩
  · obtain ⟨e, he', rfl⟩ := List.mem_map.mp he
    rw [hattempt]
    obtain ⟨s, hs, hhash⟩ := h.swap e he'
    cases result with
    | failure error => exact ⟨s, hs, hhash⟩
    | success preimage =>
      refine ⟨_, List.mem_map_of_mem hs, ?_⟩
      split <;> exact hhash
  · obtain ⟨e, he', rfl⟩ := List.mem_map.mp he
    rw [hattempt] at hhash
    cases result with
    | failure error =>
      split at hresult
      · cases hresult
      · exact h.preimages e he' p hresult s hs hhash
    | success preimage =>
      obtain ⟨s, hs', rfl⟩ := List.mem_map.mp hs
      by_cases hsame : s.swap.pub.hash = hash
      · -- The swap has got this preimage, which is the one it had.
        rw [if_pos hsame] at hhash ⊢
        refine congrArg some ?_
        split at hresult
        · exact PaymentResult.success.inj (Option.some.inj hresult)
        · obtain ⟨label', hcall'⟩ := h.succeeded e he' p hresult
          rw [← show s.swap.pub.hash = e.attempt.paymentHash from hhash, hsame] at hcall'
          exact hpreimages hash label label' preimage p hcall hcall'
      · rw [if_neg hsame] at hhash ⊢
        split at hresult
        next hlabel => exact absurd (hhash.trans (hown e he' hlabel)) hsame
        next => exact h.preimages e he' p hresult s hs' hhash
  · obtain ⟨e, he', rfl⟩ := List.mem_map.mp he
    rw [hattempt]
    split at hresult
    next hlabel =>
      obtain rfl : result = .success p := Option.some.inj hresult
      exact ⟨label, hown e he' hlabel ▸ hcall⟩
    next => exact h.succeeded e he' p hresult

/-- **A call that is done is recorded**, and what has succeeded is paid. -/
theorem SwapTables.Pays.does (h : t.Pays calls l) (hlabels : LabelsAgree calls)
    (hpreimages : PreimagesAgree calls) (hcall : call ∈ calls) (hdoes : call.Does t t') :
    t'.Pays calls (call.record l) := by
  have hholds := h.toHolds.does hlabels hcall hdoes
  obtain ⟨n, t'', hfresh, hok, rfl⟩ := hdoes
  cases call with
  | lockAddPaymentAttempt a =>
    obtain ⟨hswap, -, ns, -, rfl⟩ := SwapTables.lockAddPaymentAttempt_eq_ok_iff.mp hok
    refine ⟨hholds, fun e he => ?_, fun e he preimage hresult => ?_, fun e he preimage hresult => ?_⟩
    · rcases List.mem_append.mp he with he | he
      · exact h.swap e he
      · rw [List.mem_singleton.mp he]
        exact hswap
    · rcases List.mem_append.mp he with he | he
      · exact h.preimages e he preimage hresult
      · rw [List.mem_singleton.mp he] at hresult
        cases hresult
    · rcases List.mem_append.mp he with he | he
      · exact h.succeeded e he preimage hresult
      · rw [List.mem_singleton.mp he] at hresult
        cases hresult
  | lockSwapRefund hash refundId =>
    obtain ⟨-, -, rfl⟩ := SwapTables.lockSwapRefund_eq_ok_iff.mp hok
    exact ⟨hholds, h.swap, h.preimages, h.succeeded⟩
  | unlockAddPaymentResult hash label result =>
    obtain ⟨-, rfl⟩ := SwapTables.unlockAddPaymentResult_eq_ok_iff.mp hok
    exact h.resulted hholds hpreimages hcall (h.own hlabels hcall)
  | unlockSwapRefund hash refundId =>
    obtain ⟨-, rfl⟩ := SwapTables.unlockSwapRefund_eq_ok_iff.mp hok
    exact ⟨hholds, h.swap, h.preimages, h.succeeded⟩

theorem pays_of_serial {done : List (ℕ × LockCall)} (hserial : Serial t done t')
    (hattempts : t.paymentAttempts = []) (houtputs : t.paymentAttemptTxOutputs = [])
    (hlocks : t.swapLocks = []) (hlabels : LabelsAgree calls) (hpreimages : PreimagesAgree calls)
    (hdone : ∀ x ∈ done, x.2 ∈ calls) : t'.Pays calls (ledger (done.map Prod.snd)) := by
  induction hserial with
  | nil =>
    exact ⟨holds_of_serial (.nil t) hattempts houtputs hlocks hlabels hdone, nofun, nofun, nofun⟩
  | call _ hdoes ih =>
    rw [List.forall_mem_append] at hdone
    rw [List.map_append, List.map_singleton, ledger_append]
    exact (ih hdone.1).does hlabels hpreimages (hdone.2 _ (List.mem_singleton_self _)) hdoes
  | addSwap _ hfresh ih =>
    obtain ⟨hholds, hswap, hpaid, hsucceeded⟩ := ih hdone
    refine ⟨hholds.congr rfl rfl (fun _ _ => Iff.rfl), fun e he => ?_,
      fun e he p hresult s hs hhash => ?_, hsucceeded⟩
    · obtain ⟨s, hs, hhash⟩ := hswap e he
      exact ⟨s, List.mem_append_left _ hs, hhash⟩
    · rcases List.mem_append.mp hs with hs | hs
      · exact hpaid e he p hresult s hs hhash
      · obtain ⟨s', hs', hhash'⟩ := hswap e he
        rw [List.mem_singleton.mp hs] at hhash
        exact absurd (hhash'.trans hhash.symm) (hfresh s' hs')

/-- A computation that is done for each element. -/
theorem mapM_eq_ok {α β ε : Type} {f : α → Except ε β} {g : α → β} {xs : List α}
    (h : ∀ x ∈ xs, f x = .ok (g x)) : xs.mapM f = .ok (xs.map g) := by
  induction xs with
  | nil => rfl
  | cons x xs ih =>
    rw [List.forall_mem_cons] at h
    rw [List.mapM_cons, h.1, ih h.2]
    rfl

/-- The result of an attempt, if it can be read. -/
def resultOf (preimage : Option Preimage) (row : PaymentAttemptRow) : Option PaymentResult :=
  (SwapTables.readResult preimage row).toOption.join

/-- A result is read, if the swap has the preimage. -/
theorem readResult_eq_ok {row : PaymentAttemptRow} {result : Option PaymentResult}
    {preimage : Option Preimage} (hrow : row.Has result)
    (hpaid : ∀ p, result = some (.success p) → preimage = some p) :
    SwapTables.readResult preimage row = .ok result := by
  unfold SwapTables.readResult
  obtain _ | (p | error) := result
  · rw [show row.success = none from hrow]
  · rw [show row.success = some true from hrow, hpaid p rfl]
  · rw [hrow.1, hrow.2]
    rfl

/-- **An attempt is collected with its result.** -/
theorem collectAttemptWithResult_of_perm {row : PaymentAttemptRow} {preimage : Option Preimage}
    {rows : List (JoinedAttemptRow × Option PaymentResult)}
    (h : rows.Perm ((t.joinRow row).map (fun r => (r, resultOf preimage r.attempt)))) :
    ∃ e, SwapTables.collectAttemptWithResult rows = some e ∧
      e.SameAs ⟨t.storedAttempt row, resultOf preimage row⟩ := by
  have hrows : (rows.map Prod.fst).Perm (t.joinRow row) := by
    have hmap := h.map Prod.fst
    rwa [List.map_map, Function.comp_def, List.map_id'] at hmap
  obtain ⟨a, ha, hsame⟩ := collectAttempt_of_perm hrows
  cases rows with
  | nil => cases ha
  | cons first rows =>
    obtain ⟨r, hr, rfl⟩ := List.mem_map.mp (h.mem_iff.mp List.mem_cons_self)
    refine ⟨⟨a, resultOf preimage r.attempt⟩, ?_, hsame, ?_⟩
    · unfold SwapTables.collectAttemptWithResult
      rw [ha]
      rfl
    · rw [SwapTables.attempt_of_mem_joinRow hr]

/-- **Rows that can be read are collected** with what they are joined to, each to one
attempt with its result. -/
theorem collect_of_readResult {rows : List PaymentAttemptRow} {preimage : Option Preimage}
    (hread : ∀ row ∈ rows,
      SwapTables.readResult preimage row = .ok (resultOf preimage row))
    (hnodup : (rows.map (fun row => row.label)).Nodup) (order : QueryOrder) :
    ∃ joined attempts, (SwapTables.orderByCreationTime order (t.joinOutputs rows)).mapM (fun r => do
        let result ← SwapTables.readResult preimage r.attempt
        pure (r, result)) = (.ok joined : Except GetPaymentAttemptsError _) ∧
      ((Table.groupByKey (fun r => r.1.attempt.label) joined).filterMap
        (fun g => SwapTables.collectAttemptWithResult g.2)).Perm attempts ∧
      List.Forall₂ PaymentAttemptWithResult.SameAs attempts
        (rows.map (fun row => ⟨t.storedAttempt row, resultOf preimage row⟩)) := by
  have hsorted : (SwapTables.orderByCreationTime order (t.joinOutputs rows)).Perm
      (t.joinOutputs rows) := SwapTables.orderByCreationTime_perm
  have hjoined : ((SwapTables.orderByCreationTime order (t.joinOutputs rows)).map
        (fun r => (r, resultOf preimage r.attempt))).Perm
      (rows.flatMap (fun row =>
        (t.joinRow row).map (fun r => (r, resultOf preimage r.attempt)))) := by
    rw [← List.map_flatMap]
    exact hsorted.map _
  have hkey : ∀ row ∈ rows, ∀ r ∈ (t.joinRow row).map (fun r => (r, resultOf preimage r.attempt)),
      r.1.attempt.label = row.label := by
    intro row hrow r hr
    obtain ⟨r', hr', rfl⟩ := List.mem_map.mp hr
    exact joinRow_label row hrow r' hr'
  obtain ⟨groups, hperm, hgroups⟩ := Table.groupByKey_flatMap hjoined hkey
    (fun row _ hnil => joinRow_ne_nil (List.map_eq_nil_iff.mp hnil)) hnodup
  refine ⟨_, groups.filterMap (fun g => SwapTables.collectAttemptWithResult g.2),
    mapM_eq_ok (fun r hr => ?_), hperm.filterMap _, ?_⟩
  · rw [hread _ (SwapTables.mem_joinOutputs (hsorted.mem_iff.mp hr))]
    rfl
  · rw [← List.filterMap_eq_map]
    refine List.rel_filterMap (fun g row hg => ?_) hgroups
    obtain ⟨e, he, hsame⟩ := collectAttemptWithResult_of_perm hg
    rw [he]
    exact .some hsame

/-- The rows of a swap that has been paid can be read, and are its entries. -/
theorem SwapTables.Pays.readResult (h : t.Pays calls l) {s : SwapState} (hs : s ∈ t.swaps)
    {hash : PaymentHash} (hhash : s.swap.pub.hash = hash) :
    (∀ row ∈ t.paymentAttempts.filter (fun row => row.swapPaymentHash = hash),
        SwapTables.readResult s.preimage row = .ok (resultOf s.preimage row)) ∧
      (t.paymentAttempts.filter (fun row => row.swapPaymentHash = hash)).map
        (fun row => ⟨t.storedAttempt row, resultOf s.preimage row⟩)
          = l.filter (fun e => e.attempt.paymentHash = hash) := by
  have hpaid : ∀ e ∈ l.filter (fun e => e.attempt.paymentHash = hash), ∀ p,
      e.result = some (.success p) → s.preimage = some p := by
    intro e he p hresult
    obtain ⟨he, hehash⟩ := List.mem_filter.mp he
    exact h.preimages e he p hresult s hs (hhash.trans (of_decide_eq_true hehash).symm)
  have hfilter := List.rel_filter (p := fun row => row.swapPaymentHash = hash)
    (q := fun e => e.attempt.paymentHash = hash) (fun row e hrow => by
      have hsame : row.swapPaymentHash = e.attempt.paymentHash :=
        congrArg (fun a => a.paymentHash) hrow.1
      simp only [hsame]) h.rows
  -- Each row is read as the entry it belongs to.
  have hread : List.Forall₂ (fun row e =>
        SwapTables.readResult s.preimage row = .ok (resultOf s.preimage row) ∧
          ⟨t.storedAttempt row, resultOf s.preimage row⟩ = e)
      (t.paymentAttempts.filter (fun row => row.swapPaymentHash = hash))
      (l.filter (fun e => e.attempt.paymentHash = hash)) := by
    refine (((List.forall₂_and_left _ _).mpr ⟨hpaid, hfilter.flip⟩).flip).imp
      (fun row e hrow => ?_)
    rw [hrow.2.1, resultOf, readResult_eq_ok hrow.2.2 hrow.1]
    exact ⟨rfl, rfl⟩
  rw [List.forall₂_and_left, ← List.forall₂_map_left_iff, List.forall₂_eq_eq_eq] at hread
  exact hread

/-- **The attempts of a swap are read back**, with their results. -/
theorem SwapTables.Pays.getSwapPaymentAttempts (h : t.Pays calls l)
    (hnodup : (l.map (fun e => e.attempt.label)).Nodup) (order : QueryOrder)
    (hash : PaymentHash) :
    ∃ attempts attempts', t.getSwapPaymentAttempts order hash = .ok attempts ∧
      attempts.Perm attempts' ∧ List.Forall₂ PaymentAttemptWithResult.SameAs attempts'
        (l.filter (fun e => e.attempt.paymentHash = hash)) := by
  unfold SwapTables.getSwapPaymentAttempts
  cases hfind : t.swaps.find? (fun s => s.swap.pub.hash = hash) with
  | none =>
    have hnone : l.filter (fun e => e.attempt.paymentHash = hash) = [] := by
      refine List.filter_eq_nil_iff.mpr (fun e he hhash => ?_)
      obtain ⟨s, hs, hshash⟩ := h.swap e he
      have hne := List.find?_eq_none.mp hfind s hs
      rw [hshash] at hne
      exact hne hhash
    rw [hnone]
    exact ⟨[], [], rfl, .refl _, .nil⟩
  | some s =>
    obtain ⟨hread, hentries⟩ := h.readResult (List.mem_of_find?_eq_some hfind)
      (by simpa using List.find?_some hfind)
    have hlabels : ((l.filter (fun e => e.attempt.paymentHash = hash)).map
        (fun e => e.attempt.label)).Nodup := hnodup.sublist (List.filter_sublist.map _)
    rw [← hentries, List.map_map] at hlabels
    obtain ⟨joined, attempts, hjoined, hperm, hsame⟩ :=
      collect_of_readResult (t := t) hread hlabels order
    rw [hentries] at hsame
    refine ⟨_, attempts, ?_, (Table.permute_perm order.values _).trans hperm, hsame⟩
    show (Bind.bind (List.mapM _ _) _ : Except _ _) = _
    rw [hjoined]
    rfl

/-! ## At statement level -/

/-- The label of an attempt that a call adds. -/
def Sql.LockCall.attemptLabel : LockCall → Option String
  | .lockAddPaymentAttempt a => some a.label
  | .lockSwapRefund _ _ | .unlockAddPaymentResult _ _ _ | .unlockSwapRefund _ _ => none

theorem labels_ledger (calls : List LockCall) :
    (ledger calls).map (fun e => e.attempt.label) = calls.filterMap LockCall.attemptLabel := by
  induction calls using List.reverseRecOn with
  | nil => rfl
  | append_singleton calls call ih =>
    rw [ledger_append, List.filterMap_append, ← ih]
    cases call with
    | lockAddPaymentAttempt a => exact List.map_append
    | lockSwapRefund hash refundId => exact (List.append_nil _).symm
    | unlockAddPaymentResult hash label result =>
      refine (List.map_map ..).trans ((List.map_congr_left (fun e _ => ?_)).trans
        (List.append_nil _).symm)
      rw [Function.comp_apply]
      split <;> rfl
    | unlockSwapRefund hash refundId => exact (List.append_nil _).symm

/-- Where each call has its own label, so has each attempt of the ledger. -/
theorem nodup_labels_ledger {done : List (ℕ × LockCall)} (hnodup : (done.map Prod.fst).Nodup)
    (hdistinct : ∀ i j a b, (i, .lockAddPaymentAttempt a) ∈ done →
      (j, .lockAddPaymentAttempt b) ∈ done → a.label = b.label → i = j) :
    ((ledger (done.map Prod.snd)).map (fun e => e.attempt.label)).Nodup := by
  rw [labels_ledger, List.filterMap_map, List.Nodup, List.pairwise_filterMap]
  rw [List.Nodup, List.pairwise_map] at hnodup
  refine hnodup.imp_of_mem (fun {x y} hx hy hne label hlabel label' hlabel' heq => hne ?_)
  obtain ⟨i, call⟩ := x
  obtain ⟨j, call'⟩ := y
  cases call with
  | lockAddPaymentAttempt a =>
    cases call' with
    | lockAddPaymentAttempt b =>
      refine hdistinct i j a b hx hy ?_
      rw [Option.some.inj hlabel, Option.some.inj hlabel', heq]
    | _ => cases hlabel'
  | _ => cases hlabel

/-- **What has been done**, since the deployment started. -/
theorem done_of_reachable {S : machine.Config} (h : Machine.Reachable IsInitial S)
    (hlabels : LabelsAgree S.state.calls) :
    ∃ t done, Serial t done S.state.db.committed.toRows ∧ t.paymentAttempts = [] ∧
      t.paymentAttemptTxOutputs = [] ∧ t.swapLocks = [] ∧
      (∀ x ∈ done, x.2 ∈ S.state.calls) ∧ (done.map Prod.fst).Nodup ∧
      ∀ i call, (i, call) ∈ done ↔ S.task i = some call ∧ S.result i = some (.ok ()) := by
  have hreachable := h
  obtain ⟨S₀, hinit, hrun⟩ := h
  obtain ⟨done, hserial, hnodup, hdone⟩ := serial_of_steps ⟨S₀, hinit, .refl⟩ hrun hlabels
  have hnone (i : ℕ) : S₀.result i ≠ some (.ok ()) := by
    intro hresult
    obtain ⟨t, hT⟩ := Machine.Config.result_eq_some hresult
    rw [hinit.1] at hT
    cases hT
  have hiff (i : ℕ) (call : LockCall) : (i, call) ∈ done ↔
      S.task i = some call ∧ S.result i = some (.ok ()) := by
    rw [hdone, and_iff_left (hnone i)]
  obtain ⟨-, -, -, -, -, hlocks, hattempts, houtputs⟩ := hinit
  refine ⟨_, done, hserial, ?_, ?_, ?_, ?_, hnodup, hiff⟩
  · rw [StoredTables.toRows, hattempts, List.map_nil]
  · rw [StoredTables.toRows, houtputs, List.map_nil]
  · rw [StoredTables.toRows, hlocks, List.map_nil]
  · rintro ⟨i, call⟩ hmem
    have htask := ((hiff i call).mp hmem).1
    rw [calls_eq hreachable]
    obtain ⟨T, hT, rfl⟩ := Option.map_eq_some_iff.mp htask
    exact List.mem_map_of_mem (List.mem_of_getElem? hT)

namespace Sql.Sample

/-- Another hash. -/
def otherHash : PaymentHash := .ofByte 7

/-- An attempt for another swap, made before all others. -/
def otherAttempt : PaymentAttempt :=
  ⟨3000000000, paymentLabel otherHash 3000000000, otherHash, [⟨.ofByte 4, 0⟩, ⟨.ofByte 4, 1⟩], 2000, [], ""⟩

/-- An attempt for the first swap, once the first one has failed. -/
def nextAttempt : PaymentAttempt := ⟨6000000000, paymentLabel lockHash 6000000000, lockHash, [⟨.ofByte 2, 0⟩], 1000, [], ""⟩

/-- The calls: the first attempt fails, the others are open. -/
def attemptCalls : List LockCall :=
  [.lockAddPaymentAttempt lockAttempt, .unlockAddPaymentResult lockHash lockLabel (.failure "no route"),
    .lockAddPaymentAttempt nextAttempt, .lockAddPaymentAttempt otherAttempt]

/-- They are made one after the other, after another swap has been added. -/
def attemptRun : List machine.Action :=
  .drift (.addSwap ⟨⟨1, ⟨⟨[0]⟩, [], [], otherHash, 144, [], []⟩, ⟨.ofByte 3⟩⟩, none⟩) ::
    attemptCalls.map (fun call => .spawn call) ++ List.replicate 7 (.run 0 .succeeds) ++
    List.replicate 5 (.run 1 .succeeds) ++ List.replicate 7 (.run 2 .succeeds) ++
    List.replicate 7 (.run 3 .succeeds)

/-- Where that leads. -/
def attemptedThrice : machine.Config := Machine.after (fun _ _ _ _ => True) lockStart attemptRun

theorem attemptCalls_agree : LabelsAgree attemptCalls := by
  refine labelsAgree_of_paymentLabel (fun call hcall hash label hlabel => ?_)
  simp only [attemptCalls, List.mem_cons, List.not_mem_nil, or_false] at hcall
  rcases hcall with rfl | rfl | rfl | rfl <;> cases hlabel <;> exact ⟨_, rfl⟩

end Sql.Sample

end Swapd
