import Swapd.ClaimService
import Swapd.PaidOnce

/-!
# A preimage comes with a successful attempt

A result is stored in two updates: the preimage by the hash of the swap, the
success by the label of the attempt. A monitor that asks the node for a preimage
gets the label from the node, which may not know it; the preimage is then stored,
and no attempt is marked (`storedPreimage_beforeAttempt`).

Where a preimage is only ever stored with a label (`labelledResults`), every swap
with a preimage has a successful attempt. It keeps it: the result of another
attempt, or of the same one again, does not take it away, so an output that is
paid for stays so (`storedPreimage_comesWithAttempt`).
-/

namespace Swapd

open Machine (ReachableIf StepIf)

instance (db : SwapTables) (hash : PaymentHash) (point : OutPoint) :
    Decidable (db.IsPaid hash point) :=
  inferInstanceAs (Decidable (∃ pa ∈ db.paymentAttempts, pa.swapPaymentHash = hash ∧
    pa.success = some true ∧ ⟨pa.id, point⟩ ∈ db.paymentAttemptTxOutputs))

namespace World

/-- **A preimage is stored with the label** of its payment. -/
def labelledResults {N : Interface} {M : NodeModel N} (_ : ℕ) (_ : Task) :
    Call N → World M → Prop
  | .unlockAddPaymentResult _ label (.success _), _ => label ≠ ""
  | _, _ => True

/-- The steps of a run in which every preimage has its attempt. -/
def creditedSteps {N : Interface} {M : NodeModel N} (i : ℕ) (t : Task) (c : Call N)
    (w : World M) : Prop :=
  distinctNames i t c w ∧ labelledResults i t c w

instance {N : Interface} {M : NodeModel N} (i : ℕ) (t : Task) (c : Call N) (w : World M) :
    Decidable (creditedSteps i t c w) := by
  have : Decidable (labelledResults i t c w) :=
    match c with
    | .unlockAddPaymentResult _ label (.success _) => inferInstanceAs (Decidable (label ≠ ""))
    | .unlockAddPaymentResult _ _ (.failure _)
    | .getSwapByHash _ | .getSwapByAddress _ | .getSwaps _ | .getUnhandledPaymentAttempts
    | .lockAddPaymentAttempt _ | .lockSwapRefund _ _ | .unlockSwapRefund _ _
    | .getTxosForAddress _ | .getUtxos | .hasFilteredAddress _ | .getBlockheight
    | .getTransaction _ | .estimateFee _ | .now | .newPrivateKeys | .rnd32
    | .completionOrder _ | .ready | .panic | .node _ => isTrue trivial
  unfold creditedSteps
  infer_instance

variable (w : World truthfulNode)

/-- **Every preimage has its attempt.** -/
structure Credited : Prop where
  labels : w.db.labels.Nodup
  named : "" ∉ w.db.labels
  /-- What has succeeded is complete. -/
  success : ∀ row ∈ w.db.paymentAttempts, row.success = some true →
    w.node.Completed row.swapPaymentHash row.label
  credited : ∀ s ∈ w.db.swaps, s.preimage.isSome → ∃ row ∈ w.db.paymentAttempts,
    row.swapPaymentHash = s.swap.pub.hash ∧ row.success = some true

variable {w} {w' : World truthfulNode} {i : ℕ} {t : Task} {c : Call Truthful}
  {hash : PaymentHash} {label : String}

/-- A complete payment is not said to have failed. -/
theorem Justified.not_completed {error : String} {row : PaymentAttemptRow} (hw : w.Inv)
    (hlabels : w.db.labels.Nodup) (h : w.Justified hash row.label (.failure error))
    (hrow : row ∈ w.db.paymentAttempts) :
    ¬ w.node.Completed row.swapPaymentHash row.label := by
  rintro ⟨preimage, hp⟩
  rcases h with ⟨error', hp'⟩ | habsent
  · cases TruthfulState.eq_of_label hw.nodup hp hp' rfl
  · obtain rfl := habsent.orphan.recorded.hash_eq hlabels ⟨row, hrow, rfl, rfl⟩
    exact habsent.none _ hp ⟨rfl, rfl⟩

/-- **No effect takes a success away.** -/
theorem Effect.success_stays (h : w.Effect i t c w') (hw : w.Inv) (hc : w.Credited)
    {row : PaymentAttemptRow} (hrow : row ∈ w.db.paymentAttempts) (hs : row.success = some true) :
    row ∈ w'.db.paymentAttempts := by
  cases h
  case attempt => exact List.mem_append_left _ hrow
  case attemptLost => exact List.mem_append_left _ hrow
  case result hash label result hswap hj =>
    have hkept {f : PaymentAttemptRow → PaymentAttemptRow} (hf : f row = row) :
        row ∈ w.db.paymentAttempts.map f := List.mem_map.mpr ⟨row, hrow, hf⟩
    cases result with
    | success preimage =>
      refine hkept ?_
      split
      · rw [← hs]
      · rfl
    | failure error =>
      refine hkept (if_neg ?_)
      rintro rfl
      exact hj.not_completed hw hc.labels hrow (hc.success row hrow hs)
  all_goals exact hrow

/-- No effect removes an output of an attempt. -/
theorem Effect.outputs_subset (h : w.Effect i t c w') :
    w.db.paymentAttemptTxOutputs ⊆ w'.db.paymentAttemptTxOutputs := by
  cases h
  case attempt => exact List.subset_append_left _ _
  case attemptLost => exact List.subset_append_left _ _
  case result hash label result _ _ => cases result <;> exact List.Subset.refl _
  all_goals exact List.Subset.refl _

/-- **No effect takes a paid output away.** -/
theorem Effect.isPaid (h : w.Effect i t c w') (hw : w.Inv) (hc : w.Credited) {point : OutPoint}
    (hpaid : w.db.IsPaid hash point) : w'.db.IsPaid hash point := by
  obtain ⟨row, hrow, hhash, hs, hpoint⟩ := hpaid
  exact ⟨row, h.success_stays hw hc hrow hs, hhash, hs, h.outputs_subset hpoint⟩

theorem Credited.effect_success (hc : w.Credited) (hw : w.Inv) (h : w.Effect i t c w') :
    ∀ row ∈ w'.db.paymentAttempts, row.success = some true →
      w'.node.Completed row.swapPaymentHash row.label := by
  intro row hrow hs
  rcases h.success hrow hs with hrow | ⟨hash, preimage, ⟨l, hcompleted, hl⟩, hrecorded, -⟩
  · exact h.completed (hc.success row hrow hs)
  · rcases hl with rfl | hempty
    · obtain rfl := (hw.known hcompleted.known).hash_eq hc.labels hrecorded
      exact h.completed hcompleted
    · exact absurd (hempty ▸ hrecorded.mem_labels) hc.named

/-- A preimage that is stored with its label comes with its attempt. -/
theorem Credited.effect_credited (hc : w.Credited) (hw : w.Inv) (h : w.Effect i t c w')
    (hlabelled : labelledResults i t c w) :
    ∀ s ∈ w'.db.swaps, s.preimage.isSome → ∃ row ∈ w'.db.paymentAttempts,
      row.swapPaymentHash = s.swap.pub.hash ∧ row.success = some true := by
  have hold : ∀ s ∈ w.db.swaps, s.preimage.isSome → ∃ row ∈ w'.db.paymentAttempts,
      row.swapPaymentHash = s.swap.pub.hash ∧ row.success = some true := by
    intro s hs hpreimage
    obtain ⟨row, hrow, hhash, hsuccess⟩ := hc.credited s hs hpreimage
    exact ⟨row, h.success_stays hw hc hrow hsuccess, hhash, hsuccess⟩
  cases h
  case result hash label result hswap hj =>
    cases result with
    | failure error => exact hold
    | success preimage =>
      intro s hs hpreimage
      obtain ⟨s₀, hs₀, rfl⟩ := List.mem_map.mp hs
      by_cases hhash : s₀.swap.pub.hash = hash
      · rw [if_pos hhash]
        obtain ⟨l, hcompleted, rfl | hempty⟩ := hj
        · obtain ⟨row, hrow, hrowhash, rfl⟩ := hw.known hcompleted.known
          refine ⟨_, List.mem_map_of_mem hrow, ?_⟩
          rw [if_pos rfl]
          exact ⟨hrowhash.trans hhash.symm, rfl⟩
        · exact absurd hempty hlabelled
      · rw [if_neg hhash] at hpreimage ⊢
        exact hold s₀ hs₀ hpreimage
  all_goals exact hold

/-- **Every call keeps it so.** -/
theorem Credited.effect (hc : w.Credited) (hw : w.Inv) (h : w.Effect i t c w')
    (hlabelled : labelledResults i t c w) : w'.Credited where
  labels := by
    rcases h.labels with heq | ⟨a, hmay, heq⟩ <;> rw [heq]
    · exact hc.labels
    · exact List.nodup_append_comm.mp (List.nodup_cons.mpr ⟨hmay.fresh, hc.labels⟩)
  named := by
    rcases h.labels with heq | ⟨a, hmay, heq⟩ <;> rw [heq]
    · exact hc.named
    · simp [hc.named, hmay.named.symm]
  success := hc.effect_success hw h
  credited := hc.effect_credited hw h hlabelled

/-- Every move of the world keeps it so, and what is paid. -/
theorem Credited.move {m : Move truthfulNode} (hc : w.Credited) (h : w.move m = some w') :
    w'.Credited ∧ ∀ hash point, w.db.IsPaid hash point → w'.db.IsPaid hash point := by
  cases m with
  | env env =>
    obtain rfl := Option.some.inj h
    exact ⟨{ hc with }, fun _ _ => id⟩
  | node act =>
    obtain ⟨n, hact, rfl⟩ := Option.map_eq_some_iff.mp h
    exact ⟨{ hc with success := fun row hrow hs => (hc.success row hrow hs).act hact },
      fun _ _ => id⟩
  | addSwap swap =>
    simp only [World.move] at h
    split at h
    next => cases h
    next =>
      obtain rfl := Option.some.inj h
      refine ⟨{ hc with credited := fun s hs hpreimage => ?_ }, fun _ _ => id⟩
      rcases List.mem_append.mp hs with hs | hs
      · exact hc.credited s hs hpreimage
      · rw [List.mem_singleton.mp hs] at hpreimage
        cases hpreimage

/-- Requests and stops do not touch the tables, or the payments. -/
theorem Credited.of_eq (hc : w.Credited) (hdb : w'.db = w.db)
    (hpayments : w'.node.payments = w.node.payments) : w'.Credited where
  labels := hdb ▸ hc.labels
  named := hdb ▸ hc.named
  success := fun row hrow hs =>
    (hc.success row (hdb ▸ hrow) hs).imp (fun _ hp => hpayments ▸ hp)
  credited := hdb ▸ hc.credited

end World

/-! ## Runs -/

section Runs

variable {server : SwapServer}
  {S S' : (swapd truthfulNode truthfulClient server true).Config}

/-- **One step.** -/
theorem credited_step {a : (swapd truthfulNode truthfulClient server true).Action}
    (hok : (singleProcess server).Ok S) (hc : S.state.Credited)
    (hm : Machine.Meets World.creditedSteps S a) (hs : Machine.step S a = some S') :
    (singleProcess server).Ok S' ∧ S'.state.Credited ∧
      ∀ hash point, S.state.db.IsPaid hash point → S'.state.db.IsPaid hash point := by
  have hm' : Machine.Meets World.distinctNames S a := by
    cases a with
    | run i ch => exact fun t c k hT => (hm t c k hT).1
    | _ => trivial
  obtain ⟨hok', hguar⟩ := hok.step singleProcess_sound hm' hs
  refine ⟨hok', ?_⟩
  cases a with
  | run i ch =>
    have hs' := hs
    simp only [Machine.step] at hs'
    split at hs'
    case h_2 => cases hs'
    case h_1 t c k hT =>
      have heffect := hguar i ch rfl t c k hT
      exact ⟨hc.effect hok.1 heffect (hm t c k hT).2, fun _ _ => heffect.isPaid hok.1 hc⟩
  | spawn sp =>
    obtain ⟨⟨⟨t, p⟩, w'⟩, hspawn, rfl⟩ := Option.map_eq_some_iff.mp hs
    simp only at hspawn
    split at hspawn
    next =>
      cases hspawn
      have hdb : (S.state.spawned sp).db = S.state.db := by cases sp <;> rfl
      refine ⟨hc.of_eq hdb (by cases sp <;> rfl), fun _ _ hpaid => ?_⟩
      show (S.state.spawned sp).db.IsPaid _ _
      rw [hdb]
      exact hpaid
    next => cases hspawn
  | halt h =>
    obtain rfl := Option.some.inj hs
    have hdb : (S.state.stopped h).db = S.state.db := by cases h <;> rfl
    refine ⟨hc.of_eq hdb (by cases h <;> rfl), fun _ _ hpaid => ?_⟩
    show (S.state.stopped h).db.IsPaid _ _
    rw [hdb]
    exact hpaid
  | drift m =>
    obtain ⟨w', hmove, rfl⟩ := Option.map_eq_some_iff.mp hs
    exact hc.move hmove

/-- **All steps.** -/
theorem credited_steps (hok : (singleProcess server).Ok S) (hc : S.state.Credited)
    (hrun : Relation.ReflTransGen (StepIf World.creditedSteps) S S') :
    (singleProcess server).Ok S' ∧ S'.state.Credited ∧
      ∀ hash point, S.state.db.IsPaid hash point → S'.state.db.IsPaid hash point := by
  induction hrun with
  | refl => exact ⟨hok, hc, fun _ _ => id⟩
  | tail _ hstep ih =>
    obtain ⟨a, hm, hs⟩ := hstep
    obtain ⟨hok', hc', hpaid⟩ := ih
    obtain ⟨hok'', hc'', hpaid'⟩ := credited_step hok' hc' hm hs
    exact ⟨hok'', hc'', fun hash point h => hpaid' hash point (hpaid hash point h)⟩

theorem credited_reachable (h : ReachableIf World.creditedSteps
    (IsInitial truthfulNode truthfulClient server true TruthfulState.IsInitial) S) :
    (singleProcess server).Ok S ∧ S.state.Credited := by
  obtain ⟨S₀, hinit, hrun⟩ := h
  have hrows := hinit.paymentAttempts
  have hc : S₀.state.Credited := {
    labels := by simp [SwapTables.labels, hrows]
    named := by simp [SwapTables.labels, hrows]
    success := fun row hrow => by simp [hrows] at hrow
    credited := fun s hs hpreimage => by simp [hinit.unpaid s hs] at hpreimage }
  obtain ⟨hok, hc, -⟩ := credited_steps (singleProcess_initial hinit) hc hrun
  exact ⟨hok, hc⟩

/-- **A stored preimage comes with a successful attempt**, where the node and its
client answer truthfully and nothing is received from a process that is gone, in
every run in which preimages are stored with their labels; and what is paid for
stays so. -/
theorem storedPreimage_comesWithAttempt {disconnect : ℕ → TruthfulState → TruthfulState}
    (hlost : LosesSent disconnect)
    {S : (swapd (truthfulNodeWith disconnect) truthfulClient server true).Config}
    (hS : ReachableIf World.creditedSteps
      (IsInitial (truthfulNodeWith disconnect) truthfulClient server true
        TruthfulState.IsInitial) S) :
    (∀ s ∈ S.state.db.swaps, s.preimage.isSome → ∃ row ∈ S.state.db.paymentAttempts,
      row.swapPaymentHash = s.swap.pub.hash ∧ row.success = some true) ∧
    ∀ S', Relation.ReflTransGen (StepIf World.creditedSteps) S S' →
      ∀ hash point, S.state.db.IsPaid hash point → S'.state.db.IsPaid hash point := by
  obtain rfl := hlost.eq_disconnect
  obtain ⟨hok, hc⟩ := credited_reachable hS
  exact ⟨hc.credited, fun S' hrun => (credited_steps hok hc hrun).2.2⟩

end Runs

namespace Sample

/-- Where the payment of a swap leads, its preimage having been stored. -/
def credited : (swapd truthfulNode truthfulClient server true).Config :=
  Machine.after World.creditedSteps (truthfulStart true) payRun

/-- The payment completes, and the monitor asks for its preimage before the handler
has been answered. -/
def unlabelledRun : List (swapd truthfulNode truthfulClient server true).Action :=
  [.spawn (.start 1), go 0, go 0, .spawn (.pay 0 payRequest)] ++ acceptAndLock 1 ++
    [askNode 1 .absent, .drift (.node (.receive 0)), .drift (.node (.complete 0 fakePreimage)),
      .spawn (.preimage 0), go 2, go 2, go 2, askNode 2 (.unlabelled 0), go 2]

/-- Where that leads. -/
def uncredited : (swapd truthfulNode truthfulClient server true).Config :=
  Machine.after World.distinctNames (truthfulStart true) unlabelledRun

end Sample

open Sample in
set_option maxRecDepth 4000 in
theorem storedPreimage_comesWithAttempt_sample :
    credited.state.db.swaps = [⟨swap, some fakePreimage⟩] ∧
      ∀ S', Relation.ReflTransGen (StepIf World.creditedSteps) credited S' →
        S'.state.db.IsPaid swap.pub.hash output.outpoint := by
  have hreach : ReachableIf World.creditedSteps
      (IsInitial truthfulNode truthfulClient server true TruthfulState.IsInitial) credited :=
    ⟨truthfulStart true, truthfulStart_initial, Machine.reflTransGen_after _ _⟩
  refine ⟨by decide, fun S' hrun => ?_⟩
  exact (storedPreimage_comesWithAttempt (fun _ _ => rfl) hreach).2 S' hrun _ _ (by decide)

open Sample in
set_option maxRecDepth 4000 in
/-- **A preimage without an attempt**: the node does not know the label, and the
preimage is stored before the attempt is marked. -/
theorem storedPreimage_beforeAttempt : ¬ ∀ S, ReachableIf World.distinctNames
    (IsInitial truthfulNode truthfulClient server true TruthfulState.IsInitial) S →
      ∀ s ∈ S.state.db.swaps, s.preimage.isSome → ∃ row ∈ S.state.db.paymentAttempts,
        row.swapPaymentHash = s.swap.pub.hash ∧ row.success = some true := by
  intro h
  have hcredited := h uncredited
    ⟨truthfulStart true, truthfulStart_initial, Machine.reflTransGen_after _ _⟩
  exact absurd (hcredited ⟨swap, some fakePreimage⟩ (by decide) rfl) (by decide)

end Swapd
