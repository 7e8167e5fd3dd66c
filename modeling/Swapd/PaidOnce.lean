import Swapd.RefundExclusion

/-!
# A swap is paid once

`pay_swap` looks a swap up, finds that it has no preimage, and takes the lock
some calls later; the lock itself does not look at the preimage. In between
another handler can lock, pay, store the preimage and unlock. A second attempt
is then recorded for a swap that has been paid.

This is the only way to get there. `freshLookup` excludes it: whenever an
attempt is locked for, no preimage has been stored since its handler looked the
swap up, or the swap is still locked. In the runs that meet this condition no
attempt is recorded and no payment sent once the preimage is set, and no two
attempts of a swap succeed. The invariant behind it, `PaidOnce`, says that a
swap has at most one payment that is on its way, pending or complete, and that
it is locked for that payment until its preimage is set.
-/

namespace Swapd

open Machine (ReachableIf StepIf)

namespace World

/-- **No preimage was stored since the look-up**, unless the swap is locked. -/
def freshLookup {N : Interface} {M : NodeModel N} (i : ℕ) (_ : Task) :
    Call N → World M → Prop
  | .lockAddPaymentAttempt a, w =>
    (i, a.paymentHash) ∈ w.checked ∨ w.db.countLocks a.paymentHash > 0
  | _, _ => True

/-- The steps of a run in which a swap is paid once. -/
def paidOnceSteps {N : Interface} {M : NodeModel N} (i : ℕ) (t : Task) (c : Call N)
    (w : World M) : Prop :=
  distinctNames i t c w ∧ freshLookup i t c w

instance {N : Interface} {M : NodeModel N} (i : ℕ) (t : Task) (c : Call N) (w : World M) :
    Decidable (paidOnceSteps i t c w) := by
  have : Decidable (freshLookup i t c w) :=
    match c with
    | .lockAddPaymentAttempt _ => inferInstanceAs (Decidable (_ ∨ _))
    | .getSwapByHash _ | .getSwapByAddress _ | .getSwaps _ | .getUnhandledPaymentAttempts
    | .lockSwapRefund _ _ | .unlockAddPaymentResult _ _ _ | .unlockSwapRefund _ _
    | .getTxosForAddress _ | .getUtxos | .hasFilteredAddress _ | .getBlockheight
    | .getTransaction _ | .estimateFee _ | .now | .newPrivateKeys | .rnd32
    | .completionOrder _ | .ready | .panic | .node _ => isTrue trivial
  unfold paidOnceSteps
  infer_instance

variable (w : World truthfulNode)

/-- **A swap is paid once.** -/
structure PaidOnce : Prop where
  labels : w.db.labels.Nodup
  named : "" ∉ w.db.labels
  /-- A handler that has not sent its payment holds the lock. -/
  unsent : ∀ o ∈ w.attempts, w.Alive o.thread → o.label ∉ w.node.labels →
    w.db.PaymentLocked o.hash o.label
  /-- What is outstanding holds the lock until the preimage is set. -/
  locked : ∀ {hash label}, w.Unpaid hash → w.node.Outstanding hash label →
    w.db.PaymentLocked hash label
  /-- At most one payment is outstanding. -/
  single : ∀ {hash l l'}, w.node.Outstanding hash l → w.node.Outstanding hash l' → l = l'
  /-- A lock that is still held once the preimage is set is for what was paid. -/
  paid : ∀ {hash label}, w.db.PaymentLocked hash label →
    w.Unpaid hash ∨ w.node.Completed hash label
  /-- What has succeeded is complete, and the preimage is set. -/
  success : ∀ row ∈ w.db.paymentAttempts, row.success = some true →
    w.node.Completed row.swapPaymentHash row.label ∧ ¬ w.Unpaid row.swapPaymentHash

variable {w} {w' : World truthfulNode} {i j : ℕ} {t u : Task} {c : Call Truthful}
  {hash : PaymentHash} {label refundId : String}

/-- The lock is held for the payment that is outstanding. -/
theorem PaidOnce.eq_of_locked {l l' : String} (hp : w.PaidOnce) (hw : w.Inv)
    (hl : w.db.PaymentLocked hash l) (ho : w.node.Outstanding hash l') : l = l' := by
  rcases hp.paid hl with hunpaid | hcompleted
  · exact hw.locks.payment_unique hl (hp.locked hunpaid ho)
  · exact hp.single (Or.inr hcompleted) ho

/-- No result is stored for a payment that has not been sent. -/
theorem PaidOnce.not_justified (hp : w.PaidOnce) (hw : w.Inv) {o : OwnedAttempt}
    (ho : o ∈ w.attempts) (halive : w.Alive o.thread) (hunsent : o.label ∉ w.node.labels)
    {result : PaymentResult} : ¬ w.Justified o.hash o.label result := by
  intro hj
  cases result with
  | success preimage =>
    obtain ⟨l, hcompleted, rfl | hempty⟩ := hj
    · exact hunsent hcompleted.known.mem_labels
    · exact hp.named (hempty ▸ (hw.owned o ho).mem_labels)
  | failure error =>
    rcases hj with hfailed | habsent
    · exact hunsent hfailed.known.mem_labels
    · exact habsent.orphan.stopped o ho rfl halive

/-- A failure is not stored for a payment that is outstanding. -/
theorem Justified.not_outstanding {error : String} (hw : w.Inv)
    (h : w.Justified hash label (.failure error)) : ¬ w.node.Outstanding hash label := by
  rintro (hdue | hcompleted)
  · rcases h with ⟨error', hp⟩ | habsent
    · exact TruthfulState.not_due (p := ⟨label, hash, .failed error'⟩) hw.nodup hp nofun hdue
    · rcases hdue with hp | ⟨proc, hc⟩
      · exact habsent.none _ hp ⟨rfl, rfl⟩
      · exact habsent.orphan.received _ hc rfl
  · obtain ⟨preimage, hp⟩ := hcompleted
    rcases h with ⟨error', hp'⟩ | habsent
    · have heq := TruthfulState.eq_of_label hw.nodup hp hp' rfl
      cases heq
    · exact habsent.none _ hp ⟨rfl, rfl⟩

/-! ## What effects do to preimages and results -/

namespace Effect

/-- No effect removes a preimage. -/
theorem unpaid_of (h : w.Effect i t c w') (hu : w'.Unpaid hash) : w.Unpaid hash := by
  cases h
  case result hash' label' result _ _ =>
    cases result with
    | failure error => exact hu
    | success preimage =>
      intro s hs hhash
      have hmem := hu _ (List.mem_map_of_mem hs) (by split <;> exact hhash)
      split at hmem
      · cases hmem
      · exact hmem
  all_goals exact hu

/-- A preimage is stored with the result of a complete payment. -/
theorem unpaid_or (h : w.Effect i t c w') (hu : w.Unpaid hash) :
    w'.Unpaid hash ∨ ∃ label, w.node.Completed hash label := by
  cases h
  case result hash' label' result _ hj =>
    cases result with
    | failure error => exact Or.inl hu
    | success preimage =>
      obtain ⟨l, hcompleted, -⟩ := hj
      by_cases heq : hash = hash'
      · exact Or.inr ⟨l, heq ▸ hcompleted⟩
      · refine Or.inl (fun s hs hhash => ?_)
        obtain ⟨s₀, hs₀, rfl⟩ := List.mem_map.mp hs
        split at hhash
        next heq' => exact absurd (hhash.symm.trans heq') heq
        next hne =>
          rw [if_neg hne]
          exact hu s₀ hs₀ hhash
  all_goals exact Or.inl hu

/-- A success that is stored sets the preimage. -/
theorem not_unpaid_of_success {preimage : Preimage} (hswap : w.db.HasSwap hash) :
    ¬ World.Unpaid (recordResult hash (.success preimage)
      { w with db := SwapTables.resulted hash label (.success preimage) w.db }) hash := by
  obtain ⟨s, hs, hhash⟩ := hswap
  intro hu
  have hmem := hu _ (List.mem_map_of_mem hs) (by split <;> exact hhash)
  rw [if_pos hhash] at hmem
  cases hmem

theorem labels_subset (h : w.Effect i t c w') : w.node.labels ⊆ w'.node.labels := by
  intro l hl
  obtain ⟨hash, hk⟩ := TruthfulState.mem_labels_iff.mp hl
  refine TruthfulState.mem_labels_iff.mpr ⟨hash, hk.imp ?_ ?_⟩
  · rw [h.payments]
    exact id
  · rintro ⟨proc, hc⟩
    refine ⟨proc, ?_⟩
    cases h
    case send => exact List.mem_cons_of_mem _ hc
    all_goals exact hc

theorem outstanding (h : w.Effect i t c w') (ho : w'.node.Outstanding hash label) :
    w.node.Outstanding hash label ∨ w.Prepared i t hash label := by
  rcases ho with hdue | ⟨preimage, hp⟩
  · exact (h.due hdue).imp Or.inl id
  · exact Or.inl (Or.inr ⟨preimage, h.payments ▸ hp⟩)

theorem completed (h : w.Effect i t c w') (hc : w.node.Completed hash label) :
    w'.node.Completed hash label :=
  hc.imp (fun _ hp => h.payments ▸ hp)

/-- The labels of the rows, after an attempt has been added. -/
theorem labels (h : w.Effect i t c w') : w'.db.labels = w.db.labels ∨
    ∃ a, w.MayAttempt i a ∧ w'.db.labels = w.db.labels ++ [a.label] := by
  cases h
  case attempt n hmay => exact Or.inr ⟨_, hmay, SwapTables.labels_attempted ..⟩
  case attemptLost n hmay => exact Or.inr ⟨_, hmay, SwapTables.labels_attempted ..⟩
  case result => exact Or.inl (SwapTables.labels_resulted ..)
  all_goals exact Or.inl rfl

/-- A row is marked successful with a result, or was before. -/
theorem success (h : w.Effect i t c w') {row : PaymentAttemptRow}
    (hrow : row ∈ w'.db.paymentAttempts) (hs : row.success = some true) :
    row ∈ w.db.paymentAttempts ∨
      ∃ hash preimage, w.Justified hash row.label (.success preimage) ∧
        w.db.HasAttempt row.swapPaymentHash row.label ∧ ¬ w'.Unpaid hash := by
  cases h
  case attempt n _ =>
    rcases List.mem_append.mp hrow with hrow | hrow
    · exact Or.inl hrow
    · rw [List.mem_singleton.mp hrow] at hs
      cases hs
  case attemptLost n _ =>
    rcases List.mem_append.mp hrow with hrow | hrow
    · exact Or.inl hrow
    · rw [List.mem_singleton.mp hrow] at hs
      cases hs
  case result hash label result hswap hj =>
    cases result with
    | success preimage =>
      obtain ⟨row₀, hrow₀, rfl⟩ := List.mem_map.mp hrow
      by_cases heq : row₀.label = label
      · rw [if_pos heq]
        exact Or.inr ⟨hash, preimage, heq ▸ hj, ⟨row₀, hrow₀, rfl, rfl⟩,
          not_unpaid_of_success hswap⟩
      · rw [if_neg heq]
        exact Or.inl hrow₀
    | failure error =>
      obtain ⟨row₀, hrow₀, rfl⟩ := List.mem_map.mp hrow
      by_cases heq : row₀.label = label
      · rw [if_pos heq] at hs
        cases hs
      · rw [if_neg heq]
        exact Or.inl hrow₀
  all_goals exact Or.inl hrow

end Effect

/-! ## The invariant is kept -/

theorem PaidOnce.effect_unsent (hp : w.PaidOnce) (hw : w.Inv) (h : w.Effect i t c w') :
    ∀ o ∈ w'.attempts, w'.Alive o.thread → o.label ∉ w'.node.labels →
      w'.db.PaymentLocked o.hash o.label := by
  have hold : ∀ o ∈ w.attempts, w'.Alive o.thread → o.label ∉ w'.node.labels →
      w'.db.PaymentLocked o.hash o.label := by
    intro o ho halive hunsent
    have halive : w.Alive o.thread := halive.imp (fun _ hl => h.live ▸ hl)
    have hunsent : o.label ∉ w.node.labels := fun hl => hunsent (h.labels_subset hl)
    rcases h.paymentLocked (hp.unsent o ho halive hunsent) with hlocked | ⟨result, hj, -⟩
    · exact hlocked
    · exact absurd hj (hp.not_justified hw ho halive hunsent)
  cases h
  case attempt a n _ =>
    intro o ho halive hunsent
    rcases List.mem_cons.mp ho with rfl | ho
    · exact SwapTables.paymentLocked_attempted.mpr (Or.inr ⟨rfl, rfl⟩)
    · exact hold o ho halive hunsent
  all_goals exact hold

theorem PaidOnce.effect_locked (hp : w.PaidOnce) (hw : w.Inv) (h : w.Effect i t c w')
    (hu : w'.Unpaid hash) (ho : w'.node.Outstanding hash label) :
    w'.db.PaymentLocked hash label := by
  have hlocked : w.db.PaymentLocked hash label :=
    (h.outstanding ho).elim (hp.locked (h.unpaid_of hu))
      (fun hprep => hp.unsent _ hprep.owner ⟨_, hprep.alive⟩ hprep.unsent)
  rcases h.paymentLocked hlocked with hlocked | ⟨result, hj, -, hswap, rfl⟩
  · exact hlocked
  · cases result with
    | success preimage => exact absurd hu (Effect.not_unpaid_of_success hswap)
    | failure error =>
      rcases h.outstanding ho with ho | hprep
      · exact absurd ho (hj.not_outstanding hw)
      · exact absurd hj (hp.not_justified hw hprep.owner ⟨_, hprep.alive⟩ hprep.unsent)

theorem PaidOnce.effect_single (hp : w.PaidOnce) (hw : w.Inv) (h : w.Effect i t c w')
    {l l' : String} (ho : w'.node.Outstanding hash l) (ho' : w'.node.Outstanding hash l') :
    l = l' := by
  have hheld {l : String} (hprep : w.Prepared i t hash l) : w.db.PaymentLocked hash l :=
    hp.unsent _ hprep.owner ⟨_, hprep.alive⟩ hprep.unsent
  rcases h.outstanding ho with ho | hprep <;> rcases h.outstanding ho' with ho' | hprep'
  · exact hp.single ho ho'
  · exact (hp.eq_of_locked hw (hheld hprep') ho).symm
  · exact hp.eq_of_locked hw (hheld hprep) ho'
  · exact hw.locks.payment_unique (hheld hprep) (hheld hprep')

/-- A handler whose look-up is fresh records attempts of unpaid swaps only. -/
theorem MayAttempt.unpaid_of_fresh {a : PaymentAttempt} (hmay : w.MayAttempt i a)
    (hfresh : freshLookup i t (.lockAddPaymentAttempt a) w) : w.Unpaid a.paymentHash := by
  rcases hfresh with hchecked | hcount
  · exact hmay.unpaid hchecked
  · rw [SwapTables.countLocks_eq_zero_iff.mpr hmay.free] at hcount
    exact absurd hcount (lt_irrefl 0)

theorem PaidOnce.effect_paid (hp : w.PaidOnce) (hw : w.Inv) (h : w.Effect i t c w')
    (hfresh : freshLookup i t c w) (hl : w'.db.PaymentLocked hash label) :
    w'.Unpaid hash ∨ w'.node.Completed hash label := by
  have hold (hl : w.db.PaymentLocked hash label) :
      w'.Unpaid hash ∨ w'.node.Completed hash label := by
    rcases hp.paid hl with hu | hcompleted
    · rcases h.unpaid_or hu with hu | ⟨l, hcompleted⟩
      · exact Or.inl hu
      · exact Or.inr (h.completed (hp.eq_of_locked hw hl (Or.inr hcompleted) ▸ hcompleted))
    · exact Or.inr (h.completed hcompleted)
  cases h
  case attempt a n hmay =>
    rcases SwapTables.paymentLocked_attempted.mp hl with hl | ⟨rfl, rfl⟩
    · exact hold hl
    · exact Or.inl (hmay.unpaid_of_fresh hfresh)
  case attemptLost a n hmay =>
    rcases SwapTables.paymentLocked_attempted.mp hl with hl | ⟨rfl, rfl⟩
    · exact hold hl
    · exact Or.inl (hmay.unpaid_of_fresh hfresh)
  case lockRefund => exact hold (SwapTables.paymentLocked_insertRefundLock.mp hl)
  case result => exact hold (SwapTables.paymentLocked_resulted.mp hl).1
  case unlockRefund => exact hold (SwapTables.paymentLocked_deleteRefundLock.mp hl)
  all_goals exact hold hl

theorem PaidOnce.effect_success (hp : w.PaidOnce) (hw : w.Inv) (h : w.Effect i t c w') :
    ∀ row ∈ w'.db.paymentAttempts, row.success = some true →
      w'.node.Completed row.swapPaymentHash row.label ∧
        ¬ w'.Unpaid row.swapPaymentHash := by
  intro row hrow hs
  rcases h.success hrow hs with hrow | ⟨hash, preimage, ⟨l, hcompleted, hl⟩, hrecorded, hpaid⟩
  · obtain ⟨hcompleted, hpaid⟩ := hp.success row hrow hs
    exact ⟨h.completed hcompleted, fun hu => hpaid (h.unpaid_of hu)⟩
  · rcases hl with rfl | hempty
    · obtain rfl := (hw.known hcompleted.known).hash_eq hp.labels hrecorded
      exact ⟨h.completed hcompleted, hpaid⟩
    · exact absurd (hempty ▸ hrecorded.mem_labels) hp.named

/-- **Every call keeps it so**, where attempts are only recorded by handlers
whose look-up is fresh. -/
theorem PaidOnce.effect (hp : w.PaidOnce) (hw : w.Inv) (h : w.Effect i t c w')
    (hfresh : freshLookup i t c w) : w'.PaidOnce where
  labels := by
    rcases h.labels with heq | ⟨a, hmay, heq⟩ <;> rw [heq]
    · exact hp.labels
    · exact List.nodup_append_comm.mp (List.nodup_cons.mpr ⟨hmay.fresh, hp.labels⟩)
  named := by
    rcases h.labels with heq | ⟨a, hmay, heq⟩ <;> rw [heq]
    · exact hp.named
    · simp [hp.named, hmay.named.symm]
  unsent := hp.effect_unsent hw h
  locked := hp.effect_locked hw h
  single := hp.effect_single hw h
  paid := hp.effect_paid hw h hfresh
  success := hp.effect_success hw h

/-- Every move of the world keeps it so. -/
theorem PaidOnce.move {m : Move truthfulNode} (hp : w.PaidOnce) (h : w.move m = some w') :
    w'.PaidOnce := by
  cases m with
  | env env =>
    obtain rfl := Option.some.inj h
    exact { hp with }
  | node act =>
    obtain ⟨n, hact, rfl⟩ := Option.map_eq_some_iff.mp h
    exact { hp with
      unsent := fun o ho halive hunsent => hp.unsent o ho halive
        (fun hl => hunsent ((TruthfulState.act_labels hact).mem_iff.mpr hl))
      locked := fun hu ho => hp.locked hu (ho.of_act hact)
      single := fun ho ho' => hp.single (ho.of_act hact) (ho'.of_act hact)
      paid := fun hl => (hp.paid hl).imp id (fun hc => hc.act hact)
      success := fun row hrow hs =>
        (hp.success row hrow hs).imp (fun hc => hc.act hact) id }
  | addSwap swap =>
    simp only [World.move] at h
    split at h
    next => cases h
    next =>
      obtain rfl := Option.some.inj h
      have hunpaid {hash : PaymentHash} (hu : w.Unpaid hash) : World.Unpaid { w with
          db := { w.db with swaps := w.db.swaps ++ [⟨swap, none⟩] } } hash := by
        intro s hs hhash
        rcases List.mem_append.mp hs with hs | hs
        · exact hu s hs hhash
        · rw [List.mem_singleton.mp hs]
      have hunpaid' {hash : PaymentHash} (hu : World.Unpaid { w with
          db := { w.db with swaps := w.db.swaps ++ [⟨swap, none⟩] } } hash) : w.Unpaid hash :=
        fun s hs => hu s (List.mem_append_left _ hs)
      exact { hp with
        locked := fun hu ho => hp.locked (hunpaid' hu) ho
        paid := fun hl => (hp.paid hl).imp hunpaid id
        success := fun row hrow hs =>
          (hp.success row hrow hs).imp id (fun hnot hu => hnot (hunpaid' hu)) }

/-- Every request keeps it so. -/
theorem PaidOnce.spawned {r : Request} (hp : w.PaidOnce) (hw : w.Inv) :
    (w.spawned r).PaidOnce := by
  cases r with
  | pay proc req =>
    refine { hp with unsent := fun o ho ⟨q, halive⟩ hunsent => ?_ }
    refine hp.unsent o ho ⟨q, ?_⟩ hunsent
    rcases List.mem_cons.mp halive with heq | halive
    · have hlt := hw.attempts_lt o ho
      have := congrArg LiveHandler.thread heq
      simp only at this
      omega
    · exact halive
  | _ => exact { hp with }

/-- Stopping keeps it so: a process that is gone leaves no handler behind, so
none whose payment was lost. -/
theorem PaidOnce.stopped (hp : w.PaidOnce) (hw : w.Inv) (s : Stop) :
    (w.stopped s).PaidOnce := by
  cases s with
  | drop i =>
    exact { hp with
      unsent := fun o ho ⟨q, halive⟩ hunsent =>
        hp.unsent o ho ⟨q, List.mem_of_mem_filter halive⟩ hunsent }
  | crash proc =>
    have hsub : (w.stopped (.crash proc)).node.inflight ⊆ w.node.inflight :=
      List.filter_subset_self _
    have hout {hash : PaymentHash} {label : String}
        (ho : (w.stopped (.crash proc)).node.Outstanding hash label) :
        w.node.Outstanding hash label :=
      ho.imp (fun hd => hd.imp id (fun ⟨q, hc⟩ => ⟨q, hsub hc⟩)) id
    refine { hp with
      unsent := fun o ho ⟨q, halive⟩ hunsent => ?_
      locked := fun hu ho => hp.locked hu (hout ho)
      single := fun ho ho' => hp.single (hout ho) (hout ho') }
    obtain ⟨halive, hne⟩ := List.mem_filter.mp halive
    refine hp.unsent o ho ⟨q, halive⟩ (fun hl => hunsent ?_)
    obtain ⟨hash, hk⟩ := TruthfulState.mem_labels_iff.mp hl
    refine TruthfulState.mem_labels_iff.mpr ⟨hash, hk.imp id (fun ⟨p, hc⟩ => ⟨p, ?_⟩)⟩
    -- What is on its way was sent by the process of the handler that is alive.
    have hpq : p = q := hw.up_unique p (hw.serving_up (hw.inflight_serving _ hc)) q
      (hw.serving_up (hw.live_serving _ halive))
    exact List.mem_filter.mpr ⟨hc, by simpa [hpq] using hne⟩

end World

/-! ## Runs -/

section Runs

variable {server : SwapServer}
  {S S' : (swapd truthfulNode truthfulClient server true).Config}

/-- **One step.** -/
theorem paidOnce_step {a : (swapd truthfulNode truthfulClient server true).Action}
    (hok : (singleProcess server).Ok S) (hp : S.state.PaidOnce)
    (hm : Machine.Meets World.paidOnceSteps S a) (hs : Machine.step S a = some S') :
    (singleProcess server).Ok S' ∧ S'.state.PaidOnce ∧
      ∀ {hash label}, S.state.node.Completed hash label →
        S'.state.node.Completed hash label := by
  have hm' : Machine.Meets World.distinctNames S a := by
    cases a with
    | run i ch => exact fun t c k hT => (hm t c k hT).1
    | _ => trivial
  obtain ⟨hok', hguar⟩ := hok.step singleProcess_sound hm' hs
  refine ⟨hok', ?_⟩
  cases a with
  | run i ch =>
    have hs' := hs
    simp only [Machine.step] at hs'
    split at hs'
    case h_2 => cases hs'
    case h_1 t c k hT =>
      have heffect := hguar i ch rfl t c k hT
      exact ⟨hp.effect hok.1 heffect (hm t c k hT).2, heffect.completed⟩
  | spawn sp =>
    obtain ⟨⟨⟨t, p⟩, w'⟩, hspawn, rfl⟩ := Option.map_eq_some_iff.mp hs
    simp only at hspawn
    split at hspawn
    next =>
      cases hspawn
      exact ⟨hp.spawned hok.1, fun hc => by cases sp <;> exact hc⟩
    next => cases hspawn
  | halt h =>
    obtain rfl := Option.some.inj hs
    exact ⟨hp.stopped hok.1 h, fun hc => by cases h <;> exact hc⟩
  | drift m =>
    obtain ⟨w', hmove, rfl⟩ := Option.map_eq_some_iff.mp hs
    exact ⟨hp.move hmove, fun hc => World.fact_of_move (f := .completed _ _) (i := 0)
      (t := ⟨0, .preimage⟩) hmove hc⟩

/-- **All steps.** -/
theorem paidOnce_steps (hok : (singleProcess server).Ok S) (hp : S.state.PaidOnce)
    (hrun : Relation.ReflTransGen (StepIf World.paidOnceSteps) S S') :
    (singleProcess server).Ok S' ∧ S'.state.PaidOnce ∧
      ∀ {hash label}, S.state.node.Completed hash label →
        S'.state.node.Completed hash label := by
  induction hrun with
  | refl => exact ⟨hok, hp, id⟩
  | tail _ hstep ih =>
    obtain ⟨a, hm, hs⟩ := hstep
    obtain ⟨hok', hp', hcompleted⟩ := ih
    obtain ⟨hok'', hp'', hcompleted'⟩ := paidOnce_step hok' hp' hm hs
    exact ⟨hok'', hp'', fun hc => hcompleted' (hcompleted hc)⟩

theorem paidOnce_reachable (h : ReachableIf World.paidOnceSteps
    (IsInitial truthfulNode truthfulClient server true TruthfulState.IsInitial) S) :
    (singleProcess server).Ok S ∧ S.state.PaidOnce := by
  obtain ⟨S₀, hinit, hrun⟩ := h
  suffices hp : S₀.state.PaidOnce by
    obtain ⟨hok, hp, -⟩ := paidOnce_steps (singleProcess_initial hinit) hp hrun
    exact ⟨hok, hp⟩
  have hrows := hinit.paymentAttempts
  have hnode : S₀.state.node = ⟨[], [], [], []⟩ := hinit.node
  have hnone {hash : PaymentHash} {label : String} :
      ¬ S₀.state.node.Outstanding hash label := by
    rw [hnode]
    rintro ((h | ⟨_, h⟩) | ⟨_, h⟩) <;> cases h
  exact {
    labels := by simp [SwapTables.labels, hrows]
    named := by simp [SwapTables.labels, hrows]
    unsent := fun o ho => by simp [hinit.attempts] at ho
    locked := fun _ ho => absurd ho hnone
    single := fun ho => absurd ho hnone
    paid := fun hl => by simp [SwapTables.PaymentLocked, hinit.swapLocks] at hl
    success := fun row hrow => by simp [hrows] at hrow }

/-- A handler that is about to send a payment is prepared. -/
theorem prepared_of_sendPay (hok : (singleProcess server).Ok S) {i : ℕ} {t : Task}
    {request : PaymentRequest} (h : S.Awaits i t (.node (.sendPay request))) :
    S.state.Prepared i t request.paymentHash request.label := by
  obtain ⟨k, hT⟩ := h
  have hsafe : (singleProcess server).Safe i t _ (.call (.node (.sendPay request)) k) S.state :=
    hok.2 i _ hT
  obtain ⟨-, heffect, -⟩ := hsafe S.state (fun _ hf => hf) hok.1 trivial
    (.node .absent) () _ rfl
  generalize hw' : ({ S.state with node := { S.state.node with
    inflight := ⟨t.proc, request.label, request.paymentHash⟩ :: S.state.node.inflight } } :
      World truthfulNode) = w' at heffect
  cases heffect
  case none =>
    have := congrArg (fun w : World truthfulNode => w.node.inflight.length) hw'
    simp at this
  case send h => exact h

/-- **A paid swap is not paid again**, where the node and its client answer
truthfully and nothing is received from a process that is gone, in the runs in
which each attempt is recorded by a handler whose look-up is fresh: an attempt is
recorded only where no preimage is set, a payment is sent only where none is set,
and of the attempts of a swap at most one ever succeeds. -/
theorem paySwap_pays_once {disconnect : ℕ → TruthfulState → TruthfulState}
    (hlost : LosesSent disconnect)
    {S : (swapd (truthfulNodeWith disconnect) truthfulClient server true).Config}
    (hS : ReachableIf World.paidOnceSteps
      (IsInitial (truthfulNodeWith disconnect) truthfulClient server true
        TruthfulState.IsInitial) S) :
    (∀ i t a ch S', S.Awaits i t (.lockAddPaymentAttempt a) →
      Machine.Meets World.paidOnceSteps S (.run i ch) →
      Machine.step S (.run i ch) = some S' →
        S'.state.db = S.state.db ∨ S.state.Unpaid a.paymentHash) ∧
    (∀ i t request, S.Awaits i t (.node (.sendPay request)) →
      S.state.Unpaid request.paymentHash) ∧
    ∀ S', Relation.ReflTransGen (StepIf World.paidOnceSteps) S S' →
      S'.state.db.labels.Nodup ∧ ∀ row ∈ S.state.db.paymentAttempts,
        ∀ row' ∈ S'.state.db.paymentAttempts, row.success = some true → row'.success = some true →
        row.swapPaymentHash = row'.swapPaymentHash → row.label = row'.label := by
  obtain rfl := hlost.eq_disconnect
  obtain ⟨hok, hp⟩ := paidOnce_reachable hS
  refine ⟨fun i t a ch S' ⟨k, hT⟩ hm hs => ?_, fun i t request hT => ?_,
    fun S' hrun => ?_⟩
  · have hm' : Machine.Meets World.distinctNames S (.run i ch) :=
      fun t c k hT => (hm t c k hT).1
    have heffect := (hok.step singleProcess_sound hm' hs).2 i ch rfl t _ k hT
    have hfresh := (hm t _ k hT).2
    generalize S'.state = w' at heffect ⊢
    cases heffect with
    | none => exact Or.inl rfl
    | attempt n hmay => exact Or.inr (hmay.unpaid_of_fresh hfresh)
    | attemptLost n hmay => exact Or.inr (hmay.unpaid_of_fresh hfresh)
  · have hprep := prepared_of_sendPay hok hT
    rcases hp.paid (hp.unsent _ hprep.owner ⟨_, hprep.alive⟩ hprep.unsent) with hu | hcompleted
    · exact hu
    · exact absurd hcompleted.known.mem_labels hprep.unsent
  · obtain ⟨-, hp', hcompleted⟩ := paidOnce_steps hok hp hrun
    refine ⟨hp'.labels, fun row hrow row' hrow' hs hs' hhash => ?_⟩
    have hrow := (hp.success row hrow hs).1
    have hrow' := (hp'.success row' hrow' hs').1
    rw [hhash] at hrow
    exact hp'.single (Or.inr (hcompleted hrow)) (Or.inr hrow')

end Runs

namespace Sample

/-- The calls of a payment, from the first to the lock. -/
def acceptAndLock (i : ℕ) : List (swapd truthfulNode truthfulClient server true).Action :=
  List.replicate 11 (go i)

/-- The calls of a payment, from the lock to its result: the node receives the
payment and completes it. -/
def payAndStore (i : ℕ) : List (swapd truthfulNode truthfulClient server true).Action :=
  [askNode i .absent, .drift (.node (.receive 0)), .drift (.node (.complete 0 fakePreimage)),
    askNode i (.payment 0), go i]

/-- A process starts and pays the swap. -/
def payRun : List (swapd truthfulNode truthfulClient server true).Action :=
  [.spawn (.start 1), go 0, go 0, .spawn (.pay 0 payRequest)] ++
    acceptAndLock 1 ++ payAndStore 1

/-- Where the payment leads. -/
def paid : (swapd truthfulNode truthfulClient server true).Config :=
  Machine.after World.paidOnceSteps (truthfulStart true) payRun

/-- Two requests to pay the swap are accepted, before either of them locks it;
the second locks it when the first has been paid. -/
def payTwiceRun : List (swapd truthfulNode truthfulClient server true).Action :=
  [.spawn (.start 1), go 0, go 0, .spawn (.pay 0 payRequest), .spawn (.pay 0 payRequest)]
    ++ List.replicate 9 (go 2) ++ acceptAndLock 1 ++ payAndStore 1
    ++ [.drift (.env (env 2)), go 2]

/-- Where that leads, with the second request about to lock. -/
def acceptedTwice : (swapd truthfulNode truthfulClient server true).Config :=
  Machine.after World.distinctNames (truthfulStart true) payTwiceRun

/-- Where it leads when the second request has locked, paid and stored its
result. -/
def paidTwice : (swapd truthfulNode truthfulClient server true).Config :=
  Machine.after World.distinctNames acceptedTwice (go 2 :: payAndStore 2)

end Sample

open Sample in
set_option maxRecDepth 4000 in
theorem paySwap_pays_once_sample :
    paid.result 1 = some (.paid (.ok ⟨⟩)) ∧
      ∀ S', Relation.ReflTransGen (StepIf World.paidOnceSteps) paid S' →
        S'.state.db.labels.Nodup ∧ ∀ row ∈ paid.state.db.paymentAttempts,
          ∀ row' ∈ S'.state.db.paymentAttempts,
          row.success = some true → row'.success = some true →
          row.swapPaymentHash = row'.swapPaymentHash → row.label = row'.label :=
  ⟨by decide, (paySwap_pays_once (fun _ _ => rfl)
    ⟨truthfulStart true, truthfulStart_initial, Machine.reflTransGen_after _ _⟩).2.2⟩

open Sample in
set_option maxRecDepth 4000 in
/-- **A paid swap that is paid again.** The second request was accepted before
the first locked the swap, and locks it when the preimage has been stored; the
attempts of both succeed. -/
theorem paySwap_pays_twice :
    (acceptedTwice.state.db.swaps = [⟨swap, some fakePreimage⟩] ∧
      acceptedTwice.state.db.swapLocks = [] ∧
      (Machine.after World.distinctNames acceptedTwice [go 2]).state.db.swapLocks
        = [⟨swap.pub.hash, .payment (paymentLabel swap.pub.hash 2)⟩]) ∧
      ¬ ∀ S, ReachableIf World.distinctNames
          (IsInitial truthfulNode truthfulClient server true TruthfulState.IsInitial) S →
        ∀ row ∈ S.state.db.paymentAttempts, ∀ row' ∈ S.state.db.paymentAttempts,
          row.success = some true → row'.success = some true →
          row.swapPaymentHash = row'.swapPaymentHash → row.label = row'.label := by
  refine ⟨by decide, fun h => ?_⟩
  have hreach : ReachableIf World.distinctNames
      (IsInitial truthfulNode truthfulClient server true TruthfulState.IsInitial) paidTwice :=
    ⟨truthfulStart true, truthfulStart_initial,
      (Machine.reflTransGen_after _ payTwiceRun).trans (Machine.reflTransGen_after _ _)⟩
  exact absurd (h paidTwice hreach) (by decide)

end Swapd
