import Swapd.TruthfulNode

/-!
# What the threads of one process know of each other

Payments and refunds of a swap exclude each other, although any number of
handlers and monitors work on the same rows, any of them can be stopped at any
of its calls, and a lock is released in four places of the source. This module
has the argument that does not depend on what a thread does next.

`Effect` lists what one call of a thread may do to the world, and on what
grounds. A payment is only sent by a running handler that recorded the attempt,
for which nothing has been sent, and whose swap is still locked – or has been
paid. A result is only stored on the word of the node: the payment is complete,
or has failed, or does not exist and nobody is left to ask for it. A refund is
only unlocked by the handler that locked it, and before that handler has been
told that nothing is pending or complete.

`Inv` is what holds of the world at all times. Its heart is `covered`: as long
as a payment is on its way or pending, the swap is locked for it, or has been
paid. `Fact` lists what a thread may know of the world while it waits; that no
effect of another thread takes such knowledge away is `Effect.fact`, and it is
what the programs are proved with.
-/

namespace Swapd

namespace World

section Rows

variable {N : Interface} {M : NodeModel N} (w : World M)

/-- The handler of a payment has not been stopped. -/
def Alive (i : ℕ) : Prop := ∃ proc, (⟨i, proc⟩ : LiveHandler) ∈ w.live

/-- No preimage is stored for this hash. -/
def Unpaid (hash : PaymentHash) : Prop :=
  ∀ s ∈ w.db.swaps, s.swap.pub.hash = hash → s.preimage = none

/-- **Labels and refund ids are distinct**: the condition on the calls that
record one. -/
def distinctNames (_ : ℕ) (_ : Task) : Call N → World M → Prop
  | .lockAddPaymentAttempt a, w => a.label ∉ w.db.labels
  | .lockSwapRefund _ refundId, w => ∀ o ∈ w.refunds, o.refundId ≠ refundId
  | _, _ => True

instance (i : ℕ) (t : Task) (c : Call N) (w : World M) : Decidable (distinctNames i t c w) := by
  cases c <;> unfold distinctNames <;> infer_instance

end Rows

variable (w : World truthfulNode)

/-- The swap is locked for a payment, or has been paid. -/
def Covered (hash : PaymentHash) (label : String) : Prop :=
  w.db.PaymentLocked hash label ∨ w.node.CompleteFor hash

/-- Nobody is left to ask for the payment of a recorded attempt: its handler is
gone, and nothing is on its way. -/
structure Orphan (hash : PaymentHash) (label : String) : Prop where
  recorded : w.db.HasAttempt hash label
  stopped : ∀ o ∈ w.attempts, o.label = label → ¬ w.Alive o.thread
  received : ∀ c ∈ w.node.inflight, c.label ≠ label

/-- There is no payment with this hash and label, nor will there be. -/
structure Absent (hash : PaymentHash) (label : String) : Prop where
  orphan : w.Orphan hash label
  none : ∀ p ∈ w.node.payments, ¬ (p.hash = hash ∧ p.label = label)

/-- The handler runs, has recorded an attempt, and has not asked for its
payment. -/
structure Prepared (i : ℕ) (t : Task) (hash : PaymentHash) (label : String) : Prop where
  handler : t.job.isHandler = true
  alive : ⟨i, t.proc⟩ ∈ w.live
  owner : ⟨i, hash, label⟩ ∈ w.attempts
  unsent : label ∉ w.node.labels
  covered : w.Covered hash label

/-- The handler holds a refund lock, and has not asked the node. -/
structure Refunding (i : ℕ) (hash : PaymentHash) (refundId : String) : Prop where
  owner : ⟨i, hash, refundId⟩ ∈ w.refunds
  locked : w.db.RefundLocked hash refundId
  only : ∀ o ∈ w.refunds, o.thread = i → o = ⟨i, hash, refundId⟩
  notCleared : ∀ x ∈ w.node.cleared, x.1 ≠ i

/-- **What a result may be stored on.** -/
def Justified (hash : PaymentHash) (label : String) : PaymentResult → Prop
  | .success _ => ∃ l, w.node.Completed hash l ∧ (label = l ∨ label = "")
  | .failure _ => w.node.Failed hash label ∨ w.Absent hash label

/-- **When an attempt may be recorded**: the swap is not locked, the label is
new, and the swap had not been paid when it was looked up last. -/
structure MayAttempt (i : ℕ) (a : PaymentAttempt) : Prop where
  spawned : i < w.threads
  free : ∀ l ∈ w.db.swapLocks, l.swapPaymentHash ≠ a.paymentHash
  fresh : a.label ∉ w.db.labels
  named : a.label ≠ ""
  unpaid : (i, a.paymentHash) ∈ w.checked → w.Unpaid a.paymentHash

/-- **When a refund may be locked for.** -/
structure MayLockRefund (i : ℕ) (hash : PaymentHash) (refundId : String) : Prop where
  spawned : i < w.threads
  free : ∀ label, ¬ w.db.PaymentLocked hash label
  fresh : ∀ o ∈ w.refunds, o.refundId ≠ refundId
  idle : ∀ o ∈ w.refunds, o.thread ≠ i
  notCleared : ∀ x ∈ w.node.cleared, x.1 ≠ i

/-- No payment with this hash is pending or complete. -/
def Closed (hash : PaymentHash) : Prop :=
  ∀ p ∈ w.node.payments, p.hash = hash → ∃ error, p.status = .failed error

/-- **What serving a call of a thread does**, and on what grounds. -/
inductive Effect (i : ℕ) (t : Task) : Call Truthful → World truthfulNode → Prop where
  | none {c : Call Truthful} : Effect i t c w
  | look (hash : PaymentHash) :
    Effect i t (.getSwapByHash hash) { w with checked := (i, hash) :: w.checked }
  | attempt {a : PaymentAttempt} (n : ℕ) (h : w.MayAttempt i a) :
    Effect i t (.lockAddPaymentAttempt a)
      (recordAttempt i a { w with db := SwapTables.attempted a n w.db })
  | attemptLost {a : PaymentAttempt} (n : ℕ) (h : w.MayAttempt i a) :
    Effect i t (.lockAddPaymentAttempt a) { w with db := SwapTables.attempted a n w.db }
  | lockRefund {hash : PaymentHash} {refundId : String}
    (h : w.MayLockRefund i hash refundId) :
    Effect i t (.lockSwapRefund hash refundId) (recordRefund i hash refundId
      { w with db := SwapTables.insertRefundLock hash refundId w.db })
  | result {hash : PaymentHash} {label : String} {result : PaymentResult}
    (hswap : w.db.HasSwap hash) (h : w.Justified hash label result) :
    Effect i t (.unlockAddPaymentResult hash label result) (recordResult hash result
      { w with db := SwapTables.resulted hash label result w.db })
  | unlockRefund {hash : PaymentHash} {refundId : String}
    (h : w.Refunding i hash refundId) :
    Effect i t (.unlockSwapRefund hash refundId)
      { w with db := SwapTables.deleteRefundLock hash refundId w.db }
  | ready (hi : t.proc = i) (hup : i ∈ w.up) :
    Effect i t .ready { w with serving := t.proc :: w.serving }
  | send {request : PaymentRequest}
    (h : w.Prepared i t request.paymentHash request.label) :
    Effect i t (.node (.sendPay request)) { w with node := { w.node with
      inflight := ⟨t.proc, request.label, request.paymentHash⟩ :: w.node.inflight } }
  | answered {hash : PaymentHash} {label : String} :
    Effect i t (.node (.payResult hash label))
      { w with node := { w.node with returned := i :: w.node.returned } }
  | clear {hash : PaymentHash} {refundId : String} (h : w.Refunding i hash refundId)
    (hclosed : w.Closed hash) :
    Effect i t (.node (.hasPendingOrCompletePayment hash))
      { w with node := { w.node with cleared := (i, hash) :: w.node.cleared } }

/-- **What always holds** in a deployment of one process at a time. -/
structure Inv : Prop where
  /-- A swap locked for a payment carries no other lock. -/
  locks : w.db.LocksExclusive
  /-- The rows of one hash agree on the preimage. -/
  swaps : ∀ s ∈ w.db.swaps, ∀ s' ∈ w.db.swaps,
    s.swap.pub.hash = s'.swap.pub.hash → s.preimage = s'.preimage
  /-- What is on its way or pending is covered. -/
  covered : ∀ {hash label}, w.node.Due hash label → w.Covered hash label
  /-- A label names one payment. -/
  nodup : w.node.labels.Nodup
  /-- What the node knows is recorded. -/
  known : ∀ {hash label}, w.node.Known hash label → w.db.HasAttempt hash label
  /-- What a handler remembers is recorded. -/
  owned : ∀ o ∈ w.attempts, w.db.HasAttempt o.hash o.label
  /-- A label names one attempt. -/
  owners : ∀ o ∈ w.attempts, ∀ o' ∈ w.attempts, o.label = o'.label → o = o'
  attempts_lt : ∀ o ∈ w.attempts, o.thread < w.threads
  refunds_lt : ∀ o ∈ w.refunds, o.thread < w.threads
  cleared_lt : ∀ x ∈ w.node.cleared, x.1 < w.threads
  up_lt : ∀ p ∈ w.up, p < w.threads
  /-- There is one process at a time. -/
  up_unique : ∀ p ∈ w.up, ∀ q ∈ w.up, p = q
  serving_up : w.serving ⊆ w.up
  live_serving : ∀ h ∈ w.live, h.proc ∈ w.serving
  inflight_serving : ∀ c ∈ w.node.inflight, c.proc ∈ w.serving
  /-- A refund id names one refund. -/
  refundIds : ∀ o ∈ w.refunds, ∀ o' ∈ w.refunds, o.refundId = o'.refundId → o = o'
  /-- **A refund that was cleared** is locked, and its swap is quiet. -/
  quiet : ∀ o ∈ w.refunds, (o.thread, o.hash) ∈ w.node.cleared →
    w.db.RefundLocked o.hash o.refundId ∧ w.node.Quiet o.hash

variable {w} {w' : World truthfulNode} {i j : ℕ} {t u : Task} {c : Call Truthful}
  {hash : PaymentHash} {label refundId : String}

/-! ## What an effect leaves alone -/

namespace Effect

theorem threads (h : w.Effect i t c w') : w'.threads = w.threads := by
  cases h <;> rfl

theorem live (h : w.Effect i t c w') : w'.live = w.live := by
  cases h <;> rfl

theorem up (h : w.Effect i t c w') : w'.up = w.up := by
  cases h <;> rfl

/-- No call of a thread touches a payment. -/
theorem payments (h : w.Effect i t c w') : w'.node.payments = w.node.payments := by
  cases h <;> rfl

theorem attempts_subset (h : w.Effect i t c w') : w.attempts ⊆ w'.attempts := by
  cases h
  case attempt => exact List.subset_cons_self ..
  all_goals exact List.Subset.refl _

theorem refunds_subset (h : w.Effect i t c w') : w.refunds ⊆ w'.refunds := by
  cases h
  case lockRefund => exact List.subset_cons_self ..
  all_goals exact List.Subset.refl _

theorem cleared_subset (h : w.Effect i t c w') : w.node.cleared ⊆ w'.node.cleared := by
  cases h
  case clear => exact List.subset_cons_self ..
  all_goals exact List.Subset.refl _

theorem serving_subset (h : w.Effect i t c w') : w.serving ⊆ w'.serving := by
  cases h
  case ready => exact List.subset_cons_self ..
  all_goals exact List.Subset.refl _

theorem hasAttempt (h : w.Effect i t c w') (ha : w.db.HasAttempt hash label) :
    w'.db.HasAttempt hash label := by
  cases h
  case attempt => exact SwapTables.hasAttempt_attempted.mpr (Or.inl ha)
  case attemptLost => exact SwapTables.hasAttempt_attempted.mpr (Or.inl ha)
  case result => exact ha.resulted
  all_goals exact ha

/-! ## What an effect changes -/

/-- What is on its way was sent by a handler that was prepared. -/
theorem mem_inflight {m : SentCall} (h : w.Effect i t c w') (hm : m ∈ w'.node.inflight) :
    m ∈ w.node.inflight ∨ (m.proc = t.proc ∧ w.Prepared i t m.hash m.label) := by
  cases h
  case send hp =>
    rcases List.mem_cons.mp hm with rfl | hm
    · exact Or.inr ⟨rfl, hp⟩
    · exact Or.inl hm
  all_goals exact Or.inl hm

/-- What a handler remembers to have recorded is new. -/
theorem mem_attempts {o : OwnedAttempt} (h : w.Effect i t c w') (ho : o ∈ w'.attempts) :
    o ∈ w.attempts ∨
      (o.thread = i ∧ i < w.threads ∧ o.label ∉ w.db.labels ∧ w'.db.HasAttempt o.hash o.label) := by
  cases h
  case attempt a n hmay =>
    rcases List.mem_cons.mp ho with rfl | ho
    · exact Or.inr ⟨rfl, hmay.spawned, hmay.fresh,
        SwapTables.hasAttempt_attempted.mpr (Or.inr ⟨rfl, rfl⟩)⟩
    · exact Or.inl ho
  all_goals exact Or.inl ho

/-- A refund is new to the handler that locks for it. -/
theorem mem_refunds {o : OwnedRefund} (h : w.Effect i t c w') (ho : o ∈ w'.refunds) :
    o ∈ w.refunds ∨ (o.thread = i ∧ w.MayLockRefund i o.hash o.refundId) := by
  cases h
  case lockRefund hmay =>
    rcases List.mem_cons.mp ho with rfl | ho
    · exact Or.inr ⟨rfl, hmay⟩
    · exact Or.inl ho
  all_goals exact Or.inl ho

/-- A refund is cleared while it is locked, and nothing pending or complete. -/
theorem mem_cleared {x : ℕ × PaymentHash} (h : w.Effect i t c w')
    (hx : x ∈ w'.node.cleared) :
    x ∈ w.node.cleared ∨
      (x.1 = i ∧ (∃ refundId, w.Refunding i x.2 refundId) ∧ w.Closed x.2 ∧
        w'.db = w.db ∧ w'.node.inflight = w.node.inflight ∧ w'.refunds = w.refunds) := by
  cases h
  case clear hr hclosed =>
    rcases List.mem_cons.mp hx with rfl | hx
    · exact Or.inr ⟨rfl, ⟨_, hr⟩, hclosed, rfl, rfl, rfl⟩
    · exact Or.inl hx
  all_goals exact Or.inl hx

theorem mem_serving {p : ℕ} (h : w.Effect i t c w') (hp : p ∈ w'.serving) :
    p ∈ w.serving ∨ (p = i ∧ i ∈ w.up) := by
  cases h
  case ready hi hup =>
    rcases List.mem_cons.mp hp with rfl | hp
    · exact Or.inr ⟨hi, hup⟩
    · exact Or.inl hp
  all_goals exact Or.inl hp

/-- A payment lock is released with a result. -/
theorem paymentLocked (h : w.Effect i t c w') (hl : w.db.PaymentLocked hash label) :
    w'.db.PaymentLocked hash label ∨ ∃ result, w.Justified hash label result ∧
      c = .unlockAddPaymentResult hash label result ∧ w.db.HasSwap hash ∧
      w' = recordResult hash result
        { w with db := SwapTables.resulted hash label result w.db } := by
  cases h
  case attempt => exact Or.inl (SwapTables.paymentLocked_attempted.mpr (Or.inl hl))
  case attemptLost => exact Or.inl (SwapTables.paymentLocked_attempted.mpr (Or.inl hl))
  case lockRefund => exact Or.inl (SwapTables.paymentLocked_insertRefundLock.mpr hl)
  case unlockRefund => exact Or.inl (SwapTables.paymentLocked_deleteRefundLock.mpr hl)
  case result hash' label' result hswap hj =>
    by_cases heq : hash = hash' ∧ label = label'
    · obtain ⟨rfl, rfl⟩ := heq
      exact Or.inr ⟨result, hj, rfl, hswap, rfl⟩
    · exact Or.inl (SwapTables.paymentLocked_resulted.mpr ⟨hl, heq⟩)
  all_goals exact Or.inl hl

/-- A refund lock is released by the handler that holds it. -/
theorem refundLocked (h : w.Effect i t c w') (hl : w.db.RefundLocked hash refundId) :
    w'.db.RefundLocked hash refundId ∨ w.Refunding i hash refundId := by
  cases h
  case attempt => exact Or.inl (SwapTables.refundLocked_attempted.mpr hl)
  case attemptLost => exact Or.inl (SwapTables.refundLocked_attempted.mpr hl)
  case lockRefund => exact Or.inl (SwapTables.refundLocked_insertRefundLock.mpr (Or.inl hl))
  case result => exact Or.inl (SwapTables.refundLocked_resulted.mpr hl)
  case unlockRefund hash' refundId' hr =>
    by_cases heq : hash = hash' ∧ refundId = refundId'
    · obtain ⟨rfl, rfl⟩ := heq
      exact Or.inr hr
    · exact Or.inl (SwapTables.refundLocked_deleteRefundLock.mpr ⟨hl, heq⟩)
  all_goals exact Or.inl hl

end Effect

/-! ## The invariant is kept -/

/-- What has been settled by a result was not due, unless it has been paid. -/
theorem Justified.completeFor {result : PaymentResult} (hw : w.Inv)
    (h : w.Justified hash label result)
    (hdue : w.node.Due hash label ∨ w.Prepared i t hash label) :
    w.node.CompleteFor hash := by
  cases result with
  | success preimage =>
    obtain ⟨l, hl, -⟩ := h
    exact ⟨l, hl⟩
  | failure error =>
    rcases h with hfailed | habsent
    · rcases hdue with hdue | hprepared
      · obtain ⟨error', hp⟩ := hfailed
        exact absurd hdue (TruthfulState.not_due (p := ⟨label, hash, .failed error'⟩)
          hw.nodup hp nofun)
      · exact absurd hfailed.known.mem_labels hprepared.unsent
    · rcases hdue with (hp | ⟨proc, hc⟩) | hprepared
      · exact absurd ⟨rfl, rfl⟩ (habsent.none _ hp)
      · exact absurd rfl (habsent.orphan.received _ hc)
      · exact absurd ⟨_, hprepared.alive⟩ (habsent.orphan.stopped _ hprepared.owner rfl)

/-- What is due, or about to be, stays covered. -/
theorem Effect.covered (hw : w.Inv) (h : w.Effect i t c w')
    (hdue : w.node.Due hash label ∨ w.Prepared j u hash label)
    (hc : w.Covered hash label) : w'.Covered hash label := by
  have hpaid (hc : w.node.CompleteFor hash) : w'.Covered hash label := by
    refine Or.inr ?_
    unfold TruthfulState.CompleteFor TruthfulState.Completed
    rw [h.payments]
    exact hc
  rcases hc with hlocked | hcomplete
  · rcases h.paymentLocked hlocked with hlocked | ⟨result, hj, -⟩
    · exact Or.inl hlocked
    · exact hpaid (hj.completeFor hw hdue)
  · exact hpaid hcomplete

/-- What is due after an effect was due, or about to be. -/
theorem Effect.due (h : w.Effect i t c w') (hdue : w'.node.Due hash label) :
    w.node.Due hash label ∨ w.Prepared i t hash label := by
  rcases hdue with hp | ⟨proc, hc⟩
  · exact Or.inl (Or.inl (h.payments ▸ hp))
  · rcases h.mem_inflight hc with hc | ⟨-, hprepared⟩
    · exact Or.inl (Or.inr ⟨proc, hc⟩)
    · exact Or.inr hprepared

/-- What a node knows after an effect it knew, or was about to. -/
theorem Effect.known (h : w.Effect i t c w') (hk : w'.node.Known hash label) :
    w.node.Known hash label ∨ w.Prepared i t hash label := by
  rcases hk with ⟨status, hp⟩ | ⟨proc, hc⟩
  · exact Or.inl (Or.inl ⟨status, h.payments ▸ hp⟩)
  · rcases h.mem_inflight hc with hc | ⟨-, hprepared⟩
    · exact Or.inl (Or.inr ⟨proc, hc⟩)
    · exact Or.inr hprepared

theorem Quiet.not_completeFor {s : TruthfulState} (h : s.Quiet hash) :
    ¬ s.CompleteFor hash := by
  rintro ⟨l, preimage, hp⟩
  obtain ⟨error, herror⟩ := h.2 _ hp rfl
  cases herror

/-- **Refund-locked and closed is quiet**: nothing can be on its way, since it
would be covered. -/
theorem Inv.quiet_of_closed (hw : w.Inv) (hlocked : w.db.RefundLocked hash refundId)
    (hclosed : w.Closed hash) : w.node.Quiet hash := by
  refine ⟨fun c hc hhash => ?_, hclosed⟩
  subst hhash
  have hdue : w.node.Due c.hash c.label := Or.inr ⟨c.proc, hc⟩
  rcases hw.covered hdue with hpay | ⟨l, preimage, hp⟩
  · exact hw.locks.not_both hpay hlocked
  · obtain ⟨error, herror⟩ := hclosed _ hp rfl
    cases herror

/-- Quiet stays quiet while the refund lock is held. -/
theorem Effect.quiet (hw : w.Inv) (h : w.Effect i t c w')
    (hlocked : w.db.RefundLocked hash refundId) (hq : w.node.Quiet hash) :
    w'.node.Quiet hash := by
  refine ⟨fun c hc hhash => ?_, fun p hp => hq.2 p (h.payments ▸ hp)⟩
  rcases h.mem_inflight hc with hc | ⟨-, hprepared⟩
  · exact hq.1 c hc hhash
  · subst hhash
    rcases hprepared.covered with hpay | hcomplete
    · exact hw.locks.not_both hpay hlocked
    · exact Quiet.not_completeFor hq hcomplete

theorem Inv.effect_locks (hw : w.Inv) (h : w.Effect i t c w') : w'.db.LocksExclusive := by
  cases h
  case attempt hmay => exact hw.locks.attempted _ hmay.free
  case attemptLost hmay => exact hw.locks.attempted _ hmay.free
  case lockRefund hmay => exact hw.locks.insertRefundLock _ hmay.free
  case result hash label result _ _ =>
    have hlocks := SwapTables.resulted_swapLocks hash label result w.db
    exact hw.locks.of_subset (hlocks ▸ List.filter_subset_self _)
  case unlockRefund => exact hw.locks.of_subset (List.filter_subset_self _)
  all_goals exact hw.locks

theorem Inv.effect_swaps (hw : w.Inv) (h : w.Effect i t c w') :
    ∀ s ∈ w'.db.swaps, ∀ s' ∈ w'.db.swaps,
      s.swap.pub.hash = s'.swap.pub.hash → s.preimage = s'.preimage := by
  cases h
  case result hash label result _ hj =>
    cases result with
    | failure error => exact hw.swaps
    | success preimage =>
      intro s₁ h₁ s₂ h₂ heq
      obtain ⟨s₁, hs₁, rfl⟩ := List.mem_map.mp h₁
      obtain ⟨s₂, hs₂, rfl⟩ := List.mem_map.mp h₂
      have hpub (s : SwapState) : (if s.swap.pub.hash = hash then
          { s with preimage := some preimage } else s).swap = s.swap := by
        split <;> rfl
      rw [hpub, hpub] at heq
      rw [heq]
      split
      · rfl
      · exact hw.swaps s₁ hs₁ s₂ hs₂ heq
  all_goals exact hw.swaps

theorem Inv.effect_nodup (hw : w.Inv) (h : w.Effect i t c w') : w'.node.labels.Nodup := by
  cases h
  case send request hprepared =>
    exact (List.perm_middle.nodup_iff).mpr
      (List.nodup_cons.mpr ⟨hprepared.unsent, hw.nodup⟩)
  all_goals exact hw.nodup

theorem Inv.effect_owners (hw : w.Inv) (h : w.Effect i t c w') :
    ∀ o ∈ w'.attempts, ∀ o' ∈ w'.attempts, o.label = o'.label → o = o' := by
  have hnew {o o' : OwnedAttempt} (ho' : o' ∈ w.attempts) (hfresh : o.label ∉ w.db.labels) :
      o.label ≠ o'.label := fun heq => hfresh (heq ▸ (hw.owned o' ho').mem_labels)
  cases h
  case attempt a n hmay =>
    intro o ho o' ho' heq
    rcases List.mem_cons.mp ho with rfl | ho <;> rcases List.mem_cons.mp ho' with rfl | ho'
    · rfl
    · exact absurd heq (hnew ho' hmay.fresh)
    · exact absurd heq.symm (hnew ho hmay.fresh)
    · exact hw.owners o ho o' ho' heq
  all_goals exact hw.owners

theorem Inv.effect_refundIds (hw : w.Inv) (h : w.Effect i t c w') :
    ∀ o ∈ w'.refunds, ∀ o' ∈ w'.refunds, o.refundId = o'.refundId → o = o' := by
  cases h
  case lockRefund hash refundId hmay =>
    intro o ho o' ho' heq
    rcases List.mem_cons.mp ho with rfl | ho <;> rcases List.mem_cons.mp ho' with rfl | ho'
    · rfl
    · exact absurd heq.symm (hmay.fresh o' ho')
    · exact absurd heq (hmay.fresh o ho)
    · exact hw.refundIds o ho o' ho' heq
  all_goals exact hw.refundIds

/-- **A cleared refund stays locked and quiet.** -/
theorem Inv.effect_quiet (hw : w.Inv) (h : w.Effect i t c w') :
    ∀ o ∈ w'.refunds, (o.thread, o.hash) ∈ w'.node.cleared →
      w'.db.RefundLocked o.hash o.refundId ∧ w'.node.Quiet o.hash := by
  intro o ho hx
  rcases h.mem_cleared hx with hx | ⟨hi, ⟨refundId, hr⟩, hclosed, hdb, hinflight, hrefunds⟩
  · rcases h.mem_refunds ho with ho | ⟨hi, hmay⟩
    · obtain ⟨hlocked, hq⟩ := hw.quiet o ho hx
      refine ⟨?_, h.quiet hw hlocked hq⟩
      rcases h.refundLocked hlocked with hlocked | hr
      · exact hlocked
      · have heq := hw.refundIds o ho _ hr.owner rfl
        exact absurd (congrArg OwnedRefund.thread heq) (hr.notCleared _ hx)
    · exact absurd hi (hmay.notCleared _ hx)
  · have heq : o = ⟨i, o.hash, refundId⟩ := hr.only o (hrefunds ▸ ho) hi
    have hid : o.refundId = refundId := congrArg OwnedRefund.refundId heq
    have hlocked : w.db.RefundLocked o.hash o.refundId := hid ▸ hr.locked
    exact ⟨hdb ▸ hlocked, h.quiet hw hlocked (hw.quiet_of_closed hlocked hclosed)⟩

/-- **Every call of a thread keeps the invariant.** -/
theorem Inv.effect (hw : w.Inv) (h : w.Effect i t c w') : w'.Inv where
  locks := hw.effect_locks h
  swaps := hw.effect_swaps h
  covered := fun hdue => h.covered hw (h.due hdue)
    ((h.due hdue).elim hw.covered Prepared.covered)
  nodup := hw.effect_nodup h
  known := fun hk => h.hasAttempt
    ((h.known hk).elim hw.known (fun hp => hw.owned _ hp.owner))
  owned := fun o ho => (h.mem_attempts ho).elim
    (fun ho => h.hasAttempt (hw.owned o ho)) (fun ho => ho.2.2.2)
  owners := hw.effect_owners h
  attempts_lt := fun o ho => h.threads ▸ (h.mem_attempts ho).elim
    (hw.attempts_lt o) (fun ho => ho.1 ▸ ho.2.1)
  refunds_lt := fun o ho => h.threads ▸ (h.mem_refunds ho).elim
    (hw.refunds_lt o) (fun ho => ho.1 ▸ ho.2.spawned)
  cleared_lt := fun x hx => h.threads ▸ (h.mem_cleared hx).elim (hw.cleared_lt x)
    (fun hx => hx.1 ▸ hx.2.1.elim (fun _ hr => hw.refunds_lt _ hr.owner))
  up_lt := h.threads ▸ h.up ▸ hw.up_lt
  up_unique := h.up ▸ hw.up_unique
  serving_up := fun _ hp => h.up ▸ (h.mem_serving hp).elim
    (fun hp => hw.serving_up hp) (fun hp => hp.1 ▸ hp.2)
  live_serving := fun l hl => h.serving_subset (hw.live_serving l (h.live ▸ hl))
  inflight_serving := fun c hc => (h.mem_inflight hc).elim
    (fun hc => h.serving_subset (hw.inflight_serving c hc))
    (fun hc => hc.1 ▸ h.serving_subset (hw.live_serving _ hc.2.alive))
  refundIds := hw.effect_refundIds h
  quiet := hw.effect_quiet h

/-- **Every move of the world keeps the invariant.** -/
theorem Inv.move {m : Move truthfulNode} (hw : w.Inv) (h : w.move m = some w') :
    w'.Inv := by
  cases m with
  | env env =>
    obtain rfl := Option.some.inj h
    exact { hw with }
  | node act =>
    obtain ⟨n, hact, rfl⟩ := Option.map_eq_some_iff.mp h
    have hcleared := (TruthfulState.act_ghosts hact).2
    exact { hw with
      covered := fun hdue => (hw.covered (hdue.of_act hact)).imp id (fun hc => hc.act hact)
      nodup := (TruthfulState.act_labels hact).nodup_iff.mpr hw.nodup
      known := fun hk => hw.known (hk.of_act hact)
      cleared_lt := fun x hx => hw.cleared_lt x (hcleared ▸ hx)
      inflight_serving := fun c hc =>
        hw.inflight_serving c (TruthfulState.act_inflight hact hc)
      quiet := fun o ho hx =>
        (hw.quiet o ho (hcleared ▸ hx)).imp id (fun hq => (hq.act hact).1) }
  | addSwap swap =>
    simp only [World.move] at h
    split at h
    next => cases h
    next hnew =>
      obtain rfl := Option.some.inj h
      have hne : ∀ s ∈ w.db.swaps, s.swap.pub.hash ≠ swap.pub.hash := by
        simpa using hnew
      refine { hw with locks := hw.locks.of_subset (List.Subset.refl _), swaps := ?_ }
      intro s hs s' hs' heq
      rcases List.mem_append.mp hs with hs | hs <;>
        rcases List.mem_append.mp hs' with hs' | hs'
      · exact hw.swaps s hs s' hs' heq
      · obtain rfl := List.mem_singleton.mp hs'
        exact absurd heq (hne s hs)
      · obtain rfl := List.mem_singleton.mp hs
        exact absurd heq.symm (hne s' hs')
      · rw [List.mem_singleton.mp hs, List.mem_singleton.mp hs']

/-- **Every request keeps the invariant**: a process is only started when there
is none. -/
theorem Inv.spawned {r : Request} (hw : w.Inv) (h : w.admits true r) :
    (w.spawned r).Inv := by
  have lt {n : ℕ} (hn : n < w.threads) : n < w.threads + 1 := Nat.lt_succ_of_lt hn
  have hmore : World.Inv { w with threads := w.threads + 1 } :=
    { hw with
      attempts_lt := fun o ho => lt (hw.attempts_lt o ho)
      refunds_lt := fun o ho => lt (hw.refunds_lt o ho)
      cleared_lt := fun x hx => lt (hw.cleared_lt x hx)
      up_lt := fun p hp => lt (hw.up_lt p hp) }
  cases r with
  | start passes =>
    have hup : w.up = [] := h rfl
    have hno (p : ℕ) (hp : p ∈ w.serving) : False := by
      have := hw.serving_up hp
      rw [hup] at this
      cases this
    exact { hmore with
      up_lt := fun p hp => by
        rw [show (w.spawned (.start passes)).up = [w.threads] from
          congrArg (w.threads :: ·) hup, List.mem_singleton] at hp
        exact hp ▸ Nat.lt_succ_self _
      up_unique := fun p hp q hq => by
        rw [show (w.spawned (.start passes)).up = [w.threads] from
          congrArg (w.threads :: ·) hup, List.mem_singleton] at hp hq
        rw [hp, hq]
      serving_up := fun p hp => (hno p hp).elim }
  | pay proc req =>
    exact { hmore with
      live_serving := fun l hl => by
        rcases List.mem_cons.mp hl with rfl | hl
        · exact h
        · exact hw.live_serving l hl }
  | refund proc req => exact { hmore with }
  | preimage proc => exact { hmore with }

/-- **Stopping keeps the invariant**: with a process goes what it has sent. -/
theorem Inv.stopped (hw : w.Inv) (s : Stop) : (w.stopped s).Inv := by
  cases s with
  | drop i =>
    exact { hw with
      live_serving := fun l hl => hw.live_serving l (List.mem_of_mem_filter hl) }
  | crash proc =>
    have hinflight {c : SentCall} (hc : c ∈ (w.stopped (.crash proc)).node.inflight) :
        c ∈ w.node.inflight ∧ c.proc ≠ proc := by
      simpa using List.mem_filter.mp hc
    exact { hw with
      covered := fun hdue => hw.covered (hdue.imp id (fun ⟨q, hc⟩ => ⟨q, (hinflight hc).1⟩))
      nodup := hw.nodup.sublist
        (List.Sublist.append_left (List.Sublist.map _ (List.filter_sublist)) _)
      known := fun hk => hw.known (hk.imp id (fun ⟨q, hc⟩ => ⟨q, (hinflight hc).1⟩))
      up_lt := fun p hp => hw.up_lt p (List.mem_of_mem_filter hp)
      up_unique := fun p hp q hq =>
        hw.up_unique p (List.mem_of_mem_filter hp) q (List.mem_of_mem_filter hq)
      serving_up := fun p hp => by
        obtain ⟨hmem, hne⟩ := List.mem_filter.mp hp
        exact List.mem_filter.mpr ⟨hw.serving_up hmem, hne⟩
      live_serving := fun l hl => by
        obtain ⟨hmem, hne⟩ := List.mem_filter.mp hl
        exact List.mem_filter.mpr ⟨hw.live_serving l hmem, hne⟩
      inflight_serving := fun c hc => by
        obtain ⟨hmem, hne⟩ := hinflight hc
        exact List.mem_filter.mpr ⟨hw.inflight_serving c hmem, by simpa using hne⟩
      quiet := fun o ho hx => (hw.quiet o ho hx).imp id
        (fun hq => ⟨fun c hc => hq.1 c (hinflight hc).1, hq.2⟩) }

end World

end Swapd
