import Swapd.SingleProcess

/-!
# Several processes on one database

The payment monitor of a process reads the attempts without a result once, when
the process starts, and asks the node about each of them. An attempt the node
does not know is taken to have been cancelled. With one process at a time this
is right, since nobody runs when the attempts are read. With several, the
handler of another process may have recorded an attempt and be about to ask for
its payment; the node does not know it *yet*.

`receivedFirst` excludes this and nothing else: when the monitor asks about a
payment whose handler is still waiting for it, the node has received it. In the
runs that meet the condition a monitor never takes the lock of a payment away
from a handler that still waits for it, nor records that it has failed, unless
it is complete or has failed.
-/

namespace Swapd

open Machine (ReachableIf StepIf)

namespace World

/-- The payment has its final status. -/
def Settled (w : World truthfulNode) (hash : PaymentHash) (label : String) : Prop :=
  w.node.Completed hash label ∨ w.node.Failed hash label

/-- No handler waits for the payment. -/
def Unawaited (w : World truthfulNode) (hash : PaymentHash) (label : String) : Prop :=
  ∀ o ∈ w.attempts, o.hash = hash → o.label = label → w.Alive o.thread →
    o.thread ∈ w.node.returned

/-- **The node has received a payment** that a handler waits for, by the time it
is asked about its state. -/
def receivedFirst (_ : ℕ) (_ : Task) : Call Truthful → World truthfulNode → Prop
  | .node (.getPaymentState hash label), w =>
    w.Unawaited hash label ∨ ∃ p ∈ w.node.payments, p.hash = hash ∧ p.label = label
  | _, _ => True

/-- The steps of a run in which monitors leave live payments alone. -/
def sharedSteps (i : ℕ) (t : Task) (c : Call Truthful) (w : World truthfulNode) : Prop :=
  distinctNames i t c w ∧ receivedFirst i t c w

instance {N : Interface} {M : NodeModel N} (w : World M) (i : ℕ) : Decidable (w.Alive i) :=
  decidable_of_iff (∃ h ∈ w.live, h.thread = i)
    ⟨fun ⟨⟨_, proc⟩, hmem, heq⟩ => ⟨proc, heq ▸ hmem⟩, fun ⟨_, hmem⟩ => ⟨_, hmem, rfl⟩⟩

instance (i : ℕ) (t : Task) (c : Call Truthful) (w : World truthfulNode) :
    Decidable (sharedSteps i t c w) := by
  have : Decidable (receivedFirst i t c w) := by
    unfold receivedFirst Unawaited
    split <;> infer_instance
  unfold sharedSteps
  infer_instance

/-- What holds of the attempts, whatever the monitors do. -/
structure Attempted (w : World truthfulNode) : Prop where
  labels : w.db.labels.Nodup
  owned : ∀ o ∈ w.attempts, w.db.HasAttempt o.hash o.label
  attempts_lt : ∀ o ∈ w.attempts, o.thread < w.threads

/-- What is never taken back: attempts are not deleted, a final status is final,
and nobody comes to wait for an attempt that is recorded already. -/
structure Grows (w w' : World truthfulNode) : Prop where
  threads : w.threads ≤ w'.threads
  hasAttempt : ∀ {hash label}, w.db.HasAttempt hash label → w'.db.HasAttempt hash label
  settled : ∀ {hash label}, w.Settled hash label → w'.Settled hash label
  unawaited : ∀ {hash label}, w.db.HasAttempt hash label → w.Unawaited hash label →
    w'.Unawaited hash label

variable {w w' : World truthfulNode} {i : ℕ} {t : Task} {hash : PaymentHash}
  {label : String}

theorem Grows.refl (w : World truthfulNode) : w.Grows w := ⟨le_refl _, id, id, fun _ h => h⟩

theorem Grows.trans {w₁ w₂ w₃ : World truthfulNode} (h : w₁.Grows w₂) (h' : w₂.Grows w₃) :
    w₁.Grows w₃ :=
  ⟨h.threads.trans h'.threads, fun ha => h'.hasAttempt (h.hasAttempt ha), fun hs => h'.settled (h.settled hs),
    fun ha hu => h'.unawaited (h.hasAttempt ha) (h.unawaited ha hu)⟩

/-! ## Every call, whoever makes it -/

/-- Recording an attempt: nobody waits for it before, and the labels stay
distinct. -/
theorem attempted_grows {a : PaymentAttempt} {n : ℕ} (hw : w.Attempted)
    (hfresh : a.label ∉ w.db.labels) (hi : i < w.threads) (known : Bool) :
    Attempted { w with
        db := SwapTables.attempted a n w.db
        attempts := if known then ⟨i, a.paymentHash, a.label⟩ :: w.attempts else w.attempts } ∧
      w.Grows { w with
        db := SwapTables.attempted a n w.db
        attempts := if known then ⟨i, a.paymentHash, a.label⟩ :: w.attempts else w.attempts } := by
  have hkeep {hash : PaymentHash} {label : String} (ha : w.db.HasAttempt hash label) :
      (SwapTables.attempted a n w.db).HasAttempt hash label :=
    SwapTables.hasAttempt_attempted.mpr (Or.inl ha)
  have hmem {o : OwnedAttempt} (ho : o ∈ if known then
      (⟨i, a.paymentHash, a.label⟩ :: w.attempts : List OwnedAttempt) else w.attempts) :
      o = ⟨i, a.paymentHash, a.label⟩ ∨ o ∈ w.attempts := by
    split at ho
    · exact List.mem_cons.mp ho
    · exact Or.inr ho
  refine ⟨⟨?_, fun o ho => ?_, fun o ho => ?_⟩, ⟨le_refl _, hkeep, id, fun ha hu o ho hhash hlabel => ?_⟩⟩
  · rw [SwapTables.labels_attempted]
    exact List.nodup_append_comm.mp (List.nodup_cons.mpr ⟨hfresh, hw.labels⟩)
  · rcases hmem ho with rfl | ho
    · exact SwapTables.hasAttempt_attempted.mpr (Or.inr ⟨rfl, rfl⟩)
    · exact hkeep (hw.owned o ho)
  · rcases hmem ho with rfl | ho
    · exact hi
    · exact hw.attempts_lt o ho
  · rcases hmem ho with rfl | ho
    · obtain rfl : a.label = _ := hlabel
      exact absurd ha.mem_labels hfresh
    · exact hu o ho hhash hlabel

/-- **Whatever a thread asks for**, attempts stay recorded, what is settled stays
so, and what nobody waits for stays so. -/
theorem Performs.grows {c : Call Truthful} {r : c.Reply} (hw : w.Attempted)
    (hfresh : distinctNames i t c w) (hi : i < w.threads)
    (h : Performs truthfulNode i t c w r w') : w'.Attempted ∧ w.Grows w' := by
  by_cases hc : c.IsQuery
  · obtain rfl := h.of_isQuery hc
    exact ⟨hw, Grows.refl _⟩
  obtain ⟨ch, hserve⟩ := h
  cases c <;> first | exact absurd trivial hc | skip
  case getSwapByHash hash =>
    obtain ⟨-, rfl⟩ := read_eq_some hserve
    exact ⟨{ hw with }, ⟨le_refl _, id, id, fun _ h => h⟩⟩
  case lockAddPaymentAttempt a =>
    rcases transact_eq_some hserve with ⟨db, hdb, -, rfl⟩ | ⟨db, hdb, -, rfl⟩ | ⟨e, -, rfl⟩
    · obtain ⟨-, -, ns, -, rfl⟩ := SwapTables.lockAddPaymentAttempt_eq_ok_iff.mp hdb
      exact attempted_grows hw hfresh hi true
    · obtain ⟨-, -, ns, -, rfl⟩ := SwapTables.lockAddPaymentAttempt_eq_ok_iff.mp hdb
      exact attempted_grows hw hfresh hi false
    · exact ⟨hw, Grows.refl _⟩
  case lockSwapRefund hash refundId =>
    rcases transact_eq_some hserve with ⟨db, hdb, -, rfl⟩ | ⟨db, hdb, -, rfl⟩ | ⟨e, -, rfl⟩
    · obtain ⟨-, -, rfl⟩ := SwapTables.lockSwapRefund_eq_ok_iff.mp hdb
      exact ⟨{ hw with }, ⟨le_refl _, id, id, fun _ h => h⟩⟩
    · obtain ⟨-, -, rfl⟩ := SwapTables.lockSwapRefund_eq_ok_iff.mp hdb
      exact ⟨{ hw with }, ⟨le_refl _, id, id, fun _ h => h⟩⟩
    · exact ⟨hw, Grows.refl _⟩
  case unlockAddPaymentResult hash label result =>
    have hresult {w' : World truthfulNode} (heq : w' = recordResult hash result
        { w with db := SwapTables.resulted hash label result w.db }) :
        w'.Attempted ∧ w.Grows w' := by
      subst heq
      refine ⟨⟨?_, fun o ho => (hw.owned o ho).resulted, hw.attempts_lt⟩,
        ⟨le_refl _, fun ha => ha.resulted, id, fun _ h => h⟩⟩
      exact (SwapTables.labels_resulted ..).symm ▸ hw.labels
    rcases transact_eq_some hserve with ⟨db, hdb, -, rfl⟩ | ⟨db, hdb, -, rfl⟩ | ⟨e, -, rfl⟩
    · obtain ⟨-, rfl⟩ := SwapTables.unlockAddPaymentResult_eq_ok_iff.mp hdb
      exact hresult rfl
    · obtain ⟨-, rfl⟩ := SwapTables.unlockAddPaymentResult_eq_ok_iff.mp hdb
      exact hresult rfl
    · exact ⟨hw, Grows.refl _⟩
  case unlockSwapRefund hash refundId =>
    rcases transact_eq_some hserve with ⟨db, hdb, -, rfl⟩ | ⟨db, hdb, -, rfl⟩ | ⟨e, -, rfl⟩
    · obtain ⟨-, rfl⟩ := SwapTables.unlockSwapRefund_eq_ok_iff.mp hdb
      exact ⟨{ hw with }, ⟨le_refl _, id, id, fun _ h => h⟩⟩
    · obtain ⟨-, rfl⟩ := SwapTables.unlockSwapRefund_eq_ok_iff.mp hdb
      exact ⟨{ hw with }, ⟨le_refl _, id, id, fun _ h => h⟩⟩
    · exact ⟨hw, Grows.refl _⟩
  case ready =>
    obtain rfl := (Prod.mk.inj (Option.some.inj hserve)).2
    exact ⟨{ hw with }, ⟨le_refl _, id, id, fun _ h => h⟩⟩
  case node c =>
    obtain ⟨_, n, hnode, rfl⟩ := Performs.node ⟨ch, hserve⟩
    obtain ⟨hpayments, hreturned⟩ := TruthfulState.serve_payments hnode
    refine ⟨{ hw with }, ⟨le_refl _, id, ?_, fun _ hu o ho hh hl ha => hreturned (hu o ho hh hl ha)⟩⟩
    exact fun hs => hs.imp (fun hc => hc.imp (fun _ hp => hpayments ▸ hp))
      (fun hf => hf.imp (fun _ hp => hpayments ▸ hp))

/-! ## The world, requests and stops -/

theorem Attempted.move {m : Move truthfulNode} (hw : w.Attempted) (h : w.move m = some w') :
    w'.Attempted ∧ w.Grows w' := by
  cases m with
  | env env =>
    obtain rfl := Option.some.inj h
    exact ⟨{ hw with }, ⟨le_refl _, id, id, fun _ h => h⟩⟩
  | node act =>
    obtain ⟨n, hact, rfl⟩ := Option.map_eq_some_iff.mp h
    have hreturned := (TruthfulState.act_ghosts hact).1
    refine ⟨{ hw with }, ⟨le_refl _, id, fun hs => hs.imp (fun hc => hc.act hact)
      (fun hf => hf.act hact), fun _ hu o ho hh hl ha => ?_⟩⟩
    exact hreturned ▸ hu o ho hh hl ha
  | addSwap swap =>
    simp only [World.move] at h
    split at h
    next => cases h
    next =>
      obtain rfl := Option.some.inj h
      exact ⟨{ hw with }, ⟨le_refl _, id, id, fun _ h => h⟩⟩

theorem Attempted.spawned (hw : w.Attempted) (r : Request) :
    (w.spawned r).Attempted ∧ w.Grows (w.spawned r) := by
  have hlt : ∀ o ∈ w.attempts, o.thread < w.threads + 1 :=
    fun o ho => Nat.lt_succ_of_lt (hw.attempts_lt o ho)
  cases r with
  | pay proc req =>
    refine ⟨{ hw with attempts_lt := hlt },
      ⟨Nat.le_succ _, id, id, fun _ hu o ho hh hl ⟨q, halive⟩ => ?_⟩⟩
    rcases List.mem_cons.mp halive with heq | halive
    · have := congrArg LiveHandler.thread heq
      have := hw.attempts_lt o ho
      simp only at *
      omega
    · exact hu o ho hh hl ⟨q, halive⟩
  | _ => exact ⟨{ hw with attempts_lt := hlt }, ⟨Nat.le_succ _, id, id, fun _ h => h⟩⟩

theorem Attempted.stopped (hw : w.Attempted) (s : Stop) :
    (w.stopped s).Attempted ∧ w.Grows (w.stopped s) := by
  cases s with
  | drop i =>
    refine ⟨{ hw with }, ⟨le_refl _, id, id, fun _ hu o ho hh hl ⟨q, halive⟩ => ?_⟩⟩
    exact hu o ho hh hl ⟨q, List.mem_of_mem_filter halive⟩
  | crash proc =>
    refine ⟨{ hw with }, ⟨le_refl _, id, id, fun _ hu o ho hh hl ⟨q, halive⟩ => ?_⟩⟩
    exact hu o ho hh hl ⟨q, List.mem_of_mem_filter halive⟩

/-- **What a call does to locks and failures**: a lock is released, and a failure
recorded, with a result. -/
theorem Performs.keeps {c : Call Truthful} {r : c.Reply}
    (h : Performs truthfulNode i t c w r w') :
    (∃ hash label result, c = .unlockAddPaymentResult hash label result ∧
        w'.db = SwapTables.resulted hash label result w.db) ∨
      ((∀ {hash label}, w.db.PaymentLocked hash label → w'.db.PaymentLocked hash label) ∧
        ∀ row ∈ w'.db.paymentAttempts, row.success = some false →
          row ∈ w.db.paymentAttempts) := by
  by_cases hc : c.IsRead
  · rw [h.db_of_isRead hc]
    exact Or.inr ⟨id, fun _ hrow _ => hrow⟩
  obtain ⟨ch, hserve⟩ := h
  cases c <;> first | exact absurd (Or.inl trivial) hc | skip
  case getSwapByHash hash => exact absurd (Or.inr ⟨hash, rfl⟩) hc
  case lockAddPaymentAttempt a =>
    have hadd {db : SwapTables} (hdb : w.db.lockAddPaymentAttempt a = .ok db) :
        (∀ {hash label}, w.db.PaymentLocked hash label → db.PaymentLocked hash label) ∧
          ∀ row ∈ db.paymentAttempts, row.success = some false →
            row ∈ w.db.paymentAttempts := by
      obtain ⟨-, -, ns, -, rfl⟩ := SwapTables.lockAddPaymentAttempt_eq_ok_iff.mp hdb
      refine ⟨fun hl => SwapTables.paymentLocked_attempted.mpr (Or.inl hl),
        fun row hrow hs => ?_⟩
      rcases List.mem_append.mp hrow with hrow | hrow
      · exact hrow
      · rw [List.mem_singleton.mp hrow] at hs
        cases hs
    rcases transact_eq_some hserve with ⟨db, hdb, -, rfl⟩ | ⟨db, hdb, -, rfl⟩ | ⟨e, -, rfl⟩
    · exact Or.inr (hadd hdb)
    · exact Or.inr (hadd hdb)
    · exact Or.inr ⟨id, fun _ hrow _ => hrow⟩
  case lockSwapRefund hash refundId =>
    have hlock {db : SwapTables} (hdb : w.db.lockSwapRefund hash refundId = .ok db) :
        (∀ {hash label}, w.db.PaymentLocked hash label → db.PaymentLocked hash label) ∧
          ∀ row ∈ db.paymentAttempts, row.success = some false →
            row ∈ w.db.paymentAttempts := by
      obtain ⟨-, -, rfl⟩ := SwapTables.lockSwapRefund_eq_ok_iff.mp hdb
      exact ⟨SwapTables.paymentLocked_insertRefundLock.mpr, fun _ hrow _ => hrow⟩
    rcases transact_eq_some hserve with ⟨db, hdb, -, rfl⟩ | ⟨db, hdb, -, rfl⟩ | ⟨e, -, rfl⟩
    · exact Or.inr (hlock hdb)
    · exact Or.inr (hlock hdb)
    · exact Or.inr ⟨id, fun _ hrow _ => hrow⟩
  case unlockAddPaymentResult hash label result =>
    rcases transact_eq_some hserve with ⟨db, hdb, -, rfl⟩ | ⟨db, hdb, -, rfl⟩ | ⟨e, -, rfl⟩
    · exact Or.inl ⟨hash, label, result, rfl,
        (SwapTables.unlockAddPaymentResult_eq_ok_iff.mp hdb).2⟩
    · exact Or.inl ⟨hash, label, result, rfl,
        (SwapTables.unlockAddPaymentResult_eq_ok_iff.mp hdb).2⟩
    · exact Or.inr ⟨id, fun _ hrow _ => hrow⟩
  case unlockSwapRefund hash refundId =>
    have hunlock {db : SwapTables} (hdb : w.db.unlockSwapRefund hash refundId = .ok db) :
        (∀ {hash label}, w.db.PaymentLocked hash label → db.PaymentLocked hash label) ∧
          ∀ row ∈ db.paymentAttempts, row.success = some false →
            row ∈ w.db.paymentAttempts := by
      obtain ⟨-, rfl⟩ := SwapTables.unlockSwapRefund_eq_ok_iff.mp hdb
      exact ⟨SwapTables.paymentLocked_deleteRefundLock.mpr, fun _ hrow _ => hrow⟩
    rcases transact_eq_some hserve with ⟨db, hdb, -, rfl⟩ | ⟨db, hdb, -, rfl⟩ | ⟨e, -, rfl⟩
    · exact Or.inr (hunlock hdb)
    · exact Or.inr (hunlock hdb)
    · exact Or.inr ⟨id, fun _ hrow _ => hrow⟩
  case ready =>
    obtain rfl := (Prod.mk.inj (Option.some.inj hserve)).2
    exact Or.inr ⟨id, fun _ hrow _ => hrow⟩
  case node c =>
    obtain ⟨_, n, -, rfl⟩ := Performs.node ⟨ch, hserve⟩
    exact Or.inr ⟨id, fun _ hrow _ => hrow⟩

end World

/-! ## The discipline -/

/-- Whether a job is the main thread of a process, which is its payment
monitor. -/
def Job.isMonitor : Job → Bool
  | main _ => true
  | pay _ | refund _ | preimage => false

/-- **What a monitor stores a result on.** -/
def World.Decided (w : World truthfulNode) (hash : PaymentHash) (label : String) : Prop :=
  w.db.HasAttempt hash label ∧ (w.Settled hash label ∨ w.Unawaited hash label)

theorem World.Decided.grows {w w' : World truthfulNode} {hash : PaymentHash}
    {label : String} (h : w.Decided hash label) (hg : w.Grows w') :
    w'.Decided hash label :=
  ⟨hg.hasAttempt h.1, h.2.imp hg.settled (hg.unawaited h.1)⟩

/-- **The discipline of a shared database**: monitors store results of payments
that are settled, or that nobody waits for. Nothing is asked of the others. -/
@[reducible] def sharedDatabase (server : SwapServer) :
    Discipline (swapd truthfulNode truthfulClient server false) where
  permits := World.sharedSteps
  inv := World.Attempted
  rely := fun _ _ => World.Grows
  guar := fun i t c w w' => w.Grows w' ∧ (∃ r, World.Performs truthfulNode i t c w r w') ∧
    ∀ hash label result, t.job.isMonitor = true →
      c = .unlockAddPaymentResult hash label result → w.Decided hash label
  later := fun _ _ => True
  post := fun _ _ _ _ => True

namespace Shared

variable {server : SwapServer} {α : Type} {i : ℕ} {t : Task} {w : World truthfulNode}
  {Q : α → World truthfulNode → Prop} {hash : PaymentHash} {label : String}

theorem stable : (sharedDatabase server).Stable where
  rely_refl := fun _ _ => World.Grows.refl
  rely_trans := World.Grows.trans

/-- **A call** under an assertion that is never taken back. -/
theorem safe_call {P : World truthfulNode → Prop} {c : Call Truthful}
    {k : c.Reply → Prog (Services Truthful) α}
    (hgrows : ∀ w w', P w → w.Grows w' → P w') (hi : i < w.threads) (h : P w)
    (hdecided : ∀ w' hash label result, P w' → t.job.isMonitor = true →
      c = .unlockAddPaymentResult hash label result → w'.Decided hash label)
    (hk : ∀ w' r w'', P w' → P w'' → i < w''.threads → w''.Attempted →
      World.sharedSteps i t c w' → World.Performs truthfulNode i t c w' r w'' →
        (sharedDatabase server).Safe i t Q (k r) w'') :
    (sharedDatabase server).Safe i t Q (.call c k) w := by
  intro w' hr hw' hp ch r w'' hserve
  have hi' : i < w'.threads := Nat.lt_of_lt_of_le hi hr.threads
  obtain ⟨hw'', hg⟩ := World.Performs.grows hw' hp.1 hi' ⟨ch, hserve⟩
  have h' : P w' := hgrows _ _ h hr
  exact ⟨hw'', ⟨hg, ⟨r, ch, hserve⟩, fun hash label result => hdecided w' hash label result h'⟩,
    hk w' r w'' h' (hgrows _ _ h' hg) (Nat.lt_of_lt_of_le hi' hg.threads)
      hw'' hp ⟨ch, hserve⟩⟩

/-- Any program at all, of a thread that is not a monitor. -/
theorem safe_of_not_isMonitor (ht : t.job.isMonitor = false) (hi : i < w.threads)
    (p : Prog (Services Truthful) α) :
    (sharedDatabase server).Safe i t (fun _ _ => True) p w := by
  induction p generalizing w with
  | ret a => exact fun _ _ _ => trivial
  | call c k ih =>
    refine safe_call (P := fun _ => True) (fun _ _ _ _ => trivial) hi trivial
      (fun _ _ _ _ _ ht' => ?_) (fun w' r w'' _ _ hi' _ _ _ => ih r hi')
    rw [ht] at ht'
    cases ht'

/-- The attempts are recorded. -/
def AllRecorded (attempts : List PaymentAttempt) (w : World truthfulNode) : Prop :=
  ∀ a ∈ attempts, w.db.HasAttempt a.paymentHash a.label

theorem AllRecorded.grows {attempts : List PaymentAttempt} {w w' : World truthfulNode}
    (h : AllRecorded attempts w) (hg : w.Grows w') : AllRecorded attempts w' :=
  fun a ha => hg.hasAttempt (h a ha)

/-- What is recorded stays so while a program runs. -/
theorem frame {attempts : List PaymentAttempt} {p : Prog (Services Truthful) α}
    (h : (sharedDatabase server).Safe i t Q p w) (ha : AllRecorded attempts w)
    (hi : i < w.threads) :
    (sharedDatabase server).Safe i t
      (fun a w' => Q a w' ∧ AllRecorded attempts w' ∧ i < w'.threads) p w :=
  h.frame (P := fun w : World truthfulNode => AllRecorded attempts w ∧ i < w.threads) ⟨ha, hi⟩
    (fun _ _ hP hg _ => ⟨hP.1.grows hg, Nat.lt_of_lt_of_le hP.2 hg.threads⟩)
    (fun _ _ _ hP _ hg => ⟨hP.1.grows hg.1, Nat.lt_of_lt_of_le hP.2 hg.1.threads⟩)

open HistoricalPaymentMonitor in
/-- **One attempt**: the node has settled its payment, or does not know it – and
then nobody waits for it, since the node would have received it. -/
theorem safe_checkPayment {a : PaymentAttempt} (hi : i < w.threads)
    (h : w.db.HasAttempt a.paymentHash a.label) :
    (sharedDatabase server).Safe i t
      (fun o _ => ∀ pending, o = .ok pending → pending ⊆ [a])
      (onTruthful (checkPayment a).run) w := by
  have hstore {w : World truthfulNode} {r : PaymentResult} (hi : i < w.threads)
      (h : w.Decided a.paymentHash a.label)
      {k : Except LockSwapError Unit →
        Prog (Services Truthful) (Except MonitorError (List PaymentAttempt))}
      (hk : ∀ r, k r = .ret (.ok []) ∨ k r = .ret (.error .general)) :
      (sharedDatabase server).Safe i t
        (fun o _ => ∀ pending, o = .ok pending → pending ⊆ [a])
        (.call (.unlockAddPaymentResult a.paymentHash a.label r) k) w := by
    refine safe_call (P := fun w : World truthfulNode => w.Decided a.paymentHash a.label)
      (fun _ _ h hg => h.grows hg) hi h (fun w' hash label result h _ heq => ?_)
      (fun _ o _ _ _ _ _ _ _ => ?_)
    · cases heq
      exact h
    · rcases hk o with ho | ho <;> rw [ho] <;> rintro _ _ _ pending ⟨⟩
      exact List.nil_subset _
  refine safe_call
    (P := fun w : World truthfulNode => w.db.HasAttempt a.paymentHash a.label) (fun _ _ h hg => hg.hasAttempt h) hi h nofun (fun w₁ o w₂ h₁ h₂ hi₂ _ hp hperf => ?_)
  obtain ⟨_, n, hnode, rfl⟩ := hperf.node
  obtain ⟨rfl, hsuccess, hfailure, hnone⟩ := TruthfulState.serve_getPaymentState hnode
  match o with
  | .ok (.success preimage) =>
    exact hstore (r := .success preimage) hi₂ ⟨h₁, Or.inl (Or.inl (hsuccess preimage rfl))⟩
      (fun r => by cases r <;> first | exact Or.inl rfl | exact Or.inr rfl)
  | .ok (.failure error) =>
    exact hstore (r := .failure error) hi₂ ⟨h₁, Or.inl (Or.inr (hfailure error rfl))⟩
      (fun r => by cases r <;> first | exact Or.inl rfl | exact Or.inr rfl)
  | .ok .pending =>
    rintro _ _ _ pending ⟨⟩
    exact List.Subset.refl _
  | .error .paymentNotFound =>
    have hunawaited : w₁.Unawaited a.paymentHash a.label :=
      hp.2.resolve_right (fun ⟨p, hmem, heq⟩ => hnone rfl p hmem heq)
    exact hstore (r := .failure "cancelled") hi₂ ⟨h₁, Or.inr hunawaited⟩
      (fun r => by cases r <;> first | exact Or.inl rfl | exact Or.inr rfl)
  | .error .connectionFailed => exact fun _ _ _ => nofun
  | .error .invalidPreimage => exact fun _ _ _ => nofun
  | .error (.general _) => exact fun _ _ _ => nofun

open HistoricalPaymentMonitor in
theorem safe_doCheckPayments {attempts : List PaymentAttempt} (hi : i < w.threads)
    (hw : w.Attempted) (h : AllRecorded attempts w) :
    (sharedDatabase server).Safe i t
      (fun o _ => ∀ pending, o = .ok pending → pending ⊆ attempts)
      (onTruthful (doCheckPayments attempts).run) w := by
  induction attempts generalizing w with
  | nil =>
    rintro _ _ _ pending ⟨⟩
    exact List.Subset.refl _
  | cons a attempts ih =>
    obtain ⟨ha, has⟩ := List.forall_mem_cons.mp h
    refine Discipline.Safe.interpret_tryBind stable
      ((frame (safe_checkPayment hi ha) has hi).mono (fun o w₁ hw₁ ho => ?_)) hw
    obtain ⟨hpending, has₁, hi₁⟩ := ho
    cases o with
    | error e => exact fun _ _ _ => nofun
    | ok pending =>
      refine Discipline.Safe.interpret_tryBind stable
        ((ih hi₁ hw₁ has₁).mono (fun o w₂ _ ho => ?_)) hw₁
      cases o with
      | error e => exact fun _ _ _ => nofun
      | ok rest =>
        rintro _ _ _ l ⟨⟩
        exact List.append_subset.mpr
          ⟨List.Subset.trans (hpending pending rfl) (List.cons_subset_cons a (List.nil_subset _)),
            List.Subset.trans (ho rest rfl) (List.subset_cons_self ..)⟩

open HistoricalPaymentMonitor in
theorem safe_start {n : ℕ} {attempts : List PaymentAttempt} (hi : i < w.threads)
    (hw : w.Attempted) (h : AllRecorded attempts w) :
    (sharedDatabase server).Safe i t (fun _ _ => True) (onTruthful (start n attempts)) w := by
  induction n generalizing attempts w with
  | zero => exact fun _ _ _ => trivial
  | succ n ih =>
    cases attempts with
    | nil => exact fun _ _ _ => trivial
    | cons a attempts =>
      refine Discipline.Safe.interpret_bind stable
        ((frame (safe_doCheckPayments hi hw h) h hi).mono (fun o w₁ hw₁ ho => ?_)) hw
      obtain ⟨hpending, h₁, hi₁⟩ := ho
      cases o with
      | error e => exact ih hi₁ hw₁ h₁
      | ok pending => exact ih hi₁ hw₁ (fun b hb => h₁ b (hpending pending rfl hb))

open HistoricalPaymentMonitor in
/-- **The monitor of a process.** -/
theorem safe_main {passes : ℕ} (hi : i < w.threads) (hw : w.Attempted) :
    (sharedDatabase server).Safe i t (fun _ _ => True) (onTruthful (main passes)) w := by
  have hstarted : (sharedDatabase server).Safe i t
      (fun o w' => i < w'.threads ∧ ∀ attempts, o = .ok attempts → AllRecorded attempts w')
      (onTruthful initializeAttempts.run) w := by
    refine safe_call (P := fun _ => True) (fun _ _ _ _ => trivial) hi trivial nofun
      (fun w₁ r w₂ _ _ hi₂ hw₂ _ hperf => ?_)
    have hsame : w₂ = w₁ :=
      hperf.of_isQuery (c := .getUnhandledPaymentAttempts) trivial
    subst hsame
    cases r with
    | error e => exact fun w' hg _ => ⟨Nat.lt_of_lt_of_le hi₂ hg.threads, nofun⟩
    | ok attempts =>
      obtain rfl := hperf.getUnhandledPaymentAttempts
      have hrecorded : AllRecorded (w₂.db.getUnhandledPaymentAttempts w₂.env.queryOrder) w₂ := by
        intro a ha
        obtain ⟨row, hrow, -, hhash, hlabel⟩ := SwapTables.mem_getUnhandledPaymentAttempts ha
        exact ⟨row, hrow, hhash, hlabel⟩
      refine (frame (safe_doCheckPayments hi₂ hw₂ hrecorded) hrecorded hi₂).mono
        (fun o w₄ _ ho => ?_)
      exact ⟨ho.2.2, fun pending hpending a ha => ho.2.1 a (ho.1 pending hpending ha)⟩
  refine Discipline.Safe.interpret_bind stable
    (hstarted.mono (fun o w₁ hw₁ ho => ?_)) hw
  obtain ⟨hi₁, hrecorded⟩ := ho
  cases o with
  | error e =>
    exact safe_call (P := fun _ => True) (fun _ _ _ _ => trivial) hi₁ trivial nofun
      (fun _ _ _ _ _ _ _ _ _ => fun _ _ _ => trivial)
  | ok attempts =>
    exact safe_call (P := AllRecorded attempts) (fun _ _ h hg => h.grows hg) hi₁
      (hrecorded _ rfl) nofun (fun _ _ _ _ h₂ hi₂ hw₂ _ _ => safe_start hi₂ hw₂ h₂)

/-! ## All threads -/

theorem safe_request {r : Request} (hw : w.Attempted) :
    (sharedDatabase server).Safe w.threads (r.task w.threads) (fun _ _ => True)
      ((r.task w.threads).job.program truthfulClient server) (w.spawned r) := by
  have hw' := (hw.spawned r).1
  have hi : w.threads < (w.spawned r).threads := by cases r <;> exact Nat.lt_succ_self _
  cases r with
  | start passes =>
    exact Discipline.Safe.bind stable
      ((safe_main hi hw').mono (fun _ _ _ _ _ _ _ => trivial)) hw'
  | _ => exact safe_of_not_isMonitor rfl hi _

/-- **The discipline of a shared database is sound.** -/
theorem sound : (sharedDatabase server).Sound where
  toStable := stable
  later_refl := fun _ => trivial
  later_trans := fun _ _ => trivial
  guar_rely := fun _ _ _ h => h.1
  guar_later := fun _ _ _ => trivial
  drift := fun hw h => ⟨(hw.move h).1, fun _ _ => (hw.move h).2, trivial⟩
  spawn := fun {r n w t p w'} hw h => by
    simp only at h
    split at h
    next hadmits =>
      obtain ⟨rfl, -⟩ := hadmits
      cases h
      exact ⟨(hw.spawned r).1, fun _ _ _ => (hw.spawned r).2, trivial,
        (Shared.safe_request hw).mono (fun _ _ _ _ _ _ _ => trivial)⟩
    next => cases h
  halt := fun {s w w'} hw h => by
    cases h
    exact ⟨(hw.stopped s).1, fun _ _ _ => (hw.stopped s).2, trivial⟩

theorem initial {S : (swapd truthfulNode truthfulClient server false).Config}
    (h : IsInitial truthfulNode truthfulClient server false TruthfulState.IsInitial S) :
    (sharedDatabase server).Ok S := by
  refine ⟨⟨?_, fun o ho => ?_, fun o ho => ?_⟩, fun i T hT => ?_⟩
  · simp [SwapTables.labels, h.paymentAttempts]
  · simp [h.attempts] at ho
  · simp [h.attempts] at ho
  · simp [h.threads] at hT

end Shared

/-- **A monitor leaves live payments alone**, in the runs in which the node has
received a payment that a handler waits for by the time it is asked about it:
as long as the handler that recorded an attempt has not been stopped and has
not been told a result, no step of a monitor deletes the lock of the payment or
records that it has failed, unless it is complete or has failed. -/
theorem monitor_keeps_live_payments {server : SwapServer}
    {S S' : (swapd truthfulNode truthfulClient server false).Config}
    (hS : ReachableIf World.sharedSteps
      (IsInitial truthfulNode truthfulClient server false TruthfulState.IsInitial) S)
    {i : ℕ} {t : Task} {ch : Resolution truthfulNode} (htask : S.task i = some t)
    (hmonitor : t.job.isMonitor = true)
    (hmeets : Machine.Meets World.sharedSteps S (.run i ch))
    (hstep : Machine.step S (.run i ch) = some S') {o : OwnedAttempt}
    (ho : o ∈ S.state.attempts) (halive : S.state.Alive o.thread)
    (hwaits : o.thread ∉ S.state.node.returned)
    (hlive : ¬ S.state.Settled o.hash o.label) :
    (S.state.db.PaymentLocked o.hash o.label → S'.state.db.PaymentLocked o.hash o.label) ∧
      ∀ row ∈ S'.state.db.paymentAttempts, row.label = o.label → row.success = some false →
        row ∈ S.state.db.paymentAttempts := by
  have hok : (sharedDatabase server).Ok S :=
    Shared.sound.reachable (fun _ => Shared.initial) hS
  obtain ⟨c, k, hT⟩ := Machine.Config.awaits_of_step htask hstep
  obtain ⟨-, ⟨r, hperf⟩, hdecided⟩ :=
    (hok.step Shared.sound hmeets hstep).2 i ch rfl t c k hT
  rcases hperf.keeps with ⟨hash, label, result, rfl, hdb⟩ | ⟨hlocks, hrows⟩
  · obtain ⟨hattempt, hdecided⟩ := hdecided hash label result hmonitor rfl
    have hlabel : label ≠ o.label := by
      rintro rfl
      obtain rfl := hattempt.hash_eq hok.1.labels (hok.1.owned o ho)
      rcases hdecided with hsettled | hunawaited
      · exact hlive hsettled
      · exact hwaits (hunawaited o ho rfl rfl halive)
    rw [hdb]
    refine ⟨fun hl => SwapTables.paymentLocked_resulted.mpr
      ⟨hl, fun heq => hlabel heq.2.symm⟩, fun row hrow hrowlabel _ => ?_⟩
    exact SwapTables.mem_of_mem_resulted hrow (hrowlabel ▸ hlabel.symm)
  · exact ⟨hlocks, fun row hrow _ hs => hrows row hrow hs⟩

namespace Sample

/-- A step of the deployment of several processes. -/
abbrev SharedAction : Type := (swapd truthfulNode truthfulClient server false).Action

/-- A process starts, accepts a request to pay, and records the attempt. -/
def lockRun : List SharedAction :=
  [.spawn (.start 1), go 0, go 0, .spawn (.pay 0 payRequest)] ++
    List.replicate 11 (go 1)

/-- Another process starts, and its monitor reads the attempts. -/
def secondStart : List SharedAction := [.spawn (.start 1), go 2]

/-- The payment has been received when the monitor is about to ask for it. -/
def received : (swapd truthfulNode truthfulClient server false).Config :=
  Machine.after World.sharedSteps (truthfulStart false)
    (lockRun ++ [askNode 1 .absent, .drift (.node (.receive 0))] ++ secondStart)

/-- The monitor asks for the payment before it has been asked for, and has it
cancelled. -/
def cancelRun : List SharedAction := lockRun ++ secondStart ++ [askNode 2 .absent]

/-- Where that leads, with the monitor about to store its result. -/
def cancelled : (swapd truthfulNode truthfulClient server false).Config :=
  Machine.after World.distinctNames (truthfulStart false) cancelRun

/-- Where that leads. -/
def unlocked : (swapd truthfulNode truthfulClient server false).Config :=
  (Machine.step cancelled (go 2)).getD cancelled

end Sample

open Sample in
set_option maxRecDepth 4000 in
theorem monitor_keeps_live_payments_sample :
    ∃ S', Machine.step received (askNode 2 (.payment 0)) = some S' ∧
      (received.state.db.PaymentLocked swap.pub.hash (paymentLabel swap.pub.hash 1) →
        S'.state.db.PaymentLocked swap.pub.hash (paymentLabel swap.pub.hash 1)) ∧
      ∀ row ∈ S'.state.db.paymentAttempts, row.label = paymentLabel swap.pub.hash 1 →
        row.success = some false → row ∈ received.state.db.paymentAttempts := by
  have hsome : (Machine.step received (askNode 2 (.payment 0))).isSome := by decide
  obtain ⟨S', hS'⟩ := Option.isSome_iff_exists.mp hsome
  have hpending : received.state.node.payments
      = [⟨paymentLabel swap.pub.hash 1, swap.pub.hash, .pending⟩] := by decide
  have hlive : ¬ received.state.Settled swap.pub.hash (paymentLabel swap.pub.hash 1) := by
    rintro (⟨_, hp⟩ | ⟨_, hp⟩) <;> rw [hpending] at hp <;> simp at hp
  refine ⟨S', hS', ?_⟩
  exact monitor_keeps_live_payments (t := ⟨2, .main 1⟩)
    (o := ⟨1, swap.pub.hash, paymentLabel swap.pub.hash 1⟩)
    ⟨truthfulStart false, truthfulStart_initial, Machine.reflTransGen_after _ _⟩
    (by decide) rfl (Machine.meets_of_eq_true (by decide)) hS' (by decide) (by decide)
    (by decide) hlive

open Sample in
set_option maxRecDepth 4000 in
/-- **A live payment that a monitor cancels.** The handler has recorded its
attempt and is about to ask for the payment when the monitor of another process
asks for its state; the lock is deleted and the attempt recorded as failed, and
then the payment is sent. -/
theorem monitor_cancels_live_payment :
    ¬ ∀ S S' i t ch, ReachableIf World.distinctNames
        (IsInitial truthfulNode truthfulClient server false TruthfulState.IsInitial) S →
      S.task i = some t → t.job.isMonitor = true → Machine.step S (.run i ch) = some S' →
      ∀ o ∈ S.state.attempts, S.state.Alive o.thread → o.thread ∉ S.state.node.returned →
        ¬ S.state.Settled o.hash o.label →
        S.state.db.PaymentLocked o.hash o.label →
          S'.state.db.PaymentLocked o.hash o.label := by
  intro h
  have hsome : (Machine.step cancelled (go 2)).isSome := by decide
  have hstep : Machine.step cancelled (go 2) = some unlocked := by
    obtain ⟨S', hS'⟩ := Option.isSome_iff_exists.mp hsome
    rw [unlocked, hS', Option.getD_some]
  have hnone : cancelled.state.node.payments = [] := by decide
  have hlive : ¬ cancelled.state.Settled swap.pub.hash (paymentLabel swap.pub.hash 1) := by
    rintro (⟨_, hp⟩ | ⟨_, hp⟩) <;> rw [hnone] at hp <;> cases hp
  have hlocked := h cancelled unlocked 2 ⟨2, .main 1⟩ .ok
    ⟨truthfulStart false, truthfulStart_initial, Machine.reflTransGen_after _ _⟩ (by decide) rfl
    hstep ⟨1, swap.pub.hash, paymentLabel swap.pub.hash 1⟩ (by decide) (by decide) (by decide)
    hlive (by decide)
  exact absurd hlocked (by decide)

end Swapd
