import Swapd.Knowledge
import Swapd.PaySwapChecks

/-!
# The threads of one process keep the discipline

Each program of the server, followed call by call: what it knows when it makes
a call is what the effect of that call asks for. A handler that pays goes from
having looked the swap up to having recorded its attempt, and sends the payment
knowing that it is still covered; a handler that refunds goes from the lock to
the node's answer; the payment monitor starts while nothing else runs, so that
every attempt it takes up has nobody left to ask for its payment.

`singleProcess_sound` puts the programs together.
-/

namespace Swapd

open Prog (onOutcome rejectIf_onlyCalls)

/-- The shared state only moves forward: refunds are remembered, and no payment
is added to the hash of a cleared one. -/
structure World.Later (w w' : World truthfulNode) : Prop where
  refunds : w.refunds ⊆ w'.refunds
  cleared : w.node.cleared ⊆ w'.node.cleared
  payments : ∀ o ∈ w.refunds, (o.thread, o.hash) ∈ w.node.cleared →
    ∀ p ∈ w'.node.payments, p.hash = o.hash → p ∈ w.node.payments

/-- What is promised of a result: a refund that succeeds has been cleared. -/
def Outcome.Promised (i : ℕ) (t : Task) : Outcome → World truthfulNode → Prop
  | .refunded (.ok r), w => ∃ refundId, (Fact.cleared r.hash refundId).Holds i t w
  | _, _ => True

/-- **The discipline of one process at a time.** -/
@[reducible] def singleProcess (server : SwapServer) :
    Discipline (swapd truthfulNode truthfulClient server true) where
  permits := World.distinctNames
  inv := World.Inv
  rely := fun i t w w' => ∀ f : Fact, f.Holds i t w → f.Holds i t w'
  guar := fun i t c w w' => w.Effect i t c w'
  later := World.Later
  post := fun i t r w => r.Promised i t w

variable {server : SwapServer} {α : Type} {i : ℕ} {t : Task} {fs : List Fact}
  {w w' : World truthfulNode} {Q : α → World truthfulNode → Prop} {hash : PaymentHash}
  {label refundId : String}

theorem singleProcess_stable : (singleProcess server).Stable where
  rely_refl := fun _ _ _ _ hf => hf
  rely_trans := fun h₁ h₂ f hf => h₂ f (h₁ f hf)

/-- What a thread knows. -/
def Knows (i : ℕ) (t : Task) (fs : List Fact) (w : World truthfulNode) : Prop :=
  ∀ f ∈ fs, f.Holds i t w

theorem Knows.stable (h : Knows i t fs w) (hr : (singleProcess server).rely i t w w') :
    Knows i t fs w' :=
  fun f hf => hr f (h f hf)

theorem Knows.nil : Knows i t [] w := fun _ hf => nomatch hf

theorem Knows.cons {f : Fact} (hf : f.Holds i t w) (h : Knows i t fs w) :
    Knows i t (f :: fs) w :=
  List.forall_mem_cons.mpr ⟨hf, h⟩

theorem Knows.head {f : Fact} (h : Knows i t (f :: fs) w) : f.Holds i t w :=
  h f List.mem_cons_self

theorem Knows.tail {f : Fact} (h : Knows i t (f :: fs) w) : Knows i t fs w :=
  (List.forall_mem_cons.mp h).2

/-- Lasting facts are still known after an effect of the thread itself. -/
theorem Knows.effect (h : Knows i t fs w) (hfs : ∀ f ∈ fs, f.IsLasting)
    {c : Call Truthful} (he : w.Effect i t c w') : Knows i t fs w' :=
  fun f hf => he.lasting (hfs f hf) (h f hf)

/-! ## Calls -/

/-- Running the programs of the server on the truthful node. -/
abbrev onTruthful {α : Type} (p : Prog (Services Lightning) α) :
    Prog (Services Truthful) α :=
  p.interpret (J := Services Truthful) (Client.link truthfulClient)

/-- **A call**: it is enough to look at what it does where the thread knows what
it knows. -/
theorem safe_call {c : Call Truthful} {k : c.Reply → Prog (Services Truthful) α}
    (h : Knows i t fs w)
    (hstep : ∀ w', Knows i t fs w' → w'.Inv → World.distinctNames i t c w' →
      ∀ r w'', World.Performs truthfulNode i t c w' r w'' →
        w'.Effect i t c w'' ∧ (singleProcess server).Safe i t Q (k r) w'') :
    (singleProcess server).Safe i t Q (.call c k) w := by
  refine Discipline.Safe.call_of_stable h (fun _ _ hk hr _ => hk.stable hr) ?_
  intro w' hk hw' hp ch r w'' hserve
  obtain ⟨heffect, hsafe⟩ := hstep w' hk hw' hp r w'' ⟨ch, hserve⟩
  exact ⟨hw'.effect heffect, heffect, hsafe⟩

/-- **A result.** -/
theorem safe_ret {a : α} (h : Knows i t fs w) (hret : ∀ w', Knows i t fs w' → Q a w') :
    (singleProcess server).Safe i t Q (.ret a) w :=
  fun _ hr _ => hret _ (h.stable hr)

/-- A query changes nothing. -/
theorem safe_query {c : Call Truthful} {k : c.Reply → Prog (Services Truthful) α}
    (hc : c.IsQuery) (h : Knows i t fs w)
    (hk : ∀ r w', Knows i t fs w' → w'.Inv → (singleProcess server).Safe i t Q (k r) w') :
    (singleProcess server).Safe i t Q (.call c k) w := by
  refine safe_call h (fun w' hknows hw' _ r w'' hperf => ?_)
  obtain rfl := hperf.of_isQuery hc
  exact ⟨.none, hk r w'' hknows hw'⟩

/-- **A stretch of queries** leaves what is known alone. -/
theorem safe_queries {R : α → Prop} {p : Prog (Services Lightning) α}
    (hp : p.OnlyCalls Call.IsQuery) (hr : p.Returns R) (h : Knows i t fs w) (hw : w.Inv) :
    (singleProcess server).Safe i t (fun a w' => R a ∧ Knows i t fs w') (onTruthful p) w := by
  refine Discipline.Safe.interpret_of_onlyCalls singleProcess_stable hp hr
    (fun _ _ hk hrely _ => hk.stable hrely) (fun c hc w hk hw => ?_) h hw
  cases c <;> first | exact hc.elim | skip
  all_goals exact safe_query trivial hk (fun r w' hk' _ => safe_ret hk' (fun _ hk => hk))

/-- Sequencing, with failure. -/
theorem safe_tryBind {ε β γ : Type} {x : ExceptT ε (Prog (Services Lightning)) β}
    {f : β → ExceptT ε (Prog (Services Lightning)) γ}
    {P : Except ε β → World truthfulNode → Prop} {Q : Except ε γ → World truthfulNode → Prop}
    (hx : (singleProcess server).Safe i t P (onTruthful x.run) w) (hw : w.Inv)
    (herr : ∀ e w', P (.error e) w' →
      (singleProcess server).Safe i t Q (.ret (.error e)) w')
    (hok : ∀ b w', w'.Inv → P (.ok b) w' →
      (singleProcess server).Safe i t Q (onTruthful (f b).run) w') :
    (singleProcess server).Safe i t Q (onTruthful (x >>= f).run) w := by
  refine Discipline.Safe.interpret_tryBind singleProcess_stable
    (hx.mono (fun o w' hw' ho => ?_)) hw
  cases o with
  | error e => exact herr e w' ho
  | ok b => exact hok b w' hw' ho

/-- **Storing a result** that is justified by what is known. -/
theorem safe_result {result : PaymentResult}
    {k : Except LockSwapError Unit → Prog (Services Truthful) α} (h : Knows i t fs w)
    (hlasting : ∀ f ∈ fs, f.IsLasting)
    (hj : ∀ w', Knows i t fs w' → w'.Justified hash label result)
    (hk : ∀ r w', Knows i t fs w' → w'.Inv → (singleProcess server).Safe i t Q (k r) w') :
    (singleProcess server).Safe i t Q
      (.call (.unlockAddPaymentResult hash label result) k) w := by
  refine safe_call h (fun w' hknows hw' _ r w'' ⟨ch, hserve⟩ => ?_)
  have heffect : w'.Effect i t (.unlockAddPaymentResult hash label result) w'' := by
    rcases World.transact_eq_some hserve with ⟨db, hdb, -, rfl⟩ | ⟨db, hdb, -, rfl⟩ | ⟨e, -, rfl⟩
    · obtain ⟨hswap, rfl⟩ := SwapTables.unlockAddPaymentResult_eq_ok_iff.mp hdb
      exact .result hswap (hj w' hknows)
    · obtain ⟨hswap, rfl⟩ := SwapTables.unlockAddPaymentResult_eq_ok_iff.mp hdb
      exact .result hswap (hj w' hknows)
    · exact .none
  exact ⟨heffect, hk r w'' (hknows.effect hlasting heffect) (hw'.effect heffect)⟩

/-! ## `pay_swap` -/

/-- A swap that was found unpaid stays so until a preimage is stored. -/
theorem safe_unpaidSwap (h : Knows i t [.spawned, .running] w) :
    (singleProcess server).Safe i t
      (fun o w' => onOutcome (fun _ => True) (fun state => state.swap.pub.hash = hash ∧
        Knows i t [.unpaid hash, .spawned, .running] w') o)
      (onTruthful (SwapServer.unpaidSwap hash).run) w := by
  refine safe_call h (fun w' hk hw' _ r w'' hperf => ?_)
  obtain ⟨rfl, hfound⟩ := hperf.getSwapByHash
  have heffect : w'.Effect i t (.getSwapByHash hash)
      { w' with checked := (i, hash) :: w'.checked } := .look hash
  refine ⟨heffect, ?_⟩
  cases r with
  | error e => exact safe_ret Knows.nil (fun _ _ => trivial)
  | ok state =>
    obtain ⟨hmem, hhash⟩ := SwapTables.getSwapByHash_eq_ok (hfound state rfl)
    show (singleProcess server).Safe i t _ (onTruthful (((Prog.rejectIf
      state.preimage.isSome (Status.failedPrecondition "swap already paid") :
        Program Status Unit) >>= fun _ => pure state).run)) _
    unfold Prog.rejectIf
    split
    next => exact safe_ret Knows.nil (fun _ _ => trivial)
    next hnone =>
      have hunpaid : (Fact.unpaid hash).Holds i t
          { w' with checked := (i, hash) :: w'.checked } := by
        intro _ s hs hshash
        rw [hw'.swaps s hs state hmem (hshash.trans hhash.symm)]
        simpa using hnone
      refine safe_ret (Knows.cons hunpaid (hk.effect ?_ heffect)) (fun _ hk => ⟨hhash, hk⟩)
      simp [Fact.IsLasting]

/-- What recording an attempt does, and what its handler knows once it has been
told. -/
theorem World.Performs.lockAdd_effect {a : PaymentAttempt} {r : Except LockSwapError Unit}
    (h : World.Performs truthfulNode i t (.lockAddPaymentAttempt a) w r w')
    (hw : w.Inv) (hk : Knows i t [.unpaid a.paymentHash, .spawned, .running] w)
    (hfresh : a.label ∉ w.db.labels) (hnamed : a.label ≠ "") :
    w.Effect i t (.lockAddPaymentAttempt a) w' ∧
      (r = .ok () → w'.Prepared i t a.paymentHash a.label) := by
  obtain ⟨ch, hserve⟩ := h
  have hmay (hfree : ∀ l ∈ w.db.swapLocks, l.swapPaymentHash ≠ a.paymentHash) :
      w.MayAttempt i a := ⟨hk.tail.head, hfree, hfresh, hnamed, hk.head⟩
  rcases World.transact_eq_some hserve with ⟨db, hdb, -, rfl⟩ | ⟨db, hdb, rfl, rfl⟩ | ⟨e, rfl, rfl⟩
  · obtain ⟨-, hfree, ns, -, rfl⟩ := SwapTables.lockAddPaymentAttempt_eq_ok_iff.mp hdb
    obtain ⟨hhandler, halive⟩ := hk.tail.tail.head
    refine ⟨.attempt _ (hmay hfree), fun _ => ⟨hhandler, halive, List.mem_cons_self, ?_, ?_⟩⟩
    · intro hmem
      obtain ⟨hash, hknown⟩ := TruthfulState.mem_labels_iff.mp hmem
      exact hfresh (hw.known hknown).mem_labels
    · exact Or.inl (SwapTables.paymentLocked_attempted.mpr (Or.inr ⟨rfl, rfl⟩))
  · obtain ⟨-, hfree, ns, -, rfl⟩ := SwapTables.lockAddPaymentAttempt_eq_ok_iff.mp hdb
    exact ⟨.attemptLost _ (hmay hfree), nofun⟩
  · exact ⟨.none, nofun⟩

/-- **The lock**: a handler that has it is prepared to pay. -/
theorem safe_lockForPayment {req : PaySwapRequest} {a : SwapServer.Accepted}
    (hhash : a.swapState.swap.pub.hash = a.invoice.paymentHash)
    (h : Knows i t [.unpaid a.invoice.paymentHash, .spawned, .running] w) (hw : w.Inv) :
    (singleProcess server).Safe i t
      (fun o w' => onOutcome (fun _ => True)
        (fun label => Knows i t [.prepared a.invoice.paymentHash label] w') o)
      (onTruthful (SwapServer.lockForPayment req a).run) w := by
  refine Discipline.Safe.interpret_tryBind singleProcess_stable (safe_query trivial h
    (fun now w₁ h _ => safe_ret h (fun w₂ h => ?_))) hw
  simp only [onOutcome]
  split
  next ns hns =>
    refine safe_call h (fun w' hk hw' hfresh r w'' hperf => ?_)
    rw [← hhash] at hk
    obtain ⟨heffect, hprepared⟩ :=
      hperf.lockAdd_effect hw' hk hfresh (paymentLabel_ne_empty _ _)
    refine ⟨heffect, ?_⟩
    cases r with
    | ok =>
      have hk' : Knows i t [.prepared a.invoice.paymentHash
          (paymentLabel a.invoice.paymentHash ns)] w'' :=
        Knows.cons (hhash ▸ hprepared rfl) Knows.nil
      exact safe_ret hk' (fun _ h => h)
    | error e => cases e <;> exact safe_ret Knows.nil (fun _ _ => trivial)
  next => exact safe_ret Knows.nil (fun _ _ => trivial)

/-- What the node answers a call of a thread, and what that does. -/
theorem World.Performs.node {c : TruthfulCall} {r : c.Reply}
    (h : World.Performs truthfulNode i t (.node c) w r w') :
    ∃ ch n, TruthfulState.serve i t.proc c ch w.node = some (r, n) ∧
      w' = { w with node := n } := by
  obtain ⟨ch, hserve⟩ := h
  cases ch with
  | node ch =>
    obtain ⟨⟨r', n⟩, hnode, heq⟩ := Option.map_eq_some_iff.mp hserve
    cases heq
    exact ⟨ch, n, hnode, rfl⟩
  | _ => cases hserve

/-- **The payment**: it is asked for while it is covered, and its result is
stored on the node's word. -/
theorem safe_payLocked {req : PaySwapRequest} {a : SwapServer.Accepted}
    (hhash : a.swapState.swap.pub.hash = a.invoice.paymentHash)
    (h : Knows i t [.prepared a.invoice.paymentHash label] w) :
    (singleProcess server).Safe i t (fun _ _ => True)
      (onTruthful (server.payLocked req a label).run) w := by
  refine safe_call h (fun w₁ h hw₁ _ _ w₂ hperf => ?_)
  obtain ⟨ch, n, hserve, rfl⟩ := hperf.node
  cases hserve
  refine ⟨.send h.head, ?_⟩
  refine safe_call Knows.nil (fun w₃ _ hw₃ _ r w₄ hperf => ?_)
  obtain ⟨ch, n, hserve, rfl⟩ := hperf.node
  obtain ⟨rfl, hsuccess, hfailure⟩ := TruthfulState.serve_payResult hserve
  refine ⟨.answered, ?_⟩
  cases r with
  | error e => exact safe_ret Knows.nil (fun _ _ => trivial)
  | ok result =>
    cases result with
    | success preimage =>
      have hk : Knows i t [.completed a.swapState.swap.pub.hash label]
          { w₃ with node := { w₃.node with returned := i :: w₃.node.returned } } :=
        Knows.cons (hhash ▸ hsuccess preimage rfl) Knows.nil
      exact safe_result hk (by simp [Fact.IsLasting])
        (fun w hk => ⟨label, hk.head, Or.inl rfl⟩)
        (fun r w _ _ => safe_ret Knows.nil (fun _ _ => trivial))
    | failure error =>
      have hk : Knows i t [.failed a.swapState.swap.pub.hash label]
          { w₃ with node := { w₃.node with returned := i :: w₃.node.returned } } :=
        Knows.cons (hhash ▸ hfailure error rfl) Knows.nil
      exact safe_result hk (by simp [Fact.IsLasting]) (fun w hk => Or.inl hk.head)
        (fun r w _ _ => safe_ret Knows.nil (fun _ _ => trivial))

/-- Queries, and what follows them. -/
theorem safe_queries_bind {β γ : Type} {R : Except Status β → Prop} {x : Program Status β}
    {f : β → Program Status γ} {Q : Except Status γ → World truthfulNode → Prop}
    (hx : x.run.OnlyCalls Call.IsQuery) (hr : x.run.Returns R) (h : Knows i t fs w)
    (hw : w.Inv) (herr : ∀ e w', Q (.error e) w')
    (hf : ∀ b w', R (.ok b) → Knows i t fs w' → w'.Inv →
      (singleProcess server).Safe i t Q (onTruthful (f b).run) w') :
    (singleProcess server).Safe i t Q (onTruthful (x >>= f).run) w := by
  exact safe_tryBind (safe_queries hx hr h hw) hw
    (fun e _ _ => safe_ret Knows.nil (fun _ _ => herr e _))
    (fun b w' hw' ho => hf b w' ho.1 ho.2 hw')

/-- **`pay_swap`.** -/
theorem safe_paySwap {req : PaySwapRequest} (h : Knows i t [.spawned, .running] w)
    (hw : w.Inv) :
    (singleProcess server).Safe i t (fun _ _ => True) (onTruthful (server.paySwap req).run) w := by
  have anything {β : Type} (p : Prog (Services Lightning) β) : p.Returns (fun _ => True) :=
    Prog.Returns.of_forall (fun _ => trivial)
  have haccept : (singleProcess server).Safe i t
      (fun o w' => onOutcome (fun _ => True) (fun a : SwapServer.Accepted =>
        a.swapState.swap.pub.hash = a.invoice.paymentHash ∧
          Knows i t [.unpaid a.invoice.paymentHash, .spawned, .running] w') o)
      (onTruthful (server.acceptPayment req).run) w := by
    refine safe_queries_bind SwapServer.acceptInvoice_onlyCalls (anything _) h hw
      (fun _ _ => trivial) (fun im w₁ _ h hw₁ => ?_)
    refine safe_queries_bind (SwapServer.acceptAmount_onlyCalls _) (anything _) h hw₁
      (fun _ _ => trivial) (fun parameters w₂ _ h hw₂ => ?_)
    refine safe_tryBind (safe_unpaidSwap h) hw₂
      (fun _ _ _ => safe_ret Knows.nil (fun _ _ => trivial)) (fun state w₃ hw₃ ho => ?_)
    refine (safe_queries (SwapServer.acceptOutputs_onlyCalls _ _ _ _)
      (SwapServer.acceptOutputs_returns _ _ _ _) ho.2 hw₃).mono (fun o w₄ _ ho' => ?_)
    cases o with
    | error e => trivial
    | ok a =>
      obtain ⟨⟨hinvoice, hstate⟩, hk⟩ := ho'
      rw [onOutcome, hinvoice, hstate]
      exact ⟨ho.1, hk⟩
  refine safe_tryBind haccept hw (fun _ _ _ => safe_ret Knows.nil (fun _ _ => trivial))
    (fun a w₁ hw₁ ho => ?_)
  exact safe_tryBind (safe_lockForPayment ho.1 ho.2 hw₁) hw₁
    (fun _ _ _ => safe_ret Knows.nil (fun _ _ => trivial))
    (fun label w₂ hw₂ ho' => safe_payLocked ho.1 ho')

/-! ## `refund_swap` -/

/-- What locking for a refund does, and what its handler knows once it has been
told. -/
theorem World.Performs.lockRefund_effect {r : Except LockSwapError Unit}
    (h : World.Performs truthfulNode i t (.lockSwapRefund hash refundId) w r w')
    (hk : Knows i t [.spawned, .idle] w) (hfresh : ∀ o ∈ w.refunds, o.refundId ≠ refundId) :
    w.Effect i t (.lockSwapRefund hash refundId) w' ∧
      (r = .ok () → w'.Refunding i hash refundId) := by
  obtain ⟨ch, hserve⟩ := h
  obtain ⟨hidle, hcleared⟩ := hk.tail.head
  have hmay (hfree : ∀ label, ¬ w.db.PaymentLocked hash label) :
      w.MayLockRefund i hash refundId := ⟨hk.head, hfree, hfresh, hidle, hcleared⟩
  rcases World.transact_eq_some hserve with ⟨db, hdb, -, rfl⟩ | ⟨db, hdb, rfl, rfl⟩ | ⟨e, rfl, rfl⟩
  · obtain ⟨-, hfree, rfl⟩ := SwapTables.lockSwapRefund_eq_ok_iff.mp hdb
    refine ⟨.lockRefund (hmay hfree), fun _ => ⟨List.mem_cons_self, ?_, fun o ho hi => ?_, hcleared⟩⟩
    · exact SwapTables.refundLocked_insertRefundLock.mpr (Or.inr ⟨rfl, rfl⟩)
    · rcases List.mem_cons.mp ho with rfl | ho
      · rfl
      · exact absurd hi (hidle o ho)
  · obtain ⟨-, hfree, rfl⟩ := SwapTables.lockSwapRefund_eq_ok_iff.mp hdb
    exact ⟨.lockRefund (hmay hfree), nofun⟩
  · exact ⟨.none, nofun⟩

/-- Releasing a refund lock. -/
theorem safe_unlockRefund {k : Except LockSwapError Unit → Prog (Services Truthful) α}
    (h : Knows i t [.refunding hash refundId] w)
    (hk : ∀ r w', (singleProcess server).Safe i t Q (k r) w') :
    (singleProcess server).Safe i t Q (.call (.unlockSwapRefund hash refundId) k) w := by
  refine safe_call h (fun w' hknows _ _ r w'' ⟨ch, hserve⟩ => ⟨?_, hk r w''⟩)
  rcases World.transact_eq_some hserve with ⟨db, hdb, -, rfl⟩ | ⟨db, hdb, -, rfl⟩ | ⟨e, -, rfl⟩
  · rw [(SwapTables.unlockSwapRefund_eq_ok_iff.mp hdb).2]
    exact .unlockRefund hknows.head
  · rw [(SwapTables.unlockSwapRefund_eq_ok_iff.mp hdb).2]
    exact .unlockRefund hknows.head
  · exact .none

/-- **The refund**: it is signed once it is locked and cleared. -/
theorem safe_lockForRefund {r : SwapServer.RefundChecked}
    (h : Knows i t [.spawned, .idle] w) :
    (singleProcess server).Safe i t
      (fun o w' => onOutcome (fun _ => True) (fun refunded : RefundedSwap =>
        ∃ refundId, Knows i t [.cleared refunded.hash refundId] w') o)
      (onTruthful (SwapServer.lockForRefund r).run) w := by
  refine safe_call h (fun w₁ hk _ hfresh o w₂ hperf => ?_)
  obtain ⟨heffect, hrefunding⟩ := hperf.lockRefund_effect hk hfresh
  refine ⟨heffect, ?_⟩
  match o with
  | .error .alreadyLocked => exact safe_ret Knows.nil (fun _ _ => trivial)
  | .error .swapNotFound => exact safe_ret Knows.nil (fun _ _ => trivial)
  | .error .general => exact safe_ret Knows.nil (fun _ _ => trivial)
  | .ok () =>
    have hk : Knows i t [.refunding r.swap.swap.pub.hash r.refundId] w₂ :=
      Knows.cons (hrefunding rfl) Knows.nil
    refine safe_call hk (fun w₃ hk _ _ o w₄ hperf => ?_)
    obtain ⟨ch, n, hserve, rfl⟩ := hperf.node
    rcases TruthfulState.serve_hasPendingOrCompletePayment hserve with
      ⟨hne, rfl⟩ | ⟨rfl, rfl, hclosed⟩
    · refine ⟨.none, ?_⟩
      match o with
      | .ok true =>
        exact safe_unlockRefund hk (fun _ _ => safe_ret Knows.nil (fun _ _ => trivial))
      | .ok false => exact absurd rfl hne
      | .error e =>
        exact safe_unlockRefund hk (fun _ _ => safe_ret Knows.nil (fun _ _ => trivial))
    · refine ⟨.clear hk.head hclosed, ?_⟩
      have hcleared : Knows i t [.cleared r.swap.swap.pub.hash r.refundId]
          { w₃ with node := { w₃.node with
            cleared := (i, r.swap.swap.pub.hash) :: w₃.node.cleared } } :=
        Knows.cons ⟨hk.head.owner, List.mem_cons_self⟩ Knows.nil
      exact safe_ret hcleared (fun _ hk => ⟨_, hk⟩)

/-- **`refund_swap`.** -/
theorem safe_refundSwap {req : RefundSwapRequest} (h : Knows i t [.spawned, .idle] w)
    (hw : w.Inv) :
    (singleProcess server).Safe i t
      (fun o w' => onOutcome (fun _ => True) (fun refunded : RefundedSwap =>
        ∃ refundId, Knows i t [.cleared refunded.hash refundId] w') o)
      (onTruthful (server.refundSwap req).run) w :=
  safe_queries_bind (SwapServer.checkRefund_onlyCalls req)
    (Prog.Returns.of_forall (P := fun _ => True) (fun _ => trivial)) h hw
    (fun _ _ => trivial) (fun _ _ _ hk _ => safe_lockForRefund hk)

/-! ## The monitors -/

open HistoricalPaymentMonitor in
/-- An attempt nobody is left to ask for is settled on the node's word, or on
its having no word of it. -/
theorem safe_checkPayment {a : PaymentAttempt} (h : Knows i t fs w)
    (hfs : ∀ f ∈ fs, f.IsLasting) (ha : .orphan a.paymentHash a.label ∈ fs) :
    (singleProcess server).Safe i t
      (fun o w' => Knows i t fs w' ∧ ∀ pending, o = .ok pending → pending ⊆ [a])
      (onTruthful (checkPayment a).run) w := by
  have hstore {w : World truthfulNode} {f : Fact} {r : PaymentResult}
      (h : Knows i t fs w) (hf : f.Holds i t w) (hl : f.IsLasting)
      (hj : ∀ w, f.Holds i t w → w.Justified a.paymentHash a.label r)
      {k : Except LockSwapError Unit →
        Prog (Services Truthful) (Except MonitorError (List PaymentAttempt))}
      (hk : ∀ r, k r = .ret (.ok []) ∨ k r = .ret (.error .general)) :
      (singleProcess server).Safe i t
        (fun o w' => Knows i t fs w' ∧ ∀ pending, o = .ok pending → pending ⊆ [a])
        (.call (.unlockAddPaymentResult a.paymentHash a.label r) k) w := by
    refine safe_result (Knows.cons hf h) (List.forall_mem_cons.mpr ⟨hl, hfs⟩)
      (fun w hk => hj w hk.head) (fun r w' hknows _ => ?_)
    rcases hk r with hr | hr
    · rw [hr]
      refine safe_ret hknows.tail (fun _ hk => ⟨hk, fun pending heq => ?_⟩)
      rw [← Except.ok.inj heq]
      exact List.nil_subset _
    · rw [hr]
      exact safe_ret hknows.tail (fun _ hk => ⟨hk, nofun⟩)
  refine safe_call h (fun w₁ hk hw₁ _ o w₂ hperf => ?_)
  obtain ⟨ch, n, hserve, rfl⟩ := hperf.node
  obtain ⟨rfl, hsuccess, hfailure, hnone⟩ := TruthfulState.serve_getPaymentState hserve
  refine ⟨.none, ?_⟩
  match o with
  | .ok (.success preimage) =>
    exact hstore (f := .completed a.paymentHash a.label) (r := .success preimage) hk
      (hsuccess preimage rfl) trivial (fun w hf => ⟨_, hf, Or.inl rfl⟩)
      (fun r => by cases r <;> first | exact Or.inl rfl | exact Or.inr rfl)
  | .ok (.failure error) =>
    exact hstore (f := .failed a.paymentHash a.label) (r := .failure error) hk
      (hfailure error rfl) trivial (fun w hf => Or.inl hf)
      (fun r => by cases r <;> first | exact Or.inl rfl | exact Or.inr rfl)
  | .ok .pending =>
    refine safe_ret hk (fun _ hk => ⟨hk, fun pending heq => ?_⟩)
    rw [← Except.ok.inj heq]
    exact List.Subset.refl _
  | .error .paymentNotFound =>
    exact hstore (f := .absent a.paymentHash a.label) (r := .failure "cancelled") hk
      ⟨hk _ ha, hnone rfl⟩ trivial (fun w hf => Or.inr hf)
      (fun r => by cases r <;> first | exact Or.inl rfl | exact Or.inr rfl)
  | .error .connectionFailed => exact safe_ret hk (fun _ hk => ⟨hk, nofun⟩)
  | .error .invalidPreimage => exact safe_ret hk (fun _ hk => ⟨hk, nofun⟩)
  | .error (.general _) => exact safe_ret hk (fun _ hk => ⟨hk, nofun⟩)

open HistoricalPaymentMonitor in
theorem safe_doCheckPayments {attempts : List PaymentAttempt} (h : Knows i t fs w)
    (hw : w.Inv) (hfs : ∀ f ∈ fs, f.IsLasting)
    (ha : ∀ a ∈ attempts, .orphan a.paymentHash a.label ∈ fs) :
    (singleProcess server).Safe i t
      (fun o w' => Knows i t fs w' ∧ ∀ pending, o = .ok pending → pending ⊆ attempts)
      (onTruthful (doCheckPayments attempts).run) w := by
  induction attempts generalizing w with
  | nil => exact safe_ret h (fun _ hk => ⟨hk, by simp⟩)
  | cons a attempts ih =>
    obtain ⟨ha, has⟩ := List.forall_mem_cons.mp ha
    refine safe_tryBind (safe_checkPayment h hfs ha) hw
      (fun _ _ ho => safe_ret ho.1 (fun _ hk => ⟨hk, nofun⟩)) (fun pending w₁ hw₁ ho => ?_)
    refine safe_tryBind (ih ho.1 hw₁ has) hw₁
      (fun _ _ ho' => safe_ret ho'.1 (fun _ hk => ⟨hk, nofun⟩)) (fun rest w₂ _ ho' => ?_)
    refine safe_ret ho'.1 (fun _ hk => ⟨hk, fun l heq => ?_⟩)
    rw [← Except.ok.inj heq]
    exact List.append_subset.mpr
      ⟨List.Subset.trans (ho.2 pending rfl) (List.cons_subset_cons a (List.nil_subset _)),
        List.Subset.trans (ho'.2 rest rfl) (List.subset_cons_self ..)⟩

open HistoricalPaymentMonitor in
/-- The passes of the monitor. -/
theorem safe_start {n : ℕ} {attempts : List PaymentAttempt} (h : Knows i t fs w)
    (hw : w.Inv) (hfs : ∀ f ∈ fs, f.IsLasting)
    (ha : ∀ a ∈ attempts, .orphan a.paymentHash a.label ∈ fs) :
    (singleProcess server).Safe i t (fun _ _ => True) (onTruthful (start n attempts)) w := by
  induction n generalizing attempts w with
  | zero => exact fun _ _ _ => trivial
  | succ n ih =>
    cases attempts with
    | nil => exact fun _ _ _ => trivial
    | cons a attempts =>
      refine Discipline.Safe.interpret_bind singleProcess_stable
        ((safe_doCheckPayments h hw hfs ha).mono (fun o w₁ hw₁ ho => ?_)) hw
      cases o with
      | error e => exact ih ho.1 hw₁ ha
      | ok pending => exact ih ho.1 hw₁ (fun b hb => ha b (ho.2 pending rfl hb))

/-- **At the start of a process nothing else runs**, so nobody is left to ask
for the payment of any attempt recorded. -/
theorem World.Inv.orphan_of_starting (hw : w.Inv) (hup : t.proc = i ∧ i ∈ w.up)
    (hstarting : i ∉ w.serving) (hl : w.db.HasAttempt hash label) : w.Orphan hash label := by
  have hserving : w.serving = [] := by
    refine List.eq_nil_iff_forall_not_mem.mpr (fun p hp => ?_)
    rw [hw.up_unique p (hw.serving_up hp) i hup.2] at hp
    exact hstarting hp
  refine ⟨hl, fun o _ _ ⟨proc, halive⟩ => ?_, fun c hc _ => ?_⟩
  · have := hw.live_serving _ halive
    rw [hserving] at this
    cases this
  · have := hw.inflight_serving c hc
    rw [hserving] at this
    cases this

open HistoricalPaymentMonitor in
/-- The monitor takes up attempts nobody is left to ask for. -/
theorem safe_initializeAttempts (h : Knows i t [.up, .starting] w) :
    (singleProcess server).Safe i t
      (fun o w' => ∃ fs : List Fact, (∀ f ∈ fs, f.IsLasting) ∧ .up ∈ fs ∧ Knows i t fs w' ∧
        ∀ attempts, o = .ok attempts → ∀ a ∈ attempts, .orphan a.paymentHash a.label ∈ fs)
      (onTruthful initializeAttempts.run) w := by
  refine safe_call h (fun w₁ hk hw₁ _ r w₂ hperf => ?_)
  have hsame : w₂ = w₁ :=
    hperf.of_isQuery (c := .getUnhandledPaymentAttempts) trivial
  subst hsame
  refine ⟨.none, ?_⟩
  cases r with
  | error e =>
    have hup : Knows i t [.up] w₂ := Knows.cons hk.head Knows.nil
    exact safe_ret hup (fun _ hk => ⟨[.up], by simp [Fact.IsLasting], by simp, hk, nofun⟩)
  | ok attempts =>
    obtain rfl := hperf.getUnhandledPaymentAttempts
    let fs : List Fact := .up ::
      (w₂.db.getUnhandledPaymentAttempts w₂.env.queryOrder).map
        (fun a => .orphan a.paymentHash a.label)
    have hfs : ∀ f ∈ fs, f.IsLasting := by simp [fs, Fact.IsLasting]
    have hknows : Knows i t fs w₂ := by
      refine Knows.cons hk.head (fun f hf => ?_)
      obtain ⟨a, ha, rfl⟩ := List.mem_map.mp hf
      obtain ⟨row, hrow, -, hhash, hlabel⟩ := SwapTables.mem_getUnhandledPaymentAttempts ha
      exact hw₁.orphan_of_starting hk.head hk.tail.head ⟨row, hrow, hhash, hlabel⟩
    have horphan : ∀ a ∈ w₂.db.getUnhandledPaymentAttempts w₂.env.queryOrder,
        .orphan a.paymentHash a.label ∈ fs := fun a ha =>
      List.mem_cons_of_mem _ (List.mem_map_of_mem ha)
    refine (safe_doCheckPayments hknows hw₁ hfs horphan).mono
      (fun o w₄ _ ho => ⟨fs, hfs, List.mem_cons_self, ho.1, ?_⟩)
    exact fun pending hpending a ha => horphan a (ho.2 pending hpending ha)

open HistoricalPaymentMonitor in
/-- **The main thread of a process.** -/
theorem safe_main {passes : ℕ} (h : Knows i t [.up, .starting] w) (hw : w.Inv) :
    (singleProcess server).Safe i t (fun _ _ => True) (onTruthful (main passes)) w := by
  refine Discipline.Safe.interpret_bind singleProcess_stable
    ((safe_initializeAttempts h).mono (fun o w₁ hw₁ ho => ?_)) hw
  obtain ⟨fs, hfs, hup, hk, hattempts⟩ := ho
  refine safe_call hk (fun w₂ hk hw₂ _ r w₃ ⟨ch, hserve⟩ => ?_)
  obtain ⟨hproc, hi⟩ := hk _ hup
  obtain rfl := (Prod.mk.inj (Option.some.inj hserve)).2
  have heffect : w₂.Effect i t .ready { w₂ with serving := t.proc :: w₂.serving } := .ready hproc hi
  refine ⟨heffect, ?_⟩
  cases o with
  | error e => exact fun _ _ _ => trivial
  | ok attempts =>
    exact safe_start (hk.effect hfs heffect) (hw₂.effect heffect) hfs (hattempts _ rfl)

open PreimageMonitor in
/-- A preimage is stored on the node's word. -/
theorem safe_queryPreimage (h : Knows i t fs w) (hfs : ∀ f ∈ fs, f.IsLasting) :
    (singleProcess server).Safe i t (fun _ w' => Knows i t fs w')
      (onTruthful (queryPreimage hash)) w := by
  refine safe_call h (fun w₁ hk hw₁ _ r w₂ hperf => ?_)
  obtain ⟨ch, n, hserve, rfl⟩ := hperf.node
  obtain ⟨rfl, hsome⟩ := TruthfulState.serve_getPreimage hserve
  refine ⟨.none, ?_⟩
  match r with
  | .error e => exact safe_ret hk (fun _ hk => hk)
  | .ok none => exact safe_ret hk (fun _ hk => hk)
  | .ok (some result) =>
    obtain ⟨label, hcompleted, hlabel⟩ := hsome result rfl
    have hk' : Knows i t (.completed hash label :: fs) w₁ := Knows.cons hcompleted hk
    exact safe_result hk' (List.forall_mem_cons.mpr ⟨trivial, hfs⟩)
      (fun w hk => ⟨label, hk.head, hlabel⟩)
      (fun _ _ hk _ => safe_ret hk.tail (fun _ hk => hk))

open PreimageMonitor in
theorem safe_queryPreimages {hashes : List PaymentHash} (hw : w.Inv) :
    (singleProcess server).Safe i t (fun _ _ => True)
      (onTruthful (queryPreimages hashes)) w := by
  induction hashes generalizing w with
  | nil => exact fun _ _ _ => trivial
  | cons hash hashes ih =>
    exact Discipline.Safe.interpret_bind singleProcess_stable
      ((safe_queryPreimage Knows.nil (fun _ hf => nomatch hf)).mono
        (fun _ _ hw₁ _ => ih hw₁)) hw

open PreimageMonitor in
/-- **A pass of the preimage monitor.** -/
theorem safe_doQueryPreimages :
    (singleProcess server).Safe i t (fun _ _ => True)
      (onTruthful doQueryPreimages.run) w := by
  refine safe_query trivial Knows.nil (fun utxos w₁ hk hw₁ => ?_)
  cases utxos with
  | error e => exact fun _ _ _ => trivial
  | ok utxos =>
    refine safe_query trivial hk (fun swaps w₂ hk hw₂ => ?_)
    cases swaps with
    | error e => exact fun _ _ _ => trivial
    | ok swaps =>
      refine safe_query trivial hk (fun order w₃ _ hw₃ => ?_)
      show (singleProcess server).Safe i t _
        (onTruthful (queryPreimages (Table.permute order _) >>= fun u => pure (Except.ok u))) w₃
      exact Discipline.Safe.interpret_bind singleProcess_stable
        ((safe_queryPreimages hw₃).mono (fun _ _ _ _ _ _ _ => trivial)) hw₃

/-! ## All threads -/

theorem World.Later.refl (w : World truthfulNode) : w.Later w :=
  ⟨List.Subset.refl _, List.Subset.refl _, fun _ _ _ _ hp _ => hp⟩

theorem World.Later.trans {w₁ w₂ w₃ : World truthfulNode} (h : w₁.Later w₂)
    (h' : w₂.Later w₃) : w₁.Later w₃ where
  refunds := List.Subset.trans h.refunds h'.refunds
  cleared := List.Subset.trans h.cleared h'.cleared
  payments := fun o ho hx p hp hhash => h.payments o ho hx p
    (h'.payments o (h.refunds ho) (h.cleared hx) p hp hhash) hhash

/-- The program of a thread, once it has been linked. -/
theorem safe_linked {β : Type} {f : β → Outcome} {p : Prog (Services Lightning) β}
    {P : β → World truthfulNode → Prop} {Q : Outcome → World truthfulNode → Prop}
    (hp : (singleProcess server).Safe i t P (onTruthful p) w) (hw : w.Inv)
    (hf : ∀ b w', P b w' → (singleProcess server).Safe i t Q (.ret (f b)) w') :
    (singleProcess server).Safe i t Q (linked truthfulClient f p) w :=
  Discipline.Safe.bind singleProcess_stable (hp.mono (fun b w' _ hb => hf b w' hb)) hw

/-- **A new thread keeps the discipline.** -/
theorem safe_request {r : Request} (hw : w.Inv) (h : w.admits true r) :
    (singleProcess server).Safe w.threads (r.task w.threads)
      (fun o w' => ∀ w'', w'.Later w'' → w''.Inv →
        o.Promised w.threads (r.task w.threads) w'')
      ((r.task w.threads).job.program truthfulClient server) (w.spawned r) := by
  have hw' := hw.spawned h
  cases r with
  | start passes =>
    have hk : Knows w.threads ((Request.start passes).task w.threads) [.up, .starting]
        (w.spawned (.start passes)) :=
      Knows.cons ⟨rfl, List.mem_cons_self⟩ (Knows.cons
        (fun hmem => Nat.lt_irrefl _ (hw.up_lt _ (hw.serving_up hmem))) Knows.nil)
    exact safe_linked (safe_main hk hw') hw'
      (fun _ _ _ => safe_ret Knows.nil (fun _ _ _ _ _ => trivial))
  | pay proc req =>
    have hk : Knows w.threads ((Request.pay proc req).task w.threads) [.spawned, .running]
        (w.spawned (.pay proc req)) :=
      Knows.cons (Nat.lt_succ_self _) (Knows.cons ⟨rfl, List.mem_cons_self⟩ Knows.nil)
    exact safe_linked (safe_paySwap hk hw') hw'
      (fun _ _ _ => safe_ret Knows.nil (fun _ _ _ _ _ => trivial))
  | refund proc req =>
    have hidle : (Fact.idle).Holds w.threads ((Request.refund proc req).task w.threads)
        (w.spawned (.refund proc req)) :=
      ⟨fun o ho => (hw.refunds_lt o ho).ne, fun x hx => (hw.cleared_lt x hx).ne⟩
    have hk : Knows w.threads ((Request.refund proc req).task w.threads) [.spawned, .idle]
        (w.spawned (.refund proc req)) :=
      Knows.cons (Nat.lt_succ_self _) (Knows.cons hidle Knows.nil)
    refine safe_linked (safe_refundSwap hk hw') hw' (fun o w₁ ho => ?_)
    cases o with
    | error e => exact safe_ret Knows.nil (fun _ _ _ _ _ => trivial)
    | ok refunded =>
      obtain ⟨refundId, hcleared⟩ := ho
      refine safe_ret hcleared (fun w₂ hk w₃ hlater _ => ?_)
      exact ⟨refundId, hlater.refunds hk.head.1, hlater.cleared hk.head.2⟩
  | preimage proc =>
    exact safe_linked safe_doQueryPreimages hw'
      (fun _ _ _ => safe_ret Knows.nil (fun _ _ _ _ _ => trivial))

/-- **The discipline of one process is sound.** -/
theorem singleProcess_sound : (singleProcess server).Sound where
  toStable := singleProcess_stable
  later_refl := World.Later.refl
  later_trans := World.Later.trans
  guar_rely := fun hij hw _ h f hf => h.fact hij.symm hw hf
  guar_later := fun _ _ h =>
    ⟨h.refunds_subset, h.cleared_subset, fun _ _ _ _ hp _ => h.payments ▸ hp⟩
  drift := fun {m w w'} hw h => by
    refine ⟨hw.move h, fun i t f hf => World.fact_of_move h hf, ?_⟩
    cases m with
    | env env =>
      cases h
      exact ⟨List.Subset.refl _, List.Subset.refl _, fun _ _ _ _ hp _ => hp⟩
    | node act =>
      obtain ⟨n, hact, rfl⟩ := Option.map_eq_some_iff.mp h
      refine ⟨List.Subset.refl _, ?_, fun o ho hx p hp hhash => ?_⟩
      · exact (TruthfulState.act_ghosts hact).2.symm ▸ List.Subset.refl _
      · exact ((hw.quiet o ho hx).2.act hact).2 p hp hhash
    | addSwap swap =>
      simp only [World.move] at h
      split at h
      · cases h
      · cases h
        exact ⟨List.Subset.refl _, List.Subset.refl _, fun _ _ _ _ hp _ => hp⟩
  spawn := fun {r n w t p w'} hw h => by
    simp only at h
    split at h
    next hadmits =>
      obtain ⟨rfl, hadmits⟩ := hadmits
      cases h
      refine ⟨hw.spawned hadmits, fun i u _ f hf => World.fact_of_spawned hw hf, ?_,
        safe_request hw hadmits⟩
      refine ⟨?_, ?_, fun o ho hx p hp hhash => ?_⟩ <;> cases r
      all_goals first | exact List.Subset.refl _ | exact hp
    next => cases h
  halt := fun {s w w'} hw h => by
    cases h
    refine ⟨hw.stopped s, fun i t hs f hf => World.fact_of_stopped ?_ hf, ?_⟩
    · cases s <;> exact hs
    · refine ⟨?_, ?_, fun o ho hx p hp hhash => ?_⟩ <;> cases s
      all_goals first | exact List.Subset.refl _ | exact hp

/-- The start of a deployment satisfies the invariant. -/
theorem singleProcess_initial {S : (swapd truthfulNode truthfulClient server true).Config}
    (h : IsInitial truthfulNode truthfulClient server true TruthfulState.IsInitial S) :
    (singleProcess server).Ok S := by
  obtain ⟨⟨db, env, node, threads, up, serving, live, attempts, refunds, checked⟩, ts⟩ := S
  obtain ⟨rfl, hnode, rfl, rfl, rfl, rfl, rfl, rfl, rfl, hrows, hlocks, hunpaid⟩ := h
  obtain rfl : node = ⟨[], [], [], []⟩ := hnode
  refine ⟨?_, fun i T hT => nomatch hT⟩
  have hfree {hash : PaymentHash} {l : String} : ¬ db.PaymentLocked hash l := by
    unfold SwapTables.PaymentLocked
    rw [hlocks]
    exact List.not_mem_nil
  exact {
    locks := ⟨fun h => absurd h hfree, fun h => absurd h hfree⟩
    swaps := fun s hs s' hs' _ => (hunpaid s hs).trans (hunpaid s' hs').symm
    covered := fun h => h.elim (fun h => nomatch h) (fun ⟨_, h⟩ => nomatch h)
    nodup := List.nodup_nil
    known := fun h => h.elim (fun ⟨_, h⟩ => nomatch h) (fun ⟨_, h⟩ => nomatch h)
    owned := fun _ h => nomatch h
    owners := fun _ h => nomatch h
    attempts_lt := fun _ h => nomatch h
    refunds_lt := fun _ h => nomatch h
    cleared_lt := fun _ h => nomatch h
    up_lt := fun _ h => nomatch h
    up_unique := fun _ h => nomatch h
    serving_up := List.nil_subset _
    live_serving := fun _ h => nomatch h
    inflight_serving := fun _ h => nomatch h
    refundIds := fun _ h => nomatch h
    quiet := fun _ h => nomatch h }

end Swapd
