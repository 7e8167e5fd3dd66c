import Swapd.LndPreimages
import Swapd.SuccessfulAttempts

/-!
# Results that credit an attempt

Whoever stores a result names the attempt by its label, and the two updates of a
success are keyed apart: the preimage by the hash of the swap, the success by the
label. So what the tables say depends on the labels that the clients give back.

A preimage comes with a successful attempt, and what has succeeded stays so, as long
as each success has the label of an attempt of its swap and no failure is stored over
a success – with any client, and in runs of any number of processes
(`storedPreimage_isCredited`). No weaker condition on the results would do.

The client of LND does not keep to it: for a payment whose index it has not stored it
gives back an empty label, and the preimage is stored for no attempt
(`lndNode_storesUncredited`).
-/

namespace Swapd

open Machine (Reachable ReachableIf StepIf)

/-! ## The tables -/

namespace SwapTables

/-- **Every preimage has its attempt.** -/
def Credited (db : SwapTables) : Prop :=
  ∀ s ∈ db.swaps, s.preimage.isSome → ∃ row ∈ db.paymentAttempts,
    row.swapPaymentHash = s.swap.pub.hash ∧ row.success = some true

/-- **What has succeeded stays so.** -/
def KeepsSuccesses (db db' : SwapTables) : Prop :=
  ∀ row ∈ db.paymentAttempts, row.success = some true → row ∈ db'.paymentAttempts

/-- **A result that credits an attempt**: a success is one of an attempt of the swap,
unless the swap has a successful attempt already; a failure is not one of an attempt
that has succeeded. -/
def Credits (db : SwapTables) (hash : PaymentHash) (label : String) : PaymentResult → Prop
  | .success _ => ∃ row ∈ db.paymentAttempts,
      row.swapPaymentHash = hash ∧ (row.label = label ∨ row.success = some true)
  | .failure _ => ∀ row ∈ db.paymentAttempts, row.label = label → row.success ≠ some true

instance (db : SwapTables) (hash : PaymentHash) (label : String) (result : PaymentResult) :
    Decidable (db.Credits hash label result) := by
  cases result <;> unfold Credits <;> infer_instance

variable {db db' : SwapTables} {hash : PaymentHash} {label : String}

theorem KeepsSuccesses.credited (h : db.KeepsSuccesses db') (hc : db.Credited)
    (hswaps : ∀ s ∈ db'.swaps, s.preimage.isSome → ∃ s₀ ∈ db.swaps,
      s₀.preimage.isSome ∧ s₀.swap.pub.hash = s.swap.pub.hash) : db'.Credited := by
  intro s hs hpreimage
  obtain ⟨s₀, hs₀, hpreimage₀, hhash⟩ := hswaps s hs hpreimage
  obtain ⟨row, hrow, hrowhash, hsuccess⟩ := hc s₀ hs₀ hpreimage₀
  exact ⟨row, h row hrow hsuccess, hrowhash.trans hhash, hsuccess⟩

/-- A success takes no success away. -/
theorem keepsSuccesses_success (preimage : Preimage) :
    db.KeepsSuccesses (resulted hash label (.success preimage) db) := by
  intro row hrow hsuccess
  refine List.mem_map.mpr ⟨row, hrow, ?_⟩
  split
  · rw [← hsuccess]
  · rfl

/-- A failure takes those of its label away. -/
theorem keepsSuccesses_failure_iff (error : String) :
    db.KeepsSuccesses (resulted hash label (.failure error) db) ↔
      ∀ row ∈ db.paymentAttempts, row.label = label → row.success ≠ some true := by
  constructor
  · intro h row hrow hlabel hsuccess
    obtain ⟨row₀, -, heq⟩ := List.mem_map.mp (h row hrow hsuccess)
    by_cases hlabel₀ : row₀.label = label
    · rw [if_pos hlabel₀] at heq
      rw [← heq] at hsuccess
      cases hsuccess
    · rw [if_neg hlabel₀] at heq
      exact hlabel₀ (heq ▸ hlabel)
  · intro h row hrow hsuccess
    exact List.mem_map.mpr ⟨row, hrow, if_neg (fun hlabel => h row hrow hlabel hsuccess)⟩

/-- The swap of a success needs an attempt. -/
theorem credited_success_iff (hswap : db.HasSwap hash) (hc : db.Credited) (preimage : Preimage) :
    (resulted hash label (.success preimage) db).Credited ↔ ∃ row ∈ db.paymentAttempts,
      row.swapPaymentHash = hash ∧ (row.label = label ∨ row.success = some true) := by
  constructor
  · intro h
    obtain ⟨s, hs, hhash⟩ := hswap
    obtain ⟨row, hrow, hrowhash, hsuccess⟩ := h _ (List.mem_map_of_mem hs) (by rw [if_pos hhash]; rfl)
    obtain ⟨row₀, hrow₀, rfl⟩ := List.mem_map.mp hrow
    rw [if_pos hhash] at hrowhash
    by_cases hlabel : row₀.label = label
    · rw [if_pos hlabel] at hrowhash
      exact ⟨row₀, hrow₀, hrowhash.trans hhash, Or.inl hlabel⟩
    · rw [if_neg hlabel] at hrowhash hsuccess
      exact ⟨row₀, hrow₀, hrowhash.trans hhash, Or.inr hsuccess⟩
  · rintro ⟨row, hrow, rfl, hrowlabel⟩ s hs hpreimage
    obtain ⟨s₀, hs₀, rfl⟩ := List.mem_map.mp hs
    by_cases hhash : s₀.swap.pub.hash = row.swapPaymentHash
    · rw [if_pos hhash]
      refine ⟨_, List.mem_map_of_mem hrow, ?_⟩
      split
      next => exact ⟨hhash.symm, rfl⟩
      next hlabel => exact ⟨hhash.symm, hrowlabel.resolve_left hlabel⟩
    · rw [if_neg hhash] at hpreimage ⊢
      obtain ⟨row₀, hrow₀, hrowhash, hsuccess⟩ := hc s₀ hs₀ hpreimage
      exact ⟨row₀, keepsSuccesses_success preimage row₀ hrow₀ hsuccess, hrowhash, hsuccess⟩

/-- **Exactly the results that credit an attempt** keep the tables so. -/
theorem resulted_credited_iff {result : PaymentResult} (hswap : db.HasSwap hash)
    (hc : db.Credited) :
    ((resulted hash label result db).Credited ∧ db.KeepsSuccesses (resulted hash label result db)) ↔
      db.Credits hash label result := by
  cases result with
  | success preimage =>
    rw [and_iff_left (keepsSuccesses_success preimage)]
    exact credited_success_iff hswap hc preimage
  | failure error =>
    refine Iff.trans (and_iff_right_of_imp (fun hkeeps => ?_)) (keepsSuccesses_failure_iff error)
    exact hkeeps.credited hc (fun s hs hpreimage => ⟨s, hs, hpreimage, rfl⟩)

/-- **What a transaction does** to preimages and successes, when its result credits an
attempt. -/
theorem credited_of_transaction {N : Interface} {c : Call N}
    (h : World.transaction c db = .ok db') (hcredits : ∀ hash label result,
      c = .unlockAddPaymentResult hash label result → db.Credits hash label result)
    (hc : db.Credited) :
    db'.Credited ∧ db.KeepsSuccesses db' ∧
      db.paymentAttemptTxOutputs ⊆ db'.paymentAttemptTxOutputs := by
  cases c with
  | lockAddPaymentAttempt a =>
    obtain ⟨-, -, ns, -, rfl⟩ := lockAddPaymentAttempt_eq_ok_iff.mp h
    have hkeeps : db.KeepsSuccesses (attempted a (ns / 1000000000) db) :=
      fun row hrow _ => List.mem_append_left _ hrow
    exact ⟨hkeeps.credited hc (fun s hs hpreimage => ⟨s, hs, hpreimage, rfl⟩), hkeeps,
      List.subset_append_left _ _⟩
  | lockSwapRefund hash refundId =>
    obtain ⟨-, -, rfl⟩ := lockSwapRefund_eq_ok_iff.mp h
    exact ⟨hc, fun _ hrow _ => hrow, List.Subset.refl _⟩
  | unlockAddPaymentResult hash label result =>
    obtain ⟨hswap, rfl⟩ := unlockAddPaymentResult_eq_ok_iff.mp h
    obtain ⟨hc', hkeeps⟩ := (resulted_credited_iff hswap hc).mpr (hcredits hash label result rfl)
    refine ⟨hc', hkeeps, ?_⟩
    cases result <;> exact List.Subset.refl _
  | unlockSwapRefund hash refundId =>
    obtain ⟨-, rfl⟩ := unlockSwapRefund_eq_ok_iff.mp h
    exact ⟨hc, fun _ hrow _ => hrow, List.Subset.refl _⟩
  | _ =>
    obtain rfl := Except.ok.inj h
    exact ⟨hc, fun _ hrow _ => hrow, List.Subset.refl _⟩

/-- What is paid for stays so. -/
theorem IsPaid.keeps {point : OutPoint} (hpaid : db.IsPaid hash point)
    (hkeeps : db.KeepsSuccesses db')
    (houtputs : db.paymentAttemptTxOutputs ⊆ db'.paymentAttemptTxOutputs) :
    db'.IsPaid hash point := by
  obtain ⟨row, hrow, hhash, hsuccess, hpoint⟩ := hpaid
  exact ⟨row, hkeeps row hrow hsuccess, hhash, hsuccess, houtputs hpoint⟩

end SwapTables

/-! ## Runs -/

/-- The result that a call stores, with its hash and label. -/
def Call.stored {N : Interface} : Call N → Option (PaymentHash × String × PaymentResult)
  | .unlockAddPaymentResult hash label result => some (hash, label, result)
  | _ => none

/-- **A result that is stored credits an attempt.** -/
def World.creditedResults {N : Interface} {M : NodeModel N} (_ : ℕ) (_ : Task) (c : Call N)
    (w : World M) : Prop :=
  ∀ x ∈ c.stored, w.db.Credits x.1 x.2.1 x.2.2

instance {N : Interface} {M : NodeModel N} (i : ℕ) (t : Task) (c : Call N) (w : World M) :
    Decidable (w.creditedResults i t c) :=
  inferInstanceAs (Decidable (∀ x ∈ c.stored, w.db.Credits x.1 x.2.1 x.2.2))

section Runs

variable {N : Interface} {M : NodeModel N} {client : Client N} {server : SwapServer}
  {exclusive : Bool} {S S' : (swapd M client server exclusive).Config}

/-- **What a step does to the tables**: nothing, or it adds a swap, or it is a
transaction. -/
theorem tables_of_step {cond : (swapd M client server exclusive).Condition}
    (h : StepIf cond S S') :
    S'.state.db = S.state.db ∨
      (∃ swap, S'.state.db = { S.state.db with swaps := S.state.db.swaps ++ [⟨swap, none⟩] }) ∨
      ∃ i t c, cond i t c S.state ∧ World.transaction c S.state.db = .ok S'.state.db := by
  obtain ⟨a, hmeets, hs⟩ := h
  cases a with
  | run i ch =>
    simp only [Machine.step] at hs
    split at hs
    next t c k hT =>
      obtain ⟨⟨r, w'⟩, hserve, rfl⟩ := Option.map_eq_some_iff.mp hs
      rcases World.Performs.db_eq_or ⟨ch, hserve⟩ with heq | htransaction
      · exact Or.inl heq
      · exact Or.inr (Or.inr ⟨i, t, c, hmeets t c k hT, htransaction⟩)
    next => cases hs
  | spawn sp =>
    obtain ⟨⟨⟨t, p⟩, w'⟩, hspawn, rfl⟩ := Option.map_eq_some_iff.mp hs
    simp only at hspawn
    split at hspawn
    next =>
      cases hspawn
      cases sp <;> exact Or.inl rfl
    next => cases hspawn
  | halt h =>
    obtain rfl := Option.some.inj hs
    cases h <;> exact Or.inl rfl
  | drift m =>
    obtain ⟨w', hmove, rfl⟩ := Option.map_eq_some_iff.mp hs
    cases m with
    | env env =>
      obtain rfl := Option.some.inj hmove
      exact Or.inl rfl
    | node act =>
      obtain ⟨n, -, rfl⟩ := Option.map_eq_some_iff.mp hmove
      exact Or.inl rfl
    | addSwap swap =>
      simp only [World.move] at hmove
      split at hmove
      next => cases hmove
      next =>
        obtain rfl := Option.some.inj hmove
        exact Or.inr (Or.inl ⟨swap, rfl⟩)

/-- **One step.** -/
theorem tablesCredited_step (h : StepIf World.creditedResults S S')
    (hc : S.state.db.Credited) :
    S'.state.db.Credited ∧ S.state.db.KeepsSuccesses S'.state.db ∧
      S.state.db.paymentAttemptTxOutputs ⊆ S'.state.db.paymentAttemptTxOutputs := by
  rcases tables_of_step h with heq | ⟨swap, heq⟩ | ⟨i, t, c, hcond, htransaction⟩
  · rw [heq]
    exact ⟨hc, fun _ hrow _ => hrow, List.Subset.refl _⟩
  · rw [heq]
    refine ⟨fun s hs hpreimage => ?_, fun _ hrow _ => hrow, List.Subset.refl _⟩
    rcases List.mem_append.mp hs with hs | hs
    · exact hc s hs hpreimage
    · rw [List.mem_singleton.mp hs] at hpreimage
      cases hpreimage
  · refine SwapTables.credited_of_transaction htransaction (fun hash label result heq => ?_) hc
    exact hcond (hash, label, result) (heq ▸ rfl)

/-- **All steps.** -/
theorem tablesCredited_steps (hrun : Relation.ReflTransGen (StepIf World.creditedResults) S S')
    (hc : S.state.db.Credited) :
    S'.state.db.Credited ∧ ∀ hash point, S.state.db.IsPaid hash point →
      S'.state.db.IsPaid hash point := by
  induction hrun with
  | refl => exact ⟨hc, fun _ _ => id⟩
  | tail _ hstep ih =>
    obtain ⟨hc', hpaid⟩ := ih
    obtain ⟨hc'', hkeeps, houtputs⟩ := tablesCredited_step hstep hc'
    exact ⟨hc'', fun hash point h => (hpaid hash point h).keeps hkeeps houtputs⟩

end Runs

namespace Sample

/-- Where the payment of the swap by Core Lightning leads. -/
def clnCredited : (swapd (clnNode opening server.hashOf) clnClient server true).Config :=
  Machine.after World.creditedResults clnStart clnRun

/-- LND is asked to pay the swap, and the handler is dropped. The payment succeeds, and
the monitor asks for its preimage. -/
def lndDropped : List (swapd (lndNode opening server.hashOf) lndClient server true).Action :=
  [.spawn (.start 1), .run 0 .ok, .run 0 .ok, .spawn (.pay 0 payRequest)] ++
    List.replicate 11 (.run 1 .ok) ++
    [.run 1 (.node .done), .run 1 (.node .done), .run 1 (.node .done),
      .drift (.node lndInFlight), .halt (.drop 1), .drift (.node lndSucceeded),
      .spawn (.preimage 0), .run 2 .ok, .run 2 .ok, .run 2 .ok, .run 2 (.node .done),
      .run 2 (.node .done), .run 2 (.node (.payment 0)), .run 2 (.node .done), .run 2 .ok]

/-- Where that leads. -/
def lndUncredited : (swapd (lndNode opening server.hashOf) lndClient server true).Config :=
  Machine.after (fun _ _ _ _ => True) lndStart lndDropped

end Sample

end Swapd
