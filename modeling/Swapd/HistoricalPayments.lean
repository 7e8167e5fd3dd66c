import Swapd.Monitors
import Swapd.TableChanges

/-!
# Payments from before

The historical payment monitor goes through its attempts in passes. A pass that fails
has stored some results and keeps the list, so a later pass stores them once more.
By then a user may have locked the swap again, with a new label.

What a stored result leaves behind is `Settled`: the lock of the label is gone, the
attempt is marked, the swap has its preimage. Storing the result again changes
nothing of that (`Settled.resulted_self`), and nothing that happens in between takes it
back, since labels are not used twice and the node does not change what it says of a
payment once it is final (`Settled.applies`).
-/

namespace Swapd

/-- **How payments end**: what the node says of a payment once it is final. -/
structure Outcomes where
  result : PaymentHash → String → PaymentResult
  preimage : PaymentHash → Preimage
  preimage_eq : ∀ {hash label p}, result hash label = .success p → p = preimage hash

namespace SwapTables

variable {db db' : SwapTables} {hash : PaymentHash} {label : String} {result : PaymentResult}

/-! ## Storing a result twice -/

/-- An attempt is marked. -/
def markAttempt : PaymentResult → PaymentAttemptRow → PaymentAttemptRow
  | .success _, row => { row with success := some true }
  | .failure error, row => { row with success := some false, error := some error }

/-- A swap is given its preimage. -/
def markSwap : PaymentResult → SwapState → SwapState
  | .success preimage, s => { s with preimage := some preimage }
  | .failure _, s => s

/-- **What storing a result does.** -/
theorem resulted_eq : resulted hash label result db = { db with
    swaps := db.swaps.map (fun s => if s.swap.pub.hash = hash then markSwap result s else s)
    paymentAttempts := db.paymentAttempts.map (fun row =>
      if row.label = label then markAttempt result row else row)
    swapLocks := db.swapLocks.filter (fun l => l ≠ ⟨hash, .payment label⟩) } := by
  cases result with
  | success preimage => rfl
  | failure error =>
    simp only [markSwap, ite_self, List.map_id']
    rfl

@[simp] theorem markAttempt_label {row : PaymentAttemptRow} :
    (markAttempt result row).label = row.label := by
  cases result <;> rfl

@[simp] theorem markAttempt_markAttempt {row : PaymentAttemptRow} :
    markAttempt result (markAttempt result row) = markAttempt result row := by
  cases result <;> rfl

@[simp] theorem markSwap_swap {s : SwapState} : (markSwap result s).swap = s.swap := by
  cases result <;> rfl

@[simp] theorem markSwap_markSwap {s : SwapState} :
    markSwap result (markSwap result s) = markSwap result s := by
  cases result <;> rfl

/-- **A result that has been stored.** -/
structure Settled (hash : PaymentHash) (label : String) (result : PaymentResult)
    (db : SwapTables) : Prop where
  attempt : db.HasAttempt hash label
  hasSwap : db.HasSwap hash
  unlocked : ¬db.PaymentLocked hash label
  marked : ∀ row ∈ db.paymentAttempts, row.label = label → markAttempt result row = row
  known : ∀ s ∈ db.swaps, s.swap.pub.hash = hash → markSwap result s = s

/-- **Storing it again changes nothing.** -/
theorem Settled.resulted_self (h : db.Settled hash label result) :
    resulted hash label result db = db := by
  have hlocks : db.swapLocks.filter (fun l => l ≠ ⟨hash, .payment label⟩) = db.swapLocks := by
    refine List.filter_eq_self.mpr (fun l hl => decide_eq_true ?_)
    exact ne_of_mem_of_not_mem hl h.unlocked
  have hattempts : db.paymentAttempts.map (fun row => if row.label = label then
      markAttempt result row else row) = db.paymentAttempts := by
    refine (List.map_congr_left (fun row hrow => ?_)).trans (List.map_id _)
    split
    next heq => exact h.marked row hrow heq
    next => rfl
  have hswaps : db.swaps.map (fun s => if s.swap.pub.hash = hash then markSwap result s else s)
      = db.swaps := by
    refine (List.map_congr_left (fun s hs => ?_)).trans (List.map_id _)
    split
    next heq => exact h.known s hs heq
    next => rfl
  rw [resulted_eq, hlocks, hattempts, hswaps]

/-- **Once stored, a result is settled.** -/
theorem settled_resulted (hattempt : db.HasAttempt hash label) (hswap : db.HasSwap hash) :
    (resulted hash label result db).Settled hash label result where
  attempt := hattempt.resulted
  hasSwap := by
    rw [resulted_eq]
    obtain ⟨s, hs, rfl⟩ := hswap
    refine ⟨_, List.mem_map_of_mem hs, ?_⟩
    rw [if_pos rfl, markSwap_swap]
  unlocked := fun h => (paymentLocked_resulted.mp h).2 ⟨rfl, rfl⟩
  marked := by
    intro row hrow hlabel
    rw [resulted_eq] at hrow
    obtain ⟨row₀, -, rfl⟩ := List.mem_map.mp hrow
    by_cases heq : row₀.label = label
    · rw [if_pos heq, markAttempt_markAttempt]
    · rw [if_neg heq] at hlabel
      exact absurd hlabel heq
  known := by
    intro s hs hhash
    rw [resulted_eq] at hs
    obtain ⟨s₀, -, rfl⟩ := List.mem_map.mp hs
    by_cases heq : s₀.swap.pub.hash = hash
    · rw [if_pos heq, markSwap_markSwap]
    · rw [if_neg heq] at hhash
      exact absurd hhash heq

end SwapTables

/-! ## What may happen in between -/

namespace Outcomes

open SwapTables (markAttempt markSwap markSwap_markSwap)

variable (outcomes : Outcomes)

/-- **A change that fits**: a new attempt has a label of its own, and a result that is
stored for a label is how the payment of its attempt ended. -/
def Admits (db : SwapTables) : TableChange → Prop
  | .transaction (.lockAddPaymentAttempt a) => a.label ∉ db.labels
  | .transaction (.unlockAddPaymentResult hash label result) =>
    result = outcomes.result hash label ∧
      ∀ row ∈ db.paymentAttempts, row.label = label → row.swapPaymentHash = hash
  | _ => True

variable {outcomes} {change : TableChange} {db db' : SwapTables} {hash : PaymentHash}
  {label : String}

/-- Labels stay distinct. -/
theorem Admits.labels_nodup (hadmits : outcomes.Admits db change)
    (happlies : TableChange.Applies db change db') (hnodup : db.labels.Nodup) : db'.labels.Nodup := by
  cases happlies with
  | attempted =>
    rw [SwapTables.labels_attempted, ← List.concat_eq_append]
    exact hnodup.concat hadmits
  | resulted =>
    rw [SwapTables.labels_resulted]
    exact hnodup
  | _ => exact hnodup

/-- A lock that is gone stays so. -/
theorem Admits.unlocked (hadmits : outcomes.Admits db change)
    (happlies : TableChange.Applies db change db') (hattempt : db.HasAttempt hash label)
    (h : ¬db.PaymentLocked hash label) : ¬db'.PaymentLocked hash label := by
  intro hlocked
  cases happlies with
  | attempted =>
    rcases SwapTables.paymentLocked_attempted.mp hlocked with hlocked | ⟨-, rfl⟩
    · exact h hlocked
    · exact hadmits hattempt.mem_labels
  | refundLocked => exact h (SwapTables.paymentLocked_insertRefundLock.mp hlocked)
  | resulted => exact h (SwapTables.paymentLocked_resulted.mp hlocked).1
  | refundUnlocked => exact h (SwapTables.paymentLocked_deleteRefundLock.mp hlocked)
  | added => exact h hlocked
  | unchanged => exact h hlocked

/-- An attempt stays as it is marked. -/
theorem Admits.marked (hadmits : outcomes.Admits db change)
    (happlies : TableChange.Applies db change db') (hattempt : db.HasAttempt hash label)
    (h : ∀ row ∈ db.paymentAttempts, row.label = label →
      markAttempt (outcomes.result hash label) row = row) :
    ∀ row ∈ db'.paymentAttempts, row.label = label →
      markAttempt (outcomes.result hash label) row = row := by
  intro row hrow hlabel
  cases happlies with
  | attempted =>
    rw [SwapTables.attempted_paymentAttempts, List.mem_append, List.mem_singleton] at hrow
    rcases hrow with hrow | rfl
    · exact h row hrow hlabel
    · have hmem := hattempt.mem_labels
      rw [← hlabel] at hmem
      exact absurd hmem hadmits
  | @resulted hash' label' result' =>
    rw [SwapTables.resulted_eq] at hrow
    obtain ⟨row₀, hrow₀, rfl⟩ := List.mem_map.mp hrow
    by_cases heq : row₀.label = label'
    · rw [if_pos heq, SwapTables.markAttempt_label] at hlabel
      -- The label is that of the attempt, so the result is.
      obtain ⟨row₁, hrow₁, rfl, hlabel₁⟩ := hattempt
      obtain ⟨rfl, hhash⟩ := hadmits
      have hlabel' : label' = label := heq.symm.trans hlabel
      rw [if_pos heq, hhash row₁ hrow₁ (hlabel₁.trans hlabel'.symm), hlabel',
        SwapTables.markAttempt_markAttempt]
    · rw [if_neg heq] at hlabel ⊢
      exact h row₀ hrow₀ hlabel
  | _ => exact h row hrow hlabel

/-- A preimage stays as it is known. -/
theorem Admits.known (hadmits : outcomes.Admits db change)
    (happlies : TableChange.Applies db change db') (hswap : db.HasSwap hash)
    (h : ∀ s ∈ db.swaps, s.swap.pub.hash = hash →
      markSwap (outcomes.result hash label) s = s) :
    ∀ s ∈ db'.swaps, s.swap.pub.hash = hash → markSwap (outcomes.result hash label) s = s := by
  intro s hs hhash
  cases happlies with
  | @resulted hash' label' result' =>
    rw [SwapTables.resulted_eq] at hs
    obtain ⟨s₀, hs₀, rfl⟩ := List.mem_map.mp hs
    by_cases heq : s₀.swap.pub.hash = hash'
    · rw [if_pos heq, SwapTables.markSwap_swap] at hhash
      obtain ⟨rfl, -⟩ := hadmits
      rw [if_pos heq, ← heq, hhash]
      -- One hash has one preimage.
      cases hr : outcomes.result hash label with
      | failure error => rfl
      | success p =>
        cases hr' : outcomes.result hash label' with
        | failure error =>
          have := h s₀ hs₀ hhash
          rwa [hr] at this
        | success p' => rw [outcomes.preimage_eq hr, outcomes.preimage_eq hr', markSwap_markSwap]
    · rw [if_neg heq] at hhash ⊢
      exact h s₀ hs₀ hhash
  | added hnew =>
    rcases List.mem_append.mp hs with hs | hs
    · exact h s hs hhash
    · rw [List.mem_singleton.mp hs] at hhash
      exact absurd (hhash ▸ hswap) hnew
  | _ => exact h s hs hhash

/-- **What is settled stays settled.** -/
theorem Admits.settled (hadmits : outcomes.Admits db change)
    (happlies : TableChange.Applies db change db')
    (h : db.Settled hash label (outcomes.result hash label)) :
    db'.Settled hash label (outcomes.result hash label) where
  attempt := happlies.hasAttempt h.attempt
  hasSwap := happlies.hasSwap h.hasSwap
  unlocked := hadmits.unlocked happlies h.attempt h.unlocked
  marked := hadmits.marked happlies h.attempt h.marked
  known := hadmits.known happlies h.hasSwap h.known

end Outcomes

/-! ## A pass -/

namespace HistoricalPaymentMonitor

open Prog

variable {M : NodeModel Lightning} {i : ℕ} {t : Task}

/-- The events of the monitor. -/
abbrev MonitorEvents (M : NodeModel Lightning) : Type := List (Event (Services Lightning) (World M))

/-- The result that an answer of the node amounts to, if it is final. -/
def finalResult : Except LightningError PaymentState → Option PaymentResult
  | .ok (.success preimage) => some (.success preimage)
  | .ok (.failure error) => some (.failure error)
  | .error .paymentNotFound => some (.failure "cancelled")
  | _ => none

/-- **What a pass does**: it asks for the state of its attempts, and stores what it is
told. -/
def Handles (attempts : List PaymentAttempt) (tr : MonitorEvents M) : Call Lightning → Prop
  | .node (.getPaymentState hash label) =>
    ∃ a ∈ attempts, a.paymentHash = hash ∧ a.label = label
  | .unlockAddPaymentResult hash label result =>
    (∃ a ∈ attempts, a.paymentHash = hash ∧ a.label = label) ∧
      ∃ answer, Replied tr (.node (.getPaymentState hash label)) answer ∧
        finalResult answer = some result
  | _ => False

/-- **A result has been stored for an attempt.** -/
def Resolved (tr : MonitorEvents M) (a : PaymentAttempt) : Prop :=
  ∃ (result : PaymentResult) (w w' : World M),
    (⟨.unlockAddPaymentResult a.paymentHash a.label result, w, .ok (), w'⟩ :
      Event (Services Lightning) (World M)) ∈ tr ∧
    w.db.unlockAddPaymentResult a.paymentHash a.label result = .ok w'.db

variable {attempts : List PaymentAttempt} {a : PaymentAttempt} {tr tr' : MonitorEvents M}

theorem Resolved.mono (h : Resolved tr a) (hsub : tr ⊆ tr') : Resolved tr' a := by
  obtain ⟨result, w, w', hmem, hdb⟩ := h
  exact ⟨result, w, w', hsub hmem, hdb⟩

/-- **An attempt is kept, or has a result.** -/
def KeepsOrResolves (attempts : List PaymentAttempt) (tr : MonitorEvents M) :
    Except MonitorError (List PaymentAttempt) → Prop :=
  onOutcome (fun _ => True)
    (fun pending => pending.Sublist attempts ∧ ∀ a ∈ attempts, a ∈ pending ∨ Resolved tr a)

/-- A final result is stored. -/
theorem storeResult_sat (ha : a ∈ attempts) {result : PaymentResult}
    {answer : Except LightningError PaymentState}
    (hanswer : Replied tr (.node (.getPaymentState a.paymentHash a.label)) answer)
    (hfinal : finalResult answer = some result) :
    Sat (World.Performs M i t) (Handles attempts) (KeepsOrResolves [a])
      (ExceptT.run (do
        orFail (fun _ => MonitorError.general) (Prog.perform (I := Services Lightning)
          (.unlockAddPaymentResult a.paymentHash a.label result))
        pure [])) tr := by
  refine Sat.tryBind ⟨⟨⟨a, ha, rfl, rfl⟩, answer, hanswer, hfinal⟩, fun w r w' hperforms => ?_⟩
  cases r with
  | error e => trivial
  | ok u =>
    refine ⟨List.nil_sublist _, List.forall_mem_singleton.mpr (Or.inr ⟨result, w, w', ?_⟩)⟩
    exact ⟨List.mem_append_right _ (List.mem_singleton_self _),
      hperforms.unlockAddPaymentResult_ok⟩

theorem checkPayment_sat (ha : a ∈ attempts) :
    Sat (World.Performs M i t) (Handles attempts) (KeepsOrResolves [a])
      (checkPayment a).run tr := by
  refine Sat.ask ⟨a, ha, rfl, rfl⟩ (fun w answer w' _ => ?_)
  have hanswer : Replied (tr ++ ([⟨.node (.getPaymentState a.paymentHash a.label), w, answer,
      w'⟩] : MonitorEvents M)) (.node (.getPaymentState a.paymentHash a.label)) answer :=
    ⟨w, w', List.mem_append_right _ (List.mem_singleton_self _)⟩
  match answer with
  | .ok (.success preimage) => exact storeResult_sat ha hanswer rfl
  | .ok (.failure error) => exact storeResult_sat ha hanswer rfl
  | .ok .pending => exact ⟨List.Sublist.refl _, fun a ha => Or.inl ha⟩
  | .error .paymentNotFound => exact storeResult_sat ha hanswer rfl
  | .error .connectionFailed | .error .invalidPreimage | .error (.general _) => trivial

/-- **A pass keeps an attempt, or stores a result for it.** -/
theorem doCheckPayments_sat {checked : List PaymentAttempt} (hsub : checked ⊆ attempts) :
    Sat (World.Performs M i t) (Handles attempts) (KeepsOrResolves checked)
      (doCheckPayments checked).run tr := by
  induction checked generalizing tr with
  | nil => exact ⟨List.Sublist.refl _, fun a ha => nomatch ha⟩
  | cons a checked ih =>
    rw [List.cons_subset] at hsub
    refine Sat.tryBind ((checkPayment_sat hsub.1).mono (fun tr₁ o ho => ?_))
    cases o with
    | error e => trivial
    | ok kept =>
      refine Sat.tryBind ((ih hsub.2).subset.mono (fun tr₂ o' ho' => ?_))
      cases o' with
      | error e => trivial
      | ok rest =>
        obtain ⟨hmono, hrest, hall⟩ := ho'
        refine ⟨ho.1.append hrest, List.forall_mem_cons.mpr ⟨?_, fun b hb => ?_⟩⟩
        · refine (ho.2 a (List.mem_singleton_self a)).imp (List.mem_append_left _) ?_
          exact fun h => h.mono hmono
        · exact (hall b hb).imp_left (List.mem_append_right _)

/-! ## All passes -/

/-- **A pass that has come to its end**: the list it was made over, what was called, how
it ended, and the list after it. -/
structure Pass (M : NodeModel Lightning) where
  before : List PaymentAttempt
  events : MonitorEvents M
  result : Except MonitorError (List PaymentAttempt)
  after : List PaymentAttempt

variable (moves : World M → World M → Prop) (i t)

/-- **A pass that `start` makes**, with `n` more to come: it checks the list before, and
when it is over the monitor is at its start again, with the list after. -/
structure Pass.Made (n : ℕ) (p : Pass M) (w w' : World M) : Prop where
  checks : RunsAmid moves (World.Performs M i t) (doCheckPayments p.before).run w p.events
    (.ret p.result) w'
  goesOn : RunsAmid moves (World.Performs M i t) (start (n + 1) p.before) w p.events
    (start n p.after) w'

/-- **Passes, one after the other**, each over the list that the one before has left; and
how many are still to come. -/
inductive Passes : ℕ → World M → List PaymentAttempt → List (Pass M) → ℕ →
    List PaymentAttempt → World M → Prop where
  | done {n : ℕ} {w w' : World M} {attempts : List PaymentAttempt} : moves w w' →
      Passes n w attempts [] n attempts w'
  | pass {n m : ℕ} {w w₁ w' : World M} {p : Pass M} {ps : List (Pass M)}
      {left : List PaymentAttempt} : p.Made i t moves n w w₁ →
      Passes n w₁ p.after ps m left w' → Passes (n + 1) w p.before (p :: ps) m left w'

variable {moves i t}

/-- **A pass that is made forgets nothing**: when it is over, the monitor is at its start
again, with a list that lacks only attempts for which a result was stored, and none if the
pass failed. -/
theorem exists_made {n : ℕ} {attempts : List PaymentAttempt} {w w' w₁ : World M}
    {tr₁ tr₂ : MonitorEvents M} {r : Except MonitorError (List PaymentAttempt)}
    {q : Prog (Services Lightning) Unit}
    (hchecks : RunsAmid moves (World.Performs M i t) (doCheckPayments (a :: attempts)).run w tr₁
      (.ret r) w₁)
    (hok : ∀ pending, r = .ok pending →
      RunsAmid moves (World.Performs M i t) (start n pending) w₁ tr₂ q w')
    (herror : ∀ e, r = .error e →
      RunsAmid moves (World.Performs M i t) (start n (a :: attempts)) w₁ tr₂ q w') :
    ∃ after, Pass.Made i t moves n ⟨a :: attempts, tr₁, r, after⟩ w w₁ ∧
      RunsAmid moves (World.Performs M i t) (start n after) w₁ tr₂ q w' ∧
      (∀ b ∈ a :: attempts, b ∈ after ∨ Resolved tr₁ b) ∧
      ∀ e, r = .error e → after = a :: attempts := by
  have hkeeps : KeepsOrResolves (a :: attempts) ([] ++ tr₁) r :=
    (doCheckPayments_sat (List.Subset.refl _)).runs hchecks.runs
  cases r with
  | ok pending =>
    exact ⟨pending, ⟨hchecks, hchecks.bind _⟩, hok pending rfl, hkeeps.2,
      fun e he => nomatch he⟩
  | error e =>
    exact ⟨a :: attempts, ⟨hchecks, hchecks.bind _⟩, herror e rfl, fun b hb => Or.inl hb,
      fun _ _ => rfl⟩

/-- **The monitor makes passes**: at any time some have come to their end, the monitor is
at its start with the list they have left, and what it has called since belongs to the
next pass. -/
theorem exists_passes (hrefl : ∀ w, moves w w) {n : ℕ} {attempts : List PaymentAttempt}
    {w w' : World M} {tr : MonitorEvents M} {q : Prog (Services Lightning) Unit}
    (h : RunsAmid moves (World.Performs M i t) (start n attempts) w tr q w') :
    ∃ ps m left w₁ tr' q', Passes i t moves n w attempts ps m left w₁ ∧
      tr = ps.flatMap Pass.events ++ tr' ∧
      RunsAmid moves (World.Performs M i t) (start m left) w₁ tr' q w' ∧
      RunsAmid moves (World.Performs M i t) (doCheckPayments left).run w₁ tr' q' w' ∧
      ∀ p ∈ ps, (∀ a ∈ p.before, a ∈ p.after ∨ Resolved p.events a) ∧
        ∀ e, p.result = .error e → p.after = p.before := by
  induction n generalizing attempts w tr with
  | zero =>
    cases h with
    | here hmoves =>
      exact ⟨[], _, _, w, [], _, .done (hrefl w), rfl, .here hmoves, .here hmoves,
        fun p hp => nomatch hp⟩
  | succ n ih =>
    cases attempts with
    | nil =>
      cases h with
      | here hmoves =>
        exact ⟨[], _, _, w, [], _, .done (hrefl w), rfl, .here hmoves, .here hmoves,
          fun p hp => nomatch hp⟩
    | cons a attempts =>
      rcases h.bind_cases hrefl with ⟨p', hp', -⟩ | ⟨r, w₁, tr₁, tr₂, h₁, rfl, h₂⟩
      · exact ⟨[], _, _, w, tr, p', .done (hrefl w), rfl, h, hp', fun p hp => nomatch hp⟩
      · obtain ⟨after, hmade, hrest, hkept⟩ := exists_made h₁
          (fun pending hr => by subst hr; exact h₂) (fun e hr => by subst hr; exact h₂)
        obtain ⟨ps, m, left, w₂, tr', q', hps, rfl, hstart, hq', hall⟩ := ih hrest
        exact ⟨_ :: ps, m, left, w₂, tr', q', .pass hmade hps, by simp, hstart, hq',
          List.forall_mem_cons.mpr ⟨hkept, hall⟩⟩

/-- **What passes leave**: an attempt is still in the list, or a result was stored for it. -/
theorem Passes.mem_left_or {n m : ℕ} {w w' : World M} {attempts left : List PaymentAttempt}
    {ps : List (Pass M)} (h : Passes i t moves n w attempts ps m left w')
    (hall : ∀ p ∈ ps, ∀ a ∈ p.before, a ∈ p.after ∨ Resolved p.events a) :
    ∀ a ∈ attempts, a ∈ left ∨ Resolved (ps.flatMap Pass.events) a := by
  induction h with
  | done _ => exact fun a ha => Or.inl ha
  | @pass n m w w₁ w' p ps left _ _ ih =>
    rw [List.forall_mem_cons] at hall
    intro a ha
    rw [List.flatMap_cons]
    rcases hall.1 a ha with hafter | hresolved
    · exact (ih hall.2 a hafter).imp_right (fun h => h.mono (List.subset_append_right _ _))
    · exact Or.inr (hresolved.mono (List.subset_append_left _ _))

/-- **All calls are about the attempts of the list.** -/
theorem start_sat {checked : List PaymentAttempt} (hsub : checked ⊆ attempts) (n : ℕ) :
    Sat (World.Performs M i t) (Handles attempts) (fun _ _ => True) (start n checked) tr := by
  induction n generalizing checked tr with
  | zero => trivial
  | succ n ih =>
    cases checked with
    | nil => trivial
    | cons a checked =>
      refine Sat.bind ((doCheckPayments_sat hsub).mono (fun tr₁ r hr => ?_))
      cases r with
      | ok pending => exact ih (List.Subset.trans hr.1.subset hsub)
      | error e => exact ih hsub

end HistoricalPaymentMonitor

/-! ## Between and during the passes -/

namespace Outcomes

open HistoricalPaymentMonitor Prog

variable {M : NodeModel Lightning} {i : ℕ} {t : Task}

/-- **What may happen at any time**: changes that fit. -/
def Moves (outcomes : Outcomes) : World M → World M → Prop :=
  Relation.ReflTransGen (fun w w' => ∃ change, outcomes.Admits w.db change ∧
    change.apply w.db = .ok w'.db)

/-- **The node says how a payment ended**, once it says so at all. -/
def Truthful (outcomes : Outcomes) (tr : MonitorEvents M) : Prop :=
  ∀ hash label answer result, Replied tr (.node (.getPaymentState hash label)) answer →
    finalResult answer = some result → result = outcomes.result hash label

/-- The attempts of a list are recorded, under labels of their own. -/
structure Listed (attempts : List PaymentAttempt) (w : World M) : Prop where
  nodup : w.db.labels.Nodup
  attempt : ∀ a ∈ attempts, w.db.HasAttempt a.paymentHash a.label

/-- A call that stores the result of an attempt of the list, or asks the node. -/
def Fits (outcomes : Outcomes) (attempts : List PaymentAttempt) : Call Lightning → Prop
  | .unlockAddPaymentResult hash label result =>
    (∃ a ∈ attempts, a.paymentHash = hash ∧ a.label = label) ∧
      result = outcomes.result hash label
  | .node _ => True
  | _ => False

variable {outcomes : Outcomes} {attempts : List PaymentAttempt} {w w' : World M}
  {tr : MonitorEvents M} {hash : PaymentHash} {label : String}

theorem Moves.of_db_eq (h : w'.db = w.db) : outcomes.Moves w w' :=
  .single ⟨.transaction .now, trivial, congrArg Except.ok h.symm⟩

/-- What is kept by changes that fit is kept. -/
theorem Moves.keeps {P : SwapTables → Prop} (h : outcomes.Moves w w')
    (hstep : ∀ {change db db'}, P db → outcomes.Admits db change →
      TableChange.Applies db change db' → P db') (hw : P w.db) : P w'.db := by
  induction h with
  | refl => exact hw
  | tail _ hchange ih =>
    obtain ⟨change, hadmits, happly⟩ := hchange
    exact hstep ih hadmits (TableChange.apply_eq_ok_iff.mp happly)

theorem Listed.moves (h : Listed attempts w) (hmoves : outcomes.Moves w w') :
    Listed attempts w' where
  nodup := hmoves.keeps (fun h hadmits happlies => hadmits.labels_nodup happlies h) h.nodup
  attempt := fun a ha => hmoves.keeps (fun h _ happlies => happlies.hasAttempt h) (h.attempt a ha)

theorem Settled.moves (h : w.db.Settled hash label (outcomes.result hash label))
    (hmoves : outcomes.Moves w w') :
    w'.db.Settled hash label (outcomes.result hash label) :=
  hmoves.keeps (fun h hadmits happlies => hadmits.settled happlies h) h

/-- **What the monitor does is of the same kind.** -/
theorem Fits.moves {c : Call Lightning} {r : c.Reply} (hfits : outcomes.Fits attempts c)
    (h : World.Performs M i t c w r w') (hlisted : Listed attempts w) : outcomes.Moves w w' := by
  rcases h.db_eq_or with hdb | hdb
  · exact .of_db_eq hdb
  · refine .single ⟨.transaction c, ?_, hdb⟩
    cases c with
    | unlockAddPaymentResult hash label result =>
      obtain ⟨⟨a, ha, rfl, rfl⟩, hresult⟩ := hfits
      refine ⟨hresult, fun row hrow hlabel => ?_⟩
      exact SwapTables.HasAttempt.hash_eq hlisted.nodup ⟨row, hrow, rfl, hlabel⟩
        (hlisted.attempt a ha)
    | node c => trivial
    | _ => cases hfits

/-- A call that handles an attempt fits, if the node is truthful. -/
theorem Truthful.fits {tr₁ tr₂ : MonitorEvents M} {e : Event (Services Lightning) (World M)}
    (h : outcomes.Truthful (tr₁ ++ e :: tr₂)) (hhandles : Handles attempts tr₁ e.call) :
    outcomes.Fits attempts e.call := by
  cases hcall : e.call with
  | node c => trivial
  | unlockAddPaymentResult hash label result =>
    rw [hcall] at hhandles
    obtain ⟨hattempt, answer, ⟨w, w', hmem⟩, hfinal⟩ := hhandles
    exact ⟨hattempt, h hash label answer result ⟨w, w', List.mem_append_left _ hmem⟩ hfinal⟩
  | _ =>
    rw [hcall] at hhandles
    cases hhandles

/-- **Every call of the monitor fits.** -/
theorem Truthful.all_fits {α : Type} {p q : Prog (Services Lightning) α}
    {onRet : MonitorEvents M → α → Prop} (h : outcomes.Truthful tr)
    (hsat : Sat (World.Performs M i t) (Handles attempts) onRet p [])
    (hrun : Runs (World.Performs M i t) p tr q) : ∀ e ∈ tr, outcomes.Fits attempts e.call := by
  intro e he
  obtain ⟨tr₁, tr₂, rfl⟩ := List.append_of_mem he
  have hhandles := hsat.onCall_of_runs hrun rfl
  rw [List.nil_append] at hhandles
  exact h.fits hhandles

/-- **What changes that fit keep**, holds throughout a run of the monitor. -/
theorem Listed.runs {α : Type} {p q : Prog (Services Lightning) α} {P : SwapTables → Prop}
    (hlisted : Listed attempts w)
    (hrun : RunsAmid outcomes.Moves (World.Performs M i t) p w tr q w')
    (hfits : ∀ e ∈ tr, outcomes.Fits attempts e.call)
    (hstep : ∀ {change db db'}, P db → outcomes.Admits db change →
      TableChange.Applies db change db' → P db') (hw : P w.db) :
    (∀ e ∈ tr, Listed attempts e.before ∧ P e.before.db) ∧ Listed attempts w' ∧ P w'.db := by
  have hrun := hrun.restrict (Q := fun c _ => outcomes.Fits attempts c) hfits
  have hmoves {a b : World M} (h : Listed attempts a ∧ P a.db) (hmoves : outcomes.Moves a b) :
      Listed attempts b ∧ P b.db := ⟨h.1.moves hmoves, hmoves.keeps hstep h.2⟩
  exact hrun.invariant hmoves (fun h hperf => hmoves h (hperf.2.moves hperf.1 h.1)) ⟨hlisted, hw⟩

theorem Truthful.anti {tr' : MonitorEvents M} (h : outcomes.Truthful tr') (hsub : tr ⊆ tr') :
    outcomes.Truthful tr := by
  rintro hash label answer result ⟨w, w', hmem⟩ hfinal
  exact h hash label answer result ⟨w, w', hsub hmem⟩ hfinal

/-- **Initialized**: the attempts of the list are recorded, and of those that had no
result when they were read, each is in the list or has got one. -/
theorem Truthful.initialized (htruthful : outcomes.Truthful tr)
    (hrun : RunsAmid outcomes.Moves (World.Performs M i t) initializeAttempts.run w tr
      (.ret (.ok attempts)) w') (hnodup : w.db.labels.Nodup) :
    Listed attempts w' ∧ ∃ e ∈ tr, e.call = .getUnhandledPaymentAttempts ∧
      ∀ a ∈ e.before.db.getUnhandledPaymentAttempts e.before.env.queryOrder,
        a ∈ attempts ∨ Resolved tr a := by
  obtain ⟨w₁, r, w₂, tr₁, hmoves₁, hread, rfl, hrest⟩ := RunsAmid.call_inv hrun
  cases r with
  | error e => cases (RunsAmid.ret_inv hrest).1
  | ok unhandled =>
    have hpass : RunsAmid outcomes.Moves (World.Performs M i t)
        (doCheckPayments unhandled).run w₂ tr₁ (.ret (.ok attempts)) w' := hrest
    -- What was read is recorded, when it was read and from then on.
    have hunhandled := hread.getUnhandledPaymentAttempts
    have hw₂ : w₂ = w₁ := World.Performs.of_isQuery (by trivial) hread
    have hlisted₂ : Listed unhandled w₂ := by
      rw [hw₂]
      refine ⟨hmoves₁.keeps (fun h hadmits happlies => hadmits.labels_nodup happlies h) hnodup,
        fun a ha => ?_⟩
      rw [hunhandled] at ha
      obtain ⟨row, hrow, -, hhash, hlabel⟩ := SwapTables.mem_getUnhandledPaymentAttempts ha
      exact ⟨row, hrow, hhash, hlabel⟩
    have hsat : Sat (World.Performs M i t) (Handles unhandled) (KeepsOrResolves unhandled)
        (doCheckPayments unhandled).run [] :=
      doCheckPayments_sat (List.Subset.refl _)
    have hfits := (htruthful.anti (fun e he => List.mem_cons_of_mem _ he)
      : outcomes.Truthful tr₁).all_fits hsat hpass.runs
    obtain ⟨-, hlisted', -⟩ := hlisted₂.runs (P := fun _ => True) hpass hfits
      (fun _ _ _ => trivial) trivial
    obtain ⟨hsublist, hall⟩ : KeepsOrResolves _ ([] ++ tr₁) (.ok attempts) := hsat.runs hpass.runs
    refine ⟨⟨hlisted'.nodup, fun a ha => hlisted'.attempt a (hsublist.subset ha)⟩,
      _, List.mem_cons_self, rfl, fun a ha => ?_⟩
    rw [← hunhandled] at ha
    exact (hall a ha).imp_right (fun h => h.mono (fun e he => List.mem_cons_of_mem _ he))

/-- **A result that is stored again changes nothing.** -/
theorem Listed.stored_again {α : Type} {p q : Prog (Services Lightning) α}
    {tr₁ tr₂ tr₃ : MonitorEvents M} {e₁ e₂ : Event (Services Lightning) (World M)}
    {result₁ result₂ : PaymentResult} (hlisted : Listed attempts w)
    (hrun : RunsAmid outcomes.Moves (World.Performs M i t) p w
      (tr₁ ++ e₁ :: (tr₂ ++ e₂ :: tr₃)) q w')
    (hfits : ∀ e ∈ tr₁ ++ e₁ :: (tr₂ ++ e₂ :: tr₃), outcomes.Fits attempts e.call)
    (hcall₁ : e₁.call = .unlockAddPaymentResult hash label result₁)
    (hcall₂ : e₂.call = .unlockAddPaymentResult hash label result₂)
    (hcommitted : World.transaction e₁.call e₁.before.db = .ok e₁.after.db) :
    e₂.after.db = e₂.before.db := by
  have hmem₁ : e₁ ∈ tr₁ ++ e₁ :: (tr₂ ++ e₂ :: tr₃) :=
    List.mem_append_right _ List.mem_cons_self
  have hlisted₁ := ((hlisted.runs (P := fun _ => True) hrun hfits (fun _ _ _ => trivial)
    trivial).1 e₁ hmem₁).1
  have hfits₁ := hfits e₁ hmem₁
  obtain ⟨hperf₁, p', hrest⟩ := hrun.split
  have hlisted₁' := hlisted₁.moves (hfits₁.moves hperf₁ hlisted₁)
  -- The first time, the result is settled.
  rw [hcall₁] at hcommitted hfits₁
  obtain ⟨⟨a, ha, rfl, rfl⟩, rfl⟩ := hfits₁
  obtain ⟨hswap, hdb⟩ := SwapTables.unlockAddPaymentResult_eq_ok_iff.mp hcommitted
  have hsettled : e₁.after.db.Settled a.paymentHash a.label
      (outcomes.result a.paymentHash a.label) := by
    rw [hdb]
    exact SwapTables.settled_resulted (hlisted₁.attempt a ha) hswap
  -- It still is when it is stored again.
  have hrest_fits : ∀ e ∈ tr₂ ++ e₂ :: tr₃, outcomes.Fits attempts e.call :=
    fun e he => hfits e (List.mem_append_right _ (List.mem_cons_of_mem _ he))
  have hmem₂ : e₂ ∈ tr₂ ++ e₂ :: tr₃ := List.mem_append_right _ List.mem_cons_self
  have hsettled₂ := ((hlisted₁'.runs hrest hrest_fits
    (fun h hadmits happlies => hadmits.settled happlies h) hsettled).1 e₂ hmem₂).2
  rcases (hrest.runs.perf_of_mem e₂ hmem₂).db_eq_or with hdb₂ | hdb₂
  · exact hdb₂
  · have hfits₂ := hrest_fits e₂ hmem₂
    rw [hcall₂] at hdb₂ hfits₂
    obtain ⟨-, rfl⟩ := hfits₂
    rw [(SwapTables.unlockAddPaymentResult_eq_ok_iff.mp hdb₂).2, hsettled₂.resulted_self]

/-- **Locks and attempts that are not of the list are left alone.** -/
theorem Fits.leavesOthers {c : Call Lightning} {r : c.Reply} (hfits : outcomes.Fits attempts c)
    (h : World.Performs M i t c w r w') :
    (∀ l ∈ w.db.swapLocks, (∀ a ∈ attempts, l ≠ ⟨a.paymentHash, .payment a.label⟩) →
        l ∈ w'.db.swapLocks) ∧
      ∀ row ∈ w.db.paymentAttempts, (∀ a ∈ attempts, row.label ≠ a.label) →
        row ∈ w'.db.paymentAttempts := by
  rcases h.db_eq_or with hdb | hdb
  · rw [hdb]
    exact ⟨fun l hl _ => hl, fun row hrow _ => hrow⟩
  · cases c with
    | unlockAddPaymentResult hash label result =>
      obtain ⟨⟨a, ha, rfl, rfl⟩, -⟩ := hfits
      rw [(SwapTables.unlockAddPaymentResult_eq_ok_iff.mp hdb).2, SwapTables.resulted_eq]
      refine ⟨fun l hl hother => ?_, fun row hrow hother => ?_⟩
      · exact List.mem_filter.mpr ⟨hl, decide_eq_true (hother a ha)⟩
      · exact List.mem_map.mpr ⟨row, hrow, if_neg (hother a ha)⟩
    | node c =>
      rw [← Except.ok.inj hdb]
      exact ⟨fun l hl _ => hl, fun row hrow _ => hrow⟩
    | _ => cases hfits

end Outcomes

namespace Sample

open HistoricalPaymentMonitor

/-- What a node answers that cannot be reached for a while, and then has forgotten what
it has been asked for. -/
def forgetfulAnswer : ℕ → Except LightningError PaymentState
  | 0 => .ok .pending
  | 1 => .error .connectionFailed
  | _ => .error .paymentNotFound

/-- It has only one thing to say that is final. -/
theorem forgetfulAnswer_final {n : ℕ} {result : PaymentResult}
    (h : finalResult (forgetfulAnswer n) = some result) : result = .failure "cancelled" := by
  unfold forgetfulAnswer at h
  split at h
  · cases h
  · cases h
  · exact (Option.some.inj h).symm

/-- A node that counts how often it has been asked for a payment. -/
def forgetfulNode : NodeModel Lightning where
  State := ℕ
  Choice := Unit
  Act := Empty
  serve := fun _ _ c _ asked =>
    match c with
    | .getPaymentState _ _ => some (forgetfulAnswer asked, asked + 1)
    | _ => none
  act := nofun
  disconnect := fun _ s => s

/-- Every payment is cancelled. -/
def allCancelled : Outcomes where
  result := fun _ _ => .failure "cancelled"
  preimage := fun _ => .ofByte 7
  preimage_eq := nofun

/-- An attempt of a process that is gone, as it is read. -/
def oldAttempt : PaymentAttempt := ⟨0, "label", swap.pub.hash, [], 100000000, [], "invoice"⟩

/-- The swap is locked for the attempt. -/
def oldTables : SwapTables where
  swaps := [⟨swap, none⟩]
  paymentAttempts :=
    [⟨0, swap.pub.hash, "label", 0, 100000000, "invoice", [], none, none⟩]
  paymentAttemptTxOutputs := []
  swapLocks := [⟨swap.pub.hash, .payment "label"⟩]
  nextAttemptId := 1

/-- The world when the new process starts. -/
def oldWorld : World forgetfulNode := { world forgetfulNode (0 : ℕ) with db := oldTables }

/-- Every call of the monitor succeeds. -/
def serveMonitor (c : Call Lightning) (w : World forgetfulNode) :
    Option (c.Reply × World forgetfulNode) :=
  World.serve 0 ⟨0, .main 2⟩ c (match c with | .node _ => .node () | _ => .ok) w

/-- A run with nobody interfering, in which the node is truthful. -/
theorem monitorRun_sound {α : Type} {p : Prog (Services Lightning) α} {a : α}
    {w w' : World forgetfulNode} (h : p.exec serveMonitor w = some (a, w')) :
    ∃ tr, Prog.RunsAmid allCancelled.Moves (World.Performs forgetfulNode 0 ⟨0, .main 2⟩) p w tr
      (.ret a) w' ∧ allCancelled.Truthful tr := by
  obtain ⟨tr, hrun, hserved⟩ := Prog.RunsAmid.of_exec
    (fun _ _ _ _ hserve => (⟨_, hserve⟩ : World.Performs forgetfulNode 0 ⟨0, .main 2⟩ _ _ _ _))
    (fun _ => (Relation.ReflTransGen.refl : allCancelled.Moves _ _)) h
  refine ⟨tr, hrun, ?_⟩
  rintro hash label answer result ⟨w₁, w₂, hmem⟩ hfinal
  have hanswer : forgetfulAnswer w₁.node = answer :=
    (Prod.mk.inj (Option.some.inj (hserved _ hmem))).1
  subst hanswer
  exact forgetfulAnswer_final hfinal

/-- The world when the monitor has been initialized. -/
def initializedWorld : World forgetfulNode := { oldWorld with node := (1 : ℕ) }

/-- The world after two passes. -/
def handledWorld : World forgetfulNode :=
  { oldWorld with
    node := (3 : ℕ)
    db := SwapTables.resulted swap.pub.hash "label" (.failure "cancelled") oldTables }

end Sample

end Swapd
