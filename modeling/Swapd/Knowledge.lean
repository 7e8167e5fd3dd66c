import Swapd.Exclusion

/-!
# What a thread knows stays true

A thread that waits for an answer has learnt things from the answers before:
that the swap it looked up was not paid, that its attempt is recorded, that its
payment has failed. `Fact` lists what the programs need to know, and `Known`
says that it is so. What other threads do, what the world does, what requests
and stops do – as long as they do not stop the thread itself – takes none of it
away.
-/

namespace Swapd

/-- **What a thread may know.** -/
inductive Fact where
  /-- The thread exists. -/
  | spawned
  /-- The thread is the handler of a payment, and has not been stopped. -/
  | running
  /-- The thread is the main thread of a process that is up. -/
  | up
  /-- The thread's process does not serve. -/
  | starting
  /-- No preimage has been stored since the thread looked the swap up. -/
  | unpaid (hash : PaymentHash)
  /-- The payment has been recorded and not been asked for. -/
  | prepared (hash : PaymentHash) (label : String)
  /-- Nobody is left to ask for the payment. -/
  | orphan (hash : PaymentHash) (label : String)
  /-- There is no such payment, nor will there be. -/
  | absent (hash : PaymentHash) (label : String)
  /-- The payment is complete. -/
  | completed (hash : PaymentHash) (label : String)
  /-- The payment has failed. -/
  | failed (hash : PaymentHash) (label : String)
  /-- The thread has not locked for a refund. -/
  | idle
  /-- The thread has locked for a refund, and not asked the node. -/
  | refunding (hash : PaymentHash) (refundId : String)
  /-- The thread has locked for a refund, and been told that nothing is pending
  or complete. -/
  | cleared (hash : PaymentHash) (refundId : String)

namespace Fact

variable (i : ℕ) (t : Task) (w : World truthfulNode)

/-- That a fact holds for a thread. -/
def Holds : Fact → Prop
  | spawned => i < w.threads
  | running => t.job.isHandler = true ∧ ⟨i, t.proc⟩ ∈ w.live
  | up => t.proc = i ∧ i ∈ w.up
  | starting => i ∉ w.serving
  | unpaid hash => (i, hash) ∈ w.checked → w.Unpaid hash
  | prepared hash label => w.Prepared i t hash label
  | orphan hash label => w.Orphan hash label
  | absent hash label => w.Absent hash label
  | completed hash label => w.node.Completed hash label
  | failed hash label => w.node.Failed hash label
  | idle => (∀ o ∈ w.refunds, o.thread ≠ i) ∧ ∀ x ∈ w.node.cleared, x.1 ≠ i
  | refunding hash refundId => w.Refunding i hash refundId
  | cleared hash refundId => ⟨i, hash, refundId⟩ ∈ w.refunds ∧ (i, hash) ∈ w.node.cleared

/-- The facts that do not depend on what the thread itself has yet to do. -/
def IsLasting : Fact → Prop
  | spawned | running | up | orphan _ _ | absent _ _ | completed _ _ | failed _ _
  | cleared _ _ => True
  | starting | unpaid _ | prepared _ _ | idle | refunding _ _ => False

end Fact

namespace World

variable {w w' : World truthfulNode} {i j : ℕ} {t u : Task} {c : Call Truthful}
  {hash : PaymentHash} {label refundId : String}

/-! ## Other threads -/

/-- A prepared handler stays so while others act: nobody else sends its payment,
and nobody stores that it is absent. -/
theorem Effect.prepared (hij : i ≠ j) (hw : w.Inv) (h : w.Effect j u c w')
    (hp : w.Prepared i t hash label) : w'.Prepared i t hash label where
  handler := hp.handler
  alive := h.live ▸ hp.alive
  owner := h.attempts_subset hp.owner
  unsent := fun hmem => by
    obtain ⟨hash', hk⟩ := TruthfulState.mem_labels_iff.mp hmem
    rcases h.known hk with hk | hp'
    · exact hp.unsent hk.mem_labels
    · exact hij (congrArg OwnedAttempt.thread (hw.owners _ hp.owner _ hp'.owner rfl))
  covered := h.covered hw (Or.inr hp) hp.covered

theorem Effect.orphan (h : w.Effect j u c w') (ho : w.Orphan hash label) :
    w'.Orphan hash label where
  recorded := h.hasAttempt ho.recorded
  stopped := fun o hmem hlabel ⟨proc, halive⟩ => by
    rcases h.mem_attempts hmem with hmem | ⟨-, -, hfresh, -⟩
    · exact ho.stopped o hmem hlabel ⟨proc, h.live ▸ halive⟩
    · exact hfresh (hlabel ▸ ho.recorded.mem_labels)
  received := fun c hc hlabel => by
    rcases h.mem_inflight hc with hc | ⟨-, hp⟩
    · exact ho.received c hc hlabel
    · exact ho.stopped _ hp.owner hlabel ⟨_, hp.alive⟩

theorem Effect.refunding (hij : i ≠ j) (hw : w.Inv) (h : w.Effect j u c w')
    (hr : w.Refunding i hash refundId) : w'.Refunding i hash refundId where
  owner := h.refunds_subset hr.owner
  locked := by
    rcases h.refundLocked hr.locked with hlocked | hr'
    · exact hlocked
    · exact absurd (congrArg OwnedRefund.thread (hw.refundIds _ hr.owner _ hr'.owner rfl)) hij
  only := fun o ho hi => by
    rcases h.mem_refunds ho with ho | ⟨hj, -⟩
    · exact hr.only o ho hi
    · exact absurd (hi.symm.trans hj) hij
  notCleared := fun x hx hi => by
    rcases h.mem_cleared hx with hx | ⟨hj, -⟩
    · exact hr.notCleared x hx hi
    · exact hij (hi.symm.trans hj)

/-- A preimage that is stored makes what was looked up out of date. -/
theorem Effect.unpaid (hij : i ≠ j) (h : w.Effect j u c w')
    (hu : (i, hash) ∈ w.checked → w.Unpaid hash) :
    (i, hash) ∈ w'.checked → w'.Unpaid hash := by
  cases h
  case look hash' =>
    intro hmem
    rcases List.mem_cons.mp hmem with heq | hmem
    · exact absurd (congrArg Prod.fst heq) hij
    · exact hu hmem
  case result hash' label' result _ hj =>
    cases result with
    | failure error => exact hu
    | success preimage =>
      intro hmem s hs hhash
      obtain ⟨hmem, hne⟩ := List.mem_filter.mp hmem
      have hne : hash ≠ hash' := by simpa using hne
      obtain ⟨s₀, hs₀, rfl⟩ := List.mem_map.mp hs
      split at hhash
      next heq => exact absurd (hhash.symm.trans heq) hne
      next hne' =>
        rw [if_neg hne']
        exact hu hmem s₀ hs₀ hhash
  all_goals exact hu

/-- **No effect of any thread, itself included, takes away** a lasting fact. -/
theorem Effect.lasting (h : w.Effect j u c w') {f : Fact} (hl : f.IsLasting)
    (hf : f.Holds i t w) : f.Holds i t w' := by
  cases f with
  | spawned => exact Nat.lt_of_lt_of_eq hf h.threads.symm
  | running => exact ⟨hf.1, h.live ▸ hf.2⟩
  | up => exact ⟨hf.1, h.up ▸ hf.2⟩
  | orphan hash label => exact h.orphan hf
  | absent hash label =>
    exact ⟨h.orphan hf.orphan, fun p hp => hf.none p (h.payments ▸ hp)⟩
  | completed hash label => exact hf.imp (fun _ hp => h.payments ▸ hp)
  | failed hash label => exact hf.imp (fun _ hp => h.payments ▸ hp)
  | cleared hash refundId => exact ⟨h.refunds_subset hf.1, h.cleared_subset hf.2⟩
  | _ => exact hl.elim

/-- **No effect of another thread takes away what a thread knows.** -/
theorem Effect.fact (hij : i ≠ j) (hw : w.Inv) (h : w.Effect j u c w') {f : Fact}
    (hf : f.Holds i t w) : f.Holds i t w' := by
  cases f with
  | starting =>
    intro hi
    rcases h.mem_serving hi with hi | ⟨hi, -⟩
    · exact hf hi
    · exact hij hi
  | unpaid hash => exact h.unpaid hij hf
  | prepared hash label => exact h.prepared hij hw hf
  | idle =>
    refine ⟨fun o ho hi => ?_, fun x hx hi => ?_⟩
    · rcases h.mem_refunds ho with ho | ⟨hj, -⟩
      · exact hf.1 o ho hi
      · exact hij (hi.symm.trans hj)
    · rcases h.mem_cleared hx with hx | ⟨hj, -⟩
      · exact hf.2 x hx hi
      · exact hij (hi.symm.trans hj)
  | refunding hash refundId => exact h.refunding hij hw hf
  | _ => exact h.lasting trivial hf

/-! ## The world, requests and stops -/

/-- **No move of the world takes away what a thread knows.** -/
theorem fact_of_move {m : Move truthfulNode} (h : w.move m = some w') {f : Fact}
    (hf : f.Holds i t w) : f.Holds i t w' := by
  cases m with
  | env env =>
    obtain rfl := Option.some.inj h
    cases f <;> first
      | exact hf
      | exact { hf with }
      | exact { hf with orphan := { hf.orphan with } }
  | node act =>
    obtain ⟨n, hact, rfl⟩ := Option.map_eq_some_iff.mp h
    have hcleared := (TruthfulState.act_ghosts hact).2
    have horphan {hash : PaymentHash} {label : String} (ho : w.Orphan hash label) :
        Orphan { w with node := n } hash label :=
      ⟨ho.recorded, ho.stopped,
        fun c hc => ho.received c (TruthfulState.act_inflight hact hc)⟩
    cases f with
    | prepared hash label =>
      exact { hf with
        unsent := fun hl => hf.unsent ((TruthfulState.act_labels hact).mem_iff.mp hl)
        covered := hf.covered.imp id (fun hc => hc.act hact) }
    | orphan hash label => exact horphan hf
    | absent hash label =>
      refine ⟨horphan hf.orphan, fun p hp heq => ?_⟩
      rcases TruthfulState.mem_payments_of_act hact hp with ⟨status, hp⟩ | ⟨proc, hc⟩
      · exact hf.none _ hp heq
      · exact hf.orphan.received _ hc heq.2
    | completed hash label => exact TruthfulState.Completed.act hf hact
    | failed hash label => exact TruthfulState.Failed.act hf hact
    | idle => exact ⟨hf.1, fun x hx => hf.2 x (hcleared ▸ hx)⟩
    | refunding hash refundId =>
      exact { hf with notCleared := fun x hx => hf.notCleared x (hcleared ▸ hx) }
    | cleared hash refundId => exact ⟨hf.1, hcleared ▸ hf.2⟩
    | _ => exact hf
  | addSwap swap =>
    simp only [World.move] at h
    split at h
    next => cases h
    next =>
      obtain rfl := Option.some.inj h
      cases f with
      | unpaid hash =>
        intro hmem s hs hhash
        rcases List.mem_append.mp hs with hs | hs
        · exact hf hmem s hs hhash
        · rw [List.mem_singleton.mp hs]
      | prepared hash label => exact { hf with }
      | orphan hash label => exact { hf with }
      | absent hash label => exact ⟨{ hf.orphan with }, hf.none⟩
      | refunding hash refundId => exact { hf with }
      | _ => exact hf

/-- **No request takes away what a thread knows.** -/
theorem fact_of_spawned {r : Request} (hw : w.Inv) {f : Fact} (hf : f.Holds i t w) :
    f.Holds i t (w.spawned r) := by
  have hlive : w.live ⊆ (w.spawned r).live := by
    cases r
    case pay => exact List.subset_cons_self ..
    all_goals exact List.Subset.refl _
  have hup : w.up ⊆ (w.spawned r).up := by
    cases r
    case start => exact List.subset_cons_self ..
    all_goals exact List.Subset.refl _
  -- The handler of a recorded attempt is not the thread that is spawned.
  have horphan {hash : PaymentHash} {label : String} (ho : w.Orphan hash label) :
      (w.spawned r).Orphan hash label := by
    refine ⟨by cases r <;> exact ho.recorded, fun o hmem hlabel ⟨proc, halive⟩ => ?_,
      by cases r <;> exact ho.received⟩
    replace hmem : o ∈ w.attempts := by cases r <;> exact hmem
    have hlt := hw.attempts_lt o hmem
    have halive : ⟨o.thread, proc⟩ ∈ w.live := by
      cases r
      case pay =>
        rcases List.mem_cons.mp halive with heq | halive
        · have := congrArg LiveHandler.thread heq
          simp only at this
          omega
        · exact halive
      all_goals exact halive
    exact ho.stopped o hmem hlabel ⟨proc, halive⟩
  cases f with
  | spawned =>
    have hlt : i < w.threads + 1 := Nat.lt_succ_of_lt hf
    cases r <;> exact hlt
  | running => exact ⟨hf.1, hlive hf.2⟩
  | up => exact ⟨hf.1, hup hf.2⟩
  | prepared hash label =>
    refine ⟨hf.handler, hlive hf.alive, ?_, ?_, ?_⟩
    · cases r <;> exact hf.owner
    · cases r <;> exact hf.unsent
    · cases r <;> exact hf.covered
  | orphan hash label => exact horphan hf
  | absent hash label => exact ⟨horphan hf.orphan, by cases r <;> exact hf.none⟩
  | refunding hash refundId => cases r <;> exact { hf with }
  | _ => cases r <;> exact hf

/-- Whether stopping something stops a thread. -/
def concerns (s : Stop) (i : ℕ) (t : Task) : Bool :=
  match s with
  | .drop j => i = j && t.job.isHandler
  | .crash proc => t.proc = proc

/-- **Stopping other threads does not take away what a thread knows.** -/
theorem fact_of_stopped {s : Stop} (hs : concerns s i t = false) {f : Fact}
    (hf : f.Holds i t w) : f.Holds i t (w.stopped s) := by
  have hlive : (w.stopped s).live ⊆ w.live := by
    cases s <;> exact List.filter_subset_self _
  have hinflight : (w.stopped s).node.inflight ⊆ w.node.inflight := by
    cases s
    case drop => exact List.Subset.refl _
    case crash => exact List.filter_subset_self _
  have hrunning (hh : t.job.isHandler = true) (hl : ⟨i, t.proc⟩ ∈ w.live) :
      ⟨i, t.proc⟩ ∈ (w.stopped s).live := by
    cases s
    case drop j =>
      refine List.mem_filter.mpr ⟨hl, ?_⟩
      simpa [concerns, hh] using hs
    case crash proc =>
      refine List.mem_filter.mpr ⟨hl, ?_⟩
      simpa [concerns] using hs
  have horphan {hash : PaymentHash} {label : String} (ho : w.Orphan hash label) :
      (w.stopped s).Orphan hash label := by
    refine ⟨by cases s <;> exact ho.recorded, fun o hmem hlabel ⟨proc, halive⟩ => ?_,
      fun c hc => ho.received c (hinflight hc)⟩
    replace hmem : o ∈ w.attempts := by cases s <;> exact hmem
    exact ho.stopped o hmem hlabel ⟨proc, hlive halive⟩
  cases f with
  | running => exact ⟨hf.1, hrunning hf.1 hf.2⟩
  | up =>
    refine ⟨hf.1, ?_⟩
    cases s
    case drop => exact hf.2
    case crash proc =>
      refine List.mem_filter.mpr ⟨hf.2, ?_⟩
      simpa [concerns, hf.1] using hs
  | starting =>
    cases s
    case drop => exact hf
    case crash => exact fun hmem => hf (List.mem_of_mem_filter hmem)
  | prepared hash label =>
    refine ⟨hf.handler, hrunning hf.handler hf.alive, ?_, fun hl => hf.unsent ?_, ?_⟩
    · cases s <;> exact hf.owner
    · obtain ⟨hash', hk⟩ := TruthfulState.mem_labels_iff.mp hl
      refine TruthfulState.mem_labels_iff.mpr ⟨hash', hk.imp ?_ ?_⟩
      · cases s <;> exact id
      · exact fun ⟨proc, hc⟩ => ⟨proc, hinflight hc⟩
    · cases s <;> exact hf.covered
  | orphan hash label => exact horphan hf
  | absent hash label => exact ⟨horphan hf.orphan, by cases s <;> exact hf.none⟩
  | refunding hash refundId => cases s <;> exact { hf with }
  | _ => cases s <;> exact hf

end World

end Swapd
