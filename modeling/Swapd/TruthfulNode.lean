import Mathlib.Data.List.Perm.Basic
import Swapd.System

/-!
# A truthful node

What the handlers and monitors rely on, whichever node they talk to: a payment
exists from the moment the node receives the call that asks for it, a payment
that has completed or failed stays so, a result of `pay` is the final state of
its payment, and what the node says about payments is true when it says it. An
error may be returned at any time and means nothing.

A call to pay is sent and, some time later, received, or never; the handler
that sent it may be gone by then. What becomes of it when the process that sent
it is gone is a parameter, `truthfulNodeWith`; `truthfulNode` is the node that
never receives it then, which is an assumption of every result about that node.
The label a preimage comes with is that of its payment, or empty where the node
does not know it.

The node also remembers which threads have had their call to pay answered, and
which have been told that nothing is pending or complete for a hash.
-/

namespace Swapd

/-- The status of a payment. -/
inductive PaymentStatus where
  | pending
  | complete (preimage : Preimage)
  | failed (error : String)
deriving DecidableEq

/-- A payment of the node. -/
structure NodePayment where
  label : String
  hash : PaymentHash
  status : PaymentStatus
deriving DecidableEq

/-- A call to pay that has been sent and not been received. -/
structure SentCall where
  proc : ℕ
  label : String
  hash : PaymentHash
deriving DecidableEq

/-- The calls of the node. Asking for a payment and awaiting its result are
two: what is sent is on its way. -/
inductive TruthfulCall where
  | sendPay (request : PaymentRequest)
  | payResult (hash : PaymentHash) (label : String)
  | getPaymentState (hash : PaymentHash) (label : String)
  | getPreimage (hash : PaymentHash)
  | hasPendingOrCompletePayment (hash : PaymentHash)
deriving DecidableEq

/-- What the node answers. -/
@[reducible] def TruthfulCall.Reply : TruthfulCall → Type
  | sendPay _ => Unit
  | payResult _ _ => Except LightningError PaymentResult
  | getPaymentState _ _ => Except LightningError PaymentState
  | getPreimage _ => Except LightningError (Option PreimageResult)
  | hasPendingOrCompletePayment _ => Except LightningError Bool

/-- The interface of the node. -/
@[reducible] def Truthful : Interface where
  Call := TruthfulCall
  Reply := TruthfulCall.Reply

/-- The client of the node. -/
def truthfulClient : Client Truthful
  | .getPaymentState hash label =>
    Prog.perform (I := Truthful) (.getPaymentState hash label)
  | .getPreimage hash => Prog.perform (I := Truthful) (.getPreimage hash)
  | .hasPendingOrCompletePayment hash =>
    Prog.perform (I := Truthful) (.hasPendingOrCompletePayment hash)
  | .pay request =>
    Prog.perform (I := Truthful) (.sendPay request) >>= fun _ =>
      Prog.perform (I := Truthful) (.payResult request.paymentHash request.label)

/-- **The state of the node.** -/
structure TruthfulState where
  payments : List NodePayment
  inflight : List SentCall
  /-- The threads whose call to pay has been answered. -/
  returned : List ℕ
  /-- The threads that were told that nothing is pending or complete. -/
  cleared : List (ℕ × PaymentHash)
deriving DecidableEq

/-- How the node answers: with an error, from one of its payments, from one
whose label it does not know, or from having none. -/
inductive TruthfulChoice where
  | error (e : LightningError)
  | payment (n : ℕ)
  | unlabelled (n : ℕ)
  | absent
deriving DecidableEq

/-- The node's own moves. -/
inductive TruthfulAct where
  | receive (n : ℕ)
  | complete (n : ℕ) (preimage : Preimage)
  | fail (n : ℕ) (error : String)
deriving DecidableEq

namespace TruthfulState

variable (s : TruthfulState)

/-- The result of a payment, once it has one. -/
def resultOf : PaymentStatus → Option PaymentResult
  | .pending => none
  | .complete preimage => some (.success preimage)
  | .failed error => some (.failure error)

/-- The state of a payment. -/
def stateOf : PaymentStatus → PaymentState
  | .pending => .pending
  | .complete preimage => .success preimage
  | .failed error => .failure error

/-- Whether a payment is pending or complete. -/
def NodePayment.isOpen (p : NodePayment) : Bool :=
  match p.status with
  | .failed _ => false
  | _ => true

/-- **Serving a call.** -/
def serve (i proc : ℕ) : (c : TruthfulCall) → TruthfulChoice →
    TruthfulState → Option (c.Reply × TruthfulState)
  | .sendPay request, _, s =>
    some ((), { s with inflight := ⟨proc, request.label, request.paymentHash⟩ :: s.inflight })
  | .payResult hash label, ch, s =>
    let s' := { s with returned := i :: s.returned }
    match ch with
    | .error e => some (.error e, s')
    | .payment n => do
      let p ← s.payments[n]?
      if p.hash = hash ∧ p.label = label then
        (resultOf p.status).map (fun r => (.ok r, s'))
      else none
    | _ => none
  | .getPaymentState hash label, ch, s =>
    match ch with
    | .error e => if e = .paymentNotFound then none else some (.error e, s)
    | .payment n => do
      let p ← s.payments[n]?
      if p.hash = hash ∧ p.label = label then some (.ok (stateOf p.status), s) else none
    | .absent =>
      if s.payments.any (fun p => p.hash = hash && p.label = label) then none
      else some (.error .paymentNotFound, s)
    | _ => none
  | .getPreimage hash, ch, s =>
    match ch with
    | .error e => some (.error e, s)
    | .payment n => do
      let p ← s.payments[n]?
      match p.status with
      | .complete preimage =>
        if p.hash = hash then some (.ok (some ⟨preimage, p.label⟩), s) else none
      | _ => none
    | .unlabelled n => do
      let p ← s.payments[n]?
      match p.status with
      | .complete preimage =>
        if p.hash = hash then some (.ok (some ⟨preimage, ""⟩), s) else none
      | _ => none
    | .absent => some (.ok none, s)
  | .hasPendingOrCompletePayment hash, ch, s =>
    match ch with
    | .error e => some (.error e, s)
    | .payment n => do
      let p ← s.payments[n]?
      if p.hash = hash ∧ NodePayment.isOpen p then some (.ok true, s) else none
    | .absent =>
      if s.payments.any (fun p => p.hash = hash && NodePayment.isOpen p) then none
      else some (.ok false, { s with cleared := (i, hash) :: s.cleared })
    | _ => none

/-- A payment that is pending gets a final status. -/
def settle (n : ℕ) (status : PaymentStatus) : Option TruthfulState := do
  let p ← s.payments[n]?
  if p.status = .pending then
    some { s with payments := s.payments.set n { p with status := status } }
  else none

/-- **A move of the node.** -/
def act : TruthfulAct → Option TruthfulState
  | .receive n => do
    let c ← s.inflight[n]?
    some { s with
      payments := ⟨c.label, c.hash, .pending⟩ :: s.payments
      inflight := s.inflight.eraseIdx n }
  | .complete n preimage => s.settle n (.complete preimage)
  | .fail n error => s.settle n (.failed error)

/-- A process is gone: what it sent is lost unless it has been received. -/
def disconnect (proc : ℕ) : TruthfulState :=
  { s with inflight := s.inflight.filter (fun c => c.proc ≠ proc) }

end TruthfulState

/-- **A truthful node**, with what becomes of the calls that a process has sent
when it is gone. -/
@[reducible] def truthfulNodeWith (disconnect : ℕ → TruthfulState → TruthfulState) :
    NodeModel Truthful where
  State := TruthfulState
  Choice := TruthfulChoice
  Act := TruthfulAct
  serve := TruthfulState.serve
  act := fun a s => s.act a
  disconnect := disconnect

/-- **The truthful node** that loses them. -/
@[reducible] def truthfulNode : NodeModel Truthful :=
  truthfulNodeWith (fun proc s => s.disconnect proc)

/-- The node before it has received anything. -/
def TruthfulState.IsInitial (s : TruthfulState) : Prop := s = ⟨[], [], [], []⟩

namespace TruthfulState

/-! ## What the node says is true -/

/-- Some payment with this hash and label is complete. -/
def Completed (s : TruthfulState) (hash : PaymentHash) (label : String) : Prop :=
  ∃ preimage, ⟨label, hash, .complete preimage⟩ ∈ s.payments

/-- Some payment with this hash and label has failed. -/
def Failed (s : TruthfulState) (hash : PaymentHash) (label : String) : Prop :=
  ∃ error, ⟨label, hash, .failed error⟩ ∈ s.payments

/-- Some payment with this hash is complete. -/
def CompleteFor (s : TruthfulState) (hash : PaymentHash) : Prop :=
  ∃ label, s.Completed hash label

/-- A payment with this hash and label is on its way or pending. -/
def Due (s : TruthfulState) (hash : PaymentHash) (label : String) : Prop :=
  ⟨label, hash, .pending⟩ ∈ s.payments ∨ ∃ proc, ⟨proc, label, hash⟩ ∈ s.inflight

/-- A payment with this hash and label exists or is on its way. -/
def Known (s : TruthfulState) (hash : PaymentHash) (label : String) : Prop :=
  (∃ status, ⟨label, hash, status⟩ ∈ s.payments) ∨ ∃ proc, ⟨proc, label, hash⟩ ∈ s.inflight

/-- A payment with this hash and label is on its way, pending or complete. -/
def Outstanding (s : TruthfulState) (hash : PaymentHash) (label : String) : Prop :=
  s.Due hash label ∨ s.Completed hash label

/-- The labels of all payments that exist or are on their way. -/
def labels (s : TruthfulState) : List String :=
  s.payments.map NodePayment.label ++ s.inflight.map SentCall.label

/-- Nothing with this hash is on its way, pending or complete. -/
def Quiet (s : TruthfulState) (hash : PaymentHash) : Prop :=
  (∀ c ∈ s.inflight, c.hash ≠ hash) ∧
    ∀ p ∈ s.payments, p.hash = hash → ∃ error, p.status = .failed error

variable {s s' : TruthfulState} {i proc : ℕ} {ch : TruthfulChoice}

theorem mem_labels_iff {label : String} :
    label ∈ s.labels ↔ ∃ hash, s.Known hash label := by
  simp only [labels, List.mem_append, List.mem_map, Known]
  constructor
  · rintro (⟨⟨_, hash, status⟩, h, rfl⟩ | ⟨⟨proc, _, hash⟩, h, rfl⟩)
    · exact ⟨hash, Or.inl ⟨status, h⟩⟩
    · exact ⟨hash, Or.inr ⟨proc, h⟩⟩
  · rintro ⟨hash, ⟨status, h⟩ | ⟨proc, h⟩⟩
    · exact Or.inl ⟨_, h, rfl⟩
    · exact Or.inr ⟨_, h, rfl⟩

theorem Known.mem_labels {hash : PaymentHash} {label : String} (h : s.Known hash label) :
    label ∈ s.labels :=
  mem_labels_iff.mpr ⟨hash, h⟩

theorem Completed.known {hash : PaymentHash} {label : String}
    (h : s.Completed hash label) : s.Known hash label :=
  Or.inl (h.imp' _ (fun _ hp => hp))

theorem Failed.known {hash : PaymentHash} {label : String} (h : s.Failed hash label) :
    s.Known hash label :=
  Or.inl (h.imp' _ (fun _ hp => hp))

theorem Due.known {hash : PaymentHash} {label : String} (h : s.Due hash label) :
    s.Known hash label :=
  h.imp (fun hp => ⟨_, hp⟩) id

theorem Outstanding.known {hash : PaymentHash} {label : String}
    (h : s.Outstanding hash label) : s.Known hash label :=
  h.elim Due.known Completed.known

/-- **A label names one payment**, where labels are distinct. -/
theorem eq_of_label {p q : NodePayment} (h : s.labels.Nodup) (hp : p ∈ s.payments)
    (hq : q ∈ s.payments) (hlabel : p.label = q.label) : p = q :=
  List.inj_on_of_nodup_map (List.Nodup.of_append_left h) hp hq hlabel

/-- What has a final status is not due. -/
theorem not_due {p : NodePayment} (h : s.labels.Nodup) (hp : p ∈ s.payments)
    (hstatus : p.status ≠ .pending) : ¬ s.Due p.hash p.label := by
  rintro (hdue | ⟨proc, hdue⟩)
  · exact hstatus (congrArg NodePayment.status (eq_of_label h hp hdue rfl))
  · exact List.disjoint_of_nodup_append h (List.mem_map_of_mem hp)
      (List.mem_map_of_mem (f := SentCall.label) hdue)

theorem serve_payResult {hash : PaymentHash} {label : String}
    {r : Except LightningError PaymentResult}
    (h : serve i proc (.payResult hash label) ch s = some (r, s')) :
    s' = { s with returned := i :: s.returned } ∧
      (∀ preimage, r = .ok (.success preimage) → s.Completed hash label) ∧
      ∀ error, r = .ok (.failure error) → s.Failed hash label := by
  cases ch with
  | error e => cases h; simp
  | payment n =>
    simp only [serve, Option.bind_eq_bind, Option.bind_eq_some_iff] at h
    obtain ⟨⟨label', hash', status⟩, hp, h⟩ := h
    split at h
    next heq =>
      obtain ⟨rfl, rfl⟩ := heq
      have hmem := List.mem_of_getElem? hp
      cases status <;> simp [resultOf] at h
      case complete preimage =>
        obtain ⟨rfl, rfl⟩ := h
        exact ⟨rfl, fun _ _ => ⟨preimage, hmem⟩, fun _ h => nomatch h⟩
      case failed error =>
        obtain ⟨rfl, rfl⟩ := h
        exact ⟨rfl, fun _ h => (nomatch h), fun _ _ => ⟨error, hmem⟩⟩
    next => cases h
  | unlabelled n => cases h
  | absent => cases h

theorem serve_getPaymentState {hash : PaymentHash} {label : String}
    {r : Except LightningError PaymentState}
    (h : serve i proc (.getPaymentState hash label) ch s = some (r, s')) :
    s' = s ∧ (∀ preimage, r = .ok (.success preimage) → s.Completed hash label) ∧
      (∀ error, r = .ok (.failure error) → s.Failed hash label) ∧
      (r = .error .paymentNotFound → ∀ p ∈ s.payments, ¬ (p.hash = hash ∧ p.label = label)) := by
  cases ch with
  | error e =>
    simp only [serve] at h
    split at h
    next => cases h
    next hne => cases h; simp [hne]
  | payment n =>
    simp only [serve, Option.bind_eq_bind, Option.bind_eq_some_iff] at h
    obtain ⟨⟨label', hash', status⟩, hp, h⟩ := h
    split at h
    next heq =>
      obtain ⟨rfl, rfl⟩ := heq
      have hmem := List.mem_of_getElem? hp
      cases status <;> simp [stateOf] at h <;> obtain ⟨rfl, rfl⟩ := h
      case pending => simp
      case complete preimage =>
        exact ⟨rfl, fun _ _ => ⟨preimage, hmem⟩, fun _ h => (nomatch h), fun h => (nomatch h)⟩
      case failed error =>
        exact ⟨rfl, fun _ h => (nomatch h), fun _ _ => ⟨error, hmem⟩, fun h => (nomatch h)⟩
    next => cases h
  | unlabelled n => cases h
  | absent =>
    simp only [serve] at h
    split at h
    next => cases h
    next hnone => cases h; simp_all

theorem serve_getPreimage {hash : PaymentHash}
    {r : Except LightningError (Option PreimageResult)}
    (h : serve i proc (.getPreimage hash) ch s = some (r, s')) :
    s' = s ∧ ∀ result, r = .ok (some result) →
      ∃ label, s.Completed hash label ∧ (result.label = label ∨ result.label = "") := by
  cases ch with
  | error e => cases h; simp
  | payment n =>
    simp only [serve, Option.bind_eq_bind, Option.bind_eq_some_iff] at h
    obtain ⟨⟨label', hash', status⟩, hp, h⟩ := h
    cases status <;> simp at h
    case complete preimage =>
      obtain ⟨rfl, rfl, rfl⟩ := h
      refine ⟨rfl, ?_⟩
      rintro result h
      cases h
      exact ⟨_, ⟨preimage, List.mem_of_getElem? hp⟩, Or.inl rfl⟩
  | unlabelled n =>
    simp only [serve, Option.bind_eq_bind, Option.bind_eq_some_iff] at h
    obtain ⟨⟨label', hash', status⟩, hp, h⟩ := h
    cases status <;> simp at h
    case complete preimage =>
      obtain ⟨rfl, rfl, rfl⟩ := h
      refine ⟨rfl, ?_⟩
      rintro result h
      cases h
      exact ⟨_, ⟨preimage, List.mem_of_getElem? hp⟩, Or.inr rfl⟩
  | absent => cases h; simp

theorem serve_hasPendingOrCompletePayment {hash : PaymentHash}
    {r : Except LightningError Bool}
    (h : serve i proc (.hasPendingOrCompletePayment hash) ch s = some (r, s')) :
    (r ≠ .ok false ∧ s' = s) ∨
      (r = .ok false ∧ s' = { s with cleared := (i, hash) :: s.cleared } ∧
        ∀ p ∈ s.payments, p.hash = hash → ∃ error, p.status = .failed error) := by
  cases ch with
  | error e => cases h; simp
  | payment n =>
    simp only [serve, Option.bind_eq_bind, Option.bind_eq_some_iff] at h
    obtain ⟨p, -, h⟩ := h
    split at h
    next => cases h; simp
    next => cases h
  | unlabelled n => cases h
  | absent =>
    simp only [serve] at h
    split at h
    next => cases h
    next hnone =>
      cases h
      refine Or.inr ⟨rfl, rfl, fun p hp hhash => ?_⟩
      have hclosed : NodePayment.isOpen p ≠ true := fun hopen =>
        hnone (List.any_eq_true.mpr ⟨p, hp, by simp [hhash, hopen]⟩)
      unfold NodePayment.isOpen at hclosed
      split at hclosed
      next error herror => exact ⟨error, herror⟩
      next => exact absurd rfl hclosed

/-- No call touches a payment. -/
theorem serve_payments {c : TruthfulCall} {r : c.Reply}
    (h : serve i proc c ch s = some (r, s')) :
    s'.payments = s.payments ∧ s.returned ⊆ s'.returned := by
  cases c with
  | sendPay request =>
    cases h
    exact ⟨rfl, List.Subset.refl _⟩
  | payResult hash label =>
    obtain ⟨rfl, -⟩ := serve_payResult h
    exact ⟨rfl, List.subset_cons_self ..⟩
  | getPaymentState hash label =>
    obtain ⟨rfl, -⟩ := serve_getPaymentState h
    exact ⟨rfl, List.Subset.refl _⟩
  | getPreimage hash =>
    obtain ⟨rfl, -⟩ := serve_getPreimage h
    exact ⟨rfl, List.Subset.refl _⟩
  | hasPendingOrCompletePayment hash =>
    rcases serve_hasPendingOrCompletePayment h with ⟨-, rfl⟩ | ⟨-, rfl, -⟩ <;>
      exact ⟨rfl, List.Subset.refl _⟩

/-! ## How payments move -/

/-- An element of a list, with what is before and after it. -/
theorem eq_append_of_getElem? {α : Type} {l : List α} {n : ℕ} {a : α}
    (h : l[n]? = some a) :
    ∃ l₁ l₂, l = l₁ ++ a :: l₂ ∧ l.eraseIdx n = l₁ ++ l₂ ∧
      ∀ b, l.set n b = l₁ ++ b :: l₂ := by
  obtain ⟨hn, rfl⟩ := List.getElem?_eq_some_iff.mp h
  refine ⟨l.take n, l.drop (n + 1), ?_, List.eraseIdx_eq_take_drop_succ .., fun b => ?_⟩
  · rw [List.cons_getElem_drop_succ, List.take_append_drop]
  · rw [List.set_eq_take_append_cons_drop, if_pos hn]

/-- **What a move of the node does**: a call is received, or a payment that was
pending gets its final status. -/
theorem act_cases {a : TruthfulAct} (h : s.act a = some s') :
    (∃ proc label hash l₁ l₂, s.inflight = l₁ ++ ⟨proc, label, hash⟩ :: l₂ ∧
        s' = { s with
          payments := ⟨label, hash, .pending⟩ :: s.payments
          inflight := l₁ ++ l₂ }) ∨
      (∃ label hash status p₁ p₂, status ≠ .pending ∧
        s.payments = p₁ ++ ⟨label, hash, .pending⟩ :: p₂ ∧
        s' = { s with payments := p₁ ++ ⟨label, hash, status⟩ :: p₂ }) := by
  have hsettle {n : ℕ} (status : PaymentStatus) (hne : status ≠ .pending)
      (h : s.settle n status = some s') :
      ∃ label hash status p₁ p₂, status ≠ .pending ∧
        s.payments = p₁ ++ ⟨label, hash, .pending⟩ :: p₂ ∧
        s' = { s with payments := p₁ ++ ⟨label, hash, status⟩ :: p₂ } := by
    simp only [settle, Option.bind_eq_bind, Option.bind_eq_some_iff] at h
    obtain ⟨⟨label, hash, old⟩, hp, h⟩ := h
    split at h
    next heq =>
      obtain rfl : old = .pending := heq
      obtain ⟨p₁, p₂, hps, -, hset⟩ := eq_append_of_getElem? hp
      cases h
      exact ⟨label, hash, status, p₁, p₂, hne, hps, by rw [hset]⟩
    next => cases h
  cases a with
  | receive n =>
    simp only [act, Option.bind_eq_bind, Option.bind_eq_some_iff] at h
    obtain ⟨⟨proc, label, hash⟩, hc, h⟩ := h
    obtain ⟨l₁, l₂, hl, herase, -⟩ := eq_append_of_getElem? hc
    cases h
    exact Or.inl ⟨proc, label, hash, l₁, l₂, hl, by rw [herase]⟩
  | complete n preimage => exact Or.inr (hsettle (.complete preimage) nofun h)
  | fail n error => exact Or.inr (hsettle (.failed error) nofun h)

section Act

variable {a : TruthfulAct} {hash : PaymentHash} {label : String}

theorem act_ghosts (h : s.act a = some s') :
    s'.returned = s.returned ∧ s'.cleared = s.cleared := by
  rcases act_cases h with ⟨_, _, _, _, _, _, rfl⟩ | ⟨_, _, _, _, _, _, _, rfl⟩ <;>
    exact ⟨rfl, rfl⟩

theorem act_inflight (h : s.act a = some s') : s'.inflight ⊆ s.inflight := by
  rcases act_cases h with ⟨_, _, _, l₁, l₂, hl, rfl⟩ | ⟨_, _, _, _, _, _, _, rfl⟩
  · rw [hl]
    intro c hc
    simp only [List.mem_append, List.mem_cons] at hc ⊢
    tauto
  · exact fun _ hc => hc

/-- A move changes no label. -/
theorem act_labels (h : s.act a = some s') : s'.labels.Perm s.labels := by
  rcases act_cases h with ⟨_, _, _, l₁, l₂, hl, rfl⟩ | ⟨_, _, _, p₁, p₂, _, hp, rfl⟩
  · simp only [labels, hl, List.map_cons, List.map_append, List.cons_append,
      ← List.append_assoc]
    exact List.perm_middle.symm
  · simp only [labels, hp, List.map_cons, List.map_append]
    exact List.Perm.refl _

/-- What is complete stays complete. -/
theorem Completed.act (hc : s.Completed hash label) (h : s.act a = some s') :
    s'.Completed hash label := by
  obtain ⟨preimage, hmem⟩ := hc
  refine ⟨preimage, ?_⟩
  rcases act_cases h with ⟨_, _, _, _, _, _, rfl⟩ | ⟨_, _, _, p₁, p₂, _, hp, rfl⟩
  · exact List.mem_cons_of_mem _ hmem
  · rw [hp] at hmem
    simp only [List.mem_append, List.mem_cons, NodePayment.mk.injEq] at hmem ⊢
    simp at hmem
    tauto

/-- What has failed has failed for good. -/
theorem Failed.act (hf : s.Failed hash label) (h : s.act a = some s') :
    s'.Failed hash label := by
  obtain ⟨error, hmem⟩ := hf
  refine ⟨error, ?_⟩
  rcases act_cases h with ⟨_, _, _, _, _, _, rfl⟩ | ⟨_, _, _, p₁, p₂, _, hp, rfl⟩
  · exact List.mem_cons_of_mem _ hmem
  · rw [hp] at hmem
    simp only [List.mem_append, List.mem_cons, NodePayment.mk.injEq] at hmem ⊢
    simp at hmem
    tauto

theorem CompleteFor.act (hc : s.CompleteFor hash) (h : s.act a = some s') :
    s'.CompleteFor hash :=
  hc.imp (fun _ hl => Completed.act hl h)

/-- Nothing becomes due by a move. -/
theorem Due.of_act (hd : s'.Due hash label) (h : s.act a = some s') :
    s.Due hash label := by
  rcases act_cases h with ⟨proc, l, g, l₁, l₂, hl, rfl⟩ | ⟨l, g, status, p₁, p₂, hne, hp, rfl⟩
  · rcases hd with hd | ⟨p, hd⟩
    · rcases List.mem_cons.mp hd with heq | hd
      · cases heq
        exact Or.inr ⟨proc, by simp [hl]⟩
      · exact Or.inl hd
    · refine Or.inr ⟨p, ?_⟩
      rw [hl]
      simp only [List.mem_append, List.mem_cons] at hd ⊢
      tauto
  · rcases hd with hd | hd
    · refine Or.inl ?_
      rw [hp]
      simp only [List.mem_append, List.mem_cons, NodePayment.mk.injEq] at hd ⊢
      rcases hd with hd | ⟨-, -, hstatus⟩ | hd
      · exact Or.inl hd
      · exact absurd hstatus.symm hne
      · exact Or.inr (Or.inr hd)
    · exact Or.inr hd

/-- Nothing becomes outstanding by a move. -/
theorem Outstanding.of_act (ho : s'.Outstanding hash label) (h : s.act a = some s') :
    s.Outstanding hash label := by
  rcases ho with hd | ⟨preimage, hp⟩
  · exact Or.inl (hd.of_act h)
  · rcases act_cases h with ⟨_, _, _, _, _, _, rfl⟩ | ⟨l, g, status, p₁, p₂, _, hps, rfl⟩
    · rcases List.mem_cons.mp hp with heq | hp
      · cases heq
      · exact Or.inr ⟨preimage, hp⟩
    · simp only [List.mem_append, List.mem_cons, NodePayment.mk.injEq] at hp
      rcases hp with hp | ⟨rfl, rfl, rfl⟩ | hp
      · exact Or.inr ⟨preimage, by simp [hps, hp]⟩
      · exact Or.inl (Or.inl (by simp [hps]))
      · exact Or.inr ⟨preimage, by simp [hps, hp]⟩

/-- A payment after a move was a payment, or was on its way. -/
theorem mem_payments_of_act {p : NodePayment} (h : s.act a = some s')
    (hp : p ∈ s'.payments) :
    (∃ status, ⟨p.label, p.hash, status⟩ ∈ s.payments) ∨
      ∃ proc, ⟨proc, p.label, p.hash⟩ ∈ s.inflight := by
  rcases act_cases h with ⟨proc, l, g, l₁, l₂, hl, rfl⟩ | ⟨l, g, status, p₁, p₂, _, hps, rfl⟩
  · rcases List.mem_cons.mp hp with rfl | hp
    · exact Or.inr ⟨proc, by simp [hl]⟩
    · exact Or.inl ⟨p.status, hp⟩
  · refine Or.inl ?_
    simp only [List.mem_append, List.mem_cons] at hp
    rw [hps]
    rcases hp with hp | rfl | hp
    · exact ⟨p.status, by simp [hp]⟩
    · exact ⟨.pending, by simp⟩
    · exact ⟨p.status, by simp [hp]⟩

/-- Nothing becomes known by a move. -/
theorem Known.of_act (hk : s'.Known hash label) (h : s.act a = some s') :
    s.Known hash label := by
  rcases hk with ⟨status, hp⟩ | ⟨proc, hc⟩
  · exact mem_payments_of_act h hp
  · exact Or.inr ⟨proc, act_inflight h hc⟩

/-- **Quiet stays quiet**, and gets no new payments. -/
theorem Quiet.act (hq : s.Quiet hash) (h : s.act a = some s') :
    s'.Quiet hash ∧ ∀ p ∈ s'.payments, p.hash = hash → p ∈ s.payments := by
  rcases act_cases h with ⟨proc, l, g, l₁, l₂, hl, rfl⟩ | ⟨l, g, status, p₁, p₂, _, hp, rfl⟩
  · have hne : g ≠ hash := hq.1 ⟨proc, l, g⟩ (by simp [hl])
    have hsub : ∀ p ∈ (⟨l, g, .pending⟩ :: s.payments : List NodePayment),
        p.hash = hash → p ∈ s.payments := by
      intro p hp hph
      rcases List.mem_cons.mp hp with rfl | hp
      · exact absurd hph hne
      · exact hp
    refine ⟨⟨fun c hc => hq.1 c ?_, fun p hp hph => hq.2 p (hsub p hp hph) hph⟩, hsub⟩
    exact act_inflight h hc
  · have hne : g ≠ hash := by
      intro hg
      obtain ⟨error, herror⟩ := hq.2 ⟨l, g, .pending⟩ (by simp [hp]) hg
      cases herror
    have hsub : ∀ p ∈ p₁ ++ ⟨l, g, status⟩ :: p₂, p.hash = hash → p ∈ s.payments := by
      intro p hmem hph
      simp only [List.mem_append, List.mem_cons] at hmem
      rw [hp]
      rcases hmem with hmem | rfl | hmem
      · simp [hmem]
      · exact absurd hph hne
      · simp [hmem]
    exact ⟨⟨hq.1, fun p hp hph => hq.2 p (hsub p hp hph) hph⟩, hsub⟩

end Act

end TruthfulState

namespace Sample

variable {exclusive : Bool}

/-- The deployment on the truthful node before anything has happened. -/
def truthfulStart (exclusive : Bool) :
    (swapd truthfulNode truthfulClient server exclusive).Config :=
  ⟨world truthfulNode ⟨[], [], [], []⟩, []⟩

theorem truthfulStart_initial :
    IsInitial truthfulNode truthfulClient server exclusive TruthfulState.IsInitial
      (truthfulStart exclusive) where
  threads := rfl
  node := rfl
  spawned := rfl
  up := rfl
  serving := rfl
  live := rfl
  attempts := rfl
  refunds := rfl
  checked := rfl
  paymentAttempts := rfl
  swapLocks := rfl
  unpaid := by simp [truthfulStart, world, tables]

/-- A step of a thread that is served what there is. -/
abbrev go (i : ℕ) : (swapd truthfulNode truthfulClient server exclusive).Action :=
  .run i .ok

/-- A step of a thread that the node serves. -/
abbrev askNode (i : ℕ) (choice : TruthfulChoice) :
    (swapd truthfulNode truthfulClient server exclusive).Action :=
  .run i (.node choice)

end Sample

end Swapd
