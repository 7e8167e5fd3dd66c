import Swapd.SingleProcess

/-!
# A refund excludes payments

What the discipline of one process comes to: once `refund_swap` has returned a
partial signature for a swap, nothing with the payment hash of that swap is on
its way, pending or complete, and from then on no payment with that hash is
made at all.

This rests on the connection to the node. A process that starts takes "payment
not found" for the end of an attempt, and a call to pay that is still on its way
from the process before it would be found only later. That such a call is lost
with its process is the condition `LosesSent`, and without it a payment can
follow a refund.
-/

namespace Swapd

open Machine (ReachableIf StepIf)

/-- **Nothing is received from a process that is gone**: the calls to pay that it
has sent and the node has not received are lost with it, and nothing else. -/
def LosesSent (disconnect : ℕ → TruthfulState → TruthfulState) : Prop :=
  ∀ proc s, disconnect proc s
    = { s with inflight := s.inflight.filter (fun c => c.proc ≠ proc) }

theorem LosesSent.eq_disconnect {disconnect : ℕ → TruthfulState → TruthfulState}
    (h : LosesSent disconnect) : disconnect = fun proc s => s.disconnect proc :=
  funext fun proc => funext fun s => h proc s

/-- **Pay and refund exclude each other**, where nothing is received from a
process that is gone. In a deployment of one process at a time, in every run
that uses distinct labels and refund ids: when a refund has been signed for a
hash, nothing with that hash is on its way, pending or complete; and later it
still is not, and no payment with that hash has been added.

What a handler has sent may be received long after the handler was dropped. -/
theorem refundSwap_excludes_payments {server : SwapServer}
    {disconnect : ℕ → TruthfulState → TruthfulState} (hlost : LosesSent disconnect)
    {S S' : (swapd (truthfulNodeWith disconnect) truthfulClient server true).Config}
    (hS : ReachableIf World.distinctNames
      (IsInitial (truthfulNodeWith disconnect) truthfulClient server true
        TruthfulState.IsInitial) S)
    (hS' : Relation.ReflTransGen (StepIf World.distinctNames) S S') {i : ℕ}
    {refunded : RefundedSwap} (hresult : S.result i = some (.refunded (.ok refunded))) :
    S.state.node.Quiet refunded.hash ∧ S'.state.node.Quiet refunded.hash ∧
      ∀ p ∈ S'.state.node.payments, p.hash = refunded.hash → p ∈ S.state.node.payments := by
  obtain rfl := hlost.eq_disconnect
  have hok : (singleProcess server).Ok S :=
    singleProcess_sound.reachable (fun _ => singleProcess_initial) hS
  obtain ⟨hok', hlater⟩ := hok.later_of_steps singleProcess_sound hS'
  obtain ⟨t, refundId, hrefund, hcleared⟩ := hok.post singleProcess_sound hresult
  have hquiet := hok.1.quiet _ hrefund hcleared
  have hquiet' := hok'.1.quiet _ (hlater.refunds hrefund) (hlater.cleared hcleared)
  exact ⟨hquiet.2, hquiet'.2, hlater.payments _ hrefund hcleared⟩

namespace Sample

/-- A process starts and refunds the swap. -/
def refundRun : List (swapd truthfulNode truthfulClient server true).Action :=
  [.spawn (.start 1), go 0, go 0,
    .spawn (.refund 0 refundRequest), go 1, go 1, go 1, go 1, go 1, askNode 1 .absent]

/-- A request to pay comes after the refund, and finds the swap locked. -/
def payAfterRefund : List (swapd truthfulNode truthfulClient server true).Action :=
  .spawn (.pay 0 payRequest) :: List.replicate 11 (go 2)

/-- Where the refund leads. -/
def refunded : (swapd truthfulNode truthfulClient server true).Config :=
  Machine.after World.distinctNames (truthfulStart true) refundRun

/-- Where the request to pay leads then. -/
def refundedAndPaid : (swapd truthfulNode truthfulClient server true).Config :=
  Machine.after World.distinctNames refunded payAfterRefund

/-- The node that still receives what a process has sent when it is gone. -/
abbrev lateNode : NodeModel Truthful := truthfulNodeWith (fun _ s => s)

/-- A step of a thread that is served what there is. -/
abbrev goLate (i : ℕ) : (swapd lateNode truthfulClient server true).Action :=
  .run i .ok

/-- A step of a thread to which that node has nothing to say. -/
abbrev askLate (i : ℕ) : (swapd lateNode truthfulClient server true).Action :=
  .run i (.node .absent)

/-- A process starts, sends a payment and crashes; the next one does not find
the payment, takes its attempt for cancelled and refunds the swap. -/
def refundAfterCrash : List (swapd lateNode truthfulClient server true).Action :=
  [.spawn (.start 1), goLate 0, goLate 0, .spawn (.pay 0 payRequest)] ++
    List.replicate 11 (goLate 1) ++
    [askLate 1, .halt (.crash 0), .spawn (.start 1), goLate 2, askLate 2, goLate 2,
      goLate 2, .spawn (.refund 2 refundRequest), goLate 3, goLate 3, goLate 3, goLate 3,
      goLate 3, askLate 3]

/-- The deployment on that node before anything has happened. -/
def lateStart : (swapd lateNode truthfulClient server true).Config :=
  ⟨world lateNode ⟨[], [], [], []⟩, []⟩

theorem lateStart_initial :
    IsInitial lateNode truthfulClient server true TruthfulState.IsInitial lateStart where
  threads := rfl
  node := rfl
  spawned := rfl
  up := rfl
  serving := rfl
  live := rfl
  attempts := rfl
  refunds := rfl
  checked := rfl
  paymentAttempts := rfl
  swapLocks := rfl
  unpaid := by simp [lateStart, world, tables]

/-- Where that leads. -/
def refundedAfterCrash : (swapd lateNode truthfulClient server true).Config :=
  Machine.after World.distinctNames lateStart refundAfterCrash

/-- Where it leads when the payment is received and completed. -/
def receivedLate : (swapd lateNode truthfulClient server true).Config :=
  Machine.after World.distinctNames refundedAfterCrash
    [.drift (.node (.receive 0)), .drift (.node (.complete 0 fakePreimage))]

end Sample

open Sample in
set_option maxRecDepth 4000 in
theorem refundSwap_excludes_payments_sample :
    refunded.result 1 = some (.refunded (.ok ⟨swap.pub.hash, [], []⟩)) ∧
      refundedAndPaid.result 2
        = some (.paid (.error (Status.failedPrecondition "swap is locked"))) ∧
      refunded.state.node.Quiet swap.pub.hash ∧
      refundedAndPaid.state.node.Quiet swap.pub.hash ∧
      ∀ p ∈ refundedAndPaid.state.node.payments, p.hash = swap.pub.hash →
        p ∈ refunded.state.node.payments := by
  have hresult : refunded.result 1 = some (.refunded (.ok ⟨swap.pub.hash, [], []⟩)) := by
    decide
  refine ⟨hresult, by decide, ?_⟩
  exact refundSwap_excludes_payments (fun _ _ => rfl)
    ⟨truthfulStart true, truthfulStart_initial, Machine.reflTransGen_after _ _⟩
    (Machine.reflTransGen_after _ _) hresult

open Sample in
set_option maxRecDepth 4000 in
/-- **A refund that a payment follows**, where the node still receives what a
process that has crashed has sent: the attempt was taken for cancelled and its
lock removed, and the refund is signed before the payment arrives. -/
theorem refundSwap_precedes_payment :
    (refundedAfterCrash.result 3 = some (.refunded (.ok ⟨swap.pub.hash, [], []⟩)) ∧
      refundedAfterCrash.state.node.payments = [] ∧
      receivedLate.state.node.payments.map NodePayment.hash = [swap.pub.hash] ∧
      receivedLate.state.node.payments.map NodePayment.status = [.complete fakePreimage]) ∧
      ¬ ∀ S S' : (swapd lateNode truthfulClient server true).Config,
        ReachableIf World.distinctNames
          (IsInitial lateNode truthfulClient server true TruthfulState.IsInitial) S →
        Relation.ReflTransGen (StepIf World.distinctNames) S S' → ∀ i refunded,
        S.result i = some (.refunded (.ok refunded)) →
        (∀ p ∈ S.state.node.payments, p.hash = refunded.hash → ∃ error, p.status = .failed error) ∧
          ∀ p ∈ S'.state.node.payments, p.hash = refunded.hash →
            ∃ error, p.status = .failed error := by
  refine ⟨by decide, fun h => ?_⟩
  have hquiet := (h refundedAfterCrash receivedLate
    ⟨lateStart, lateStart_initial, Machine.reflTransGen_after _ _⟩
    (Machine.reflTransGen_after _ _) 3 ⟨swap.pub.hash, [], []⟩ (by decide)).2
  have hstatus : receivedLate.state.node.payments
      = [⟨paymentLabel swap.pub.hash 1, swap.pub.hash, .complete fakePreimage⟩] := by decide
  obtain ⟨error, herror⟩ := hquiet _ (by rw [hstatus]; exact List.mem_singleton_self _) rfl
  cases herror

end Swapd
