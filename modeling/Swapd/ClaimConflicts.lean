import Swapd.ClaimMonitor

/-!
# One transaction for each output

What a pass of the claim monitor hands on are transactions to be: claims to
recheck, each with its inputs, and groups of outputs to claim. The groups have no
output in common, with each other or with a claim that is rechecked. The claims do:
one is rechecked if its inputs are claimable, whether or not a claim before it has
taken them. A claim and its replacement spend the same outputs, so both are
rechecked (`planClaims_onePerOutput_iff`).
-/

namespace Swapd

namespace ClaimMonitor

/-- The outputs that the transactions of a plan are to spend. -/
def ClaimPlan.handed (plan : ClaimPlan) : List (List OutPoint) :=
  (plan.recheckClaims.map Prod.snd ++ plan.swaps.map Prod.snd).map
    (fun cs => cs.map (fun c => c.utxo.outpoint))

/-- **One transaction for each output**, which is that of the first claim that
spends it, if it is that of a claim. -/
structure OnePerOutput (claimables : List ClaimableUtxo) (claims : List Claim)
    (plan : ClaimPlan) : Prop where
  disjoint : plan.handed.Pairwise List.Disjoint
  first : ∀ o, List.Sublist
    ((plan.recheckClaims.map Prod.fst).filter (fun claim => o ∈ inputsOf claim))
    ((claims.filter (fun claim => IsRechecked claimables claim ∧ o ∈ inputsOf claim)).take 1)

variable {claimables : List ClaimableUtxo} {claims : List Claim} {order : List ℕ}

theorem map_fst_rechecks :
    (rechecks claimables claims).map Prod.fst = claims.filter (IsRechecked claimables) := by
  rw [rechecks, List.map_map]
  exact List.map_id _

/-- A claim that is rechecked is handed on with its inputs. -/
theorem map_snd_rechecks :
    ((rechecks claimables claims).map Prod.snd).map (fun cs => cs.map (fun c => c.utxo.outpoint))
      = (claims.filter (IsRechecked claimables)).map inputsOf := by
  rw [rechecks, List.map_map, List.map_map]
  refine List.map_congr_left (fun claim hclaim => ?_)
  exact map_outpoint_claimablesOf (of_decide_eq_true (List.mem_filter.mp hclaim).2)

/-- The groups have no output in common. -/
theorem pairwise_groups :
    ((Table.groupByKey (fun c => c.swap.pub.hash) (fresh claimables claims order)).map
      (fun g => g.2.map (fun c => c.utxo.outpoint))).Pairwise List.Disjoint := by
  refine List.pairwise_map.mpr (Table.pairwise_groupByKey (fun c hc c' hc' hpoint => ?_))
  have hget := (mem_fresh.mp hc).1
  rw [hpoint, (mem_fresh.mp hc').1] at hget
  rw [Option.some.inj hget]

/-- They have none in common with a claim that is rechecked. -/
theorem disjoint_group {g : PaymentHash × List ClaimableUtxo}
    (hg : g ∈ Table.groupByKey (fun c => c.swap.pub.hash) (fresh claimables claims order))
    {claim : Claim} (hclaim : claim ∈ claims.filter (IsRechecked claimables)) :
    List.Disjoint (inputsOf claim) (g.2.map (fun c => c.utxo.outpoint)) := by
  intro o ho hog
  obtain ⟨c, hc, rfl⟩ := List.mem_map.mp hog
  rw [(Table.mem_groupByKey.mp hg).1, List.mem_filter, mem_fresh] at hc
  rw [← map_fst_rechecks] at hclaim
  obtain ⟨r, hr, rfl⟩ := List.mem_map.mp hclaim
  exact hc.1.2.1 r hr ho

/-- **One transaction for each output, if and only if** the stored claims whose
inputs are all claimable have no input in common. -/
theorem planClaims_onePerOutput_iff (claimables : List ClaimableUtxo) (claims : List Claim)
    (order : List ℕ) :
    (∃ plan, planClaims claimables claims order = some plan ∧
      OnePerOutput claimables claims plan) ↔
    claims.Pairwise (fun a b => IsRechecked claimables a → IsRechecked claimables b →
      List.Disjoint (inputsOf a) (inputsOf b)) := by
  have hpairwise : claims.Pairwise (fun a b => IsRechecked claimables a →
      IsRechecked claimables b → List.Disjoint (inputsOf a) (inputsOf b)) ↔
      ((claims.filter (IsRechecked claimables)).map inputsOf).Pairwise List.Disjoint := by
    rw [List.pairwise_map, List.pairwise_filter]
    simp only [decide_eq_true_eq]
  rw [hpairwise, planClaims_eq]
  constructor
  · rintro ⟨plan, hplan, honly⟩
    obtain rfl := Option.some.inj hplan
    have hdisjoint := honly.disjoint
    rw [ClaimPlan.handed, List.map_append, map_snd_rechecks, List.pairwise_append] at hdisjoint
    exact hdisjoint.1
  · intro hdisjoint
    refine ⟨_, rfl, ?_, fun o => ?_⟩
    · rw [ClaimPlan.handed, List.map_append, map_snd_rechecks, List.pairwise_append, List.map_map]
      refine ⟨hdisjoint, pairwise_groups, ?_⟩
      intro os hos os' hos'
      obtain ⟨claim, hclaim, rfl⟩ := List.mem_map.mp hos
      obtain ⟨g, hg, rfl⟩ := List.mem_map.mp hos'
      exact disjoint_group hg hclaim
    · -- At most one claim that is rechecked spends an output.
      rw [map_fst_rechecks, List.filter_filter]
      have hand : (fun claim => decide (o ∈ inputsOf claim) && decide (IsRechecked claimables claim))
          = fun claim => decide (IsRechecked claimables claim ∧ o ∈ inputsOf claim) := by
        funext claim
        rw [← Bool.decide_and, decide_eq_decide, and_comm]
      have hnone : (claims.filter (fun claim => decide (IsRechecked claimables claim ∧
          o ∈ inputsOf claim))).Pairwise (fun _ _ => False) := by
        rw [List.pairwise_map, List.pairwise_filter] at hdisjoint
        rw [List.pairwise_filter]
        refine hdisjoint.imp (fun {a b} hab ha hb => ?_)
        have ha := of_decide_eq_true ha
        have hb := of_decide_eq_true hb
        exact hab (decide_eq_true ha.1) (decide_eq_true hb.1) ha.2 hb.2
      rw [hand]
      cases hlist : claims.filter (fun claim => decide (IsRechecked claimables claim ∧
          o ∈ inputsOf claim)) with
      | nil => exact List.Sublist.refl _
      | cons claim rest =>
        rw [hlist, List.pairwise_cons] at hnone
        cases rest with
        | nil => exact List.Sublist.refl _
        | cons other rest => exact (hnone.1 other List.mem_cons_self).elim

end ClaimMonitor

namespace Sample

/-- The output of the swap that is paid, as it is claimable. -/
def paidClaimable : ClaimableUtxo :=
  ⟨swap, ⟨.ofByte 3, 100, ⟨.ofByte 2, 0⟩, ⟨1000000, [0x51]⟩⟩, some "lnbc1", .ofByte 7⟩

/-- A claim of it, at a fee rate. -/
def claimAt (feePerKw : UInt32) : Claim where
  creationTime := 0
  tx := ⟨2, feePerKw, [⟨⟨.ofByte 2, 0⟩, [], 0, []⟩], [⟨900000, [0x52]⟩]⟩
  destinationAddress := ⟨[0x52]⟩
  feePerKw := feePerKw
  autoBump := true

end Sample

namespace ClaimMonitor

open Sample in
/-- A single claim is rechecked alone. -/
theorem planClaims_onePerOutput_sample :
    ∃ plan, planClaims [paidClaimable] [claimAt 1000] [] = some plan ∧
      OnePerOutput [paidClaimable] [claimAt 1000] plan :=
  (planClaims_onePerOutput_iff [paidClaimable] [claimAt 1000] []).mpr
    (List.pairwise_singleton _ _)

open Sample in
/-- **A claim and its replacement are both rechecked.** -/
theorem planClaims_rechecksBoth :
    planClaims [paidClaimable] [claimAt 2000, claimAt 1000] [] =
        some ⟨[(claimAt 2000, [paidClaimable]), (claimAt 1000, [paidClaimable])], []⟩ ∧
      ¬ ∃ plan, planClaims [paidClaimable] [claimAt 2000, claimAt 1000] [] = some plan ∧
        OnePerOutput [paidClaimable] [claimAt 2000, claimAt 1000] plan := by
  have hplan : planClaims [paidClaimable] [claimAt 2000, claimAt 1000] [] =
      some ⟨[(claimAt 2000, [paidClaimable]), (claimAt 1000, [paidClaimable])], []⟩ := by
    rw [planClaims_eq]
    rfl
  refine ⟨hplan, ?_⟩
  rintro ⟨plan, heq, honly⟩
  rw [hplan] at heq
  obtain rfl := Option.some.inj heq
  have hdisjoint := List.rel_of_pairwise_cons honly.disjoint List.mem_cons_self
  exact hdisjoint (List.mem_cons_self : (⟨.ofByte 2, 0⟩ : OutPoint) ∈ _) List.mem_cons_self

end ClaimMonitor

end Swapd
