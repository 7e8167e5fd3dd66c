import Swapd.ClaimFees
import Swapd.ClaimRepository
import Swapd.InternalServer

/-!
# Claims that are not to be bumped

A claim carries a flag that says whether the monitor may replace it. The flag is
stored, read back and copied to a replacement, and nothing looks at it: a claim is
replaced when the estimate calls for it.

The passes of the monitor are runs over the claim tables, with claims of the
operator added at any time and the index of the chain changing under them. While
the outputs of a claim stay claimable, what is built spends none of them as long as
`get_claims` does not leave the claim out and no estimate calls for a replacement
of it or of a claim that shares an output with it (`history_keepsClaim`). The flag
is not among the conditions.
-/

namespace Swapd

/-- **What the monitor works on.** -/
structure ClaimWorld where
  tables : ClaimTables
  chain : ChainTables
deriving DecidableEq

namespace ClaimWorld

variable (computeTxid : Transaction → Txid)

/-- One claim is added to the tables. -/
def Adds (claim : Claim) (w w' : ClaimWorld) : Prop :=
  w.tables.addClaim computeTxid claim = .ok w'.tables

/-- **What happens between two calls**: the operator makes claims, and the index of
the chain changes. -/
def Moves : ClaimWorld → ClaimWorld → Prop :=
  Relation.ReflTransGen (fun w w' => w'.tables = w.tables ∨ ∃ claim, Adds computeTxid claim w w')

/-- **What a call does.** A claim that is added may be reported as lost. What is
not in the tables is answered in any way. -/
def Performs (c : ClaimCall) (w : ClaimWorld) (r : c.Reply) (w' : ClaimWorld) : Prop :=
  match c, r with
  | .getClaims outpoints, .ok claims => w'.tables = w.tables ∧
      ∃ order, w.tables.getClaims w.chain order outpoints = .ok claims
  | .addClaim claim, .ok () => Adds computeTxid claim w w'
  | .addClaim claim, .error _ => w'.tables = w.tables ∨ Adds computeTxid claim w w'
  | _, _ => w'.tables = w.tables

variable {computeTxid} {w w' : ClaimWorld} {claim : Claim}

/-- **Consistent tables that hold a claim.** -/
def Holds (computeTxid : Transaction → Txid) (claim : Claim) (w : ClaimWorld) : Prop :=
  w.tables.Consistent computeTxid ∧ claim ∈ w.tables.storedClaims

/-- Claims are never removed. -/
theorem Holds.adds {added : Claim} (h : Holds computeTxid claim w)
    (hadds : Adds computeTxid added w w') : Holds computeTxid claim w' := by
  refine ⟨h.1.addClaim hadds, ?_⟩
  obtain ⟨-, seconds, hclaims, -⟩ := ClaimTables.addClaim_eq_ok hadds
  rw [ClaimTables.storedClaims, hclaims, List.map_append]
  exact List.mem_append_left _ h.2

theorem Holds.of_eq (h : Holds computeTxid claim w) (heq : w'.tables = w.tables) :
    Holds computeTxid claim w' := by
  rw [Holds, heq]
  exact h

theorem Holds.moves (h : Holds computeTxid claim w) (hmoves : Moves computeTxid w w') :
    Holds computeTxid claim w' := by
  induction hmoves with
  | refl => exact h
  | tail _ hstep ih =>
    rcases hstep with heq | ⟨added, hadds⟩
    · exact ih.of_eq heq
    · exact ih.adds hadds

theorem Holds.performs {c : ClaimCall} {r : c.Reply} (h : Holds computeTxid claim w)
    (hperforms : Performs computeTxid c w r w') : Holds computeTxid claim w' := by
  cases c with
  | getClaims outpoints =>
    cases r with
    | ok claims => exact h.of_eq hperforms.1
    | error e => exact h.of_eq hperforms
  | addClaim added =>
    cases r with
    | ok u => exact h.adds hperforms
    | error e => exact hperforms.elim h.of_eq h.adds
  | _ => exact h.of_eq hperforms

/-- A call changes the tables as the operator might. -/
theorem Performs.moves {c : ClaimCall} {r : c.Reply} (h : Performs computeTxid c w r w') :
    Moves computeTxid w w' := by
  have of_eq (heq : w'.tables = w.tables) : Moves computeTxid w w' := .single (Or.inl heq)
  have of_adds {added : Claim} (hadds : Adds computeTxid added w w') : Moves computeTxid w w' :=
    .single (Or.inr ⟨added, hadds⟩)
  cases c with
  | getClaims outpoints =>
    cases r with
    | ok claims => exact of_eq h.1
    | error e => exact of_eq h
  | addClaim added =>
    cases r with
    | ok u => exact of_adds h
    | error e => exact h.elim of_eq of_adds
  | _ => exact of_eq h

/-- **What a claim of the operator does** is what can happen between two calls of the
monitor. -/
theorem moves_of_claim {server : InternalServer} {request : ClaimRequest}
    {tr : List (Prog.Event ClaimServices ClaimWorld)}
    {q : Prog ClaimServices (Except Status ClaimResponse)}
    (h : Prog.RunsAmid (Moves computeTxid) (Performs computeTxid) (server.claim request).run
      w tr q w') : Moves computeTxid w w' :=
  h.moves_of (fun hperforms => hperforms.moves) (fun hab hbc => hab.trans hbc)

end ClaimWorld

namespace ClaimMonitor

open Prog

/-- The events of the monitor. -/
abbrev ClaimEvents : Type := List (Event ClaimServices ClaimWorld)

/-- The map that a pass makes of what is claimable. -/
def claimableMap (swaps : PaidSwaps) (utxos : List AddressUtxo) : List ClaimableUtxo :=
  Table.toMap (fun c => c.utxo.outpoint) (listClaimable swaps utxos)

/-- **What a pass is told that leaves a claim alone**: its outputs are claimable,
`get_claims` does not leave it out, and no claim that shares an output with it is
to be replaced. -/
structure Undisturbed (kept : Claim) (tr : ClaimEvents) : Prop where
  claimable : ∀ utxos addresses swaps, Replied tr .getUtxos (.ok utxos) →
    Replied tr (.getSwapsWithPaidOutpoints addresses) (.ok swaps) →
    IsRechecked (claimableMap swaps utxos) kept
  listed : ∀ e ∈ tr, ∀ outpoints, e.call = .getClaims outpoints →
    ∃ o ∈ inputsOf kept, ∀ o' : OutPoint, o'.txid = o.txid → ¬ e.before.chain.isSpent o'
  notReplaced : ∀ height utxos addresses swaps outpoints claims,
    Replied tr .getBlockheight (.ok height) → Replied tr .getUtxos (.ok utxos) →
    Replied tr (.getSwapsWithPaidOutpoints addresses) (.ok swaps) →
    Replied tr (.getClaims outpoints) (.ok claims) →
    ∀ claim ∈ claims, IsRechecked (claimableMap swaps utxos) claim →
    ¬ List.Disjoint (inputsOf claim) (inputsOf kept) →
    ∀ blocksLeft fee, ((claimablesOf (claimableMap swaps utxos) (inputsOf claim)).map
      (fun c => c.blocksLeft height)).min? = some blocksLeft →
    Replied tr (.estimateFee blocksLeft) (.ok fee) → ¬ Replaces claim.feePerKw fee

/-- **What a call does to a claim**: a transaction that spends one of its outputs is
that of a stored claim, and no claim is added that does. -/
def Spares (kept : Claim) (tr : ClaimEvents) : ClaimCall → Prop
  | .broadcastTx tx => ¬ List.Disjoint (tx.input.map TxIn.previousOutput) (inputsOf kept) →
      ∃ e ∈ tr, ∃ claim ∈ e.before.tables.storedClaims, claim.tx = tx
  | .addClaim claim => List.Disjoint (inputsOf claim) (inputsOf kept)
  | _ => True

/-- A claim is stored throughout, and left alone. -/
def Keeps (computeTxid : Transaction → Txid) (kept : Claim) (tr : ClaimEvents) : Prop :=
  (∀ e ∈ tr, e.before.Holds computeTxid kept) ∧ Undisturbed kept tr

/-- What a call has to do. -/
def MustSpare (computeTxid : Transaction → Txid) (kept : Claim) (tr : ClaimEvents)
    (c : ClaimCall) : Prop := Keeps computeTxid kept tr → Spares kept tr c

variable {computeTxid : Transaction → Txid} {kept : Claim} {tr tr' : ClaimEvents}
  {service : SwapService} {height : UInt64}

theorem replied_mono {c : ClaimCall} {r : c.Reply} (hsub : tr ⊆ tr') (h : Replied tr c r) :
    Replied tr' c r := by
  obtain ⟨s, s', hmem⟩ := h
  exact ⟨s, s', hsub hmem⟩

theorem replied_last {c : ClaimCall} {w w' : ClaimWorld} {r : c.Reply} :
    Replied (tr ++ [⟨c, w, r, w'⟩]) c r :=
  ⟨w, w', List.mem_append_right _ (List.mem_singleton_self _)⟩

/-- What holds of a longer run holds of its beginning. -/
theorem Keeps.anti (h : Keeps computeTxid kept tr') (hsub : tr ⊆ tr') :
    Keeps computeTxid kept tr where
  left := fun e he => h.1 e (hsub he)
  right :=
    { claimable := fun _ _ _ hu hs => h.2.claimable _ _ _ (replied_mono hsub hu)
        (replied_mono hsub hs)
      listed := fun e he => h.2.listed e (hsub he)
      notReplaced := fun _ _ _ _ _ _ hh hu hs hc claim hclaim hre hshare _ _ hleft hfee =>
        h.2.notReplaced _ _ _ _ _ _ (replied_mono hsub hh) (replied_mono hsub hu)
          (replied_mono hsub hs) (replied_mono hsub hc) claim hclaim hre hshare _ _ hleft
          (replied_mono hsub hfee) }

/-- A program that spares the claim. -/
def SatSpares (computeTxid : Transaction → Txid) (kept : Claim) (tr : ClaimEvents) {α : Type}
    (p : ClaimProgram α) : Prop :=
  Sat (ClaimWorld.Performs computeTxid) (MustSpare computeTxid kept) (fun _ _ => True) p.run tr

/-- A call whose error ends the program, and what follows it. -/
theorem await_spares {ε α β : Type} {c : ClaimCall} {reply : ClaimCall.Reply c → Except ε α}
    {f : α → ClaimProgram β} (hcall : MustSpare computeTxid kept tr c)
    (h : ∀ w r w', ClaimWorld.Performs computeTxid c w r w' → ∀ a, reply r = .ok a →
      SatSpares computeTxid kept (tr ++ [⟨c, w, r, w'⟩]) (f a)) :
    SatSpares computeTxid kept tr
      (await (Prog.call c (fun r => Prog.ret (reply r))) >>= f) := by
  refine Sat.tryBind ⟨hcall, fun w r w' hp => ?_⟩
  show Sat _ _ _ (Prog.ret ((reply r).mapError (fun _ => ClaimError.general))) _
  cases hreply : reply r with
  | error e => trivial
  | ok a => exact h w r w' hp a hreply

/-- **A transaction is built of other outputs.** -/
theorem claimService_spares {claimables : List ClaimableUtxo} {fee : FeeEstimate}
    {destination : Address} {autoBump : Bool}
    (h : Keeps computeTxid kept tr →
      List.Disjoint (claimables.map (fun c => c.utxo.outpoint)) (inputsOf kept)) :
    SatSpares computeTxid kept tr
      (claimService service claimables fee height destination autoBump) := by
  unfold SatSpares claimService
  refine Sat.ask ?_ (fun w₁ keys w₁' _ => ?_)
  · exact fun _ => trivial
  cases htx : service.createClaimTx keys claimables fee height destination with
  | error e => trivial
  | ok tx =>
    -- The outputs are those that were handed to the service.
    have hdisjoint {tr' : ClaimEvents} (hsub : tr ⊆ tr') (hkeeps : Keeps computeTxid kept tr') :
        List.Disjoint (tx.input.map TxIn.previousOutput) (inputsOf kept) := by
      have hsigned := (SwapService.createClaimTx_eq_ok htx).2.2.2
      rw [hsigned.map_previousOutput]
      intro o ho
      exact h (hkeeps.anti hsub)
        (((SwapService.sortByOutpoint_perm claimables).map _).mem_iff.mp ho)
    refine await_spares (fun hkeeps hshare => ?_) (fun w₂ r w₂' _ _ _ => ?_)
    · exact absurd (hdisjoint (List.subset_append_left _ _) hkeeps) hshare
    refine Sat.ask ?_ (fun w₃ now w₃' _ => ?_)
    · exact fun _ => trivial
    refine await_spares (fun hkeeps => ?_) (fun w₄ r' w₄' _ _ _ => ?_)
    · refine hdisjoint ?_ hkeeps
      intro e he
      exact List.mem_append_left _ (List.mem_append_left _ (List.mem_append_left _ he))
    exact await_spares (fun _ => trivial) (fun w₅ r'' w₅' _ _ _ => trivial)

/-- **What a pass has been told** once it sorts. -/
structure Told (computeTxid : Transaction → Txid) (tr : ClaimEvents) (height : UInt64)
    (utxos : List AddressUtxo) (swaps : PaidSwaps) (claims : List Claim) : Prop where
  height : Replied tr .getBlockheight (.ok height)
  utxos : Replied tr .getUtxos (.ok utxos)
  swaps : ∃ addresses, Replied tr (.getSwapsWithPaidOutpoints addresses) (.ok swaps)
  claims : ∃ (w w' : ClaimWorld) (outpoints : List OutPoint),
    (⟨.getClaims outpoints, w, .ok claims, w'⟩ : Event ClaimServices ClaimWorld) ∈ tr ∧
      ClaimWorld.Performs computeTxid (.getClaims outpoints) w (.ok claims) w'

variable {utxos : List AddressUtxo} {swaps : PaidSwaps} {claims : List Claim} {claim : Claim}

theorem Told.mono (h : Told computeTxid tr height utxos swaps claims) (hsub : tr ⊆ tr') :
    Told computeTxid tr' height utxos swaps claims where
  height := replied_mono hsub h.height
  utxos := replied_mono hsub h.utxos
  swaps := h.swaps.imp (fun _ => replied_mono hsub)
  claims := h.claims.imp (fun _ => Exists.imp (fun _ => Exists.imp (fun _ => And.imp_left
    (fun he => hsub he))))

/-- A claim that is returned is stored. -/
theorem Told.stored (h : Told computeTxid tr height utxos swaps claims)
    (hkeeps : Keeps computeTxid kept tr) (hclaim : claim ∈ claims) :
    ∃ e ∈ tr, claim ∈ e.before.tables.storedClaims := by
  obtain ⟨w, w', outpoints, hmem, -, order, hclaims⟩ := h.claims
  have hconsistent := (hkeeps.1 _ hmem).1
  rw [ClaimTables.getClaims_eq hconsistent] at hclaims
  rw [← Except.ok.inj hclaims, ClaimTables.mem_getClaims hconsistent] at hclaim
  exact ⟨_, hmem, hclaim.1⟩

/-- The claim is returned. -/
theorem Told.kept_mem (h : Told computeTxid tr height utxos swaps claims)
    (hkeeps : Keeps computeTxid kept tr) : kept ∈ claims := by
  obtain ⟨w, w', outpoints, hmem, -, order, hclaims⟩ := h.claims
  have hholds := hkeeps.1 _ hmem
  rw [ClaimTables.getClaims_eq hholds.1] at hclaims
  rw [← Except.ok.inj hclaims, ClaimTables.mem_getClaims hholds.1]
  exact ⟨hholds.2, hkeeps.2.listed _ hmem outpoints rfl⟩

/-- And it is rechecked. -/
theorem Told.kept_isRechecked (h : Told computeTxid tr height utxos swaps claims)
    (hkeeps : Keeps computeTxid kept tr) : IsRechecked (claimableMap swaps utxos) kept := by
  obtain ⟨addresses, hswaps⟩ := h.swaps
  exact hkeeps.2.claimable utxos addresses swaps h.utxos hswaps

/-- **A recheck broadcasts a stored claim**, or builds a transaction of other
outputs. -/
theorem recheckClaim_spares (h : Told computeTxid tr height utxos swaps claims)
    (hclaim : claim ∈ claims) (hre : IsRechecked (claimableMap swaps utxos) claim) :
    SatSpares computeTxid kept tr (recheckClaim service height claim
      (claimablesOf (claimableMap swaps utxos) (inputsOf claim))) := by
  unfold SatSpares recheckClaim
  split
  next blocksLeft hleft =>
    refine await_spares (fun _ => trivial) (fun w₁ r w₁' _ fee hfee => ?_)
    have hfee : Replied (tr ++ ([⟨.estimateFee blocksLeft, w₁, r, w₁'⟩] : ClaimEvents))
        (.estimateFee blocksLeft) (.ok fee) := by
      rw [show r = .ok fee from hfee]
      exact replied_last
    have htold : Told computeTxid (tr ++ ([⟨.estimateFee blocksLeft, w₁, r, w₁'⟩] : ClaimEvents))
        height utxos swaps claims := h.mono (List.subset_append_left _ _)
    by_cases hreplaces : Replaces claim.feePerKw fee
    · rw [if_pos hreplaces]
      refine Sat.tryBind ((claimService_spares (fun hkeeps => ?_)).mono (fun _ o _ => ?_))
      · by_contra hshare
        rw [map_outpoint_claimablesOf hre] at hshare
        obtain ⟨addresses, hswaps⟩ := htold.swaps
        obtain ⟨w, w', outpoints, hmem, -⟩ := htold.claims
        exact hkeeps.2.notReplaced height utxos addresses swaps outpoints claims htold.height
          htold.utxos hswaps ⟨w, w', hmem⟩ claim hclaim hre hshare blocksLeft fee hleft hfee
          hreplaces
      · cases o <;> trivial
    · rw [if_neg hreplaces]
      refine Sat.ask ?_ (fun w₂ r' w₂' _ => ?_)
      · intro hkeeps _
        obtain ⟨e, he, hstored⟩ := htold.stored hkeeps hclaim
        exact ⟨e, he, claim, hstored, rfl⟩
      · split <;> trivial
  next => trivial

/-- **A group is of other outputs.** -/
theorem claim_spares {order : List ℕ} {claimables : List ClaimableUtxo}
    (h : Told computeTxid tr height utxos swaps claims)
    (hfresh : ∀ c ∈ claimables, c ∈ fresh (claimableMap swaps utxos) claims order) :
    SatSpares computeTxid kept tr (ClaimMonitor.claim service height claimables) := by
  unfold SatSpares ClaimMonitor.claim
  split
  next blocksLeft _ =>
    refine Sat.ask ?_ (fun w₁ feeRes w₁' _ => ?_)
    · exact fun _ => trivial
    refine Sat.ask ?_ (fun w₂ addressRes w₂' _ => ?_)
    · exact fun _ => trivial
    cases feeRes with
    | error e => trivial
    | ok fee =>
      cases addressRes with
      | error e => trivial
      | ok destination =>
        show SatSpares computeTxid kept _ (claimService service claimables fee height destination
          true >>= fun _ => pure ())
        refine Sat.tryBind ((claimService_spares (fun hkeeps => ?_)).mono (fun _ o _ => ?_))
        · have hkeeps := hkeeps.anti (show tr ⊆ _ from fun e he =>
            List.mem_append_left _ (List.mem_append_left _ he))
          have hkept : (kept, claimablesOf (claimableMap swaps utxos) (inputsOf kept))
              ∈ rechecks (claimableMap swaps utxos) claims :=
            List.mem_map.mpr ⟨kept, List.mem_filter.mpr ⟨h.kept_mem hkeeps,
              decide_eq_true (h.kept_isRechecked hkeeps)⟩, rfl⟩
          intro o ho
          obtain ⟨c, hc, rfl⟩ := List.mem_map.mp ho
          exact (mem_fresh.mp (hfresh c hc)).2.1 _ hkept
        · cases o <;> trivial
  next => trivial

/-- Programs that spare the claim, one after the other. -/
theorem runAll_spares {ps : List (ClaimProgram Unit)}
    (h : ∀ p ∈ ps, ∀ tr', tr ⊆ tr' → SatSpares computeTxid kept tr' p) :
    Sat (ClaimWorld.Performs computeTxid) (MustSpare computeTxid kept) (fun _ _ => True)
      (runAll ps) tr := by
  induction ps generalizing tr with
  | nil => trivial
  | cons p ps ih =>
    have hp := h p List.mem_cons_self tr (List.Subset.refl tr)
    refine Sat.bind (hp.subset.mono (fun tr' _ hsub => ih (fun q hq tr'' hsub' => ?_)))
    exact h q (List.mem_cons_of_mem p hq) tr'' (List.Subset.trans hsub.1 hsub')

/-- **A pass spares the claim.** -/
theorem doClaim_spares (computeTxid : Transaction → Txid) (kept : Claim) (service : SwapService) :
    SatSpares computeTxid kept [] (doClaim service) := by
  unfold SatSpares doClaim
  refine await_spares (fun _ => trivial) (fun w₁ r₁ w₁' _ height hheight => ?_)
  obtain rfl : r₁ = .ok height := hheight
  unfold SatSpares askClaimable
  rw [bind_assoc]
  refine await_spares (fun _ => trivial) (fun w₂ r₂ w₂' _ utxos hutxos => ?_)
  obtain rfl : r₂ = .ok utxos := hutxos
  unfold SatSpares
  rw [bind_assoc]
  refine await_spares (fun _ => trivial) (fun w₃ r₃ w₃' _ swaps hswaps => ?_)
  obtain rfl : r₃ = .ok swaps := hswaps
  unfold SatSpares
  rw [pure_bind]
  refine Sat.ask ?_ (fun w₄ keysOrder w₄' _ => ?_)
  · exact fun _ => trivial
  refine await_spares (fun _ => trivial) (fun w₅ r₅ w₅' hp₅ claims hclaims => ?_)
  obtain rfl : r₅ = .ok claims := hclaims
  refine Sat.ask ?_ (fun w₆ order w₆' _ => ?_)
  · exact fun _ => trivial
  rw [planClaims_eq]
  refine Sat.ask ?_ (fun w₇ swapsOrder w₇' _ => ?_)
  · exact fun _ => trivial
  refine Sat.ask ?_ (fun w₈ done w₈' _ => ?_)
  · exact fun _ => trivial
  rw [ExceptT.run_lift]
  refine Sat.bind ((runAll_spares (fun p hp tr' hsub => ?_)).mono (fun _ _ _ => trivial))
  have htold : Told computeTxid tr' height utxos swaps claims := by
    refine Told.mono ⟨⟨w₁, w₁', ?_⟩, ⟨w₂, w₂', ?_⟩, ⟨utxos.map (fun u => u.address), w₃, w₃', ?_⟩,
      ⟨w₅, w₅', _, ?_, hp₅⟩⟩ hsub
    all_goals simp
  rw [Table.mem_permute, ClaimPlan.futures, List.mem_append, List.mem_map, List.mem_map] at hp
  rcases hp with ⟨r, hr, rfl⟩ | ⟨g, hg, rfl⟩
  · obtain ⟨claim, hclaim, rfl⟩ := List.mem_map.mp hr
    rw [List.mem_filter, decide_eq_true_eq] at hclaim
    exact recheckClaim_spares htold hclaim.1 hclaim.2
  · rw [Table.mem_permute] at hg
    have hfresh : ∀ c ∈ g.2, c ∈ fresh (claimableMap swaps utxos) claims order := by
      intro c hc
      rw [(Table.mem_groupByKey.mp hg).1] at hc
      exact (List.mem_filter.mp hc).1
    exact claim_spares htold hfresh

/-- **A history of the monitor**: passes one after the other, the last of which, or
any, may not have come to its end, in a world that moves on. -/
inductive History (computeTxid : Transaction → Txid) (service : SwapService) :
    ClaimWorld → List ClaimEvents → ClaimWorld → Prop where
  | idle {w w' : ClaimWorld} : ClaimWorld.Moves computeTxid w w' →
      History computeTxid service w [] w'
  | pass {w w₁ w' : ClaimWorld} {tr : ClaimEvents} {q : Prog ClaimServices (Except ClaimError Unit)}
      {passes : List ClaimEvents} :
      RunsAmid (ClaimWorld.Moves computeTxid) (ClaimWorld.Performs computeTxid)
        (doClaim service).run w tr q w₁ → History computeTxid service w₁ passes w' →
      History computeTxid service w (tr :: passes) w'

/-- **A claim is kept as it is, over any history**, whichever claims the operator
makes and whatever the flags are: while its outputs are claimable, `get_claims` does
not leave it out and no estimate calls for a replacement of it or of a claim that
shares an output with it, only stored claims are broadcast that spend its outputs,
and none is added. -/
theorem history_keepsClaim {computeTxid : Transaction → Txid} {service : SwapService}
    {w w' : ClaimWorld} {passes : List ClaimEvents} {kept : Claim}
    (h : History computeTxid service w passes w') (hkept : w.Holds computeTxid kept)
    (hundisturbed : ∀ tr ∈ passes, Undisturbed kept tr) :
    ∀ tr ∈ passes, ∀ tr₁ e tr₂, tr = tr₁ ++ e :: tr₂ → Spares kept tr₁ e.call := by
  induction h with
  | idle _ => exact fun tr htr => nomatch htr
  | @pass w w₁ w' tr q passes hrun _ ih =>
    have hinv := hrun.invariant (fun h => h.moves) (fun h => h.performs) hkept
    rw [List.forall_mem_cons] at hundisturbed ⊢
    refine ⟨fun tr₁ e tr₂ htr => ?_, ih hinv.2 hundisturbed.2⟩
    have hkeeps : Keeps computeTxid kept tr := ⟨hinv.1, hundisturbed.1⟩
    refine (doClaim_spares computeTxid kept service).onCall_of_runs hrun.runs htr
      (hkeeps.anti ?_)
    rw [List.nil_append, htr]
    exact List.subset_append_left tr₁ _

end ClaimMonitor

namespace Sample

/-- The output of the created swap, and the swap. -/
def createdUtxos : List AddressUtxo := [⟨⟨[0x51]⟩, createdClaimable.utxo⟩]

@[inherit_doc createdUtxos]
def createdSwaps : PaidSwaps :=
  [(⟨[0x51]⟩, ⟨⟨createdSwap, some createdClaimable.preimage⟩, []⟩)]

/-- A claim of the output that is not to be bumped. -/
def keptClaim : Claim where
  creationTime := 0
  tx := ⟨5, 0, [⟨createdClaimable.utxo.outpoint, [], 0, []⟩], [⟨40000, [0x52]⟩]⟩
  destinationAddress := walletAddress
  feePerKw := 1000
  autoBump := false

/-- The claim is stored. -/
def keptWorld : ClaimWorld where
  tables :=
    { claims := [⟨.ofByte 5, 0, keptClaim.tx, walletAddress, 1000, false⟩]
      claimInputs := [⟨.ofByte 5, createdClaimable.utxo.outpoint⟩] }
  chain := unspentChain

theorem keptWorld_holds : keptWorld.Holds txidOfVersion keptClaim := by
  have hadd : ClaimTables.addClaim ⟨[], []⟩ txidOfVersion keptClaim = .ok keptWorld.tables := rfl
  exact ⟨ClaimTables.sound_empty.toConsistent.addClaim hadd, List.mem_singleton_self _⟩

/-- The answers to a pass, with an estimate. -/
def serveAt (satPerKw : UInt32) : (c : ClaimCall) → ClaimWorld → Option (c.Reply × ClaimWorld)
  | .getBlockheight, w => some (.ok 110, w)
  | .getUtxos, w => some (.ok createdUtxos, w)
  | .getSwapsWithPaidOutpoints _, w => some (.ok createdSwaps, w)
  | .getClaims _, w => if w = keptWorld then some (.ok [keptClaim], w) else none
  | .estimateFee _, w => some (.ok ⟨satPerKw⟩, w)
  | .newPrivateKeys, w => some (fun _ => .ok (.ofByte 5), w)
  | .broadcastTx _, w => some (.ok (), w)
  | .iterationOrder _, w => some ([], w)
  | .completionOrder _, w => some ([], w)
  | _, _ => none

/-- The calls of a pass, up to so many. -/
def passAt (satPerKw : UInt32) (n : ℕ) : ClaimMonitor.ClaimEvents :=
  (Prog.play (serveAt satPerKw) n keptWorld (ClaimMonitor.doClaim swapService).run).1

/-- The transaction that replaces the claim at two thousand satoshis per thousand
weight units. -/
def replacementTx : Transaction :=
  match swapService.createClaimTx (fun _ => .ok (.ofByte 5)) [createdClaimable] ⟨2000⟩ 110
    walletAddress with
  | .ok tx => tx
  | .error _ => keptClaim.tx

theorem serveAt_getClaims {satPerKw : UInt32} {outpoints : List OutPoint} {w w' : ClaimWorld}
    {r : Except GeneralError (List Claim)}
    (h : serveAt satPerKw (.getClaims outpoints) w = some (r, w')) :
    w = keptWorld ∧ r = .ok [keptClaim] ∧ w' = w := by
  have h : (if w = keptWorld then some (Except.ok [keptClaim], w) else none) = some (r, w') := h
  by_cases hw : w = keptWorld
  · rw [if_pos hw] at h
    cases h
    exact ⟨hw, rfl, rfl⟩
  · rw [if_neg hw] at h
    cases h

theorem serveAt_performs {satPerKw : UInt32} (c : ClaimCall) (w : ClaimWorld) (r : c.Reply)
    (w' : ClaimWorld) (h : serveAt satPerKw c w = some (r, w')) :
    ClaimWorld.Performs txidOfVersion c w r w' := by
  cases c with
  | getClaims outpoints =>
    obtain ⟨rfl, rfl, rfl⟩ := serveAt_getClaims h
    refine ⟨rfl, [], ?_⟩
    rw [ClaimTables.getClaims_eq keptWorld_holds.1]
    rfl
  | addClaim claim => cases h
  | _ =>
    cases h
    try rfl

theorem serveAt_after {satPerKw : UInt32} {c : ClaimCall} {w w' : ClaimWorld} {r : c.Reply}
    (h : serveAt satPerKw c w = some (r, w')) : w' = w := by
  cases c with
  | getClaims outpoints => exact (serveAt_getClaims h).2.2
  | addClaim claim => cases h
  | _ =>
    cases h
    try rfl

theorem history_passAt (satPerKw : UInt32) (n : ℕ) {w' : ClaimWorld}
    (hmoves : ClaimWorld.Moves txidOfVersion keptWorld w') :
    ClaimMonitor.History txidOfVersion swapService keptWorld [passAt satPerKw n] w' := by
  obtain ⟨w₁, hrun⟩ := Prog.RunsAmid.play
    (fun (c : ClaimCall) w (r : c.Reply) w' (h : serveAt satPerKw c w = some (r, w')) => h)
    (Eq.refl : ∀ w : ClaimWorld, w = w) n keptWorld (ClaimMonitor.doClaim swapService).run
  obtain rfl : keptWorld = w₁ :=
    (hrun.invariant (fun hw heq => hw.trans heq)
      (fun hw hserve => hw.trans (serveAt_after hserve).symm) rfl).2
  exact .pass (hrun.mono (fun _ _ heq => heq ▸ .refl) serveAt_performs) (.idle hmoves)

/-- The server of the operator, which reads one text as the outpoint of the swap. -/
def operator : InternalServer where
  service := swapService
  computeTxid := txidOfVersion
  parseOutpoint := fun text => if text = "0" then some createdClaimable.utxo.outpoint else none
  parseAddress := fun _ => .error "unknown"
  describe := fun _ => ""

/-- The answers to the operator. -/
def serveOperator : (c : ClaimCall) → ClaimWorld → Option (c.Reply × ClaimWorld)
  | .now, w => some (7, w)
  | .addClaim claim, w =>
    match w.tables.addClaim txidOfVersion claim with
    | .ok tables => some (.ok (), { w with tables })
    | .error _ => none
  | .addWatchAddress _, w => some (.ok (), w)
  | .newAddress, w => some (.ok walletAddress, w)
  | c, w => serveAt 1000 c w

theorem serveOperator_performs (c : ClaimCall) (w : ClaimWorld) (r : c.Reply) (w' : ClaimWorld)
    (h : serveOperator c w = some (r, w')) : ClaimWorld.Performs txidOfVersion c w r w' := by
  cases c with
  | addClaim claim =>
    simp only [serveOperator] at h
    split at h
    next tables htables =>
      cases h
      exact htables
    next => cases h
  | getClaims outpoints => exact @serveAt_performs 1000 _ w r w' h
  | _ =>
    cases h
    try rfl

/-- A claim of the same output, at a higher rate. -/
def operatorRequest : ClaimRequest := ⟨["0"], none, some 3000, false⟩

/-- What is answered in a pass. -/
theorem serveAt_of_mem {satPerKw : UInt32} {n : ℕ} :
    ∀ e ∈ passAt satPerKw n, serveAt satPerKw e.call e.before = some (e.reply, e.after) :=
  (Prog.runs_play (fun _ _ _ _ h => h) n keptWorld _).perf_of_mem

theorem claimable_passAt {satPerKw : UInt32} {n : ℕ} {utxos : List AddressUtxo}
    {addresses : List Address} {swaps : PaidSwaps}
    (hutxos : Prog.Replied (passAt satPerKw n) .getUtxos (.ok utxos))
    (hswaps : Prog.Replied (passAt satPerKw n) (.getSwapsWithPaidOutpoints addresses) (.ok swaps)) :
    ClaimMonitor.claimableMap swaps utxos =
      ClaimMonitor.claimableMap createdSwaps createdUtxos := by
  obtain ⟨w₁, w₁', hmem⟩ := hutxos
  obtain ⟨w₂, w₂', hmem'⟩ := hswaps
  cases serveAt_of_mem _ hmem
  cases serveAt_of_mem _ hmem'
  rfl

theorem keptClaim_isRechecked :
    ClaimMonitor.IsRechecked (ClaimMonitor.claimableMap createdSwaps createdUtxos) keptClaim := by
  decide

theorem undisturbed_passAt {n : ℕ} : ClaimMonitor.Undisturbed keptClaim (passAt 1000 n) where
  claimable := fun utxos addresses swaps hutxos hswaps => by
    rw [claimable_passAt hutxos hswaps]
    exact keptClaim_isRechecked
  listed := fun e he outpoints hcall => by
    obtain ⟨c, w, r, w'⟩ := e
    obtain rfl : c = .getClaims outpoints := hcall
    obtain ⟨hw, -, -⟩ := serveAt_getClaims (serveAt_of_mem _ he)
    subst hw
    exact ⟨createdClaimable.utxo.outpoint, List.mem_singleton_self _,
      fun _ _ => Bool.false_ne_true⟩
  notReplaced := fun height utxos addresses swaps outpoints claims _ _ _ hclaims claim hclaim _ _
      blocksLeft fee _ hfee => by
    obtain ⟨w₁, w₁', hmem⟩ := hclaims
    obtain ⟨w₂, w₂', hmem'⟩ := hfee
    obtain ⟨-, hclaims, -⟩ := serveAt_getClaims (serveAt_of_mem _ hmem)
    rw [Except.ok.inj hclaims] at hclaim
    rw [List.mem_singleton.mp hclaim]
    cases serveAt_of_mem _ hmem'
    decide

end Sample

namespace ClaimMonitor

open Sample in
/-- A claim that is broadcast once more, before the operator makes another one of the
same output. -/
theorem history_keepsClaim_sample :
    ∃ w', History txidOfVersion swapService keptWorld [passAt 1000 20] w' ∧
      w'.tables.claims.map ClaimRow.feePerKw = [1000, 3000] ∧
      ∀ tr₁ e tr₂, passAt 1000 20 = tr₁ ++ e :: tr₂ → Spares keptClaim tr₁ e.call := by
  obtain ⟨⟨r, w'⟩, hexec⟩ : ∃ x, (operator.claim operatorRequest).run.exec serveOperator keptWorld
      = some x := ⟨_, rfl⟩
  obtain ⟨tr, hrun, -⟩ := Prog.RunsAmid.of_exec serveOperator_performs
    (fun w => (.refl : ClaimWorld.Moves txidOfVersion w w)) hexec
  have hhistory := history_passAt 1000 20 (ClaimWorld.moves_of_claim hrun)
  refine ⟨w', hhistory, ?_, history_keepsClaim hhistory keptWorld_holds
    (List.forall_mem_singleton.mpr undisturbed_passAt) _ List.mem_cons_self⟩
  cases hexec
  decide

open Sample in
/-- **A claim that is not to be bumped is replaced**, its output being claimable, when
the estimate rises. -/
theorem history_replacesClaim :
    ¬ ∀ (computeTxid : Transaction → Txid) (service : SwapService) (w w' : ClaimWorld)
      (passes : List ClaimEvents) (kept : Claim),
      History computeTxid service w passes w' → w.Holds computeTxid kept →
      kept.autoBump = false →
      (∀ tr ∈ passes, ∀ utxos addresses swaps, Prog.Replied tr .getUtxos (.ok utxos) →
        Prog.Replied tr (.getSwapsWithPaidOutpoints addresses) (.ok swaps) →
        IsRechecked (claimableMap swaps utxos) kept) →
      ∀ tr ∈ passes, ∀ tr₁ e tr₂, tr = tr₁ ++ e :: tr₂ → Spares kept tr₁ e.call := by
  intro h
  have hhistory := history_passAt 2000 11 .refl
  have hsplit : passAt 2000 11 = passAt 2000 10 ++
      ⟨.broadcastTx replacementTx, keptWorld, .ok (), keptWorld⟩ :: [] := rfl
  have hspares := h txidOfVersion swapService keptWorld keptWorld [passAt 2000 11] keptClaim hhistory
    keptWorld_holds rfl (List.forall_mem_singleton.mpr (fun utxos addresses swaps hu hs => by
      rw [claimable_passAt hu hs]
      exact keptClaim_isRechecked)) _ List.mem_cons_self _ _ _ hsplit
  have hshare : ¬ List.Disjoint (replacementTx.input.map TxIn.previousOutput)
      (inputsOf keptClaim) := fun hdisjoint =>
    hdisjoint (List.mem_singleton_self createdClaimable.utxo.outpoint)
      (List.mem_singleton_self createdClaimable.utxo.outpoint)
  obtain ⟨e, he, claim, hclaim, htx⟩ := hspares hshare
  have hbefore : ∀ e ∈ passAt 2000 10, e.before = keptWorld := by decide
  rw [hbefore e he] at hclaim
  obtain rfl : claim = keptClaim := List.mem_singleton.mp hclaim
  revert htx
  decide

end ClaimMonitor

end Swapd
