import Mathlib.Data.List.Dedup
import Mathlib.Data.List.Forall2
import Swapd.SwapRepository
import Swapd.SwapService
import Swapd.Table

/-!
# What can be claimed

The unspent outputs are matched with the swaps at their addresses. The query
for these swaps is a left join with the outputs of their successful attempts,
so a swap comes out of it in one row for each such output, or in one row
without; the rows are collected in a map by address, the first row of an
address making its entry.

With the addresses of the swaps distinct, an address looked up in the map gives
its swap, with the outputs paid for it and no others
(`getSwapsWithPaidOutpoints_eq_ok`).
-/

namespace Swapd

/-- An output that a payment was made for. -/
structure PaidOutpoint where
  outpoint : OutPoint
  paymentRequest : String
deriving DecidableEq

/-- A swap, with the outputs that were paid. -/
structure SwapStatePaidOutpoints where
  swapState : SwapState
  paidOutpoints : List PaidOutpoint
deriving DecidableEq

/-- A map from addresses to swaps. -/
abbrev PaidSwaps := List (Address × SwapStatePaidOutpoints)

namespace SwapTables

variable (db : SwapTables)

/-- **An output is paid**: it is among the outputs of a successful attempt of
the swap. -/
def IsPaid (hash : PaymentHash) (point : OutPoint) : Prop :=
  ∃ pa ∈ db.paymentAttempts, pa.swapPaymentHash = hash ∧ pa.success = some true ∧
    ⟨pa.id, point⟩ ∈ db.paymentAttemptTxOutputs

/-- The subquery: the outputs of the successful attempts, with the payment
hashes of their swaps. -/
def paidOutpointRows : List (PaymentHash × PaidOutpoint) :=
  (db.swaps.flatMap (fun sSub =>
    (db.paymentAttempts.filter (fun pa =>
      sSub.swap.pub.hash = pa.swapPaymentHash ∧ pa.success = some true)).flatMap (fun pa =>
        (db.paymentAttemptTxOutputs.filter (fun patx => pa.id = patx.paymentAttemptId)).map
          (fun patx => (sSub.swap.pub.hash, ⟨patx.outpoint, pa.paymentRequest⟩))))).dedup

/-- A swap joined with its rows of the subquery, or with none. -/
def leftJoinPaid (s : SwapState) : List (SwapState × Option PaidOutpoint) :=
  match db.paidOutpointRows.filter (fun po => s.swap.pub.hash = po.1) with
  | [] => [(s, none)]
  | po :: pos => (po :: pos).map (fun po => (s, some po.2))

/-- The address of the swap is entered in the map, if it is not there. -/
def enterSwap (result : PaidSwaps) (s : SwapState) : PaidSwaps :=
  if s.swap.pub.address ∈ result.map Prod.fst then result
  else result ++ [(s.swap.pub.address, ⟨s, []⟩)]

/-- A paid output is pushed to the entry of an address. -/
def pushPaid (result : PaidSwaps) (address : Address) (po : PaidOutpoint) :
    Except GetSwapsError PaidSwaps :=
  if address ∈ result.map Prod.fst then
    .ok (result.map (fun e => if e.1 = address then
      (e.1, { e.2 with paidOutpoints := e.2.paidOutpoints ++ [po] }) else e))
  else .error .general

/-- One row of the joined result is collected. -/
def collectPaid (result : PaidSwaps) (row : SwapState × Option PaidOutpoint) :
    Except GetSwapsError PaidSwaps :=
  match row.2 with
  | none => .ok (enterSwap result row.1)
  | some po => pushPaid (enterSwap result row.1) row.1.swap.pub.address po

/-- `get_swaps_with_paid_outpoints`: the rows come in the order of the payment
hashes, and in any order for one hash. -/
def getSwapsWithPaidOutpoints (order : List ℕ) (addresses : List Address) :
    Except GetSwapsError PaidSwaps :=
  let swaps := db.swaps.filter (fun s => s.swap.pub.address ∈ addresses)
  let rows := Table.orderBy
    (fun a b => a.1.swap.pub.hash.bytes ≤ b.1.swap.pub.hash.bytes)
    (Table.permute order (swaps.flatMap db.leftJoinPaid))
  rows.foldlM collectPaid []

/-! ## The rows -/

variable {db} {s : SwapState} {addresses : List Address}

theorem mem_paidOutpointRows {hash : PaymentHash} {po : PaidOutpoint} :
    (hash, po) ∈ db.paidOutpointRows ↔
      (∃ s ∈ db.swaps, s.swap.pub.hash = hash) ∧
        ∃ pa ∈ db.paymentAttempts, pa.swapPaymentHash = hash ∧ pa.success = some true ∧
          pa.paymentRequest = po.paymentRequest ∧
            ⟨pa.id, po.outpoint⟩ ∈ db.paymentAttemptTxOutputs := by
  simp only [paidOutpointRows, List.mem_dedup, List.mem_flatMap, List.mem_map, List.mem_filter,
    decide_eq_true_eq]
  constructor
  · rintro ⟨s, hs, pa, ⟨hpa, hhash, hsuccess⟩, patx, ⟨hpatx, hid⟩, heq⟩
    obtain ⟨rfl, rfl⟩ := Prod.mk.inj heq
    refine ⟨⟨s, hs, rfl⟩, pa, hpa, hhash.symm, hsuccess, rfl, ?_⟩
    rw [hid]
    exact hpatx
  · rintro ⟨⟨s, hs, rfl⟩, pa, hpa, hhash, hsuccess, hrequest, hpatx⟩
    refine ⟨s, hs, pa, ⟨hpa, hhash.symm, hsuccess⟩, _, ⟨hpatx, rfl⟩, ?_⟩
    rw [hrequest]

/-- The rows of a swap are its own. -/
theorem fst_of_mem_leftJoinPaid {row : SwapState × Option PaidOutpoint}
    (h : row ∈ db.leftJoinPaid s) : row.1 = s := by
  unfold leftJoinPaid at h
  split at h
  next =>
    rw [List.mem_singleton.mp h]
  next =>
    obtain ⟨po, -, rfl⟩ := List.mem_map.mp h
    rfl

/-- **A swap is never lost by the join.** -/
theorem exists_mem_leftJoinPaid (s : SwapState) : ∃ row, row ∈ db.leftJoinPaid s := by
  unfold leftJoinPaid
  split
  next => exact ⟨_, List.mem_singleton_self _⟩
  next po pos _ => exact ⟨_, List.mem_map_of_mem List.mem_cons_self⟩

theorem mem_leftJoinPaid {po : PaidOutpoint} :
    (s, some po) ∈ db.leftJoinPaid s ↔ (s.swap.pub.hash, po) ∈ db.paidOutpointRows := by
  have hfilter : (s.swap.pub.hash, po) ∈ db.paidOutpointRows ↔
      (s.swap.pub.hash, po) ∈ db.paidOutpointRows.filter (fun po => s.swap.pub.hash = po.1) := by
    rw [List.mem_filter, decide_eq_true_eq, and_iff_left rfl]
  rw [hfilter]
  unfold leftJoinPaid
  split
  next hnil =>
    rw [hnil]
    simp
  next po' pos hcons =>
    rw [hcons, List.mem_map]
    constructor
    · rintro ⟨row, hrow, heq⟩
      have hkey : row ∈ db.paidOutpointRows.filter (fun po => s.swap.pub.hash = po.1) :=
        hcons ▸ hrow
      have hhash : s.swap.pub.hash = row.1 := of_decide_eq_true (List.mem_filter.mp hkey).2
      obtain rfl : row.2 = po := Option.some.inj (congrArg Prod.snd heq)
      rw [hhash]
      exact hrow
    · exact fun h => ⟨_, h, rfl⟩

/-! ## The map -/

/-- **What has been collected** from rows: an entry for each address, with a
swap of that address and all outputs of the rows at the address. -/
structure Collected (rows : List (SwapState × Option PaidOutpoint)) (result : PaidSwaps) :
    Prop where
  nodup : (result.map Prod.fst).Nodup
  keys : ∀ address, address ∈ result.map Prod.fst ↔ ∃ row ∈ rows, row.1.swap.pub.address = address
  state : ∀ e ∈ result, ∃ row ∈ rows, row.1 = e.2.swapState ∧ row.1.swap.pub.address = e.1
  paid : ∀ e ∈ result, ∀ po, po ∈ e.2.paidOutpoints ↔
    ∃ row ∈ rows, row.1.swap.pub.address = e.1 ∧ row.2 = some po

variable {rows : List (SwapState × Option PaidOutpoint)} {result : PaidSwaps}
  {row : SwapState × Option PaidOutpoint}

/-- A row without an output is collected. -/
theorem Collected.enterSwap (h : Collected rows result) (s : SwapState) :
    Collected (rows ++ [(s, none)]) (enterSwap result s) := by
  have hrows {p : SwapState × Option PaidOutpoint → Prop} :
      (∃ row ∈ rows ++ [(s, none)], p row) ↔ (∃ row ∈ rows, p row) ∨ p (s, none) := by
    simp only [List.mem_append, List.mem_singleton, or_and_right, exists_or, exists_eq_left]
  have hpaid (e : Address × SwapStatePaidOutpoints) (po : PaidOutpoint) :
      (∃ row ∈ rows ++ [(s, none)], row.1.swap.pub.address = e.1 ∧ row.2 = some po) ↔
        ∃ row ∈ rows, row.1.swap.pub.address = e.1 ∧ row.2 = some po := by
    rw [hrows]
    exact or_iff_left (fun h => nomatch h.2)
  unfold SwapTables.enterSwap
  by_cases hkey : s.swap.pub.address ∈ result.map Prod.fst
  · rw [if_pos hkey]
    refine ⟨h.nodup, fun address => ?_, fun e he => ?_, fun e he po => ?_⟩
    · rw [hrows, h.keys]
      refine ⟨Or.inl, fun h' => h'.elim id (fun heq => ?_)⟩
      rw [← heq]
      exact (h.keys _).mp hkey
    · exact hrows.mpr (Or.inl (h.state e he))
    · rw [hpaid, h.paid e he]
  · rw [if_neg hkey]
    refine ⟨?_, fun address => ?_, fun e he => ?_, fun e he po => ?_⟩
    · rw [List.map_append]
      refine h.nodup.append (List.nodup_singleton _) ?_
      intro k hk hk'
      obtain rfl : k = s.swap.pub.address := List.mem_singleton.mp hk'
      exact hkey hk
    · rw [hrows, List.map_append, List.mem_append, h.keys, List.map_singleton,
        List.mem_singleton, eq_comm (a := address)]
    · rcases List.mem_append.mp he with he | he
      · exact hrows.mpr (Or.inl (h.state e he))
      · rw [List.mem_singleton.mp he]
        exact hrows.mpr (Or.inr ⟨rfl, rfl⟩)
    · rw [hpaid]
      rcases List.mem_append.mp he with he | he
      · exact h.paid e he po
      · rw [List.mem_singleton.mp he]
        refine iff_of_false List.not_mem_nil ?_
        rintro ⟨row, hrow, haddress, -⟩
        exact hkey ((h.keys _).mpr ⟨row, hrow, haddress⟩)

/-- The output of a row is collected, once its swap is. -/
theorem Collected.pushPaid {po : PaidOutpoint} (h : Collected (rows ++ [(s, none)]) result) :
    ∃ result', pushPaid result s.swap.pub.address po = .ok result' ∧
      Collected (rows ++ [(s, some po)]) result' := by
  have hkey : s.swap.pub.address ∈ result.map Prod.fst :=
    (h.keys _).mpr ⟨_, List.mem_append_right _ (List.mem_singleton_self _), rfl⟩
  have hrows {p : SwapState × Option PaidOutpoint → Prop} {po : Option PaidOutpoint} :
      (∃ row ∈ rows ++ [(s, po)], p row) ↔ (∃ row ∈ rows, p row) ∨ p (s, po) := by
    simp only [List.mem_append, List.mem_singleton, or_and_right, exists_or, exists_eq_left]
  have hsame (p : SwapState → Prop) :
      (∃ row ∈ rows ++ [(s, none)], p row.1) ↔ ∃ row ∈ rows ++ [(s, some po)], p row.1 := by
    rw [hrows, hrows]
  have hfst : (Prod.fst ∘ fun e : Address × SwapStatePaidOutpoints =>
      if e.1 = s.swap.pub.address then
        (e.1, { e.2 with paidOutpoints := e.2.paidOutpoints ++ [po] }) else e) = Prod.fst := by
    funext e
    show (if _ then _ else e : Address × SwapStatePaidOutpoints).1 = e.1
    split <;> rfl
  refine ⟨_, if_pos hkey, ?_, fun address => ?_, fun e he => ?_, fun e he po' => ?_⟩
  · rw [List.map_map, hfst]
    exact h.nodup
  · rw [List.map_map, hfst, h.keys]
    exact hsame (fun s => s.swap.pub.address = address)
  · obtain ⟨e', he', rfl⟩ := List.mem_map.mp he
    have hstate := (hsame (fun s => s = e'.2.swapState ∧ s.swap.pub.address = e'.1)).mp
      (h.state e' he')
    by_cases heq : e'.1 = s.swap.pub.address
    · rw [if_pos heq]
      exact hstate
    · rw [if_neg heq]
      exact hstate
  · obtain ⟨e', he', rfl⟩ := List.mem_map.mp he
    have hpaid := h.paid e' he' po'
    rw [hrows] at hpaid
    by_cases heq : e'.1 = s.swap.pub.address
    · rw [if_pos heq, hrows, List.mem_append, List.mem_singleton, hpaid]
      refine or_congr (or_iff_left (fun h => nomatch h.2)) ?_
      rw [heq, and_iff_right rfl, Option.some.injEq, eq_comm]
    · rw [if_neg heq, hrows, hpaid]
      refine or_congr_right (iff_of_false (fun h => nomatch h.2) ?_)
      exact fun h => heq h.1.symm

/-- **One row is collected.** -/
theorem Collected.collectPaid (h : Collected rows result) (row : SwapState × Option PaidOutpoint) :
    ∃ result', collectPaid result row = .ok result' ∧ Collected (rows ++ [row]) result' := by
  obtain ⟨s, po⟩ := row
  cases po with
  | none => exact ⟨_, rfl, h.enterSwap s⟩
  | some po => exact (h.enterSwap s).pushPaid

/-- **All rows are collected**, those in `rows` before. -/
theorem Collected.foldlM (h : Collected rows result)
    (rows' : List (SwapState × Option PaidOutpoint)) :
    ∃ result', rows'.foldlM SwapTables.collectPaid result = .ok result' ∧
      Collected (rows ++ rows') result' := by
  induction rows' generalizing rows result with
  | nil =>
    rw [List.append_nil]
    exact ⟨result, rfl, h⟩
  | cons row rows' ih =>
    obtain ⟨result₁, hresult₁, h₁⟩ := h.collectPaid row
    obtain ⟨result', hresult', h'⟩ := ih h₁
    rw [List.append_assoc, List.singleton_append] at h'
    refine ⟨result', ?_, h'⟩
    rw [List.foldlM_cons, hresult₁]
    exact hresult'

/-- **What an address is mapped to**: its swap, with the outputs that are paid. -/
structure Answers (db : SwapTables) (addresses : List Address) (result : PaidSwaps) : Prop where
  find : ∀ s ∈ db.swaps, s.swap.pub.address ∈ addresses → ∃ paidOutpoints,
    result.find? (fun e => e.1 = s.swap.pub.address)
        = some (s.swap.pub.address, ⟨s, paidOutpoints⟩) ∧
      ∀ po, po ∈ paidOutpoints ↔ (s.swap.pub.hash, po) ∈ db.paidOutpointRows
  swap : ∀ e ∈ result, ∃ s ∈ db.swaps, s.swap.pub.address = e.1

/-- **The query never fails**, and with the addresses of the swaps distinct each
address is mapped to its swap. -/
theorem getSwapsWithPaidOutpoints_eq_ok (order : List ℕ) (addresses : List Address)
    (haddress : (db.swaps.map (fun s => s.swap.pub.address)).Nodup) :
    ∃ result, db.getSwapsWithPaidOutpoints order addresses = .ok result ∧
      Answers db addresses result := by
  have hempty : Collected [] [] :=
    ⟨List.nodup_nil, fun _ => ⟨nofun, nofun⟩, nofun, nofun⟩
  obtain ⟨result, hresult, h⟩ := hempty.foldlM (Table.orderBy
    (fun a b => a.1.swap.pub.hash.bytes ≤ b.1.swap.pub.hash.bytes)
    (Table.permute order ((db.swaps.filter (fun s => s.swap.pub.address ∈ addresses)).flatMap
      db.leftJoinPaid)))
  rw [List.nil_append] at h
  have hmem {row : SwapState × Option PaidOutpoint} : row ∈ Table.orderBy
      (fun a b => a.1.swap.pub.hash.bytes ≤ b.1.swap.pub.hash.bytes)
      (Table.permute order ((db.swaps.filter (fun s => s.swap.pub.address ∈ addresses)).flatMap
        db.leftJoinPaid)) ↔
      ∃ s ∈ db.swaps, s.swap.pub.address ∈ addresses ∧ row ∈ db.leftJoinPaid s := by
    simp only [Table.mem_orderBy, Table.mem_permute, List.mem_flatMap, List.mem_filter,
      decide_eq_true_eq, and_assoc]
  refine ⟨result, hresult, fun s hs hasked => ?_, fun e he => ?_⟩
  · obtain ⟨row, hrow⟩ : ∃ row, row ∈ db.leftJoinPaid s := exists_mem_leftJoinPaid s
    have hkey : s.swap.pub.address ∈ result.map Prod.fst :=
      (h.keys _).mpr ⟨row, hmem.mpr ⟨s, hs, hasked, hrow⟩, by rw [fst_of_mem_leftJoinPaid hrow]⟩
    obtain ⟨e, he, hekey⟩ := List.mem_map.mp hkey
    have honly {s'} (hs' : s' ∈ db.swaps) (haddr : s'.swap.pub.address = e.1) : s' = s :=
      List.inj_on_of_nodup_map haddress hs' hs (haddr.trans hekey)
    have hstate : e.2.swapState = s := by
      obtain ⟨row', hrow', hstate, haddr⟩ := h.state e he
      obtain ⟨s', hs', -, hjoin⟩ := hmem.mp hrow'
      rw [fst_of_mem_leftJoinPaid hjoin] at hstate haddr
      rw [← hstate, honly hs' haddr]
    refine ⟨e.2.paidOutpoints, ?_, fun po => ?_⟩
    · rw [Table.find?_key_eq_some_iff h.nodup]
      refine ⟨?_, rfl⟩
      rw [← hekey, ← hstate]
      exact he
    · rw [h.paid e he, ← mem_leftJoinPaid]
      constructor
      · rintro ⟨⟨s'', po'⟩, hrow', haddr, rfl⟩
        obtain ⟨s', hs', -, hjoin⟩ := hmem.mp hrow'
        obtain rfl : s'' = s' := fst_of_mem_leftJoinPaid hjoin
        obtain rfl := honly hs' haddr
        exact hjoin
      · intro hjoin
        exact ⟨_, hmem.mpr ⟨s, hs, hasked, hjoin⟩, hekey.symm, rfl⟩
  · obtain ⟨row, hrow, -, haddr⟩ := h.state e he
    obtain ⟨s, hs, -, hjoin⟩ := hmem.mp hrow
    rw [fst_of_mem_leftJoinPaid hjoin] at haddr
    exact ⟨s, hs, haddr⟩

end SwapTables

/-! ## What is claimable -/

/-- What `list_claimable` makes of an unspent output. -/
def claimableOf (swaps : PaidSwaps) (u : AddressUtxo) : Option ClaimableUtxo := do
  let e ← swaps.find? (fun e => e.1 = u.address)
  let preimage ← e.2.swapState.preimage
  let paidWithRequest := (e.2.paidOutpoints.find? (fun po => po.outpoint = u.utxo.outpoint)).map
    PaidOutpoint.paymentRequest
  some ⟨e.2.swapState.swap, u.utxo, paidWithRequest, preimage⟩

/-- `list_claimable`, from the answers of the two repositories. -/
def listClaimable (swaps : PaidSwaps) (utxos : List AddressUtxo) : List ClaimableUtxo :=
  utxos.filterMap (claimableOf swaps)

/-- **An output on the address of a swap with a stored preimage.** -/
def IsOpen (db : SwapTables) (u : AddressUtxo) : Prop :=
  ∃ s ∈ db.swaps, s.swap.pub.address = u.address ∧ s.preimage.isSome

instance (db : SwapTables) : DecidablePred (IsOpen db) :=
  fun u => inferInstanceAs (Decidable (∃ s ∈ db.swaps,
    s.swap.pub.address = u.address ∧ s.preimage.isSome))

/-- **What is listed for an output**: its swap, the preimage of that swap, and a
request if and only if it is paid. -/
structure IsClaimable (db : SwapTables) (u : AddressUtxo) (c : ClaimableUtxo) : Prop where
  utxo : c.utxo = u.utxo
  swap : ⟨c.swap, some c.preimage⟩ ∈ db.swaps
  address : c.swap.pub.address = u.address
  paid : c.paidWithRequest.isSome ↔ db.IsPaid c.swap.pub.hash u.utxo.outpoint

section Listing

variable {db : SwapTables} {addresses : List Address} {swaps : PaidSwaps} {u : AddressUtxo}

/-- An output on such an address is listed. -/
theorem exists_claimableOf (h : SwapTables.Answers db addresses swaps) (hu : u.address ∈ addresses)
    (hopen : IsOpen db u) : ∃ c, claimableOf swaps u = some c ∧ IsClaimable db u c := by
  obtain ⟨s, hs, haddress, hsome⟩ := hopen
  obtain ⟨preimage, hpreimage⟩ := Option.isSome_iff_exists.mp hsome
  obtain ⟨paidOutpoints, hfind, hpaid⟩ := h.find s hs (haddress ▸ hu)
  rw [haddress] at hfind
  refine ⟨_, by rw [claimableOf, hfind, Option.bind_eq_bind, Option.bind_some, hpreimage]; rfl,
    rfl, ?_, haddress, ?_⟩
  · rw [← hpreimage]
    exact hs
  · rw [Option.isSome_map, List.find?_isSome]
    simp only [decide_eq_true_eq]
    constructor
    · rintro ⟨po, hpo, hpoint⟩
      obtain ⟨-, pa, hpa, hhash, hsuccess, -, hrow⟩ :=
        SwapTables.mem_paidOutpointRows.mp ((hpaid po).mp hpo)
      exact ⟨pa, hpa, hhash, hsuccess, hpoint ▸ hrow⟩
    · rintro ⟨pa, hpa, hhash, hsuccess, hrow⟩
      refine ⟨⟨u.utxo.outpoint, pa.paymentRequest⟩, (hpaid _).mpr ?_, rfl⟩
      exact SwapTables.mem_paidOutpointRows.mpr
        ⟨⟨s, hs, rfl⟩, pa, hpa, hhash, hsuccess, rfl, hrow⟩

/-- No other is. -/
theorem claimableOf_eq_none (h : SwapTables.Answers db addresses swaps)
    (hu : u.address ∈ addresses) (hopen : ¬IsOpen db u) : claimableOf swaps u = none := by
  rw [claimableOf]
  cases hfind : swaps.find? (fun e => e.1 = u.address) with
  | none => rfl
  | some e =>
    have hkey : e.1 = u.address := by simpa using List.find?_some hfind
    obtain ⟨s, hs, haddress⟩ := h.swap e (List.mem_of_find?_eq_some hfind)
    rw [hkey] at haddress
    obtain ⟨paidOutpoints, hfind', -⟩ := h.find s hs (haddress ▸ hu)
    rw [haddress, hfind] at hfind'
    have hstate : e.2.swapState = s := by rw [Option.some.inj hfind']
    have hnone : s.preimage = none := by
      cases hpreimage : s.preimage with
      | none => rfl
      | some preimage => exact absurd ⟨s, hs, haddress, hpreimage ▸ rfl⟩ hopen
    show e.2.swapState.preimage.bind _ = none
    rw [hstate, hnone]
    rfl

/-- **There is an entry for each output on such an address**, and no other. -/
theorem listClaimable_forall₂ (h : SwapTables.Answers db addresses swaps)
    {utxos : List AddressUtxo} (hutxos : ∀ u ∈ utxos, u.address ∈ addresses) :
    List.Forall₂ (IsClaimable db) (utxos.filter (IsOpen db)) (listClaimable swaps utxos) := by
  induction utxos with
  | nil => exact List.Forall₂.nil
  | cons u utxos ih =>
    have ih := ih (fun v hv => hutxos v (List.mem_cons_of_mem u hv))
    have hu := hutxos u List.mem_cons_self
    by_cases hopen : IsOpen db u
    · obtain ⟨c, hc, hclaimable⟩ := exists_claimableOf h hu hopen
      rw [List.filter_cons, if_pos (decide_eq_true hopen), listClaimable,
        List.filterMap_cons_some hc]
      exact List.Forall₂.cons hclaimable ih
    · rw [List.filter_cons, if_neg (fun h => hopen (of_decide_eq_true h)), listClaimable,
        List.filterMap_cons_none (claimableOf_eq_none h hu hopen)]
      exact ih

end Listing

end Swapd
