import Swapd.Interference
import Swapd.Monitors
import Swapd.SwapRepository

/-!
# The deployment

Processes, their handlers and monitors, over one database and one Lightning
node. A `World` is what they share; `World.serve` says what each call does to
it and `swapd` puts it all together as a machine, so that its runs are the
interleavings of all threads at the granularity of their calls.

A call to the database succeeds, fails without effect, or commits and loses its
answer. Everything else a handler is told – block heights, fees, transactions,
times, random values – is `Env`, which changes at any time in any way. The node
is a parameter, `NodeModel`, that serves its own calls and moves on its own.

A process is named by the thread of its `main`. It serves requests from the
moment that thread says so; it can crash at any time, which stops its threads,
and a handler can be dropped at any of its calls. With `exclusive` set there is
one process at a time.

The world also remembers things nobody can ask for, to state properties with:
the handlers that have not been stopped, and who committed which attempt and
which refund lock.
-/

namespace Swapd

/-- **A Lightning node**, as the processes see it. -/
structure NodeModel (N : Interface) where
  /-- The state of the node. -/
  State : Type
  /-- How a call is resolved where the state does not decide it. -/
  Choice : Type
  /-- The node's own moves. -/
  Act : Type
  /-- Serving a call of a thread of a process. -/
  serve : ℕ → ℕ → (c : N.Call) → Choice → State → Option (N.Reply c × State)
  /-- A move of the node. -/
  act : Act → State → Option State
  /-- A process is gone, and its connections with it. -/
  disconnect : ℕ → State → State

/-- **What the outside world is like at a moment.** -/
structure Env where
  chainDb : ChainTables
  filterAddresses : List Address
  blockheight : UInt64
  transactions : Txid → Except ChainError Transaction
  fees : ℤ → Except FeeEstimateError FeeEstimate
  clock : SystemTime
  keys : ℕ → Except PrivateKeyError SecretKey
  rnd : Except RandomError Bytes32
  order : ℕ → List ℕ
  queryOrder : QueryOrder

/-- An attempt, with the handler that committed it and knows that it did. -/
structure OwnedAttempt where
  thread : ℕ
  hash : PaymentHash
  label : String
deriving DecidableEq

/-- A refund lock, with the handler that committed it. -/
structure OwnedRefund where
  thread : ℕ
  hash : PaymentHash
  refundId : String
deriving DecidableEq

/-- A running handler, with its process. -/
structure LiveHandler where
  thread : ℕ
  proc : ℕ
deriving DecidableEq

/-- **The shared state of a deployment.** -/
structure World {N : Interface} (M : NodeModel N) where
  /-- The swap tables. -/
  db : SwapTables
  /-- The outside world. -/
  env : Env
  /-- The node. -/
  node : M.State
  /-- The number of threads spawned. -/
  threads : ℕ
  /-- The processes that are up. -/
  up : List ℕ
  /-- The processes that serve requests. -/
  serving : List ℕ
  /-- The handlers of payments that have not been stopped. -/
  live : List LiveHandler
  /-- The attempts committed. -/
  attempts : List OwnedAttempt
  /-- The refund locks committed. -/
  refunds : List OwnedRefund
  /-- The threads that have looked a swap up since a preimage was last stored
  for it. -/
  checked : List (ℕ × PaymentHash)

/-- What a thread is there for. -/
inductive Job where
  | main (passes : ℕ)
  | pay (req : PaySwapRequest)
  | refund (req : RefundSwapRequest)
  | preimage
deriving DecidableEq

/-- A thread's process and job. -/
structure Task where
  proc : ℕ
  job : Job
deriving DecidableEq

/-- What a thread returns. -/
inductive Outcome where
  | done
  | paid (result : Except Status PaySwapResponse)
  | refunded (result : Except Status RefundedSwap)
deriving DecidableEq

/-- Whether a job is a handler's, that is dropped when its client goes away. -/
def Job.isHandler : Job → Bool
  | pay _ | refund _ => true
  | main _ | preimage => false

/-- How a call is resolved: it succeeds, it fails without effect, its effect
is committed but the answer lost; or as the node has it. -/
inductive Resolution {N : Interface} (M : NodeModel N) where
  | ok
  | fail
  | lost
  | node (choice : M.Choice)

namespace World

variable {N : Interface} {M : NodeModel N}

/-- A read, which can fail. -/
def read {ε α : Type} (ch : Resolution M) (failure : ε) (answer : Except ε α)
    (w : World M) : Option (Except ε α × World M) :=
  match ch with
  | .ok => some (answer, w)
  | .fail => some (.error failure, w)
  | _ => none

/-- A transaction on the swap tables: it commits, it fails or is refused, or it
commits and the answer is lost. -/
def transact (ch : Resolution M) (result : Except LockSwapError SwapTables)
    (record recordLost : World M → World M) (w : World M) :
    Option (Except LockSwapError Unit × World M) :=
  match ch, result with
  | .ok, .ok db => some (.ok (), record { w with db := db })
  | .ok, .error e => some (.error e, w)
  | .fail, _ => some (.error .general, w)
  | .lost, .ok db => some (.error .general, recordLost { w with db := db })
  | _, _ => none

/-- The handler knows that it committed an attempt. -/
def recordAttempt (i : ℕ) (a : PaymentAttempt) (w : World M) : World M :=
  { w with attempts := ⟨i, a.paymentHash, a.label⟩ :: w.attempts }

/-- A refund lock has been committed. -/
def recordRefund (i : ℕ) (hash : PaymentHash) (refundId : String) (w : World M) :
    World M :=
  { w with refunds := ⟨i, hash, refundId⟩ :: w.refunds }

/-- A result has been stored: a preimage makes what was looked up before it
out of date. -/
def recordResult (hash : PaymentHash) (result : PaymentResult) (w : World M) :
    World M :=
  { w with
    checked := match result with
      | .success _ => w.checked.filter (fun x => x.2 ≠ hash)
      | .failure _ => w.checked }

/-- **Serving a call** of the `i`-th thread. -/
def serve (i : ℕ) (t : Task) : (c : Call N) → Resolution M → World M →
    Option (c.Reply × World M)
  | .getSwapByHash hash, ch, w =>
    read ch .general (w.db.getSwapByHash hash) { w with checked := (i, hash) :: w.checked }
  | .getSwapByAddress address, ch, w => read ch .general (w.db.getSwapByAddress address) w
  | .getSwaps addresses, ch, w => read ch .general (.ok (w.db.getSwaps addresses)) w
  | .getUnhandledPaymentAttempts, ch, w =>
    read ch .general (.ok (w.db.getUnhandledPaymentAttempts w.env.queryOrder)) w
  | .lockAddPaymentAttempt a, ch, w =>
    transact ch (w.db.lockAddPaymentAttempt a) (recordAttempt i a) id w
  | .lockSwapRefund hash refundId, ch, w =>
    transact ch (w.db.lockSwapRefund hash refundId) (recordRefund i hash refundId)
      (recordRefund i hash refundId) w
  | .unlockAddPaymentResult hash label result, ch, w =>
    transact ch (w.db.unlockAddPaymentResult hash label result)
      (recordResult hash result) (recordResult hash result) w
  | .unlockSwapRefund hash refundId, ch, w =>
    transact ch (w.db.unlockSwapRefund hash refundId) id id w
  | .getTxosForAddress address, ch, w =>
    read ch .general (.ok (w.env.chainDb.getTxosForAddress address)) w
  | .getUtxos, ch, w => read ch .general (.ok w.env.chainDb.getUtxos) w
  | .hasFilteredAddress addresses, ch, w =>
    read ch .general (.ok (w.env.filterAddresses.any (fun a => a ∈ addresses))) w
  | .getBlockheight, ch, w => read ch .general (.ok w.env.blockheight) w
  | .getTransaction txid, ch, w => read ch .general (w.env.transactions txid) w
  | .estimateFee target, ch, w => read ch .general (w.env.fees target) w
  | .now, _, w => some (w.env.clock, w)
  | .newPrivateKeys, _, w => some (w.env.keys, w)
  | .rnd32, _, w => some (w.env.rnd, w)
  | .completionOrder n, _, w => some (w.env.order n, w)
  | .ready, _, w => some ((), { w with serving := t.proc :: w.serving })
  | .panic, _, _ => none
  | .node c, ch, w =>
    match ch with
    | .node choice =>
      (M.serve i t.proc c choice w.node).map (fun rs => (rs.1, { w with node := rs.2 }))
    | _ => none

/-- A call, as a relation: it can be served so. -/
def Performs (M : NodeModel N) (i : ℕ) (t : Task) (c : Call N) (w : World M)
    (r : c.Reply) (w' : World M) : Prop :=
  ∃ ch, serve i t c ch w = some (r, w')

/-! ### What serving a call says -/

theorem read_eq_some {ε α : Type} {ch : Resolution M} {failure : ε}
    {answer r : Except ε α} {w w' : World M} (h : read ch failure answer w = some (r, w')) :
    (r = answer ∨ r = .error failure) ∧ w' = w := by
  cases ch <;> simp_all [read]

/-- **A transaction** leaves the tables it computes, or leaves them alone; it
is reported only if it committed. -/
theorem transact_eq_some {ch : Resolution M} {result : Except LockSwapError SwapTables}
    {record recordLost : World M → World M} {r : Except LockSwapError Unit}
    {w w' : World M} (h : transact ch result record recordLost w = some (r, w')) :
    (∃ db, result = .ok db ∧ r = .ok () ∧ w' = record { w with db := db })
      ∨ (∃ db, result = .ok db ∧ r = .error .general ∧ w' = recordLost { w with db := db })
      ∨ (∃ e, r = .error e ∧ w' = w) := by
  unfold transact at h
  split at h
  next db => exact Or.inl ⟨db, rfl, by simp_all⟩
  next e => exact Or.inr (Or.inr ⟨e, by simp_all⟩)
  next => exact Or.inr (Or.inr ⟨.general, by simp_all⟩)
  next db => exact Or.inr (Or.inl ⟨db, rfl, by simp_all⟩)
  next => cases h

/-- **A transaction that neither fails nor is lost** has the result it computes. -/
theorem transact_of_ne {ch : Resolution M} {result : Except LockSwapError SwapTables}
    {record recordLost : World M → World M} {r : Except LockSwapError Unit} {w w' : World M}
    (h : transact ch result record recordLost w = some (r, w')) (hr : r ≠ .error .general) :
    (∃ db, result = .ok db ∧ r = .ok () ∧ w' = record { w with db := db })
      ∨ ∃ e, result = .error e ∧ r = .error e ∧ w' = w := by
  unfold transact at h
  split at h
  next db => exact Or.inl ⟨db, rfl, by simp_all⟩
  next e => exact Or.inr ⟨e, rfl, by simp_all⟩
  next => exact absurd (Prod.mk.inj (Option.some.inj h)).1.symm hr
  next db => exact absurd (Prod.mk.inj (Option.some.inj h)).1.symm hr
  next => cases h

variable {i : ℕ} {t : Task} {w w' : World M}

/-- A query leaves everything alone. -/
theorem Performs.of_isQuery {c : Call N} {r : c.Reply} (hc : c.IsQuery)
    (h : Performs M i t c w r w') : w' = w := by
  obtain ⟨ch, h⟩ := h
  cases c <;> first | exact hc.elim | skip
  case panic => cases h
  all_goals first
    | exact (read_eq_some h).2
    | exact (Prod.mk.inj (Option.some.inj h)).2.symm

/-- A look at a swap is remembered, and leaves everything else alone. -/
theorem Performs.getSwapByHash {hash : PaymentHash} {r : Except GetSwapsError SwapState}
    (h : Performs M i t (.getSwapByHash hash) w r w') :
    w' = { w with checked := (i, hash) :: w.checked } ∧
      ∀ state, r = .ok state → w.db.getSwapByHash hash = .ok state := by
  obtain ⟨ch, h⟩ := h
  obtain ⟨hr, rfl⟩ := read_eq_some h
  refine ⟨rfl, fun state hstate => ?_⟩
  rcases hr with rfl | rfl
  · exact hstate
  · cases hstate

/-- A swap that is found by its address is stored, and has the address. -/
theorem Performs.getSwapByAddress {address : Address} {state : SwapState}
    (h : Performs M i t (.getSwapByAddress address) w (.ok state) w') :
    state ∈ w.db.swaps ∧ state.swap.pub.address = address := by
  obtain ⟨ch, h⟩ := h
  rcases (read_eq_some h).1 with h | h
  · unfold SwapTables.getSwapByAddress at h
    split at h
    next row hfind =>
      obtain rfl := Except.ok.inj h
      have haddress := List.find?_some hfind
      exact ⟨List.mem_of_find?_eq_some hfind, of_decide_eq_true haddress⟩
    next => cases h
  · cases h

/-- A read leaves the tables alone. -/
theorem Performs.db_of_isRead {c : Call N} {r : c.Reply} (hc : c.IsRead)
    (h : Performs M i t c w r w') : w'.db = w.db := by
  rcases hc with hc | ⟨hash, rfl⟩
  · rw [h.of_isQuery hc]
  · rw [h.getSwapByHash.1]

theorem Performs.getUnhandledPaymentAttempts {attempts : List PaymentAttempt}
    (h : Performs M i t .getUnhandledPaymentAttempts w (.ok attempts) w') :
    attempts = w.db.getUnhandledPaymentAttempts w.env.queryOrder := by
  obtain ⟨ch, h⟩ := h
  rcases (read_eq_some h).1 with h | h
  · exact Except.ok.inj h
  · cases h

theorem Performs.getTxosForAddress {address : Address} {txos : List Txo}
    (h : Performs M i t (.getTxosForAddress address) w (.ok txos) w') :
    txos = w.env.chainDb.getTxosForAddress address := by
  obtain ⟨ch, h⟩ := h
  rcases (read_eq_some h).1 with h | h
  · exact Except.ok.inj h
  · cases h

/-- The transaction a call is, on the swap tables. -/
def transaction : Call N → SwapTables → Except LockSwapError SwapTables
  | .lockAddPaymentAttempt a, db => db.lockAddPaymentAttempt a
  | .lockSwapRefund hash refundId, db => db.lockSwapRefund hash refundId
  | .unlockAddPaymentResult hash label result, db => db.unlockAddPaymentResult hash label result
  | .unlockSwapRefund hash refundId, db => db.unlockSwapRefund hash refundId
  | _, db => .ok db

/-- **What a call does to the swap tables**: nothing, or its transaction. -/
theorem Performs.db_eq_or {c : Call N} {r : c.Reply} (h : Performs M i t c w r w') :
    w'.db = w.db ∨ transaction c w.db = .ok w'.db := by
  have of_transact {result : Except LockSwapError SwapTables}
      {record recordLost : World M → World M} {ch : Resolution M} {r : Except LockSwapError Unit}
      (hdb : ∀ w, (record w).db = w.db) (hdbLost : ∀ w, (recordLost w).db = w.db)
      (h : transact ch result record recordLost w = some (r, w')) :
      w'.db = w.db ∨ result = .ok w'.db := by
    rcases transact_eq_some h with ⟨db, hr, -, rfl⟩ | ⟨db, hr, -, rfl⟩ | ⟨e, -, rfl⟩
    · exact Or.inr (by rw [hr, hdb])
    · exact Or.inr (by rw [hr, hdbLost])
    · exact Or.inl rfl
  by_cases hread : c.IsRead
  · exact Or.inl (h.db_of_isRead hread)
  obtain ⟨ch, hserve⟩ := h
  cases c <;> first | exact absurd (Or.inl trivial) hread | skip
  case getSwapByHash hash => exact absurd (Or.inr ⟨hash, rfl⟩) hread
  case ready =>
    obtain rfl := (Prod.mk.inj (Option.some.inj hserve)).2
    exact Or.inl rfl
  case node c =>
    cases ch with
    | node choice =>
      obtain ⟨_, -, heq⟩ := Option.map_eq_some_iff.mp hserve
      obtain rfl := (Prod.mk.inj heq).2
      exact Or.inl rfl
    | _ => cases hserve
  all_goals
    refine of_transact ?_ ?_ hserve
    · exact fun _ => rfl
    · exact fun _ => rfl

/-- **What a call does to the node**: nothing, unless it is a call of the node. -/
theorem Performs.node_eq_or {c : Call N} {r : c.Reply} (h : Performs M i t c w r w') :
    w'.node = w.node ∨ ∃ c' r' choice, M.serve i t.proc c' choice w.node = some (r', w'.node) := by
  have of_transact {result : Except LockSwapError SwapTables}
      {record recordLost : World M → World M} {ch : Resolution M} {r : Except LockSwapError Unit}
      (hnode : ∀ w, (record w).node = w.node) (hnodeLost : ∀ w, (recordLost w).node = w.node)
      (h : transact ch result record recordLost w = some (r, w')) : w'.node = w.node := by
    rcases transact_eq_some h with ⟨db, -, -, rfl⟩ | ⟨db, -, -, rfl⟩ | ⟨e, -, rfl⟩
    · rw [hnode]
    · rw [hnodeLost]
    · rfl
  by_cases hquery : c.IsQuery
  · exact Or.inl (by rw [h.of_isQuery hquery])
  obtain ⟨ch, hserve⟩ := h
  cases c <;> first | exact absurd trivial hquery | skip
  case getSwapByHash hash => exact Or.inl (by rw [(read_eq_some hserve).2])
  case ready =>
    obtain rfl := (Prod.mk.inj (Option.some.inj hserve)).2
    exact Or.inl rfl
  case node c =>
    cases ch with
    | node choice =>
      obtain ⟨⟨r', n⟩, hnode, heq⟩ := Option.map_eq_some_iff.mp hserve
      obtain rfl := (Prod.mk.inj heq).2
      exact Or.inr ⟨c, r', choice, hnode⟩
    | _ => cases hserve
  all_goals
    refine Or.inl (of_transact ?_ ?_ hserve)
    · exact fun _ => rfl
    · exact fun _ => rfl

theorem Performs.lockAddPaymentAttempt_ok {a : PaymentAttempt}
    (h : Performs M i t (.lockAddPaymentAttempt a) w (.ok ()) w') :
    w.db.lockAddPaymentAttempt a = .ok w'.db := by
  obtain ⟨ch, h⟩ := h
  rcases transact_eq_some h with ⟨db, hdb, -, rfl⟩ | ⟨db, -, hr, -⟩ | ⟨e, hr, -⟩
  · exact hdb
  · cases hr
  · cases hr

theorem Performs.lockAddPaymentAttempt {a : PaymentAttempt}
    {r : Except LockSwapError Unit}
    (h : Performs M i t (.lockAddPaymentAttempt a) w r w') :
    w.db.lockAddPaymentAttempt a = .ok w'.db ∨ (w'.db = w.db ∧ r ≠ .ok ()) := by
  obtain ⟨ch, h⟩ := h
  rcases transact_eq_some h with ⟨db, hdb, -, rfl⟩ | ⟨db, hdb, -, rfl⟩ | ⟨e, rfl, rfl⟩
  · exact Or.inl hdb
  · exact Or.inl hdb
  · exact Or.inr ⟨rfl, nofun⟩

theorem Performs.unlockAddPaymentResult_ok {hash : PaymentHash} {label : String}
    {result : PaymentResult}
    (h : Performs M i t (.unlockAddPaymentResult hash label result) w (.ok ()) w') :
    w.db.unlockAddPaymentResult hash label result = .ok w'.db := by
  obtain ⟨ch, h⟩ := h
  rcases transact_eq_some h with ⟨db, hdb, -, rfl⟩ | ⟨db, -, hr, -⟩ | ⟨e, hr, -⟩
  · exact hdb
  · cases hr
  · cases hr

end World

/-! ## The machine -/

/-- The requests that start something. -/
inductive Request where
  | start (passes : ℕ)
  | pay (proc : ℕ) (req : PaySwapRequest)
  | refund (proc : ℕ) (req : RefundSwapRequest)
  | preimage (proc : ℕ)
deriving DecidableEq

/-- The ways things stop. -/
inductive Stop where
  | drop (thread : ℕ)
  | crash (proc : ℕ)
deriving DecidableEq

/-- The world's own moves: the outside world changes, the node moves, a swap
is created. -/
inductive Move {N : Interface} (M : NodeModel N) where
  | env (env : Env)
  | node (act : M.Act)
  | addSwap (swap : Swap)

section Machine

variable {N : Interface} (M : NodeModel N) (client : Client N) (server : SwapServer)
  (exclusive : Bool)

/-- A program of the server, with the client linked in. -/
def linked {α : Type} (f : α → Outcome) (p : Prog (Services Lightning) α) :
    Prog (Services N) Outcome :=
  (p.interpret (J := Services N) client.link) >>= fun a => pure (f a)

/-- The program of a job. -/
def Job.program : Job → Prog (Services N) Outcome
  | .main passes => linked client (fun _ => .done) (Swapd.main passes)
  | .pay req => linked client .paid (server.paySwap req).run
  | .refund req => linked client .refunded (server.refundSwap req).run
  | .preimage => linked client (fun _ => .done) PreimageMonitor.doQueryPreimages.run

/-- A request, as the process and the job of the thread it spawns. -/
def Request.task (n : ℕ) : Request → Task
  | .start passes => ⟨n, .main passes⟩
  | .pay proc req => ⟨proc, .pay req⟩
  | .refund proc req => ⟨proc, .refund req⟩
  | .preimage proc => ⟨proc, .preimage⟩

namespace World

variable {M}

/-- Whether a request can be made: a process can be started unless another one
excludes it, and a process that serves takes requests. -/
def admits (w : World M) : Request → Prop
  | .start _ => exclusive = true → w.up = []
  | .pay proc _ => proc ∈ w.serving
  | .refund proc _ => proc ∈ w.serving
  | .preimage proc => proc ∈ w.serving

instance (w : World M) : DecidablePred (w.admits exclusive) := fun r => by
  cases r <;> unfold admits <;> infer_instance

/-- The world after a request. -/
def spawned (w : World M) : Request → World M
  | .start _ => { w with threads := w.threads + 1, up := w.threads :: w.up }
  | .pay proc _ =>
    { w with threads := w.threads + 1, live := ⟨w.threads, proc⟩ :: w.live }
  | .refund _ _ => { w with threads := w.threads + 1 }
  | .preimage _ => { w with threads := w.threads + 1 }

/-- The world after something has stopped. -/
def stopped (w : World M) : Stop → World M
  | .drop i => { w with live := w.live.filter (fun h => h.thread ≠ i) }
  | .crash proc =>
    { w with
      up := w.up.filter (fun p => p ≠ proc)
      serving := w.serving.filter (fun p => p ≠ proc)
      live := w.live.filter (fun h => h.proc ≠ proc)
      node := M.disconnect proc w.node }

/-- A move of the world. A swap is added unless its hash is taken. -/
def move (w : World M) : Move M → Option (World M)
  | .env env => some { w with env := env }
  | .node act => (M.act act w.node).map (fun n => { w with node := n })
  | .addSwap swap =>
    if w.db.swaps.any (fun s => s.swap.pub.hash = swap.pub.hash) then none
    else some { w with db := { w.db with swaps := w.db.swaps ++ [⟨swap, none⟩] } }

end World

/-- **The deployment**, as a machine. -/
@[reducible] def swapd : Machine (Services N) where
  State := World M
  Task := Task
  Result := Outcome
  Choice := Resolution M
  Spawn := Request
  Halt := Stop
  Drift := Move M
  serve := World.serve
  spawn := fun r n w =>
    if n = w.threads ∧ w.admits exclusive r then
      some ((r.task n, (r.task n).job.program client server), w.spawned r)
    else none
  stops := fun s i t =>
    match s with
    | .drop j => i = j && t.job.isHandler
    | .crash proc => t.proc = proc
  halt := fun s w => some (w.stopped s)
  drift := fun m w => w.move m

/-- **The start of a deployment**: nothing runs, no attempt was ever made, and
no swap has been paid. -/
structure IsInitial (nodeInit : M.State → Prop)
    (S : (swapd M client server exclusive).Config) : Prop where
  threads : S.threads = []
  node : nodeInit S.state.node
  spawned : S.state.threads = 0
  up : S.state.up = []
  serving : S.state.serving = []
  live : S.state.live = []
  attempts : S.state.attempts = []
  refunds : S.state.refunds = []
  checked : S.state.checked = []
  paymentAttempts : S.state.db.paymentAttempts = []
  swapLocks : S.state.db.swapLocks = []
  unpaid : ∀ s ∈ S.state.db.swaps, s.preimage = none

end Machine

/-! ## A small deployment

One swap with one confirmed output, for the runs that show that what is proved
is not proved of nothing. -/

namespace Sample

/-- The invoice the swap is paid to, for its one output. -/
def invoice : Bolt11Invoice := ⟨some 100000000, .ofByte 1, 18, []⟩

/-- The output of the swap. -/
def output : TxOutputRow := ⟨⟨.ofByte 2, 0⟩, ⟨[0x51]⟩, 100000⟩

/-- The transaction that funds the swap. -/
def fundingTx : Transaction := ⟨2, 0, [], [⟨100000, [0x51]⟩]⟩

/-- A transaction that refunds the swap. -/
def refundTx : Transaction := ⟨2, 0, [⟨⟨.ofByte 2, 0⟩, [], 0, []⟩], []⟩

/-- Every text parses, to what there is. -/
def codec : Codec where
  parseInvoice := fun _ => some invoice
  decodeTransaction := fun _ => some refundTx
  parsePubNonce := fun _ => some []
  parseAddress := fun _ => some ⟨[0x51]⟩
  standard := fun _ => true

/-- The server. -/
def server : SwapServer where
  maxSwapAmountSat := 1000000
  minConfirmations := 1
  minClaimBlocks := 72
  minUtxoAmountSat := 1000
  minViableCltv := 72
  payFeeLimitBaseMsat := 5000
  payFeeLimitPpm := 5000
  payTimeoutSeconds := 120
  swapService := ⟨546, 288, crypto⟩
  codec := codec

/-- The chain: one block, with the output. -/
def chainDb : ChainTables where
  blocks := [⟨.ofByte 3, 100, .ofByte 4⟩]
  watchAddresses := [⟨[0x51]⟩]
  txOutputs := [output]
  txInputs := []
  txBlocks := [⟨.ofByte 2, .ofByte 3⟩]

/-- The outside world, at a time. -/
def env (clock : SystemTime) : Env where
  chainDb := chainDb
  filterAddresses := []
  blockheight := 110
  transactions := fun _ => .ok fundingTx
  fees := fun _ => .ok ⟨250⟩
  clock := clock
  keys := fun _ => .ok (.ofByte 5)
  rnd := .ok (.ofByte 6)
  order := List.range
  queryOrder := ⟨[], []⟩

/-- The tables: the swap, unpaid. -/
def tables : SwapTables := ⟨[⟨swap, none⟩], [], [], [], 0⟩

/-- The world before anything has happened. -/
def world {N : Interface} (M : NodeModel N) (node : M.State) : World M where
  db := tables
  env := env 1
  node := node
  threads := 0
  up := []
  serving := []
  live := []
  attempts := []
  refunds := []
  checked := []

/-- The request to pay the invoice. -/
def payRequest : PaySwapRequest := ⟨"invoice"⟩

/-- The request to refund the output. -/
def refundRequest : RefundSwapRequest := ⟨[], 0, [], "address"⟩

end Sample

end Swapd
