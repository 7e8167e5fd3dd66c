import Swapd.ChainRepository
import Swapd.Interaction
import Swapd.Types

/-!
# The services a handler talks to

A handler awaits its repositories, its chain client, its fee estimator and its
Lightning client. `Call` lists what it may ask and `Call.Reply` what it may
hear back; an error of a repository or a client is part of the reply. The
interface is over the interface of the Lightning node: the handlers themselves
are written against the methods of `LightningClient`, and `Client.link` puts a
particular client in their place, each method being a program that talks to
its node.

Three calls stand for what is not decided by the program text: the time, the
randomness drawn, and the order in which an unordered collection – a hash map,
a set of concurrent futures – yields its elements. `panic` is the call that is
never answered.
-/

namespace Swapd

/-- An error nothing is read from. -/
inductive GeneralError where
  | general
deriving DecidableEq

/-! ## Lightning clients -/

/-- The methods of a `LightningClient`. -/
inductive LightningCall where
  | getPaymentState (hash : PaymentHash) (label : String)
  | getPreimage (hash : PaymentHash)
  | hasPendingOrCompletePayment (hash : PaymentHash)
  | pay (request : PaymentRequest)
deriving DecidableEq

/-- What the methods return. -/
@[reducible] def LightningCall.Reply : LightningCall → Type
  | getPaymentState _ _ => Except LightningError PaymentState
  | getPreimage _ => Except LightningError (Option PreimageResult)
  | hasPendingOrCompletePayment _ => Except LightningError Bool
  | pay _ => Except LightningError PaymentResult

/-- **The trait `LightningClient`**, as an interface. -/
@[reducible] def Lightning : Interface where
  Call := LightningCall
  Reply := LightningCall.Reply

/-- **An implementation of `LightningClient`** over a node: a program for each
method. -/
abbrev Client (N : Interface) : Type := (c : LightningCall) → Prog N c.Reply

/-! ## All services -/

/-- **The calls of a handler.** -/
inductive Call (N : Interface) where
  | getSwapByHash (hash : PaymentHash)
  | getSwapByAddress (address : Address)
  | getSwaps (addresses : List Address)
  | getUnhandledPaymentAttempts
  | lockAddPaymentAttempt (attempt : PaymentAttempt)
  | lockSwapRefund (hash : PaymentHash) (refundId : String)
  | unlockAddPaymentResult (hash : PaymentHash) (label : String) (result : PaymentResult)
  | unlockSwapRefund (hash : PaymentHash) (refundId : String)
  | getTxosForAddress (address : Address)
  | getUtxos
  | hasFilteredAddress (addresses : List Address)
  | getBlockheight
  | getTransaction (txid : Txid)
  | estimateFee (confTarget : ℤ)
  | now
  | newPrivateKeys
  | rnd32
  | completionOrder (n : ℕ)
  | ready
  | panic
  | node (c : N.Call)

/-- The calls that change nothing, and leave no trace. -/
def Call.IsQuery {N : Interface} : Call N → Prop
  | getSwapByAddress _ | getSwaps _ | getUnhandledPaymentAttempts
  | getTxosForAddress _ | getUtxos | hasFilteredAddress _ | getBlockheight
  | getTransaction _ | estimateFee _ | now | newPrivateKeys | rnd32
  | completionOrder _ | panic => True
  | getSwapByHash _ | lockAddPaymentAttempt _ | lockSwapRefund _ _
  | unlockAddPaymentResult _ _ _ | unlockSwapRefund _ _ | ready | node _ => False

/-- The calls that change nothing, of the tables or of the node. -/
def Call.IsRead {N : Interface} (c : Call N) : Prop :=
  c.IsQuery ∨ ∃ hash, c = getSwapByHash hash

/-- The replies to the calls of a handler. -/
@[reducible] def Call.Reply {N : Interface} : Call N → Type
  | getSwapByHash _ => Except GetSwapsError SwapState
  | getSwapByAddress _ => Except GetSwapsError SwapState
  | getSwaps _ => Except GetSwapsError (List SwapState)
  | getUnhandledPaymentAttempts => Except GetPaymentAttemptsError (List PaymentAttempt)
  | lockAddPaymentAttempt _ => Except LockSwapError Unit
  | lockSwapRefund _ _ => Except LockSwapError Unit
  | unlockAddPaymentResult _ _ _ => Except LockSwapError Unit
  | unlockSwapRefund _ _ => Except LockSwapError Unit
  | getTxosForAddress _ => Except ChainRepositoryError (List Txo)
  | getUtxos => Except ChainRepositoryError (List AddressUtxo)
  | hasFilteredAddress _ => Except GeneralError Bool
  | getBlockheight => Except ChainError UInt64
  | getTransaction _ => Except ChainError Transaction
  | estimateFee _ => Except FeeEstimateError FeeEstimate
  | now => SystemTime
  | newPrivateKeys => ℕ → Except PrivateKeyError SecretKey
  | rnd32 => Except RandomError Bytes32
  | completionOrder _ => List ℕ
  | ready => Unit
  | panic => Empty
  | node c => N.Reply c

/-- **The services**, over the interface of a node. -/
@[reducible] def Services (N : Interface) : Interface where
  Call := Call N
  Reply := Call.Reply

/-- The programs of the server, written against the trait. -/
abbrev Program (ε α : Type) : Type := ExceptT ε (Prog (Services Lightning)) α

/-- A program of the node, among the services. -/
def Client.lift {N : Interface} {α : Type} (p : Prog N α) : Prog (Services N) α :=
  p.interpret (J := Services N) (fun c => Prog.perform (I := Services N) (.node c))

/-- **Linking a client**: the calls of the trait become the programs of the
client, all other calls stay what they are. -/
def Client.link {N : Interface} (client : Client N) :
    (c : Call Lightning) → Prog (Services N) c.Reply
  | .getSwapByHash h => Prog.perform (I := Services N) (.getSwapByHash h)
  | .getSwapByAddress a => Prog.perform (I := Services N) (.getSwapByAddress a)
  | .getSwaps as => Prog.perform (I := Services N) (.getSwaps as)
  | .getUnhandledPaymentAttempts =>
    Prog.perform (I := Services N) .getUnhandledPaymentAttempts
  | .lockAddPaymentAttempt a => Prog.perform (I := Services N) (.lockAddPaymentAttempt a)
  | .lockSwapRefund h i => Prog.perform (I := Services N) (.lockSwapRefund h i)
  | .unlockAddPaymentResult h l r =>
    Prog.perform (I := Services N) (.unlockAddPaymentResult h l r)
  | .unlockSwapRefund h i => Prog.perform (I := Services N) (.unlockSwapRefund h i)
  | .getTxosForAddress a => Prog.perform (I := Services N) (.getTxosForAddress a)
  | .getUtxos => Prog.perform (I := Services N) .getUtxos
  | .hasFilteredAddress as => Prog.perform (I := Services N) (.hasFilteredAddress as)
  | .getBlockheight => Prog.perform (I := Services N) .getBlockheight
  | .getTransaction t => Prog.perform (I := Services N) (.getTransaction t)
  | .estimateFee t => Prog.perform (I := Services N) (.estimateFee t)
  | .now => Prog.perform (I := Services N) .now
  | .newPrivateKeys => Prog.perform (I := Services N) .newPrivateKeys
  | .rnd32 => Prog.perform (I := Services N) .rnd32
  | .completionOrder n => Prog.perform (I := Services N) (.completionOrder n)
  | .ready => Prog.perform (I := Services N) .ready
  | .panic => Prog.perform (I := Services N) .panic
  | .node c => Client.lift (client c)

/-! ## Errors as statuses -/

namespace Status

def invalidArgument (message : String) : Status := ⟨.invalidArgument, message⟩
def failedPrecondition (message : String) : Status := ⟨.failedPrecondition, message⟩
def notFound (message : String) : Status := ⟨.notFound, message⟩
def internal (message : String) : Status := ⟨.internal, message⟩
def unknown (message : String) : Status := ⟨.unknown, message⟩

/-- `From<GetSwapsError>`. -/
def ofGetSwapsError : GetSwapsError → Status
  | .notFound => notFound "swap not found"
  | .general => internal "internal error"
  | .invalidPreimage => internal "internal error"

/-- `From<ChainError>`. -/
def ofChainError (_ : ChainError) : Status := internal "internal error"

/-- `From<ChainRepositoryError>`. -/
def ofChainRepositoryError (_ : ChainRepositoryError) : Status := internal "internal error"

/-- `From<FeeEstimateError>`. -/
def ofFeeEstimateError (_ : FeeEstimateError) : Status := internal "internal error"

/-- `From<LightningError>`. -/
def ofLightningError (_ : LightningError) : Status := unknown "payment failed"

/-- `From<RandomError>`. -/
def ofRandomError (_ : RandomError) : Status := unknown "internal error"

end Status

/-! ## Asking -/

/-- The result of a call, its error turned into one of the caller (`?`). -/
def orFail {I : Interface} {ε ε' α : Type} (toError : ε → ε')
    (p : Prog I (Except ε α)) : ExceptT ε' (Prog I) α :=
  ExceptT.mk (p >>= fun r => pure (r.mapError toError))

theorem orFail_onlyCalls {I : Interface} {P : I.Call → Prop} {ε ε' α : Type}
    {toError : ε → ε'} {c : I.Call} {k : I.Reply c → Prog I (Except ε α)} (hc : P c)
    (hk : ∀ r, (k r).OnlyCalls P) : (orFail toError (Prog.call c k)).run.OnlyCalls P :=
  ⟨hc, fun r => (hk r).bind (fun _ => trivial)⟩

end Swapd
