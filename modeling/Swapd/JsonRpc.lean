import Swapd.ClaimMonitor
import Swapd.Serde

/-!
# Calling bitcoind

A reply of bitcoind is read as the first of three shapes: a notification, a
response, which has a result, and an error. A result may be any value, `null`
included. bitcoind sends the members of a response and of an error together, one
of them `null`, so its errors have the shape of a response.

An error is recognised if and only if no result comes with it
(`call_recognisesError_iff`).
-/

namespace Swapd

/-- `RpcError`. -/
structure RpcError where
  code : ℤ
  message : String
  data : Option Json

/-- An error is read from an object, or from its members in order. -/
def RpcError.read : Json → Option RpcError
  | .object members => do
    let code ← Json.required "code" Json.asI64 members
    let message ← Json.required "message" Json.asString members
    let data ← Json.optional "data" members
    return ⟨code, message, data⟩
  | .array [code, message, data] => do
    return ⟨← code.asI64, ← message.asString, data.toOption⟩
  | _ => none

/-- `RpcServerMessageBody`. -/
inductive RpcServerMessageBody where
  | notification (method : String) (params : Json)
  | response (id : String) (result : Json)
  | error (id : String) (error : RpcError)

namespace RpcServerMessageBody

/-- The shape of a notification. -/
def readNotification (members : List (String × Json)) : Option RpcServerMessageBody := do
  let method ← Json.required "method" Json.asString members
  let params ← Json.required "params" some members
  return notification method params

/-- The shape of a response. -/
def readResponse (members : List (String × Json)) : Option RpcServerMessageBody := do
  let id ← Json.required "id" Json.asString members
  let result ← Json.required "result" some members
  return response id result

/-- The shape of an error. -/
def readError (members : List (String × Json)) : Option RpcServerMessageBody := do
  let id ← Json.required "id" Json.asString members
  let rpcError ← Json.required "error" RpcError.read members
  return error id rpcError

/-- A message is an object of one of the shapes. -/
def read : Json → Option RpcServerMessageBody
  | .object members => Json.untagged [readNotification, readResponse, readError] members
  | _ => none

end RpcServerMessageBody

/-- `RpcRequest`. -/
structure RpcRequest where
  id : String
  jsonrpc : String
  method : String
  params : Json

/-- `CallError`. -/
inductive CallError where
  | rpcError (error : RpcError)
  | deserialize (error : String)
  | general

/-- A text within another. -/
def contains (text pattern : String) : Prop := pattern.toList <:+: text.toList

instance (text pattern : String) : Decidable (contains text pattern) :=
  inferInstanceAs (Decidable (_ <:+: _))

/-- What a failed call says about a chain. -/
def CallError.toChainError : CallError → ChainError
  | rpcError _ => .general
  | deserialize _ => .general
  | general => .general

/-- What a failed call says about a broadcast. -/
def CallError.toBroadcastError : CallError → BroadcastError
  | rpcError error =>
    if contains error.message "insufficient fee, rejecting replacement" then
      .insufficientFeeRejectingReplacement error.message
    else .unknownError error.message
  | deserialize error => .chain (deserialize error).toChainError
  | general => .chain general.toChainError

/-- **The client**: the requests it made, and what comes back for one, if that is JSON. -/
structure BitcoindClient where
  counter : UInt64
  post : RpcRequest → Option Json

namespace BitcoindClient

variable {α : Type}

/-- The next request. -/
def request (client : BitcoindClient) (method : String) (params : Json) : RpcRequest where
  id := toString (client.counter + 1)
  jsonrpc := "1.0"
  method := method
  params := params

/-- `call`, for a type of results and how one is decoded. -/
def call (client : BitcoindClient) (method : String) (params : Json)
    (decode : Json → Except String α) : Except CallError α :=
  match (client.post (client.request method params)).bind RpcServerMessageBody.read with
  | none => .error .general
  | some (.notification _ params) => (decode params).mapError CallError.deserialize
  | some (.response _ result) => (decode result).mapError CallError.deserialize
  | some (.error _ error) => .error (.rpcError error)

/-- A result that is a text. -/
def decodeString (value : Json) : Except String String :=
  match value.asString with
  | some text => .ok text
  | none => .error "expected a string"

/-- `sendrawtransaction`. -/
def sendrawtransaction (client : BitcoindClient) (hex : String) : Except CallError String :=
  client.call "sendrawtransaction" (.array [.string hex]) decodeString

/-- `broadcast_tx`, of a serialized transaction. -/
def broadcastTx (client : BitcoindClient) (hex : String) : Except BroadcastError Unit :=
  match client.sendrawtransaction hex with
  | .ok _ => .ok ()
  | .error e => .error e.toBroadcastError

end BitcoindClient

/-! ## Responses and errors -/

/-- **A response object**: its members have different names, one is the identifier
of the request, a text, and it is not a call itself. -/
structure IsResponseObject (members : List (String × Json)) : Prop where
  names : (members.map Prod.fst).Nodup
  id : ∃ id, ("id", Json.string id) ∈ members
  method : "method" ∉ members.map Prod.fst

/-- **An error object**, with a code and a message. -/
structure IsErrorObject (members : List (String × Json)) (code : ℤ) (message : String) :
    Prop where
  names : (members.map Prod.fst).Nodup
  code_mem : ("code", Json.number (.integer code)) ∈ members
  code_lower : -2 ^ 63 ≤ code
  code_upper : code < 2 ^ 63
  message_mem : ("message", Json.string message) ∈ members

/-- **A response that reports an error.** -/
structure IsErrorResponse (members : List (String × Json)) (code : ℤ) (message : String) :
    Prop where
  response : IsResponseObject members
  error : ∃ error, ("error", Json.object error) ∈ members ∧ IsErrorObject error code message

variable {members : List (String × Json)} {code : ℤ} {message : String} {value : Json}

/-- An error object is read. -/
theorem IsErrorObject.read (h : IsErrorObject members code message) :
    ∃ data, RpcError.read (.object members) = some ⟨code, message, data⟩ := by
  obtain ⟨data, hdata⟩ := Json.optional_of_nodup "data" h.names
  have hcode : Json.asI64 (.number (.integer code)) = some code :=
    if_pos ⟨h.code_lower, h.code_upper⟩
  refine ⟨data, ?_⟩
  rw [RpcError.read, Json.required_of_mem h.names h.code_mem, hcode,
    Json.required_of_mem h.names h.message_mem, hdata]
  rfl

namespace IsResponseObject

open RpcServerMessageBody

/-- It is not a notification. -/
theorem readNotification (h : IsResponseObject members) :
    RpcServerMessageBody.readNotification members = none := by
  rw [RpcServerMessageBody.readNotification, Json.required_of_notMem h.method]
  rfl

/-- With a result it is a response, whatever else it has. -/
theorem read_of_result (h : IsResponseObject members) (hresult : ("result", value) ∈ members) :
    ∃ id, RpcServerMessageBody.read (.object members) = some (.response id value) := by
  obtain ⟨id, hid⟩ := h.id
  have hread : readResponse members = some (.response id value) := by
    rw [readResponse, Json.required_of_mem h.names hid, Json.required_of_mem h.names hresult]
    rfl
  refine ⟨id, ?_⟩
  rw [RpcServerMessageBody.read, Json.untagged_cons_of_fails h.readNotification,
    Json.untagged_cons_of_reads hread]

end IsResponseObject

/-- Without a result it is an error. -/
theorem IsErrorResponse.read_of_noResult (h : IsErrorResponse members code message)
    (hresult : "result" ∉ members.map Prod.fst) :
    ∃ id data, RpcServerMessageBody.read (.object members) =
      some (.error id ⟨code, message, data⟩) := by
  obtain ⟨id, hid⟩ := h.response.id
  obtain ⟨error, herror, hobject⟩ := h.error
  obtain ⟨data, hdata⟩ := hobject.read
  have hresponse : RpcServerMessageBody.readResponse members = none := by
    rw [RpcServerMessageBody.readResponse, Json.required_of_mem h.response.names hid,
      Json.required_of_notMem hresult]
    rfl
  have hread : RpcServerMessageBody.readError members =
      some (.error id ⟨code, message, data⟩) := by
    rw [RpcServerMessageBody.readError, Json.required_of_mem h.response.names hid,
      Json.required_of_mem h.response.names herror, hdata]
    rfl
  refine ⟨id, data, ?_⟩
  rw [RpcServerMessageBody.read, Json.untagged_cons_of_fails h.response.readNotification,
    Json.untagged_cons_of_fails hresponse, Json.untagged_cons_of_reads hread]

/-! ## Calls -/

namespace BitcoindClient

variable {client : BitcoindClient} {method : String} {params : Json} {α : Type}
  {decode : Json → Except String α}

/-- A reply with a result is decoded. -/
theorem call_of_result (h : IsResponseObject members) (hresult : ("result", value) ∈ members)
    (hreply : client.post (client.request method params) = some (.object members)) :
    client.call method params decode = (decode value).mapError CallError.deserialize := by
  obtain ⟨id, hread⟩ := h.read_of_result hresult
  rw [call, hreply, Option.bind_some, hread]

/-- An error without a result is reported. -/
theorem call_of_error (h : IsErrorResponse members code message)
    (hresult : "result" ∉ members.map Prod.fst)
    (hreply : client.post (client.request method params) = some (.object members)) :
    ∃ data, client.call method params decode = .error (.rpcError ⟨code, message, data⟩) := by
  obtain ⟨id, data, hread⟩ := h.read_of_noResult hresult
  refine ⟨data, ?_⟩
  rw [call, hreply, Option.bind_some, hread]

/-- And reaches the caller of a broadcast. -/
theorem broadcastTx_of_error {hex : String} (h : IsErrorResponse members code message)
    (hresult : "result" ∉ members.map Prod.fst)
    (hreply : client.post (client.request "sendrawtransaction" (.array [.string hex])) =
      some (.object members))
    (hmessage : contains message "insufficient fee, rejecting replacement") :
    client.broadcastTx hex = .error (.insufficientFeeRejectingReplacement message) := by
  obtain ⟨data, hcall⟩ := call_of_error h hresult hreply
  rw [broadcastTx, sendrawtransaction, hcall]
  show Except.error (CallError.toBroadcastError (.rpcError ⟨code, message, data⟩)) = _
  rw [CallError.toBroadcastError, if_pos hmessage]

/-- A result is decoded, and **an error is recognised if and only if no result
comes with it**, not even `null`. -/
theorem call_recognisesError_iff (members : List (String × Json)) :
    (IsResponseObject members → ∀ value, ("result", value) ∈ members →
      ∀ (client : BitcoindClient) (method : String) (params : Json) (α : Type)
        (decode : Json → Except String α),
        client.post (client.request method params) = some (.object members) →
        client.call method params decode = (decode value).mapError CallError.deserialize) ∧
    ∀ (code : ℤ) (message : String), IsErrorResponse members code message →
      (((∀ (client : BitcoindClient) (method : String) (params : Json) (α : Type)
          (decode : Json → Except String α),
          client.post (client.request method params) = some (.object members) →
          ∃ data, client.call method params decode =
            .error (.rpcError ⟨code, message, data⟩)) ∧
        (contains message "insufficient fee, rejecting replacement" →
          ∀ (client : BitcoindClient) (hex : String),
            client.post (client.request "sendrawtransaction" (.array [.string hex])) =
              some (.object members) →
            client.broadcastTx hex = .error (.insufficientFeeRejectingReplacement message))) ↔
        "result" ∉ members.map Prod.fst) := by
  constructor
  · intro h value hresult client method params α decode hreply
    exact call_of_result h hresult hreply
  · intro code message h
    constructor
    · rintro ⟨hcall, -⟩ hresult
      obtain ⟨⟨_, value⟩, hmem, rfl⟩ := List.mem_map.mp hresult
      let client : BitcoindClient := ⟨0, fun _ => some (.object members)⟩
      let ignore : Json → Except String Unit := fun _ => .ok ()
      obtain ⟨data, herror⟩ := hcall client "" .null Unit ignore rfl
      have hok : client.call "" .null ignore = .ok () :=
        call_of_result h.response hmem rfl
      rw [hok] at herror
      cases herror
    · intro hresult
      exact ⟨fun client method params α decode hreply => call_of_error h hresult hreply,
        fun hmessage client hex hreply => broadcastTx_of_error h hresult hreply hmessage⟩

end BitcoindClient

namespace Sample

/-- An error without a result. -/
def errorMembers : List (String × Json) :=
  [("error", .object [("code", .number (.integer (-26))),
      ("message", .string "insufficient fee, rejecting replacement")]),
    ("id", .string "1")]

/-- The same as bitcoind sends it. -/
def errorReply : List (String × Json) := ("result", .null) :: errorMembers

theorem errorMembers_error :
    IsErrorResponse errorMembers (-26) "insufficient fee, rejecting replacement" where
  response := ⟨by decide, ⟨"1", .tail _ (.head _)⟩, by decide⟩
  error := ⟨_, .head _, by decide, .head _, by decide, by decide, .tail _ (.head _)⟩

theorem errorReply_error :
    IsErrorResponse errorReply (-26) "insufficient fee, rejecting replacement" where
  response := ⟨by decide, ⟨"1", .tail _ (.tail _ (.head _))⟩, by decide⟩
  error := ⟨_, .tail _ (.head _), by decide, .head _, by decide, by decide, .tail _ (.head _)⟩

end Sample

namespace BitcoindClient

/-- An error that is recognised. -/
theorem call_recognisesError_sample :
    ∃ data, (⟨0, fun _ => some (.object Sample.errorMembers)⟩ : BitcoindClient).call
      "sendrawtransaction" (.array []) decodeString =
      .error (.rpcError ⟨-26, "insufficient fee, rejecting replacement", data⟩) :=
  (((call_recognisesError_iff Sample.errorMembers).2 (-26)
      "insufficient fee, rejecting replacement" Sample.errorMembers_error).mpr (by decide)).1
    _ _ _ _ _ rfl

/-- An error with a `null` result, as bitcoind sends it, is read as a response,
and fails to decode. -/
theorem call_ignoresError :
    ¬ ∀ (members : List (String × Json)) (code : ℤ) (message : String),
      IsErrorResponse members code message →
      (∀ value, ("result", value) ∈ members → value = .null) →
      ∀ (client : BitcoindClient) (method : String) (params : Json) (α : Type)
        (decode : Json → Except String α),
        client.post (client.request method params) = some (.object members) →
        ∃ data, client.call method params decode =
          .error (.rpcError ⟨code, message, data⟩) := by
  intro h
  have hnull : ∀ value, ("result", value) ∈ Sample.errorReply → value = .null := by
    simp [Sample.errorReply, Sample.errorMembers]
  obtain ⟨data, herror⟩ := h _ _ _ Sample.errorReply_error hnull
    ⟨0, fun _ => some (.object Sample.errorReply)⟩ "sendrawtransaction" (.array []) _
    decodeString rfl
  rw [call_of_result Sample.errorReply_error.response (.head _) rfl] at herror
  cases herror

end BitcoindClient

end Swapd
