/-
  FuzzBundle.Deployment.Chain — the node of a chain, and how it is asked over JSON-RPC.

  A `ChainNode` is any machine that answers three questions and may change with each of them. One
  such machine is a client that puts every question into a request, numbered from one, and reads
  the response (`Rpc.node`).
-/
import FuzzBundle.Json.Record
import FuzzBundle.Process

namespace FuzzBundle

/-! ## §1. Nodes -/

/-- Why a question got no answer. -/
inductive RpcError where
  | transport (method reason : String)
  | rejected (method reason : String)
  | malformed (method reason : String)
  deriving DecidableEq, Repr

/-- The text of an error. -/
def RpcError.message : RpcError → String
  | .transport method reason => method ++ " request failed: " ++ reason
  | .rejected method reason => method ++ " rejected: " ++ reason
  | .malformed method reason => method ++ " malformed response: " ++ reason

/-- A node with states of some type: what it answers, and the state it is in afterwards. -/
structure ChainNode (σ : Type u) where
  accounts : σ → Except RpcError (List String) × σ
  send : (sender data : String) → σ → Except RpcError String × σ
  trace : (hash : String) → σ → Except RpcError Json × σ

/-! ## §2. Requests and responses -/

namespace Rpc

/-- A request with a number. -/
def request (id : Nat) (method : String) (params : Json) : Json :=
  Json.ofFields [
    ("jsonrpc", .string "2.0"), ("id", .number (.natural id)), ("method", .string method),
    ("params", params)]

/-- The result in a response. An error that is not null comes first; it is quoted in full when it
has no message. -/
def result (method : String) (response : Json) : Except RpcError Json :=
  match (response.field? "error").bind Json.present? with
  | some error =>
    let reason := ((error.field? "message").bind Json.string?).getD error.compact
    .error (.rejected method reason)
  | none =>
    match response.field? "result" with
    | some result => .ok result
    | none => .error (.malformed method "missing `result`")

/-- A way to exchange a request for the text of a response. -/
abbrev Exchange (σ : Type u) := Json → σ → Launch String × σ

/-- A client: the number of its next request, and the state of the way it uses. -/
abbrev ClientState (σ : Type u) := Nat × σ

variable {σ : Type u} (wording : Wording) (exchange : Exchange σ)

/-- Asks a question and reads the result. -/
def call (method : String) (params : Json) (state : ClientState σ) :
    Except RpcError Json × ClientState σ :=
  let (response, after) := exchange (request state.1 method params) state.2
  let answer :=
    match response with
    | .refused reason => .error (.transport method reason)
    | .ran text =>
      match (Written.read text).bind Written.value? with
      | some body => result method body
      | none => .error (.transport method (wording.misread .response (.text text)))
  (answer, state.1 + 1, after)

/-- A list of accounts. -/
def accountsOf (result : Json) : Except RpcError (List String) :=
  match (decode result.written : Option (List String)) with
  | some accounts => .ok accounts
  | none =>
    .error (.malformed "eth_accounts" (wording.misread .accounts (.text result.compact)))

/-- The hash of a transaction. -/
def hashOf (result : Json) : Except RpcError String :=
  match result with
  | .string hash => .ok hash
  | other =>
    .error (.malformed "eth_sendTransaction"
      ("expected a transaction hash, got " ++ other.compact))

/-- A node that is asked over JSON-RPC. -/
def node : ChainNode (ClientState σ) where
  accounts state :=
    let (answer, state) := call wording exchange "eth_accounts" (.array []) state
    (answer.bind (accountsOf wording), state)
  send sender data state :=
    let transaction := Json.ofFields [("from", .string sender), ("data", .string data)]
    let (answer, state) := call wording exchange "eth_sendTransaction" (.array [transaction]) state
    (answer.bind hashOf, state)
  trace hash state := call wording exchange "trace_transaction" (.array [.string hash]) state

end Rpc

end FuzzBundle
