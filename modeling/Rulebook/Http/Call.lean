import Rulebook.Http.Body
import Rulebook.Http.Query
import Rulebook.Http.Request

/-!
# What requests ask for

The path of a request names an endpoint, and each endpoint is called with one
method. A request becomes a call step by step: its path and its method, the id
in its path, its query, its body, and last the bounds on what the body says. The
first step that fails is the reason why the request is refused.
-/

namespace Rulebook.Http

/-- A place to which requests may be sent. The ids are as written in the
path. -/
inductive Endpoint where
  | create
  | update (id : List Char)
  | combine
  | evaluate
  | rule (id : List Char)
  | fetch
  | health
deriving DecidableEq, Repr

namespace Endpoint

/-- The endpoint of a path. -/
def ofPath? (path : String) : Option Endpoint :=
  match Text.split '/' path.toList with
  | [] :: ['a', 'p', 'i'] :: ['v', '1'] :: name :: rest =>
    match String.ofList name, rest with
    | "create", [] => some .create
    | "update", [id] => if id.isEmpty then none else some (.update id)
    | "combine", [] => some .combine
    | "evaluate", [] => some .evaluate
    | "rule", [id] => if id.isEmpty then none else some (.rule id)
    | "fetch", [] => some .fetch
    | "health", [] => some .health
    | _, _ => none
  | _ => none

/-- The methods with which an endpoint is called. -/
def methods : Endpoint → List String
  | .create => ["POST"]
  | .update _ => ["PUT"]
  | .combine => ["POST"]
  | .evaluate => ["POST"]
  | .rule _ => ["GET", "HEAD"]
  | .fetch => ["GET", "HEAD"]
  | .health => ["GET", "HEAD"]

end Endpoint

/-- What a request asks for. -/
inductive Call where
  | create (draft : RuleDraft)
  | update (id : String) (draft : RuleDraft)
  | combine (request : CombinationRequest)
  | evaluate (request : EvaluationRequest)
  | rule (id : String)
  | fetch (page limit : Option Nat)
  | health

/-- What is out of bounds in a body. -/
inductive BoundFault where
  | nameLength
  | emptyRuleId
deriving DecidableEq, Repr

/-- A fault in words. -/
def BoundFault.message : BoundFault → String
  | .nameLength => "name: 规则名称长度必须在1-100个字符之间"
  | .emptyRuleId => "rule_id: 规则 ID 不能为空"

/-- Why a request is no call. -/
inductive Refusal where
  | unknownPath
  | otherMethod (allowed : List String)
  | unreadableId
  | unreadableQuery
  | otherMediaType
  | tooLarge
  | body (fault : Json.Fault)
  | outOfBounds (fault : BoundFault)
deriving DecidableEq, Repr

/-- The largest body in bytes. -/
def maxBodySize : Nat := 2 * 1024 * 1024

/-- The body of a request, read with the given reader. -/
def Request.readBody {α : Type} (r : Request)
    (read : String → Except Json.Fault α) : Except Refusal α :=
  if !r.hasJsonBody then .error .otherMediaType
  else if maxBodySize < r.body.utf8ByteSize then .error .tooLarge
  else (read r.body).mapError .body

/-- Whether a name has one to a hundred characters. -/
def checkName (name : String) : Except Refusal Unit :=
  if 1 ≤ name.length ∧ name.length ≤ 100 then .ok ()
  else .error (.outOfBounds .nameLength)

/-- The id that is written in a path. -/
def readId (id : List Char) : Except Refusal String :=
  match percentDecoded? id with
  | some id => .ok id
  | none => .error .unreadableId

namespace Call

/-- The call of an endpoint that a request makes. -/
def ofEndpoint (r : Request) : Endpoint → Except Refusal Call
  | .create => do
    let draft ← r.readBody readDraft
    checkName draft.name
    return .create draft
  | .update id => do
    let id ← readId id
    let draft ← r.readBody readDraft
    checkName draft.name
    return .update id draft
  | .combine => do
    let request ← r.readBody readCombination
    checkName request.name
    return .combine request
  | .evaluate => do
    let request ← r.readBody readEvaluation
    if request.ruleId = "" then throw (.outOfBounds .emptyRuleId)
    return .evaluate request
  | .rule id => return .rule (← readId id)
  | .fetch =>
    let pairs := queryPairs r.target.query
    match queryNumber? "page" pairs, queryNumber? "limit" pairs with
    | some page, some limit => .ok (.fetch page limit)
    | _, _ => .error .unreadableQuery
  | .health => .ok .health

/-- The call that a request makes. -/
def ofRequest (r : Request) : Except Refusal Call :=
  match Endpoint.ofPath? r.target.path with
  | none => .error .unknownPath
  | some endpoint =>
    if endpoint.methods.contains r.method then ofEndpoint r endpoint
    else .error (.otherMethod endpoint.methods)

end Call

end Rulebook.Http
