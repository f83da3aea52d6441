import Rulebook.Http.Call
import Rulebook.Store.Json

/-!
# Responses

What is told when a call succeeds, when it fails, and when a request is refused.
Apart from the state of health, JSON comes in an envelope that says whether the
call succeeded, a code, a message and the data.
-/

namespace Rulebook.Http

/-- What is told when a call succeeds. -/
inductive Reply where
  | created (c : CompiledRule)
  | updated (c : CompiledRule)
  | combined (c : CompiledRule)
  | evaluated (report : Report)
  | rule (r : Rule)
  | page (p : Page)
  | health (s : Statistics)
deriving DecidableEq

/-- The content of a response. A text is for people to read, and what it says is
left open. -/
inductive Content where
  | empty
  | text
  | json (value : Json)

/-- What a client is answered, and which methods it is told to use. -/
structure Response where
  status : Nat
  content : Content
  allow : List String

/-- The envelope around a success. -/
def success (message : String) (data : Json) : Json :=
  .object [("success", .boolean true), ("code", .string "SUCCESS"),
    ("message", .string message), ("data", data)]

/-- The envelope around a failure. -/
def failure (code message : String) : Json :=
  .object [("success", .boolean false), ("code", .string code),
    ("message", .string message), ("data", .null)]

/-- A rule with its expression as JSON. -/
def writtenRule (c : CompiledRule) : Json :=
  .object (c.rule.members ++ [("ast", c.expression.toJson)])

/-- The name under which the service tells that it is alive. -/
def serviceName : String := "rule-admin-service"

/-- A reply as JSON. -/
def Reply.toJson : Reply → Json
  | .created c => success "规则已创建" (writtenRule c)
  | .updated c => success "规则已更新" (writtenRule c)
  | .combined c => success "规则已组合" (writtenRule c)
  | .evaluated report => success "操作成功" report.toJson
  | .rule r => success "操作成功" r.toJson
  | .page p => success "操作成功" p.toJson
  | .health s =>
    .object [("status", .string "ok"), ("service", .string serviceName),
      ("rules", s.toJson)]

namespace Response

/-- The response to a call that fails: 404 if a rule is missing, and 400
otherwise. -/
def ofError (e : RuleError) : Response where
  status :=
    match e with
    | .notFound _ => 404
    | _ => 400
  content := .json (failure e.code e.message)
  allow := []

/-- The response to a call. -/
def ofAnswer : Except RuleError Reply → Response
  | .ok reply => ⟨200, .json reply.toJson, []⟩
  | .error e => ofError e

/-- The response to a request that is refused. -/
def ofRefusal : Refusal → Response
  | .unknownPath => ⟨404, .empty, []⟩
  | .otherMethod allowed => ⟨405, .empty, allowed⟩
  | .unreadableId => ⟨400, .text, []⟩
  | .unreadableQuery => ⟨400, .text, []⟩
  | .otherMediaType => ⟨415, .text, []⟩
  | .tooLarge => ⟨413, .text, []⟩
  | .body .malformed => ⟨400, .text, []⟩
  | .body .misshapen => ⟨422, .text, []⟩
  | .outOfBounds fault =>
    ⟨400, .json (failure "VALIDATION_ERROR" ("参数验证失败: " ++ fault.message)),
      []⟩

/-- A response without its content. -/
def headOnly (r : Response) : Response := { r with content := .empty }

end Response

end Rulebook.Http
