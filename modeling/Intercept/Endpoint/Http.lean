import Intercept.Endpoint.Connection

/-!
# Intercept.Endpoint.Http

What the endpoint answers over HTTP.

```
/healthz   whether it lives
/readyz    whether it takes work: 503 once it is about to stop
/metrics   everything that is counted
/v1/ext    where an extension opens its socket
```

1. A path is compared letter by letter, without its query and what an absolute
   address has in front of it.
2. The first three answer `GET` and `HEAD`, the last one `GET`; other methods
   are not allowed.
3. A socket needs the headers of an upgrade and the name of the extension.
-/

namespace Intercept

/-- What the endpoint offers. -/
inductive Route where
  | health
  | ready
  | metrics
  | socket
deriving DecidableEq, Repr

namespace Route

/-- A character of a scheme. -/
def isSchemeChar (c : Char) : Bool := c.isAlphanum ∨ c = '+' ∨ c = '-' ∨ c = '.'

/-- What an absolute address has behind its scheme and its authority. -/
def behindAuthority? (cs : List Char) : Option (List Char) :=
  match cs.dropWhile isSchemeChar with
  | ':' :: '/' :: '/' :: rest => some (rest.dropWhile fun c => c ≠ '/' ∧ c ≠ '?' ∧ c ≠ '#')
  | _ => none

/-- The path of a request target, before any query. A target is a path or an absolute address. -/
def path (target : String) : String :=
  let cs := target.toList
  let cs := if cs.head? = some '/' then cs else (behindAuthority? cs).getD cs
  String.ofList (cs.takeWhile fun c => c ≠ '?' ∧ c ≠ '#')

/-- The route of a request target. -/
def ofTarget? (target : String) : Option Route :=
  match path target with
  | "/healthz" => some health
  | "/readyz" => some ready
  | "/metrics" => some metrics
  | "/v1/ext" => some socket
  | _ => none

end Route

/-- An answer. -/
structure HttpReply where
  status : Nat
  /-- The type of the content and the content, where there is any of interest. -/
  content : Option (String × String) := none
deriving DecidableEq, Repr

namespace Endpoint

/-- The type of a plain text. -/
def textType : String := "text/plain; charset=utf-8"

/-- The type of the text of all metrics. -/
def metricsType : String := "text/plain; version=0.0.4; charset=utf-8"

/-- How many entries the broker has now, told beside what is counted. -/
def gauges (b : Broker) : List (String × Nat) :=
  [("gtproxy_chains_active", b.chains.length),
    ("gtproxy_extensions_registered", b.registry.size),
    ("gtproxy_fire_and_forget_pending", b.correlations.length)]

/-- The answer to a `GET` without an upgrade. -/
def get (e : Endpoint) : Route → HttpReply
  | .health => ⟨200, some (textType, "ok")⟩
  | .ready =>
    if e.broker.metrics.draining then ⟨503, some (textType, "draining")⟩
    else ⟨200, some (textType, "ready")⟩
  | .metrics => ⟨200, some (metricsType, e.broker.metrics.render (gauges e.broker))⟩
  | .socket => ⟨400, none⟩

/-- The answer to a request without an upgrade. -/
def http (e : Endpoint) (method target : String) : HttpReply :=
  match Route.ofTarget? target with
  | none => ⟨404, none⟩
  | some route =>
    if method = "GET" then e.get route
    else if method = "HEAD" ∧ route ≠ .socket then
      let reply := e.get route
      { reply with content := reply.content.map fun (type, _) => (type, "") }
    else ⟨405, none⟩

/-- A peer asks for a socket; without a name it gets none. -/
def upgrade (e : Endpoint) (label : String) (name : Option String) : Except Nat Endpoint :=
  match name with
  | some name => .ok (e.connect label name)
  | none => .error 400

/-- The endpoint is about to stop. -/
def drain (e : Endpoint) : Endpoint :=
  { e with broker := { e.broker with metrics := { e.broker.metrics with draining := true } } }

end Endpoint

end Intercept
