import Intercept.Fault
import Intercept.Text.Json
import Intercept.Text.Quoted

/-!
# Intercept.Lane.Control

The text lane between the broker and an extension: one JSON message a text.

1. The member `type` names the message and may stand anywhere; it and every
   field stand exactly once.
2. A message with fields has all of them and no others. One without fields
   ignores whatever else is there.
3. A message may also be an array: its type, then its fields in order, and
   nothing else.
4. The interests of a capability response are any JSON value, kept in
   canonical form and with its embedded texts read; what they mean is for the
   broker to say.
-/

namespace Intercept

/-- A message of the text lane. -/
inductive Control where
  /-- First message of an extension. -/
  | handshake (version : UInt8) (name : String)
  /-- The broker asks for the interests. -/
  | capabilityRequest
  /-- The interests of an extension. -/
  | capabilityResponse (interests : Json)
  /-- Packets may flow. -/
  | connected
  /-- Either side leaves. -/
  | disconnect
  /-- A request was refused. -/
  | error (code msg : String)
deriving Repr, BEq

namespace Control

/-- The only version of the text lane. -/
def version : UInt8 := 1

/-- The name of a message. -/
def type : Control → String
  | handshake .. => "handshake"
  | capabilityRequest => "capability_request"
  | capabilityResponse _ => "capability_response"
  | connected => "connected"
  | disconnect => "disconnect"
  | error .. => "error"

/-- The fields of a message, in order. -/
def fields : Control → List (String × Json)
  | handshake v name => [("v", .int v.toNat), ("name", .str name)]
  | capabilityResponse interests => [("interests", interests)]
  | error code msg => [("code", .str code), ("msg", .str msg)]
  | _ => []

/-- The message that tells an extension of a fault. -/
def ofFault (f : Fault) : Control := error f.code.name f.message

/-! ## Writing -/

/-- The message as a JSON object: its type, then its fields. -/
def toJson (m : Control) : Json := .obj (("type", .str m.type) :: m.fields)

/-- The text of a message. -/
def encode (m : Control) : String := m.toJson.render

/-! ## Reading -/

/-- The fields that a type of message requires, in order, or `none` for an unknown type. -/
def required? (type : String) : Option (List String) :=
  match type with
  | "handshake" => some ["v", "name"]
  | "capability_response" => some ["interests"]
  | "error" => some ["code", "msg"]
  | "capability_request" | "connected" | "disconnect" => some []
  | _ => none

/-- The message of a type with the values of its required fields. -/
def ofFields? (type : String) (values : List Json) : Option Control :=
  match type, values with
  | "handshake", [.int v, .str name] =>
    if 0 ≤ v ∧ v ≤ 255 then some (handshake (UInt8.ofNat v.toNat) name) else none
  | "capability_request", [] => some capabilityRequest
  | "capability_response", [interests] => do
    return capabilityResponse (← interests.expand?).canonical
  | "connected", [] => some connected
  | "disconnect", [] => some disconnect
  | "error", [.str code, .str msg] => some (error code msg)
  | _, _ => none

/-- The values of the required fields among the members beside the type: each stands once and,
where any are required, nothing else does. -/
def fieldValues? (required : List String) (members : List (String × Json)) : Option (List Json) :=
  if required = [] then some []
  else if members.length = required.length then required.mapM fun key => members.lookup key
  else none

/-- The message that a JSON value spells. -/
def ofJson? : Json → Option Control
  | .obj members =>
    match members.partition (·.1 = "type") with
    | ([(_, .str type)], others) => do ofFields? type (← fieldValues? (← required? type) others)
    | _ => none
  | .arr (.str type :: values) => ofFields? type values
  | _ => none

/-- The message that a text spells. -/
def decode (s : String) : Except Fault Control :=
  match (Json.parse? s).bind ofJson? with
  | some m => .ok m
  | none => .error (.badRequest "invalid control json")

/-! ## Describing -/

private def listed : List String → String
  | [] => ""
  | [x] => x
  | x :: xs => x ++ ", " ++ listed xs

mutual
/-- A JSON value as messages quote it. -/
def describeJson : Json → String
  | .null => "Null"
  | .bool b => "Bool(" ++ toString b ++ ")"
  | .int i => "Number(" ++ toString i ++ ")"
  | .real x => "Number(" ++ JsonNumber.render x ++ ")"
  | .str s => "String(" ++ Text.quoted s ++ ")"
  | .arr items => "Array [" ++ listed (describeItems items) ++ "]"
  | .obj members => "Object \x7b" ++ listed (describeMembers members) ++ "\x7d"

/-- The items of an array as messages quote them. -/
def describeItems : List Json → List String
  | [] => []
  | v :: vs => describeJson v :: describeItems vs

/-- The members of an object as messages quote them. -/
def describeMembers : List (String × Json) → List String
  | [] => []
  | (k, v) :: rest => (Text.quoted k ++ ": " ++ describeJson v) :: describeMembers rest
end

/-- A message as other messages quote it. -/
def describe : Control → String
  | handshake v name =>
    "Handshake \x7b v: " ++ toString v ++ ", name: " ++ Text.quoted name ++ " \x7d"
  | capabilityRequest => "CapabilityRequest"
  | capabilityResponse interests =>
    "CapabilityResponse \x7b interests: " ++ describeJson interests ++ " \x7d"
  | connected => "Connected"
  | disconnect => "Disconnect"
  | error code msg =>
    "Error \x7b code: " ++ Text.quoted code ++ ", msg: " ++ Text.quoted msg ++ " \x7d"

end Control

end Intercept
