import Intercept.Text.Yaml.Token

/-!
# Intercept.Text.Yaml

The part of YAML that settings are written in: one document of mappings in
block or flow style and of scalars, plain or in quotes.

1. A key without a value has an empty plain scalar for its value.
2. A key is a scalar.
3. Around the document there may be its marks, and nothing else.
-/

namespace Intercept

/-- A YAML node. A mapping keeps its members as written, repeated keys included. -/
inductive Yaml where
  | scalar (text : String) (plain : Bool)
  | map (members : List (String × Yaml))
deriving Repr, BEq

namespace Yaml

/-- A missing value is an empty plain scalar. -/
def missing : Yaml := scalar "" true

/-! ## Assembling -/

/-- What an open mapping waits for. -/
inductive Slot where
  /-- A member, behind the comma if one is needed. -/
  | member
  /-- The comma behind a member. -/
  | comma
  /-- A key. -/
  | key
  /-- The colon behind this key. -/
  | colon (key : String)
  /-- The value of this key. -/
  | value (key : String)
deriving DecidableEq, Repr

/-- An open mapping. -/
structure Frame where
  flow : Bool
  members : List (String × Yaml) := []
  slot : Slot := .member
deriving Repr

/-- Whether a node starts with this token. -/
def Token.startsNode : Token → Bool
  | .scalar .. | .openBlock | .openFlow => true
  | _ => false

namespace Frame

/-- Add a member. -/
def add (f : Frame) (key : String) (value : Yaml) : Frame :=
  { f with members := f.members ++ [(key, value)], slot := if f.flow then .comma else .member }

/-- Add the pending member without a value, if the token shows that it has none. -/
def settle (f : Frame) (t : Token) : Frame :=
  match f.slot with
  | .colon k => if t = .value then f else f.add k missing
  | .value k => if t.startsNode then f else f.add k missing
  | _ => f

end Frame

/-- How much of a document there is. -/
inductive Stage where
  /-- Nothing. -/
  | start
  /-- The mark in front of it. -/
  | marked
  /-- All of it. -/
  | complete (node : Yaml)
deriving Repr

/-- A document of which some tokens have come. -/
structure Assembly where
  stage : Stage := .start
  /-- The open mappings, the innermost first. -/
  frames : List Frame := []
deriving Repr

namespace Assembly

/-- Put a node where it is waited for. -/
def put? (a : Assembly) (node : Yaml) : Option Assembly :=
  match a.frames, a.stage with
  | [], .complete _ => none
  | [], _ => some { a with stage := .complete node }
  | f :: fs, _ =>
    match f.slot with
    | .value k => some { a with frames := f.add k node :: fs }
    | _ => none

/-- Open a mapping where a node is waited for. -/
def enter? (a : Assembly) (flow : Bool) : Option Assembly :=
  (a.put? (map [])).map fun _ => { a with frames := { flow } :: a.frames }

/-- Take a token outside all mappings. -/
def root? (a : Assembly) (t : Token) : Option Assembly :=
  match a.stage, t with
  | .start, .document => some { a with stage := .marked }
  | .marked, .documentEnd => some { a with stage := .complete missing }
  | .complete _, .documentEnd => some a
  | _, .scalar text plain => a.put? (scalar text plain)
  | _, .openBlock => a.enter? false
  | _, .openFlow => a.enter? true
  | _, _ => none

/-- Take a token inside a mapping. -/
def inside? (a : Assembly) (f : Frame) (fs : List Frame) (t : Token) : Option Assembly :=
  let turn (slot : Slot) : Option Assembly := some { a with frames := { f with slot } :: fs }
  let close : Option Assembly := { a with frames := fs }.put? (map f.members)
  match f.slot, t with
  | .member, .key => turn .key
  | .member, .scalar k _ => if f.flow then some { a with frames := f.add k missing :: fs } else none
  | .comma, .comma => turn .member
  | .member, .closeBlock | .comma, .closeBlock => if f.flow then none else close
  | .member, .closeFlow | .comma, .closeFlow => if f.flow then close else none
  | .key, .scalar k _ => turn (.colon k)
  | .colon k, .value => turn (.value k)
  | .value _, .scalar text plain => a.put? (scalar text plain)
  | .value _, .openBlock => a.enter? false
  | .value _, .openFlow => a.enter? true
  | _, _ => none

/-- Take a token. -/
def step? (a : Assembly) (t : Token) : Option Assembly :=
  match a.frames with
  | [] => a.root? t
  | f :: fs => { a with frames := f.settle t :: fs }.inside? (f.settle t) fs t

/-- The node of a document that is over. -/
def node? (a : Assembly) : Option Yaml :=
  match a.frames, a.stage with
  | [], .complete node => some node
  | [], _ => some missing
  | _, _ => none

end Assembly

/-- The node that tokens spell. -/
def ofTokens? (ts : List Token) : Option Yaml := (ts.foldlM Assembly.step? {}).bind Assembly.node?

/-- The node that a whole text spells. -/
def parse? (s : String) : Option Yaml := (tokens? s).bind ofTokens?

/-! ## Typed readings -/

/-- The natural that digits of a base spell. -/
def natural? (base : Nat) (cs : List Char) : Option Nat := do
  if cs = [] then none
  cs.foldlM (fun n c => do
    let d ← Json.hexValue? c
    if d < base then some (n * base + d) else none) 0

/-- An unquoted natural number below `2 ^ 64`: an optional plus sign, then decimal digits without
leading zeros, or `0x`, `0o` or `0b` and digits of that base. -/
def nat? : Yaml → Option Nat
  | scalar text true => do
    let cs := match text.toList with
      | '+' :: cs => cs
      | cs => cs
    let n ← match cs with
      | '0' :: 'x' :: ds => natural? 16 ds
      | '0' :: 'o' :: ds => natural? 8 ds
      | '0' :: 'b' :: ds => natural? 2 ds
      | '0' :: _ :: _ => none
      | ds => natural? 10 ds
    if n < UInt64.size then some n else none
  | _ => none

/-- The text of any scalar. -/
def text? : Yaml → Option String
  | scalar text _ => some text
  | _ => none

/-- The members of a mapping; a missing value is an empty one. -/
def members : Yaml → Option (List (String × Yaml))
  | map ms => some ms
  | scalar "" true => some []
  | _ => none

end Yaml

end Intercept
