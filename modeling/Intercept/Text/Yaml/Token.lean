import Intercept.Text.Yaml.Scalar

/-!
# Intercept.Text.Yaml.Token

The tokens of a YAML text that consists of mappings and scalars.

```
{version: 1}     openFlow key scalar value scalar closeFlow
version: 1       openBlock key scalar value scalar closeBlock
```

1. In flow style mappings open and close by braces. In block style a key that
   stands deeper than the mapping around it opens one, and whatever stands less
   deep than its keys closes it.
2. That a scalar or a mapping is a key shows only when its colon comes: until
   then its place is kept as a candidate. Key and colon stand on one line, at
   most 1024 characters from one another.
3. A candidate at the very depth of the keys around it can be nothing else, so
   that its colon must come.
4. In block style a key stands at the beginning of its line, or behind the
   question mark or the colon of another one.
5. Sequences, anchors, tags, block scalars and directives are refused.
-/

namespace Intercept.Yaml

/-- A token. -/
inductive Token where
  /-- Three hyphens. -/
  | document
  /-- Three points. -/
  | documentEnd
  | openBlock
  | closeBlock
  | openFlow
  | closeFlow
  | comma
  /-- A key follows. -/
  | key
  /-- The value of a key follows. -/
  | value
  | scalar (text : String) (plain : Bool)
deriving DecidableEq, Repr

/-! ## Places -/

/-- A place in a text. -/
structure Place where
  line : Nat
  column : Nat
deriving DecidableEq, Repr

/-- The place behind a character. -/
def Place.step (p : Place) (c : Char) : Place :=
  if isBreak c then ⟨p.line + 1, 0⟩ else ⟨p.line, p.column + 1⟩

/-- The place behind some characters. -/
def Place.past (p : Place) (cs : List Char) : Place := cs.foldl Place.step p

/-- What may turn out to be a key. -/
structure Candidate where
  /-- How many tokens stand before it. -/
  position : Nat
  place : Place
  /-- Whether it can be nothing else. -/
  required : Bool
deriving DecidableEq, Repr

/-- How far a colon may be from the beginning of its key. -/
def Candidate.reach : Nat := 1024

/-- Whether a colon at this place would be too far away. -/
def Candidate.isStale (c : Candidate) (p : Place) : Bool :=
  c.place.line < p.line ∨ c.place.column + reach < p.column

/-! ## Reading tokens -/

/-- A text of which the front has been read. -/
structure Scanner where
  rest : List Char
  place : Place := ⟨0, 0⟩
  tokens : List Token := []
  /-- How deep the keys of the open block mappings stand, the innermost first. -/
  depths : List Nat := []
  candidate : Option Candidate := none
  /-- The candidates outside the open flow mappings, the innermost first. -/
  outer : List (Option Candidate) := []
  /-- Whether a key may start here. -/
  keyAllowed : Bool := true
deriving Repr

namespace Scanner

/-- Whether a flow mapping is open. -/
def inFlow (s : Scanner) : Bool := !s.outer.isEmpty

/-- Go on behind this point of the text. -/
def goTo (s : Scanner) (rest : List Char) : Scanner :=
  { s with rest, place := s.place.past (s.rest.take (s.rest.length - rest.length)) }

/-- Add a token that ends in front of the given text. -/
def emit (s : Scanner) (t : Token) (rest : List Char) : Scanner :=
  { s with tokens := s.tokens ++ [t] }.goTo rest

/-- Insert a token. -/
def insert (s : Scanner) (position : Nat) (t : Token) : Scanner :=
  { s with tokens := s.tokens.take position ++ t :: s.tokens.drop position }

/-- Open a block mapping for keys of this depth, unless one is open. -/
def openTo (s : Scanner) (depth position : Nat) : Scanner :=
  if !s.inFlow ∧ s.depths.head?.all (· < depth) then
    { s with depths := depth :: s.depths }.insert position .openBlock
  else s

/-- Close the block mappings whose keys stand too deep. -/
def close (s : Scanner) (isTooDeep : Nat → Bool) : Scanner :=
  if s.inFlow then s
  else
    { s with
      tokens := s.tokens ++ (s.depths.takeWhile isTooDeep).map fun _ => .closeBlock
      depths := s.depths.dropWhile isTooDeep }

/-! ### Candidates -/

/-- Give up a candidate, or fail if it must be a key. -/
def giveUp? : Option Candidate → Option (Option Candidate)
  | some ⟨_, _, true⟩ => none
  | _ => some none

/-- Give up the candidate. -/
def forget? (s : Scanner) : Option Scanner :=
  (giveUp? s.candidate).map fun candidate => { s with candidate }

/-- Make what starts here the candidate, if a key may start here. -/
def consider? (s : Scanner) : Option Scanner :=
  if s.keyAllowed then
    let required := !s.inFlow ∧ s.depths.head? = some s.place.column
    s.forget?.map fun s => { s with candidate := some ⟨s.tokens.length, s.place, required⟩ }
  else some s

/-- Give up the candidates that are too far away. -/
def expire? (s : Scanner) : Option Scanner := do
  let keep (c : Option Candidate) := if c.any (·.isStale s.place) then giveUp? c else some c
  return { s with candidate := ← keep s.candidate, outer := ← s.outer.mapM keep }

/-! ### Between tokens -/

/-- Where in a line the space between tokens has come to. -/
inductive Margin where
  /-- The beginning of a line, where a byte order mark is space as well. -/
  | start
  | inside
  | comment
deriving DecidableEq, Repr

/-- The character that may stand at the beginning of any line between tokens; it takes a column. -/
def byteOrderMark : Char := '\ufeff'

/-- The text behind spaces and comments, and whether a key may start there. Where a key may start,
tabs are no space; a new line lets a key start in block style. -/
def skip (flow : Bool) : Bool → Margin → List Char → Bool × List Char
  | keyAllowed, _, [] => (keyAllowed, [])
  | keyAllowed, margin, c :: cs =>
    if isBreak c then skip flow (keyAllowed || !flow) .start cs
    else if margin = .comment then skip flow keyAllowed .comment cs
    else if c = ' ' ∨ (c = '\t' ∧ (flow ∨ !keyAllowed)) ∨ (c = byteOrderMark ∧ margin = .start) then
      skip flow keyAllowed .inside cs
    else if c = '#' then skip flow keyAllowed .comment cs
    else (keyAllowed, c :: cs)

/-- Go to the next token, and close what ends in front of it. -/
def settle? (s : Scanner) : Option Scanner :=
  let margin := if s.place.column = 0 then .start else .inside
  let (keyAllowed, rest) := skip s.inFlow s.keyAllowed margin s.rest
  ({ s with keyAllowed }.goTo rest).expire?.map fun (t : Scanner) => t.close (t.place.column < ·)

/-- Close everything at the end of a document. -/
def finish? (s : Scanner) : Option Scanner := (s.close fun _ => true).forget?

/-! ### Tokens -/

/-- Read the mark of a document. -/
def mark? (s : Scanner) : Option Scanner :=
  s.finish?.map fun s =>
    { s with keyAllowed := false }.emit
      (if s.rest.take 3 = startMark then .document else .documentEnd) (s.rest.drop 3)

/-- Read an opening brace. -/
def openFlow? (s : Scanner) (rest : List Char) : Option Scanner :=
  s.consider?.map fun s =>
    { s with
      outer := s.candidate :: s.outer
      candidate := none
      keyAllowed := true }.emit .openFlow rest

/-- Read a closing brace. -/
def closeFlow? (s : Scanner) (rest : List Char) : Option Scanner :=
  s.forget?.map fun s =>
    { s with
      candidate := s.outer.head?.getD none
      outer := s.outer.tail
      keyAllowed := false }.emit .closeFlow rest

/-- Read a comma. -/
def comma? (s : Scanner) (rest : List Char) : Option Scanner :=
  s.forget?.map fun s => { s with keyAllowed := true }.emit .comma rest

/-- Whether a question mark or a colon without a candidate may stand here. -/
def takesIndicator (s : Scanner) : Bool := s.inFlow || s.keyAllowed

/-- Read the question mark in front of a key. -/
def key? (s : Scanner) (rest : List Char) : Option Scanner :=
  if s.takesIndicator then
    (s.openTo s.place.column s.tokens.length).forget?.map fun s =>
      { s with keyAllowed := !s.inFlow }.emit .key rest
  else none

/-- Read the colon behind a key. -/
def value? (s : Scanner) (rest : List Char) : Option Scanner :=
  match s.candidate with
  | some c =>
    let s := (s.insert c.position .key).openTo c.place.column c.position
    some ({ s with candidate := none, keyAllowed := false }.emit .value rest)
  | none =>
    if s.takesIndicator then
      let s := s.openTo s.place.column s.tokens.length
      some ({ s with keyAllowed := !s.inFlow }.emit .value rest)
    else none

/-- Read a scalar. -/
def scalar? (s : Scanner) : Option Scanner := do
  let s ← s.consider?
  match s.rest with
  | '"' :: _ | '\'' :: _ =>
    let (text, rest) ← quoted? s.rest
    return { s with keyAllowed := false }.emit (.scalar (String.ofList text) false) rest
  | _ =>
    if startsPlain s.inFlow s.rest then
      let (text, broken, rest) ← plain? s.inFlow ((s.depths.head?.map (· + 1)).getD 0) s.rest
      return { s with keyAllowed := broken }.emit (.scalar (String.ofList text) true) rest
    else none

/-- Read the token that starts here. -/
def token? (s : Scanner) : Option Scanner :=
  if s.place.column = 0 ∧ isMark s.rest then s.mark?
  else match s.rest with
    | '\x7b' :: rest => s.openFlow? rest
    | '\x7d' :: rest => s.closeFlow? rest
    | ',' :: rest => s.comma? rest
    | '?' :: rest => if s.inFlow ∨ atEdge rest then s.key? rest else s.scalar?
    | ':' :: rest => if s.inFlow ∨ atEdge rest then s.value? rest else s.scalar?
    | _ => s.scalar?

/-- Read all tokens. -/
def run? (s : Scanner) : Option (List Token) :=
  match s.settle? with
  | none => none
  | some t =>
    if t.rest = [] then t.finish?.map (·.tokens)
    else match t.token? with
      | none => none
      | some next => if _h : next.rest.length < s.rest.length then next.run? else none
termination_by s.rest.length

end Scanner

/-! ## Texts -/

/-- Whether a character may stand in a text at all. -/
def isAllowed (c : Char) : Bool :=
  let n := c.toNat
  c = '\t' ∨ c = '\n' ∨ c = '\r' ∨ (0x20 ≤ n ∧ n ≤ 0x7e) ∨ n = 0x85 ∨ (0xa0 ≤ n ∧ n ≤ 0xfffd) ∨
    0x10000 ≤ n

/-- The text with a line feed for every other end of a line but U+2028 and U+2029. -/
def unifyBreaks : List Char → List Char
  | '\r' :: '\n' :: cs => '\n' :: unifyBreaks cs
  | c :: cs => (if c = '\r' ∨ c = '\u0085' then '\n' else c) :: unifyBreaks cs
  | [] => []

/-- The tokens of a text. -/
def tokens? (s : String) : Option (List Token) :=
  if s.toList.all isAllowed then Scanner.run? { rest := unifyBreaks s.toList } else none

end Intercept.Yaml
