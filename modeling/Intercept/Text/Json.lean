import Intercept.Text.JsonNumber

/-!
# Intercept.Text.Json

JSON values and their text.

* `Json` keeps the members of an object in the order in which they were
  written, repeated keys included; `Json.canonical` keeps the last of each key
  and orders them by their UTF-8 bytes.
* `Json.render` writes a value without blanks. Only `"`, `\` and characters
  below U+0020 are escaped.
* `Json.parse?` reads strict JSON: no comments, no leading zeros, no trailing
  commas, nothing but blanks around the value, no lone surrogates, and fewer
  than 128 arrays and objects inside one another.
* `Json.expand?` puts the values of embedded texts in their places.
-/

namespace Intercept

/-- A JSON value. -/
inductive Json where
  | null
  | bool (b : Bool)
  | int (i : Int)
  | real (x : Binary64)
  | str (s : String)
  | arr (items : List Json)
  | obj (members : List (String × Json))
deriving Repr, BEq

namespace Json

/-! ## Canonical values -/

/-- Put a member where its key belongs, in place of one with the same key. -/
def insertMember (key : String) (value : Json) : List (String × Json) → List (String × Json)
  | [] => [(key, value)]
  | (k, v) :: rest =>
    if key = k then (key, value) :: rest
    else if key < k then (key, value) :: (k, v) :: rest
    else (k, v) :: insertMember key value rest

mutual
/-- The value with each object's keys unique and in order. -/
def canonical : Json → Json
  | arr items => arr (canonicalItems items)
  | obj members => obj (canonicalMembers [] members)
  | v => v

/-- The items in canonical form. -/
def canonicalItems : List Json → List Json
  | [] => []
  | v :: vs => v.canonical :: canonicalItems vs

/-- The members in canonical form, put into those that are there already. -/
def canonicalMembers (seen : List (String × Json)) : List (String × Json) → List (String × Json)
  | [] => seen
  | (k, v) :: rest => canonicalMembers (insertMember k v.canonical seen) rest
end

/-- The member of an object with this key, the last one if there are several. -/
def get? (key : String) : Json → Option Json
  | obj members => members.reverse.lookup key
  | _ => none

/-! ## Writing -/

/-- The lower-case hexadecimal digit of a number below sixteen. -/
def hexDigit (n : Nat) : Char := (Nat.digitChar n)

/-- A character as it stands inside quotes. -/
def escape (c : Char) : List Char :=
  if c = '"' then ['\\', '"']
  else if c = '\\' then ['\\', '\\']
  else if c = '\x08' then ['\\', 'b']
  else if c = '\x0c' then ['\\', 'f']
  else if c = '\n' then ['\\', 'n']
  else if c = '\r' then ['\\', 'r']
  else if c = '\t' then ['\\', 't']
  else if c.toNat < 32 then ['\\', 'u', '0', '0', hexDigit (c.toNat / 16), hexDigit (c.toNat % 16)]
  else [c]

/-- A string in quotes. -/
def quote (s : String) : List Char := '"' :: s.toList.flatMap escape ++ ['"']

/-- Texts with commas between them. -/
def commas : List (List Char) → List Char
  | [] => []
  | [x] => x
  | x :: xs => x ++ ',' :: commas xs

mutual
/-- The text of a value. -/
def chars : Json → List Char
  | null => "null".toList
  | bool b => (if b then "true" else "false").toList
  | int i => (toString i).toList
  | real x => (JsonNumber.render x).toList
  | str s => quote s
  | arr items => '[' :: commas (itemChars items) ++ [']']
  | obj members => '\x7b' :: commas (memberChars members) ++ ['\x7d']

/-- The texts of items. -/
def itemChars : List Json → List (List Char)
  | [] => []
  | v :: vs => v.chars :: itemChars vs

/-- The texts of members. -/
def memberChars : List (String × Json) → List (List Char)
  | [] => []
  | (k, v) :: rest => (quote k ++ ':' :: v.chars) :: memberChars rest
end

/-- The text of a value. -/
def render (v : Json) : String := String.ofList v.chars

/-! ## Reading -/

/-- The text without blanks at its front. -/
def skip : List Char → List Char
  | [] => []
  | c :: cs => if c = ' ' ∨ c = '\n' ∨ c = '\t' ∨ c = '\r' then skip cs else c :: cs

/-- The value of a hexadecimal digit of either case. -/
def hexValue? (c : Char) : Option Nat :=
  if '0' ≤ c ∧ c ≤ '9' then some (c.toNat - 48)
  else if 'a' ≤ c ∧ c ≤ 'f' then some (c.toNat - 87)
  else if 'A' ≤ c ∧ c ≤ 'F' then some (c.toNat - 55)
  else none

/-- The value of four hexadecimal digits. -/
def hex4? (a b c d : Char) : Option Nat := do
  return (((← hexValue? a) * 16 + (← hexValue? b)) * 16 + (← hexValue? c)) * 16 + (← hexValue? d)

/-- The character behind a backslash that needs no digits. -/
def unescape? (c : Char) : Option Char :=
  match c with
  | '"' => some '"'
  | '\\' => some '\\'
  | '/' => some '/'
  | 'b' => some '\x08'
  | 'f' => some '\x0c'
  | 'n' => some '\n'
  | 'r' => some '\r'
  | 't' => some '\t'
  | _ => none

/-- The characters up to the closing quote, and what follows it. -/
def string? : List Char → Option (List Char × List Char)
  | [] => none
  | '"' :: cs => some ([], cs)
  | '\\' :: 'u' :: a :: b :: c :: d :: cs =>
    match hex4? a b c d with
    | none => none
    | some n =>
      if n < 0xd800 ∨ 0xdfff < n then (string? cs).map fun r => (Char.ofNat n :: r.1, r.2)
      else if n < 0xdc00 then
        match cs with
        | '\\' :: 'u' :: e :: f :: g :: h :: cs =>
          match hex4? e f g h with
          | none => none
          | some m =>
            if 0xdc00 ≤ m ∧ m ≤ 0xdfff then
              (string? cs).map fun r =>
                (Char.ofNat (0x10000 + (n - 0xd800) * 0x400 + (m - 0xdc00)) :: r.1, r.2)
            else none
        | _ => none
      else none
  | '\\' :: c :: cs =>
    match unescape? c with
    | none => none
    | some e => (string? cs).map fun r => (e :: r.1, r.2)
  | c :: cs => if c.toNat < 32 then none else (string? cs).map fun r => (c :: r.1, r.2)

/-- What follows a word at the front of a text. -/
def after? : List Char → List Char → Option (List Char)
  | [], cs => some cs
  | _ :: _, [] => none
  | w :: ws, c :: cs => if w = c then after? ws cs else none

/-- A number at the front of a text. -/
def number? (cs : List Char) : Option (Json × List Char) :=
  (JsonNumber.read? cs).map fun
    | (.int i, rest) => (int i, rest)
    | (.real x, rest) => (real x, rest)

mutual
/-- The value at the front of a text, blanks skipped, and what follows it. Inside `depth` more
arrays or objects may open. -/
def value? : Nat → Nat → List Char → Option (Json × List Char)
  | 0, _, _ => none
  | fuel + 1, depth, cs =>
    match skip cs with
    | [] => none
    | '"' :: cs => (string? cs).map fun r => (str (String.ofList r.1), r.2)
    | '[' :: cs =>
      match depth with
      | 0 => none
      | depth + 1 =>
        match skip cs with
        | ']' :: cs => some (arr [], cs)
        | cs => (items? fuel depth cs).map fun r => (arr r.1, r.2)
    | '\x7b' :: cs =>
      match depth with
      | 0 => none
      | depth + 1 =>
        match skip cs with
        | '\x7d' :: cs => some (obj [], cs)
        | cs => (members? fuel depth cs).map fun r => (obj r.1, r.2)
    | 't' :: cs => (after? "rue".toList cs).map (bool true, ·)
    | 'f' :: cs => (after? "alse".toList cs).map (bool false, ·)
    | 'n' :: cs => (after? "ull".toList cs).map (null, ·)
    | cs => number? cs

/-- Values with commas between them, up to the closing bracket. -/
def items? : Nat → Nat → List Char → Option (List Json × List Char)
  | 0, _, _ => none
  | fuel + 1, depth, cs =>
    match value? fuel depth cs with
    | none => none
    | some (v, cs) =>
      match skip cs with
      | ']' :: cs => some ([v], cs)
      | ',' :: cs => (items? fuel depth cs).map fun r => (v :: r.1, r.2)
      | _ => none

/-- Members with commas between them, up to the closing brace. -/
def members? : Nat → Nat → List Char → Option (List (String × Json) × List Char)
  | 0, _, _ => none
  | fuel + 1, depth, cs =>
    match skip cs with
    | '"' :: cs =>
      match string? cs with
      | none => none
      | some (k, cs) =>
        match skip cs with
        | ':' :: cs =>
          match value? fuel depth cs with
          | none => none
          | some (v, cs) =>
            match skip cs with
            | '\x7d' :: cs => some ([(String.ofList k, v)], cs)
            | ',' :: cs => (members? fuel depth cs).map fun r => ((String.ofList k, v) :: r.1, r.2)
            | _ => none
        | _ => none
    | _ => none
end

/-- The value that a whole text spells, its objects as written. A chain of calls takes at most
two steps for each character. -/
def parse? (s : String) : Option Json :=
  let cs := s.toList
  match value? (2 * cs.length + 2) 127 cs with
  | some (v, rest) => if skip rest = [] then some v else none
  | none => none

/-! ## Embedded texts -/

/-- The key that marks an embedded text. -/
def embeddedKey : String := "$serde_json::private::RawValue"

/-- Whether an object stands for an embedded text: its first key says so. -/
def isEmbedding : List (String × Json) → Bool
  | [] => false
  | (key, _) :: _ => key = embeddedKey

mutual
/-- The value with the values of embedded texts in their places, as `read` reads them. The text is a
string and the only member of its object. -/
def expandWith? (read : String → Option Json) : Json → Option Json
  | arr items => (expandItems? read items).map arr
  | obj members =>
    if isEmbedding members then
      match members with
      | [(_, str s)] => read s
      | _ => none
    else (expandMembers? read members).map obj
  | v => some v

/-- The items with the values of embedded texts in their places. -/
def expandItems? (read : String → Option Json) : List Json → Option (List Json)
  | [] => some []
  | v :: vs => do return (← expandWith? read v) :: (← expandItems? read vs)

/-- The members with the values of embedded texts in their places. -/
def expandMembers? (read : String → Option Json) :
    List (String × Json) → Option (List (String × Json))
  | [] => some []
  | (k, v) :: rest => do return (k, ← expandWith? read v) :: (← expandMembers? read rest)
end

/-- The value of an embedded text. A text is longer than the texts inside it, so that its length
bounds how deep they nest. -/
def embedded? : Nat → String → Option Json
  | 0, _ => none
  | depth + 1, s => (parse? s).bind (expandWith? (embedded? depth))

/-- The value with the values of embedded texts in their places. -/
def expand? (v : Json) : Option Json := expandWith? (fun s => embedded? (s.length + 1) s) v

end Json

end Intercept
