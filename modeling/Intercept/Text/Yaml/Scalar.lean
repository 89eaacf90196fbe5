import Intercept.Text.Json

/-!
# Intercept.Text.Yaml.Scalar

Scalars of YAML, plain or in quotes, and the blanks between their words.

1. A line ends with a line feed, U+2028 or U+2029; whatever else ends a line
   has been made a line feed before.
2. Between two words on one line blanks stay. Between two lines the blanks
   vanish and the line ends are folded: a single line feed becomes a blank, the
   first of several vanishes, and U+2028 and U+2029 stay.
3. A plain scalar ends in front of a colon with an edge behind it, a comment,
   a line that is not deep enough, and in flow style in front of brackets and
   commas.
4. In single quotes a quote is written twice. In double quotes a backslash
   escapes what follows it, also the end of a line.
-/

namespace Intercept.Yaml

/-! ## Characters -/

/-- A blank inside a line. -/
def isBlank (c : Char) : Bool := c = ' ' ∨ c = '\t'

/-- The end of a line. -/
def isBreak (c : Char) : Bool := c = '\n' ∨ c = '\u2028' ∨ c = '\u2029'

/-- A blank or the end of a line. -/
def isSpace (c : Char) : Bool := isBlank c || isBreak c

/-- Whether a text begins with a space or is over. -/
def atEdge : List Char → Bool
  | [] => true
  | c :: _ => isSpace c

/-- What brackets and separates in flow style. -/
def isFlowMark (c : Char) : Bool := [',', '[', ']', '\x7b', '\x7d'].contains c

/-- The mark in front of a document. -/
def startMark : List Char := ['-', '-', '-']

/-- The mark behind a document. -/
def endMark : List Char := ['.', '.', '.']

/-- Whether a line begins with the mark of a document. -/
def isMark (cs : List Char) : Bool :=
  (cs.take 3 = startMark ∨ cs.take 3 = endMark) ∧ atEdge (cs.drop 3)

/-! ## Gaps -/

/-- The space between two words: blanks, then line ends, each with the blanks behind it. -/
structure Gap where
  blanks : List Char := []
  lines : List (Char × List Char) := []
deriving DecidableEq, Repr

/-- The space at the front of a text, and what follows it. -/
def gap : List Char → Gap × List Char
  | [] => ({}, [])
  | c :: cs =>
    if isBlank c then ({ (gap cs).1 with blanks := c :: (gap cs).1.blanks }, (gap cs).2)
    else if isBreak c then ({ lines := (c, (gap cs).1.blanks) :: (gap cs).1.lines }, (gap cs).2)
    else ({}, c :: cs)

theorem length_gap_le (cs : List Char) : (gap cs).2.length ≤ cs.length := by
  induction cs with
  | nil => exact Nat.le_refl _
  | cons c cs ih =>
    unfold gap
    split
    · exact Nat.le_succ_of_le ih
    · split
      · exact Nat.le_succ_of_le ih
      · exact Nat.le_refl _

theorem length_gap_lt {c : Char} (h : isSpace c = true) (cs : List Char) :
    (gap (c :: cs)).2.length < (c :: cs).length := by
  unfold gap
  split
  · exact Nat.lt_succ_of_le (length_gap_le cs)
  · split
    · exact Nat.lt_succ_of_le (length_gap_le cs)
    · simp_all [isSpace]

namespace Gap

/-- Whether a gap ends a line. -/
def isBroken (g : Gap) : Bool := !g.lines.isEmpty

/-- What a gap contributes to a scalar. -/
def text (g : Gap) : List Char :=
  match g.lines.map (·.1) with
  | [] => g.blanks
  | ['\n'] => [' ']
  | '\n' :: others => others
  | breaks => breaks

/-- What a gap contributes if the end of its first line is escaped. -/
def escapedText (g : Gap) : List Char := (g.lines.drop 1).map (·.1)

/-- How deep the line behind a gap begins, if it begins there. -/
def depth? (g : Gap) : Option Nat := g.lines.getLast?.map (·.2.length)

/-- Whether a tab stands on one of the lines where blanks should lead to a depth. -/
def isTabbed (g : Gap) (depth : Nat) : Bool :=
  g.lines.any fun line => (line.2.take depth).contains '\t'

/-- Whether the text behind a gap is the mark of a document. -/
def meetsMark (g : Gap) (cs : List Char) : Bool := g.depth? = some 0 ∧ isMark cs

end Gap

/-! ## Plain scalars -/

/-- Whether a plain scalar may start here. -/
def startsPlain (flow : Bool) : List Char → Bool
  | [] => false
  | c :: cs =>
    if isSpace c ∨ isFlowMark c ∨
        ['#', '&', '*', '!', '|', '>', '\'', '"', '%', '@', '\x60'].contains c then false
    else if c = '-' then !atEdge cs
    else if c = '?' ∨ c = ':' then !flow && !atEdge cs
    else true

/-- A word of a plain scalar, and what follows it. In flow style no word holds a colon in front of
one of its marks or a question mark. -/
def word? (flow : Bool) : List Char → Option (List Char × List Char)
  | [] => some ([], [])
  | c :: cs =>
    if isSpace c then some ([], c :: cs)
    else if flow ∧ c = ':' ∧ cs.head?.any fun d => d = '?' ∨ isFlowMark d then none
    else if (c = ':' ∧ atEdge cs) ∨ (flow ∧ isFlowMark c) then some ([], c :: cs)
    else (word? flow cs).map fun r => (c :: r.1, r.2)

theorem length_word?_le {flow : Bool} {cs w rest : List Char} (h : word? flow cs = some (w, rest)) :
    rest.length ≤ cs.length := by
  induction cs generalizing w rest with
  | nil => simp_all [word?]
  | cons c cs ih =>
    simp only [word?] at h
    repeat' split at h
    · simp_all
    · simp_all
    · simp_all
    · simp only [Option.map_eq_some_iff, Prod.mk.injEq, Prod.exists] at h
      obtain ⟨a, b, hab, -, rfl⟩ := h
      have := ih hab
      simp only [List.length_cons]
      omega

/-- A plain scalar at the front of a text, whether a line has ended behind it, and what follows.
Its lines stand at this depth at least, except in flow style. -/
def plain? (flow : Bool) (depth : Nat) (cs : List Char) : Option (List Char × Bool × List Char) :=
  match _hw : word? flow cs with
  | none => none
  | some (w, rest) =>
    let g := (gap rest).1
    let behind := (gap rest).2
    if g.isTabbed depth then none
    else if behind.head? = some '#' ∨ g.meetsMark behind ∨ (!flow ∧ g.depth?.any (· < depth)) then
      some (w, g.isBroken, behind)
    else if _hl : (gap rest).2.length < rest.length then
      match plain? flow depth (gap rest).2 with
      | none => none
      | some ([], _, rest) => some (w, g.isBroken, rest)
      | some (more, broken, rest) => some (w ++ g.text ++ more, broken, rest)
    else some (w, false, rest)
termination_by cs.length
decreasing_by
  have := length_word?_le _hw
  omega

/-! ## Quoted scalars -/

/-- The characters up to the closing single quote, and what follows it. -/
def single? (cs : List Char) : Option (List Char × List Char) :=
  match cs with
  | [] => none
  | '\'' :: '\'' :: cs => (single? cs).map fun r => ('\'' :: r.1, r.2)
  | '\'' :: cs => some ([], cs)
  | c :: cs =>
    if _h : isSpace c then
      let (g, rest) := gap (c :: cs)
      if g.meetsMark rest then none
      else (single? (gap (c :: cs)).2).map fun r => (g.text ++ r.1, r.2)
    else (single? cs).map fun r => (c :: r.1, r.2)
termination_by cs.length
decreasing_by
  · simp only [List.length_cons]; omega
  · exact length_gap_lt _h cs
  · simp

/-- The character behind a backslash that takes no digits. -/
def escape? (c : Char) : Option Char :=
  [('0', '\x00'), ('a', '\x07'), ('b', '\x08'), ('t', '\t'), ('\t', '\t'), ('n', '\n'),
    ('v', '\x0b'), ('f', '\x0c'),
    ('r', '\r'), ('e', '\x1b'), (' ', ' '), ('"', '"'), ('/', '/'), ('\\', '\\'), ('N', '\u0085'),
    ('_', '\u00a0'), ('L', '\u2028'), ('P', '\u2029')].lookup c

/-- How many digits an escape takes. -/
def escapeDigits (c : Char) : Nat :=
  if c = 'x' then 2 else if c = 'u' then 4 else if c = 'U' then 8 else 0

/-- The character that hexadecimal digits spell. -/
def ofHex? (ds : List Char) : Option Char := do
  let n ← ds.foldlM (fun n d => do return n * 16 + (← Json.hexValue? d)) 0
  if n.isValidChar then some (Char.ofNat n) else none

/-- What the text behind a backslash spells; `c` is its first character. -/
def escaped? (c : Char) (cs : List Char) : Option Char :=
  let n := escapeDigits c
  if n = 0 then escape? c else if cs.length < n then none else ofHex? (cs.take n)

/-- The characters up to the closing double quote, and what follows it. -/
def double? (cs : List Char) : Option (List Char × List Char) :=
  match cs with
  | [] => none
  | '"' :: cs => some ([], cs)
  | '\\' :: [] => none
  | '\\' :: c :: cs =>
    if _h : isBreak c then
      let (g, rest) := gap (c :: cs)
      if g.meetsMark rest then none
      else (double? (gap (c :: cs)).2).map fun r => (g.escapedText ++ r.1, r.2)
    else
      match escaped? c cs with
      | none => none
      | some d => (double? (cs.drop (escapeDigits c))).map fun r => (d :: r.1, r.2)
  | c :: cs =>
    if _h : isSpace c then
      let (g, rest) := gap (c :: cs)
      if g.meetsMark rest then none
      else (double? (gap (c :: cs)).2).map fun r => (g.text ++ r.1, r.2)
    else (double? cs).map fun r => (c :: r.1, r.2)
termination_by cs.length
decreasing_by
  · have := length_gap_le (c :: cs)
    simp only [List.length_cons] at *
    omega
  · simp only [List.length_cons, List.length_drop]; omega
  · exact length_gap_lt _h cs
  · simp

/-- A quoted scalar at the front of a text, and what follows it. -/
def quoted? : List Char → Option (List Char × List Char)
  | '\'' :: cs => single? cs
  | '"' :: cs => double? cs
  | _ => none

end Intercept.Yaml
