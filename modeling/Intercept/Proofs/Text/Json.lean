import Mathlib
import Intercept.Proofs.Text.JsonNumber
import Intercept.Text.Json

/-!
# Intercept.Proofs.Text.Json

JSON values as text: what is written is read back, in front of anything that
does not go on with a number.

1. Strings: a character behind its escape (`string?_escape`), hence any text
   (`string?_escaped`).
2. Values: `Whole d` are those whose numbers are integers that a reader keeps
   exactly and that nest at most `d` levels deep. They are read back by any
   reader that may still open `d` arrays or objects and has two steps for each
   of their characters (`Whole.readsBack`), hence as a whole text
   (`parse?_render`).
-/

namespace Intercept.Json

variable {rest cs : List Char} {s : String} {v : Json} {vs : List Json} {ms : List (String × Json)}
    {d fuel : Nat}

/-! ## strings -/

/-- What reading one more character makes of what is read behind it. -/
def pushed (c : Char) (r : List Char × List Char) : List Char × List Char := (c :: r.1, r.2)

/-- A character without an escape stands for itself. -/
theorem string?_of_plain {c : Char} (hquote : c ≠ '"') (hslash : c ≠ '\\') (hlow : ¬c.toNat < 32) :
    string? (c :: cs) = (string? cs).map (pushed c) := by
  rw [string?, if_neg hlow]
  · rfl
  · exact fun h => hquote h
  · rintro _ _ _ _ _ rfl -
    exact hslash rfl
  · rintro _ _ rfl -
    exact hslash rfl

/-- A short escape stands for its character. -/
theorem string?_of_short {a c : Char} (ha : a ≠ 'u') (h : unescape? a = some c) :
    string? ('\\' :: a :: cs) = (string? cs).map (pushed c) := by
  rw [string?, h]
  · rfl
  · rintro _ _ _ _ _ rfl -
    exact ha rfl

/-- A hexadecimal digit is read as what it was written for. -/
theorem hexValue?_hexDigit : ∀ n < 16, hexValue? (hexDigit n) = some n := by decide

/-- A control character is read back from its two hexadecimal digits. -/
theorem string?_of_control {c : Char} (hlow : c.toNat < 32) :
    string?
        ('\\' :: 'u' :: '0' :: '0' :: hexDigit (c.toNat / 16) :: hexDigit (c.toNat % 16) :: cs) =
      (string? cs).map (pushed c) := by
  have hzero : hexValue? '0' = some 0 := by decide
  have hhigh := hexValue?_hexDigit (c.toNat / 16) (by omega)
  have hrest := hexValue?_hexDigit (c.toNat % 16) (by omega)
  have hhex : hex4? '0' '0' (hexDigit (c.toNat / 16)) (hexDigit (c.toNat % 16)) = some c.toNat := by
    simp only [hex4?, hzero, hhigh, hrest, Option.bind_eq_bind, Option.bind_some, Option.pure_def]
    congr 1
    omega
  have hchar : c.toNat < 0xd800 ∨ 0xdfff < c.toNat := .inl (by omega)
  rw [string?, hhex]
  simp only [if_pos hchar, Char.ofNat_toNat]
  rfl

/-- A character is read back from its escape. -/
theorem string?_escape (c : Char) (cs : List Char) :
    string? (escape c ++ cs) = (string? cs).map (pushed c) := by
  by_cases hshort : c ∈ ['"', '\\', '\x08', '\x0c', '\n', '\r', '\t']
  · fin_cases hshort <;> exact string?_of_short (by decide) rfl
  · simp only [List.mem_cons, List.not_mem_nil, or_false, not_or] at hshort
    obtain ⟨hquote, hslash, hb, hf, hn, hr, ht⟩ := hshort
    simp only [escape, hquote, hslash, hb, hf, hn, hr, ht, if_false]
    split
    · next hlow => exact string?_of_control hlow
    · next hlow => exact string?_of_plain hquote hslash hlow

theorem quote_append (s : String) (cs : List Char) :
    quote s ++ cs = '"' :: (s.toList.flatMap escape ++ '"' :: cs) := by
  simp [quote]

/-- An escaped text is read back up to its quote. -/
theorem string?_escaped (s cs : List Char) :
    string? (s.flatMap escape ++ '"' :: cs) = some (s, cs) := by
  induction s with
  | nil => simp [string?]
  | cons c s ih => rw [List.flatMap_cons, List.append_assoc, string?_escape, ih]; rfl

/-! ## values -/

/-- All numbers of the value are integers that are kept exactly, and at most `d` arrays and objects
stand inside one another. -/
inductive Whole : Nat → Json → Prop
  | null {d : Nat} : Whole d null
  | bool {d : Nat} (b : Bool) : Whole d (bool b)
  | int {d : Nat} {i : Int} (low : -2 ^ 63 ≤ i) (high : i < 2 ^ 64) : Whole d (int i)
  | str {d : Nat} (s : String) : Whole d (str s)
  | arr {d : Nat} {items : List Json} (h : ∀ v ∈ items, Whole d v) : Whole (d + 1) (arr items)
  | obj {d : Nat} {members : List (String × Json)} (h : ∀ m ∈ members, Whole d m.2) :
      Whole (d + 1) (obj members)

/-- The value is read back where `d` more arrays or objects may open. -/
def ReadsBack (d : Nat) (v : Json) : Prop :=
  ∀ fuel rest, 2 * v.chars.length ≤ fuel → JsonNumber.Ends rest →
    value? (fuel + 1) d (v.chars ++ rest) = some (v, rest)

/-- Whether no text of a value starts with this character: a blank, or the end of an array. -/
def isGap (c : Char) : Bool := c = ' ' ∨ c = '\n' ∨ c = '\t' ∨ c = '\r' ∨ c = ']'

/-- A number does not begin with a gap. -/
theorem isGap_of_leads {c : Char} (hc : c.isDigit = true ∨ c = '-') : isGap c = false := by
  rw [isGap, decide_eq_false_iff_not]
  rintro (rfl | rfl | rfl | rfl | rfl) <;> simp at hc

theorem exists_chars_eq_cons (h : Whole d v) : ∃ c cs, v.chars = c :: cs ∧ isGap c = false := by
  cases h with
  | null => exact ⟨'n', _, rfl, rfl⟩
  | bool b => cases b <;> exact ⟨_, _, rfl, by decide⟩
  | int low high =>
    obtain ⟨c, cs, hcs, hc⟩ := JsonNumber.exists_toString_eq_cons _
    exact ⟨c, cs, hcs, isGap_of_leads hc⟩
  | str s => exact ⟨'"', _, rfl, rfl⟩
  | arr h => exact ⟨'[', _, rfl, rfl⟩
  | obj h => exact ⟨'\x7b', _, rfl, rfl⟩

theorem skip_of_not_gap {c : Char} (h : isGap c = false) : skip (c :: cs) = c :: cs := by
  simp only [isGap, decide_eq_false_iff_not, not_or] at h
  obtain ⟨hspace, hline, htab, hreturn, -⟩ := h
  simp [skip, hspace, hline, htab, hreturn]

/-- A digit or a minus begins a number. -/
theorem value?_of_leads {c : Char} (hc : c.isDigit = true ∨ c = '-') :
    value? (fuel + 1) d (c :: cs) = number? (c :: cs) := by
  have hskip : skip (c :: cs) = c :: cs := skip_of_not_gap (isGap_of_leads hc)
  rw [value?, hskip]
  split <;> simp_all

/-- An integer in range is read back. -/
theorem readsBack_int {i : Int} (low : -2 ^ 63 ≤ i) (high : i < 2 ^ 64) : ReadsBack d (int i) := by
  intro fuel rest hfuel hrest
  obtain ⟨c, cs, hcs, hc⟩ := JsonNumber.exists_toString_eq_cons i
  have hchars : (int i).chars ++ rest = c :: (cs ++ rest) := by rw [chars, hcs]; rfl
  have hread := JsonNumber.read?_toString low high hrest
  rw [hchars, value?_of_leads hc, ← hchars, number?, chars, hread]
  rfl

theorem readsBack_str (s : String) : ReadsBack d (str s) := by
  intro fuel rest hfuel hrest
  have hread := string?_escaped s.toList rest
  rw [chars, quote_append]
  simp [value?, skip, hread]

/-- The marks between and behind values. -/
def isMark (c : Char) : Bool := c = ',' ∨ c = ']' ∨ c = '\x7d' ∨ c = ':' ∨ c = '"'

/-- A comma or a bracket ends a number. -/
theorem ends_of_mark {c : Char} (hc : isMark c = true) : JsonNumber.Ends (c :: cs) := by
  rintro _ ⟨⟩
  rcases of_decide_eq_true hc with rfl | rfl | rfl | rfl | rfl <;> decide

theorem skip_of_mark {c : Char} (hc : isMark c = true) : skip (c :: cs) = c :: cs := by
  rcases of_decide_eq_true hc with rfl | rfl | rfl | rfl | rfl <;> rfl

theorem commas_cons (x y : List Char) (zs : List (List Char)) :
    commas (x :: y :: zs) = x ++ ',' :: commas (y :: zs) := rfl

/-- Items are read back up to the closing bracket. -/
theorem items?_commas (rest : List Char) (hvs : ∀ w ∈ v :: vs, ReadsBack d w)
    (hfuel : 2 * (commas (itemChars (v :: vs))).length ≤ fuel) :
    items? (fuel + 2) d (commas (itemChars (v :: vs)) ++ ']' :: rest) = some (v :: vs, rest) := by
  induction vs generalizing v fuel with
  | nil =>
    have hread := hvs v List.mem_cons_self fuel (']' :: rest) hfuel (ends_of_mark rfl)
    simp (disch := decide) only [itemChars, commas, items?, hread, skip_of_mark]
  | cons w vs ih =>
    obtain ⟨hv, hvs⟩ := List.forall_mem_cons.mp hvs
    have hcommas :
        commas (itemChars (v :: w :: vs)) = v.chars ++ ',' :: commas (itemChars (w :: vs)) :=
      commas_cons ..
    rw [hcommas, List.length_append, List.length_cons] at hfuel
    obtain ⟨fuel, rfl⟩ : ∃ f, fuel = f + 1 := ⟨fuel - 1, by omega⟩
    have hread :=
      hv (fuel + 1) (',' :: (commas (itemChars (w :: vs)) ++ ']' :: rest)) (by omega)
        (ends_of_mark rfl)
    have htail : 2 * (commas (itemChars (w :: vs))).length ≤ fuel := by omega
    rw [hcommas, List.append_assoc, List.cons_append, items?, hread]
    simp (disch := decide) only [skip_of_mark, ih hvs htail, Option.map_some]

/-- The last member of an object is read before its bracket. -/
theorem members?_last {k : String} (hv : ReadsBack d v) (hfuel : 2 * v.chars.length ≤ fuel) :
    members? (fuel + 2) d (quote k ++ ':' :: v.chars ++ '\x7d' :: rest) =
      some ([(k, v)], rest) := by
  have hvalue := hv fuel ('\x7d' :: rest) hfuel (ends_of_mark rfl)
  simp (disch := decide) only [List.append_assoc, List.cons_append, quote_append, members?,
    skip_of_mark, string?_escaped, hvalue, String.ofList_toList]

/-- Any other is read before a comma. -/
theorem members?_next {k : String} (hv : ReadsBack d v) (hfuel : 2 * v.chars.length ≤ fuel) :
    members? (fuel + 2) d (quote k ++ ':' :: v.chars ++ ',' :: rest) =
      (members? (fuel + 1) d rest).map fun r => ((k, v) :: r.1, r.2) := by
  have hvalue := hv fuel (',' :: rest) hfuel (ends_of_mark rfl)
  simp (disch := decide) only [List.append_assoc, List.cons_append, quote_append, members?,
    skip_of_mark, string?_escaped, hvalue, String.ofList_toList]

/-- Members are read back up to the closing brace. -/
theorem members?_commas {k : String} (rest : List Char) (hms : ∀ m ∈ (k, v) :: ms, ReadsBack d m.2)
    (hfuel : 2 * (commas (memberChars ((k, v) :: ms))).length ≤ fuel) :
    members? (fuel + 2) d (commas (memberChars ((k, v) :: ms)) ++ '\x7d' :: rest) =
      some ((k, v) :: ms, rest) := by
  induction ms generalizing k v fuel with
  | nil =>
    have hv : ReadsBack d v := hms (k, v) List.mem_cons_self
    simp only [memberChars, commas, List.length_append, List.length_cons] at hfuel ⊢
    exact members?_last hv (by omega)
  | cons m ms ih =>
    obtain ⟨l, w⟩ := m
    obtain ⟨hv : ReadsBack d v, hms⟩ := List.forall_mem_cons.mp hms
    have hcommas : commas (memberChars ((k, v) :: (l, w) :: ms)) =
        quote k ++ ':' :: v.chars ++ ',' :: commas (memberChars ((l, w) :: ms)) := commas_cons ..
    rw [hcommas, List.length_append, List.length_append, List.length_cons,
      List.length_cons] at hfuel
    obtain ⟨fuel, rfl⟩ : ∃ f, fuel = f + 1 := ⟨fuel - 1, by omega⟩
    have htail : 2 * (commas (memberChars ((l, w) :: ms))).length ≤ fuel := by omega
    rw [hcommas, List.append_assoc, List.cons_append, members?_next hv (by omega), ih hms htail,
      Option.map_some]

/-- A bracket before anything but a gap begins the items of an array. -/
theorem value?_of_items {c : Char} (hc : isGap c = false) :
    value? (fuel + 1) (d + 1) ('[' :: c :: cs) =
      (items? fuel d (c :: cs)).map fun r => (arr r.1, r.2) := by
  have hclose : c ≠ ']' := by rintro rfl; cases hc
  rw [value?, skip_of_not_gap (by decide)]
  simp only [skip_of_not_gap hc]
  split
  · next h => exact absurd (List.cons.inj h).1 hclose
  · rfl

/-- A brace before a quote begins the members of an object. -/
theorem value?_of_members :
    value? (fuel + 1) (d + 1) ('\x7b' :: '"' :: cs) =
      (members? fuel d ('"' :: cs)).map fun r => (obj r.1, r.2) := rfl

/-- Items begin as the first of them does, which is without a gap. -/
theorem exists_commas_eq_cons (h : Whole d v) (vs : List Json) :
    ∃ c cs, commas (itemChars (v :: vs)) = c :: cs ∧ isGap c = false := by
  obtain ⟨c, cs, hcs, hc⟩ := exists_chars_eq_cons h
  cases vs with
  | nil => exact ⟨c, cs, hcs, hc⟩
  | cons w vs => exact ⟨c, _, by rw [itemChars, itemChars, commas_cons, hcs]; rfl, hc⟩

/-- An array is read back one level further down than its items. -/
theorem readsBack_arr (hvs : ∀ w ∈ vs, Whole d w) (hread : ∀ w ∈ vs, ReadsBack d w) :
    ReadsBack (d + 1) (arr vs) := by
  intro fuel rest hfuel hrest
  cases vs with
  | nil => rfl
  | cons w vs =>
    have hlength : (arr (w :: vs)).chars.length = (commas (itemChars (w :: vs))).length + 2 := by
      simp [chars]
    obtain ⟨fuel, rfl⟩ : ∃ f, fuel = f + 2 := ⟨fuel - 2, by omega⟩
    have hfit : 2 * (commas (itemChars (w :: vs))).length ≤ fuel := by omega
    have hitems := items?_commas rest hread hfit
    obtain ⟨c, cs, hcs, hc⟩ := exists_commas_eq_cons (hvs w List.mem_cons_self) vs
    have hchars : (arr (w :: vs)).chars ++ rest = '[' :: c :: (cs ++ ']' :: rest) := by
      simp [chars, hcs]
    rw [hcs, List.cons_append] at hitems
    rw [hchars, value?_of_items hc, hitems, Option.map_some]

/-- Members begin with a quote. -/
theorem exists_commas_eq_quote (ms : List (String × Json)) (m : String × Json) :
    ∃ cs, commas (memberChars (m :: ms)) = '"' :: cs := by
  cases ms with
  | nil => exact ⟨_, rfl⟩
  | cons n ms => exact ⟨_, rfl⟩

/-- An object is read back one level further down than its values. -/
theorem readsBack_obj (hread : ∀ m ∈ ms, ReadsBack d m.2) : ReadsBack (d + 1) (obj ms) := by
  intro fuel rest hfuel hrest
  cases ms with
  | nil => rfl
  | cons m ms =>
    obtain ⟨k, v⟩ := m
    have hlength :
        (obj ((k, v) :: ms)).chars.length = (commas (memberChars ((k, v) :: ms))).length + 2 := by
      simp [chars]
    obtain ⟨fuel, rfl⟩ : ∃ f, fuel = f + 2 := ⟨fuel - 2, by omega⟩
    have hfit : 2 * (commas (memberChars ((k, v) :: ms))).length ≤ fuel := by omega
    have hmembers := members?_commas rest hread hfit
    obtain ⟨cs, hcs⟩ := exists_commas_eq_quote ms (k, v)
    have hchars : (obj ((k, v) :: ms)).chars ++ rest = '\x7b' :: '"' :: (cs ++ '\x7d' :: rest) := by
      simp [chars, hcs]
    rw [hcs, List.cons_append] at hmembers
    rw [hchars, value?_of_members, hmembers, Option.map_some]

/-- What is written is read back where as many levels may open as the value has. -/
theorem Whole.readsBack (h : Whole d v) : ReadsBack d v := by
  induction h with
  | null => intro fuel rest hfuel hrest; rfl
  | bool b => intro fuel rest hfuel hrest; cases b <;> rfl
  | int low high => exact readsBack_int low high
  | str s => exact readsBack_str s
  | arr h ih => exact readsBack_arr h ih
  | obj h ih => exact readsBack_obj ih

/-- A whole text is read back as the value that it was written for. -/
theorem parse?_render (h : Whole 127 v) : parse? v.render = some v := by
  have hread := h.readsBack (2 * v.chars.length + 1) [] (by omega) nofun
  rw [List.append_nil] at hread
  simp only [parse?, render, String.toList_ofList, hread, skip, if_true]

end Intercept.Json
