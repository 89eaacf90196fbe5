/-!
# Intercept.Broker.Metrics

What the broker counts, and the text in which it tells.

1. A sample is known by its labels whatever their order, and starts at zero.
2. Counters wrap at `2 ^ 64`, gauges at `2 ^ 63`.
3. The buckets of a histogram are cumulative: each counts the observations of
   at most its limit, in microseconds. One observation counts for at most
   `2 ^ 64 - 1` microseconds.
4. In the text the families stand in one fixed order, and within a label value
   the backslash, the quote and the line break are escaped.
-/

namespace Intercept

/-! ## Samples -/

/-- Names and values that tell the samples of a family apart, in order. -/
abbrev Labels := List (String × String)

namespace Labels

/-- Whether one label stands no later than another. -/
def precedes (a b : String × String) : Bool := ¬(b.1 < a.1 ∨ (b.1 = a.1 ∧ b.2 < a.2))

/-- The labels in order. -/
def ofList (labels : List (String × String)) : Labels := labels.mergeSort precedes

/-- One character of a label value. -/
def escapeChar : Char → List Char
  | '\\' => ['\\', '\\']
  | '"' => ['\\', '"']
  | '\n' => ['\\', 'n']
  | c => [c]

/-- A label value as the text has it. -/
def escape (value : String) : String := String.ofList (value.toList.flatMap escapeChar)

/-- The labels as the text has them. -/
def render (labels : Labels) : String :=
  ",".intercalate (labels.map fun (name, value) => name ++ "=\"" ++ escape value ++ "\"")

end Labels

/-- A value for each key that has been touched. -/
abbrev Tally (κ α : Type) := List (κ × α)

namespace Tally

variable {κ α : Type} [DecidableEq κ]

/-- The value of a key, or `zero` if it has never been touched. -/
def get (t : Tally κ α) (zero : α) (key : κ) : α := (t.find? (·.1 = key)).elim zero (·.2)

/-- Change the value of a key, starting from `zero`. -/
def adjust (zero : α) (key : κ) (f : α → α) : Tally κ α → Tally κ α
  | [] => [(key, f zero)]
  | (k, a) :: rest => if k = key then (k, f a) :: rest else (k, a) :: adjust zero key f rest

theorem get_adjust (t : Tally κ α) (zero : α) (key key' : κ) (f : α → α) :
    (adjust zero key f t).get zero key' =
      if key = key' then f (t.get zero key) else t.get zero key' := by
  induction t with
  | nil => by_cases h : key = key' <;> simp [adjust, get, h]
  | cons entry rest ih =>
    obtain ⟨k, a⟩ := entry
    by_cases hk : k = key
    · by_cases h : key = key' <;> simp_all [adjust, get]
    · by_cases hk' : k = key'
      · have : key ≠ key' := fun e => hk (hk'.trans e.symm)
        simp_all [adjust, get]
      · simp_all [adjust, get]

end Tally

/-! ## Families -/

/-- What is counted. -/
inductive Counter where
  | chainsStarted
  /-- Label `outcome`: how chains end. -/
  | chainOutcomes
  /-- Label `op`: accepted answers. -/
  | directives
  | hopTimeouts
  | disconnectFallbacks
  /-- Label `reason`: refused answers. -/
  | rejectedDirectives
  /-- Label `layer`: packets that do not decode. -/
  | decodeErrors
  | observerDeliveries
  /-- Label `source`: packets sent outside any chain. -/
  | injectedPackets
  /-- Label `code`: refused extensions. -/
  | handshakeRejections
deriving DecidableEq, Repr

namespace Counter

/-- Every counter. -/
def all : List Counter :=
  [chainsStarted, chainOutcomes, directives, hopTimeouts, disconnectFallbacks, rejectedDirectives,
    decodeErrors, observerDeliveries, injectedPackets, handshakeRejections]

/-- The name of a counter, without what all names have in common. -/
def name : Counter → String
  | chainsStarted => "chains_started"
  | chainOutcomes => "chain_outcomes"
  | directives => "directives"
  | hopTimeouts => "hop_timeouts"
  | disconnectFallbacks => "disconnect_fallbacks"
  | rejectedDirectives => "rejected_directives"
  | decodeErrors => "decode_errors"
  | observerDeliveries => "fire_and_forget_deliveries"
  | injectedPackets => "injected_packets"
  | handshakeRejections => "handshake_rejections"

/-- The counter of this name. -/
def ofName? (s : String) : Option Counter := all.find? (·.name = s)

end Counter

/-- Durations, counted by limits. -/
structure Histogram where
  count : UInt64 := 0
  /-- Microseconds of all observations together. -/
  sum : UInt64 := 0
  /-- For each limit, the observations that are within it. -/
  buckets : List UInt64 := List.replicate 10 0
deriving DecidableEq, Repr

namespace Histogram

/-- The limits of the buckets in microseconds, from 100 µs to 5 s. -/
def limits : List Nat := [100, 500, 1000, 5000, 10000, 50000, 100000, 500000, 1000000, 5000000]

/-- Add one duration. -/
def observe (h : Histogram) (micros : Nat) : Histogram :=
  let micros := min micros (UInt64.size - 1)
  { count := h.count + 1
    sum := h.sum + UInt64.ofNat micros
    buckets := List.zipWith (fun limit n => if micros ≤ limit then n + 1 else n) limits h.buckets }

end Histogram

/-- Everything that is counted. -/
structure Metrics where
  counters : Tally (Counter × Labels) UInt64 := []
  extensionsConnected : Tally Labels Int64 := []
  chainDuration : Tally Labels Histogram := []
  /-- Whether the endpoint tells that it is about to stop. -/
  draining : Bool := false
deriving DecidableEq, Repr

namespace Metrics

/-- The value of a counter. -/
def count (m : Metrics) (c : Counter) (labels : List (String × String)) : UInt64 :=
  m.counters.get 0 (c, Labels.ofList labels)

/-- Add to a counter. -/
def add (m : Metrics) (c : Counter) (labels : List (String × String)) (n : UInt64) : Metrics :=
  { m with counters := m.counters.adjust 0 (c, Labels.ofList labels) (· + n) }

/-- The number of connected extensions. -/
def connected (m : Metrics) (labels : List (String × String)) : Int64 :=
  m.extensionsConnected.get 0 (Labels.ofList labels)

/-- Add to the number of connected extensions. -/
def addConnected (m : Metrics) (labels : List (String × String)) (n : Int64) : Metrics :=
  { m with extensionsConnected := m.extensionsConnected.adjust 0 (Labels.ofList labels) (· + n) }

/-- The durations of chains. -/
def durations (m : Metrics) (labels : List (String × String)) : Histogram :=
  m.chainDuration.get {} (Labels.ofList labels)

/-- Add the duration of a chain. -/
def observe (m : Metrics) (labels : List (String × String)) (micros : Nat) : Metrics :=
  { m with chainDuration := m.chainDuration.adjust {} (Labels.ofList labels) (·.observe micros) }

/-! ## The text -/

/-- One sample. -/
def sampleLine (name : String) (labels : String) (value : String) : String :=
  name ++ "\x7b" ++ labels ++ "\x7d " ++ value

/-- The line that announces a family. -/
def typeLine (name type : String) : String := "# TYPE " ++ name ++ " " ++ type

/-- The lines of a counter. -/
def counterLines (m : Metrics) (c : Counter) : List String :=
  let name := s!"gtproxy_{c.name}_total"
  typeLine name "counter" ::
    (m.counters.filter (·.1.1 = c)).map fun ((_, labels), n) =>
      sampleLine name labels.render (toString n)

/-- The lines of the number of connected extensions. -/
def connectedLines (m : Metrics) : List String :=
  let name := "gtproxy_extensions_connected"
  typeLine name "gauge" ::
    m.extensionsConnected.map fun (labels, n) => sampleLine name labels.render (toString n.toInt)

/-- The lines of the durations under one set of labels. -/
def histogramLines (name : String) (labels : Labels) (h : Histogram) : List String :=
  let own := labels.render
  let limit (le : String) := (if own.isEmpty then "" else own ++ ",") ++ "le=\"" ++ le ++ "\""
  List.zipWith (fun le n => sampleLine (name ++ "_bucket") (limit (toString le)) (toString n))
      Histogram.limits h.buckets ++
    [sampleLine (name ++ "_bucket") (limit "+Inf") (toString h.count),
      sampleLine (name ++ "_sum") own (toString h.sum),
      sampleLine (name ++ "_count") own (toString h.count)]

/-- The lines of the durations of chains. -/
def durationLines (m : Metrics) : List String :=
  let name := "gtproxy_chain_duration_micros"
  typeLine name "histogram" ::
    m.chainDuration.flatMap fun (labels, h) => histogramLines name labels h

/-- All families with their lines, in order. -/
def families (m : Metrics) : List (List String) :=
  (Counter.all.dropLast.map m.counterLines) ++
    [m.connectedLines, m.counterLines .handshakeRejections, m.durationLines]

/-- The lines that come last: whether the endpoint is about to stop, and what the caller adds. -/
def lastLines (m : Metrics) (extra : List (String × Nat)) : List String :=
  typeLine "gtproxy_draining" "gauge" :: ("gtproxy_draining " ++ if m.draining then "1" else "0") ::
    extra.map fun (name, n) => name ++ " " ++ toString n

/-- The text. -/
def render (m : Metrics) (extra : List (String × Nat)) : String :=
  String.join ((m.families.flatten ++ m.lastLines extra).map (· ++ "\n"))

end Metrics

end Intercept
