import Intercept.Fault
import Intercept.Text.Yaml
import Intercept.Wire.Mode

/-!
# Intercept.Settings

What an operator may set, in a YAML document of version 1 with two sections.

1. Every key is optional but `version`; unknown and repeated keys are refused.
2. The version is judged before the limits, and the limits in one fixed
   order, so that of several faults the first is reported.
-/

namespace Intercept

/-- The answer given in the place of an extension that cannot give one. -/
inductive Fallback where
  | pass
  | cancel
deriving DecidableEq, Repr

namespace Fallback

/-- The spelling of a fallback. -/
def name : Fallback → String
  | pass => "pass"
  | cancel => "cancel"

/-- The fallback with this spelling. -/
def ofName? (s : String) : Option Fallback := [pass, cancel].find? (·.name = s)

end Fallback

/-- How packets are handled. -/
structure BrokerSettings where
  /-- Where the endpoint listens. -/
  listen : String := "127.0.0.1:6712"
  /-- How long one extension may hold a packet, in milliseconds. -/
  chainTimeout : Nat := 5000
  onTimeout : Fallback := .pass
  onDisconnect : Fallback := .pass
  decodeMode : DecodeMode := .relaxed
  /-- How many frames wait for one extension at most. -/
  outboundQueue : Nat := 1024
  /-- How long an observer's answer is awaited, in milliseconds. -/
  observerTtl : Nat := 30000
deriving DecidableEq, Repr

/-- How sessions of extensions are kept. -/
structure SessionSettings where
  /-- Milliseconds between two pings. -/
  pingInterval : Nat := 20000
  /-- Milliseconds of silence after which a session ends. -/
  idleTimeout : Nat := 60000
  /-- Milliseconds within which an extension has to introduce itself. -/
  handshakeTimeout : Nat := 5000
deriving DecidableEq, Repr

/-- All settings. -/
structure Settings where
  version : Nat := 1
  broker : BrokerSettings := {}
  sessions : SessionSettings := {}
deriving DecidableEq, Repr

/-! ## Limits -/

/-- Which limit a setting breaks. -/
inductive SettingDefect where
  | chainTimeout
  | outboundQueue
  | observerTtl
  | pingInterval
  | idleTimeout
  | idleBelowPing
  | handshakeTimeout
deriving DecidableEq, Repr

/-- The wording of a broken limit. -/
def SettingDefect.message : SettingDefect → String
  | chainTimeout => "broker.chain_timeout_ms must be between 10 and 600000"
  | outboundQueue => "broker.outbound_queue must be between 1 and 65536"
  | observerTtl => "broker.fire_and_forget_ttl_ms must not be less than chain_timeout_ms"
  | pingInterval => "extensions.ping_interval_ms must be between 5000 and 120000"
  | idleTimeout => "extensions.idle_timeout_ms must be between 10000 and 600000"
  | idleBelowPing => "extensions.idle_timeout_ms must be greater than ping_interval_ms"
  | handshakeTimeout => "extensions.handshake_timeout_ms must be positive"

/-- The first limit that the broker's settings break. -/
def BrokerSettings.defect? (s : BrokerSettings) : Option SettingDefect :=
  if ¬(10 ≤ s.chainTimeout ∧ s.chainTimeout ≤ 600000) then some .chainTimeout
  else if ¬(1 ≤ s.outboundQueue ∧ s.outboundQueue ≤ 65536) then some .outboundQueue
  else if s.observerTtl < s.chainTimeout then some .observerTtl
  else none

/-- The first limit that the session settings break. -/
def SessionSettings.defect? (s : SessionSettings) : Option SettingDefect :=
  if ¬(5000 ≤ s.pingInterval ∧ s.pingInterval ≤ 120000) then some .pingInterval
  else if ¬(10000 ≤ s.idleTimeout ∧ s.idleTimeout ≤ 600000) then some .idleTimeout
  else if s.idleTimeout ≤ s.pingInterval then some .idleBelowPing
  else if s.handshakeTimeout = 0 then some .handshakeTimeout
  else none

namespace Settings

/-- Judge the version, then the limits. -/
def check (s : Settings) : Except Fault Settings :=
  if s.version ≠ 1 then .error .unsupportedVersion
  else match s.broker.defect?.or s.sessions.defect? with
    | some defect => .error (.badRequest defect.message)
    | none => .ok s

/-! ## Reading -/

/-- Whether some key stands twice. -/
def repeats : List String → Bool
  | [] => false
  | k :: ks => ks.contains k || repeats ks

/-- Read the members of a mapping one after another into a record; a repeated key is refused. -/
def readMembers (put : α → String → Yaml → Option α) (start : α) (node : Yaml) : Option α := do
  let members ← node.members
  if repeats (members.map (·.1)) then none
  members.foldlM (fun a (key, value) => put a key value) start

/-- Put one setting of the broker's section. -/
def putBroker (s : BrokerSettings) (key : String) (value : Yaml) : Option BrokerSettings :=
  match key with
  | "listen" => do return { s with listen := ← value.text? }
  | "chain_timeout_ms" => do return { s with chainTimeout := ← value.nat? }
  | "on_timeout" => do return { s with onTimeout := ← Fallback.ofName? (← value.text?) }
  | "on_disconnect" => do return { s with onDisconnect := ← Fallback.ofName? (← value.text?) }
  | "decode_mode" => do return { s with decodeMode := ← DecodeMode.ofName? (← value.text?) }
  | "outbound_queue" => do return { s with outboundQueue := ← value.nat? }
  | "fire_and_forget_ttl_ms" => do return { s with observerTtl := ← value.nat? }
  | _ => none

/-- Put one setting of the session section. -/
def putSessions (s : SessionSettings) (key : String) (value : Yaml) : Option SessionSettings :=
  match key with
  | "ping_interval_ms" => do return { s with pingInterval := ← value.nat? }
  | "idle_timeout_ms" => do return { s with idleTimeout := ← value.nat? }
  | "handshake_timeout_ms" => do return { s with handshakeTimeout := ← value.nat? }
  | _ => none

/-- Put one member of the document; the version is below `2 ^ 32`. -/
def putSection (s : Settings) (key : String) (value : Yaml) : Option Settings :=
  match key with
  | "version" => do
    let v ← value.nat?
    if v < UInt32.size then some { s with version := v } else none
  | "broker" => do return { s with broker := ← readMembers putBroker {} value }
  | "extensions" => do return { s with sessions := ← readMembers putSessions {} value }
  | _ => none

/-- The settings that a document spells, before any limit is judged. -/
def ofYaml? (node : Yaml) : Option Settings := do
  let members ← node.members
  if !(members.map (·.1)).contains "version" then none
  readMembers putSection {} node

/-- The settings of a text. -/
def load (text : String) : Except Fault Settings :=
  match (Yaml.parse? text).bind ofYaml? with
  | some s => s.check
  | none => .error (.badRequest "invalid yaml")

end Settings

end Intercept
