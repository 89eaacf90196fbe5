import Intercept.Interest.Basic
import Intercept.Text.JsonShape

/-!
# Intercept.Interest.Reader

Interests as JSON. Choices and records are written as
`Intercept.Text.JsonShape` says; what is refused is refused as a whole.
-/

namespace Intercept

/-- A kind of packets. -/
def InterestKind.ofJson? (j : Json) : Option InterestKind := do
  match ← j.content? with
  | ("net", v) => return .net (← PacketType.ofName? (← v.unit?))
  | ("tank", v) => return .tank (← TankType.ofName? (← v.unit?))
  | _ => none

/-- A row selector. -/
def RowSelector.ofJson? (j : Json) : Option RowSelector := do
  match ← j.content? with
  | ("key", v) => return .key (← v.text?)
  | ("key_any", v) => return .keyAny (← v.text?)
  | ("index", v) => return .index (← v.natBelow? 64)
  | _ => none

/-- A column selector. -/
def ColSelector.ofJson? (j : Json) : Option ColSelector := do
  match ← j.content? with
  | ("absolute", v) => return .absolute (← v.natBelow? 64)
  | ("relative", v) => return .relative (← v.intIn? Int64.minValue.toInt Int64.maxValue.toInt)
  | _ => none

/-- A field; the object of a cell may hold other members beside its two selectors. -/
def Field.ofJson? (j : Json) : Option Field := do
  match ← j.content? with
  | ("tank", v) => return .tank (← TankField.ofName? (← v.unit?))
  | ("variant", v) => return .variant (← v.natBelow? 64)
  | ("table", .obj members) =>
    return .table (← RowSelector.ofJson? (← members.lookup "row"))
      (← ColSelector.ofJson? (← members.lookup "col"))
  | _ => none

/-- A literal. -/
def Literal.ofJson? (j : Json) : Option Literal := do
  match ← j.content? with
  | ("u32", v) => return .u32 (← v.word?)
  | ("i32", v) => return .i32 (Int32.ofInt (← v.intIn? Int32.minValue.toInt Int32.maxValue.toInt))
  | ("f32", v) => return .f32 (← v.single?)
  | ("str", v) => return .str (← v.text?)
  | ("bytes", v) => return .bytes ((← (← v.list?).mapM (·.natBelow? 8)).map UInt8.ofNat)
  | ("vec2", .arr [x, y]) => return .vec2 (← x.single?) (← y.single?)
  | ("vec3", .arr [x, y, z]) => return .vec3 (← x.single?) (← y.single?) (← z.single?)
  | _ => none

/-- A clause: field, operator, literal and, if there is one, tolerance. -/
def Clause.ofJson? (j : Json) : Option Clause := do
  match ← j.record? ["field", "op", "value", "eps"] with
  | [some field, some op, some value, eps] =>
    let eps ← match eps with
      | none | some .null => some none
      | some v => (v.single?).map some
    return ⟨← Field.ofJson? field, ← Op.ofName? (← op.unit?), ← Literal.ofJson? value, eps⟩
  | _ => none

/-- An interest. -/
def Interest.ofJson? (j : Json) : Option Interest := do
  match ← j.record? ["id", "kind", "priority", "blocking", "direction", "predicate"] with
  | [some id, some kind, priority, blocking, direction, predicate] =>
    return {
      id := ← id.word?
      kind := ← InterestKind.ofJson? kind
      priority := ← Json.orDefault 0 (·.intIn? Int32.minValue.toInt Int32.maxValue.toInt) priority
      blocking := ← Json.orDefault .block (fun v => do Blocking.ofName? (← v.unit?)) blocking
      direction :=
        ← Json.orDefault .unspecified (fun v => do Direction.ofName? (← v.unit?)) direction
      predicate := ← Json.orDefault [] (fun v => do (← v.list?).mapM Clause.ofJson?) predicate }
  | _ => none

namespace Interest

/-- The interests that a JSON value spells. -/
def readAll (j : Json) : Except Fault (List Interest) :=
  match j.canonical.list?.bind (·.mapM Interest.ofJson?) with
  | some is => .ok is
  | none => .error (.badRequest "invalid interests")

/-- The interests that a JSON value spells, if they break no rule. -/
def compile (j : Json) : Except Fault (List Interest) := do
  let is ← readAll j
  check is
  return is

end Interest

end Intercept
