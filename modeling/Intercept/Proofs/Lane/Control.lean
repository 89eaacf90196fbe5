import Mathlib
import Intercept.Lane.Message
import Intercept.Proofs.Text.Json
import Intercept.Proofs.Text.Embedded

/-!
# Intercept.Proofs.Lane.Control

Control messages as texts of the socket: which of them are read back.

1. A message `Fits` if its interests are a JSON value as a program holds one:
   integers in range, keys in order, and room for one more level around it.
   The text of such a message is read back as its JSON object.
2. From that object comes the message again (`ofJson?_toJson`), but for its
   interests, which are expanded on the way (`ofJson?_capabilityResponse`). So
   a message is read back unless its interests have an object that stands for
   an embedded text (`decode_ofControl_iff`).
-/

namespace Intercept.Control

variable {m : Control}

/-- The interests of the message, if it has any, can be held and written: integers in range, keys
that ascend, at most 126 levels. -/
def Fits : Control → Prop
  | capabilityResponse interests => interests.Whole 126 ∧ interests.Ordered
  | _ => True

/-- An object in the interests of the message starts with the key of embedded texts. -/
def Embeds : Control → Prop
  | capabilityResponse interests => interests.Embeds
  | _ => False

/-- A message that fits is a JSON value that is read back. -/
theorem whole_toJson (h : m.Fits) : m.toJson.Whole 127 := by
  refine .obj (List.forall_mem_cons.mpr ⟨.str _, ?_⟩)
  cases m with
  | handshake v name =>
    have hv : v.toNat < 256 := v.toNat_lt
    have hint : (Json.int v.toNat).Whole 126 := .int (by omega) (by omega)
    simp [fields, hint, Json.Whole.str]
  | capabilityResponse interests => simpa [fields] using h.1
  | error code msg => simp [fields, Json.Whole.str]
  | capabilityRequest | connected | disconnect => simp [fields]

/-- A message without interests is read from its object. -/
theorem ofJson?_toJson (hm : ∀ interests, m ≠ capabilityResponse interests) :
    ofJson? m.toJson = some m := by
  cases m with
  | handshake v name =>
    have hv : v.toNat ≤ 255 := Nat.le_of_lt_succ v.toNat_lt
    have hread : ofJson? (handshake v name).toJson =
        if (0 : Int) ≤ v.toNat ∧ (v.toNat : Int) ≤ 255 then
          some (handshake (UInt8.ofNat (v.toNat : Int).toNat) name)
        else none := rfl
    rw [hread, if_pos (by omega), Int.toNat_natCast, UInt8.ofNat_toNat]
  | capabilityResponse interests => exact absurd rfl (hm interests)
  | error code msg => rfl
  | capabilityRequest | connected | disconnect => rfl

/-- Interests are expanded when they are read. -/
theorem ofJson?_capabilityResponse (interests : Json) :
    ofJson? (capabilityResponse interests).toJson =
    (interests.expand?.map Json.canonical).map capabilityResponse := by
  have hread : ofJson? (capabilityResponse interests).toJson =
      interests.expand?.bind fun v => some (capabilityResponse v.canonical) := rfl
  rw [hread]
  cases interests.expand? <;> rfl

/-- The text of a message that fits is read as its JSON object. -/
theorem decode_encode (h : m.Fits) :
    decode m.encode =
      (ofJson? m.toJson).elim (.error (.badRequest "invalid control json")) .ok := by
  rw [decode, encode, Json.parse?_render (whole_toJson h), Option.bind_some]
  cases ofJson? m.toJson <;> rfl

/-- It is read back if and only if it comes from that object again. -/
theorem decode_encode_iff (h : m.Fits) : decode m.encode = .ok m ↔ ofJson? m.toJson = some m := by
  rw [decode_encode h]
  cases ofJson? m.toJson <;> simp

/-- It does so unless its interests embed a text. -/
theorem ofJson?_iff (h : m.Fits) : ofJson? m.toJson = some m ↔ ¬m.Embeds := by
  cases m with
  | capabilityResponse interests =>
    simp only [ofJson?_capabilityResponse, Embeds, ← h.2.expand?_iff, Option.map_eq_some_iff,
      capabilityResponse.injEq, exists_eq_right]
  | handshake | error | capabilityRequest | connected | disconnect => simp [ofJson?_toJson, Embeds]

/-- No two messages have one object. -/
theorem toJson_inj {n : Control} (h : m.toJson = n.toJson) : m = n := by
  cases m <;> cases n <;> simp_all [toJson, type, fields, UInt8.toNat_inj]

/-- Messages are told apart by their texts. -/
theorem encode_inj {n : Control} (hm : m.Fits) (hn : n.Fits) : m.encode = n.encode ↔ m = n := by
  constructor
  · intro h
    have hparse := Json.parse?_render (whole_toJson hm)
    rw [← encode, h, encode, Json.parse?_render (whole_toJson hn)] at hparse
    exact (toJson_inj (Option.some.inj hparse)).symm
  · rintro rfl
    rfl

/-- A message that fits is read back from its text if and only if no object in its interests starts
with the key of embedded texts; and the text of a disconnect is written for nothing else. -/
theorem decode_ofControl_iff (h : m.Fits) :
    (Message.decode (.ofControl m) = .ok (.control m) ↔ ¬m.Embeds) ∧
      (m.encode = "\x7b\"type\":\"disconnect\"\x7d" ↔ m = disconnect) := by
  have htext : disconnect.encode = "\x7b\"type\":\"disconnect\"\x7d" := by rfl
  refine ⟨?_, htext ▸ encode_inj h trivial⟩
  rw [← ofJson?_iff h, ← decode_encode_iff h, Message.ofControl, Message.decode]
  cases decode m.encode <;> simp [Except.map]

/-- Interests at both ends of the integers, with the key of embedded texts behind another one. -/
def innerKey : Json :=
  .obj [("", .arr [.int (-9223372036854775808), .int 18446744073709551615, .null]),
    (Json.embeddedKey, .str "\"\\\n\x01é"), ("a", .obj [])]

/-- An object with the key of embedded texts behind another key fits. -/
theorem fits_innerKey : (capabilityResponse innerKey).Fits := by
  constructor
  · have hlow : (Json.int (-9223372036854775808)).Whole 124 := .int (by decide) (by decide)
    have hhigh : (Json.int 18446744073709551615).Whole 124 := .int (by decide) (by decide)
    refine .obj (List.forall_mem_cons.mpr ⟨.arr ?_, List.forall_mem_cons.mpr ⟨.str _, ?_⟩⟩)
    · simp [hlow, hhigh, Json.Whole.null]
    · simp only [List.mem_singleton, forall_eq]
      exact .obj nofun
  · refine .obj (by decide +kernel) (List.forall_mem_cons.mpr ⟨.arr ?_,
      List.forall_mem_cons.mpr ⟨.str _, ?_⟩⟩)
    · simp [Json.Ordered.int, Json.Ordered.null]
    · simp only [List.mem_singleton, forall_eq]
      exact .obj .nil nofun

/-- A key does no harm behind another one. -/
theorem decode_ofControl_innerKey : (capabilityResponse innerKey).Fits ∧
    Message.decode (.ofControl (capabilityResponse innerKey)) =
      .ok (.control (capabilityResponse innerKey)) := by
  have hplain : ¬innerKey.Embeds := fits_innerKey.2.expand?_iff.mp (by rfl)
  exact ⟨fits_innerKey, (decode_ofControl_iff fits_innerKey).1.mpr hplain⟩

/-- Interests that start with the key of embedded texts, though that key was not the first when they
were read. -/
def leadingKey : Json := .obj [(Json.embeddedKey, .str "[1]"), ("a", .int 1)]

/-- Interests can be held and written that are refused when they are read back. -/
theorem decode_ofControl_leadingKey : (capabilityResponse leadingKey).Fits ∧
    Message.decode (.ofControl (capabilityResponse leadingKey)) =
      .error (.badRequest "invalid control json") := by
  have hint : (Json.int 1).Whole 125 := .int (by decide) (by decide)
  have hwhole : leadingKey.Whole 126 := .obj (by simp [hint, Json.Whole.str])
  have hordered : leadingKey.Ordered :=
    .obj (by decide +kernel) (by simp [Json.Ordered.int, Json.Ordered.str])
  have hfits : (capabilityResponse leadingKey).Fits := ⟨hwhole, hordered⟩
  refine ⟨hfits, ?_⟩
  rw [Message.ofControl, Message.decode, decode_encode hfits]
  rfl

end Intercept.Control
