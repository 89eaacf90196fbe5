import Mathlib
import Intercept.Proofs.Wire.RoundTrip

/-!
# Intercept.Proofs.Wire.Leniency

What the relaxed mode lets pass that the strict one refuses: a surplus behind
the declared tail, and nothing else.

```
tag | written t | surplus | last      read as t in the relaxed mode, refused in the strict one
tag | written t | last                the same `shortened`, read as t in both
```

Each rule of `Verdict` but the two on the length of the tail is one rule for
both modes, so what one mode says is carried over rule by rule, first for
bodies and then for messages.
-/

namespace Intercept

namespace Tank

variable {body : Bytes} {t : Tank} {e : CodecError}

/-- What the strict mode reads the relaxed one reads alike. -/
theorem decode_relaxed_of_ok (h : decode .strict body = .ok t) : decode .relaxed body = .ok t := by
  obtain ⟨surplus, hbody, hdeclared, -⟩ := decode_eq_ok.mp h
  exact decode_eq_ok.mpr ⟨surplus, hbody, hdeclared, nofun⟩

/-- What is refused for another reason than its length is refused in either mode. -/
theorem decode_relaxed_of_error (h : decode .strict body = .error e)
    (he : ∀ declared actual, e ≠ .extendedLenMismatch declared actual) :
    decode .relaxed body = .error e := by
  cases verdict_iff.mpr h with
  | noStruct hs => exact verdict_iff.mp (.noStruct hs)
  | unknownType hs htype => exact verdict_iff.mp (.unknownType hs htype)
  | otherLength => exact absurd rfl (he _ _)
  | shortTail _ _ hmode => cases hmode

/-- A body that is refused for its length alone. -/
theorem of_extendedLenMismatch {declared actual : Nat}
    (h : decode .strict body = .error (.extendedLenMismatch declared actual)) :
    56 ≤ body.length ∧ body.wordAt 0 1 ≤ 46 ∧ declared = body.wordAt 52 4 ∧
      actual = body.length - 56 ∧ declared ≠ actual := by
  cases verdict_iff.mpr h with
  | otherLength hs htype _ hlength => exact ⟨hs, htype, rfl, rfl, hlength⟩

/-- A tail that is too short is refused by both, for what it is in each. -/
theorem decode_relaxed_of_short {declared actual : Nat}
    (h : decode .strict body = .error (.extendedLenMismatch declared actual))
    (hshort : actual < declared) :
    decode .relaxed body = .error (.truncatedExtendedData declared actual) := by
  obtain ⟨hs, htype, rfl, rfl, -⟩ := of_extendedLenMismatch h
  exact verdict_iff.mp (.shortTail hs htype rfl hshort)

/-- A surplus is let pass, and is as long as the lengths differ. -/
theorem exists_surplus {declared actual : Nat}
    (h : decode .strict body = .error (.extendedLenMismatch declared actual))
    (hlong : ¬actual < declared) :
    ∃ t, decode .relaxed body = .ok t ∧ declared = t.tail.length ∧ actual = body.length - 56 := by
  obtain ⟨hs, htype, rfl, rfl, -⟩ := of_extendedLenMismatch h
  have hrelaxed := verdict_decode .relaxed body
  generalize hr : decode .relaxed body = r at hrelaxed
  cases hrelaxed with
  | noStruct hnone => omega
  | unknownType _ hnone => omega
  | otherLength _ _ hmode => cases hmode
  | shortTail _ _ _ hshort => exact absurd hshort hlong
  | packet =>
      obtain ⟨surplus, hbody, hdeclared, -⟩ := decode_eq_ok.mp hr
      exact ⟨_, rfl, by rw [hbody, wordAt_declared hdeclared], rfl⟩

end Tank

namespace Packet

variable {b : Bytes} {p : Packet} {e : CodecError}

/-- The bytes without the last `k` in front of the last byte. -/
def shortened (b : Bytes) (k : Nat) : Bytes := b.take (b.length - 1 - k) ++ b.drop (b.length - 1)

/-- Shortening an envelope takes the surplus from its body. -/
theorem shortened_enveloped (type : PacketType) (body surplus : Bytes) (last : UInt8) :
    shortened (enveloped type (body ++ surplus) last) surplus.length =
      enveloped type body last := by
  have hsplit : enveloped type (body ++ surplus) last =
      (toLittle 4 type.tag ++ body) ++ surplus ++ [last] := by
    simp only [enveloped, List.append_assoc]
  have hlength : (enveloped type (body ++ surplus) last).length - 1 =
      (toLittle 4 type.tag ++ body).length + surplus.length := by
    rw [hsplit, List.length_append, List.length_append, List.length_singleton, Nat.add_sub_cancel]
  rw [shortened, hlength, Nat.add_sub_cancel, hsplit, List.append_assoc _ surplus, List.take_left,
    ← List.append_assoc, ← List.length_append, List.drop_left, enveloped]

/-! ## one mode and the other -/

theorem decode_relaxed_of_ok (h : decode .strict b = .ok p) : decode .relaxed b = .ok p := by
  cases verdict_iff.mpr h with
  | tank hlength htag hbody =>
      have hrelaxed := Tank.decode_relaxed_of_ok (Tank.verdict_iff.mp hbody)
      exact verdict_iff.mp (.tank hlength htag (Tank.verdict_iff.mpr hrelaxed))
  | table hlength htag htype => exact verdict_iff.mp (.table hlength htag htype)
  | empty hlength htag htype => exact verdict_iff.mp (.empty hlength htag htype)

theorem decode_relaxed_of_error (h : decode .strict b = .error e)
    (he : ∀ declared actual, e ≠ .extendedLenMismatch declared actual) :
    decode .relaxed b = .error e := by
  cases verdict_iff.mpr h with
  | noTag hlength => exact verdict_iff.mp (.noTag hlength)
  | unknownType hlength htag => exact verdict_iff.mp (.unknownType hlength htag)
  | noTank hlength htag hbody =>
      have hrelaxed := Tank.decode_relaxed_of_error (Tank.verdict_iff.mp hbody) he
      exact verdict_iff.mp (.noTank hlength htag (Tank.verdict_iff.mpr hrelaxed))

theorem decode_relaxed_of_short {declared actual : Nat}
    (h : decode .strict b = .error (.extendedLenMismatch declared actual))
    (hshort : actual < declared) :
    decode .relaxed b = .error (.truncatedExtendedData declared actual) := by
  cases verdict_iff.mpr h with
  | noTank hlength htag hbody =>
      have hrelaxed := Tank.decode_relaxed_of_short (Tank.verdict_iff.mp hbody) hshort
      exact verdict_iff.mp (.noTank hlength htag (Tank.verdict_iff.mpr hrelaxed))

/-- What is let pass is read as the strict mode reads it once the surplus is gone. -/
theorem decode_shortened {declared actual : Nat}
    (h : decode .strict b = .error (.extendedLenMismatch declared actual))
    (hlong : ¬actual < declared) :
    ∃ p, decode .relaxed b = .ok p ∧ decode .strict (shortened b (actual - declared)) = .ok p := by
  cases verdict_iff.mpr h with
  | noTank hlength htag hbody =>
      obtain ⟨t, ht, hdeclared, hactual⟩ := Tank.exists_surplus (Tank.verdict_iff.mp hbody) hlong
      have hrelaxed : decode .relaxed b = .ok ⟨.tankPacket, .tank t⟩ :=
        verdict_iff.mp (.tank hlength htag (Tank.verdict_iff.mpr ht))
      obtain ⟨surplus, last, hb, hfits, -⟩ := enveloped_of_decode hrelaxed
      have hsurplus : actual - declared = surplus.length := by
        rw [hactual, hdeclared, hb, bodyOf_enveloped, List.length_append, Tank.length_written,
          Tank.structLength]
        omega
      refine ⟨_, hrelaxed, ?_⟩
      rw [hsurplus, hb, shortened_enveloped, decode_enveloped, decodePayload_tank,
        Tank.decode_written hfits]
      rfl

/-- The relaxed mode reads what the strict one reads, and refuses what it refuses for the same
reason, but for a tail that is not as long as declared: a shorter one is refused as cut off, and a
longer one is read without its surplus. -/
theorem relaxed_of_strict (b : Bytes) :
    (∀ p, decode .strict b = .ok p → decode .relaxed b = .ok p) ∧
    (∀ e, decode .strict b = .error e →
      (∀ declared actual, e ≠ .extendedLenMismatch declared actual) →
        decode .relaxed b = .error e) ∧
    ∀ declared actual, decode .strict b = .error (.extendedLenMismatch declared actual) →
      (actual < declared →
        decode .relaxed b = .error (.truncatedExtendedData declared actual)) ∧
      (¬actual < declared →
        ∃ p, decode .relaxed b = .ok p ∧
          decode .strict (shortened b (actual - declared)) = .ok p) :=
  ⟨fun _ => decode_relaxed_of_ok, fun _ => decode_relaxed_of_error,
    fun _ _ h => ⟨decode_relaxed_of_short h, decode_shortened h⟩⟩

/-- Two bytes behind a tail of three are too many for the strict mode alone. -/
theorem relaxed_past_a_surplus : decode .strict loose = .error (.extendedLenMismatch 3 5) ∧
    ∃ p, decode .relaxed loose = .ok p ∧ decode .strict (shortened loose 2) = .ok p := by
  have h : decode .strict loose = .error (.extendedLenMismatch 3 5) := by rfl
  exact ⟨h, ((relaxed_of_strict loose).2.2 3 5 h).2 (by decide)⟩

end Packet

end Intercept
