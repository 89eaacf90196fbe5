import Intercept.Wire.Variant

/-!
# Intercept.Proofs.Wire.Reader

What the small readers take from the front of the bytes, told twice.

1. `_eq_ok` lemmas: a reader answers with a value and a rest exactly when the
   bytes are that value's encoding in front of that rest. This serves both
   directions of a round trip.
2. `Takes r n`: wherever there are `n` bytes, `r` takes exactly `n` and does
   not fail. It adds up along a sequence of readers (`Takes.bind`), so one
   look at the length answers for all the reads that follow.
-/

namespace Intercept

namespace Reader

variable {α β : Type} {r : Reader α} {f : α → Reader β} {s rest : Bytes}

/-! ## one after the other -/

/-- A reader behind another goes on with what that leaves. -/
theorem bind_of_ok {a : α} (h : r s = .ok (a, rest)) : (r >>= f) s = f a rest := by
  simp only [bind, StateT.bind, h, Except.bind]

/-- If the first fails, so do both. -/
theorem bind_of_error {e : CodecError} (h : r s = .error e) : (r >>= f) s = .error e := by
  simp only [bind, StateT.bind, h, Except.bind]

/-- Both answer if and only if the first answers and the second does so on the rest. -/
theorem bind_eq_ok {b : β} :
    (r >>= f) s = .ok (b, rest) ↔ ∃ a t, r s = .ok (a, t) ∧ f a t = .ok (b, rest) := by
  constructor
  · intro h
    cases hr : r s with
    | error e => rw [bind_of_error hr] at h; cases h
    | ok p =>
        rw [bind_of_ok hr] at h
        exact ⟨p.1, p.2, rfl, h⟩
  · rintro ⟨a, t, hr, hf⟩
    rw [bind_of_ok hr, hf]

/-- They fail if and only if one of them does. -/
theorem bind_eq_error {e : CodecError} :
    (r >>= f) s = .error e ↔ r s = .error e ∨ ∃ a t, r s = .ok (a, t) ∧ f a t = .error e := by
  cases hr : r s with
  | error err => simp [bind_of_error hr]
  | ok p =>
      obtain ⟨a, t⟩ := p
      simp only [bind_of_ok hr, reduceCtorEq, false_or, Except.ok.injEq, Prod.mk.injEq]
      exact ⟨fun h => ⟨a, t, ⟨rfl, rfl⟩, h⟩, by rintro ⟨_, _, ⟨rfl, rfl⟩, h⟩; exact h⟩

theorem pure_eq_ok {a b : α} : (pure a : Reader α) s = .ok (b, rest) ↔ a = b ∧ s = rest := by
  have h : (pure a : Reader α) s = .ok (a, s) := rfl
  rw [h, Except.ok.injEq, Prod.mk.injEq]

/-! ## what a reader answers with -/

/-- So many bytes are taken if they are there. -/
theorem take_eq_ok {n : Nat} {a : Bytes} :
    take n s = .ok (a, rest) ↔ s = a ++ rest ∧ a.length = n := by
  rw [take]
  by_cases h : n ≤ s.length
  · simp only [if_pos h, Except.ok.injEq, Prod.mk.injEq]
    constructor
    · rintro ⟨rfl, rfl⟩
      exact ⟨(List.take_append_drop n s).symm, List.length_take_of_le h⟩
    · rintro ⟨rfl, rfl⟩
      simp
  · simp only [if_neg h, reduceCtorEq, false_iff]
    rintro ⟨rfl, rfl⟩
    simp at h

/-- A word is read exactly where its bytes stand. -/
theorem word_eq_ok {e : Endian} {w n : Nat} :
    word e w s = .ok (n, rest) ↔ s = e.encode w n ++ rest ∧ n < wordCount w := by
  constructor
  · intro h
    cases ht : take w s with
    | error err => simp only [word, ht, reduceCtorEq] at h
    | ok p =>
        simp only [word, ht, Except.ok.injEq, Prod.mk.injEq] at h
        obtain ⟨rfl, rfl⟩ := h
        obtain ⟨hs, hlength⟩ := take_eq_ok.mp ht
        subst hlength
        exact ⟨by rw [Endian.encode_decode, hs], e.decode_lt p.1⟩
  · rintro ⟨rfl, hn⟩
    have ht : take w (e.encode w n ++ rest) = .ok (e.encode w n, rest) :=
      take_eq_ok.mpr ⟨rfl, e.length_encode w n⟩
    simp only [word, ht, Endian.decode_encode, Nat.mod_eq_of_lt hn]

/-- A word of one byte is that byte. -/
theorem word_one_eq_ok {e : Endian} {n : Nat} :
    word e 1 s = .ok (n, rest) ↔ ∃ b : UInt8, n = b.toNat ∧ s = b :: rest := by
  rw [word_eq_ok]
  constructor
  · rintro ⟨rfl, hn⟩
    have hmod : n % 256 = n := Nat.mod_eq_of_lt hn
    refine ⟨UInt8.ofNat n, (UInt8.toNat_ofNat_of_lt' hn).symm, ?_⟩
    cases e <;> simp [Endian.encode, toLittle, hmod]
  · rintro ⟨b, rfl, rfl⟩
    refine ⟨?_, b.toNat_lt⟩
    cases e <;> simp [Endian.encode, toLittle]

/-- A byte is read if there is one. -/
theorem byte_eq_ok {b : UInt8} : byte s = .ok (b, rest) ↔ s = b :: rest := by
  simp only [byte, bind_eq_ok, word_one_eq_ok, pure_eq_ok]
  constructor
  · rintro ⟨n, t, ⟨c, rfl, rfl⟩, hb, rfl⟩
    rw [← hb, UInt8.ofNat_toNat]
  · rintro rfl
    exact ⟨b.toNat, rest, ⟨b, rfl, rfl⟩, UInt8.ofNat_toNat, rfl⟩

/-- A word is read from its four bytes, the lowest first. -/
theorem uint_eq_ok {n : UInt32} : uint s = .ok (n, rest) ↔ s = toLittle 4 n.toNat ++ rest := by
  simp only [uint, bind_eq_ok, word_eq_ok, pure_eq_ok]
  constructor
  · rintro ⟨k, t, ⟨rfl, hk⟩, rfl, rfl⟩
    rw [UInt32.toNat_ofNat_of_lt' hk]
    rfl
  · rintro rfl
    exact ⟨n.toNat, rest, ⟨rfl, n.toNat_lt⟩, by simp⟩

theorem int_eq_ok {i : Int32} :
    int s = .ok (i, rest) ↔ s = toLittle 4 i.toUInt32.toNat ++ rest := by
  simp only [int, bind_eq_ok, uint_eq_ok, pure_eq_ok]
  constructor
  · rintro ⟨n, t, rfl, rfl, rfl⟩
    rw [UInt32.toUInt32_toInt32]
  · rintro rfl
    exact ⟨i.toUInt32, rest, rfl, by simp⟩

theorem readFloat_eq_ok {x : Binary32} :
    Value.readFloat s = .ok (x, rest) ↔ s = toLittle 4 x.bits.toNat ++ rest := by
  have hread : Value.readFloat = uint >>= fun n => pure ⟨n⟩ := by
    simp [Value.readFloat, uint]
  simp only [hread, bind_eq_ok, uint_eq_ok, pure_eq_ok]
  constructor
  · rintro ⟨n, t, rfl, rfl, rfl⟩
    rfl
  · rintro rfl
    exact ⟨x.bits, rest, rfl, rfl, rfl⟩

/-- The word at an offset, read where the bytes in front of it have been taken. -/
theorem word_drop {w offset : Nat} (h : offset + w ≤ s.length) :
    word .little w (s.drop offset) = .ok (s.wordAt offset w, s.drop (offset + w)) := by
  have hw : w ≤ (s.drop offset).length := by rw [List.length_drop]; omega
  rw [word, take, if_pos hw, List.drop_drop]
  rfl

/-! ## how much a reader takes -/

/-- Wherever there are `n` bytes, the reader takes just these. -/
def Takes (r : Reader α) (n : Nat) : Prop :=
  ∀ s : Bytes, n ≤ s.length → ∃ a, r s = .ok (a, s.drop n)

theorem takes_pure (a : α) : Takes (pure a : Reader α) 0 := fun _ _ => ⟨a, rfl⟩

/-- A sequence of readers takes what they take together. -/
theorem Takes.bind {n k : Nat} (hr : r.Takes n) (hn : n ≤ k) (hf : ∀ a, (f a).Takes (k - n)) :
    (r >>= f).Takes k := by
  intro s hs
  obtain ⟨a, ha⟩ := hr s (by omega)
  obtain ⟨b, hb⟩ := hf a (s.drop n) (by rw [List.length_drop]; omega)
  exact ⟨b, by rw [bind_of_ok ha, hb, List.drop_drop, Nat.add_sub_cancel' hn]⟩

/-- Where there is room the reader does not fail. -/
theorem Takes.not_error {n : Nat} {e : CodecError} (hr : r.Takes n) (hs : n ≤ s.length) :
    r s ≠ .error e := by
  obtain ⟨a, ha⟩ := hr s hs
  simp [ha]

/-- A word takes its width. -/
theorem takes_word (e : Endian) (w : Nat) : (word e w).Takes w := by
  intro s hs
  exact ⟨e.decode (s.take w), by rw [word, take, if_pos hs]⟩

theorem takes_byte : byte.Takes 1 :=
  (takes_word .little 1).bind (Nat.le_refl _) fun _ => takes_pure _

theorem takes_uint : uint.Takes 4 :=
  (takes_word .little 4).bind (Nat.le_refl _) fun _ => takes_pure _

theorem takes_int : int.Takes 4 := takes_uint.bind (Nat.le_refl _) fun _ => takes_pure _

theorem takes_readFloat : Takes Value.readFloat 4 :=
  (takes_word .little 4).bind (Nat.le_refl _) fun _ => takes_pure _

end Reader

end Intercept
