import SchemaWalk.Proofs.Json.StringSpelling

/-! # Strings that count by their form alone -/
namespace SchemaWalk.Json

open Text

theorem mem_utf8EncodeChar {c : Char} {b : UInt8} (h : b ∈ String.utf8EncodeChar c) :
    b.toNat = c.toNat ∨ 0x80 ≤ b.toNat := by
  have hv : c.val.toNat = c.toNat := rfl
  simp only [String.utf8EncodeChar, hv] at h
  split at h
  · left
    obtain rfl := List.mem_singleton.1 h
    simp
    omega
  · right
    split at h
    · simp only [List.mem_cons, List.not_mem_nil, or_false] at h
      rcases h with rfl | rfl <;> simp <;> omega
    · split at h
      · simp only [List.mem_cons, List.not_mem_nil, or_false] at h
        rcases h with rfl | rfl | rfl <;> simp <;> omega
      · simp only [List.mem_cons, List.not_mem_nil, or_false] at h
        rcases h with rfl | rfl | rfl | rfl <;> simp <;> omega

theorem skipString_bytes {bytes : Bytes} (h : ∀ b ∈ bytes, b ≠ 0x22 ∧ b ≠ 0x5C ∧ ¬b < 0x20)
    (steps : Nat) (s : Bytes) :
    skipString (steps + bytes.length) (bytes ++ s) = skipString steps s := by
  induction bytes with
  | nil => rfl
  | cons b bytes ih =>
    obtain ⟨⟨hquote, hslash, hcontrol⟩, hbytes⟩ := List.forall_mem_cons.1 h
    rw [List.cons_append, List.length_cons, ← Nat.add_assoc, skipString, if_neg hquote,
      if_neg hslash, if_neg hcontrol]
    exact ih hbytes

theorem skipString_plain {c : Char} (hquote : c ≠ '"') (hslash : c ≠ '\\')
    (hcontrol : 0x20 ≤ c.toNat) (steps : Nat) (s : Bytes) :
    skipString (steps + (String.utf8EncodeChar c).length) (String.utf8EncodeChar c ++ s) =
      skipString steps s := by
  apply skipString_bytes
  intro b hb
  have hb' := mem_utf8EncodeChar hb
  have hne : ∀ d : Char, d.toNat < 0x80 → c ≠ d → b.toNat ≠ d.toNat := by
    intro d hd hcd hbd
    have := mt Char.toNat_inj.1 hcd
    omega
  refine ⟨?_, ?_, ?_⟩
  · rintro rfl
    exact hne '"' (by decide) hquote rfl
  · rintro rfl
    exact hne '\\' (by decide) hslash rfl
  · rw [UInt8.lt_iff_toNat_lt]
    simp only [UInt8.reduceToNat]
    omega

theorem skipString_escape {b : UInt8} {s t : Bytes} (h : skipEscape (b :: s) = .ok ((), t))
    (steps : Nat) : skipString (steps + 1) (0x5C :: b :: s) = skipString steps t := by
  rw [skipString, if_neg (by decide), if_pos rfl, h]
  rfl

theorem Quotable.skip {t : List Char} (h : Quotable t) {steps : Nat}
    (hsteps : (encode t).length < steps) (s : Bytes) :
    skipString steps (encode t ++ 0x22 :: s) = .ok ((), s) := by
  induction h generalizing steps with
  | nil =>
    obtain ⟨steps, rfl⟩ := Nat.exists_eq_add_of_le' (Nat.one_le_of_lt hsteps)
    rfl
  | @plain c t hquote hslash hcontrol ht ih =>
    rw [encode_cons, List.length_append] at hsteps
    obtain ⟨n, rfl⟩ :=
      Nat.exists_eq_add_of_le' (show (String.utf8EncodeChar c).length ≤ steps by omega)
    rw [encode_cons, List.append_assoc, skipString_plain hquote hslash hcontrol]
    exact ih (by omega)
  | @short letter c t h ht ih =>
    obtain ⟨b, hb, hc⟩ := encode_short h
    rw [encode_cons, encode_cons, utf8EncodeChar_slash, hb] at hsteps ⊢
    obtain ⟨n, rfl⟩ := Nat.exists_eq_add_of_le' (show 1 ≤ steps by omega)
    have hescape : skipEscape (b :: (encode t ++ 0x22 :: s)) = .ok ((), encode t ++ 0x22 :: s) := by
      rw [skipEscape, hc]
    simp only [List.length_append, List.length_singleton] at hsteps
    exact (skipString_escape hescape n).trans (ih (by omega))
  | @unicode quad t n h ht ih =>
    rw [List.cons_append, List.cons_append, encode_cons, encode_cons, utf8EncodeChar_slash,
      utf8EncodeChar_u, encode_append] at hsteps ⊢
    obtain ⟨n, rfl⟩ := Nat.exists_eq_add_of_le' (show 1 ≤ steps by omega)
    have hescape : skipEscape (0x75 :: (encode quad ++ (encode t ++ 0x22 :: s))) =
        .ok ((), encode t ++ 0x22 :: s) := by
      simp [skipEscape, shortEscape, h.read, bind, Except.bind]
    rw [List.append_assoc, List.append_assoc, List.append_assoc]
    simp only [List.length_append, List.length_singleton] at hsteps
    exact (skipString_escape hescape n).trans (ih (by omega))

end SchemaWalk.Json
