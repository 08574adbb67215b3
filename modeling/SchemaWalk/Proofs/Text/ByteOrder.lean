import SchemaWalk.Text.Utf8

/-! # The order of texts by their characters is that by their bytes -/
namespace SchemaWalk.Text

/-- Of two different characters the bytes differ somewhere, and where they first do the lower
character has the lower byte. So it does not matter what follows. -/
theorem utf8EncodeChar_lt {c d : Char} (h : c < d) (s t : List UInt8) :
    String.utf8EncodeChar c ++ s < String.utf8EncodeChar d ++ t := by
  have hlt : c.toNat < d.toNat := h
  have hd := toNat_lt d
  have hc : c.val.toNat = c.toNat := rfl
  have hd' : d.val.toNat = d.toNat := rfl
  -- each byte holds the six bits above those of the next one
  have htwice : ∀ n, n / 4096 = n / 64 / 64 := fun n => by omega
  have hthrice : ∀ n, n / 262144 = n / 64 / 64 / 64 := fun n => by omega
  simp only [String.utf8EncodeChar, hc, hd', htwice, hthrice]
  generalize c.toNat = m at *
  generalize d.toNat = n at *
  repeat' split
  all_goals
    simp only [List.cons_append, List.nil_append, List.cons_lt_cons_iff, UInt8.lt_iff_toNat_lt,
      ← UInt8.toNat_inj, UInt8.toNat_ofNat']
    omega

theorem encode_lt_encode {s t : List Char} (h : s < t) : encode s < encode t := by
  induction h with
  | @nil c t =>
    obtain ⟨b, u, hb⟩ := List.exists_cons_of_ne_nil (String.utf8EncodeChar_ne_nil (c := c))
    rw [encode_cons, hb]
    exact List.nil_lt_cons b _
  | rel hlt => exact utf8EncodeChar_lt hlt _ _
  | cons _ ih => exact List.append_left_lt ih

end SchemaWalk.Text
