/-! # Characters as UTF-8 bytes, written and read one at a time -/
namespace SchemaWalk.Text

/-- The bytes of a text, which is how every reader of this library receives it. -/
def encode (s : List Char) : List UInt8 := s.flatMap String.utf8EncodeChar

@[simp] theorem encode_nil : encode [] = [] := rfl

@[simp] theorem encode_cons (c : Char) (s : List Char) :
    encode (c :: s) = String.utf8EncodeChar c ++ encode s :=
  rfl

@[simp] theorem encode_append (s t : List Char) : encode (s ++ t) = encode s ++ encode t := by
  simp [encode]

def continuation (b : UInt8) : Option Nat :=
  if 0x80 ≤ b.toNat && b.toNat < 0xC0 then some (b.toNat - 0x80) else none

/-- The scalar value `n`, if it is one and needs as many bytes as it came in, which is when it is
`least` or more. -/
def scalar (least n : Nat) : Option Char :=
  if least ≤ n && n.isValidChar then some (Char.ofNat n) else none

/-- The first character and the bytes after it; `none` where no character is encoded. -/
def decodeChar : List UInt8 → Option (Char × List UInt8)
  | [] => none
  | a :: s =>
    let lead := a.toNat
    if lead < 0x80 then some (Char.ofNat lead, s)
    else if lead < 0xC0 then none
    else if lead < 0xE0 then
      match s with
      | b :: s => do
        let x ← continuation b
        return (← scalar 0x80 ((lead - 0xC0) * 64 + x), s)
      | _ => none
    else if lead < 0xF0 then
      match s with
      | b :: c :: s => do
        let x ← continuation b
        let y ← continuation c
        return (← scalar 0x800 (((lead - 0xE0) * 64 + x) * 64 + y), s)
      | _ => none
    else if lead < 0xF8 then
      match s with
      | b :: c :: d :: s => do
        let x ← continuation b
        let y ← continuation c
        let z ← continuation d
        return (← scalar 0x10000 ((((lead - 0xF0) * 64 + x) * 64 + y) * 64 + z), s)
      | _ => none
    else none

theorem toNat_bounds (c : Char) : c.toNat < 0xD800 ∨ 0xDFFF < c.toNat ∧ c.toNat < 0x110000 :=
  c.valid

theorem toNat_lt (c : Char) : c.toNat < 0x110000 := by
  have := toNat_bounds c
  omega

theorem continuation_ofNat {n : Nat} (h : n < 64) :
    continuation (UInt8.ofNat (n + 128)) = some n := by
  have : (UInt8.ofNat (n + 128)).toNat = n + 128 := by simp; omega
  simp only [continuation, this]
  simp; omega

theorem scalar_toNat {least : Nat} {c : Char} (h : least ≤ c.toNat) :
    scalar least c.toNat = some c := by
  have : c.toNat.isValidChar := c.valid
  simp [scalar, h, this, Char.ofNat_toNat]

theorem decodeChar_utf8EncodeChar (c : Char) (s : List UInt8) :
    decodeChar (String.utf8EncodeChar c ++ s) = some (c, s) := by
  have hc := toNat_lt c
  have hv : c.val.toNat = c.toNat := rfl
  simp only [String.utf8EncodeChar, hv]
  by_cases h1 : c.toNat ≤ 127
  · have : (UInt8.ofNat c.toNat).toNat = c.toNat := by simp; omega
    simp only [h1, if_true, List.cons_append, List.nil_append, decodeChar, this]
    rw [if_pos (by omega), Char.ofNat_toNat]
  by_cases h2 : c.toNat ≤ 2047
  · have : (UInt8.ofNat (c.toNat / 64 % 32 + 192)).toNat = c.toNat / 64 % 32 + 192 := by simp; omega
    simp only [h1, h2, if_true, if_false, List.cons_append, List.nil_append, decodeChar, this,
      continuation_ofNat (Nat.mod_lt c.toNat (by decide : 0 < 64)), Option.bind_eq_bind,
      Option.bind_some]
    rw [if_neg (by omega), if_neg (by omega), if_pos (by omega),
      show (c.toNat / 64 % 32 + 192 - 192) * 64 + c.toNat % 64 = c.toNat by omega]
    simp [scalar_toNat (show 0x80 ≤ c.toNat by omega)]
  by_cases h3 : c.toNat ≤ 65535
  · have : (UInt8.ofNat (c.toNat / 4096 % 16 + 224)).toNat = c.toNat / 4096 % 16 + 224 := by
      simp; omega
    simp only [h1, h2, h3, if_true, if_false, List.cons_append, List.nil_append, decodeChar, this,
      continuation_ofNat (Nat.mod_lt c.toNat (by decide : 0 < 64)),
      continuation_ofNat (Nat.mod_lt (c.toNat / 64) (by decide : 0 < 64)), Option.bind_eq_bind,
      Option.bind_some]
    rw [if_neg (by omega), if_neg (by omega), if_neg (by omega), if_pos (by omega),
      show ((c.toNat / 4096 % 16 + 224 - 224) * 64 + c.toNat / 64 % 64) * 64 + c.toNat % 64
        = c.toNat by omega]
    simp [scalar_toNat (show 0x800 ≤ c.toNat by omega)]
  · have : (UInt8.ofNat (c.toNat / 262144 % 8 + 240)).toNat = c.toNat / 262144 % 8 + 240 := by
      simp; omega
    simp only [h1, h2, h3, if_false, List.cons_append, List.nil_append, decodeChar, this,
      continuation_ofNat (Nat.mod_lt c.toNat (by decide : 0 < 64)),
      continuation_ofNat (Nat.mod_lt (c.toNat / 64) (by decide : 0 < 64)),
      continuation_ofNat (Nat.mod_lt (c.toNat / 4096) (by decide : 0 < 64)), Option.bind_eq_bind,
      Option.bind_some]
    rw [if_neg (by omega), if_neg (by omega), if_neg (by omega), if_neg (by omega),
      if_pos (by omega),
      show (((c.toNat / 262144 % 8 + 240 - 240) * 64 + c.toNat / 4096 % 64) * 64
        + c.toNat / 64 % 64) * 64 + c.toNat % 64 = c.toNat by omega]
    simp [scalar_toNat (show 0x10000 ≤ c.toNat by omega)]

end SchemaWalk.Text
