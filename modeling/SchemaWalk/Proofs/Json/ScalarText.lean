import SchemaWalk.Literal
import SchemaWalk.Proofs.Json.IntegerText
import SchemaWalk.Proofs.Json.StringText

/-! # Reading back the literals that have a form in a document -/
namespace SchemaWalk

open Text

namespace Json

/-- Characters that may stand around a value. -/
def Gap (s : List Char) : Prop := ∀ c ∈ s, c = ' ' ∨ c = '\n' ∨ c = '\t' ∨ c = '\r'

theorem gap_nil : Gap [] := by simp [Gap]

theorem gap_space : Gap [' '] := by simp [Gap]

theorem Gap.skipBlanks {s : List Char} (hs : Gap s) (t : Bytes) :
    Json.skipBlanks (encode s ++ t) = Json.skipBlanks t := by
  induction s with
  | nil => rfl
  | cons c s ih =>
    have hblank : ∃ b, String.utf8EncodeChar c = [b] ∧ isBlank b = true := by
      rcases hs c (by simp) with rfl | rfl | rfl | rfl <;> exact ⟨_, rfl, rfl⟩
    obtain ⟨b, he, hb⟩ := hblank
    rw [encode_cons, he, List.append_assoc, List.singleton_append, Json.skipBlanks,
      List.dropWhile_cons_of_pos hb]
    exact ih fun c hc => hs c (List.mem_cons_of_mem _ hc)

theorem Gap.stops {s : List Char} (hs : Gap s) : Stops (encode s) := by
  cases s with
  | nil => simp [Stops]
  | cons c s =>
    intro b hb
    rcases hs c (by simp) with rfl | rfl | rfl | rfl <;> · cases hb; decide

theorem parse_of_anyValue {before after text : List Char} {v : Value} (hb : Gap before)
    (ha : Gap after)
    (h : ∀ limit list object, (encode text).length < limit →
        anyValue limit list object (encode text ++ encode after) = .ok (v, encode after)) :
    Json.parse (encode (before ++ text ++ after)) = .ok v := by
  have hskip : ∀ limit list object, anyValue limit list object (encode (before ++ text ++ after)) =
      anyValue limit list object (encode text ++ encode after) := by
    intro limit list object
    rw [List.append_assoc, encode_append, anyValue, hb.skipBlanks, encode_append, ← anyValue]
  have hend : skipBlanks (encode after) = [] := by
    rw [← List.append_nil (encode after), ha.skipBlanks]; rfl
  have hlimit : (encode text).length < (encode (before ++ text ++ after)).length + 1 := by
    simp; omega
  have hvalue : value ((encode (before ++ text ++ after)).length + 1) maxDepth
      (encode (before ++ text ++ after)) = .ok (v, encode after) := by
    rw [show maxDepth = 126 + 1 from rfl, value, hskip]
    exact h _ _ _ hlimit
  have hall : readAll (fun limit => value limit maxDepth) (encode (before ++ text ++ after)) =
      .ok v := by
    rw [readAll, hvalue]
    simp only [bind, Except.bind, hend]
  rw [Json.parse, hall]
  rfl

theorem parse_error_of_anyValue {before text : List Char} (hb : Gap before)
    (h : ∀ limit list object, ∃ fault, anyValue limit list object (encode text) = .error fault) :
    ∃ e, Json.parse (encode (before ++ text)) = .error e := by
  have hvalue : ∃ fault, value ((encode (before ++ text)).length + 1) maxDepth
      (encode (before ++ text)) = .error fault := by
    rw [show maxDepth = 126 + 1 from rfl, value, anyValue, encode_append, hb.skipBlanks, ← anyValue]
    exact h _ _ _
  obtain ⟨fault, hfault⟩ := hvalue
  exact ⟨_, by rw [Json.parse, readAll, hfault]; rfl⟩

theorem anyValue_boolean (b : Bool) (limit : Nat) (list object : Reader Value) (s : Bytes) :
    anyValue limit list object (encode (if b then "true" else "false").toList ++ s) =
      .ok (.boolean b, s) := by
  cases b <;> rfl

theorem length_le_encode_escaped (t : List Char) :
    t.length ≤ (encode (t.flatMap escaped)).length := by
  induction t with
  | nil => simp
  | cons c t ih =>
    have hc : 0 < (encode (escaped c)).length := by
      obtain ⟨d, e, he⟩ := List.exists_cons_of_ne_nil (escaped_ne_nil c)
      have := d.utf8Size_pos
      rw [he, encode_cons, List.length_append, String.length_utf8EncodeChar]
      omega
    rw [List.flatMap_cons, encode_append, List.length_append, List.length_cons]
    omega

theorem anyValue_string (t : String) {limit : Nat} (list object : Reader Value) (s : Bytes)
    (hlimit : (encode (stringText t)).length < limit) :
    anyValue limit list object (encode (stringText t) ++ s) = .ok (.string t, s) := by
  have htext : encode (stringText t) ++ s =
      0x22 :: (encode (t.toList.flatMap escaped) ++ 0x22 :: s) := by
    simp [stringText, show String.utf8EncodeChar '"' = [0x22] from rfl]
  have hlength := length_le_encode_escaped t.toList
  have hbound : t.toList.length < limit := by
    simp only [stringText, encode_append, encode_cons, List.length_append] at hlimit
    omega
  have hrest := stringRest_text hbound [] s
  rw [htext]
  simp [anyValue, skipBlanks, isBlank, stringTail, hrest, bind, Except.bind]

theorem anyValue_unterminated (t : List Char) (limit : Nat) (list object : Reader Value) :
    ∃ fault, anyValue limit list object (encode ('"' :: t.flatMap escaped)) = .error fault := by
  obtain ⟨fault, hfault⟩ := stringRest_unterminated t limit []
  refine ⟨fault, ?_⟩
  rw [encode_cons, show String.utf8EncodeChar '"' = [0x22] from rfl, List.singleton_append]
  simp [anyValue, skipBlanks, isBlank, stringTail, hfault, bind, Except.bind]

theorem head_integerText (n : Int) :
    ∃ b s, encode (integerText n) = b :: s ∧ (b = 0x2D ∨ isDigit b = true) := by
  by_cases hn : n < 0
  · exact ⟨0x2D, encode (Nat.toDigits 10 n.natAbs), by rw [integerText, if_pos hn]; rfl, .inl rfl⟩
  · obtain ⟨b, s, he, hb⟩ := head_encode_toDigits n.natAbs
    exact ⟨b, s, by rw [integerText, if_neg hn, he], .inr hb⟩

theorem numeral_head {b : UInt8} (hb : b = 0x2D ∨ isDigit b = true) :
    isBlank b = false ∧ b ≠ 0x6E ∧ b ≠ 0x74 ∧ b ≠ 0x66 ∧ b ≠ 0x22 ∧ b ≠ 0x5B ∧ b ≠ 0x5D ∧
      b ≠ 0x7B := by
  rcases hb with rfl | hb
  · decide
  · refine ⟨?_, ?_, ?_, ?_, ?_, ?_, ?_, ?_⟩
    · cases hblank : isBlank b with
      | false => rfl
      | true =>
        simp only [isBlank, Bool.or_eq_true, decide_eq_true_eq] at hblank
        rcases hblank with ((rfl | rfl) | rfl) | rfl <;> exact absurd hb (by decide)
    all_goals rintro rfl; exact absurd hb (by decide)

theorem anyValue_number {b : UInt8} (hb : b = 0x2D ∨ isDigit b = true) (limit : Nat)
    (list object : Reader Value) (s : Bytes) :
    anyValue limit list object (b :: s) = number (b :: s) >>= fun x => .ok (.number x.1, x.2) := by
  obtain ⟨h₁, h₂, h₃, h₄, h₅, -⟩ := numeral_head hb
  have hfirst : (b = 0x2D || isDigit b) = true := by simpa using hb
  rw [anyValue, skipBlanks, List.dropWhile_cons_of_neg (by simp [h₁])]
  simp only [h₂, h₃, h₄, h₅, if_false, hfirst, if_true]

theorem anyValue_integer {n : Int} (hlow : -(signBit : Int) ≤ n) (hhigh : n < Numeral.wordBound)
    (limit : Nat) (list object : Reader Value) {s : Bytes} (hs : Stops s) :
    anyValue limit list object (encode (integerText n) ++ s) = .ok (.number (.integer n), s) := by
  obtain ⟨b, t, he, hb⟩ := head_integerText n
  have hnumber := number_integerText hlow hhigh hs
  rw [he, List.cons_append] at hnumber ⊢
  rw [anyValue_number hb, hnumber]
  rfl

end Json

namespace Literal

open Json

/-- The text of a literal is read as that literal, whatever follows it, unless that
continues a numeral. -/
theorem anyValue_render? {v : Literal} {text : List Char} (h : v.render? = some text) :
    ∃ x, ofValue x = v ∧ ∀ limit list object s, Stops s → (encode text).length < limit →
      anyValue limit list object (encode text ++ s) = .ok (x, s) := by
  cases v with
  | boolean b =>
    cases h
    exact ⟨.boolean b, rfl, fun limit list object s _ _ => anyValue_boolean b limit list object s⟩
  | integer n =>
    cases h
    have hlow := n.le_toInt
    have hhigh := n.toInt_lt
    refine ⟨.number (.integer n.toInt), ?_, fun limit list object s hs _ =>
      anyValue_integer (by simp only [signBit]; omega) (by simp only [Numeral.wordBound]; omega)
        limit list object hs⟩
    rw [ofValue, if_pos (by simp only [signBit]; omega), Int64.ofInt_toInt]
  | string t =>
    cases h
    exact ⟨.string t, rfl,
      fun limit list object s _ hlimit => anyValue_string t list object s hlimit⟩
  | float | json => cases h

theorem parse_render? {v : Literal} {text before after : List Char} (h : v.render? = some text)
    (hb : Gap before) (ha : Gap after) : parse (before ++ text ++ after) = .ok v := by
  obtain ⟨x, hx, hread⟩ := anyValue_render? h
  rw [parse, parse_of_anyValue hb ha fun limit list object hlimit =>
    hread limit list object _ ha.stops hlimit, Except.map, hx]

theorem render?_append_inj {v w : Literal} {t u r r' : List Char} (hv : v.render? = some t)
    (hw : w.render? = some u) (hr : Stops (encode r)) (hr' : Stops (encode r'))
    (h : t ++ r = u ++ r') : v = w ∧ r = r' := by
  obtain ⟨x, hx, hread⟩ := anyValue_render? hv
  obtain ⟨y, hy, hread'⟩ := anyValue_render? hw
  have hsame : encode t ++ encode r = encode u ++ encode r' := by
    rw [← encode_append, h, encode_append]
  let limit := (encode t).length + (encode u).length + 1
  have hx' := hread limit (refuse .tooDeep) (refuse .tooDeep) _ hr (by omega)
  have hy' := hread' limit (refuse .tooDeep) (refuse .tooDeep) _ hr' (by omega)
  rw [← hsame, hx', Except.ok.injEq, Prod.mk.injEq] at hy'
  obtain rfl : v = w := by rw [← hx, ← hy, hy'.1]
  obtain rfl : t = u := by rw [hv] at hw; exact Option.some.inj hw
  exact ⟨rfl, List.append_cancel_left h⟩

theorem parse_unterminated {before : List Char} (hb : Gap before) (t : List Char) :
    ∃ reason, parse (before ++ '"' :: t.flatMap escaped) = .error reason := by
  obtain ⟨e, he⟩ := parse_error_of_anyValue hb (anyValue_unterminated t)
  exact ⟨e, by rw [parse, he]; rfl⟩

end Literal

end SchemaWalk
