import SchemaWalk.Proofs.Json.Forms
import SchemaWalk.Proofs.Json.Numerals

/-! # Passing over a value of any form -/
namespace SchemaWalk.Json

open Text

variable {α : Type} {limit : Nat}

theorem Gap.stops_append {s : List Char} (hs : Gap s) {t : Bytes} (ht : Stops t) :
    Stops (encode s ++ t) := by
  cases s with
  | nil => exact ht
  | cons c s =>
    intro b hb
    apply hs.stops
    obtain ⟨d, u, he, -⟩ := head_utf8EncodeChar c
    simpa [he] using hb

/-- What stands before a part of a list or an object, after the part before. -/
inductive Lead : Bool → List Char → Prop
  | first : Lead true []
  | later {gap : List Char} (hgap : Gap gap) : Lead false (gap ++ [','])

/-- What is due, the containers that are open, and the bytes that are left. -/
abbrev Point := Due × List Container × Bytes

/-- Skipping comes from one point to another in at most `bound` steps. -/
def Passes (limit bound : Nat) (p q : Point) : Prop :=
  ∃ k ≤ bound, ∀ steps, skipFrom limit (steps + k) p.1 p.2.1 p.2.2 =
    skipFrom limit steps q.1 q.2.1 q.2.2

theorem Passes.trans {m n : Nat} {p q r : Point} (h : Passes limit m p q)
    (h' : Passes limit n q r) : Passes limit (m + n) p r := by
  obtain ⟨k, hk, hkstep⟩ := h
  obtain ⟨l, hl, hlstep⟩ := h'
  refine ⟨l + k, by omega, fun steps => ?_⟩
  rw [← Nat.add_assoc, hkstep, hlstep]

theorem Passes.mono {m n : Nat} {p q : Point} (h : Passes limit m p q) (hmn : m ≤ n) :
    Passes limit n p q := by
  obtain ⟨k, hk, hstep⟩ := h
  exact ⟨k, Nat.le_trans hk hmn, hstep⟩

theorem passes_scalar {s t : Bytes} (enclosing : List Container)
    (h : skipStart limit s = .ok (none, t)) :
    Passes limit 1 (.value, enclosing, s) (.next false, enclosing, t) := by
  refine ⟨1, Nat.le_refl 1, fun steps => ?_⟩
  rw [skipFrom, h]
  rfl

theorem passes_open {s t : Bytes} {container : Container} (enclosing : List Container)
    (h : skipStart limit s = .ok (some container, t)) :
    Passes limit 1 (.value, enclosing, s) (.next true, container :: enclosing, t) := by
  refine ⟨1, Nat.le_refl 1, fun steps => ?_⟩
  rw [skipFrom, h]
  rfl

theorem passes_between {s t : Bytes} {container : Container} {fresh : Bool}
    (enclosing : List Container) (h : skipBetween limit container fresh s = .ok (true, t)) :
    Passes limit 1 (.next fresh, container :: enclosing, s)
      (.value, container :: enclosing, t) := by
  refine ⟨1, Nat.le_refl 1, fun steps => ?_⟩
  rw [skipFrom, h]
  rfl

theorem passes_close (limit : Nat) {s t : Bytes} {container : Container} {fresh : Bool}
    (enclosing : List Container) (h : skipBetween limit container fresh s = .ok (false, t)) :
    Passes limit 1 (.next fresh, container :: enclosing, s) (.next false, enclosing, t) := by
  refine ⟨1, Nat.le_refl 1, fun steps => ?_⟩
  rw [skipFrom, h]
  rfl

/-- A text is passed over where a value is due, with blanks before it, whatever stands after it. -/
def PassedOver (limit : Nat) (t : List Char) : Prop :=
  ∀ gap rest enclosing, Gap gap → Stops rest → (encode t).length < limit →
    Passes limit (2 * (encode t).length - 1) (.value, enclosing, encode gap ++ (encode t ++ rest))
      (.next false, enclosing, rest)

def PassedIn (limit : Nat) (container : Container) (t : List Char) : Prop :=
  ∀ fresh lead gap rest enclosing, Lead fresh lead → Gap gap → Stops rest →
    (encode t).length < limit →
    Passes limit (2 * (encode t).length)
      (.next fresh, container :: enclosing, encode lead ++ (encode gap ++ (encode t ++ rest)))
      (.next false, container :: enclosing, rest)

def Container.opening : Container → Char
  | .list => '['
  | .object => '\x7b'

def Container.closing : Container → Char
  | .list => ']'
  | .object => '\x7d'

theorem skipBlanks_cons {b : UInt8} (hb : isBlank b = false) (s : Bytes) :
    skipBlanks (b :: s) = b :: s := by
  rw [skipBlanks, List.dropWhile_cons_of_neg (by simp [hb])]

theorem skipStart_opening (container : Container) (s : Bytes) :
    skipStart limit (encode [container.opening] ++ s) = .ok (some container, s) := by
  cases container <;> rfl

theorem skipBetween_closing (container : Container) (fresh : Bool) {gap : List Char}
    (hgap : Gap gap) (s : Bytes) :
    skipBetween limit container fresh (encode gap ++ (encode [container.closing] ++ s)) =
      .ok (false, s) := by
  rw [skipBetween, hgap.skipBlanks]
  cases container <;> cases fresh <;> rfl

theorem encode_comma (s : Bytes) : encode [','] ++ s = 0x2C :: s := rfl

theorem utf8EncodeChar_colon : String.utf8EncodeChar ':' = [0x3A] := rfl

theorem skipBetween_item (limit : Nat) {fresh : Bool} {lead gap : List Char}
    (hlead : Lead fresh lead) (hgap : Gap gap) {b : UInt8} (hblank : isBlank b = false)
    (hb : b ≠ 0x5D) (s : Bytes) :
    ∃ gap', Gap gap' ∧
      skipBetween limit .list fresh (encode lead ++ (encode gap ++ b :: s)) =
        .ok (true, encode gap' ++ b :: s) := by
  cases hlead with
  | first =>
    refine ⟨[], gap_nil, ?_⟩
    rw [skipBetween, encode_nil, List.nil_append, hgap.skipBlanks, skipBlanks_cons hblank]
    simp [hb]
  | later hlater =>
    refine ⟨gap, hgap, ?_⟩
    rw [skipBetween, encode_append, List.append_assoc, hlater.skipBlanks]
    rfl

theorem skipBetween_name {fresh : Bool} {lead gap : List Char} (hlead : Lead fresh lead)
    (hgap : Gap gap) {s u : Bytes}
    (hname : ∀ gap, Gap gap → skipName limit (encode gap ++ 0x22 :: s) = .ok ((), u)) :
    skipBetween limit .object fresh (encode lead ++ (encode gap ++ 0x22 :: s)) = .ok (true, u) := by
  cases hlead with
  | first =>
    have h := hname [] gap_nil
    rw [encode_nil, List.nil_append] at h
    rw [skipBetween, encode_nil, List.nil_append, hgap.skipBlanks, skipBlanks_cons rfl]
    simp [h, bind, Except.bind]
  | later hlater =>
    have h := hname gap hgap
    rw [skipBetween, encode_append, List.append_assoc, hlater.skipBlanks, encode_comma,
      skipBlanks_cons rfl]
    simp [h, bind, Except.bind]

theorem PassedOver.inList {t : List Char} (h : PassedOver limit t)
    (hhead : ∃ b u, encode t = b :: u ∧ isBlank b = false ∧ b ≠ 0x5D) : PassedIn limit .list t := by
  intro fresh lead gap rest enclosing hlead hgap hrest hlimit
  obtain ⟨b, u, ht, hblank, hb⟩ := hhead
  obtain ⟨gap', hgap', hbetween⟩ := skipBetween_item limit hlead hgap hblank hb (u ++ rest)
  rw [← List.cons_append, ← ht] at hbetween
  have hvalue := h gap' rest (.list :: enclosing) hgap' hrest hlimit
  apply ((passes_between enclosing hbetween).trans hvalue).mono
  rw [ht, List.length_cons]
  omega

theorem skipName_quoted {s t : List Char} (h : QuotedText s t) (hlimit : (encode t).length < limit)
    {before gap : List Char} (hgap : Gap gap) (hbefore : Gap before) (rest : Bytes) :
    skipName limit (encode gap ++ (encode t ++ (encode before ++ 0x3A :: rest))) =
      .ok ((), rest) := by
  obtain ⟨h⟩ := h
  have hlength : (encode s).length < limit := by
    rw [List.cons_append, encode_cons, encode_append, List.length_append, List.length_append]
      at hlimit
    omega
  have hquoted := h.skip hlength (encode before ++ 0x3A :: rest)
  rw [skipName, hgap.skipBlanks, List.cons_append, encode_cons, utf8EncodeChar_quote, encode_append,
    encode_cons, utf8EncodeChar_quote]
  rw [List.append_assoc, List.singleton_append, skipBlanks_cons rfl]
  simp only [encode_nil, List.cons_append, List.append_assoc, List.nil_append, if_true, hquoted,
    bind, Except.bind]
  rw [colon, hbefore.skipBlanks]
  rfl

theorem PassedOver.inObject {entry : List Char × List Char} (h : PassedOver limit entry.2)
    {t : List Char} (ht : EntryText QuotedText entry t) : PassedIn limit .object t := by
  intro fresh lead gap rest enclosing hlead hgap hrest hlimit
  obtain @⟨name, t, value, before, after, ht, hbefore, hafter⟩ := ht
  replace h : PassedOver limit value := h
  have htext : encode (t ++ before ++ ':' :: after ++ value) ++ rest =
      encode t ++ (encode before ++ 0x3A :: (encode after ++ (encode value ++ rest))) := by
    simp [utf8EncodeChar_colon]
  have hlength : (encode t).length + 1 + (encode value).length ≤
      (encode (t ++ before ++ ':' :: after ++ value)).length := by
    simp only [encode_append, encode_cons, List.length_append, utf8EncodeChar_colon,
      List.length_singleton]
    omega
  rw [htext]
  have hname : ∀ gap, Gap gap →
      skipName limit (encode gap ++
        (encode t ++ (encode before ++ 0x3A :: (encode after ++ (encode value ++ rest))))) =
        .ok ((), encode after ++ (encode value ++ rest)) :=
    fun gap hgap => skipName_quoted ht (by omega) hgap hbefore _
  obtain ⟨u, hu⟩ : ∃ u, encode t = 0x22 :: u := by
    obtain ⟨-⟩ := ht
    exact ⟨_, rfl⟩
  rw [hu, List.cons_append] at hname ⊢
  have hbetween := skipBetween_name hlead hgap hname
  have hvalue := h after rest (.object :: enclosing) hafter hrest (by omega)
  exact ((passes_between enclosing hbetween).trans hvalue).mono (by omega)

theorem Separated.passes {part : α → List Char → Prop} {xs : List α} {ts : List Char}
    (h : Separated part xs ts) {container : Container}
    (hpart : ∀ x ∈ xs, ∀ t, part x t → PassedIn limit container t) {fresh : Bool} {lead : List Char}
    (hlead : Lead fresh lead) (hlimit : (encode ts).length < limit) (enclosing : List Container)
    (rest : Bytes) :
    Passes limit (2 * (encode ts).length + 1) (.next fresh, container :: enclosing,
      encode lead ++ (encode ts ++ (encode [container.closing] ++ rest)))
      (.next false, enclosing, rest) := by
  induction h generalizing fresh lead with
  | @one x t before after ht hbefore hafter =>
    have hstops : Stops (encode after ++ (encode [container.closing] ++ rest)) := by
      apply hafter.stops_append
      cases container <;> · rintro b ⟨⟩; decide
    have hlast := passes_close limit enclosing (skipBetween_closing container false hafter rest)
    simp only [encode_append, List.append_assoc, List.length_append] at hlimit ⊢
    have hpart :=
      hpart x List.mem_cons_self t ht fresh lead before _ enclosing hlead hbefore hstops (by omega)
    exact (hpart.trans hlast).mono (by omega)
  | @cons x xs t ts before after ht hbefore hafter hts ih =>
    have hstops : Stops (encode after ++
        (encode [','] ++ (encode ts ++ (encode [container.closing] ++ rest)))) := by
      apply hafter.stops_append
      rintro b ⟨⟩
      decide
    rw [← List.singleton_append] at hlimit ⊢
    simp only [encode_append, List.append_assoc, List.length_append] at hlimit ⊢
    have hfirst :=
      hpart x List.mem_cons_self t ht fresh lead before _ enclosing hlead hbefore hstops (by omega)
    have hrest := ih (fun y hy => hpart y (List.mem_cons_of_mem _ hy)) (.later hafter) (by omega)
    rw [encode_append, List.append_assoc] at hrest
    exact (hfirst.trans hrest).mono (by omega)

theorem Bracketed.passedOver (container : Container) {part : α → List Char → Prop} {xs : List α}
    {t : List Char} (h : Bracketed container.opening container.closing part xs t)
    (hpart : ∀ x ∈ xs, ∀ t, part x t → PassedIn limit container t) : PassedOver limit t := by
  intro gap rest enclosing hgap hrest hlimit
  have hopen : ∀ s, Passes limit 1
      (.value, enclosing, encode gap ++ (encode [container.opening] ++ s))
      (.next true, container :: enclosing, s) := by
    intro s
    apply passes_open
    rw [skipStart, hgap.skipBlanks, ← skipStart]
    exact skipStart_opening container s
  have hmarks : (encode [container.opening]).length = 1 ∧
      (encode [container.closing]).length = 1 := by
    cases container <;> exact ⟨rfl, rfl⟩
  cases h with
  | empty hinner =>
    rw [List.cons_append, ← List.singleton_append]
    simp only [encode_append, List.append_assoc, List.length_append]
    have hclose := passes_close limit enclosing (skipBetween_closing container true hinner rest)
    exact ((hopen _).trans hclose).mono (by omega)
  | parts h =>
    rw [List.cons_append, ← List.singleton_append] at hlimit ⊢
    simp only [encode_append, List.append_assoc, List.length_append] at hlimit ⊢
    have hparts := h.passes hpart .first (by omega) enclosing rest
    exact ((hopen _).trans hparts).mono (by omega)

theorem passedOver_scalar {t : List Char} (hne : encode t ≠ [])
    (h : ∀ rest, Stops rest → (encode t).length < limit →
        skipStart limit (encode t ++ rest) = .ok (none, rest)) : PassedOver limit t := by
  intro gap rest enclosing hgap hrest hlimit
  have hpos := List.length_pos_iff.2 hne
  apply (passes_scalar enclosing ?_).mono (by omega)
  rw [skipStart, hgap.skipBlanks, ← skipStart]
  exact h rest hrest hlimit

theorem skipStart_number {t : List Char} (h : NumberText t) {rest : Bytes} (hrest : Stops rest) :
    skipStart limit (encode t ++ rest) = .ok (none, rest) := by
  obtain ⟨n, hn⟩ := h.read hrest
  obtain ⟨b, u, ht, hb⟩ := h.eq_cons
  obtain ⟨h₁, h₂, h₃, h₄, h₅, h₆, -, h₇⟩ := numeral_head hb
  have hfirst : (b = 0x2D || isDigit b) = true := by simpa using hb
  rw [ht, List.cons_append] at hn ⊢
  rw [skipStart, skipBlanks_cons h₁]
  simp only [h₂, h₃, h₄, h₅, h₆, h₇, hfirst, if_false, if_true, skipNumeral, hn, bind, Except.bind]

theorem skipStart_string {s t : List Char} (h : QuotedText s t) (hlimit : (encode t).length < limit)
    (rest : Bytes) : skipStart limit (encode t ++ rest) = .ok (none, rest) := by
  obtain ⟨h⟩ := h
  rw [List.cons_append, encode_cons, encode_append, utf8EncodeChar_quote, encode_cons,
    utf8EncodeChar_quote] at hlimit ⊢
  have hlength : (encode s).length < limit := by
    rw [List.length_append, List.length_append] at hlimit
    omega
  have hquoted := h.skip hlength rest
  rw [List.append_assoc, List.singleton_append, skipStart, skipBlanks_cons rfl]
  simp [hquoted, bind, Except.bind]

theorem ValueText.eq_cons {t : List Char} (h : ValueText t) :
    ∃ b u, encode t = b :: u ∧ isBlank b = false ∧ b ≠ 0x5D := by
  cases h with
  | null => exact ⟨0x6E, _, rfl, by decide⟩
  | boolean b => cases b <;> exact ⟨_, _, rfl, by decide⟩
  | number h =>
    obtain ⟨b, u, ht, hb⟩ := h.eq_cons
    obtain ⟨hblank, -, -, -, -, -, hclosing, -⟩ := numeral_head hb
    exact ⟨b, u, ht, hblank, hclosing⟩
  | string h =>
    obtain ⟨h⟩ := h
    exact ⟨0x22, _, rfl, by decide⟩
  | list _ h =>
    obtain ⟨u, rfl⟩ := h.eq_cons
    exact ⟨0x5B, _, rfl, by decide⟩
  | object _ h =>
    obtain ⟨u, rfl⟩ := h.eq_cons
    exact ⟨0x7B, _, rfl, by decide⟩

/-- Induction on the value: what its parts take is what lies between their first and last bytes. -/
theorem ValueText.passedOver {t : List Char} (h : ValueText t) : PassedOver limit t := by
  induction h with
  | null => exact passedOver_scalar (by decide) fun rest _ _ => rfl
  | boolean b => cases b <;> exact passedOver_scalar (by decide) fun rest _ _ => rfl
  | number h =>
    obtain ⟨b, u, ht, -⟩ := h.eq_cons
    exact passedOver_scalar (by simp [ht]) fun rest hrest _ => skipStart_number h hrest
  | string h =>
    refine passedOver_scalar ?_ fun rest _ hlimit => skipStart_string h hlimit rest
    obtain ⟨h⟩ := h
    simp [utf8EncodeChar_quote]
  | list hitems h ih =>
    apply Bracketed.passedOver .list h
    rintro v hv t rfl
    exact (ih v hv).inList (hitems v hv).eq_cons
  | object _ h ih =>
    apply Bracketed.passedOver .object h
    intro e he t ht
    exact (ih e he).inObject ht

theorem ValueText.skip {t gap : List Char} (h : ValueText t) (hgap : Gap gap)
    (hlimit : (encode t).length < limit) {rest : Bytes} (hrest : Stops rest) :
    Json.skip limit (encode gap ++ (encode t ++ rest)) = .ok ((), rest) := by
  obtain ⟨k, hk, hsteps⟩ := h.passedOver gap rest [] hgap hrest hlimit
  obtain ⟨n, hn⟩ : ∃ n, 2 * limit = n + 1 + k := ⟨2 * limit - 1 - k, by omega⟩
  rw [Json.skip, hn, hsteps]
  rfl

end SchemaWalk.Json
