import SchemaWalk.Proofs.Json.Skipping

/-! # Readers of strings, marks, lists and what may be absent, on all texts of these -/
namespace SchemaWalk.Json

open Text

variable {α : Type} {limit : Nat}

/-- The reader takes each of the texts for `a`, with blanks before it, and leaves
what comes after it. -/
def Reads (limit : Nat) (reader : Reader α) (texts : List Char → Prop) (a : α) : Prop :=
  ∀ ⦃gap t⦄, Gap gap → texts t → (encode t).length < limit → ∀ rest,
    reader (encode gap ++ (encode t ++ rest)) = .ok (a, rest)

theorem StringText.reads (a : String) : Reads limit (string limit) (StringText a) a := by
  intro gap t hgap ht hlimit rest
  obtain ⟨u, hu, htail⟩ := ht.tail hlimit rest
  rw [string, hgap.skipBlanks, hu, List.cons_append, skipBlanks_cons rfl]
  simp only [if_true, htail]

theorem reads_boolean (b : Bool) : Reads limit (boolean limit) (· = markText b) b := by
  rintro gap _ hgap rfl - rest
  rw [boolean, hgap.skipBlanks]
  cases b <;> rfl

theorem Opening.eq_cons {t : List Char} (h : Opening t) :
    ∃ b u, encode t = b :: u ∧ isBlank b = false ∧ b ≠ 0x6E ∧ b ≠ 0x5D := by
  obtain ⟨c, s, rfl, hc⟩ := h
  rcases hc with rfl | rfl | rfl
  · exact ⟨0x22, encode s, rfl, by decide⟩
  · exact ⟨0x5B, encode s, rfl, by decide⟩
  · exact ⟨0x7B, encode s, rfl, by decide⟩

/-! ## What may be absent -/

theorem reads_null (reader : Reader α) : Reads limit (optional reader) (OptionText none) none := by
  rintro gap _ hgap ⟨⟩ - rest
  rw [optional, hgap.skipBlanks]
  rfl

theorem Reads.optional {reader : Reader α} {texts : List Char → Prop} {a : α}
    (h : Reads limit reader texts a) (hopening : ∀ t, texts t → Opening t) :
    Reads limit (Json.optional reader) (OptionText (some texts)) (some a) := by
  intro gap t hgap ht hlimit rest
  have ht : texts t := by
    cases ht
    assumption
  obtain ⟨b, u, hu, hblank, hnull, -⟩ := (hopening t ht).eq_cons
  have hread := h gap_nil ht hlimit rest
  rw [encode_nil, List.nil_append, hu, List.cons_append] at hread
  rw [Json.optional, hgap.skipBlanks, hu, List.cons_append, skipBlanks_cons hblank]
  split
  · next s heq => exact absurd (List.cons.inj heq).1 hnull
  · rw [hread]
    rfl

theorem reads_optional {reader : Reader α} {textOf : α → List Char → Prop}
    (h : ∀ a, Reads limit reader (textOf a) a) (hopening : ∀ a t, textOf a t → Opening t)
    (x : Option α) : Reads limit (optional reader) (OptionText (x.map textOf)) x := by
  cases x with
  | none => exact reads_null reader
  | some a => exact (h a).optional (hopening a)

/-! ## Lists -/

theorem nextItem_lead {first : Bool} {lead gap : List Char} (hlead : Lead first lead)
    (hgap : Gap gap) {b : UInt8} (hblank : isBlank b = false) (hb : b ≠ 0x5D) (s : Bytes) :
    nextItem first (encode lead ++ (encode gap ++ b :: s)) = .ok (true, b :: s) := by
  cases hlead with
  | first =>
    rw [nextItem, encode_nil, List.nil_append, hgap.skipBlanks, skipBlanks_cons hblank]
    simp [hb]
  | later hlater =>
    rw [nextItem, encode_append, List.append_assoc, hlater.skipBlanks, encode_comma,
      skipBlanks_cons rfl]
    simp [hgap.skipBlanks, skipBlanks_cons hblank, hb]

theorem nextItem_closing (first : Bool) {gap : List Char} (hgap : Gap gap) (s : Bytes) :
    nextItem first (encode gap ++ 0x5D :: s) = .ok (false, 0x5D :: s) := by
  rw [nextItem, hgap.skipBlanks]
  rfl

variable {item : Reader α} {textOf : α → List Char → Prop}

/-- By induction on the items, with the ones before in reverse. -/
theorem Separated.items {xs : List α} {ts : List Char} (h : Separated textOf xs ts)
    (hread : ∀ x ∈ xs, Reads limit item (textOf x) x) (hopening : ∀ x t, textOf x t → Opening t)
    {steps : Nat} (hsteps : xs.length < steps) {first : Bool} {lead : List Char}
    (hlead : Lead first lead) (hlimit : (encode ts).length < limit) (before : List α)
    (rest : Bytes) :
    items item steps first before (encode lead ++ (encode ts ++ 0x5D :: rest)) =
      .ok (before.reverse ++ xs, rest) := by
  induction h generalizing steps first lead before with
  | @one x t gap after ht hgap hafter =>
    obtain ⟨steps, rfl⟩ := Nat.exists_eq_add_of_le' (show 2 ≤ steps from hsteps)
    obtain ⟨b, u, hu, hblank, -, hclosing⟩ := (hopening x t ht).eq_cons
    simp only [encode_append, List.append_assoc, List.length_append] at hlimit ⊢
    have hitem := hread x List.mem_cons_self gap_nil ht (by omega) (encode after ++ 0x5D :: rest)
    rw [encode_nil, List.nil_append, hu, List.cons_append] at hitem
    rw [Json.items, hu, List.cons_append, nextItem_lead hlead hgap hblank hclosing]
    simp [hitem, bind, Except.bind, Json.items, nextItem_closing false hafter]
  | @cons x xs t ts gap after ht hgap hafter hts ih =>
    obtain ⟨steps, rfl⟩ := Nat.exists_eq_add_of_le' (show 1 ≤ steps by omega)
    obtain ⟨b, u, hu, hblank, -, hclosing⟩ := (hopening x t ht).eq_cons
    rw [← List.singleton_append] at hlimit ⊢
    simp only [encode_append, List.append_assoc, List.length_append, List.length_cons]
      at hlimit hsteps ⊢
    have hitem := hread x List.mem_cons_self gap_nil ht (by omega)
      (encode after ++ (encode [','] ++ (encode ts ++ 0x5D :: rest)))
    have hrest := ih (fun y hy => hread y (List.mem_cons_of_mem _ hy))
      (show xs.length < steps by omega) (.later hafter) (by omega) (x :: before)
    rw [encode_nil, List.nil_append, hu, List.cons_append] at hitem
    rw [encode_append, List.append_assoc] at hrest
    rw [Json.items, hu, List.cons_append, nextItem_lead hlead hgap hblank hclosing]
    simp only [bind, Except.bind, if_true, hitem, hrest, List.reverse_cons, List.append_assoc,
      List.singleton_append]

theorem reads_list {xs : List α} (hread : ∀ x ∈ xs, Reads limit item (textOf x) x)
    (hopening : ∀ x t, textOf x t → Opening t) :
    Reads limit (list limit (some item)) (ListText textOf xs) xs := by
  intro gap t hgap ht hlimit rest
  have hitems : ∃ u, encode t = 0x5B :: u ∧
      items item limit true [] (u ++ rest) = .ok (xs, rest) := by
    cases ht with
    | @empty inner hinner =>
      obtain ⟨steps, rfl⟩ := Nat.exists_eq_add_of_le' (Nat.one_le_of_lt hlimit)
      refine ⟨encode inner ++ [0x5D], by rw [List.cons_append, encode_cons, encode_append]; rfl, ?_⟩
      rw [List.append_assoc, items, List.singleton_append, nextItem_closing true hinner]
      rfl
    | @parts _ ts h =>
      refine ⟨encode ts ++ [0x5D], by rw [List.cons_append, encode_cons, encode_append]; rfl, ?_⟩
      have hlength : xs.length ≤ ts.length := h.length_le fun x t hx => by
        obtain ⟨c, s, rfl, -⟩ := hopening x t hx
        exact List.cons_ne_nil c s
      have hbytes := length_le_encode ts
      rw [List.cons_append, ← List.singleton_append, encode_append, encode_append,
        List.length_append, List.length_append] at hlimit
      rw [List.append_assoc, List.singleton_append]
      exact h.items hread hopening (by omega) .first (by omega) [] rest
  obtain ⟨u, hu, hitems⟩ := hitems
  rw [list, hgap.skipBlanks, hu, List.cons_append, skipBlanks_cons rfl]
  simp only [if_true, hitems]

theorem reads_listOrNull {xs : List α} (hread : ∀ x ∈ xs, Reads limit item (textOf x) x)
    (hopening : ∀ x t, textOf x t → Opening t) :
    Reads limit (listOrNull limit (some item)) (ListOrNullText textOf xs) xs := by
  intro gap t hgap ht hlimit rest
  cases ht with
  | null =>
    rw [listOrNull, reads_null _ hgap .null hlimit]
    rfl
  | list h =>
    have hsome := (reads_list hread hopening).optional fun _ => listText_opening
    rw [listOrNull, hsome hgap (.some h) hlimit]
    rfl

end SchemaWalk.Json
