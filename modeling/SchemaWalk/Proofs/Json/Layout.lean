import SchemaWalk.Proofs.Json.Grammar

/-! # Lists and objects written with a blank after each comma and colon -/
namespace SchemaWalk.Json

variable {α : Type}

/-- Whether a text stands for itself between quotes. -/
def isPlain (s : String) : Bool := s.toList.all fun c => c ≠ '"' && c ≠ '\\' && 0x20 ≤ c.toNat

theorem charactersText_plain {s : String} (h : isPlain s = true) :
    CharactersText s.toList s.toList := by
  rw [isPlain] at h
  generalize s.toList = cs at h ⊢
  induction cs with
  | nil => exact .nil
  | cons c cs ih =>
    simp only [List.all_cons, Bool.and_eq_true, decide_eq_true_eq] at h
    obtain ⟨⟨⟨hquote, hslash⟩, hcontrol⟩, hcs⟩ := h
    exact .cons (.plain hquote hslash hcontrol) (ih hcs)

theorem CharactersText.append {cs ds t u : List Char} (h : CharactersText cs t)
    (h' : CharactersText ds u) : CharactersText (cs ++ ds) (t ++ u) := by
  induction h with
  | nil => exact h'
  | cons hc _ ih =>
    rw [List.cons_append, List.append_assoc]
    exact .cons hc ih

def quotedText (s : String) : List Char := '"' :: s.toList ++ ['"']

theorem stringText_quotedText {s : String} (h : isPlain s = true) : StringText s (quotedText s) :=
  .quoted (charactersText_plain h)

def spaced : List (List Char) → List Char
  | [] => []
  | [t] => t
  | t :: ts => t ++ ',' :: ' ' :: spaced ts

theorem separated_spaced {part : α → List Char → Prop} {textOf : α → List Char} {xs : List α}
    (hne : xs ≠ []) (h : ∀ x ∈ xs, part x (textOf x)) {gap : List Char} (hgap : Gap gap) :
    Separated part xs (gap ++ spaced (xs.map textOf)) := by
  induction xs generalizing gap with
  | nil => exact absurd rfl hne
  | cons x xs ih =>
    rw [List.forall_mem_cons] at h
    cases xs with
    | nil => simpa [spaced] using Separated.one h.1 hgap gap_nil
    | cons y ys =>
      have hrest := ih (List.cons_ne_nil y ys) h.2 gap_space
      simpa [spaced] using Separated.cons h.1 hgap gap_nil hrest

def spacedList (ts : List (List Char)) : List Char := '[' :: spaced ts ++ [']']

theorem listText_spacedList_map {part : α → List Char → Prop} {textOf : α → List Char} {xs : List α}
    (hne : xs ≠ []) (h : ∀ x ∈ xs, part x (textOf x)) :
    ListText part xs (spacedList (xs.map textOf)) :=
  .parts (separated_spaced hne h gap_nil)

theorem listText_spacedList {part : α → List Char → Prop} {x : α} {t : List Char} (h : part x t) :
    ListText part [x] (spacedList [t]) :=
  @listText_spacedList_map _ part (fun _ => t) [x] (List.cons_ne_nil x []) (by simpa using h)

def spacedObject (entries : List (String × List Char)) : List Char :=
  '\x7b' :: spaced (entries.map fun e => quotedText e.1 ++ ':' :: ' ' :: e.2) ++ ['\x7d']

theorem objectText_spacedObject {entries : List (String × List Char)} (hne : entries ≠ [])
    (h : ∀ e ∈ entries, isPlain e.1 = true) :
    ObjectText StringText entries (spacedObject entries) := by
  have hparts : Separated (EntryText StringText) entries
      ([] ++ spaced (entries.map fun e => quotedText e.1 ++ ':' :: ' ' :: e.2)) := by
    apply separated_spaced hne _ gap_nil
    intro e he
    have hentry : EntryText StringText e (quotedText e.1 ++ [] ++ ':' :: [' '] ++ e.2) :=
      .entry (stringText_quotedText (h e he)) gap_nil gap_space
    simpa using hentry
  exact .parts hparts

theorem recordText_spacedObject {parts : List Part} {entries : List (String × List Char)}
    (hne : entries ≠ []) (hplain : (entries.all fun e => isPlain e.1) = true)
    (h : Tells parts entries) : RecordText parts (spacedObject entries) :=
  .object h (objectText_spacedObject hne (List.all_eq_true.1 hplain))

end SchemaWalk.Json
