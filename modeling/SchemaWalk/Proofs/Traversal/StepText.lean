import SchemaWalk.Name
import SchemaWalk.Proofs.Json.ScalarText
import SchemaWalk.Proofs.MapM
import SchemaWalk.Step

/-! # The text of a step: where its arguments stand in it, and where dots and commas can -/
namespace SchemaWalk

open Json Text

variable {α : Type}

theorem intercalate_append_cons (sep : List α) (l : List (List α)) (x : List α)
    (r : List (List α)) :
    sep.intercalate (l ++ x :: r) = l.flatMap (· ++ sep) ++ x ++ r.flatMap (sep ++ ·) := by
  have hright : ∀ (x : List α) (r : List (List α)),
      sep.intercalate (x :: r) = x ++ r.flatMap (sep ++ ·) := by
    intro x r
    induction r generalizing x with
    | nil => simp
    | cons y r ih => rw [List.intercalate_cons_cons, ih]; simp
  induction l with
  | nil => exact hright x r
  | cons y l ih =>
    obtain ⟨z, l', hl⟩ := List.exists_cons_of_ne_nil (show l ++ x :: r ≠ [] by simp)
    rw [List.cons_append, hl, List.intercalate_cons_cons, ← hl, ih]
    simp

namespace Json

theorem mem_integerText {n : Int} {c : Char} (h : c ∈ integerText n) :
    c = '-' ∨ c.isDigit = true := by
  have hdigits : ∀ c ∈ Nat.toDigits 10 n.natAbs, c.isDigit = true := fun c hc =>
    Nat.isDigit_of_mem_toDigits (by decide) (by decide) hc
  unfold integerText at h
  split at h
  · exact (List.mem_cons.1 h).imp_right (hdigits c)
  · exact .inr (hdigits c h)

end Json

/-- The characters at which a typed text is cut or ends. -/
def marks : List Char := ['.', ',', '\n']

theorem not_part_of_mark {c : Char} (h : c ∈ marks) :
    Name.isPart c = false ∧ c ≠ ':' ∧ c ≠ ' ' := by
  simp only [marks, List.mem_cons, List.not_mem_nil, or_false] at h
  rcases h with rfl | rfl | rfl <;> decide

theorem not_scalar_of_mark {c : Char} (h : c ∈ marks) :
    c ∉ escapeCharacters ∧ c.isDigit = false ∧ c ≠ '-' ∧ c ≠ '"' ∧ c ∉ "truefalse".toList := by
  simp only [marks, List.mem_cons, List.not_mem_nil, or_false] at h
  rcases h with rfl | rfl | rfl <;> decide

namespace Literal

/-- The kinds of literals that have a form in a document. -/
def Plain : Literal → Prop
  | .boolean _ | .integer _ | .string _ => True
  | _ => False

/-- Whether a literal is a string in which a character occurs. -/
def holds (c : Char) : Literal → Bool
  | .string text => text.toList.contains c
  | _ => false

theorem Plain.render? {v : Literal} (hv : v.Plain) : ∃ text, v.render? = some text := by
  cases v with
  | boolean | integer | string => exact ⟨_, rfl⟩
  | float | json => cases hv

theorem plain_of_render? {v : Literal} {text : List Char} (h : v.render? = some text) :
    v.Plain := by
  cases v with
  | boolean | integer | string => trivial
  | float | json => cases h

theorem mem_render? {v : Literal} {text : List Char} (h : v.render? = some text) {c : Char}
    (hc : c ∈ text) (hmark : c ∈ marks) : ∃ s, v = .string s ∧ c ∈ s.toList ∧ escaped c = [c] := by
  obtain ⟨hescape, hdigit, hminus, hquote, hword⟩ := not_scalar_of_mark hmark
  cases v with
  | boolean b =>
    cases h
    refine absurd ?_ hword
    cases b <;> simp at hc ⊢ <;> grind
  | integer n =>
    cases h
    rcases mem_integerText hc with h | h
    · exact absurd h hminus
    · rw [hdigit] at h
      cases h
  | string s =>
    cases h
    simp only [stringText, List.cons_append, List.mem_cons, List.mem_append, hquote,
      List.not_mem_nil, or_false, false_or, List.mem_flatMap] at hc
    obtain ⟨d, hd, hc⟩ := hc
    obtain ⟨rfl, he⟩ := escaped_eq_of_mem hc hescape
    exact ⟨s, rfl, hd, he⟩
  | float | json => cases h

end Literal

/-- The text of one argument, for literals that have a form in a document. -/
def pairText (e : String × Literal) : List Char := e.1.toList ++ [':', ' '] ++ e.2.render?.getD []

def leading (l : List (String × Literal)) : List Char := l.flatMap fun e => pairText e ++ [',', ' ']

@[simp] theorem leading_nil : leading [] = [] := rfl

@[simp] theorem leading_concat (l : List (String × Literal)) (e : String × Literal) :
    leading (l ++ [e]) = leading l ++ pairText e ++ [',', ' '] := by
  simp [leading]

def following (l : List (String × Literal)) : List Char :=
  l.flatMap fun e => [',', ' '] ++ pairText e

/-- The beginning of an argument whose value is a string, up to some place inside of the string. -/
def opened (key : String) (t : List Char) : List Char :=
  key.toList ++ [':', ' ', '"'] ++ t.flatMap escaped

namespace Selection

def body (s : Selection) : List Char := [',', ' '].intercalate (s.arguments.entries.map pairText)

def text (s : Selection) : List Char :=
  if s.arguments.isEmpty then s.name.toList else s.name.toList ++ '(' :: s.body ++ [')']

/-- A selection whose names can be typed and whose literals have a form in a document. -/
structure Printable (s : Selection) : Prop where
  name : Name.isName s.name = true
  keys : ∀ e ∈ s.arguments.entries, Name.isName e.1 = true
  values : ∀ e ∈ s.arguments.entries, e.2.Plain

def Holds (s : Selection) (c : Char) : Prop :=
  ∃ key text, (key, Literal.string text) ∈ s.arguments.entries ∧ c ∈ text.toList

theorem holds_iff {s : Selection} {c : Char} :
    s.Holds c ↔ ∃ e ∈ s.arguments.entries, e.2.holds c = true := by
  constructor
  · rintro ⟨key, text, hmem, hc⟩
    exact ⟨_, hmem, by simpa [Literal.holds] using hc⟩
  · rintro ⟨⟨key, value⟩, hmem, hc⟩
    cases value with
    | string text => exact ⟨key, text, hmem, by simpa [Literal.holds] using hc⟩
    | boolean | integer | float | json => cases hc

instance (s : Selection) (c : Char) : Decidable (s.Holds c) := decidable_of_iff _ holds_iff.symm

theorem render_of_plain {s : Selection} (hs : ∀ e ∈ s.arguments.entries, e.2.Plain) :
    s.render = .ok s.text := by
  have hpair : ∀ e ∈ s.arguments.entries, argumentText s.name e = .ok (pairText e) := by
    intro e he
    obtain ⟨text, ht⟩ := (hs e he).render?
    simp [argumentText, pairText, ht]
  unfold Selection.render text body
  split
  · rfl
  · rw [mapM_eq_ok hpair]
    rfl

theorem Printable.render {s : Selection} (hs : s.Printable) : s.render = .ok s.text :=
  render_of_plain hs.values

theorem Printable.mem_pairText {s : Selection} (hs : s.Printable) {e : String × Literal}
    (he : e ∈ s.arguments.entries) {c : Char} (hc : c ∈ pairText e) (hmark : c ∈ marks) :
    ∃ t, e.2 = .string t ∧ c ∈ t.toList ∧ escaped c = [c] := by
  obtain ⟨text, ht⟩ := (hs.values e he).render?
  obtain ⟨hpart, hcolon, hspace⟩ := not_part_of_mark hmark
  have hkey : c ∉ e.1.toList := Name.not_mem_of_isNameText (hs.keys e he) hpart
  simp only [pairText, ht, Option.getD_some, List.mem_append, hkey, List.mem_cons, hcolon, hspace,
    List.not_mem_nil, or_false, false_or] at hc
  exact Literal.mem_render? ht hc hmark

theorem Printable.not_mem_pairText {s : Selection} (hs : s.Printable) {c : Char} (hmark : c ∈ marks)
    (hc : ¬s.Holds c) : ∀ e ∈ s.arguments.entries, c ∉ pairText e := by
  intro e he hmem
  obtain ⟨t, ht, hct, -⟩ := hs.mem_pairText he hmem hmark
  exact hc ⟨e.1, t, ht ▸ he, hct⟩

theorem Printable.newline_not_mem_pairText {s : Selection} (hs : s.Printable) :
    ∀ e ∈ s.arguments.entries, '\n' ∉ pairText e := by
  intro e he hmem
  obtain ⟨t, -, -, hescaped⟩ := hs.mem_pairText he hmem (by decide)
  exact absurd hescaped (by decide)

theorem text_of_isEmpty {s : Selection} (h : s.arguments.entries = []) :
    s.text = s.name.toList := by
  simp [text, Dictionary.isEmpty, h]

theorem text_of_ne_nil {s : Selection} (h : s.arguments.entries ≠ []) :
    s.text = s.name.toList ++ '(' :: (s.body ++ [')']) := by
  simp [text, Dictionary.isEmpty, h]

theorem body_eq {s : Selection} {l r : List (String × Literal)} {e : String × Literal}
    (h : s.arguments.entries = l ++ e :: r) :
    s.body = leading l ++ pairText e ++ following r := by
  rw [body, h, List.map_append, List.map_cons, intercalate_append_cons, List.flatMap_map,
    List.flatMap_map]
  rfl

theorem body_ne_nil {s : Selection} (h : s.arguments.entries ≠ []) : s.body ≠ [] := by
  obtain ⟨e, r, he⟩ := List.exists_cons_of_ne_nil h
  rw [body_eq (l := []) he]
  simp [pairText]

theorem not_mem_body {s : Selection} {c : Char} (h : ∀ e ∈ s.arguments.entries, c ∉ pairText e)
    (hcomma : c ≠ ',') (hspace : c ≠ ' ') : c ∉ s.body := by
  cases he : s.arguments.entries with
  | nil => simp [body, he]
  | cons e r =>
    rw [he, List.forall_mem_cons] at h
    rw [body_eq (l := []) he]
    simp only [following, leading_nil, List.nil_append, List.mem_append, List.mem_flatMap, not_or,
      not_exists, not_and]
    refine ⟨h.1, fun f hf => ?_⟩
    simp [hcomma, hspace, h.2 f hf]

theorem Printable.dot_not_mem_text {s : Selection} (hs : s.Printable) (hdot : ¬s.Holds '.') :
    '.' ∉ s.text := by
  have hname : '.' ∉ s.name.toList := Name.not_mem_of_isNameText hs.name (by decide)
  by_cases hne : s.arguments.entries = []
  · rwa [text_of_isEmpty hne]
  · have hbody := not_mem_body (hs.not_mem_pairText (by decide) hdot) (by decide) (by decide)
    rw [text_of_ne_nil hne]
    simp [hname, hbody]

theorem Printable.newline_not_mem_text {s : Selection} (hs : s.Printable) : '\n' ∉ s.text := by
  have hname : '\n' ∉ s.name.toList := Name.not_mem_of_isNameText hs.name (by decide)
  by_cases hne : s.arguments.entries = []
  · rwa [text_of_isEmpty hne]
  · have hbody := not_mem_body hs.newline_not_mem_pairText (by decide) (by decide)
    rw [text_of_ne_nil hne]
    simp [hname, hbody]

theorem Printable.text_eq_cons {s : Selection} (hs : s.Printable) :
    ∃ c rest, s.text = c :: rest ∧ Name.isStart c = true := by
  have hname : Name.isNameText s.name.toList = true := hs.name
  obtain ⟨c, rest, hc⟩ : ∃ c rest, s.name.toList = c :: rest := by
    cases h : s.name.toList with
    | nil => rw [h] at hname; cases hname
    | cons c rest => exact ⟨c, rest, rfl⟩
  rw [hc, Name.isNameText, Bool.and_eq_true] at hname
  unfold text
  split
  · exact ⟨c, rest, hc, hname.1⟩
  · exact ⟨c, _, by rw [hc]; rfl, hname.1⟩

/-- The body up to the first dot or comma of a string, and what follows there. -/
theorem body_of_string {s : Selection} {c : Char} (hmark : c = '.' ∨ c = ',')
    {l r : List (String × Literal)} {key value : String}
    (h : s.arguments.entries = l ++ (key, .string value) :: r) (hc : c ∈ value.toList) :
    ∃ t rest, c ∉ t ∧ s.body = leading l ++ opened key t ++ c :: rest := by
  obtain ⟨t, after, hvalue, ht⟩ := List.eq_append_cons_of_mem hc
  have hescaped : escaped c = [c] := by rcases hmark with rfl | rfl <;> decide
  refine ⟨t, after.flatMap escaped ++ '"' :: following r, ht, ?_⟩
  rw [body_eq h]
  simp [pairText, Literal.render?, stringText, opened, hvalue, hescaped]

end Selection

theorem mem_pairText_of_mem {key value : String} {c : Char} (hmark : c = '.' ∨ c = ',')
    (hc : c ∈ value.toList) : c ∈ pairText (key, .string value) := by
  have hescaped : escaped c = [c] := by rcases hmark with rfl | rfl <;> decide
  have hmem : c ∈ value.toList.flatMap escaped := List.mem_flatMap.2 ⟨c, hc, by simp [hescaped]⟩
  simp only [pairText, Literal.render?, stringText, Option.getD_some, List.mem_append,
    List.mem_cons]
  exact .inr (.inl (.inr hmem))

theorem not_mem_opened {key : String} (hk : Name.isName key = true) {t : List Char} {c : Char}
    (hmark : c ∈ marks) (ht : c ∉ t) : c ∉ opened key t := by
  obtain ⟨hpart, hcolon, hspace⟩ := not_part_of_mark hmark
  obtain ⟨hescape, -, -, hquote, -⟩ := not_scalar_of_mark hmark
  have hkey : c ∉ key.toList := Name.not_mem_of_isNameText hk hpart
  simp only [opened, List.mem_append, List.mem_cons, List.mem_flatMap, List.not_mem_nil, or_false,
    not_or, not_exists, not_and]
  refine ⟨⟨hkey, hcolon, hspace, hquote⟩, fun d hd hc => ?_⟩
  obtain ⟨rfl, -⟩ := escaped_eq_of_mem hc hescape
  exact ht hd

theorem opened_eq_concat {key : String} {before t rest : List Char}
    (h : before ++ opened key t = rest ++ [')']) : ∃ t', rest = before ++ opened key t' := by
  rcases List.eq_nil_or_concat t with rfl | ⟨t', c, rfl⟩
  · have hlast := congrArg List.getLast? h
    simp [opened] at hlast
  · have hne := escaped_ne_nil c
    have hsplit : before ++ opened key (t'.concat c) = before ++ opened key t' ++ escaped c := by
      simp [opened]
    rw [hsplit] at h
    have hmem : ')' ∈ escaped c := by
      have hlast := congrArg List.getLast? h
      simp only [List.getLast?_append, List.getLast?_eq_some_getLast hne, List.getLast?_singleton,
        Option.some_or, Option.some.injEq] at hlast
      exact hlast ▸ List.getLast_mem hne
    obtain ⟨rfl, he⟩ := escaped_eq_of_mem hmem (by decide)
    rw [he] at h
    exact ⟨t', (List.append_cancel_right h).symm⟩

end SchemaWalk
