import SchemaWalk.Proofs.Document.Literals

/-! # The text of a literal by itself: one line, and read back as it was -/
namespace SchemaWalk

open Json

namespace Document

/-- A text that is one string literal: the last quote closes what the first one opens, and all
others are escaped. -/
structure Enclosed (text : List Char) : Prop where
  quoted : ∃ inside, text = '"' :: inside ++ ['"']
  closed : Region.outside.after text = .outside
  escape : ∀ before after, before ≠ [] → after ≠ [] → text = before ++ '"' :: after →
    Region.outside.after before = .escape

theorem region_of_quote {c : Char} {before after : List Char}
    (h : escaped c = before ++ '"' :: after) : Region.inside.after before = .escape := by
  have hmem : '"' ∈ escaped c := by simp [h]
  rcases escaped_cases c with ⟨d, b, he, -⟩ | ⟨-, he⟩ | ⟨hquote, -, -, he⟩
  · -- of the two characters only the second can be a quote
    rw [he] at h
    match before, h with
    | [], h => simp at h
    | [e], h =>
      obtain ⟨rfl, -⟩ := List.cons.inj h
      rfl
    | _ :: _ :: before, h => simp at h
  · simp [he, (hexDigit_ne _).1.symm] at hmem
  · rw [he, List.mem_singleton] at hmem
    exact absurd hmem.symm hquote

theorem region_of_quote_flatMap {t before after : List Char}
    (h : t.flatMap escaped = before ++ '"' :: after) : Region.inside.after before = .escape := by
  induction t generalizing before with
  | nil => simp at h
  | cons c t ih =>
    have hinside := (region_escaped c).1
    rw [List.flatMap_cons, List.append_eq_append_iff] at h
    obtain ⟨rest, rfl, h⟩ | ⟨rest, he, h⟩ := h
    · rw [Region.after_append, hinside]
      exact ih h
    · cases rest with
      | nil =>
        have hfirst : t.flatMap escaped = [] ++ '"' :: after := h.symm
        rw [← List.append_nil before, ← he, hinside]
        exact ih hfirst
      | cons d rest =>
        obtain ⟨rfl, -⟩ := List.cons.inj h
        exact region_of_quote he

theorem enclosed_stringText (s : String) : Enclosed (stringText s) := by
  refine ⟨⟨_, rfl⟩, (sealed_stringText s).closed, ?_⟩
  intro before after hbefore hafter h
  obtain ⟨c, before, rfl⟩ := List.exists_cons_of_ne_nil hbefore
  obtain ⟨after, d, rfl⟩ := (List.eq_nil_or_concat after).resolve_left hafter
  rw [stringText, List.cons_append, List.cons_append, List.cons.injEq, List.concat_eq_append,
    ← List.cons_append, ← List.append_assoc] at h
  obtain ⟨rfl, h⟩ := h
  exact region_of_quote_flatMap (List.append_inj_left' h rfl)

end Document

namespace Json

/-- A text without control characters below the space. -/
def noControl (text : List Char) : Bool := text.all fun c => 0x20 ≤ c.toNat

theorem space_le_of_noControl {text : List Char} (h : noControl text = true) {c : Char}
    (hc : c ∈ text) : 0x20 ≤ c.toNat :=
  of_decide_eq_true (List.all_eq_true.1 h c hc)

theorem space_le_of_mem_escaped {c d : Char} (h : d ∈ escaped c) : 0x20 ≤ d.toNat := by
  have hescape : noControl escapeCharacters = true := by decide
  rcases mem_escaped h with hd | ⟨rfl, hc, -⟩
  · exact space_le_of_noControl hescape hd
  · exact hc

end Json

namespace Literal

open Document

theorem space_le_of_mem_render? {v : Literal} {text : List Char} (h : v.render? = some text)
    {c : Char} (hc : c ∈ text) : 0x20 ≤ c.toNat := by
  cases v with
  | boolean b =>
    cases h
    have hword : noControl (if b then "true" else "false").toList = true := by cases b <;> decide
    exact space_le_of_noControl hword hc
  | integer n =>
    cases h
    rcases mem_integerText hc with rfl | hc
    · decide
    · have := Name.toNat_of_isPart (c := c) (by simp [Name.isPart, hc])
      omega
  | string s =>
    cases h
    rw [stringText, List.cons_append, List.mem_cons, List.mem_append, List.mem_flatMap,
      List.mem_singleton] at hc
    rcases hc with rfl | ⟨d, -, hc⟩ | rfl
    · decide
    · exact space_le_of_mem_escaped hc
    · decide
  | float | json => cases h

/-- Booleans, integers and strings have a text of one line that is read back as the value it was
written for, and a string's is one string literal. Floats and values kept as JSON have none. -/
theorem writes_what_it_reads_back (v : Literal) :
    (v.Plain → ∃ text, v.render? = some text ∧
      (∀ before after, Gap before → Gap after → parse (before ++ text ++ after) = .ok v) ∧
      (∀ c ∈ text, 0x20 ≤ c.toNat) ∧ ∀ s, v = .string s → Enclosed text) ∧
    (¬v.Plain → v.render? = none) := by
  refine ⟨fun hv => ?_, fun hv => ?_⟩
  · obtain ⟨text, htext⟩ := hv.render?
    refine ⟨text, htext, fun before after hb ha => parse_render? htext hb ha,
      fun c hc => space_le_of_mem_render? htext hc, ?_⟩
    intro s hs
    rw [hs] at htext
    cases htext
    exact enclosed_stringText s
  · cases hrender : v.render? with
    | none => rfl
    | some text => exact absurd (plain_of_render? hrender) hv

example : (Literal.string "\"a\\\\\", é\n\x01😀").render? =
    some "\"\\\"a\\\\\\\\\\\", é\\n\\u0001😀\"".toList := by decide

end Literal

end SchemaWalk
