import SchemaWalk.Text.Blank
import SchemaWalk.Text.Split

/-! # Trimming: what is left of a text between the blanks at its two ends -/
namespace SchemaWalk.Text

/-- What is left of a text without the blanks at its two ends. -/
structure Trimmed (text inside : List Char) : Prop where
  around : ∃ l r, text = l ++ inside ++ r ∧ isBlankText l = true ∧ isBlankText r = true
  head : ∀ c ∈ inside.head?, isBlank c = false
  last : ∀ c ∈ inside.getLast?, isBlank c = false

theorem head?_dropBlanks (s : List Char) : ∀ c ∈ (dropBlanks s).head?, isBlank c = false := by
  intro c hc
  have hstop := List.head?_dropWhile_not isBlank s
  rw [Option.mem_def, dropBlanks] at hc
  rw [hc] at hstop
  simpa using hstop

theorem trimmed_trim (text : List Char) : Trimmed text (trim text) := by
  have hfront : text.takeWhile isBlank ++ dropBlanks text = text := List.takeWhile_append_dropWhile
  have hback : trim text ++ ((dropBlanks text).reverse.takeWhile isBlank).reverse =
      dropBlanks text := by
    rw [trim, ← List.reverse_append]
    exact (congrArg List.reverse List.takeWhile_append_dropWhile).trans (List.reverse_reverse _)
  refine ⟨⟨text.takeWhile isBlank, ((dropBlanks text).reverse.takeWhile isBlank).reverse, ?_, ?_,
    ?_⟩, ?_, ?_⟩
  · rw [List.append_assoc, hback, hfront]
  · exact List.all_takeWhile
  · rw [isBlankText, List.all_reverse]
    exact List.all_takeWhile
  · intro c hc
    apply head?_dropBlanks text
    rw [← hback, List.head?_append, Option.mem_def, hc]
    rfl
  · intro c hc
    apply head?_dropBlanks (dropBlanks text).reverse
    rwa [trim, List.getLast?_reverse] at hc

theorem Trimmed.eq {text inside : List Char} (h : Trimmed text inside) : trim text = inside := by
  obtain ⟨⟨l, r, rfl, hl, hr⟩, hhead, hlast⟩ := h
  rw [isBlankText, List.all_eq_true] at hl hr
  cases inside with
  | nil =>
    rw [trim_eq_nil_iff, isBlankText, List.all_eq_true]
    simpa [or_imp, forall_and] using ⟨hl, hr⟩
  | cons c s =>
    have hfront : dropBlanks (l ++ (c :: s ++ r)) = c :: s ++ r :=
      dropWhile_append_of_stop hl (by simpa using hhead)
    have hback : dropBlanks (r.reverse ++ (c :: s).reverse) = (c :: s).reverse :=
      dropWhile_append_of_stop (by simpa using hr) (by rwa [List.head?_reverse])
    rw [List.append_assoc, trim, hfront, List.reverse_append, hback, List.reverse_reverse]

end SchemaWalk.Text
