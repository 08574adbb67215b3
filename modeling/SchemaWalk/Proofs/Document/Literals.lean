import SchemaWalk.Proofs.Traversal.Distinct

/-! # String literals in a text, and the braces that stand outside of them -/
namespace SchemaWalk

open Json

namespace Document

/-- Where a reader of a text is: outside of string literals, inside of one, or behind a backslash
inside of one. -/
inductive Region where
  | outside
  | inside
  | escape
deriving DecidableEq

def Region.next : Region → Char → Region
  | .outside, c => if c = '"' then .inside else .outside
  | .inside, c => if c = '"' then .outside else if c = '\\' then .escape else .inside
  | .escape, _ => .inside

/-- Where a text that begins in a region ends. -/
def Region.after (r : Region) (text : List Char) : Region := text.foldl Region.next r

/-- The characters outside of string literals, the quotes of these left out. -/
def Region.outer : Region → List Char → List Char
  | _, [] => []
  | r, c :: text =>
    let r' := r.next c
    if r = .outside ∧ r' = .outside then c :: r'.outer text else r'.outer text

def isBrace (c : Char) : Bool := c = '\x7b' || c = '\x7d'

/-- The braces of a text outside of its string literals. -/
def braces (text : List Char) : List Char := (Region.outside.outer text).filter isBrace

/-- A text in which every string literal is closed and no brace stands outside of one. -/
structure Sealed (text : List Char) : Prop where
  closed : Region.outside.after text = .outside
  braces : braces text = []

theorem Region.after_append (r : Region) (s t : List Char) :
    r.after (s ++ t) = (r.after s).after t :=
  List.foldl_append

theorem Region.outer_append (r : Region) (s t : List Char) :
    r.outer (s ++ t) = r.outer s ++ (r.after s).outer t := by
  induction s generalizing r with
  | nil => rfl
  | cons c s ih =>
    simp only [List.cons_append, Region.outer, ih]
    split <;> rfl

theorem braces_append {s : List Char} (hs : Region.outside.after s = .outside) (t : List Char) :
    braces (s ++ t) = braces s ++ braces t := by
  rw [braces, Region.outer_append, hs, List.filter_append, ← braces, ← braces]

theorem Sealed.append {s t : List Char} (hs : Sealed s) (ht : Sealed t) : Sealed (s ++ t) :=
  ⟨by rw [Region.after_append, hs.closed, ht.closed],
    by rw [braces_append hs.closed, hs.braces, ht.braces]; rfl⟩

theorem sealed_nil : Sealed [] := ⟨rfl, rfl⟩

theorem sealed_flatMap {α : Type} {f : α → List Char} {l : List α} (h : ∀ x ∈ l, Sealed (f x)) :
    Sealed (l.flatMap f) := by
  induction l with
  | nil => exact sealed_nil
  | cons x l ih =>
    rw [List.forall_mem_cons] at h
    exact h.1.append (ih h.2)

/-- A character that neither begins a literal nor is a brace. -/
def isPlain (c : Char) : Bool := c ≠ '"' && !isBrace c

theorem sealed_of_plain {text : List Char} (h : text.all isPlain = true) : Sealed text := by
  induction text with
  | nil => exact sealed_nil
  | cons c text ih =>
    rw [List.all_cons, Bool.and_eq_true] at h
    have hc : c ≠ '"' ∧ isBrace c = false := by simpa [isPlain] using h.1
    have hnext : Region.outside.next c = .outside := by simp [Region.next, hc.1]
    obtain ⟨hclosed, hbraces⟩ := ih h.2
    refine ⟨?_, ?_⟩
    · rw [Region.after, List.foldl_cons, hnext, ← Region.after, hclosed]
    · simp only [braces, Region.outer, hnext, and_self, if_true] at hbraces ⊢
      rw [List.filter_cons_of_neg (by simp [hc.2]), hbraces]

theorem hexDigit_ne (n : Nat) : hexDigit n ≠ '"' ∧ hexDigit n ≠ '\\' := by
  have hdigit : ∀ m < 16, Nat.digitChar m ≠ '"' ∧ Nat.digitChar m ≠ '\\' := by decide
  exact hdigit _ (Nat.mod_lt n (by decide))

theorem region_escaped (c : Char) :
    Region.inside.after (escaped c) = .inside ∧ Region.inside.outer (escaped c) = [] := by
  rcases escaped_cases c with ⟨d, b, he, -⟩ | ⟨hc, he⟩ | ⟨hq, hb, -, he⟩
  · rw [he]
    exact ⟨rfl, by simp [Region.outer, Region.next]⟩
  · rw [he]
    simp [Region.after, Region.outer, Region.next, hexDigit_ne]
  · rw [he]
    simp [Region.after, Region.outer, Region.next, hq, hb]

theorem region_flatMap_escaped (t : List Char) :
    Region.inside.after (t.flatMap escaped) = .inside ∧
      Region.inside.outer (t.flatMap escaped) = [] := by
  induction t with
  | nil => exact ⟨rfl, rfl⟩
  | cons c t ih =>
    obtain ⟨hafter, houter⟩ := region_escaped c
    rw [List.flatMap_cons, Region.after_append, Region.outer_append, hafter, houter, ih.1, ih.2]
    exact ⟨rfl, rfl⟩

theorem sealed_stringText (t : String) : Sealed (stringText t) := by
  obtain ⟨hafter, houter⟩ := region_flatMap_escaped t.toList
  have htext : stringText t = ['"'] ++ (t.toList.flatMap escaped ++ ['"']) := rfl
  have hquote : Region.outside.after ['"'] = .inside := rfl
  refine ⟨?_, ?_⟩
  · rw [htext, Region.after_append, hquote, Region.after_append, hafter]
    rfl
  · rw [braces, htext, Region.outer_append, hquote, Region.outer_append, houter, hafter]
    rfl

theorem isPlain_of_isPart {c : Char} (hc : Name.isPart c = true) : isPlain c = true := by
  have hbounds := Name.toNat_of_isPart hc
  have hne : ∀ d : Char, d.toNat < 48 ∨ 122 < d.toNat → c ≠ d := by
    rintro d hd rfl
    omega
  simp [isPlain, isBrace, hne '"' (by decide), hne '\x7b' (by decide), hne '\x7d' (by decide)]

theorem sealed_name {name : String} (h : Name.isName name = true) : Sealed name.toList :=
  sealed_of_plain (List.all_eq_true.2 fun _ hc => isPlain_of_isPart (Name.isPart_of_mem h hc))

theorem sealed_render? {v : Literal} {text : List Char} (h : v.render? = some text) :
    Sealed text := by
  cases v with
  | boolean b =>
    cases h
    cases b <;> exact sealed_of_plain (by decide)
  | integer n =>
    cases h
    refine sealed_of_plain (List.all_eq_true.2 fun c hc => ?_)
    rcases mem_integerText hc with rfl | hc
    · decide
    · exact isPlain_of_isPart (by simp [Name.isPart, hc])
  | string t =>
    cases h
    exact sealed_stringText t
  | float | json => cases h

theorem sealed_pairText {e : String × Literal} (he : Argument e) : Sealed (pairText e) := by
  obtain ⟨text, htext⟩ := he.2.render?
  rw [pairText, htext]
  exact ((sealed_name he.1).append (sealed_of_plain (by decide))).append (sealed_render? htext)

theorem sealed_text {s : Selection} (hs : s.Printable) : Sealed s.text := by
  rw [Selection.text_eq]
  refine (sealed_name hs.name).append ?_
  cases hentries : s.arguments.entries with
  | nil => simpa [Selection.call, Dictionary.isEmpty, hentries] using sealed_nil
  | cons e l =>
    have harguments := hs.argument
    rw [hentries, List.forall_mem_cons] at harguments
    have hbody : s.call = ['('] ++ (pairText e ++ following l) ++ [')'] := by
      simp [Selection.call, Dictionary.isEmpty, hentries, Selection.body_eq (l := []) hentries]
    have hfollowing : Sealed (following l) := sealed_flatMap fun f hf =>
      (sealed_of_plain (by decide)).append (sealed_pairText (harguments.2 f hf))
    rw [hbody]
    exact ((sealed_of_plain (by decide)).append
      ((sealed_pairText harguments.1).append hfollowing)).append (sealed_of_plain (by decide))

end Document

end SchemaWalk
