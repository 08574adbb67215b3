import SchemaWalk.Proofs.Traversal.StepText
import SchemaWalk.Text.Split

/-! # Steps that have the same text are the same -/
namespace SchemaWalk

open Json Text

/-- A name at the front of a text ends where the first character stands that is no part of a
name. -/
theorem Name.append_inj {l l' r r' : List Char} (hl : ∀ c ∈ l, isPart c = true)
    (hl' : ∀ c ∈ l', isPart c = true) (hr : ∀ c ∈ r.head?, isPart c = false)
    (hr' : ∀ c ∈ r'.head?, isPart c = false) (h : l ++ r = l' ++ r') : l = l' ∧ r = r' := by
  obtain rfl : l = l' := by
    rw [← takeWhile_append_of_stop hl hr, h, takeWhile_append_of_stop hl' hr']
  exact ⟨rfl, List.append_cancel_left h⟩

def Argument (e : String × Literal) : Prop := Name.isName e.1 = true ∧ e.2.Plain

def Follows (r : List Char) : Prop := ∀ c ∈ r.head?, c = ','

theorem Follows.stops {r : List Char} (hr : Follows r) : Stops (encode r) := by
  cases r with
  | nil => simp [Stops]
  | cons c r =>
    obtain rfl := hr c (by simp)
    intro b hb
    cases hb
    decide

theorem pairText_append_inj {e f : String × Literal} (he : Argument e) (hf : Argument f)
    {r r' : List Char} (hr : Follows r) (hr' : Follows r')
    (h : pairText e ++ r = pairText f ++ r') : e = f ∧ r = r' := by
  obtain ⟨t, ht⟩ := he.2.render?
  obtain ⟨u, hu⟩ := hf.2.render?
  have hsplit : e.1.toList ++ ([':', ' '] ++ t ++ r) = f.1.toList ++ ([':', ' '] ++ u ++ r') := by
    simpa [pairText, ht, hu] using h
  have hcolon : ∀ s : List Char, ∀ c ∈ ([':', ' '] ++ s).head?, Name.isPart c = false := by
    rintro s c hc
    cases hc
    decide
  obtain ⟨hkey, hvalue⟩ :=
    Name.append_inj (fun c hc => Name.isPart_of_mem he.1 hc)
      (fun c hc => Name.isPart_of_mem hf.1 hc) (by rw [List.append_assoc]; exact hcolon _)
      (by rw [List.append_assoc]; exact hcolon _) hsplit
  rw [List.append_assoc, List.append_assoc] at hvalue
  obtain ⟨hliteral, hrest⟩ :=
    Literal.render?_append_inj ht hu hr.stops hr'.stops (List.append_cancel_left hvalue)
  exact ⟨Prod.ext (String.toList_inj.1 hkey) hliteral, hrest⟩

theorem follows_following (l : List (String × Literal)) : Follows (following l) := by
  cases l <;> simp [Follows, following]

theorem following_inj {l l' : List (String × Literal)} (hl : ∀ e ∈ l, Argument e)
    (hl' : ∀ e ∈ l', Argument e) (h : following l = following l') : l = l' := by
  induction l generalizing l' with
  | nil =>
    cases l' with
    | nil => rfl
    | cons f l' => simp [following] at h
  | cons e l ih =>
    cases l' with
    | nil => simp [following] at h
    | cons f l' =>
      rw [List.forall_mem_cons] at hl hl'
      have hpair : pairText e ++ following l = pairText f ++ following l' := by
        simpa [following] using h
      obtain ⟨rfl, hrest⟩ :=
        pairText_append_inj hl.1 hl'.1 (follows_following l) (follows_following l') hpair
      rw [ih hl.2 hl'.2 hrest]

namespace Selection

variable {s t : Selection}

theorem Printable.argument (hs : s.Printable) : ∀ e ∈ s.arguments.entries, Argument e := fun e he =>
  ⟨hs.keys e he, hs.values e he⟩

theorem body_inj (hs : s.Printable) (ht : t.Printable) (hne : s.arguments.entries ≠ [])
    (hne' : t.arguments.entries ≠ []) (h : s.body = t.body) : s.arguments = t.arguments := by
  obtain ⟨e, l, he⟩ := List.exists_cons_of_ne_nil hne
  obtain ⟨f, l', hf⟩ := List.exists_cons_of_ne_nil hne'
  have hs' := hs.argument
  have ht' := ht.argument
  rw [he, List.forall_mem_cons] at hs'
  rw [hf, List.forall_mem_cons] at ht'
  rw [body_eq (l := []) he, body_eq (l := []) hf] at h
  obtain ⟨rfl, hrest⟩ :=
    pairText_append_inj hs'.1 ht'.1 (follows_following l) (follows_following l') h
  obtain rfl := following_inj hs'.2 ht'.2 hrest
  exact Dictionary.ext (he.trans hf.symm)

def call (s : Selection) : List Char := if s.arguments.isEmpty then [] else '(' :: (s.body ++ [')'])

theorem text_eq (s : Selection) : s.text = s.name.toList ++ s.call := by
  unfold text call
  split <;> simp

theorem head?_call (s : Selection) : ∀ c ∈ s.call.head?, Name.isPart c = false := by
  unfold call
  split
  · simp
  · rintro c hc
    cases hc
    decide

theorem call_inj (hs : s.Printable) (ht : t.Printable) (h : s.call = t.call) :
    s.arguments = t.arguments := by
  by_cases hne : s.arguments.entries = []
  · by_cases hne' : t.arguments.entries = []
    · exact Dictionary.ext (hne.trans hne'.symm)
    · simp [call, Dictionary.isEmpty, hne, hne'] at h
  · by_cases hne' : t.arguments.entries = []
    · simp [call, Dictionary.isEmpty, hne, hne'] at h
    · refine body_inj hs ht hne hne' ?_
      simpa [call, Dictionary.isEmpty, hne, hne'] using h

theorem text_inj (hs : s.Printable) (ht : t.Printable) (h : s.text = t.text) :
    s.name = t.name ∧ s.arguments = t.arguments := by
  rw [text_eq, text_eq] at h
  obtain ⟨hname, hcall⟩ := Name.append_inj (fun c hc => Name.isPart_of_mem hs.name hc)
    (fun c hc => Name.isPart_of_mem ht.name hc) s.head?_call t.head?_call h
  exact ⟨String.toList_inj.1 hname, call_inj hs ht hcall⟩

end Selection

end SchemaWalk
