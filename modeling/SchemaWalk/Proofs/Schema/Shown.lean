import SchemaWalk.Name
import SchemaWalk.Schema.TypeRef
import SchemaWalk.Text.Split

/-! # What is shown for a reference, and what can be read back from it -/
namespace SchemaWalk

namespace Text

/-- Equal texts have equal parts, if each one's first part ends with a mark that does not stand in
its second part. -/
theorem append_inj_of_mark {p : Char → Bool} {l l' r r' : List Char} (h : l ++ r = l' ++ r')
    (hl : ∀ c ∈ l.getLast?, p c = true) (hl' : ∀ c ∈ l'.getLast?, p c = true)
    (hr : ∀ c ∈ r, p c = false) (hr' : ∀ c ∈ r', p c = false) : l = l' ∧ r = r' := by
  have hfirst : ∀ {l r : List Char}, (∀ c ∈ l.getLast?, p c = true) → (∀ c ∈ r, p c = false) →
      (l ++ r).reverse.dropWhile (fun c => !p c) = l.reverse := by
    intro l r hl hr
    rw [List.reverse_append]
    apply dropWhile_append_of_stop
    · intro c hc
      simp [hr c (List.mem_reverse.1 hc)]
    · intro c hc
      rw [List.head?_reverse] at hc
      simp [hl c hc]
  have hparts : l = l' := by rw [← List.reverse_inj, ← hfirst hl hr, ← hfirst hl' hr', h]
  subst hparts
  exact ⟨rfl, List.append_cancel_left h⟩

end Text

namespace Kind

/-- What stands before a name and its list marks. -/
def opening : Kind → String
  | .scalar => "\x7b"
  | .union => "Union<"
  | .enum => "Enum<"
  | .inputObject => "InputObject<"
  | _ => ""

/-- What stands after a name. -/
def closing : Kind → String
  | .scalar => "\x7d"
  | .union | .enum | .inputObject => ">"
  | _ => ""

/-- Kinds that cannot be told apart: an object is shown as an interface is. -/
def Alike (k l : Kind) : Prop := k = l ∨ k = .object ∧ l = .interface ∨ k = .interface ∧ l = .object

instance (k l : Kind) : Decidable (k.Alike l) :=
  inferInstanceAs (Decidable (k = l ∨ k = .object ∧ l = .interface ∨ k = .interface ∧ l = .object))

variable {k l : Kind}

theorem alike_of_opening_eq (hk : k.isWrapper = false) (hl : l.isWrapper = false)
    (h : k.opening = l.opening) : k.Alike l := by
  have hall : ∀ k ∈ all, ∀ l ∈ all, k.isWrapper = false → l.isWrapper = false →
      k.opening = l.opening → k.Alike l := by
    decide
  exact hall k k.mem_all l l.mem_all hk hl h

theorem Alike.opening_eq (h : k.Alike l) : k.opening = l.opening := by
  rcases h with rfl | ⟨rfl, rfl⟩ | ⟨rfl, rfl⟩ <;> rfl

theorem Alike.closing_eq (h : k.Alike l) : k.closing = l.closing := by
  rcases h with rfl | ⟨rfl, rfl⟩ | ⟨rfl, rfl⟩ <;> rfl

/-- The last mark of an opening stands nowhere else in what is shown. -/
def isOpeningEnd (c : Char) : Bool := c = '\x7b' || c = '<'

theorem isOpeningEnd_of_opening (k : Kind) :
    ∀ c ∈ k.opening.toList.getLast?, isOpeningEnd c = true := by
  rintro c hc
  cases k <;> simp [opening] at hc <;> subst hc <;> decide

theorem isOpeningEnd_of_closing (k : Kind) : ∀ c ∈ k.closing.toList, isOpeningEnd c = false := by
  rintro c hc
  cases k <;> simp [closing] at hc <;> subst hc <;> decide

end Kind

namespace TypeRef

open Text

/-- The well-formed references to a type: lists and marks that a value is never null, in any nesting
around the type's name. The number is that of the lists. -/
inductive RefersTo (kind : Kind) (name : String) : Nat → TypeRef → Prop
  | named (h : kind.isWrapper = false) : RefersTo kind name 0 (.named kind name)
  | list {lists : Nat} {t : TypeRef} (h : RefersTo kind name lists t) :
      RefersTo kind name (lists + 1) t.list
  | nonNull {lists : Nat} {t : TypeRef} (h : RefersTo kind name lists t) :
      RefersTo kind name lists t.nonNull

/-- A pair of brackets for each list. -/
def listMarks (lists : Nat) : List Char := (List.replicate lists ['[', ']']).flatten

theorem listMarks_succ (lists : Nat) : listMarks (lists + 1) = listMarks lists ++ ['[', ']'] := by
  simp [listMarks, List.replicate_succ']

theorem length_listMarks (lists : Nat) : (listMarks lists).length = lists * 2 := by
  simp [listMarks]

theorem mem_listMarks {lists : Nat} {c : Char} (h : c ∈ listMarks lists) : c = '[' ∨ c = ']' := by
  obtain ⟨_, hmarks, hc⟩ := List.mem_flatten.1 h
  obtain ⟨-, rfl⟩ := List.mem_replicate.1 hmarks
  simpa using hc

variable {kind kind' : Kind} {name name' : String} {lists lists' : Nat} {t t' : TypeRef}

theorem RefersTo.isWrapper_eq (h : t.RefersTo kind name lists) : kind.isWrapper = false := by
  induction h with
  | named h => exact h
  | list _ ih => exact ih
  | nonNull _ ih => exact ih

theorem typeName?_wrap (k : Kind) (t : TypeRef) : (t.wrap k).typeName? = t.typeName? := by
  obtain ⟨outer, inner⟩ := t
  cases inner <;> rfl

theorem RefersTo.typeName?_eq (h : t.RefersTo kind name lists) : t.typeName? = some name := by
  induction h with
  | named => rfl
  | list _ ih => exact (typeName?_wrap _ _).trans ih
  | nonNull _ ih => exact (typeName?_wrap _ _).trans ih

theorem decorate_of_not_isWrapper (h : kind.isWrapper = false) (text : List Char) :
    decorate kind text = kind.opening.toList ++ (text ++ kind.closing.toList) := by
  cases kind <;> simp_all [decorate, Kind.isWrapper, Kind.opening, Kind.closing, Kind.displayName]

/-- The links put their marks around the text from the outermost one inward, so the text that they
start from is kept open. -/
theorem RefersTo.foldl_decorate (h : t.RefersTo kind name lists) (text : List Char) :
    t.links.foldl (fun text link => decorate link.kind text) text =
      kind.opening.toList ++ (listMarks lists ++ text ++ kind.closing.toList) := by
  induction h generalizing text with
  | named h => exact decorate_of_not_isWrapper h text
  | @list lists t _ ih =>
    have houter : t.list.links = ⟨.list, none⟩ :: t.links := rfl
    rw [houter, List.foldl_cons, ih, listMarks_succ,
      List.append_assoc (listMarks lists) ['[', ']'] text]
    rfl
  | @nonNull lists t _ ih =>
    have houter : t.nonNull.links = ⟨.nonNull, none⟩ :: t.links := rfl
    rw [houter, List.foldl_cons, ih]
    rfl

theorem RefersTo.toList_display (h : t.RefersTo kind name lists) :
    t.display.toList =
      kind.opening.toList ++ (listMarks lists ++ name.toList ++ kind.closing.toList) := by
  rw [display, String.toList_ofList, h.typeName?_eq, h.foldl_decorate]
  rfl

/-! ## Reading back -/

theorem isOpeningEnd_of_body (hname : Name.isName name = true) :
    ∀ c ∈ listMarks lists ++ name.toList ++ kind.closing.toList, Kind.isOpeningEnd c = false := by
  have hpart : ∀ c ∈ name.toList, Kind.isOpeningEnd c = false := by
    intro c hc
    have hne : c ≠ '\x7b' ∧ c ≠ '<' := by
      constructor <;> rintro rfl <;> exact Name.not_mem_of_isNameText hname (by decide) hc
    simp [Kind.isOpeningEnd, hne]
  intro c hc
  rcases List.mem_append.1 hc with hc | hc
  · rcases List.mem_append.1 hc with hc | hc
    · rcases mem_listMarks hc with rfl | rfl <;> rfl
    · exact hpart c hc
  · exact kind.isOpeningEnd_of_closing c hc

/-- No bracket stands in a name, so that the marks end with the last one. -/
theorem listMarks_append_inj (hname : Name.isName name = true) (hname' : Name.isName name' = true)
    (h : listMarks lists ++ name.toList = listMarks lists' ++ name'.toList) :
    lists = lists' ∧ name = name' := by
  have hmarks : ∀ lists, ∀ c ∈ (listMarks lists).getLast?, !Name.isPart c = true := by
    intro lists c hc
    rcases mem_listMarks (List.mem_of_getLast? hc) with rfl | rfl <;> decide
  have hparts : ∀ {name : String}, Name.isName name = true →
      ∀ c ∈ name.toList, (!Name.isPart c) = false := by
    intro name hname c hc
    simp [Name.isPart_of_mem hname hc]
  obtain ⟨hlists, htext⟩ := append_inj_of_mark (p := fun c => !Name.isPart c) h
    (by simpa using hmarks lists) (by simpa using hmarks lists') (hparts hname) (hparts hname')
  have hlength := congrArg List.length hlists
  rw [length_listMarks, length_listMarks] at hlength
  exact ⟨by omega, String.toList_inj.1 htext⟩

theorem RefersTo.eq_of_display_eq (h : t.RefersTo kind name lists)
    (h' : t'.RefersTo kind' name' lists') (hname : Name.isName name = true)
    (hname' : Name.isName name' = true) (hdisplay : t.display = t'.display) :
    name = name' ∧ lists = lists' ∧ kind.Alike kind' := by
  rw [← String.toList_inj, h.toList_display, h'.toList_display] at hdisplay
  obtain ⟨hopening, hrest⟩ := append_inj_of_mark hdisplay kind.isOpeningEnd_of_opening
    kind'.isOpeningEnd_of_opening (isOpeningEnd_of_body hname) (isOpeningEnd_of_body hname')
  have halike :=
    Kind.alike_of_opening_eq h.isWrapper_eq h'.isWrapper_eq (String.toList_inj.1 hopening)
  rw [halike.closing_eq] at hrest
  obtain ⟨hlists, hnames⟩ := listMarks_append_inj hname hname' (List.append_cancel_right hrest)
  exact ⟨hnames, hlists, halike⟩

/-- A reference is shown by the name of its type, with a pair of brackets for each list and
the frame of the type's kind around them; marks that a value is never null do not show,
wherever they stand. So the name, the number of lists and the kind can be read back, but
objects look like interfaces. -/
theorem shown_by_name_lists_and_kind (h : t.RefersTo kind name lists)
    (h' : t'.RefersTo kind' name' lists') :
    t.typeName? = some name ∧
      t.display = kind.opening ++ String.ofList (listMarks lists) ++ name ++ kind.closing ∧
      (Name.isName name = true → Name.isName name' = true →
        (t.display = t'.display ↔ name = name' ∧ lists = lists' ∧ kind.Alike kind')) := by
  refine ⟨h.typeName?_eq, ?_, fun hname hname' => ⟨h.eq_of_display_eq h' hname hname', ?_⟩⟩
  · rw [← String.toList_inj, h.toList_display]
    simp
  · rintro ⟨rfl, rfl, halike⟩
    rw [← String.toList_inj, h.toList_display, h'.toList_display, halike.opening_eq,
      halike.closing_eq]

/-- Lists of names, of which one may be absent and the other may not. -/
theorem shown_by_name_lists_and_kind_of_names :
    let string : TypeRef := .named .scalar "String"
    string.nonNull.list.nonNull.RefersTo .scalar "String" 1 ∧
      string.list.RefersTo .scalar "String" 1 ∧ Name.isName "String" = true ∧
      string.nonNull.list.nonNull.display = "\x7b[]String\x7d" ∧
      string.nonNull.list.nonNull.display = string.list.display := by
  intro string
  have h : string.nonNull.list.nonNull.RefersTo .scalar "String" 1 :=
    .nonNull (.list (.nonNull (.named rfl)))
  have h' : string.list.RefersTo .scalar "String" 1 := .list (.named rfl)
  have hname : Name.isName "String" = true := by decide
  obtain ⟨-, hdisplay, hiff⟩ := shown_by_name_lists_and_kind h h'
  exact ⟨h, h', hname, hdisplay.trans (by decide), (hiff hname hname).2 ⟨rfl, rfl, .inl rfl⟩⟩

example : (TypeRef.named .enum "Status").list.list.display = "Enum<[][]Status>" := by decide

end TypeRef

end SchemaWalk
