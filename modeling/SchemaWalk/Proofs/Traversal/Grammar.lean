import Mathlib.Data.List.Forall2
import SchemaWalk.Proofs.Dictionary
import SchemaWalk.Proofs.Text.Trimming
import SchemaWalk.Proofs.Traversal.Segment

/-! # The grammar of segments: which texts are one, and what is wrong with each of the others -/
namespace SchemaWalk.Traversal

open Text

/-- `name: value`. Blanks may stand around the name, and the text of the value is all that follows
the first colon. -/
inductive ArgumentText : List Char → String × Literal → Prop
  | intro {key text : List Char} {name : String} {value : Literal} :
      ':' ∉ key → Trimmed key name.toList → Name.isName name = true →
        Literal.parse text = .ok value → ArgumentText (key ++ ':' :: text) (name, value)

/-- What is wrong with a text that is no argument: it has no colon, or else no name before it, or
else no literal after it. Names and texts are told without the blanks around them. -/
inductive ArgumentFault (segment : List Char) : List Char → TraversalError → Prop
  | noValue {pair inside : List Char} : ':' ∉ pair → Trimmed pair inside →
    ArgumentFault segment pair
      (.missingArgumentValue (String.ofList segment) (String.ofList inside))
  | name {key text inside : List Char} : ':' ∉ key → Trimmed key inside →
    Name.isNameText inside = false →
    ArgumentFault segment (key ++ ':' :: text)
      (.invalidArgumentName (String.ofList segment) (String.ofList inside))
  | value {key text inside : List Char} {name : String} {reason : Json.Error} :
      ':' ∉ key → Trimmed key name.toList → Name.isName name = true →
        Literal.parse text = .error reason → Trimmed text inside →
        ArgumentFault segment (key ++ ':' :: text)
          (.invalidArgumentValue name (String.ofList inside) reason)

/-- `name(body)`, where the body is one line and may itself hold parentheses. -/
structure CallText (text : List Char) (name : String) (body : List Char) : Prop where
  eq : text = name.toList ++ '(' :: (body ++ [')'])
  name : Name.isName name = true
  body_ne_nil : body ≠ []
  one_line : '\n' ∉ body

/-- The parts of a body between its commas. -/
structure CommaParts (body : List Char) (pairs : List (List Char)) : Prop where
  ne_nil : pairs ≠ []
  eq : body = [','].intercalate pairs
  comma : ∀ pair ∈ pairs, ',' ∉ pair

/-- Each name of the entries has the value of the last entry with that name. -/
def KeepsLast (arguments : Dictionary Literal) (entries : List (String × Literal)) : Prop :=
  ∀ name value, arguments.find? name = some value ↔
    ∃ before later, entries = before ++ (name, value) :: later ∧ ∀ e ∈ later, e.1 ≠ name

/-- A bare name, or a name with arguments in parentheses. A step that has just been typed has no
scope and no links. -/
inductive SegmentText : List Char → Step → Prop
  | bare {name : String} : Name.isName name = true → SegmentText name.toList { name }
  | call {text body : List Char} {name : String} {pairs : List (List Char)}
      {entries : List (String × Literal)} {arguments : Dictionary Literal} :
      CallText text name body → CommaParts body pairs → List.Forall₂ ArgumentText pairs entries →
        KeepsLast arguments entries → SegmentText text { name, arguments }

/-- What is wrong with a text that is no segment: nothing is there, or it has neither form, or an
argument has a fault and none before it has one. -/
inductive SegmentFault : List Char → TraversalError → Prop
  | empty : SegmentFault [] .emptySegment
  | shape {text : List Char} : text ≠ [] → Name.isNameText text = false →
    (∀ name body, ¬CallText text name body) →
    SegmentFault text (.invalidSegment (String.ofList text))
  | argument {text body pair : List Char} {name : String} {before later : List (List Char)}
      {e : TraversalError} : CallText text name body → CommaParts body (before ++ pair :: later) →
        (∀ p ∈ before, ∃ entry, ArgumentText p entry) → ArgumentFault text pair e →
        SegmentFault text e

theorem argument_of_text {segment pair : List Char} {e : String × Literal}
    (h : ArgumentText pair e) : argument segment pair = .ok e := by
  cases h with
  | @intro key text name value hcolon htrim hname hvalue =>
    rw [argument, cut_eq_some_iff.2 ⟨rfl, hcolon⟩]
    simp only [htrim.eq, show Name.isNameText name.toList = true from hname, if_true, hvalue,
      String.ofList_toList]

theorem argument_of_fault {segment pair : List Char} {e : TraversalError}
    (h : ArgumentFault segment pair e) : argument segment pair = .error e := by
  cases h with
  | noValue hcolon htrim => rw [argument, cut_eq_none_iff.2 hcolon, htrim.eq]
  | name hcolon htrim hname =>
    rw [argument, cut_eq_some_iff.2 ⟨rfl, hcolon⟩]
    simp only [htrim.eq, hname, Bool.false_eq_true, if_false]
  | @value key text inside name reason hcolon htrim hname hvalue hinside =>
    rw [argument, cut_eq_some_iff.2 ⟨rfl, hcolon⟩]
    simp only [htrim.eq, show Name.isNameText name.toList = true from hname, if_true, hvalue,
      hinside.eq, String.ofList_toList]

theorem argument_cases (segment pair : List Char) :
    (∃ e, ArgumentText pair e) ∨ ∃ e, ArgumentFault segment pair e := by
  by_cases hcolon : ':' ∈ pair
  · obtain ⟨key, text, rfl, hkey⟩ := List.eq_append_cons_of_mem hcolon
    have htrim : Trimmed key (String.ofList (trim key)).toList := by
      rw [String.toList_ofList]
      exact trimmed_trim key
    cases hname : Name.isNameText (trim key) with
    | false => exact .inr ⟨_, .name hkey (trimmed_trim key) hname⟩
    | true =>
      have hname' : Name.isName (String.ofList (trim key)) = true := by
        rwa [Name.isName, String.toList_ofList]
      cases hvalue : Literal.parse text with
      | ok value => exact .inl ⟨_, .intro hkey htrim hname' hvalue⟩
      | error reason => exact .inr ⟨_, .value hkey htrim hname' hvalue (trimmed_trim text)⟩
  · exact .inr ⟨_, .noValue hcolon (trimmed_trim pair)⟩

theorem argument_eq_iff (segment pair : List Char) :
    (∀ e, argument segment pair = .ok e ↔ ArgumentText pair e) ∧
      ∀ e, argument segment pair = .error e ↔ ArgumentFault segment pair e :=
  except_eq_iff (fun _ => argument_of_text) (fun _ => argument_of_fault)
    (argument_cases segment pair)

theorem commaParts_pieces (body : List Char) : CommaParts body (pieces ',' body) :=
  ⟨pieces_ne_nil _ _, (intercalate_pieces _ _).symm, fun _ => not_mem_of_mem_pieces⟩

theorem CommaParts.pieces_eq {body : List Char} {pairs : List (List Char)}
    (h : CommaParts body pairs) : pieces ',' body = pairs := by
  rw [h.eq]
  exact pieces_intercalate h.ne_nil h.comma

theorem mapM_argument_eq_ok_iff {segment : List Char} {pairs : List (List Char)}
    {entries : List (String × Literal)} :
    pairs.mapM (argument segment) = .ok entries ↔ List.Forall₂ ArgumentText pairs entries := by
  induction pairs generalizing entries with
  | nil =>
    rw [List.mapM_nil, List.forall₂_nil_left_iff]
    exact ⟨fun h => (Except.ok.inj h).symm, fun h => congrArg Except.ok h.symm⟩
  | cons pair pairs ih =>
    constructor
    · intro h
      obtain ⟨e, rest, he, hrest, rfl⟩ := mapM_cons_eq_ok h
      exact .cons (((argument_eq_iff segment pair).1 e).1 he) (ih.1 hrest)
    · rintro (_ | ⟨he, hrest⟩)
      rw [List.mapM_cons, argument_of_text he, ih.2 hrest]
      rfl

theorem callText_of_call? {text name body : List Char} (h : call? text = some (name, body)) :
    CallText text (String.ofList name) body := by
  obtain ⟨htext, hname, hne, hline⟩ := call?_eq_some h
  refine ⟨by rwa [String.toList_ofList], ?_, hne, hline⟩
  rwa [Name.isName, String.toList_ofList]

theorem CallText.segment_eq {text body : List Char} {name : String} {pairs : List (List Char)}
    (h : CallText text name body) (hparts : CommaParts body pairs) :
    segment text =
      (pairs.mapM (argument text)).map fun entries => { name, arguments := .ofList entries } := by
  rw [h.eq, segment_call h.name h.body_ne_nil h.one_line, hparts.pieces_eq, String.ofList_toList]

theorem KeepsLast.eq_ofList {arguments : Dictionary Literal} {entries : List (String × Literal)}
    (h : KeepsLast arguments entries) : arguments = .ofList entries := by
  apply Dictionary.ext_find?
  intro name
  apply Option.ext
  intro value
  rw [h, Dictionary.find?_ofList_eq_some_iff]

theorem segment_of_text {text : List Char} {step : Step} (h : SegmentText text step) :
    segment text = .ok step := by
  cases h with
  | @bare name hname => rw [segment_bare hname, String.ofList_toList]
  | call hcall hparts hentries hkeeps =>
    rw [hcall.segment_eq hparts, mapM_argument_eq_ok_iff.2 hentries, hkeeps.eq_ofList]
    rfl

theorem segment_of_fault {text : List Char} {e : TraversalError} (h : SegmentFault text e) :
    segment text = .error e := by
  cases h with
  | empty => rfl
  | shape hne hbare hform =>
    have hempty : text.isEmpty = false := by simpa using hne
    have hcall : call? text = none :=
      Option.eq_none_iff_forall_ne_some.2 fun found hfound => hform _ _ (callText_of_call? hfound)
    rw [segment, hempty, hbare, hcall]
    rfl
  | argument hcall hparts hbefore hfault =>
    have hread : ∀ p ∈ _, ∃ entry, argument text p = .ok entry := fun p hp =>
      (hbefore p hp).imp fun _ => argument_of_text
    rw [hcall.segment_eq hparts, mapM_eq_first_error hread (argument_of_fault hfault)]
    rfl

theorem segment_cases (text : List Char) :
    (∃ step, SegmentText text step) ∨ ∃ e, SegmentFault text e := by
  by_cases hne : text = []
  · subst hne
    exact .inr ⟨_, .empty⟩
  cases hbare : Name.isNameText text with
  | true =>
    have hname : Name.isName (String.ofList text) = true := by
      rwa [Name.isName, String.toList_ofList]
    exact .inl ⟨_, by simpa using SegmentText.bare hname⟩
  | false =>
    cases hcall : call? text with
    | none =>
      refine .inr ⟨_, .shape hne hbare fun name body hform => ?_⟩
      rw [hform.eq, call?_call hform.name hform.body_ne_nil hform.one_line] at hcall
      cases hcall
    | some found =>
      have hform := callText_of_call? hcall
      cases hentries : (pieces ',' found.2).mapM (argument text) with
      | ok entries =>
        exact .inl ⟨_, .call hform (commaParts_pieces _) (mapM_argument_eq_ok_iff.1 hentries)
          fun name value => Dictionary.find?_ofList_eq_some_iff⟩
      | error e =>
        obtain ⟨before, pair, later, hpieces, hbefore, hpair⟩ := mapM_eq_error_iff.1 hentries
        have hparts := commaParts_pieces found.2
        rw [hpieces] at hparts
        exact .inr ⟨_, .argument hform hparts
          (fun p hp => (hbefore p hp).imp fun e => ((argument_eq_iff text p).1 e).1)
          (((argument_eq_iff text pair).2 e).1 hpair)⟩

theorem segment_eq_iff (text : List Char) :
    (∀ step, segment text = .ok step ↔ SegmentText text step) ∧
      ∀ e, segment text = .error e ↔ SegmentFault text e :=
  except_eq_iff (fun _ => segment_of_text) (fun _ => segment_of_fault) (segment_cases text)

theorem segmentFault_emptySegment_iff {text : List Char} :
    SegmentFault text .emptySegment ↔ text = [] := by
  constructor
  · intro h
    cases h with
    | empty => rfl
    | argument _ _ _ hfault => cases hfault
  · rintro rfl
    exact .empty

theorem segmentFault_invalidSegment_iff {text : List Char} {segment : String} :
    SegmentFault text (.invalidSegment segment) ↔
      segment = String.ofList text ∧ text ≠ [] ∧ Name.isNameText text = false ∧
        ∀ name body, ¬CallText text name body := by
  constructor
  · intro h
    cases h with
    | shape hne hbare hform => exact ⟨rfl, hne, hbare, hform⟩
    | argument _ _ _ hfault => cases hfault
  · rintro ⟨rfl, hne, hbare, hform⟩
    exact .shape hne hbare hform

/-- A segment is read exactly if it is one of the grammar, and as the grammar says. Otherwise the
first fault is reported: that the text is empty, that it has neither of the two forms, or what is
wrong with the first argument that is none. -/
theorem parseSegment_by_grammar (text : String) :
    (∀ step, parseSegment text = .ok step ↔ SegmentText text.toList step) ∧
      (∀ e, parseSegment text = .error e ↔ SegmentFault text.toList e) ∧
      (parseSegment text = .error .emptySegment ↔ text = "") ∧
      ∀ segment, parseSegment text = .error (.invalidSegment segment) ↔
        segment = text ∧ text ≠ "" ∧ Name.isName text = false ∧
          ∀ name body, ¬CallText text.toList name body := by
  obtain ⟨hok, herror⟩ := segment_eq_iff text.toList
  have hempty : text.toList = [] ↔ text = "" := by simp
  refine ⟨hok, herror, ?_, fun segment => ?_⟩
  · rw [parseSegment, herror, segmentFault_emptySegment_iff, hempty]
  · rw [parseSegment, herror, segmentFault_invalidSegment_iff, String.ofList_toList, Ne, hempty]
    rfl

end SchemaWalk.Traversal
