import SchemaWalk.Proofs.Traversal.StepText
import SchemaWalk.Traversal

/-! # Reading the text of a step: as that step, or not at all -/
namespace SchemaWalk.Traversal

open Json Text

/-- Nothing or one space, which is what stands between an argument and the comma before it. -/
def Space (s : List Char) : Prop := s = [] ∨ s = [' ']

theorem isBlank_of_isPart {c : Char} (hc : Name.isPart c = true) : Text.isBlank c = false := by
  have hbounds := Name.toNat_of_isPart hc
  simp only [Text.isBlank, Bool.or_eq_false_iff, Bool.and_eq_false_iff, decide_eq_false_iff_not,
    beq_eq_false_iff_ne]
  omega

theorem trim_key {space key : List Char} (hs : Space space) (hk : Name.isNameText key = true) :
    trim (space ++ key) = key := by
  have hkey : trim key = key := trim_eq_self
    (fun c hc => isBlank_of_isPart (Name.isPart_of_mem hk (List.mem_of_mem_head? hc)))
    (fun c hc => isBlank_of_isPart (Name.isPart_of_mem hk (List.mem_of_mem_getLast? hc)))
  rcases hs with rfl | rfl
  · exact hkey
  · rw [List.singleton_append, trim_cons (by decide), hkey]

theorem cut_key {space key : List Char} (hs : Space space) (hk : Name.isNameText key = true)
    (value : List Char) : cut ':' (space ++ key ++ ':' :: value) = some (space ++ key, value) := by
  have hcolon : ':' ∉ key := Name.not_mem_of_isNameText hk (by decide)
  rw [cut_eq_some_iff]
  refine ⟨rfl, ?_⟩
  rcases hs with rfl | rfl <;> simpa using hcolon

theorem argument_pairText (whole : List Char) {space : List Char} (hs : Space space)
    {e : String × Literal} (hk : Name.isName e.1 = true) (hv : e.2.Plain) :
    argument whole (space ++ pairText e) = .ok e := by
  obtain ⟨text, ht⟩ := hv.render?
  have hcut := cut_key hs hk (' ' :: text)
  have hread := Literal.parse_render? ht gap_space gap_nil
  have hpair : space ++ pairText e = space ++ e.1.toList ++ ':' :: ' ' :: text := by
    simp [pairText, ht]
  rw [List.append_nil, List.singleton_append] at hread
  rw [hpair, argument, hcut]
  simp only [trim_key hs hk, show Name.isNameText e.1.toList = true from hk, if_true, hread]
  rw [String.ofList_toList]

theorem argument_opened (whole : List Char) {space : List Char} (hs : Space space) {key : String}
    (hk : Name.isName key = true) (t : List Char) :
    ∃ e, argument whole (space ++ opened key t) = .error e := by
  have hcut := cut_key hs hk (' ' :: '"' :: t.flatMap escaped)
  obtain ⟨reason, hreason⟩ := Literal.parse_unterminated gap_space t
  have htext : space ++ opened key t =
      space ++ key.toList ++ ':' :: ' ' :: '"' :: t.flatMap escaped := by simp [opened]
  rw [List.singleton_append] at hreason
  rw [htext, argument, hcut]
  simp only [trim_key hs hk, show Name.isNameText key.toList = true from hk, if_true, hreason]
  exact ⟨_, rfl⟩

theorem pieces_body {s : Selection} (hc : ∀ e ∈ s.arguments.entries, ',' ∉ pairText e)
    {e : String × Literal} {rest : List (String × Literal)} (he : s.arguments.entries = e :: rest) :
    pieces ',' s.body = pairText e :: rest.map (' ' :: pairText ·) := by
  rw [he, List.forall_mem_cons] at hc
  have hbody : s.body = pairText e ++ (rest.map (' ' :: pairText ·)).flatMap (',' :: ·) := by
    rw [Selection.body_eq (l := []) he, following, List.flatMap_map]
    rfl
  have hrest : ∀ t ∈ rest.map (' ' :: pairText ·), ',' ∉ t := by
    intro t ht
    obtain ⟨f, hf, rfl⟩ := List.mem_map.1 ht
    simpa using hc.2 f hf
  rw [hbody, pieces_flatMap, pieces_of_not_mem hc.1, flatMap_pieces hrest]
  rfl

theorem mapM_argument (whole : List Char) {s : Selection} (hs : s.Printable) (hcomma : ¬s.Holds ',')
    (hne : s.arguments.entries ≠ []) :
    (pieces ',' s.body).mapM (argument whole) = .ok s.arguments.entries := by
  obtain ⟨e, rest, he⟩ := List.exists_cons_of_ne_nil hne
  have hpieces := pieces_body (hs.not_mem_pairText (by decide) hcomma) he
  have hread : ∀ f ∈ s.arguments.entries, ∀ space, Space space →
      argument whole (space ++ pairText f) = .ok f :=
    fun f hf _ hspace => argument_pairText whole hspace (hs.keys f hf) (hs.values f hf)
  rw [he] at hread
  have hfirst : argument whole (pairText e) = .ok e := hread e (by simp) [] (.inl rfl)
  have hrest : (rest.map (' ' :: pairText ·)).mapM (argument whole) = .ok rest := by
    have := mapM_eq_ok (f := argument whole ∘ fun e => ' ' :: pairText e) (g := id) fun f hf =>
      hread f (List.mem_cons_of_mem _ hf) [' '] (.inr rfl)
    rw [List.mapM_map, this, List.map_id]
  rw [hpieces, he, List.mapM_cons, hfirst, hrest]
  rfl

theorem call?_call {name body : List Char} (hname : Name.isNameText name = true) (hne : body ≠ [])
    (hline : '\n' ∉ body) : call? (name ++ '(' :: (body ++ [')'])) = some (name, body) := by
  have hcut : cut '(' (name ++ '(' :: (body ++ [')'])) = some (name, body ++ [')']) :=
    cut_eq_some_iff.2 ⟨rfl, Name.not_mem_of_isNameText hname (by decide)⟩
  rw [call?, hcut]
  simp [hname, hne, hline]

theorem call?_eq_some {text name body : List Char} (h : call? text = some (name, body)) :
    text = name ++ '(' :: (body ++ [')']) ∧ Name.isNameText name = true ∧ body ≠ [] ∧
      '\n' ∉ body := by
  unfold call? at h
  split at h
  · cases h
  · next n rest hcut =>
    split at h
    · next hlast =>
      obtain ⟨inside, rfl⟩ := List.getLast?_eq_some_iff.1 hlast
      simp only [List.dropLast_concat] at h
      split at h
      · next hform =>
        cases h
        simp only [Bool.and_eq_true, Bool.not_eq_true', List.isEmpty_eq_false_iff,
          List.contains_eq_mem, decide_eq_false_iff_not] at hform
        exact ⟨(cut_eq_some_iff.1 hcut).1, hform.1.1, hform.1.2, hform.2⟩
      · cases h
    · cases h

theorem isNameText_call {name rest : List Char} :
    Name.isNameText (name ++ '(' :: rest) = false := by
  cases hn : Name.isNameText (name ++ '(' :: rest) with
  | false => rfl
  | true =>
    exact absurd (List.mem_append_right _ List.mem_cons_self)
      (Name.not_mem_of_isNameText hn (by decide))

theorem segment_bare {text : List Char} (h : Name.isNameText text = true) :
    segment text = .ok { name := String.ofList text } := by
  have hne : text.isEmpty = false := by
    cases text with
    | nil => cases h
    | cons c s => rfl
  rw [segment, hne, h]
  rfl

theorem segment_call {name body : List Char} (hname : Name.isNameText name = true) (hne : body ≠ [])
    (hline : '\n' ∉ body) :
    segment (name ++ '(' :: (body ++ [')'])) =
      ((pieces ',' body).mapM (argument (name ++ '(' :: (body ++ [')'])))).map fun entries =>
        { name := String.ofList name, arguments := .ofList entries } := by
  have hempty : (name ++ '(' :: (body ++ [')'])).isEmpty = false := by simp
  rw [segment, hempty, isNameText_call, call?_call hname hne hline]
  rfl

/-- Some part between the commas of a body cannot be read. -/
def Unreadable (whole body : List Char) : Prop :=
  ∃ p ∈ pieces ',' body, ∃ e, argument whole p = .error e

theorem segment_error {name rest : List Char} (hname : Name.isNameText name = true)
    (h : ∀ body, rest = body ++ [')'] → Unreadable (name ++ '(' :: rest) body) :
    ∃ e, segment (name ++ '(' :: rest) = .error e := by
  have hempty : (name ++ '(' :: rest).isEmpty = false := by simp
  rw [segment, hempty, isNameText_call]
  cases hcall : call? (name ++ '(' :: rest) with
  | none => exact ⟨_, rfl⟩
  | some found =>
    obtain ⟨n, body⟩ := found
    obtain ⟨htext, hn, -⟩ := call?_eq_some hcall
    have hcut : cut '(' (name ++ '(' :: rest) = some (name, rest) :=
      cut_eq_some_iff.2 ⟨rfl, Name.not_mem_of_isNameText hname (by decide)⟩
    rw [htext, cut_eq_some_iff.2 ⟨rfl, Name.not_mem_of_isNameText hn (by decide)⟩] at hcut
    have hrest : body ++ [')'] = rest := congrArg Prod.snd (Option.some.inj hcut)
    obtain ⟨p, hp, hread⟩ := h body hrest.symm
    obtain ⟨e, he⟩ := mapM_eq_error hp hread
    exact ⟨e, by simp [he, bind, Except.bind]⟩

theorem segment_text {s : Selection} (hs : s.Printable) (hcomma : ¬s.Holds ',') :
    segment s.text = .ok { name := s.name, arguments := s.arguments } := by
  have hname : Name.isNameText s.name.toList = true := hs.name
  by_cases harguments : s.arguments.entries = []
  · have hnone : s.arguments = .empty := Dictionary.ext harguments
    rw [Selection.text_of_isEmpty harguments, segment_bare hname, String.ofList_toList, hnone]
  · have hline := Selection.not_mem_body hs.newline_not_mem_pairText (by decide) (by decide)
    rw [Selection.text_of_ne_nil harguments,
      segment_call hname (Selection.body_ne_nil harguments) hline,
      mapM_argument _ hs hcomma harguments]
    simp only [Except.map, Dictionary.ofList_entries, String.ofList_toList]

/-- An argument that ends inside of its string, at a comma or at the end, makes a body
unreadable. -/
theorem unreadable_of_opened (whole : List Char) (l : List (String × Literal)) {key : String}
    (hk : Name.isName key = true) {t : List Char} (ht : ',' ∉ t) (rest : List Char)
    (hend : ∀ c ∈ rest.head?, c = ',') : Unreadable whole (leading l ++ opened key t ++ rest) := by
  have hcomma : ',' ∉ opened key t := not_mem_opened hk (by decide) ht
  rcases List.eq_nil_or_concat l with rfl | ⟨l, e, rfl⟩
  · exact ⟨opened key t, mem_pieces hcomma (by simp) hend, argument_opened whole (.inl rfl) hk t⟩
  · have hmem : [' '] ++ opened key t ∈
        pieces ',' (leading l ++ pairText e ++ [','] ++ ([' '] ++ opened key t) ++ rest) :=
      mem_pieces (by simpa using hcomma) (by simp) hend
    refine ⟨[' '] ++ opened key t, ?_, argument_opened whole (.inr rfl) hk t⟩
    simpa using hmem

/-- So does one that ends anywhere inside of its string, since a comma there ends it earlier. -/
theorem unreadable_opened (whole : List Char) (l : List (String × Literal)) {key : String}
    (hk : Name.isName key = true) (t : List Char) :
    Unreadable whole (leading l ++ opened key t) := by
  by_cases hc : ',' ∈ t
  · obtain ⟨t₁, t₂, rfl, ht₁⟩ := List.eq_append_cons_of_mem hc
    have hcut := unreadable_of_opened whole l hk ht₁ (',' :: t₂.flatMap escaped) (by simp)
    have hescaped : escaped ',' = [','] := by decide
    simpa [opened, hescaped] using hcut
  · simpa using unreadable_of_opened whole l hk hc [] (by simp)

/-- A dot in a string: the text up to the first one is no step. -/
theorem piece_error_of_dot {s : Selection} (hs : s.Printable) (h : s.Holds '.') :
    ∃ piece ∈ pieces '.' s.text, ∃ e, segment piece = .error e := by
  obtain ⟨key, value, hmem, hdot⟩ := h
  have hne : s.arguments.entries ≠ [] := List.ne_nil_of_mem hmem
  -- the first argument with a dot, so that the text before its string has none
  obtain ⟨e, hfirst⟩ : ∃ e, s.arguments.entries.find? (fun e => (pairText e).contains '.') =
      some e := by
    rw [← Option.isSome_iff_exists, List.find?_isSome]
    exact ⟨_, hmem, by simpa using mem_pairText_of_mem (.inl rfl) hdot⟩
  obtain ⟨hholds, l, r, hsplit, hbefore⟩ := List.find?_eq_some_iff_append.1 hfirst
  have he : e ∈ s.arguments.entries := by rw [hsplit]; simp
  obtain ⟨k, v⟩ := e
  obtain ⟨u, rfl, hu, -⟩ := hs.mem_pairText he (by simpa using hholds) (by decide)
  have hk : Name.isName k = true := hs.keys _ he
  obtain ⟨t, rest, ht, hbody⟩ := Selection.body_of_string (.inl rfl) hsplit hu
  have hname : '.' ∉ s.name.toList := Name.not_mem_of_isNameText hs.name (by decide)
  have hleading : '.' ∉ leading l := by
    simp only [leading, List.mem_flatMap, not_exists, not_and]
    intro f hf
    simpa using hbefore f hf
  have hopened : '.' ∉ opened k t := not_mem_opened hk (by decide) ht
  have hclean : '.' ∉ s.name.toList ++ '(' :: (leading l ++ opened k t) := by
    simp [hname, hleading, hopened]
  have htext : s.text = [] ++ (s.name.toList ++ '(' :: (leading l ++ opened k t)) ++
      '.' :: (rest ++ [')']) := by
    rw [Selection.text_of_ne_nil hne, hbody]
    simp
  refine ⟨_, htext ▸ mem_pieces hclean (by simp) (by simp), ?_⟩
  -- the piece has the form of a step only if the string itself supplies the closing parenthesis
  refine segment_error hs.name fun body hbody => ?_
  obtain ⟨t', rfl⟩ := opened_eq_concat hbody
  exact unreadable_opened _ l hk t'

/-- A comma in a string: the text of the step is one piece, but this is no step. -/
theorem piece_error_of_comma {s : Selection} (hs : s.Printable) (hdot : ¬s.Holds '.')
    (h : s.Holds ',') : ∃ piece ∈ pieces '.' s.text, ∃ e, segment piece = .error e := by
  obtain ⟨key, value, hmem, hcomma⟩ := h
  obtain ⟨l, r, hsplit⟩ := List.append_of_mem hmem
  have hne : s.arguments.entries ≠ [] := List.ne_nil_of_mem hmem
  obtain ⟨t, rest, ht, hbody⟩ := Selection.body_of_string (.inr rfl) hsplit hcomma
  have htext := Selection.text_of_ne_nil hne
  refine ⟨s.text, ?_, ?_⟩
  · rw [pieces_of_not_mem (hs.dot_not_mem_text hdot)]
    exact List.mem_singleton_self _
  · rw [htext]
    refine segment_error hs.name fun body hconcat => ?_
    obtain rfl : s.body = body := List.append_cancel_right hconcat
    rw [hbody]
    exact unreadable_of_opened _ l (hs.keys _ hmem) ht _ (by simp)

end SchemaWalk.Traversal
