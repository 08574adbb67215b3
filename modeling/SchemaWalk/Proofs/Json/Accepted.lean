import SchemaWalk.Proofs.Json.Admitting

/-! # A text that is read is exactly one value of the grammar -/
namespace SchemaWalk.Json

open Text

variable {α σ : Type} {limit : Nat}

theorem Gap.append {s t : List Char} (hs : Gap s) (ht : Gap t) : Gap (s ++ t) :=
  List.forall_mem_append.2 ⟨hs, ht⟩

def AfterGap (form : List Char → Prop) (t : List Char) : Prop :=
  ∃ gap u, Gap gap ∧ form u ∧ t = gap ++ u

/-- What may follow a part of a list or an object, up to the closing mark. -/
inductive Following (part : α → List Char → Prop) (P : α → Prop) (closing : Char) : List Char → Prop
  | last {gap : List Char} (hgap : Gap gap) : Following part P closing (gap ++ [closing])
  | more {gap ts : List Char} {xs : List α} (hgap : Gap gap) (hts : Separated part xs ts)
      (hxs : ∀ x ∈ xs, P x) : Following part P closing (gap ++ ',' :: ts ++ [closing])

theorem Following.separated {part : α → List Char → Prop} {P : α → Prop} {closing : Char}
    {u : List Char} (h : Following part P closing u) {x : α} {t gap : List Char} (ht : part x t)
    (hx : P x) (hgap : Gap gap) :
    ∃ xs ts, Separated part xs ts ∧ (∀ x ∈ xs, P x) ∧ gap ++ t ++ u = ts ++ [closing] := by
  cases h with
  | @last after hafter =>
    exact ⟨[x], gap ++ t ++ after, .one ht hgap hafter, by simpa using hx, by simp⟩
  | @more after ts xs hafter hts hxs =>
    exact ⟨x :: xs, gap ++ t ++ after ++ ',' :: ts, .cons ht hgap hafter hts,
      List.forall_mem_cons.2 ⟨hx, hxs⟩, by simp⟩

theorem exists_lead_of_comma {gap v : List Char} {s : Bytes} (hgap : Gap gap)
    (he : encode v = 0x2C :: s) :
    ∃ lead gap' w, Lead false lead ∧ Gap gap' ∧ gap ++ v = lead ++ (gap' ++ w) ∧
      skipBlanks s = encode w := by
  obtain ⟨v, rfl, rfl⟩ := eq_cons_of_byte (c := ',') rfl he
  obtain ⟨gap', w, rfl, hgap', hskip⟩ := exists_gap v
  exact ⟨gap ++ [','], gap', w, .later hgap, hgap', by simp, hskip⟩

/-! ## Lists -/

theorem nextItem_eq_ok {first more : Bool} {t : List Char} {s : Bytes}
    (h : nextItem first (encode t) = .ok (more, s)) :
    if more then ∃ lead gap v, Lead first lead ∧ Gap gap ∧ t = lead ++ (gap ++ v) ∧ s = encode v
    else ∃ gap v, Gap gap ∧ t = gap ++ ']' :: v ∧ s = encode (']' :: v) := by
  obtain ⟨gap, v, rfl, hgap, hskip⟩ := exists_gap t
  rw [nextItem, hskip] at h
  cases he : encode v with
  | nil => rw [he] at h; cases h
  | cons b rest =>
    by_cases hclosing : b = 0x5D
    · subst hclosing
      simp only [he, if_true] at h
      cases h
      obtain ⟨v, rfl, -⟩ := eq_cons_of_byte (c := ']') rfl he
      exact ⟨gap, v, hgap, rfl, he.symm⟩
    · cases first with
      | true =>
        simp only [he, if_neg hclosing, if_true] at h
        cases h
        exact ⟨[], gap, v, .first, hgap, rfl, he.symm⟩
      | false =>
        by_cases hcomma : b = 0x2C
        · subst hcomma
          obtain ⟨lead, gap', w, hlead, hgap', ht, hskip'⟩ := exists_lead_of_comma hgap he
          simp only [he, if_neg hclosing, Bool.false_eq_true, if_false, if_true, hskip'] at h
          cases hw : encode w with
          | nil => rw [hw] at h; cases h
          | cons c rest =>
            by_cases hc : c = 0x5D
            · simp only [hw, hc, if_true] at h
              cases h
            · simp only [hw, hc, if_false] at h
              cases h
              exact ⟨lead, gap', w, hlead, hgap', ht, hw.symm⟩
        · simp only [he, if_neg hclosing, Bool.false_eq_true, if_false, hcomma] at h
          cases h

variable {item : Reader α}

theorem admits_laterItems (hitem : Admits item fun _ => AfterGap ValueText) (steps : Nat)
    (before : List α) :
    Admits (items item steps false before) fun _ => Following Eq ValueText ']' := by
  induction steps generalizing before with
  | zero =>
    intro t a s h
    cases h
  | succ steps ih =>
    intro t a s h
    obtain ⟨⟨more, r⟩, hmore, hread⟩ := exists_ok_of_bind h
    have hnext := nextItem_eq_ok hmore
    cases more with
    | false =>
      cases hread
      obtain ⟨gap, v, hgap, rfl, rfl⟩ := hnext
      exact ⟨gap ++ [']'], v, by simp, rfl, .last hgap⟩
    | true =>
      obtain ⟨_, gap, v, hlead, hgap, rfl, rfl⟩ := hnext
      obtain ⟨⟨x, r⟩, hx, hrest⟩ := exists_ok_of_bind hread
      obtain ⟨_, v, rfl, rfl, gap', w, hgap', hw, rfl⟩ := hitem hx
      obtain ⟨u, v, rfl, rfl, hu⟩ := ih (x :: before) hrest
      obtain ⟨xs, ts, hts, hxs, htext⟩ := hu.separated rfl hw (hgap.append hgap')
      cases hlead with
      | @later lead hlead =>
        refine ⟨lead ++ ',' :: ts ++ [']'], v, ?_, rfl, .more hlead hts hxs⟩
        have hcons := congrArg (fun r => lead ++ ',' :: r ++ v) htext
        simpa using hcons

theorem admits_items (hitem : Admits item fun _ => AfterGap ValueText) (steps : Nat) :
    Admits (items item steps true []) fun _ u => ValueText ('[' :: u) := by
  intro t a s h
  cases steps with
  | zero => cases h
  | succ steps =>
    obtain ⟨⟨more, r⟩, hmore, hread⟩ := exists_ok_of_bind h
    have hnext := nextItem_eq_ok hmore
    cases more with
    | false =>
      cases hread
      obtain ⟨gap, v, hgap, rfl, rfl⟩ := hnext
      exact ⟨gap ++ [']'], v, by simp, rfl, .list (List.forall_mem_nil _) (.empty hgap)⟩
    | true =>
      obtain ⟨_, gap, v, ⟨⟩, hgap, rfl, rfl⟩ := hnext
      obtain ⟨⟨x, r⟩, hx, hrest⟩ := exists_ok_of_bind hread
      obtain ⟨_, v, rfl, rfl, gap', w, hgap', hw, rfl⟩ := hitem hx
      obtain ⟨u, v, rfl, rfl, hu⟩ := admits_laterItems hitem steps [x] hrest
      obtain ⟨xs, ts, hts, hxs, htext⟩ := hu.separated rfl hw (hgap.append hgap')
      refine ⟨ts ++ [']'], v, ?_, rfl, .list hxs (.parts hts)⟩
      rw [← htext]
      simp

/-! ## Objects -/

theorem nextMember_eq_ok {first more : Bool} {t : List Char} {s : Bytes}
    (h : nextMember first (encode t) = .ok (more, s)) :
    if more then
      ∃ lead gap v, Lead first lead ∧ Gap gap ∧ t = lead ++ (gap ++ '"' :: v) ∧
        s = encode ('"' :: v)
    else ∃ gap v, Gap gap ∧ t = gap ++ '\x7d' :: v ∧ s = encode ('\x7d' :: v) := by
  obtain ⟨gap, v, rfl, hgap, hskip⟩ := exists_gap t
  rw [nextMember, hskip] at h
  cases he : encode v with
  | nil => rw [he] at h; cases h
  | cons b rest =>
    by_cases hclosing : b = 0x7D
    · subst hclosing
      simp only [he, if_true] at h
      cases h
      obtain ⟨v, rfl, -⟩ := eq_cons_of_byte (c := '\x7d') rfl he
      exact ⟨gap, v, hgap, rfl, he.symm⟩
    · cases first with
      | true =>
        by_cases hquote : b = 0x22
        · subst hquote
          simp only [he, if_neg hclosing, if_true] at h
          cases h
          obtain ⟨v, rfl, -⟩ := eq_cons_of_byte utf8EncodeChar_quote he
          exact ⟨[], gap, v, .first, hgap, rfl, he.symm⟩
        · simp only [he, if_neg hclosing, if_true, if_neg hquote] at h
          cases h
      | false =>
        by_cases hcomma : b = 0x2C
        · subst hcomma
          obtain ⟨lead, gap', w, hlead, hgap', ht, hskip'⟩ := exists_lead_of_comma hgap he
          simp only [he, if_neg hclosing, Bool.false_eq_true, if_false, if_true, hskip'] at h
          cases hw : encode w with
          | nil => rw [hw] at h; cases h
          | cons c rest =>
            by_cases hquote : c = 0x22
            · subst hquote
              simp only [hw, if_true] at h
              cases h
              obtain ⟨w, rfl, -⟩ := eq_cons_of_byte utf8EncodeChar_quote hw
              exact ⟨lead, gap', w, hlead, hgap', ht, hw.symm⟩
            · simp only [hw, if_neg hquote] at h
              split at h <;> cases h
        · simp only [he, if_neg hclosing, Bool.false_eq_true, if_false, if_neg hcomma] at h
          cases h

theorem admits_colon : Admits colon fun _ u => ∃ gap, Gap gap ∧ u = gap ++ [':'] := by
  intro t a s h
  obtain ⟨gap, v, rfl, hgap, hskip⟩ := exists_gap t
  rw [colon, hskip] at h
  cases he : encode v with
  | nil => rw [he] at h; cases h
  | cons b rest =>
    by_cases hcolon : b = 0x3A
    · subst hcolon
      obtain ⟨v, rfl, rfl⟩ := eq_cons_of_byte utf8EncodeChar_colon he
      simp only [he, if_true] at h
      cases h
      exact ⟨gap ++ [':'], v, by simp, rfl, gap, hgap, rfl⟩
    · simp only [he, if_neg hcolon] at h
      cases h

def AfterName (u : List Char) : Prop :=
  ∃ before after w, Gap before ∧ Gap after ∧ ValueText w ∧ u = before ++ ':' :: after ++ w

theorem AfterName.entryText {u : List Char} (h : AfterName u) {q : List Char} (hq : Quotable q) :
    ∃ w, ValueText w ∧ EntryText QuotedText (q, w) ('"' :: q ++ ['"'] ++ u) := by
  obtain ⟨before, after, w, hbefore, hafter, hw, rfl⟩ := h
  refine ⟨w, hw, ?_⟩
  have hentry : EntryText QuotedText (q, w) _ := .entry (.quoted hq) hbefore hafter
  simpa using hentry

variable {member : String → σ → Reader σ}

theorem admits_laterMembers (hmember : ∀ name state, Admits (member name state) fun _ => AfterName)
    (steps : Nat) (state : σ) :
    Admits (members limit member steps false state) fun _ =>
      Following (EntryText QuotedText) (fun e => ValueText e.2) '\x7d' := by
  induction steps generalizing state with
  | zero =>
    intro t a s h
    cases h
  | succ steps ih =>
    intro t a s h
    obtain ⟨⟨more, r⟩, hmore, hread⟩ := exists_ok_of_bind h
    have hnext := nextMember_eq_ok hmore
    cases more with
    | false =>
      cases hread
      obtain ⟨gap, v, hgap, rfl, rfl⟩ := hnext
      exact ⟨gap ++ ['\x7d'], v, by simp, rfl, .last hgap⟩
    | true =>
      obtain ⟨_, gap, v, hlead, hgap, rfl, rfl⟩ := hnext
      obtain ⟨⟨name, r⟩, hname, hbody⟩ := exists_ok_of_bind hread
      obtain ⟨_, v, rfl, rfl, q, hq, rfl⟩ := admits_stringRest limit [] hname
      obtain ⟨⟨state', r⟩, hstate, hrest⟩ := exists_ok_of_bind hbody
      obtain ⟨w, v, rfl, rfl, hw⟩ := hmember name state hstate
      obtain ⟨x, hx, hentry⟩ := hw.entryText hq
      obtain ⟨u, v, rfl, rfl, hu⟩ := ih state' hrest
      obtain ⟨xs, ts, hts, hxs, htext⟩ := hu.separated hentry hx hgap
      cases hlead with
      | @later lead hlead =>
        refine ⟨lead ++ ',' :: ts ++ ['\x7d'], v, ?_, rfl, .more hlead hts hxs⟩
        have hcons := congrArg (fun r => lead ++ ',' :: r ++ v) htext
        simpa using hcons

theorem admits_members (hmember : ∀ name state, Admits (member name state) fun _ => AfterName)
    (steps : Nat) (state : σ) :
    Admits (members limit member steps true state) fun _ u => ValueText ('\x7b' :: u) := by
  intro t a s h
  cases steps with
  | zero => cases h
  | succ steps =>
    obtain ⟨⟨more, r⟩, hmore, hread⟩ := exists_ok_of_bind h
    have hnext := nextMember_eq_ok hmore
    cases more with
    | false =>
      cases hread
      obtain ⟨gap, v, hgap, rfl, rfl⟩ := hnext
      exact ⟨gap ++ ['\x7d'], v, by simp, rfl, .object (List.forall_mem_nil _) (.empty hgap)⟩
    | true =>
      obtain ⟨_, gap, v, ⟨⟩, hgap, rfl, rfl⟩ := hnext
      obtain ⟨⟨name, r⟩, hname, hbody⟩ := exists_ok_of_bind hread
      obtain ⟨_, v, rfl, rfl, q, hq, rfl⟩ := admits_stringRest limit [] hname
      obtain ⟨⟨state', r⟩, hstate, hrest⟩ := exists_ok_of_bind hbody
      obtain ⟨w, v, rfl, rfl, hw⟩ := hmember name state hstate
      obtain ⟨x, hx, hentry⟩ := hw.entryText hq
      obtain ⟨u, v, rfl, rfl, hu⟩ := admits_laterMembers hmember steps state' hrest
      obtain ⟨xs, ts, hts, hxs, htext⟩ := hu.separated hentry hx hgap
      refine ⟨ts ++ ['\x7d'], v, ?_, rfl, .object hxs (.parts hts)⟩
      rw [← htext]
      simp

/-! ## Values -/

/-- A text with the value that is read from it, as far as numbers tell. -/
structure TextOf (x : Value) (t : List Char) : Prop where
  form : ValueText t
  numeral : ∀ m, x = .number m → ∃ n : Numeral, n.Spelled t ∧ n.value = .ok m

theorem ValueText.textOf {x : Value} {t : List Char} (h : ValueText t) (hx : ∀ m, x ≠ .number m) :
    TextOf x t :=
  ⟨h, fun m hm => absurd hm (hx m)⟩

theorem admits_number : Admits number fun m u => ∃ n : Numeral, n.Spelled u ∧ n.value = .ok m := by
  intro t m s h
  obtain ⟨⟨n, r⟩, hn, hvalue⟩ := exists_ok_of_bind h
  obtain ⟨u, v, rfl, rfl, hu⟩ := admits_numeral hn
  cases hm : n.value with
  | error excess => simp only [hm] at hvalue; cases hvalue
  | ok m' =>
    simp only [hm] at hvalue
    cases hvalue
    exact ⟨u, v, rfl, rfl, n, hu, hm⟩

theorem admits_anyValue {list object : Reader Value}
    (hlist : Admits list fun x u => TextOf x ('[' :: u))
    (hobject : Admits object fun x u => TextOf x ('\x7b' :: u)) :
    Admits (anyValue limit list object) fun x => AfterGap (TextOf x) := by
  intro t x s h
  obtain ⟨gap, v, rfl, hgap, hskip⟩ := exists_gap t
  have hread : ∃ u v', v = u ++ v' ∧ s = encode v' ∧ TextOf x u := by
    rw [anyValue, hskip] at h
    cases he : encode v with
    | nil => rw [he] at h; cases h
    | cons b rest =>
    simp only [he] at h
    by_cases hnull : b = 0x6E
    · subst hnull
      obtain ⟨v, rfl, rfl⟩ := eq_cons_of_byte (c := 'n') rfl he
      obtain ⟨_, _, v, rfl, rfl, rfl, rfl⟩ := admits_restOfNull.mapped (f := fun _ => Value.null) h
      exact ⟨"null".toList, v, rfl, rfl, ValueText.null.textOf (by simp)⟩
    rw [if_neg hnull] at h
    by_cases htrue : b = 0x74
    · subst htrue
      obtain ⟨v, rfl, rfl⟩ := eq_cons_of_byte (c := 't') rfl he
      obtain ⟨_, _, v, rfl, rfl, rfl, rfl⟩ :=
        admits_restOfTrue.mapped (f := fun _ => Value.boolean true) h
      exact ⟨markText true, v, rfl, rfl, (ValueText.boolean true).textOf (by simp)⟩
    rw [if_neg htrue] at h
    by_cases hfalse : b = 0x66
    · subst hfalse
      obtain ⟨v, rfl, rfl⟩ := eq_cons_of_byte (c := 'f') rfl he
      obtain ⟨_, _, v, rfl, rfl, rfl, rfl⟩ :=
        admits_restOfFalse.mapped (f := fun _ => Value.boolean false) h
      exact ⟨markText false, v, rfl, rfl, (ValueText.boolean false).textOf (by simp)⟩
    rw [if_neg hfalse] at h
    by_cases hquote : b = 0x22
    · subst hquote
      obtain ⟨v, rfl, rfl⟩ := eq_cons_of_byte utf8EncodeChar_quote he
      obtain ⟨_, _, v, rfl, rfl, rfl, q, hq, rfl⟩ :=
        (admits_stringRest limit []).mapped (f := Value.string) h
      exact ⟨'"' :: q ++ ['"'], v, by simp, rfl, (ValueText.string (.quoted hq)).textOf (by simp)⟩
    rw [if_neg hquote] at h
    cases hnumber : b = 0x2D || isDigit b with
    | true =>
      rw [if_pos hnumber, ← he] at h
      obtain ⟨m, u, v, rfl, rfl, rfl, n, hu, hvalue⟩ := admits_number.mapped (f := Value.number) h
      refine ⟨u, v, rfl, rfl, .number (numberText_iff.2 ⟨n, hu⟩), ?_⟩
      rintro _ ⟨⟩
      exact ⟨n, hu, hvalue⟩
    | false =>
    rw [if_neg (by rw [hnumber]; decide)] at h
    by_cases hbracket : b = 0x5B
    · subst hbracket
      obtain ⟨v, rfl, rfl⟩ := eq_cons_of_byte (c := '[') rfl he
      rw [if_pos rfl] at h
      obtain ⟨u, v, rfl, rfl, hu⟩ := hlist h
      exact ⟨'[' :: u, v, rfl, rfl, hu⟩
    rw [if_neg hbracket] at h
    by_cases hbrace : b = 0x7B
    · subst hbrace
      obtain ⟨v, rfl, rfl⟩ := eq_cons_of_byte (c := '\x7b') rfl he
      rw [if_pos rfl] at h
      obtain ⟨u, v, rfl, rfl, hu⟩ := hobject h
      exact ⟨'\x7b' :: u, v, rfl, rfl, hu⟩
    · rw [if_neg hbrace] at h
      cases h
  obtain ⟨u, v, rfl, rfl, hu⟩ := hread
  exact ⟨gap ++ u, v, by simp, rfl, gap, u, hgap, hu, rfl⟩

/-- By induction on the depth to which lists and objects may be nested. -/
theorem admits_value (depth : Nat) : Admits (value limit depth) fun x => AfterGap (TextOf x) := by
  induction depth with
  | zero => exact admits_anyValue (fun _ _ _ h => by cases h) (fun _ _ _ h => by cases h)
  | succ depth ih =>
    apply admits_anyValue
    · intro t x s h
      obtain ⟨⟨xs, r⟩, hxs, hx⟩ := exists_ok_of_bind h
      have hitem : Admits (value limit depth) fun _ => AfterGap ValueText := by
        intro t y s hy
        obtain ⟨_, v, rfl, rfl, gap, u, hgap, hu, rfl⟩ := ih hy
        exact ⟨gap ++ u, v, rfl, rfl, gap, u, hgap, hu.form, rfl⟩
      obtain ⟨u, v, rfl, rfl, hu⟩ := admits_items hitem limit hxs
      cases hx
      exact ⟨u, v, rfl, rfl, hu.textOf (by simp)⟩
    · intro t x s h
      obtain ⟨⟨ms, r⟩, hms, hx⟩ := exists_ok_of_bind h
      have hform := fun hmember => admits_members hmember limit _ hms
      obtain ⟨u, v, rfl, rfl, hu⟩ := hform <| by
        intro name ms t y s hy
        obtain ⟨⟨_, r⟩, hcolon, hbody⟩ := exists_ok_of_bind hy
        obtain ⟨_, v, rfl, rfl, before, hbefore, rfl⟩ := admits_colon hcolon
        obtain ⟨⟨z, r⟩, hz, hinsert⟩ := exists_ok_of_bind hbody
        obtain ⟨_, v, rfl, rfl, after, w, hafter, hw, rfl⟩ := ih hz
        cases hinsert
        exact ⟨before ++ ':' :: after ++ w, v, by simp, rfl, before, after, w, hbefore, hafter,
          hw.form, rfl⟩
      cases hx
      exact ⟨u, v, rfl, rfl, hu.textOf (by simp)⟩

/-- A text that stands between blanks. -/
def Between (form : List Char → Prop) (t : List Char) : Prop :=
  ∃ before u after, Gap before ∧ form u ∧ Gap after ∧ t = before ++ u ++ after

theorem textOf_of_parse {t : List Char} {x : Value} (h : Json.parse (encode t) = .ok x) :
    Between (TextOf x) t := by
  have hall : readAll (fun limit => value limit maxDepth) (encode t) = .ok x := by
    rw [Json.parse] at h
    cases hread : readAll (fun limit => value limit maxDepth) (encode t) with
    | error fault => rw [hread] at h; cases h
    | ok y => rw [hread] at h; cases h; rfl
  obtain ⟨⟨y, r⟩, hy, hend⟩ := exists_ok_of_bind hall
  obtain ⟨_, v, rfl, rfl, before, u, hbefore, hu, rfl⟩ := admits_value maxDepth hy
  obtain ⟨after, w, rfl, hafter, hskip⟩ := exists_gap v
  cases w with
  | nil =>
    simp only [hskip, encode_nil] at hend
    cases hend
    exact ⟨before, u, after, hbefore, hu, hafter, by simp⟩
  | cons c w =>
    obtain ⟨b, s, he, -⟩ := head_utf8EncodeChar c
    simp only [hskip, encode_cons, he, List.cons_append] at hend
    cases hend

end SchemaWalk.Json
