import Mathlib.Data.List.Induction
import SchemaWalk.Header
import SchemaWalk.Proofs.Dictionary
import SchemaWalk.Proofs.MapM
import SchemaWalk.Proofs.Text.Trimming

/-! # Header flags: all of them are kept, or the first one that is no header is told -/
namespace SchemaWalk.Header

open Text

/-- A flag is divided at its first colon. Blanks around the two parts do not count. -/
inductive Divides (flag : String) : List Char → List Char → Prop
  | intro {left right name value : List Char} (hflag : flag.toList = left ++ ':' :: right)
      (hfirst : ':' ∉ left) (hname : Trimmed left name) (hvalue : Trimmed right value) :
      Divides flag name value

/-- The header that a flag stands for. Its name is a token, of which the case does not matter, and
no ASCII control character but the tab stands in its value. -/
inductive Denotes (flag : String) : Header → Prop
  | intro {name value : List Char} (hflag : Divides flag name value) (hname : isToken name = true)
      (hvalue : value.all isValueChar = true) :
      Denotes flag ⟨String.ofList (name.map Char.toLower), String.ofList value⟩

def SameName (name name' : List Char) : Prop := name.map Char.toLower = name'.map Char.toLower

instance (name name' : List Char) : Decidable (SameName name name') :=
  inferInstanceAs (Decidable (name.map Char.toLower = name'.map Char.toLower))

/-- The values of the flags of one name, in the order of the flags. -/
inductive ValuesOf (name : List Char) : List String → List String → Prop
  | nil : ValuesOf name [] []
  | own {flag : String} {flags values : List String} {own value : List Char}
      (hflag : Divides flag own value) (hsame : SameName own name)
      (hflags : ValuesOf name flags values) :
      ValuesOf name (flag :: flags) (String.ofList value :: values)
  | other {flag : String} {flags values : List String} {other value : List Char}
      (hflag : Divides flag other value) (hother : ¬SameName other name)
      (hflags : ValuesOf name flags values) : ValuesOf name (flag :: flags) values

/-- The same flags in another order, but those of one name in the same one: only neighbours of
different names change places. -/
inductive Reordered : List String → List String → Prop
  | refl (flags : List String) : Reordered flags flags
  | trans {flags flags' flags'' : List String} (h : Reordered flags flags')
      (h' : Reordered flags' flags'') : Reordered flags flags''
  | cons (flag : String) {flags flags' : List String} (h : Reordered flags flags') :
      Reordered (flag :: flags) (flag :: flags')
  | swap {flag flag' : String} {name name' value value' : List Char}
      (hflag : Divides flag name value) (hflag' : Divides flag' name' value')
      (hother : ¬SameName name name') (flags : List String) :
      Reordered (flag :: flag' :: flags) (flag' :: flag :: flags)

/-- Nothing in the text ends the line that it stands in, or the text itself. -/
def Unbroken (s : String) : Prop := ∀ c ∈ ['\r', '\n', '\x00'], c ∉ s.toList

variable {flag flag' : String} {name name' value value' left right : List Char}
  {header header' : Header}
variable {flags flags' : List String} {headers headers' : List Header}

/-! ## Single flags -/

theorem divides_of_cut (h : cut ':' flag.toList = some (left, right)) :
    Divides flag (trim left) (trim right) := by
  obtain ⟨hflag, hfirst⟩ := cut_eq_some_iff.1 h
  exact .intro hflag hfirst (trimmed_trim left) (trimmed_trim right)

theorem Divides.cut_eq (h : Divides flag name value) :
    ∃ left right, cut ':' flag.toList = some (left, right) ∧ trim left = name ∧
      trim right = value := by
  obtain ⟨hflag, hfirst, hname, hvalue⟩ := h
  exact ⟨_, _, cut_eq_some_iff.2 ⟨hflag, hfirst⟩, hname.eq, hvalue.eq⟩

theorem Divides.inj (h : Divides flag name value) (h' : Divides flag name' value') :
    name = name' ∧ value = value' := by
  obtain ⟨left, right, hcut, rfl, rfl⟩ := h.cut_eq
  obtain ⟨left', right', hcut', rfl, rfl⟩ := h'.cut_eq
  rw [hcut] at hcut'
  cases hcut'
  exact ⟨rfl, rfl⟩

theorem parse_of_denotes (h : Denotes flag header) : parse flag = .ok header := by
  obtain ⟨hflag, hname, hvalue⟩ := h
  obtain ⟨left, right, hcut, rfl, rfl⟩ := hflag.cut_eq
  simp only [parse, hcut, hname, hvalue, Bool.and_true, if_true]

theorem parse_of_not_denotes (h : ¬∃ header, Denotes flag header) :
    parse flag = .error (.invalidHeader flag) := by
  cases hcut : cut ':' flag.toList with
  | none => simp only [parse, hcut]
  | some parts =>
    have hinvalid : ¬(isToken (trim parts.1) && (trim parts.2).all isValueChar) = true := by
      intro hvalid
      rw [Bool.and_eq_true] at hvalid
      exact h ⟨_, .intro (divides_of_cut hcut) hvalid.1 hvalid.2⟩
    simp only [parse, hcut, if_neg hinvalid]

theorem parse_eq_iff (flag : String) :
    (∀ header, parse flag = .ok header ↔ Denotes flag header) ∧
      ∀ e, parse flag = .error e ↔ (¬∃ header, Denotes flag header) ∧ e = .invalidHeader flag := by
  refine except_eq_iff (fun _ => parse_of_denotes) ?_ ?_
  · rintro _ ⟨hnone, rfl⟩
    exact parse_of_not_denotes hnone
  · by_cases hflag : ∃ header, Denotes flag header
    · exact .inl hflag
    · exact .inr ⟨_, hflag, rfl⟩

theorem denotes_of_parse (h : parse flag = .ok header) : Denotes flag header :=
  ((parse_eq_iff flag).1 header).1 h

theorem Denotes.name_ne (h : Denotes flag header) (h' : Denotes flag' header')
    (hflag : Divides flag name value) (hflag' : Divides flag' name' value')
    (hother : ¬SameName name name') : header.name ≠ header'.name := by
  obtain ⟨hown, -, -⟩ := h
  obtain ⟨hown', -, -⟩ := h'
  obtain ⟨rfl, -⟩ := hown.inj hflag
  obtain ⟨rfl, -⟩ := hown'.inj hflag'
  exact fun heq => hother (String.ofList_injective heq)

/-! ## The text of a header -/

/-- What holds of each header that comes from a flag. -/
structure WellFormed (header : Header) : Prop where
  lower : header.name.toList.map Char.toLower = header.name.toList
  name : Unbroken header.name
  value : Unbroken header.value

theorem unbroken_of_all {p : Char → Bool} {s : String} (hs : s.toList.all p = true)
    (hp : ['\r', '\n', '\x00'].any p = false) : Unbroken s := by
  intro c hc hmem
  rw [List.all_eq_true] at hs
  rw [List.any_eq_false] at hp
  exact hp c hc (hs c hmem)

theorem isLower_iff {c : Char} : c.isLower = true ↔ 97 ≤ c.val.toNat ∧ c.val.toNat ≤ 122 := by
  change (decide ('a'.val ≤ c.val) && decide (c.val ≤ 'z'.val)) = true ↔ _
  rw [Bool.and_eq_true, decide_eq_true_eq, decide_eq_true_eq, UInt32.le_iff_toNat_le,
    UInt32.le_iff_toNat_le]
  rfl

theorem toLower_eq_self_or_isLower (c : Char) : c.toLower = c ∨ c.toLower.isLower = true := by
  by_cases h : 'A'.val ≤ c.val ∧ c.val ≤ 'Z'.val
  · have hlow : 65 ≤ c.val.toNat := UInt32.le_iff_toNat_le.1 h.1
    have hhigh : c.val.toNat ≤ 90 := UInt32.le_iff_toNat_le.1 h.2
    have hval : c.toLower.val = c.val + 32 := congrArg Char.val (dif_pos h)
    have hnat : (c.val + 32).toNat = c.val.toNat + 32 := by
      have hshift : (32 : UInt32).toNat = 32 := rfl
      rw [UInt32.toNat_add, hshift]
      omega
    rw [isLower_iff, hval, hnat]
    omega
  · exact .inl (dif_neg h)

theorem toLower_of_isLower {c : Char} (h : c.isLower = true) : c.toLower = c := by
  have hlow := (isLower_iff.1 h).1
  apply dif_neg
  rintro ⟨-, hhigh⟩
  have hhigh : c.val.toNat ≤ 90 := UInt32.le_iff_toNat_le.1 hhigh
  omega

theorem toLower_toLower (c : Char) : c.toLower.toLower = c.toLower := by
  rcases toLower_eq_self_or_isLower c with h | h
  · rw [h, h]
  · exact toLower_of_isLower h

theorem isTokenChar_toLower {c : Char} (h : isTokenChar c = true) :
    isTokenChar c.toLower = true := by
  rcases toLower_eq_self_or_isLower c with hsame | hlower
  · rwa [hsame]
  · change (c.toLower.isUpper || c.toLower.isLower || c.toLower.isDigit || _) = true
    simp [hlower]

theorem Denotes.wellFormed (h : Denotes flag header) : header.WellFormed := by
  obtain ⟨-, hname, hvalue⟩ := h
  rw [isToken, Bool.and_eq_true, List.all_eq_true] at hname
  refine ⟨?_, ?_, ?_⟩
  · rw [String.toList_ofList, List.map_map]
    exact List.map_congr_left fun c _ => toLower_toLower c
  · apply unbroken_of_all (p := isTokenChar) _ (by decide)
    simpa using fun c hc => isTokenChar_toLower (hname.2 c hc)
  · exact unbroken_of_all (p := isValueChar) (by simpa using hvalue) (by decide)

/-! ## What is stored -/

def valuesUnder (headers : List Header) (name : String) : List String :=
  (headers.filter (·.name = name)).map (·.value)

theorem valuesUnder_cons (header : Header) (headers : List Header) (name : String) :
    valuesUnder (header :: headers) name =
      if header.name = name then header.value :: valuesUnder headers name
      else valuesUnder headers name := by
  by_cases hname : header.name = name <;> simp [valuesUnder, hname]

theorem mem_valuesUnder {name value : String} :
    value ∈ valuesUnder headers name ↔
      ∃ header ∈ headers, header.name = name ∧ header.value = value := by
  simp [valuesUnder, and_assoc]

theorem getD_ite_eq_nil (values : List String) :
    (if values = [] then none else some values).getD [] = values := by
  by_cases hvalues : values = [] <;> simp [hvalues]

/-- By induction from the last header, which goes behind the values that its name has already. -/
theorem find?_group (headers : List Header) (name : String) :
    (group headers).find? name =
      if valuesUnder headers name = [] then none else some (valuesUnder headers name) := by
  induction headers using List.reverseRecOn generalizing name with
  | nil => rfl
  | append_singleton headers header ih =>
    have hgroup : group (headers ++ [header]) =
        (group headers).insert header.name
          (((group headers).find? header.name).getD [] ++ [header.value]) := by
      rw [group, List.foldl_append]
      rfl
    have hearlier : ((group headers).find? header.name).getD [] =
        valuesUnder headers header.name := by
      rw [ih, getD_ite_eq_nil]
    have hvalues : valuesUnder (headers ++ [header]) name =
        valuesUnder headers name ++ valuesUnder [header] name := by
      simp [valuesUnder]
    rw [hgroup, Dictionary.find?_insert, hearlier, hvalues]
    by_cases hname : header.name = name
    · subst hname
      simp [valuesUnder]
    · simp [valuesUnder, hname, Ne.symm hname, ih]

theorem getD_find?_group (headers : List Header) (name : String) :
    ((group headers).find? name).getD [] = valuesUnder headers name := by
  rw [find?_group, getD_ite_eq_nil]

theorem of_find?_group {name : String} {values : List String}
    (h : (group headers).find? name = some values) :
    values ≠ [] ∧ values = valuesUnder headers name := by
  rw [find?_group] at h
  split at h
  · cases h
  · next hne =>
    obtain rfl := Option.some.inj h
    exact ⟨hne, rfl⟩

theorem group_eq_of_valuesUnder (h : ∀ name, valuesUnder headers name = valuesUnder headers' name) :
    group headers = group headers' := by
  apply Dictionary.ext_find?
  intro name
  rw [find?_group, find?_group, h]

theorem stored_of_wellFormed (hheaders : ∀ header ∈ headers, header.WellFormed) {name : String}
    {values : List String} (h : (group headers).find? name = some values) :
    values ≠ [] ∧ name.toList.map Char.toLower = name.toList ∧ Unbroken name ∧
      ∀ value ∈ values, Unbroken value := by
  obtain ⟨hne, rfl⟩ := of_find?_group h
  obtain ⟨first, hfirst⟩ := List.exists_mem_of_ne_nil _ hne
  obtain ⟨header, hheader, rfl, -⟩ := mem_valuesUnder.1 hfirst
  refine ⟨hne, (hheaders header hheader).lower, (hheaders header hheader).name,
    fun value hvalue => ?_⟩
  obtain ⟨other, hother, -, rfl⟩ := mem_valuesUnder.1 hvalue
  exact (hheaders other hother).value

/-! ## From the flags to what is stored -/

theorem exists_parseAll_iff :
    (∃ headers, parseAll flags = .ok headers) ↔ ∀ flag ∈ flags, ∃ header, Denotes flag header := by
  constructor
  · rintro ⟨headers, h⟩ flag hflag
    obtain ⟨header, hheader⟩ := exists_ok_of_mapM h hflag
    exact ⟨header, denotes_of_parse hheader⟩
  · intro h
    refine exists_mapM_eq_ok fun flag hflag => ?_
    obtain ⟨header, hheader⟩ := h flag hflag
    exact ⟨header, parse_of_denotes hheader⟩

theorem wellFormed_of_parseAll (h : parseAll flags = .ok headers) :
    ∀ header ∈ headers, header.WellFormed := by
  intro header hheader
  obtain ⟨flag, -, hflag⟩ := exists_mem_of_mapM h hheader
  exact (denotes_of_parse hflag).wellFormed

theorem valuesOf_of_parseAll (h : parseAll flags = .ok headers) (name : List Char) :
    ValuesOf name flags (valuesUnder headers (String.ofList (name.map Char.toLower))) := by
  induction flags generalizing headers with
  | nil =>
    cases h
    exact .nil
  | cons flag flags ih =>
    obtain ⟨header, later, hflag, hlater, rfl⟩ := mapM_cons_eq_ok h
    obtain ⟨hdivides, -, -⟩ := denotes_of_parse hflag
    rw [valuesUnder_cons]
    split
    · next hsame => exact .own hdivides (String.ofList_injective hsame) (ih hlater)
    · next hother =>
        exact .other hdivides (fun hsame => hother (congrArg String.ofList hsame)) (ih hlater)

/-- By induction on the exchanges, none of which moves a value past another one of its name. -/
theorem valuesUnder_of_reordered (hflags : Reordered flags flags')
    (h : parseAll flags = .ok headers) :
    ∃ headers', parseAll flags' = .ok headers' ∧
      ∀ name, valuesUnder headers' name = valuesUnder headers name := by
  induction hflags generalizing headers with
  | refl => exact ⟨headers, h, fun _ => rfl⟩
  | trans _ _ ih ih' =>
    obtain ⟨between, hbetween, hvalues⟩ := ih h
    obtain ⟨headers', hheaders', hvalues'⟩ := ih' hbetween
    exact ⟨headers', hheaders', fun name => (hvalues' name).trans (hvalues name)⟩
  | cons flag _ ih =>
    obtain ⟨header, later, hflag, hlater, rfl⟩ := mapM_cons_eq_ok h
    obtain ⟨later', hlater', hvalues⟩ := ih hlater
    refine ⟨header :: later', mapM_cons_of_eq_ok hflag hlater', fun name => ?_⟩
    rw [valuesUnder_cons, valuesUnder_cons, hvalues]
  | swap hdivides hdivides' hother flags =>
    obtain ⟨header, rest, hflag, hrest, rfl⟩ := mapM_cons_eq_ok h
    obtain ⟨header', later, hflag', hlater, rfl⟩ := mapM_cons_eq_ok hrest
    have hne : header.name ≠ header'.name :=
      (denotes_of_parse hflag).name_ne (denotes_of_parse hflag') hdivides hdivides' hother
    refine ⟨header' :: header :: later, mapM_cons_of_eq_ok hflag' (mapM_cons_of_eq_ok hflag hlater),
      fun name => ?_⟩
    simp only [valuesUnder_cons]
    by_cases hname : header.name = name
    · have hname' : header'.name ≠ name := fun heq => hne (hname.trans heq.symm)
      rw [if_neg hname', if_pos hname, if_pos hname, if_neg hname']
    · rw [if_neg hname, if_neg hname]

/-- Either each flag denotes a header, or the first one that denotes none is told. Then every name
has the values of its flags, in whatever case they write it and in their order, so that flags of
other names may stand before or behind them. Nothing that is stored ends the line of a header. -/
theorem all_kept_or_first_refused (flags : List String) :
    ((∃ headers, parseAll flags = .ok headers) ↔ ∀ flag ∈ flags, ∃ header, Denotes flag header) ∧
      (∀ e, parseAll flags = .error e ↔
        ∃ before flag later, flags = before ++ flag :: later ∧
          (∀ f ∈ before, ∃ header, Denotes f header) ∧ (¬∃ header, Denotes flag header) ∧
          e = .invalidHeader flag) ∧
      ∀ headers, parseAll flags = .ok headers →
        (∀ name, ValuesOf name flags
          (((group headers).find? (String.ofList (name.map Char.toLower))).getD [])) ∧
          (∀ name values, (group headers).find? name = some values →
            values ≠ [] ∧ name.toList.map Char.toLower = name.toList ∧ Unbroken name ∧
              ∀ value ∈ values, Unbroken value) ∧
          ∀ flags', Reordered flags flags' →
            ∃ headers', parseAll flags' = .ok headers' ∧ group headers' = group headers := by
  refine ⟨exists_parseAll_iff, fun e => ?_,
    fun headers h => ⟨fun name => ?_, fun name values => ?_, ?_⟩⟩
  · simp only [parseAll, mapM_eq_error_iff, (parse_eq_iff _).1, (parse_eq_iff _).2]
  · rw [getD_find?_group]
    exact valuesOf_of_parseAll h name
  · exact stored_of_wellFormed (wellFormed_of_parseAll h)
  · intro flags' hflags
    obtain ⟨headers', hheaders', hvalues⟩ := valuesUnder_of_reordered hflags h
    exact ⟨headers', hheaders', group_eq_of_valuesUnder hvalues⟩

/-- A name in two cases, and a flag of another name that may also stand first. -/
theorem all_kept_or_first_refused_in_two_cases :
    let flags := ["Accept: text/html", "X-Trace:\u00a0on", "ACCEPT : a:b"]
    let flags' := ["X-Trace:\u00a0on", "Accept: text/html", "ACCEPT : a:b"]
    let headers : List Header := [⟨"accept", "text/html"⟩, ⟨"x-trace", "on"⟩, ⟨"accept", "a:b"⟩]
    parseAll flags = .ok headers ∧ ValuesOf "aCCept".toList flags ["text/html", "a:b"] ∧
      Reordered flags flags' ∧
      ∃ headers', parseAll flags' = .ok headers' ∧ group headers' = group headers := by
  intro flags flags' headers
  have h : parseAll flags = .ok headers := by rfl
  obtain ⟨hvalues, -, hreordered⟩ := (all_kept_or_first_refused flags).2.2 headers h
  have hcut : cut ':' "Accept: text/html".toList = some ("Accept".toList, " text/html".toList) := by
    decide
  have hcut' : cut ':' "X-Trace:\u00a0on".toList = some ("X-Trace".toList, "\u00a0on".toList) := by
    decide
  have hflags : Reordered flags flags' :=
    .swap (divides_of_cut hcut) (divides_of_cut hcut') (by decide) _
  exact ⟨h, hvalues "aCCept".toList, hflags, hreordered flags' hflags⟩

/-- A value may hold more than printable ASCII and tabs. -/
theorem value_beyond_ascii_kept :
    parseAll ["X-Name: é"] = .ok [⟨"x-name", "é"⟩] ∧
      ¬((∃ headers, parseAll ["X-Name: é"] = .ok headers) ↔
        ∀ flag ∈ ["X-Name: é"], ∃ name value, Divides flag name value ∧ isToken name = true ∧
          ∀ c ∈ value, c = '\t' ∨ 0x20 ≤ c.toNat ∧ c.toNat ≤ 0x7E) := by
  have h : parseAll ["X-Name: é"] = .ok [⟨"x-name", "é"⟩] := by rfl
  refine ⟨h, fun hiff => ?_⟩
  obtain ⟨name, value, hdivides, -, hvalue⟩ := hiff.1 ⟨_, h⟩ "X-Name: é" (by simp)
  have hcut : cut ':' "X-Name: é".toList = some ("X-Name".toList, " é".toList) := by decide
  obtain ⟨-, rfl⟩ := hdivides.inj (divides_of_cut hcut)
  exact absurd (hvalue 'é' (by decide)) (by decide)

end SchemaWalk.Header
