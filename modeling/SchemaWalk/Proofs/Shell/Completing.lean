import SchemaWalk.Shell.Completion

/-! # Completion offers the fields that are listed after the movement typed so far -/
namespace SchemaWalk

open Text

/-- Steps that are only put behind those of a path lead where the path leads that
they are appended to. -/
theorem Schema.fieldsAlong_steps_append (schema : Schema) (p : Path) (chain : List Step) :
    schema.fieldsAlong (p.steps ++ chain) = schema.fieldsAt (p.append chain) := by
  have hselections : (p.append chain).steps.map (·.toSelection) =
      (p.steps ++ chain).map (·.toSelection) := by
    rw [List.map_append]
    exact p.selections_append chain
  simp only [fieldsAt, fieldsAlong, typeAlong_eq, hselections]

namespace Completion

theorem atLastDot_eq (completed : List Char) {word : List Char} (hword : '.' ∉ word) :
    atLastDot (completed ++ '.' :: word) = (completed, word) := by
  have hreverse : (completed ++ '.' :: word).reverse =
      word.reverse ++ '.' :: completed.reverse := by simp
  have hinside : ∀ c ∈ word.reverse, decide (c ≠ '.') = true := by
    intro c hc
    rw [decide_eq_true_eq]
    rintro rfl
    exact hword (List.mem_reverse.1 hc)
  have hstop : ∀ c ∈ ('.' :: completed.reverse).head?, decide (c ≠ '.') = false := by simp
  simp only [atLastDot, hreverse, takeWhile_append_of_stop hinside hstop,
    dropWhile_append_of_stop hinside hstop, List.drop_one, List.tail_cons, List.reverse_reverse]

theorem exists_lastDot {text : List Char} (h : '.' ∈ text) :
    ∃ completed word, text = completed ++ '.' :: word ∧ '.' ∉ word := by
  obtain ⟨word, completed, hreverse, hword⟩ := List.eq_append_cons_of_mem (List.mem_reverse.2 h)
  refine ⟨completed.reverse, word.reverse, ?_, by simpa using hword⟩
  rw [← List.reverse_reverse text, hreverse]
  simp

theorem isCompletable_eq_true {text : List Char} (h : isCompletable text = true) :
    '.' ∈ text ∧ ∀ c ∈ text, isCompletableChar c = true := by
  unfold isCompletable at h
  split at h
  · next rest =>
    rw [List.all_eq_true] at h
    exact ⟨List.mem_cons_self, List.forall_mem_cons.2 ⟨by decide, h⟩⟩
  · cases h

theorem utf8Size_of_isCompletableChar {c : Char} (h : isCompletableChar c = true) :
    c.utf8Size = 1 := by
  rw [Char.utf8Size_eq_one_iff, UInt32.le_iff_toNat_le]
  have hcases : Name.isPart c = true ∨ c = '.' ∨ c = '-' := by
    simp only [isCompletableChar, Char.isAlphanum, Bool.or_eq_true, decide_eq_true_eq] at h
    simp only [Name.isPart, Name.isStart, Bool.or_eq_true, decide_eq_true_eq]
    grind
  rcases hcases with hpart | rfl | rfl
  · have hle : c.toNat ≤ 122 := (Name.toNat_of_isPart hpart).2
    exact Nat.le_trans hle (by decide)
  · decide
  · decide

theorem length_encode {text : List Char} (h : ∀ c ∈ text, isCompletableChar c = true) :
    (encode text).length = text.length := by
  induction text with
  | nil => rfl
  | cons c text ih =>
    rw [List.forall_mem_cons] at h
    simp [ih h.2, utf8Size_of_isCompletableChar h.1, Nat.add_comm]

/-- The fields listed below a path after a movement down from it. -/
def listedAfter? (schema : Schema) (p : Path) (movement : List Char) : Option (List Field) := do
  let chain ← (Traversal.descent movement).toOption
  (schema.fieldsAt (p.append chain)).toOption

/-- No movement is read as one without steps, so it needs no case of its own. -/
theorem fieldsAfter?_eq (schema : Schema) (p : Path) (completed : List Char) :
    fieldsAfter? schema p completed = listedAfter? schema p completed := by
  simp only [fieldsAfter?, listedAfter?, Schema.fieldsAlong_steps_append]
  cases completed <;> rfl

variable {schema : Schema} {p : Path} {typed completed word : List Char}

theorem candidates_of_not_completable (h : isCompletable typed = false) :
    candidates schema p typed = ((encode typed).length, []) := by
  simp [candidates, h]

theorem candidates_of_completable (h : isCompletable (completed ++ '.' :: word) = true)
    (hword : '.' ∉ word) :
    candidates schema p (completed ++ '.' :: word) =
      match listedAfter? schema p completed with
      | some fields =>
        ((encode completed).length + 1,
          (fields.map (·.name)).filter fun name => word.isPrefixOf name.toList)
      | none => ((encode (completed ++ '.' :: word)).length, []) := by
  have hbytes : (encode word).length = word.length :=
    length_encode fun c hc => (isCompletable_eq_true h).2 c (by simp [hc])
  have hstart : (encode (completed ++ '.' :: word)).length - word.length =
      (encode completed).length + 1 := by
    have hdot : (String.utf8EncodeChar '.').length = 1 := by decide
    rw [encode_append, encode_cons, List.length_append, List.length_append, hbytes, hdot]
    omega
  have hsplit := atLastDot_eq completed hword
  have hfields := fieldsAfter?_eq schema p completed
  cases hlisted : listedAfter? schema p completed with
  | none => simp only [candidates, h, if_true, hsplit, hfields, hlisted]
  | some fields => simp only [candidates, h, if_true, hsplit, hfields, hlisted, hstart]

/-- Each candidate goes on from what stands between its beginning and the cursor, so that taking it
deletes nothing. -/
def Continues (typed : List Char) (start : Nat) (names : List String) : Prop :=
  ∃ before word, typed = before ++ word ∧ (encode before).length = start ∧
    ∀ name ∈ names, word <+: name.toList

theorem continues_nil (typed : List Char) : Continues typed (encode typed).length [] :=
  ⟨typed, [], by simp, rfl, by simp⟩

theorem candidates_continue (schema : Schema) (p : Path) (typed : List Char) :
    Continues typed (candidates schema p typed).1 (candidates schema p typed).2 := by
  cases h : isCompletable typed with
  | false =>
    rw [candidates_of_not_completable h]
    exact continues_nil typed
  | true =>
    obtain ⟨completed, word, rfl, hword⟩ := exists_lastDot (isCompletable_eq_true h).1
    rw [candidates_of_completable h hword]
    cases listedAfter? schema p completed with
    | none => exact continues_nil _
    | some fields =>
      refine ⟨completed ++ ['.'], word, by simp, ?_, ?_⟩
      · rw [encode_append, List.length_append]
        rfl
      · intro name hname
        exact List.isPrefixOf_iff_prefix.1 (List.mem_filter.1 hname).2

/-- Wherever the cursor stands between two characters, completion answers. After a movement without
arguments it offers, in the order of the listing, the fields listed there whose names begin with the
last word, and it offers none after any other text. -/
theorem complete_agrees_with_listing (schema : Schema) (p : Path) {line : String}
    {typed rest : List Char} {cursor : Nat} (hline : line.toList = typed ++ rest)
    (hcursor : (encode typed).length = cursor) :
    ∃ start names, complete schema p line cursor = some (start, names) ∧
      (isCompletable typed = false → (start, names) = (cursor, [])) ∧
      (isCompletable typed = true → ∃ completed word, typed = completed ++ '.' :: word ∧
        '.' ∉ word ∧
        (start, names) =
          match listedAfter? schema p completed with
          | some fields =>
            ((encode completed).length + 1,
              (fields.map (·.name)).filter fun name => word.isPrefixOf name.toList)
          | none => (cursor, [])) ∧
      Continues typed start names := by
  have hcut : cutAfter cursor line.toList = some (typed, rest) :=
    cutAfter_eq_some_iff.2 ⟨hline, hcursor⟩
  refine ⟨(candidates schema p typed).1, (candidates schema p typed).2, by rw [complete, hcut]; rfl,
    ?_, ?_, candidates_continue schema p typed⟩
  · intro h
    rw [candidates_of_not_completable h, hcursor]
  · intro h
    obtain ⟨completed, word, rfl, hword⟩ := exists_lastDot (isCompletable_eq_true h).1
    refine ⟨completed, word, rfl, hword, ?_⟩
    rw [candidates_of_completable h hword, hcursor]

def users : Schema where
  queryName := "Query"
  mutationName := none
  subscriptionName := none
  types :=
    Schema.collect [{ kind := .object, name := "Query",
                      fields := [{ name := "node", type := .named .interface "Node" }] },
      { kind := .interface, name := "Node",
        fields := [{ name := "id", type := .named .scalar "ID" }] },
      { kind := .object, name := "User",
        fields := [{ name := "login", type := .named .scalar "String" },
          { name := "friend", type := .named .object "User" },
          { name := "id", type := .named .scalar "ID" },
          { name := "locale", type := .named .scalar "String" }] }]
  query_defined := by decide

/-- The path and the movement are taken together, and what stands after the cursor plays no part. -/
theorem complete_after_narrowing :
    let node := Path.start.append [{ name := "node" }]
    let user := node.rescope node.current "User"
    let typed := ".friend.lo".toList
    ".friend.lo, é".toList = typed ++ ", é".toList ∧ (encode typed).length = 10 ∧
      isCompletable typed = true ∧
      complete users user ".friend.lo, é" 10 = some (8, ["login", "locale"]) ∧
      ∃ completed word, typed = completed ++ '.' :: word ∧ '.' ∉ word ∧
        (8, ["login", "locale"]) =
          match listedAfter? users user completed with
          | some fields =>
            ((encode completed).length + 1,
              (fields.map (·.name)).filter fun name => word.isPrefixOf name.toList)
          | none => (10, []) := by
  intro node user typed
  have hline : ".friend.lo, é".toList = typed ++ ", é".toList := by decide
  have hcursor : (encode typed).length = 10 := by decide
  have hcompletable : isCompletable typed = true := by decide
  have hcomplete : complete users user ".friend.lo, é" 10 = some (8, ["login", "locale"]) := by
    decide +kernel
  obtain ⟨start, names, hresult, -, hlisted, -⟩ :=
    complete_agrees_with_listing users user hline hcursor
  rw [hcomplete] at hresult
  cases hresult
  exact ⟨hline, hcursor, hcompletable, hcomplete, hlisted hcompletable⟩

end Completion

end SchemaWalk
