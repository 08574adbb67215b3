import SchemaWalk.Text.Utf8

/-! # Cutting text: at a character, or after a number of bytes -/
namespace SchemaWalk.Text

/-- The pieces between the occurrences of `sep`; `n` occurrences make `n + 1` pieces. -/
def pieces (sep : Char) : List Char → List (List Char)
  | [] => [[]]
  | c :: s =>
    if c = sep then [] :: pieces sep s
    else match pieces sep s with
      | [] => [[c]]
      | p :: ps => (c :: p) :: ps

/-- What stands before the first `sep` and what stands after it. -/
def cut (sep : Char) : List Char → Option (List Char × List Char)
  | [] => none
  | c :: s => if c = sep then some ([], s) else (cut sep s).map fun (l, r) => (c :: l, r)

/-- Cuts after the first `n` bytes; `none` if that is beyond the end or inside of a character. -/
def cutAfter : Nat → List Char → Option (List Char × List Char)
  | 0, s => some ([], s)
  | _ + 1, [] => none
  | n + 1, c :: s =>
    if c.utf8Size ≤ n + 1 then (cutAfter (n + 1 - c.utf8Size) s).map fun (l, r) => (c :: l, r)
    else none

theorem takeWhile_append_of_stop {p : Char → Bool} {l r : List Char} (hl : ∀ c ∈ l, p c = true)
    (hr : ∀ c ∈ r.head?, p c = false) : (l ++ r).takeWhile p = l := by
  rw [List.takeWhile_append_of_pos hl]
  cases r with
  | nil => simp
  | cons c r => simp [hr c (by simp)]

theorem dropWhile_append_of_stop {p : Char → Bool} {l r : List Char} (hl : ∀ c ∈ l, p c = true)
    (hr : ∀ c ∈ r.head?, p c = false) : (l ++ r).dropWhile p = r := by
  rw [List.dropWhile_append_of_pos hl]
  cases r with
  | nil => rfl
  | cons c r => simp [hr c (by simp)]

theorem pieces_ne_nil (sep : Char) (s : List Char) : pieces sep s ≠ [] := by
  cases s with
  | nil => simp [pieces]
  | cons c s =>
    simp only [pieces]
    split
    · simp
    · split <;> simp

theorem intercalate_pieces (sep : Char) (s : List Char) :
    [sep].intercalate (pieces sep s) = s := by
  induction s with
  | nil => rfl
  | cons c s ih =>
    simp only [pieces]
    cases hp : pieces sep s with
    | nil => exact absurd hp (pieces_ne_nil sep s)
    | cons p ps =>
      rw [hp] at ih
      split
      · next h => subst h; simpa [List.intercalate, List.intersperse] using ih
      · cases ps <;> simp_all [List.intercalate, List.intersperse]

theorem pieces_of_not_mem {sep : Char} {s : List Char} (h : sep ∉ s) : pieces sep s = [s] := by
  induction s with
  | nil => rfl
  | cons c s ih =>
    rw [List.mem_cons, not_or] at h
    simp only [pieces, if_neg (Ne.symm h.1), ih h.2]

theorem pieces_append (sep : Char) (s t : List Char) :
    pieces sep (s ++ sep :: t) = pieces sep s ++ pieces sep t := by
  induction s with
  | nil => simp [pieces]
  | cons c s ih =>
    rw [List.cons_append]
    simp only [pieces, ih]
    split
    · rfl
    · cases hp : pieces sep s with
      | nil => exact absurd hp (pieces_ne_nil sep s)
      | cons p ps => rfl

theorem pieces_flatMap (sep : Char) (s : List Char) (ts : List (List Char)) :
    pieces sep (s ++ ts.flatMap (sep :: ·)) = pieces sep s ++ ts.flatMap (pieces sep) := by
  induction ts generalizing s with
  | nil => simp
  | cons t ts ih => rw [List.flatMap_cons, List.cons_append, pieces_append, ih, List.flatMap_cons]

theorem flatMap_pieces {sep : Char} {ts : List (List Char)} (h : ∀ t ∈ ts, sep ∉ t) :
    ts.flatMap (pieces sep) = ts := by
  induction ts with
  | nil => rfl
  | cons t ts ih =>
    rw [List.flatMap_cons, pieces_of_not_mem (h t (by simp)),
      ih fun t ht => h t (List.mem_cons_of_mem _ ht)]
    rfl

theorem pieces_intercalate {sep : Char} {parts : List (List Char)} (hne : parts ≠ [])
    (h : ∀ p ∈ parts, sep ∉ p) : pieces sep ([sep].intercalate parts) = parts := by
  induction parts with
  | nil => exact absurd rfl hne
  | cons p parts ih =>
    rw [List.forall_mem_cons] at h
    cases parts with
    | nil => simp [pieces_of_not_mem h.1]
    | cons q parts =>
      rw [List.intercalate_cons_cons, List.append_assoc, List.singleton_append, pieces_append,
        pieces_of_not_mem h.1, ih (by simp) h.2]
      rfl

theorem not_mem_of_mem_pieces {sep : Char} {s p : List Char} (h : p ∈ pieces sep s) : sep ∉ p := by
  induction s generalizing p with
  | nil => simp_all [pieces]
  | cons c s ih =>
    simp only [pieces] at h
    split at h
    · rcases List.mem_cons.1 h with rfl | h
      · simp
      · exact ih h
    · next hc =>
      split at h
      · rw [List.mem_singleton.1 h, List.mem_singleton]
        exact Ne.symm hc
      · next q qs hpieces =>
        rw [hpieces] at ih
        rcases List.mem_cons.1 h with rfl | h
        · simp [ih (p := q) (by simp), Ne.symm hc]
        · exact ih (List.mem_cons_of_mem _ h)

theorem mem_pieces {sep : Char} {l p r : List Char} (hp : sep ∉ p) (hl : ∀ c ∈ l.getLast?, c = sep)
    (hr : ∀ c ∈ r.head?, c = sep) : p ∈ pieces sep (l ++ p ++ r) := by
  have hright : p ∈ pieces sep (p ++ r) := by
    cases r with
    | nil => simp [pieces_of_not_mem hp]
    | cons c r =>
      obtain rfl := hr c (by simp)
      simp [pieces_append, pieces_of_not_mem hp]
  rcases List.eq_nil_or_concat l with rfl | ⟨l, c, rfl⟩
  · exact hright
  · obtain rfl := hl c (by simp)
    rw [List.append_assoc, List.concat_eq_append, List.append_assoc, List.singleton_append,
      pieces_append]
    exact List.mem_append_right _ hright

theorem cut_eq_some_iff {sep : Char} {s l r : List Char} :
    cut sep s = some (l, r) ↔ s = l ++ sep :: r ∧ sep ∉ l := by
  induction s generalizing l with
  | nil => simp [cut]
  | cons c s ih =>
    simp only [cut]
    split
    · next h =>
      subst h
      cases l with
      | nil => simp [eq_comm]
      | cons d l => simp; grind
    · next h =>
      cases l with
      | nil => simp [h]
      | cons d l => simp [Option.map_eq_some_iff, ih]; grind

theorem cut_eq_none_iff {sep : Char} {s : List Char} : cut sep s = none ↔ sep ∉ s := by
  induction s with
  | nil => simp [cut]
  | cons c s ih =>
    simp only [cut]
    split
    · next h => simp [h]
    · next h => simp [ih, Ne.symm h]

theorem cutAfter_eq_some_iff {n : Nat} {s l r : List Char} :
    cutAfter n s = some (l, r) ↔ s = l ++ r ∧ (encode l).length = n := by
  fun_induction cutAfter n s generalizing l with
  | case1 s =>
    cases l with
    | nil => simp [eq_comm]
    | cons c l => simpa using fun _ h => absurd h (Nat.ne_of_gt c.utf8Size_pos)
  | case2 n => cases l <;> simp
  | case3 n c s h ih =>
    cases l with
    | nil => simp
    | cons d l => simp [Option.map_eq_some_iff, ih]; grind
  | case4 n c s h =>
    cases l with
    | nil => simp
    | cons d l => simp; grind

end SchemaWalk.Text
