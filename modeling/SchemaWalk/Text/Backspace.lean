import SchemaWalk.Text.Cluster
import SchemaWalk.Text.Split

/-! # Typed text with its backspaces carried out -/
namespace SchemaWalk.Text

def backspace : Char := '\x08'

/-- How many bytes a backspace takes for a cluster: its size, of which one byte is kept. -/
def erasedSize (cluster : List Char) : Nat := (encode cluster).length % 256

/-- Carries out the backspaces among clusters. What is left of the text before them is `kept`, in
reverse, and `sizes` are those that the next backspaces will take. -/
def eraseFrom : List Char → List Nat → List (List Char) → Option (List Char)
  | kept, _, [] => some kept.reverse
  | kept, sizes, cluster :: rest =>
    if cluster = [backspace] then
      match sizes with
      | [] => eraseFrom kept [] rest
      | size :: sizes => do
        let (_, kept) ← cutAfter size kept
        eraseFrom kept sizes rest
    else eraseFrom (cluster.reverse ++ kept) (erasedSize cluster :: sizes) rest

/-- Each backspace takes away the last cluster that is left, if any; `none` if it would take a part
of a character, which only clusters of 256 bytes or more allow. -/
def erase (typed : List Char) : Option (List Char) := eraseFrom [] [] (clusters typed)

theorem mem_of_eraseFrom {kept text : List Char} {sizes : List Nat} {parts : List (List Char)}
    (h : eraseFrom kept sizes parts = some text) {c : Char} (hc : c ∈ text) :
    c ∈ kept ∨ c ∈ parts.flatten := by
  induction parts generalizing kept sizes with
  | nil =>
    cases h
    simpa using hc
  | cons part parts ih =>
    simp only [eraseFrom] at h
    rw [List.flatten_cons, List.mem_append]
    split at h
    · cases sizes with
      | nil => rcases ih h with hkept | hrest <;> simp [*]
      | cons size sizes =>
        obtain ⟨⟨erased, left⟩, hcut, hleft⟩ := Option.bind_eq_some_iff.1 h
        obtain ⟨rfl, -⟩ := cutAfter_eq_some_iff.1 hcut
        rcases ih hleft with hkept | hrest <;> simp [*]
    · rcases ih h with hkept | hrest
      · rcases List.mem_append.1 hkept with hpart | hkept
        · exact .inr (.inl (List.mem_reverse.1 hpart))
        · exact .inl hkept
      · exact .inr (.inr hrest)

theorem mem_of_erase {typed text : List Char} (h : erase typed = some text) {c : Char}
    (hc : c ∈ text) : c ∈ typed := by
  simpa [flatten_clusters] using mem_of_eraseFrom h hc

end SchemaWalk.Text
