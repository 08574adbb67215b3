import SchemaWalk.Proofs.Document.Lines
import SchemaWalk.Proofs.Path.Handles

/-! # Documents in closed form: each line and each brace by its number -/
namespace SchemaWalk

namespace Document

/-- The lines above a fragment, each with two spaces more before it than the last. -/
def head (openers : List (List Char)) : List Char :=
  (openers.mapIdx fun j opener =>
    List.replicate (2 * j) ' ' ++ opener ++ [' ', '\x7b', '\n']).flatten

/-- The braces below it, from the last line's to the first one's, as far in as their lines. -/
def foot (count : Nat) : List Char :=
  (List.range count).reverse.flatMap fun j => '\n' :: List.replicate (2 * j) ' ' ++ ['\x7d']

/-- By induction on the lines. The depth is that of the first line, and grows as lines
are left out above. -/
theorem joined_openingLines_eq (depth : Nat) (openers : List (List Char)) :
    joined (openingLines depth openers) =
      (openers.mapIdx fun j opener =>
        margin (depth + j) ++ opener ++ [' ', '\x7b', '\n']).flatten := by
  induction openers generalizing depth with
  | nil => rfl
  | cons opener openers ih =>
    have hshift : ∀ j, depth + 1 + j = depth + (j + 1) := fun j => by omega
    rw [openingLines, joined, List.flatMap_cons, ← joined, ih, List.mapIdx_cons, List.flatten_cons]
    simp only [openingLine, hshift, Nat.add_zero, List.append_assoc, List.cons_append,
      List.nil_append]

theorem closing_eq (depth count : Nat) :
    closing depth count =
      (List.range count).reverse.flatMap fun j => '\n' :: margin (depth + j) ++ ['\x7d'] := by
  induction count generalizing depth with
  | zero => rfl
  | succ count ih =>
    have hshift : ∀ j, depth + 1 + j = depth + (j + 1) := fun j => by omega
    rw [closing, ih, List.range_succ_eq_map, List.reverse_cons, List.flatMap_append,
      ← List.map_reverse, List.flatMap_map]
    simp [hshift]

theorem framed_eq (fragment : List Char) (openers : List (List Char)) :
    framed fragment openers = head openers ++ fragment ++ foot openers.length := by
  rw [framed, joined_openingLines_eq, closing_eq]
  simp only [Nat.zero_add]
  rfl

end Document

namespace Path

open Document

variable {p : Path} {h : Handle} {s : Step}

theorem follow?_of_node? (hs : p.node? h = some s) :
    ∃ below, p.follow? p.slots.length (some h) = some (s :: below) ∧
      (s :: below).map (·.toSelection) = (p.entries.drop h.depth).map (·.2) := by
  obtain ⟨slot, hslot, hstamp, rfl⟩ := Arena.node?_eq_some_iff.1 hs
  obtain ⟨hd, hget⟩ := List.getElem?_eq_some_iff.1 hslot
  have hhandle : Arena.handleAt p.slots h.depth = some h :=
    Arena.handleAt_eq_some_iff.2 ⟨rfl, slot, hslot, hstamp⟩
  have hfollow := p.linked.follow? p.slots.length h.depth (by omega)
  rw [hhandle, List.drop_eq_getElem_cons hd, hget, List.map_cons] at hfollow
  refine ⟨_, hfollow, ?_⟩
  rw [Arena.entries, ← List.map_drop, List.map_map, List.drop_eq_getElem_cons hd, hget,
    List.map_cons, List.map_cons, List.map_map]
  rfl

theorem documentFrom_of_node? (hs : p.node? h = some s) (fragment : String) :
    p.documentFrom h fragment =
      ((nest fragment.toList [] ((p.entries.drop h.depth).map (·.2))).map String.ofList).mapError
        .unsupported := by
  have hlive : p.holds h = true := Arena.holds_iff_node?.2 ⟨s, hs⟩
  rw [documentFrom, dif_pos hlive, writeFrom_eq]

theorem documentFrom_eq_detached_iff (fragment : String) :
    p.documentFrom h fragment = .error .detached ↔ p.node? h = none := by
  cases hs : p.node? h with
  | none => exact iff_of_true ((rejected_of_node?_none hs).2 fragment) rfl
  | some s =>
    rw [documentFrom_of_node? hs]
    refine iff_of_false ?_ (by simp)
    cases nest fragment.toList [] ((p.entries.drop h.depth).map (·.2))
      <;> simp [Except.map, Except.mapError]

/-- A document is refused for a handle exactly if the handle is dead. From a live one on it is made
of as many lines as there are steps and scopes on the way down, then of the fragment as it is, then
of a brace for each line. What stands around the fragment depends on the steps alone. -/
theorem document_between_head_and_foot (p : Path) (h : Handle) :
    (∀ fragment, p.documentFrom h fragment = .error .detached ↔ p.node? h = none) ∧
    ∀ s, p.node? h = some s → ∃ below, p.follow? p.slots.length (some h) = some (s :: below) ∧
      ((∀ t ∈ s :: below, ∀ e ∈ t.arguments.entries, e.2.render?.isSome = true) →
        (∀ t ∈ s :: below, t.render = .ok t.text) ∧
        let openers := (s :: below).flatMap fun t => Document.openers t.toSelection
        ∀ fragment, p.documentFrom h fragment =
          .ok (String.ofList (head openers ++ fragment.toList ++ foot openers.length))) := by
  refine ⟨documentFrom_eq_detached_iff, fun s hs => ?_⟩
  obtain ⟨below, hfollow, hentries⟩ := follow?_of_node? hs
  refine ⟨below, hfollow, fun hplain => ?_⟩
  have hrender : ∀ t ∈ s :: below, t.render = .ok t.text := by
    intro t ht
    apply Selection.render_of_plain
    intro e he
    obtain ⟨text, htext⟩ := Option.isSome_iff_exists.1 (hplain t ht e he)
    exact Literal.plain_of_render? htext
  have hselections : ∀ t ∈ (s :: below).map (·.toSelection), t.render = .ok t.text := by
    simpa using hrender
  refine ⟨hrender, fun fragment => ?_⟩
  have hnest := nest_eq hselections fragment.toList 0
  rw [← framed, framed_eq, List.flatMap_map] at hnest
  rw [documentFrom_of_node? hs, ← hentries, show ([] : List Char) = margin 0 from rfl, hnest]
  rfl

/-- Below a step that is narrowed the lines are two steps further in, and a fragment of braces
changes nothing around it. -/
theorem document_between_head_and_foot_of_posts :
    let p := start.append [{ name := "user" },
      { name := "posts", arguments := Dictionary.empty.insert "first" (.integer 10),
        scope := some "Post" },
      { name := "author" }]
    let author : Step := { name := "author", parent := some ⟨2, 2⟩ }
    ∃ posts, p.node? ⟨2, 2⟩ = some posts ∧
      (∀ t ∈ [posts, author], ∀ e ∈ t.arguments.entries, e.2.render?.isSome = true) ∧
      p.documentFrom ⟨2, 2⟩ "\x7d\x7b" =
        .ok "posts(first: 10) \x7b\n  ... on Post \x7b\n    author \x7b\n\x7d\x7b\n    \x7d\n  \x7d\n\x7d" ∧
      p.documentFrom ⟨2, 3⟩ "" = .error .detached := by
  intro p author
  let posts : Step :=
    { name := "posts", arguments := Dictionary.empty.insert "first" (.integer 10),
      scope := some "Post", parent := some ⟨1, 1⟩, child := some ⟨3, 3⟩ }
  have hposts : p.node? ⟨2, 2⟩ = some posts := rfl
  have hplain : ∀ t ∈ [posts, author], ∀ e ∈ t.arguments.entries, e.2.render?.isSome = true := by
    have hentries : posts.arguments.entries = [("first", .integer 10)] := rfl
    simp [hentries, author, Dictionary.empty, Literal.render?]
  obtain ⟨below, hfollow, hwritten⟩ := (document_between_head_and_foot p ⟨2, 2⟩).2 posts hposts
  have hlinks : p.follow? p.slots.length (some ⟨2, 2⟩) = some [posts, author] := rfl
  rw [hlinks] at hfollow
  obtain rfl : [author] = below := (List.cons.inj (Option.some.inj hfollow)).2
  refine ⟨posts, hposts, hplain, ?_, ((document_between_head_and_foot p ⟨2, 3⟩).1 "").2 rfl⟩
  rw [(hwritten hplain).2]
  exact congrArg Except.ok (by decide +kernel)

end Path

end SchemaWalk
