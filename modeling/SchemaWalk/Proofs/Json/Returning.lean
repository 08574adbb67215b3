import SchemaWalk.Json.Record

/-! # What readers return, whatever the input is: properties of parts become those of the whole -/
namespace SchemaWalk.Json

variable {α β δ σ : Type} {limit : Nat}

/-- Whatever the reader returns has the property. -/
def Returns (reader : Reader α) (P : α → Prop) : Prop :=
  ∀ ⦃s a rest⦄, reader s = .ok (a, rest) → P a

theorem returns_any (reader : Reader α) : Returns reader fun _ => True := fun _ _ _ _ => trivial

theorem exists_ok_of_bind {x : Except Fault α} {f : α → Except Fault β} {b : β}
    (h : x >>= f = .ok b) : ∃ a, x = .ok a ∧ f a = .ok b := by
  cases x with
  | error e => cases h
  | ok a => exact ⟨a, rfl, h⟩

theorem wrongType_ne_ok (expected : String) (s : Bytes) {r : α × Bytes} :
    wrongType limit expected s ≠ .ok r := by
  intro h
  obtain ⟨⟨found, rest⟩, -, hrefused⟩ := exists_ok_of_bind h
  cases hrefused

section

variable {reader : Reader α} {P : α → Prop}

theorem Returns.optional (h : Returns reader P) :
    Returns (optional reader) fun x => ∀ a ∈ x, P a := by
  intro s x rest hread
  rw [Json.optional] at hread
  split at hread
  · obtain ⟨⟨_, s'⟩, -, hnone⟩ := exists_ok_of_bind hread
    cases hnone
    rintro a ⟨⟩
  · obtain ⟨⟨a, s'⟩, ha, hsome⟩ := exists_ok_of_bind hread
    cases hsome
    rintro _ ⟨⟩
    exact h ha

theorem Returns.items (h : Returns reader P) (steps : Nat) {first : Bool} {before : List α}
    (hbefore : ∀ x ∈ before, P x) :
    Returns (items reader steps first before) fun xs => ∀ x ∈ xs, P x := by
  induction steps generalizing first before with
  | zero =>
    intro s xs rest hread
    cases hread
  | succ steps ih =>
    intro s xs rest hread
    rw [Json.items] at hread
    obtain ⟨⟨more, s'⟩, -, hread⟩ := exists_ok_of_bind hread
    cases more with
    | true =>
      obtain ⟨⟨x, s''⟩, hx, hread⟩ := exists_ok_of_bind hread
      exact ih (List.forall_mem_cons.2 ⟨h hx, hbefore⟩) hread
    | false =>
      cases hread
      exact fun x hx => hbefore x (List.mem_reverse.1 hx)

theorem Returns.list {item : Nat → Reader α} (h : ∀ depth, Returns (item depth) P) (depth : Nat) :
    Returns (list limit (nested item depth)) fun xs => ∀ x ∈ xs, P x := by
  intro s xs rest hread
  rw [Json.list] at hread
  split at hread
  · cases hread
  · split at hread
    · cases depth with
      | zero => cases hread
      | succ depth => exact (h depth).items limit (by simp) hread
    · exact absurd hread (wrongType_ne_ok _ _)

theorem Returns.listOrNull {item : Nat → Reader α} (h : ∀ depth, Returns (item depth) P)
    (depth : Nat) : Returns (listOrNull limit (nested item depth)) fun xs => ∀ x ∈ xs, P x := by
  intro s xs rest hread
  obtain ⟨⟨x, s'⟩, hx, hxs⟩ := exists_ok_of_bind hread
  cases hxs
  have hlist := (Returns.list h depth).optional hx
  cases x with
  | none => simp
  | some xs => exact hlist xs rfl

end

/-! ## Records -/

/-- The member changes a draft with the property into one that has it again. -/
def Member.Keeps (m : Member δ) (I : δ → Prop) : Prop :=
  Returns m.read fun change => ∀ d, I d → I (change d)

theorem Member.keeps_any (m : Member δ) : m.Keeps fun _ => True := fun _ _ _ _ _ _ => trivial

theorem Member.keeps_storing {name : String} {reader : Reader β} {store : β → δ → δ} {P : β → Prop}
    {I : δ → Prop} (h : Returns reader P) (hstore : ∀ b, P b → ∀ d, I d → I (store b d)) :
    (Member.storing name reader store).Keeps I := by
  intro s change rest hread
  obtain ⟨⟨b, s'⟩, hb, hchange⟩ := exists_ok_of_bind hread
  cases hchange
  exact hstore b (h hb)

/-- The draft has the property at every time, and gives the record its own. -/
structure Shape.Keeps (shape : Shape δ α) (I : δ → Prop) (P : α → Prop) : Prop where
  members : ∀ m ∈ shape.members, m.Keeps I
  blank : I shape.blank
  complete : ∀ d a, I d → shape.complete d = .ok a → P a

theorem returns_inOrder {ms : List (Member δ)} {I : δ → Prop} (hms : ∀ m ∈ ms, m.Keeps I)
    {first : Bool} {draft : δ} (hdraft : I draft) :
    Returns (inOrder ms first draft) fun x => I x.1 := by
  induction ms generalizing first draft with
  | nil =>
    intro s x rest hread
    cases hread
    exact hdraft
  | cons m ms ih =>
    rw [List.forall_mem_cons] at hms
    intro s x rest hread
    rw [inOrder] at hread
    obtain ⟨⟨more, s'⟩, -, hread⟩ := exists_ok_of_bind hread
    cases more with
    | true =>
      obtain ⟨⟨change, s''⟩, hchange, hread⟩ := exists_ok_of_bind hread
      exact ih hms.2 (hms.1 hchange draft hdraft) hread
    | false =>
      cases hread
      exact hdraft

theorem returns_recordMember {known : List (Member δ)} {I : δ → Prop}
    (hknown : ∀ m ∈ known, m.Keeps I) (name : String) {state : List String × δ}
    (hstate : I state.2) : Returns (recordMember limit known name state) fun x => I x.2 := by
  intro s x rest hread
  rw [recordMember] at hread
  split at hread
  · next m hm =>
    split at hread
    · cases hread
    · obtain ⟨⟨_, s'⟩, -, hread⟩ := exists_ok_of_bind hread
      obtain ⟨⟨change, s''⟩, hchange, hread⟩ := exists_ok_of_bind hread
      cases hread
      exact hknown m (List.mem_of_find?_eq_some hm) hchange state.2 hstate
  · obtain ⟨⟨_, s'⟩, -, hread⟩ := exists_ok_of_bind hread
    obtain ⟨⟨_, s''⟩, -, hread⟩ := exists_ok_of_bind hread
    cases hread
    exact hstate

theorem returns_members {member : String → σ → Reader σ} {I : σ → Prop}
    (hmember : ∀ name state, I state → Returns (member name state) I) (steps : Nat) {first : Bool}
    {state : σ} (hstate : I state) : Returns (members limit member steps first state) I := by
  induction steps generalizing first state with
  | zero =>
    intro s x rest hread
    cases hread
  | succ steps ih =>
    intro s x rest hread
    rw [members] at hread
    obtain ⟨⟨more, s'⟩, -, hread⟩ := exists_ok_of_bind hread
    cases more with
    | true =>
      obtain ⟨⟨name, s''⟩, -, hread⟩ := exists_ok_of_bind hread
      obtain ⟨⟨next, s'''⟩, hnext, hread⟩ := exists_ok_of_bind hread
      exact ih (hmember name state hstate hnext) hread
    | false =>
      cases hread
      exact hstate

variable {I : δ → Prop} {P : α → Prop}

theorem returns_record {shape : Nat → Shape δ α} (h : ∀ depth, (shape depth).Keeps I P)
    (name : String) (depth : Nat) : Returns (record limit name (nested shape depth)) P := by
  intro s a rest hread
  rw [record] at hread
  split at hread
  · cases hread
  · split at hread
    · cases depth with
      | zero => cases hread
      | succ depth =>
        obtain ⟨⟨⟨draft, ended⟩, s'⟩, hdraft, hread⟩ := exists_ok_of_bind hread
        have hkept : I draft := returns_inOrder (h depth).members (h depth).blank hdraft
        simp only at hread
        split at hread
        · next hcomplete =>
          obtain ⟨⟨_, s''⟩, -, hread⟩ := exists_ok_of_bind hread
          cases hread
          exact (h depth).complete draft a hkept hcomplete
        · cases hread
    · split at hread
      · cases depth with
        | zero => cases hread
        | succ depth =>
          obtain ⟨⟨⟨names, draft⟩, s'⟩, hdraft, hread⟩ := exists_ok_of_bind hread
          have hmember : ∀ (name : String) (state : List String × δ), I state.2 →
              Returns (recordMember limit (shape depth).members name state) fun x => I x.2 :=
            fun name state => returns_recordMember (h depth).members name
          have hkept : I draft :=
            returns_members (I := fun x : List String × δ => I x.2) hmember limit (h depth).blank
              hdraft
          simp only at hread
          split at hread
          · next hcomplete =>
            cases hread
            exact (h depth).complete draft a hkept hcomplete
          · cases hread
      · exact absurd hread (wrongType_ne_ok _ _)

theorem Returns.readAll {reader : Nat → Reader α} (h : ∀ limit, Returns (reader limit) P)
    {input : Bytes} {a : α} (hread : readAll reader input = .ok a) : P a := by
  obtain ⟨⟨b, rest⟩, hb, hread⟩ := exists_ok_of_bind hread
  simp only at hread
  split at hread
  · cases hread
    exact h _ hb
  · cases hread

end SchemaWalk.Json
