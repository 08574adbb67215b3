import SchemaWalk.Proofs.Json.Reading

/-! # Reading records from all objects that spell them -/
namespace SchemaWalk.Json

open Text

variable {σ δ α : Type} {limit : Nat}

/-! ## The members of an object -/

theorem nextMember_lead {first : Bool} {lead gap : List Char} (hlead : Lead first lead)
    (hgap : Gap gap) (s : Bytes) :
    nextMember first (encode lead ++ (encode gap ++ 0x22 :: s)) = .ok (true, 0x22 :: s) := by
  cases hlead with
  | first =>
    rw [nextMember, encode_nil, List.nil_append, hgap.skipBlanks]
    rfl
  | later hlater =>
    rw [nextMember, encode_append, List.append_assoc, hlater.skipBlanks, encode_comma,
      skipBlanks_cons rfl]
    simp only [Bool.false_eq_true, if_false, hgap.skipBlanks]
    rfl

theorem nextMember_closing (first : Bool) {gap : List Char} (hgap : Gap gap) (s : Bytes) :
    nextMember first (encode gap ++ 0x7D :: s) = .ok (false, 0x7D :: s) := by
  rw [nextMember, hgap.skipBlanks]
  rfl

/-- After the name of an entry the reader takes its colon and its value, and
comes to another state. -/
def Takes (limit : Nat) (member : String → σ → Reader σ) (e : String × List Char)
    (state state' : σ) : Prop :=
  ∀ ⦃before after rest⦄, Gap before → Gap after → Stops rest → (encode e.2).length < limit →
    member e.1 state (encode before ++ 0x3A :: (encode after ++ (encode e.2 ++ rest))) =
      .ok (state', rest)

inductive TakesAll (limit : Nat) (member : String → σ → Reader σ) :
    List (String × List Char) → σ → σ → Prop
  | nil {state : σ} : TakesAll limit member [] state state
  | cons {e : String × List Char} {es : List (String × List Char)} {state state' state'' : σ}
      (h : Takes limit member e state state') (hs : TakesAll limit member es state' state'') :
      TakesAll limit member (e :: es) state state''

variable {member : String → σ → Reader σ}

theorem members_entry {e : String × List Char} {t : List Char} (ht : EntryText StringText e t)
    {state state' : σ} (h : Takes limit member e state state') {first : Bool} {lead gap : List Char}
    (hlead : Lead first lead) (hgap : Gap gap) (hlimit : (encode t).length < limit) (steps : Nat)
    {rest : Bytes} (hrest : Stops rest) :
    members limit member (steps + 1) first state
      (encode lead ++ (encode gap ++ (encode t ++ rest))) =
      members limit member steps false state' rest := by
  obtain @⟨name, t, value, before, after, ht, hbefore, hafter⟩ := ht
  rw [List.append_assoc, ← List.singleton_append] at hlimit ⊢
  simp only [encode_append, List.append_assoc, List.length_append] at hlimit ⊢
  obtain ⟨u, hu, htail⟩ := ht.tail (show (encode t).length < limit by omega)
    (encode before ++ 0x3A :: (encode after ++ (encode value ++ rest)))
  have hvalue := h hbefore hafter hrest (show (encode value).length < limit by omega)
  rw [members, hu, List.cons_append, nextMember_lead hlead hgap]
  simp only [bind, Except.bind, if_true, List.drop_one, List.tail_cons, encode_cons, encode_nil,
    List.append_nil, utf8EncodeChar_colon, List.singleton_append, htail, hvalue]

/-- By induction on the entries, in step with the run through the states. -/
theorem Separated.members {entries : List (String × List Char)} {ts : List Char}
    (h : Separated (EntryText StringText) entries ts) {state state' : σ}
    (hrun : TakesAll limit member entries state state') {steps : Nat}
    (hsteps : entries.length < steps) {first : Bool} {lead : List Char} (hlead : Lead first lead)
    (hlimit : (encode ts).length < limit) (rest : Bytes) :
    members limit member steps first state (encode lead ++ (encode ts ++ 0x7D :: rest)) =
      .ok (state', rest) := by
  induction h generalizing steps first lead state with
  | @one e t gap after ht hgap hafter =>
    obtain ⟨steps, rfl⟩ := Nat.exists_eq_add_of_le' (show 2 ≤ steps from hsteps)
    have hstops : Stops (encode after ++ 0x7D :: rest) := by
      apply hafter.stops_append
      rintro b ⟨⟩
      decide
    cases hrun with
    | cons hfirst hnone =>
      cases hnone
      simp only [encode_append, List.append_assoc, List.length_append] at hlimit ⊢
      rw [members_entry ht hfirst hlead hgap (by omega) _ hstops, Json.members,
        nextMember_closing false hafter]
      rfl
  | @cons e es t ts gap after ht hgap hafter hts ih =>
    obtain ⟨steps, rfl⟩ := Nat.exists_eq_add_of_le' (show 1 ≤ steps by omega)
    have hstops : Stops (encode after ++ (encode [','] ++ (encode ts ++ 0x7D :: rest))) := by
      apply hafter.stops_append
      rintro b ⟨⟩
      decide
    cases hrun with
    | cons hfirst hothers =>
      rw [← List.singleton_append] at hlimit ⊢
      simp only [encode_append, List.append_assoc, List.length_append, List.length_cons]
        at hlimit hsteps ⊢
      have hrest := ih hothers (show es.length < steps by omega) (.later hafter) (by omega)
      rw [encode_append, List.append_assoc] at hrest
      rw [members_entry ht hfirst hlead hgap (by omega) _ hstops, hrest]

theorem entryText_ne_nil {e : String × List Char} {t : List Char} (h : EntryText StringText e t) :
    t ≠ [] := by
  obtain ⟨⟨-⟩⟩ := h
  simp

theorem members_objectText {entries : List (String × List Char)} {t : List Char}
    (h : ObjectText StringText entries t) {state state' : σ}
    (hrun : TakesAll limit member entries state state') (hlimit : (encode t).length < limit)
    (rest : Bytes) :
    ∃ u, encode t = 0x7B :: u ∧
      members limit member limit true state (u ++ rest) = .ok (state', rest) := by
  cases h with
  | @empty inner hinner =>
    obtain ⟨steps, hsteps⟩ := Nat.exists_eq_add_of_le' (Nat.one_le_of_lt hlimit)
    refine ⟨encode inner ++ [0x7D], by rw [List.cons_append, encode_cons, encode_append]; rfl, ?_⟩
    cases hrun
    rw [List.append_assoc, List.singleton_append, hsteps, members, nextMember_closing true hinner]
    rfl
  | @parts _ ts h =>
    refine ⟨encode ts ++ [0x7D], by rw [List.cons_append, encode_cons, encode_append]; rfl, ?_⟩
    have hlength : entries.length ≤ ts.length := h.length_le fun _ _ => entryText_ne_nil
    have hbytes := length_le_encode ts
    rw [List.cons_append, ← List.singleton_append, encode_append, encode_append, List.length_append,
      List.length_append] at hlimit
    rw [List.append_assoc, List.singleton_append]
    exact h.members hrun (by omega) .first (by omega) rest

/-! ## Records -/

/-- What a draft holds in the place of a part once the members in `seen` have been read: its value
or still a blank. -/
def held (seen : List String) (name : String) (a blank : α) : α := if name ∈ seen then a else blank

theorem held_cons (seen : List String) (other name : String) (a blank : α) :
    held (other :: seen) name a blank = if name = other then a else held seen name a blank := by
  unfold held
  by_cases h : name = other <;> simp [h]

theorem held_eq {seen : List String} {name : String} {a blank : α} (h : name ∉ seen → a = blank) :
    held seen name a blank = a := by
  unfold held
  split
  · rfl
  · next hname => exact (h hname).symm

/-- The member reads the texts of the part. It changes drafts as told by `draft`, which gives the
draft after the members in a list. -/
structure Member.Fits (limit : Nat) (draft : List String → δ) (m : Member δ) (p : Part) : Prop where
  name_eq : m.name = p.name
  reads : ∃ change, Reads limit m.read p.texts change ∧
    ∀ seen, change (draft seen) = draft (p.name :: seen)

inductive FitsAll (limit : Nat) (draft : List String → δ) : List (Member δ) → List Part → Prop
  | nil : FitsAll limit draft [] []
  | cons {m : Member δ} {p : Part} {ms : List (Member δ)} {ps : List Part}
      (h : m.Fits limit draft p) (hs : FitsAll limit draft ms ps) :
      FitsAll limit draft (m :: ms) (p :: ps)

variable {draft : List String → δ} {known : List (Member δ)} {parts : List Part}

theorem FitsAll.storing {β : Type} {name : String} {reader : Reader β} {store : β → δ → δ}
    {p : Part} {ms : List (Member δ)} {ps : List Part} {b : β} (hname : name = p.name)
    (h : Reads limit reader p.texts b)
    (hstore : ∀ seen, store b (draft seen) = draft (p.name :: seen))
    (hs : FitsAll limit draft ms ps) :
    FitsAll limit draft (.storing name reader store :: ms) (p :: ps) := by
  refine .cons ⟨hname, store b, ?_, hstore⟩ hs
  intro gap t hgap ht hlimit rest
  simp only [Member.storing, h hgap ht hlimit rest, bind, Except.bind]

theorem FitsAll.find? (h : FitsAll limit draft known parts) (name : String) :
    (∃ m p, known.find? (·.name = name) = some m ∧ p ∈ parts ∧ p.name = name ∧
      m.Fits limit draft p) ∨
      (known.find? (·.name = name) = none ∧ ∀ p ∈ parts, p.name ≠ name) := by
  induction h with
  | nil => exact .inr ⟨rfl, by simp⟩
  | @cons m p ms ps hfit _ ih =>
    by_cases hname : p.name = name
    · exact .inl ⟨m, p, by simp [hfit.name_eq, hname], List.mem_cons_self, hname, hfit⟩
    · rw [List.find?_cons_of_neg (by simpa [hfit.name_eq] using hname)]
      rcases ih with ⟨m', p', hfind, hmem, hname', hfit'⟩ | ⟨hfind, hnone⟩
      · exact .inl ⟨m', p', hfind, List.mem_cons_of_mem _ hmem, hname', hfit'⟩
      · exact .inr ⟨hfind, List.forall_mem_cons.2 ⟨hname, hnone⟩⟩

theorem colon_gap {gap : List Char} (hgap : Gap gap) (s : Bytes) :
    colon (encode gap ++ 0x3A :: s) = .ok ((), s) := by
  rw [colon, hgap.skipBlanks]
  rfl

theorem takes_known {m : Member δ} {p : Part} (hfit : m.Fits limit draft p) {e : String × List Char}
    (hfind : known.find? (·.name = e.1) = some m) (hname : p.name = e.1) (htext : p.texts e.2)
    {seen : List String} (hseen : e.1 ∉ seen) :
    Takes limit (recordMember limit known) e (seen, draft seen)
      (e.1 :: seen, draft (e.1 :: seen)) := by
  intro before after rest hbefore hafter hrest hlimit
  obtain ⟨change, hread, hchange⟩ := hfit.reads
  have hnew : seen.contains e.1 = false := by simpa using hseen
  rw [recordMember, hfind]
  simp only [hnew, Bool.false_eq_true, if_false, colon_gap hbefore, hread hafter htext hlimit rest,
    bind, Except.bind, hchange, hname]

theorem takes_unknown {e : String × List Char} (hfind : known.find? (·.name = e.1) = none)
    (htext : ValueText e.2) (state : List String × δ) :
    Takes limit (recordMember limit known) e state state := by
  intro before after rest hbefore hafter hrest hlimit
  rw [recordMember, hfind]
  simp only [colon_gap hbefore, htext.skip hafter hlimit hrest, bind, Except.bind]

/-- By induction on the entries: the draft always holds what has been told,
whatever the order is. -/
theorem takesAll_entries (hfits : FitsAll limit draft known parts)
    {entries : List (String × List Char)}
    (htold : ∀ p ∈ parts, ∀ e ∈ entries, e.1 = p.name → p.texts e.2)
    (hothers : ∀ e ∈ entries, (∀ p ∈ parts, p.name ≠ e.1) → ValueText e.2)
    (honce : ∀ p ∈ parts, (entries.map (·.1)).count p.name ≤ 1) {seen : List String}
    (hseen : ∀ p ∈ parts, p.name ∈ seen → p.name ∉ entries.map (·.1)) :
    ∃ seen', (∀ p ∈ parts, p.name ∈ seen' ↔ p.name ∈ seen ∨ p.name ∈ entries.map (·.1)) ∧
      TakesAll limit (recordMember limit known) entries (seen, draft seen)
        (seen', draft seen') := by
  induction entries generalizing seen with
  | nil => exact ⟨seen, by simp, .nil⟩
  | cons e entries ih =>
    have htold' : ∀ p ∈ parts, ∀ e ∈ entries, e.1 = p.name → p.texts e.2 :=
      fun p hp e he => htold p hp e (List.mem_cons_of_mem _ he)
    have hothers' : ∀ e ∈ entries, (∀ p ∈ parts, p.name ≠ e.1) → ValueText e.2 :=
      fun e he => hothers e (List.mem_cons_of_mem _ he)
    have honce' : ∀ p ∈ parts, (entries.map (·.1)).count p.name ≤ 1 := by
      intro p hp
      exact Nat.le_trans List.count_le_count_cons (honce p hp)
    rw [List.map_cons] at hseen honce
    rcases hfits.find? e.1 with ⟨m, p, hfind, hp, hname, hfit⟩ | ⟨hfind, hnone⟩
    · -- an entry for a part: it is the first one for it, and no later one is for it again
      have hnew : e.1 ∉ seen := fun h => hseen p hp (hname ▸ h) (hname ▸ List.mem_cons_self)
      have hlater : ∀ q ∈ parts, q.name ∈ e.1 :: seen → q.name ∉ entries.map (·.1) := by
        intro q hq hmem hagain
        rcases List.mem_cons.1 hmem with hq' | hmem
        · have htwice := honce q hq
          rw [hq', List.count_cons_self, ← hq'] at htwice
          have := List.count_pos_iff.2 hagain
          omega
        · exact hseen q hq hmem (List.mem_cons_of_mem _ hagain)
      obtain ⟨seen', hseen', hrun⟩ := ih htold' hothers' honce' hlater
      refine ⟨seen', ?_,
        .cons (takes_known hfit hfind hname (htold p hp e List.mem_cons_self hname.symm) hnew) hrun⟩
      intro q hq
      rw [hseen' q hq, List.map_cons, List.mem_cons, List.mem_cons, or_assoc, or_left_comm]
    · -- an entry that nobody asked for leaves the state as it is
      have hlater : ∀ q ∈ parts, q.name ∈ seen → q.name ∉ entries.map (·.1) :=
        fun q hq hmem hagain => hseen q hq hmem (List.mem_cons_of_mem _ hagain)
      obtain ⟨seen', hseen', hrun⟩ := ih htold' hothers' honce' hlater
      refine ⟨seen', ?_, .cons (takes_unknown hfind (hothers e List.mem_cons_self hnone) _) hrun⟩
      intro q hq
      rw [hseen' q hq, List.map_cons, List.mem_cons,
        or_iff_right_of_imp fun h => absurd h (hnone q hq)]

/-- A record is read from each object that tells its parts if its members fit them, and if a draft
is complete once it holds all parts but some that may be left out. -/
theorem reads_record {shape : Shape δ α} {a : α} (name : String)
    (hfits : FitsAll limit draft shape.members parts) (hblank : shape.blank = draft [])
    (hcomplete : ∀ seen, (∀ p ∈ parts, p.name ∉ seen → p.mayOmit) →
        shape.complete (draft seen) = .ok a) :
    Reads limit (record limit name (some shape)) (RecordText parts) a := by
  intro gap t hgap ht hlimit rest
  obtain @⟨entries, t, htells, ht⟩ := ht
  have hfirst : ∀ p ∈ parts, p.name ∈ [] → p.name ∉ entries.map (·.1) := by simp
  obtain ⟨seen, hseen, hrun⟩ := takesAll_entries hfits htells.told htells.others htells.once hfirst
  obtain ⟨u, hu, hmembers⟩ := members_objectText ht hrun hlimit rest
  have hwhole : shape.complete (draft seen) = .ok a := by
    apply hcomplete
    intro p hp habsent
    apply htells.omitted p hp
    rw [hseen p hp, not_or] at habsent
    exact habsent.2
  rw [record, hgap.skipBlanks, hu, List.cons_append, skipBlanks_cons rfl]
  simp only [recordAsObject, hblank, hmembers, hwhole, bind, Except.bind]
  rfl

end SchemaWalk.Json
