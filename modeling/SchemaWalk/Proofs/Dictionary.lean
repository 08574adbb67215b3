import SchemaWalk.Dictionary

/-! # What is found in a dictionary: of each key the last entry that was written -/
namespace SchemaWalk.Dictionary

variable {α : Type}

theorem ofList_append_singleton (entries : List (String × α)) (e : String × α) :
    ofList (entries ++ [e]) = (ofList entries).insert e.1 e.2 := by
  rw [ofList, List.foldl_append]
  rfl

/-- By induction from the last entry, which is the one that is found. -/
theorem find?_ofList (entries : List (String × α)) (key : String) :
    (ofList entries).find? key = entries.reverse.lookup key := by
  rw [← List.reverse_reverse entries]
  generalize entries.reverse = later
  induction later with
  | nil => rfl
  | cons e later ih =>
    rw [List.reverse_reverse] at ih ⊢
    rw [List.reverse_cons, ofList_append_singleton, find?_insert, ih, lookup_cons]

theorem find?_ofList_eq_some_iff {entries : List (String × α)} {key : String} {value : α} :
    (ofList entries).find? key = some value ↔
      ∃ before later, entries = before ++ (key, value) :: later ∧ ∀ e ∈ later, e.1 ≠ key := by
  rw [find?_ofList, List.lookup_eq_some_iff]
  constructor
  · rintro ⟨later, before, hentries, hlater⟩
    refine ⟨before.reverse, later.reverse, ?_, fun e he => ?_⟩
    · rw [← List.reverse_reverse entries, hentries]
      simp
    · have hne := hlater e (List.mem_reverse.1 he)
      exact fun heq => by simp [heq] at hne
  · rintro ⟨before, later, rfl, hlater⟩
    refine ⟨later.reverse, before.reverse, by simp, fun e he => ?_⟩
    simpa using Ne.symm (hlater e (List.mem_reverse.1 he))

theorem mem_of_find? {d : Dictionary α} {key : String} {value : α} (h : d.find? key = some value) :
    (key, value) ∈ d.entries := by
  obtain ⟨before, later, hentries, -⟩ := List.lookup_eq_some_iff.1 h
  rw [hentries]
  exact List.mem_append_right _ List.mem_cons_self

theorem find?_of_mem {d : Dictionary α} {key : String} {value : α} (h : (key, value) ∈ d.entries) :
    d.find? key = some value := by
  obtain ⟨before, later, hentries⟩ := List.append_of_mem h
  have hascending := d.ascending
  rw [Ascending, hentries, List.pairwise_append] at hascending
  refine List.lookup_eq_some_iff.2 ⟨before, later, hentries, fun e he => ?_⟩
  have hlt : e.1 < key := hascending.2.2 e he (key, value) List.mem_cons_self
  simpa using fun heq : key = e.1 => Std.lt_irrefl (heq ▸ hlt)

theorem nodup_entries (d : Dictionary α) : d.entries.Nodup := by
  apply d.ascending.imp
  rintro x y hlt rfl
  exact Std.lt_irrefl hlt

theorem ext_find? {d e : Dictionary α} (h : ∀ key, d.find? key = e.find? key) : d = e := by
  have hmem : ∀ x, x ∈ d.entries ↔ x ∈ e.entries := by
    rintro ⟨key, value⟩
    exact ⟨fun hx => mem_of_find? (h key ▸ find?_of_mem hx),
      fun hx => mem_of_find? (h key ▸ find?_of_mem hx)⟩
  apply Dictionary.ext
  apply List.Perm.eq_of_pairwise _ d.ascending e.ascending
  · exact (List.perm_ext_iff_of_nodup d.nodup_entries e.nodup_entries).2 hmem
  · exact fun x y _ _ hlt hgt => absurd (Std.lt_trans hlt hgt) Std.lt_irrefl

end SchemaWalk.Dictionary
