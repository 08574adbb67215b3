/-! # Dictionaries: values under text keys, in ascending order of the keys -/
namespace SchemaWalk

variable {α β : Type}

/-- The entries with `value` stored under `key`, in place of what stood there before. -/
def insertEntry (key : String) (value : α) : List (String × α) → List (String × α)
  | [] => [(key, value)]
  | (k, v) :: rest =>
    if key < k then (key, value) :: (k, v) :: rest
    else if key = k then (key, value) :: rest
    else (k, v) :: insertEntry key value rest

/-- Strictly ascending keys, by code point and so also by UTF-8 byte. -/
def Ascending (entries : List (String × α)) : Prop := entries.Pairwise (·.1 < ·.1)

theorem mem_insertEntry {key : String} {value : α} {e : String × α} {entries : List (String × α)}
    (h : e ∈ insertEntry key value entries) : e = (key, value) ∨ e ∈ entries := by
  induction entries with
  | nil => simpa [insertEntry] using h
  | cons kv rest ih =>
    simp only [insertEntry] at h
    split at h
    · simpa using h
    · split at h
      · rcases List.mem_cons.1 h with h | h
        · exact .inl h
        · exact .inr (List.mem_cons_of_mem _ h)
      · rcases List.mem_cons.1 h with h | h
        · exact .inr (by simp [h])
        · exact (ih h).imp_right (List.mem_cons_of_mem _)

theorem key_lt_of_not_lt {a b : String} (h : ¬a < b) (h' : a ≠ b) : b < a := by
  rcases Std.le_total (a := a) (b := b) with hab | hab
  · exact absurd (Std.le_antisymm hab (Std.not_lt.1 h)) h'
  · exact Std.not_le.1 fun hba => h' (Std.le_antisymm hba hab)

theorem Ascending.insertEntry {key : String} {value : α} {entries : List (String × α)}
    (h : Ascending entries) : Ascending (insertEntry key value entries) := by
  induction entries with
  | nil => simp [SchemaWalk.insertEntry, Ascending]
  | cons kv rest ih =>
    obtain ⟨hkv, hrest⟩ := List.pairwise_cons.1 h
    simp only [SchemaWalk.insertEntry]
    split
    · next lt =>
      refine List.pairwise_cons.2 ⟨fun e he => ?_, h⟩
      rcases List.mem_cons.1 he with rfl | he
      · exact lt
      · exact Std.lt_trans lt (hkv e he)
    · next nlt =>
      split
      · next eq => subst eq; exact List.pairwise_cons.2 ⟨hkv, hrest⟩
      · next ne =>
        refine List.pairwise_cons.2 ⟨fun e he => ?_, ih hrest⟩
        rcases mem_insertEntry he with rfl | he
        · exact key_lt_of_not_lt nlt ne
        · exact hkv e he

/-- A dictionary keeps its entries ascending, so equal contents are equal dictionaries. -/
@[ext] structure Dictionary (α : Type) where
  entries : List (String × α)
  ascending : Ascending entries

namespace Dictionary

def empty : Dictionary α := ⟨[], .nil⟩

def insert (d : Dictionary α) (key : String) (value : α) : Dictionary α :=
  ⟨insertEntry key value d.entries, d.ascending.insertEntry⟩

/-- Of two entries with one key the later one stays. -/
def ofList (entries : List (String × α)) : Dictionary α :=
  entries.foldl (fun d e => d.insert e.1 e.2) empty

def find? (d : Dictionary α) (key : String) : Option α := d.entries.lookup key

def size (d : Dictionary α) : Nat := d.entries.length

def isEmpty (d : Dictionary α) : Bool := d.entries.isEmpty

instance : Inhabited (Dictionary α) := ⟨empty⟩

instance [DecidableEq α] : DecidableEq (Dictionary α) := fun d e =>
  decidable_of_iff (d.entries = e.entries) Dictionary.ext_iff.symm

instance [BEq α] : BEq (Dictionary α) := ⟨fun d e => d.entries == e.entries⟩

theorem lookup_cons (k : String) (e : String × α) (entries : List (String × α)) :
    (e :: entries).lookup k = if k = e.1 then some e.2 else entries.lookup k := by
  rw [List.lookup_cons]
  by_cases h : k = e.1
  · simp [h]
  · have : (k == e.1) = false := by simpa using h
    simp [h, this]

theorem lookup_insertEntry (key k : String) (value : α) (entries : List (String × α)) :
    (insertEntry key value entries).lookup k =
      if k = key then some value else entries.lookup k := by
  induction entries with
  | nil => simp [insertEntry, lookup_cons, List.lookup_nil]
  | cons kv rest ih =>
    simp only [insertEntry]
    split
    · simp [lookup_cons]
    · split
      · next h => subst h; by_cases hk : k = kv.1 <;> simp [lookup_cons, hk]
      · next h =>
        simp only [lookup_cons, ih]
        by_cases hk : k = key
        · simp [hk, h]
        · simp [hk]

theorem find?_insert (d : Dictionary α) (key k : String) (value : α) :
    (d.insert key value).find? k = if k = key then some value else d.find? k :=
  lookup_insertEntry key k value d.entries

theorem insertEntry_of_lt {key : String} {value : α} {entries : List (String × α)}
    (h : ∀ e ∈ entries, e.1 < key) : insertEntry key value entries = entries ++ [(key, value)] := by
  induction entries with
  | nil => rfl
  | cons e entries ih =>
    have he : e.1 < key := h e (by simp)
    have hnot : ¬key < e.1 := fun hlt => Std.lt_irrefl (Std.lt_trans he hlt)
    have hne : key ≠ e.1 := fun heq => Std.lt_irrefl (heq ▸ he)
    rw [insertEntry, if_neg hnot, if_neg hne, ih fun e he => h e (List.mem_cons_of_mem _ he)]
    rfl

theorem ofList_entries (d : Dictionary α) : ofList d.entries = d := by
  have hfold : ∀ (entries : List (String × α)) (e : Dictionary α),
      Ascending (e.entries ++ entries) →
        (entries.foldl (fun d e => d.insert e.1 e.2) e).entries = e.entries ++ entries := by
    intro entries
    induction entries with
    | nil => simp
    | cons x entries ih =>
      intro e he
      have hlast : (e.insert x.1 x.2).entries = e.entries ++ [x] :=
        insertEntry_of_lt fun y hy => (List.pairwise_append.1 he).2.2 y hy x (by simp)
      rw [List.foldl_cons, ih _ (by rw [hlast]; simpa using he), hlast]
      simp
  exact Dictionary.ext
    (by simpa [ofList, empty] using hfold d.entries empty (by simpa [empty] using d.ascending))

end Dictionary

end SchemaWalk
