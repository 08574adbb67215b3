/-! # What may fail, and mapping it over a list: the first failure decides -/
namespace SchemaWalk

variable {α β ε : Type}

theorem exists_ok_iff {x : Except ε α} : (∃ a, x = .ok a) ↔ ∀ e, x ≠ .error e := by
  cases x <;> simp

theorem map_eq_error_iff {f : α → β} {x : Except ε α} {e : ε} :
    x.map f = .error e ↔ x = .error e := by
  cases x <;> simp [Except.map]

theorem except_eq_iff {x : Except ε α} {P : α → Prop} {Q : ε → Prop} (hok : ∀ a, P a → x = .ok a)
    (herror : ∀ e, Q e → x = .error e) (hcases : (∃ a, P a) ∨ ∃ e, Q e) :
    (∀ a, x = .ok a ↔ P a) ∧ ∀ e, x = .error e ↔ Q e := by
  rcases hcases with ⟨a, ha⟩ | ⟨e, he⟩
  · have hx := hok a ha
    refine ⟨fun b => ⟨fun h => ?_, hok b⟩, fun e => ⟨fun h => ?_, herror e⟩⟩
    · rw [hx] at h
      exact Except.ok.inj h ▸ ha
    · rw [hx] at h
      cases h
  · have hx := herror e he
    refine ⟨fun b => ⟨fun h => ?_, hok b⟩, fun e' => ⟨fun h => ?_, herror e'⟩⟩
    · rw [hx] at h
      cases h
    · rw [hx] at h
      exact Except.error.inj h ▸ he

theorem mapM_cons_of_eq_ok {f : α → Except ε β} {x : α} {l : List α} {y : β} {ys : List β}
    (hx : f x = .ok y) (hl : l.mapM f = .ok ys) : (x :: l).mapM f = .ok (y :: ys) := by
  rw [List.mapM_cons, hx, hl]
  rfl

theorem mapM_eq_ok {f : α → Except ε β} {g : α → β} {l : List α} (h : ∀ x ∈ l, f x = .ok (g x)) :
    l.mapM f = .ok (l.map g) := by
  induction l with
  | nil => rfl
  | cons x l ih =>
    have hx := h x (by simp)
    have hl := ih fun y hy => h y (List.mem_cons_of_mem _ hy)
    exact mapM_cons_of_eq_ok hx hl

theorem mapM_eq_error {f : α → Except ε β} {l : List α} {x : α} (hx : x ∈ l)
    (h : ∃ e, f x = .error e) : ∃ e, l.mapM f = .error e := by
  induction l with
  | nil => cases hx
  | cons y l ih =>
    rw [List.mapM_cons]
    cases hy : f y with
    | error e => exact ⟨e, rfl⟩
    | ok b =>
      rcases List.mem_cons.1 hx with rfl | hx
      · obtain ⟨e, he⟩ := h
        rw [he] at hy
        cases hy
      · obtain ⟨e, he⟩ := ih hx
        exact ⟨e, by rw [he]; rfl⟩

theorem exists_ok_of_mapM {f : α → Except ε β} {l : List α} {r : List β} (h : l.mapM f = .ok r)
    {x : α} (hx : x ∈ l) : ∃ y, f x = .ok y := by
  refine exists_ok_iff.2 fun e hf => ?_
  obtain ⟨e', he⟩ := mapM_eq_error hx ⟨e, hf⟩
  rw [he] at h
  cases h

theorem exists_mem_of_mapM {f : α → Except ε β} {l : List α} {r : List β} (h : l.mapM f = .ok r)
    {y : β} (hy : y ∈ r) : ∃ x ∈ l, f x = .ok y := by
  induction l generalizing r with
  | nil => cases h; cases hy
  | cons x l ih =>
    obtain ⟨z, hz⟩ := exists_ok_of_mapM h List.mem_cons_self
    rw [List.mapM_cons, hz] at h
    cases hl : l.mapM f with
    | error e => rw [hl] at h; cases h
    | ok r =>
      rw [hl] at h
      cases h
      rcases List.mem_cons.1 hy with rfl | hy
      · exact ⟨x, List.mem_cons_self, hz⟩
      · obtain ⟨x', hx', hf⟩ := ih hl hy
        exact ⟨x', List.mem_cons_of_mem _ hx', hf⟩

theorem mapM_cons_eq_ok {f : α → Except ε β} {x : α} {l : List α} {r : List β}
    (h : (x :: l).mapM f = .ok r) : ∃ y ys, f x = .ok y ∧ l.mapM f = .ok ys ∧ r = y :: ys := by
  rw [List.mapM_cons] at h
  cases hx : f x with
  | error e => rw [hx] at h; cases h
  | ok y =>
    cases hl : l.mapM f with
    | error e => rw [hx, hl] at h; cases h
    | ok ys =>
      rw [hx, hl] at h
      exact ⟨y, ys, rfl, rfl, (Except.ok.inj h).symm⟩

theorem exists_mapM_eq_ok {f : α → Except ε β} {l : List α} (h : ∀ x ∈ l, ∃ y, f x = .ok y) :
    ∃ r, l.mapM f = .ok r := by
  induction l with
  | nil => exact ⟨[], rfl⟩
  | cons x l ih =>
    rw [List.forall_mem_cons] at h
    obtain ⟨y, hy⟩ := h.1
    obtain ⟨ys, hys⟩ := ih h.2
    exact ⟨y :: ys, mapM_cons_of_eq_ok hy hys⟩

theorem mapM_eq_first_error {f : α → Except ε β} {before later : List α} {x : α} {e : ε}
    (hbefore : ∀ y ∈ before, ∃ b, f y = .ok b) (hx : f x = .error e) :
    (before ++ x :: later).mapM f = .error e := by
  induction before with
  | nil => rw [List.nil_append, List.mapM_cons, hx]; rfl
  | cons y before ih =>
    rw [List.forall_mem_cons] at hbefore
    obtain ⟨b, hb⟩ := hbefore.1
    rw [List.cons_append, List.mapM_cons, hb, ih hbefore.2]
    rfl

theorem exists_first_error {f : α → Except ε β} {l : List α} (h : ∃ x ∈ l, ∃ e, f x = .error e) :
    ∃ before x later e, l = before ++ x :: later ∧ (∀ y ∈ before, ∃ b, f y = .ok b) ∧
      f x = .error e := by
  induction l with
  | nil => simp at h
  | cons y l ih =>
    cases hy : f y with
    | error e => exact ⟨[], y, l, e, rfl, by simp, hy⟩
    | ok b =>
      obtain ⟨x, hx, e, he⟩ := h
      have hrest : x ∈ l :=
        (List.mem_cons.1 hx).resolve_left fun heq => by rw [heq, hy] at he; cases he
      obtain ⟨before, x, later, e, rfl, hbefore, he⟩ := ih ⟨x, hrest, e, he⟩
      exact ⟨y :: before, x, later, e, rfl, List.forall_mem_cons.2 ⟨⟨b, hy⟩, hbefore⟩, he⟩

theorem mapM_eq_error_iff {f : α → Except ε β} {l : List α} {e : ε} :
    l.mapM f = .error e ↔
      ∃ before x later, l = before ++ x :: later ∧ (∀ y ∈ before, ∃ b, f y = .ok b) ∧
        f x = .error e := by
  constructor
  · intro h
    have hrefused : ∃ x ∈ l, ∃ e, f x = .error e := by
      refine Classical.byContradiction fun hnone => ?_
      obtain ⟨r, hr⟩ :=
        exists_mapM_eq_ok fun x hx => exists_ok_iff.2 fun e he => hnone ⟨x, hx, e, he⟩
      rw [hr] at h
      cases h
    obtain ⟨before, x, later, e', rfl, hbefore, hx⟩ := exists_first_error hrefused
    rw [mapM_eq_first_error hbefore hx] at h
    cases h
    exact ⟨before, x, later, rfl, hbefore, hx⟩
  · rintro ⟨before, x, later, rfl, hbefore, hx⟩
    exact mapM_eq_first_error hbefore hx

end SchemaWalk
