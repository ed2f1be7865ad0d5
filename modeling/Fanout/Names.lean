/-! # Repeated names

Sections and rids are told apart by name only, so a name given twice has to be found. Where no name
is given twice, what is looked up under a name is what stands with it, in whatever order.
-/

namespace Fanout.Names

/-- The first name that was seen before or comes a second time. -/
def firstRepeated? (seen : List String) : List String → Option String
  | [] => none
  | name :: rest => if name ∈ seen then some name else firstRepeated? (name :: seen) rest

theorem firstRepeated?_congr {seen seen' names : List String}
    (same : ∀ name, name ∈ seen ↔ name ∈ seen') :
    firstRepeated? seen names = firstRepeated? seen' names := by
  induction names generalizing seen seen' with
  | nil => rfl
  | cons name rest ih =>
    have next : ∀ x, x ∈ name :: seen ↔ x ∈ name :: seen' := by
      intro x
      simp only [List.mem_cons, same x]
    simp only [firstRepeated?, same name, ih next]

theorem firstRepeated?_eq_none_iff {seen names : List String} :
    firstRepeated? seen names = none ↔ names.Nodup ∧ ∀ name ∈ names, name ∉ seen := by
  induction names generalizing seen with
  | nil => simp [firstRepeated?]
  | cons name rest ih =>
    simp only [firstRepeated?]
    split
    · simp_all
    · rw [ih]
      grind

theorem firstRepeated?_eq_some_iff {seen names : List String} {name : String} :
    firstRepeated? seen names = some name ↔
      ∃ before after, names = before ++ name :: after ∧ before.Nodup ∧
        (∀ x ∈ before, x ∉ seen) ∧ (name ∈ seen ∨ name ∈ before) := by
  induction names generalizing seen with
  | nil => simp [firstRepeated?]
  | cons first rest ih =>
    simp only [firstRepeated?]
    split
    · rename_i known
      constructor
      · intro same
        obtain rfl : first = name := by simpa using same
        exact ⟨[], rest, rfl, .nil, by simp, .inl known⟩
      · rintro ⟨before, after, split, -, fresh, -⟩
        cases before with
        | nil => simpa using (List.cons.inj split).1
        | cons x before =>
          obtain ⟨rfl, -⟩ := List.cons.inj split
          exact absurd known (fresh first List.mem_cons_self)
    · rename_i unknown
      rw [ih]
      constructor
      · rintro ⟨before, after, rfl, distinct, fresh, repeated⟩
        refine ⟨first :: before, after, rfl, ?_, ?_, ?_⟩ <;> grind
      · rintro ⟨before, after, split, distinct, fresh, repeated⟩
        cases before with
        | nil => grind
        | cons x before =>
          obtain ⟨rfl, rfl⟩ := List.cons.inj split
          exact ⟨before, after, rfl, by grind, by grind, by grind⟩

variable {α : Type} {entries found : List (String × α)} {name : String} {value : α}

theorem lookup_eq_none_of_not_mem (unnamed : name ∉ entries.map Prod.fst) :
    entries.lookup name = none := by
  rw [List.lookup_eq_none_iff]
  intro entry member
  have different : name ≠ entry.1 := fun same => unnamed (same ▸ List.mem_map_of_mem member)
  simpa using different

theorem lookup_eq_some_iff_mem (distinct : (entries.map Prod.fst).Nodup) :
    entries.lookup name = some value ↔ (name, value) ∈ entries := by
  induction entries with
  | nil => simp
  | cons entry rest ih =>
      rw [List.map_cons, List.nodup_cons] at distinct
      rw [List.lookup_cons, List.mem_cons, ← ih distinct.2]
      by_cases same : name = entry.1
      · subst same
        have unnamed := lookup_eq_none_of_not_mem distinct.1
        simp [unnamed, Prod.ext_iff, eq_comm]
      · simp [beq_false_of_ne same, same, Prod.ext_iff]

theorem lookup_perm (distinct : (entries.map Prod.fst).Nodup) (perm : found.Perm entries) :
    found.lookup name = entries.lookup name := by
  have distinct' : (found.map Prod.fst).Nodup := (perm.map Prod.fst).nodup_iff.mpr distinct
  ext value
  rw [lookup_eq_some_iff_mem distinct', lookup_eq_some_iff_mem distinct, perm.mem_iff]

end Fanout.Names
