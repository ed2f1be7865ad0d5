import Fanout.Proofs.Sections

/-! # What is reported of a document

A document is looked at in one fixed order, and `FirstFault` says where that stops without the scans
that look. Each of its cases holds everything in front of the fault to be sound, so a document has
at most one first fault, and none exactly if it is valid. A section that is removed leaves behind
what mentions it. Nothing else can then be wrong with a document that was valid.
-/

namespace Fanout

namespace Document

variable {d : Document} {name : String} {fault : Fault}

theorem firstDangling?_eq_none_iff :
    d.firstDangling? = none ↔
      (∀ g ∈ d.groups, ∀ name ∈ g.members, name ∈ d.names) ∧
        ∀ b ∈ d.bindings, b.name ∈ d.names := by
  simp [firstDangling?, List.findSome?_eq_none_iff]

theorem validate_eq_ok_iff : d.validate = .ok () ↔ d.Valid := by
  have sound : ((Names.firstRepeated? [] d.names).map Fault.duplicateName <|> d.firstDangling?) =
      none ↔ d.Valid := by
    simp [firstDangling?_eq_none_iff, Names.firstRepeated?_eq_none_iff, Valid]
  rw [← sound, validate]
  cases (Names.firstRepeated? [] d.names).map Fault.duplicateName <|> d.firstDangling? <;> simp

/-- A name that a group or a binding of a document mentions. -/
def Mentions (d : Document) (name : String) : Prop :=
  (∃ g ∈ d.groups, name ∈ g.members) ∨ ∃ b ∈ d.bindings, b.name = name

/-- What is wrong with a document in the first place. Section names come before what refers to them,
groups come before bindings, and everything is looked at in order. -/
inductive FirstFault (d : Document) : Fault → Prop where
  | repeatedName {before after : List String} {name : String}
      (split : d.names = before ++ name :: after) (distinct : before.Nodup)
      (seen : name ∈ before) : FirstFault d (.duplicateName name)
  | danglingMember {groups later : List Group} {g : Group} {before after : List String}
      {name : String} (distinct : d.names.Nodup) (split : d.groups = groups ++ g :: later)
      (sound : ∀ earlier ∈ groups, ∀ x ∈ earlier.members, x ∈ d.names)
      (inside : g.members = before ++ name :: after) (sound_before : ∀ x ∈ before, x ∈ d.names)
      (missing : name ∉ d.names) : FirstFault d (.unknownName ("group " ++ g.semantics) name)
  | danglingBinding {bindings later : List Binding} {b : Binding} (distinct : d.names.Nodup)
      (grouped : ∀ g ∈ d.groups, ∀ x ∈ g.members, x ∈ d.names)
      (split : d.bindings = bindings ++ b :: later)
      (sound : ∀ earlier ∈ bindings, earlier.name ∈ d.names) (missing : b.name ∉ d.names) :
      FirstFault d (.unknownName "transport info" b.name)

theorem findSome?_member_eq_some_iff :
    (d.groups.findSome? fun g =>
      (g.members.find? (· ∉ d.names)).map (Fault.unknownName ("group " ++ g.semantics))) =
        some fault ↔
      ∃ groups g later before name after, d.groups = groups ++ g :: later ∧
        (∀ earlier ∈ groups, ∀ x ∈ earlier.members, x ∈ d.names) ∧
        g.members = before ++ name :: after ∧ (∀ x ∈ before, x ∈ d.names) ∧ name ∉ d.names ∧
        fault = .unknownName ("group " ++ g.semantics) name := by
  simp only [List.findSome?_eq_some_iff, Option.map_eq_some_iff, List.find?_eq_some_iff_append,
    Option.map_eq_none_iff, List.find?_eq_none, decide_eq_true_eq, Bool.not_eq_true',
    decide_eq_false_iff_not, not_not]
  constructor
  · rintro ⟨groups, g, later, split, ⟨name, ⟨missing, before, after, inside, known⟩, rfl⟩, sound⟩
    exact ⟨groups, g, later, before, name, after, split, sound, inside, known, missing, rfl⟩
  · rintro ⟨groups, g, later, before, name, after, split, sound, inside, known, missing, rfl⟩
    exact ⟨groups, g, later, split, ⟨name, ⟨missing, before, after, inside, known⟩, rfl⟩, sound⟩

theorem find?_binding_eq_some_iff :
    ((d.bindings.find? (·.name ∉ d.names)).map fun b =>
      Fault.unknownName "transport info" b.name) = some fault ↔
      ∃ bindings b later, d.bindings = bindings ++ b :: later ∧
        (∀ earlier ∈ bindings, earlier.name ∈ d.names) ∧ b.name ∉ d.names ∧
        fault = .unknownName "transport info" b.name := by
  simp only [Option.map_eq_some_iff, List.find?_eq_some_iff_append, decide_eq_true_eq,
    Bool.not_eq_true', decide_eq_false_iff_not, not_not]
  constructor
  · rintro ⟨b, ⟨missing, bindings, later, split, sound⟩, rfl⟩
    exact ⟨bindings, b, later, split, sound, missing, rfl⟩
  · rintro ⟨bindings, b, later, split, sound, missing, rfl⟩
    exact ⟨b, ⟨missing, bindings, later, split, sound⟩, rfl⟩

theorem firstRepeated?_nil_eq_none_iff :
    Names.firstRepeated? [] d.names = none ↔ d.names.Nodup := by
  simp [Names.firstRepeated?_eq_none_iff]

theorem validate_eq_error_iff : d.validate = .error fault ↔ d.FirstFault fault := by
  have reported : d.validate = .error fault ↔
      ((Names.firstRepeated? [] d.names).map Fault.duplicateName <|> d.firstDangling?) =
        some fault := by
    rw [validate]
    cases (Names.firstRepeated? [] d.names).map Fault.duplicateName <|> d.firstDangling? <;> simp
  simp only [reported, firstDangling?, Option.orElse_eq_orElse, Option.orElse_eq_or,
    Option.or_eq_some_iff, Option.map_eq_none_iff, firstRepeated?_nil_eq_none_iff,
    findSome?_member_eq_some_iff, find?_binding_eq_some_iff]
  constructor
  · rintro (repeated | ⟨distinct, member | ⟨grouped, binding⟩⟩)
    · obtain ⟨name, found, rfl⟩ := Option.map_eq_some_iff.mp repeated
      obtain ⟨before, after, split, distinct, -, seen⟩ :=
        Names.firstRepeated?_eq_some_iff.mp found
      exact .repeatedName split distinct (seen.resolve_left List.not_mem_nil)
    · obtain ⟨groups, g, later, before, name, after, split, sound, inside, known, missing, rfl⟩ :=
        member
      exact .danglingMember distinct split sound inside known missing
    · obtain ⟨bindings, b, later, split, sound, missing, rfl⟩ := binding
      have named : ∀ g ∈ d.groups, ∀ x ∈ g.members, x ∈ d.names := by
        simpa [List.findSome?_eq_none_iff] using grouped
      exact .danglingBinding distinct named split sound missing
  · intro first
    cases first with
    | repeatedName split distinct seen =>
        refine .inl (Option.map_eq_some_iff.mpr ⟨_, ?_, rfl⟩)
        exact Names.firstRepeated?_eq_some_iff.mpr
          ⟨_, _, split, distinct, fun _ _ => List.not_mem_nil, .inr seen⟩
    | danglingMember distinct split sound inside known missing =>
        exact .inr ⟨distinct, .inl ⟨_, _, _, _, _, _, split, sound, inside, known, missing, rfl⟩⟩
    | danglingBinding distinct grouped split sound missing =>
        refine .inr ⟨distinct, .inr ⟨?_, _, _, _, split, sound, missing, rfl⟩⟩
        simpa [List.findSome?_eq_none_iff] using grouped

/-- The document without the first section of a name, or as it is where there is none. -/
def without (d : Document) (name : String) : Document :=
  (d.remove? name).getD d

theorem without_eq (d : Document) (name : String) :
    d.without name = { d with sections := d.sections.eraseP (·.name = name) } := by
  rw [without, remove?]
  split
  · rfl
  · rename_i missing
    have untouched : d.sections.eraseP (·.name = name) = d.sections := by
      refine List.eraseP_of_forall_not fun s member named => missing ?_
      exact List.mem_map.mpr ⟨s, member, by simpa using named⟩
    rw [untouched]
    rfl

theorem without_names (d : Document) (name : String) :
    (d.without name).names = d.names.erase name := by
  rw [without_eq]
  exact Section.eraseP_names d.sections name

@[simp]
theorem without_groups (d : Document) (name : String) : (d.without name).groups = d.groups := by
  rw [without_eq]

@[simp]
theorem without_bindings (d : Document) (name : String) :
    (d.without name).bindings = d.bindings := by
  rw [without_eq]

theorem mem_without_names_iff (distinct : d.names.Nodup) {x : String} :
    x ∈ (d.without name).names ↔ x ∈ d.names ∧ x ≠ name := by
  rw [without_names, distinct.mem_erase_iff, and_comm]

/-- Groups and bindings stay when a section is removed, so it is missed if they mention it. -/
theorem without_valid_iff (valid : d.Valid) :
    (d.without name).Valid ↔ name ∉ d.names ∨ ¬ d.Mentions name := by
  constructor
  · intro valid'
    by_contra both
    rw [not_or, not_not, not_not] at both
    have kept : name ∈ (d.without name).names := by
      rcases both.2 with ⟨g, member, inside⟩ | ⟨b, member, rfl⟩
      · exact valid'.2.1 g (by simpa using member) name inside
      · exact valid'.2.2 b (by simpa using member)
    exact ((mem_without_names_iff valid.1).mp kept).2 rfl
  · intro free
    have kept : ∀ x ∈ d.names, d.Mentions x → x ∈ (d.without name).names := by
      intro x present mentioned
      refine (mem_without_names_iff valid.1).mpr ⟨present, ?_⟩
      rintro rfl
      exact free.elim (· present) (· mentioned)
    refine ⟨?_, ?_, ?_⟩
    · rw [without_names]
      exact valid.1.erase name
    · rw [without_groups]
      exact fun g member x inside => kept x (valid.2.1 g member x inside) (.inl ⟨g, member, inside⟩)
    · rw [without_bindings]
      exact fun b member => kept b.name (valid.2.2 b member) (.inr ⟨b, member, rfl⟩)

/-- Where a valid document is refused once a section is gone, it is the section that is missing. -/
theorem unknownName_of_without (valid : d.Valid)
    (refused : (d.without name).validate = .error fault) :
    ∃ place, fault = .unknownName place name := by
  have only : ∀ x ∈ d.names, x ∉ (d.without name).names → x = name := by
    intro x present missing
    by_contra other
    exact missing ((mem_without_names_iff valid.1).mpr ⟨present, other⟩)
  cases validate_eq_error_iff.mp refused with
  | repeatedName split distinct seen =>
      have whole := valid.1.erase name
      rw [← without_names, split, List.nodup_append] at whole
      exact absurd rfl (whole.2.2 _ seen _ List.mem_cons_self)
  | @danglingMember groups later g before after x _ split _ inside _ missing =>
      have member : g ∈ d.groups := by
        rw [← without_groups d name, split]
        exact List.mem_append_right _ List.mem_cons_self
      have present := valid.2.1 g member x (by simp [inside])
      exact ⟨_, by rw [only x present missing]⟩
  | @danglingBinding bindings later b _ _ split _ missing =>
      have member : b ∈ d.bindings := by
        rw [← without_bindings d name, split]
        exact List.mem_append_right _ List.mem_cons_self
      exact ⟨_, by rw [only b.name (valid.2.2 b member) missing]⟩

/-- All that can be reported of a document. It is accepted exactly if it is valid, and otherwise
refused for its first fault. Removing a section from a valid document is noticed exactly if a group
or a binding mentions it, and then it is the name of that section that is reported. -/
theorem validate_outcome (d : Document) :
    (d.validate = .ok () ↔ d.names.Nodup ∧
      (∀ g ∈ d.groups, ∀ name ∈ g.members, name ∈ d.names) ∧
      ∀ b ∈ d.bindings, b.name ∈ d.names) ∧
    (∀ fault, d.validate = .error fault ↔ d.FirstFault fault) ∧
    (d.validate = .ok () → ∀ name,
      (name ∉ d.names ∨ ¬ d.Mentions name → (d.without name).validate = .ok ()) ∧
      (name ∈ d.names → d.Mentions name →
        ∃ place, (d.without name).validate = .error (.unknownName place name))) := by
  refine ⟨validate_eq_ok_iff, fun _ => validate_eq_error_iff, fun accepted name => ⟨?_, ?_⟩⟩
  · intro free
    rw [validate_eq_ok_iff] at accepted ⊢
    exact (without_valid_iff accepted).mpr free
  · intro present mentioned
    have valid := validate_eq_ok_iff.mp accepted
    cases outcome : (d.without name).validate with
    | ok =>
        have valid' := (without_valid_iff valid).mp (validate_eq_ok_iff.mp outcome)
        exact absurd valid' (by simp [present, mentioned])
    | error fault =>
        obtain ⟨place, rfl⟩ := unknownName_of_without valid outcome
        exact ⟨place, rfl⟩

end Document

end Fanout
