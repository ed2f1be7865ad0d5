import Fanout.Session.Document
import Mathlib.Data.List.Nodup
import Mathlib.Data.List.Perm.Basic

/-! # One bundle

Bundling enters the names of all sections into a new group one by one, removes the first bundle
group for as long as one is found, and puts the new group last. Section names may repeat, and there
may be any number of bundle groups. A name that is entered again changes nothing, so the members
come in the order in which the names first occur (`Names.FirstOccurrences`). A removal takes one
bundle group away and leaves everything else, so there are as many removals as there are bundle
groups (`Document.clearsTo_iff`).
-/

namespace Fanout

namespace Names

/-- Each of the names once, in the order in which they first occur. -/
structure FirstOccurrences (names members : List String) : Prop where
  mem_iff : ∀ name, name ∈ members ↔ name ∈ names
  ordered : members.Pairwise (names.idxOf · < names.idxOf ·)

namespace FirstOccurrences

variable {names members members' : List String} {name : String}

theorem nil : FirstOccurrences [] [] :=
  ⟨fun _ => Iff.rfl, .nil⟩

theorem nodup (first : FirstOccurrences names members) : members.Nodup := by
  refine first.ordered.imp ?_
  rintro x _ before rfl
  exact Nat.lt_irrefl _ before

theorem of_nodup (distinct : names.Nodup) : FirstOccurrences names names := by
  refine ⟨fun _ => Iff.rfl, List.pairwise_iff_getElem.mpr ?_⟩
  intro i j hi hj before
  rwa [distinct.idxOf_getElem i hi, distinct.idxOf_getElem j hj]

theorem unique (first : FirstOccurrences names members)
    (first' : FirstOccurrences names members') : members = members' := by
  have same : ∀ name, name ∈ members ↔ name ∈ members' := by
    intro name
    rw [first.mem_iff, first'.mem_iff]
  have perm := (List.perm_ext_iff_of_nodup first.nodup first'.nodup).mpr same
  refine perm.eq_of_pairwise ?_ first.ordered first'.ordered
  intro x y _ _ before after
  exact absurd after (Nat.lt_asymm before)

theorem ordered_append (first : FirstOccurrences names members) (later : List String) :
    members.Pairwise ((names ++ later).idxOf · < (names ++ later).idxOf ·) := by
  refine first.ordered.imp_of_mem ?_
  intro x y hx hy before
  rwa [List.idxOf_append_of_mem ((first.mem_iff x).mp hx),
    List.idxOf_append_of_mem ((first.mem_iff y).mp hy)]

theorem again (first : FirstOccurrences names members) (seen : name ∈ members) :
    FirstOccurrences (names ++ [name]) members := by
  refine ⟨fun x => ?_, first.ordered_append [name]⟩
  rw [List.mem_append, List.mem_singleton, ← first.mem_iff]
  constructor
  · exact .inl
  · rintro (member | rfl)
    · exact member
    · exact seen

theorem push (first : FirstOccurrences names members) (fresh : name ∉ members) :
    FirstOccurrences (names ++ [name]) (members ++ [name]) := by
  refine ⟨fun x => by simp [first.mem_iff], ?_⟩
  rw [List.pairwise_append]
  refine ⟨first.ordered_append [name], List.pairwise_singleton _ _, ?_⟩
  intro x hx y hy
  obtain rfl := List.mem_singleton.mp hy
  have present := (first.mem_iff x).mp hx
  have absent : y ∉ names := fun member => fresh ((first.mem_iff y).mpr member)
  rw [List.idxOf_append_of_mem present, List.idxOf_append_of_notMem absent]
  exact Nat.lt_add_right _ (List.idxOf_lt_length_of_mem present)

end FirstOccurrences

end Names

namespace Group

open Names (FirstOccurrences)

variable {g : Group} {names members : List String}

@[simp]
theorem add_semantics (g : Group) (name : String) : (g.add name).semantics = g.semantics := by
  rw [add]
  split <;> rfl

theorem add_firstOccurrences (first : FirstOccurrences names g.members) (name : String) :
    FirstOccurrences (names ++ [name]) (g.add name).members := by
  rw [add]
  split
  · rename_i seen
    exact first.again seen
  · rename_i fresh
    exact first.push fresh

/-- A group is given names one by one, after those that it was given already. -/
theorem foldl_add_firstOccurrences (first : FirstOccurrences names g.members)
    (later : List String) :
    FirstOccurrences (names ++ later) (later.foldl add g).members ∧
      (later.foldl add g).semantics = g.semantics := by
  induction later generalizing g names with
  | nil => simpa using first
  | cons name rest ih =>
      obtain ⟨onward, kept⟩ := ih (add_firstOccurrences first name)
      rw [List.foldl_cons, List.append_cons]
      exact ⟨onward, kept.trans (add_semantics g name)⟩

theorem exists_ofNames_eq (semantics : String) (names : List String) :
    ∃ members, FirstOccurrences names members ∧ ofNames semantics names = ⟨semantics, members⟩ := by
  have start : FirstOccurrences [] (Group.mk semantics []).members := .nil
  obtain ⟨first, kept⟩ := foldl_add_firstOccurrences start names
  exact ⟨_, first, congrArg (Group.mk · (ofNames semantics names).members) kept⟩

theorem ofNames_eq_iff {semantics : String} :
    ofNames semantics names = ⟨semantics, members⟩ ↔ FirstOccurrences names members := by
  obtain ⟨members', first', told⟩ := exists_ofNames_eq semantics names
  rw [told]
  constructor
  · intro same
    obtain rfl : members' = members := by simpa using same
    exact first'
  · intro first
    rw [first.unique first']

example : ofNames "LS" ["v", "a", "v"] = ⟨"LS", ["v", "a"]⟩ := by decide

theorem ofNames_of_nodup (semantics : String) (distinct : names.Nodup) :
    ofNames semantics names = ⟨semantics, names⟩ :=
  ofNames_eq_iff.mpr (.of_nodup distinct)

end Group

namespace Document

variable {d d' left : Document} {semantics : String} {removals : Nat}

/-- Removing the first group of some semantics for as long as one is found: how many removals that
takes, and the document that is left. -/
inductive ClearsTo (semantics : String) : Document → Nat → Document → Prop where
  | done {d : Document} (missing : d.removeGroup? semantics = none) : ClearsTo semantics d 0 d
  | more {d d' left : Document} {removals : Nat} (removed : d.removeGroup? semantics = some d')
      (onward : ClearsTo semantics d' removals left) : ClearsTo semantics d (removals + 1) left

def cleared (d : Document) (semantics : String) : Document :=
  { d with groups := d.groups.filter (·.semantics ≠ semantics) }

theorem removeGroup?_eq_none_iff :
    d.removeGroup? semantics = none ↔ d.groups.countP (·.semantics = semantics) = 0 := by
  simp [removeGroup?, group?, List.countP_eq_zero]

theorem cleared_of_countP_eq_zero (none : d.groups.countP (·.semantics = semantics) = 0) :
    d.cleared semantics = d := by
  have kept : d.groups.filter (·.semantics ≠ semantics) = d.groups := by
    rw [List.filter_eq_self]
    simpa [List.countP_eq_zero] using none
  rw [cleared, kept]

/-- A removal takes one group of the semantics away and nothing else. -/
theorem removed_cases (removed : d.removeGroup? semantics = some d') :
    ∃ before g after, g.semantics = semantics ∧ d.groups = before ++ g :: after ∧
      d' = { d with groups := before ++ after } := by
  rw [removeGroup?] at removed
  split at removed
  · rename_i found
    obtain ⟨x, member, matching⟩ := List.find?_isSome.mp found
    obtain ⟨g, before, after, -, named, split, erased⟩ := List.exists_of_eraseP
      (p := (·.semantics = semantics)) member matching
    cases removed
    exact ⟨before, g, after, by simpa using named, split, by rw [erased]⟩
  · cases removed

theorem cleared_of_removed (removed : d.removeGroup? semantics = some d') :
    d'.cleared semantics = d.cleared semantics := by
  obtain ⟨before, g, after, named, split, rfl⟩ := removed_cases removed
  simp [cleared, split, named]

theorem countP_of_removed (removed : d.removeGroup? semantics = some d') :
    d.groups.countP (·.semantics = semantics) =
      d'.groups.countP (·.semantics = semantics) + 1 := by
  obtain ⟨before, g, after, named, split, rfl⟩ := removed_cases removed
  simp [split, named, Nat.add_assoc]

theorem clearsTo_cleared (d : Document) (semantics : String) :
    d.ClearsTo semantics (d.groups.countP (·.semantics = semantics)) (d.cleared semantics) := by
  -- Every removal leaves one group less to remove, so the induction is on their number.
  induction counted : d.groups.countP (·.semantics = semantics) generalizing d with
  | zero =>
      rw [cleared_of_countP_eq_zero counted]
      exact .done (removeGroup?_eq_none_iff.mpr counted)
  | succ n ih =>
      cases removed : d.removeGroup? semantics with
      | none =>
          rw [removeGroup?_eq_none_iff.mp removed] at counted
          cases counted
      | some d' =>
          have fewer : d'.groups.countP (·.semantics = semantics) = n := by
            rw [countP_of_removed removed] at counted
            exact Nat.succ.inj counted
          rw [← cleared_of_removed removed]
          exact .more removed (ih d' fewer)

/-- The removals come to an end after one for each group of the semantics, and leave the rest. -/
theorem clearsTo_iff :
    d.ClearsTo semantics removals left ↔
      removals = d.groups.countP (·.semantics = semantics) ∧ left = d.cleared semantics := by
  constructor
  · intro clears
    induction clears with
    | done missing =>
        have none := removeGroup?_eq_none_iff.mp missing
        exact ⟨none.symm, (cleared_of_countP_eq_zero none).symm⟩
    | more removed _ ih =>
        obtain ⟨counted, rfl⟩ := ih
        exact ⟨by rw [countP_of_removed removed, counted], cleared_of_removed removed⟩
  · rintro ⟨rfl, rfl⟩
    exact clearsTo_cleared d semantics

theorem addGroup_inj {g : Group} : d.addGroup g = d'.addGroup g ↔ d = d' := by
  cases d
  cases d'
  simp [addGroup]

theorem addGroup_eq_bundle_iff :
    left.addGroup (Group.ofNames Group.bundleSemantics d.names) = d.bundle ↔
      left = d.cleared Group.bundleSemantics := by
  have bundled : d.bundle = (d.cleared Group.bundleSemantics).addGroup
      (Group.ofNames Group.bundleSemantics d.names) := rfl
  rw [bundled, addGroup_inj]

theorem exists_bundle_groups (d : Document) :
    ∃ members, Names.FirstOccurrences d.names members ∧
      d.bundle.groups = d.groups.filter (·.semantics ≠ Group.bundleSemantics) ++
        [⟨Group.bundleSemantics, members⟩] := by
  obtain ⟨members, first, told⟩ := Group.exists_ofNames_eq Group.bundleSemantics d.names
  exact ⟨members, first, by rw [bundle, told]⟩

theorem eq_bundle_iff :
    d' = d.bundle ↔ d'.sections = d.sections ∧ d'.bindings = d.bindings ∧
      ∃ members, Names.FirstOccurrences d.names members ∧
        d'.groups = d.groups.filter (·.semantics ≠ Group.bundleSemantics) ++
          [⟨Group.bundleSemantics, members⟩] := by
  constructor
  · rintro rfl
    exact ⟨rfl, rfl, exists_bundle_groups d⟩
  · rintro ⟨sections, bindings, members, first, groups⟩
    rw [← Group.ofNames_eq_iff.mpr first] at groups
    rw [bundle, ← sections, ← bindings, ← groups]

theorem countP_bundle (d : Document) :
    d.bundle.groups.countP (·.semantics = Group.bundleSemantics) = 1 := by
  obtain ⟨members, -, groups⟩ := exists_bundle_groups d
  rw [groups, List.countP_append, List.countP_filter]
  simp

theorem bundle_bundle (d : Document) : d.bundle.bundle = d.bundle := by
  obtain ⟨members, first, groups⟩ := exists_bundle_groups d
  symm
  refine eq_bundle_iff.mpr ⟨rfl, rfl, members, first, ?_⟩
  rw [groups, List.filter_append, List.filter_filter]
  simp

/-- All that bundling does, whether or not names repeat. The removals come to an end, after as many
as there are bundle groups, and the new group is put at the end of what they leave. So the sections,
the bindings and all other groups stay as they are and in order, and exactly one bundle group is
left, the last one, with each section name once and in the order in which the names first occur.
Bundling again changes nothing. -/
theorem bundle_outcome (d : Document) :
    (∃ removals left, d.ClearsTo Group.bundleSemantics removals left) ∧
    (∀ removals left, d.ClearsTo Group.bundleSemantics removals left ↔
      removals = d.groups.countP (·.semantics = Group.bundleSemantics) ∧
        left.addGroup (Group.ofNames Group.bundleSemantics d.names) = d.bundle) ∧
    (∀ bundled, bundled = d.bundle ↔
      bundled.sections = d.sections ∧ bundled.bindings = d.bindings ∧
        ∃ members, Names.FirstOccurrences d.names members ∧
          bundled.groups = d.groups.filter (·.semantics ≠ Group.bundleSemantics) ++
            [⟨Group.bundleSemantics, members⟩]) ∧
    d.bundle.groups.countP (·.semantics = Group.bundleSemantics) = 1 ∧
    d.bundle.bundle = d.bundle := by
  refine ⟨⟨_, _, clearsTo_cleared d _⟩, ?_, fun _ => eq_bundle_iff, ?_, ?_⟩
  · intro removals left
    rw [clearsTo_iff, addGroup_eq_bundle_iff]
  · exact countP_bundle d
  · exact bundle_bundle d

end Document

end Fanout
