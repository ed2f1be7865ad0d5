import Fanout.Answer
import Mathlib.Data.List.Find
import Mathlib.Data.List.Nodup
import Mathlib.Data.List.Perm.Basic

/-! # Sections by name

A name identifies a section only while names are distinct. Then the first section of a name is the
only one, removing it is a filter, and arranging sections is a permutation that any order of the
names can ask for. Names may still repeat in what a peer sends; the lemmas that do without
distinctness therefore count names by permutation.
-/

namespace Fanout

theorem bind_eq_ok {ε α β : Type} {x : Except ε α} {f : α → Except ε β} {b : β} :
    x >>= f = .ok b ↔ ∃ a, x = .ok a ∧ f a = .ok b := by
  cases x <;> simp [bind, Except.bind]

namespace Section

variable {sections : List Section} {s : Section} {name : String}

theorem distinct_cons {rest : List Section} :
    ((s :: rest).map (·.name)).Nodup ↔
      (∀ t ∈ rest, t.name ≠ s.name) ∧ (rest.map (·.name)).Nodup := by
  simp [List.nodup_cons]

theorem find?_eq_some_iff (distinct : (sections.map (·.name)).Nodup) :
    sections.find? (·.name = name) = some s ↔ s ∈ sections ∧ s.name = name := by
  constructor
  · intro found
    exact ⟨List.mem_of_find?_eq_some found, by simpa using List.find?_some found⟩
  · rintro ⟨member, rfl⟩
    cases found : sections.find? (·.name = s.name) with
    | none => simpa using List.find?_eq_none.mp found s member
    | some t =>
        have named : t.name = s.name := by simpa using List.find?_some found
        rw [List.inj_on_of_nodup_map distinct (List.mem_of_find?_eq_some found) member named]

theorem find?_eq_none_iff :
    sections.find? (·.name = name) = none ↔ name ∉ sections.map (·.name) := by
  simp

theorem exists_find? (present : name ∈ sections.map (·.name)) :
    ∃ s, sections.find? (·.name = name) = some s :=
  Option.ne_none_iff_exists'.mp fun none => find?_eq_none_iff.mp none present

theorem eraseP_eq_filter (distinct : (sections.map (·.name)).Nodup) :
    sections.eraseP (·.name = name) = sections.filter (·.name ≠ name) := by
  induction sections with
  | nil => rfl
  | cons s rest ih =>
      obtain ⟨others, restDistinct⟩ := distinct_cons.mp distinct
      by_cases named : s.name = name
      · subst named
        have kept : rest.filter (·.name ≠ s.name) = rest :=
          List.filter_eq_self.mpr (by simpa using others)
        simp only [List.eraseP_cons, decide_true, List.filter_cons, ne_eq, not_true,
          decide_false, Bool.false_eq_true, if_false]
        exact kept.symm
      · simp [named, ih restDistinct]

theorem filter_eraseP (sections : List Section) (gone name : String) :
    (sections.eraseP (·.name = gone)).filter (·.name = name) =
      if name = gone then (sections.filter (·.name = name)).tail
      else sections.filter (·.name = name) := by
  induction sections with
  | nil => simp
  | cons s rest ih =>
      by_cases first : s.name = gone
      · by_cases same : name = gone
        · simp [first, same]
        · simp [first, same, Ne.symm same]
      · rw [List.eraseP_cons_of_neg (by simpa using first), List.filter_cons, List.filter_cons, ih]
        by_cases same : name = gone
        · simp [same, first]
        · simp [same]

theorem find?_eraseP_of_ne {gone : String} (other : name ≠ gone) :
    (sections.eraseP (·.name = gone)).find? (·.name = name) = sections.find? (·.name = name) := by
  rw [← List.head?_filter, filter_eraseP, if_neg other, List.head?_filter]

theorem eraseP_names (sections : List Section) (name : String) :
    (sections.eraseP (·.name = name)).map (·.name) = (sections.map (·.name)).erase name := by
  rw [List.erase_eq_eraseP, List.eraseP_map]
  simp only [Function.comp_def, beq_eq_decide, eq_comm (a := name)]

theorem pick_eq_ok {names : List String} {taken left : List Section}
    (picked : pick sections names = .ok (taken, left)) :
    taken.map (·.name) = names ∧ (taken ++ left).Perm sections := by
  induction names generalizing sections taken left with
  | nil =>
      obtain ⟨rfl, rfl⟩ : [] = taken ∧ sections = left := by simpa [pick] using picked
      exact ⟨rfl, .refl _⟩
  | cons name rest ih =>
      simp only [pick] at picked
      split at picked
      · cases picked
      · rename_i s found
        obtain ⟨⟨others, remaining⟩, inner, outer⟩ := bind_eq_ok.mp picked
        obtain ⟨rfl, rfl⟩ : s :: others = taken ∧ remaining = left := by simpa using outer
        obtain ⟨named, perm⟩ := ih inner
        have sName : s.name = name := by simpa using List.find?_some found
        refine ⟨by simp [sName, named], ?_⟩
        obtain ⟨missed, before, after, split, miss⟩ := List.find?_eq_some_iff_append.mp found
        have erased : sections.eraseP (·.name = name) = before ++ after := by
          rw [split, List.eraseP_append_right _ (by simpa using miss),
            List.eraseP_cons_of_pos (by simpa using sName)]
        rw [erased] at perm
        rw [split]
        exact (perm.cons s).trans List.perm_middle.symm

/-- What is left after picking: each picked name is gone once, and other names are untouched. -/
theorem pick_left {names : List String} {taken left : List Section}
    (picked : pick sections names = .ok (taken, left)) :
    left.map (·.name) = (sections.map (·.name)).diff names ∧
      ∀ name ∉ names, left.find? (·.name = name) = sections.find? (·.name = name) := by
  induction names generalizing sections taken left with
  | nil =>
      obtain ⟨-, rfl⟩ : [] = taken ∧ sections = left := by simpa [pick] using picked
      exact ⟨rfl, fun _ _ => rfl⟩
  | cons first rest ih =>
      simp only [pick] at picked
      split at picked
      · cases picked
      · obtain ⟨⟨others, remaining⟩, inner, outer⟩ := bind_eq_ok.mp picked
        obtain ⟨-, rfl⟩ : _ ∧ remaining = left := by simpa using outer
        obtain ⟨names, found⟩ := ih inner
        refine ⟨by rw [names, eraseP_names, List.diff_cons], ?_⟩
        intro name other
        rw [List.mem_cons, not_or] at other
        rw [found name other.2, find?_eraseP_of_ne other.1]

theorem perm_iff_left_isEmpty {names : List String} {taken left : List Section}
    (picked : pick sections names = .ok (taken, left)) :
    (sections.map (·.name)).Perm names ↔ left.isEmpty := by
  obtain ⟨named, perm⟩ := pick_eq_ok picked
  have counted : (names ++ left.map (·.name)).Perm (sections.map (·.name)) := by
    rw [← named, ← List.map_append]
    exact perm.map _
  rw [List.isEmpty_iff]
  constructor
  · intro same
    have length := (counted.trans same).length_eq
    simpa using length
  · rintro rfl
    simpa using counted.symm

theorem pick_outcome (sections : List Section) {names : List String} (distinct : names.Nodup) :
    match names.find? (· ∉ sections.map (·.name)) with
    | some name => pick sections names = .error (.sectionNotFound name)
    | none => ∃ taken left, pick sections names = .ok (taken, left) := by
  induction names generalizing sections with
  | nil => exact ⟨[], sections, rfl⟩
  | cons first rest ih =>
      obtain ⟨apart, restDistinct⟩ := List.nodup_cons.mp distinct
      by_cases present : first ∈ sections.map (·.name)
      · obtain ⟨s, found⟩ := exists_find? present
        have onward := ih (sections.eraseP (·.name = first)) restDistinct
        have same : rest.find? (· ∉ (sections.eraseP (·.name = first)).map (·.name)) =
            rest.find? (· ∉ sections.map (·.name)) := by
          apply List.find?_congr
          intro name member
          have other : name ≠ first := fun equal => apart (equal ▸ member)
          simp only [eraseP_names, List.mem_erase_of_ne other]
        rw [same] at onward
        rw [List.find?_cons_of_neg (by simpa using present)]
        simp only [pick, found]
        cases missing : rest.find? (· ∉ sections.map (·.name)) with
        | some name =>
            simp only [missing] at onward
            simp only [onward]
            rfl
        | none =>
            simp only [missing] at onward
            obtain ⟨taken, left, picked⟩ := onward
            simp only [picked]
            exact ⟨_, _, rfl⟩
      · have none := find?_eq_none_iff.mpr present
        rw [List.find?_cons_of_pos (by simpa using present)]
        simp only [pick, none]

theorem pick_of_subset {wanted : List Section} (distinct : (sections.map (·.name)).Nodup)
    (wantedDistinct : (wanted.map (·.name)).Nodup) (subset : ∀ s ∈ wanted, s ∈ sections) :
    pick sections (wanted.map (·.name)) =
      .ok (wanted, sections.filter (·.name ∉ wanted.map (·.name))) := by
  induction wanted generalizing sections with
  | nil => simp [pick]
  | cons s rest ih =>
      obtain ⟨others, restDistinct⟩ := distinct_cons.mp wantedDistinct
      have found : sections.find? (·.name = s.name) = some s :=
        (find?_eq_some_iff distinct).mpr ⟨subset s List.mem_cons_self, rfl⟩
      have restSubset : ∀ t ∈ rest, t ∈ sections.filter (·.name ≠ s.name) := by
        intro t member
        exact List.mem_filter.mpr
          ⟨subset t (List.mem_cons_of_mem _ member), by simpa using others t member⟩
      have inner := ih (distinct.sublist (List.filter_sublist.map _)) restDistinct restSubset
      simp only [List.map_cons, pick, found, eraseP_eq_filter distinct, inner]
      simp only [bind, Except.bind, List.filter_filter, Except.ok.injEq, Prod.mk.injEq, true_and]
      apply List.filter_congr
      intro t _
      simp only [List.mem_cons, not_or, ne_eq, ← Bool.decide_and, and_comm]

end Section

namespace Document

variable {d arranged : Document} {order : List String}

theorem arrange_eq_ok (h : d.arrange order = .ok arranged) :
    arranged.names = order ∧ arranged.sections.Perm d.sections ∧
      arranged.groups = d.groups ∧ arranged.bindings = d.bindings := by
  obtain ⟨⟨taken, left⟩, picked, rest⟩ := bind_eq_ok.mp h
  obtain ⟨named, perm⟩ := Section.pick_eq_ok picked
  simp only at rest
  split at rest
  · rename_i none
    obtain rfl : { d with sections := taken } = arranged := by simpa using rest
    obtain rfl : left = [] := by simpa using none
    exact ⟨named, by simpa using perm, rfl, rfl⟩
  · cases rest

theorem arrange_outcome (distinct : order.Nodup) :
    match order.find? (· ∉ d.names) with
    | some name => d.arrange order = .error (.sectionNotFound name)
    | none =>
      if d.names.Perm order then
        ∃ arranged, d.arrange order = .ok { d with sections := arranged }
      else d.arrange order = .error (.orderMismatch order d.names) := by
  have outcome := Section.pick_outcome d.sections distinct
  change match order.find? (· ∉ d.names) with | some _ => _ | none => _ at outcome
  cases missing : order.find? (· ∉ d.names) with
  | some name =>
      simp only [missing] at outcome
      simp only [arrange, outcome]
      rfl
  | none =>
      simp only [missing] at outcome
      obtain ⟨taken, left, picked⟩ := outcome
      have used : d.names.Perm order ↔ left.isEmpty := Section.perm_iff_left_isEmpty picked
      simp only [arrange, picked, bind, Except.bind, used]
      split
      · exact ⟨taken, rfl⟩
      · rfl

theorem arrange_of_perm {wanted : List Section} (distinct : d.names.Nodup)
    (perm : wanted.Perm d.sections) :
    d.arrange (wanted.map (·.name)) = .ok { d with sections := wanted } := by
  have names : (wanted.map (·.name)).Perm d.names := perm.map _
  have picked := Section.pick_of_subset distinct (names.nodup_iff.mpr distinct)
    (fun s member => perm.subset member)
  have none : d.sections.filter (·.name ∉ wanted.map (·.name)) = [] := by
    apply List.filter_eq_nil_iff.mpr
    intro s member
    have present : s.name ∈ wanted.map (·.name) := names.symm.subset (List.mem_map_of_mem member)
    simpa using present
  rw [none] at picked
  simp only [arrange, picked, bind, Except.bind, List.isEmpty_nil, if_true]

end Document

end Fanout
