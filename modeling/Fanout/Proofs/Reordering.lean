import Fanout.Proofs.Filling
import Fanout.Proofs.RoundTrip

/-! # The order of an answer

Gathering looks sections up by name, takes them out by name and puts new ones at the end. So two
documents that list the sections of each name in the same order (`Document.Alike`) stay alike at
every stage, or fail alike, and when they are arranged at the end they become equal. Where names are
distinct, any two orders of the same sections are alike.
-/

namespace Fanout

/-- Faults that differ at most in the order in which they list the sections found. -/
inductive Fault.Alike : Fault → Fault → Prop where
  | same (fault : Fault) : Alike fault fault
  | reordered (expected : List String) {actual actual' : List String}
      (perm : actual.Perm actual') :
      Alike (.orderMismatch expected actual) (.orderMismatch expected actual')

/-- Both succeed with related results, or both fail with faults that are alike. -/
inductive SameOutcome {α β : Type} (R : α → β → Prop) : Except Fault α → Except Fault β → Prop where
  | ok {a : α} {b : β} (related : R a b) : SameOutcome R (.ok a) (.ok b)
  | error {fault fault' : Fault} (alike : fault.Alike fault') :
      SameOutcome R (.error fault) (.error fault')

namespace SameOutcome

variable {α β γ δ ι : Type} {R : α → β → Prop} {S : γ → δ → Prop}

theorem refl {R : α → α → Prop} (related : ∀ a, R a a) (x : Except Fault α) :
    SameOutcome R x x := by
  cases x with
  | ok a => exact .ok (related a)
  | error fault => exact .error (.same fault)

theorem bind {x : Except Fault α} {y : Except Fault β} {f : α → Except Fault γ}
    {g : β → Except Fault δ} (first : SameOutcome R x y)
    (next : ∀ a b, R a b → SameOutcome S (f a) (g b)) : SameOutcome S (x >>= f) (y >>= g) := by
  cases first with
  | ok related => exact next _ _ related
  | error alike => exact .error alike

theorem foldlM {f : α → ι → Except Fault α} {g : β → ι → Except Fault β}
    (step : ∀ a b i, R a b → SameOutcome R (f a i) (g b i)) (items : List ι) {a : α} {b : β}
    (related : R a b) : SameOutcome R (items.foldlM f a) (items.foldlM g b) := by
  induction items generalizing a b with
  | nil => exact .ok related
  | cons i rest ih =>
      rw [List.foldlM_cons, List.foldlM_cons]
      exact (step a b i related).bind fun _ _ related => ih related

end SameOutcome

namespace Section

variable {sections sections' : List Section} {name : String}

/-- The sections of each name come in the same order. -/
def Alike (sections sections' : List Section) : Prop :=
  ∀ name, sections.filter (·.name = name) = sections'.filter (·.name = name)

theorem filter_name_of_distinct (distinct : (sections.map (·.name)).Nodup) (name : String) :
    sections.filter (·.name = name) = (sections.find? (·.name = name)).toList := by
  induction sections with
  | nil => rfl
  | cons s rest ih =>
      obtain ⟨others, restDistinct⟩ := distinct_cons.mp distinct
      by_cases named : s.name = name
      · subst named
        have none : rest.filter (·.name = s.name) = [] :=
          List.filter_eq_nil_iff.mpr (by simpa using others)
        simp [none]
      · simp [named, ih restDistinct]

theorem alike_of_perm (distinct : (sections.map (·.name)).Nodup)
    (perm : sections.Perm sections') : Alike sections sections' := by
  intro name
  have distinct' := (perm.map _).nodup_iff.mp distinct
  have filtered := perm.filter (·.name = name)
  rw [filter_name_of_distinct distinct, filter_name_of_distinct distinct'] at filtered ⊢
  cases found : sections.find? (·.name = name) with
  | none =>
      rw [found] at filtered
      exact (List.nil_perm.mp filtered).symm
  | some s =>
      rw [found] at filtered
      exact List.singleton_perm.mp filtered

namespace Alike

variable (alike : Alike sections sections')
include alike

theorem find?_eq (name : String) :
    sections.find? (·.name = name) = sections'.find? (·.name = name) := by
  rw [← List.head?_filter, ← List.head?_filter, alike name]

theorem mem_names_iff (name : String) :
    name ∈ sections.map (·.name) ↔ name ∈ sections'.map (·.name) := by
  rw [← not_iff_not, ← find?_eq_none_iff, ← find?_eq_none_iff, alike.find?_eq name]

theorem perm : sections.Perm sections' := by
  rw [List.perm_iff_count]
  intro s
  have counted : ∀ l : List Section, (l.filter (·.name = s.name)).count s = l.count s :=
    fun l => List.count_filter (by simp)
  rw [← counted, alike s.name, counted]

theorem eraseP (gone : String) :
    Alike (sections.eraseP (·.name = gone)) (sections'.eraseP (·.name = gone)) := by
  intro name
  rw [filter_eraseP, filter_eraseP, alike name]

theorem append (added : List Section) : Alike (sections ++ added) (sections' ++ added) := by
  intro name
  rw [List.filter_append, List.filter_append, alike name]

theorem pick (order : List String) :
    SameOutcome (fun picked picked' => picked.1 = picked'.1 ∧ Alike picked.2 picked'.2)
      (Section.pick sections order) (Section.pick sections' order) := by
  induction order generalizing sections sections' with
  | nil => exact .ok ⟨rfl, alike⟩
  | cons name rest ih =>
      simp only [Section.pick, alike.find?_eq name]
      cases sections'.find? (·.name = name) with
      | none => exact .error (.same _)
      | some s =>
          refine (ih (alike.eraseP name)).bind ?_
          rintro ⟨taken, left⟩ ⟨taken', left'⟩ ⟨rfl, leftAlike⟩
          exact .ok ⟨rfl, leftAlike⟩

end Alike

end Section

namespace Document

variable {d d' : Document}

structure Alike (d d' : Document) : Prop where
  sections : Section.Alike d.sections d'.sections
  groups : d.groups = d'.groups
  bindings : d.bindings = d'.bindings

theorem Alike.requireRemove (alike : d.Alike d') (name : String) :
    SameOutcome Alike (d.requireRemove name) (d'.requireRemove name) := by
  have present : name ∈ d.names ↔ name ∈ d'.names := alike.sections.mem_names_iff name
  simp only [Document.requireRemove, remove?, present]
  by_cases there : name ∈ d'.names
  · simp only [there, if_true]
    exact .ok ⟨alike.sections.eraseP name, alike.groups, alike.bindings⟩
  · simp only [there, if_false]
    exact .error (.same _)

theorem Alike.gather (alike : d.Alike d') (e : Entry) :
    SameOutcome Alike (Entry.gather d e) (Entry.gather d' e) := by
  have found : d.section? e.firstRid = d'.section? e.firstRid :=
    alike.sections.find?_eq e.firstRid
  simp only [Entry.gather, found]
  cases d'.section? e.firstRid with
  | none => exact .error (.same _)
  | some s =>
      refine (SameOutcome.foldlM (fun _ _ name alike => alike.requireRemove name) e.rids alike).bind
        fun rest rest' restAlike => ?_
      refine (SameOutcome.refl (R := Eq) (fun _ => rfl) _).bind fun media media' same => ?_
      cases same
      exact .ok ⟨restAlike.sections.append _, restAlike.groups, restAlike.bindings⟩

/-- Arranging leaves nothing of the order that there was, except in what it reports. -/
theorem Alike.arrange (alike : d.Alike d') (order : List String) :
    SameOutcome Eq (d.arrange order) (d'.arrange order) := by
  refine (alike.sections.pick order).bind ?_
  rintro ⟨taken, left⟩ ⟨taken', left'⟩ ⟨rfl, leftAlike⟩
  have none : left.isEmpty = left'.isEmpty := by
    rw [Bool.eq_iff_iff, List.isEmpty_iff, List.isEmpty_iff]
    exact ⟨fun nil => List.nil_perm.mp (nil ▸ leftAlike.perm),
      fun nil => List.perm_nil.mp (nil ▸ leftAlike.perm)⟩
  simp only [none]
  split
  · exact .ok (by simp only [alike.groups, alike.bindings])
  · exact .error (.reordered order (alike.sections.perm.map _))

theorem Alike.gatherSections (alike : d.Alike d') (r : Registry) :
    SameOutcome Eq (r.gatherSections d) (r.gatherSections d') := by
  refine (SameOutcome.foldlM (fun _ _ e alike => alike.gather e) r.entries alike).bind
    fun whole whole' wholeAlike => ?_
  refine (wholeAlike.arrange r.order).bind fun arranged arranged' same => ?_
  cases same
  exact .ok rfl

end Document

theorem Registry.gather_alike (r : Registry) {answer : Description} {d : Document}
    (alike : answer.document.Alike d) :
    SameOutcome Eq (r.gather answer) (r.gather { answer with document := d }) := by
  refine (alike.gatherSections r).bind fun whole whole' same => ?_
  cases same
  exact .refl (fun _ => rfl) _

theorem Views.surveyed_of_ofOffer {r : Registry} {views : Views} {offer : Description}
    (patched : ofOffer offer = .ok (r, views)) :
    Registry.Surveyed offer.document.bindings offer.document.sections r := by
  obtain ⟨sound, rfl⟩ := Negotiation.survey_of_ofOffer patched
  exact Registry.walked_of_survey Registry.empty_indexed sound

namespace Negotiation

variable {n m : Negotiation} {offer answer : Description} {views : Views}
  {sections : List Section}

/-- The peer may list its sections in any order. The answering side gets the same answer from all of
them, or the same fault. -/
theorem patchAnswer_of_perm (fresh : n.phase = .fresh) (layered : offer.document.simulcasts ≠ [])
    (patched : n.perform (patchOffer offer) = (.ok views, m)) (calls : List Call)
    (distinct : answer.document.names.Nodup) (perm : answer.document.sections.Perm sections) :
    SameOutcome (fun back back' => back.remoteView = back'.remoteView)
      ((m.run calls).perform (patchAnswer answer)).1
      ((m.run calls).perform (patchAnswer
        { answer with document := { answer.document with sections := sections } })).1 := by
  obtain ⟨patched, phase⟩ := ofOffer_of_patchOffer fresh patched
  obtain ⟨late, registry⟩ := run_late (n := m) (by simp [phase]) calls
  have simulcast := (Views.surveyed_of_ofOffer patched).hasSimulcast_iff.mpr layered
  have alike : answer.document.Alike { answer.document with sections := sections } :=
    ⟨Section.alike_of_perm distinct perm, rfl, rfl⟩
  rw [patchAnswer_result late, patchAnswer_result late, registry]
  refine (SameOutcome.refl (R := Eq) (fun _ => rfl) _).bind fun _ _ _ => ?_
  simp only [Registry.relayAnswer, simulcast, if_true]
  refine (m.registry.gather_alike alike).bind fun remote remote' same => ?_
  exact .ok same

theorem layeredAnswer_reversed :
    ∃ views m, start.phase = .fresh ∧ layeredOffer.document.simulcasts ≠ [] ∧
      start.perform (patchOffer layeredOffer) = (.ok views, m) ∧
      layeredAnswer.document.names.Nodup ∧
      layeredAnswer.document.sections.Perm layeredAnswer.document.sections.reverse ∧
      SameOutcome (fun back back' => back.remoteView = back'.remoteView)
        ((m.run []).perform (patchAnswer layeredAnswer)).1
        ((m.run []).perform (patchAnswer { layeredAnswer with
          document := { layeredAnswer.document with
            sections := layeredAnswer.document.sections.reverse } })).1 := by
  have reversed := (List.reverse_perm layeredAnswer.document.sections).symm
  have layered : layeredOffer.document.simulcasts ≠ [] := by decide
  exact ⟨_, _, rfl, layered, rfl, by decide, reversed,
    patchAnswer_of_perm (n := start) rfl layered rfl [] (by decide) reversed⟩

end Negotiation

end Fanout
