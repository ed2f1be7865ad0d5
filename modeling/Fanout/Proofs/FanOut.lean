import Fanout.Negotiation
import Fanout.Proofs.Sections
import Fanout.Proofs.Survey

/-! # What fanning out makes of an offer

The entries are taken one after the other, and each removes its section and appends others. As the
sections of the offer stay in front of what is appended, a later entry still finds its own section
there, whatever the rids before it were (`foldlM_fanOut`). Where names are distinct this gives
both views of an accepted offer in closed form (`ofOffer_of_accepted`).
-/

namespace Fanout

namespace Section

def ridMedia (s : Section) : Media :=
  { s.media with
    extensions := (s.media.extensions.filter fun x =>
      x.uri ≠ HeaderExtension.ridUri ∧ x.uri ≠ HeaderExtension.repairedRidUri).map fun x =>
        if x.uri = HeaderExtension.midUri then
          { x with id := (HeaderExtension.lastOf s.media.extensions HeaderExtension.ridUri).id }
        else x
    streams := s.media.streams.map fun stream => { stream with rids := [] }
    simulcast := default }

def fannedOut (s : Section) : List Section :=
  s.ridNames.map fun rid => ⟨rid, s.protocol, s.ridMedia⟩

theorem fannedOut_names (s : Section) : s.fannedOut.map (·.name) = s.ridNames := by
  simp [fannedOut, Function.comp_def]

theorem flatMap_fannedOut_names (sections : List Section) :
    (sections.flatMap fannedOut).map (·.name) = sections.flatMap (·.ridNames) := by
  simp only [List.map_flatMap, fannedOut_names]

end Section

namespace Document

variable (d : Document)

def simulcasts : List Section :=
  d.sections.filter (·.isSimulcast)

def plains : List Section :=
  d.sections.filter (!·.isSimulcast)

/-- The document as a survey leaves it. -/
def normal : Document :=
  { d with sections := d.sections.map Section.normal }

/-- The bindings of a fanned out document: each rid gets the first transport of its section. -/
def fannedOutBindings : List Binding :=
  d.bindings.filter (fun b => b.name ∉ d.simulcasts.map (·.name)) ++
    d.simulcasts.flatMap fun s =>
      s.ridNames.map fun rid => ⟨rid, (Entry.describing d.bindings s).transport⟩

def fannedOut : Document :=
  { Document.bundle ⟨d.plains ++ d.simulcasts.flatMap Section.fannedOut, d.groups, []⟩ with
    bindings := d.fannedOutBindings }

/-- The document for a peer without simulcast. Even its bundle is left alone where there is nothing
to fan out. -/
def outward : Document :=
  if d.simulcasts = [] then d else d.fannedOut

variable {d}

theorem mem_simulcasts {s : Section} : s ∈ d.simulcasts ↔ s ∈ d.sections ∧ s.isSimulcast :=
  List.mem_filter

theorem mem_plains {s : Section} : s ∈ d.plains ↔ s ∈ d.sections ∧ ¬ s.isSimulcast := by
  rw [plains, List.mem_filter, Bool.not_eq_true', Bool.not_eq_true]

@[simp] theorem normal_names (d : Document) : d.normal.names = d.names := by
  simp [normal, names]

theorem fannedOut_names (d : Document) :
    d.fannedOut.names = d.plains.map (·.name) ++ Section.simulcastRids d.sections := by
  simp only [names, fannedOut, bundle, List.map_append, Section.flatMap_fannedOut_names]
  rfl

theorem plains_of_plain (plain : d.simulcasts = []) : d.plains = d.sections := by
  apply List.filter_eq_self.mpr
  intro s member
  simpa using List.filter_eq_nil_iff.mp plain s member

theorem outward_sections (d : Document) :
    d.outward.sections = d.plains ++ d.simulcasts.flatMap Section.fannedOut := by
  by_cases plain : d.simulcasts = []
  · rw [outward, if_pos plain, plains_of_plain plain, plain, List.flatMap_nil, List.append_nil]
  · rw [outward, if_neg plain]
    rfl

theorem outward_names (d : Document) :
    d.outward.names = d.plains.map (·.name) ++ Section.simulcastRids d.sections := by
  rw [names, outward_sections, List.map_append, Section.flatMap_fannedOut_names]
  rfl

theorem simulcasts_names_nodup (distinct : d.names.Nodup) : (d.simulcasts.map (·.name)).Nodup :=
  distinct.sublist (List.filter_sublist.map _)

theorem normal_of_plain (plain : d.simulcasts = []) : d.normal = d := by
  have same : d.sections.map Section.normal = d.sections.map id := by
    apply List.map_congr_left
    intro s member
    exact Section.normal_of_plain (List.filter_eq_nil_iff.mp plain s member)
  simp only [normal, same, List.map_id]

theorem named_simulcast_iff {s : Section} (distinct : d.names.Nodup) (member : s ∈ d.sections) :
    s.name ∈ d.simulcasts.map (·.name) ↔ s.isSimulcast := by
  constructor
  · intro named
    obtain ⟨t, there, same⟩ := List.mem_map.mp named
    obtain ⟨tMember, tSimulcast⟩ := mem_simulcasts.mp there
    obtain rfl := List.inj_on_of_nodup_map distinct tMember member same
    exact tSimulcast
  · intro simulcast
    exact List.mem_map_of_mem (mem_simulcasts.mpr ⟨member, simulcast⟩)

theorem simulcast_name_not_plain {s : Section} (distinct : d.names.Nodup)
    (simulcast : s ∈ d.simulcasts) : s.name ∉ d.plains.map (·.name) := by
  intro plain
  obtain ⟨t, there, same⟩ := List.mem_map.mp plain
  obtain ⟨member, tPlain⟩ := mem_plains.mp there
  apply tPlain
  rw [← named_simulcast_iff distinct member, same]
  exact List.mem_map_of_mem simulcast

/-- Removing the names of simulcast sections leaves the plain ones, which a survey never touches. -/
theorem filter_normal (distinct : d.names.Nodup) :
    (d.sections.map Section.normal).filter (·.name ∉ d.simulcasts.map (·.name)) = d.plains := by
  have left : (d.sections.map Section.normal).filter (·.name ∉ d.simulcasts.map (·.name)) =
      d.plains.map Section.normal := by
    rw [List.filter_map, plains]
    congr 1
    apply List.filter_congr
    intro s member
    simp only [Function.comp_apply, Section.normal_name, named_simulcast_iff distinct member]
    cases s.isSimulcast <;> rfl
  have same : d.plains.map Section.normal = d.plains.map id := by
    apply List.map_congr_left
    intro s member
    exact Section.normal_of_plain (mem_plains.mp member).2
  rw [left, same, List.map_id]

end Document

section
variable {bindings : List Binding} {base : List Section} {s : Section}

theorem Entry.fanOutMedia_normal (simulcast : s.isSimulcast) (complete : s.Complete bindings) :
    (Entry.describing bindings s).fanOutMedia s.normal.media = .ok s.ridMedia := by
  obtain ⟨stream, one, given⟩ := complete.stream
  have normal : s.normal = s.explicit s.ridNames := by simp [Section.normal, simulcast]
  have streams : s.normal.media.streams =
      [{ stream with rids := s.ridNames.map fun rid => ⟨rid, .send⟩ }] := by
    simp [normal, Section.explicit, one]
  rw [normal] at streams ⊢
  simp only [fanOutMedia, streams, List.isEmpty_iff, List.map_eq_nil_iff, complete.ridNames_ne_nil,
    if_false, Section.ridMedia, one]
  rfl

/-- One entry replaces its section by those of its rids, wherever others were appended. -/
theorem Entry.fanOut_describing (groups : List Group) (bound : List Binding)
    (added : List Section) (distinct : (base.map (·.name)).Nodup) (present : s.normal ∈ base)
    (simulcast : s.isSimulcast) (complete : s.Complete bindings) :
    Entry.fanOut ⟨base ++ added, groups, bound⟩ (Entry.describing bindings s) =
      .ok ⟨base.filter (·.name ≠ s.name) ++ (added ++ s.fannedOut), groups, bound⟩ := by
  have own : base.find? (·.name = (Entry.describing bindings s).name) = some s.normal :=
    (Section.find?_eq_some_iff distinct).mpr ⟨present, s.normal_name⟩
  have found : Document.section? ⟨base ++ added, groups, bound⟩
      (Entry.describing bindings s).name = some s.normal := by
    simp only [Document.section?, List.find?_append, own, Option.some_or]
  have erased : (base ++ added).eraseP (·.name = (Entry.describing bindings s).name) =
      base.filter (·.name ≠ s.name) ++ added := by
    have named : decide (s.normal.name = (Entry.describing bindings s).name) = true :=
      decide_eq_true s.normal_name
    rw [List.eraseP_append_left (p := (·.name = (Entry.describing bindings s).name)) named _
      present, Section.eraseP_eq_filter distinct]
    rfl
  have media := fanOutMedia_normal simulcast complete
  simp only [fanOut, found, erased]
  rw [media]
  simp only [bind, Except.bind, List.append_assoc]
  rfl

theorem foldlM_fanOut {simulcasts : List Section} (groups : List Group) (bound : List Binding)
    (added : List Section) (distinct : (base.map (·.name)).Nodup)
    (apart : (simulcasts.map (·.name)).Nodup) (present : ∀ s ∈ simulcasts, s.normal ∈ base)
    (ready : ∀ s ∈ simulcasts, s.isSimulcast ∧ s.Complete bindings) :
    (simulcasts.map (Entry.describing bindings)).foldlM Entry.fanOut
        ⟨base ++ added, groups, bound⟩ =
      .ok ⟨base.filter (·.name ∉ simulcasts.map (·.name)) ++
        (added ++ simulcasts.flatMap Section.fannedOut), groups, bound⟩ := by
  -- `base` loses the section of each entry and `added` takes up those of its rids
  induction simulcasts generalizing base added with
  | nil => simp [pure, Except.pure]
  | cons s rest ih =>
      obtain ⟨others, restApart⟩ := Section.distinct_cons.mp apart
      obtain ⟨simulcast, complete⟩ := ready s List.mem_cons_self
      have step := Entry.fanOut_describing groups bound added distinct
        (present s List.mem_cons_self) simulcast complete
      have left : ∀ t ∈ rest, t.normal ∈ base.filter (·.name ≠ s.name) := by
        intro t member
        exact List.mem_filter.mpr
          ⟨present t (List.mem_cons_of_mem _ member), by simpa using others t member⟩
      have onward := ih (added ++ s.fannedOut)
        (distinct.sublist (List.filter_sublist.map _)) restApart left
        fun t member => ready t (List.mem_cons_of_mem _ member)
      rw [List.map_cons, List.foldlM_cons, step]
      refine Eq.trans onward ?_
      simp only [List.filter_filter, List.flatMap_cons, List.append_assoc, Except.ok.injEq,
        Document.mk.injEq, and_true, List.append_cancel_right_eq]
      apply List.filter_congr
      intro t _
      simp only [List.map_cons, List.mem_cons, not_or, ne_eq, ← Bool.decide_and, and_comm]

end

namespace Registry.Surveyed

variable {d : Document} {r : Registry} {offer : Description}

theorem entries_eq (surveyed : Surveyed d.bindings d.sections r) :
    r.entries = d.simulcasts.map (Entry.describing d.bindings) :=
  surveyed.entries

theorem describing_mem {s : Section} (surveyed : Surveyed d.bindings d.sections r)
    (simulcast : s ∈ d.simulcasts) : Entry.describing d.bindings s ∈ r.entries := by
  rw [surveyed.entries_eq]
  exact List.mem_map_of_mem simulcast

theorem names_eq (surveyed : Surveyed d.bindings d.sections r) :
    r.names = d.simulcasts.map (·.name) :=
  surveyed.names

theorem hasSimulcast_iff (surveyed : Surveyed d.bindings d.sections r) :
    r.hasSimulcast ↔ d.simulcasts ≠ [] := by
  simp [hasSimulcast, surveyed.entries_eq]

theorem fanOutBindings_eq (surveyed : Surveyed d.bindings d.sections r) :
    r.fanOutBindings d.bindings = d.fannedOutBindings := by
  rw [fanOutBindings, filter_byName?_isNone surveyed.indexed, surveyed.names_eq,
    surveyed.entries_eq, List.flatMap_map]
  rfl

theorem foldlM_fanOut_normal (surveyed : Surveyed d.bindings d.sections r)
    (distinct : d.names.Nodup)
    (complete : ∀ s ∈ d.simulcasts, s.isSimulcast ∧ s.Complete d.bindings) :
    r.entries.foldlM Entry.fanOut d.normal =
      .ok ⟨d.plains ++ d.simulcasts.flatMap Section.fannedOut, d.groups, d.bindings⟩ := by
  have present : ∀ s ∈ d.simulcasts, s.normal ∈ d.normal.sections := fun s member =>
    List.mem_map_of_mem (Document.mem_simulcasts.mp member).1
  have distinct' : d.normal.names.Nodup := by rwa [Document.normal_names]
  have folded := foldlM_fanOut d.groups d.bindings [] distinct'
    (Document.simulcasts_names_nodup distinct) present complete
  rw [List.append_nil, List.nil_append] at folded
  rw [surveyed.entries_eq, ← Document.filter_normal distinct]
  exact folded

/-- Fanning out what a survey accepted never fails. -/
theorem relayOffer_eq (surveyed : Surveyed offer.document.bindings offer.document.sections r)
    (isOffer : offer.type = .offer) (distinct : offer.document.names.Nodup)
    (complete : ∀ s ∈ offer.document.simulcasts,
      s.isSimulcast ∧ s.Complete offer.document.bindings) :
    r.relayOffer { offer with document := offer.document.normal } =
      .ok { offer with document := offer.document.outward } := by
  by_cases plain : offer.document.simulcasts = []
  · have none : ¬ r.hasSimulcast := fun some => surveyed.hasSimulcast_iff.mp some plain
    simp only [relayOffer, none, Bool.false_eq_true, if_false, Document.outward, plain, if_true,
      Document.normal_of_plain plain]
  · have some : r.hasSimulcast := surveyed.hasSimulcast_iff.mpr plain
    have folded := surveyed.foldlM_fanOut_normal distinct complete
    simp only [relayOffer, some, if_true, Document.outward, plain, if_false, fanOut, folded, bind,
      Except.bind, surveyed.fanOutBindings_eq, isOffer]
    rfl

end Registry.Surveyed

end Fanout
