import Fanout.Proofs.RoundTrip

/-! # Candidates between the two name spaces

The peer knows each section of an offer by the names of the sections it was fanned out to
(`Section.remoteNames`), and no name belongs to two sections (`outward_names_perm`). So the section
that a candidate is for can be told on either side. Outward it goes to the first of those names, and
inward every one of them leads back.
-/

namespace Fanout

namespace Section

def remoteNames (s : Section) : List String :=
  if s.isSimulcast then s.fannedOut.map (·.name) else [s.name]

theorem remoteNames_of_simulcast {s : Section} (simulcast : s.isSimulcast) :
    s.remoteNames = s.ridNames := by
  rw [remoteNames, if_pos simulcast, fannedOut_names]

theorem remoteNames_of_plain {s : Section} (plain : ¬ s.isSimulcast) : s.remoteNames = [s.name] :=
  if_neg plain

theorem normal_remoteNames {s : Section} {bindings : List Binding}
    (complete : s.isSimulcast → s.Complete bindings) : s.normal.remoteNames = s.remoteNames := by
  by_cases simulcast : s.isSimulcast
  · have normal : s.normal.isSimulcast := by rw [normal_isSimulcast complete, simulcast]
    rw [remoteNames_of_simulcast normal, remoteNames_of_simulcast simulcast,
      normal_ridNames simulcast (complete simulcast)]
  · rw [normal_of_plain simulcast]

end Section

namespace Document

/-- The sections of the outward document are those that the sections of the offer stand for. -/
theorem outward_names_perm (d : Document) :
    d.outward.names.Perm (d.sections.flatMap Section.remoteNames) := by
  have simulcasts : d.simulcasts.flatMap Section.remoteNames =
      Section.simulcastRids d.sections := by
    apply List.flatMap_congr
    intro s member
    exact Section.remoteNames_of_simulcast (mem_simulcasts.mp member).2
  have plains : d.plains.flatMap Section.remoteNames = d.plains.map (·.name) := by
    rw [List.map_eq_flatMap]
    apply List.flatMap_congr
    intro s member
    exact Section.remoteNames_of_plain (mem_plains.mp member).2
  rw [outward_names, ← simulcasts, ← plains, ← List.flatMap_append]
  exact (List.perm_append_comm.trans (List.filter_append_perm _ _)).flatMap_right _

theorem Acceptable.normal_remoteNames {d : Document} {s : Section} (acceptable : d.Acceptable)
    (member : s ∈ d.sections) : s.normal.remoteNames = s.remoteNames :=
  Section.normal_remoteNames (acceptable.surveyable.complete s member)

theorem Acceptable.remoteNames_ne_nil {d : Document} {s : Section} (acceptable : d.Acceptable)
    (member : s ∈ d.sections) : s.remoteNames ≠ [] := by
  by_cases simulcast : s.isSimulcast
  · rw [Section.remoteNames_of_simulcast simulcast]
    exact (acceptable.surveyable.complete s member simulcast).ridNames_ne_nil
  · rw [Section.remoteNames_of_plain simulcast]
    simp

end Document

namespace Candidate

def SameLine (a b : Candidate) : Prop :=
  a.line = b.line ∧ a.ufrag = b.ufrag

variable {target? : String → Option String} {c : Candidate} {mid name : String}

theorem retarget_sameLine (target? : String → Option String) (c : Candidate) :
    (c.retarget target?).SameLine c := by
  unfold retarget
  split <;> exact ⟨rfl, rfl⟩

theorem retarget_of_none (unset : c.mid = none) : c.retarget target? = c := by
  simp [retarget, unset]

theorem retarget_of_kept (set : c.mid = some mid) (kept : target? mid = none) :
    c.retarget target? = c := by
  simp [retarget, set, kept]

theorem retarget_mid (set : c.mid = some mid) (known : target? mid = some name) :
    (c.retarget target?).mid = some name := by
  simp [retarget, set, known, moveTo]

theorem retargetAll_of_ne_nil {cs : List Candidate} (given : cs ≠ []) :
    retargetAll target? cs = .ok (cs.map (retarget target?)) := by
  simp [retargetAll, given]

end Candidate

namespace Registry.Surveyed

variable {d : Document} {r : Registry} {s : Section} {name : String} {c : Candidate}

theorem outward?_of_simulcast (surveyed : Surveyed d.bindings d.sections r)
    (acceptable : d.Acceptable) (simulcast : s ∈ d.simulcasts) :
    r.outward? s.name = s.remoteNames.head? := by
  obtain ⟨isSimulcast, complete⟩ := acceptable.complete s simulcast
  have found : r.byName? s.name = some (Entry.describing d.bindings s) :=
    (byName?_eq_some_iff surveyed.indexed).mpr ⟨surveyed.describing_mem simulcast, rfl⟩
  obtain ⟨rid, rids, given⟩ := List.exists_cons_of_ne_nil complete.ridNames_ne_nil
  rw [outward?, found, Section.remoteNames_of_simulcast isSimulcast]
  simp [Entry.firstRid, Entry.describing, given]

theorem outward?_of_plain (surveyed : Surveyed d.bindings d.sections r) (distinct : d.names.Nodup)
    (member : s ∈ d.sections) (plain : ¬ s.isSimulcast) : r.outward? s.name = none := by
  have unnamed : s.name ∉ r.names := by
    rwa [surveyed.names_eq, Document.named_simulcast_iff distinct member]
  rw [outward?, (byName?_eq_none_iff surveyed.indexed).mpr unnamed]
  rfl

theorem inward?_of_simulcast (surveyed : Surveyed d.bindings d.sections r)
    (simulcast : s ∈ d.simulcasts) (own : name ∈ s.remoteNames) :
    r.inward? name = some s.name := by
  rw [Section.remoteNames_of_simulcast (Document.mem_simulcasts.mp simulcast).2] at own
  have found : r.byRid? name = some (Entry.describing d.bindings s) :=
    (byRid?_eq_some_iff surveyed.indexed).mpr ⟨surveyed.describing_mem simulcast, own⟩
  rw [inward?, found]
  rfl

/-- No rid is the name of a plain section, so that name stays. -/
theorem inward?_of_plain (surveyed : Surveyed d.bindings d.sections r) (acceptable : d.Acceptable)
    (member : s ∈ d.sections) (plain : ¬ s.isSimulcast) : r.inward? s.name = none := by
  have noRid : s.name ∉ r.rids := by
    rw [surveyed.rids]
    intro rid
    obtain ⟨t, tMember, simulcast, own⟩ := Section.mem_simulcastRids.mp rid
    have tSimulcast := Document.mem_simulcasts.mpr ⟨tMember, simulcast⟩
    exact acceptable.apart t tSimulcast s.name own
      ⟨s, member, fun same => plain (same ▸ simulcast), rfl⟩
  rw [inward?, (byRid?_eq_none_iff surveyed.indexed).mpr noRid]
  rfl

/-! ## One candidate -/

theorem retarget_outward (surveyed : Surveyed d.bindings d.sections r) (distinct : d.names.Nodup)
    (acceptable : d.Acceptable) (member : s ∈ d.sections) (set : c.mid = some s.name) :
    (c.retarget r.outward?).mid = s.remoteNames.head? ∧
      (¬ s.isSimulcast → c.retarget r.outward? = c) := by
  by_cases simulcast : s.isSimulcast
  · have inside := Document.mem_simulcasts.mpr ⟨member, simulcast⟩
    have known := surveyed.outward?_of_simulcast acceptable inside
    obtain ⟨rid, rids, given⟩ :=
      List.exists_cons_of_ne_nil (acceptable.complete s inside).2.ridNames_ne_nil
    rw [Section.remoteNames_of_simulcast simulcast, given, List.head?_cons] at known ⊢
    exact ⟨Candidate.retarget_mid set known, fun plain => absurd simulcast plain⟩
  · have kept := Candidate.retarget_of_kept set
      (surveyed.outward?_of_plain distinct member simulcast)
    rw [kept, set, Section.remoteNames_of_plain simulcast]
    exact ⟨rfl, fun _ => rfl⟩

theorem retarget_inward (surveyed : Surveyed d.bindings d.sections r) (acceptable : d.Acceptable)
    (member : s ∈ d.sections) (own : name ∈ s.remoteNames) (set : c.mid = some name) :
    (c.retarget r.inward?).mid = some s.name ∧
      (¬ s.isSimulcast → c.retarget r.inward? = c) := by
  by_cases simulcast : s.isSimulcast
  · have inside := Document.mem_simulcasts.mpr ⟨member, simulcast⟩
    exact ⟨Candidate.retarget_mid set (surveyed.inward?_of_simulcast inside own),
      fun plain => absurd simulcast plain⟩
  · rw [Section.remoteNames_of_plain simulcast, List.mem_singleton] at own
    subst own
    have kept := Candidate.retarget_of_kept set
      (surveyed.inward?_of_plain acceptable member simulcast)
    rw [kept]
    exact ⟨set, fun _ => rfl⟩

end Registry.Surveyed

namespace Candidate

/-- What comes back of a candidate for a section of the offer that was sent outward and inward. -/
structure Returns (d : Document) (c back : Candidate) : Prop where
  mid : back.mid = c.mid
  line : back.SameLine c
  whole : (∀ s ∈ d.simulcasts, c.mid ≠ some s.name) → back = c

/-- A candidate from the peer is for a section at the peer. It ends up where `place` puts the
section of the offer that was fanned out to that one. -/
structure EndsAt (d : Document) (place : Section → Option String) (c moved : Candidate) :
    Prop where
  line : moved.SameLine c
  unset : c.mid = none → moved = c
  set : ∀ mid, c.mid = some mid → ∃ s ∈ d.sections, mid ∈ s.remoteNames ∧
    moved.mid = place s ∧ (¬ s.isSimulcast → moved = c)

variable {d : Document} {c back moved : Candidate} {place : Section → Option String}

theorem Returns.normal (returns : c.Returns d back) (acceptable : d.Acceptable) :
    c.Returns d.normal back where
  mid := returns.mid
  line := returns.line
  whole := by
    intro other
    apply returns.whole
    intro s simulcast
    have inside : s.normal ∈ d.normal.simulcasts := by
      rw [acceptable.normal_simulcasts]
      exact List.mem_map_of_mem simulcast
    rw [← s.normal_name]
    exact other s.normal inside

theorem EndsAt.normal (ends : c.EndsAt d place moved) (acceptable : d.Acceptable)
    (same : ∀ s ∈ d.sections, place s.normal = place s) : c.EndsAt d.normal place moved where
  line := ends.line
  unset := ends.unset
  set := by
    intro mid set
    obtain ⟨s, member, own, there, plain⟩ := ends.set mid set
    have simulcast := Section.normal_isSimulcast (acceptable.surveyable.complete s member)
    refine ⟨s.normal, List.mem_map_of_mem member, ?_, (same s member).symm ▸ there, ?_⟩
    · rwa [acceptable.normal_remoteNames member]
    · rwa [simulcast]

theorem EndsAt.mid_mem (ends : c.EndsAt d (fun s => some s.name) moved) (mid : String)
    (set : moved.mid = some mid) : mid ∈ d.names := by
  cases before : c.mid with
  | none => simp [ends.unset before, before] at set
  | some origin =>
      obtain ⟨s, member, -, there, -⟩ := ends.set origin before
      obtain rfl : s.name = mid := by simpa [there] using set
      exact List.mem_map_of_mem member

end Candidate

namespace Registry.Surveyed

variable {d : Document} {r : Registry} {c : Candidate}

theorem retarget_returns (surveyed : Surveyed d.bindings d.sections r) (distinct : d.names.Nodup)
    (acceptable : d.Acceptable) (known : ∀ mid, c.mid = some mid → mid ∈ d.names) :
    (∀ mid, (c.retarget r.outward?).mid = some mid → mid ∈ d.outward.names) ∧
      c.Returns d ((c.retarget r.outward?).retarget r.inward?) := by
  have line : ((c.retarget r.outward?).retarget r.inward?).SameLine c := by
    obtain ⟨line, ufrag⟩ := c.retarget_sameLine r.outward?
    obtain ⟨line', ufrag'⟩ := (c.retarget r.outward?).retarget_sameLine r.inward?
    exact ⟨line'.trans line, ufrag'.trans ufrag⟩
  cases set : c.mid with
  | none =>
      have kept : c.retarget r.outward? = c := Candidate.retarget_of_none set
      rw [kept] at line ⊢
      rw [Candidate.retarget_of_none set]
      exact ⟨by simp [set], rfl, ⟨rfl, rfl⟩, fun _ => rfl⟩
  | some mid =>
      obtain ⟨s, member, rfl⟩ := List.mem_map.mp (known mid set)
      obtain ⟨first, sentPlain⟩ := surveyed.retarget_outward distinct acceptable member set
      have some : s.remoteNames ≠ [] := acceptable.remoteNames_ne_nil member
      obtain ⟨name, names, given⟩ := List.exists_cons_of_ne_nil some
      rw [given, List.head?_cons] at first
      have own : name ∈ s.remoteNames := by simp [given]
      obtain ⟨back, backPlain⟩ := surveyed.retarget_inward acceptable member own first
      refine ⟨?_, back.trans set.symm, line, ?_⟩
      · intro mid at'
        obtain rfl : name = mid := by simpa [first] using at'
        exact d.outward_names_perm.symm.subset (List.mem_flatMap.mpr ⟨s, member, own⟩)
      · intro other
        have plain : ¬ s.isSimulcast := fun simulcast =>
          other s (Document.mem_simulcasts.mpr ⟨member, simulcast⟩) set
        rw [backPlain plain, sentPlain plain]

theorem retarget_endsAt (surveyed : Surveyed d.bindings d.sections r) (distinct : d.names.Nodup)
    (acceptable : d.Acceptable) (known : ∀ mid, c.mid = some mid → mid ∈ d.outward.names) :
    c.EndsAt d (fun s => some s.name) (c.retarget r.inward?) ∧
      c.EndsAt d (·.remoteNames.head?) ((c.retarget r.inward?).retarget r.outward?) := by
  have line := c.retarget_sameLine r.inward?
  have line' := (c.retarget r.inward?).retarget_sameLine r.outward?
  have origin : ∀ mid, c.mid = some mid → ∃ s ∈ d.sections, mid ∈ s.remoteNames ∧
      (c.retarget r.inward?).mid = some s.name ∧
      (¬ s.isSimulcast → c.retarget r.inward? = c) := by
    intro mid set
    obtain ⟨s, member, own⟩ := List.mem_flatMap.mp (d.outward_names_perm.subset (known mid set))
    exact ⟨s, member, own, surveyed.retarget_inward acceptable member own set⟩
  refine ⟨⟨line, Candidate.retarget_of_none, origin⟩,
    ⟨⟨line'.1.trans line.1, line'.2.trans line.2⟩, ?_, ?_⟩⟩
  · intro unset
    rw [Candidate.retarget_of_none unset, Candidate.retarget_of_none unset]
  · intro mid set
    obtain ⟨s, member, own, back, plain⟩ := origin mid set
    obtain ⟨first, sentPlain⟩ := surveyed.retarget_outward distinct acceptable member back
    exact ⟨s, member, own, first, fun isPlain => (sentPlain isPlain).trans (plain isPlain)⟩

end Registry.Surveyed

namespace Negotiation

variable {n m : Negotiation} {offer : Description} {views : Views} {cs : List Candidate}

/-- Candidates pass between the sections of the offer and those of the peer at any time after the
offer. Sent outward and inward they are for the same sections again; sent inward and outward they
are for the first section of those that the same section of the offer was fanned out to. -/
theorem candidates_translate (fresh : n.phase = .fresh) (distinct : offer.document.names.Nodup)
    (patched : n.perform (patchOffer offer) = (.ok views, m)) (calls : List Call)
    (given : cs ≠ []) :
    ((∀ c ∈ cs, ∀ mid, c.mid = some mid → mid ∈ views.localView.document.names) →
      ∃ sent back, ((m.run calls).perform (offererCandidates cs)).1 = .ok sent ∧
        (∀ c ∈ sent, ∀ mid, c.mid = some mid → mid ∈ views.remoteView.document.names) ∧
        ((m.run calls).perform (answererCandidates sent)).1 = .ok back ∧
        List.Forall₂ (Candidate.Returns views.localView.document) cs back) ∧
    ((∀ c ∈ cs, ∀ mid, c.mid = some mid → mid ∈ views.remoteView.document.names) →
      ∃ received back, ((m.run calls).perform (answererCandidates cs)).1 = .ok received ∧
        (∀ c ∈ received, ∀ mid, c.mid = some mid → mid ∈ views.localView.document.names) ∧
        List.Forall₂ (Candidate.EndsAt views.localView.document fun s => some s.name)
          cs received ∧
        ((m.run calls).perform (offererCandidates received)).1 = .ok back ∧
        List.Forall₂ (Candidate.EndsAt views.localView.document (·.remoteNames.head?))
          cs back) := by
  obtain ⟨-, acceptable, surveyed, phase, rfl⟩ := patchOffer_eq_ok fresh distinct patched
  obtain ⟨late, registry⟩ := run_late (n := m) (by simp [phase]) calls
  have sent : cs.map (Candidate.retarget m.registry.outward?) ≠ [] := by simpa using given
  have received : cs.map (Candidate.retarget m.registry.inward?) ≠ [] := by simpa using given
  simp only [perform_offererCandidates late, perform_answererCandidates late, registry,
    Document.normal_names]
  constructor
  · intro known
    have each := fun c member => surveyed.retarget_returns distinct acceptable (known c member)
    refine ⟨_, _, Candidate.retargetAll_of_ne_nil given, ?_,
      Candidate.retargetAll_of_ne_nil sent, ?_⟩
    · intro c member
      obtain ⟨c, there, rfl⟩ := List.mem_map.mp member
      exact (each c there).1
    · rw [List.map_map, List.forall₂_map_right_iff, List.forall₂_same]
      exact fun c member => (each c member).2.normal acceptable
  · intro known
    have each := fun c member => surveyed.retarget_endsAt distinct acceptable (known c member)
    refine ⟨_, _, Candidate.retargetAll_of_ne_nil given, ?_, ?_,
      Candidate.retargetAll_of_ne_nil received, ?_⟩
    · intro c member
      obtain ⟨c, there, rfl⟩ := List.mem_map.mp member
      exact (each c there).1.mid_mem
    · rw [List.forall₂_map_right_iff, List.forall₂_same]
      exact fun c member => (each c member).1.normal acceptable fun s _ => by rw [s.normal_name]
    · rw [List.map_map, List.forall₂_map_right_iff, List.forall₂_same]
      exact fun c member => (each c member).2.normal acceptable fun s inside => by
        rw [acceptable.normal_remoteNames inside]

/-- Candidates of `layeredOffer`, whose section "v" the peer knows as "v" and "lo". -/
theorem layered_candidates_translate :
    ∃ views m, start.phase = .fresh ∧ layeredOffer.document.names.Nodup ∧
      start.perform (patchOffer layeredOffer) = (.ok views, m) ∧
      (∃ sent back, ((m.run [.patchAnswer layeredAnswer]).perform
          (offererCandidates [.ofSection "v" 1 "x", .ofSection "a" 7 "y"])).1 = .ok sent ∧
        (∀ c ∈ sent, ∀ mid, c.mid = some mid → mid ∈ views.remoteView.document.names) ∧
        ((m.run [.patchAnswer layeredAnswer]).perform (answererCandidates sent)).1 = .ok back ∧
        List.Forall₂ (Candidate.Returns views.localView.document)
          [.ofSection "v" 1 "x", .ofSection "a" 7 "y"] back) ∧
      ∃ received back, ((m.run [.patchAnswer layeredAnswer]).perform
          (answererCandidates [.ofSection "lo" 2 "x", .ofSection "a" 7 "y"])).1 = .ok received ∧
        (∀ c ∈ received, ∀ mid, c.mid = some mid → mid ∈ views.localView.document.names) ∧
        List.Forall₂ (Candidate.EndsAt views.localView.document fun s => some s.name)
          [.ofSection "lo" 2 "x", .ofSection "a" 7 "y"] received ∧
        ((m.run [.patchAnswer layeredAnswer]).perform (offererCandidates received)).1 = .ok back ∧
        List.Forall₂ (Candidate.EndsAt views.localView.document (·.remoteNames.head?))
          [.ofSection "lo" 2 "x", .ofSection "a" 7 "y"] back := by
  have distinct : layeredOffer.document.names.Nodup := by decide
  refine ⟨_, _, rfl, distinct, rfl, ?_, ?_⟩
  · refine (candidates_translate (n := start) rfl distinct rfl _ (by simp)).1 ?_
    simp only [Candidate.ofSection, List.forall_mem_cons, List.not_mem_nil, Option.some.injEq,
      forall_eq', false_implies, implies_true, and_true]
    decide
  · refine (candidates_translate (n := start) rfl distinct rfl _ (by simp)).2 ?_
    simp only [Candidate.ofSection, List.forall_mem_cons, List.not_mem_nil, Option.some.injEq,
      forall_eq', false_implies, implies_true, and_true]
    decide

end Negotiation

end Fanout
