import Fanout.Proofs.Transparency

/-! # Patching what was patched

Patching an offer is a projection on either side. A survey leaves every section as it would find it
again, so the local view fills the same registry and is patched to the same views
(`ofOffer_again`). This needs no distinct names, because the second survey goes through the very
steps of the first. The remote view has no simulcast section left (`outward_simulcasts`), so it is
handed on as it is.
-/

namespace Fanout

theorem Section.fannedOut_plain (s : Section) : ∀ t ∈ s.fannedOut, ¬ t.isSimulcast := by
  intro t member
  obtain ⟨rid, -, rfl⟩ := List.mem_map.mp member
  simp [isSimulcast, ridMedia, Media.hasSimulcast, Simulcast.isEmpty, default,
    instInhabitedSimulcast.default]

theorem Document.outward_simulcasts (d : Document) : d.outward.simulcasts = [] := by
  apply List.filter_eq_nil_iff.mpr
  intro s member
  rw [outward_sections, List.mem_append] at member
  cases member with
  | inl kept => exact (mem_plains.mp kept).2
  | inr added =>
      obtain ⟨origin, -, own⟩ := List.mem_flatMap.mp added
      exact origin.fannedOut_plain s own

namespace Registry

variable {bindings : List Binding} {r next : Registry} {s left : Section}
  {sections walked : List Section} {d : Document}

theorem visit_sound_iff (simulcast : s.isSimulcast) :
    r.visit bindings s = (next, left, none) ↔
      ∃ rids e, s.rids? = .ok rids ∧ Entry.ofSection bindings (s.explicit rids) rids = .ok e ∧
        (r.note s.name).perform (enroll e) = (.ok (), next) ∧ s.explicit rids = left := by
  simp only [visit, simulcast, if_true]
  cases s.rids? with
  | error fault => simp
  | ok rids =>
      simp only [Except.ok.injEq, exists_and_left, exists_eq_left']
      cases Entry.ofSection bindings (s.explicit rids) rids with
      | error fault => simp
      | ok e =>
          simp only [Except.ok.injEq, exists_eq_left']
          rcases (r.note s.name).perform (enroll e) with ⟨fault | done, registered⟩ <;> simp

theorem visit_again (visited : r.visit bindings s = (next, left, none)) :
    r.visit bindings left = (next, left, none) := by
  by_cases simulcast : s.isSimulcast
  · obtain ⟨rids, e, read, made, enrolled, rfl⟩ := (visit_sound_iff simulcast).mp visited
    obtain ⟨-, -, given, -⟩ := Section.rids?_eq_ok_iff.mp read
    rw [visit_sound_iff (Section.explicit_isSimulcast simulcast given),
      Section.explicit_rids? read, Section.explicit_name]
    refine ⟨rids, e, rfl, ?_, enrolled, Section.explicit_explicit s rids rids⟩
    rw [Section.explicit_explicit, made]
  · rw [visit_plain bindings r simulcast] at visited
    cases visited
    exact visit_plain bindings r simulcast

theorem walk_again (done : r.walk bindings sections = (next, walked, none)) :
    r.walk bindings walked = (next, walked, none) := by
  induction sections generalizing r walked with
  | nil =>
      cases done
      rfl
  | cons s rest ih =>
      rcases visited : r.visit bindings s with ⟨after, left, _ | fault⟩
      · rw [walk_cons visited] at done
        simp only [Prod.mk.injEq] at done
        obtain ⟨rfl, rfl, sound⟩ := done
        have onward := ih (r := after) (Prod.ext rfl (Prod.ext rfl sound))
        rw [walk_cons (visit_again visited), onward]
      · simp [walk, visited] at done

theorem survey_again (sound : (r.survey d).fault = none) :
    r.survey (r.survey d).document = r.survey d := by
  obtain ⟨passed, -⟩ := walk_of_survey sound
  have done : r.walk d.bindings d.sections =
      ((r.walk d.bindings d.sections).1, (r.walk d.bindings d.sections).2.1, none) := by
    rw [← passed]
  have again := walk_again done
  rw [← done] at again
  simp only [survey]
  rw [again]

end Registry

theorem Views.ofOffer_again {offer : Description} {r : Registry} {views : Views}
    (patched : ofOffer offer = .ok (r, views)) : ofOffer views.localView = .ok (r, views) := by
  obtain ⟨isOffer, sound, registered, own, relayed⟩ := ofOffer_eq_ok_iff.mp patched
  have again := Registry.survey_again sound
  rw [ofOffer_eq_ok_iff]
  rw [own] at relayed ⊢
  simp only [again]
  exact ⟨isOffer, sound, registered, trivial, relayed⟩

namespace Negotiation

variable {n m other : Negotiation} {offer : Description} {views : Views}

/-- Nothing is left to be patched in either view of an accepted offer: the local view is normal, and
the remote view has no simulcast section. Another negotiation that is offered the local view ends up
as the first one did. Offered the remote view, it takes it for both views and remembers no simulcast
section. -/
theorem patchOffer_again (fresh : n.phase = .fresh) (distinct : offer.document.names.Nodup)
    (patched : n.perform (patchOffer offer) = (.ok views, m)) (otherFresh : other.phase = .fresh) :
    views.localView.document.normal = views.localView.document ∧
    views.remoteView.document.simulcasts = [] ∧
    other.perform (patchOffer views.localView) = (.ok views, m) ∧
    ∃ plain, other.perform (patchOffer views.remoteView) =
        (.ok ⟨views.remoteView, views.remoteView⟩, plain) ∧
      plain.registry.entries = [] := by
  obtain ⟨outcome, phase⟩ := ofOffer_of_patchOffer fresh patched
  have again : other.perform (patchOffer views.localView) = (.ok views, m) := by
    rw [perform_patchOffer otherFresh, Views.ofOffer_again outcome, ← phase]
  obtain ⟨isOffer, -, -, -, rfl⟩ := patchOffer_eq_ok fresh distinct patched
  have noneLeft := offer.document.outward_simulcasts
  refine ⟨?_, noneLeft, again, _, perform_patchOffer_plain otherFresh isOffer noneLeft, rfl⟩
  -- patched again, the local view is made normal, and comes out as it went in
  have distinct' : offer.document.normal.names.Nodup := by rwa [Document.normal_names]
  obtain ⟨-, -, -, -, same⟩ := patchOffer_eq_ok otherFresh distinct' again
  exact (congrArg (fun views => views.localView.document) same).symm

theorem layeredOffer_again :
    ∃ views m, start.phase = .fresh ∧ layeredOffer.document.names.Nodup ∧
      start.perform (patchOffer layeredOffer) = (.ok views, m) ∧
      views.localView.document.normal = views.localView.document ∧
      views.remoteView.document.simulcasts = [] ∧
      start.perform (patchOffer views.localView) = (.ok views, m) ∧
      ∃ plain, start.perform (patchOffer views.remoteView) =
          (.ok ⟨views.remoteView, views.remoteView⟩, plain) ∧
        plain.registry.entries = [] := by
  have distinct : layeredOffer.document.names.Nodup := by decide
  exact ⟨_, _, rfl, distinct, rfl, patchOffer_again (n := start) rfl distinct rfl rfl⟩

end Negotiation

end Fanout
