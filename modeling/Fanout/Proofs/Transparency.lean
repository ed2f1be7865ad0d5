import Fanout.Proofs.Candidates
import Fanout.Proofs.Filling

/-! # Negotiations without simulcast

Where no section of an offer is a simulcast section, its survey notes the names of the sections and
does nothing else (`survey_plain`). So it finds no fault, whatever else may be wrong with the
document, and the registry that it leaves has no entry. All calls after such an offer hand on what
they are given.
-/

namespace Fanout

namespace Registry

variable {d : Document} {sections : List Section}

def ofPlain (names : List String) : Registry :=
  { empty with order := names }

theorem walk_plain (bindings : List Binding) (r : Registry)
    (plain : ∀ s ∈ sections, ¬ s.isSimulcast) :
    r.walk bindings sections =
      ({ r with order := r.order ++ sections.map (·.name) }, sections, none) := by
  induction sections generalizing r with
  | nil => simp [walk]
  | cons s rest ih =>
      have first := visit_plain bindings r (plain s List.mem_cons_self)
      have onward := ih (r.note s.name) fun t member => plain t (List.mem_cons_of_mem s member)
      rw [walk_cons first, onward]
      simp [note]

theorem survey_plain (plain : d.simulcasts = []) :
    empty.survey d = ⟨ofPlain d.names, d, none⟩ := by
  have walked := walk_plain d.bindings empty (List.filter_eq_nil_iff.mp plain)
  rw [survey, walked]
  rfl

end Registry

namespace Candidate

theorem retargetAll_of_unknown {target? : String → Option String} {cs : List Candidate}
    (given : cs ≠ []) (unknown : ∀ name, target? name = none) :
    retargetAll target? cs = .ok cs := by
  have kept : ∀ c ∈ cs, c.retarget target? = c := by
    intro c _
    cases set : c.mid with
    | none => exact retarget_of_none set
    | some mid => exact retarget_of_kept set (unknown mid)
  rw [retargetAll_of_ne_nil given, List.map_congr_left kept, List.map_id']

end Candidate

namespace Views

variable {offer answer : Description} {r : Registry}

theorem ofOffer_of_plain (isOffer : offer.type = .offer) (plain : offer.document.simulcasts = []) :
    ofOffer offer = .ok (.ofPlain offer.document.names, ⟨offer, offer⟩) := by
  rw [ofOffer, Description.expect, if_pos isOffer, Registry.survey_plain plain]
  rfl

theorem ofAnswer_of_plain (isAnswer : answer.type = .answer) (plain : ¬ r.hasSimulcast) :
    ofAnswer r answer = .ok ⟨answer, answer⟩ := by
  rw [ofAnswer, Description.expect, if_pos isAnswer, Registry.relayAnswer, if_neg plain]
  rfl

end Views

namespace Negotiation

variable {n : Negotiation} {offer : Description}

theorem perform_patchOffer_plain (fresh : n.phase = .fresh) (isOffer : offer.type = .offer)
    (plain : offer.document.simulcasts = []) :
    n.perform (patchOffer offer) =
      (.ok ⟨offer, offer⟩, ⟨.ofPlain offer.document.names, .offerPatched⟩) := by
  rw [perform_patchOffer fresh, Views.ofOffer_of_plain isOffer plain]

/-- An offer without simulcast sections is accepted as it is, and so is everything that follows it:
answers, and candidates of either side. -/
theorem transparent_of_plain (fresh : n.phase = .fresh) (isOffer : offer.type = .offer)
    (plain : offer.document.simulcasts = []) :
    ∃ m, n.perform (patchOffer offer) = (.ok ⟨offer, offer⟩, m) ∧
      ∀ calls,
        (∀ answer, answer.type = .answer →
          ((m.run calls).perform (patchAnswer answer)).1 = .ok ⟨answer, answer⟩) ∧
        ∀ cs, cs ≠ [] →
          ((m.run calls).perform (offererCandidates cs)).1 = .ok cs ∧
          ((m.run calls).perform (answererCandidates cs)).1 = .ok cs := by
  refine ⟨_, perform_patchOffer_plain fresh isOffer plain, fun calls => ?_⟩
  obtain ⟨late, registry⟩ :=
    run_late (n := ⟨.ofPlain offer.document.names, .offerPatched⟩) (by simp) calls
  simp only [patchAnswer_result late, perform_offererCandidates late,
    perform_answererCandidates late, registry]
  constructor
  · intro answer isAnswer
    exact Views.ofAnswer_of_plain isAnswer (by simp [Registry.hasSimulcast, Registry.ofPlain,
      Registry.empty])
  · intro cs given
    exact ⟨Candidate.retargetAll_of_unknown given fun _ => rfl,
      Candidate.retargetAll_of_unknown given fun _ => rfl⟩

/-- An offer of two sections of one name that layers audio, groups a section that it lacks, and
binds another. -/
def looseOffer : Description where
  type := .offer
  sessionId := "1"
  sessionVersion := "2"
  document := {
    sections := [
      ⟨"a", .rtp, { Media.ofKind .audio with simulcast := ⟨Layers.ofRids ["hi", "lo"], []⟩ }⟩,
      ⟨"a", .rtp, .ofKind .video⟩]
    groups := [⟨"LS", ["v"]⟩]
    bindings := [⟨"w", default⟩] }

theorem looseOffer_transparent :
    start.phase = .fresh ∧ looseOffer.type = .offer ∧ looseOffer.document.simulcasts = [] ∧
      ∃ m, start.perform (patchOffer looseOffer) = (.ok ⟨looseOffer, looseOffer⟩, m) ∧
        layeredAnswer.type = .answer ∧
        ((m.run [.patchOffer looseOffer]).perform (patchAnswer layeredAnswer)).1 =
          .ok ⟨layeredAnswer, layeredAnswer⟩ ∧
        [Candidate.ofSection "hi" 1 "x"] ≠ [] ∧
        ((m.run [.patchOffer looseOffer]).perform
          (offererCandidates [.ofSection "hi" 1 "x"])).1 = .ok [.ofSection "hi" 1 "x"] ∧
        ((m.run [.patchOffer looseOffer]).perform
          (answererCandidates [.ofSection "hi" 1 "x"])).1 = .ok [.ofSection "hi" 1 "x"] := by
  have plain : looseOffer.document.simulcasts = [] := by decide
  obtain ⟨m, patched, later⟩ := transparent_of_plain (n := start) rfl rfl plain
  obtain ⟨answers, candidates⟩ := later [.patchOffer looseOffer]
  have given : [Candidate.ofSection "hi" 1 "x"] ≠ [] := by simp
  exact ⟨rfl, rfl, plain, m, patched, rfl, answers _ rfl, given, candidates _ given⟩

end Negotiation

end Fanout
