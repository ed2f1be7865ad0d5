import Fanout.Negotiation
import Fanout.Proofs.Sections

/-! # Runs of a negotiation

Each call is read off its action once (`perform_patchOffer` and its siblings). Two facts then hold
of single calls: a call that fails changes nothing, and after the offer a reply depends on the
registry alone. `Reached` carries them through a run: of the calls that succeed, the first is the
one offer, and it fixes the registry for good.
-/

namespace Fanout

def Phase.rank : Phase → Nat
  | .fresh => 0
  | .offerPatched => 1
  | .answerPatched => 2

def Call.isOffer : Call → Bool
  | .patchOffer _ => true
  | _ => false

def Call.isAnswer : Call → Bool
  | .patchAnswer _ => true
  | _ => false

def Call.isCandidates : Call → Bool
  | .offererCandidates _ | .answererCandidates _ => true
  | _ => false

theorem Survey.checked_eq_ok_iff {survey survey' : Survey} :
    survey.checked = .ok survey' ↔ survey.fault = none ∧ survey = survey' := by
  unfold checked
  split
  · rename_i stopped
    simp [stopped]
  · rename_i sound
    simp [sound]

theorem Views.ofOffer_eq_ok_iff {offer : Description} {r : Registry} {views : Views} :
    ofOffer offer = .ok (r, views) ↔
      offer.type = .offer ∧ (Registry.empty.survey offer.document).fault = none ∧
      r = (Registry.empty.survey offer.document).registry ∧
      views.localView =
        { offer with document := (Registry.empty.survey offer.document).document } ∧
      r.relayOffer views.localView = .ok views.remoteView := by
  simp only [ofOffer, bind_eq_ok, Survey.checked_eq_ok_iff]
  constructor
  · rintro ⟨⟨⟩, expected, survey, ⟨sound, rfl⟩, remote, relayed, same⟩
    cases same
    have isOffer : offer.type = .offer := by
      by_contra other
      simp [Description.expect, other] at expected
    exact ⟨isOffer, sound, rfl, rfl, relayed⟩
  · rintro ⟨isOffer, sound, rfl, own, relayed⟩
    rw [own] at relayed
    refine ⟨(), if_pos isOffer, _, ⟨sound, rfl⟩, views.remoteView, relayed, ?_⟩
    rw [← own]

namespace Negotiation

variable {α β : Type} {n m : Negotiation} {offer answer : Description} {cs : List Candidate}
  {call : Call} {fault : Fault} {done calls : List Call}

/-! ## Actions -/

@[simp] theorem perform_get (n : Negotiation) : n.perform (get : Action Negotiation) = (.ok n, n) :=
  rfl

@[simp] theorem perform_lift (n : Negotiation) (x : Except Fault α) :
    n.perform (liftM x : Action α) = (x, n) := by
  cases x <;> rfl

theorem perform_bind (n : Negotiation) (action : Action α) (next : α → Action β) :
    n.perform (action >>= next) =
      match n.perform action with
      | (.ok a, m) => m.perform (next a)
      | (.error fault, m) => (.error fault, m) := by
  have unfolded : n.perform (action >>= next) =
      ExceptT.bindCont next (n.perform action).1 (n.perform action).2 := rfl
  rw [unfolded]
  obtain ⟨result, m⟩ := n.perform action
  cases result <;> rfl

theorem perform_map (n : Negotiation) (f : α → β) (action : Action α) :
    n.perform (f <$> action) = ((n.perform action).1.map f, (n.perform action).2) := by
  rw [← bind_pure_comp, perform_bind]
  obtain ⟨result, m⟩ := n.perform action
  cases result <;> rfl

/-! ## Calls -/

theorem perform_requireFresh (n : Negotiation) :
    n.perform requireFresh =
      (if n.phase = .fresh then .ok () else .error .offerAlreadyPatched, n) := by
  simp only [requireFresh, perform_bind, perform_get]
  split <;> rfl

theorem perform_requireOffer (n : Negotiation) :
    n.perform requireOffer = (if n.phase = .fresh then .error .offerNotPatched else .ok (), n) := by
  simp only [requireOffer, perform_bind, perform_get]
  split <;> rfl

/-- An offer is patched only once, and only the offer itself decides whether it can be. -/
theorem perform_patchOffer (fresh : n.phase = .fresh) (offer : Description) :
    n.perform (patchOffer offer) =
      match Views.ofOffer offer with
      | .ok (registry, views) => (.ok views, ⟨registry, .offerPatched⟩)
      | .error fault => (.error fault, n) := by
  simp only [patchOffer, perform_bind, perform_requireFresh, fresh, if_true, perform_lift]
  cases Views.ofOffer offer with
  | error fault => rfl
  | ok outcome => rfl

theorem ofOffer_of_patchOffer {views : Views} (fresh : n.phase = .fresh)
    (patched : n.perform (patchOffer offer) = (.ok views, m)) :
    Views.ofOffer offer = .ok (m.registry, views) ∧ m.phase = .offerPatched := by
  rw [perform_patchOffer fresh] at patched
  cases outcome : Views.ofOffer offer with
  | error fault =>
      rw [outcome] at patched
      cases patched
  | ok found =>
      rw [outcome] at patched
      cases patched
      exact ⟨rfl, rfl⟩

theorem perform_patchOffer_late (late : n.phase ≠ .fresh) (offer : Description) :
    n.perform (patchOffer offer) = (.error .offerAlreadyPatched, n) := by
  simp only [patchOffer, perform_bind, perform_requireFresh, late, if_false]

theorem fresh_of_patchOffer {views : Views}
    (patched : n.perform (patchOffer offer) = (.ok views, m)) : n.phase = .fresh := by
  by_contra late
  rw [perform_patchOffer_late late] at patched
  cases patched

theorem perform_patchAnswer (late : n.phase ≠ .fresh) (answer : Description) :
    n.perform (patchAnswer answer) =
      match Views.ofAnswer n.registry answer with
      | .ok views => (.ok views, { n with phase := .answerPatched })
      | .error fault => (.error fault, n) := by
  simp only [patchAnswer, perform_bind, perform_requireOffer, late, if_false, perform_get,
    perform_lift]
  cases Views.ofAnswer n.registry answer with
  | error fault => rfl
  | ok views => rfl

theorem patchAnswer_result (late : n.phase ≠ .fresh) (answer : Description) :
    (n.perform (patchAnswer answer)).1 = Views.ofAnswer n.registry answer := by
  rw [perform_patchAnswer late]
  cases Views.ofAnswer n.registry answer <;> rfl

theorem perform_offererCandidates (late : n.phase ≠ .fresh) (cs : List Candidate) :
    n.perform (offererCandidates cs) = (Candidate.retargetAll n.registry.outward? cs, n) := by
  simp only [offererCandidates, perform_bind, perform_requireOffer, late, if_false, perform_get,
    perform_lift]

theorem perform_answererCandidates (late : n.phase ≠ .fresh) (cs : List Candidate) :
    n.perform (answererCandidates cs) = (Candidate.retargetAll n.registry.inward? cs, n) := by
  simp only [answererCandidates, perform_bind, perform_requireOffer, late, if_false, perform_get,
    perform_lift]

theorem step_fresh (fresh : n.phase = .fresh) (other : call.isOffer = false) :
    n.step call = (.error .offerNotPatched, n) := by
  cases call with
  | patchOffer => cases other
  | patchAnswer =>
      simp only [step, respond, perform_map, patchAnswer, perform_bind, perform_requireOffer,
        fresh, if_true]
      rfl
  | offererCandidates =>
      simp only [step, respond, perform_map, offererCandidates, perform_bind,
        perform_requireOffer, fresh, if_true]
      rfl
  | answererCandidates =>
      simp only [step, respond, perform_map, answererCandidates, perform_bind,
        perform_requireOffer, fresh, if_true]
      rfl

/-- All that a call can do: nothing but reply, patch the one offer, or patch an answer. -/
theorem step_cases (n : Negotiation) (call : Call) :
    ((n.step call).2 = n ∧
      ((n.step call).1.isOk = false ∨ (call.isCandidates ∧ n.phase ≠ .fresh))) ∨
    (∃ offer registry views, call = .patchOffer offer ∧ n.phase = .fresh ∧
      Views.ofOffer offer = .ok (registry, views) ∧
      n.step call = (.ok (.views views), ⟨registry, .offerPatched⟩)) ∨
    (∃ answer views, call = .patchAnswer answer ∧ n.phase ≠ .fresh ∧
      n.step call = (.ok (.views views), { n with phase := .answerPatched })) := by
  by_cases fresh : n.phase = .fresh
  · by_cases other : call.isOffer = false
    · rw [step_fresh fresh other]
      exact .inl ⟨rfl, .inl rfl⟩
    · obtain ⟨offer, rfl⟩ : ∃ offer, call = .patchOffer offer := by
        cases call <;> simp_all [Call.isOffer]
      simp only [step, respond, perform_map, perform_patchOffer fresh]
      cases patched : Views.ofOffer offer with
      | error fault => exact .inl ⟨rfl, .inl rfl⟩
      | ok outcome =>
          exact .inr (.inl ⟨offer, outcome.1, outcome.2, rfl, fresh, patched, rfl⟩)
  · cases call with
    | patchOffer offer =>
        simp only [step, respond, perform_map, perform_patchOffer_late fresh]
        exact .inl ⟨trivial, .inl rfl⟩
    | patchAnswer answer =>
        simp only [step, respond, perform_map, perform_patchAnswer fresh]
        cases Views.ofAnswer n.registry answer with
        | error fault => exact .inl ⟨rfl, .inl rfl⟩
        | ok views => exact .inr (.inr ⟨answer, views, rfl, fresh, rfl⟩)
    | offererCandidates cs =>
        simp only [step, respond, perform_map, perform_offererCandidates fresh]
        exact .inl ⟨trivial, .inr ⟨rfl, fresh⟩⟩
    | answererCandidates cs =>
        simp only [step, respond, perform_map, perform_answererCandidates fresh]
        exact .inl ⟨trivial, .inr ⟨rfl, fresh⟩⟩

theorem step_failed (failed : (n.step call).1 = .error fault) : (n.step call).2 = n := by
  rcases step_cases n call with ⟨kept, -⟩ | ⟨_, _, _, -, -, -, replied⟩ | ⟨_, _, -, -, replied⟩
  · exact kept
  · rw [replied] at failed
    cases failed
  · rw [replied] at failed
    cases failed

theorem step_candidates (passes : call.isCandidates) : (n.step call).2 = n := by
  rcases step_cases n call with ⟨kept, -⟩ | ⟨_, _, _, rfl, -⟩ | ⟨_, _, rfl, -⟩
  · exact kept
  · cases passes
  · cases passes

theorem step_late (late : n.phase ≠ .fresh) (call : Call) :
    (n.step call).2.phase ≠ .fresh ∧ (n.step call).2.registry = n.registry := by
  rcases step_cases n call with ⟨kept, -⟩ | ⟨_, _, _, -, fresh, -⟩ | ⟨_, _, -, -, replied⟩
  · rw [kept]
    exact ⟨late, rfl⟩
  · exact absurd fresh late
  · rw [replied]
    exact ⟨by simp, rfl⟩

theorem run_late (late : n.phase ≠ .fresh) (calls : List Call) :
    (n.run calls).phase ≠ .fresh ∧ (n.run calls).registry = n.registry := by
  induction calls generalizing n with
  | nil => exact ⟨late, rfl⟩
  | cons call rest ih =>
      obtain ⟨stillLate, same⟩ := step_late late call
      obtain ⟨atEnd, kept⟩ := ih stillLate
      exact ⟨atEnd, kept.trans same⟩

/-- After the offer a reply depends on the registry alone, and not on which calls came before. -/
theorem step_reply_congr (nLate : n.phase ≠ .fresh) (mLate : m.phase ≠ .fresh)
    (same : n.registry = m.registry) (call : Call) : (n.step call).1 = (m.step call).1 := by
  cases call with
  | patchOffer =>
      simp only [step, respond, perform_map, perform_patchOffer_late nLate,
        perform_patchOffer_late mLate]
  | patchAnswer answer =>
      simp only [step, respond, perform_map, perform_patchAnswer nLate, perform_patchAnswer mLate,
        same]
      cases Views.ofAnswer m.registry answer <;> rfl
  | offererCandidates =>
      simp only [step, respond, perform_map, perform_offererCandidates nLate,
        perform_offererCandidates mLate, same]
  | answererCandidates =>
      simp only [step, respond, perform_map, perform_answererCandidates nLate,
        perform_answererCandidates mLate, same]

/-! ## Runs -/

def accepted (n : Negotiation) : List Call → List Call
  | [] => []
  | call :: rest =>
    (if (n.step call).1.isOk then [call] else []) ++ (n.step call).2.accepted rest

/-- How a negotiation stands after it accepted the calls in `done`: it has not begun, or the first
of them is the only offer, whose survey filled the registry, and an answer among the others is what
moves it to its last phase. -/
inductive Reached : List Call → Negotiation → Prop where
  | initial : Reached [] start
  | patched {offer : Description} {views : Views} {rest : List Call} {n : Negotiation}
      (first : Views.ofOffer offer = .ok (n.registry, views))
      (others : ∀ call ∈ rest, call.isOffer = false)
      (phase : n.phase = if rest.any Call.isAnswer then .answerPatched else .offerPatched) :
      Reached (.patchOffer offer :: rest) n

theorem Reached.late {offer : Description} {rest : List Call}
    (reached : Reached (.patchOffer offer :: rest) n) : n.phase ≠ .fresh := by
  cases reached with
  | patched first others phase =>
      rw [phase]
      split <;> simp

theorem Reached.concat {offer : Description} {rest : List Call}
    (reached : Reached (.patchOffer offer :: rest) n) (other : call.isOffer = false)
    (registry : m.registry = n.registry)
    (phase : m.phase = if call.isAnswer then .answerPatched else n.phase) :
    Reached (.patchOffer offer :: (rest ++ [call])) m := by
  cases reached with
  | patched first others before =>
      rw [← registry] at first
      refine .patched first ?_ ?_
      · intro c member
        rcases List.mem_append.mp member with old | new
        · exact others c old
        · obtain rfl : c = call := by simpa using new
          exact other
      · simp only [phase, before, List.any_append, List.any_cons, List.any_nil, Bool.or_false]
        cases call.isAnswer <;> cases rest.any Call.isAnswer <;> rfl

theorem Reached.step (reached : Reached done n) (call : Call) :
    Reached (done ++ if (n.step call).1.isOk then [call] else []) (n.step call).2 := by
  rcases step_cases n call with
    ⟨kept, refused | ⟨passes, late⟩⟩ | ⟨offer, registry, views, rfl, fresh, first, replied⟩ |
      ⟨answer, views, rfl, late, replied⟩
  · simpa [kept, refused] using reached
  · rw [kept]
    by_cases taken : (n.step call).1.isOk
    · rw [if_pos taken]
      have plain : call.isOffer = false ∧ call.isAnswer = false := by
        cases call with
        | patchOffer | patchAnswer => cases passes
        | offererCandidates | answererCandidates => exact ⟨rfl, rfl⟩
      cases reached with
      | initial => exact absurd rfl late
      | patched first others phase =>
          exact (Reached.patched first others phase).concat plain.1 rfl (by simp [plain.2])
    · simpa [taken] using reached
  · rw [replied]
    cases reached with
    | initial => exact .patched first (by simp) rfl
    | patched first' others phase => exact absurd fresh (Reached.patched first' others phase).late
  · rw [replied]
    cases reached with
    | initial => exact absurd rfl late
    | patched first others phase => exact (Reached.patched first others phase).concat rfl rfl rfl

theorem Reached.run (reached : Reached done n) (calls : List Call) :
    Reached (done ++ n.accepted calls) (n.run calls) := by
  induction calls generalizing done n with
  | nil => simpa [accepted, Negotiation.run] using reached
  | cons call rest ih =>
      have next := ih (reached.step call)
      rwa [List.append_assoc] at next

theorem run_append (n : Negotiation) (calls later : List Call) :
    n.run (calls ++ later) = (n.run calls).run later :=
  List.foldl_append

theorem survey_of_ofOffer {registry : Registry} {views : Views}
    (patched : Views.ofOffer offer = .ok (registry, views)) :
    (Registry.empty.survey offer.document).fault = none ∧
      registry = (Registry.empty.survey offer.document).registry := by
  obtain ⟨-, sound, registered, -, -⟩ := Views.ofOffer_eq_ok_iff.mp patched
  exact ⟨sound, registered⟩

theorem registry_of_ofOffer {registry : Registry} {views : Views}
    (patched : Views.ofOffer offer = .ok (registry, views)) :
    registry = (Registry.empty.survey offer.document).registry :=
  (survey_of_ofOffer patched).2

theorem Reached.countP_isOffer_le (reached : Reached done n) : done.countP Call.isOffer ≤ 1 := by
  cases reached with
  | initial => simp
  | patched first others phase =>
      have none := List.countP_eq_zero.mpr fun call member => by simpa using others call member
      simp [List.countP_cons, none, Call.isOffer]

theorem Reached.phase_fresh_iff (reached : Reached done n) :
    n.phase = .fresh ↔ ∀ offer, .patchOffer offer ∉ done := by
  cases reached with
  | initial => simp [Negotiation.start]
  | @patched offer views rest _ first others phase =>
      have late := (Reached.patched first others phase).late
      simp only [late, List.mem_cons, not_or, false_iff, not_forall, not_and, not_not]
      exact ⟨offer, fun different => absurd rfl different⟩

theorem Reached.phase_answerPatched_iff (reached : Reached done n) :
    n.phase = .answerPatched ↔ ∃ answer, .patchAnswer answer ∈ done := by
  cases reached with
  | initial => simp [Negotiation.start]
  | @patched offer views rest _ first others phase =>
      have answers : rest.any Call.isAnswer ↔ ∃ answer, .patchAnswer answer ∈ rest := by
        rw [List.any_eq_true]
        constructor
        · rintro ⟨call, member, answers⟩
          cases call with
          | patchAnswer answer => exact ⟨answer, member⟩
          | patchOffer | offererCandidates | answererCandidates => cases answers
        · rintro ⟨answer, member⟩
          exact ⟨_, member, rfl⟩
      rw [phase]
      split <;> simp_all

theorem Reached.eq_start (reached : Reached done n) (fresh : n.phase = .fresh) :
    n = Negotiation.start := by
  cases reached with
  | initial => rfl
  | patched first others phase => exact absurd fresh (Reached.patched first others phase).late

theorem Reached.of_offer (reached : Reached done n) (accepted : .patchOffer offer ∈ done) :
    n.phase ≠ .fresh ∧ ∃ views, Views.ofOffer offer = .ok (n.registry, views) := by
  cases reached with
  | initial => cases accepted
  | patched first others phase =>
      refine ⟨(Reached.patched first others phase).late, ?_⟩
      rcases List.mem_cons.mp accepted with same | later
      · cases same
        exact ⟨_, first⟩
      · cases others _ later

theorem rank_le_step (n : Negotiation) (call : Call) :
    n.phase.rank ≤ (n.step call).2.phase.rank := by
  rcases step_cases n call with
    ⟨kept, -⟩ | ⟨offer, registry, views, -, fresh, -, replied⟩ | ⟨answer, views, -, -, replied⟩
  · exact Nat.le_of_eq (congrArg (·.phase.rank) kept.symm)
  · rw [replied, fresh]
    exact Nat.zero_le _
  · rw [replied]
    cases n.phase <;> simp [Phase.rank]

theorem rank_le_run (n : Negotiation) (calls : List Call) :
    n.phase.rank ≤ (n.run calls).phase.rank := by
  induction calls generalizing n with
  | nil => exact Nat.le_refl _
  | cons call rest ih => exact Nat.le_trans (rank_le_step n call) (ih (n.step call).2)

/-- Every run from the start, whatever its calls. At most one offer is accepted; the phase tells
what was accepted and never goes back; a call that fails or only passes candidates on changes
nothing; before the offer all other calls are refused; and after it the registry is the one that its
survey fills, and each reply is the one that the same call gets right after the offer. -/
theorem run_of_start (calls : List Call) :
    (start.accepted calls).countP Call.isOffer ≤ 1 ∧
    ((start.run calls).phase = .fresh ↔ ∀ offer, .patchOffer offer ∉ start.accepted calls) ∧
    ((start.run calls).phase = .answerPatched ↔
      ∃ answer, .patchAnswer answer ∈ start.accepted calls) ∧
    (∀ later, (start.run calls).phase.rank ≤ (start.run (calls ++ later)).phase.rank) ∧
    (∀ call fault, ((start.run calls).step call).1 = .error fault →
      ((start.run calls).step call).2 = start.run calls) ∧
    (∀ call, call.isCandidates → ((start.run calls).step call).2 = start.run calls) ∧
    ((start.run calls).phase = .fresh →
      (start.run calls).registry = .empty ∧
      ∀ call, call.isOffer = false →
        ((start.run calls).step call).1 = .error .offerNotPatched) ∧
    (∀ offer, .patchOffer offer ∈ start.accepted calls →
      (start.run calls).registry = (Registry.empty.survey offer.document).registry ∧
      ∀ call, call.isOffer = false →
        ((start.run calls).step call).1 = ((start.run [.patchOffer offer]).step call).1) := by
  have reached : Reached (start.accepted calls) (start.run calls) := by
    simpa using Reached.initial.run calls
  refine ⟨reached.countP_isOffer_le, reached.phase_fresh_iff, reached.phase_answerPatched_iff,
    ?_, fun _ _ => step_failed, fun _ => step_candidates, ?_, ?_⟩
  · intro later
    rw [run_append]
    exact rank_le_run _ later
  · intro fresh
    rw [reached.eq_start fresh]
    exact ⟨rfl, fun call other => by rw [step_fresh rfl other]⟩
  · intro offer accepted
    obtain ⟨late, views, patched⟩ := reached.of_offer accepted
    refine ⟨registry_of_ofOffer patched, fun call _ => ?_⟩
    have first : start.run [.patchOffer offer] = ⟨(start.run calls).registry, .offerPatched⟩ := by
      simp only [run, List.foldl_cons, List.foldl_nil, step, respond, perform_map,
        perform_patchOffer (n := start) rfl, patched]
    have patchedLate : (start.run [.patchOffer offer]).phase ≠ .fresh := by simp [first]
    exact step_reply_congr late patchedLate (by rw [first]) call

end Negotiation

end Fanout
