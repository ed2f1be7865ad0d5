import Fanout.Answer
import Fanout.Offer

/-! # Negotiations

One negotiation patches one offer, then answers to it, and candidates at any time in between. A
call that fails leaves the negotiation as it was.
-/

namespace Fanout

/-- How far a negotiation has come. -/
inductive Phase where
  | fresh
  | offerPatched
  | answerPatched
  deriving Repr, DecidableEq, Inhabited

def Phase.word : Phase → String
  | .fresh => "new"
  | .offerPatched => "offer-patched"
  | .answerPatched => "answer-patched"

/-- The two views of one description: for the own side and for the peer. -/
structure Views where
  localView : Description
  remoteView : Description
  deriving Repr, DecidableEq

/-- What a negotiation remembers between calls. -/
structure Negotiation where
  registry : Registry
  phase : Phase
  deriving Repr, DecidableEq, Inhabited

inductive Call where
  | patchOffer (offer : Description)
  | patchAnswer (answer : Description)
  /-- Candidates of the side that made the offer. -/
  | offererCandidates (candidates : List Candidate)
  /-- Candidates of the side that answers. -/
  | answererCandidates (candidates : List Candidate)
  deriving Repr, DecidableEq

inductive Reply where
  | views (views : Views)
  | candidates (candidates : List Candidate)
  deriving Repr, DecidableEq

/-- What a call does. It may change the negotiation and it may fail; what it changed before it
failed stays changed. -/
abbrev Action := ExceptT Fault (StateM Negotiation)

namespace Registry

/-- The offer as the peer gets it. Without simulcast it is the offer itself. -/
def relayOffer (r : Registry) (offer : Description) : Except Fault Description :=
  if r.hasSimulcast then r.fanOut offer else .ok offer

/-- The answer as the offering side gets it. Without simulcast it is the answer itself. -/
def relayAnswer (r : Registry) (answer : Description) : Except Fault Description :=
  if r.hasSimulcast then r.gather answer else .ok answer

end Registry

namespace Views

/-- The views of an offer, and the registry that its survey fills. The local view is the offer with
its simulcast sections made explicit. -/
def ofOffer (offer : Description) : Except Fault (Registry × Views) := do
  offer.expect .offer
  let survey ← (Registry.empty.survey offer.document).checked
  let offer := { offer with document := survey.document }
  let remote ← survey.registry.relayOffer offer
  .ok (survey.registry, ⟨offer, remote⟩)

/-- The views of an answer to the offer that filled the registry. The local view is the answer
itself. -/
def ofAnswer (r : Registry) (answer : Description) : Except Fault Views := do
  answer.expect .answer
  let remote ← r.relayAnswer answer
  .ok ⟨answer, remote⟩

end Views

namespace Negotiation

def start : Negotiation :=
  ⟨.empty, .fresh⟩

def perform {α : Type} (n : Negotiation) (action : Action α) : Except Fault α × Negotiation :=
  action.run.run n

def requireFresh : Action Unit := do
  if (← get).phase = .fresh then return () else throw .offerAlreadyPatched

def requireOffer : Action Unit := do
  if (← get).phase = .fresh then throw .offerNotPatched else return ()

def patchOffer (offer : Description) : Action Views := do
  requireFresh
  let (registry, views) ← Views.ofOffer offer
  modify fun n => { n with registry := registry }
  modify fun n => { n with phase := .offerPatched }
  return views

def patchAnswer (answer : Description) : Action Views := do
  requireOffer
  let views ← Views.ofAnswer (← get).registry answer
  modify fun n => { n with phase := .answerPatched }
  return views

/-- The overrides met while patching an answer, whether or not it can be patched in the end. -/
def overrides (n : Negotiation) (answer : Description) : List Override :=
  match (n.perform requireOffer).1, answer.expect .answer with
  | .ok _, .ok _ => n.registry.overrides answer
  | _, _ => []

/-- Moves candidates of the offering side to the sections that the peer knows. -/
def offererCandidates (cs : List Candidate) : Action (List Candidate) := do
  requireOffer
  Candidate.retargetAll (← get).registry.outward? cs

/-- Moves candidates of the answering side to the sections of the offer. -/
def answererCandidates (cs : List Candidate) : Action (List Candidate) := do
  requireOffer
  Candidate.retargetAll (← get).registry.inward? cs

def respond : Call → Action Reply
  | .patchOffer offer => Reply.views <$> patchOffer offer
  | .patchAnswer answer => Reply.views <$> patchAnswer answer
  | .offererCandidates cs => Reply.candidates <$> offererCandidates cs
  | .answererCandidates cs => Reply.candidates <$> answererCandidates cs

/-- One call: what the caller gets, and the negotiation afterwards. -/
def step (n : Negotiation) (call : Call) : Except Fault Reply × Negotiation :=
  n.perform (respond call)

def run (n : Negotiation) (calls : List Call) : Negotiation :=
  calls.foldl (fun n call => (n.step call).2) n

end Negotiation

end Fanout
