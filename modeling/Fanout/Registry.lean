import Fanout.Session.Document

/-! # Registry of simulcast sections

What a negotiation remembers of its offer: the order of all sections, and for each simulcast
section what it takes to fan it out into one section per rid and to gather those sections again.
No name and no rid is registered twice, so each leads to at most one entry. Entries are found
through two indices, which hold positions and have to keep in step with the list of entries.

The two peers know a simulcast section under different names. Candidates for it move to the section
of its first rid on their way out, and candidates for the section of any rid move back.
-/

namespace Fanout

/-- A simulcast section of the offer. -/
structure Entry where
  name : String
  protocol : Protocol
  /-- The rids in the order of the offer; the first stands for the whole section. -/
  rids : List String
  simulcast : Simulcast
  midExtension : HeaderExtension
  ridExtension : HeaderExtension
  repairedRidExtension : HeaderExtension
  transport : Transport
  deriving Repr, DecidableEq, Inhabited

/-- The rid whose section stands for the whole simulcast section. -/
def Entry.firstRid (e : Entry) : String :=
  e.rids.headD ""

/-- The sections of an offer by name, and its simulcast sections in detail. -/
structure Registry where
  order : List String
  entries : List Entry
  /-- The position of the entry of a name; what is put in later comes first. -/
  nameIndex : List (String × Nat)
  /-- The position of the entry that a rid belongs to. -/
  ridIndex : List (String × Nat)
  deriving Repr, DecidableEq, Inhabited

namespace Registry

/-- A change to a registry that may fail; what it changed before it failed stays changed. -/
abbrev Change := ExceptT Fault (StateM Registry)

def empty : Registry :=
  ⟨[], [], [], []⟩

def hasSimulcast (r : Registry) : Bool :=
  !r.entries.isEmpty

def rids (r : Registry) : List String :=
  r.entries.flatMap (·.rids)

def byName? (r : Registry) (name : String) : Option Entry :=
  (r.nameIndex.lookup name).bind (r.entries[·]?)

/-- The simulcast section that a rid belongs to. -/
def byRid? (r : Registry) (rid : String) : Option Entry :=
  (r.ridIndex.lookup rid).bind (r.entries[·]?)

/-- Where a candidate for a local section belongs on the remote side. -/
def outward? (r : Registry) (name : String) : Option String :=
  (r.byName? name).map (·.firstRid)

/-- Where a candidate for a remote section belongs on the local side. -/
def inward? (r : Registry) (rid : String) : Option String :=
  (r.byRid? rid).map (·.name)

def perform {α : Type} (r : Registry) (change : Change α) : Except Fault α × Registry :=
  change.run.run r

/-- Registers a simulcast section unless its name or one of its rids is taken. Both indices get the
position that the entry will have. -/
def enroll (e : Entry) : Change Unit := do
  let r ← get
  if (r.nameIndex.lookup e.name).isSome then throw (.duplicateSection e.name)
  else
    match Names.firstRepeated? (r.ridIndex.map Prod.fst) e.rids with
    | some rid => throw (.duplicateRid rid)
    | none => do
      let position := r.entries.length
      modify fun r => { r with nameIndex := (e.name, position) :: r.nameIndex }
      modify fun r => { r with ridIndex := e.rids.map (·, position) ++ r.ridIndex }
      modify fun r => { r with entries := r.entries ++ [e] }

/-- The registry with one more simulcast section, if it can be registered. -/
def register (r : Registry) (e : Entry) : Except Fault Registry :=
  match r.perform (enroll e) with
  | (.ok (), registered) => .ok registered
  | (.error fault, _) => .error fault

/-- Notes a section of the offer, simulcast or not. -/
def note (r : Registry) (name : String) : Registry :=
  { r with order := r.order ++ [name] }

/-- The first rid that a section other than its own is named after. Fanning out would give that
section a namesake. -/
def clash? (r : Registry) : Option String :=
  r.entries.findSome? fun e => e.rids.find? fun rid => rid ∈ r.order && rid ≠ e.name

end Registry

namespace Candidate

/-- Moves a candidate to another section if `target?` knows one for its section. -/
def retarget (target? : String → Option String) (c : Candidate) : Candidate :=
  match c.mid.bind target? with
  | some name => c.moveTo name
  | none => c

/-- Moves all candidates; there has to be one. -/
def retargetAll (target? : String → Option String) (cs : List Candidate) :
    Except Fault (List Candidate) :=
  if cs.isEmpty then .error .noCandidates else .ok (cs.map (retarget target?))

end Candidate

end Fanout
