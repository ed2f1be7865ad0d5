import Fanout.Fault
import Fanout.Names
import Fanout.Session.Media
import Fanout.Session.Transport

/-! # Session documents

A document lists media sections, groups of sections and transport bindings. Groups and bindings
refer to sections by name only, so each list can change without the others; `Valid` says when they
agree, and `validate` finds the first place where they do not.

Both sides of a negotiation list the sections in the order of the offer. `arrange` puts the sections
of a document into a given order, which has to name each of them exactly once; sections of the same
name keep their order.
-/

namespace Fanout

inductive Protocol where
  | rtp
  | sctp
  | other
  deriving Repr, DecidableEq, Inhabited

structure Section where
  name : String
  protocol : Protocol
  media : Media
  deriving Repr, DecidableEq, Inhabited

structure Group where
  semantics : String
  members : List String
  deriving Repr, DecidableEq, Inhabited

namespace Group

/-- The semantics of the group whose sections share a transport. -/
def bundleSemantics : String := "BUNDLE"

/-- Adds a member unless the group has it already. -/
def add (g : Group) (name : String) : Group :=
  if name ∈ g.members then g else { g with members := g.members ++ [name] }

def ofNames (semantics : String) (names : List String) : Group :=
  names.foldl add ⟨semantics, []⟩

end Group

/-- The sections of a session, how they are grouped and what they travel over. -/
structure Document where
  sections : List Section
  groups : List Group
  bindings : List Binding
  deriving Repr, DecidableEq, Inhabited

/-- Takes sections by name, the first of each name. The results are the sections taken, in the
order of the names, and the sections left. -/
def Section.pick (sections : List Section) :
    List String → Except Fault (List Section × List Section)
  | [] => .ok ([], sections)
  | name :: rest =>
    match sections.find? (·.name = name) with
    | none => .error (.sectionNotFound name)
    | some s => do
      let (taken, left) ← pick (sections.eraseP (·.name = name)) rest
      .ok (s :: taken, left)

namespace Document

def empty : Document :=
  ⟨[], [], []⟩

def names (d : Document) : List String :=
  d.sections.map (·.name)

/-- The first section of a name. -/
def section? (d : Document) (name : String) : Option Section :=
  d.sections.find? (·.name = name)

def add (d : Document) (s : Section) : Document :=
  { d with sections := d.sections ++ [s] }

def remove? (d : Document) (name : String) : Option Document :=
  if name ∈ d.names then some { d with sections := d.sections.eraseP (·.name = name) } else none

def renameAt? (d : Document) (index : Nat) (name : String) : Option Document :=
  if index < d.sections.length then
    some { d with sections := d.sections.modify index fun s => { s with name := name } }
  else none

def setMedia (d : Document) (name : String) (media : Media) : Document :=
  { d with
    sections := d.sections.modify (d.sections.findIdx (·.name = name)) fun s =>
      { s with media := media } }

def group? (d : Document) (semantics : String) : Option Group :=
  d.groups.find? (·.semantics = semantics)

def addGroup (d : Document) (g : Group) : Document :=
  { d with groups := d.groups ++ [g] }

def removeGroup? (d : Document) (semantics : String) : Option Document :=
  if (d.group? semantics).isSome then
    some { d with groups := d.groups.eraseP (·.semantics = semantics) }
  else none

/-- The first transport bound to a name. -/
def binding? (d : Document) (name : String) : Option Binding :=
  d.bindings.find? (·.name = name)

def addBinding (d : Document) (name : String) (transport : Transport) : Document :=
  { d with bindings := d.bindings ++ [⟨name, transport⟩] }

/-- Puts all sections into one bundle group, in place of any bundle groups there were. -/
def bundle (d : Document) : Document :=
  { d with
    groups := d.groups.filter (·.semantics ≠ Group.bundleSemantics) ++
      [Group.ofNames Group.bundleSemantics d.names] }

/-- Puts the sections of a document into the order of the names. -/
def arrange (d : Document) (order : List String) : Except Fault Document := do
  let (taken, left) ← Section.pick d.sections order
  if left.isEmpty then .ok { d with sections := taken }
  else .error (.orderMismatch order d.names)

/-- Section names are distinct, and groups and bindings refer to sections only. -/
def Valid (d : Document) : Prop :=
  d.names.Nodup ∧ (∀ g ∈ d.groups, ∀ name ∈ g.members, name ∈ d.names) ∧
    ∀ b ∈ d.bindings, b.name ∈ d.names

instance (d : Document) : Decidable d.Valid := by
  unfold Valid
  infer_instance

/-- The first reference of a document to a section it lacks: groups come before bindings. -/
def firstDangling? (d : Document) : Option Fault :=
  let inGroups := d.groups.findSome? fun g =>
    (g.members.find? (· ∉ d.names)).map (Fault.unknownName ("group " ++ g.semantics))
  inGroups <|>
    (d.bindings.find? (·.name ∉ d.names)).map fun b => Fault.unknownName "transport info" b.name

/-- Checks that a document is valid. A repeated name is reported before a dangling one. -/
def validate (d : Document) : Except Fault Unit :=
  match (Names.firstRepeated? [] d.names).map Fault.duplicateName <|> d.firstDangling? with
  | some fault => .error fault
  | none => .ok ()

end Document

end Fanout
