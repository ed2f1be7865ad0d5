import Fanout.Proofs.Registry
import Mathlib.Data.List.Basic

/-! # What a survey accepts and keeps

`offence?` says of one simulcast section, apart from any registry, which condition it violates first
when some rids are taken. A visit fails exactly with that fault, so a walk fails exactly at the
first offending section (`walk_fault_iff`). Where no section offends, the registry holds one entry
for each simulcast section in order, and the document differs only in those sections
(`Surveyed`, `walk_surveyed`).
-/

namespace Fanout

namespace Section

def ridNames (s : Section) : List String :=
  s.media.streams.flatMap fun stream => stream.rids.map (·.rid)

def normal (s : Section) : Section :=
  if s.isSimulcast then s.explicit s.ridNames else s

def extensionsOf (s : Section) (uri : String) : List HeaderExtension :=
  s.media.extensions.filter (·.uri = uri)

/-- The last extension with a uri is there and has a number other than 0. -/
def Numbers (s : Section) (uri : String) : Prop :=
  ∃ x, (s.extensionsOf uri).getLast? = some x ∧ x.id ≠ 0

theorem Numbers.extensionsOf_ne_nil {s : Section} {uri : String} (numbers : s.Numbers uri) :
    s.extensionsOf uri ≠ [] := by
  obtain ⟨x, last, -⟩ := numbers
  exact List.ne_nil_of_mem (List.mem_of_getLast? last)

/-- A section with all that fanning it out takes. -/
structure Complete (bindings : List Binding) (s : Section) : Prop where
  stream : ∃ stream, s.media.streams = [stream] ∧ stream.rids ≠ []
  rid : s.Numbers HeaderExtension.ridUri
  mid : s.Numbers HeaderExtension.midUri
  bound : ∃ b ∈ bindings, b.name = s.name

theorem lastOf_eq (s : Section) (uri : String) :
    HeaderExtension.lastOf s.media.extensions uri =
      ((s.extensionsOf uri).getLast?).getD default := by
  rw [HeaderExtension.lastOf, ← List.head?_filter, List.filter_reverse, List.head?_reverse,
    extensionsOf]

theorem lastOf_id_ne_zero_iff (s : Section) (uri : String) :
    (HeaderExtension.lastOf s.media.extensions uri).id ≠ 0 ↔ s.Numbers uri := by
  simp only [lastOf_eq, Numbers]
  cases (s.extensionsOf uri).getLast? with
  | none => simp [default, instInhabitedHeaderExtension.default]
  | some x => simp

instance (s : Section) (uri : String) : Decidable (s.Numbers uri) :=
  decidable_of_iff _ (s.lastOf_id_ne_zero_iff uri)

/-- The first condition of `Complete` that a section violates, in the order of their faults. -/
def lack? (bindings : List Binding) (s : Section) : Option Fault :=
  if s.media.streams.length ≠ 1 then some (.streamCount s.media.streams.length)
  else if s.ridNames = [] then some (.streamWithoutRids s.name)
  else if ¬ s.Numbers HeaderExtension.ridUri then some .ridExtensionRequired
  else if ¬ s.Numbers HeaderExtension.midUri then some .midExtensionRequired
  else if ¬ ∃ b ∈ bindings, b.name = s.name then some (.transportNotFound s.name)
  else none

/-- The first condition that a simulcast section violates when some rids are taken. Only a section
that is complete is asked for its rids. -/
def offence? (bindings : List Binding) (taken : List String) (s : Section) : Option Fault :=
  (s.lack? bindings).or ((Names.firstRepeated? taken s.ridNames).map .duplicateRid)

def simulcastRids (sections : List Section) : List String :=
  (sections.filter (·.isSimulcast)).flatMap (·.ridNames)

/-- Every simulcast section is complete, and no rid is given twice. -/
structure Surveyable (bindings : List Binding) (sections : List Section) : Prop where
  complete : ∀ s ∈ sections, s.isSimulcast → s.Complete bindings
  distinct : (simulcastRids sections).Nodup

section
variable {bindings : List Binding} {before rest : List Section} {s : Section}
  {taken : List String} {stream : Stream}

theorem ridNames_of_stream (one : s.media.streams = [stream]) :
    s.ridNames = stream.rids.map (·.rid) := by
  simp [ridNames, one]

theorem ridNames_eq_nil_iff (one : s.media.streams = [stream]) :
    s.ridNames = [] ↔ stream.rids = [] := by
  rw [ridNames_of_stream one, List.map_eq_nil_iff]

@[simp] theorem normal_name (s : Section) : s.normal.name = s.name := by
  unfold normal explicit; split <;> rfl

theorem normal_of_plain (plain : ¬ s.isSimulcast) : s.normal = s := by
  simp [normal, plain]

theorem kind_of_simulcast (simulcast : s.isSimulcast) : s.media.kind = .video := by
  simp only [isSimulcast, Bool.and_eq_true, decide_eq_true_eq] at simulcast
  exact simulcast.1

theorem Complete.ridNames_ne_nil (complete : s.Complete bindings) : s.ridNames ≠ [] := by
  obtain ⟨stream, one, given⟩ := complete.stream
  exact fun none => given ((ridNames_eq_nil_iff one).mp none)

theorem Complete.exists_find? (complete : s.Complete bindings) :
    ∃ own, bindings.find? (·.name = s.name) = some own := by
  obtain ⟨b, member, named⟩ := complete.bound
  exact Option.isSome_iff_exists.mp (List.find?_isSome.mpr ⟨b, member, decide_eq_true named⟩)

theorem lack?_eq_none_iff : s.lack? bindings = none ↔ s.Complete bindings := by
  constructor
  · intro none
    unfold lack? at none
    split at none
    · cases none
    rename_i one
    obtain ⟨stream, one⟩ := List.length_eq_one_iff.mp (not_not.mp one)
    simp only [ridNames_eq_nil_iff one] at none
    split at none
    · cases none
    rename_i given
    split at none
    · cases none
    rename_i rid
    split at none
    · cases none
    rename_i mid
    split at none
    · cases none
    rename_i bound
    exact ⟨⟨stream, one, given⟩, not_not.mp rid, not_not.mp mid, not_not.mp bound⟩
  · intro complete
    obtain ⟨stream, one, -⟩ := complete.stream
    simp [lack?, one, complete.ridNames_ne_nil, complete.rid, complete.mid, complete.bound]

theorem offence?_eq_none_iff :
    s.offence? bindings taken = none ↔
      s.Complete bindings ∧ s.ridNames.Nodup ∧ ∀ rid ∈ s.ridNames, rid ∉ taken := by
  simp only [offence?, Option.or_eq_none_iff, lack?_eq_none_iff, Option.map_eq_none_iff,
    Names.firstRepeated?_eq_none_iff]

theorem simulcastRids_append (before rest : List Section) :
    simulcastRids (before ++ rest) = simulcastRids before ++ simulcastRids rest := by
  simp [simulcastRids]

theorem simulcastRids_singleton (simulcast : s.isSimulcast) : simulcastRids [s] = s.ridNames := by
  simp [simulcastRids, simulcast]

theorem simulcastRids_plain (plain : ¬ s.isSimulcast) : simulcastRids [s] = [] := by
  simp [simulcastRids, plain]

theorem mem_simulcastRids {sections : List Section} {rid : String} :
    rid ∈ simulcastRids sections ↔ ∃ s ∈ sections, s.isSimulcast ∧ rid ∈ s.ridNames := by
  simp [simulcastRids, and_assoc]

theorem Surveyable.prefix (all : Surveyable bindings (before ++ rest)) :
    Surveyable bindings before where
  complete := fun s member => all.complete s (List.mem_append_left rest member)
  distinct := by
    have distinct := all.distinct
    rw [simulcastRids_append] at distinct
    exact (List.nodup_append.mp distinct).1

theorem surveyable_concat_iff (ready : Surveyable bindings before) :
    Surveyable bindings (before ++ [s]) ↔
      (s.isSimulcast → s.offence? bindings (simulcastRids before) = none) := by
  constructor
  · intro all simulcast
    have distinct := all.distinct
    rw [simulcastRids_append, simulcastRids_singleton simulcast] at distinct
    obtain ⟨-, own, apart⟩ := List.nodup_append.mp distinct
    refine offence?_eq_none_iff.mpr ⟨all.complete s (by simp) simulcast, own, ?_⟩
    intro rid mine old
    exact apart rid old rid mine rfl
  · intro sound
    constructor
    · intro t member simulcast
      rcases List.mem_append.mp member with old | new
      · exact ready.complete t old simulcast
      · obtain rfl : t = s := by simpa using new
        exact (offence?_eq_none_iff.mp (sound simulcast)).1
    · rw [simulcastRids_append]
      by_cases simulcast : s.isSimulcast
      · obtain ⟨-, own, fresh⟩ := offence?_eq_none_iff.mp (sound simulcast)
        rw [simulcastRids_singleton simulcast]
        exact ready.distinct.append own fun rid old mine => fresh rid mine old
      · rw [simulcastRids_plain simulcast, List.append_nil]
        exact ready.distinct

/-- Of the sections in `rest`, which follow those in `before`, the first to offend when all rids up
to it are taken does so by `fault`. -/
def FirstOffence (bindings : List Binding) (before rest : List Section) (fault : Fault) : Prop :=
  ∃ passed s after, rest = passed ++ s :: after ∧ Surveyable bindings (before ++ passed) ∧
    s.isSimulcast ∧ s.offence? bindings (simulcastRids (before ++ passed)) = some fault

theorem firstOffence_cons_of_sound {fault : Fault} (ready : Surveyable bindings (before ++ [s])) :
    FirstOffence bindings before (s :: rest) fault ↔
      FirstOffence bindings (before ++ [s]) rest fault := by
  constructor
  · rintro ⟨passed, t, after, split, all, simulcast, offends⟩
    cases passed with
    | nil =>
        obtain ⟨rfl, rfl⟩ := List.cons.inj split
        rw [List.append_nil] at all offends
        rw [(surveyable_concat_iff all).mp ready simulcast] at offends
        cases offends
    | cons first passed =>
        obtain ⟨rfl, rfl⟩ := List.cons.inj split
        rw [List.append_cons] at all offends
        exact ⟨passed, t, after, rfl, all, simulcast, offends⟩
  · rintro ⟨passed, t, after, rfl, all, simulcast, offends⟩
    rw [List.append_assoc] at all offends
    exact ⟨s :: passed, t, after, rfl, all, simulcast, offends⟩

theorem firstOffence_cons_of_offence {fault first : Fault} (ready : Surveyable bindings before)
    (simulcast : s.isSimulcast)
    (offends : s.offence? bindings (simulcastRids before) = some first) :
    FirstOffence bindings before (s :: rest) fault ↔ first = fault := by
  constructor
  · rintro ⟨passed, t, after, split, all, -, offends'⟩
    cases passed with
    | nil =>
        obtain ⟨rfl, rfl⟩ := List.cons.inj split
        rw [List.append_nil, offends] at offends'
        exact Option.some.inj offends'
    | cons second passed =>
        obtain ⟨rfl, rfl⟩ := List.cons.inj split
        have earlier : Surveyable bindings ((before ++ [s]) ++ passed) := by simpa using all
        rw [(surveyable_concat_iff ready).mp earlier.prefix simulcast] at offends
        cases offends
  · rintro rfl
    exact ⟨[], s, rest, rfl, by rwa [List.append_nil], simulcast, by rwa [List.append_nil]⟩

end

end Section

/-- The entry that a complete simulcast section is registered as. -/
def Entry.describing (bindings : List Binding) (s : Section) : Entry where
  name := s.name
  protocol := s.protocol
  rids := s.ridNames
  simulcast := ⟨Layers.ofRids s.ridNames, []⟩
  midExtension := HeaderExtension.lastOf s.media.extensions HeaderExtension.midUri
  ridExtension := HeaderExtension.lastOf s.media.extensions HeaderExtension.ridUri
  repairedRidExtension := HeaderExtension.lastOf s.media.extensions HeaderExtension.repairedRidUri
  transport := ((bindings.find? (·.name = s.name)).map (·.transport)).getD default

namespace Section

variable {bindings : List Binding} {before : List Section} {s : Section}

theorem rids?_eq (s : Section) :
    s.rids? =
      if s.media.streams.length ≠ 1 then .error (.streamCount s.media.streams.length)
      else if s.ridNames = [] then .error (.streamWithoutRids s.name)
      else .ok s.ridNames := by
  cases streams : s.media.streams with
  | nil => simp [rids?, streams]
  | cons stream others =>
      cases others with
      | nil =>
          simp only [rids?, streams, List.isEmpty_iff, ridNames_of_stream streams]
          simp
      | cons other rest => simp [rids?, streams]

theorem rids?_eq_ok_iff {rids : List String} :
    s.rids? = .ok rids ↔
      ∃ stream, s.media.streams = [stream] ∧ rids ≠ [] ∧ stream.rids.map (·.rid) = rids := by
  rw [rids?_eq]
  constructor
  · intro read
    split at read
    · cases read
    rename_i one
    obtain ⟨stream, one⟩ := List.length_eq_one_iff.mp (not_not.mp one)
    split at read
    · cases read
    rename_i given
    cases read
    exact ⟨stream, one, given, (ridNames_of_stream one).symm⟩
  · rintro ⟨stream, one, given, rfl⟩
    rw [← ridNames_of_stream one] at given ⊢
    rw [if_neg (by simp [one]), if_neg given]

@[simp] theorem explicit_name (s : Section) (rids : List String) :
    (s.explicit rids).name = s.name := rfl

@[simp] theorem explicit_protocol (s : Section) (rids : List String) :
    (s.explicit rids).protocol = s.protocol := rfl

@[simp] theorem explicit_kind (s : Section) (rids : List String) :
    (s.explicit rids).media.kind = s.media.kind := rfl

@[simp] theorem explicit_extensions (s : Section) (rids : List String) :
    (s.explicit rids).media.extensions = s.media.extensions := rfl

@[simp] theorem explicit_simulcast (s : Section) (rids : List String) :
    (s.explicit rids).media.simulcast = ⟨Layers.ofRids rids, []⟩ := rfl

theorem explicit_explicit (s : Section) (rids rids' : List String) :
    (s.explicit rids).explicit rids' = s.explicit rids' := by
  simp [explicit]

theorem explicit_isSimulcast {rids : List String} (simulcast : s.isSimulcast)
    (given : rids ≠ []) : (s.explicit rids).isSimulcast := by
  simp [isSimulcast, kind_of_simulcast simulcast, Media.hasSimulcast, Simulcast.isEmpty,
    Layers.ofRids, given]

theorem explicit_rids? {rids : List String} (read : s.rids? = .ok rids) :
    (s.explicit rids).rids? = .ok rids := by
  obtain ⟨stream, one, given, -⟩ := rids?_eq_ok_iff.mp read
  have sends : (s.explicit rids).media.streams =
      [{ stream with rids := rids.map fun rid => ⟨rid, .send⟩ }] := by
    simp [explicit, one]
  exact rids?_eq_ok_iff.mpr ⟨_, sends, given, by simp [Function.comp_def]⟩

/-- The entry is made from the explicit section, but what it lacks and what it says of extensions
and transport are those of the section before. -/
theorem ofSection_explicit (one : s.media.streams.length = 1) (given : s.ridNames ≠ []) :
    Entry.ofSection bindings (s.explicit s.ridNames) s.ridNames =
      match s.lack? bindings with
      | some fault => .error fault
      | none => .ok (Entry.describing bindings s) := by
  by_cases rid : s.Numbers HeaderExtension.ridUri
  swap
  · have absent := mt (s.lastOf_id_ne_zero_iff _).mp rid
    simp [Entry.ofSection, lack?, one, given, rid, not_not.mp absent]
  by_cases mid : s.Numbers HeaderExtension.midUri
  swap
  · have present := (s.lastOf_id_ne_zero_iff _).mpr rid
    have absent := mt (s.lastOf_id_ne_zero_iff _).mp mid
    simp [Entry.ofSection, lack?, one, given, rid, mid, present, not_not.mp absent]
  have ridPresent := (s.lastOf_id_ne_zero_iff _).mpr rid
  have midPresent := (s.lastOf_id_ne_zero_iff _).mpr mid
  have looked : bindings.find? (·.name = (s.explicit s.ridNames).name) =
      bindings.find? (·.name = s.name) := rfl
  simp only [Entry.ofSection, looked]
  cases found : bindings.find? (·.name = s.name) with
  | none =>
      have unbound : ¬ ∃ b ∈ bindings, b.name = s.name := by
        simpa using List.find?_eq_none.mp found
      simp [lack?, one, given, rid, mid, ridPresent, midPresent, unbound]
  | some b =>
      have bound : ∃ b ∈ bindings, b.name = s.name :=
        ⟨b, List.mem_of_find?_eq_some found, by simpa using List.find?_some found⟩
      simp [lack?, one, given, rid, mid, ridPresent, midPresent, bound, Entry.describing, found]

end Section

namespace Registry

variable {bindings : List Binding} {before rest : List Section} {base r r' : Registry}
  {s : Section} {fault : Fault}

theorem visit_plain (bindings : List Binding) (r : Registry) (plain : ¬ s.isSimulcast) :
    r.visit bindings s = (r.note s.name, s, none) := by
  simp [visit, plain]

/-- Why a visit of a simulcast section fails: what the section lacks comes first, then its name,
then its rids. -/
def refusal? (bindings : List Binding) (r : Registry) (s : Section) : Option Fault :=
  (s.lack? bindings).or
    (if s.name ∈ r.names then some (.duplicateSection s.name)
    else (Names.firstRepeated? r.rids s.ridNames).map .duplicateRid)

theorem refusal?_of_complete (complete : s.lack? bindings = none) :
    r.refusal? bindings s = (r.note s.name).conflict? (Entry.describing bindings s) := by
  rw [refusal?, complete]
  rfl

/-- All that a visit of a simulcast section does. The rids are made explicit as soon as they can be
read, also where the visit fails later. -/
theorem visit_simulcast (bindings : List Binding) (indexed : r.Indexed)
    (simulcast : s.isSimulcast) :
    r.visit bindings s =
      match r.refusal? bindings s with
      | some fault => (r.note s.name, if s.rids?.isOk then s.normal else s, some fault)
      | none => ((r.note s.name).enter (Entry.describing bindings s), s.normal, none) := by
  have normal : s.normal = s.explicit s.ridNames := by simp [Section.normal, simulcast]
  by_cases one : s.media.streams.length = 1
  swap
  · have unread : s.rids? = .error (.streamCount s.media.streams.length) := by
      rw [Section.rids?_eq, if_pos one]
    simp [visit, simulcast, unread, refusal?, Section.lack?, one, Except.isOk, Except.toBool]
  by_cases given : s.ridNames = []
  · have unread : s.rids? = .error (.streamWithoutRids s.name) := by
      rw [Section.rids?_eq, if_neg (not_not.mpr one), if_pos given]
    simp [visit, simulcast, unread, refusal?, Section.lack?, one, given, Except.isOk, Except.toBool]
  have read : s.rids? = .ok s.ridNames := by
    rw [Section.rids?_eq, if_neg (not_not.mpr one), if_neg given]
  simp only [visit, simulcast, if_true, read, Section.ofSection_explicit one given, normal]
  cases complete : s.lack? bindings with
  | some fault => simp [refusal?, complete, Except.isOk, Except.toBool]
  | none =>
      simp only [perform_enroll (note_indexed indexed s.name), ← refusal?_of_complete complete]
      cases r.refusal? bindings s <;> rfl

theorem refusal?_eq_offence? (free : s.name ∉ r.names) :
    r.refusal? bindings s = s.offence? bindings r.rids := by
  simp [refusal?, Section.offence?, free]

/-- What a walk over some sections in which nothing was refused has made of a registry. -/
structure Walked (bindings : List Binding) (base : Registry) (before : List Section)
    (r : Registry) : Prop where
  indexed : r.Indexed
  order : r.order = base.order ++ before.map (·.name)
  entries : r.entries =
    base.entries ++ (before.filter (·.isSimulcast)).map (Entry.describing bindings)

theorem Walked.plain (walked : Walked bindings base before r) (plain : ¬ s.isSimulcast) :
    Walked bindings base (before ++ [s]) (r.note s.name) where
  indexed := note_indexed walked.indexed s.name
  order := by simp [note, walked.order]
  entries := by simp [note, walked.entries, plain]

theorem Walked.simulcast (walked : Walked bindings base before r) (simulcast : s.isSimulcast)
    (accepted : r.refusal? bindings s = none) :
    Walked bindings base (before ++ [s])
      ((r.note s.name).enter (Entry.describing bindings s)) where
  indexed := by
    have complete : s.lack? bindings = none := (Option.or_eq_none_iff.mp accepted).1
    rw [refusal?_of_complete complete] at accepted
    obtain ⟨free, distinct, ridsFree⟩ := conflict?_eq_none_iff.mp accepted
    exact enter_indexed (note_indexed walked.indexed s.name) free distinct ridsFree
  order := by simp [note, enter, walked.order]
  entries := by simp [note, enter, walked.entries, simulcast]

theorem Walked.visit_cases (walked : Walked bindings base before r) (s : Section) :
    (∃ next, r.visit bindings s = (next, s.normal, none) ∧
      Walked bindings base (before ++ [s]) next ∧
      (s.isSimulcast → r.refusal? bindings s = none)) ∨
    (s.isSimulcast ∧ ∃ fault left, r.refusal? bindings s = some fault ∧
      r.visit bindings s = (r.note s.name, left, some fault)) := by
  by_cases simulcast : s.isSimulcast
  · have visited := visit_simulcast bindings walked.indexed simulcast
    cases refused : r.refusal? bindings s with
    | some fault =>
        simp only [refused] at visited
        exact .inr ⟨simulcast, fault, _, rfl, visited⟩
    | none =>
        simp only [refused] at visited
        exact .inl ⟨_, visited, walked.simulcast simulcast refused, fun _ => rfl⟩
  · refine .inl ⟨_, ?_, walked.plain simulcast, fun yes => absurd yes simulcast⟩
    rw [Section.normal_of_plain simulcast, visit_plain bindings r simulcast]

/-- The registry of a document whose sections up to here were all accepted. -/
def Surveyed (bindings : List Binding) (before : List Section) (r : Registry) : Prop :=
  Walked bindings empty before r

theorem surveyed_empty : Surveyed bindings [] empty :=
  ⟨empty_indexed, rfl, rfl⟩

theorem Surveyed.indexed (surveyed : Surveyed bindings before r) : r.Indexed :=
  Walked.indexed surveyed

theorem Surveyed.order (surveyed : Surveyed bindings before r) :
    r.order = before.map (·.name) :=
  Walked.order surveyed

theorem Surveyed.entries (surveyed : Surveyed bindings before r) :
    r.entries = (before.filter (·.isSimulcast)).map (Entry.describing bindings) :=
  Walked.entries surveyed

theorem Surveyed.names (surveyed : Surveyed bindings before r) :
    r.names = (before.filter (·.isSimulcast)).map (·.name) := by
  simp only [Registry.names, surveyed.entries, List.map_map]
  rfl

theorem Surveyed.rids (surveyed : Surveyed bindings before r) :
    r.rids = Section.simulcastRids before := by
  simp only [Registry.rids, surveyed.entries, List.flatMap_map]
  rfl

theorem offence?_of_accepted (accepted : r.refusal? bindings s = none) :
    s.name ∉ r.names ∧ s.offence? bindings r.rids = none := by
  have free : s.name ∉ r.names := by
    intro taken
    simp [refusal?, taken] at accepted
  exact ⟨free, by rw [← refusal?_eq_offence? free, accepted]⟩

theorem visit_cases (surveyed : Surveyed bindings before r)
    (ready : Section.Surveyable bindings before) (s : Section) :
    (∃ next, r.visit bindings s = (next, s.normal, none) ∧
      Surveyed bindings (before ++ [s]) next ∧ Section.Surveyable bindings (before ++ [s])) ∨
    (s.isSimulcast ∧ ∃ fault left, r.refusal? bindings s = some fault ∧
      r.visit bindings s = (r.note s.name, left, some fault)) := by
  rcases Walked.visit_cases surveyed s with ⟨next, visited, walked, accepted⟩ | refused
  · refine .inl ⟨next, visited, walked, (Section.surveyable_concat_iff ready).mpr ?_⟩
    intro simulcast
    rw [← surveyed.rids]
    exact (offence?_of_accepted (accepted simulcast)).2
  · exact .inr refused

theorem walk_surveyed {rest' : List Section} (surveyed : Surveyed bindings before r)
    (ready : Section.Surveyable bindings before)
    (walked : r.walk bindings rest = (r', rest', none)) :
    Surveyed bindings (before ++ rest) r' ∧ Section.Surveyable bindings (before ++ rest) ∧
      rest' = rest.map Section.normal := by
  induction rest generalizing before r rest' with
  | nil =>
      simp only [walk, Prod.mk.injEq, and_true] at walked
      obtain ⟨rfl, rfl⟩ := walked
      simpa using ⟨surveyed, ready⟩
  | cons s rest ih =>
      rcases visit_cases surveyed ready s with
        ⟨next, visited, surveyed', ready'⟩ | ⟨-, fault, left, -, visited⟩
      · simp only [walk, visited, Prod.mk.injEq] at walked
        obtain ⟨same, split, sound⟩ := walked
        have walked : next.walk bindings rest = (r', (next.walk bindings rest).2.1, none) := by
          rw [← same, ← sound]
        obtain ⟨reached, all, normal⟩ := ih surveyed' ready' walked
        rw [List.append_assoc] at reached all
        exact ⟨reached, all, by rw [← split, normal]; rfl⟩
      · simp [walk, visited] at walked

/-- Where names are distinct, a walk is stopped exactly by the first section that offends. -/
theorem walk_fault_iff (surveyed : Surveyed bindings before r)
    (ready : Section.Surveyable bindings before)
    (distinct : ((before ++ rest).map (·.name)).Nodup) :
    (r.walk bindings rest).2.2 = some fault ↔
      Section.FirstOffence bindings before rest fault := by
  induction rest generalizing before r with
  | nil => simp [walk, Section.FirstOffence]
  | cons s rest ih =>
      rcases visit_cases surveyed ready s with
        ⟨next, visited, surveyed', ready'⟩ | ⟨simulcast, refusal, left, refused, visited⟩
      · have onward : (r.walk bindings (s :: rest)).2.2 = (next.walk bindings rest).2.2 := by
          simp only [walk, visited]
        rw [onward, Section.firstOffence_cons_of_sound ready']
        exact ih surveyed' ready' (by simpa using distinct)
      · have free : s.name ∉ r.names := by
          rw [surveyed.names]
          intro taken
          obtain ⟨t, member, same⟩ := List.mem_map.mp taken
          rw [List.map_append] at distinct
          exact (List.nodup_append.mp distinct).2.2 t.name
            (List.mem_map_of_mem (List.mem_of_mem_filter member)) s.name (by simp) same
        have offends : s.offence? bindings (Section.simulcastRids before) = some refusal := by
          rw [← surveyed.rids, ← refusal?_eq_offence? free, refused]
        have stopped : (r.walk bindings (s :: rest)).2.2 = some refusal := by
          simp only [walk, visited]
        rw [stopped, Section.firstOffence_cons_of_offence ready simulcast offends,
          Option.some.injEq]

end Registry

end Fanout
