import Fanout.Proofs.RoundTrip

/-! # Which answers are accepted

An answer comes from the peer and may be anything. What gathering asks of it can be said of the
answer as it came: gathering removes and adds sections on the way, but none that a later entry looks
for (`foldlM_gather_outcome`), and after the last entry its names are known. So the first thing that
is wrong with the sections (`Document.unfit?`) is what gathering them fails with, and only then a
missing binding counts (`Document.unbound?`).
-/

namespace Fanout

namespace Document

/-- The first section of an answer for the first rid of a simulcast section carries no stream. -/
def SilentFor (a : Document) (s : Section) : Prop :=
  ∀ rid ∈ s.ridNames.head?, ∀ t ∈ a.section? rid, t.media.streams = []

instance (a : Document) (s : Section) : Decidable (a.SilentFor s) :=
  inferInstanceAs (Decidable (∀ rid ∈ s.ridNames.head?, ∀ t ∈ a.section? rid, t.media.streams = []))

def BindsOne (a : Document) (s : Section) : Prop :=
  ∃ b ∈ a.bindings, b.name ∈ s.ridNames

instance (a : Document) (s : Section) : Decidable (a.BindsOne s) :=
  inferInstanceAs (Decidable (∃ b ∈ a.bindings, b.name ∈ s.ridNames))

/-- What is wrong with the sections of an answer for one simulcast section of the offer. -/
def unanswered? (a : Document) (s : Section) : Option Fault :=
  ((s.ridNames.find? (· ∉ a.names)).map .sectionNotFound).or
    (if a.SilentFor s then none else s.ridNames.head?.map .answerHasStreams)

/-- The first thing that is wrong with the sections of an answer `a` to the offer `d`: the simulcast
sections of the offer come first, then its other sections, then what is left over. -/
def unfit? (d a : Document) : Option Fault :=
  (d.simulcasts.findSome? a.unanswered?).or <|
    (((d.plains.map (·.name)).find? (· ∉ a.names)).map .sectionNotFound).or <|
      if a.names.Perm d.fannedOut.names then none
      else some (.orderMismatch d.names
        (a.names.diff (Section.simulcastRids d.sections) ++ d.simulcasts.map (·.name)))

def unbound? (d a : Document) : Option Fault :=
  (d.simulcasts.find? fun s => ¬ a.BindsOne s).map fun s => .transportMissing s.name

variable {d a : Document} {s : Section}

theorem unanswered?_eq_none_iff :
    a.unanswered? s = none ↔ (∀ rid ∈ s.ridNames, rid ∈ a.names) ∧ a.SilentFor s := by
  by_cases silent : a.SilentFor s
  · simp [unanswered?, silent]
  · obtain ⟨rid, first⟩ := Option.ne_none_iff_exists'.mp fun none : s.ridNames.head? = none =>
      silent (by simp [SilentFor, none])
    simp [unanswered?, silent, first]

theorem unanswered?_of_missing {rid : String}
    (missing : s.ridNames.find? (· ∉ a.names) = some rid) :
    a.unanswered? s = some (.sectionNotFound rid) := by
  rw [unanswered?, missing]
  rfl

theorem unanswered?_of_present {rid : String} {t : Section}
    (present : s.ridNames.find? (· ∉ a.names) = none) (first : s.ridNames.head? = some rid)
    (found : a.section? rid = some t) :
    a.unanswered? s = if t.media.streams = [] then none else some (.answerHasStreams rid) := by
  have silent : a.SilentFor s ↔ t.media.streams = [] := by simp [SilentFor, first, found]
  rw [unanswered?, present, first]
  simp only [silent]
  rfl

/-- Only the sections of the rids matter, and of each rid only the first. -/
theorem unanswered?_congr {a' : Document}
    (same : ∀ rid ∈ s.ridNames, a.section? rid = a'.section? rid) :
    a.unanswered? s = a'.unanswered? s := by
  have missing : s.ridNames.find? (· ∉ a.names) = s.ridNames.find? (· ∉ a'.names) := by
    apply List.find?_congr
    intro rid own
    have named : rid ∉ a.names ↔ rid ∉ a'.names := by
      rw [names, names, ← Section.find?_eq_none_iff, ← Section.find?_eq_none_iff]
      exact iff_of_eq (congrArg (· = none) (same rid own))
    simp only [named]
  have silent : a.SilentFor s ↔ a'.SilentFor s := by
    unfold SilentFor
    cases first : s.ridNames.head? with
    | none => simp
    | some rid => simp only [Option.mem_some_iff, forall_eq', same rid (List.mem_of_head? first)]
  simp only [unanswered?, missing, silent]

theorem findSome?_unanswered?_congr {a' : Document} {simulcasts : List Section}
    (same : ∀ rid ∈ simulcasts.flatMap (·.ridNames), a.section? rid = a'.section? rid) :
    simulcasts.findSome? a.unanswered? = simulcasts.findSome? a'.unanswered? := by
  induction simulcasts with
  | nil => rfl
  | cons s rest ih =>
      simp only [List.flatMap_cons, List.mem_append, or_imp, forall_and] at same
      rw [List.findSome?_cons, List.findSome?_cons, unanswered?_congr same.1, ih same.2]

theorem unfit?_eq_none_iff :
    d.unfit? a = none ↔
      a.names.Perm d.fannedOut.names ∧ ∀ s ∈ d.simulcasts, a.SilentFor s := by
  simp only [unfit?, Option.or_eq_none_iff, List.findSome?_eq_none_iff, unanswered?_eq_none_iff,
    Option.map_eq_none_iff, List.find?_eq_none, ite_eq_left_iff, reduceCtorEq, imp_false, not_not]
  constructor
  · rintro ⟨answered, -, perm⟩
    exact ⟨perm, fun s simulcast => (answered s simulcast).2⟩
  · rintro ⟨perm, silent⟩
    have present : ∀ name ∈ d.fannedOut.names, name ∈ a.names :=
      fun name member => perm.symm.subset member
    rw [fannedOut_names] at present
    refine ⟨fun s simulcast => ⟨fun rid own => ?_, silent s simulcast⟩, fun name plain => ?_, perm⟩
    · exact present rid (List.mem_append_right _ (List.mem_flatMap.mpr ⟨s, simulcast, own⟩))
    · simpa using present name (List.mem_append_left _ plain)

theorem unbound?_eq_none_iff : d.unbound? a = none ↔ ∀ s ∈ d.simulcasts, a.BindsOne s := by
  simp [unbound?]

end Document

/-! ## One entry -/

section
variable {bindings : List Binding} {d : Document} {s : Section}

theorem Entry.firstRid_describing {rid : String} (first : s.ridNames.head? = some rid) :
    (describing bindings s).firstRid = rid := by
  simp [firstRid, describing, List.headD_eq_head?_getD, first]

/-- One entry fails with what its simulcast section finds wrong, or it takes the names of the rids
and adds that of the section. -/
theorem Entry.gather_outcome (complete : s.Complete bindings) (distinct : s.ridNames.Nodup) :
    match d.unanswered? s with
    | some fault => Entry.gather d (describing bindings s) = .error fault
    | none => ∃ left media, Entry.gather d (describing bindings s) =
          .ok { d with sections := left ++ [⟨s.name, s.protocol, media⟩] } ∧
        left.map (·.name) = d.names.diff s.ridNames ∧
        ∀ name ∉ s.ridNames, left.find? (·.name = name) = d.section? name := by
  obtain ⟨rid, rids, given⟩ := List.exists_cons_of_ne_nil complete.ridNames_ne_nil
  have first : s.ridNames.head? = some rid := by rw [given]; rfl
  have removed : (describing bindings s).rids.foldlM Document.requireRemove d = _ :=
    d.foldlM_requireRemove s.ridNames
  have outcome := Section.pick_outcome d.sections distinct
  rw [← Document.names] at outcome
  rw [gather, firstRid_describing first, removed]
  cases missing : s.ridNames.find? (· ∉ d.names) with
  | some lost =>
      simp only [missing] at outcome
      simp only [Document.unanswered?_of_missing missing, outcome]
      cases found : d.section? rid with
      | some t => rfl
      | none =>
          -- the first rid is looked up before any is removed, and it is the first one missing
          have absent : rid ∉ d.names := Section.find?_eq_none_iff.mp found
          rw [given, List.find?_cons_of_pos (by simpa using absent)] at missing
          cases missing
          rfl
  | none =>
      simp only [missing] at outcome
      obtain ⟨taken, left, picked⟩ := outcome
      have present : rid ∈ d.names := by
        simpa using List.find?_eq_none.mp missing rid (List.mem_of_head? first)
      obtain ⟨t, found⟩ : ∃ t, d.section? rid = some t := Section.exists_find? present
      obtain ⟨names, others⟩ := Section.pick_left picked
      simp only [Document.unanswered?_of_present missing first found, found, picked, Except.map,
        bind, Except.bind, gatherMedia, List.isEmpty_iff, firstRid_describing first]
      by_cases silent : t.media.streams = []
      · simp only [silent, if_true]
        exact ⟨left, _, rfl, names, others⟩
      · simp only [silent, if_false]

/-! ## All entries -/

theorem append_diff_of_not_mem {x : String} {names : List String} (gone : List String)
    (kept : x ∉ gone) : (names ++ [x]).diff gone = names.diff gone ++ [x] := by
  induction gone generalizing names with
  | nil => rfl
  | cons name rest ih =>
      obtain ⟨other, others⟩ := not_or.mp (mt List.mem_cons.mpr kept)
      rw [List.diff_cons, List.diff_cons, ← ih others, List.erase_append]
      by_cases present : name ∈ names
      · rw [if_pos present]
      · rw [if_neg present, List.erase_of_not_mem present,
          List.erase_of_not_mem (by simpa using Ne.symm other)]

/-- The entries fail with the first thing that a simulcast section finds wrong with the document
that they start from. None of them takes away, or adds, what a later one looks for. -/
theorem foldlM_gather_outcome {simulcasts : List Section}
    (complete : ∀ s ∈ simulcasts, s.Complete bindings)
    (distinct : (simulcasts.flatMap (·.ridNames)).Nodup)
    (apart : simulcasts.Pairwise fun s t => s.name ∉ t.ridNames) :
    match simulcasts.findSome? d.unanswered? with
    | some fault =>
        (simulcasts.map (Entry.describing bindings)).foldlM Entry.gather d = .error fault
    | none => ∃ sections,
        (simulcasts.map (Entry.describing bindings)).foldlM Entry.gather d =
          .ok { d with sections := sections } ∧
        sections.map (·.name) =
          d.names.diff (simulcasts.flatMap (·.ridNames)) ++ simulcasts.map (·.name) := by
  induction simulcasts generalizing d with
  | nil => exact ⟨d.sections, rfl, by simp [Document.names]⟩
  | cons s rest ih =>
      obtain ⟨sApart, restApart⟩ := List.pairwise_cons.mp apart
      rw [List.flatMap_cons] at distinct
      obtain ⟨sDistinct, restDistinct, others⟩ := List.nodup_append'.mp distinct
      have first := Entry.gather_outcome (d := d) (complete s List.mem_cons_self) sDistinct
      rw [List.findSome?_cons, List.map_cons, List.foldlM_cons]
      cases answered : d.unanswered? s with
      | some fault =>
          simp only [answered] at first
          simp only [first]
          rfl
      | none =>
          simp only [answered] at first
          obtain ⟨left, media, gathered, names, untouched⟩ := first
          have onward := ih (d := { d with sections := left ++ [⟨s.name, s.protocol, media⟩] })
            (fun t member => complete t (List.mem_cons_of_mem _ member)) restDistinct restApart
          have sNot : s.name ∉ rest.flatMap (·.ridNames) := by
            intro taken
            obtain ⟨t, member, own⟩ := List.mem_flatMap.mp taken
            exact sApart t member own
          have same : ∀ rid ∈ rest.flatMap (·.ridNames),
              Document.section? { d with sections := left ++ [⟨s.name, s.protocol, media⟩] } rid =
                d.section? rid := by
            intro rid later
            have other : s.name ≠ rid := fun equal => sNot (equal ▸ later)
            rw [← untouched rid fun own => others own later, Document.section?, List.find?_append,
              List.find?_singleton, if_neg (by simpa using other), Option.or_none]
          rw [Document.findSome?_unanswered?_congr same] at onward
          simp only [gathered, bind, Except.bind]
          cases wrong : rest.findSome? d.unanswered? with
          | some fault =>
              simp only [wrong] at onward
              exact onward
          | none =>
              simp only [wrong] at onward
              obtain ⟨sections, folded, named⟩ := onward
              refine ⟨sections, folded, ?_⟩
              rw [named, Document.names, List.map_append, List.map_singleton, names,
                append_diff_of_not_mem _ sNot, List.flatMap_cons, List.diff_append,
                List.append_assoc]
              rfl

end

/-! ## The whole answer -/

namespace Document

variable {d a : Document}

theorem Acceptable.mem_collected_iff (acceptable : d.Acceptable) (distinct : d.names.Nodup)
    {s : Section} (member : s ∈ d.sections) :
    s.name ∈ a.names.diff (Section.simulcastRids d.sections) ++ d.simulcasts.map (·.name) ↔
      s.isSimulcast ∨ s.name ∈ a.names := by
  rw [List.mem_append]
  by_cases simulcast : s.isSimulcast
  · have back : s.name ∈ d.simulcasts.map (·.name) :=
      List.mem_map_of_mem (mem_simulcasts.mpr ⟨member, simulcast⟩)
    exact ⟨fun _ => .inl simulcast, fun _ => .inr back⟩
  · have plain : s.name ∈ d.plains.map (·.name) :=
      List.mem_map_of_mem (mem_plains.mpr ⟨member, simulcast⟩)
    have other : s.name ∉ d.simulcasts.map (·.name) := by
      intro back
      obtain ⟨t, tMember, same⟩ := List.mem_map.mp back
      exact simulcast_name_not_plain distinct tMember (same ▸ plain)
    have noRid : s.name ∉ Section.simulcastRids d.sections := by
      have apart := acceptable.fannedOut_names_nodup distinct
      rw [fannedOut_names] at apart
      exact List.disjoint_of_nodup_append apart plain
    constructor
    · rintro (left | back)
      · exact .inr (List.diff_subset _ _ left)
      · exact absurd back other
    · rintro (own | named)
      · exact absurd own simulcast
      · exact .inl (List.mem_diff_of_mem named noRid)

/-- The names after the last entry, with those of the simulcast sections at the end, lack a name of
the offer when the answer lacks that of a section that is not simulcast. -/
theorem Acceptable.find?_missing (acceptable : d.Acceptable) (distinct : d.names.Nodup) :
    d.names.find? (· ∉ a.names.diff (Section.simulcastRids d.sections) ++
        d.simulcasts.map (·.name)) =
      (d.plains.map (·.name)).find? (· ∉ a.names) := by
  have offered : d.names = d.sections.map (·.name) := rfl
  rw [offered, plains, List.find?_map, List.find?_map, List.find?_filter]
  congr 1
  apply List.find?_congr
  intro s member
  simp only [Function.comp, acceptable.mem_collected_iff distinct member]
  simp

/-- Once the rids have gone and the names of the simulcast sections have come, the names are those
of the offer just when they were those of the offer fanned out. -/
theorem perm_names_iff {found : List String}
    (counted : (d.simulcasts.map (·.name) ++ a.names).Perm
      (Section.simulcastRids d.sections ++ found)) :
    found.Perm d.names ↔ a.names.Perm d.fannedOut.names := by
  have offered : (d.plains.map (·.name) ++ d.simulcasts.map (·.name)).Perm d.names := by
    rw [← List.map_append]
    exact (List.perm_append_comm.trans (List.filter_append_perm _ _)).map _
  have swapped : (Section.simulcastRids d.sections ++ d.names).Perm
      (d.simulcasts.map (·.name) ++ d.fannedOut.names) := by
    rw [fannedOut_names]
    calc Section.simulcastRids d.sections ++ d.names
      _ |>.Perm (Section.simulcastRids d.sections ++
          (d.plains.map (·.name) ++ d.simulcasts.map (·.name))) := offered.symm.append_left _
      _ |>.Perm ((d.plains.map (·.name) ++ d.simulcasts.map (·.name)) ++
          Section.simulcastRids d.sections) := List.perm_append_comm
      _ |>.Perm ((d.simulcasts.map (·.name) ++ d.plains.map (·.name)) ++
          Section.simulcastRids d.sections) := List.perm_append_comm.append_right _
      _ = _ := List.append_assoc ..
  calc found.Perm d.names
    _ ↔ (Section.simulcastRids d.sections ++ found).Perm
        (Section.simulcastRids d.sections ++ d.names) := (List.perm_append_left_iff _).symm
    _ ↔ (d.simulcasts.map (·.name) ++ a.names).Perm
        (d.simulcasts.map (·.name) ++ d.fannedOut.names) :=
      ⟨fun same => (counted.trans same).trans swapped,
        fun same => (counted.symm.trans same).trans swapped.symm⟩
    _ ↔ a.names.Perm d.fannedOut.names := List.perm_append_left_iff _

end Document

namespace Registry.Surveyed

variable {d a : Document} {r : Registry}

theorem gatherSections_outcome (surveyed : Surveyed d.bindings d.sections r)
    (distinct : d.names.Nodup) (acceptable : d.Acceptable) :
    match d.unfit? a with
    | some fault => r.gatherSections a = .error fault
    | none => ∃ whole, r.gatherSections a = .ok whole ∧ whole.bindings = a.bindings := by
  have folded := foldlM_gather_outcome (d := a)
    (fun s member => (acceptable.complete s member).2) acceptable.surveyable.distinct
    ((acceptable.simulcasts_apart distinct).imp And.left)
  rw [gatherSections, surveyed.entries_eq, Document.unfit?]
  cases wrong : d.simulcasts.findSome? a.unanswered? with
  | some fault =>
      simp only [wrong] at folded
      simp only [folded]
      rfl
  | none =>
      simp only [wrong] at folded
      obtain ⟨sections, folded, names⟩ := folded
      rw [← surveyed.entries_eq] at folded
      have counted : (r.names ++ a.names).Perm
          (r.rids ++ Document.names { a with sections := sections }) :=
        (foldlM_gather_eq_ok folded).1
      rw [surveyed.names_eq, surveyed.rids] at counted
      have named : Document.names { a with sections := sections } =
          a.names.diff (Section.simulcastRids d.sections) ++ d.simulcasts.map (·.name) := names
      have arranged := Document.arrange_outcome (d := { a with sections := sections }) distinct
      simp only [Document.perm_names_iff counted] at arranged
      rw [named, acceptable.find?_missing distinct] at arranged
      have ordered : r.order = d.names := surveyed.order
      rw [← surveyed.entries_eq, folded, ordered, Option.none_or]
      cases missing : (d.plains.map (·.name)).find? (· ∉ a.names) with
      | some name =>
          simp only [missing] at arranged
          simp only [bind, Except.bind, Option.map_some, Option.some_or, arranged]
      | none =>
          simp only [missing] at arranged
          simp only [bind, Except.bind, Option.map_none, Option.none_or]
          by_cases perm : a.names.Perm d.fannedOut.names
          · rw [if_pos perm] at arranged ⊢
            obtain ⟨whole, arranged⟩ := arranged
            simp only [arranged]
            exact ⟨_, rfl, rfl⟩
          · rw [if_neg perm] at arranged ⊢
            simp only [arranged]

end Registry.Surveyed

/-! ## Its bindings -/

theorem mapM_eq_error {ε α β : Type} {f : α → Except ε β} {fault : ε} {x : α}
    {before after : List α} (sound : ∀ y ∈ before, ∃ z, f y = .ok z) (fails : f x = .error fault) :
    (before ++ x :: after).mapM f = .error fault := by
  induction before with
  | nil =>
      rw [List.nil_append, List.mapM_cons, fails]
      rfl
  | cons y rest ih =>
      obtain ⟨z, first⟩ := sound y List.mem_cons_self
      rw [List.cons_append, List.mapM_cons, first,
        ih fun y member => sound y (List.mem_cons_of_mem _ member)]
      rfl

namespace Registry.Surveyed

variable {d a : Document} {r : Registry} {s : Section}

theorem lastBinding?_eq_none_iff (surveyed : Surveyed d.bindings d.sections r)
    (simulcast : s ∈ d.simulcasts) :
    r.lastBinding? a.bindings s.name = none ↔ ¬ a.BindsOne s := by
  have member := surveyed.describing_mem simulcast
  change r.lastBinding? a.bindings (Entry.describing d.bindings s).name = none ↔
    ¬ ∃ b ∈ a.bindings, b.name ∈ (Entry.describing d.bindings s).rids
  rw [lastBinding?_eq surveyed.indexed member, List.getLast?_eq_none_iff, List.filter_eq_nil_iff]
  simp

theorem gatherBindings_outcome (surveyed : Surveyed d.bindings d.sections r) :
    match d.unbound? a with
    | some fault => r.gatherBindings a.bindings = .error fault
    | none => ∃ bound, r.gatherBindings a.bindings = .ok bound := by
  have entries := surveyed.entries_eq
  cases wrong : d.unbound? a with
  | none =>
      have given : ∀ e ∈ r.entries, ∃ b ∈ a.bindings, b.name ∈ e.rids := by
        intro e member
        rw [entries] at member
        obtain ⟨s, simulcast, rfl⟩ := List.mem_map.mp member
        exact Document.unbound?_eq_none_iff.mp wrong s simulcast
      obtain ⟨gathered, outcome, -⟩ := gatherBindings_of_bound surveyed.indexed given
      exact ⟨_, outcome⟩
  | some fault =>
      obtain ⟨s, found, rfl⟩ := Option.map_eq_some_iff.mp wrong
      obtain ⟨unbound, before, after, split, bound⟩ := List.find?_eq_some_iff_append.mp found
      have unbound : ¬ a.BindsOne s := of_decide_eq_true unbound
      rw [split, List.map_append, List.map_cons] at entries
      rw [gatherBindings, entries, mapM_eq_error]
      · rfl
      · intro e member
        obtain ⟨t, earlier, rfl⟩ := List.mem_map.mp member
        have simulcast : t ∈ d.simulcasts := split ▸ List.mem_append_left _ earlier
        have bound : a.BindsOne t := by simpa using bound t earlier
        obtain ⟨b, last⟩ := Option.ne_none_iff_exists'.mp fun none =>
          (surveyed.lastBinding?_eq_none_iff simulcast).mp none bound
        exact ⟨⟨t.name, b.transport⟩, by simp only [Entry.describing, last]⟩
      · have simulcast : s ∈ d.simulcasts := split ▸ List.mem_append_right _ List.mem_cons_self
        have none := (surveyed.lastBinding?_eq_none_iff simulcast).mpr unbound
        simp only [Entry.describing, none]

theorem gather_outcome (surveyed : Surveyed d.bindings d.sections r) (distinct : d.names.Nodup)
    (acceptable : d.Acceptable) (answer : Description) :
    match (d.unfit? answer.document).or (d.unbound? answer.document) with
    | some fault => r.gather answer = .error fault
    | none => ∃ remote, r.gather answer = .ok remote := by
  have sections := surveyed.gatherSections_outcome (a := answer.document) distinct acceptable
  have bindings := surveyed.gatherBindings_outcome (a := answer.document)
  rw [gather]
  cases unfit : d.unfit? answer.document with
  | some fault =>
      simp only [unfit] at sections
      rw [sections]
      rfl
  | none =>
      simp only [unfit] at sections
      obtain ⟨whole, gathered, same⟩ := sections
      simp only [gathered, bind, Except.bind, same, Option.none_or]
      cases unbound : d.unbound? answer.document with
      | some fault =>
          simp only [unbound] at bindings
          simp only [bindings]
      | none =>
          simp only [unbound] at bindings
          obtain ⟨bound, bindings⟩ := bindings
          simp only [bindings]
          exact ⟨_, rfl⟩

end Registry.Surveyed

namespace Views

variable {r : Registry} {answer : Description}

theorem ofAnswer_of_otherType (other : answer.type ≠ .answer) :
    ofAnswer r answer = .error (.typeMismatch DescriptionType.answer.word answer.type.word) := by
  rw [ofAnswer, Description.expect, if_neg other]
  rfl

theorem ofAnswer_of_answer (isAnswer : answer.type = .answer) (simulcast : r.hasSimulcast) :
    ofAnswer r answer = (r.gather answer).map fun remote => ⟨answer, remote⟩ := by
  rw [ofAnswer, Description.expect, if_pos isAnswer, Registry.relayAnswer, if_pos simulcast]
  cases r.gather answer <;> rfl

end Views

namespace Negotiation

variable {n m : Negotiation} {offer : Description} {views : Views}

/-- Whether and why an answer is refused, for every answer to an offer that was fanned out. -/
theorem patchAnswer_outcome (fresh : n.phase = .fresh) (distinct : offer.document.names.Nodup)
    (layered : offer.document.simulcasts ≠ [])
    (patched : n.perform (patchOffer offer) = (.ok views, m)) (calls : List Call)
    (answer : Description) :
    ((∃ back, ((m.run calls).perform (patchAnswer answer)).1 = .ok back) ↔
      answer.type = .answer ∧
      answer.document.names.Perm views.remoteView.document.names ∧
      (∀ s ∈ offer.document.simulcasts, answer.document.SilentFor s) ∧
      ∀ s ∈ offer.document.simulcasts, answer.document.BindsOne s) ∧
    ∀ fault, ((m.run calls).perform (patchAnswer answer)).1 = .error fault ↔
      if answer.type = .answer then
        (offer.document.unfit? answer.document).or (offer.document.unbound? answer.document) =
          some fault
      else fault = .typeMismatch DescriptionType.answer.word answer.type.word := by
  obtain ⟨-, acceptable, surveyed, phase, rfl⟩ := patchOffer_eq_ok fresh distinct patched
  obtain ⟨late, registry⟩ := run_late (n := m) (by simp [phase]) calls
  have simulcast := surveyed.hasSimulcast_iff.mpr layered
  have outcome := surveyed.gather_outcome distinct acceptable answer
  have none : (offer.document.unfit? answer.document).or (offer.document.unbound? answer.document) =
      none ↔ answer.document.names.Perm offer.document.fannedOut.names ∧
        (∀ s ∈ offer.document.simulcasts, answer.document.SilentFor s) ∧
        ∀ s ∈ offer.document.simulcasts, answer.document.BindsOne s := by
    rw [Option.or_eq_none_iff, Document.unfit?_eq_none_iff, Document.unbound?_eq_none_iff,
      and_assoc]
  simp only [Document.outward, if_neg layered, ← none]
  rw [patchAnswer_result late, registry]
  by_cases isAnswer : answer.type = .answer
  swap
  · rw [Views.ofAnswer_of_otherType isAnswer]
    simp [isAnswer, eq_comm]
  rw [Views.ofAnswer_of_answer isAnswer simulcast]
  cases wrong : (offer.document.unfit? answer.document).or
      (offer.document.unbound? answer.document) with
  | some fault =>
      simp only [wrong] at outcome
      simp [outcome, isAnswer, Except.map]
  | none =>
      simp only [wrong] at outcome
      obtain ⟨remote, outcome⟩ := outcome
      simp [outcome, isAnswer, Except.map]

/-- `layeredAnswer` with a section too many. -/
def doubledAnswer : Description :=
  { layeredAnswer with
    document := { layeredAnswer.document with
      sections := layeredAnswer.document.sections ++ layeredAnswer.document.sections.take 1 } }

theorem layeredAnswer_accepted :
    ∃ views m, start.phase = .fresh ∧ layeredOffer.document.names.Nodup ∧
      layeredOffer.document.simulcasts ≠ [] ∧
      start.perform (patchOffer layeredOffer) = (.ok views, m) ∧
      (∃ back, ((m.run []).perform (patchAnswer layeredAnswer)).1 = .ok back) ∧
      ((m.run []).perform (patchAnswer doubledAnswer)).1 =
        .error (.orderMismatch ["a", "v"] ["a", "lo", "v"]) := by
  have distinct : layeredOffer.document.names.Nodup := by decide
  have layered : layeredOffer.document.simulcasts ≠ [] := by decide
  have outcome := patchAnswer_outcome (n := start) rfl distinct layered rfl []
  refine ⟨_, _, rfl, distinct, layered, rfl, ?_, ?_⟩
  · exact (outcome layeredAnswer).1.mpr ⟨rfl, by decide, by decide, by decide⟩
  · exact ((outcome doubledAnswer).2 _).mpr (by decide)

end Negotiation

end Fanout
