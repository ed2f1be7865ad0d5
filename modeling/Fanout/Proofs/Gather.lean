import Fanout.Answer
import Fanout.Proofs.Registry
import Fanout.Proofs.Sections
import Mathlib.Data.List.Perm.Basic

/-! # What gathering makes of an answer

Gathering moves names around: those of the rids go and those of the simulcast sections come. An
answer may be anything, so the first half only counts names (`gatherSections_eq_ok`). The second
half is about an answer that holds just the sections asked for. There gathering cannot fail, and
as arranging puts the sections in order at the end, they need to be followed only up to order.
-/

namespace Fanout

variable {d d' : Document} {e : Entry} {r : Registry} {names : List String}

/-! ## Any answer -/

namespace Document

theorem foldlM_requireRemove (d : Document) (names : List String) :
    names.foldlM requireRemove d =
      (Section.pick d.sections names).map fun picked => { d with sections := picked.2 } := by
  induction names generalizing d with
  | nil => rfl
  | cons name rest ih =>
      rw [List.foldlM_cons, requireRemove, remove?, Section.pick]
      by_cases present : name ∈ d.names
      · obtain ⟨s, found⟩ := Section.exists_find? present
        simp only [present, if_true, found]
        refine (ih _).trans ?_
        cases Section.pick (d.sections.eraseP (·.name = name)) rest <;> rfl
      · simp only [present, if_false, Section.find?_eq_none_iff.mpr present]
        rfl

theorem foldlM_requireRemove_eq_ok (removed : names.foldlM requireRemove d = .ok d') :
    d.names.Perm (names ++ d'.names) ∧ d'.groups = d.groups ∧ d'.bindings = d.bindings := by
  rw [foldlM_requireRemove] at removed
  cases picked : Section.pick d.sections names with
  | error fault =>
      rw [picked] at removed
      cases removed
  | ok outcome =>
      obtain ⟨taken, left⟩ := outcome
      rw [picked] at removed
      cases removed
      obtain ⟨named, perm⟩ := Section.pick_eq_ok picked
      refine ⟨?_, rfl, rfl⟩
      rw [← named, Document.names, Document.names, ← List.map_append]
      exact (perm.map _).symm

end Document

theorem Entry.gather_eq_ok (gathered : Entry.gather d e = .ok d') :
    (e.name :: d.names).Perm (e.rids ++ d'.names) ∧ d'.groups = d.groups ∧
      d'.bindings = d.bindings := by
  simp only [gather] at gathered
  cases found : d.section? e.firstRid with
  | none =>
      rw [found] at gathered
      cases gathered
  | some s =>
      rw [found] at gathered
      obtain ⟨rest, removed, gathered⟩ := bind_eq_ok.mp gathered
      obtain ⟨media, -, added⟩ := bind_eq_ok.mp gathered
      obtain ⟨perm, groups, bindings⟩ := Document.foldlM_requireRemove_eq_ok removed
      cases added
      refine ⟨?_, groups, bindings⟩
      have named : (rest.add ⟨e.name, e.protocol, media⟩).names = rest.names ++ [e.name] := by
        simp [Document.names, Document.add]
      rw [named, ← List.append_assoc]
      exact (perm.cons e.name).trans (List.perm_append_singleton e.name _).symm

theorem foldlM_gather_eq_ok {entries : List Entry}
    (gathered : entries.foldlM Entry.gather d = .ok d') :
    (entries.map (·.name) ++ d.names).Perm (entries.flatMap (·.rids) ++ d'.names) ∧
      d'.groups = d.groups ∧ d'.bindings = d.bindings := by
  induction entries generalizing d with
  | nil =>
      cases gathered
      exact ⟨.refl _, rfl, rfl⟩
  | cons e rest ih =>
      rw [List.foldlM_cons] at gathered
      obtain ⟨next, first, onward⟩ := bind_eq_ok.mp gathered
      obtain ⟨once, groups, bindings⟩ := Entry.gather_eq_ok first
      obtain ⟨others, groups', bindings'⟩ := ih onward
      refine ⟨?_, groups'.trans groups, bindings'.trans bindings⟩
      calc (e.name :: rest.map (·.name)) ++ d.names
        _ |>.Perm (rest.map (·.name) ++ (e.name :: d.names)) := List.perm_middle.symm
        _ |>.Perm (rest.map (·.name) ++ (e.rids ++ next.names)) := once.append_left _
        _ |>.Perm (e.rids ++ (rest.map (·.name) ++ next.names)) := by
          rw [← List.append_assoc, ← List.append_assoc]
          exact List.perm_append_comm.append_right _
        _ |>.Perm (e.rids ++ (rest.flatMap (·.rids) ++ d'.names)) := others.append_left _
        _ = (e :: rest).flatMap (·.rids) ++ d'.names := by simp

theorem Registry.gatherSections_eq_ok (gathered : r.gatherSections d = .ok d') :
    (r.names ++ d.names).Perm (r.rids ++ r.order) ∧ d'.names = r.order ∧
      d'.groups = d.groups.filter (·.semantics ≠ Group.bundleSemantics) ++
        [Group.ofNames Group.bundleSemantics r.order] ∧
      d'.bindings = d.bindings := by
  obtain ⟨whole, folded, gathered⟩ := bind_eq_ok.mp gathered
  obtain ⟨arranged, ordered, bundled⟩ := bind_eq_ok.mp gathered
  obtain ⟨perm, groups, bindings⟩ := foldlM_gather_eq_ok folded
  obtain ⟨named, reordered, groups', bindings'⟩ := Document.arrange_eq_ok ordered
  cases bundled
  have sameNames : whole.names.Perm r.order := by
    rw [← named]
    exact (reordered.map _).symm
  refine ⟨perm.trans (sameNames.append_left _), named, ?_, bindings'.trans bindings⟩
  simp only [Document.bundle, named, groups', groups]

/-! ## Bindings -/

theorem mapM_eq_ok_iff {ε α β : Type} {f : α → Except ε β} {xs : List α} {ys : List β} :
    xs.mapM f = .ok ys ↔ List.Forall₂ (fun x y => f x = .ok y) xs ys := by
  induction xs generalizing ys with
  | nil => cases ys <;> simp [pure, Except.pure]
  | cons x rest ih =>
      rw [List.mapM_cons, bind_eq_ok]
      constructor
      · rintro ⟨y, first, others⟩
        obtain ⟨values, rest, same⟩ := bind_eq_ok.mp others
        cases same
        exact .cons first (ih.mp rest)
      · intro related
        cases related with
        | cons first others => exact ⟨_, first, bind_eq_ok.mpr ⟨_, ih.mpr others, rfl⟩⟩

namespace Registry

variable {bound bound' : List Binding}

/-- A binding that stands for an entry: its transport is that of the last binding of its rids. -/
def BoundLast (r : Registry) (bound : List Binding) (e : Entry) (b : Binding) : Prop :=
  ∃ last, r.lastBinding? bound e.name = some last ∧ b = ⟨e.name, last.transport⟩

theorem gatherBindings_eq_ok_iff (indexed : r.Indexed) :
    r.gatherBindings bound = .ok bound' ↔
      ∃ gathered, List.Forall₂ (r.BoundLast bound) r.entries gathered ∧
        bound' = bound.filter (·.name ∉ r.rids) ++ gathered := by
  rw [gatherBindings, bind_eq_ok, filter_owner?_isNone indexed]
  apply exists_congr
  intro gathered
  rw [mapM_eq_ok_iff]
  apply and_congr
  · apply iff_of_eq
    congr 1
    funext e b
    simp only [BoundLast]
    cases r.lastBinding? bound e.name with
    | none => simp
    | some last => simp [eq_comm]
  · exact ⟨fun same => (Except.ok.inj same).symm, fun same => congrArg Except.ok same.symm⟩

theorem names_of_boundLast {entries : List Entry} {gathered : List Binding}
    (related : List.Forall₂ (r.BoundLast bound) entries gathered) :
    gathered.map (·.name) = entries.map (·.name) := by
  induction related with
  | nil => rfl
  | cons first _ ih =>
      obtain ⟨last, -, rfl⟩ := first
      simp only [List.map_cons, ih]

theorem lastBinding?_eq (indexed : r.Indexed) (member : e ∈ r.entries) :
    r.lastBinding? bound e.name = (bound.filter (·.name ∈ e.rids)).getLast? := by
  have owned : ∀ b : Binding, r.owner? b = some e.name ↔ b.name ∈ e.rids := by
    intro b
    rw [owner?_eq_some_iff indexed]
    constructor
    · rintro ⟨other, there, own, same⟩
      rwa [List.inj_on_of_nodup_map indexed.names_nodup there member same] at own
    · intro own
      exact ⟨e, member, own, rfl⟩
  rw [lastBinding?, ← List.head?_filter, List.filter_reverse, List.head?_reverse]
  simp only [owned]

theorem gatherBindings_of_bound (indexed : r.Indexed)
    (given : ∀ e ∈ r.entries, ∃ b ∈ bound, b.name ∈ e.rids) :
    ∃ gathered, r.gatherBindings bound = .ok (bound.filter (·.name ∉ r.rids) ++ gathered) ∧
      gathered.map (·.name) = r.names ∧
      ∀ e ∈ r.entries, ∃ last, (bound.filter (·.name ∈ e.rids)).getLast? = some last ∧
        ⟨e.name, last.transport⟩ ∈ gathered := by
  have present : ∀ e ∈ r.entries, ∃ last,
      (bound.filter (·.name ∈ e.rids)).getLast? = some last := by
    intro e member
    obtain ⟨b, present, own⟩ := given e member
    have found : b ∈ bound.filter (·.name ∈ e.rids) :=
      List.mem_filter.mpr ⟨present, by simpa using own⟩
    exact ⟨_, List.getLast?_eq_some_getLast (List.ne_nil_of_mem found)⟩
  choose! last found using present
  have related : List.Forall₂ (r.BoundLast bound) r.entries
      (r.entries.map fun e => ⟨e.name, (last e).transport⟩) := by
    rw [List.forall₂_map_right_iff, List.forall₂_same]
    intro e member
    exact ⟨last e, (lastBinding?_eq indexed member).trans (found e member), rfl⟩
  refine ⟨_, (gatherBindings_eq_ok_iff indexed).mpr ⟨_, related, rfl⟩,
    names_of_boundLast related, ?_⟩
  intro e member
  exact ⟨last e, found e member, List.mem_map.mpr ⟨e, member, rfl⟩⟩

end Registry

/-! ## An answer that holds the sections asked for -/

theorem Document.foldlM_requireRemove_of_perm {gone rest : List Section} (distinct : d.names.Nodup)
    (perm : d.sections.Perm (gone ++ rest)) :
    ∃ left, (gone.map (·.name)).foldlM requireRemove d = .ok { d with sections := left } ∧
      left.Perm rest := by
  have apart : ((gone ++ rest).map (·.name)).Nodup := (perm.map _).nodup_iff.mp distinct
  rw [List.map_append] at apart
  obtain ⟨goneDistinct, -, others⟩ := List.nodup_append'.mp apart
  have picked := Section.pick_of_subset distinct goneDistinct
    fun s member => perm.symm.subset (List.mem_append_left _ member)
  refine ⟨_, by rw [foldlM_requireRemove, picked]; rfl, ?_⟩
  have none : gone.filter (·.name ∉ gone.map (·.name)) = [] :=
    List.filter_eq_nil_iff.mpr fun s member => by simpa using ⟨s, member, rfl⟩
  have kept : rest.filter (·.name ∉ gone.map (·.name)) = rest :=
    List.filter_eq_self.mpr fun s member =>
      decide_eq_true fun own => others own (List.mem_map_of_mem member)
  have filtered := perm.filter (·.name ∉ gone.map (·.name))
  rwa [List.filter_append, none, kept, List.nil_append] at filtered

theorem Entry.gather_of_perm {first : Section} {others rest : List Section} {media : Media}
    (distinct : d.names.Nodup) (perm : d.sections.Perm (first :: others ++ rest))
    (rids : e.rids = (first :: others).map (·.name))
    (gathered : e.gatherMedia first.media = .ok media) :
    ∃ left, Entry.gather d e =
        .ok { d with sections := left ++ [⟨e.name, e.protocol, media⟩] } ∧
      left.Perm rest := by
  have named : e.firstRid = first.name := by simp [firstRid, rids]
  have found : d.section? e.firstRid = some first := by
    rw [named]
    exact (Section.find?_eq_some_iff distinct).mpr ⟨perm.symm.subset (by simp), rfl⟩
  obtain ⟨left, removed, same⟩ := Document.foldlM_requireRemove_of_perm distinct perm
  rw [← rids] at removed
  refine ⟨left, ?_, same⟩
  simp only [gather, found, removed, gathered, bind, Except.bind, Document.add]

end Fanout
