import Fanout.Answer
import Mathlib.Data.List.Nodup

/-! # Indexed registries

The entries of a registry are found through two indices of positions. `Indexed` says that both
indices are in step with the entries, and that no name and no rid belongs to two of them. Entering
an entry whose name and rids are free keeps it so, and `enroll` enters no other; in such a
registry the lookups mean what their names say.
-/

namespace Fanout.Registry

def names (r : Registry) : List String :=
  r.entries.map (·.name)

def enter (r : Registry) (e : Entry) : Registry :=
  { r with
    entries := r.entries ++ [e]
    nameIndex := (e.name, r.entries.length) :: r.nameIndex
    ridIndex := e.rids.map (·, r.entries.length) ++ r.ridIndex }

/-- An index leads from each key of an entry to the position of that entry, and nowhere else. -/
def IndexedBy (keys : Entry → List String) (index : List (String × Nat))
    (entries : List Entry) : Prop :=
  ∀ key i, index.lookup key = some i ↔ ∃ e, entries[i]? = some e ∧ key ∈ keys e

/-- The indices are in step with the entries, which share no name and no rid. -/
structure Indexed (r : Registry) : Prop where
  names_nodup : r.names.Nodup
  rids_nodup : r.rids.Nodup
  byName : IndexedBy (fun e => [e.name]) r.nameIndex r.entries
  byRid : IndexedBy (·.rids) r.ridIndex r.entries

namespace IndexedBy

variable {keys : Entry → List String} {index : List (String × Nat)} {entries : List Entry}
  {key : String} {e : Entry}

theorem find_iff (indexed : IndexedBy keys index entries) :
    (index.lookup key).bind (entries[·]?) = some e ↔ e ∈ entries ∧ key ∈ keys e := by
  rw [Option.bind_eq_some_iff]
  constructor
  · rintro ⟨i, found, here⟩
    obtain ⟨e', there, member⟩ := (indexed key i).mp found
    obtain rfl : e = e' := by simpa [here] using there
    exact ⟨List.mem_of_getElem? here, member⟩
  · rintro ⟨present, member⟩
    obtain ⟨i, here⟩ := List.mem_iff_getElem?.mp present
    exact ⟨i, (indexed key i).mpr ⟨e, here, member⟩, here⟩

theorem lookup_isSome_iff (indexed : IndexedBy keys index entries) :
    (index.lookup key).isSome ↔ ∃ e ∈ entries, key ∈ keys e := by
  rw [Option.isSome_iff_exists]
  constructor
  · rintro ⟨i, found⟩
    obtain ⟨e, here, member⟩ := (indexed key i).mp found
    exact ⟨e, List.mem_of_getElem? here, member⟩
  · rintro ⟨e, present, member⟩
    obtain ⟨i, here⟩ := List.mem_iff_getElem?.mp present
    exact ⟨i, (indexed key i).mpr ⟨e, here, member⟩⟩

theorem mem_keys_iff (indexed : IndexedBy keys index entries) :
    key ∈ index.map Prod.fst ↔ ∃ e ∈ entries, key ∈ keys e := by
  rw [← indexed.lookup_isSome_iff, List.lookup_isSome_iff]
  simp only [List.mem_map, beq_iff_eq, eq_comm (a := key)]

theorem lookup_positions (own : List String) (position : Nat) :
    (own.map (·, position)).lookup key = if key ∈ own then some position else none := by
  induction own with
  | nil => rfl
  | cons first rest ih =>
      simp only [List.map_cons, List.lookup_cons, ih, List.mem_cons]
      by_cases same : key = first
      · simp [same]
      · simp [same, beq_false_of_ne same]

/-- A new entry goes to the end, so its keys lead to the old length. -/
theorem enter (indexed : IndexedBy keys index entries)
    (free : ∀ old ∈ entries, ∀ key ∈ keys old, key ∉ keys e) :
    IndexedBy keys ((keys e).map (·, entries.length) ++ index) (entries ++ [e]) := by
  intro key i
  rw [List.lookup_append, lookup_positions]
  by_cases own : key ∈ keys e
  · simp only [own, if_true, Option.some_or, Option.some.injEq]
    constructor
    · rintro rfl
      exact ⟨e, by simp, own⟩
    · rintro ⟨e', here, member⟩
      by_cases old : i < entries.length
      · rw [List.getElem?_append_left old] at here
        exact absurd own (free e' (List.mem_of_getElem? here) key member)
      · obtain ⟨inside, -⟩ := List.getElem?_eq_some_iff.mp here
        simp only [List.length_append, List.length_singleton] at inside
        omega
  · simp only [own, if_false, Option.none_or, indexed key i]
    constructor
    · rintro ⟨e', here, member⟩
      obtain ⟨old, -⟩ := List.getElem?_eq_some_iff.mp here
      exact ⟨e', by rw [List.getElem?_append_left old, here], member⟩
    · rintro ⟨e', here, member⟩
      by_cases old : i < entries.length
      · rw [List.getElem?_append_left old] at here
        exact ⟨e', here, member⟩
      · have last : e' ∈ [e] := by
          rw [List.getElem?_append_right (by omega)] at here
          exact List.mem_of_getElem? here
        obtain rfl : e' = e := by simpa using last
        exact absurd member own

end IndexedBy

variable {r r' : Registry} {e : Entry} {name rid : String}

theorem mem_names_iff : name ∈ r.names ↔ ∃ e ∈ r.entries, e.name = name :=
  List.mem_map

theorem mem_rids_iff : rid ∈ r.rids ↔ ∃ e ∈ r.entries, rid ∈ e.rids :=
  List.mem_flatMap

theorem empty_indexed : empty.Indexed where
  names_nodup := .nil
  rids_nodup := .nil
  byName := by intro key i; simp [empty]
  byRid := by intro key i; simp [empty]

theorem note_indexed (indexed : r.Indexed) (name : String) : (r.note name).Indexed :=
  ⟨indexed.names_nodup, indexed.rids_nodup, indexed.byName, indexed.byRid⟩

theorem enter_indexed (indexed : r.Indexed) (free : e.name ∉ r.names)
    (distinct : e.rids.Nodup) (ridsFree : ∀ rid ∈ e.rids, rid ∉ r.rids) :
    (r.enter e).Indexed where
  names_nodup := by
    simp only [names, enter, List.map_append, List.map_cons, List.map_nil]
    exact indexed.names_nodup.append (List.nodup_singleton _) (by simpa [names] using free)
  rids_nodup := by
    simp only [rids, enter, List.flatMap_append, List.flatMap_cons, List.flatMap_nil,
      List.append_nil]
    exact indexed.rids_nodup.append distinct fun rid old own => ridsFree rid own old
  byName := indexed.byName.enter fun old member key same own => by
    obtain rfl : key = old.name := by simpa using same
    exact free (mem_names_iff.mpr ⟨old, member, by simpa using own⟩)
  byRid := indexed.byRid.enter fun old member key same own =>
    ridsFree key own (mem_rids_iff.mpr ⟨old, member, same⟩)

/-- Why an entry is not enrolled, said of names and rids instead of the indices. -/
def conflict? (r : Registry) (e : Entry) : Option Fault :=
  if e.name ∈ r.names then some (.duplicateSection e.name)
  else (Names.firstRepeated? r.rids e.rids).map .duplicateRid

theorem conflict?_eq_none_iff :
    r.conflict? e = none ↔ e.name ∉ r.names ∧ e.rids.Nodup ∧ ∀ rid ∈ e.rids, rid ∉ r.rids := by
  unfold conflict?
  split <;> simp_all [Names.firstRepeated?_eq_none_iff]

theorem perform_get_bind {α : Type} (r : Registry) (next : Registry → Change α) :
    r.perform (get >>= next) = r.perform (next r) :=
  rfl

theorem perform_enroll (indexed : r.Indexed) (e : Entry) :
    r.perform (enroll e) =
      match r.conflict? e with
      | some fault => (.error fault, r)
      | none => (.ok (), r.enter e) := by
  have named : (r.nameIndex.lookup e.name).isSome ↔ e.name ∈ r.names := by
    rw [indexed.byName.lookup_isSome_iff, mem_names_iff]
    simp only [List.mem_singleton, eq_comm]
  have seen : ∀ rid, rid ∈ r.ridIndex.map Prod.fst ↔ rid ∈ r.rids := by
    intro rid
    rw [indexed.byRid.mem_keys_iff, mem_rids_iff]
  simp only [enroll, perform_get_bind, named, Names.firstRepeated?_congr seen, conflict?]
  by_cases taken : e.name ∈ r.names
  · simp only [taken, if_true]
    rfl
  · simp only [taken, if_false]
    cases Names.firstRepeated? r.rids e.rids <;> rfl

theorem perform_enroll_indexed (indexed : r.Indexed) (e : Entry) :
    (r.perform (enroll e)).2.Indexed := by
  rw [perform_enroll indexed]
  cases conflict : r.conflict? e with
  | some fault => exact indexed
  | none =>
      obtain ⟨free, distinct, ridsFree⟩ := conflict?_eq_none_iff.mp conflict
      exact enter_indexed indexed free distinct ridsFree

theorem byName?_eq_some_iff (indexed : r.Indexed) :
    r.byName? name = some e ↔ e ∈ r.entries ∧ e.name = name := by
  rw [byName?, indexed.byName.find_iff, List.mem_singleton, eq_comm (a := name)]

theorem byRid?_eq_some_iff (indexed : r.Indexed) :
    r.byRid? rid = some e ↔ e ∈ r.entries ∧ rid ∈ e.rids :=
  indexed.byRid.find_iff

theorem byName?_eq_none_iff (indexed : r.Indexed) : r.byName? name = none ↔ name ∉ r.names := by
  rw [Option.eq_none_iff_forall_ne_some, mem_names_iff]
  simp only [ne_eq, byName?_eq_some_iff indexed, not_exists]

theorem byRid?_eq_none_iff (indexed : r.Indexed) : r.byRid? rid = none ↔ rid ∉ r.rids := by
  rw [Option.eq_none_iff_forall_ne_some, mem_rids_iff]
  simp only [ne_eq, byRid?_eq_some_iff indexed, not_exists]

theorem owner?_eq_some_iff (indexed : r.Indexed) {b : Binding} :
    r.owner? b = some name ↔ ∃ e ∈ r.entries, b.name ∈ e.rids ∧ e.name = name := by
  simp only [owner?, Option.map_eq_some_iff, byRid?_eq_some_iff indexed, and_assoc]

theorem owner?_eq_none_iff (indexed : r.Indexed) {b : Binding} :
    r.owner? b = none ↔ b.name ∉ r.rids := by
  rw [owner?, Option.map_eq_none_iff, byRid?_eq_none_iff indexed]

theorem filter_byName?_isNone (indexed : r.Indexed) (bound : List Binding) :
    bound.filter (fun b => (r.byName? b.name).isNone) = bound.filter (·.name ∉ r.names) := by
  apply List.filter_congr
  intro b _
  rw [Bool.eq_iff_iff, decide_eq_true_iff, Option.isNone_iff_eq_none, byName?_eq_none_iff indexed]

theorem filter_owner?_isNone (indexed : r.Indexed) (bound : List Binding) :
    bound.filter (fun b => (r.owner? b).isNone) = bound.filter (·.name ∉ r.rids) := by
  apply List.filter_congr
  intro b _
  rw [Bool.eq_iff_iff, decide_eq_true_iff, Option.isNone_iff_eq_none, owner?_eq_none_iff indexed]

end Fanout.Registry
