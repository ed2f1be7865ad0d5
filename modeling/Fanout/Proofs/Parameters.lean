import Fanout.Codec.Capability
import Fanout.Names
import Mathlib.Data.List.Induction
import Mathlib.Data.List.Nodup
import Mathlib.Data.List.Perm.Basic
import Mathlib.Data.String.Basic

/-! # Parameters by key

Parameters are what is found under their keys: two of them that answer alike for every key are the
same (`ext_get?`), because the entries are in the order of distinct keys. An insertion changes the
answer for its own key only, so of several entries for one key the last one is found. How parameters
are written is told by these answers too (`writtenAs_iff`).
-/

namespace Fanout.Codec

theorem lookup_cons_eq_if (key : String) (entry : String × String)
    (rest : List (String × String)) :
    (entry :: rest).lookup key = if key = entry.1 then some entry.2 else rest.lookup key := by
  rw [List.lookup_cons]
  by_cases same : key = entry.1
  · simp [same]
  · simp [beq_false_of_ne same, same]

theorem lookup_setEntry (key value other : String) (entries : List (String × String)) :
    (setEntry key value entries).lookup other =
      if other = key then some value else entries.lookup other := by
  induction entries with
  | nil => rw [setEntry, lookup_cons_eq_if]
  | cons entry rest ih =>
      simp only [setEntry]
      split
      · rw [lookup_cons_eq_if]
      · split
        · rename_i equal
          rw [lookup_cons_eq_if, lookup_cons_eq_if, ← equal]
          split <;> rfl
        · rename_i different
          rw [lookup_cons_eq_if, lookup_cons_eq_if, ih]
          by_cases first : other = entry.1
          · simp [first, Ne.symm different]
          · simp [first]

namespace Parameters

variable {p q : Parameters} {key value text : String}

theorem keys_nodup (p : Parameters) : (p.entries.map Prod.fst).Nodup := by
  refine List.pairwise_map.mpr (p.sorted.imp ?_)
  intro entry later smaller
  exact smaller.ne

theorem get?_eq_some_iff : p.get? key = some value ↔ (key, value) ∈ p.entries :=
  Names.lookup_eq_some_iff_mem p.keys_nodup

/-- The order of the entries says nothing beyond what is found under the keys. -/
theorem ext_get? (same : ∀ key, p.get? key = q.get? key) : p = q := by
  have members : ∀ entry, entry ∈ p.entries ↔ entry ∈ q.entries := by
    rintro ⟨key, value⟩
    rw [← get?_eq_some_iff, ← get?_eq_some_iff, same]
  have perm : p.entries.Perm q.entries :=
    (List.perm_ext_iff_of_nodup p.keys_nodup.of_map q.keys_nodup.of_map).mpr members
  have equal : p.entries = q.entries := by
    refine perm.eq_of_pairwise ?_ p.sorted q.sorted
    intro a b _ _ less more
    exact absurd less more.asymm
  cases p
  cases q
  simpa using equal

theorem get?_insert (p : Parameters) (key value other : String) :
    (p.insert key value).get? other = if other = key then some value else p.get? other :=
  lookup_setEntry key value other p.entries

theorem get?_ofEntries (entries : List (String × String)) (key : String) :
    (ofEntries entries).get? key = entries.reverse.lookup key := by
  induction entries using List.reverseRecOn with
  | nil => rfl
  | append_singleton entries entry ih =>
      have last : ofEntries (entries ++ [entry]) = (ofEntries entries).insert entry.1 entry.2 :=
        List.foldl_concat ..
      rw [last, get?_insert, ih, List.reverse_concat, lookup_cons_eq_if]

theorem ofEntries_entries (p : Parameters) : ofEntries p.entries = p := by
  apply ext_get?
  intro key
  rw [get?_ofEntries]
  exact Names.lookup_perm p.keys_nodup p.entries.reverse_perm

/-- A text gives every value after its key, as `key=value;`, in the order of the keys. -/
def WrittenAs (p : Parameters) (text : String) : Prop :=
  ∃ entries : List (String × String), entries.Pairwise (fun a b => a.1 < b.1) ∧
    (∀ key value, (key, value) ∈ entries ↔ p.get? key = some value) ∧
    text = String.join (entries.map fun entry => entry.1 ++ "=" ++ entry.2 ++ ";")

theorem writtenAs_iff : p.WrittenAs text ↔ text = p.toFormatLine := by
  constructor
  · rintro ⟨entries, sorted, listed, rfl⟩
    have same : (⟨entries, sorted⟩ : Parameters) = p := by
      apply ext_get?
      intro key
      ext value
      rw [get?_eq_some_iff, listed]
    rw [← same]
    rfl
  · rintro rfl
    exact ⟨p.entries, p.sorted, fun _ _ => get?_eq_some_iff.symm, rfl⟩

end Parameters

end Fanout.Codec
