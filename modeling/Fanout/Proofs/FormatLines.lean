import Fanout.Proofs.Parameters
import Fanout.Proofs.Texts

/-! # Format lines are read back

Semicolons separate the items of a format line, and an item gives a key a value around its first
equals sign (`Gives`). Blanks at the ends of a key or a value do not count, so it is pinned down
first what trimming leaves: the part with no blank at either end and only blanks around it
(`Text.trim_eq_iff`). What any item gives is what its key and value alone would give (`Givable`),
which is why parameters that were read are read back from the line they are written as. A written
line ends in a separator, and the empty item after it gives nothing.
-/

namespace Fanout

namespace Codec

open Text (Trimmed TrimsTo)

variable {item left right : List Char} {key value : String}

/-- One item of a format line gives a key a value. They stand around its first equals sign, with
blanks around either, and a blank key is none. -/
structure Gives (item : List Char) (key value : String) : Prop where
  parts : ∃ left right, item = left ++ '=' :: right ∧ '=' ∉ left ∧
    TrimsTo left key.toList ∧ TrimsTo right value.toList
  named : key ≠ ""

/-- An item that has no equals sign, or only blanks in front of one. -/
def Idle (item : List Char) : Prop :=
  '=' ∉ item ∨ ∃ left right, item = left ++ '=' :: right ∧ ∀ c ∈ left, Text.isBlank c

/-- A key and a value that an item of a format line can give. -/
structure Givable (key value : String) : Prop where
  key_named : key ≠ ""
  key_unseparated : ';' ∉ key.toList ∧ '=' ∉ key.toList
  key_trimmed : Trimmed key.toList
  value_unseparated : ';' ∉ value.toList
  value_trimmed : Trimmed value.toList

theorem Gives.givable (gives : Gives item key value) (free : ';' ∉ item) : Givable key value := by
  obtain ⟨⟨left, right, rfl, unequal, ⟨key_trimmed, b, a, rfl, -⟩, ⟨value_trimmed, b', a', rfl, -⟩⟩,
    named⟩ := gives
  simp only [List.mem_append, List.mem_cons, not_or] at free unequal
  exact ⟨named, ⟨free.1.1.2, unequal.1.2⟩, key_trimmed, free.2.2.1.2, value_trimmed⟩

theorem Givable.gives (givable : Givable key value) :
    Gives (key.toList ++ '=' :: value.toList) key value := by
  have kept : ∀ {t : List Char}, Trimmed t → TrimsTo t t :=
    fun trimmed => ⟨trimmed, [], [], by simp, by simp, by simp⟩
  exact ⟨⟨_, _, rfl, givable.key_unseparated.2, kept givable.key_trimmed,
    kept givable.value_trimmed⟩, givable.key_named⟩

namespace Parameters

variable {p : Parameters}

theorem entryOfItem?_append (free : '=' ∉ left) :
    entryOfItem? (left ++ '=' :: right) =
      if Text.trim left = [] then none
      else some (String.ofList (Text.trim left), String.ofList (Text.trim right)) := by
  simp only [entryOfItem?, Text.cut?_append free, List.isEmpty_iff]

theorem entryOfItem?_eq_some_iff :
    entryOfItem? item = some (key, value) ↔ Gives item key value := by
  constructor
  · intro read
    by_cases present : '=' ∈ item
    · obtain ⟨left, right, rfl, free⟩ := List.eq_append_cons_of_mem present
      rw [entryOfItem?_append free] at read
      split at read
      · cases read
      · rename_i named
        cases read
        refine ⟨⟨left, right, rfl, free, ?_, ?_⟩, by simpa [← String.toList_inj] using named⟩
        · simpa using Text.trim_trimsTo left
        · simpa using Text.trim_trimsTo right
    · rw [entryOfItem?, Text.cut?_of_not_mem present] at read
      cases read
  · rintro ⟨⟨left, right, rfl, free, key_trims, value_trims⟩, named⟩
    have nonempty : key.toList ≠ [] := fun none => named (String.toList_eq_nil_iff.mp none)
    rw [entryOfItem?_append free, Text.trim_eq_iff.mpr key_trims, Text.trim_eq_iff.mpr value_trims,
      if_neg nonempty, String.ofList_toList, String.ofList_toList]

theorem entryOfItem?_eq_none_iff : entryOfItem? item = none ↔ Idle item := by
  constructor
  · intro skipped
    by_cases present : '=' ∈ item
    · obtain ⟨left, right, rfl, free⟩ := List.eq_append_cons_of_mem present
      rw [entryOfItem?_append free] at skipped
      refine .inr ⟨left, right, rfl, Text.trim_eq_nil_iff.mp ?_⟩
      by_contra named
      rw [if_neg named] at skipped
      cases skipped
    · exact .inl present
  · rintro (missing | ⟨left, right, rfl, blank⟩)
    · rw [entryOfItem?, Text.cut?_of_not_mem missing]
    · have free : '=' ∉ left := fun member => absurd (blank _ member) (by decide)
      rw [entryOfItem?_append free, if_pos (Text.trim_eq_nil_iff.mpr blank)]

theorem lookup_filterMap_eq_some_iff {α : Type} {read? : α → Option (String × String)}
    {items : List α} :
    (items.filterMap read?).lookup key = some value ↔
      ∃ before item after, items = before ++ item :: after ∧ read? item = some (key, value) ∧
        ∀ earlier ∈ before, ∀ other, read? earlier ≠ some (key, other) := by
  rw [List.lookup_eq_some_iff]
  constructor
  · rintro ⟨entries, later, split, others⟩
    obtain ⟨start, rest, rfl, rfl, onward⟩ := List.filterMap_eq_append_iff.mp split
    obtain ⟨skipped, item, after, rfl, idle, here, -⟩ := List.filterMap_eq_cons_iff.mp onward
    refine ⟨start ++ skipped, item, after, by simp, here, fun earlier member other same => ?_⟩
    rcases List.mem_append.mp member with first | second
    · have listed := List.mem_filterMap.mpr ⟨earlier, first, same⟩
      simpa using others _ listed
    · rw [idle earlier second] at same
      cases same
  · rintro ⟨before, item, after, rfl, here, others⟩
    refine ⟨before.filterMap read?, after.filterMap read?, ?_, ?_⟩
    · rw [List.filterMap_append, List.filterMap_cons, here]
    · intro entry listed
      obtain ⟨earlier, member, read⟩ := List.mem_filterMap.mp listed
      have different : key ≠ entry.1 := fun same => others earlier member entry.2 (same ▸ read)
      simpa using different

theorem get?_ofFormatLine_eq_some_iff {line : String} :
    (ofFormatLine line).get? key = some value ↔
      ∃ before item after, line.toList.splitOn ';' = before ++ item :: after ∧
        Gives item key value ∧ ∀ later ∈ after, ∀ other, ¬ Gives later key other := by
  rw [ofFormatLine, get?_ofEntries, ← List.filterMap_reverse, lookup_filterMap_eq_some_iff]
  simp only [ne_eq, entryOfItem?_eq_some_iff, List.reverse_eq_append_iff, List.reverse_cons,
    List.append_assoc, List.singleton_append]
  constructor
  · rintro ⟨after, item, before, split, gives, others⟩
    exact ⟨before.reverse, item, after.reverse, split, gives, by simpa using others⟩
  · rintro ⟨before, item, after, split, gives, others⟩
    refine ⟨after.reverse, item, before.reverse, ?_, gives, ?_⟩
    · simpa using split
    · simpa using others

theorem ofFormatLine_get?_givable {line : String}
    (found : (ofFormatLine line).get? key = some value) :
    Givable key value := by
  obtain ⟨before, item, after, split, gives, -⟩ := get?_ofFormatLine_eq_some_iff.mp found
  have member : item ∈ line.toList.splitOn ';' := by simp [split]
  exact gives.givable (Text.not_mem_of_mem_splitOn member)

def itemOfEntry (entry : String × String) : List Char :=
  entry.1.toList ++ '=' :: entry.2.toList

theorem toFormatLine_toList (p : Parameters) :
    p.toFormatLine.toList = (p.entries.map itemOfEntry).flatMap (· ++ [';']) := by
  simp [toFormatLine, itemOfEntry, List.flatMap_map]

theorem ofFormatLine_toFormatLine
    (givable : ∀ key value, p.get? key = some value → Givable key value) :
    ofFormatLine p.toFormatLine = p := by
  have listed : ∀ entry ∈ p.entries, Givable entry.1 entry.2 :=
    fun entry member => givable _ _ (get?_eq_some_iff.mpr member)
  have unseparated : ∀ item ∈ p.entries.map itemOfEntry, ';' ∉ item := by
    intro item member
    obtain ⟨entry, inside, rfl⟩ := List.mem_map.mp member
    have entry_givable := listed entry inside
    simp [itemOfEntry, entry_givable.key_unseparated.1, entry_givable.value_unseparated]
  have read : (p.entries.map itemOfEntry).filterMap entryOfItem? = p.entries := by
    rw [List.filterMap_map]
    refine (List.filterMap_congr fun entry member => ?_).trans List.filterMap_some
    exact entryOfItem?_eq_some_iff.mpr (listed entry member).gives
  have last : entryOfItem? [] = none := entryOfItem?_eq_none_iff.mpr (.inl List.not_mem_nil)
  rw [ofFormatLine, toFormatLine_toList, Text.splitOn_flatMap unseparated, List.filterMap_append,
    read, List.filterMap_cons, last, List.filterMap_nil, List.append_nil, ofEntries_entries]

theorem ofFormatLine_of_idle {line shorter : String} {before after : List (List Char)}
    (split : line.toList.splitOn ';' = before ++ item :: after)
    (split' : shorter.toList.splitOn ';' = before ++ after) (idle : Idle item) :
    ofFormatLine line = ofFormatLine shorter := by
  have skipped := entryOfItem?_eq_none_iff.mpr idle
  simp only [ofFormatLine, split, split', List.filterMap_append, List.filterMap_cons, skipped]

end Parameters

open Parameters

/-- Reading a format line and writing parameters undo each other. What is read can be given by an
item, and all parameters that can are read back. Of several items for one key the last one counts,
and an item without an equals sign or with a blank key does not count at all. -/
theorem formatLine_inverse (c : Capability) :
    (∀ line key value, (c.withFormatLine line).parameters.get? key = some value →
      Givable key value) ∧
    (∀ p : Parameters, p.WrittenAs p.toFormatLine) ∧
    (∀ p : Parameters, (∀ key value, p.get? key = some value → Givable key value) →
      (c.withFormatLine p.toFormatLine).parameters = p) ∧
    (∀ line, c.withFormatLine (c.withFormatLine line).parameters.toFormatLine =
      c.withFormatLine line) ∧
    (∀ line key value, (c.withFormatLine line).parameters.get? key = some value ↔
      ∃ before item after, line.toList.splitOn ';' = before ++ item :: after ∧
        Gives item key value ∧ ∀ later ∈ after, ∀ other, ¬ Gives later key other) ∧
    ∀ line shorter before item after, line.toList.splitOn ';' = before ++ item :: after →
      shorter.toList.splitOn ';' = before ++ after → Idle item →
      c.withFormatLine line = c.withFormatLine shorter := by
  refine ⟨fun _ _ _ => ofFormatLine_get?_givable, fun _ => writtenAs_iff.mpr rfl,
    fun _ => ofFormatLine_toFormatLine, ?_, fun _ _ _ => get?_ofFormatLine_eq_some_iff, ?_⟩
  · intro line
    have again : ofFormatLine (ofFormatLine line).toFormatLine = ofFormatLine line :=
      ofFormatLine_toFormatLine fun _ _ => ofFormatLine_get?_givable
    exact congrArg (fun read => { c with parameters := read }) again
  · intro line shorter before item after split split' idle
    have same := ofFormatLine_of_idle split split' idle
    exact congrArg (fun read => { c with parameters := read }) same

example : (Parameters.ofFormatLine "a = 1=2;b; =c;a=3").entries = [("a", "3")] := by decide

end Codec

end Fanout
