import Fanout.Text
import Mathlib.Data.List.DropRight

/-! # Texts trimmed, cut and compared

What trimming, cutting and splitting leave of a text is said here without the way it is found. To
trim is to take away blanks at both ends and nothing else (`trim_eq_iff`), and a text is cut at its
first separator (`cut?_append`) and split at all of them. Folding decides whether two texts differ
at most in case, and among ASCII texts that is a matter of capital and small letters alone
(`sameUpToCase_iff`).
-/

namespace Fanout

namespace Text

variable {s t left right before after : List Char} {separator : Char}

structure Trimmed (t : List Char) : Prop where
  head : ∀ c ∈ t.head?, ¬ isBlank c
  last : ∀ c ∈ t.getLast?, ¬ isBlank c

/-- One text is the other with blanks around it. -/
structure TrimsTo (s t : List Char) : Prop where
  trimmed : Trimmed t
  blanks : ∃ before after, s = before ++ t ++ after ∧
    (∀ c ∈ before, isBlank c) ∧ ∀ c ∈ after, isBlank c

theorem trim_of_trimmed (trimmed : Trimmed t) : trim t = t := by
  have kept : t.dropWhile isBlank = t := by
    cases t with
    | nil => rfl
    | cons c rest => exact List.dropWhile_cons_of_neg (trimmed.head c rfl)
  change (t.dropWhile isBlank).rdropWhile isBlank = t
  rw [kept, List.rdropWhile_eq_self_iff]
  intro nonempty
  exact trimmed.last _ (List.getLast?_eq_getLast_of_ne_nil nonempty)

theorem trim_append_left (blank : ∀ c ∈ before, isBlank c) : trim (before ++ s) = trim s := by
  rw [trim, List.dropWhile_append_of_pos blank, trim]

theorem trim_append_right (blank : ∀ c ∈ after, isBlank c) : trim (s ++ after) = trim s := by
  have blank' : ∀ c ∈ after.reverse, isBlank c := by simpa using blank
  rw [trim, List.dropWhile_append, trim]
  split
  · rename_i none
    rw [List.isEmpty_iff.mp none, List.dropWhile_eq_nil_iff.mpr blank]
  · rw [List.reverse_append, List.dropWhile_append_of_pos blank']

theorem trim_trimsTo (s : List Char) : TrimsTo s (trim s) := by
  let rest := s.dropWhile isBlank
  have kept : trim s ++ rest.rtakeWhile isBlank = rest := List.rdropWhile_append_rtakeWhile
  refine ⟨⟨?_, ?_⟩, s.takeWhile isBlank, rest.rtakeWhile isBlank, ?_, ?_, ?_⟩
  · intro c first blank
    have start : rest.head? = some c := by
      rw [← kept, List.head?_append, first]
      rfl
    have stops := List.head?_dropWhile_not isBlank s
    rw [start] at stops
    exact absurd blank (by simpa using stops)
  · intro c last
    have nonempty : trim s ≠ [] := by
      intro none
      rw [none] at last
      cases last
    rw [List.getLast?_eq_getLast_of_ne_nil nonempty] at last
    cases last
    exact List.rdropWhile_last_not isBlank rest nonempty
  · rw [List.append_assoc, kept, List.takeWhile_append_dropWhile]
  · exact fun c => List.mem_takeWhile_imp
  · exact fun c => List.mem_rtakeWhile_imp

theorem trim_eq_iff : trim s = t ↔ TrimsTo s t := by
  constructor
  · rintro rfl
    exact trim_trimsTo s
  · rintro ⟨trimmed, before, after, rfl, blank, blank'⟩
    rw [trim_append_right blank', trim_append_left blank, trim_of_trimmed trimmed]

theorem trim_eq_nil_iff : trim s = [] ↔ ∀ c ∈ s, isBlank c := by
  rw [trim_eq_iff]
  constructor
  · rintro ⟨-, before, after, rfl, blank, blank'⟩ c member
    rw [List.append_nil, List.mem_append] at member
    exact member.elim (blank c) (blank' c)
  · intro blank
    exact ⟨⟨by simp, by simp⟩, s, [], by simp, blank, by simp⟩

theorem cut?_append (free : separator ∉ left) :
    cut? separator (left ++ separator :: right) = some (left, right) := by
  have other : ∀ c ∈ left, decide (c ≠ separator) = true :=
    fun c member => decide_eq_true fun same => free (same ▸ member)
  rw [cut?, List.dropWhile_append_of_pos other, List.takeWhile_append_of_pos other,
    List.dropWhile_cons_of_neg (by simp), List.takeWhile_cons_of_neg (by simp), List.append_nil]

theorem cut?_of_not_mem (free : separator ∉ s) : cut? separator s = none := by
  have none_left : s.dropWhile (· ≠ separator) = [] :=
    List.dropWhile_eq_nil_iff.mpr
      fun c member => decide_eq_true fun same => free (same ▸ member)
  rw [cut?, none_left]

theorem not_mem_of_mem_splitOn {item : List Char} (member : item ∈ s.splitOn separator) :
    separator ∉ item := by
  induction s generalizing item with
  | nil =>
      cases List.mem_singleton.mp member
      exact List.not_mem_nil
  | cons c rest ih =>
      obtain ⟨first, others, parts⟩ :=
        List.exists_cons_of_ne_nil (List.splitOn_ne_nil separator rest)
      rw [List.splitOn_cons_eq_if_modifyHead] at member
      split at member
      · rcases List.mem_cons.mp member with rfl | member
        · exact List.not_mem_nil
        · exact ih member
      · rename_i different
        rw [parts] at ih member
        rcases List.mem_cons.mp member with rfl | later
        · rw [List.mem_cons, not_or]
          exact ⟨fun same => different (by simp [same]), ih List.mem_cons_self⟩
        · exact ih (List.mem_cons_of_mem _ later)

/-- Items that each end in a separator are told apart, and an empty one comes after the last. -/
theorem splitOn_flatMap {items : List (List Char)} (free : ∀ item ∈ items, separator ∉ item) :
    (items.flatMap (· ++ [separator])).splitOn separator = items ++ [[]] := by
  induction items with
  | nil => rfl
  | cons item rest ih =>
      have onward := ih fun other member => free other (List.mem_cons_of_mem _ member)
      rw [List.flatMap_cons, List.append_assoc, List.singleton_append,
        List.splitOn_append_cons_self_of_not_mem (free item List.mem_cons_self), onward,
        List.cons_append]

/-! ## Case -/

section Case

variable {s t : String}

/-- Two texts are the same but for case. Where both are ASCII, only the case of their letters can
differ; otherwise every character is folded, and one may fold to several. -/
def SameButCase (s t : String) : Prop :=
  if (s.toList ++ t.toList).all (·.toNat < 128) then
    s.toList.map Char.toLower = t.toList.map Char.toLower
  else s.toList.flatMap foldChar = t.toList.flatMap foldChar

theorem lookup_foldExpansions_of_ascii {code : Nat} (ascii : code < 128) :
    foldExpansions.lookup code = none := by
  have wide : ∀ entry ∈ foldExpansions, 128 ≤ entry.1 := by decide
  rw [List.lookup_eq_none_iff]
  intro entry member
  have beyond := wide entry member
  have different : code ≠ entry.1 := by omega
  simpa using different

/-- Of the ASCII characters, only the capital letters are covered by a run, which is the first. -/
theorem find?_foldRuns_of_ascii {code : Nat} (ascii : code < 128) :
    foldRuns.find? (·.covers code) =
      if 0x41 ≤ code ∧ code ≤ 0x5a then some ⟨0x41, 0x5a, 1, 0x61⟩ else none := by
  have wide : ∀ run ∈ foldRuns.tail, 128 ≤ run.first := by decide +kernel
  have others : foldRuns.tail.find? (·.covers code) = none := by
    rw [List.find?_eq_none]
    intro run member
    have beyond := wide run member
    simp only [FoldRun.covers, Bool.and_eq_true, decide_eq_true_eq, not_and]
    omega
  change ((⟨0x41, 0x5a, 1, 0x61⟩ : FoldRun) :: foldRuns.tail).find? (·.covers code) = _
  by_cases capital : 0x41 ≤ code ∧ code ≤ 0x5a
  · rw [if_pos capital]
    exact List.find?_cons_of_pos (by simp [FoldRun.covers, capital, Nat.mod_one])
  · have uncovered : ¬ FoldRun.covers ⟨0x41, 0x5a, 1, 0x61⟩ code := by
      simp only [FoldRun.covers, Bool.and_eq_true, decide_eq_true_eq]
      exact fun covered => capital covered.1
    rw [if_neg capital, List.find?_cons_of_neg (by simpa using uncovered), others]

theorem toLower_eq_if (c : Char) :
    c.toLower = if 0x41 ≤ c.toNat ∧ c.toNat ≤ 0x5a then Char.ofNat (0x61 + (c.toNat - 0x41))
      else c := by
  split
  · rename_i capital
    have small : ∀ place : Fin 26,
        (Char.ofNat (0x41 + place)).toLower = Char.ofNat (0x61 + place) := by decide
    have place : c.toNat - 0x41 < 26 := by omega
    have whole : 0x41 + (c.toNat - 0x41) = c.toNat := by omega
    simpa [whole] using small ⟨c.toNat - 0x41, place⟩
  · rename_i other
    exact dif_neg other

theorem foldChar_of_ascii {c : Char} (ascii : c.toNat < 128) : foldChar c = [c.toLower] := by
  rw [toLower_eq_if]
  simp only [foldChar, lookup_foldExpansions_of_ascii ascii, find?_foldRuns_of_ascii ascii]
  by_cases capital : 0x41 ≤ c.toNat ∧ c.toNat ≤ 0x5a
  · simp only [capital, and_self, if_true]
  · simp only [capital, if_false]

theorem foldCase_of_ascii (ascii : ∀ c ∈ s.toList, c.toNat < 128) :
    foldCase s = s.toList.map Char.toLower := by
  rw [foldCase, List.map_eq_flatMap]
  exact List.flatMap_congr fun c member => foldChar_of_ascii (ascii c member)

theorem sameUpToCase_iff : sameUpToCase s t ↔ SameButCase s t := by
  rw [sameUpToCase, SameButCase, decide_eq_true_iff]
  split
  · rename_i ascii
    simp only [List.all_append, Bool.and_eq_true, List.all_eq_true, decide_eq_true_eq] at ascii
    rw [foldCase_of_ascii ascii.1, foldCase_of_ascii ascii.2]
  · rfl

end Case

end Text

end Fanout
