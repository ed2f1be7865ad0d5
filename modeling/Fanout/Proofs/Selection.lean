import Fanout.Codec.Preference
import Fanout.Proofs.Parameters
import Fanout.Proofs.Texts

/-! # What a preference selects

A preference selects twice from the same list: the capabilities that serve as the codec wanted
(`Serves`), and then those that repair it (`Repairs`). The two need not be apart. Where the codec
wanted is itself a repair codec that was asked for, it is selected both times, and nothing else can
come more often than it is supported (`count_of_select`).
-/

namespace Fanout.Codec

/-- What a media type names: the part after its first slash, or all of it where there is none. -/
inductive SubtypeOf : String → String → Prop where
  | parted {kind subtype : String} (first : '/' ∉ kind.toList) :
      SubtypeOf (kind ++ "/" ++ subtype) subtype
  | bare {subtype : String} (none : '/' ∉ subtype.toList) : SubtypeOf subtype subtype

namespace Capability

variable {c : Capability} {name other : String}

def GoesBy (c : Capability) (name : String) : Prop :=
  ∃ subtype, SubtypeOf c.mimeType subtype ∧ Text.SameButCase subtype name

theorem subtypeOf_name (c : Capability) : SubtypeOf c.mimeType c.name := by
  by_cases present : '/' ∈ c.mimeType.toList
  · obtain ⟨kind, subtype, split, first⟩ := List.eq_append_cons_of_mem present
    have parted : c.mimeType = String.ofList kind ++ "/" ++ String.ofList subtype := by
      rw [← String.toList_inj]
      simp [split]
    rw [name, split, Text.cut?_append first]
    simp only
    rw [parted]
    exact .parted (by simpa using first)
  · rw [name, Text.cut?_of_not_mem present]
    exact .bare present

theorem name_of_subtypeOf (named : SubtypeOf c.mimeType name) : c.name = name := by
  rw [Capability.name]
  generalize c.mimeType = type at named
  cases named with
  | parted first => simp [Text.cut?_append first]
  | bare none => rw [Text.cut?_of_not_mem none]

theorem isNamed_iff : c.isNamed name ↔ c.GoesBy name := by
  rw [isNamed, Text.sameUpToCase_iff]
  constructor
  · intro same
    exact ⟨_, c.subtypeOf_name, same⟩
  · rintro ⟨subtype, named, same⟩
    rwa [name_of_subtypeOf named]

theorem isNamed_congr (same : Text.SameButCase name other) : c.isNamed name = c.isNamed other := by
  have folded := Text.sameUpToCase_iff.mpr same
  simp only [Text.sameUpToCase, decide_eq_true_eq] at folded
  simp only [isNamed, Text.sameUpToCase, folded]

theorem GoesBy.sameButCase (named : c.GoesBy name) (named' : c.GoesBy other) :
    Text.SameButCase name other := by
  rw [← isNamed_iff, isNamed, Text.sameUpToCase, decide_eq_true_eq] at named named'
  rw [← Text.sameUpToCase_iff, Text.sameUpToCase, decide_eq_true_eq, ← named, named']

end Capability

theorem Parameters.includes_iff {p required : Parameters} :
    p.includes required ↔
      ∀ key value, required.get? key = some value → p.get? key = some value := by
  simp only [includes, List.all_eq_true, decide_eq_true_eq, get?_eq_some_iff, Prod.forall]

namespace Preference

variable {p q : Preference} {c : Capability} {supported chosen : List Capability}

/-- A capability is the codec wanted: it goes by its name and has every parameter required. -/
structure Serves (p : Preference) (c : Capability) : Prop where
  named : c.GoesBy p.codecName
  equipped : ∀ key value, p.required.get? key = some value → c.parameters.get? key = some value

inductive Repairs (p : Preference) (c : Capability) : Prop where
  | retransmission (wanted : p.retransmission) (named : c.GoesBy "rtx")
  | correction {name : String} (wanted : p.flexibleCorrection)
      (known : name ∈ ["flexfec-03", "red", "ulpfec"]) (named : c.GoesBy name)

theorem isPrimary_iff : p.isPrimary c ↔ p.Serves c := by
  rw [isPrimary, Bool.and_eq_true, Capability.isNamed_iff, Parameters.includes_iff]
  exact ⟨fun ⟨named, equipped⟩ => ⟨named, equipped⟩, fun ⟨named, equipped⟩ => ⟨named, equipped⟩⟩

theorem corrects_iff :
    (c.isNamed flexibleCorrectionName || c.isNamed redundancyName ||
      c.isNamed unevenCorrectionName) ↔
      ∃ name ∈ ["flexfec-03", "red", "ulpfec"], c.GoesBy name := by
  simp only [← Capability.isNamed_iff, List.mem_cons, List.not_mem_nil, or_false,
    exists_eq_or_imp, exists_eq_left, Bool.or_eq_true, or_assoc]
  rfl

/-- A retransmission codec is no correction codec, as their names differ in more than case. -/
theorem not_corrects_of_retransmits {name : String} (named : c.GoesBy "rtx")
    (known : name ∈ ["flexfec-03", "red", "ulpfec"]) : ¬ c.GoesBy name := by
  intro named'
  have same := Text.sameUpToCase_iff.mpr (named.sameButCase named')
  have differ : ∀ name ∈ ["flexfec-03", "red", "ulpfec"], ¬ Text.sameUpToCase "rtx" name := by
    decide
  exact differ name known same

theorem isRepair_iff : p.isRepair c ↔ p.Repairs c := by
  rw [isRepair]
  constructor
  · intro repairs
    split at repairs
    · rename_i named
      exact .retransmission repairs (Capability.isNamed_iff.mp named)
    · split at repairs
      · rename_i named
        obtain ⟨name, known, named⟩ := corrects_iff.mp named
        exact .correction repairs known named
      · cases repairs
  · rintro (⟨wanted, named⟩ | ⟨wanted, known, named⟩)
    · have retransmits : c.isNamed retransmissionName := Capability.isNamed_iff.mpr named
      rw [if_pos retransmits, wanted]
    · have other : ¬ c.isNamed retransmissionName := fun retransmits =>
        not_corrects_of_retransmits (Capability.isNamed_iff.mp retransmits) known named
      rw [if_neg other, if_pos (corrects_iff.mpr ⟨_, known, named⟩), wanted]

instance (p : Preference) : DecidablePred p.Serves :=
  fun _ => decidable_of_iff _ isPrimary_iff

instance (p : Preference) : DecidablePred p.Repairs :=
  fun _ => decidable_of_iff _ isRepair_iff

theorem select_eq_if (p : Preference) (supported : List Capability) :
    p.select supported =
      if ∃ c ∈ supported, p.Serves c then
        .ok (supported.filter (p.Serves ·) ++ supported.filter (p.Repairs ·))
      else .error (.codecNotSupported p.codecName p.required.toFormatLine) := by
  have found : supported.any p.isPrimary ↔ ∃ c ∈ supported, p.Serves c := by
    simp only [List.any_eq_true, isPrimary_iff]
  have primaries : supported.filter p.isPrimary = supported.filter (p.Serves ·) := by
    simp only [← isPrimary_iff, Bool.decide_eq_true]
  have repairs : supported.filter p.isRepair = supported.filter (p.Repairs ·) := by
    simp only [← isRepair_iff, Bool.decide_eq_true]
  rw [select, primaries, repairs]
  simp only [found]

theorem select_eq_ok_iff :
    p.select supported = .ok chosen ↔ (∃ c ∈ supported, p.Serves c) ∧
      chosen = supported.filter (p.Serves ·) ++ supported.filter (p.Repairs ·) := by
  rw [select_eq_if]
  split
  · rename_i served
    simp only [served, Except.ok.injEq, eq_comm, true_and]
  · rename_i unserved
    simp only [unserved, reduceCtorEq, false_and]

theorem select_eq_error_iff {fault : Fault} :
    p.select supported = .error fault ↔ (¬ ∃ c ∈ supported, p.Serves c) ∧
      fault = .codecNotSupported p.codecName p.required.toFormatLine := by
  rw [select_eq_if]
  split
  · rename_i served
    simp only [served, reduceCtorEq, not_true, false_and]
  · rename_i unserved
    simp only [unserved, Except.error.injEq, eq_comm, not_false_eq_true, true_and]

theorem repairs_congr {name : String} : { p with codecName := name }.Repairs c ↔ p.Repairs c := by
  rw [← isRepair_iff, ← isRepair_iff]
  rfl

theorem serves_congr {name : String} (same : Text.SameButCase p.codecName name) :
    { p with codecName := name }.Serves c ↔ p.Serves c := by
  rw [← isPrimary_iff, ← isPrimary_iff, isPrimary, isPrimary, Capability.isNamed_congr same]

/-! ## Settings -/

namespace Setting

def codecName? : Setting → Option String
  | .codecName name => some name
  | _ => none

def required? (key : String) : Setting → Option String
  | .requiredParameter k value => if key = k then some value else none
  | _ => none

def retransmission? : Setting → Option Bool
  | .retransmission wanted => some wanted
  | _ => none

def unevenCorrection? : Setting → Option Bool
  | .unevenCorrection wanted => some wanted
  | _ => none

def flexibleCorrection? : Setting → Option Bool
  | .flexibleCorrection wanted => some wanted
  | _ => none

end Setting

/-- What the last of the settings gives that gives anything. -/
def lastGiven {α : Type} (given? : Setting → Option α) (settings : List Setting) : Option α :=
  (settings.filterMap given?).getLast?

theorem lastGiven_concat {α : Type} (given? : Setting → Option α) (settings : List Setting)
    (setting : Setting) :
    lastGiven given? (settings ++ [setting]) = (given? setting).or (lastGiven given? settings) := by
  simp [lastGiven]

/-- A preference holds what was set last for each of its fields and for each required key, and
nothing else. -/
structure HoldsLast (p : Preference) (settings : List Setting) : Prop where
  codecName : p.codecName = (lastGiven Setting.codecName? settings).getD ""
  required : ∀ key, p.required.get? key = lastGiven (Setting.required? key) settings
  retransmission : p.retransmission = (lastGiven Setting.retransmission? settings).getD false
  unevenCorrection : p.unevenCorrection = (lastGiven Setting.unevenCorrection? settings).getD false
  flexibleCorrection :
    p.flexibleCorrection = (lastGiven Setting.flexibleCorrection? settings).getD false

namespace HoldsLast

variable {settings : List Setting}

theorem unique (holds : p.HoldsLast settings) (holds' : q.HoldsLast settings) : p = q := by
  have required : p.required = q.required :=
    Parameters.ext_get? fun key => (holds.required key).trans (holds'.required key).symm
  have codecName := holds.codecName.trans holds'.codecName.symm
  have retransmission := holds.retransmission.trans holds'.retransmission.symm
  have unevenCorrection := holds.unevenCorrection.trans holds'.unevenCorrection.symm
  have flexibleCorrection := holds.flexibleCorrection.trans holds'.flexibleCorrection.symm
  cases p
  cases q
  congr

theorem apply (holds : p.HoldsLast settings) (setting : Setting) :
    (p.apply setting).HoldsLast (settings ++ [setting]) := by
  constructor
  case codecName =>
    rw [lastGiven_concat]
    cases setting with
    | codecName => rfl
    | _ => exact holds.codecName
  case required =>
    intro key
    rw [lastGiven_concat, ← holds.required key]
    cases setting with
    | requiredParameter k value =>
        simp only [Preference.apply, Parameters.get?_insert, Setting.required?]
        split <;> rfl
    | _ => rfl
  case retransmission =>
    rw [lastGiven_concat]
    cases setting with
    | retransmission => rfl
    | _ => exact holds.retransmission
  case unevenCorrection =>
    rw [lastGiven_concat]
    cases setting with
    | unevenCorrection => rfl
    | _ => exact holds.unevenCorrection
  case flexibleCorrection =>
    rw [lastGiven_concat]
    cases setting with
    | flexibleCorrection => rfl
    | _ => exact holds.flexibleCorrection

end HoldsLast

theorem ofSettings_holdsLast (settings : List Setting) :
    (ofSettings settings).HoldsLast settings := by
  induction settings using List.reverseRecOn with
  | nil => exact ⟨rfl, fun _ => rfl, rfl, rfl, rfl⟩
  | append_singleton settings setting ih =>
      have last : ofSettings (settings ++ [setting]) = (ofSettings settings).apply setting :=
        List.foldl_concat ..
      rw [last]
      exact ih.apply setting

/-! ## Selections -/

/-- All that a selection depends on, and all that it can be. It succeeds exactly if a capability
serves, and lists those that serve before those that repair, each in the order of the capabilities.
Uneven error correction and the case of the codec name do not matter, and of the settings that make
a preference the last one for each field and for each key does. -/
theorem select_outcome (p : Preference) (supported : List Capability) :
    ((∃ chosen, p.select supported = .ok chosen) ↔ ∃ c ∈ supported, p.Serves c) ∧
    (∀ chosen, p.select supported = .ok chosen →
      chosen = supported.filter (p.Serves ·) ++ supported.filter (p.Repairs ·)) ∧
    (∀ fault, p.select supported = .error fault → ∃ parameters,
      p.required.WrittenAs parameters ∧ fault = .codecNotSupported p.codecName parameters) ∧
    (∀ wanted, { p with unevenCorrection := wanted }.select supported = p.select supported) ∧
    (∀ name, Text.SameButCase p.codecName name →
      (∀ chosen, { p with codecName := name }.select supported = .ok chosen ↔
        p.select supported = .ok chosen) ∧
      ∀ parameters,
        { p with codecName := name }.select supported = .error (.codecNotSupported name parameters) ↔
          p.select supported = .error (.codecNotSupported p.codecName parameters)) ∧
    ∀ settings, (ofSettings settings).HoldsLast settings ∧
      (p.HoldsLast settings → (ofSettings settings).select supported = p.select supported) := by
  refine ⟨?_, ?_, ?_, fun _ => rfl, fun name same => ⟨?_, ?_⟩, fun settings =>
    ⟨ofSettings_holdsLast settings, ?_⟩⟩
  · simp only [select_eq_ok_iff, exists_and_left, exists_eq, and_true]
  · intro chosen selected
    exact (select_eq_ok_iff.mp selected).2
  · intro fault refused
    exact ⟨_, Parameters.writtenAs_iff.mpr rfl, (select_eq_error_iff.mp refused).2⟩
  · intro chosen
    simp only [select_eq_ok_iff, serves_congr same, repairs_congr]
  · intro parameters
    simp only [select_eq_error_iff, serves_congr same, Fault.codecNotSupported.injEq, true_and]
  · intro holds
    rw [(ofSettings_holdsLast settings).unique holds]

theorem count_filter_eq_if (q : Capability → Prop) [DecidablePred q] (supported : List Capability)
    (c : Capability) :
    (supported.filter (q ·)).count c = if q c then supported.count c else 0 := by
  split
  · rename_i kept
    exact List.count_filter (decide_eq_true kept)
  · rename_i dropped
    apply List.count_eq_zero_of_not_mem
    intro member
    exact dropped (of_decide_eq_true (List.mem_filter.mp member).2)

theorem count_of_select (selected : p.select supported = .ok chosen) (c : Capability) :
    chosen.count c = (if p.Serves c then supported.count c else 0) +
      if p.Repairs c then supported.count c else 0 := by
  obtain ⟨-, rfl⟩ := select_eq_ok_iff.mp selected
  rw [List.count_append, count_filter_eq_if p.Serves, count_filter_eq_if p.Repairs]

/-- Both parts of a selection come from the same capabilities, so none comes too often exactly if
the parts have none in common. -/
theorem count_le_iff (selected : p.select supported = .ok chosen) :
    (∀ c, chosen.count c ≤ supported.count c) ↔
      ∀ c ∈ supported, ¬ (p.Serves c ∧ p.Repairs c) := by
  constructor
  · rintro bounded c member ⟨serves, repairs⟩
    have present := List.count_pos_iff.mpr member
    have twice := bounded c
    rw [count_of_select selected, if_pos serves, if_pos repairs] at twice
    omega
  · intro apart c
    rw [count_of_select selected]
    by_cases member : c ∈ supported
    · have once := apart c member
      split
      · rename_i serves
        have no_repair : ¬ p.Repairs c := fun repairs => once ⟨serves, repairs⟩
        rw [if_neg no_repair, Nat.add_zero]
      · split <;> omega
    · simp [List.count_eq_zero_of_not_mem member]

theorem Serves.sameButCase_of_repairs (serves : p.Serves c) (repairs : p.Repairs c) :
    (p.retransmission ∧ Text.SameButCase p.codecName "rtx") ∨
      p.flexibleCorrection ∧
        ∃ name ∈ ["flexfec-03", "red", "ulpfec"], Text.SameButCase p.codecName name := by
  cases repairs with
  | retransmission wanted named => exact .inl ⟨wanted, serves.named.sameButCase named⟩
  | correction wanted known named =>
      exact .inr ⟨wanted, _, known, serves.named.sameButCase named⟩

/-- How often a capability is selected: as often as it is supported if it serves, and as often again
if it repairs. So no capability comes more often than it is supported, unless one that is supported
does both, and that takes a codec name that is the name of a repair codec asked for. -/
theorem count_selected (selected : p.select supported = .ok chosen) :
    (∀ c, chosen.count c = (if p.Serves c then supported.count c else 0) +
      if p.Repairs c then supported.count c else 0) ∧
    ((∀ c, chosen.count c ≤ supported.count c) ↔
      ∀ c ∈ supported, ¬ (p.Serves c ∧ p.Repairs c)) ∧
    ((p.retransmission → ¬ Text.SameButCase p.codecName "rtx") →
      (p.flexibleCorrection → ∀ name ∈ ["flexfec-03", "red", "ulpfec"],
        ¬ Text.SameButCase p.codecName name) →
      ∀ c, chosen.count c ≤ supported.count c) := by
  refine ⟨count_of_select selected, count_le_iff selected, ?_⟩
  intro retransmission correction
  refine (count_le_iff selected).mpr ?_
  rintro c - ⟨serves, repairs⟩
  obtain ⟨wanted, same⟩ | ⟨wanted, name, known, same⟩ := serves.sameButCase_of_repairs repairs
  · exact retransmission wanted same
  · exact correction wanted name known same

def retransmissionFirst : Preference :=
  ofSettings [.codecName "RTX", .retransmission true, .flexibleCorrection true]

/-- Capabilities for one use of each codec that is at hand. -/
def videoCapabilities : List Capability :=
  ["video/VP8", "video/rtx", "video/red"].map fun type => ⟨type, 90000, 0, .empty⟩

theorem retransmissionFirst_select :
    retransmissionFirst.select videoCapabilities =
      .ok (["video/rtx", "video/rtx", "video/red"].map fun type => ⟨type, 90000, 0, .empty⟩) := by
  decide +kernel

theorem retransmissionFirst_counts :
    ∃ chosen, retransmissionFirst.select videoCapabilities = .ok chosen ∧
      (∀ c, chosen.count c =
        (if retransmissionFirst.Serves c then videoCapabilities.count c else 0) +
          if retransmissionFirst.Repairs c then videoCapabilities.count c else 0) ∧
      ((∀ c, chosen.count c ≤ videoCapabilities.count c) ↔
        ∀ c ∈ videoCapabilities, ¬ (retransmissionFirst.Serves c ∧ retransmissionFirst.Repairs c)) :=
  have counted := count_selected retransmissionFirst_select
  ⟨_, retransmissionFirst_select, counted.1, counted.2.1⟩

/-- No capability is supported more than once, and one is selected twice. -/
theorem retransmissionFirst_selects_twice :
    ∃ chosen c, retransmissionFirst.select videoCapabilities = .ok chosen ∧
      videoCapabilities.Nodup ∧ ¬ chosen.count c ≤ videoCapabilities.count c :=
  ⟨_, ⟨"video/rtx", 90000, 0, .empty⟩, retransmissionFirst_select, by decide, by decide⟩

end Preference

end Fanout.Codec
