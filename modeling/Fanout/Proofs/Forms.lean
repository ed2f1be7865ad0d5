import Fanout.Json.Inverse
import Fanout.Session.Form

/-! # Forms are read back

Every value that is exchanged is read back from the text it is written as. The text is read back as
the JSON value it came from (`read?_render`), so it is left to show that each JSON form is read back
(`LawfulForm`). Forms are built of few shapes: words, lists, optional values and records. Each shape
is shown lawful once, from the forms of its parts, and a type is lawful as an instance of its shape.
-/

namespace Fanout

open Json (Fields word?)

/-- A form that is read back from what it is written as. -/
class LawfulForm (α : Type) [JsonForm α] : Prop where
  ofJson?_toJson : ∀ value : α, ofJson? (toJson value) = some value

/-- A form that never looks like an absent value. -/
class SolidForm (α : Type) [JsonForm α] : Prop where
  toJson_ne_null : ∀ value : α, toJson value ≠ .null

export LawfulForm (ofJson?_toJson)
export SolidForm (toJson_ne_null)

/-! ## Words -/

theorem lookup_word {α : Type} {word : α → String} {values : List α} {value : α}
    (distinct : (values.map word).Nodup) (listed : value ∈ values) :
    (values.map fun value => (word value, value)).lookup (word value) = some value := by
  rw [Names.lookup_eq_some_iff_mem (by simpa [Function.comp_def] using distinct)]
  exact List.mem_map_of_mem listed

/-- Words are read back if every value has a word and no two values share one. -/
theorem LawfulForm.ofWords {α : Type} [JsonForm α] {values : List α} {word : α → String}
    (written : ∀ value : α, toJson value = .text (word value))
    (read : ∀ json, (ofJson? json : Option α) =
      word? (values.map fun value => (word value, value)) json)
    (listed : ∀ value, value ∈ values) (distinct : (values.map word).Nodup) : LawfulForm α where
  ofJson?_toJson value := by
    rw [written, read]
    exact lookup_word distinct (listed value)

instance : LawfulForm DescriptionType :=
  .ofWords (fun _ => rfl) (fun _ => rfl) (by rintro ⟨⟩ <;> decide) (by decide)

instance : LawfulForm MediaKind :=
  .ofWords (fun _ => rfl) (fun _ => rfl) (by rintro ⟨⟩ <;> decide) (by decide)

instance : LawfulForm Direction :=
  .ofWords (fun _ => rfl) (fun _ => rfl) (by rintro ⟨⟩ <;> decide) (by decide)

instance : LawfulForm Protocol :=
  .ofWords (fun _ => rfl) (fun _ => rfl) (by rintro ⟨⟩ <;> decide) (by decide)

instance : LawfulForm SetupRole :=
  .ofWords (fun _ => rfl) (fun _ => rfl) (by rintro ⟨⟩ <;> decide) (by decide)

/-! ## Plain values, lists and optional values -/

instance : LawfulForm Bool where
  ofJson?_toJson _ := rfl

instance : LawfulForm String where
  ofJson?_toJson _ := rfl

instance : LawfulForm UInt16 where
  ofJson?_toJson value := by
    have fits : value.toNat < UInt16.size := value.toNat_lt
    simp only [toJson, ofJson?, Json.nat, fits, if_true, UInt16.ofNat_toNat]

instance : LawfulForm UInt32 where
  ofJson?_toJson value := by
    have fits : value.toNat < UInt32.size := value.toNat_lt
    simp only [toJson, ofJson?, Json.nat, fits, if_true, UInt32.ofNat_toNat]

section
variable {α : Type} [JsonForm α]

instance [LawfulForm α] : LawfulForm (List α) where
  ofJson?_toJson values := by
    change (values.map toJson).mapM ofJson? = some values
    induction values with
    | nil => rfl
    | cons value rest ih =>
        rw [List.map_cons, List.mapM_cons, ofJson?_toJson, ih]
        rfl

theorem ofJson?_option {json : Json} (given : json ≠ .null) :
    (ofJson? json : Option (Option α)) = (ofJson? json).map some := by
  cases json with
  | null => exact absurd rfl given
  | _ => rfl

instance [LawfulForm α] [SolidForm α] : LawfulForm (Option α) where
  ofJson?_toJson value := by
    cases value with
    | none => rfl
    | some value =>
        change ofJson? (toJson value) = some (some value)
        rw [ofJson?_option (toJson_ne_null value), ofJson?_toJson, Option.map_some]

end

instance : SolidForm String where
  toJson_ne_null _ same := nomatch same

instance : SolidForm UInt16 where
  toJson_ne_null _ same := nomatch same

instance : SolidForm Fingerprint where
  toJson_ne_null _ same := nomatch same

/-! ## Records -/

namespace Json.Fields

variable {fields : Fields} {name other : String}

theorem ofMembers?_record {names : List String}
    (distinct : ((fields.filter (·.1 ∈ names)).map Prod.fst).Nodup) :
    ofMembers? names (fields.map fun field => (some field.1, field.2)) =
      some (fields.filter (·.1 ∈ names)) := by
  induction fields with
  | nil => rfl
  | cons field rest ih =>
      by_cases known : field.1 ∈ names
      · rw [List.filter_cons_of_pos (by simpa using known)] at distinct ⊢
        rw [List.map_cons, List.nodup_cons] at distinct
        have first := Names.lookup_eq_none_of_not_mem distinct.1
        simp [ofMembers?, ih distinct.2, known, first]
      · rw [List.filter_cons_of_neg (by simpa using known)] at distinct ⊢
        simp [ofMembers?, ih distinct, known]

theorem ofJson?_record {names : List String} (named : fields.map Prod.fst = names)
    (distinct : names.Nodup) : Fields.ofJson? names (.record fields) = some fields := by
  have known : fields.filter (·.1 ∈ names) = fields := by
    simp only [List.filter_eq_self, decide_eq_true_eq, ← named]
    exact fun field member => List.mem_map_of_mem member
  have picked : ofMembers? names _ = some (fields.filter (·.1 ∈ names)) :=
    ofMembers?_record (by rwa [known, named])
  rwa [known] at picked

section
variable {α : Type} [JsonForm α] {json : Json}

@[simp] theorem required_cons_self [LawfulForm α] (value : α) :
    required ((name, toJson value) :: fields) name = some value := by
  simp [required, ofJson?_toJson]

@[simp] theorem optional_cons_self [LawfulForm α] [Inhabited α] (value : α) :
    optional ((name, toJson value) :: fields) name = some value := by
  simp [optional, ofJson?_toJson]

@[simp] theorem required_cons_of_ne (different : name ≠ other) :
    (required ((other, json) :: fields) name : Option α) = required fields name := by
  simp [required, List.lookup_cons, beq_false_of_ne different]

@[simp] theorem optional_cons_of_ne [Inhabited α] (different : name ≠ other) :
    (optional ((other, json) :: fields) name : Option α) = optional fields name := by
  simp [optional, List.lookup_cons, beq_false_of_ne different]

end

end Json.Fields

/-- A record is read back if no two fields share a name and `make` undoes `fields`. -/
theorem LawfulForm.ofRecord {α : Type} [JsonForm α] {names : List String} {fields : α → Fields}
    {make : Fields → Option α} (written : ∀ value : α, toJson value = .record (fields value))
    (read : ∀ value, (ofJson? (.record (fields value)) : Option α) =
      (Fields.ofJson? names (.record (fields value))).bind make)
    (named : ∀ value, (fields value).map Prod.fst = names) (distinct : names.Nodup)
    (made : ∀ value, make (fields value) = some value) : LawfulForm α where
  ofJson?_toJson value := by
    rw [written, read, Fields.ofJson?_record (named value) distinct, Option.bind_some, made]

instance : LawfulForm HeaderExtension :=
  .ofRecord (fun _ => rfl) (fun _ => rfl) (fun _ => rfl) (by decide) fun e => by simp

instance : LawfulForm RidEntry :=
  .ofRecord (fun _ => rfl) (fun _ => rfl) (fun _ => rfl) (by decide) fun r => by simp

instance : LawfulForm Stream :=
  .ofRecord (fun _ => rfl) (fun _ => rfl) (fun _ => rfl) (by decide) fun s => by simp

instance : LawfulForm Layer :=
  .ofRecord (fun _ => rfl) (fun _ => rfl) (fun _ => rfl) (by decide) fun l => by simp

instance : LawfulForm Simulcast :=
  .ofRecord (fun _ => rfl) (fun _ => rfl) (fun _ => rfl) (by decide) fun s => by simp

instance : LawfulForm Media :=
  .ofRecord (fun _ => rfl) (fun _ => rfl) (fun _ => rfl) (by decide) fun m => by simp

instance : LawfulForm Section :=
  .ofRecord (fun _ => rfl) (fun _ => rfl) (fun _ => rfl) (by decide) fun s => by simp

instance : LawfulForm Group :=
  .ofRecord (fun _ => rfl) (fun _ => rfl) (fun _ => rfl) (by decide) fun g => by simp

instance : LawfulForm Fingerprint :=
  .ofRecord (fun _ => rfl) (fun _ => rfl) (fun _ => rfl) (by decide) fun f => by simp

instance : LawfulForm Transport :=
  .ofRecord (fun _ => rfl) (fun _ => rfl) (fun _ => rfl) (by decide) fun t => by simp

instance : LawfulForm Binding :=
  .ofRecord (fun _ => rfl) (fun _ => rfl) (fun _ => rfl) (by decide) fun b => by simp

instance : LawfulForm Document :=
  .ofRecord (fun _ => rfl) (fun _ => rfl) (fun _ => rfl) (by decide) fun d => by simp

instance : LawfulForm Description :=
  .ofRecord (fun _ => rfl) (fun _ => rfl) (fun _ => rfl) (by decide) fun d => by simp

-- Not by `ofRecord`: a candidate is first looked at as a whole.
instance : LawfulForm Candidate where
  ofJson?_toJson c := by
    have whole : (guard (Candidate.isWhole (toJson c)) : Option Unit) = some () := rfl
    have read : Fields.ofJson? ["candidate", "sdpMid", "sdpMLineIndex", "usernameFragment"]
        (toJson c) = some [("candidate", toJson c.line), ("sdpMid", toJson c.mid),
          ("sdpMLineIndex", toJson c.index), ("usernameFragment", toJson c.ufrag)] :=
      Fields.ofJson?_record rfl (by decide)
    change (guard (Candidate.isWhole (toJson c)) : Option Unit).bind _ = some c
    rw [whole, Option.bind_some]
    simp only [read]
    simp

/-! ## Texts -/

open JsonForm (toText ofText?)

def rewrite? (α : Type) [JsonForm α] (text : String) : Option String :=
  (ofText? text : Option α).map toText

/-- Every value survives being written. A text that is read as some value may say more than the
value, but once written anew it says just the same and is not changed any more. -/
structure Faithful (α : Type) [JsonForm α] : Prop where
  ofText?_toText : ∀ value : α, ofText? (toText value) = some value
  rewrites : ∀ text, (ofText? text : Option α).isSome → ∃ rewritten,
    rewrite? α text = some rewritten ∧ (ofText? rewritten : Option α) = ofText? text ∧
      rewrite? α rewritten = some rewritten

theorem LawfulForm.faithful {α : Type} [JsonForm α] [LawfulForm α] : Faithful α := by
  have back (value : α) : ofText? (toText value) = some value := by
    rw [ofText?, toText, Json.read?_render, Option.bind_some, ofJson?_toJson]
  refine ⟨back, fun text accepted => ?_⟩
  obtain ⟨value, read⟩ := Option.isSome_iff_exists.mp accepted
  have rewritten : rewrite? α text = some (toText value) := by
    rw [rewrite?, read, Option.map_some]
  have again : rewrite? α (toText value) = some (toText value) := by
    rw [rewrite?, back, Option.map_some]
  exact ⟨toText value, rewritten, (back value).trans read.symm, again⟩

/-- Whatever is exchanged survives being written and read: descriptions with all their parts,
candidates and words. -/
theorem forms_faithful :
    (Faithful Description ∧ Faithful Document ∧ Faithful Section ∧ Faithful Media ∧
      Faithful HeaderExtension ∧ Faithful Stream ∧ Faithful RidEntry ∧ Faithful Simulcast ∧
      Faithful Layers ∧ Faithful Layer ∧ Faithful Group ∧ Faithful Binding ∧
      Faithful Transport ∧ Faithful Fingerprint ∧ Faithful Candidate) ∧
    Faithful DescriptionType ∧ Faithful MediaKind ∧ Faithful Direction ∧ Faithful Protocol ∧
      Faithful SetupRole := by
  refine ⟨⟨?_, ?_, ?_, ?_, ?_, ?_, ?_, ?_, ?_, ?_, ?_, ?_, ?_, ?_, ?_⟩, ?_, ?_, ?_, ?_, ?_⟩ <;>
    exact LawfulForm.faithful

end Fanout
