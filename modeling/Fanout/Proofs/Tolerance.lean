import Fanout.Proofs.Forms
import Mathlib.Data.List.Nodup
import Mathlib.Data.List.Perm.Basic

/-! # Forms are read loosely

There is one way to write a value, but a peer may write a record otherwise: its members in another
order, members of its own among them, and without those that hold the default of their field
(`Loose`). All of these ways are read as the value they were written for, and if a member without
default is missing anywhere, nothing is read (`forms_tolerant`). To leave out a member with a
default that holds something else is to write another value, the one that has the default there.

As for reading back, each shape of a form is shown tolerant once. A record is read field by field,
and what is found under the name of a field depends neither on the order nor on other members
(`Found`).
-/

namespace Fanout

open Json (Fields)

/-- Types whose values may be written more loosely than they are. -/
class LooseForm (α : Type) where
  /-- The JSON value is a way to write the value, up to members that have to be there; `whole` says
  that all of these are. -/
  Loose : α → Bool → Json → Prop

export LooseForm (Loose)

/-! ## Loose records -/

namespace Json

/-- A field of a record that is written loosely. -/
structure LooseField where
  name : String
  /-- What may be given for it. -/
  Given : Bool → Json → Prop
  /-- Whether it may be left out, and whether the record stays whole without it. -/
  Omitted : Bool → Prop

namespace LooseField

variable {α : Type} [LooseForm α]

def required (name : String) (value : α) : LooseField :=
  ⟨name, Loose value, fun whole => whole = false⟩

/-- A field that may be left out if it holds its default value. -/
def optional [Inhabited α] (name : String) (value : α) : LooseField :=
  ⟨name, Loose value, fun whole => whole = true ∧ value = default⟩

end LooseField

inductive LooseMembers : List LooseField → Bool → Fields → Prop where
  | nil : LooseMembers [] true []
  | given {field : LooseField} {rest : List LooseField} {whole others : Bool} {json : Json}
      {members : Fields} (given : field.Given whole json)
      (onward : LooseMembers rest others members) :
      LooseMembers (field :: rest) (whole && others) ((field.name, json) :: members)
  | omitted {field : LooseField} {rest : List LooseField} {whole others : Bool} {members : Fields}
      (omitted : field.Omitted whole) (onward : LooseMembers rest others members) :
      LooseMembers (field :: rest) (whole && others) members

/-- A record whose members are those of its fields and any of other names, in any order. -/
inductive LooseRecord (fields : List LooseField) (whole : Bool) : Json → Prop where
  | intro {kept others members : Fields} (given : LooseMembers fields whole kept)
      (unknown : ∀ member ∈ others, member.1 ∉ fields.map (·.name))
      (mixed : members.Perm (kept ++ others)) : LooseRecord fields whole (.record members)

inductive Found (found : Fields) : List LooseField → Bool → Prop where
  | nil : Found found [] true
  | given {field : LooseField} {rest : List LooseField} {whole others : Bool} {json : Json}
      (found_given : found.lookup field.name = some json) (given : field.Given whole json)
      (onward : Found found rest others) : Found found (field :: rest) (whole && others)
  | omitted {field : LooseField} {rest : List LooseField} {whole others : Bool}
      (not_found : found.lookup field.name = none) (omitted : field.Omitted whole)
      (onward : Found found rest others) : Found found (field :: rest) (whole && others)

namespace LooseMembers

variable {fields : List LooseField} {whole : Bool} {kept : Fields}

theorem names_sublist (members : LooseMembers fields whole kept) :
    (kept.map Prod.fst).Sublist (fields.map (·.name)) := by
  induction members with
  | nil => exact .slnil
  | given _ _ ih => exact ih.cons_cons _
  | omitted _ _ ih => exact ih.cons _

theorem found {found : Fields} (members : LooseMembers fields whole kept)
    (distinct : (fields.map (·.name)).Nodup)
    (same : ∀ name ∈ fields.map (·.name), found.lookup name = kept.lookup name) :
    Found found fields whole := by
  induction members with
  | nil => exact .nil
  | @given field rest _ _ json members given onward ih =>
      rw [List.map_cons, List.nodup_cons] at distinct
      have first : found.lookup field.name = some json := by
        rw [same _ List.mem_cons_self, List.lookup_cons_self]
      refine .given first given (ih distinct.2 fun name listed => ?_)
      have different : name ≠ field.name := fun equal => distinct.1 (equal ▸ listed)
      rw [same _ (List.mem_cons_of_mem _ listed), List.lookup_cons, beq_false_of_ne different]
  | @omitted field rest _ _ members omitted onward ih =>
      rw [List.map_cons, List.nodup_cons] at distinct
      have unnamed : field.name ∉ members.map Prod.fst :=
        fun named => distinct.1 (onward.names_sublist.subset named)
      have missing : found.lookup field.name = none := by
        rw [same _ List.mem_cons_self, Names.lookup_eq_none_of_not_mem unnamed]
      exact .omitted missing omitted
        (ih distinct.2 fun name listed => same name (List.mem_cons_of_mem _ listed))

end LooseMembers

theorem LooseRecord.ofJson? {fields : List LooseField} {whole : Bool} {json : Json}
    (loose : LooseRecord fields whole json) (distinct : (fields.map (·.name)).Nodup) :
    ∃ members found, json = .record members ∧
      Fields.ofJson? (fields.map (·.name)) (.record members) = some found ∧
      Found found fields whole := by
  obtain @⟨kept, others, members, given, unknown, mixed⟩ := loose
  have named := given.names_sublist
  have distinct_kept : (kept.map Prod.fst).Nodup := distinct.sublist named
  have known : (kept ++ others).filter (·.1 ∈ fields.map (·.name)) = kept := by
    rw [List.filter_append, List.filter_eq_self.mpr, List.filter_eq_nil_iff.mpr, List.append_nil]
    · simpa using unknown
    · intro member inside
      simpa using named.subset (List.mem_map_of_mem inside)
  have picked : (members.filter (·.1 ∈ fields.map (·.name))).Perm kept := by
    simpa only [known] using mixed.filter (·.1 ∈ fields.map (·.name))
  refine ⟨members, _, rfl, Fields.ofMembers?_record ?_, given.found distinct fun name _ => ?_⟩
  · exact (picked.map Prod.fst).nodup_iff.mpr distinct_kept
  · exact Names.lookup_perm distinct_kept picked

end Json

open Json (LooseField LooseMembers LooseRecord Found)

/-- A form that is read as the value it was written for, however loosely, unless a member is missing
that has to be there. The way it is written is one of the ways it may be. -/
class TolerantForm (α : Type) [JsonForm α] [LooseForm α] : Prop where
  loose_toJson : ∀ value : α, Loose value true (toJson value)
  ofJson?_loose : ∀ {value : α} {whole : Bool} {json : Json}, Loose value whole json →
    ofJson? json = if whole then some value else none

export TolerantForm (loose_toJson ofJson?_loose)

namespace Json.LooseMembers

variable {α : Type} [JsonForm α] [LooseForm α] [TolerantForm α] {rest : List LooseField}
  {name : String} {value : α} {members : Fields}

theorem required (onward : LooseMembers rest true members) :
    LooseMembers (.required name value :: rest) true ((name, toJson value) :: members) :=
  @LooseMembers.given (.required name value) rest true true _ _ (loose_toJson value) onward

theorem optional [Inhabited α] (onward : LooseMembers rest true members) :
    LooseMembers (.optional name value :: rest) true ((name, toJson value) :: members) :=
  @LooseMembers.given (.optional name value) rest true true _ _ (loose_toJson value) onward

end Json.LooseMembers

namespace Json.Found

variable {α β : Type} {found : Fields} {rest : List LooseField} {name : String} {value : α}
  {whole : Bool} {next : α → Option β} {result : β}

theorem nothing_left (given : Found found [] whole) :
    some result = if whole then some result else none := by
  cases given
  rfl

theorem bind_whole {read : Option α} {here others : Bool}
    (first : read = if here then some value else none)
    (onward : next value = if others then some result else none) :
    (read >>= next) = if here && others then some result else none := by
  subst first
  cases here with
  | true => exact onward
  | false => rfl

variable [JsonForm α] [LooseForm α] [TolerantForm α]

/-- A field that has to be given is read first, and the others after it. -/
theorem required (given : Found found (.required name value :: rest) whole)
    (onward : ∀ {others}, Found found rest others →
      next value = if others then some result else none) :
    (found.required name >>= next) = if whole then some result else none := by
  cases given with
  | given lookup given left =>
      refine bind_whole ?_ (onward left)
      change found.lookup name = _ at lookup
      rw [Fields.required, lookup, Option.bind_some]
      exact ofJson?_loose given
  | omitted lookup omitted left =>
      refine bind_whole ?_ (onward left)
      change found.lookup name = none at lookup
      cases omitted
      rw [Fields.required, lookup]
      rfl

/-- So is a field with a default, whether it is given or not. -/
theorem optional [Inhabited α] (given : Found found (.optional name value :: rest) whole)
    (onward : ∀ {others}, Found found rest others →
      next value = if others then some result else none) :
    (found.optional name >>= next) = if whole then some result else none := by
  cases given with
  | given lookup given left =>
      refine bind_whole ?_ (onward left)
      change found.lookup name = _ at lookup
      rw [Fields.optional, lookup]
      exact ofJson?_loose given
  | omitted lookup omitted left =>
      refine bind_whole ?_ (onward left)
      change found.lookup name = none at lookup
      obtain ⟨rfl, rfl⟩ := omitted
      rw [Fields.optional, lookup]
      rfl

end Json.Found

/-! ## Words, plain values, lists and optional values -/

/-- The one way in which a value without members is written. -/
@[reducible] def LooseForm.plain (α : Type) [JsonForm α] : LooseForm α where
  Loose value whole json := whole = true ∧ json = toJson value

instance : LooseForm DescriptionType := .plain _
instance : LooseForm MediaKind := .plain _
instance : LooseForm Direction := .plain _
instance : LooseForm Protocol := .plain _
instance : LooseForm SetupRole := .plain _
instance : LooseForm Bool := .plain _
instance : LooseForm String := .plain _
instance : LooseForm UInt16 := .plain _
instance : LooseForm UInt32 := .plain _

theorem TolerantForm.ofPlain {α : Type} [JsonForm α] [LawfulForm α] :
    @TolerantForm α _ (.plain α) :=
  @TolerantForm.mk α _ (.plain α) (fun _ => ⟨rfl, rfl⟩) (by
    rintro value whole json ⟨rfl, rfl⟩
    exact ofJson?_toJson value)

instance : TolerantForm DescriptionType := .ofPlain
instance : TolerantForm MediaKind := .ofPlain
instance : TolerantForm Direction := .ofPlain
instance : TolerantForm Protocol := .ofPlain
instance : TolerantForm SetupRole := .ofPlain
instance : TolerantForm Bool := .ofPlain
instance : TolerantForm String := .ofPlain
instance : TolerantForm UInt16 := .ofPlain
instance : TolerantForm UInt32 := .ofPlain

section
variable {α : Type} [JsonForm α] [LooseForm α]

inductive LooseItems : List α → Bool → List Json → Prop where
  | nil : LooseItems [] true []
  | cons {value : α} {rest : List α} {whole others : Bool} {json : Json} {items : List Json}
      (first : Loose value whole json) (onward : LooseItems rest others items) :
      LooseItems (value :: rest) (whole && others) (json :: items)

instance : LooseForm (List α) where
  Loose values whole json := ∃ items, json = .array items ∧ LooseItems values whole items

instance [TolerantForm α] : TolerantForm (List α) where
  loose_toJson values := by
    refine ⟨values.map toJson, rfl, ?_⟩
    induction values with
    | nil => exact .nil
    | cons value rest ih => exact .cons (loose_toJson value) ih
  ofJson?_loose := by
    rintro values whole json ⟨items, rfl, loose⟩
    change items.mapM ofJson? = _
    induction loose with
    | nil => rfl
    | @cons value rest whole others json items first onward ih =>
        rw [List.mapM_cons, ofJson?_loose first, ih]
        cases whole <;> cases others <;> rfl

instance : LooseForm (Option α) where
  Loose
    | none, whole, json => whole = true ∧ json = .null
    | some value, whole, json => Loose value whole json

theorem TolerantForm.ofOption [TolerantForm α]
    (solid : ∀ {value : α} {whole json}, Loose value whole json → json ≠ .null) :
    TolerantForm (Option α) where
  loose_toJson
    | none => ⟨rfl, rfl⟩
    | some value => loose_toJson value
  ofJson?_loose {value whole json} loose := by
    cases value with
    | none =>
        obtain ⟨rfl, rfl⟩ := loose
        rfl
    | some value =>
        change Loose value whole json at loose
        rw [ofJson?_option (solid loose), ofJson?_loose loose]
        cases whole <;> rfl

end

instance : TolerantForm (Option String) := .ofOption (by rintro _ _ _ ⟨-, rfl⟩; nofun)
instance : TolerantForm (Option UInt16) := .ofOption (by rintro _ _ _ ⟨-, rfl⟩; nofun)

/-! ## Records -/

/-- A record is read loosely if no two fields share a name and `make` is given what is found for
each. -/
theorem TolerantForm.ofRecord {α : Type} [JsonForm α] [LooseForm α] {fields : α → List LooseField}
    {names : List String} {make : Fields → Option α}
    (loose_iff : ∀ {value : α} {whole json}, Loose value whole json ↔
      LooseRecord (fields value) whole json)
    (written : ∀ value : α, ∃ members, toJson value = .record members ∧
      LooseMembers (fields value) true members)
    (read : ∀ members, (ofJson? (.record members) : Option α) =
      (Fields.ofJson? names (.record members)).bind make)
    (named : ∀ value, (fields value).map (·.name) = names) (distinct : names.Nodup)
    (made : ∀ {value found whole}, Found found (fields value) whole →
      make found = if whole then some value else none) : TolerantForm α where
  loose_toJson value := by
    obtain ⟨members, written, given⟩ := written value
    rw [loose_iff, written]
    exact .intro given (List.forall_mem_nil _) (.of_eq (List.append_nil members).symm)
  ofJson?_loose {value whole json} loose := by
    obtain ⟨members, found, rfl, taken, given⟩ :=
      (loose_iff.mp loose).ofJson? (named value ▸ distinct)
    rw [named] at taken
    rw [read, taken, Option.bind_some, made given]

instance : LooseForm HeaderExtension where
  Loose e := LooseRecord [.required "uri" e.uri, .required "id" e.id,
    .optional "encrypted" e.encrypted]

instance : TolerantForm HeaderExtension :=
  .ofRecord .rfl (fun _ => ⟨_, rfl, .required (.required (.optional .nil))⟩)
    (fun _ => rfl) (fun _ => rfl) (by decide)
    fun given => given.required fun given => given.required fun given => given.optional
      fun given => given.nothing_left

instance : LooseForm RidEntry where
  Loose r := LooseRecord [.required "rid" r.rid, .required "direction" r.direction]

instance : TolerantForm RidEntry :=
  .ofRecord .rfl (fun _ => ⟨_, rfl, .required (.required .nil)⟩)
    (fun _ => rfl) (fun _ => rfl) (by decide)
    fun given => given.required fun given => given.required fun given => given.nothing_left

instance : LooseForm Stream where
  Loose s := LooseRecord [.optional "id" s.id, .optional "ssrcs" s.ssrcs, .optional "rids" s.rids]

instance : TolerantForm Stream :=
  .ofRecord .rfl (fun _ => ⟨_, rfl, .optional (.optional (.optional .nil))⟩)
    (fun _ => rfl) (fun _ => rfl) (by decide)
    fun given => given.optional fun given => given.optional fun given => given.optional
      fun given => given.nothing_left

instance : LooseForm Layer where
  Loose l := LooseRecord [.required "rid" l.rid, .optional "is_paused" l.paused]

instance : TolerantForm Layer :=
  .ofRecord .rfl (fun _ => ⟨_, rfl, .required (.optional .nil)⟩)
    (fun _ => rfl) (fun _ => rfl) (by decide)
    fun given => given.required fun given => given.optional fun given => given.nothing_left

instance : LooseForm Simulcast where
  Loose s := LooseRecord [.optional "send_layers" s.send, .optional "receive_layers" s.receive]

instance : TolerantForm Simulcast :=
  .ofRecord .rfl (fun _ => ⟨_, rfl, .optional (.optional .nil)⟩)
    (fun _ => rfl) (fun _ => rfl) (by decide)
    fun given => given.optional fun given => given.optional fun given => given.nothing_left

instance : LooseForm Media where
  Loose m := LooseRecord [.required "media_type" m.kind,
    .optional "rtp_header_extensions" m.extensions, .optional "streams" m.streams,
    .optional "simulcast" m.simulcast]

instance : TolerantForm Media :=
  .ofRecord .rfl (fun _ => ⟨_, rfl, .required (.optional (.optional (.optional .nil)))⟩)
    (fun _ => rfl) (fun _ => rfl) (by decide)
    fun given => given.required fun given => given.optional fun given => given.optional
      fun given => given.optional fun given => given.nothing_left

instance : LooseForm Section where
  Loose s := LooseRecord [.required "mid" s.name, .required "protocol" s.protocol,
    .required "media_description" s.media]

instance : TolerantForm Section :=
  .ofRecord .rfl (fun _ => ⟨_, rfl, .required (.required (.required .nil))⟩)
    (fun _ => rfl) (fun _ => rfl) (by decide)
    fun given => given.required fun given => given.required fun given => given.required
      fun given => given.nothing_left

instance : LooseForm Group where
  Loose g := LooseRecord [.required "semantics" g.semantics, .optional "content_names" g.members]

instance : TolerantForm Group :=
  .ofRecord .rfl (fun _ => ⟨_, rfl, .required (.optional .nil)⟩)
    (fun _ => rfl) (fun _ => rfl) (by decide)
    fun given => given.required fun given => given.optional fun given => given.nothing_left

instance : LooseForm Fingerprint where
  Loose f := LooseRecord [.required "algorithm" f.algorithm, .required "value" f.value]

instance : TolerantForm Fingerprint :=
  .ofRecord .rfl (fun _ => ⟨_, rfl, .required (.required .nil)⟩)
    (fun _ => rfl) (fun _ => rfl) (by decide)
    fun given => given.required fun given => given.required fun given => given.nothing_left

instance : TolerantForm (Option Fingerprint) := .ofOption (by rintro _ _ _ ⟨⟩; nofun)

instance : LooseForm Transport where
  Loose t := LooseRecord [.required "ice_ufrag" t.ufrag, .required "ice_pwd" t.password,
    .optional "ice_options" t.options, .optional "fingerprint" t.fingerprint,
    .optional "connection_role" t.role]

instance : TolerantForm Transport :=
  .ofRecord .rfl (fun _ => ⟨_, rfl, .required (.required (.optional (.optional (.optional .nil))))⟩)
    (fun _ => rfl) (fun _ => rfl) (by decide)
    fun given => given.required fun given => given.required fun given => given.optional
      fun given => given.optional fun given => given.optional fun given => given.nothing_left

instance : LooseForm Binding where
  Loose b := LooseRecord [.required "content_name" b.name, .required "description" b.transport]

instance : TolerantForm Binding :=
  .ofRecord .rfl (fun _ => ⟨_, rfl, .required (.required .nil)⟩)
    (fun _ => rfl) (fun _ => rfl) (by decide)
    fun given => given.required fun given => given.required fun given => given.nothing_left

instance : LooseForm Document where
  Loose d := LooseRecord [.optional "contents" d.sections, .optional "groups" d.groups,
    .optional "transport_infos" d.bindings]

instance : TolerantForm Document :=
  .ofRecord .rfl (fun _ => ⟨_, rfl, .optional (.optional (.optional .nil))⟩)
    (fun _ => rfl) (fun _ => rfl) (by decide)
    fun given => given.optional fun given => given.optional fun given => given.optional
      fun given => given.nothing_left

instance : LooseForm Description where
  Loose d := LooseRecord [.required "type" d.type, .required "sessionId" d.sessionId,
    .required "sessionVersion" d.sessionVersion, .required "description" d.document]

instance : TolerantForm Description :=
  .ofRecord .rfl (fun _ => ⟨_, rfl, .required (.required (.required (.required .nil)))⟩)
    (fun _ => rfl) (fun _ => rfl) (by decide)
    fun given => given.required fun given => given.required fun given => given.required
      fun given => given.required fun given => given.nothing_left

instance : LooseForm Candidate where
  Loose c := LooseRecord [.required "candidate" c.line, .optional "sdpMid" c.mid,
    .optional "sdpMLineIndex" c.index, .optional "usernameFragment" c.ufrag]

instance : TolerantForm Candidate :=
  .ofRecord .rfl (fun _ => ⟨_, rfl, .required (.optional (.optional (.optional .nil)))⟩)
    (fun _ => rfl) (fun _ => rfl) (by decide)
    fun given => given.required fun given => given.optional fun given => given.optional
      fun given => given.optional fun given => given.nothing_left

/-! ## Texts -/

open JsonForm (toText ofText?)

/-- A text of a way to write a value. -/
def LooseText {α : Type} [LooseForm α] (value : α) (whole : Bool) (text : String) : Prop :=
  ∃ json, Json.read? text = some json ∧ Loose value whole json

/-- Every text of a value is read as just that value, however loosely it is written; the text of the
value itself is one of them. Where a member is missing that has to be there, nothing is read. -/
structure Tolerant (α : Type) [JsonForm α] [LooseForm α] : Prop where
  looseText_toText : ∀ value : α, LooseText value true (toText value)
  ofText?_whole : ∀ (value : α) text, LooseText value true text → ofText? text = some value
  ofText?_incomplete : ∀ (value : α) text, LooseText value false text →
    (ofText? text : Option α) = none

theorem looseText_render {α : Type} [LooseForm α] {value : α} {whole : Bool} {json : Json}
    (loose : Loose value whole json) : LooseText value whole json.render :=
  ⟨json, Json.read?_render json, loose⟩

theorem TolerantForm.tolerant {α : Type} [JsonForm α] [LooseForm α] [TolerantForm α] :
    Tolerant α where
  looseText_toText value := looseText_render (loose_toJson value)
  ofText?_whole := by
    rintro value text ⟨json, read, loose⟩
    rw [ofText?, read, Option.bind_some, ofJson?_loose loose, if_pos rfl]
  ofText?_incomplete := by
    rintro value text ⟨json, read, loose⟩
    rw [ofText?, read, Option.bind_some, ofJson?_loose loose, if_neg Bool.false_ne_true]

end Fanout
