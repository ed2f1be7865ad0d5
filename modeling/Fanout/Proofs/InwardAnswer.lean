import Fanout.Proofs.AnswerAcceptance
import Fanout.Proofs.Validity

/-! # The answer for the offering side

What an accepted answer comes to, told from the offer and the answer alone and without the steps
that lead there (`Description.GathersTo`). The answer need not mirror what it was offered: a section
may have any media, and bindings may repeat or name nothing. Acceptance still makes its section
names those of the fanned out offer, so each of them stands for one section and the relation leaves
nothing open (`inwardView_iff`). The steps are followed by membership only: gathering one entry
keeps every section that a later entry, or the order of the offer, asks for
(`foldlM_gather_gathersTo`).
-/

namespace Fanout

namespace Section

/-- The section that answers for a simulcast section of the offer: the media of the section for its
first rid, with the extensions for names and rids of the offer at the end, receiving every rid. -/
def collected (s first : Section) (mid carrier : HeaderExtension) : Section where
  name := s.name
  protocol := s.protocol
  media := {
    kind := first.media.kind
    extensions := first.media.extensions.filter (fun x =>
      x.uri ≠ HeaderExtension.midUri ∧ x.uri ≠ HeaderExtension.ridUri ∧
        x.uri ≠ HeaderExtension.repairedRidUri) ++ [mid, carrier]
    streams := [⟨"", [], s.ridNames.map fun rid => ⟨rid, .receive⟩⟩]
    simulcast := ⟨[], s.ridNames.map fun rid => [⟨rid, false⟩]⟩ }

/-- What an answer comes to for one section of the offer. -/
inductive GathersTo (a : Document) (s : Section) : Section → Prop where
  /-- The section of the same name, as it is. -/
  | plain {t : Section} (plain : ¬ s.isSimulcast) (answers : t ∈ a.sections)
      (named : t.name = s.name) : GathersTo a s t
  /-- One section for those of all rids, of which the first is the model. -/
  | simulcast {first : Section} {mid carrier : HeaderExtension} (simulcast : s.isSimulcast)
      (answers : first ∈ a.sections) (leads : s.ridNames.head? = some first.name)
      (lastMid : (s.extensionsOf HeaderExtension.midUri).getLast? = some mid)
      (lastRid : (s.extensionsOf HeaderExtension.ridUri).getLast? = some carrier) :
      GathersTo a s (s.collected first mid carrier)

inductive BoundLast (bound : List Binding) (s : Section) : Binding → Prop where
  | intro {b : Binding} (last : (bound.filter (·.name ∈ s.ridNames)).getLast? = some b) :
      BoundLast bound s ⟨s.name, b.transport⟩

end Section

/-- An answer is gathered to one section for each of the offer, in the order of the offer. One group
bundles them in place of the bundles that the answer had, and in place of the bindings of rids there
is one for each simulcast section, after all others. -/
inductive Description.GathersTo (offer answer : Description) : Description → Prop where
  | intro {sections : List Section} {gathered : List Binding}
      (replaced : List.Forall₂ (Section.GathersTo answer.document) offer.document.sections sections)
      (bound : List.Forall₂ (Section.BoundLast answer.document.bindings)
        offer.document.simulcasts gathered) :
      GathersTo offer answer {
        type := .answer
        sessionId := answer.sessionId
        sessionVersion := answer.sessionVersion
        document := {
          sections := sections
          groups := answer.document.groups.filter (·.semantics ≠ Group.bundleSemantics) ++
            [⟨Group.bundleSemantics, offer.document.names⟩]
          bindings := answer.document.bindings.filter
            (·.name ∉ Section.simulcastRids offer.document.sections) ++ gathered } }

theorem exists_of_forall₂ {α β : Type} {R : α → β → Prop} {xs : List α} {ys : List β} {x : α}
    (related : List.Forall₂ R xs ys) (member : x ∈ xs) : ∃ y ∈ ys, R x y := by
  induction related with
  | nil => cases member
  | @cons first y _ rest one _ ih =>
      cases List.mem_cons.mp member with
      | inl same => exact ⟨y, List.mem_cons_self, same ▸ one⟩
      | inr later =>
          obtain ⟨z, inside, other⟩ := ih later
          exact ⟨z, List.mem_cons_of_mem y inside, other⟩

/-! ## Nothing is left open -/

namespace Section

variable {a d : Document} {s t : Section} {bound : List Binding}

theorem GathersTo.named (gathers : s.GathersTo a t) : t.name = s.name := by
  cases gathers with
  | plain _ _ named => exact named
  | simulcast => rfl

theorem gathersTo_rightUnique (distinct : a.names.Nodup) : Relator.RightUnique (GathersTo a) := by
  intro s t u one other
  cases one with
  | plain plain answers named =>
      cases other with
      | plain _ answers' named' =>
          exact List.inj_on_of_nodup_map distinct answers answers' (named.trans named'.symm)
      | simulcast simulcast => exact absurd simulcast plain
  | simulcast simulcast answers leads lastMid lastRid =>
      cases other with
      | plain plain => exact absurd simulcast plain
      | simulcast _ answers' leads' lastMid' lastRid' =>
          have named := Option.some.inj (leads.symm.trans leads')
          cases List.inj_on_of_nodup_map distinct answers answers' named
          cases lastMid.symm.trans lastMid'
          cases lastRid.symm.trans lastRid'
          rfl

theorem boundLast_rightUnique (bound : List Binding) : Relator.RightUnique (BoundLast bound) := by
  intro s b c one other
  cases one with
  | intro last =>
      cases other with
      | intro last' =>
          cases last.symm.trans last'
          rfl

theorem GathersTo.mono (gathers : s.GathersTo d t) (simulcast : s.isSimulcast)
    (subset : ∀ u ∈ d.sections, u.name ∈ s.ridNames → u ∈ a.sections) : s.GathersTo a t := by
  cases gathers with
  | plain plain => exact absurd simulcast plain
  | simulcast _ answers leads lastMid lastRid =>
      exact .simulcast simulcast (subset _ answers (List.mem_of_head? leads)) leads lastMid lastRid

theorem mem_left_of_pick {sections taken left : List Section} {names : List String}
    (picked : pick sections names = .ok (taken, left)) :
    (∀ t ∈ left, t ∈ sections) ∧ ∀ t ∈ sections, t.name ∉ names → t ∈ left := by
  obtain ⟨named, perm⟩ := pick_eq_ok picked
  constructor
  · intro t member
    exact perm.subset (List.mem_append_right _ member)
  · intro t member other
    cases List.mem_append.mp (perm.symm.subset member) with
    | inl own => exact absurd (named ▸ List.mem_map_of_mem own) other
    | inr kept => exact kept

theorem forall₂_of_names {R : Section → Section → Prop} {sections sections' : List Section}
    (same : sections'.map (·.name) = sections.map (·.name))
    (related : ∀ s ∈ sections, ∀ t ∈ sections', t.name = s.name → R s t) :
    List.Forall₂ R sections sections' := by
  induction sections generalizing sections' with
  | nil =>
      cases List.map_eq_nil_iff.mp same
      exact .nil
  | cons s rest ih =>
      cases sections' with
      | nil => cases same
      | cons t others =>
          obtain ⟨named, same⟩ := List.cons.inj same
          refine .cons (related s List.mem_cons_self t List.mem_cons_self named) (ih same ?_)
          intro u uMember v vMember
          exact related u (List.mem_cons_of_mem _ uMember) v (List.mem_cons_of_mem _ vMember)

end Section

/-! ## What the steps keep -/

section
variable {bindings : List Binding} {d d' : Document} {s : Section}

/-- One entry puts the section it makes behind sections that were there, and takes away none but
those of its rids. -/
theorem Entry.gather_gathersTo (simulcast : s.isSimulcast) (complete : s.Complete bindings)
    (gathered : Entry.gather d (describing bindings s) = .ok d') :
    ∃ left t, d'.sections = left ++ [t] ∧ s.GathersTo d t ∧ (∀ u ∈ left, u ∈ d.sections) ∧
      ∀ u ∈ d.sections, u.name ∉ s.ridNames → u ∈ left := by
  obtain ⟨rid, rids, given⟩ := List.exists_cons_of_ne_nil complete.ridNames_ne_nil
  have leads : s.ridNames.head? = some rid := by simp [given]
  obtain ⟨mid, lastMid, -⟩ := complete.mid
  obtain ⟨carrier, lastRid, -⟩ := complete.rid
  rw [gather, firstRid_describing leads] at gathered
  cases found : d.section? rid with
  | none =>
      rw [found] at gathered
      cases gathered
  | some first =>
      rw [found] at gathered
      obtain ⟨rest, removed, gathered⟩ := bind_eq_ok.mp gathered
      obtain ⟨media, made, added⟩ := bind_eq_ok.mp gathered
      cases added
      have removed : s.ridNames.foldlM Document.requireRemove d = .ok rest := removed
      rw [Document.foldlM_requireRemove] at removed
      cases picked : Section.pick d.sections s.ridNames with
      | error fault =>
          rw [picked] at removed
          cases removed
      | ok outcome =>
          rw [picked] at removed
          cases removed
          obtain ⟨inside, kept⟩ := Section.mem_left_of_pick picked
          refine ⟨outcome.2, _, rfl, ?_, inside, kept⟩
          have answers : first ∈ d.sections := List.mem_of_find?_eq_some found
          have named : first.name = rid := by simpa using List.find?_some found
          rw [gatherMedia] at made
          split at made
          · cases made
            have gathers := Section.GathersTo.simulcast (a := d) simulcast answers
              (named ▸ leads) lastMid lastRid
            simpa [Section.collected, describing, gatherExtensions, Section.lastOf_eq, lastMid,
              lastRid, Layers.ofRids] using gathers
          · cases made

/-- The entries keep every section that is not one of their rids, and each leaves what it gathers
from the document that all of them started from. -/
theorem foldlM_gather_gathersTo {simulcasts : List Section}
    (ready : ∀ s ∈ simulcasts, s.isSimulcast ∧ s.Complete bindings)
    (apart : simulcasts.Pairwise fun s t => s.name ∉ t.ridNames)
    (folded : (simulcasts.map (Entry.describing bindings)).foldlM Entry.gather d = .ok d') :
    (∀ u ∈ d.sections, u.name ∉ simulcasts.flatMap (·.ridNames) → u ∈ d'.sections) ∧
      ∀ s ∈ simulcasts, ∃ t ∈ d'.sections, s.GathersTo d t := by
  induction simulcasts generalizing d with
  | nil =>
      cases folded
      exact ⟨fun u member _ => member, by simp⟩
  | cons s rest ih =>
      obtain ⟨sApart, restApart⟩ := List.pairwise_cons.mp apart
      obtain ⟨simulcast, complete⟩ := ready s List.mem_cons_self
      rw [List.map_cons, List.foldlM_cons] at folded
      obtain ⟨next, first, folded⟩ := bind_eq_ok.mp folded
      obtain ⟨left, t, split, gathers, inside, kept⟩ :=
        Entry.gather_gathersTo simulcast complete first
      obtain ⟨stays, others⟩ :=
        ih (fun u member => ready u (List.mem_cons_of_mem _ member)) restApart folded
      refine ⟨?_, ?_⟩
      · intro u member other
        rw [List.flatMap_cons, List.mem_append, not_or] at other
        apply stays u _ other.2
        rw [split]
        exact List.mem_append_left _ (kept u member other.1)
      · intro u member
        cases List.mem_cons.mp member with
        | inl same =>
            subst same
            refine ⟨t, stays t (split ▸ List.mem_append_right _ List.mem_cons_self) ?_, gathers⟩
            rw [gathers.named]
            intro taken
            obtain ⟨v, later, own⟩ := List.mem_flatMap.mp taken
            exact sApart v later own
        | inr later =>
            obtain ⟨v, vMember, vGathers⟩ := others u later
            refine ⟨v, vMember, vGathers.mono (ready u member).1 ?_⟩
            intro w wMember own
            rw [split] at wMember
            cases List.mem_append.mp wMember with
            | inl old => exact inside w old
            | inr new =>
                -- the section just made is no rid of a later entry
                cases List.mem_singleton.mp new
                exact absurd (gathers.named ▸ own) (sApart u later)

end

/-! ## The whole answer -/

namespace Registry.Surveyed

variable {d a whole : Document} {r : Registry}

theorem names_perm_of_gathered (surveyed : Surveyed d.bindings d.sections r)
    (gathered : r.gatherSections a = .ok whole) : a.names.Perm d.fannedOut.names := by
  obtain ⟨counted, -⟩ := gatherSections_eq_ok gathered
  have ordered : r.order = d.names := surveyed.order
  rw [surveyed.names_eq, surveyed.rids, ordered] at counted
  exact (Document.perm_names_iff counted).mp (.refl _)

theorem gatherSections_gathersTo (surveyed : Surveyed d.bindings d.sections r)
    (distinct : d.names.Nodup) (acceptable : d.Acceptable)
    (gathered : r.gatherSections a = .ok whole) :
    List.Forall₂ (Section.GathersTo a) d.sections whole.sections := by
  have offered := acceptable.fannedOut_names_nodup distinct
  have perm := surveyed.names_perm_of_gathered gathered
  have ordered : r.order = d.names := surveyed.order
  obtain ⟨collected, folded, gathered⟩ := bind_eq_ok.mp gathered
  obtain ⟨arranged, ordering, bundled⟩ := bind_eq_ok.mp gathered
  cases bundled
  obtain ⟨named, reordered, -, -⟩ := Document.arrange_eq_ok ordering
  rw [ordered] at named
  have wholeDistinct : arranged.names.Nodup := named ▸ distinct
  rw [surveyed.entries_eq] at folded
  obtain ⟨kept, made⟩ := foldlM_gather_gathersTo acceptable.complete
    ((acceptable.simulcasts_apart distinct).imp And.left) folded
  have answered : ∀ s ∈ d.sections, ∃ t ∈ collected.sections, s.GathersTo a t := by
    intro s member
    by_cases simulcast : s.isSimulcast
    · exact made s (Document.mem_simulcasts.mpr ⟨member, simulcast⟩)
    · have plain : s.name ∈ d.plains.map (·.name) :=
        List.mem_map_of_mem (Document.mem_plains.mpr ⟨member, simulcast⟩)
      rw [Document.fannedOut_names] at offered perm
      obtain ⟨t, there, same⟩ := List.mem_map.mp (perm.symm.subset (List.mem_append_left _ plain))
      have noRid : t.name ∉ d.simulcasts.flatMap (·.ridNames) :=
        same ▸ List.disjoint_of_nodup_append offered plain
      exact ⟨t, kept t there noRid, .plain simulcast there same⟩
  refine Section.forall₂_of_names named ?_
  intro s member t there same
  obtain ⟨u, uMember, gathers⟩ := answered s member
  have uThere : u ∈ arranged.sections := reordered.symm.subset uMember
  cases List.inj_on_of_nodup_map wholeDistinct there uThere (same.trans gathers.named.symm)
  exact gathers

theorem gatherBindings_boundLast {bound bound' : List Binding}
    (surveyed : Surveyed d.bindings d.sections r)
    (gathered : r.gatherBindings bound = .ok bound') :
    ∃ stands, List.Forall₂ (Section.BoundLast bound) d.simulcasts stands ∧
      bound' = bound.filter (·.name ∉ Section.simulcastRids d.sections) ++ stands := by
  obtain ⟨stands, related, rfl⟩ := (gatherBindings_eq_ok_iff surveyed.indexed).mp gathered
  refine ⟨stands, ?_, by rw [surveyed.rids]⟩
  rw [surveyed.entries_eq, List.forall₂_map_left_iff] at related
  rw [List.forall₂_iff_zip] at related ⊢
  refine ⟨related.1, ?_⟩
  intro s b paired
  obtain ⟨last, found, rfl⟩ := related.2 paired
  have simulcast := (List.of_mem_zip paired).1
  exact .intro
    ((lastBinding?_eq surveyed.indexed (surveyed.describing_mem simulcast)).symm.trans found)

theorem gather_gathersTo_iff {offer answer remote : Description}
    (surveyed : Surveyed offer.document.bindings offer.document.sections r)
    (distinct : offer.document.names.Nodup) (acceptable : offer.document.Acceptable)
    (gathered : r.gather answer = .ok remote) (remote' : Description) :
    offer.GathersTo answer remote' ↔ remote' = remote := by
  obtain ⟨whole, bound, sections, bindings, rfl⟩ := gather_eq_ok gathered
  obtain ⟨-, -, groups, kept⟩ := gatherSections_eq_ok sections
  have ordered : r.order = offer.document.names := surveyed.order
  have perm := surveyed.names_perm_of_gathered sections
  have apart : answer.document.names.Nodup :=
    perm.nodup_iff.mpr (acceptable.fannedOut_names_nodup distinct)
  have replaced := surveyed.gatherSections_gathersTo distinct acceptable sections
  obtain ⟨stands, last, rfl⟩ := surveyed.gatherBindings_boundLast bindings
  rw [ordered, Group.ofNames_of_nodup _ distinct] at groups
  rw [kept] at last ⊢
  rw [groups]
  constructor
  · rintro ⟨replaced', last'⟩
    cases List.right_unique_forall₂' (Section.gathersTo_rightUnique apart) replaced replaced'
    cases List.right_unique_forall₂' (Section.boundLast_rightUnique _) last last'
    rfl
  · rintro rfl
    exact .intro replaced last

end Registry.Surveyed

namespace Negotiation

variable {n m : Negotiation} {offer answer : Description} {views back : Views}

/-- The remote view of an accepted answer to an offer with simulcast sections is exactly what the
answer is gathered to, whatever was called in between. -/
theorem inwardView_iff (distinct : offer.document.names.Nodup)
    (layered : offer.document.simulcasts ≠ [])
    (patched : n.perform (patchOffer offer) = (.ok views, m)) (calls : List Call)
    (answered : ((m.run calls).perform (patchAnswer answer)).1 = .ok back) (remote : Description) :
    offer.GathersTo answer remote ↔ remote = back.remoteView := by
  have fresh := fresh_of_patchOffer patched
  obtain ⟨-, acceptable, surveyed, phase, -⟩ := patchOffer_eq_ok fresh distinct patched
  obtain ⟨late, registry⟩ := run_late (n := m) (by simp [phase]) calls
  rw [patchAnswer_result late, registry] at answered
  have gathered := Views.relayAnswer_eq_ok answered
  rw [Registry.relayAnswer, if_pos (surveyed.hasSimulcast_iff.mpr layered)] at gathered
  exact surveyed.gather_gathersTo_iff distinct acceptable gathered remote

/-- An answer that takes `layeredOffer` up in another way than it was offered: the section of the
second rid sends audio, that of the first has an extension more and no kind, and one binding names
no section. -/
def unevenAnswer : Description where
  type := .answer
  sessionId := "3"
  sessionVersion := "4"
  document := {
    sections := [
      ⟨"lo", .sctp, { Media.ofKind .audio with streams := [⟨"t", [], []⟩] }⟩,
      ⟨"a", .other, .ofKind .data⟩,
      ⟨"v", .rtp, { Media.ofKind .unspecified with
        extensions := [.plain HeaderExtension.repairedRidUri 8, .plain "urn:x" 7,
          .plain HeaderExtension.midUri 2] }⟩]
    groups := [⟨Group.bundleSemantics, ["x"]⟩, ⟨"LS", ["lo"]⟩]
    bindings := [⟨"v", default⟩, ⟨"x", default⟩, ⟨"lo", { (default : Transport) with ufrag := "u" }⟩] }

theorem unevenAnswer_inwardView :
    ∃ views m back, layeredOffer.document.names.Nodup ∧ layeredOffer.document.simulcasts ≠ [] ∧
      start.perform (patchOffer layeredOffer) = (.ok views, m) ∧
      ((m.run []).perform (patchAnswer unevenAnswer)).1 = .ok back ∧
      ∀ remote, layeredOffer.GathersTo unevenAnswer remote ↔ remote = back.remoteView := by
  have distinct : layeredOffer.document.names.Nodup := by decide
  have layered : layeredOffer.document.simulcasts ≠ [] := by decide
  exact ⟨_, _, _, distinct, layered, rfl, rfl,
    inwardView_iff (n := start) distinct layered rfl [] rfl⟩

end Negotiation

end Fanout
