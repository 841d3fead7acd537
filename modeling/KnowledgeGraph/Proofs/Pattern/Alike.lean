import KnowledgeGraph.Proofs.Pattern.Recognition

/-!
# Atoms are recognized like their records

Recognition gives the same patterns for a list of atoms, for the list of their records, for a link
over the atoms and for the record of the link (`Recognizer.recognize_alike`). This rests on records
from which exactly the atom is read that was written (`Atom.ofRecord_toRecord`), and which have the
form of an atom record (`takenAs_toRecord`).
-/

namespace KnowledgeGraph

/-! ## Records as elements -/

theorem hasAtomForm_entriesOf {id name tv av : Value} {label : String} {outs ins : List Value}
    {metadata : Entries} :
    hasAtomForm (Atom.entriesOf id (.text label) name tv av outs ins metadata) = true := by
  have hknown : recordFields.all (recordFields ++ ["truth_value", "attention_value"]).contains :=
    by decide
  unfold hasAtomForm
  rw [Bool.and_eq_true]
  refine ⟨rfl, ?_⟩
  have hkeys : Table.keys (Atom.entriesOf id (.text label) name tv av outs ins metadata) =
      recordFields.map .text := rfl
  rw [hkeys, List.all_map]
  exact hknown

theorem takenAs_toRecord {a : Atom} {v : Value} (ha : a.Deep Atom.members Atom.WellTyped)
    (hv : a.toRecord = .ok v) : TakenAs v (.known a) := by
  obtain ⟨w, hw, hread⟩ := Atom.ofRecord_toRecord ha
  cases hv.symm.trans hw
  obtain ⟨tv, av, outs, ins, -, -, -, -, rfl⟩ := Atom.toRecord_eq_ok hv
  obtain ⟨label, hlabel⟩ := ha.here.type
  refine .atom ?_ hread
  rw [hlabel]
  exact hasAtomForm_entriesOf

theorem takenAs_toRecords {as : List Atom} (has : ∀ a ∈ as, a.Deep Atom.members Atom.WellTyped) :
    ∃ records, as.mapM Atom.toRecord = .ok records ∧
      List.Forall₂ TakenAs records (as.map .known) := by
  have hreturns : ∀ a ∈ as, Except.Returns a.toRecord := by
    intro a ha
    obtain ⟨v, hv, -⟩ := Atom.ofRecord_toRecord (has a ha)
    exact ⟨v, hv⟩
  obtain ⟨records, hrecords⟩ := Except.returns_mapM hreturns
  have hall := (List.forall₂_and_left as records).2 ⟨has, Except.mapM_eq_ok.1 hrecords⟩
  refine ⟨records, hrecords, List.forall₂_map_right_iff.2 (List.Forall₂.flip (hall.imp ?_))⟩
  exact fun a v h => takenAs_toRecord h.1 h.2

/-! ## Links -/

/-- A link over atoms: its fields have their types, the atoms go out from it, and what comes in was
read from records. -/
structure IsLinkOver (as : List Atom) (link : Atom) : Prop where
  wellTyped : link.WellTyped
  outgoing : link.outgoing = as.map .known
  incoming : ∀ m ∈ link.incoming, ∃ b v, m = .known b ∧ Atom.ofRecord v = .ok b

theorem IsLinkOver.deep {as : List Atom} {link : Atom} (h : IsLinkOver as link)
    (has : ∀ a ∈ as, a.Deep Atom.members Atom.WellTyped) :
    link.Deep Atom.members Atom.WellTyped := by
  refine .of_members h.wellTyped fun m hm => ?_
  obtain hm | hm := List.mem_append.1 hm
  · rw [h.outgoing] at hm
    obtain ⟨a, ha, rfl⟩ := List.mem_map.1 hm
    exact ⟨a, rfl, has a ha⟩
  · obtain ⟨b, v, rfl, hb⟩ := h.incoming m hm
    exact ⟨b, rfl, Atom.ofRecord_deep hb⟩

/-! ## Patterns -/

section

variable {config : DetectionConfig} {as : List Atom} (context : Value)

theorem findPatterns_records {records : List Value}
    (h : List.Forall₂ TakenAs records (as.map .known)) :
    findPatterns config (.value (.list records)) context =
      findPatterns config (.atoms as) context :=
  sequencePatterns_congr ((mapM_asAtom_raw.2 h).trans (mapM_asAtom_known as).symm)

theorem findPatterns_atom {link : Atom} (h : link.outgoing = as.map .known) :
    findPatterns config (.atom link) context = findPatterns config (.atoms as) context := by
  show sequencePatterns config link.outgoing = sequencePatterns config (as.map .known)
  rw [h]

theorem findPatterns_toRecord {a : Atom} {v : Value} (ha : a.Deep Atom.members Atom.WellTyped)
    (hv : a.toRecord = .ok v) :
    findPatterns config (.value v) context = findPatterns config (.atom a) context := by
  have htaken := takenAs_toRecord ha hv
  obtain ⟨tv, av, outs, ins, -, -, -, -, rfl⟩ := Atom.toRecord_eq_ok hv
  exact findPatterns_link htaken context

theorem knowns_map_known (as : List Atom) : Slot.knowns (as.map (Slot.known : Atom → Item)) = as := by
  unfold Slot.knowns
  rw [List.filterMap_map]
  exact List.filterMap_some

theorem haveTextNames_of_textOrNull (h : ∀ a ∈ as, a.name.IsTextOrNull) : HaveTextNames as :=
  fun _ a ha hnamed => (h a ha).exists_text ((Bool.not_eq_true' _).mp hnamed)

theorem forall_isJson_known (hjson : ∀ a ∈ as, a.Deep Atom.members Atom.IsJson) :
    ∀ item ∈ as.map Slot.known, Slot.IsJson item :=
  List.forall_mem_map.2 hjson

/-- The patterns in a list of atoms from a text are found, if their names are texts or null and the
atoms can be written. -/
theorem findPatterns_atoms_finds (hc : config.IsUsable)
    (hjson : ∀ a ∈ as, a.Deep Atom.members Atom.IsJson) (hnames : ∀ a ∈ as, a.name.IsTextOrNull)
    (hwritable : AreWritable (as.map .known)) :
    Finds (findPatterns config (.atoms as) context) := by
  refine sequencePatterns_finds (mapM_asAtom_known as) (forall_isJson_known hjson) hc ?_ hwritable
  rw [knowns_map_known]
  exact haveTextNames_of_textOrNull hnames

end

/-! ## Recognition -/

namespace Recognizer

/-- Recognition looks at the subject only for the patterns in it. -/
theorem recognize_congr_subject {r : Recognizer} {request : RecognitionRequest} {s s' : Subject}
    (h : ∀ context, findPatterns r.config s context = findPatterns r.config s' context) :
    r.recognize { request with subject := s } = r.recognize { request with subject := s' } := by
  unfold recognize
  dsimp only
  rw [h]

/-- **Atoms and records.** For atoms that were read from records, and a link over them, recognition
comes out the same for the atoms, their records, the link and its record, whatever the settings and
the request. In all of them, at every depth, the atom of the record is the atom that was written. Where
the atoms are read from records with texts for keys and their names are texts or null, a well-typed
request is answered just if the atoms can be written. -/
theorem recognize_alike {as : List Atom} {link : Atom}
    (hread : ∀ a ∈ as, ∃ v, Atom.ofRecord v = .ok a) (hlink : IsLinkOver as link) :
    link.Deep Atom.members (fun a => ∃ v, a.toRecord = .ok v ∧ Atom.ofRecord v = .ok a) ∧
    ∃ records linkRecord, as.mapM Atom.toRecord = .ok records ∧ link.toRecord = .ok linkRecord ∧
      ∀ (r : Recognizer) (request : RecognitionRequest),
        (∀ subject ∈ [.value (.list records), .atom link, .value linkRecord],
          r.recognize { request with subject } =
            r.recognize { request with subject := .atoms as }) ∧
        (r.config.IsUsable → r.WeighsUsers → request.IsWellTyped →
          (∀ a ∈ as, (∃ v, v.IsJson ∧ Atom.ofRecord v = .ok a) ∧ a.name.IsTextOrNull) →
            (Except.Returns (r.recognize { request with subject := .atoms as }) ↔
              AreWritable (as.map .known))) := by
  have has : ∀ a ∈ as, a.Deep Atom.members Atom.WellTyped := by
    intro a ha
    obtain ⟨v, hv⟩ := hread a ha
    exact Atom.ofRecord_deep hv
  have hdeep := hlink.deep has
  refine ⟨hdeep.deep.imp fun a ha => Atom.ofRecord_toRecord ha, ?_⟩
  obtain ⟨records, hrecords, htaken⟩ := takenAs_toRecords has
  obtain ⟨linkRecord, hlinkRecord, -⟩ := Atom.ofRecord_toRecord hdeep
  refine ⟨records, linkRecord, hrecords, hlinkRecord, fun r request => ⟨?same, ?returns⟩⟩
  case same =>
    have hlist : ∀ context, findPatterns r.config (.value (.list records)) context =
        findPatterns r.config (.atoms as) context := fun context =>
      findPatterns_records context htaken
    have hatom : ∀ context, findPatterns r.config (.atom link) context =
        findPatterns r.config (.atoms as) context := fun context =>
      findPatterns_atom context hlink.outgoing
    have hrecord : ∀ context, findPatterns r.config (.value linkRecord) context =
        findPatterns r.config (.atoms as) context := fun context =>
      (findPatterns_toRecord context hdeep hlinkRecord).trans (hatom context)
    exact List.forall_mem_cons.2 ⟨recognize_congr_subject hlist,
      List.forall_mem_cons.2 ⟨recognize_congr_subject hatom,
        List.forall_mem_singleton.2 (recognize_congr_subject hrecord)⟩⟩
  case returns =>
    intro hconfig hr hrequest hatoms
    have hjson : ∀ a ∈ as, a.Deep Atom.members Atom.IsJson := by
      intro a ha
      obtain ⟨⟨v, hv, hread⟩, -⟩ := hatoms a ha
      exact Atom.ofRecord_isJson hv hread
    refine ⟨fun hreturns => ?_, fun hwritable => ?_⟩
    · obtain ⟨found, hfound, -⟩ := hreturns.of_bind
      exact (conditions_of_sequencePatterns (mapM_asAtom_known as) (forall_isJson_known hjson)
        ⟨found, hfound⟩).2
    obtain ⟨found, hfound, htyped⟩ := findPatterns_atoms_finds
      (request.context.orElse (.map [])) hconfig hjson (fun a ha => (hatoms a ha).2) hwritable
    have hrequest' : RecognitionRequest.IsWellTyped { request with subject := .atoms as } :=
      ⟨hrequest.context, hrequest.scope, hrequest.maxResults, hrequest.minConfidence,
        hrequest.patternTypes⟩
    exact recognize_returns hr hrequest' hfound htyped

/-- Two named atoms, one of which holds the other, and a link over them. -/
theorem recognize_alike_pair :
    let a : Atom := ⟨.text "T", .text "get_user", .null, .empty, .empty, [], [], []⟩
    let b : Atom := ⟨.text "T", .text "get_item", .int 1, .known (.of 0.5 1), .empty, [.known a], [],
      [(.text "k", .list [.null])]⟩
    let link : Atom :=
      ⟨.text "ListLink", .null, .text "l", .empty, .empty, [.known a, .known b], [], []⟩
    ∃ records linkRecord, [a, b].mapM Atom.toRecord = .ok records ∧
      link.toRecord = .ok linkRecord ∧
      Except.Returns (({} : Recognizer).recognize { subject := .value (.list records) }) ∧
      ({} : Recognizer).recognize { subject := .value linkRecord } =
        ({} : Recognizer).recognize { subject := .value (.list records) } := by
  intro a b link
  let recordA : Value := .record [("type", .text "T"), ("name", .text "get_user")]
  let recordB : Value := .record [("id", .int 1), ("type", .text "T"), ("name", .text "get_item"),
    ("truth_value", .record [("strength", .float 0.5), ("confidence", .float 1)]),
    ("outgoing", .list [recordA]), ("metadata", .record [("k", .list [.null])])]
  have ha : Atom.ofRecord recordA = .ok a := rfl
  have hb : Atom.ofRecord recordB = .ok b := rfl
  have hjsonA : recordA.IsJson := .record <| by simp [Value.IsJson.scalar]
  have hjsonB : recordB.IsJson := by
    have hlist (v : Value) (hv : v.IsJson) : (Value.list [v]).IsJson :=
      .list (List.forall_mem_singleton.2 hv)
    have htruth : (Value.record [("strength", .float 0.5), ("confidence", .float 1)]).IsJson :=
      .record <| by simp [Value.IsJson.scalar]
    have hmetadata : (Value.record [("k", .list [.null])]).IsJson :=
      .record <| by simp [hlist, Value.IsJson.scalar]
    refine .record ?_
    simp [Value.IsJson.scalar, htruth, hmetadata, hlist, hjsonA]
  have hlink : IsLinkOver [a, b] link :=
    { wellTyped := ⟨⟨_, rfl⟩, .empty, .empty⟩
      outgoing := rfl
      incoming := List.forall_mem_nil _ }
  have hread : ∀ c ∈ [a, b], ∃ v, Atom.ofRecord v = .ok c :=
    List.forall_mem_cons.2 ⟨⟨_, ha⟩, List.forall_mem_singleton.2 ⟨_, hb⟩⟩
  obtain ⟨-, records, linkRecord, hrecords, hlinkRecord, hall⟩ := recognize_alike hread hlink
  obtain ⟨hsame, hreturns⟩ := hall {} { subject := .atoms [] }
  obtain ⟨hlist, -, hrecord⟩ : _ ∧ _ ∧ _ := by simpa using hsame
  refine ⟨records, linkRecord, hrecords, hlinkRecord, ?_, hrecord.trans hlist.symm⟩
  rw [hlist]
  refine (hreturns DetectionConfig.isUsable_default (fun _ hprovider => by cases hprovider)
    (RecognitionRequest.isWellTyped_default _) ?_).2 fun _ => ?_
  · exact List.forall_mem_cons.2 ⟨⟨⟨_, hjsonA, ha⟩, .inr ⟨_, rfl⟩⟩,
      List.forall_mem_singleton.2 ⟨⟨_, hjsonB, hb⟩, .inr ⟨_, rfl⟩⟩⟩
  · exact List.forall_mem_cons.2 ⟨rfl, List.forall_mem_singleton.2 (by decide +kernel)⟩

end Recognizer

end KnowledgeGraph
