import KnowledgeGraph.Proofs.Attempt
import KnowledgeGraph.Proofs.Except
import KnowledgeGraph.Proofs.Json.Encoding
import KnowledgeGraph.Proofs.Service.Forms
import KnowledgeGraph.Proofs.Service.Path
import KnowledgeGraph.Proofs.Value
import KnowledgeGraph.Service

/-!
# Queries to the service

The body of a query is checked by the service, and could be given to the store as a record. Both ask
the same (`Passes.ofRecord`), with two exceptions. An empty attention threshold is one of zeros for
the service, which atoms without an attention value do not reach, and none for the store. And the
store does not read numbers in texts with misplaced underscores. `respond_query` says so of what the
two answer.
-/

namespace KnowledgeGraph

open Service

/-! ## Thresholds -/

/-- The value of the threshold for truth values. -/
def truthThreshold (es : Entries) : Value :=
  Entries.either es "truthValueThreshold" "truth_value_threshold"

/-- The value of the threshold for attention values. -/
def attentionThreshold (es : Entries) : Value :=
  Entries.either es "attentionThreshold" "attention_threshold"

/-- Whether the underscores in some fields of a value stand between digits. -/
def areGrouped (v : Value) (names : List String) : Bool :=
  names.all fun name => (Service.field v name).isGrouped

/-- Whether the underscores in the numbers of both thresholds stand between digits. -/
def isWellSpelled (es : Entries) : Bool :=
  areGrouped (truthThreshold es) ["strength", "confidence"] &&
    areGrouped (attentionThreshold es) ["sti", "lti", "vlti"]

variable {α : Type} {es : Entries} {v : Value} {q : Query}

theorem field_map (es : Entries) (name : String) :
    Service.field (.map es) name = Entries.field es name := rfl

/-- A truth value that passes is the one that is read, unless it is not read. -/
theorem ofValue_of_truthValue {t : TruthValue} (h : Body.truthValue v = .fine t) :
    v.isAbsent = false ∧ TruthValue.ofValue v =
      if areGrouped v ["strength", "confidence"] then .ok t else .error .badForm := by
  obtain ⟨es, rfl, h⟩ := Form.record_eq_fine.1 h
  obtain ⟨_, y, hf, hy, rfl⟩ := Checked.seq_eq_fine.1 h
  obtain ⟨x, hx, rfl⟩ := Checked.map_eq_fine.1 hf
  obtain ⟨strength, hstrength, hx⟩ := Form.required_eq_fine.1 hx
  obtain ⟨confidence, hconfidence, hy⟩ := Form.required_eq_fine.1 hy
  have hx := Form.toFloat_of_number hx
  have hy := Form.toFloat_of_number hy
  refine ⟨?_, ?_⟩
  · cases es with
    | nil => cases hstrength
    | cons e rest => rfl
  · have hfield {name : String} {w : Value} (hw : Entries.get? es name = some w) :
        Service.field (.map es) name = w := by
      rw [field_map, Entries.field, hw]
      rfl
    unfold TruthValue.ofValue Value.index areGrouped
    dsimp only
    rw [hstrength, hconfidence, List.all_cons, List.all_cons, List.all_nil, hfield hstrength,
      hfield hconfidence, Except.ok_bind, Except.ok_bind, hx, hy]
    cases strength.isGrouped <;> cases confidence.isGrouped <;> rfl

/-- An attention value that passes is the one that is read, unless it is not read. -/
theorem ofValue_of_attentionValue {a : AttentionValue} (h : Body.attentionValue v = .fine a) :
    AttentionValue.ofValue v =
      if areGrouped v ["sti", "lti", "vlti"] then .ok a else .error .badForm := by
  obtain ⟨es, rfl, h⟩ := Form.record_eq_fine.1 h
  obtain ⟨_, vlti, h₂, hvlti, rfl⟩ := Checked.seq_eq_fine.1 h
  obtain ⟨_, lti, h₁, hlti, rfl⟩ := Checked.seq_eq_fine.1 h₂
  obtain ⟨sti, hsti, rfl⟩ := Checked.map_eq_fine.1 h₁
  have hcomponent {name : String} {x : Float}
      (hx : Form.defaulted [name] 0 Form.number es = .fine x) :
      AttentionValue.ofValue.component (.map es) name =
        if (Service.field (.map es) name).isGrouped then .ok x else .error .badForm := by
    have hzero : Form.number (.float 0) = .fine 0 := rfl
    have hread := Form.toFloat_of_number ((Form.defaulted_eq_fine hzero).1 hx)
    rw [field_map, Entries.field]
    show ((Entries.get? es name).getD (.float 0)).toFloat = _
    rw [hread]
    cases Entries.get? es name <;> rfl
  unfold AttentionValue.ofValue areGrouped
  rw [hcomponent hsti, hcomponent hlti, hcomponent hvlti, List.all_cons, List.all_cons,
    List.all_cons, List.all_nil]
  cases (Service.field (.map es) "sti").isGrouped <;>
    cases (Service.field (.map es) "lti").isGrouped <;>
    cases (Service.field (.map es) "vlti").isGrouped <;> rfl

theorem readThreshold_of_nullable {form : Form α} {reader : Value → Except Fault α}
    {threshold : Option α} {grouped : Bool} (h : Form.nullable form v = .fine threshold)
    (hnull : v = .null → grouped = true) (hpresent : v = .null ∨ v.isAbsent = false)
    (hread : ∀ a, form v = .fine a → reader v = if grouped then .ok a else .error .badForm) :
    Query.readThreshold reader v = if grouped then .ok threshold else .error .badForm := by
  unfold Query.readThreshold
  obtain ⟨rfl, rfl⟩ | ⟨hne, a, ha, rfl⟩ := Form.nullable_eq_fine.1 h
  · rw [hnull rfl]
    rfl
  · rw [hpresent.resolve_left hne, if_neg Bool.false_ne_true, hread a ha]
    cases grouped <;> rfl

/-! ## Records -/

/-- What the fields of a body say that passes. -/
structure Passes (es : Entries) (q : Query) : Prop where
  type : q.type = Entries.field es "type"
  name : q.name = Entries.field es "name"
  truth : Form.nullable Body.truthValue (truthThreshold es) = .fine q.truth
  attention : Form.nullable Body.attentionValue (attentionThreshold es) = .fine q.attention

theorem givenText_of_nullable {s : Option String} (h : Form.nullable Form.text v = .fine s) :
    Body.givenText s = v := by
  obtain ⟨rfl, rfl⟩ | ⟨-, s, hs, rfl⟩ := Form.nullable_eq_fine.1 h
  · rfl
  · exact (Form.text_eq_fine.1 hs).symm

theorem passes_of_query (h : Body.query v = .fine q) : ∃ es, v = .map es ∧ Passes es q := by
  obtain ⟨es, rfl, h⟩ := Form.record_eq_fine.1 h
  obtain ⟨_, attention, h₃, hattention, rfl⟩ := Checked.seq_eq_fine.1 h
  obtain ⟨_, truth, h₂, htruth, rfl⟩ := Checked.seq_eq_fine.1 h₃
  obtain ⟨_, name, h₁, hname, rfl⟩ := Checked.seq_eq_fine.1 h₂
  obtain ⟨type, htype, rfl⟩ := Checked.map_eq_fine.1 h₁
  exact ⟨es, rfl, givenText_of_nullable (Form.optional_eq_fine.1 htype),
    givenText_of_nullable (Form.optional_eq_fine.1 hname), Form.optional_either_eq_fine.1 htruth,
    Form.optional_either_eq_fine.1 hattention⟩

theorem Passes.readTruth (h : Passes es q) :
    Query.readThreshold TruthValue.ofValue (truthThreshold es) =
      if areGrouped (truthThreshold es) ["strength", "confidence"] then .ok q.truth
      else .error .badForm := by
  refine readThreshold_of_nullable h.truth (fun hnull => by rw [hnull]; rfl) ?_
    fun t ht => (ofValue_of_truthValue ht).2
  obtain ⟨hnull, -⟩ | ⟨-, t, ht, -⟩ := Form.nullable_eq_fine.1 h.truth
  · exact .inl hnull
  · exact .inr (ofValue_of_truthValue ht).1

theorem Passes.readAttention (h : Passes es q) (hsome : attentionThreshold es ≠ .map []) :
    Query.readThreshold AttentionValue.ofValue (attentionThreshold es) =
      if areGrouped (attentionThreshold es) ["sti", "lti", "vlti"] then .ok q.attention
      else .error .badForm := by
  refine readThreshold_of_nullable h.attention (fun hnull => by rw [hnull]; rfl) ?_
    fun a ha => ofValue_of_attentionValue ha
  obtain ⟨hnull, -⟩ | ⟨-, a, ha, -⟩ := Form.nullable_eq_fine.1 h.attention
  · exact .inl hnull
  · obtain ⟨fs, hfs, -⟩ := Form.record_eq_fine.1 ha
    refine .inr ?_
    rw [hfs] at hsome ⊢
    cases fs with
    | nil => exact absurd rfl hsome
    | cons e rest => rfl

/-- An empty threshold is one of zeros for the service, and none for the store. -/
theorem Passes.readAttention_empty (h : Passes es q) (hnone : attentionThreshold es = .map []) :
    q.attention = some ⟨0, 0, 0⟩ ∧
      Query.readThreshold AttentionValue.ofValue (attentionThreshold es) = .ok none := by
  have hattention := h.attention
  rw [hnone] at hattention ⊢
  exact ⟨(Checked.fine.inj hattention).symm, rfl⟩

/-- **Records.** A body that passes asks the same as it does when it is read as a record, but for an
empty attention threshold, unless it is not read. -/
theorem Passes.ofRecord (h : Passes es q) : Query.ofRecord (.map es) =
    if isWellSpelled es then
      .ok { q with attention := if attentionThreshold es = .map [] then none else q.attention }
    else .error .badForm := by
  have hattention : Query.readThreshold AttentionValue.ofValue (attentionThreshold es) =
      if areGrouped (attentionThreshold es) ["sti", "lti", "vlti"] then
        .ok (if attentionThreshold es = .map [] then none else q.attention)
      else .error .badForm := by
    by_cases hnone : attentionThreshold es = .map []
    · rw [(h.readAttention_empty hnone).2, hnone]
      rfl
    · rw [if_neg hnone]
      exact h.readAttention hnone
  have hread : Query.ofRecord (.map es) = do
      let truth ← Query.readThreshold TruthValue.ofValue (truthThreshold es)
      let attention ← Query.readThreshold AttentionValue.ofValue (attentionThreshold es)
      return ⟨Entries.field es "type", Entries.field es "name", truth, attention⟩ := rfl
  rw [hread, h.readTruth, hattention, ← h.type, ← h.name]
  unfold isWellSpelled
  cases areGrouped (truthThreshold es) ["strength", "confidence"] <;>
    cases areGrouped (attentionThreshold es) ["sti", "lti", "vlti"] <;> rfl

/-! ## Tests -/

theorem reaches_failsWith {β : Type} (test : β → β → Bool) (wanted : Option β) (actual : Slot β) :
    Except.FailsWith (· = .noSuchField) (Query.reaches test wanted actual) := by
  unfold Query.reaches
  split
  · exact Except.failsWith_ok true
  · split
    · exact Except.failsWith_ok false
    · refine Except.FailsWith.bind ?_ fun _ _ => Except.failsWith_ok _
      cases actual with
      | known b => exact Except.failsWith_ok b
      | raw v => exact Except.failsWith_error rfl

theorem accepts_failsWith (q : Query) (a : Atom) :
    Except.FailsWith (· = .noSuchField) (q.accepts a) := by
  unfold Query.accepts
  split
  · exact Except.failsWith_ok false
  · refine (reaches_failsWith _ _ _).bind fun b _ => ?_
    cases b with
    | false => exact Except.failsWith_ok false
    | true => exact reaches_failsWith _ _ _

theorem accepts_attention (q : Query) (a : Atom) : q.accepts a = do
    if ← { q with attention := none }.accepts a then
      Query.reaches Query.reachesAttention q.attention a.attention
    else return false := by
  unfold Query.accepts
  dsimp only
  split
  · rfl
  · cases Query.reaches Query.reachesTruth q.truth a.truth with
    | error f => rfl
    | ok b => cases b <;> rfl

/-! ## Answers -/

/-- How the atoms found for a body as a record compare to those that the service finds. -/
structure Compares (s : Store) (es : Entries) (found : Except Fault (List Atom)) : Prop where
  /-- They are the same, if the numbers are read and there is no empty attention threshold. -/
  same : isWellSpelled es = true → attentionThreshold es ≠ .map [] →
    s.queryRecord (.map es) = found
  /-- For an empty attention threshold the service leaves out those that do not reach zeros. -/
  fewer : isWellSpelled es = true → attentionThreshold es = .map [] →
    found = s.queryRecord (.map es) >>= filterE fun a =>
      Query.reaches Query.reachesAttention (some ⟨0, 0, 0⟩) a.attention
  /-- The record is refused if a number is not read. -/
  unread : isWellSpelled es = false → s.queryRecord (.map es) = .error .badForm

theorem Passes.compares (h : Passes es q) (s : Store) : Compares s es (s.query q) := by
  have hrecord : s.queryRecord (.map es) = Query.ofRecord (.map es) >>= s.query := rfl
  refine ⟨fun hspelled hsome => ?_, fun hspelled hnone => ?_, fun hspelled => ?_⟩
  · rw [hrecord, h.ofRecord, if_pos hspelled, if_neg hsome]
    rfl
  · have hzeros := (h.readAttention_empty hnone).1
    rw [hrecord, h.ofRecord, if_pos hspelled, if_pos hnone, ← hzeros]
    exact Except.filterE_filterE (accepts_attention q) (accepts_failsWith _)
      (fun _ => reaches_failsWith _ _ _) s.all
  · rw [hrecord, h.ofRecord, hspelled]
    rfl

/-- The answer to a query for which some atoms were found. -/
def queryReply (found : Except Fault (List Atom)) : Response :=
  match found.bind writeAtoms with
  | .ok records => .ofBody (counted "atoms" records)
  | .error f => .ofRefusal (.failed f)

theorem run_respond_query {r : Request} {e : Engine}
    (hr : find r.method r.path = .action (.graph .query))
    (hq : Body.read Body.query r.body = .ok q) :
    (respond r).run e = (queryReply (e.store.query q), e) := by
  have hhandle : handle r.body (.graph .query) = do
      let atoms ← (← get).store.query q
      return counted "atoms" (← writeAtoms atoms) := by
    unfold handle handleGraph
    dsimp only
    rw [hq]
    rfl
  have hrun : (handle r.body (.graph .query)).run.run e =
      (((e.store.query q).bind writeAtoms).mapError .failed |>.map (counted "atoms"), e) := by
    rw [hhandle]
    show (ExceptT.run (do
      let atoms ← (liftM (e.store.query q) : Handler (List Atom))
      return counted "atoms" (← writeAtoms atoms))).run e = _
    cases e.store.query q with
    | error f => rfl
    | ok atoms =>
      show (ExceptT.run (do
        return counted "atoms" (← (liftM (writeAtoms atoms) : Handler (List Value))))).run e =
          (((writeAtoms atoms).mapError .failed).map (counted "atoms"), e)
      cases writeAtoms atoms <;> rfl
  unfold respond respondInFull
  rw [hr, method_of_find_query hr]
  simp only [StateT.run_bind, hrun]
  unfold queryReply
  cases (e.store.query q).bind writeAtoms <;> rfl

/-- **Queries to the service.** The answer to a query is made of the atoms that are found for it.
They are those that the store finds for the body as a record, unless there is an empty attention
threshold, which atoms without an attention value reach for the store only, or there is a number in
a text with misplaced underscores, which the store does not read. -/
theorem respond_query {r : Request} {e : Engine}
    (hr : find r.method r.path = .action (.graph .query))
    (hq : Body.read Body.query r.body = .ok q) :
    (respond r).run e = (queryReply (e.store.query q), e) ∧
      ∃ text es, Json.decode? r.body = some text ∧ Json.read text = .ok (.map es) ∧
        Compares e.store es (e.store.query q) := by
  obtain ⟨text, v, htext, hv, hform⟩ := Body.read_eq_ok hq
  obtain ⟨es, rfl, hpasses⟩ := passes_of_query hform
  exact ⟨run_respond_query hr hq, text, es, htext, hv, hpasses.compares e.store⟩

/-! ## An empty threshold -/

/-- The text of a query with an empty attention threshold. -/
def emptyAttentionText : String := "\x7b\"attentionThreshold\":\x7b\x7d\x7d"

def emptyAttentionEntries : Entries := [(.text "attentionThreshold", .map [])]

def emptyAttention : Request := ⟨.post, "/v1/atoms/query", emptyAttentionText.toUTF8⟩

theorem decode?_emptyAttention : Json.decode? emptyAttention.body = some emptyAttentionText :=
  Json.decode?_toUTF8 rfl rfl "attentionThreshold\":\x7b\x7d\x7d".toList

theorem read_emptyAttentionText :
    Json.read emptyAttentionText = .ok (.map emptyAttentionEntries) := by
  have hchars : emptyAttentionText.toList =
      ['\x7b', '"', 'a', 't', 't', 'e', 'n', 't', 'i', 'o', 'n', 'T', 'h', 'r', 'e', 's', 'h', 'o',
        'l', 'd', '"', ':', '\x7b', '\x7d', '\x7d'] := rfl
  unfold Json.read
  rw [hchars]
  rfl

theorem read_emptyAttention :
    Body.read Body.query emptyAttention.body = .ok ⟨.null, .null, none, some ⟨0, 0, 0⟩⟩ := by
  unfold Body.read
  rw [decode?_emptyAttention]
  dsimp only
  rw [read_emptyAttentionText]
  rfl

/-- An atom without an attention value. -/
def unattended : Atom := ⟨.text "T", .null, .text "atom_1", .empty, .empty, [], [], []⟩

/-- An engine with one atom, which has no attention value. -/
def quietEngine : Engine := { Engine.start {} with store := ⟨[(.text "atom_1", unattended)], 2⟩ }

/-- The service finds nothing for the query, where the store finds the atom. -/
theorem respond_query_emptyAttention :
    find emptyAttention.method emptyAttention.path = .action (.graph .query) ∧
      Body.read Body.query emptyAttention.body = .ok ⟨.null, .null, none, some ⟨0, 0, 0⟩⟩ ∧
      (respond emptyAttention).run quietEngine = (.ofBody (counted "atoms" []), quietEngine) ∧
      Compares quietEngine.store emptyAttentionEntries (.ok []) ∧
      quietEngine.store.queryRecord (.map emptyAttentionEntries) = .ok [unattended] := by
  obtain ⟨hrun, text, es, htext, hes, hcompares⟩ :=
    respond_query (e := quietEngine) find_query read_emptyAttention
  obtain rfl := Option.some.inj (decode?_emptyAttention.symm.trans htext)
  obtain rfl : emptyAttentionEntries = es := by
    have heq := read_emptyAttentionText.symm.trans hes
    cases heq
    rfl
  exact ⟨find_query, read_emptyAttention, hrun, hcompares, rfl⟩

end KnowledgeGraph
