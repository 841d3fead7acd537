import KnowledgeGraph.Proofs.Text.Bytes
import KnowledgeGraph.Service.Route

/-!
# What a path names

A path of ASCII without percent signs stands for itself (`Path.decode_literal`), and its segments are
what is between the slashes (`splitOn_ofList`).
-/

namespace KnowledgeGraph

/-! ## Splitting texts -/

section Split

open String

variable {d c : Char} (l m r : List Char)

theorem utf8Len_append_singleton : utf8Len (l ++ [c]) = utf8Len l + c.utf8Size := by
  rw [utf8Len_append, utf8Len_cons, utf8Len_nil, Nat.zero_add]

theorem atEnd_append : Pos.Raw.atEnd (ofList (l ++ r)) ⟨utf8Len l⟩ ↔ r = [] := by
  simp only [atEnd_iff, rawEndPos_ofList, Pos.Raw.mk_le_mk, utf8Len_append]
  rw [← utf8Len_eq_zero]
  omega

theorem extract_append : Pos.Raw.extract (ofList (l ++ m ++ r)) ⟨utf8Len l⟩ ⟨utf8Len (l ++ m)⟩ =
    ofList m := by
  rw [utf8Len_append]
  exact extract_of_valid l m r

/-- The parts that are found from some place on, where those before it are known and the one at that
place has begun before it. -/
theorem splitOnAux_ofList (d : Char) (acc : List String) :
    splitOnAux (ofList (l ++ m ++ r)) (ofList [d]) ⟨utf8Len l⟩ ⟨utf8Len (l ++ m)⟩ 0 acc =
      acc.reverse ++ (List.splitOnPPrepend (· == d) r m.reverse).map ofList := by
  induction r generalizing l m acc with
  | nil =>
    rw [splitOnAux, if_pos ((atEnd_append (l ++ m) []).2 rfl)]
    dsimp only
    rw [extract_append, List.splitOnPPrepend_nil, List.reverse_reverse, List.reverse_cons]
    rfl
  | cons c r ih =>
    have hget : Pos.Raw.get (ofList (l ++ m ++ c :: r)) ⟨utf8Len (l ++ m)⟩ = c :=
      get_of_valid (l ++ m) (c :: r)
    have hnext : Pos.Raw.next (ofList (l ++ m ++ c :: r)) ⟨utf8Len (l ++ m)⟩ =
        ⟨utf8Len (l ++ m) + c.utf8Size⟩ := next_of_valid (l ++ m) c r
    have hsep : Pos.Raw.get (ofList [d]) 0 = d := get_of_valid [] [d]
    rw [splitOnAux, if_neg (fun h => List.cons_ne_nil c r ((atEnd_append (l ++ m) (c :: r)).1 h)),
      hget, hsep, List.splitOnPPrepend_cons_eq_if]
    by_cases hc : (c == d) = true
    · obtain rfl := eq_of_beq hc
      have hnextSep : Pos.Raw.next (ofList [c]) 0 = ⟨c.utf8Size⟩ := by
        simpa using next_of_valid [] c []
      have hendSep : Pos.Raw.atEnd (ofList [c]) ⟨c.utf8Size⟩ := by
        simpa using atEnd_append [c] []
      have hback : Pos.Raw.unoffsetBy ⟨utf8Len (l ++ m) + c.utf8Size⟩ ⟨c.utf8Size⟩ =
          ⟨utf8Len (l ++ m)⟩ := congrArg Pos.Raw.mk (Nat.add_sub_cancel _ _)
      have ih := ih (l ++ m ++ [c]) [] (ofList m :: acc)
      rw [List.append_nil, utf8Len_append_singleton, List.append_assoc, List.singleton_append] at ih
      rw [if_pos hc, if_pos hc, hnextSep, hnext]
      dsimp only
      rw [if_pos hendSep, hback, extract_append, ih, List.reverse_cons, List.append_assoc,
        List.reverse_reverse]
      rfl
    · have ih := ih l (m ++ [c]) acc
      rw [← List.append_assoc, utf8Len_append_singleton, List.append_assoc (l ++ m),
        List.singleton_append, List.reverse_append] at ih
      rw [if_neg hc, if_neg hc, Pos.Raw.unoffsetBy]
      exact (congrArg (splitOnAux _ _ _ · 0 acc) hnext).trans ih

theorem splitOn_ofList (d : Char) (cs : List Char) :
    splitOn (ofList cs) (ofList [d]) = (cs.splitOnP (· == d)).map ofList := by
  unfold splitOn
  rw [if_neg (by simp)]
  exact splitOnAux_ofList [] [] cs d []

end Split

/-! ## Paths -/

namespace Service

open Text

namespace Path

/-- Whether a character of a path stands for itself, as those of ASCII do other than the percent
sign. -/
def isLiteral (c : Char) : Bool := isAscii c && c != '%'

theorem bytes_literal {cs : List Char} (h : ∀ c ∈ cs, isLiteral c = true) :
    bytes cs = cs.map byteOf := by
  induction cs with
  | nil => rfl
  | cons c cs ih =>
    obtain ⟨hc, hcs⟩ := List.forall_mem_cons.1 h
    have hascii : isAscii c = true := (Bool.and_eq_true_iff.1 hc).1
    have hone : c.toString.toUTF8.toList = [byteOf c] := by
      have htext : c.toString = String.ofList [c] := rfl
      rw [htext, toUTF8_toList, List.flatMap_singleton, utf8EncodeChar_ascii hascii]
    unfold bytes
    split
    · rename_i heq
      cases heq
    · rename_i heq
      cases heq
      exact absurd hc Bool.false_ne_true
    · rename_i heq
      cases heq
      rw [hone, ih hcs]
      rfl

/-- A path of such characters stands for itself. -/
theorem decode_literal {cs : List Char} (h : ∀ c ∈ cs, isLiteral c = true) :
    decode (String.ofList cs) = String.ofList cs := by
  unfold decode
  rw [String.toList_ofList, bytes_literal h,
    Utf8.decode_ascii fun c hc => (Bool.and_eq_true_iff.1 (h c hc)).1]

end Path

/-! ## The place of queries -/

variable {m : Method}

theorem GraphAction.method_of_find {path : List String}
    (h : GraphAction.find? m path = some .query) : m = .post := by
  unfold GraphAction.find? at h
  split at h <;> cases h
  rfl

theorem Action.method_of_find {path : List String}
    (h : Action.find? m path = some (.graph .query)) : m = .post := by
  unfold Action.find? at h
  split at h
  · cases h
  · cases h
  · split at h
    · cases h
    · split at h
      · obtain ⟨_, _, h⟩ := Option.map_eq_some_iff.1 h
        cases h
      · obtain ⟨a, ha, h⟩ := Option.map_eq_some_iff.1 h
        cases h
        exact GraphAction.method_of_find ha
  · cases h

theorem method_of_find_query {path : String} (h : find m path = .action (.graph .query)) :
    m = .post := by
  unfold find at h
  dsimp only at h
  split at h
  · rename_i a ha
    cases h
    obtain h | ⟨-, h⟩ := Option.or_eq_some_iff.1 ha
    · exact Action.method_of_find h
    · exact Action.method_of_find h
  · split at h
    · cases h
    · split at h <;> cases h

theorem find_query : find .post "/v1/atoms/query" = .action (.graph .query) := by
  have hdecode : Path.decode (Path.withoutQuery "/v1/atoms/query") = "/v1/atoms/query" :=
    Path.decode_literal (List.all_eq_true.1 rfl)
  have hsplit : "/v1/atoms/query".splitOn "/" = ["", "v1", "atoms", "query"] :=
    splitOn_ofList '/' "/v1/atoms/query".toList
  unfold find Path.segments
  rw [hdecode, hsplit]
  rfl

end Service

end KnowledgeGraph
