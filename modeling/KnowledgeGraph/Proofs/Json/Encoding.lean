import KnowledgeGraph.Json.Encoding
import KnowledgeGraph.Proofs.Text.Bytes

/-!
# Bodies in units of one byte

A text in units of one byte is read as it is, if it starts with two characters of ASCII other than that
of zero (`decode?_toUTF8`). A JSON text of two characters or more does.
-/

namespace KnowledgeGraph.Json

open Text

variable {a b : Char}

theorem detect_units8 {a b : UInt8} (ha : (a == 0) = false) (hb : (b == 0) = false)
    (rest : List UInt8) : Encoding.detect (a :: b :: rest) = .units8 := by
  unfold Encoding.detect
  split <;> simp_all

theorem dropMark_of_isAscii (h : isAscii a = true) (cs : List Char) :
    dropMark (a :: cs) = a :: cs := by
  unfold dropMark
  split
  · rename_i heq
    cases heq
    cases h
  · rfl

/-- **Texts in units of one byte.** -/
theorem decode?_toUTF8 (ha : isAscii a = true) (hb : isAscii b = true) (cs : List Char) :
    decode? (String.ofList (a :: b :: cs)).toUTF8 = some (String.ofList (a :: b :: cs)) := by
  have hbytes : (String.ofList (a :: b :: cs)).toUTF8.toList =
      byteOf a :: byteOf b :: cs.flatMap String.utf8EncodeChar := by
    rw [toUTF8_toList, List.flatMap_cons, List.flatMap_cons, utf8EncodeChar_ascii ha,
      utf8EncodeChar_ascii hb]
    rfl
  have htext : String.fromUTF8? (String.ofList (a :: b :: cs)).toUTF8 =
      some (String.ofList (a :: b :: cs)) := dif_pos (String.ofList (a :: b :: cs)).isValidUTF8
  unfold decode?
  dsimp only
  rw [hbytes, detect_units8 (byteOf_ne_zero ha) (byteOf_ne_zero hb)]
  dsimp only
  rw [htext, Option.map_some, String.toList_ofList, dropMark_of_isAscii ha]

end KnowledgeGraph.Json
