import KnowledgeGraph.Text.Utf8
import Mathlib.Data.String.Basic

/-!
# Texts and their bytes

The bytes of a text are those of its characters one after the other (`toUTF8_toList`). A character of
ASCII has one byte, its number, so bytes that are such numbers are read back as the characters
(`Utf8.decode_ascii`).
-/

namespace KnowledgeGraph.Text

variable {c : Char} {cs : List Char}

/-! ## Bytes as a list -/

theorem bytes_loop (bs : ByteArray) (i : Nat) (r : List UInt8) :
    ByteArray.toList.loop bs i r = r.reverse ++ bs.data.toList.drop i := by
  fun_induction ByteArray.toList.loop bs i r with
  | case1 i r hi ih =>
    have hi' : i < bs.data.toList.length := hi
    rw [ih, List.drop_eq_getElem_cons hi', List.reverse_cons, List.append_assoc]
    simp [ByteArray.get!, hi]
  | case2 i r hi =>
    rw [List.drop_eq_nil_of_le (Nat.le_of_not_lt hi), List.append_nil]

theorem toUTF8_toList (cs : List Char) :
    (String.ofList cs).toUTF8.toList = cs.flatMap String.utf8EncodeChar := by
  have hdata (bs : ByteArray) : bs.toList = bs.data.toList := bytes_loop bs 0 []
  have hbytes : (String.ofList cs).toUTF8 = cs.utf8Encode := String.toByteArray_ofList
  rw [hdata, hbytes, List.utf8Encode, List.data_toByteArray]

/-! ## Characters of ASCII -/

/-- Whether a character is one of ASCII other than that of zero. -/
def isAscii (c : Char) : Bool := c.toNat != 0 && c.toNat ≤ 127

def byteOf (c : Char) : UInt8 := UInt8.ofNat c.toNat

theorem toNat_byteOf (h : isAscii c = true) : (byteOf c).toNat = c.toNat := by
  have hle : c.toNat ≤ 127 := of_decide_eq_true (Bool.and_eq_true_iff.1 h).2
  exact Nat.mod_eq_of_lt (by omega)

theorem byteOf_ne_zero (h : isAscii c = true) : (byteOf c == 0) = false := by
  have hne : c.toNat ≠ 0 := bne_iff_ne.1 (Bool.and_eq_true_iff.1 h).1
  exact beq_eq_false_iff_ne.2 fun heq =>
    hne ((toNat_byteOf h).symm.trans (congrArg UInt8.toNat heq))

theorem utf8EncodeChar_ascii (h : isAscii c = true) : String.utf8EncodeChar c = [byteOf c] :=
  if_pos (of_decide_eq_true (Bool.and_eq_true_iff.1 h).2)

theorem Utf8.decode_ascii (h : ∀ c ∈ cs, isAscii c = true) : decode (cs.map byteOf) = cs := by
  unfold decode
  induction cs with
  | nil => rfl
  | cons c cs ih =>
    obtain ⟨hc, hcs⟩ := List.forall_mem_cons.1 h
    have hlt : c.toNat < 0x80 :=
      Nat.lt_succ_of_le (of_decide_eq_true (Bool.and_eq_true_iff.1 hc).2)
    have hfirst : first (byteOf c).toNat = ([c], none) := by
      rw [toNat_byteOf hc, first, if_pos hlt, Char.ofNat_toNat]
    rw [List.map_cons, decodeFrom]
    dsimp only
    rw [hfirst, ih hcs]
    rfl

end KnowledgeGraph.Text
