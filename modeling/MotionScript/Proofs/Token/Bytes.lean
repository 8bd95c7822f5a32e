import MotionScript.Text.Blank
import MotionScript.Token.Basic
/-!
# Bytes and characters

Positions in a source are counted in bytes, and the text is read by characters.  Behind any of its
characters a text can be cut at the width of what stands before, and such positions are where the
encoding of a character starts or the text ends.  A blank is one byte.
-/

namespace MotionScript

theorem byteWidth_cons (c : Char) (text : List Char) :
    byteWidth (c :: text) = c.utf8Size + byteWidth text := rfl

theorem byteWidth_append (front back : List Char) :
    byteWidth (front ++ back) = byteWidth front + byteWidth back := by
  induction front with
  | nil => simp [byteWidth]
  | cons c front ih => rw [List.cons_append, byteWidth_cons, byteWidth_cons, ih, Nat.add_assoc]

theorem byteWidth_pos {text : List Char} (hne : text ≠ []) : 0 < byteWidth text := by
  obtain ⟨c, text, rfl⟩ := List.exists_cons_of_ne_nil hne
  have hpos := c.utf8Size_pos
  rw [byteWidth_cons]
  omega

/-- The width of a text is the size of its encoding. -/
theorem utf8ByteSize_ofList (text : List Char) :
    (String.ofList text).utf8ByteSize = byteWidth text := by
  induction text with
  | nil => rfl
  | cons c text ih =>
      have hsplit : String.ofList (c :: text) = String.singleton c ++ String.ofList text := by
        rw [String.singleton_eq_ofList, ← String.ofList_append]
        rfl
      rw [hsplit, String.utf8ByteSize_append, String.utf8ByteSize_singleton, ih, byteWidth_cons]

theorem utf8ByteSize_eq (source : String) : source.utf8ByteSize = byteWidth source.toList := by
  rw [← utf8ByteSize_ofList, String.ofList_toList]

/-! ### Cutting at a position -/

theorem dropBytes_cons {width : Nat} {c : Char} (hfits : c.utf8Size ≤ width) (text : List Char) :
    dropBytes width (c :: text) = dropBytes (width - c.utf8Size) text := by
  have hpos := c.utf8Size_pos
  rw [dropBytes, if_pos hfits]
  omega

theorem takeBytes_cons {width : Nat} {c : Char} (hfits : c.utf8Size ≤ width) (text : List Char) :
    takeBytes width (c :: text) = (takeBytes (width - c.utf8Size) text).map (c :: ·) := by
  have hpos := c.utf8Size_pos
  rw [takeBytes, if_pos hfits]
  omega

theorem dropBytes_append (front back : List Char) :
    dropBytes (byteWidth front) (front ++ back) = some back := by
  induction front with
  | nil => exact dropBytes.eq_1 back
  | cons c front ih =>
      rw [byteWidth_cons, List.cons_append, dropBytes_cons (Nat.le_add_right _ _),
        Nat.add_sub_cancel_left, ih]

theorem takeBytes_append (front back : List Char) :
    takeBytes (byteWidth front) (front ++ back) = some front := by
  induction front with
  | nil => exact takeBytes.eq_1 back
  | cons c front ih =>
      rw [byteWidth_cons, List.cons_append, takeBytes_cons (Nat.le_add_right _ _),
        Nat.add_sub_cancel_left, ih]
      rfl

/-- What is taken stands at the head of the text and is as wide as was asked for. -/
theorem prefix_of_takeBytes {width : Nat} {text taken : List Char}
    (htaken : takeBytes width text = some taken) : taken <+: text ∧ byteWidth taken = width := by
  fun_induction takeBytes width text generalizing taken with
  | case1 => cases htaken; exact ⟨List.nil_prefix, rfl⟩
  | case2 => cases htaken
  | case3 width c text _ hfits ih =>
      obtain ⟨rest, hrest, rfl⟩ := Option.map_eq_some_iff.1 htaken
      obtain ⟨hhead, hwidth⟩ := ih hrest
      refine ⟨List.cons_prefix_cons.2 ⟨rfl, hhead⟩, ?_⟩
      rw [byteWidth_cons, hwidth]
      omega
  | case4 => cases htaken

/-- A position behind characters of the source is where a character may start. -/
theorem isValid_byteWidth {source : String} {front back : List Char}
    (hsource : source.toList = front ++ back) :
    (⟨byteWidth front⟩ : String.Pos.Raw).IsValid source := by
  have hstrings : source = String.ofList front ++ String.ofList back := by
    rw [← String.ofList_append, ← hsource, String.ofList_toList]
  have hposition : (⟨byteWidth front⟩ : String.Pos.Raw) = (String.ofList front).rawEndPos :=
    String.Pos.Raw.ext (utf8ByteSize_ofList front).symm
  rw [hstrings, hposition]
  exact String.Pos.Raw.isValid_rawEndPos.append_right _

/-! ### Blanks -/

def blankBytes : List UInt8 :=
  [0x20, 0x09, 0x0A, 0x0C, 0x0D]

theorem utf8EncodeChar_of_isBlank {c : Char} (hblank : isBlank c = true) :
    ∃ byte ∈ blankBytes, String.utf8EncodeChar c = [byte] := by
  simp only [isBlank, Bool.or_eq_true, beq_iff_eq] at hblank
  obtain (((rfl | rfl) | rfl) | rfl) | rfl := hblank
  · exact ⟨0x20, by decide, by decide⟩
  · exact ⟨0x09, by decide, by decide⟩
  · exact ⟨0x0A, by decide, by decide⟩
  · exact ⟨0x0C, by decide, by decide⟩
  · exact ⟨0x0D, by decide, by decide⟩

theorem utf8Size_of_isBlank {c : Char} (hblank : isBlank c = true) : c.utf8Size = 1 := by
  obtain ⟨byte, _, hbytes⟩ := utf8EncodeChar_of_isBlank hblank
  rw [← String.length_utf8EncodeChar, hbytes]
  rfl

/-- Where a blank stands in the source is the byte of a blank. -/
theorem getUTF8Byte_mem_blankBytes {source : String} {front back : List Char} {c : Char}
    (hsource : source.toList = front ++ c :: back) (hblank : isBlank c = true)
    (hinside : (⟨byteWidth front⟩ : String.Pos.Raw) < source.rawEndPos) :
    source.getUTF8Byte ⟨byteWidth front⟩ hinside ∈ blankBytes := by
  obtain ⟨byte, hmem, hbytes⟩ := utf8EncodeChar_of_isBlank hblank
  have hbyte : source.getUTF8Byte ⟨byteWidth front⟩ hinside = byte := by
    have hencoded : source.toByteArray = (String.ofList front).toByteArray ++
        ([byte].toByteArray ++ (String.ofList back).toByteArray) := by
      rw [← String.ofList_toList (s := source), hsource, String.toByteArray_ofList,
        List.utf8Encode_append, List.utf8Encode_cons, List.utf8Encode_singleton, hbytes,
        String.toByteArray_ofList, String.toByteArray_ofList]
    have hsize : (String.ofList front).toByteArray.size = byteWidth front := by
      rw [String.size_toByteArray, utf8ByteSize_ofList]
    rw [String.getUTF8Byte_eq_getElem]
    simp only [hencoded]
    rw [ByteArray.getElem_append_right (Nat.le_of_eq hsize)]
    simp only [hsize, Nat.sub_self]
    exact ByteArray.getElem_append_left (by simp)
  rwa [hbyte]

end MotionScript
