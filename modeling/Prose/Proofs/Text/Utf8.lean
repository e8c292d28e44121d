import Mathlib.Data.List.Basic
import Mathlib.Tactic.SplitIfs
import Prose.Text.Utf8

/-!
The bytes of a text. A line feed is one byte, and this byte is part of no other
character, so it makes no difference whether a text is cut into lines before it is
encoded or after: a stream of the bytes of a text hands out the lines of the text.
-/

namespace Prose

namespace Text

def toBytes (text : List Char) : List UInt8 := text.flatMap String.utf8EncodeChar

theorem toBytes_cons (c : Char) (text : List Char) :
    toBytes (c :: text) = String.utf8EncodeChar c ++ toBytes text :=
  List.flatMap_cons

theorem ofBytes?_toBytes (text : List Char) :
    ofBytes? (toBytes text) = some text := by
  have hvalid : (⟨(toBytes text).toArray⟩ : ByteArray) = text.utf8Encode := by
    apply ByteArray.ext
    rw [List.utf8Encode, List.data_toByteArray]
    rfl
  rw [ofBytes?, hvalid, String.fromUTF8?, dif_pos ByteArray.isValidUTF8_utf8Encode]
  exact congrArg some (String.toList_ofList (l := text))

theorem length_toBytes (text : List Char) :
    (toBytes text).length = byteLength text := by
  induction text with
  | nil => rfl
  | cons c text ih =>
      rw [toBytes_cons, List.length_append, ih, String.length_utf8EncodeChar]
      rfl

/-- Bytes that are a text are the bytes of this text. -/
theorem toBytes_of_ofBytes? {bytes : List UInt8} {text : List Char}
    (h : ofBytes? bytes = some text) : toBytes text = bytes := by
  obtain ⟨s, hs, rfl⟩ := Option.map_eq_some_iff.1 h
  unfold String.fromUTF8? at hs
  split at hs
  · cases hs
    have hencode := congrArg (·.data.toList)
      (String.utf8Encode_toList (b := String.fromUTF8 ⟨bytes.toArray⟩ ‹_›))
    rw [List.utf8Encode, List.data_toByteArray] at hencode
    exact hencode
  · cases hs

/-- The byte of the line feed is part of no other character. -/
theorem lineFeed_not_mem_utf8EncodeChar {c : Char} (hc : c ≠ '\n') :
    10 ∉ String.utf8EncodeChar c := by
  have hcode : c.val.toNat ≠ 10 := by
    intro hcode
    exact hc (Char.ext (UInt32.toNat_inj.1 hcode))
  simp only [String.utf8EncodeChar]
  -- All bytes of a character that takes more than one byte are at least 128.
  split_ifs <;>
    simp only [List.mem_cons, List.not_mem_nil, or_false, ← UInt8.toNat_inj,
      UInt8.toNat_ofNat', UInt8.reduceToNat] <;>
    omega

/-- A text whose bytes end in a line feed ends in one. -/
theorem eq_append_lineFeed_of_toBytes {text : List Char} {front : List UInt8}
    (h : toBytes text = front ++ [10]) : ∃ line, text = line ++ ['\n'] := by
  rcases List.eq_nil_or_concat' text with rfl | ⟨line, c, rfl⟩
  · exact absurd h.symm (by simp [toBytes])
  · have hlast := congrArg List.getLast? h
    rw [toBytes, List.flatMap_append, List.flatMap_singleton,
      List.getLast?_append_of_ne_nil _ String.utf8EncodeChar_ne_nil,
      List.getLast?_concat] at hlast
    have hmem : 10 ∈ String.utf8EncodeChar c := List.mem_of_getLast? hlast
    by_cases hc : c = '\n'
    · exact ⟨line, by rw [hc]⟩
    · exact absurd hmem (lineFeed_not_mem_utf8EncodeChar hc)

/-- Lines that bytes are cut into: none of them is empty, and all but the last end
in a line feed. -/
inductive AreByteLines : List (List UInt8) → Prop where
  | nil : AreByteLines []
  | last {line : List UInt8} : line ≠ [] → AreByteLines [line]
  | cons {rest : List (List UInt8)} (front : List UInt8) :
      AreByteLines rest → AreByteLines ((front ++ [10]) :: rest)

theorem areByteLines_byteLines (bytes : List UInt8) :
    AreByteLines (byteLines bytes) := by
  induction bytes with
  | nil => exact .nil
  | cons b bytes ih =>
      rw [byteLines]
      split
      · exact .cons [] ih
      · generalize byteLines bytes = lines at ih
        cases ih with
        | nil => exact .last (List.cons_ne_nil b [])
        | last _ => exact .last (List.cons_ne_nil b _)
        | cons front hrest => exact .cons (b :: front) hrest

theorem flatten_byteLines (bytes : List UInt8) : (byteLines bytes).flatten = bytes := by
  induction bytes with
  | nil => rfl
  | cons b bytes ih =>
      rw [byteLines]
      split
      · next hb => rw [List.flatten_cons, ih, hb, List.singleton_append]
      · generalize byteLines bytes = lines at ih
        cases lines with
        | nil => rw [← ih]; rfl
        | cons line rest => rw [← ih]; rfl

theorem byteLines_append {front : List UInt8} (hne : front ≠ [])
    (hfront : 10 ∉ front) (bytes : List UInt8) :
    byteLines (front ++ bytes) =
      match byteLines bytes with
      | [] => [front]
      | line :: rest => (front ++ line) :: rest := by
  induction front with
  | nil => exact absurd rfl hne
  | cons b front ih =>
      rw [List.mem_cons, not_or] at hfront
      rw [List.cons_append, byteLines, if_neg (Ne.symm hfront.1)]
      by_cases hnil : front = []
      · rw [hnil]
        rfl
      · rw [ih hnil hfront.2]
        cases byteLines bytes <;> rfl

/-- A text is cut into the same lines before and after it is encoded. -/
theorem byteLines_toBytes (text : List Char) :
    byteLines (toBytes text) = (rawLines text).map toBytes := by
  induction text with
  | nil => rfl
  | cons c text ih =>
      rw [toBytes_cons, rawLines]
      split
      · next hc =>
          rw [hc]
          exact congrArg ([10] :: ·) ih
      · next hc =>
          rw [byteLines_append String.utf8EncodeChar_ne_nil
            (lineFeed_not_mem_utf8EncodeChar hc), ih]
          cases rawLines text with
          | nil => simp [toBytes]
          | cons line rest => simp [toBytes]

end Text

/-- A stream of the bytes of a text hands out the lines of the text. -/
theorem Layout.RawLine.ofBytes_toBytes (text : List Char) :
    RawLine.ofBytes (Text.toBytes text) = RawLine.ofText text := by
  rw [ofBytes, ofText, Text.byteLines_toBytes, List.map_map]
  apply List.map_congr_left
  intro line _
  rw [Function.comp_apply, Text.ofBytes?_toBytes]

end Prose
