import Mathlib.Data.List.Basic

/-!
# Text

What the service asks of strings: whether Postgres stores them, whether they are blank, their
UTF-8 bytes and their halves around a separator.
-/

namespace InvoicePayment

/-- Postgres takes a string as `text`: no NUL byte. -/
def isPgText (s : String) : Bool := s.toByteArray.data.toList.all (· ≠ 0)

/-- `char::is_whitespace`, the Unicode `White_Space` property. -/
def isWhitespace (c : Char) : Bool :=
  let n := c.toNat
  (9 ≤ n && n ≤ 13) || n == 0x20 || n == 0x85 || n == 0xA0 || n == 0x1680
    || (0x2000 ≤ n && n ≤ 0x200A) || n == 0x2028 || n == 0x2029 || n == 0x202F
    || n == 0x205F || n == 0x3000

/-- `s.trim().is_empty()`. -/
def isBlank (s : String) : Bool := s.toList.all isWhitespace

/-- `str::as_bytes`. -/
def utf8Bytes (s : String) : List UInt8 := s.toByteArray.data.toList

/-- `String::from_utf8`. -/
def fromUtf8 (bytes : List UInt8) : Option String := String.fromUTF8? ⟨bytes.toArray⟩

/-- `str::split_once`: the text before and after the first `sep`. -/
def splitOnce (sep : Char) (s : String) : Option (String × String) :=
  match s.toList.dropWhile (· ≠ sep) with
  | [] => none
  | _ :: back => some (String.ofList (s.toList.takeWhile (· ≠ sep)), String.ofList back)

theorem fromUtf8_utf8Bytes (s : String) : fromUtf8 (utf8Bytes s) = some s := by
  have hbytes : (⟨(utf8Bytes s).toArray⟩ : ByteArray) = s.toByteArray := by simp [utf8Bytes]
  rw [fromUtf8, hbytes, String.fromUTF8?, dif_pos s.isValidUTF8]
  rfl

theorem utf8Bytes_injective {s s' : String} (h : utf8Bytes s = utf8Bytes s') : s = s' := by
  have hs := fromUtf8_utf8Bytes s
  rw [h, fromUtf8_utf8Bytes] at hs
  exact (Option.some.inj hs).symm

/-- The bytes of ASCII text are its characters. -/
theorem utf8Bytes_ofList {cs : List Char} (h : ∀ c ∈ cs, c.toNat ≤ 127) :
    utf8Bytes (String.ofList cs) = cs.map fun c => UInt8.ofNat c.toNat := by
  have hbytes : utf8Bytes (String.ofList cs) = cs.flatMap String.utf8EncodeChar := by
    simp [utf8Bytes, String.toByteArray_ofList, List.utf8Encode]
  have hone : ∀ c ∈ cs, String.utf8EncodeChar c = [UInt8.ofNat c.toNat] := by
    intro c hc
    rw [String.utf8EncodeChar]
    exact if_pos (h c hc)
  rw [hbytes, List.flatMap_congr hone]
  exact List.flatMap_pure_eq_map _ _

/-- ASCII text without NUL is text. -/
theorem isPgText_ofList {cs : List Char} (h : ∀ c ∈ cs, 0 < c.toNat ∧ c.toNat ≤ 127) :
    isPgText (String.ofList cs) = true := by
  show (utf8Bytes (String.ofList cs)).all _ = true
  rw [utf8Bytes_ofList fun c hc => (h c hc).2, List.all_map, List.all_eq_true]
  intro c hc
  obtain ⟨hpos, hle⟩ := h c hc
  have hne : UInt8.ofNat c.toNat ≠ 0 := by
    intro heq
    have hnat := congrArg UInt8.toNat heq
    rw [UInt8.toNat_ofNat', Nat.mod_eq_of_lt (by omega)] at hnat
    simp at hnat
    omega
  exact decide_eq_true hne

/-- The separator splits a text back off what was joined in front of it. -/
theorem splitOnce_join {sep : Char} {front : String} (back : String) (h : sep ∉ front.toList) :
    splitOnce sep (front ++ String.singleton sep ++ back) = some (front, back) := by
  have hne : ∀ c ∈ front.toList, decide (c ≠ sep) = true := by
    intro c hc
    exact decide_eq_true fun heq => h (heq ▸ hc)
  have hlist : (front ++ String.singleton sep ++ back).toList =
      front.toList ++ sep :: back.toList := by simp
  rw [splitOnce, hlist, List.dropWhile_append_of_pos hne, List.takeWhile_append_of_pos hne]
  simp

end InvoicePayment
