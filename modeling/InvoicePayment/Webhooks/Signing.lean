import InvoicePayment.Common.Text
import InvoicePayment.Lib.Bytes
import InvoicePayment.Lib.Decimal

/-!
# Webhook signing

A delivery is signed over `"{timestamp}.{raw_body}"` with the secret of its endpoint. The text of a
timestamp contains no dot, so the first dot of the message ends it whatever the body begins with.
`parseSignatureHeader` is what a receiver reads the header with.
-/

namespace InvoicePayment.Signing

/-- HMAC-SHA256 of the `hmac` and `sha2` crates: the MAC under a secret of a message. -/
abbrev Hmac := List UInt8 → List UInt8 → List UInt8

/-- What the MAC is fed with, one `update` after the other. -/
def signedMessage (timestamp : Int64) (body : List UInt8) : List UInt8 :=
  utf8Bytes (toString timestamp) ++ utf8Bytes "." ++ body

/-- The hex-encoded HMAC of `"{timestamp}.{body}"`. -/
def sign (hmac : Hmac) (secret : List UInt8) (timestamp : Int64) (body : List UInt8) : String :=
  String.ofList (Bytes.hexEncode (hmac secret (signedMessage timestamp body)))

/-- The `X-Webhook-Signature` header value. -/
def signatureHeader (hmac : Hmac) (secret : List UInt8) (timestamp : Int64) (body : List UInt8) :
    String :=
  s!"t={timestamp},v1={sign hmac secret timestamp body}"

/-! ## The message -/

theorem toString_injective {t t' : Int64} (h : toString t = toString t') : t = t' :=
  Int64.toInt_inj.mp (Decimal.repr_injective h)

/-- The text of a timestamp contains no dot. -/
theorem dot_notMem_toString (t : Int64) : (46 : UInt8) ∉ utf8Bytes (toString t) := by
  have hsmall : ∀ c ∈ (toString t).toList, c.toNat ≤ 57 :=
    fun c hc => Decimal.toNat_le_of_mem_repr hc
  have hbytes : utf8Bytes (String.ofList (toString t).toList) =
      (toString t).toList.map fun c => UInt8.ofNat c.toNat :=
    utf8Bytes_ofList fun c hc => (hsmall c hc).trans (by omega)
  rw [String.ofList_toList] at hbytes
  rw [hbytes]
  intro hmem
  obtain ⟨c, hc, hdot⟩ := List.mem_map.mp hmem
  have hnat : c.toNat = 46 := by
    have hmod := congrArg UInt8.toNat hdot
    have hle := hsmall c hc
    rw [UInt8.toNat_ofNat', Nat.mod_eq_of_lt (by omega)] at hmod
    exact hmod
  have hchar : c = '.' := Char.toNat_inj.mp hnat
  rw [hchar] at hc
  exact Decimal.notMem_repr (by decide) (by decide) hc

/-- The message determines the timestamp and the body. -/
theorem signedMessage_injective {t t' : Int64} {b b' : List UInt8}
    (h : signedMessage t b = signedMessage t' b') : t = t' ∧ b = b' := by
  have hdot : utf8Bytes "." = [46] := by decide
  simp only [signedMessage, hdot, List.append_assoc, List.singleton_append] at h
  obtain ⟨hfront, hrest⟩ := List.append_inj h (by
    have hlength : ∀ (u : Int64) (x : List UInt8),
        (utf8Bytes (toString u) ++ 46 :: x).idxOf 46 = (utf8Bytes (toString u)).length := by
      intro u x
      rw [List.idxOf_append_of_notMem (dot_notMem_toString u), List.idxOf_cons_self, Nat.add_zero]
    rw [← hlength t b, ← hlength t' b', h])
  exact ⟨toString_injective (utf8Bytes_injective hfront), List.tail_eq_of_cons_eq hrest⟩

theorem sign_injective {hmac : Hmac} {secret : List UInt8}
    (hinj : Function.Injective (hmac secret)) {t t' : Int64} {b b' : List UInt8}
    (h : sign hmac secret t b = sign hmac secret t' b') : t = t' ∧ b = b' := by
  have hhex := congrArg Bytes.hexDecode (String.ofList_injective h)
  rw [Bytes.hexDecode_hexEncode, Bytes.hexDecode_hexEncode] at hhex
  exact signedMessage_injective (hinj (Option.some.inj hhex))

/-! ## The header -/

/-- The text behind `tag`. -/
def stripTag (tag s : String) : Option (List Char) :=
  if tag.toList <+: s.toList then some (s.toList.drop tag.toList.length) else none

/-- Read a header as a timestamp and the bytes of a MAC. -/
def parseSignatureHeader (header : String) : Option (Int64 × List UInt8) := do
  let (t, v1) ← splitOnce ',' header
  let t ← stripTag "t=" t
  let v1 ← stripTag "v1=" v1
  let timestamp ← Decimal.readInt t
  let mac ← Bytes.hexDecode v1
  if -2 ^ 63 ≤ timestamp ∧ timestamp < 2 ^ 63 then return (Int64.ofInt timestamp, mac) else none

theorem stripTag_append (tag s : String) : stripTag tag (tag ++ s) = some s.toList := by
  rw [stripTag, String.toList_append, if_pos (List.prefix_append _ _), List.drop_left]

theorem parseSignatureHeader_signatureHeader (hmac : Hmac) (secret : List UInt8) (t : Int64)
    (b : List UInt8) :
    parseSignatureHeader (signatureHeader hmac secret t b) =
      some (t, hmac secret (signedMessage t b)) := by
  have htext : signatureHeader hmac secret t b =
      ("t=" ++ toString t) ++ String.singleton ',' ++ ("v1=" ++ sign hmac secret t b) := by
    rw [← String.toList_inj]
    show ("t=" ++ toString t ++ ",v1=" ++ sign hmac secret t b).toList = _
    simp
  have hcomma : ',' ∉ ("t=" ++ toString t).toList := by
    rw [String.toList_append, List.mem_append, not_or]
    exact ⟨by decide, Decimal.notMem_repr (by decide) (by decide)⟩
  have hread : Decimal.readInt (toString t).toList = some t.toInt := Decimal.readInt_repr t.toInt
  have hrange : -2 ^ 63 ≤ t.toInt ∧ t.toInt < 2 ^ 63 := ⟨t.le_toInt, t.toInt_lt⟩
  rw [parseSignatureHeader, htext, splitOnce_join _ hcomma]
  simp only [Option.bind_eq_bind, Option.bind_some, stripTag_append, hread, sign,
    String.toList_ofList, Bytes.hexDecode_hexEncode, if_pos hrange, Int64.ofInt_toInt]
  rfl

/-! ## What a signature binds -/

/-- The message, and so the signature, determines the timestamp and the body, and the header reads
back as the timestamp and the MAC. -/
theorem signatures_bind {hmac : Hmac} (hinj : ∀ secret, Function.Injective (hmac secret))
    (secret : List UInt8) (t t' : Int64) (b b' : List UInt8) :
    (signedMessage t b = signedMessage t' b' → t = t' ∧ b = b') ∧
    (sign hmac secret t b = sign hmac secret t' b' → t = t' ∧ b = b') ∧
    parseSignatureHeader (signatureHeader hmac secret t b) =
      some (t, hmac secret (signedMessage t b)) :=
  ⟨signedMessage_injective, sign_injective (hinj secret),
    parseSignatureHeader_signatureHeader hmac secret t b⟩

def whsecTest : List UInt8 := utf8Bytes "whsec_test"

def evt1 : List UInt8 := utf8Bytes "\x7b\"id\":\"evt_1\"\x7d"

/-- HMAC-SHA256 of two messages about `evt1`. -/
def evtDigests : List (List UInt8 × List UInt8) :=
  [(signedMessage 1700000000 evt1,
      (Bytes.hexDecode
        "c89214b5b5da833daed6f0b8c5bb6bd58cea9022bd80ccc78230f3942d632925".toList).getD []),
   (signedMessage (-1) evt1,
      (Bytes.hexDecode
        "2ad980ad71807e1e83136511bb4c14316d5f85f2e683c1898a5392d809d45660".toList).getD [])]

def evtHmac : Hmac := fun secret => Bytes.tableHash (if secret = whsecTest then evtDigests else [])

theorem evtHmac_injective (secret : List UInt8) : Function.Injective (evtHmac secret) := by
  unfold evtHmac
  split
  · exact Bytes.tableHash_injective (by decide +kernel) (by decide +kernel)
  · exact Bytes.tableHash_injective (by simp) (by simp)

/-- A signature does not hold for the second before the epoch. -/
theorem signatures_bind_evt :
    signatureHeader evtHmac whsecTest 1700000000 evt1 =
      "t=1700000000,v1=c89214b5b5da833daed6f0b8c5bb6bd58cea9022bd80ccc78230f3942d632925" ∧
    (parseSignatureHeader (signatureHeader evtHmac whsecTest (-1) evt1)).map Prod.fst = some (-1) ∧
    sign evtHmac whsecTest 1700000000 evt1 ≠ sign evtHmac whsecTest (-1) evt1 := by
  obtain ⟨-, hbind, -⟩ := signatures_bind evtHmac_injective whsecTest 1700000000 (-1) evt1 evt1
  obtain ⟨-, -, hparse⟩ := signatures_bind evtHmac_injective whsecTest (-1) 0 evt1 evt1
  refine ⟨by decide +kernel, ?_, fun heq => absurd (hbind heq).1 (by decide)⟩
  rw [hparse]
  rfl

end InvoicePayment.Signing
