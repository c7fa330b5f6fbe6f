import Notm.Lib.Rust

/-!
# Percent encoding

A byte is written as a percent sign and two hexadecimal digits of either case. A text may be
encoded in part: characters that need no encoding can stand as they are, and a character that is
encoded is so with all its bytes. Decoding gives the bytes of the text again.

* `Encoded` — the ways in which a text may be encoded, as a relation.
* `decode_encoded` — every one of them decodes to the bytes of the text.
* `mem_encoded` — what an encoded text is made of, so that a line can be told to be plain ASCII.
-/

namespace Percent

open Rust

def hexValue (byte : UInt8) : Option UInt8 :=
  if 0x30 ≤ byte ∧ byte ≤ 0x39 then some (byte - 0x30)
  else if 0x61 ≤ byte ∧ byte ≤ 0x66 then some (byte - 0x61 + 10)
  else if 0x41 ≤ byte ∧ byte ≤ 0x46 then some (byte - 0x41 + 10)
  else none

/-- The bytes that an encoded text stands for; none where a percent sign is not followed by two
digits. -/
def decode : Bytes → Option Bytes
  | [] => some []
  | byte :: rest =>
    if byte = 0x25 then
      match rest with
      | high :: low :: rest =>
        (hexValue high).bind fun high => (hexValue low).bind fun low =>
          (decode rest).map ((high <<< 4 ||| low) :: ·)
      | _ => none
    else (decode rest).map (byte :: ·)

/-! ## Encoded texts -/

/-- A percent sign and the two digits of the byte. -/
def EncodesByte (byte : UInt8) (text : Str) : Prop :=
  ∃ high low : UInt8, hexValue high = some (byte >>> 4) ∧ hexValue low = some (byte &&& 0x0F) ∧
    text = ['%', Char.ofNat high.toNat, Char.ofNat low.toNat]

/-- Each character stands as it is, where it may, or as its encoded bytes. -/
inductive Encoded (raw : Char → Prop) : Str → Str → Prop where
  | nil : Encoded raw [] []
  | keep {c : Char} {s t : Str} (hc : raw c) (h : Encoded raw s t) :
      Encoded raw (c :: s) (c :: t)
  | percent {c : Char} {s t : Str} {texts : List Str}
      (hc : List.Forall₂ EncodesByte (String.utf8EncodeChar c) texts) (h : Encoded raw s t) :
      Encoded raw (c :: s) (texts.flatten ++ t)

variable {raw : Char → Prop} {s t : Str}

theorem encoded_self (h : ∀ c ∈ s, raw c) : Encoded raw s s := by
  induction s with
  | nil => exact Encoded.nil
  | cons c s ih =>
    exact Encoded.keep (h c List.mem_cons_self) (ih fun d hd => h d (List.mem_cons_of_mem c hd))

theorem Encoded.append {s' t' : Str} (h : Encoded raw s t) (h' : Encoded raw s' t') :
    Encoded raw (s ++ s') (t ++ t') := by
  induction h with
  | nil => exact h'
  | keep hc _ ih => exact Encoded.keep hc ih
  | percent hc _ ih =>
    rw [List.cons_append, List.append_assoc]
    exact Encoded.percent hc ih

theorem halves (byte : UInt8) : (byte >>> 4) <<< 4 ||| (byte &&& 0x0F) = byte := by
  have hall : ∀ n < 256, (UInt8.ofNat n >>> 4) <<< 4 ||| (UInt8.ofNat n &&& 0x0F) =
      UInt8.ofNat n := by
    decide +kernel
  have hbyte := hall byte.toNat byte.toNat_lt
  rwa [UInt8.ofNat_toNat] at hbyte

theorem ascii_of_hexValue {byte value : UInt8} (h : hexValue byte = some value) :
    isAsciiAlphanumeric byte.toNat = true := by
  have hall : ∀ n < 256, (hexValue (UInt8.ofNat n)).isSome →
      isAsciiAlphanumeric (UInt8.ofNat n).toNat = true := by
    decide +kernel
  have hbyte := hall byte.toNat byte.toNat_lt
  rw [UInt8.ofNat_toNat] at hbyte
  refine hbyte ?_
  rw [h]
  rfl

theorem lt_of_isAsciiAlphanumeric {n : Nat} (h : isAsciiAlphanumeric n = true) : n < 128 := by
  unfold isAsciiAlphanumeric isAsciiDigit at h
  simp only [Bool.or_eq_true, Bool.and_eq_true, decide_eq_true_eq] at h
  omega

/-- The bytes of an encoded byte. -/
theorem encode_of_encodesByte {byte : UInt8} {text : Str} (h : EncodesByte byte text) :
    ∃ high low : UInt8, hexValue high = some (byte >>> 4) ∧ hexValue low = some (byte &&& 0x0F) ∧
      Utf8.encode text = [0x25, high, low] := by
  obtain ⟨high, low, hhigh, hlow, rfl⟩ := h
  refine ⟨high, low, hhigh, hlow, ?_⟩
  have hdigit : ∀ digit value : UInt8, hexValue digit = some value → ∀ rest : Str,
      Utf8.encode (Char.ofNat digit.toNat :: rest) = digit :: Utf8.encode rest := by
    intro digit value hvalue rest
    have hlt := lt_of_isAsciiAlphanumeric (ascii_of_hexValue hvalue)
    have hchar : (Char.ofNat digit.toNat).toNat = digit.toNat := toNat_ofNat_ascii _ hlt
    have hlead : Utf8.leadByte (Char.ofNat digit.toNat) = digit := by
      apply UInt8.toNat_inj.1
      rw [Utf8.leadByte_ascii (by rw [hchar]; exact hlt), hchar]
    rw [Utf8.encode_cons_ascii (by rw [hchar]; exact hlt), hlead]
  rw [Utf8.encode_cons_ascii (by decide), hdigit high _ hhigh, hdigit low _ hlow]
  rfl

theorem decode_of_encodesByte {byte : UInt8} {text : Str} (h : EncodesByte byte text)
    (rest : Bytes) : decode (Utf8.encode text ++ rest) = (decode rest).map (byte :: ·) := by
  obtain ⟨high, low, hhigh, hlow, htext⟩ := encode_of_encodesByte h
  rw [htext]
  show ((hexValue high).bind fun high => (hexValue low).bind fun low =>
    (decode rest).map ((high <<< 4 ||| low) :: ·)) = _
  rw [hhigh, Option.bind_some, hlow, Option.bind_some, halves]

theorem decode_of_forall₂ {bytes : Bytes} {texts : List Str}
    (h : List.Forall₂ EncodesByte bytes texts) (rest : Bytes) :
    decode (Utf8.encode texts.flatten ++ rest) = (decode rest).map (bytes ++ ·) := by
  induction h with
  | nil =>
    show decode rest = (decode rest).map fun r => [] ++ r
    simp
  | @cons byte text bytes texts hbyte _ ih =>
    rw [List.flatten_cons, Utf8.encode_append, List.append_assoc, decode_of_encodesByte hbyte, ih,
      Option.map_map]
    rfl

theorem decode_keep {byte : UInt8} (h : byte ≠ 0x25) (rest : Bytes) :
    decode (byte :: rest) = (decode rest).map (byte :: ·) := by
  conv_lhs => unfold decode
  exact if_neg h

theorem decode_keep_all {bytes : Bytes} (h : 0x25 ∉ bytes) (rest : Bytes) :
    decode (bytes ++ rest) = (decode rest).map (bytes ++ ·) := by
  induction bytes with
  | nil => simp
  | cons byte bytes ih =>
    obtain ⟨hbyte, hbytes⟩ := not_or.1 (List.mem_cons.not.1 h)
    rw [List.cons_append, decode_keep (Ne.symm hbyte), ih hbytes, Option.map_map]
    rfl

/-- Only the percent sign has its byte. -/
theorem percent_not_mem {c : Char} (h : c ≠ '%') : 0x25 ∉ String.utf8EncodeChar c := by
  intro hmem
  have hencode : (0x25 : UInt8) ∈ Utf8.encode [c] := by simpa using hmem
  obtain ⟨d, hd, hcode⟩ := Utf8.mem_encode_ascii hencode (by decide)
  obtain rfl := List.mem_singleton.1 hd
  exact h (Char.toNat_inj.1 hcode)

/-- Decoding an encoded text gives the bytes of the text. -/
theorem decode_encoded (hraw : ∀ c, raw c → c ≠ '%') (h : Encoded raw s t) :
    decode (Utf8.encode t) = some (Utf8.encode s) := by
  induction h with
  | nil => rfl
  | @keep c s t hc _ ih =>
    rw [Utf8.encode_cons, Utf8.encode_cons, decode_keep_all (percent_not_mem (hraw c hc)), ih]
    rfl
  | @percent c s t texts hc _ ih =>
    rw [Utf8.encode_append, Utf8.encode_cons, decode_of_forall₂ hc, ih]
    rfl

/-- What an encoded text is made of. -/
theorem mem_encoded (h : Encoded raw s t) {c : Char} (hc : c ∈ t) :
    raw c ∨ c = '%' ∨ isAsciiAlphanumeric c.toNat = true := by
  induction h with
  | nil => exact absurd hc List.not_mem_nil
  | @keep d s t hd _ ih =>
    rcases List.mem_cons.1 hc with rfl | hc
    · exact Or.inl hd
    · exact ih hc
  | @percent d s t texts hd _ ih =>
    rcases List.mem_append.1 hc with hc | hc
    · obtain ⟨text, htext, hc⟩ := List.mem_flatten.1 hc
      obtain ⟨i, hi, rfl⟩ := List.mem_iff_getElem.1 htext
      obtain ⟨high, low, hhigh, hlow, hchars⟩ := hd.get (by rw [hd.length_eq]; exact hi) hi
      -- both digits of a byte are alphanumeric
      have hdigit : ∀ digit value : UInt8, hexValue digit = some value →
          isAsciiAlphanumeric (Char.ofNat digit.toNat).toNat = true := by
        intro digit value hvalue
        have halnum := ascii_of_hexValue hvalue
        rw [toNat_ofNat_ascii _ (lt_of_isAsciiAlphanumeric halnum)]
        exact halnum
      have hmem : c ∈ ['%', Char.ofNat high.toNat, Char.ofNat low.toNat] := hchars ▸ hc
      simp only [List.mem_cons, List.not_mem_nil, or_false] at hmem
      rcases hmem with rfl | rfl | rfl
      · exact Or.inr (Or.inl rfl)
      · exact Or.inr (Or.inr (hdigit high _ hhigh))
      · exact Or.inr (Or.inr (hdigit low _ hlow))
    · exact ih hc

end Percent
