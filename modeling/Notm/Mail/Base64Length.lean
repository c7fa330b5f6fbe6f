import Notm.Lib.Base64
import Notm.Lib.Counter
import Notm.Mail.Decode

/-!
# The decoded length of base64 text

`base64_decoded_len` tells from the characters of an encoded body how many bytes it stands for. It
is compared with the decoder of the standard: ASCII white space is ignored, padding is required and
comes once, at the end. The decoder of mailparse, through which a body goes afterwards, accepts more
than that one, for instance padded groups one after the other. Where the standard one decodes both
agree, so what is proved of a length holds for the bytes of the body; where `base64_decoded_len`
gives none although mailparse decodes, the standard decoder gives none too.

* `scanned_of_scan` — what the loop has gone through is digits with the padding behind them.
* `base64DecodedLen_eq_some` — the checks behind the loop ask for whole groups and at most two pads.
* `base64DecodedLen_eq` — the length is that of the decoded bytes, and fails where decoding fails.
* `base64DecodedLenChecked_eq` — no checked operation fails on a body that fits the address space.
* `base64_decoded_len_exact` — the three together, with white space anywhere in the text.
-/

namespace Notm.Mail

open Rust

/-! ## The decoder -/

def withoutWhitespace (raw : Bytes) : Bytes := raw.filter fun byte => !isAsciiWhitespace byte.toNat

def byteChar (byte : UInt8) : Char := Char.ofNat byte.toNat

def base64Decode (raw : Bytes) : Option Bytes :=
  Base64.decode ((withoutWhitespace raw).map byteChar)

/-- A text with ASCII white space put in anywhere. -/
inductive Spaced : Bytes → Bytes → Prop where
  | nil : Spaced [] []
  | keep {text raw : Bytes} (byte : UInt8) (h : Spaced text raw) :
      Spaced (byte :: text) (byte :: raw)
  | space {text raw : Bytes} {byte : UInt8} (hspace : isAsciiWhitespace byte.toNat = true)
      (h : Spaced text raw) : Spaced text (byte :: raw)

/-! ## The checked arithmetic -/

/-- Why there is no length: the text, or an operation whose result is no `usize`. -/
inductive Base64Refusal where
  | text
  | arithmetic
deriving DecidableEq, Repr

/-- The `?` behind a checked operation. -/
def inRange (result : Option Nat) : Except Base64Refusal Nat :=
  match result with
  | some value => .ok value
  | none => .error .arithmetic

/-- One turn of the loop, with `usize::MAX` in `max`. -/
def base64ScanByteChecked (max : Nat) (scan : Base64Scan) (byte : UInt8) :
    Except Base64Refusal Base64Scan := do
  let encodedLen ← inRange (checkedAdd max scan.encodedLen 1)
  if isBase64Byte byte && !scan.sawPadding then .ok { scan with encodedLen := encodedLen }
  else if byte = 0x3D then
    let padding ← inRange (checkedAdd max scan.padding 1)
    .ok { encodedLen := encodedLen, padding := padding, sawPadding := true }
  else .error .text

/-- `base64_decoded_len` with each of its checked operations. -/
def base64DecodedLenChecked (max : Nat) (raw : Bytes) : Except Base64Refusal Nat := do
  let scan ← (withoutWhitespace raw).foldlM (base64ScanByteChecked max) ⟨0, 0, false⟩
  if scan.encodedLen % 4 ≠ 0 ∨ scan.padding > 2 then .error .text
  else
    let dataLen ← inRange (checkedSub scan.encodedLen scan.padding)
    if (scan.padding = 1 ∧ dataLen % 4 ≠ 3) ∨ (scan.padding = 2 ∧ dataLen % 4 ≠ 2) then
      .error .text
    else
      let groups ← inRange (checkedDiv scan.encodedLen 4)
      let decodedLen ← inRange (checkedMul max groups 3)
      inRange (checkedSub decodedLen scan.padding)

variable {raw text digits : Bytes} {scan next : Base64Scan} {byte : UInt8} {max : Nat}

/-! ## Characters -/

theorem isSome_value_byteChar (byte : UInt8) :
    (Base64.value (byteChar byte)).isSome = isBase64Byte byte := by
  have hall : ∀ n < 256, (Base64.value (Char.ofNat n)).isSome = isBase64Byte (UInt8.ofNat n) := by
    decide +kernel
  have hbyte := hall byte.toNat byte.toNat_lt
  rwa [UInt8.ofNat_toNat] at hbyte

theorem byteChar_eq_padding {byte : UInt8} : byteChar byte = '=' ↔ byte = 0x3D := by
  have hall : ∀ n < 256, Char.ofNat n = '=' ↔ UInt8.ofNat n = 0x3D := by decide +kernel
  have hbyte := hall byte.toNat byte.toNat_lt
  rwa [UInt8.ofNat_toNat] at hbyte

theorem toNat_lt_of_isBase64Char {c : Char} (h : Base64.isBase64Char c = true) :
    c.toNat < 128 := by
  have hle : ∀ {d : Char}, c ≤ d → c.toNat ≤ d.toNat := fun h => h
  rcases Bool.or_eq_true_iff.1 h with h | h
  · unfold Base64.value at h
    split at h
    · next hrange => exact Nat.lt_of_le_of_lt (hle hrange.2) (by decide)
    · split at h
      · next hrange => exact Nat.lt_of_le_of_lt (hle hrange.2) (by decide)
      · split at h
        · next hrange => exact Nat.lt_of_le_of_lt (hle hrange.2) (by decide)
        · split at h
          · next heq => exact heq ▸ (by decide)
          · split at h
            · next heq => exact heq ▸ (by decide)
            · exact absurd h (by decide)
  · rw [beq_iff_eq.1 h]
    decide

theorem isAsciiWhitespace_of_isBase64Char {c : Char} (h : Base64.isBase64Char c = true) :
    isAsciiWhitespace c.toNat = false := by
  have hall : ∀ n < 128, Base64.isBase64Char (Char.ofNat n) = true →
      isAsciiWhitespace n = false := by decide +kernel
  have hc := hall c.toNat (toNat_lt_of_isBase64Char h)
  rw [Char.ofNat_toNat] at hc
  exact hc h

/-- The bytes of base64 text are its characters again. -/
theorem map_byteChar_encode {text : Str} (h : ∀ c ∈ text, Base64.isBase64Char c = true) :
    (Utf8.encode text).map byteChar = text := by
  induction text with
  | nil => rfl
  | cons c text ih =>
    have hc := toNat_lt_of_isBase64Char (h c List.mem_cons_self)
    rw [Utf8.encode_cons_ascii hc, List.map_cons,
      ih fun other hother => h other (List.mem_cons_of_mem _ hother)]
    show Char.ofNat (Utf8.leadByte c).toNat :: text = c :: text
    rw [Utf8.leadByte_ascii hc, Char.ofNat_toNat]

/-! ## White space -/

theorem withoutWhitespace_of_spaced (h : Spaced text raw)
    (htext : ∀ byte ∈ text, isAsciiWhitespace byte.toNat = false) :
    withoutWhitespace raw = text := by
  unfold withoutWhitespace
  induction h with
  | nil => rfl
  | keep byte h ih =>
    have hbyte := htext byte List.mem_cons_self
    rw [List.filter_cons_of_pos (by simp [hbyte]),
      ih fun other hother => htext other (List.mem_cons_of_mem _ hother)]
  | space hspace h ih =>
    rw [List.filter_cons_of_neg (by simp [hspace]), ih htext]

/-- The decoder reads an encoding through any white space. -/
theorem base64Decode_of_spaced {bytes : Bytes}
    (h : Spaced (Utf8.encode (Base64.encode bytes)) raw) : base64Decode raw = some bytes := by
  have hchars : ∀ c ∈ Base64.encode bytes, Base64.isBase64Char c = true := fun c hc =>
    Base64.isBase64Char_of_mem_encode hc
  have htext : ∀ byte ∈ Utf8.encode (Base64.encode bytes),
      isAsciiWhitespace byte.toNat = false := by
    intro byte hbyte
    by_cases hascii : byte.toNat < 128
    · obtain ⟨c, hc, heq⟩ := Utf8.mem_encode_ascii hbyte hascii
      rw [← heq]
      exact isAsciiWhitespace_of_isBase64Char (hchars c hc)
    · unfold isAsciiWhitespace
      simp only [Bool.or_eq_false_iff, beq_eq_false_iff_ne]
      omega
  unfold base64Decode
  rw [withoutWhitespace_of_spaced h htext, map_byteChar_encode hchars, Base64.decode_encode]

/-! ## The scan -/

/-- What the loop has gone through: digits and the padding behind them. -/
structure Scanned (text digits : Bytes) (scan : Base64Scan) : Prop where
  split : text = digits ++ List.replicate scan.padding 0x3D
  digits_byte : ∀ byte ∈ digits, isBase64Byte byte = true
  encodedLen : scan.encodedLen = text.length
  sawPadding : scan.sawPadding = decide (0 < scan.padding)

theorem Scanned.padding_le (h : Scanned text digits scan) : scan.padding ≤ scan.encodedLen := by
  rw [h.encodedLen, h.split, List.length_append, List.length_replicate]
  omega

/-- A byte that the loop takes is a digit before all padding, or padding. -/
theorem base64ScanByte_eq_some (h : base64ScanByte scan byte = some next) :
    (isBase64Byte byte = true ∧ scan.sawPadding = false ∧
        next = { scan with encodedLen := scan.encodedLen + 1 }) ∨
      (byte = 0x3D ∧ next = ⟨scan.encodedLen + 1, scan.padding + 1, true⟩) := by
  dsimp only [base64ScanByte] at h
  split at h
  · next hdigit =>
    obtain ⟨hdigit, hpadding⟩ := Bool.and_eq_true_iff.1 hdigit
    exact Or.inl ⟨hdigit, by simpa using hpadding, (Option.some.inj h).symm⟩
  · split at h
    · next hpadding => exact Or.inr ⟨hpadding, (Option.some.inj h).symm⟩
    · exact absurd h (by simp)

/-- One byte of the text: a digit where no padding has been seen, or a further pad. -/
theorem Scanned.step (h : Scanned text digits scan)
    (hstep : base64ScanByte scan byte = some next) :
    ∃ digits', Scanned (text ++ [byte]) digits' next := by
  have hlen : scan.encodedLen + 1 = (text ++ [byte]).length := by
    rw [List.length_append, h.encodedLen]
    rfl
  rcases base64ScanByte_eq_some hstep with ⟨hdigit, hpadding, rfl⟩ | ⟨rfl, rfl⟩
  · have hzero : scan.padding = 0 := by
      rw [h.sawPadding] at hpadding
      have hnot := of_decide_eq_false hpadding
      omega
    refine ⟨digits ++ [byte], ?_, ?_, hlen, h.sawPadding⟩
    · rw [h.split, hzero]
      simp
    · exact List.forall_mem_append.2 ⟨h.digits_byte, by simpa using hdigit⟩
  · refine ⟨digits, ?_, h.digits_byte, hlen, by simp⟩
    rw [h.split, List.append_assoc, ← List.replicate_succ']

/-- The whole text, by induction from its end, as the loop takes it from its start. -/
theorem scanned_of_scan {scan : Base64Scan} :
    ∀ {text : Bytes}, text.foldlM base64ScanByte ⟨0, 0, false⟩ = some scan →
      ∃ digits, Scanned text digits scan := by
  intro text
  -- Bytes are put at the end of the text, as the loop comes to them.
  induction text using List.reverseRecOn generalizing scan with
  | nil =>
    intro h
    obtain rfl := Option.some.inj h
    exact ⟨[], rfl, by simp, rfl, rfl⟩
  | append_singleton text byte ih =>
    intro h
    rw [List.foldlM_append] at h
    obtain ⟨before, hbefore, h⟩ := Option.bind_eq_some_iff.1 h
    obtain ⟨digits, hscanned⟩ := ih hbefore
    refine hscanned.step ?_
    rw [List.foldlM_cons] at h
    obtain ⟨after, hafter, h⟩ := Option.bind_eq_some_iff.1 h
    obtain rfl := Option.some.inj h
    exact hafter

theorem scan_digits (hdigits : ∀ byte ∈ digits, isBase64Byte byte = true) (count : Nat) :
    digits.foldlM base64ScanByte ⟨count, 0, false⟩ =
      some ⟨count + digits.length, 0, false⟩ := by
  induction digits generalizing count with
  | nil => rfl
  | cons byte digits ih =>
    have hbyte : base64ScanByte ⟨count, 0, false⟩ byte = some ⟨count + 1, 0, false⟩ := by
      dsimp only [base64ScanByte]
      rw [hdigits byte List.mem_cons_self]
      rfl
    rw [List.foldlM_cons, hbyte]
    show digits.foldlM base64ScanByte ⟨count + 1, 0, false⟩ = _
    rw [ih (fun other hother => hdigits other (List.mem_cons_of_mem _ hother)), List.length_cons,
      Nat.add_assoc, Nat.add_comm 1]

theorem scan_padding (scan : Base64Scan) (count : Nat) :
    (List.replicate count 0x3D).foldlM base64ScanByte scan =
      some ⟨scan.encodedLen + count, scan.padding + count,
        scan.sawPadding || decide (0 < count)⟩ := by
  induction count generalizing scan with
  | zero =>
    show some scan = _
    simp
  | succ count ih =>
    have hbyte : base64ScanByte scan 0x3D = some ⟨scan.encodedLen + 1, scan.padding + 1, true⟩ :=
      rfl
    rw [List.replicate_succ, List.foldlM_cons, hbyte]
    show (List.replicate count 0x3D).foldlM base64ScanByte
      ⟨scan.encodedLen + 1, scan.padding + 1, true⟩ = _
    rw [ih]
    simp [Nat.add_assoc, Nat.add_comm 1]

/-- The loop takes every text of digits with padding behind them. -/
theorem scan_of_split {padding : Nat} (hdigits : ∀ byte ∈ digits, isBase64Byte byte = true) :
    (digits ++ List.replicate padding 0x3D).foldlM base64ScanByte ⟨0, 0, false⟩ =
      some ⟨digits.length + padding, padding, decide (0 < padding)⟩ := by
  rw [List.foldlM_append, scan_digits hdigits]
  show (List.replicate padding 0x3D).foldlM base64ScanByte ⟨0 + digits.length, 0, false⟩ = _
  rw [scan_padding]
  simp

/-! ## The length -/

/-- The bytes behind digits and padding. -/
theorem map_byteChar_split {padding : Nat} (digits : Bytes) :
    (digits ++ List.replicate padding 0x3D).map byteChar =
      digits.map byteChar ++ List.replicate padding '=' := by
  rw [List.map_append, List.map_replicate]
  rfl

theorem base64DecodedLen_none
    (hscan : (withoutWhitespace raw).foldlM base64ScanByte ⟨0, 0, false⟩ = none) :
    base64DecodedLen raw = none := by
  unfold withoutWhitespace at hscan
  unfold base64DecodedLen
  rw [hscan]

theorem base64DecodedLen_some
    (hscan : (withoutWhitespace raw).foldlM base64ScanByte ⟨0, 0, false⟩ = some scan) :
    base64DecodedLen raw =
      if scan.encodedLen % 4 ≠ 0 ∨ scan.padding > 2 then none
      else if (scan.padding = 1 ∧ (scan.encodedLen - scan.padding) % 4 ≠ 3) ∨
          (scan.padding = 2 ∧ (scan.encodedLen - scan.padding) % 4 ≠ 2) then none
      else some (scan.encodedLen / 4 * 3 - scan.padding) := by
  unfold withoutWhitespace at hscan
  unfold base64DecodedLen
  rw [hscan]

/-- What the checks behind the loop let through. -/
theorem base64DecodedLen_eq_some {count : Nat} :
    base64DecodedLen raw = some count ↔
      ∃ scan, (withoutWhitespace raw).foldlM base64ScanByte ⟨0, 0, false⟩ = some scan ∧
        scan.encodedLen % 4 = 0 ∧ scan.padding ≤ 2 ∧
        count = scan.encodedLen / 4 * 3 - scan.padding := by
  cases hscan : (withoutWhitespace raw).foldlM base64ScanByte ⟨0, 0, false⟩ with
  | none =>
    rw [base64DecodedLen_none hscan]
    simp
  | some scan =>
    rw [base64DecodedLen_some hscan]
    by_cases hshape : scan.encodedLen % 4 ≠ 0 ∨ scan.padding > 2
    · rw [if_pos hshape]
      refine iff_of_false (by simp) fun h => ?_
      obtain ⟨other, heq, hgroups, hle, -⟩ := h
      obtain rfl := Option.some.inj heq
      omega
    · rw [if_neg hshape]
      obtain ⟨hdigits, hscanned⟩ := scanned_of_scan hscan
      have hpadding := hscanned.padding_le
      -- Behind the first check the remainders of the second are forced.
      rw [if_neg (by omega)]
      constructor
      · intro h
        exact ⟨scan, rfl, by omega, by omega, (Option.some.inj h).symm⟩
      · intro h
        obtain ⟨other, heq, -, -, rfl⟩ := h
        obtain rfl := Option.some.inj heq
        rfl

/-- A text that is taken decodes to as many bytes. Its digits and its padding are what the scan has
counted, and a text of that form decodes (`Base64.map_length_decode`). -/
theorem exists_base64Decode {count : Nat} (h : base64DecodedLen raw = some count) :
    ∃ bytes, base64Decode raw = some bytes ∧ bytes.length = count := by
  obtain ⟨scan, hscan, hgroups, hle, rfl⟩ := base64DecodedLen_eq_some.1 h
  obtain ⟨digits, hscanned⟩ := scanned_of_scan hscan
  have hlength : digits.length + scan.padding = scan.encodedLen := by
    rw [hscanned.encodedLen, hscanned.split, List.length_append, List.length_replicate]
  have hvalues : ∀ c ∈ digits.map byteChar, (Base64.value c).isSome = true := by
    intro c hc
    obtain ⟨byte, hbyte, rfl⟩ := List.mem_map.1 hc
    rw [isSome_value_byteChar]
    exact hscanned.digits_byte byte hbyte
  have hcount := Base64.map_length_decode hle (digits.map byteChar) hvalues (by
    rw [List.length_map, hlength]
    exact hgroups)
  rw [← map_byteChar_split, ← hscanned.split, List.length_map, hlength] at hcount
  exact Option.map_eq_some_iff.1 hcount

/-- Bytes that the decoder takes have their number told. -/
theorem base64DecodedLen_of_decode {bytes : Bytes} (h : base64Decode raw = some bytes) :
    base64DecodedLen raw = some bytes.length := by
  obtain ⟨chars, padding, hsplit, hvalues, hle, hgroups⟩ := Base64.isText_of_decode h
  obtain ⟨digits, rest, htext, rfl, hrest⟩ := List.map_eq_append_iff.1 hsplit
  have hlength : rest.length = padding := by
    have hmap := congrArg List.length hrest
    rwa [List.length_map, List.length_replicate] at hmap
  -- Characters and bytes correspond, so the digits and the padding of the text are those of its
  -- bytes.
  have hpadding : rest = List.replicate padding 0x3D := by
    refine List.eq_replicate_iff.2 ⟨hlength, fun byte hbyte => ?_⟩
    have hchar : byteChar byte ∈ List.replicate padding '=' :=
      hrest ▸ List.mem_map_of_mem hbyte
    exact byteChar_eq_padding.1 (List.eq_of_mem_replicate hchar)
  have hdigits : ∀ byte ∈ digits, isBase64Byte byte = true := by
    intro byte hbyte
    rw [← isSome_value_byteChar]
    exact hvalues _ (List.mem_map_of_mem hbyte)
  rw [htext, List.length_map, List.length_append, hlength] at hgroups
  -- The number of bytes is already known from the form of the text.
  have hcount := Base64.map_length_decode hle (digits.map byteChar) hvalues (by
    rw [List.length_map]
    exact hgroups)
  have hbytes : bytes.length = (digits.length + padding) / 4 * 3 - padding := by
    unfold base64Decode at h
    rw [← hsplit, h, List.length_map] at hcount
    exact Option.some.inj hcount
  refine base64DecodedLen_eq_some.2
    ⟨⟨digits.length + padding, padding, decide (0 < padding)⟩, ?_, hgroups, hle, hbytes⟩
  rw [htext, hpadding]
  exact scan_of_split hdigits

/-- The length is that of the decoded bytes, and there is none where the decoder fails. -/
theorem base64DecodedLen_eq (raw : Bytes) :
    base64DecodedLen raw = (base64Decode raw).map List.length := by
  cases hdecode : base64Decode raw with
  | some bytes => exact base64DecodedLen_of_decode hdecode
  | none =>
    cases hlen : base64DecodedLen raw with
    | none => rfl
    | some count =>
      obtain ⟨bytes, hbytes, -⟩ := exists_base64Decode hlen
      exact absurd (hdecode ▸ hbytes) (by simp)

/-! ## The arithmetic stays in range -/

/-- The result of the loop without an operation out of range. -/
def orRefused {α : Type} : Option α → Except Base64Refusal α
  | some a => .ok a
  | none => .error .text

/-- A turn of the loop counts no further than the bytes it has seen. -/
theorem base64ScanByteChecked_eq (hpadding : scan.padding ≤ scan.encodedLen)
    (hfits : scan.encodedLen + 1 ≤ max) (byte : UInt8) :
    base64ScanByteChecked max scan byte = orRefused (base64ScanByte scan byte) := by
  have hencoded : checkedAdd max scan.encodedLen 1 = some (scan.encodedLen + 1) := if_pos hfits
  have hpadded : checkedAdd max scan.padding 1 = some (scan.padding + 1) := if_pos (by omega)
  unfold base64ScanByteChecked
  rw [hencoded]
  show (if _ then _ else _) = _
  dsimp only [base64ScanByte]
  split
  · rfl
  · split
    · rw [hpadded]
      rfl
    · rfl

theorem scanChecked_eq (hpadding : scan.padding ≤ scan.encodedLen)
    (hfits : scan.encodedLen + text.length ≤ max) :
    text.foldlM (base64ScanByteChecked max) scan = orRefused (text.foldlM base64ScanByte scan) := by
  induction text generalizing scan with
  | nil => rfl
  | cons byte text ih =>
    rw [List.length_cons] at hfits
    rw [List.foldlM_cons, List.foldlM_cons, base64ScanByteChecked_eq hpadding (by omega)]
    cases hstep : base64ScanByte scan byte with
    | none => rfl
    | some next =>
      show text.foldlM (base64ScanByteChecked max) next =
        orRefused (text.foldlM base64ScanByte next)
      rcases base64ScanByte_eq_some hstep with ⟨-, -, rfl⟩ | ⟨-, rfl⟩
      · exact ih (by dsimp only; omega) (by dsimp only; omega)
      · exact ih (by dsimp only; omega) (by dsimp only; omega)

/-- A body that fits the address space is refused for its text only. -/
theorem base64DecodedLenChecked_eq (h : raw.length ≤ max) :
    base64DecodedLenChecked max raw = orRefused (base64DecodedLen raw) := by
  have hfits : (withoutWhitespace raw).length ≤ max :=
    le_trans (List.length_filter_le _ _) h
  unfold base64DecodedLenChecked
  rw [scanChecked_eq (le_refl 0) (by simpa using hfits)]
  cases hscan : (withoutWhitespace raw).foldlM base64ScanByte ⟨0, 0, false⟩ with
  | none =>
    rw [base64DecodedLen_none hscan]
    rfl
  | some scan =>
    rw [base64DecodedLen_some hscan]
    -- From here on every operand is bounded by what the scan has counted, and that by the body.
    obtain ⟨digits, hscanned⟩ := scanned_of_scan hscan
    have hpadding := hscanned.padding_le
    have hencoded := hscanned.encodedLen
    show (if scan.encodedLen % 4 ≠ 0 ∨ scan.padding > 2 then _ else _) =
      orRefused (if scan.encodedLen % 4 ≠ 0 ∨ scan.padding > 2 then none else _)
    by_cases hshape : scan.encodedLen % 4 ≠ 0 ∨ scan.padding > 2
    · rw [if_pos hshape, if_pos hshape]
      rfl
    · have hdata : checkedSub scan.encodedLen scan.padding =
          some (scan.encodedLen - scan.padding) := if_pos hpadding
      have hmul : checkedMul max (scan.encodedLen / 4) 3 = some (scan.encodedLen / 4 * 3) :=
        if_pos (by omega)
      -- Padding comes with at least one group, which takes it away from three bytes.
      have hsub : checkedSub (scan.encodedLen / 4 * 3) scan.padding =
          some (scan.encodedLen / 4 * 3 - scan.padding) := if_pos (by omega)
      rw [if_neg hshape, if_neg hshape, hdata]
      show (if _ then _ else _) = orRefused (if _ then _ else _)
      rw [if_neg (by omega), if_neg (by omega)]
      show (inRange (checkedMul max (scan.encodedLen / 4) 3) >>= fun decodedLen =>
        inRange (checkedSub decodedLen scan.padding)) = _
      rw [hmul]
      show inRange (checkedSub (scan.encodedLen / 4 * 3) scan.padding) = _
      rw [hsub]
      rfl

/-- **The decoded length is exact.** `base64_decoded_len` gives the length of the bytes that were
encoded, through any white space; it gives no length exactly where the decoder of the standard
fails; and on a body that fits the address space no operation leaves its range, so that `None`
always speaks of the text. -/
theorem base64_decoded_len_exact (raw : Bytes) :
    (∀ bytes, Spaced (Utf8.encode (Base64.encode bytes)) raw →
        base64DecodedLen raw = some bytes.length) ∧
      base64DecodedLen raw = (base64Decode raw).map List.length ∧
      ∀ max, raw.length ≤ max →
        base64DecodedLenChecked max raw = orRefused (base64DecodedLen raw) :=
  ⟨fun _ hspaced => base64DecodedLen_of_decode (base64Decode_of_spaced hspaced),
    base64DecodedLen_eq raw, fun _ hfits => base64DecodedLenChecked_eq hfits⟩

/-- A body of six bytes, two of them white space, that stands for one byte. -/
theorem base64_decoded_len_one :
    base64DecodedLen [0x51, 0x20, 0x51, 0x3D, 0x0A, 0x3D] = some [(0x41 : UInt8)].length ∧
      base64DecodedLenChecked 6 [0x51, 0x20, 0x51, 0x3D, 0x0A, 0x3D] =
        orRefused (base64DecodedLen [0x51, 0x20, 0x51, 0x3D, 0x0A, 0x3D]) := by
  have hspaced : Spaced (Utf8.encode (Base64.encode [0x41]))
      [0x51, 0x20, 0x51, 0x3D, 0x0A, 0x3D] := by
    have htext : Utf8.encode (Base64.encode [0x41]) = [0x51, 0x51, 0x3D, 0x3D] := by
      decide +kernel
    rw [htext]
    exact .keep _ (.space rfl (.keep _ (.keep _ (.space rfl (.keep _ .nil)))))
  obtain ⟨hlength, -, harithmetic⟩ :=
    base64_decoded_len_exact [0x51, 0x20, 0x51, 0x3D, 0x0A, 0x3D]
  exact ⟨hlength [0x41] hspaced, harithmetic 6 (le_refl 6)⟩

end Notm.Mail
