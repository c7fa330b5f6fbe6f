import Mathlib

/-!
# UTF-8 text seen through byte offsets

A string is a list of characters; its bytes are the concatenation of the UTF-8 encodings.
Scanners address such a string by *byte* offset, so the library fixes three things: the
encoding and its length, what a byte offset on a character boundary is (`At`), and the two
slices a byte offset gives (`dropBytes`, `takeBytes`), which fail off a boundary.

* `decode_encode`, `encode_of_decode` — encoding and decoding are inverse to each other.
* `leadByte_class`, `takeWhile_encode` — a test that only ASCII passes may be made on bytes.
* `At` — a byte offset on a boundary, with a lemma for each way to go on from it.
* `dropBytes_append`, `takeBytes_append`, `takeBytes_eq_some` — slices at byte offsets.
-/

namespace Utf8

/-- The UTF-8 bytes of a character list. -/
def encode (s : List Char) : List UInt8 := s.flatMap String.utf8EncodeChar

/-- The number of bytes `s` takes in UTF-8. -/
def len (s : List Char) : Nat := (encode s).length

/-- The character list that `bytes` encode, if they are valid UTF-8. -/
def decode (bytes : List UInt8) : Option (List Char) :=
  bytes.toByteArray.utf8Decode?.map Array.toList

@[simp] theorem encode_nil : encode [] = [] := rfl

@[simp] theorem encode_cons (c : Char) (s : List Char) :
    encode (c :: s) = String.utf8EncodeChar c ++ encode s := rfl

@[simp] theorem encode_append (s t : List Char) : encode (s ++ t) = encode s ++ encode t := by
  simp [encode]

@[simp] theorem len_nil : len [] = 0 := rfl

@[simp] theorem len_cons (c : Char) (s : List Char) : len (c :: s) = c.utf8Size + len s := by
  simp [len]

@[simp] theorem len_append (s t : List Char) : len (s ++ t) = len s + len t := by
  simp [len]

/-- Every character takes a byte. -/
theorem length_le_len (s : List Char) : s.length ≤ len s := by
  induction s with
  | nil => exact le_refl 0
  | cons c s ih =>
    have hpos := Char.utf8Size_pos c
    rw [List.length_cons, len_cons]
    omega

theorem length_encode (s : List Char) : (encode s).length = len s := rfl

@[simp] theorem decode_encode (s : List Char) : decode (encode s) = some s := by
  have h := @List.utf8Decode?_utf8Encode s
  simp only [List.utf8Encode] at h
  simp [decode, encode, h]

/-- Bytes that decode are the encoding of what they decode to. -/
theorem encode_of_decode {bytes : List UInt8} {s : List Char} (h : decode bytes = some s) :
    encode s = bytes := by
  obtain ⟨a, ha, rfl⟩ := Option.map_eq_some_iff.mp h
  have hsome : bytes.toByteArray.utf8Decode?.isSome := by rw [ha]; rfl
  have hget : bytes.toByteArray.utf8Decode?.get hsome = a := by simp [ha]
  have henc := @ByteArray.utf8Encode_get_utf8Decode? bytes.toByteArray hsome
  rw [hget] at henc
  have := congrArg (fun b : ByteArray => b.data.toList) henc
  simpa [List.utf8Encode, encode] using this

/-! ## ASCII characters

An ASCII character is its own single byte; every byte of any other character is at least
`0x80`. So a test on bytes that only ASCII bytes pass is a test on characters. -/

theorem encodeChar_ascii {c : Char} (h : c.toNat < 128) :
    String.utf8EncodeChar c = [UInt8.ofNat c.toNat] := by
  have hv : c.toNat ≤ 127 := by omega
  simp [String.utf8EncodeChar, hv]

theorem encodeChar_not_ascii {c : Char} (h : 128 ≤ c.toNat) :
    ∀ b ∈ String.utf8EncodeChar c, 128 ≤ b.toNat := by
  intro b hb
  have hv : ¬ c.toNat ≤ 127 := by omega
  simp only [String.utf8EncodeChar, Char.toNat_val, hv, if_false] at hb
  split at hb
  · simp only [List.mem_cons, List.not_mem_nil, or_false] at hb
    rcases hb with rfl | rfl <;> simp [UInt8.toNat_ofNat'] <;> omega
  · split at hb
    · simp only [List.mem_cons, List.not_mem_nil, or_false] at hb
      rcases hb with rfl | rfl | rfl <;> simp [UInt8.toNat_ofNat'] <;> omega
    · simp only [List.mem_cons, List.not_mem_nil, or_false] at hb
      rcases hb with rfl | rfl | rfl | rfl <;> simp [UInt8.toNat_ofNat'] <;> omega

theorem utf8Size_ascii {c : Char} (h : c.toNat < 128) : c.utf8Size = 1 := by
  have := String.length_utf8EncodeChar c
  rw [encodeChar_ascii h] at this
  simpa using this.symm

/-- The first byte of a character's encoding. -/
def leadByte (c : Char) : UInt8 := (String.utf8EncodeChar c).headD 0

theorem encodeChar_eq_cons (c : Char) :
    ∃ rest, String.utf8EncodeChar c = leadByte c :: rest := by
  cases h : String.utf8EncodeChar c with
  | nil => exact absurd h String.utf8EncodeChar_ne_nil
  | cons b rest => exact ⟨rest, by simp [leadByte, h]⟩

theorem leadByte_ascii {c : Char} (h : c.toNat < 128) : (leadByte c).toNat = c.toNat := by
  have hmod : c.toNat % 256 = c.toNat := Nat.mod_eq_of_lt (by omega)
  simp [leadByte, encodeChar_ascii h, UInt8.toNat_ofNat', hmod]

theorem leadByte_not_ascii {c : Char} (h : 128 ≤ c.toNat) : 128 ≤ (leadByte c).toNat := by
  obtain ⟨rest, hrest⟩ := encodeChar_eq_cons c
  exact encodeChar_not_ascii h _ (by rw [hrest]; simp)

theorem leadByte_lt_iff (c : Char) : (leadByte c).toNat < 128 ↔ c.toNat < 128 := by
  constructor
  · intro h
    by_contra hc
    have := leadByte_not_ascii (c := c) (by omega)
    omega
  · intro h
    rwa [leadByte_ascii h]

/-- A class of codes that holds of no code from `128` on says the same of a character and of
its first byte. -/
theorem leadByte_class {p : Nat → Bool} (hp : ∀ n, 128 ≤ n → p n = false) (c : Char) :
    p (leadByte c).toNat = p c.toNat := by
  by_cases h : c.toNat < 128
  · rw [leadByte_ascii h]
  · rw [hp _ (leadByte_not_ascii (by omega)), hp _ (by omega)]

/-- A byte of an encoding below `0x80` is the code of one of its characters. -/
theorem mem_encode_ascii {s : List Char} {b : UInt8} (hb : b ∈ encode s) (h : b.toNat < 128) :
    ∃ c ∈ s, c.toNat = b.toNat := by
  obtain ⟨c, hc, hbc⟩ := List.mem_flatMap.mp hb
  by_cases hasc : c.toNat < 128
  · refine ⟨c, hc, ?_⟩
    rw [encodeChar_ascii hasc] at hbc
    rw [List.mem_singleton.mp hbc, UInt8.toNat_ofNat', Nat.mod_eq_of_lt (by omega)]
  · have := encodeChar_not_ascii (by omega) b hbc
    omega

theorem mem_encode_of_ascii {s : List Char} {c : Char} (hc : c ∈ s) (h : c.toNat < 128) :
    UInt8.ofNat c.toNat ∈ encode s :=
  List.mem_flatMap.mpr ⟨c, hc, by simp [encodeChar_ascii h]⟩

theorem encode_ne_nil {s : List Char} (h : s ≠ []) : encode s ≠ [] := by
  cases s with
  | nil => exact absurd rfl h
  | cons c s =>
    obtain ⟨rest, hrest⟩ := encodeChar_eq_cons c
    simp [hrest]

theorem encode_cons_ascii {c : Char} (h : c.toNat < 128) (s : List Char) :
    encode (c :: s) = leadByte c :: encode s := by
  simp [leadByte, encodeChar_ascii h]

theorem encode_bracketed {opening closing : Char} (ho : opening.toNat < 128)
    (hc : closing.toNat < 128) (s : List Char) :
    encode (opening :: (s ++ [closing])) =
      leadByte opening :: (encode s ++ [leadByte closing]) := by
  rw [encode_cons_ascii ho, encode_append, encode_cons_ascii hc, encode_nil]

theorem encode_cons_eq (c : Char) (s : List Char) :
    ∃ tail, encode (c :: s) = leadByte c :: tail := by
  obtain ⟨tail, htail⟩ := encodeChar_eq_cons c
  exact ⟨tail ++ encode s, by rw [encode_cons, htail, List.cons_append]⟩

theorem all_encode {p : Nat → Bool} (hp : ∀ n, 128 ≤ n → p n = false) (s : List Char) :
    (encode s).all (fun b => p b.toNat) = s.all fun c => p c.toNat := by
  induction s with
  | nil => rfl
  | cons c s ih =>
    by_cases hasc : c.toNat < 128
    · rw [encode_cons_ascii hasc, List.all_cons, List.all_cons, ih, leadByte_class hp]
    · obtain ⟨tail, htail⟩ := encode_cons_eq c s
      rw [htail, List.all_cons, List.all_cons, leadByte_class hp, hp _ (Nat.le_of_not_lt hasc)]
      rfl

/-- A run of ASCII bytes of one class is a run of characters. -/
theorem takeWhile_encode {p : Nat → Bool} (hp : ∀ n, 128 ≤ n → p n = false) (s : List Char) :
    (encode s).takeWhile (fun b => p b.toNat) = encode (s.takeWhile fun c => p c.toNat) := by
  induction s with
  | nil => rfl
  | cons c s ih =>
    cases hc : p c.toNat with
    | false =>
      obtain ⟨tail, htail⟩ := encode_cons_eq c s
      have hlead : p (leadByte c).toNat = false := by rw [leadByte_class hp, hc]
      rw [htail, List.takeWhile_cons_of_neg (by simp [hlead]),
        List.takeWhile_cons_of_neg (by simp [hc]), encode_nil]
    | true =>
      have hasc : c.toNat < 128 := by
        by_contra hge
        rw [hp _ (by omega)] at hc
        exact absurd hc (by decide)
      have hlead : p (leadByte c).toNat = true := by rw [leadByte_class hp, hc]
      rw [encode_cons_ascii hasc, List.takeWhile_cons_of_pos (by simp [hlead]), ih,
        List.takeWhile_cons_of_pos (by simp [hc]), encode_cons_ascii hasc]

/-! ## Byte offsets on character boundaries -/

/-- Byte offset `i` of `value` stands on a character boundary, with the characters `rest`
after it. -/
def At (value : List Char) (i : Nat) (rest : List Char) : Prop :=
  ∃ pre, value = pre ++ rest ∧ i = len pre

theorem At.start (value : List Char) : At value 0 value := ⟨[], rfl, rfl⟩

theorem At.advance {value rest t : List Char} {i : Nat} (h : At value i (t ++ rest)) :
    At value (i + len t) rest := by
  obtain ⟨pre, rfl, rfl⟩ := h
  exact ⟨pre ++ t, by simp, by simp⟩

theorem At.step {value rest : List Char} {c : Char} {i : Nat} (h : At value i (c :: rest)) :
    At value (i + c.utf8Size) rest := by
  simpa using At.advance (t := [c]) h

theorem At.step_ascii {value rest : List Char} {c : Char} {i : Nat} (h : At value i (c :: rest))
    (hc : c.toNat < 128) : At value (i + 1) rest := by
  simpa [utf8Size_ascii hc] using h.step

theorem At.drop_encode {value rest : List Char} {i : Nat} (h : At value i rest) :
    (encode value).drop i = encode rest := by
  obtain ⟨pre, rfl, rfl⟩ := h
  simp [len]

theorem At.getElem? {value rest : List Char} {i : Nat} (h : At value i rest) (k : Nat) :
    (encode value)[i + k]? = (encode rest)[k]? := by
  rw [← h.drop_encode, List.getElem?_drop]

theorem At.get_nil {value : List Char} {i : Nat} (h : At value i []) :
    (encode value)[i]? = none := by
  simpa using h.getElem? 0

theorem At.get_cons {value rest : List Char} {c : Char} {i : Nat} (h : At value i (c :: rest)) :
    (encode value)[i]? = some (leadByte c) := by
  obtain ⟨tail, htail⟩ := encodeChar_eq_cons c
  have := h.getElem? 0
  simpa [htail] using this

theorem At.add_len {value rest : List Char} {i : Nat} (h : At value i rest) :
    i + len rest = len value := by
  obtain ⟨pre, rfl, rfl⟩ := h
  simp

theorem At.cons {value rest : List Char} {i : Nat} (c : Char) (h : At value i rest) :
    At (c :: value) (c.utf8Size + i) rest := by
  obtain ⟨pre, rfl, rfl⟩ := h
  exact ⟨c :: pre, rfl, (len_cons c pre).symm⟩

/-- An ASCII byte stands on a character boundary. -/
theorem exists_at {value : List Char} {i : Nat} {b : UInt8} (h : (encode value)[i]? = some b)
    (hb : b.toNat < 128) : ∃ c rest, At value i (c :: rest) ∧ leadByte c = b := by
  induction value generalizing i with
  | nil => exact absurd h (by simp)
  | cons c value ih =>
    rw [encode_cons] at h
    by_cases hi : i < (String.utf8EncodeChar c).length
    · rw [List.getElem?_append_left hi] at h
      have hmem : b ∈ String.utf8EncodeChar c := List.mem_of_getElem? h
      -- the byte is one of this character, and no character but an ASCII one has a byte below 128
      have hc : c.toNat < 128 := by
        by_contra hge
        have hhigh := encodeChar_not_ascii (Nat.le_of_not_lt hge) b hmem
        omega
      -- The character has this one byte.
      rw [encodeChar_ascii hc] at hi h
      obtain rfl : i = 0 := Nat.lt_one_iff.1 hi
      refine ⟨c, value, At.start _, ?_⟩
      unfold leadByte
      rw [encodeChar_ascii hc]
      exact Option.some.inj h
    · have hle := Nat.le_of_not_lt hi
      rw [List.getElem?_append_right hle] at h
      obtain ⟨d, rest, hat, hlead⟩ := ih h
      refine ⟨d, rest, ?_, hlead⟩
      -- the byte lies behind the first character
      have hnext := hat.cons c
      rw [String.length_utf8EncodeChar] at hle hnext
      rwa [Nat.add_sub_of_le hle] at hnext

/-! ## Slices -/

/-- The characters from byte offset `n` on; `none` when `n` is past the end or inside a
character. -/
def dropBytes : List Char → Nat → Option (List Char)
  | s, 0 => some s
  | [], _ + 1 => none
  | c :: s, n + 1 => if c.utf8Size ≤ n + 1 then dropBytes s (n + 1 - c.utf8Size) else none

/-- The characters before byte offset `n`; `none` when `n` is past the end or inside a
character. -/
def takeBytes : List Char → Nat → Option (List Char)
  | _, 0 => some []
  | [], _ + 1 => none
  | c :: s, n + 1 =>
    if c.utf8Size ≤ n + 1 then (takeBytes s (n + 1 - c.utf8Size)).map (c :: ·) else none

@[simp] theorem dropBytes_zero (s : List Char) : dropBytes s 0 = some s := by
  cases s <;> rfl

@[simp] theorem takeBytes_zero (s : List Char) : takeBytes s 0 = some [] := by
  cases s <;> rfl

@[simp] theorem dropBytes_append (pre rest : List Char) :
    dropBytes (pre ++ rest) (len pre) = some rest := by
  induction pre with
  | nil => simp
  | cons c pre ih =>
    have hpos := c.utf8Size_pos
    obtain ⟨n, hn⟩ : ∃ n, len (c :: pre) = n + 1 := ⟨len (c :: pre) - 1, by simp; omega⟩
    have hle : c.utf8Size ≤ n + 1 := by rw [← hn]; simp
    rw [hn, List.cons_append, dropBytes, if_pos hle, ← hn, len_cons, Nat.add_sub_cancel_left, ih]

@[simp] theorem takeBytes_append (pre rest : List Char) :
    takeBytes (pre ++ rest) (len pre) = some pre := by
  induction pre with
  | nil => simp
  | cons c pre ih =>
    have hpos := c.utf8Size_pos
    obtain ⟨n, hn⟩ : ∃ n, len (c :: pre) = n + 1 := ⟨len (c :: pre) - 1, by simp; omega⟩
    have hle : c.utf8Size ≤ n + 1 := by rw [← hn]; simp
    rw [hn, List.cons_append, takeBytes, if_pos hle, ← hn, len_cons, Nat.add_sub_cancel_left, ih]
    rfl

theorem takeBytes_eq_some {s l : List Char} {n : Nat} (h : takeBytes s n = some l) :
    ∃ rest, s = l ++ rest ∧ n = len l := by
  induction s generalizing n l with
  | nil =>
    cases n with
    | zero =>
      cases h
      exact ⟨[], rfl, rfl⟩
    | succ n => cases h
  | cons c s ih =>
    cases n with
    | zero =>
      cases h
      exact ⟨c :: s, rfl, rfl⟩
    | succ n =>
      rw [takeBytes] at h
      split at h
      · next hle =>
        obtain ⟨l, hl, rfl⟩ := Option.map_eq_some_iff.mp h
        obtain ⟨rest, rfl, hn⟩ := ih hl
        refine ⟨rest, rfl, ?_⟩
        rw [len_cons, ← hn]
        omega
      · cases h

theorem At.dropBytes {value rest : List Char} {i : Nat} (h : At value i rest) :
    dropBytes value i = some rest := by
  obtain ⟨pre, rfl, rfl⟩ := h
  simp

/-- `str::is_char_boundary`. -/
def isCharBoundary (s : List Char) (n : Nat) : Bool := (dropBytes s n).isSome

theorem At.isCharBoundary {value rest : List Char} {i : Nat} (h : At value i rest) :
    isCharBoundary value i = true := by
  rw [Utf8.isCharBoundary, h.dropBytes]
  rfl

end Utf8
