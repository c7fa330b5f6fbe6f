import Notm.Lib.Rust

/-!
# Base64

The standard alphabet with padding: the encoder of a byte list, the strict decoder, and the
facts that the text of an encoding keeps to the alphabet and decodes to the bytes again.

* `decode_encode` — the decoder reads back what the encoder writes.
* `isBase64Char_of_mem_encode` — an encoding keeps to the alphabet and the padding.
* `isText_of_decode` — whatever decodes consists of whole groups with the padding at its end.
* `map_length_decode` — the number of bytes can be told without decoding.
-/

namespace Base64

/-- The character of a digit below 64. -/
def digit (n : Nat) : Char :=
  if n < 26 then Char.ofNat (0x41 + n)
  else if n < 52 then Char.ofNat (0x61 + (n - 26))
  else if n < 62 then Char.ofNat (0x30 + (n - 52))
  else if n = 62 then '+' else '/'

/-- The digit of a character of the alphabet. -/
def value (c : Char) : Option Nat :=
  if 'A' ≤ c ∧ c ≤ 'Z' then some (c.toNat - 0x41)
  else if 'a' ≤ c ∧ c ≤ 'z' then some (c.toNat - 0x61 + 26)
  else if '0' ≤ c ∧ c ≤ '9' then some (c.toNat - 0x30 + 52)
  else if c = '+' then some 62
  else if c = '/' then some 63
  else none

/-- A character of the alphabet, or the padding. -/
def isBase64Char (c : Char) : Bool := (value c).isSome || c == '='

/-- Three bytes as four digits. -/
def group (a b c : Nat) : List Char :=
  [digit (a / 4), digit (a % 4 * 16 + b / 16), digit (b % 16 * 4 + c / 64), digit (c % 64)]

def encode : List UInt8 → List Char
  | [] => []
  | [a] => (group a.toNat 0 0).take 2 ++ ['=', '=']
  | [a, b] => (group a.toNat b.toNat 0).take 3 ++ ['=']
  | a :: b :: c :: rest => group a.toNat b.toNat c.toNat ++ encode rest

/-- The bytes of four digits. -/
def ungroup (w x y z : Nat) : List UInt8 :=
  [UInt8.ofNat (w * 4 + x / 16), UInt8.ofNat (x % 16 * 16 + y / 4),
    UInt8.ofNat (y % 4 * 64 + z)]

/-- The digits of a group that ends in the given number of padding characters, with zeros for
the padding. -/
def groupValues (w x y z : Char) (padding : Nat) : Option (Nat × Nat × Nat × Nat) := do
  let w ← value w
  let x ← value x
  let y ← if padding = 2 then some 0 else value y
  let z ← if 0 < padding then some 0 else value z
  return (w, x, y, z)

/-- The decoder: whole groups, with padding in the last one only. As MIME decoders do, it takes no
notice of the bits of the last digit that no byte is made of. -/
def decode : List Char → Option (List UInt8)
  | [] => some []
  | w :: x :: y :: z :: rest =>
    if z = '=' ∧ rest = [] then
      let padding := if y = '=' then 2 else 1
      (groupValues w x y z padding).map fun (w, x, y, z) =>
        (ungroup w x y z).take (3 - padding)
    else
      match groupValues w x y z 0, decode rest with
      | some (w, x, y, z), some bytes => some (ungroup w x y z ++ bytes)
      | _, _ => none
  | _ => none

/-! ## The alphabet -/

theorem value_digit : ∀ n < 64, value (digit n) = some n := by decide

theorem digit_ne_padding : ∀ n < 64, digit n ≠ '=' := by decide

theorem isBase64Char_digit {n : Nat} (h : n < 64) : isBase64Char (digit n) = true := by
  rw [isBase64Char, value_digit n h]
  rfl

/-- The characters of a group are digits. -/
theorem mem_group {a b c : Nat} (ha : a < 256) (hb : b < 256) (hc : c < 256) {ch : Char}
    (h : ch ∈ group a b c) : ∃ n < 64, ch = digit n := by
  simp only [group, List.mem_cons, List.not_mem_nil, or_false] at h
  rcases h with rfl | rfl | rfl | rfl
  · exact ⟨a / 4, by omega, rfl⟩
  · exact ⟨a % 4 * 16 + b / 16, by omega, rfl⟩
  · exact ⟨b % 16 * 4 + c / 64, by omega, rfl⟩
  · exact ⟨c % 64, by omega, rfl⟩

/-- An encoding keeps to the alphabet. -/
theorem isBase64Char_of_mem_encode {bytes : List UInt8} {ch : Char} (h : ch ∈ encode bytes) :
    isBase64Char ch = true := by
  -- Every character outside of the padding is one of a group.
  have hgroup : ∀ {a b c : Nat}, a < 256 → b < 256 → c < 256 → ch ∈ group a b c →
      isBase64Char ch = true := by
    intro a b c ha hb hc hmem
    obtain ⟨n, hn, rfl⟩ := mem_group ha hb hc hmem
    exact isBase64Char_digit hn
  induction bytes using encode.induct with
  | case1 => exact absurd h (by simp [encode])
  | case2 a =>
    rcases List.mem_append.mp h with h | h
    · exact hgroup a.toNat_lt (by omega) (by omega) (List.mem_of_mem_take h)
    · have : ch = '=' := by simpa using h
      rw [this]
      rfl
  | case3 a b =>
    rcases List.mem_append.mp h with h | h
    · exact hgroup a.toNat_lt b.toNat_lt (by omega) (List.mem_of_mem_take h)
    · rw [List.mem_singleton.mp h]
      rfl
  | case4 a b c rest ih =>
    rw [encode, List.mem_append] at h
    rcases h with h | h
    · exact hgroup a.toNat_lt b.toNat_lt c.toNat_lt h
    · exact ih h

/-! ## The round trip -/

theorem ungroup_group {a b c : UInt8} :
    ungroup (a.toNat / 4) (a.toNat % 4 * 16 + b.toNat / 16) (b.toNat % 16 * 4 + c.toNat / 64)
      (c.toNat % 64) = [a, b, c] := by
  have ha := a.toNat_lt
  have hb := b.toNat_lt
  have hc := c.toNat_lt
  have h1 : a.toNat / 4 * 4 + (a.toNat % 4 * 16 + b.toNat / 16) / 16 = a.toNat := by omega
  have h2 : (a.toNat % 4 * 16 + b.toNat / 16) % 16 * 16 +
      (b.toNat % 16 * 4 + c.toNat / 64) / 4 = b.toNat := by omega
  have h3 : (b.toNat % 16 * 4 + c.toNat / 64) % 4 * 64 + c.toNat % 64 = c.toNat := by omega
  simp only [ungroup, h1, h2, h3, UInt8.ofNat_toNat]

theorem decode_group {w x y z : Nat} (hw : w < 64) (hx : x < 64) (hy : y < 64) (hz : z < 64)
    (rest : List Char) :
    decode (digit w :: digit x :: digit y :: digit z :: rest) =
      (decode rest).map (ungroup w x y z ++ ·) := by
  rw [decode, if_neg fun h => digit_ne_padding z hz h.1]
  simp only [groupValues, value_digit w hw, value_digit x hx, value_digit y hy, value_digit z hz]
  cases decode rest <;> rfl

/-- An encoding decodes to the bytes that were encoded. -/
theorem decode_encode (bytes : List UInt8) : decode (encode bytes) = some bytes := by
  induction bytes using encode.induct with
  | case1 => rfl
  | case2 a =>
    have ha := a.toNat_lt
    -- One byte is written as the first two digits of a group whose other bytes are zero.
    have hu := ungroup_group (a := a) (b := 0) (c := 0)
    simp only [UInt8.toNat_zero, Nat.zero_div, Nat.add_zero, Nat.zero_mod, Nat.zero_mul] at hu
    simp only [encode, group, List.take_succ_cons, List.take_zero, List.cons_append,
      List.nil_append, Nat.zero_div, Nat.add_zero]
    rw [decode, if_pos ⟨rfl, rfl⟩]
    simp only [groupValues, if_pos, value_digit (a.toNat / 4) (by omega),
      value_digit (a.toNat % 4 * 16) (by omega)]
    simp [hu]
  | case3 a b =>
    have ha := a.toNat_lt
    have hb := b.toNat_lt
    have hu := ungroup_group (a := a) (b := b) (c := 0)
    simp only [UInt8.toNat_zero, Nat.zero_div, Nat.add_zero, Nat.zero_mod] at hu
    simp only [encode, group, List.take_succ_cons, List.take_zero, List.cons_append,
      List.nil_append, Nat.zero_div, Nat.add_zero]
    rw [decode, if_pos ⟨rfl, rfl⟩, if_neg (digit_ne_padding _ (by omega))]
    simp only [groupValues, value_digit (a.toNat / 4) (by omega),
      value_digit (a.toNat % 4 * 16 + b.toNat / 16) (by omega),
      value_digit (b.toNat % 16 * 4) (by omega)]
    simp [hu]
  | case4 a b c rest ih =>
    have ha := a.toNat_lt
    have hb := b.toNat_lt
    have hc := c.toNat_lt
    simp only [encode, group, List.cons_append, List.nil_append]
    rw [decode_group (by omega) (by omega) (by omega) (by omega), ih, Option.map_some,
      ungroup_group]
    rfl

/-! ## What the decoder takes -/

/-- A text of whole groups: digits and the padding behind them. -/
structure IsText (text digits : List Char) (padding : Nat) : Prop where
  split : text = digits ++ List.replicate padding '='
  digits_value : ∀ c ∈ digits, (value c).isSome = true
  padding_le : padding ≤ 2
  groups : text.length % 4 = 0

theorem value_padding : value '=' = none := by decide

/-- A group has values where each of its characters, the padding apart, is a digit. -/
theorem isSome_groupValues {w x y z : Char} {padding : Nat} (h : padding ≤ 2) :
    (groupValues w x y z padding).isSome = true ↔
      ∀ c ∈ [w, x, y, z].take (4 - padding), (value c).isSome = true := by
  unfold groupValues
  interval_cases padding
  · cases hw : value w <;> cases hx : value x <;> cases hy : value y <;> cases hz : value z <;>
      simp [hw, hx, hy, hz]
  · cases hw : value w <;> cases hx : value x <;> cases hy : value y <;> simp [hw, hx, hy]
  · cases hw : value w <;> cases hx : value x <;> simp [hw, hx]

theorem ne_padding_of_value {c : Char} (h : (value c).isSome = true) : c ≠ '=' := by
  rintro rfl
  rw [value_padding] at h
  exact absurd h (by decide)

/-- A last group with padding stands for as many bytes as it has digits, less one. -/
theorem map_length_decode_padded {w x y z : Char} {padding : Nat} (hpos : 0 < padding)
    (hle : padding ≤ 2) (hz : z = '=') (hy : y = '=' ↔ padding = 2)
    (hvalues : ∀ c ∈ [w, x, y, z].take (4 - padding), (value c).isSome = true) :
    (decode [w, x, y, z]).map List.length = some (3 - padding) := by
  have hpadding : (if y = '=' then 2 else 1) = padding := by
    split
    · next heq => exact (hy.1 heq).symm
    · next hne =>
      have hnot : padding ≠ 2 := fun h => hne (hy.2 h)
      omega
  obtain ⟨digits, hdigits⟩ := Option.isSome_iff_exists.1 ((isSome_groupValues hle).2 hvalues)
  rw [decode, if_pos ⟨hz, rfl⟩]
  show ((groupValues w x y z (if y = '=' then 2 else 1)).map _).map List.length = _
  rw [hpadding, hdigits, Option.map_some, Option.map_some, List.length_take]
  show some (min (3 - padding) 3) = some (3 - padding)
  exact congrArg some (by omega)

theorem map_length_decode_group {w x y z : Char} (rest : List Char)
    (hvalues : ∀ c ∈ [w, x, y, z], (value c).isSome = true) :
    (decode (w :: x :: y :: z :: rest)).map List.length =
      (decode rest).map (List.length · + 3) := by
  have hz : z ≠ '=' := ne_padding_of_value (hvalues z (by simp))
  obtain ⟨digits, hdigits⟩ := Option.isSome_iff_exists.1
    ((isSome_groupValues (Nat.zero_le 2)).2 hvalues)
  rw [decode, if_neg fun h => hz h.1, hdigits]
  cases decode rest with
  | none => rfl
  | some bytes =>
    show some (ungroup _ _ _ _ ++ bytes).length = some (bytes.length + 3)
    rw [List.length_append]
    exact congrArg some (Nat.add_comm 3 bytes.length)

/-- The number of bytes can be told from the length and the padding of a text. -/
theorem map_length_decode {padding : Nat} (hle : padding ≤ 2) :
    ∀ digits : List Char, (∀ c ∈ digits, (value c).isSome = true) →
      (digits.length + padding) % 4 = 0 →
      (decode (digits ++ List.replicate padding '=')).map List.length =
        some ((digits.length + padding) / 4 * 3 - padding)
  -- The digits are taken by fours; what is left of them fixes the padding.
  | [], _, hgroups => by
    have hzero : padding = 0 := by
      rw [List.length_nil] at hgroups
      omega
    rw [hzero]
    rfl
  | [_], _, hgroups => by
    rw [List.length_singleton] at hgroups
    omega
  | [w, x], hdigits, hgroups => by
    have htwo : padding = 2 := by
      simp only [List.length_cons, List.length_nil] at hgroups
      omega
    subst htwo
    show (decode [w, x, '=', '=']).map List.length = some ((0 + 1 + 1 + 2) / 4 * 3 - 2)
    exact map_length_decode_padded (by omega) hle rfl ⟨fun _ => rfl, fun _ => rfl⟩ hdigits
  | [w, x, y], hdigits, hgroups => by
    have hone : padding = 1 := by
      simp only [List.length_cons, List.length_nil] at hgroups
      omega
    subst hone
    have hy : y ≠ '=' := ne_padding_of_value (hdigits y (by simp))
    show (decode [w, x, y, '=']).map List.length = some ((0 + 1 + 1 + 1 + 1) / 4 * 3 - 1)
    exact map_length_decode_padded (by omega) hle rfl
      ⟨fun h => absurd h hy, fun h => absurd h (by decide)⟩ hdigits
  | w :: x :: y :: z :: rest, hdigits, hgroups => by
    have hvalues : ∀ c ∈ [w, x, y, z], (value c).isSome = true := fun c hc =>
      hdigits c (List.mem_append_left rest hc)
    have hrest : ∀ c ∈ rest, (value c).isSome = true := fun c hc =>
      hdigits c (List.mem_append_right [w, x, y, z] hc)
    simp only [List.length_cons] at hgroups ⊢
    have hcount := map_length_decode hle rest hrest (by omega)
    show (decode (w :: x :: y :: z :: (rest ++ List.replicate padding '='))).map List.length = _
    rw [map_length_decode_group _ hvalues]
    obtain ⟨bytes, hbytes, hlength⟩ := Option.map_eq_some_iff.1 hcount
    rw [hbytes, Option.map_some, hlength]
    -- There is padding only where there are digits, so the difference does not stop at zero.
    exact congrArg some (by omega)

/-- Whatever the decoder takes is such a text. -/
theorem isText_of_decode {text : List Char} {bytes : List UInt8} (h : decode text = some bytes) :
    ∃ digits padding, IsText text digits padding := by
  induction text using decode.induct generalizing bytes with
  | case1 => exact ⟨[], 0, rfl, by simp, Nat.zero_le 2, by simp⟩
  | case2 w x y z rest hlast =>
    -- The last group tells the padding: two characters of it where the third is one.
    obtain ⟨rfl, rfl⟩ := hlast
    rw [decode, if_pos ⟨rfl, rfl⟩] at h
    obtain ⟨values, hvalues, -⟩ := Option.map_eq_some_iff.1 h
    by_cases hy : y = '='
    · subst hy
      rw [if_pos rfl] at hvalues
      have hdigits := (isSome_groupValues (le_refl 2)).1 (Option.isSome_of_eq_some hvalues)
      exact ⟨[w, x], 2, rfl, hdigits, le_refl 2, by simp⟩
    · rw [if_neg hy] at hvalues
      have hdigits := (isSome_groupValues one_le_two).1 (Option.isSome_of_eq_some hvalues)
      exact ⟨[w, x, y], 1, rfl, hdigits, one_le_two, by simp⟩
  | case3 w x y z rest hlast _ _ _ _ tail hrest hvalues ih =>
    -- A group before the last has four digits, and the rest of the text is one by induction.
    have hgroup := (isSome_groupValues (Nat.zero_le 2)).1 (Option.isSome_of_eq_some hvalues)
    obtain ⟨digits, padding, hsplit, hdigits, hle, hgroups⟩ := ih hrest
    refine ⟨[w, x, y, z] ++ digits, padding, ?_, ?_, hle, ?_⟩
    · rw [hsplit]
      rfl
    · exact List.forall_mem_append.2 ⟨hgroup, hdigits⟩
    · simp only [List.length_cons]
      omega
  | case4 w x y z rest hlast hnone _ =>
    rw [decode, if_neg hlast] at h
    split at h
    · next hvalues hrest => exact (hnone _ _ _ _ _ hvalues hrest).elim
    · exact absurd h (by simp)
  | case5 text hempty hshort =>
    rw [decode.eq_3 text hempty hshort] at h
    exact absurd h (by simp)

end Base64
