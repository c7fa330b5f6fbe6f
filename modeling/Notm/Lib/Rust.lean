import Notm.Lib.Utf8

/-!
# The Rust standard library on text

Strings are character lists and byte vectors are byte lists. The character classes that Rust
defines on ASCII are stated on codes, so that the same class serves `char` and `u8`.
-/

namespace Rust

/-- `str` and `String`. -/
abbrev Str := List Char

instance : LawfulBEq Str := inferInstance

/-- `[u8]` and `Vec<u8>`. -/
abbrev Bytes := List UInt8

/-! ## Character classes -/

/-- `is_ascii_graphic`: the visible ASCII characters. -/
def isAsciiGraphic (code : Nat) : Bool := 0x21 ≤ code && code ≤ 0x7E

/-- `is_ascii_digit`. -/
def isAsciiDigit (code : Nat) : Bool := 0x30 ≤ code && code ≤ 0x39

/-- `is_ascii_alphanumeric`. -/
def isAsciiAlphanumeric (code : Nat) : Bool :=
  isAsciiDigit code || (0x41 ≤ code && code ≤ 0x5A) || (0x61 ≤ code && code ≤ 0x7A)

/-- `is_ascii_hexdigit`. -/
def isAsciiHexdigit (code : Nat) : Bool :=
  isAsciiDigit code || (0x41 ≤ code && code ≤ 0x46) || (0x61 ≤ code && code ≤ 0x66)

/-- `is_ascii_whitespace`: space, tab, line feed, form feed, carriage return. -/
def isAsciiWhitespace (code : Nat) : Bool :=
  code == 0x20 || code == 0x09 || code == 0x0A || code == 0x0C || code == 0x0D

/-- A space or a horizontal tab. -/
def isBlank (code : Nat) : Bool := code == 0x20 || code == 0x09

/-- `char::is_control`: the general category `Cc`. -/
def isControl (c : Char) : Bool := c.toNat < 0x20 || (0x7F ≤ c.toNat && c.toNat ≤ 0x9F)

/-- `char::is_whitespace`: the Unicode property `White_Space`. -/
def isWhitespace (c : Char) : Bool :=
  let code := c.toNat
  (0x09 ≤ code && code ≤ 0x0D) || code == 0x20 || code == 0x85 || code == 0xA0 ||
    code == 0x1680 || (0x2000 ≤ code && code ≤ 0x200A) || code == 0x2028 || code == 0x2029 ||
    code == 0x202F || code == 0x205F || code == 0x3000

/-- `char::is_ascii` and `str::is_ascii`. -/
def isAscii (s : Str) : Bool := s.all fun c => c.toNat < 128

/-! ## Strings -/

/-- `str::trim_start`. -/
def trimStart (s : Str) : Str := s.dropWhile isWhitespace

/-- `str::trim_end`. -/
def trimEnd (s : Str) : Str := s.rdropWhile isWhitespace

/-- `str::trim`. -/
def trim (s : Str) : Str := trimEnd (trimStart s)

/-- `to_ascii_lowercase` on one character. -/
def asciiLower (c : Char) : Char :=
  if 0x41 ≤ c.toNat ∧ c.toNat ≤ 0x5A then Char.ofNat (c.toNat + 32) else c

/-- `to_ascii_uppercase` on one character. -/
def asciiUpper (c : Char) : Char :=
  if 0x61 ≤ c.toNat ∧ c.toNat ≤ 0x7A then Char.ofNat (c.toNat - 32) else c

/-- `str::to_ascii_lowercase`. -/
def toAsciiLowercase (s : Str) : Str := s.map asciiLower

/-- `str::to_ascii_uppercase`. -/
def toAsciiUppercase (s : Str) : Str := s.map asciiUpper

/-- `str::eq_ignore_ascii_case`. -/
def eqIgnoreAsciiCase (s t : Str) : Bool := toAsciiLowercase s == toAsciiLowercase t

/-- `str::contains` with a string pattern. -/
def contains (s pattern : Str) : Bool := decide (pattern <:+: s)

/-- `str::replace` with a character pattern. -/
def replace (s : Str) (c : Char) (by_ : Str) : Str := s.flatMap fun d => if d = c then by_ else [d]

/-- `str::split_once` with a character pattern. -/
def splitOnce (s : Str) (c : Char) : Option (Str × Str) :=
  if c ∈ s then some (s.takeWhile (· ≠ c), (s.dropWhile (· ≠ c)).tail) else none

/-- `str::rsplit_once` with a character pattern. -/
def rsplitOnce (s : Str) (c : Char) : Option (Str × Str) :=
  if c ∈ s then
    some ((s.reverse.dropWhile (· ≠ c)).tail.reverse, (s.reverse.takeWhile (· ≠ c)).reverse)
  else none

/-- One line of `str::lines`: a carriage return before the line feed belongs to the ending. -/
def stripCarriageReturn (line : Str) : Str :=
  if line.getLast? = some '\r' then line.dropLast else line

/-- `str::lines`, with the characters of the current line in `current`. The last line keeps a
carriage return that no line feed follows. -/
def linesFrom (current : Str) : Str → List Str
  | [] => if current = [] then [] else [current]
  | c :: s =>
    if c = '\n' then stripCarriageReturn current :: linesFrom [] s
    else linesFrom (current ++ [c]) s

/-- `str::lines`. -/
def lines (s : Str) : List Str := linesFrom [] s

/-- `<[T]>::chunks`. -/
def chunks {α : Type} (size : Nat) : List α → List (List α)
  | [] => []
  | x :: xs => (x :: xs.take (size - 1)) :: chunks size (xs.drop (size - 1))
termination_by xs => xs.length
decreasing_by
  rw [List.length_drop, List.length_cons]
  omega

/-- A decimal number as `format!` prints it. -/
def natText (n : Nat) : Str := (toString n).toList

/-! ## Formatted text

`{:?}` on a string escapes it by the Unicode tables. A formatted text therefore keeps such an
argument as a piece of its own instead of spelling the escape out. -/

/-- A piece of a formatted text: literal characters, or the `{:?}` of a string. -/
inductive Piece where
  | lit (text : Str)
  | debug (value : Str)
  deriving DecidableEq, Repr

/-- The result of a `format!`. -/
abbrev Text := List Piece

/-- A text without `{:?}` arguments. -/
def lit (text : String) : Text := [.lit text.toList]

/-! ## Facts -/

theorem isAsciiGraphic_of_ge {n : Nat} (h : 128 ≤ n) : isAsciiGraphic n = false := by
  simp [isAsciiGraphic]; omega

theorem isBlank_of_ge {n : Nat} (h : 128 ≤ n) : isBlank n = false := by
  simp [isBlank]; omega

theorem toNat_ofNat_ascii : ∀ n < 128, (Char.ofNat n).toNat = n := by decide +kernel

theorem asciiLower_of_not_upper {c : Char} (h : ¬ (0x41 ≤ c.toNat ∧ c.toNat ≤ 0x5A)) :
    asciiLower c = c := if_neg h

theorem asciiLower_asciiLower (c : Char) : asciiLower (asciiLower c) = asciiLower c := by
  by_cases h : 0x41 ≤ c.toNat ∧ c.toNat ≤ 0x5A
  · have hlower : asciiLower c = Char.ofNat (c.toNat + 32) := if_pos h
    have hnat := toNat_ofNat_ascii (c.toNat + 32) (by omega)
    rw [hlower]
    exact asciiLower_of_not_upper (by omega)
  · rw [asciiLower_of_not_upper h, asciiLower_of_not_upper h]

@[simp] theorem toAsciiLowercase_toAsciiLowercase (s : Str) :
    toAsciiLowercase (toAsciiLowercase s) = toAsciiLowercase s := by
  simp only [toAsciiLowercase, List.map_map, Function.comp_def, asciiLower_asciiLower]

@[simp] theorem trim_nil : trim [] = [] := rfl

theorem infix_of_trim (s : Str) : trim s <:+: s :=
  ((List.rdropWhile_prefix isWhitespace (l := trimStart s)).isInfix).trans
    (List.dropWhile_suffix isWhitespace).isInfix

theorem replace_of_not_mem {s by_ : Str} {c : Char} (h : c ∉ s) : replace s c by_ = s := by
  unfold replace
  induction s with
  | nil => rfl
  | cons d s ih =>
    rw [List.mem_cons, not_or] at h
    rw [List.flatMap_cons, if_neg (Ne.symm h.1), ih h.2, List.singleton_append]

/-- A string splits at its first separator. -/
theorem splitOnce_append {head tail : Str} {c : Char} (h : c ∉ head) :
    splitOnce (head ++ c :: tail) c = some (head, tail) := by
  have hne : ∀ d ∈ head, (decide (d ≠ c)) = true := by
    intro d hd
    exact decide_eq_true fun heq => h (heq ▸ hd)
  unfold splitOnce
  rw [if_pos (List.mem_append_right head List.mem_cons_self), List.takeWhile_append_of_pos hne,
    List.dropWhile_append_of_pos hne, List.takeWhile_cons_of_neg (by simp),
    List.dropWhile_cons_of_neg (by simp), List.append_nil, List.tail_cons]

theorem splitOnce_of_not_mem {s : Str} {c : Char} (h : c ∉ s) : splitOnce s c = none := if_neg h

theorem splitOnce_eq_some {s head tail : Str} {c : Char} (h : splitOnce s c = some (head, tail)) :
    s = head ++ c :: tail ∧ c ∉ head := by
  unfold splitOnce at h
  split at h
  · next hmem =>
    obtain ⟨rfl, rfl⟩ := Prod.mk.inj (Option.some.inj h)
    have hne : s.dropWhile (· ≠ c) ≠ [] := by
      rw [Ne, List.dropWhile_eq_nil_iff]
      exact fun hall => absurd (hall c hmem) (by simp)
    have hhead : (s.dropWhile (· ≠ c)).head hne = c := by
      have hnot := List.head_dropWhile_not (· ≠ c) hne
      simpa using hnot
    constructor
    · have hsplit := List.takeWhile_append_dropWhile (p := (· ≠ c)) (l := s)
      rw [← List.cons_head_tail hne, hhead] at hsplit
      exact hsplit.symm
    · exact fun hin => absurd (List.mem_takeWhile_imp hin) (by simp)
  · exact absurd h (by simp)

/-! ## Numbers -/

theorem natText_injective {m n : Nat} (h : natText m = natText n) : m = n := by
  have htext : Nat.toDigits 10 m = Nat.toDigits 10 n := by
    rw [← Nat.toList_repr, ← Nat.toList_repr]
    exact h
  rw [← Nat.ofDigitChars_ten_toDigits (n := m), htext, Nat.ofDigitChars_ten_toDigits]

theorem length_natText_le {n k : Nat} (hk : 0 < k) (h : n < 10 ^ k) : (natText n).length ≤ k := by
  show (Nat.repr n).toList.length ≤ k
  rw [Nat.toList_repr]
  exact (Nat.length_toDigits_le_iff (by omega) hk).2 h

/-- The chunks of a slice are the slice. -/
theorem flatten_chunks {α : Type} (size : Nat) (xs : List α) : (chunks size xs).flatten = xs := by
  fun_induction chunks size xs with
  | case1 => rfl
  | case2 x xs ih =>
    rw [List.flatten_cons, ih, List.cons_append, List.take_append_drop]

theorem isDigit_of_mem_natText {n : Nat} {c : Char} (h : c ∈ natText n) : c.isDigit = true := by
  have hmem : c ∈ Nat.toDigits 10 n := by
    rw [← Nat.toList_repr]
    exact h
  exact Nat.isDigit_of_mem_toDigits (by omega) (by omega) hmem

theorem toNat_of_isDigit {c : Char} (h : c.isDigit = true) : 0x30 ≤ c.toNat ∧ c.toNat ≤ 0x39 := by
  unfold Char.isDigit at h
  simp only [Bool.and_eq_true, decide_eq_true_eq, ge_iff_le] at h
  exact ⟨UInt32.le_iff_toNat_le.1 h.1, UInt32.le_iff_toNat_le.1 h.2⟩

/-! ## Vectors -/

/-- Where all elements have a property, changing one of them is a matter of that element. -/
theorem forall_mem_modify {α : Type*} {P : α → Prop} {xs : List α} {f : α → α} (i : Nat)
    (h : ∀ x ∈ xs, P x) : (∀ x ∈ xs.modify i f, P x) ↔ ∀ x, xs[i]? = some x → P (f x) := by
  constructor
  · intro hall x hx
    refine hall (f x) (List.mem_iff_getElem?.2 ⟨i, ?_⟩)
    rw [List.getElem?_modify, hx]
    simp
  · intro hone y hy
    obtain ⟨j, hj⟩ := List.mem_iff_getElem?.1 hy
    rw [List.getElem?_modify] at hj
    obtain ⟨x, hx, hxy⟩ := Option.map_eq_some_iff.1 hj
    by_cases hij : i = j
    · subst hij
      rw [if_pos rfl] at hxy
      exact hxy ▸ hone x hx
    · rw [if_neg hij] at hxy
      exact hxy ▸ h x (List.mem_iff_getElem?.2 ⟨j, hx⟩)

end Rust
