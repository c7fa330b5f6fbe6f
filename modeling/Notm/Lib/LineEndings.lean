import Notm.Lib.Folding

/-!
# Line endings

A text may break its lines by CR, by LF or by both. Normalizing it writes every break as CRLF: the
lines stay as they are, CR and LF occur in pairs only, and a text of which that is true already is
left alone.

* `paired_normalize`, `normalize_of_paired` — normalizing pairs every CR and LF, and does nothing
  where they are paired.
* `breakLines_normalize` — it changes no line.
* `normalize_encode` — on the bytes of a string it is a function of the characters.
-/

namespace LineEndings

open Rust Folding

/-- CR and LF occur as the pair only. -/
inductive Paired : Bytes → Prop where
  | nil : Paired []
  | crlf {rest : Bytes} (h : Paired rest) : Paired (0x0D :: 0x0A :: rest)
  | byte {byte : UInt8} {rest : Bytes} (hcr : byte ≠ 0x0D) (hlf : byte ≠ 0x0A)
      (h : Paired rest) : Paired (byte :: rest)

def normalize : Bytes → Bytes
  | [] => []
  | 0x0D :: 0x0A :: rest => 0x0D :: 0x0A :: normalize rest
  | 0x0D :: rest => 0x0D :: 0x0A :: normalize rest
  | 0x0A :: rest => 0x0D :: 0x0A :: normalize rest
  | byte :: rest => byte :: normalize rest

/-- The lines of a text, with the bytes of the current line in `current`. -/
def breakLinesFrom (current : Bytes) : Bytes → List Bytes
  | [] => [current]
  | 0x0D :: 0x0A :: rest => current :: breakLinesFrom [] rest
  | 0x0D :: rest => current :: breakLinesFrom [] rest
  | 0x0A :: rest => current :: breakLinesFrom [] rest
  | byte :: rest => breakLinesFrom (current ++ [byte]) rest

/-- The lines of a text whose breaks are CR, LF and CRLF. -/
def breakLines (text : Bytes) : List Bytes := breakLinesFrom [] text

variable {text first second : Bytes} {byte : UInt8}

/-! ## Steps -/

theorem normalize_cr {rest : Bytes} (h : ∀ tail, rest = 0x0A :: tail → False) :
    normalize (0x0D :: rest) = 0x0D :: 0x0A :: normalize rest := normalize.eq_3 rest h

theorem normalize_byte (hcr : byte ≠ 0x0D) (hlf : byte ≠ 0x0A) (rest : Bytes) :
    normalize (byte :: rest) = byte :: normalize rest :=
  normalize.eq_5 byte rest (fun _ h _ => hcr h) hcr hlf

theorem breakLinesFrom_byte (hcr : byte ≠ 0x0D) (hlf : byte ≠ 0x0A) (current rest : Bytes) :
    breakLinesFrom current (byte :: rest) = breakLinesFrom (current ++ [byte]) rest :=
  breakLinesFrom.eq_5 current byte rest (fun _ h _ => hcr h) hcr hlf

/-! ## Normalizing -/

theorem paired_normalize (text : Bytes) : Paired (normalize text) := by
  fun_induction normalize text with
  | case1 => exact .nil
  | case2 rest ih => exact .crlf ih
  | case3 rest _ ih => exact .crlf ih
  | case4 rest ih => exact .crlf ih
  | case5 byte rest _ hcr hlf ih => exact .byte hcr hlf ih

theorem normalize_of_paired (h : Paired text) : normalize text = text := by
  induction h with
  | nil => rfl
  | crlf h ih => exact congrArg (0x0D :: 0x0A :: ·) ih
  | byte hcr hlf h ih => rw [normalize_byte hcr hlf, ih]

/-- A second pass changes nothing. -/
theorem normalize_normalize (text : Bytes) : normalize (normalize text) = normalize text :=
  normalize_of_paired (paired_normalize text)

/-- The lines are those of the text. -/
theorem breakLines_normalize (text : Bytes) : breakLines (normalize text) = breakLines text := by
  have hfrom : ∀ current, breakLinesFrom current (normalize text) =
      breakLinesFrom current text := by
    fun_induction normalize text with
    | case1 => exact fun current => rfl
    | case2 rest ih => exact fun current => congrArg (current :: ·) (ih [])
    | case3 rest h ih =>
      intro current
      rw [breakLinesFrom.eq_3 current rest h]
      exact congrArg (current :: ·) (ih [])
    | case4 rest ih => exact fun current => congrArg (current :: ·) (ih [])
    | case5 byte rest _ hcr hlf ih =>
      intro current
      rw [breakLinesFrom_byte hcr hlf, breakLinesFrom_byte hcr hlf]
      exact ih _
  exact hfrom []

/-! ## Characters -/

def normalizeText : Str → Str
  | [] => []
  | '\r' :: '\n' :: rest => '\r' :: '\n' :: normalizeText rest
  | '\r' :: rest => '\r' :: '\n' :: normalizeText rest
  | '\n' :: rest => '\r' :: '\n' :: normalizeText rest
  | c :: rest => c :: normalizeText rest

theorem normalize_append (hcr : 0x0D ∉ first) (hlf : 0x0A ∉ first) (second : Bytes) :
    normalize (first ++ second) = first ++ normalize second := by
  induction first with
  | nil => rfl
  | cons byte first ih =>
    obtain ⟨hcr, hcrs⟩ := not_or.1 (List.mem_cons.not.1 hcr)
    obtain ⟨hlf, hlfs⟩ := not_or.1 (List.mem_cons.not.1 hlf)
    rw [List.cons_append, normalize_byte (Ne.symm hcr) (Ne.symm hlf), ih hcrs hlfs,
      List.cons_append]

/-- An ASCII byte of a character is the character. -/
theorem not_mem_encodeChar {c d : Char} (hd : d.toNat < 128) (h : c ≠ d) :
    UInt8.ofNat d.toNat ∉ String.utf8EncodeChar c := by
  intro hmem
  have hcode : (UInt8.ofNat d.toNat).toNat = d.toNat := by
    rw [UInt8.toNat_ofNat']
    exact Nat.mod_eq_of_lt (by omega)
  have hencode : UInt8.ofNat d.toNat ∈ Utf8.encode [c] := by
    rw [Utf8.encode_cons, Utf8.encode_nil, List.append_nil]
    exact hmem
  obtain ⟨other, hother, heq⟩ := Utf8.mem_encode_ascii hencode (by omega)
  rw [List.mem_singleton.1 hother, hcode] at heq
  exact h (Char.toNat_inj.1 heq)

/-- Normalizing the bytes of a string gives the bytes of a string. -/
theorem normalize_encode (s : Str) : normalize (Utf8.encode s) = Utf8.encode (normalizeText s) := by
  fun_induction normalizeText s with
  | case1 => rfl
  | case2 rest ih =>
    show normalize (0x0D :: 0x0A :: Utf8.encode rest) = 0x0D :: 0x0A :: Utf8.encode _
    exact congrArg (0x0D :: 0x0A :: ·) ih
  | case3 rest h ih =>
    -- The byte behind the CR is an LF only where the character is one.
    have hnext : ∀ tail, Utf8.encode rest = 0x0A :: tail → False := by
      intro tail heq
      cases rest with
      | nil => exact absurd heq (by simp)
      | cons c rest =>
        have hc : c ≠ '\n' := fun hc => h rest (by rw [hc])
        obtain ⟨bytes, hbytes⟩ := Utf8.encodeChar_eq_cons c
        rw [Utf8.encode_cons, hbytes, List.cons_append] at heq
        refine not_mem_encodeChar (d := '\n') (by decide) hc ?_
        rw [hbytes, (List.cons.inj heq).1]
        exact List.mem_cons_self
    show normalize (0x0D :: Utf8.encode rest) = 0x0D :: 0x0A :: Utf8.encode _
    rw [normalize_cr hnext, ih]
  | case4 rest ih =>
    show normalize (0x0A :: Utf8.encode rest) = 0x0D :: 0x0A :: Utf8.encode _
    exact congrArg (0x0D :: 0x0A :: ·) ih
  | case5 c rest _ hcr hlf ih =>
    -- any other character has neither byte in its encoding
    rw [Utf8.encode_cons, normalize_append (not_mem_encodeChar (d := '\r') (by decide) hcr)
      (not_mem_encodeChar (d := '\n') (by decide) hlf), ih, Utf8.encode_cons]

/-! ## Texts in pairs -/

theorem Paired.append (hfirst : Paired first) (hsecond : Paired second) :
    Paired (first ++ second) := by
  induction hfirst with
  | nil => exact hsecond
  | crlf h ih => exact .crlf ih
  | byte hcr hlf h ih => exact .byte hcr hlf ih

theorem paired_crlf : Paired crlf := .crlf .nil

theorem paired_of_not_mem (hcr : 0x0D ∉ text) (hlf : 0x0A ∉ text) : Paired text := by
  induction text with
  | nil => exact .nil
  | cons byte text ih =>
    obtain ⟨hcr, hcrs⟩ := not_or.1 (List.mem_cons.not.1 hcr)
    obtain ⟨hlf, hlfs⟩ := not_or.1 (List.mem_cons.not.1 hlf)
    exact .byte (Ne.symm hcr) (Ne.symm hlf) (ih hcrs hlfs)

theorem Paired.flatten {parts : List Bytes} (h : ∀ part ∈ parts, Paired part) :
    Paired parts.flatten := by
  induction parts with
  | nil => exact .nil
  | cons part parts ih =>
    rw [List.flatten_cons]
    exact (h part List.mem_cons_self).append
      (ih fun other hother => h other (List.mem_cons_of_mem _ hother))

end LineEndings
