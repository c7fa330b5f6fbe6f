import Notm.Lib.Rust

/-!
# File names

`OsString` as the pieces of `Utf8Chunks`: characters, and the maximal sequences of bytes that are
no part of a character.

* `eq_of_toStr` — a name that is valid text is the name of that text.
* `extension_append`, `fileStem_extension` — stem and extension put together and taken apart.
-/

namespace Rust

inductive OsUnit where
  | char (c : Char)
  | invalid (bytes : Bytes)
deriving DecidableEq

/-- A file name: `Utf8Chunks` divides any bytes into these units in one way. -/
abbrev OsString := List OsUnit

namespace OsString

def ofStr (s : Str) : OsString := s.map .char

/-- `OsStr::to_str`. -/
def toStr : OsString → Option Str
  | [] => some []
  | .char c :: rest => (toStr rest).map (c :: ·)
  | .invalid _ :: _ => none

/-- `OsStr::to_string_lossy`: a replacement character for each invalid sequence. -/
def toStringLossy (name : OsString) : Str :=
  name.map fun
    | .char c => c
    | .invalid _ => Char.ofNat 0xFFFD

def dot : OsUnit := .char '.'

/-- `Path::extension` of the file name. -/
def extension (name : OsString) : Option OsString :=
  if name = [dot, dot] then none
  else if (name.rdropWhile (· ≠ dot)).length ≤ 1 then none
  else some (name.rtakeWhile (· ≠ dot))

/-- `Path::file_stem` of the file name. -/
def fileStem (name : OsString) : OsString :=
  if name.extension.isSome then (name.rdropWhile (· ≠ dot)).dropLast else name

/-- `path.extension().and_then(OsStr::to_str) == Some("json")`. -/
def isJson (name : OsString) : Bool := name.extension.bind toStr = some "json".toList

theorem toStr_ofStr (s : Str) : toStr (ofStr s) = some s := by
  induction s with
  | nil => rfl
  | cons c rest ih =>
    show (toStr (ofStr rest)).map (c :: ·) = _
    rw [ih, Option.map_some]

theorem ofStr_injective : Function.Injective ofStr :=
  List.map_injective_iff.2 fun _ _ h => OsUnit.char.inj h

theorem eq_of_toStr {name : OsString} {s : Str} (h : name.toStr = some s) : name = ofStr s := by
  induction name generalizing s with
  | nil =>
    obtain rfl := Option.some.inj h
    rfl
  | cons unit rest ih =>
    cases unit with
    | invalid bytes => exact absurd h (Option.some_ne_none s).symm
    | char c =>
      obtain ⟨t, ht, rfl⟩ := Option.map_eq_some_iff.1 h
      rw [ih ht]
      rfl

theorem rdropWhile_append_of_forall {stem ext : OsString} (hext : dot ∉ ext) :
    (stem ++ dot :: ext).rdropWhile (· ≠ dot) = stem ++ [dot] := by
  have hall : ∀ unit ∈ ext.reverse, (decide (unit ≠ dot)) = true := by
    intro unit hunit
    exact decide_eq_true fun hdot => hext (hdot ▸ List.mem_reverse.1 hunit)
  have hskip : (stem ++ dot :: ext).rdropWhile (· ≠ dot) =
      (stem ++ [dot]).rdropWhile (· ≠ dot) := by
    show ((stem ++ dot :: ext).reverse.dropWhile _).reverse = ((stem ++ [dot]).reverse.dropWhile
      _).reverse
    rw [List.append_cons, List.reverse_append, List.dropWhile_append_of_pos hall]
  rw [hskip]
  exact List.rdropWhile_concat_neg _ _ _ (by simp)

theorem rdropWhile_append_rtakeWhile (name : OsString) :
    name.rdropWhile (· ≠ dot) ++ name.rtakeWhile (· ≠ dot) = name :=
  List.rdropWhile_append_rtakeWhile

/-- What follows the last dot, if something precedes it. -/
theorem extension_append {stem ext : OsString} (hstem : stem ≠ []) (hext : dot ∉ ext)
    (hne : ext ≠ []) : extension (stem ++ dot :: ext) = some ext := by
  have hdrop : (stem ++ dot :: ext).rdropWhile (· ≠ dot) = stem ++ [dot] :=
    rdropWhile_append_of_forall hext
  have htake : (stem ++ dot :: ext).rtakeWhile (· ≠ dot) = ext := by
    have hparts := rdropWhile_append_rtakeWhile (stem ++ dot :: ext)
    rw [hdrop] at hparts
    exact List.append_cancel_left (hparts.trans (List.append_cons _ _ _))
  have hstem' := List.length_pos_iff.2 hstem
  have hext' := List.length_pos_iff.2 hne
  have hdots : stem ++ dot :: ext ≠ [dot, dot] := by
    intro hsame
    have hlength := congrArg List.length hsame
    simp only [List.length_append, List.length_cons, List.length_nil] at hlength
    omega
  have hlength : ¬ (stem ++ [dot]).length ≤ 1 := by
    rw [List.length_append, List.length_singleton]
    omega
  unfold extension
  rw [if_neg hdots, hdrop, if_neg hlength, htake]

/-- A name with an extension is its stem and the extension. -/
theorem fileStem_extension {name ext : OsString} (h : extension name = some ext) :
    fileStem name ≠ [] ∧ fileStem name ++ dot :: ext = name := by
  have hparts := rdropWhile_append_rtakeWhile name
  unfold fileStem
  rw [h, Option.isSome_some, if_pos rfl]
  unfold extension at h
  split at h
  · exact absurd h (by simp)
  · split at h
    · exact absurd h (by simp)
    · next hlength =>
      obtain rfl := Option.some.inj h
      have hne : name.rdropWhile (· ≠ dot) ≠ [] := by
        intro hnil
        rw [hnil] at hlength
        exact hlength (Nat.zero_le 1)
      have hlast := List.rdropWhile_last_not (· ≠ dot) name hne
      have hdot : (name.rdropWhile (· ≠ dot)).getLast hne = dot := by simpa using hlast
      have hwhole := List.dropLast_append_getLast hne
      rw [hdot] at hwhole
      constructor
      · intro hnil
        have hdrop : (name.rdropWhile (· ≠ dot)).dropLast.length =
            (name.rdropWhile (· ≠ dot)).length - 1 := List.length_dropLast
        rw [hnil, List.length_nil] at hdrop
        omega
      · rw [List.append_cons, hwhole]
        exact hparts

/-- The names with the extension `json`. -/
theorem isJson_iff {name : OsString} :
    isJson name = true ↔ ∃ stem, stem ≠ [] ∧ name = stem ++ ofStr ".json".toList := by
  unfold isJson
  rw [decide_eq_true_iff, Option.bind_eq_some_iff]
  constructor
  · rintro ⟨ext, hext, hjson⟩
    obtain ⟨hstem, hname⟩ := fileStem_extension hext
    obtain rfl := eq_of_toStr hjson
    exact ⟨fileStem name, hstem, hname.symm⟩
  · rintro ⟨stem, hstem, rfl⟩
    refine ⟨ofStr "json".toList, ?_, toStr_ofStr _⟩
    exact extension_append hstem (by decide) (by decide)

/-- A name that ends in something else. -/
theorem isJson_concat_of_ne {stem : OsString} {unit : OsUnit} (hne : unit ≠ .char 'n') :
    isJson (stem ++ [unit]) = false := by
  rw [Bool.eq_false_iff]
  intro hjson
  obtain ⟨rest, -, hsame⟩ := isJson_iff.1 hjson
  have hlast := congrArg List.getLast? hsame
  rw [List.getLast?_concat, List.getLast?_append] at hlast
  exact hne (Option.some.inj hlast)

theorem isJson_append {stem name : OsString} (h : isJson name = true) :
    isJson (stem ++ name) = true := by
  obtain ⟨rest, hrest, rfl⟩ := isJson_iff.1 h
  refine isJson_iff.2 ⟨stem ++ rest, ?_, (List.append_assoc _ _ _).symm⟩
  intro hnil
  exact hrest (List.append_eq_nil_iff.1 hnil).2

theorem isJson_toStringLossy {name : OsString} (h : isJson name = true) :
    isJson (ofStr name.toStringLossy) = true := by
  obtain ⟨stem, hstem, rfl⟩ := isJson_iff.1 h
  refine isJson_iff.2 ⟨ofStr (toStringLossy stem), ?_, ?_⟩
  · intro hnil
    exact hstem (List.map_eq_nil_iff.1 (List.map_eq_nil_iff.1 hnil))
  · unfold toStringLossy ofStr
    rw [List.map_append, List.map_append]
    rfl

end OsString

end Rust
