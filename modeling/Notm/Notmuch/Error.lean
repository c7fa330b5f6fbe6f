import Notm.Lib.Except
import Notm.Lib.Rust

/-!
# Errors of the database wrapper

The errors that the tag operations return, with their texts.
-/

namespace Notm.Notmuch

open Rust

/-- The revision of a database, which counts its commits, and the identity of the database that it
counts for. -/
structure Revision where
  revision : Nat
  uuid : Str
deriving DecidableEq

inductive Error where
  /-- The text names the status and its code. -/
  | status (text : Str)
  | null (function : Str)
  | nul (error : Str)
  | inconsistentThreadMessages (threadId : Str) (expected loaded : Nat)
  | threadMessageLimitExceeded (threadId : Str) (total limit : Nat)
  | threadTagSnapshotChanged (expected observed : Revision)
  | threadTagSnapshotFailed (detail : Str)
  | invalidTag (tag : Str)
deriving DecidableEq

def Error.text : Error → Str
  | .status text => "libnotmuch returned ".toList ++ text
  | .null function => "libnotmuch returned a null pointer for ".toList ++ function
  | .nul error => "string contains interior NUL: ".toList ++ error
  | .inconsistentThreadMessages threadId expected loaded =>
    "thread `".toList ++ threadId ++
      "` changed or returned inconsistent paging results: expected ".toList ++ natText expected ++
      " message(s), loaded ".toList ++ natText loaded
  | .threadMessageLimitExceeded threadId total limit =>
    "thread `".toList ++ threadId ++ "` contains ".toList ++ natText total ++
      " message(s), exceeding the requested safety limit of ".toList ++ natText limit ++
      "; no partial thread was loaded".toList
  | .threadTagSnapshotChanged expected observed =>
    "Notmuch database revision changed while capturing exact thread tag targets (".toList ++
      expected.uuid ++ ['@'] ++ natText expected.revision ++ " -> ".toList ++ observed.uuid ++
      ['@'] ++ natText observed.revision ++ "); no tag mutation was attempted".toList
  | .threadTagSnapshotFailed detail =>
    "failed to capture a consistent exact thread tag target snapshot: ".toList ++ detail ++
      "; no tag mutation was attempted".toList
  | .invalidTag tag => "invalid notmuch tag `".toList ++ tag ++ ['`']

/-- `CString::new`: the error when there is a NUL inside. -/
def cStringError (s : Str) : Option Str :=
  if '\x00' ∈ s then
    some ("nul byte found in provided data at position: ".toList ++
      natText (Utf8.len (s.takeWhile (· ≠ '\x00'))))
  else none

/-- A tag is not empty, has at most 200 bytes, and neither blanks nor NUL. -/
def validateTag (tag : Str) : Except Error Unit :=
  if tag.isEmpty || 200 < Utf8.len tag || tag.any isWhitespace || tag.contains '\x00' then
    .error (.invalidTag tag)
  else .ok ()

end Notm.Notmuch
