import Notm.Lib.BTreeSet
import Notm.Mail.Crates
import Notm.Mail.Error

/-!
# Mail addresses

`address.rs`: reading the mailboxes of an address list, writing one, and the two filters that a
reply to all puts its recipients through.

* `mem_keys_dedupeAddresses`, `nodup_keys_dedupeFrom` — deduplication keeps every key, each of them
  once.
* `mem_keys_excludeIdentities` — the filter of the identities takes out their keys and no others.

Both are stated of keys, the lower-case addresses, because two spellings of one mailbox are one
recipient.
-/

namespace Notm.Mail

open Rust

structure MailAddress where
  name : Option Str
  email : Str
deriving DecidableEq, Repr

/-! ## Reading -/

/-- A mailbox with an address that is none is dropped. The blanks around its name and address go,
and an empty name is no name. -/
def mailAddressFromSingle (crates : Crates) (single : SingleInfo) : Option MailAddress :=
  let email := trim single.addr
  if crates.emailAddressIsValid email then
    some { name := (single.displayName.map trim).filter (· ≠ []), email := email }
  else none

/-- The mailboxes of an entry: a group stands for its members. -/
def MailAddr.singles : MailAddr → List SingleInfo
  | single info => [info]
  | group _ addrs => addrs

/-- A text that cannot be read has no addresses; groups give their members. -/
def parseAddressList (crates : Crates) (input : Str) : List MailAddress :=
  match crates.addrparse input with
  | .error _ => []
  | .ok addresses => (addresses.flatMap MailAddr.singles).filterMap (mailAddressFromSingle crates)

/-- Blanks are an empty list; any other text has to be read as a whole, with at least one mailbox,
and each of them valid. -/
def parseAddressListChecked (crates : Crates) (input : Str) : Res (List MailAddress) :=
  if trim input = [] then .ok []
  else
    match crates.addrparse input with
    | .error error => Res.bail (lit "invalid address list: " ++ [.lit error])
    | .ok addresses => do
      let singles := addresses.flatMap MailAddr.singles
      Res.ensure (!singles.isEmpty) (lit "address list contains no mailboxes")
      singles.mapM fun single =>
        match mailAddressFromSingle crates single with
        | some address => .ok address
        | none => Res.bail (lit "address list contains an invalid mailbox")

/-- `extract_single_info` gives the mailbox of a list that has one entry, and that no group. -/
def parseOne (crates : Crates) (input : Str) : Option MailAddress :=
  match crates.addrparse input with
  | .ok [.single info] => mailAddressFromSingle crates info
  | _ => none

/-- Exactly one mailbox. -/
def parseOneChecked (crates : Crates) (input : Str) : Res MailAddress := do
  let addresses ← parseAddressListChecked crates input
  match addresses with
  | [address] => .ok address
  | _ => Res.bail (lit "address field must contain exactly one mailbox")

/-! ## Writing -/

/-- A character that stands in a display name without quotes. -/
def isPlainNameChar (c : Char) : Bool :=
  isAsciiAlphanumeric c.toNat || isAsciiWhitespace c.toNat ||
    "!#$%&'*+-/=?^_`\x7b|\x7d~".toList.contains c

/-- A name with other characters than those of a plain one is quoted, with its quotes and
backslashes escaped. -/
def quoteName (name : Str) : Str :=
  let name := name.map fun c => if c = '\r' ∨ c = '\n' then ' ' else c
  if name.any fun c => !isPlainNameChar c then
    ['"'] ++ replace (replace name '\\' ['\\', '\\']) '"' ['\\', '"'] ++ ['"']
  else name

/-- The name, if there is one, and the address in angle brackets. -/
def formatAddress (address : MailAddress) : Str :=
  match address.name with
  | some name =>
    if name ≠ [] then quoteName name ++ [' ', '<'] ++ address.email ++ ['>'] else address.email
  | none => address.email

/-! ## Recipients -/

/-- What two spellings of one mailbox have in common. -/
def MailAddress.key (crates : Crates) (address : MailAddress) : Str :=
  crates.toLowercase address.email

/-- The loop of `dedupe_addresses`. -/
def dedupeFrom (crates : Crates) (seen : BTreeSet Str) : List MailAddress → List MailAddress
  | [] => []
  | address :: addresses =>
    if address.key crates ∈ seen then dedupeFrom crates seen addresses
    else address :: dedupeFrom crates (seen.insert (address.key crates)) addresses

/-- Of the addresses that differ only in case, the first stays. -/
def dedupeAddresses (crates : Crates) (addresses : List MailAddress) : List MailAddress :=
  dedupeFrom crates .empty addresses

/-- The own addresses, in whatever case. -/
def excludeIdentities (crates : Crates) (addresses : List MailAddress) (identities : List Str) :
    List MailAddress :=
  let identities := BTreeSet.ofList (identities.map crates.toLowercase)
  addresses.filter fun address => address.key crates ∉ identities

variable {crates : Crates} {key : Str} {addresses : List MailAddress}

/-- The keys that are left are the new ones, and each of them is left. The induction is on the list,
with the keys that have been seen in `seen`. -/
theorem mem_keys_dedupeFrom {seen : BTreeSet Str} :
    key ∈ (dedupeFrom crates seen addresses).map (MailAddress.key crates) ↔
      key ∈ addresses.map (MailAddress.key crates) ∧ key ∉ seen := by
  induction addresses generalizing seen with
  | nil => simp [dedupeFrom]
  | cons address addresses ih =>
    unfold dedupeFrom
    rw [List.map_cons, List.mem_cons]
    split
    · next hseen =>
      rw [ih]
      constructor
      · exact fun h => ⟨Or.inr h.1, h.2⟩
      · rintro ⟨rfl | hmem, hnew⟩
        · exact absurd hseen hnew
        · exact ⟨hmem, hnew⟩
    · next hnew =>
      rw [List.map_cons, List.mem_cons, ih, BTreeSet.mem_insert, not_or]
      constructor
      · rintro (rfl | ⟨hmem, -, hnot⟩)
        · exact ⟨Or.inl rfl, hnew⟩
        · exact ⟨Or.inr hmem, hnot⟩
      · rintro ⟨hmem, hnot⟩
        by_cases heq : key = address.key crates
        · exact Or.inl heq
        · exact Or.inr ⟨hmem.resolve_left heq, heq, hnot⟩

/-- No key is left twice: once it is kept it has been seen. -/
theorem nodup_keys_dedupeFrom (seen : BTreeSet Str) :
    ((dedupeFrom crates seen addresses).map (MailAddress.key crates)).Nodup := by
  induction addresses generalizing seen with
  | nil => exact List.nodup_nil
  | cons address addresses ih =>
    unfold dedupeFrom
    split
    · exact ih seen
    · rw [List.map_cons, List.nodup_cons]
      refine ⟨fun hmem => ?_, ih _⟩
      -- The key of the first address is among the seen ones for the rest.
      exact (mem_keys_dedupeFrom.1 hmem).2 (BTreeSet.mem_insert.2 (Or.inl rfl))

theorem mem_keys_dedupeAddresses :
    key ∈ (dedupeAddresses crates addresses).map (MailAddress.key crates) ↔
      key ∈ addresses.map (MailAddress.key crates) := by
  unfold dedupeAddresses
  rw [mem_keys_dedupeFrom]
  exact and_iff_left BTreeSet.not_mem_empty

/-- The keys of the identities are taken out, and no others. -/
theorem mem_keys_excludeIdentities {identities : List Str} :
    key ∈ (excludeIdentities crates addresses identities).map (MailAddress.key crates) ↔
      key ∈ addresses.map (MailAddress.key crates) ∧
        key ∉ identities.map crates.toLowercase := by
  unfold excludeIdentities
  simp only [List.mem_map, List.mem_filter, decide_eq_true_eq, BTreeSet.mem_ofList]
  constructor
  · rintro ⟨address, ⟨hmem, hnot⟩, rfl⟩
    exact ⟨⟨address, hmem, rfl⟩, hnot⟩
  · rintro ⟨⟨address, hmem, rfl⟩, hnot⟩
    exact ⟨address, ⟨hmem, hnot⟩, rfl⟩

/-- A filter leaves no key twice that did not occur twice. -/
theorem nodup_keys_excludeIdentities {identities : List Str}
    (h : (addresses.map (MailAddress.key crates)).Nodup) :
    ((excludeIdentities crates addresses identities).map (MailAddress.key crates)).Nodup :=
  h.sublist (List.filter_sublist.map _)

end Notm.Mail
