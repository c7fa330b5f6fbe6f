import Notm.Notmuch.Error
import Mathlib

/-!
# Thread summaries and pages of a search

`search_threads` walks the threads that a query finds, passes over those before the offset and
stops when the page is full.

* `collectThreads` — the loop of `search_threads`, with its offset and its limit.
* `searchThreads_eq` — a page is the part of the result list from the offset on, up to the limit.
-/

namespace Notm.Notmuch

open Rust

structure ThreadSummary where
  threadId : Str
  tags : List Str
  hasUnread : Bool
  isFlagged : Bool
deriving DecidableEq

structure QueryOptions where
  limit : Nat
  offset : Nat
  excludedTags : List Str
deriving DecidableEq

/-- The loop of `search_threads` over the threads that the query has left. -/
def collectThreads (options : QueryOptions) (out : List ThreadSummary) (skipped : Nat) :
    List ThreadSummary → List ThreadSummary
  | [] => out
  | thread :: threads =>
    let out' :=
      if options.offset ≤ skipped ∧ out.length < options.limit then out ++ [thread] else out
    if options.limit ≤ out'.length then out'
    else collectThreads options out' (skipped + 1) threads

/-- `search_threads`, from all the threads that the query finds. -/
def searchThreads (found : List ThreadSummary) (options : QueryOptions) : List ThreadSummary :=
  collectThreads options [] 0 found

/-- Once the offset is passed the loop takes what the limit leaves. -/
theorem collectThreads_after (options : QueryOptions) {out threads : List ThreadSummary}
    {skipped : Nat} (hoffset : options.offset ≤ skipped) (hroom : out.length < options.limit) :
    collectThreads options out skipped threads =
      out ++ threads.take (options.limit - out.length) := by
  induction threads generalizing out skipped with
  | nil => simp [collectThreads]
  | cons thread threads ih =>
    obtain ⟨n, hn⟩ : ∃ n, options.limit - out.length = n + 1 :=
      ⟨options.limit - out.length - 1, by omega⟩
    have hlength : (out ++ [thread]).length = out.length + 1 := by simp
    have htaken : options.offset ≤ skipped ∧ out.length < options.limit := ⟨hoffset, hroom⟩
    unfold collectThreads
    dsimp only
    rw [if_pos htaken, hn, List.take_succ_cons]
    split
    · next hfull =>
      obtain rfl : n = 0 := by omega
      rw [List.take_zero]
    · next hfull =>
      rw [ih (by omega) (by omega), List.append_assoc]
      have hrest : options.limit - (out ++ [thread]).length = n := by omega
      rw [hrest]
      rfl

/-- Before the offset the loop takes nothing. -/
theorem collectThreads_before (options : QueryOptions) {threads : List ThreadSummary}
    {skipped : Nat} (hoffset : skipped ≤ options.offset) (hlimit : 0 < options.limit) :
    collectThreads options [] skipped threads =
      (threads.drop (options.offset - skipped)).take options.limit := by
  induction threads generalizing skipped with
  | nil => simp [collectThreads]
  | cons thread threads ih =>
    rcases Nat.eq_or_lt_of_le hoffset with rfl | hlt
    · have hroom : ([] : List ThreadSummary).length < options.limit := hlimit
      rw [Nat.sub_self, List.drop_zero, collectThreads_after options (Nat.le_refl _) hroom]
      rfl
    · unfold collectThreads
      dsimp only
      have hpassed : ¬ (options.offset ≤ skipped ∧ ([] : List ThreadSummary).length <
          options.limit) := fun h => absurd h.1 (by omega)
      have hempty : ¬ options.limit ≤ ([] : List ThreadSummary).length := Nat.not_le_of_lt hlimit
      rw [if_neg hpassed, if_neg hempty, ih (by omega)]
      have hdrop : options.offset - skipped = (options.offset - (skipped + 1)) + 1 := by omega
      rw [hdrop, List.drop_succ_cons]

/-- A page is the part of the result list from the offset on, up to the limit. -/
theorem searchThreads_eq (found : List ThreadSummary) (options : QueryOptions)
    (hlimit : 0 < options.limit) :
    searchThreads found options = (found.drop options.offset).take options.limit :=
  collectThreads_before options (Nat.zero_le _) hlimit

end Notm.Notmuch
