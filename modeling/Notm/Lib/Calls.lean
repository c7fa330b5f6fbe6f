import Mathlib

/-!
# Calls to a service, and which of them a later call supersedes

A service is asked for one thing at a time: a request, or a cancellation, supersedes the requests
before it. The history of the calls says which requests are superseded, and nothing else does.

* `Record.superseded_of_mem` — a further call supersedes every request before it.
* `Record.not_superseded_of_last` — the newest request is superseded by none.
* `Record.generation_unique` — a number names one request.
-/

namespace Calls

/-- A call: the request of a number, under a generation, or a cancellation. -/
inductive Record where
  | submit (id generation : Nat)
  | cancel
deriving DecidableEq, Repr

namespace Record

/-- The request of a call. -/
def submitted : Record → Option Nat
  | submit id _ => some id
  | cancel => none

/-- A later call follows the request `id`. -/
def Superseded (history : List Record) (id : Nat) : Prop :=
  ∃ before generation after, history = before ++ submit id generation :: after ∧ after ≠ []

theorem Superseded.append {history : List Record} {id : Nat}
    (h : Superseded history id) (later : List Record) :
    Superseded (history ++ later) id := by
  obtain ⟨before, generation, after, rfl, hafter⟩ := h
  refine ⟨before, generation, after ++ later, by simp, ?_⟩
  exact List.append_ne_nil_of_left_ne_nil hafter later

/-- A call supersedes every request before it. -/
theorem superseded_of_mem {history : List Record} {id generation : Nat}
    (h : submit id generation ∈ history) (call : Record) :
    Superseded (history ++ [call]) id := by
  obtain ⟨before, after, rfl⟩ := List.append_of_mem h
  refine ⟨before, generation, after ++ [call], by simp, ?_⟩
  exact List.append_ne_nil_of_right_ne_nil after (List.cons_ne_nil call [])

/-- The last call is superseded by none when no two requests bear one number. -/
theorem not_superseded_of_last {history : List Record} {id generation : Nat}
    (hids : (history.filterMap submitted).Nodup)
    (hlast : history.getLast? = some (submit id generation)) : ¬ Superseded history id := by
  rintro ⟨before, generation', after, rfl, hafter⟩
  obtain ⟨later, last, hconcat⟩ := (List.eq_nil_or_concat after).resolve_left hafter
  rw [List.concat_eq_append] at hconcat
  subst hconcat
  have hends : (before ++ submit id generation' :: (later ++ [last])).getLast? = some last := by
    rw [← List.cons_append, ← List.append_assoc, List.getLast?_concat]
  obtain rfl : last = submit id generation := Option.some.inj (hends.symm.trans hlast)
  -- the number stands in the list once for each of the two calls
  have htwice := List.nodup_iff_count_le_one.1 hids id
  simp [submitted, List.filterMap_append, List.count_append] at htwice
  omega

/-- Two requests of one number are one request. -/
theorem generation_unique {history : List Record} {id generation generation' : Nat}
    (hids : (history.filterMap submitted).Nodup) (h : submit id generation ∈ history)
    (h' : submit id generation' ∈ history) : generation' = generation := by
  obtain ⟨before, after, rfl⟩ := List.append_of_mem h
  have hcount := List.nodup_iff_count_le_one.1 hids id
  simp [submitted, List.filterMap_append, List.count_append] at hcount
  have hpresent : ∀ part : List Record, submit id generation' ∈ part →
      0 < (part.filterMap submitted).count id := by
    intro part hpart
    exact List.count_pos_iff.2 (List.mem_filterMap.2 ⟨_, hpart, rfl⟩)
  rcases List.mem_append.1 h' with hbefore | hrest
  · have htwice := hpresent before hbefore
    omega
  · rcases List.mem_cons.1 hrest with heq | hafter
    · exact (Record.submit.inj heq).2
    · have htwice := hpresent after hafter
      omega

end Record

end Calls
