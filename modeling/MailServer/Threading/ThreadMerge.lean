import MailServer.Lib.InsertionMap
import Mathlib.Data.List.Nodup

/-!
# Counting the messages of threads

`ThreadMerge` (`email/src/message/ingest.rs`) gathers the messages found in each thread and picks
the thread that the others are merged into.
-/

namespace MailServer.Threading

open List

/-- `ThreadMerge`: the documents added to each thread id. -/
abbrev ThreadMerge := InsertionMap ℕ (List ℕ)

def u32Max : ℕ := 4294967295

namespace ThreadMerge

def add (merge : ThreadMerge) (threadId documentId : ℕ) : ThreadMerge :=
  merge.alter threadId [] (· ++ [documentId])

def numThreadIds (merge : ThreadMerge) : ℕ := merge.length

def threadIds (merge : ThreadMerge) : List ℕ := merge.keys

/-- The body of the loop of `merge_thread_id`: `max_thread_id` and `max_count` after a group. -/
def maxThread (best : ℕ × ℕ) (group : ℕ × List ℕ) : ℕ × ℕ :=
  match compare group.2.length best.2 with
  | .gt => (group.1, group.2.length)
  | .eq => if group.1 < best.1 then (group.1, best.2) else best
  | .lt => best

/-- `ThreadMerge::merge_thread_id`, walking the entries in the order given. -/
def mergeThreadId (entries : ThreadMerge) : ℕ := (entries.foldl maxThread (u32Max, 0)).1

/-- `ThreadMerge::merge`: `thread_id` and `merge_ids` of the result, found in one walk. -/
def merge (entries : ThreadMerge) : ℕ × List ℕ :=
  let (best, mergeIds) := entries.foldl
    (fun (best, mergeIds) group => (maxThread best group, mergeIds ++ [group.1]))
    ((u32Max, 0), ([] : List ℕ))
  (best.1, mergeIds)

end ThreadMerge

end MailServer.Threading
