/-! # Breadth-first search

    The search of a finite graph of numbers that lists everything reachable in the order of
    discovery.  What is found leaves the set of what remains, so the search ends on every graph. -/

namespace ActorIdl

/-- The numbers among `remaining` that can be reached from `pending`, in breadth-first order of
    discovery, each once. -/
def breadthFirst (next : Nat → List Nat) (remaining pending : List Nat) : List Nat :=
  match _h : pending.dropWhile (!remaining.contains ·) with
  | [] => []
  | found :: rest => found :: breadthFirst next (remaining.erase found) (rest ++ next found)
termination_by remaining.length
decreasing_by
  have mem : found ∈ remaining := by
    have := List.head?_dropWhile_not (fun x => !remaining.contains x) pending
    rw [_h] at this
    simpa using this
  have := List.length_erase_of_mem mem
  have := List.length_pos_of_mem mem
  omega

end ActorIdl
