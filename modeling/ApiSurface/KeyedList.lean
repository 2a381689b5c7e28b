/-!
# Lists with keys

Finite maps as lists of pairs whose keys increase strictly, and finite sets as sublists of the
list of all values. Both have one form for each content, and that form is the order in which they
are written.
-/

namespace ApiSurface.KeyedList

variable {α β : Type}

/-- The value at a key. -/
def get? [DecidableEq α] (l : List (α × β)) (k : α) : Option β :=
  (l.find? fun p => p.1 = k).map (·.2)

/-- Set the value at a key, before the first greater key. -/
def insert [Ord α] (k : α) (v : β) : List (α × β) → List (α × β)
  | [] => [(k, v)]
  | (k', v') :: r =>
    match compare k k' with
    | .lt => (k, v) :: (k', v') :: r
    | .eq => (k, v) :: r
    | .gt => (k', v') :: insert k v r

/-- Change the value at a key; nothing happens when there is none. -/
def modify [DecidableEq α] (k : α) (f : β → β) (l : List (α × β)) : List (α × β) :=
  l.map fun p => if p.1 = k then (p.1, f p.2) else p

/-- The set `l` with `x` in it, listed in the order of `all`. -/
def addFlag [BEq α] (all : List α) (x : α) (l : List α) : List α :=
  all.filter fun y => y == x || l.contains y

end ApiSurface.KeyedList
