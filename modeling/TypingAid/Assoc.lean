/-!
# Association lists

A map whose entries keep the order in which their keys first came in. `Assoc.put` replaces the value
of a key where it stands, or adds the key at the end.
-/

namespace TypingAid.Assoc

variable {κ α : Type} [DecidableEq κ]

/-- The value of a key. -/
def get? (k : κ) : List (κ × α) → Option α
  | [] => none
  | (k', a) :: rest => if k' = k then some a else get? k rest

/-- The key has a value. -/
def has (k : κ) (m : List (κ × α)) : Bool := (get? k m).isSome

/-- Gives a key a value. -/
def put (k : κ) (a : α) : List (κ × α) → List (κ × α)
  | [] => [(k, a)]
  | (k', a') :: rest => if k' = k then (k, a) :: rest else (k', a') :: put k a rest

/-- Takes a key out. -/
def erase (k : κ) : List (κ × α) → List (κ × α)
  | [] => []
  | (k', a) :: rest => if k' = k then rest else (k', a) :: erase k rest

/-- The map of a list of entries in which a later entry for a key replaces an earlier one. -/
def ofList (entries : List (κ × α)) : List (κ × α) :=
  entries.foldl (fun m e => put e.1 e.2 m) []

/-- What entries have under each key, in the order in which they come. The keys are in the order in
which they come first. -/
def group (entries : List (κ × α)) : List (κ × List α) :=
  entries.foldl (fun m e => put e.1 ((get? e.1 m).getD [] ++ [e.2]) m) []

end TypingAid.Assoc
