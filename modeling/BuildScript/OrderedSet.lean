import Std.Data.HashSet

/-!
# Ordered sets

A set that remembers the order in which its elements first came. The elements are
kept as a list, and beside it a hash set answers membership.
-/

namespace BuildScript

/-- A set in order of first insertion. -/
structure OrderedSet (α : Type) [BEq α] [Hashable α] where
  elements : List α
  seen : Std.HashSet α

namespace OrderedSet

variable {α : Type} [BEq α] [Hashable α]

def empty : OrderedSet α :=
  ⟨[], ∅⟩

def contains (set : OrderedSet α) (value : α) : Bool :=
  set.seen.contains value

/-- The set with the value, and whether the value is new. -/
def insert (set : OrderedSet α) (value : α) : Bool × OrderedSet α :=
  if set.seen.contains value then (false, set)
  else (true, ⟨set.elements ++ [value], set.seen.insert value⟩)

def insertAll (set : OrderedSet α) (values : List α) : OrderedSet α :=
  values.foldl (fun grown value => (grown.insert value).2) set

/-- The set of the values, in order of their first occurrences. -/
def ofList (values : List α) : OrderedSet α :=
  empty.insertAll values

def toList (set : OrderedSet α) : List α :=
  set.elements

def size (set : OrderedSet α) : Nat :=
  set.elements.length

def isEmpty (set : OrderedSet α) : Bool :=
  set.elements.isEmpty

/-- Whether two sets have the same elements in the same order and the same index. -/
def equals (first second : OrderedSet α) : Bool :=
  first.elements == second.elements && first.seen.size == second.seen.size &&
    first.seen.all fun value => second.seen.contains value

instance : BEq (OrderedSet α) := ⟨equals⟩

end OrderedSet

end BuildScript
