import BuildScript.OrderedSet
import Std.Data.HashSet.Lemmas

/-!
# First occurrences

An ordered set that grows value by value keeps each value once, where it came first, and
its index knows just the values that came. Values are told apart by their test for equality,
which may be coarser than being the same.
-/

namespace BuildScript.OrderedSet

variable {α : Type} [BEq α]

/-! ## Lists without repetitions -/

/-- Values that equal one which is not asked for may be left out. -/
theorem contains_filter_of_ne [EquivBEq α] {value first : α} (differ : (value == first) = false)
    (values : List α) :
    (values.filter fun other => !other == first).contains value = values.contains value := by
  rw [List.contains_eq_any_beq, List.contains_eq_any_beq, List.any_filter]
  congr 1
  funext other
  cases same : value == other with
  | false => exact Bool.and_false _
  | true => rw [BEq.congr_left same] at differ; rw [differ]; rfl

/-- One more value is a first occurrence if it is new. -/
theorem eraseDups_concat [EquivBEq α] (values : List α) (value : α) :
    (values ++ [value]).eraseDups =
      if values.contains value then values.eraseDups else values.eraseDups ++ [value] := by
  induction length : values.length using Nat.strongRecOn generalizing values with
  | ind size ih =>
      cases values with
      | nil => simp [List.eraseDups_cons]
      | cons first later =>
          rw [List.cons_append, List.eraseDups_cons, List.eraseDups_cons, List.filter_append,
            List.contains_cons]
          cases same : value == first with
          | true => simp [same]
          | false =>
              have shorter : (later.filter fun other => !other == first).length < size := by
                rw [← length]
                exact Nat.lt_succ_of_le (List.length_filter_le _ later)
              have alone : [value].filter (fun other => !other == first) = [value] := by
                simp [same]
              rw [alone, ih _ shorter _ rfl, contains_filter_of_ne same, Bool.false_or]
              split <;> rfl

/-- In a list without repetitions every value occurs for the first time. -/
theorem eraseDups_of_distinct [EquivBEq α] {values : List α}
    (distinct : values.Pairwise fun first second => (first == second) = false) :
    values.eraseDups = values := by
  induction distinct with
  | nil => rfl
  | @cons first later apart distinct ih =>
      have kept : later.filter (fun other => !other == first) = later := by
        refine List.filter_eq_self.2 fun other member => ?_
        rw [BEq.comm, apart other member]
        rfl
      rw [List.eraseDups_cons, kept, ih]

/-! ## Ordered sets -/

variable [Hashable α]

theorem ofList_concat (values : List α) (value : α) :
    ofList (values ++ [value]) = ((ofList values).insert value).2 := by
  rw [ofList, insertAll, List.foldl_append]
  rfl

theorem insert_of_contains {set : OrderedSet α} {value : α} (known : set.contains value = true) :
    set.insert value = (false, set) :=
  if_pos known

theorem insert_of_not_contains {set : OrderedSet α} {value : α}
    (fresh : set.contains value = false) :
    set.insert value = (true, ⟨set.elements ++ [value], set.seen.insert value⟩) :=
  if_neg (Bool.eq_false_iff.1 fresh)

/-- The ways to an ordered set, with the values that came into it, in order. -/
inductive Reached : OrderedSet α → List α → Prop where
  | empty : Reached empty []
  | insert {set : OrderedSet α} {values : List α} (earlier : Reached set values) (value : α) :
      Reached (set.insert value).2 (values ++ [value])
  | ofList (values : List α) : Reached (ofList values) values

/-- The set has the values, each once and in order of the first occurrences; so has its index. -/
structure Keeps (set : OrderedSet α) (values : List α) : Prop where
  distinct : set.elements.Pairwise fun first second => (first == second) = false
  index : set.seen.toList.Perm set.elements
  elements : set.elements = values.eraseDups
  contains : ∀ value, set.contains value = values.contains value

/-- The set has the values, each once and in order of the first occurrences. -/
structure Lists (set : OrderedSet α) (values : List α) : Prop where
  elements : set.toList = values.eraseDups
  index : ∀ value, set.contains value = true ↔ value ∈ values

theorem Keeps.empty : (empty : OrderedSet α).Keeps [] :=
  ⟨.nil, by simp [OrderedSet.empty], rfl, by simp [OrderedSet.contains, OrderedSet.empty]⟩

section

variable [EquivBEq α] [LawfulHashable α] {set : OrderedSet α} {values : List α}

/-- The index of a set answers as its elements would. -/
theorem Keeps.contains_eq (keeps : set.Keeps values) (value : α) :
    set.contains value = set.elements.contains value := by
  rw [OrderedSet.contains, ← Std.HashSet.contains_toList, keeps.index.contains_eq]

/-- One step: one more value comes last if it is new, and changes nothing otherwise. -/
theorem Keeps.insert (keeps : set.Keeps values) (value : α) :
    (set.insert value).2.Keeps (values ++ [value]) := by
  cases known : set.contains value with
  | true =>
      have repeated : values.contains value = true := keeps.contains value ▸ known
      rw [insert_of_contains known]
      refine ⟨keeps.distinct, keeps.index, ?_, fun other => ?_⟩
      · rw [eraseDups_concat, if_pos repeated]
        exact keeps.elements
      · rw [List.contains_append, List.contains_cons, List.contains_nil, Bool.or_false,
          ← keeps.contains]
        cases same : other == value with
        | false => exact (Bool.or_false _).symm
        | true =>
            rw [Bool.or_true, ← known]
            exact Std.HashSet.contains_congr same
  | false =>
      have fresh : values.contains value = false := keeps.contains value ▸ known
      rw [insert_of_not_contains known]
      refine ⟨?_, ?_, ?_, fun other => ?_⟩
      · refine List.pairwise_append.2 ⟨keeps.distinct, List.pairwise_singleton _ _, ?_⟩
        intro earlier member last isLast
        rw [keeps.contains_eq, List.contains_eq_any_beq, List.any_eq_false] at known
        rw [List.mem_singleton.1 isLast, BEq.comm]
        exact Bool.eq_false_iff.2 (known earlier member)
      · have missing : ¬value ∈ set.seen := Bool.eq_false_iff.1 known
        have grown := Std.HashSet.toList_insert_perm (m := set.seen) (k := value)
        rw [if_neg missing] at grown
        exact grown.trans ((keeps.index.cons value).trans (List.perm_append_singleton value _).symm)
      · rw [eraseDups_concat, if_neg (Bool.eq_false_iff.1 fresh), ← keeps.elements]
      · rw [List.contains_append, List.contains_cons, List.contains_nil, Bool.or_false,
          ← keeps.contains, Bool.or_comm, BEq.comm]
        exact Std.HashSet.contains_insert

/-- A whole run: the set keeps all values that come, one after another. -/
theorem Keeps.insertAll (keeps : set.Keeps values) (more : List α) :
    (set.insertAll more).Keeps (values ++ more) := by
  induction more generalizing set values with
  | nil =>
      rw [List.append_nil]
      exact keeps
  | cons value later ih =>
      have grown := ih (keeps.insert value)
      rw [List.append_assoc] at grown
      exact grown

theorem keeps_ofList (values : List α) : (ofList values).Keeps values :=
  Keeps.empty.insertAll values

/-- However an ordered set was reached, it keeps the values that came into it. -/
theorem Reached.keeps (reached : set.Reached values) : set.Keeps values := by
  induction reached with
  | empty => exact .empty
  | insert earlier value ih => exact ih.insert value
  | ofList values => exact keeps_ofList values

end

/-- Where equal values are the same, a set of values has just these values. -/
theorem lists_ofList [LawfulBEq α] (values : List α) : (ofList values).Lists values := by
  have keeps := keeps_ofList values
  refine ⟨keeps.elements, fun value => ?_⟩
  rw [keeps.contains, List.contains_iff_mem]

end BuildScript.OrderedSet
