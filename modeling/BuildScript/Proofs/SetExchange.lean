import BuildScript.Model.Exchange
import BuildScript.Proofs.FirstOccurrences

/-!
# Ordered sets as lists

An ordered set is written as the list of its elements and read back by inserting them. Its
index follows from its elements, so that two sets are equal if their elements are, and a set
that is read back is the one that was written. The same holds of the sets inside a model.
-/

namespace BuildScript

namespace OrderedSet

variable {α : Type} [BEq α]

/-! ## Equal lists -/

/-- Lists that are equal member by member are of the same length. -/
theorem length_eq_of_beq {first second : List α} (same : (first == second) = true) :
    first.length = second.length := by
  rw [List.beq_eq_decide] at same
  split at same
  · assumption
  · cases same

/-- Lists that are equal member by member contain the same values. -/
theorem contains_of_beq {first second : List α} (same : (first == second) = true) {value : α}
    (member : value ∈ first) : second.contains value = true := by
  rw [List.beq_eq_decide] at same
  split at same
  · obtain ⟨index, bound, rfl⟩ := List.mem_iff_getElem.1 member
    rw [List.contains_eq_any_beq, List.any_eq_true]
    exact ⟨_, List.getElem_mem _, of_decide_eq_true same index bound⟩
  · cases same

/-! ## Sets -/

variable [Hashable α] {set other : OrderedSet α} {values otherValues : List α}

/-- Inserting a value that never came appends it; inserting any other changes nothing. -/
def Inserts (set : OrderedSet α) (values : List α) (value : α) : Prop :=
  (values.contains value = false ∧ (set.insert value).1 = true ∧
    (set.insert value).2.toList = set.toList ++ [value]) ∨
  (values.contains value = true ∧ set.insert value = (false, set))

theorem Keeps.inserts (keeps : set.Keeps values) (value : α) : set.Inserts values value := by
  rw [Inserts, ← keeps.contains]
  cases known : set.contains value with
  | true => exact .inr ⟨rfl, insert_of_contains known⟩
  | false =>
      rw [insert_of_not_contains known]
      exact .inl ⟨rfl, rfl, rfl⟩

variable [EquivBEq α] [LawfulHashable α]

theorem Keeps.size_seen (keeps : set.Keeps values) : set.seen.size = set.elements.length := by
  rw [← Std.HashSet.length_toList, keeps.index.length_eq]

/-- Two sets are equal if and only if their elements are. -/
theorem Keeps.beq_iff (keeps : set.Keeps values) (otherKeeps : other.Keeps otherValues) :
    (set == other) = true ↔ (set.toList == other.toList) = true := by
  change set.equals other = true ↔ (set.elements == other.elements) = true
  rw [equals, Bool.and_eq_true, Bool.and_eq_true, and_assoc]
  refine ⟨And.left, fun same => ⟨same, ?_, ?_⟩⟩
  · rw [keeps.size_seen, otherKeeps.size_seen, length_eq_of_beq same, beq_self_eq_true]
  · rw [← Std.HashSet.all_toList, List.all_eq_true]
    intro value member
    have contained := contains_of_beq same (keeps.index.mem_iff.1 member)
    rw [← otherKeeps.contains_eq] at contained
    exact contained

/-- A set that is made of the elements of a set has the same elements. -/
theorem Keeps.ofList_toList (keeps : set.Keeps values) :
    (ofList set.toList).toList = set.toList :=
  (keeps_ofList set.toList).elements.trans (eraseDups_of_distinct keeps.distinct)

theorem Keeps.ofList_toList_beq (keeps : set.Keeps values) :
    (ofList set.toList == set) = true := by
  rw [(keeps_ofList set.toList).beq_iff keeps, keeps.ofList_toList]
  exact BEq.rfl

end OrderedSet

/-! ## Data -/

namespace Data

theorem mapM_map {β : Type} (read : Data → Option β) (write : β → Data)
    (inverse : ∀ item, read (write item) = some item) (items : List β) :
    (items.map write).mapM read = some items := by
  induction items with
  | nil => rfl
  | cons item items ih => simp [inverse, ih]

theorem strings?_ofStrings (texts : List String) : (ofStrings texts).strings? = some texts :=
  mapM_map string? .string (fun _ => rfl) texts

end Data

theorem Plugin.ofData?_toData (plugin : Plugin) : Plugin.ofData? plugin.toData = some plugin := by
  cases plugin with
  | mk id version => cases version <;> rfl

theorem Task.ofData?_toData (task : Task) : Task.ofData? task.toData = some task := by
  cases task with
  | mk name mainClass => cases mainClass <;> rfl

namespace Model

theorem ofData?_toData (model : Model) : ofData? model.toData =
    some ⟨.ofList model.repositories.toList, model.dependencies, .ofList model.plugins.toList,
      model.tasks⟩ := by
  have fields : model.toData.fields?
      [⟨"repositories", false⟩, ⟨"dependencies", false⟩, ⟨"declared_plugins", false⟩,
        ⟨"task_specs", false⟩] =
      some [.ofStrings model.repositories.toList, .ofStrings model.dependencies,
        .list (model.plugins.toList.map Plugin.toData), .list (model.tasks.map Task.toData)] := rfl
  rw [ofData?]
  simp only [fields, Data.items?, Data.strings?_ofStrings, Option.bind_eq_bind, Option.bind_some,
    Data.mapM_map _ _ Plugin.ofData?_toData, Data.mapM_map _ _ Task.ofData?_toData]
  rfl

/-- The ways to a model: it grows by increments from the empty model, or is read from data. -/
inductive Arises : Model → Prop where
  | empty : Arises empty
  | apply {model : Model} (earlier : Arises model) (increment : Increment) :
      Arises (model.apply increment)
  | read {data : Data} {model : Model} (found : ofData? data = some model) : Arises model

theorem Arises.foldl {model : Model} (arises : Arises model) (increments : List Increment) :
    Arises (increments.foldl Model.apply model) := by
  induction increments generalizing model with
  | nil => exact arises
  | cons increment later ih => exact ih (arises.apply increment)

/-- Both sets of a model are reached by insertions. -/
structure HasReached (model : Model) : Prop where
  repositories : ∃ urls, model.repositories.Reached urls
  plugins : ∃ plugins, model.plugins.Reached plugins

theorem HasReached.apply {model : Model} (has : model.HasReached) (increment : Increment) :
    (model.apply increment).HasReached := by
  obtain ⟨⟨urls, repositories⟩, ⟨declared, plugins⟩⟩ := has
  cases increment with
  | plugin plugin => exact ⟨⟨_, repositories⟩, ⟨_, plugins.insert plugin⟩⟩
  | repository url => exact ⟨⟨_, repositories.insert url⟩, ⟨_, plugins⟩⟩
  | dependency coordinate => exact ⟨⟨_, repositories⟩, ⟨_, plugins⟩⟩
  | task task => exact ⟨⟨_, repositories⟩, ⟨_, plugins⟩⟩

theorem HasReached.of_read {data : Data} {model : Model} (found : ofData? data = some model) :
    model.HasReached := by
  rw [ofData?] at found
  obtain ⟨fields, _, read⟩ := Option.bind_eq_some_iff.1 found
  split at read
  · simp only [Option.bind_eq_bind, Option.bind_eq_some_iff] at read
    obtain ⟨_, _, pluginList, _, _, _, taskList, _, urls, _, coordinates, _, same⟩ := read
    cases same
    exact ⟨⟨_, .ofList _⟩, ⟨_, .ofList _⟩⟩
  · cases read

theorem Arises.hasReached {model : Model} (arises : Arises model) : model.HasReached := by
  induction arises with
  | empty => exact ⟨⟨_, .empty⟩, ⟨_, .empty⟩⟩
  | apply earlier increment ih => exact ih.apply increment
  | read found => exact .of_read found

/-- A model whose sets are reached by insertions is read back as it was written. -/
theorem HasReached.reads_back {model : Model} (has : model.HasReached) :
    ∃ back, ofData? model.toData = some back ∧ (back == model) = true := by
  obtain ⟨⟨urls, repositories⟩, ⟨declared, plugins⟩⟩ := has
  refine ⟨_, model.ofData?_toData, ?_⟩
  change equals _ _ = true
  simp only [equals, repositories.keeps.ofList_toList_beq, plugins.keeps.ofList_toList_beq,
    beq_self_eq_true, Bool.and_self]

end Model

/-! ## Faithful sets -/

/--
An ordered set that is reached in any way keeps the values that came into it, each once and in
order of the first occurrences, in its elements as in its index. So sets are equal if their
elements are, and a set that is written as a list and read back is equal to what it was, by
itself or inside a model.
-/
theorem OrderedSet.reached_sets_faithful {α : Type} [BEq α] [Hashable α] [EquivBEq α]
    [LawfulHashable α] :
    (∀ (set : OrderedSet α) (values : List α), set.Reached values →
      set.Keeps values ∧ ∀ value, set.Inserts values value) ∧
    (∀ (set other : OrderedSet α) (values otherValues : List α), set.Reached values →
      other.Reached otherValues →
        ((set == other) = true ↔ (set.toList == other.toList) = true)) ∧
    (∀ (set : OrderedSet α) (values : List α), set.Reached values →
      (ofList set.toList == set) = true) ∧
    ∀ model : Model, model.Arises →
      ∃ back, Model.ofData? model.toData = some back ∧ (back == model) = true := by
  refine ⟨?_, ?_, ?_, ?_⟩
  · intro set values reached
    exact ⟨reached.keeps, reached.keeps.inserts⟩
  · intro set other values otherValues reached otherReached
    exact reached.keeps.beq_iff otherReached.keeps
  · intro set values reached
    exact reached.keeps.ofList_toList_beq
  · intro model arises
    exact arises.hasReached.reads_back

namespace SetExchange

/-- A set made of a list with a repetition, and one more value. -/
def letters : OrderedSet String :=
  ((OrderedSet.ofList ["b", "a", "b"]).insert "c").2

/-- A model with a repository that comes twice, and with one plugin in two versions. -/
def repeated : Model :=
  .ofIncrements [.repository "u", .plugin ⟨"java", none⟩, .repository "u",
    .plugin ⟨"java", some "1"⟩]

theorem letters_faithful :
    letters.Reached ["b", "a", "b", "c"] ∧ letters.toList = ["b", "a", "c"] ∧
      letters.contains "d" = false ∧ letters.insert "a" = (false, letters) ∧
      (OrderedSet.ofList letters.toList == letters) = true ∧ repeated.Arises ∧
      ∃ back, Model.ofData? repeated.toData = some back ∧ (back == repeated) = true := by
  obtain ⟨faithful, _, readBack, models⟩ := OrderedSet.reached_sets_faithful (α := String)
  have reached : letters.Reached ["b", "a", "b", "c"] :=
    OrderedSet.Reached.insert (.ofList ["b", "a", "b"]) "c"
  have arises : repeated.Arises := Model.Arises.empty.foldl _
  obtain ⟨keeps, inserts⟩ := faithful letters _ reached
  have known : letters.insert "a" = (false, letters) := by
    rcases inserts "a" with ⟨impossible, _⟩ | ⟨_, same⟩
    · cases impossible
    · exact same
  exact ⟨reached, keeps.elements, keeps.contains "d", known, readBack letters _ reached, arises,
    models repeated arises⟩

end SetExchange

end BuildScript
