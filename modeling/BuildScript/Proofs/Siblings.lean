import BuildScript.File.Output
import Mathlib.Data.List.DropRight

/-!
# Paths side by side

A path is resolved by the names between its slashes. The names of a path that has a
last name are those of its parent, then that name; only dots may stand between them or
behind. So a path and the path beside it, with another last name, lead through the
same directories.
-/

namespace BuildScript

namespace Path

/-! ## Segments -/

theorem segments_eq_splitOn (path : List Char) : segments path = path.splitOn '/' := by
  induction path with
  | nil => rfl
  | cons c cs ih =>
      have parts : (c :: cs).splitOn '/' = _ := List.splitOnP_cons_eq_if_modifyHead c cs
      rw [parts, segments]
      by_cases slash : c = '/'
      · rw [if_pos slash, if_pos (beq_iff_eq.2 slash), ih]
        rfl
      · rw [if_neg slash, if_neg (fun same => slash (beq_iff_eq.1 same)), ih, List.splitOn]
        cases found : cs.splitOnP fun x => x == '/' with
        | nil => exact absurd found (List.splitOnP_ne_nil _ _)
        | cons segment rest => rfl

theorem segments_append_slash (front back : List Char) :
    segments (front ++ '/' :: back) = segments front ++ segments back := by
  rw [segments_eq_splitOn, segments_eq_splitOn, segments_eq_splitOn]
  exact List.splitOnP_append_cons front back (by decide)

theorem segments_intercalate {parts : List (List Char)} (plain : ∀ part ∈ parts, '/' ∉ part)
    (nonempty : parts ≠ []) : segments (['/'].intercalate parts) = parts := by
  rw [segments_eq_splitOn]
  exact List.splitOn_intercalate '/' plain nonempty

theorem segments_of_plain {part : List Char} (plain : '/' ∉ part) : segments part = [part] := by
  have single : segments (['/'].intercalate [part]) = [part] :=
    segments_intercalate (by simpa using plain) (List.cons_ne_nil _ _)
  rwa [List.intercalate_singleton] at single

/-- No slash is left in a segment. -/
theorem slash_not_mem_of_mem_segments {path part : List Char} (member : part ∈ segments path) :
    '/' ∉ part := by
  induction path generalizing part with
  | nil =>
      cases List.mem_singleton.1 member
      exact List.not_mem_nil
  | cons c cs ih =>
      rw [segments] at member
      split at member
      · rcases List.mem_cons.1 member with rfl | later
        · exact List.not_mem_nil
        · exact ih later
      · rename_i solid
        split at member
        · cases List.mem_singleton.1 member
          simpa using fun same => solid same.symm
        · rename_i segment rest found
          rcases List.mem_cons.1 member with rfl | later
          · have inner : '/' ∉ segment := ih (by rw [found]; exact List.mem_cons_self)
            exact fun slash => (List.mem_cons.1 slash).elim (fun same => solid same.symm) inner
          · exact ih (by rw [found]; exact List.mem_cons_of_mem _ later)

/-- A segment that carries no meaning is empty or a dot. -/
theorem component?_eq_none_iff {segment : List Char} :
    component? segment = none ↔ segment = [] ∨ segment = ['.'] := by
  unfold component?
  split
  · rename_i blank
    exact iff_of_true rfl blank
  · rename_i solid
    split <;> exact iff_of_false nofun solid

/-- Only the segment of a name stands for the name. -/
theorem component?_eq_normal_iff {segment : List Char} {name : String} :
    component? segment = some (.normal name) ↔
      segment = name.toList ∧ segment ≠ [] ∧ segment ≠ ['.'] ∧ segment ≠ ['.', '.'] := by
  unfold component?
  split
  · rename_i blank
    refine iff_of_false nofun fun ⟨_, solid, dotless, _⟩ => ?_
    exact blank.elim solid dotless
  · rename_i solid
    obtain ⟨nonempty, dotless⟩ := not_or.1 solid
    split
    · rename_i parent
      exact iff_of_false nofun fun ⟨_, _, _, other⟩ => other parent
    · rename_i other
      constructor
      · intro same
        cases same
        exact ⟨String.toList_ofList.symm, nonempty, dotless, other⟩
      · rintro ⟨rfl, _⟩
        rw [String.ofList_toList]

/-- What is trimmed from the end of segments carries no meaning. -/
theorem trimEnd_append (parts : List (List Char)) :
    ∃ blank, parts = trimEnd parts ++ blank ∧ ∀ segment ∈ blank, component? segment = none := by
  refine ⟨parts.rtakeWhile fun segment => (component? segment).isNone, ?_, ?_⟩
  · exact List.rdropWhile_append_rtakeWhile.symm
  · intro segment member
    have isNone := List.mem_rtakeWhile_imp member
    exact Option.isNone_iff_eq_none.1 isNone

/-- Trimmed segments end with the one that carries the last meaning. -/
theorem trimEnd_concat {parts : List (List Char)} {component : Component}
    (last : (parts.filterMap component?).getLast? = some component) :
    ∃ front segment, trimEnd parts = front ++ [segment] ∧
      component? segment = some component := by
  obtain ⟨blank, split, meaningless⟩ := trimEnd_append parts
  have none : blank.filterMap component? = [] := List.filterMap_eq_nil_iff.2 meaningless
  rw [split, List.filterMap_append, none, List.append_nil] at last
  rcases List.eq_nil_or_concat' (trimEnd parts) with empty | ⟨front, segment, trimmed⟩
  · rw [empty] at last
    cases last
  · have kept : ¬(component? ((trimEnd parts).getLast (by rw [trimmed]; simp))).isNone = true :=
      List.rdropWhile_last_not (fun segment => (component? segment).isNone) parts _
    simp only [trimmed, List.getLast_append_singleton, Option.isNone_iff_eq_none] at kept
    obtain ⟨found, isFound⟩ := Option.ne_none_iff_exists'.1 kept
    rw [trimmed, List.filterMap_append, List.filterMap_cons_some isFound] at last
    refine ⟨front, segment, trimmed, ?_⟩
    simpa [isFound] using last

/-! ## Joined paths -/

/-- The text of a path that is seen from another. -/
theorem toList_join_cases (base : String) {inner : String} (relative : isAbsolute inner = false) :
    (join base inner).toList = base.toList ++ '/' :: inner.toList ∧ base.toList ≠ [] ∨
      (join base inner).toList = base.toList ++ inner.toList ∧
        (base.toList = [] ∨ ∃ front, base.toList = front ++ ['/']) := by
  unfold join
  rw [if_neg (by rw [relative]; decide)]
  split
  · rename_i ends
    refine .inr ⟨String.toList_append, ?_⟩
    rcases Bool.or_eq_true_iff.1 ends with empty | slash
    · exact .inl (by rw [String.isEmpty_iff.1 empty]; rfl)
    · exact .inr (List.getLast?_eq_some_iff.1 (beq_iff_eq.1 slash))
  · rename_i solid
    refine .inl ⟨?_, fun empty => solid ?_⟩
    · rw [String.toList_append, String.toList_append, List.append_assoc]
      rfl
    · rw [String.isEmpty_iff.2 (String.toList_eq_nil_iff.1 empty)]
      rfl

/-- A path that is seen from another starts where that one does. -/
theorem isAbsolute_join (base : String) {inner : String} (relative : isAbsolute inner = false) :
    isAbsolute (join base inner) = isAbsolute base := by
  rcases toList_join_cases base relative with ⟨text, nonempty⟩ | ⟨text, empty | ⟨front, isFront⟩⟩
  · obtain ⟨c, cs, isBase⟩ := List.exists_cons_of_ne_nil nonempty
    rw [isAbsolute, isAbsolute, text, isBase]
    rfl
  · rw [isAbsolute, text, empty, List.nil_append]
    exact relative.trans (by rw [isAbsolute, empty]; rfl)
  · rw [isAbsolute, isAbsolute, text, isFront]
    cases front <;> rfl

/-! ## Parents -/

/-- An absolute path has an empty first segment, and another one behind it. -/
theorem isAbsolute_iff_segments {path : String} :
    isAbsolute path = true ↔ ∃ second later, segments path.toList = [] :: second :: later := by
  unfold isAbsolute
  rcases path.toList with _ | ⟨c, cs⟩
  · exact iff_of_false nofun (by rintro ⟨_, _, impossible⟩; cases impossible)
  · rw [segments]
    by_cases slash : c = '/'
    · rw [if_pos slash, slash]
      refine iff_of_true rfl ?_
      cases found : segments cs with
      | nil => exact absurd found (by rw [segments_eq_splitOn]; exact List.splitOnP_ne_nil _ _)
      | cons second later => exact ⟨second, later, rfl⟩
    · rw [if_neg slash]
      refine iff_of_false (by simpa using slash) ?_
      rintro ⟨_, _, impossible⟩
      split at impossible <;> cases impossible

theorem toList_ofSegments {parts : List (List Char)} (solid : parts ≠ [[]]) :
    (ofSegments parts).toList = ['/'].intercalate parts := by
  have same : String.toList ∘ String.ofList = id := funext fun _ => String.toList_ofList
  unfold ofSegments
  split
  · exact absurd rfl solid
  · rw [String.toList_intercalate, List.map_map, same, List.map_id]
    rfl

/-- A path that is made of segments is absolute when the first of them is empty. -/
theorem isAbsolute_ofSegments {parts : List (List Char)} (plain : ∀ part ∈ parts, '/' ∉ part) :
    isAbsolute (ofSegments parts) = true ↔ parts.head? = some [] := by
  by_cases root : parts = [[]]
  · rw [root]
    exact iff_of_true rfl rfl
  · rw [isAbsolute, toList_ofSegments root, beq_iff_eq]
    rcases parts with _ | ⟨_ | ⟨c, cs⟩, _ | ⟨second, later⟩⟩
    · exact iff_of_false nofun nofun
    · exact absurd rfl root
    · exact iff_of_true rfl rfl
    all_goals
      have solid : c ≠ '/' := fun slash => plain (c :: cs) List.mem_cons_self
        (by rw [slash]; exact List.mem_cons_self)
      simp [solid]

/--
The segments of a path that has a last name: those of its parent, that name, and around
it segments without a meaning.
-/
structure Ends (path name : String) (front between behind : List (List Char)) : Prop where
  segments_eq : segments path.toList = front ++ (between ++ name.toList :: behind)
  parent_eq : parent? path = some (ofSegments front)
  absolute_iff : isAbsolute path = true ↔ front.head? = some []
  between_blank : ∀ segment ∈ between, component? segment = none
  behind_blank : ∀ segment ∈ behind, component? segment = none
  isName : component? name.toList = some (.normal name)

/-- A path ends as its body does, behind the segment that may be kept apart as its start. -/
theorem ends_of_anchor {path name : String} {anchor body : List (List Char)}
    (split : segments path.toList = anchor ++ body)
    (last : (body.filterMap component?).getLast? = some (.normal name))
    (parent : parent? path = some (ofSegments (anchor ++ trimEnd (trimEnd body).dropLast)))
    (root : isAbsolute path = true → anchor.head? = some []) :
    ∃ front between behind, Ends path name front between behind := by
  obtain ⟨before, segment, trimmed, isName⟩ := trimEnd_concat last
  obtain ⟨behind, bodyEq, behindBlank⟩ := trimEnd_append body
  obtain ⟨between, beforeEq, betweenBlank⟩ := trimEnd_append before
  have segmentEq : segment = name.toList := (component?_eq_normal_iff.1 isName).1
  have whole : segments path.toList =
      (anchor ++ trimEnd before) ++ (between ++ name.toList :: behind) :=
    calc
      segments path.toList = anchor ++ ((before ++ [name.toList]) ++ behind) := by
        rw [split, bodyEq, trimmed, segmentEq]
      _ = anchor ++ (((trimEnd before ++ between) ++ [name.toList]) ++ behind) := by
        rw [← beforeEq]
      _ = _ := by simp only [List.append_assoc, List.singleton_append]
  refine ⟨anchor ++ trimEnd before, between, behind, whole, ?_, ?_, betweenBlank, behindBlank,
    segmentEq ▸ isName⟩
  · rw [parent, trimmed, List.dropLast_concat]
  · constructor
    · intro absolute
      rw [List.head?_append, root absolute]
      rfl
    · intro empty
      obtain ⟨later, isFront⟩ := List.head?_eq_some_iff.1 empty
      rw [isAbsolute_iff_segments, whole, isFront]
      cases later with
      | nil =>
          cases between with
          | nil => exact ⟨_, _, rfl⟩
          | cons dot dots => exact ⟨_, _, rfl⟩
      | cons second later => exact ⟨_, _, rfl⟩

theorem fileName?_eq_some_iff_components {path name : String} :
    fileName? path = some name ↔ (components path).getLast? = some (.normal name) := by
  unfold fileName?
  split
  · rename_i found isLast
    rw [isLast]
    constructor <;> · intro same; cases same; rfl
  · rename_i other
    exact iff_of_false nofun (other name)

/-- The last name of a path is what the last segment with a meaning stands for. -/
theorem fileName?_eq_some_iff {path name : String} :
    fileName? path = some name ↔
      ((segments path.toList).filterMap component?).getLast? = some (.normal name) := by
  rw [fileName?_eq_some_iff_components]
  generalize isSteps : (segments path.toList).filterMap component? = steps
  -- The root and a leading dot come before the names and are none themselves.
  have behind : ∀ start : Component, start ≠ .normal name →
      ((start :: steps).getLast? = some (.normal name) ↔
        steps.getLast? = some (.normal name)) := by
    intro start special
    rw [List.getLast?_cons]
    cases steps.getLast? with
    | none => exact iff_of_false (fun same => special (Option.some.inj same)) nofun
    | some step => rfl
  unfold components
  dsimp only
  rw [isSteps]
  split
  · exact behind .root nofun
  · split
    · exact behind .current nofun
    · rfl

/-- A path that has a last name ends with it, dots apart. -/
theorem exists_ends {path name : String} (named : fileName? path = some name) :
    ∃ front between behind, Ends path name front between behind := by
  have last := fileName?_eq_some_iff_components.1 named
  have steps := fileName?_eq_some_iff.1 named
  by_cases anchored :
      (isAbsolute path || decide ((segments path.toList).head? = some ['.'])) = true
  · have parent : parent? path = some (ofSegments ((segments path.toList).take 1 ++
        trimEnd (trimEnd ((segments path.toList).drop 1)).dropLast)) := by
      simp only [parent?, last, anchored, if_true]
    have first : ∃ start body, segments path.toList = start :: body ∧
        component? start = none ∧ (isAbsolute path = true → start = []) := by
      rcases Bool.or_eq_true_iff.1 anchored with absolute | dot
      · obtain ⟨second, later, found⟩ := isAbsolute_iff_segments.1 absolute
        exact ⟨[], second :: later, found, rfl, fun _ => rfl⟩
      · obtain ⟨later, found⟩ := List.head?_eq_some_iff.1 (of_decide_eq_true dot)
        refine ⟨['.'], later, found, rfl, fun absolute => ?_⟩
        obtain ⟨_, _, other⟩ := isAbsolute_iff_segments.1 absolute
        rw [found] at other
        cases other
    obtain ⟨start, body, found, blank, root⟩ := first
    rw [found] at parent steps
    rw [List.filterMap_cons_none blank] at steps
    refine @ends_of_anchor path name [start] body found steps parent ?_
    intro absolute
    rw [root absolute]
    rfl
  · have relative : isAbsolute path ≠ true := fun absolute => anchored (by rw [absolute]; rfl)
    have parent : parent? path = some (ofSegments
        ([] ++ trimEnd (trimEnd (segments path.toList)).dropLast)) := by
      simp only [parent?, last, if_neg anchored]
    exact ends_of_anchor (List.nil_append _).symm steps parent fun absolute =>
      absurd absolute relative

end Path

/-! ## Names -/

namespace File.Disk

open BuildScript.Path (component? isAbsolute join segments)

/-- The names among segments: those that are not empty. -/
def namesOf (parts : List (List Char)) : List String :=
  (parts.filter fun segment => segment ≠ []).map String.ofList

theorem names_eq (path : String) : names path = namesOf (segments path.toList) := rfl

theorem namesOf_append (front back : List (List Char)) :
    namesOf (front ++ back) = namesOf front ++ namesOf back := by
  rw [namesOf, List.filter_append, List.map_append]
  rfl

/-- The names of a path that is seen from another come behind the names of that one. -/
theorem names_join (base : String) {inner : String} (relative : isAbsolute inner = false) :
    names (join base inner) = names base ++ names inner := by
  rw [names_eq, names_eq, names_eq, ← namesOf_append]
  rcases Path.toList_join_cases base relative with
    ⟨text, _⟩ | ⟨text, empty | ⟨front, isFront⟩⟩
  · rw [text, Path.segments_append_slash]
  · rw [text, empty, List.nil_append]
    rfl
  · -- The slash at the end leaves an empty segment, which is no name.
    rw [text, isFront, List.append_assoc, List.singleton_append, Path.segments_append_slash,
      Path.segments_append_slash, namesOf_append, namesOf_append, namesOf_append]
    simp [namesOf, segments]

/-- Segments without a meaning are dots among the names. -/
theorem eq_dot_of_mem_namesOf {parts : List (List Char)}
    (meaningless : ∀ segment ∈ parts, component? segment = none) {name : String}
    (member : name ∈ namesOf parts) : name = "." := by
  obtain ⟨segment, isName, rfl⟩ := List.mem_map.1 member
  obtain ⟨inParts, nonempty⟩ := List.mem_filter.1 isName
  rcases Path.component?_eq_none_iff.1 (meaningless segment inParts) with rfl | rfl
  · cases nonempty
  · rfl

/-- The names of a path that is made of segments are the names among these. -/
theorem names_ofSegments {parts : List (List Char)} (plain : ∀ part ∈ parts, '/' ∉ part) :
    names (Path.ofSegments parts) = namesOf parts := by
  rw [names_eq]
  by_cases root : parts = [[]]
  · rw [root]
    rfl
  · rw [Path.toList_ofSegments root]
    rcases parts with _ | ⟨part, later⟩
    · rfl
    · rw [Path.segments_intercalate plain (List.cons_ne_nil _ _)]

/-- Plain text is a single name. -/
theorem names_of_plain {name : String} (plain : '/' ∉ name.toList) (nonempty : name.toList ≠ []) :
    names name = [name] := by
  rw [names_eq, Path.segments_of_plain plain, namesOf]
  simp [nonempty]

end File.Disk

/-! ## Names of files -/

namespace Path

/-- The text is the name of a file: a path with itself as the only component. -/
def IsFileName (name : String) : Prop :=
  components name = [.normal name]

instance (name : String) : Decidable (IsFileName name) :=
  inferInstanceAs (Decidable (components name = [.normal name]))

namespace IsFileName

variable {name : String}

theorem component (isName : IsFileName name) :
    component? name.toList = some (.normal name) ∧ '/' ∉ name.toList := by
  have last : fileName? name = some name :=
    fileName?_eq_some_iff_components.2 (by rw [show components name = _ from isName]; rfl)
  have steps := fileName?_eq_some_iff.1 last
  obtain ⟨segment, member, isSegment⟩ := List.mem_filterMap.1 (List.mem_of_getLast? steps)
  obtain ⟨rfl, _⟩ := component?_eq_normal_iff.1 isSegment
  exact ⟨isSegment, slash_not_mem_of_mem_segments member⟩

theorem plain (isName : IsFileName name) : '/' ∉ name.toList :=
  isName.component.2

theorem nonempty (isName : IsFileName name) : name.toList ≠ [] :=
  (component?_eq_normal_iff.1 isName.component.1).2.1

end IsFileName

theorem isAbsolute_of_plain {name : String} (plain : '/' ∉ name.toList) :
    isAbsolute name = false := by
  unfold isAbsolute
  cases found : name.toList with
  | nil => rfl
  | cons c cs =>
      have solid : c ≠ '/' := fun slash => plain (by rw [found, slash]; exact List.mem_cons_self)
      simpa using solid

/-- A file name seen from a directory is the last name of the path. -/
theorem fileName?_join (directory : String) {name : String} (isName : IsFileName name) :
    fileName? (join directory name) = some name := by
  rw [fileName?_eq_some_iff]
  have last : ∃ front, segments (join directory name).toList = front ++ [name.toList] := by
    rcases toList_join_cases directory (isAbsolute_of_plain isName.plain) with
      ⟨text, _⟩ | ⟨text, empty | ⟨front, isFront⟩⟩
    · exact ⟨_, by rw [text, segments_append_slash, segments_of_plain isName.plain]⟩
    · exact ⟨[], by rw [text, empty, List.nil_append, segments_of_plain isName.plain]; rfl⟩
    · refine ⟨segments front, ?_⟩
      rw [text, isFront, List.append_assoc, List.singleton_append, segments_append_slash,
        segments_of_plain isName.plain]
  obtain ⟨front, split⟩ := last
  rw [split, List.filterMap_append, List.filterMap_cons_some isName.component.1,
    List.filterMap_nil, List.getLast?_concat]

end Path

/-! ## Temporary files -/

namespace File

def temporaryName (name : String) : String :=
  "." ++ name ++ ".tmp"

theorem toList_temporaryName (name : String) :
    (temporaryName name).toList = '.' :: (name.toList ++ ['.', 't', 'm', 'p']) := by
  rw [temporaryName, String.toList_append, String.toList_append]
  rfl

/-- The temporary file never has the name of the file itself. -/
theorem temporaryName_ne (name : String) : temporaryName name ≠ name := by
  intro same
  have lengths := congrArg (fun text => text.toList.length) same
  simp [toList_temporaryName] at lengths
  omega

theorem temporaryName_plain {name : String} (plain : '/' ∉ name.toList) :
    '/' ∉ (temporaryName name).toList := by
  rw [toList_temporaryName]
  simp [plain]

theorem temporaryName_nonempty (name : String) : (temporaryName name).toList ≠ [] := by
  rw [toList_temporaryName]
  exact List.cons_ne_nil _ _

namespace Disk

open BuildScript.Path (fileName? isAbsolute)

def home (path : String) : String :=
  (Path.parent? path).getD ""

variable {path name : String}

/-- No slash is in the last name of a path. -/
theorem slash_not_mem_fileName (named : fileName? path = some name) : '/' ∉ name.toList := by
  obtain ⟨_, _, _, ends⟩ := Path.exists_ends named
  exact Path.slash_not_mem_of_mem_segments (by rw [ends.segments_eq]; simp)

/-- The last name of a path is no dots. -/
theorem fileName_proper (named : fileName? path = some name) : name ≠ "." ∧ name ≠ ".." := by
  obtain ⟨_, _, _, ends⟩ := Path.exists_ends named
  obtain ⟨_, _, notDot, notDots⟩ := Path.component?_eq_normal_iff.1 ends.isName
  exact ⟨fun same => notDot (by rw [same]; rfl), fun same => notDots (by rw [same]; rfl)⟩

/-- A path leads where its parent leads, then to its last name; only dots stand around it. -/
theorem names_of_fileName (named : fileName? path = some name) :
    ∃ between behind, names path = names (home path) ++ (between ++ name :: behind) ∧
      (∀ dot ∈ between, dot = ".") ∧ ∀ dot ∈ behind, dot = "." := by
  obtain ⟨front, between, behind, ends⟩ := Path.exists_ends named
  have plain : ∀ part ∈ front, '/' ∉ part := fun part member =>
    Path.slash_not_mem_of_mem_segments (by rw [ends.segments_eq]; simp [member])
  have own : namesOf (name.toList :: behind) = name :: namesOf behind := by
    have solid := (Path.component?_eq_normal_iff.1 ends.isName).2.1
    simp [namesOf, solid]
  refine ⟨namesOf between, namesOf behind, ?_,
    fun dot member => eq_dot_of_mem_namesOf ends.between_blank member,
    fun dot member => eq_dot_of_mem_namesOf ends.behind_blank member⟩
  rw [names_eq, ends.segments_eq, namesOf_append, namesOf_append, own, home, ends.parent_eq,
    Option.getD_some, names_ofSegments plain]

theorem isAbsolute_home (named : fileName? path = some name) :
    isAbsolute (home path) = isAbsolute path := by
  obtain ⟨front, _, _, ends⟩ := Path.exists_ends named
  have plain : ∀ part ∈ front, '/' ∉ part := fun part member =>
    Path.slash_not_mem_of_mem_segments (by rw [ends.segments_eq]; simp [member])
  rw [home, ends.parent_eq, Option.getD_some, Bool.eq_iff_iff, Path.isAbsolute_ofSegments plain,
    ends.absolute_iff]

theorem temporaryPath_eq (named : fileName? path = some name) :
    Volume.temporaryPath path name = Path.join (home path) (temporaryName name) := by
  rw [Volume.temporaryPath, Path.withFileName, named]
  rfl

/-- The temporary file stands in the directory of the file. -/
theorem names_temporaryPath (named : fileName? path = some name) :
    names (Volume.temporaryPath path name) = names (home path) ++ [temporaryName name] := by
  have plain := temporaryName_plain (slash_not_mem_fileName named)
  rw [temporaryPath_eq named, names_join _ (Path.isAbsolute_of_plain plain),
    names_of_plain plain (temporaryName_nonempty name)]

theorem isAbsolute_temporaryPath (named : fileName? path = some name) :
    isAbsolute (Volume.temporaryPath path name) = isAbsolute path := by
  have plain := temporaryName_plain (slash_not_mem_fileName named)
  rw [temporaryPath_eq named, Path.isAbsolute_join _ (Path.isAbsolute_of_plain plain),
    isAbsolute_home named]

/-- The name of a temporary file is no dots. -/
theorem temporaryName_proper (name : String) :
    temporaryName name ≠ "." ∧ temporaryName name ≠ ".." := by
  have lengths : 5 ≤ (temporaryName name).toList.length := by
    rw [toList_temporaryName]
    simp
  constructor
  all_goals
    intro same
    rw [same] at lengths
    exact absurd lengths (by decide)

end Disk

end File

end BuildScript
