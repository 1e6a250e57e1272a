/-!
# Paths

A path is text; its meaning is its list of components. Repeated and trailing
slashes and inner `.` components carry no meaning, so two paths with the same
components are the same path. A leading `.` of a relative path and every `..`
are components of their own.
-/

namespace BuildScript.Path

inductive Component where
  /-- The leading slash of an absolute path. -/
  | root
  /-- The leading `.` of a relative path. -/
  | current
  /-- A `..`. -/
  | parent
  | normal (name : String)
  deriving DecidableEq, Repr

def Component.text : Component → String
  | .root => "/"
  | .current => "."
  | .parent => ".."
  | .normal name => name

/-- The parts between the slashes of a path, empty ones included. -/
def segments : List Char → List (List Char)
  | [] => [[]]
  | c :: cs =>
      if c = '/' then [] :: segments cs
      else
        match segments cs with
        | [] => [[c]]
        | segment :: rest => (c :: segment) :: rest

/-- The component that a segment stands for, if it carries a meaning. -/
def component? (segment : List Char) : Option Component :=
  if segment = [] ∨ segment = ['.'] then none
  else if segment = ['.', '.'] then some .parent
  else some (.normal (String.ofList segment))

def isAbsolute (path : String) : Bool :=
  path.toList.head? == some '/'

def components (path : String) : List Component :=
  let parts := segments path.toList
  let steps := parts.filterMap component?
  if isAbsolute path then .root :: steps
  else if parts.head? = some ['.'] then .current :: steps
  else steps

def ofComponents : List Component → String
  | .root :: rest => "/" ++ "/".intercalate (rest.map Component.text)
  | steps => "/".intercalate (steps.map Component.text)

def hasTrailingSlash (path : String) : Bool :=
  path.toList.getLast? == some '/'

/-- The path `inner` seen from `base`; an absolute path stands for itself. -/
def join (base inner : String) : String :=
  if isAbsolute inner then inner
  else if base.isEmpty || hasTrailingSlash base then base ++ inner
  else base ++ "/" ++ inner

/-- The last name of a path, unless the path ends in `..` or names nothing. -/
def fileName? (path : String) : Option String :=
  match (components path).getLast? with
  | some (.normal name) => some name
  | _ => none

/-- The segments without those at the end that carry no meaning. -/
def trimEnd (parts : List (List Char)) : List (List Char) :=
  (parts.reverse.dropWhile fun segment => (component? segment).isNone).reverse

/-- The path with the given segments; the empty segment alone is the root directory. -/
def ofSegments : List (List Char) → String
  | [[]] => "/"
  | parts => "/".intercalate (parts.map String.ofList)

/--
The path without its last component. It is a beginning of the path as it is written:
inside it repeated slashes and `.` components stay, and none are left at its end.
-/
def parent? (path : String) : Option String :=
  let parts := segments path.toList
  let isAnchored := isAbsolute path || parts.head? = some ['.']
  let anchor := if isAnchored then parts.take 1 else []
  let body := if isAnchored then parts.drop 1 else parts
  match (components path).getLast? with
  | none => none
  | some .root => none
  | some .current => some ""
  | some _ => some (ofSegments (anchor ++ trimEnd (trimEnd body).dropLast))

/-- The path with its last name replaced, or extended when it has no last name. -/
def withFileName (path name : String) : String :=
  match fileName? path with
  | some _ => join ((parent? path).getD "") name
  | none => join path name

/--
The components that lead from `base` to `target`: beyond their common start, one
`..` for every remaining component of `base`, then what remains of `target`.
-/
def stepsBetween : List Component → List Component → List Component
  | [], base => base.map fun _ => .parent
  | target, [] => target
  | a :: target, b :: base =>
      if a = b then stepsBetween target base
      else (b :: base).map (fun _ => Component.parent) ++ (a :: target)

/-- An absolute path as seen from the absolute directory `base`; none for a relative path. -/
def relativeTo? (path base : String) : Option String :=
  if isAbsolute path then
    some (ofComponents (stepsBetween (components path) (components base)))
  else none

end BuildScript.Path
