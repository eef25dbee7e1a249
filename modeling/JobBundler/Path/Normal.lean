import JobBundler.Path.Basic

/-! # Normal paths

Normalising a path is arithmetic on its components: no file is looked at, so the way a path was
written decides, and links do not. -/

namespace JobBundler.Path

/-- One more component after normal ones, the last of which stands first. A `..` takes a name
away, has no effect at the root, and is kept elsewhere. -/
def normalStep : List Component → Component → List Component
  | stack, .current => stack
  | .normal _ :: stack, .parent => stack
  | .root :: stack, .parent => .root :: stack
  | stack, c => c :: stack

/-- The components without `.` and with each `..` folded into the name before it. -/
def normalComponents (cs : List Component) : List Component :=
  (cs.foldl normalStep []).reverse

/-- The path without `.`, where each `..` that follows a name has taken it away. -/
def normalize (p : Path) : Path :=
  ofComponents (normalComponents p.components)

end JobBundler.Path
