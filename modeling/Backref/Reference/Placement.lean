import Backref.Pattern.Site
import Backref.Rejection

/-!
# The structural rule

The structural rule looks at where a group stands instead of following paths: a string
reference is safe when its group lies outside every alternation and repetition, and the
reference lies outside its group. `Pattern.checkPlacement` reports the leftmost reference that
is not safe.
-/

namespace Backref

/-- Whether a node of this kind may leave out what lies below it. -/
def Kind.isOptional : Kind → Bool
  | .alternation | .repetition => true
  | _ => false

namespace Site

/-- Whether the node lies inside an alternation or a repetition. -/
def isConditional (site : Site) : Bool :=
  site.ancestors.any fun ancestor => ancestor.kind.isOptional

/-- Whether a reference to the given group is safe at this site. -/
def maySee (site : Site) (group : Site) : Bool :=
  !group.isConditional && !site.isBelow group.id

/-- The rejection of a site whose string reference is not safe. -/
def misplaced? (groups : List (Nat × Site)) (site : Site) : Option Rejection :=
  match site.kind with
  | .stringRef number =>
    if (groups.lookup number).any site.maySee then none
    else some (.uninitialized number site.position)
  | _ => none

end Site

/-- The structural rule: the group of each string reference lies outside every alternation and
repetition, and does not contain the reference. -/
def Pattern.checkPlacement (pattern : Pattern) : Except Rejection Unit :=
  let groups := pattern.groups
  match pattern.sites.findSome? (Site.misplaced? groups) with
  | some rejection => .error rejection
  | none => .ok ()

end Backref
