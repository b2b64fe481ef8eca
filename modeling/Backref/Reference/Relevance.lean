import Backref.Pattern.Site

/-!
# Relevant nodes

A node is relevant to string references when a capturing group or a string reference lies at
it or below it; the rest of a pattern can neither change nor read the set of matched groups.
`Pattern.relevance` marks the relevant nodes, from each such group or reference upwards. The
ancestors of a marked node are marked already, so the way up stops at the first mark.
-/

namespace Backref

/-- Whether a node of this kind itself sets or reads a group. -/
def Kind.usesGroup : Kind → Bool
  | .group (some _) | .stringRef _ => true
  | _ => false

namespace Relevance

/-- Whether a node is marked. -/
def isMarked (marks : Array Bool) (node : Node) : Bool := marks.getD node.id false

/-- Marks the nodes of a list up to the first one that is marked already. -/
def markUp (marks : Array Bool) : List Node → Array Bool
  | [] => marks
  | node :: nodes =>
    if isMarked marks node then marks
    else markUp (marks.setIfInBounds node.id true) nodes

/-- Marks a site and what lies above it, if the site uses a group. -/
def markSite (marks : Array Bool) (site : Site) : Array Bool :=
  if site.kind.usesGroup then markUp marks (site.node :: site.ancestors) else marks

end Relevance

/-- For each identifier, whether its node is relevant. -/
def Pattern.relevance (pattern : Pattern) : Array Bool :=
  pattern.sites.foldl Relevance.markSite (Array.replicate pattern.size false)

end Backref
