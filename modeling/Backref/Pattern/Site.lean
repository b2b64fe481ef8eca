import Backref.Pattern.Node

/-!
# Places in a pattern

A `Site` is a node together with the nodes around it. `Pattern.sites` lists every site once,
parents before children and children from left to right; all questions about identifiers,
parents and groups are asked of that list.
-/

namespace Backref

/-- A node of a pattern in its place. -/
structure Site where
  node : Node
  /-- The nodes around it, from its parent up to the root. -/
  ancestors : List Node
  deriving Repr

mutual

/-- The sites of a node and of everything below it, put in front of `rest`. -/
def Node.sitesOnto : Node → List Node → List Site → List Site
  | ⟨label, kind, children⟩, ancestors, rest =>
    ⟨⟨label, kind, children⟩, ancestors⟩ ::
      Node.childSitesOnto children (⟨label, kind, children⟩ :: ancestors) rest

/-- The sites of all nodes of a list, put in front of `rest`. -/
def Node.childSitesOnto : List Node → List Node → List Site → List Site
  | [], _, rest => rest
  | node :: nodes, ancestors, rest =>
    node.sitesOnto ancestors (Node.childSitesOnto nodes ancestors rest)

end

namespace Site

/-- The identifier of the node. -/
def id (site : Site) : Nat := site.node.id

/-- The kind of the node. -/
def kind (site : Site) : Kind := site.node.kind

/-- The index where the text of the node starts. -/
def position (site : Site) : Nat := site.node.position

/-- The identifier of the parent; the root has none. -/
def parent? (site : Site) : Option Nat := site.ancestors.head?.map Node.id

/-- The identifiers of the children, from left to right. -/
def childIds (site : Site) : List Nat := site.node.children.map Node.id

/-- The identifiers of the ancestors, from the parent up to the root. -/
def ancestorIds (site : Site) : List Nat := site.ancestors.map Node.id

/-- Whether the node lies strictly below the node with the given identifier. -/
def isBelow (site : Site) (ancestor : Nat) : Bool := site.ancestorIds.contains ancestor

end Site

namespace Pattern

/-- Every node in its place, parents before children and children from left to right. -/
def sites (pattern : Pattern) : List Site := pattern.root.sitesOnto [] []

/-- The number of nodes. -/
def size (pattern : Pattern) : Nat := pattern.sites.length

/-- Whether the pattern consists of nothing at all. -/
def isEmpty (pattern : Pattern) : Bool := pattern.root.children.isEmpty

/-- The site with the given identifier. -/
def site? (pattern : Pattern) (id : Nat) : Option Site :=
  pattern.sites.find? fun site => site.id == id

/-- Every site, in the order of the identifiers. -/
def sitesById (pattern : Pattern) : List Site :=
  pattern.sites.mergeSort fun first second => first.id ≤ second.id

/-- The capturing groups, each with its number, in the order in which they open. -/
def groups (pattern : Pattern) : List (Nat × Site) :=
  pattern.sites.filterMap fun site =>
    match site.kind with
    | .group (some number) => some (number, site)
    | _ => none

/-- The capturing group with the given number. -/
def group? (pattern : Pattern) (number : Nat) : Option Site := pattern.groups.lookup number

end Pattern

end Backref
