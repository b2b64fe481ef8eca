import Backref.Proofs.Pattern.GroupTable
import Backref.Proofs.Pattern.Rounds
import Backref.Proofs.Reference.Marking

/-!
# The builder and the parser agree

`Pattern.tree` is the arena of a pattern that has been read, with the table of its capturing groups.
`Builder.run_start` says that the builder makes it from every text that is a pattern, and that it
refuses every other text as the parser does; `Builder.exists_traces` says that in between the
builder traces the parser.
-/

namespace Backref

/-! ## The arena of a pattern -/

/-- A node as it stands in an arena. -/
def Site.entry (site : Site) : Entry :=
  { kind := site.kind
    children := site.childIds
    parent := site.parent?
    position := site.position }

/-- A node and its identifier. -/
def Site.cell (site : Site) : Entry × Nat := (site.entry, site.id)

/-- The nodes of a pattern in the order of their identifiers. -/
def Pattern.arena (pattern : Pattern) : Arena := pattern.sitesById.map Site.entry

/-- The nodes of a pattern with their identifiers. -/
def Pattern.cells (pattern : Pattern) : Multiset (Entry × Nat) := pattern.sites.map Site.cell

mutual

/-- The sites of a node show the nodes below it. -/
theorem Node.cells_eq_sitesOnto : ∀ (node parent : Node) (ancestors : List Node) (rest : List Site),
    ((node.sitesOnto (parent :: ancestors) rest).map Site.cell : Multiset (Entry × Nat)) =
      node.cells parent.id + (rest.map Site.cell : List _)
  | ⟨label, kind, children⟩, parent, ancestors, rest => by
      rw [Node.sitesOnto, Node.cells_mk, List.map_cons, ← Multiset.cons_coe,
        ← Multiset.singleton_add,
        Node.cellsAll_eq_childSitesOnto children ⟨label, kind, children⟩, add_assoc]
      rfl

/-- The sites of some nodes show the nodes below them. -/
theorem Node.cellsAll_eq_childSitesOnto : ∀ (nodes : List Node) (parent : Node)
    (ancestors : List Node) (rest : List Site),
    ((Node.childSitesOnto nodes (parent :: ancestors) rest).map Site.cell :
      Multiset (Entry × Nat)) = Node.cellsAll parent.id nodes + (rest.map Site.cell : List _)
  | [], _, _, _ => (zero_add _).symm
  | node :: nodes, parent, ancestors, rest => by
      rw [Node.childSitesOnto, Node.cells_eq_sitesOnto node, Node.cellsAll_eq_childSitesOnto nodes,
        Node.cellsAll_cons, add_assoc]

end

/-- The nodes of a pattern are the root and those below it. -/
theorem Pattern.cells_mk (label : Label) (kind : Kind) (nodes : List Node) :
    Pattern.cells ⟨⟨label, kind, nodes⟩⟩ =
      {(⟨kind, nodes.map Node.id, none, label.position⟩, label.id)} +
        Node.cellsAll label.id nodes := by
  have hbelow := Node.cellsAll_eq_childSitesOnto nodes ⟨label, kind, nodes⟩ [] []
  rw [List.map_nil, Multiset.coe_nil, add_zero] at hbelow
  rw [Pattern.cells, Pattern.sites, Node.sitesOnto, List.map_cons, ← Multiset.cons_coe,
    ← Multiset.singleton_add, hbelow]
  rfl

namespace Arena

variable {arena arena' : Arena} {pattern : Pattern}

/-- An arena is known from its cells. -/
theorem eq_of_cells_eq (h : arena.cells = arena'.cells) : arena = arena' :=
  List.ext_getElem? fun id => Option.ext fun entry => by rw [← mem_cells, h, mem_cells]

/-- The cells of the arena of a pattern. -/
theorem cells_arena (h : pattern.HasDenseIds) : pattern.arena.cells = pattern.cells := by
  have hsize : pattern.sitesById.length = pattern.size := List.length_mergeSort _
  have hzip : pattern.arena.zipIdx = pattern.sitesById.map Site.cell := by
    rw [List.zipIdx_eq_zip_range', Pattern.arena, List.length_map, hsize, ← List.range_eq_range',
      ← h.map_id_sitesById]
    exact List.zip_map'
  rw [cells, hzip]
  exact Multiset.coe_eq_coe.2 ((List.mergeSort_perm _ _).map _)

/-- An arena with the nodes of a pattern is the arena of the pattern. -/
theorem eq_of_cells (h : arena.cells = pattern.cells) : arena = pattern.arena := by
  have hperm : arena.zipIdx.Perm (pattern.sites.map Site.cell) := Multiset.coe_eq_coe.1 h
  -- The indices in an arena are all different, and so are the identifiers of the pattern.
  have hids : pattern.HasDenseIds := by
    have hlength : arena.length = pattern.size := by
      rw [← List.length_zipIdx, hperm.length_eq, List.length_map, Pattern.size]
    have hindices := hperm.map Prod.snd
    rw [List.zipIdx_map_snd, hlength, ← List.range_eq_range', List.map_map] at hindices
    rw [Pattern.HasDenseIds, ← pattern.map_node_sites, List.map_map]
    exact hindices.symm
  exact eq_of_cells_eq (h.trans (cells_arena hids).symm)

end Arena

/-! ## The table of groups of a pattern -/

namespace Pattern

variable {pattern : Pattern}

/-- The numbers of the capturing groups with the identifiers of the groups. -/
def groupTable (pattern : Pattern) : GroupTable :=
  pattern.groups.map fun (number, group) => (number, group.id)

/-- A pattern as a builder makes it. -/
def tree (pattern : Pattern) : Tree := ⟨pattern.arena, pattern.groupTable⟩

/-- The table has the capturing groups among the nodes. -/
theorem groupTable_eq (pattern : Pattern) : pattern.groupTable =
    (pattern.root.subtree.filterMap Node.numbered?).map GroupTable.entryOf := by
  rw [← pattern.map_node_sites, List.filterMap_map, groupTable, groups, List.map_filterMap,
    List.map_filterMap]
  congr 1
  funext site
  obtain ⟨⟨label, kind, children⟩, ancestors⟩ := site
  cases kind with
  | group number => cases number <;> rfl
  | _ => rfl

/-- The table of a pattern that has been read is in the order of the numbers. -/
theorem isSorted_groupTable {text : String} (h : Pattern.parse text = .ok pattern) :
    pattern.groupTable.IsSorted := by
  have hnumbers : pattern.groupTable.map Prod.fst = List.range' 1 (capturingCount text.toList) := by
    rw [← groups_numbers_of_parse h, groupTable, List.map_map]
    rfl
  refine List.pairwise_map.1 (?_ : (pattern.groupTable.map Prod.fst).Pairwise (· < ·))
  rw [hnumbers]
  exact List.pairwise_lt_range'

end Pattern

/-! ## The end of the text -/

namespace Builder

variable {builder : Builder} {parser : Parser} {tokens : List Token} {rest : List Char}

/-- At the end of a pattern the table of the builder is that of the pattern. -/
theorem Mirrors.groups_eq {pattern : Pattern} {text : String} (h : builder.Mirrors parser)
    (hconclude : parser.conclude = .ok pattern) (hparse : Pattern.parse text = .ok pattern) :
    builder.groups = pattern.groupTable := by
  refine GroupTable.eq_of_perm h.groups_sorted (Pattern.isSorted_groupTable hparse) ?_
  rw [pattern.groupTable_eq, Parser.captures_conclude hconclude]
  exact h.groups_perm

/-- The builder ends the text as the parser concludes it. -/
theorem Mirrors.finish_eq (h : builder.Mirrors parser) :
    builder.finish = (parser.conclude.map fun pattern =>
      ⟨pattern.arena, builder.groups⟩).mapError .rejected := by
  obtain ⟨arena, hclose, _, hcells⟩ := h.toHolds.closeBranch_eq
  cases henclosing : parser.enclosing with
  | cons group enclosing =>
      have hne : parser.enclosing ≠ [] := henclosing ▸ List.cons_ne_nil group enclosing
      have hdepth : builder.depth ≠ 0 := h.depth ▸ mt List.length_eq_zero_iff.1 hne
      rw [Builder.finish, if_pos hdepth, Parser.conclude, if_pos hne, h.depth]
      rfl
  | nil =>
      have hdepth : builder.depth = 0 := h.depth.trans (List.length_eq_zero_iff.2 henclosing)
      rw [henclosing] at hclose hcells
      have harena : arena = Pattern.arena ⟨⟨⟨0, 0⟩, .sequence, parser.level.nodes⟩⟩ :=
        Arena.eq_of_cells ((hcells.trans (add_zero _)).trans
          (Pattern.cells_mk ⟨0, 0⟩ .sequence parser.level.nodes).symm)
      have hbuilder : builder.finish =
          if parser.groupCount < parser.maxExpressionRef then
            .error (.rejected (.unknownGroup parser.maxExpressionRef parser.groupCount))
          else .ok ⟨arena, builder.groups⟩ := by
        rw [Builder.finish, if_neg (not_not.2 hdepth), hclose, ← h.groupCount, ← h.maxExpressionRef]
        rfl
      rw [hbuilder, Parser.conclude, if_neg (not_not.2 henclosing), harena]
      split
      · rfl
      · rfl

/-! ## All rounds -/

namespace Traces

/-- A round reads a token or refuses the text, unless the text is at its end. -/
theorem round_cases {text : List Char} (h : builder.Traces tokens rest parser)
    (htext : Token.spellAll tokens ++ rest = text) :
    (rest = [] ∧ builder.round text = .ok none) ∨
      ∃ result : Except Stop Builder, builder.round text = result.map some ∧
        Follows text result := by
  subst htext
  have hchar := h.charAt_eq 0
  cases rest with
  | nil => exact .inl ⟨rfl, Except.bind_eq_ok_iff.2 ⟨none, hchar, rfl⟩⟩
  | cons c rest =>
      refine .inr ?_
      by_cases hc : Alphabet.contains c
      · refine ⟨builder.read _ c, ?_, h.read hc⟩
        replace hchar : charAt _ builder.position = .ok (some c) := hchar.trans (if_pos hc)
        rw [Builder.round, hchar]
        show (builder.read (Token.spellAll tokens ++ c :: rest) c >>= fun next =>
          pure (some next)) = _
        cases builder.read (Token.spellAll tokens ++ c :: rest) c <;> rfl
      · refine ⟨.error (.rejected (.invalidChar c builder.position)),
          Except.bind_eq_error_iff.2 (.inl (hchar.trans (if_neg hc))), ?_⟩
        refine h.follows_error _ rfl fun fed _ hposition => ?_
        rw [Parser.answer_of_not_contains hc, hposition, h.position]

/-- At the end of the text the parser has the answer. -/
theorem parseChars_eq (h : builder.Traces tokens [] parser) :
    Pattern.parseChars (Token.spellAll tokens ++ []) = parser.conclude := by
  obtain ⟨fed, hsettle, _, hbar, _, hparse⟩ := h.exists_settle
  rw [hparse, Parser.answer_nil, Parser.finish_of_settle hsettle (hbar rfl)]

/-- From wherever the builder traces the parser, it comes to the answer of the parser. -/
theorem run_eq {text : String} (h : builder.Traces tokens rest parser)
    (htext : Token.spellAll tokens ++ rest = text.toList) : builder.run text.toList =
      ((Pattern.parse text).map Pattern.tree).mapError .rejected := by
  induction builder using Builder.run.induct text.toList generalizing tokens rest parser with
  | case1 builder stop hround =>
      rw [run_of_error hround]
      obtain ⟨_, hend⟩ | ⟨result, hresult, hfollows⟩ := h.round_cases htext
      · cases hend.symm.trans hround
      · cases result with
        | ok next => cases hresult.symm.trans hround
        | error stop =>
            cases hresult.symm.trans hround
            cases stop with
            | rejected rejection =>
                rw [show Pattern.parse text = .error rejection from hfollows]
                rfl
            | stuck defect => exact hfollows.elim
  | case2 builder hround =>
      rw [run_of_none hround]
      obtain ⟨rfl, _⟩ | ⟨result, hresult, _⟩ := h.round_cases htext
      · have hparse : Pattern.parse text = parser.conclude := by
          rw [Pattern.parse, ← htext, h.parseChars_eq]
        rw [h.finish_eq, hparse]
        cases hconclude : parser.conclude with
        | error rejection => rfl
        | ok pattern =>
            rw [h.groups_eq hconclude (hparse.trans hconclude)]
            rfl
      · cases result <;> cases hresult.symm.trans hround
  | case3 builder next hround ih =>
      rw [run_of_some hround]
      obtain ⟨_, hend⟩ | ⟨result, hresult, hfollows⟩ := h.round_cases htext
      · cases hend.symm.trans hround
      · cases result with
        | error stop => cases hresult.symm.trans hround
        | ok next =>
            cases hresult.symm.trans hround
            obtain ⟨tokens, rest, parser, hnext, htext⟩ := hfollows
            exact ih hnext htext

end Traces

/-- Whatever state the builder comes to, it traces the parser there. -/
theorem exists_traces {text : List Char} (h : Reaches text .start builder) : ∃ tokens rest parser,
    builder.Traces tokens rest parser ∧ Token.spellAll tokens ++ rest = text := by
  induction h with
  | refl => exact ⟨[], text, .start, traces_start text, rfl⟩
  | tail _ hround ih =>
      obtain ⟨tokens, rest, parser, htraces, htext⟩ := ih
      obtain ⟨_, hend⟩ | ⟨result, hresult, hfollows⟩ := htraces.round_cases htext
      · cases hend.symm.trans hround
      · cases result with
        | error stop => cases hresult.symm.trans hround
        | ok next =>
            cases hresult.symm.trans hround
            exact hfollows

/-- The builder makes the arena and the table of every pattern, and refuses every other text as the
parser does. -/
theorem run_start (text : String) : Builder.start.run text.toList =
    ((Pattern.parse text).map Pattern.tree).mapError .rejected :=
  (traces_start text.toList).run_eq rfl

end Builder

end Backref
