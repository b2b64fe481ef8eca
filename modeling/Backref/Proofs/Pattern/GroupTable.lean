import Backref.Proofs.Pattern.Closing

/-!
# The table of capturing groups

`Pattern.groups_of_parse` says what the table of a parsed pattern has: one entry for each capturing
group that the text opens, under its number, and nothing else.
-/

namespace Backref

/-- A capturing group with its number. -/
def Site.numbered? (site : Site) : Option (Nat × Site) :=
  match site.kind with
  | .group (some number) => some (number, site)
  | _ => none

/-- A site that comes with a number is a group of that number. -/
theorem Site.numbered?_eq_some_iff {site found : Site} {number : Nat} :
    site.numbered? = some (number, found) ↔ found = site ∧ site.kind = .group (some number) := by
  obtain ⟨⟨label, kind, children⟩, ancestors⟩ := site
  cases kind with
  | group own => cases own <;> simp [numbered?, kind, eq_comm, and_comm]
  | _ => simp [numbered?, kind]

/-- In a table that has each key once, what is found under a key are the entries with that key. -/
theorem lookup_eq_some_iff_of_nodup {α : Type} {table : List (Nat × α)}
    (h : (table.map Prod.fst).Nodup) {key : Nat} {value : α} :
    table.lookup key = some value ↔ (key, value) ∈ table := by
  constructor
  · intro hfound
    obtain ⟨before, after, hsplit, _⟩ := List.lookup_eq_some_iff.1 hfound
    exact hsplit ▸ List.mem_append_right before List.mem_cons_self
  · intro hmem
    have hkey : (table.lookup key).isSome :=
      List.lookup_isSome_iff.2 ⟨_, hmem, beq_self_eq_true key⟩
    obtain ⟨found, hfound⟩ := Option.isSome_iff_exists.1 hkey
    obtain ⟨before, after, hsplit, _⟩ := List.lookup_eq_some_iff.1 hfound
    have hother : (key, found) ∈ table := hsplit ▸ List.mem_append_right before List.mem_cons_self
    rw [hfound, (Prod.mk.inj (List.inj_on_of_nodup_map h hother hmem rfl)).2]

namespace Pattern

variable {text : String} {pattern : Pattern}

/-- The entries of the table are the capturing groups under their numbers. -/
theorem mem_groups_iff {number : Nat} {site : Site} :
    (number, site) ∈ pattern.groups ↔
      site ∈ pattern.sites ∧ site.kind = .group (some number) := by
  rw [show pattern.groups = pattern.sites.filterMap Site.numbered? from rfl, List.mem_filterMap]
  constructor
  · intro h
    obtain ⟨other, hother, hnumbered⟩ := h
    obtain ⟨rfl, hkind⟩ := Site.numbered?_eq_some_iff.1 hnumbered
    exact ⟨hother, hkind⟩
  · intro h
    exact ⟨site, h.1, Site.numbered?_eq_some_iff.2 ⟨rfl, h.2⟩⟩

/-- The groups of a parsed pattern start where the text opens them, and their numbers count them. -/
theorem groups_map_of_parse (h : Pattern.parse text = .ok pattern) :
    pattern.groups.map (fun group => (group.2.position, group.1)) =
      (captureIndices 0 text.toList).zipIdx 1 := by
  obtain ⟨regex, _, htext, rfl⟩ := parse_eq_ok_iff.1 h
  rw [groups_eq, regex.captures_build, htext]

/-- The numbers of the table of a parsed pattern. -/
theorem groups_numbers_of_parse (h : Pattern.parse text = .ok pattern) :
    pattern.groups.map Prod.fst = List.range' 1 (capturingCount text.toList) := by
  have hnumbers := congrArg (List.map Prod.snd) (groups_map_of_parse h)
  rwa [List.map_map, List.zipIdx_map_snd] at hnumbers

/-- A parsed pattern has no more groups than digits can name. -/
theorem capturingCount_le_of_parse (h : Pattern.parse text = .ok pattern) :
    capturingCount text.toList ≤ maxGroups := by
  obtain ⟨regex, hvalid, htext, rfl⟩ := parse_eq_ok_iff.1 h
  rw [← htext, Regex.text, Token.capturingCount_spellAll]
  exact hvalid.groups_le

/-- The entry of a number stands for the capturing group that the text opens as the one of that
number. -/
theorem exists_entry_of_parse (h : Pattern.parse text = .ok pattern) {number : Nat}
    (hpos : 1 ≤ number) (hle : number ≤ capturingCount text.toList) :
    ∃ site, (number, site) ∈ pattern.groups ∧
      (captureIndices 0 text.toList)[number - 1]? = some site.position := by
  have hlt : number - 1 < (captureIndices 0 text.toList).length := by
    rw [capturingCount] at hle
    omega
  have hentry := congrArg (fun entries => entries[number - 1]?) (groups_map_of_parse h)
  simp only [List.getElem?_map, List.getElem?_zipIdx, List.getElem?_eq_getElem hlt] at hentry
  obtain ⟨⟨own, site⟩, hsite, hsame⟩ := Option.map_eq_some_iff.1 hentry
  obtain ⟨hposition, hown⟩ := Prod.mk.inj hsame
  replace hown : own = 1 + (number - 1) := hown
  obtain rfl : own = number := by omega
  refine ⟨site, List.mem_of_getElem? hsite, ?_⟩
  rw [List.getElem?_eq_getElem hlt, ← hposition]

/-- The nodes of a number are as many as the entries of that number. -/
theorem length_filter_kind (pattern : Pattern) (number : Nat) :
    (pattern.sites.filter fun site => site.kind = .group (some number)).length =
      (pattern.groups.map Prod.fst).count number := by
  rw [show pattern.groups = pattern.sites.filterMap Site.numbered? from rfl,
    ← List.countP_eq_length_filter, List.count, List.countP_map, List.countP_filterMap]
  congr 1
  funext site
  obtain ⟨⟨label, kind, children⟩, ancestors⟩ := site
  cases kind with
  | group own => cases own <;> simp [Site.numbered?, Site.kind, beq_eq_decide]
  | _ => simp [Site.numbered?, Site.kind]

/-- The table of a parsed text that opens `k` capturing groups. There are at most nine of them, the
numbers of the table are those from one to `k`, and it has `k` entries. Under each number stands the
one group of that number and no other node; it starts where the text opens its capturing group of
that rank. The groups that close while the text is read are the entries, in another order. -/
theorem groups_of_parse (h : Pattern.parse text = .ok pattern) :
    capturingCount text.toList ≤ 9 ∧
    pattern.groups.map Prod.fst = List.range' 1 (capturingCount text.toList) ∧
    pattern.groups.length = capturingCount text.toList ∧
    (∀ number, 1 ≤ number → number ≤ capturingCount text.toList → ∃ site,
      pattern.group? number = some site ∧
      (pattern.sites.filter fun other => other.kind = .group (some number)) = [site] ∧
      (captureIndices 0 text.toList)[number - 1]? = some site.position) ∧
    (∀ number site, pattern.group? number = some site ↔
      site ∈ pattern.sites ∧ site.kind = .group (some number)) ∧
    (∀ entry ∈ pattern.groups, entry.2.kind = .group (some entry.1)) ∧
    (Parser.start.closings text.toList).Perm
      (pattern.groups.map fun group => (group.2.position, group.1)) := by
  have hnumbers := groups_numbers_of_parse h
  have hnodup : (pattern.groups.map Prod.fst).Nodup := hnumbers ▸ List.nodup_range'
  have hfound : ∀ number site, pattern.group? number = some site ↔
      site ∈ pattern.sites ∧ site.kind = .group (some number) := fun number site =>
    (lookup_eq_some_iff_of_nodup hnodup).trans mem_groups_iff
  refine ⟨capturingCount_le_of_parse h, hnumbers, ?_, ?_, hfound, ?_, closings_perm_groups h⟩
  · have hlength := congrArg List.length hnumbers
    rwa [List.length_map, List.length_range'] at hlength
  · intro number hpos hle
    obtain ⟨site, hentry, hposition⟩ := exists_entry_of_parse h hpos hle
    obtain ⟨hsite, hkind⟩ := mem_groups_iff.1 hentry
    refine ⟨site, (hfound number site).2 ⟨hsite, hkind⟩, ?_, hposition⟩
    -- The number occurs once in the table, so there is no second group of that number.
    have hkey : number ∈ pattern.groups.map Prod.fst := List.mem_map_of_mem hentry
    obtain ⟨only, honly⟩ := List.length_eq_one_iff.1
      ((pattern.length_filter_kind number).trans (List.count_eq_one_of_mem hnodup hkey))
    have hmem : site ∈ pattern.sites.filter fun other => other.kind = .group (some number) :=
      List.mem_filter.2 ⟨hsite, decide_eq_true hkind⟩
    rw [honly] at hmem ⊢
    rw [List.mem_singleton.1 hmem]
  · intro entry hentry
    exact (mem_groups_iff.1 hentry).2

/-- In `((a)(?:b)|(c)*)` the first group opens first and closes last, and a star follows the third
one. -/
theorem groups_of_parse_nested :
    ∃ pattern, Pattern.parse "((a)(?:b)|(c)*)" = .ok pattern ∧
      pattern.groups.map Prod.fst = [1, 2, 3] ∧
      (∃ site, pattern.group? 3 = some site ∧
        (pattern.sites.filter fun other => other.kind = .group (some 3)) = [site] ∧
        site.position = 10) ∧
      [(1, 2), (10, 3), (0, 1)].Perm
        (pattern.groups.map fun group => (group.2.position, group.1)) := by
  obtain ⟨pattern, hparse⟩ : ∃ pattern, Pattern.parse "((a)(?:b)|(c)*)" = .ok pattern := ⟨_, rfl⟩
  obtain ⟨_, hnumbers, _, hgroups, _, _, hclosings⟩ := groups_of_parse hparse
  obtain ⟨site, hfound, honly, hposition⟩ := hgroups 3 (by decide) (by decide)
  refine ⟨pattern, hparse, hnumbers, ⟨site, hfound, honly, ?_⟩, hclosings⟩
  exact (Option.some.inj hposition).symm

end Pattern

end Backref
