import ProcessImage.Proofs.Wire.Cover

/-!
# Reported texts

The texts that a tree lists are those of the paths to the nodes that it reports.  A
text joins the names of its path by points and escapes nothing, so a name that
contains a point reads as several names, and an empty name at the top leaves no
trace.

A path is legible when it has neither.  Legible paths are read again from their
texts, and no others are, so a reported text leads back to its node exactly when its
path is legible.
-/

namespace ProcessImage

open Wire

/-! ## Texts of paths -/

namespace Path

/-- The text of a path. -/
def text (place : Path) : String :=
  place.foldl Branch.memberPath ""

/-- No name on the path contains a point, and the first one is not empty. -/
def IsLegible (place : Path) : Prop :=
  place.head? ≠ some "" ∧ ∀ name ∈ place, '.' ∉ name.toList

theorem pieces_append_names (characters : List Char) (names : Path) :
    pieces (characters ++ names.flatMap fun name => '.' :: name.toList) =
      pieces characters ++ names.flatMap fun name => pieces name.toList := by
  induction names generalizing characters with
  | nil => simp
  | cons name rest ih =>
      have next := ih (characters ++ '.' :: name.toList)
      rw [pieces_append_point, List.append_assoc, List.append_assoc] at next
      simpa using next

/-- Further names are written after a text, each after a point. -/
theorem toList_foldl_memberPath {written : String} (present : written ≠ "") (names : Path) :
    (names.foldl Branch.memberPath written).toList =
      written.toList ++ names.flatMap fun name => '.' :: name.toList := by
  induction names generalizing written with
  | nil => simp
  | cons name rest ih =>
      have longer : Branch.memberPath written name = written ++ "." ++ name := by
        simp [Branch.memberPath, present]
      have stillPresent : written ++ "." ++ name ≠ "" := by
        intro same
        simpa using congrArg String.toList same
      rw [List.foldl_cons, longer, ih stillPresent]
      simp

/-- The path that is read from the text of another one: its names after those that are
empty at the top, each taken apart at its points. -/
theorem ofText_text (place : Path) :
    ofText place.text = (place.dropWhile (· == "")).flatMap fun name =>
      (pieces name.toList).map String.ofList := by
  induction place with
  | nil => rfl
  | cons name rest ih =>
      by_cases empty : name = ""
      · subst empty
        simpa [text, Branch.memberPath] using ih
      · have start : Branch.memberPath "" name = name := by simp [Branch.memberPath]
        have characters := toList_foldl_memberPath empty rest
        have present : rest.foldl Branch.memberPath name ≠ "" := by
          intro same
          rw [same] at characters
          simp [empty] at characters
        simp only [text, List.foldl_cons, start, ofText, if_neg present, characters,
          pieces_append_names]
        simp [empty, List.map_flatMap]

theorem not_mem_of_mem_pieces {characters piece : List Char} (inside : piece ∈ pieces characters) :
    '.' ∉ piece := by
  induction characters generalizing piece with
  | nil =>
      obtain rfl := List.mem_singleton.mp inside
      simp
  | cons character rest ih =>
      unfold pieces at inside
      split at inside
      · rcases List.mem_cons.mp inside with rfl | later
        · simp
        · exact ih later
      · rename_i other
        cases firstPieces : pieces rest with
        | nil => exact absurd firstPieces (pieces_ne_nil rest)
        | cons first others =>
            rw [firstPieces] at inside ih
            rcases List.mem_cons.mp inside with rfl | later
            · simpa [Ne.symm other] using ih List.mem_cons_self
            · exact ih (List.mem_cons_of_mem _ later)

/-- Names without points are not taken apart. -/
theorem flatMap_pieces {names : Path} (noPoints : ∀ name ∈ names, '.' ∉ name.toList) :
    (names.flatMap fun name => (pieces name.toList).map String.ofList) = names := by
  induction names with
  | nil => rfl
  | cons name rest ih =>
      rw [List.forall_mem_cons] at noPoints
      simp [pieces_of_not_mem noPoints.1, ih noPoints.2]

/-- A path is read again from its text exactly when it is legible. -/
theorem ofText_text_iff {place : Path} : ofText place.text = place ↔ place.IsLegible := by
  rw [ofText_text]
  constructor
  · intro same
    have noPoints : ∀ name ∈ place, '.' ∉ name.toList := by
      intro name inside
      rw [← same] at inside
      obtain ⟨source, _, isPiece⟩ := List.mem_flatMap.mp inside
      obtain ⟨piece, inPieces, rfl⟩ := List.mem_map.mp isPiece
      simpa using not_mem_of_mem_pieces inPieces
    rw [flatMap_pieces fun name inside => noPoints name (List.dropWhile_sublist _ |>.subset inside)]
      at same
    refine ⟨fun isEmpty => ?_, noPoints⟩
    cases place with
    | nil => cases isEmpty
    | cons name rest =>
        obtain rfl : name = "" := Option.some.inj isEmpty
        have shorter := (List.dropWhile_sublist (l := rest) (· == "")).length_le
        have sameLength := congrArg List.length same
        simp at sameLength
        omega
  · rintro ⟨present, noPoints⟩
    have kept : place.dropWhile (· == "") = place := by
      cases place with
      | nil => rfl
      | cons name rest =>
          have other : name ≠ "" := fun same => present (congrArg some same)
          simp [other]
    rw [kept, flatMap_pieces noPoints]

end Path

namespace Wire

open Arena

/-- The texts that a branch lists are those of its places. -/
theorem Branch.memberChangedPaths_eq_map {members : List (String × Branch)}
    (each : ∀ member ∈ members, ∀ written, member.2.changedPaths written =
      member.2.changedPlaces.map fun place => place.foldl memberPath written) (written : String) :
    memberChangedPaths written members =
      (memberChangedPlaces members).map fun place => place.foldl memberPath written := by
  induction members with
  | nil => rfl
  | cons member rest ih =>
      have first := each member List.mem_cons_self (memberPath written member.1)
      have later := ih fun member inside => each member (List.mem_cons_of_mem _ inside)
      simp [memberChangedPaths, memberChangedPlaces, first, later, Function.comp_def]

theorem Branch.changedPaths_eq_map (branch : Branch) (written : String) :
    branch.changedPaths written =
      branch.changedPlaces.map fun place => place.foldl memberPath written := by
  induction branch generalizing written with
  | struct changed id members each =>
      cases changed with
      | true => rfl
      | false => exact memberChangedPaths_eq_map each written
  | _ =>
      simp only [changedPaths, changedPlaces]
      split <;> rfl

/-- Trees with the same members and the same marks have the same listings. -/
theorem Listing.of_same {tree other : Tree} (members : tree.member? = other.member?)
    (marks : ∀ id, MarkedAt tree.nodes id ↔ MarkedAt other.nodes id)
    (speaks : ∀ id, Speaks tree.nodes id ↔ Speaks other.nodes id) {id target : Nat} {place : Path}
    (listing : Listing tree id place target) : Listing other id place target := by
  induction listing with
  | here spoken => exact .here ((speaks _).mp spoken)
  | member unmarked found _ ih =>
      exact .member (fun marked => unmarked ((marks _).mpr marked)) (members ▸ found) ih

namespace Tree

variable {tree : Tree}

/-! ## Places of nodes -/

/-- Only one path leads from a node to another. -/
theorem eq_of_foldlM_member? (sound : Sound tree.nodes) {top id : Nat} {first second : Path}
    (isFirst : first.foldlM tree.member? top = some id)
    (isSecond : second.foldlM tree.member? top = some id) : first = second := by
  -- A path that goes on from a node does not come back to it.
  have away : ∀ {top child : Nat} {name : String} {rest : Path},
      tree.member? top name = some child → rest.foldlM tree.member? child ≠ some top :=
    fun found back => sound.not_below_child (mem_childrenAt_of_member? found)
      (below_of_foldlM_member? back)
  induction first generalizing top second with
  | nil =>
      cases isFirst
      cases second with
      | nil => rfl
      | cons name rest =>
          obtain ⟨child, found, later⟩ := Option.bind_eq_some_iff.mp isSecond
          exact absurd later (away found)
  | cons name rest ih =>
      obtain ⟨child, found, later⟩ := Option.bind_eq_some_iff.mp isFirst
      cases second with
      | nil =>
          cases isSecond
          exact absurd later (away found)
      | cons other others =>
          obtain ⟨child', found', later'⟩ := Option.bind_eq_some_iff.mp isSecond
          by_cases same : child = child'
          · subst same
            rw [eq_of_member?_eq sound found found', ih later later']
          · exact absurd (below_of_foldlM_member? later') (sound.not_below_both
              (mem_childrenAt_of_member? found) (mem_childrenAt_of_member? found') same
              (below_of_foldlM_member? later))

/-- Only one path leads from the root to a node. -/
theorem eq_of_find?_eq (sound : Sound tree.nodes) {id : Nat} {first second : Path}
    (isFirst : tree.find? first = some id) (isSecond : tree.find? second = some id) :
    first = second := by
  obtain ⟨root, isRoot, leads⟩ := Option.bind_eq_some_iff.mp isFirst
  obtain ⟨_, isRoot', leads'⟩ := Option.bind_eq_some_iff.mp isSecond
  obtain rfl := Option.some.inj (isRoot.symm.trans isRoot')
  exact eq_of_foldlM_member? sound leads leads'

/-! ## Texts of reports -/

/-- What the texts that a tree lists tell of the nodes that it reports. -/
structure TellsNodes (tree : Tree) (root : Nat) : Prop where
  /-- Reported are the nodes that are listed from the root, with the paths to them. -/
  mem_iff : ∀ report, report ∈ tree.reports ↔ Listing tree root report.2 report.1
  /-- Each report is listed as the text of its path. -/
  texts : tree.changedPaths = tree.reports.map fun report => report.2.text
  /-- No node is reported twice. -/
  nodup : (tree.reports.map (·.1)).Nodup
  /-- The path of a report leads to its node, and the text of the path does so exactly
  when the path is legible. -/
  leads : ∀ report ∈ tree.reports, tree.find? report.2 = some report.1 ∧
    (tree.find? (Path.ofText report.2.text) = some report.1 ↔ report.2.IsLegible)
  /-- Two nodes whose paths are legible are not listed as the same text. -/
  apart : ∀ first ∈ tree.reports, ∀ second ∈ tree.reports, first.2.IsLegible →
    second.2.IsLegible → first.2.text = second.2.text → first = second

variable {schema : Schema} {root : Nat}

theorem reports_eq_reportsAt (isRoot : tree.root = some root)
    (found : schemaAt tree.nodes root = some schema) :
    tree.reports = reportsAt tree.nodes schema root := by
  have rootSchema : tree.schema? = some schema := by
    unfold schema?
    rw [isRoot]
    exact found
  simp [reports, isRoot, rootSchema]

theorem map_place_reports_sublist (isRoot : tree.root = some root)
    (found : schemaAt tree.nodes root = some schema) :
    (tree.reports.map (·.2)).Sublist schema.places := by
  rw [reports_eq_reportsAt isRoot found, ← Branch.changedPlaces_eq_map_reportsAt]
  exact Branch.changedPlaces_sublist schema root

theorem tellsNodes_of_sound (sound : Sound tree.nodes) (isRoot : tree.root = some root)
    (found : schemaAt tree.nodes root = some schema) (distinct : schema.DistinctNames) :
    tree.TellsNodes root := by
  have isReport : ∀ report, report ∈ tree.reports ↔ Listing tree root report.2 report.1 := by
    intro report
    rw [reports_eq_reportsAt isRoot found]
    exact mem_reportsAt_iff sound found distinct
  have finds : ∀ report ∈ tree.reports, tree.find? report.2 = some report.1 :=
    fun report inside => find?_eq_of_listing isRoot ((isReport report).mp inside)
  constructor
  case mem_iff => exact isReport
  case texts =>
    rw [changedPaths, branch?_eq_some isRoot found, reports_eq_reportsAt isRoot found]
    dsimp only
    rw [Branch.changedPaths_eq_map, Branch.changedPlaces_eq_map_reportsAt, List.map_map]
    rfl
  case nodup =>
    have places := (map_place_reports_sublist isRoot found).nodup (Schema.nodup_places distinct)
    refine (List.Nodup.of_map _ places).map_on fun first isFirst second isSecond same => ?_
    exact Prod.ext same (eq_of_find?_eq sound (finds first isFirst) (same ▸ finds second isSecond))
  case leads =>
    intro report inside
    refine ⟨finds report inside, ?_⟩
    rw [← Path.ofText_text_iff]
    constructor
    · exact fun leads => eq_of_find?_eq sound leads (finds report inside)
    · exact fun same => same.symm ▸ finds report inside
  case apart =>
    intro first isFirst second isSecond legible legible' same
    have samePlace : first.2 = second.2 := by
      rw [← Path.ofText_text_iff.mpr legible, same, Path.ofText_text_iff.mpr legible']
    have sameNode := finds first isFirst
    rw [samePlace, finds second isSecond] at sameNode
    exact Prod.ext (Option.some.inj sameNode).symm samePlace

/-! ## Reports of bare trees -/

theorem memberReports_bare {nodes : Array Node} {members : List (String × Schema)}
    (each : ∀ member ∈ members, ∀ id,
      reportsAt (nodes.map Node.bare) member.2.bare id = reportsAt nodes member.2 id)
    (children : List Nat) :
    memberReports (nodes.map Node.bare) (Schema.bareMembers members) children =
      memberReports nodes members children := by
  induction members generalizing children with
  | nil => rfl
  | cons member rest ih =>
      cases children with
      | nil => rfl
      | cons child others =>
          have first := each member List.mem_cons_self child
          have later := ih (fun member inside => each member (List.mem_cons_of_mem _ inside)) others
          simp [Schema.bareMembers, memberReports, first, later]

theorem reportsAt_bare (nodes : Array Node) (schema : Schema) (id : Nat) :
    reportsAt (nodes.map Node.bare) schema.bare id = reportsAt nodes schema id := by
  induction schema generalizing id with
  | struct structId members each =>
      simp only [Schema.bare, reportsAt, Array.getElem?_map]
      rcases nodes[id]? with _ | ⟨schema, content, changed⟩
      · rfl
      · cases content with
        | struct children =>
            cases changed with
            | true => rfl
            | false => exact memberReports_bare each children
        | _ => rfl
  | _ =>
      rw [reportsAt_of_not_struct (by simp [Schema.bare]), reportsAt_of_not_struct (by simp),
        Branch.hasMark_ofNode_bare]

/-- A bare tree has the same listings. -/
@[simp]
theorem listing_bare (tree : Tree) (id : Nat) (place : Path) (target : Nat) :
    Listing tree.bare id place target ↔ Listing tree id place target := by
  have members : tree.bare.member? = tree.member? := by
    funext id name
    simp [member?]
  have marks : ∀ id, MarkedAt tree.bare.nodes id ↔ MarkedAt tree.nodes id := by simp
  have speaks : ∀ id, Speaks tree.bare.nodes id ↔ Speaks tree.nodes id := by simp [Speaks]
  constructor
  · exact Listing.of_same members marks speaks
  · exact Listing.of_same members.symm (fun id => (marks id).symm) fun id => (speaks id).symm

/-- A bare tree reports the same nodes. -/
@[simp]
theorem reports_bare (tree : Tree) : tree.bare.reports = tree.reports := by
  unfold reports schema? node? bare
  cases tree.root with
  | none => rfl
  | some root =>
      simp only [Option.bind_some, Array.getElem?_map]
      cases tree.nodes[root]? with
      | none => rfl
      | some node => exact reportsAt_bare tree.nodes node.schema root

/-- What is reported of a bare tree is reported of the tree. -/
theorem TellsNodes.of_bare (tells : tree.bare.TellsNodes root) : tree.TellsNodes root where
  mem_iff := by simpa using tells.mem_iff
  texts := by simpa using tells.texts
  nodup := by simpa using tells.nodup
  leads := by simpa using tells.leads
  apart := by simpa using tells.apart

/-! ## Edited trees -/

/-- However a fresh tree of a schema with different names is edited, and whichever of
its nodes are marked then: each text that it lists is that of the path to a node that it
reports, and leads back to that node exactly when the path is legible; and two nodes
whose paths are legible are not listed as the same text.  So where all places of the
schema are legible, no text is listed twice and all of them lead to their nodes. -/
theorem tellsNodes_edited {schema : Schema} (distinct : schema.DistinctNames) (edits : List Edit)
    {tree : Tree} (alike : tree.unmarkAll = ((ofSchema schema).edited edits).unmarkAll) :
    ∃ root, tree.root = some root ∧ tree.TellsNodes root ∧
      ((∀ place ∈ schema.places, place.IsLegible) → tree.changedPaths.Nodup ∧
        ∀ report ∈ tree.reports,
          tree.find? (Path.ofText report.2.text) = some report.1) := by
  -- The schema may have tags that do not fit, so the argument is about the bare tree.
  obtain ⟨others, mirrored⟩ := mirrored_edited (ofSchema schema) edits
  rw [ofSchema_bare] at mirrored
  have alikeBare : tree.bare.unmarkAll = ((ofSchema schema.bare).edited others).unmarkAll := by
    rw [← mirrored, ← unmarkAll_bare, ← unmarkAll_bare, alike]
  obtain ⟨root, isFresh, sound, freshSchema⟩ := exists_root_ofSchema schema.wellTagged_bare
  have edited := evolution_edited sound others
  have marked := evolution_of_unmarkAll_eq edited.sound alikeBare
  have isRoot : tree.bare.root = some root :=
    marked.root.trans (edited.root.trans isFresh)
  have found := marked.growth.schema (edited.growth.schema freshSchema)
  have tells : tree.TellsNodes root :=
    .of_bare (tellsNodes_of_sound marked.sound isRoot found distinct.bare)
  refine ⟨root, isRoot, tells, fun legible => ?_⟩
  have places : (tree.reports.map (·.2)).Sublist schema.places := by
    simpa [Schema.places_bare] using map_place_reports_sublist isRoot found
  have isLegible : ∀ report ∈ tree.reports, report.2.IsLegible :=
    fun report inside => legible _ (places.subset (List.mem_map_of_mem inside))
  refine ⟨?_, fun report inside => (tells.leads report inside).2.mpr (isLegible report inside)⟩
  rw [tells.texts]
  refine (List.Nodup.of_map _ tells.nodup).map_on fun first isFirst second isSecond => ?_
  exact tells.apart first isFirst second isSecond (isLegible first isFirst)
    (isLegible second isSecond)

/-- A tank with a reading that has no name, and an alarm.  The name that is missing is
not at the top, so all texts lead back. -/
theorem tellsNodes_edited_tank :
    let schema := Schema.struct none
      [("tank", .struct none [("", .scalar (.scalar .int)), ("level", .scalar (.scalar .int))]),
        ("alarm", .scalar (.scalar .boolean))]
    let edits := [Edit.putScalar 1 (.zeroOf .int), .unmarkAll]
    let tree := [0, 3].foldl mark ((ofSchema schema).edited edits)
    schema.DistinctNames ∧ tree.unmarkAll = ((ofSchema schema).edited edits).unmarkAll ∧
      tree.changedPaths = ["tank.", "alarm"] ∧
      tree.reports = [(0, ["tank", ""]), (3, ["alarm"])] ∧
      ∀ report ∈ tree.reports, tree.find? (Path.ofText report.2.text) = some report.1 := by
  intro schema edits tree
  have distinct : schema.DistinctNames := by
    simp [schema, Schema.DistinctNames, Schema.Everywhere, Schema.MembersEverywhere,
      Schema.HasDistinctMembers]
  have alike : tree.unmarkAll = ((ofSchema schema).edited edits).unmarkAll := by decide +kernel
  have legible : ∀ place ∈ schema.places, place.IsLegible := by
    simp [schema, Schema.places, Schema.memberPlaces, Path.IsLegible]
  obtain ⟨root, _, _, leads⟩ := tellsNodes_edited distinct edits alike
  exact ⟨distinct, alike, by decide +kernel, by decide +kernel, (leads legible).2⟩

/-- The names in both structures are different, but the texts of paths mislead: one for
a name with a point leads to another member, and is listed twice when both are marked;
and one for a name that is empty leads to the root. -/
theorem texts_mislead :
    let pair := Schema.struct none
      [("a.b", .scalar (.scalar .int)), ("a", .struct none [("b", .scalar (.scalar .int))])]
    let nameless := Schema.struct none [("", .scalar (.scalar .int))]
    pair.DistinctNames ∧ nameless.DistinctNames ∧
      ((ofSchema pair).mark 0).reports = [(0, ["a.b"])] ∧
      ((ofSchema pair).mark 0).changedPaths = ["a.b"] ∧
      ((ofSchema pair).mark 0).find? (Path.ofText "a.b") = some 1 ∧
      (((ofSchema pair).mark 0).mark 1).changedPaths = ["a.b", "a.b"] ∧
      ((ofSchema nameless).mark 0).reports = [(0, [""])] ∧
      ((ofSchema nameless).mark 0).changedPaths = [""] ∧
      ((ofSchema nameless).mark 0).find? (Path.ofText "") = some 1 := by
  intro pair nameless
  refine ⟨?_, ?_, by decide +kernel, by decide +kernel, by decide +kernel, by decide +kernel,
    by decide +kernel, by decide +kernel, by decide +kernel⟩ <;>
    simp [pair, nameless, Schema.DistinctNames, Schema.Everywhere, Schema.MembersEverywhere,
      Schema.HasDistinctMembers]

end Tree

end Wire

end ProcessImage
