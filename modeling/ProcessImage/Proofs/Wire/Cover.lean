import ProcessImage.Proofs.Wire.Listing

/-!
# What the listed paths cover

The paths that a tree lists are the least that cover its marks: each of them leads
to a node that has something to say for itself, none leads through another, and
every mark within reach of the root is below exactly one of the nodes that they
lead to.  They are listed in the order in which a schema names its places.

The places of a branch are the paths of the listings from its node, so the
properties of the whole list are properties of listings.
-/

namespace ProcessImage.Wire

open Arena

/-! ## Places of a schema -/

namespace Schema

mutual

/-- The places of a schema that paths lead to: each one before those below it, and
members in order. -/
def places : Schema → List Path
  | .struct _ members => [] :: memberPlaces members
  | _ => [[]]

/-- The places of members, in order. -/
def memberPlaces : List (String × Schema) → List Path
  | [] => []
  | (name, schema) :: rest => schema.places.map (name :: ·) ++ memberPlaces rest

end

/-- The places of members begin with their names. -/
theorem mem_memberPlaces_iff {members : List (String × Schema)} {place : Path} :
    place ∈ memberPlaces members ↔
      ∃ member ∈ members, ∃ rest ∈ member.2.places, place = member.1 :: rest := by
  induction members with
  | nil => simp [memberPlaces]
  | cons member others ih => simp [memberPlaces, ih, eq_comm]

theorem nodup_memberPlaces {members : List (String × Schema)}
    (distinct : (members.map (·.1)).Nodup) (each : ∀ member ∈ members, member.2.places.Nodup) :
    (memberPlaces members).Nodup := by
  induction members with
  | nil => exact List.nodup_nil
  | cons member rest ih =>
      obtain ⟨new, others⟩ := List.nodup_cons.mp distinct
      refine List.nodup_append.mpr ⟨?_, ?_, ?_⟩
      · exact (each member List.mem_cons_self).map List.cons_injective
      · exact ih others fun member inside => each member (List.mem_cons_of_mem _ inside)
      · intro first isFirst second isSecond same
        obtain ⟨inner, _, rfl⟩ := List.mem_map.mp isFirst
        obtain ⟨other, isOther, inner', _, rfl⟩ := mem_memberPlaces_iff.mp isSecond
        obtain ⟨sameName, _⟩ := List.cons.inj same
        exact new (List.mem_map.mpr ⟨other, isOther, sameName.symm⟩)

/-- No place comes twice where the names in structures are different. -/
theorem nodup_places {schema : Schema} (distinct : schema.DistinctNames) : schema.places.Nodup := by
  induction schema with
  | struct id members each =>
      refine List.nodup_cons.mpr ⟨fun top => ?_, nodup_memberPlaces distinct.names
        fun member inside => each member inside (distinct.members_of_struct member inside)⟩
      obtain ⟨member, _, rest, _, same⟩ := mem_memberPlaces_iff.mp top
      cases same
  | _ => exact List.nodup_singleton _

theorem memberPlaces_bareMembers {members : List (String × Schema)}
    (each : ∀ member ∈ members, member.2.bare.places = member.2.places) :
    memberPlaces (bareMembers members) = memberPlaces members := by
  induction members with
  | nil => rfl
  | cons member rest ih =>
      simp [bareMembers, memberPlaces, each member List.mem_cons_self,
        ih fun member inside => each member (List.mem_cons_of_mem _ inside)]

theorem places_bare (schema : Schema) : schema.bare.places = schema.places := by
  induction schema with
  | struct id members each => simp [bare, places, memberPlaces_bareMembers each]
  | _ => rfl

end Schema

/-! ## The order of places -/

namespace Branch

variable {nodes : Array Node}

theorem memberChangedPlaces_sublist {members : List (String × Schema)}
    (each : ∀ member ∈ members, ∀ id,
      (ofNode nodes member.2 id).changedPlaces.Sublist member.2.places) (children : List Nat) :
    (memberChangedPlaces (ofMembers nodes members children)).Sublist
      (Schema.memberPlaces members) := by
  induction members generalizing children with
  | nil => simp [ofMembers, memberChangedPlaces, Schema.memberPlaces]
  | cons member rest ih =>
      cases children with
      | nil => simp [ofMembers, memberChangedPlaces]
      | cons child others =>
          have first := each member List.mem_cons_self child
          have later := ih (fun member inside => each member (List.mem_cons_of_mem _ inside)) others
          exact (first.map _).append later

/-- The places of marks come in the order of the schema. -/
theorem changedPlaces_sublist (schema : Schema) (id : Nat) :
    (ofNode nodes schema id).changedPlaces.Sublist schema.places := by
  induction schema generalizing id with
  | struct structId members each =>
      unfold ofNode
      split
      · simp [changedPlaces, hasMark]
      · rename_i children changed _
        cases changed with
        | true => simp [changedPlaces, Schema.places]
        | false => exact (memberChangedPlaces_sublist each children).cons _
      · simp [changedPlaces, hasMark]
  | _ =>
      unfold ofNode
      split <;> simp [changedPlaces, Schema.places]

end Branch

/-! ## Listings and places -/

/-- The places of a branch are the paths that are listed from its node. -/
theorem Branch.mem_changedPlaces_iff {tree : Tree} {id : Nat} (sound : Sound tree.nodes)
    {schema : Schema} (found : schemaAt tree.nodes id = some schema)
    (distinct : schema.DistinctNames) {place : Path} :
    place ∈ (ofNode tree.nodes schema id).changedPlaces ↔
      ∃ target, Listing tree id place target := by
  rw [changedPlaces_eq_map_reportsAt, List.mem_map]
  constructor
  · rintro ⟨report, inside, rfl⟩
    exact ⟨report.1, (mem_reportsAt_iff sound found distinct).mp inside⟩
  · rintro ⟨target, listing⟩
    exact ⟨(target, place), (mem_reportsAt_iff sound found distinct).mpr listing, rfl⟩

/-! ## Covers -/

namespace Tree

/-- The paths that a tree lists are the least that cover the marks within reach of
its root, in the order of a schema. -/
structure CoversMarks (tree : Tree) (schema : Schema) (root : Nat) : Prop where
  /-- No listed path leads through another, and none is listed twice. -/
  apart : tree.changedPaths.Pairwise fun first second =>
    ¬ Path.ofText first <+: Path.ofText second ∧ ¬ Path.ofText second <+: Path.ofText first
  /-- A listed path leads to a node that is marked, or that is no structure and has
  a mark strictly below it, and nothing above that node is marked. -/
  leads : ∀ text ∈ tree.changedPaths, ∃ id, tree.find? (Path.ofText text) = some id ∧
    (MarkedAt tree.nodes id ∨
      ¬ IsStruct tree.nodes id ∧ ∃ other, Under tree.nodes id other ∧ MarkedAt tree.nodes other) ∧
    ∀ above, Under tree.nodes above id → ¬ MarkedAt tree.nodes above
  /-- A marked node is at or below the node of exactly one listed path. -/
  covers : ∀ id, Below tree.nodes root id → MarkedAt tree.nodes id →
    ∃! text, text ∈ tree.changedPaths ∧
      ∃ top, tree.find? (Path.ofText text) = some top ∧ Below tree.nodes top id
  /-- The paths come in the order in which the schema names its places. -/
  ordered : (tree.changedPaths.map Path.ofText).Sublist schema.places
  /-- Nothing is listed exactly when nothing is marked. -/
  nil_iff : tree.changedPaths = [] ↔ ∀ id, Below tree.nodes root id → ¬ MarkedAt tree.nodes id

variable {tree : Tree} {schema : Schema} {root : Nat}

/-- A path leads from the root. -/
theorem find?_eq_of_listing (isRoot : tree.root = some root) {place : Path} {target : Nat}
    (listing : Listing tree root place target) : tree.find? place = some target := by
  rw [find?, isRoot, Option.bind_some, listing.leads]

/-- The texts that a tree lists write the places of its branch. -/
theorem map_ofText_changedPaths (sound : Sound tree.nodes) (isRoot : tree.root = some root)
    (found : schemaAt tree.nodes root = some schema) (plain : schema.PlainNames)
    (distinct : schema.DistinctNames) :
    tree.changedPaths.map Path.ofText = (Branch.ofNode tree.nodes schema root).changedPlaces := by
  have named := Branch.wellNamed_ofNode sound plain distinct found
  simp [changedPaths, branch?_eq_some isRoot found, Branch.map_ofText_changedPaths named,
    Path.ofText]

/-- The texts that a tree lists write the paths of the listings from its root, each
once and in the order of the schema. -/
structure WritesListings (tree : Tree) (schema : Schema) (root : Nat) : Prop where
  mem_iff : ∀ place, place ∈ tree.changedPaths.map Path.ofText ↔
    ∃ target, Listing tree root place target
  nodup : (tree.changedPaths.map Path.ofText).Nodup
  ordered : (tree.changedPaths.map Path.ofText).Sublist schema.places

theorem writesListings_of_sound (sound : Sound tree.nodes) (isRoot : tree.root = some root)
    (found : schemaAt tree.nodes root = some schema) (plain : schema.PlainNames)
    (distinct : schema.DistinctNames) : tree.WritesListings schema root := by
  have written := map_ofText_changedPaths sound isRoot found plain distinct
  have ordered : (tree.changedPaths.map Path.ofText).Sublist schema.places :=
    written ▸ Branch.changedPlaces_sublist schema root
  refine ⟨fun place => ?_, ordered.nodup (Schema.nodup_places distinct), ordered⟩
  rw [written]
  exact Branch.mem_changedPlaces_iff sound found distinct

namespace WritesListings

variable (writes : tree.WritesListings schema root)

include writes

theorem exists_listing {text : String} (inside : text ∈ tree.changedPaths) :
    ∃ target, Listing tree root (Path.ofText text) target :=
  (writes.mem_iff _).mp (List.mem_map_of_mem inside)

theorem exists_text {place : Path} {target : Nat} (listing : Listing tree root place target) :
    ∃ text ∈ tree.changedPaths, Path.ofText text = place :=
  List.mem_map.mp ((writes.mem_iff place).mpr ⟨target, listing⟩)

theorem apart (sound : Sound tree.nodes) :
    tree.changedPaths.Pairwise fun first second =>
      ¬ Path.ofText first <+: Path.ofText second ∧ ¬ Path.ofText second <+: Path.ofText first := by
  refine (List.pairwise_map.mp writes.nodup).imp_of_mem fun isFirst isSecond different => ?_
  obtain ⟨_, first⟩ := writes.exists_listing isFirst
  obtain ⟨_, second⟩ := writes.exists_listing isSecond
  constructor
  · exact fun begins => different (first.eq_of_prefix sound second begins)
  · exact fun begins => different (second.eq_of_prefix sound first begins).symm

theorem existsUnique_above (sound : Sound tree.nodes) (isRoot : tree.root = some root)
    (found : schemaAt tree.nodes root = some schema) (distinct : schema.DistinctNames) {id : Nat}
    (inside : Below tree.nodes root id) (marked : MarkedAt tree.nodes id) :
    ∃! text, text ∈ tree.changedPaths ∧
      ∃ top, tree.find? (Path.ofText text) = some top ∧ Below tree.nodes top id := by
  obtain ⟨place, target, listing, below⟩ :=
    Listing.exists_of_markedAt sound found distinct inside marked
  obtain ⟨text, isText, rfl⟩ := writes.exists_text listing
  refine ⟨text, ⟨isText, target, find?_eq_of_listing isRoot listing, below⟩, ?_⟩
  rintro other ⟨isOther, top, foundTop, belowTop⟩
  obtain ⟨target', listing'⟩ := writes.exists_listing isOther
  rw [find?_eq_of_listing isRoot listing'] at foundTop
  cases foundTop
  have samePlace := (listing'.unique sound listing belowTop below).1
  exact List.inj_on_of_nodup_map writes.nodup isOther isText samePlace

theorem nil_iff (sound : Sound tree.nodes) (found : schemaAt tree.nodes root = some schema)
    (distinct : schema.DistinctNames) :
    tree.changedPaths = [] ↔ ∀ id, Below tree.nodes root id → ¬ MarkedAt tree.nodes id := by
  constructor
  · intro none id inside marked
    obtain ⟨_, _, listing, _⟩ := Listing.exists_of_markedAt sound found distinct inside marked
    obtain ⟨text, isText, _⟩ := writes.exists_text listing
    simp [none] at isText
  · intro unmarked
    refine List.eq_nil_iff_forall_not_mem.mpr fun text inside => ?_
    obtain ⟨target, listing⟩ := writes.exists_listing inside
    obtain ⟨other, below, marked⟩ := listing.speaks.markedBelow
    exact unmarked other (listing.below_target.trans below) marked

end WritesListings

/-- The paths that a tree with sound nodes lists cover its marks. -/
theorem coversMarks_of_sound (sound : Sound tree.nodes) (isRoot : tree.root = some root)
    (found : schemaAt tree.nodes root = some schema) (top : Orphan tree.nodes root)
    (plain : schema.PlainNames) (distinct : schema.DistinctNames) :
    tree.CoversMarks schema root := by
  have writes := writesListings_of_sound sound isRoot found plain distinct
  constructor
  case apart => exact writes.apart sound
  case leads =>
    intro text inside
    obtain ⟨target, listing⟩ := writes.exists_listing inside
    refine ⟨target, find?_eq_of_listing isRoot listing, listing.speaks, fun above under => ?_⟩
    have onTheWay := sound.below_of_under_of_orphan top listing.below_target under
    exact listing.not_markedAt_of_under sound onTheWay under
  case covers =>
    exact fun id inside marked =>
      writes.existsUnique_above sound isRoot found distinct inside marked
  case ordered => exact writes.ordered
  case nil_iff => exact writes.nil_iff sound found distinct

/-- What a bare tree lists covers the marks of the tree. -/
theorem CoversMarks.of_bare (covers : tree.bare.CoversMarks schema.bare root) :
    tree.CoversMarks schema root where
  apart := by simpa using covers.apart
  leads := by simpa using covers.leads
  covers := by simpa using covers.covers
  ordered := by simpa [Schema.places_bare] using covers.ordered
  nil_iff := by simpa using covers.nil_iff

/-! ## Any pattern of marks -/

@[simp]
theorem schemaAt_unmarkAll (tree : Tree) : schemaAt tree.unmarkAll.nodes = schemaAt tree.nodes := by
  funext id
  simp [schemaAt, unmarkAll, Function.comp_def]

@[simp]
theorem contentAt_unmarkAll (tree : Tree) :
    contentAt tree.unmarkAll.nodes = contentAt tree.nodes := by
  funext id
  simp [contentAt, unmarkAll, Function.comp_def]

/-- A tree evolves into each tree that is the same without the marks. -/
theorem evolution_of_unmarkAll_eq {before after : Tree} (sound : Sound before.nodes)
    (alike : after.unmarkAll = before.unmarkAll) : Evolution (fun _ => False) before after := by
  apply Evolution.of_marks sound
  · rw [← schemaAt_unmarkAll after, alike, schemaAt_unmarkAll]
  · rw [← contentAt_unmarkAll after, alike, contentAt_unmarkAll]
  · simpa [unmarkAll] using congrArg (·.nodes.size) alike
  · simpa [unmarkAll] using congrArg (·.root) alike

/-- However a fresh tree of a schema with plain and different names is edited, and
whichever of its nodes are marked then, the paths that it lists are the least that
cover its marks.  Surveys of the tree end, and list these paths. -/
theorem coversMarks_edited {schema : Schema} (plain : schema.PlainNames)
    (distinct : schema.DistinctNames) (edits : List Edit) {tree : Tree}
    (alike : tree.unmarkAll = ((ofSchema schema).edited edits).unmarkAll) :
    ∃ root, tree.root = some root ∧ tree.CoversMarks schema root ∧
      ∃ enough, ∀ visits ≥ enough, tree.surveyed visits = some tree.changedPaths := by
  -- The schema may have tags that do not fit, so the argument is about the bare tree.
  obtain ⟨others, mirrored⟩ := mirrored_edited (ofSchema schema) edits
  rw [ofSchema_bare] at mirrored
  have alikeBare : tree.bare.unmarkAll = ((ofSchema schema.bare).edited others).unmarkAll := by
    rw [← mirrored, ← unmarkAll_bare, ← unmarkAll_bare, alike]
  obtain ⟨root, fresh⟩ := intact_ofSchema schema.wellTagged_bare
  obtain ⟨_, _, soundFresh, _⟩ := exists_root_ofSchema schema.wellTagged_bare
  have edited := evolution_edited soundFresh others
  have marked := evolution_of_unmarkAll_eq edited.sound alikeBare
  have intact := (fresh.evolve edited).evolve marked
  refine ⟨root, intact.isRoot, .of_bare (coversMarks_of_sound marked.sound intact.isRoot
    intact.rootSchema intact.top plain.bare distinct.bare), ?_⟩
  simpa using exists_surveyed_of_sound marked.sound intact.isRoot intact.rootSchema

/-- A tree with a pair, an array of points and a choice.  Marked are a part of the
pair, a coordinate of the second point, that of the point that was chosen, and that
of a point that the choice let go. -/
theorem coversMarks_edited_points :
    let point := [("x", Schema.scalar (.scalar .int))]
    let schema := Schema.struct none
      [("pair", .struct none [("left", .scalar (.scalar .int)), ("right", .scalar .struct)]),
        ("points", .structArray (some "Point") point none none),
        ("choice", .union none [("none", .scalar (.scalar .int)), ("point", .struct none point)])]
    let edits := [Edit.resize 3 2, .select 4 "point", .select 4 "point"]
    let tree := [1, 8, 10, 12].foldl mark ((ofSchema schema).edited edits).unmarkAll
    schema.PlainNames ∧ schema.DistinctNames ∧
      tree.unmarkAll = ((ofSchema schema).edited edits).unmarkAll ∧
      tree.changedPaths = ["pair.right", "points", "choice"] ∧
      tree.CoversMarks schema 5 := by
  intro point schema edits tree
  have plain : schema.PlainNames := by
    simp [schema, point, Schema.PlainNames, Schema.Everywhere, Schema.MembersEverywhere,
      Schema.HasPlainMembers, Path.IsPlain]
  have distinct : schema.DistinctNames := by
    simp [schema, point, Schema.DistinctNames, Schema.Everywhere, Schema.MembersEverywhere,
      Schema.HasDistinctMembers]
  have alike : tree.unmarkAll = ((ofSchema schema).edited edits).unmarkAll := by decide +kernel
  have isRoot : tree.root = some 5 := by decide +kernel
  obtain ⟨root, rootEq, covers, _⟩ := coversMarks_edited plain distinct edits alike
  obtain rfl : 5 = root := Option.some.inj (isRoot ▸ rootEq)
  exact ⟨plain, distinct, alike, by decide +kernel, covers⟩

end Tree

end ProcessImage.Wire
