import LineCensus.Proofs.FileTree.Order

/-!
# Places in a tree

A place is a chain of names from the root of a tree, where no link is followed. Where segments lead
can be told by places alone: a route goes from one place to another, records the links that it
follows and passes each place that it enters (`FileTree.Route`). There is one route at most
(`FileTree.Route.unique`), and it leads to the position at its last place
(`FileTree.leads_iff_route`). So an entry is followed within the limits along its route
(`FileTree.follow_eq_some_iff_resolves`).
-/
namespace LineCensus

/-- At the end of two chains of names is what the second leads to from the end of the first. -/
theorem Node.descend?_append (front back : List EntryName) (node : Node) :
    node.descend? (front ++ back) = (node.descend? front).bind (Node.descend? back) := by
  induction front generalizing node with
  | nil => rfl
  | cons name others step =>
    rw [List.cons_append, Node.descend?, Node.descend?]
    cases node.entries.find? name with
    | none => rfl
    | some child => exact step child

namespace FileTree

/-- The node at a place. -/
def at? (tree : FileTree) (place : List EntryName) : Option Node := tree.root.descend? place

/-- The position at a place. -/
def positionAt (tree : FileTree) (place : List EntryName) : Position :=
  place.foldl (fun position name =>
    position.down ((position.here.entries.find? name).getD (.directory []))) tree.rootPosition

/-- The place from which a path is followed. -/
def origin (place : List EntryName) (path : Path) : List EntryName :=
  if path.anchor = .root then [] else place

/-- Segments lead from a place to another one, over the links that hold the followed paths and
through the places passed. -/
inductive Route (tree : FileTree) :
    List EntryName → List EntryName → List Path → List (List EntryName) → List EntryName → Prop where
  /-- No segment is left. -/
  | arrived {place : List EntryName} : Route tree place [] [] [] place
  /-- The segment stands for the directory itself. -/
  | stay {place rest ending : List EntryName} {segment : EntryName} {followed : List Path}
    {passed : List (List EntryName)} (still : segment = [] ∨ segment = [fullStop])
    (onward : Route tree place rest followed passed ending) :
    Route tree place (segment :: rest) followed passed ending
  /-- The segment stands for the directory above. -/
  | up {place rest ending : List EntryName} {followed : List Path} {passed : List (List EntryName)}
    (onward : Route tree place.dropLast rest followed passed ending) :
    Route tree place ([fullStop, fullStop] :: rest) followed passed ending
  /-- The segment names a directory. -/
  | down {place rest ending : List EntryName} {segment : EntryName} {followed : List Path}
    {passed : List (List EntryName)} {entries : Entries} (enters : segment.Enters)
    (there : tree.at? (place ++ [segment]) = some (.directory entries))
    (onward : Route tree (place ++ [segment]) rest followed passed ending) :
    Route tree place (segment :: rest) followed ((place ++ [segment]) :: passed) ending
  /-- The segment names a link, and the path that the link holds is taken in its place. -/
  | link {place rest ending : List EntryName} {segment : EntryName} {followed : List Path}
    {passed : List (List EntryName)} {target : Path} (enters : segment.Enters)
    (there : tree.at? (place ++ [segment]) = some (.link target)) (nonempty : target ≠ [])
    (onward : Route tree (origin place target) (target.segments ++ rest) followed passed ending) :
    Route tree place (segment :: rest) (target :: followed) ((place ++ [segment]) :: passed) ending
  /-- The last segment names a node that is no directory and no link. -/
  | leaf {place : List EntryName} {segment : EntryName} {node : Node} (enters : segment.Enters)
    (there : tree.at? (place ++ [segment]) = some node)
    (noDirectory : ∀ entries, node ≠ .directory entries) (noLink : ∀ target, node ≠ .link target) :
    Route tree place [segment] [] [place ++ [segment]] (place ++ [segment])

section Places

variable {tree : FileTree} {place segments ending : List EntryName} {name : EntryName} {node : Node}
  {followed : List Path} {passed : List (List EntryName)} {reached : Position}

/-- The node at an entry is what the directory lists under the name. -/
theorem at?_concat (tree : FileTree) (place : List EntryName) (name : EntryName) :
    tree.at? (place ++ [name]) = (tree.at? place).bind fun node => node.entries.find? name := by
  unfold at?
  rw [Node.descend?_append]
  congr 1
  funext node
  unfold Node.descend? Node.descend?
  cases node.entries.find? name with
  | none => rfl
  | some _ => rfl

/-- There is a node at each place on the way to a node. -/
theorem isSome_at?_of_append {front back : List EntryName}
    (there : (tree.at? (front ++ back)).isSome) : (tree.at? front).isSome := by
  unfold at? at there ⊢
  rw [Node.descend?_append] at there
  exact Option.isSome_of_isSome_bind there

/-- The position at an entry is below the one at the directory. -/
theorem positionAt_concat (tree : FileTree) (place : List EntryName) (name : EntryName) :
    tree.positionAt (place ++ [name]) = (tree.positionAt place).down
      (((tree.positionAt place).here.entries.find? name).getD (.directory [])) := by
  unfold positionAt
  rw [List.foldl_append]
  rfl

/-- The position at a place is at the node there. -/
theorem here_positionAt (there : tree.at? place = some node) :
    (tree.positionAt place).here = node := by
  induction place using List.reverseRecOn generalizing node with
  | nil => exact Option.some.inj there
  | append_singleton front name step =>
    rw [at?_concat] at there
    obtain ⟨parent, above, listed⟩ := Option.bind_eq_some_iff.mp there
    rw [positionAt_concat, step above, listed]
    rfl

/-- At a place that is there, a name is listed for the node at the entry. -/
theorem find?_positionAt (there : (tree.at? place).isSome) (name : EntryName) :
    (tree.positionAt place).here.entries.find? name = tree.at? (place ++ [name]) := by
  obtain ⟨node, found⟩ := Option.isSome_iff_exists.mp there
  rw [at?_concat, here_positionAt found, found]
  rfl

/-- The position at an entry is below the one at the directory, at the node of the entry. -/
theorem down_positionAt (there : tree.at? (place ++ [name]) = some node) :
    (tree.positionAt place).down node = tree.positionAt (place ++ [name]) := by
  have above : (tree.at? place).isSome := isSome_at?_of_append (Option.isSome_of_eq_some there)
  rw [positionAt_concat, find?_positionAt above, there]
  rfl

/-- The position above that of a place is the one at the directory of the place. -/
theorem up_positionAt (tree : FileTree) (place : List EntryName) :
    (tree.positionAt place).up = tree.positionAt place.dropLast := by
  rcases List.eq_nil_or_concat place with rfl | ⟨front, name, rfl⟩
  · rfl
  · rw [List.concat_eq_append, positionAt_concat, List.dropLast_concat]
    rfl

/-- The directory of a place that is there is there. -/
theorem isSome_at?_dropLast (there : (tree.at? place).isSome) :
    (tree.at? place.dropLast).isSome := by
  rcases List.eq_nil_or_concat place with rfl | ⟨front, name, rfl⟩
  · exact there
  · rw [List.concat_eq_append] at there ⊢
    rw [List.dropLast_concat]
    exact isSome_at?_of_append there

/-- A path is followed from the position at its origin. -/
theorem start_positionAt (tree : FileTree) (place : List EntryName) (path : Path) :
    tree.start (tree.positionAt place) path = tree.positionAt (origin place path) := by
  unfold start origin
  split
  · rfl
  · rfl

/-- The origin of a path is there when the place is. -/
theorem isSome_at?_origin (there : (tree.at? place).isSome) (path : Path) :
    (tree.at? (origin place path)).isSome := by
  unfold origin
  split
  · rfl
  · exact there

/-- A route ends at a place that is there. -/
theorem Route.isSome_at? (route : tree.Route place segments followed passed ending)
    (there : (tree.at? place).isSome) : (tree.at? ending).isSome := by
  induction route with
  | arrived => exact there
  | stay _ _ step => exact step there
  | up _ step => exact step (isSome_at?_dropLast there)
  | down _ found _ step => exact step (Option.isSome_of_eq_some found)
  | link _ _ _ _ step => exact step (isSome_at?_origin there _)
  | leaf _ found => exact Option.isSome_of_eq_some found

/-- A route leads to the position at its last place. -/
theorem Route.leads (route : tree.Route place segments followed passed ending)
    (there : (tree.at? place).isSome) :
    tree.Leads (tree.positionAt place) segments followed (tree.positionAt ending) := by
  induction route with
  | arrived => exact .arrived
  | stay still _ step => exact .stay still (step there)
  | up _ step =>
    refine .up ?_
    rw [up_positionAt]
    exact step (isSome_at?_dropLast there)
  | down enters found _ step =>
    refine .down enters ((find?_positionAt there _).trans found) ?_
    rw [down_positionAt found]
    exact step (Option.isSome_of_eq_some found)
  | link enters found nonempty _ step =>
    refine .link enters ((find?_positionAt there _).trans found) nonempty ?_
    rw [start_positionAt]
    exact step (isSome_at?_origin there _)
  | leaf enters found noDirectory noLink =>
    rw [← down_positionAt found]
    exact .leaf enters ((find?_positionAt there _).trans found) noDirectory noLink

/-- Where segments lead from a place that is there is where a route ends. -/
theorem leads_iff_route (there : (tree.at? place).isSome) :
    tree.Leads (tree.positionAt place) segments followed reached ↔
      ∃ passed ending, tree.Route place segments followed passed ending ∧
        reached = tree.positionAt ending := by
  refine ⟨fun leads => ?_, fun ⟨_, _, route, same⟩ => same ▸ route.leads there⟩
  generalize start : tree.positionAt place = position at leads
  induction leads generalizing place with
  | arrived => exact ⟨[], place, .arrived, start.symm⟩
  | stay still _ step =>
    obtain ⟨passed, ending, route, same⟩ := step there start
    exact ⟨passed, ending, .stay still route, same⟩
  | up _ step =>
    obtain ⟨passed, ending, route, same⟩ :=
      step (isSome_at?_dropLast there) (by rw [← start, up_positionAt])
    exact ⟨passed, ending, .up route, same⟩
  | down enters listed _ step =>
    rw [← start, find?_positionAt there] at listed
    obtain ⟨passed, ending, route, same⟩ :=
      step (Option.isSome_of_eq_some listed) (by rw [← start, down_positionAt listed])
    exact ⟨_, ending, .down enters listed route, same⟩
  | link enters listed nonempty _ step =>
    rw [← start, find?_positionAt there] at listed
    obtain ⟨passed, ending, route, same⟩ :=
      step (isSome_at?_origin there _) (by rw [← start, start_positionAt])
    exact ⟨_, ending, .link enters listed nonempty route, same⟩
  | leaf enters listed noDirectory noLink =>
    rw [← start, find?_positionAt there] at listed
    exact ⟨_, _, .leaf enters listed noDirectory noLink, by rw [← start, down_positionAt listed]⟩

/-- Where a route goes is decided by the first segment. -/
theorem route_cons_iff {segment : EntryName} {rest : List EntryName} :
    tree.Route place (segment :: rest) followed passed ending ↔
      if segment = [] ∨ segment = [fullStop] then tree.Route place rest followed passed ending
      else if segment = [fullStop, fullStop] then
        tree.Route place.dropLast rest followed passed ending
      else segment.length ≤ maxNameLength ∧ ∃ later, passed = (place ++ [segment]) :: later ∧
        match tree.at? (place ++ [segment]) with
        | none => False
        | some (.directory _) => tree.Route (place ++ [segment]) rest followed later ending
        | some (.link target) => target ≠ [] ∧ ∃ more, followed = target :: more ∧
          tree.Route (origin place target) (target.segments ++ rest) more later ending
        | some _ => rest = [] ∧ followed = [] ∧ later = [] ∧ ending = place ++ [segment] := by
  constructor
  · intro route
    cases route with
    | stay still onward => rwa [if_pos still]
    | up onward => rwa [if_neg (by decide), if_pos rfl]
    | down enters there onward =>
      rw [if_neg enters.named, if_neg enters.notAbove, there]
      exact ⟨enters.short, _, rfl, onward⟩
    | link enters there nonempty onward =>
      rw [if_neg enters.named, if_neg enters.notAbove, there]
      exact ⟨enters.short, _, rfl, nonempty, _, rfl, onward⟩
    | @leaf _ _ node enters there noDirectory noLink =>
      rw [if_neg enters.named, if_neg enters.notAbove, there]
      refine ⟨enters.short, _, rfl, ?_⟩
      cases node with
      | directory entries => exact absurd rfl (noDirectory entries)
      | link target => exact absurd rfl (noLink target)
      | file bytes => exact ⟨rfl, rfl, rfl, rfl⟩
      | unreadable => exact ⟨rfl, rfl, rfl, rfl⟩
      | special => exact ⟨rfl, rfl, rfl, rfl⟩
  · intro onward
    split at onward
    · next still => exact .stay still onward
    split at onward
    · next above => exact above ▸ .up onward
    next named notAbove =>
    obtain ⟨short, later, rfl, onward⟩ := onward
    have enters : segment.Enters := ⟨named, notAbove, short⟩
    split at onward
    · exact onward.elim
    · next there => exact .down enters there onward
    · next there =>
      obtain ⟨nonempty, more, rfl, onward⟩ := onward
      exact .link enters there nonempty onward
    · next noDirectory noLink there =>
      obtain ⟨rfl, rfl, rfl, rfl⟩ := onward
      exact .leaf enters there noDirectory noLink

/-- There is one route. -/
theorem Route.unique {other : List Path} {otherPassed : List (List EntryName)}
    {otherEnding : List EntryName} (route : tree.Route place segments followed passed ending)
    (otherRoute : tree.Route place segments other otherPassed otherEnding) :
    followed = other ∧ passed = otherPassed ∧ ending = otherEnding := by
  induction route generalizing other otherPassed with
  | arrived =>
    cases otherRoute
    exact ⟨rfl, rfl, rfl⟩
  | stay still _ step =>
    rw [route_cons_iff, if_pos still] at otherRoute
    exact step otherRoute
  | up _ step =>
    rw [route_cons_iff, if_neg (by decide), if_pos rfl] at otherRoute
    exact step otherRoute
  | down enters there _ step =>
    rw [route_cons_iff, if_neg enters.named, if_neg enters.notAbove, there] at otherRoute
    obtain ⟨_, later, rfl, onward⟩ := otherRoute
    obtain ⟨rfl, rfl, rfl⟩ := step onward
    exact ⟨rfl, rfl, rfl⟩
  | link enters there _ _ step =>
    rw [route_cons_iff, if_neg enters.named, if_neg enters.notAbove, there] at otherRoute
    obtain ⟨_, later, rfl, _, more, rfl, onward⟩ := otherRoute
    obtain ⟨rfl, rfl, rfl⟩ := step onward
    exact ⟨rfl, rfl, rfl⟩
  | @leaf _ _ node enters there noDirectory noLink =>
    rw [route_cons_iff, if_neg enters.named, if_neg enters.notAbove, there] at otherRoute
    obtain ⟨_, later, rfl, onward⟩ := otherRoute
    cases node with
    | directory entries => exact absurd rfl (noDirectory entries)
    | link target => exact absurd rfl (noLink target)
    | file bytes =>
      obtain ⟨_, rfl, rfl, rfl⟩ := onward
      exact ⟨rfl, rfl, rfl⟩
    | unreadable =>
      obtain ⟨_, rfl, rfl, rfl⟩ := onward
      exact ⟨rfl, rfl, rfl⟩
    | special =>
      obtain ⟨_, rfl, rfl, rfl⟩ := onward
      exact ⟨rfl, rfl, rfl⟩

/-- The entry of a directory resolves to a place, through the places passed: there is a route along
its name, over links that are few enough and hold paths that are short enough. -/
def Resolves (tree : FileTree) (directory : List EntryName) (name : EntryName)
    (passed : List (List EntryName)) (ending : List EntryName) : Prop :=
  ∃ followed, tree.Route directory [name] followed passed ending ∧ followed.length ≤ maxLinks ∧
    ∀ target ∈ followed, fits target

/-- An entry is followed to the position at the place to which it resolves. -/
theorem follow_eq_some_iff_resolves (there : (tree.at? place).isSome) :
    tree.follow true maxLinks (tree.positionAt place) [name] = some reached ↔
      ∃ passed ending, tree.Resolves place name passed ending ∧
        reached = tree.positionAt ending := by
  rw [follow_eq_some_iff]
  unfold Resolves
  constructor
  · rintro ⟨followed, leads, few, short⟩
    obtain ⟨passed, ending, route, same⟩ := (leads_iff_route there).mp leads
    exact ⟨passed, ending, ⟨followed, route, few, short⟩, same⟩
  · rintro ⟨passed, ending, ⟨followed, route, few, short⟩, rfl⟩
    exact ⟨followed, route.leads there, few, short⟩

end Places

end FileTree

end LineCensus
