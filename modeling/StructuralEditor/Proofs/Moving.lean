/-
StructuralEditor/Proofs/Moving.lean

What a move keeps, and how two moves compose.

Both are read off the steps of a gap.  A move keeps the rest of the document and the
item (`move_keeps_items`), because its step keeps the excerpt.  And the second of two
moves does what the step of the gap says that starts where the first one has ended
(`move_after_move`):

* a step past an item leads back by the step the other way;
* a step into the object of a property of an object leads on by a step out of it, which
  is a step past that property in all;
* a step out of an object leads back into it, to the far end of it.

Since a gap is filled in one way only, all this is so for the whole document.
-/
import StructuralEditor.Proofs.Conformity

namespace StructuralEditor.Editing

open Document

variable {direction : Vertical} {tree : Node} {selected : Path}

/-! ### One move -/

/-- **A move neither loses, duplicates nor alters anything.**  Either it is not applied,
and then there is no new document and no new selection.  Or the new selection stands in
the same item and leads to the same content, the two documents are the same without that
item, and the new one is well formed if the old one is. -/
theorem move_keeps_items (direction : Vertical) (tree : Node) (selected : Path) :
    ∃ outcome, move direction tree selected = .ok outcome ∧
      (outcome.isApplied = false ∧ outcome.change? = none ∨
        ∃ (rebuilt : Node) (target : Path) (l l' : LocatedItem), outcome.isApplied = true ∧
          outcome.change? = some ⟨some rebuilt, some target⟩ ∧
          l.Encloses tree selected ∧ l'.Encloses rebuilt target ∧
          l'.item = l.item ∧ l'.below = l.below ∧ rebuilt.get? target = tree.get? selected ∧
          rebuilt.deleteAt l'.path = tree.deleteAt l.path ∧
          (tree.IsWellFormed → rebuilt.IsWellFormed)) := by
  rcases move_declined_or_shifts direction ⟨tree, selected⟩ with ⟨reason, hmove⟩ |
    ⟨x, g, effect, g', s', hs, hshifts, hs', hmove⟩
  · exact ⟨_, hmove, .inl ⟨rfl, rfl⟩⟩
  · have ⟨hlist, _, _⟩ := hs.fills
    have ⟨hlist', _, _⟩ := hs'.fills
    refine ⟨_, hmove, .inr ⟨s'.tree, s'.selected, x.located g _, x.located g' _, rfl, rfl,
      hs.encloses hlist, hs'.encloses hlist', rfl, rfl, ?_, ?_, fun htree => ?_⟩⟩
    · exact hs'.get?_selected.trans hs.get?_selected.symm
    · exact hs'.fills.deleteAt.trans hs.fills.deleteAt.symm
    · have hfits := fits_of_shifts hs hshifts hs' (Grammar.fits_of_isWellFormed htree)
      exact Grammar.isWellFormed_of_fits trivial hfits

-- a move of each case: past a number, into the object of a property, and out of it again

example :
    move .down (.array [.null, .number "1"]) [.field "elements", .index 0] =
      .ok (.applied (.swapped .down) ⟨some (.array [.number "1", .null]),
        some [.field "elements", .index 1]⟩) := rfl

example :
    let item := Node.property (.string "a") .null
    let path : Path := [.field "properties", .index 0]
    let target : Path := path ++ .field "value" :: path
    move .down (.object [item, .property (.string "b") (.object [])]) path =
        .ok (.applied .entered ⟨some (.object [.property (.string "b") (.object [item])]),
          some target⟩) ∧
      move .up (.object [.property (.string "b") (.object [item])]) target =
        .ok (.applied .exited ⟨some (.object [item, .property (.string "b") (.object [])]),
          some path⟩) := ⟨rfl, rfl⟩

/-! ### Two moves -/

/-- Whether the list of a located item is that of an object. -/
def LocatedItem.InObject (l : LocatedItem) (tree : Node) : Prop :=
  ∃ owner, l.list = owner ++ [.field GroupKind.object.field] ∧
    tree.nodeAt? owner = some (.object l.items)

section

variable {x : Excerpt} {g g' : Gap} {s s' : Snapshot} {ns : List Node}

/-- The object around an item is an object without the item, too. -/
theorem Gap.Fills.nodeAt?_owner {rest item : Node} {owner : Path} {kind : GroupKind}
    {items : List Node} (h : g.Fills rest item tree)
    (hpath : g.list = owner ++ [Step.field kind.field])
    (hlist : rest.itemsAt? g.list = some ns)
    (howner : tree.nodeAt? owner = some (.group kind items)) :
    rest.nodeAt? owner = some (.group kind ns) := by
  have hput := h.put?_rest hlist
  rw [hpath, Node.put?_items howner] at hput
  exact Node.nodeAt?_eq_some.2 (Node.get?_put? hput)

namespace Excerpt.Makes

/-- What has passed an item passes it again on the way back. -/
theorem move_back_of_swapped (hs : x.Makes g s) (hs' : x.Makes g' s')
    (h : x.Shifts direction g (.swapped direction) g') :
    move direction.opposite s'.tree s'.selected =
      .ok (.applied (.swapped direction.opposite) ⟨some s.tree, some s.selected⟩) := by
  cases h with
  | @swapped list ns k neighbour hlist hk hplain =>
    have hback := @Excerpt.Shifts.swapped x direction.opposite list ns k neighbour hlist hk hplain
    rw [Vertical.opposite_opposite] at hback
    obtain ⟨s'', hs'', hmove⟩ := hs'.move_eq_ok hback
    rwa [hs''.unique hs] at hmove

/-- What has entered the object of a member of an object leaves it at the end that it has
gone to, and has changed places with that member. -/
theorem move_on_of_entered (hs : x.Makes g s) (hs' : x.Makes g' s')
    (h : x.Shifts direction g .entered g') (hlist : x.rest.itemsAt? g.list = some ns)
    (hobject : (x.located g ns).InObject s.tree) :
    ∃ j neighbour rebuilt, (x.located g ns).neighbour? direction = some (j, neighbour) ∧
      s.tree.put? g.list (.items (((Node.insertItem ns g.position x.item).set g.position
        neighbour).set j x.item)) = some rebuilt ∧
      move direction s'.tree s'.selected =
        .ok (.applied .exited ⟨some rebuilt, some (g.list ++ [Step.index j] ++ x.below)⟩) := by
  cases h with
  | @entered list ns' k key properties hlist' hk hproperty =>
    obtain rfl := Option.some.inj (hlist'.symm.trans hlist)
    obtain ⟨owner, hpath, howner⟩ := hobject
    obtain rfl : list = owner ++ [Step.field GroupKind.object.field] := hpath
    have hrest := hs.fills.nodeAt?_owner rfl hlist howner
    obtain ⟨s'', hs'', hmove⟩ := hs'.move_eq_ok (.exited hrest hk hproperty)
    refine ⟨_, _, s''.tree, x.neighbour?_of_beyond rfl hk, ?_, ?_⟩
    · rw [set_set_beyond direction hk, hs.fills.put?_eq]
      exact hs''.fills.put?_filled hlist
    · rw [hmove, hs''.selected]
      rfl

/-- What has left an object goes back to the far end of it. -/
theorem move_back_of_exited (hs : x.Makes g s) (hs' : x.Makes g' s')
    (h : x.Shifts direction g .exited g') (hlist : x.rest.itemsAt? g.list = some ns)
    (hobject : (x.located g ns).InObject s.tree) :
    ∃ rebuilt,
      s.tree.put? g.list (.items (Node.insertItem ns (direction.opposite.edge ns.length) x.item)) =
        some rebuilt ∧
      move direction.opposite s'.tree s'.selected = .ok (.applied .entered ⟨some rebuilt,
        some (g.list ++ [Step.index (direction.opposite.edge ns.length)] ++ x.below)⟩) := by
  cases h with
  | @exited owner ns' k key inner items howner hk hproperty =>
    have houter := Node.itemsAt?_of_group howner
    obtain rfl := Option.some.inj ((Node.itemsAt?_nested houter hk).symm.trans hlist)
    obtain rfl : inner = .object := by
      obtain ⟨owner', hpath, -⟩ := hobject
      have hlast := congrArg List.getLast? hpath
      simpa [Excerpt.located, Content.nestedItems, GroupKind.field_eq_object_iff] using hlast
    have hback :=
      @Excerpt.Shifts.entered x direction.opposite _ ns' k key items houter hk hproperty
    rw [Vertical.opposite_opposite] at hback
    obtain ⟨s'', hs'', hmove⟩ := hs'.move_eq_ok hback
    refine ⟨s''.tree, ?_, ?_⟩
    · rw [hs.fills.put?_eq]
      exact hs''.fills.put?_filled hlist
    · rw [hmove, hs''.selected]
      rfl

end Excerpt.Makes

end

/-- **How two moves compose.**  A move past an item is undone by the move the other way,
which again goes past an item.  In an object, a move into the object of a property is
followed the same way by a move out of it, and the two come to a change of places with
that property.  And a move out of an object is followed the other way by a move into it,
and the two send the item to the far end of that object: to the last place if it has left
upwards, and to the first one if downwards. -/
theorem move_after_move {effect : Effect} {change : Change}
    (h : move direction tree selected = .ok (.applied effect change)) :
    ∃ (l : LocatedItem) (mid : Node) (target : Path), l.Encloses tree selected ∧
      change = ⟨some mid, some target⟩ ∧
      (effect = .swapped direction ∧
          move direction.opposite mid target =
            .ok (.applied (.swapped direction.opposite) ⟨some tree, some selected⟩) ∨
        effect = .entered ∧ (l.InObject tree → ∃ j neighbour rebuilt,
          l.neighbour? direction = some (j, neighbour) ∧
          tree.put? l.list (.items ((l.items.set l.position neighbour).set j l.item)) =
            some rebuilt ∧
          move direction mid target = .ok (.applied .exited ⟨some rebuilt,
            some (l.list ++ [.index j] ++ l.below)⟩)) ∨
        effect = .exited ∧ (l.InObject tree → ∃ rebuilt,
          tree.put? l.list (.items (Node.insertItem (l.items.eraseIdx l.position)
            (direction.opposite.edge (l.items.length - 1)) l.item)) = some rebuilt ∧
          move direction.opposite mid target = .ok (.applied .entered ⟨some rebuilt,
            some (l.list ++ [.index (direction.opposite.edge (l.items.length - 1))] ++
              l.below)⟩))) := by
  rcases move_declined_or_shifts direction ⟨tree, selected⟩ with ⟨reason, hmove⟩ |
    ⟨x, g, effect', g', s', hs, hshifts, hs', hmove⟩
  · cases hmove.symm.trans h
  · obtain ⟨rfl, rfl⟩ := Outcome.applied.inj (Except.ok.inj (hmove.symm.trans h))
    have ⟨hlist, hle, _⟩ := hs.fills
    refine ⟨x.located g _, s'.tree, s'.selected, hs.encloses hlist, rfl, ?_⟩
    cases hshifts with
    | swapped hlist' hk hplain =>
      exact .inl ⟨rfl, hs.move_back_of_swapped hs' (.swapped hlist' hk hplain)⟩
    | entered hlist' hk hproperty =>
      exact .inr (.inl ⟨rfl, hs.move_on_of_entered hs' (.entered hlist' hk hproperty) hlist⟩)
    | exited howner hk hproperty =>
      refine .inr (.inr ⟨rfl, fun hobject => ?_⟩)
      have hback := hs.move_back_of_exited hs' (.exited howner hk hproperty) hlist hobject
      simpa [Excerpt.located, Node.eraseIdx_insertItem hle] using hback

/-- A property that goes into the object behind it and out again at the other end. -/
theorem move_after_move_into_object :
    let item := Node.property (.string "a") (.number "1")
    let empty := Node.property (.string "b") (.object [])
    let selected : Path := [.field "properties", .index 0, .field "value"]
    let mid := Node.object [.property (.string "b") (.object [item])]
    let target : Path := [.field "properties", .index 0, .field "value"] ++ selected
    move .down (.object [item, empty]) selected =
        .ok (.applied .entered ⟨some mid, some target⟩) ∧
      move .down mid target = .ok (.applied .exited ⟨some (.object [empty, item]),
        some [.field "properties", .index 1, .field "value"]⟩) := by
  intro item empty selected mid target
  have h : move .down (.object [item, empty]) selected =
      .ok (.applied .entered ⟨some mid, some target⟩) := rfl
  have hl : locateItem? (.object [item, empty]) selected =
      some ⟨[.field "properties"], 0, [item, empty], item, [.field "value"]⟩ := rfl
  refine ⟨h, ?_⟩
  obtain ⟨l, mid', target', hencloses, hchange, hmoves⟩ := move_after_move h
  obtain ⟨rfl, rfl⟩ : mid = mid' ∧ target = target' := by simpa using hchange
  obtain rfl := Option.some.inj (hl.symm.trans (locateItem?_eq_some_iff.2 hencloses))
  rcases hmoves with ⟨heffect, -⟩ | ⟨-, hentered⟩ | ⟨heffect, -⟩
  · cases heffect
  · obtain ⟨j, neighbour, rebuilt, hneighbour, hput, hmove⟩ := hentered ⟨[], rfl, rfl⟩
    obtain ⟨rfl, rfl⟩ := Prod.mk.inj (Option.some.inj hneighbour)
    obtain rfl := Option.some.inj hput
    exact hmove
  · cases heffect

end StructuralEditor.Editing
