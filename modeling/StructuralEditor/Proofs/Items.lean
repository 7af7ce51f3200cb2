/-
StructuralEditor/Proofs/Items.lean

One item more, and one item less.

An insertion finds its place in one of three ways: the end of a list says it, a
selected array or object is entered at its head, and any other selection is followed
in the innermost list around it (`Receives`).  A deletion knows none of these ways.
It takes out the item at the deepest index of the selection, whatever that is.  The
two fit together because an insertion selects the new item or its empty name, which
is a field of the item: the deepest index is the new one (`insert_adds_one_item`).

A deletion that takes out an item leaves a document of fewer marks, and one that finds
no item leaves a null without any marks to spare.  So deletions from a valid selection
never stop to apply, and come to that null in the end (`delete_runs_out`).
-/
import StructuralEditor.Proofs.AnyPath
import StructuralEditor.Proofs.Stopping

namespace StructuralEditor.Editing

open Document Document.Node

variable {tree : Node} {selected owner : Path} {kind : GroupKind} {before after ns : List Node}

/-! ### The item that a deletion takes out -/

/-- **A deletion takes the deepest item out of its list**, and keeps all others in
their order. -/
theorem delete_of_item {item : Node} {below : Path}
    (hselected : selected = owner ++ [Step.field kind.field] ++ Step.index before.length :: below)
    (hbelow : ∀ step ∈ below, step.isIndex = false)
    (howner : tree.nodeAt? owner = some (.group kind (before ++ item :: after))) :
    ∃ rebuilt,
      tree.put? (owner ++ [Step.field kind.field]) (.items (before ++ after)) = some rebuilt ∧
      delete tree selected = .applied .itemDeleted ⟨some rebuilt,
        some (if selected.isAfterLast then []
          else owner ++ (Node.group kind (before ++ after)).entry)⟩ := by
  have hdeepest : deepestItem? selected =
      some (owner ++ [Step.field kind.field] ++ [Step.index before.length]) := by
    rw [deepestItem?, hselected, Path.splitAtLast_append rfl hbelow]
    rfl
  -- the end of the outermost list has no index in front of it
  have hinner : ¬ (selected.length = 2 && selected.isAfterLast) = true := by
    rintro houter
    obtain ⟨hlength, hlast⟩ := Bool.and_eq_true_iff.1 houter
    obtain ⟨p, hp⟩ := Path.isAfterLast_iff.1 hlast
    have hlength : selected.length = 2 := of_decide_eq_true hlength
    have hnil : below = [] := by
      rw [hselected] at hlength
      apply List.eq_nil_of_length_eq_zero
      simp only [List.length_append, List.length_cons, List.length_nil] at hlength
      omega
    rw [hselected, hnil] at hp
    have hstep := (List.append_inj' hp rfl).2
    simp at hstep
  have hlt : before.length < (before ++ item :: after).length := by
    rw [List.length_append, List.length_cons]
    omega
  obtain ⟨rebuilt, hput, heq⟩ := delete_of_deepest hinner hdeepest howner hlt
  rw [eraseIdx_append_cons] at hput heq
  exact ⟨rebuilt, (Node.put?_items howner _).trans hput, heq⟩

/-! ### Where an insertion goes -/

/-- Whether a node that is inserted at a selection goes into the list of a group, between
some items and the others. -/
inductive Receives (tree : Node) :
    Path → Path → GroupKind → List Node → List Node → Prop
  /-- The end of a list is followed by nothing. -/
  | atEnd {owner : Path} {kind : GroupKind} {ns : List Node}
      (howner : tree.nodeAt? owner = some (.group kind ns)) :
      Receives tree (owner ++ [.field kind.field] ++ [.afterLast]) owner kind ns []
  /-- The group itself is selected and entered at its head. -/
  | atHead {owner : Path} {kind : GroupKind} {ns : List Node}
      (howner : tree.nodeAt? owner = some (.group kind ns)) :
      Receives tree owner owner kind [] ns
  /-- The selection stands in an item of the innermost list that takes insertions. -/
  | behind {selected owner below : Path} {kind : GroupKind} {before after : List Node} {item : Node}
      (howner : tree.nodeAt? owner = some (.group kind (before ++ item :: after)))
      (hselected : selected = owner ++ [.field kind.field] ++ .index before.length :: below)
      (hbelow : ∀ step ∈ below, step.isFieldIn editableFields = false)
      (hlast : selected.isAfterLast = false)
      (hother : ∀ kind ns, tree.nodeAt? selected = some (.group kind ns) →
        kind ≠ .array ∧ kind ≠ .object) :
      Receives tree selected owner kind (before ++ [item]) after

/-- Whether a selection has no place for a node: it is the end of a list that takes no
insertions, or it stands in none that does and is none itself. -/
inductive HasNoPlace (tree : Node) : Path → Prop
  | atEnd {owner : Path} {kind : GroupKind} {ns : List Node}
      (howner : tree.nodeAt? owner = some (.group kind ns))
      (hkind : kind ≠ .array ∧ kind ≠ .object) :
      HasNoPlace tree (owner ++ [.field kind.field] ++ [.afterLast])
  | outside {selected : Path} (hlast : selected.isAfterLast = false)
      (hother : ∀ kind ns, tree.nodeAt? selected = some (.group kind ns) →
        kind ≠ .array ∧ kind ≠ .object)
      (hfields : ∀ step ∈ selected, step.isFieldIn editableFields = false) :
      HasNoPlace tree selected

theorem Receives.nodeAt?_owner (h : Receives tree selected owner kind before after) :
    tree.nodeAt? owner = some (.group kind (before ++ after)) := by
  cases h with
  | atEnd howner => rwa [List.append_nil]
  | atHead howner => exact howner
  | behind howner => rwa [List.append_assoc]

/-- The end of a list of items is a place in it. -/
theorem insertionPlace?_atEnd (howner : tree.nodeAt? owner = some (.group kind ns)) :
    insertionPlace? tree (owner ++ [Step.field kind.field] ++ [Step.afterLast]) =
      some (owner ++ [Step.field kind.field], ns.length) := by
  rw [insertionPlace?, Path.isAfterLast_snoc, List.dropLast_concat,
    Node.itemsAt?_of_group howner]
  rfl

/-- The names of the lists that take insertions belong to arrays and objects. -/
theorem field_mem_editableFields_iff :
    kind.field ∈ editableFields ↔ kind = .array ∨ kind = .object := by
  cases kind <;> simp [GroupKind.field, editableFields]

theorem Receives.insertionPlace? (h : Receives tree selected owner kind before after)
    (hkind : kind = .array ∨ kind = .object) :
    insertionPlace? tree selected = some (owner ++ [Step.field kind.field], before.length) := by
  cases h with
  | atEnd howner => exact insertionPlace?_atEnd howner
  | atHead howner => exact insertionPlace?_of_group howner hkind
  | behind howner hselected hbelow hlast hother =>
    have hfield : (Step.field kind.field).isFieldIn editableFields = true :=
      Step.isFieldIn_iff.2 ⟨_, field_mem_editableFields_iff.2 hkind, rfl⟩
    rw [insertionPlace?_of_other hlast hother, hselected, List.append_assoc,
      List.singleton_append, Path.splitAtLast_append hfield (List.forall_mem_cons.2 ⟨rfl, hbelow⟩)]
    simp [positionAfter]

/-- Every valid selection has no place for a node, or is one for a list that takes it. -/
theorem hasNoPlace_or_receives (h : tree.resolves selected = true) :
    HasNoPlace tree selected ∨
      ∃ owner kind before after, (kind = .array ∨ kind = .object) ∧
        Receives tree selected owner kind before after := by
  rcases hlast : selected.isAfterLast with - | -
  · by_cases hgroup : ∃ kind ns, tree.nodeAt? selected = some (.group kind ns) ∧
        (kind = .array ∨ kind = .object)
    · obtain ⟨kind, ns, hn, hkind⟩ := hgroup
      exact .inr ⟨selected, kind, [], ns, hkind, .atHead hn⟩
    · have hother : ∀ kind ns, tree.nodeAt? selected = some (.group kind ns) →
          kind ≠ .array ∧ kind ≠ .object :=
        fun kind ns hn => not_or.1 fun hkind => hgroup ⟨kind, ns, hn, hkind⟩
      rcases hsplit : selected.splitAtLast (Step.isFieldIn editableFields) with
        - | ⟨front, step, rest⟩
      · exact .inl (.outside hlast hother (Path.splitAtLast_eq_none.1 hsplit))
      · obtain ⟨name, rfl, hinner⟩ := IsInnermost.of_splitAtLast hsplit
        obtain ⟨kind, ns, rfl, howner, -, hrest⟩ := hinner.of_resolves editableFields_subset h
        obtain ⟨hselected, hname, hfields⟩ := hinner
        rcases hrest with rfl | ⟨i, n, below, rfl, hn, -⟩
        · -- the place after the last item would be the end of the selection
          rw [hselected, List.append_cons, Path.isAfterLast_snoc] at hlast
          cases hlast
        · obtain ⟨before, after, rfl, rfl⟩ := exists_split hn
          refine .inr ⟨front, kind, before ++ [n], after, field_mem_editableFields_iff.1 hname,
            .behind howner ?_ (List.forall_mem_cons.1 hfields).2 hlast hother⟩
          rw [hselected, List.append_assoc]
          rfl
  · obtain ⟨list, rfl⟩ := Path.isAfterLast_iff.1 hlast
    rw [Node.resolves, hlast, if_pos rfl, List.dropLast_concat] at h
    obtain ⟨ns, hns⟩ := Option.isSome_iff_exists.1 h
    obtain ⟨owner, kind, rfl, howner⟩ := owner_of_items hns
    by_cases hkind : kind = .array ∨ kind = .object
    · exact .inr ⟨owner, kind, ns, [], hkind, .atEnd howner⟩
    · exact .inl (.atEnd howner (not_or.1 hkind))

theorem HasNoPlace.insert_eq (h : HasNoPlace tree selected) (node : Node) :
    insert node tree selected = .ok (.declined .noListAround) := by
  cases h with
  | atEnd howner hkind =>
    refine insert_of_other node (insertionPlace?_atEnd howner) fun kind' ns' hn => ?_
    obtain ⟨rfl, -⟩ := Node.group.inj (Option.some.inj (howner.symm.trans hn))
    exact hkind
  | outside hlast hother hfields =>
    simp only [insert, insertionPlace?_of_other hlast hother,
      Path.splitAtLast_eq_none.2 hfields, Option.map_none]

/-! ### An insertion and back -/

/-- How a list takes a node: an array as an item of its own, which is selected, and an
object as the value of a property, of which the empty name is selected. -/
inductive TakesAs (node : Node) : GroupKind → Node → Path → Node → Prop
  | array : TakesAs node .array node [] node
  | object : TakesAs node .object (.property (.string "") node) [.field "key"] (.string "")

/-- An insertion into a list, and a deletion from what it selects. -/
theorem Receives.insert_eq (h : Receives tree selected owner kind before after)
    (hkind : kind = .array ∨ kind = .object) (node : Node) :
    ∃ item below marked rebuilt back,
      TakesAs node kind item below marked ∧
      tree.put? (owner ++ [Step.field kind.field]) (.items (before ++ item :: after)) =
        some rebuilt ∧
      insert node tree selected = .ok (.applied (.inserted before.length) ⟨some rebuilt,
        some (owner ++ [Step.field kind.field] ++ Step.index before.length :: below)⟩) ∧
      rebuilt.nodeAt? (owner ++ [Step.field kind.field] ++ Step.index before.length :: below) =
        some marked ∧
      delete rebuilt (owner ++ [Step.field kind.field] ++ Step.index before.length :: below) =
        .applied .itemDeleted ⟨some tree, some back⟩ := by
  have howner := h.nodeAt?_owner
  obtain ⟨item, below, rebuilt, hitem, hput, hinsert⟩ :=
    insert_eq_ok node (h.insertionPlace? hkind) howner hkind
  have hle : before.length ≤ (before ++ after).length := by
    rw [List.length_append]
    omega
  rw [Nat.min_eq_left hle, insertItem_append] at hput
  obtain ⟨marked, htakes, hmarked⟩ : ∃ marked, TakesAs node kind item below marked ∧
      item.nodeAt? below = some marked := by
    rcases hitem with ⟨rfl, rfl, rfl⟩ | ⟨rfl, rfl, rfl⟩
    · exact ⟨_, .array, rfl⟩
    · exact ⟨_, .object, rfl⟩
  have hnoIndex : ∀ step ∈ below, step.isIndex = false := by
    cases htakes <;> simp [Step.isIndex]
  -- in the new document the list has the new item, and without it the old items
  have hitems := Node.itemsAt?_eq_some.2 (Node.get?_put? hput)
  have howner' : rebuilt.nodeAt? owner = some (.group kind (before ++ item :: after)) := by
    rw [Node.put?_items howner] at hput
    exact Node.nodeAt?_eq_some.2 (Node.get?_put? hput)
  obtain ⟨restored, hrestored, hdelete⟩ := delete_of_item rfl hnoIndex howner'
  have hback : restored = tree := by
    rw [Node.put?_put? hput, Node.put?_self (Node.itemsAt?_eq_some.1
      (Node.itemsAt?_of_group howner))] at hrestored
    exact (Option.some.inj hrestored).symm
  rw [hback] at hdelete
  refine ⟨item, below, marked, rebuilt, _, htakes, hput, hinsert, ?_, hdelete⟩
  have hat := nodeAt?_index hitems (k := before.length) (n := item) (by simp)
  rw [List.append_cons, Node.nodeAt?_eq_some, Node.get?_append, Node.nodeAt?_eq_some.1 hat]
  exact Node.nodeAt?_eq_some.1 hmarked

/-- **An insertion adds one item, and a deletion takes it back.**  From a valid selection
an insertion declines exactly if there is no place for the node.  Otherwise one list gets
one item more at that place and nothing else changes; what the list takes the node as is
selected, or its empty name; and a deletion from there gives the old document back. -/
theorem insert_adds_one_item (h : tree.resolves selected = true) (node : Node) :
    ((∃ reason, insert node tree selected = .ok (.declined reason)) ↔
      HasNoPlace tree selected) ∧
    (¬ HasNoPlace tree selected →
      ∃ owner kind before after item below marked rebuilt back,
        Receives tree selected owner kind before after ∧
        TakesAs node kind item below marked ∧
        tree.itemsAt? (owner ++ [.field kind.field]) = some (before ++ after) ∧
        tree.put? (owner ++ [.field kind.field]) (.items (before ++ item :: after)) =
          some rebuilt ∧
        insert node tree selected = .ok (.applied (.inserted before.length) ⟨some rebuilt,
          some (owner ++ [.field kind.field] ++ .index before.length :: below)⟩) ∧
        rebuilt.nodeAt? (owner ++ [.field kind.field] ++ .index before.length :: below) =
          some marked ∧
        delete rebuilt (owner ++ [.field kind.field] ++ .index before.length :: below) =
          .applied .itemDeleted ⟨some tree, some back⟩) := by
  refine ⟨⟨?_, fun hno => ⟨_, hno.insert_eq node⟩⟩, fun hplace => ?_⟩
  · rintro ⟨reason, hdeclined⟩
    refine (hasNoPlace_or_receives h).resolve_right ?_
    rintro ⟨owner, kind, before, after, hkind, hreceives⟩
    obtain ⟨_, _, _, _, _, -, -, hinsert, -, -⟩ := hreceives.insert_eq hkind node
    cases hinsert.symm.trans hdeclined
  · obtain ⟨owner, kind, before, after, hkind, hreceives⟩ :=
      (hasNoPlace_or_receives h).resolve_left hplace
    obtain ⟨item, below, marked, rebuilt, back, htakes, hput, hinsert, hmarked, hdelete⟩ :=
      hreceives.insert_eq hkind node
    exact ⟨owner, kind, before, after, item, below, marked, rebuilt, back, hreceives, htakes,
      Node.itemsAt?_of_group hreceives.nodeAt?_owner, hput, hinsert, hmarked, hdelete⟩

/-- Behind the first property of an object, from its key. -/
theorem insert_adds_one_item_behind_key :
    let tree : Node := .program [.object [.property (.string "a") .null, .boolean true]]
    let list : Path := [.field "body", .index 0, .field "properties"]
    let selected : Path := list ++ [.index 0, .field "key"]
    tree.resolves selected = true ∧ ¬ HasNoPlace tree selected ∧
    ∃ owner kind before after item below marked rebuilt back,
      Receives tree selected owner kind before after ∧
      TakesAs (.number "1") kind item below marked ∧
      tree.itemsAt? (owner ++ [.field kind.field]) = some (before ++ after) ∧
      tree.put? (owner ++ [.field kind.field]) (.items (before ++ item :: after)) =
        some rebuilt ∧
      insert (.number "1") tree selected = .ok (.applied (.inserted before.length) ⟨some rebuilt,
        some (owner ++ [.field kind.field] ++ .index before.length :: below)⟩) ∧
      rebuilt.nodeAt? (owner ++ [.field kind.field] ++ .index before.length :: below) =
        some marked ∧
      delete rebuilt (owner ++ [.field kind.field] ++ .index before.length :: below) =
        .applied .itemDeleted ⟨some tree, some back⟩ := by
  intro tree list selected
  have hres : tree.resolves selected = true := by decide +kernel
  obtain ⟨hdeclines, hinserts⟩ := insert_adds_one_item hres (.number "1")
  have hplace : ¬ HasNoPlace tree selected := by
    rw [← hdeclines]
    rintro ⟨reason, hdeclined⟩
    have happlied : ((insert (.number "1") tree selected).toOption.map Outcome.isApplied) =
        some true := by
      decide +kernel
    rw [hdeclined] at happlied
    cases happlied
  exact ⟨hres, hplace, hinserts hplace⟩

/-! ### Deletions from a valid selection -/

/-- Whether a deletion takes the whole document: it is the end of the outermost list that
is selected, or a place that no index leads to, such as the root. -/
def TakesDocument (p : Path) : Prop :=
  (p.length = 2 ∧ p.isAfterLast = true) ∨ ∀ step ∈ p, step.isIndex = false

/-- The first place of a list: its first item, or its end if it is empty. -/
def firstPlace : List Node → Step
  | [] => .afterLast
  | _ :: _ => .index 0

/-- What a deletion makes of a snapshot: the whole document becomes null, or the item at
the deepest index goes and the first place of its list is selected. -/
inductive Removes (s : Snapshot) : Effect → Snapshot → Prop
  | document (hselected : TakesDocument s.selected) :
      Removes s .documentDeleted ⟨.null, []⟩
  | item {owner below : Path} {kind : GroupKind} {before after : List Node} {item rebuilt : Node}
      (hselected : s.selected = owner ++ [.field kind.field] ++ .index before.length :: below)
      (hbelow : ∀ step ∈ below, step.isIndex = false)
      (howner : s.tree.nodeAt? owner = some (.group kind (before ++ item :: after)))
      (hput : s.tree.put? (owner ++ [.field kind.field]) (.items (before ++ after)) =
        some rebuilt) :
      Removes s .itemDeleted ⟨rebuilt, if s.selected.isAfterLast then []
        else owner ++ [.field kind.field, firstPlace (before ++ after)]⟩

theorem entry_group (kind : GroupKind) (ns : List Node) :
    (Node.group kind ns).entry = [.field kind.field, firstPlace ns] := by
  cases ns <;> rfl

theorem delete_of_takesDocument (h : TakesDocument selected) :
    delete tree selected = .applied .documentDeleted ⟨some .null, some []⟩ := by
  rcases h with ⟨hlength, hlast⟩ | hnoIndex
  · rw [delete, if_pos (by simp [hlength, hlast])]
  · apply delete_document
    rw [deepestItem?, Path.splitAtLast_eq_none.2 hnoIndex]
    rfl

/-- An index on a valid selection is that of an item. -/
theorem item_of_resolves {front below : Path} {i : Nat}
    (h : tree.resolves (front ++ Step.index i :: below) = true) :
    ∃ owner kind before item after, front = owner ++ [Step.field kind.field] ∧
      i = before.length ∧ tree.nodeAt? owner = some (.group kind (before ++ item :: after)) := by
  obtain ⟨c, hc, hres⟩ := (Node.resolves_iff.1 h).split (List.cons_ne_nil _ _)
  rcases hres.cons with ⟨d, hd, -⟩ | ⟨hstep, -, -⟩
  · obtain ⟨ns, n, rfl, hn, -⟩ := Content.child?_eq_some_index hd
    obtain ⟨owner, kind, rfl, howner⟩ := owner_of_items (Node.itemsAt?_eq_some.2 hc)
    obtain ⟨before, after, rfl, rfl⟩ := exists_split hn
    exact ⟨owner, kind, before, n, after, rfl, rfl, howner⟩
  · cases hstep

variable {s t : Snapshot} {effect : Effect}

/-- From a valid selection a deletion always applies. -/
theorem exists_removes (h : s.resolves = true) :
    ∃ effect t, Removes s effect t ∧
      delete s.tree s.selected = .applied effect ⟨some t.tree, some t.selected⟩ := by
  rcases hsplit : s.selected.splitAtLast Step.isIndex with - | ⟨front, step, below⟩
  · have hdocument : TakesDocument s.selected := .inr (Path.splitAtLast_eq_none.1 hsplit)
    exact ⟨_, _, .document hdocument, delete_of_takesDocument hdocument⟩
  · obtain ⟨hselected, hstep, hbelow⟩ := Path.splitAtLast_eq_some hsplit
    cases step with
    | index i =>
      have hres : s.tree.resolves s.selected = true := h
      rw [hselected] at hres
      obtain ⟨owner, kind, before, item, after, rfl, rfl, howner⟩ := item_of_resolves hres
      obtain ⟨rebuilt, hput, hdelete⟩ := delete_of_item hselected hbelow howner
      rw [entry_group] at hdelete
      exact ⟨_, _, .item hselected hbelow howner hput, hdelete⟩
    | _ => cases hstep

/-- The selection stays valid, … -/
theorem Removes.resolves (h : Removes s effect t) : t.resolves = true := by
  cases h with
  | document => rfl
  | item hselected hbelow howner hput =>
    show Node.resolves _ _ = true
    dsimp only
    split
    · exact Node.resolves_nil
    · rw [← entry_group]
      rw [Node.put?_items howner] at hput
      exact resolves_put? hput (Node.resolves_iff.1 (Node.resolves_entry _))

/-- … and the document gets smaller by the item. -/
theorem Removes.marks_lt (h : Removes s .itemDeleted t) : t.tree.marks < s.tree.marks := by
  cases h with
  | @item _ _ _ before after item rebuilt hselected hbelow howner hput =>
    show rebuilt.marks < s.tree.marks
    have hmarks := Content.marks_put? (itemsAt?_eq_some.1 (itemsAt?_of_group howner))
      (put?_eq_some.1 hput)
    have hpos := item.marks_pos
    simp only [Content.marks, marksAll_append, marksAll] at hmarks
    omega

/-! ### Runs of deletions -/

/-- The snapshot after a deletion, if it applies. -/
def deleted? (s : Snapshot) : Option Snapshot :=
  (delete s.tree s.selected).change?.map s.apply

/-- The snapshot after some deletions, if they all apply. -/
def deletedBy? : Nat → Snapshot → Option Snapshot
  | 0, s => some s
  | n + 1, s => (deleted? s).bind (deletedBy? n)

/-- A null that is the whole document stays one. -/
theorem deletedBy?_null (n : Nat) : deletedBy? n ⟨.null, []⟩ = some ⟨.null, []⟩ := by
  induction n with
  | zero => rfl
  | succ n ih => exact ih

/-- Deletions come to a null, at the latest when there have been as many as the document
has marks. -/
theorem deletedBy?_eq_null {n : Nat} (h : s.resolves = true) (hn : s.tree.marks ≤ n) :
    deletedBy? n s = some ⟨.null, []⟩ := by
  induction n generalizing s with
  | zero =>
    have hpos := s.tree.marks_pos
    omega
  | succ n ih =>
    obtain ⟨effect, t, hremoves, hdelete⟩ := exists_removes h
    have hstep : deleted? s = some t := by
      rw [deleted?, hdelete]
      rfl
    rw [deletedBy?, hstep, Option.bind_some]
    have hres := hremoves.resolves
    cases hremoves with
    | document => exact deletedBy?_null n
    | item hselected hbelow howner hput =>
      have hlt := (Removes.item hselected hbelow howner hput).marks_lt
      exact ih hres (by omega)

/-- **Deletions always act and run out.**  From a valid selection a deletion applies: the
document becomes a null, or the item at the deepest index goes, all others stay in their
order, and the first place of their list is selected, or the root if the end of a list was
selected.  One deletion after the other leads to the null, which all further ones leave as
it is. -/
theorem delete_runs_out (h : s.resolves = true) :
    (∃ effect t, Removes s effect t ∧
      delete s.tree s.selected = .applied effect ⟨some t.tree, some t.selected⟩) ∧
    ∀ n, s.tree.marks ≤ n → deletedBy? n s = some ⟨.null, []⟩ :=
  ⟨exists_removes h, fun _ hn => deletedBy?_eq_null h hn⟩

/-- A list in a list is emptied from its first item on, and goes with its end. -/
theorem delete_runs_out_of_nested :
    let s : Snapshot := ⟨.program [.array [.null, .boolean true]],
      [.field "body", .index 0, .field "elements", .index 1]⟩
    s.resolves = true ∧
    (∃ effect t, Removes s effect t ∧
      delete s.tree s.selected = .applied effect ⟨some t.tree, some t.selected⟩) ∧
    deletedBy? 3 s = some ⟨.program [], []⟩ ∧
    ∀ n, 6 ≤ n → deletedBy? n s = some ⟨.null, []⟩ := by
  intro s
  have hres : s.resolves = true := by decide +kernel
  obtain ⟨hremoves, hruns⟩ := delete_runs_out hres
  exact ⟨hres, hremoves, by decide +kernel, hruns⟩

end StructuralEditor.Editing
