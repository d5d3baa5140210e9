import Jayess.Sequences.TreeOrder
import Jayess.Webparse.Selector

/-! # Places in a tree -/

namespace Jayess.Webparse

open TreeOrder

variable {ref root child : Ref} {path : List Nat} {parent : Node}

def ParentOf (parent child : Ref) : Prop := ∃ index, child.path = parent.path ++ [index]

def Ref.descend (ref : Ref) : List Nat → Option Ref
  | [] => some ref
  | index :: indices => ref.children[index]?.bind (·.descend indices)

theorem traverseNodes_eq (path : List Nat) (parent : Node) (index : Nat) (children : List Node) :
    traverseNodes path parent index children =
      (children.mapIdx fun later child =>
        (⟨path ++ [index + later], some parent, child⟩ : Ref)).flatMap traverseDFS := by
  induction children generalizing index with
  | nil => rfl
  | cons child children ih =>
      rw [traverseNodes, ih, List.mapIdx_cons, List.flatMap_cons]
      refine congrArg₂ _ rfl (congrArg (List.flatMap traverseDFS) (congrArg (List.mapIdx · children) ?_))
      funext later child
      rw [Nat.add_assoc, Nat.add_comm 1 later]

theorem traverseDFS_eq (root : Ref) : traverseDFS root = root :: root.children.flatMap traverseDFS := by
  obtain ⟨path, parent, node⟩ := root
  have hindex : ∀ children : List Node, traverseNodes path node 0 children =
      (children.mapIdx fun index child => (⟨path ++ [index], some node, child⟩ : Ref)).flatMap traverseDFS := by
    intro children
    rw [traverseNodes_eq]
    simp only [Nat.zero_add]
  cases node with
  | document name children span => exact congrArg _ (hindex children)
  | element name attributes children span => exact congrArg _ (hindex children)
  | leaf type text span => rfl

theorem getElem?_children (ref : Ref) (index : Nat) : ref.children[index]? =
    ref.node.children[index]?.map fun child => ⟨ref.path ++ [index], some ref.node, child⟩ := by
  rw [Ref.children, List.getElem?_mapIdx]

theorem parentOf_of_mem (hchild : child ∈ ref.children) : ParentOf ref child := by
  obtain ⟨index, hindex⟩ := List.mem_iff_getElem?.mp hchild
  rw [getElem?_children, Option.map_eq_some_iff] at hindex
  obtain ⟨_, -, rfl⟩ := hindex
  exact ⟨index, rfl⟩

variable {found : Ref}

theorem path_descend {indices : List Nat} (hfound : ref.descend indices = some found) :
    found.path = ref.path ++ indices := by
  induction indices generalizing ref with
  | nil => rw [← Option.some.inj hfound, List.append_nil]
  | cons index indices ih =>
      rw [Ref.descend, Option.bind_eq_some_iff] at hfound
      obtain ⟨next, hnext, hrest⟩ := hfound
      rw [getElem?_children, Option.map_eq_some_iff] at hnext
      obtain ⟨_, -, rfl⟩ := hnext
      rw [ih hrest, List.append_assoc, List.singleton_append]

theorem descend_append (indices others : List Nat) :
    ref.descend (indices ++ others) = (ref.descend indices).bind (·.descend others) := by
  induction indices generalizing ref with
  | nil => rfl
  | cons index indices ih =>
      rw [List.cons_append, Ref.descend, Ref.descend, Option.bind_assoc]
      exact congrArg _ (funext fun next => ih)

theorem mem_traverseDFS_of_descend {indices : List Nat} (hfound : root.descend indices = some found)
    :
    found ∈ traverseDFS root := by
  induction indices generalizing root with
  | nil =>
      rw [← Option.some.inj hfound, traverseDFS_eq]
      exact List.mem_cons_self
  | cons index indices ih =>
      rw [Ref.descend, Option.bind_eq_some_iff] at hfound
      obtain ⟨next, hnext, hrest⟩ := hfound
      rw [traverseDFS_eq]
      exact List.mem_cons_of_mem _ (List.mem_flatMap.mpr ⟨next, List.mem_of_getElem? hnext, ih hrest⟩)

theorem sizeOf_child (hchild : child ∈ root.children) : sizeOf child.node < sizeOf root.node := by
  obtain ⟨index, hindex⟩ := List.mem_iff_getElem?.mp hchild
  rw [getElem?_children, Option.map_eq_some_iff] at hindex
  obtain ⟨node, hnode, rfl⟩ := hindex
  have hlt := List.sizeOf_lt_of_mem (List.mem_of_getElem? hnode)
  obtain ⟨path, parent, node⟩ := root
  cases node with
  | document name children span =>
      rw [Node.document.sizeOf_spec]
      exact hlt.trans (by rw [Node.children]; omega)
  | element name attributes children span =>
      rw [Node.element.sizeOf_spec]
      exact hlt.trans (by rw [Node.children]; omega)
  | leaf type text span => cases hnode

theorem root_mem_traverseDFS (root : Ref) : root ∈ traverseDFS root := by
  rw [traverseDFS_eq]
  exact List.mem_cons_self

theorem exists_descend (hfound : found ∈ traverseDFS root) :
    ∃ indices, root.descend indices = some found := by
  induction hsize : sizeOf root.node using Nat.strong_induction_on generalizing root with
  | _ size ih =>
      rw [traverseDFS_eq, List.mem_cons, List.mem_flatMap] at hfound
      rcases hfound with rfl | ⟨child, hchild, hfound⟩
      · exact ⟨[], rfl⟩
      · obtain ⟨indices, hindices⟩ := ih _ (hsize ▸ sizeOf_child hchild) hfound rfl
        obtain ⟨index, hindex⟩ := List.mem_iff_getElem?.mp hchild
        exact ⟨index :: indices, by rw [Ref.descend, hindex, Option.bind_some, hindices]⟩

theorem mem_traverseDFS_of_inside (href : ref ∈ traverseDFS root) :
    found ∈ traverseDFS ref ↔ found ∈ traverseDFS root ∧ ref.path <+: found.path := by
  obtain ⟨indices, hindices⟩ := exists_descend href
  constructor
  · intro hfound
    obtain ⟨others, hothers⟩ := exists_descend hfound
    have hwhole : root.descend (indices ++ others) = some found := by
      rw [descend_append, hindices, Option.bind_some, hothers]
    exact ⟨mem_traverseDFS_of_descend hwhole, ⟨others, (path_descend hothers).symm⟩⟩
  · rintro ⟨hfound, hprefix⟩
    obtain ⟨whole, hwhole⟩ := exists_descend hfound
    rw [path_descend hindices, path_descend hwhole, List.prefix_append_right_inj] at hprefix
    obtain ⟨others, rfl⟩ := hprefix
    rw [descend_append, hindices, Option.bind_some] at hwhole
    exact mem_traverseDFS_of_descend hwhole

theorem sorted_children (ref : Ref) : Sorted Ref.path ref.children := by
  rw [Sorted, List.pairwise_iff_getElem]
  intro first second hfirst hsecond hlt
  simp only [Ref.children, List.getElem_mapIdx]
  exact List.append_left_lt (List.cons_lt_cons_iff.mpr (.inl hlt))

theorem parentOf_above {parent : Ref} (hparent : ParentOf parent child) : Above parent.path child.path := by
  obtain ⟨index, hindex⟩ := hparent
  rw [hindex]
  exact ⟨List.prefix_append _ _, by simp⟩

theorem prefix_of_mem_traverseDFS (hfound : found ∈ traverseDFS root) :
    root.path <+: found.path := by
  obtain ⟨indices, hindices⟩ := exists_descend hfound
  exact ⟨indices, (path_descend hindices).symm⟩

theorem sorted_traverseDFS (root : Ref) : Sorted Ref.path (traverseDFS root) := by
  induction hsize : sizeOf root.node using Nat.strong_induction_on generalizing root with
  | _ size ih =>
      rw [Sorted, traverseDFS_eq, List.pairwise_cons, List.pairwise_flatMap]
      refine ⟨fun found hfound => ?_, fun child hchild => ih _ (hsize ▸ sizeOf_child hchild) child rfl, ?_⟩
      · obtain ⟨child, hchild, hfound⟩ := List.mem_flatMap.mp hfound
        have habove := parentOf_above (parentOf_of_mem hchild)
        exact (habove.trans_prefix (prefix_of_mem_traverseDFS hfound)).lt
      · refine (sorted_children root).imp_of_mem ?_
        intro first second hfirst hsecond hlt found hfound other hother
        refine lt_of_apart hlt ?_ (prefix_of_mem_traverseDFS hfound) (prefix_of_mem_traverseDFS hother)
        obtain ⟨index, hindex⟩ := parentOf_of_mem hfirst
        obtain ⟨index', hindex'⟩ := parentOf_of_mem hsecond
        rw [hindex, hindex'] at hlt ⊢
        intro hprefix
        have hsame := hprefix.eq_of_length (by simp)
        rw [hsame] at hlt
        exact lt_irrefl _ hlt

theorem eq_of_path_eq {first second : Ref} (hfirst : first ∈ traverseDFS root) (hsecond : second ∈ traverseDFS root)
    (hpath : first.path = second.path) : first = second := by
  obtain ⟨indices, hindices⟩ := exists_descend hfirst
  obtain ⟨others, hothers⟩ := exists_descend hsecond
  rw [path_descend hindices, path_descend hothers, List.append_cancel_left_eq] at hpath
  rw [hpath, hothers] at hindices
  exact (Option.some.inj hindices).symm

theorem mem_children_iff (href : ref ∈ traverseDFS root) :
    child ∈ ref.children ↔ child ∈ traverseDFS root ∧ ParentOf ref child := by
  constructor
  · intro hchild
    refine ⟨?_, parentOf_of_mem hchild⟩
    have hbelow : child ∈ traverseDFS ref := by
      rw [traverseDFS_eq]
      exact List.mem_cons_of_mem _ (List.mem_flatMap.mpr ⟨child, hchild, root_mem_traverseDFS child⟩)
    exact ((mem_traverseDFS_of_inside href).mp hbelow).1
  · rintro ⟨hchild, index, hindex⟩
    have hbelow : child ∈ traverseDFS ref :=
      (mem_traverseDFS_of_inside href).mpr ⟨hchild, [index], hindex.symm⟩
    obtain ⟨indices, hindices⟩ := exists_descend hbelow
    have hpath := path_descend hindices
    rw [hindex, List.append_cancel_left_eq] at hpath
    rw [← hpath, Ref.descend, Option.bind_eq_some_iff] at hindices
    obtain ⟨next, hnext, hsame⟩ := hindices
    rw [← Option.some.inj hsame]
    exact List.mem_of_getElem? hnext

end Jayess.Webparse
