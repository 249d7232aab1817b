import Mathlib.Data.List.Nodup

/-! # Singly linked lists

`Walk next first nodes last` states the nodes that the links lead through. A
cycle is a walk that ends where it starts; it can be seen from any of its nodes. -/

namespace Xv6

variable {Node : Type u} {next other : Node → Node} {first last node : Node}
  {nodes before after : List Node}

/-- `next` leads from `first` through `nodes` to `last`. -/
def Walk (next : Node → Node) : Node → List Node → Node → Prop
  | first, [], last => next first = last
  | first, node :: nodes, last => next first = node ∧ Walk next node nodes last

namespace Walk

theorem append_iff :
    Walk next first (before ++ node :: after) last ↔
      Walk next first before node ∧ Walk next node after last := by
  induction before generalizing first with
  | nil => exact Iff.rfl
  | cons head rest induction => simp only [List.cons_append, Walk, induction, and_assoc]

/-- A walk reads the links of the nodes it comes through. -/
theorem congr (walk : Walk next first nodes last)
    (same : ∀ node ∈ first :: nodes, other node = next node) : Walk other first nodes last := by
  induction nodes generalizing first with
  | nil => exact (same first List.mem_cons_self).trans walk
  | cons head rest induction =>
    refine ⟨(same first List.mem_cons_self).trans walk.1, induction walk.2 ?_⟩
    intro node member
    exact same node (List.mem_cons_of_mem _ member)

/-- A walk through the same nodes from another start. -/
theorem restart (walk : Walk next first nodes last) (head : other start = next first)
    (same : ∀ node ∈ nodes, other node = next node) : Walk other start nodes last := by
  cases nodes with
  | nil => exact head.trans walk
  | cons node nodes => exact ⟨head.trans walk.1, walk.2.congr same⟩

/-- The node from which the last link starts. -/
def lastNode (first : Node) (nodes : List Node) : Node := nodes.getLastD first

theorem lastNode_mem (first : Node) (nodes : List Node) : lastNode first nodes ∈ first :: nodes :=
  List.getLastD_mem_cons

theorem next_lastNode (walk : Walk next first nodes last) :
    next (lastNode first nodes) = last := by
  induction nodes generalizing first with
  | nil => exact walk
  | cons head rest induction =>
    rw [lastNode, List.getLastD_cons]
    exact induction walk.2

/-- The rest of a walk, from the last node of its first part. -/
theorem of_append (walk : Walk next first (before ++ after) last) :
    Walk next (lastNode first before) after last := by
  induction before generalizing first with
  | nil => exact walk
  | cons head rest induction =>
    rw [lastNode, List.getLastD_cons]
    exact induction walk.2

/-- Leading past a node takes it out of the walk. -/
theorem skip [DecidableEq Node] (walk : Walk next first (before ++ node :: after) last)
    (distinct : (first :: (before ++ node :: after)).Nodup) :
    Walk (Function.update next (lastNode first before) (next node)) first (before ++ after)
      last := by
  induction before generalizing first with
  | nil =>
    apply walk.2.restart
    · exact Function.update_self _ _ _
    · intro other member
      apply Function.update_of_ne
      intro equal
      apply (List.nodup_cons.mp distinct).1
      rw [show first = other from equal.symm]
      exact List.mem_cons_of_mem _ member
  | cons head rest induction =>
    rw [List.cons_append, List.nodup_cons] at distinct
    rw [lastNode, List.getLastD_cons]
    refine ⟨?_, induction walk.2 distinct.2⟩
    rw [Function.update_of_ne, walk.1]
    intro equal
    apply distinct.1
    rw [equal]
    exact List.mem_append_left (node :: after) (lastNode_mem head rest)

/-- The links of the nodes of a walk. -/
theorem map_next (walk : Walk next first nodes last) :
    (first :: nodes).map next = nodes ++ [last] := by
  induction nodes generalizing first with
  | nil => exact congrArg (fun node => [node]) walk
  | cons head rest induction =>
    rw [List.map_cons, induction walk.2, walk.1]
    rfl

/-- The links of a cycle lead to its nodes. -/
theorem next_mem (walk : Walk next first nodes first) (member : node ∈ first :: nodes) :
    next node ∈ first :: nodes := by
  have inside : next node ∈ nodes ++ [first] := by
    rw [← walk.map_next]
    exact List.mem_map_of_mem member
  exact (List.perm_append_singleton first nodes).mem_iff.mp inside

/-- In a cycle a node has one predecessor. -/
theorem eq_lastNode (walk : Walk next first (before ++ node :: after) first)
    (distinct : (first :: (before ++ node :: after)).Nodup)
    (member : pred ∈ first :: (before ++ node :: after)) (leads : next pred = node) :
    pred = lastNode first before := by
  have rotated : (before ++ node :: after ++ [first]).Nodup :=
    (List.perm_append_singleton first _).nodup_iff.mpr distinct
  rw [← walk.map_next] at rotated
  have lastMember : lastNode first before ∈ first :: (before ++ node :: after) :=
    List.mem_append_left (node :: after) (lastNode_mem first before)
  apply List.inj_on_of_nodup_map rotated member lastMember
  rw [leads, (append_iff.mp walk).1.next_lastNode]

/-- A cycle seen from another of its nodes. -/
theorem rotate (walk : Walk next first (before ++ node :: after) first) :
    Walk next node (after ++ first :: before) node := by
  rw [append_iff] at walk ⊢
  exact ⟨walk.2, walk.1⟩

/-- A cycle seen from one of its nodes. -/
theorem exists_rotate (walk : Walk next first nodes first) (member : node ∈ first :: nodes) :
    ∃ others, Walk next node others node ∧ (node :: others).Perm (first :: nodes) := by
  rcases List.mem_cons.mp member with equal | inside
  · rw [equal]
    exact ⟨nodes, walk, List.Perm.refl _⟩
  · rcases List.append_of_mem inside with ⟨before, after, equal⟩
    rw [equal] at walk ⊢
    refine ⟨after ++ first :: before, walk.rotate, ?_⟩
    have swap : (node :: after ++ first :: before).Perm (first :: before ++ node :: after) :=
      List.perm_append_comm
    exact swap

end Walk

end Xv6
