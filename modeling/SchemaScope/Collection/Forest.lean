/-!
Forests: ordered lists of trees with a label at every node.

A forest is empty, or has a first tree, given by its label and the forest of its children, and the
forest of the trees after it. One kind of induction therefore covers trees and lists of trees.
-/

set_option autoImplicit false

namespace SchemaScope

inductive Forest (α : Type) where
  | nil
  | cons (label : α) (children siblings : Forest α)
deriving DecidableEq

namespace Forest

variable {α β : Type}

def tree (label : α) (children : Forest α) : Forest α :=
  .cons label children .nil

def leaves : List α → Forest α
  | [] => .nil
  | label :: rest => .cons label .nil (leaves rest)

def append : Forest α → Forest α → Forest α
  | .nil, right => right
  | .cons label children siblings, right => .cons label children (siblings.append right)

instance : Append (Forest α) := ⟨append⟩

def size : Forest α → Nat
  | .nil => 0
  | .cons _ children siblings => children.size + siblings.size + 1

/-- All labels in pre-order: a node, its children, then the trees after it. -/
def preorder : Forest α → List α
  | .nil => []
  | .cons label children siblings => label :: children.preorder ++ siblings.preorder

def map (replace : α → β) : Forest α → Forest β
  | .nil => .nil
  | .cons label children siblings =>
      .cons (replace label) (children.map replace) (siblings.map replace)

def trees : Forest α → List (α × Forest α)
  | .nil => []
  | .cons label children siblings => (label, children) :: siblings.trees

/-- Pre-order visits every node once. -/
@[simp] theorem length_preorder (forest : Forest α) : forest.preorder.length = forest.size := by
  induction forest with
  | nil => rfl
  | cons label children siblings childrenIH siblingsIH =>
      simp [preorder, size, childrenIH, siblingsIH]

@[simp] theorem preorder_map (replace : α → β) (forest : Forest α) :
    (forest.map replace).preorder = forest.preorder.map replace := by
  induction forest with
  | nil => rfl
  | cons label children siblings childrenIH siblingsIH =>
      simp [map, preorder, childrenIH, siblingsIH]

@[simp] theorem size_map (replace : α → β) (forest : Forest α) :
    (forest.map replace).size = forest.size := by
  rw [← length_preorder, preorder_map, List.length_map, length_preorder]

end Forest

end SchemaScope
