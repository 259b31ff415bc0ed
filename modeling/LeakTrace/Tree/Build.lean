import LeakTrace.Tree.Basic

namespace LeakTrace.Tree

theorem linked_empty : Linked #[] := by
  intro id node found
  simp at found

/-- Nodes of a tree that is built from the leaves up. -/
structure Builder where
  nodes : Array Node := #[]
  linked : Linked nodes := by exact LeakTrace.Tree.linked_empty

namespace Builder

def adopt (parent : NodeId) (nodes : Array Node) : List (Option Role × NodeId) → Array Node
  | [] => nodes
  | (role, child) :: rest =>
    adopt parent (nodes.modify child fun node => { node with role, parent := some parent }) rest

theorem size_adopt (parent : NodeId) (nodes : Array Node) (children : List (Option Role × NodeId)) :
    (adopt parent nodes children).size = nodes.size := by
  induction children generalizing nodes with
  | nil => rfl
  | cons head rest ih => simp [adopt, ih]

/-- Links that hold once one more node is added. -/
def LinkedBelow (nodes : Array Node) : Prop :=
  ∀ id node, nodes[id]? = some node → (∀ child ∈ node.children, child < id) ∧
    ∀ parent ∈ node.parent, id < parent ∧ parent ≤ nodes.size

theorem linkedBelow_adopt {nodes : Array Node} (linked : LinkedBelow nodes)
    (children : List (Option Role × NodeId)) (below : ∀ child ∈ children, child.2 < nodes.size) :
    LinkedBelow (adopt nodes.size nodes children) := by
  suffices general : ∀ (parent : NodeId) (nodes : Array Node), parent = nodes.size →
      LinkedBelow nodes → (∀ child ∈ children, child.2 < nodes.size) →
      LinkedBelow (adopt parent nodes children) from general _ nodes rfl linked below
  clear linked below
  induction children with
  | nil => exact fun _ _ _ linked _ => linked
  | cons head rest ih =>
    intro parent nodes size linked below
    obtain ⟨role, child⟩ := head
    have inside : child < nodes.size := below _ (.head _)
    refine ih parent _ (by simpa using size) ?_ fun entry among => by
      simpa using below entry (.tail _ among)
    intro id node found
    rw [Array.getElem?_modify] at found
    split at found
    · rename_i same
      obtain ⟨old, atId, rfl⟩ := Option.map_eq_some_iff.1 found
      refine ⟨(linked id old atId).1, fun p member => ?_⟩
      cases member
      rw [Array.size_modify, ← size]
      exact ⟨same ▸ size ▸ inside, Nat.le_refl _⟩
    · simpa using linked id node found

/-- Adds a node above the given children; a handle that names no node yet is left out. -/
def push (builder : Builder) (kind : Kind) (span : Span) (text : Option String)
    (children : List (Option Role × NodeId)) : Builder :=
  let known := children.filter fun child => child.2 < builder.nodes.size
  { nodes := (adopt builder.nodes.size builder.nodes known).push
      { kind, span, text, children := known.map (·.2) }
    linked := by
      have inside : ∀ child ∈ known, child.2 < builder.nodes.size := fun child member => by
        simpa using (List.mem_filter.1 member).2
      have below := @linkedBelow_adopt builder.nodes (fun id node found =>
        ⟨(builder.linked id node found).1, fun parent member =>
          have bounds := (builder.linked id node found).2 parent member
          ⟨bounds.1, Nat.le_of_lt bounds.2⟩⟩) known inside
      intro id node found
      rw [Array.getElem?_push] at found
      split at found
      · rename_i last
        rw [size_adopt] at last
        cases found
        refine ⟨fun child member => ?_, fun parent member => by cases member⟩
        obtain ⟨entry, among, rfl⟩ := List.mem_map.1 member
        exact last ▸ inside entry among
      · have links := below id node found
        refine ⟨links.1, fun parent member => ?_⟩
        have bounds := links.2 parent member
        simp only [Array.size_push]
        omega }

def finish (builder : Builder) (file : String) (language : Language) (source : String)
    (root : NodeId) : Tree :=
  { file, language, source, nodes := builder.nodes, root, linked := builder.linked }

end Builder

end LeakTrace.Tree

namespace LeakTrace

/-- A tree as a reader of source text draws it: spans are byte offsets, and each part knows the role
that it plays in the part above it. -/
inductive Outline where
  | node (kind : Kind) (role : Option Role) (start stop : Nat) (text : Option String)
      (children : List Outline)
  deriving Inhabited

namespace Outline

def role : Outline → Option Role
  | node _ role _ _ _ _ => role

def start : Outline → Nat
  | node _ _ start _ _ _ => start

def stop : Outline → Nat
  | node _ _ _ stop _ _ => stop

def withRole (role : Option Role) : Outline → Outline
  | node kind _ start stop text children => node kind role start stop text children

def leaf (kind : Kind) (start stop : Nat) (text : Option String) : Outline :=
  node kind none start stop text []

mutual

def graft (index : LineIndex) (builder : Tree.Builder) : Outline → Tree.Builder
  | node kind _ start stop text children =>
    let (builder, children) := graftAll index builder children
    builder.push kind (index.span start stop) text children

def graftAll (index : LineIndex) (builder : Tree.Builder) :
    List Outline → Tree.Builder × List (Option Role × NodeId)
  | [] => (builder, [])
  | child :: rest =>
    let builder := graft index builder child
    let id := builder.nodes.size - 1
    let (builder, children) := graftAll index builder rest
    (builder, (child.role, id) :: children)

end

mutual

def relocated (move : Nat → Nat) : Outline → Outline
  | node kind role start stop text children =>
    node kind role (move start) (move stop) text (relocatedAll move children)

def relocatedAll (move : Nat → Nat) : List Outline → List Outline
  | [] => []
  | child :: rest => relocated move child :: relocatedAll move rest

end

def toTree (outline : Outline) (file : String) (language : Language) (source : String) : Tree :=
  let builder := graft (LineIndex.ofSource source) {} outline
  builder.finish file language source (builder.nodes.size - 1)

end Outline

end LeakTrace
