import LeakTrace.Proofs.Flow.Action

namespace LeakTrace

/-- A scope without its names. -/
structure Frame where
  kind : ScopeKind
  parent : Option ScopeId
  node : Option NodeId
  deriving DecidableEq

def Scope.frame (scope : Scope) : Frame := ⟨scope.kind, scope.parent, scope.node⟩

/-- What the syntax alone settles of the pass: the marks and the scopes, without names and values. -/
structure Layout where
  marks : Std.TreeMap NodeId Mark
  epoch : Nat
  current : ScopeId
  frames : Array Frame

namespace Layout

variable (layout : Layout) {node other : NodeId}

def mark (node : NodeId) : Layout :=
  { layout with
    epoch := layout.epoch + 1
    marks := layout.marks.insert node ⟨layout.epoch + 1, layout.current⟩ }

def enter (kind : ScopeKind) (node : NodeId) : Layout :=
  { layout with
    frames := layout.frames.push
      ⟨kind, if layout.current < layout.frames.size then some layout.current else none, some node⟩
    current := layout.frames.size }

/-- Enters the scope that a node opens, if it opens one. -/
def enter? (kind : Option ScopeKind) (node : NodeId) : Layout :=
  match kind with
  | some kind => layout.enter kind node
  | none => layout

/-- One of the scopes has been opened by the node. -/
def Opened (node : NodeId) : Prop := ∃ frame ∈ layout.frames, frame.node = some node

@[simp]
theorem current_marks (nodes : List NodeId) : (nodes.foldl mark layout).current = layout.current := by
  induction nodes generalizing layout with
  | nil => rfl
  | cons node rest ih => exact ih _

@[simp]
theorem frames_marks (nodes : List NodeId) : (nodes.foldl mark layout).frames = layout.frames := by
  induction nodes generalizing layout with
  | nil => rfl
  | cons node rest ih => exact ih _

theorem opened_enter {layout : Layout} {kind : ScopeKind} :
    (layout.enter kind node).Opened other ↔ layout.Opened other ∨ node = other := by
  simp [Opened, enter, or_and_right, exists_or]

theorem mem_marks_mark {layout : Layout} :
    other ∈ (layout.mark node).marks ↔ other = node ∨ other ∈ layout.marks := by
  rw [mark, Std.TreeMap.mem_insert, Std.compare_eq_iff_eq, eq_comm]

theorem mem_marks_foldl {layout : Layout} {nodes : List NodeId} :
    node ∈ (nodes.foldl mark layout).marks ↔ node ∈ nodes ∨ node ∈ layout.marks := by
  induction nodes generalizing layout with
  | nil => simp
  | cons head rest ih =>
    rw [List.foldl_cons, ih, mem_marks_mark, List.mem_cons]
    grind

@[simp]
theorem marks_enter? (kind : Option ScopeKind) (node : NodeId) :
    (layout.enter? kind node).marks = layout.marks := by
  cases kind <;> rfl

end Layout

namespace Pass

variable (pass : Pass) {tree : Tree}

def layout : Layout :=
  ⟨pass.marks, pass.epoch, pass.current, pass.scopes.scopes.map Scope.frame⟩

@[simp]
theorem layout_mark (node : NodeId) : (pass.mark node).layout = pass.layout.mark node := rfl

theorem layout_enter (kind : ScopeKind) (node : NodeId) :
    (pass.enter kind node).layout = pass.layout.enter kind node := by
  simp only [layout, enter, Scopes.openScope, Layout.enter, Array.map_push, Scope.frame, Array.size_map]

@[simp]
theorem layout_newShape (shape : Shape) : (pass.newShape shape).2.layout = pass.layout := rfl

@[simp]
theorem layout_newUnknown (origin : Origin) : (pass.newUnknown origin).2.layout = pass.layout :=
  rfl

@[simp]
theorem layout_setField (object : ShapeId) (key : Key) (value : ShapeId) (node : NodeId) :
    (pass.setField object key value node).layout = pass.layout := rfl

@[simp]
theorem layout_record (node : NodeId) (resolution : Resolution) :
    (pass.record node resolution).layout = pass.layout := rfl

theorem frames_declare (scopes : Scopes) (binding : Binding) :
    (scopes.declare binding).scopes.map Scope.frame = scopes.scopes.map Scope.frame := by
  refine Array.ext_getElem? fun id => ?_
  simp only [Scopes.declare, Array.getElem?_map, Array.getElem?_modify]
  split
  · cases scopes.scopes[id]? <;> rfl
  · rfl

@[simp]
theorem layout_declare (binding : Binding) : (pass.declare binding).2.layout = pass.layout := by
  simp only [layout, declare, frames_declare]

variable (tree) (node : NodeId)

/-- Steps on values leave the layout as it is. -/
def layouts : Invariant tree where
  Fine _ := True
  Keeps before after := after.layout = before.layout
  Held _ _ := True
  Free _ := True
  refl _ := rfl
  trans first second := second.trans first
  fine _ _ := trivial
  held _ _ := trivial
  add _ _ := ⟨rfl, trivial⟩
  write _ _ _ := rfl
  promote _ _ := rfl
  bound _ _ _ _ _ _ := trivial
  written _ _ _ _ _ _ := trivial
  fixed _ _ _ := trivial
  own _ := trivial
  part _ _ := trivial

@[simp]
theorem layout_valueShape (origin : Origin) (value : Option NodeId) :
    (pass.valueShape tree origin value).2.layout = pass.layout :=
  ((layouts tree).gains_valueShape trivial (fun _ _ => trivial) origin).keeps

@[simp]
theorem layout_boundValue (value : Option NodeId) : (pass.boundValue tree value).2.layout = pass.layout :=
  ((layouts tree).gains_boundValue trivial fun _ _ => trivial).keeps

@[simp]
theorem layout_takenShape (kind : BindingKind) (value : Option NodeId) :
    (pass.takenShape tree kind value).2.layout = pass.layout :=
  ((layouts tree).gains_takenShape trivial (fun _ _ => trivial) kind).keeps

@[simp]
theorem layout_bindIdentifier (pattern : NodeId) (shape : Option ShapeId) (path : Option Chain)
    (kind : BindingKind) (site : NodeId) :
    (pass.bindIdentifier tree pattern shape path kind site).layout = pass.layout := by
  unfold bindIdentifier
  split
  · rfl
  · by_cases unknown : (path.isNone && shape.isNone) = true
    · simp [unknown]
    · simp [unknown]

@[simp]
theorem layout_descend (site : NodeId) (keys : List Key) (shape : ShapeId) (pass : Pass) :
    (descend site keys shape pass).2.layout = pass.layout := by
  induction keys generalizing shape pass with
  | nil => rfl
  | cons key rest ih =>
    rw [descend]
    split
    · exact ih _ _
    · exact ih _ _

theorem layout_writeRoot (target site : NodeId) (root : ChainRoot) :
    (pass.writeRoot tree target site root).2.layout = pass.layout := by
  unfold writeRoot
  split
  · rfl
  · dsimp only
    split <;> simp
  · rfl

theorem layout_heldObject (binding : BindingId) : (pass.heldObject binding).2.layout = pass.layout := by
  unfold heldObject
  cases (pass.scopes.binding? binding).bind Binding.shape <;> rfl

@[simp]
theorem layout_writeThrough (target : NodeId) (value : ShapeId) (site : NodeId) :
    (pass.writeThrough tree target value site).layout = pass.layout := by
  unfold writeThrough
  split
  · rfl
  rename_i chain _
  split
  · have root := pass.layout_writeRoot tree target site chain.root
    split
    · rename_i found
      rw [found] at root
      simpa [layout_heldObject] using root
    · rename_i found
      rwa [found] at root
  · rfl

theorem layout_fixedShape : (pass.fixedShape tree node).2.layout = pass.layout :=
  ((layouts tree).gains_fixedShape trivial node).keeps

@[simp]
theorem layout_memoize : (pass.memoize tree node).layout = pass.layout := by
  have fixed := pass.layout_fixedShape tree node
  unfold memoize
  split
  · rename_i found
    rw [found] at fixed
    exact fixed
  · rename_i found
    rw [found] at fixed
    exact fixed

variable {pass tree}

theorem not_mem_marks_start (node : NodeId) : node ∉ start.layout.marks := Std.TreeMap.not_mem_emptyc

end Pass

end LeakTrace
