import LeakTrace.Proofs.Flow.TextShape
import LeakTrace.Proofs.Flow.Destructuring

namespace LeakTrace

open LeakTrace.Tree Model Option

variable {tree : Tree} {blocks : Bool} {pass : Pass} {node value site name : NodeId}

/-- The node declares a name and gives it a value. -/
@[mk_iff] structure Tree.Declares (tree : Tree) (site name value : NodeId) : Prop where
  declaration : tree.kind site = .declaration
  named : tree.child? site .name = some name
  identifier : tree.kind name = .identifier
  labelled : (tree.text name).isSome
  valued : tree.child? site .value = some value

instance (tree : Tree) (site name value : NodeId) : Decidable (tree.Declares site name value) :=
  decidable_of_iff _ (declares_iff tree site name value).symm

theorem Tree.Declares.mem_operands (declares : tree.Declares site name value) :
    value ∈ tree.operands site := by
  simp [operands, source?, declares.declaration, declares.valued]

namespace Pass

variable {limit : Nat} {final : Pass}

theorem Guarded.fixed_access (guarded : Guarded tree pass) (access : (tree.kind node).isAccess = true) :
    pass.fixed[node]? = none := by
  cases found : pass.fixed[node]? with
  | none => rfl
  | some shape =>
    have value := Kind.isAccess_of_isSettled (guarded.fixed node shape found).isFixed.kind
    exact absurd (value.symm.trans access) Bool.false_ne_true

theorem boundValue_of_value (other : (tree.kind value).isAccess = false) (pass : Pass) :
    pass.boundValue tree (some value) =
      ((some (shapeOf tree value pass).1, none), (shapeOf tree value pass).2) := by
  have pathless : pass.chain? tree value = none := by
    rw [Pass.chain?, Chain.resolve?_eq, if_neg (by rw [other]; decide)]
  rw [boundValue, valueBinding, pathless]

/-- A declaration that is evaluated binds its name to the value, as that is once it has been visited. -/
theorem Visited.exists_declared (visited : Visited tree blocks limit final site)
    (proper : tree.Proper) (declares : tree.Declares site name value)
    (other : (tree.kind value).isAccess = false) : ∃ middle id binding, middle.Sound ∧
      Extends (· ∉ tree.subtree value) 0 (shapeOf tree value middle).2 final ∧
      final.scopes.resolution? name = some (.bound id) ∧ final.scopes.binding? id = some binding ∧
      binding.path = none ∧ binding.shape = some (shapeOf tree value middle).1 := by
  obtain ⟨label, text⟩ := isSome_iff_exists.1 declares.labelled
  have split : tree.actions blocks site = [.visit value] ++ [.declare name (some value)] := by
    simp [actions, declares.declaration, declares.named, declares.valued, declares.identifier]
  obtain ⟨room, middle, last, run, soundMiddle, outside⟩ :=
    visited.exists_last proper (.inl declares.declaration) split
  have named := mem_children_of_child? declares.named
  have valued := mem_children_of_child? declares.valued
  have apart : name ∉ tree.subtree value := by
    refine proper.not_mem_subtree named valued fun same => ?_
    exact child?_ne_some declares.named (by decide : Role.name ≠ .value) (same ▸ declares.valued)
  simp only [Action.run, Pass.named, boundValue_of_value other, bindIdentifier, text, isNone_some,
    Bool.and_false, Bool.false_eq_true, if_false] at run
  cases run
  have introduced {binding : Binding} : Extends (· ∉ tree.subtree value) 0 (shapeOf tree value middle).2
      ((shapeOf tree value middle).2.introduce name binding) := extends_introduce apart
  refine ⟨middle, (shapeOf tree value middle).2.scopes.bindings.size, _, soundMiddle,
    introduced.trans (outside value valued), ?_, (outside name named).bindings _ _ Array.getElem?_push_size,
    rfl, rfl⟩
  rw [(outside name named).references name fun absent => absent (tree.mem_subtree_self name)]
  exact Std.TreeMap.getElem?_insert_self

theorem shapeOf_of_isSettled (settled : (tree.kind node).isSettled = true) (pass : Pass) :
    shapeOf tree node pass = match pass.fixed[node]? with
      | some shape => (shape, pass)
      | none => pass.newUnknown .expression := by
  rw [shapeOf_eq]
  cases kind : tree.kind node with
  | identifier | member | index | assignment =>
    rw [kind] at settled
    cases settled
  | _ => rfl

/-- A name that is given a value of a kind that may be fixed holds the shape that is, or else a new one. -/
theorem Visited.exists_held (visited : Visited tree blocks limit final site) (proper : tree.Proper)
    (declares : tree.Declares site name value) (settled : (tree.kind value).isSettled = true) :
    ∃ id binding shape, final.scopes.resolution? name = some (.bound id) ∧
      final.scopes.binding? id = some binding ∧ binding.path = none ∧ binding.shape = some shape ∧
      (∀ fixed, final.fixed[value]? = some fixed → shape = fixed) ∧
      (final.fixed[value]? = none →
        ∃ held, final.shapes.get? shape = some held ∧ (Shape.unknown .expression).Grown 0 held) := by
  obtain ⟨middle, id, binding, _, extend, bound, atId, pathless, holds⟩ :=
    visited.exists_declared proper declares (Kind.isAccess_of_isSettled settled)
  have same := extend.fixed value fun outside => outside (tree.mem_subtree_self value)
  rw [shapeOf_of_isSettled settled] at extend holds same
  cases found : middle.fixed[value]? with
  | some shape =>
    rw [found] at holds same
    have atFinal : final.fixed[value]? = some shape := same.trans found
    refine ⟨id, binding, shape, bound, atId, pathless, holds, fun fixed here => ?_, fun missing => ?_⟩
    · exact some.inj (atFinal.symm.trans here)
    · cases atFinal.symm.trans missing
  | none =>
    rw [found] at extend holds same
    have atFinal : final.fixed[value]? = none := same.trans found
    refine ⟨id, binding, middle.shapes.size, bound, atId, pathless, holds, fun fixed here => ?_, fun _ => ?_⟩
    · cases atFinal.symm.trans here
    · exact extend.shapes _ _ (get?_newShape middle _)

end Pass

theorem Pass.resolution_model {resolution : Resolution}
    (recorded : pass.scopes.resolution? node = some resolution) :
    (pass.model tree).resolution node = resolution := by
  rw [Model.resolution, Pass.model_scopes, recorded]
  rfl

namespace Model

variable {limits : Limits} {model : Model}

theorem shapeOf?_of_isAccess (proper : tree.Proper)
    (analysed : ofTree tree blocks limits = .ok model) (access : (tree.kind node).isAccess = true) :
    model.shapeOf? node = (model.chain? node).bind fun chain =>
      model.scopes.terminus model.shapes chain (model.epochOf node) := by
  obtain ⟨final, run, rfl⟩ := ofTree_eq_ok.1 analysed
  rw [shapeOf?_eq, Pass.model_fixed, (Pass.guarded_run proper run).fixed_access access, Pass.model_tree]
  cases kind : tree.kind node with
  | identifier | member | index => rfl
  | _ =>
    rw [kind] at access
    cases access

/-- The path of an identifier is that of the name that it refers to, and begins there if the name has none. -/
theorem exists_chain?_of_reference {reference : NodeId} {id : BindingId} {binding : Binding}
    (proper : tree.Proper) (analysed : ofTree tree blocks limits = .ok model)
    (identifier : tree.kind reference = .identifier) (refers : model.resolution reference = .bound id)
    (atId : model.scopes.binding? id = some binding) :
    (binding.path = none → ∃ label, model.chain? reference = some { root := .binding id label }) ∧
      ∀ path, binding.path = some path → model.chain? reference = some path := by
  obtain ⟨final, run, rfl⟩ := ofTree_eq_ok.1 analysed
  have recorded := resolution?_of_bound refers
  obtain ⟨label, written⟩ := Pass.exists_text proper run recorded
  refine ⟨fun pathless => ⟨label, ?_⟩, fun path stands => ?_⟩
  · have hangs : tree.Hangs reference [] false reference := .name identifier
    change Chain.resolve? tree (final.model tree).scopes reference = _
    rw [Chain.resolve?_eq, if_pos (Chain.isAccess_of_hangs hangs),
      Chain.written?_of_hangs hangs written recorded]
    simp only [map_some, Scopes.expandAlias, atId, bind_some, pathless]
  · have goes := Pass.chain?_of_hangs written recorded atId stands (.name identifier)
    rw [List.append_nil, Bool.or_false] at goes
    exact goes

end Model

end LeakTrace
