import LeakTrace.Proofs.Flow.Visit
import LeakTrace.Script.Program

namespace LeakTrace

open Option

variable {chain : Chain} {id : BindingId} {name : String} {tree : Tree}

/-- The binding is there, stands for no path and holds a shape. -/
def Scopes.Holder (scopes : Scopes) (id : BindingId) : Prop :=
  ∃ binding shape, scopes.binding? id = some binding ∧ binding.path = none ∧
    binding.shape = some shape

namespace Scopes

variable {scopes : Scopes}

theorem expandAlias_cases (scopes : Scopes) (chain : Chain) :
    scopes.expandAlias chain = chain ∨ ∃ id name binding path, chain.root = .binding id name ∧
      scopes.binding? id = some binding ∧ binding.path = some path ∧
      (scopes.expandAlias chain).root = path.root := by
  unfold expandAlias
  split
  · rename_i id name root
    cases stands : (scopes.binding? id).bind Binding.path with
    | none => exact .inl rfl
    | some path =>
      obtain ⟨binding, atId, isPath⟩ := bind_eq_some_iff.1 stands
      exact .inr ⟨id, name, binding, path, root, atId, isPath, rfl⟩
  · exact .inl rfl

theorem expandAlias_of_rooted (rooted : chain.root.Rooted scopes.bindings) :
    scopes.expandAlias chain = chain := by
  rcases scopes.expandAlias_cases chain with same | ⟨id, name, binding, path, root, atId, isPath, _⟩
  · exact same
  rw [root] at rooted
  obtain ⟨other, atOther, pathless⟩ := rooted
  cases some.inj (atId.symm.trans atOther)
  rw [isPath] at pathless
  cases pathless

end Scopes

namespace Pass

variable {pass : Pass}

namespace Sound

variable (sound : pass.Sound)
include sound

/-- One expansion is enough: the paths of aliases hang off no alias. -/
theorem expandAlias_expandAlias (chain : Chain) :
    pass.scopes.expandAlias (pass.scopes.expandAlias chain) = pass.scopes.expandAlias chain := by
  rcases pass.scopes.expandAlias_cases chain with same | ⟨id, _, binding, path, _, atId, isPath, root⟩
  · rw [same, same]
  · refine Scopes.expandAlias_of_rooted ?_
    rw [root]
    exact ((sound.bindings id binding atId).path path isPath).rooted

theorem holder (rooted : (ChainRoot.binding id name).Rooted pass.scopes.bindings) :
    pass.scopes.Holder id := by
  obtain ⟨binding, atId, pathless⟩ := rooted
  obtain ⟨shape, holds⟩ :=
    ne_none_iff_exists'.1 ((sound.bindings id binding atId).held pathless)
  exact ⟨binding, shape, atId, pathless, holds⟩

/-- What hangs off a binding once it is expanded hangs off the holder of a shape. -/
theorem holder_expandAlias
    (there : ∀ id name, chain.root = .binding id name → ∃ binding, pass.scopes.binding? id = some binding)
    (root : (pass.scopes.expandAlias chain).root = .binding id name) : pass.scopes.Holder id := by
  rcases pass.scopes.expandAlias_cases chain with same | ⟨other, _, binding, path, _, atId, isPath, leads⟩
  · rw [same] at root
    obtain ⟨binding, atId⟩ := there id name root
    cases stands : binding.path with
    | none =>
      have rooted : (ChainRoot.binding id name).Rooted pass.scopes.bindings := ⟨binding, atId, stands⟩
      exact sound.holder rooted
    | some path =>
      -- A binding that stands for a path is expanded to it, and the path hangs off another binding.
      have expanded := ((sound.bindings id binding atId).path path stands).rooted
      have leads : (pass.scopes.expandAlias chain).root = path.root := by
        simp only [Scopes.expandAlias, root, atId, bind_some, stands]
      rw [same, root] at leads
      rw [← leads] at expanded
      exact sound.holder expanded
  · have expanded := ((sound.bindings other binding atId).path path isPath).rooted
    rw [← leads, root] at expanded
    exact sound.holder expanded

theorem root_alias {binding : Binding} {path : Chain} (atId : pass.scopes.binding? id = some binding)
    (stands : binding.path = some path) :
    (∃ name, path.root = .undeclared name) ∨
      ∃ root name, path.root = .binding root name ∧ pass.scopes.Holder root := by
  have expanded := (sound.bindings id binding atId).path path stands
  have rooted := expanded.rooted
  have named := expanded.named
  cases root : path.root with
  | undeclared name => exact .inl ⟨name, rfl⟩
  | binding holder name =>
    rw [root] at rooted
    exact .inr ⟨holder, name, rfl, sound.holder rooted⟩
  | callResult | expression =>
    rw [Chain.isUnnamed, root] at named
    cases named

theorem holder_chain? {node : NodeId} (found : pass.chain? tree node = some chain)
    (root : chain.root = .binding id name) : pass.scopes.Holder id := by
  have rooted := sound.chain? found
  rw [root] at rooted
  exact sound.holder rooted

end Sound

end Pass

namespace Model

variable {blocks : Bool} {limits : Limits} {model : Model}

/-- Aliases are fully expanded in every model. A binding has a path or a shape; a path has keys, all of
them known, and hangs off a name that nothing declares or off the holder of a shape, which is no alias.
So a path is expanded after one step, and hangs off no alias then. -/
theorem aliases_expanded (analysed : Model.ofTree tree blocks limits = .ok model) :
    (∀ id binding, model.scopes.binding? id = some binding →
      (binding.path ≠ none ∨ binding.shape ≠ none) ∧
      ∀ path, binding.path = some path → path.segments ≠ [] ∧ path.unknownTail = false ∧
        ((∃ name, path.root = .undeclared name) ∨
          ∃ root name, path.root = .binding root name ∧ model.scopes.Holder root)) ∧
    (∀ chain, model.scopes.expandAlias (model.scopes.expandAlias chain) =
      model.scopes.expandAlias chain) ∧
    (∀ chain, (∀ id name, chain.root = .binding id name →
        ∃ binding, model.scopes.binding? id = some binding) →
      ∀ id name, (model.scopes.expandAlias chain).root = .binding id name → model.scopes.Holder id) ∧
    ∀ node chain id name, model.chain? node = some chain → chain.root = .binding id name →
      model.scopes.Holder id := by
  obtain ⟨pass, run, rfl⟩ := Model.ofTree_eq_ok.1 analysed
  have sound := (Pass.within_run run).sound Pass.sound_start
  refine ⟨fun id binding atId => ⟨?_, fun path stands => ?_⟩, sound.expandAlias_expandAlias,
    fun chain there id name root => sound.holder_expandAlias there root,
    fun node chain id name found root => sound.holder_chain? found root⟩
  · by_cases pathless : binding.path = none
    · exact .inr ((sound.bindings id binding atId).held pathless)
    · exact .inl pathless
  · have expanded := (sound.bindings id binding atId).path path stands
    exact ⟨expanded.segments, expanded.known, sound.root_alias atId stands⟩

/-- In `const u = {}; const v = u.x; const w = v.y; w.z;` the name `w` stands for `u.x.y`, and the path
at the end hangs off `u`. -/
theorem aliases_expanded_twice :
    let tree := Script.tree "alias.js" "const u = {};\nconst v = u.x;\nconst w = v.y;\nw.z;\n"
    ∃ model binding path chain, Model.ofTree tree false {} = .ok model ∧
      model.scopes.binding? 2 = some binding ∧ binding.path = some path ∧ path.segments ≠ [] ∧
      path.root = .binding 0 "u" ∧ path.segments = [.name "x", .name "y"] ∧
      model.scopes.expandAlias (model.scopes.expandAlias path) = model.scopes.expandAlias path ∧
      model.chain? 18 = some chain ∧ chain.root = .binding 0 "u" ∧ model.scopes.Holder 0 := by
  intro tree
  obtain ⟨model, analysed, ⟨binding, atId, isPath⟩, chain, atNode, root⟩ :
      ∃ model, Model.ofTree tree false {} = .ok model ∧ (∃ binding ∈ model.scopes.binding? 2,
        binding.path = some { root := .binding 0 "u", segments := [.name "x", .name "y"] }) ∧
      ∃ chain ∈ model.chain? 18, chain.root = .binding 0 "u" := by
    decide +kernel
  obtain ⟨bindings, twice, _, chains⟩ := aliases_expanded analysed
  exact ⟨model, binding, _, chain, analysed, atId, isPath, ((bindings 2 binding atId).2 _ isPath).1, rfl,
    rfl, twice _, atNode, root, chains 18 chain 0 "u" atNode root⟩

end Model

end LeakTrace
