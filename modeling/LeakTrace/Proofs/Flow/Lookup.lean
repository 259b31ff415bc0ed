import LeakTrace.Proofs.Flow.Lexical

namespace LeakTrace

open List Option

variable {scope : ScopeId} {name : String}

namespace Scopes

/-- All that was done to the scopes of a program, with the number of scopes that this has made. Scopes are
opened, and names declared, in scopes that are there. -/
inductive History : (size : Nat) → Type
  | program : History 1
  | opened {size : Nat} (earlier : History size) (outer : Fin size) (kind : ScopeKind) (node : NodeId) :
      History (size + 1)
  | declared {size : Nat} (earlier : History size) (binding : Binding) (there : binding.scope < size) :
      History size

namespace History

/-- The scopes as they are in the end. -/
def scopes : {size : Nat} → History size → Scopes
  | _, program => ofProgram
  | _, opened earlier outer kind node => earlier.scopes.openScope outer kind node
  | _, declared earlier binding _ => earlier.scopes.declare binding

/-- How many bindings were declared, which is the handle of the next one. -/
def count : {size : Nat} → History size → Nat
  | _, program => 0
  | _, opened earlier _ _ _ => earlier.count
  | _, declared earlier _ _ => earlier.count + 1

/-- The way from a scope out to the program, by the scopes in which they were opened. -/
def path : {size : Nat} → History size → ScopeId → List ScopeId
  | _, program, scope => [scope]
  | size + 1, opened earlier outer _ _, scope =>
    if scope = size then scope :: earlier.path outer else earlier.path scope
  | _, declared earlier _ _, scope => earlier.path scope

/-- The binding of the name that was declared last in the scope itself. -/
def latest? (name : String) (scope : ScopeId) : {size : Nat} → History size → Option BindingId
  | _, program => none
  | _, opened earlier _ _ _ => latest? name scope earlier
  | _, declared earlier binding _ =>
    if binding.scope = scope ∧ binding.name = name then some earlier.count
    else latest? name scope earlier

variable {size : Nat}

section

variable (history : History size)

theorem size_scopes : history.scopes.scopes.size = size := by
  induction history with
  | program => rfl
  | opened earlier outer kind node ih => exact (Array.size_push _).trans (congrArg (· + 1) ih)
  | declared earlier binding _ ih => exact Array.size_modify.trans ih

theorem size_bindings : history.scopes.bindings.size = history.count := by
  induction history with
  | program => rfl
  | opened earlier outer kind node ih => exact ih
  | declared earlier binding _ ih => exact (Array.size_push _).trans (congrArg (· + 1) ih)

theorem current_eq_latest? (scope : ScopeId) (name : String) :
    (history.scopes.scopes[scope]?.bind fun record => record.current[name]?) =
      latest? name scope history := by
  induction history with
  | program =>
    rw [scopes, ofProgram, Array.getElem?_singleton]
    split
    · exact Std.TreeMap.getElem?_emptyc
    · rfl
  | opened earlier outer kind node ih =>
    rw [latest?, ← ih, scopes, openScope, Array.getElem?_push]
    split
    · rename_i new
      rw [new, Array.getElem?_eq_none (Nat.le_refl _)]
      exact Std.TreeMap.getElem?_emptyc
    · rfl
  | declared earlier binding there ih =>
    rw [latest?, ← ih, scopes, declare, Array.getElem?_modify]
    by_cases here : binding.scope = scope
    · subst here
      obtain ⟨record, found⟩ : ∃ record, earlier.scopes.scopes[binding.scope]? = some record :=
        ⟨_, Array.getElem?_eq_getElem (earlier.size_scopes.symm ▸ there)⟩
      rw [if_pos rfl, found, map_some, bind_some, bind_some,
        Std.TreeMap.getElem?_insert, size_bindings]
      simp only [Std.compare_eq_iff_eq, true_and]
    · rw [if_neg here, if_neg fun both => here both.1]

theorem path_eq (there : scope < size) :
    history.path scope = scope :: ((history.scopes.parent? scope).map history.path).getD [] := by
  induction history with
  | program =>
    cases Nat.lt_one_iff.1 there
    rfl
  | @opened size earlier outer kind node ih =>
    have before (inner : ScopeId) (old : inner < size) :
        (opened earlier outer kind node).path inner = earlier.path inner :=
      if_neg (Nat.ne_of_lt old)
    rw [scopes, parent?_openScope, earlier.size_scopes, if_pos outer.isLt]
    rcases Nat.lt_succ_iff_lt_or_eq.1 there with old | rfl
    · rw [if_neg (Nat.ne_of_lt old), before scope old, ih old]
      cases link : earlier.scopes.parent? scope with
      | none => rfl
      | some next =>
        rw [map_some, map_some, before next (Nat.lt_trans (lt_of_parent? link) old)]
    · rw [if_pos rfl, map_some, before outer outer.isLt]
      exact if_pos rfl
  | declared earlier binding _ ih =>
    rw [scopes, parent?_declare]
    exact ih there

theorem lookup_eq (there : scope < size) (name : String) : history.scopes.lookup scope name =
      (history.path scope).findSome? fun outer => latest? name outer history := by
  induction scope using Nat.strongRecOn with | ind scope ih
  rw [lookup, current_eq_latest?, history.path_eq there, findSome?_cons]
  cases latest? name scope history with
  | some id => rfl
  | none =>
    simp only
    split
    · rename_i outer link
      have nearer := lt_of_parent? link
      rw [link, ih outer nearer (Nat.lt_trans nearer there)]
      rfl
    · rename_i link
      rw [link]
      rfl

theorem isWithin_iff_mem_path (there : scope < size) (outer : ScopeId) :
    history.scopes.isWithin scope outer = true ↔ outer ∈ history.path scope := by
  induction scope using Nat.strongRecOn with | ind scope ih
  rw [isWithin, history.path_eq there, mem_cons]
  by_cases same : scope = outer
  · simp [same]
  rw [if_neg same]
  split
  · rename_i next link
    have nearer := lt_of_parent? link
    rw [link, ih next nearer (Nat.lt_trans nearer there)]
    simp [Ne.symm same]
  · rename_i link
    simp [link, Ne.symm same]

end

theorem exists_of_latest? {history : History size} {id : BindingId}
    (latest : latest? name scope history = some id) :
    ∃ binding, history.scopes.binding? id = some binding ∧ binding.name = name ∧
      binding.scope = scope := by
  induction history with
  | program => cases latest
  | opened earlier outer kind node ih => exact ih latest
  | declared earlier binding there ih =>
    rw [latest?] at latest
    rw [scopes, binding?, declare, Array.getElem?_push, size_bindings]
    split at latest
    · rename_i here
      cases latest
      rw [if_pos rfl]
      exact ⟨binding, rfl, here.2, here.1⟩
    obtain ⟨other, atId, facts⟩ := ih latest
    have old := (Array.getElem?_eq_some_iff.1 atId).1
    rw [size_bindings] at old
    rw [if_neg (Nat.ne_of_lt old)]
    exact ⟨other, atId, facts⟩

section

variable (history : History size)

theorem lookup_declared (there : scope < size) (binding : Binding) (held : binding.scope < size)
    (outside : name = binding.name → binding.scope ∉ history.path scope) :
    (history.declared binding held).scopes.lookup scope name = history.scopes.lookup scope name := by
  rw [lookup_eq _ there, lookup_eq _ there, ← head?_filterMap, ← head?_filterMap]
  refine congrArg head? (filterMap_congr fun outer mem => if_neg ?_)
  rintro ⟨rfl, rfl⟩
  exact outside rfl mem

/-- Scopes that were opened in the same scope do not lie on each other's way. -/
theorem not_mem_path_of_sibling {sibling : ScopeId} (there : scope < size) (different : scope ≠ sibling)
    (beside : history.scopes.parent? scope = history.scopes.parent? sibling) :
    sibling ∉ history.path scope := by
  rw [← history.isWithin_iff_mem_path there, isWithin_iff]
  intro inside
  rcases inside.cases_head with same | ⟨next, link, further⟩
  · exact different same
  · exact Nat.not_lt.2 (Inside.le further) (lt_of_parent? (beside.symm.trans link))

end

/-- A name means what the nearest scope around has for it, and there what was declared last. Whatever was
done to the scopes, a look-up follows the way from the scope out to the program and stops at the first
scope in which the name was declared; a scope lies inside exactly those on its way. So one more
declaration changes no other name, and nothing for a scope that does not lie inside its own. -/
theorem lookup_nearest_latest (history : History size) (scope : Fin size) :
    (∀ name, history.scopes.lookup scope name =
      (history.path scope).findSome? fun outer => latest? name outer history) ∧
    (∀ name id, history.scopes.lookup scope name = some id →
      ∃ binding, history.scopes.binding? id = some binding ∧ binding.name = name ∧
        binding.scope ∈ history.path scope) ∧
    (∀ outer, history.scopes.isWithin scope outer = true ↔ outer ∈ history.path scope) ∧
    ∀ (binding : Binding) (held : binding.scope < size) (name : String),
      ((history.declared binding held).scopes.lookup scope name ≠ history.scopes.lookup scope name →
        name = binding.name ∧ history.scopes.isWithin scope binding.scope = true) ∧
      (scope ≠ binding.scope → history.scopes.parent? scope = history.scopes.parent? binding.scope →
        (history.declared binding held).scopes.lookup scope name = history.scopes.lookup scope name) := by
  have there := scope.isLt
  refine ⟨history.lookup_eq there, fun name id found => ?_, history.isWithin_iff_mem_path there,
    fun binding held name => ⟨fun changed => ?_, fun different beside => ?_⟩⟩
  · rw [history.lookup_eq there] at found
    obtain ⟨outer, member, latest⟩ := exists_of_findSome?_eq_some found
    obtain ⟨binding, atId, named, rfl⟩ := exists_of_latest? latest
    exact ⟨binding, atId, named, member⟩
  · by_contra outside
    refine changed (history.lookup_declared there binding held fun same member => outside ⟨same, ?_⟩)
    exact (history.isWithin_iff_mem_path there _).2 member
  · exact history.lookup_declared there binding held fun _ =>
      history.not_mem_path_of_sibling there different beside

end History

end Scopes

end LeakTrace
