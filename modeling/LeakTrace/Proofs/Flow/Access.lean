import Mathlib.Data.List.ReduceOption
import LeakTrace.Proofs.Flow.Destructuring

namespace LeakTrace

open Chain Option

variable {node base : NodeId} {key : Option Key}

namespace Tree

/-- The node goes on from the object by a key: a member access by the name of its property, an index by the
string or the number that is written in it. Any other index goes on by an unknown key. -/
inductive Accesses (tree : Tree) (object : NodeId) : Option Key → NodeId → Prop
  | property {node property : NodeId} {name : String} : tree.kind node = .member →
      tree.child? node .object = some object → tree.child? node .property = some property →
      tree.text property = some name → Accesses tree object (some (.name name)) node
  | named {node index : NodeId} {name : String} : tree.kind node = .index →
      tree.child? node .object = some object → tree.child? node .index = some index →
      tree.kind index = .string → tree.text index = some name →
      Accesses tree object (some (.name name)) node
  | element {node index : NodeId} {text : String} {position : Nat} : tree.kind node = .index →
      tree.child? node .object = some object → tree.child? node .index = some index →
      tree.kind index = .number → tree.text index = some text → Text.word? text = some position →
      Accesses tree object (some (.element position)) node
  | computed {node index : NodeId} : tree.kind node = .index →
      tree.child? node .object = some object → tree.child? node .index = some index →
      (tree.kind index = .string → tree.text index = none) →
      (∀ text, tree.kind index = .number → tree.text index = some text → Text.word? text = none) →
      Accesses tree object none node

/-- The accesses by which a node goes on from a base that is none itself, with their keys from the inside
out. -/
inductive Along (tree : Tree) (base : NodeId) : List (Option Key) → NodeId → Prop
  | base : tree.kind base ≠ .member → tree.kind base ≠ .index → Along tree base [] base
  | access {keys : List (Option Key)} {key : Option Key} {object node : NodeId} :
      Along tree base keys object → Accesses tree object key node → Along tree base (keys ++ [key]) node

variable {tree : Tree} {holder index : NodeId} {keys : List (Option Key)}

theorem Accesses.object (accesses : tree.Accesses holder key node) :
    tree.child? node .object = some holder := by
  cases accesses with
  | property _ found => exact found
  | named _ found => exact found
  | element _ found => exact found
  | computed _ found => exact found

theorem indexKey?_of_computed (textless : tree.kind index = .string → tree.text index = none)
    (wordless : ∀ text, tree.kind index = .number → tree.text index = some text → Text.word? text = none) :
    tree.indexKey? index = none := by
  unfold indexKey?
  split
  · rename_i string
    rw [textless string, map_none]
  · rename_i number
    cases found : tree.text index with
    | none => rfl
    | some text => rw [bind_some, wordless text number found, map_none]
  · rfl

theorem Accesses.accessKey? (accesses : tree.Accesses holder key node) :
    tree.accessKey? node = some key := by
  cases accesses with
  | property kind _ found text => simp [Tree.accessKey?, kind, found, text]
  | named kind _ found string text => simp [Tree.accessKey?, kind, found, indexKey?, string, text]
  | element kind _ found number text word => simp [Tree.accessKey?, kind, found, indexKey?, number, text, word]
  | computed kind _ found textless wordless =>
    simp [Tree.accessKey?, kind, found, indexKey?_of_computed textless wordless]

theorem accesses_index (kind : tree.kind node = .index) (found : tree.child? node .object = some holder)
    (atIndex : tree.child? node .index = some index) : tree.Accesses holder (tree.indexKey? index) node := by
  cases unknown : tree.indexKey? index with
  | none =>
    refine .computed kind found atIndex (fun string => ?_) fun text number written => ?_
    · simpa [indexKey?, string] using unknown
    · simpa [indexKey?, number, written] using unknown
  | some key =>
    unfold indexKey? at unknown
    split at unknown
    · rename_i string
      obtain ⟨name, text, rfl⟩ := map_eq_some_iff.1 unknown
      exact .named kind found atIndex string text
    · rename_i number
      obtain ⟨position, word, rfl⟩ := map_eq_some_iff.1 unknown
      obtain ⟨text, written, word⟩ := bind_eq_some_iff.1 word
      exact .element kind found atIndex number written word
    · cases unknown

theorem Accesses.isAccess (accesses : tree.Accesses holder key node) :
    (tree.kind node).isAccess = true := by
  cases accesses with
  | property kind | named kind | element kind | computed kind =>
    rw [kind]
    rfl

end Tree

namespace Chain

variable {chain : Chain}

theorem step_of_ended (ends : chain.unknownTail = true) (key : Option Key) : chain.step key = chain :=
  if_pos ends

theorem step_of_certain (certain : chain.unknownTail = false) (key : Option Key) :
    chain.step key = { chain with segments := chain.segments ++ key.toList, unknownTail := key.isNone } := by
  cases key <;> simp [step, extend, certain]

variable (start : Chain) (keys : List (Option Key))

/-- The path that goes on by the keys as far as they are known, and ends where one is not. -/
def upTo : Chain where
  root := start.root
  segments := start.segments ++ (keys.takeWhile isSome).reduceOption
  unknownTail := keys.any isNone

theorem upTo_nil {start : Chain} (certain : start.unknownTail = false) : start.upTo [] = start := by
  obtain ⟨root, segments, unknownTail⟩ := start
  cases certain
  simp [upTo]

theorem upTo_cons_some (key : Key) (keys : List (Option Key)) :
    start.upTo (some key :: keys) = (start.extend key).upTo keys := by
  simp [upTo, extend]

theorem upTo_cons_none : start.upTo (none :: keys) = { start with unknownTail := true } := by
  simp [upTo]

theorem step_upTo (key : Option Key) : (start.upTo keys).step key = start.upTo (keys ++ [key]) := by
  induction keys generalizing start with
  | nil => cases key <;> simp [upTo, step, extend]
  | cons first rest ih =>
    rw [List.cons_append]
    cases first with
    | none => rw [upTo_cons_none, upTo_cons_none, step_of_ended rfl]
    | some first => rw [upTo_cons_some, upTo_cons_some, ih]

end Chain

namespace Scopes

variable {scopes : Scopes}

/-- A path goes on before its alias is expanded as it does afterwards, since aliases stand for paths that
are known to their ends. -/
theorem expandAlias_step (certain : ∀ id binding path, scopes.binding? id = some binding →
      binding.path = some path → path.unknownTail = false) (chain : Chain) (key : Option Key) :
    scopes.expandAlias (chain.step key) = (scopes.expandAlias chain).step key := by
  unfold expandAlias
  rw [root_step]
  split
  · rename_i id name root
    cases stands : (scopes.binding? id).bind Binding.path with
    | none => rfl
    | some path =>
      obtain ⟨binding, atId, isPath⟩ := bind_eq_some_iff.1 stands
      have known := certain id binding path atId isPath
      cases ends : chain.unknownTail with
      | true => simp [step, ends]
      | false => cases key <;> simp [step, extend, ends, known]
  · rfl

end Scopes

namespace Model

variable {tree : Tree} {blocks : Bool} {limits : Limits} {model : Model} {object : NodeId}
  {keys : List (Option Key)} {chain : Chain}

/-- What an access to a node goes on from: the path at the node, if it is an identifier or an access itself.
The value of a call, and any other value, begins a path of its own. -/
def origin? (model : Model) (node : NodeId) : Option Chain :=
  if (model.tree.kind node).isAccess then model.chain? node
  else some { root := if model.tree.kind node = .call then .callResult node else .expression node }

theorem origin?_of_isAccess (access : (model.tree.kind node).isAccess = true) :
    model.origin? node = model.chain? node :=
  if_pos access

theorem origin?_eq (model : Model) (node : NodeId) :
    model.origin? node = (written? model.tree model.scopes node).map model.scopes.expandAlias := by
  by_cases access : (model.tree.kind node).isAccess = true
  · rw [origin?_of_isAccess access, chain?, resolve?_eq, if_pos access]
  rw [origin?, if_neg access, written?_eq]
  cases kind : model.tree.kind node with
  | identifier | member | index =>
    rw [kind] at access
    exact absurd rfl access
  | _ => rfl

section

variable (analysed : Model.ofTree tree blocks limits = .ok model)
include analysed

theorem certain_alias {id : BindingId} {binding : Binding} {path : Chain}
    (atId : model.scopes.binding? id = some binding) (stands : binding.path = some path) :
    path.unknownTail = false := by
  obtain ⟨pass, run, rfl⟩ := Model.ofTree_eq_ok.1 analysed
  have sound := (Pass.within_run run).sound Pass.sound_start
  exact ((sound.bindings id binding atId).path path stands).known

theorem chain?_of_accesses (accesses : tree.Accesses object key node) :
    model.chain? node = (model.origin? object).map (·.step key) := by
  have atTree := tree_of_ofTree analysed
  subst atTree
  rw [origin?_eq, chain?, resolve?_eq, if_pos accesses.isAccess,
    written?_of_accessKey? accesses.object accesses.accessKey?, map_map, map_map]
  refine map_congr fun chain _ => ?_
  exact Scopes.expandAlias_step (fun _ _ _ atId stands => certain_alias analysed atId stands) chain key

theorem certain_origin? (mem : model.tree.kind base ≠ .member) (index : model.tree.kind base ≠ .index)
    (found : model.origin? base = some chain) : chain.unknownTail = false := by
  have certain (written : Chain) (known : written.unknownTail = false) :
      (model.scopes.expandAlias written).unknownTail = false := by
    unfold Scopes.expandAlias
    split
    · split
      · rename_i stands
        obtain ⟨binding, atId, isPath⟩ := bind_eq_some_iff.1 stands
        simp [certain_alias analysed atId isPath, known]
      · exact known
    · exact known
  rw [origin?_eq] at found
  obtain ⟨written, atBase, rfl⟩ := map_eq_some_iff.1 found
  refine certain written ?_
  rw [written?_eq] at atBase
  split at atBase
  · obtain ⟨name, _, rfl⟩ := map_eq_some_iff.1 atBase
    split <;> rfl
  · exact absurd ‹_› mem
  · exact absurd ‹_› index
  · cases atBase
    rfl
  · cases atBase
    rfl

theorem origin?_of_along (along : tree.Along base keys node) :
    model.origin? node = (model.origin? base).map (·.upTo keys) := by
  have atTree := tree_of_ofTree analysed
  subst atTree
  induction along with
  | base mem index =>
    cases found : model.origin? base with
    | none => rfl
    | some chain => rw [map_some, upTo_nil (certain_origin? analysed mem index found)]
  | access _ accesses ih =>
    rw [origin?_of_isAccess accesses.isAccess, chain?_of_accesses analysed accesses, ih, map_map]
    exact map_congr fun start _ => start.step_upTo _ _

theorem exists_along (found : model.origin? node = some chain) :
    ∃ base keys, tree.Along base keys node := by
  have atTree := tree_of_ofTree analysed
  subst atTree
  induction node using Nat.strongRecOn generalizing chain with | ind node ih
  have inner {object : NodeId} {key : Option Key} (accesses : model.tree.Accesses object key node) :
      ∃ base keys, model.tree.Along base keys node := by
    rw [origin?_of_isAccess accesses.isAccess, chain?_of_accesses analysed accesses] at found
    obtain ⟨start, atObject, _⟩ := map_eq_some_iff.1 found
    obtain ⟨base, keys, along⟩ := ih object (Tree.lt_of_child? accesses.object) atObject
    exact ⟨base, keys ++ [key], along.access accesses⟩
  by_cases mem : model.tree.kind node = .member
  · rw [origin?_eq, written?_eq, mem] at found
    obtain ⟨_, found, _⟩ := map_eq_some_iff.1 found
    obtain ⟨name, named, found⟩ := bind_eq_some_iff.1 found
    obtain ⟨object, atObject, _⟩ := bind_eq_some_iff.1 found
    obtain ⟨property, atProperty, text⟩ := bind_eq_some_iff.1 named
    exact inner (.property mem atObject atProperty text)
  by_cases index : model.tree.kind node = .index
  · rw [origin?_eq, written?_eq, index] at found
    obtain ⟨_, found, _⟩ := map_eq_some_iff.1 found
    obtain ⟨bracket, atIndex, found⟩ := bind_eq_some_iff.1 found
    obtain ⟨object, atObject, _⟩ := bind_eq_some_iff.1 found
    exact inner (Tree.accesses_index index atObject atIndex)
  · exact ⟨node, [], .base mem index⟩

end

/-- Access paths are put together step by step. An access to the value of a call, or to another value that
has no path, begins a path with its own key. An access to what has a path goes on from there: not at all if
the path ended in an unknown key already, to such an end by an unknown key, and by exactly one key
otherwise. So a path consists of what the base of the accesses stands for, which is no access itself and a
call if one comes before them, followed by the keys up to the first unknown one. -/
theorem chain_compositional (analysed : Model.ofTree tree blocks limits = .ok model) :
    (∀ object key node, tree.Accesses object key node →
      (tree.kind object = .call → model.chain? node =
        some { root := .callResult object, segments := key.toList, unknownTail := key.isNone }) ∧
      (tree.kind object ≠ .call → (tree.kind object).isAccess = false → model.chain? node =
        some { root := .expression object, segments := key.toList, unknownTail := key.isNone }) ∧
      ((tree.kind object).isAccess = true →
        (model.chain? object = none → model.chain? node = none) ∧
        ∀ chain, model.chain? object = some chain →
          (chain.unknownTail = true → model.chain? node = some chain) ∧
          (chain.unknownTail = false → key = none →
            model.chain? node = some { chain with unknownTail := true }) ∧
          ∀ known, chain.unknownTail = false → key = some known →
            model.chain? node = some { chain with segments := chain.segments ++ [known] })) ∧
    ∀ node chain, model.chain? node = some chain ↔ (tree.kind node).isAccess = true ∧
      ∃ base keys start, tree.Along base keys node ∧ model.origin? base = some start ∧
        chain = start.upTo keys := by
  have atTree := tree_of_ofTree analysed
  subst atTree
  refine ⟨fun object key node accesses => ?_, fun node chain => ⟨fun found => ?_, ?_⟩⟩
  · have goes := chain?_of_accesses analysed accesses
    refine ⟨fun call => ?_, fun other value => ?_, fun access => ?_⟩
    · rw [goes, origin?, call, if_neg (by decide), if_pos rfl, map_some, step_of_certain rfl,
        List.nil_append]
    · rw [goes, origin?, value, if_neg (by decide), if_neg other, map_some,
        step_of_certain rfl, List.nil_append]
    · rw [origin?_of_isAccess access] at goes
      refine ⟨fun none => by rw [goes, none, map_none], fun chain found => ?_⟩
      rw [found, map_some] at goes
      refine ⟨fun ends => ?_, fun certain unknown => ?_, fun known certain same => ?_⟩
      · rw [goes, step_of_ended ends]
      · rw [goes, unknown, step_of_certain certain]
        simp
      · rw [goes, same, step_of_certain certain]
        simp [certain]
  · have access : (model.tree.kind node).isAccess = true := by
      rw [chain?, resolve?_eq] at found
      by_contra other
      rw [if_neg other] at found
      cases found
    have atNode := (origin?_of_isAccess access).trans found
    obtain ⟨base, keys, along⟩ := exists_along analysed atNode
    rw [origin?_of_along analysed along] at atNode
    obtain ⟨start, atBase, rfl⟩ := map_eq_some_iff.1 atNode
    exact ⟨access, base, keys, start, along, atBase, rfl⟩
  · rintro ⟨access, base, keys, start, along, atBase, rfl⟩
    rw [← origin?_of_isAccess access, origin?_of_along analysed along, atBase, map_some]

/-- In `const a = u.v; f(a).x["y"][i].z; a.b[0];` the first path hangs off the call and ends at the index
`i`, and the second one goes on from `u.v.b` by an element. -/
theorem chain_compositional_call :
    let tree := Script.tree "path.js" "const a = u.v;\nf(a).x[\"y\"][i].z;\na.b[0];\n"
    ∃ model, Model.ofTree tree false {} = .ok model ∧
      tree.Along 9 [some (.name "x"), some (.name "y"), none, some (.name "z")] 17 ∧
      model.chain? 17 =
        some { root := .callResult 9, segments := [.name "x", .name "y"], unknownTail := true } ∧
      tree.Accesses 21 (some (.element 0)) 23 ∧
      model.chain? 21 = some { root := .undeclared "u", segments := [.name "v", .name "b"] } ∧
      model.chain? 23 =
        some { root := .undeclared "u", segments := [.name "v", .name "b", .element 0] } := by
  intro tree
  obtain ⟨model, analysed, shorter⟩ : ∃ model, Model.ofTree tree false {} = .ok model ∧
      model.chain? 21 = some { root := .undeclared "u", segments := [.name "v", .name "b"] } := by
    decide +kernel
  have call : tree.Along 9 [] 9 := .base (by decide +kernel) (by decide +kernel)
  obtain ⟨outer, atOuter, property, named⟩ : tree.kind 11 = .member ∧ tree.child? 11 .object = some 9 ∧
      tree.child? 11 .property = some 10 ∧ tree.text 10 = some "x" := by
    decide +kernel
  obtain ⟨string, atString, bracket, literal, text⟩ : tree.kind 13 = .index ∧
      tree.child? 13 .object = some 11 ∧ tree.child? 13 .index = some 12 ∧ tree.kind 12 = .string ∧
      tree.text 12 = some "y" := by
    decide +kernel
  obtain ⟨computed, atComputed, unknown, changing⟩ : tree.kind 15 = .index ∧
      tree.child? 15 .object = some 13 ∧ tree.child? 15 .index = some 14 ∧
      tree.kind 14 = .identifier := by
    decide +kernel
  obtain ⟨last, atLast, final, ends⟩ : tree.kind 17 = .member ∧ tree.child? 17 .object = some 15 ∧
      tree.child? 17 .property = some 16 ∧ tree.text 16 = some "z" := by
    decide +kernel
  have along : tree.Along 9 [some (.name "x"), some (.name "y"), none, some (.name "z")] 17 :=
    (((call.access (.property outer atOuter property named)).access
      (.named string atString bracket literal text)).access
        (.computed computed atComputed unknown (by simp [changing]) (by simp [changing]))).access
          (.property last atLast final ends)
  have element : tree.Accesses 21 (some (.element 0)) 23 := by
    obtain ⟨kind, object, index, number, text, word⟩ : tree.kind 23 = .index ∧
        tree.child? 23 .object = some 21 ∧ tree.child? 23 .index = some 22 ∧ tree.kind 22 = .number ∧
        tree.text 22 = some "0" ∧ Text.word? "0" = some 0 := by
      decide +kernel
    exact .element kind object index number text word
  obtain ⟨steps, whole⟩ := chain_compositional analysed
  have origin : model.origin? 9 = some { root := .callResult 9 } := by
    have kind : tree.kind 9 = .call := by decide +kernel
    rw [origin?, tree_of_ofTree analysed, kind]
    rfl
  refine ⟨model, analysed, along, ?_, element, shorter, ?_⟩
  · refine (whole 17 _).2 ⟨?_, 9, _, _, along, origin, rfl⟩
    rw [last]
    rfl
  · have access : (tree.kind 21).isAccess = true := by decide +kernel
    exact (((steps 21 _ 23 element).2.2 access).2 _ shorter).2.2 _ rfl rfl

end Model

end LeakTrace
