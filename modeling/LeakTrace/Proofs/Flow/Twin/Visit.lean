import LeakTrace.Proofs.Flow.Twin.Value

namespace LeakTrace

open List LeakTrace.Tree Pass

variable {tree : Tree} {child inner : NodeId} {Region : NodeId → Prop} {node outer : NodeId}

namespace Tree

theorem mem_subtree_of_below (mem : inner ∈ tree.below node) : inner ∈ tree.subtree node := by
  rw [subtree_eq]
  exact .tail _ mem

end Tree

/-- What got its mark in a part of the pass is one of the nodes that the part came to. -/
theorem Pass.Within.late {nodes : List NodeId}
    {before after : Pass} {mark : Mark} (within : Within tree Region nodes before after)
    (sound : before.Sound) (marked : after.marks[node]? = some mark) (recent : before.epoch < mark.epoch) :
    node ∈ nodes := by
  obtain ⟨trace, course, inside⟩ := within
  by_contra absent
  rw [course.marks_eq fun mem => absent (inside.subset mem)] at marked
  have := sound.marks node mark marked
  omega

theorem Pass.Known.pathless {pass : Pass} {shape : Option ShapeId} {chain : Option Chain}
    (known : Known shape chain pass) : Known shape none pass := by
  refine ⟨known.shape, fun path mem => ?_, fun path mem => ?_⟩
  · cases mem
  · cases mem

namespace Pass

/-- The same thing done in another tree. -/
def Action.rename (rename : NodeId → NodeId) : Action → Action
  | .visit child => .visit (rename child)
  | .scope kind parts => .scope kind (parts.map rename)
  | .refer => .refer
  | .label name kind shape => .label (rename name) kind shape
  | .declare name value => .declare (rename name) (value.map rename)
  | .assign name value => .assign (rename name) (value.map rename)
  | .store target value => .store (rename target) (value.map rename)
  | .take pattern value kind => .take (rename pattern) (value.map rename) kind
  | .hold value => .hold (value.map rename)

def BindAction.rename (rename : NodeId → NodeId) : BindAction → BindAction
  | .visit value => .visit (rename value)
  | .name => .name
  | .mark entry => .mark (rename entry)
  | .bind part share => .bind (rename part) share

end Pass

namespace Pairing

variable {r : Pairing} {link new : Link} {pass other after afterTwin : Pass} {nodes : List NodeId}
  {pattern : NodeId}

theorem Twin.opened (twin : r.Twin link pass other) (kept : r.Kept node) :
    r.Open ((pass.mark node).moment (other.mark (r.rename node))) node := by
  refine ⟨kept, _, Std.TreeMap.getElem?_insert_self, fun inner late found after => ?_⟩
  exact absurd ((twin.soundTwin.mark _).marks _ late found) (Nat.not_le_of_lt after)

theorem mem_below_of_rename (plain : r.Plain node) (mem : r.rename inner ∈ r.other.below (r.rename node)) :
    inner ∈ r.base.below node := by
  have inside := (mem_subtree_rename plain).1 (mem_subtree_of_below mem)
  rw [subtree_eq, mem_cons] at inside
  refine inside.resolve_left ?_
  rintro rfl
  exact Nat.lt_irrefl _ (lt_of_mem_below mem)

theorem Open.within {places : List NodeId} (opened : r.Open (pass.moment other) node)
    (within : Pass.Within r.other Region places other afterTwin)
    (inside : places ⊆ r.other.below (r.rename node)) : r.Open (after.moment afterTwin) node := by
  obtain ⟨kept, copy, marked, below⟩ := opened
  obtain ⟨trace, course, sub⟩ := within
  have reached {place : NodeId} (mem : place ∈ trace) := inside (sub.subset mem)
  refine ⟨kept, copy, ?_, fun inner late found later => ?_⟩
  · exact (course.marks_eq fun mem => Nat.lt_irrefl _ (lt_of_mem_below (reached mem))).trans marked
  · by_cases mem : r.rename inner ∈ trace
    · exact mem_below_of_rename kept.plain (reached mem)
    · exact below inner late ((course.marks_eq mem).symm.trans found) later

/-- What a pattern takes apart in both passes. -/
structure SubjectTwin (r : Pairing) (link : Link) (pass : Pass) (subject twin : Pass.Subject) :
    Prop where
  known : Known subject.shape subject.chain pass
  shape : Option.Rel link.Held subject.shape twin.shape
  chain : twin.chain = subject.chain.map (Chain.rename r.rename)
  kind : twin.kind = subject.kind
  site : twin.site = r.rename subject.site

/-- Visits of corresponding nodes lead to where the passes correspond again. -/
def VisitsTwin (r : Pairing) (visit visitTwin : Visit) : Prop :=
  ∀ ⦃node : NodeId⦄ ⦃link : Link⦄ ⦃pass other after afterTwin : Pass⦄, r.Plain node →
    r.Twin link pass other → visit node pass = .ok after →
    visitTwin (r.rename node) other = .ok afterTwin → r.Goes link after afterTwin

def BindsTwin (r : Pairing) (bind bindTwin : Bind) : Prop :=
  ∀ ⦃pattern : NodeId⦄ ⦃subject subjectTwin : Pass.Subject⦄ ⦃link : Link⦄
    ⦃pass other after afterTwin : Pass⦄, r.Plain pattern →
    r.SubjectTwin link pass subject subjectTwin → r.Twin link pass other →
    bind pattern subject pass = .ok after → bindTwin (r.rename pattern) subjectTwin other = .ok afterTwin →
    r.Goes link after afterTwin

/-- A visit of a part that the first pass passes by leaves its mark and its value. -/
def Skims (r : Pairing) (visit : Visit) : Prop :=
  ∀ ⦃part : NodeId⦄ ⦃pass after : Pass⦄, r.Extra part → visit (r.rename part) pass = .ok after →
    after = (pass.mark (r.rename part)).memoize r.other (r.rename part)

variable {visit visitTwin : Visit} {bind bindTwin : Bind} {subject subjectTwin : Pass.Subject}

theorem SubjectTwin.keep (related : r.SubjectTwin link pass subject subjectTwin) (le : link <+: new)
    (extend : Extends Region pass.epoch pass after) : r.SubjectTwin new after subject subjectTwin :=
  { related with
    known := extend.known related.known
    shape := rel_imp related.shape fun _ _ held => held.mono le }

theorem SubjectTwin.blank (related : r.SubjectTwin link pass subject subjectTwin) :
    r.SubjectTwin link pass { subject with shape := none, chain := none }
      { subjectTwin with shape := none, chain := none } :=
  { related with known := known_none pass, shape := .none, chain := rfl }

theorem Twin.part (twin : r.Twin link pass other) (related : r.SubjectTwin link pass subject subjectTwin)
    (key : Option Key) : r.SubjectTwin link pass (subject.part pass key) (subjectTwin.part other key) := by
  cases key with
  | none => exact related.blank
  | some key =>
    refine { related with
      known := known_part related.known twin.sound (some key)
      shape := rel_bind related.shape fun _ _ held => twin.mirrors.fieldAt held key
      chain := ?_ }
    show subjectTwin.chain.map (·.extend key) = (subject.chain.map (·.extend key)).map (Chain.rename r.rename)
    rw [related.chain, Option.map_map, Option.map_map]
    rfl

theorem Twin.share (twin : r.Twin link pass other) (related : r.SubjectTwin link pass subject subjectTwin)
    (share : Share) : r.SubjectTwin link pass (share.of subject pass) (share.of subjectTwin other) := by
  cases share with
  | key place => exact twin.part related place
  | element position =>
    have part := twin.part related (some (.element position))
    exact { part with known := part.known.pathless, chain := rfl }
  | whole => exact related

/-- The same steps are taken in both trees, with an invariant. -/
theorem Twin.foldlM {α : Type} {step stepTwin : Pass → α → Except FileFault Pass} {items : List α}
    (image : α → α) (Inv : Link → Pass → Pass → Prop) (twin : r.Twin link pass other)
    (holds : Inv link pass other)
    (each : ∀ item ∈ items, ∀ ⦃link : Link⦄ ⦃pass other after afterTwin : Pass⦄, Inv link pass other →
      r.Twin link pass other → step pass item = .ok after → stepTwin other (image item) = .ok afterTwin →
      r.Goes link after afterTwin ∧ ∀ new, link <+: new → Inv new after afterTwin)
    (run : items.foldlM step pass = .ok after)
    (runTwin : (items.map image).foldlM stepTwin other = .ok afterTwin) :
    ∃ new : Link, link <+: new ∧ r.Twin new after afterTwin ∧ Inv new after afterTwin := by
  induction items generalizing link pass other with
  | nil =>
    cases run
    cases runTwin
    exact ⟨link, prefix_refl _, twin, holds⟩
  | cons item rest ih =>
    rw [foldlM_cons, bind_eq_ok] at run
    rw [map_cons, foldlM_cons, bind_eq_ok] at runTwin
    obtain ⟨middle, first, run⟩ := run
    obtain ⟨middleTwin, firstTwin, runTwin⟩ := runTwin
    obtain ⟨⟨new, le, twin'⟩, keeps⟩ := each item (.head _) holds twin first firstTwin
    obtain ⟨last, leMore, result⟩ := ih twin' (keeps new le)
      (fun item mem => each item (.tail _ mem)) run runTwin
    exact ⟨last, le.trans leMore, result⟩

theorem VisitsTwin.all (twins : r.VisitsTwin visit visitTwin) (plain : ∀ child ∈ nodes, r.Plain child)
    (twin : r.Twin link pass other) (run : visitAll visit nodes pass = .ok after)
    (runTwin : visitAll visitTwin (nodes.map r.rename) other = .ok afterTwin) :
    r.Goes link after afterTwin := by
  obtain ⟨new, le, twin', _⟩ := Twin.foldlM r.rename (fun _ _ _ => True) twin trivial
    (fun child mem _ _ _ _ _ _ twin ran ranTwin =>
      ⟨twins (plain child mem) twin ran ranTwin, fun _ _ => trivial⟩) run runTwin
  exact ⟨new, le, twin'⟩

theorem SubjectTwin.mark (related : r.SubjectTwin link pass subject subjectTwin) (node : NodeId) :
    r.SubjectTwin link (pass.mark node) subject subjectTwin :=
  related.keep (prefix_refl _) (extends_mark trivial : Extends (fun _ => True) _ _ _)

theorem bindActions_rename (plain : r.Plain pattern) (other : r.base.kind pattern ≠ .objectPattern) :
    r.other.bindActions (r.rename pattern) = (r.base.bindActions pattern).map (BindAction.rename r.rename) := by
  unfold bindActions
  rcases r.kind_plain plain with same | ⟨first, second⟩
  · rw [same]
    cases kind : r.base.kind pattern
    case objectPattern => contradiction
    case array =>
      simp [codeChildren_eq (kept_of_kind plain (by rw [kind]; decide)), zipIdx_map, map_map,
        Function.comp_def, BindAction.rename]
    case assignment =>
      simp [child?_kept (kept_of_kind plain (by rw [kind]; decide)), map_map,
        Function.comp_def, BindAction.rename, Option.toList_map]
    case spread | parameter =>
      simp [codeChildren_eq (kept_of_kind plain (by rw [kind]; decide)), map_map,
        Function.comp_def, BindAction.rename]
    all_goals rfl
  · rw [first, second]
    rfl

theorem Twin.bindName (twin : r.Twin link pass other)
    (related : r.SubjectTwin link pass subject subjectTwin) (opened : r.Open (pass.moment other) pattern)
    (run : BindAction.name.run r.base visit bind pattern subject pass = .ok after) (runTwin :
      BindAction.name.run r.other visitTwin bindTwin (r.rename pattern) subjectTwin other = .ok afterTwin) :
    r.Goes link after afterTwin := by
  cases run
  cases runTwin
  rw [related.kind, related.site]
  have paths : (subjectTwin.chain.filter fun chain => !chain.segments.isEmpty && !chain.isUnnamed) =
      (subject.chain.filter fun chain => !chain.segments.isEmpty && !chain.isUnnamed).map
        (Chain.rename r.rename) := by
    rw [related.chain, Option.filter_map]
    refine congrArg (Option.map _ <| Option.filter · _) (funext fun chain => ?_)
    rw [Function.comp, chain.isUnnamed_rename]
    rfl
  refine twin.bindIdentifier ⟨related.shape, paths⟩ ⟨related.known.shape, fun path mem => ?_⟩ opened
    (.inl rfl) _ _
  obtain ⟨atPath, keyed⟩ := Option.filter_eq_some_iff.1 mem
  simp only [Bool.and_eq_true, Bool.not_eq_true', isEmpty_eq_false_iff] at keyed
  exact ⟨related.known.chain path atPath, keyed.2, keyed.1, related.known.certain path atPath⟩

section

variable (twins : r.BindsTwin bind bindTwin) (binds : Binds r.base bind)
  (related : r.SubjectTwin link pass subject subjectTwin) (twin : r.Twin link pass other)
include twins binds related twin

theorem BindsTwin.all (plain : ∀ child ∈ nodes, r.Plain child)
    (run : bindAll bind nodes subject pass = .ok after)
    (runTwin : bindAll bindTwin (nodes.map r.rename) subjectTwin other = .ok afterTwin) :
    r.Goes link after afterTwin := by
  obtain ⟨new, le, twin', _⟩ := Twin.foldlM r.rename
    (fun link pass _ => r.SubjectTwin link pass subject subjectTwin) twin related
    (fun child mem _ _ _ _ _ related twin ran ranTwin =>
      ⟨twins (plain child mem) related twin ran ranTwin, fun _ le =>
        related.keep le (binds ran twin.sound related.known).grows⟩) run runTwin
  exact ⟨new, le, twin'⟩

theorem BindsTwin.entry {entry : NodeId} (kept : r.Kept entry)
    (run : bindEntry r.base bind subject pass entry = .ok after)
    (runTwin : bindEntry r.other bindTwin subjectTwin other (r.rename entry) = .ok afterTwin) :
    r.Goes link after afterTwin := by
  unfold bindEntry at run runTwin
  rw [kind_kept kept] at runTwin
  cases kind : r.base.kind entry with
  | pair =>
    rw [kind] at run runTwin
    simp only [childKey?_eq kept, child?_kept kept .value] at run runTwin
    have twin' := twin.mark kept.plain
    cases found : r.base.child? entry .value with
    | none =>
      rw [found] at run runTwin
      cases run
      cases runTwin
      exact twin'.goes
    | some value =>
      rw [found] at run runTwin
      exact twins (plain_of_child? kept found) (twin'.part (related.mark entry) _) twin' run runTwin
  | identifier =>
    rw [kind] at run runTwin
    rw [r.text entry kept.plain] at runTwin
    exact twins kept.plain (twin.part related _) twin run runTwin
  | _ =>
    rw [kind] at run runTwin
    simp only [codeChildren_eq kept] at run runTwin
    exact twins.all binds related.blank twin (plain_codeChildren kept) run runTwin

/-- The entries of an object pattern are come to one after the other. -/
theorem BindsTwin.object (visits : Visits r.base visit) (object : r.base.kind pattern = .objectPattern)
    (plain : r.Plain pattern) (here : Here pass pattern)
    (run : (r.base.bindActions pattern).foldlM
      (BindAction.run r.base visit bind pattern subject) pass = .ok after)
    (runTwin : (r.other.bindActions (r.rename pattern)).foldlM
      (BindAction.run r.other visitTwin bindTwin (r.rename pattern) subjectTwin) other = .ok afterTwin) :
    r.Goes link after afterTwin := by
  have kept := kept_of_kind plain (by rw [object]; decide)
  rw [bindActions, object] at run
  rw [bindActions, kind_kept kept, object, codeChildren_eq kept] at runTwin
  rw [foldlM_flatMap] at run runTwin
  obtain ⟨new, le, twin', _⟩ := Twin.foldlM r.rename (fun link pass _ =>
    r.SubjectTwin link pass subject subjectTwin ∧ Here pass pattern) twin ⟨related, here⟩
    (fun entry mem _ _ _ _ _ holds twin ran ranTwin => by
      have child := mem_children_of_codeChildren mem
      have outside : pattern ∉ (r.base.entryActions entry).flatMap (BindAction.places r.base) := fun inside =>
        not_mem_subtree_child child ((r.base.subperm_entryActions entry).subset inside)
      have within := within_bindActions visits binds outside twin.sound holds.1.known holds.2 ran
      refine ⟨twins.entry binds holds.1 twin ⟨plain_of_mem kept child, fun chosen => ?_⟩
        ((bindEntry_eq entry).trans ran) ((bindEntry_eq _).trans ranTwin), fun _ le =>
        ⟨holds.1.keep le within.grows, within.here outside holds.2⟩⟩
      exact (r.anew entry chosen).apart pattern child object) run runTwin
  exact ⟨new, le, twin'⟩

end

theorem bindsTwin_bindBody (twinsVisit : r.VisitsTwin visit visitTwin) (visits : Visits r.base visit)
    (twins : r.BindsTwin bind bindTwin) (binds : Binds r.base bind) :
    r.BindsTwin (bindBody r.base visit bind) (bindBody r.other visitTwin bindTwin) := by
  intro pattern subject subjectTwin link pass other after afterTwin plain related twin run runTwin
  have twin' := twin.mark plain
  have relatedHere := related.mark pattern
  rw [bindBody_eq] at run runTwin
  by_cases object : r.base.kind pattern = .objectPattern
  · exact twins.object binds relatedHere twin' visits object plain (here_mark pass pattern) run runTwin
  rw [bindActions_rename plain object] at runTwin
  by_cases identifier : r.base.kind pattern = .identifier
  · have single : r.base.bindActions pattern = [.name] := by rw [bindActions, identifier]
    rw [single] at run runTwin
    simp only [map_cons, map_nil, foldlM_cons, foldlM_nil, bind_pure] at run runTwin
    exact twin'.bindName relatedHere (twin.opened (kept_of_kind plain (by rw [identifier]; decide))) run runTwin
  have sub := subperm_parts object
  have below := r.base.subperm_bindActions pattern
  have partPlain {action : BindAction} (mem : action ∈ r.base.bindActions pattern) (part : NodeId)
      (among : part ∈ action.parts) : r.Plain part := by
    have kept := kept_of_kind plain fun kind => by simp [bindActions, kind] at mem
    exact plain_of_mem kept (sub.subset (mem_flatMap.2 ⟨action, mem, among⟩))
  obtain ⟨new, le, twinLast, _⟩ := Twin.foldlM (BindAction.rename r.rename) (fun link pass _ =>
    r.SubjectTwin link pass subject subjectTwin ∧ Here pass pattern) twin'
    ⟨relatedHere, here_mark pass pattern⟩ (fun action mem _ _ _ _ _ holds twin ran ranTwin => by
      have within := BindAction.within visits binds twin.sound holds.1.known holds.2 ran
      have outside : pattern ∉ action.places r.base := fun inside => Nat.lt_irrefl _
        (lt_of_mem_below (below.subset (mem_flatMap.2 ⟨action, mem, inside⟩)))
      refine ⟨?_, fun _ le => ⟨holds.1.keep le within.grows, within.here outside holds.2⟩⟩
      cases action with
      | visit value => exact twinsVisit (partPlain mem value (mem_singleton_self _)) twin ran ranTwin
      | bind part share =>
        exact twins (partPlain mem part (mem_singleton_self _)) (twin.share holds.1 share) twin ran
          ranTwin
      | mark entry =>
        cases ran
        cases ranTwin
        exact (twin.mark (partPlain mem entry (mem_singleton_self _))).goes
      | name =>
        unfold bindActions at mem
        cases kind : r.base.kind pattern
        case identifier => contradiction
        case objectPattern => contradiction
        all_goals simp [kind] at mem) run runTwin
  exact ⟨new, le, twinLast⟩

end Pairing

end LeakTrace
