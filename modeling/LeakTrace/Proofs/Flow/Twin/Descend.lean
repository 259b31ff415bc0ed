import LeakTrace.Proofs.Flow.Twin.Visit

namespace LeakTrace

open List LeakTrace.Tree Pass

namespace Pairing

variable {r : Pairing} {link : Link} {pass other after afterTwin : Pass} {node : NodeId}
  {visit visitTwin : Visit} {bind bindTwin : Bind} {value : Option NodeId} {copy : Mark}

theorem Twin.inScope (twin : r.Twin link pass other) {kind : ScopeKind} {site : NodeId}
    {body bodyTwin : Pass → Except FileFault Pass}
    (run : pass.inScope kind site body = .ok after)
    (runTwin : other.inScope kind (r.rename site) bodyTwin = .ok afterTwin)
    (inner : ∀ {last lastTwin : Pass}, body (pass.enter kind site) = .ok last →
      bodyTwin (other.enter kind (r.rename site)) = .ok lastTwin →
      r.Twin link (pass.enter kind site) (other.enter kind (r.rename site)) →
      r.Goes link last lastTwin) : r.Goes link after afterTwin := by
  obtain ⟨last, ran, finish⟩ := bind_eq_ok.1 run
  obtain ⟨lastTwin, ranTwin, finishTwin⟩ := bind_eq_ok.1 runTwin
  cases finish
  cases finishTwin
  obtain ⟨new, le, twin'⟩ := inner ran ranTwin (twin.enter kind site)
  rw [twin.current]
  exact ⟨new, le, twin'.leave pass.current⟩

theorem Twin.subject (twin : r.Twin link pass other) {shape image : Option ShapeId}
    (held : Option.Rel link.Held shape image) (plain : ∀ node ∈ value, r.Plain node) (kind : BindingKind)
    (site : NodeId) :
    r.SubjectTwin link pass { shape, chain := value.bind (pass.patternChain? r.base), kind, site }
      { shape := image, chain := (value.map r.rename).bind (other.patternChain? r.other), kind,
        site := r.rename site } := by
  refine ⟨twin.sound.known_pattern (fun id mem => ?_) value, held, ?_, rfl, rfl⟩
  · rw [show shape = some id from mem] at held
    obtain ⟨copy, _, birth, born⟩ := exists_of_rel held
    exact twin.lt_size born
  · rw [Option.bind_map, Option.map_bind]
    exact Option.bind_congr fun node found => twin.patternChain?_eq (plain node found)

theorem VisitsTwin.assign (twins : r.VisitsTwin visit visitTwin) (visitsTwin : Visits r.other visitTwin)
    {left : NodeId} (twin : r.Twin link pass other) (found : r.base.child? node .left = some left)
    (plainLeft : r.Plain left) (plain : ∀ node ∈ value, r.Plain node) {reached reachedTwin : Pass}
    (ran : visit left pass = .ok reached) (ranTwin : visitTwin (r.rename left) other = .ok reachedTwin) :
    r.Goes link
      ((reached.valueShape r.base .expression value).2.writeThrough r.base left
        (reached.valueShape r.base .expression value).1 node)
      ((reachedTwin.valueShape r.other .expression (value.map r.rename)).2.writeThrough r.other
        (r.rename left) (reachedTwin.valueShape r.other .expression (value.map r.rename)).1
        (r.rename node)) := by
  refine (twins plainLeft twin ran ranTwin).trans fun _ _ twinReached => ?_
  have moved : other.epoch < reachedTwin.epoch := (visitsTwin ranTwin twin.soundTwin).epoch_le
  have stored : r.Stored (reached.moment reachedTwin) node reachedTwin.epoch :=
    ⟨left, found, plainLeft, fun inner mark marked now => (mem_subtree_rename plainLeft).1
      ((visitsTwin.within ranTwin twin.soundTwin).late twin.soundTwin marked (now ▸ moved))⟩
  obtain ⟨valued, le, twinValued, held⟩ := twinReached.valueShape .expression plain
  obtain ⟨last, leLast, twinLast⟩ :=
    twinValued.writeThrough found plainLeft held (stored.still (reachedTwin.layout_valueShape ..))
  exact ⟨last, le.trans leLast, twinLast⟩

theorem operands_rename (kept : r.Kept node) :
    r.other.operands (r.rename node) = (r.base.operands node).map r.rename := by
  unfold operands
  rw [kind_kept kept]
  cases kind : r.base.kind node
  case function | classDecl => exact filter_children kept fun child plain => by rw [r.role child plain]
  case pair => exact dynamic_children kept
  case declaration | parameter =>
    simp [source?, kind_kept kept, kind, child?_kept kept, Option.toList_map]
  case assignment =>
    simp only [source?, target?, kind_kept kept, kind, child?_kept kept, map_append,
      Option.toList_map]
    cases found : r.base.child? node .left with
    | none => rfl
    | some left =>
      rcases r.kind_plain (plain_of_child? kept found) with same | ⟨first, second⟩
      · cases same' : r.base.kind left <;> simp [Option.filter_some, same, same']
      · simp [Option.filter_some, first, second]
  case member => simp [child?_kept kept, Option.toList_map]
  case identifier | error | comment => rfl
  all_goals exact r.children node kept.plain

theorem actions_rename (blocks : Bool) (kept : r.Kept node) :
    r.other.actions blocks (r.rename node) =
      (r.base.actions blocks node).map (Action.rename r.rename) := by
  have visits (nodes : List NodeId) : (nodes.map r.rename).map Action.visit =
      (nodes.map Action.visit).map (Action.rename r.rename) := by
    simp [Action.rename]
  unfold actions
  rw [kind_kept kept, operands_rename kept]
  simp only [child?_kept kept, r.isMethod node kept.plain, r.isBody node kept.plain]
  cases kind : r.base.kind node
  case function =>
    cases r.base.child? node .name <;> cases Pass.isMethod r.base node <;>
      simp [Action.rename, Option.filter_some]
  case classDecl => cases r.base.child? node .name <;> simp [Action.rename, visits]
  case block => dsimp only; split <;> simp [Action.rename]
  case declaration =>
    cases found : r.base.child? node .name with
    | none => cases r.base.child? node .value <;> rfl
    | some name =>
      have identifier : r.other.kind (r.rename name) = .identifier ↔ r.base.kind name = .identifier := by
        exact kind_cases (plain_of_child? kept found) (fun _ => .rfl) (by decide)
      by_cases named : r.base.kind name = .identifier <;>
        cases r.base.child? node .value <;> simp [identifier, named, Action.rename]
  case assignment =>
    dsimp only
    rw [map_append, Option.toList_map, visits]
    cases found : r.base.child? node .left with
    | none => rfl
    | some left =>
      have value : r.other.assignedValue? (r.rename node) = (r.base.assignedValue? node).map r.rename := by
        rw [assignedValue?, assignedValue?, child?_kept kept, r.text node kept.plain, Option.filter_map]
        rfl
      have right := child?_kept kept .right
      simp only [Option.map_some, Option.toList_some, map_cons, map_nil, leftAction]
      rcases r.kind_plain (plain_of_child? kept found) with same | ⟨first, second⟩
      · cases kind : r.base.kind left <;> simp [same, kind, value, right, Action.rename]
      · simp [first, second, value, Action.rename]
  case parameter =>
    cases r.base.child? node .name <;> cases r.base.child? node .value <;> rfl
  case identifier => rfl
  all_goals exact visits _

theorem Twin.takenShape (twin : r.Twin link pass other) (kind : BindingKind)
    (plain : ∀ node ∈ value, r.Plain node) :
    r.Gives link (fun link => Option.Rel link.Held) (pass.takenShape r.base kind value)
      (other.takenShape r.other kind (value.map r.rename)) := by
  unfold Pass.takenShape
  split
  · exact (twin.valueShape .parameter plain).map some fun _ held => .some held
  · exact twin.subjectShape plain

theorem Twin.named (twin : r.Twin link pass other) {name owner : NodeId}
    (plain : ∀ node ∈ value, r.Plain node) (opened : r.Open (pass.moment other) owner)
    (place : owner = name ∨ name ∈ r.base.children owner) (kind : BindingKind) (site : NodeId) :
    r.Goes link (pass.named r.base name value kind site)
      (other.named r.other (r.rename name) (value.map r.rename) kind (r.rename site)) := by
  have bound := twin.sound.boundValue r.base (fun _ => False) value
  obtain ⟨valued, le, twinValued, related⟩ := twin.boundValue plain
  obtain ⟨last, leLast, twinLast⟩ := twinValued.bindIdentifier related bound.2
    (opened.still (other.layout_boundValue ..)) place kind site
  exact ⟨last, le.trans leLast, twinLast⟩

theorem Action.goes {action : Action} (twinsVisit : r.VisitsTwin visit visitTwin)
    (visitsTwin : Visits r.other visitTwin) (twins : r.BindsTwin bind bindTwin)
    (does : r.base.Does node action) (parts : ∀ part ∈ action.parts, r.Plain part)
    (opened : r.Open (pass.moment other) node) (twin : r.Twin link pass other)
    (run : action.run r.base visit bind node pass = .ok after)
    (runTwin : (action.rename r.rename).run r.other visitTwin bindTwin (r.rename node) other = .ok afterTwin) :
    r.Goes link after afterTwin := by
  have plain {role : Role} : ∀ child ∈ r.base.child? node role, r.Plain child :=
    fun _ found => plain_of_child? opened.kept found
  have plainAssigned : ∀ value ∈ r.base.assignedValue? node, r.Plain value :=
    fun value mem => plain value (Option.filter_eq_some_iff.1 mem).1
  cases does with
  | visit _ => exact twinsVisit (parts _ (mem_singleton_self _)) twin run runTwin
  | scope =>
    exact twin.inScope run runTwin fun ran ranTwin entered => twinsVisit.all parts entered ran ranTwin
  | refer _ =>
    cases run
    cases runTwin
    exact (twin.refer opened).goes
  | @label name kind _ found bare =>
    cases run
    cases runTwin
    exact twin.declareName (plain name found) node kind bare
  | @declare name _ found _ =>
    cases run
    cases runTwin
    exact twin.named plain opened (.inr (mem_children_of_child? found)) _ _
  | @assign name _ found kind =>
    cases run
    cases runTwin
    have twin' := twin.mark (plain name found)
    have kept := kept_of_kind (plain name found) (by rw [kind]; decide)
    exact twin'.named plainAssigned (twin.opened kept) (.inl rfl) _ _
  | @store target _ found _ =>
    obtain ⟨reached, ran, finish⟩ := bind_eq_ok.1 run
    obtain ⟨reachedTwin, ranTwin, finishTwin⟩ := bind_eq_ok.1 runTwin
    cases finish
    cases finishTwin
    exact twinsVisit.assign visitsTwin twin found (plain target found) plainAssigned ran ranTwin
  | @take pattern kind _ =>
    have plain : ∀ value ∈ r.base.source? node, r.Plain value :=
      fun value source => plain_of_mem opened.kept (mem_children_of_source? source)
    obtain ⟨valued, le, twinValued, held⟩ := twin.takenShape kind plain
    obtain ⟨last, leLast, twinLast⟩ := twins (parts pattern (mem_singleton_self pattern))
      (twinValued.subject held plain kind node) twinValued run runTwin
    exact ⟨last, le.trans leLast, twinLast⟩
  | hold _ =>
    cases run
    cases runTwin
    obtain ⟨valued, le, twinValued, _⟩ := twin.valueShape .parameter plain
    exact ⟨valued, le, twinValued⟩

/-- Both passes come to the parts of a node, and have not left it then. -/
theorem goes_visitParts (twinsVisit : r.VisitsTwin visit visitTwin) (visitsTwin : Visits r.other visitTwin)
    (twins : r.BindsTwin bind bindTwin) (bindsTwin : Binds r.other bindTwin) (blocks : Bool)
    (opened : r.Open (pass.moment other) node) (here : Here other (r.rename node))
    (twin : r.Twin link pass other) (run : visitParts r.base blocks visit bind node pass = .ok after)
    (runTwin : visitParts r.other blocks visitTwin bindTwin (r.rename node) other = .ok afterTwin) :
    ∃ new : Link, link <+: new ∧ r.Twin new after afterTwin ∧ r.Open (after.moment afterTwin) node := by
  have renamed := actions_rename blocks opened.kept
  have below := r.other.subperm_below blocks (r.rename node)
  rw [visitParts_eq] at run runTwin
  rw [renamed] at runTwin below
  obtain ⟨new, le, twin', opened, _⟩ := Twin.foldlM (Action.rename r.rename) (fun _ pass other =>
    r.Open (pass.moment other) node ∧ Here other (r.rename node)) twin ⟨opened, here⟩
    (fun action mem _ _ _ _ _ holds twin ran ranTwin => by
      have memberTwin := mem_map_of_mem (f := Action.rename r.rename) mem
      have inside : (action.rename r.rename).places r.other ⊆ r.other.below (r.rename node) :=
        fun place among => below.subset (mem_flatMap.2 ⟨_, memberTwin, among⟩)
      rw [← renamed] at memberTwin
      have within := Action.within visitsTwin bindsTwin (does_of_mem memberTwin) twin.soundTwin
        holds.2 ranTwin
      have plain (part : NodeId) (among : part ∈ action.parts) : r.Plain part := plain_of_mem opened.kept
        ((r.base.subperm_actions blocks node).subset (mem_flatMap.2 ⟨action, mem, among⟩))
      refine ⟨Action.goes twinsVisit visitsTwin twins (does_of_mem mem) plain holds.1 twin ran ranTwin,
        fun _ _ => ⟨holds.1.within within inside, within.here (fun among => ?_) holds.2⟩⟩
      exact Nat.lt_irrefl _ (lt_of_mem_below (inside among))) run runTwin
  exact ⟨new, le, twin', opened⟩

theorem Skims.all (skims : r.Skims visitTwin) (chosen : r.Chosen node) {rest : List NodeId}
    (parts : ∀ part ∈ rest, part ∈ r.base.children node ∧ r.base.role part ≠ some .object)
    (twin : r.Twin link pass other) (marked : other.marks[r.rename node]? = some copy)
    (left : copy.epoch < other.epoch)
    (runTwin : visitAll visitTwin (rest.map r.rename) other = .ok afterTwin) :
    r.Twin link pass afterTwin := by
  induction rest generalizing other with
  | nil =>
    cases runTwin
    exact twin
  | cons part rest ih =>
    rw [visitAll, map_cons, foldlM_cons, bind_eq_ok] at runTwin
    obtain ⟨middleTwin, ran, runTwin⟩ := runTwin
    obtain ⟨mem, beside⟩ := parts part (.head _)
    cases skims ⟨node, chosen, mem, beside⟩ ran
    have place := (other.mark (r.rename part)).layout_memoize r.other (r.rename part)
    have apart : r.rename part ≠ r.rename node := fun same =>
      Nat.ne_of_lt (lt_of_mem_children mem) (r.injective same)
    refine ih (fun next among => parts next (.tail _ among))
      (twin.lag chosen mem beside marked left) ?_ ?_ runTwin
    · rw [show marks _ = _ from congrArg Layout.marks place]
      exact (getElem?_insert_of_ne apart).trans marked
    · rw [show epoch _ = _ from congrArg Layout.epoch place]
      exact Nat.lt_succ_of_lt left

/-- At an access that is spelt in another way the first pass goes on to the object, and the second one to
the extra parts as well. -/
theorem goes_chosen (twinsVisit : r.VisitsTwin visit visitTwin)
    (visitsTwin : Visits r.other visitTwin)
    (skims : r.Skims visitTwin) (blocks : Bool) (chosen : r.Chosen node)
    (marked : other.marks[r.rename node]? = some copy) (twin : r.Twin link pass other)
    (run : visitParts r.base blocks visit bind node pass = .ok after)
    (runTwin : visitParts r.other blocks visitTwin bindTwin (r.rename node) other =
      .ok afterTwin) : r.Goes link after afterTwin := by
  obtain ⟨object, rest, children, found, _, plainObject, beside⟩ := (r.anew node chosen).parts
  have mem := mem_children_of_child? found
  have parts : ∀ part ∈ rest, part ∈ r.base.children node ∧ r.base.role part ≠ some .object := by
    intro part mem
    rw [children]
    exact ⟨mem_cons_of_mem _ mem, beside part mem⟩
  unfold visitParts at run runTwin
  rw [(r.anew node chosen).kind] at run
  rw [(r.anew node chosen).kindOther] at runTwin
  simp only [r.children node (r.anew node chosen).plain, children, found] at run runTwin
  obtain ⟨middle, ran, run⟩ := bind_eq_ok.1 run
  cases run
  rw [visitAll, map_cons, foldlM_cons, bind_eq_ok] at runTwin
  obtain ⟨middleTwin, ranTwin, runTwin⟩ := runTwin
  obtain ⟨new, le, twin'⟩ := twinsVisit plainObject twin ran ranTwin
  have moved : other.epoch < middleTwin.epoch := (visitsTwin ranTwin twin.soundTwin).epoch_le
  have past := twin.soundTwin.marks _ copy marked
  have kept : middleTwin.marks[r.rename node]? = some copy := by
    obtain ⟨trace, course, sub⟩ := visitsTwin.within ranTwin twin.soundTwin
    refine (course.marks_eq fun among => ?_).trans marked
    exact not_mem_subtree_child mem ((mem_subtree_rename plainObject).1 (sub.subset among))
  exact ⟨new, le, skims.all chosen parts twin' kept (Nat.lt_of_le_of_lt past moved) runTwin⟩

theorem visitsTwin_visitBody (twinsVisit : r.VisitsTwin visit visitTwin)
    (visitsTwin : Visits r.other visitTwin) (skims : r.Skims visitTwin)
    (twins : r.BindsTwin bind bindTwin) (bindsTwin : Binds r.other bindTwin) (blocks : Bool) :
    r.VisitsTwin (visitBody r.base blocks visit bind)
      (visitBody r.other blocks visitTwin bindTwin) := by
  intro node link pass other after afterTwin plain twin run runTwin
  obtain ⟨middle, parts, finish⟩ := bind_eq_ok.1 run
  obtain ⟨middleTwin, partsTwin, finishTwin⟩ := bind_eq_ok.1 runTwin
  cases finish
  cases finishTwin
  have twinHere := twin.mark plain
  by_cases chosen : r.Chosen node
  · -- An access has no value of its own.
    have unchanged : middle.memoize r.base node = middle ∧
        middleTwin.memoize r.other (r.rename node) = middleTwin := by
      unfold memoize fixedShape
      rw [(r.anew node chosen).kind, (r.anew node chosen).kindOther]
      exact ⟨rfl, rfl⟩
    rw [unchanged.1, unchanged.2]
    exact goes_chosen twinsVisit visitsTwin skims blocks chosen Std.TreeMap.getElem?_insert_self twinHere
      parts partsTwin
  · obtain ⟨new, le, twinMiddle, opened⟩ := goes_visitParts twinsVisit visitsTwin twins bindsTwin blocks
      (twin.opened ⟨plain, chosen⟩) (here_mark other _) twinHere parts partsTwin
    obtain ⟨last, leLast, twinLast⟩ := twinMiddle.memoize opened
    exact ⟨last, le.trans leLast, twinLast⟩

theorem skims_visit (blocks : Bool) (limit room : Nat) :
    r.Skims (Pass.visit r.other blocks limit room) := by
  intro part pass after extra run
  cases room with
  | zero => cases run
  | succ room =>
    obtain ⟨middle, parts, finish⟩ := bind_eq_ok.1 run
    cases finish
    obtain ⟨_, childless, kinds⟩ := extra.alone
    unfold visitParts at parts
    rcases kinds with kind | kind | kind
    · rw [kind] at parts
      simp only [childless] at parts
      cases parts
      rfl
    · rw [kind] at parts
      cases parts
      rfl
    · rw [kind] at parts
      simp only [childless] at parts
      cases parts
      rfl

/-- The two passes stay in step, whatever the limits that they keep to. -/
theorem visitsTwin_visit (blocks : Bool) (limit limitTwin room roomTwin : Nat) :
    r.VisitsTwin (Pass.visit r.base blocks limit room)
        (Pass.visit r.other blocks limitTwin roomTwin) ∧
      r.BindsTwin (Pass.bind r.base blocks limit room)
        (Pass.bind r.other blocks limitTwin roomTwin) := by
  induction room generalizing roomTwin with
  | zero => exact ⟨fun _ _ _ _ _ _ _ _ run => (nomatch run), fun _ _ _ _ _ _ _ _ _ _ _ run => (nomatch run)⟩
  | succ room ih =>
    cases roomTwin with
    | zero =>
      exact ⟨fun _ _ _ _ _ _ _ _ _ run => (nomatch run),
        fun _ _ _ _ _ _ _ _ _ _ _ _ run => (nomatch run)⟩
    | succ roomTwin =>
      have ⟨visits, binds⟩ := visits_and_binds r.base blocks limit room
      have ⟨visitsTwin, bindsTwin⟩ := visits_and_binds r.other blocks limitTwin roomTwin
      obtain ⟨twins, bound⟩ := ih roomTwin
      have body := bindsTwin_bindBody twins visits bound binds
      exact ⟨visitsTwin_visitBody twins visitsTwin (skims_visit ..) body
        (binds_bindBody visitsTwin bindsTwin) blocks, body⟩

/-- Where both passes start. They may have come to nodes that are in one of the trees alone. -/
theorem twin_start {marks copies : Std.TreeMap NodeId Mark} {epoch : Nat}
    (sound : Sound { start with marks, epoch })
    (soundTwin : Sound { start with marks := copies, epoch })
    (unmarked : ∀ node, r.Plain node → marks[node]? = none)
    (uncopied : ∀ node, r.Plain node ∨ r.Extra node → copies[r.rename node]? = none) :
    r.Twin [] { start with marks, epoch } { start with marks := copies, epoch } := by
  have nowhere {α : Type} {place : NodeId} {value : α}
      (found : (∅ : Std.TreeMap NodeId α)[place]? = some value) : False := by
    cases found
  exact {
    sound
    soundTwin
    current := rfl
    store :=
      { size := rfl
        handles := fun _ _ _ born => nomatch born
        injective := fun _ _ _ _ _ born => nomatch born
        exact := fun _ => ⟨rfl, fun _ _ _ born => nomatch born⟩
        related := fun _ _ _ _ _ born => nomatch born }
    scopes :=
      { opened := fun id => by
          rw [start, Scopes.ofProgram, Array.getElem?_singleton]
          split <;> rfl
        bindings := fun _ => .none
        references := fun _ _ => rfl }
    marks := fun node plain => by
      rw [unmarked node plain, uncopied node (.inl plain)]
      exact .none
    fixed := fun _ _ => by
      exact .none
    level := fun node _ _ both => nomatch (unmarked node both.plain).symm.trans both.marked
    exact := fun _ => rfl
    follows := fun access part _ chosen mem beside found =>
      nomatch (uncopied part (.inr ⟨access, chosen, mem, beside⟩)).symm.trans found
    fixedAt := fun _ _ _ _ found => (nowhere found).elim
    boundAt := fun _ _ _ _ _ _ found => (nowhere found).elim }

end Pairing

end LeakTrace
