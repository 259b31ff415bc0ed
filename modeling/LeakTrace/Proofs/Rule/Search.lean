import LeakTrace.Rule.Set
import Mathlib.Data.List.Nodup
import Mathlib.Data.List.Perm.Subperm

namespace LeakTrace.RuleSet

open List

variable {set : RuleSet} {id next : String} {way : List String}

/-- The identifiers of the rules, in their order. -/
def ids (set : RuleSet) : List String := set.rules.map Rule.id

theorem length_ids (set : RuleSet) : set.ids.length = set.size := length_map _

section

variable {rule : Rule}

theorem mem_of_get? (found : set.get? id = some rule) : rule ∈ set.rules ∧ rule.id = id :=
  ⟨mem_of_find?_eq_some found, by simpa using find?_some found⟩

theorem mem_ids_of_get? (found : set.get? id = some rule) : id ∈ set.ids := by
  obtain ⟨mem, rfl⟩ := mem_of_get? found
  exact mem_map_of_mem mem

theorem get?_of_mem (distinct : set.ids.Nodup) (mem : rule ∈ set.rules) :
    set.get? rule.id = some rule := by
  cases found : set.get? rule.id with
  | none =>
    have absent := find?_eq_none.1 found rule mem
    simp at absent
  | some other =>
    obtain ⟨among, same⟩ := mem_of_get? found
    rw [inj_on_of_nodup_map distinct among mem same]

theorem referencesOf_of_mem (distinct : set.ids.Nodup) (mem : rule ∈ set.rules) :
    set.referencesOf rule.id = rule.references := by
  simp only [referencesOf, get?_of_mem distinct mem]

theorem way_short (distinct : way.Nodup) (inside : ∀ id ∈ way, id ∈ set.ids) :
    way.length ≤ set.size := by
  rw [← length_ids]
  exact (distinct.subperm inside).length_le

theorem danglingReference?_eq_none (none : set.danglingReference? = none) (id : String) :
    ∀ next ∈ set.referencesOf id, next ∈ set.ids := by
  intro next mem
  unfold referencesOf at mem
  split at mem
  · rename_i rule found
    have complete := findSome?_eq_none_iff.1 none rule (mem_of_get? found).1
    simp only [Option.map_eq_none_iff] at complete
    have present := find?_eq_none.1 complete next mem
    obtain ⟨other, atNext⟩ := Option.ne_none_iff_exists'.1 (by simpa using present)
    exact mem_ids_of_get? atNext
  · cases mem

end

/-- Walks over the rules that the rule leads to, last reference first, and gives the rules that
need not be walked again. `active` holds the rules on the way here: a reference to one of them
closes a cycle. No way is longer than there are rules. -/
def walk (set : RuleSet) : (fuel : Nat) → (active done : List String) → String →
    Except SetupError (List String)
  | 0, _, done, _ => .ok done
  | fuel + 1, active, done, id => do
    let active := id :: active
    let done ← (set.referencesOf id).reverse.foldlM (fun done next =>
      if active.contains next then .error (.ruleCycle next)
      else if done.contains next then .ok done
      else walk set fuel active done next) done
    return id :: done

/-- Walks over all rules, on ways of at most so many of them. -/
def walkAll (set : RuleSet) (fuel : Nat) : Except SetupError (List String) :=
  set.rules.foldlM (fun done rule =>
    if done.contains rule.id then .ok done else set.walk fuel [] done rule.id) []

/-- The check of the references with a bound on the length of ways. -/
def checkWithin (set : RuleSet) (fuel : Nat) : Except SetupError Unit :=
  match set.danglingReference? with
  | some error => .error error
  | none => set.walkAll fuel >>= fun _ => .ok ()

/-- The marks tell the rules on the way and those that were walked over. -/
def Agree (marks : List (String × Mark)) (active done : List String) : Prop :=
  ∀ id, marks.lookup id = if id ∈ active then some .active else if id ∈ done then some .done else none

section

variable {marks after : List (String × Mark)} {active done pending : List String} {fuel : Nat}
  {stack middle rest : List (String × List String)} {walked : Except SetupError (List String)}

theorem Agree.enter (agree : Agree marks active done) (id : String) :
    Agree ((id, .active) :: marks) (id :: active) done := by
  intro other
  by_cases same : other = id
  · simp [same]
  · simp [lookup_cons, beq_eq_false_iff_ne.2 same, agree other, same]

theorem Agree.leave (agree : Agree marks (id :: active) done) (fresh : id ∉ active) :
    Agree ((id, .done) :: marks) active (id :: done) := by
  intro other
  by_cases same : other = id
  · simp [same, fresh]
  · simp [lookup_cons, beq_eq_false_iff_ne.2 same, agree other, same]

theorem search_active (mark : marks.lookup next = some .active) :
    set.search marks ((id, next :: pending) :: rest) = .error (.ruleCycle next) := by
  rw [search]
  split <;> simp_all

theorem search_walked (mark : marks.lookup next = some .done) :
    set.search marks ((id, next :: pending) :: rest) = set.search marks ((id, pending) :: rest) := by
  rw [search]
  split <;> simp_all

theorem search_unseen (mark : marks.lookup next = none) :
    set.search marks ((id, next :: pending) :: rest) = set.search ((next, .active) :: marks)
      ((next, (set.referencesOf next).reverse) :: (id, pending) :: rest) := by
  rw [search]
  split <;> simp_all

/-- The search from the stack fails as the walk does, or comes down to the rest of the stack with marks
for what the walk gives. -/
def Follows (set : RuleSet) (active : List String) (marks : List (String × Mark))
    (stack rest : List (String × List String)) : (walked : Except SetupError (List String)) → Prop
  | .error error => set.search marks stack = .error error
  | .ok done => ∃ after, Agree after active done ∧ set.search marks stack = set.search after rest

theorem Follows.congr (same : set.search marks stack = set.search after middle)
    (follows : set.Follows active after middle rest walked) : set.Follows active marks stack rest walked := by
  cases walked with
  | error => exact same.trans follows
  | ok done =>
    obtain ⟨final, agree, later⟩ := follows
    exact ⟨final, agree, same.trans later⟩

theorem Follows.bind {onward : List String → Except SetupError (List String)}
    (follows : set.Follows way marks stack middle walked)
    (goes : ∀ after done, Agree after way done → set.Follows active after middle rest (onward done)) :
    set.Follows active marks stack rest (walked >>= onward) := by
  cases walked with
  | error => exact follows
  | ok done =>
    obtain ⟨after, agree, same⟩ := follows
    exact (goes after done agree).congr same

theorem search_pending {step : List String → String → Except SetupError (List String)}
    (enter : ∀ next ∈ pending, next ∉ active → ∀ marks done rest, Agree marks active done →
      set.Follows active ((next, .active) :: marks) ((next, (set.referencesOf next).reverse) :: rest) rest
        (step done next))
    (agree : Agree marks active done) :
    set.Follows active marks ((id, pending) :: rest) ((id, []) :: rest) (pending.foldlM (fun done next =>
      if active.contains next then .error (.ruleCycle next)
      else if done.contains next then .ok done else step done next) done) := by
  induction pending generalizing marks done with
  | nil => exact ⟨marks, agree, rfl⟩
  | cons next pending ih =>
    have later {marks done} := @ih marks done fun other mem => enter other (.tail _ mem)
    have mark := agree next
    rw [foldlM_cons]
    by_cases onWay : next ∈ active
    · rw [if_pos onWay] at mark
      rw [if_pos (contains_iff_mem.2 onWay)]
      exact search_active mark
    rw [if_neg onWay] at mark
    rw [if_neg (mt contains_iff_mem.1 onWay)]
    by_cases walked : next ∈ done
    · rw [if_pos walked] at mark
      rw [if_pos (contains_iff_mem.2 walked)]
      exact (later agree).congr (search_walked mark)
    · rw [if_neg walked] at mark
      rw [if_neg (mt contains_iff_mem.1 walked)]
      have entered := enter next mem_cons_self onWay marks done ((id, pending) :: rest) agree
      exact (entered.bind fun _ _ => later).congr (search_unseen mark)

/-- The search does what the walk does. The walk does not run out of fuel: the rules on the way differ,
and no way is longer than there are rules. -/
theorem search_walk (closed : ∀ id, ∀ next ∈ set.referencesOf id, next ∈ set.ids)
    (distinct : (id :: active).Nodup) (inside : ∀ other ∈ id :: active, other ∈ set.ids)
    (enough : set.size ≤ fuel + active.length) (agree : Agree marks (id :: active) done) :
    set.Follows active marks ((id, (set.referencesOf id).reverse) :: rest) rest
      (set.walk fuel active done id) := by
  induction fuel generalizing active done marks id rest with
  | zero =>
    -- A way without fuel left would have more rules on it than there are.
    have short := way_short distinct inside
    simp only [length_cons] at short
    omega
  | succ fuel ih =>
    refine Follows.bind (search_pending (fun next mem fresh marks done rest agree => ?_) agree)
      fun after done agree => ?_
    · have known := closed id next (mem_reverse.1 mem)
      refine ih (nodup_cons.2 ⟨fresh, distinct⟩) (forall_mem_cons.2 ⟨known, inside⟩) ?_ (agree.enter next)
      simp only [length_cons]
      omega
    · refine ⟨(id, .done) :: after, agree.leave (nodup_cons.1 distinct).1, ?_⟩
      rw [search]

theorem checkWithin_of_dangling {error : SetupError} (found : set.danglingReference? = some error)
    (fuel : Nat) : set.checkWithin fuel = .error error := by
  unfold checkWithin
  rw [found]

theorem checkWithin_of_none (none : set.danglingReference? = none) (fuel : Nat) :
    set.checkWithin fuel = set.walkAll fuel >>= fun _ => .ok () := by
  unfold checkWithin
  rw [none]

theorem search_roots (closed : ∀ id, ∀ next ∈ set.referencesOf id, next ∈ set.ids)
    (distinct : set.ids.Nodup) (enough : set.size ≤ fuel) {rules : List Rule}
    (among : ∀ rule ∈ rules, rule ∈ set.rules) (agree : Agree marks [] done) :
    (rules.foldlM (fun done rule =>
        if done.contains rule.id then .ok done else set.walk fuel [] done rule.id) done >>= fun _ => .ok ()) =
      (rules.foldlM (fun marks rule => if (marks.lookup rule.id).isSome then .ok marks
        else set.search ((rule.id, .active) :: marks) [(rule.id, rule.references.reverse)]) marks >>=
          fun _ => .ok ()) := by
  induction rules generalizing marks done with
  | nil => rfl
  | cons rule rest ih =>
    have later {marks done} := @ih marks done fun other mem => among other (.tail _ mem)
    have here := among rule mem_cons_self
    have mark : (marks.lookup rule.id).isSome = done.contains rule.id := by
      rw [agree rule.id, if_neg not_mem_nil]
      by_cases walked : rule.id ∈ done <;> simp [walked]
    rw [foldlM_cons, foldlM_cons, mark, bind_assoc, bind_assoc]
    split
    · exact later agree
    have follows : set.Follows [] _ [(rule.id, _)] [] (set.walk fuel [] done rule.id) :=
      search_walk closed (nodup_singleton rule.id) (forall_mem_singleton.2 (mem_map_of_mem here)) enough
        (agree.enter rule.id)
    rw [referencesOf_of_mem distinct here] at follows
    cases run : set.walk fuel [] done rule.id with
    | error =>
      rw [run] at follows
      rw [follows]
      rfl
    | ok walked =>
      rw [run] at follows
      obtain ⟨after, agreeAfter, same⟩ := follows
      rw [same, search]
      exact later agreeAfter

/-- The check of the references is the walk over all rules, however long ways may be. -/
theorem checkWithin_eq (distinct : set.ids.Nodup) (enough : set.size ≤ fuel) :
    set.checkWithin fuel = set.checkReferences := by
  unfold checkWithin checkReferences
  cases found : set.danglingReference? with
  | some error => rfl
  | none =>
    exact search_roots (danglingReference?_eq_none found) distinct enough (fun _ mem => mem) fun _ => rfl

end

/-- Whether the second rule is found from the first in so many references. -/
def Leads (set : RuleSet) : Nat → String → String → Prop
  | 0, first, last => first = last
  | steps + 1, first, last => ∃ next ∈ set.referencesOf first, set.Leads steps next last

section

variable {steps : Nat} {first last : String} {needed queue references : List String}

theorem Leads.extend (leads : set.Leads steps first last) (mem : next ∈ set.referencesOf last) :
    set.Leads (steps + 1) first next := by
  induction steps generalizing first with
  | zero =>
    cases leads
    exact ⟨next, mem, rfl⟩
  | succ steps ih =>
    obtain ⟨second, among, rest⟩ := leads
    exact ⟨second, among, ih rest⟩

theorem mem_demand :
    (id ∈ (demand needed queue references).1 ↔ id ∈ needed ∨ id ∈ references) ∧
      (id ∈ (demand needed queue references).2 ↔ id ∈ queue ∨ id ∈ references ∧ id ∉ needed) := by
  induction references generalizing needed queue with
  | nil => simp [demand]
  | cons reference rest ih =>
    unfold demand
    split <;> grind

/-- The worklist finds what the needed rules lead to. A needed rule is in the queue, or all that it refers
to is needed already. -/
theorem mem_gather_of (queued : ∀ id ∈ queue, id ∈ needed)
    (followed : ∀ id ∈ needed, id ∈ queue ∨ ∀ next ∈ set.referencesOf id, next ∈ needed) :
    id ∈ set.gather needed queue ↔ ∃ first ∈ needed, ∃ steps, set.Leads steps first id := by
  fun_induction gather set needed queue with
  | case1 needed =>
    refine ⟨fun mem => ⟨id, mem, 0, rfl⟩, ?_⟩
    rintro ⟨first, mem, steps, leads⟩
    induction steps generalizing first with
    | zero => exact leads ▸ mem
    | succ steps ih =>
      obtain ⟨next, reference, rest⟩ := leads
      exact ih next ((followed first mem).resolve_left not_mem_nil next reference) rest
  | case2 needed current rest more ih =>
    have here := queued current mem_cons_self
    rw [ih]
    · constructor
      · rintro ⟨first, mem, steps, leads⟩
        rcases mem_demand.1.1 mem with old | reference
        · exact ⟨first, old, steps, leads⟩
        · exact ⟨current, here, steps + 1, first, reference, leads⟩
      · rintro ⟨first, mem, leads⟩
        exact ⟨first, mem_demand.1.2 (.inl mem), leads⟩
    · intro id mem
      exact mem_demand.1.2 ((mem_demand.2.1 mem).imp (fun old => queued id (.tail _ old)) And.left)
    · intro id mem
      by_cases old : id ∈ needed
      · rcases followed id old with waiting | all
        · rcases mem_cons.1 waiting with rfl | later
          · exact .inr fun next reference => mem_demand.1.2 (.inr reference)
          · exact .inl (mem_demand.2.2 (.inl later))
        · exact .inr fun next reference => mem_demand.1.2 (.inl (all next reference))
      · exact .inl (mem_demand.2.2 (.inr ⟨(mem_demand.1.1 mem).resolve_left old, old⟩))

theorem mem_gather {start : List String} :
    id ∈ set.gather start start ↔ ∃ first ∈ start, ∃ steps, set.Leads steps first id :=
  mem_gather_of (fun _ mem => mem) fun _ mem => .inl mem

end

end LeakTrace.RuleSet
