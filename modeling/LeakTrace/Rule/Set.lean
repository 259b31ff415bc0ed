import LeakTrace.Rule.Basic

namespace LeakTrace

structure RuleSet where
  rules : List Rule
  deriving Inhabited

namespace RuleSet

section

variable (set : RuleSet)

def size : Nat := set.rules.length

def get? (id : String) : Option Rule := set.rules.find? fun rule => rule.id == id

def referencesOf (id : String) : List String :=
  match set.get? id with
  | some rule => rule.references
  | none => []

def reported : List Rule := set.rules.filter fun rule => !rule.auxiliary

def forLanguage (language : Language) : List Rule :=
  set.rules.filter fun rule => rule.appliesTo language

/-- Checks every draft in turn; an identifier may be used once. -/
def compileAll [RegexEngine] (seen : List String) : List RuleDraft → Except SetupError (List Rule)
  | [] => .ok []
  | draft :: rest => do
    if seen.contains draft.id then throw (.duplicateRule draft.id)
    let rule ← Rule.ofDraft draft
    return rule :: (← compileAll (draft.id :: seen) rest)

def danglingReference? : Option SetupError :=
  set.rules.findSome? fun rule =>
    (rule.references.find? fun reference => (set.get? reference).isNone).map fun reference =>
      .unknownReference rule.id reference

/-- How far the search for cycles is with a rule: it follows its references, or is through with them. -/
inductive Mark
  | active
  | done
  deriving DecidableEq, Inhabited

/-- What the search has to do for the rules that it has not come to. -/
def load (marks : List (String × Mark)) : List Rule → Nat
  | [] => 0
  | rule :: rest =>
    (if (marks.lookup rule.id).isNone then 2 + 2 * rule.references.length else 0) + load marks rest

theorem load_cons_le (id : String) (mark : Mark) (marks : List (String × Mark)) (rules : List Rule) :
    load ((id, mark) :: marks) rules ≤ load marks rules := by
  induction rules with
  | nil => exact Nat.le_refl _
  | cons rule rest ih =>
    refine Nat.add_le_add ?_ ih
    rw [List.lookup_cons]
    split
    · exact Nat.zero_le _
    · exact Nat.le_refl _

theorem load_cons_lt {id : String} {marks : List (String × Mark)} {rules : List Rule} {rule : Rule}
    (unseen : marks.lookup id = none) (found : rules.find? (·.id == id) = some rule) (mark : Mark) :
    load ((id, mark) :: marks) rules + 2 + 2 * rule.references.length ≤ load marks rules := by
  induction rules with
  | nil => cases found
  | cons first rest ih =>
    cases same : first.id == id with
    | true =>
      have least := load_cons_le id mark marks rest
      obtain rfl : first = rule := by simpa [same] using found
      simp only [load, eq_of_beq same, List.lookup_cons_self, unseen, Option.isNone_some, Option.isNone_none,
        if_true, Bool.false_eq_true, if_false]
      omega
    | false =>
      have less := ih (by simpa [same] using found)
      simp only [load, List.lookup_cons, same]
      omega

/-- What the search has to do for the rules on the stack. -/
def pendingLoad : List (String × List String) → Nat
  | [] => 0
  | (_, pending) :: rest => 1 + 2 * pending.length + pendingLoad rest

/-- Looks for cycles from the rules on the stack, each with the references that are still to be
followed. A reference to a rule on the stack closes a cycle. -/
def search (marks : List (String × Mark)) (stack : List (String × List String)) :
    Except SetupError (List (String × Mark)) :=
  match stack with
  | [] => .ok marks
  | (id, []) :: rest => search ((id, .done) :: marks) rest
  | (id, next :: pending) :: rest =>
    match _seen : marks.lookup next with
    | some .active => .error (.ruleCycle next)
    | some .done => search marks ((id, pending) :: rest)
    | none => search ((next, .active) :: marks)
      ((next, (set.referencesOf next).reverse) :: (id, pending) :: rest)
termination_by load marks set.rules + pendingLoad stack
decreasing_by
  · have least := load_cons_le id .done marks set.rules
    simp only [pendingLoad]
    omega
  · simp only [pendingLoad, List.length_cons]
    omega
  · simp only [pendingLoad, List.length_cons, List.length_reverse, referencesOf]
    split
    · have less := load_cons_lt _seen ‹_› .active
      omega
    · have least := load_cons_le next .active marks set.rules
      simp only [List.length_nil]
      omega

/-- Refuses references to missing rules and cycles of references. -/
def checkReferences : Except SetupError Unit := do
  if let some error := set.danglingReference? then throw error
  let _ ← set.rules.foldlM (fun marks rule =>
    if (marks.lookup rule.id).isSome then .ok marks
    else set.search ((rule.id, .active) :: marks) [(rule.id, rule.references.reverse)]) []

end

def ofDrafts [RegexEngine] (drafts : List RuleDraft) : Except SetupError RuleSet := do
  let set : RuleSet := ⟨← compileAll [] drafts⟩
  set.checkReferences
  return set

/-- Puts the references that are not needed yet among those needed and into the queue. -/
def demand (needed queue : List String) : (references : List String) → List String × List String
  | [] => (needed, queue)
  | reference :: rest =>
    if needed.contains reference then demand needed queue rest
    else demand (reference :: needed) (reference :: queue) rest

def unneeded (needed names : List String) : List String := names.filter fun name => !needed.contains name

theorem unneeded_cons_lt {needed names : List String} {name : String} (mem : name ∈ names)
    (fresh : ¬needed.contains name) :
    (unneeded (name :: needed) names).length < (unneeded needed names).length := by
  have fewer : unneeded (name :: needed) names = (unneeded needed names).filter (· != name) := by
    simp [unneeded, bne, Bool.beq_eq_decide_eq]
  rw [fewer, List.length_filter_lt_length_iff_exists]
  exact ⟨name, List.mem_filter.2 ⟨mem, by simpa using fresh⟩, by simp⟩

theorem demand_le {names references : List String} (inside : ∀ reference ∈ references, reference ∈ names)
    (needed queue : List String) :
    (unneeded (demand needed queue references).1 names).length + (demand needed queue references).2.length ≤
      (unneeded needed names).length + queue.length := by
  induction references generalizing needed queue with
  | nil => exact Nat.le_refl _
  | cons reference rest ih =>
    have later := ih fun other mem => inside other (.tail _ mem)
    unfold demand
    split
    · exact later needed queue
    · have fewer := unneeded_cons_lt (inside reference (.head _)) ‹_›
      have rest := later (reference :: needed) (reference :: queue)
      simp only [List.length_cons] at rest
      omega

theorem mem_references_of_referencesOf (set : RuleSet) (id : String) :
    ∀ reference ∈ set.referencesOf id, reference ∈ set.rules.flatMap Rule.references := by
  intro reference mem
  unfold referencesOf at mem
  split at mem
  · exact List.mem_flatMap.2 ⟨_, List.mem_of_find?_eq_some ‹_›, mem⟩
  · cases mem

/-- The rules that are needed, together with all that those in the queue lead to. -/
def gather (set : RuleSet) (needed queue : List String) : List String :=
  match queue with
  | [] => needed
  | id :: rest =>
    let next := demand needed rest (set.referencesOf id)
    gather set next.1 next.2
termination_by (unneeded needed (set.rules.flatMap Rule.references)).length + queue.length
decreasing_by
  have less := demand_le (set.mem_references_of_referencesOf id) needed rest
  simp only [List.length_cons]
  omega

def named (ids : List String) (id : String) : Bool := ids.any (Text.sameIgnoringCase · id)

/-- Keeps the rules in `only`, or all if it is empty, without those in `exclude`. Rules that they
refer to stay as auxiliary ones. -/
def select (set : RuleSet) (only exclude : List String) : RuleSet :=
  let selected := (set.rules.filter fun rule =>
    (only.isEmpty || named only rule.id) && !named exclude rule.id).map Rule.id
  let needed := set.gather selected selected
  ⟨(set.rules.filter fun rule => needed.contains rule.id).map fun rule =>
    if selected.contains rule.id then rule else { rule with auxiliary := true }⟩

end RuleSet

end LeakTrace
