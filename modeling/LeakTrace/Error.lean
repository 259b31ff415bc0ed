namespace LeakTrace

inductive SetupError where
  | unreadable (path : String)
  | yaml (origin : String)
  | json (origin : String)
  | toml (origin : String)
  | duplicateRule (id : String)
  | duplicateDataType (id : String)
  | invalidRegex (pattern : String)
  | invalidPattern (rule pattern reason : String)
  | unknownVariable (rule name : String)
  | invalidFilter (rule reason : String)
  | unknownReference (rule reference : String)
  | ruleCycle (rule : String)
  | unsupportedLanguage (rule language : String)
  | invalidGlob (pattern : String)
  deriving DecidableEq, Inhabited

def SetupError.message : SetupError → String
  | unreadable path => "failed to read " ++ path
  | yaml origin => "invalid YAML in " ++ origin
  | json origin => "invalid JSON in " ++ origin
  | toml origin => "invalid TOML in " ++ origin
  | duplicateRule id => "duplicate rule id '" ++ id ++ "'"
  | duplicateDataType id => "duplicate data type id '" ++ id ++ "'"
  | invalidRegex pattern => "invalid regex '" ++ pattern ++ "'"
  | invalidPattern rule pattern reason =>
    "rule '" ++ rule ++ "': invalid pattern `" ++ pattern ++ "`: " ++ reason
  | unknownVariable rule name => "rule '" ++ rule ++ "': unknown variable '" ++ name ++ "'"
  | invalidFilter rule reason => "rule '" ++ rule ++ "': " ++ reason
  | unknownReference rule reference =>
    "rule '" ++ rule ++ "': references unknown rule '" ++ reference ++ "'"
  | ruleCycle rule => "rule '" ++ rule ++ "' references itself through its filters or sanitizer"
  | unsupportedLanguage rule language =>
    "rule '" ++ rule ++ "': unsupported language '" ++ language ++ "'"
  | invalidGlob pattern => "invalid exclude glob '" ++ pattern ++ "'"

inductive FileFault where
  | unreadable (path cause : String)
  | unparsable (file : String)
  | unsupportedLanguage (name : String)
  | depthExceeded (limit : Nat)
  | nodeBudgetExceeded (limit : Nat)
  | fileTooLarge (size limit : Nat)
  deriving DecidableEq, Inhabited

def FileFault.message : FileFault → String
  | unreadable path cause => "failed to read " ++ path ++ ": " ++ cause
  | unparsable file => "failed to parse " ++ file
  | unsupportedLanguage name => "no syntax adapter for " ++ name
  | depthExceeded limit => "recursion limit of " ++ toString limit ++ " exceeded"
  | nodeBudgetExceeded limit => "node budget of " ++ toString limit ++ " exceeded"
  | fileTooLarge size limit =>
    "file is " ++ toString size ++ " bytes, limit is " ++ toString limit

/-- A computation that succeeds succeeds in each of its steps. -/
theorem bind_eq_ok {ε α β : Type} {x : Except ε α} {f : α → Except ε β} {result : β} :
    (x >>= f) = .ok result ↔ ∃ middle, x = .ok middle ∧ f middle = .ok result := by
  cases x with
  | error fault => simp [bind, Except.bind]
  | ok middle => simp [bind, Except.bind]

theorem bind_eq_error {ε α β : Type} {x : Except ε α} {f : α → Except ε β} {fault : ε} :
    (x >>= f) = .error fault ↔
      x = .error fault ∨ ∃ middle, x = .ok middle ∧ f middle = .error fault := by
  cases x with
  | error early => simp [bind, Except.bind]
  | ok middle => simp [bind, Except.bind]

theorem toOption_eq_some {ε α : Type} {x : Except ε α} {result : α} :
    x.toOption = some result ↔ x = .ok result := by
  cases x with
  | error fault => simp [Except.toOption]
  | ok value => simp [Except.toOption]

/-- Whether a computation succeeds with a result of some sort is decidable if the sort is. -/
instance decidableExistsOk {ε α : Type} {Holds : α → Prop} [DecidablePred Holds] :
    (outcome : Except ε α) → Decidable (∃ result, outcome = .ok result ∧ Holds result)
  | .ok result => decidable_of_iff (Holds result) (by simp)
  | .error _ => isFalse (by simp)

end LeakTrace
