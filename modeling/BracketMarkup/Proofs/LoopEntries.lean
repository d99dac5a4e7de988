import BracketMarkup.Proofs.Results
import BracketMarkup.Proofs.LoopArguments

namespace BracketMarkup.Template

variable {σ α β : Type}

/-- An expansion that gives a value wherever the surroundings are `host`, and leaves them alone. -/
def GivesOn (host : σ) (expansion : Expansion σ α) (value : α) (diagnostics : List Diagnostic) :
    Prop :=
  ∀ trace : Trace σ, trace.host = host →
    expansion.run trace = (.ok value, trace.extend host diagnostics "")

namespace GivesOn

variable {host : σ} {expansion : Expansion σ α} {value : α} {diagnostics : List Diagnostic}

theorem of_gives (h : Gives expansion value diagnostics "") :
    GivesOn host expansion value diagnostics := by
  intro trace here
  rw [h trace, here]

theorem gives (h : ∀ host, GivesOn host expansion value diagnostics) :
    Gives expansion value diagnostics "" :=
  fun trace => h trace.host trace rfl

theorem pure (value : α) : GivesOn host (Pure.pure value) value [] := of_gives (Gives.pure value)

theorem reportAll (diagnostics : List Diagnostic) :
    GivesOn host (Template.reportAll diagnostics) () diagnostics := by
  rintro trace rfl
  simp only [Trace.extend, String.append_empty]
  rfl

theorem bind {next : α → Expansion σ β} {result : β} {further : List Diagnostic}
    (first : GivesOn host expansion value diagnostics)
    (later : GivesOn host (next value) result further) :
    GivesOn host (expansion >>= next) result (diagnostics ++ further) := by
  intro trace here
  rw [run_bind_ok (first trace here), later _ rfl, Trace.extend_extend, String.append_empty]

theorem returning (h : GivesOn host expansion value diagnostics) (f : α → β) :
    GivesOn host (expansion >>= fun given => Pure.pure (f given)) (f value) diagnostics := by
  have both : GivesOn host (expansion >>= fun given => Pure.pure (f given)) (f value)
      (diagnostics ++ []) := h.bind (pure (f value))
  rwa [List.append_nil] at both

theorem ask {next : Trace σ → Expansion σ α}
    (later : ∀ trace, trace.host = host → GivesOn host (next trace) value diagnostics) :
    GivesOn host (get >>= next) value diagnostics := by
  intro trace here
  exact later trace here trace here

theorem mapM {next : α → Expansion σ β} {result : α → β} {problems : α → List Diagnostic}
    (each : ∀ item, GivesOn host (next item) (result item) (problems item)) (items : List α) :
    GivesOn host (items.mapM next) (items.map result) (items.flatMap problems) := by
  induction items with
  | nil => exact pure []
  | cons item rest ih =>
    rw [List.mapM_cons]
    exact (each item).bind (ih.returning (result item :: ·))

end GivesOn

def Piece.inserted (bindings : Bindings) : Piece (List Char) → List Char
  | .literal c => [c]
  | .malformed _ => variableReference.trigger.text
  | .call name => (bindings.value? name).getD []

def Piece.unresolved (bindings : Bindings) : Piece (List Char) → List Diagnostic
  | .literal _ => []
  | .malformed problem => [problem]
  | .call name => if (bindings.value? name).isSome then [] else [.unknownVariable name]

def inserted (bindings : Bindings) (text : List Char) : List Char :=
  (variableReference.pieces 0 text).flatMap (Piece.inserted bindings)

def unresolved (bindings : Bindings) (text : List Char) : List Diagnostic :=
  (variableReference.pieces 0 text).flatMap (Piece.unresolved bindings)

theorem variableValue_gives (bindings : Bindings) (name : List Char) :
    Gives (σ := σ) (variableValue bindings name) (Piece.inserted bindings (.call name))
      (Piece.unresolved bindings (.call name)) "" := by
  rw [variableValue, Piece.inserted, Piece.unresolved]
  cases bindings.value? name with
  | some value => exact Gives.pure value
  | none => exact Gives.report _ []

theorem replaceVariables_gives (bindings : Bindings) (text : List Char) :
    Gives (σ := σ) (replaceVariables bindings text) (inserted bindings text)
      (unresolved bindings text) "" := by
  have pieces : ∀ piece, Gives (σ := σ)
      (variableReference.value (variableValue bindings) piece) (piece.inserted bindings)
      (piece.unresolved bindings) "" := by
    intro piece
    cases piece with
    | literal c => exact Gives.pure [c]
    | malformed problem => exact Gives.report problem _
    | call name => exact variableValue_gives bindings name
  refine GivesOn.gives fun host => ?_
  rw [inserted, List.flatMap_def]
  exact (GivesOn.mapM (fun piece => .of_gives (pieces piece)) _).returning List.flatten

/-- A file that a loop runs over: its name, the variables that the body is expanded under, what the
    body becomes and, for a loop with a key, what the key becomes. -/
structure Loop.Entry where
  name : List Char
  bound : Bindings
  expanded : List Char
  key : List Char

/-- An entry as a loop sorts it. -/
def Loop.Entry.result (entry : Loop.Entry) : Bindings × List Char := (entry.bound, entry.expanded)

def Loop.entry (loop : Loop) (bindings : Bindings) (body name : List Char) (found : Bindings) :
    Loop.Entry where
  name
  bound := loop.bind bindings found name
  expanded := inserted (loop.bind bindings found name) body
  key := inserted (loop.bind bindings found name) (loop.sortKey.getD [])

def Loop.keyLe (loop : Loop) (a b : Loop.Entry) : Bool :=
  if loop.descending then textLe b.key a.key else textLe a.key b.key

def Loop.arrange (loop : Loop) (entries : List Loop.Entry) : List Loop.Entry :=
  if loop.sortKey.isSome then entries.mergeSort loop.keyLe else entries

def Loop.keyProblems (loop : Loop) (entries : List Loop.Entry) : List Diagnostic :=
  match loop.sortKey with
  | none => []
  | some sortKey => entries.flatMap fun entry => unresolved entry.bound sortKey

section

variable (loop : Loop) (environment : Environment σ) (host : σ) (bindings : Bindings)
  (directory body : List Char)

/-- The entry of a file, if its variables can be read. -/
def Loop.entry? (name : List Char) : Option Loop.Entry :=
  match environment.fileBindings host (Path.join directory name) with
  | .error _ => none
  | .ok found => some (loop.entry bindings body name found)

def Loop.entryProblems (name : List Char) : List Diagnostic :=
  match environment.fileBindings host (Path.join directory name) with
  | .error reason => [.skippedEntry (Path.join directory name) reason]
  | .ok found => unresolved (loop.bind bindings found name) body

theorem expandEntry_gives (name : List Char) :
    GivesOn host (loop.expandEntry environment bindings directory body name)
      ((loop.entry? environment host bindings directory body name).map Loop.Entry.result)
      (loop.entryProblems environment host bindings directory body name) := by
  refine GivesOn.ask fun trace here => ?_
  subst here
  rw [Loop.entry?, Loop.entryProblems]
  cases environment.fileBindings trace.host (Path.join directory name) with
  | error reason => exact .of_gives (Gives.report _ none)
  | ok found =>
    exact (GivesOn.of_gives (replaceVariables_gives (loop.bind bindings found name) body)).returning
      fun expanded => some (loop.bind bindings found name, expanded)

/-- The entries of the files among `names` that the loop selects, in the order of the names. -/
def Loop.entries (names : List (List Char)) : List Loop.Entry :=
  ((names.mergeSort textLe).filter loop.selects).filterMap
    (loop.entry? environment host bindings directory body)

end

theorem sortByKey_entries (loop : Loop) {entries : List Loop.Entry} {sortKey : List Char}
    (keyed : ∀ entry ∈ entries, entry.key = inserted entry.bound sortKey) :
    (sortByKey loop.descending ((entries.map Loop.Entry.result).map
      fun item => (inserted item.1 sortKey, item))).map Prod.snd =
      (entries.mergeSort loop.keyLe).map Loop.Entry.result := by
  have sorted : (entries.mergeSort loop.keyLe).map
      (fun entry => (inserted entry.bound sortKey, entry.result)) =
        sortByKey loop.descending
          (entries.map fun entry => (inserted entry.bound sortKey, entry.result)) := by
    refine List.map_mergeSort fun a here b there => ?_
    rw [Loop.keyLe, keyed a here, keyed b there]
  rw [List.map_map]
  exact (congrArg (List.map Prod.snd) sorted).symm.trans List.map_map

theorem sort_gives (loop : Loop) (host : σ) {entries : List Loop.Entry}
    (keyed : ∀ entry ∈ entries, entry.key = inserted entry.bound (loop.sortKey.getD [])) :
    GivesOn host (loop.sort (entries.map Loop.Entry.result))
      ((loop.arrange entries).map Loop.Entry.result) (loop.keyProblems entries) := by
  rw [Loop.sort, Loop.arrange, Loop.keyProblems]
  cases asked : loop.sortKey with
  | none => exact .pure _
  | some sortKey =>
    rw [asked, Option.getD_some] at keyed
    have keys : GivesOn host _ _ _ := GivesOn.mapM
      (fun item : Bindings × List Char => (GivesOn.of_gives
        (replaceVariables_gives item.1 sortKey)).returning fun key => (key, item))
      (entries.map Loop.Entry.result)
    have sorted := keys.returning fun keyed => (sortByKey loop.descending keyed).map Prod.snd
    rw [sortByKey_entries loop keyed, List.flatMap_map] at sorted
    exact sorted

def Loop.problems (loop : Loop) (environment : Environment σ) (host : σ) (bindings : Bindings)
    (directory body : List Char) (names : List (List Char)) : List Diagnostic :=
  ((names.mergeSort textLe).filter loop.selects).flatMap
      (loop.entryProblems environment host bindings directory body) ++
    loop.keyProblems (loop.entries environment host bindings directory body names)

section

variable {loop : Loop} {environment : Environment σ} {host : σ} {bindings : Bindings}
  {directory body : List Char} {names : List (List Char)} {entry : Loop.Entry}

theorem entry?_eq_some {name : List Char}
    (made : loop.entry? environment host bindings directory body name = some entry) :
    ∃ found, environment.fileBindings host (Path.join directory name) = .ok found ∧
      entry = loop.entry bindings body name found := by
  rw [Loop.entry?] at made
  cases answer : environment.fileBindings host (Path.join directory name) with
  | error reason =>
    rw [answer] at made
    cases made
  | ok found =>
    rw [answer] at made
    exact ⟨found, rfl, (Option.some.inj made).symm⟩

theorem entry_of_entries
    (member : entry ∈ loop.entries environment host bindings directory body names) :
    ∃ found, environment.fileBindings host (Path.join directory entry.name) = .ok found ∧
      entry = loop.entry bindings body entry.name found := by
  obtain ⟨name, -, made⟩ := List.mem_filterMap.mp member
  obtain ⟨found, answer, rfl⟩ := entry?_eq_some made
  exact ⟨found, answer, rfl⟩

theorem key_of_entries
    (member : entry ∈ loop.entries environment host bindings directory body names) :
    entry.key = inserted entry.bound (loop.sortKey.getD []) := by
  obtain ⟨found, -, same⟩ := entry_of_entries member
  rw [same, Loop.entry]

end

theorem evaluateLoop_gives {environment : Environment σ} {base : List Char} (bindings : Bindings)
    {block : Block} {host : σ} {loop : Loop} {problems : List Diagnostic} {directory : List Char}
    {names : List (List Char)} (read : Loop.read block.arguments = (loop, problems))
    (named : loop.directory = some directory)
    (listed : environment.list host (Path.join base directory) = .ok names) :
    GivesOn host (evaluateLoop environment base bindings block)
      (.ok ((loop.arrange (loop.entries environment host bindings (Path.join base directory)
        block.body names)).flatMap (·.expanded)))
      (problems ++ loop.problems environment host bindings (Path.join base directory) block.body
        names) := by
  have made := GivesOn.mapM
    (expandEntry_gives loop environment host bindings (Path.join base directory) block.body)
    ((names.mergeSort textLe).filter loop.selects)
  have keyed : ∀ entry ∈ loop.entries environment host bindings (Path.join base directory)
      block.body names, entry.key = inserted entry.bound (loop.sortKey.getD []) :=
    fun _ => key_of_entries
  have sorted := (sort_gives loop host keyed).returning
    fun sorted => (.ok (sorted.flatMap Prod.snd) : Except Failure (List Char))
  rw [List.flatMap_map] at sorted
  unfold evaluateLoop
  rw [read]
  refine (GivesOn.reportAll problems).bind ?_
  simp only [named]
  refine GivesOn.ask fun trace here => ?_
  simp only [here, listed]
  refine made.bind ?_
  rw [List.filterMap_map, Function.id_comp, ← List.map_filterMap]
  exact sorted

end BracketMarkup.Template
