import BracketMarkup.Host.Surroundings
import BracketMarkup.Proofs.Outcomes

namespace BracketMarkup.Template

variable {σ : Type}

def Within (good : Char → Prop) (text : List Char) : Prop := ∀ c ∈ text, good c

theorem Within.of_sublist {good : Char → Prop} {part text : List Char} (h : Within good text)
    (taken : part.Sublist text) : Within good part :=
  fun c member => h c (taken.subset member)

theorem Within.append {good : Char → Prop} {left right : List Char} (h : Within good left)
    (later : Within good right) : Within good (left ++ right) := by
  intro c member
  rcases List.mem_append.mp member with member | member
  · exact h c member
  · exact later c member

/-- What an expansion puts into a text, the variables of an engine and what the surroundings tell of
    files, is written with good characters. -/
structure Supplies (good : Char → Prop) (environment : Environment σ) (bindings : Bindings) :
    Prop where
  values : ∀ binding ∈ bindings, Within good binding.2
  names : ∀ host path names, environment.list host path = .ok names →
    ∀ name ∈ names, Within good name
  fileValues : ∀ host path found, environment.fileBindings host path = .ok found →
    ∀ binding ∈ found, Within good binding.2

theorem mem_of_value? {bindings : Bindings} {name value : List Char}
    (h : bindings.value? name = some value) : (name, value) ∈ bindings := by
  induction bindings with
  | nil => cases h
  | cons binding rest ih =>
    obtain ⟨bound, held⟩ := binding
    rw [Bindings.value?] at h
    split at h
    · rename_i same
      cases h
      rw [same]
      exact List.mem_cons_self
    · exact List.mem_cons_of_mem _ (ih h)

theorem mem_override {bindings newer : Bindings} {binding : List Char × List Char}
    (h : binding ∈ bindings.override newer) : binding ∈ bindings ∨ binding ∈ newer := by
  induction newer generalizing bindings with
  | nil => exact .inl h
  | cons first rest ih =>
    rcases ih h with member | member
    · rcases mem_assign member with rfl | member
      · exact .inr (by simp)
      · exact .inl member
    · exact .inr (List.mem_cons_of_mem _ member)

theorem CallAt.sublist {after arguments rest : List Char} (h : CallAt after arguments rest) :
    arguments.Sublist after ∧ rest.Sublist after := by
  rw [h.text_eq]
  refine ⟨(List.sublist_append_left arguments _).cons _, ?_⟩
  exact ((List.sublist_cons_self _ rest).trans (List.sublist_append_right arguments _)).cons _

theorem BlockAt.sublist {after rest : List Char} {block : Block} (h : BlockAt after block rest) :
    block.arguments.Sublist after ∧ block.body.Sublist after := by
  obtain ⟨gap, -, -, formed⟩ := h
  refine ⟨formed.sublist.1, List.Sublist.trans ?_ formed.sublist.2⟩
  exact ((List.sublist_append_left block.body _).trans (List.sublist_append_right _ _)).trans
    (List.sublist_append_right gap _)

namespace Yields

variable {allowed : Stop → Prop} {good : Char → Prop}

theorem replaceVariables {bindings : Bindings} {text : List Char}
    (values : ∀ binding ∈ bindings, Within good binding.2) (clean : Within good text) :
    Yields allowed (Within good) (replaceVariables bindings text : Expansion σ (List Char)) := by
  refine Yields.replace (fun _ => Within good) (fun _ member => by cases member)
    (fun _ _ _ _ => Within.append) (fun c member d same => ?_) fun _ _ name _ _ _ => ?_
  · rw [List.mem_singleton.mp same]
    exact clean c member
  · cases bound : bindings.value? name with
    | some value => exact Yields.pure (values _ (mem_of_value? bound))
    | none => exact (Yields.report _).bind fun _ _ => Yields.pure fun _ member => by cases member

theorem expandEntry {environment : Environment σ} {bindings : Bindings} {loop : Loop}
    {directory body name : List Char} (supplies : Supplies good environment bindings)
    (named : Within good name) (clean : Within good body) :
    Yields allowed (fun entry => ∀ bound expanded, entry = some (bound, expanded) →
      Within good expanded) (loop.expandEntry environment bindings directory body name) := by
  refine Yields.ask fun trace => ?_
  cases answer : environment.fileBindings trace.host (Path.join directory name) with
  | error reason =>
    exact (Yields.report _).bind fun _ _ => Yields.pure fun _ _ none => by cases none
  | ok fileBindings =>
    have values : ∀ binding ∈ loop.bind bindings fileBindings name, Within good binding.2 := by
      intro binding member
      have both : ∀ binding ∈ bindings.override fileBindings, Within good binding.2 := by
        intro binding member
        rcases mem_override member with member | member
        · exact supplies.values binding member
        · exact supplies.fileValues _ _ _ answer binding member
      rw [Loop.bind] at member
      split at member
      · rcases mem_assign member with rfl | member
        · exact named
        · exact both binding member
      · exact both binding member
    refine (Yields.replaceVariables values clean).bind fun expanded within => Yields.pure ?_
    intro bound other same
    cases same
    exact within

theorem sort {loop : Loop} {entries : List (Bindings × List Char)} :
    Yields allowed (fun sorted => ∀ entry ∈ sorted, entry ∈ entries)
      (loop.sort entries : Expansion σ (List (Bindings × List Char))) := by
  unfold Loop.sort
  cases loop.sortKey with
  | none => exact Yields.pure fun _ member => member
  | some sortKey =>
    have keyed : Yields allowed (fun keyed => ∀ pair ∈ keyed, pair.2 ∈ entries)
        (entries.mapM fun entry => do
          let key ← Template.replaceVariables (σ := σ) entry.1 sortKey
          return (key, entry)) := by
      refine Yields.mapM fun entry member => ?_
      have any : Yields allowed (Within fun _ => True)
          (Template.replaceVariables entry.1 sortKey : Expansion σ (List Char)) :=
        Yields.replaceVariables (fun _ _ _ _ => trivial) fun _ _ => trivial
      exact any.bind fun key _ => Yields.pure member
    refine keyed.bind fun pairs each => Yields.pure fun entry member => ?_
    obtain ⟨pair, found, rfl⟩ := List.mem_map.mp member
    exact each pair ((List.mergeSort_perm _ _).mem_iff.mp found)

variable {environment : Environment σ} {base : List Char}

theorem evaluateLoop {bindings : Bindings} {block : Block}
    (supplies : Supplies good environment bindings)
    (listed : ∀ host directory, Within good directory →
      environment.list host (Path.join base directory) = .error .nul → allowed .nulInPath)
    (arguments : Within good block.arguments) (body : Within good block.body) :
    Yields allowed (fun outcome => ∀ value, outcome = .ok value → Within good value)
      (evaluateLoop environment base bindings block) := by
  unfold Template.evaluateLoop
  rcases read : Loop.read block.arguments with ⟨loop, problems⟩
  refine (Yields.reportAll problems).bind fun _ _ => ?_
  cases located : loop.directory with
  | none => exact Yields.pure fun _ failed => by cases failed
  | some directory =>
    refine Yields.ask fun trace => ?_
    rcases answer : environment.list trace.host (Path.join base directory) with
      (_ | reason) | names
    · have taken : directory.Sublist block.arguments := by
        apply directory_read
        rw [read, located]
      exact Yields.throw (listed _ _ (arguments.of_sublist taken) answer)
    · exact Yields.pure fun _ failed => by cases failed
    · have found : ∀ name ∈ (names.mergeSort textLe).filter loop.selects, Within good name :=
        fun name member => supplies.names _ _ _ answer name
          ((List.mergeSort_perm _ _).mem_iff.mp (List.mem_of_mem_filter member))
      refine (Yields.mapM fun name member =>
        expandEntry supplies (found name member) body).bind fun entries each => ?_
      refine sort.bind fun sorted known => Yields.pure fun value same => ?_
      cases same
      intro c member
      obtain ⟨⟨bound, expanded⟩, chosen, inside⟩ := List.mem_flatMap.mp member
      obtain ⟨entry, kept, same⟩ := List.mem_filterMap.mp (known _ chosen)
      exact each entry kept bound expanded same c inside

theorem replaceBlocks (trigger : Trigger)
    {evaluate : Block → Expansion σ (Except Failure (List Char))} {text : List Char}
    (clean : Within good text)
    (values : ∀ block, Within good block.arguments → Within good block.body →
      Yields allowed (fun outcome => ∀ value, outcome = .ok value → Within good value)
        (evaluate block)) :
    Yields allowed (Within good) (replaceBlocks trigger evaluate text) := by
  refine Yields.replace (fun _ => Within good) (fun _ member => by cases member)
    (fun _ _ _ _ => Within.append) (fun c member d same => ?_)
    fun before after block size whole read => ?_
  · rw [List.mem_singleton.mp same]
    exact clean c member
  · have formed := ((blockCall_reads trigger).call after block _).mpr ⟨size, read, rfl⟩
    have inside : after.Sublist text := by
      rw [whole]
      exact (List.sublist_append_right _ _).trans (List.sublist_append_right _ _)
    refine valueOf _ (fun _ member => by cases member) (values block ?_ ?_)
    · exact clean.of_sublist (formed.sublist.1.trans inside)
    · exact clean.of_sublist (formed.sublist.2.trans inside)

theorem expandWithin {engine : Engine} (supplies : Supplies good environment engine.bindings)
    (listed : ∀ host directory, Within good directory →
      environment.list host (Path.join engine.base directory) = .error .nul → allowed .nulInPath)
    (deep : allowed .tooDeep) (depth : Nat) {text : List Char} (clean : Within good text) :
    Yields allowed (fun _ => True) (engine.expandWithin environment depth text) := by
  induction depth generalizing text with
  | zero => exact Yields.throw deep
  | succ depth ih =>
    refine (pass (replaceBlocks _ clean fun block => evaluateLoop supplies listed)).bind
      fun opened clean => ?_
    refine (pass (Yields.replaceVariables supplies.values clean)).bind fun inserted clean => ?_
    refine expandInserted fun arguments inside word member => ih ?_
    have within : Within good arguments := fun c found => clean c (inside.subset (by simp [found]))
    exact within.of_sublist (splitWords_sublist member)

end Yields

/-- Nothing that an expansion reads from its engine or from its surroundings has a NUL character, and
    a directory is refused for one only if its path has one. -/
structure NulFree (environment : Environment σ) (engine : Engine) : Prop where
  base : '\x00' ∉ engine.base
  supplies : Supplies (· ≠ '\x00') environment engine.bindings
  listed : ∀ host path, environment.list host path = .error .nul → '\x00' ∈ path

theorem mem_of_mem_join {directory name : List Char} {c : Char} (h : c ∈ Path.join directory name) :
    c ∈ directory ∨ c = '/' ∨ c ∈ name := by
  unfold Path.join at h
  split at h
  · exact .inr (.inr h)
  split at h
  · exact (List.mem_append.mp h).imp_right .inr
  · simpa [or_assoc] using h

/-- Without a NUL character in reach every problem of an expansion is recovered from: whatever the
    directories hold and the programs answer, there is a text, unless programs to run nest too deep. -/
theorem expand_recovers {environment : Environment σ} {engine : Engine}
    (clean : NulFree environment engine) (depth : Nat) {text : List Char} (plain : '\x00' ∉ text)
    (trace : Trace σ) :
    (∃ value, ((engine.expandWithin environment depth text).run trace).1 = .ok value) ∨
      ((engine.expandWithin environment depth text).run trace).1 = .error .tooDeep := by
  have listed : ∀ host directory, Within (· ≠ '\x00') directory →
      environment.list host (Path.join engine.base directory) = .error .nul →
        Stop.nulInPath = .tooDeep := by
    intro host directory within refused
    exfalso
    rcases mem_of_mem_join (clean.listed host _ refused) with member | slash | member
    · exact clean.base member
    · exact absurd slash (by decide)
    · exact within _ member rfl
  have within : Within (· ≠ '\x00') text := fun c member nul => plain (nul ▸ member)
  have outcome : Yields (· = .tooDeep) (fun _ => True) (engine.expandWithin environment depth text) :=
    @Yields.expandWithin σ (· = .tooDeep) _ environment engine clean.supplies listed rfl depth text
      within
  rcases run : ((engine.expandWithin environment depth text).run trace).1 with stop | value
  · exact .inr (congrArg _ (outcome.stop run))
  · exact .inl ⟨value, rfl⟩

theorem expand_recovers_loop :
    let environment : Environment Unit :=
      { list := fun _ path =>
          if '\x00' ∈ path then .error .nul
          else if path = "./pages".toList then .ok ["b".toList, "a".toList]
          else .error (.refused "none")
        fileBindings := fun _ path =>
          if path = "./pages/b".toList then .error "locked" else .ok [("t".toList, "%run(x)".toList)]
        start := fun host _ _ => (.ok ([104], 1), host) }
    let engine := Engine.make [] [] [] false
    let text := "%forfiles(in pages)%(%\x7bt\x7d%)%forfiles(in gone)%(%)%\x7by".toList
    NulFree environment engine ∧ '\x00' ∉ text ∧
      ((∃ value, ((engine.expandWithin environment 9 text).run ⟨(), [], ""⟩).1 = .ok value) ∨
        ((engine.expandWithin environment 9 text).run ⟨(), [], ""⟩).1 = .error .tooDeep) := by
  intro environment engine text
  have clean : NulFree environment engine := by
    refine ⟨by decide, ⟨fun _ member => absurd member List.not_mem_nil, ?_, ?_⟩, ?_⟩
    · intro host path names listed name member c inside
      simp only [environment] at listed
      split at listed
      · cases listed
      split at listed
      · cases listed
        rcases List.mem_pair.mp member with rfl | rfl <;> rintro rfl <;> simp at inside
      · cases listed
    · intro host path found read binding member c inside
      simp only [environment] at read
      split at read
      · cases read
      · cases read
        rw [List.mem_singleton] at member
        rw [member] at inside
        rintro rfl
        simp at inside
    · intro host path refused
      simp only [environment] at refused
      split at refused
      · assumption
      split at refused <;> cases refused
  exact ⟨clean, by decide, expand_recovers clean 9 (by decide) _⟩

theorem expand_stops_at_nul :
    let environment := Host.surroundings fun tree _ _ => (.error "none", tree)
    let engine := Engine.make [] [] [] false
    ¬ ∃ value, ((engine.expand environment "%forfiles(in a\x00b)%(x%)".toList).run
      ⟨[], [], ""⟩).1 = .ok value := by
  rintro environment engine ⟨value, recovered⟩
  have stopped : ((engine.expand environment "%forfiles(in a\x00b)%(x%)".toList).run
      ⟨[], [], ""⟩).1 = .error .nulInPath := rfl
  rw [stopped] at recovered
  cases recovered

end BracketMarkup.Template
