import BracketMarkup.Proofs.Conversions

namespace BracketMarkup.CommandLine

open Host

variable {machine : Machine}

/-- A file that fails does not disturb the others, as long as the programs that are started leave the
    tree alone: it changes nothing, unless its page was opened, which then holds the start of its text.
    Options that do not go together disturb nothing at all. -/
theorem failures_apart (harmless : ∀ tree base command, (machine.start tree base command).2 = tree)
    (tree : FileTree) (texts : List (List Char)) :
    (∀ options, Options.read texts = .ok options → Conflicting options →
      ∃ desk, run machine tree texts = (.ok 2, desk) ∧ desk.tree = tree) ∧
    (Options.read texts = .error .version ∨ Options.read texts = .error .help →
      ∃ desk, run machine tree texts = (.ok 0, desk) ∧ desk.tree = tree) ∧
    ∀ options, Options.read texts = .ok options → ¬ Conflicting options → options.dryRun = none →
      ∀ status desk, run machine tree texts = (.ok status, desk) →
      (∃ directory refusal, options.outputDirectory = some directory ∧
        tree.ensureDirectories directory = (.error refusal, desk.tree) ∧ status = 1) ∨
      ∃ directory made engine outcomes, Prepared tree options directory made engine ∧
        Conversions machine engine directory made (inputs options made) outcomes desk.tree ∧
        status = (if outcomes.all Outcome.isWritten then 0 else 1) ∧
        (∀ host source after,
          Conversion machine engine directory host source .failed after → after = host) ∧
        (∀ host source name after,
          Conversion machine engine directory host source (.unfilled name) after →
            name = pageName source directory ∧ ∃ location page taken executable,
              host.follow (.inside []) name = .ok (.inside location) ∧ taken <+: Utf8.encode page ∧
              after.entry? location = some (.file taken executable) ∧
              ∀ other ≠ location, after.entry? other = host.entry? other) ∧
        (∀ host source name page after,
          Conversion machine engine directory host source (.written name page) after →
            name = pageName source directory ∧ after.readBytes name = .ok (Utf8.encode page)) ∧
        (∀ outcomes' last, Conversions machine engine directory made
            (kept (inputs options made) outcomes) outcomes' last ↔
          outcomes' = outcomes.filter (· ≠ .failed) ∧ last = desk.tree) ∧
        ∀ texts', kept (inputs options made) outcomes ≠ [] →
          Options.read texts' =
            .ok { options with all := false, files := kept (inputs options made) outcomes } →
          ∃ desk', run machine tree texts' =
              (.ok (exitStatus ((outcomes.filter (· ≠ .failed)).all Outcome.isWritten)), desk') ∧
            desk'.tree = desk.tree := by
  refine ⟨fun options read => run_of_conflicting read, ?_, ?_⟩
  · intro early
    rcases early with read | read
    · rw [run, read]
      exact ⟨_, rfl, rfl⟩
    · rw [run, read]
      exact ⟨_, rfl, rfl⟩
  · intro options read agree real status desk ran
    rcases conversions_of_run read agree real ran with
      refused | ⟨directory, made, engine, outcomes, prepared, steps, exits⟩
    · exact .inl refused
    · right
      refine ⟨directory, made, engine, outcomes, prepared, steps, exits, ?_, ?_, ?_, ?_, ?_⟩
      · intro host source after step
        exact step.unchanged harmless
      · intro host source name after step
        exact step.unfilled_only harmless
      · intro host source name page after step
        exact step.page_written
      · have without := steps.without_failures harmless
        intro outcomes' last
        constructor
        · intro other
          exact other.deterministic without
        · intro same
          rw [same.1, same.2]
          exact without
      · intro texts' filled read'
        exact steps.run_kept harmless filled read' real prepared

theorem failures_apart_missing :
    let tree : FileTree := [([['b']], .file [] false)]
    let options := { Options.default with files := [['a'], ['b']] }
    (∀ host base command, (calm.start host base command).2 = host) ∧
      Options.read [['a'], ['b']] = .ok options ∧ ¬ Conflicting options ∧ options.dryRun = none ∧
      ∃ desk, run calm tree [['a'], ['b']] = (.ok 1, desk) ∧
        ∃ directory made engine outcomes, Prepared tree options directory made engine ∧
          Conversions calm engine directory made [['a'], ['b']] outcomes desk.tree ∧
          kept [['a'], ['b']] outcomes = [['b']] ∧
          ∃ status desk', run calm tree [['b']] = (.ok status, desk') ∧ desk'.tree = desk.tree := by
  intro tree options
  have harmless : ∀ host base command, (calm.start host base command).2 = host := fun _ _ _ => rfl
  have read : Options.read [['a'], ['b']] = .ok options := by decide
  have read' : Options.read [['b']] = .ok { options with all := false, files := [['b']] } := by decide
  have agree : ¬ Conflicting options := by simp [Conflicting, options, Options.default]
  let host : FileTree := [([['b']], .file [] false), (["out".toList], .directory)]
  have prepared : Prepared tree options "out".toList host plainEngine :=
    ⟨rfl, by decide +kernel, _, _, rfl, rfl⟩
  have missing : host.readText ['a'] = .error (.refused (.fault .missing ['a'])) := by decide +kernel
  have empty : host.readText ['b'] = .ok [] := by decide +kernel
  have blank : Document.parse [] = .ok ⟨[], []⟩ := by cbv
  have first : Conversion calm plainEngine "out".toList host ['a'] .failed host :=
    .unreadable missing (by simp)
  have second : Conversion calm plainEngine "out".toList host ['b'] (.written _ [])
      (host ++ [(["out".toList, "b.html".toList], .file [] false)]) :=
    .of_run empty blank (by decide +kernel) (by decide +kernel)
  have steps := Conversions.cons first (.cons second (.nil _))
  obtain ⟨desk, ran, same⟩ := Conversions.run read agree rfl prepared steps
  refine ⟨harmless, read, agree, rfl, desk, ran, ?_⟩
  rcases (failures_apart harmless tree [['a'], ['b']]).2.2 options read agree rfl _ _ ran with
    ⟨directory, refusal, named, refused, -⟩ |
      ⟨directory, made, engine, outcomes, prepared', steps', -, -, -, -, -, without⟩
  · cases named
    rw [prepared.ensured] at refused
    cases refused
  · obtain ⟨rfl, rfl, rfl⟩ := prepared.unique prepared'
    obtain ⟨rfl, -⟩ := steps.deterministic steps'
    obtain ⟨desk', ran', same'⟩ := without [['b']] (List.cons_ne_nil ['b'] []) read'
    exact ⟨_, _, _, _, prepared, steps', rfl, _, desk', ran', same'⟩

def cramped : Machine := { calm with device := fun _ _ _ => some (1, .noSpace) }

/-- A file whose page is opened and not filled leaves it all the same, and options that do not go together
    are not looked at when only the version is asked for. -/
theorem failed_page_stays :
    let tree : FileTree := [(["a.baml".toList], .file (Utf8.encode ['1', '2']) false)]
    tree.readText "out/a.html".toList =
        .error (.refused (.fault .missing "out/a.html".toList)) ∧
      runThenRead cramped tree ["a.baml".toList] "out/a.html".toList = (.ok 1, .ok ['1']) ∧
      (run calm tree [['-', 'v']]).1 = .ok 0 ∧
      (run calm tree [['-', 'a'], "a.baml".toList, ['-', 'v']]).1 = .ok 0 := by
  intro tree
  refine ⟨by decide +kernel, ?_, by decide +kernel, by decide +kernel⟩
  let host := tree ++ [(["out".toList], Entry.directory)]
  have prepared : Prepared tree { Options.default with files := ["a.baml".toList] } "out".toList host
      plainEngine := ⟨rfl, by decide +kernel, _, _, rfl, rfl⟩
  have text : host.readText "a.baml".toList = .ok ['1', '2'] := by decide +kernel
  have parsed : Document.parse ['1', '2'] = .ok ⟨[], [.text ['1', '2']]⟩ := by cbv
  have compiles : Compiles cramped.start plainEngine host ⟨[], [.text ['1', '2']]⟩ ['1', '2'] host :=
    compiles_of_run (by decide +kernel) (by decide +kernel)
  have wrote : host.write cramped.device "out/a.html".toList ['1', '2'] =
      (.error (.fault .noSpace "out/a.html".toList),
        host ++ [(["out".toList, "a.html".toList], .file (Utf8.encode ['1']) false)]) := by
    decide +kernel
  have opened : host.openAnew "out/a.html".toList =
      .ok (host ++ [(["out".toList, "a.html".toList], .file [] false)]) := by decide +kernel
  have named : "out/a.html".toList = pageName "a.baml".toList "out".toList := by decide +kernel
  have steps := Conversions.cons (.unfilled text parsed compiles named opened wrote) (.nil _)
  rw [Conversions.runThenRead (by decide) (by simp [Conflicting, Options.default]) rfl prepared steps]
  decide +kernel

end BracketMarkup.CommandLine
