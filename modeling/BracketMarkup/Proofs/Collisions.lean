import BracketMarkup.Proofs.Conversions

namespace BracketMarkup.CommandLine

open Host FileTree Template

variable {machine : Machine} {engine : Engine} {directory : List Char}

/-- A program that is started does not change what a file holds. -/
def Launch.LeavesFile (start : Starter) (path : List Char) (launch : Launch) : Prop :=
  ∀ bytes, launch.tree.readBytes path = .ok bytes → (launch.result start).readBytes path = .ok bytes

theorem pageFile_ne {source other directory : List Char}
    (apart : pageName other directory ≠ pageName source directory) :
    pageFile source ≠ pageFile other := by
  intro same
  rw [pageName_eq, pageName_eq, same] at apart
  exact apart rfl

section Kept

variable {source : List Char} {bytes : Bytes}

theorem Conversion.keeps_page {tree after : FileTree} {other : List Char} {outcome : Outcome}
    (h : Conversion machine engine directory tree other outcome after)
    (leave : ∀ launch ∈ sourceLaunches machine.start engine tree other,
      launch.LeavesFile machine.start (pageName source directory))
    (apart : pageName other directory ≠ pageName source directory)
    (held : tree.readBytes (pageName source directory) = .ok bytes) :
    after.readBytes (pageName source directory) = .ok bytes := by
  have compiled : ∀ {text document page middle}, tree.readText other = .ok text →
      Document.parse text = .ok document → Compiles machine.start engine tree document page middle →
      middle.readBytes (pageName source directory) = .ok bytes := by
    intro text document page middle read parsed compiles
    simp only [sourceLaunches, read, parsed] at leave
    exact compiles.invariant (·.readBytes (pageName source directory) = .ok bytes) held
      fun launch member before => leave launch member bytes before
  have written : ∀ {result page} {middle : FileTree},
      middle.readBytes (pageName source directory) = .ok bytes →
      middle.write machine.device (pageName other directory) page = (result, after) →
      after.readBytes (pageName source directory) = .ok bytes := by
    intro result page middle before wrote
    exact readBytes_write_other wrote before (last_pageName source directory)
      (pageFile_name source).2.2 (last_pageName other directory) (pageFile_name other).2.2
      (pageFile_ne apart)
  cases h with
  | unreadable => exact held
  | unparsable => exact held
  | unopened read parsed compiles _ _ => exact compiled read parsed compiles
  | unfilled read parsed compiles named _ wrote =>
    rw [named] at wrote
    exact written (compiled read parsed compiles) wrote
  | written read parsed compiles named wrote =>
    rw [named] at wrote
    exact written (compiled read parsed compiles) wrote

theorem Conversions.keep_page {tree last : FileTree} {sources : List (List Char)}
    {outcomes : List Outcome} (h : Conversions machine engine directory tree sources outcomes last)
    (leave : ∀ launch ∈ allLaunches machine engine directory tree sources,
      launch.LeavesFile machine.start (pageName source directory))
    (apart : ∀ other ∈ sources, pageName other directory ≠ pageName source directory)
    (held : tree.readBytes (pageName source directory) = .ok bytes) :
    last.readBytes (pageName source directory) = .ok bytes := by
  induction h with
  | nil => exact held
  | @cons tree middle last other rest outcome outcomes step _ ih =>
    have here : Conversion machine engine directory (⟨tree, "", ""⟩ : Desk).tree other outcome middle :=
      step
    obtain ⟨desk, converted, left⟩ := here.convertFile
    rw [allLaunches, converted] at leave
    dsimp only at leave
    rw [left] at leave
    refine ih (fun launch member => leave launch (List.mem_append_right _ member))
      (fun other member => apart other (List.mem_cons_of_mem _ member)) ?_
    exact step.keeps_page (fun launch member => leave launch (List.mem_append_left _ member))
      (apart _ (by simp)) held

end Kept

theorem Conversions.at_turn {tree last : FileTree} {earlier later : List (List Char)} {source : List Char}
    {outcomes : List Outcome}
    (h : Conversions machine engine directory tree (earlier ++ source :: later) outcomes last) :
    ∃ front outcome behind before after, outcomes = front ++ outcome :: behind ∧
      Conversions machine engine directory tree earlier front before ∧
      Conversion machine engine directory before source outcome after ∧
      Conversions machine engine directory after later behind last := by
  induction earlier generalizing tree outcomes with
  | nil =>
    cases h with
    | cons step steps => exact ⟨[], _, _, _, _, rfl, .nil _, step, steps⟩
  | cons first earlier ih =>
    cases h with
    | cons step steps =>
      obtain ⟨front, outcome, behind, before, after, rfl, sooner, turn, rest⟩ := ih steps
      exact ⟨_ :: front, outcome, behind, before, after, rfl, .cons step sooner, turn, rest⟩

theorem mem_allSources {tree : FileTree} {location : Location} {content : Bytes} {executable : Bool}
    (member : (location, Entry.file content executable) ∈ tree)
    (named : (location.getLast?).any isSource = true) :
    ['/'].intercalate (['.'] :: location) ∈ allSources tree := by
  rw [allSources]
  apply List.mem_mergeSort.mpr
  refine List.mem_map.mpr ⟨location, List.mem_filterMap.mpr ⟨_, member, ?_⟩, rfl⟩
  exact if_pos named

/-- When all sources are converted without a failure, each gives its page at its turn. The page stays
    unless a later source has a page of the same name or a started program changes it. -/
theorem all_pages_written {tree : FileTree} {texts : List (List Char)} {options : Options} {desk : Desk}
    (read : Options.read texts = .ok options) (all : options.all = true)
    (ran : run machine tree texts = (.ok 0, desk)) :
    ∃ directory made engine outcomes, Prepared tree options directory made engine ∧
      Conversions machine engine directory made (allSources made) outcomes desk.tree ∧
      outcomes.all Outcome.isWritten = true ∧
      (∀ location content executable, (location, Entry.file content executable) ∈ made →
        (location.getLast?).any isSource = true →
        ['/'].intercalate (['.'] :: location) ∈ allSources made) ∧
      ∀ earlier source later, allSources made = earlier ++ source :: later →
        ∃ front before page after, Conversions machine engine directory made earlier front before ∧
          Conversion machine engine directory before source
            (.written (pageName source directory) page) after ∧
          after.readBytes (pageName source directory) = .ok (Utf8.encode page) ∧
          ((∀ other ∈ later, pageName other directory ≠ pageName source directory) →
            (∀ launch ∈ allLaunches machine engine directory after later,
              launch.LeavesFile machine.start (pageName source directory)) →
            desk.tree.readBytes (pageName source directory) = .ok (Utf8.encode page)) := by
  have agree : ¬ Conflicting options := by
    intro conflicting
    obtain ⟨desk', refused, -⟩ := run_of_conflicting read conflicting
    rw [ran] at refused
    cases refused
  have real : options.dryRun = none := by
    by_contra dry
    exact agree (.inr (.inl ⟨dry, .inl all⟩))
  rcases conversions_of_run read agree real ran with
    ⟨_, _, _, _, impossible⟩ | ⟨directory, made, engine, outcomes, prepared, steps, exits⟩
  · cases impossible
  have sources : inputs options made = allSources made := if_pos all
  rw [sources] at steps
  have succeeded : outcomes.all Outcome.isWritten = true := by
    by_contra failed
    rw [exitStatus, if_neg failed] at exits
    cases exits
  refine ⟨directory, made, engine, outcomes, prepared, steps, succeeded,
    fun location content executable member named => mem_allSources member named, ?_⟩
  intro earlier source later order
  rw [order] at steps
  obtain ⟨front, outcome, behind, before, after, rfl, sooner, turn, rest⟩ := steps.at_turn
  cases outcome with
  | failed => simp [Outcome.isWritten] at succeeded
  | unfilled name => simp [Outcome.isWritten] at succeeded
  | written name page =>
    obtain ⟨named, held⟩ := turn.page_written
    rw [named] at turn held
    exact ⟨front, before, page, after, sooner, turn, held,
      fun apart leave => rest.keep_page leave apart held⟩

def twins : FileTree :=
  [(["a.baml".toList], .file (Utf8.encode ['1']) false), ([['d']], .directory),
    ([['d'], "a.baml".toList], .file (Utf8.encode ['2']) false)]

def laid (tree : FileTree) (pages : FileTree) : FileTree := tree ++ (["out".toList], .directory) :: pages

def aPage (text : List Char) : Location × Entry :=
  (["out".toList, "a.html".toList], .file (Utf8.encode text) false)

theorem allSources_twins : allSources (laid twins []) = ["./a.baml".toList, "./d/a.baml".toList] := by
  have found : allSources (laid twins []) =
      ["./a.baml".toList, "./d/a.baml".toList].mergeSort textLe := rfl
  rw [found]
  exact List.mergeSort_of_pairwise (by decide)

theorem parse_one : Document.parse ['1'] = .ok ⟨[], [.text ['1']]⟩ := by cbv

theorem parse_two : Document.parse ['2'] = .ok ⟨[], [.text ['2']]⟩ := by cbv

theorem twins_first : Conversion calm plainEngine "out".toList (laid twins []) "./a.baml".toList
    (.written (pageName "./a.baml".toList "out".toList) ['1']) (laid twins [aPage ['1']]) :=
  .of_run (by decide +kernel) parse_one (by decide +kernel) (by decide +kernel)

theorem twins_second :
    Conversion calm plainEngine "out".toList (laid twins [aPage ['1']]) "./d/a.baml".toList
      (.written (pageName "./d/a.baml".toList "out".toList) ['2']) (laid twins [aPage ['2']]) :=
  .of_run (by decide +kernel) parse_two (by decide +kernel) (by decide +kernel)

theorem twins_prepared (all : Bool) (files : List (List Char)) :
    Prepared twins { Options.default with all, files } "out".toList (laid twins []) plainEngine :=
  ⟨rfl, by decide +kernel, _, _, rfl, rfl⟩

theorem twins_all : Conversions calm plainEngine "out".toList (laid twins [])
    (inputs { Options.default with all := true } (laid twins []))
    [.written (pageName "./a.baml".toList "out".toList) ['1'],
      .written (pageName "./d/a.baml".toList "out".toList) ['2']] (laid twins [aPage ['2']]) := by
  rw [inputs, if_pos rfl, allSources_twins]
  exact .cons twins_first (.cons twins_second (.nil _))

theorem all_pages_written_twins :
    Options.read [['-', 'a']] = .ok { Options.default with all := true } ∧
      ∃ desk, run calm twins [['-', 'a']] = (.ok 0, desk) ∧
        ∃ page, desk.tree.readBytes (pageName "./d/a.baml".toList "out".toList) =
          .ok (Utf8.encode page) := by
  have read : Options.read [['-', 'a']] = .ok { Options.default with all := true } := by
    decide +kernel
  obtain ⟨desk, ran, -⟩ := Conversions.run read (by simp [Conflicting, Options.default]) rfl
    (twins_prepared true []) twins_all
  refine ⟨read, desk, ran, ?_⟩
  obtain ⟨directory, made, engine, outcomes, prepared, -, -, -, turns⟩ :=
    all_pages_written read rfl ran
  obtain ⟨rfl, rfl, rfl⟩ := (twins_prepared true []).unique prepared
  obtain ⟨-, -, page, after, -, -, -, stays⟩ :=
    turns ["./a.baml".toList] "./d/a.baml".toList [] allSources_twins
  exact ⟨page, stays (by simp) fun _ _ _ held => held⟩

def neighbours : FileTree :=
  [(["a.baml".toList], .file (Utf8.encode ['1']) false),
    (["b.baml".toList], .file (Utf8.encode ['2']) false),
    (["template.html".toList], .file (Utf8.encode "%\x7bcontent\x7d%run(x)".toList) false)]

def blotting : Machine where
  start tree _ _ := (.ok ([], 0), tree.put ["out".toList, "a.html".toList] (.file [] false))
  device := .boundless

def startingEngine : Engine := Engine.make "%\x7bcontent\x7d%run(x)".toList [] [] false

def bPage : Location × Entry := (["out".toList, "b.html".toList], .file (Utf8.encode ['2']) false)

theorem allSources_neighbours :
    allSources (laid neighbours []) = ["./a.baml".toList, "./b.baml".toList] := by
  have found : allSources (laid neighbours []) =
      ["./a.baml".toList, "./b.baml".toList].mergeSort textLe := rfl
  rw [found]
  exact List.mergeSort_of_pairwise (by decide)

theorem neighbours_prepared (all : Bool) (files : List (List Char)) :
    Prepared neighbours { Options.default with all, files } "out".toList (laid neighbours [])
      startingEngine :=
  ⟨rfl, by decide +kernel, _, _, rfl, rfl⟩

theorem neighbours_first :
    Conversion blotting startingEngine "out".toList (laid neighbours []) "./a.baml".toList
      (.written (pageName "./a.baml".toList "out".toList) ['1']) (laid neighbours [aPage ['1']]) :=
  .of_run (by decide +kernel) parse_one (by decide +kernel) (by decide +kernel)

theorem neighbours_second :
    Conversion blotting startingEngine "out".toList (laid neighbours [aPage ['1']]) "./b.baml".toList
      (.written (pageName "./b.baml".toList "out".toList) ['2'])
      (laid neighbours [aPage [], bPage]) :=
  .of_run (by decide +kernel) parse_two (by decide +kernel) (by decide +kernel)

theorem neighbours_all : Conversions blotting startingEngine "out".toList (laid neighbours [])
    (inputs { Options.default with all := true } (laid neighbours []))
    [.written (pageName "./a.baml".toList "out".toList) ['1'],
      .written (pageName "./b.baml".toList "out".toList) ['2']]
    (laid neighbours [aPage [], bPage]) := by
  rw [inputs, if_pos rfl, allSources_neighbours]
  exact .cons neighbours_first (.cons neighbours_second (.nil _))

/-- A page is lost to a source with the same name, or to a program. -/
theorem all_pages_collide :
    allSources twins = ["./a.baml".toList, "./d/a.baml".toList] ∧
      pageName "./a.baml".toList "out".toList = "out/a.html".toList ∧
      pageName "./d/a.baml".toList "out".toList = "out/a.html".toList ∧
      runThenRead calm twins ["./a.baml".toList] "out/a.html".toList = (.ok 0, .ok ['1']) ∧
      runThenRead calm twins [['-', 'a']] "out/a.html".toList = (.ok 0, .ok ['2']) ∧
      runThenRead blotting neighbours ["./a.baml".toList] "out/a.html".toList = (.ok 0, .ok ['1']) ∧
      runThenRead blotting neighbours [['-', 'a']] "out/a.html".toList = (.ok 0, .ok []) := by
  have one : Options.read ["./a.baml".toList] =
      .ok { Options.default with files := ["./a.baml".toList] } := by decide
  have all : Options.read [['-', 'a']] = .ok { Options.default with all := true } := by
    decide +kernel
  have agree : ¬ Conflicting { Options.default with files := ["./a.baml".toList] } := by
    simp [Conflicting, Options.default]
  have agree' : ¬ Conflicting { Options.default with all := true } := by
    simp [Conflicting, Options.default]
  refine ⟨allSources_twins, by decide +kernel, by decide +kernel, ?_, ?_, ?_, ?_⟩
  · rw [Conversions.runThenRead one agree rfl (twins_prepared false _) (.cons twins_first (.nil _))]
    decide +kernel
  · rw [Conversions.runThenRead all agree' rfl (twins_prepared true []) twins_all]
    decide +kernel
  · rw [Conversions.runThenRead one agree rfl (neighbours_prepared false _)
      (.cons neighbours_first (.nil _))]
    decide +kernel
  · rw [Conversions.runThenRead all agree' rfl (neighbours_prepared true []) neighbours_all]
    decide +kernel

end BracketMarkup.CommandLine
