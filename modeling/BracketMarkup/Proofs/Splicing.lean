import BracketMarkup.Host.Surroundings
import BracketMarkup.Proofs.Alternatives
import BracketMarkup.Proofs.Results

namespace BracketMarkup

namespace Path

theorem splitLast_append (path : List Char) : (splitLast path).1 ++ (splitLast path).2 = path := by
  obtain ⟨front, whole⟩ : (path.reverse.takeWhile (· != '/')).reverse <:+ path := by
    have taken := List.reverse_suffix.mpr (List.takeWhile_prefix (· != '/') (l := path.reverse))
    rwa [List.reverse_reverse] at taken
  rw [splitLast]
  dsimp only
  generalize (path.reverse.takeWhile (· != '/')).reverse = name at whole ⊢
  subst whole
  rw [List.length_append, Nat.add_sub_cancel, List.take_left]

theorem splitComponent_sublist (name : List Char) : (splitComponent name).1.Sublist name := by
  unfold splitComponent
  dsimp only
  split
  · conv_rhs => rw [← List.takeWhile_append_dropWhile (p := (· == '.')) (l := name)]
    exact (List.Sublist.refl _).append (List.take_sublist _ _)
  · exact List.Sublist.refl _

theorem splitExtension_sublist (path : List Char) : (splitExtension path).1.Sublist path := by
  have kept := (List.Sublist.refl (splitLast path).1).append
    (splitComponent_sublist (splitLast path).2)
  rwa [splitLast_append] at kept

end Path

namespace Template

variable {σ : Type}

theorem Ends.append {opener closer : Char} {left right : List Scanned}
    (h : Ends opener closer 0 left) (later : Ends opener closer 0 right) :
    Ends opener closer 0 (left ++ right) := by
  refine ⟨?_, fun front before => ?_⟩
  · rw [List.count_append, List.count_append, h.1, later.1]
    omega
  · obtain ⟨behind, whole⟩ := before
    rcases List.append_eq_append_iff.mp whole with ⟨rest, rfl, -⟩ | ⟨rest, rfl, more⟩
    · exact h.2 front (List.prefix_append front rest)
    · have bounded := later.2 rest ⟨behind, more.symm⟩
      have total := h.1
      rw [List.count_append, List.count_append]
      omega

theorem Paired.append {opener closer : Char} {left right : List Char}
    (h : Paired opener closer left) (later : Paired opener closer right) :
    Paired opener closer (left ++ right) := by
  have whole := scan_append_of_complete h.complete right
  refine ⟨?_, ?_⟩
  · rw [whole]
    exact h.ends.append later.ends
  · rw [whole, List.mem_append, not_or]
    exact ⟨h.complete, later.complete⟩

theorem paired_plain_append_iff {opener closer : Char} {front : List Char}
    (plain : ∀ c ∈ front, c ≠ escapeMark ∧ c ≠ opener ∧ c ≠ closer) (text : List Char) :
    Paired opener closer (front ++ text) ↔ Paired opener closer text := by
  induction front with
  | nil => exact Iff.rfl
  | cons c front ih =>
    obtain ⟨⟨unmarked, notOpener, notCloser⟩, rest⟩ := List.forall_mem_cons.mp plain
    rw [← ih rest, List.cons_append]
    have first : scan (c :: (front ++ text)) = ⟨false, c⟩ :: scan (front ++ text) :=
      scan_plain_cons unmarked _
    have same : Ends opener closer 0 (⟨false, c⟩ :: scan (front ++ text)) ↔
        Ends opener closer 0 (scan (front ++ text)) :=
      Ends.cons_iff (by simp [notOpener, notCloser])
    have bare : bareMark ≠ ⟨false, c⟩ := fun marks => unmarked (congrArg Scanned.char marks).symm
    constructor
    · rintro ⟨ends, complete⟩
      rw [first] at ends complete
      rw [List.mem_cons, not_or] at complete
      exact ⟨same.mp ends, complete.2⟩
    · rintro ⟨ends, complete⟩
      refine ⟨?_, ?_⟩
      · rw [first]
        exact same.mpr ends
      · rw [first, List.mem_cons, not_or]
        exact ⟨bare, complete⟩

theorem callAt_whole_iff (arguments : List Char) :
    CallAt ('(' :: (arguments ++ [')'])) arguments [] ↔ Paired '(' ')' arguments := by
  rw [← encloses_iff_paired (by decide) arguments []]
  constructor
  · rintro ⟨opened, same, enclosed⟩
    cases same
    exact enclosed
  · exact fun enclosed => ⟨_, rfl, enclosed⟩

theorem infix_cut {text front back : List Char} {c : Char} (absent : c ∉ text)
    (h : text <:+: front ++ c :: back) : text <:+: front ∨ text <:+: back := by
  obtain ⟨before, behind, whole⟩ := h
  rw [List.append_assoc] at whole
  rcases List.append_eq_append_iff.mp whole with ⟨rest, rfl, more⟩ | ⟨rest, rfl, more⟩
  · rcases List.append_eq_append_iff.mp more with ⟨tail, rfl, -⟩ | ⟨tail, rfl, last⟩
    · exact .inl ⟨before, tail, by simp⟩
    · cases tail with
      | nil => exact .inl ⟨before, [], by simp⟩
      | cons d tail =>
        cases last
        exact absurd (by simp) absent
  · cases rest with
    | nil =>
      cases text with
      | nil => exact .inl (List.nil_infix)
      | cons d text =>
        cases more
        exact absurd (by simp) absent
    | cons d rest =>
      cases more
      exact .inr ⟨rest, behind, by simp⟩

section Call

variable (trigger : Trigger) {opened arguments rest value : List Char}

theorem replaceCalls_called (evaluate : List Char → Expansion σ (Except Failure (List Char)))
    (formed : CallAt opened arguments rest) (absent : ¬ trigger.text <:+: rest) :
    replaceCalls trigger evaluate (trigger.text ++ opened) = do
      let value ← valueOf (.failedCall trigger.text arguments) (evaluate arguments)
      return value ++ rest := by
  let values := fun arguments => valueOf (.failedCall trigger.text arguments) (evaluate arguments)
  obtain ⟨size, read, behind⟩ := ((inlineCall_reads trigger).call opened arguments rest).mp formed
  have plain : (inlineCall trigger).replace values rest = pure rest := replace_plain _ _ absent
  have step := replace_call (inlineCall trigger) values read
  rw [behind, plain] at step
  exact step

theorem replaceCalls_open (evaluate : List Char → Expansion σ (Except Failure (List Char)))
    (none : ∀ arguments rest, ¬ CallAt opened arguments rest)
    (absent : ¬ trigger.text <:+: opened) :
    replaceCalls trigger evaluate (trigger.text ++ opened) = do
      report (.openCall trigger.text)
      return trigger.text ++ opened := by
  let values := fun arguments => valueOf (.failedCall trigger.text arguments) (evaluate arguments)
  cases read : (inlineCall trigger).read opened with
  | ok found =>
    obtain ⟨arguments, size⟩ := found
    exact absurd (((inlineCall_reads trigger).call opened arguments _).mpr ⟨size, read, rfl⟩)
      (none arguments _)
  | error problem =>
    have known : problem = .openCall trigger.text :=
      (inlineCall_reads trigger).problem opened problem read
    have plain : (inlineCall trigger).replace values opened = pure opened :=
      replace_plain _ _ absent
    have step := replace_malformed (inlineCall trigger) values read
    rw [plain, known] at step
    exact step

variable {evaluate : List Char → Except Failure (List Char)} {failure : Failure}

theorem gives_called (formed : CallAt opened arguments rest)
    (absent : ¬ trigger.text <:+: rest) (ok : evaluate arguments = .ok value) :
    Gives (σ := σ) (replaceCalls trigger (fun arguments => return evaluate arguments)
      (trigger.text ++ opened)) (value ++ rest) [] "" := by
  rw [replaceCalls_called trigger _ formed absent, valueOf, pure_bind, ok, pure_bind]
  exact Gives.pure _

theorem gives_failed (formed : CallAt opened arguments rest)
    (absent : ¬ trigger.text <:+: rest) (failed : evaluate arguments = .error failure) :
    Gives (σ := σ) (replaceCalls trigger (fun arguments => return evaluate arguments)
      (trigger.text ++ opened)) rest [.failedCall trigger.text arguments failure] "" := by
  rw [replaceCalls_called trigger _ formed absent, valueOf, pure_bind, failed, bind_assoc]
  simp only [pure_bind, List.nil_append]
  exact Gives.report _ rest

theorem gives_open (none : ∀ arguments rest, ¬ CallAt opened arguments rest)
    (absent : ¬ trigger.text <:+: opened) :
    Gives (σ := σ) (replaceCalls trigger (fun arguments => return evaluate arguments)
      (trigger.text ++ opened)) (trigger.text ++ opened) [.openCall trigger.text] "" := by
  rw [replaceCalls_open trigger _ none absent]
  exact Gives.report _ (trigger.text ++ opened)

end Call

/-- How a variable is referred to: what stands between the braces, unescaped, is its name. -/
structure RefersTo (bindings : Bindings) (written value : List Char) : Prop where
  paired : Paired '\x7b' '\x7d' written
  bound : bindings.value? (unescape written) = some value
  noLoop : ¬ forfilesTrigger.text <:+: written

section Splice

variable {bindings : Bindings} {written value front back : List Char}

theorem RefersTo.replaceVariables (refers : RefersTo bindings written value)
    {allowed : Char → Prop} (signs : SignsBefore allowed front) (brace : ¬ allowed '\x7b')
    (plain : '%' ∉ back) :
    replaceVariables (σ := σ) bindings (front ++ (reference written ++ back)) =
      pure (front ++ (value ++ back)) := by
  have rest : Template.replaceVariables (σ := σ) bindings back = pure back := by
    rw [replaceVariables_eq]
    exact replace_plain _ _ fun found => plain (found.subset List.mem_cons_self)
  rw [replaceVariables_eq, replace_signs _ _ rfl brace signs, ← replaceVariables_eq,
    replaceVariables_reference refers.paired refers.bound, rest]
  simp only [pure_bind]

theorem RefersTo.notLoop (refers : RefersTo bindings written value) {allowed : Char → Prop}
    (signs : SignsBefore allowed front) (letter : ¬ allowed 'f') (plain : '%' ∉ back) :
    ¬ forfilesTrigger.text <:+: front ++ (reference written ++ back) := by
  intro found
  have shape : front ++ (reference written ++ back) =
      (front ++ ['%']) ++ '\x7b' :: (written ++ '\x7d' :: back) := by
    simp [reference, variableReference, Trigger.text]
  rw [shape] at found
  rcases infix_cut (by decide) found with inside | inside
  · have opened : SignsBefore (fun d => allowed d ∨ d = '\x7b') (front ++ ['%', '\x7b']) :=
      (signs.mono fun d => .inl).append (.sign (.inr rfl) (by decide) .nil)
    have longer : front ++ ['%'] <+: front ++ ['%', '\x7b'] := ⟨['\x7b'], by simp⟩
    have other : ¬ (allowed 'f' ∨ 'f' = '\x7b') := by simp [letter]
    exact opened.not_infix other (inside.trans longer.isInfix)
  · rcases infix_cut (by decide) inside with inside | inside
    · exact refers.noLoop inside
    · exact plain (inside.subset List.mem_cons_self)

end Splice

/-- From a trace on, an expansion gives a text, reports nothing and leaves the host alone. -/
def GivesQuietly (expansion : Expansion σ (List Char)) (trace : Trace σ) (value : List Char) : Prop :=
  ∃ printed, expansion.run trace = (.ok value, trace.extend trace.host [] printed)

theorem Gives.quietly_iff {expansion : Expansion σ (List Char)} {value other : List Char}
    {diagnostics : List Diagnostic} {printed : String}
    (h : Gives expansion value diagnostics printed) (trace : Trace σ) :
    GivesQuietly expansion trace other ↔ value = other ∧ diagnostics = [] := by
  constructor
  · rintro ⟨more, run⟩
    exact h.outcome run
  · rintro ⟨rfl, rfl⟩
    exact ⟨printed, h trace⟩

/-- The change of extension of the path that a variable holds. -/
def setextCall (written : List Char) : List Char :=
  "%setext(html:".toList ++ (reference written ++ [')'])

/-- The choice between the text that a variable holds and another one. -/
def altCall (written : List Char) : List Char :=
  "%alt(".toList ++ (reference written ++ (':' :: untitled ++ [')']))

example : setextCall ['x'] = "%setext(html:%\x7bx\x7d)".toList ∧
    altCall ['x'] = "%alt(%\x7bx\x7d:Untitled)".toList := by decide

section Expand

variable (environment : Environment σ) {engine : Engine} {written value : List Char}
  {diagnostics : List Diagnostic}

theorem expand_setextCall (refers : RefersTo engine.bindings written value) (plain : '%' ∉ value)
    {renamed : List Char} (names : Gives (σ := σ) (replaceCalls setextTrigger
      (fun arguments => return replaceExtension arguments) ("%setext(html:".toList ++ (value ++ [')'])))
      renamed diagnostics "")
    (signs : SignsBefore (· = 's') renamed) :
    ∃ printed, Gives (engine.expand environment (setextCall written)) renamed diagnostics printed := by
  have front : SignsBefore (· = 's') "%setext(html:".toList :=
    .sign rfl (by decide) (.of_notMem (by decide))
  have inserted : SignsBefore (· = 's') ("%setext(html:".toList ++ (value ++ [')'])) :=
    front.append (.of_notMem (by simp [plain]))
  have all := @Gives.expand σ environment engine _ _ _ _ _ _ _
    (refers.notLoop front (by decide) (by decide))
    (refers.replaceVariables front (by decide) (by decide)) (inserted.not_infix (by decide)) names
    (Gives.unchanged (signs.not_infix (by decide))) (replace_plain _ _ (signs.not_infix (by decide)))
  rw [List.append_nil] at all
  exact ⟨_, all⟩

theorem expand_altCall (refers : RefersTo engine.bindings written value) (plain : '%' ∉ value)
    {chosen : List Char} (choices : Gives (σ := σ) (replaceCalls altTrigger
      (fun arguments => return .ok (firstAlternative arguments))
      ("%alt(".toList ++ (value ++ (':' :: untitled ++ [')'])))) chosen diagnostics "")
    (signs : SignsBefore (· = 'a') chosen) :
    ∃ printed, Gives (engine.expand environment (altCall written)) chosen diagnostics printed := by
  have front : SignsBefore (· = 'a') "%alt(".toList :=
    .sign rfl (by decide) (.of_notMem (by decide))
  have inserted : SignsBefore (· = 'a') ("%alt(".toList ++ (value ++ (':' :: untitled ++ [')']))) :=
    front.append ((SignsBefore.of_notMem plain).append (.of_notMem (by decide)))
  have all := @Gives.expand σ environment engine _ _ _ _ _ _ _
    (refers.notLoop front (by decide) (by decide))
    (refers.replaceVariables front (by decide) (by decide)) (inserted.not_infix (by decide))
    (Gives.unchanged (inserted.not_infix (by decide))) choices
    (replace_plain _ _ (signs.not_infix (by decide)))
  rw [List.nil_append] at all
  exact ⟨_, all⟩

theorem replaceExtension_html (filled : value ≠ []) :
    replaceExtension ("html:".toList ++ value) =
      .ok ((Path.splitExtension value).1 ++ ".html".toList) := by
  obtain ⟨c, rest, rfl⟩ := List.exists_cons_of_ne_nil filled
  rfl

theorem mem_of_replaceExtension {arguments : List Char} {c : Char}
    (h : replaceExtension arguments = .ok value) (member : c ∈ value) :
    c = '.' ∨ c ∈ arguments := by
  unfold replaceExtension at h
  dsimp only at h
  split at h
  · cases h
  · cases h
  · rename_i colon path _ behind
    have inside : path.Sublist arguments :=
      (List.sublist_cons_self colon path).trans (behind ▸ List.dropWhile_sublist _)
    have stem : ∀ d ∈ (Path.splitExtension path).1, d ∈ arguments :=
      fun d kept => inside.subset ((Path.splitExtension_sublist path).subset kept)
    cases h
    split at member
    · exact .inr (stem c member)
    · rcases List.mem_append.mp member with kept | added
      · exact .inr (stem c kept)
      · rcases List.mem_cons.mp added with dot | letter
        · exact .inl dot
        · exact .inr ((List.takeWhile_sublist _).subset letter)

theorem callAt_html_cases {arguments rest : List Char}
    (formed : CallAt ("(html:".toList ++ (value ++ [')'])) arguments rest) :
    (rest = [] ∧ Paired '(' ')' value) ∨ ∃ more, rest = more ++ [')'] := by
  have front : ∀ c ∈ "html:".toList, c ≠ escapeMark ∧ c ≠ '(' ∧ c ≠ ')' := by simp [escapeMark]
  have text := formed.text_eq
  rcases List.eq_nil_or_concat rest with rfl | ⟨more, last, rfl⟩
  · have joined : ("html:".toList ++ value) ++ [')'] = arguments ++ [')'] := by simpa using text
    have whole : "html:".toList ++ value = arguments := (List.append_inj' joined rfl).1
    have call : CallAt ('(' :: (arguments ++ [')'])) arguments [] := by
      rw [← text]
      exact formed
    have paired := (callAt_whole_iff arguments).mp call
    rw [← whole] at paired
    exact .inl ⟨rfl, (paired_plain_append_iff front value).mp paired⟩
  · have joined : ("(html:".toList ++ value) ++ [')'] = ('(' :: (arguments ++ ')' :: more)) ++ [last] := by
      simpa using text
    have closer := (List.append_inj' joined rfl).2
    refine .inr ⟨more, ?_⟩
    rw [List.concat_eq_append, closer]

section

variable (refers : RefersTo engine.bindings written value) (plain : '%' ∉ value) (trace : Trace σ)
include refers plain

theorem setextCall_of_paired (filled : value ≠ []) (paired : Paired '(' ')' value) :
    GivesQuietly (engine.expand environment (setextCall written)) trace
      ((Path.splitExtension value).1 ++ ".html".toList) := by
  have front : ∀ c ∈ "html:".toList, c ≠ escapeMark ∧ c ≠ '(' ∧ c ≠ ')' := by simp [escapeMark]
  have formed : CallAt ('(' :: (("html:".toList ++ value) ++ [')'])) ("html:".toList ++ value) [] :=
    (callAt_whole_iff _).mpr ((paired_plain_append_iff front value).mpr paired)
  have names := gives_called (σ := σ) setextTrigger formed (by simp [Trigger.text])
    (replaceExtension_html filled)
  have kept : '%' ∉ (Path.splitExtension value).1 ++ ".html".toList := by
    rw [List.mem_append, not_or]
    exact ⟨fun inside => plain ((Path.splitExtension_sublist value).subset inside), by decide⟩
  rw [List.append_nil] at names
  obtain ⟨printed, gives⟩ := expand_setextCall environment refers plain names
    (.of_notMem kept)
  exact (gives.quietly_iff trace).mpr ⟨rfl, rfl⟩

theorem paired_of_setextCall {stem : List Char}
    (quiet : GivesQuietly (engine.expand environment (setextCall written)) trace
      (stem ++ ".html".toList)) : Paired '(' ')' value := by
  have opened : '%' ∉ "(html:".toList ++ (value ++ [')']) := by simp [plain]
  have absent : ∀ rest : List Char, '%' ∉ rest → ¬ setextTrigger.text <:+: rest :=
    fun rest none found => none (found.subset List.mem_cons_self)
  by_cases called : ∃ arguments rest, CallAt ("(html:".toList ++ (value ++ [')'])) arguments rest
  · obtain ⟨arguments, rest, formed⟩ := called
    have inside : '%' ∉ arguments ∧ '%' ∉ rest := by
      rw [formed.text_eq] at opened
      simpa using opened
    rcases callAt_html_cases formed with ⟨-, paired⟩ | ⟨more, rfl⟩
    · exact paired
    -- What follows the call ends in the closer, which no changed path does.
    · exfalso
      cases result : replaceExtension arguments with
      | ok renamed =>
        have kept : '%' ∉ renamed ++ (more ++ [')']) := by
          rw [List.mem_append, not_or]
          refine ⟨fun member => ?_, inside.2⟩
          rcases mem_of_replaceExtension result member with dot | listed
          · exact absurd dot (by decide)
          · exact inside.1 listed
        obtain ⟨printed, gives⟩ := expand_setextCall environment refers plain
          (gives_called (σ := σ) setextTrigger formed (absent _ inside.2) result) (.of_notMem kept)
        have same := congrArg List.getLast? ((gives.quietly_iff trace).mp quiet).1
        simp at same
      | error failure =>
        obtain ⟨printed, gives⟩ := expand_setextCall environment refers plain
          (gives_failed (σ := σ) setextTrigger formed (absent _ inside.2) result)
          (.of_notMem inside.2)
        exact absurd ((gives.quietly_iff trace).mp quiet).2 (by simp)
  · have none : ∀ arguments rest, ¬ CallAt ("(html:".toList ++ (value ++ [')'])) arguments rest :=
      fun arguments rest formed => called ⟨arguments, rest, formed⟩
    obtain ⟨printed, gives⟩ := expand_setextCall environment refers plain
      (gives_open (σ := σ) setextTrigger none (absent _ opened))
      (.sign rfl (by decide) ((SignsBefore.of_notMem (by decide)).append (.of_notMem opened)))
    exact absurd ((gives.quietly_iff trace).mp quiet).2 (by simp)

theorem altCall_quietly_iff (filled : value ≠ []) (paired : Paired '(' ')' value) :
    GivesQuietly (engine.expand environment (altCall written)) trace value ↔
      PlainAlternative value := by
  have back : Paired '(' ')' (':' :: untitled) := by
    have empty : Paired '(' ')' ([] : List Char) := ⟨⟨rfl, by simp⟩, by simp⟩
    have front : ∀ c ∈ ':' :: untitled, c ≠ escapeMark ∧ c ≠ '(' ∧ c ≠ ')' := by
      intro c member
      refine ⟨?_, ?_, ?_⟩ <;> rintro rfl <;> exact absurd member (by decide)
    simpa using (paired_plain_append_iff front []).mpr empty
  have formed : CallAt ('(' :: ((value ++ ':' :: untitled) ++ [')'])) (value ++ ':' :: untitled) [] :=
    (callAt_whole_iff _).mpr (paired.append back)
  have choices : Gives (σ := σ) (replaceCalls altTrigger
      (fun arguments => return .ok (firstAlternative arguments))
      ("%alt(".toList ++ (value ++ (':' :: untitled ++ [')']))))
      (firstAlternative (value ++ ':' :: untitled)) [] "" := by
    have called : Gives (σ := σ) (replaceCalls altTrigger
        (fun arguments => return .ok (firstAlternative arguments))
        (altTrigger.text ++ '(' :: ((value ++ ':' :: untitled) ++ [')'])))
        (firstAlternative (value ++ ':' :: untitled) ++ []) [] "" :=
      gives_called altTrigger formed (by simp [Trigger.text]) rfl
    simpa [altTrigger, Trigger.text] using called
  have kept : '%' ∉ firstAlternative (value ++ ':' :: untitled) := by
    intro member
    have inside := mem_of_mem_firstAlternative (by decide) member
    rw [List.mem_append] at inside
    exact inside.elim plain (by decide)
  obtain ⟨printed, gives⟩ := expand_altCall environment refers plain choices
    (.of_notMem kept)
  rw [gives.quietly_iff, firstAlternative_untitled paired.complete filled]
  exact and_iff_left rfl

end

/-- Which values a call takes as they are: the change of extension those whose parentheses are in pairs
    and that end in no mark of their own, and the choice, of those, just the plain ones. -/
theorem inserted_value_kept_iff (refers : RefersTo engine.bindings written value)
    (filled : value ≠ []) (plain : '%' ∉ value) (trace : Trace σ) :
    (GivesQuietly (engine.expand environment (setextCall written)) trace
        ((Path.splitExtension value).1 ++ ".html".toList) ↔ Paired '(' ')' value) ∧
      (Paired '(' ')' value → (GivesQuietly (engine.expand environment (altCall written)) trace value ↔
        PlainAlternative value)) :=
  ⟨⟨paired_of_setextCall environment refers plain trace,
      setextCall_of_paired environment refers plain trace filled⟩,
    altCall_quietly_iff environment refers plain trace filled⟩

theorem inserted_value_kept_path :
    let environment : Environment Unit :=
      { list := fun _ _ => .error (.refused "none")
        fileBindings := fun _ _ => .ok []
        start := fun host _ _ => (.error "none", host) }
    let value := "posts/\"b:c\" (1).baml".toList
    let engine := Engine.make [] [] [("x".toList, value)] true
    let trace : Trace Unit := ⟨(), [], ""⟩
    RefersTo engine.bindings ['x'] value ∧ value ≠ [] ∧ '%' ∉ value ∧
      GivesQuietly (engine.expand environment (setextCall ['x'])) trace
        "posts/\"b:c\" (1).html".toList ∧
      GivesQuietly (engine.expand environment (altCall ['x'])) trace value := by
  intro environment value engine trace
  have refers : RefersTo engine.bindings ['x'] value := by
    refine ⟨?_, rfl, fun found => absurd found.length_le (by decide)⟩
    have enclosed : enclosed? '\x7b' '\x7d' ['\x7b', 'x', '\x7d'] = some (['x'], []) := rfl
    exact (encloses_iff_paired (by decide) _ []).mp
      ((enclosed?_cons_iff (by decide) (by decide) _ _ _).mp enclosed)
  have paired : Paired '(' ')' value := by
    have enclosed : enclosed? '(' ')' ('(' :: (value ++ [')'])) = some (value, []) := rfl
    exact (callAt_whole_iff value).mp ((enclosed?_call_iff _ _ _).mp enclosed)
  have alone : (readAlternatives false (value.map (⟨false, ·⟩))).length = 1 := rfl
  have chosen : PlainAlternative value := by
    refine ⟨by decide, by decide, ?_, fun inside same => ?_⟩
    · exact (colons_plain_iff value).mp fun front back => quotedAfter_of_unsplit alone
    · have first : some 'p' = some '"' := congrArg List.head? same
      exact absurd first (by decide)
  have kept := inserted_value_kept_iff environment refers (by decide) (by decide) trace
  exact ⟨refers, by decide, by decide, kept.1.mpr paired, (kept.2 paired).mpr chosen⟩

theorem inserted_value_cut :
    let environment := Host.surroundings fun tree _ _ => (.error "none", tree)
    let engine := Engine.make [] [] [("x".toList, "a:b".toList)] false
    ¬ GivesQuietly (engine.expand environment "%alt(%\x7bx\x7d:Untitled)".toList) ⟨[], [], ""⟩
      "a:b".toList := by
  rintro environment engine ⟨printed, run⟩
  have cut : ((engine.expand environment "%alt(%\x7bx\x7d:Untitled)".toList).run ⟨[], [], ""⟩).1 =
      .ok "a".toList := rfl
  rw [run] at cut
  exact absurd (Except.ok.inj cut) (by decide)

end Expand

end Template

end BracketMarkup
