import BracketMarkup.Proofs.LoopEntries

namespace BracketMarkup

theorem textLe_antisymm {s t : List Char} (first : textLe s t) (second : textLe t s) : s = t := by
  induction s generalizing t with
  | nil =>
    cases t with
    | nil => rfl
    | cons d t => cases second
  | cons c s ih =>
    cases t with
    | nil => cases first
    | cons d t =>
      by_cases same : c = d
      · subst same
        simp only [textLe, if_pos] at first second
        rw [ih first second]
      · simp only [textLe, if_neg same, if_neg (Ne.symm same), decide_eq_true_eq] at first second
        omega

theorem textLe_refl (s : List Char) : textLe s s := by
  simpa using textLe_total s s

theorem pairwise_mergeSort_textLe (texts : List (List Char)) :
    (texts.mergeSort textLe).Pairwise (textLe · ·) := by
  refine List.pairwise_mergeSort ?_ textLe_total texts
  exact fun _ _ _ => textLe_trans

theorem mergeSort_textLe_of_perm {names listing : List (List Char)} (h : listing.Perm names) :
    listing.mergeSort textLe = names.mergeSort textLe := by
  refine List.Perm.eq_of_pairwise (fun _ _ _ _ => textLe_antisymm)
    (pairwise_mergeSort_textLe listing) (pairwise_mergeSort_textLe names) ?_
  exact ((List.mergeSort_perm listing _).trans h).trans (List.mergeSort_perm names _).symm

theorem pairwise_mergeSort_stable {α : Type} {le : α → α → Bool} {before : α → α → Prop}
    (trans : ∀ a b c, le a b → le b c → le a c) (total : ∀ a b, le a b || le b a)
    {items : List α} (ordered : items.Pairwise before) :
    (items.mergeSort le).Pairwise fun a b => le b a → before a b := by
  induction items with
  | nil => simp
  | cons item rest ih =>
    -- The first item comes to stand behind those that are strictly smaller, and before its equals.
    obtain ⟨smaller, others, sorted, split, less⟩ := List.mergeSort_cons trans total item rest
    obtain ⟨first, later⟩ := List.pairwise_cons.mp ordered
    have kept := ih later
    rw [split] at kept
    obtain ⟨front, back, across⟩ := List.pairwise_append.mp kept
    have following : ∀ b ∈ others, before item b := fun b member =>
      first b ((List.mergeSort_perm rest le).mem_iff.mp (by simp [split, member]))
    rw [sorted]
    refine List.pairwise_append.mpr ⟨front, List.pairwise_cons.mpr ⟨?_, back⟩, ?_⟩
    · exact fun b member _ => following b member
    · intro a member b found equal
      rcases List.mem_cons.mp found with rfl | found
      · have strict := less a member
        rw [equal] at strict
        cases strict
      · exact across a member b found equal

namespace Bindings

theorem value?_append (front back : Bindings) (name : List Char) :
    (front ++ back).value? name = (front.value? name).or (back.value? name) := by
  induction front with
  | nil => rfl
  | cons binding rest ih =>
    simp only [List.cons_append, value?]
    split
    · rfl
    · exact ih

theorem value?_override (bindings newer : Bindings) (name : List Char) :
    (bindings.override newer).value? name =
      (value? newer.reverse name).or (bindings.value? name) := by
  induction newer generalizing bindings with
  | nil => rfl
  | cons binding rest ih =>
    rw [override, List.foldl_cons, ← override, ih, value?_assign, List.reverse_cons, value?_append,
      Option.or_assoc, value?]
    split <;> rfl

end Bindings

namespace Template

variable {σ : Type}

/-- The value of a variable for a file: the name of the file if the loop binds the variable to it,
    else what the file gives, else what the template had before. -/
def Loop.value? (loop : Loop) (bindings found : Bindings) (name sought : List Char) :
    Option (List Char) :=
  if loop.binds = some sought then some name
  else (Bindings.value? found.reverse sought).or (bindings.value? sought)

theorem bind_value? (loop : Loop) (bindings found : Bindings) (name sought : List Char) :
    (loop.bind bindings found name).value? sought =
      loop.value? bindings found name sought := by
  rw [Loop.bind, Loop.value?]
  cases loop.binds with
  | none => exact Bindings.value?_override bindings found sought
  | some own =>
    simp only [Bindings.value?_assign, Option.some.injEq, Bindings.value?_override]

def Loop.Precedes (loop : Loop) (a b : Loop.Entry) : Prop :=
  if loop.sortKey.isSome then
    (if loop.descending then textLe b.key a.key else textLe a.key b.key) ∧
      (a.key = b.key → textLe a.name b.name)
  else textLe a.name b.name

instance (loop : Loop) (a b : Loop.Entry) : Decidable (loop.Precedes a b) :=
  inferInstanceAs (Decidable (ite _ _ _))

section

variable (loop : Loop) (environment : Environment σ) (host : σ) (bindings : Bindings)
  (directory body : List Char)

structure Loop.RunsOver (name : List Char) : Prop where
  notExcluded : ∀ pattern ∈ loop.excluded, matchesName pattern name = false
  included : loop.included ≠ [] → ∃ pattern ∈ loop.included, matchesName pattern name = true
  readable : ∃ found, environment.fileBindings host (Path.join directory name) = .ok found

structure Loop.Makes (entry : Loop.Entry) : Prop where
  bound : ∃ found,
    environment.fileBindings host (Path.join directory entry.name) = .ok found ∧
      ∀ sought, entry.bound.value? sought = loop.value? bindings found entry.name sought
  expanded : ∃ problems,
    Gives (σ := σ) (replaceVariables entry.bound body) entry.expanded problems ""
  key : ∀ sortKey, loop.sortKey = some sortKey → ∃ problems,
    Gives (σ := σ) (replaceVariables entry.bound sortKey) entry.key problems ""

theorem selects_iff (name : List Char) : loop.selects name ↔
    (∀ pattern ∈ loop.excluded, matchesName pattern name = false) ∧
      (loop.included ≠ [] → ∃ pattern ∈ loop.included, matchesName pattern name = true) := by
  simp only [Loop.selects, Bool.and_eq_true, Bool.not_eq_true', List.any_eq_false,
    Bool.not_eq_true, Bool.or_eq_true, List.isEmpty_iff, List.any_eq_true, ne_eq,
    or_iff_not_imp_left]

theorem entry?_isSome_iff (name : List Char) :
    (loop.entry? environment host bindings directory body name).isSome ↔
      ∃ found, environment.fileBindings host (Path.join directory name) = .ok found := by
  rw [Loop.entry?]
  cases environment.fileBindings host (Path.join directory name) <;> simp

theorem runsOver_iff (name : List Char) : loop.RunsOver environment host directory name ↔
    loop.selects name ∧
      (loop.entry? environment host bindings directory body name).isSome := by
  rw [selects_iff, entry?_isSome_iff]
  constructor
  · rintro ⟨notExcluded, included, readable⟩
    exact ⟨⟨notExcluded, included⟩, readable⟩
  · rintro ⟨⟨notExcluded, included⟩, readable⟩
    exact ⟨notExcluded, included, readable⟩

instance (name : List Char) : Decidable (loop.RunsOver environment host directory name) :=
  decidable_of_iff _ (runsOver_iff loop environment host [] directory [] name).symm

/-- The entries of a loop over a directory with the files `names`, in their order. -/
structure Loop.Lists (names : List (List Char)) (entries : List Loop.Entry) : Prop where
  files : (entries.map (·.name)).Perm (names.filter (loop.RunsOver environment host directory ·))
  made : ∀ entry ∈ entries, loop.Makes environment host bindings directory body entry
  ordered : entries.Pairwise loop.Precedes

def Loop.Before (name later : List Char) : Prop :=
  ∃ a b, loop.entry? environment host bindings directory body name = some a ∧
    loop.entry? environment host bindings directory body later = some b ∧ loop.Precedes a b

def Loop.textOf (name : List Char) : List Char :=
  ((loop.entry? environment host bindings directory body name).map (·.expanded)).getD []

theorem entry?_name (name : List Char) :
    (loop.entry? environment host bindings directory body name).map (·.name) =
      Option.guard (fun name =>
        (loop.entry? environment host bindings directory body name).isSome) name := by
  cases answer : environment.fileBindings host (Path.join directory name) <;>
    simp [Loop.entry?, Loop.entry, Option.guard, answer]

theorem entries_names (names : List (List Char)) :
    (loop.entries environment host bindings directory body names).map (·.name) =
      (names.mergeSort textLe).filter (loop.RunsOver environment host directory ·) := by
  rw [Loop.entries, List.map_filterMap,
    funext (entry?_name loop environment host bindings directory body),
    List.filterMap_eq_filter, List.filter_filter]
  refine List.filter_congr fun name _ => ?_
  rw [Bool.eq_iff_iff, Bool.and_eq_true, and_comm, decide_eq_true_iff,
    runsOver_iff loop environment host bindings directory body name]

end

section

variable {loop : Loop} {environment : Environment σ} {host : σ} {bindings : Bindings}
  {directory body : List Char} {names : List (List Char)}

theorem makes_entry {name : List Char} {found : Bindings}
    (answer : environment.fileBindings host (Path.join directory name) = .ok found) :
    loop.Makes environment host bindings directory body (loop.entry bindings body name found) where
  bound := ⟨found, answer, bind_value? loop bindings found name⟩
  expanded := ⟨_, replaceVariables_gives (loop.bind bindings found name) body⟩
  key sortKey asked := by
    rw [Loop.entry, asked]
    exact ⟨_, replaceVariables_gives (loop.bind bindings found name) sortKey⟩

theorem makes_of_entries {entry : Loop.Entry}
    (member : entry ∈ loop.entries environment host bindings directory body names) :
    loop.Makes environment host bindings directory body entry := by
  obtain ⟨found, answer, same⟩ := entry_of_entries member
  rw [same]
  exact makes_entry answer

theorem arrange_perm (loop : Loop) (entries : List Loop.Entry) :
    (loop.arrange entries).Perm entries := by
  rw [Loop.arrange]
  split
  · exact List.mergeSort_perm entries loop.keyLe
  · exact .refl entries

theorem keyLe_total (loop : Loop) (a b : Loop.Entry) : loop.keyLe a b || loop.keyLe b a := by
  unfold Loop.keyLe
  split
  · exact textLe_total b.key a.key
  · exact textLe_total a.key b.key

theorem keyLe_trans (loop : Loop) (a b c : Loop.Entry) (first : loop.keyLe a b)
    (second : loop.keyLe b c) : loop.keyLe a c := by
  unfold Loop.keyLe at *
  split_ifs at *
  · exact textLe_trans second first
  · exact textLe_trans first second

theorem keyLe_of_key_eq (loop : Loop) {a b : Loop.Entry} (same : a.key = b.key) :
    loop.keyLe a b := by
  rw [Loop.keyLe, same, ite_self]
  exact textLe_refl b.key

theorem arrange_ordered {entries : List Loop.Entry}
    (named : entries.Pairwise fun a b => textLe a.name b.name) :
    (loop.arrange entries).Pairwise loop.Precedes := by
  unfold Loop.arrange Loop.Precedes
  split
  · have sorted := List.pairwise_mergeSort (keyLe_trans loop) (keyLe_total loop) entries
    have kept := pairwise_mergeSort_stable (keyLe_trans loop) (keyLe_total loop) named
    refine (sorted.and kept).imp fun both => ⟨?_, ?_⟩
    · have first := both.1
      rwa [Loop.keyLe] at first
    · exact fun same => both.2 (keyLe_of_key_eq loop same.symm)
  · exact named

theorem arrange_lists (loop : Loop) (environment : Environment σ) (host : σ) (bindings : Bindings)
    (directory body : List Char) (names : List (List Char)) :
    loop.Lists environment host bindings directory body names
      (loop.arrange (loop.entries environment host bindings directory body names)) where
  files := by
    refine ((arrange_perm loop _).map _).trans ?_
    rw [entries_names]
    exact (List.mergeSort_perm names textLe).filter _
  made entry member := makes_of_entries ((arrange_perm loop _).mem_iff.mp member)
  ordered := by
    refine arrange_ordered ?_
    have named := (pairwise_mergeSort_textLe names).filter
      (loop.RunsOver environment host directory ·)
    rwa [← entries_names loop environment host bindings directory body, List.pairwise_map] at named

theorem inserted_congr {bound other : Bindings}
    (same : ∀ sought, bound.value? sought = other.value? sought) (text : List Char) :
    inserted bound text = inserted other text := by
  unfold inserted
  congr 1
  funext piece
  cases piece with
  | literal c => rfl
  | malformed problem => rfl
  | call name => rw [Piece.inserted, Piece.inserted, same]

theorem Gives.eq_inserted {bound : Bindings} {text value : List Char} {problems : List Diagnostic}
    (host : σ) (h : Gives (σ := σ) (replaceVariables bound text) value problems "") :
    value = inserted bound text := by
  have both := (h ⟨host, [], ""⟩).symm.trans (replaceVariables_gives bound text ⟨host, [], ""⟩)
  injection both with values
  exact Except.ok.inj values

theorem Loop.Makes.determined {entry : Loop.Entry}
    (h : loop.Makes environment host bindings directory body entry) :
    ∃ made, loop.entry? environment host bindings directory body entry.name = some made ∧
      entry.expanded = made.expanded ∧ entry.name = made.name ∧
      (loop.sortKey.isSome → entry.key = made.key) := by
  obtain ⟨found, answer, values⟩ := h.bound
  have same : ∀ sought, entry.bound.value? sought =
      (loop.bind bindings found entry.name).value? sought :=
    fun sought => (values sought).trans (bind_value? loop bindings found entry.name sought).symm
  refine ⟨loop.entry bindings body entry.name found, ?_, ?_, rfl, fun keyed => ?_⟩
  · rw [Loop.entry?, answer]
  · obtain ⟨problems, expanded⟩ := h.expanded
    exact (expanded.eq_inserted host).trans (inserted_congr same body)
  · obtain ⟨sortKey, asked⟩ := Option.isSome_iff_exists.mp keyed
    obtain ⟨problems, key⟩ := h.key sortKey asked
    rw [Loop.entry, asked]
    exact (key.eq_inserted host).trans (inserted_congr same sortKey)

theorem Loop.Precedes.antisymm {a b : Loop.Entry} (first : loop.Precedes a b)
    (second : loop.Precedes b a) : a.name = b.name := by
  unfold Loop.Precedes at first second
  by_cases keyed : loop.sortKey.isSome = true
  · rw [if_pos keyed] at first second
    have same : a.key = b.key := by
      by_cases down : loop.descending = true
      · rw [if_pos down] at first second
        exact textLe_antisymm second.1 first.1
      · rw [if_neg down] at first second
        exact textLe_antisymm first.1 second.1
    exact textLe_antisymm (first.2 same) (second.2 same.symm)
  · rw [if_neg keyed] at first second
    exact textLe_antisymm first second

theorem Loop.Precedes.congr {a b a' b' : Loop.Entry} (h : loop.Precedes a b)
    (left : a.name = a'.name ∧ (loop.sortKey.isSome → a.key = a'.key))
    (right : b.name = b'.name ∧ (loop.sortKey.isSome → b.key = b'.key)) :
    loop.Precedes a' b' := by
  unfold Loop.Precedes at *
  split_ifs at * with keyed
  · rwa [← left.1, ← right.1, ← left.2 keyed, ← right.2 keyed]
  · rwa [← left.1, ← right.1, ← left.2 keyed, ← right.2 keyed]
  · rwa [← left.1, ← right.1]

theorem Loop.Before.antisymm {name later : List Char}
    (first : loop.Before environment host bindings directory body name later)
    (second : loop.Before environment host bindings directory body later name) :
    name = later := by
  obtain ⟨a, b, left, right, first⟩ := first
  obtain ⟨b', a', right', left', second⟩ := second
  cases left.symm.trans left'
  cases right.symm.trans right'
  have same := first.antisymm second
  obtain ⟨found, -, rfl⟩ := entry?_eq_some left
  obtain ⟨found', -, rfl⟩ := entry?_eq_some right
  exact same

section

variable {entries : List Loop.Entry}
  (h : loop.Lists environment host bindings directory body names entries)
include h

theorem Loop.Lists.pairwise_names :
    (entries.map (·.name)).Pairwise (loop.Before environment host bindings directory body) := by
  refine List.pairwise_map.mpr (h.ordered.imp_of_mem fun {a b} here there precedes => ?_)
  obtain ⟨a', left, -, alike⟩ := (h.made a here).determined
  obtain ⟨b', right, -, alike'⟩ := (h.made b there).determined
  exact ⟨a', b', left, right, precedes.congr alike alike'⟩

theorem Loop.Lists.text_eq : entries.flatMap (·.expanded) =
    (entries.map (·.name)).flatMap (loop.textOf environment host bindings directory body) := by
  rw [List.flatMap_map]
  refine List.flatMap_congr fun entry member => ?_
  obtain ⟨made, answer, expanded, -⟩ := (h.made entry member).determined
  rw [Loop.textOf, answer, expanded]
  rfl

theorem Loop.Lists.determined {others : List Loop.Entry}
    (other : loop.Lists environment host bindings directory body names others) :
    entries.flatMap (·.expanded) = others.flatMap (·.expanded) := by
  have same : entries.map (·.name) = others.map (·.name) :=
    List.Perm.eq_of_pairwise (fun _ _ _ _ => Loop.Before.antisymm) h.pairwise_names
      other.pairwise_names (h.files.trans other.files.symm)
  rw [h.text_eq, other.text_eq, same]

end

/-- A loop is a selection of files, the body expanded for each and a stable sort, and its directory
    may be listed in any order. -/
theorem evaluateLoop_selects_and_sorts {environment : Environment σ} {base : List Char}
    (bindings : Bindings) {block : Block} (trace : Trace σ) {directory : List Char}
    {names : List (List Char)}
    (named : (Loop.asked block.arguments).directory = some directory)
    (listed : environment.list trace.host (Path.join base directory) = .ok names) :
    (∃ entries, (Loop.asked block.arguments).Lists environment trace.host bindings
      (Path.join base directory) block.body names entries) ∧
    (∃ diagnostics, ∀ entries,
      (Loop.asked block.arguments).Lists environment trace.host bindings (Path.join base directory)
        block.body names entries →
      (evaluateLoop environment base bindings block).run trace =
        (.ok (.ok (entries.flatMap (·.expanded))), trace.extend trace.host diagnostics "")) ∧
    ∀ (other : Environment σ) (listing : List (List Char)), listing.Perm names →
      other.list trace.host (Path.join base directory) = .ok listing →
      other.fileBindings trace.host = environment.fileBindings trace.host →
      (evaluateLoop other base bindings block).run trace =
        (evaluateLoop environment base bindings block).run trace := by
  rcases read : Loop.read block.arguments with ⟨loop, problems⟩
  have asked : Loop.asked block.arguments = loop := by rw [← Loop.read_eq_asked, read]
  rw [asked] at named ⊢
  have lists := arrange_lists loop environment trace.host bindings (Path.join base directory)
    block.body names
  have ran := evaluateLoop_gives bindings read named listed trace rfl
  refine ⟨⟨_, lists⟩, ⟨problems ++ loop.problems environment trace.host bindings
    (Path.join base directory) block.body names, fun entries other => ?_⟩, ?_⟩
  · rw [ran, lists.determined other]
  · intro other listing permuted relisted answers
    -- The names are sorted before anything else is done, so that only the lookups could tell.
    have made : loop.entry? other trace.host = loop.entry? environment trace.host := by
      funext bindings directory body name
      rw [Loop.entry?, answers, Loop.entry?]
    have told : loop.entryProblems other trace.host = loop.entryProblems environment trace.host := by
      funext bindings directory body name
      rw [Loop.entryProblems, answers, Loop.entryProblems]
    rw [ran, evaluateLoop_gives bindings read named relisted trace rfl]
    simp only [Loop.problems, Loop.entries, made, told, mergeSort_textLe_of_perm permuted]

end

def shelf (names : List (List Char)) : Environment Unit where
  list _ _ := .ok names
  fileBindings _ path :=
    if path = "p/c".toList then .error "gone"
    else .ok [(['k'], if path = "p/b".toList then ['2'] else ['1'])]
  start _ _ _ := (.error "", ())

theorem evaluateLoop_shelf :
    let block : Block :=
      ⟨"in p:with f:exclude_name e*:sort_key %\x7bk\x7d:sort_order -".toList, "%\x7bf\x7d".toList⟩
    let names := [['d'], ['c'], ['b'], ['a'], ['e']]
    (Loop.asked block.arguments).directory = some ['p'] ∧
      (shelf names).list () (Path.join [] ['p']) = .ok names ∧
      ∃ diagnostics, ∀ listing, listing.Perm names →
        (evaluateLoop (shelf listing) [] [] block).run ⟨(), [], ""⟩ =
          (.ok (.ok ['b', 'a', 'd']), ⟨(), diagnostics, ""⟩) := by
  intro block names
  have named : (Loop.asked block.arguments).directory = some ['p'] := by decide
  have listed : (shelf names).list () (Path.join [] ['p']) = .ok names := rfl
  obtain ⟨-, ⟨diagnostics, ran⟩, same⟩ :=
    evaluateLoop_selects_and_sorts [] ⟨(), [], ""⟩ named listed
  let entries := [(['b'], ['2']), (['a'], ['1']), (['d'], ['1'])].map fun file =>
    (Loop.asked block.arguments).entry [] block.body file.1 [(['k'], file.2)]
  have lists : (Loop.asked block.arguments).Lists (shelf names) () [] ['p'] block.body names
      entries := by
    refine ⟨by decide, fun entry member => ?_, by decide⟩
    obtain ⟨file, chosen, rfl⟩ := List.mem_map.mp member
    simp only [List.mem_cons, List.not_mem_nil, or_false] at chosen
    rcases chosen with rfl | rfl | rfl <;> exact makes_entry rfl
  refine ⟨named, listed, diagnostics, fun listing permuted => ?_⟩
  rw [same (shelf listing) listing permuted rfl rfl, ran entries lists]
  rfl

end Template

end BracketMarkup
