import BracketMarkup.Html.Attribute

namespace BracketMarkup.Html

structure RunOf (inClass : Char → Bool) (most : Nat) (run : List Char) : Prop where
  filled : run ≠ []
  short : run.length ≤ most
  inside : ∀ c ∈ run, inClass c = true

/-- What stands between the ampersand and the semicolon of a character reference. -/
inductive ReferenceName : List Char → Prop where
  | letters {name : List Char} : RunOf isLetter 31 name → ReferenceName name
  | decimal {digits : List Char} : RunOf isDigit 7 digits → ReferenceName ('#' :: digits)
  | hexadecimal {x : Char} {digits : List Char} : x = 'x' ∨ x = 'X' → RunOf isHexDigit 6 digits →
      ReferenceName ('#' :: x :: digits)

/-- A text that makes an ampersand in front of it the start of a character reference. -/
def Completes (s : List Char) : Prop := ∃ name rest, ReferenceName name ∧ s = name ++ ';' :: rest

theorem startsWithRun_iff {inClass : Char → Bool} (outside : inClass ';' = false) (most : Nat)
    (s : List Char) :
    startsWithRun inClass most s = true ↔
      ∃ run rest, RunOf inClass most run ∧ s = run ++ ';' :: rest := by
  simp only [startsWithRun, Bool.and_eq_true, decide_eq_true_eq, beq_iff_eq]
  constructor
  · rintro ⟨⟨filled, short⟩, next⟩
    obtain ⟨rest, behind⟩ := List.head?_eq_some_iff.mp next
    refine ⟨s.takeWhile inClass, rest, ⟨?_, short, List.all_eq_true.mp List.all_takeWhile⟩, ?_⟩
    · exact List.ne_nil_of_length_pos filled
    · rw [← behind, List.takeWhile_append_dropWhile]
  · rintro ⟨run, rest, ⟨filled, short, inside⟩, rfl⟩
    rw [List.takeWhile_append_of_pos inside, List.dropWhile_append_of_pos inside,
      List.takeWhile_cons_of_neg (by simp [outside]), List.dropWhile_cons_of_neg (by simp [outside]),
      List.append_nil]
    exact ⟨⟨List.length_pos_iff.mpr filled, short⟩, rfl⟩

theorem RunOf.exists_cons {inClass : Char → Bool} {most : Nat} {run : List Char}
    (h : RunOf inClass most run) : ∃ c rest, run = c :: rest ∧ inClass c = true := by
  obtain ⟨c, rest, rfl⟩ := List.exists_cons_of_ne_nil h.filled
  exact ⟨c, rest, rfl, h.inside c (by simp)⟩

theorem completesReference_letters {c : Char} (other : c ≠ '#') (s : List Char) :
    completesReference (c :: s) = startsWithRun isLetter 31 (c :: s) := by
  rw [completesReference] <;> simp [other]

theorem completesReference_decimal {c : Char} (small : c ≠ 'x') (large : c ≠ 'X') (s : List Char) :
    completesReference ('#' :: c :: s) = startsWithRun isDigit 7 (c :: s) := by
  rw [completesReference] <;> simp [small, large]

theorem completesReference_iff (s : List Char) : completesReference s = true ↔ Completes s := by
  constructor
  · intro h
    unfold completesReference at h
    split at h
    · obtain ⟨digits, after, run, rfl⟩ := (startsWithRun_iff rfl 6 _).mp h
      exact ⟨_, after, .hexadecimal (.inl rfl) run, rfl⟩
    · obtain ⟨digits, after, run, rfl⟩ := (startsWithRun_iff rfl 6 _).mp h
      exact ⟨_, after, .hexadecimal (.inr rfl) run, rfl⟩
    · obtain ⟨digits, after, run, rfl⟩ := (startsWithRun_iff rfl 7 _).mp h
      exact ⟨_, after, .decimal run, rfl⟩
    · obtain ⟨name, after, run, rfl⟩ := (startsWithRun_iff rfl 31 _).mp h
      exact ⟨name, after, .letters run, rfl⟩
  · rintro ⟨name, after, named, rfl⟩
    cases named with
    | letters run =>
      obtain ⟨c, rest, rfl, letter⟩ := run.exists_cons
      rw [List.cons_append, completesReference_letters (by rintro rfl; cases letter)]
      exact (startsWithRun_iff rfl 31 _).mpr ⟨c :: rest, after, run, rfl⟩
    | @decimal digits run =>
      obtain ⟨c, rest, rfl, digit⟩ := run.exists_cons
      rw [List.cons_append, List.cons_append, completesReference_decimal (by rintro rfl; cases digit)
        (by rintro rfl; cases digit)]
      exact (startsWithRun_iff rfl 7 _).mpr ⟨c :: rest, after, run, rfl⟩
    | @hexadecimal x digits mark run =>
      have found := (startsWithRun_iff rfl 6 _).mpr ⟨digits, after, run, rfl⟩
      rcases mark with rfl | rfl <;> exact found

theorem reference_induction {motive : List Char → Prop} (s : List Char) (nil : motive [])
    (reference : ∀ name rest, ReferenceName name → motive rest →
      motive ('&' :: (name ++ ';' :: rest)))
    (char : ∀ c rest, (c = '&' → ¬ Completes rest) → motive rest → motive (c :: rest)) :
    motive s := by
  match s with
  | [] => exact nil
  | c :: rest =>
    by_cases starts : c = '&' ∧ Completes rest
    · obtain ⟨rfl, name, after, named, rfl⟩ := starts
      exact reference name after named (reference_induction after nil reference char)
    · exact char c rest (not_and.mp starts) (reference_induction rest nil reference char)
termination_by s.length
decreasing_by
  · rename_i same
    simp only [same, List.length_cons, List.length_append]
    omega
  · exact Nat.lt_succ_self _

def nameFor? (c : Char) : Option (List Char) :=
  if c = '&' then some ['a', 'm', 'p']
  else if c = '<' then some ['l', 't']
  else if c = '>' then some ['g', 't']
  else if c = '"' then some ['q', 'u', 'o', 't']
  else none

theorem nameFor?_eq_none_iff {c : Char} : nameFor? c = none ↔ c ∉ ['&', '<', '>', '"'] := by
  grind [nameFor?]

theorem nameFor?_eq_some {c : Char} {name : List Char} (h : nameFor? c = some name) :
    c = '&' ∧ name = ['a', 'm', 'p'] ∨ c = '<' ∧ name = ['l', 't'] ∨
      c = '>' ∧ name = ['g', 't'] ∨ c = '"' ∧ name = ['q', 'u', 'o', 't'] := by
  grind [nameFor?]

theorem referenceName_of_nameFor? {c : Char} {name : List Char} (h : nameFor? c = some name) :
    ReferenceName name := by
  rcases nameFor?_eq_some h with ⟨-, rfl⟩ | ⟨-, rfl⟩ | ⟨-, rfl⟩ | ⟨-, rfl⟩
  all_goals exact .letters ⟨by decide, by decide, List.all_eq_true.mp (by decide)⟩

theorem RunOf.notMem {inClass : Char → Bool} {most : Nat} {run : List Char}
    (h : RunOf inClass most run) {c : Char} (outside : inClass c = false) : c ∉ run :=
  fun member => absurd (h.inside c member) (by simp [outside])

theorem ReferenceName.notMem {name : List Char} (h : ReferenceName name) {c : Char}
    (sign : c ∈ [';', '&', '<', '>', '"']) : c ∉ name := by
  have outside : isHexDigit c = false ∧ isDigit c = false ∧ isLetter c = false ∧
      c ≠ '#' ∧ c ≠ 'x' ∧ c ≠ 'X' := by
    simp only [List.mem_cons, List.not_mem_nil, or_false] at sign
    rcases sign with rfl | rfl | rfl | rfl | rfl <;> decide
  obtain ⟨notHex, notDigit, notLetter, notMark, notSmall, notLarge⟩ := outside
  cases h with
  | letters run => exact run.notMem notLetter
  | decimal run => simp [notMark, run.notMem notDigit]
  | hexadecimal mark run =>
    rcases mark with rfl | rfl <;> simp [notMark, notSmall, notLarge, run.notMem notHex]

theorem ReferenceName.takeWhile_eq {name : List Char} (h : ReferenceName name) (rest : List Char) :
    (name ++ ';' :: rest).takeWhile (· != ';') = name := by
  have inside : ∀ c ∈ name, (c != ';') = true := by
    intro c member
    rw [bne_iff_ne]
    rintro rfl
    exact h.notMem (by simp) member
  rw [List.takeWhile_append_of_pos inside, List.takeWhile_cons_of_neg (by simp), List.append_nil]

theorem ReferenceName.append_inj {name other rest behind : List Char} (h : ReferenceName name)
    (k : ReferenceName other) (same : name ++ ';' :: rest = other ++ ';' :: behind) :
    name = other ∧ rest = behind := by
  have names : name = other := by rw [← h.takeWhile_eq rest, same, k.takeWhile_eq]
  subst names
  exact ⟨rfl, (List.cons.inj (List.append_cancel_left same)).2⟩

theorem escapeValue_ordinary {c : Char} (h : nameFor? c = none) (rest : List Char) :
    escapeValue (c :: rest) = c :: escapeValue rest := by
  conv => lhs; unfold escapeValue
  split <;> rename_i same <;> cases same
  case h_6 => rfl
  all_goals exact absurd h (by decide)

theorem escapeValue_ampersand (rest : List Char) : escapeValue ('&' :: rest) =
    if completesReference rest then '&' :: escapeValue rest
    else '&' :: (['a', 'm', 'p'] ++ ';' :: escapeValue rest) := rfl

theorem escapeValue_special {c : Char} {name rest : List Char} (h : nameFor? c = some name)
    (alone : c = '&' → ¬ Completes rest) :
    escapeValue (c :: rest) = '&' :: (name ++ ';' :: escapeValue rest) := by
  rcases nameFor?_eq_some h with ⟨rfl, rfl⟩ | ⟨rfl, rfl⟩ | ⟨rfl, rfl⟩ | ⟨rfl, rfl⟩
  · rw [escapeValue_ampersand, if_neg (mt (completesReference_iff rest).mp (alone rfl))]
  all_goals rfl

theorem escapeValue_append {text : List Char} (h : ∀ c ∈ text, nameFor? c = none) (rest : List Char) :
    escapeValue (text ++ rest) = text ++ escapeValue rest := by
  induction text with
  | nil => rfl
  | cons c text ih =>
    rw [List.cons_append, escapeValue_ordinary (h c (by simp)),
      ih fun d member => h d (List.mem_cons_of_mem _ member), List.cons_append]

theorem escapeValue_reference {name : List Char} (named : ReferenceName name) (rest : List Char) :
    escapeValue ('&' :: (name ++ ';' :: rest)) = '&' :: (name ++ ';' :: escapeValue rest) := by
  have plain : ∀ c ∈ name, nameFor? c = none := fun c member =>
    nameFor?_eq_none_iff.mpr fun sign => named.notMem (List.mem_cons_of_mem _ sign) member
  rw [escapeValue_ampersand, if_pos ((completesReference_iff _).mpr ⟨name, rest, named, rfl⟩),
    escapeValue_append plain, escapeValue_ordinary (nameFor?_eq_none_iff.mpr (by decide))]

def escapeAmpersands : List Char → List Char
  | [] => []
  | '&' :: rest =>
    if completesReference rest then '&' :: escapeAmpersands rest
    else ['&', 'a', 'm', 'p', ';'] ++ escapeAmpersands rest
  | c :: rest => c :: escapeAmpersands rest

def substitute (sign : Char) (reference s : List Char) : List Char :=
  s.flatMap fun c => if c = sign then reference else [c]

theorem substitute_cons (sign : Char) (reference : List Char) (c : Char) (rest : List Char) :
    substitute sign reference (c :: rest) =
      (if c = sign then reference else [c]) ++ substitute sign reference rest := rfl

theorem escapeValue_in_turn (v : List Char) : escapeValue v =
    substitute '"' ['&', 'q', 'u', 'o', 't', ';'] (substitute '>' ['&', 'g', 't', ';']
      (substitute '<' ['&', 'l', 't', ';'] (escapeAmpersands v))) := by
  induction v with
  | nil => rfl
  | cons c rest ih =>
    by_cases ampersand : c = '&'
    · subst ampersand
      rw [escapeValue_ampersand, escapeAmpersands]
      split <;> simp [substitute_cons, ih]
    · have kept : escapeAmpersands (c :: rest) = c :: escapeAmpersands rest := by
        rw [escapeAmpersands]
        exact ampersand
      cases special : nameFor? c with
      | none =>
        have others := nameFor?_eq_none_iff.mp special
        simp only [List.mem_cons, List.not_mem_nil, or_false, not_or] at others
        rw [escapeValue_ordinary special, ih, kept]
        simp [substitute_cons, others]
      | some name =>
        rw [escapeValue_special special fun same => absurd same ampersand, ih, kept]
        rcases nameFor?_eq_some special with ⟨rfl, rfl⟩ | ⟨rfl, rfl⟩ | ⟨rfl, rfl⟩ | ⟨rfl, rfl⟩
        · exact absurd rfl ampersand
        all_goals simp [substitute_cons]

/-- A value in which nothing is left to escape. -/
inductive Escaped : List Char → Prop where
  | nil : Escaped []
  | char {c : Char} {rest : List Char} : nameFor? c = none → Escaped rest → Escaped (c :: rest)
  | reference {name rest : List Char} : ReferenceName name → Escaped rest →
      Escaped ('&' :: (name ++ ';' :: rest))

theorem escaped_escapeValue (v : List Char) : Escaped (escapeValue v) := by
  induction v using reference_induction with
  | nil => exact .nil
  | reference name rest named ih =>
    rw [escapeValue_reference named]
    exact .reference named ih
  | char c rest alone ih =>
    cases special : nameFor? c with
    | none =>
      rw [escapeValue_ordinary special]
      exact .char special ih
    | some name =>
      rw [escapeValue_special special alone]
      exact .reference (referenceName_of_nameFor? special) ih

namespace Escaped

variable {e : List Char}

theorem escapeValue_eq (h : Escaped e) : escapeValue e = e := by
  induction h with
  | nil => rfl
  | char ordinary _ ih => rw [escapeValue_ordinary ordinary, ih]
  | reference named _ ih => rw [escapeValue_reference named, ih]

theorem notMem (h : Escaped e) {c : Char} (sign : c ∈ ['<', '>', '"']) : c ∉ e := by
  induction h with
  | nil => exact List.not_mem_nil
  | @char d rest ordinary _ ih =>
    rintro (_ | ⟨_, member⟩)
    · exact nameFor?_eq_none_iff.mp ordinary (List.mem_cons_of_mem _ sign)
    · exact ih member
  | @reference name rest named _ ih =>
    have inName : c ∉ name :=
      named.notMem (List.mem_cons_of_mem _ (List.mem_cons_of_mem _ sign))
    have apart : c ≠ '&' ∧ c ≠ ';' := by
      simp only [List.mem_cons, List.not_mem_nil, or_false] at sign
      rcases sign with rfl | rfl | rfl <;> decide
    simp [inName, apart, ih]

theorem completes (h : Escaped e) {before after : List Char} (place : e = before ++ '&' :: after) :
    Completes after := by
  induction h generalizing before with
  | nil => simp at place
  | @char c rest ordinary _ ih =>
    rcases List.cons_eq_append_iff.mp place with ⟨rfl, same⟩ | ⟨behind, rfl, same⟩
    · obtain ⟨rfl, -⟩ := List.cons.inj same
      exact absurd ordinary (by decide)
    · exact ih same
  | @reference name rest named _ ih =>
    rcases List.cons_eq_append_iff.mp place with ⟨rfl, same⟩ | ⟨behind, rfl, same⟩
    · obtain ⟨-, rfl⟩ := List.cons.inj same
      exact ⟨name, rest, named, rfl⟩
    · -- The name holds no ampersand, so that the one that is looked for stands behind it.
      have apart : '&' ∉ name ++ [';'] := by simp [named.notMem]
      have inRest : (name ++ [';']) ++ rest = behind ++ '&' :: after := by simpa using same
      rcases List.append_eq_append_iff.mp inRest with ⟨middle, rfl, later⟩ | ⟨middle, front, later⟩
      · exact ih later
      · cases middle with
        | nil => exact @ih [] later.symm
        | cons d middle =>
          obtain ⟨rfl, -⟩ := List.cons.inj later
          exact absurd (front ▸ by simp) apart

end Escaped

/-- What each character reference stands for, given by its name. Only the four that are written for
    single characters are fixed. -/
structure ReferenceTable where
  meaning : List Char → List Char
  amp : meaning ['a', 'm', 'p'] = ['&']
  lt : meaning ['l', 't'] = ['<']
  gt : meaning ['g', 't'] = ['>']
  quot : meaning ['q', 'u', 'o', 't'] = ['"']

instance : Inhabited ReferenceTable where
  default :=
    { meaning := fun name =>
        if name = ['a', 'm', 'p'] then ['&']
        else if name = ['l', 't'] then ['<']
        else if name = ['g', 't'] then ['>']
        else if name = ['q', 'u', 'o', 't'] then ['"']
        else []
      amp := rfl
      lt := rfl
      gt := rfl
      quot := rfl }

theorem ReferenceTable.meaning_nameFor? (table : ReferenceTable) {c : Char} {name : List Char}
    (h : nameFor? c = some name) : table.meaning name = [c] := by
  rcases nameFor?_eq_some h with ⟨rfl, rfl⟩ | ⟨rfl, rfl⟩ | ⟨rfl, rfl⟩ | ⟨rfl, rfl⟩
  · exact table.amp
  · exact table.lt
  · exact table.gt
  · exact table.quot

/-- The text that a value stands for once each of its references is replaced by its meaning. -/
inductive Resolves (table : ReferenceTable) : List Char → List Char → Prop where
  | nil : Resolves table [] []
  | reference {name rest text : List Char} : ReferenceName name → Resolves table rest text →
      Resolves table ('&' :: (name ++ ';' :: rest)) (table.meaning name ++ text)
  | char {c : Char} {rest text : List Char} : (c = '&' → ¬ Completes rest) →
      Resolves table rest text → Resolves table (c :: rest) (c :: text)

namespace Resolves

variable {table : ReferenceTable} {v text other : List Char}

theorem exists_text (table : ReferenceTable) (v : List Char) : ∃ text, Resolves table v text := by
  induction v using reference_induction with
  | nil => exact ⟨[], .nil⟩
  | reference name rest named ih =>
    obtain ⟨text, resolved⟩ := ih
    exact ⟨_, .reference named resolved⟩
  | char c rest alone ih =>
    obtain ⟨text, resolved⟩ := ih
    exact ⟨_, .char alone resolved⟩

theorem unique (h : Resolves table v text) (k : Resolves table v other) : text = other := by
  induction h generalizing other with
  | nil => cases k; rfl
  | @reference name rest text named _ ih =>
    -- A name ends at the first semicolon, so that both readings cut the same reference.
    generalize written : '&' :: (name ++ ';' :: rest) = value at k
    cases k with
    | nil => cases written
    | @reference name' rest' text' named' later =>
      obtain ⟨rfl, rfl⟩ := ReferenceName.append_inj named named' (List.cons.inj written).2
      rw [ih later]
    | @char c rest' text' alone later =>
      obtain ⟨rfl, rfl⟩ := List.cons.inj written
      exact absurd ⟨name, rest, named, rfl⟩ (alone rfl)
  | @char c rest text alone _ ih =>
    generalize written : c :: rest = value at k
    cases k with
    | nil => cases written
    | @reference name rest' text' named later =>
      obtain ⟨rfl, rfl⟩ := List.cons.inj written
      exact absurd ⟨name, rest', named, rfl⟩ (alone rfl)
    | char _ later =>
      obtain ⟨rfl, rfl⟩ := List.cons.inj written
      rw [ih later]

theorem escaped (h : Resolves table v text) : Resolves table (escapeValue v) text := by
  induction h with
  | nil => exact .nil
  | reference named _ ih =>
    rw [escapeValue_reference named]
    exact .reference named ih
  | @char c rest text alone _ ih =>
    cases special : nameFor? c with
    | none =>
      rw [escapeValue_ordinary special]
      exact .char (by rintro rfl; cases special) ih
    | some name =>
      rw [escapeValue_special special alone]
      -- The table gives the character back for the reference that is written in its place.
      have single := Resolves.reference (referenceName_of_nameFor? special) ih
      rwa [table.meaning_nameFor? special] at single

end Resolves

/-- An escaped value holds no sign that could end it, each ampersand in it starts a reference, there is
    nothing left to escape, and what it stands for is what the value itself stands for. -/
theorem escapeValue_contained (v : List Char) :
    '<' ∉ escapeValue v ∧ '>' ∉ escapeValue v ∧ '"' ∉ escapeValue v ∧
      (∀ before after, escapeValue v = before ++ '&' :: after → Completes after) ∧
      escapeValue (escapeValue v) = escapeValue v ∧
      ∀ table, ∃ text, ∀ other, (Resolves table v other ↔ other = text) ∧
        (Resolves table (escapeValue v) other ↔ other = text) := by
  have escaped := escaped_escapeValue v
  refine ⟨escaped.notMem (by decide), escaped.notMem (by decide), escaped.notMem (by decide),
    fun before after => escaped.completes, escaped.escapeValue_eq, fun table => ?_⟩
  obtain ⟨text, resolved⟩ := Resolves.exists_text table v
  have single : ∀ {value : List Char}, Resolves table value text →
      ∀ other, Resolves table value other ↔ other = text :=
    fun known other => ⟨fun also => also.unique known, fun same => same ▸ known⟩
  exact ⟨text, fun other => ⟨single resolved other, single resolved.escaped other⟩⟩

end BracketMarkup.Html
