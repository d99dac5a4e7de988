import BracketMarkup.Proofs.Grouping

namespace BracketMarkup.Bracketed

variable {α : Type}

/-- Trees of which, at every level, no run is empty and no two runs stand next to each other. -/
inductive Normal : List (Bracketed (List α)) → Prop where
  | nil : Normal []
  | free {run : List α} {rest : List (Bracketed (List α))} :
      run ≠ [] → (∀ next more, rest ≠ free next :: more) → Normal rest → Normal (free run :: rest)
  | nested {children rest : List (Bracketed (List α))} :
      Normal children → Normal rest → Normal (nested children :: rest)

/-- The stream that trees are joined to, the items of each run in the place of the run. -/
def join (opener closer : α) (trees : List (Bracketed (List α))) : List α :=
  (flattenAll [opener] [closer] trees).flatten

/-- The items that stand in runs, at whatever level. -/
def freeItems (trees : List (Bracketed (List α))) : List α := (flattenAll [] [] trees).flatten

/-- What stands at a place of a joined stream. Which item a delimiter is remains open. -/
inductive Symbol (α : Type) where
  | item (x : α)
  | opener
  | closer

def outline (trees : List (Bracketed (List α))) : List (Symbol α) :=
  join .opener .closer (mapAll (List.map .item) trees)

def symbolOf (isOpen isClose : α → Bool) (x : α) : Symbol α :=
  if isOpen x then .opener else if isClose x then .closer else .item x

/-- Takes each delimiter from the item at the same place of another stream. -/
def fill : List (Symbol α) → List α → List α
  | .item x :: symbols, _ :: items => x :: fill symbols items
  | _ :: symbols, delimiter :: items => delimiter :: fill symbols items
  | _, _ => []

variable {isOpen isClose : α → Bool}

theorem join_free (opener closer : α) (run : List α) (rest : List (Bracketed (List α))) :
    join opener closer (free run :: rest) = run ++ join opener closer rest := by
  simp [join, flattenAll, flatten]

theorem join_nested (opener closer : α) (children rest : List (Bracketed (List α))) :
    join opener closer (nested children :: rest) =
      opener :: (join opener closer children ++ closer :: join opener closer rest) := by
  simp [join, flattenAll, flatten]

theorem join_cons (opener closer : α) (tree : Bracketed (List α)) (rest : List (Bracketed (List α))) :
    join opener closer (tree :: rest) = join opener closer [tree] ++ join opener closer rest := by
  simp [join, flattenAll]

theorem flatten_consFree (left right : List α) (x : α) (trees : List (Bracketed (List α))) :
    (flattenAll left right (consFree x trees)).flatten = x :: (flattenAll left right trees).flatten := by
  cases trees with
  | nil => rfl
  | cons tree rest => cases tree <;> rfl

theorem freeItems_free (run : List α) (rest : List (Bracketed (List α))) :
    freeItems (free run :: rest) = run ++ freeItems rest := by
  simp [freeItems, flattenAll, flatten]

theorem freeItems_nested (children rest : List (Bracketed (List α))) :
    freeItems (nested children :: rest) = freeItems children ++ freeItems rest := by
  simp [freeItems, flattenAll, flatten]

theorem outline_free (run : List α) (rest : List (Bracketed (List α))) :
    outline (free run :: rest) = run.map .item ++ outline rest := by
  simp only [outline, mapAll, map, join_free]

theorem outline_nested (children rest : List (Bracketed (List α))) :
    outline (nested children :: rest) =
      .opener :: (outline children ++ .closer :: outline rest) := by
  simp only [outline, mapAll, map, join_nested]

theorem outline_consFree (x : α) (trees : List (Bracketed (List α))) :
    outline (consFree x trees) = .item x :: outline trees := by
  cases trees with
  | nil => rfl
  | cons tree rest =>
    cases tree with
    | free run => simp only [consFree, outline_free, List.map_cons, List.cons_append]
    | nested children =>
      simp only [consFree, outline_free, List.map_cons, List.map_nil, List.cons_append,
        List.nil_append]

theorem normal_consFree (x : α) {trees : List (Bracketed (List α))} (h : Normal trees) :
    Normal (consFree x trees) := by
  cases h with
  | nil => exact .free (by simp) (by simp) .nil
  | free _ apart rest => exact .free (by simp) apart rest
  | nested children rest => exact .free (by simp) (by simp) (.nested children rest)

theorem Spells.normal {trees : List (Bracketed α)} {items : List α}
    (h : Spells isOpen isClose trees items) : Normal (gather trees) := by
  induction h with
  | nil => exact .nil
  | free _ _ _ ih => exact normal_consFree _ ih
  | nested _ _ _ _ _ ihInner ih => exact .nested ihInner ih

theorem Spells.outline {trees : List (Bracketed α)} {items : List α}
    (h : Spells isOpen isClose trees items) :
    outline (gather trees) = items.map (symbolOf isOpen isClose) := by
  induction h with
  | nil => rfl
  | @free x trees items notOpen notClose _ ih =>
    have symbol : symbolOf isOpen isClose x = .item x := by simp [symbolOf, notOpen, notClose]
    rw [List.map_cons, symbol, ← ih]
    exact outline_consFree x (gather trees)
  | @nested opener closer children trees inner items opens notOpen closes _ _ ihInner ih =>
    have first : symbolOf isOpen isClose opener = .opener := by simp [symbolOf, opens]
    have last : symbolOf isOpen isClose closer = .closer := by simp [symbolOf, notOpen, closes]
    rw [List.map_cons, List.map_append, List.map_cons, first, last, ← ihInner, ← ih]
    exact outline_nested (gather children) (gather trees)

theorem fill_map_symbolOf (items : List α) :
    fill (items.map (symbolOf isOpen isClose)) items = items := by
  induction items with
  | nil => rfl
  | cons x rest ih =>
    rcases opener_closer_or_free isOpen isClose x with
      ⟨opens, -⟩ | ⟨notOpen, closes, -⟩ | ⟨notOpen, notClose, -⟩
    · simp [fill, symbolOf, opens, ih]
    · simp [fill, symbolOf, notOpen, closes, ih]
    · simp [fill, symbolOf, notOpen, notClose, ih]

theorem gather_run {run : List α} (filled : run ≠ []) {trees : List (Bracketed α)}
    (apart : ∀ next more, gather trees ≠ free next :: more) :
    gather (run.map free ++ trees) = free run :: gather trees := by
  induction run with
  | nil => exact absurd rfl filled
  | cons x run ih =>
    have step : gather ((x :: run).map free ++ trees) = consFree x (gather (run.map free ++ trees)) :=
      rfl
    rw [step]
    by_cases last : run = []
    · -- Here the last item of the run meets the trees behind it.
      subst last
      show consFree x (gather trees) = free [x] :: gather trees
      cases shape : gather trees with
      | nil => rfl
      | cons tree rest =>
        cases tree with
        | free next => exact absurd shape (apart next rest)
        | nested children => rfl
    · rw [ih last]
      rfl

theorem spells_run {run : List α} (plain : ∀ x ∈ run, isOpen x = false ∧ isClose x = false) :
    Spells isOpen isClose (run.map free) run := by
  induction run with
  | nil => exact .nil
  | cons x run ih =>
    have later := ih fun y member => plain y (List.mem_cons_of_mem x member)
    exact .free (plain x (by simp)).1 (plain x (by simp)).2 later

theorem Normal.exists_spelling {trees : List (Bracketed (List α))} (h : Normal trees)
    (plain : ∀ x ∈ freeItems trees, isOpen x = false ∧ isClose x = false) {opener closer : α}
    (opens : isOpen opener = true) (notOpen : isOpen closer = false) (closes : isClose closer = true) :
    ∃ tokens, Spells isOpen isClose tokens (join opener closer trees) ∧ gather tokens = trees := by
  induction h with
  | nil => exact ⟨[], .nil, rfl⟩
  | @free run rest filled apart _ ih =>
    rw [freeItems_free] at plain
    have inRun : ∀ x ∈ run, isOpen x = false ∧ isClose x = false :=
      fun x member => plain x (List.mem_append_left _ member)
    obtain ⟨tokens, spelled, gathered⟩ := ih fun x member => plain x (List.mem_append_right _ member)
    refine ⟨run.map .free ++ tokens, ?_, ?_⟩
    · rw [join_free]
      exact (spells_run inRun).append spelled
    · rw [gather_run filled (by rwa [gathered]), gathered]
  | @nested children rest _ _ ihChildren ih =>
    rw [freeItems_nested] at plain
    obtain ⟨inner, inside, gatheredInside⟩ :=
      ihChildren fun x member => plain x (List.mem_append_left _ member)
    obtain ⟨tokens, spelled, gathered⟩ := ih fun x member => plain x (List.mem_append_right _ member)
    refine ⟨.nested inner :: tokens, ?_, ?_⟩
    · rw [join_nested]
      exact .nested opens notOpen closes inside spelled
    · show Bracketed.nested (gather inner) :: gather tokens = Bracketed.nested children :: rest
      rw [gatheredInside, gathered]

theorem group_of_balanced {items : List α} (opened : ¬ Overclosed isOpen isClose items)
    (counts : items.countP isOpen ≤ items.countP (isCloser isOpen isClose)) :
    ∃ trees, group isOpen isClose items = .ok trees := by
  cases grouped : group isOpen isClose items with
  | ok trees => exact ⟨trees, rfl⟩
  | error fault =>
    cases fault with
    | closer => exact absurd ((group_closer_iff items).mp grouped) opened
    | openers excess =>
      obtain ⟨-, positive, more⟩ := (group_openers_iff items excess).mp grouped
      omega

/-- Grouping fails just where delimiters are unmatched. What it gives otherwise is normal and is joined
    to the stream again, and every normal tree list without delimiters in its runs is what its joined
    stream is grouped to. -/
theorem group_inverts_join (isOpen isClose : α → Bool) (items : List α) :
    (group isOpen isClose items = .error .closer ↔ Overclosed isOpen isClose items) ∧
    ((∃ excess, group isOpen isClose items = .error (.openers excess)) ↔
      ¬ Overclosed isOpen isClose items ∧
        items.countP (isCloser isOpen isClose) < items.countP isOpen) ∧
    (¬ Overclosed isOpen isClose items →
      items.countP isOpen ≤ items.countP (isCloser isOpen isClose) →
      ∃ trees, group isOpen isClose items = .ok trees ∧ Normal trees ∧
        outline trees = items.map (symbolOf isOpen isClose) ∧ fill (outline trees) items = items) ∧
    ∀ (trees : List (Bracketed (List α))) (opener closer : α), Normal trees →
      (∀ x ∈ freeItems trees, isOpen x = false ∧ isClose x = false) →
      isOpen opener = true → isOpen closer = false → isClose closer = true →
      group isOpen isClose (join opener closer trees) = .ok trees := by
  refine ⟨group_closer_iff items, ⟨?_, ?_⟩, ?_, ?_⟩
  · rintro ⟨excess, failed⟩
    obtain ⟨opened, positive, more⟩ := (group_openers_iff items excess).mp failed
    exact ⟨opened, by omega⟩
  · rintro ⟨opened, fewer⟩
    refine ⟨items.countP isOpen - items.countP (isCloser isOpen isClose), ?_⟩
    rw [group_openers_iff]
    exact ⟨opened, by omega, by omega⟩
  · intro opened counts
    obtain ⟨trees, grouped⟩ := group_of_balanced opened counts
    obtain ⟨tokens, spelled, rfl⟩ := spells_of_group grouped
    have outlined := spelled.outline
    refine ⟨gather tokens, grouped, spelled.normal, outlined, ?_⟩
    rw [outlined]
    exact fill_map_symbolOf items
  · intro trees opener closer normal plain opens notOpen closes
    obtain ⟨tokens, spelled, gathered⟩ := normal.exists_spelling plain opens notOpen closes
    rw [group_of_spells spelled, gathered]

theorem group_inverts_join_letters :
    let isOpen : Nat → Bool := (· ≤ 1)
    let isClose : Nat → Bool := (· ≤ 3)
    let trees : List (Bracketed (List Nat)) := [free [7, 8], nested [nested [], free [9]], free [7]]
    join 0 2 trees = [7, 8, 0, 0, 2, 9, 2, 7] ∧ group isOpen isClose (join 0 2 trees) = .ok trees ∧
      (∃ runs, group isOpen isClose [7, 8, 0, 1, 3, 9, 2, 7] = .ok runs ∧ Normal runs ∧
        fill (outline runs) [7, 8, 0, 1, 3, 9, 2, 7] = [7, 8, 0, 1, 3, 9, 2, 7]) := by
  intro isOpen isClose trees
  have normal : Normal trees :=
    .free (by simp) (by simp) (.nested (.nested .nil (.free (by simp) (by simp) .nil))
      (.free (by simp) (by simp) .nil))
  have plain : ∀ x ∈ freeItems trees, isOpen x = false ∧ isClose x = false := by decide
  obtain ⟨-, -, joined, grouped⟩ := group_inverts_join isOpen isClose [7, 8, 0, 1, 3, 9, 2, 7]
  have opened : ¬ Overclosed isOpen isClose [7, 8, 0, 1, 3, 9, 2, 7] := by
    rw [overclosed_iff_outer]
    decide
  obtain ⟨runs, found, tidy, -, filled⟩ := joined opened (by decide)
  exact ⟨rfl, grouped trees 0 2 normal plain rfl rfl rfl, runs, found, tidy, filled⟩

end BracketMarkup.Bracketed
