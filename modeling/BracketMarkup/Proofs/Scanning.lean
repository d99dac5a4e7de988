import BracketMarkup.Text.Split

namespace BracketMarkup

/-- An escape mark that escapes nothing. Only the end of a text can hold one. -/
def bareMark : Scanned := ⟨false, escapeMark⟩

@[simp] theorem restore_nil : restore [] = [] := rfl

@[simp] theorem restore_cons (p : Scanned) (pairs : List Scanned) :
    restore (p :: pairs) = p.write ++ restore pairs := rfl

@[simp] theorem restore_append (left right : List Scanned) :
    restore (left ++ right) = restore left ++ restore right := by
  simp [restore]

@[simp] theorem write_plain (c : Char) : (⟨false, c⟩ : Scanned).write = [c] := rfl

@[simp] theorem write_escaped (c : Char) : (⟨true, c⟩ : Scanned).write = [escapeMark, c] := rfl

theorem write_ne_nil (p : Scanned) : p.write ≠ [] := by
  obtain ⟨escaped, c⟩ := p
  cases escaped <;> simp

@[simp] theorem restore_eq_nil {pairs : List Scanned} : restore pairs = [] ↔ pairs = [] := by
  cases pairs <;> simp [write_ne_nil]

@[simp] theorem scan_nil : scan [] = [] := rfl

theorem scan_escaped_cons (c : Char) (rest : List Char) :
    scan (escapeMark :: c :: rest) = ⟨true, c⟩ :: scan rest := by
  simp [scan, scanWith]

theorem scan_plain_cons {c : Char} (plain : c ≠ escapeMark) (rest : List Char) :
    scan (c :: rest) = ⟨false, c⟩ :: scan rest := by
  cases rest <;> simp [scan, scanWith, plain]

theorem scan_induction {motive : List Char → Prop} (s : List Char) (empty : motive [])
    (bare : motive [escapeMark])
    (escaped : ∀ c rest, motive rest → motive (escapeMark :: c :: rest))
    (plain : ∀ c rest, c ≠ escapeMark → motive rest → motive (c :: rest)) : motive s := by
  match s with
  | [] => exact empty
  | [c] =>
    by_cases same : c = escapeMark
    · subst same; exact bare
    · exact plain c [] same empty
  | c :: d :: rest =>
    by_cases same : c = escapeMark
    · subst same
      exact escaped d rest (scan_induction rest empty bare escaped plain)
    · exact plain c (d :: rest) same (scan_induction (d :: rest) empty bare escaped plain)

@[simp] theorem restore_scan (s : List Char) : restore (scan s) = s := by
  induction s using scan_induction with
  | empty => rfl
  | bare => rfl
  | escaped c rest ih => simp [scan_escaped_cons, ih]
  | plain c rest plain ih => simp [scan_plain_cons plain, ih]

theorem scan_write_append {p : Scanned} (h : p ≠ bareMark) (rest : List Char) :
    scan (p.write ++ rest) = p :: scan rest := by
  obtain ⟨escaped, c⟩ := p
  cases escaped with
  | false => exact scan_plain_cons (fun same => h (congrArg (Scanned.mk false) same)) rest
  | true => exact scan_escaped_cons c rest

theorem scan_restore_append {pairs : List Scanned} (h : bareMark ∉ pairs) (rest : List Char) :
    scan (restore pairs ++ rest) = pairs ++ scan rest := by
  induction pairs with
  | nil => rfl
  | cons p pairs ih =>
    simp only [List.mem_cons, not_or] at h
    rw [restore_cons, List.append_assoc, scan_write_append (Ne.symm h.1), ih h.2, List.cons_append]

theorem scan_append_of_complete {text : List Char} (h : bareMark ∉ scan text) (rest : List Char) :
    scan (text ++ rest) = scan text ++ scan rest := by
  have whole := scan_restore_append h rest
  rwa [restore_scan] at whole

theorem scan_restore {pairs : List Scanned} (h : bareMark ∉ pairs) : scan (restore pairs) = pairs := by
  simpa using scan_restore_append h []

theorem scan_restore_of_dropLast {pairs : List Scanned} (h : bareMark ∉ pairs.dropLast) :
    scan (restore pairs) = pairs := by
  rcases List.eq_nil_or_concat pairs with rfl | ⟨front, p, rfl⟩
  · rfl
  · rw [List.concat_eq_append] at h ⊢
    rw [List.dropLast_concat] at h
    have last : scan (restore [p]) = [p] := by
      by_cases marked : p = bareMark
      · rw [marked]
        rfl
      · exact scan_restore (by simpa using Ne.symm marked)
    rw [restore_append, scan_restore_append h, last]

theorem bareMark_notMem_scan (s : List Char) : bareMark ∉ (scan s).dropLast := by
  induction s using scan_induction with
  | empty => simp
  | bare => simp [scan, scanWith]
  | escaped c rest ih =>
    rw [scan_escaped_cons]
    cases h : scan rest with
    | nil => simp
    | cons q qs => rw [h] at ih; simp [bareMark, List.dropLast_cons_cons] at ih ⊢; exact ih
  | plain c rest plain ih =>
    rw [scan_plain_cons plain]
    cases h : scan rest with
    | nil => simp
    | cons q qs =>
      rw [h] at ih
      simp only [List.dropLast_cons_cons, List.mem_cons, not_or]
      exact ⟨fun same => plain (congrArg Scanned.char same).symm, ih⟩

theorem unescape_restore {pairs : List Scanned} (h : bareMark ∉ pairs) :
    unescape (restore pairs) = pairs.map (·.char) := by
  rw [unescape, scan_restore h]

theorem unescape_concat_escapeMark {pairs : List Scanned} (clean : bareMark ∉ pairs) :
    unescape (restore pairs ++ [escapeMark]) = pairs.map (·.char) ++ [escapeMark] := by
  rw [unescape, scan_restore_append clean, List.map_append]
  rfl

@[simp] theorem scan_eq_nil {s : List Char} : scan s = [] ↔ s = [] := by
  rw [← restore_eq_nil, restore_scan]

theorem unescape_eq_nil {s : List Char} : unescape s = [] ↔ s = [] := by
  simp [unescape]

end BracketMarkup
