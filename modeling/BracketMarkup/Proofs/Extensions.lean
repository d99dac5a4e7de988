import BracketMarkup.Proofs.Splicing

namespace BracketMarkup

theorem span_absent {c : Char} {front rest : List Char} (absent : c ∉ front)
    (stops : rest = [] ∨ rest.head? = some c) :
    (front ++ rest).takeWhile (· != c) = front ∧ (front ++ rest).dropWhile (· != c) = rest := by
  refine span_append rest (fun d member => ?_) fun d first => ?_
  · rw [bne_iff_ne]
    rintro rfl
    exact absent member
  · rcases stops with rfl | same
    · cases first
    · rw [first] at same
      simpa using same

namespace Path

theorem splitLast_of_flat {front name : List Char} (flat : '/' ∉ name)
    (ends : front = [] ∨ front.getLast? = some '/') : splitLast (front ++ name) = (front, name) := by
  have taken : ((front ++ name).reverse.takeWhile (· != '/')).reverse = name := by
    rw [List.reverse_append, (span_absent (by simpa using flat) (by simpa using ends)).1,
      List.reverse_reverse]
  rw [splitLast, taken, List.length_append, Nat.add_sub_cancel, List.take_left]

theorem exists_dots_append {name : List Char} (letter : ∃ c ∈ name, c ≠ '.') :
    ∃ dots c more, name = dots ++ c :: more ∧ (∀ d ∈ dots, (d == '.') = true) ∧ (c == '.') = false := by
  have filled : name.dropWhile (· == '.') ≠ [] := by
    obtain ⟨c, member, other⟩ := letter
    rw [ne_eq, List.dropWhile_eq_nil_iff]
    exact fun dotted => other (by simpa using dotted c member)
  obtain ⟨c, more, shape⟩ := List.exists_cons_of_ne_nil filled
  have first := List.head?_dropWhile_not (· == '.') name
  rw [shape] at first
  refine ⟨name.takeWhile (· == '.'), c, more, ?_, fun d member => ?_, by simpa using first⟩
  · rw [← shape, List.takeWhile_append_dropWhile]
  · exact List.mem_takeWhile_imp (p := (· == '.')) member

theorem splitComponent_of_dotless {stem extension : List Char} (letter : ∃ c ∈ stem, c ≠ '.')
    (dotless : '.' ∉ extension) :
    splitComponent (stem ++ '.' :: extension) = (stem, '.' :: extension) := by
  obtain ⟨dots, c, more, rfl, all, other⟩ := exists_dots_append letter
  obtain ⟨leading, rest⟩ := span_append (p := (· == '.')) (c :: more ++ '.' :: extension) all
    fun d first => by cases first; exact other
  have after : ((c :: more ++ '.' :: extension).reverse.takeWhile (· != '.')).reverse = extension := by
    rw [List.reverse_append, List.reverse_cons, List.append_assoc,
      (span_absent (by simpa using dotless) (.inr rfl)).1, List.reverse_reverse]
  have size : (c :: more ++ '.' :: extension).length - extension.length - 1 = (c :: more).length := by
    rw [List.length_append, List.length_cons, List.length_cons]
    omega
  rw [splitComponent, List.append_assoc]
  dsimp only
  rw [leading, rest, if_pos (by simp), after, size, List.take_left]

theorem splitComponent_cases (name : List Char) :
    (∃ stem extension, name = stem ++ '.' :: extension ∧ (∃ c ∈ stem, c ≠ '.') ∧ '.' ∉ extension) ∨
      splitComponent name = (name, []) := by
  by_cases dotted : '.' ∈ name.dropWhile (· == '.')
  · left
    obtain ⟨after, before, shape, dotless⟩ :=
      List.eq_append_cons_of_mem (List.mem_reverse.mpr dotted)
    have rest : name.dropWhile (· == '.') = before.reverse ++ '.' :: after.reverse := by
      rw [← List.reverse_reverse (name.dropWhile (· == '.')), shape]
      simp
    -- What is left without the dots in front does not begin with a dot.
    have head := List.head?_dropWhile_not (· == '.') name
    rw [rest] at head
    refine ⟨name.takeWhile (· == '.') ++ before.reverse, after.reverse, ?_, ?_, by simpa using dotless⟩
    · rw [List.append_assoc, ← rest, List.takeWhile_append_dropWhile]
    · cases first : before.reverse with
      | nil =>
        rw [first] at head
        simp at head
      | cons c more =>
        rw [first] at head
        exact ⟨c, by simp, by simpa using head⟩
  · right
    rw [splitComponent]
    dsimp only
    rw [if_neg dotted]

theorem letter_splitComponent {name : List Char} (letter : ∃ c ∈ name, c ≠ '.') :
    ∃ c ∈ (splitComponent name).1, c ≠ '.' := by
  rcases splitComponent_cases name with ⟨stem, extension, rfl, inStem, dotless⟩ | whole
  · rwa [splitComponent_of_dotless inStem dotless]
  · rwa [whole]

end Path

namespace Template

def extended (name extension : List Char) : List Char :=
  let stem := (Path.splitComponent name).1
  if extension = [] then stem else stem ++ '.' :: extension

theorem mem_extended {name extension : List Char} {c : Char} (h : c ∈ extended name extension) :
    c ∈ name ∨ c = '.' ∨ c ∈ extension := by
  have stem := (Path.splitComponent_sublist name).subset (a := c)
  rw [extended] at h
  split at h
  · exact .inl (stem h)
  · rcases List.mem_append.mp h with kept | added
    · exact .inl (stem kept)
    · exact .inr (List.mem_cons.mp added)

theorem slash_notMem_extended {name extension : List Char} (flat : '/' ∉ name)
    (slashless : '/' ∉ extension) : '/' ∉ extended name extension := by
  intro member
  rcases mem_extended member with inName | dot | added
  · exact flat inName
  · exact absurd dot (by decide)
  · exact slashless added

theorem extended_extended {name first : List Char} (letter : ∃ c ∈ name, c ≠ '.')
    (filled : first ≠ []) (dotless : '.' ∉ first) (second : List Char) :
    extended (extended name first) second = extended name second := by
  have stem : (Path.splitComponent (extended name first)).1 = (Path.splitComponent name).1 := by
    rw [extended]
    rw [if_neg filled, Path.splitComponent_of_dotless (Path.letter_splitComponent letter) dotless]
  rw [extended, stem, extended]

theorem replaceExtension_of_flat {front name extension : List Char} (flat : '/' ∉ name)
    (ends : front = [] ∨ front.getLast? = some '/') (filled : name ≠ []) (colonless : ':' ∉ extension) :
    replaceExtension (extension ++ ':' :: (front ++ name)) = .ok (front ++ extended name extension) := by
  obtain ⟨taken, left⟩ : (extension ++ ':' :: (front ++ name)).takeWhile (· != ':') = extension ∧
      (extension ++ ':' :: (front ++ name)).dropWhile (· != ':') = ':' :: (front ++ name) :=
    span_absent colonless (.inr rfl)
  have path : front ++ name ≠ [] := by simp [filled]
  have stem : (Path.splitExtension (front ++ name)).1 = front ++ (Path.splitComponent name).1 := by
    rw [Path.splitExtension, Path.splitLast_of_flat flat ends]
  rw [replaceExtension, taken, left, extended]
  obtain ⟨c, rest, shape⟩ := List.exists_cons_of_ne_nil path
  rw [shape] at stem ⊢
  dsimp only
  rw [stem]
  split <;> simp

/-- Of two extensions that are set on a path only the last one is seen, and the directory stays. The
    path is what stands up to its last slash, if it has one, and its last component. -/
theorem replaceExtension_twice {front name first second : List Char} (flat : '/' ∉ name)
    (ends : front = [] ∨ front.getLast? = some '/') (letter : ∃ c ∈ name, c ≠ '.')
    (filled : first ≠ []) (plain : '.' ∉ first ∧ '/' ∉ first ∧ ':' ∉ first) (colonless : ':' ∉ second) :
    ∃ once result, replaceExtension (first ++ ':' :: (front ++ name)) = .ok once ∧
      replaceExtension (second ++ ':' :: once) = .ok result ∧
      replaceExtension (second ++ ':' :: (front ++ name)) = .ok result ∧
      ('/' ∉ second → ∃ last, '/' ∉ last ∧ result = front ++ last) := by
  obtain ⟨dotless, slashless, unparted⟩ := plain
  have named : name ≠ [] := by
    rintro rfl
    obtain ⟨c, member, -⟩ := letter
    cases member
  have kept : extended name first ≠ [] := by
    rw [extended]
    rw [if_neg filled]
    simp
  refine ⟨front ++ extended name first, front ++ extended name second,
    replaceExtension_of_flat flat ends named unparted, ?_,
    replaceExtension_of_flat flat ends named colonless,
    fun slashless => ⟨_, slash_notMem_extended flat slashless, rfl⟩⟩
  rw [replaceExtension_of_flat (slash_notMem_extended flat slashless) ends kept colonless,
    extended_extended letter filled dotless]

theorem replaceExtension_twice_hidden :
    let front := ['a', '.', 'b', ':', '/']
    let name := ['.', '.', 'c', '.', 'd', '.']
    '/' ∉ name ∧ (front = [] ∨ front.getLast? = some '/') ∧ (∃ c ∈ name, c ≠ '.') ∧
      ['x'] ≠ [] ∧ ('.' ∉ ['x'] ∧ '/' ∉ ['x'] ∧ ':' ∉ ['x']) ∧ ':' ∉ ['y', '.', 'z'] ∧
      ∃ once result, replaceExtension (['x'] ++ ':' :: (front ++ name)) = .ok once ∧
        replaceExtension (['y', '.', 'z'] ++ ':' :: once) = .ok result ∧
        replaceExtension (['y', '.', 'z'] ++ ':' :: (front ++ name)) = .ok result ∧
        ('/' ∉ ['y', '.', 'z'] → ∃ last, '/' ∉ last ∧ result = front ++ last) := by
  intro front name
  have flat : '/' ∉ name := by decide
  have ends : front = [] ∨ front.getLast? = some '/' := .inr rfl
  have letter : ∃ c ∈ name, c ≠ '.' := ⟨'c', by decide, by decide⟩
  have filled : ['x'] ≠ [] := by decide
  have plain : '.' ∉ ['x'] ∧ '/' ∉ ['x'] ∧ ':' ∉ ['x'] := by decide
  have colonless : ':' ∉ ['y', '.', 'z'] := by decide
  exact ⟨flat, ends, letter, filled, plain, colonless,
    replaceExtension_twice flat ends letter filled plain colonless⟩

end Template

end BracketMarkup
