import BracketMarkup.CommandLine.Convert
import BracketMarkup.Proofs.Splicing

namespace BracketMarkup

namespace Host.FileTree

theorem get?_put (location other : Location) (entry : Entry) (tree : FileTree) :
    (tree.put location entry).get? other = if location = other then some entry else tree.get? other := by
  induction tree with
  | nil => rfl
  | cons head rest ih =>
    obtain ⟨there, old⟩ := head
    rw [put]
    by_cases here : there = location
    · subst here
      rw [if_pos rfl, get?, get?]
      split <;> rfl
    · rw [if_neg here, get?, get?, ih]
      by_cases same : there = other
      · subst same
        rw [if_pos rfl, if_pos rfl, if_neg (Ne.symm here)]
      · rw [if_neg same, if_neg same]

theorem entry?_put {location : Location} (below : location ≠ []) (other : Location) (entry : Entry)
    (tree : FileTree) : FileTree.entry? (tree.put location entry) other =
      if location = other then some entry else tree.entry? other := by
  unfold entry?
  rw [get?_put]
  by_cases root : other = []
  · subst root
    rw [if_pos rfl, if_pos rfl, if_neg below]
  · rw [if_neg root, if_neg root]

theorem ne_root_of_free {tree : FileTree} {location : Location}
    (h : tree.entry? location ≠ some .directory) : location ≠ [] := by
  rintro rfl
  exact h rfl

section Put

variable {tree : FileTree} {location : Location} {entry : Entry}
  (free : tree.entry? location ≠ some .directory)
include free

theorem step_put {place next : Place} {name : List Char} (h : tree.step place name = .ok next) :
    (tree.put location entry).step place name = .ok next := by
  have kept : tree.entryAt? place = some .directory →
      (tree.put location entry).entryAt? place = some .directory := by
    intro found
    cases place with
    | above => rfl
    | nowhere => cases found
    | inside there =>
      have other : location ≠ there := by
        rintro rfl
        exact free found
      rw [entryAt?, entry?_put (ne_root_of_free free), if_neg other]
      exact found
  unfold step at h ⊢
  cases found : tree.entryAt? place with
  | none => rw [found] at h; cases h
  | some there =>
    cases there with
    | file content executable => rw [found] at h; cases h
    | directory =>
      rw [found] at h
      rw [kept found]
      exact h

theorem foldlM_step_put {names : List (List Char)} {place last : Place}
    (h : names.foldlM tree.step place = .ok last) :
    names.foldlM (tree.put location entry).step place = .ok last := by
  induction names generalizing place with
  | nil => exact h
  | cons name names ih =>
    rw [List.foldlM_cons] at h ⊢
    cases found : tree.step place name with
    | error fault => rw [found] at h; cases h
    | ok next =>
      rw [found] at h
      rw [step_put free found]
      exact ih h

theorem follow_put {origin place : Place} {path : List Char} (h : tree.follow origin path = .ok place) :
    (tree.put location entry).follow origin path = .ok place := by
  unfold follow at h ⊢
  split at h
  · cases h
  · rename_i filled
    split at h
    · cases h
    · rename_i short
      rw [if_neg filled, if_neg short]
      exact foldlM_step_put free h

end Put

theorem last_of_follow {tree : FileTree} {origin : Place} {path name : List Char} {location : Location}
    (h : tree.follow origin path = .ok (.inside location))
    (last : (components path).getLast? = some name) (named : name ≠ ['.'] ∧ name ≠ ['.', '.']) :
    location.getLast? = some name := by
  obtain ⟨front, shape⟩ := List.getLast?_eq_some_iff.mp last
  unfold follow at h
  split at h
  · cases h
  · split at h
    · cases h
    · dsimp only at h
      rw [shape, List.foldlM_append] at h
      cases reached : front.foldlM tree.step (if path.head? = some '/' then .above else origin) with
      | error fault => rw [reached] at h; cases h
      | ok place =>
        rw [reached] at h
        have final : tree.step place name = .ok (.inside location) := by
          have single : [name].foldlM tree.step place = tree.step place name := by
            rw [List.foldlM_cons]
            cases tree.step place name <;> rfl
          exact single.symm.trans h
        unfold step at final
        split at final
        · cases final
        · cases final
        · rw [if_neg named.1, if_neg named.2] at final
          split at final
          · cases final
          · cases place with
            | inside there => cases final; simp
            | above => cases final
            | nowhere => cases final

/-- A path leads to a file with some content. -/
structure Holds (tree : FileTree) (path : List Char) (location : Location) (bytes : Bytes) : Prop where
  whole : '\x00' ∉ path
  unslashed : path.getLast? ≠ some '/'
  follows : tree.follow (.inside []) path = .ok (.inside location)
  held : ∃ executable, tree.entry? location = some (.file bytes executable)

theorem checked_eq_ok {α : Type} {path : List Char} {outcome : Except Fault α} {value : α}
    (h : checked path outcome = .ok value) : '\x00' ∉ path ∧ outcome = .ok value := by
  unfold checked at h
  split at h
  · cases h
  · rename_i whole
    cases outcome with
    | error fault => cases h
    | ok found => cases h; exact ⟨whole, rfl⟩

theorem Holds.readBytes {tree : FileTree} {path : List Char} {location : Location} {bytes : Bytes}
    (h : tree.Holds path location bytes) : tree.readBytes path = .ok bytes := by
  obtain ⟨executable, entry⟩ := h.held
  have found : tree.find (.inside []) path = .ok (.inside location, .file bytes executable) := by
    simp only [find, h.follows, Bind.bind, Except.bind, entryAt?, entry, if_neg h.unslashed, Pure.pure,
      Except.pure]
  rw [FileTree.readBytes, checked, if_neg h.whole, bytesFrom, found]
  rfl

theorem holds_of_readBytes {tree : FileTree} {path : List Char} {bytes : Bytes}
    (h : tree.readBytes path = .ok bytes) : ∃ location, tree.Holds path location bytes := by
  obtain ⟨whole, read⟩ := checked_eq_ok h
  cases found : tree.find (.inside []) path with
  | error fault => rw [bytesFrom, found] at read; cases read
  | ok pair =>
    obtain ⟨place, entry⟩ := pair
    rw [bytesFrom, found] at read
    cases entry with
    | directory => cases read
    | file content executable =>
      cases read
      cases follows : tree.follow (.inside []) path with
      | error fault => rw [find, follows] at found; cases found
      | ok there =>
        simp only [find, follows, Bind.bind, Except.bind] at found
        split at found
        · cases found
        · cases found
        · rename_i held
          split at found
          · cases found
          · rename_i unslashed
            cases found
            cases place with
            | above => cases held
            | nowhere => cases held
            | inside location => exact ⟨location, whole, unslashed, follows, executable, held⟩

theorem put_put (location : Location) (entry later : Entry) (tree : FileTree) :
    FileTree.put location later (tree.put location entry) = tree.put location later := by
  induction tree with
  | nil => exact if_pos rfl
  | cons head rest ih =>
    obtain ⟨there, old⟩ := head
    rw [put, put]
    split
    · rename_i here
      rw [put, if_pos here]
    · rename_i other
      rw [put, if_neg other, ih]

/-- A path at which a file can be opened anew, and whether it can be executed. -/
structure Opens (tree : FileTree) (path : List Char) (location : Location) (executable : Bool) :
    Prop where
  whole : '\x00' ∉ path
  unslashed : path.getLast? ≠ some '/'
  follows : tree.follow (.inside []) path = .ok (.inside location)
  there : (∃ content, tree.entry? location = some (.file content executable)) ∨
    tree.entry? location = none ∧ executable = false

namespace Opens

variable {tree : FileTree} {path : List Char} {location : Location} {executable : Bool}

theorem free (h : tree.Opens path location executable) : tree.entry? location ≠ some .directory := by
  rcases h.there with ⟨content, held⟩ | ⟨none, -⟩
  · simp [held]
  · simp [none]

theorem write (h : tree.Opens path location executable) (content : Bytes) :
    checked path (tree.writeFrom (.inside []) path content) =
      .ok (tree.put location (.file content executable)) := by
  rw [checked, if_neg h.whole, writeFrom, h.follows]
  rcases h.there with ⟨old, held⟩ | ⟨none, rfl⟩
  · simp only [Bind.bind, Except.bind, entryAt?, held, if_neg h.unslashed]
    rfl
  · simp only [Bind.bind, Except.bind, entryAt?, none, if_neg h.unslashed]
    rfl

theorem put (h : tree.Opens path location executable) (content : Bytes) :
    FileTree.Opens (tree.put location (.file content executable)) path location executable := by
  refine ⟨h.whole, h.unslashed, follow_put h.free h.follows, .inl ⟨content, ?_⟩⟩
  rw [entry?_put (ne_root_of_free h.free), if_pos rfl]

end Opens

theorem opens_of_openAnew {tree opened : FileTree} {path : List Char}
    (h : tree.openAnew path = .ok opened) : ∃ location executable, tree.Opens path location executable := by
  obtain ⟨whole, wrote⟩ := checked_eq_ok h
  cases follows : tree.follow (.inside []) path with
  | error fault => rw [writeFrom, follows] at wrote; cases wrote
  | ok place =>
    simp only [writeFrom, follows, Bind.bind, Except.bind] at wrote
    split at wrote
    · rename_i location content executable there
      split at wrote
      · cases wrote
      · rename_i unslashed
        exact ⟨location, executable, whole, unslashed, follows, .inl ⟨content, there⟩⟩
    · rename_i location there
      split at wrote
      · cases wrote
      · rename_i unslashed
        exact ⟨location, false, whole, unslashed, follows, .inr ⟨there, rfl⟩⟩
    · cases wrote
    · cases wrote

theorem Opens.fill {tree : FileTree} {path : List Char} {location : Location} {executable : Bool}
    (h : tree.Opens path location executable) (device : Device) (text : List Char) :
    ∃ opened, tree.openAnew path = .ok opened ∧
      tree.write device path text = ((device.fill opened path (Utf8.encode text)).1,
        tree.put location (.file (device.fill opened path (Utf8.encode text)).2 executable)) := by
  refine ⟨_, h.write [], ?_⟩
  rw [FileTree.write, openAnew, h.write []]
  simp only [(h.put []).write, put_put]

theorem fill_cases (device : Device) (tree : FileTree) (path : List Char) (content : Bytes) :
    (device.fill tree path content = (.ok (), content)) ∨
      ∃ cause taken, taken <+: content ∧
        device.fill tree path content = (.error (.fault cause path), taken) := by
  rw [Device.fill]
  cases device tree path content with
  | none => exact .inl rfl
  | some stop => exact .inr ⟨stop.2, content.take stop.1, List.take_prefix _ _, rfl⟩

theorem write_of_openAnew {tree opened : FileTree} {path : List Char} (device : Device) (text : List Char)
    (h : tree.openAnew path = .ok opened) :
    ∃ location executable taken, tree.Opens path location executable ∧ taken <+: Utf8.encode text ∧
      (tree.write device path text).2 = tree.put location (.file taken executable) ∧
      ((tree.write device path text).1 = .ok () ∧ taken = Utf8.encode text ∨
        ∃ cause, (tree.write device path text).1 = .error (.fault cause path)) := by
  obtain ⟨location, executable, opens⟩ := opens_of_openAnew h
  obtain ⟨_, -, wrote⟩ := opens.fill device text
  rw [wrote]
  rcases fill_cases device _ path (Utf8.encode text) with filled | ⟨cause, taken, start, filled⟩
  · rw [filled]
    exact ⟨location, executable, _, opens, List.prefix_refl _, rfl, .inl ⟨rfl, rfl⟩⟩
  · rw [filled]
    exact ⟨location, executable, taken, opens, start, rfl, .inr ⟨cause, rfl⟩⟩

theorem write_of_refused {tree : FileTree} {path : List Char} {refusal : Refusal} (device : Device)
    (text : List Char) (h : tree.openAnew path = .error refusal) :
    tree.write device path text = (.error refusal, tree) := by
  rw [FileTree.write, h]

variable {device : Device} {tree after : FileTree} {path text : List Char}

theorem readBytes_write (h : tree.write device path text = (.ok (), after)) :
    after.readBytes path = .ok (Utf8.encode text) := by
  cases opening : tree.openAnew path with
  | error refusal => rw [write_of_refused device text opening] at h; cases h
  | ok opened =>
    obtain ⟨location, executable, taken, opens, -, left, full | ⟨cause, failed⟩⟩ :=
      write_of_openAnew device text opening
    · rw [h, full.2] at left
      change after = _ at left
      rw [left]
      have held : FileTree.entry? (tree.put location (.file (Utf8.encode text) executable)) location =
          some (.file (Utf8.encode text) executable) := by
        rw [entry?_put (ne_root_of_free opens.free), if_pos rfl]
      exact Holds.readBytes ⟨opens.whole, opens.unslashed, follow_put opens.free opens.follows,
        executable, held⟩
    · rw [h] at failed
      cases failed

theorem readBytes_write_other {outcome : Except Refusal Unit} {other name name' : List Char}
    {bytes : Bytes} (h : tree.write device other text = (outcome, after))
    (held : tree.readBytes path = .ok bytes)
    (last : (components path).getLast? = some name) (named : name ≠ ['.'] ∧ name ≠ ['.', '.'])
    (last' : (components other).getLast? = some name') (named' : name' ≠ ['.'] ∧ name' ≠ ['.', '.'])
    (different : name ≠ name') : after.readBytes path = .ok bytes := by
  cases opening : tree.openAnew other with
  | error refusal =>
    rw [write_of_refused device text opening] at h
    cases h
    exact held
  | ok opened =>
    obtain ⟨there, executable, taken, opens, -, left, -⟩ := write_of_openAnew device text opening
    rw [h] at left
    change after = _ at left
    rw [left]
    obtain ⟨location, whole, unslashed, follows, runnable, entry⟩ := holds_of_readBytes held
    have apart : there ≠ location := by
      rintro rfl
      -- One location has one name at its end, to which both paths lead.
      have same := (last_of_follow follows last named).symm.trans
        (last_of_follow opens.follows last' named')
      exact different (Option.some.inj same)
    refine Holds.readBytes ⟨whole, unslashed, follow_put opens.free follows, runnable, ?_⟩
    rw [entry?_put (ne_root_of_free opens.free), if_neg apart, entry]

theorem last_components {name : List Char} (flat : '/' ∉ name) (filled : name ≠ []) :
    (components name).getLast? = some name ∧
      ∀ front, (components (front ++ '/' :: name)).getLast? = some name := by
  have alone : components name = [name] := by
    rw [components, List.splitOn_eq_singleton flat]
    simp [filled]
  have whole : ∀ front, components (front ++ '/' :: name) = components front ++ components name := by
    intro front
    rw [components, List.splitOn_append_cons_self, List.filter_append]
    rfl
  refine ⟨by rw [alone]; rfl, fun front => ?_⟩
  rw [whole, alone, List.getLast?_concat]

theorem last_join {name : List Char} (flat : '/' ∉ name) (filled : name ≠ []) (directory : List Char) :
    (components (Path.join directory name)).getLast? = some name := by
  obtain ⟨alone, behind⟩ := last_components flat filled
  have relative : name.head? ≠ some '/' := fun first => flat (List.mem_of_head? first)
  rw [Path.join, if_neg relative]
  split
  · rename_i front
    rcases front with rfl | slash
    · exact alone
    · obtain ⟨front, rfl⟩ := List.getLast?_eq_some_iff.mp slash
      rw [List.append_assoc]
      exact behind front
  · exact behind directory

end Host.FileTree

namespace CommandLine

open Host FileTree

def pageFile (source : List Char) : List Char :=
  (Path.splitExtension (Path.base (Path.normalize source))).1 ++ ".html".toList

theorem pageName_eq (source directory : List Char) :
    pageName source directory = Path.join directory (pageFile source) := rfl

theorem slash_notMem_base (path : List Char) : '/' ∉ Path.base path := by
  intro member
  have dark := List.mem_takeWhile_imp (List.mem_reverse.mp member)
  simp at dark

theorem pageFile_name (source : List Char) : '/' ∉ pageFile source ∧ pageFile source ≠ [] ∧
    pageFile source ≠ ['.'] ∧ pageFile source ≠ ['.', '.'] := by
  have long : 5 ≤ (pageFile source).length := by
    rw [pageFile, List.length_append]
    exact Nat.le_add_left _ _
  refine ⟨?_, ?_, ?_, ?_⟩
  · intro member
    rcases List.mem_append.mp member with stem | extension
    · exact slash_notMem_base _ ((Path.splitExtension_sublist _).subset stem)
    · exact absurd extension (by decide)
  · intro empty
    rw [empty] at long
    simp at long
  · intro dot
    rw [dot] at long
    simp at long
  · intro dots
    rw [dots] at long
    simp at long

theorem last_pageName (source directory : List Char) :
    (components (pageName source directory)).getLast? = some (pageFile source) := by
  obtain ⟨flat, filled, -⟩ := pageFile_name source
  rw [pageName_eq]
  exact last_join flat filled directory

end CommandLine

end BracketMarkup
