import BracketMarkup.Proofs.Scanning

namespace BracketMarkup

theorem scanFrom_escaped_cons (start : Nat) (c : Char) (rest : List Char) :
    scanFrom start (escapeMark :: c :: rest) = (start, ⟨true, c⟩) :: scanFrom (start + 2) rest := by
  rw [scanFrom, if_pos rfl]

theorem scanFrom_plain_cons (start : Nat) {c : Char} (plain : c ≠ escapeMark) (rest : List Char) :
    scanFrom start (c :: rest) = (start, ⟨false, c⟩) :: scanFrom (start + 1) rest := by
  cases rest with
  | nil => rfl
  | cons d rest => rw [scanFrom, if_neg plain]

theorem scanFrom_eq_mapIdx (start : Nat) (s : List Char) :
    scanFrom start s =
      (scan s).mapIdx fun k p => (start + (restore ((scan s).take k)).length, p) := by
  -- A pair in front moves all others on by what is written of it.
  have moved : ∀ (start : Nat) (p : Scanned) (pairs : List Scanned),
      (p :: pairs).mapIdx (fun k q => (start + (restore ((p :: pairs).take k)).length, q)) =
        (start, p) :: pairs.mapIdx
          fun k q => (start + p.write.length + (restore (pairs.take k)).length, q) := by
    intro start p pairs
    simp [List.mapIdx_cons, Nat.add_assoc]
  induction s using scan_induction generalizing start with
  | empty => rfl
  | bare => rfl
  | escaped c rest ih => rw [scanFrom_escaped_cons, scan_escaped_cons, moved, ih]; rfl
  | plain c rest plain ih => rw [scanFrom_plain_cons start plain, scan_plain_cons plain, moved, ih]; rfl

theorem map_snd_scanFrom (start : Nat) (s : List Char) : (scanFrom start s).map (·.2) = scan s := by
  induction s using scan_induction generalizing start with
  | empty => rfl
  | bare => rfl
  | escaped c rest ih => rw [scanFrom_escaped_cons, scan_escaped_cons, List.map_cons, ih]
  | plain c rest plain ih => rw [scanFrom_plain_cons start plain, scan_plain_cons plain, List.map_cons, ih]

theorem position_of_scanFrom {start position : Nat} {s : List Char} {front behind : List (Nat × Scanned)}
    {p : Scanned} (h : scanFrom start s = front ++ (position, p) :: behind) :
    position = start + (restore (front.map (·.2))).length := by
  have pairs : (scan s).take front.length = front.map (·.2) := by
    rw [← map_snd_scanFrom start s, h]
    simp
  have found : (scanFrom start s)[front.length]? = some (position, p) := by
    rw [h]
    simp
  rw [scanFrom_eq_mapIdx, List.getElem?_mapIdx, Option.map_eq_some_iff] at found
  obtain ⟨q, -, same⟩ := found
  rw [pairs] at same
  exact (congrArg Prod.fst same).symm

theorem scanFrom_place_iff {start position : Nat} {s : List Char} {pairs : List Scanned} {p : Scanned} :
    (∃ front behind, scanFrom start s = front ++ (position, p) :: behind ∧ front.map (·.2) = pairs) ↔
      ∃ tail, scan s = pairs ++ p :: tail ∧ position = start + (restore pairs).length := by
  constructor
  · rintro ⟨front, behind, scanned, rfl⟩
    refine ⟨behind.map (·.2), ?_, position_of_scanFrom scanned⟩
    rw [← map_snd_scanFrom start s, scanned]
    simp
  · rintro ⟨tail, split, rfl⟩
    rw [← map_snd_scanFrom start s] at split
    obtain ⟨front, later, scanned, rfl, shape⟩ := List.map_eq_append_iff.mp split
    obtain ⟨⟨position, q⟩, behind, rfl, rfl, -⟩ := List.map_eq_cons_iff.mp shape
    rw [← position_of_scanFrom scanned]
    exact ⟨front, behind, scanned, rfl⟩

theorem bareMark_notMem_filter {pairs : List Scanned} (clean : bareMark ∉ pairs.dropLast)
    (keep : Scanned → Bool) : bareMark ∉ (pairs.filter keep).dropLast := by
  rcases List.eq_nil_or_concat pairs with rfl | ⟨front, p, rfl⟩
  · simp
  · rw [List.concat_eq_append] at clean ⊢
    rw [List.dropLast_concat] at clean
    have inFront : bareMark ∉ front.filter keep := fun member => clean (List.mem_filter.mp member).1
    rw [List.filter_append]
    cases kept : keep p with
    | true => rwa [List.filter_cons_of_pos kept, List.filter_nil, List.dropLast_concat]
    | false =>
      rw [List.filter_cons_of_neg (by simp [kept]), List.filter_nil, List.append_nil]
      exact fun member => inFront (List.dropLast_subset _ member)

theorem scan_dropGuards (s : List Char) :
    scan (dropGuards s) = (scan s).filter (· ≠ ⟨true, ' '⟩) := by
  have kind : (fun p : Scanned => !p.isGuard) = fun p => decide (p ≠ ⟨true, ' '⟩) := by
    funext p
    obtain ⟨escaped, c⟩ := p
    rw [Bool.eq_iff_iff]
    cases escaped <;> simp [Scanned.isGuard]
  rw [dropGuards, kind, scan_restore_of_dropLast (bareMark_notMem_filter (bareMark_notMem_scan s) _)]

/-- Texts and the lists of pairs in which only the last one may be a bare mark are read and written as
    each other. Positions change nothing of this, and without the guards a list is still such a list. -/
theorem scan_inverts_restore (s : List Char) (pairs : List Scanned) :
    restore (scan s) = s ∧ bareMark ∉ (scan s).dropLast ∧
      (scan (restore pairs) = pairs ↔ bareMark ∉ pairs.dropLast) ∧
      scanFrom 0 s = (scan s).mapIdx (fun k p => ((restore ((scan s).take k)).length, p)) ∧
      bareMark ∉ ((scan s).filter (· ≠ ⟨true, ' '⟩)).dropLast ∧
      scan (dropGuards s) = (scan s).filter (· ≠ ⟨true, ' '⟩) := by
  have image : scan (restore pairs) = pairs ↔ bareMark ∉ pairs.dropLast := by
    refine ⟨fun same => ?_, scan_restore_of_dropLast⟩
    rw [← same]
    exact bareMark_notMem_scan (restore pairs)
  have positions := scanFrom_eq_mapIdx 0 s
  simp only [Nat.zero_add] at positions
  exact ⟨restore_scan s, bareMark_notMem_scan s, image, positions,
    bareMark_notMem_filter (bareMark_notMem_scan s) _, scan_dropGuards s⟩

end BracketMarkup
