/-
# What a sample takes

Whichever way a sample is drawn, it has as many rows as were asked for, or all there are, and takes
no row twice. Three of the ways choose positions first; the invariant is that the positions so far
are different ones, out of those that are in the running. The fourth swaps rows to the front, which
takes the row in front out of the list and puts another one in its place.
-/

import Mathlib.Data.List.Perm.Subperm
import EvoSearch.Proofs.Chance
import EvoSearch.Random.Sample

namespace EvoSearch.Draw

open Script

variable {α : Type}

/-- Different positions, all below `total`. -/
structure Picks (total : Nat) (positions : List Nat) : Prop where
  nodup : positions.Nodup
  below : ∀ position ∈ positions, position < total

theorem picks_nil (total : Nat) : Picks total [] where
  nodup := List.nodup_nil
  below _ mem := (List.not_mem_nil mem).elim

theorem Picks.perm {total : Nat} {positions others : List Nat} (picks : Picks total positions)
    (perm : positions.Perm others) : Picks total others where
  nodup := perm.nodup_iff.mp picks.nodup
  below position mem := picks.below position (perm.mem_iff.mpr mem)

theorem filterMap_getElem?_range (rows : List α) :
    (List.range rows.length).filterMap (fun position => rows[position]?) = rows := by
  induction rows with
  | nil => rfl
  | cons head rows ih => simp [List.range_succ_eq_map, List.filterMap_map, ih]

theorem rowsAt_eq (rows : List α) (positions : List Nat) :
    rowsAt rows positions = positions.filterMap fun position => rows[position]? := by
  simp [rowsAt]

/-- There is a row at every position that has been picked. -/
theorem Picks.length_rowsAt {rows : List α} {positions : List Nat}
    (picks : Picks rows.length positions) : (rowsAt rows positions).length = positions.length := by
  rw [rowsAt_eq]
  apply List.filterMap_length_eq_length.mpr
  intro position mem
  rw [List.getElem?_eq_getElem (picks.below position mem)]
  rfl

/-- The rows at the positions picked are taken from different places. -/
theorem Picks.subperm_rowsAt {rows : List α} {positions : List Nat}
    (picks : Picks rows.length positions) : (rowsAt rows positions).Subperm rows := by
  obtain ⟨ordered, perm, sublist⟩ := List.subperm_of_subset picks.nodup fun position mem =>
    List.mem_range.mpr (picks.below position mem)
  rw [rowsAt_eq]
  refine ⟨_, perm.filterMap _, ?_⟩
  have inside := sublist.filterMap fun position => rows[position]?
  rwa [filterMap_getElem?_range] at inside

/-- A way to put one more position to those taken: the fresh one, or the newest where the fresh one
has been taken before. -/
def Adds (put : (newest fresh : Nat) → List Nat → List Nat) : Prop :=
  ∀ newest fresh taken,
    (put newest fresh taken).Perm ((if fresh ∈ taken then newest else fresh) :: taken)

theorem adds_place : Adds place := by
  intro newest fresh taken
  induction taken with
  | nil => simp [place]
  | cons first rest ih =>
    rw [place]
    split
    · next same => simp [same]
    · next other =>
      have mem_iff : fresh ∈ first :: rest ↔ fresh ∈ rest := by simp [Ne.symm other]
      simp only [mem_iff]
      exact (ih.cons first).trans (.swap _ _ _)

theorem adds_placeLast : Adds placeLast := by
  intro newest fresh taken
  simp only [placeLast, List.contains_iff_mem]
  exact List.perm_append_singleton _ _

/-- With one more position in the running, one more can be taken. -/
theorem Picks.put {put : (newest fresh : Nat) → List Nat → List Nat} {newest fresh : Nat}
    {taken : List Nat} (picks : Picks newest taken) (adds : Adds put) (inside : fresh ≤ newest) :
    Picks (newest + 1) (put newest fresh taken) := by
  apply Picks.perm ?_ (adds newest fresh taken).symm
  have below (position : Nat) (mem : position ∈ taken) : position < newest + 1 :=
    Nat.lt_succ_of_lt (picks.below position mem)
  split
  · refine ⟨List.nodup_cons.mpr ⟨fun mem => ?_, picks.nodup⟩, ?_⟩
    · exact Nat.lt_irrefl newest (picks.below newest mem)
    · exact List.forall_mem_cons.mpr ⟨Nat.lt_succ_self newest, below⟩
  · next new =>
    exact ⟨List.nodup_cons.mpr ⟨new, picks.nodup⟩,
      List.forall_mem_cons.mpr ⟨Nat.lt_succ_of_le inside, below⟩⟩

theorem ensures_upTo32 (bound : Nat) :
    (upTo32 (UInt32.ofNat bound)).Ensures Choice.Admits fun number => number.toNat ≤ bound := by
  intro answer inside
  exact Nat.le_trans inside (Nat.mod_le _ _)

theorem ensures_growPositions {put : (newest fresh : Nat) → List Nat → List Nat} (adds : Adds put)
    {count newest : Nat} {taken : List Nat} (picks : Picks newest taken) :
    (growPositions put count newest taken).Ensures Choice.Admits fun positions =>
      Picks (newest + count) positions ∧ positions.length = taken.length + count := by
  induction count generalizing newest taken with
  | zero => exact ⟨picks, rfl⟩
  | succ count ih =>
    rw [growPositions]
    apply (ensures_upTo32 newest).bind
    intro fresh inside
    apply (ih (picks.put adds inside)).mono
    rintro positions ⟨all_picks, length_eq⟩
    rw [(adds newest fresh.toNat taken).length_eq, List.length_cons] at length_eq
    exact ⟨by rwa [Nat.add_assoc, Nat.add_comm 1] at all_picks, by omega⟩

theorem ensures_shuffleDown (last : Nat) (rows : Array α) :
    (shuffleDown last rows).Ensures Choice.Admits fun shuffled =>
      shuffled.toList.Perm rows.toList := by
  induction last generalizing rows with
  | zero => exact .refl _
  | succ last ih =>
    rw [shuffleDown]
    apply (ensures_upTo32 (last + 1)).bind
    intro position _
    apply (ih _).mono
    intro shuffled perm
    refine perm.trans (Array.perm_iff_toList_perm.mp ?_)
    rw [Array.swapIfInBounds]
    split
    · split
      · exact Array.swap_perm _ _
      · exact .refl _
    · exact .refl _

/-- One row taken out, and the one from the front put in its place. -/
theorem perm_of_set {rest : List α} {position : Nat} {chosen : α} (head : α)
    (found : rest[position]? = some chosen) :
    (chosen :: rest.set position head).Perm (head :: rest) := by
  obtain ⟨inside, rfl⟩ := List.getElem?_eq_some_iff.mp found
  have outside : (rest[position] :: rest.set position head).Perm
      (rest[position] :: head :: rest.eraseIdx position) :=
    (List.set_perm_cons_eraseIdx inside head).cons _
  have inside_again : (head :: rest[position] :: rest.eraseIdx position).Perm (head :: rest) :=
    (List.getElem_cons_eraseIdx_perm inside).cons head
  exact outside.trans ((List.Perm.swap _ _ _).trans inside_again)

theorem ensures_shuffleFront (count : Nat) (rows : List α) :
    (shuffleFront count rows).Ensures Choice.Admits fun picked =>
      picked.length = min count rows.length ∧ picked.Subperm rows := by
  induction count generalizing rows with
  | zero => exact ⟨(Nat.zero_min _).symm, List.nil_subperm⟩
  | succ count ih =>
    cases rows with
    | nil => exact ⟨rfl, .refl _⟩
    | cons head rest =>
      rw [shuffleFront]
      apply (ensures_upTo32 rest.length).bind
      intro offset inside
      split
      · apply (ih rest).bind
        rintro others ⟨length_eq, subperm⟩
        exact ⟨by simp [length_eq], (List.subperm_cons head).mpr subperm⟩
      · next position offset_eq =>
        obtain ⟨chosen, found⟩ : ∃ chosen, rest[position]? = some chosen :=
          ⟨_, List.getElem?_eq_getElem (by omega)⟩
        rw [found, ofOption_some, done_bind]
        apply (ih _).bind
        rintro others ⟨length_eq, subperm⟩
        refine ⟨by simpa using length_eq, ?_⟩
        exact ((List.subperm_cons chosen).mpr subperm).trans (perm_of_set head found).subperm

theorem ensures_drawNew {total : Nat} (positive : 0 < total) (taken : List Nat) :
    (drawNew total taken).Ensures Choice.Admits fun fresh =>
      fresh.toNat < total ∧ fresh.toNat ∉ taken := by
  rw [drawNew]
  split
  · rintro answer ⟨inside, new⟩
    have below : answer.toNat ≤ total - 1 := Nat.le_trans inside (Nat.mod_le _ _)
    exact ⟨by omega, by simpa using new⟩
  · rintro answer ⟨inside, new⟩
    have below := toNat_le_of_le_ofNat inside
    exact ⟨by omega, by simpa using new⟩

theorem ensures_drawApart {total count : Nat} {taken : List Nat} (picks : Picks total taken)
    (enough : taken.length + count ≤ total) :
    (drawApart total count taken).Ensures Choice.Admits fun positions =>
      Picks total positions ∧ positions.length = taken.length + count := by
  induction count generalizing taken with
  | zero => exact ⟨picks, rfl⟩
  | succ count ih =>
    rw [drawApart]
    apply (ensures_drawNew (by omega) taken).bind
    rintro fresh ⟨inside, new⟩
    have more : Picks total (fresh.toNat :: taken) :=
      ⟨List.nodup_cons.mpr ⟨new, picks.nodup⟩, List.forall_mem_cons.mpr ⟨inside, picks.below⟩⟩
    apply (ih more (by simp only [List.length_cons]; omega)).mono
    rintro positions ⟨all_picks, length_eq⟩
    exact ⟨all_picks, by simp only [List.length_cons] at length_eq; omega⟩

/-- A sample has `count` rows, or all if there are no more, and takes none of them twice. -/
theorem ensures_sample (rows : List α) (count : Nat) :
    (sample rows count).Ensures Choice.Admits fun picked =>
      picked.length = min count rows.length ∧ picked.Subperm rows := by
  have enough : rows.length - min count rows.length + min count rows.length = rows.length := by
    omega
  have taken {positions : List Nat} (picks : Picks rows.length positions)
      (length_eq : positions.length = min count rows.length) :
      (rowsAt rows positions).length = min count rows.length ∧
        (rowsAt rows positions).Subperm rows :=
    ⟨picks.length_rowsAt.trans length_eq, picks.subperm_rowsAt⟩
  rw [sample]
  split
  · apply (ensures_growPositions adds_place (picks_nil _)).bind
    rintro positions ⟨picks, length_eq⟩
    rw [enough] at picks
    exact taken picks (by simpa using length_eq)
  · apply (ensures_growPositions adds_placeLast (picks_nil _)).bind
    rintro positions ⟨picks, length_eq⟩
    rw [enough] at picks
    apply (ensures_shuffleDown _ _).bind
    intro shuffled perm
    exact taken (picks.perm perm.symm) (by simpa [perm.length_eq] using length_eq)
  · apply (ensures_shuffleFront _ rows).mono
    rintro picked ⟨length_eq, subperm⟩
    exact ⟨by omega, subperm⟩
  · have all_fit : ([] : List Nat).length + min count rows.length ≤ rows.length := by
      rw [List.length_nil, Nat.zero_add]
      exact Nat.min_le_right _ _
    apply (ensures_drawApart (picks_nil _) all_fit).bind
    rintro positions ⟨picks, length_eq⟩
    exact taken (picks.perm (List.reverse_perm positions).symm) (by simpa using length_eq)

end EvoSearch.Draw
