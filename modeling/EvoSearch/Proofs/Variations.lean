/-
# Variations

A record leaves a good deal open about the text it is read from. The members may come in any order,
those that have a default may be left out, and there may be others besides that nobody knows. A
variation of a value takes all of these liberties, in every object of it, and tells whether it also
takes the one that is forbidden: to give a known key more than once.

What is read from a variation is the same whatever order there is and whatever has been added, and
it depends on what was left out only member by member.
-/

import EvoSearch.Json.Decode

namespace EvoSearch.Json

variable {α β : Type} {dropped : List String → Bool} {key name : String}
  {members repeated extra shuffled : List (String × Json)} {held : String → Json}
  {original value : Json} {repeats : Bool}

/-! ## Liberties -/

/-- What is dropped of the value of a member. Members are told by the keys that lead to them. -/
def under (key : String) (dropped : List String → Bool) : List String → Bool :=
  fun path => dropped (key :: path)

/-- The keys of the members that stay. -/
def keptKeys (dropped : List String → Bool) (members : List (String × Json)) : List String :=
  (members.map Prod.fst).filter fun key => !dropped [key]

/-- The members of a variation of an object, in any order: those that stay, with what they hold now,
some whose keys are repeated, with whatever values, and some with other keys, whose values nest at
most 32 levels deep, with no number too large for a float and no half of a surrogate pair. -/
structure Rearranges (dropped : List String → Bool) (members : List (String × Json))
    (held : String → Json) (repeated extra shuffled : List (String × Json)) : Prop where
  known : ∀ member ∈ repeated, member.1 ∈ keptKeys dropped members
  unknown : ∀ member ∈ extra, member.1 ∉ members.map Prod.fst
  readable : ∀ member ∈ extra, isReadable 32 member.2 = true
  perm : shuffled.Perm
    ((keptKeys dropped members).map (fun key => (key, held key)) ++ repeated ++ extra)

/-- A value and a variation of it. The members of an object are rearranged, and the values of those
that stay may vary in turn. `repeats` tells whether a key was repeated in any of the objects. -/
inductive Varies :
    (dropped : List String → Bool) → (original value : Json) → (repeats : Bool) → Prop
  | same {dropped : List String → Bool} {value : Json} :
      (∀ members, value ≠ .object members) → Varies dropped value value false
  | object {dropped : List String → Bool} {members shuffled : List (String × Json)}
      (held : String → Json) (inner : String → Bool) (repeated extra : List (String × Json)) :
      (∀ member ∈ members, dropped [member.1] = false →
        Varies (under member.1 dropped) member.2 (held member.1) (inner member.1)) →
      Rearranges dropped members held repeated extra shuffled →
      Varies dropped (.object members) (.object shuffled)
        (!repeated.isEmpty || (keptKeys dropped members).any inner)

theorem mem_keptKeys : key ∈ keptKeys dropped members ↔
    key ∈ members.map Prod.fst ∧ dropped [key] = false := by
  rw [keptKeys, List.mem_filter, Bool.not_eq_true']

/-- Only objects vary. -/
theorem Varies.eq_of_plain (varies : Varies dropped original value repeats)
    (plain : ∀ members, original ≠ .object members) : value = original ∧ repeats = false := by
  cases varies with
  | same => exact ⟨rfl, rfl⟩
  | object => exact (plain _ rfl).elim

/-! ## Fields -/

/-- What a field of a variation holds: nothing if the member was dropped, and else a variation of
the value of the member. -/
inductive Follows (dropped : List String → Bool) (key : String) (original : Json) :
    (field : Option Json) → (repeats : Bool) → Prop
  | dropped : dropped [key] = true → Follows dropped key original none false
  | kept {value : Json} {repeats : Bool} : dropped [key] = false →
      Varies (under key dropped) original value repeats →
      Follows dropped key original (some value) repeats

theorem countP_key (row : List (String × Json)) (key : String) :
    row.countP (fun member => member.1 == key) = (row.map Prod.fst).count key := by
  rw [List.count, List.countP_map]
  rfl

/-- A member is found by its key, if that comes only once. -/
theorem lookup_of_mem {row : List (String × Json)} (once : (row.map Prod.fst).count key ≤ 1)
    (mem : (key, value) ∈ row) : row.lookup key = some value := by
  obtain ⟨front, back, rfl⟩ := List.append_of_mem mem
  rw [List.map_append, List.map_cons, List.count_append, List.count_cons_self] at once
  have absent : key ∉ front.map Prod.fst := List.count_eq_zero.mp (by omega)
  refine List.lookup_eq_some_iff.mpr ⟨front, back, rfl, fun member listed => ?_⟩
  rw [bne_iff_ne]
  rintro rfl
  exact absent (List.mem_map_of_mem listed)

theorem lookup_of_not_mem {row : List (String × Json)} (absent : key ∉ row.map Prod.fst) :
    row.lookup key = none := by
  refine List.lookup_eq_none_iff.mpr fun member listed => ?_
  rw [bne_iff_ne]
  rintro rfl
  exact absent (List.mem_map_of_mem listed)

theorem fields?_of_once {names : List String}
    (once : ∀ name ∈ names, (members.map Prod.fst).count name ≤ 1) :
    fields? names (.object members) = some fun name => members.lookup name := by
  refine if_pos (List.all_eq_true.mpr fun name listed => decide_eq_true ?_)
  rw [countP_key]
  exact once name listed

theorem fields?_of_twice {names : List String} (listed : name ∈ names)
    (twice : 2 ≤ (members.map Prod.fst).count name) : fields? names (.object members) = none := by
  refine if_neg fun all => ?_
  have once := of_decide_eq_true (List.all_eq_true.mp all name listed)
  rw [countP_key] at once
  omega

namespace Rearranges

/-- How often a known key comes in a variation: once if it stays, and as often again as it is
repeated. -/
theorem count_keys (rearranges : Rearranges dropped members held repeated extra shuffled)
    (listed : key ∈ members.map Prod.fst) : (shuffled.map Prod.fst).count key =
      (keptKeys dropped members).count key + (repeated.map Prod.fst).count key := by
  have absent : (extra.map Prod.fst).count key = 0 := by
    refine List.count_eq_zero.mpr fun added => ?_
    obtain ⟨member, mem, rfl⟩ := List.mem_map.mp added
    exact rearranges.unknown member mem listed
  have kept_keys : ((keptKeys dropped members).map fun key => (key, held key)).map Prod.fst =
      keptKeys dropped members := by
    rw [List.map_map]
    exact List.map_id _
  rw [(rearranges.perm.map Prod.fst).count_eq, List.map_append, List.map_append,
    List.count_append, List.count_append, absent, kept_keys, Nat.add_zero]

theorem twice (rearranges : Rearranges dropped members held repeated extra shuffled)
    {again : String × Json} (mem : again ∈ repeated) :
    again.1 ∈ members.map Prod.fst ∧ 2 ≤ (shuffled.map Prod.fst).count again.1 := by
  have kept := rearranges.known again mem
  have listed := (mem_keptKeys.mp kept).1
  have first := List.count_pos_iff.mpr kept
  have second := List.count_pos_iff.mpr (List.mem_map_of_mem (f := Prod.fst) mem)
  refine ⟨listed, ?_⟩
  rw [rearranges.count_keys listed]
  omega

variable (distinct : (members.map Prod.fst).Nodup)
include distinct

theorem once (rearranges : Rearranges dropped members held [] extra shuffled)
    (listed : key ∈ members.map Prod.fst) : (shuffled.map Prod.fst).count key ≤ 1 := by
  rw [rearranges.count_keys listed]
  exact List.nodup_iff_count.mp (distinct.filter _) key

theorem follows (rearranges : Rearranges dropped members held [] extra shuffled)
    {inner : String → Bool} (varies : ∀ member ∈ members, dropped [member.1] = false →
      Varies (under member.1 dropped) member.2 (held member.1) (inner member.1))
    {member : String × Json} (mem : member ∈ members) :
    Follows dropped member.1 member.2 (shuffled.lookup member.1)
      (!dropped [member.1] && inner member.1) := by
  have listed := List.mem_map_of_mem (f := Prod.fst) mem
  cases chosen : dropped [member.1] with
  | true =>
    have not_kept : member.1 ∉ keptKeys dropped members := by
      simp [mem_keptKeys, chosen]
    have absent : member.1 ∉ shuffled.map Prod.fst := by
      apply List.count_eq_zero.mp
      rw [rearranges.count_keys listed, List.count_eq_zero.mpr not_kept]
      rfl
    rw [lookup_of_not_mem absent]
    exact .dropped chosen
  | false =>
    have stays := mem_keptKeys.mpr ⟨listed, chosen⟩
    have kept : (member.1, held member.1) ∈ shuffled := by
      rw [rearranges.perm.mem_iff, List.append_nil]
      exact List.mem_append_left _ (List.mem_map_of_mem stays)
    rw [lookup_of_mem (rearranges.once distinct listed) kept]
    exact .kept chosen (varies member mem chosen)

end Rearranges

/-- A record is read from a variation of an object with its keys, unless one of them is repeated,
and every field holds what has become of its member. -/
theorem Varies.fields? (varies : Varies dropped (.object members) value repeats)
    (distinct : (members.map Prod.fst).Nodup) :
    Json.fields? (members.map Prod.fst) value = none ∧ repeats = true ∨
    ∃ field inner, Json.fields? (members.map Prod.fst) value = some field ∧
      repeats = (members.map Prod.fst).any inner ∧
      ∀ member ∈ members, Follows dropped member.1 member.2 (field member.1) (inner member.1) := by
  cases varies with
  | same plain => exact (plain _ rfl).elim
  | object held inner repeated extra varies rearranges =>
    cases repeated with
    | cons again repeated =>
      obtain ⟨listed, twice⟩ := rearranges.twice List.mem_cons_self
      exact .inl ⟨fields?_of_twice listed twice, rfl⟩
    | nil =>
      refine .inr ⟨_, fun key => !dropped [key] && inner key,
        fields?_of_once fun key listed => rearranges.once distinct listed, ?_,
        fun member mem => rearranges.follows distinct varies mem⟩
      rw [keptKeys, List.any_filter]
      rfl

/-! ## Reading -/

/-- What is read from the variations of a value: always the same, or nothing if a key is
repeated. -/
def Reads (dropped : List String → Bool) (original : Json) (read : Json → Option α) (result : α) :
    Prop :=
  ∀ value repeats, Varies dropped original value repeats →
    read value = if repeats then none else some result

theorem reads_of_plain {read : Json → Option α} {result : α}
    (plain : ∀ members, original ≠ .object members) (read_eq : read original = some result) :
    Reads dropped original read result := by
  intro value repeats varies
  obtain ⟨rfl, rfl⟩ := varies.eq_of_plain plain
  exact read_eq

/-- A field has its default if the member was dropped. -/
theorem Reads.withDefault {read : Json → Option α} {result : α} {field : Option Json}
    (reads : Reads (under key dropped) original read result)
    (follows : Follows dropped key original field repeats) (standard : α) :
    Json.withDefault read standard field =
      if repeats then none else some (if dropped [key] then standard else result) := by
  cases follows with
  | dropped chosen =>
    rw [if_pos chosen]
    rfl
  | kept chosen varies =>
    rw [if_neg (Bool.eq_false_iff.mp chosen)]
    exact reads _ _ varies

/-- A record is read field by field: all that is needed is what becomes of its fields. -/
theorem reads_of_fields {read : Json → Option α} {build : (String → Option Json) → Option α}
    {result : α} (names : List String) (names_eq : members.map Prod.fst = names)
    (distinct : names.Nodup) (read_eq : ∀ value, read value = fields? names value >>= build)
    (builds : ∀ field inner, (∀ member ∈ members,
        Follows dropped member.1 member.2 (field member.1) (inner member.1)) →
      build field = if names.any inner then none else some result) :
    Reads dropped (.object members) read result := by
  subst names_eq
  intro value repeats varies
  rw [read_eq]
  obtain ⟨refused, rfl⟩ | ⟨field, inner, found, rfl, follows⟩ := varies.fields? distinct
  · rw [refused]
    rfl
  · rw [found]
    exact builds field inner follows

theorem ite_bind (refused : Bool) (a : α) (f : α → Option β) :
    ((if refused then none else some a).bind f) = if refused then none else f a := by
  cases refused <;> rfl

theorem ite_any_cons (name : String) (names : List String) (inner : String → Bool) (x : Option α) :
    (if (name :: names).any inner then none else x) =
      if inner name then none else if names.any inner then none else x := by
  rw [List.any_cons]
  cases inner name <;> rfl

/-! ## Readable variations -/

theorem areReadable_iff {depth : Nat} {items : List Json} :
    areReadable depth items = true ↔ ∀ item ∈ items, isReadable depth item = true := by
  induction items with
  | nil => simp [areReadable]
  | cons item items ih => simp [areReadable, ih]

theorem membersReadable_iff {depth : Nat} : membersReadable depth members = true ↔
    ∀ member ∈ members, isReadable depth member.2 = true := by
  induction members with
  | nil => simp [membersReadable]
  | cons member members ih => simp [membersReadable, ih]

mutual

/-- What can be read can be read with more levels, too. -/
theorem isReadable_succ (depth : Nat) (value : Json) (readable : isReadable depth value = true) :
    isReadable (depth + 1) value = true := by
  match depth, value with
  | _, null => rfl
  | _, bool _ => rfl
  | _, number _ => exact readable
  | _, text _ => rfl
  | _, garbled => exact readable
  | depth + 1, array items => exact areReadable_succ depth items readable
  | depth + 1, object members => exact membersReadable_succ depth members readable

theorem areReadable_succ (depth : Nat) (items : List Json)
    (readable : areReadable depth items = true) : areReadable (depth + 1) items = true := by
  match items with
  | [] => rfl
  | item :: items =>
    rw [areReadable, Bool.and_eq_true] at readable ⊢
    exact ⟨isReadable_succ depth item readable.1, areReadable_succ depth items readable.2⟩

theorem membersReadable_succ (depth : Nat) (members : List (String × Json))
    (readable : membersReadable depth members = true) :
    membersReadable (depth + 1) members = true := by
  match members with
  | [] => rfl
  | (key, item) :: members =>
    rw [membersReadable, Bool.and_eq_true] at readable ⊢
    exact ⟨isReadable_succ depth item readable.1, membersReadable_succ depth members readable.2⟩

end

theorem isReadable_mono {depth deeper : Nat} (le : depth ≤ deeper)
    (readable : isReadable depth value = true) : isReadable deeper value = true := by
  induction le with
  | refl => exact readable
  | step _ ih => exact isReadable_succ _ value ih

/-- With as many levels as there may be in what is added, a variation of what can be read can be
read again. -/
theorem Varies.isReadable {depth : Nat} (varies : Varies dropped original value repeats)
    (single : repeats = false) (readable : Json.isReadable depth original = true) :
    Json.isReadable (depth + 32) value = true := by
  induction varies generalizing depth with
  | same => exact isReadable_mono (Nat.le_add_right depth 32) readable
  | object held inner repeated extra varies rearranges ih =>
    rw [Bool.or_eq_false_iff, Bool.not_eq_false', List.isEmpty_iff] at single
    obtain ⟨rfl, inner_single⟩ := single
    match depth with
    | 0 => cases readable
    | depth + 1 =>
      have each := membersReadable_iff.mp readable
      rw [Nat.add_right_comm]
      refine membersReadable_iff.mpr fun member mem => ?_
      rw [rearranges.perm.mem_iff, List.append_nil, List.mem_append] at mem
      cases mem with
      | inl kept =>
        -- a member that stays varies one level further in, where there is one level less to go
        obtain ⟨key, stays, rfl⟩ := List.mem_map.mp kept
        obtain ⟨listed, chosen⟩ := mem_keptKeys.mp stays
        obtain ⟨member, mem, rfl⟩ := List.mem_map.mp listed
        have inner_eq := List.any_eq_false.mp inner_single _ stays
        exact ih member mem chosen (Bool.eq_false_iff.mpr inner_eq) (each member mem)
      | inr added =>
        exact isReadable_mono (Nat.le_add_left 32 depth) (rearranges.readable member added)

/-! ## Tags -/

theorem filter_tag {row : List (String × Json)} {tag : String}
    (others : ∀ member ∈ row, member.1 ≠ tag) :
    (row.filter fun member => member.1 == tag) = [] :=
  List.filter_eq_nil_iff.mpr fun member mem => by simpa using others member mem

theorem filter_not_tag {row : List (String × Json)} {tag : String}
    (others : ∀ member ∈ row, member.1 ≠ tag) :
    (row.filter fun member => member.1 != tag) = row :=
  List.filter_eq_self.mpr fun member mem => bne_iff_ne.mpr (others member mem)

theorem keptKeys_cons {tag : String} (stays : dropped [tag] = false) (content : Json)
    (members : List (String × Json)) :
    keptKeys dropped ((tag, content) :: members) = tag :: keptKeys dropped members := by
  simp [keptKeys, stays]

namespace Rearranges

variable {tag : String} {content : Json} (fresh : tag ∉ members.map Prod.fst)
  (stays : dropped [tag] = false)

include fresh in
theorem kept_ne_tag : ∀ member ∈ (keptKeys dropped members).map fun key => (key, held key),
    member.1 ≠ tag := by
  rintro _ mem rfl
  obtain ⟨key, kept, rfl⟩ := List.mem_map.mp mem
  exact fresh (mem_keptKeys.mp kept).1

theorem extra_ne_tag
    (rearranges : Rearranges dropped ((tag, content) :: members) held repeated extra shuffled) :
    ∀ member ∈ extra, member.1 ≠ tag := by
  rintro member mem rfl
  exact rearranges.unknown member mem List.mem_cons_self

include fresh stays

/-- A tag is found once, and as often again as it is repeated. -/
theorem tags (rearranges : Rearranges dropped ((tag, content) :: members) held repeated extra
      shuffled) : (shuffled.filter fun member => member.1 == tag).Perm
    ((tag, held tag) :: repeated.filter fun member => member.1 == tag) := by
  have perm := rearranges.perm
  rw [keptKeys_cons stays, List.map_cons] at perm
  apply (perm.filter _).trans
  simp [filter_tag (kept_ne_tag fresh), filter_tag rearranges.extra_ne_tag]

/-- Without the tag, what is there is a rearrangement of the members. -/
theorem untagged (rearranges : Rearranges dropped ((tag, content) :: members) held repeated extra
      shuffled) (once : ∀ member ∈ repeated, member.1 ≠ tag) :
    Rearranges dropped members held repeated extra
      (shuffled.filter fun member => member.1 != tag) where
  known member mem := by
    have kept := rearranges.known member mem
    rw [keptKeys_cons stays] at kept
    exact List.mem_of_ne_of_mem (once member mem) kept
  unknown member mem listed := rearranges.unknown member mem (List.mem_cons_of_mem _ listed)
  readable := rearranges.readable
  perm := by
    have perm := rearranges.perm
    rw [keptKeys_cons stays, List.map_cons] at perm
    apply (perm.filter _).trans
    simp [filter_not_tag (kept_ne_tag fresh), filter_not_tag rearranges.extra_ne_tag,
      filter_not_tag once]

end Rearranges

/-- Besides its members, an object may have a tag. In a variation, either the tag is found more than
once, or it is found as it was, and what is there besides is a variation of the members. -/
theorem Varies.tagged {tag content : String}
    (varies : Varies dropped (.object ((tag, .text content) :: members)) value repeats)
    (fresh : tag ∉ members.map Prod.fst) (stays : dropped [tag] = false) :
    ∃ shuffled, value = .object shuffled ∧
      (2 ≤ (shuffled.filter fun member => member.1 == tag).length ∧ repeats = true ∨
        (shuffled.filter fun member => member.1 == tag) = [(tag, .text content)] ∧
          Varies dropped (.object members)
            (.object (shuffled.filter fun member => member.1 != tag)) repeats) := by
  cases varies with
  | same plain => exact (plain _ rfl).elim
  | @object _ _ shuffled held inner repeated extra varies rearranges =>
    refine ⟨shuffled, rfl, ?_⟩
    obtain ⟨held_eq, inner_eq⟩ : held tag = .text content ∧ inner tag = false :=
      (varies (tag, .text content) List.mem_cons_self stays).eq_of_plain nofun
    have tags := rearranges.tags fresh stays
    -- one of the repeated keys may be the tag itself
    cases again : repeated.filter fun member => member.1 == tag with
    | cons first more =>
      have found : repeated ≠ [] := by
        rintro rfl
        cases again
      rw [again] at tags
      refine .inl ⟨?_, by simp [found]⟩
      rw [tags.length_eq, List.length_cons, List.length_cons]
      omega
    | nil =>
      have once : ∀ member ∈ repeated, member.1 ≠ tag := fun member mem => by
        simpa using List.filter_eq_nil_iff.mp again member mem
      rw [again, held_eq] at tags
      refine .inr ⟨List.perm_singleton.mp tags, ?_⟩
      rw [keptKeys_cons stays, List.any_cons, inner_eq, Bool.false_or]
      exact .object held inner repeated extra
        (fun member mem => varies member (List.mem_cons_of_mem _ mem))
        (rearranges.untagged fresh stays once)

end EvoSearch.Json
