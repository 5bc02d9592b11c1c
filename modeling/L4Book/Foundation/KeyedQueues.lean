import Mathlib.Data.List.Basic
import Mathlib.Data.List.Nodup
import Mathlib.Data.Set.Finite.Basic

/-!
# Keyed FIFO queues

A finite family of first-in-first-out queues: every item has a *place*, which says which queue it
stands in, and a *key*, which no other item of the family has. Items also satisfy an invariant
`ok` of the user's choice. All of this is carried by the structure, so an ill-formed family cannot
be written down.

Three operations suffice for a family whose items come, change in place, and go: `push` appends an
item to its queue, `filterMap` sends every item through a function that may change or drop it but
may not move it, and `find` looks an item up by its key.

## Main definitions

* `KeyedQueues`: the families
* `KeyedQueues.push`, `filterMap`, `find`, `Live`
* `KeyedQueues.Ahead`: one key stands before another in a queue

## Main results

* `KeyedQueues.eq_of_key_eq`: keys identify items
* `KeyedQueues.filterMap_filterMap`: item-wise changes compose
* `KeyedQueues.ahead_push_iff`, `ahead_filterMap_iff`: what becomes of the order of two items
* `KeyedQueues.ahead_iff_mem_left`: who stands ahead of an item
-/

namespace L4Book

/-- A finite family of FIFO queues, whose items know their queue and have unique keys. -/
@[ext (iff := false)]
structure KeyedQueues {α κ ι : Type*} (place : α → κ) (key : α → ι) (ok : α → Prop) where
  /-- The queue at each place, front first. -/
  queue : κ → List α
  placed : ∀ {k x}, x ∈ queue k → place x = k
  valid : ∀ {k x}, x ∈ queue k → ok x
  nodup : ∀ k, ((queue k).map key).Nodup
  keyed : ∀ {k l x y}, x ∈ queue k → y ∈ queue l → key x = key y → k = l
  finite : {k | queue k ≠ []}.Finite

namespace KeyedQueues

variable {α κ ι : Type*} {place : α → κ} {key : α → ι} {ok : α → Prop}

/-! ### Items and keys -/

instance : Membership α (KeyedQueues place key ok) where
  mem Q x := x ∈ Q.queue (place x)

variable {Q : KeyedQueues place key ok} {k l : κ} {x y : α} {i j : ι}

theorem mem_def : x ∈ Q ↔ x ∈ Q.queue (place x) := Iff.rfl

theorem mem_of_mem_queue (h : x ∈ Q.queue k) : x ∈ Q := by
  have hk : place x = k := Q.placed h
  rw [mem_def, hk]
  exact h

theorem mem_queue_iff : x ∈ Q.queue k ↔ x ∈ Q ∧ place x = k := by
  constructor
  · exact fun h => ⟨mem_of_mem_queue h, Q.placed h⟩
  · rintro ⟨h, rfl⟩
    exact h

/-- **Keys identify items.** -/
theorem eq_of_key_eq (hx : x ∈ Q) (hy : y ∈ Q) (hkey : key x = key y) : x = y := by
  have hplace : place x = place y := Q.keyed hx hy hkey
  rw [mem_def, hplace] at hx
  exact List.inj_on_of_nodup_map (Q.nodup _) hx hy hkey

theorem queue_nodup (Q : KeyedQueues place key ok) (k : κ) : (Q.queue k).Nodup :=
  (Q.nodup k).of_map

/-- An item splits its queue in one way only. -/
theorem split_unique {l r l' r' : List α} (h : Q.queue k = l ++ x :: r)
    (h' : Q.queue k = l' ++ x :: r') : l = l' ∧ r = r' := by
  have hnodup := Q.queue_nodup k
  rw [h] at hnodup
  have hnot : x ∉ l ++ r := (List.nodup_cons.mp (List.perm_middle.nodup_iff.mp hnodup)).1
  rw [List.mem_append, not_or] at hnot
  obtain ⟨hl, -, hr⟩ :=
    (List.append_cons_inj_of_notMem hnot.1 hnot.2).mp (h.symm.trans h')
  exact ⟨hl, hr⟩

/-- Some item of the family has key `i`. -/
def Live (Q : KeyedQueues place key ok) (i : ι) : Prop := ∃ x ∈ Q, key x = i

theorem Live.of_mem (h : x ∈ Q) : Q.Live (key x) := ⟨x, h, rfl⟩

open Classical in
/-- The item with key `i`, if there is one. -/
noncomputable def find (Q : KeyedQueues place key ok) (i : ι) : Option α :=
  if h : Q.Live i then some h.choose else none

theorem find_eq_some_iff : Q.find i = some x ↔ x ∈ Q ∧ key x = i := by
  unfold find
  split
  · rename_i h
    have hspec := h.choose_spec
    constructor
    · intro heq
      rw [← Option.some.inj heq]
      exact hspec
    · rintro ⟨hx, hkey⟩
      rw [eq_of_key_eq hspec.1 hx (hspec.2.trans hkey.symm)]
  · rename_i h
    constructor
    · intro heq
      nomatch heq
    · rintro ⟨hx, hkey⟩
      exact absurd ⟨x, hx, hkey⟩ h

theorem find_eq_none_iff : Q.find i = none ↔ ¬ Q.Live i := by
  unfold find
  split <;> simp_all

theorem find_of_mem (h : x ∈ Q) : Q.find (key x) = some x :=
  find_eq_some_iff.mpr ⟨h, rfl⟩

theorem live_iff_find : Q.Live i ↔ ∃ x, Q.find i = some x := by
  simp only [find_eq_some_iff, Live]

/-! ### The empty family -/

/-- No items at all. -/
def empty : KeyedQueues place key ok where
  queue := fun _ => []
  placed := fun h => absurd h List.not_mem_nil
  valid := fun h => absurd h List.not_mem_nil
  nodup := fun _ => List.nodup_nil
  keyed := fun h => absurd h List.not_mem_nil
  finite := by simp

@[simp] theorem queue_empty (k : κ) : (empty : KeyedQueues place key ok).queue k = [] := rfl

theorem not_mem_empty : x ∉ (empty : KeyedQueues place key ok) := List.not_mem_nil

theorem not_live_empty : ¬ (empty : KeyedQueues place key ok).Live i :=
  fun ⟨_, h, _⟩ => not_mem_empty h

/-! ### Appending an item -/

section Push

variable [DecidableEq κ]

/-- Append an item with a new key to the queue at its place. -/
def push (Q : KeyedQueues place key ok) (x : α) (hok : ok x) (hnew : ¬ Q.Live (key x)) :
    KeyedQueues place key ok where
  queue := fun k => if k = place x then Q.queue k ++ [x] else Q.queue k
  placed := by
    intro k y hy
    split at hy
    · rename_i hk
      rcases List.mem_append.mp hy with h | h
      · exact Q.placed h
      · rw [List.mem_singleton.mp h, hk]
    · exact Q.placed hy
  valid := by
    intro k y hy
    split at hy
    · rcases List.mem_append.mp hy with h | h
      · exact Q.valid h
      · rwa [List.mem_singleton.mp h]
    · exact Q.valid hy
  nodup := by
    intro k
    split
    · rw [List.map_append, List.map_singleton]
      refine List.nodup_append.mpr ⟨Q.nodup k, by simp, ?_⟩
      intro a ha b hb
      obtain ⟨y, hy, rfl⟩ := List.mem_map.mp ha
      rw [List.mem_singleton.mp hb]
      exact fun h => hnew ⟨y, mem_of_mem_queue hy, h⟩
    · exact Q.nodup k
  keyed := by
    have key_ne : ∀ {k y}, y ∈ Q.queue k → key y ≠ key x :=
      fun hy h => hnew ⟨_, mem_of_mem_queue hy, h⟩
    have cases : ∀ {k y}, y ∈ (if k = place x then Q.queue k ++ [x] else Q.queue k) →
        y ∈ Q.queue k ∨ (y = x ∧ k = place x) := by
      intro k y hy
      split at hy
      · rename_i hk
        rcases List.mem_append.mp hy with h | h
        · exact Or.inl h
        · exact Or.inr ⟨List.mem_singleton.mp h, hk⟩
      · exact Or.inl hy
    intro k l y z hy hz hkey
    rcases cases hy with hy' | ⟨hyx, hk⟩ <;> rcases cases hz with hz' | ⟨hzx, hl⟩
    · exact Q.keyed hy' hz' hkey
    · exact absurd (hzx ▸ hkey) (key_ne hy')
    · exact absurd (hyx ▸ hkey.symm) (key_ne hz')
    · rw [hk, hl]
  finite := by
    refine (Q.finite.insert (place x)).subset ?_
    intro k hk
    by_cases h : k = place x
    · exact Or.inl h
    · exact Or.inr (by simpa [h] using hk)

variable {hok : ok x} {hnew : ¬ Q.Live (key x)}

theorem queue_push (k : κ) :
    (Q.push x hok hnew).queue k = if k = place x then Q.queue k ++ [x] else Q.queue k := rfl

@[simp] theorem queue_push_self : (Q.push x hok hnew).queue (place x) = Q.queue (place x) ++ [x] :=
  if_pos rfl

theorem queue_push_of_ne (h : k ≠ place x) : (Q.push x hok hnew).queue k = Q.queue k := if_neg h

@[simp] theorem mem_push : y ∈ Q.push x hok hnew ↔ y ∈ Q ∨ y = x := by
  rw [mem_def, queue_push]
  by_cases h : place y = place x
  · rw [if_pos h, List.mem_append, List.mem_singleton, mem_def]
  · rw [if_neg h, mem_def]
    exact ⟨Or.inl, fun hy => hy.resolve_right fun he => h (congrArg place he)⟩

theorem live_push : (Q.push x hok hnew).Live i ↔ Q.Live i ∨ key x = i := by
  simp only [Live, mem_push]
  constructor
  · rintro ⟨y, hy | rfl, h⟩
    · exact Or.inl ⟨y, hy, h⟩
    · exact Or.inr h
  · rintro (⟨y, hy, h⟩ | h)
    · exact ⟨y, Or.inl hy, h⟩
    · exact ⟨x, Or.inr rfl, h⟩

end Push

/-! ### Changing and dropping items where they stand -/

/-- `g` leaves the place and the key of every item it keeps, and keeps valid items valid. -/
structure StaysPut (place : α → κ) (key : α → ι) (ok : α → Prop) (g : α → Option α) : Prop where
  place_eq : ∀ {x y}, g x = some y → place y = place x
  key_eq : ∀ {x y}, g x = some y → key y = key x
  ok : ∀ {x y}, g x = some y → ok x → ok y

theorem StaysPut.bind {g h : α → Option α} (hg : StaysPut place key ok g)
    (hh : StaysPut place key ok h) : StaysPut place key ok fun x => (g x).bind h where
  place_eq := by
    intro x z hz
    obtain ⟨y, hy, hz⟩ := Option.bind_eq_some_iff.mp hz
    exact (hh.place_eq hz).trans (hg.place_eq hy)
  key_eq := by
    intro x z hz
    obtain ⟨y, hy, hz⟩ := Option.bind_eq_some_iff.mp hz
    exact (hh.key_eq hz).trans (hg.key_eq hy)
  ok := by
    intro x z hz hx
    obtain ⟨y, hy, hz⟩ := Option.bind_eq_some_iff.mp hz
    exact hh.ok hz (hg.ok hy hx)

theorem map_key_filterMap_sublist {g : α → Option α} (hg : StaysPut place key ok g)
    (xs : List α) : ((xs.filterMap g).map key).Sublist (xs.map key) := by
  induction xs with
  | nil => exact List.Sublist.slnil
  | cons x xs ih =>
    cases h : g x with
    | none =>
      rw [List.filterMap_cons_none h, List.map_cons]
      exact ih.cons _
    | some y =>
      rw [List.filterMap_cons_some h, List.map_cons, List.map_cons, hg.key_eq h]
      exact ih.cons_cons _

/-- Send every item through `g`. -/
def filterMap (Q : KeyedQueues place key ok) (g : α → Option α)
    (hg : StaysPut place key ok g) : KeyedQueues place key ok where
  queue := fun k => (Q.queue k).filterMap g
  placed := by
    intro k y hy
    obtain ⟨x, hx, h⟩ := List.mem_filterMap.mp hy
    exact (hg.place_eq h).trans (Q.placed hx)
  valid := by
    intro k y hy
    obtain ⟨x, hx, h⟩ := List.mem_filterMap.mp hy
    exact hg.ok h (Q.valid hx)
  nodup := fun k => (Q.nodup k).sublist (map_key_filterMap_sublist hg _)
  keyed := by
    intro k l y z hy hz hkey
    obtain ⟨x, hx, h⟩ := List.mem_filterMap.mp hy
    obtain ⟨w, hw, h'⟩ := List.mem_filterMap.mp hz
    exact Q.keyed hx hw ((hg.key_eq h).symm.trans (hkey.trans (hg.key_eq h')))
  finite := by
    refine Q.finite.subset fun k hk => ?_
    intro hq
    exact hk (by rw [hq]; rfl)

variable {g h : α → Option α} {hg : StaysPut place key ok g} {hh : StaysPut place key ok h}

@[simp] theorem queue_filterMap (k : κ) :
    (Q.filterMap g hg).queue k = (Q.queue k).filterMap g := rfl

theorem mem_filterMap : y ∈ Q.filterMap g hg ↔ ∃ x ∈ Q, g x = some y := by
  rw [mem_def, queue_filterMap, List.mem_filterMap]
  constructor
  · rintro ⟨x, hx, h⟩
    exact ⟨x, mem_of_mem_queue hx, h⟩
  · rintro ⟨x, hx, h⟩
    exact ⟨x, by rw [hg.place_eq h]; exact hx, h⟩

theorem live_of_live_filterMap (hi : (Q.filterMap g hg).Live i) : Q.Live i := by
  obtain ⟨y, hy, rfl⟩ := hi
  obtain ⟨x, hx, h⟩ := mem_filterMap.mp hy
  exact ⟨x, hx, (hg.key_eq h).symm⟩

/-- **Item-wise changes compose.** -/
theorem filterMap_filterMap :
    (Q.filterMap g hg).filterMap h hh = Q.filterMap (fun x => (g x).bind h) (hg.bind hh) := by
  apply KeyedQueues.ext
  funext k
  simp only [queue_filterMap, List.filterMap_filterMap]

/-- Only what `g` does to the items that are there matters. -/
theorem filterMap_congr (hgh : ∀ x ∈ Q, g x = h x) : Q.filterMap g hg = Q.filterMap h hh := by
  apply KeyedQueues.ext
  funext k
  exact List.filterMap_congr fun x hx => hgh x (mem_of_mem_queue hx)

theorem filterMap_eq_self (hgx : ∀ x ∈ Q, g x = some x) : Q.filterMap g hg = Q := by
  apply KeyedQueues.ext
  funext k
  rw [queue_filterMap, List.filterMap_congr fun x hx => hgx x (mem_of_mem_queue hx)]
  exact List.filterMap_some

/-- Looking up commutes with item-wise changes. -/
theorem find_filterMap (i : ι) : (Q.filterMap g hg).find i = (Q.find i).bind g := by
  cases hx : Q.find i with
  | none =>
    exact find_eq_none_iff.mpr (mt live_of_live_filterMap (find_eq_none_iff.mp hx))
  | some x =>
    obtain ⟨hmem, rfl⟩ := find_eq_some_iff.mp hx
    show _ = g x
    cases hy : g x with
    | some y => exact find_eq_some_iff.mpr ⟨mem_filterMap.mpr ⟨x, hmem, hy⟩, hg.key_eq hy⟩
    | none =>
      refine find_eq_none_iff.mpr ?_
      rintro ⟨y, hyQ, hkey⟩
      obtain ⟨x', hx', hgx⟩ := mem_filterMap.mp hyQ
      rw [eq_of_key_eq hx' hmem ((hg.key_eq hgx).symm.trans hkey), hy] at hgx
      nomatch hgx

/-! ### Who stands ahead of whom -/

/-- Key `i` stands before key `j` in the queue at `k`. -/
def Ahead (Q : KeyedQueues place key ok) (k : κ) (i j : ι) : Prop :=
  [i, j].Sublist ((Q.queue k).map key)

theorem Ahead.exists_left (h : Q.Ahead k i j) : ∃ x ∈ Q.queue k, key x = i :=
  List.mem_map.mp (h.subset (by simp))

theorem Ahead.exists_right (h : Q.Ahead k i j) : ∃ x ∈ Q.queue k, key x = j :=
  List.mem_map.mp (h.subset (by simp))

/-- Two keys stand in line when their items do. -/
theorem ahead_iff_sublist :
    Q.Ahead k i j ↔ ∃ x y, [x, y].Sublist (Q.queue k) ∧ key x = i ∧ key y = j := by
  rw [Ahead, List.sublist_map_iff]
  constructor
  · rintro ⟨xs, hxs, heq⟩
    obtain ⟨x, y, rfl⟩ : ∃ x y, xs = [x, y] :=
      List.length_eq_two.mp (by simpa using (congrArg List.length heq).symm)
    simp only [List.map_cons, List.map_nil, List.cons.injEq, and_true] at heq
    exact ⟨x, y, hxs, heq.1.symm, heq.2.symm⟩
  · rintro ⟨x, y, hxy, rfl, rfl⟩
    exact ⟨[x, y], hxy, rfl⟩

/-- The keys ahead of an item are those in front of it. -/
theorem ahead_iff_mem_left {l r : List α} (h : Q.queue k = l ++ x :: r) :
    Q.Ahead k i (key x) ↔ i ∈ l.map key := by
  have hnodup := Q.nodup k
  rw [h, List.map_append, List.map_cons] at hnodup
  have hnot : key x ∉ l.map key ++ r.map key :=
    (List.nodup_cons.mp (List.perm_middle.nodup_iff.mp hnodup)).1
  rw [List.mem_append, not_or] at hnot
  rw [Ahead, h, List.map_append, List.map_cons]
  constructor
  · intro hsub
    rcases List.sublist_append_iff.mp hsub with ⟨s, t, hst, hs, ht⟩
    match s, hst with
    | [], hst =>
      -- both would have to stand from the item on
      rw [List.nil_append] at hst
      rw [← hst] at ht
      rcases List.cons_sublist_cons'.mp ht with hsub | ⟨-, hsub⟩
      · exact absurd (hsub.subset (by simp)) hnot.2
      · exact absurd (hsub.subset (by simp)) hnot.2
    | j :: s, hst =>
      rw [List.cons_append, List.cons.injEq] at hst
      rw [hst.1]
      exact hs.subset List.mem_cons_self
  · intro hi
    have hpair : [i] ++ [key x] = [i, key x] := rfl
    rw [← hpair]
    exact (List.singleton_sublist.mpr hi).append (List.singleton_sublist.mpr List.mem_cons_self)

/-- **Item-wise changes keep the order of the items that stay.** -/
theorem ahead_filterMap_iff :
    (Q.filterMap g hg).Ahead k i j ↔
      Q.Ahead k i j ∧ (Q.filterMap g hg).Live i ∧ (Q.filterMap g hg).Live j := by
  constructor
  · intro h
    obtain ⟨x, hx, hxi⟩ := h.exists_left
    obtain ⟨y, hy, hyj⟩ := h.exists_right
    exact ⟨h.trans (map_key_filterMap_sublist hg _), ⟨x, mem_of_mem_queue hx, hxi⟩,
      ⟨y, mem_of_mem_queue hy, hyj⟩⟩
  · rintro ⟨h, hi, hj⟩
    obtain ⟨x, y, hxy, rfl, rfl⟩ := ahead_iff_sublist.mp h
    -- what stays of an item of the queue is what `g` makes of it
    have stays : ∀ {w}, w ∈ Q.queue k → (Q.filterMap g hg).Live (key w) →
        ∃ z, g w = some z ∧ key z = key w := by
      rintro w hw ⟨z, hz, hkey⟩
      obtain ⟨v, hv, hvz⟩ := mem_filterMap.mp hz
      have hvw : v = w := eq_of_key_eq hv (mem_of_mem_queue hw) ((hg.key_eq hvz).symm.trans hkey)
      exact ⟨z, hvw ▸ hvz, hkey⟩
    obtain ⟨x', hx', hkx⟩ := stays (hxy.subset (by simp)) hi
    obtain ⟨y', hy', hky⟩ := stays (hxy.subset (by simp)) hj
    have hsub := hxy.filterMap g
    rw [List.filterMap_cons_some hx', List.filterMap_cons_some hy', List.filterMap_nil] at hsub
    exact ahead_iff_sublist.mpr ⟨x', y', hsub, hkx, hky⟩

section Push

variable [DecidableEq κ] {hok : ok x} {hnew : ¬ Q.Live (key x)}

/-- **A new item stands behind all others.** -/
theorem ahead_push_iff :
    (Q.push x hok hnew).Ahead k i j ↔
      Q.Ahead k i j ∨ (k = place x ∧ i ∈ (Q.queue k).map key ∧ j = key x) := by
  have hpair : ∀ xs : List ι, [i, j].Sublist (xs ++ [key x]) ↔
      [i, j].Sublist xs ∨ (i ∈ xs ∧ j = key x) := by
    intro xs
    rw [List.sublist_append_iff]
    constructor
    · rintro ⟨l₁, l₂, heq, h₁, h₂⟩
      rcases List.sublist_singleton.mp h₂ with rfl | rfl
      · rw [List.append_nil] at heq
        exact Or.inl (heq ▸ h₁)
      · have hpair : [i] ++ [j] = l₁ ++ [key x] := heq
        obtain ⟨rfl, hj⟩ := List.append_inj' hpair rfl
        exact Or.inr ⟨List.singleton_sublist.mp h₁, (List.cons.inj hj).1⟩
    · rintro (h | ⟨hi, rfl⟩)
      · exact ⟨[i, j], [], by simp, h, List.nil_sublist _⟩
      · exact ⟨[i], [key x], rfl, List.singleton_sublist.mpr hi, List.Sublist.refl _⟩
  rw [Ahead, queue_push]
  by_cases hk : k = place x
  · rw [if_pos hk, List.map_append, List.map_singleton, hpair]
    simp only [hk, true_and]
    rfl
  · rw [if_neg hk]
    simp only [hk, false_and, or_false]
    rfl

end Push

end KeyedQueues

end L4Book
