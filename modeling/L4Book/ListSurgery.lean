import L4Book.Foundation.Chain
import L4Book.Level

/-!
# The list surgery does what it is for

`linkTail`, `unlink` and `moveToTail` on a slab whose nodes form chains. Each comes with one
specification: it cannot fault, it leaves the expected chain and level ends behind, and it changes
nothing but the links of the cells of that chain. The last part is `Relinked`, the frame every
later argument about the other levels rests on.

## Main definitions

* `Slab.cell`, `Slab.orderAt`: what a slot holds
* `Relinked`: two slabs that differ in the links of some cells only

## Main results

* `linkTail_spec`, `unlink_spec`, `moveToTail_spec`
-/

namespace L4Book

instance : LinkedNode OrderNode where
  next := OrderNode.next
  prev := OrderNode.prev
  setNext i x := { x with next := i }
  setPrev i x := { x with prev := i }
  next_setNext _ _ := rfl
  prev_setNext _ _ := rfl
  next_setPrev _ _ := rfl
  prev_setPrev _ _ := rfl

namespace Slab

/-- The node in a slot, if the slot exists and is occupied. -/
def cell (slab : Slab) (i : ℕ) : Option OrderNode := slab[i]?.join

/-- The order resting in a slot. -/
def orderAt (slab : Slab) (i : ℕ) : Option Order := (slab.cell i).map OrderNode.order

variable {slab slab' : Slab} {i j : ℕ} {x : OrderNode} {msg : String}

theorem cell_eq_some_iff : slab.cell i = some x ↔ slab[i]? = some (some x) := by
  simp [cell, Option.join_eq_some_iff]

theorem lt_length_of_cell (h : slab.cell i = some x) : i < slab.length := by
  rw [cell_eq_some_iff] at h
  exact (List.getElem?_eq_some_iff.mp h).1

theorem orderAt_eq_some_iff {o : Order} :
    slab.orderAt i = some o ↔ ∃ x, slab.cell i = some x ∧ x.order = o :=
  Option.map_eq_some_iff

theorem orderAt_of_cell (h : slab.cell i = some x) : slab.orderAt i = some x.order := by
  rw [orderAt, h]
  rfl

/-! ### Slot access -/

theorem node_eq_ok (h : slab.cell i = some x) : slab.node i msg = .ok x := by
  rw [node, cell_eq_some_iff.mp h]

theorem put_eq_ok {v : Option OrderNode} (h : i < slab.length) :
    slab.put i v = .ok (slab.set i v) := if_pos h

theorem modifyNode_eq_ok {f : OrderNode → OrderNode} (h : slab.cell i = some x) :
    slab.modifyNode i msg f = .ok (slab.set i (some (f x))) := by
  rw [modifyNode, node_eq_ok h]
  exact put_eq_ok (lt_length_of_cell h)

theorem takeNode_eq_ok (h : slab.cell i = some x) :
    slab.takeNode i msg = .ok (x, slab.set i none) := by
  rw [takeNode, node_eq_ok h]
  simp only [bind, Except.bind, put_eq_ok (lt_length_of_cell h)]
  rfl

theorem cell_set {v : Option OrderNode} (h : i < slab.length) :
    cell (slab.set i v) = Function.update slab.cell i v := by
  funext j
  rw [cell, List.getElem?_set]
  by_cases hij : i = j
  · subst hij
    simp [h]
  · rw [if_neg hij, Function.update_of_ne (Ne.symm hij)]
    rfl

theorem orderAt_set {v : Option OrderNode} (h : i < slab.length) :
    orderAt (slab.set i v) = Function.update slab.orderAt i (v.map OrderNode.order) := by
  funext j
  rw [orderAt, cell_set h]
  by_cases hij : j = i
  · subst hij
    simp
  · rw [Function.update_of_ne hij, Function.update_of_ne hij]
    rfl

end Slab

/-! ### Changing links only -/

/-- `slab'` is `slab` with the links of some cells of `touched` rewritten. -/
structure Relinked (touched : List ℕ) (slab slab' : Slab) : Prop where
  frame : ∀ i : ℕ, i ∉ touched → slab'[i]? = slab[i]?
  orders : ∀ i : ℕ, slab'[i]?.map (Option.map OrderNode.order) =
    slab[i]?.map (Option.map OrderNode.order)

namespace Relinked

variable {touched touched' : List ℕ} {slab slab' slab'' : Slab} {i : ℕ}

theorem refl (touched : List ℕ) (slab : Slab) : Relinked touched slab slab :=
  ⟨fun _ _ => rfl, fun _ => rfl⟩

theorem trans (h : Relinked touched slab slab') (h' : Relinked touched slab' slab'') :
    Relinked touched slab slab'' :=
  ⟨fun i hi => (h'.frame i hi).trans (h.frame i hi), fun i => (h'.orders i).trans (h.orders i)⟩

theorem mono (h : Relinked touched slab slab') (hsub : touched ⊆ touched') :
    Relinked touched' slab slab' :=
  ⟨fun i hi => h.frame i fun hi' => hi (hsub hi'), h.orders⟩

theorem set {x : OrderNode} (hx : slab.cell i = some x) (y : OrderNode)
    (hy : y.order = x.order) (hi : i ∈ touched) : Relinked touched slab (slab.set i (some y)) := by
  have hlen := Slab.lt_length_of_cell hx
  constructor
  · intro j hj
    refine List.getElem?_set_ne ?_
    rintro rfl
    exact hj hi
  · intro j
    by_cases hij : i = j
    · subst hij
      rw [List.getElem?_set_self hlen, Slab.cell_eq_some_iff.mp hx]
      simp [hy]
    · rw [List.getElem?_set_ne hij]

theorem orderAt_eq (h : Relinked touched slab slab') : slab'.orderAt = slab.orderAt := by
  funext i
  have hi := h.orders i
  unfold Slab.orderAt Slab.cell
  cases h₁ : slab'[i]? <;> cases h₂ : slab[i]? <;> simp_all

theorem cell_eq (h : Relinked touched slab slab') (hi : i ∉ touched) :
    slab'.cell i = slab.cell i := by
  rw [Slab.cell, Slab.cell, h.frame i hi]

theorem free_iff (h : Relinked touched slab slab') (i : ℕ) :
    slab'[i]? = some none ↔ slab[i]? = some none := by
  have hi := h.orders i
  cases h₁ : slab'[i]? <;> cases h₂ : slab[i]? <;> simp_all
  rename_i v w
  cases v <;> cases w <;> simp_all

end Relinked

/-! ### The three operations -/

variable {slab : Slab} (level : Level) {slot : ℕ} {l r : List ℕ} {x : OrderNode}

/-- **Appending.** -/
theorem linkTail_spec (hchain : Chain slab.cell none l none) (hnodup : l.Nodup)
    (hhead : level.head = l.head?) (htail : level.tail = l.getLast?)
    (hx : slab.cell slot = some x) (hprev : x.prev = none) (hnext : x.next = none)
    (hslot : slot ∉ l) :
    ∃ slab', linkTail slab level slot =
        .ok (slab', { level with head := (l ++ [slot]).head?, tail := some slot }) ∧
      Chain slab'.cell none (l ++ [slot]) none ∧ Relinked (l ++ [slot]) slab slab' := by
  rcases List.eq_nil_or_concat l with rfl | ⟨l, t, rfl⟩
  · refine ⟨slab, ?_, ?_, Relinked.refl _ _⟩
    · simp [linkTail, htail, pure, Except.pure]
    · exact ⟨⟨x, hx, hprev, hnext⟩, trivial⟩
  · rw [List.concat_eq_append] at hchain hnodup hhead htail hslot ⊢
    have htl : t ∉ l := by
      have := List.nodup_append.mp hnodup
      exact fun h => this.2.2 t h t (by simp) rfl
    have hst : slot ≠ t := fun h => hslot (by simp [h])
    obtain ⟨y, hy⟩ := hchain.exists_cell (i := t) (by simp)
    -- first write: the old tail points on to the new slot
    have hylen := Slab.lt_length_of_cell hy
    have h₁ : Chain (Slab.cell (slab.set t (some { y with next := some slot }))) none (l ++ [t])
        (some slot) := by
      rw [Slab.cell_set hylen]
      exact hchain.setNext htl hy (some slot)
    have hx₁ : Slab.cell (slab.set t (some { y with next := some slot })) slot = some x := by
      rw [Slab.cell_set hylen, Function.update_of_ne hst, hx]
    -- second write: the new slot points back to the old tail
    have hxlen := Slab.lt_length_of_cell hx₁
    have h₂ := h₁.congr (update_of_not_mem hslot (some { x with prev := some t }))
    rw [← Slab.cell_set hxlen] at h₂
    refine ⟨_, ?_, h₂.snoc (x := { x with prev := some t }) ?_ ?_ hnext, ?_⟩
    · rw [linkTail, htail, List.getLast?_concat]
      simp only [Slab.modifyNode_eq_ok hy, Slab.modifyNode_eq_ok hx₁, bind, Except.bind, pure,
        Except.pure]
      rw [hhead]
      simp [List.head?_append]
    · rw [Slab.cell_set hxlen, Function.update_self]
    · simp [LinkedNode.prev]
    · have hr₁ : Relinked (l ++ [t] ++ [slot]) slab _ :=
        Relinked.set hy { y with next := some slot } rfl (by simp)
      exact hr₁.trans (Relinked.set hx₁ { x with prev := some t } rfl (by simp))

/-- The first write of `unlink`: whoever came before points past the gap. -/
theorem unlinkPrev_spec (hl : Chain slab.cell none l (some slot)) (hnodup : (l ++ r).Nodup)
    (hr : Chain slab.cell (some slot) r none) (hhead : level.head = (l ++ slot :: r).head?) :
    ∃ slab', unlinkPrev slab level l.getLast? r.head? =
        .ok (slab', { level with head := (l ++ r).head? }) ∧
      Chain slab'.cell none l r.head? ∧ Chain slab'.cell (some slot) r none ∧
      Relinked (l ++ r) slab slab' := by
  rcases List.eq_nil_or_concat l with rfl | ⟨l, p, rfl⟩
  · exact ⟨slab, rfl, trivial, hr, Relinked.refl _ _⟩
  · rw [List.concat_eq_append] at hl hnodup hhead ⊢
    have hdisj := List.nodup_append.mp hnodup
    have hpl : p ∉ l := fun h => (List.nodup_append.mp hdisj.1).2.2 p h p (by simp) rfl
    have hpr : p ∉ r := fun h => hdisj.2.2 p (by simp) p h rfl
    have hhead' : level.head = (l ++ [p] ++ r).head? := by
      rw [hhead]
      simp [List.head?_append]
    obtain ⟨y, hy⟩ := hl.exists_cell (i := p) (by simp)
    have hlen := Slab.lt_length_of_cell hy
    refine ⟨slab.set p (some { y with next := r.head? }), ?_, ?_, ?_,
      Relinked.set hy _ rfl (by simp)⟩
    · rw [List.getLast?_concat, ← hhead']
      simp only [unlinkPrev, Slab.modifyNode_eq_ok hy, bind, Except.bind, pure, Except.pure]
    · rw [Slab.cell_set hlen]
      exact hl.setNext hpl hy r.head?
    · rw [Slab.cell_set hlen]
      exact hr.congr (update_of_not_mem hpr _)

/-- The second write of `unlink`: whoever comes after points back past the gap. -/
theorem unlinkNext_spec (hl : Chain slab.cell none l r.head?) (hnodup : (l ++ r).Nodup)
    (hr : Chain slab.cell (some slot) r none) (htail : level.tail = (l ++ slot :: r).getLast?) :
    ∃ slab', unlinkNext slab level l.getLast? r.head? =
        .ok (slab', { level with tail := (l ++ r).getLast? }) ∧
      Chain slab'.cell none (l ++ r) none ∧ Relinked (l ++ r) slab slab' := by
  cases r with
  | nil =>
    refine ⟨slab, ?_, ?_, Relinked.refl _ _⟩
    · rw [List.append_nil]
      rfl
    · simpa using hl
  | cons i r =>
    have hdisj := List.nodup_append.mp hnodup
    have hil : i ∉ l := fun h => hdisj.2.2 i h i (by simp) rfl
    have hir : i ∉ r := (List.nodup_cons.mp hdisj.2.1).1
    have htail' : level.tail = (l ++ i :: r).getLast? := by
      rw [htail]
      simp [List.getLast?_append]
    obtain ⟨y, hy⟩ := hr.exists_cell (i := i) (by simp)
    have hlen := Slab.lt_length_of_cell hy
    refine ⟨slab.set i (some { y with prev := l.getLast? }), ?_, ?_,
      Relinked.set hy _ rfl (by simp)⟩
    · rw [List.head?_cons, ← htail']
      simp only [unlinkNext, Slab.modifyNode_eq_ok hy, bind, Except.bind, pure, Except.pure]
    · rw [Slab.cell_set hlen]
      refine chain_append.mpr ⟨hl.congr (update_of_not_mem hil _), ?_⟩
      rw [Option.or_none]
      exact hr.setPrev hir hy l.getLast?

/-- **Unlinking.** The cell in between may be gone already, or still be there. -/
theorem unlink_spec (hl : Chain slab.cell none l (some slot))
    (hr : Chain slab.cell (some slot) r none) (hnodup : (l ++ r).Nodup)
    (hhead : level.head = (l ++ slot :: r).head?)
    (htail : level.tail = (l ++ slot :: r).getLast?) :
    ∃ slab', unlink slab level l.getLast? r.head? =
        .ok (slab', { level with head := (l ++ r).head?, tail := (l ++ r).getLast? }) ∧
      Chain slab'.cell none (l ++ r) none ∧ Relinked (l ++ r) slab slab' := by
  obtain ⟨slab₁, heq₁, hl₁, hr₁, hrel₁⟩ := unlinkPrev_spec level hl hnodup hr hhead
  obtain ⟨slab₂, heq₂, hchain, hrel₂⟩ :=
    unlinkNext_spec { level with head := (l ++ r).head? } hl₁ hnodup hr₁ htail
  refine ⟨slab₂, ?_, hchain, hrel₁.trans hrel₂⟩
  rw [unlink, heq₁]
  exact heq₂

/-- **Moving to the tail.** -/
theorem moveToTail_spec (hchain : Chain slab.cell none (l ++ slot :: r) none)
    (hnodup : (l ++ slot :: r).Nodup) (hhead : level.head = (l ++ slot :: r).head?)
    (htail : level.tail = (l ++ slot :: r).getLast?) :
    ∃ slab', moveToTail slab level slot =
        .ok (slab', { level with
          head := (l ++ r ++ [slot]).head?, tail := (l ++ r ++ [slot]).getLast? }) ∧
      Chain slab'.cell none (l ++ r ++ [slot]) none ∧
      Relinked (l ++ slot :: r) slab slab' := by
  have hperm : (l ++ slot :: r).Perm (slot :: (l ++ r)) := List.perm_middle
  have hnodup' : slot ∉ l ++ r ∧ (l ++ r).Nodup :=
    List.nodup_cons.mp (hperm.nodup_iff.mp hnodup)
  cases r with
  | nil =>
    -- the order already is the tail
    refine ⟨slab, ?_, by simpa using hchain, Relinked.refl _ _⟩
    have hlast : level.tail = some slot := by simpa using htail
    rw [moveToTail, if_pos hlast, List.append_nil, ← hhead, ← htail]
    rfl
  | cons i r =>
    have hne : level.tail ≠ some slot := by
      rw [htail, List.getLast?_append, List.getLast?_cons_cons]
      intro h
      have hmem : slot ∈ i :: r := by
        refine List.mem_of_getLast? ?_
        simpa using h
      exact hnodup'.1 (List.mem_append_right _ hmem)
    obtain ⟨hl, ⟨x, hx, hprev, hnext⟩, hr⟩ := chain_append.mp hchain
    rw [Option.or_none] at hprev hnext
    obtain ⟨slab₁, heq₁, hchain₁, hrel₁⟩ :=
      unlink_spec level hl hr hnodup'.2 hhead htail
    have hx₁ : slab₁.cell slot = some x := by
      rw [hrel₁.cell_eq hnodup'.1, hx]
    have hlen := Slab.lt_length_of_cell hx₁
    -- the order, detached from both neighbours
    have hchain₂ : Chain (Slab.cell (slab₁.set slot (some { x with prev := none, next := none })))
        none (l ++ i :: r) none := by
      rw [Slab.cell_set hlen]
      exact hchain₁.congr (update_of_not_mem hnodup'.1 _)
    have hx₂ : Slab.cell (slab₁.set slot (some { x with prev := none, next := none })) slot =
        some { x with prev := none, next := none } := by
      rw [Slab.cell_set hlen, Function.update_self]
    have hrel₂ : Relinked (l ++ slot :: i :: r) slab₁
        (slab₁.set slot (some { x with prev := none, next := none })) :=
      Relinked.set hx₁ _ rfl (by simp)
    obtain ⟨slab₃, heq₃, hchain₃, hrel₃⟩ :=
      linkTail_spec
        { level with head := (l ++ i :: r).head?, tail := (l ++ i :: r).getLast? }
        hchain₂ hnodup'.2 rfl rfl hx₂ rfl rfl hnodup'.1
    refine ⟨slab₃, ?_, hchain₃, ?_⟩
    · rw [moveToTail, if_neg hne, Slab.node_eq_ok hx]
      have hp : x.prev = l.getLast? := hprev
      have hn : x.next = (i :: r).head? := hnext
      simp only [bind, Except.bind, hp, hn, heq₁, Slab.modifyNode_eq_ok hx₁, heq₃,
        List.getLast?_concat]
    · refine (hrel₁.mono ?_).trans (hrel₂.trans (hrel₃.mono ?_))
      · intro j hj
        simp only [List.mem_append, List.mem_cons] at hj ⊢
        tauto
      · intro j hj
        simp only [List.mem_append, List.mem_cons, List.not_mem_nil] at hj ⊢
        tauto

end L4Book
