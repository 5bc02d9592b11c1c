import L4Book.Ladder
import L4Book.Refinement.Walk

/-!
# Depth and best prices

The ordered price maps of a book that represents an abstract one hold exactly the prices of the
abstract book, so `depth` lists them in priority order with the cached totals and counts, and the
best prices are the first of them.

## Main results

* `depth_spec`, `bestBid_spec`, `bestAsk_spec`, `referencePrice_spec`
-/

namespace L4Book

variable {π : Profile} {b : OrderBook} {slots : Side × Price → List ℕ} {a : AbstractBook}

theorem Layout.mem_levels_iff (h : Layout π b slots a) (side : Side) (price : Price) :
    price ∈ b.levels side ↔ a.queue (side, price) ≠ [] := by
  have hlaid := h.laid (side, price)
  have hlevel : (b.levels side)[price]? =
      levelOf (slots (side, price)) (a.queue (side, price)) := hlaid.level_eq
  rw [← Std.ExtTreeMap.isSome_getElem?_iff_mem, hlevel, ne_eq, ← hlaid.nil_iff]
  by_cases hnil : slots (side, price) = []
  · simp [hnil, levelOf_nil]
  · simp [hnil, levelOf_of_ne_nil hnil]

/-- The keys of the price map of a side, in the order in which `depth` lists them. -/
theorem Layout.keys_eq (h : Layout π b slots a) (side : Side) :
    (match side with
      | .bid => (b.levels side).keys.reverse
      | .ask => (b.levels side).keys) = a.prices side := by
  have hmem : ∀ side p, p ∈ (b.levels side).keys ↔ a.queue (side, p) ≠ [] := fun side p =>
    Std.ExtTreeMap.mem_keys.trans (h.mem_levels_iff side p)
  have hlt : ∀ side, (b.levels side).keys.Pairwise (· < ·) := fun side =>
    Std.ExtTreeMap.ordered_keys.imp Std.compare_eq_lt.mp
  have hnodup : ∀ side, (b.levels side).keys.Nodup := fun side =>
    (hlt side).imp fun hlt => UInt64.ne_of_lt hlt
  cases side with
  | bid =>
    refine AbstractBook.prices_eq ?_ (List.nodup_reverse.mpr (hnodup .bid)) fun p => ?_
    · exact List.pairwise_reverse.mpr ((hlt .bid).imp fun hlt => UInt64.le_of_lt hlt)
    · rw [List.mem_reverse]
      exact hmem .bid p
  | ask =>
    refine AbstractBook.prices_eq ?_ (hnodup .ask) (hmem .ask)
    exact (hlt .ask).imp fun hlt => UInt64.le_of_lt hlt

/-- What `depth` says of one price. -/
def depthEntry (a : AbstractBook) (side : Side) (price : Price) : Price × Qty × ℕ :=
  (price, UInt64.ofNat (restingQty (a.queue (side, price))), (a.queue (side, price)).length)

/-- **`depth` lists the prices of a side, best first**, each with its total modulo `2 ^ 64` and its
order count. -/
theorem depth_spec (h : Represents π b a) (side : Side) :
    b.depth side = (a.prices side).map (depthEntry a side) := by
  obtain ⟨slots, h⟩ := h
  have hentries : ((b.levels side).toList.map fun entry =>
      (entry.1, entry.2.totalQty, entry.2.orderCount)) =
        (b.levels side).keys.map (depthEntry a side) := by
    rw [← Std.ExtTreeMap.map_fst_toList_eq_keys, List.map_map]
    refine List.map_congr_left ?_
    rintro ⟨price, level⟩ hmem
    have hlaid := h.laid (side, price)
    have hlevel : levelOf (slots (side, price)) (a.queue (side, price)) = some level :=
      hlaid.level_eq.symm.trans (Std.ExtTreeMap.mem_toList_iff_getElem?_eq_some.mp hmem)
    rw [(levelOf_eq_some_iff.mp hlevel).2, hlaid.length_eq]
    rfl
  have hkeys := h.keys_eq side
  cases side with
  | bid =>
    rw [← hkeys, List.map_reverse, ← hentries]
    rfl
  | ask =>
    rw [← hkeys, ← hentries]
    rfl

theorem bestBid_spec (h : Represents π b a) : b.bestBid = (a.prices .bid).head? := by
  obtain ⟨slots, h⟩ := h
  rw [← h.keys_eq .bid, List.head?_reverse]
  rfl

theorem bestAsk_spec (h : Represents π b a) : b.bestAsk = (a.prices .ask).head? := by
  obtain ⟨slots, h⟩ := h
  rw [← h.keys_eq .ask]
  rfl

theorem referencePrice_spec (h : Represents π b a) (taker : Side) :
    b.referencePrice taker = (a.prices taker.opposite).head? := by
  cases taker with
  | bid => exact bestAsk_spec h
  | ask => exact bestBid_spec h

end L4Book
