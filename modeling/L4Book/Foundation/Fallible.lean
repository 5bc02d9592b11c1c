import Mathlib.Order.Basic

/-!
# Postconditions of computations that can fault

A small program logic for `Except ε`, used for pure functions that either return or stop with a
fault. `Returns bad v post` says that `v` returns a value satisfying `post`, or stops with a fault
allowed by `bad`. Taking `bad` to be nothing gives total correctness; taking it to be one
particular fault says that this is the only way out.

## Main results

* `Returns.bind`, `returns_bind_iff`: the sequencing rule
* `Returns.mono`: the rule of consequence
* `Returns.foldlM_simulates`: the loop rule, for a loop run next to an abstract one
* `mapM_eq_ok`: a map whose steps all return
* `foldlM_read`: a loop that reads, then accounts
* `forIn_map`: two loops with early exit, one seen through a function
-/

namespace L4Book

universe u

variable {ε τ γ : Type*} {α β σ : Type u}

/-- `v` returns a value satisfying `post`, or stops with a fault allowed by `bad`. -/
def Returns (bad : ε → Prop) (v : Except ε α) (post : α → Prop) : Prop :=
  match v with
  | .ok a => post a
  | .error e => bad e

@[simp] theorem returns_ok {bad : ε → Prop} {post : α → Prop} (a : α) :
    Returns bad (.ok a) post ↔ post a := Iff.rfl

@[simp] theorem returns_pure {bad : ε → Prop} {post : α → Prop} (a : α) :
    Returns bad (pure a : Except ε α) post ↔ post a := Iff.rfl

@[simp] theorem returns_error {bad : ε → Prop} {post : α → Prop} (e : ε) :
    Returns bad (.error e) post ↔ bad e := Iff.rfl

theorem ok_bind {a : α} {f : α → Except ε β} : ((.ok a : Except ε α) >>= f) = f a := rfl

/-- **Consequence.** -/
theorem Returns.mono {bad bad' : ε → Prop} {v : Except ε α} {post post' : α → Prop}
    (h : Returns bad v post) (hbad : ∀ e, bad e → bad' e) (hpost : ∀ a, post a → post' a) :
    Returns bad' v post' := by
  cases v with
  | ok a => exact hpost a h
  | error e => exact hbad e h

theorem Returns.imp {bad : ε → Prop} {v : Except ε α} {post post' : α → Prop}
    (h : Returns bad v post) (hpost : ∀ a, post a → post' a) : Returns bad v post' :=
  h.mono (fun _ => id) hpost

theorem returns_bind_iff {bad : ε → Prop} {v : Except ε α} {f : α → Except ε β}
    {post : β → Prop} :
    Returns bad (v >>= f) post ↔ Returns bad v fun a => Returns bad (f a) post := by
  cases v <;> rfl

/-- **Sequencing.** -/
theorem Returns.bind {bad : ε → Prop} {v : Except ε α} {f : α → Except ε β} {mid : α → Prop}
    {post : β → Prop} (hv : Returns bad v mid) (hf : ∀ a, mid a → Returns bad (f a) post) :
    Returns bad (v >>= f) post :=
  returns_bind_iff.mpr (hv.imp hf)

/-- Nothing is said about the computation. -/
theorem Returns.any (v : Except ε α) : Returns (fun _ => True) v fun _ => True := by
  cases v <;> trivial

theorem Returns.map {bad : ε → Prop} {v : Except ε α} {f : α → β} {post : β → Prop}
    (h : Returns bad v fun a => post (f a)) : Returns bad (f <$> v) post := by
  cases v <;> exact h

/-- With no fault allowed, the computation returns. -/
theorem Returns.exists_ok {v : Except ε α} {post : α → Prop}
    (h : Returns (fun _ => False) v post) : ∃ a, v = .ok a ∧ post a := by
  cases v with
  | ok a => exact ⟨a, rfl, h⟩
  | error e => exact h.elim

theorem Returns.of_eq_ok {bad : ε → Prop} {v : Except ε α} {post : α → Prop} {a : α}
    (h : Returns bad v post) (hv : v = .ok a) : post a := by
  subst hv
  exact h

theorem Returns.of_eq_error {bad : ε → Prop} {v : Except ε α} {post : α → Prop} {e : ε}
    (h : Returns bad v post) (hv : v = .error e) : bad e := by
  subst hv
  exact h

theorem bind_eq_ok_iff {v : Except ε α} {f : α → Except ε β} {b : β} :
    (v >>= f) = .ok b ↔ ∃ a, v = .ok a ∧ f a = .ok b := by
  cases v with
  | ok a => exact ⟨fun h => ⟨a, rfl, h⟩, fun ⟨_, ha, h⟩ => by cases ha; exact h⟩
  | error e => exact ⟨fun h => (nomatch h), fun ⟨_, ha, _⟩ => (nomatch ha)⟩

/-! ### Loops -/

/-- **The loop rule** for two runs side by side: if every iteration keeps the concrete state related
to the abstract one, so does the loop. -/
theorem Returns.foldlM_simulates {bad : ε → Prop} {step : σ → γ → Except ε σ}
    {abs : τ → γ → τ} (rel : σ → τ → Prop) {cs : List γ}
    (hstep : ∀ s t, ∀ c ∈ cs, rel s t → Returns bad (step s c) fun s' => rel s' (abs t c))
    {s : σ} {t : τ} (hs : rel s t) :
    Returns bad (cs.foldlM step s) fun s' => rel s' (cs.foldl abs t) := by
  induction cs generalizing s t with
  | nil => exact hs
  | cons c cs ih =>
    rw [List.foldlM_cons, List.foldl_cons]
    refine (hstep s t c List.mem_cons_self hs).bind fun s' hs' => ?_
    exact ih (fun s t c hc => hstep s t c (List.mem_cons_of_mem _ hc)) hs'

/-- A map whose steps all return. -/
theorem mapM_eq_ok {f : γ → Except ε α} {g : γ → α} {cs : List γ}
    (h : ∀ c ∈ cs, f c = .ok (g c)) : cs.mapM f = .ok (cs.map g) := by
  induction cs with
  | nil => rfl
  | cons c cs ih =>
    rw [List.mapM_cons, h c List.mem_cons_self, ok_bind,
      ih fun c hc => h c (List.mem_cons_of_mem _ hc)]
    rfl

/-- A loop whose rounds read something, which can fail, and then account for it, which cannot. -/
theorem foldlM_read {f : γ → Except ε α} {g : σ → α → σ} {cs : List γ} {s : σ} :
    cs.foldlM (fun s c => do let x ← f c; return g s x) s =
      (cs.mapM f).map fun xs => xs.foldl g s := by
  induction cs generalizing s with
  | nil => rfl
  | cons c cs ih =>
    rw [List.foldlM_cons, List.mapM_cons]
    cases f c with
    | error e => rfl
    | ok x =>
      rw [ok_bind, ok_bind]
      show cs.foldlM _ (g s x) = _
      rw [ih]
      cases cs.mapM f <;> rfl

/-- A loop whose body only checks something. -/
theorem forIn_unit_eq_ok {f : γ → PUnit.{u+1} → Except ε (ForInStep PUnit.{u+1})} {cs : List γ}
    (h : ∀ c ∈ cs, ∀ r, f c r = .ok (.yield ⟨⟩)) : forIn cs ⟨⟩ f = .ok ⟨⟩ := by
  induction cs with
  | nil => rfl
  | cons c cs ih =>
    rw [List.forIn_cons, h c List.mem_cons_self, ok_bind]
    exact ih fun c hc => h c (List.mem_cons_of_mem _ hc)

/-- A loop whose rounds all return, returns. -/
theorem forIn_returns {f : γ → σ → Except ε (ForInStep σ)} {cs : List γ}
    (h : ∀ c ∈ cs, ∀ s, ∃ r, f c s = .ok r) (s : σ) : ∃ t, forIn cs s f = .ok t := by
  induction cs generalizing s with
  | nil => exact ⟨s, rfl⟩
  | cons c cs ih =>
    obtain ⟨r, hr⟩ := h c List.mem_cons_self s
    rw [List.forIn_cons, hr, ok_bind]
    cases r with
    | done s' => exact ⟨s', rfl⟩
    | yield s' => exact ih (fun c hc => h c (List.mem_cons_of_mem _ hc)) s'

/-- **Two loops with early exit, one seen through `φ`**: if the bodies agree on the states that
satisfy an invariant, so do the loops. -/
theorem forIn_map {f : γ → σ → Except ε (ForInStep σ)} {g : γ → β → Except ε (ForInStep β)}
    (φ : σ → β) (inv : σ → Prop) {cs : List γ}
    (hstep : ∀ c ∈ cs, ∀ s, inv s →
      (∃ s', f c s = .ok (.done s') ∧ g c (φ s) = .ok (.done (φ s'))) ∨
        ∃ s', f c s = .ok (.yield s') ∧ g c (φ s) = .ok (.yield (φ s')) ∧ inv s')
    {s : σ} (hs : inv s) : forIn cs (φ s) g = (forIn cs s f).map φ := by
  induction cs generalizing s with
  | nil => rfl
  | cons c cs ih =>
    rw [List.forIn_cons, List.forIn_cons]
    rcases hstep c List.mem_cons_self s hs with ⟨s', hf, hg⟩ | ⟨s', hf, hg, hs'⟩
    · rw [hf, hg]
      rfl
    · rw [hf, hg]
      exact ih (fun c hc => hstep c (List.mem_cons_of_mem _ hc)) hs'

end L4Book
