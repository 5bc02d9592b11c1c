import L4Book.Foundation.Entrywise
import L4Book.Results.Clients

/-!
# When the live client reports

The client looks at the clock at the end of every round in which it got a text, once there was a
snapshot. It then makes all the reports that are due since it last looked, one for each fifteen
seconds, and leaves the loop when two minutes have passed. What it may miss is the time, not a
report: however late it looks, it has made one report for each full period since the latest
snapshot.

Rounds without a text do not look at the clock: a connection with nothing but pings neither reports
nor ends.

## Main definitions

* `looks`, `lastLook`: the rounds that look at the clock, and the last of these instants
* `Ticks`: the clock does not go back
* `OnTime`: what has been reported since the latest snapshot

## Main results

* `OnTime.onRound`, `onRound_shows`: one round
* `OnTime.loop`, `exists_round_of_report`: the rounds after a snapshot
* `liveClient_reportsOnTime`
-/

namespace L4Book

/-- The rounds that look at the clock, if there was a snapshot. -/
def looks (rounds : List Round) : List Round :=
  rounds.filter fun round => (textOf round.read).isSome

/-- The last instant at which the clock was looked at. -/
def lastLook (instant : ℕ) (rounds : List Round) : ℕ :=
  (looks rounds).foldl (fun _ round => round.now) instant

/-- From an instant on, the clock does not go back. -/
def Ticks (instant : ℕ) (rounds : List Round) : Prop :=
  (instant :: (looks rounds).map Round.now).Pairwise (· ≤ ·)

/-- The round brings a snapshot. -/
def BringsSnapshot (lib : Library) (round : Round) : Prop :=
  ∃ text orders, textOf round.read = some text ∧
    decodeLine lib.parseJson .sp500 text = .ok (.snapshot orders)

/-- The round ends the connection. -/
def Closes (round : Round) : Prop := ∃ frame, round.read = .ok (.close frame)

/-- The takers that a report is about. -/
def reportedTakers : List (UInt64 × Side) := notionalsUsd.flatMap fun n => [(n, .bid), (n, .ask)]

/-- The report shows the counters and the book of this state. -/
structure LiveReport.Shows (π : Profile) (report : LiveReport) (l : LiveState) : Prop where
  counters : report.messages = l.messages ∧ report.updates = l.updates ∧
    report.opsApplied = l.opsApplied ∧ report.opErrors = l.opErrors
  top : report.len = l.book.len ∧ report.bestBid = l.book.bestBid ∧
    report.bestAsk = l.book.bestAsk
  levels : l.book.topNLevels 5 = .ok report.unaggregated ∧
    report.aggregated = l.book.topNLevelsAggregated 5
  slippage : List.Forall₂ (fun taker r => l.book.slippageReport π .sp500 taker.2 taker.1 = .ok r)
    reportedTakers report.slippage

/-- What has been reported between the snapshot and the last look at the clock. -/
structure OnTime (before start last : ℕ) (l : LiveState) : Prop where
  reports : l.reports.length = before + (last - start) / reportEvery
  schedule : l.schedule = some
    (start, start + ((last - start) / reportEvery + 1) * reportEvery, start + runFor)

variable {lib : Library} {π : Profile} {l l' : LiveState} {round : Round}
  {rounds : List Round} {now reportAt reportAt' before start last : ℕ} {text : String}
  {left : Bool} {x : ForInStep LiveState} {d : Decoded}

/-! ### The clock -/

theorem lastLook_append (instant : ℕ) (rounds rounds' : List Round) :
    lastLook instant (rounds ++ rounds') = lastLook (lastLook instant rounds) rounds' := by
  rw [lastLook, looks, List.filter_append, List.foldl_append]
  rfl

theorem lastLook_of_text (htext : textOf round.read = some text) (instant : ℕ) :
    lastLook instant [round] = round.now := by
  rw [lastLook, looks, List.filter_cons_of_pos (by rw [htext]; rfl)]
  rfl

theorem lastLook_of_noText (htext : textOf round.read = none) (instant : ℕ) :
    lastLook instant [round] = instant := by
  rw [lastLook, looks, List.filter_cons_of_neg (by rw [htext]; exact Bool.false_ne_true)]
  rfl

/-- A clock that ticks over a round ticks over the rest from the next look on. -/
theorem Ticks.cons (h : Ticks start (round :: rounds)) :
    start ≤ lastLook start [round] ∧ Ticks (lastLook start [round]) rounds := by
  cases htext : textOf round.read with
  | none =>
    rw [lastLook_of_noText htext]
    refine ⟨Nat.le_refl _, ?_⟩
    rwa [Ticks, looks, List.filter_cons_of_neg (by rw [htext]; exact Bool.false_ne_true)] at h
  | some text =>
    rw [lastLook_of_text htext]
    rw [Ticks, looks, List.filter_cons_of_pos (by rw [htext]; rfl), List.map_cons] at h
    obtain ⟨hfirst, hrest⟩ := List.pairwise_cons.mp h
    exact ⟨hfirst _ List.mem_cons_self, hrest⟩

theorem Ticks.take {rounds' : List Round} (h : Ticks start (rounds ++ rounds')) :
    Ticks start rounds := by
  refine List.Pairwise.sublist (List.Sublist.cons_cons _ (List.Sublist.map _ ?_)) h
  exact (List.sublist_append_left _ _).filter _

/-- The same after some rounds. -/
theorem Ticks.drop {rounds' : List Round} (h : Ticks start (rounds ++ rounds')) :
    start ≤ lastLook start rounds ∧ Ticks (lastLook start rounds) rounds' := by
  induction rounds generalizing start with
  | nil => exact ⟨Nat.le_refl _, h⟩
  | cons round rounds ih =>
    obtain ⟨hle, hrest⟩ := Ticks.cons h
    obtain ⟨hle', hrest'⟩ := ih hrest
    rw [← lastLook_append] at hle' hrest'
    exact ⟨Nat.le_trans hle hle', hrest'⟩

/-! ### Catching up -/

theorem reportEvery_pos : 0 < reportEvery := by decide

/-- **The reports that are due**: one for each period that has passed. -/
theorem OnTime.catchUp (h : OnTime before start last l) (hstart : start ≤ last)
    (hlast : last ≤ now)
    (hcatch : l.catchUp π now (start + ((last - start) / reportEvery + 1) * reportEvery) =
      .ok (l', reportAt')) :
    l'.reports.length = before + (now - start) / reportEvery ∧
      reportAt' = start + ((now - start) / reportEvery + 1) * reportEvery := by
  obtain ⟨-, -, hlt, n, hlength, hat, hle⟩ := catchUp_eq_ok hcatch
  have hdue : (now - start) / reportEvery = (last - start) / reportEvery + n := by
    have hbelow : (last - start) / reportEvery * reportEvery ≤ last - start :=
      Nat.div_mul_le_self _ _
    refine Nat.div_eq_of_lt_le ?_ ?_
    · rcases Nat.eq_zero_or_pos n with rfl | hn
      · rw [Nat.add_zero]
        omega
      · have hmade := hle (Nat.ne_of_gt hn)
        rw [hat, Nat.add_mul, Nat.one_mul] at hmade
        rw [Nat.add_mul]
        omega
    · rw [hat] at hlt
      rw [Nat.add_mul, Nat.add_mul, Nat.one_mul]
      rw [Nat.add_mul, Nat.one_mul] at hlt
      omega
  rw [hdue]
  refine ⟨by rw [hlength, h.reports, Nat.add_assoc], ?_⟩
  rw [hat]
  ring

/-- A look at the clock. -/
theorem OnTime.endRound (h : OnTime before start last l) (hstart : start ≤ last)
    (hlast : last ≤ now) (hend : l.endRound π now = .ok x) :
    OnTime before start now (liveStateOf x) ∧
      ((∃ l', x = .done l') ↔ start + runFor ≤ now) := by
  rw [LiveState.endRound, h.schedule] at hend
  obtain ⟨⟨l₁, nextReport⟩, hcatch, hend⟩ := bind_eq_ok_iff.mp hend
  obtain ⟨hreports, rfl⟩ := h.catchUp hstart hlast hcatch
  dsimp only at hend
  by_cases hdeadline : start + runFor ≤ now
  · rw [if_pos hdeadline] at hend
    obtain rfl := Except.ok.inj hend
    exact ⟨⟨hreports, rfl⟩, iff_of_true ⟨_, rfl⟩ hdeadline⟩
  · rw [if_neg hdeadline] at hend
    obtain rfl := Except.ok.inj hend
    exact ⟨⟨hreports, rfl⟩, iff_of_false (by simp) hdeadline⟩

/-! ### A round -/

/-- Operations leave the schedule and the reports alone. -/
theorem applyOps_schedule {ops : List BookOp} (h : l.applyOps π ops = .ok l') :
    l'.schedule = l.schedule ∧ l'.reports = l.reports := by
  induction ops generalizing l with
  | nil =>
    obtain rfl := Except.ok.inj h
    exact ⟨rfl, rfl⟩
  | cons op ops ih =>
    rw [LiveState.applyOps, List.foldlM_cons] at h
    obtain ⟨l₁, hop, h⟩ := bind_eq_ok_iff.mp h
    obtain ⟨⟨r, book⟩, -, hl₁⟩ := bind_eq_ok_iff.mp hop
    obtain ⟨hschedule, hreports⟩ := ih h
    rw [hschedule, hreports]
    rcases r with err | _ <;> obtain rfl := Except.ok.inj hl₁ <;> exact ⟨rfl, rfl⟩

/-- **A message** leaves the reports alone, and the schedule unless it is a snapshot, which starts
another. -/
theorem onDecoded_schedule {instant : ℕ} (h : l.onDecoded π instant d = .ok (.ok l')) :
    l'.reports = l.reports ∧
      ((∃ orders, d = .snapshot orders) →
        l'.schedule = some (instant, instant + reportEvery, instant + runFor)) ∧
      ((∀ orders, d ≠ .snapshot orders) → l'.schedule = l.schedule) := by
  cases d with
  | skip =>
    obtain rfl := Except.ok.inj (Except.ok.inj h)
    exact ⟨rfl, by simp, fun _ => rfl⟩
  | snapshot orders =>
    obtain ⟨⟨r, book⟩, -, h⟩ := bind_eq_ok_iff.mp h
    rcases r with err | _
    · cases h
    · obtain rfl := Except.ok.inj (Except.ok.inj h)
      exact ⟨rfl, fun _ => rfl, fun hne => absurd rfl (hne orders)⟩
  | updates batch =>
    cases hops : ({ l with updates := l.updates + 1 } : LiveState).applyOps π batch.ops with
    | error e =>
      rw [LiveState.onDecoded, hops] at h
      cases h
    | ok l₁ =>
      rw [LiveState.onDecoded, hops] at h
      obtain rfl := Except.ok.inj (Except.ok.inj h)
      obtain ⟨hschedule, hreports⟩ := applyOps_schedule hops
      exact ⟨hreports, by simp, fun _ => hschedule⟩

/-- A round with a text decodes it, and ends with a look at the clock. -/
theorem onRound_of_text (htext : textOf round.read = some text)
    (h : l.onRound lib π round = .ok (.ok x)) : ∃ d l₁,
      decodeLine lib.parseJson .sp500 text = .ok d ∧
      ({ l with messages := l.messages + 1 } : LiveState).onDecoded π round.snapshotAt d =
        .ok (.ok l₁) ∧
      l₁.endRound π round.now = .ok x := by
  have honText : ({ l with messages := l.messages + 1 } : LiveState).onText lib π round text =
      .ok (.ok x) := by
    rw [LiveState.onRound] at h
    cases hread : round.read with
    | error err =>
      rw [hread] at h
      cases h
    | ok msg =>
      rw [hread] at h htext
      cases msg with
      | text text' =>
        obtain rfl : text' = text := Option.some.inj htext
        exact h
      | binary bytes =>
        have hutf8 : String.fromUTF8? bytes = some text := htext
        dsimp only at h
        rwa [hutf8] at h
      | ping | pong | frame => cases htext
      | close frame => cases htext
  rw [LiveState.onText] at honText
  cases hd : decodeLine lib.parseJson .sp500 text with
  | error e =>
    rw [hd] at honText
    cases honText
  | ok d =>
    rw [hd] at honText
    obtain ⟨r, hr, honText⟩ := bind_eq_ok_iff.mp honText
    cases r with
    | error e => cases honText
    | ok l₁ =>
      cases hend : l₁.endRound π round.now with
      | error e =>
        dsimp only at honText
        rw [hend] at honText
        cases honText
      | ok x' =>
        dsimp only at honText
        rw [hend] at honText
        obtain rfl := Except.ok.inj (Except.ok.inj honText)
        exact ⟨d, l₁, rfl, hr, hend⟩

/-- A round without a text counts the message, and leaves the loop if the connection ends. -/
theorem onRound_of_noText (htext : textOf round.read = none)
    (h : l.onRound lib π round = .ok (.ok x)) :
    liveStateOf x = { l with messages := l.messages + 1 } ∧
      ((∃ l', x = .done l') ↔ Closes round) := by
  rw [LiveState.onRound] at h
  rw [Closes]
  cases hread : round.read with
  | error err =>
    rw [hread] at h
    cases h
  | ok msg =>
    rw [hread] at h htext
    cases msg with
    | text text => cases htext
    | binary bytes =>
      have hutf8 : String.fromUTF8? bytes = none := htext
      dsimp only at h
      rw [hutf8] at h
      cases h
    | ping | pong | frame =>
      obtain rfl := Except.ok.inj (Except.ok.inj h)
      exact ⟨rfl, by simp⟩
    | close frame =>
      obtain rfl := Except.ok.inj (Except.ok.inj h)
      exact ⟨rfl, by simp⟩

theorem not_closes_of_text (htext : textOf round.read = some text) : ¬ Closes round := by
  rintro ⟨frame, hread⟩
  rw [hread] at htext
  cases htext

/-- A snapshot starts to count. -/
theorem onTime_of_snapshot (hsnapshot : BringsSnapshot lib round)
    (hclock : round.snapshotAt ≤ lastLook round.snapshotAt [round])
    (h : l.onRound lib π round = .ok (.ok x)) :
    OnTime l.reports.length round.snapshotAt (lastLook round.snapshotAt [round])
        (liveStateOf x) ∧
      ((∃ l', x = .done l') ↔
        Closes round ∨ round.snapshotAt + runFor ≤ lastLook round.snapshotAt [round]) := by
  obtain ⟨text, orders, htext, hdecode⟩ := hsnapshot
  rw [lastLook_of_text htext] at hclock ⊢
  obtain ⟨d, l₁, hd, hl₁, hend⟩ := onRound_of_text htext h
  obtain rfl := Except.ok.inj (hdecode.symm.trans hd)
  obtain ⟨hreports, hschedule, -⟩ := onDecoded_schedule hl₁
  have hfresh : OnTime l.reports.length round.snapshotAt round.snapshotAt l₁ := by
    constructor
    · rw [Nat.sub_self, Nat.zero_div, hreports]
      rfl
    · rw [Nat.sub_self, Nat.zero_div, hschedule ⟨orders, rfl⟩, Nat.zero_add, Nat.one_mul]
  obtain ⟨hontime, hdone⟩ := hfresh.endRound (Nat.le_refl _) hclock hend
  exact ⟨hontime, hdone.trans (or_iff_right (not_closes_of_text htext)).symm⟩

/-- **A round that brings no snapshot.** The loop is left when the connection ends, and at the
deadline. -/
theorem OnTime.onRound (h : OnTime before start last l) (hstart : start ≤ last)
    (hopen : last < start + runFor) (hlast : last ≤ lastLook last [round])
    (hnone : ¬ BringsSnapshot lib round) (hround : l.onRound lib π round = .ok (.ok x)) :
    OnTime before start (lastLook last [round]) (liveStateOf x) ∧
      ((∃ l', x = .done l') ↔ Closes round ∨ start + runFor ≤ lastLook last [round]) := by
  cases htext : textOf round.read with
  | none =>
    obtain ⟨hstate, hdone⟩ := onRound_of_noText htext hround
    rw [lastLook_of_noText htext, hstate]
    exact ⟨⟨h.reports, h.schedule⟩, hdone.trans (or_iff_left (Nat.not_le.mpr hopen)).symm⟩
  | some text =>
    rw [lastLook_of_text htext] at hlast ⊢
    obtain ⟨d, l₁, hd, hl₁, hend⟩ := onRound_of_text htext hround
    obtain ⟨hreports, -, hschedule⟩ := onDecoded_schedule hl₁
    have hkept : ∀ orders, d ≠ .snapshot orders := by
      rintro orders rfl
      exact hnone ⟨text, orders, htext, hd⟩
    have h₁ : OnTime before start last l₁ :=
      ⟨(congrArg List.length hreports).trans h.reports, (hschedule hkept).trans h.schedule⟩
    obtain ⟨hontime, hdone⟩ := h₁.endRound hstart hlast hend
    exact ⟨hontime, hdone.trans (or_iff_right (not_closes_of_text htext)).symm⟩

/-! ### What a report shows -/

theorem LiveReport.Shows.congr {report : LiveReport} (h : report.Shows π l)
    (hsame : SameButReports l l') : report.Shows π l' := by
  obtain ⟨hcounters, htop, hlevels, hslippage⟩ := h
  constructor
  · rwa [hsame.messages, hsame.updates, hsame.applied, hsame.errors]
  · rwa [hsame.book]
  · rwa [hsame.book]
  · rwa [hsame.book]

/-- A line for a buyer and one for a seller of each notional. -/
theorem slippage_shows {b : OrderBook} {notionals : List UInt64}
    {pairs : List (List SlippageReport)}
    (h : List.Forall₂ (fun notional pair => (do
      let buy ← b.slippageReport π .sp500 .bid notional
      let sell ← b.slippageReport π .sp500 .ask notional
      return [buy, sell]) = Except.ok pair) notionals pairs) :
    List.Forall₂ (fun taker r => b.slippageReport π .sp500 taker.2 taker.1 = .ok r)
      (notionals.flatMap fun n => [(n, .bid), (n, .ask)]) pairs.flatten := by
  induction h with
  | nil => exact .nil
  | cons hpair _ ih =>
    obtain ⟨buy, hbuy, hpair⟩ := bind_eq_ok_iff.mp hpair
    obtain ⟨sell, hsell, hpair⟩ := bind_eq_ok_iff.mp hpair
    obtain rfl := Except.ok.inj hpair
    exact .cons hbuy (.cons hsell ih)

/-- A report shows the state in which it is made. -/
theorem logReport_shows (h : l.logReport π = .ok l') :
    ∃ report : LiveReport, l'.reports = l.reports ++ [report] ∧ report.Shows π l := by
  rw [LiveState.logReport] at h
  obtain ⟨unaggregated, hunaggregated, h⟩ := bind_eq_ok_iff.mp h
  obtain ⟨slippage, hslippage, h⟩ := bind_eq_ok_iff.mp h
  obtain rfl := Except.ok.inj h
  refine ⟨_, rfl, ⟨rfl, rfl, rfl, rfl⟩, ⟨rfl, rfl, rfl⟩, ⟨hunaggregated, rfl⟩, ?_⟩
  exact slippage_shows (mapM_eq_ok_iff.mp hslippage)

/-- So do all that are made at once. -/
theorem catchUp_shows (h : l.catchUp π now reportAt = .ok (l', reportAt')) :
    ∃ made, l'.reports = l.reports ++ made ∧ ∀ report ∈ made, report.Shows π l := by
  fun_induction LiveState.catchUp π now reportAt l with
  | case1 reportAt l hlt =>
    obtain ⟨rfl, rfl⟩ := Prod.mk.inj (Except.ok.inj h)
    exact ⟨[], (List.append_nil _).symm, by simp⟩
  | case2 reportAt l hle ih =>
    obtain ⟨l₁, hreport, h⟩ := bind_eq_ok_iff.mp h
    obtain ⟨report, hreports, hshows⟩ := logReport_shows hreport
    obtain ⟨made, hmade, hall⟩ := ih l₁ h
    obtain ⟨hb, hm, hu, ha, he⟩ := (logReport_eq_ok hreport).1
    refine ⟨report :: made, by rw [hmade, hreports, List.append_assoc]; rfl, ?_⟩
    rintro r (_ | ⟨_, hr⟩)
    · exact hshows
    · exact (hall r hr).congr ⟨hb.symm, hm.symm, hu.symm, ha.symm, he.symm⟩

/-- **The reports of a round** show the state after it. -/
theorem onRound_shows (h : l.onRound lib π round = .ok (.ok x)) :
    ∃ made, (liveStateOf x).reports = l.reports ++ made ∧
      ∀ report ∈ made, report.Shows π (liveStateOf x) := by
  cases htext : textOf round.read with
  | none =>
    rw [(onRound_of_noText htext h).1]
    exact ⟨[], (List.append_nil _).symm, by simp⟩
  | some text =>
    obtain ⟨d, l₁, -, hl₁, hend⟩ := onRound_of_text htext h
    have hsame := endRound_eq_ok hend
    have hreports := (onDecoded_schedule hl₁).1
    have hmade : ∃ made, (liveStateOf x).reports = l₁.reports ++ made ∧
        ∀ report ∈ made, report.Shows π l₁ := by
      rw [LiveState.endRound] at hend
      cases hschedule : l₁.schedule with
      | none =>
        rw [hschedule] at hend
        obtain rfl := Except.ok.inj hend
        exact ⟨[], (List.append_nil _).symm, by simp⟩
      | some instants =>
        obtain ⟨snapshotAt, nextReport, deadline⟩ := instants
        rw [hschedule] at hend
        obtain ⟨⟨l₂, next⟩, hcatch, hend⟩ := bind_eq_ok_iff.mp hend
        obtain ⟨made, hmade, hall⟩ := catchUp_shows hcatch
        refine ⟨made, ?_, hall⟩
        dsimp only at hend
        split at hend <;> obtain rfl := Except.ok.inj hend <;> exact hmade
    obtain ⟨made, hmade, hall⟩ := hmade
    refine ⟨made, by rw [hmade, hreports], fun report hr => (hall report hr).congr ?_⟩
    cases x <;> exact hsame

/-! ### Runs -/

/-- The loop goes on where it was not left. -/
theorem loop_append (h : l.loop lib π rounds = .ok (.ok (l', false))) (rounds' : List Round) :
    l.loop lib π (rounds ++ rounds') = l'.loop lib π rounds' := by
  induction rounds generalizing l with
  | nil =>
    obtain ⟨rfl, -⟩ := Prod.mk.inj (Except.ok.inj (Except.ok.inj h))
    rfl
  | cons round rounds ih =>
    rw [LiveState.loop] at h
    obtain ⟨x, hx, h⟩ := bind_eq_ok_iff.mp h
    rw [List.cons_append, LiveState.loop, hx, ok_bind]
    rcases x with e | x | x
    · cases h
    · cases congrArg Prod.snd (Except.ok.inj (Except.ok.inj h))
    · exact ih h

/-- The first round of a run. -/
theorem loop_cons_cases (h : l.loop lib π (round :: rounds) = .ok (.ok (l', left))) :
    ∃ x, l.onRound lib π round = .ok (.ok x) ∧
      ((x = .done l' ∧ left = true) ∨
        ∃ l₁, x = .yield l₁ ∧ l₁.loop lib π rounds = .ok (.ok (l', left))) := by
  rw [LiveState.loop] at h
  obtain ⟨x, hx, h⟩ := bind_eq_ok_iff.mp h
  rcases x with e | x | x
  · cases h
  · obtain ⟨rfl, rfl⟩ := Prod.mk.inj (Except.ok.inj (Except.ok.inj h))
    exact ⟨_, hx, Or.inl ⟨rfl, rfl⟩⟩
  · exact ⟨_, hx, Or.inr ⟨x, rfl, h⟩⟩

/-- Reports are kept. -/
theorem reports_prefix_of_loop (h : l.loop lib π rounds = .ok (.ok (l', left))) :
    l.reports <+: l'.reports := by
  induction rounds generalizing l with
  | nil =>
    obtain ⟨rfl, -⟩ := Prod.mk.inj (Except.ok.inj (Except.ok.inj h))
    exact List.prefix_rfl
  | cons round rounds ih =>
    obtain ⟨x, hx, hrest⟩ := loop_cons_cases h
    obtain ⟨made, hmade, -⟩ := onRound_shows hx
    rcases hrest with ⟨rfl, -⟩ | ⟨l₁, rfl, hloop⟩
    · exact ⟨made, hmade.symm⟩
    · exact List.IsPrefix.trans ⟨made, hmade.symm⟩ (ih hloop)

/-- **A report is made in one of the rounds**, and shows the state after it. -/
theorem exists_round_of_report (h : l.loop lib π rounds = .ok (.ok (l', left))) {k : ℕ}
    {report : LiveReport} (hk : l'.reports[k]? = some report) (hge : l.reports.length ≤ k) :
    ∃ read round rest l₀ x, rounds = read ++ round :: rest ∧
      l.loop lib π read = .ok (.ok (l₀, false)) ∧ l₀.onRound lib π round = .ok (.ok x) ∧
      l₀.reports.length ≤ k ∧ k < (liveStateOf x).reports.length ∧
      report.Shows π (liveStateOf x) := by
  induction rounds generalizing l with
  | nil =>
    obtain ⟨rfl, -⟩ := Prod.mk.inj (Except.ok.inj (Except.ok.inj h))
    rw [List.getElem?_eq_none hge] at hk
    cases hk
  | cons round rounds ih =>
    obtain ⟨x, hx, hrest⟩ := loop_cons_cases h
    by_cases hmade : k < (liveStateOf x).reports.length
    · -- it is made in this round
      obtain ⟨made, hreports, hshows⟩ := onRound_shows hx
      have hprefix : (liveStateOf x).reports <+: l'.reports := by
        rcases hrest with ⟨rfl, -⟩ | ⟨l₁, rfl, hloop⟩
        · exact List.prefix_rfl
        · exact reports_prefix_of_loop hloop
      have hreport : (liveStateOf x).reports[k]? = some report := by
        obtain ⟨more, hmore⟩ := hprefix
        rwa [← hmore, List.getElem?_append_left hmade] at hk
      rw [hreports, List.getElem?_append_right hge] at hreport
      exact ⟨[], round, rounds, l, x, rfl, rfl, hx, hge, hmade,
        hshows report (List.mem_of_getElem? hreport)⟩
    · rcases hrest with ⟨rfl, -⟩ | ⟨l₁, rfl, hloop⟩
      · exact absurd (List.getElem?_eq_some_iff.mp hk).1 hmade
      · obtain ⟨read, round', rest, l₀, x', hsplit, hread, hround⟩ :=
          ih hloop (Nat.not_lt.mp hmade)
        have hone : l.loop lib π [round] = .ok (.ok (l₁, false)) := by
          rw [LiveState.loop, hx]
          rfl
        exact ⟨round :: read, round', rest, l₀, x', by rw [hsplit]; rfl,
          (loop_append hone read).trans hread, hround⟩

/-- The rounds that are read: all of them, unless the loop is left when the connection ends or at
the deadline. -/
def ReadsUntil (lib : Library) (π : Profile) (before start last : ℕ) (l : LiveState)
    (rounds : List Round) (l' : LiveState) (left : Bool) : Prop :=
  ∃ read unread, rounds = read ++ unread ∧ l.loop lib π read = .ok (.ok (l', left)) ∧
    OnTime before start (lastLook last read) l' ∧
    (left = false → unread = [] ∧ lastLook last read < start + runFor) ∧
    (left = true → (∃ round ∈ read.getLast?, Closes round) ∨
      start + runFor ≤ lastLook last read)

/-- A round, and the rest if there is one. -/
theorem ReadsUntil.cons (hx : l.onRound lib π round = .ok (.ok x))
    (hontime : OnTime before start (lastLook last [round]) (liveStateOf x))
    (hdone : (∃ l', x = .done l') ↔ Closes round ∨ start + runFor ≤ lastLook last [round])
    (hrun : l.loop lib π (round :: rounds) = .ok (.ok (l', left)))
    (hrest : ∀ l₁, x = .yield l₁ → l₁.loop lib π rounds = .ok (.ok (l', left)) →
      lastLook last [round] < start + runFor →
      ReadsUntil lib π before start (lastLook last [round]) l₁ rounds l' left) :
    ReadsUntil lib π before start last l (round :: rounds) l' left := by
  obtain ⟨x', hx', hcases⟩ := loop_cons_cases hrun
  obtain rfl := Except.ok.inj (Except.ok.inj (hx.symm.trans hx'))
  rcases hcases with ⟨rfl, rfl⟩ | ⟨l₁, rfl, hloop⟩
  · refine ⟨[round], rounds, rfl, by rw [LiveState.loop, hx]; rfl, hontime, by simp, fun _ => ?_⟩
    exact (hdone.mp ⟨l', rfl⟩).imp_left fun hcloses => ⟨round, rfl, hcloses⟩
  · have hopen : lastLook last [round] < start + runFor := by
      by_contra hlate
      obtain ⟨l₂, hl₂⟩ := hdone.mpr (Or.inr (Nat.not_lt.mp hlate))
      cases hl₂
    obtain ⟨read, unread, rfl, hread, hontime', hgoes, hleaves⟩ := hrest l₁ rfl hloop hopen
    rw [← lastLook_append] at hontime' hgoes hleaves
    refine ⟨round :: read, unread, rfl, by rw [LiveState.loop, hx]; exact hread, hontime', hgoes,
      fun hleft => (hleaves hleft).imp_left ?_⟩
    rintro ⟨r, hr, hcloses⟩
    refine ⟨r, ?_, hcloses⟩
    rw [Option.mem_def] at hr ⊢
    rw [List.getLast?_cons, hr]
    rfl

/-- **Rounds that bring no snapshot.** -/
theorem OnTime.loop (h : OnTime before start last l) (hstart : start ≤ last)
    (hopen : last < start + runFor) (hclock : Ticks last rounds)
    (hnone : ∀ round ∈ rounds, ¬ BringsSnapshot lib round)
    (hrun : l.loop lib π rounds = .ok (.ok (l', left))) :
    ReadsUntil lib π before start last l rounds l' left := by
  induction rounds generalizing l last with
  | nil =>
    obtain ⟨rfl, rfl⟩ := Prod.mk.inj (Except.ok.inj (Except.ok.inj hrun))
    exact ⟨[], [], rfl, rfl, h, fun _ => ⟨rfl, hopen⟩, by simp⟩
  | cons round rounds ih =>
    obtain ⟨hfirst, hnone⟩ := List.forall_mem_cons.mp hnone
    obtain ⟨hlast, hclock⟩ := hclock.cons
    obtain ⟨x, hx, -⟩ := loop_cons_cases hrun
    obtain ⟨hontime, hdone⟩ := h.onRound hstart hopen hlast hfirst hx
    refine ReadsUntil.cons hx hontime hdone hrun ?_
    rintro l₁ rfl hloop hopen'
    exact ih hontime (Nat.le_trans hstart hlast) hopen' hclock hnone hloop

/-- **A snapshot, and rounds that bring no other.** -/
theorem readsUntil_of_snapshot (hsnapshot : BringsSnapshot lib round)
    (hlatest : ∀ r ∈ rounds, ¬ BringsSnapshot lib r)
    (hclock : Ticks round.snapshotAt (round :: rounds))
    (hrun : l.loop lib π (round :: rounds) = .ok (.ok (l', left))) :
    ReadsUntil lib π l.reports.length round.snapshotAt round.snapshotAt l (round :: rounds) l'
      left := by
  obtain ⟨hfirst, hticks⟩ := hclock.cons
  obtain ⟨x, hx, -⟩ := loop_cons_cases hrun
  obtain ⟨hontime, hdone⟩ := onTime_of_snapshot hsnapshot hfirst hx
  refine ReadsUntil.cons hx hontime hdone hrun ?_
  rintro l₁ rfl hloop hopen
  exact hontime.loop hfirst hopen hticks hlatest hloop

/-- What the client has reported from one snapshot on, in the rounds that it read. -/
structure ReportsOnTime (lib : Library) (π : Profile) (start : ℕ) (l : LiveState)
    (read : List Round) (l' : LiveState) (left : Bool) : Prop where
  /-- One report for each full period. -/
  count : l'.reports.length = l.reports.length + (lastLook start read - start) / reportEvery
  /-- A report is made in the first round that looks at the clock when its period is over. -/
  current : ∀ k report, l'.reports[l.reports.length + k]? = some report →
    ∃ earlier round later l₀ x, read = earlier ++ round :: later ∧
      l.loop lib π earlier = .ok (.ok (l₀, false)) ∧ l₀.onRound lib π round = .ok (.ok x) ∧
      lastLook start earlier < start + (k + 1) * reportEvery ∧
      start + (k + 1) * reportEvery ≤ lastLook start (earlier ++ [round]) ∧
      report.Shows π (liveStateOf x)
  goesOn : left = false → lastLook start read < start + runFor
  leaves : left = true → (∃ round ∈ read.getLast?, Closes round) ∨
    start + runFor ≤ lastLook start read ∧ l.reports.length + 8 ≤ l'.reports.length

/-- Whether a report has been made. -/
theorem OnTime.made_iff (h : OnTime before start last l) (hstart : start ≤ last) {k : ℕ} :
    before + k < l.reports.length ↔ start + (k + 1) * reportEvery ≤ last := by
  rw [h.reports, Nat.add_lt_add_iff_left, Nat.lt_iff_add_one_le,
    Nat.le_div_iff_mul_le reportEvery_pos]
  omega

/-- **The live client reports on time.** From its latest snapshot on, it has made one report for
each full period of fifteen seconds by the time it last looked at the clock, each as soon as it
looked and on the book as it was then. It goes on until the connection ends or two minutes have
passed, and has then made the eight reports of these two minutes at least. -/
theorem liveClient_reportsOnTime {later : List Round} (hsnapshot : BringsSnapshot lib round)
    (hlatest : ∀ r ∈ later, ¬ BringsSnapshot lib r)
    (hclock : Ticks round.snapshotAt (round :: later))
    (hrun : l.loop lib π (round :: later) = .ok (.ok (l', left))) :
    ∃ read unread, round :: later = read ++ unread ∧ (left = false → unread = []) ∧
      ReportsOnTime lib π round.snapshotAt l read l' left := by
  obtain ⟨read, unread, hsplit, hread, hontime, hgoes, hleaves⟩ :=
    readsUntil_of_snapshot hsnapshot hlatest hclock hrun
  rw [hsplit] at hclock
  refine ⟨read, unread, hsplit, fun hleft => (hgoes hleft).1, ?_⟩
  constructor
  case count => exact hontime.reports
  case goesOn => exact fun hleft => (hgoes hleft).2
  case leaves =>
    refine fun hleft => (hleaves hleft).imp_right fun hlate => ⟨hlate, ?_⟩
    have height := (hontime.made_iff hclock.drop.1 (k := 7)).mpr hlate
    omega
  case current =>
    intro k report hk
    obtain ⟨earlier, r, rest, l₀, x, rfl, hearlier, hr, hfrom, hto, hshows⟩ :=
      exists_round_of_report hread hk (Nat.le_add_right _ _)
    have hround : lastLook round.snapshotAt earlier < round.snapshotAt + (k + 1) * reportEvery ∧
        OnTime l.reports.length round.snapshotAt
          (lastLook round.snapshotAt (earlier ++ [r])) (liveStateOf x) := by
      cases earlier with
      | nil =>
        -- the round of the snapshot
        obtain ⟨rfl, -⟩ := List.cons.inj hsplit
        obtain ⟨rfl, -⟩ := Prod.mk.inj (Except.ok.inj (Except.ok.inj hearlier))
        refine ⟨Nat.lt_add_of_pos_right (Nat.mul_pos (Nat.succ_pos k) reportEvery_pos), ?_⟩
        exact (onTime_of_snapshot hsnapshot hclock.cons.1 hr).1
      | cons first earlier =>
        obtain ⟨rfl, rfl⟩ := List.cons.inj hsplit
        have hlatest' : ∀ r' ∈ earlier, ¬ BringsSnapshot lib r' := fun r' hr' =>
          hlatest r' (List.mem_append_left _ (List.mem_append_left _ hr'))
        obtain ⟨read', unread', hsplit', -, hbefore, hgoes', -⟩ :=
          readsUntil_of_snapshot hsnapshot hlatest' hclock.take.take hearlier
        obtain ⟨hnil, hopen⟩ := hgoes' rfl
        rw [hnil, List.append_nil] at hsplit'
        rw [← hsplit'] at hbefore hopen
        obtain ⟨hle, hticks⟩ := hclock.take.drop
        refine ⟨Nat.lt_of_not_le fun hlate => ?_, ?_⟩
        · exact absurd ((hbefore.made_iff hle).mpr hlate) (Nat.not_lt.mpr hfrom)
        · rw [lastLook_append]
          refine (hbefore.onRound hle hopen hticks.cons.1 (hlatest r ?_) hr).1
          simp
    refine ⟨earlier, r, rest, l₀, x, rfl, hearlier, hr, hround.1, ?_, hshows⟩
    have hticks : Ticks round.snapshotAt ((earlier ++ [r]) ++ (rest ++ unread)) := by
      simpa using hclock
    exact (hround.2.made_iff hticks.drop.1).mp hto

/-- The round that receives the sample snapshot. -/
def snapshotRound : Round := ⟨.ok (.text (snapshotLine "1")), 0, 0⟩

/-- A ping, and the sample update after 31 seconds. -/
def laterRounds : List Round :=
  [⟨.ok .ping, 0, 0⟩, ⟨.ok (.text updatesLine), 0, 31 * 10 ^ 9⟩]

theorem exists_loop_sample : ∃ l', LiveState.start.loop sampleLibrary .dev
    (snapshotRound :: laterRounds) = .ok (.ok (l', false)) := by
  have hleft : ((LiveState.start.loop sampleLibrary .dev
      (snapshotRound :: laterRounds)).toOption.bind Except.toOption).map Prod.snd =
        some false := by decide +kernel
  cases hrun : LiveState.start.loop sampleLibrary .dev (snapshotRound :: laterRounds) with
  | error e =>
    rw [hrun] at hleft
    cases hleft
  | ok r =>
    rw [hrun] at hleft
    cases r with
    | error e => cases hleft
    | ok r =>
      obtain ⟨l', left⟩ := r
      obtain rfl : left = false := Option.some.inj hleft
      exact ⟨l', rfl⟩

theorem bringsSnapshot_snapshotRound : BringsSnapshot sampleLibrary snapshotRound :=
  ⟨snapshotLine "1", [snapshotBid 1], rfl, by decide +kernel⟩

theorem not_bringsSnapshot_laterRounds : ∀ r ∈ laterRounds, ¬ BringsSnapshot sampleLibrary r := by
  intro r hr
  rintro ⟨text, orders, htext, hdecode⟩
  rcases List.mem_pair.mp hr with rfl | rfl
  · cases htext
  · obtain rfl : updatesLine = text := Option.some.inj htext
    have hupdates : decodeLine sampleLibrary.parseJson .sp500 updatesLine =
        .ok (.updates ⟨[.add openedOrder], 0, 0⟩) := decodeLine_updatesLine
    rw [hupdates] at hdecode
    cases hdecode

/-- Two reports are made when the update comes. -/
theorem liveClient_reportsOnTime_sample : ∃ l' : LiveState,
    LiveState.start.loop sampleLibrary .dev (snapshotRound :: laterRounds) =
      .ok (.ok (l', false)) ∧ l'.reports.length = 2 := by
  obtain ⟨l', hrun⟩ := exists_loop_sample
  obtain ⟨read, unread, hsplit, hall, hontime⟩ :=
    liveClient_reportsOnTime bringsSnapshot_snapshotRound not_bringsSnapshot_laterRounds
      (by unfold Ticks; decide) hrun
  rw [hall rfl, List.append_nil] at hsplit
  refine ⟨l', hrun, ?_⟩
  rw [hontime.count, ← hsplit]
  rfl

end L4Book
