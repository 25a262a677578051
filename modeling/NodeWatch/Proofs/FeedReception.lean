import NodeWatch.Proofs.QueueDrainage
import NodeWatch.Proofs.EventHearing
import NodeWatch.Proofs.ExpiryHandled

/-! The session feed from the beginning on, when events reach the client through it alone. What the
listener has handled and what is left for it to read are what was sent, with gaps where it fell behind,
and the last event is never lost. As long as the client stays open the listener reads to the end. -/

namespace NodeWatch

namespace Session

variable {p : Party} {st st' : Stage} {c c' : Client}

theorem offers_of_agenda (h : st.agenda = []) : offers st = false := by
  cases st with
  | dropping rs es =>
    obtain rfl : es = [] := List.map_eq_nil_iff.mp h
    rfl
  | expiring | reporting => cases h
  | expired | resubmitting | done => rfl

theorem rank_resume_le (policy : BackoffPolicy) (h : resume p st c = some (st', c')) :
    st'.rank policy ≤ st.rank policy := by
  cases resumed h with
  | expiring =>
    split
    · exact le_of_lt (by simp [Stage.rank, Prod.Lex.toLex_lt_toLex])
    · exact le_rfl
  | expired =>
    refine le_of_lt ?_
    unfold recover
    dsimp only
    split <;> simp [Stage.rank, Prod.Lex.toLex_lt_toLex]
  | started before after t unstarted =>
    have htask := rank_started_lt policy unstarted c.settings.resubmit.baseDelayMs
    exact le_of_lt (by simpa [Stage.rank, Prod.Lex.toLex_lt_toLex] using htask)
  | gathered | kept | dropped | restored =>
    exact le_of_lt (by simp [Stage.rank, Prod.Lex.toLex_lt_toLex])
  | telling rs e es =>
    split
    · exact le_of_lt (by simp [Stage.rank, Prod.Lex.toLex_lt_toLex])
    · exact le_rfl
  | reporting state =>
    split
    · exact le_of_lt (by simp [Stage.rank, Prod.Lex.toLex_lt_toLex])
    · exact le_rfl

/-- A task that waits gets on without the server: it is late in the end, or its pause is over. -/
theorem exists_wait_over {ts : List Task} {i : Nat} {t : Task} (p : Party) (c : Client)
    (hget : ts[i]? = some t) (hstarted : Backoff.isUnstarted t.stage = false)
    (hended : ¬∃ r, t.stage = .ended r) :
    ∃ m b c', (m = .timeOut i ∨ m = .retry i) ∧
      (Operation.session (.resubmitting ts)).move m p c =
        some (.session (.resubmitting (ts.set i { t with stage := b })), c') ∧
      Task.rank c.settings.resubmit { t with stage := b } < Task.rank c.settings.resubmit t := by
  obtain ⟨spot, stage⟩ := t
  cases stage with
  | unstarted => cases hstarted
  | ended r => exact absurd ⟨r, rfl⟩ hended
  | trying n d =>
    obtain ⟨b, c', hb, hlt⟩ : ∃ b c', Backoff.timeOut c.settings.resubmit (.trying n d) c =
        some (b, c') ∧ Task.rank c.settings.resubmit ⟨spot, b⟩ <
          Task.rank c.settings.resubmit ⟨spot, .trying n d⟩ := ⟨_, _, rfl, rank_failed_lt⟩
    have hm : timeOut i (.resubmitting ts) c = some (.resubmitting (ts.set i ⟨spot, b⟩), c') :=
      update_of_getElem? hget hb
    refine ⟨.timeOut i, b, c', .inl rfl, ?_, hlt⟩
    rw [Operation.move, Operation.timeOut, hm]
    rfl
  | pausing n d =>
    obtain ⟨b, c', hb, hlt⟩ : ∃ b c', Backoff.retry c.settings.resubmit spot.request
        (.pausing n d) c = some (b, c') ∧ Task.rank c.settings.resubmit ⟨spot, b⟩ <
          Task.rank c.settings.resubmit ⟨spot, .pausing n d⟩ := by
      refine ⟨_, _, rfl, ?_⟩
      simp only [Task.rank]
      omega
    have hm : retry i (.resubmitting ts) c = some (.resubmitting (ts.set i ⟨spot, b⟩), c') :=
      update_of_getElem? hget hb
    refine ⟨.retry i, b, c', .inr rfl, ?_, hlt⟩
    rw [Operation.move, Operation.retry, hm]
    rfl

/-- An event in hand with nothing to announce gets on without the server. -/
theorem exists_move (p : Party) (c : Client) (hd : st ≠ .done) (ho : offers st = false) :
    ∃ m st' c', (m = .resume ∨ ∃ i, m = .timeOut i ∨ m = .retry i) ∧
      (Operation.session st).move m p c = some (.session st', c') ∧
      st'.rank c.settings.resubmit < st.rank c.settings.resubmit := by
  have hresume : ∀ {st' c'}, resume p st c = some (st', c') →
      (Operation.session st).move .resume p c = some (.session st', c') := fun hm => by
    rw [Operation.move, Operation.resume, hm]
    rfl
  by_cases hall : ∀ ts, st = .resubmitting ts → ∀ t ∈ ts, ∃ r, t.stage = .ended r
  · obtain ⟨st', c', hm, hlt⟩ := resume_of_not_offers (p := p) c.settings.resubmit c ho hd hall
    exact ⟨.resume, st', c', .inl rfl, hresume hm, hlt⟩
  · obtain ⟨ts, rfl, t, ht, hended⟩ : ∃ ts, st = .resubmitting ts ∧
        ∃ t ∈ ts, ¬∃ r, t.stage = .ended r := by simpa using hall
    cases hi : ts.findIdx? (Backoff.isUnstarted ·.stage) with
    | some i =>
      obtain ⟨u, hu, hunstarted, _, hstart⟩ := startNext_at c.settings.resubmit c hi
      refine ⟨.resume, _, _, .inl rfl, hresume (resume_of_startNext hstart), ?_⟩
      exact rank_set_lt hu (rank_started_lt _ hunstarted _)
    | none =>
      have hstarted := List.findIdx?_eq_none_iff.mp hi t ht
      obtain ⟨i, hget⟩ := List.mem_iff_getElem?.mp ht
      obtain ⟨m, b, c', hm, hmove, hlt⟩ := exists_wait_over p c hget hstarted hended
      exact ⟨m, _, c', .inr ⟨i, hm⟩, hmove, rank_set_lt hget hlt⟩

end Session

namespace Engine

variable {a : Action} {s t : Engine}

/-- The events that were handled, and then those that are still to be. -/
def kept (s : Engine) : List SessionEvent :=
  s.client.handled ++ s.feed.unread

theorem Hearing.kept (h : Hearing s a t) (ha : a.sent? = none) :
    t.kept = s.kept ∧ t.feed.capacity = s.feed.capacity := by
  have hsame : ∀ f : Feed, t.client.handled = s.client.handled → t.feed = f →
      f.unread = s.feed.unread → f.capacity = s.feed.capacity →
        t.kept = s.kept ∧ t.feed.capacity = s.feed.capacity := fun f hh hf hu hc =>
    ⟨by rw [Engine.kept, hh, hf, hu, Engine.kept], by rw [hf, hc]⟩
  cases h with
  | heard e es action idle lossless unread client listener feed =>
    obtain ⟨hhandled, _⟩ := Session.handled_start e s.client
    rw [Engine.kept, Engine.kept, client, hhandled, feed, unread, List.append_assoc]
    exact ⟨rfl, rfl⟩
  | lagged action idle lossy client listener feed =>
    exact hsame _ (by rw [client, (Client.Unheard.remark s.client _).handled]) feed rfl rfl
  | deafened action idle lossless read ended client listener feed =>
    exact hsame _ (by rw [client]) feed rfl rfl
  | fed e action =>
    rw [action] at ha
    cases ha
  | ended action after => exact hsame s.feed.close (by rw [after]) (by rw [after]) rfl rfl
  | moved m st st' action inHand move listener feed =>
    exact hsame _ (Session.fits_move move).1 feed rfl rfl
  | beside unheard connected listener feed => exact hsame _ unheard.handled feed rfl rfl

theorem Hearing.settings (h : Hearing s a t) : t.client.settings = s.client.settings := by
  cases h with
  | heard e es action idle lossless unread client =>
    rw [client]
    exact (Session.handled_start e s.client).2.2
  | lagged action idle lossy client => rw [client]; rfl
  | deafened action idle lossless read ended client => rw [client]
  | fed e action opened listening after | ended action after => rw [after]
  | moved m st st' action inHand move => exact (Session.fits_move move).2.1
  | beside unheard => exact unheard.settings

/-- The client makes of the session what it should, no event that is over is still in hand, and the
listener stops at the end of the feed and not before. -/
structure Tuned (s : Engine) : Prop where
  fits : s.listener.stage.Fits s.client
  unfinished : s.listener ≠ .handling .done
  attentive : s.listener.isStopped = true →
    s.feed.isOpen = false ∧ s.feed.unread = [] ∧ s.feed.lost = 0

theorem stage_of_handling {st : Session.Stage} (h : s.listener = .handling st) :
    s.listener.stage = st := by
  rw [h]
  rfl

theorem Tuned.ofStage {st : Session.Stage} (hl : t.listener = .ofStage st) (hf : st.Fits t.client) :
    t.Tuned := by
  refine ⟨by rwa [hl, Listener.stage_ofStage], ?_, fun hstopped => ?_⟩
  · rw [hl]
    cases st <;> simp [Listener.ofStage]
  · rw [hl] at hstopped
    cases st <;> cases hstopped

theorem Hearing.tuned (h : Hearing s a t) (hs : s.Tuned) : t.Tuned := by
  cases h with
  | heard e es action idle lossless unread client listener =>
    have hdone : Session.Stage.done.Fits s.client := by simpa [idle, Listener.stage] using hs.fits
    exact .ofStage listener (client ▸ Session.fits_start hdone e)
  | lagged action idle lossy client listener =>
    have hdone : Session.Stage.done.Fits s.client := by simpa [idle, Listener.stage] using hs.fits
    have hidle : t.listener = .ofStage .done := listener
    exact .ofStage hidle (client ▸ hdone.of_unheard (.remark s.client _) rfl rfl Iff.rfl)
  | deafened action idle lossless read ended client listener feed =>
    refine ⟨?_, by simp [listener], fun _ => feed ▸ ⟨ended, read, lossless⟩⟩
    rw [listener, client]
    simpa [idle, Listener.stage] using hs.fits
  | fed e action opened listening after =>
    subst after
    refine ⟨hs.fits, hs.unfinished, fun hstopped => ?_⟩
    cases listening.symm.trans hstopped
  | ended action after =>
    subst after
    exact ⟨hs.fits, hs.unfinished, fun hstopped => ⟨rfl, (hs.attentive hstopped).2⟩⟩
  | moved m st st' action inHand move listener =>
    refine .ofStage listener ((Session.fits_move move).2.2 ?_)
    exact stage_of_handling inHand ▸ hs.fits
  | beside unheard connected listener feed =>
    refine ⟨?_, listener ▸ hs.unfinished, ?_⟩
    · rw [listener]
      exact hs.fits.of_unheard unheard connected rfl Iff.rfl
    · rw [listener, feed]
      exact hs.attentive

/-- What the listener has before it. -/
def ahead (s : Engine) : Nat ×ₗ Nat ×ₗ Nat ×ₗ Nat ×ₗ Nat :=
  toLex (s.feed.unread.length,
    toLex (s.feed.lost, s.listener.stage.rank s.client.settings.resubmit))

theorem ahead_lt_of_stage (hf : t.feed = s.feed) (hs : t.client.settings = s.client.settings)
    (h : t.listener.stage.rank s.client.settings.resubmit <
      s.listener.stage.rank s.client.settings.resubmit) : t.ahead < s.ahead := by
  rw [ahead, hf, hs]
  exact Prod.Lex.toLex_lt_toLex.mpr (.inr ⟨rfl, Prod.Lex.toLex_lt_toLex.mpr (.inr ⟨rfl, h⟩)⟩)

/-- What the client does on its own leaves the listener no more to do. -/
theorem ahead_le {conduct : Client → Call → Conduct}
    (own : (∃ p, a = .resume p) ∨ a = .turn ∨ a = .dispatch conduct) (h : Hearing s a t) :
    t.ahead ≤ s.ahead := by
  have hsettings := h.settings
  have hquiet : a ≠ .listen ∧ a ≠ .endFeed ∧ a.sent? = none := by
    rcases own with ⟨p, rfl⟩ | rfl | rfl <;> simp [Action.sent?]
  cases h with
  | heard e es action | lagged action | deafened action => exact absurd action hquiet.1
  | fed e action =>
    rw [action] at hquiet
    cases hquiet.2.2
  | ended action => exact absurd action hquiet.2.1
  | moved m st st' action inHand move listener feed =>
    cases m with
    | resume =>
      obtain ⟨st₁, he, hresume⟩ := Operation.of_part (f := .session) move
      obtain rfl := Operation.session.inj he
      have hle := Session.rank_resume_le s.client.settings.resubmit hresume
      rw [← stage_of_handling inHand, ← Listener.stage_ofStage st', ← listener] at hle
      rcases lt_or_eq_of_le hle with hlt | heq
      · exact le_of_lt (ahead_lt_of_stage feed hsettings hlt)
      · rw [ahead, ahead, hsettings, feed, heq]
    | answer | timeOut | retry => rcases own with ⟨p, rfl⟩ | rfl | rfl <;> cases action
  | beside unheard connected listener feed =>
    rw [ahead, ahead, hsettings, listener, feed]

/-- The idle listener takes up what is left on the feed. -/
theorem exists_listen (ho : s.client.closed = false) (hl : s.listener = .idle)
    (hleft : ¬(s.feed.unread = [] ∧ s.feed.lost = 0)) :
    ∃ t, act .listen s = some t ∧ t.client.closed = false ∧ t.ahead < s.ahead := by
  by_cases hlost : 0 < s.feed.lost
  · refine ⟨{ s with
      listener := .idle, feed := { s.feed with lost := 0 },
      client := s.client.remark (.feedLagged s.feed.lost) }, ?_, ho, ?_⟩
    · simp [act, listen, Listener.listen, hl, ho, hlost]
    · exact Prod.Lex.toLex_lt_toLex.mpr (.inr ⟨rfl, Prod.Lex.toLex_lt_toLex.mpr (.inl hlost)⟩)
  · have hzero : s.feed.lost = 0 := Nat.eq_zero_of_not_pos hlost
    cases hu : s.feed.unread with
    | nil => exact absurd ⟨hu, hzero⟩ hleft
    | cons e es =>
      refine ⟨{ s with
        listener := .ofStage (Session.start e s.client).1, feed := { s.feed with unread := es },
        client := (Session.start e s.client).2 }, ?_, ?_, ?_⟩
      · simp [act, listen, Listener.listen, hl, ho, hlost, hu]
      · exact (Session.idles_start e s.client).closed.trans ho
      · refine Prod.Lex.toLex_lt_toLex.mpr (.inl ?_)
        rw [hu]
        exact Nat.lt_succ_self _

/-- The listener goes on with the event in hand. -/
theorem exists_handle {st : Session.Stage} (ho : s.client.closed = false) (ht : s.Tuned)
    (hl : s.listener = .handling st) (hagenda : s.agenda .listener = []) :
    ∃ a t, (a = .resume .listener ∨ ∃ i, a = .timeOut .listener i ∨ a = .retry .listener i) ∧
      act a s = some t ∧ t.client.closed = false ∧ t.ahead < s.ahead := by
  have htask : s.task? .listener = some (.session st) := by rw [task?, hl]; rfl
  have hd : st ≠ .done := fun hd => ht.unfinished (hd ▸ hl)
  have hoffers := Session.offers_of_agenda ((agenda_of_task htask).symm.trans hagenda)
  obtain ⟨m, st', c', hm, hmove, hlt⟩ := Session.exists_move .listener s.client hd hoffers
  refine ⟨actionOf .listener m, _, ?_, act_of_move htask hmove, ?_, ?_⟩
  · rcases hm with rfl | ⟨i, rfl | rfl⟩
    · exact .inl rfl
    · exact .inr ⟨i, .inl rfl⟩
    · exact .inr ⟨i, .inr rfl⟩
  · exact (Operation.mails_move hmove).closed.trans ho
  · refine ahead_lt_of_stage rfl (Session.fits_move hmove).2.1 ?_
    rw [stage_of_handling hl]
    change (Listener.ofStage st').stage.rank _ < _
    rwa [Listener.stage_ofStage]

end Engine

/-- A run of a client, with what was sent on its feed. -/
structure Reception where
  engine : Engine
  /-- The events sent, the earliest first. -/
  sent : List SessionEvent
  /-- How many more events than were handled had been sent, at the worst. -/
  lag : Nat

namespace Reception

variable {w w' : Reception} {n : Nat} {a : Engine.Action} {t : Engine}

def opening (s : Engine) : Reception :=
  ⟨s, [], 0⟩

def after (w : Reception) (a : Engine.Action) (t : Engine) : Reception where
  engine := t
  sent := w.sent ++ a.sent?.toList
  lag := max w.lag ((w.sent ++ a.sent?.toList).length - t.client.handled.length)

inductive Step (admits : Engine.Action → Prop) (w : Reception) : Reception → Prop
  | acted (a : Engine.Action) (t : Engine) (admitted : admits a) (act : Engine.act a w.engine = some t)
    (opened : t.client.closed = false) : Step admits w (w.after a t)

/-- No call reports a session event. -/
def Indirectly (a : Engine.Action) : Prop :=
  ∀ e, a ≠ .begin (.session e)

/-- The client does this by itself: a party goes on, user code that behaves like this is called, or the
listener has waited long enough for an answer or before another attempt. -/
inductive Unaided (conduct : Client → Call → Conduct) : Engine.Action → Prop
  | resumed (p : Party) : Unaided conduct (.resume p)
  | turned : Unaided conduct .turn
  | dispatched : Unaided conduct (.dispatch conduct)
  | listened : Unaided conduct .listen
  | timedOut (slot : Nat) : Unaided conduct (.timeOut .listener slot)
  | retried (slot : Nat) : Unaided conduct (.retry .listener slot)

theorem Unaided.indirectly {conduct : Client → Call → Conduct} (h : Unaided conduct a) :
    Indirectly a ∧ a.sent? = none := by
  cases h <;> simp [Indirectly, Engine.Action.sent?]

/-- Nothing is left to read, no loss is left to report, and no event is in hand. -/
structure Settled (w : Reception) : Prop where
  read : w.engine.feed.unread = []
  lossless : w.engine.feed.lost = 0
  free : w.engine.listener.task? = none

structure Sound (n : Nat) (w : Reception) : Prop where
  flowing : w.engine.Flowing
  indirect : w.engine.Indirect
  tuned : w.engine.Tuned
  capacity : w.engine.feed.capacity = n
  order : w.engine.kept.Sublist w.sent
  last : w.engine.kept.getLast? = w.sent.getLast?
  complete : w.lag ≤ n → w.engine.kept = w.sent

/-- An event that is sent displaces the oldest unread one if there is no room, and the listener is too
far behind then. -/
theorem Sound.send (h : w.Sound n) (e : SessionEvent)
    (ht : t = { w.engine with feed := w.engine.feed.send e }) :
    t.feed.capacity = n ∧ t.kept.Sublist (w.sent ++ [e]) ∧
      t.kept.getLast? = (w.sent ++ [e]).getLast? ∧
      ((w.after (.feed e) t).lag ≤ n → t.kept = w.sent ++ [e]) := by
  subst ht
  by_cases hroom : w.engine.feed.unread.length < w.engine.feed.capacity
  · have hkept : ({ w.engine with feed := w.engine.feed.send e } : Engine).kept =
        w.engine.kept ++ [e] := by
      simp [Engine.kept, Feed.send, hroom]
    rw [hkept]
    refine ⟨?_, h.order.append_right [e], by simp, fun hlag => ?_⟩
    · rw [← h.capacity]
      simp [Feed.send, hroom]
    · rw [h.complete ((le_max_left _ _).trans hlag)]
  · have hkept : ({ w.engine with feed := w.engine.feed.send e } : Engine).kept =
        w.engine.client.handled ++ w.engine.feed.unread.drop 1 ++ [e] := by
      simp [Engine.kept, Feed.send, hroom]
    have hdropped : (w.engine.client.handled ++ w.engine.feed.unread.drop 1).Sublist w.sent :=
      (List.Sublist.append_left (List.drop_sublist 1 _) _).trans h.order
    rw [hkept]
    refine ⟨?_, hdropped.append_right [e], by simp, fun hlag => ?_⟩
    · rw [← h.capacity]
      simp [Feed.send, hroom]
    · -- If nothing was lost so far, all that is sent and not handled is unread, and fills the feed.
      have hlength := congrArg List.length (h.complete ((le_max_left _ _).trans hlag))
      have hbehind : (w.sent ++ [e]).length - w.engine.client.handled.length ≤ n :=
        (le_max_right _ _).trans hlag
      have hfull := h.capacity
      simp only [Engine.kept, List.length_append, List.length_singleton] at hlength hbehind
      omega

theorem Sound.act (h : w.Sound n) (ha : Indirectly a) (hact : Engine.act a w.engine = some t)
    (ho : t.client.closed = false) : (w.after a t).Sound n := by
  have hhearing := Engine.hearing_act h.flowing.opened h.indirect ha hact
  have hflowing := h.flowing.act hact ho
  have hindirect := Engine.indirect_act h.indirect ha h.flowing.opened hact
  have htuned := hhearing.tuned h.tuned
  cases hsent : a.sent? with
  | none =>
    obtain ⟨hkept, hcapacity⟩ := hhearing.kept hsent
    have hsame : (w.after a t).sent = w.sent := by simp [after, hsent]
    refine ⟨hflowing, hindirect, htuned, hcapacity.trans h.capacity, ?_, ?_, fun hlag => ?_⟩
    · rw [hsame]
      exact hkept ▸ h.order
    · rw [hsame]
      exact hkept ▸ h.last
    · rw [hsame]
      exact hkept.trans (h.complete ((le_max_left _ _).trans hlag))
  | some e =>
    obtain rfl : a = .feed e := by
      cases a <;> cases hsent
      rfl
    have hafter : t = { w.engine with feed := w.engine.feed.send e } := by
      simp only [Engine.act, Engine.feedEvent] at hact
      split at hact
      · exact (Option.some.inj hact).symm
      · cases hact
    obtain ⟨hcapacity, horder, hlast, hcomplete⟩ := h.send e hafter
    exact ⟨hflowing, hindirect, htuned, hcapacity, horder, hlast, hcomplete⟩

theorem Sound.run {admits : Engine.Action → Prop} (hadmits : ∀ a, admits a → Indirectly a)
    (h : w.Sound n) (hs : Relation.ReflTransGen (Step admits) w w') : w'.Sound n := by
  induction hs with
  | refl => exact h
  | tail _ hstep ih =>
    obtain ⟨a, t, hadmitted, hact, ho⟩ := hstep
    exact ih.act (hadmits a hadmitted) hact ho

theorem unheard_initial (settings : Settings) (d : Queue Delivery) (r : Queue BackgroundRemoval)
    (feed : Option Nat) : (Engine.initial settings d r feed).client.handled = [] ∧
      (Engine.initial settings d r feed).client.recoveries = 0 := by
  simp only [Engine.initial, Client.handled, Client.recoveries]
  split <;> exact ⟨rfl, rfl⟩

theorem tuned_initial (settings : Settings) (d : Queue Delivery) (r : Queue BackgroundRemoval)
    (n : Nat) : (Engine.initial settings d r (some n)).Tuned := by
  obtain ⟨hhandled, hrecoveries⟩ := unheard_initial settings d r (some n)
  refine ⟨⟨?_, fun hst => absurd hst id, fun _ => ?_⟩, ?_, ?_⟩
  · rw [hrecoveries, hhandled]
    rfl
  · rw [hhandled]
    simp [Engine.initial]
  · simp [Engine.initial]
  · simp [Engine.initial, Listener.isStopped]

theorem sound_opening {settings : Settings} {s : Engine}
    (hb : Engine.build settings (some n) = .built s) : (opening s).Sound n := by
  have hmanned := Engine.manned_initial hb
  obtain ⟨d, r, _, _, rfl⟩ := Engine.build_eq hb
  have hkept : (Engine.initial settings d r (some n)).kept = [] := by
    rw [Engine.kept, (unheard_initial settings d r (some n)).1]
    rfl
  refine ⟨⟨Engine.orderly_initial settings d r (some n), rfl, hmanned⟩, ?_,
    tuned_initial settings d r n, rfl, ?_, congrArg List.getLast? hkept, fun _ => hkept⟩
  · exact fun x hx => absurd hx List.not_mem_nil
  · exact hkept ▸ List.Sublist.refl _

variable {conduct : Client → Call → Conduct}

theorem Sound.works (h : w.Sound n)
    (hs : Relation.ReflTransGen (Engine.Works conduct) w.engine t) :
    ∃ w', Relation.ReflTransGen (Step (Unaided conduct)) w w' ∧ w'.engine = t ∧ w'.sent = w.sent ∧
      t.ahead ≤ w.engine.ahead := by
  induction hs with
  | refl => exact ⟨w, .refl, rfl, rfl, le_rfl⟩
  | tail _ hstep ih =>
    obtain ⟨v, hrun, rfl, hsame, hle⟩ := ih
    obtain ⟨a, own, hact, ho⟩ := hstep
    have hunaided : Unaided conduct a := by
      rcases own with ⟨p, rfl⟩ | rfl | rfl <;> constructor
    have hv := h.run (fun _ ha => ha.indirectly.1) hrun
    have hhearing := Engine.hearing_act hv.flowing.opened hv.indirect hunaided.indirectly.1 hact
    refine ⟨v.after a _, hrun.tail (.acted a _ hunaided hact ho), rfl, ?_, ?_⟩
    · simp [after, hunaided.indirectly.2, hsame]
    · exact (Engine.ahead_le own hhearing).trans hle

/-- With nothing to announce, the listener takes up an event or goes on with the one in hand. -/
theorem Sound.proceeds (h : w.Sound n) (conduct : Client → Call → Conduct)
    (hagenda : w.engine.agenda .listener = []) (hs : ¬w.Settled) :
    ∃ w', Step (Unaided conduct) w w' ∧ w'.sent = w.sent ∧ w'.engine.ahead < w.engine.ahead := by
  have hstep : ∀ a t, Unaided conduct a → Engine.act a w.engine = some t → t.client.closed = false →
      t.ahead < w.engine.ahead → ∃ w', Step (Unaided conduct) w w' ∧ w'.sent = w.sent ∧
        w'.engine.ahead < w.engine.ahead := fun a t ha hact ho hlt =>
    ⟨w.after a t, .acted a t ha hact ho, by simp [after, ha.indirectly.2], hlt⟩
  cases hl : w.engine.listener with
  | stopped =>
    obtain ⟨_, hread, hlost⟩ := h.tuned.attentive (by rw [hl]; rfl)
    exact absurd ⟨hread, hlost, by rw [hl]; rfl⟩ hs
  | idle =>
    obtain ⟨t, hact, ho, hlt⟩ := Engine.exists_listen h.flowing.opened hl fun hleft =>
      hs ⟨hleft.1, hleft.2, by rw [hl]; rfl⟩
    exact hstep .listen t .listened hact ho hlt
  | handling st =>
    obtain ⟨a, t, ha, hact, ho, hlt⟩ :=
      Engine.exists_handle h.flowing.opened h.tuned hl hagenda
    refine hstep a t ?_ hact ho hlt
    rcases ha with rfl | ⟨i, rfl | rfl⟩ <;> constructor

theorem Sound.settles (h : w.Sound n) (hconduct : ∀ c x, .close ∉ (conduct c x).deeds) :
    ∃ w', Relation.ReflTransGen (Step (Unaided conduct)) w w' ∧ w'.Settled ∧ w'.sent = w.sent := by
  induction hr : w.engine.ahead using WellFoundedLT.induction generalizing w with
  | _ r ih =>
    -- What is to be announced first gets out, and the listener is no further from its end.
    obtain ⟨t, hworks, _, hagenda⟩ := h.flowing.clear hconduct
    obtain ⟨u, hrun, rfl, hsame, hle⟩ := h.works hworks
    by_cases hs : u.Settled
    · exact ⟨u, hrun, hs, hsame⟩
    · have hu := h.run (fun _ ha => ha.indirectly.1) hrun
      obtain ⟨v, hstep, hnone, hlt⟩ := hu.proceeds conduct (hagenda .listener) hs
      have hv := hu.run (fun _ ha => ha.indirectly.1) (.single hstep)
      obtain ⟨w', hrest, hdone, hsent⟩ := ih _ (hr ▸ lt_of_lt_of_le hlt hle) hv rfl
      exact ⟨w', (hrun.tail hstep).trans hrest, hdone, hsent.trans (hnone.trans hsame)⟩

/-- The handling of an event begins when no event is in hand. -/
theorem Sound.apart (h : w.Sound n) (ha : Indirectly a) (hact : Engine.act a w.engine = some t)
    (hbegun : t.client.handled ≠ w.engine.client.handled) (p : Party) (st : Session.Stage) :
    w.engine.task? p ≠ some (.session st) := by
  intro htask
  obtain rfl := h.indirect.task htask
  cases Engine.hearing_act h.flowing.opened h.indirect ha hact with
  | heard e es action idle =>
    simp [Engine.task?, idle, Listener.task?] at htask
  | lagged action idle lossy client => 
    exact hbegun (by rw [client, (Client.Unheard.remark _ _).handled])
  | deafened action idle lossless read ended client => exact hbegun (by rw [client])
  | fed e action opened listening after | ended action after => exact hbegun (by rw [after])
  | moved m st st' action inHand move => exact hbegun (Session.fits_move move).1
  | beside unheard => exact hbegun unheard.handled

theorem Sound.settled (h : w.Sound n) (hs : w.Settled) :
    w.engine.client.handled.getLast? = w.sent.getLast? ∧
      (w.engine.client.connected = false ↔ w.sent.getLast? = some .disconnected) ∧
      w.engine.client.recoveries = w.engine.client.handled.count .expired := by
  have hkept : w.engine.kept = w.engine.client.handled := by
    rw [Engine.kept, hs.read, List.append_nil]
  have hlast : w.engine.client.handled.getLast? = w.sent.getLast? := hkept ▸ h.last
  have hfits : Session.Stage.done.Fits w.engine.client := by
    have hfree := hs.free
    have hfits := h.tuned.fits
    cases hl : w.engine.listener with
    | handling st => simp [hl, Listener.task?] at hfree
    | idle | stopped =>
      rw [hl] at hfits
      exact hfits
  exact ⟨hlast, hlast ▸ hfits.connected id, hfits.recoveries⟩

/-- A client that hears of its session through a feed of any size, for any sends and whenever the feed
ends: what it handles is what was sent, one event after another, with gaps only where it fell too far
behind; it never stops early; and when it comes to rest, as it can on its own at any time, the last event
was handled and has decided whether the connection counts as live. -/
theorem heard_through_feed {settings : Settings} {s : Engine}
    (hb : Engine.build settings (some n) = .built s)
    (h : Relation.ReflTransGen (Step Indirectly) (opening s) w) :
    w.engine.client.handled.Sublist w.sent ∧
      (∀ a t, Indirectly a → Engine.act a w.engine = some t →
        t.client.handled ≠ w.engine.client.handled →
        ∀ p st, w.engine.task? p ≠ some (.session st)) ∧
      (w.lag ≤ n → w.engine.client.handled ++ w.engine.feed.unread = w.sent) ∧
      (w.engine.listener.isStopped = true → w.engine.feed.isOpen = false ∧ w.Settled) ∧
      (w.Settled → w.engine.client.handled.getLast? = w.sent.getLast? ∧
        (w.engine.client.connected = false ↔ w.sent.getLast? = some .disconnected) ∧
        w.engine.client.recoveries = w.engine.client.handled.count .expired) ∧
      ∀ conduct : Client → Call → Conduct, (∀ c x, .close ∉ (conduct c x).deeds) →
        ∃ w', Relation.ReflTransGen (Step (Unaided conduct)) w w' ∧ w'.Settled ∧ w'.sent = w.sent ∧
          w'.engine.client.handled.getLast? = w.sent.getLast? := by
  have hw := (sound_opening hb).run (fun _ ha => ha) h
  refine ⟨?_, fun a t ha hact hbegun => hw.apart ha hact hbegun, hw.complete, fun hstopped => ?_,
    hw.settled, fun conduct hconduct => ?_⟩
  · exact (List.sublist_append_left _ _).trans hw.order
  · obtain ⟨hended, hread, hlost⟩ := hw.tuned.attentive hstopped
    refine ⟨hended, hread, hlost, ?_⟩
    cases hl : w.engine.listener with
    | stopped => rfl
    | idle | handling => simp [hl, Listener.isStopped] at hstopped
  · obtain ⟨w', hrun, hs, hsame⟩ := hw.settles hconduct
    have hw' := hw.run (fun _ ha => ha.indirectly.1) hrun
    exact ⟨w', hrun, hs, hsame, hsame ▸ (hw'.settled hs).1⟩

/-- What comes of these actions, if each is possible and the client stays open. -/
def follow (as : List Engine.Action) (w : Reception) : Option Reception :=
  as.foldlM (fun w a => (Engine.act a w.engine).bind fun t =>
    if t.client.closed then none else some (w.after a t)) w

theorem run_of_follow {as : List Engine.Action} (ha : ∀ a ∈ as, Indirectly a)
    (h : follow as w = some w') : Relation.ReflTransGen (Step Indirectly) w w' := by
  refine run_of_foldlM (fun a hm w w' hw => ?_) h
  obtain ⟨t, ht, hw⟩ := Option.bind_eq_some_iff.mp hw
  obtain ⟨ho, hw⟩ := Option.ite_none_left_eq_some.mp hw
  exact Option.some.inj hw ▸ .acted a t (ha a hm) ht (by simpa using ho)

/-- The feed has room for one event. While an expiry is handled the connection comes back and is lost
again, and the listener never learns that it was back. -/
theorem reconnection_unheard :
    ∃ s w, Engine.build {} (some 1) = .built s ∧
      Relation.ReflTransGen (Step Indirectly) (opening s) w ∧ w.lag = 2 ∧
      w.sent = [.expired, .reconnected, .disconnected] ∧
      w.engine.client.handled = [.expired, .disconnected] ∧ w.Settled ∧
      w.engine.client.connected = false ∧ w.engine.client.recoveries = 1 := by
  have hb : Engine.build {} (some 1) =
      .built (.initial {} ⟨1024, [], [], [], true⟩ ⟨256, [], [], [], true⟩ (some 1)) := rfl
  have hrun : (follow [.feed .expired, .listen, .resume .listener, .feed .reconnected,
      .feed .disconnected, .resume .listener, .resume .listener, .resume .listener, .resume .listener,
      .listen, .listen, .resume .listener] (opening (.initial {} ⟨1024, [], [], [], true⟩
        ⟨256, [], [], [], true⟩ (some 1)))).any (fun w => w.lag = 2 &&
          w.sent = [.expired, .reconnected, .disconnected] &&
          w.engine.client.handled = [.expired, .disconnected] && w.engine.feed.unread = [] &&
          w.engine.feed.lost = 0 && w.engine.listener.task?.isNone) = true := by
    decide +kernel
  obtain ⟨w, hw, hdone⟩ := (Option.any_eq_true _ _).mp hrun
  simp only [Bool.and_eq_true, decide_eq_true_eq, Option.isNone_iff_eq_none] at hdone
  obtain ⟨⟨⟨⟨⟨hlag, hsent⟩, hhandled⟩, hread⟩, hlost⟩, hfree⟩ := hdone
  have hsteps := run_of_follow (fun a ha e he => by simp [he] at ha) hw
  have hs : w.Settled := ⟨hread, hlost, hfree⟩
  obtain ⟨_, _, _, _, hsettled, _⟩ := heard_through_feed hb hsteps
  obtain ⟨_, hconnected, hrecoveries⟩ := hsettled hs
  refine ⟨_, w, hb, hsteps, hlag, hsent, hhandled, hs, hconnected.mpr ?_, ?_⟩
  · rw [hsent]
    rfl
  · rw [hrecoveries, hhandled]
    rfl

end Reception

end NodeWatch
