import NodeWatch.Proofs.BacklogClearance

/-! Removals in the background come to what they come to when they are awaited one after another in the
order of their submission. The same is asked of the server, taken, confirmed and counted, and each
callback is told between the confirmations of its own removal and what comes of the next. -/

namespace NodeWatch

open Client (trace queuings askings callings InStep Alike Mirrors)
open Removal (perform confirmations)

variable {reply : Transport}

/-- Two clients with the same entries, counters and requests so far. -/
abbrev Client.SameRecord (c d : Client) : Prop :=
  InStep (trace c.journal) (trace d.journal) c d

theorem registry_reported (b : BackgroundRemoval) (x : Except Fault (List Entry) × Client) :
    (reported b x).registry = x.2.registry := by
  cases hb : b.callback <;> simp [reported, BackgroundRemoval.report, hb, Client.note]

theorem ledger_reported (b : BackgroundRemoval) (x : Except Fault (List Entry) × Client) :
    (reported b x).ledger = x.2.ledger := by
  cases hb : b.callback <;> simp [reported, BackgroundRemoval.report, hb, Client.note]

theorem trace_reported (b : BackgroundRemoval) (x : Except Fault (List Entry) × Client) :
    trace (reported b x).journal =
      trace x.2.journal ++ (b.report x.1).map Occurrence.queued := by
  cases hb : b.callback with
  | none => simp [reported, BackgroundRemoval.report, hb]
  | some f =>
    simp only [reported, BackgroundRemoval.report, hb, Option.toList_some, List.map_cons,
      List.map_nil, List.foldl_cons, List.foldl_nil]
    exact Client.trace_append [_] x.2.journal

theorem filterMap_asked_queued (ds : List Delivery) :
    (ds.map Occurrence.queued).filterMap Occurrence.asked? = [] := by
  rw [List.filterMap_map]
  exact List.filterMap_eq_nil_iff.mpr fun _ _ => rfl

/-- A removal comes to the same on clients with the same record, and leaves them so; only the report of
its result sets them apart. -/
theorem sameRecord_serve {c d v : Client} (h : c.SameRecord d) (b : BackgroundRemoval)
    {result : Except Fault (List Entry)} (hv : Alike [] [] (result, v) (perform reply b.request c))
    {os : List Occurrence} (hj : v.journal = os ++ c.journal) :
    v.SameRecord (serve reply d b) ∧ trace (serve reply d b).journal =
      trace d.journal ++ (trace os ++ (b.report result).map Occurrence.queued) := by
  obtain ⟨hresult, hclient⟩ := Removal.alike_perform reply b.request h
  have hinstep := hv.2.trans hclient
  obtain ⟨zs, hzs, hzs'⟩ := hinstep.trace
  obtain rfl : trace os = zs := by
    rw [hj, Client.trace_append] at hzs
    exact List.append_cancel_left hzs
  have hserved : trace (serve reply d b).journal =
      trace d.journal ++ (trace os ++ (b.report result).map Occurrence.queued) := by
    rw [serve, trace_reported, hzs', ← hresult, ← hv.1, List.append_assoc]
  refine ⟨⟨?_, ?_, ?_, [], (List.append_nil _).symm, (List.append_nil _).symm⟩, hserved⟩
  · rw [hserved, hzs]
    simp only [List.filterMap_append, filterMap_asked_queued, List.append_nil, h.requests]
  · rw [hinstep.registry, serve, registry_reported]
  · rw [hinstep.ledger, serve, ledger_reported]

/-- What an awaited removal would have left behind in the background. -/
def Episode.account (x : BackgroundRemoval × Episode) : List Occurrence :=
  trace x.2.occurrences ++ (x.1.report x.2.result).map Occurrence.queued

/-- What an awaited removal would have put on the queue in the background. -/
def Episode.messages (x : BackgroundRemoval × Episode) : List Delivery :=
  queuings x.2.occurrences ++ x.1.report x.2.result

theorem Episode.filterMap_queued_account (x : BackgroundRemoval × Episode) :
    (account x).filterMap Occurrence.queued? = messages x := by
  have hreport : ∀ ds : List Delivery,
      (ds.map Occurrence.queued).filterMap Occurrence.queued? = ds := fun ds => by
    rw [List.filterMap_map]
    exact List.filterMap_some
  rw [account, List.filterMap_append, ← Client.queuings_eq_filterMap, hreport, messages]

theorem Episode.filterMap_asked_account (x : BackgroundRemoval × Episode) :
    (account x).filterMap Occurrence.asked? = (trace x.2.occurrences).filterMap Occurrence.asked? := by
  rw [account, List.filterMap_append, filterMap_asked_queued, List.append_nil]

theorem Engine.Ready.awaited {s t v : Engine} {u : Awaiting} (hs : s.Ready) {r : RemovalRequest}
    {result : Except Fault (List Entry)} {os : List Occurrence}
    (begun : Engine.act (.begin (.remove r)) s = some t)
    (run : Relation.ReflTransGen (Attends reply (.caller s.nextCall)) ⟨t, []⟩ u)
    (outcome : u.engine.outcome? s.nextCall = some (.removal result))
    (collected : Engine.act (.collect s.nextCall) u.engine = some v)
    (meantime : v.client.journal = os ++ s.client.journal) :
    v.Ready ∧ Alike [] [] (result, v.client) (perform reply r s.client) ∧
      ∃ gone, queuings os = confirmations gone := by
  obtain ⟨st, hst⟩ := (Attended.begun reply hs r begun).run run
  obtain ⟨hready, hclient, rfl⟩ := hst.collected outcome collected
  obtain ⟨js, gone, hj, hq, _⟩ := hst.told
  rw [hclient] at meantime ⊢
  obtain rfl : os = js := List.append_cancel_right (meantime.symm.trans hj)
  exact ⟨hready, hst.alike, gone, hq⟩

/-- What happened while removals were awaited is what would have happened in the background, the reports
of the results apart. -/
theorem Foreground.serves {s t : Engine} {es : List Episode} (h : Foreground reply s es t)
    (hs : s.Ready) {bs : List BackgroundRemoval}
    (hbs : es.map Episode.request = bs.map BackgroundRemoval.request) {d : Client}
    (hd : s.client.SameRecord d) :
    t.client.SameRecord (bs.foldl (serve reply) d) ∧
    trace (bs.foldl (serve reply) d).journal =
      trace d.journal ++ (bs.zip es).flatMap Episode.account ∧
    (∃ os, t.client.journal = os ++ s.client.journal ∧
      trace os = es.flatMap fun e => trace e.occurrences) ∧
    ∀ e ∈ es, ∃ gone, queuings e.occurrences = confirmations gone := by
  -- `d` is the client in the background: the reports there keep it from being the same as `s.client`.
  induction h generalizing bs d with
  | rest s =>
    obtain rfl : bs = [] := by simpa using hbs.symm
    exact ⟨hd, by simp, ⟨[], rfl, rfl⟩, by simp⟩
  | @dispatched s t u es conduct opened act rest ih =>
    obtain ⟨x, q, hq, rfl⟩ :=
      Engine.dispatched_of_heard hs.opened (Engine.not_silent_of_held hs.held) act
    obtain ⟨hready, hstays⟩ := hs.dispatched opened hq
    have hsame : Mirrors ({ s.client with deliveries := q }.deliver conduct x) s.client :=
      hstays.mirrors.trans (Client.mirrors_of_eq rfl rfl rfl)
    have hbefore : ({ s.client with deliveries := q }.deliver conduct x).SameRecord d := by
      rw [Client.SameRecord, hsame.trace_eq]
      exact hsame.trans hd
    obtain ⟨hrecord, hserved, ⟨os, hj, hos⟩, hgone⟩ := ih hready hbs hbefore
    obtain ⟨js, hjs, hidle⟩ := hstays.idle
    refine ⟨hrecord, hserved, ⟨os ++ js, ?_, ?_⟩, hgone⟩
    · rw [hj, List.append_assoc]
      exact congrArg (os ++ ·) hjs
    · rw [Client.trace_append, Client.trace_idle hidle, List.nil_append, hos]
  | @removed s t v w u r result os es begun run outcome collected meantime rest ih =>
    obtain ⟨b, bs, rfl⟩ : ∃ b bs', bs = b :: bs' := by
      cases bs with
      | nil => cases hbs
      | cons b bs => exact ⟨b, bs, rfl⟩
    obtain ⟨rfl, hrequests⟩ := List.cons.inj hbs
    obtain ⟨hready, halike, hconfirmed⟩ := hs.awaited begun run outcome collected meantime
    obtain ⟨hserve, hjournal⟩ := sameRecord_serve hd b halike meantime
    obtain ⟨hrecord, hserved, ⟨js, hj, hjs⟩, hgone⟩ := ih hready hrequests hserve
    refine ⟨hrecord, ?_, ⟨js ++ os, ?_, ?_⟩, List.forall_mem_cons.mpr ⟨hconfirmed, hgone⟩⟩
    · rw [List.foldl_cons, hserved, hjournal, List.zip_cons_cons, List.flatMap_cons,
        List.append_assoc]
      rfl
    · rw [hj, meantime, List.append_assoc]
    · rw [Client.trace_append, hjs, List.flatMap_cons]

theorem flatMap_zip {α β γ : Type} {xs : List α} {ys : List β} (h : xs.length = ys.length)
    (f : β → List γ) : (xs.zip ys).flatMap (fun x => f x.2) = ys.flatMap f := by
  have hys : (xs.zip ys).map Prod.snd = ys := List.map_snd_zip h.ge
  conv_rhs => rw [← hys]
  rw [List.flatMap_map]

theorem BackgroundRemoval.filter_isWatched_report (b : BackgroundRemoval)
    (result : Except Fault (List Entry)) : (b.report result).filter Delivery.isWatched = [] := by
  refine List.filter_eq_nil_iff.mpr fun d hd => ?_
  obtain ⟨f, _, rfl⟩ := List.mem_map.mp hd
  exact Bool.false_ne_true

theorem Removal.filter_isWatched_confirmations (es : List Entry) :
    (confirmations es).filter Delivery.isWatched = confirmations es := by
  refine List.filter_eq_self.mpr fun d hd => ?_
  obtain ⟨e, _, rfl⟩ := List.mem_map.mp hd
  rfl

namespace Backlog

variable {s : Engine} {w : Backlog}

/-- What removals came to in the background, compared with what came of them when they were awaited
one after another. -/
structure Refines (s : Engine) (w : Backlog) (es : List Episode) (t : Engine) : Prop where
  registry : w.engine.client.registry = t.client.registry
  ledger : w.engine.client.ledger = t.client.ledger
  journals : ∃ os js, w.engine.client.journal = os ++ s.client.journal ∧
    t.client.journal = js ++ s.client.journal ∧
    askings os = askings js ∧ (queuings os).filter Delivery.isWatched = queuings js ∧
    trace js = es.flatMap (fun e => trace e.occurrences) ∧
    trace os = (w.submitted.zip es).flatMap Episode.account ∧
    callings os = w.carried.flatMap (Delivery.calls []) ∧
    Delivery.CarriedOut (w.carried.map ([], ·)) (callings os)
  confirmed : ∀ e ∈ es, ∃ gone, queuings e.occurrences = confirmations gone
  carried : w.carried =
    s.client.deliveries.items ++ (w.submitted.zip es).flatMap Episode.messages

theorem Standing.refines (h : Standing reply s w) (hs : s.Ready) (hf : w.Finished)
    {es : List Episode} {t : Engine} (hawaited : Foreground reply s es t)
    (hes : es.map Episode.request = w.submitted.map BackgroundRemoval.request) :
    Refines s w es t := by
  have hbefore : s.client.SameRecord s.client :=
    ⟨rfl, rfl, rfl, [], (List.append_nil _).symm, (List.append_nil _).symm⟩
  obtain ⟨hrecord, hserved, ⟨js, hjs, htrace⟩, hconfirmed⟩ := hawaited.serves hs hes hbefore
  have hsame : Mirrors w.engine.client (w.submitted.foldl (serve reply) s.client) := by
    have hmirrors := h.mirrors
    rw [hf.items] at hmirrors
    rcases hf.worker with hw | hw
    · rwa [hw] at hmirrors
    · rwa [hw] at hmirrors
  obtain ⟨os, hos, hcarried, hcalled⟩ := h.delivered
  have haccount : trace os = (w.submitted.zip es).flatMap Episode.account := by
    have htraces := hsame.trace_eq
    rw [hserved, hos, Client.trace_append] at htraces
    exact List.append_cancel_left htraces
  have hlength : w.submitted.length = es.length := by
    simpa using (congrArg List.length hes).symm
  have hmessages : queuings os = (w.submitted.zip es).flatMap Episode.messages := by
    rw [Client.queuings_eq_filterMap, haccount, List.filterMap_flatMap]
    simp only [Episode.filterMap_queued_account]
  have hqueued : queuings js = es.flatMap fun e => queuings e.occurrences := by
    rw [Client.queuings_eq_filterMap, htrace, List.filterMap_flatMap]
    simp only [← Client.queuings_eq_filterMap]
  refine ⟨hsame.registry.trans hrecord.registry.symm, hsame.ledger.trans hrecord.ledger.symm,
    ⟨os, js, hos, hjs, ?_, ?_, htrace, haccount, hcalled, ?_⟩, hconfirmed, ?_⟩
  · rw [Client.askings_eq_filterMap, Client.askings_eq_filterMap, haccount, htrace,
      List.filterMap_flatMap, List.filterMap_flatMap]
    simp only [Episode.filterMap_asked_account]
    exact flatMap_zip hlength fun e => (trace e.occurrences).filterMap Occurrence.asked?
  · have hwatched : ∀ x ∈ w.submitted.zip es,
        (Episode.messages x).filter Delivery.isWatched = queuings x.2.occurrences := fun x hx => by
      obtain ⟨gone, hgone⟩ := hconfirmed x.2 (List.of_mem_zip hx).2
      rw [Episode.messages, List.filter_append, hgone, Removal.filter_isWatched_confirmations,
        BackgroundRemoval.filter_isWatched_report, List.append_nil]
    rw [hmessages, List.filter_flatMap, hqueued, ← flatMap_zip hlength]
    exact List.flatMap_congr hwatched
  · have hcarriedOut := Delivery.carriedOut_calls (w.carried.map (([] : List String), ·))
    rwa [List.flatMap_map, ← hcalled] at hcarriedOut
  · rw [hf.delivered, List.append_nil] at hcarried
    rw [hcarried, hmessages]

theorem Standing.removing_alone (h : Standing reply s w) {p : Party} {r : RemovalRequest}
    {st : Removal.Stage} (hp : (p, .removal r st) ∈ w.engine.tasks) : p = .remover := by
  rcases Engine.mem_tasks.mp hp with ⟨id, hid, rfl⟩ | ⟨rfl, _⟩ | ⟨_, hl⟩
  · obtain ⟨b, hb | hb⟩ := h.calls _ hid
    · cases hb
    · cases hb
  · rfl
  · rw [h.alone] at hl
    cases hl

/-- A step by which nothing is submitted before the last removal submitted was accepted. -/
def StepInTurn (reply : Transport) (w w' : Backlog) : Prop :=
  Step reply w w' ∧ (w.engine.offering = [] ∨ w'.ordered = w.ordered)

theorem Step.submitted {w' : Backlog} (h : Step reply w w') :
    (∃ b, w'.ordered = w.ordered ++ [b] ∧ w'.submitted = w.submitted) ∨
      w'.ordered = w.ordered ∧ ∃ bs, w'.submitted = w.submitted ++ bs := by
  cases h with
  | ordered b => exact .inl ⟨b, rfl, rfl⟩
  | enrolling id t => exact .inr ⟨rfl, t.handedOver id, rfl⟩
  | _ => exact .inr ⟨rfl, [], (List.append_nil _).symm⟩

/-- Removals that are submitted in turn are accepted in the order of their submission. -/
theorem accepted_in_turn (hs : s.Resting)
    (h : Relation.ReflTransGen (StepInTurn reply) (opening s) w) :
    Standing reply s w ∧ w.engine.offering.length ≤ 1 ∧
      w.submitted ++ w.engine.offering = w.ordered := by
  induction h with
  | refl =>
    have hnone : s.offering = [] := by rw [Engine.offering, hs.calls]; rfl
    exact ⟨standing_opening hs, by simp [opening, hnone], by simp [opening, hnone]⟩
  | @tail v w _ hstep ih =>
    obtain ⟨hv, hone, hordered⟩ := ih
    have hw := hv.step hstep.1
    have hperm := hw.ordered
    have hkeep : w.engine.offering.length ≤ 1 ∧ w.submitted ++ w.engine.offering = w.ordered := by
      rcases hstep.1.submitted with ⟨b, ho, hsub⟩ | ⟨ho, bs, hsub⟩
      · have hnone : v.engine.offering = [] := by
          refine hstep.2.resolve_right fun hsame => ?_
          rw [ho] at hsame
          simp at hsame
        rw [hnone, List.append_nil] at hordered
        rw [ho, hsub, ← hordered, List.perm_append_left_iff, List.perm_singleton] at hperm
        simp [hperm, hsub, ho, hordered]
      · rw [ho, hsub, ← hordered, List.append_assoc, List.perm_append_left_iff] at hperm
        have hsame : bs ++ w.engine.offering = v.engine.offering := by
          rcases Nat.le_one_iff_eq_zero_or_eq_one.mp hone with hnone | hsingle
          · rw [List.length_eq_zero_iff.mp hnone] at hperm ⊢
            exact List.perm_nil.mp hperm
          · obtain ⟨b, hb⟩ := List.length_eq_one_iff.mp hsingle
            rw [hb] at hperm ⊢
            exact List.perm_singleton.mp hperm
        refine ⟨?_, ?_⟩
        · rw [← hsame, List.length_append] at hone
          omega
        · rw [hsub, List.append_assoc, hsame, hordered, ho]
    exact ⟨hw, hkeep⟩

/-- Background removals refine removals awaited one after another. At most one is under way at a
time, and all that were submitted can always be worked off. Once they are, the server was asked, and
entries were taken out, confirmed and counted, as when the same removals are awaited in the order in
which they were accepted; the callback of each was told its result after its confirmations and before
anything that came of the next. -/
theorem background_refines_foreground (hs : s.Resting)
    (h : Relation.ReflTransGen (Step reply) (opening s) w) :
    (∀ p q r r' st st', (p, .removal r st) ∈ w.engine.tasks →
      (q, .removal r' st') ∈ w.engine.tasks → p = q ∧ r = r' ∧ st = st') ∧
    (∃ v, Relation.ReflTransGen (Step reply) w v ∧ v.Finished ∧ v.ordered = w.ordered) ∧
    (∃ es t, Foreground reply s es t ∧
      es.map Episode.request = w.submitted.map BackgroundRemoval.request) ∧
    (w.Finished → w.submitted.Perm w.ordered ∧ ∀ es t, Foreground reply s es t →
      es.map Episode.request = w.submitted.map BackgroundRemoval.request → Refines s w es t) ∧
    (Relation.ReflTransGen (StepInTurn reply) (opening s) w →
      w.submitted ++ w.engine.offering = w.ordered) := by
  have hw := (standing_opening hs).run h
  refine ⟨fun p q r r' st st' hp hq => ?_, hw.completes, ?_, fun hf => ⟨?_, fun es t ht hes => ?_⟩,
    fun hturn => (accepted_in_turn hs hturn).2.2⟩
  · obtain rfl := hw.removing_alone hp
    obtain rfl := hw.removing_alone hq
    cases Engine.task_unique hw.orderly hp hq
    exact ⟨rfl, rfl, rfl⟩
  · exact Foreground.exists_of_ready reply hs.toReady _
  · have hordered := hw.ordered
    rwa [Engine.offering, hf.calls, List.filterMap_nil, List.append_nil] at hordered
  · exact hw.refines hs.toReady hf ht hes

/-! ### Two removals played out -/

/-- What comes next of background removals. -/
inductive Prompt where
  | order (b : BackgroundRemoval)
  | enrol (id : Nat)
  | collect (id : Nat)
  | turn
  | resume
  | answer (slot : Nat)
  | dispatch

def play (reply : Transport) (w : Backlog) : Prompt → Option Backlog
  | .order b =>
    if Path.validate b.request.path = .ok () then
      (Engine.act (.begin (.enrol b)) w.engine).map
        ({ w with engine := ·, ordered := w.ordered ++ [b] })
    else none
  | .enrol id => (Engine.act (.resume (.caller id)) w.engine).map fun t =>
    { w with engine := t, submitted := w.submitted ++ t.handedOver id }
  | .collect id => (Engine.act (.collect id) w.engine).map ({ w with engine := · })
  | .turn => (Engine.act .turn w.engine).map ({ w with engine := · })
  | .resume => (Engine.act (.resume .remover) w.engine).map ({ w with engine := · })
  | .answer slot =>
    (Engine.act (.answer .remover slot (reply (w.engine.upTo .remover slot))) w.engine).map
      ({ w with engine := · })
  | .dispatch => (Engine.act (.dispatch fun _ _ => {}) w.engine).map
    ({ w with engine := ·, carried := w.carried ++ w.engine.client.deliveries.items.take 1 })

theorem step_of_play {w' : Backlog} {m : Prompt} (h : w.play reply m = some w') : Step reply w w' := by
  cases m with
  | order b =>
    obtain ⟨hvalid, h⟩ := Option.ite_none_right_eq_some.mp h
    obtain ⟨t, ht, rfl⟩ := Option.map_eq_some_iff.mp h
    exact .ordered b t hvalid ht
  | enrol id =>
    obtain ⟨t, ht, rfl⟩ := Option.map_eq_some_iff.mp h
    exact .enrolling id t ht
  | collect id =>
    obtain ⟨t, ht, rfl⟩ := Option.map_eq_some_iff.mp h
    exact .collected id t ht
  | turn =>
    obtain ⟨t, ht, rfl⟩ := Option.map_eq_some_iff.mp h
    exact .worked _ t (.inl rfl) ht
  | resume =>
    obtain ⟨t, ht, rfl⟩ := Option.map_eq_some_iff.mp h
    exact .worked _ t (.inr (.inr rfl)) ht
  | answer slot =>
    obtain ⟨t, ht, rfl⟩ := Option.map_eq_some_iff.mp h
    exact .answered slot t ht
  | dispatch =>
    obtain ⟨t, ht, rfl⟩ := Option.map_eq_some_iff.mp h
    exact .dispatched _ t (by simp) ht


theorem run_of_play {w' : Backlog} {ms : List Prompt} (h : ms.foldlM (play reply) w = some w') :
    Relation.ReflTransGen (Step reply) w w' :=
  run_of_foldlM (fun _ _ _ _ => step_of_play) h

/-- The first of two removals has a callback, and the second is submitted while the first awaits its
answer. The callback is told between the confirmation of the first and that of the second. -/
theorem background_removals_refine :
    ∃ (s : Engine) (w : Backlog) (es : List Episode) (t : Engine), s.Resting ∧
      Relation.ReflTransGen (Step fun _ => .ok .removed) (opening s) w ∧ w.Finished ∧
      w.submitted = [⟨⟨"/a", .any, .all, false, false⟩, some "told"⟩,
        ⟨⟨"/b", .only .data, .all, false, false⟩, none⟩] ∧
      Foreground (fun _ => .ok .removed) s es t ∧
      es.map Episode.request = [⟨"/a", .any, .all, false, false⟩,
        ⟨"/b", .only .data, .all, false, false⟩] ∧ Refines s w es t ∧
      w.carried = [.removed ⟨"/a", .data, .watcher (.named "w")⟩ .syncConnected,
        .completion "told" (.removal "/a" .any .ok true),
        .removed ⟨"/b", .data, .watcher (.named "w")⟩ .syncConnected] := by
  have hrun : ∃ s, Engine.build {} none = .built s ∧
      (Chronicle.follow [.begin (.arm ⟨.presence, "/a", .watcher (.named "w")⟩),
        .answer (.caller 0) 0 (.ok (.presence true)), .collect 0,
        .begin (.arm ⟨.presence, "/b", .watcher (.named "w")⟩),
        .answer (.caller 1) 0 (.ok (.presence true)), .collect 1] (Chronicle.opening s)).any fun u =>
      decide (u.engine.calls = [] ∧ u.engine.client.closed = false ∧ u.engine.dispatching = true ∧
        u.engine.client.deliveries.isOpen = true ∧ 0 < u.engine.client.deliveries.capacity ∧
        u.engine.client.deliveries.line = [] ∧ u.engine.client.deliveries.admitted = [] ∧
        u.engine.held = true) &&
      decide (u.engine.worker.isIdle = true ∧ u.engine.listener.task? = none ∧
        u.engine.client.removals.isOpen = true ∧ 0 < u.engine.client.removals.capacity ∧
        u.engine.client.removals.items = [] ∧ u.engine.client.removals.line = [] ∧
        u.engine.client.removals.admitted = []) &&
      ([.order ⟨⟨"/a", .any, .all, false, false⟩, some "told"⟩, .enrol 2, .turn, .turn, .resume,
        .order ⟨⟨"/b", .only .data, .all, false, false⟩, none⟩, .enrol 3, .collect 2, .collect 3,
        .answer 0, .resume, .resume, .resume, .resume, .resume, .resume, .turn, .turn, .resume,
        .answer 0, .resume, .resume, .resume, .resume, .resume, .dispatch, .dispatch,
        .dispatch].foldlM (play fun _ => .ok .removed) (opening u.engine)).any fun w =>
      decide (w.engine.calls = [] ∧ w.engine.client.removals.items = [] ∧
        w.engine.worker.isIdle = true ∧ w.engine.client.deliveries.items = [] ∧
        w.submitted = [⟨⟨"/a", .any, .all, false, false⟩, some "told"⟩,
          ⟨⟨"/b", .only .data, .all, false, false⟩, none⟩] ∧
        w.carried = [.removed ⟨"/a", .data, .watcher (.named "w")⟩ .syncConnected,
          .completion "told" (.removal "/a" .any .ok true),
          .removed ⟨"/b", .data, .watcher (.named "w")⟩ .syncConnected]) :=
    ⟨_, rfl, by decide +kernel⟩
  obtain ⟨_, _, hrun⟩ := hrun
  obtain ⟨⟨s, _, _, _⟩, _, hc⟩ := (Option.any_eq_true _ _).mp hrun
  obtain ⟨hresting, hplayed⟩ := Bool.and_eq_true_iff.mp hc
  obtain ⟨hcalm, hfree⟩ := Bool.and_eq_true_iff.mp hresting
  obtain ⟨hcalls, hopened, hdispatching, hisOpen, hcapacity, hline, hadmitted, hheld⟩ :=
    of_decide_eq_true hcalm
  obtain ⟨hworker, hlistener, hremovals, hroom, hitems, hremoving, hgranted⟩ :=
    of_decide_eq_true hfree
  have hidle : ∀ x : Worker, x.isIdle = true → x = .idle := fun x hx => by
    cases x <;> first | rfl | cases hx
  have hrest : s.Resting :=
    { orderly := by simp [Engine.Orderly, show s.calls = [] from hcalls]
      opened := hopened, dispatching := hdispatching, isOpen := hisOpen, capacity := hcapacity
      line := hline, admitted := hadmitted, held := hheld, calls := hcalls
      worker := hidle _ hworker, listener := hlistener
      removals := ⟨hremovals, hroom, hitems, hremoving, hgranted⟩ }
  obtain ⟨w, hw, hdone⟩ := (Option.any_eq_true _ _).mp hplayed
  obtain ⟨hnone, htaken, hended, hdelivered, hsubmitted, hcarried⟩ := of_decide_eq_true hdone
  have hsteps := run_of_play hw
  have hf : w.Finished := ⟨hnone, htaken, .inl (hidle _ hended), hdelivered⟩
  obtain ⟨_, _, ⟨es, u, hu, hes⟩, hfinished, _⟩ := background_refines_foreground hrest hsteps
  refine ⟨s, w, es, u, hrest, hsteps, hf, hsubmitted, hu, ?_, (hfinished hf).2 es u hu hes, hcarried⟩
  rw [hes, hsubmitted]
  rfl

end Backlog

end NodeWatch
