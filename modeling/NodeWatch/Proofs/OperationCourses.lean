import NodeWatch.Proofs.AsideChanges
import NodeWatch.Proofs.EngineChange
import NodeWatch.Proofs.RemovalReconcile

/-! The course of each kind of operation: what a single move does to its stage and to the client.
A delivery that had to wait is offered again. -/

namespace NodeWatch

open Session (Spot)

namespace Client

/-- The client was at work on its watches alone: it was not closed, it has the same settings and
listeners, and its queues are as they were. -/
structure Undisturbed (c c' : Client) : Prop where
  settings : c'.settings = c.settings
  listeners : c'.listeners = c.listeners
  deliveries : c'.deliveries = c.deliveries
  removals : c'.removals = c.removals
  closed : c'.closed = c.closed

namespace Undisturbed

theorem refl (c : Client) : c.Undisturbed c :=
  ⟨rfl, rfl, rfl, rfl, rfl⟩

theorem of_remarked {c c' : Client} (h : c.Remarked c') : c.Undisturbed c' := by
  induction h with
  | none => exact refl c
  | more _ r ih => exact ⟨ih.settings, ih.listeners, ih.deliveries, ih.removals, ih.closed⟩

theorem arm (c : Client) (e : Entry) : c.Undisturbed (c.arm e) := by
  simp only [Client.arm]
  split <;> exact ⟨rfl, rfl, rfl, rfl, rfl⟩

theorem fire (c : Client) (path : String) (e : WatchedEvent) : c.Undisturbed (c.fire path e).2 := by
  simp only [Client.fire]
  split <;> exact ⟨rfl, rfl, rfl, rfl, rfl⟩

end Undisturbed

end Client

namespace Removal

variable {r : RemovalRequest} {p : Plan} {c : Client}

/-- How a removal begins. -/
inductive Started (r : RemovalRequest) (c : Client) : Stage × Client → Prop
  | invalid (f : Fault) (invalid : Path.validate r.path = .error f) :
    Started r c (.done (.error f), c)
  | unmatched (valid : Path.validate r.path = .ok ()) (alone : r.registryOnly = true)
    (none : (c.unregister .removed r.path r.kind r.target).1 = []) :
    Started r c (finish r (nothing r) (c.unregister .removed r.path r.kind r.target).2)
  | taken (valid : Path.validate r.path = .ok ()) (alone : r.registryOnly = true)
    (some : (c.unregister .removed r.path r.kind r.target).1 ≠ []) :
    Started r c
      (.confirming (c.unregister .removed r.path r.kind r.target).1
        ⟨(c.unregister .removed r.path r.kind r.target).1, [], none⟩,
      (c.unregister .removed r.path r.kind r.target).2)
  | idle (valid : Path.validate r.path = .ok ()) (remote : r.registryOnly = false)
    (server : (plan r c.registry).server = []) (here : (plan r c.registry).here = []) :
    Started r c (finish r (nothing r) c)
  | asking (valid : Path.validate r.path = .ok ()) (remote : r.registryOnly = false)
    (work : ¬((plan r c.registry).server = [] ∧ (plan r c.registry).here = [])) :
    Started r c (.asking (plan r c.registry) [], c)

theorem started (r : RemovalRequest) (c : Client) : Started r c (start r c) := by
  unfold start
  cases hv : Path.validate r.path with
  | error f => exact .invalid f hv
  | ok u =>
    cases hr : r.registryOnly with
    | true =>
      have hunmatched := Started.unmatched (c := c) hv hr
      have htaken := Started.taken (c := c) hv hr
      dsimp only
      rw [if_pos rfl]
      split
      · rename_i c₁ hc
        rw [hc] at hunmatched
        exact hunmatched rfl
      · rename_i es c₁ hne hc
        rw [hc] at htaken
        exact htaken hne
    | false =>
      dsimp only
      rw [if_neg Bool.false_ne_true]
      split
      · rename_i hempty
        exact .idle hv hr (by simpa using hempty.1) (by simpa using hempty.2)
      · rename_i hwork
        exact .asking hv hr (by simpa using hwork)

/-- What the answers to a removal do to the client: entries at its path go, one kind after another,
and remarks are written. -/
inductive Thins (r : RemovalRequest) (c : Client) : Client → Prop
  | none : Thins r c c
  | taken {c' : Client} (h : Thins r c c') (kind : Selector) :
    Thins r c (c'.unregister .removed r.path kind r.target).2
  | remarked {c' : Client} (h : Thins r c c') (m : Remark) : Thins r c (c'.remark m)

theorem Thins.settleKind {x : Settlement × Client} (h : Thins r c x.2) (y : Kind × Answer) :
    Thins r c (settleKind r p x y).2 := by
  obtain ⟨s, c₁⟩ := x
  obtain ⟨k, a⟩ := y
  cases a with
  | ok _ => exact h.taken (.only k)
  | error f =>
    simp only [Removal.settleKind]
    split
    · split
      · exact h.taken (.only k)
      · split <;> exact h
    · exact h.remarked _

/-- No entry comes in. -/
theorem Thins.entries {c' : Client} (h : Thins r c c') {e : Entry} (he : e ∈ c'.registry) :
    e ∈ c.registry := by
  induction h with
  | none => exact he
  | taken _ _ ih => exact ih (Registry.mem_takeOut_snd.mp he).1
  | remarked _ _ ih => exact ih he

theorem thins_reconcile (p : Plan) (answers : List Answer) (c : Client) :
    Thins r c (reconcile r p answers c).2 := by
  have hasked : Thins r c ((p.server.zip answers).foldl (settleKind r p) (⟨[], [], none⟩, c)).2 :=
    List.foldlRecOn (motive := fun x : Settlement × Client => Thins r c x.2) _ _ .none
      fun _ hx y _ => hx.settleKind y
  exact List.foldlRecOn (motive := fun x : Settlement × Client => Thins r c x.2) p.here
    (settleHere r) hasked fun _ hx k _ => hx.taken (.only k)

theorem thins_advance (p : Plan) (answers : List (Option Answer)) (c : Client) :
    Thins r c (advance r p answers c).2 := by
  rcases advance_cases r p answers c with ⟨_, ha⟩ | ⟨as, _, _, ha⟩
  · rw [ha]
    exact .none
  · rw [ha]
    exact thins_reconcile p as c

/-- What a removal is said to have come to. -/
def Settlement.result (o : Settlement) : Except Fault (List Entry) :=
  match o.failure with
  | some f => .error f
  | none => .ok o.removed

/-- What a removal does by itself. -/
inductive Resumed (r : RemovalRequest) (party : Party) (c : Client) : Stage → Stage → Client → Prop
  | asked (p : Plan) (answers : List (Option Answer)) (k : Kind)
    (next : p.server[answers.length]? = some k) :
    Resumed r party c (.asking p answers) (.asking p (answers ++ [none]))
      (c.submit (.remove r.path k))
  | advanced (p : Plan) (answers : List (Option Answer)) (empty : p.server = []) :
    Resumed r party c (.asking p answers) (advance r p answers c).1 (advance r p answers c).2
  | told (o : Settlement) : Resumed r party c (.confirming [] o) (.checking o.cleared o) c
  | telling (e : Entry) (es : List Entry) (o : Settlement) :
    Resumed r party c (.confirming (e :: es) o)
      (.confirming (if (c.send party (.removed e .syncConnected)).1 then es else e :: es) o)
      (c.send party (.removed e .syncConnected)).2
  | finished (o : Settlement) (result : Except Fault (List Entry)) (ended : result = o.result) :
    Resumed r party c (.checking [] o) (.done result) (c.settle r.mode result)
  | passed (k : Kind) (ks : List Kind) (o : Settlement)
    (unheld : (⟨r.path, k⟩ : Spot) ∉ c.registry.spots) :
    Resumed r party c (.checking (k :: ks) o) (.checking ks o) c
  | rearming (k : Kind) (ks : List Kind) (o : Settlement)
    (held : (⟨r.path, k⟩ : Spot) ∈ c.registry.spots) :
    Resumed r party c (.checking (k :: ks) o) (.rearming k ks o)
      ((c.remark (.rearming r.path k)).submit (.register r.path (.rearming k)))

theorem resumed {r : RemovalRequest} {party : Party} {st st' : Stage} {c c' : Client}
    (h : resume r party st c = some (st', c')) : Resumed r party c st st' c' := by
  cases st with
  | asking p answers =>
    simp only [resume] at h
    split at h
    · rename_i k hk
      obtain ⟨rfl, rfl⟩ := Prod.mk.inj (Option.some.inj h)
      exact .asked p answers k hk
    · split at h
      · rename_i he
        obtain ⟨rfl, rfl⟩ := Prod.mk.inj ((Prod.mk.eta (p := advance r p answers c)).trans
          (Option.some.inj h))
        exact .advanced p answers (by simpa using he)
      · cases h
  | confirming rest o =>
    cases rest with
    | nil =>
      obtain ⟨rfl, rfl⟩ := Prod.mk.inj (Option.some.inj h)
      exact .told o
    | cons e es =>
      simp only [resume] at h
      split at h
      · cases h
      · have ht := @Resumed.telling r party c e es o
        split at h
        all_goals
          rename_i c₁ hs
          obtain ⟨rfl, rfl⟩ := Prod.mk.inj (Option.some.inj h)
          rw [hs] at ht
          exact ht
  | checking ks o =>
    cases ks with
    | nil =>
      simp only [resume] at h
      split at h
      all_goals
        rename_i hf
        obtain ⟨rfl, rfl⟩ := Prod.mk.inj (Option.some.inj h)
        exact .finished o _ (by rw [Settlement.result, hf])
    | cons k ks =>
      simp only [resume] at h
      split at h
      · rename_i he
        obtain ⟨rfl, rfl⟩ := Prod.mk.inj (Option.some.inj h)
        exact .passed k ks o (Registry.isEmpty_registeredKinds.mp he)
      · rename_i he
        obtain ⟨rfl, rfl⟩ := Prod.mk.inj (Option.some.inj h)
        exact .rearming k ks o (not_not.mp fun hn => he (Registry.isEmpty_registeredKinds.mpr hn))
  | rearming k ks o => cases h
  | done result => cases h

/-- What an answer does to a removal. -/
inductive Replied (r : RemovalRequest) (slot : Nat) (x : Answer) (c : Client) :
    Stage → Stage → Client → Prop
  | advanced (p : Plan) (answers : List (Option Answer)) (awaited : answers[slot]? = some none) :
    Replied r slot x c (.asking p answers) (advance r p (answers.set slot (some x)) c).1
      (advance r p (answers.set slot (some x)) c).2
  | rearmed (k : Kind) (ks : List Kind) (o : Settlement) (first : slot = 0) (c' : Client)
    (aside : c.Aside c') (unasked : c.Unasked c') :
    Replied r slot x c (.rearming k ks o) (.checking ks o) c'

theorem replied {r : RemovalRequest} {slot : Nat} {x : Answer} {st st' : Stage} {c c' : Client}
    (h : answer r slot x st c = some (st', c')) : Replied r slot x c st st' c' := by
  cases st with
  | asking p answers =>
    simp only [answer] at h
    split at h
    · rename_i hw
      obtain ⟨rfl, rfl⟩ := Prod.mk.inj ((Prod.mk.eta (p := advance r p _ c)).trans
        (Option.some.inj h))
      exact .advanced p answers hw
    · cases h
  | rearming k ks o =>
    simp only [answer] at h
    split at h
    · rename_i hs
      cases x with
      | ok _ =>
        obtain ⟨rfl, rfl⟩ := Prod.mk.inj (Option.some.inj h)
        exact .rearmed k ks o hs c (.refl c) (.refl c)
      | error f =>
        obtain ⟨rfl, rfl⟩ := Prod.mk.inj (Option.some.inj h)
        exact .rearmed k ks o hs _ (.remark c _) (.note c (by simp))
    · cases h
  | confirming rest o => cases h
  | checking ks o => cases h
  | done result => cases h

/-- The answer to the request that arms a kind again is looked at for the log alone. -/
theorem answered_rearming {slot : Nat} {x : Answer} {k : Kind} {ks : List Kind} {o : Settlement}
    (h : answer r slot x (.rearming k ks o) c = some (st', c')) :
    st' = .checking ks o ∧ (c' = c ∨ ∃ m, c' = c.remark m) := by
  simp only [answer] at h
  split at h
  · cases x with
    | ok y =>
      obtain ⟨rfl, rfl⟩ := Prod.mk.inj (Option.some.inj h)
      exact ⟨rfl, .inl rfl⟩
    | error f =>
      obtain ⟨rfl, rfl⟩ := Prod.mk.inj (Option.some.inj h)
      exact ⟨rfl, .inr ⟨_, rfl⟩⟩
  · cases h

theorem thins_answer {slot : Nat} {x : Answer} {st st' : Stage} {c' : Client}
    (h : answer r slot x st c = some (st', c')) : Thins r c c' := by
  cases st with
  | asking p answers =>
    cases replied h with
    | advanced => exact thins_advance p _ c
  | rearming k ks o =>
    simp only [answer] at h
    split at h
    · cases x <;> obtain ⟨_, rfl⟩ := Prod.mk.inj (Option.some.inj h)
      · exact .remarked .none _
      · exact .none
    · cases h
  | confirming | checking | done => cases h

end Removal

theorem Client.Undisturbed.of_thins {r : RemovalRequest} {c c' : Client}
    (h : Removal.Thins r c c') : c.Undisturbed c' := by
  induction h with
  | none => exact .refl c
  | taken _ _ ih | remarked _ _ ih =>
    exact ⟨ih.settings, ih.listeners, ih.deliveries, ih.removals, ih.closed⟩

theorem Removal.undisturbed_start (r : RemovalRequest) (c : Client) :
    c.Undisturbed (start r c).2 := by
  have h := started r c
  generalize start r c = x at h ⊢
  cases h <;> exact ⟨rfl, rfl, rfl, rfl, rfl⟩

namespace Notification

theorem resumed {p : Party} {st st' : Stage} {c c' : Client}
    (h : resume p st c = some (st', c')) :
    (st = .telling [] ∧ st' = .done ∧ c' = c) ∨
      ∃ d ds, st = .telling (d :: ds) ∧
        st' = .telling (if (c.send p d).1 then ds else d :: ds) ∧ c' = (c.send p d).2 := by
  cases st with
  | telling ds =>
    cases ds with
    | nil =>
      obtain ⟨rfl, rfl⟩ := Prod.mk.inj (Option.some.inj h)
      exact .inl ⟨rfl, rfl, rfl⟩
    | cons d ds =>
      simp only [resume] at h
      split at h
      · cases h
      · split at h
        all_goals
          rename_i c₁ hs
          obtain ⟨rfl, rfl⟩ := Prod.mk.inj (Option.some.inj h)
          exact .inr ⟨d, ds, rfl, by rw [hs]; rfl, by rw [hs]⟩
  | done => cases h

end Notification

namespace Session

/-- What the handling of a session event does by itself. -/
inductive Resumed (p : Party) (c : Client) : Stage → Stage → Client → Prop
  | expiring :
    Resumed p c .expiring
      (if (c.send p (.state (.linkChange .expired))).1 then .expired else .expiring)
      (c.send p (.state (.linkChange .expired))).2
  | expired : Resumed p c .expired (recover c).1 (recover c).2
  | started (before after : List Task) (t : Task)
    (unstarted : Backoff.isUnstarted t.stage = true) :
    Resumed p c (.resubmitting (before ++ t :: after))
      (.resubmitting (before ++
        { t with stage := .trying 1 c.settings.resubmit.baseDelayMs } :: after))
      (c.submit t.spot.request)
  | gathered (ts : List Task) (rs : List (Spot × Answer))
    (results : results? ts = some rs) : Resumed p c (.resubmitting ts) (.dropping rs []) c
  | telling (rs : List (Spot × Answer)) (e : Entry) (es : List Entry) :
    Resumed p c (.dropping rs (e :: es))
      (.dropping rs (if (c.send p (.removed e .expired)).1 then es else e :: es))
      (c.send p (.removed e .expired)).2
  | kept (s : Spot) (rs : List (Spot × Answer)) :
    Resumed p c (.dropping ((s, .ok x) :: rs) []) (.dropping rs []) c
  | dropped (s : Spot) (f : Fault) (rs : List (Spot × Answer)) :
    Resumed p c (.dropping ((s, .error f) :: rs) [])
      (.dropping rs ((c.remark (.rearmAbandoned s.path s.kind f)).unregister .expired s.path
        (.only s.kind) .all).1)
      ((c.remark (.rearmAbandoned s.path s.kind f)).unregister .expired s.path (.only s.kind)
        .all).2
  | restored :
    Resumed p c (.dropping [] []) (.reporting .syncConnected) { c with connected := true }
  | reporting (state : LinkState) :
    Resumed p c (.reporting state)
      (if (c.send p (.state (.linkChange state))).1 then .done else .reporting state)
      (c.send p (.state (.linkChange state))).2

theorem undisturbed_start (e : SessionEvent) (c : Client) : c.Undisturbed (start e c).2 := by
  cases e <;> exact ⟨rfl, rfl, rfl, rfl, rfl⟩

theorem undisturbed_recover (c : Client) : c.Undisturbed (recover c).2 := by
  unfold recover
  dsimp only
  split <;> exact ⟨rfl, rfl, rfl, rfl, rfl⟩

theorem startNext_eq_some {policy : BackoffPolicy} {ts ts' : List Task} {c c' : Client}
    (h : startNext policy ts c = some (ts', c')) :
    ∃ before t after, ts = before ++ t :: after ∧ Backoff.isUnstarted t.stage = true ∧
      ts' = before ++ { t with stage := .trying 1 policy.baseDelayMs } :: after ∧
      c' = c.submit t.spot.request := by
  induction ts generalizing ts' with
  | nil => cases h
  | cons t ts ih =>
    simp only [startNext] at h
    split at h
    · rename_i hu
      obtain ⟨rfl, rfl⟩ := Prod.mk.inj (Option.some.inj h)
      exact ⟨[], t, ts, rfl, hu, rfl, rfl⟩
    · obtain ⟨⟨ts₁, c₁⟩, hr, he⟩ := Option.map_eq_some_iff.mp h
      obtain ⟨rfl, rfl⟩ := Prod.mk.inj he
      obtain ⟨before, t', after, rfl, hu, rfl, rfl⟩ := ih hr
      exact ⟨t :: before, t', after, rfl, hu, rfl, rfl⟩

theorem resumed {p : Party} {st st' : Stage} {c c' : Client}
    (h : resume p st c = some (st', c')) : Resumed p c st st' c' := by
  cases st with
  | expiring =>
    simp only [resume, expire] at h
    have ht := Resumed.expiring (p := p) (c := c)
    split at h
    · cases h
    · split at h
      all_goals
        rename_i c₁ hs
        obtain ⟨rfl, rfl⟩ := Prod.mk.inj (Option.some.inj h)
        rw [hs] at ht
        exact ht
  | expired =>
    obtain ⟨rfl, rfl⟩ := Prod.mk.inj ((Prod.mk.eta (p := recover c)).trans (Option.some.inj h))
    exact .expired
  | resubmitting ts =>
    simp only [resume] at h
    split at h
    · rename_i ts₁ c₁ hn
      obtain ⟨rfl, rfl⟩ := Prod.mk.inj (Option.some.inj h)
      obtain ⟨before, t, after, rfl, hu, rfl, rfl⟩ := startNext_eq_some hn
      exact .started before after t hu
    · obtain ⟨rs, hrs, he⟩ := Option.map_eq_some_iff.mp h
      obtain ⟨rfl, rfl⟩ := Prod.mk.inj he
      exact .gathered ts rs hrs
  | dropping rs rest =>
    cases rest with
    | nil =>
      cases rs with
      | nil =>
        obtain ⟨rfl, rfl⟩ := Prod.mk.inj (Option.some.inj h)
        exact .restored
      | cons x rs =>
        obtain ⟨s, result⟩ := x
        cases result with
        | ok u =>
          obtain ⟨rfl, rfl⟩ := Prod.mk.inj (Option.some.inj h)
          exact .kept s rs
        | error f =>
          obtain ⟨rfl, rfl⟩ := Prod.mk.inj (Option.some.inj h)
          exact .dropped s f rs
    | cons e es =>
      simp only [resume] at h
      have ht := Resumed.telling (p := p) (c := c) rs e es
      split at h
      · cases h
      · split at h
        all_goals
          rename_i c₁ hs
          obtain ⟨rfl, rfl⟩ := Prod.mk.inj (Option.some.inj h)
          rw [hs] at ht
          exact ht
  | reporting state =>
    simp only [resume, report] at h
    have ht := Resumed.reporting (p := p) (c := c) state
    split at h
    · cases h
    · split at h
      all_goals
        rename_i c₁ hs
        obtain ⟨rfl, rfl⟩ := Prod.mk.inj (Option.some.inj h)
        rw [hs] at ht
        exact ht
  | done => cases h

theorem recover_dropAll {c : Client} (hp : c.settings.recovery = .dropAll) :
    recover c = (.dropping [] (c.registry.snapshot none),
      ((c.count (.recoveries .dropAll) 1).note (.recovering .dropAll)).drain.2) := by
  simp only [recover, Client.count, Client.note, hp]
  rfl

theorem recover_resubmitAll {c : Client} (hp : c.settings.recovery = .resubmitAll) :
    recover c = (.resubmitting ((spots (c.registry.snapshot none)).map (Task.mk · .unstarted)),
      (c.count (.recoveries .resubmitAll) 1).note (.recovering .resubmitAll)) := by
  simp only [recover, Client.count, Client.note, hp]

theorem update_eq_some {slot : Nat} {f : Task → Client → Option (Backoff.Stage × Client)}
    {st st' : Stage} {c c' : Client} (h : update slot f st c = some (st', c')) :
    ∃ ts t b, st = .resubmitting ts ∧ ts[slot]? = some t ∧ f t c = some (b, c') ∧
      st' = .resubmitting (ts.set slot { t with stage := b }) := by
  cases st with
  | resubmitting ts =>
    simp only [update, Option.bind_eq_bind, Option.bind_eq_some_iff, Option.some.injEq,
      Prod.mk.injEq] at h
    obtain ⟨t, ht, ⟨b, c₁⟩, hb, rfl, rfl⟩ := h
    exact ⟨ts, t, b, rfl, ht, hb, rfl⟩
  | expiring | expired | dropping | reporting | done => cases h

theorem remarked_answer {slot : Nat} {x : Answer} {st st' : Stage} {c c' : Client}
    (h : answer slot x st c = some (st', c')) : c.Remarked c' := by
  obtain ⟨_, _, _, _, _, hb, _⟩ := update_eq_some h
  exact Backoff.remarked_answer hb

theorem remarked_timeOut {slot : Nat} {st st' : Stage} {c c' : Client}
    (h : timeOut slot st c = some (st', c')) : c.Remarked c' := by
  obtain ⟨_, _, _, _, _, hb, _⟩ := update_eq_some h
  exact Backoff.remarked_timeOut hb

theorem submitted_retry {slot : Nat} {st st' : Stage} {c c' : Client}
    (h : retry slot st c = some (st', c')) : ∃ q, c' = c.submit q := by
  obtain ⟨_, t, _, _, _, hb, _⟩ := update_eq_some h
  exact ⟨t.spot.request, Backoff.submitted_retry hb⟩

end Session

namespace Operation

/-- How an operation begins. A closed client begins none, and a read or a background removal is begun
only on a valid path. -/
inductive Started (c : Client) : Order → Operation × Client → Prop
  | unread (a : Arming) (f : Fault)
    (refused : c.closed = true ∧ f = .closed ∨ c.closed = false ∧ Path.validate a.path = .error f) :
    Started c (.arm a) (.arming a (.done (.error f)), c)
  | asked (a : Arming) (opened : c.closed = false) (valid : Path.validate a.path = .ok ()) :
    Started c (.arm a) (.arming a .asked, c.submit (.register a.path a.read))
  | unremoved (r : RemovalRequest) (shut : c.closed = true) :
    Started c (.remove r) (.removal r (.done (.error .closed)), c)
  | removing (r : RemovalRequest) (opened : c.closed = false) :
    Started c (.remove r) (.removal r (Removal.start r c).1, (Removal.start r c).2)
  | unenrolled (b : BackgroundRemoval) (f : Fault)
    (refused : c.closed = true ∧ f = .closed ∨
      c.closed = false ∧ Path.validate b.request.path = .error f) :
    Started c (.enrol b) (.enrolment b (.done (.error f)), c)
  | offering (b : BackgroundRemoval) (opened : c.closed = false)
    (valid : Path.validate b.request.path = .ok ()) :
    Started c (.enrol b) (.enrolment b .offering, c)
  | ignored (e : WatchedEvent) (shut : c.closed = true) :
    Started c (.notify e) (.notification .done, c)
  | announced (e : WatchedEvent) (opened : c.closed = false) (nowhere : e.path = none) :
    Started c (.notify e) (.notification (.telling [.state e]), c)
  | fired (e : WatchedEvent) (path : String) (opened : c.closed = false)
    (place : e.path = some path) :
    Started c (.notify e)
      (.notification (.telling
        ((c.fire path e).1.map fun x => .watched x.subscriber x.kind e)), (c.fire path e).2)
  | unhandled (e : SessionEvent) (shut : c.closed = true) :
    Started c (.session e) (.session .done, c)
  | handling (e : SessionEvent) (opened : c.closed = false) :
    Started c (.session e) (.session (Session.start e c).1, (Session.start e c).2)

theorem started (o : Order) (c : Client) : Started c o (start o c) := by
  cases hc : c.closed with
  | true =>
    cases o with
    | arm a => simpa [start, Arming.start, hc, Prod.map] using Started.unread a .closed (.inl ⟨hc, rfl⟩)
    | remove r => simpa [start, Removal.startOpen, hc, Prod.map] using Started.unremoved r hc
    | enrol b =>
      simpa [start, Enrolment.start, hc, Prod.map] using Started.unenrolled b .closed (.inl ⟨hc, rfl⟩)
    | notify e => simpa [start, Notification.start, hc, Prod.map] using Started.ignored e hc
    | session e => simpa [start, Session.startOpen, hc, Prod.map] using Started.unhandled e hc
  | false =>
    cases o with
    | arm a =>
      cases hv : Path.validate a.path with
      | error f =>
        simpa [start, Arming.start, hc, hv, Prod.map] using Started.unread a f (.inr ⟨hc, hv⟩)
      | ok u => simpa [start, Arming.start, hc, hv, Prod.map] using Started.asked a hc hv
    | remove r => simpa [start, Removal.startOpen, hc, Prod.map] using Started.removing r hc
    | enrol b =>
      cases hv : Path.validate b.request.path with
      | error f =>
        simpa [start, Enrolment.start, hc, hv, Prod.map] using
          Started.unenrolled b f (.inr ⟨hc, hv⟩)
      | ok u => simpa [start, Enrolment.start, hc, hv, Prod.map] using Started.offering b hc hv
    | notify e =>
      cases hp : e.path with
      | none => simpa [start, Notification.start, hc, hp, Prod.map] using Started.announced e hc hp
      | some path =>
        simpa [start, Notification.start, hc, hp, Prod.map] using Started.fired e path hc hp
    | session e => simpa [start, Session.startOpen, hc, Prod.map] using Started.handling e hc

theorem undisturbed_start (o : Order) (c : Client) : c.Undisturbed (start o c).2 := by
  have h := started o c
  generalize start o c = x at h ⊢
  cases h with
  | unread | unremoved | unenrolled | offering | ignored | announced | unhandled => exact .refl c
  | asked a => exact ⟨rfl, rfl, rfl, rfl, rfl⟩
  | removing r => exact Removal.undisturbed_start r c
  | fired e path => exact .fire c path e
  | handling e => exact Session.undisturbed_start e c

theorem start_remove {c : Client} (hc : c.closed = false) (r : RemovalRequest) :
    start (.remove r) c = (.removal r (Removal.start r c).1, (Removal.start r c).2) := by
  simp [start, Removal.startOpen, hc, Prod.map]

/-- Which operations a move can move, and what it makes of them. -/
inductive Moves (p : Party) (c : Client) : Operation → Move → Operation → Client → Prop
  | failed (a : Arming) (f : Fault) :
    Moves p c (.arming a .asked) (.answer 0 (.error f)) (.arming a (.done (.error f))) c
  | armed (a : Arming) (x : Response) :
    Moves p c (.arming a .asked) (.answer 0 (.ok x)) (.arming a (.done (.ok x))) (c.arm a.entry)
  | removing (r : RemovalRequest) (st st' : Removal.Stage) (c' : Client)
    (resume : Removal.resume r p st c = some (st', c')) :
    Moves p c (.removal r st) .resume (.removal r st') c'
  | settling (r : RemovalRequest) (slot : Nat) (x : Answer) (st st' : Removal.Stage) (c' : Client)
    (answer : Removal.answer r slot x st c = some (st', c')) :
    Moves p c (.removal r st) (.answer slot x) (.removal r st') c'
  | refused (b : BackgroundRemoval) :
    Moves p c (.enrolment b .offering) .resume (.enrolment b (.done (.error .closed))) c
  | enrolled (b : BackgroundRemoval) (q : Queue BackgroundRemoval)
    (offer : c.removals.offer p b = .accepted q) :
    Moves p c (.enrolment b .offering) .resume (.enrolment b (.done (.ok ())))
      { c with removals := q }
  | lining (b : BackgroundRemoval) (q : Queue BackgroundRemoval)
    (offer : c.removals.offer p b = .mustWait q) :
    Moves p c (.enrolment b .offering) .resume (.enrolment b .offering) { c with removals := q }
  | notified : Moves p c (.notification (.telling [])) .resume (.notification .done) c
  | notifying (d : Delivery) (ds : List Delivery) :
    Moves p c (.notification (.telling (d :: ds))) .resume
      (.notification (.telling (if (c.send p d).1 then ds else d :: ds))) (c.send p d).2
  | handling (st st' : Session.Stage) (c' : Client)
    (resume : Session.resume p st c = some (st', c')) :
    Moves p c (.session st) .resume (.session st') c'
  | answered (slot : Nat) (x : Answer) (st st' : Session.Stage) (c' : Client)
    (answer : Session.answer slot x st c = some (st', c')) :
    Moves p c (.session st) (.answer slot x) (.session st') c'
  | timedOut (slot : Nat) (st st' : Session.Stage) (c' : Client)
    (timeOut : Session.timeOut slot st c = some (st', c')) :
    Moves p c (.session st) (.timeOut slot) (.session st') c'
  | retried (slot : Nat) (st st' : Session.Stage) (c' : Client)
    (retry : Session.retry slot st c = some (st', c')) :
    Moves p c (.session st) (.retry slot) (.session st') c'

variable {p : Party} {c c' : Client} {o o' : Operation} {m : Move}

/-- A move of a part is a move of the whole. -/
theorem of_part {α : Type} {f : α → Operation} {x : Option (α × Client)}
    (h : x.map (·.map f id) = some (o', c')) : ∃ st, o' = f st ∧ x = some (st, c') := by
  obtain ⟨⟨st, c₁⟩, hx, he⟩ := Option.map_eq_some_iff.mp h
  obtain ⟨rfl, rfl⟩ := Prod.mk.inj he
  exact ⟨st, rfl, hx⟩

theorem moves (h : o.move m p c = some (o', c')) : Moves p c o m o' c' := by
  cases o with
  | arming a st =>
    cases m with
    | answer slot x =>
      simp only [move, Operation.answer] at h
      split at h
      · rename_i h0
        subst h0
        obtain ⟨st', rfl, hr⟩ := of_part h
        cases st with
        | asked =>
          cases x with
          | error f =>
            obtain ⟨rfl, rfl⟩ := Prod.mk.inj (Option.some.inj hr)
            exact .failed a f
          | ok y =>
            obtain ⟨rfl, rfl⟩ := Prod.mk.inj (Option.some.inj hr)
            exact .armed a y
        | done result => cases hr
      · cases h
    | resume | timeOut | retry => cases h
  | removal r st =>
    cases m with
    | resume =>
      obtain ⟨st', rfl, hr⟩ := of_part h
      exact .removing r st st' c' hr
    | answer slot x =>
      obtain ⟨st', rfl, hr⟩ := of_part h
      exact .settling r slot x st st' c' hr
    | timeOut | retry => cases h
  | enrolment b st =>
    cases m with
    | resume =>
      obtain ⟨st', rfl, hr⟩ := of_part h
      cases st with
      | offering =>
        simp only [Enrolment.resume] at hr
        split at hr
        · cases hr
        · split at hr
          · obtain ⟨rfl, rfl⟩ := Prod.mk.inj (Option.some.inj hr)
            exact .refused b
          · rename_i q hq
            obtain ⟨rfl, rfl⟩ := Prod.mk.inj (Option.some.inj hr)
            exact .enrolled b q hq
          · rename_i q hq
            obtain ⟨rfl, rfl⟩ := Prod.mk.inj (Option.some.inj hr)
            exact .lining b q hq
      | done result => cases hr
    | answer | timeOut | retry => cases h
  | notification st =>
    cases m with
    | resume =>
      obtain ⟨st', rfl, hr⟩ := of_part h
      rcases Notification.resumed hr with ⟨rfl, rfl, rfl⟩ | ⟨d, ds, rfl, rfl, rfl⟩
      · exact .notified
      · exact .notifying d ds
    | answer | timeOut | retry => cases h
  | session st =>
    cases m with
    | resume =>
      obtain ⟨st', rfl, hr⟩ := of_part h
      exact .handling st st' c' hr
    | answer slot x =>
      obtain ⟨st', rfl, hr⟩ := of_part h
      exact .answered slot x st st' c' hr
    | timeOut slot =>
      obtain ⟨st', rfl, hr⟩ := of_part h
      exact .timedOut slot st st' c' hr
    | retry slot =>
      obtain ⟨st', rfl, hr⟩ := of_part h
      exact .retried slot st st' c' hr

theorem ne_session_of_move (hm : o.move m p c = some (o', c')) (hns : ∀ st, o ≠ .session st)
    (st : Session.Stage) : o' ≠ .session st := by
  cases moves hm with
  | failed | armed | removing | settling => simp
  | refused | enrolled | lining | notified | notifying => simp
  | handling st' => exact absurd rfl (hns st')
  | answered slot x st' => exact absurd rfl (hns st')
  | timedOut slot st' => exact absurd rfl (hns st')
  | retried slot st' => exact absurd rfl (hns st')

theorem start_ne_session {o : Order} (h : ∀ e, o ≠ .session e) (c : Client) (st : Session.Stage) :
    (start o c).1 ≠ .session st := by
  cases o with
  | session e => exact absurd rfl (h e)
  | arm | remove | enrol | notify => exact fun he => by cases he

end Operation

end NodeWatch
