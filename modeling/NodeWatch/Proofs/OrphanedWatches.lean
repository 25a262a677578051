import NodeWatch.Proofs.ScriptedCrossing

/-! Watches that the server keeps while the client lists nothing under them. A removal leaves a kind
to the registry when its plan finds another subscriber of it; by the time it settles that other may
be gone, and if nobody else asked the server to drop the watch it stays behind. -/

namespace NodeWatch

open Session (Spot)

/-- A removal that is not confined to the registry. -/
def Order.isRemote : Order → Bool
  | .remove r => !r.registryOnly
  | .enrol b => !b.request.registryOnly
  | .arm _ | .notify _ | .session _ => false

namespace Client

/-- How often the server was asked to drop this watch. -/
def requests (c : Client) (κ : Spot) : Nat :=
  c.journal.count (.asked (.remove κ.path κ.kind))

theorem requests_of_append {c c' : Client} {os : List Occurrence}
    (hj : c'.journal = os ++ c.journal) (ho : ∀ q, .asked q ∉ os) (κ : Spot) : c'.requests κ = c.requests κ := by
  rw [requests, hj, List.count_append, List.count_eq_zero_of_not_mem (ho _), Nat.zero_add, requests]

theorem Unasked.requests {c c' : Client} (h : c.Unasked c') (κ : Spot) :
    c'.requests κ = c.requests κ := by
  obtain ⟨os, hj, ho⟩ := h.journal
  exact requests_of_append hj ho κ

theorem requests_submit (c : Client) (path : String) (k : Kind) (κ : Spot) :
    (c.submit (.remove path k)).requests κ = c.requests κ + if κ = ⟨path, k⟩ then 1 else 0 := by
  by_cases h : κ = ⟨path, k⟩
  · rw [if_pos h, h]
    exact List.count_cons_self
  · rw [if_neg h]
    refine List.count_cons_of_ne fun he => h ?_
    obtain ⟨rfl, rfl⟩ := Request.remove.inj (Occurrence.asked.inj he)
    rfl

/-- The client gained no entry and forgot no request. -/
structure Wanes (c c' : Client) : Prop where
  registry : ∀ e ∈ c'.registry, e ∈ c.registry
  requests : ∀ κ, c.requests κ ≤ c'.requests κ

theorem Wanes.of_unasked {c c' : Client} (h : c.Unasked c')
    (hr : ∀ e ∈ c'.registry, e ∈ c.registry) : c.Wanes c' :=
  ⟨hr, fun κ => (h.requests κ).ge⟩

theorem Wanes.spots {c c' : Client} (h : c.Wanes c') : c'.registry.spots ⊆ c.registry.spots := by
  rintro κ ⟨e, he, rfl⟩
  exact ⟨e, h.registry e he, rfl⟩

theorem unasked_send (c : Client) (p : Party) (e : Entry) (s : LinkState) :
    ∃ os, (c.send p (.removed e s)).2.journal = os ++ c.journal ∧ ∀ q, .asked q ∉ os := by
  simp only [send]
  split
  · exact ⟨[.dropped (.removed e s), .remarked .deliveryDropped], rfl, by simp⟩
  · exact ⟨[.queued (.removed e s)], rfl, by simp⟩
  · exact ⟨[], rfl, by simp⟩

end Client

namespace Removal

/-- Where a removal stands that asks the server before it takes the last entry of a kind: what it
asked for is counted from `n` on, nobody but its target holds the kinds of its requests, and what
the server dropped is not held any more. -/
def Tends (n : Spot → Nat) (r : RemovalRequest) (c : Client) : Stage → Prop
  | .asking p answers =>
    (∀ (i : Nat) (k : Kind), i < answers.length → p.server[i]? = some k →
      n ⟨r.path, k⟩ < c.requests ⟨r.path, k⟩) ∧
      ∀ k ∈ p.server, ∀ s ∈ c.registry.holders r.path k, r.target.selects s = true
  | .confirming _ o => ∀ k ∈ o.cleared, ⟨r.path, k⟩ ∉ c.registry.spots
  | .checking ks _ => ∀ k ∈ ks, ⟨r.path, k⟩ ∉ c.registry.spots
  | .rearming .. => False
  | .done _ => True

variable {n : Spot → Nat} {r : RemovalRequest} {c c' : Client}

theorem Tends.wanes {st : Stage} (h : Tends n r c st) (hw : c.Wanes c') : Tends n r c' st := by
  cases st with
  | asking p answers =>
    refine ⟨fun i k hi hk => (h.1 i k hi hk).trans_le (hw.requests _), fun k hk s hs => ?_⟩
    exact h.2 k hk s (hw.registry ⟨r.path, k, s⟩ hs)
  | confirming rest o => exact fun k hk hm => h k hk (hw.spots hm)
  | checking ks o => exact fun k hk hm => h k hk (hw.spots hm)
  | rearming k ks o => exact h
  | done result => trivial

theorem selects_of_plan {reg : Registry} {k : Kind} (hk : k ∈ (plan r reg).server) {s : Subscriber}
    (hs : s ∈ reg.holders r.path k) : r.target.selects s = true := by
  cases ht : r.target with
  | all => rfl
  | one s' =>
    rw [((mem_plan_one ht).1.mp hk).2, List.mem_singleton] at hs
    simp [Target.selects, hs]

theorem tends_start (hr : r.registryOnly = false) (c : Client) :
    Tends n r (start r c).2 (start r c).1 ∧ (start r c).2.registry = c.registry ∧
      c.Unasked (start r c).2 := by
  have hstart := started r c
  generalize start r c = x at hstart ⊢
  cases hstart with
  | invalid => exact ⟨trivial, rfl, .refl c⟩
  | unmatched _ alone | taken _ alone =>
    rw [hr] at alone
    cases alone
  | idle =>
    exact ⟨trivial, rfl, rfl, rfl, rfl, [.settled r.mode (Client.outcomeOf (nothing r))], rfl, by simp⟩
  | asking =>
    refine ⟨⟨fun i k hi => ?_, fun k hk s hs => selects_of_plan hk hs⟩, rfl, .refl c⟩
    cases hi

theorem wanes_advance (p : Plan) (answers : List (Option Answer)) (c : Client) :
    c.Wanes (advance r p answers c).2 :=
  .of_unasked (unasked_advance p answers) fun _ he => (thins_advance p answers c).entries he

theorem tends_advance {p : Plan} {answers : List (Option Answer)}
    (h : Tends n r c (.asking p answers)) :
    Tends n r (advance r p answers c).2 (advance r p answers c).1 := by
  rcases advance_cases r p answers c with ⟨_, ha⟩ | ⟨as, rfl, _, ha⟩
  · rw [ha]
    exact h
  · have hd := drawn_reconcile r p as c
    rw [ha]
    intro k hk hm
    rw [hd.cleared] at hk
    obtain ⟨x, hx⟩ := mem_cleared.mp hk
    obtain ⟨e, he, hs⟩ := hm
    obtain ⟨hp, rfl⟩ := Spot.mk.inj hs
    obtain ⟨hreg, hstays⟩ := (hd.registry e).mp he
    refine hstays ⟨hp, ?_, mem_gone.mpr (.inl ⟨_, hx, rfl⟩)⟩
    obtain ⟨i, hi, _⟩ := hx
    exact h.2 _ (List.mem_of_getElem? hi) _ (hp ▸ hreg)

/-- An entry goes because its kind was asked about, or was to be settled here. -/
theorem spots_advance {p : Plan} {answers : List (Option Answer)} {κ : Spot}
    (hκ : κ ∈ c.registry.spots) (hgone : κ ∉ (advance r p answers c).2.registry.spots) :
    κ.path = r.path ∧ (∃ es o, (advance r p answers c).1 = .confirming es o) ∧
      (κ.kind ∈ p.here ∨ ∃ i, i < answers.length ∧ p.server[i]? = some κ.kind) := by
  rcases advance_cases r p answers c with ⟨_, ha⟩ | ⟨as, rfl, _, ha⟩
  · rw [ha] at hgone
    exact absurd hκ hgone
  · obtain ⟨e, he, rfl⟩ := hκ
    have hd := (drawn_reconcile r p as c).registry e
    rw [ha] at hgone ⊢
    have hwent : e.path = r.path ∧ r.target.selects e.subscriber = true ∧ e.kind ∈ gone r p as := by
      by_contra hn
      exact hgone ⟨e, hd.mpr ⟨he, hn⟩, rfl⟩
    refine ⟨hwent.1, ⟨_, _, rfl⟩, (mem_gone.mp hwent.2.2).symm.imp_right ?_⟩
    rintro ⟨a, ⟨i, hk, hget⟩, _⟩
    exact ⟨i, (List.getElem?_eq_some_iff.mp hget).1, hk⟩

end Removal

namespace Operation

variable {n : Spot → Nat} {o o' : Operation} {c c' : Client}

def Tends (n : Spot → Nat) (c : Client) : Operation → Prop
  | .removal r st => Removal.Tends n r c st
  | .enrolment b st => st = .offering → b.request.registryOnly = false
  | .arming a st => (arming a st).Finished
  | .notification st => (notification st).Finished
  | .session st => (session st).Finished

theorem tends_of_finished (h : o.Finished) : o.Tends n c := by
  cases o with
  | removal r st => cases st <;> trivial
  | enrolment b st =>
    rintro rfl
    cases h
  | arming | notification | session => exact h

theorem Tends.wanes (h : o.Tends n c) (hw : c.Wanes c') : o.Tends n c' := by
  cases o with
  | removal r st => exact Removal.Tends.wanes h hw
  | arming | enrolment | notification | session => exact h

theorem tends_start {o : Order} (ho : o.isRemote = true) (c : Client) :
    (start o c).1.Tends n (start o c).2 ∧ (start o c).2.registry = c.registry ∧
      c.Unasked (start o c).2 := by
  have hstart := started o c
  generalize start o c = x at hstart ⊢
  cases hstart with
  | unremoved => exact ⟨trivial, rfl, .refl c⟩
  | removing r => exact Removal.tends_start (by simpa [Order.isRemote] using ho) c
  | unenrolled b | offering b =>
    exact ⟨fun _ => by simpa [Order.isRemote] using ho, rfl, .refl c⟩
  | unread | asked | ignored | announced | fired | unhandled | handling => cases ho

/-- The operation settles this watch without the server, as it had planned. -/
def Forgoes (o o' : Operation) (κ : Spot) : Prop :=
  ∃ r p answers es s, o = .removal r (.asking p answers) ∧ o' = .removal r (.confirming es s) ∧
    κ.path = r.path ∧ κ.kind ∈ p.here

/-- A move keeps to the rules of removals: a request that is counted waits for its answer, and an
entry that goes was asked about, or was to be settled without the server. -/
structure Moved (n : Spot → Nat) (o : Operation) (c : Client) (o' : Operation) (c' : Client) :
    Prop where
  tends : o'.Tends n c'
  wanes : c.Wanes c'
  asks : ∀ κ, c'.requests κ = c.requests κ ∨
    ∃ slot, o'.Awaits slot (.remove κ.path κ.kind) ∧ ∀ q, ¬o.Awaits slot q
  leaves : ∀ κ ∈ c.registry.spots, κ ∉ c'.registry.spots →
    n κ < c'.requests κ ∨ o.Forgoes o' κ

theorem moved_of_same (o' : Operation) (ht : o'.Tends n c) (hr : c'.registry = c.registry)
    (hq : ∀ κ, c'.requests κ = c.requests κ) : Moved n o c o' c' := by
  have hw : c.Wanes c' := ⟨fun _ he => hr ▸ he, fun κ => (hq κ).ge⟩
  exact ⟨ht.wanes hw, hw, fun κ => .inl (hq κ), fun κ hκ hgone => absurd (hr ▸ hκ) hgone⟩

end Operation

namespace Removal

variable {n : Spot → Nat} {r : RemovalRequest} {c c' : Client}

theorem moved_advance {p : Plan} {answers answers' : List (Option Answer)}
    (h : Tends n r c (.asking p answers)) :
    Operation.Moved n (.removal r (.asking p answers')) c
      (.removal r (advance r p answers c).1) (advance r p answers c).2 := by
  have hw := wanes_advance (r := r) p answers c
  have hreq := (unasked_advance (r := r) (c := c) p answers).requests
  refine ⟨tends_advance h, hw, fun κ => .inl (hreq κ), fun κ hκ hgone => ?_⟩
  obtain ⟨hp, ⟨es, o, he⟩, hhere | ⟨i, hi, hk⟩⟩ := spots_advance hκ hgone
  · exact .inr ⟨r, p, answers', es, o, rfl, by rw [he], hp, hhere⟩
  · left
    have hcounted := h.1 i κ.kind hi hk
    rwa [← hp, ← hreq] at hcounted

theorem moved_resume {party : Party} {st st' : Stage} (h : Tends n r c st)
    (hn : ∀ κ, n κ ≤ c.requests κ) (hm : resume r party st c = some (st', c')) :
    Operation.Moved n (.removal r st) c (.removal r st') c' := by
  cases resumed hm with
  | asked p answers k next =>
    have hw : c.Wanes (c.submit (.remove r.path k)) :=
      ⟨fun _ he => he, fun κ => by rw [Client.requests_submit]; omega⟩
    refine ⟨⟨fun i k' hi hk => ?_, (h.wanes hw).2⟩, hw, fun κ => ?_,
      fun κ hκ hgone => absurd hκ hgone⟩
    · rw [List.length_append, List.length_singleton] at hi
      by_cases hlt : i < answers.length
      · exact (h.wanes hw).1 i k' hlt hk
      · obtain rfl : i = answers.length := by omega
        obtain rfl := Option.some.inj (hk.symm.trans next)
        rw [Client.requests_submit, if_pos rfl]
        have hle := hn ⟨r.path, k'⟩
        omega
    · by_cases hκ : κ = ⟨r.path, k⟩
      · subst hκ
        refine .inr ⟨answers.length, .removing r p _ _ k (by simp) next, fun q hq => ?_⟩
        cases hq with
        | removing _ _ _ _ _ unanswered => simp at unanswered
      · rw [Client.requests_submit, if_neg hκ]
        exact .inl rfl
  | advanced p answers empty => exact moved_advance h
  | told o => exact Operation.moved_of_same (.removal r (.checking o.cleared o)) h rfl fun _ => rfl
  | telling e es o =>
    obtain ⟨os, hj, ho⟩ := Client.unasked_send c party e .syncConnected
    exact Operation.moved_of_same (.removal r (.confirming _ o)) h
      (Client.registry_send c party _) (Client.requests_of_append hj ho)
  | finished o result =>
    have hu : c.Unasked (c.settle r.mode result) :=
      ⟨rfl, rfl, rfl, [.settled r.mode (Client.outcomeOf result)], rfl, by simp⟩
    exact Operation.moved_of_same (.removal r (.done result)) trivial rfl hu.requests
  | passed k ks o unheld =>
    exact Operation.moved_of_same (.removal r (.checking ks o))
      (fun k' hk => h k' (.tail _ hk)) rfl fun _ => rfl
  | rearming k ks o held => exact absurd held (h k (.head _))

theorem moved_answer {slot : Nat} {x : Answer} {st st' : Stage} (h : Tends n r c st)
    (hm : answer r slot x st c = some (st', c')) :
    Operation.Moved n (.removal r st) c (.removal r st') c' := by
  cases replied hm with
  | advanced p answers awaited =>
    refine moved_advance ⟨fun i k hi hk => ?_, h.2⟩
    rw [List.length_set] at hi
    exact h.1 i k hi hk
  | rearmed k ks o => exact h.elim

end Removal

namespace Operation

variable {n : Spot → Nat} {o o' : Operation} {c c' : Client}

theorem moved_of_move {m : Move} {p : Party} (h : o.Tends n c) (hn : ∀ κ, n κ ≤ c.requests κ)
    (hm : o.move m p c = some (o', c')) : Moved n o c o' c' := by
  by_cases hf : o.Finished
  · rw [move_of_finished hf] at hm
    cases hm
  · cases moves hm with
    | removing r st st' c' resume => exact Removal.moved_resume h hn resume
    | settling r slot x st st' c' answer => exact Removal.moved_answer h answer
    | refused b => exact moved_of_same _ (fun hst => by cases hst) rfl fun _ => rfl
    | enrolled b q => exact moved_of_same _ (fun hst => by cases hst) rfl fun _ => rfl
    | lining b q => exact moved_of_same _ h rfl fun _ => rfl
    | failed | armed | notified | notifying => exact absurd h hf
    | handling | answered | timedOut | retried => exact absurd h hf

end Operation

namespace Crossing

variable {w w' : Crossing} {κ : Spot} {n : Spot → Nat} {before forsaken : Set Spot}

/-- What the server watches though the client lists nothing under it. -/
def orphaned (w : Crossing) : Set Spot :=
  { κ | κ ∈ w.watched ∧ κ ∉ w.engine.client.registry.spots }

/-- A request to drop the watch is on its way to the server. -/
def Demanded (w : Crossing) (κ : Spot) : Prop :=
  ∃ p o slot, (p, o) ∈ w.engine.tasks ∧ o.Awaits slot (.remove κ.path κ.kind) ∧
    w.underway p slot = none

/-- A removal takes the last entry of a watch that its plan left to other subscribers. -/
def Forsakes (w w' : Crossing) (κ : Spot) : Prop :=
  κ ∈ w.engine.client.registry.spots ∧ κ ∉ w'.engine.client.registry.spots ∧
    ∃ p o o', (p, o) ∈ w.engine.tasks ∧ (p, o') ∈ w'.engine.tasks ∧ o.Forgoes o' κ

/-- A step, with the watches that were forsaken so far. -/
def Removes (x y : Crossing × Set Spot) : Prop :=
  Step (fun o => o.isRemote = true) x.1 y.1 ∧ y.2 = x.2 ∪ { κ | Forsakes x.1 y.1 κ }

/-- With only removals under way, the requests counted from `n` on: what was watched before is
watched still or was asked to be dropped, and its entries are there still, unless it was asked to be
dropped or forsaken. -/
structure Tended (n : Spot → Nat) (before forsaken : Set Spot) (w : Crossing) : Prop where
  sound : w.Sound
  unnoticed : w.notices = 0
  tasks : ∀ x ∈ w.engine.tasks, x.2.Tends n w.engine.client
  handed : ∀ b ∈ w.engine.handed, b.request.registryOnly = false
  counted : ∀ κ, n κ ≤ w.engine.client.requests κ
  held : w.engine.client.registry.spots ⊆ before
  watched : w.watched ⊆ before
  kept : ∀ κ ∈ before, κ ∈ w.watched ∨ n κ < w.engine.client.requests κ
  demanded : ∀ κ ∈ w.watched, n κ < w.engine.client.requests κ → w.Demanded κ
  accounted : ∀ κ ∈ before, κ ∈ w.engine.client.registry.spots ∨ κ ∈ forsaken ∨
    n κ < w.engine.client.requests κ
  forsaken : ∀ κ ∈ forsaken, κ ∈ before ∧ κ ∉ w.engine.client.registry.spots

theorem Tended.onward (h : w.Tended n before forsaken) (sound : w'.Sound)
    (unnoticed : w'.notices = 0)
    (tasks : ∀ x ∈ w'.engine.tasks, x.2.Tends n w'.engine.client)
    (handed : ∀ b ∈ w'.engine.handed, b.request.registryOnly = false)
    (wanes : w.engine.client.Wanes w'.engine.client) (watched : w'.watched ⊆ w.watched)
    (kept : ∀ κ ∈ w.watched, κ ∈ w'.watched ∨ n κ < w'.engine.client.requests κ)
    (demanded : ∀ κ ∈ w'.watched, n κ < w'.engine.client.requests κ → w'.Demanded κ)
    (left : ∀ κ ∈ w.engine.client.registry.spots, κ ∉ w'.engine.client.registry.spots →
      n κ < w'.engine.client.requests κ ∨ Forsakes w w' κ) :
    w'.Tended n before (forsaken ∪ { κ | Forsakes w w' κ }) := by
  have hasked : ∀ κ, n κ < w.engine.client.requests κ → n κ < w'.engine.client.requests κ :=
    fun κ hκ => hκ.trans_le (wanes.requests κ)
  refine ⟨sound, unnoticed, tasks, handed, fun κ => (h.counted κ).trans (wanes.requests κ),
    wanes.spots.trans h.held, watched.trans h.watched, fun κ hκ => ?_, demanded, fun κ hκ => ?_,
    fun κ hκ => ?_⟩
  · exact (h.kept κ hκ).elim (kept κ) fun ha => .inr (hasked κ ha)
  · rcases h.accounted κ hκ with hheld | hforsaken | ha
    · by_cases hheld' : κ ∈ w'.engine.client.registry.spots
      · exact .inl hheld'
      · rcases left κ hheld hheld' with ha | hforsakes
        · exact .inr (.inr ha)
        · exact .inr (.inl (.inr hforsakes))
    · exact .inr (.inl (.inl hforsaken))
    · exact .inr (.inr (hasked κ ha))
  · rcases hκ with hκ | hκ
    · obtain ⟨hbefore, hgone⟩ := h.forsaken κ hκ
      exact ⟨hbefore, fun hheld => hgone (wanes.spots hheld)⟩
    · exact ⟨h.held hκ.1, hκ.2.1⟩

theorem tended_of_begun {t : Engine} {p : Party} {o : Order} {taken : List BackgroundRemoval}
    (h : w.Tended n before forsaken) (sound : Sound { w with engine := t })
    (source : taken = [] ∧ o.isRemote = true ∨ ∃ b, taken = [b] ∧ o = .remove b.request)
    (tasks : t.tasks = (p, (Operation.start o w.engine.client).1) ::ₘ w.engine.tasks)
    (client : t.client = (Operation.start o w.engine.client).2)
    (handed : w.engine.handed = taken ++ t.handed) :
    Tended n before (forsaken ∪ { κ | Forsakes w { w with engine := t } κ })
      { w with engine := t } := by
  have hremote : o.isRemote = true := by
    rcases source with ⟨_, ho⟩ | ⟨b, rfl, rfl⟩
    · exact ho
    · have hb := h.handed b (handed ▸ List.mem_cons_self)
      simp [Order.isRemote, hb]
  obtain ⟨htends, hreg, hu⟩ := Operation.tends_start (n := n) hremote w.engine.client
  rw [← client] at htends hreg hu
  have hw : w.engine.client.Wanes t.client := .of_unasked hu fun e he => hreg ▸ he
  refine h.onward sound h.unnoticed (fun x hx => ?_) (fun b hb => h.handed b ?_) hw subset_rfl
    (fun κ hκ => .inl hκ) (fun κ hκ ha => ?_) fun κ hκ hgone => ?_
  · change x ∈ t.tasks at hx
    rw [tasks, Multiset.mem_cons] at hx
    rcases hx with rfl | hx
    · exact htends
    · exact (h.tasks x hx).wanes hw
  · rw [handed]
    exact List.mem_append_right _ hb
  · change n κ < t.client.requests κ at ha
    rw [hu.requests] at ha
    obtain ⟨p', o', slot, hm, hawaits, hnone⟩ := h.demanded κ hκ ha
    refine ⟨p', o', slot, ?_, hawaits, hnone⟩
    change _ ∈ t.tasks
    rw [tasks]
    exact Multiset.mem_cons_of_mem hm
  · change κ ∉ t.client.registry.spots at hgone
    rw [hreg] at hgone
    exact absurd hκ hgone

theorem tended_of_moved {t : Engine} {u : Underway} {p : Party} {m : Move} {o o' : Operation}
    {rest : Multiset (Party × Operation)} (h : w.Tended n before forsaken)
    (sound : Sound { w with engine := t, underway := u })
    (tasks : w.engine.tasks = (p, o) ::ₘ rest)
    (move : o.move m p w.engine.client = some (o', t.client)) (after : t.tasks = (p, o') ::ₘ rest)
    (handed : ∀ b ∈ t.handed, b.request.registryOnly = false)
    (waits : ∀ p' slot q, w.underway p' slot = none → u p' slot = none ∧
      (p' = p → o.Awaits slot q → o'.Awaits slot q)) :
    Tended n before
      (forsaken ∪ { κ | Forsakes w { w with engine := t, underway := u } κ })
      { w with engine := t, underway := u } := by
  have hmem : (p, o) ∈ w.engine.tasks := tasks ▸ Multiset.mem_cons_self _ _
  have hmem' : (p, o') ∈ t.tasks := after ▸ Multiset.mem_cons_self _ _
  have hmoved := Operation.moved_of_move (h.tasks _ hmem) h.counted move
  refine h.onward sound h.unnoticed (fun x hx => ?_) handed hmoved.wanes subset_rfl
    (fun κ hκ => .inl hκ) (fun κ hκ ha => ?_) fun κ hκ hgone => ?_
  · change x ∈ t.tasks at hx
    rw [after, Multiset.mem_cons] at hx
    rcases hx with rfl | hx
    · exact hmoved.tends
    · exact (h.tasks x (tasks ▸ Multiset.mem_cons_of_mem hx)).wanes hmoved.wanes
  · rcases hmoved.asks κ with hsame | ⟨slot, hawaits, hnew⟩
    · change n κ < t.client.requests κ at ha
      rw [hsame] at ha
      obtain ⟨p', o₁, slot, hm, hawaits, hnone⟩ := h.demanded κ hκ ha
      obtain ⟨hnone', hkeep⟩ := waits p' slot _ hnone
      by_cases hp : p' = p
      · subst hp
        obtain rfl := Engine.task_unique h.sound.orderly hm hmem
        exact ⟨p', o', slot, hmem', hkeep rfl hawaits, hnone'⟩
      · rw [tasks, Multiset.mem_cons] at hm
        have hrest := hm.resolve_left fun he => hp (Prod.mk.inj he).1
        exact ⟨p', o₁, slot, after ▸ Multiset.mem_cons_of_mem hrest, hawaits, hnone'⟩
    · refine ⟨p, o', slot, hmem', hawaits, ?_⟩
      -- nobody answers a request before it is made
      have hnone : w.underway p slot = none := by
        cases hx : w.underway p slot with
        | none => rfl
        | some x =>
          obtain ⟨o₁, q, hm, hq⟩ := h.sound.awaited p slot x hx
          obtain rfl := Engine.task_unique h.sound.orderly hm hmem
          exact absurd hq (hnew q)
      exact (waits p slot (.remove κ.path κ.kind) hnone).1
  · refine (hmoved.leaves κ hκ hgone).imp_right fun hforgoes => ?_
    exact ⟨hκ, hgone, p, o, o', hmem, hmem', hforgoes⟩

theorem tended_of_handled {p : Party} {o : Operation} {slot : Nat} {q : Request} {x : Answer}
    {S : Set Spot} (h : w.Tended n before forsaken)
    (sound : Sound { w with watched := S, underway := w.underway.put p slot (some x) })
    (task : (p, o) ∈ w.engine.tasks) (awaits : o.Awaits slot q)
    (serves : Serves w.watched q x S) (unfailing : ∀ f, x = .error f → f.isNoWatcher = true) :
    Tended n before
      (forsaken ∪
        { κ | Forsakes w { w with watched := S, underway := w.underway.put p slot (some x) } κ })
      { w with watched := S, underway := w.underway.put p slot (some x) } := by
  have htends := h.tasks _ task
  cases awaits with
  | arming a => cases htends
  | rearming r k ks st => exact htends.elim
  | removing r pl answers slot k unanswered kind =>
    have hlt : slot < answers.length := (List.getElem?_eq_some_iff.mp unanswered).1
    have hasked : n ⟨r.path, k⟩ < w.engine.client.requests ⟨r.path, k⟩ := htends.1 slot k hlt kind
    have hdrop : S ⊆ w.watched ∧ (∀ κ ∈ w.watched, κ ∈ S ∨ κ = ⟨r.path, k⟩) ∧
        (⟨r.path, k⟩ : Spot) ∉ S := by
      cases serves with
      | dropped path k y known =>
        refine ⟨Set.sdiff_subset, fun κ hκ => ?_, by simp⟩
        by_cases he : κ = ⟨r.path, k⟩
        · exact .inr he
        · exact .inl ⟨hκ, he⟩
      | unknown path k f absent fault => exact ⟨subset_rfl, fun κ hκ => .inl hκ, absent⟩
      | failed q f fault =>
        rw [unfailing f rfl] at fault
        cases fault
    obtain ⟨hsub, hkept, hgone⟩ := hdrop
    refine h.onward sound h.unnoticed h.tasks h.handed ⟨fun _ he => he, fun κ => le_rfl⟩ hsub
      (fun κ hκ => (hkept κ hκ).imp_right ?_) (fun κ hκ ha => ?_)
      fun κ hκ hn => absurd hκ hn
    · rintro rfl
      exact hasked
    obtain ⟨p', o', slot', hm, hawaits, hnone⟩ := h.demanded κ (hsub hκ) ha
    refine ⟨p', o', slot', hm, hawaits, ?_⟩
    change w.underway.put p slot (some x) p' slot' = none
    cases hput : w.underway.put p slot (some x) p' slot' with
    | none => rfl
    | some y =>
      exfalso
      rcases Underway.put_eq_some hput with ⟨rfl, rfl, _⟩ | ⟨_, hy⟩
      · -- the request handled is the one for this watch
        obtain rfl := Engine.task_unique h.sound.orderly hm task
        obtain ⟨path, k'⟩ := κ
        cases hawaits with
        | removing _ _ _ _ _ _ kind' =>
          obtain rfl := Option.some.inj (kind'.symm.trans kind)
          exact hgone hκ
      · rw [hnone] at hy
        cases hy

theorem tended_of_beside {t : Engine} (h : w.Tended n before forsaken)
    (sound : Sound { w with engine := t }) (keeps : w.engine.Keeps t)
    (registry : t.client.registry = w.engine.client.registry)
    (journal : ∃ os, t.client.journal = os ++ w.engine.client.journal ∧
      ∀ o ∈ os, o.isAside = true) (handed : t.handed = w.engine.handed) :
    Tended n before (forsaken ∪ { κ | Forsakes w { w with engine := t } κ })
      { w with engine := t } := by
  obtain ⟨os, hj, haside⟩ := journal
  have hreq : ∀ κ, t.client.requests κ = w.engine.client.requests κ :=
    Client.requests_of_append hj fun q hq => by cases haside _ hq
  have hw : w.engine.client.Wanes t.client := ⟨fun e he => registry ▸ he, fun κ => (hreq κ).ge⟩
  refine h.onward sound h.unnoticed (fun x hx => (h.tasks x (keeps.mem hx)).wanes hw)
    (fun b hb => h.handed b (handed ▸ hb)) hw subset_rfl (fun κ hκ => .inl hκ) (fun κ hκ ha => ?_)
    fun κ hκ hgone => ?_
  · change n κ < t.client.requests κ at ha
    rw [hreq] at ha
    obtain ⟨p, o, slot, hm, hawaits, hnone⟩ := h.demanded κ hκ ha
    exact ⟨p, o, slot, keeps.mem_of_unfinished hm hawaits.not_finished, hawaits, hnone⟩
  · change κ ∉ t.client.registry.spots at hgone
    rw [registry] at hgone
    exact absurd hκ hgone

theorem tended_step (h : w.Tended n before forsaken)
    (hstep : Step (fun o => o.isRemote = true) w w') :
    w'.Tended n before (forsaken ∪ { κ | Forsakes w w' κ }) := by
  have sound := hstep.sound h.sound
  cases hstep.passage h.sound with
  | begun t p o taken source direct opened fresh tasks client handed =>
    exact tended_of_begun h sound source tasks client handed
  | notified t p e rest notice =>
    rw [h.unnoticed] at notice
    exact absurd notice (Multiset.cons_ne_zero).symm
  | resumed t p o o' rest tasks move after handed =>
    refine tended_of_moved (m := .resume) h sound tasks move after ?_ fun p' slot q hnone =>
      ⟨hnone, fun _ ha => ha.resume move⟩
    have hmem : (p, o) ∈ w.engine.tasks := tasks ▸ Multiset.mem_cons_self _ _
    rcases handed with he | ⟨b, rfl, _, he⟩
    · exact he ▸ h.handed
    · rw [he]
      intro b' hb'
      rcases List.mem_append.mp hb' with hb' | hb'
      · exact h.handed b' hb'
      · obtain rfl := List.mem_singleton.mp hb'
        exact h.tasks _ hmem rfl
  | replied t p slot x o o' rest sent tasks move after handed =>
    refine tended_of_moved (m := .answer slot x) h sound tasks move after (handed ▸ h.handed)
      fun p' slot' q hnone => ⟨?_, ?_⟩
    · cases hput : w.underway.put p slot none p' slot' with
      | none => rfl
      | some y =>
        rcases Underway.put_eq_some hput with ⟨_, _, hy⟩ | ⟨_, hy⟩
        · cases hy
        · rw [hnone] at hy
          cases hy
    · rintro rfl ha
      refine ha.answer ?_ move
      rintro rfl
      rw [hnone] at sent
      cases sent
  | handled p o slot q x S task awaits unanswered serves unfailing =>
    exact tended_of_handled h sound task awaits serves unfailing
  | fired e admitted => cases admitted
  | beside t keeps registry journal handed =>
    exact tended_of_beside h sound keeps registry journal handed

theorem tended_run {x y : Crossing × Set Spot} (h : x.1.Tended n before x.2)
    (hrun : Relation.ReflTransGen Removes x y) : y.1.Tended n before y.2 := by
  induction hrun with
  | refl => exact h
  | tail _ hstep ih =>
    rw [hstep.2]
    exact tended_step ih hstep.1

theorem Settled.not_demanded (hs : w.Settled) : ¬w.Demanded κ := by
  rintro ⟨p, o, slot, hm, ha, _⟩
  exact ha.not_finished (hs.atRest.1 _ hm)

theorem Settled.tended (hs : w.Settled) (ho : w.engine.Orderly)
    (he : w.watched = w.engine.client.registry.spots) :
    w.Tended w.engine.client.requests w.watched ∅ := by
  refine ⟨hs.sound ho, hs.noticed, fun x hx => Operation.tends_of_finished (hs.atRest.1 x hx), ?_,
    fun κ => le_rfl, he.ge, subset_rfl, fun κ hκ => .inl hκ, fun κ _ ha => absurd ha (lt_irrefl _),
    fun κ hκ => .inl (he ▸ hκ), fun κ hκ => absurd hκ (Set.notMem_empty κ)⟩
  rw [hs.atRest.2]
  exact fun b hb => absurd hb List.not_mem_nil

/-- From a state in which client and server watch the same, any number of removals leave behind
exactly those watches that were forsaken and that nobody asked the server to drop. -/
theorem orphaned_iff_forsaken {settings : Settings} {feed : Option Nat}
    (hr : Engine.Reachable settings feed w.engine) (hs : w.Settled)
    (he : w.watched = w.engine.client.registry.spots)
    (h : Relation.ReflTransGen Removes (w, ∅) (w', forsaken)) (hs' : w'.Settled) :
    κ ∈ w'.orphaned ↔
      κ ∈ forsaken ∧ w'.engine.client.requests κ = w.engine.client.requests κ := by
  have hend : w'.Tended w.engine.client.requests w.watched forsaken :=
    tended_run (x := (w, ∅)) (hs.tended hr.orderly he) h
  constructor
  · rintro ⟨hwatched, hgone⟩
    have hunasked : ¬w.engine.client.requests κ < w'.engine.client.requests κ := fun ha =>
      hs'.not_demanded (hend.demanded κ hwatched ha)
    have hle := hend.counted κ
    refine ⟨?_, by omega⟩
    rcases hend.accounted κ (hend.watched hwatched) with hheld | hforsaken | ha
    · exact absurd hheld hgone
    · exact hforsaken
    · exact absurd ha hunasked
  · rintro ⟨hforsaken, hsame⟩
    obtain ⟨hbefore, hgone⟩ := hend.forsaken κ hforsaken
    refine ⟨(hend.kept κ hbefore).resolve_right ?_, hgone⟩
    omega

theorem exists_removes (h : Relation.ReflTransGen (Step fun o => o.isRemote = true) w w') :
    ∃ forsaken, Relation.ReflTransGen Removes (w, ∅) (w', forsaken) := by
  induction h with
  | refl => exact ⟨∅, .refl⟩
  | @tail v v' _ hstep ih =>
    obtain ⟨forsaken, hrun⟩ := ih
    exact ⟨forsaken ∪ { κ | Forsakes v v' κ }, hrun.tail ⟨hstep, rfl⟩⟩

/-- Two subscribers share a watch. The removal of one waits for an answer about another kind while
the other goes, and both leave the watch to each other. -/
theorem exists_orphan_run :
    ∃ (s : Engine) (v : ScriptedCrossing), Engine.Reachable {} none s ∧ s.AtRest ∧ v.crossing.Settled ∧
      Relation.ReflTransGen (Step fun o => o.isRemote = true) (ScriptedCrossing.opening s).crossing
        v.crossing ∧ ⟨"/a", .data⟩ ∈ v.crossing.orphaned := by
  have hrun : ∃ s, Engine.build {} none = .built s ∧ ((ScriptedCrossing.opening s).play
      [.order (.arm ⟨.presence, "/a", .watcher (.named "w1")⟩), .handle (.caller 0) 0,
        .deliver (.caller 0) 0, .order (.arm ⟨.presence, "/a", .watcher (.named "w2")⟩),
        .handle (.caller 1) 0, .deliver (.caller 1) 0,
        .order (.arm ⟨.listing, "/a", .watcher (.named "w1")⟩), .handle (.caller 2) 0,
        .deliver (.caller 2) 0]).any (fun u => decide u.engine.AtRest &&
          ((ScriptedCrossing.opening u.engine).play
            [.order (.remove ⟨"/a", .any, .one (.watcher (.named "w1")), false, false⟩),
              .go (.resume (.caller 3)),
              .order (.remove ⟨"/a", .only .data, .one (.watcher (.named "w2")), false, false⟩),
              .go (.resume (.caller 4)), .go (.resume (.caller 4)), .go (.resume (.caller 4)),
              .go (.resume (.caller 4)), .handle (.caller 3) 0, .deliver (.caller 3) 0,
              .go (.resume (.caller 3)), .go (.resume (.caller 3)), .go (.resume (.caller 3)),
              .go (.resume (.caller 3)), .go (.resume (.caller 3))]).any fun v =>
            decide (v.engine.AtRest ∧ v.notices = 0 ∧ ⟨"/a", .data⟩ ∈ v.watched ∧
              v.engine.client.registry.holders "/a" .data = [])) = true :=
    ⟨_, rfl, by decide +kernel⟩
  simp only [Option.any_eq_true, Bool.and_eq_true, decide_eq_true_eq] at hrun
  obtain ⟨s, hb, u, hu, hrest, v, hv, hrest', hnotices, hkept, hnobody⟩ := hrun
  have hreach := ScriptedCrossing.reachable_of_play (.built hb) hu
  refine ⟨u.engine, v, hreach, hrest, ?_, ?_, Finset.mem_coe.mpr hkept, fun hm => ?_⟩
  · exact ScriptedCrossing.settled_of_play hreach hrest hv hrest' hnotices
  · exact ScriptedCrossing.run_of_play (by simp [Cue.Admitted, Order.isRemote]) hv
  · obtain ⟨t, ht⟩ := Registry.mem_spots.mp hm
    change t ∈ v.engine.client.registry.holders "/a" .data at ht
    rw [hnobody] at ht
    cases ht

theorem shared_watch_forsaken :
    ∃ w w' forsaken, Engine.Reachable {} none w.engine ∧ w.Settled ∧
      w.watched = w.engine.client.registry.spots ∧
      Relation.ReflTransGen Removes (w, ∅) (w', forsaken) ∧ w'.Settled ∧
      ⟨"/a", .data⟩ ∈ forsaken ∧
      w'.engine.client.requests ⟨"/a", .data⟩ = w.engine.client.requests ⟨"/a", .data⟩ := by
  obtain ⟨s, v, hreach, hrest, hend, hsteps, horphan⟩ := exists_orphan_run
  have hstart := ScriptedCrossing.settled_opening hrest
  have hagree := ScriptedCrossing.watched_opening s
  obtain ⟨forsaken, hruns⟩ := exists_removes hsteps
  have h := (orphaned_iff_forsaken hreach hstart hagree hruns hend).mp horphan
  exact ⟨_, _, forsaken, hreach, hstart, hagree, hruns, hend, h.1, h.2⟩

theorem watched_not_always_held :
    ¬∀ (settings : Settings) (feed : Option Nat) (w w' : Crossing),
      Engine.Reachable settings feed w.engine → w.Settled →
      w.watched = w.engine.client.registry.spots →
      Relation.ReflTransGen (Step fun o => o.isRemote = true) w w' → w'.Settled →
      w'.watched ⊆ w'.engine.client.registry.spots := by
  intro h
  obtain ⟨s, v, hreach, hrest, hend, hsteps, hkept, hgone⟩ := exists_orphan_run
  exact hgone (h {} none _ _ hreach (ScriptedCrossing.settled_opening hrest)
    (ScriptedCrossing.watched_opening s) hsteps hend hkept)

end Crossing

end NodeWatch
