import NodeWatch.Backoff

/-! Changes of a client beside the work of its operations: user code is called, a remark is
written, a callback is told its result. The registry stays as it is, the queue of deliveries stays
open, and the journal tells of nothing that was registered, taken, asked of the server or announced
to a subscriber. -/

namespace NodeWatch

/-- What is noted when no operation is at work. -/
def Occurrence.isAside : Occurrence → Bool
  | called _ | remarked _ | queued (.completion ..) | dropped (.completion ..) => true
  | _ => false

namespace Queue

variable {α : Type}

theorem isOpen_grant (q : Queue α) : q.grant.isOpen = q.isOpen := by
  simp only [grant]
  split <;> rfl

theorem isOpen_withdraw (q : Queue α) (p : Party) : (q.withdraw p).isOpen = q.isOpen := by
  simp only [withdraw]
  split
  · exact isOpen_grant _
  · rfl

theorem isOpen_take {q q' : Queue α} {x : α} (h : q.take? = some (x, q')) :
    q'.isOpen = q.isOpen := by
  simp only [take?] at h
  split at h
  · cases h
  · obtain ⟨_, rfl⟩ := Prod.mk.inj (Option.some.inj h)
    exact isOpen_grant _

theorem ofCapacity_eq_ok {n : Nat} {q : Queue α} :
    ofCapacity n = .ok q ↔ 0 < n ∧ n ≤ maxCapacity ∧ q = ⟨n, [], [], [], true⟩ := by
  simp only [ofCapacity]
  split
  · rename_i h
    exact iff_of_false (fun he => by cases he) fun ⟨hn, _, _⟩ => (Nat.pos_iff_ne_zero.mp hn) h
  · split
    · rename_i h
      exact iff_of_false (fun he => by cases he) fun ⟨_, hn, _⟩ => absurd h (Nat.not_lt.mpr hn)
    · rename_i hz hm
      rw [Except.ok.injEq, eq_comm]
      exact ⟨fun hq => ⟨Nat.pos_of_ne_zero hz, Nat.not_lt.mp hm, hq⟩, fun hq => hq.2.2⟩

theorem ofCapacity_of_greater {n : Nat} (h : maxCapacity < n) :
    ofCapacity (α := α) n =
      .error s!"a semaphore may not have more than MAX_PERMITS permits ({maxCapacity})" := by
  simp only [ofCapacity]
  rw [if_neg (by omega), if_pos h]

theorem offer_of_open {q : Queue α} (ho : q.isOpen = true) (p : Party) (x : α) :
    (∃ q', q.offer p x = .accepted q' ∧ q'.isOpen = true) ∨
      ∃ q', q.offer p x = .mustWait q' ∧ q'.isOpen = true := by
  simp only [offer]
  rw [if_neg (by simp [ho])]
  split
  · exact .inl ⟨_, rfl, ho⟩
  · split
    · exact .inr ⟨_, rfl, ho⟩
    · split
      · exact .inl ⟨_, rfl, ho⟩
      · exact .inr ⟨_, rfl, ho⟩

theorem isOpen_of_offer {q q' : Queue α} {p : Party} {x : α}
    (h : q.offer p x = .accepted q' ∨ q.offer p x = .mustWait q') :
    q'.isOpen = q.isOpen := by
  cases ho : q.isOpen with
  | false =>
    have hrefused : q.offer p x = .refused := by simp [offer, ho]
    rw [hrefused] at h
    rcases h with h | h <;> cases h
  | true =>
    rcases offer_of_open ho p x with ⟨q₁, hq, hopen⟩ | ⟨q₁, hq, hopen⟩
    · rw [hq] at h
      rcases h with h | h
      · exact Offer.accepted.inj h ▸ hopen
      · cases h
    · rw [hq] at h
      rcases h with h | h
      · cases h
      · exact Offer.mustWait.inj h ▸ hopen

theorem items_of_accepted {q q' : Queue α} {p : Party} {b : α}
    (h : q.offer p b = .accepted q') : q'.items = q.items ++ [b] := by
  simp only [offer] at h
  split at h
  · cases h
  · split at h
    · cases h
      rfl
    · split at h
      · cases h
      · split at h
        · cases h
          rfl
        · cases h

theorem items_of_mustWait {q q' : Queue α} {p : Party} {b : α}
    (h : q.offer p b = .mustWait q') : q'.items = q.items := by
  simp only [offer] at h
  split at h
  · cases h
  · split at h
    · cases h
    · split at h
      · cases h
        rfl
      · split at h
        · cases h
        · cases h
          rfl

theorem items_withdraw (q : Queue α) (p : Party) :
    (q.withdraw p).items = q.items := by
  simp only [withdraw]
  split
  · simp only [grant]
    split <;> rfl
  · rfl

theorem items_take {q q' : Queue α} {b : α}
    (h : q.take? = some (b, q')) : q.items = b :: q'.items := by
  simp only [take?] at h
  split at h
  · cases h
  · rename_i x xs hx
    obtain ⟨rfl, rfl⟩ := Prod.mk.inj (Option.some.inj h)
    rw [hx]
    simp only [grant]
    split <;> rfl

theorem items_of_take_none {q : Queue α} (h : q.take? = none) : q.items = [] := by
  simp only [take?] at h
  split at h
  · assumption
  · cases h

end Queue

namespace Delivery

/-- These calls carry out deliveries one after another, each with the listeners of its moment. An event
for the default subscriber goes to every listener, with the kind of its watch, and a change of the
connection to every listener, without a kind. Any other delivery is one call, of the subscriber or of
the callback it is for. -/
inductive CarriedOut : List (List String × Delivery) → List Call → Prop
  | nothing : CarriedOut [] []
  | default (listeners : List String) (kind : Kind) (e : WatchedEvent)
    {xs : List (List String × Delivery)} {cs : List Call} (rest : CarriedOut xs cs) :
    CarriedOut ((listeners, .watched .default kind e) :: xs)
      (listeners.map (.listener · (.watched e (some kind))) ++ cs)
  | watcher (listeners : List String) (o : Identity) (kind : Kind) (e : WatchedEvent)
    {xs : List (List String × Delivery)} {cs : List Call} (rest : CarriedOut xs cs) :
    CarriedOut ((listeners, .watched (.watcher o) kind e) :: xs) (.watcher o e :: cs)
  | fallible (listeners : List String) (o : Identity) (kind : Kind) (e : WatchedEvent)
    {xs : List (List String × Delivery)} {cs : List Call} (rest : CarriedOut xs cs) :
    CarriedOut ((listeners, .watched (.fallible o) kind e) :: xs) (.fallible o e :: cs)
  | state (listeners : List String) (e : WatchedEvent)
    {xs : List (List String × Delivery)} {cs : List Call} (rest : CarriedOut xs cs) :
    CarriedOut ((listeners, .state e) :: xs) (listeners.map (.listener · (.watched e none)) ++ cs)
  | completion (listeners : List String) (f : String) (e : ClientEvent)
    {xs : List (List String × Delivery)} {cs : List Call} (rest : CarriedOut xs cs) :
    CarriedOut ((listeners, .completion f e) :: xs) (.callback f e :: cs)

theorem carriedOut_calls (xs : List (List String × Delivery)) :
    CarriedOut xs (xs.flatMap fun x => x.2.calls x.1) := by
  induction xs with
  | nil => exact .nothing
  | cons x xs ih =>
    obtain ⟨listeners, d⟩ := x
    cases d with
    | watched s kind e =>
      cases s with
      | default => exact .default listeners kind e ih
      | watcher o => exact .watcher listeners o kind e ih
      | fallible o => exact .fallible listeners o kind e ih
    | state e => exact .state listeners e ih
    | completion f e => exact .completion listeners f e ih

end Delivery

namespace Client

/-- Remarks were written, and nothing else was done. -/
inductive Remarked (c : Client) : Client → Prop
  | none : Remarked c c
  | more {c' : Client} (h : Remarked c c') (r : Remark) : Remarked c (c'.remark r)

structure Aside (c c' : Client) : Prop where
  registry : c'.registry = c.registry
  settings : c'.settings = c.settings
  opens : c'.deliveries.isOpen = c.deliveries.isOpen
  journal : ∃ os, c'.journal = os ++ c.journal ∧ ∀ o ∈ os, o.isAside = true

namespace Aside

theorem of_eq {c c' : Client} (hr : c'.registry = c.registry) (hs : c'.settings = c.settings)
    (ho : c'.deliveries.isOpen = c.deliveries.isOpen) (hj : c'.journal = c.journal) : c.Aside c' :=
  ⟨hr, hs, ho, [], hj, by simp⟩

theorem refl (c : Client) : c.Aside c :=
  of_eq rfl rfl rfl rfl

theorem trans {c₁ c₂ c₃ : Client} (h : c₁.Aside c₂) (h' : c₂.Aside c₃) : c₁.Aside c₃ := by
  obtain ⟨os, hj, ho⟩ := h.journal
  obtain ⟨os', hj', ho'⟩ := h'.journal
  refine ⟨h'.registry.trans h.registry, h'.settings.trans h.settings, h'.opens.trans h.opens,
    os' ++ os, ?_, ?_⟩
  · rw [hj', hj, List.append_assoc]
  · intro o hm
    exact (List.mem_append.mp hm).elim (ho' o) (ho o)

theorem note (c : Client) {o : Occurrence} (h : o.isAside = true) : c.Aside (c.note o) :=
  ⟨rfl, rfl, rfl, [o], rfl, by simp [h]⟩

theorem remark (c : Client) (r : Remark) : c.Aside (c.remark r) :=
  note c rfl

theorem of_remarked {c c' : Client} (h : c.Remarked c') : c.Aside c' := by
  induction h with
  | none => exact refl c
  | more _ r ih => exact ih.trans (remark _ r)

theorem apply (c : Client) (d : Deed) : c.Aside (c.apply d) := by
  cases d <;> exact of_eq rfl rfl rfl rfl

theorem foldl {α : Type} {f : Client → α → Client} (hf : ∀ (c : Client) x, c.Aside (f c x))
    (xs : List α) (c : Client) : c.Aside (xs.foldl f c) := by
  induction xs generalizing c with
  | nil => exact refl c
  | cons x xs ih => exact (hf c x).trans (ih (f c x))

theorem call (conduct : Client → Call → Conduct) (c : Client) (x : Call) :
    c.Aside (c.call conduct x) := by
  have h : c.Aside
      ((conduct (c.note (.called x)) x).deeds.foldl Client.apply (c.note (.called x))) :=
    (note c rfl).trans (foldl apply _ _)
  unfold Client.call
  dsimp only
  split
  · exact h.trans (remark _ _)
  · exact h

theorem deliver (conduct : Client → Call → Conduct) (c : Client) (d : Delivery) :
    c.Aside (c.deliver conduct d) :=
  foldl (call conduct) _ c

theorem send_completion (c : Client) (p : Party) (f : String) (e : ClientEvent) :
    c.Aside (c.send p (.completion f e)).2 := by
  simp only [Client.send]
  cases ho : c.deliveries.isOpen with
  | false =>
    rw [show c.deliveries.offer p _ = .refused by simp [Queue.offer, ho]]
    exact (remark c _).trans (note _ rfl)
  | true =>
    rcases Queue.offer_of_open ho p (.completion f e) with ⟨q, hq, hqo⟩ | ⟨q, hq, hqo⟩
    · rw [hq]
      exact (of_eq rfl rfl (hqo.trans ho.symm) rfl :
        c.Aside { c with deliveries := q }).trans (note _ rfl)
    · rw [hq]
      exact of_eq rfl rfl (hqo.trans ho.symm) rfl

end Aside

end Client

namespace Backoff

variable {policy : BackoffPolicy} {c c' : Client}

theorem remarked_failed {c₀ : Client} (h : c₀.Remarked c) (n delay : Nat) (f : Fault) :
    c₀.Remarked (failed policy n delay f c).2 := by
  simp only [failed]
  split
  · exact h
  · exact .more h _

theorem remarked_answer {x : Answer} {st st' : Stage} (hm : answer policy x st c = some (st', c')) :
    c.Remarked c' := by
  simp only [answer] at hm
  split at hm
  · obtain ⟨_, rfl⟩ := Prod.mk.inj (Option.some.inj hm)
    exact .none
  · obtain rfl : (failed policy _ _ _ _).2 = c' := congrArg Prod.snd (Option.some.inj hm)
    exact remarked_failed (.more .none _) _ _ _
  · cases hm

theorem remarked_timeOut {st st' : Stage} (hm : timeOut policy st c = some (st', c')) :
    c.Remarked c' := by
  simp only [timeOut] at hm
  split at hm
  · obtain rfl : (failed policy _ _ _ _).2 = c' := congrArg Prod.snd (Option.some.inj hm)
    exact remarked_failed (.more .none _) _ _ _
  · cases hm

theorem submitted_retry {r : Request} {st st' : Stage}
    (hm : retry policy r st c = some (st', c')) : c' = c.submit r := by
  simp only [retry] at hm
  split at hm
  · exact (congrArg Prod.snd (Option.some.inj hm)).symm
  · cases hm

end Backoff

end NodeWatch
