import NodeWatch.Proofs.WatchedSpots
import NodeWatch.Removal

/-! What a removal does to the registry, as a whole. It plans the kinds to ask about and the kinds
to settle without the server, and when the last answer is in it takes out, in one step, the entries
of every kind that went. -/

namespace NodeWatch

open Session (Spot)

namespace Client

/-- The client was not begun anew, closed or handed a removal in between, and asked for nothing. -/
structure Unasked (c c' : Client) : Prop where
  settings : c'.settings = c.settings
  removals : c'.removals = c.removals
  closed : c'.closed = c.closed
  journal : ∃ os, c'.journal = os ++ c.journal ∧ ∀ q, .asked q ∉ os

namespace Unasked

theorem refl (c : Client) : c.Unasked c :=
  ⟨rfl, rfl, rfl, [], rfl, by simp⟩

theorem trans {c₁ c₂ c₃ : Client} (h : c₁.Unasked c₂) (h' : c₂.Unasked c₃) : c₁.Unasked c₃ := by
  obtain ⟨os, hj, ho⟩ := h.journal
  obtain ⟨os', hj', ho'⟩ := h'.journal
  refine ⟨h'.settings.trans h.settings, h'.removals.trans h.removals, h'.closed.trans h.closed,
    os' ++ os, by rw [hj', hj, List.append_assoc], fun q hq => ?_⟩
  exact (List.mem_append.mp hq).elim (ho' q) (ho q)

theorem note (c : Client) {o : Occurrence} (h : ∀ q, o ≠ .asked q) : c.Unasked (c.note o) :=
  ⟨rfl, rfl, rfl, [o], rfl, fun q hq => h q (List.mem_singleton.mp hq).symm⟩

theorem unregister (c : Client) (cause : Cause) (path : String) (kind : Selector)
    (target : Target) : c.Unasked (c.unregister cause path kind target).2 :=
  ⟨rfl, rfl, rfl, [.taken cause (c.unregister cause path kind target).1], rfl, by simp⟩

end Unasked

end Client

namespace Removal

variable {r : RemovalRequest} {p : Plan} {c : Client}

/-- The request about a kind was answered. -/
def Answered (p : Plan) (answers : List (Option Answer)) (k : Kind) (a : Answer) : Prop :=
  ∃ i : Nat, p.server[i]? = some k ∧ answers[i]? = some (some a)

/-- The answer makes the entries of its kind go. -/
def takes (r : RemovalRequest) : Answer → Bool
  | .ok _ => true
  | .error f => f.isNoWatcher && r.quiet

/-- The kinds whose entries go. -/
def gone (r : RemovalRequest) (p : Plan) (answers : List Answer) : List Kind :=
  ((p.server.zip answers).filter fun x => takes r x.2).map Prod.fst ++ p.here

def cleared (p : Plan) (answers : List Answer) : List Kind :=
  ((p.server.zip answers).filter fun x => x.2.isOk).map Prod.fst

/-- The removal has taken the entries of these kinds out, and nothing else was done. -/
structure Drawn (r : RemovalRequest) (c : Client) (gone cleared : List Kind)
    (x : Settlement × Client) : Prop where
  registry : ∀ e, e ∈ x.2.registry ↔
    e ∈ c.registry ∧ ¬(e.path = r.path ∧ r.target.selects e.subscriber = true ∧ e.kind ∈ gone)
  cleared : x.1.cleared = cleared
  unasked : c.Unasked x.2

theorem drawn_nil (o : Settlement) (ho : o.cleared = []) : Drawn r c [] [] (o, c) :=
  ⟨by simp, ho, .refl c⟩

theorem drawn_takeOut {c₁ : Client} {o : Settlement} {ks cs cs' : List Kind}
    (h : Drawn r c ks cs (o, c₁)) (k : Kind) (o' : Settlement) (ho : o'.cleared = cs') :
    Drawn r c (ks ++ [k]) cs' (o', (c₁.unregister .removed r.path (.only k) r.target).2) := by
  refine ⟨fun e => ?_, ho, h.unasked.trans (.unregister _ _ _ _ _)⟩
  have htake : e ∈ (c₁.unregister .removed r.path (.only k) r.target).2.registry ↔
      e ∈ c₁.registry ∧
        ¬(e.path = r.path ∧ ((Selector.only k).selects e.kind && r.target.selects e.subscriber) =
          true) :=
    Registry.mem_takeOut_snd
  rw [htake, h.registry e]
  simp only [Selector.selects, Selector.kinds, List.contains_cons, List.contains_nil,
    Bool.or_false, Bool.and_eq_true, beq_iff_eq, List.mem_append, List.mem_singleton]
  tauto

theorem drawn_settleKind {ks cs : List Kind} {x : Settlement × Client} (h : Drawn r c ks cs x)
    (k : Kind) (a : Answer) :
    Drawn r c (ks ++ if takes r a then [k] else []) (cs ++ if a.isOk then [k] else [])
      (settleKind r p x (k, a)) := by
  obtain ⟨o, c₁⟩ := x
  simp only [settleKind]
  cases a with
  | ok _ => exact drawn_takeOut h k _ (by rw [h.cleared]; rfl)
  | error f =>
    have hsame : ∀ (o' : Settlement) (c₂ : Client), o'.cleared = o.cleared → c₁.Unasked c₂ →
        c₂.registry = c₁.registry → Drawn r c ks cs (o', c₂) := fun o' c₂ ho hu hr =>
      ⟨fun e => by rw [hr, h.registry e], ho.trans h.cleared, h.unasked.trans hu⟩
    have hok : (Except.error f : Answer).isOk = false := rfl
    rw [hok, if_neg Bool.false_ne_true, List.append_nil]
    by_cases hf : f.isNoWatcher = true
    · by_cases hq : r.quiet = true
      · simpa [takes, hf, hq] using drawn_takeOut h k { o with removed := o.removed ++
          (c₁.unregister .removed r.path (.only k) r.target).1 } h.cleared
      · by_cases hp : p.probe = true
        · simpa [takes, hf, hq, hp] using h
        · simpa [takes, hf, hq, hp] using hsame { o with failure := o.failure <|> some f } c₁ rfl
            (.refl _) rfl
    · simpa [takes, hf] using hsame { o with failure := o.failure <|> some f }
        (c₁.remark (.removalFailed r.path k f)) rfl (.note _ (by simp)) rfl

theorem drawn_reconcile (r : RemovalRequest) (p : Plan) (answers : List Answer) (c : Client) :
    Drawn r c (gone r p answers) (cleared p answers) (reconcile r p answers c) := by
  have hasked : ∀ (l : List (Kind × Answer)) (ks cs : List Kind) (x : Settlement × Client),
      Drawn r c ks cs x → Drawn r c (ks ++ (l.filter fun x => takes r x.2).map Prod.fst)
        (cs ++ (l.filter fun x => x.2.isOk).map Prod.fst) (l.foldl (settleKind r p) x) := by
    intro l
    induction l with
    | nil =>
      intro ks cs x h
      simpa using h
    | cons y ys ih =>
      obtain ⟨k, a⟩ := y
      intro ks cs x h
      have hstep := ih _ _ _ (drawn_settleKind (p := p) h k a)
      rw [List.foldl_cons, List.filter_cons, List.filter_cons]
      cases ht : takes r a <;> cases ha : a.isOk <;> simpa [ht, ha] using hstep
  have hhere : ∀ (l ks cs : List Kind) (x : Settlement × Client), Drawn r c ks cs x →
      Drawn r c (ks ++ l) cs (l.foldl (settleHere r) x) := by
    intro l
    induction l with
    | nil =>
      intro ks cs x h
      simpa using h
    | cons k l ih =>
      intro ks cs x h
      have hstep := ih _ _ _ (drawn_takeOut h k { x.1 with removed := x.1.removed ++
        (x.2.unregister .removed r.path (.only k) r.target).1 } h.cleared)
      rw [List.append_assoc] at hstep
      exact hstep
  have h := hhere p.here _ _ _
    (hasked (p.server.zip answers) [] [] _ (drawn_nil ⟨[], [], none⟩ rfl))
  exact ⟨h.registry, h.cleared, h.unasked⟩

theorem complete?_eq_some {answers : List (Option Answer)} {as : List Answer} :
    complete? p answers = some as ↔ answers = as.map some ∧ as.length = p.server.length := by
  have hm : ∀ (l : List (Option Answer)) (as : List Answer),
      l.mapM id = some as ↔ l = as.map some := by
    intro l
    induction l with
    | nil =>
      intro as
      cases as <;> simp
    | cons x l ih =>
      intro as
      cases x with
      | none => cases as <;> simp [List.mapM_cons]
      | some y =>
        cases as with
        | nil => simp [List.mapM_cons, Option.bind_eq_some_iff]
        | cons a as => simp [List.mapM_cons, Option.bind_eq_some_iff, ih, and_comm]
  simp only [complete?]
  split
  · rename_i hl
    rw [hm]
    constructor
    · rintro rfl
      exact ⟨rfl, by simpa using hl⟩
    · exact And.left
  · rename_i hl
    constructor
    · intro h
      cases h
    · rintro ⟨rfl, h⟩
      exact absurd (by simpa using h) hl

theorem mem_zip_iff_answered {as : List Answer} {k : Kind} {a : Answer} :
    (k, a) ∈ p.server.zip as ↔ Answered p (as.map some) k a := by
  rw [List.mem_iff_getElem?]
  simp [List.getElem?_zip_eq_some, Answered]

theorem mem_cleared {as : List Answer} {k : Kind} :
    k ∈ cleared p as ↔ ∃ x, Answered p (as.map some) k (.ok x) := by
  simp only [cleared, List.mem_map, List.mem_filter, Prod.exists, exists_and_right,
    exists_eq_right, mem_zip_iff_answered]
  constructor
  · rintro ⟨a, ha, hok⟩
    cases a with
    | ok x => exact ⟨x, ha⟩
    | error f => cases hok
  · rintro ⟨x, ha⟩
    exact ⟨.ok x, ha, rfl⟩

theorem mem_gone {as : List Answer} {k : Kind} :
    k ∈ gone r p as ↔ (∃ a, Answered p (as.map some) k a ∧ takes r a = true) ∨ k ∈ p.here := by
  simp only [gone, List.mem_append, List.mem_map, List.mem_filter, Prod.exists, exists_and_right,
    exists_eq_right, mem_zip_iff_answered]

/-- With an answer missing nothing happens; with the last one in, the entries go. -/
theorem advance_cases (r : RemovalRequest) (p : Plan) (answers : List (Option Answer))
    (c : Client) :
    (complete? p answers = none ∧ advance r p answers c = (.asking p answers, c)) ∨
      ∃ as, answers = as.map some ∧ as.length = p.server.length ∧
        advance r p answers c = (.confirming (reconcile r p as c).1.removed (reconcile r p as c).1,
          (reconcile r p as c).2) := by
  simp only [advance]
  cases hc : complete? p answers with
  | none => exact .inl ⟨rfl, rfl⟩
  | some as => exact .inr ⟨as, (complete?_eq_some.mp hc).1, (complete?_eq_some.mp hc).2, rfl⟩

theorem unasked_advance (p : Plan) (answers : List (Option Answer)) :
    c.Unasked (advance r p answers c).2 := by
  rcases advance_cases r p answers c with ⟨_, ha⟩ | ⟨as, _, _, ha⟩
  · rw [ha]
    exact .refl c
  · rw [ha]
    exact (drawn_reconcile r p as c).unasked

/-- A single subscriber's kind is asked about exactly when nobody shares it. -/
theorem mem_plan_one {reg : Registry} {s : Subscriber} (ht : r.target = .one s) {k : Kind} :
    (k ∈ (plan r reg).server ↔ r.kind.selects k = true ∧ reg.holders r.path k = [s]) ∧
      (k ∈ (plan r reg).here ↔ r.kind.selects k = true ∧ s ∈ reg.holders r.path k ∧
        reg.holders r.path k ≠ [s]) := by
  have hone : ∀ l : List Subscriber, s ∈ l → (l.length = 1 ↔ l = [s]) := by
    intro l hs
    constructor
    · intro hl
      obtain ⟨t, rfl⟩ := List.length_eq_one_iff.mp hl
      rw [List.mem_singleton.mp hs]
    · rintro rfl
      rfl
  have hsel : r.kind.selects k = true ↔ k ∈ r.kind.kinds := by simp [Selector.selects]
  simp only [plan]
  rw [ht, hsel]
  simp only [Registry.subscriberKinds, List.mem_map, List.mem_filter, Prod.exists, Prod.mk.injEq,
    List.contains_iff_mem]
  constructor
  · constructor
    · rintro ⟨k', b, ⟨⟨k'', ⟨hk, hs⟩, rfl, rfl⟩, hb⟩, rfl⟩
      exact ⟨hk, (hone _ hs).mp (by simpa using hb)⟩
    · rintro ⟨hk, hh⟩
      exact ⟨k, true, ⟨⟨k, ⟨hk, by simp [hh]⟩, rfl, by simp [hh]⟩, rfl⟩, rfl⟩
  · constructor
    · rintro ⟨k', b, ⟨⟨k'', ⟨hk, hs⟩, rfl, rfl⟩, hb⟩, rfl⟩
      exact ⟨hk, hs, fun hh => by simp [hh] at hb⟩
    · rintro ⟨hk, hs, hne⟩
      refine ⟨k, false, ⟨⟨k, ⟨hk, hs⟩, rfl, ?_⟩, rfl⟩, rfl⟩
      simpa using fun hl => hne ((hone _ hs).mp hl)

theorem plan_all {reg : Registry} (ht : r.target = .all) : (plan r reg).here = [] := by
  simp only [plan]
  rw [ht]
  dsimp only
  split
  · rfl
  · split <;> rfl

end Removal

end NodeWatch
