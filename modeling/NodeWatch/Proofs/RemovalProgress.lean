import NodeWatch.Proofs.RemovalProspects
import NodeWatch.Proofs.ExpiryHandled

/-! A removal gets on. Whatever it waits for, an answer or room in the queue of deliveries, it goes on
when it has got it, and each time it has less before it. What it puts on the queue are the
confirmations of the entries it took out. -/

namespace NodeWatch

/-- The call of user code that a listed occurrence is, unless it is a listener's. -/
def Occurrence.call? : Occurrence → Option Call
  | called (.listener ..) => none
  | called x => some x
  | _ => none

namespace Client

variable {c c₁ c' : Client} {ds es : List Delivery}

/-- The watchers and callbacks that were called, the earliest first. -/
def callings (os : List Occurrence) : List Call :=
  os.reverse.filterMap Occurrence.call?

theorem callings_append (os js : List Occurrence) :
    callings (os ++ js) = callings js ++ callings os := by
  simp [callings, List.filterMap_append]

/-- These deliveries were put on the queue in between, and no others, and no user code was called. -/
def Posts (c c' : Client) (ds : List Delivery) : Prop :=
  ∃ os, c'.journal = os ++ c.journal ∧ queuings os = ds ∧ callings os = [] ∧
    c'.deliveries.items = c.deliveries.items ++ ds

namespace Posts

theorem of_eq (hj : c'.journal = c.journal) (hi : c'.deliveries.items = c.deliveries.items) :
    c.Posts c' [] :=
  ⟨[], hj, rfl, rfl, by rw [hi, List.append_nil]⟩

theorem trans (h : c.Posts c₁ ds) (h' : c₁.Posts c' es) : c.Posts c' (ds ++ es) := by
  obtain ⟨os, hj, rfl, hcalls, hi⟩ := h
  obtain ⟨os', hj', rfl, hcalls', hi'⟩ := h'
  refine ⟨os' ++ os, ?_, queuings_append os' os, ?_, ?_⟩
  · rw [hj', hj, List.append_assoc]
  · rw [callings_append, hcalls, hcalls', List.append_nil]
  · rw [hi', hi, List.append_assoc]

theorem note (c : Client) {o : Occurrence} (h : queuings [o] = []) (hc : callings [o] = []) :
    c.Posts (c.note o) [] :=
  ⟨[o], rfl, h, hc, (List.append_nil _).symm⟩

theorem quiet (h : c.Posts c₁ []) (h' : c₁.Posts c' []) : c.Posts c' [] :=
  h.trans h'

theorem settle (c : Client) (m : RemovalMode) (result : Except Fault (List Entry)) :
    c.Posts (c.settle m result) [] :=
  ⟨[.settled m (outcomeOf result)], rfl, rfl, rfl, (List.append_nil _).symm⟩

theorem unregister (c : Client) (cause : Cause) (path : String) (kind : Selector)
    (target : Target) : c.Posts (c.unregister cause path kind target).2 [] :=
  ⟨[.taken cause _], rfl, rfl, rfl, (List.append_nil _).symm⟩

theorem of_thins {r : RemovalRequest} (h : Removal.Thins r c c') : c.Posts c' [] := by
  induction h with
  | none => exact of_eq rfl rfl
  | taken _ kind ih => exact ih.quiet (unregister _ .removed r.path kind r.target)
  | remarked _ m ih => exact ih.quiet (note _ rfl rfl)

end Posts

/-- A stay in which user code is called is not noticed. -/
theorem Stays.mirrors (h : c.Stays c') : c'.Mirrors c := by
  obtain ⟨os, hj, hidle⟩ := h.idle
  refine mirrors_of_eq h.registry h.ledger ?_
  rw [hj, trace_append, trace_idle hidle, List.append_nil]

theorem journal_deeds (xs : List Deed) (c : Client) : (xs.foldl apply c).journal = c.journal :=
  List.foldlRecOn (motive := fun d : Client => d.journal = c.journal) xs apply rfl
    fun _ hd x _ => by cases x <;> exact hd

theorem callings_call (conduct : Client → Call → Conduct) (c : Client) (x : Call) :
    ∃ os, (c.call conduct x).journal = os ++ c.journal ∧ callings os = callings [.called x] := by
  have hdeeds := journal_deeds (conduct (c.note (.called x)) x).deeds (c.note (.called x))
  unfold Client.call
  dsimp only
  split
  · rename_i r _
    exact ⟨[.remarked r, .called x], congrArg (Occurrence.remarked r :: ·) hdeeds,
      (callings_append [.remarked r] [.called x]).trans (List.append_nil _)⟩
  · exact ⟨[.called x], hdeeds, rfl⟩

/-- A delivery is carried out by the calls that it stands for. -/
theorem callings_deliver (conduct : Client → Call → Conduct) (c : Client) (d : Delivery) :
    ∃ os, (c.deliver conduct d).journal = os ++ c.journal ∧ callings os = d.calls [] := by
  have hall : ∀ (xs : List Call) (c : Client), ∃ os,
      (xs.foldl (call conduct) c).journal = os ++ c.journal ∧
        callings os = xs.flatMap fun x => callings [.called x] := by
    intro xs
    induction xs with
    | nil => exact fun c => ⟨[], rfl, rfl⟩
    | cons x xs ih =>
      intro c
      obtain ⟨os, hj, hos⟩ := callings_call conduct c x
      obtain ⟨js, hj', hjs⟩ := ih (c.call conduct x)
      refine ⟨js ++ os, ?_, ?_⟩
      · rw [List.foldl_cons, hj', hj, List.append_assoc]
      · rw [callings_append, hos, hjs, List.flatMap_cons]
  obtain ⟨os, hj, hos⟩ := hall (d.calls c.listeners) c
  refine ⟨os, hj, hos.trans ?_⟩
  have hlisteners : ∀ (ls : List String) (e : ClientEvent),
      (ls.map (Call.listener · e)).flatMap (fun x => callings [.called x]) = [] := fun ls e => by
    simp [callings, Occurrence.call?]
  cases d with
  | watched o k e => cases o with
    | default => exact hlisteners _ _
    | watcher | fallible => rfl
  | state e => exact hlisteners _ _
  | completion f e => rfl

end Client

namespace Removal

open Client (Posts)

variable {r : RemovalRequest} {p : Plan} {st st' : Stage} {c c' : Client} {party : Party}
  {reply : Transport}

theorem posts_start (r : RemovalRequest) (c : Client) : c.Posts (start r c).2 [] := by
  have h := started r c
  generalize start r c = x at h ⊢
  cases h with
  | invalid | asking => exact .of_eq rfl rfl
  | unmatched => exact (Posts.unregister c _ _ _ _).quiet (.settle _ _ _)
  | taken => exact .unregister c _ _ _ _
  | idle => exact .settle c _ _

theorem posts_resume (hc : c.Calm party) (h : resume r party st c = some (st', c')) :
    ∃ es, c.Posts c' (confirmations es) := by
  cases resumed h with
  | asked => exact ⟨[], .note c rfl rfl⟩
  | advanced p answers => exact ⟨[], .of_thins (thins_advance p answers c)⟩
  | told | passed => exact ⟨[], .of_eq rfl rfl⟩
  | telling e es o =>
    rcases hc.send (.removed e .syncConnected) with ⟨_, q, hs, _, rfl⟩ | ⟨_, q, hs, _, rfl⟩
    · rw [hs]
      exact ⟨[e], [.queued _], rfl, rfl, rfl, rfl⟩
    · rw [hs]
      exact ⟨[], .of_eq rfl rfl⟩
  | finished => exact ⟨[], .settle c _ _⟩
  | rearming k => exact ⟨[], [.asked _, .remarked _], rfl, rfl, rfl, (List.append_nil _).symm⟩

theorem steady_answer {slot : Nat} {x : Answer} (h : answer r slot x st c = some (st', c')) :
    c'.deliveries = c.deliveries ∧ c'.closed = c.closed ∧ offers st = false := by
  have hundisturbed : c.Undisturbed c' := .of_thins (thins_answer h)
  refine ⟨hundisturbed.deliveries, hundisturbed.closed, ?_⟩
  cases replied h with
  | advanced | rearmed => rfl

/-- A removal is in line, or was given a place, only while it has a delivery to offer. -/
theorem vacant_resume (hc : c.Calm party)
    (hv : offers st = false → c.deliveries.line = [] ∧ c.deliveries.admitted = [])
    (h : resume r party st c = some (st', c')) (ho : offers st' = false) :
    c'.deliveries.line = [] ∧ c'.deliveries.admitted = [] := by
  cases resumed h with
  | asked | passed | rearming | finished | told => exact hv rfl
  | advanced p answers =>
    have hundisturbed : c.Undisturbed (advance r p answers c).2 := .of_thins (thins_advance p answers c)
    rw [hundisturbed.deliveries]
    exact hv rfl
  | telling e es o =>
    rcases hc.send (.removed e .syncConnected) with ⟨hline, q, hs, _, rfl⟩ | ⟨_, q, hs, _, rfl⟩
    · rw [hs]
      exact ⟨hline, rfl⟩
    · rw [hs] at ho
      cases ho

/-- What a removal has before it. -/
def Stage.rank : Stage → Nat ×ₗ Nat
  | .asking p answers =>
    toLex (3, 2 * (p.server.length - answers.length) + answers.countP Option.isNone)
  | .confirming es _ => toLex (2, es.length)
  | .checking ks _ => toLex (1, 2 * ks.length + 1)
  | .rearming _ ks _ => toLex (1, 2 * ks.length + 2)
  | .done _ => toLex (0, 0)

theorem rank_advance_lt {answers answers' : List (Option Answer)}
    (h : complete? p answers' = none →
      (Stage.asking p answers').rank < (Stage.asking p answers).rank) :
    (advance r p answers' c).1.rank < (Stage.asking p answers).rank := by
  rcases advance_cases r p answers' c with ⟨hn, ha⟩ | ⟨as, _, _, ha⟩
  · rw [ha]
    exact h hn
  · rw [ha]
    exact Prod.Lex.left _ _ (Nat.lt_succ_self 2)

theorem rank_set_lt {answers : List (Option Answer)} {i : Nat} (h : answers[i]? = some none)
    (x : Answer) :
    (Stage.asking p (answers.set i (some x))).rank < (Stage.asking p answers).rank := by
  obtain ⟨hlt, hget⟩ := List.getElem?_eq_some_iff.mp h
  have hpos : 0 < answers.countP Option.isNone :=
    List.countP_pos_iff.mpr ⟨none, hget ▸ List.getElem_mem hlt, rfl⟩
  refine Prod.Lex.toLex_lt_toLex.mpr (.inr ⟨rfl, ?_⟩)
  rw [List.length_set, List.countP_set hlt, hget]
  simp only [Option.isNone_none, Option.isNone_some, if_true, Bool.false_eq_true, if_false]
  omega

theorem exists_awaited {answers : List (Option Answer)} (hl : answers.length = p.server.length)
    (hn : complete? p answers = none) : ∃ i : Nat, answers[i]? = some none := by
  by_contra hall
  have hsome : ∀ x ∈ answers, x.isSome = true := by
    intro x hx
    obtain ⟨i, hi⟩ := List.mem_iff_getElem?.mp hx
    cases x with
    | none => exact absurd ⟨i, hi⟩ hall
    | some y => rfl
  obtain ⟨as, rfl⟩ : ∃ as : List Answer, answers = as.map some := by
    refine ⟨answers.filterMap id, ?_⟩
    clear hl hn hall
    induction answers with
    | nil => rfl
    | cons x xs ih =>
      obtain ⟨y, rfl⟩ := Option.isSome_iff_exists.mp (hsome x (.head _))
      rw [List.filterMap_cons_some (f := id) rfl, List.map_cons]
      exact congrArg _ (ih fun z hz => hsome z (.tail _ hz))
  rw [complete?_eq_some.mpr ⟨rfl, by simpa using hl⟩] at hn
  cases hn

/-- The removal goes on by itself and has less before it. -/
def Advances (r : RemovalRequest) (party : Party) (st : Stage) (c : Client) : Prop :=
  ∃ st' c', resume r party st c = some (st', c') ∧ st'.rank < st.rank

/-- The removal goes on by itself and has less before it, or has lined up. -/
def GoesOn (r : RemovalRequest) (party : Party) (st : Stage) (c : Client) : Prop :=
  ∃ st' c', resume r party st c = some (st', c') ∧ (st'.rank < st.rank ∨ st' = st ∧
    c.deliveries.line = [] ∧ c.deliveries.admitted = [] ∧ c'.deliveries.line = [party])

theorem Advances.goesOn (h : Advances r party st c) : GoesOn r party st c := by
  obtain ⟨st', c', hresume, hlt⟩ := h
  exact ⟨st', c', hresume, .inl hlt⟩

/-- The removal waits for an answer, and has less before it when it has got it. -/
def Awaits (r : RemovalRequest) (st : Stage) (c : Client) : Prop :=
  ∃ slot, ∀ x, ∃ st' c', answer r slot x st c = some (st', c') ∧ st'.rank < st.rank

theorem asking_proceeds {answers : List (Option Answer)} (hshort : answers.length ≤ p.server.length)
    (hwanting : complete? p answers = none ∨ p.server = []) :
    Advances r party (.asking p answers) c ∨ Awaits r (.asking p answers) c := by
  cases hk : p.server[answers.length]? with
  | some k =>
    obtain ⟨hlt, _⟩ := List.getElem?_eq_some_iff.mp hk
    have hresume : resume r party (.asking p answers) c =
        some (.asking p (answers ++ [none]), c.submit (.remove r.path k)) := by
      simp only [resume, hk]
    refine .inl ⟨_, _, hresume, Prod.Lex.toLex_lt_toLex.mpr (.inr ⟨rfl, ?_⟩)⟩
    simp only [List.length_append, List.length_singleton, List.countP_append,
      List.countP_singleton, Option.isNone_none, if_true]
    omega
  | none =>
    rw [List.getElem?_eq_none_iff] at hk
    by_cases he : p.server = []
    · have hnil : answers = [] := List.length_eq_zero_iff.mp (by simpa [he] using hshort)
      have hall : complete? p answers = some [] :=
        complete?_eq_some.mpr ⟨by simp [hnil], by simp [he]⟩
      have hresume : resume r party (.asking p answers) c = some (advance r p answers c) := by
        simp [resume, he]
      refine .inl ⟨_, _, hresume, rank_advance_lt fun hn => ?_⟩
      rw [hn] at hall
      cases hall
    · obtain ⟨i, hi⟩ := exists_awaited (Nat.le_antisymm hshort hk) (hwanting.resolve_right he)
      refine .inr ⟨i, fun x => ?_⟩
      have hanswer : answer r i x (.asking p answers) c =
          some (advance r p (answers.set i (some x)) c) := by
        simp only [answer, hi]
      exact ⟨_, _, hanswer, rank_advance_lt fun _ => rank_set_lt hi x⟩

theorem confirming_proceeds (hc : c.Calm party) (hline : c.deliveries.line = []) (es : List Entry)
    (o : Settlement) : GoesOn r party (.confirming es o) c := by
  cases es with
  | nil => exact ⟨_, _, rfl, .inl (Prod.Lex.left _ _ (Nat.lt_succ_self 1))⟩
  | cons e es =>
    have hstalls : c.deliveries.stalls party = false := by
      rw [Bool.eq_false_iff, ne_eq, hc.free.stalls hc.isOpen, hline]
      simp
    rcases hc.send (.removed e .syncConnected) with ⟨_, q, hsend, _⟩ | ⟨hwait, q, hsend, _, rfl⟩
    · refine ⟨.confirming es o, (c.send party (.removed e .syncConnected)).2, ?_, .inl ?_⟩
      · simp [resume, hstalls, hsend]
      · exact Prod.Lex.toLex_lt_toLex.mpr (.inr ⟨rfl, Nat.lt_succ_self _⟩)
    · refine ⟨.confirming (e :: es) o, { c with deliveries := { c.deliveries with line := [party] } },
        ?_, .inr ⟨rfl, hline, ?_, rfl⟩⟩
      · simp [resume, hstalls, hsend]
      · rcases hwait with hwait | hwait
        · rw [hline] at hwait
          cases hwait
        · exact hwait.2

theorem checking_proceeds (ks : List Kind) (o : Settlement) :
    Advances r party (.checking ks o) c := by
  cases ks with
  | nil =>
    have hresume : resume r party (.checking [] o) c = some (finish r o.result c) := by
      simp only [resume, Settlement.result]
      cases o.failure <;> rfl
    exact ⟨_, _, hresume, Prod.Lex.left _ _ Nat.one_pos⟩
  | cons k ks =>
    by_cases he : (c.registry.registeredKinds r.path (.only k) .all).isEmpty = true
    · refine ⟨_, _, by rw [resume, if_pos he], ?_⟩
      exact Prod.Lex.toLex_lt_toLex.mpr (.inr ⟨rfl, by simp only [List.length_cons]; omega⟩)
    · refine ⟨_, _, by rw [resume, if_neg he], ?_⟩
      exact Prod.Lex.toLex_lt_toLex.mpr (.inr ⟨rfl, by simp only [List.length_cons]; omega⟩)

theorem rearming_awaits (k : Kind) (ks : List Kind) (o : Settlement) :
    Awaits r (.rearming k ks o) c := by
  have hlt : (Stage.checking ks o).rank < (Stage.rearming k ks o).rank :=
    Prod.Lex.toLex_lt_toLex.mpr (.inr ⟨rfl, Nat.lt_succ_self _⟩)
  refine ⟨0, fun x => ?_⟩
  cases x with
  | ok y => exact ⟨_, _, rfl, hlt⟩
  | error f => exact ⟨_, _, rfl, hlt⟩

/-- A removal under way that has not ended waits for room in the queue, goes on by itself, or waits
for an answer. -/
theorem proceeds (hc : c.Calm party) (hs : Sound reply r st c) (hd : ∀ x, st ≠ .done x) :
    (c.deliveries.line = [party] ∧ c.deliveries.admitted = [] ∧ c.deliveries.items ≠ []) ∨
      GoesOn r party st c ∨ Awaits r st c := by
  rcases hc.free with ⟨hline, _⟩ | hfull
  · right
    cases st with
    | asking p answers => exact (asking_proceeds hs.1.short hs.2).imp Advances.goesOn id
    | confirming es o => exact .inl (confirming_proceeds hc hline es o)
    | checking ks o => exact .inl (checking_proceeds ks o).goesOn
    | rearming k ks o => exact .inr (rearming_awaits k ks o)
    | done x => exact absurd rfl (hd x)
  · exact .inl hfull

end Removal

end NodeWatch
