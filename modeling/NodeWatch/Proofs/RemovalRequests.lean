import NodeWatch.Proofs.RemovalFailures

/-! What a removal asks the server for, whatever else goes on meanwhile, and when. The kinds that it
asks the server to drop are fixed by the registry it plans by. It goes on when all answers are in, and
then a kind that the server dropped is armed again if somebody has registered it since. -/

namespace NodeWatch

namespace Removal

variable {r : RemovalRequest} {p : Plan} {reg : Registry} {party : Party} {c c' : Client}
  {st st' : Stage} {ts later earlier : List Turn} {x : Turn} {as : List Answer} {o : Settlement}
  {es told : List Entry} {ks looked : List Kind}

/-- The server is to be asked to drop a kind: a single subscriber holds it alone, or all its
subscribers go. When every kind is selected, one that has no subscriber is left out, unless none has
any. -/
def Due (r : RemovalRequest) (reg : Registry) (k : Kind) : Prop :=
  r.kind.selects k = true ∧
    match r.target with
    | .one s => reg.holders r.path k = [s]
    | .all => r.kind = .any →
      reg.holders r.path k ≠ [] ∨ ∀ k', reg.holders r.path k' = []

/-- The server dropped the kind. -/
def accepted (r : RemovalRequest) (ts : List Turn) (k : Kind) : Bool :=
  (reply? r ts k).any Except.isOk

theorem mem_registeredKinds {k : Kind} :
    k ∈ reg.registeredKinds r.path .any .all ↔ reg.holders r.path k ≠ [] := by
  have hany : k ∈ Selector.any.kinds := by cases k <;> decide
  rw [Registry.registeredKinds, List.mem_filter, and_iff_right hany, List.any_eq_true]
  constructor
  · rintro ⟨s, hs, _⟩ hnil
    rw [hnil] at hs
    cases hs
  · intro hne
    obtain ⟨s, hs⟩ := List.exists_mem_of_ne_nil _ hne
    exact ⟨s, hs, rfl⟩

theorem mem_server_plan {k : Kind} : k ∈ (plan r reg).server ↔ Due r reg k := by
  cases ht : r.target with
  | one s =>
    simp only [Due, ht]
    exact (mem_plan_one ht).1
  | all =>
    simp only [Due, ht]
    cases hk : r.kind with
    | only k' =>
      have hserver : (plan r reg).server = [k'] := by simp only [plan, ht, hk]
      simp [hserver, Selector.selects, Selector.kinds]
    | any =>
      have hselects : Selector.any.selects k = true := by cases k <;> decide
      have hnone : reg.registeredKinds r.path .any .all = [] ↔
          ∀ k', reg.holders r.path k' = [] := by
        rw [List.eq_nil_iff_forall_not_mem]
        exact forall_congr' fun k' => mem_registeredKinds.not_left
      by_cases hempty : reg.registeredKinds r.path .any .all = []
      · have hserver : (plan r reg).server = Selector.any.kinds := by
          simp only [plan, ht, hk, hempty]
        rw [hserver]
        refine iff_of_true (by cases k <;> decide) ⟨hselects, fun _ => .inr (hnone.mp hempty)⟩
      · have hserver : (plan r reg).server = reg.registeredKinds r.path .any .all := by
          simp only [plan, ht, hk]
        rw [hserver, mem_registeredKinds]
        refine ⟨fun h => ⟨hselects, fun _ => .inl h⟩, fun h => (h.2 rfl).resolve_right ?_⟩
        exact fun hall => hempty (hnone.mpr hall)

theorem sublist_server (r : RemovalRequest) (reg : Registry) :
    (plan r reg).server.Sublist [.data, .children] := by
  rcases server_cases r reg with ⟨k, hsub⟩ | hboth
  · refine hsub.trans (List.singleton_sublist.mpr ?_)
    cases k <;> simp
  · rw [hboth]

/-- The kinds to be looked at are those that the server dropped, in the order in which it was asked. -/
theorem Reckons.cleared_eq (h : Reckons r p later x earlier as o told) :
    o.cleared = p.server.filter (accepted r (later ++ x :: earlier)) := by
  obtain ⟨o', hreckoned, rfl⟩ := h.exists_reckoned
  have hfst : p.server = (p.server.zip as).map Prod.fst := (List.map_fst_zip h.all.ge).symm
  rw [hreckoned.cleared]
  conv_rhs => rw [hfst, List.filter_map]
  refine congrArg (List.map Prod.fst) (List.filter_congr fun y hy => ?_)
  have hreply : reply? r (later ++ x :: earlier) y.1 = some y.2 := (mem_zip_iff_reply h.heard).mp hy
  simp [accepted, hreply]

/-- The answers that the reckoning was made on. -/
theorem Reckons.answers_eq (h : Reckons r p later x earlier as o told) :
    as = p.server.filterMap (reply? r (later ++ x :: earlier)) := by
  have hmap : p.server.map (reply? r (later ++ x :: earlier)) = as.map some := by
    refine List.ext_getElem (by simp [h.all]) fun i hi _ => ?_
    rw [List.length_map] at hi
    have hslot := h.heard.slots i _ (List.getElem?_eq_getElem hi)
    have has : as[i]? = some (as.get ⟨i, h.all ▸ hi⟩) := List.getElem?_eq_getElem _
    simpa [has] using hslot
  have hid := congrArg (List.filterMap id) hmap
  simpa [List.filterMap_map] using hid.symm

/-- What was asked before the reckoning, in it and after it. A kind is looked at after the
confirmations were sent, and armed again at once if it is held. -/
structure Exchanges (r : RemovalRequest) (ks : List Kind) (later : List Turn) (x : Turn)
    (earlier : List Turn) (es : List Entry) : Prop where
  removes : Turn.askings earlier = requests r ks
  silent : Turn.askings [x] = []
  rearms : ∀ y ∈ later, Turn.askings [y] = rearmings r (Turn.checks [y])
  told : ∀ after y before, later = after ++ y :: before → y.check?.isSome →
    Turn.sendings before = confirmations es

/-- The removal did all that it had to before it looked at a kind again. The requests to drop the
kinds were submitted and answered before it acted upon any answer, and then these entries went. -/
structure Trades (r : RemovalRequest) (ks : List Kind) (later : List Turn) (x : Turn)
    (earlier : List Turn) (es : List Entry) : Prop extends Exchanges r ks later x earlier es where
  answered : ∀ k ∈ ks, ∃ a, reply? r (x :: earlier) k = some a
  still : ∀ y ∈ later ++ earlier, y.Still
  untold : Turn.sendings earlier = []
  unqueued : Turn.queuings earlier = []
  queued : ∀ after y before, later = after ++ y :: before → y.check?.isSome →
    (∀ z ∈ before, z.before.deliveries.isOpen = true) → Turn.queuings before = confirmations es
  taken : Turn.takings [x] = es.map (.mk .removed)
  gone : ∀ e ∈ es, e ∉ x.after.registry

theorem rearmings_append (l l' : List (Kind × Registry)) :
    rearmings r (l ++ l') = rearmings r l ++ rearmings r l' := by
  rw [rearmings, List.filter_append, List.map_append]
  rfl

theorem kind_rearmings (l : List (Kind × Registry)) : (rearmings r l).map Request.kind =
    (l.filter fun y => y.2.holders r.path y.1 ≠ []).map Prod.fst := by
  rw [rearmings, List.map_map]
  exact List.map_congr_left fun y _ => Read.kind_rearming y.1

theorem askings_of_rearms (h : ∀ y ∈ ts, Turn.askings [y] = rearmings r (Turn.checks [y])) :
    Turn.askings ts = rearmings r (Turn.checks ts) := by
  induction ts with
  | nil => rfl
  | cons y ts ih =>
    have hy := h y (.head _)
    have hts := ih fun z hz => h z (.tail _ hz)
    rw [← List.singleton_append, Turn.askings_append, Turn.checks_append, rearmings_append, hy, hts]

/-- All requests, in order. -/
theorem Exchanges.askings (h : Exchanges r ks later x earlier es) :
    Turn.askings (later ++ x :: earlier) = requests r ks ++ rearmings r (Turn.checks later) := by
  rw [← List.singleton_append, Turn.askings_append, Turn.askings_append, h.removes, h.silent,
    List.append_nil, askings_of_rearms h.rearms]

/-- One more turn after the reckoning. -/
theorem Exchanges.turn {y : Turn} (h : Exchanges r ks later x earlier o.removed)
    (hr : Reckons r p later x earlier as o told) (hy : Aftermath r y es)
    (htold : y.check?.isSome → told = o.removed) :
    Exchanges r ks (y :: later) x earlier o.removed := by
  refine ⟨h.removes, h.silent, ?_, fun after z before hsplit hcheck => ?_⟩
  · intro z hz
    rcases List.mem_cons.mp hz with rfl | hz
    · exact hy.asked
    · exact h.rearms z hz
  · cases after with
    | nil =>
      obtain ⟨rfl, rfl⟩ := List.cons.inj hsplit
      have hall := htold hcheck
      exact hall ▸ hr.sent
    | cons a after =>
      obtain ⟨rfl, rfl⟩ := List.cons.inj hsplit
      exact h.told after z before rfl hcheck

theorem Reckons.trades (h : Reckons r p later x earlier as o told)
    (ha : Exchanges r p.server later x earlier o.removed)
    (hd : ∀ y ∈ later ++ x :: earlier, y.Delivers) :
    Trades r p.server later x earlier o.removed := by
  refine ⟨ha, fun k hk => ?_, h.still, h.silent, Turn.queuings_of_sendings ?_ h.silent,
    fun after y before hsplit hcheck hopen => ?_, h.noted.1, fun e he hin => ?_⟩
  · by_contra hnone
    refine h.last ⟨k, hk, ?_⟩
    cases hreply : reply? r (x :: earlier) k with
    | none => rfl
    | some a => exact absurd ⟨a, hreply⟩ hnone
  · exact fun y hy => hd y (List.mem_append_right _ (.tail _ hy))
  · rw [← ha.told after y before hsplit hcheck]
    refine Turn.queuings_eq_sendings (fun z hz => hd z (List.mem_append_left _ ?_)) hopen
    exact hsplit ▸ List.mem_append_right _ (.tail _ hz)
  · rw [Registry.mem_iff, h.frame, List.mem_filter] at hin
    exact absurd he (of_decide_eq_true hin.2)

/-- The removal has its answers, was through with these entries and has looked at these kinds. -/
def Traded (r : RemovalRequest) (p : Plan) (ts : List Turn) (o : Settlement) (told : List Entry)
    (looked : List Kind) : Prop :=
  ∃ later x earlier as, ts = later ++ x :: earlier ∧ Reckons r p later x earlier as o told ∧
    Exchanges r p.server later x earlier o.removed ∧ (Turn.checks later).map Prod.fst = looked

/-- How far a removal that asks the server has come with its requests. -/
inductive Inquired (r : RemovalRequest) (reg : Registry) (ts : List Turn) : Stage → Prop
  | asking (p : Plan) (answers : List (Option Answer))
    (traced : Traced r reg ts (.asking p answers))
    (removes : Turn.askings ts = requests r (p.server.take answers.length)) :
    Inquired r reg ts (.asking p answers)
  | owing (st : Stage) (o : Settlement) (told rest : List Entry) (looked ks : List Kind)
    (owes : st.Owes o rest ks) (removed : o.removed = told ++ rest)
    (cleared : o.cleared = looked ++ ks) (traded : Traded r (plan r reg) ts o told looked) :
    Inquired r reg ts st
  | done (o : Settlement) (traded : Traded r (plan r reg) ts o o.removed o.cleared) :
    Inquired r reg ts (.done o.result)

theorem Traded.turn {y : Turn} (h : Traded r p ts o told looked)
    (hy : Aftermath r y es) (htold : y.check?.isSome → told = o.removed) :
    Traded r p (y :: ts) o (told ++ es) (looked ++ (Turn.checks [y]).map Prod.fst) := by
  obtain ⟨later, x, earlier, as, rfl, hreckons, hexchanges, rfl⟩ := h
  refine ⟨y :: later, x, earlier, as, rfl, hreckons.turn hy, hexchanges.turn hreckons hy htold, ?_⟩
  rw [← List.singleton_append, Turn.checks_append, List.map_append]

theorem askings_of_unasked {y : Turn} (h : y.before.Unasked y.after) : Turn.askings [y] = [] := by
  obtain ⟨os, hj, hnone⟩ := h.journal
  exact (askings_of_noted os hj).trans (Client.askings_of_not_mem hnone)

theorem requests_take_succ {n : Nat} {k : Kind} (hk : ks[n]? = some k) :
    requests r (ks.take (n + 1)) = requests r (ks.take n) ++ [.remove r.path k] := by
  rw [List.take_add_one, hk, requests, List.map_append]
  rfl

/-- The last answer has come in, or another one is awaited. -/
theorem inquired_advance {m : Move} {answers answers' : List (Option Answer)}
    (h : Traced r reg ts (.asking p answers))
    (hremoves : Turn.askings ts = requests r (p.server.take answers.length))
    (hlength : answers'.length = answers.length)
    (htraced : Traced r reg
      (⟨m, .removal r (.asking p answers), c, (advance r p answers' c).2⟩ :: ts)
      (advance r p answers' c).1)
    (hheard : Heard r p answers'
      (⟨m, .removal r (.asking p answers), c, (advance r p answers' c).2⟩ :: ts)) :
    Inquired r reg (⟨m, .removal r (.asking p answers), c, (advance r p answers' c).2⟩ :: ts)
      (advance r p answers' c).1 := by
  have hquiet : Turn.askings
      [⟨m, .removal r (.asking p answers), c, (advance r p answers' c).2⟩] = [] :=
    askings_of_unasked (unasked_advance p answers')
  rcases advance_cases r p answers' c with ⟨_, ha⟩ | ⟨as, rfl, hlen, ha⟩
  · rw [ha] at htraced hquiet ⊢
    refine .asking p answers' htraced ?_
    rw [Turn.askings_cons, hquiet, List.append_nil, hremoves, hlength]
  · rw [ha] at hheard hquiet ⊢
    have hall : Turn.askings ts = requests r p.server := by
      rw [hremoves, ← hlength, List.length_map, hlen, List.take_length]
    obtain rfl : p = plan r reg := h.1
    have hreckons := h.reckons hlen hheard
    refine .owing _ _ [] _ [] _ (.confirming _ _) rfl rfl
      ⟨[], _, ts, as, rfl, hreckons, ⟨hall, hquiet, by simp, fun after y before hsplit => ?_⟩, rfl⟩
    cases after <;> cases hsplit

theorem inquired_resume (h : Inquired r reg ts st) (hm : resume r party st c = some (st', c')) :
    Inquired r reg (⟨.resume, .removal r st, c, c'⟩ :: ts) st' := by
  cases h with
  | asking p answers htraced hremoves =>
    cases resumed hm with
    | asked p answers k next =>
      refine .asking p _ (traced_asked htraced next) ?_
      rw [Turn.askings_cons, hremoves, List.length_append,
        List.length_singleton, requests_take_succ next,
        askings_of_noted [.asked (.remove r.path k)] rfl]
      rfl
    | advanced p answers empty =>
      have hheard := htraced.2.2.2.1.cons (x := ⟨.resume, .removal r (.asking p answers), c,
        (advance r p answers c).2⟩) fun k a he => by cases he
      exact inquired_advance htraced hremoves rfl (traced_resume htraced hm) hheard
  | owing _ o told rest looked ks owes removed cleared traded =>
    obtain ⟨es, rest', ks', rfl, rfl, hturn, hst'⟩ := aftermath_resume owes hm
    have htraded := traded.turn hturn fun hcheck => by
      rw [removed, owes.all_told hcheck, List.append_nil]
    rw [← List.append_assoc] at removed cleared
    rcases hst' with hst' | ⟨rfl, rfl, rfl⟩
    · exact .owing st' o _ rest' _ ks' hst' removed cleared htraded
    · rw [List.append_nil] at removed cleared
      rw [← removed, ← cleared] at htraded
      exact .done o htraded
  | done o traded => cases hm

theorem inquired_answer {slot : Nat} {a : Answer} (h : Inquired r reg ts st)
    (hm : answer r slot a st c = some (st', c')) :
    Inquired r reg (⟨.answer slot a, .removal r st, c, c'⟩ :: ts) st' := by
  cases h with
  | asking p answers htraced hremoves =>
    cases replied hm with
    | advanced p answers awaited =>
      have hserver : slot < p.server.length :=
        Nat.lt_of_lt_of_le (List.getElem?_eq_some_iff.mp awaited).1 htraced.2.1
      have hk := List.getElem?_eq_getElem hserver
      have hnodup : p.server.Nodup := htraced.1 ▸ nodup_server r reg
      have hreply : Turn.reply? ⟨.answer slot a, .removal r (.asking p answers), c,
          (advance r p (answers.set slot (some a)) c).2⟩ = some (.remove r.path _, a) :=
        reply?_asking awaited hk
      have hheard := htraced.2.2.2.1.answered hnodup hreply awaited hk
      exact inquired_advance htraced hremoves List.length_set (traced_answer htraced hm) hheard
  | owing _ o told rest looked ks owes removed cleared traded =>
    obtain ⟨rfl, hchecks, hturn, hst'⟩ := aftermath_answer owes hm
    have htraded := traded.turn hturn fun _ => by rw [removed, List.append_nil]
    rw [hchecks, List.map_nil, List.append_nil, List.append_nil] at htraded
    exact .owing st' o told [] looked ks hst' removed cleared htraded
  | done o traded => cases hm

theorem inquired_move {o o' : Operation} {m : Move} (hm : o.move m party c = some (o', c'))
    (h : ∃ st, o = .removal r st ∧ Inquired r reg ts st) :
    ∃ st', o' = .removal r st' ∧ Inquired r reg (⟨m, o, c, c'⟩ :: ts) st' := by
  obtain ⟨st, rfl, hinquired⟩ := h
  cases Operation.moves hm with
  | removing r st st' c' resume => exact ⟨st', rfl, inquired_resume hinquired resume⟩
  | settling r slot x st st' c' answer => exact ⟨st', rfl, inquired_answer hinquired answer⟩

theorem Unanswered.owes (h : Unanswered ts st) :
    (∃ o rest, st.Owes o rest []) ∨ ∃ result, st = .done result := by
  cases st with
  | asking p answers => cases h
  | confirming rest o => exact .inl ⟨o, rest, h.1 ▸ .confirming rest o⟩
  | checking ks o =>
    obtain rfl := h.1
    exact .inl ⟨o, [], .checking [] o⟩
  | rearming k ks o => cases h
  | done result => exact .inr ⟨result, rfl⟩

/-- With no kind left to be looked at, nothing is asked for. -/
theorem unasked_move {o o' : Operation} {m : Move} (hm : o.move m party c = some (o', c'))
    (h : ∃ st, o = .removal r st ∧ Unanswered ts st ∧ Turn.askings ts = []) :
    ∃ st', o' = .removal r st' ∧ Unanswered (⟨m, o, c, c'⟩ :: ts) st' ∧
      Turn.askings (⟨m, o, c, c'⟩ :: ts) = [] := by
  obtain ⟨st, rfl, hunanswered, hnone⟩ := h
  obtain ⟨st', rfl, hafter⟩ := unanswered_move hm ⟨st, rfl, hunanswered⟩
  refine ⟨st', rfl, hafter, ?_⟩
  have hquiet : Turn.askings [⟨m, .removal r st, c, c'⟩] = [] := by
    rcases hunanswered.owes with ⟨o, rest, howes⟩ | ⟨result, rfl⟩
    · cases Operation.moves hm with
      | removing r st st' c' resume =>
        obtain ⟨es, rest', ks', _, hks, hturn, _⟩ := aftermath_resume howes resume
        have hchecks := List.map_eq_nil_iff.mp (List.append_eq_nil_iff.mp hks.symm).1
        exact hturn.asked.trans (by rw [hchecks]; rfl)
      | settling r slot x st st' c' answer =>
        obtain ⟨_, hchecks, hturn, _⟩ := aftermath_answer howes answer
        exact hturn.asked.trans (by rw [hchecks]; rfl)
    · cases Operation.moves hm with
      | removing r st st' c' resume => cases resume
      | settling r slot x st st' c' answer => cases answer
  rw [Turn.askings_cons, hnone, hquiet]
  rfl

/-- A removal asks for nothing when it begins. -/
theorem unasked_start (r : RemovalRequest) (c : Client) : c.Unasked (start r c).2 := by
  have hsettled : ∀ (c : Client) (result : Except Fault (List Entry)),
      c.Unasked (finish r result c).2 := fun c result =>
    ⟨rfl, rfl, rfl, [.settled r.mode (Client.outcomeOf result)], rfl, by simp⟩
  have hstart := started r c
  generalize start r c = x at hstart ⊢
  cases hstart with
  | invalid | asking => exact .refl c
  | unmatched => exact (Client.Unasked.unregister c _ _ _ _).trans (hsettled _ _)
  | taken => exact .unregister c _ _ _ _
  | idle => exact hsettled c _

theorem Inquired.traced (h : Inquired r reg ts st) : Traced r reg ts st := by
  cases h with
  | asking p answers traced => exact traced
  | owing _ o told rest looked ks owes removed cleared traded =>
    obtain ⟨later, x, earlier, as, rfl, hreckons, _⟩ := traded
    exact Acted.traced ⟨later, x, earlier, as, rfl, hreckons⟩ owes removed
  | done o traded =>
    obtain ⟨later, x, earlier, as, rfl, hreckons, _⟩ := traded
    exact ⟨o, rfl, later, x, earlier, as, rfl, hreckons⟩

/-- What the requests of a removal come to that has not acted upon its answers yet. -/
def Undecided (r : RemovalRequest) (ks : List Kind) (ts : List Turn) (st : Stage) : Prop :=
  Turn.askings ts <+: requests r ks ∧ (∀ y ∈ ts, y.Still) ∧ Turn.sendings ts = [] ∧
    Turn.queuings ts = [] ∧ ∀ result, st = .done result → ks = [] ∧ ts = []

/-- What they come to from then on. The kinds that the server dropped are looked at one after
another, and once the removal has ended they all were. The result was fixed before the first of
them. -/
def Decided (r : RemovalRequest) (p : Plan) (ts : List Turn) (st : Stage) : Prop :=
  ∃ later x earlier es, ts = later ++ x :: earlier ∧ Trades r p.server later x earlier es ∧
    Turn.askings ts = requests r p.server ++ rearmings r (Turn.checks later) ∧
    (rearmings r (Turn.checks later)).map Request.kind =
      ((Turn.checks later).filter fun y => y.2.holders r.path y.1 ≠ []).map Prod.fst ∧
    (Turn.checks later).map Prod.fst <+: p.server.filter (accepted r ts) ∧
    ∀ result, st = .done result →
      (Turn.checks later).map Prod.fst = p.server.filter (accepted r ts) ∧
      result = (reconcile r p (p.server.filterMap (reply? r ts)) x.before).1.result

theorem Traded.decided (h : Traded r p ts o told looked) (hd : ∀ y ∈ ts, y.Delivers)
    (hlooked : looked <+: o.cleared)
    (hdone : ∀ result, st = .done result → looked = o.cleared ∧ result = o.result) :
    Decided r p ts st := by
  obtain ⟨later, x, earlier, as, rfl, hreckons, hexchanges, rfl⟩ := h
  rw [hreckons.cleared_eq] at hlooked hdone
  refine ⟨later, x, earlier, o.removed, rfl, hreckons.trades hexchanges hd, hexchanges.askings,
    kind_rearmings _, hlooked, fun result hresult => ?_⟩
  obtain ⟨hall, hends⟩ := hdone result hresult
  refine ⟨hall, ?_⟩
  rw [← hreckons.answers_eq, hreckons.reckoned]
  exact hends

theorem Inquired.decided (h : Inquired r reg ts st) (hd : ∀ y ∈ ts, y.Delivers) :
    Undecided r (plan r reg).server ts st ∨ Decided r (plan r reg) ts st := by
  cases h with
  | asking p answers traced removes =>
    obtain ⟨rfl, _, _, _, hstill, hsilent⟩ := traced
    refine .inl ⟨?_, hstill, hsilent, Turn.queuings_of_sendings hd hsilent, fun _ => nofun⟩
    rw [removes]
    exact (List.take_prefix _ _).map _
  | owing _ o told rest looked ks owes removed cleared traded =>
    refine .inr (traded.decided hd (cleared ▸ List.prefix_append _ _) fun result hresult => ?_)
    subst hresult
    cases owes
  | done o traded =>
    refine .inr (traded.decided hd (List.prefix_rfl) fun result hresult => ?_)
    exact ⟨rfl, (Stage.done.inj hresult).symm⟩

/-- A removal that settles without the server, or that has no valid path, asks for nothing. -/
theorem unasked_run {s t : Engine} {w : Pursuit} (hs : s.Orderly) (ho : s.client.closed = false)
    (hb : s.Undertakes party r t) (h : Relation.ReflTransGen (Pursuit.Step party) ⟨t, []⟩ w)
    (hlocal : ¬(r.registryOnly = false ∧ Path.isValid r.path = true)) :
    Turn.askings w.turns = [] := by
  obtain ⟨ht, htask, _⟩ := hb.begun hs ho
  obtain ⟨_, o, _, st, _, _, hnone⟩ := Pursuit.tells_run
    (fun o ts => ∃ st, o = .removal r st ∧ Unanswered ts st ∧ Turn.askings ts = []) ht htask
    ⟨_, rfl, unanswered_start hlocal s.client, rfl⟩
    (fun m o o' c c' ts hm htells => unasked_move hm htells) h
  exact hnone

/-- All that a removal asks for, from when it is taken up, with anything going on in between. If it
settles without the server, or its path is not valid, it asks for nothing. Otherwise the kinds that it
asks to drop are those due in the registry it was taken up with, each once, `data` first. It asks
about all of them before it acts upon an answer, and until then it changes nothing. Then its entries
go and are confirmed, the kinds that the server dropped are looked at in their order, and one that is
held by then is armed again, by a read of its kind. There are no other requests, and what becomes of
the latter ones does not matter to the result. -/
theorem removal_requests_exact {s t : Engine} {w : Pursuit} (hs : s.Orderly)
    (ho : s.client.closed = false) (hb : s.Undertakes party r t)
    (h : Relation.ReflTransGen (Pursuit.Step party) ⟨t, []⟩ w) :
    t.client.history = s.client.history ∧
    (¬(r.registryOnly = false ∧ Path.isValid r.path = true) → Turn.askings w.turns = []) ∧
    (r.registryOnly = false → Path.isValid r.path = true →
      (plan r s.client.registry).server.Sublist [.data, .children] ∧
      (∀ k, k ∈ (plan r s.client.registry).server ↔ Due r s.client.registry k) ∧
      ∃ st, w.engine.task? party = some (.removal r st) ∧
        ((∃ result, st = .done result) ∨ Proceeds r party st w.engine.client) ∧
        (Undecided r (plan r s.client.registry).server w.turns st ∨
          Decided r (plan r s.client.registry) w.turns st)) := by
  refine ⟨?_, unasked_run hs ho hb h, fun hremote hvalid => ?_⟩
  · obtain ⟨_, _, hclient⟩ := hb.begun hs ho
    rw [hclient]
    exact (unasked_start r s.client).history
  refine ⟨sublist_server r _, fun k => mem_server_plan, ?_⟩
  have hbegin : Traced r s.client.registry [] (.asking (plan r s.client.registry) []) →
      Inquired r s.client.registry [] (.asking (plan r s.client.registry) []) :=
    fun htraced => .asking _ _ htraced rfl
  obtain ⟨st, hst, hempty | hinquired⟩ := remote_run hs ho hremote hvalid hb hbegin
    (fun _ _ _ _ _ _ hm htells => inquired_move hm htells) h
  · obtain ⟨hserver, _, hturns, rfl⟩ := hempty
    refine ⟨_, hst, .inl ⟨_, rfl⟩, .inl ?_⟩
    rw [hserver, hturns]
    exact ⟨List.prefix_rfl, by simp, rfl, rfl, fun _ _ => ⟨rfl, rfl⟩⟩
  · obtain ⟨ht, htask, _⟩ := hb.begun hs ho
    refine ⟨st, hst, ?_, hinquired.decided (Pursuit.delivers_run ht htask h)⟩
    by_cases hd : ∃ result, st = .done result
    · exact .inl hd
    · exact .inr (hinquired.traced.proceeds (fun result he => hd ⟨result, he⟩) _)

/-- While the removal's two requests are under way somebody registers one of the kinds. Both are
dropped, and then the connection is lost. -/
def newcomerScript : List Engine.Action :=
  [.resume (.caller 2), .resume (.caller 2),
    .begin (.arm ⟨.listing, "/a", .watcher (.named "u")⟩),
    .answer (.caller 3) 0 (.ok (.listing [])), .answer (.caller 2) 0 (.ok .removed),
    .answer (.caller 2) 1 (.ok .removed), .resume (.caller 2), .resume (.caller 2),
    .resume (.caller 2), .resume (.caller 2), .resume (.caller 2),
    .answer (.caller 2) 0 (.error .connectionLoss), .resume (.caller 2)]

/-- Somebody registers one of the kinds while the only subscriber of both is being removed. Both are
dropped, and that one is armed again; that the server cannot be reached then makes no difference. -/
theorem newcomer_armed_again :
    ∃ (s t : Engine) (w : Pursuit), s.Orderly ∧ s.client.closed = false ∧
      s.Undertakes (.caller 2) soleRemoval t ∧
      Relation.ReflTransGen (Pursuit.Step (.caller 2)) ⟨t, []⟩ w ∧
      w.engine.task? (.caller 2) = some (.removal soleRemoval
        (.done (.ok [⟨"/a", .data, .watcher (.named "w")⟩,
          ⟨"/a", .children, .watcher (.named "w")⟩]))) ∧
      Turn.askings w.turns =
        [.remove "/a" .data, .remove "/a" .children, .register "/a" .listing] ∧
      Decided soleRemoval (plan soleRemoval s.client.registry) w.turns
        (.done (.ok [⟨"/a", .data, .watcher (.named "w")⟩,
          ⟨"/a", .children, .watcher (.named "w")⟩])) := by
  have hplays : playsOut (armBoth "w") 2 soleRemoval newcomerScript (fun _ w => decide (
      (w.engine.task? (.caller 2)).bind Operation.ending? =
        some (soleRemoval, .ok [⟨"/a", .data, .watcher (.named "w")⟩,
          ⟨"/a", .children, .watcher (.named "w")⟩]) ∧
      Turn.askings w.turns =
        [.remove "/a" .data, .remove "/a" .children, .register "/a" .listing])) = true := by
    decide +kernel
  obtain ⟨s, t, w, hs, ho, hb, h, hcheck⟩ := run_of_playsOut hplays
  obtain ⟨hended, haskings⟩ := of_decide_eq_true hcheck
  have htask := Engine.task?_of_ending? hended
  obtain ⟨_, _, hexact⟩ := removal_requests_exact hs.orderly ho hb h
  obtain ⟨_, _, st, hst, _, hstage⟩ := hexact rfl (by decide)
  obtain rfl := (Operation.removal.inj (Option.some.inj (hst.symm.trans htask))).2
  refine ⟨s, t, w, hs.orderly, ho, hb, h, htask, haskings, ?_⟩
  refine hstage.resolve_left fun hundecided => ?_
  obtain ⟨_, _, _, _, hnothing⟩ := hundecided
  rw [(hnothing _ rfl).2] at haskings
  cases haskings

end Removal

end NodeWatch
