import NodeWatch.Proofs.EntryConservation
import NodeWatch.Proofs.RemovalProgress
import NodeWatch.Proofs.RemovalReckoning
import NodeWatch.Proofs.OperationTurns

/-! One removal among whatever else goes on. The registry it plans by, the registry it finds when the
last answer comes in, and the answers are not bound to each other in any way; what it takes out, what
it confirms and what it says in the end follow from these three alone. -/

namespace NodeWatch

/-- The turn changed nothing in the registry. -/
def Turn.Still (x : Turn) : Prop :=
  x.after.registry = x.before.registry ∧ Turn.takings [x] = []

/-- A party that has to wait is in line, and was not given a place. -/
theorem Queue.stalls_of_lined {α : Type} {q q' : Queue α} {p : Party} {x : α}
    (h : q.offer p x = .mustWait q') : q'.stalls p = true := by
  simp only [offer] at h
  split at h
  · cases h
  · rename_i hopen
    split at h
    · cases h
    · rename_i hadmitted
      split at h
      · rename_i hline
        obtain rfl := Offer.mustWait.inj h
        simp_all [stalls]
      · split at h
        · cases h
        · obtain rfl := Offer.mustWait.inj h
          simp_all [stalls]

namespace Engine

/-- A party takes a removal up: a caller who asks for it, or the background worker who received it. -/
inductive Undertakes (s : Engine) : Party → RemovalRequest → Engine → Prop
  | called (r : RemovalRequest) (t : Engine) (act : act (.begin (.remove r)) s = some t) :
    Undertakes s (.caller s.nextCall) r t
  | received (b : BackgroundRemoval) (t : Engine) (worker : s.worker = .received b)
    (act : act .turn s = some t) : Undertakes s .remover b.request t

theorem Undertakes.begun {s t : Engine} {p : Party} {r : RemovalRequest} (h : s.Undertakes p r t)
    (hs : s.Orderly) (ho : s.client.closed = false) :
    t.Orderly ∧ t.task? p = some (.removal r (Removal.start r s.client).1) ∧
      t.client = (Removal.start r s.client).2 := by
  have hstart := Operation.start_remove ho r
  cases h with
  | called r t hact =>
    have ht := orderly_act hs hact
    simp only [act, begin] at hact
    split at hact
    · obtain rfl := Option.some.inj hact
      rw [hstart]
      exact ⟨hstart ▸ ht, (task?_begun hs _ _ _).trans (if_pos rfl), rfl⟩
    · cases hact
  | received b t worker hact =>
    refine ⟨orderly_act hs hact, ?_⟩
    cases act_change ho hact with
    | undertook b' worker' =>
      obtain rfl := Worker.received.inj (worker.symm.trans worker')
      exact ⟨rfl, rfl⟩
    | moved p m o o' c action => cases m <;> cases action
    | took b' q idle => cases worker.symm.trans idle
    | retired idle => cases worker.symm.trans idle
    | stirred w action same =>
      rw [worker] at same
      cases same

end Engine

namespace Removal

variable {r : RemovalRequest} {p : Plan} {reg : Registry} {party : Party} {c c' : Client}
  {st st' : Stage} {ts : List Turn} {o : Settlement} {told es : List Entry}

/-- What the server answered when it was asked to drop a kind. -/
def reply? (r : RemovalRequest) (ts : List Turn) (k : Kind) : Option Answer :=
  Turn.answer? ts (.remove r.path k)

/-- A kind that the server was to be asked about has no answer. -/
def Outstanding (r : RemovalRequest) (p : Plan) (ts : List Turn) : Prop :=
  ∃ k ∈ p.server, reply? r ts k = none

/-- The answers are those that came in, and no other kind was asked about. -/
structure Heard (r : RemovalRequest) (p : Plan) (answers : List (Option Answer)) (ts : List Turn) :
    Prop where
  slots : ∀ (i : Nat) k, p.server[i]? = some k → reply? r ts k = (answers[i]?).join
  mem : ∀ k a, reply? r ts k = some a → k ∈ p.server

theorem server_plan (r : RemovalRequest) (reg : Registry) :
    (plan r reg).server.Sublist r.kind.kinds := by
  unfold plan
  split
  · have hfilter : ∀ (f : Kind → Bool) (l : List Kind),
        ((l.map fun k => (k, f k)).filter fun x => x.2).map Prod.fst = l.filter f := by
      intro f l
      rw [List.filter_map, List.map_map]
      exact (List.map_congr_left fun _ _ => rfl).trans (List.map_id _)
    dsimp only
    rw [Registry.subscriberKinds, hfilter]
    exact List.filter_sublist.trans List.filter_sublist
  · split
    · rename_i k hk
      rw [hk]
      exact List.Sublist.refl _
    · rename_i hk
      rw [hk]
      split
      · exact List.Sublist.refl _
      · exact List.filter_sublist

theorem nodup_server (r : RemovalRequest) (reg : Registry) : (plan r reg).server.Nodup := by
  refine List.Nodup.sublist (server_plan r reg) ?_
  cases r.kind with
  | only k => exact List.nodup_singleton k
  | any => decide

theorem heard_nil (r : RemovalRequest) (p : Plan) : Heard r p [] [] :=
  ⟨fun _ _ _ => rfl, fun _ _ => nofun⟩

theorem outstanding_of_incomplete {answers : List (Option Answer)} (h : Heard r p answers ts)
    (hl : answers.length ≤ p.server.length) (hn : complete? p answers = none) :
    Outstanding r p ts := by
  rcases Nat.lt_or_eq_of_le hl with hlt | heq
  · refine ⟨p.server[answers.length], List.getElem_mem hlt, ?_⟩
    rw [h.slots _ _ (List.getElem?_eq_getElem hlt), List.getElem?_eq_none_iff.mpr le_rfl]
    rfl
  · obtain ⟨i, hi⟩ := exists_awaited heq hn
    have hlt : i < p.server.length := heq ▸ (List.getElem?_eq_some_iff.mp hi).1
    refine ⟨p.server[i], List.getElem_mem hlt, ?_⟩
    rw [h.slots _ _ (List.getElem?_eq_getElem hlt), hi]
    rfl

theorem not_outstanding_of_heard {as : List Answer} (h : Heard r p (as.map some) ts)
    (hl : as.length = p.server.length) : ¬Outstanding r p ts := by
  rintro ⟨k, hk, hnone⟩
  obtain ⟨i, hi⟩ := List.mem_iff_getElem?.mp hk
  have hlt : i < as.length := hl ▸ (List.getElem?_eq_some_iff.mp hi).1
  rw [h.slots i k hi, List.getElem?_map, List.getElem?_eq_getElem hlt] at hnone
  cases hnone

/-- With all answers in, they are read off the turns. -/
theorem mem_zip_iff_reply {as : List Answer} (h : Heard r p (as.map some) ts) {k : Kind}
    {a : Answer} : (k, a) ∈ p.server.zip as ↔ reply? r ts k = some a := by
  rw [List.mem_iff_getElem?]
  simp only [List.getElem?_zip_eq_some]
  constructor
  · rintro ⟨i, hk, ha⟩
    rw [h.slots i k hk, List.getElem?_map, ha]
    rfl
  · intro hreply
    obtain ⟨i, hi⟩ := List.mem_iff_getElem?.mp (h.mem k a hreply)
    refine ⟨i, hi, ?_⟩
    rw [h.slots i k hi, List.getElem?_map] at hreply
    cases ha : as[i]? with
    | none =>
      rw [ha] at hreply
      cases hreply
    | some b =>
      rw [ha] at hreply
      exact hreply

theorem reply?_cons (x : Turn) (h : ∀ k a, x.reply? ≠ some (.remove r.path k, a)) (ts : List Turn)
    (k : Kind) : reply? r (x :: ts) k = reply? r ts k := by
  cases hx : x.reply? with
  | none => exact Turn.answer?_cons_of_none hx ts _
  | some y =>
    obtain ⟨q, a⟩ := y
    have hne : Request.remove r.path k ≠ q := fun he => h k a (he ▸ hx)
    exact (Turn.answer?_cons hx ts _).trans (if_neg hne)

theorem Heard.cons {answers : List (Option Answer)} (h : Heard r p answers ts) {x : Turn}
    (hx : ∀ k a, x.reply? ≠ some (.remove r.path k, a)) : Heard r p answers (x :: ts) :=
  ⟨fun i k hk => (reply?_cons x hx ts k).trans (h.slots i k hk),
    fun k a hk => h.mem k a ((reply?_cons x hx ts k).symm.trans hk)⟩

/-- Another request is made, and has no answer yet. -/
theorem Heard.appended {answers : List (Option Answer)} (h : Heard r p answers ts) :
    Heard r p (answers ++ [none]) ts := by
  refine ⟨fun i k hk => ?_, h.mem⟩
  rw [h.slots i k hk, List.getElem?_append]
  split
  · rfl
  · rename_i hi
    rw [List.getElem?_eq_none_iff.mpr (Nat.le_of_not_lt hi), List.getElem?_singleton]
    split <;> rfl

theorem complete?_append_none (answers : List (Option Answer)) :
    complete? p (answers ++ [none]) = none := by
  cases hc : complete? p (answers ++ [none]) with
  | none => rfl
  | some as =>
    have hlast := congrArg List.getLast? (complete?_eq_some.mp hc).1
    rw [List.getLast?_concat, List.getLast?_map] at hlast
    cases hg : as.getLast? <;> simp [hg] at hlast

/-- The turn in which an answer is acted upon tells which request was answered. -/
theorem reply?_asking {answers : List (Option Answer)} {slot : Nat} {a : Answer} {k : Kind}
    (hslot : answers[slot]? = some none) (hk : p.server[slot]? = some k) :
    Turn.reply? ⟨.answer slot a, .removal r (.asking p answers), c, c'⟩ =
      some (.remove r.path k, a) := by
  simp [Turn.reply?, Operation.waits, waits, List.getElem?_zipWith, hslot, hk]

theorem Heard.answered {answers : List (Option Answer)} {slot : Nat} {a : Answer} {k : Kind}
    (h : Heard r p answers ts) (hp : p.server.Nodup) {x : Turn}
    (hx : x.reply? = some (.remove r.path k, a)) (hslot : answers[slot]? = some none)
    (hk : p.server[slot]? = some k) : Heard r p (answers.set slot (some a)) (x :: ts) := by
  have hreply : ∀ k', reply? r (x :: ts) k' = if k' = k then some a else reply? r ts k' := by
    intro k'
    refine (Turn.answer?_cons hx ts _).trans ?_
    simp only [Request.remove.injEq, true_and, reply?]
  refine ⟨fun i k' hk' => ?_, fun k' b hb => ?_⟩
  · obtain ⟨hlt, _⟩ := List.getElem?_eq_some_iff.mp hslot
    rw [hreply]
    by_cases hi : i = slot
    · subst hi
      rw [if_pos (Option.some.inj (hk'.symm.trans hk)), List.getElem?_set_self hlt]
      rfl
    · have hne : k' ≠ k := by
        rintro rfl
        obtain ⟨hi₁, hget₁⟩ := List.getElem?_eq_some_iff.mp hk
        obtain ⟨hi₂, hget₂⟩ := List.getElem?_eq_some_iff.mp hk'
        exact hi ((List.Nodup.getElem_inj_iff hp).mp (hget₂.trans hget₁.symm))
      rw [if_neg hne, List.getElem?_set_ne (Ne.symm hi)]
      exact h.slots i k' hk'
  · rw [hreply] at hb
    split at hb
    · rename_i he
      rw [he]
      exact List.mem_of_getElem? hk
    · exact h.mem k' b hb

/-- The reckoning was made in one of the turns, on the last answer, and these entries were told of
since. -/
structure Reckons (r : RemovalRequest) (p : Plan) (later : List Turn) (x : Turn)
    (earlier : List Turn) (as : List Answer) (o : Settlement) (told : List Entry) : Prop where
  all : as.length = p.server.length
  heard : Heard r p (as.map some) (later ++ x :: earlier)
  first : p.server ≠ [] → Outstanding r p earlier
  last : ¬Outstanding r p (x :: earlier)
  reckoned : reconcile r p as x.before = (o, x.after)
  still : ∀ y ∈ later ++ earlier, y.Still
  silent : Turn.sendings earlier = []
  sent : Turn.sendings later = confirmations told

def Acted (r : RemovalRequest) (p : Plan) (ts : List Turn) (o : Settlement) (told : List Entry) :
    Prop :=
  ∃ later x earlier as, ts = later ++ x :: earlier ∧ Reckons r p later x earlier as o told

/-- How far a removal has come, given the registry it was planned by and its turns. -/
def Traced (r : RemovalRequest) (reg : Registry) (ts : List Turn) : Stage → Prop
  | .asking p answers => p = plan r reg ∧ answers.length ≤ p.server.length ∧
    (complete? p answers = none ∨ p.server = []) ∧ Heard r p answers ts ∧
    (∀ y ∈ ts, y.Still) ∧ Turn.sendings ts = []
  | .confirming rest o => ∃ told, o.removed = told ++ rest ∧ Acted r (plan r reg) ts o told
  | .checking _ o | .rearming _ _ o => Acted r (plan r reg) ts o o.removed
  | .done result => ∃ o : Settlement, result = o.result ∧ Acted r (plan r reg) ts o o.removed

theorem confirmations_append (es es' : List Entry) :
    confirmations (es ++ es') = confirmations es ++ confirmations es' :=
  List.map_append

theorem still_cons {y : Turn} (hy : y.Still) (h : ∀ z ∈ ts, z.Still) : ∀ z ∈ y :: ts, z.Still := by
  intro z hz
  rcases List.mem_cons.mp hz with rfl | hz
  · exact hy
  · exact h z hz

theorem silent_cons {y : Turn} (hy : Turn.sendings [y] = []) (h : Turn.sendings ts = []) :
    Turn.sendings (y :: ts) = [] := by
  rw [Turn.sendings_cons, h, hy]
  rfl

/-- The requests that arm the kinds again that are held when they are looked at. -/
def rearmings (r : RemovalRequest) (checks : List (Kind × Registry)) : List Request :=
  (checks.filter fun x => x.2.holders r.path x.1 ≠ []).map fun x =>
    .register r.path (.rearming x.1)

/-- A turn after the reckoning, in which these entries are told of and nothing changes. If a kind is
looked at that is held, it is armed again, and nothing else is asked for. -/
structure Aftermath (r : RemovalRequest) (y : Turn) (es : List Entry) : Prop where
  reply : ∀ k a, y.reply? ≠ some (.remove r.path k, a)
  still : y.Still
  sent : Turn.sendings [y] = confirmations es
  asked : Turn.askings [y] = rearmings r (Turn.checks [y])

theorem Reckons.turn {later earlier : List Turn} {x y : Turn} {as : List Answer}
    (h : Reckons r p later x earlier as o told) (hy : Aftermath r y es) :
    Reckons r p (y :: later) x earlier as o (told ++ es) := by
  refine ⟨h.all, h.heard.cons hy.reply, h.first, h.last, h.reckoned, still_cons hy.still h.still,
    h.silent, ?_⟩
  rw [Turn.sendings_cons, h.sent, hy.sent, confirmations_append]

theorem Acted.turn {y : Turn} (h : Acted r p ts o told) (hy : Aftermath r y es) :
    Acted r p (y :: ts) o (told ++ es) := by
  obtain ⟨later, x, earlier, as, rfl, hx⟩ := h
  exact ⟨y :: later, x, earlier, as, rfl, hx.turn hy⟩

theorem still_of_noted {y : Turn} (os : List Occurrence)
    (hr : y.after.registry = y.before.registry) (hj : y.after.journal = os ++ y.before.journal)
    (ht : takings os.reverse = []) : y.Still := by
  refine ⟨hr, ?_⟩
  rw [Turn.takings, List.flatMap_singleton, Turn.noted_eq hj, ht]

theorem askings_of_noted {y : Turn} (os : List Occurrence)
    (hj : y.after.journal = os ++ y.before.journal) :
    Turn.askings [y] = Client.askings os := by
  rw [Turn.askings, List.flatMap_singleton, Turn.noted_eq hj]

theorem aftermath_of_noted {y : Turn} (os : List Occurrence)
    (hreply : ∀ k a, y.reply? ≠ some (.remove r.path k, a))
    (hr : y.after.registry = y.before.registry) (hj : y.after.journal = os ++ y.before.journal)
    (ht : takings os.reverse = []) (hs : Client.sendings os = confirmations es)
    (ha : Client.askings os = rearmings r (Turn.checks [y])) : Aftermath r y es :=
  ⟨hreply, still_of_noted os hr hj ht, (Turn.sendings_singleton _ hj).trans hs,
    (askings_of_noted os hj).trans ha⟩

/-- The settlement that a removal has come to, with the entries still to be told of and the kinds
still to be looked at. -/
inductive Stage.Owes : Stage → Settlement → List Entry → List Kind → Prop
  | confirming (rest : List Entry) (o : Settlement) : Owes (.confirming rest o) o rest o.cleared
  | checking (ks : List Kind) (o : Settlement) : Owes (.checking ks o) o [] ks
  | rearming (k : Kind) (ks : List Kind) (o : Settlement) : Owes (.rearming k ks o) o [] ks

/-- The next entry is told of, unless there is no place on the queue. -/
theorem aftermath_telling (e : Entry) (es : List Entry) (o : Settlement) (c : Client) :
    Aftermath r ⟨.resume, .removal r (.confirming (e :: es) o), c,
        (c.send party (.removed e .syncConnected)).2⟩
      (if (c.send party (.removed e .syncConnected)).1 then [e] else []) := by
  have hsent := c.sent party (.removed e .syncConnected)
  generalize c.send party (.removed e .syncConnected) = x at hsent ⊢
  obtain ⟨done, c₁⟩ := x
  have hreply : ∀ k a, Turn.reply? ⟨.resume, .removal r (.confirming (e :: es) o), c, c₁⟩ ≠
      some (.remove r.path k, a) := fun k a he => by cases he
  cases hsent with
  | dropped =>
    exact aftermath_of_noted [.dropped (.removed e .syncConnected), .remarked .deliveryDropped]
      hreply rfl rfl rfl rfl rfl
  | queued =>
    exact aftermath_of_noted [.queued (.removed e .syncConnected)] hreply rfl rfl rfl rfl rfl
  | lined => exact aftermath_of_noted [] hreply rfl rfl rfl rfl rfl

theorem rearmings_singleton (k : Kind) [Decidable ((⟨r.path, k⟩ : Session.Spot) ∈ reg.spots)] :
    rearmings r [(k, reg)] =
      if (⟨r.path, k⟩ : Session.Spot) ∈ reg.spots then [.register r.path (.rearming k)] else [] := by
  have hheld : (⟨r.path, k⟩ : Session.Spot) ∈ reg.spots ↔ reg.holders r.path k ≠ [] := by
    rw [Registry.mem_spots, ne_eq, List.eq_nil_iff_forall_not_mem, not_forall_not]
  by_cases h : reg.holders r.path k = [] <;> simp [rearmings, hheld, h]

/-- Before a kind is looked at, all that was taken out is told of. -/
theorem Stage.Owes.all_told {m : Move} {rest : List Entry} {ks : List Kind} (h : st.Owes o rest ks)
    (hcheck : (Turn.check? ⟨m, .removal r st, c, c'⟩).isSome) : rest = [] := by
  cases h with
  | confirming rest o => cases m <;> cases hcheck
  | checking | rearming => rfl

theorem aftermath_resume {rest : List Entry} {ks : List Kind} (h : st.Owes o rest ks)
    (hm : resume r party st c = some (st', c')) :
    ∃ es rest' ks', rest = es ++ rest' ∧
      ks = (Turn.checks [⟨.resume, .removal r st, c, c'⟩]).map Prod.fst ++ ks' ∧
      Aftermath r ⟨.resume, .removal r st, c, c'⟩ es ∧
      (st'.Owes o rest' ks' ∨ rest' = [] ∧ ks' = [] ∧ st' = .done o.result) := by
  have hreply : ∀ k a, Turn.reply? ⟨.resume, .removal r st, c, c'⟩ ≠
      some (.remove r.path k, a) := fun k a he => by cases he
  cases resumed hm with
  | asked | advanced => cases h
  | told o =>
    cases h
    exact ⟨[], [], _, rfl, rfl, aftermath_of_noted [] hreply rfl rfl rfl rfl rfl,
      .inl (.checking _ o)⟩
  | telling e es o =>
    cases h
    refine ⟨_, _, _, ?_, rfl, aftermath_telling e es o c, .inl (.confirming _ o)⟩
    split <;> rfl
  | finished o result ended =>
    cases h
    refine ⟨[], [], [], rfl, rfl, ?_, .inr ⟨rfl, rfl, by rw [ended]⟩⟩
    exact aftermath_of_noted [.settled r.mode (Client.outcomeOf result)] hreply rfl rfl rfl rfl
      rfl
  | passed k ks o unheld =>
    cases h
    have hnone : rearmings r [(k, c.registry)] = [] := by
      classical exact (rearmings_singleton k).trans (if_neg unheld)
    refine ⟨[], [], ks, rfl, rfl, ?_, .inl (.checking ks o)⟩
    exact aftermath_of_noted [] hreply rfl rfl rfl rfl hnone.symm
  | rearming k ks o held =>
    cases h
    have hone : rearmings r [(k, c.registry)] = [.register r.path (.rearming k)] := by
      classical exact (rearmings_singleton k).trans (if_pos held)
    refine ⟨[], [], ks, rfl, rfl, ?_, .inl (.rearming k ks o)⟩
    exact aftermath_of_noted
      [.asked (.register r.path (.rearming k)), .remarked (.rearming r.path k)] hreply rfl rfl rfl
      rfl hone.symm

theorem aftermath_answer {slot : Nat} {a : Answer} {rest : List Entry} {ks : List Kind}
    (h : st.Owes o rest ks) (hm : answer r slot a st c = some (st', c')) :
    rest = [] ∧ Turn.checks [⟨.answer slot a, .removal r st, c, c'⟩] = [] ∧
      Aftermath r ⟨.answer slot a, .removal r st, c, c'⟩ [] ∧ st'.Owes o [] ks := by
  cases h with
  | confirming | checking => cases hm
  | rearming k ks o =>
    have hreply : ∀ k' a', Turn.reply? ⟨.answer slot a, .removal r (.rearming k ks o), c, c'⟩ ≠
        some (.remove r.path k', a') := by
      intro k' a' he
      cases slot with
      | zero => cases he
      | succ n => cases he
    obtain ⟨rfl, hc⟩ := answered_rearming hm
    refine ⟨rfl, rfl, ?_, .checking ks o⟩
    rcases hc with rfl | ⟨m, rfl⟩
    · exact aftermath_of_noted [] hreply rfl rfl rfl rfl rfl
    · exact aftermath_of_noted [.remarked m] hreply rfl rfl rfl rfl rfl

theorem Traced.acted_of_owes {rest : List Entry} {ks : List Kind} (h : Traced r reg ts st)
    (hst : st.Owes o rest ks) :
    ∃ told, o.removed = told ++ rest ∧ Acted r (plan r reg) ts o told := by
  cases hst with
  | confirming => exact h
  | checking | rearming => exact ⟨o.removed, (List.append_nil _).symm, h⟩

theorem Acted.traced {rest : List Entry} {ks : List Kind} (h : Acted r (plan r reg) ts o told)
    (hst : st.Owes o rest ks) (htold : o.removed = told ++ rest) : Traced r reg ts st := by
  cases hst with
  | confirming => exact ⟨told, htold, h⟩
  | checking | rearming =>
    rw [List.append_nil] at htold
    rw [← htold] at h
    exact h

/-- The last answer has come in. -/
theorem Traced.reckons {m : Move} {answers : List (Option Answer)} {as : List Answer}
    (h : Traced r reg ts (.asking p answers)) (hlen : as.length = p.server.length)
    (hheard : Heard r p (as.map some)
      (⟨m, .removal r (.asking p answers), c, (reconcile r p as c).2⟩ :: ts)) :
    Reckons r (plan r reg) [] ⟨m, .removal r (.asking p answers), c, (reconcile r p as c).2⟩ ts as
      (reconcile r p as c).1 [] := by
  obtain ⟨rfl, hshort, hwanting, hbefore, hstill, hsilent⟩ := h
  refine ⟨hlen, hheard, fun hne => ?_, not_outstanding_of_heard hheard hlen, rfl, hstill, hsilent,
    rfl⟩
  exact outstanding_of_incomplete hbefore hshort (hwanting.resolve_right hne)

theorem traced_advance {m : Move} {answers answers' : List (Option Answer)}
    (h : Traced r reg ts (.asking p answers)) (hl : answers'.length ≤ p.server.length)
    (hc : p.server = [] → complete? p answers' ≠ none)
    (hheard : Heard r p answers'
      (⟨m, .removal r (.asking p answers), c, (advance r p answers' c).2⟩ :: ts)) :
    Traced r reg (⟨m, .removal r (.asking p answers), c, (advance r p answers' c).2⟩ :: ts)
      (advance r p answers' c).1 := by
  rcases advance_cases r p answers' c with ⟨hn, ha⟩ | ⟨as, rfl, hlen, ha⟩
  · obtain ⟨rfl, _, _, _, hstill, hsilent⟩ := h
    rw [ha] at hheard ⊢
    exact ⟨rfl, hl, .inl hn, hheard, still_cons (still_of_noted [] rfl rfl rfl) hstill,
      silent_cons (Turn.sendings_singleton [] rfl) hsilent⟩
  · rw [ha] at hheard ⊢
    exact ⟨[], rfl, [], _, ts, as, rfl, h.reckons hlen hheard⟩

theorem traced_asked {answers : List (Option Answer)} {k : Kind}
    (h : Traced r reg ts (.asking p answers)) (hk : p.server[answers.length]? = some k) :
    Traced r reg
      (⟨.resume, .removal r (.asking p answers), c, c.submit (.remove r.path k)⟩ :: ts)
      (.asking p (answers ++ [none])) := by
  obtain ⟨rfl, _, _, hheard, hstill, hsilent⟩ := h
  obtain ⟨hlt, _⟩ := List.getElem?_eq_some_iff.mp hk
  refine ⟨rfl, ?_, .inl (complete?_append_none answers),
    (hheard.cons fun k a he => by cases he).appended, ?_, ?_⟩
  · rw [List.length_append, List.length_singleton]
    exact hlt
  · exact still_cons (still_of_noted [.asked (.remove r.path k)] rfl rfl rfl) hstill
  · exact silent_cons (Turn.sendings_singleton [.asked (.remove r.path k)] rfl) hsilent

theorem traced_resume (h : Traced r reg ts st)
    (hm : resume r party st c = some (st', c')) :
    Traced r reg (⟨.resume, .removal r st, c, c'⟩ :: ts) st' := by
  have hlater : ∀ o rest ks, st.Owes o rest ks →
      Traced r reg (⟨.resume, .removal r st, c, c'⟩ :: ts) st' := by
    intro o rest ks hst
    obtain ⟨told, htold, hacted⟩ := h.acted_of_owes hst
    obtain ⟨es, rest', ks', rfl, _, hturn, hst' | ⟨rfl, _, rfl⟩⟩ := aftermath_resume hst hm
    · exact (hacted.turn hturn).traced hst' (by rw [htold, List.append_assoc])
    · rw [List.append_nil] at htold
      exact ⟨o, rfl, htold ▸ hacted.turn hturn⟩
  cases resumed hm with
  | asked p answers k next => exact traced_asked h next
  | advanced p answers empty =>
    have hnil : answers = [] := by
      have hshort := h.2.1
      rw [empty] at hshort
      exact List.length_eq_zero_iff.mp (Nat.le_zero.mp hshort)
    have hall : complete? p answers = some [] :=
      complete?_eq_some.mpr ⟨by simp [hnil], by simp [empty]⟩
    refine traced_advance h h.2.1 (fun _ hn => ?_) (h.2.2.2.1.cons fun k a he => by cases he)
    rw [hall] at hn
    cases hn
  | told o => exact hlater _ _ _ (.confirming [] o)
  | telling e es o => exact hlater _ _ _ (.confirming (e :: es) o)
  | finished o result ended => exact hlater _ _ _ (.checking [] o)
  | passed k ks o unheld => exact hlater _ _ _ (.checking (k :: ks) o)
  | rearming k ks o held => exact hlater _ _ _ (.checking (k :: ks) o)

theorem traced_answer {slot : Nat} {a : Answer} (h : Traced r reg ts st)
    (hm : answer r slot a st c = some (st', c')) :
    Traced r reg (⟨.answer slot a, .removal r st, c, c'⟩ :: ts) st' := by
  cases st with
  | asking p answers =>
    cases replied hm with
    | advanced p answers awaited =>
      have hserver : slot < p.server.length :=
        Nat.lt_of_lt_of_le (List.getElem?_eq_some_iff.mp awaited).1 h.2.1
      have hk := List.getElem?_eq_getElem hserver
      refine traced_advance h (by rw [List.length_set]; exact h.2.1) (fun he => ?_) ?_
      · rw [he] at hserver
        cases hserver
      · exact h.2.2.2.1.answered (h.1 ▸ nodup_server r reg) (reply?_asking awaited hk) awaited hk
  | rearming k ks o =>
    obtain ⟨_, _, hturn, hst'⟩ := aftermath_answer (.rearming k ks o) hm
    have hacted : Acted r (plan r reg) _ o (o.removed ++ []) := Acted.turn h hturn
    exact hacted.traced hst' (by simp)
  | confirming rest o => cases hm
  | checking ks o => cases hm
  | done result => cases hm

theorem traced_move {o o' : Operation} {m : Move} (hm : o.move m party c = some (o', c'))
    (h : ∃ st, o = .removal r st ∧ Traced r reg ts st) :
    ∃ st', o' = .removal r st' ∧ Traced r reg (⟨m, o, c, c'⟩ :: ts) st' := by
  obtain ⟨st, rfl, htraced⟩ := h
  cases Operation.moves hm with
  | removing r st st' c' resume => exact ⟨st', rfl, traced_resume htraced resume⟩
  | settling r slot x st st' c' answer => exact ⟨st', rfl, traced_answer htraced answer⟩

/-- Until it ends a removal waits for an answer, is in line for the queue of deliveries, or can go
on, and has less before it then, or has lined up. -/
def Proceeds (r : RemovalRequest) (party : Party) (st : Stage) (c : Client) : Prop :=
  Advances r party st c ∨ Awaits r st c ∨ c.deliveries.stalls party = true ∨
    ∃ c', resume r party st c = some (st, c') ∧ c'.deliveries.stalls party = true

theorem resume_telling {e : Entry} (es : List Entry) (h : ¬c.deliveries.stalls party = true) :
    resume r party (.confirming (e :: es) o) c =
      some (.confirming (if (c.send party (.removed e .syncConnected)).1 then es else e :: es) o,
        (c.send party (.removed e .syncConnected)).2) := by
  simp only [resume, if_neg h]
  split
  all_goals
    rename_i hs
    rw [hs]
    rfl

theorem Stage.Owes.proceeds {rest : List Entry} {ks : List Kind} (h : st.Owes o rest ks)
    (c : Client) : Proceeds r party st c := by
  cases h with
  | confirming rest o =>
    cases rest with
    | nil => exact .inl ⟨_, _, rfl, Prod.Lex.left _ _ (Nat.lt_succ_self 1)⟩
    | cons e es =>
      by_cases hstalls : c.deliveries.stalls party = true
      · exact .inr (.inr (.inl hstalls))
      · have hless : (Stage.confirming es o).rank < (Stage.confirming (e :: es) o).rank :=
          Prod.Lex.toLex_lt_toLex.mpr (.inr ⟨rfl, Nat.lt_succ_self _⟩)
        have hresume := resume_telling (r := r) (o := o) (e := e) es hstalls
        have hsent := c.sent party (.removed e .syncConnected)
        generalize c.send party (.removed e .syncConnected) = x at hsent hresume
        obtain ⟨done, c₁⟩ := x
        cases hsent with
        | dropped refused => exact .inl ⟨_, _, hresume, hless⟩
        | queued q offer opens => exact .inl ⟨_, _, hresume, hless⟩
        | lined q offer opens =>
          exact .inr (.inr (.inr ⟨_, hresume, Queue.stalls_of_lined offer⟩))
  | checking ks o => exact .inl (checking_proceeds ks o)
  | rearming k ks o => exact .inr (.inl (rearming_awaits k ks o))

theorem Traced.proceeds (h : Traced r reg ts st) (hd : ∀ result, st ≠ .done result) (c : Client) :
    Proceeds r party st c := by
  cases st with
  | asking p answers => exact (asking_proceeds h.2.1 h.2.2.1).imp id .inl
  | confirming rest o => exact (Stage.Owes.confirming rest o).proceeds c
  | checking ks o => exact (Stage.Owes.checking ks o).proceeds c
  | rearming k ks o => exact (Stage.Owes.rearming k ks o).proceeds c
  | done result => exact absurd rfl (hd result)

theorem start_remote (hr : r.registryOnly = false) (hv : Path.isValid r.path = true)
    (c : Client) : start r c =
      if (plan r c.registry).server = [] ∧ (plan r c.registry).here = [] then
        finish r (nothing r) c
      else (.asking (plan r c.registry) [], c) := by
  have hvalid : Path.validate r.path = .ok () := by
    simp only [Path.validate, Option.isNone_iff_eq_none.mp hv]
  simp [start, hvalid, hr, List.isEmpty_iff]

/-- What the moves of a removal that asks the server keep holds of it, whatever else goes on, unless
it has nothing to do. -/
theorem remote_run {Tells : List Turn → Stage → Prop} {s t : Engine} {w : Pursuit} (hs : s.Orderly)
    (ho : s.client.closed = false) (hr : r.registryOnly = false) (hv : Path.isValid r.path = true)
    (hb : s.Undertakes party r t)
    (hbegin : Traced r s.client.registry [] (.asking (plan r s.client.registry) []) →
      Tells [] (.asking (plan r s.client.registry) []))
    (hmove : ∀ m o o' c c' ts, Operation.move m party o c = some (o', c') →
      (∃ st, o = .removal r st ∧ Tells ts st) →
      ∃ st', o' = .removal r st' ∧ Tells (⟨m, o, c, c'⟩ :: ts) st')
    (h : Relation.ReflTransGen (Pursuit.Step party) ⟨t, []⟩ w) :
    ∃ st, w.engine.task? party = some (.removal r st) ∧
      ((plan r s.client.registry).server = [] ∧ (plan r s.client.registry).here = [] ∧
          w.turns = [] ∧ st = .done (nothing r) ∨
        Tells w.turns st) := by
  obtain ⟨ht, htask, _⟩ := hb.begun hs ho
  rw [start_remote hr hv] at htask
  split at htask
  · rename_i hempty
    obtain ⟨_, o, hwtask, rfl, hturns⟩ := Pursuit.tells_run
      (fun o ts => o = .removal r (.done (nothing r)) ∧ ts = []) ht htask ⟨rfl, rfl⟩
      (fun m o o' c c' ts hm htells => by
        obtain ⟨rfl, _⟩ := htells
        cases Operation.moves hm with
        | removing r st st' c' resume => cases resume
        | settling r slot x st st' c' answer => cases answer) h
    exact ⟨_, hwtask, .inl ⟨hempty.1, hempty.2, hturns, rfl⟩⟩
  · rename_i hsome
    have htraced : Traced r s.client.registry [] (.asking (plan r s.client.registry) []) := by
      refine ⟨rfl, Nat.zero_le _, ?_, heard_nil r _, by simp, rfl⟩
      by_cases hserver : (plan r s.client.registry).server = []
      · exact .inr hserver
      · refine .inl (if_neg fun he => hserver ?_)
        exact List.length_eq_zero_iff.mp he.symm
    obtain ⟨_, o, hwtask, st, rfl, htells⟩ := Pursuit.tells_run
      (fun o ts => ∃ st, o = .removal r st ∧ Tells ts st) ht htask ⟨_, rfl, hbegin htraced⟩ hmove h
    exact ⟨st, hwtask, .inr htells⟩

/-- What becomes of a removal that asks the server, whatever else goes on. -/
theorem traced_run {s t : Engine} {w : Pursuit} (hs : s.Orderly) (ho : s.client.closed = false)
    (hr : r.registryOnly = false) (hv : Path.isValid r.path = true)
    (hb : s.Undertakes party r t) (h : Relation.ReflTransGen (Pursuit.Step party) ⟨t, []⟩ w) :
    ∃ st, w.engine.task? party = some (.removal r st) ∧
      ((plan r s.client.registry).server = [] ∧ (plan r s.client.registry).here = [] ∧
          w.turns = [] ∧ st = .done (nothing r) ∨
        Traced r s.client.registry w.turns st) :=
  remote_run hs ho hr hv hb id (fun _ _ _ _ _ _ hm htells => traced_move hm htells) h

theorem Traced.acted (h : Traced r reg ts st) :
    ((∀ result, st ≠ .done result) ∧
        ((plan r reg).server ≠ [] → Outstanding r (plan r reg) ts) ∧
        (∀ x ∈ ts, x.Still) ∧ Turn.sendings ts = []) ∨
      ∃ o told, Acted r (plan r reg) ts o told ∧
        ∀ result, st = .done result → told = o.removed ∧ result = o.result := by
  cases st with
  | asking p answers =>
    obtain ⟨rfl, hshort, hwanting, hheard, hstill, hsilent⟩ := h
    refine .inl ⟨fun _ => nofun, fun hne => ?_, hstill, hsilent⟩
    exact outstanding_of_incomplete hheard hshort (hwanting.resolve_right hne)
  | confirming rest o =>
    obtain ⟨told, _, hacted⟩ := h
    exact .inr ⟨o, told, hacted, fun _ => nofun⟩
  | checking ks o => exact .inr ⟨o, o.removed, h, fun _ => nofun⟩
  | rearming k ks o => exact .inr ⟨o, o.removed, h, fun _ => nofun⟩
  | done result =>
    obtain ⟨o, hresult, hacted⟩ := h
    exact .inr ⟨o, o.removed, hacted, fun _ he => ⟨rfl, Stage.done.inj he ▸ hresult⟩⟩

end Removal

end NodeWatch
