import Mathlib.Logic.Relation
import NodeWatch.Proofs.ScriptedCrossing

/-! A client and its server over a run in which every operation comes to its end before the next
begins. Between two operations every watch of the client is one of the server's, and if no removal
left the server out, the two know exactly the same watches. -/

namespace NodeWatch

open Session (Spot)

/-- A client and what its server watches, with the orders given so far, the last one first. -/
structure Dialogue where
  engine : Engine
  watched : Set Spot
  orders : List Order

namespace Dialogue

inductive Step : Dialogue → Dialogue → Prop
  | begun {w : Dialogue} (o : Order) (t : Engine) (opened : w.engine.client.closed = false)
    (rest : w.engine.AtRest) (act : Engine.act (.begin o) w.engine = some t) :
    Step w ⟨t, o.leaves w.watched, o :: w.orders⟩
  | answered {w : Dialogue} (p : Party) (slot : Nat) (q : Request) (limit : Option Nat)
    (x : Answer) (S : Set Spot) (t : Engine) (opened : w.engine.client.closed = false)
    (awaited : (w.engine.waits p)[slot]? = some (some (.answer q limit)))
    (serves : Serves w.watched q x S) (act : Engine.act (.answer p slot x) w.engine = some t) :
    Step w ⟨t, S, w.orders⟩
  | went {w : Dialogue} (a : Engine.Action) (t : Engine) (own : a.isOwn = true)
    (opened : w.engine.client.closed = false) (act : Engine.act a w.engine = some t) :
    Step w ⟨t, w.watched, w.orders⟩

/-- No removal so far left the server out. -/
def Served (w : Dialogue) : Prop :=
  ∀ o ∈ w.orders, o.isLocal = false

/-- Nothing is at work but a removal on its way to the worker. -/
structure Quiet (w : Dialogue) : Prop where
  finished : ∀ x ∈ w.engine.tasks, x.2.Finished
  few : w.engine.handed.length ≤ 1
  served : w.Served → ∀ b ∈ w.engine.handed, b.request.registryOnly = false
  agrees : Agrees w.Served w.engine.client.registry w.watched

/-- One operation is at work. -/
structure Engaged (w : Dialogue) (p : Party) (o : Operation) (rest : Multiset (Party × Operation)) :
    Prop where
  tasks : w.engine.tasks = (p, o) ::ₘ rest
  unfinished : ¬o.Finished
  finished : ∀ x ∈ rest, x.2.Finished
  none : w.engine.handed = []
  between : o.Between w.Served w.engine.client.registry w.watched

structure Sequential (w : Dialogue) : Prop where
  orderly : w.engine.Orderly
  phase : w.Quiet ∨ ∃ p o rest, w.Engaged p o rest

theorem Quiet.of_atRest {w : Dialogue} (hw : w.Sequential) (hr : w.engine.AtRest) : w.Quiet := by
  rcases hw.phase with hq | ⟨p, o, rest, he⟩
  · exact hq
  · exact absurd (hr.1 (p, o) (he.tasks ▸ Multiset.mem_cons_self _ _)) he.unfinished

/-- An operation that was just begun is the only one at work, unless it has come to its end. -/
theorem sequential_of_between {w : Dialogue} (ho : w.engine.Orderly) {p : Party} {o : Operation}
    {rest : Multiset (Party × Operation)} (ht : w.engine.tasks = (p, o) ::ₘ rest)
    (hf : ∀ x ∈ rest, x.2.Finished) (hn : w.engine.handed = [])
    (hb : o.Between w.Served w.engine.client.registry w.watched) : w.Sequential := by
  refine ⟨ho, ?_⟩
  by_cases hfin : o.Finished
  · refine .inl ⟨?_, by simp [hn], by simp [hn], hb.agrees hfin⟩
    intro x hx
    rw [ht, Multiset.mem_cons] at hx
    rcases hx with rfl | hx
    · exact hfin
    · exact hf x hx
  · exact .inr ⟨p, o, rest, ht, hfin, hf, hn, hb⟩

theorem Engaged.of_moved {w : Dialogue} (hw : w.Sequential) {p : Party} {m : Move}
    {o o' : Operation} {rest : Multiset (Party × Operation)} {c : Client}
    (hb : w.engine.tasks = (p, o) ::ₘ rest) (hm : o.move m p w.engine.client = some (o', c)) :
    w.Engaged p o rest := by
  have hmem : (p, o) ∈ w.engine.tasks := hb ▸ Multiset.mem_cons_self _ _
  have hun : ¬o.Finished := fun hf => by
    rw [Operation.move_of_finished hf] at hm
    cases hm
  rcases hw.phase with hq | ⟨p₁, o₁, rest₁, he⟩
  · exact absurd (hq.finished _ hmem) hun
  · have hsame : (p, o) = (p₁, o₁) := by
      rw [he.tasks, Multiset.mem_cons] at hmem
      exact hmem.resolve_right fun hr => hun (he.finished _ hr)
    obtain ⟨rfl, rfl⟩ := Prod.mk.inj hsame
    obtain rfl : rest = rest₁ := (Multiset.cons_inj_right _).mp (hb.symm.trans he.tasks)
    exact he

theorem sequential_of_moved {w : Dialogue} (hw : w.Sequential) {t : Engine} {S : Set Spot}
    (ht : t.Orderly) {p : Party} {m : Move} {o o' : Operation}
    {rest : Multiset (Party × Operation)} (before : w.engine.tasks = (p, o) ::ₘ rest)
    (move : o.move m p w.engine.client = some (o', t.client))
    (after : t.tasks = (p, o') ::ₘ rest ∨ o' = .session .done ∧ t.tasks = rest)
    (handed : t.handed = w.engine.handed ∨ ∃ b, o = .enrolment b .offering ∧
      o' = .enrolment b (.done (.ok ())) ∧ t.handed = w.engine.handed ++ [b])
    (hb : o.Between w.Served w.engine.client.registry w.watched →
      o'.Between w.Served t.client.registry S) :
    Sequential ⟨t, S, w.orders⟩ := by
  have he := Engaged.of_moved hw before move
  have hbetween := hb he.between
  rcases handed with hsame | ⟨b, rfl, rfl, hmore⟩
  · rw [he.none] at hsame
    rcases after with htasks | ⟨rfl, htasks⟩
    · exact sequential_of_between ht htasks he.finished hsame hbetween
    · refine ⟨ht, .inl ⟨?_, by simp [hsame], by simp [hsame], hbetween⟩⟩
      change ∀ x ∈ t.tasks, x.2.Finished
      rw [htasks]
      exact he.finished
  · rw [he.none, List.nil_append] at hmore
    refine ⟨ht, .inl ⟨?_, by simp [hmore], ?_, hbetween.1⟩⟩
    · change ∀ x ∈ t.tasks, x.2.Finished
      intro x hx
      rcases after with htasks | ⟨_, htasks⟩
      · rw [htasks, Multiset.mem_cons] at hx
        rcases hx with rfl | hx
        · rfl
        · exact he.finished x hx
      · rw [htasks] at hx
        exact he.finished x hx
    · intro hserved b' hb'
      change b' ∈ t.handed at hb'
      rw [hmore, List.mem_singleton] at hb'
      rw [hb']
      exact hbetween.2 hserved

theorem sequential_of_beside {w : Dialogue} (hw : w.Sequential) {t : Engine} (ht : t.Orderly)
    (htasks : w.engine.Keeps t)
    (hreg : t.client.registry = w.engine.client.registry) (hhanded : t.handed = w.engine.handed) :
    Sequential ⟨t, w.watched, w.orders⟩ := by
  refine ⟨ht, ?_⟩
  rcases hw.phase with hq | ⟨p, o, rest, he⟩
  · left
    exact ⟨fun x hx => hq.finished x (htasks.mem hx), by rw [hhanded]; exact hq.few,
      by rw [hhanded]; exact hq.served, by rw [hreg]; exact hq.agrees⟩
  · right
    have hnone : t.handed = [] := hhanded.trans he.none
    have hbetween : o.Between w.Served t.client.registry w.watched := hreg ▸ he.between
    rcases htasks with hsame | ⟨x, hx, hcons⟩
    · exact ⟨p, o, rest, hsame.trans he.tasks, he.unfinished, he.finished, hnone, hbetween⟩
    · rw [he.tasks, Multiset.cons_eq_cons] at hcons
      rcases hcons with ⟨heq, _⟩ | ⟨_, rest', hrest, htail⟩
      · rw [← heq] at hx
        exact absurd hx he.unfinished
      · refine ⟨p, o, rest', htail, he.unfinished, fun y hy => he.finished y ?_, hnone, hbetween⟩
        rw [hrest]
        exact Multiset.mem_cons_of_mem hy

theorem sequential_begun {w : Dialogue} (hw : w.Sequential) {o : Order} {t : Engine}
    (ho : w.engine.client.closed = false) (hr : w.engine.AtRest)
    (h : Engine.act (.begin o) w.engine = some t) :
    Sequential ⟨t, o.leaves w.watched, o :: w.orders⟩ := by
  have hq := Quiet.of_atRest hw hr
  have ht := Engine.orderly_act hw.orderly h
  obtain ⟨p, _, htasks, hclient, hhanded⟩ := Engine.begin_turnover hw.orderly ho h
  rw [hr.2] at hhanded
  refine sequential_of_between ht htasks hr.1 hhanded.symm ?_
  change Operation.Between _ t.client.registry (o.leaves w.watched) _
  rw [hclient]
  refine Operation.between_start ho o hq.agrees (fun hs o' ho' => hs o' (.tail _ ho')) ?_
  exact fun hs => hs o (.head _)

theorem sequential_answered {w : Dialogue} (hw : w.Sequential) {p : Party} {slot : Nat}
    {q : Request} {limit : Option Nat} {x : Answer} {S : Set Spot} {t : Engine}
    (ho : w.engine.client.closed = false)
    (hwait : (w.engine.waits p)[slot]? = some (some (.answer q limit)))
    (hs : Serves w.watched q x S) (h : Engine.act (.answer p slot x) w.engine = some t) :
    Sequential ⟨t, S, w.orders⟩ := by
  have ht := Engine.orderly_act hw.orderly h
  obtain ⟨o, o', rest, hbefore, hmove, hafter, hhanded⟩ := Engine.answer_turnover hw.orderly ho h
  refine sequential_of_moved hw ht hbefore hmove hafter (.inl hhanded) fun hb => ?_
  rw [Engine.waits_of_mem hw.orderly (hbefore ▸ Multiset.mem_cons_self _ _)] at hwait
  exact Operation.between_answer hb hmove hwait hs

theorem sequential_went {w : Dialogue} (hw : w.Sequential) {a : Engine.Action} {t : Engine}
    (hown : a.isOwn = true) (ho : w.engine.client.closed = false)
    (h : Engine.act a w.engine = some t) : Sequential ⟨t, w.watched, w.orders⟩ := by
  have ht := Engine.orderly_act hw.orderly h
  cases Engine.act_turnover hw.orderly ho h with
  | started p o taken origin fresh after client handed =>
    cases origin with
    | call => cases hown
    | event => cases hown
    | removal b worker =>
      have hq : w.Quiet := by
        refine hw.phase.resolve_right ?_
        rintro ⟨p, o, rest, he⟩
        have hnone := he.none
        rw [handed] at hnone
        cases hnone
      have hnone : t.handed = [] := by
        have hfew := hq.few
        rw [handed, List.length_append, List.length_singleton] at hfew
        exact List.length_eq_zero_iff.mp (by omega)
      refine sequential_of_between ht after hq.finished hnone ?_
      change Operation.Between _ t.client.registry w.watched _
      rw [client]
      refine Operation.between_start ho (.remove b.request) hq.agrees id fun hs => ?_
      exact hq.served hs b (handed ▸ List.mem_cons_self)
  | moved p m o o' rest action before move after handed =>
    refine sequential_of_moved hw ht before move after handed fun hb => ?_
    cases m with
    | resume => exact Operation.between_resume hb move
    | answer slot x =>
      subst action
      cases hown
    | timeOut slot => exact Operation.between_timeOut hb move
    | retry slot => exact Operation.between_retry hb move
  | ended p o rest inside before finished after aside handed =>
    refine sequential_of_beside hw ht (.inr ⟨(p, o), finished, ?_⟩) aside.registry handed
    rw [before, after]
  | abandoned id o rest action =>
    subst action
    cases hown
  | beside inside after aside handed =>
    exact sequential_of_beside hw ht (.inl after) aside.registry handed
  | silenced inside silent after =>
    subst after
    exact sequential_of_beside hw ht (.inl rfl) rfl rfl

theorem sequential_step {w w' : Dialogue} (hw : w.Sequential) (h : Step w w') : w'.Sequential := by
  cases h with
  | begun o t opened rest act => exact sequential_begun hw opened rest act
  | answered p slot q limit x S t opened awaited serves act =>
    exact sequential_answered hw opened awaited serves act
  | went a t own opened act => exact sequential_went hw own opened act

theorem sequential_initial {settings : Settings} {feed : Option Nat} {s : Engine}
    (h : Engine.build settings feed = .built s) : Sequential ⟨s, ∅, []⟩ := by
  have hrest := Engine.atRest_of_build h
  have hspots := Engine.spots_of_build h
  have hagrees : Agrees (Served ⟨s, ∅, []⟩) s.client.registry ∅ :=
    ⟨by rw [hspots], fun _ => Set.empty_subset _⟩
  obtain ⟨d, r, _, _, rfl⟩ := Engine.build_eq h
  refine ⟨Engine.orderly_initial settings d r feed, .inl ⟨hrest.1, ?_, ?_, hagrees⟩⟩
  · simp [hrest.2]
  · simp [hrest.2]

theorem sequential_run {w w' : Dialogue} (hw : w.Sequential)
    (h : Relation.ReflTransGen Step w w') : w'.Sequential := by
  induction h with
  | refl => exact hw
  | tail _ hstep ih => exact sequential_step ih hstep

end Dialogue

/-- A dialogue that can be computed: its server watches finitely many, and never fails. -/
structure ScriptedDialogue where
  engine : Engine
  watched : Finset Spot
  orders : List Order

namespace ScriptedDialogue

/-- What comes next: an order, the answer to a request, or an action of the client's own. -/
inductive Line where
  | order (o : Order)
  | answer (p : Party) (slot : Nat)
  | go (a : Engine.Action)

def dialogue (w : ScriptedDialogue) : Dialogue :=
  ⟨w.engine, w.watched, w.orders⟩

/-- What the server watches when what it sends has led to this order. -/
def spare (S : Finset Spot) : Order → Finset Spot
  | .notify e => ScriptedCrossing.spare S e
  | .session e => if e = .expired then ∅ else S
  | .arm _ | .remove _ | .enrol _ => S

def play (w : ScriptedDialogue) (l : Line) : Option ScriptedDialogue :=
  if w.engine.client.closed then none
  else match l with
    | .order o =>
      if w.engine.AtRest then
        (Engine.act (.begin o) w.engine).map (⟨·, spare w.watched o, o :: w.orders⟩)
      else none
    | .answer p slot =>
      match (w.engine.waits p)[slot]? with
      | some (some (.answer q _)) =>
        (Engine.act (.answer p slot (ScriptedCrossing.respond w.watched q).1) w.engine).map
          (⟨·, (ScriptedCrossing.respond w.watched q).2, w.orders⟩)
      | _ => none
    | .go a =>
      if a.isOwn then (Engine.act a w.engine).map ({ w with engine := · }) else none

theorem coe_spare (S : Finset Spot) (o : Order) : (spare S o : Set Spot) = o.leaves S := by
  cases o with
  | notify e => exact ScriptedCrossing.coe_spare S e
  | session e => cases e <;> simp [spare, Order.leaves]
  | arm | remove | enrol => rfl

theorem step_of_play {w v : ScriptedDialogue} {l : Line} (h : w.play l = some v) :
    Dialogue.Step w.dialogue v.dialogue := by
  obtain ⟨hclosed, h⟩ := Option.ite_none_left_eq_some.mp h
  have ho : w.engine.client.closed = false := by simpa using hclosed
  cases l with
  | order o =>
    obtain ⟨hrest, h⟩ := Option.ite_none_right_eq_some.mp h
    obtain ⟨t, ht, rfl⟩ := Option.map_eq_some_iff.mp h
    have hstep := Dialogue.Step.begun (w := w.dialogue) o t ho hrest ht
    rwa [show w.dialogue.watched = (w.watched : Set Spot) from rfl, ← coe_spare] at hstep
  | answer p slot =>
    dsimp only at h
    split at h
    · rename_i q limit hwait
      obtain ⟨t, ht, rfl⟩ := Option.map_eq_some_iff.mp h
      exact .answered (w := w.dialogue) p slot q limit _ _ t ho hwait
        (ScriptedCrossing.serves_respond w.watched q).1 ht
    · cases h
  | go a =>
    obtain ⟨hown, h⟩ := Option.ite_none_right_eq_some.mp h
    obtain ⟨t, ht, rfl⟩ := Option.map_eq_some_iff.mp h
    exact .went (w := w.dialogue) a t hown ho ht

theorem run_of_play {w v : ScriptedDialogue} {ls : List Line} (h : ls.foldlM play w = some v) :
    Relation.ReflTransGen Dialogue.Step w.dialogue v.dialogue := by
  have hrun : Relation.ReflTransGen
      (fun w v : ScriptedDialogue => Dialogue.Step w.dialogue v.dialogue) w v :=
    run_of_foldlM (fun _ _ _ _ => step_of_play) h
  exact hrun.lift dialogue fun _ _ hstep => hstep

end ScriptedDialogue

namespace Dialogue

/-- Between two operations the server has every watch that the client has, and no other unless a
removal left the server out. -/
theorem spots_agree_at_rest {settings : Settings} {feed : Option Nat} {s : Engine} {w : Dialogue}
    (hs : Engine.build settings feed = .built s) (h : Relation.ReflTransGen Step ⟨s, ∅, []⟩ w)
    (hr : w.engine.AtRest) :
    w.engine.client.registry.spots ⊆ w.watched ∧
      ((∀ o ∈ w.orders, o.isLocal = false) → w.watched = w.engine.client.registry.spots) := by
  have hagrees := (Quiet.of_atRest (sequential_run (sequential_initial hs) h) hr).agrees
  exact ⟨hagrees.covered, fun hx => (hagrees.exact_of hx).antisymm hagrees.covered⟩

/-- Two subscribers share a watch and one of them has another one, which is removed with its part of
the first; then the first fires. What is armed last is left on both sides. -/
theorem spots_agree_after_firing :
    ∃ s w, Engine.build {} none = .built s ∧ Relation.ReflTransGen Step ⟨s, ∅, []⟩ w ∧
      w.engine.AtRest ∧ w.orders.reverse = [.arm ⟨.presence, "/a", .watcher (.named "v")⟩,
        .arm ⟨.presence, "/a", .watcher (.named "w")⟩, .arm ⟨.listing, "/a", .watcher (.named "w")⟩,
        .remove ⟨"/a", .any, .one (.watcher (.named "w")), false, false⟩,
        .notify ⟨.nodeDataChanged, .syncConnected, some "/a"⟩,
        .arm ⟨.presence, "/b", .watcher (.named "w")⟩] ∧
      w.watched = {⟨"/b", .data⟩} ∧ w.watched = w.engine.client.registry.spots := by
  have hrun : ([.order (.arm ⟨.presence, "/a", .watcher (.named "v")⟩), .answer (.caller 0) 0,
      .order (.arm ⟨.presence, "/a", .watcher (.named "w")⟩), .answer (.caller 1) 0,
      .order (.arm ⟨.listing, "/a", .watcher (.named "w")⟩), .answer (.caller 2) 0,
      .order (.remove ⟨"/a", .any, .one (.watcher (.named "w")), false, false⟩),
      .go (.resume (.caller 3)), .answer (.caller 3) 0, .go (.resume (.caller 3)),
      .go (.resume (.caller 3)), .go (.resume (.caller 3)), .go (.resume (.caller 3)),
      .go (.resume (.caller 3)),
      .order (.notify ⟨.nodeDataChanged, .syncConnected, some "/a"⟩), .go (.resume (.caller 4)),
      .go (.resume (.caller 4)),
      .order (.arm ⟨.presence, "/b", .watcher (.named "w")⟩), .answer (.caller 5) 0].foldlM
        ScriptedDialogue.play ⟨Engine.fresh, ∅, []⟩).any (fun w =>
          decide (w.engine.AtRest ∧ w.watched = {⟨"/b", .data⟩} ∧
            w.orders.reverse = [.arm ⟨.presence, "/a", .watcher (.named "v")⟩,
              .arm ⟨.presence, "/a", .watcher (.named "w")⟩,
              .arm ⟨.listing, "/a", .watcher (.named "w")⟩,
              .remove ⟨"/a", .any, .one (.watcher (.named "w")), false, false⟩,
              .notify ⟨.nodeDataChanged, .syncConnected, some "/a"⟩,
              .arm ⟨.presence, "/b", .watcher (.named "w")⟩])) = true := by
    decide +kernel
  obtain ⟨w, hw, hc⟩ := (Option.any_eq_true _ _).mp hrun
  obtain ⟨hrest, hwatched, horders⟩ := of_decide_eq_true hc
  have hsteps := ScriptedDialogue.run_of_play hw
  rw [ScriptedDialogue.dialogue, Finset.coe_empty] at hsteps
  have hagree := (spots_agree_at_rest Engine.build_fresh hsteps hrest).2 fun o ho => by
    change o ∈ w.orders at ho
    rw [← List.mem_reverse, horders] at ho
    simp only [List.mem_cons, List.not_mem_nil, or_false] at ho
    rcases ho with rfl | rfl | rfl | rfl | rfl | rfl <;> rfl
  refine ⟨_, _, Engine.build_fresh, hsteps, hrest, horders, ?_, hagree⟩
  rw [ScriptedDialogue.dialogue, hwatched, Finset.coe_singleton]

end Dialogue

end NodeWatch
