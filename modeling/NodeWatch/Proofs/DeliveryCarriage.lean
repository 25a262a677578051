import Mathlib.Data.List.Infix
import Mathlib.Logic.Relation
import NodeWatch.Proofs.Backlog
import NodeWatch.Proofs.EntryConservation
import NodeWatch.Proofs.DeliveryTraffic

/-! Deliveries on their way from the parties to user code, while the client is open. What the dispatch
worker takes off the queue is what was put on it, in the same order; each delivery is carried out by
the calls that it is made for; and a party puts the deliveries on its agenda on the queue one after
another, or waits with the next one for a place. -/

namespace NodeWatch

open Client (invocations invocations_append sendings)

namespace Queue

variable {α : Type} {q : Queue α} {p : Party} {waits waits' : Party → Prop}

theorem not_accepted_of_full {q' : Queue α} {x : α} (hr : q.room = 0) (hp : p ∉ q.admitted) :
    q.offer p x ≠ .accepted q' := by
  simp only [offer, hr, if_neg hp, Nat.lt_irrefl, if_false]
  split
  · simp
  · split <;> simp

theorem Tidy.withdraw (h : q.Tidy waits) (hw : ∀ p', p' ≠ p → waits p' → waits' p') :
    (q.withdraw p).Tidy waits' := by
  obtain ⟨hline, hadmitted, hdisjoint⟩ := List.nodup_append.mp h.nodup
  have hwaits : ∀ p' ∈ q.line ++ q.admitted, p' ≠ p → waits' p' := fun p' hp' hne =>
    hw p' hne (h.waiting p' hp')
  by_cases hp : p ∈ q.admitted
  · have hlength := List.length_erase_of_mem hp
    have hpos := List.length_pos_of_mem hp
    have hplaces : ∀ p' ∈ q.admitted.erase p, waits' p' := fun p' hp' => by
      obtain ⟨hne, hmem⟩ := hadmitted.mem_erase_iff.mp hp'
      exact hwaits p' (List.mem_append_right _ hmem) hne
    have hturns : ∀ p' ∈ q.line, waits' p' := fun p' hp' =>
      hwaits p' (List.mem_append_left _ hp') (hdisjoint p' hp' p hp)
    rw [Queue.withdraw, if_pos hp, grant]
    cases hl : q.line with
    | nil =>
      dsimp only
      refine ⟨h.isOpen, h.capacity, ?_, fun p' hp' => ?_, fun hne => absurd rfl hne⟩
      · simpa using hadmitted.erase p
      · exact hplaces p' (by simpa using hp')
    | cons x xs =>
      -- The place that is given back goes to the head of the line.
      have hmove : (xs ++ (q.admitted.erase p ++ [x])).Perm (q.line ++ q.admitted.erase p) := by
        rw [hl, ← List.append_assoc]
        exact List.perm_append_comm
      refine ⟨h.isOpen, h.capacity, hmove.nodup_iff.mpr ?_, fun p' hp' => ?_, fun _ => ?_⟩
      · exact h.nodup.sublist ((List.Sublist.refl _).append List.erase_sublist)
      · exact (List.mem_append.mp (hmove.mem_iff.mp hp')).elim (hturns p') (hplaces p')
      · have hfull := h.full (by simp [hl])
        simp only [List.length_append, List.length_singleton, hlength]
        omega
  · rw [Queue.withdraw, if_neg hp]
    refine ⟨h.isOpen, h.capacity, ?_, fun p' hp' => ?_, fun hne => h.full fun hl => hne ?_⟩
    · exact h.nodup.sublist (List.erase_sublist.append (.refl _))
    · rcases List.mem_append.mp hp' with hp' | hp'
      · obtain ⟨hne, hmem⟩ := hline.mem_erase_iff.mp hp'
        exact hwaits p' (List.mem_append_left _ hmem) hne
      · exact hwaits p' (List.mem_append_right _ hp') fun he => hp (he ▸ hp')
    · simp [hl]

end Queue

def Party.Keeps (p : Party) (a : Engine.Action) : Prop :=
  ∀ id, a = .abandon id → p ≠ .caller id

namespace Client

variable {c c' : Client} {x : Bool}

theorem not_dropped_of_sendings {os : List Occurrence} (h : sendings os = []) (d : Delivery) :
    .dropped d ∉ os := fun hm => by
  have hsent : d ∈ sendings os :=
    List.mem_filterMap.mpr ⟨.dropped d, List.mem_reverse.mpr hm, rfl⟩
  rw [h] at hsent
  cases hsent

end Client

namespace Engine

variable {a : Action} {s t : Engine}

/-- What an action put on the queue of deliveries, and who put it there. -/
def handover (s : Engine) (a : Action) (t : Engine) : List (Party × Delivery) :=
  (a.party? s).toList.flatMap fun p =>
    (t.client.deliveries.items.drop s.client.deliveries.items.length).map (p, ·)

/-- What an action takes off the queue of deliveries to be carried out, with the listeners of that
moment. -/
def taken (s : Engine) : Action → List (List String × Delivery)
  | .dispatch _ => (s.client.deliveries.items.take 1).map (s.client.listeners, ·)
  | _ => []

def ofParty (p : Party) (xs : List (Party × Delivery)) : List Delivery :=
  (xs.filter fun x => x.1 = p).map Prod.snd

/-- The dispatch worker is there, and who is in line has a delivery to put on the queue; or nobody
is left who could put one there, and none is left. -/
def Manned (s : Engine) : Prop :=
  (s.dispatching = true ∧ s.client.deliveries.Tidy fun p => s.agenda p ≠ []) ∨
    (s.silent = true ∧ s.client.deliveries.items = [])

structure Advance (s : Engine) (a : Action) (t : Engine) : Prop where
  order : s.client.deliveries.items ++ (s.handover a t).map Prod.snd =
    (s.taken a).map Prod.snd ++ t.client.deliveries.items
  calls : invocations t.client.journal =
    invocations s.client.journal ++ (s.taken a).flatMap fun x => x.2.calls x.1
  undropped : ∀ d, .dropped d ∈ t.client.journal → .dropped d ∈ s.client.journal
  sequence : ∀ p : Party, p.Keeps a → s.agenda p <+: ofParty p (s.handover a t) ++ t.agenda p

theorem handover_eq_nil (h : t.client.deliveries.items.length ≤ s.client.deliveries.items.length) :
    s.handover a t = [] := by
  simp [handover, List.drop_eq_nil_of_le h]

theorem handover_of_append {p : Party} {d : Delivery} (hp : a.party? s = some p)
    (h : t.client.deliveries.items = s.client.deliveries.items ++ [d]) :
    s.handover a t = [(p, d)] := by
  simp [handover, hp, h]

theorem handover_send {p : Party} {d : Delivery} (hp : a.party? s = some p)
    (hopen : s.client.deliveries.isOpen = true) (hc : t.client = (s.client.send p d).2) :
    s.handover a t = if (s.client.send p d).1 then [(p, d)] else [] := by
  have hsent := s.client.sent p d
  generalize s.client.send p d = x at hsent hc ⊢
  obtain ⟨done, c⟩ := x
  cases hsent with
  | dropped refused => exact absurd (hopen.symm.trans refused) nofun
  | queued q offer => exact handover_of_append hp (by rw [hc]; exact Queue.items_of_accepted offer)
  | lined q offer => exact handover_eq_nil (by rw [hc, ← Queue.items_of_mustWait offer])

theorem handover_of_idles {connected : Bool} (h : s.client.Idles t.client connected) :
    s.handover a t = [] :=
  handover_eq_nil (by rw [h.deliveries])

theorem Advance.quiet (os : List Occurrence)
    (hi : t.client.deliveries.items = s.client.deliveries.items) (ha : s.taken a = [])
    (hj : t.client.journal = os ++ s.client.journal)
    (hcalls : invocations os = []) (hsent : sendings os = [])
    (hagenda : ∀ p : Party, p.Keeps a → t.agenda p = s.agenda p ∨ s.agenda p = []) :
    Advance s a t := by
  have hnone := handover_eq_nil (a := a) (s := s) (t := t) (by rw [hi])
  refine ⟨by simp [hnone, ha, hi], ?_, fun d hd => ?_, fun p hp => ?_⟩
  · rw [hj, invocations_append, hcalls, ha, List.flatMap_nil]
  · rw [hj] at hd
    exact (List.mem_append.mp hd).resolve_left (Client.not_dropped_of_sendings hsent d)
  · rw [hnone]
    rcases hagenda p hp with hsame | hnil
    · exact hsame ▸ List.prefix_rfl
    · exact hnil ▸ List.nil_prefix

theorem agenda_of_silent (h : s.silent = true) (p : Party) : s.agenda p = [] := by
  simp only [silent, orphaned, Bool.and_eq_true, Bool.not_eq_true', List.isEmpty_iff] at h
  obtain ⟨⟨⟨_, hcalls⟩, hworker⟩, hlistener⟩ := h
  cases p with
  | caller id => simp [agenda, call?, hcalls]
  | remover => cases hw : s.worker <;> simp_all [agenda, Worker.isStopped, Worker.agenda]
  | listener => cases hl : s.listener <;> simp_all [agenda, Listener.isStopped, Listener.task?]

theorem Manned.tidy_of_due (h : s.Manned) {p : Party} (hp : s.agenda p ≠ []) :
    s.dispatching = true ∧ s.client.deliveries.Tidy fun p => s.agenda p ≠ [] :=
  h.resolve_right fun hs => hp (agenda_of_silent hs.1 p)

theorem dispatch_cases {conduct : Client → Call → Conduct} (ho : s.client.closed = false)
    (h : act (.dispatch conduct) s = some t) :
    (∃ d q, s.client.deliveries.take? = some (d, q) ∧
        t = { s with client := { s.client with deliveries := q }.deliver conduct d }) ∨
      (s.client.deliveries.take? = none ∧ s.silent = true ∧
        t = s.stopDispatching (s.client.remark .deliveryQueueClosed)) := by
  simp only [act, dispatch] at h
  split at h
  · cases h
  · rw [if_neg (by simp [ho])] at h
    split at h
    · rename_i d q htake
      exact .inl ⟨d, q, htake, (Option.some.inj h).symm⟩
    · rename_i htake
      split at h
      · rename_i hsilent
        exact .inr ⟨htake, hsilent, (Option.some.inj h).symm⟩
      · cases h

theorem advance_dispatch {conduct : Client → Call → Conduct} (ho : s.client.closed = false)
    (h : act (.dispatch conduct) s = some t) : Advance s (.dispatch conduct) t := by
  rcases dispatch_cases ho h with ⟨d, q, htake, ht⟩ | ⟨htake, hsilent, rfl⟩
  · have hruns := Client.Runs.deliver conduct { s.client with deliveries := q } d
    obtain ⟨os, hj, hcalls, hsent⟩ := hruns.journal
    have hitems := Queue.items_take htake
    have hagenda : ∀ p, t.agenda p = s.agenda p := ht ▸ agenda_congr rfl rfl rfl
    have hafter : t.client.deliveries = q := by rw [ht, hruns.deliveries]
    have hjournal : t.client.journal = os ++ s.client.journal := by rw [ht, hj]
    refine ⟨?_, ?_, fun d' hd => ?_, fun p _ => ?_⟩
    · simp [handover, Action.party?, taken, hitems, hafter]
    · rw [hjournal, invocations_append, hcalls]
      simp [taken, hitems]
    · rw [hjournal] at hd
      exact (List.mem_append.mp hd).resolve_left (Client.not_dropped_of_sendings hsent d')
    · rw [hagenda p]
      exact List.prefix_rfl
  · have hitems := Queue.items_of_take_none htake
    exact .quiet [.remarked .deliveryQueueClosed] (by rw [hitems]; rfl)
      (by simp [taken, hitems]) rfl rfl rfl fun p _ => .inl (agenda_congr rfl rfl rfl p)

theorem ofParty_self (p : Party) (d : Delivery) : ofParty p [(p, d)] = [d] := by
  simp [ofParty]

theorem ofParty_other {p p' : Party} (h : p' ≠ p) (d : Delivery) : ofParty p' [(p, d)] = [] := by
  simp [ofParty, h.symm]

theorem advance_act (hs : s.Orderly) (ho : s.client.closed = false) (hm : s.Manned)
    (h : act a s = some t) : Advance s a t := by
  -- Only the dispatch worker takes anything off the queue.
  by_cases hd : ∃ conduct, a = .dispatch conduct
  · obtain ⟨conduct, rfl⟩ := hd
    exact advance_dispatch ho h
  have htaken : s.taken a = [] := by
    cases a with
    | dispatch conduct => exact absurd ⟨conduct, rfl⟩ hd
    | _ => rfl
  cases traffic_of_change hs (act_change ho h) with
  | idled connected idles agendas =>
    obtain ⟨os, hj, hcalls, hsent⟩ := idles.journal
    exact .quiet os (by rw [idles.deliveries]) htaken hj hcalls hsent fun p _ => agendas p
  | sent p d ds party due client next others =>
    have htidy := (hm.tidy_of_due (p := p) (by simp [due])).2
    have hsent := s.client.sent p d
    generalize s.client.send p d = x at hsent client next
    obtain ⟨done, c⟩ := x
    cases hsent with
    | dropped refused => exact absurd (htidy.isOpen.symm.trans refused) nofun
    | queued q offer =>
      have hhanded : s.handover a t = [(p, d)] :=
        handover_of_append party (by rw [client]; exact Queue.items_of_accepted offer)
      refine ⟨?_, ?_, fun d' hd' => ?_, fun p' _ => ?_⟩
      · rw [hhanded, htaken, client]
        exact (Queue.items_of_accepted offer).symm
      · rw [htaken, client, List.flatMap_nil]
        exact invocations_append [.queued d] s.client.journal
      · rw [client] at hd'
        exact (List.mem_cons.mp hd').resolve_left nofun
      · rw [hhanded]
        by_cases hp : p' = p
        · rw [hp, ofParty_self, due, next]
          exact List.prefix_rfl
        · rw [ofParty_other hp, others p' hp]
          exact List.prefix_rfl
    | lined q offer =>
      refine .quiet [] (by rw [client]; exact Queue.items_of_mustWait offer) htaken
        (by rw [client]; rfl) rfl rfl fun p' _ => .inl ?_
      by_cases hp : p' = p
      · rw [hp, due, next]
        rfl
      · exact others p' hp
  | carried conduct d q action => exact absurd ⟨conduct, action⟩ hd
  | silenced conduct action => exact absurd ⟨conduct, action⟩ hd
  | withdrew p due closed journal deliveries gone others =>
    refine .quiet [] (by rw [deliveries, Queue.items_withdraw]) htaken journal rfl rfl
      fun p' hp' => ?_
    by_cases hp : p' = p
    · rcases due with due | ⟨id, hid, ha⟩
      · exact .inr (hp ▸ due)
      · exact absurd (hp.trans hid) (hp' id ha)
    · exact .inl (others p' hp)
  | performed d action client kept =>
    obtain ⟨os, hj, hcalls, hsent⟩ := (Client.Runs.apply s.client d).journal
    refine .quiet os ?_ htaken (client ▸ hj) hcalls hsent fun p _ => .inl (kept p)
    rw [client, (Client.Runs.apply s.client d).deliveries]

theorem dispatching_act (h : act a s = some t) :
    t.dispatching = s.dispatching ∨ t.client.deliveries.isOpen = false := by
  rcases act_change_or_shutdown h with hch | ⟨_, hsd⟩
  · cases hch with
    | moved p m o o' c => exact .inl (dispatching_put s p o' c)
    | silenced => exact .inr rfl
    | _ => exact .inl rfl
  · cases hsd with
    | dispatching => exact .inr rfl
    | worker | listener => exact .inl rfl

theorem manned_act (hs : s.Orderly) (ho : s.client.closed = false) (hm : s.Manned)
    (h : act a s = some t) : t.Manned := by
  have htraffic := traffic_of_change hs (act_change ho h)
  rcases hm with ⟨hd, htidy⟩ | ⟨hsilent, hitems⟩
  · have hmanned : t.client.deliveries.Tidy (fun p => t.agenda p ≠ []) → t.Manned := fun ht =>
      .inl ⟨(dispatching_act h).elim (·.trans hd) fun hn => absurd (ht.isOpen.symm.trans hn) nofun,
        ht⟩
    cases htraffic with
    | idled connected idles agendas =>
      refine hmanned (idles.deliveries ▸ htidy.mono fun p hp => ?_)
      rwa [(agendas p).resolve_right hp]
    | sent p d ds party due client next others =>
      have hothers : ∀ p', p' ≠ p → s.agenda p' ≠ [] → t.agenda p' ≠ [] := fun p' hne hp' =>
        others p' hne ▸ hp'
      have hsent := s.client.sent p d
      generalize s.client.send p d = x at hsent client next
      obtain ⟨done, c⟩ := x
      cases hsent with
      | dropped refused => exact absurd (htidy.isOpen.symm.trans refused) nofun
      | queued q offer => exact hmanned (client ▸ htidy.accepted offer hothers)
      | lined q offer =>
        refine hmanned (client ▸ (htidy.mustWait offer (by simp [due])).mono fun p' hp' => ?_)
        by_cases hp : p' = p
        · rw [hp, next]
          exact List.cons_ne_nil d ds
        · exact hothers p' hp hp'
    | carried conduct d q action take client kept =>
      have hq : t.client.deliveries = q := by rw [client, (Client.Runs.deliver conduct _ d).deliveries]
      exact hmanned (hq ▸ (htidy.take take).mono fun p hp => by rwa [kept p])
    | silenced conduct action silent after => exact .inr ⟨after ▸ silent, after ▸ rfl⟩
    | withdrew p due closed journal deliveries gone others =>
      exact hmanned (deliveries ▸ htidy.withdraw fun p' hne hp' => others p' hne ▸ hp')
    | performed d action client kept =>
      refine hmanned (client ▸ (Client.Runs.apply s.client d).deliveries ▸ htidy.mono fun p hp => ?_)
      rwa [kept p]
  · -- Nobody is left who could fill the empty queue.
    refine .inr ⟨silent_act ho hsilent h, ?_⟩
    cases htraffic with
    | idled connected idles => rw [idles.deliveries, hitems]
    | sent p d ds party due =>
      rw [agenda_of_silent hsilent p] at due
      cases due
    | carried conduct d q action take =>
      rw [Queue.items_take take] at hitems
      cases hitems
    | silenced conduct action silent after => exact after ▸ rfl
    | withdrew p due closed journal deliveries => rw [deliveries, Queue.items_withdraw, hitems]
    | performed d action client =>
      rw [client, (Client.Runs.apply s.client d).deliveries, hitems]

theorem manned_initial {settings : Settings} {feed : Option Nat} (hb : build settings feed = .built s) :
    s.Manned := by
  obtain ⟨d, r, hd, _, rfl⟩ := build_eq hb
  obtain ⟨hroom, -, rfl⟩ := Queue.ofCapacity_eq_ok.mp hd
  refine .inl ⟨rfl, rfl, hroom, List.nodup_nil, fun p hp => ?_, fun hne => absurd rfl hne⟩
  exact absurd hp List.not_mem_nil

end Engine

/-- A client with the deliveries that were put on its queue, each with the party that put it there,
and those that were taken off it to be carried out, each with the listeners of that moment. -/
structure Carriage where
  engine : Engine
  handed : List (Party × Delivery)
  carried : List (List String × Delivery)

namespace Carriage

variable {admits : Engine.Action → Prop} {w w' : Carriage} {a : Engine.Action} {t : Engine}

def opening (s : Engine) : Carriage :=
  ⟨s, [], []⟩

def after (w : Carriage) (a : Engine.Action) (t : Engine) : Carriage :=
  ⟨t, w.handed ++ w.engine.handover a t, w.carried ++ w.engine.taken a⟩

inductive Step (admits : Engine.Action → Prop) (w : Carriage) : Carriage → Prop
  | acted (a : Engine.Action) (t : Engine) (admitted : admits a)
    (act : Engine.act a w.engine = some t) (opened : t.client.closed = false) :
    Step admits w (w.after a t)

/-- What a party has put on the queue, and what it is to put there next. -/
def sequence (w : Carriage) (p : Party) : List Delivery :=
  Engine.ofParty p w.handed ++ w.engine.agenda p

/-- What was put on the queue was carried out in the same order, but for what is still there, and
nothing else was carried out, and nothing dropped. -/
structure Intact (w : Carriage) : Prop where
  orderly : w.engine.Orderly
  opened : w.engine.client.closed = false
  manned : w.engine.Manned
  order : w.handed.map Prod.snd =
    w.carried.map Prod.snd ++ w.engine.client.deliveries.items
  calls : invocations w.engine.client.journal = w.carried.flatMap fun x => x.2.calls x.1
  undropped : ∀ d, .dropped d ∉ w.engine.client.journal

theorem intact_opening {settings : Settings} {feed : Option Nat} {s : Engine}
    (hb : Engine.build settings feed = .built s) : (opening s).Intact := by
  have hmanned := Engine.manned_initial hb
  obtain ⟨d, r, hd, hr, rfl⟩ := Engine.build_eq hb
  have hitems : d.items = [] := by
    rw [(Queue.ofCapacity_eq_ok.mp hd).2.2]
  refine ⟨Engine.orderly_initial settings d r feed, rfl, hmanned, hitems.symm, ?_, fun x => ?_⟩
  · simp only [opening, Engine.initial]
    split <;> rfl
  · simp only [opening, Engine.initial]
    split <;> simp

theorem Intact.acted (h : w.Intact) (ha : Engine.act a w.engine = some t)
    (ho : t.client.closed = false) : (w.after a t).Intact := by
  have hstep := Engine.advance_act h.orderly h.opened h.manned ha
  refine ⟨Engine.orderly_act h.orderly ha, ho, Engine.manned_act h.orderly h.opened h.manned ha,
    ?_, ?_, fun d hd => h.undropped d (hstep.undropped d hd)⟩
  · calc (w.after a t).handed.map Prod.snd
        = w.handed.map Prod.snd ++ (w.engine.handover a t).map Prod.snd := List.map_append
      _ = w.carried.map Prod.snd ++ ((w.engine.taken a).map Prod.snd ++
            t.client.deliveries.items) := by rw [h.order, List.append_assoc, hstep.order]
      _ = (w.after a t).carried.map Prod.snd ++ t.client.deliveries.items := by
          rw [after, List.map_append, List.append_assoc]
  · exact (hstep.calls.trans (by rw [h.calls])).trans List.flatMap_append.symm

theorem Intact.step (h : w.Intact) (hs : Step admits w w') : w'.Intact := by
  obtain ⟨a, t, _, ha, ho⟩ := hs
  exact h.acted ha ho

theorem Intact.run (h : w.Intact) (hs : Relation.ReflTransGen (Step admits) w w') : w'.Intact := by
  induction hs with
  | refl => exact h
  | tail _ hstep ih => exact ih.step hstep

theorem Intact.sequence_prefix (h : w.Intact) {p : Party}
    (hs : Relation.ReflTransGen (Step p.Keeps) w w') : w.sequence p <+: w'.sequence p := by
  induction hs with
  | refl => exact List.prefix_rfl
  | @tail v v' hrun hstep ih =>
    refine ih.trans ?_
    obtain ⟨a, t, hkeeps, ha, _⟩ := hstep
    have hv := h.run hrun
    have hnext := (Engine.advance_act hv.orderly hv.opened hv.manned ha).sequence p hkeeps
    have hparty : Engine.ofParty p (v.handed ++ v.engine.handover a t) =
        Engine.ofParty p v.handed ++ Engine.ofParty p (v.engine.handover a t) := by
      simp [Engine.ofParty]
    rw [sequence, sequence, after, hparty, List.append_assoc]
    exact (List.prefix_append_right_inj _).mpr hnext

end Carriage

end NodeWatch
