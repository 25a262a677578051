import NodeWatch.Proofs.AwaitedRemovals
import NodeWatch.Proofs.RemovalTurns
import NodeWatch.Proofs.RegistryRoll

/-! Reads that arm a watch, with anything going on between the request and its answer. A call leaves
no trace but its request until it is answered, and then it either registers its entry and counts it,
or returns the error and changes nothing. -/

namespace NodeWatch

open Session (Spot)

namespace Registry

instance (e : Entry) (r : Registry) : Decidable (e ∈ r) :=
  inferInstanceAs (Decidable (e.subscriber ∈ r.holders e.path e.kind))

theorem insert_of_mem {r : Registry} {e : Entry} (h : e ∈ r) :
    r.insert e.path e.kind e.subscriber = (false, r) :=
  dif_pos h

theorem insert_of_not_mem {r : Registry} {e : Entry} (h : e ∉ r) :
    r.insert e.path e.kind e.subscriber = (true, (r.insert e.path e.kind e.subscriber).2) :=
  Prod.ext ((r.insert_fst _ _ _).mpr h) rfl

end Registry

/-- An operation that its caller has begun. -/
theorem Engine.begun {s t : Engine} {o : Order} (hs : s.Orderly)
    (h : act (.begin o) s = some t) :
    t.Orderly ∧ t.task? (.caller s.nextCall) = some (Operation.start o s.client).1 ∧
      t.client = (Operation.start o s.client).2 := by
  have ht := orderly_act hs h
  simp only [act, begin] at h
  split at h
  · obtain rfl := Option.some.inj h
    exact ⟨ht, (task?_begun hs _ _ _).trans (if_pos rfl), rfl⟩
  · cases h

theorem Engine.outcome?_of_task {s : Engine} {id : Nat} {o : Operation}
    (h : s.task? (.caller id) = some o) : s.outcome? id = o.outcome? := by
  rw [Engine.outcome?, show s.call? id = some o from h]
  rfl

/-- An operation that has ended has no more turns. -/
theorem Pursuit.run_of_finished {p : Party} {t : Engine} {o : Operation} {w : Pursuit}
    (ht : t.Orderly) (htask : t.task? p = some o) (hf : o.Finished)
    (h : Relation.ReflTransGen (Step p) ⟨t, []⟩ w) :
    w.engine.task? p = some o ∧ w.turns = [] := by
  obtain ⟨_, o', hwtask, rfl, hturns⟩ := tells_run (fun o' ts => o' = o ∧ ts = []) ht htask
    ⟨rfl, rfl⟩ (fun m o₁ o₂ c c' ts hm htells => by
      rw [htells.1, Operation.move_of_finished hf] at hm
      cases hm) h
  exact ⟨hwtask, hturns⟩

theorem Path.exists_text_of_validate {path : String} {f : NodeWatch.Fault}
    (h : validate path = .error f) : ∃ text, f = .invalidArgument text := by
  rw [validate] at h
  split at h
  · cases h
  · exact ⟨_, (Except.error.inj h).symm⟩

/-- The entry was registered. If it was not there before it comes last under its path and kind, and
is counted; all other entries are as they were. The registry had no reason to reject it. -/
structure Client.Admits (c : Client) (e : Entry) (c' : Client) : Prop where
  present : e ∈ c'.registry
  entries : ∀ κ : Spot, c'.registry.entriesAt κ =
    c.registry.entriesAt κ ++ if e.spot = κ ∧ e ∉ c.registry then [e] else []
  counted : ∀ m, c'.ledger.count m =
    c.ledger.count m + if m = .registered e.kind ∧ e ∉ c.registry then 1 else 0
  accepted : c.registry.register e.path (.only e.kind) e.subscriber =
    .ok (decide (e ∉ c.registry), c'.registry)
  journal : c'.journal = (if e ∈ c.registry then [] else [.armed e]) ++ c.journal

namespace Client

theorem arm_of_mem {c : Client} {e : Entry} (h : e ∈ c.registry) : c.arm e = c := by
  simp only [arm, Registry.insert_of_mem h]

theorem arm_of_not_mem {c : Client} {e : Entry} (h : e ∉ c.registry) :
    c.arm e = ({ c with registry := (c.registry.insert e.path e.kind e.subscriber).2 }.count
      (.registered e.kind) 1).note (.armed e) := by
  rw [arm, Registry.insert_of_not_mem h]

theorem admits_arm (c : Client) (e : Entry) : c.Admits e (c.arm e) := by
  by_cases h : e ∈ c.registry
  · rw [arm_of_mem h]
    refine ⟨h, fun κ => by simp [h], fun m => by simp [h], ?_, by simp [h]⟩
    rw [Registry.register, Registry.insert_of_mem h]
    simp [h]
  · rw [arm_of_not_mem h]
    refine ⟨Registry.mem_insert.mpr (.inl rfl), fun κ => ?_, fun m => ?_, ?_, ?_⟩
    · refine (Registry.entriesAt_insert h κ).trans (congrArg _ ?_)
      by_cases hκ : e.spot = κ <;> simp [h, hκ]
    · refine (Ledger.count_add _ _ _ _).trans ?_
      by_cases hm : m = .registered e.kind <;> simp [h, hm]
    · rw [Registry.register, Registry.insert_of_not_mem h]
      simp [h, note, count]
    · rw [if_neg h]
      rfl

theorem Admits.registry_eq {c c' : Client} {e : Entry} (h : c.Admits e c') :
    c'.registry = (c.registry.insert e.path e.kind e.subscriber).2 :=
  (congrArg Prod.snd (Except.ok.inj h.accepted)).symm

end Client

namespace Arming

/-- What an answer does to the client. -/
def Settles (a : Arming) (c : Client) (x : Answer) (c' : Client) : Prop :=
  match x with
  | .ok _ => c.Admits a.entry c'
  | .error _ => c' = c

/-- How far a call has come in its turns: it awaits the answer to its request, or that answer was the
only turn it had. -/
def Stands (a : Arming) (ts : List Turn) : Stage → Prop
  | .asked => ts = []
  | .done x => ∃ c c', ts = [⟨.answer 0 x, .arming a .asked, c, c'⟩] ∧ a.Settles c x c'

theorem stands_move {a : Arming} {p : Party} {o o' : Operation} {m : Move} {c c' : Client}
    {ts : List Turn} (hm : o.move m p c = some (o', c'))
    (h : ∃ st, o = .arming a st ∧ a.Stands ts st) :
    ∃ st, o' = .arming a st ∧ a.Stands (⟨m, o, c, c'⟩ :: ts) st := by
  obtain ⟨st, rfl, hstands⟩ := h
  cases Operation.moves hm with
  | failed a f =>
    obtain rfl : ts = [] := hstands
    exact ⟨_, rfl, c, c, rfl, rfl⟩
  | armed a y =>
    obtain rfl : ts = [] := hstands
    exact ⟨_, rfl, c, _, rfl, c.admits_arm a.entry⟩

theorem reply?_asked (a : Arming) (x : Answer) (c c' : Client) :
    Turn.reply? ⟨.answer 0 x, .arming a .asked, c, c'⟩ = some (.register a.path a.read, x) :=
  rfl

theorem askings_of_settles {a : Arming} {x : Answer} {c c' : Client} (h : a.Settles c x c') :
    Turn.askings [⟨.answer 0 x, .arming a .asked, c, c'⟩] = [] := by
  cases x with
  | error f =>
    obtain rfl : c' = c := h
    exact Removal.askings_of_noted [] rfl
  | ok z =>
    rw [Removal.askings_of_noted (y := ⟨.answer 0 (.ok z), .arming a .asked, c, c'⟩) _
      (Client.Admits.journal h)]
    split <;> rfl

/-- As soon as the answer is there the call can return it. -/
theorem exists_act_answer {a : Arming} {w : Pursuit} {id : Nat}
    (h : w.engine.task? (.caller id) = some (.arming a .asked)) (x : Answer) :
    ∃ v, Pursuit.act (.caller id) (.answer (.caller id) 0 x) w = some v ∧
      v.engine.outcome? id = some (.read x) := by
  obtain ⟨c, hm⟩ : ∃ c, Operation.move (.answer 0 x) (.caller id) (.arming a .asked)
      w.engine.client = some (.arming a (.done x), c) := by
    cases x with
    | ok y => exact ⟨_, rfl⟩
    | error f => exact ⟨_, rfl⟩
  have hact := Engine.act_of_call (m := .answer 0 x) h hm
  have htask : (w.engine.setCall id (.arming a (.done x)) c).task? (.caller id) =
      some (.arming a (.done x)) := Engine.call?_setCall h _ _
  refine ⟨w.record (.caller id) (.answer (.caller id) 0 x) (w.engine.setCall id
    (.arming a (.done x)) c), ?_, ?_⟩
  · rw [Pursuit.act, show Engine.act (.answer (.caller id) 0 x) w.engine = _ from hact,
      Option.bind_some, htask]
    rfl
  · rw [Pursuit.record, Pursuit.moveOf?, if_pos rfl, h]
    exact Engine.outcome?_of_task htask

theorem start_closed {a : Arming} {c : Client} (hc : c.closed = true) :
    Operation.start (.arm a) c = (.arming a (.done (.error .closed)), c) := by
  simp only [Operation.start, start, if_pos hc]
  rfl

theorem start_invalid {a : Arming} {c : Client} {f : Fault} (hc : c.closed = false)
    (hf : Path.validate a.path = .error f) :
    Operation.start (.arm a) c = (.arming a (.done (.error f)), c) := by
  simp only [Operation.start, start, if_neg (show ¬c.closed = true by simp [hc]), hf]
  rfl

theorem start_valid {a : Arming} {c : Client} (hc : c.closed = false)
    (hv : Path.validate a.path = .ok ()) :
    Operation.start (.arm a) c = (.arming a .asked, c.submit (.register a.path a.read)) := by
  simp only [Operation.start, start, if_neg (show ¬c.closed = true by simp [hc]), hv]
  rfl

theorem refused_run {a : Arming} {x : Answer} {s t : Engine} {w : Pursuit} (hs : s.Orderly)
    (hb : Engine.act (.begin (.arm a)) s = some t)
    (hx : Operation.start (.arm a) s.client = (.arming a (.done x), s.client))
    (h : Relation.ReflTransGen (Pursuit.Step (.caller s.nextCall)) ⟨t, []⟩ w) :
    t.client = s.client ∧ w.turns = [] ∧ w.engine.outcome? s.nextCall = some (.read x) := by
  obtain ⟨ht, htask, hclient⟩ := Engine.begun hs hb
  rw [hx] at htask hclient
  obtain ⟨hwtask, hturns⟩ := Pursuit.run_of_finished ht htask rfl h
  exact ⟨hclient, hturns, Engine.outcome?_of_task hwtask⟩

theorem stands_run {a : Arming} {s t : Engine} {w : Pursuit} (hs : s.Orderly)
    (hb : Engine.act (.begin (.arm a)) s = some t) (ho : s.client.closed = false)
    (hv : Path.validate a.path = .ok ())
    (h : Relation.ReflTransGen (Pursuit.Step (.caller s.nextCall)) ⟨t, []⟩ w) :
    t.client = s.client.submit (.register a.path a.read) ∧
      ∃ st, w.engine.task? (.caller s.nextCall) = some (.arming a st) ∧ a.Stands w.turns st := by
  obtain ⟨ht, htask, hclient⟩ := Engine.begun hs hb
  rw [start_valid ho hv] at htask hclient
  have hbegin : ∃ st, Operation.arming a .asked = .arming a st ∧ a.Stands [] st :=
    ⟨.asked, rfl, rfl⟩
  obtain ⟨_, o, hwtask, st, rfl, hstands⟩ := Pursuit.tells_run
    (fun o ts => ∃ st, o = .arming a st ∧ a.Stands ts st) ht htask hbegin
    (fun _ _ _ _ _ _ hm htells => stands_move hm htells) h
  exact ⟨hclient, st, hwtask, hstands⟩

/-- An arming read is all or nothing, with anything going on before its answer comes. A closed client
and an invalid path are refused at once, without a request. Otherwise the call makes its request and
no other, and awaits the answer, which it returns as it is. If that is an error, the call has changed
nothing; if not, the entry is in the registry from then on, and counted if it was not there just
before. -/
theorem arming_all_or_nothing {a : Arming} {s t : Engine} {w : Pursuit} (hs : s.Orderly)
    (hb : Engine.act (.begin (.arm a)) s = some t)
    (h : Relation.ReflTransGen (Pursuit.Step (.caller s.nextCall)) ⟨t, []⟩ w) :
    (s.client.closed = true → t.client = s.client ∧ w.turns = [] ∧
      w.engine.outcome? s.nextCall = some (.read (.error .closed))) ∧
    (∀ f, s.client.closed = false → Path.validate a.path = .error f →
      (∃ text, f = .invalidArgument text) ∧ t.client = s.client ∧ w.turns = [] ∧
        w.engine.outcome? s.nextCall = some (.read (.error f))) ∧
    (s.client.closed = false → Path.validate a.path = .ok () →
      t.client = s.client.submit (.register a.path a.read) ∧
      t.client.history = s.client.history ++ [.register a.path a.read] ∧
      Turn.askings w.turns = [] ∧
      ((w.turns = [] ∧ w.engine.outcome? s.nextCall = none ∧
          w.engine.waits (.caller s.nextCall) = [some (.answer (.register a.path a.read) none)] ∧
          ∀ x, ∃ v, Pursuit.act (.caller s.nextCall) (.answer (.caller s.nextCall) 0 x) w = some v ∧
            v.engine.outcome? s.nextCall = some (.read x)) ∨
        ∃ x y, w.turns = [y] ∧ y.reply? = some (.register a.path a.read, x) ∧
          w.engine.outcome? s.nextCall = some (.read x) ∧
          (∀ f, x = .error f → y.after = y.before) ∧
          ∀ response, x = .ok response → y.before.Admits a.entry y.after)) := by
  refine ⟨fun hc => refused_run hs hb (start_closed hc) h, fun f ho hf => ?_, fun ho hv => ?_⟩
  · exact ⟨Path.exists_text_of_validate hf, refused_run hs hb (start_invalid ho hf) h⟩
  obtain ⟨hclient, st, hwtask, hstands⟩ := stands_run hs hb ho hv h
  refine ⟨hclient, by rw [hclient, Client.history_submit], ?_⟩
  cases st with
  | asked =>
    have hturns : w.turns = [] := hstands
    refine ⟨by rw [hturns]; rfl, .inl ⟨hturns, Engine.outcome?_of_task hwtask, ?_,
      exists_act_answer hwtask⟩⟩
    rw [Engine.waits, show w.engine.call? s.nextCall = _ from hwtask]
    rfl
  | done x =>
    obtain ⟨c, c', hturns, hsettles⟩ := hstands
    rw [hturns]
    refine ⟨askings_of_settles hsettles, .inr ⟨x, _, rfl, reply?_asked a x c c',
      Engine.outcome?_of_task hwtask, ?_, ?_⟩⟩
    · rintro f rfl
      exact hsettles
    · rintro response rfl
      exact hsettles

/-- While a second call for the same entry awaits its answer, the entry is fired. The second call
registers it anew, and it counts twice. -/
theorem fired_entry_is_armed_anew :
    ∃ (s t : Engine) (w : Pursuit) (y : Turn), s.Orderly ∧
      Engine.act (.begin (.arm ⟨.contents, "/a", .watcher (.named "w")⟩)) s = some t ∧
      Relation.ReflTransGen (Pursuit.Step (.caller s.nextCall)) ⟨t, []⟩ w ∧
      ⟨"/a", .data, .watcher (.named "w")⟩ ∈ s.client.registry ∧ w.turns = [y] ∧
      w.engine.outcome? s.nextCall = some (.read (.ok (.contents "x"))) ∧
      y.before.Admits ⟨"/a", .data, .watcher (.named "w")⟩ y.after ∧
      w.engine.client.ledger.count (.registered .data) = 2 := by
  have hrun : (Engine.follow [.begin (.arm ⟨.presence, "/a", .watcher (.named "w")⟩),
      .answer (.caller 0) 0 (.ok (.presence true))] Engine.fresh).any (fun s =>
      !s.client.closed && decide (s.nextCall = 1) &&
      decide (⟨"/a", .data, .watcher (.named "w")⟩ ∈ s.client.registry) &&
      (Engine.act (.begin (.arm ⟨.contents, "/a", .watcher (.named "w")⟩)) s).any fun t =>
      (Pursuit.follow (.caller 1) [
        .begin (.notify ⟨.nodeDataChanged, .syncConnected, some "/a"⟩),
        .answer (.caller 1) 0 (.ok (.contents "x"))] ⟨t, []⟩).any fun w =>
        decide (w.turns ≠ [] ∧ w.turns.filterMap Turn.reply? =
          [(.register "/a" .contents, .ok (.contents "x"))]) &&
        decide (w.engine.client.ledger.count (.registered .data) = 2)) = true := by
    decide +kernel
  obtain ⟨s, hs, hrun⟩ := (Option.any_eq_true _ _).mp hrun
  simp only [Bool.and_eq_true, Bool.not_eq_true', decide_eq_true_eq] at hrun
  obtain ⟨⟨⟨ho, hnext⟩, hheld⟩, hrun⟩ := hrun
  obtain ⟨t, ht, hrun⟩ := (Option.any_eq_true _ _).mp hrun
  obtain ⟨w, hw, hrun⟩ := (Option.any_eq_true _ _).mp hrun
  simp only [Bool.and_eq_true, decide_eq_true_eq] at hrun
  obtain ⟨⟨hturns, hreplies⟩, hcount⟩ := hrun
  have horderly := (Engine.reachable_of_fresh hs).orderly
  have hsteps := Pursuit.steps_of_follow hw
  rw [← hnext] at hsteps
  obtain ⟨_, _, _, hend⟩ := (arming_all_or_nothing horderly ht hsteps).2.2 ho (by decide)
  obtain ⟨hnone, _⟩ | ⟨x, y, hy, hreply, houtcome, _, hadmits⟩ := hend
  · exact absurd hnone hturns
  · rw [hy, List.filterMap_cons_some hreply] at hreplies
    obtain ⟨hx, _⟩ := List.cons.inj hreplies
    obtain rfl := (Prod.mk.inj hx).2
    exact ⟨s, t, w, y, horderly, ht, hsteps, hheld, hy, houtcome, hadmits _ rfl, hcount⟩

end Arming

end NodeWatch
