import Mathlib.Data.Multiset.AddSub
import Mathlib.Data.Multiset.Filter
import NodeWatch.Proofs.AsideChanges
import NodeWatch.Proofs.EngineChange

/-! The operations in progress, as a collection of tasks in which each party has at most one. An
action starts a task, moves one, ends one, or leaves them all as they are. -/

namespace NodeWatch

namespace Engine

/-- The operations in progress, each with its party. -/
def tasks (s : Engine) : Multiset (Party × Operation) :=
  ↑(s.calls.map (fun x => (Party.caller x.1, x.2)) ++
    (s.worker.task?.toList.map (Prod.mk Party.remover) ++
      s.listener.task?.toList.map (Prod.mk Party.listener)))

/-- Calls are numbered in the order in which they were begun, and no number is used twice. -/
def Orderly (s : Engine) : Prop :=
  (s.calls.map Prod.fst).Nodup ∧ ∀ x ∈ s.calls, x.1 < s.nextCall

theorem orderly_of_calls {s t : Engine} (hs : s.Orderly)
    (hc : (t.calls.map Prod.fst).Sublist (s.calls.map Prod.fst)) (hn : t.nextCall = s.nextCall) :
    t.Orderly := by
  refine ⟨hs.1.sublist hc, fun x hx => ?_⟩
  obtain ⟨y, hy, he⟩ := List.mem_map.mp (hc.subset (List.mem_map_of_mem hx))
  rw [hn, ← he]
  exact hs.2 y hy

theorem map_fst_setCall (s : Engine) (id : Nat) (o : Operation) (c : Client) :
    (s.setCall id o c).calls.map Prod.fst = s.calls.map Prod.fst := by
  simp only [setCall, List.map_map]
  apply List.map_congr_left
  intro x _
  by_cases h : x.1 = id
  · simp [h]
  · simp [h]

theorem orderly_put {s : Engine} (hs : s.Orderly) (p : Party) (o : Operation) (c : Client) :
    (s.put p o c).Orderly := by
  cases p with
  | caller id => exact orderly_of_calls hs (map_fst_setCall s id o c ▸ .refl _) rfl
  | remover | listener => exact hs

theorem orderly_begun {s : Engine} (hs : s.Orderly) (o : Operation) (c : Client) :
    Orderly { s with
      calls := s.calls ++ [(s.nextCall, o)]
      nextCall := s.nextCall + 1
      client := c } := by
  constructor
  · rw [List.map_append, List.nodup_append]
    refine ⟨hs.1, by simp, ?_⟩
    rintro a ha b hb rfl
    obtain ⟨x, hx, rfl⟩ := List.mem_map.mp ha
    have hlt := hs.2 x hx
    simp only [List.map_cons, List.map_nil, List.mem_singleton] at hb
    omega
  · intro x hx
    rcases List.mem_append.mp hx with hx | hx
    · have hlt := hs.2 x hx
      change x.1 < s.nextCall + 1
      omega
    · rw [List.mem_singleton.mp hx]
      exact Nat.lt_succ_self _

theorem orderly_act {a : Action} {s t : Engine} (hs : s.Orderly) (h : act a s = some t) :
    t.Orderly := by
  rcases act_change_or_shutdown h with h | ⟨_, h⟩
  · cases h with
    | begun o => exact orderly_begun hs _ _
    | moved p m o o' c => exact orderly_put hs p o' c
    | abandoned | collected => exact orderly_of_calls hs (List.filter_sublist.map Prod.fst) rfl
    | _ => exact hs
  · cases h <;> exact hs

theorem orderly_initial (settings : Settings) (d : Queue Delivery) (r : Queue BackgroundRemoval)
    (feed : Option Nat) : (initial settings d r feed).Orderly :=
  ⟨List.nodup_nil, fun _ hx => absurd hx List.not_mem_nil⟩

theorem build_eq {settings : Settings} {feed : Option Nat} {s : Engine}
    (h : build settings feed = .built s) :
    ∃ d r, Queue.ofCapacity settings.eventQueueSize = .ok d ∧
      Queue.ofCapacity settings.backgroundQueueSize = .ok r ∧
      s = initial settings d r feed := by
  simp only [build] at h
  split at h
  · cases h
  · split at h
    · cases h
    · rename_i d hd
      split at h
      · cases h
      · rename_i r hr
        exact ⟨d, r, hd, hr, (Construction.built.inj h).symm⟩

/-- A client that is made without choosing any settings. -/
def fresh : Engine :=
  initial {} ⟨1024, [], [], [], true⟩ ⟨256, [], [], [], true⟩ none

theorem build_fresh : build {} none = .built fresh :=
  rfl

theorem Reachable.orderly {settings : Settings} {feed : Option Nat} {s : Engine}
    (h : Reachable settings feed s) : s.Orderly := by
  induction h with
  | built h =>
    obtain ⟨d, r, _, _, rfl⟩ := build_eq h
    exact orderly_initial settings d r feed
  | step a _ h ih => exact orderly_act ih h

theorem Reachable.run {settings : Settings} {feed : Option Nat} {s t : Engine}
    (hr : Reachable settings feed s)
    (h : Relation.ReflTransGen (fun s t => ∃ a, act a s = some t) s t) :
    Reachable settings feed t := by
  induction h with
  | refl => exact hr
  | tail _ hstep ih =>
    obtain ⟨a, ha⟩ := hstep
    exact .step a ih ha

theorem call_split {s : Engine} (hs : s.Orderly) {id : Nat} {o : Operation}
    (h : s.call? id = some o) :
    ∃ l₁ l₂, s.calls = l₁ ++ (id, o) :: l₂ ∧ ∀ x ∈ l₁ ++ l₂, x.1 ≠ id := by
  obtain ⟨l₁, l₂, he, _⟩ := List.lookup_eq_some_iff.mp h
  refine ⟨l₁, l₂, he, fun x hx hid => ?_⟩
  have hn := hs.1
  rw [he, List.map_append, List.map_cons] at hn
  have hn' := (List.nodup_cons.mp (List.nodup_middle.mp hn)).1
  rw [← List.map_append] at hn'
  exact hn' (List.mem_map.mpr ⟨x, hx, hid⟩)

theorem call?_of_mem {s : Engine} (hs : s.Orderly) {id : Nat} {o : Operation}
    (h : (id, o) ∈ s.calls) : s.call? id = some o := by
  obtain ⟨l₁, l₂, hc⟩ := List.append_of_mem h
  refine List.lookup_eq_some_iff.mpr ⟨l₁, l₂, hc, fun x hx => ?_⟩
  have hn := hs.1
  rw [hc, List.map_append, List.map_cons] at hn
  have hne := (List.nodup_append.mp hn).2.2 x.1 (List.mem_map_of_mem hx) id (.head _)
  simpa using hne.symm

theorem map_split {id : Nat} {o o' : Operation} {l₁ l₂ : List (Nat × Operation)}
    (h : ∀ x ∈ l₁ ++ l₂, x.1 ≠ id) :
    (l₁ ++ (id, o) :: l₂).map (fun x => if x.1 = id then (id, o') else x) =
      l₁ ++ (id, o') :: l₂ := by
  have hkeep : ∀ l : List (Nat × Operation), (∀ x ∈ l, x.1 ≠ id) →
      l.map (fun x => if x.1 = id then (id, o') else x) = l := fun l hl =>
    (List.map_congr_left fun x hx => if_neg (hl x hx)).trans (List.map_id' l)
  rw [List.map_append, List.map_cons, if_pos rfl,
    hkeep l₁ fun x hx => h x (List.mem_append_left _ hx),
    hkeep l₂ fun x hx => h x (List.mem_append_right _ hx)]

theorem filter_split {id : Nat} {o : Operation} {l₁ l₂ : List (Nat × Operation)}
    (h : ∀ x ∈ l₁ ++ l₂, x.1 ≠ id) :
    (l₁ ++ (id, o) :: l₂).filter (fun x => x.1 ≠ id) = l₁ ++ l₂ := by
  rw [List.filter_append, List.filter_cons_of_neg (by simp), ← List.filter_append]
  exact List.filter_eq_self.mpr fun x hx => by simpa using h x hx

theorem tasks_of_calls {s : Engine} {id : Nat} {o : Operation} {l₁ l₂ : List (Nat × Operation)}
    (h : s.calls = l₁ ++ (id, o) :: l₂) :
    s.tasks = (.caller id, o) ::ₘ ({ s with calls := l₁ ++ l₂ } : Engine).tasks := by
  simp only [tasks]
  rw [h, Multiset.cons_coe, List.map_append, List.map_cons, List.append_assoc, List.cons_append,
    List.map_append, List.append_assoc]
  exact Multiset.coe_eq_coe.mpr List.perm_middle

theorem tasks_of_worker {s : Engine} {o : Operation} (h : s.worker.task? = some o) :
    s.tasks = (.remover, o) ::ₘ ({ s with worker := .idle } : Engine).tasks := by
  simp only [tasks]
  rw [h, Multiset.cons_coe]
  exact Multiset.coe_eq_coe.mpr List.perm_middle

theorem tasks_of_listener {s : Engine} {o : Operation} (h : s.listener.task? = some o) :
    s.tasks = (.listener, o) ::ₘ ({ s with listener := .idle } : Engine).tasks := by
  simp only [tasks]
  rw [h, Multiset.cons_coe, ← List.append_assoc, ← List.append_assoc]
  exact Multiset.coe_eq_coe.mpr List.perm_middle

theorem tasks_congr {s t : Engine} (hc : t.calls = s.calls) (hw : t.worker.task? = s.worker.task?)
    (hl : t.listener.task? = s.listener.task?) : t.tasks = s.tasks := by
  simp only [tasks]
  rw [hc, hw, hl]

theorem mem_tasks {s : Engine} {p : Party} {o : Operation} :
    (p, o) ∈ s.tasks ↔ (∃ id, (id, o) ∈ s.calls ∧ p = .caller id) ∨
      (p = .remover ∧ s.worker.task? = some o) ∨ (p = .listener ∧ s.listener.task? = some o) := by
  simp only [tasks]
  rw [Multiset.mem_coe, List.mem_append, List.mem_append]
  refine or_congr ?_ (or_congr ?_ ?_)
  · simp only [List.mem_map, Prod.mk.injEq]
    constructor
    · rintro ⟨⟨id, o'⟩, hx, rfl, rfl⟩
      exact ⟨id, hx, rfl⟩
    · rintro ⟨id, hx, rfl⟩
      exact ⟨(id, o), hx, rfl, rfl⟩
  · simp [eq_comm, and_comm]
  · simp [eq_comm, and_comm]

theorem mem_of_task? {s : Engine} {p : Party} {o : Operation} (h : s.task? p = some o) :
    (p, o) ∈ s.tasks := by
  refine mem_tasks.mpr ?_
  cases p with
  | caller id =>
    obtain ⟨l₁, l₂, hl, _⟩ := List.lookup_eq_some_iff.mp h
    exact .inl ⟨id, hl ▸ List.mem_append_right _ (.head _), rfl⟩
  | remover => exact .inr (.inl ⟨rfl, h⟩)
  | listener => exact .inr (.inr ⟨rfl, h⟩)

theorem task?_of_mem {s : Engine} (hs : s.Orderly) {p : Party} {o : Operation}
    (h : (p, o) ∈ s.tasks) : s.task? p = some o := by
  rcases mem_tasks.mp h with ⟨id, hid, rfl⟩ | ⟨rfl, hw⟩ | ⟨rfl, hl⟩
  · exact call?_of_mem hs hid
  · exact hw
  · exact hl

theorem nodup_parties {s : Engine} (hs : s.Orderly) : (s.tasks.map Prod.fst).Nodup := by
  simp only [tasks]
  rw [Multiset.map_coe, Multiset.coe_nodup, List.map_append, List.map_append, List.map_map,
    List.map_map, List.map_map]
  have hc : (s.calls.map (Prod.fst ∘ fun x => (Party.caller x.1, x.2))).Nodup := by
    have hn := hs.1.map fun a b (hab : Party.caller a = Party.caller b) => Party.caller.inj hab
    rwa [List.map_map] at hn
  refine hc.append ?_ ?_
  · cases s.worker.task? <;> cases s.listener.task? <;> simp
  · intro p hp hq
    obtain ⟨x, _, rfl⟩ := List.mem_map.mp hp
    cases hw : s.worker.task? <;> cases hl : s.listener.task? <;> simp [hw, hl] at hq

end Engine

end NodeWatch
