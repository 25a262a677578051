import NodeWatch.Proofs.PathSeclusion

/-! Operations on different paths do not interfere. What an operation comes to is read off the entries
at its own path, and it leaves all others alone, so two operations on different paths come to the same
in either order. -/

namespace NodeWatch

namespace Secluded

variable {reply : Request → Answer} {o : Order} {path q : String} {paths : Set String} {p : Party}
  {s t : Engine} {w : Pursuit} {u : Upshot}

theorem fares (h : Secluded reply o paths p s t w) (ho : o.path? = some path)
    (hpath : path ∈ paths) : w.Fares p path s t (o.upshot reply path s.client) := by
  cases hc : s.client.closed with
  | true => exact h.fares_closed hpath hc
  | false =>
    rw [Order.upshot, if_neg (Bool.eq_false_iff.mp hc)]
    cases o with
    | arm a =>
      obtain rfl := Option.some.inj ho
      exact h.fares_arm hpath hc
    | remove r =>
      obtain rfl := Option.some.inj ho
      change w.Fares p r.path s t (Removal.upshot reply r s.client.registry)
      unfold Removal.upshot
      split
      · rename_i hf
        exact h.fares_invalid hpath hc hf
      · rename_i hv
        have hvalid := Path.isValid_of_validate hv
        split
        · rename_i hr
          exact h.fares_local hpath hc hr hvalid
        · rename_i hr
          exact h.fares_remote hpath hc (Bool.eq_false_iff.mpr hr) hvalid
    | notify e => exact h.fares_notify ho hpath hc
    | enrol b => cases ho
    | session e => cases ho

theorem upshot_eq (h : Secluded reply o paths p s t w) (ho : o.path? = some path)
    (hpath : path ∈ paths) (hu : w.upshot? p path s t = some u) :
    u = o.upshot reply path s.client := by
  rcases h.fares ho hpath with he | ⟨hnone, _⟩
  · exact Option.some.inj (hu.symm.trans he)
  · rw [hnone] at hu
    cases hu

theorem spares (h : Secluded reply o paths p s t w) (ho : o.path? = some path) :
    s.client.Spares path t.client ∧ ∀ x ∈ w.turns, x.before.Spares path x.after := by
  obtain ⟨ht, htask, hclient⟩ := h.begun.begun h.orderly
  obtain ⟨hon, hspares⟩ := Operation.on_start ho s.client
  refine ⟨hclient ▸ hspares, ?_⟩
  exact Pursuit.turns_run (Operation.On path) (fun x => x.before.Spares path x.after) ht htask hon
    (fun _ _ _ _ _ hm hon => Operation.on_move hon hm) h.steps

/-- What is registered at another path is as it was, if nobody else was there. -/
theorem atPath_of_ne (h : Secluded reply o paths p s t w) (ho : o.path? = some path)
    (hq : q ≠ path) (hmem : q ∈ paths) :
    w.engine.client.registry.atPath q = s.client.registry.atPath q := by
  obtain ⟨hstart, hturns⟩ := h.spares ho
  obtain ⟨_, _, hclient⟩ := h.begun.begun h.orderly
  have hkept := (h.linked hmem).eq fun x hx => hturns x hx q hq
  rw [← hclient] at hkept
  exact hkept.trans (hstart q hq)

theorem queuings_eq (h : Secluded reply o paths p s t w)
    (hopen : w.engine.client.deliveries.isOpen = true) :
    Turn.queuings w.turns = Turn.sendings w.turns := by
  obtain ⟨ht, htask, _⟩ := h.begun.begun h.orderly
  exact Turn.queuings_eq_sendings (Pursuit.delivers_run ht htask h.steps)
    (Pursuit.opens_run ht htask rfl h.steps hopen)

end Secluded

/-- An order is carried out to its end on a client that was closed before or was not, and nobody else
changes the registry meanwhile. -/
def Order.Carried (reply : Request → Answer) (o : Order) (path : String) (closed : Bool)
    (reg : Registry) (u : Upshot) (reg' : Registry) : Prop :=
  ∃ p s t w, Secluded reply o Set.univ p s t w ∧ s.client.closed = closed ∧
    s.client.registry = reg ∧ w.upshot? p path s t = some u ∧ w.engine.client.registry = reg'

namespace Order.Carried

variable {reply : Request → Answer} {o o₂ : Order} {path path₂ q : String} {b b₂ : Bool}
  {reg reg₁ reg₂ reg' reg'' : Registry} {u u' u₂ : Upshot}

theorem upshot_congr (h : o.Carried reply path b reg u reg₁) (h' : o.Carried reply path b reg' u' reg₂)
    (ho : o.path? = some path) (hsame : reg.atPath path = reg'.atPath path) : u = u' := by
  obtain ⟨p, s, t, w, hrun, rfl, rfl, hu, _⟩ := h
  obtain ⟨p', s', t', w', hrun', hclosed, rfl, hu', _⟩ := h'
  calc u = o.upshot reply path s.client := hrun.upshot_eq ho (Set.mem_univ _) hu
    _ = o.upshot reply path s'.client := Order.upshot_congr ho hclosed.symm hsame
    _ = u' := (hrun'.upshot_eq ho (Set.mem_univ _) hu').symm

theorem left_eq (h : o.Carried reply path b reg u reg₁) : reg₁.atPath path = u.left := by
  obtain ⟨p, s, t, w, _, _, _, hu, rfl⟩ := h
  obtain ⟨x, _, rfl⟩ := Option.map_eq_some_iff.mp hu
  rfl

theorem atPath_of_ne (h : o.Carried reply path b reg u reg₁) (ho : o.path? = some path)
    (hq : q ≠ path) : reg₁.atPath q = reg.atPath q := by
  obtain ⟨p, s, t, w, hrun, _, rfl, _, rfl⟩ := h
  exact hrun.atPath_of_ne ho hq (Set.mem_univ _)

/-- Two orders on different paths come to the same, and leave the same registry, in either order. -/
theorem comm {v v₂ : Upshot} (ho : o.path? = some path) (ho₂ : o₂.path? = some path₂)
    (hne : path ≠ path₂) (h₁ : o.Carried reply path b reg u reg₁)
    (h₂ : o₂.Carried reply path₂ b₂ reg₁ u₂ reg') (h₃ : o₂.Carried reply path₂ b₂ reg v₂ reg₂)
    (h₄ : o.Carried reply path b reg₂ v reg'') : u = v ∧ u₂ = v₂ ∧ reg' = reg'' := by
  obtain rfl : u = v := h₁.upshot_congr h₄ ho (h₃.atPath_of_ne ho₂ hne).symm
  obtain rfl : u₂ = v₂ := h₂.upshot_congr h₃ ho₂ (h₁.atPath_of_ne ho hne.symm)
  refine ⟨rfl, rfl, Registry.eq_of_atPath fun q => ?_⟩
  by_cases hq : q = path
  · subst hq
    rw [h₂.atPath_of_ne ho₂ hne, h₁.left_eq, h₄.left_eq]
  · rw [h₄.atPath_of_ne ho hq]
    by_cases hq₂ : q = path₂
    · subst hq₂
      rw [h₂.left_eq, h₃.left_eq]
    · rw [h₂.atPath_of_ne ho₂ hq₂, h₁.atPath_of_ne ho hq, h₃.atPath_of_ne ho₂ hq₂]

end Order.Carried

/-! ### Runs in seclusion, action by action -/

/-- The run with these actions, if each is possible and those that are no turns of the party keep what
is to be kept of the registry. -/
def Pursuit.followKeeping (keeps : Registry → Registry → Bool) (p : Party)
    (as : List Engine.Action) (w : Pursuit) : Option Pursuit :=
  as.foldlM (fun w a => (act p a w).bind fun v =>
    if v.turns.length = w.turns.length ∧
        keeps w.engine.client.registry v.engine.client.registry = false then none
    else some v) w

theorem Pursuit.apart_of_followKeeping {keeps : Registry → Registry → Bool} {paths : Set String}
    {p : Party} {as : List Engine.Action} {w v : Pursuit}
    (hkeeps : ∀ reg reg', keeps reg reg' = true → ∀ q ∈ paths, reg'.atPath q = reg.atPath q)
    (h : followKeeping keeps p as w = some v) : Relation.ReflTransGen (Apart p paths) w v := by
  refine run_of_foldlM (fun a _ w v hv => ?_) h
  obtain ⟨u, hu, hv⟩ := Option.bind_eq_some_iff.mp hv
  obtain ⟨hkept, hv⟩ := Option.ite_none_left_eq_some.mp hv
  obtain rfl := Option.some.inj hv
  refine ⟨⟨a, hu⟩, fun hturns => hkeeps _ _ ?_⟩
  by_contra hnot
  exact hkept ⟨congrArg List.length hturns, Bool.eq_false_iff.mpr hnot⟩

/-- A caller's order from its beginning to its end, if the server answers in this way. -/
def Order.carry (reply : Request → Answer) (keeps : Registry → Registry → Bool) (o : Order)
    (path : String) (as : List Engine.Action) (s : Engine) : Option (Engine × Pursuit × Upshot) := do
  let t ← Engine.act (.begin o) s
  let w ← Pursuit.followKeeping keeps (.caller s.nextCall) as ⟨t, []⟩
  let u ← w.upshot? (.caller s.nextCall) path s t
  if (w.turns.filterMap Turn.reply?).all fun y => decide (y.2 = reply y.1) then some (t, w, u)
  else none

theorem Secluded.of_carry {reply : Request → Answer} {keeps : Registry → Registry → Bool}
    {paths : Set String} {o : Order} {path : String} {as : List Engine.Action} {s : Engine}
    {x : Engine × Pursuit × Upshot} (hs : s.Orderly)
    (hkeeps : ∀ reg reg', keeps reg reg' = true → ∀ q ∈ paths, reg'.atPath q = reg.atPath q)
    (h : o.carry reply keeps path as s = some x) :
    Secluded reply o paths (.caller s.nextCall) s x.1 x.2.1 ∧
      x.2.1.upshot? (.caller s.nextCall) path s x.1 = some x.2.2 ∧ x.2.1.engine.Orderly := by
  obtain ⟨t, hact, h⟩ := Option.bind_eq_some_iff.mp h
  obtain ⟨w, hfollow, h⟩ := Option.bind_eq_some_iff.mp h
  obtain ⟨u, hu, h⟩ := Option.bind_eq_some_iff.mp h
  split at h
  · rename_i hall
    obtain rfl := Option.some.inj h
    have hrun := Pursuit.apart_of_followKeeping hkeeps hfollow
    obtain ⟨ht, htask, _⟩ := Engine.begun hs hact
    obtain ⟨horderly, _⟩ := Pursuit.task_run ht htask (Pursuit.steps_of_apart hrun)
    refine ⟨⟨hs, .called o t hact, hrun, fun y hy q a hreply => ?_⟩, hu, horderly⟩
    exact of_decide_eq_true (List.all_eq_true.mp hall _ (List.mem_filterMap.mpr ⟨y, hy, hreply⟩))
  · cases h

theorem Order.Carried.of_carry {reply : Request → Answer} {o : Order} {path : String}
    {as : List Engine.Action} {s : Engine} {x : Engine × Pursuit × Upshot} (hs : s.Orderly)
    (h : o.carry reply (fun _ _ => false) path as s = some x) :
    o.Carried reply path s.client.closed s.client.registry x.2.2 x.2.1.engine.client.registry ∧
      x.2.1.engine.Orderly := by
  have hkeeps : ∀ reg reg' : Registry, false = true →
      ∀ q ∈ Set.univ, reg'.atPath q = reg.atPath q := fun _ _ h => by cases h
  obtain ⟨hrun, hu, horderly⟩ := Secluded.of_carry hs hkeeps h
  exact ⟨⟨_, s, x.1, x.2.1, hrun, rfl, rfl, hu, rfl⟩, horderly⟩

/-- A server that keeps its watches for children. -/
def dropsData : Request → Answer
  | .remove _ .children => .error .connectionLoss
  | .remove .. | .register .. => .ok .removed

def deletion : WatchedEvent :=
  ⟨.nodeDeleted, .syncConnected, some "/b"⟩

/-- Somebody watches a node and its children. -/
def pairScript : List Engine.Action :=
  [.begin (.arm ⟨.presence, "/a", .watcher (.named "w")⟩),
    .answer (.caller 0) 0 (.ok (.presence true)),
    .begin (.arm ⟨.listing, "/a", .watcher (.named "w")⟩),
    .answer (.caller 1) 0 (.ok (.listing []))]

/-- Somebody else watches two other nodes. -/
def elsewhereScript : List Engine.Action :=
  [.begin (.arm ⟨.contents, "/a/b", .watcher (.named "v")⟩),
    .answer (.caller 2) 0 (.ok (.contents "")),
    .begin (.arm ⟨.contents, "/b", .watcher (.named "v")⟩),
    .answer (.caller 3) 0 (.ok (.contents ""))]

def removalScript (n : Nat) (meanwhile : List Engine.Action) : List Engine.Action :=
  [.resume (.caller n), .resume (.caller n), .answer (.caller n) 0 (.ok .removed)] ++ meanwhile ++
    [.answer (.caller n) 1 (.error .connectionLoss), .resume (.caller n), .resume (.caller n),
      .resume (.caller n), .resume (.caller n)]

def deletionScript (n : Nat) : List Engine.Action :=
  [.resume (.caller n), .resume (.caller n)]

/-- Paths do not interfere. Let an order on one path be carried out while nobody else changes the
entries there, and the server answer its requests in the same way each time. Whatever is registered
elsewhere, from the same entries at its path it returns the same, makes the same requests, sends the
same deliveries, which are queued as long as that is possible, and leaves the same entries. It leaves
those of every other path as they were. Until it ends, it goes on. So orders on different paths may
change places. -/
theorem paths_do_not_interfere {reply : Request → Answer} {o : Order} {path : String}
    (ho : o.path? = some path) :
    (∀ p s t w p' s' t' w' u u', Secluded reply o {path} p s t w →
      Secluded reply o {path} p' s' t' w' → s.client.closed = s'.client.closed →
      s.client.registry.atPath path = s'.client.registry.atPath path →
      w.upshot? p path s t = some u → w'.upshot? p' path s' t' = some u' → u = u') ∧
    (∀ p s t w, Secluded reply o {path} p s t w →
      (s.client.Spares path t.client ∧ ∀ x ∈ w.turns, x.before.Spares path x.after) ∧
      (w.engine.client.deliveries.isOpen = true →
        Turn.queuings w.turns = Turn.sendings w.turns) ∧
      ((∃ u, w.upshot? p path s t = some u) ∨
        ∃ op, w.engine.task? p = some op ∧ op.Proceeds p w.engine.client)) ∧
    ∀ (o₂ : Order) path₂, o₂.path? = some path₂ → path ≠ path₂ →
      ∀ b b₂ reg reg₁ reg₂ reg' reg'' u u₂ v v₂,
        o.Carried reply path b reg u reg₁ → o₂.Carried reply path₂ b₂ reg₁ u₂ reg' →
        o₂.Carried reply path₂ b₂ reg v₂ reg₂ → o.Carried reply path b reg₂ v reg'' →
        u = v ∧ u₂ = v₂ ∧ reg' = reg'' := by
  have hmem : path ∈ ({path} : Set String) := Set.mem_singleton _
  refine ⟨fun p s t w p' s' t' w' u u' h h' hclosed hsame hu hu' => ?_, fun p s t w h => ?_,
    fun o₂ path₂ ho₂ hne b b₂ reg reg₁ reg₂ reg' reg'' u u₂ v v₂ h₁ h₂ h₃ h₄ =>
      Order.Carried.comm ho ho₂ hne h₁ h₂ h₃ h₄⟩
  · rw [h.upshot_eq ho hmem hu, h'.upshot_eq ho hmem hu', Order.upshot_congr ho hclosed hsame]
  · exact ⟨h.spares ho, h.queuings_eq, (h.fares ho hmem).imp (fun he => ⟨_, he⟩) And.right⟩

/-- A subscriber of two kinds is removed, once from a client that lists nothing else and once from one
that lists two more paths, where another node is deleted meanwhile. It comes to the same, and the
removal and the deletion may change places. -/
theorem removal_apart_from_deletion :
    (∃ (s t s' t' : Engine) (w w' : Pursuit) (u : Upshot),
      Secluded dropsData (.remove Removal.soleRemoval) {"/a"} (.caller s.nextCall) s t w ∧
      Secluded dropsData (.remove Removal.soleRemoval) {"/a"} (.caller s'.nextCall) s' t' w' ∧
      s.client.registry.snapshot (some "/b") = [] ∧
      s'.client.registry.snapshot (some "/b") = [⟨"/b", .data, .watcher (.named "v")⟩] ∧
      w'.engine.client.registry.snapshot (some "/b") = [] ∧
      w.upshot? (.caller s.nextCall) "/a" s t = some u ∧
      w'.upshot? (.caller s'.nextCall) "/a" s' t' = some u ∧
      u.requests = [.remove "/a" .data, .remove "/a" .children] ∧
      u.deliveries = Removal.confirmations [⟨"/a", .data, .watcher (.named "w")⟩] ∧
      u.left = ⟨[], [.watcher (.named "w")]⟩) ∧
    ∃ (reg reg₁ reg₂ reg' : Registry) (u u₂ : Upshot),
      Order.Carried dropsData (.remove Removal.soleRemoval) "/a" false reg u reg₁ ∧
      Order.Carried dropsData (.notify deletion) "/b" false reg₁ u₂ reg' ∧
      Order.Carried dropsData (.notify deletion) "/b" false reg u₂ reg₂ ∧
      Order.Carried dropsData (.remove Removal.soleRemoval) "/a" false reg₂ u reg' ∧
      u₂.deliveries = Notification.firings deletion [⟨"/b", .data, .watcher (.named "v")⟩] ∧
      reg'.snapshot none = [⟨"/a", .children, .watcher (.named "w")⟩,
        ⟨"/a/b", .data, .watcher (.named "v")⟩] := by
  constructor
  · have hrun : (Engine.follow pairScript Engine.fresh).any (fun s =>
        (Engine.follow elsewhereScript s).any fun s' =>
        (Order.carry dropsData (fun r r' => decide (r'.atPath "/a" = r.atPath "/a"))
          (.remove Removal.soleRemoval) "/a" (removalScript 2 []) s).any fun x =>
        (Order.carry dropsData (fun r r' => decide (r'.atPath "/a" = r.atPath "/a"))
          (.remove Removal.soleRemoval) "/a" (removalScript 4 [.begin (.notify deletion)]) s').any
            fun y =>
          decide (s.client.closed = s'.client.closed ∧
            s.client.registry.atPath "/a" = s'.client.registry.atPath "/a" ∧
            s.client.registry.snapshot (some "/b") = [] ∧
            s'.client.registry.snapshot (some "/b") = [⟨"/b", .data, .watcher (.named "v")⟩] ∧
            y.2.1.engine.client.registry.snapshot (some "/b") = [] ∧
            x.2.2.requests = [.remove "/a" .data, .remove "/a" .children] ∧
            x.2.2.deliveries = Removal.confirmations [⟨"/a", .data, .watcher (.named "w")⟩] ∧
            x.2.2.left = ⟨[], [.watcher (.named "w")]⟩)) = true := by
      decide +kernel
    obtain ⟨s, hs, hrun⟩ := (Option.any_eq_true _ _).mp hrun
    obtain ⟨s', hs', hrun⟩ := (Option.any_eq_true _ _).mp hrun
    obtain ⟨x, hx, hrun⟩ := (Option.any_eq_true _ _).mp hrun
    obtain ⟨y, hy, hrun⟩ := (Option.any_eq_true _ _).mp hrun
    obtain ⟨hclosed, hsame, hnone, hsome, hgone, hasked, hsent, hleft⟩ := of_decide_eq_true hrun
    have hreachable := Engine.reachable_of_fresh hs
    have hkeeps : ∀ reg reg' : Registry, decide (reg'.atPath "/a" = reg.atPath "/a") = true →
        ∀ q ∈ ({"/a"} : Set String), reg'.atPath q = reg.atPath q := by
      rintro reg reg' h q rfl
      exact of_decide_eq_true h
    obtain ⟨hsecluded, hu, _⟩ := Secluded.of_carry hreachable.orderly hkeeps hx
    obtain ⟨hsecluded', hu', _⟩ :=
      Secluded.of_carry (Engine.reachable_of_follow hreachable hs').orderly hkeeps hy
    have hequal := (paths_do_not_interfere rfl).1 _ _ _ _ _ _ _ _ _ _ hsecluded hsecluded' hclosed
      hsame hu hu'
    exact ⟨s, x.1, s', y.1, x.2.1, y.2.1, x.2.2, hsecluded, hsecluded', hnone, hsome, hgone, hu,
      hequal ▸ hu', hasked, hsent, hleft⟩
  · have hrun : (Engine.follow (pairScript ++ elsewhereScript) Engine.fresh).any (fun s =>
        (Order.carry dropsData (fun _ _ => false) (.remove Removal.soleRemoval) "/a"
          (removalScript 4 []) s).any fun x₁ =>
        (Order.carry dropsData (fun _ _ => false) (.notify deletion) "/b" (deletionScript 5)
          x₁.2.1.engine).any fun x₂ =>
        (Order.carry dropsData (fun _ _ => false) (.notify deletion) "/b" (deletionScript 4) s).any
          fun x₃ =>
        (Order.carry dropsData (fun _ _ => false) (.remove Removal.soleRemoval) "/a"
          (removalScript 5 []) x₃.2.1.engine).any fun _ =>
          decide (s.client.closed = false ∧ x₁.2.1.engine.client.closed = false ∧
            x₃.2.1.engine.client.closed = false ∧
            x₂.2.2.deliveries =
              Notification.firings deletion [⟨"/b", .data, .watcher (.named "v")⟩] ∧
            x₂.2.1.engine.client.registry.snapshot none =
              [⟨"/a", .children, .watcher (.named "w")⟩,
                ⟨"/a/b", .data, .watcher (.named "v")⟩])) = true := by
      decide +kernel
    obtain ⟨s, hs, hrun⟩ := (Option.any_eq_true _ _).mp hrun
    obtain ⟨x₁, hx₁, hrun⟩ := (Option.any_eq_true _ _).mp hrun
    obtain ⟨x₂, hx₂, hrun⟩ := (Option.any_eq_true _ _).mp hrun
    obtain ⟨x₃, hx₃, hrun⟩ := (Option.any_eq_true _ _).mp hrun
    obtain ⟨x₄, hx₄, hrun⟩ := (Option.any_eq_true _ _).mp hrun
    obtain ⟨hclosed, hclosed₁, hclosed₃, hsent, hleft⟩ := of_decide_eq_true hrun
    have hreachable := Engine.reachable_of_fresh hs
    obtain ⟨h₁, hs₁⟩ := Order.Carried.of_carry hreachable.orderly hx₁
    obtain ⟨h₂, _⟩ := Order.Carried.of_carry hs₁ hx₂
    obtain ⟨h₃, hs₃⟩ := Order.Carried.of_carry hreachable.orderly hx₃
    obtain ⟨h₄, _⟩ := Order.Carried.of_carry hs₃ hx₄
    rw [hclosed] at h₁ h₃
    rw [hclosed₁] at h₂
    rw [hclosed₃] at h₄
    obtain ⟨hu, hu₂, hreg⟩ := (paths_do_not_interfere rfl).2.2 _ _ rfl (by decide) _ _ _ _ _ _ _ _ _
      _ _ h₁ h₂ h₃ h₄
    rw [← hu, ← hreg] at h₄
    rw [← hu₂] at h₃
    exact ⟨_, _, _, _, _, _, h₁, h₂, h₃, h₄, hsent, hleft⟩

end NodeWatch
