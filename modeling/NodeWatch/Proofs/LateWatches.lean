import NodeWatch.Proofs.ScriptedCrossing

/-! Watches that the server has lost while the client lists entries under them. A removal that made
the server drop a watch looks afterwards whether anybody registered in the meantime, and a
notification takes the entries with it; but a read whose answer is acted upon when all that is over
leaves a dead watch behind, and nothing else does. -/

namespace NodeWatch

open Session (Spot)

namespace Removal

/-- The removal has made the server drop the watch of this kind, or is about to learn that it has,
and will arm it again if somebody holds it. The answers on their way to it are given by slot. -/
def Owes (u : Nat → Option Answer) (k : Kind) : Stage → Prop
  | .asking p answers => ∃ (i : Nat) (x : Response), p.server[i]? = some k ∧
      (answers[i]? = some (some (.ok x)) ∨ u i = some (.ok x))
  | .confirming _ o => k ∈ o.cleared
  | .checking ks _ => k ∈ ks
  | .rearming k' ks _ => k ∈ ks ∨ k' = k ∧ u 0 = none
  | .done _ => False

variable {r : RemovalRequest} {u : Nat → Option Answer} {k : Kind} {c c' : Client}

theorem entries_resume {party : Party} {st st' : Stage} (hm : resume r party st c = some (st', c'))
    {e : Entry} (h : e ∈ c'.registry) : e ∈ c.registry := by
  cases resumed hm with
  | advanced p answers empty => exact (thins_advance p answers c).entries h
  | telling e es o =>
    rw [Client.registry_send] at h
    exact h
  | asked | told | finished | passed | rearming => exact h

theorem entries_start {e : Entry} (h : e ∈ (start r c).2.registry) : e ∈ c.registry := by
  have hstart := started r c
  generalize start r c = x at hstart h
  cases hstart with
  | invalid | idle | asking => exact h
  | unmatched | taken => exact (Registry.mem_takeOut_snd.mp h).1

theorem owes_resume {party : Party} {st st' : Stage} (h : Owes u k st)
    (hm : resume r party st c = some (st', c'))
    (hu : ∀ i y, u i = some y → ∃ q, (Operation.removal r st).Awaits i q)
    (hheld : (⟨r.path, k⟩ : Spot) ∈ c.registry.spots) : Owes u k st' := by
  cases resumed hm with
  | asked p answers k' next =>
    obtain ⟨i, x, hk, hx | hx⟩ := h
    · have hlt : i < answers.length := (List.getElem?_eq_some_iff.mp hx).1
      exact ⟨i, x, hk, .inl (by rw [List.getElem?_append_left hlt, hx])⟩
    · exact ⟨i, x, hk, .inr hx⟩
  | advanced p answers empty =>
    obtain ⟨i, x, hk, _⟩ := h
    rw [empty] at hk
    cases hk
  | told o => exact h
  | telling e es o => exact h
  | finished o result => exact absurd h List.not_mem_nil
  | passed k' ks o unheld =>
    refine (List.mem_cons.mp h).resolve_left ?_
    rintro rfl
    exact unheld hheld
  | rearming k' ks o held =>
    rcases List.mem_cons.mp h with rfl | hks
    · refine .inr ⟨rfl, ?_⟩
      cases hu0 : u 0 with
      | none => rfl
      | some y =>
        obtain ⟨q, hq⟩ := hu 0 y hu0
        cases hq
    · exact .inl hks

/-- An answer that reaches a removal is not forgotten. -/
theorem owes_answer {slot : Nat} {x : Answer} {st st' : Stage} (h : Owes u k st)
    (hm : answer r slot x st c = some (st', c')) (hx : u slot = some x)
    (hu : ∀ i y, u i = some y → ∃ q, (Operation.removal r st).Awaits i q) :
    Owes (Function.update u slot none) k st' := by
  cases replied hm with
  | advanced p answers awaited =>
    have hlt : slot < answers.length := (List.getElem?_eq_some_iff.mp awaited).1
    obtain ⟨i, y, hk, hy⟩ := h
    by_cases hi : i = slot
    · subst hi
      have hxy : x = .ok y := by
        rcases hy with hy | hy
        · rw [awaited] at hy
          cases hy
        · exact Option.some.inj (hx.symm.trans hy)
      subst hxy
      have hset : (answers.set i (some (.ok y)))[i]? = some (some (.ok y)) := by
        rw [List.getElem?_set, if_pos rfl, if_pos hlt]
      rcases advance_cases r p (answers.set i (some (.ok y))) c with ⟨_, ha⟩ | ⟨as, has, _, ha⟩
      · rw [ha]
        exact ⟨i, y, hk, .inl hset⟩
      · rw [ha]
        change k ∈ (reconcile r p as c).1.cleared
        rw [(drawn_reconcile r p as c).cleared]
        exact mem_cleared.mpr ⟨y, i, hk, has ▸ hset⟩
    · have hset : (answers.set slot (some x))[i]? = answers[i]? := by
        rw [List.getElem?_set, if_neg fun he => hi he.symm]
      rcases advance_cases r p (answers.set slot (some x)) c with ⟨_, ha⟩ | ⟨as, has, _, ha⟩
      · rw [ha]
        refine ⟨i, y, hk, ?_⟩
        rw [hset, Function.update_of_ne hi]
        exact hy
      · rw [ha]
        change k ∈ (reconcile r p as c).1.cleared
        rw [(drawn_reconcile r p as c).cleared]
        refine mem_cleared.mpr ⟨y, i, hk, ?_⟩
        rw [← has, hset]
        refine hy.resolve_right fun hui => ?_
        -- every other slot was answered, so nothing is on its way to it
        obtain ⟨q, hq⟩ := hu i _ hui
        cases hq with
        | removing _ _ _ _ _ unanswered =>
          rw [has, List.getElem?_map] at hset
          rw [unanswered] at hset
          cases hget : as[i]? <;> simp [hget] at hset
  | rearmed k' ks o first c' aside unasked =>
    subst first
    rcases h with hks | ⟨_, hn⟩
    · exact hks
    · rw [hx] at hn
      cases hn

theorem owes_handled {slot : Nat} {x : Answer} {st : Stage} (h : Owes u k st)
    (hn : u slot = none) (hne : ∀ ks o, st = .rearming k ks o → slot ≠ 0) :
    Owes (Function.update u slot (some x)) k st := by
  cases st with
  | asking p answers =>
    obtain ⟨i, y, hk, hy | hy⟩ := h
    · exact ⟨i, y, hk, .inl hy⟩
    · refine ⟨i, y, hk, .inr ?_⟩
      have hi : i ≠ slot := by
        rintro rfl
        rw [hn] at hy
        cases hy
      rw [Function.update_of_ne hi, hy]
  | rearming k' ks o =>
    rcases h with hks | ⟨rfl, hu⟩
    · exact .inl hks
    · refine .inr ⟨rfl, ?_⟩
      rw [Function.update_of_ne (hne ks o rfl).symm, hu]
  | confirming rest o => exact h
  | checking ks o => exact h
  | done result => exact h

end Removal

namespace Operation

theorem spots_start_subset {o : Order} (hd : o.isDirect = true) (c : Client) :
    (start o c).2.registry.spots ⊆ c.registry.spots := by
  have hstart := started o c
  generalize start o c = x at hstart ⊢
  cases hstart with
  | unread | asked | unremoved | unenrolled | offering => exact subset_rfl
  | removing r =>
    rintro κ ⟨e, he, rfl⟩
    exact ⟨e, Removal.entries_start he, rfl⟩
  | ignored | announced | fired | unhandled | handling => cases hd

theorem spots_resume_subset {o o' : Operation} {p : Party} {c c' : Client}
    (hm : o.resume p c = some (o', c')) (hns : ∀ st, o ≠ .session st) :
    c'.registry.spots ⊆ c.registry.spots := by
  cases moves (m := .resume) hm with
  | removing r st st' c' resume =>
    rintro κ ⟨e, he, rfl⟩
    exact ⟨e, Removal.entries_resume resume he, rfl⟩
  | refused | enrolled | lining | notified => exact subset_rfl
  | notifying d ds => rw [Client.registry_send]
  | handling st => exact absurd rfl (hns st)

end Operation

namespace Crossing

/-- What is listed under no watch of the server's. -/
def dead (w : Crossing) : Set Spot :=
  { κ | κ ∈ w.engine.client.registry.spots ∧ κ ∉ w.watched }

/-- A notification on its way takes the entries of a dead watch with it, or a removal will see to
it. -/
def Owed (w : Crossing) (κ : Spot) : Prop :=
  (∃ e ∈ w.notices, e.path = some κ.path ∧ κ.kind ∈ e.type.triggered) ∨
    ∃ p r st, (p, .removal r st) ∈ w.engine.tasks ∧ r.path = κ.path ∧
      Removal.Owes (w.underway p) κ.kind st

/-- An arming whose answer is acted upon in this step comes too late: the server has lost its watch
since, and nobody will see to it. -/
def Tardy (w w' : Crossing) (κ : Spot) : Prop :=
  ∃ p a x, (p, .arming a .asked) ∈ w.engine.tasks ∧
    (p, .arming a (.done (.ok x))) ∈ w'.engine.tasks ∧ a.entry.spot = κ ∧ κ ∉ w.watched ∧ ¬w.Owed κ

/-- A step, with the watches that were armed too late and are dead ever since. -/
def Follows (admits : Order → Prop) (x y : Crossing × Set Spot) : Prop :=
  Step admits x.1 y.1 ∧ y.2 = { κ | κ ∈ y.1.dead ∧ (κ ∈ x.2 ∨ Tardy x.1 y.1 κ) }

variable {admits : Order → Prop} {w w' : Crossing} {κ : Spot}

theorem Owed.of_tasks (h : w.Owed κ) (hn : ∀ e ∈ w.notices, e ∈ w'.notices)
    (ht : ∀ p r st, (p, .removal r st) ∈ w.engine.tasks → r.path = κ.path →
      Removal.Owes (w.underway p) κ.kind st → ∃ st', (p, .removal r st') ∈ w'.engine.tasks ∧
        Removal.Owes (w'.underway p) κ.kind st') : w'.Owed κ := by
  rcases h with ⟨e, he, hhit⟩ | ⟨p, r, st, hm, hp, ho⟩
  · exact .inl ⟨e, hn e he, hhit⟩
  · obtain ⟨st', hm', ho'⟩ := ht p r st hm hp ho
    exact .inr ⟨p, r, st', hm', hp, ho'⟩

theorem Owed.of_moved (h : w.Owed κ) (ho : w.engine.Orderly) {t : Engine} {u : Underway}
    {p : Party} {o o' : Operation} {rest : Multiset (Party × Operation)}
    (before : w.engine.tasks = (p, o) ::ₘ rest) (after : t.tasks = (p, o') ::ₘ rest)
    (hu : ∀ p', p' ≠ p → u p' = w.underway p')
    (hm : ∀ r st, o = .removal r st → r.path = κ.path → Removal.Owes (w.underway p) κ.kind st →
      ∃ st', o' = .removal r st' ∧ Removal.Owes (u p) κ.kind st') :
    Owed { w with engine := t, underway := u } κ := by
  refine h.of_tasks (fun e he => he) fun p' r st hmem hp howes => ?_
  change ∃ st', (p', _) ∈ t.tasks ∧ _
  by_cases hpp : p' = p
  · subst hpp
    obtain rfl := Engine.task_unique ho (before ▸ Multiset.mem_cons_self _ _) hmem
    obtain ⟨st', rfl, howes'⟩ := hm r st rfl hp howes
    exact ⟨st', after ▸ Multiset.mem_cons_self _ _, howes'⟩
  · rw [before, Multiset.mem_cons] at hmem
    have hrest := hmem.resolve_left fun he => hpp (Prod.mk.inj he).1
    refine ⟨st, after ▸ Multiset.mem_cons_of_mem hrest, ?_⟩
    change Removal.Owes (u p') κ.kind st
    rw [hu p' hpp]
    exact howes

theorem Sound.awaits_of_underway (hw : w.Sound) {p : Party} {o : Operation}
    (hm : (p, o) ∈ w.engine.tasks) {i : Nat} {y : Answer} (hy : w.underway p i = some y) :
    ∃ q, o.Awaits i q := by
  obtain ⟨o', q, hm', hq⟩ := hw.awaited p i y hy
  obtain rfl := Engine.task_unique hw.orderly hm hm'
  exact ⟨q, hq⟩

theorem owed_of_begun {t : Engine} {p : Party} {o : Operation}
    (htasks : t.tasks = (p, o) ::ₘ w.engine.tasks) (h : w.Owed κ) :
    Owed { w with engine := t } κ := by
  refine h.of_tasks (fun e he => he) fun p' r st hm _ ho => ⟨st, ?_, ho⟩
  change (p', _) ∈ t.tasks
  rw [htasks]
  exact Multiset.mem_cons_of_mem hm

theorem owed_of_notified {t : Engine} {p : Party} {o : Operation} {e : WatchedEvent}
    {rest : Multiset WatchedEvent} (hn : w.notices = e ::ₘ rest)
    (htasks : t.tasks = (p, o) ::ₘ w.engine.tasks)
    (hhit : ¬(e.path = some κ.path ∧ κ.kind ∈ e.type.triggered)) (h : w.Owed κ) :
    Owed { w with engine := t, notices := rest } κ := by
  rcases h with ⟨e', he', hhit'⟩ | ⟨p', r, st, hm, hp, ho⟩
  · rw [hn, Multiset.mem_cons] at he'
    rcases he' with rfl | he'
    · exact absurd hhit' hhit
    · exact .inl ⟨e', he', hhit'⟩
  · refine .inr ⟨p', r, st, ?_, hp, ho⟩
    change (p', _) ∈ t.tasks
    rw [htasks]
    exact Multiset.mem_cons_of_mem hm

theorem owed_of_resumed (hw : w.Sound) {t : Engine} {p : Party} {o o' : Operation}
    {rest : Multiset (Party × Operation)} (before : w.engine.tasks = (p, o) ::ₘ rest)
    (move : o.resume p w.engine.client = some (o', t.client)) (after : t.tasks = (p, o') ::ₘ rest)
    (hheld : κ ∈ w.engine.client.registry.spots) (h : w.Owed κ) :
    Owed { w with engine := t } κ := by
  refine h.of_moved hw.orderly before after (fun _ _ => rfl) fun r st ho hp howes => ?_
  subst ho
  obtain ⟨st', rfl, hr⟩ := Operation.of_part move
  have hmem : (p, .removal r st) ∈ w.engine.tasks := before ▸ Multiset.mem_cons_self _ _
  refine ⟨st', rfl, Removal.owes_resume howes hr (fun i y hy => ?_) (by rw [hp]; exact hheld)⟩
  exact hw.awaits_of_underway hmem hy

theorem owed_of_replied (hw : w.Sound) {t : Engine} {p : Party} {slot : Nat} {x : Answer}
    {o o' : Operation} {rest : Multiset (Party × Operation)} (sent : w.underway p slot = some x)
    (before : w.engine.tasks = (p, o) ::ₘ rest)
    (move : o.answer slot x w.engine.client = some (o', t.client))
    (after : t.tasks = (p, o') ::ₘ rest) (h : w.Owed κ) :
    Owed { w with engine := t, underway := w.underway.put p slot none } κ := by
  refine h.of_moved hw.orderly before after (fun p' hp => Function.update_of_ne hp _ _)
    fun r st ho hp howes => ?_
  subst ho
  obtain ⟨st', rfl, hr⟩ := Operation.of_part move
  have hmem : (p, .removal r st) ∈ w.engine.tasks := before ▸ Multiset.mem_cons_self _ _
  refine ⟨st', rfl, ?_⟩
  rw [Underway.put, Function.update_self]
  exact Removal.owes_answer howes hr sent fun i y hy => hw.awaits_of_underway hmem hy

theorem owed_of_sent (hw : w.Sound) {p : Party} {o : Operation} {slot : Nat} {x : Answer}
    {S : Set Spot} (task : (p, o) ∈ w.engine.tasks) (unanswered : w.underway p slot = none)
    (hne : ∀ r ks st, o = .removal r (.rearming κ.kind ks st) → r.path = κ.path → slot ≠ 0)
    (h : w.Owed κ) :
    Owed { w with watched := S, underway := w.underway.put p slot (some x) } κ := by
  refine h.of_tasks (fun e he => he) fun p' r st hm hp ho => ⟨st, hm, ?_⟩
  change Removal.Owes (w.underway.put p slot (some x) p') κ.kind st
  by_cases hpp : p' = p
  · subst hpp
    obtain rfl := Engine.task_unique hw.orderly task hm
    rw [Underway.put, Function.update_self]
    refine Removal.owes_handled ho unanswered fun ks st' hst => ?_
    subst hst
    exact hne r ks st' rfl hp
  · rw [Underway.put, Function.update_of_ne hpp]
    exact ho

theorem owed_of_handled (hw : w.Sound) {p : Party} {o : Operation} {slot : Nat} {q : Request}
    {x : Answer} {S : Set Spot} (task : (p, o) ∈ w.engine.tasks) (awaits : o.Awaits slot q)
    (unanswered : w.underway p slot = none) (serves : Serves w.watched q x S)
    (unfailing : ∀ f, x = .error f → f.isNoWatcher = true) (hκ : κ ∉ S)
    (h : κ ∉ w.watched → w.Owed κ) :
    Owed { w with watched := S, underway := w.underway.put p slot (some x) } κ := by
  cases serves with
  | registered path read y =>
    have hnew : κ ≠ ⟨path, read.kind⟩ := fun he => hκ (.inl he)
    refine owed_of_sent hw task unanswered ?_ (h fun hm => hκ (.inr hm))
    rintro r ks st rfl hp _
    cases awaits with
    | rearming =>
      apply hnew
      rw [Read.kind_rearming, hp]
  | dropped path k y known =>
    cases awaits with
    | removing r pl answers slot k unanswered' kind =>
      by_cases he : κ = ⟨r.path, k⟩
      · subst he
        refine .inr ⟨p, r, _, task, rfl, slot, y, kind, .inr ?_⟩
        change w.underway.put p slot (some (.ok y)) p slot = _
        exact Underway.put_self ..
      · refine owed_of_sent hw task unanswered (fun _ _ _ ho => ?_) (h fun hm => hκ ⟨hm, he⟩)
        cases ho
  | unknown path k f absent fault =>
    refine owed_of_sent hw task unanswered ?_ (h hκ)
    rintro r ks st rfl _ _
    cases awaits
  | failed _ f fault =>
    rw [unfailing f rfl] at fault
    cases fault

theorem owed_of_beside {t : Engine} (keeps : w.engine.Keeps t) (h : w.Owed κ) :
    Owed { w with engine := t } κ := by
  refine h.of_tasks (fun e he => he) fun p r st hm _ ho => ⟨st, ?_, ho⟩
  refine keeps.mem_of_unfinished hm fun hf => ?_
  cases st <;> first | exact ho | cases hf

/-- Every dead watch is owed, or was armed too late. -/
structure Guarded (w : Crossing) (late : Set Spot) : Prop where
  sound : w.Sound
  owed : ∀ κ ∈ w.dead, w.Owed κ ∨ κ ∈ late
  dead : late ⊆ w.dead

theorem owed_or_tardy {late : Set Spot} (hw : w.Guarded late) (h : Passage admits w w')
    (hd : κ ∈ w'.dead) : w'.Owed κ ∨ κ ∈ late ∨ Tardy w w' κ := by
  have hold : κ ∈ w.dead → (w.Owed κ → w'.Owed κ) → w'.Owed κ ∨ κ ∈ late ∨ Tardy w w' κ :=
    fun hdead himp => (hw.owed κ hdead).elim (fun h => .inl (himp h)) fun h => .inr (.inl h)
  obtain ⟨hheld, hlost⟩ := hd
  cases h with
  | begun t p o taken source direct opened fresh tasks client handed =>
    refine hold ⟨?_, hlost⟩ (owed_of_begun tasks)
    change κ ∈ t.client.registry.spots at hheld
    rw [client] at hheld
    exact Operation.spots_start_subset direct _ hheld
  | notified t p e rest notice opened fresh tasks client handed =>
    change κ ∈ t.client.registry.spots at hheld
    rw [client] at hheld
    have hleaves : κ ∈ e.leaves w.engine.client.registry.spots :=
      Notification.spots_start opened e ▸ hheld
    exact hold ⟨hleaves.1, hlost⟩ (owed_of_notified notice tasks hleaves.2)
  | resumed t p o o' rest before move after handed =>
    obtain ⟨hns, _⟩ := hw.sound.after_moved (m := .resume) before move (.inl after)
    have hback := Operation.spots_resume_subset move hns hheld
    exact hold ⟨hback, hlost⟩ (owed_of_resumed hw.sound before move after hback)
  | replied t p slot x o o' rest sent before move after handed =>
    have himp := owed_of_replied (κ := κ) hw.sound sent before move after
    have hmem : (p, o) ∈ w.engine.tasks := before ▸ Multiset.mem_cons_self _ _
    change κ ∈ t.client.registry.spots at hheld
    have hmoves := Operation.moves (m := .answer slot x) (p := p) move
    generalize t.client = c at hheld hmoves
    cases hmoves with
    | failed a f => exact hold ⟨hheld, hlost⟩ himp
    | armed a y =>
      rw [Client.registry_arm, Set.mem_insert_iff] at hheld
      rcases hheld with rfl | hheld
      · by_cases ho : w.Owed a.entry.spot
        · exact .inl (himp ho)
        · refine .inr (.inr ⟨p, a, y, hmem, ?_, rfl, hlost, ho⟩)
          exact after ▸ Multiset.mem_cons_self _ _
      · exact hold ⟨hheld, hlost⟩ himp
    | settling r slot x st st' c' answer =>
      obtain ⟨e, hm, hs⟩ := hheld
      exact hold ⟨⟨e, (Removal.thins_answer answer).entries hm, hs⟩, hlost⟩ himp
    | answered slot x st =>
      obtain rfl := hw.sound.not_session hmem st rfl
      cases move
  | handled p o slot q x S task awaits unanswered serves unfailing =>
    by_cases hκ : κ ∈ w.watched
    · left
      exact owed_of_handled hw.sound task awaits unanswered serves unfailing hlost (absurd hκ)
    · rcases hw.owed κ ⟨hheld, hκ⟩ with ho | hl
      · left
        exact owed_of_handled hw.sound task awaits unanswered serves unfailing hlost fun _ => ho
      · exact .inr (.inl hl)
  | fired e admitted =>
    by_cases hκ : κ ∈ w.watched
    · left
      refine .inl ⟨e, Multiset.mem_cons_self _ _, ?_⟩
      by_contra hn
      exact hlost ⟨hκ, hn⟩
    · exact hold ⟨hheld, hκ⟩ fun ho =>
        ho.of_tasks (fun e' he => Multiset.mem_cons_of_mem he) fun p r st hm _ h => ⟨st, hm, h⟩
  | beside t keeps registry journal handed =>
    refine hold ⟨?_, hlost⟩ (owed_of_beside keeps)
    change κ ∈ t.client.registry.spots at hheld
    rw [registry] at hheld
    exact hheld

theorem guarded_step {x y : Crossing × Set Spot} (hw : x.1.Guarded x.2) (h : Follows admits x y) :
    y.1.Guarded y.2 := by
  obtain ⟨hstep, hlate⟩ := h
  refine ⟨hstep.sound hw.sound, fun κ hκ => ?_, fun κ hκ => ?_⟩
  · refine (owed_or_tardy hw (hstep.passage hw.sound) hκ).imp_right fun hor => ?_
    rw [hlate]
    exact ⟨hκ, hor⟩
  · rw [hlate] at hκ
    exact hκ.1

theorem Settled.not_owed (hs : w.Settled) : ¬w.Owed κ := by
  rintro (⟨e, he, _⟩ | ⟨p, r, st, hm, _, ho⟩)
  · rw [hs.noticed] at he
    exact absurd he (Multiset.notMem_zero e)
  · have hfin := hs.atRest.1 _ hm
    cases st <;> first | exact ho | cases hfin

/-- From a state in which every watch is the server's, the watches that are dead when everything
has come to its end are exactly those that were armed too late. -/
theorem dead_iff_late {settings : Settings} {feed : Option Nat} {late : Set Spot}
    (hr : Engine.Reachable settings feed w.engine) (hs : w.Settled) (hd : w.dead = ∅)
    (h : Relation.ReflTransGen (Follows admits) (w, ∅) (w', late)) (hs' : w'.Settled) :
    w'.dead = late := by
  have hstart : (w, (∅ : Set Spot)).1.Guarded (w, (∅ : Set Spot)).2 :=
    ⟨hs.sound hr.orderly, fun κ hκ => by simp [hd] at hκ, Set.empty_subset _⟩
  have hend : (w', late).1.Guarded (w', late).2 := by
    generalize (w, (∅ : Set Spot)) = x at h hstart
    generalize (w', late) = y at h ⊢
    induction h with
    | refl => exact hstart
    | tail _ hstep ih => exact guarded_step ih hstep
  refine Set.Subset.antisymm (fun κ hκ => ?_) hend.dead
  exact (hend.owed κ hκ).resolve_left hs'.not_owed

theorem exists_follows (h : Relation.ReflTransGen (Step admits) w w') :
    ∃ late, Relation.ReflTransGen (Follows admits) (w, ∅) (w', late) := by
  induction h with
  | refl => exact ⟨∅, .refl⟩
  | @tail v v' _ hstep ih =>
    obtain ⟨late, hrun⟩ := ih
    exact ⟨{ κ | κ ∈ v'.dead ∧ (κ ∈ late ∨ Tardy v v' κ) }, hrun.tail ⟨hstep, rfl⟩⟩

theorem dead_opening (s : Engine) : (ScriptedCrossing.opening s).crossing.dead = ∅ := by
  ext κ
  rw [dead, ScriptedCrossing.watched_opening]
  simp [ScriptedCrossing.crossing, ScriptedCrossing.opening]

/-- A watch that fires before the answer to its read has come is lost. -/
theorem fired_watch_late :
    ∃ w w' late, Engine.Reachable {} none w.engine ∧ w.Settled ∧ w.dead = ∅ ∧
      Relation.ReflTransGen (Follows fun o => o.isLocal = false) (w, ∅) (w', late) ∧
      w'.Settled ∧ w'.dead = late ∧ ⟨"/a", .data⟩ ∈ late := by
  have hrun : ∃ s, Engine.build {} none = .built s ∧ ((ScriptedCrossing.opening s).play
      [.order (.arm ⟨.presence, "/a", .watcher (.named "w")⟩), .handle (.caller 0) 0,
        .fire ⟨.nodeDataChanged, .syncConnected, some "/a"⟩,
        .notify ⟨.nodeDataChanged, .syncConnected, some "/a"⟩, .go (.resume (.caller 1)),
        .deliver (.caller 0) 0]).any (fun v => decide (v.engine.AtRest ∧ v.notices = 0 ∧
          .watcher (.named "w") ∈ v.engine.client.registry.holders "/a" .data ∧
          ⟨"/a", .data⟩ ∉ v.watched)) = true :=
    ⟨_, rfl, by decide +kernel⟩
  simp only [Option.any_eq_true, decide_eq_true_eq] at hrun
  obtain ⟨s, hb, v, hv, hrest, hnotices, hheld, hlost⟩ := hrun
  have hstart := ScriptedCrossing.settled_opening (Engine.atRest_of_build hb)
  have hend := ScriptedCrossing.settled_of_play (.built hb) (Engine.atRest_of_build hb) hv hrest hnotices
  have hsteps : Relation.ReflTransGen (Step fun o => o.isLocal = false) _ _ :=
    ScriptedCrossing.run_of_play (by simp [Cue.Admitted, Order.isLocal]) hv
  obtain ⟨late, hlate⟩ := exists_follows hsteps
  have hdead := dead_iff_late (.built hb) hstart (dead_opening s) hlate hend
  refine ⟨_, _, late, .built hb, hstart, dead_opening s, hlate, hend, hdead, ?_⟩
  exact hdead ▸ ⟨Registry.mem_spots.mpr ⟨_, hheld⟩, fun h => hlost (Finset.mem_coe.mp h)⟩

/-- A removal that ends before the answer to a read has come leaves its watch dead. -/
theorem spots_not_always_watched :
    ¬∀ (settings : Settings) (feed : Option Nat) (w w' : Crossing),
      Engine.Reachable settings feed w.engine → w.Settled →
      w.engine.client.registry.spots ⊆ w.watched →
      Relation.ReflTransGen (Step fun o => o.isLocal = false) w w' → w'.Settled →
      w'.engine.client.registry.spots ⊆ w'.watched := by
  have hrun : ∃ s, Engine.build {} none = .built s ∧ ((ScriptedCrossing.opening s).play
      [.order (.arm ⟨.presence, "/a", .watcher (.named "w1")⟩), .handle (.caller 0) 0,
        .deliver (.caller 0) 0, .order (.arm ⟨.presence, "/a", .watcher (.named "w2")⟩),
        .handle (.caller 1) 0,
        .order (.remove ⟨"/a", .only .data, .one (.watcher (.named "w1")), false, false⟩),
        .go (.resume (.caller 2)), .handle (.caller 2) 0, .deliver (.caller 2) 0,
        .go (.resume (.caller 2)), .go (.resume (.caller 2)), .go (.resume (.caller 2)),
        .go (.resume (.caller 2)), .deliver (.caller 1) 0]).any (fun v =>
          decide (v.engine.AtRest ∧ v.notices = 0 ∧
            .watcher (.named "w2") ∈ v.engine.client.registry.holders "/a" .data ∧
            ⟨"/a", .data⟩ ∉ v.watched)) = true :=
    ⟨_, rfl, by decide +kernel⟩
  simp only [Option.any_eq_true, decide_eq_true_eq] at hrun
  obtain ⟨s, hb, v, hv, hrest, hnotices, hheld, hlost⟩ := hrun
  have hstart := ScriptedCrossing.settled_opening (Engine.atRest_of_build hb)
  have hend := ScriptedCrossing.settled_of_play (.built hb) (Engine.atRest_of_build hb) hv hrest hnotices
  have hdata : (⟨"/a", .data⟩ : Spot) ∈ v.engine.client.registry.spots :=
    Registry.mem_spots.mpr ⟨_, hheld⟩
  intro h
  refine hlost (Finset.mem_coe.mp (h {} none _ _ (.built hb) hstart ?_
    (ScriptedCrossing.run_of_play (by simp [Cue.Admitted, Order.isLocal]) hv) hend hdata))
  rw [ScriptedCrossing.watched_opening]
  exact subset_rfl

end Crossing

end NodeWatch
