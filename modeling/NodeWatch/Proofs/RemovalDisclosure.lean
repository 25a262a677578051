import NodeWatch.Proofs.RemovalOutcomes

/-! When a removal becomes visible. While an answer is outstanding it has changed nothing and told
nobody. The turn in which the last answer comes in takes out everything, and only later turns tell of
it, all of it before the removal ends. -/

namespace NodeWatch

namespace Removal

variable {r : RemovalRequest} {p : Plan} {reg : Registry} {party : Party} {ts us : List Turn}
  {later earlier : List Turn} {x : Turn} {as : List Answer} {o : Settlement} {told es : List Entry}

theorem Outstanding.of_cons (h : Outstanding r p (x :: ts)) : Outstanding r p ts := by
  obtain ⟨k, hk, hnone⟩ := h
  refine ⟨k, hk, ?_⟩
  cases hx : x.reply? with
  | none => exact (Turn.answer?_cons_of_none hx ts _).symm.trans hnone
  | some y =>
    rw [reply?, Turn.answer?_cons hx] at hnone
    split at hnone
    · cases hnone
    · exact hnone

/-- An answer that came in stays known. -/
theorem Outstanding.of_suffix (h : Outstanding r p ts) (hs : us <:+ ts) : Outstanding r p us := by
  obtain ⟨vs, rfl⟩ := hs
  induction vs with
  | nil => exact h
  | cons y vs ih => exact ih h.of_cons

/-- There is one turn only in which the last answer comes in. -/
theorem crossing_unique {x' : Turn} {earlier' : List Turn} (hx : x :: earlier <:+ ts)
    (hx' : x' :: earlier' <:+ ts) (hfirst : Outstanding r p earlier)
    (hlast : ¬Outstanding r p (x :: earlier)) (hfirst' : Outstanding r p earlier')
    (hlast' : ¬Outstanding r p (x' :: earlier')) : x :: earlier = x' :: earlier' := by
  rcases List.suffix_or_suffix_of_suffix hx hx' with hs | hs
  · rcases List.suffix_cons_iff.mp hs with he | hs
    · exact he
    · exact absurd (hfirst'.of_suffix hs) hlast
  · rcases List.suffix_cons_iff.mp hs with he | hs
    · exact he.symm
    · exact absurd (hfirst.of_suffix hs) hlast'

/-- That turn is the answer to a request to drop one of the kinds. -/
theorem exists_reply?_of_crossing (hfirst : Outstanding r p earlier)
    (hlast : ¬Outstanding r p (x :: earlier)) :
    ∃ k ∈ p.server, ∃ a, x.reply? = some (.remove r.path k, a) := by
  obtain ⟨k, hk, hnone⟩ := hfirst
  by_contra hother
  refine hlast ⟨k, hk, ?_⟩
  cases hx : x.reply? with
  | none => exact (Turn.answer?_cons_of_none hx earlier _).trans hnone
  | some y =>
    refine (Turn.answer?_cons hx earlier _).trans ((if_neg fun he => ?_).trans hnone)
    exact hother ⟨k, hk, y.2, by rw [he, hx]⟩

/-- In one turn, that of the last answer, the removal took out these entries, all that its answers let
go of what was there then. No other turn changed anything, and only later ones tell of it. -/
structure Discloses (r : RemovalRequest) (p : Plan) (later : List Turn) (x : Turn)
    (earlier : List Turn) (es told : List Entry) : Prop where
  answer : ∃ k ∈ p.server, ∃ a, x.reply? = some (.remove r.path k, a)
  first : Outstanding r p earlier
  last : ¬Outstanding r p (x :: earlier)
  still : ∀ y ∈ later ++ earlier, y.Still
  taken : Turn.takings [x] = es.map (.mk .removed)
  all : ∀ e, e ∈ es ↔ e ∈ x.before.registry ∧ e.path = r.path ∧
    r.target.selects e.subscriber = true ∧ Goes r p (later ++ x :: earlier) e.kind
  frame : ∀ path k, x.after.registry.holders path k =
    (x.before.registry.holders path k).filter fun s => ⟨path, k, s⟩ ∉ es
  silent : Turn.sendings (x :: earlier) = []
  unqueued : Turn.queuings (x :: earlier) = []
  sent : Turn.sendings later = confirmations told
  order : told <+: es

theorem Reckons.discloses (h : Reckons r p later x earlier as o told) (hserver : p.server ≠ [])
    (htold : told <+: o.removed) (hd : ∀ y ∈ x :: earlier, y.Delivers) :
    Discloses r p later x earlier o.removed told := by
  have hsilent : Turn.sendings (x :: earlier) = [] := by
    rw [Turn.sendings_cons, h.silent, h.noted.2]
    rfl
  exact ⟨exists_reply?_of_crossing (h.first hserver) h.last, h.first hserver, h.last, h.still,
    h.noted.1, fun e => h.mem_removed, h.frame, hsilent, Turn.queuings_of_sendings hd hsilent,
    h.sent, htold⟩

/-- With all answers in the entries are out, and those before the rest were told. -/
theorem Traced.acted_of_answered {st : Stage} (h : Traced r reg ts st)
    (hserver : (plan r reg).server ≠ []) (hall : ¬Outstanding r (plan r reg) ts) :
    ∃ o told, told <+: o.removed ∧ Acted r (plan r reg) ts o told ∧
      ∀ result, st = .done result → told = o.removed := by
  cases st with
  | asking p answers =>
    obtain ⟨rfl, hshort, hwanting, hheard, -⟩ := h
    exact absurd (outstanding_of_incomplete hheard hshort (hwanting.resolve_right hserver)) hall
  | confirming rest o =>
    obtain ⟨told, htold, hacted⟩ := h
    exact ⟨o, told, ⟨rest, htold.symm⟩, hacted, fun _ => nofun⟩
  | checking ks o => exact ⟨o, o.removed, List.prefix_rfl, h, fun _ => nofun⟩
  | rearming k ks o => exact ⟨o, o.removed, List.prefix_rfl, h, fun _ => nofun⟩
  | done result =>
    obtain ⟨o, -, hacted⟩ := h
    exact ⟨o, o.removed, List.prefix_rfl, hacted, fun _ _ => rfl⟩

/-- A removal that asks the server for something, with anything going on in between, seen at any
moment `v` and at any later moment `w`. While an answer is outstanding it goes on, has changed nothing
and sent nothing. Once the last answer is in it has taken out, in the turn of that answer, everything
that it ever takes out, before it told anybody; and when it has ended, with whatever result, everything
was told, and put on the queue unless the client and the queue were closed. -/
theorem removal_hidden_until_answered {settings : Settings} {feed : Option Nat} {s t : Engine}
    {v w : Pursuit} (hs : Engine.Reachable settings feed s) (ho : s.client.closed = false)
    (hremote : r.registryOnly = false) (hvalid : Path.isValid r.path = true)
    (hserver : (plan r s.client.registry).server ≠ []) (hb : s.Undertakes party r t)
    (hv : Relation.ReflTransGen (Pursuit.Step party) ⟨t, []⟩ v)
    (hw : Relation.ReflTransGen (Pursuit.Step party) v w) :
    t.client = s.client ∧ ∃ st, v.engine.task? party = some (.removal r st) ∧
      (Outstanding r (plan r s.client.registry) v.turns →
        (∀ result, st ≠ .done result) ∧ (∀ y ∈ v.turns, y.Still) ∧
          Turn.sendings v.turns = [] ∧ Turn.queuings v.turns = []) ∧
      (¬Outstanding r (plan r s.client.registry) v.turns →
        ∃ later x earlier es told, v.turns = later ++ x :: earlier ∧
          Discloses r (plan r s.client.registry) later x earlier es told ∧
          Turn.takings w.turns = es.map (.mk .removed) ∧
          ∀ result, st = .done result → told = es ∧
            (v.engine.client.closed = false ∨ v.engine.client.deliveries.isOpen = true →
              Turn.queuings later = confirmations es)) := by
  obtain ⟨ht, htask, hclient⟩ := hb.begun hs.orderly ho
  have hbegun : start r s.client = (.asking (plan r s.client.registry) [], s.client) := by
    rw [start_remote hremote hvalid, if_neg fun h => hserver h.1]
  have htraced : ∀ {u : Pursuit}, Relation.ReflTransGen (Pursuit.Step party) ⟨t, []⟩ u →
      ∃ st, u.engine.task? party = some (.removal r st) ∧
        Traced r s.client.registry u.turns st := by
    intro u hu
    obtain ⟨st, hst, hempty | htraced⟩ := traced_run hs.orderly ho hremote hvalid hb hu
    · exact absurd hempty.1 hserver
    · exact ⟨st, hst, htraced⟩
  refine ⟨by rw [hclient, hbegun], ?_⟩
  obtain ⟨st, hst, hstage⟩ := htraced hv
  have hdelivers := Pursuit.delivers_run ht htask hv
  refine ⟨st, hst, fun hout => ?_, fun hall => ?_⟩
  · rcases hstage.acted with ⟨hdone, -, hstill, hsilent⟩ | ⟨o, told, ⟨later, x, earlier, as, hturns,
      hr⟩, -⟩
    · exact ⟨hdone, hstill, hsilent, Turn.queuings_of_sendings hdelivers hsilent⟩
    · rw [hturns] at hout
      exact absurd (hout.of_suffix (List.suffix_append _ _)) hr.last
  · obtain ⟨o, told, htold, ⟨later, x, earlier, as, hturns, hr⟩, hdone⟩ :=
      hstage.acted_of_answered hserver hall
    refine ⟨later, x, earlier, o.removed, told, hturns, hr.discloses hserver htold fun y hy =>
      hdelivers y (hturns ▸ List.mem_append_right _ hy), ?_, ?_⟩
    · obtain ⟨st', -, hstage'⟩ := htraced (hv.trans hw)
      have hsuffix := Pursuit.turns_suffix hw
      obtain ⟨o', told', -, ⟨later', x', earlier', as', hturns', hr'⟩, -⟩ :=
        hstage'.acted_of_answered hserver fun hout => hall (hout.of_suffix hsuffix)
      have hsame : x :: earlier = x' :: earlier' := crossing_unique
        ((hturns ▸ List.suffix_append _ _ : x :: earlier <:+ v.turns).trans hsuffix)
        (hturns' ▸ List.suffix_append _ _) (hr.first hserver) hr.last (hr'.first hserver) hr'.last
      rw [hturns', hr'.takings, ← hr'.noted.1, ← (List.cons.inj hsame).1, hr.noted.1]
    · intro result hresult
      obtain rfl := hdone result hresult
      have hreach := Pursuit.reachable_run (hb.reachable hs) hv
      have hlater : ∀ y ∈ later, y ∈ v.turns := fun y hy => hturns ▸ List.mem_append_left _ hy
      refine ⟨rfl, fun hopen => ?_⟩
      have hisOpen := hopen.elim (fun hc => (hreach.served hc).isOpen hst) id
      have hopened := Pursuit.opens_run ht htask rfl hv hisOpen
      rw [← hr.sent]
      exact Turn.queuings_eq_sendings (fun y hy => hdelivers y (hlater y hy))
        fun y hy => hopened y (hlater y hy)

/-- Both kinds are being removed. The server has dropped the one and has not answered for the other:
everything is as it was. Then the other answer is a failure, and the removal fails when it has told of
the kind that went. -/
theorem dropped_kind_awaits_other :
    ∃ (s t : Engine) (v w : Pursuit), Engine.Reachable {} none s ∧ s.client.closed = false ∧
      (plan ⟨"/a", .any, .all, false, false⟩ s.client.registry).server = [.data, .children] ∧
      s.Undertakes (.caller 2) ⟨"/a", .any, .all, false, false⟩ t ∧
      Relation.ReflTransGen (Pursuit.Step (.caller 2)) ⟨t, []⟩ v ∧
      Relation.ReflTransGen (Pursuit.Step (.caller 2)) v w ∧
      ((reply? ⟨"/a", .any, .all, false, false⟩ v.turns .data).any Except.isOk = true ∧
        v.turns ≠ [] ∧ (∀ y ∈ v.turns, y.Still) ∧ Turn.sendings v.turns = [] ∧
        Turn.queuings v.turns = []) ∧
      w.engine.task? (.caller 2) = some
        (.removal ⟨"/a", .any, .all, false, false⟩ (.done (.error .connectionLoss))) ∧
      ∃ later x earlier told, w.turns = later ++ x :: earlier ∧
        Discloses ⟨"/a", .any, .all, false, false⟩ ⟨[.data, .children], [], false⟩ later x earlier
          [⟨"/a", .data, .watcher (.named "w")⟩] told ∧
        Turn.queuings later =
          [.removed ⟨"/a", .data, .watcher (.named "w")⟩ .syncConnected] := by
  have hplays : playsOut (armBoth "w") 2 ⟨"/a", .any, .all, false, false⟩
      [.resume (.caller 2), .resume (.caller 2), .answer (.caller 2) 0 (.ok .removed)]
      (fun s v => decide (
        plan ⟨"/a", .any, .all, false, false⟩ s.client.registry = ⟨[.data, .children], [], false⟩ ∧
        (reply? ⟨"/a", .any, .all, false, false⟩ v.turns .data).any Except.isOk = true ∧
        reply? ⟨"/a", .any, .all, false, false⟩ v.turns .children = none ∧
        v.turns.isEmpty = false) &&
      (Pursuit.follow (.caller 2) [.answer (.caller 2) 1 (.error .connectionLoss),
        .resume (.caller 2), .resume (.caller 2), .resume (.caller 2), .resume (.caller 2)] v).any
        fun w => decide (
          (w.engine.task? (.caller 2)).bind Operation.ending? =
            some (⟨"/a", .any, .all, false, false⟩, .error .connectionLoss) ∧
          (reply? ⟨"/a", .any, .all, false, false⟩ w.turns .data).isSome = true ∧
          (reply? ⟨"/a", .any, .all, false, false⟩ w.turns .children).isSome = true ∧
          w.engine.client.deliveries.isOpen = true ∧
          Turn.takings w.turns = [⟨.removed, ⟨"/a", .data, .watcher (.named "w")⟩⟩])) = true := by
    decide +kernel
  obtain ⟨s, t, v, hs, ho, hb, hv, hcheck⟩ := run_of_playsOut hplays
  obtain ⟨hbefore, hafter⟩ := (Bool.and_eq_true _ _).mp hcheck
  obtain ⟨hplan, hdropped, hunanswered, hturns⟩ := of_decide_eq_true hbefore
  obtain ⟨w, hw, hcheck⟩ := (Option.any_eq_true _ _).mp hafter
  obtain ⟨hended, hdata, hchildren, hopen, htakings⟩ := of_decide_eq_true hcheck
  have htask := Engine.task?_of_ending? hended
  have hw := Pursuit.steps_of_follow hw
  have hserver : (plan ⟨"/a", .any, .all, false, false⟩ s.client.registry).server ≠ [] := by
    rw [hplan]
    nofun
  obtain ⟨-, _, -, hhidden, -⟩ :=
    removal_hidden_until_answered hs ho rfl (by decide) hserver hb hv .refl
  obtain ⟨-, st, hst, -, hshown⟩ :=
    removal_hidden_until_answered hs ho rfl (by decide) hserver hb (hv.trans hw) .refl
  rw [hplan] at hhidden hshown
  obtain ⟨-, hstill, hsilent⟩ := hhidden ⟨.children, by decide, hunanswered⟩
  obtain ⟨later, x, earlier, es, told, hsplit, hdiscloses, hes, hend⟩ := hshown (by
    rintro ⟨k, hk, hnone⟩
    cases k <;> simp [hnone] at hdata hchildren)
  obtain rfl := (Operation.removal.inj (Option.some.inj (hst.symm.trans htask))).2
  obtain rfl : es = [⟨"/a", .data, .watcher (.named "w")⟩] := by simpa [htakings] using hes.symm
  refine ⟨s, t, v, w, hs, ho, by rw [hplan], hb, hv, hw,
    ⟨hdropped, ?_, hstill, hsilent⟩, htask, later, x, earlier, told, hsplit, hdiscloses,
    (hend _ rfl).2 (.inr hopen)⟩
  simpa using hturns

end Removal

end NodeWatch
