import NodeWatch.Proofs.ExpiryRun

/-! What a removal comes to when nobody else is at work. The server goes by the requests that it was
given so far, so what a removal will ask, take out and tell, and how it will end, is settled from its
beginning, however long the answers take and however full the queue of deliveries is. -/

namespace NodeWatch

def Occurrence.asked? : Occurrence → Option Request
  | asked q => some q
  | _ => none

def Occurrence.queued? : Occurrence → Option Delivery
  | queued d => some d
  | _ => none

/-- A server's answer to a request, given the requests up to that one. -/
abbrev Transport := List Request → Answer

namespace Client

variable {c c' d d' : Client} {xs ys os js : List Occurrence}

/-- The listed occurrences, the earliest first, calls of user code and remarks apart. -/
def trace (os : List Occurrence) : List Occurrence :=
  (os.filter fun o => !o.isIdle).reverse

/-- The requests so far, the earliest first. -/
def history (c : Client) : List Request :=
  askings c.journal

theorem history_submit (c : Client) (q : Request) : (c.submit q).history = c.history ++ [q] :=
  askings_append [.asked q] c.journal

theorem askings_of_not_mem (h : ∀ q, .asked q ∉ os) : askings os = [] := by
  rw [askings, List.filterMap_eq_nil_iff]
  intro o ho
  cases o with
  | asked q => exact absurd (List.mem_reverse.mp ho) (h q)
  | _ => rfl

theorem Unasked.history (h : c.Unasked c') : c'.history = c.history := by
  obtain ⟨os, hj, hnone⟩ := h.journal
  rw [Client.history, hj, askings_append, askings_of_not_mem hnone, List.append_nil, Client.history]

theorem trace_append (os js : List Occurrence) : trace (os ++ js) = trace js ++ trace os := by
  simp [trace]

theorem trace_idle (h : ∀ o ∈ os, o.isIdle = true) : trace os = [] := by
  rw [trace, List.reverse_eq_nil_iff, List.filter_eq_nil_iff]
  intro o ho
  simp [h o ho]

theorem askings_eq_filterMap (os : List Occurrence) :
    askings os = (trace os).filterMap Occurrence.asked? := by
  rw [trace, ← List.filter_reverse, List.filterMap_filter, askings]
  refine List.filterMap_congr fun o _ => ?_
  cases o <;> rfl

theorem queuings_eq_filterMap (os : List Occurrence) :
    queuings os = (trace os).filterMap Occurrence.queued? := by
  rw [trace, ← List.filter_reverse, List.filterMap_filter, queuings]
  refine List.filterMap_congr fun o _ => ?_
  cases o <;> rfl

/-- Two clients that knew the same and have since gone through the same. -/
structure InStep (xs ys : List Occurrence) (c d : Client) : Prop where
  requests : xs.filterMap Occurrence.asked? = ys.filterMap Occurrence.asked?
  registry : c.registry = d.registry
  ledger : c.ledger = d.ledger
  trace : ∃ zs, trace c.journal = xs ++ zs ∧ trace d.journal = ys ++ zs

/-- Two clients that know the same and have always gone through the same. -/
abbrev Mirrors (c d : Client) : Prop :=
  InStep [] [] c d

theorem mirrors_of_eq (hr : c.registry = d.registry) (hl : c.ledger = d.ledger)
    (ht : trace c.journal = trace d.journal) : c.Mirrors d :=
  ⟨rfl, hr, hl, _, rfl, ht.symm⟩

namespace InStep

theorem trace_eq (h : c.Mirrors d) : Client.trace c.journal = Client.trace d.journal := by
  obtain ⟨zs, hc, hd⟩ := h.trace
  rw [hc, hd]

theorem trans (h : c.Mirrors c') (h' : InStep xs ys c' d) : InStep xs ys c d :=
  ⟨h'.requests, h.registry.trans h'.registry, h.ledger.trans h'.ledger, h.trace_eq ▸ h'.trace⟩

theorem history (h : InStep xs ys c d) : c.history = d.history := by
  obtain ⟨zs, hc, hd⟩ := h.trace
  rw [Client.history, Client.history, askings_eq_filterMap, askings_eq_filterMap, hc, hd,
    List.filterMap_append, List.filterMap_append, h.requests]

theorem note (h : InStep xs ys c d) (o : Occurrence) : InStep xs ys (c.note o) (d.note o) := by
  obtain ⟨zs, hc, hd⟩ := h.trace
  have hnote : ∀ c : Client, Client.trace (c.note o).journal =
      Client.trace c.journal ++ Client.trace [o] := fun c => trace_append [o] c.journal
  refine ⟨h.requests, h.registry, h.ledger, zs ++ Client.trace [o], ?_, ?_⟩
  · rw [hnote, hc, List.append_assoc]
  · rw [hnote, hd, List.append_assoc]

theorem submit (h : InStep xs ys c d) (q : Request) : InStep xs ys (c.submit q) (d.submit q) :=
  h.note _

theorem settle (h : InStep xs ys c d) (m : RemovalMode) (result : Except Fault (List Entry)) :
    InStep xs ys (c.settle m result) (d.settle m result) := by
  have hcount : InStep xs ys (c.count (.removals m (outcomeOf result)) 1)
      (d.count (.removals m (outcomeOf result)) 1) :=
    ⟨h.requests, h.registry, by rw [count, count, h.ledger], h.trace⟩
  exact hcount.note _

theorem foldl {α : Type} {f : Client → α → Client}
    (hf : ∀ c d x, InStep xs ys c d → InStep xs ys (f c x) (f d x)) (h : InStep xs ys c d)
    (l : List α) : InStep xs ys (l.foldl f c) (l.foldl f d) := by
  induction l generalizing c d with
  | nil => exact h
  | cons x l ih => exact ih (hf c d x h)

end InStep

theorem mirrors_refl (c : Client) : c.Mirrors c :=
  mirrors_of_eq rfl rfl rfl

theorem mirrors_note (c : Client) {o : Occurrence} (h : o.isIdle = true) :
    (c.note o).Mirrors c := by
  refine mirrors_of_eq rfl rfl ?_
  have hidle : trace [o] = [] := trace_idle (by simp [h])
  have htrace := trace_append [o] c.journal
  rwa [hidle, List.append_nil] at htrace

/-- Equal results, and clients that have gone through the same. -/
def Alike {α : Type} (xs ys : List Occurrence) (x y : α × Client) : Prop :=
  x.1 = y.1 ∧ InStep xs ys x.2 y.2

theorem Alike.foldl {α β : Type} {f : α × Client → β → α × Client}
    (hf : ∀ x y z, Alike xs ys x y → Alike xs ys (f x z) (f y z)) {x y : α × Client}
    (h : Alike xs ys x y) (l : List β) : Alike xs ys (l.foldl f x) (l.foldl f y) := by
  induction l generalizing x y with
  | nil => exact h
  | cons z l ih => exact ih (hf x y z h)

theorem Alike.trans {α : Type} {x y z : α × Client} (h : Alike [] [] x y) (h' : Alike xs ys y z) :
    Alike xs ys x z :=
  ⟨h.1.trans h'.1, h.2.trans h'.2⟩

theorem InStep.unregister (h : InStep xs ys c d) (cause : Cause) (path : String) (kind : Selector)
    (target : Target) :
    Alike xs ys (c.unregister cause path kind target) (d.unregister cause path kind target) := by
  have hfst : (c.unregister cause path kind target).1 = (d.unregister cause path kind target).1 :=
    congrArg (fun r : Registry => (r.unregister path kind target).1) h.registry
  refine ⟨hfst, ?_⟩
  have hreg : InStep xs ys
      { c with registry := (c.registry.unregister path kind target).2 }
      { d with registry := (d.registry.unregister path kind target).2 } :=
    ⟨h.requests, by rw [h.registry], h.ledger, h.trace⟩
  have hnote := hreg.note (.taken cause (c.unregister cause path kind target).1)
  rw [hfst] at hnote
  simp only [Client.unregister] at hfst hnote ⊢
  rw [hfst]
  exact hnote

end Client

namespace Removal

open Client (InStep Mirrors Alike)

variable {reply : Transport} {r : RemovalRequest} {p : Plan} {st st' : Stage} {c c' d : Client}
  {xs ys : List Occurrence} {party : Party}

/-- The requests by which a removal asks the server to drop kinds. -/
def requests (r : RemovalRequest) (ks : List Kind) : List Request :=
  ks.map (.remove r.path)

/-- The answers to requests that are made one after another. -/
def replies (reply : Transport) (before qs : List Request) : List Answer :=
  (List.range qs.length).map fun i => reply (before ++ qs.take (i + 1))

def tell (c : Client) (e : Entry) : Client :=
  c.note (.queued (.removed e .syncConnected))

/-- A kind that is registered again is armed again. -/
def rearm (r : RemovalRequest) (c : Client) (k : Kind) : Client :=
  if (c.registry.registeredKinds r.path (.only k) .all).isEmpty then c
  else c.submit (.register r.path (.rearming k))

def ends (r : RemovalRequest) (o : Settlement) (c : Client) : Except Fault (List Entry) × Client :=
  (o.result, c.settle r.mode o.result)

/-- What a removal at some stage comes to: its result, and the client it leaves. -/
def finale (reply : Transport) (r : RemovalRequest) :
    Stage → Client → Except Fault (List Entry) × Client
  | .asking p answers, c =>
    let before := c.history.take (c.history.length - answers.length)
    let asked := (requests r (p.server.drop answers.length)).foldl Client.submit c
    let (o, c) := reconcile r p (replies reply before (requests r p.server)) asked
    ends r o (o.cleared.foldl (rearm r) (o.removed.foldl tell c))
  | .confirming es o, c => ends r o (o.cleared.foldl (rearm r) (es.foldl tell c))
  | .checking ks o, c => ends r o (ks.foldl (rearm r) c)
  | .rearming _ ks o, c => ends r o (ks.foldl (rearm r) c)
  | .done result, c => (result, c)

/-- What a removal comes to that begins on this client. -/
def perform (reply : Transport) (r : RemovalRequest) (c : Client) :
    Except Fault (List Entry) × Client :=
  finale reply r (start r c).1 (start r c).2

theorem inStep_rearm (h : InStep xs ys c d) (k : Kind) :
    InStep xs ys (rearm r c k) (rearm r d k) := by
  simp only [rearm]
  rw [h.registry]
  split
  · exact h
  · exact h.submit _

theorem alike_ends (h : InStep xs ys c d) (o : Settlement) (ks : List Kind) :
    Alike xs ys (ends r o (ks.foldl (rearm r) c)) (ends r o (ks.foldl (rearm r) d)) :=
  ⟨rfl, (h.foldl (fun _ _ k h => inStep_rearm h k) ks).settle _ _⟩

theorem alike_settleKind {x y : Settlement × Client} (h : Alike xs ys x y) (z : Kind × Answer) :
    Alike xs ys (settleKind r p x z) (settleKind r p y z) := by
  obtain ⟨o, c⟩ := x
  obtain ⟨o', d⟩ := y
  obtain ⟨k, a⟩ := z
  obtain ⟨rfl, hcd⟩ : o = o' ∧ InStep xs ys c d := h
  obtain ⟨htaken, hleft⟩ := hcd.unregister .removed r.path (.only k) r.target
  cases a with
  | ok y => exact ⟨by simp only [settleKind, htaken], hleft⟩
  | error f =>
    simp only [settleKind]
    split
    · split
      · exact ⟨by rw [htaken], hleft⟩
      · split <;> exact ⟨rfl, hcd⟩
    · exact ⟨rfl, hcd.note _⟩

theorem alike_settleHere {x y : Settlement × Client} (h : Alike xs ys x y) (k : Kind) :
    Alike xs ys (settleHere r x k) (settleHere r y k) := by
  obtain ⟨o, c⟩ := x
  obtain ⟨o', d⟩ := y
  obtain ⟨rfl, hcd⟩ : o = o' ∧ InStep xs ys c d := h
  obtain ⟨htaken, hleft⟩ := hcd.unregister .removed r.path (.only k) r.target
  exact ⟨by simp only [settleHere, htaken], hleft⟩

theorem alike_reconcile (h : InStep xs ys c d) (as : List Answer) :
    Alike xs ys (reconcile r p as c) (reconcile r p as d) := by
  have hstart : Alike xs ys ((⟨[], [], none⟩ : Settlement), c) (⟨[], [], none⟩, d) := ⟨rfl, h⟩
  have hasked := hstart.foldl (fun _ _ z h => alike_settleKind (r := r) (p := p) h z)
    (p.server.zip as)
  obtain ⟨hfst, hsnd⟩ := hasked.foldl (fun _ _ k h => alike_settleHere (r := r) h k) p.here
  exact ⟨by simp only [reconcile, hfst], hsnd⟩

/-- What a removal comes to depends on the registry and on the requests so far alone. -/
theorem alike_finale (reply : Transport) (r : RemovalRequest) (st : Stage)
    (h : InStep xs ys c d) : Alike xs ys (finale reply r st c) (finale reply r st d) := by
  have htell : ∀ {c d : Client} (es : List Entry), InStep xs ys c d →
      InStep xs ys (es.foldl tell c) (es.foldl tell d) := fun es h =>
    h.foldl (f := tell) (fun _ _ _ h => h.note _) es
  cases st with
  | asking p answers =>
    have hasked := h.foldl (fun _ _ q h => h.submit q) (requests r (p.server.drop answers.length))
    obtain ⟨hfst, hsnd⟩ := alike_reconcile (r := r) (p := p) hasked (replies reply
      (c.history.take (c.history.length - answers.length)) (requests r p.server))
    simp only [finale, ← h.history]
    rw [hfst]
    exact alike_ends (htell _ hsnd) _ _
  | confirming es o => exact alike_ends (htell es h) o _
  | checking ks o => exact alike_ends h o ks
  | rearming k ks o => exact alike_ends h o ks
  | done result => exact ⟨rfl, h⟩

theorem alike_start (r : RemovalRequest) (h : InStep xs ys c d) :
    Alike xs ys (start r c) (start r d) := by
  unfold start
  split
  · exact ⟨rfl, h⟩
  · split
    · obtain ⟨htaken, hleft⟩ := h.unregister .removed r.path r.kind r.target
      cases hc : c.unregister .removed r.path r.kind r.target with
      | mk es c₁ =>
        cases hd : d.unregister .removed r.path r.kind r.target with
        | mk es' d₁ =>
          rw [hc, hd] at htaken hleft
          obtain rfl : es = es' := htaken
          cases es with
          | nil => exact ⟨rfl, hleft.settle _ _⟩
          | cons e es => exact ⟨rfl, hleft⟩
    · rw [h.registry]
      dsimp only
      split
      · exact ⟨rfl, h.settle _ _⟩
      · exact ⟨rfl, h⟩

theorem alike_perform (reply : Transport) (r : RemovalRequest) (h : InStep xs ys c d) :
    Alike xs ys (perform reply r c) (perform reply r d) := by
  obtain ⟨hstage, hclient⟩ := alike_start r h
  rw [perform, perform, hstage]
  exact alike_finale reply r _ hclient

theorem getElem?_replies (reply : Transport) (before qs : List Request) (i : Nat) :
    (replies reply before qs)[i]? =
      if i < qs.length then some (reply (before ++ qs.take (i + 1))) else none := by
  rw [replies, List.getElem?_map]
  split
  · rename_i hi
    rw [List.getElem?_range hi]
    rfl
  · rename_i hi
    rw [List.getElem?_eq_none (by simpa using hi)]
    rfl

/-- The requests of a removal are the last ones, and the answers in are the server's. -/
structure Asked (reply : Transport) (r : RemovalRequest) (p : Plan) (answers : List (Option Answer))
    (c : Client) : Prop where
  short : answers.length ≤ p.server.length
  history : ∃ before, c.history = before ++ requests r (p.server.take answers.length)
  replied : ∀ (i : Nat) (x : Answer), answers[i]? = some (some x) →
    (replies reply (c.history.take (c.history.length - answers.length))
      (requests r p.server))[i]? = some x

/-- A removal under way is rightly answered so far, and has something left to do. -/
def Sound (reply : Transport) (r : RemovalRequest) : Stage → Client → Prop
  | .asking p answers, c =>
    Asked reply r p answers c ∧ (complete? p answers = none ∨ p.server = [])
  | _, _ => True

theorem sound_congr (h : c'.history = c.history) (hs : Sound reply r st c) :
    Sound reply r st c' := by
  cases st with
  | asking p answers =>
    obtain ⟨⟨short, history, replied⟩, hwanting⟩ := hs
    exact ⟨⟨short, h ▸ history, h ▸ replied⟩, hwanting⟩
  | confirming | checking | rearming | done => trivial

theorem Asked.before {answers : List (Option Answer)} (h : Asked reply r p answers c) :
    ∃ before, c.history = before ++ requests r (p.server.take answers.length) ∧
      c.history.length - answers.length = before.length ∧
      c.history.take (c.history.length - answers.length) = before := by
  obtain ⟨before, hb⟩ := h.history
  have hlength : c.history.length - answers.length = before.length := by
    have hshort := h.short
    rw [hb, List.length_append, requests, List.length_map, List.length_take]
    omega
  refine ⟨before, hb, hlength, ?_⟩
  rw [hlength, hb, List.take_left]

/-- The last of the requests up to that of a slot is the slot's. -/
theorem Asked.upTo {answers : List (Option Answer)} {slot : Nat} (h : Asked reply r p answers c)
    (hlt : slot < answers.length) :
    c.history.take (c.history.length - answers.length + slot + 1) =
      c.history.take (c.history.length - answers.length) ++
        (requests r p.server).take (slot + 1) := by
  obtain ⟨before, hb, hlength, hbefore⟩ := h.before
  rw [hbefore, hlength, hb, Nat.add_assoc, List.take_length_add_append, requests, requests,
    List.map_take, List.take_take, Nat.min_eq_left hlt]

theorem Asked.set {answers : List (Option Answer)} {slot : Nat} (h : Asked reply r p answers c)
    (hlt : slot < answers.length) :
    Asked reply r p (answers.set slot (some (reply
      (c.history.take (c.history.length - answers.length) ++
        (requests r p.server).take (slot + 1))))) c := by
  have hshort := h.short
  refine ⟨?_, ?_, fun i x hx => ?_⟩
  · rwa [List.length_set]
  · rw [List.length_set]
    exact h.history
  · rw [List.length_set]
    rw [List.getElem?_set] at hx
    split at hx
    · rename_i hi
      subst hi
      rw [getElem?_replies, if_pos]
      · exact Option.some.inj hx
      · rw [requests, List.length_map]
        omega
    · exact h.replied i x hx

theorem Asked.replies_eq {answers : List (Option Answer)} {as : List Answer}
    (h : Asked reply r p answers c) (ha : answers = as.map some)
    (hl : as.length = p.server.length) :
    replies reply (c.history.take (c.history.length - answers.length)) (requests r p.server) =
      as := by
  refine List.ext_getElem? fun i => ?_
  cases hi : as[i]? with
  | some x => exact h.replied i x (by simp [ha, hi])
  | none =>
    rw [getElem?_replies, if_neg]
    rw [List.getElem?_eq_none_iff] at hi
    simpa [requests, hl] using hi

theorem finale_advance {answers : List (Option Answer)} (h : Asked reply r p answers c) :
    finale reply r (advance r p answers c).1 (advance r p answers c).2 =
      finale reply r (.asking p answers) c := by
  rcases advance_cases r p answers c with ⟨_, ha⟩ | ⟨as, has, hl, ha⟩
  · rw [ha]
  · have hall : p.server.drop answers.length = [] := by simp [has, hl]
    simp only [ha, finale]
    rw [hall, h.replies_eq has hl]
    rfl

theorem sound_advance {answers : List (Option Answer)} (h : Asked reply r p answers c) :
    Sound reply r (advance r p answers c).1 (advance r p answers c).2 := by
  rcases advance_cases r p answers c with ⟨hn, ha⟩ | ⟨as, _, _, ha⟩
  · rw [ha]
    exact ⟨h, .inl hn⟩
  · rw [ha]
    trivial

theorem sound_start (reply : Transport) (r : RemovalRequest) (c : Client) :
    Sound reply r (start r c).1 (start r c).2 := by
  have hstart := started r c
  generalize start r c = x at hstart ⊢
  cases hstart with
  | invalid | unmatched | taken | idle => trivial
  | asking =>
    refine ⟨⟨Nat.zero_le _, ⟨c.history, by simp [requests]⟩, by simp⟩, ?_⟩
    by_cases hs : (plan r c.registry).server = []
    · exact .inr hs
    · exact .inl (if_neg fun hl => hs (List.length_eq_zero_iff.mp hl.symm))

theorem sound_asked {answers : List (Option Answer)} {k : Kind}
    (hk : p.server[answers.length]? = some k) (h : Asked reply r p answers c) :
    Sound reply r (.asking p (answers ++ [none])) (c.submit (.remove r.path k)) ∧
      finale reply r (.asking p (answers ++ [none])) (c.submit (.remove r.path k)) =
        finale reply r (.asking p answers) c := by
  obtain ⟨hlt, hget⟩ := List.getElem?_eq_some_iff.mp hk
  obtain ⟨before, hb, hlength, hbefore⟩ := h.before
  have hhistory : (c.submit (.remove r.path k)).history = c.history ++ [.remove r.path k] :=
    Client.askings_append [.asked _] c.journal
  have hsame : (c.submit (.remove r.path k)).history.take
      ((c.submit (.remove r.path k)).history.length - (answers ++ [none]).length) =
        c.history.take (c.history.length - answers.length) := by
    rw [hhistory, List.length_append, List.length_append, List.length_singleton,
      List.length_singleton, Nat.add_sub_add_right,
      List.take_append_of_le_length (Nat.sub_le _ _)]
  refine ⟨⟨⟨?_, ⟨before, ?_⟩, fun i x hx => ?_⟩, .inl ?_⟩, ?_⟩
  · rw [List.length_append]
    exact hlt
  · rw [hhistory, hb, List.length_append, List.length_singleton, List.take_add_one, hk, requests,
      requests, List.map_append, List.append_assoc]
    rfl
  · rw [hsame]
    refine h.replied i x ?_
    rcases Nat.lt_or_ge i answers.length with hi | hi
    · rwa [List.getElem?_append_left hi] at hx
    · rw [List.getElem?_append_right hi, List.getElem?_singleton] at hx
      split at hx <;> cases hx
  · refine Option.eq_none_iff_forall_ne_some.mpr fun as has => ?_
    have hnone : (none : Option Answer) ∈ as.map some := (complete?_eq_some.mp has).1 ▸ by simp
    simp at hnone
  · have hdrop : p.server.drop answers.length = k :: p.server.drop (answers.length + 1) := by
      rw [List.drop_eq_getElem_cons hlt, hget]
    simp only [finale, hsame]
    rw [hdrop, List.length_append]
    rfl

/-- What a removal comes to is not changed by what it does by itself, nor by the answers to it. -/
theorem alike_resume (hc : c.Calm party) (hs : Sound reply r st c)
    (h : resume r party st c = some (st', c')) :
    Alike [] [] (finale reply r st' c') (finale reply r st c) ∧ Sound reply r st' c' ∧
      c'.Calm party := by
  have hrefl : ∀ x : Except Fault (List Entry) × Client, Alike [] [] x x := fun x =>
    ⟨rfl, Client.mirrors_refl x.2⟩
  cases resumed h with
  | asked p answers k next =>
    obtain ⟨hsound, hfinale⟩ := sound_asked next hs.1
    exact ⟨hfinale ▸ hrefl _, hsound, hc.of_eq rfl rfl⟩
  | advanced p answers empty =>
    have hundisturbed : c.Undisturbed (advance r p answers c).2 := .of_thins (thins_advance p answers c)
    exact ⟨finale_advance hs.1 ▸ hrefl _, sound_advance hs.1,
      hc.of_eq hundisturbed.closed hundisturbed.deliveries⟩
  | told o => exact ⟨hrefl _, trivial, hc⟩
  | telling e es o =>
    rcases hc.send (.removed e .syncConnected) with ⟨_, q, hsend, hq, _⟩ | ⟨_, q, hsend, hq, _⟩
    · rw [hsend]
      refine ⟨?_, trivial, hq.of_eq rfl rfl⟩
      refine alike_finale reply r (.confirming es o) (d := tell c e) ?_
      exact (Client.mirrors_of_eq rfl rfl rfl : Mirrors { c with deliveries := q } c).note _
    · rw [hsend]
      refine ⟨?_, trivial, hq⟩
      exact alike_finale reply r (.confirming (e :: es) o) (Client.mirrors_of_eq rfl rfl rfl)
  | finished o result ended =>
    subst ended
    exact ⟨hrefl _, trivial, hc.of_eq rfl rfl⟩
  | passed k ks o unheld =>
    have hsame : rearm r c k = c := if_pos (Registry.isEmpty_registeredKinds.mpr unheld)
    refine ⟨?_, trivial, hc⟩
    simp only [finale, List.foldl_cons, hsame]
    exact hrefl _
  | rearming k ks o held =>
    have hagain : rearm r c k = c.submit (.register r.path (.rearming k)) :=
      if_neg fun he => Registry.isEmpty_registeredKinds.mp he held
    refine ⟨?_, trivial, hc.of_eq rfl rfl⟩
    refine alike_finale reply r (.checking ks o) (d := rearm r c k) ?_
    rw [hagain]
    exact (Client.mirrors_note c rfl).note _

theorem alike_answer (hs : Sound reply r st c) {slot : Nat}
    (h : answer r slot (reply (c.history.take
      (c.history.length - (waits r st).length + slot + 1))) st c = some (st', c')) :
    Alike [] [] (finale reply r st' c') (finale reply r st c) ∧ Sound reply r st' c' := by
  cases st with
  | asking p answers =>
    cases replied h with
    | advanced _ _ awaited =>
      obtain ⟨hlt, _⟩ := List.getElem?_eq_some_iff.mp awaited
      have hshort := hs.1.short
      have hwaits : (waits r (.asking p answers)).length = answers.length := by
        simp only [waits, List.length_zipWith]
        omega
      rw [hwaits, hs.1.upTo hlt] at h ⊢
      have hasked := hs.1.set hlt
      refine ⟨?_, sound_advance hasked⟩
      rw [finale_advance hasked]
      simp only [finale, List.length_set]
      exact ⟨rfl, Client.mirrors_refl _⟩
  | rearming k ks o =>
    obtain ⟨rfl, rfl | ⟨m, rfl⟩⟩ := answered_rearming h
    · exact ⟨⟨rfl, Client.mirrors_refl _⟩, trivial⟩
    · exact ⟨alike_finale reply r (.checking ks o) (Client.mirrors_note c rfl), trivial⟩
  | confirming | checking | done => cases h

end Removal

end NodeWatch
