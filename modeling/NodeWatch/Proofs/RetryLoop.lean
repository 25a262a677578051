import Mathlib.Algebra.BigOperators.Intervals
import Mathlib.Order.Bounds.Basic
import NodeWatch.Proofs.ClientConstruction
import NodeWatch.Proofs.RemovalProspects

/-! A request that is repeated, against the clock. How long each attempt would take is known from the
start, and so are the moments at which all attempts are made and end: the pauses in between are the
powers of two of the first one, up to the longest. -/

namespace NodeWatch

/-- The longest span of time that has a representation of 64 bits of seconds, and nanoseconds. -/
def Duration.longest : Duration :=
  .ofSecsNanos (2 ^ 64 - 1) 999999999

namespace Backoff

/-- How long an attempt takes that has all the time it needs, if it ends at all, and how it ends. -/
structure Behaviour where
  length : Option Nat
  answer : Answer

/-- An attempt that is over. -/
structure Trial where
  made : Nat
  ended : Nat
  outcome : Answer

/-- A request that is being repeated. The attempt or the pause under way began at `since`, and the
attempts before it are listed with the earliest first. -/
structure Loop where
  stage : Stage
  client : Client
  now : Nat
  since : Nat
  past : List Trial

namespace Loop

def begin (p : BackoffPolicy) (q : Request) (c : Client) (t : Nat) : Loop :=
  ⟨(start p q c).1, (start p q c).2, t, t, []⟩

/-- What the attempt under way has come to, once it had all the time it needs. -/
def heard? (bs : Nat → Behaviour) (w : Loop) : Option Answer :=
  match w.stage with
  | .trying n _ => if (bs n).length.any (w.since + · ≤ w.now) then some (bs n).answer else none
  | _ => none

def conclude (w : Loop) (a : Answer) (x : Stage × Client) : Loop :=
  ⟨x.1, x.2, w.now, w.now, w.past ++ [⟨w.since, w.now, a⟩]⟩

def tick (w : Loop) : Loop :=
  { w with now := w.now + 1 }

/-- What comes next. The attempt is looked at before its deadline is, and if there is nothing to be
done a millisecond goes by. -/
def next (p : BackoffPolicy) (q : Request) (bs : Nat → Behaviour) (w : Loop) : Option Loop :=
  match w.heard? bs with
  | some a => (answer p a w.stage w.client).map (w.conclude a)
  | none =>
    match wait? p q w.stage with
    | some (.answer _ (some limit)) =>
      if w.since + limit ≤ w.now then
        (timeOut p w.stage w.client).map (w.conclude (.error (.timeout (.ofMillis limit))))
      else some w.tick
    | some (.pause d) =>
      if w.since + d ≤ w.now then
        (retry p q w.stage w.client).map fun x => ⟨x.1, x.2, w.now, w.now, w.past⟩
      else some w.tick
    | some (.answer _ none) | none => none

def Next (p : BackoffPolicy) (q : Request) (bs : Nat → Behaviour) (w v : Loop) : Prop :=
  next p q bs w = some v

end Loop

/-- How long an attempt lasts. -/
def span (p : BackoffPolicy) (b : Behaviour) : Nat :=
  min (b.length.getD p.timeoutMs) p.timeoutMs

/-- What an attempt comes to. -/
def outcome (p : BackoffPolicy) (b : Behaviour) : Answer :=
  if b.length.any (· ≤ p.timeoutMs) then b.answer
  else .error (.timeout (.ofMillis p.timeoutMs))

/-- The attempt succeeds in the time it has. -/
def Timely (p : BackoffPolicy) (b : Behaviour) : Prop :=
  ∃ l y, b.length = some l ∧ l ≤ p.timeoutMs ∧ b.answer = .ok y

/-- The pause after an attempt that failed. -/
def pause (p : BackoffPolicy) (i : Nat) : Nat :=
  min (p.baseDelayMs * 2 ^ (i - 1)) p.maxDelayMs

/-- The moment an attempt is made, if there are so many. -/
def moment (p : BackoffPolicy) (bs : Nat → Behaviour) (t i : Nat) : Nat :=
  t + ∑ j ∈ Finset.Ico 1 i, (span p (bs j) + pause p j)

def trial (p : BackoffPolicy) (bs : Nat → Behaviour) (t i : Nat) : Trial :=
  ⟨moment p bs t i, moment p bs t i + span p (bs i), outcome p (bs i)⟩

variable {p : BackoffPolicy} {q : Request} {bs : Nat → Behaviour} {c c' : Client} {b : Behaviour}
  {t n d m : Nat} {past : List Trial} {w v : Loop} {st : Stage}

theorem ok_outcome : (∃ y, outcome p b = .ok y) ↔ Timely p b := by
  simp only [outcome, Timely]
  cases hl : b.length with
  | none => simp
  | some l =>
    by_cases hlate : l ≤ p.timeoutMs <;> simp [hlate]

theorem pause_one (h : p.baseDelayMs ≤ p.maxDelayMs) : pause p 1 = p.baseDelayMs := by
  simp [pause, h]

/-- The pauses double, up to the longest. -/
theorem pause_succ {i : Nat} (h : 1 ≤ i) : pause p (i + 1) = min (2 * pause p i) p.maxDelayMs := by
  obtain ⟨k, rfl⟩ := Nat.exists_eq_add_of_le' h
  have hdouble : p.baseDelayMs * 2 ^ (k + 1) = 2 * (p.baseDelayMs * 2 ^ k) := by
    rw [pow_succ', mul_left_comm]
  simp only [pause, Nat.add_sub_cancel, hdouble]
  omega

theorem moment_succ {i : Nat} (h : 1 ≤ i) :
    moment p bs t (i + 1) = moment p bs t i + span p (bs i) + pause p i := by
  rw [moment, Finset.sum_Ico_succ_top h, moment]
  omega

/-- When an attempt ends: the spans of all attempts so far, and the pauses between them. -/
theorem moment_over (h : 1 ≤ n) : moment p bs t n + span p (bs n) =
    t + ∑ i ∈ Finset.Icc 1 n, span p (bs i) + ∑ i ∈ Finset.Ico 1 n, pause p i := by
  have hspans : ∑ i ∈ Finset.Icc 1 n, span p (bs i) =
      ∑ i ∈ Finset.Ico 1 n, span p (bs i) + span p (bs n) := by
    rw [← Finset.sum_Ico_succ_top h]
    rfl
  rw [moment, Finset.sum_add_distrib, hspans]
  omega

/-- The stage that an attempt leads to. -/
def following (p : BackoffPolicy) (n d : Nat) : Answer → Stage
  | .ok x => .ended (.ok x)
  | .error f => if n < attempts p then .pausing n d else .ended (.error f)

/-- The attempts and pauses keep to the closed form. -/
def Paced (p : BackoffPolicy) : Stage → Prop
  | .trying n d => 1 ≤ n ∧ n ≤ attempts p ∧ d = pause p n
  | .pausing n d => 1 ≤ n ∧ n < attempts p ∧ d = pause p n
  | .unstarted | .ended _ => True

theorem fst_failed (n d : Nat) (f : Fault) (c : Client) :
    (failed p n d f c).1 = following p n d (.error f) := by
  simp only [failed, following]
  split <;> rfl

theorem history_remark (c : Client) (r : Remark) : (c.remark r).history = c.history :=
  (Client.Unasked.note c (o := .remarked r) (by simp)).history

theorem history_failed (n d : Nat) (f : Fault) (c : Client) :
    (failed p n d f c).2.history = c.history := by
  simp only [failed]
  split
  · rfl
  · exact history_remark c _

theorem answer_trying (p : BackoffPolicy) (n d : Nat) (a : Answer) (c : Client) :
    ∃ c', answer p a (.trying n d) c = some (following p n d a, c') ∧ c'.history = c.history := by
  cases a with
  | ok y => exact ⟨c, rfl, rfl⟩
  | error f =>
    refine ⟨_, congrArg some (Prod.ext (fst_failed n d f _) rfl), ?_⟩
    rw [history_failed, history_remark]

theorem timeOut_trying (p : BackoffPolicy) (n d : Nat) (c : Client) :
    ∃ c', timeOut p (.trying n d) c =
        some (following p n d (.error (.timeout (.ofMillis p.timeoutMs))), c') ∧
      c'.history = c.history := by
  refine ⟨_, congrArg some (Prod.ext (fst_failed n d _ _) rfl), ?_⟩
  rw [history_failed, history_remark]

namespace Loop

open Relation (ReflTransGen)

theorem ticks_run (w : Loop)
    (h : ∀ k < m, next p q bs { w with now := w.now + k } = some { w with now := w.now + k + 1 }) :
    ReflTransGen (Next p q bs) w { w with now := w.now + m } := by
  induction m with
  | zero => exact .refl
  | succ m ih => exact (ih fun k hk => h k (Nat.lt_succ_of_lt hk)).tail (h m (Nat.lt_succ_self m))

/-- While the attempt is under way and has time left, time goes by. -/
theorem next_trying (hl : ∀ l, (bs n).length = some l → w.now < w.since + l)
    (hlimit : w.now < w.since + p.timeoutMs) (hstage : w.stage = .trying n d) :
    next p q bs w = some w.tick := by
  have hheard : w.heard? bs = none := by
    simp only [heard?, hstage]
    cases hb : (bs n).length with
    | none => rfl
    | some l => simp [hl l hb]
  simp only [next, hheard, hstage, wait?, if_neg (Nat.not_le.mpr hlimit)]

/-- An attempt from when it is made to when it is over. -/
theorem trial_run (p : BackoffPolicy) (q : Request) (bs : Nat → Behaviour) (n d t : Nat)
    (c : Client) (past : List Trial) :
    ∃ c', c'.history = c.history ∧ ReflTransGen (Next p q bs) ⟨.trying n d, c, t, t, past⟩
      ⟨following p n d (outcome p (bs n)), c', t + span p (bs n), t + span p (bs n),
        past ++ [⟨t, t + span p (bs n), outcome p (bs n)⟩]⟩ := by
  have hticks : ReflTransGen (Next p q bs) ⟨.trying n d, c, t, t, past⟩
      ⟨.trying n d, c, t + span p (bs n), t, past⟩ := by
    refine ticks_run ⟨.trying n d, c, t, t, past⟩ fun k hk => ?_
    refine next_trying (n := n) (d := d) (fun l hl => ?_) ?_ rfl
    · have hspan : span p (bs n) ≤ l := by simp [span, hl]
      exact Nat.add_lt_add_left (hk.trans_le hspan) t
    · have hspan : span p (bs n) ≤ p.timeoutMs := Nat.min_le_right _ _
      exact Nat.add_lt_add_left (hk.trans_le hspan) t
  by_cases hown : (bs n).length.any (· ≤ p.timeoutMs) = true
  · obtain ⟨l, hl, hlate⟩ := (Option.any_eq_true _ _).mp hown
    have hlate : l ≤ p.timeoutMs := of_decide_eq_true hlate
    have hspan : span p (bs n) = l := by simp [span, hl, hlate]
    have houtcome : outcome p (bs n) = (bs n).answer := if_pos hown
    obtain ⟨c', hanswer, hhistory⟩ := answer_trying p n d (bs n).answer c
    refine ⟨c', hhistory, hticks.tail ?_⟩
    rw [houtcome, hspan]
    have hheard : heard? bs ⟨.trying n d, c, t + l, t, past⟩ = some (bs n).answer := by
      simp [heard?, hl]
    simp only [Next, next, hheard, hanswer, Option.map_some, conclude]
  · have hspan : span p (bs n) = p.timeoutMs := by
      cases hl : (bs n).length with
      | none => simp [span, hl]
      | some l =>
        have hlate : p.timeoutMs < l := by simpa [hl] using hown
        simp [span, hl, hlate.le]
    have houtcome : outcome p (bs n) = .error (.timeout (.ofMillis p.timeoutMs)) := if_neg hown
    obtain ⟨c', htimeOut, hhistory⟩ := timeOut_trying p n d c
    refine ⟨c', hhistory, hticks.tail ?_⟩
    rw [houtcome, hspan]
    have hheard : heard? bs ⟨.trying n d, c, t + p.timeoutMs, t, past⟩ = none := by
      simp only [heard?]
      refine if_neg fun hany => hown ?_
      simpa using hany
    simp only [Next, next, hheard, wait?, le_refl, if_true, htimeOut, Option.map_some, conclude]

/-- A pause from its beginning to the next attempt. -/
theorem pause_run (p : BackoffPolicy) (q : Request) (bs : Nat → Behaviour) (n d t : Nat)
    (c : Client) (past : List Trial) :
    ReflTransGen (Next p q bs) ⟨.pausing n d, c, t, t, past⟩
      ⟨.trying (n + 1) (min (2 * d) p.maxDelayMs), c.submit q, t + d, t + d, past⟩ := by
  have hticks : ReflTransGen (Next p q bs) ⟨.pausing n d, c, t, t, past⟩
      ⟨.pausing n d, c, t + d, t, past⟩ := by
    refine ticks_run ⟨.pausing n d, c, t, t, past⟩ fun k hk => ?_
    have hearly : ¬t + d ≤ t + k := Nat.not_le.mpr (Nat.add_lt_add_left hk t)
    simp only [next, heard?, wait?, if_neg hearly, tick]
  refine hticks.tail ?_
  simp only [Next, next, heard?, wait?, le_refl, if_true, retry, Option.map_some]

theorem next_ended {r : Answer} (h : w.stage = .ended r) : next p q bs w = none := by
  simp only [next, heard?, h, wait?]

/-- When all attempts before this one have failed, these are the attempts so far, and this is the
moment. -/
def Reaches (p : BackoffPolicy) (q : Request) (bs : Nat → Behaviour) (c : Client) (t i : Nat)
    (w : Loop) : Prop :=
  ∃ c', c'.history = c.history ++ List.replicate i q ∧
    w = ⟨.trying i (pause p i), c', moment p bs t i, moment p bs t i,
      (List.range' 1 (i - 1)).map (trial p bs t)⟩

theorem reaches_begin (h : p.baseDelayMs ≤ p.maxDelayMs) (q : Request) (bs : Nat → Behaviour)
    (c : Client) (t : Nat) : Reaches p q bs c t 1 (begin p q c t) := by
  refine ⟨c.submit q, Client.history_submit c q, ?_⟩
  simp [begin, start, pause_one h, moment]

/-- The attempt ends the loop, or leads to the next one. -/
theorem Reaches.run {i : Nat} (h : Reaches p q bs c t i w) (hi : 1 ≤ i) :
    ∃ c' v, c'.history = c.history ++ List.replicate i q ∧ ReflTransGen (Next p q bs) w v ∧
      ((Timely p (bs i) ∨ attempts p ≤ i) ∧
          v = ⟨.ended (outcome p (bs i)), c', moment p bs t i + span p (bs i),
            moment p bs t i + span p (bs i), (List.range' 1 i).map (trial p bs t)⟩ ∨
        ¬Timely p (bs i) ∧ i < attempts p ∧ Reaches p q bs c t (i + 1) v) := by
  obtain ⟨c₁, hhistory₁, rfl⟩ := h
  obtain ⟨c₂, hhistory₂, hrun⟩ := trial_run p q bs i (pause p i) (moment p bs t i) c₁
    ((List.range' 1 (i - 1)).map (trial p bs t))
  have hpast : (List.range' 1 (i - 1)).map (trial p bs t) ++ [trial p bs t i] =
      (List.range' 1 i).map (trial p bs t) := by
    obtain ⟨k, rfl⟩ := Nat.exists_eq_add_of_le' hi
    rw [Nat.add_sub_cancel, List.range'_concat, List.map_append]
    simp [Nat.add_comm]
  rw [trial] at hpast
  rw [hpast] at hrun
  rw [hhistory₁] at hhistory₂
  have htimely : (∃ y, outcome p (bs i) = .ok y) ↔ Timely p (bs i) := ok_outcome
  cases ho : outcome p (bs i) with
  | ok y =>
    rw [ho] at hrun
    exact ⟨c₂, _, hhistory₂, hrun, .inl ⟨.inl (htimely.mp ⟨y, ho⟩), rfl⟩⟩
  | error f =>
    have hfailed : ¬Timely p (bs i) := fun h => by
      obtain ⟨y, hy⟩ := htimely.mpr h
      rw [ho] at hy
      cases hy
    rw [ho] at hrun
    by_cases hlast : i < attempts p
    · rw [following, if_pos hlast] at hrun
      have hpause := pause_run p q bs i (pause p i) (moment p bs t i + span p (bs i)) c₂
        ((List.range' 1 i).map (trial p bs t))
      refine ⟨c₂, _, hhistory₂, hrun.trans hpause, .inr ⟨hfailed, hlast, c₂.submit q, ?_, ?_⟩⟩
      · rw [Client.history_submit, hhistory₂, List.append_assoc, List.replicate_succ']
      · rw [← pause_succ hi, ← moment_succ hi, Nat.add_sub_cancel]
    · rw [following, if_neg hlast] at hrun
      exact ⟨c₂, _, hhistory₂, hrun, .inl ⟨.inr (Nat.le_of_not_lt hlast), rfl⟩⟩

/-- The loop ends with the first attempt that succeeds, or with the last one. -/
theorem Reaches.ends {i : Nat} (h : Reaches p q bs c t i w) (hi : 1 ≤ i) (hlast : i ≤ attempts p)
    (hfailed : ∀ j, 1 ≤ j → j < i → ¬Timely p (bs j)) :
    ∃ n c', IsLeast { j | 1 ≤ j ∧ (Timely p (bs j) ∨ j = attempts p) } n ∧
      c'.history = c.history ++ List.replicate n q ∧ ReflTransGen (Next p q bs) w
        ⟨.ended (outcome p (bs n)), c', moment p bs t n + span p (bs n),
          moment p bs t n + span p (bs n), (List.range' 1 n).map (trial p bs t)⟩ := by
  -- on the number of attempts that are left
  induction hleft : attempts p - i generalizing i w with
  | zero =>
    obtain rfl : i = attempts p := by omega
    obtain ⟨c', v, hhistory, hrun, ⟨_, rfl⟩ | ⟨_, hmore, _⟩⟩ := h.run hi
    · refine ⟨attempts p, c', ⟨⟨hi, .inr rfl⟩, fun j hj => ?_⟩, hhistory, hrun⟩
      obtain ⟨hj, hjtimely | rfl⟩ := hj
      · by_contra hlt
        exact hfailed j hj (Nat.lt_of_not_le hlt) hjtimely
      · exact le_rfl
    · exact absurd hmore (lt_irrefl _)
  | succ k ih =>
    obtain ⟨c', v, hhistory, hrun, ⟨hends, rfl⟩ | ⟨hagain, hmore, hnext⟩⟩ := h.run hi
    · have htimely : Timely p (bs i) := hends.resolve_right (by omega)
      refine ⟨i, c', ⟨⟨hi, .inl htimely⟩, fun j hj => ?_⟩, hhistory, hrun⟩
      obtain ⟨hj, hjtimely | rfl⟩ := hj
      · by_contra hlt
        exact hfailed j hj (Nat.lt_of_not_le hlt) hjtimely
      · exact hlast
    · have hfailed' : ∀ j, 1 ≤ j → j < i + 1 → ¬Timely p (bs j) := fun j hj hlt => by
        rcases Nat.lt_succ_iff_lt_or_eq.mp hlt with hlt | rfl
        · exact hfailed j hj hlt
        · exact hagain
      obtain ⟨n, c'', hn, hhistory', hrest⟩ := ih hnext (by omega) hmore hfailed' (by omega)
      exact ⟨n, c'', hn, hhistory', hrun.trans hrest⟩

theorem paced_following (h : Paced p (.trying n d)) (a : Answer) : Paced p (following p n d a) := by
  obtain ⟨hfirst, _, hpause⟩ := h
  cases a with
  | ok y => trivial
  | error f =>
    rw [following]
    split
    · rename_i hmore
      exact ⟨hfirst, hmore, hpause⟩
    · trivial

theorem paced_next (hw : Paced p w.stage) (h : next p q bs w = some v) : Paced p v.stage := by
  obtain ⟨st, c, now, since, past⟩ := w
  cases st with
  | trying n d =>
    simp only [next, wait?] at h
    split at h
    · rename_i a _
      obtain ⟨c', hanswer, _⟩ := answer_trying p n d a c
      rw [hanswer] at h
      obtain rfl := Option.some.inj h
      exact paced_following hw a
    · split at h
      · obtain ⟨c', htimeOut, _⟩ := timeOut_trying p n d c
        rw [htimeOut] at h
        obtain rfl := Option.some.inj h
        exact paced_following hw (.error (.timeout (.ofMillis p.timeoutMs)))
      · obtain rfl := Option.some.inj h
        exact hw
  | pausing n d =>
    simp only [next, heard?, wait?] at h
    split at h
    · obtain rfl := Option.some.inj h
      obtain ⟨hfirst, hmore, rfl⟩ := hw
      exact ⟨by omega, hmore, (pause_succ hfirst).symm⟩
    · obtain rfl := Option.some.inj h
      exact hw
  | unstarted => cases h
  | ended r => cases h

theorem paced_run (h : ReflTransGen (Next p q bs) w v) (hw : Paced p w.stage) :
    Paced p v.stage := by
  induction h with
  | refl => exact hw
  | tail _ hnext ih => exact paced_next ih hnext

/-- There is one way only in which a loop goes on, so that it gets to where it ends. -/
theorem run_of_ended {u : Loop} (hu : ReflTransGen (Next p q bs) w u)
    (hended : next p q bs u = none) (hv : ReflTransGen (Next p q bs) w v) :
    ReflTransGen (Next p q bs) v u := by
  have hunique : Relator.RightUnique (Next p q bs) := fun w v v' h h' =>
    Option.some.inj (h.symm.trans h')
  rcases ReflTransGen.total_of_right_unique hunique hv hu with h | h
  · exact h
  · rcases h.cases_head with rfl | ⟨u', hnext, _⟩
    · exact .refl
    · rw [Next, hended] at hnext
      cases hnext

end Loop

/-- No pause that is to be doubled gets too long for that. -/
theorem double_pause_le (h : p.maxDelayMs < 2 ^ 64) (i : Nat) :
    (Duration.ofMillis (2 * pause p i)).nanos ≤ Duration.longest.nanos := by
  have hpause : pause p i ≤ p.maxDelayMs := Nat.min_le_right _ _
  simp only [Duration.ofMillis, Duration.longest, Duration.ofSecsNanos]
  omega

/-- A request that is repeated under a valid policy, whatever its attempts would do. There are as many
attempts as it takes for one to succeed in its time, and never more than there may be. An attempt ends
when it is over, be it in the last moment, or when its time is; the moments of the attempts are those
of the closed form, and what the last one comes to is the result. However far a run has come, it gets
there, and the pause that it doubles next has a double. -/
theorem loop_closed_form {name : String} (hp : p.validate name = .ok ())
    (hmax : p.maxDelayMs < 2 ^ 64) (q : Request) (bs : Nat → Behaviour) (c : Client) (t : Nat) :
    ∃ n w, IsLeast { i | 1 ≤ i ∧ (Timely p (bs i) ∨ i = max 1 p.maxRetries) } n ∧
      Relation.ReflTransGen (Loop.Next p q bs) (Loop.begin p q c t) w ∧
      Loop.next p q bs w = none ∧
      w.client.history = c.history ++ List.replicate n q ∧
      w.past = (List.range' 1 n).map (trial p bs t) ∧
      w.stage = .ended (outcome p (bs n)) ∧
      w.now = t + ∑ i ∈ Finset.Icc 1 n, span p (bs i) + ∑ i ∈ Finset.Ico 1 n, pause p i ∧
      ∀ v, Relation.ReflTransGen (Loop.Next p q bs) (Loop.begin p q c t) v →
        Relation.ReflTransGen (Loop.Next p q bs) v w ∧
        ∀ i d, v.stage = .pausing i d → d = pause p i ∧
          (Duration.ofMillis (2 * d)).nanos ≤ Duration.longest.nanos := by
  have hdelays := (BackoffPolicy.validate_eq_ok.mp hp).2
  have hbegin := Loop.reaches_begin hdelays q bs c t
  obtain ⟨n, c', hleast, hhistory, hrun⟩ := hbegin.ends le_rfl (Nat.le_max_left _ _)
    fun j hj hlt => absurd hlt (Nat.not_lt.mpr hj)
  have hended : Loop.next p q bs
      ⟨.ended (outcome p (bs n)), c', moment p bs t n + span p (bs n),
        moment p bs t n + span p (bs n), (List.range' 1 n).map (trial p bs t)⟩ = none :=
    Loop.next_ended rfl
  refine ⟨n, _, hleast, hrun, hended, hhistory, rfl, rfl, moment_over hleast.1.1, fun v hv => ?_⟩
  refine ⟨Loop.run_of_ended hrun hended hv, fun i d hpausing => ?_⟩
  have hpaced : Paced p (Loop.begin p q c t).stage :=
    ⟨le_rfl, Nat.le_max_left _ _, (pause_one hdelays).symm⟩
  have hv := Loop.paced_run hv hpaced
  rw [hpausing] at hv
  obtain ⟨_, _, rfl⟩ := hv
  exact ⟨rfl, double_pause_le hmax i⟩

/-- The first attempt fails in the last moment, the second is not heard of again, and all others
succeed in the last moment. -/
def tardy : Nat → Behaviour
  | 1 => ⟨some 100, .error .connectionLoss⟩
  | 2 => ⟨none, .ok .removed⟩
  | _ => ⟨some 100, .ok .removed⟩

/-- The third attempt is the one that counts, 325 ms after the first was made. -/
theorem third_attempt_succeeds :
    ∃ c w, Relation.ReflTransGen (Loop.Next ⟨4, 100, 10, 15⟩ (.register "/a" .presence) tardy)
        (Loop.begin ⟨4, 100, 10, 15⟩ (.register "/a" .presence) c 0) w ∧
      w.client.history = c.history ++ List.replicate 3 (.register "/a" .presence) ∧
      w.stage = .ended (.ok .removed) ∧ w.now = 325 ∧
      w.past = [⟨0, 100, .error .connectionLoss⟩,
        ⟨110, 210, .error (.timeout (.ofMillis 100))⟩, ⟨225, 325, .ok .removed⟩] := by
  let c := (Engine.initial {} ⟨1024, [], [], [], true⟩ ⟨256, [], [], [], true⟩ none).client
  have hvalid : BackoffPolicy.validate ⟨4, 100, 10, 15⟩ "session.resubmit" = .ok () := rfl
  obtain ⟨n, w, hleast, hrun, _, hhistory, hpast, hstage, hnow, _⟩ :=
    loop_closed_form hvalid (by decide) (.register "/a" .presence) tardy c 0
  have hthird : n = 3 := by
    refine hleast.unique ⟨⟨by decide, .inl ⟨100, .removed, rfl, le_rfl, rfl⟩⟩, ?_⟩
    rintro i ⟨hi, hstops⟩
    by_contra hlt
    obtain rfl | rfl : i = 1 ∨ i = 2 := by omega
    · rcases hstops with ⟨_, _, _, _, hfails⟩ | hlast
      · cases hfails
      · cases hlast
    · rcases hstops with ⟨_, _, hends, _, _⟩ | hlast
      · cases hends
      · cases hlast
  subst hthird
  refine ⟨c, w, hrun, hhistory, hstage, ?_, ?_⟩
  · rw [hnow]
    decide
  · rw [hpast]
    rfl

end Backoff

end NodeWatch
