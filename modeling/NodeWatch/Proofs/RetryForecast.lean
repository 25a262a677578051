import NodeWatch.Backoff

/-! What comes of a request that is repeated, told from the replies alone: when each attempt is made,
and how and when the last one ends. -/

namespace NodeWatch.Backoff

/-- What an attempt heard: an answer, so long after it was made, or nothing in the time it has. -/
inductive Reply where
  | heard (delay : Nat) (answer : Answer)
  | unheard

namespace Reply

def delay (p : BackoffPolicy) : Reply → Nat
  | heard d _ => d
  | unheard => p.timeoutMs

def result (p : BackoffPolicy) : Reply → Answer
  | heard _ x => x
  | unheard => .error (.timeout (.ofMillis p.timeoutMs))

end Reply

/-- When attempts are made, and when the last of them ends with which result. -/
structure Forecast where
  attempts : List Nat
  ending : Option (Nat × Answer)

def Forecast.after (earlier : List Nat) (w : Forecast) : Forecast :=
  ⟨earlier ++ w.attempts, w.ending⟩

/-- The attempt numbered `n`, made at `time`, and those after it, given what each of them hears. -/
def forecastFrom (p : BackoffPolicy) (n delay time : Nat) : List Reply → Forecast
  | [] => ⟨[time], none⟩
  | r :: rs =>
    match r.result p with
    | .ok x => ⟨[time], some (time + r.delay p, .ok x)⟩
    | .error f =>
      if n < attempts p then
        (forecastFrom p (n + 1) (min (2 * delay) p.maxDelayMs) (time + r.delay p + delay) rs).after
          [time]
      else ⟨[time], some (time + r.delay p, .error f)⟩

/-- What comes of a request that is first made at `time`. -/
def forecast (p : BackoffPolicy) (time : Nat) (replies : List Reply) : Forecast :=
  forecastFrom p 1 p.baseDelayMs time replies

/-- The attempts so far, what they heard and the moment of the last of these events are those that
the replies foretell, whatever replies will follow. -/
def Foretold (p : BackoffPolicy) (start : Nat) (made : List Nat) (replies : List Reply)
    (changed : Nat) : Stage → Prop
  | .unstarted => made = [] ∧ replies = []
  | .trying n d => ∃ earlier, made = earlier ++ [changed] ∧ ∀ rest,
      forecast p start (replies ++ rest) = (forecastFrom p n d changed rest).after earlier
  | .pausing n d => made ≠ [] ∧ ∀ rest, forecast p start (replies ++ rest) =
      (forecastFrom p (n + 1) (min (2 * d) p.maxDelayMs) (changed + d) rest).after made
  | .ended r => forecast p start replies = ⟨made, some (changed, r)⟩

variable {p : BackoffPolicy} {start changed : Nat} {made : List Nat} {replies : List Reply}
  {n d : Nat} {c c' : Client}

theorem Forecast.after_after (xs ys : List Nat) (w : Forecast) :
    (w.after ys).after xs = w.after (xs ++ ys) := by
  simp [after]

theorem foretold_start (p : BackoffPolicy) (start : Nat) :
    Foretold p start [start] [] start (.trying 1 p.baseDelayMs) :=
  ⟨[], rfl, fun _ => rfl⟩

theorem foretold_reply (h : Foretold p start made replies changed (.trying n d)) (r : Reply) :
    Foretold p start made (replies ++ [r]) (changed + r.delay p)
      (match r.result p with
        | .ok x => .ended (.ok x)
        | .error f => (failed p n d f c).1) := by
  obtain ⟨earlier, rfl, hfore⟩ := h
  split
  · rename_i x hr
    rw [Foretold, hfore [r], forecastFrom, hr]
    rfl
  · rename_i f hr
    simp only [failed]
    split
    · rename_i hn
      refine ⟨by simp, fun rest => ?_⟩
      rw [List.append_assoc, hfore ([r] ++ rest)]
      simp only [List.singleton_append, forecastFrom, hr, if_pos hn]
      exact Forecast.after_after _ _ _
    · rename_i hn
      rw [Foretold, hfore [r]]
      simp only [forecastFrom, hr, if_neg hn]
      rfl

theorem foretold_answer {x : Answer} {st st' : Stage} {now : Nat} (hlate : changed ≤ now)
    (h : Foretold p start made replies changed st) (hm : answer p x st c = some (st', c')) :
    Foretold p start made (replies ++ [.heard (now - changed) x]) now st' := by
  have hnow : now = changed + (Reply.heard (now - changed) x).delay p :=
    (Nat.add_sub_cancel' hlate).symm
  cases st with
  | trying n d =>
    cases x with
    | ok y =>
      obtain ⟨rfl, _⟩ := Prod.mk.inj (Option.some.inj hm)
      have hreply := foretold_reply (c := c) h (.heard (now - changed) (.ok y))
      rwa [← hnow] at hreply
    | error f =>
      obtain rfl : (failed p n d f _).1 = st' := congrArg Prod.fst (Option.some.inj hm)
      have hreply := foretold_reply (c := c.remark (.attemptFailed n f)) h
        (.heard (now - changed) (.error f))
      rwa [← hnow] at hreply
  | unstarted | pausing | ended => cases x <;> cases hm

theorem foretold_timeOut {st st' : Stage} (h : Foretold p start made replies changed st)
    (hm : timeOut p st c = some (st', c')) :
    Foretold p start made (replies ++ [.unheard]) (changed + p.timeoutMs) st' := by
  simp only [timeOut] at hm
  split at hm
  · obtain rfl : (failed p _ _ _ _).1 = st' := congrArg Prod.fst (Option.some.inj hm)
    exact foretold_reply h .unheard
  · cases hm

theorem foretold_retry {r : Request} {st st' : Stage}
    (h : Foretold p start made replies changed (.pausing n d))
    (hm : retry p r st c = some (st', c')) (hst : st = .pausing n d) :
    made ≠ [] ∧ Foretold p start (made ++ [changed + d]) replies (changed + d) st' := by
  subst hst
  obtain rfl := congrArg Prod.fst (Option.some.inj hm)
  exact ⟨h.1, made, rfl, h.2⟩

end NodeWatch.Backoff
