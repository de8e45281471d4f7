import Foxhttp.Middleware.RateLimit

/-!
# Whose budget is it?

The default key joins the `X-Forwarded-For` value and the path by a bar. Either
may hold bars of its own, and an empty value counts as `unknown`, so different
pairs may share a key and spend the same budget.
-/

namespace Foxhttp.Middleware

open Foxhttp.Library

/-- The `X-Forwarded-For` value and the path of a request. -/
def RequestHead.pair (ctx : RequestHead) : Text × Text :=
  ((ctx.header "X-Forwarded-For".toList).getD [], ctx.path)

/-- What stands for a value in a key. -/
def address (value : Text) : Text :=
  if value = [] then "unknown".toList else value

/-- The default key of a pair. -/
def keyOf (pair : Text × Text) : Text :=
  address pair.1 ++ '|' :: pair.2

/-- The first address goes on with a bar and the front of the path, up to the
bar before the second path, in the second address. -/
def Shifted (first second : Text × Text) : Prop :=
  ∃ middle, address second.1 = address first.1 ++ '|' :: middle ∧
    first.2 = middle ++ '|' :: second.2

/-- Two pairs differ in nothing but an empty value and `unknown`, or a bar of
theirs may be taken for the one between the value and the path. -/
def Collide (first second : Text × Text) : Prop :=
  (address first.1 = address second.1 ∧ first.2 = second.2) ∨
    Shifted first second ∨ Shifted second first

/-- The requests of a sequence, with the times of their arrival in order. -/
def InOrder (requests : List (RequestHead × Int)) : Prop :=
  (requests.map Prod.snd).Pairwise (· ≤ ·)

/-- A sequence without the requests of a pair. -/
def without (pair : Text × Text) (requests : List (RequestHead × Int)) :
    List (RequestHead × Int) :=
  requests.filter fun request => request.1.pair ≠ pair

namespace RateLimitMiddleware

/-- Which of the requests of a pair are admitted, in their order. -/
def answers (pair : Text × Text) : RateLimitMiddleware → List (RequestHead × Int) → List Bool
  | _, [] => []
  | limiter, (ctx, now) :: rest =>
      if ctx.pair = pair then
        (limiter.call now ctx).1.isNone :: answers pair (limiter.call now ctx).2 rest
      else answers pair (limiter.call now ctx).2 rest

/-- Requests of one pair which are added or removed leave the answers to those
of another as they are. -/
def Independent (limiter : RateLimitMiddleware) (one other : Text × Text) : Prop :=
  ∀ requests changed, InOrder requests → InOrder changed →
    without one requests = without one changed →
      limiter.answers other requests = limiter.answers other changed

end RateLimitMiddleware

/-! ## The keys -/

/-- Texts joined at a separator are the same where their parts are, or where
another separator stands in one of them. -/
theorem append_separator_iff {separator : Char} {front back first last : Text} :
    front ++ separator :: back = first ++ separator :: last ↔
      (front = first ∧ back = last) ∨
        (∃ middle, first = front ++ separator :: middle ∧ back = middle ++ separator :: last) ∨
        ∃ middle, front = first ++ separator :: middle ∧ last = middle ++ separator :: back := by
  constructor
  · intro same
    rcases List.append_eq_append_iff.mp same with ⟨rest, isFirst, isBack⟩ | ⟨rest, isFront, isLast⟩
    · cases rest with
      | nil =>
          rw [List.append_nil] at isFirst
          exact .inl ⟨isFirst.symm, (List.cons.inj isBack).2⟩
      | cons head middle =>
          obtain ⟨rfl, isRest⟩ := List.cons.inj isBack
          exact .inr (.inl ⟨middle, isFirst, isRest⟩)
    · cases rest with
      | nil =>
          rw [List.append_nil] at isFront
          exact .inl ⟨isFront, (List.cons.inj isLast).2.symm⟩
      | cons head middle =>
          obtain ⟨rfl, isRest⟩ := List.cons.inj isLast
          exact .inr (.inr ⟨middle, isFront, isRest⟩)
  · rintro (⟨rfl, rfl⟩ | ⟨middle, rfl, rfl⟩ | ⟨middle, rfl, rfl⟩)
    · rfl
    · simp
    · simp

namespace RateLimitMiddleware

variable {maxRequests : Nat} {window : Int} {limiter other : RateLimitMiddleware}

theorem makeKey_eq (default : limiter.extractor = none) (ctx : RequestHead) :
    limiter.makeKey ctx = keyOf ctx.pair := by
  rw [makeKey, default]
  rfl

/-- Two requests share a key exactly when their pairs collide. -/
theorem makeKey_eq_iff (limiter : RateLimitMiddleware) (default : limiter.extractor = none)
    (first second : RequestHead) :
    limiter.makeKey first = limiter.makeKey second ↔ Collide first.pair second.pair := by
  rw [makeKey_eq default, makeKey_eq default, keyOf, keyOf, append_separator_iff]
  rfl

/-! ## Pairs with keys of their own -/

/-- Two limiters of one setting whose buckets differ for one key at most. -/
structure AgreeBut (key : Text) (limiter other : RateLimitMiddleware) : Prop where
  maxRequests : limiter.maxRequests = other.maxRequests
  window : limiter.window = other.window
  extractor : limiter.extractor = none
  extractorToo : other.extractor = none
  buckets : ∀ {asked}, asked ≠ key → limiter.buckets asked = other.buckets asked

theorem call_fst_isNone (now : Int) (ctx : RequestHead) :
    (limiter.call now ctx).1.isNone = !(limiter.isLimited now (limiter.makeKey ctx)).1 := by
  rw [call]
  split
  · rename_i limited
    rw [limited]
    rfl
  · rename_i admitted
    rw [admitted]
    rfl

theorem call_snd (now : Int) (ctx : RequestHead) :
    (limiter.call now ctx).2 = (limiter.isLimited now (limiter.makeKey ctx)).2 := by
  rw [call]
  split
  · rename_i limited
    rw [limited]
  · rename_i admitted
    rw [admitted]

namespace AgreeBut

variable {key : Text}

/-- A request for the key leaves the other buckets alone. -/
theorem callOne (agree : AgreeBut key limiter other) {ctx : RequestHead}
    (asks : limiter.makeKey ctx = key) (now : Int) :
    AgreeBut key (limiter.call now ctx).2 other := by
  rw [call_snd, asks]
  exact
    { agree with
      buckets := fun {asked} different => by
        simp only [isLimited, if_neg different]
        exact agree.buckets different }

/-- A request gets the same answer of both, if it is not for the key. -/
theorem call (agree : AgreeBut key limiter other) (ctx : RequestHead) (now : Int) :
    AgreeBut key (limiter.call now ctx).2 (other.call now ctx).2 ∧
      (limiter.makeKey ctx ≠ key →
        (limiter.call now ctx).1.isNone = (other.call now ctx).1.isNone) := by
  have sameKey : other.makeKey ctx = limiter.makeKey ctx := by
    rw [makeKey_eq agree.extractorToo, makeKey_eq agree.extractor]
  rw [call_snd, call_snd, sameKey, call_fst_isNone, call_fst_isNone, sameKey]
  refine ⟨{ agree with buckets := fun {asked} different => ?_ }, fun elsewhere => ?_⟩
  · simp only [isLimited]
    split
    · rename_i same
      rw [← same, agree.buckets different, agree.maxRequests, agree.window]
    · exact agree.buckets different
  · simp only [isLimited, agree.buckets elsewhere, agree.maxRequests, agree.window]

/-- The requests of a pair with the key are none of the concern of a pair
without it. -/
theorem answers {one pair : Text × Text} (apart : keyOf pair ≠ keyOf one)
    (requests : List (RequestHead × Int)) (agree : AgreeBut (keyOf one) limiter other) :
    limiter.answers pair requests = other.answers pair (without one requests) := by
  induction requests generalizing limiter other with
  | nil => rfl
  | cons request rest inductionHypothesis =>
      obtain ⟨ctx, now⟩ := request
      have isKey := makeKey_eq agree.extractor ctx
      by_cases isOne : ctx.pair = one
      · have notPair : ctx.pair ≠ pair := fun isPair => apart (by rw [← isPair, isOne])
        rw [without, List.filter_cons_of_neg (by simpa using isOne), RateLimitMiddleware.answers,
          if_neg notPair]
        exact inductionHypothesis (agree.callOne (isKey.trans (congrArg keyOf isOne)) now)
      · obtain ⟨after, sameAnswer⟩ := agree.call ctx now
        rw [without, List.filter_cons_of_pos (by simpa using isOne), RateLimitMiddleware.answers,
          RateLimitMiddleware.answers]
        split
        · rename_i isPair
          rw [sameAnswer (by rw [isKey, isPair]; exact apart)]
          exact congrArg _ (inductionHypothesis after)
        · exact inductionHypothesis after

end AgreeBut

/-! ## Pairs which share a key -/

/-- Without a window every request in order is admitted. -/
theorem answers_without_window (noWindow : ticks limiter.window ≤ 0) {pair : Text × Text}
    (requests : List (RequestHead × Int)) (inOrder : InOrder requests)
    (begun : ∀ key, (limiter.buckets key).start = 0 ∨
      ∀ request ∈ requests, (limiter.buckets key).start ≤ request.2) :
    limiter.answers pair requests =
      (requests.filter fun request => request.1.pair = pair).map fun _ => true := by
  induction requests generalizing limiter with
  | nil => rfl
  | cons request rest inductionHypothesis =>
      obtain ⟨ctx, now⟩ := request
      obtain ⟨first, later⟩ := List.pairwise_cons.mp inOrder
      have admits : (limiter.buckets (limiter.makeKey ctx)).isLimited limiter.maxRequests
          (ticks limiter.window) now = (false, ⟨1, now⟩) := by
        rw [RateLimitBucket.isLimited]
        split
        · rfl
        · rename_i used
          have reached := (begun (limiter.makeKey ctx)).resolve_left used (ctx, now)
            List.mem_cons_self
          rw [if_pos (by dsimp only at reached; omega)]
      have after : (limiter.call now ctx).2.answers pair rest =
          (rest.filter fun request => request.1.pair = pair).map fun _ => true := by
        rw [call_snd]
        refine inductionHypothesis noWindow later fun key => ?_
        simp only [isLimited, admits]
        split
        · exact .inr fun request member => first request.2 (List.mem_map_of_mem member)
        · exact (begun key).imp_right fun all request member =>
            all request (List.mem_cons_of_mem _ member)
      rw [RateLimitMiddleware.answers, after, call_fst_isNone, isLimited, admits]
      split
      · rename_i isPair
        rw [List.filter_cons_of_pos (by simpa using isPair)]
        rfl
      · rename_i notPair
        rw [List.filter_cons_of_neg (by simpa using notPair)]

/-- Within the window of its bucket, opened at one, a request at one is counted
or limited. -/
theorem isLimited_at_one {bucket : RateLimitBucket} (opens : 0 < ticks window)
    (opened : bucket.start = 1) :
    bucket.isLimited maxRequests (ticks window) 1 =
      if maxRequests ≤ bucket.count then (true, bucket)
      else (false, { bucket with count := bucket.count + 1 }) := by
  have inWindow : ¬ ticks window ≤ 1 - bucket.start := by
    rw [opened]
    omega
  rw [RateLimitBucket.isLimited, if_neg (by omega), if_neg inWindow]

/-- Requests for the key of another one use its budget up. -/
theorem answers_used_up {one last : RequestHead} (different : one.pair ≠ last.pair)
    (sameKey : limiter.makeKey one = limiter.makeKey last) (opens : 0 < ticks limiter.window)
    (opened : (limiter.buckets (limiter.makeKey one)).start = 1) (more : Nat)
    (enough : limiter.maxRequests ≤ (limiter.buckets (limiter.makeKey one)).count + more) :
    limiter.answers last.pair (List.replicate more (one, 1) ++ [(last, 1)]) = [false] := by
  induction more generalizing limiter with
  | zero =>
      have full : limiter.maxRequests ≤ (limiter.buckets (limiter.makeKey one)).count := enough
      rw [List.replicate_zero, List.nil_append, answers, if_pos rfl, call_fst_isNone, ← sameKey,
        isLimited, isLimited_at_one opens opened, if_pos full]
      rfl
  | succ more inductionHypothesis =>
      rw [List.replicate_succ, List.cons_append, answers, if_neg different, call_snd]
      have after := @isLimited_at_one limiter.maxRequests limiter.window _ opens opened
      have kept {bucket : RateLimitBucket}
          (isBucket : ((limiter.buckets (limiter.makeKey one)).isLimited limiter.maxRequests
            (ticks limiter.window) 1).2 = bucket) (stillOpened : bucket.start = 1)
          (stillEnough : limiter.maxRequests ≤ bucket.count + more) :
          (limiter.isLimited 1 (limiter.makeKey one)).2.answers last.pair
            (List.replicate more (one, 1) ++ [(last, 1)]) = [false] := by
        have found : (limiter.isLimited 1 (limiter.makeKey one)).2.buckets
            ((limiter.isLimited 1 (limiter.makeKey one)).2.makeKey one) = bucket :=
          (if_pos rfl).trans isBucket
        exact inductionHypothesis sameKey opens (found ▸ stillOpened) (found ▸ stillEnough)
      by_cases full : limiter.maxRequests ≤ (limiter.buckets (limiter.makeKey one)).count
      · rw [if_pos full] at after
        exact kept (congrArg Prod.snd after) opened (Nat.le_add_right_of_le full)
      · rw [if_neg full] at after
        exact kept (congrArg Prod.snd after) opened (by dsimp only; omega)

/-- With a window, requests which share a key with another one change its answer. -/
theorem not_independent {one last : RequestHead} (different : one.pair ≠ last.pair)
    (opens : 0 < ticks window) (collide : Collide one.pair last.pair) :
    ¬ Independent { maxRequests, window } one.pair last.pair := by
  intro independent
  let fresh : RateLimitMiddleware := { maxRequests, window }
  have sameKey : fresh.makeKey one = fresh.makeKey last :=
    (makeKey_eq_iff fresh rfl one last).mpr collide
  let flood := List.replicate (maxRequests + 1) (one, (1 : Int)) ++ [(last, 1)]
  have inOrder : InOrder flood := by
    simp [InOrder, flood, List.pairwise_append, List.pairwise_replicate]
  have sameRest : without one.pair flood = without one.pair [(last, 1)] := by
    simp [without, flood, List.filter_append]
  have answer := independent flood [(last, 1)] inOrder (List.pairwise_singleton _ _) sameRest
  have limited : fresh.answers last.pair flood = [false] := by
    let opened := (fresh.isLimited 1 (fresh.makeKey one)).2
    have bucket : opened.buckets (opened.makeKey one) = ⟨1, 1⟩ := if_pos rfl
    have stillSame : opened.makeKey one = opened.makeKey last := sameKey
    have usedUp : opened.answers last.pair (List.replicate maxRequests (one, 1) ++ [(last, 1)]) =
        [false] :=
      answers_used_up different stillSame opens (congrArg RateLimitBucket.start bucket) maxRequests
        (by rw [bucket]; exact Nat.le_add_left _ _)
    rw [← usedUp]
    simp only [flood, List.replicate_succ, List.cons_append]
    rw [answers, if_neg different, call_snd]
  have admitted : fresh.answers last.pair [(last, 1)] = [true] := by
    rw [answers, if_pos rfl]
    rfl
  rw [limited, admitted] at answer
  cases answer

/-- **Rate-limit budgets are independent** for two different pairs exactly when
the window has no positive number of ticks or the pairs do not collide. -/
theorem independent_iff (maxRequests : Nat) (window : Int) (one last : RequestHead)
    (different : one.pair ≠ last.pair) :
    Independent { maxRequests, window } one.pair last.pair ↔
      ticks window ≤ 0 ∨ ¬ Collide one.pair last.pair := by
  constructor
  · intro independent
    by_contra shared
    obtain ⟨opens, collide⟩ := not_or.mp shared
    exact not_independent different (Int.not_le.mp opens) (not_not.mp collide) independent
  · rintro (noWindow | apart) requests changed inOrder changedInOrder sameRest
    · have unaffected (requests : List (RequestHead × Int)) :
          (requests.filter fun request => request.1.pair = last.pair) =
            (without one.pair requests).filter fun request => request.1.pair = last.pair := by
        rw [without, List.filter_filter]
        refine List.filter_congr fun request _ => ?_
        by_cases isLast : request.1.pair = last.pair
        · simp [isLast, Ne.symm different]
        · simp [isLast]
      have admits := @answers_without_window { maxRequests, window } noWindow last.pair
      rw [admits requests inOrder fun _ => .inl rfl,
        admits changed changedInOrder fun _ => .inl rfl,
        unaffected requests, sameRest, ← unaffected changed]
    · have ownKeys : keyOf last.pair ≠ keyOf one.pair := by
        intro same
        refine apart ((makeKey_eq_iff { maxRequests, window } rfl one last).mp ?_)
        rw [makeKey_eq rfl, makeKey_eq rfl, same]
      have agree : AgreeBut (keyOf one.pair) ({ maxRequests, window } : RateLimitMiddleware)
          { maxRequests, window } := ⟨rfl, rfl, rfl, rfl, fun _ => rfl⟩
      rw [agree.answers ownKeys requests, agree.answers ownKeys changed, sameRest]

/-- A request with a value of the default header. -/
def forwardedFor (value target : String) : RequestHead where
  header field := if field = "X-Forwarded-For".toList then some value.toList else none
  target := target.toList

/-- Two clients on one path. -/
theorem independent_two_clients :
    (forwardedFor "10.0.0.1" "/login").pair ≠ (forwardedFor "10.0.0.2" "/login").pair ∧
      Independent { maxRequests := 1, window := 60 } (forwardedFor "10.0.0.1" "/login").pair
        (forwardedFor "10.0.0.2" "/login").pair := by
  have different :
      (forwardedFor "10.0.0.1" "/login").pair ≠ (forwardedFor "10.0.0.2" "/login").pair := by decide
  refine ⟨different, (independent_iff 1 60 _ _ different).mpr (.inr fun collide => ?_)⟩
  have sameKey := (makeKey_eq_iff { maxRequests := 1, window := 60 } rfl _ _).mpr collide
  revert sameKey
  decide

/-- A client which ends its value with a bar and a path spends the budget of another. -/
theorem bar_shares_budget :
    ¬ ∀ (maxRequests : Nat) (window : Int) (one last : RequestHead), one.pair ≠ last.pair →
      Independent { maxRequests, window } one.pair last.pair := by
  intro independent
  have collide : Collide (forwardedFor "10.0.0.1|/a" "/b").pair
      (forwardedFor "10.0.0.1" "/a|/b").pair := .inr (.inr ⟨"/a".toList, rfl, rfl⟩)
  exact not_independent (by decide) (by decide) collide (independent 1 60 _ _ (by decide))

end RateLimitMiddleware

end Foxhttp.Middleware
