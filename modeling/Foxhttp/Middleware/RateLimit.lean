import Mathlib.Algebra.Order.Group.Int
import Foxhttp.Library.Text
import Foxhttp.Library.Window

/-!
# The rate limiter

`RateLimitMiddleware` keeps a bucket for every key. The first request opens it,
the next ones are counted in it, and the first request a window or more after
the opening one opens it again. Its requests so fall into rounds, and of each
round the first `max_requests` are admitted, but never none.
-/

namespace Foxhttp.Middleware

open Foxhttp.Library

/-- `RateLimitBucket`. A start of zero is that of a bucket not yet used. -/
structure RateLimitBucket where
  count : Nat := 0
  start : Int := 0

/-- What `RateLimitMiddleware` reads of a request. -/
structure RequestHead where
  header : Text → Option Text
  target : Text

/-- `RequestContext::path`. -/
def RequestHead.path (ctx : RequestHead) : Text :=
  match ctx.target.find '?' 0 with
  | some pos => ctx.target.substr 0 pos
  | none => ctx.target

/-- `RateLimitMiddleware`, with its window in seconds. -/
structure RateLimitMiddleware where
  maxRequests : Nat
  window : Int
  extractor : Option (RequestHead → Text) := none
  buckets : Text → RateLimitBucket := fun _ => {}

/-- The answer to a request which is not admitted. -/
structure TooManyRequests where
  status : Nat
  contentType : String
  retryAfter : String
  body : String
  deriving DecidableEq, Repr

/-- Seconds as nanoseconds, however many. -/
def nanoseconds (seconds : Int) : Int :=
  seconds * 1000000000

/-- `std::chrono::seconds` in the `int64_t` ticks of `steady_clock`, which wrap from
9223372037 seconds on. -/
def ticks (seconds : Int) : Int :=
  (nanoseconds seconds).bmod UInt64.size

theorem ticks_eq {seconds : Int} (notBelow : -9223372036 ≤ seconds)
    (notAbove : seconds ≤ 9223372036) : ticks seconds = nanoseconds seconds := by
  refine Int.bmod_eq_of_le ?_ ?_ <;> simp only [nanoseconds, UInt64.size] <;> omega

namespace RateLimitBucket

/-- What `is_limited` does with the bucket of its key, for a window in the
ticks of the clock. -/
def isLimited (maxRequests : Nat) (window now : Int) (bucket : RateLimitBucket) :
    Bool × RateLimitBucket :=
  if bucket.start = 0 then (false, { count := 1, start := now })
  else if window ≤ now - bucket.start then (false, { count := 1, start := now })
  else if maxRequests ≤ bucket.count then (true, bucket)
  else (false, { bucket with count := bucket.count + 1 })

end RateLimitBucket

namespace RateLimitMiddleware

/-- `is_limited`. -/
def isLimited (limiter : RateLimitMiddleware) (now : Int) (key : Text) :
    Bool × RateLimitMiddleware :=
  let (limited, bucket) :=
    (limiter.buckets key).isLimited limiter.maxRequests (ticks limiter.window) now
  (limited, { limiter with
    buckets := fun other => if other = key then bucket else limiter.buckets other })

/-- `make_key`. -/
def makeKey (limiter : RateLimitMiddleware) (ctx : RequestHead) : Text :=
  match limiter.extractor with
  | some extractor => extractor ctx
  | none =>
      let ip := (ctx.header "X-Forwarded-For".toList).getD []
      (if ip = [] then "unknown".toList else ip) ++ '|' :: ctx.path

/-- `operator()`: the answer, or nothing when `next` is called. -/
def call (limiter : RateLimitMiddleware) (now : Int) (ctx : RequestHead) :
    Option TooManyRequests × RateLimitMiddleware :=
  match limiter.isLimited now (limiter.makeKey ctx) with
  | (true, after) =>
      (some { status := 429, contentType := "application/json",
              retryAfter := toString (limiter.window.bmod UInt32.size),
              body := "\x7b\"error\":\"rate_limited\"\x7d" }, after)
  | (false, after) => (none, after)

/-- The times of the admitted requests of a key, in a sequence of keys and times. -/
def admitted (key : Text) : RateLimitMiddleware → List (Text × Int) → List Int
  | _, [] => []
  | limiter, (asked, now) :: rest =>
      match limiter.isLimited now asked with
      | (limited, after) =>
          if asked = key ∧ limited = false then now :: admitted key after rest
          else admitted key after rest

end RateLimitMiddleware

/-- The times of the requests for a key. -/
def times (key : Text) (requests : List (Text × Int)) : List Int :=
  (requests.filter fun request => request.1 = key).map Prod.snd

/-! ## One bucket -/

namespace RateLimitBucket

variable {maxRequests : Nat} {window : Int}

/-- The times which a bucket admits. -/
def admitted (maxRequests : Nat) (window : Int) : RateLimitBucket → List Int → List Int
  | _, [] => []
  | bucket, now :: rest =>
      match bucket.isLimited maxRequests window now with
      | (true, after) => admitted maxRequests window after rest
      | (false, after) => now :: admitted maxRequests window after rest

@[simp] theorem admitted_nil (bucket : RateLimitBucket) :
    bucket.admitted maxRequests window [] = [] :=
  rfl

theorem admitted_unused (now : Int) (rest : List Int) :
    admitted maxRequests window {} (now :: rest) =
      now :: admitted maxRequests window ⟨1, now⟩ rest := by
  simp only [admitted, isLimited, if_true]

/-- A used bucket admits what the count leaves of its round, and goes on with
the request behind the round as if it had not been used. -/
theorem admitted_used {start : Int} (used : start ≠ 0) (times : List Int) (count : Nat) :
    admitted maxRequests window ⟨count, start⟩ times =
      (times.takeWhile (· < start + window)).take (maxRequests - count) ++
        admitted maxRequests window {} (times.dropWhile (· < start + window)) := by
  induction times generalizing count with
  | nil => simp
  | cons now rest inductionHypothesis =>
    by_cases inRound : now < start + window
    · rw [List.takeWhile_cons_of_pos (by simpa using inRound),
        List.dropWhile_cons_of_pos (by simpa using inRound)]
      have notExpired : ¬ window ≤ now - start := by omega
      by_cases full : maxRequests ≤ count
      · simp only [admitted, isLimited, if_neg used, if_neg notExpired, if_pos full]
        rw [inductionHypothesis, Nat.sub_eq_zero_of_le full, List.take_zero, List.take_zero]
      · simp only [admitted, isLimited, if_neg used, if_neg notExpired, if_neg full]
        rw [inductionHypothesis, show maxRequests - count = maxRequests - (count + 1) + 1 by omega,
          List.take_succ_cons, List.cons_append]
    · rw [List.takeWhile_cons_of_neg (by simpa using inRound),
        List.dropWhile_cons_of_neg (by simpa using inRound), admitted_unused]
      have expired : window ≤ now - start := by omega
      simp only [admitted, isLimited, if_neg used, if_pos expired, List.take_nil, List.nil_append]

/-- A fresh bucket admits the first requests of each round, at least one. -/
theorem admitted_rounds (times : List Int) (nonzero : ∀ now ∈ times, now ≠ 0) :
    admitted maxRequests window {} times =
      (rounds window times).flatMap (List.take (max maxRequests 1)) := by
  fun_induction rounds window times with
  | case1 => rfl
  | case2 opening rest inductionHypothesis =>
    have used := nonzero opening List.mem_cons_self
    have later : ∀ now ∈ rest.dropWhile (· < opening + window), now ≠ 0 := fun now member =>
      nonzero now (List.mem_cons_of_mem _ ((List.dropWhile_sublist _).mem member))
    rw [admitted_unused, admitted_used used, inductionHypothesis later, List.flatMap_cons,
      show max maxRequests 1 = maxRequests - 1 + 1 by omega, List.take_succ_cons, List.cons_append]

theorem admitted_sublist (bucket : RateLimitBucket) (times : List Int) :
    (bucket.admitted maxRequests window times).Sublist times := by
  induction times generalizing bucket with
  | nil => exact List.Sublist.refl _
  | cons now rest inductionHypothesis =>
    rw [admitted]
    split
    · exact (inductionHypothesis _).cons now
    · exact (inductionHypothesis _).cons_cons now

end RateLimitBucket

/-! ## The requests of one key -/

namespace RateLimitMiddleware

/-- `next` is called for the requests which are not limited. -/
theorem call_eq_none_iff (limiter : RateLimitMiddleware) (now : Int) (ctx : RequestHead) :
    (limiter.call now ctx).1 = none ↔
      (limiter.isLimited now (limiter.makeKey ctx)).1 = false := by
  rw [call]
  split <;> simp [*]

/-- Requests for other keys leave the bucket of a key alone. -/
theorem admitted_eq (limiter : RateLimitMiddleware) (key : Text) (requests : List (Text × Int)) :
    limiter.admitted key requests = (limiter.buckets key).admitted limiter.maxRequests
      (ticks limiter.window) (times key requests) := by
  induction requests generalizing limiter with
  | nil => rfl
  | cons request rest inductionHypothesis =>
    obtain ⟨asked, now⟩ := request
    rw [admitted]
    by_cases same : asked = key
    · subst same
      simp only [inductionHypothesis, isLimited, times, List.filter_cons, decide_true, if_true,
        List.map_cons, RateLimitBucket.admitted, true_and]
      generalize (limiter.buckets asked).isLimited limiter.maxRequests _ now = decided
      obtain ⟨limited, after⟩ := decided
      cases limited <;> rfl
    · simp only [inductionHypothesis, isLimited, times, List.filter_cons, same, decide_false,
        Bool.false_eq_true, if_false, false_and, if_neg (Ne.symm same)]

variable (maxRequests : Nat) (window : Int)

/-- In every interval as long as the window at most `max_requests` requests of
a key are admitted, from the construction of the limiter on. -/
def Slides (key : Text) (requests : List (Text × Int)) : Prop :=
  ∀ start, countIn start (nanoseconds window)
    (({ maxRequests, window } : RateLimitMiddleware).admitted key requests) ≤ maxRequests

/-- The first requests of the rounds, `max_requests` of each, are spaced by the window:
where its ticks do not wrap, those of neighbouring rounds. -/
def SpacedRounds (times : List Int) : Prop :=
  if ticks window = nanoseconds window then
    (rounds (ticks window) times).IsChain (Relays maxRequests (nanoseconds window))
  else
    Spaced maxRequests (nanoseconds window)
      ((rounds (ticks window) times).flatMap (List.take maxRequests))

variable {maxRequests window} in
theorem spaced_iff_spacedRounds {times : List Int} (ordered : times.Pairwise (· ≤ ·)) :
    Spaced maxRequests (nanoseconds window)
        ((rounds (ticks window) times).flatMap (List.take maxRequests)) ↔
      SpacedRounds maxRequests window times := by
  rw [SpacedRounds]
  split
  · rename_i exact
    rw [exact]
    exact spaced_rounds_iff ordered
  · exact Iff.rfl

/-- The limiter slides exactly where the rounds do not show: where no interval
holds a request, or where of the rounds the admitted requests which are
`max_requests` apart are a window apart. -/
theorem slides_iff (key : Text) (requests : List (Text × Int))
    (nonzero : ∀ now ∈ times key requests, now ≠ 0)
    (ordered : (times key requests).Pairwise (· ≤ ·)) :
    Slides maxRequests window key requests ↔
      window ≤ 0 ∨ times key requests = [] ∨
        1 ≤ maxRequests ∧ SpacedRounds maxRequests window (times key requests) := by
  simp only [Slides, admitted_eq]
  generalize times key requests = times at *
  rcases Int.lt_or_le 0 window with opens | empty
  · rcases Nat.eq_zero_or_pos maxRequests with rfl | positive
    · cases times with
      | nil => simp [countIn]
      | cons now rest =>
        refine iff_of_false (fun slides => ?_) (by simp [Int.not_le.mpr opens])
        have first := slides now
        rw [RateLimitBucket.admitted_unused, countIn, List.countP_cons_of_pos] at first
        · omega
        · rw [nanoseconds, decide_eq_true_iff]
          omega
    · have admits : RateLimitBucket.admitted maxRequests (ticks window) {} times =
          (rounds (ticks window) times).flatMap (List.take maxRequests) := by
        rw [RateLimitBucket.admitted_rounds times nonzero, Nat.max_eq_left positive]
      have kept := ordered.sublist
        (RateLimitBucket.admitted_sublist {} times :
          (RateLimitBucket.admitted maxRequests (ticks window) {} times).Sublist times)
      rw [countIn_le_iff kept, admits]
      refine ⟨fun spaced => .inr (.inr ⟨positive, (spaced_iff_spacedRounds ordered).mp spaced⟩), ?_⟩
      rintro (empty | rfl | ⟨-, spaced⟩)
      · omega
      · simp [rounds, Spaced.nil]
      · exact (spaced_iff_spacedRounds ordered).mpr spaced
  · refine iff_of_true (fun start => ?_) (.inl empty)
    have nothing : countIn start (nanoseconds window)
        (RateLimitBucket.admitted maxRequests (ticks window) {} times) = 0 := by
      refine List.countP_eq_zero.mpr fun now _ inWindow => ?_
      have := of_decide_eq_true inWindow
      rw [nanoseconds] at this
      omega
    omega

/-- One request for each window: two of them eleven seconds apart. -/
theorem slides_two_rounds :
    (∀ now ∈ times ['k'] [(['k'], ticks 1), (['k'], ticks 12)], now ≠ 0) ∧
      (times ['k'] [(['k'], ticks 1), (['k'], ticks 12)]).Pairwise (· ≤ ·) ∧
      Slides 1 10 ['k'] [(['k'], ticks 1), (['k'], ticks 12)] := by
  have nonzero : ∀ now ∈ times ['k'] [(['k'], ticks 1), (['k'], ticks 12)], now ≠ 0 := by decide
  have ordered : (times ['k'] [(['k'], ticks 1), (['k'], ticks 12)]).Pairwise (· ≤ ·) := by decide
  refine ⟨nonzero, ordered, (slides_iff 1 10 _ _ nonzero ordered).mpr (.inr (.inr ⟨by decide, ?_⟩))⟩
  have apart : Relays 1 (nanoseconds 10) [ticks 1] [ticks 12] := by
    intro place first second isFirst isSecond
    cases place with
    | zero =>
      cases isFirst
      cases isSecond
      decide
    | succ place => simp at isFirst
  rw [SpacedRounds, if_pos (ticks_eq (by decide) (by decide))]
  simpa [times, rounds, ticks, nanoseconds, UInt64.size, Int.bmod] using apart

/-- Two requests for each window of ten seconds: of the requests after one, ten,
eleven and twelve seconds the first opens a round and the third the next one,
and the last three are admitted within three seconds. -/
theorem three_admitted_across_rounds :
    ¬ ∀ (maxRequests : Nat) (window : Int) (key : Text) (requests : List (Text × Int)),
      (∀ now ∈ times key requests, now ≠ 0) → (times key requests).Pairwise (· ≤ ·) →
        Slides maxRequests window key requests := by
  intro slidesAlways
  have slides := slidesAlways 2 10 ['k'] [(['k'], ticks 1), (['k'], ticks 10), (['k'], ticks 11),
    (['k'], ticks 12)] (by decide) (by decide) (ticks 10)
  revert slides
  decide

end RateLimitMiddleware

end Foxhttp.Middleware
