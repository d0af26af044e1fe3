import JudgeLoom.Content.Comments
import JudgeLoom.Library.ExpiringCache
import JudgeLoom.Library.Run
import JudgeLoom.Submissions.Models
import Mathlib

/-!
# The rate limit of the API

`RateLimitMiddleware` of `core/middleware.py`.  A request reads the clock, names the counter
of its client and window, and then adds, increments and, if the counter was missing, sets it:
three calls to a cache that all processes share, with those of other requests in between.

A counter lives for one window length from its first call, so it cannot expire while its
window lasts (`Inv.lasting`).  Until then its value is the number of requests that were
decided (`Inv.counted`), and the first `limit` of them are the ones that pass
(`admitted_eq_min`).  A request that reads the clock in one window and is decided in a later
one can find the counter expired; `admitted_le_twice` counts such requests apart.
-/

namespace JudgeLoom

/-- What `_parse_rate_limit_spec` returns. -/
structure RateLimit where
  limit : ℤ
  windowSeconds : ℤ
  limit_pos : 0 < limit
  window_pos : 0 < windowSeconds

namespace RateLimitMiddleware

def unitMap : List (String × ℤ) :=
  [("s", 1), ("sec", 1), ("secs", 1), ("second", 1), ("seconds", 1), ("m", 60), ("min", 60),
    ("mins", 60), ("minute", 60), ("minutes", 60), ("h", 3600), ("hr", 3600), ("hrs", 3600),
    ("hour", 3600), ("hours", 3600), ("d", 86400), ("day", 86400), ("days", 86400)]

/-- Parse a human-readable rate limit specification; an error is a `ValueError`. -/
def parseRateLimitSpec (P : Python) (spec : String) : Except String RateLimit :=
  let raw := (strip spec).toList
  if '/' ∉ raw then .error ("Invalid rate limit spec: " ++ P.reprStr spec)
  else
    let countRaw := strip (String.ofList (raw.takeWhile (· ≠ '/')))
    let unit := lower (strip (String.ofList ((raw.dropWhile (· ≠ '/')).drop 1)))
    match parseInt countRaw with
    | none => .error ("invalid literal for int() with base 10: " ++ P.reprStr countRaw)
    | some limit =>
        match unitMap.lookup unit with
        | none => .error ("Unsupported rate limit unit: " ++ P.reprStr unit)
        | some windowSeconds =>
            if h : 0 < limit ∧ 0 < windowSeconds then .ok ⟨limit, windowSeconds, h.1, h.2⟩
            else .error ("Invalid rate limit values: " ++ P.reprStr spec)

/-- The settings that decide whose word on the client's address is taken. -/
structure ProxySettings where
  trustXForwardedFor : Bool := false
  trustedProxyIps : List String := []
  /-- `str(ipaddress.ip_address(candidate))`; none when that raises a `ValueError`. -/
  ipAddress : String → Option String

structure HttpRequest where
  path : String
  remoteAddr : Option String
  forwardedFor : Option String

/-- Resolve the client IP address from the request. -/
def getClientIp (S : ProxySettings) (request : HttpRequest) : String :=
  let remoteAddr := request.remoteAddr.getD "unknown"
  if !S.trustXForwardedFor then remoteAddr
  else if S.trustedProxyIps = [] ∨ remoteAddr ∉ S.trustedProxyIps then remoteAddr
  else
    match request.forwardedFor with
    | none => remoteAddr
    | some forwardedFor =>
        if strip forwardedFor = "" then remoteAddr
        else
          let candidate := strip (String.ofList (forwardedFor.toList.takeWhile (· ≠ ',')))
          (S.ipAddress candidate).getD remoteAddr

/-- A peer that is no trusted proxy is counted under its own address, whatever it sends. -/
theorem getClientIp_of_untrusted {S : ProxySettings} {request : HttpRequest}
    (h : S.trustXForwardedFor = false ∨
      request.remoteAddr.getD "unknown" ∉ S.trustedProxyIps) :
    getClientIp S request = request.remoteAddr.getD "unknown" := by
  unfold getClientIp
  rcases h with h | h
  · rw [h]
    rfl
  · dsimp only
    rw [if_pos (Or.inr h), ite_self]

/-- The cache key of the counter. -/
def key (client : String) (window : ℤ) : String :=
  "ratelimit:" ++ client ++ ":" ++ toString window

theorem colon_not_mem_toString (window : ℤ) : ':' ∉ (toString window).toList := by
  have hdigits : ∀ n : ℕ, ':' ∉ n.repr.toList := by
    intro n hmem
    have hchars : n.repr.toList = Nat.toDigits 10 n := String.toList_ofList
    rw [hchars] at hmem
    exact absurd (Nat.isDigit_of_mem_toDigits (by decide) (by decide) hmem) (by decide)
  cases window with
  | ofNat n => exact hdigits n
  | negSucc n =>
      change ':' ∉ ("-" ++ (n + 1).repr).toList
      rw [String.toList_append, List.mem_append, not_or]
      exact ⟨by decide, hdigits (n + 1)⟩

/-- Different clients or windows never share a counter. -/
theorem key_inj {client client' : String} {window window' : ℤ}
    (h : key client window = key client' window') : client = client' ∧ window = window' := by
  have hlists : client.toList ++ ':' :: (toString window).toList =
      client'.toList ++ ':' :: (toString window').toList := by
    have hchars := congrArg String.toList h
    simp only [key, String.toList_append, List.append_assoc, List.append_cancel_left_eq] at hchars
    exact hchars
  have hreversed := congrArg List.reverse hlists
  simp only [List.reverse_append, List.reverse_cons, List.append_assoc, List.singleton_append]
    at hreversed
  have hdigits : ∀ (window : ℤ), ∀ c ∈ (toString window).toList.reverse,
      (decide (c ≠ ':')) = true := by
    intro window c hc
    refine decide_eq_true fun hcolon => colon_not_mem_toString window ?_
    exact hcolon ▸ List.mem_reverse.mp hc
  have hwindow : (toString window).toList.reverse = (toString window').toList.reverse := by
    have htaken := congrArg (List.takeWhile (· ≠ ':')) hreversed
    rwa [List.takeWhile_append_of_pos (hdigits window),
      List.takeWhile_append_of_pos (hdigits window'), List.takeWhile_cons_of_neg (by simp),
      List.takeWhile_cons_of_neg (by simp), List.append_nil, List.append_nil] at htaken
  rw [hwindow, List.append_cancel_left_eq, List.cons.injEq] at hreversed
  exact ⟨String.toList_inj.mp (List.reverse_inj.mp hreversed.2),
    Int.repr_inj.mp (String.toList_inj.mp (List.reverse_inj.mp hwindow))⟩

end RateLimitMiddleware

/-! ## Requests whose cache calls interleave -/

/-- What a request has read before its first call to the cache. -/
structure Ticket where
  client : String
  /-- `time.time()` -/
  readAt : Time

/-- What a request does next. -/
inductive Counting
  | idle
  | adding (ticket : Ticket)
  | incrementing (ticket : Ticket)
  /-- The increment raised a `ValueError`. -/
  | setting (ticket : Ticket)
  | decided

/-- A request passes, or is refused with the seconds of `Retry-After`. -/
structure Decision where
  ticket : Ticket
  time : Time
  retryAfter : Option ℤ

def Decision.passes (decision : Decision) : Bool := decision.retryAfter.isNone

/-- The cache, the clock and the requests of all processes. -/
structure Limiter where
  now : Time
  cache : ExpiringCache String := .empty
  counting : ℕ → Counting := fun _ => .idle
  /-- The decisions so far, the first one first. -/
  log : List Decision := []

inductive LimiterEvent
  | advance (elapsed : ℕ)
  | arrive (id : ℕ) (request : RateLimitMiddleware.HttpRequest)
  /-- The next call to the cache. -/
  | proceed (id : ℕ)

namespace RateLimit

variable (L : RateLimit)

/-- The length of a window. -/
def length : Time := L.windowSeconds * second

/-- `int(now // self.window_seconds)` -/
def window (now : Time) : ℤ := now / L.length

def endOf (window : ℤ) : Time := (window + 1) * L.length

def key (ticket : Ticket) : String :=
  RateLimitMiddleware.key ticket.client (L.window ticket.readAt)

/-- The response to the request that read `current` from its counter. -/
def respond (ticket : Ticket) (time : Time) (current : ℕ) : Decision where
  ticket
  time
  retryAfter :=
    if current ≤ L.limit then none
    else some (max 0 ((L.endOf (L.window ticket.readAt) - ticket.readAt) / second))

/-- The next call to the cache of a request. -/
def proceed (id : ℕ) (s : Limiter) : Limiter :=
  match s.counting id with
  | .idle => s
  | .adding ticket =>
      { s with
        cache := s.cache.add s.now L.length (L.key ticket) 0
        counting := Function.update s.counting id (.incrementing ticket) }
  | .incrementing ticket =>
      match s.cache.incr? s.now (L.key ticket) with
      | some (current, cache) =>
          { s with
            cache
            counting := Function.update s.counting id .decided
            log := s.log ++ [L.respond ticket s.now current] }
      | none => { s with counting := Function.update s.counting id (.setting ticket) }
  | .setting ticket =>
      { s with
        cache := s.cache.set s.now L.length (L.key ticket) 1
        counting := Function.update s.counting id .decided
        log := s.log ++ [L.respond ticket s.now 1] }
  | .decided => s

open RateLimitMiddleware in
/-- A request arrives; paths outside the API are not counted. -/
def arrive (S : ProxySettings) (id : ℕ) (request : HttpRequest) (s : Limiter) : Limiter :=
  match s.counting id with
  | .idle =>
      if "/api/".toList.isPrefixOf request.path.toList then
        let ticket : Ticket := ⟨getClientIp S request, s.now⟩
        { s with counting := Function.update s.counting id (.adding ticket) }
      else { s with counting := Function.update s.counting id .decided }
  | _ => s

def step (S : RateLimitMiddleware.ProxySettings) (s : Limiter) : LimiterEvent → Limiter
  | .advance elapsed => { s with now := s.now + elapsed }
  | .arrive id request => arrive S id request s
  | .proceed id => L.proceed id s

def run (S : RateLimitMiddleware.ProxySettings) (s : Limiter) (events : List LimiterEvent) :
    Limiter :=
  events.foldl (L.step S) s

/-! ## The counter of a window -/

variable {L} {s : Limiter} {id : ℕ} {ticket : Ticket} {client : String} {window : ℤ}
  {value : ℕ} {expiry : ℤ}

theorem length_pos : 0 < L.length := Int.mul_pos L.window_pos (by decide)

theorem window_mul_le (now : Time) : L.window now * L.length ≤ now :=
  Int.ediv_mul_le _ length_pos.ne'

theorem lt_endOf (now : Time) : now < L.endOf (L.window now) :=
  Int.lt_ediv_add_one_mul_self _ length_pos

/-- A counter that is made after the clock was read outlasts the window. -/
theorem endOf_le_of_readAt_le {now : Time} (h : ticket.readAt ≤ now) :
    L.endOf (L.window ticket.readAt) ≤ now + L.length := by
  have hstart := (window_mul_le (L := L) ticket.readAt).trans h
  rw [endOf, add_mul, one_mul]
  exact add_le_add_left hstart _

theorem key_eq_iff : L.key ticket = RateLimitMiddleware.key client window ↔
    ticket.client = client ∧ L.window ticket.readAt = window := by
  refine ⟨RateLimitMiddleware.key_inj, ?_⟩
  rintro ⟨rfl, rfl⟩
  rfl

theorem passes_respond (time : Time) (current : ℕ) :
    (L.respond ticket time current).passes = true ↔ current ≤ L.limit := by
  unfold respond Decision.passes
  split_ifs with h <;> simp [h]

variable (L) in
/-- The decision is about the client in the window, and was taken before the window ended. -/
def Prompt (client : String) (window : ℤ) (decision : Decision) : Prop :=
  decision.ticket.client = client ∧ L.window decision.ticket.readAt = window ∧
    decision.time < L.endOf window

instance (decision : Decision) : Decidable (L.Prompt client window decision) :=
  inferInstanceAs (Decidable (_ ∧ _ ∧ _))

variable (L) in
def prompt (client : String) (window : ℤ) (log : List Decision) : List Decision :=
  log.filter (L.Prompt client window ·)

theorem prompt_append_of_prompt {log : List Decision} {decision : Decision}
    (h : L.Prompt client window decision) :
    L.prompt client window (log ++ [decision]) = L.prompt client window log ++ [decision] := by
  rw [prompt, List.filter_append, List.filter_cons_of_pos (by simpa using h), List.filter_nil]
  rfl

theorem prompt_append_of_not_prompt {log : List Decision} {decision : Decision}
    (h : ¬ L.Prompt client window decision) :
    L.prompt client window (log ++ [decision]) = L.prompt client window log := by
  rw [prompt, List.filter_append, List.filter_cons_of_neg (by simpa using h), List.filter_nil,
    List.append_nil]
  rfl

theorem prompt_append_of_key_ne {log : List Decision} {decision : Decision}
    (h : RateLimitMiddleware.key client window ≠ L.key decision.ticket) :
    L.prompt client window (log ++ [decision]) = L.prompt client window log :=
  prompt_append_of_not_prompt fun hprompt =>
    h (key_eq_iff.mpr ⟨hprompt.1, hprompt.2.1⟩).symm

variable (L) in
/-- The first requests of a window pass, as many as the limit allows. -/
def AdmitsFirst (client : String) (window : ℤ) (log : List Decision) : Prop :=
  ((L.prompt client window log).countP Decision.passes : ℤ) =
    min L.limit (L.prompt client window log).length

variable (L) in
/-- A request has read the clock before, and its window is over if the counter that it added
is gone. -/
def Sound (now : Time) (cache : ExpiringCache String) : Counting → Prop
  | .idle => True
  | .adding ticket => ticket.readAt ≤ now
  | .incrementing ticket =>
      ticket.readAt ≤ now ∧
        (now < L.endOf (L.window ticket.readAt) → cache (L.key ticket) ≠ none)
  | .setting ticket => ticket.readAt ≤ now ∧ L.endOf (L.window ticket.readAt) ≤ now
  | .decided => True

theorem Sound.later {now later : Time} {cache : ExpiringCache String} {counting : Counting}
    (h : L.Sound now cache counting) (hlater : now ≤ later) : L.Sound later cache counting := by
  cases counting with
  | idle => trivial
  | adding ticket => exact le_trans h hlater
  | incrementing ticket => exact ⟨h.1.trans hlater, fun hnow => h.2 (hlater.trans_lt hnow)⟩
  | setting ticket => exact ⟨h.1.trans hlater, h.2.trans hlater⟩
  | decided => trivial

theorem Sound.keeps {now : Time} {cache after : ExpiringCache String} {counting : Counting}
    (h : L.Sound now cache counting) (hkeeps : ∀ key, cache key ≠ none → after key ≠ none) :
    L.Sound now after counting := by
  cases counting with
  | idle => trivial
  | adding ticket => exact h
  | incrementing ticket => exact ⟨h.1, fun hnow => hkeeps _ (h.2 hnow)⟩
  | setting ticket => exact h
  | decided => trivial

variable (L) in
/-- What holds whenever no call to the cache is under way. -/
structure Inv (s : Limiter) : Prop where
  requests : ∀ id, L.Sound s.now s.cache (s.counting id)
  started : ∀ decision ∈ s.log, decision.ticket.readAt ≤ decision.time
  /-- A counter does not expire while its window lasts. -/
  lasting : ∀ client window entry, s.cache (RateLimitMiddleware.key client window) = some entry →
    L.endOf window ≤ entry.2
  counted : ∀ client window entry, s.now < L.endOf window →
    s.cache (RateLimitMiddleware.key client window) = some entry →
      entry.1 = (L.prompt client window s.log).length
  unborn : ∀ client window, s.now < L.endOf window →
    s.cache (RateLimitMiddleware.key client window) = none →
      L.prompt client window s.log = []
  admits : ∀ client window, L.AdmitsFirst client window s.log

namespace Inv

theorem initial (now : Time) : L.Inv { now } where
  requests _ := trivial
  started _ h := by cases h
  lasting _ _ _ h := by cases h
  counted _ _ _ _ h := by cases h
  unborn _ _ _ _ := rfl
  admits _ _ := (min_eq_right L.limit_pos.le).symm

theorem advance (h : L.Inv s) (elapsed : ℕ) : L.Inv { s with now := s.now + elapsed } := by
  have hlater : s.now ≤ s.now + elapsed := Int.le_add_of_nonneg_right (Int.natCast_nonneg _)
  exact {
    requests := fun id => (h.requests id).later hlater
    started := h.started
    lasting := h.lasting
    counted := fun client window entry hnow => h.counted client window entry (hlater.trans_lt hnow)
    unborn := fun client window hnow => h.unborn client window (hlater.trans_lt hnow)
    admits := h.admits }

/-- A request moves on. -/
theorem turn (h : L.Inv s) (id : ℕ) {next : Counting} (hnext : L.Sound s.now s.cache next) :
    L.Inv { s with counting := Function.update s.counting id next } where
  requests other := by
    change L.Sound s.now s.cache (Function.update s.counting id next other)
    by_cases hother : other = id
    · rw [hother, Function.update_self]
      exact hnext
    · rw [Function.update_of_ne hother]
      exact h.requests other
  started := h.started
  lasting := h.lasting
  counted := h.counted
  unborn := h.unborn
  admits := h.admits

theorem update_keeps {cache : ExpiringCache String} {key : String} {entry : ℕ × ℤ}
    (other : String) (h : cache other ≠ none) :
    Function.update cache key (some entry) other ≠ none := by
  by_cases hkey : other = key
  · rw [hkey, Function.update_self]
    exact Option.some_ne_none _
  · rwa [Function.update_of_ne hkey]

/-- A counter that a request sets does not expire while its window lasts. -/
theorem lasting_set (h : L.Inv s) (hread : ticket.readAt ≤ s.now) {entry : ℕ × ℤ}
    (hentry : s.cache.set s.now L.length (L.key ticket) value
      (RateLimitMiddleware.key client window) = some entry) : L.endOf window ≤ entry.2 := by
  by_cases hkey : RateLimitMiddleware.key client window = L.key ticket
  · obtain ⟨rfl, rfl⟩ := key_eq_iff.mp hkey.symm
    rw [hkey, ExpiringCache.set_self] at hentry
    obtain rfl := Option.some.inj hentry
    exact endOf_le_of_readAt_le hread
  · rw [ExpiringCache.set_of_ne hkey] at hentry
    exact h.lasting client window entry hentry

theorem started_respond (h : L.Inv s) (hread : ticket.readAt ≤ s.now) {current : ℕ} :
    ∀ decision ∈ s.log ++ [L.respond ticket s.now current],
      decision.ticket.readAt ≤ decision.time := by
  intro decision hdecision
  rcases List.mem_append.mp hdecision with hold | hnew
  · exact h.started decision hold
  · rw [List.mem_singleton.mp hnew]
    exact hread

/-- A missing counter is made. -/
theorem make (h : L.Inv s) (hread : ticket.readAt ≤ s.now)
    (hmissing : ∀ entry, s.cache (L.key ticket) = some entry → entry.2 ≤ s.now) :
    L.Inv { s with cache := s.cache.set s.now L.length (L.key ticket) 0 } where
  requests id := (h.requests id).keeps update_keeps
  started := h.started
  lasting _ _ _ := h.lasting_set hread
  counted client window entry hnow hentry := by
    dsimp only at hnow hentry ⊢
    by_cases hkey : RateLimitMiddleware.key client window = L.key ticket
    · rw [hkey, ExpiringCache.set_self] at hentry
      obtain rfl := Option.some.inj hentry
      have hnone : s.cache (RateLimitMiddleware.key client window) = none := by
        by_contra hsome
        obtain ⟨old, hold⟩ := Option.ne_none_iff_exists'.mp hsome
        have hlasting := h.lasting client window old hold
        have hexpired := hmissing old (hkey ▸ hold)
        exact absurd (hlasting.trans hexpired) (not_le.mpr hnow)
      rw [h.unborn client window hnow hnone]
      rfl
    · rw [ExpiringCache.set_of_ne hkey] at hentry
      exact h.counted client window entry hnow hentry
  unborn client window hnow hnone := by
    dsimp only at hnow hnone ⊢
    by_cases hkey : RateLimitMiddleware.key client window = L.key ticket
    · rw [hkey, ExpiringCache.set_self] at hnone
      cases hnone
    · rw [ExpiringCache.set_of_ne hkey] at hnone
      exact h.unborn client window hnow hnone
  admits := h.admits

/-- A decision in a window that is over changes nothing for the decisions before its end. -/
theorem prompt_append_of_late {log : List Decision} {decision : Decision}
    (h : L.endOf (L.window decision.ticket.readAt) ≤ decision.time) :
    L.prompt client window (log ++ [decision]) = L.prompt client window log := by
  refine prompt_append_of_not_prompt ?_
  rintro ⟨-, rfl, hnow⟩
  exact absurd h (not_le.mpr hnow)

/-- The counter of a request is incremented, and the request is decided. -/
theorem count (h : L.Inv s) (hread : ticket.readAt ≤ s.now)
    (hentry : s.cache (L.key ticket) = some (value, expiry)) :
    L.Inv { s with
      cache := Function.update s.cache (L.key ticket) (some (value + 1, expiry))
      log := s.log ++ [L.respond ticket s.now (value + 1)] } where
  requests id := (h.requests id).keeps update_keeps
  started := h.started_respond hread
  lasting client window entry hafter := by
    dsimp only at hafter
    by_cases hkey : RateLimitMiddleware.key client window = L.key ticket
    · rw [hkey, Function.update_self] at hafter
      obtain rfl := Option.some.inj hafter
      exact h.lasting client window (value, expiry) (hkey ▸ hentry)
    · rw [Function.update_of_ne hkey] at hafter
      exact h.lasting client window entry hafter
  counted client window entry hnow hafter := by
    dsimp only at hnow hafter ⊢
    by_cases hkey : RateLimitMiddleware.key client window = L.key ticket
    · obtain ⟨hclient, hwindow⟩ := key_eq_iff.mp hkey.symm
      have hvalue := h.counted client window (value, expiry) hnow (hkey ▸ hentry)
      rw [hkey, Function.update_self] at hafter
      obtain rfl := Option.some.inj hafter
      have hnext : L.prompt client window (s.log ++ [L.respond ticket s.now (value + 1)]) =
          L.prompt client window s.log ++ [L.respond ticket s.now (value + 1)] :=
        prompt_append_of_prompt ⟨hclient, hwindow, hnow⟩
      rw [hnext, List.length_append, List.length_singleton, ← hvalue]
    · rw [Function.update_of_ne hkey] at hafter
      have hsame : L.prompt client window (s.log ++ [L.respond ticket s.now (value + 1)]) =
          L.prompt client window s.log := prompt_append_of_key_ne hkey
      rw [hsame]
      exact h.counted client window entry hnow hafter
  unborn client window hnow hnone := by
    dsimp only at hnow hnone ⊢
    by_cases hkey : RateLimitMiddleware.key client window = L.key ticket
    · rw [hkey, Function.update_self] at hnone
      cases hnone
    · rw [Function.update_of_ne hkey] at hnone
      have hsame : L.prompt client window (s.log ++ [L.respond ticket s.now (value + 1)]) =
          L.prompt client window s.log := prompt_append_of_key_ne hkey
      rw [hsame]
      exact h.unborn client window hnow hnone
  admits client window := by
    dsimp only
    by_cases hprompt : L.Prompt client window (L.respond ticket s.now (value + 1))
    · obtain ⟨hclient, hwindow, hnow⟩ := hprompt
      have hkey : L.key ticket = RateLimitMiddleware.key client window :=
        key_eq_iff.mpr ⟨hclient, hwindow⟩
      have hvalue := h.counted client window (value, expiry) hnow (hkey ▸ hentry)
      have hbefore := h.admits client window
      have hnext : L.prompt client window (s.log ++ [L.respond ticket s.now (value + 1)]) =
          L.prompt client window s.log ++ [L.respond ticket s.now (value + 1)] :=
        prompt_append_of_prompt ⟨hclient, hwindow, hnow⟩
      unfold AdmitsFirst at hbefore ⊢
      rw [hnext, List.countP_append, List.countP_singleton, List.length_append,
        List.length_singleton, ← hvalue]
      rw [← hvalue] at hbefore
      -- The counter says how many were decided before, so it tells whether the limit is reached.
      by_cases hlimit : ((value + 1 : ℕ) : ℤ) ≤ L.limit
      · rw [if_pos ((passes_respond _ _).mpr hlimit)]
        omega
      · rw [if_neg fun hpasses => hlimit ((passes_respond _ _).mp hpasses)]
        omega
    · unfold AdmitsFirst
      rw [prompt_append_of_not_prompt hprompt]
      exact h.admits client window

/-- A counter that expired between the two calls is set anew; its window is over then. -/
theorem restart (h : L.Inv s) (hread : ticket.readAt ≤ s.now)
    (hover : L.endOf (L.window ticket.readAt) ≤ s.now) :
    L.Inv { s with
      cache := s.cache.set s.now L.length (L.key ticket) 1
      log := s.log ++ [L.respond ticket s.now 1] } := by
  have hsame : ∀ client window, L.prompt client window (s.log ++ [L.respond ticket s.now 1]) =
      L.prompt client window s.log := fun _ _ => prompt_append_of_late hover
  have hother : ∀ {client window}, s.now < L.endOf window →
      RateLimitMiddleware.key client window ≠ L.key ticket := by
    intro client window hnow hkey
    obtain ⟨-, rfl⟩ := key_eq_iff.mp hkey.symm
    exact absurd hover (not_le.mpr hnow)
  exact {
    requests := fun id => (h.requests id).keeps update_keeps
    started := h.started_respond hread
    lasting := fun _ _ _ => h.lasting_set hread
    counted := by
      intro client window entry hnow hentry
      dsimp only at hnow hentry ⊢
      rw [ExpiringCache.set_of_ne (hother hnow)] at hentry
      rw [hsame]
      exact h.counted client window entry hnow hentry
    unborn := by
      intro client window hnow hnone
      dsimp only at hnow hnone ⊢
      rw [ExpiringCache.set_of_ne (hother hnow)] at hnone
      rw [hsame]
      exact h.unborn client window hnow hnone
    admits := by
      intro client window
      unfold AdmitsFirst
      rw [hsame]
      exact h.admits client window }

theorem proceed (h : L.Inv s) (id : ℕ) : L.Inv (L.proceed id s) := by
  have hsound := h.requests id
  unfold RateLimit.proceed
  cases hphase : s.counting id with
  | idle => exact h
  | decided => exact h
  | adding ticket =>
      rw [hphase] at hsound
      dsimp only
      rcases s.cache.add_cases s.now L.length (L.key ticket) 0 with
        ⟨entry, hentry, -, hadd⟩ | ⟨hmissing, hadd⟩
      · rw [hadd]
        refine h.turn id ⟨hsound, fun _ => ?_⟩
        rw [hentry]
        exact Option.some_ne_none _
      · rw [hadd]
        refine (h.make hsound hmissing).turn id ⟨hsound, fun _ => ?_⟩
        dsimp only
        rw [ExpiringCache.set_self]
        exact Option.some_ne_none _
  | incrementing ticket =>
      rw [hphase] at hsound
      dsimp only
      rcases s.cache.incr?_cases s.now (L.key ticket) with
        ⟨value, expiry, hentry, -, hincr⟩ | ⟨hmissing, hincr⟩
      · rw [hincr]
        exact (h.count hsound.1 hentry).turn id trivial
      · rw [hincr]
        refine h.turn id ⟨hsound.1, ?_⟩
        -- The counter was there after the addition, so its window is over if it is gone.
        by_contra hnow
        obtain ⟨entry, hentry⟩ := Option.ne_none_iff_exists'.mp (hsound.2 (not_le.mp hnow))
        have hlasting := h.lasting ticket.client _ entry hentry
        have hexpired := hmissing entry hentry
        exact hnow (hlasting.trans hexpired)
  | setting ticket =>
      rw [hphase] at hsound
      exact (h.restart hsound.1 hsound.2).turn id trivial

theorem arrive (h : L.Inv s) (S : RateLimitMiddleware.ProxySettings) (id : ℕ)
    (request : RateLimitMiddleware.HttpRequest) : L.Inv (RateLimit.arrive S id request s) := by
  unfold RateLimit.arrive
  cases s.counting id with
  | idle =>
      dsimp only
      split_ifs
      · exact h.turn id le_rfl
      · exact h.turn id trivial
  | _ => exact h

theorem run (h : L.Inv s) (S : RateLimitMiddleware.ProxySettings) (events : List LimiterEvent) :
    L.Inv (L.run S s events) := by
  refine (Run.foldl (L.step S) s events).invariant h ?_
  rintro s event _ hinv rfl
  cases event with
  | advance elapsed => exact hinv.advance elapsed
  | arrive id request => exact hinv.arrive S id request
  | proceed id => exact hinv.proceed id

end Inv

/-- In every run, of the requests of a client in a window that are decided before its end, the
first ones pass, as many as the limit allows, and all others are refused. -/
theorem admitted_eq_min (L : RateLimit) (S : RateLimitMiddleware.ProxySettings) (now : Time)
    (events : List LimiterEvent) (client : String) (window : ℤ) :
    ((L.prompt client window (L.run S { now } events).log).countP Decision.passes : ℤ) =
      min L.limit (L.prompt client window (L.run S { now } events).log).length :=
  ((Inv.initial now).run S events).admits client window

variable (L) in
/-- The clock was read in an earlier window than the decision was taken in. -/
def Late (decision : Decision) : Prop :=
  L.endOf (L.window decision.ticket.readAt) ≤ decision.time

instance (decision : Decision) : Decidable (L.Late decision) :=
  inferInstanceAs (Decidable (_ ≤ _))

/-- A decision of the client that was taken in the interval of one window length from `start`. -/
def Within (L : RateLimit) (client : String) (start : Time) (decision : Decision) : Prop :=
  decision.ticket.client = client ∧ start ≤ decision.time ∧ decision.time < start + L.length

instance (start : Time) (decision : Decision) : Decidable (L.Within client start decision) :=
  inferInstanceAs (Decidable (_ ∧ _ ∧ _))

/-- A decision in the interval is late, or it is one in the two windows that the interval meets. -/
theorem prompt_of_within {start : Time} {decision : Decision}
    (hread : decision.ticket.readAt ≤ decision.time) (hwithin : L.Within client start decision)
    (hlate : ¬ L.Late decision) :
    L.Prompt client (L.window start) decision ∨ L.Prompt client (L.window start + 1) decision := by
  obtain ⟨hclient, hstart, hend⟩ := hwithin
  have hnow := not_le.mp hlate
  have hlow := (window_mul_le (L := L) decision.ticket.readAt).trans hread
  have hfirst := window_mul_le (L := L) start
  have hlast := lt_endOf (L := L) start
  have hpos := length_pos (L := L)
  have hwindow : L.window decision.ticket.readAt = L.window start ∨
      L.window decision.ticket.readAt = L.window start + 1 := by
    unfold endOf at hnow hlast
    have hge : L.window start < L.window decision.ticket.readAt + 1 :=
      lt_of_mul_lt_mul_right (hfirst.trans_lt (hstart.trans_lt hnow)) hpos.le
    have hle : L.window decision.ticket.readAt < L.window start + 2 := by
      refine lt_of_mul_lt_mul_right (hlow.trans_lt (hend.trans ?_)) hpos.le
      calc start + L.length
          < (L.window start + 1) * L.length + L.length := add_lt_add_left hlast _
        _ = (L.window start + 2) * L.length := by ring
    omega
  rcases hwindow with hwindow | hwindow
  · exact Or.inl ⟨hclient, hwindow, hwindow ▸ hnow⟩
  · exact Or.inr ⟨hclient, hwindow, hwindow ▸ hnow⟩

theorem countP_prompt_le {log : List Decision} (h : L.AdmitsFirst client window log) :
    (log.countP fun decision => decision.passes && L.Prompt client window decision : ℤ) ≤
      L.limit := by
  have hcount : (log.countP fun decision => decision.passes && L.Prompt client window decision) =
      (L.prompt client window log).countP Decision.passes := by
    rw [prompt, List.countP_filter]
  rw [hcount, h]
  exact min_le_left _ _

theorem countP_le_add {α : Type*} {p q r : α → Bool} {l : List α}
    (h : ∀ a ∈ l, p a = true → q a = true ∨ r a = true) :
    l.countP p ≤ l.countP q + l.countP r := by
  induction l with
  | nil => exact Nat.zero_le _
  | cons a l ih =>
      have hrest := ih fun b hb => h b (List.mem_cons_of_mem _ hb)
      have hfirst := h a List.mem_cons_self
      rw [List.countP_cons, List.countP_cons, List.countP_cons]
      split_ifs <;> first | omega | tauto

/-- In every run, at most twice the limit of a client's requests pass in any interval of one
window length, apart from those that were decided after the window of their clock reading. -/
theorem admitted_le_twice (L : RateLimit) (S : RateLimitMiddleware.ProxySettings) (now : Time)
    (events : List LimiterEvent) (client : String) (start : Time) :
    ((L.run S { now } events).log.countP fun decision =>
        decision.passes && L.Within client start decision && !L.Late decision : ℤ) ≤
      2 * L.limit := by
  have hinv : L.Inv (L.run S { now } events) := (Inv.initial now).run S events
  have hfirst := countP_prompt_le (hinv.admits client (L.window start))
  have hsecond := countP_prompt_le (hinv.admits client (L.window start + 1))
  have hsplit : ((L.run S { now } events).log.countP fun decision =>
      decision.passes && L.Within client start decision && !L.Late decision) ≤
        ((L.run S { now } events).log.countP fun decision =>
          decision.passes && L.Prompt client (L.window start) decision) +
        (L.run S { now } events).log.countP fun decision =>
          decision.passes && L.Prompt client (L.window start + 1) decision := by
    refine countP_le_add fun decision hdecision hcounts => ?_
    simp only [Bool.and_eq_true, Bool.not_eq_true', decide_eq_true_eq, decide_eq_false_iff_not]
      at hcounts ⊢
    obtain ⟨⟨hpasses, hwithin⟩, hlate⟩ := hcounts
    exact (prompt_of_within (hinv.started decision hdecision) hwithin hlate).imp
      (fun h => ⟨hpasses, h⟩) fun h => ⟨hpasses, h⟩
  omega

end RateLimit

end JudgeLoom
