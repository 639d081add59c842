import Dataplane.Proofs.TokenBucket.Words
import Mathlib.Algebra.Order.Floor.Div

/-!
# What a token bucket lets through

The bucket counts tokens from the last packet it let through, and rounds down each time. Two
things could go wrong with that: what is let through in some window could add up to more than the
depth of the bucket and the tokens of the time the window takes, or refused packets could keep a
bucket from ever filling up again. Neither happens, wherever in a run the window lies and whatever
came before it (`limits_and_refills`).

## The argument

From a packet that was let through to any later moment the tokens left and those let through
afterwards are covered by the tokens left then and *one* division for the whole time
(`passed_le_of_last`): the roundings of the parts only lose. The first packet that a window lets
through leaves at most the depth less its own length. Refused packets leave the bucket as it is, so
the time that counts runs on.
-/

namespace Dataplane

namespace TokenBucket

/-- A packet at the bucket. -/
structure Call where
  /-- The bytes of the packet. -/
  len : UInt64
  /-- When it comes. -/
  now : Moment
  deriving DecidableEq

/-- The bucket after a packet came, and whether it was let through. -/
def serve (b : TokenBucket) (c : Call) : TokenBucket × Bool :=
  match b.take? c.len.toNat c.now with
  | some b' => (b', true)
  | none => (b, false)

/-- The bucket after some packets. -/
def after (b : TokenBucket) (calls : List Call) : TokenBucket :=
  calls.foldl (fun b c => (b.serve c).1) b

/-- Those of some packets that are let through. -/
def admitted (b : TokenBucket) : List Call → List Call
  | [] => []
  | c :: calls =>
    if (b.serve c).2 then c :: (b.serve c).1.admitted calls else (b.serve c).1.admitted calls

/-- The bytes let through. -/
def passed (b : TokenBucket) (calls : List Call) : Nat :=
  ((b.admitted calls).map (·.len.toNat)).sum

/-- The moments of the packets never decrease. -/
def Ordered (calls : List Call) : Prop := calls.Pairwise (·.now.nanos.toNat ≤ ·.now.nanos.toNat)

instance (calls : List Call) : Decidable (Ordered calls) :=
  inferInstanceAs (Decidable (calls.Pairwise _))

variable {b : TokenBucket} {c : Call} {calls : List Call}

/-! ## One packet -/

/-- A packet that is let through takes its length and sets the time. -/
theorem serve_of_le (h : c.len.toNat ≤ b.available c.now) :
    ∃ b', b.serve c = (b', true) ∧ b'.rate = b.rate ∧ b'.burst = b.burst ∧
      b'.tokens = b.available c.now - c.len.toNat ∧ b'.last = some c.now := by
  simp only [serve, take?, if_pos h]
  exact ⟨_, rfl, rfl, rfl, rfl, rfl⟩

/-- A packet that is refused changes nothing. -/
theorem serve_of_lt (h : b.available c.now < c.len.toNat) : b.serve c = (b, false) := by
  simp only [serve, take?, if_neg (Nat.not_le.mpr h)]

theorem serve_rate (b : TokenBucket) (c : Call) : (b.serve c).1.rate = b.rate := by
  obtain h | h := Nat.lt_or_ge (b.available c.now) c.len.toNat
  · rw [serve_of_lt h]
  · obtain ⟨b', heq, hrate, -⟩ := serve_of_le h
    rw [heq, hrate]

theorem serve_burst (b : TokenBucket) (c : Call) : (b.serve c).1.burst = b.burst := by
  obtain h | h := Nat.lt_or_ge (b.available c.now) c.len.toNat
  · rw [serve_of_lt h]
  · obtain ⟨b', heq, -, hburst, -⟩ := serve_of_le h
    rw [heq, hburst]

/-! ## Runs -/

@[simp]
theorem after_nil (b : TokenBucket) : b.after [] = b := rfl

@[simp]
theorem after_cons (b : TokenBucket) (c : Call) (calls : List Call) :
    b.after (c :: calls) = (b.serve c).1.after calls := rfl

theorem after_rate (b : TokenBucket) (calls : List Call) : (b.after calls).rate = b.rate := by
  induction calls generalizing b with
  | nil => rfl
  | cons c calls ih => rw [after_cons, ih, serve_rate]

theorem after_burst (b : TokenBucket) (calls : List Call) : (b.after calls).burst = b.burst := by
  induction calls generalizing b with
  | nil => rfl
  | cons c calls ih => rw [after_cons, ih, serve_burst]

theorem admitted_cons_of_lt (h : b.available c.now < c.len.toNat) :
    b.admitted (c :: calls) = b.admitted calls := by
  simp [admitted, serve_of_lt h]

theorem admitted_cons_of_serve {b' : TokenBucket} (h : b.serve c = (b', true)) :
    b.admitted (c :: calls) = c :: b'.admitted calls := by
  simp [admitted, h]

theorem passed_cons_of_lt (h : b.available c.now < c.len.toNat) :
    b.passed (c :: calls) = b.passed calls := by
  rw [passed, admitted_cons_of_lt h, passed]

theorem passed_cons_of_serve {b' : TokenBucket} (h : b.serve c = (b', true)) :
    b.passed (c :: calls) = c.len.toNat + b'.passed calls := by
  rw [passed, admitted_cons_of_serve h, List.map_cons, List.sum_cons, passed]

/-- Where nothing is let through, nothing changes. -/
theorem after_of_admitted_nil (h : b.admitted calls = []) : b.after calls = b := by
  induction calls with
  | nil => rfl
  | cons c calls ih =>
    obtain hlt | hle := Nat.lt_or_ge (b.available c.now) c.len.toNat
    · rw [admitted_cons_of_lt hlt] at h
      rw [after_cons, serve_of_lt hlt, ih h]
    · obtain ⟨b', heq, -⟩ := serve_of_le hle
      rw [admitted_cons_of_serve heq] at h
      cases h

/-- The time that counts is that of the last packet let through. -/
theorem last_after (h : c ∈ (b.admitted calls).getLast?) : (b.after calls).last = some c.now := by
  induction calls generalizing b with
  | nil => cases h
  | cons d calls ih =>
    obtain hlt | hle := Nat.lt_or_ge (b.available d.now) d.len.toNat
    · rw [admitted_cons_of_lt hlt] at h
      rw [after_cons, serve_of_lt hlt]
      exact ih h
    · obtain ⟨b', heq, -, -, -, hlast⟩ := serve_of_le hle
      rw [admitted_cons_of_serve heq] at h
      rw [after_cons, heq]
      cases hrest : b'.admitted calls with
      | nil =>
        rw [hrest] at h
        obtain rfl : d = c := by simpa using h
        rw [after_of_admitted_nil hrest, hlast]
      | cons e rest =>
        rw [hrest, List.getLast?_cons_cons] at h
        exact ih (hrest ▸ h)

/-! ## The bound on a window -/

/-- Tokens of two stretches of time, each rounded down, are covered by one division. -/
theorem refill_add_le {s t u : Moment} (rate : Nat) (hst : s.nanos.toNat ≤ t.nanos.toNat)
    (htu : t.nanos.toNat ≤ u.nanos.toNat) :
    t.since s * rate / 1000000000 + u.since t * rate / 1000000000 ≤
      u.since s * rate / 1000000000 := by
  have hsplit : u.since s = t.since s + u.since t := by
    unfold Moment.since
    omega
  rw [hsplit, Nat.add_mul]
  exact Nat.div_add_div_le_add_div

/-- From the last packet let through on, the tokens left then and the time cover what is let
through. -/
theorem passed_le_of_last {last final : Moment} (hlast : b.last = some last)
    (hsorted : Ordered calls) (hfrom : ∀ c ∈ calls, last.nanos.toNat ≤ c.now.nanos.toNat)
    (hto : ∀ c ∈ calls, c.now.nanos.toNat ≤ final.nanos.toNat) :
    b.passed calls ≤ b.tokens + final.since last * b.rate.toNat / 1000000000 := by
  induction calls generalizing b last with
  | nil => exact Nat.zero_le _
  | cons c calls ih =>
    obtain ⟨hc, hrest⟩ := List.pairwise_cons.mp hsorted
    obtain ⟨hfc, hfrest⟩ := List.forall_mem_cons.mp hfrom
    obtain ⟨htc, htrest⟩ := List.forall_mem_cons.mp hto
    obtain hlt | hle := Nat.lt_or_ge (b.available c.now) c.len.toNat
    · rw [passed_cons_of_lt hlt]
      exact ih hlast hrest hfrest htrest
    · obtain ⟨b', heq, hrate, -, htokens, hlast'⟩ := serve_of_le hle
      rw [passed_cons_of_serve heq]
      have hlater := ih hlast' hrest hc htrest
      have hsum := refill_add_le b.rate.toNat hfc htc
      have havail : b.available c.now ≤
          b.tokens + c.now.since last * b.rate.toNat / 1000000000 := by
        unfold available refill
        rw [hlast]
        exact Nat.min_le_left _ _
      rw [hrate, htokens] at hlater
      omega

/-- Whatever the bucket holds, the packets of a window get at most its depth and the tokens of the
time from the first to the last. -/
theorem passed_le {first final : Moment} (hsorted : Ordered calls)
    (hfrom : ∀ c ∈ calls, first.nanos.toNat ≤ c.now.nanos.toNat)
    (hto : ∀ c ∈ calls, c.now.nanos.toNat ≤ final.nanos.toNat) :
    b.passed calls ≤ b.burst.toNat + final.since first * b.rate.toNat / 1000000000 := by
  induction calls with
  | nil => exact Nat.zero_le _
  | cons c calls ih =>
    obtain ⟨hc, hrest⟩ := List.pairwise_cons.mp hsorted
    obtain ⟨hfc, hfrest⟩ := List.forall_mem_cons.mp hfrom
    obtain ⟨htc, htrest⟩ := List.forall_mem_cons.mp hto
    obtain hlt | hle := Nat.lt_or_ge (b.available c.now) c.len.toNat
    · rw [passed_cons_of_lt hlt]
      exact ih hrest hfrest htrest
    · obtain ⟨b', heq, hrate, -, htokens, hlast⟩ := serve_of_le hle
      rw [passed_cons_of_serve heq]
      have hlater := passed_le_of_last hlast hrest hc htrest
      have hsum := refill_add_le b.rate.toNat hfc htc
      have hdepth := b.available_le_burst c.now
      rw [hrate, htokens] at hlater
      omega

/-- The first and the last of some packets in order bound the moments of all. -/
theorem Ordered.between {first last : Call} (h : Ordered calls) (hfirst : first ∈ calls.head?)
    (hlast : last ∈ calls.getLast?) (hc : c ∈ calls) :
    first.now.nanos.toNat ≤ c.now.nanos.toNat ∧ c.now.nanos.toNat ≤ last.now.nanos.toNat := by
  constructor
  · obtain ⟨rest, rfl⟩ : ∃ rest, calls = first :: rest := ⟨_, (List.cons_head?_tail hfirst).symm⟩
    obtain rfl | hmem := List.mem_cons.mp hc
    · exact Nat.le_refl _
    · exact (List.pairwise_cons.mp h).1 c hmem
  · obtain ⟨rest, rfl⟩ : ∃ rest, calls = rest ++ [last] :=
      ⟨_, (List.dropLast_append_getLast? last hlast).symm⟩
    obtain hmem | hmem := List.mem_append.mp hc
    · exact (List.pairwise_append.mp h).2.2 c hmem last (List.mem_singleton_self _)
    · rw [List.mem_singleton.mp hmem]

/-! ## Filling up -/

/-- After the time a whole bucket takes, it is full. -/
theorem available_of_refilled {last now : Moment} (hrate : 0 < b.rate)
    (hlast : b.last = some last)
    (hlater : last.nanos.toNat + (b.burst.toNat * 1000000000) ⌈/⌉ b.rate.toNat ≤ now.nanos.toNat) :
    b.available now = b.burst.toNat := by
  have hpos : 0 < b.rate.toNat := UInt64.lt_iff_toNat_lt.mp hrate
  have hceil : (b.burst.toNat * 1000000000) ⌈/⌉ b.rate.toNat ≤ now.since last := by
    unfold Moment.since
    omega
  have hprod : b.burst.toNat * 1000000000 ≤ now.since last * b.rate.toNat := by
    rw [Nat.mul_comm (now.since last)]
    exact (ceilDiv_le_iff_le_mul hpos).mp hceil
  have hrefill : b.burst.toNat ≤ b.refill now := by
    unfold refill
    rw [hlast]
    exact (Nat.le_div_iff_mul_le (by decide)).mpr hprod
  exact Nat.min_eq_right (Nat.le_trans hrefill (Nat.le_add_left _ _))

/-- A bucket is full when nothing was taken yet, or the time a whole bucket takes has gone by. -/
theorem available_after {rate burst : UInt64} (hrate : 0 < rate)
    (h : ∀ p ∈ ((full rate burst).admitted calls).getLast?,
      p.now.nanos.toNat + (burst.toNat * 1000000000) ⌈/⌉ rate.toNat ≤ c.now.nanos.toNat) :
    ((full rate burst).after calls).available c.now = burst.toNat := by
  have hr : ((full rate burst).after calls).rate = rate := after_rate _ _
  have hb : ((full rate burst).after calls).burst = burst := after_burst _ _
  cases hadmitted : ((full rate burst).admitted calls).getLast? with
  | none =>
    rw [after_of_admitted_nil (List.getLast?_eq_none_iff.mp hadmitted)]
    exact Nat.min_self _
  | some p =>
    have hlast := last_after (Option.mem_def.mpr hadmitted)
    rw [available_of_refilled (by rwa [hr]) hlast, hb]
    rw [hr, hb]
    exact h p hadmitted

/-- **The rate limit.** Packets come to a full bucket at moments that never decrease. The bytes let
through in any window are at most the depth of the bucket and the tokens of the time from the first
packet of the window to the last. A packet no longer than the bucket is deep is let through if the
time that fills a whole bucket has gone by since the last packet let through, however many were
refused since, or if none was let through before. In machine words the product of time and rate
never overflows, and the bucket does exactly the same. -/
theorem limits_and_refills (rate burst : UInt64) (calls : List Call) (hsorted : Ordered calls) :
    (∀ before window rest, calls = before ++ window ++ rest →
      ∀ first ∈ window.head?, ∀ last ∈ window.getLast?,
        ((full rate burst).after before).passed window ≤
          burst.toNat + rate.toNat * last.now.since first.now / 1000000000) ∧
    (∀ before c rest, calls = before ++ c :: rest → c.len ≤ burst → 0 < rate →
      (∀ p ∈ ((full rate burst).admitted before).getLast?,
        p.now.nanos.toNat + (burst.toNat * 1000000000) ⌈/⌉ rate.toNat ≤ c.now.nanos.toNat) →
      (((full rate burst).after before).serve c).2 = true) ∧
    (∀ (b : TokenBucket) (c : Call),
      (∀ last, (Words.wideMul (Words.satSub c.now.nanos last) b.rate).toNat =
        (c.now.nanos.toNat - last.toNat) * b.rate.toNat) ∧
      b.words.take? c.len c.now = (b.take? c.len.toNat c.now).map words) := by
  refine ⟨?window, ?refilled, ?exact⟩
  case window =>
    intro before window rest heq first hfirst last hlast
    have hwindow : Ordered window := by
      rw [heq, Ordered, List.pairwise_append, List.pairwise_append] at hsorted
      exact hsorted.1.2.1
    have hbetween := fun c hc => hwindow.between (c := c) hfirst hlast hc
    have hle := passed_le (b := (full rate burst).after before) hwindow
      (fun c hc => (hbetween c hc).1) (fun c hc => (hbetween c hc).2)
    rw [after_rate, after_burst, Nat.mul_comm] at hle
    exact hle
  case refilled =>
    intro before c rest heq hlen hrate hlater
    have hfull := available_after hrate hlater
    have hle : c.len.toNat ≤ ((full rate burst).after before).available c.now := by
      rw [hfull]
      exact UInt64.le_iff_toNat_le.mp hlen
    obtain ⟨b', hserved, -⟩ := serve_of_le hle
    rw [hserved]
  case exact =>
    intro b c
    refine ⟨fun last => ?_, b.take?_words c.now c.len⟩
    rw [Words.toNat_wideMul, Words.toNat_satSub]

/-- Two packets at a bucket of 10 bytes at 2 bytes a second: the second is refused after two
seconds, and a third that comes five seconds after the first is let through. -/
theorem limits_and_refills_three :
    let calls : List Call := [⟨10, ⟨7⟩⟩, ⟨9, ⟨2000000007⟩⟩, ⟨10, ⟨5000000007⟩⟩]
    Ordered calls ∧ ((full 2 10).after []).passed calls ≤ 10 + 2 * 5000000000 / 1000000000 ∧
      (((full 2 10).after (calls.take 2)).serve ⟨10, ⟨5000000007⟩⟩).2 = true := by
  intro calls
  have hsorted : Ordered calls := by decide
  obtain ⟨hwindow, hrefilled, -⟩ := limits_and_refills 2 10 calls hsorted
  refine ⟨hsorted, ?_, ?_⟩
  · exact hwindow [] calls [] rfl ⟨10, ⟨7⟩⟩ rfl ⟨10, ⟨5000000007⟩⟩ rfl
  · refine hrefilled (calls.take 2) _ [] rfl (by decide) (by decide) ?_
    decide

end TokenBucket

end Dataplane
