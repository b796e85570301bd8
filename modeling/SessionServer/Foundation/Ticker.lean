/-
  Foundation/Ticker.lean --- a periodic thread that does not catch up.

  A ticker sleeps until a deadline and wakes some time after it.  Its deadlines are at least a
  tick apart, and a deadline lies behind the last time it woke.  However late it was, it then
  never wakes in bursts: the number of times it wakes in a window is bounded by the length of
  the window alone.

  Nothing here names the server.
-/
import Mathlib

set_option autoImplicit false

namespace SessionServer.Foundation

/-- One turn of a ticker. -/
structure Beat where
  deadline : Nat
  wakeAt : Nat
  deriving DecidableEq

/-- The next turn is due a tick later, and after this one has begun. -/
structure Beat.Before (tick : Nat) (first next : Beat) : Prop where
  tick_le : first.deadline + tick ≤ next.deadline
  later : first.wakeAt < next.deadline

/-- The turns of a ticker: none begins before its deadline. -/
structure Beats (tick : Nat) (beats : List Beat) : Prop where
  chain : beats.IsChain (Beat.Before tick)
  due : ∀ beat ∈ beats, beat.deadline ≤ beat.wakeAt

/-- The turns that begin in a window. -/
def beatsIn (x length : Nat) (beats : List Beat) : List Beat :=
  beats.filter fun beat => x ≤ beat.wakeAt ∧ beat.wakeAt ≤ x + length

variable {tick : Nat} {beats : List Beat}

theorem Beats.tail {beat : Beat} (h : Beats tick (beat :: beats)) : Beats tick beats :=
  ⟨h.chain.tail, fun other hother => h.due other (List.mem_cons_of_mem _ hother)⟩

theorem Beats.concat {last : Beat} (h : Beats tick beats)
    (hbefore : ∀ beat ∈ beats.getLast?, beat.Before tick last) (hdue : last.deadline ≤ last.wakeAt) :
    Beats tick (beats ++ [last]) where
  chain := by
    refine List.isChain_append.mpr ⟨h.chain, .singleton last, fun beat hbeat other hother => ?_⟩
    obtain rfl : last = other := by simpa using hother
    exact hbefore beat hbeat
  due := by
    intro beat hbeat
    rcases List.mem_append.mp hbeat with hold | hnew
    · exact h.due beat hold
    · rw [List.mem_singleton.mp hnew]
      exact hdue

/-- Turns that are due from a time on: each takes up a tick. -/
theorem Beats.count_le (y : Nat) : ∀ {beats : List Beat} {earliest : Nat}, Beats tick beats →
    (∀ beat ∈ beats.head?, earliest ≤ beat.deadline) →
    (beats.filter fun beat => beat.wakeAt ≤ y).length * tick ≤ y + tick - earliest := by
  intro beats
  induction beats with
  | nil => simp
  | cons beat beats ih =>
      intro earliest h hfrom
      have hfrom : earliest ≤ beat.deadline := hfrom beat rfl
      have hdue := h.due beat List.mem_cons_self
      have hnext : ∀ next ∈ beats.head?, earliest + tick ≤ next.deadline := by
        intro next hnext
        have hbefore := (List.isChain_cons.mp h.chain).1 next hnext
        exact (Nat.add_le_add_right hfrom tick).trans hbefore.tick_le
      have hrest := ih h.tail hnext
      rw [List.filter_cons]
      split
      · rename_i hin
        have hin : beat.wakeAt ≤ y := by simpa using hin
        rw [List.length_cons, Nat.add_mul, Nat.one_mul]
        omega
      · omega

/-- **No bursts.**  A window of any length sees one turn more than it has ticks. -/
theorem Beats.window (htick : 0 < tick) (x length : Nat) :
    ∀ {beats : List Beat}, Beats tick beats →
      (beatsIn x length beats).length ≤ (length + tick - 1) / tick + 1 := by
  intro beats
  induction beats with
  | nil =>
      intro _
      exact Nat.zero_le _
  | cons beat beats ih =>
      intro h
      rw [beatsIn, List.filter_cons]
      split
      · rename_i hin
        obtain ⟨hlow, _⟩ : x ≤ beat.wakeAt ∧ beat.wakeAt ≤ x + length := by simpa using hin
        -- Every later turn is due behind this one.
        have hnext : ∀ next ∈ beats.head?, x + 1 ≤ next.deadline := by
          intro next hnext
          have hlater := ((List.isChain_cons.mp h.chain).1 next hnext).later
          omega
        have hcount := h.tail.count_le (x + length) hnext
        have hsub : (beats.filter fun beat => x ≤ beat.wakeAt ∧ beat.wakeAt ≤ x + length).length ≤
            (beats.filter fun beat => beat.wakeAt ≤ x + length).length :=
          (List.monotone_filter_right beats fun beat hb => by simp_all).length_le
        have hdiv : (beats.filter fun beat => beat.wakeAt ≤ x + length).length ≤
            (length + tick - 1) / tick := by
          rw [Nat.le_div_iff_mul_le htick]
          omega
        rw [List.length_cons]
        omega
      · exact ih h.tail

end SessionServer.Foundation
